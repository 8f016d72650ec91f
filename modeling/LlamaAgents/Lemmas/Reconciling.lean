import LlamaAgents.Operator.Cluster

/-!
# What a reconcile writes

Every status that a reconcile writes, by the reason for which it is written: the phase that it gives, and what it says about the
failed generation. Everything about runs of the operator is derived from these two lists.
-/

namespace LlamaAgents

namespace ReconcilingAux

open Lib (Dict Script)
open Lib.Script

/-- The phase that a reconcile goes on with. -/
def initialPhase (ld : LlamaDeployment) : DeploymentPhase :=
  if (ld.status.phase = .unset || ld.needsFullReconciliation) && !ld.status.phase.isKept then .pending else ld.status.phase

/-- A terminal phase is kept by a reconcile. -/
theorem initialPhase_of_terminal {ld : LlamaDeployment} (h : ld.status.phase.isTerminalFailure = true) :
    initialPhase ld = ld.status.phase := by
  have hkept : ld.status.phase.isKept = true := by
    revert h
    cases ld.status.phase <;> simp [DeploymentPhase.isKept, DeploymentPhase.isTerminalFailure]
  simp [initialPhase, hkept]

/-- A copy of a resource of which only the phase, the token, texts and counters may differ. -/
structure Copies (ld : LlamaDeployment) (p : DeploymentPhase) (copy : LlamaDeployment) : Prop where
  generation : copy.generation = ld.generation
  spec : copy.spec = ld.spec
  marker : copy.status.failedRolloutGeneration = ld.status.failedRolloutGeneration
  buildId : copy.status.buildId = ld.status.buildId
  buildStatus : copy.status.buildStatus = ld.status.buildStatus
  lastBuilt : copy.status.lastBuiltGeneration = ld.status.lastBuiltGeneration
  phase : copy.status.phase = p

/-- The Job of the current build has failed. -/
def JobFailed (r : Reconciler) (name : String) (ld : LlamaDeployment) (jobs : Dict String JobState) : Prop :=
  jobs.get? (buildJobName name (r.computeBuildId name ld.spec)) = some .failed

/-- The current generation is not skipped as one that has failed. -/
def NotSkipped (ld : LlamaDeployment) : Prop :=
  ¬ ((initialPhase ld).isTerminalFailure = true ∧ ld.status.failedRolloutGeneration = ld.generation)

/-- The statuses that the first part of a reconcile writes. -/
inductive FirstStatus (r : Reconciler) (name : String) (obs : Observation) (ld : LlamaDeployment) (jobs : Dict String JobState) :
    DeploymentStatus → Option FailureNote → Prop
  | kept {s : DeploymentStatus} (hm : s.failedRolloutGeneration = ld.status.failedRolloutGeneration)
      (hp : s.phase = initialPhase ld) : FirstStatus r name obs ld jobs s none
  | secret {s : DeploymentStatus} (hm : s.failedRolloutGeneration = ld.status.failedRolloutGeneration)
      (hsecret : ld.spec.secretName ≠ "") (hobs : obs.secret = .notFound) (hp : s.phase = .rolloutFailed) :
      FirstStatus r name obs ld jobs s none
  | failed {s : DeploymentStatus} (hm : s.failedRolloutGeneration = ld.status.failedRolloutGeneration) (hp : s.phase = .failed) :
      FirstStatus r name obs ld jobs s none
  | building {s : DeploymentStatus} (hm : s.failedRolloutGeneration = ld.status.failedRolloutGeneration) (hskip : NotSkipped ld)
      (hbuild : r.needsBuild name ld jobs = true) (hp : s.phase = .building) : FirstStatus r name obs ld jobs s none
  | retried {s : DeploymentStatus} (hm : s.failedRolloutGeneration = ld.generation) (hskip : NotSkipped ld)
      (hjob : JobFailed r name ld jobs) (hp : s.phase = initialPhase ld) :
      FirstStatus r name obs ld jobs s (some (.buildRetried ld.generation))
  | buildFailed {s : DeploymentStatus} (hm : s.failedRolloutGeneration = ld.generation) (hskip : NotSkipped ld)
      (hjob : JobFailed r name ld jobs) (hp : s.phase = .buildFailed) :
      FirstStatus r name obs ld jobs s (some (.buildFailed ld.generation))

/-- A call of the first part: if it writes a status, then one of those. -/
def FirstCall (r : Reconciler) (name : String) (obs : Observation) (ld : LlamaDeployment) (jobs : Dict String JobState) :
    ApiCall → Prop
  | .status s note => FirstStatus r name obs ld jobs s note
  | .migrate => False
  | _ => True

variable {r : Reconciler} {name : String} {obs : Observation} {ld copy : LlamaDeployment} {jobs : Dict String JobState}

theorem initializeStatus_meets (token : String) :
    (initializeStatus token ld.needsFullReconciliation ld).Meets (FirstCall r name obs ld jobs) (Copies ld (initialPhase ld)) := by
  unfold initializeStatus
  by_cases hopen : (ld.status.phase = .unset || ld.needsFullReconciliation) = true
  · rw [if_pos hopen]
    dsimp only
    by_cases hkept : ld.status.phase.isKept = true
    · have hp : initialPhase ld = ld.status.phase := by simp [initialPhase, hkept]
      by_cases htoken : ld.status.authToken = ""
      · simp only [hkept, htoken, if_true, decide_true, Bool.true_or]
        exact meets_call_bind (.kept rfl hp.symm) (meets_pure ⟨rfl, rfl, rfl, rfl, rfl, rfl, hp.symm⟩)
      · simp only [hkept, htoken, decide_false, Bool.not_true, Bool.or_self, Bool.false_eq_true, if_false]
        exact meets_pure ⟨rfl, rfl, rfl, rfl, rfl, rfl, hp.symm⟩
    · have hp : initialPhase ld = .pending := by simp [initialPhase, hkept, hopen]
      simp only [hkept, Bool.false_eq_true, if_false, Bool.not_false, Bool.or_true, if_true]
      refine meets_call_bind (.kept ?_ hp.symm) (meets_pure ⟨rfl, rfl, ?_, ?_, ?_, ?_, hp.symm⟩)
      all_goals
        dsimp only
        split <;> rfl
  · rw [if_neg hopen]
    have hp : initialPhase ld = ld.status.phase := by simp [initialPhase, hopen]
    exact meets_pure ⟨rfl, rfl, rfl, rfl, rfl, rfl, hp.symm⟩

theorem checkSecretGate_meets (h : Copies ld (initialPhase ld) copy) :
    (checkSecretGate obs copy).Meets (FirstCall r name obs ld jobs) (Copies ld (initialPhase ld)) := by
  unfold checkSecretGate
  by_cases hname : copy.spec.secretName = ""
  · rw [if_pos hname]
    exact meets_pure h
  rw [if_neg hname]
  cases hobs : obs.secret with
  | notFound =>
    dsimp only
    split
    · exact meets_call_bind (.kept h.marker h.phase) meets_stop
    · split
      · exact meets_call_bind (.secret h.marker (h.spec ▸ hname) hobs rfl) meets_stop
      · exact meets_stop
  | found resetFails =>
    have hreset : Copies ld (initialPhase ld) { copy with status := { copy.status with secretCheckRetries := 0 } } :=
      ⟨h.generation, h.spec, h.marker, h.buildId, h.buildStatus, h.lastBuilt, h.phase⟩
    dsimp only
    split
    · exact meets_call_bind (.kept h.marker h.phase) (meets_pure hreset)
    · exact meets_pure hreset

theorem handleInvalidDNSName_meets (h : Copies ld (initialPhase ld) copy) (Q : Underway → Prop) :
    (handleInvalidDNSName name copy).Meets (FirstCall r name obs ld jobs) Q := by
  unfold handleInvalidDNSName
  refine meets_call_bind trivial ?_
  split
  · exact meets_call_bind (.failed h.marker rfl) meets_stop
  · exact meets_stop

/-- Superseding a Job only takes Jobs away, and none that has succeeded. -/
theorem supersedeStaleBuildJob_meets (copy : LlamaDeployment) (newBuildId : String) :
    (supersedeStaleBuildJob name copy jobs newBuildId).Meets (FirstCall r name obs ld jobs)
      fun jobs' => ∀ job, (jobs'.get? job = jobs.get? job) ∨ (jobs'.get? job = none ∧ jobs.get? job ≠ some .succeeded) := by
  unfold supersedeStaleBuildJob
  dsimp only
  split
  · exact meets_pure fun _ => Or.inl rfl
  split
  · exact meets_pure fun _ => Or.inl rfl
  split
  · exact meets_pure fun _ => Or.inl rfl
  · exact meets_pure fun _ => Or.inl rfl
  · case _ state hstate hjob =>
    refine meets_call_bind trivial (meets_pure fun job => ?_)
    by_cases hsame : job = buildJobName name copy.status.buildId
    · subst hsame
      refine Or.inr ⟨Dict.get?_erase_self _ _, ?_⟩
      rw [hjob]
      exact fun h => hstate (Option.some.inj h)
    · exact Or.inl (Dict.get?_erase_ne _ hsame)

/-- What is left of a resource that a build has gone through: the build fields may have changed. -/
structure Follows (ld : LlamaDeployment) (p : DeploymentPhase) (copy : LlamaDeployment) : Prop where
  generation : copy.generation = ld.generation
  spec : copy.spec = ld.spec
  marker : copy.status.failedRolloutGeneration = ld.status.failedRolloutGeneration
  phase : copy.status.phase = p

theorem Copies.follows {p : DeploymentPhase} (h : Copies ld p copy) : Follows ld p copy :=
  ⟨h.generation, h.spec, h.marker, h.phase⟩

theorem reconcileBuild_meets (h : Copies ld (initialPhase ld) copy) (hskip : NotSkipped ld) :
    (r.reconcileBuild name copy jobs).Meets (FirstCall r name obs ld jobs) fun x => Follows ld (initialPhase ld) x.2 := by
  have hspec := h.spec
  unfold Reconciler.reconcileBuild
  dsimp only
  split
  · exact meets_pure h.follows
  · case _ hcode =>
  split
  · exact meets_pure h.follows
  · case _ hsuspended =>
  split
  · exact meets_pure h.follows
  · case _ hbuilt =>
  -- What is left of the Jobs decides; the Job of the build is as it was, or it was an unfinished one and is gone.
  refine meets_bind (supersedeStaleBuildJob_meets copy _) fun jobs' hjobs => ?_
  have hneeds (hjob : jobs'.get? (buildJobName name (r.computeBuildId name copy.spec)) ≠ some .succeeded) :
      r.needsBuild name ld jobs = true := by
    have hjob' : jobs.get? (buildJobName name (r.computeBuildId name ld.spec)) ≠ some .succeeded := by
      rw [← hspec]
      rcases hjobs (buildJobName name (r.computeBuildId name copy.spec)) with hsame | ⟨-, hne⟩
      · rwa [← hsame]
      · exact hne
    rw [LlamaDeployment.isAwaitingCodePush, hspec] at hcode
    rw [hspec, h.lastBuilt] at hsuspended
    rw [hspec, h.buildId, h.buildStatus] at hbuilt
    simp only [Reconciler.needsBuild, LlamaDeployment.isAwaitingCodePush, hcode, hsuspended, hbuilt, hjob', ne_eq, not_false_eq_true,
      decide_true, Bool.not_false, Bool.and_self]
  have hfailed (hjob : jobs'.get? (buildJobName name (r.computeBuildId name copy.spec)) = some .failed) :
      JobFailed r name ld jobs := by
    rw [JobFailed, ← hspec]
    rcases hjobs (buildJobName name (r.computeBuildId name copy.spec)) with hsame | ⟨hnone, -⟩
    · rw [← hsame, hjob]
    · rw [hnone] at hjob
      cases hjob
  cases hjob : jobs'.get? (buildJobName name (r.computeBuildId name copy.spec)) with
  | none =>
    exact meets_call_bind trivial
      (meets_call_bind (.building h.marker hskip (hneeds (by rw [hjob]; intro h; cases h)) rfl) meets_stop)
  | some state =>
    cases state with
    | succeeded => exact meets_call_bind (.kept h.marker h.phase) (meets_pure ⟨h.generation, h.spec, h.marker, h.phase⟩)
    | failed =>
      dsimp only
      rw [h.generation]
      split
      · exact meets_call_bind trivial (meets_call_bind (.retried rfl hskip (hfailed hjob) h.phase) meets_stop)
      · exact meets_call_bind (.buildFailed rfl hskip (hfailed hjob) rfl) meets_stop
    | active =>
      dsimp only
      split
      · exact meets_call_bind (.building h.marker hskip (hneeds (by rw [hjob]; intro h; cases h)) rfl) meets_stop
      · exact meets_stop

theorem handleReconcileFailure_meets {p : DeploymentPhase} (h : Follows ld p copy) (error : String) :
    (handleReconcileFailure copy error).Meets (FirstCall r name obs ld jobs) fun _ => True := by
  unfold handleReconcileFailure
  split
  · exact meets_call_bind (.failed h.marker rfl) meets_stop
  · exact meets_stop

theorem reconcileResources_meets {p : DeploymentPhase} (h : Follows ld p copy) (buildId : String) :
    (reconcileResources obs buildId copy).Meets (FirstCall r name obs ld jobs) fun _ => True := by
  unfold reconcileResources
  split
  · exact meets_call trivial trivial
  · exact meets_call_bind trivial (handleReconcileFailure_meets h _)
  · exact handleReconcileFailure_meets h _

/-- Why the first part of a reconcile ends where it does. -/
def Left (ld : LlamaDeployment) : Remaining → Prop
  | .migrated => False
  | .alreadyFailed => ¬ NotSkipped ld
  | .awaitingCode => NotSkipped ld ∧ ld.isAwaitingCodePush = true
  | .rollout _ => NotSkipped ld

/-- How the first part of a reconcile ends. -/
structure Began (ld : LlamaDeployment) (u : Underway) : Prop where
  full : u.full = ld.needsFullReconciliation
  follows : Follows ld (initialPhase ld) u.copy
  left : Left ld u.remaining

theorem isAlreadyFailed_iff (h : Copies ld (initialPhase ld) copy) : copy.isAlreadyFailed = true ↔ ¬ NotSkipped ld := by
  rw [LlamaDeployment.isAlreadyFailed, h.phase, h.marker, h.generation, NotSkipped, not_not, Bool.and_eq_true,
    decide_eq_true_eq]

/-- The first part of a reconcile that has no name to move writes the statuses listed, and leaves a part for one of the reasons. -/
theorem reconcile_meets (r : Reconciler) (name : String) (gated : Bool) (obs : Observation) (jobs : Dict String JobState)
    (hname : ld.needsMigration = false) :
    (r.reconcile name gated obs ld jobs).Meets (FirstCall r name obs ld jobs) (Began ld) := by
  unfold Reconciler.reconcile
  simp only [hname, Bool.false_eq_true, if_false]
  split
  · exact meets_stop
  refine meets_bind (initializeStatus_meets obs.authToken) fun first hfirst => ?_
  refine meets_bind (checkSecretGate_meets hfirst) fun copy hcopy => ?_
  split
  · exact handleInvalidDNSName_meets hcopy _
  split
  · case _ hfailed => exact meets_pure ⟨rfl, hcopy.follows, (isAlreadyFailed_iff hcopy).1 hfailed⟩
  · case _ hfailed =>
  have hskip : NotSkipped ld := not_not.1 fun h => hfailed ((isAlreadyFailed_iff hcopy).2 h)
  split
  · case _ hcode =>
    rw [LlamaDeployment.isAwaitingCodePush, hcopy.spec] at hcode
    exact meets_pure ⟨rfl, hcopy.follows, hskip, hcode⟩
  refine meets_bind (reconcileBuild_meets hcopy hskip) fun built hbuilt => ?_
  obtain ⟨buildId, built⟩ := built
  exact meets_bind (reconcileResources_meets hbuilt buildId) fun _ _ => meets_pure ⟨rfl, hbuilt, hskip⟩

/-- A reconcile that is turned away makes no call. -/
theorem reconcile_gated (hname : ld.needsMigration = false) : r.reconcile name true obs ld jobs = stop := by
  simp [Reconciler.reconcile, hname]

/-- A reconcile with a name to move does only that. -/
theorem reconcile_migrates (gated : Bool) (hname : ld.needsMigration = true) :
    r.reconcile name gated obs ld jobs = ⟨[.migrate], some ⟨ld.needsFullReconciliation, ld, .migrated⟩⟩ := by
  simp only [Reconciler.reconcile, hname, if_true]
  rfl

/-- What every call keeps of a resource holds after all of them. -/
theorem performAll_invariant {m : Managed} {calls : List ApiCall} (P : Managed → Prop) (h : P m)
    (hstep : ∀ m' c, c ∈ calls → P m' → P (m'.perform c)) : P (m.performAll calls) := by
  induction calls generalizing m with
  | nil => exact h
  | cons c calls ih =>
    exact ih (hstep m c List.mem_cons_self h) fun m' c' hc' => hstep m' c' (List.mem_cons_of_mem _ hc')

/-- The statuses that the second part of a reconcile writes. -/
inductive SecondStatus (r : Reconciler) (obs : Observation) (u : Underway) (fresh : LlamaDeployment) :
    DeploymentStatus → Option FailureNote → Prop
  | read {s : DeploymentStatus} (hread : u.full = true ∨ u.remaining = .migrated)
      (hm : s.failedRolloutGeneration = fresh.status.failedRolloutGeneration) (hp : s.phase = fresh.status.phase) :
      SecondStatus r obs u fresh s none
  | awaiting {s : DeploymentStatus} (hleft : u.remaining = .awaitingCode)
      (hm : s.failedRolloutGeneration = (u.current fresh).status.failedRolloutGeneration) (hp : s.phase = .awaitingCode) :
      SecondStatus r obs u fresh s none
  | assessed {s : DeploymentStatus} {buildId : String} (hleft : u.remaining = .rollout buildId)
      (hm : s.failedRolloutGeneration = (u.current fresh).status.failedRolloutGeneration)
      (hp : s.phase = (r.assessDeploymentHealth obs (u.current fresh)).phase)
      (hfailed : s.phase.isFailedPhase = true → s.failedRolloutGeneration = (u.current fresh).generation) :
      SecondStatus r obs u fresh s none
  | remediated {s : DeploymentStatus} {buildId : String} (hleft : u.remaining = .rollout buildId)
      (hm : s.failedRolloutGeneration = (u.current fresh).generation)
      (hp : s.phase = (r.assessDeploymentHealth obs (u.current fresh)).phase) (hfailed : s.phase.isFailedPhase = true) :
      SecondStatus r obs u fresh s (some (.rolloutRemediated u.copy.generation))

/-- A call of the second part: if it writes a status, then one of those. -/
def SecondCall (r : Reconciler) (obs : Observation) (u : Underway) (fresh : LlamaDeployment) : ApiCall → Prop
  | .status s note => SecondStatus r obs u fresh s note
  | .deployment _ _ _ | .scaleDownReplicaSet => True
  | _ => False

variable {u : Underway} {fresh : LlamaDeployment}

theorem finishRollout_meets {buildId : String} (hleft : u.remaining = .rollout buildId) :
    (r.finishRollout obs u.copy.generation buildId (u.current fresh)).Meets (SecondCall r obs u fresh) fun _ => True := by
  unfold Reconciler.finishRollout
  dsimp only
  split
  · case _ hfailed =>
    rw [Bool.and_eq_true] at hfailed
    split
    · exact meets_stop
    · refine meets_call_bind ?_ ?_
      · split <;> trivial
      · rw [finalizePhase, if_pos (Bool.or_true _)]
        refine meets_call (SecondStatus.remediated hleft ?_ rfl hfailed.1) trivial
        dsimp only
        split <;> rfl
  · case _ hfailed =>
    unfold finalizePhase
    split
    · refine meets_call (SecondStatus.assessed hleft rfl rfl fun h => ?_) trivial
      have hphase : (r.assessDeploymentHealth obs (u.current fresh)).phase.isFailedPhase = true := h
      rw [hphase, Bool.true_and, decide_eq_true_eq, not_not] at hfailed
      exact hfailed
    · exact meets_pure trivial

theorem updateVersionTracking_meets : (updateVersionTracking u fresh).Meets (SecondCall r obs u fresh) (· = u.current fresh) := by
  unfold updateVersionTracking
  split
  · case _ hfull => exact meets_call_bind (.read (Or.inl hfull) rfl rfl) (meets_pure rfl)
  · exact meets_pure rfl

/-- The second part of a reconcile writes the statuses listed. -/
theorem resume_meets (r : Reconciler) (obs : Observation) (u : Underway) (fresh : LlamaDeployment) :
    (r.resume obs u fresh).Meets (SecondCall r obs u fresh) fun _ => True := by
  unfold Reconciler.resume
  cases hleft : u.remaining with
  | migrated => exact meets_call (.read (Or.inr hleft) rfl rfl) trivial
  | alreadyFailed => exact meets_bind updateVersionTracking_meets fun _ _ => meets_pure (Q := fun _ => True) trivial
  | awaitingCode =>
    refine meets_bind updateVersionTracking_meets fun ld hld => ?_
    subst hld
    unfold finalizePhase
    split
    · exact meets_call (.awaiting hleft rfl rfl) trivial
    · exact meets_pure trivial
  | rollout buildId =>
    refine meets_bind updateVersionTracking_meets fun ld hld => ?_
    subst hld
    exact finishRollout_meets hleft

/-- The second part makes no other calls than those of `resume`. -/
theorem mem_resume_of_finishing {m : Managed} {c : ApiCall} (hc : c ∈ Cluster.finishing r obs u m) :
    c ∈ (r.resume obs u m.object).calls := by
  unfold Cluster.finishing at hc
  dsimp only at hc
  split at hc
  · exact hc
  · exact (List.takeWhile_sublist _).subset hc

end ReconcilingAux

end LlamaAgents
