import LlamaAgents.Lemmas.Reconciling

/-!
# What a reconcile says about builds

A reconcile records a build as done, or applies a Deployment with it, only when it was recorded as done before or its Job has
succeeded; and it creates the Job of the current build only.
-/

namespace LlamaAgents

namespace BuildCallsAux

open Lib (Dict Script)
open Lib.Script
open ReconcilingAux

variable {r : Reconciler} {name : String} {obs : Observation} {ld copy : LlamaDeployment} {jobs : Dict String JobState}

/-- A build is done for a resource: its status says so, or the Job of the current build has succeeded. -/
def Done (r : Reconciler) (name : String) (ld : LlamaDeployment) (jobs : Dict String JobState) (buildId : String) : Prop :=
  (ld.status.buildStatus = .succeeded ∧ buildId = ld.status.buildId) ∨
    (buildId = r.computeBuildId name ld.spec ∧ jobs.get? (buildJobName name buildId) = some .succeeded)

/-- A build that a Deployment may be applied with: none, or the current one when it is done. -/
def Ready (r : Reconciler) (name : String) (ld : LlamaDeployment) (jobs : Dict String JobState) (buildId : String) : Prop :=
  buildId = "" ∨ (buildId = r.computeBuildId name ld.spec ∧ Done r name ld jobs buildId)

/-- A call of the first part, as far as builds go. -/
def BuildCall (r : Reconciler) (name : String) (ld : LlamaDeployment) (jobs : Dict String JobState) : ApiCall → Prop
  | .status s _ => s.buildStatus = .succeeded → Done r name ld jobs s.buildId
  | .createJob job => job = buildJobName name (r.computeBuildId name ld.spec)
  | .deployment buildId _ _ => Ready r name ld jobs buildId
  | .migrate => False
  | _ => True

/-- A status with the build fields of the resource says nothing new. -/
theorem done_of_same {s : DeploymentStatus} (hid : s.buildId = ld.status.buildId) (hs : s.buildStatus = ld.status.buildStatus) :
    s.buildStatus = .succeeded → Done r name ld jobs s.buildId :=
  fun h => Or.inl ⟨hs ▸ h, hid⟩

theorem initializeStatus_builds (token : String) (full : Bool) :
    (initializeStatus token full ld).Meets (BuildCall r name ld jobs) fun _ => True := by
  unfold initializeStatus
  dsimp only
  split
  · split
    · refine meets_call_bind (done_of_same ?_ ?_) (meets_pure trivial)
      · split_ifs <;> rfl
      · split_ifs <;> rfl
    · exact meets_pure trivial
  · exact meets_pure trivial

theorem checkSecretGate_builds {p : DeploymentPhase} (h : Copies ld p copy) :
    (checkSecretGate obs copy).Meets (BuildCall r name ld jobs) fun _ => True := by
  have hsame : copy.status.buildStatus = .succeeded → Done r name ld jobs copy.status.buildId :=
    done_of_same h.buildId h.buildStatus
  unfold checkSecretGate
  dsimp only
  split
  · exact meets_pure trivial
  split
  · split
    · exact meets_call_bind hsame meets_stop
    · split
      · exact meets_call_bind hsame meets_stop
      · exact meets_stop
  · split
    · exact meets_call_bind hsame (meets_pure trivial)
    · exact meets_pure trivial

theorem handleInvalidDNSName_builds {p : DeploymentPhase} (h : Copies ld p copy) (Q : Underway → Prop) :
    (handleInvalidDNSName name copy).Meets (BuildCall r name ld jobs) Q := by
  unfold handleInvalidDNSName
  refine meets_call_bind trivial ?_
  split
  · exact meets_call_bind (done_of_same h.buildId h.buildStatus) meets_stop
  · exact meets_stop

/-- What a build leaves: the build that a Deployment may be applied with, and a copy that says no more than what is done. -/
structure Built (r : Reconciler) (name : String) (ld : LlamaDeployment) (jobs : Dict String JobState) (x : String × LlamaDeployment) :
    Prop where
  ready : Ready r name ld jobs x.1
  spec : x.2.spec = ld.spec
  done : x.2.status.buildStatus = .succeeded → Done r name ld jobs x.2.status.buildId

theorem supersedeStaleBuildJob_builds (newBuildId : String) :
    (supersedeStaleBuildJob name copy jobs newBuildId).Meets (BuildCall r name ld jobs)
      fun jobs' => ∀ job, (jobs'.get? job = jobs.get? job) ∨ (jobs'.get? job = none ∧ jobs.get? job ≠ some .succeeded) := by
  have hmeets : (supersedeStaleBuildJob name copy jobs newBuildId).Meets (FirstCall r name {} ld jobs) _ :=
    supersedeStaleBuildJob_meets copy newBuildId
  refine ⟨?_, hmeets.2⟩
  unfold supersedeStaleBuildJob
  dsimp only
  split
  · exact List.forall_mem_nil _
  split
  · exact List.forall_mem_nil _
  split
  · exact List.forall_mem_nil _
  · exact List.forall_mem_nil _
  · exact List.forall_mem_singleton.2 trivial

theorem reconcileBuild_builds {p : DeploymentPhase} (h : Copies ld p copy) :
    (r.reconcileBuild name copy jobs).Meets (BuildCall r name ld jobs) (Built r name ld jobs) := by
  have hsame : copy.status.buildStatus = .succeeded → Done r name ld jobs copy.status.buildId :=
    done_of_same h.buildId h.buildStatus
  unfold Reconciler.reconcileBuild
  dsimp only
  split
  · exact meets_pure ⟨Or.inl rfl, h.spec, hsame⟩
  split
  · exact meets_pure ⟨Or.inl rfl, h.spec, hsame⟩
  split
  · case _ hbuilt =>
    rw [Bool.and_eq_true, decide_eq_true_eq, decide_eq_true_eq] at hbuilt
    refine meets_pure ⟨Or.inr ⟨by rw [h.spec], ?_⟩, h.spec, hsame⟩
    dsimp only
    rw [← hbuilt.1]
    exact hsame hbuilt.2
  refine meets_bind (supersedeStaleBuildJob_builds _) fun jobs' hjobs => ?_
  split
  · exact meets_call_bind (by rw [BuildCall, h.spec]) (meets_call_bind (fun h => by cases h) meets_stop)
  · case _ hjob =>
    -- A Job that has succeeded was not taken away, so it is one of those that there were.
    have hdone : Done r name ld jobs (r.computeBuildId name copy.spec) := by
      refine Or.inr ⟨by rw [h.spec], ?_⟩
      rcases hjobs (buildJobName name (r.computeBuildId name copy.spec)) with hkept | ⟨hnone, -⟩
      · rw [← hkept, hjob]
      · rw [hnone] at hjob
        cases hjob
    exact meets_call_bind (fun _ => hdone) (meets_pure ⟨Or.inr ⟨by rw [h.spec], hdone⟩, h.spec, fun _ => hdone⟩)
  · split
    · exact meets_call_bind trivial (meets_call_bind hsame meets_stop)
    · exact meets_call_bind (fun h => by cases h) meets_stop
  · split
    · exact meets_call_bind (fun h => by cases h) meets_stop
    · exact meets_stop

theorem reconcileResources_builds {buildId : String} (hbuilt : Built r name ld jobs (buildId, copy)) :
    (reconcileResources obs buildId copy).Meets (BuildCall r name ld jobs) fun _ => True := by
  have hfail (error : String) : (handleReconcileFailure copy error).Meets (BuildCall r name ld jobs) fun _ => True := by
    unfold handleReconcileFailure
    split
    · exact meets_call_bind hbuilt.done meets_stop
    · exact meets_stop
  unfold reconcileResources
  split
  · exact meets_call hbuilt.ready trivial
  · exact meets_call_bind hbuilt.ready (hfail _)
  · exact hfail _

/-- What the first part of a reconcile leaves, as far as builds go. -/
structure BeganBuilt (r : Reconciler) (name : String) (ld : LlamaDeployment) (jobs : Dict String JobState) (u : Underway) : Prop where
  spec : u.copy.spec = ld.spec
  done : u.copy.status.buildStatus = .succeeded → Done r name ld jobs u.copy.status.buildId
  ready : ∀ buildId, u.remaining = .rollout buildId → Ready r name ld jobs buildId

/-- The first part of a reconcile that has no name to move, as far as builds go. -/
theorem reconcile_builds (r : Reconciler) (name : String) (gated : Bool) (obs : Observation) (jobs : Dict String JobState)
    (hname : ld.needsMigration = false) :
    (r.reconcile name gated obs ld jobs).Meets (BuildCall r name ld jobs) (BeganBuilt r name ld jobs) := by
  unfold Reconciler.reconcile
  simp only [hname, Bool.false_eq_true, if_false]
  split
  · exact meets_stop
  have hinit : (initializeStatus obs.authToken ld.needsFullReconciliation ld).Meets (FirstCall r name obs ld jobs) _ :=
    initializeStatus_meets obs.authToken
  refine meets_bind ⟨(initializeStatus_builds _ _).1, hinit.2⟩ fun first hfirst => ?_
  have hgate : (checkSecretGate obs first).Meets (FirstCall r name obs ld jobs) _ := checkSecretGate_meets hfirst
  refine meets_bind ⟨(checkSecretGate_builds hfirst).1, hgate.2⟩ fun copy hcopy => ?_
  have hleft (remaining : Remaining) (hne : ∀ buildId, remaining ≠ .rollout buildId) :
      BeganBuilt r name ld jobs ⟨ld.needsFullReconciliation, copy, remaining⟩ :=
    ⟨hcopy.spec, done_of_same hcopy.buildId hcopy.buildStatus, fun buildId h => (hne buildId h).elim⟩
  split
  · exact handleInvalidDNSName_builds hcopy _
  split
  · exact meets_pure (hleft _ nofun)
  split
  · exact meets_pure (hleft _ nofun)
  refine meets_bind (reconcileBuild_builds hcopy) fun built hbuilt => ?_
  obtain ⟨buildId, built⟩ := built
  refine meets_bind (reconcileResources_builds hbuilt) fun _ _ => meets_pure ⟨hbuilt.spec, hbuilt.done, fun b hb => ?_⟩
  cases hb
  exact hbuilt.ready

variable {u : Underway} {fresh : LlamaDeployment}

/-- A status with the build fields of another. -/
def SameBuild (s t : DeploymentStatus) : Prop := s.buildId = t.buildId ∧ s.buildStatus = t.buildStatus

/-- A call of the second part, as far as builds go. -/
def SecondBuildCall (u : Underway) (fresh : LlamaDeployment) : ApiCall → Prop
  | .status s _ => SameBuild s fresh.status ∨ u.full = false ∧ u.remaining ≠ .migrated ∧ SameBuild s u.copy.status
  | .deployment buildId _ _ => u.remaining = .rollout buildId
  | .scaleDownReplicaSet => True
  | _ => False

/-- A status with the build fields of the resource that the second part works on. -/
theorem sameBuild_current {s : DeploymentStatus} (hleft : u.remaining ≠ .migrated) (h : SameBuild s (u.current fresh).status) :
    SameBuild s fresh.status ∨ u.full = false ∧ u.remaining ≠ .migrated ∧ SameBuild s u.copy.status := by
  unfold Underway.current at h
  split at h
  · exact Or.inl h
  · case _ hfull => exact Or.inr ⟨Bool.not_eq_true _ ▸ hfull, hleft, h⟩

theorem updateVersionTracking_builds :
    (updateVersionTracking u fresh).Meets (SecondBuildCall u fresh) (· = u.current fresh) := by
  unfold updateVersionTracking
  split
  · exact meets_call_bind (Or.inl ⟨rfl, rfl⟩) (meets_pure rfl)
  · exact meets_pure rfl

theorem finalizePhase_builds (phase : DeploymentPhase) (message : String) (dirty : Bool) (note : Option FailureNote)
    (hleft : u.remaining ≠ .migrated) (h : SameBuild ld.status (u.current fresh).status) :
    (finalizePhase ld phase message dirty note).Meets (SecondBuildCall u fresh) fun _ => True := by
  unfold finalizePhase
  split
  · exact meets_call (sameBuild_current hleft h) trivial
  · exact meets_pure trivial

/-- The second part of a reconcile, as far as builds go. -/
theorem resume_builds (r : Reconciler) (obs : Observation) (u : Underway) (fresh : LlamaDeployment) :
    (r.resume obs u fresh).Meets (SecondBuildCall u fresh) fun _ => True := by
  unfold Reconciler.resume
  cases hleft : u.remaining with
  | migrated => exact meets_call (Or.inl ⟨rfl, rfl⟩) trivial
  | alreadyFailed => exact meets_bind updateVersionTracking_builds fun _ _ => meets_pure (Q := fun _ => True) trivial
  | awaitingCode =>
    refine meets_bind updateVersionTracking_builds fun ld hld => ?_
    subst hld
    exact finalizePhase_builds _ _ _ _ (by rw [hleft]; exact nofun) ⟨rfl, rfl⟩
  | rollout buildId =>
    have hne : u.remaining ≠ .migrated := by rw [hleft]; exact nofun
    refine meets_bind updateVersionTracking_builds fun ld hld => ?_
    subst hld
    unfold Reconciler.finishRollout
    dsimp only
    split
    · split
      · exact meets_stop
      · refine meets_call_bind ?_ (finalizePhase_builds _ _ _ _ hne ?_)
        · split
          · trivial
          · exact hleft
        · split
          · exact ⟨rfl, rfl⟩
          · exact ⟨rfl, rfl⟩
    · exact finalizePhase_builds _ _ _ _ hne ⟨rfl, rfl⟩

end BuildCallsAux

end LlamaAgents
