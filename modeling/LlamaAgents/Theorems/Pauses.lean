import LlamaAgents.Lemmas.Reconciling
import LlamaAgents.Operator.Pauses

/-!
# A pause ends with the failed generation

A Deployment that a failed rollout has paused is unpaused when it is applied for a later generation, as long as the status still names
the generation of the rollout and the pause is read. The retry of a build names its own generation there, and a pause whose record is
refused is named nowhere.

As long as a paused Deployment has the generation that has paused it in the marker of its resource, a reconcile for a later generation
unpauses it. The first part of a reconcile never pauses, and the second one pauses for the generation that it marks.
-/

namespace LlamaAgents

namespace PausesAux

open Lib.Script
open ReconcilingAux

variable {r : Reconciler} {name : String} {obs : Observation} {ld copy : LlamaDeployment} {jobs : Lib.Dict String JobState}
  {W W' V : PauseWorld} {u : Underway}

/-! ## The first part of a reconcile -/

/-- A Deployment is unpaused for a generation after the marked one, and the first part pauses none. -/
def Lifts (obs : Observation) (ld : LlamaDeployment) : ApiCall → Prop
  | .deployment _ unpause _ =>
    unpause = (obs.paused && 0 < ld.status.failedRolloutGeneration && ld.status.failedRolloutGeneration < ld.generation)
  | .scaleDownReplicaSet => False
  | _ => True

theorem initializeStatus_lifts (token : String) (full : Bool) : (initializeStatus token full copy).Meets (Lifts obs ld) fun _ => True := by
  unfold initializeStatus
  dsimp only
  split
  · split
    · exact meets_call_bind trivial (meets_pure trivial)
    · exact meets_pure trivial
  · exact meets_pure trivial

theorem checkSecretGate_lifts : (checkSecretGate obs copy).Meets (Lifts obs ld) fun _ => True := by
  unfold checkSecretGate
  dsimp only
  split
  · exact meets_pure trivial
  split
  · split
    · exact meets_call_bind trivial meets_stop
    · split
      · exact meets_call_bind trivial meets_stop
      · exact meets_stop
  · split
    · exact meets_call_bind trivial (meets_pure trivial)
    · exact meets_pure trivial

theorem supersedeStaleBuildJob_lifts (newBuildId : String) :
    (supersedeStaleBuildJob name copy jobs newBuildId).Meets (Lifts obs ld) fun _ => True := by
  unfold supersedeStaleBuildJob
  dsimp only
  split
  · exact meets_pure trivial
  split
  · exact meets_pure trivial
  split
  · exact meets_pure trivial
  · exact meets_pure trivial
  · exact meets_call_bind trivial (meets_pure trivial)

theorem reconcileBuild_lifts : (r.reconcileBuild name copy jobs).Meets (Lifts obs ld) fun _ => True := by
  unfold Reconciler.reconcileBuild
  dsimp only
  split
  · exact meets_pure trivial
  split
  · exact meets_pure trivial
  split
  · exact meets_pure trivial
  refine meets_bind (supersedeStaleBuildJob_lifts _) fun jobs' _ => ?_
  split
  · exact meets_call_bind trivial (meets_call_bind trivial meets_stop)
  · exact meets_call_bind trivial (meets_pure trivial)
  · split
    · exact meets_call_bind trivial (meets_call_bind trivial meets_stop)
    · exact meets_call_bind trivial meets_stop
  · split
    · exact meets_call_bind trivial meets_stop
    · exact meets_stop

theorem reconcileResources_lifts {p : DeploymentPhase} (h : Follows ld p copy) (buildId : String) :
    (reconcileResources obs buildId copy).Meets (Lifts obs ld) fun _ => True := by
  have happly : Lifts obs ld (reconcileDeployment obs.paused buildId copy) := by
    rw [reconcileDeployment, Lifts, h.marker, h.generation]
  have hfail (error : String) : (handleReconcileFailure copy error).Meets (Lifts obs ld) fun _ => True := by
    unfold handleReconcileFailure
    split
    · exact meets_call_bind trivial meets_stop
    · exact meets_stop
  unfold reconcileResources
  split
  · exact meets_call happly trivial
  · exact meets_call_bind happly (hfail _)
  · exact hfail _

/-- The first part of a reconcile that has no name to move, as far as pauses go. -/
theorem reconcile_lifts (r : Reconciler) (name : String) (gated : Bool) (obs : Observation) (jobs : Lib.Dict String JobState)
    (hname : ld.needsMigration = false) : (r.reconcile name gated obs ld jobs).Meets (Lifts obs ld) fun _ => True := by
  unfold Reconciler.reconcile
  simp only [hname, Bool.false_eq_true, if_false]
  split
  · exact meets_stop
  have hinit : (initializeStatus obs.authToken ld.needsFullReconciliation ld).Meets (FirstCall r name obs ld jobs) _ :=
    initializeStatus_meets obs.authToken
  refine meets_bind ⟨(initializeStatus_lifts _ _).1, hinit.2⟩ fun first hfirst => ?_
  have hgate : (checkSecretGate obs first).Meets (FirstCall r name obs ld jobs) _ := checkSecretGate_meets hfirst
  refine meets_bind ⟨checkSecretGate_lifts.1, hgate.2⟩ fun copy hcopy => ?_
  split
  · unfold handleInvalidDNSName
    refine meets_call_bind trivial ?_
    split
    · exact meets_call_bind trivial meets_stop
    · exact meets_stop
  split
  · exact meets_pure trivial
  · case _ hfailed =>
  have hskip : NotSkipped ld := not_not.1 fun h => hfailed ((isAlreadyFailed_iff hcopy).2 h)
  split
  · exact meets_pure trivial
  have hbuild : (r.reconcileBuild name copy jobs).Meets (FirstCall r name obs ld jobs) _ := reconcileBuild_meets hcopy hskip
  refine meets_bind ⟨reconcileBuild_lifts.1, hbuild.2⟩ fun built hbuilt => ?_
  obtain ⟨buildId, built⟩ := built
  exact meets_bind (reconcileResources_lifts hbuilt buildId) fun _ _ => meets_pure trivial

/-- Whether a call applies a Deployment. -/
def isDeployment : ApiCall → Bool
  | .deployment _ _ _ => true
  | _ => false

theorem reconcileResources_applies (seen : Bool) (buildId : String) :
    Leads (fun seen c => seen || isDeployment c) seen (fun seen _ => seen = true) (reconcileResources obs buildId copy) := by
  have hfail (seen : Bool) (error : String) :
      Leads (fun seen c => seen || isDeployment c) seen (fun seen _ => seen = true) (handleReconcileFailure copy error) := by
    unfold handleReconcileFailure
    split
    · exact leads_call_bind leads_stop
    · exact leads_stop
  unfold reconcileResources
  split
  · exact leads_call (Bool.or_true _)
  · exact leads_call_bind (hfail _ _)
  · exact hfail _ _

/-- A reconcile that goes on with a rollout has applied the Deployment. -/
theorem reconcile_applies (gated : Bool) (hname : ld.needsMigration = false) {buildId : String}
    (h : (r.reconcile name gated obs ld jobs).result = some u) (hleft : u.remaining = .rollout buildId) :
    ∃ c ∈ (r.reconcile name gated obs ld jobs).calls, isDeployment c = true := by
  have hleads : Leads (fun seen c => seen || isDeployment c) false
      (fun seen u => (∃ buildId, u.remaining = .rollout buildId) → seen = true) (r.reconcile name gated obs ld jobs) := by
    unfold Reconciler.reconcile
    simp only [hname, Bool.false_eq_true, if_false]
    split
    · exact leads_stop
    refine leads_bind (Q := fun _ _ => True) (fun _ _ => trivial) fun seen first _ => ?_
    refine leads_bind (Q := fun _ _ => True) (fun _ _ => trivial) fun seen copy _ => ?_
    split
    · unfold handleInvalidDNSName
      refine leads_call_bind ?_
      split
      · exact leads_call_bind leads_stop
      · exact leads_stop
    split
    · refine leads_pure fun ⟨_, hleft⟩ => ?_
      cases hleft
    split
    · refine leads_pure fun ⟨_, hleft⟩ => ?_
      cases hleft
    refine leads_bind (Q := fun _ _ => True) (fun _ _ => trivial) fun seen built _ => ?_
    exact leads_bind (reconcileResources_applies _ _) fun seen _ hseen => leads_pure fun _ => hseen
  have hseen := hleads u h ⟨buildId, hleft⟩
  have hany : ∀ (calls : List ApiCall) (seen : Bool),
      calls.foldl (fun seen c => seen || isDeployment c) seen = (seen || calls.any isDeployment) := by
    intro calls
    induction calls with
    | nil => simp
    | cons c calls ih => simp [ih, Bool.or_assoc]
  rw [hany, Bool.false_or] at hseen
  exact List.any_eq_true.1 hseen

/-! ## Calls of the first part -/

/-- The marker of the failed generation. -/
def marker (W : PauseWorld) : Nat := W.object.status.failedRolloutGeneration

/-- A call that fits the pause of `W`: a status keeps the marker, and a Deployment that was paused by an earlier generation is
unpaused. -/
def FitsFirst (W : PauseWorld) : ApiCall → Prop
  | .status s _ => W.pausedBy ≠ none → s.failedRolloutGeneration = marker W
  | .deployment _ unpause _ => ∀ cause, W.pausedBy = some cause → cause < W.object.generation → unpause = true
  | .scaleDownReplicaSet | .migrate => False
  | _ => True

/-- What calls of the first part leave of a state. -/
structure Opened (W W' : PauseWorld) : Prop where
  generation : W'.object.generation = W.object.generation
  marked : W.pausedBy ≠ none → marker W' = marker W
  paused : W'.pausedBy = none ∨ W'.pausedBy = W.pausedBy
  rolls : W'.RollsOut
  underway : W'.underway = W.underway

/-- No earlier generation has paused the Deployment. -/
def Lifted (generation : Nat) (W : PauseWorld) : Prop := ∀ cause, W.pausedBy = some cause → generation ≤ cause

variable {c : ApiCall} {calls : List ApiCall} (rolledOut : Nat)

theorem perform_opened (h : Opened W V) (hc : FitsFirst W c) :
    Opened W (V.perform W.object.generation rolledOut c) ∧ (Lifted W.object.generation V ∨ isDeployment c = true →
      Lifted W.object.generation (V.perform W.object.generation rolledOut c)) := by
  cases c with
  | migrate => exact hc.elim
  | scaleDownReplicaSet => exact hc.elim
  | status s note => exact ⟨⟨h.generation, hc, h.paused, h.rolls, h.underway⟩, fun hlifted => hlifted.elim id nofun⟩
  | createJob job => exact ⟨⟨h.generation, h.marked, h.paused, h.rolls, h.underway⟩, fun hlifted => hlifted.elim id nofun⟩
  | deleteJob job => exact ⟨⟨h.generation, h.marked, h.paused, h.rolls, h.underway⟩, fun hlifted => hlifted.elim id nofun⟩
  | teardown => exact ⟨⟨h.generation, h.marked, Or.inl rfl, h.rolls, h.underway⟩, fun _ _ hnone => by cases hnone⟩
  | deployment buildId unpause replicas =>
    have hlifted : Lifted W.object.generation (V.perform W.object.generation rolledOut (.deployment buildId unpause replicas)) := by
      intro cause hcause
      change (if unpause then none else V.pausedBy) = some cause at hcause
      split at hcause
      · cases hcause
      · case _ hstays =>
        rcases h.paused with hnone | hsame
        · cases hnone.symm.trans hcause
        · exact Nat.le_of_not_lt fun hlt => hstays (hc cause (hsame.symm.trans hcause) hlt)
    refine ⟨⟨h.generation, h.marked, ?_, fun generation cause hmem => ?_, h.underway⟩, fun _ => hlifted⟩
    · change (if unpause then none else V.pausedBy) = none ∨ (if unpause then none else V.pausedBy) = W.pausedBy
      split
      · exact Or.inl rfl
      · exact h.paused
    · rcases List.mem_append.1 hmem with hmem | hmem
      · exact h.rolls generation cause hmem
      · obtain ⟨rfl, hcause⟩ := Prod.mk.inj (List.mem_singleton.1 hmem)
        exact hlifted cause hcause.symm

theorem performAll_opened (h : Opened W V) (hcalls : ∀ c ∈ calls, FitsFirst W c) :
    Opened W (calls.foldl (PauseWorld.perform W.object.generation rolledOut) V) ∧
      (Lifted W.object.generation V ∨ (∃ c ∈ calls, isDeployment c = true) →
        Lifted W.object.generation (calls.foldl (PauseWorld.perform W.object.generation rolledOut) V)) := by
  induction calls generalizing V with
  | nil => exact ⟨h, fun hlifted => hlifted.elim id fun ⟨_, hmem, _⟩ => (List.not_mem_nil hmem).elim⟩
  | cons c calls ih =>
    obtain ⟨hc, hcalls⟩ := List.forall_mem_cons.1 hcalls
    obtain ⟨hopened, hlifts⟩ := perform_opened rolledOut h hc
    obtain ⟨hall, hafter⟩ := ih hopened hcalls
    refine ⟨hall, fun hlifted => hafter ?_⟩
    rcases hlifted with hlifted | ⟨d, hd, hdeploys⟩
    · exact Or.inl (hlifts (Or.inl hlifted))
    · rcases List.mem_cons.1 hd with rfl | hd
      · exact Or.inl (hlifts (Or.inr hdeploys))
      · exact Or.inr ⟨d, hd, hdeploys⟩

/-! ## What a run keeps -/

/-- The generation that has paused the Deployment is the marked one, and no later generation was left paused. -/
structure Sound (W : PauseWorld) : Prop where
  rolls : W.RollsOut
  generation : 0 < W.object.generation
  marked : ∀ cause, W.pausedBy = some cause → marker W = cause ∧ 0 < cause ∧ cause ≤ W.object.generation
  underway : ∀ u, W.underway = some u → ∀ cause, W.pausedBy = some cause →
    u.copy.status.failedRolloutGeneration = cause ∧ ∀ buildId, u.remaining = .rollout buildId → cause = u.copy.generation

/-- The calls of the first part fit the pause. -/
theorem begin_fits (h : Sound W) (gated : Bool) (obs : Observation) (n : Nat) (hname : W.object.needsMigration = false)
    (hkeeps : W.keepsCause r name (.begin gated obs n) = true) :
    ∀ c ∈ (r.reconcile name gated obs W.object W.resource.jobs).calls, FitsFirst W c := by
  intro c hc
  have hfirst := (reconcile_meets r name gated obs W.resource.jobs hname).1 c hc
  have hlifts := (reconcile_lifts r name gated obs W.resource.jobs hname).1 c hc
  -- A failed Job is found only for a generation that is marked already, when the Deployment is paused.
  have hmarks (hpaused : W.pausedBy ≠ none) (hjob : JobFailed r name W.object W.resource.jobs) : W.object.generation = marker W := by
    unfold PauseWorld.keepsCause at hkeeps
    rw [JobFailed] at hjob
    simp only [hjob, ne_eq, not_true_eq_false, decide_false, Bool.and_false, Bool.or_false, Bool.or_eq_true,
      Option.isNone_iff_eq_none, decide_eq_true_eq] at hkeeps
    exact (hkeeps.resolve_left hpaused).symm
  cases c with
  | migrate => exact hfirst
  | scaleDownReplicaSet => exact hlifts
  | status s note =>
    intro hpaused
    cases hfirst with
    | kept hm _ => exact hm
    | secret hm _ _ _ => exact hm
    | failed hm _ => exact hm
    | building hm _ _ _ => exact hm
    | retried hm _ hjob _ => exact hm.trans (hmarks hpaused hjob)
    | buildFailed hm _ hjob _ => exact hm.trans (hmarks hpaused hjob)
  | deployment buildId unpause replicas =>
    intro cause hcause hlt
    obtain ⟨hmarker, hpos, -⟩ := h.marked cause hcause
    have hpaused : obs.paused = true := by
      have hother : marker W ≠ W.object.generation := hmarker ▸ hlt.ne
      simp only [PauseWorld.keepsCause, hcause, Option.isNone_some, Bool.false_or, Bool.or_eq_true, decide_eq_true_eq,
        Bool.and_eq_true] at hkeeps
      exact (hkeeps.resolve_left hother).1
    rw [Lifts, hpaused, show W.object.status.failedRolloutGeneration = cause from hmarker] at hlifts
    simp only [hlifts, hpos, hlt, decide_true, Bool.and_self]
  | _ => trivial

/-- What the calls of the first part leave is sound. -/
theorem Opened.sound (h : Sound W) (hidle : W.underway = none) (hopened : Opened W V) : Sound V := by
  refine ⟨hopened.rolls, hopened.generation ▸ h.generation, fun cause hcause => ?_, fun u hu => ?_⟩
  · rcases hopened.paused with hnone | hsame
    · cases hnone.symm.trans hcause
    · have hbefore : W.pausedBy = some cause := hsame.symm.trans hcause
      obtain ⟨hmarker, hpos, hle⟩ := h.marked cause hbefore
      exact ⟨(hopened.marked (by rw [hbefore]; exact nofun)).trans hmarker, hpos, hopened.generation ▸ hle⟩
  · rw [hopened.underway, hidle] at hu
    cases hu

/-- A display name that is moved makes a new generation. -/
theorem Sound.migrated (h : Sound W) {underway : Option Underway}
    (hu : ∀ u, underway = some u → u.copy = W.object ∧ ∀ buildId, u.remaining ≠ .rollout buildId) :
    Sound { W with resource := W.resource.perform .migrate, underway := underway } := by
  refine ⟨h.rolls, Nat.succ_pos _, fun cause hcause => ?_, fun u hsome cause hcause => ?_⟩
  · obtain ⟨hmarker, hpos, hle⟩ := h.marked cause hcause
    exact ⟨hmarker, hpos, Nat.le_succ_of_le hle⟩
  · obtain ⟨hcopy, hleft⟩ := hu u hsome
    rw [hcopy]
    exact ⟨(h.marked cause hcause).1, fun buildId hrollout => (hleft buildId hrollout).elim⟩

/-- The first part of a reconcile. -/
theorem begin_sound {gated : Bool} {n : Nat} (h : Sound W) (hkeeps : W.keepsCause r name (.begin gated obs n) = true)
    (hstep : W.step r name (.begin gated obs n) = some W') : Sound W' := by
  rw [PauseWorld.step] at hstep
  split at hstep
  · cases hstep
  · case _ hfree =>
    rw [Bool.or_eq_true, not_or] at hfree
    have hidle : W.underway = none := by simpa using hfree.1
    cases hstep
    cases hname : W.object.needsMigration with
    | true =>
      rw [reconcile_migrates gated hname]
      cases n with
      | zero => exact h
      | succ n =>
        have htake : List.take (n + 1) [ApiCall.migrate] = [.migrate] := List.take_of_length_le (Nat.le_add_left 1 n)
        dsimp only
        rw [htake]
        split
        · refine h.migrated fun u hu => ?_
          cases hu
          exact ⟨rfl, nofun⟩
        · case _ hshort => exact absurd (Nat.le_add_left 1 n) hshort
    | false =>
      have hfits := begin_fits h gated obs n hname hkeeps
      have hstart : Opened W W := ⟨rfl, fun _ => rfl, Or.inr rfl, h.rolls, rfl⟩
      obtain ⟨hopened, -⟩ := performAll_opened W.object.generation hstart
        fun c hc => hfits c (List.mem_of_mem_take hc)
      split
      · case _ hall =>
        obtain ⟨-, hlifts⟩ := performAll_opened W.object.generation hstart hfits
        have hsound := hopened.sound h hidle
        rw [List.take_of_length_le hall] at hopened hsound ⊢
        refine ⟨hsound.rolls, hsound.generation, hsound.marked, fun u hu cause hcause => ?_⟩
        have hbegan := (reconcile_meets r name gated obs W.resource.jobs hname).2 u hu
        have hbefore : W.pausedBy = some cause := by
          rcases hopened.paused with hnone | hsame
          · cases hnone.symm.trans hcause
          · exact hsame.symm.trans hcause
        obtain ⟨hmarker, -, hle⟩ := h.marked cause hbefore
        refine ⟨hbegan.follows.marker.trans hmarker, fun buildId hleft => ?_⟩
        have hlifted := hlifts (Or.inr (reconcile_applies gated hname hu hleft)) cause hcause
        rw [hbegan.follows.generation]
        exact Nat.le_antisymm hle hlifted
      · exact hopened.sound h hidle

/-! ## The second part of a reconcile -/

/-- The second part applies or pauses a Deployment only when it finds that the rollout has failed. -/
theorem resume_quiet (r : Reconciler) (obs : Observation) (u : Underway) (fresh : LlamaDeployment)
    (hquiet : ∀ buildId, u.remaining = .rollout buildId → (r.assessDeploymentHealth obs (u.current fresh)).phase.isFailedPhase = false) :
    (r.resume obs u fresh).Meets (fun c => c ≠ .scaleDownReplicaSet ∧ isDeployment c = false) fun _ => True := by
  have htrack : (updateVersionTracking u fresh).Meets (fun c => c ≠ .scaleDownReplicaSet ∧ isDeployment c = false)
      (· = u.current fresh) := by
    unfold updateVersionTracking
    split
    · exact meets_call_bind ⟨nofun, rfl⟩ (meets_pure rfl)
    · exact meets_pure rfl
  have hphase (ld : LlamaDeployment) (phase : DeploymentPhase) (message : String) (dirty : Bool) (note : Option FailureNote) :
      (finalizePhase ld phase message dirty note).Meets (fun c => c ≠ .scaleDownReplicaSet ∧ isDeployment c = false) fun _ => True := by
    unfold finalizePhase
    split
    · exact meets_call ⟨nofun, rfl⟩ trivial
    · exact meets_pure trivial
  unfold Reconciler.resume
  cases hleft : u.remaining with
  | migrated => exact meets_call ⟨nofun, rfl⟩ trivial
  | alreadyFailed => exact meets_bind htrack fun _ _ => meets_pure (Q := fun _ => True) trivial
  | awaitingCode => exact meets_bind htrack fun _ _ => hphase _ _ _ _ _
  | rollout buildId =>
    refine meets_bind htrack fun ld hld => ?_
    subst hld
    unfold Reconciler.finishRollout
    dsimp only
    rw [hquiet buildId hleft, Bool.false_and, if_neg Bool.false_ne_true]
    exact hphase _ _ _ _ _

/-- A Deployment of the marked generation is not unpaused. -/
theorem reconcileDeployment_marked (paused : Bool) (buildId : String) (h : ld.status.failedRolloutGeneration = ld.generation) :
    ∃ replicas, reconcileDeployment paused buildId ld = .deployment buildId false replicas := by
  rw [reconcileDeployment, h]
  exact ⟨_, by rw [decide_eq_false (Nat.lt_irrefl _), Bool.and_false]⟩

/-- The calls at the end of a rollout: none, a status with the marker that there was, or a remediation with a status that marks the
generation. -/
theorem finishRollout_calls (r : Reconciler) (obs : Observation) (applied : Nat) (buildId : String) (ld : LlamaDeployment) :
    (r.finishRollout obs applied buildId ld).calls = [] ∨
    (∃ s note, (r.finishRollout obs applied buildId ld).calls = [.status s note] ∧
      s.failedRolloutGeneration = ld.status.failedRolloutGeneration) ∨
    ∃ c s note, (r.finishRollout obs applied buildId ld).calls = [c, .status s note] ∧ s.failedRolloutGeneration = ld.generation ∧
      (c = .scaleDownReplicaSet ∨ ∃ replicas, c = .deployment buildId false replicas) := by
  unfold Reconciler.finishRollout
  dsimp only
  split
  · split
    · exact Or.inl rfl
    · refine Or.inr (Or.inr ?_)
      rw [calls_call_bind, finalizePhase, if_pos (Bool.or_true _)]
      refine ⟨_, _, _, rfl, ?_, ?_⟩
      · dsimp only
        split <;> rfl
      · split
        · exact Or.inl rfl
        · exact Or.inr (reconcileDeployment_marked _ _ rfl)
  · unfold finalizePhase
    split
    · exact Or.inr (Or.inl ⟨_, _, rfl, rfl⟩)
    · exact Or.inl rfl

/-- The calls of the second part for a rollout. -/
theorem resume_rollout (r : Reconciler) (obs : Observation) (fresh : LlamaDeployment) {buildId : String}
    (hleft : u.remaining = .rollout buildId) :
    (r.resume obs u fresh).calls = (if u.full then [.status fresh.tracked none] else []) ++
      (r.finishRollout obs u.copy.generation buildId (u.current fresh)).calls := by
  unfold Reconciler.resume updateVersionTracking
  rw [hleft]
  cases u.full <;> rfl

/-- A call of a second part that finds no failure: it keeps the marker of a paused Deployment. -/
def FitsSecond (W : PauseWorld) : ApiCall → Prop
  | .status s _ => ∀ cause, W.pausedBy = some cause → s.failedRolloutGeneration = cause
  | _ => False

/-- A state without a reconcile under way that differs in the status only. -/
structure Settled (W W' : PauseWorld) : Prop where
  generation : W'.object.generation = W.object.generation
  marked : ∀ cause, W.pausedBy = some cause → marker W' = cause
  paused : W'.pausedBy = W.pausedBy
  applied : W'.applied = W.applied
  underway : W'.underway = none

theorem Settled.sound (h : Sound W) (hsettled : Settled W V) : Sound V := by
  refine ⟨?_, hsettled.generation ▸ h.generation, fun cause hcause => ?_, fun u hu => ?_⟩
  · unfold PauseWorld.RollsOut
    rw [hsettled.applied]
    exact h.rolls
  · rw [hsettled.paused] at hcause
    obtain ⟨-, hpos, hle⟩ := h.marked cause hcause
    exact ⟨hsettled.marked cause hcause, hpos, hsettled.generation ▸ hle⟩
  · rw [hsettled.underway] at hu
    cases hu

theorem performAll_settled {generation : Nat} (h : Settled W V) (hcalls : ∀ c ∈ calls, FitsSecond W c) :
    Settled W (calls.foldl (PauseWorld.perform generation rolledOut) V) := by
  induction calls generalizing V with
  | nil => exact h
  | cons c calls ih =>
    obtain ⟨hc, hcalls⟩ := List.forall_mem_cons.1 hcalls
    refine ih ?_ hcalls
    cases c with
    | status s note => exact ⟨h.generation, hc, h.paused, h.applied, h.underway⟩
    | _ => exact hc.elim

/-- The marker of the resource that the second part works on. -/
theorem Sound.current_marker (h : Sound W) (hu : W.underway = some u) {cause : Nat} (hcause : W.pausedBy = some cause) :
    (u.current W.object).status.failedRolloutGeneration = cause := by
  unfold Underway.current
  split
  · exact (h.marked cause hcause).1
  · exact (h.underway u hu cause hcause).1

/-- The second part of a reconcile that finds no failure. -/
theorem finish_quiet (h : Sound W) (hu : W.underway = some u) (hquiet : W.findsFailure r obs u = false) :
    ∀ c ∈ W.finishing r obs u, FitsSecond W c := by
  have hphase : ∀ buildId, u.remaining = .rollout buildId →
      (r.assessDeploymentHealth obs (u.current W.object)).phase.isFailedPhase = false := by
    intro buildId hleft
    simpa [PauseWorld.findsFailure, hleft] using hquiet
  intro c hc
  have hmem : c ∈ (r.resume obs u W.object).calls := mem_resume_of_finishing hc
  have hcall := (resume_meets r obs u W.object).1 c hmem
  obtain ⟨hscale, hdeploys⟩ := (resume_quiet r obs u W.object hphase).1 c hmem
  cases c with
  | status s note =>
    intro cause hcause
    cases hcall with
    | read _ hm _ => exact hm.trans (h.marked cause hcause).1
    | awaiting _ hm _ => exact hm.trans (h.current_marker hu hcause)
    | assessed _ hm _ _ => exact hm.trans (h.current_marker hu hcause)
    | remediated hleft _ hp hfailed =>
      rw [hp, hphase _ hleft] at hfailed
      cases hfailed
  | scaleDownReplicaSet => exact (hscale rfl).elim
  | deployment _ _ _ => cases hdeploys
  | _ => exact hcall

/-- The second part of a reconcile that finds a failure of the generation that it has applied, and makes all its calls. -/
theorem finish_failed (h : Sound W) (hu : W.underway = some u) (hfails : W.findsFailure r obs u = true)
    (hgeneration : u.copy.generation = W.object.generation) :
    Sound ((W.finishing r obs u).foldl (PauseWorld.perform (u.current W.object).generation u.copy.generation)
      { W with underway := none }) := by
  obtain ⟨buildId, hleft⟩ : ∃ buildId, u.remaining = .rollout buildId := by
    unfold PauseWorld.findsFailure at hfails
    split at hfails
    · case _ buildId hleft => exact ⟨buildId, hleft⟩
    · cases hfails
  have hfresh : W.finishing r obs u = (r.resume obs u W.object).calls := by
    unfold PauseWorld.finishing Cluster.finishing
    dsimp only
    exact if_pos (Bool.or_eq_true_iff.2 (Or.inr (decide_eq_true hgeneration)))
  have hcurrent : (u.current W.object).generation = W.object.generation := by
    unfold Underway.current
    split
    · rfl
    · exact hgeneration
  rw [hfresh, resume_rollout r _ _ hleft, List.foldl_append, hcurrent]
  -- The version tracking writes no more than the status that was read.
  have htracked : Settled W ((if u.full then [ApiCall.status W.object.tracked none] else []).foldl
      (PauseWorld.perform W.object.generation u.copy.generation) { W with underway := none }) := by
    refine performAll_settled _ ⟨rfl, fun cause hcause => (h.marked cause hcause).1, rfl, rfl, rfl⟩ fun c hc => ?_
    split at hc
    · cases List.mem_singleton.1 hc
      exact fun cause hcause => (h.marked cause hcause).1
    · cases hc
  have hsame : ∀ cause, W.pausedBy = some cause → cause = W.object.generation := fun cause hcause =>
    ((h.underway u hu cause hcause).2 buildId hleft).trans hgeneration
  rcases finishRollout_calls r obs u.copy.generation buildId (u.current W.object) with
    hnone | ⟨s, note, hcalls, hmarker⟩ | ⟨c, s, note, hcalls, hmarker, hc⟩
  · rw [hnone]
    exact htracked.sound h
  · rw [hcalls]
    refine (performAll_settled _ htracked fun c hc => ?_).sound h
    cases List.mem_singleton.1 hc
    exact fun cause hcause => hmarker.trans (h.current_marker hu hcause)
  · rw [hcalls]
    generalize (if u.full then [ApiCall.status W.object.tracked none] else []).foldl
      (PauseWorld.perform W.object.generation u.copy.generation) { W with underway := none } = V at htracked
    rw [hcurrent] at hmarker
    have hrolls : V.RollsOut := (htracked.sound h).rolls
    rcases hc with rfl | ⟨replicas, rfl⟩
    · -- The Deployment is paused for the generation that is marked.
      have hcause : ∀ cause, V.pausedBy.or (some u.copy.generation) = some cause → cause = W.object.generation := by
        intro cause hcause
        rw [htracked.paused] at hcause
        cases hpaused : W.pausedBy with
        | none =>
          rw [hpaused] at hcause
          cases hcause
          exact hgeneration
        | some old =>
          rw [hpaused] at hcause
          cases hcause
          exact hsame _ hpaused
      refine ⟨hrolls, htracked.generation ▸ h.generation, fun cause hpaused => ?_, fun _ hnone => ?_⟩
      · obtain rfl := hcause cause hpaused
        exact ⟨hmarker, h.generation, htracked.generation.symm ▸ Nat.le_refl _⟩
      · cases htracked.underway.symm.trans hnone
    · refine ⟨fun generation cause hmem => ?_, htracked.generation ▸ h.generation, fun cause hpaused => ?_, fun _ hnone => ?_⟩
      · rcases List.mem_append.1 hmem with hmem | hmem
        · exact hrolls generation cause hmem
        · obtain ⟨rfl, hpaused⟩ := Prod.mk.inj (List.mem_singleton.1 hmem)
          rw [if_neg Bool.false_ne_true] at hpaused
          rw [hsame cause (htracked.paused.symm.trans hpaused.symm)]
      · obtain rfl := hsame cause (htracked.paused.symm.trans hpaused)
        exact ⟨hmarker, h.generation, htracked.generation.symm ▸ Nat.le_refl _⟩
      · cases htracked.underway.symm.trans hnone

/-- The second part of a reconcile. -/
theorem finish_sound {n : Nat} (h : Sound W) (hkeeps : W.keepsCause r name (.finish obs n) = true)
    (hstep : W.step r name (.finish obs n) = some W') : Sound W' := by
  obtain ⟨u, hu, rfl⟩ := Option.map_eq_some_iff.1 hstep
  have hfits : (!W.findsFailure r obs u || ((W.finishing r obs u).length ≤ n && u.copy.generation = W.object.generation)) = true := by
    have hall := hkeeps
    rwa [PauseWorld.keepsCause, hu, Option.all_some] at hall
  cases hfails : W.findsFailure r obs u with
  | false =>
    have hidle : Settled W { W with underway := none } :=
      ⟨rfl, fun cause hcause => (h.marked cause hcause).1, rfl, rfl, rfl⟩
    exact (performAll_settled _ hidle fun c hc => finish_quiet h hu hfails c (List.mem_of_mem_take hc)).sound h
  | true =>
    rw [hfails, Bool.not_true, Bool.false_or, Bool.and_eq_true, decide_eq_true_eq, decide_eq_true_eq] at hfits
    rw [List.take_of_length_le hfits.1]
    exact finish_failed h hu hfails hfits.2

/-- Every action that keeps the cause of a pause. -/
theorem step_sound {a : PauseAction} (h : Sound W) (hkeeps : W.keepsCause r name a = true) (hstep : W.step r name a = some W') :
    Sound W' := by
  cases a with
  | change spec =>
    cases hstep
    refine ⟨h.rolls, Nat.succ_pos _, fun cause hcause => ?_, h.underway⟩
    obtain ⟨hmarker, hpos, hle⟩ := h.marked cause hcause
    exact ⟨hmarker, hpos, Nat.le_succ_of_le hle⟩
  | delete =>
    cases hstep
    refine ⟨h.rolls, Nat.succ_pos _, fun cause hcause => ?_, h.underway⟩
    obtain ⟨hmarker, hpos, hle⟩ := h.marked cause hcause
    exact ⟨hmarker, hpos, Nat.le_succ_of_le hle⟩
  | report job state =>
    rw [PauseWorld.step] at hstep
    split at hstep
    · cases hstep
      exact ⟨h.rolls, h.generation, h.marked, h.underway⟩
    · cases hstep
  | reap job =>
    cases hstep
    exact ⟨h.rolls, h.generation, h.marked, h.underway⟩
  | begin gated obs n => exact begin_sound h hkeeps hstep
  | finish obs n => exact finish_sound h hkeeps hstep

end PausesAux

/-- In every run of a resource that keeps the cause of its pauses, whenever a reconcile has applied the Deployment and left it paused,
it was not for a later generation than the one whose failed rollout has paused it. -/
theorem pause_ends_with_generation {r : Reconciler} {name : String} {spec : DeploymentSpec} {W : PauseWorld}
    (hrun : Lib.Run (PauseWorld.step r name) (fun W a => W.keepsCause r name a = true) (.new spec) W) : W.RollsOut := by
  have hnew : PausesAux.Sound (.new spec) := by
    refine ⟨fun _ _ hmem => ?_, Nat.one_pos, fun _ hnone => ?_, fun _ hnone => ?_⟩
    · cases hmem
    · cases hnone
    · cases hnone
  have hsound : PausesAux.Sound W := hrun.invariant _ hnew fun _ _ _ h hkeeps hstep => PausesAux.step_sound h hkeeps hstep
  exact hsound.rolls

namespace LeftPaused

/-- A resource with a commit. -/
def spec (sha : String) : DeploymentSpec := { repoUrl := "repo", gitSha := sha }

/-- The Job of its build. -/
def job (sha : String) : String := buildJobName "app" (Reconciler.computeBuildId {} "app" (spec sha))

/-- The rollout makes no progress, and a pod of the version before still serves. -/
def stuck : Observation := { view := some { availableReplicas := 1, progressing := some .isFalse } }

/-- The pause is read. -/
def seen : Observation := { paused := true }

/-- The first commit is built, and the resources are applied. -/
def rolledOut : List PauseAction := [.begin false {} 9, .report (job "1") .succeeded, .begin false {} 9]

/-- The rollout of the second generation has not begun when it is built for the second time. -/
def retried : List PauseAction :=
  [.change (spec "2"), .begin false seen 9, .report (job "2") .failed, .begin false seen 9, .begin false seen 9,
    .report (job "2") .succeeded, .begin false seen 9]

/-- The second generation is built, with some reading of the pause. -/
def rebuilt (reading : Observation) : List PauseAction :=
  [.change (spec "2"), .begin false reading 9, .report (job "2") .succeeded, .begin false reading 9]

/-- Whether the Deployment was applied for the second generation and left paused by the first. -/
def isLeft (W : PauseWorld) : Bool := W.applied.contains (2, some 1)

theorem isLeft_sound {W : PauseWorld} (h : isLeft W = true) : ¬ W.RollsOut := fun hrolls =>
  absurd (hrolls 2 1 (List.contains_iff_mem.1 h)) (by decide)

end LeftPaused

open LeftPaused in
/-- A run that leaves the Deployment paused, with a generation as the failed one. -/
def StaysPaused (marker : Nat) : Prop :=
  ∃ W, Lib.Run (PauseWorld.step {} "app") (fun _ _ => True) (.new (spec "1")) W ∧ isLeft W = true ∧
    W.object.status.failedRolloutGeneration = marker ∧ ¬ W.RollsOut

open LeftPaused in
/-- The rollout of the first generation fails and pauses the Deployment. The build of the second generation fails once and is retried,
and then the Deployment is applied for it and stays paused. It also stays paused when the spec changes while the failure is found,
so that the status cannot be written, and when the pause cannot be read. -/
theorem pause_ends_with_generation_false : StaysPaused 2 ∧ StaysPaused 0 ∧ StaysPaused 1 := by
  have hleft : ∀ actions marker, (Lib.exec (PauseWorld.step {} "app") (fun _ _ => true) (.new (spec "1")) actions).any
        (fun W => isLeft W ∧ W.object.status.failedRolloutGeneration = marker) = true → StaysPaused marker := by
    intro actions marker hexec
    obtain ⟨W, hrun, hleft, hmarker⟩ := Lib.Run.exists_of_actions _ _ _ _ hexec
    exact ⟨W, hrun, hleft, hmarker, isLeft_sound hleft⟩
  refine ⟨hleft (rolledOut ++ [.finish stuck 9] ++ retried) 2 (by decide +kernel), ?_, ?_⟩
  · exact hleft (rolledOut ++ [.finish {} 9, .begin false {} 9, .change { spec "1" with displayName := "App" }, .finish stuck 9,
      .begin false seen 9]) 0 (by decide +kernel)
  · exact hleft (rolledOut ++ [.finish stuck 9] ++ rebuilt {}) 1 (by decide +kernel)

open LeftPaused in
/-- The rollout of the first generation fails and pauses the Deployment, which is unpaused when it is applied for the second. -/
theorem pause_ends_with_generation_rebuilt :
    ∃ W : PauseWorld, (2, none) ∈ W.applied ∧ W.pausedBy = none ∧ W.object.status.failedRolloutGeneration = 1 ∧ W.RollsOut := by
  obtain ⟨W, hrun, hmem, hpaused, hmarker⟩ := Lib.Run.exists_of_exec (PauseWorld.step {} "app")
    (fun W a => W.keepsCause {} "app" a) (.new (spec "1")) (rolledOut ++ [.finish stuck 9] ++ rebuilt seen)
    (fun W => (2, none) ∈ W.applied ∧ W.pausedBy = none ∧ W.object.status.failedRolloutGeneration = 1) (by decide +kernel)
  exact ⟨W, hmem, hpaused, hmarker, pause_ends_with_generation hrun⟩

end LlamaAgents
