import Mathlib.Data.List.TakeWhile
import LlamaAgents.Lemmas.Reconciling

/-!
# The failed-generation marker of the operator

`status.failedRolloutGeneration` names a generation whose build was declared failed or whose rollout was remediated, and generations
are skipped, built again and remediated accordingly, as long as no reconcile finds a failed Job for a generation that is not marked
and no spec changes between the parts of a full reconcile. The first retry of a build sets the marker before anything has failed for
good.

As long as no failed Job is found for a generation that is not marked, a marker is set by a remediation only, for the generation
whose resources were applied, and the phase then says so.
-/

namespace LlamaAgents

namespace FailedGenerationsAux

open Lib (Dict)
open ReconcilingAux

variable {r : Reconciler} {name : String} {obs : Observation} {m : Managed} {u : Underway}

/-- The marker of a resource names a generation that has failed, and the current one only in a terminal phase. -/
structure Sound (m : Managed) : Prop where
  positive : 0 < m.object.generation
  bounded : m.object.status.failedRolloutGeneration ≤ m.object.generation
  marked : m.object.status.failedRolloutGeneration ≠ 0 → m.hasFailed m.object.status.failedRolloutGeneration = true
  terminal : m.object.status.failedRolloutGeneration = m.object.generation → m.object.status.phase.isTerminalFailure = true

/-- A status that may be written for a resource: it keeps the marker, or it remediates the current generation. -/
structure Allowed (m : Managed) (s : DeploymentStatus) (note : Option FailureNote) : Prop where
  marker : s.failedRolloutGeneration = m.object.status.failedRolloutGeneration ∨
    s.failedRolloutGeneration = m.object.generation ∧ note = some (.rolloutRemediated m.object.generation)
  terminal : s.failedRolloutGeneration = m.object.generation → s.phase.isTerminalFailure = true

/-- A call that may be made for a resource. -/
def AllowedCall (m : Managed) : ApiCall → Prop
  | .status s note => Allowed m s note
  | .migrate => False
  | _ => True

theorem hasFailed_append {g : Nat} (note : Option FailureNote) (h : m.hasFailed g = true) (o : LlamaDeployment) :
    { m with object := o, notes := m.notes ++ note.toList }.hasFailed g = true := by
  simp only [Managed.hasFailed, List.contains_eq_mem, Bool.or_eq_true, decide_eq_true_eq, List.mem_append] at h ⊢
  exact h.imp Or.inl Or.inl

/-- A later state of a resource in the same generation. -/
structure Later (m m' : Managed) : Prop where
  sound : Sound m'
  generation : m'.object.generation = m.object.generation
  failed : ∀ g, m.hasFailed g = true → m'.hasFailed g = true

theorem perform_later {m' : Managed} (h : Sound m) (hl : Later m m') {c : ApiCall} (hc : AllowedCall m c) :
    Later m (m'.perform c) := by
  cases c with
  | migrate => exact hc.elim
  | status s note =>
    have hfailed (g : Nat) (hg : m.hasFailed g = true) := hasFailed_append note (hl.failed g hg) { m'.object with status := s }
    refine ⟨⟨hl.sound.positive, ?_, ?_, ?_⟩, hl.generation, hfailed⟩
    · show s.failedRolloutGeneration ≤ m'.object.generation
      rw [hl.generation]
      rcases hc.marker with hs | ⟨hs, -⟩
      · exact hs ▸ h.bounded
      · exact hs.le
    · intro hne
      rcases hc.marker with hs | ⟨hs, hnote⟩
      · exact hfailed _ (hs ▸ h.marked (hs ▸ hne))
      · subst hnote
        simp [Managed.perform, Managed.hasFailed, hs]
    · intro hs
      exact hc.terminal (hs.trans hl.generation)
  | createJob job => exact ⟨⟨hl.sound.positive, hl.sound.bounded, hl.sound.marked, hl.sound.terminal⟩, hl.generation, hl.failed⟩
  | deleteJob job => exact ⟨⟨hl.sound.positive, hl.sound.bounded, hl.sound.marked, hl.sound.terminal⟩, hl.generation, hl.failed⟩
  | teardown => exact hl
  | deployment buildId unpause replicas => exact hl
  | scaleDownReplicaSet => exact hl

/-- Calls that may be made keep the resource sound. -/
theorem performAll_later (h : Sound m) {calls : List ApiCall} (hcalls : ∀ c ∈ calls, AllowedCall m c) :
    Later m (m.performAll calls) :=
  performAll_invariant (Later m) ⟨h, rfl, fun _ hg => hg⟩ fun _ c hc hl => perform_later h hl (hcalls c hc)

/-- A call that keeps the marker of a resource. -/
def KeepsCall (m : Managed) : ApiCall → Prop
  | .status s _ => s.failedRolloutGeneration = m.object.status.failedRolloutGeneration
  | _ => True

theorem performAll_marker {calls : List ApiCall} (hcalls : ∀ c ∈ calls, KeepsCall m c) :
    (m.performAll calls).object.status.failedRolloutGeneration = m.object.status.failedRolloutGeneration := by
  refine performAll_invariant (fun m' => m'.object.status.failedRolloutGeneration = _) rfl fun m' c hc h => ?_
  cases c with
  | status s note => exact hcalls _ hc
  | _ => exact h

/-- The current generation of a sound resource is marked exactly when a reconcile skips it. -/
theorem marker_ne_of_notSkipped (h : Sound m) (hskip : NotSkipped m.object) :
    m.object.status.failedRolloutGeneration ≠ m.object.generation := by
  intro hm
  exact hskip ⟨(initialPhase_of_terminal (h.terminal hm)).symm ▸ h.terminal hm, hm⟩

/-- The first part of a reconcile that finds no failed Job makes calls that may be made. -/
theorem first_allowed (h : Sound m)
    (hjob : m.object.status.failedRolloutGeneration = m.object.generation ∨ m.jobs.get? (m.buildJob r name) ≠ some .failed)
    {c : ApiCall} (hc : FirstCall r name obs m.object m.jobs c) : AllowedCall m c ∧ KeepsCall m c := by
  cases c with
  | status s note =>
    have hspare (hskip : NotSkipped m.object) (hfailed : JobFailed r name m.object m.jobs) : False :=
      hjob.elim (marker_ne_of_notSkipped h hskip) fun hne => hne hfailed
    cases hc with
    | kept hm hp =>
      refine ⟨⟨Or.inl hm, fun hs => ?_⟩, hm⟩
      have hterminal := h.terminal (hm ▸ hs)
      rw [hp, initialPhase_of_terminal hterminal]
      exact hterminal
    | secret hm _ _ hp => exact ⟨⟨Or.inl hm, fun _ => by rw [hp]; rfl⟩, hm⟩
    | failed hm hp => exact ⟨⟨Or.inl hm, fun _ => by rw [hp]; rfl⟩, hm⟩
    | building hm hskip _ _ => exact ⟨⟨Or.inl hm, fun hs => (marker_ne_of_notSkipped h hskip (hm ▸ hs)).elim⟩, hm⟩
    | retried _ hskip hfailed _ => exact (hspare hskip hfailed).elim
    | buildFailed _ hskip hfailed _ => exact (hspare hskip hfailed).elim
  | migrate => exact hc.elim
  | _ => exact ⟨trivial, trivial⟩

/-- Whether a reconcile still writes a phase of its own. -/
def isOpen : Remaining → Bool
  | .awaitingCode | .rollout _ => true
  | .migrated | .alreadyFailed => false

/-- A reconcile under way, and its resource: neither of them is marked as failed if it still writes a phase, and one that has applied
the resources of a full reconcile works on the generation that there is. -/
structure Agrees (u : Underway) (m : Managed) : Prop where
  marker : u.copy.status.failedRolloutGeneration = m.object.status.failedRolloutGeneration
  unmarked : isOpen u.remaining = true → m.object.status.failedRolloutGeneration ≠ m.object.generation ∧
    u.copy.status.failedRolloutGeneration ≠ u.copy.generation
  applied : u.hasApplied = true → u.copy.generation = m.object.generation

/-- The second part of a reconcile makes calls that may be made, if it works on the generation that there is. -/
theorem second_allowed (ha : Agrees u m) (h : Sound m)
    (hfresh : u.full = true ∨ u.remaining = .migrated ∨ u.copy.generation = m.object.generation) {c : ApiCall}
    (hc : SecondCall r obs u m.object c) :
    AllowedCall m c := by
  have hmarker : (u.current m.object).status.failedRolloutGeneration = m.object.status.failedRolloutGeneration := by
    unfold Underway.current
    split
    · rfl
    · exact ha.marker
  cases c with
  | status s note =>
    cases hc with
    | read _ hm hp =>
      refine ⟨Or.inl hm, fun hs => ?_⟩
      rw [hp]
      exact h.terminal (hm ▸ hs)
    | awaiting hleft hm _ =>
      have hopen := (ha.unmarked (by rw [hleft]; rfl)).1
      exact ⟨Or.inl (hm.trans hmarker), fun hs => (hopen ((hm.trans hmarker) ▸ hs)).elim⟩
    | assessed hleft hm _ _ =>
      have hopen := (ha.unmarked (by rw [hleft]; rfl)).1
      exact ⟨Or.inl (hm.trans hmarker), fun hs => (hopen ((hm.trans hmarker) ▸ hs)).elim⟩
    | remediated hleft hm _ hfailed =>
      have hsame : u.copy.generation = m.object.generation := by
        rcases hfresh with hfull | hmigrated | hsame
        · exact ha.applied (by rw [Underway.hasApplied, hfull, hleft]; rfl)
        · rw [hleft] at hmigrated
          cases hmigrated
        · exact hsame
      have hgeneration : (u.current m.object).generation = m.object.generation := by
        unfold Underway.current
        split
        · rfl
        · exact hsame
      refine ⟨Or.inr ⟨hm.trans hgeneration, by rw [hsame]⟩, fun _ => ?_⟩
      exact DeploymentPhase.isTerminalFailure_of_isFailedPhase hfailed
  | migrate => exact hc
  | _ => trivial

/-- All resources are sound, and the reconcile under way agrees with its own. -/
structure Clean (C : Cluster) : Prop where
  resources : ∀ name m, C.deployments.get? name = some m → Sound m
  underway : ∀ name u, C.underway = some (name, u) → ∃ m, C.deployments.get? name = some m ∧ Agrees u m

variable {C : Cluster}

theorem Clean.agrees (h : Clean C) (hu : C.underway = some (name, u)) (hm : C.deployments.get? name = some m) : Agrees u m := by
  obtain ⟨n, hn, ha⟩ := h.underway name u hu
  rw [hm] at hn
  exact Option.some.inj hn ▸ ha

/-- Putting a sound resource in its place, with a reconcile that agrees with it. -/
theorem Clean.put (h : Clean C) {m' : Managed} (hm' : Sound m') (ha : ∀ u, C.underway = some (name, u) → Agrees u m') :
    Clean (C.put name m') := by
  refine ⟨fun x n hx => ?_, fun x u hu => ?_⟩
  · rw [Cluster.put, Dict.get?_set] at hx
    split at hx
    · exact Option.some.inj hx ▸ hm'
    · exact h.resources x n hx
  · by_cases hname : x = name
    · subst hname
      exact ⟨m', Dict.get?_set_self _ _ _, ha u hu⟩
    · obtain ⟨n, hn, hagrees⟩ := h.underway x u hu
      exact ⟨n, (Dict.get?_set_ne _ _ hname).trans hn, hagrees⟩

/-- Other Jobs are nothing to a resource. -/
theorem Clean.relist (h : Clean C) (hm : C.deployments.get? name = some m) (jobs : Dict String JobState) :
    Clean (C.put name { m with jobs := jobs }) := by
  have hsound := h.resources name m hm
  refine h.put ⟨hsound.positive, hsound.bounded, hsound.marked, hsound.terminal⟩ fun u hu => ?_
  have ha := h.agrees hu hm
  exact ⟨ha.marker, ha.unmarked, ha.applied⟩

/-- Without a reconcile under way there is nothing to agree with. -/
theorem Clean.ofNone (h : ∀ name m, C.deployments.get? name = some m → Sound m) (hnone : C.underway = none) : Clean C :=
  ⟨h, fun _ _ hu => by rw [hnone] at hu; cases hu⟩

/-- A new generation of a sound resource is not marked. -/
theorem Sound.advance (h : Sound m) (o : LlamaDeployment) (hg : o.generation = m.object.generation + 1)
    (hs : o.status = m.object.status) : Sound { m with object := o } ∧ o.status.failedRolloutGeneration ≠ o.generation := by
  have hlt : o.status.failedRolloutGeneration < o.generation := by
    rw [hg, hs]
    exact Nat.lt_succ_of_le h.bounded
  refine ⟨⟨?_, hlt.le, fun hne => ?_, fun heq => (hlt.ne heq).elim⟩, hlt.ne⟩
  · exact hg ▸ Nat.succ_pos _
  · rw [hs] at hne ⊢
    exact h.marked hne

/-- A change of the spec, when it does not come between the parts of a full reconcile that has applied its resources. -/
theorem Clean.advance (h : Clean C) (hm : C.deployments.get? name = some m) {o : LlamaDeployment}
    (hg : o.generation = m.object.generation + 1) (hs : o.status = m.object.status)
    (hspare : (C.underway.all fun x => x.1 ≠ name || !x.2.hasApplied) = true) : Clean (C.put name { m with object := o }) := by
  obtain ⟨hsound, hne⟩ := (h.resources name m hm).advance o hg hs
  refine h.put hsound fun u hu => ?_
  have ha := h.agrees hu hm
  refine ⟨hs ▸ ha.marker, fun hopen => ⟨hne, (ha.unmarked hopen).2⟩, fun happlied => ?_⟩
  rw [hu] at hspare
  simp [happlied] at hspare

/-- The first part of a reconcile keeps its resource sound, and what is left agrees with it. -/
theorem beginning_later (obs : Observation) (gated : Bool) (calls : Nat) (h : Sound m)
    (hjob : m.object.status.failedRolloutGeneration = m.object.generation ∨ m.jobs.get? (m.buildJob r name) ≠ some .failed) :
    let first := r.reconcile name gated obs m.object m.jobs
    let m' := m.performAll (first.calls.take calls)
    Sound m' ∧ (first.calls.length ≤ calls → ∀ u, first.result = some u → Agrees u m') := by
  intro first m'
  cases hname : m.object.needsMigration with
  | true =>
    have hfirst : first = ⟨[.migrate], some ⟨m.object.needsFullReconciliation, m.object, .migrated⟩⟩ := reconcile_migrates gated hname
    cases calls with
    | zero =>
      refine ⟨h, fun hlen => ?_⟩
      rw [hfirst] at hlen
      cases hlen
    | succ n =>
      have hm' : m' = { m with object := m.object.migrated } := by
        show m.performAll (first.calls.take (n + 1)) = _
        rw [hfirst, List.take_succ_cons, List.take_nil]
        rfl
      have hnew : Sound { m with object := m.object.migrated } := (h.advance m.object.migrated rfl rfl).1
      refine ⟨hm' ▸ hnew, fun _ u hu => ?_⟩
      rw [hfirst] at hu
      cases hu
      exact ⟨hm' ▸ rfl, nofun, fun hfull => by simp [Underway.hasApplied] at hfull⟩
  | false =>
    obtain ⟨hcalls, hresult⟩ := reconcile_meets r name gated obs m.jobs hname
    have hallowed (c : ApiCall) (hc : c ∈ first.calls.take calls) := first_allowed h hjob (hcalls c (List.mem_of_mem_take hc))
    have hlater : Later m m' := performAll_later h fun c hc => (hallowed c hc).1
    refine ⟨hlater.sound, fun hlen u hu => ?_⟩
    obtain ⟨-, hfollows, hleft⟩ := hresult u hu
    have hmarker : m'.object.status.failedRolloutGeneration = m.object.status.failedRolloutGeneration :=
      performAll_marker fun c hc => (hallowed c hc).2
    refine ⟨hfollows.marker.trans hmarker.symm, fun hopen => ?_, fun _ => hfollows.generation.trans hlater.generation.symm⟩
    have hskip : NotSkipped m.object := by
      revert hopen hleft
      cases u.remaining with
      | awaitingCode => exact fun hleft _ => hleft.1
      | rollout buildId => exact fun hleft _ => hleft
      | migrated => exact fun _ hopen => by cases hopen
      | alreadyFailed => exact fun _ hopen => by cases hopen
    have hne := marker_ne_of_notSkipped h hskip
    rw [hmarker, hlater.generation, hfollows.marker, hfollows.generation]
    exact ⟨hne, hne⟩

/-- The second part of a reconcile keeps its resource sound. -/
theorem finishing_sound (h : Sound m) (ha : Agrees u m) (calls : Nat) :
    Sound (m.performAll ((Cluster.finishing r obs u m).take calls)) := by
  have hcalls := (resume_meets r obs u m.object).1
  refine (performAll_later h fun c hc => ?_).sound
  replace hc := List.mem_of_mem_take hc
  unfold Cluster.finishing at hc
  dsimp only at hc
  split at hc
  · case _ hfresh =>
    simp only [Bool.or_eq_true, decide_eq_true_eq, or_assoc] at hfresh
    exact second_allowed ha h hfresh (hcalls c hc)
  · have hstatus := List.mem_takeWhile_imp hc
    have hcall := hcalls c ((List.takeWhile_sublist _).subset hc)
    cases c with
    | status s note => cases hstatus
    | migrate => exact hcall
    | _ => trivial

/-- Every action that leaves the marker alone keeps all resources sound. -/
theorem step_clean {a : ClusterAction} {C' : Cluster} (h : Clean C) (hspare : C.sparesMarker r a = true)
    (hs : C.step r a = some C') : Clean C' := by
  cases a with
  | create name spec =>
    simp only [Cluster.step] at hs
    split at hs
    · cases hs
    · case _ hnew =>
      cases hs
      refine h.put ⟨Nat.one_pos, Nat.zero_le _, fun hne => (hne rfl).elim, nofun⟩ fun u hu => ?_
      obtain ⟨m, hm, -⟩ := h.underway name u hu
      simp [Dict.contains, hm] at hnew
  | change name spec =>
    obtain ⟨m, hm, rfl⟩ := Option.map_eq_some_iff.1 hs
    exact h.advance hm rfl rfl hspare
  | delete name =>
    obtain ⟨m, hm, rfl⟩ := Option.map_eq_some_iff.1 hs
    exact h.advance hm rfl rfl hspare
  | report name job state =>
    obtain ⟨m, hm, hs⟩ := Option.bind_eq_some_iff.1 hs
    split at hs
    · cases hs
      exact h.relist hm _
    · cases hs
  | reap name job =>
    obtain ⟨m, hm, rfl⟩ := Option.map_eq_some_iff.1 hs
    exact h.relist hm _
  | begin name obs calls =>
    simp only [Cluster.step] at hs
    split at hs
    · cases hs
    · case _ hidle =>
      obtain ⟨m, hm, rfl⟩ := Option.map_eq_some_iff.1 hs
      have hnone : C.underway = none := by simpa using hidle
      split
      · split
        · exact h
        · refine Clean.ofNone (fun x n hx => ?_) hnone
          rw [Dict.get?_erase] at hx
          split at hx
          · cases hx
          · exact h.resources x n hx
      · have hjob : m.object.status.failedRolloutGeneration = m.object.generation ∨
            m.jobs.get? (m.buildJob r name) ≠ some .failed := by
          simpa [Cluster.sparesMarker, hm] using hspare
        obtain ⟨hsound, hagrees⟩ :=
          beginning_later obs (C.checkCapacityGates r name m.object) calls (h.resources name m hm) hjob
        have hput : Clean (C.put name _) := h.put hsound fun u hu => by rw [hnone] at hu; cases hu
        split
        · case _ hlen =>
          refine ⟨hput.resources, fun x u hu => ?_⟩
          obtain ⟨u', hu', heq⟩ := Option.map_eq_some_iff.1 hu
          cases heq
          exact ⟨_, Dict.get?_set_self _ _ _, hagrees hlen u hu'⟩
        · exact hput
  | finish obs calls =>
    obtain ⟨⟨name, u⟩, hu, rfl⟩ := Option.map_eq_some_iff.1 hs
    have hnone : Clean { C with underway := none } := Clean.ofNone h.resources rfl
    obtain ⟨m, hm, ha⟩ := h.underway name u hu
    dsimp only
    rw [hm]
    exact hnone.put (finishing_sound (h.resources name m hm) ha calls) fun u hu => by cases hu

theorem initializeStatus_result (token : String) (full : Bool) (ld : LlamaDeployment) :
    ∃ copy, (initializeStatus token full ld).result = some copy := by
  unfold initializeStatus
  dsimp only
  split
  · split
    · exact ⟨_, rfl⟩
    · exact ⟨_, rfl⟩
  · exact ⟨_, rfl⟩

theorem checkSecretGate_result (ld : LlamaDeployment) (h : ld.spec.secretName = "" ∨ ∃ resetFails, obs.secret = .found resetFails) :
    ∃ copy, (checkSecretGate obs ld).result = some copy := by
  unfold checkSecretGate
  split
  · exact ⟨_, rfl⟩
  · case _ hname =>
    obtain ⟨resetFails, hobs⟩ := h.resolve_left hname
    rw [hobs]
    dsimp only
    split
    · exact ⟨_, rfl⟩
    · exact ⟨_, rfl⟩

theorem supersedeStaleBuildJob_result (name : String) (ld : LlamaDeployment) (jobs : Dict String JobState) (newBuildId : String) :
    ∃ jobs', (supersedeStaleBuildJob name ld jobs newBuildId).result = some jobs' := by
  unfold supersedeStaleBuildJob
  dsimp only
  split
  · exact ⟨_, rfl⟩
  split
  · exact ⟨_, rfl⟩
  split
  · exact ⟨_, rfl⟩
  · exact ⟨_, rfl⟩
  · exact ⟨_, rfl⟩

/-- A build whose Job is gone gets a new one. -/
theorem createJob_mem (obs : Observation) {ld copy : LlamaDeployment} {jobs : Dict String JobState} (h : Copies ld (initialPhase ld) copy)
    (hcode : ld.isAwaitingCodePush = false)
    (hsuspended : (ld.spec.suspended && ld.spec.buildGeneration ≤ ld.status.lastBuiltGeneration) = false)
    (hbuilt : (ld.status.buildId = r.computeBuildId name ld.spec && ld.status.buildStatus = .succeeded) = false)
    (hjob : jobs.get? (buildJobName name (r.computeBuildId name ld.spec)) = none) :
    .createJob (buildJobName name (r.computeBuildId name ld.spec)) ∈ (r.reconcileBuild name copy jobs).calls := by
  rw [LlamaDeployment.isAwaitingCodePush] at hcode
  unfold Reconciler.reconcileBuild
  simp only [LlamaDeployment.isAwaitingCodePush, h.spec, h.lastBuilt, h.buildId, h.buildStatus, hcode, hsuspended, hbuilt,
    Bool.false_eq_true, if_false]
  obtain ⟨jobs', hjobs'⟩ := supersedeStaleBuildJob_result name copy jobs (r.computeBuildId name ld.spec)
  have hmeets : (supersedeStaleBuildJob name copy jobs (r.computeBuildId name ld.spec)).Meets
      (FirstCall r name obs ld jobs) _ := supersedeStaleBuildJob_meets copy _
  have hgone : jobs'.get? (buildJobName name (r.computeBuildId name ld.spec)) = none := by
    rcases hmeets.2 jobs' hjobs' (buildJobName name (r.computeBuildId name ld.spec)) with hsame | ⟨hnone, -⟩
    · rw [hsame, hjob]
    · exact hnone
  refine Lib.Script.mem_calls_bind_right hjobs' ?_
  rw [hgone]
  exact List.mem_cons_self

/-- A sound resource tells the truth about its failed generation. -/
theorem Sound.truthful (h : Sound m) : m.Truthful r name := by
  refine ⟨h.marked, fun gated obs u hu hleft => ?_, fun obs hcomes hfailed hjob => ?_⟩
  · cases hname : m.object.needsMigration with
    | true =>
      rw [reconcile_migrates gated hname] at hu
      cases hu
      cases hleft
    | false =>
      have hbegan := ((reconcile_meets r name gated obs m.jobs hname).2 u hu).left
      rw [hleft] at hbegan
      have hmarker := (not_not.1 hbegan).2
      rw [← hmarker]
      exact h.marked (hmarker ▸ h.positive.ne')
  · simp only [Managed.comesToBuild, Bool.and_eq_true, Bool.not_eq_true', Bool.or_eq_true, decide_eq_true_eq] at hcomes
    obtain ⟨⟨⟨⟨⟨hname, hsecret⟩, hvalid⟩, hcode⟩, hsuspended⟩, hbuilt⟩ := hcomes
    have hskip : NotSkipped m.object := by
      rintro ⟨-, hmarker⟩
      have hmarked := h.marked (hmarker ▸ h.positive.ne')
      rw [hmarker, hfailed] at hmarked
      cases hmarked
    have hfound : m.object.spec.secretName = "" ∨ ∃ resetFails, obs.secret = .found resetFails := by
      refine hsecret.imp_right fun hfound => ?_
      cases hobs : obs.secret with
      | found resetFails => exact ⟨resetFails, rfl⟩
      | notFound =>
        rw [hobs] at hfound
        cases hfound
    obtain ⟨first, hfirst⟩ := initializeStatus_result obs.authToken m.object.needsFullReconciliation m.object
    have hinit : (initializeStatus _ _ m.object).Meets (FirstCall r name obs m.object m.jobs) _ :=
      initializeStatus_meets obs.authToken
    have hfirst' := hinit.2 first hfirst
    obtain ⟨copy, hcopy⟩ := checkSecretGate_result first (hfirst'.spec ▸ hfound)
    have hgate : (checkSecretGate obs first).Meets (FirstCall r name obs m.object m.jobs) _ := checkSecretGate_meets hfirst'
    have hcopy' := hgate.2 copy hcopy
    have hnotFailed : ¬ copy.isAlreadyFailed = true := fun hskipped => (isAlreadyFailed_iff hcopy').1 hskipped hskip
    have hnotAwaiting : ¬ copy.isAwaitingCodePush = true := by
      rw [LlamaDeployment.isAwaitingCodePush] at hcode ⊢
      rw [hcopy'.spec, hcode]
      exact Bool.false_ne_true
    unfold Reconciler.reconcile
    simp only [hname, Bool.false_eq_true, if_false]
    refine Lib.Script.mem_calls_bind_right hfirst (Lib.Script.mem_calls_bind_right hcopy ?_)
    rw [if_neg (by rw [hvalid]; exact Bool.false_ne_true), if_neg hnotFailed, if_neg hnotAwaiting]
    exact Lib.Script.mem_calls_bind_left (createJob_mem obs hcopy' hcode hsuspended hbuilt hjob)

/-- A failed rollout of a generation that is not marked is remediated first, unless the infrastructure is to blame. -/
theorem finishRollout_remediates {ld : LlamaDeployment} (applied : Nat) (buildId : String)
    (hfailed : (r.assessDeploymentHealth obs ld).phase.isFailedPhase = true)
    (hmarker : ld.status.failedRolloutGeneration ≠ ld.generation) (hinfra : classifyPodFailures obs.pods ≠ .infra) :
    ∃ c rest, (r.finishRollout obs applied buildId ld).calls = c :: rest ∧ (∀ s note, c ≠ .status s note) ∧
      Remediates (r.assessDeploymentHealth obs ld).phase [c] := by
  unfold Reconciler.finishRollout
  dsimp only
  rw [if_pos (by rw [hfailed, Bool.true_and, decide_eq_true hmarker]), if_neg hinfra, Lib.Script.calls_call_bind]
  refine ⟨_, _, rfl, ?_⟩
  by_cases hrollout : (r.assessDeploymentHealth obs ld).phase = .rolloutFailed
  · rw [if_pos hrollout, Remediates, if_pos hrollout]
    exact ⟨fun _ _ h => ApiCall.noConfusion h, List.mem_singleton_self _⟩
  · rw [if_neg hrollout, if_neg hrollout, Remediates, if_neg hrollout]
    refine ⟨fun _ _ h => ApiCall.noConfusion h, buildId, ?_⟩
    simp [reconcileDeployment]

theorem remediates_of_mem {phase : DeploymentPhase} {c : ApiCall} {calls : List ApiCall} (h : Remediates phase [c])
    (hc : c ∈ calls) : Remediates phase calls := by
  unfold Remediates at h ⊢
  split
  · case _ hphase =>
    rw [if_pos hphase, List.mem_singleton] at h
    exact h ▸ hc
  · case _ hphase =>
    rw [if_neg hphase] at h
    obtain ⟨buildId, unpause, h⟩ := h
    exact ⟨buildId, unpause, List.mem_singleton.1 h ▸ hc⟩

/-- A clean cluster tells the truth about all failed generations. -/
theorem Clean.truthful (h : Clean C) : C.Truthful r := by
  refine ⟨fun name m hm => (h.resources name m hm).truthful, fun name u m buildId obs hu hm hleft hfailed hinfra => ?_⟩
  have hopen := (h.agrees hu hm).unmarked (by rw [hleft]; rfl)
  have hmarker : (u.current m.object).status.failedRolloutGeneration ≠ (u.current m.object).generation := by
    unfold Underway.current
    split
    · exact hopen.1
    · exact hopen.2
  obtain ⟨c, rest, hcalls, hstatus, hremediates⟩ :=
    finishRollout_remediates u.copy.generation buildId hfailed hmarker hinfra
  refine remediates_of_mem hremediates ?_
  have hresume : r.resume obs u m.object = updateVersionTracking u m.object >>= r.finishRollout obs u.copy.generation buildId := by
    rw [Reconciler.resume, hleft]
  rw [Cluster.finishing, hresume]
  split
  · refine Lib.Script.mem_calls_bind_right (a := u.current m.object) ?_ (hcalls ▸ List.mem_cons_self)
    unfold updateVersionTracking
    split
    · rfl
    · rfl
  · case _ hfresh =>
    -- A reconcile that is not a full one calls nothing before the remediation.
    have hfull : u.full = false := by
      cases hfull : u.full with
      | false => rfl
      | true =>
        rw [hfull] at hfresh
        exact (hfresh rfl).elim
    have hsecond : (updateVersionTracking u m.object >>= r.finishRollout obs u.copy.generation buildId).calls = c :: rest := by
      rw [updateVersionTracking, hfull, ← hcalls]
      rfl
    rw [hsecond]
    cases c with
    | status s note => exact (hstatus s note rfl).elim
    | _ => exact List.mem_cons_self

end FailedGenerationsAux

/-- A generation that is marked as failed or skipped has failed, one that has not failed gets a new Job when that of its build is
gone, and a reconcile that finds a rollout failed remediates it. It is so in a run in which no reconcile finds a failed Job for a
generation that is not marked, and no spec changes in the midst of a full reconcile. -/
theorem failed_generation_marker_truthful {r : Reconciler} {C : Cluster}
    (hrun : Lib.Run (Cluster.step r) (fun C a => C.sparesMarker r a) {} C) : C.Truthful r := by
  have h : FailedGenerationsAux.Clean C := hrun.invariant FailedGenerationsAux.Clean
    ⟨fun _ _ hm => (Option.some_ne_none _ hm.symm).elim, fun _ _ hu => (Option.some_ne_none _ hu.symm).elim⟩
    fun _ _ _ h ha hstep => FailedGenerationsAux.step_clean h ha hstep
  exact h.truthful

namespace Marked

/-- A resource with code. -/
def spec : DeploymentSpec := { repoUrl := "repo", gitSha := "sha" }

/-- The Job of its build. -/
def job : String := buildJobName "app" (Reconciler.computeBuildId {} "app" spec)

/-- No pod is available, and the Deployment makes no progress. -/
def failing : Observation := { view := some { progressing := some .isFalse } }

/-- The resource is created, and its build fails, is retried and built again. -/
def rebuilt (outcome : JobState) : List ClusterAction :=
  [.create "app" spec, .begin "app" {} 9, .report "app" job .failed, .begin "app" {} 9, .begin "app" {} 9, .report "app" job outcome]

end Marked

open Marked in
/-- After a build that has failed twice, the next generation with the same code is marked and skipped as soon as its failed Job is
deleted for a retry, and no Job is created. A rollout is not remediated when its build was retried. And a spec that changes while a
rollout is found failed is marked itself. -/
theorem failed_generation_marker_truthful_false :
    (∃ C m, Lib.Run (Cluster.step {}) (fun _ _ => True) {} C ∧ C.deployments.get? "app" = some m ∧
      m.object.generation = 2 ∧ m.object.status.failedRolloutGeneration = 2 ∧ m.notes.getLast? = some (.buildRetried 2) ∧
      m.hasFailed 2 = false ∧ m.jobs.get? job = none ∧
      (Reconciler.reconcile {} "app" false {} m.object m.jobs).calls = [] ∧ ¬ C.Truthful {}) ∧
    (∃ C m u, Lib.Run (Cluster.step {}) (fun _ _ => True) {} C ∧ C.deployments.get? "app" = some m ∧
      C.underway = some ("app", u) ∧ u.remaining = .rollout (Reconciler.computeBuildId {} "app" spec) ∧
      (Reconciler.assessDeploymentHealth {} failing m.object).phase = .failed ∧
      ((Cluster.finishing {} failing u m).all fun c => !(c matches .deployment _ _ _ | .scaleDownReplicaSet)) = true) ∧
    ∃ C m, Lib.Run (Cluster.step {}) (fun _ _ => True) {} C ∧ C.deployments.get? "app" = some m ∧
      m.object.status.failedRolloutGeneration = 2 ∧ m.notes = [.rolloutRemediated 1] := by
  refine ⟨?_, ?_, ?_⟩
  · obtain ⟨C, hrun, hcheck⟩ := Lib.Run.exists_of_actions (Cluster.step {}) {}
      (rebuilt .failed ++ [.begin "app" {} 9, .change "app" { spec with displayName := "App" }, .begin "app" {} 9])
      (fun (C : Cluster) => (C.deployments.get? "app").any fun (m : Managed) =>
        decide (m.object.generation = 2 ∧ m.object.status.failedRolloutGeneration = 2 ∧
          m.notes.getLast? = some (.buildRetried 2) ∧ m.hasFailed 2 = false ∧ m.jobs.get? job = none ∧
          (Reconciler.reconcile {} "app" false {} m.object m.jobs).calls = [])) (by decide +kernel)
    obtain ⟨m, hm, hcheck⟩ := (Option.any_eq_true _ _).1 hcheck
    obtain ⟨hgeneration, hmarker, hnote, hfailed, hjob, hcalls⟩ := of_decide_eq_true hcheck
    refine ⟨C, m, hrun, hm, hgeneration, hmarker, hnote, hfailed, hjob, hcalls, fun htrue => ?_⟩
    have hmarked := (htrue.resources "app" m hm).marked (by rw [hmarker]; exact nofun)
    rw [hmarker, hfailed] at hmarked
    cases hmarked
  · obtain ⟨C, hrun, hcheck⟩ := Lib.Run.exists_of_actions (Cluster.step {}) {}
      (rebuilt .succeeded ++ [.begin "app" {} 9])
      (fun (C : Cluster) => (C.deployments.get? "app").any fun (m : Managed) => C.underway.any fun (x : String × Underway) =>
        decide (x.1 = "app" ∧ x.2.remaining = .rollout (Reconciler.computeBuildId {} "app" spec) ∧
          (Reconciler.assessDeploymentHealth {} failing m.object).phase = .failed ∧
          ((Cluster.finishing {} failing x.2 m).all fun c => !(c matches .deployment _ _ _ | .scaleDownReplicaSet)) = true))
      (by decide +kernel)
    obtain ⟨m, hm, hcheck⟩ := (Option.any_eq_true _ _).1 hcheck
    obtain ⟨⟨name, u⟩, hu, hcheck⟩ := (Option.any_eq_true _ _).1 hcheck
    obtain ⟨hname, hleft, hphase, hcalls⟩ := of_decide_eq_true hcheck
    cases hname
    exact ⟨C, m, u, hrun, hm, hu, hleft, hphase, hcalls⟩
  · obtain ⟨C, hrun, hcheck⟩ := Lib.Run.exists_of_actions (Cluster.step {}) {}
      [.create "app" spec, .begin "app" {} 9, .report "app" job .succeeded, .begin "app" {} 9,
        .change "app" { spec with gitSha := "fix" }, .finish failing 9]
      (fun (C : Cluster) => (C.deployments.get? "app").any fun (m : Managed) =>
        decide (m.object.status.failedRolloutGeneration = 2 ∧ m.notes = [.rolloutRemediated 1])) (by decide +kernel)
    obtain ⟨m, hm, hcheck⟩ := (Option.any_eq_true _ _).1 hcheck
    exact ⟨C, m, hrun, hm, of_decide_eq_true hcheck⟩

open Marked in
/-- A build succeeds, its rollout fails and is remediated, and the generation is marked and skipped from then on. -/
theorem failed_generation_marker_truthful_remediated :
    ∃ (C : Cluster) (m : Managed), C.deployments.get? "app" = some m ∧ m.object.status.failedRolloutGeneration = 1 ∧
      m.object.isAlreadyFailed = true ∧ m.notes = [.rolloutRemediated 1] ∧ C.Truthful {} := by
  obtain ⟨C, hrun, hcheck⟩ := Lib.Run.exists_of_exec (Cluster.step {}) (fun C a => C.sparesMarker {} a) {}
    [.create "app" spec, .begin "app" {} 9, .report "app" job .succeeded, .begin "app" {} 9, .finish failing 9]
    (fun (C : Cluster) => (C.deployments.get? "app").any fun (m : Managed) =>
      decide (m.object.status.failedRolloutGeneration = 1 ∧ m.object.isAlreadyFailed = true ∧ m.notes = [.rolloutRemediated 1]))
    (by decide +kernel)
  obtain ⟨m, hm, hcheck⟩ := (Option.any_eq_true _ _).1 hcheck
  obtain ⟨hmarker, hfailed, hnotes⟩ := of_decide_eq_true hcheck
  exact ⟨C, m, hm, hmarker, hfailed, hnotes, failed_generation_marker_truthful hrun⟩

end LlamaAgents
