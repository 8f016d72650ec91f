import LlamaAgents.Lemmas.BuildCalls
import LlamaAgents.Operator.Builds

/-!
# The collection of artifacts

No collection deletes an artifact that a ReplicaSet refers to or whose build the operator takes for done, as long as the listing of
the ReplicaSets does not fail, the build taken for done is kept or young, and builds that a collection under way is about to delete
do not come into use.

What a reconcile has in hand about the build is what it has written, so its second part takes no build for done that was not; and
its first part does so only for a Job that has succeeded. A collection under way then stays harmless.
-/

namespace LlamaAgents

namespace ArtifactCollectionAux

open Lib (Dict Script)
open Lib.Script
open BuildCallsAux ReconcilingAux

variable {r : Reconciler} {name : String} {obs : Observation} {m : Managed} {ld copy : LlamaDeployment}

/-! ## The copy of a reconcile -/

/-- A copy that says the same about the build as the resource. -/
def Tracks (m : Managed) (copy : LlamaDeployment) : Prop := SameBuild copy.status m.object.status

theorem initializeStatus_leads (token : String) (full : Bool) (h : Tracks m ld) :
    (initializeStatus token full ld).Leads Managed.perform m Tracks := by
  unfold initializeStatus
  dsimp only
  split
  · split
    · exact leads_call_bind (leads_pure ⟨rfl, rfl⟩)
    · exact leads_pure h
  · exact leads_pure h

theorem checkSecretGate_leads (h : Tracks m copy) : (checkSecretGate obs copy).Leads Managed.perform m Tracks := by
  unfold checkSecretGate
  dsimp only
  split
  · exact leads_pure h
  split
  · split
    · exact leads_call_bind leads_stop
    · split
      · exact leads_call_bind leads_stop
      · exact leads_stop
  · split
    · exact leads_call_bind (leads_pure ⟨rfl, rfl⟩)
    · exact leads_pure h

theorem handleInvalidDNSName_leads (Q : Managed → Underway → Prop) :
    (handleInvalidDNSName name copy).Leads Managed.perform m Q := by
  unfold handleInvalidDNSName
  refine leads_call_bind ?_
  split
  · exact leads_call_bind leads_stop
  · exact leads_stop

theorem supersedeStaleBuildJob_leads (jobs : Dict String JobState) (newBuildId : String) (h : Tracks m copy) :
    (supersedeStaleBuildJob name copy jobs newBuildId).Leads Managed.perform m fun m' _ => Tracks m' copy := by
  unfold supersedeStaleBuildJob
  dsimp only
  split
  · exact leads_pure h
  split
  · exact leads_pure h
  split
  · exact leads_pure h
  · exact leads_pure h
  · exact leads_call_bind (leads_pure h)

theorem reconcileBuild_leads (jobs : Dict String JobState) (h : Tracks m copy) :
    (r.reconcileBuild name copy jobs).Leads Managed.perform m fun m' x => Tracks m' x.2 := by
  unfold Reconciler.reconcileBuild
  dsimp only
  split
  · exact leads_pure h
  split
  · exact leads_pure h
  split
  · exact leads_pure h
  refine leads_bind (supersedeStaleBuildJob_leads jobs _ h) fun m' jobs' h' => ?_
  split
  · exact leads_call_bind (leads_call_bind leads_stop)
  · exact leads_call_bind (leads_pure ⟨rfl, rfl⟩)
  · split
    · exact leads_call_bind (leads_call_bind leads_stop)
    · exact leads_call_bind leads_stop
  · split
    · exact leads_call_bind leads_stop
    · exact leads_stop

theorem reconcileResources_leads (buildId : String) (h : Tracks m copy) :
    (reconcileResources obs buildId copy).Leads Managed.perform m fun m' _ => Tracks m' copy := by
  have hfail (m' : Managed) (error : String) :
      (handleReconcileFailure copy error).Leads Managed.perform m' fun m' _ => Tracks m' copy := by
    unfold handleReconcileFailure
    split
    · exact leads_call_bind leads_stop
    · exact leads_stop
  unfold reconcileResources
  split
  · exact leads_call h
  · exact leads_call_bind (hfail _ _)
  · exact hfail _ _

/-- After the first part of a reconcile its copy says the same about the build as the resource. -/
theorem reconcile_leads (r : Reconciler) (name : String) (gated : Bool) (obs : Observation) (m : Managed) :
    (r.reconcile name gated obs m.object m.jobs).Leads Managed.perform m fun m' u => Tracks m' u.copy := by
  have h : Tracks m m.object := ⟨rfl, rfl⟩
  unfold Reconciler.reconcile
  dsimp only
  split
  · exact leads_call_bind (leads_pure h)
  split
  · exact leads_stop
  refine leads_bind (initializeStatus_leads _ _ h) fun m₁ first h₁ => ?_
  refine leads_bind (checkSecretGate_leads h₁) fun m₂ copy h₂ => ?_
  split
  · exact handleInvalidDNSName_leads _
  split
  · exact leads_pure h₂
  split
  · exact leads_pure h₂
  refine leads_bind (reconcileBuild_leads m.jobs h₂) fun m₃ built h₃ => ?_
  obtain ⟨buildId, built⟩ := built
  exact leads_bind (reconcileResources_leads buildId h₃) fun m₄ _ h₄ => leads_pure h₄

/-! ## The build that the operator takes for done -/

/-- The calls of the first part take a build for done only when it was, or its Job has succeeded. -/
theorem beginning_done (C : Cluster) (n : Nat) :
    (m.performAll ((C.beginning r name obs m).calls.take n)).object.status.buildStatus = .succeeded →
      Done r name m.object m.jobs (m.performAll ((C.beginning r name obs m).calls.take n)).object.status.buildId := by
  refine performAll_invariant
    (fun m' => m'.object.status.buildStatus = .succeeded → Done r name m.object m.jobs m'.object.status.buildId)
    (fun hs => Or.inl ⟨hs, rfl⟩) fun m' c hc h => ?_
  replace hc := List.mem_of_mem_take hc
  unfold Cluster.beginning at hc
  by_cases hname : m.object.needsMigration = true
  · rw [reconcile_migrates _ hname] at hc
    cases List.mem_singleton.1 hc
    exact h
  · have hcall := (reconcile_builds r name _ obs m.jobs (Bool.not_eq_true _ ▸ hname)).1 c hc
    cases c with
    | status s note => exact hcall
    | _ => exact h

/-- The calls of the second part leave the build as it is. -/
theorem finishing_sameBuild {u : Underway} (hu : Tracks m u.copy) (n : Nat) :
    SameBuild (m.performAll ((Cluster.finishing r obs u m).take n)).object.status m.object.status := by
  refine performAll_invariant (fun m' => SameBuild m'.object.status m.object.status) ⟨rfl, rfl⟩ fun m' c hc h => ?_
  have hcall := (resume_builds r obs u m.object).1 c (mem_resume_of_finishing (List.mem_of_mem_take hc))
  cases c with
  | status s note =>
    rcases hcall with hsame | ⟨-, -, hid, hstatus⟩
    · exact hsame
    · exact ⟨hid.trans hu.1, hstatus.trans hu.2⟩
  | _ => exact h

variable {W W' : BuildWorld}

/-- The resource that a reconcile under way is about is there, and its copy says the same about the build. -/
def UnderwayTracks (C : Cluster) : Prop :=
  ∀ name u, C.underway = some (name, u) → ∃ m, C.deployments.get? name = some m ∧ Tracks m u.copy

/-- No build is taken for done anew, or only such as no collection is about to delete. -/
def AcceptsSafely (W : BuildWorld) (C : Cluster) : Prop :=
  ∀ name m, C.deployments.get? name = some m → m.object.status.buildStatus = .succeeded →
    W.isAccepted name m.object.status.buildId = true ∨ W.isSafe name m.object.status.buildId = true

theorem isAccepted_of_get? (hm : W.cluster.deployments.get? name = some m) (hs : m.object.status.buildStatus = .succeeded) :
    W.isAccepted name m.object.status.buildId = true := by
  simp [BuildWorld.isAccepted, hm, hs]

/-- What is put in the place of a resource decides. -/
theorem acceptsSafely_put {m' : Managed} {x : Option (String × Underway)}
    (h : m'.object.status.buildStatus = .succeeded →
      W.isAccepted name m'.object.status.buildId = true ∨ W.isSafe name m'.object.status.buildId = true) :
    AcceptsSafely W { W.cluster.put name m' with underway := x } := by
  intro n k hk hs
  replace hk : (W.cluster.deployments.set name m').get? n = some k := hk
  rw [Dict.get?_set] at hk
  split at hk
  · case _ hname =>
    cases hk
    exact hname ▸ h hs
  · exact Or.inl (isAccepted_of_get? hk hs)

/-- A resource with the same build in the place of another. -/
theorem acceptsSafely_same (hm : W.cluster.deployments.get? name = some m) {m' : Managed} {x : Option (String × Underway)}
    (h : SameBuild m'.object.status m.object.status) : AcceptsSafely W { W.cluster.put name m' with underway := x } :=
  acceptsSafely_put fun hs => Or.inl (h.1 ▸ isAccepted_of_get? hm (h.2 ▸ hs))

theorem underwayTracks_put (h : UnderwayTracks W.cluster) (hm : W.cluster.deployments.get? name = some m) {m' : Managed}
    (hsame : SameBuild m'.object.status m.object.status) : UnderwayTracks (W.cluster.put name m') := by
  intro n u hu
  obtain ⟨k, hk, hcopy⟩ := h n u hu
  by_cases hname : n = name
  · subst hname
    cases hm.symm.trans hk
    exact ⟨m', Dict.get?_set_self _ _ _, hcopy.1.trans hsame.1.symm, hcopy.2.trans hsame.2.symm⟩
  · exact ⟨k, (Dict.get?_set_ne _ _ hname).trans hk, hcopy⟩

/-- The first part of a reconcile takes a build for done safely. -/
theorem begin_step {n : Nat} {C : Cluster} (hspare : W.sparesBuilds r (.cluster (.begin name obs n)) = true)
    (hs : W.cluster.step r (.begin name obs n) = some C) : AcceptsSafely W C ∧ UnderwayTracks C := by
  simp only [Cluster.step] at hs
  split at hs
  case isTrue => cases hs
  case isFalse hidle =>
  rw [Option.not_isSome_iff_eq_none] at hidle
  obtain ⟨m, hm, rfl⟩ := Option.map_eq_some_iff.1 hs
  have hnone {D : Cluster} (hD : D.underway = none) : UnderwayTracks D := fun _ _ hu => by rw [hD] at hu; cases hu
  have hdone (x : Option (String × Underway)) : AcceptsSafely W
      { W.cluster.put name (m.performAll ((W.cluster.beginning r name obs m).calls.take n)) with underway := x } := by
    refine acceptsSafely_put fun hs => ?_
    rcases beginning_done W.cluster n hs with ⟨hbuilt, hid⟩ | ⟨hid, hjob⟩
    · rw [hid]
      exact Or.inl (isAccepted_of_get? hm hbuilt)
    · rw [BuildWorld.sparesBuilds, hm, Option.all_some, Bool.or_eq_true, decide_eq_true_eq] at hspare
      rw [hid] at hjob ⊢
      exact Or.inr (hspare.resolve_left fun hne => hne hjob)
  split
  · split
    · exact ⟨fun n' k hk hs => Or.inl (isAccepted_of_get? hk hs), hnone hidle⟩
    · refine ⟨fun n' k hk hs => ?_, hnone hidle⟩
      replace hk : (W.cluster.deployments.erase name).get? n' = some k := hk
      rw [Dict.get?_erase] at hk
      split at hk
      · cases hk
      · exact Or.inl (isAccepted_of_get? hk hs)
  · split
    · case _ hall =>
      refine ⟨hdone _, fun n' u hu => ?_⟩
      obtain ⟨u', hu', heq⟩ := Option.map_eq_some_iff.1 hu
      cases heq
      refine ⟨_, Dict.get?_set_self _ _ _, ?_⟩
      have hlead : Tracks (m.performAll (W.cluster.beginning r name obs m).calls) u.copy :=
        reconcile_leads r name _ obs m u hu'
      rwa [List.take_of_length_le hall]
    · exact ⟨hdone W.cluster.underway, hnone hidle⟩

/-- An action of the namespace takes builds for done safely. -/
theorem cluster_step {a : ClusterAction} {C : Cluster} (h : UnderwayTracks W.cluster)
    (hspare : W.sparesBuilds r (.cluster a) = true) (hs : W.cluster.step r a = some C) : AcceptsSafely W C ∧ UnderwayTracks C := by
  cases a with
  | create name spec =>
    simp only [Cluster.step] at hs
    split at hs
    · cases hs
    · case _ hnew =>
      cases hs
      refine ⟨acceptsSafely_put fun hs => (by cases hs), fun n u hu => ?_⟩
      obtain ⟨k, hk, hcopy⟩ := h n u hu
      refine ⟨k, (Dict.get?_set_ne _ _ ?_).trans hk, hcopy⟩
      rintro rfl
      exact hnew (by rw [Dict.contains, hk]; rfl)
  | change name spec =>
    obtain ⟨m, hm, rfl⟩ := Option.map_eq_some_iff.1 hs
    exact ⟨acceptsSafely_same hm ⟨rfl, rfl⟩, underwayTracks_put h hm ⟨rfl, rfl⟩⟩
  | delete name =>
    obtain ⟨m, hm, rfl⟩ := Option.map_eq_some_iff.1 hs
    exact ⟨acceptsSafely_same hm ⟨rfl, rfl⟩, underwayTracks_put h hm ⟨rfl, rfl⟩⟩
  | report name job state =>
    obtain ⟨m, hm, hs⟩ := Option.bind_eq_some_iff.1 hs
    split at hs
    · cases hs
      exact ⟨acceptsSafely_same hm ⟨rfl, rfl⟩, underwayTracks_put h hm ⟨rfl, rfl⟩⟩
    · cases hs
  | reap name job =>
    obtain ⟨m, hm, rfl⟩ := Option.map_eq_some_iff.1 hs
    exact ⟨acceptsSafely_same hm ⟨rfl, rfl⟩, underwayTracks_put h hm ⟨rfl, rfl⟩⟩
  | begin name obs n => exact begin_step hspare hs
  | finish obs n =>
    obtain ⟨⟨name, u⟩, hu, rfl⟩ := Option.map_eq_some_iff.1 hs
    obtain ⟨m, hm, hcopy⟩ := h name u hu
    simp only [hm]
    exact ⟨acceptsSafely_same hm (finishing_sameBuild hcopy n), fun _ _ hnone => by cases hnone⟩

/-! ## Collections under way -/

/-- A collection that has still to look at the artifacts keeps what ReplicaSets refer to, and what it is about to delete is not
needed. -/
structure CollectionSpares (W : BuildWorld) (c : Collection) : Prop where
  kept : c.toDelete = none → ∀ buildId ∈ W.referenced c.deployment, buildId ∈ c.kept
  unneeded : ∀ buildId ∈ c.toDelete.getD [],
    buildId ∉ W.referenced c.deployment ∧ W.isAccepted c.deployment buildId = false

/-- All collections are harmless. -/
structure Spared (W : BuildWorld) : Prop where
  collections : ∀ c ∈ W.collections, CollectionSpares W c
  underway : UnderwayTracks W.cluster

theorem mem_referenced {d buildId : String} : buildId ∈ W.referenced d ↔ (d, buildId) ∈ W.replicaSets ∧ buildId ≠ "" := by
  simp only [BuildWorld.referenced, List.mem_filter, List.mem_map, decide_eq_true_eq]
  constructor
  · rintro ⟨⟨x, ⟨hx, rfl⟩, rfl⟩, hne⟩
    exact ⟨hx, hne⟩
  · rintro ⟨hx, hne⟩
    exact ⟨⟨_, ⟨hx, rfl⟩, rfl⟩, hne⟩

theorem isAccepted_false {buildId : String} (h : ∀ m, W.cluster.deployments.get? name = some m →
    m.object.status.buildStatus = .succeeded → m.object.status.buildId ≠ buildId) : W.isAccepted name buildId = false := by
  rw [← Bool.not_eq_true]
  intro haccepted
  obtain ⟨m, hm, hbuilt⟩ := (Option.any_eq_true _ _).1 haccepted
  rw [Bool.and_eq_true, decide_eq_true_eq, decide_eq_true_eq] at hbuilt
  exact h m hm hbuilt.2 hbuilt.1

/-- Fewer references, and no build taken for done but safely, leave a collection harmless. -/
theorem CollectionSpares.mono {c : Collection} (h : CollectionSpares W c) (hc : c ∈ W.collections)
    (hsets : ∀ x ∈ W'.replicaSets, x ∈ W.replicaSets) (haccepts : AcceptsSafely W W'.cluster) : CollectionSpares W' c := by
  have hreferenced {buildId : String} (hb : buildId ∈ W'.referenced c.deployment) : buildId ∈ W.referenced c.deployment := by
    rw [mem_referenced] at hb ⊢
    exact ⟨hsets _ hb.1, hb.2⟩
  refine ⟨fun hnone b hb => h.kept hnone b (hreferenced hb), fun b hb => ⟨fun hr => (h.unneeded b hb).1 (hreferenced hr), ?_⟩⟩
  refine isAccepted_false fun m hm hs => ?_
  rintro rfl
  rcases haccepts _ m hm hs with hold | hsafe
  · rw [(h.unneeded _ hb).2] at hold
    cases hold
  · have hnot := List.all_eq_true.1 hsafe c hc
    simp only [ne_eq, not_true_eq_false, decide_false, Bool.false_or, Bool.not_eq_true', List.contains_eq_mem,
      decide_eq_false_iff_not] at hnot
    exact hnot hb

/-- The namespace as it is takes nothing for done anew. -/
theorem acceptsSafely_refl (W : BuildWorld) : AcceptsSafely W W.cluster := fun _ _ hm hs => Or.inl (isAccepted_of_get? hm hs)

/-- What a collection selects is there, old, and not among those that it keeps. -/
theorem mem_selected {c : Collection} {now : Int} {buildId : String} (h : buildId ∈ W.selected r c now) :
    buildId ∉ c.kept ∧ ∃ a, W.artifacts.get? (c.deployment, buildId) = some a ∧ a.timestamp ≤ now - r.graceSeconds := by
  obtain ⟨⟨⟨d, b⟩, a⟩, he, rfl⟩ := List.mem_map.1 h
  obtain ⟨hmem, hsel⟩ := List.mem_filter.1 he
  simp only [Bool.and_eq_true, decide_eq_true_eq, Bool.not_eq_true', List.contains_eq_mem, decide_eq_false_iff_not] at hsel
  obtain ⟨⟨rfl, hkept⟩, hold⟩ := hsel
  exact ⟨hkept, a, (Dict.get?_eq_some_iff _ _ _).2 hmem, hold⟩

/-- A collection looks at the artifacts while the build taken for done is passed over. -/
theorem CollectionSpares.select {c : Collection} {now : Int} (h : CollectionSpares W c) (hnone : c.toDelete = none)
    (hpass : (W.cluster.deployments.get? c.deployment).all (fun m =>
      m.object.status.buildStatus ≠ .succeeded || W.passesOver r c now m.object.status.buildId) = true) :
    CollectionSpares W { c with toDelete := some (W.selected r c now) } := by
  refine ⟨nofun, fun b hb => ?_⟩
  obtain ⟨hkept, a, ha, hold⟩ := mem_selected hb
  refine ⟨fun hr => hkept (h.kept hnone b hr), ?_⟩
  refine isAccepted_false fun m hm hs => ?_
  rintro rfl
  rw [hm, Option.all_some, Bool.or_eq_true, decide_eq_true_eq] at hpass
  have hover := hpass.resolve_left fun hne => hne hs
  rw [BuildWorld.passesOver, ha, Option.all_some, Bool.or_eq_true, List.contains_eq_mem, decide_eq_true_eq,
    decide_eq_true_eq] at hover
  rcases hover with hin | hyoung
  · exact hkept hin
  · omega

theorem Spared.elsewhere (h : Spared W) (hcollections : W'.collections = W.collections)
    (hsets : ∀ x ∈ W'.replicaSets, x ∈ W.replicaSets) (haccepts : AcceptsSafely W W'.cluster)
    (hunderway : UnderwayTracks W'.cluster) : Spared W' := by
  refine ⟨fun c hc => ?_, hunderway⟩
  rw [hcollections] at hc
  exact (h.collections c hc).mono hc hsets haccepts

/-- A collection in the place of another. -/
theorem Spared.replace (h : Spared W) {i : Nat} {c : Collection} (hc : CollectionSpares W c)
    (artifacts : Dict (String × String) Artifact) :
    Spared { W with artifacts := artifacts, collections := W.collections.set i c } := by
  refine ⟨fun d hd => ?_, h.underway⟩
  rcases List.mem_or_eq_of_mem_set hd with hd | rfl
  · exact ⟨(h.collections d hd).kept, (h.collections d hd).unneeded⟩
  · exact ⟨hc.kept, hc.unneeded⟩

/-- A new ReplicaSet for a build that every collection spares. -/
theorem Spared.rollOut (h : Spared W) {buildId : String}
    (hsafe : (buildId = "" || W.isSafe name buildId && W.isKept name buildId) = true) :
    Spared { W with replicaSets := W.replicaSets ++ [(name, buildId)] } := by
  rw [Bool.or_eq_true, decide_eq_true_eq, Bool.and_eq_true] at hsafe
  refine ⟨fun c hc => ?_, h.underway⟩
  have hold := h.collections c hc
  have hreferenced {b : String} (hb : b ∈ { W with replicaSets := W.replicaSets ++ [(name, buildId)] }.referenced c.deployment) :
      b ∈ W.referenced c.deployment ∨ (c.deployment = name ∧ b = buildId ∧ buildId ≠ "") := by
    obtain ⟨hmem, hne⟩ := mem_referenced.1 hb
    rcases List.mem_append.1 hmem with hmem | hmem
    · exact Or.inl (mem_referenced.2 ⟨hmem, hne⟩)
    · cases List.mem_singleton.1 hmem
      exact Or.inr ⟨rfl, rfl, hne⟩
  refine ⟨fun hnone b hb => ?_, fun b hb => ⟨fun hr => ?_, (hold.unneeded b hb).2⟩⟩
  · rcases hreferenced hb with hb | ⟨rfl, rfl, hne⟩
    · exact hold.kept hnone b hb
    · have hkept := List.all_eq_true.1 (hsafe.resolve_left hne).2 c hc
      simpa [hnone] using hkept
  · rcases hreferenced hr with hr | ⟨rfl, rfl, hne⟩
    · exact (hold.unneeded b hb).1 hr
    · have hnot := List.all_eq_true.1 (hsafe.resolve_left hne).1 c hc
      simp only [ne_eq, not_true_eq_false, decide_false, Bool.false_or, Bool.not_eq_true', List.contains_eq_mem,
        decide_eq_false_iff_not] at hnot
      exact hnot hb

/-- The calls of a reconcile only bring pods and Deployments. -/
theorem foldl_follow_frame (r : Reconciler) (name : String) (ld : LlamaDeployment) (calls : List ApiCall) (W : BuildWorld) :
    ∃ pods applied, calls.foldl (BuildWorld.follow r name ld) W = { W with pods := pods, applied := applied } := by
  induction calls generalizing W with
  | nil => exact ⟨W.pods, W.applied, rfl⟩
  | cons c calls ih =>
    obtain ⟨pods, applied, hfirst⟩ : ∃ pods applied,
        BuildWorld.follow r name ld W c = { W with pods := pods, applied := applied } := by
      cases c <;> exact ⟨_, _, rfl⟩
    obtain ⟨pods', applied', hrest⟩ := ih { W with pods := pods, applied := applied }
    exact ⟨pods', applied', by rw [List.foldl_cons, hfirst, hrest]⟩

/-- Every action that keeps collections harmless does. -/
theorem step_spared {a : BuildAction} (h : Spared W) (hspare : W.sparesBuilds r a = true)
    (hs : BuildWorld.step r W a = some W') : Spared W' := by
  cases a with
  | cluster a =>
    simp only [BuildWorld.step, BuildWorld.stepCluster] at hs
    split at hs
    case isFalse => cases hs
    case isTrue =>
    obtain ⟨C, hC, rfl⟩ := Option.map_eq_some_iff.1 hs
    obtain ⟨haccepts, hunderway⟩ := cluster_step h.underway hspare hC
    cases W.calls r a with
    | none => exact h.elsewhere rfl (fun _ hx => hx) haccepts hunderway
    | some x =>
      obtain ⟨name, ld, calls⟩ := x
      obtain ⟨pods, applied, hframe⟩ := foldl_follow_frame r name ld calls W
      dsimp only
      rw [hframe]
      exact h.elsewhere rfl (fun _ hx => hx) haccepts hunderway
  | build i finds time =>
    obtain ⟨p, -, hs⟩ := Option.bind_eq_some_iff.1 hs
    have hsame (artifacts : Dict (String × String) Artifact) (uploaded : Dict (String × String) BuildInputs) : Spared
        { W with pods := W.pods.set i { p with done := true }, artifacts := artifacts, uploaded := uploaded } :=
      h.elsewhere rfl (fun _ hx => hx) (acceptsSafely_refl W) h.underway
    dsimp only at hs
    split at hs
    · split at hs
      · cases hs
        exact hsame W.artifacts W.uploaded
      · cases hs
    · cases hs
      exact hsame _ _
  | rollOut name =>
    obtain ⟨b, hb, rfl⟩ := Option.map_eq_some_iff.1 hs
    rw [BuildWorld.sparesBuilds, hb] at hspare
    exact h.rollOut hspare
  | prune name b =>
    cases hs
    exact h.elsewhere rfl (fun _ hx => List.mem_of_mem_erase hx) (acceptsSafely_refl W) h.underway
  | collect name keep listed =>
    cases hs
    rw [BuildWorld.sparesBuilds] at hspare
    subst hspare
    refine ⟨fun c hc => ?_, h.underway⟩
    rcases List.mem_append.1 hc with hc | hc
    · exact ⟨(h.collections c hc).kept, (h.collections c hc).unneeded⟩
    · cases List.mem_singleton.1 hc
      exact ⟨fun _ b hb => List.mem_append_left _ hb, fun _ hb => by cases hb⟩
  | select i now =>
    obtain ⟨c, hc, hs⟩ := Option.bind_eq_some_iff.1 hs
    split at hs
    · cases hs
    · case _ hnone =>
      cases hs
      rw [BuildWorld.sparesBuilds, hc, Option.all_some] at hspare
      rw [Option.not_isSome_iff_eq_none] at hnone
      exact h.replace ((h.collections c (List.mem_of_getElem? hc)).select hnone hspare) W.artifacts
  | deleteArtifact i b =>
    obtain ⟨c, hc, hs⟩ := Option.bind_eq_some_iff.1 hs
    obtain ⟨ids, hids, hs⟩ := Option.bind_eq_some_iff.1 hs
    split at hs
    · cases hs
      have hold := h.collections c (List.mem_of_getElem? hc)
      have hrest : CollectionSpares W { c with toDelete := some (ids.erase b) } := by
        refine ⟨fun hnone => (by cases hnone), fun b' hb' => hold.unneeded b' ?_⟩
        rw [hids]
        exact List.mem_of_mem_erase hb'
      exact h.replace hrest _
    · cases hs

/-- Harmless collections delete nothing that is needed. -/
theorem Spared.sparesNeeded (h : Spared W) : W.SparesNeeded r := by
  intro i b W' hs
  obtain ⟨c, hc, hs⟩ := Option.bind_eq_some_iff.1 hs
  obtain ⟨ids, hids, hs⟩ := Option.bind_eq_some_iff.1 hs
  split at hs
  · case _ hmem =>
    refine ⟨c, hc, (h.collections c (List.mem_of_getElem? hc)).unneeded b ?_⟩
    rw [hids]
    exact List.contains_iff_mem.1 hmem
  · cases hs

theorem spared_empty : Spared {} where
  collections _ hc := by cases hc
  underway _ _ hu := by cases hu

end ArtifactCollectionAux

/-- A collection never deletes the artifact of a build that a ReplicaSet refers to or that the operator takes for done, in a run in
which no listing of the ReplicaSets fails and neither a rollout nor a reconcile comes to use a build while a collection is about to
delete it. -/
theorem collection_spares_needed_artifacts {r : Reconciler} {W : BuildWorld}
    (hrun : Lib.Run (BuildWorld.step r) (fun W a => W.sparesBuilds r a = true) {} W) : W.SparesNeeded r := by
  have h : ArtifactCollectionAux.Spared W := hrun.invariant ArtifactCollectionAux.Spared ArtifactCollectionAux.spared_empty
    fun _ _ _ h hspare hs => ArtifactCollectionAux.step_spared h hspare hs
  exact h.sparesNeeded

namespace NeededArtifact

/-- A spec with a commit. -/
def pinned (sha : String) : DeploymentSpec := { repoUrl := "repo", gitSha := sha }

/-- The Job of a build. -/
def job (sha : String) : String := buildJobName "app" ("app|" ++ sha)

/-- A reconcile starts the build, and a pod uploads its artifact at a time. -/
def built (sha : String) (pod : Nat) (time : Int) : List BuildAction :=
  [.cluster (.begin "app" {} 9), .build pod false time, .cluster (.report "app" (job sha) .succeeded)]

/-- The next reconcile applies the Deployment, and the ReplicaSet comes up. -/
def rolledOut : List BuildAction := [.cluster (.begin "app" {} 9), .cluster (.finish {} 9), .rollOut "app"]

/-- The resources cannot be applied. -/
def failing : Observation := { resources := .failed false "quota exceeded" }

/-- Whether the first collection, which is one of the resource, can delete a build that is referenced, or taken for done. -/
def loses (needed : BuildWorld → String → Bool) (W : BuildWorld) (buildId : String) : Bool :=
  (BuildWorld.step {} W (.deleteArtifact 0 buildId)).isSome && (W.collections[0]?.any fun c => c.deployment = "app") &&
    needed W buildId

/-- Whether a ReplicaSet refers to a build. -/
def isReferenced (W : BuildWorld) (buildId : String) : Bool := (W.referenced "app").contains buildId

/-- Whether a build is taken for done. -/
def isTakenForDone (W : BuildWorld) (buildId : String) : Bool := W.isAccepted "app" buildId

theorem loses_sound {W : BuildWorld} {buildId : String} {needed : BuildWorld → String → Bool} (h : loses needed W buildId = true)
    (hneeded : needed W buildId = true → buildId ∈ W.referenced "app" ∨ W.isAccepted "app" buildId = true) :
    ¬ W.SparesNeeded {} := by
  intro hspares
  rw [loses, Bool.and_eq_true, Bool.and_eq_true] at h
  obtain ⟨⟨hstep, hdeployment⟩, h⟩ := h
  obtain ⟨W', hW'⟩ := Option.isSome_iff_exists.1 hstep
  obtain ⟨c, hc, hunreferenced, hunaccepted⟩ := hspares 0 buildId W' hW'
  rw [hc, Option.any_some, decide_eq_true_eq] at hdeployment
  rw [hdeployment] at hunreferenced hunaccepted
  rcases hneeded h with hr | ha
  · exact hunreferenced hr
  · rw [hunaccepted] at ha
    cases ha

end NeededArtifact

open NeededArtifact in
/-- A listing of the ReplicaSets that fails is taken for none, and the artifact of the running ReplicaSet is deleted. And without any
failure of the collection, when the resources of a finished build cannot be applied for as long as artifacts are young, its artifact
is deleted while the operator goes on to take the build for done. -/
theorem collection_spares_needed_artifacts_false :
    (∃ W, Lib.Run (BuildWorld.step {}) (fun _ _ => True) {} W ∧ isReferenced W "app|one" = true ∧ ¬ W.SparesNeeded {}) ∧
    ∃ W, Lib.Run (BuildWorld.step {}) (fun _ _ => True) {} W ∧ isTakenForDone W "app|one" = true ∧ ¬ W.SparesNeeded {} := by
  refine ⟨?_, ?_⟩
  · obtain ⟨W, hrun, hcheck⟩ := Lib.Run.exists_of_actions (BuildWorld.step {}) {}
      ([.cluster (.create "app" (pinned "one"))] ++ built "one" 0 0 ++ rolledOut ++ [.collect "app" [] false, .select 0 5000])
      (fun W => loses isReferenced W "app|one") (by decide +kernel)
    exact ⟨W, hrun, (Bool.and_eq_true_iff.1 hcheck).2, loses_sound hcheck fun h => Or.inl (List.contains_iff_mem.1 h)⟩
  · obtain ⟨W, hrun, hcheck⟩ := Lib.Run.exists_of_actions (BuildWorld.step {}) {}
      ([.cluster (.create "app" (pinned "one"))] ++ built "one" 0 0 ++
        [.cluster (.begin "app" failing 9), .collect "app" [] true, .select 0 5000])
      (fun W => loses isTakenForDone W "app|one") (by decide +kernel)
    exact ⟨W, hrun, (Bool.and_eq_true_iff.1 hcheck).2, loses_sound hcheck fun h => Or.inr h⟩

open NeededArtifact in
/-- After a second build the ReplicaSet of the first is gone, and its artifact can be deleted; that of the second is referenced and
taken for done. -/
theorem collection_spares_needed_artifacts_superseded :
    ∃ W : BuildWorld, (BuildWorld.step {} W (.deleteArtifact 0 "app|one")).isSome = true ∧ isReferenced W "app|two" = true ∧
      isTakenForDone W "app|two" = true ∧ W.SparesNeeded {} := by
  obtain ⟨W, hrun, hdeletes, hreferenced, hdone⟩ := Lib.Run.exists_of_exec (BuildWorld.step {}) (fun W a => W.sparesBuilds {} a) {}
    ([.cluster (.create "app" (pinned "one"))] ++ built "one" 0 0 ++ rolledOut ++
      [.cluster (.change "app" (pinned "two"))] ++ built "two" 1 100 ++ rolledOut ++
      [.prune "app" "app|one", .collect "app" ["app|two"] true, .select 0 9000])
    (fun W => (BuildWorld.step {} W (.deleteArtifact 0 "app|one")).isSome ∧ isReferenced W "app|two" ∧ isTakenForDone W "app|two")
    (by decide +kernel)
  exact ⟨W, hdeletes, hreferenced, hdone, collection_spares_needed_artifacts hrun⟩

end LlamaAgents
