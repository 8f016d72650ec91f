import LlamaAgents.Lemmas.Reconciling

/-!
# The capacity gates of the operator

The resources that take all slots of the concurrent rollouts are not all turned away by the gates, as long as a resource takes a slot,
or becomes active, only with room for it. The gates see to that only in a full reconcile of a resource that does not wait for code.
-/

namespace LlamaAgents

namespace CapacityAux

open Lib (Dict)
open ReconcilingAux

variable {r : Reconciler} {C : Cluster} {name : String} {obs : Observation} {m m' : Managed} {u : Underway}

/-- The limits are kept. -/
structure Fits (r : Reconciler) (C : Cluster) : Prop where
  rollouts : (C.rolling : Int) ≤ r.maxConcurrentRollouts
  deployments : 0 < r.maxDeployments → (C.deployments.values.countP Managed.isOccupying : Int) ≤ r.maxDeployments

/-- The resources of a cluster that meet a test are the others that do, and the resource itself if it does. -/
theorem countP_of_get? (p : Managed → Bool) (hm : C.deployments.get? name = some m) :
    C.deployments.values.countP p = (C.others name).countP p + if p m then 1 else 0 := by
  rw [Dict.countP_values _ p name, hm, Option.toList_some, List.countP_singleton, Cluster.others]

theorem countP_put (p : Managed → Bool) :
    (C.put name m').deployments.values.countP p = (C.others name).countP p + if p m' then 1 else 0 := by
  rw [countP_of_get? p (Dict.get?_set_self C.deployments name m'), Cluster.others, Cluster.put, Dict.valuesExcept_set,
    Cluster.others]

theorem countP_others_le (p : Managed → Bool) (name : String) : (C.others name).countP p ≤ C.deployments.values.countP p := by
  rw [Dict.countP_values _ p name]
  exact Nat.le_add_right _ _

/-- A count stays under its limit when a resource joins only with room. -/
theorem countP_put_le {p : Managed → Bool} {limit : Int} (h : (C.deployments.values.countP p : Int) ≤ limit)
    (hjoin : p m' = true → (∃ m, C.deployments.get? name = some m ∧ p m = true) ∨ ((C.others name).countP p : Int) < limit) :
    ((C.put name m').deployments.values.countP p : Int) ≤ limit := by
  rw [countP_put]
  by_cases hp : p m' = true
  · rw [if_pos hp]
    rcases hjoin hp with ⟨m, hm, hpm⟩ | hroom
    · rw [countP_of_get? p hm, if_pos hpm] at h
      exact h
    · push_cast
      omega
  · rw [if_neg hp]
    have hle := countP_others_le (C := C) p name
    push_cast
    omega

/-- What a resource must meet to take the place of another, or to be new. -/
structure Joins (r : Reconciler) (C : Cluster) (name : String) (m' : Managed) : Prop where
  rollout : m'.isRolling = true →
    (∃ m, C.deployments.get? name = some m ∧ m.isRolling = true) ∨ C.hasRolloutRoom r name = true
  deployment : m'.isOccupying = true →
    (∃ m, C.deployments.get? name = some m ∧ m.isOccupying = true) ∨ C.hasDeploymentRoom r name = true

theorem Fits.put (h : Fits r C) (hjoin : Joins r C name m') : Fits r (C.put name m') := by
  refine ⟨countP_put_le h.rollouts fun hp => ?_, fun hlimit => countP_put_le (h.deployments hlimit) fun hp => ?_⟩
  · exact (hjoin.rollout hp).imp_right of_decide_eq_true
  · refine (hjoin.deployment hp).imp_right fun hroom => ?_
    rw [Cluster.hasDeploymentRoom, Bool.or_eq_true, decide_eq_true_eq, decide_eq_true_eq] at hroom
    exact hroom.resolve_left (by omega)

/-- A resource whose phase and suspension are as before joins nothing. -/
theorem joins_of_same (hm : C.deployments.get? name = some m) (hphase : m'.object.status.phase = m.object.status.phase)
    (hsuspended : m'.object.spec.suspended = m.object.spec.suspended) : Joins r C name m' := by
  refine ⟨fun hp => Or.inl ⟨m, hm, ?_⟩, fun hp => Or.inl ⟨m, hm, ?_⟩⟩
  · rw [Managed.isRolling, hphase, hsuspended] at hp
    exact hp
  · rw [Managed.isOccupying, Managed.isActive, hphase] at hp
    exact hp

/-- A resource that neither takes a slot nor is active joins nothing. -/
theorem joins_of_idle (hrolling : m'.object.status.phase.isRollingPhase = false)
    (hactive : (m'.object.status.phase.isActivePhase || m'.object.status.phase = .building) = false) : Joins r C name m' := by
  refine ⟨fun hp => ?_, fun hp => ?_⟩
  · rw [Managed.isRolling, hrolling, Bool.and_false] at hp
    cases hp
  · rw [Managed.isOccupying, Managed.isActive, hactive] at hp
    cases hp

/-- The phases in which the first part of a reconcile may leave a resource. -/
inductive FirstPhase (r : Reconciler) (name : String) (obs : Observation) (m : Managed) : DeploymentPhase → Prop
  | same : FirstPhase r name obs m m.object.status.phase
  | initial : FirstPhase r name obs m (initialPhase m.object)
  | secret (hname : m.object.spec.secretName ≠ "") (hobs : obs.secret = .notFound) : FirstPhase r name obs m .rolloutFailed
  | failed : FirstPhase r name obs m .failed
  | building (hskip : NotSkipped m.object) (hbuild : r.needsBuild name m.object m.jobs = true) : FirstPhase r name obs m .building
  | buildFailed : FirstPhase r name obs m .buildFailed

/-- Calls of the first part keep the spec, and leave one of those phases. -/
theorem performAll_first {calls : List ApiCall} (hcalls : ∀ c ∈ calls, FirstCall r name obs m.object m.jobs c) :
    (m.performAll calls).object.spec = m.object.spec ∧ FirstPhase r name obs m (m.performAll calls).object.status.phase := by
  refine performAll_invariant (fun m' => m'.object.spec = m.object.spec ∧ FirstPhase r name obs m m'.object.status.phase)
    ⟨rfl, .same⟩ fun m' c hc h => ?_
  have hcall := hcalls c hc
  cases c with
  | migrate => exact hcall.elim
  | status s note =>
    refine ⟨h.1, ?_⟩
    show FirstPhase r name obs m s.phase
    cases hcall with
    | kept _ hp => exact hp ▸ .initial
    | secret _ hname hobs hp => exact hp ▸ .secret hname hobs
    | failed _ hp => exact hp ▸ .failed
    | building _ hskip hbuild hp => exact hp ▸ .building hskip hbuild
    | retried _ _ _ hp => exact hp ▸ .initial
    | buildFailed _ _ _ hp => exact hp ▸ .buildFailed
  | createJob job => exact h
  | deleteJob job => exact h
  | teardown => exact h
  | deployment buildId unpause replicas => exact h
  | scaleDownReplicaSet => exact h

theorem not_isAlreadyFailed (h : NotSkipped m.object) : m.object.isAlreadyFailed = false := by
  rw [LlamaDeployment.isAlreadyFailed, Bool.and_eq_false_iff, decide_eq_false_iff_not]
  by_cases hphase : m.object.status.phase.isTerminalFailure = true
  · exact Or.inr fun hmarker => h ⟨(initialPhase_of_terminal hphase).symm ▸ hphase, hmarker⟩
  · exact Or.inl (Bool.not_eq_true _ ▸ hphase)

theorem starts_of_building (hskip : NotSkipped m.object) (hbuild : r.needsBuild name m.object m.jobs = true) :
    m.starts r name = true := by
  rw [Managed.starts, hbuild, not_isAlreadyFailed hskip]
  exact Bool.or_true _

/-- The phase that a reconcile goes on with is the one it finds, or it is pending: the resource is new, or the reconcile is a full
one of a resource that waits for no code. -/
theorem initialPhase_cases (ld : LlamaDeployment) :
    initialPhase ld = ld.status.phase ∨ initialPhase ld = .pending ∧
      (ld.status.phase = .unset ∨ ld.needsFullReconciliation = true) ∧ ld.status.phase.isKept = false := by
  unfold initialPhase
  split
  · case _ h =>
    simp only [Bool.and_eq_true, Bool.or_eq_true, decide_eq_true_eq, Bool.not_eq_true'] at h
    exact Or.inr ⟨rfl, h⟩
  · exact Or.inl rfl

/-- A reconcile that a gate lets through finds a slot, if it was behind the gate. -/
theorem hasRolloutRoom_of_gate (hlimit : 0 < r.maxConcurrentRollouts) (hgate : C.checkCapacityGates r name m.object = false)
    (hbehind : m.isBehindGates = true) (hsuspended : m.object.spec.suspended = false) : C.hasRolloutRoom r name = true := by
  rw [Managed.isBehindGates, Bool.and_eq_true] at hbehind
  rw [Cluster.checkCapacityGates, hbehind.1, hbehind.2, hsuspended] at hgate
  have hrollout : C.checkRolloutCapacity r name = false := (Bool.or_eq_false_iff.1 hgate).2
  rw [Cluster.checkRolloutCapacity, decide_eq_true hlimit, Bool.true_and, decide_eq_false_iff_not] at hrollout
  exact decide_eq_true (Int.not_le.1 hrollout)

/-- The first part of a reconcile that begins with room joins only with room. -/
theorem first_joins (hlimit : 0 < r.maxConcurrentRollouts) (hm : C.deployments.get? name = some m)
    (hgate : C.checkCapacityGates r name m.object = false) (hroom : C.beginsWithRoom r name obs m = true)
    (hspec : m'.object.spec = m.object.spec) (hphase : FirstPhase r name obs m m'.object.status.phase) : Joins r C name m' := by
  obtain ⟨hrollout, hdeployment⟩ := Bool.and_eq_true _ _ ▸ hroom
  simp only [Bool.or_eq_true, Bool.not_eq_true', Bool.or_eq_false_iff] at hrollout hdeployment
  have hslot (hsuspended : m.object.spec.suspended = false) (hstarts : m.starts r name = true ∨ m.isBehindGates = true) :
      (∃ m, C.deployments.get? name = some m ∧ m.isRolling = true) ∨ C.hasRolloutRoom r name = true := by
    rcases hstarts with hstarts | hbehind
    · rcases hrollout with (((hs | hrolling) | hbehind) | hno) | hfree
      · rw [hsuspended] at hs
        cases hs
      · exact Or.inl ⟨m, hm, hrolling⟩
      · exact Or.inr (hasRolloutRoom_of_gate hlimit hgate hbehind hsuspended)
      · rw [hstarts] at hno
        cases hno
      · exact Or.inr hfree
    · exact Or.inr (hasRolloutRoom_of_gate hlimit hgate hbehind hsuspended)
  have hplace (hstarts : m.starts r name = true ∨ m.missesSecret obs = true) :
      (∃ m, C.deployments.get? name = some m ∧ m.isOccupying = true) ∨ C.hasDeploymentRoom r name = true := by
    rcases hdeployment with (hoccupying | ⟨hno, hfound⟩) | hfree
    · exact Or.inl ⟨m, hm, hoccupying⟩
    · rcases hstarts with hstarts | hmissing
      · rw [hstarts] at hno
        cases hno
      · rw [hmissing] at hfound
        cases hfound
    · exact Or.inr hfree
  have hactive (hrolling : m'.isRolling = true) : m.object.spec.suspended = false := by
    rw [Managed.isRolling, hspec, Bool.and_eq_true, Bool.not_eq_true'] at hrolling
    exact hrolling.1
  generalize hp : m'.object.status.phase = p at hphase
  have hsame (hp' : p = m.object.status.phase) : Joins r C name m' := joins_of_same hm (hp.trans hp') (by rw [hspec])
  cases hphase with
  | same => exact hsame rfl
  | initial =>
    rcases initialPhase_cases m.object with hkept | ⟨-, hopen, hkept⟩
    · exact hsame hkept
    · refine ⟨fun hrolling => hslot (hactive hrolling) ?_, fun _ => ?_⟩
      · refine hopen.imp (fun hunset => ?_) fun hfull => ?_
        · rw [Managed.starts, hunset]
          rfl
        · rw [Managed.isBehindGates, hfull, Bool.true_and]
          exact decide_eq_true fun hcode => by rw [hcode] at hkept; cases hkept
      · by_cases hunset : m.object.status.phase = .unset
        · refine hplace (Or.inl ?_)
          rw [Managed.starts, hunset]
          rfl
        · refine Or.inl ⟨m, hm, ?_⟩
          rw [Managed.isOccupying, Managed.isActive]
          cases hphase : m.object.status.phase <;> rw [hphase] at hkept hunset <;>
            first | rfl | exact (hunset rfl).elim | cases hkept
  | secret hname hobs =>
    refine ⟨fun hrolling => ?_, fun _ => hplace (Or.inr ?_)⟩
    · rw [Managed.isRolling, hp] at hrolling
      simp [DeploymentPhase.isRollingPhase] at hrolling
    · simp [Managed.missesSecret, hname, hobs]
  | building hskip hbuild =>
    have hstarts := starts_of_building hskip hbuild
    exact ⟨fun hrolling => hslot (hactive hrolling) (Or.inl hstarts), fun _ => hplace (Or.inl hstarts)⟩
  | failed => exact joins_of_idle (by rw [hp]; rfl) (by rw [hp]; rfl)
  | buildFailed => exact joins_of_idle (by rw [hp]; rfl) (by rw [hp]; rfl)

/-- The phase that the health of a Deployment amounts to is not that of a build. -/
theorem assessed_ne_building (ld : LlamaDeployment) : (r.assessDeploymentHealth obs ld).phase ≠ .building := by
  have hview (v : DeploymentView) : v.phase.1 ≠ .building := by
    unfold DeploymentView.phase
    split_ifs <;> exact nofun
  have hphase : (determineDeploymentPhase ld.spec.suspended obs.view).1 ≠ .building := by
    unfold determineDeploymentPhase
    split
    · exact nofun
    · split
      · exact nofun
      · exact hview _
  have htimeout (startedAt : Option Int) : ∀ x ∈ r.checkRolloutTimeout startedAt obs.now obs.timeoutView, x.1 ≠ .building := by
    intro x hx
    obtain ⟨t, -, hx⟩ := Option.bind_eq_some_iff.1 hx
    dsimp only at hx
    split at hx
    · cases hx
    · cases hx
      dsimp only
      split <;> exact nofun
  unfold Reconciler.assessDeploymentHealth
  dsimp only
  split
  · generalize hout : r.checkRolloutTimeout _ _ _ = out
    cases out with
    | none => exact hphase
    | some x => exact htimeout _ x hout
  · exact hphase

/-- Calls of the second part keep the spec, and leave the phase, that of a resource without code, or the one assessed. -/
theorem performAll_second {calls : List ApiCall} (hcalls : ∀ c ∈ calls, SecondCall r obs u m.object c) :
    (m.performAll calls).object.spec = m.object.spec ∧
      ((m.performAll calls).object.status.phase = m.object.status.phase ∨
        (m.performAll calls).object.status.phase = .awaitingCode ∨
        (∃ buildId, u.remaining = .rollout buildId) ∧
          (m.performAll calls).object.status.phase = (r.assessDeploymentHealth obs (u.current m.object)).phase) := by
  refine performAll_invariant (fun m' => m'.object.spec = m.object.spec ∧
    (m'.object.status.phase = m.object.status.phase ∨ m'.object.status.phase = .awaitingCode ∨
      (∃ buildId, u.remaining = .rollout buildId) ∧
        m'.object.status.phase = (r.assessDeploymentHealth obs (u.current m.object)).phase))
    ⟨rfl, Or.inl rfl⟩ fun m' c hc h => ?_
  have hcall := hcalls c hc
  cases c with
  | status s note =>
    refine ⟨h.1, ?_⟩
    cases hcall with
    | read _ _ hp => exact Or.inl hp
    | awaiting _ _ hp => exact Or.inr (Or.inl hp)
    | assessed hleft _ hp _ => exact Or.inr (Or.inr ⟨⟨_, hleft⟩, hp⟩)
    | remediated hleft _ hp _ => exact Or.inr (Or.inr ⟨⟨_, hleft⟩, hp⟩)
  | deployment buildId unpause replicas => exact h
  | scaleDownReplicaSet => exact h
  | migrate => exact hcall.elim
  | createJob job => exact hcall.elim
  | deleteJob job => exact hcall.elim
  | teardown => exact hcall.elim

theorem finishing_subset (r : Reconciler) (obs : Observation) (u : Underway) (m : Managed) :
    ∀ c ∈ Cluster.finishing r obs u m, SecondCall r obs u m.object c :=
  fun c hc => (resume_meets r obs u m.object).1 c (mem_resume_of_finishing hc)

/-- The second part of a reconcile that finishes with room joins only with room. -/
theorem second_joins (hm : C.deployments.get? name = some m) (hroom : C.finishesWithRoom r name obs u m = true) (calls : Nat) :
    Joins r C name (m.performAll ((Cluster.finishing r obs u m).take calls)) := by
  obtain ⟨hspec, hphase⟩ := performAll_second fun c hc => finishing_subset r obs u m c (List.mem_of_mem_take hc)
  generalize m.performAll _ = m' at hspec hphase
  rcases hphase with hsame | hcode | ⟨⟨buildId, hleft⟩, hp⟩
  · exact joins_of_same hm hsame (by rw [hspec])
  · exact joins_of_idle (by rw [hcode]; rfl) (by rw [hcode]; rfl)
  · simp only [Cluster.finishesWithRoom, hleft, Bool.not_true, Bool.false_or, Bool.and_eq_true, Bool.or_eq_true,
      Bool.not_eq_true', ← hp] at hroom
    obtain ⟨hrollout, hdeployment⟩ := hroom
    refine ⟨fun hrolling => ?_, fun hoccupying => ?_⟩
    · rw [Managed.isRolling, hspec, Bool.and_eq_true, Bool.not_eq_true'] at hrolling
      rcases hrollout with ((hs | hbefore) | hno) | hfree
      · rw [hrolling.1] at hs
        cases hs
      · exact Or.inl ⟨m, hm, hbefore⟩
      · rw [hrolling.2] at hno
        cases hno
      · exact Or.inr hfree
    · have hne : m'.object.status.phase ≠ .building := hp ▸ assessed_ne_building _
      rw [Managed.isOccupying, decide_eq_false hne, Bool.or_false, Managed.isActive] at hoccupying
      rcases hdeployment with (hbefore | hno) | hfree
      · exact Or.inl ⟨m, hm, hbefore⟩
      · rw [hoccupying] at hno
        cases hno
      · exact Or.inr hfree

/-- The first part of a reconcile joins only with room, whether it has a name to move, is turned away or goes on. -/
theorem begin_joins (hlimit : 0 < r.maxConcurrentRollouts) (hm : C.deployments.get? name = some m)
    (hroom : C.beginsWithRoom r name obs m = true) (calls : Nat) :
    Joins r C name (m.performAll ((C.beginning r name obs m).calls.take calls)) := by
  unfold Cluster.beginning
  cases hname : m.object.needsMigration with
  | true =>
    rw [reconcile_migrates _ hname]
    cases calls with
    | zero => exact joins_of_same hm rfl rfl
    | succ n =>
      rw [List.take_succ_cons, List.take_nil]
      exact joins_of_same hm rfl rfl
  | false =>
    cases hgate : C.checkCapacityGates r name m.object with
    | true =>
      rw [reconcile_gated hname, Lib.Script.stop, List.take_nil]
      exact joins_of_same hm rfl rfl
    | false =>
      have hcalls := (reconcile_meets r name false obs m.jobs hname).1
      obtain ⟨hspec, hphase⟩ := performAll_first fun c hc => hcalls c (List.mem_of_mem_take hc)
      exact first_joins hlimit hm hgate hroom hspec hphase

theorem Fits.withUnderway (h : Fits r C) (x : Option (String × Underway)) : Fits r { C with underway := x } :=
  ⟨h.rollouts, h.deployments⟩

theorem Fits.erase (h : Fits r C) (name : String) : Fits r { C with deployments := C.deployments.erase name } := by
  have hle (p : Managed → Bool) : (C.deployments.erase name).values.countP p ≤ C.deployments.values.countP p := by
    rw [Dict.countP_values _ p name, Dict.valuesExcept_erase, Dict.get?_erase_self]
    exact countP_others_le p name
  have hrolling := hle Managed.isRolling
  have hoccupying := hle Managed.isOccupying
  refine ⟨?_, fun hlimit => ?_⟩
  · have := h.rollouts
    unfold Cluster.rolling at this ⊢
    dsimp only
    omega
  · have := h.deployments hlimit
    dsimp only
    omega

/-- Every action that leaves room keeps the limits. -/
theorem step_fits {a : ClusterAction} {C' : Cluster} (hlimit : 0 < r.maxConcurrentRollouts) (h : Fits r C)
    (hroom : C.keepsRoom r a = true) (hs : C.step r a = some C') : Fits r C' := by
  cases a with
  | create name spec =>
    simp only [Cluster.step] at hs
    split at hs
    · cases hs
    · cases hs
      exact h.put (joins_of_idle rfl rfl)
  | change name spec =>
    obtain ⟨m, hm, rfl⟩ := Option.map_eq_some_iff.1 hs
    refine h.put ⟨fun hrolling => ?_, fun hoccupying => Or.inl ⟨m, hm, hoccupying⟩⟩
    rw [Managed.isRolling, Bool.and_eq_true, Bool.not_eq_true'] at hrolling
    simp only [Cluster.keepsRoom, hm, Option.all_some, Bool.or_eq_true, Bool.not_eq_true'] at hroom
    rcases hroom with ((hs | hno) | hbefore) | hfree
    · rw [hrolling.1] at hs
      cases hs
    · rw [hrolling.2] at hno
      cases hno
    · exact Or.inl ⟨m, hm, hbefore⟩
    · exact Or.inr hfree
  | delete name =>
    obtain ⟨m, hm, rfl⟩ := Option.map_eq_some_iff.1 hs
    exact h.put (joins_of_same hm rfl rfl)
  | report name job state =>
    obtain ⟨m, hm, hs⟩ := Option.bind_eq_some_iff.1 hs
    split at hs
    · cases hs
      exact h.put (joins_of_same hm rfl rfl)
    · cases hs
  | reap name job =>
    obtain ⟨m, hm, rfl⟩ := Option.map_eq_some_iff.1 hs
    exact h.put (joins_of_same hm rfl rfl)
  | begin name obs calls =>
    simp only [Cluster.step] at hs
    split at hs
    · cases hs
    · obtain ⟨m, hm, rfl⟩ := Option.map_eq_some_iff.1 hs
      simp only [Cluster.keepsRoom, hm, Option.all_some] at hroom
      split
      · split
        · exact h
        · exact h.erase name
      · have hput := h.put (begin_joins hlimit hm hroom calls)
        split
        · exact hput.withUnderway _
        · exact hput
  | finish obs calls =>
    obtain ⟨⟨name, u⟩, hu, rfl⟩ := Option.map_eq_some_iff.1 hs
    simp only [Cluster.keepsRoom, hu, Option.all_some] at hroom
    dsimp only
    cases hm : C.deployments.get? name with
    | none => exact h.withUnderway none
    | some m =>
      rw [hm, Option.all_some] at hroom
      have hjoins := second_joins hm hroom calls
      exact (h.withUnderway none).put ⟨hjoins.rollout, hjoins.deployment⟩

theorem isOccupying_of_isRolling (h : m.isRolling = true) : m.isOccupying = true := by
  rw [Managed.isRolling, Bool.and_eq_true] at h
  have hphase := h.2
  rw [Managed.isOccupying, Managed.isActive]
  revert hphase
  cases m.object.status.phase <;> simp [DeploymentPhase.isRollingPhase, DeploymentPhase.isActivePhase]

/-- Under the limits, a resource with a slot is not turned away. -/
theorem Fits.not_turnsAway (h : Fits r C) (hm : C.deployments.get? name = some m) (hrolling : m.isRolling = true) :
    C.turnsAway r name m = false := by
  have hrollout : C.checkRolloutCapacity r name = false := by
    have hcount := h.rollouts
    rw [Cluster.rolling, countP_of_get? _ hm, if_pos hrolling] at hcount
    rw [Cluster.checkRolloutCapacity, Bool.and_eq_false_iff]
    refine Or.inr (decide_eq_false ?_)
    push_cast at hcount
    omega
  have hdeployment : C.checkDeploymentCapacity r name = false := by
    rw [Cluster.checkDeploymentCapacity, Bool.and_eq_false_iff]
    by_cases hlimit : 0 < r.maxDeployments
    · have hcount := h.deployments hlimit
      rw [countP_of_get? _ hm, if_pos (isOccupying_of_isRolling hrolling)] at hcount
      have hle : (C.others name).countP Managed.isActive ≤ (C.others name).countP Managed.isOccupying :=
        List.countP_mono_left fun x _ hx => by rw [Managed.isOccupying, hx]; rfl
      refine Or.inr (decide_eq_false ?_)
      push_cast at hcount
      omega
    · exact Or.inl (decide_eq_false hlimit)
  rw [Cluster.turnsAway, Cluster.checkCapacityGates, hrollout, hdeployment, Bool.or_self, Bool.and_false, Bool.and_false]

/-- Under the limits, not all resources with a slot are turned away. -/
theorem Fits.not_blocked (h : Fits r C) (hlimit : 0 < r.maxConcurrentRollouts) : ¬ C.IsBlocked r := by
  rintro ⟨hfull, hall⟩
  have hsome : 0 < C.rolling := by omega
  obtain ⟨m, hmem, hrolling⟩ := List.countP_pos_iff.1 hsome
  obtain ⟨⟨name, m⟩, hentry, rfl⟩ := List.mem_map.1 hmem
  have hm : C.deployments.get? name = some m := (Dict.get?_eq_some_iff _ _ _).2 hentry
  have haway := hall name m hm hrolling
  rw [h.not_turnsAway hm hrolling] at haway
  cases haway

end CapacityAux

/-- The capacity gates never turn away every resource that takes a rollout slot while all slots are taken, for every rollout limit of at
least one and every deployment limit or none, in a run in which a resource comes to take a slot only while the others leave one. -/
theorem capacity_gates_never_block_all {r : Reconciler} {C : Cluster} (hlimit : 1 ≤ r.maxConcurrentRollouts)
    (hrun : Lib.Run (Cluster.step r) (fun C a => C.keepsRoom r a) {} C) : ¬ C.IsBlocked r := by
  have h : CapacityAux.Fits r C := hrun.invariant (CapacityAux.Fits r)
    ⟨by show (0 : Int) ≤ _; omega, fun hpositive => by show (0 : Int) ≤ _; omega⟩
    fun _ _ _ h ha hstep => CapacityAux.step_fits (by omega) h ha hstep
  exact h.not_blocked (by omega)

namespace Gated

/-- One rollout at a time. -/
def reconciler : Reconciler := { maxConcurrentRollouts := 1 }

/-- A resource with code. -/
def pushed : DeploymentSpec := { repoUrl := "repo", gitSha := "sha" }

/-- The Job of the build of a resource. -/
def job (name : String) : String := buildJobName name (reconciler.computeBuildId name pushed)

/-- The Deployment is healthy. -/
def healthy : Observation :=
  { view := some { replicas := 1, readyReplicas := 1, availableReplicas := 1, available := some .isTrue, progressing := some .isTrue } }

/-- A resource is created without code. -/
def awaiting (name : String) : List ClusterAction := [.create name {}, .begin name {} 9, .finish {} 9]

/-- A resource is created, built and running. -/
def running (name : String) : List ClusterAction :=
  [.create name pushed, .begin name {} 9, .report name (job name) .succeeded, .begin name {} 9, .finish healthy 9]

/-- Whether all slots are taken and every resource with one is turned away, to be evaluated. -/
def isBlocked (C : Cluster) : Bool :=
  reconciler.maxConcurrentRollouts ≤ C.rolling && C.deployments.entries.all fun e => !e.2.isRolling || C.turnsAway reconciler e.1 e.2

theorem isBlocked_sound {C : Cluster} (h : isBlocked C = true) : C.IsBlocked reconciler := by
  rw [isBlocked, Bool.and_eq_true, decide_eq_true_eq, List.all_eq_true] at h
  refine ⟨h.1, fun name m hm hrolling => ?_⟩
  have haway := h.2 (name, m) ((Lib.Dict.get?_eq_some_iff _ _ _).1 hm)
  rw [hrolling] at haway
  exact haway

end Gated

open Gated in
/-- With one rollout at a time, two resources without code that get code at the same time both start to build, and are both turned
away from then on. So are two running resources that lose their pods before their specs change. -/
theorem capacity_gates_never_block_all_false :
    (∃ C, Lib.Run (Cluster.step reconciler) (fun _ _ => True) {} C ∧
      C.deployments.values.map (fun m => m.object.status.phase) = [.building, .building] ∧ C.IsBlocked reconciler) ∧
    ∃ C, Lib.Run (Cluster.step reconciler) (fun _ _ => True) {} C ∧
      C.deployments.values.map (fun m => m.object.status.phase) = [.pending, .pending] ∧ C.IsBlocked reconciler := by
  refine ⟨?_, ?_⟩
  · obtain ⟨C, hrun, hphases, hblocked⟩ := Lib.Run.exists_of_actions (Cluster.step reconciler) {}
      (awaiting "a" ++ awaiting "b" ++ [.change "a" pushed, .change "b" pushed, .begin "a" {} 9, .begin "b" {} 9])
      (fun C => C.deployments.values.map (fun m => m.object.status.phase) = [.building, .building] ∧ isBlocked C)
      (by decide +kernel)
    exact ⟨C, hrun, hphases, isBlocked_sound hblocked⟩
  · obtain ⟨C, hrun, hphases, hblocked⟩ := Lib.Run.exists_of_actions (Cluster.step reconciler) {}
      (running "a" ++ running "b" ++ [.begin "a" {} 9, .finish {} 9, .begin "b" {} 9, .finish {} 9,
        .change "a" { pushed with displayName := "A" }, .change "b" { pushed with displayName := "B" }])
      (fun C => C.deployments.values.map (fun m => m.object.status.phase) = [.pending, .pending] ∧ isBlocked C)
      (by decide +kernel)
    exact ⟨C, hrun, hphases, isBlocked_sound hblocked⟩

open Gated in
/-- One resource builds and takes the one slot while the other is turned away, and the first is not. -/
theorem capacity_gates_never_block_all_building :
    ∃ C : Cluster, C.rolling = 1 ∧ C.deployments.values.map (fun m => m.object.status.phase) = [.building, .unset] ∧
      ¬ C.IsBlocked reconciler := by
  obtain ⟨C, hrun, hrolling, hphases⟩ := Lib.Run.exists_of_exec (Cluster.step reconciler) (fun C a => C.keepsRoom reconciler a) {}
    [.create "a" pushed, .create "b" pushed, .begin "a" {} 9, .begin "b" {} 9]
    (fun C => C.rolling = 1 ∧ C.deployments.values.map (fun m => m.object.status.phase) = [.building, .unset]) (by decide +kernel)
  exact ⟨C, hrolling, hphases, capacity_gates_never_block_all (by decide) hrun⟩

end LlamaAgents
