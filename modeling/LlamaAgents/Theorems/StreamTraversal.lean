import LlamaAgents.StreamLevels
import Mathlib.Data.Finset.Card

/-!
# The traversal of stream levels ends

A call of `collapsed_outputs` from a loop has a producer without guard, and puts it under guard; one for a collect step has the step
under guard already. So of three calls in a row at least one puts a new step under guard, and the depth of the recursion is bounded by
the number of steps. Each loop sees types of one finite universe.
-/

namespace LlamaAgents

open Lib (Dict Returns)

namespace StreamTraversalAux

variable {steps : Dict StepId StepConfig} {guard : List StepId}

/-! ## The universe -/

theorem mem_returnedTypes {n : StepId} {c : StepConfig} (hmem : (n, c) ∈ steps.entries) :
    eventTypes c.returnTypes ⊆ returnedTypes steps :=
  fun _ ht => List.mem_flatMap.2 ⟨c, List.mem_map_of_mem hmem, ht⟩

theorem stepReturns_subset (n : StepId) : eventTypes (stepReturns steps n) ⊆ returnedTypes steps := by
  rw [stepReturns]
  cases hget : steps.get? n with
  | none => exact List.nil_subset _
  | some c => exact mem_returnedTypes ((Dict.get?_eq_some_iff _ _ _).1 hget)

theorem choice_subset {skip fan guarded : Bool} {out returned U : List EventType} (hout : out ⊆ U) (hreturned : returned ⊆ U) :
    (if skip then [] else if fan then (if guarded then [] else out) else returned) ⊆ U := by
  repeat' split
  · exact List.nil_subset U
  · exact List.nil_subset U
  · exact hout
  · exact hreturned

/-- What a fan-out step surfaces is returned by some step. -/
theorem collapsedOutputs_subset (depth : Nat) (n : StepId) (guard : List StepId) :
    collapsedOutputs steps depth n guard ⊆ returnedTypes steps := by
  induction depth generalizing n guard with
  | zero =>
    rw [collapsedOutputs]
    exact List.nil_subset _
  | succ depth ih =>
    rw [collapsedOutputs]
    intro t ht
    obtain ⟨p, hp, ht⟩ := List.mem_flatMap.1 ht
    exact choice_subset (ih _ _) (mem_returnedTypes hp) ht

theorem levelSuccessors_subset (depth : Nat) (t : EventType) :
    (steps.entries.flatMap fun p => levelSuccessors (fun n => collapsedOutputs steps depth n guard) guard t p.1 p.2) ⊆
      returnedTypes steps := by
  intro s hs
  obtain ⟨p, hp, hs⟩ := List.mem_flatMap.1 hs
  exact choice_subset (collapsedOutputs_subset _ _ _) (mem_returnedTypes hp) hs

/-! ## Every call returns -/

/-- The steps that are not under guard. -/
def unguarded (steps : Dict StepId StepConfig) (guard : List StepId) : Nat := (steps.keys.toFinset.filter (· ∉ guard)).card

theorem filter_cons_subset (n : StepId) :
    steps.keys.toFinset.filter (· ∉ n :: guard) ⊆ steps.keys.toFinset.filter (· ∉ guard) :=
  Finset.monotone_filter_right _ fun _ _ h hmem => h (List.mem_cons_of_mem n hmem)

theorem unguarded_cons_le (n : StepId) : unguarded steps (n :: guard) ≤ unguarded steps guard :=
  Finset.card_le_card (filter_cons_subset n)

theorem unguarded_cons_lt {n : StepId} (hn : n ∈ steps.keys) (hguard : n ∉ guard) :
    unguarded steps (n :: guard) < unguarded steps guard := by
  refine Finset.card_lt_card ⟨filter_cons_subset n, fun hsub => ?_⟩
  have hmem := hsub (Finset.mem_filter.2 ⟨List.mem_toFinset.2 hn, hguard⟩)
  exact (Finset.mem_filter.1 hmem).2 List.mem_cons_self

theorem returns_choice {skip fan guarded : Bool} {run : Nat → Option (List EventType)} {out returned : List EventType}
    (hrun : guarded = false → Returns run out) :
    Returns (fun k => if skip then some [] else if fan then (if guarded then some [] else run k) else some returned)
      (if skip then [] else if fan then (if guarded then [] else out) else returned) := by
  cases skip with
  | true => exact Returns.const []
  | false =>
    cases fan with
    | false => exact Returns.const returned
    | true =>
      cases guarded with
      | true => exact Returns.const []
      | false => exact hrun rfl

/-- `collapsed_outputs` returns when the walk of its child stream and the calls for the collect steps do. -/
theorem returns_collapsed {n : StepId} {depth : Nat}
    (hwalk : Returns (fun k => runWalk steps k (eventTypes (stepReturns steps n)).reverse [] (n :: guard))
      (walk steps depth (stepReturns steps n) (n :: guard)))
    (hnested : ∀ m ∈ steps.keys, m ∉ guard → Returns (fun k => runCollapsed steps k m (m :: guard))
      (collapsedOutputs steps depth m (m :: guard))) :
    Returns (fun k => runCollapsed steps k n guard) (collapsedOutputs steps (depth + 1) n guard) := by
  rw [collapsedOutputs]
  refine (hwalk.bind (Returns.flatMap fun p hp => ?_)).call fun k => by rw [runCollapsed]
  exact returns_choice fun hguard => hnested p.1 (List.mem_map_of_mem hp) (by simpa using hguard)

/-- A walk returns when the calls for the fan-out steps do. -/
theorem returns_walk {depth : Nat} {seeds : List EventType}
    (hcalls : ∀ m ∈ steps.keys, m ∉ guard →
      Returns (fun k => runCollapsed steps k m guard) (collapsedOutputs steps depth m guard)) :
    Returns (fun k => runWalk steps k (eventTypes seeds).reverse [] guard) (walk steps (depth + 1) seeds guard) := by
  rw [walk]
  let U := eventTypes seeds ++ returnedTypes steps
  have hsuccessors : ∀ t ∈ U, Returns
      (fun k => (steps.entries.mapM fun p => pushedByStep (fun n => runCollapsed steps k n guard) guard t p.1 p.2).bind
        fun added => some added.flatten)
      (steps.entries.flatMap fun p => levelSuccessors (fun n => collapsedOutputs steps depth n guard) guard t p.1 p.2) := by
    refine fun t _ => Returns.flatMap fun p hp => ?_
    exact returns_choice fun hguard => hcalls p.1 (List.mem_map_of_mem hp) (by simpa using hguard)
  have hsubset : (eventTypes seeds).reverse ⊆ U := fun t ht => List.mem_append_left _ (List.mem_reverse.1 ht)
  have hclosed (t : EventType) (_ : t ∈ U) :
      (steps.entries.flatMap fun p => levelSuccessors (fun n => collapsedOutputs steps depth n guard) guard t p.1 p.2) ⊆ U :=
    fun s hs => List.mem_append_right _ (levelSuccessors_subset depth t hs)
  refine @Returns.search _ _ _ (fun k frontier seen => runWalk steps k frontier seen guard) _ U (fun k seen => by rw [runWalk])
    (fun k t rest seen => ?_) hclosed hsuccessors _ _ _ hsubset (List.nil_subset U) List.nodup_nil (by simp [U])
  simp only [runWalk, Option.bind_assoc, Option.bind_some]

/-- From a guard, every walk and every call return with what is computed at a depth that is large enough. -/
def Ends (steps : Dict StepId StepConfig) (guard : List StepId) : Prop :=
  (∀ depth seeds, 3 * unguarded steps guard < depth →
    Returns (fun k => runWalk steps k (eventTypes seeds).reverse [] guard) (walk steps depth seeds guard)) ∧
  ∀ depth n, 3 * unguarded steps guard + 1 < depth →
    Returns (fun k => runCollapsed steps k n guard) (collapsedOutputs steps depth n guard)

/-- A walk only calls for steps that are not under guard, and their child streams have more under guard. -/
theorem walk_returns (hless : ∀ g, unguarded steps g < unguarded steps guard → Ends steps g) {depth : Nat} {seeds : List EventType}
    (hdepth : 3 * unguarded steps guard < depth) :
    Returns (fun k => runWalk steps k (eventTypes seeds).reverse [] guard) (walk steps depth seeds guard) := by
  obtain ⟨depth, rfl⟩ : ∃ d, depth = d + 1 := ⟨depth - 1, by omega⟩
  refine returns_walk fun n hn hguard => ?_
  have hnew := unguarded_cons_lt hn hguard
  obtain ⟨depth, rfl⟩ : ∃ d, depth = d + 1 := ⟨depth - 1, by omega⟩
  refine returns_collapsed ((hless _ hnew).1 _ _ (by omega)) fun m hm hmguard => ?_
  have hnested := unguarded_cons_lt hm hmguard
  exact (hless _ hnested).2 _ _ (by omega)

theorem ends (steps : Dict StepId StepConfig) (guard : List StepId) : Ends steps guard := by
  induction hk : unguarded steps guard using Nat.strong_induction_on generalizing guard with
  | _ k ih =>
    have hless : ∀ g, unguarded steps g < k → Ends steps g := fun g hg => ih _ hg g rfl
    subst hk
    refine ⟨fun depth seeds => walk_returns hless, fun depth n hdepth => ?_⟩
    obtain ⟨depth, rfl⟩ : ∃ d, depth = d + 1 := ⟨depth - 1, by omega⟩
    have hle : unguarded steps (n :: guard) ≤ unguarded steps guard := unguarded_cons_le n
    refine returns_collapsed (walk_returns (fun g hg => hless g (by omega)) (by omega)) fun m hm hguard => ?_
    have hnested := unguarded_cons_lt hm hguard
    exact (hless _ hnested).2 _ _ (by omega)

theorem unguarded_le (steps : Dict StepId StepConfig) (guard : List StepId) : unguarded steps guard ≤ steps.entries.length := by
  calc unguarded steps guard ≤ steps.keys.toFinset.card := Finset.card_filter_le _ _
    _ ≤ steps.keys.length := List.toFinset_card_le _
    _ = steps.entries.length := List.length_map _

/-! ## Recursion paths -/

theorem starts_keeps {n : StepId} {v : Visit} (h : Starts steps n guard v) :
    guard ⊆ v.guard ∧ v.frontier ⊆ returnedTypes steps := by
  induction h with
  | child => exact ⟨List.subset_cons_self _ _, fun t ht => stepReturns_subset _ (List.mem_reverse.1 ht)⟩
  | nested _ _ _ _ _ ih => exact ⟨fun m hm => ih.1 (List.mem_cons_of_mem _ hm), ih.2⟩

/-- A walk that is started has a new step under guard: the producer, or the collect step at which the call was nested. -/
theorem starts_new {n : StepId} {v : Visit} (h : Starts steps n guard v) (hn : n ∈ steps.keys) (hguard : n ∉ guard) :
    ∃ m ∈ steps.keys, m ∈ v.guard ∧ m ∉ guard := by
  cases h with
  | child => exact ⟨n, hn, List.mem_cons_self, hguard⟩
  | nested hmem _ _ hnew hstarts =>
    exact ⟨_, List.mem_map_of_mem hmem, (starts_keeps hstarts).1 List.mem_cons_self, hnew⟩

theorem popped {frontier rest seen : List EventType} {t : EventType} (hpop : frontier.dropWhile (· ∈ seen) = t :: rest) :
    t ∉ seen ∧ t :: rest ⊆ frontier := by
  refine ⟨?_, hpop ▸ List.dropWhile_subset _⟩
  have hhead := List.head_dropWhile_not (· ∈ seen) (l := frontier) (by simp [hpop])
  simpa [hpop] using hhead

theorem descends_universe {U : List EventType} (hU : returnedTypes steps ⊆ U) {v w : Visit} (h : Descends steps v w)
    (hv : v.frontier ⊆ U) : w.frontier ⊆ U := by
  cases h with
  | round hpop =>
    have hrest := (List.cons_subset.1 (popped hpop).2).2
    exact List.append_subset.2 ⟨fun t ht => hU (levelSuccessors_subset _ _ (List.mem_reverse.1 ht)), fun t ht => hv (hrest ht)⟩
  | call _ _ _ _ _ _ hstarts => exact fun t ht => hU ((starts_keeps hstarts).2 ht)

end StreamTraversalAux

open StreamTraversalAux in
/-- For every step configuration, seeds and guard, `walk` and `collapsed_outputs` return, with the types that the model with a fixed
depth computes. On every recursion path each step puts a new step of the workflow under guard, or keeps the guard and sees a new type
of the universe of seeds and returned types. -/
theorem stream_traversal_terminates (steps : Dict StepId StepConfig) (seeds : List EventType) (guard : List StepId) :
    Returns (fun fuel => runWalk steps fuel (eventTypes seeds).reverse [] guard) (sameLevelTypes steps seeds guard) ∧
    (∀ producer ∈ steps.keys, Returns (fun fuel => runCollapsed steps fuel producer guard)
      (collapsedOutputs steps (levelDepth steps) producer guard)) ∧
    ∀ v w, Relation.ReflTransGen (Descends steps) (Visit.first seeds guard) v → Descends steps v w →
      (v.guard ⊆ w.guard ∧ ∃ n ∈ steps.keys, n ∈ w.guard ∧ n ∉ v.guard) ∨
      (w.guard = v.guard ∧ ∃ t ∈ eventTypes seeds ++ returnedTypes steps, t ∉ v.seen ∧ w.seen = v.seen ++ [t]) := by
  have hle := unguarded_le steps guard
  refine ⟨(ends steps guard).1 _ _ (by rw [levelDepth]; omega), fun n _ => (ends steps guard).2 _ n (by rw [levelDepth]; omega), ?_⟩
  intro v w hpath hstep
  have huniverse : v.frontier ⊆ eventTypes seeds ++ returnedTypes steps := by
    clear hstep
    induction hpath with
    | refl => exact fun t ht => List.mem_append_left _ (List.mem_reverse.1 ht)
    | tail _ h ih => exact descends_universe (List.subset_append_right _ _) h ih
  cases hstep with
  | round hpop =>
    obtain ⟨hnew, hsubset⟩ := popped hpop
    exact .inr ⟨rfl, _, huniverse (hsubset List.mem_cons_self), hnew, rfl⟩
  | call _ hmem _ _ _ hguard hstarts =>
    exact .inl ⟨(starts_keeps hstarts).1, starts_new hstarts (List.mem_map_of_mem hmem) hguard⟩

end LlamaAgents
