import LlamaAgents.Server.AgentWrites

/-!
# Writes that keep their order

While the writes of a collection reach the service in order and none is lost, what is in the service and what is under way are
together the items numbered from zero.
-/

namespace LlamaAgents

namespace AgentWritesAux

variable {α : Type} {W W' : WriteQueue α} {i : Nat} {t : WriteTask α}

/-! ## Tasks -/

/-- The items under way, around one task. -/
theorem underWay_split (ht : W.tasks[i]? = some t) : W.underWay =
    ((W.tasks.take i).filter fun t => decide (t.state = .inFlight)).map WriteTask.item ++
      ((if t.state = .inFlight then [t.item] else []) ++
        ((W.tasks.drop (i + 1)).filter fun t => decide (t.state = .inFlight)).map WriteTask.item) := by
  obtain ⟨hi, rfl⟩ := List.getElem?_eq_some_iff.1 ht
  have hsplit : W.tasks = W.tasks.take i ++ W.tasks[i] :: W.tasks.drop (i + 1) := by
    rw [List.getElem_cons_drop, List.take_append_drop]
  conv_lhs => rw [WriteQueue.underWay, hsplit, List.filter_append, List.map_append, List.filter_cons]
  split
  · case isTrue h => rw [if_pos (of_decide_eq_true h), List.map_cons, List.singleton_append]
  · case isFalse h =>
    rw [decide_eq_true_eq] at h
    rw [if_neg h, List.nil_append]

/-- The items under way after one task has changed its state. -/
theorem underWay_set (ht : W.tasks[i]? = some t) {s : WriteState} (hs : s ≠ .inFlight) {items : List (Numbered α)} :
    ({ W with items := items, tasks := W.tasks.set i { t with state := s } } : WriteQueue α).underWay =
    ((W.tasks.take i).filter fun t => decide (t.state = .inFlight)).map WriteTask.item ++
      ((W.tasks.drop (i + 1)).filter fun t => decide (t.state = .inFlight)).map WriteTask.item := by
  have hi : i < W.tasks.length := (List.getElem?_eq_some_iff.1 ht).1
  rw [WriteQueue.underWay, List.set_eq_take_append_cons_drop, if_pos hi, List.filter_append, List.map_append, List.filter_cons,
    if_neg (by rw [decide_eq_true_eq]; exact hs)]

theorem underWay_append (x : α) : (W.append x).underWay = W.underWay ++ [⟨W.nextSequence, x⟩] := by
  change ((W.tasks ++ [_]).filter _).map WriteTask.item = _
  rw [List.filter_append, List.map_append]
  rfl

/-! ## Numbers -/

/-- Items numbered from zero without a gap. -/
def IsNumbered (l : List (Numbered α)) : Prop := l.map Numbered.sequence = List.range l.length

theorem IsNumbered.append {l : List (Numbered α)} (h : IsNumbered l) (x : α) : IsNumbered (l ++ [⟨l.length, x⟩]) := by
  rw [IsNumbered, List.map_append, h, List.length_append, List.map_singleton, List.length_singleton, List.range_succ]

theorem IsNumbered.left {l l' : List (Numbered α)} (h : IsNumbered (l ++ l')) : IsNumbered l := by
  have htake := congrArg (List.take l.length) h
  rw [List.map_append, List.take_left' (List.length_map _), List.take_range, List.length_append,
    Nat.min_eq_left (Nat.le_add_right _ _)] at htake
  exact htake

/-- Such items are in order. -/
theorem IsNumbered.pairwise {l : List (Numbered α)} (h : IsNumbered l) : l.Pairwise fun x y => x.sequence < y.sequence := by
  have hrange : (l.map Numbered.sequence).Pairwise (· < ·) := by
    rw [h]
    exact List.pairwise_lt_range
  exact List.pairwise_map.1 hrange

theorem afterMaxSequence_eq (h : IsNumbered W.items) : W.afterMaxSequence = W.items.length := by
  have hrange : ∀ m, (List.range m).foldl (fun n k => max n (k + 1)) 0 = m := by
    intro m
    induction m with
    | zero => rfl
    | succ m ih => rw [List.range_succ, List.foldl_append, ih, List.foldl_cons, List.foldl_nil, Nat.max_eq_right (Nat.le_succ m)]
  rw [WriteQueue.afterMaxSequence, ← List.foldl_map (f := Numbered.sequence) (g := fun n k => max n (k + 1)), h, hrange]

/-! ## The journal -/

/-- A journal in order: what is stored and what is under way are the ticks that were appended, numbered from zero, and the next number
is known, or nothing is under way. -/
structure InOrder (J : TickJournal α) : Prop where
  numbered : IsNumbered (J.writes.items ++ J.writes.underWay)
  appended : (J.writes.items ++ J.writes.underWay).map Numbered.data = J.appended
  counter : match J.writes.counter with
    | some n => n = (J.writes.items ++ J.writes.underWay).length
    | none => J.writes.underWay = []

theorem inOrder_empty : InOrder ({} : TickJournal α) :=
  ⟨rfl, rfl, rfl⟩

variable {J J' : TickJournal α} {a : JournalAction α}

theorem InOrder.next (h : InOrder J) : J.writes.nextSequence = (J.writes.items ++ J.writes.underWay).length := by
  have hcounter := h.counter
  rw [WriteQueue.nextSequence]
  split at hcounter
  · case h_1 n hn => rw [hn, Option.getD_some, hcounter]
  · case h_2 hn => rw [hn, Option.getD_none, afterMaxSequence_eq h.numbered.left, hcounter, List.append_nil]

theorem InOrder.append (h : InOrder J) (t : α) :
    InOrder { J with writes := J.writes.append t, appended := J.appended ++ [t] } := by
  have hjoin : (J.writes.append t).items ++ (J.writes.append t).underWay =
      (J.writes.items ++ J.writes.underWay) ++ [⟨(J.writes.items ++ J.writes.underWay).length, t⟩] := by
    rw [underWay_append, h.next, ← List.append_assoc]
    rfl
  refine ⟨?_, ?_, ?_⟩
  · rw [hjoin]
    exact h.numbered.append t
  · rw [hjoin, List.map_append, h.appended]
    rfl
  · change J.writes.nextSequence + 1 = _
    simp only [hjoin, h.next, List.length_append, List.length_singleton]

/-- The oldest write under way reaches the service. -/
theorem InOrder.arrive (h : InOrder J) (hfirst : (J.writes.tasks.take i).all fun t => decide (t.state ≠ .inFlight))
    (hW : J.writes.arrive i = some W) : InOrder { J with writes := W } := by
  obtain ⟨t, ht, rfl⟩ := Option.map_eq_some_iff.1 hW
  obtain ⟨ht, hflight⟩ := Option.filter_eq_some_iff.1 ht
  rw [decide_eq_true_eq] at hflight
  have hbefore : (J.writes.tasks.take i).filter (fun t => decide (t.state = .inFlight)) = [] := by
    rw [List.filter_eq_nil_iff]
    intro u hu hinFlight
    rw [decide_eq_true_eq] at hinFlight
    exact of_decide_eq_true (List.all_eq_true.1 hfirst u hu) hinFlight
  have hold := underWay_split ht
  have hnew : WriteQueue.underWay { J.writes with
      items := J.writes.items ++ [t.item], tasks := J.writes.tasks.set i { t with state := .stored } } = _ :=
    underWay_set ht (by decide)
  rw [hbefore, List.map_nil, List.nil_append] at hold hnew
  rw [if_pos hflight, List.singleton_append] at hold
  have hjoin : (J.writes.items ++ [t.item]) ++
      ((J.writes.tasks.drop (i + 1)).filter fun t => decide (t.state = .inFlight)).map WriteTask.item =
      J.writes.items ++ J.writes.underWay := by
    rw [hold, List.append_assoc, List.singleton_append]
  have hcounter := h.counter
  refine ⟨?_, ?_, ?_⟩
  · rw [hnew, hjoin]
    exact h.numbered
  · rw [hnew, hjoin]
    exact h.appended
  · rw [hnew, hjoin]
    change match J.writes.counter with
      | some n => n = (J.writes.items ++ J.writes.underWay).length
      | none => _
    split at hcounter
    · exact hcounter
    · rw [hold] at hcounter
      cases hcounter

theorem InOrder.respond (h : InOrder J) {ok : Bool} (hW : J.writes.respond i ok = some W) : InOrder { J with writes := W } := by
  obtain ⟨t, ht, rfl⟩ := Option.map_eq_some_iff.1 hW
  obtain ⟨ht, hstored⟩ := Option.filter_eq_some_iff.1 ht
  rw [decide_eq_true_eq] at hstored
  have hne : (if ok then WriteState.done else .failed) ≠ .inFlight := by
    cases ok <;> decide
  have hsame : ({ J.writes with tasks := J.writes.tasks.set i { t with state := if ok then .done else .failed } } :
      WriteQueue α).underWay = J.writes.underWay := by
    have hold := underWay_split ht
    rw [if_neg (by rw [hstored]; decide), List.nil_append] at hold
    exact (underWay_set ht hne).trans hold.symm
  refine ⟨?_, ?_, ?_⟩
  · rw [hsame]
    exact h.numbered
  · rw [hsame]
    exact h.appended
  · rw [hsame]
    exact h.counter

/-- A journal in order is read as it is stored. -/
theorem streamTicks_eq {l : List (Numbered α)} (h : IsNumbered l) : streamTicks l = l := by
  have hall : l.filter (Lib.isAfter Numbered.sequence none) = l := List.filter_eq_self.2 fun _ _ => rfl
  rw [streamTicks, Lib.readPages_eq h.pairwise (by decide), hall]
  rw [hall]
  exact Nat.lt_succ_self _

/-- An action that keeps the order keeps the journal in order. -/
theorem step_inOrder (h : InOrder J) (ha : J.keepsOrder a) (hstep : J.step a = some J') : InOrder J' := by
  cases a with
  | append t =>
    cases hstep
    exact h.append t
  | appendFails t => cases ha
  | arrive i =>
    obtain ⟨W, hW, rfl⟩ := Option.map_eq_some_iff.1 hstep
    exact h.arrive ha hW
  | respond i ok =>
    obtain ⟨W, hW, rfl⟩ := Option.map_eq_some_iff.1 hstep
    exact h.respond hW
  | lose i => cases ha
  | regroup =>
    cases hstep
    exact ⟨h.numbered, h.appended, h.counter⟩
  | cleanup =>
    cases hstep
    exact ⟨h.numbered, h.appended, h.counter⟩
  | forget i =>
    obtain ⟨awaited, -, rfl⟩ := Option.map_eq_some_iff.1 hstep
    refine ⟨h.numbered, h.appended, ?_⟩
    by_cases hfailed : J.writes.anyFailed awaited
    · simp only [hfailed, if_true]
      exact h.counter
    · simp only [hfailed, Bool.false_eq_true, if_false]
      exact List.isEmpty_iff.1 ha
  | restart =>
    cases hstep
    have hitems : IsNumbered J.writes.items := h.numbered.left
    refine ⟨?_, ?_, rfl⟩
    · change IsNumbered (J.writes.items ++ [])
      rw [List.append_nil]
      exact hitems
    · change (J.writes.items ++ []).map _ = _
      rw [List.append_nil, streamTicks_eq hitems]
  | arriveLate i => cases ha

end AgentWritesAux

end LlamaAgents
