import LlamaAgents.Server.MemorySubscription

/-!
# A memory subscriber does not sleep on undelivered events

A subscriber that sleeps has given out everything since its start, and is notified of what comes, as long as no list is evicted that it
will look at again. Its index counts from the beginning of the list, so after an eviction it stands behind events that it never saw.

As long as no list is evicted that a subscriber will look at again, the list is the end of all events of the run, and what a subscriber
has given out together with what stands after its index is all that came since its start. All subscribers that read hold the one
condition of the dictionary.
-/

namespace LlamaAgents

namespace MemorySubscriptionAux

variable {W W' : SubscribedRun} {s : Subscriber} {i : Nat}

/-- A subscriber holds the condition of the dictionary. -/
def Holds (W : SubscribedRun) (s : Subscriber) : Prop := ∃ condition, s.condition = some condition ∧ W.current = some condition

/-- A subscriber that has given out some events has all others since its start before it. -/
structure At (W : SubscribedRun) (cursor start : Nat) (given : List StoredEvent) : Prop where
  split : given ++ W.events.drop cursor = W.appended.drop start
  cursor_le : cursor ≤ W.events.length
  start_le : start ≤ W.appended.length

/-- What holds of a subscriber, by its phase. -/
def Follows (W : SubscribedRun) (s : Subscriber) : Prop :=
  match s.phase with
  | .opened => s.yielded = []
  | .ended => True
  | .reading event batch =>
    Holds W s ∧ ((event :: batch).any StoredEvent.isTerminal = true ∨
      ∃ given, s.yielded = given ++ [event] ∧ At W s.cursor s.start given ∧ (event :: batch) <+: W.events.drop s.cursor)
  | .parked => Holds W s ∧ At W s.cursor s.start s.yielded ∧ W.events.drop s.cursor = []
  | .notified => Holds W s ∧ At W s.cursor s.start s.yielded

/-- The list is the end of all events, and every subscriber is where it should be. -/
structure Sound (W : SubscribedRun) : Prop where
  tail : ∃ before, W.appended = before ++ W.events
  follows : ∀ s ∈ W.subscribers, Follows W s

/-- A subscriber that looks at the list. -/
theorem look_follows (hholds : Holds W s) (hat : At W s.cursor s.start s.yielded) : Follows W (W.look s) := by
  unfold SubscribedRun.look
  split
  · case _ hnone => exact ⟨hholds, hat, hnone⟩
  · case _ event batch hsome =>
    refine ⟨hholds, Or.inr ⟨s.yielded, rfl, hat, ?_⟩⟩
    change (event :: batch) <+: W.events.drop s.cursor
    exact hsome ▸ List.prefix_refl _

/-- What a subscriber follows depends on the list, the events and the condition only. -/
theorem Follows.congr (h : Follows W s) (hevents : W'.events = W.events) (happended : W'.appended = W.appended)
    (hcurrent : ∀ condition, s.condition = some condition → W.current = some condition → W'.current = some condition) : Follows W' s := by
  have hholds : Holds W s → Holds W' s := fun ⟨condition, hs, hc⟩ => ⟨condition, hs, hcurrent condition hs hc⟩
  have hat {given : List StoredEvent} : At W s.cursor s.start given → At W' s.cursor s.start given := fun hat =>
    ⟨by rw [hevents, happended]; exact hat.split, by rw [hevents]; exact hat.cursor_le, by rw [happended]; exact hat.start_le⟩
  unfold Follows at h ⊢
  split
  · case _ hphase => rwa [hphase] at h
  · trivial
  · case _ event batch hphase =>
    rw [hphase] at h
    refine ⟨hholds h.1, h.2.imp_right fun ⟨given, hgiven, hat', hpre⟩ => ⟨given, hgiven, hat hat', ?_⟩⟩
    rw [hevents]
    exact hpre
  · case _ hphase =>
    rw [hphase] at h
    refine ⟨hholds h.1, hat h.2.1, ?_⟩
    rw [hevents]
    exact h.2.2
  · case _ hphase =>
    rw [hphase] at h
    exact ⟨hholds h.1, hat h.2⟩

/-- A subscriber takes the place of another. -/
theorem Sound.put (h : Sound W) (hs : Follows W s) : Sound (W.put i s) := by
  refine ⟨h.tail, fun t ht => ?_⟩
  have hfollows : Follows W t := by
    rcases List.mem_or_eq_of_mem_set ht with hold | rfl
    · exact h.follows t hold
    · exact hs
  exact hfollows.congr rfl rfl fun _ _ hc => hc

/-! ## Appending -/

/-- A subscriber that holds the condition of the dictionary keeps it alive. -/
theorem condition?_of_holds (hmem : s ∈ W.subscribers) (hholds : Holds W s) : W.condition? = s.condition ∧ W.condition? = W.current := by
  obtain ⟨condition, hs, hc⟩ := hholds
  have hheld : W.isHeld condition = true := List.any_eq_true.2 ⟨s, hmem, decide_eq_true hs⟩
  have hfound : W.condition? = some condition := by
    rw [SubscribedRun.condition?, hc, Option.filter_some, hheld]
    rfl
  exact ⟨hfound.trans hs.symm, hfound.trans hc.symm⟩

/-- What a notification makes of a subscriber. -/
def notified (W : SubscribedRun) (s : Subscriber) : Subscriber :=
  match W.condition? with
  | none => s
  | some condition => if s.phase = .parked && s.condition = some condition then { s with phase := .notified } else s

theorem notifyAll_eq (W : SubscribedRun) : W.notifyAll = W.subscribers.map (notified W) := by
  unfold SubscribedRun.notifyAll notified
  cases W.condition? with
  | none => exact (List.map_id _).symm
  | some condition => rfl

/-- A subscriber that sleeps is notified. -/
theorem notified_of_parked (hmem : s ∈ W.subscribers) (hfollows : Follows W s) (hparked : s.phase = .parked) :
    notified W s = { s with phase := .notified } := by
  unfold Follows at hfollows
  rw [hparked] at hfollows
  obtain ⟨hsame, -⟩ := condition?_of_holds hmem hfollows.1
  obtain ⟨condition, hs, -⟩ := hfollows.1
  unfold notified
  rw [hsame, hs]
  simp [hparked]

/-- Others are not. -/
theorem notified_of_ne (hphase : s.phase ≠ .parked) : notified W s = s := by
  unfold notified
  split
  · rfl
  · simp [hphase]

/-- The list after an event. -/
theorem events_append (event : Event) (h : W.step (.append event) = some W') :
    W'.events = W.events ++ [⟨(W.log.getD .empty).nextSequence, event⟩] ∧
      W'.appended = W.appended ++ [⟨(W.log.getD .empty).nextSequence, event⟩] ∧ W'.subscribers = W.notifyAll ∧
      W'.current = W.current := by
  cases h
  refine ⟨?_, rfl, rfl, rfl⟩
  unfold SubscribedRun.events
  cases W.log with
  | none => rfl
  | some log => rfl

/-- A subscriber has one more event before it. -/
theorem At.append {given : List StoredEvent} (h : At W s.cursor s.start given) {stored : StoredEvent}
    (hevents : W'.events = W.events ++ [stored])
    (happended : W'.appended = W.appended ++ [stored]) : At W' s.cursor s.start given := by
  refine ⟨?_, ?_, ?_⟩
  · rw [hevents, happended, List.drop_append_of_le_length h.cursor_le, List.drop_append_of_le_length h.start_le, ← List.append_assoc, h.split]
  · rw [hevents, List.length_append]
    exact Nat.le_add_right_of_le h.cursor_le
  · rw [happended, List.length_append]
    exact Nat.le_add_right_of_le h.start_le

theorem append_sound {event : Event} (h : Sound W) (hstep : W.step (.append event) = some W') : Sound W' := by
  obtain ⟨hevents, happended, hsubscribers, hcurrent⟩ := events_append event hstep
  obtain ⟨before, hbefore⟩ := h.tail
  refine ⟨⟨before, by rw [happended, hevents, hbefore, List.append_assoc]⟩, fun t ht => ?_⟩
  rw [hsubscribers, notifyAll_eq] at ht
  obtain ⟨s, hs, rfl⟩ := List.mem_map.1 ht
  have hfollows := h.follows s hs
  have hholds : Holds W s → Holds W' s := fun ⟨condition, hcond, hc⟩ => ⟨condition, hcond, hcurrent.trans hc⟩
  cases hphase : s.phase with
  | parked =>
    rw [notified_of_parked hs hfollows hphase]
    unfold Follows at hfollows
    rw [hphase] at hfollows
    exact ⟨hholds hfollows.1, hfollows.2.1.append hevents happended⟩
  | opened =>
    rw [notified_of_ne (by rw [hphase]; nofun)]
    unfold Follows at hfollows ⊢
    rwa [hphase] at hfollows ⊢
  | ended =>
    rw [notified_of_ne (by rw [hphase]; nofun)]
    unfold Follows
    rw [hphase]
    trivial
  | notified =>
    rw [notified_of_ne (by rw [hphase]; nofun)]
    unfold Follows at hfollows ⊢
    rw [hphase] at hfollows ⊢
    exact ⟨hholds hfollows.1, hfollows.2.append hevents happended⟩
  | reading current batch =>
    rw [notified_of_ne (by rw [hphase]; nofun)]
    unfold Follows at hfollows ⊢
    rw [hphase] at hfollows ⊢
    refine ⟨hholds hfollows.1, hfollows.2.imp_right fun ⟨given, hgiven, hat, hpre⟩ => ⟨given, hgiven, hat.append hevents happended, ?_⟩⟩
    rw [hevents, List.drop_append_of_le_length hat.cursor_le]
    exact hpre.trans (List.prefix_append _ _)

/-! ## Reading -/

/-- A subscriber starts within the list. -/
theorem startIndex_le (afterSequence : Int) (events : List StoredEvent) : startIndex afterSequence events ≤ events.length := by
  have hfold : ∀ (l : List StoredEvent) (n cursor : Nat), cursor ≤ n + l.length →
      (l.zipIdx n).foldl (fun cursor x => if x.1.number ≤ afterSequence then x.2 + 1 else cursor) cursor ≤ n + l.length := by
    intro l
    induction l with
    | nil => exact fun _ _ h => h
    | cons e l ih =>
      intro n cursor h
      rw [List.zipIdx_cons, List.foldl_cons, List.length_cons, Nat.add_left_comm, Nat.add_comm l.length]
      refine ih (n + 1) _ ?_
      split
      · exact Nat.le_add_right _ _
      · rw [List.length_cons] at h
        omega
  unfold startIndex
  split
  · have hle := hfold events 0 0 (Nat.zero_le _)
    rwa [Nat.zero_add] at hle
  · exact Nat.zero_le _

/-- The condition that a subscriber gets is the one of the dictionary, and those that read keep theirs. -/
theorem getOrCreateCondition_spec (W : SubscribedRun) :
    W.getOrCreateCondition.2.current = some W.getOrCreateCondition.1 ∧ W.getOrCreateCondition.2.events = W.events ∧
      W.getOrCreateCondition.2.appended = W.appended ∧ W.getOrCreateCondition.2.subscribers = W.subscribers ∧
      (W.getOrCreateCondition.2.current = W.current ∨ W.condition? = none) := by
  unfold SubscribedRun.getOrCreateCondition
  split
  · case _ condition hcond =>
    refine ⟨?_, rfl, rfl, rfl, Or.inl rfl⟩
    exact (Option.filter_eq_some_iff.1 hcond).1
  · case _ hnone => exact ⟨rfl, rfl, rfl, rfl, Or.inr hnone⟩

theorem begin_sound (h : Sound W) (hnew : s.yielded = []) : Sound (W.begin i s) := by
  obtain ⟨hcurrent, hevents, happended, hsubscribers, hkept⟩ := getOrCreateCondition_spec W
  unfold SubscribedRun.begin
  dsimp only
  have hsound : Sound W.getOrCreateCondition.2 := by
    refine ⟨by rw [hevents, happended]; exact h.tail, fun t ht => ?_⟩
    rw [hsubscribers] at ht
    refine (h.follows t ht).congr hevents happended fun condition ht' hc => ?_
    rcases hkept with hsame | hnone
    · exact hsame.trans hc
    · -- A subscriber that holds the condition keeps it in the dictionary.
      obtain ⟨hfound, -⟩ := condition?_of_holds ht ⟨condition, ht', hc⟩
      cases (hnone.symm.trans hfound).trans ht'
  refine hsound.put (look_follows ⟨_, rfl, hcurrent⟩ ?_)
  obtain ⟨before, hbefore⟩ := h.tail
  have hle := startIndex_le s.afterSequence W.events
  have hlength : W.appended.length - W.events.length = before.length := by
    rw [hbefore, List.length_append, Nat.add_sub_cancel]
  refine ⟨?_, by rw [hevents]; exact hle, ?_⟩
  · change s.yielded ++ _ = _
    rw [hnew, List.nil_append, hevents, happended, hlength, hbefore, List.drop_append, List.drop_of_length_le (Nat.le_add_right _ _),
      List.nil_append, Nat.add_sub_cancel_left]
  · rw [happended, hevents, hlength, hbefore, List.length_append]
    exact Nat.add_le_add_left hle _

/-- A subscriber after the event that it has given out. -/
theorem At.advance {cursor start : Nat} {given batch : List StoredEvent} {event : StoredEvent} (h : At W cursor start given)
    (hpre : (event :: batch) <+: W.events.drop cursor) :
    At W (cursor + 1) start (given ++ [event]) ∧ batch <+: W.events.drop (cursor + 1) := by
  obtain ⟨rest, hrest⟩ := hpre
  have hdrop : W.events.drop (cursor + 1) = batch ++ rest := by
    rw [← List.tail_drop, ← hrest]
    rfl
  refine ⟨⟨?_, ?_, h.start_le⟩, by rw [hdrop]; exact List.prefix_append _ _⟩
  · rw [hdrop, ← h.split, ← hrest, List.append_assoc]
    rfl
  · by_contra hlong
    rw [List.drop_of_length_le (Nat.le_of_lt_succ (Nat.lt_of_not_le hlong))] at hrest
    cases hrest

theorem advance_follows {event : StoredEvent} {batch : List StoredEvent} (h : Follows W s) (hphase : s.phase = .reading event batch) :
    Follows W (W.advance s event batch) := by
  unfold Follows at h
  rw [hphase] at h
  obtain ⟨hholds, hwhere⟩ := h
  unfold SubscribedRun.advance
  dsimp only
  split
  · trivial
  · case _ hgoesOn =>
    cases batch with
    | nil =>
      rcases hwhere with hends | ⟨given, hgiven, hat, hpre⟩
      · simp [hgoesOn] at hends
      · refine look_follows hholds ?_
        change At W (s.cursor + 1) s.start s.yielded
        rw [hgiven]
        exact (hat.advance hpre).1
    | cons next rest =>
      refine ⟨hholds, ?_⟩
      rcases hwhere with hends | ⟨given, hgiven, hat, hpre⟩
      · rw [List.any_cons, Bool.or_eq_true] at hends
        exact Or.inl (hends.resolve_left hgoesOn)
      · obtain ⟨hnext, hbatch⟩ := hat.advance hpre
        exact Or.inr ⟨s.yielded, rfl, hgiven ▸ hnext, hbatch⟩

/-! ## Eviction and all actions -/

theorem evict_sound (h : Sound W) (hspares : W.sparesReaders .evict = true) : Sound { W with log := none } := by
  refine ⟨⟨W.appended, (List.append_nil _).symm⟩, fun s hs => ?_⟩
  have hfollows := h.follows s hs
  rcases Bool.or_eq_true_iff.1 hspares with hempty | hall
  · refine hfollows.congr ?_ rfl fun _ _ hc => hc
    rw [List.isEmpty_iff.1 hempty]
    rfl
  · have hleaves := List.all_eq_true.1 hall s hs
    unfold Subscriber.leavesList at hleaves
    unfold Follows at hfollows ⊢
    cases hphase : s.phase with
    | opened => rwa [hphase] at hfollows
    | ended => trivial
    | reading event batch =>
      rw [hphase] at hfollows hleaves
      exact ⟨hfollows.1, Or.inl hleaves⟩
    | parked =>
      rw [hphase] at hleaves
      cases hleaves
    | notified =>
      rw [hphase] at hleaves
      cases hleaves

theorem step_sound {a : SubscriberAction} (h : Sound W) (hspares : W.sparesReaders a = true) (hstep : W.step a = some W') :
    Sound W' := by
  cases a with
  | subscribe afterSequence =>
    cases hstep
    refine ⟨h.tail, fun s hs => ?_⟩
    rcases List.mem_append.1 hs with hs | hs
    · exact (h.follows s hs).congr rfl rfl fun _ _ hc => hc
    · cases List.mem_singleton.1 hs
      rfl
  | append event => exact append_sound h hstep
  | evict =>
    cases hstep
    exact evict_sound h hspares
  | next i =>
    obtain ⟨s, hs, hstep⟩ := Option.bind_eq_some_iff.1 hstep
    have hfollows := h.follows s (List.mem_of_getElem? hs)
    split at hstep
    · case _ hphase =>
      cases hstep
      unfold Follows at hfollows
      rw [hphase] at hfollows
      exact begin_sound h hfollows
    · case _ event batch hphase =>
      cases hstep
      exact h.put (advance_follows hfollows hphase)
    · cases hstep
  | wake i =>
    obtain ⟨s, hs, hstep⟩ := Option.bind_eq_some_iff.1 hstep
    have hfollows := h.follows s (List.mem_of_getElem? hs)
    split at hstep
    · case _ hphase =>
      cases hstep
      unfold Follows at hfollows
      rw [hphase] at hfollows
      exact h.put (look_follows hfollows.1 hfollows.2)
    · cases hstep
  | close i =>
    obtain ⟨s, -, rfl⟩ := Option.map_eq_some_iff.1 hstep
    exact h.put trivial

end MemorySubscriptionAux

/-- In every run in which evictions spare the subscribers, whatever the interleaving and the cursors, every subscriber that sleeps has
given out all events since its start, each once and in order, and is notified of the next one. -/
theorem sleepers_are_served {W : SubscribedRun}
    (hrun : Lib.Run SubscribedRun.step (fun W a => W.sparesReaders a = true) {} W) : W.ServesSleepers := by
  have hsound : MemorySubscriptionAux.Sound W :=
    hrun.invariant _ ⟨⟨[], rfl⟩, List.forall_mem_nil _⟩ fun _ _ _ h hspares hstep => MemorySubscriptionAux.step_sound h hspares hstep
  intro i s hs hparked
  have hmem : s ∈ W.subscribers := List.mem_of_getElem? hs
  have hfollows := hsound.follows s hmem
  refine ⟨?_, fun event W' hstep => ?_⟩
  · unfold MemorySubscriptionAux.Follows at hfollows
    rw [hparked] at hfollows
    obtain ⟨-, hat, hnone⟩ := hfollows
    rw [← hat.split, hnone, List.append_nil]
  · obtain ⟨-, -, hsubscribers, -⟩ := MemorySubscriptionAux.events_append event hstep
    rw [hsubscribers, MemorySubscriptionAux.notifyAll_eq, List.getElem?_map, hs, Option.map_some,
      MemorySubscriptionAux.notified_of_parked hmem hfollows hparked]

namespace Overslept

/-- An event of the run. -/
def progress : Event := ⟨⟨"Progress", "app.Progress", ["workflows.events.Event"]⟩, []⟩

/-- The event that ends the run. -/
def stop : Event := ⟨.stopEvent, []⟩

/-- Whether the first subscriber sleeps, and has not given out all events since its start. -/
def oversleeps (W : SubscribedRun) : Bool :=
  W.subscribers[0]?.any fun s : Subscriber => decide (s.phase = .parked ∧ s.yielded ≠ W.appended.drop s.start)

theorem oversleeps_sound {W : SubscribedRun} (h : oversleeps W = true) : ¬ W.ServesSleepers := by
  intro hserves
  obtain ⟨s, hs, hcheck⟩ := (Option.any_eq_true _ _).1 h
  obtain ⟨hparked, hmissing⟩ := of_decide_eq_true hcheck
  exact hmissing (hserves 0 s hs hparked).1

end Overslept

open Overslept in
/-- A subscriber that is still to read an event when the list is evicted sleeps without it. And one that has read everything sleeps on
when the list is evicted and the terminal event is appended to a new one, which is shorter than its index. -/
theorem sleepers_are_served_false :
    (∃ W, Lib.Run SubscribedRun.step (fun _ _ => True) {} W ∧ oversleeps W = true ∧ ¬ W.ServesSleepers) ∧
    ∃ W, Lib.Run SubscribedRun.step (fun _ _ => True) {} W ∧ oversleeps W = true ∧
      W.appended.getLast?.any StoredEvent.isTerminal = true ∧ ¬ W.ServesSleepers := by
  refine ⟨?_, ?_⟩
  · obtain ⟨W, hrun, hcheck⟩ := Lib.Run.exists_of_actions SubscribedRun.step {}
      [.subscribe (-1), .append progress, .next 0, .append progress, .evict, .next 0] (oversleeps ·) (by decide +kernel)
    exact ⟨W, hrun, hcheck, oversleeps_sound hcheck⟩
  · obtain ⟨W, hrun, hover, hlast⟩ := Lib.Run.exists_of_actions SubscribedRun.step {}
      [.subscribe (-1), .append progress, .next 0, .next 0, .evict, .append stop, .wake 0]
      (fun W => oversleeps W ∧ W.appended.getLast?.any StoredEvent.isTerminal) (by decide +kernel)
    exact ⟨W, hrun, hover, hlast, oversleeps_sound hover⟩

open Overslept in
/-- Two subscribers read the events of a run, the second one from its second event on, and sleep. -/
theorem sleepers_are_served_both :
    ∃ W : SubscribedRun, (W.subscribers.map fun s : Subscriber => (s.phase, s.yielded.length)) = [(.parked, 2), (.parked, 1)] ∧
      W.ServesSleepers := by
  obtain ⟨W, hrun, hcheck⟩ := Lib.Run.exists_of_exec SubscribedRun.step (fun W a => W.sparesReaders a) {}
    [.subscribe (-1), .next 0, .append progress, .wake 0, .next 0, .subscribe 0, .next 1, .append progress, .wake 0, .wake 1, .next 0,
      .next 1]
    (fun W => (W.subscribers.map fun s : Subscriber => (s.phase, s.yielded.length)) = [(.parked, 2), (.parked, 1)])
    (by decide +kernel)
  exact ⟨W, hcheck, sleepers_are_served hrun⟩

end LlamaAgents
