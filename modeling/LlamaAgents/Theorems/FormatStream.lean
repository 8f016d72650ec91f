import LlamaAgents.Server.FormatStream

/-!
# A stream whose subscription stops also stops

The end of a subscription reaches the response as a sentinel in the queue. If the subscription does not raise, the sentinel is there
when the feeder has finished, and the response sends what is before it and ends. A subscription that raises leaves no sentinel, and
the response waits, or sends heartbeats, until the client disconnects.
-/

namespace LlamaAgents

open FormatStream

universe u v

variable {η : Type u} {ε : Type v}

namespace FormatStreamAux

variable {S T : FormatStream η ε} {dumpJson : η → String}

/-- The sentinel is the last of the queue, from the time when the feeder is done until the response takes it. -/
structure Sentinel (S : FormatStream η ε) : Prop where
  running : S.feeder = .running → ∃ items : List (Nat × η), S.queue = items.map some
  done : S.feeder ≠ .running → S.phase ≠ .finished → ∃ items : List (Nat × η), S.queue = items.map some ++ [none]

theorem start_sentinel (sse : Bool) (interval : Option Time) : Sentinel (FormatStream.start sse interval : FormatStream η ε) :=
  ⟨fun _ => ⟨[], rfl⟩, fun h => absurd rfl h⟩

/-- What the subscription gives the feeder, short of an exception, keeps the sentinel last. -/
theorem feed_sentinel (h : Sentinel S) {r : Fetched (Nat × η) ε} (hr : r.isFailure = false)
    (hstep : S.step dumpJson (.feed r) = some T) : Sentinel T := by
  rw [step] at hstep
  split at hstep
  · case h_1 hrunning =>
    obtain ⟨items, hitems⟩ := h.running hrunning
    cases hstep
    cases r with
    | item item =>
      exact ⟨fun _ => ⟨items ++ [item], by rw [List.map_append, ← hitems]; rfl⟩, fun hdone => absurd hrunning hdone⟩
    | ended => exact ⟨nofun, fun _ _ => ⟨items, by rw [← hitems]; rfl⟩⟩
    | failed e => cases hr
    | cancelled => cases hr
  · cases hstep

/-- The response takes the first of the queue. -/
theorem get_sentinel (h : Sentinel S) (hstep : S.step dumpJson .get = some T) : Sentinel T := by
  rw [step] at hstep
  split at hstep
  · case h_1 item queue hphase hqueue =>
    cases hstep
    refine ⟨fun hrunning => ?_, fun hdone _ => ?_⟩
    · obtain ⟨items, hitems⟩ := h.running hrunning
      rw [hqueue] at hitems
      cases items with
      | nil => cases hitems
      | cons x items => exact ⟨items, (List.cons.inj hitems).2⟩
    · obtain ⟨items, hitems⟩ := h.done hdone (by rw [hphase]; nofun)
      rw [hqueue] at hitems
      cases items with
      | nil => cases hitems
      | cons x items => exact ⟨items, (List.cons.inj hitems).2⟩
  · case h_2 queue hphase hqueue =>
    cases hstep
    refine ⟨fun hrunning => ?_, fun _ hover => absurd rfl hover⟩
    obtain ⟨items, hitems⟩ := h.running hrunning
    rw [hqueue] at hitems
    cases items <;> cases hitems
  · cases hstep

theorem step_sentinel (h : Sentinel S) {a : FormatStreamAction η ε} (ha : spares a = true)
    (hstep : S.step dumpJson a = some T) : Sentinel T := by
  cases a with
  | feed r => exact feed_sentinel h (by simpa [spares] using ha) hstep
  | get => exact get_sentinel h hstep
  | timeOut =>
    rw [step] at hstep
    split at hstep
    · case h_1 hphase _ _ =>
      cases hstep
      exact ⟨h.running, fun hdone _ => h.done hdone (by rw [hphase]; nofun)⟩
    · cases hstep
  | resume =>
    rw [step] at hstep
    split at hstep
    · case h_1 hphase =>
      cases hstep
      exact ⟨h.running, fun hdone _ => h.done hdone (by rw [hphase]; nofun)⟩
    · cases hstep
  | disconnect =>
    rw [step] at hstep
    split at hstep
    · cases hstep
    · cases hstep
      refine ⟨fun hrunning => ?_, fun _ hover => absurd rfl hover⟩
      dsimp only at hrunning
      split at hrunning
      · cases hrunning
      · exact h.running hrunning

/-- A consumer that reads on brings the response to its wait. -/
theorem reads_to_wait (dumpJson : η → String) (hphase : S.phase ≠ .finished) :
    Lib.Run (FormatStream.step dumpJson) (fun _ a => a = .get ∨ a = .resume) S { S with phase := .waiting } := by
  cases h : S.phase with
  | waiting =>
    rw [← h]
    exact .refl
  | yielding =>
    refine Lib.Run.refl.tail (a := .resume) (Or.inr rfl) ?_
    rw [step, h]
  | finished => exact absurd h hphase

/-- A consumer that reads on gets what is queued, and then the end. -/
theorem reads_to_end (dumpJson : η → String) {items : List (Nat × η)} (hqueue : S.queue = items.map some ++ [none])
    (hphase : S.phase ≠ .finished) :
    ∃ T, Lib.Run (FormatStream.step dumpJson) (fun _ a => a = .get ∨ a = .resume) S T ∧ T.phase = .finished ∧
      T.sent = S.sent ++ items.map (eventText dumpJson S.sse) := by
  induction items generalizing S with
  | nil =>
    refine ⟨{ S with queue := [], phase := .finished }, (reads_to_wait dumpJson hphase).tail (a := .get) (Or.inl rfl) ?_, rfl, ?_⟩
    · rw [step, hqueue]
      rfl
    · exact (List.append_nil _).symm
  | cons item items ih =>
    have hget : Lib.Run (FormatStream.step dumpJson) (fun _ a => a = .get ∨ a = .resume) S
        { S with queue := items.map some ++ [none], phase := .yielding, sent := S.sent ++ [eventText dumpJson S.sse item] } := by
      refine (reads_to_wait dumpJson hphase).tail (a := .get) (Or.inl rfl) ?_
      rw [step, hqueue]
      rfl
    obtain ⟨T, hrun, hover, hsent⟩ := ih (S := { S with
      queue := items.map some ++ [none], phase := .yielding, sent := S.sent ++ [eventText dumpJson S.sse item] }) rfl nofun
    refine ⟨T, hget.trans hrun, hover, ?_⟩
    rw [hsent, List.append_assoc]
    rfl

/-- What is stuck stays so until the client disconnects. -/
theorem step_stuck (h : IsStuck S) {a : FormatStreamAction η ε} (ha : a ≠ .disconnect) (hstep : S.step dumpJson a = some T) :
    IsStuck T := by
  obtain ⟨hfeeder, hqueue, hphase⟩ := h
  cases a with
  | feed r =>
    rw [step] at hstep
    split at hstep
    · case h_1 hrunning => exact absurd hrunning hfeeder
    · cases hstep
  | get =>
    rw [step, hqueue] at hstep
    cases h : S.phase <;> rw [h] at hstep <;> cases hstep
  | timeOut =>
    rw [step] at hstep
    split at hstep
    · cases hstep
      exact ⟨hfeeder, hqueue, nofun⟩
    · cases hstep
  | resume =>
    rw [step] at hstep
    split at hstep
    · cases hstep
      exact ⟨hfeeder, hqueue, nofun⟩
    · cases hstep
  | disconnect => exact absurd rfl ha

end FormatStreamAux

open FormatStreamAux

/-- An event stream whose subscription stops also stops. In every state of every run in which the subscription does not raise: (1) the
response is not stuck, that is, if the feeder is done and the queue is empty, the response is over; (2) once the feeder is done, no
heartbeat is sent; (3) and a response that is not over ends when the consumer reads on, after the events that are queued. -/
theorem stream_stops (dumpJson : η → String) (sse : Bool) (interval : Option Time) {S : FormatStream η ε}
    (hrun : Lib.Run (FormatStream.step dumpJson) (fun _ a => spares a = true) (FormatStream.start sse interval) S) :
    ¬ S.IsStuck ∧ (S.feeder ≠ .running → S.step dumpJson .timeOut = none ∧
      (S.phase ≠ .finished → ∃ (items : List (Nat × η)) (T : FormatStream η ε), S.queue = items.map some ++ [none] ∧
        Lib.Run (FormatStream.step dumpJson) (fun _ a => a = .get ∨ a = .resume) S T ∧ T.phase = .finished ∧
          T.sent = S.sent ++ items.map (eventText dumpJson S.sse))) := by
  have h : Sentinel S := hrun.invariant Sentinel (start_sentinel sse interval) fun _ _ _ h ha hs => step_sentinel h ha hs
  refine ⟨?_, fun hdone => ⟨?_, fun hphase => ?_⟩⟩
  · rintro ⟨hdone, hempty, hphase⟩
    obtain ⟨items, hitems⟩ := h.done hdone hphase
    rw [hempty] at hitems
    exact List.append_ne_nil_of_right_ne_nil _ (List.cons_ne_nil none []) hitems.symm
  · rw [step]
    split
    · case h_1 hphase hempty _ =>
      obtain ⟨items, hitems⟩ := h.done hdone (by rw [hphase]; nofun)
      rw [hempty] at hitems
      exact absurd hitems.symm (List.append_ne_nil_of_right_ne_nil _ (List.cons_ne_nil none []))
    · rfl
  · obtain ⟨items, hitems⟩ := h.done hdone hphase
    obtain ⟨T, hreads, hover, hsent⟩ := reads_to_end dumpJson hitems hphase
    exact ⟨items, T, hitems, hreads, hover, hsent⟩

namespace RaisingSubscriptions

/-- An event is streamed, and the next query of the store raises. -/
def raising : List (FormatStreamAction String String) := [.feed (.item (0, "e")), .get, .resume, .feed (.failed "database is locked")]

/-- An event is streamed, and the subscription ends. -/
def ending : List (FormatStreamAction String String) := [.feed (.item (0, "e")), .feed .ended]

end RaisingSubscriptions

open RaisingSubscriptions in
/-- After the store has failed, the response is stuck, and stays so until the client disconnects, whatever else happens. -/
theorem stream_stops_false : ∃ S : FormatStream String String,
    Lib.Run (FormatStream.step id) (fun _ _ => True) (FormatStream.start true (some 15)) S ∧ S.IsStuck ∧
      (S.step id .timeOut).isSome ∧
      ∀ T, Lib.Run (FormatStream.step id) (fun _ a => a ≠ .disconnect) S T → T.phase ≠ .finished := by
  obtain ⟨S, hrun, hstuck, hwaits⟩ := Lib.Run.exists_of_actions (FormatStream.step id) (FormatStream.start true (some 15)) raising
    (fun S => (S.feeder ≠ .running ∧ S.queue = [] ∧ S.phase ≠ .finished) ∧ (S.step id .timeOut).isSome) (by decide +kernel)
  refine ⟨S, hrun, hstuck, hwaits, fun T hT => ?_⟩
  exact (hT.invariant IsStuck hstuck fun _ _ _ h ha hs => step_stuck h ha hs).2.2

open RaisingSubscriptions in
/-- After the subscription has ended, the response is not stuck although nothing was sent yet. -/
theorem stream_stops_ending : ∃ S : FormatStream String String, S.feeder = .finished ∧ S.sent = [] ∧ ¬ S.IsStuck := by
  obtain ⟨S, hrun, hfeeder, hsent⟩ := Lib.Run.exists_of_exec (FormatStream.step id) (fun _ a => spares a)
    (FormatStream.start true (some 15)) ending (fun S => S.feeder = .finished ∧ S.sent = []) (by decide +kernel)
  exact ⟨S, hfeeder, hsent, (stream_stops id true (some 15) hrun).1⟩

end LlamaAgents
