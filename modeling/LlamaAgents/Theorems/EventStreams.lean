import LlamaAgents.Server.EventStream

/-!
# Event streams

An event stream delivers the visible events after its cursor in order, across reconnects, and ends with the terminal event, when
the store leaves out no event, the reads of the server and the writes of the run do not cross in two places, and the connection of
a stream that was opened at the end of the log is not lost before its first event.

The client has delivered the visible events from where it started up to its position; what was sent and not received comes next.
A stream that ends has read a complete log to its end.
-/

namespace LlamaAgents

namespace EventLog

variable (l : EventLog)

theorem number_getElem {i : Nat} (hi : i < l.events.length) : (l.events[i]).sequence = i := by
  have h := congrArg (fun m => m[i]?) l.numbered
  simpa [hi] using h

/-- Events stand in the order of their numbers. -/
theorem sorted : l.events.Pairwise fun x y => x.number < y.number := by
  have h : (l.events.map StoredEvent.sequence).Pairwise (· < ·) := l.numbered ▸ List.pairwise_lt_range
  exact (List.pairwise_map.1 h).imp fun hlt => Int.ofNat_lt.2 hlt

theorem number_lt {e : StoredEvent} (he : e ∈ l.events) : e.number < l.events.length := by
  obtain ⟨i, hi, rfl⟩ := List.mem_iff_getElem.1 he
  rw [StoredEvent.number, l.number_getElem hi]
  exact Int.ofNat_lt.2 hi

theorem last_lt : (l.events.getLast?.map StoredEvent.number).getD (-1) < l.events.length := by
  cases hlast : l.events.getLast? with
  | none => exact lt_of_lt_of_le (by decide) (Int.natCast_nonneg _)
  | some e => exact l.number_lt (List.mem_of_getLast? hlast)

theorem after_eq_nil {n : Int} (h : (l.after n).isEmpty) : ∀ e ∈ l.events, e.number ≤ n := by
  intro e he
  have hnone := List.filter_eq_nil_iff.1 (List.isEmpty_iff.1 h) e he
  rw [decide_eq_true_eq, not_lt] at hnone
  exact hnone

/-- The terminal event of a complete log is its last. -/
theorem exists_terminal (h : l.isComplete) : ∃ t ∈ l.events, t.isTerminal ∧ ∀ e ∈ l.events, e.number ≤ t.number := by
  obtain ⟨t, ht, hterm⟩ := (Option.any_eq_true _ _).1 h
  exact ⟨t, List.mem_of_getLast? ht, hterm, Lib.le_of_getLast? l.sorted ht⟩

end EventLog

namespace EventStreamAux

variable {opts : StreamOptions} {S S' : EventStreamRun}

/-- The visible events after a number up to a position. -/
def readUpTo (opts : StreamOptions) (S : EventStreamRun) (b p : Int) : List StoredEvent :=
  Lib.window StoredEvent.number opts.isVisible b p S.log.events

/-- A position that a reader can be at: where it started, or that of an event. -/
def Reached (S : EventStreamRun) (b p : Int) : Prop := b ≤ p ∧ (p = b ∨ p < S.log.events.length)

/-- A reader that started after `b`, has got to `p` and has read `es` on the way. -/
structure Reads (opts : StreamOptions) (S : EventStreamRun) (p : Int) (es : List StoredEvent) : Prop where
  base : ∃ b, S.base = some b ∧ Reached S b p ∧ es = readUpTo opts S b p

/-- A number that a cursor was resolved to: for a stream at the end of the log that has not been opened yet, one below those of
the events to come. -/
structure Resolved (S : EventStreamRun) (a : Int) : Prop where
  now : S.cursor = .now → S.base = none ∧ a < S.log.events.length
  after : ∀ p, S.cursor = .after p → a = p

/-- What is known in a phase. -/
def InPhase (opts : StreamOptions) (S : EventStreamRun) : Prop :=
  match S.phase with
  | .connecting | .resolving _ => S.cursor = .now → S.base = none
  | .resolved _ a => Resolved S a
  | .checking status a => Resolved S a ∧ (status.isTerminal → S.log.isComplete)
  | .streaming position inFlight closed => Reads opts S position (S.delivered ++ inFlight) ∧
      (closed → S.log.isComplete ∧ ∀ e ∈ S.log.events, e.number ≤ position)
  | .done => S.log.isComplete ∧ ∃ b, S.base = some b ∧ S.delivered = S.visibleAfter opts b
  | .failed => True

/-- What holds in every state of a stream that is spared. -/
structure Tracks (opts : StreamOptions) (S : EventStreamRun) : Prop where
  nowhere : S.cursor = .now → S.delivered = []
  somewhere : ∀ p, S.cursor = .after p → Reads opts S p S.delivered
  phase : InPhase opts S
  publishing : ∀ e, S.publishing = some e → S.log.isComplete = false ∧ (e.isStop → opts.isVisible ⟨0, e⟩)
  visible : ∀ e ∈ S.log.events, e.isTerminal → opts.isVisible e
  final : ∀ e ∈ S.log.events, e.isTerminal → S.log.events.getLast? = some e

theorem start_tracks (opts : StreamOptions) (cursor : Cursor) : Tracks opts (EventStreamRun.start cursor) := by
  refine ⟨fun _ => rfl, ?_, ?_, fun e he => ?_, List.forall_mem_nil _, List.forall_mem_nil _⟩
  · rintro p hp
    cases cursor with
    | now => cases hp
    | after n =>
      cases hp
      exact ⟨p, rfl, ⟨le_rfl, Or.inl rfl⟩, rfl⟩
  · intro hnow
    cases cursor with
    | now => rfl
    | after n => cases hnow
  · cases he

/-- The parts of the state that say what was read. -/
theorem reads_congr {p : Int} {es : List StoredEvent} (h : Reads opts S p es) (hlog : S'.log = S.log) (hbase : S'.base = S.base) :
    Reads opts S' p es := by
  obtain ⟨b, hb, hreached, hes⟩ := h.base
  refine ⟨b, hbase.trans hb, ?_, ?_⟩
  · rw [Reached, hlog]
    exact hreached
  · rw [readUpTo, hlog]
    exact hes

/-- An event that is appended comes after what was read. -/
theorem reads_append {p : Int} {es : List StoredEvent} (h : Reads opts S p es) (e : Event) (status : Status)
    (publishing : Option Event) :
    Reads opts { S with log := S.log.append e, status := status, publishing := publishing } p es := by
  obtain ⟨b, hb, ⟨hle, hp⟩, rfl⟩ := h.base
  refine ⟨b, hb, ⟨hle, hp.imp id fun hlt => ?_⟩, ?_⟩
  · rw [EventLog.append, List.length_append]
    exact lt_trans hlt (Int.ofNat_lt.2 (Nat.lt_succ_self _))
  · refine (Lib.window_append_of_lt (hp.imp id fun hlt => ?_)).symm
    rw [StoredEvent.number, EventLog.nextSequence_eq]
    exact hlt

/-! ## What can happen -/

/-- What an action does to a stream. -/
inductive Moves (opts : StreamOptions) (S : EventStreamRun) : StreamAction → EventStreamRun → Prop
  | publishes {e : Event} (status : Status) (hopen : S.log.isComplete = false) :
      Moves opts S (.publish e) { S with status := status, publishing := some e }
  | appends {e : Event} (hnone : S.publishing = none) (hopen : S.log.isComplete = false) :
      Moves opts S (.publish e) { S with log := S.log.append e }
  | stores {e : Event} (he : S.publishing = some e) : Moves opts S .store { S with log := S.log.append e, publishing := none }
  | reads (hphase : S.phase = .connecting) : Moves opts S .readRow { S with phase := .resolving S.status }
  | resolves {found : List StoredEvent} {status : Status} (hphase : S.phase = .resolving status) :
      Moves opts S (.readCursor found) { S with phase := .resolved status (S.resolvedCursor found) }
  | misses {found : List StoredEvent} {status : Status} {a : Int} (hphase : S.phase = .resolved status a) :
      Moves opts S (.readRemaining found) { S with phase := .checking status a }
  | finds {found : List StoredEvent} {status : Status} {a : Int} (hphase : S.phase = .resolved status a) :
      Moves opts S (.readRemaining found) (S.opened a)
  | completes {found : List StoredEvent} {status : Status} {a : Int} (hphase : S.phase = .checking status a)
      (hdone : status.isTerminal || found.getLast?.any StoredEvent.isTerminal) :
      Moves opts S (.readAll found) { S with phase := .done, base := S.base <|> some a }
  | waits {found : List StoredEvent} {status : Status} {a : Int} (hphase : S.phase = .checking status a) :
      Moves opts S (.readAll found) (S.opened a)
  | sends {e : StoredEvent} {position : Int} {inFlight : List StoredEvent} (hphase : S.phase = .streaming position inFlight false) :
      Moves opts S (.send e)
        { S with phase := .streaming e.number (inFlight ++ if opts.isVisible e then [e] else []) e.isTerminal }
  | receives {e : StoredEvent} {position : Int} {rest : List StoredEvent} {closed : Bool}
      (hphase : S.phase = .streaming position (e :: rest) closed) : Moves opts S .receive
        { S with phase := .streaming position rest closed, delivered := S.delivered ++ [e], cursor := .after e.number }
  | closes {position : Int} {closed : Bool} (hphase : S.phase = .streaming position [] closed) :
      Moves opts S .close { S with phase := .done }
  | fails : Moves opts S .drop { S with phase := .failed }
  | reconnects : Moves opts S .drop { S with phase := .connecting, attempts := S.attempts + 1 }

theorem step_moves {a : StreamAction} (hstep : S.step opts a = some S') : Moves opts S a S' := by
  cases a with
  | publish e =>
    rw [EventStreamRun.step] at hstep
    split at hstep
    · cases hstep
    · case isFalse hguard =>
      rw [Bool.or_eq_true, not_or, Bool.not_eq_true, Bool.not_eq_true, Option.isSome_eq_false_iff,
        Option.isNone_iff_eq_none] at hguard
      split at hstep <;> cases hstep
      · exact .publishes _ hguard.2
      · exact .appends hguard.1 hguard.2
  | store =>
    obtain ⟨e, he, rfl⟩ := Option.map_eq_some_iff.1 hstep
    exact .stores he
  | drop =>
    rw [EventStreamRun.step] at hstep
    split at hstep
    · cases hstep
    · cases hstep
    · split at hstep <;> cases hstep
      · exact .fails
      · exact .reconnects
  | readRow | receive =>
    rw [EventStreamRun.step] at hstep
    split at hstep <;> cases hstep
    constructor
    assumption
  | readCursor _ | send _ | close =>
    rw [EventStreamRun.step] at hstep
    split at hstep
    · split at hstep <;> cases hstep
      constructor
      assumption
    · cases hstep
  | readRemaining found =>
    rw [EventStreamRun.step] at hstep
    split at hstep
    · case h_1 hphase =>
      split at hstep
      · cases hstep
      · split at hstep <;> cases hstep
        · exact .misses hphase
        · exact .finds hphase
    · cases hstep
  | readAll found =>
    rw [EventStreamRun.step] at hstep
    split at hstep
    · case h_1 hphase =>
      split at hstep
      · cases hstep
      · split at hstep <;> cases hstep
        · exact .completes hphase ‹_›
        · exact .waits hphase
    · cases hstep

/-! ## The run -/

theorem resolved_append {a : Int} (h : Resolved S a) (e : Event) {phase : StreamPhase} :
    Resolved { S with log := S.log.append e, publishing := none, phase := phase } a := by
  refine ⟨fun hnow => ⟨(h.now hnow).1, ?_⟩, h.after⟩
  rw [EventLog.append, List.length_append]
  exact lt_trans (h.now hnow).2 (Int.ofNat_lt.2 (Nat.lt_succ_self _))

theorem inPhase_append (h : InPhase opts S) (hopen : S.log.isComplete = false) (e : Event) :
    InPhase opts { S with log := S.log.append e, publishing := none } := by
  unfold InPhase at h ⊢
  dsimp only
  cases hphase : S.phase with
  | connecting | resolving _ | failed =>
    rw [hphase] at h
    exact h
  | resolved _ a =>
    rw [hphase] at h
    exact resolved_append h e
  | checking status a =>
    rw [hphase] at h
    exact ⟨resolved_append h.1 e, fun hterm => absurd (h.2 hterm) (by simp [hopen])⟩
  | streaming position inFlight closed =>
    rw [hphase] at h
    obtain ⟨hreads, hclosed⟩ := h
    exact ⟨reads_congr (reads_append hreads e S.status none) rfl rfl, fun hc => absurd (hclosed hc).1 (by simp [hopen])⟩
  | done =>
    rw [hphase] at h
    exact absurd h.1 (by simp [hopen])

/-- The run appends an event. -/
theorem tracks_append (h : Tracks opts S) (hopen : S.log.isComplete = false) {e : Event}
    (he : e.isStop → opts.isVisible ⟨0, e⟩) : Tracks opts { S with log := S.log.append e, publishing := none } where
  nowhere := h.nowhere
  somewhere p hp := reads_append (h.somewhere p hp) e S.status none
  phase := inPhase_append h.phase hopen e
  publishing _ he := by cases he
  visible x hx hterm := by
    rcases List.mem_append.1 hx with hx | hx
    · exact h.visible x hx hterm
    · cases List.mem_singleton.1 hx
      exact he hterm
  final x hx hterm := by
    rcases List.mem_append.1 hx with hx | hx
    · have hcomplete : S.log.isComplete = true := by
        rw [EventLog.isComplete, h.final x hx hterm]
        exact hterm
      rw [hopen] at hcomplete
      cases hcomplete
    · rw [List.mem_singleton.1 hx]
      exact List.getLast?_concat

theorem inPhase_publish (h : InPhase opts S) (status : Status) (publishing : Option Event) :
    InPhase opts { S with status := status, publishing := publishing } := by
  unfold InPhase at h ⊢
  dsimp only
  cases hphase : S.phase with
  | connecting | resolving _ | done | failed =>
    rw [hphase] at h
    exact h
  | resolved _ _ =>
    rw [hphase] at h
    exact ⟨h.now, h.after⟩
  | checking _ _ =>
    rw [hphase] at h
    exact ⟨⟨h.1.now, h.1.after⟩, h.2⟩
  | streaming position inFlight closed =>
    rw [hphase] at h
    exact ⟨reads_congr h.1 rfl rfl, h.2⟩

/-- The run publishes an event. -/
theorem tracks_publish (h : Tracks opts S) (hopen : S.log.isComplete = false) {e : Event} (he : e.isStop → opts.isVisible ⟨0, e⟩)
    (status : Status) : Tracks opts { S with status := status, publishing := some e } := by
  refine ⟨h.nowhere, fun p hp => reads_congr (h.somewhere p hp) rfl rfl, inPhase_publish h.phase _ _, ?_, h.visible, h.final⟩
  rintro x hx
  cases hx
  exact ⟨hopen, he⟩

/-! ## The server and the client -/

/-- A response that streams what comes after the cursor. -/
theorem tracks_opened (h : Tracks opts S) {a : Int} (ha : Resolved S a) : Tracks opts (S.opened a) := by
  have hreads : Reads opts (S.opened a) a S.delivered := by
    cases hcursor : S.cursor with
    | now =>
      refine ⟨a, ?_, ⟨le_rfl, Or.inl rfl⟩, ?_⟩
      · rw [EventStreamRun.opened, (ha.now hcursor).1]
        rfl
      · rw [h.nowhere hcursor]
        exact (Lib.window_self _).symm
    | after p =>
      rw [ha.after p hcursor]
      obtain ⟨b, hb, hreached, hes⟩ := (h.somewhere p hcursor).base
      refine ⟨b, ?_, hreached, hes⟩
      rw [EventStreamRun.opened, hb]
      rfl
  refine ⟨h.nowhere, fun p hp => ?_, ?_, h.publishing, h.visible, h.final⟩
  · rw [← ha.after p hp]
    exact hreads
  · refine ⟨?_, nofun⟩
    rw [List.append_nil]
    exact hreads

/-- A change of phase that the phase allows. -/
theorem tracks_phase (h : Tracks opts S) (phase : StreamPhase) (attempts : Nat)
    (hphase : InPhase opts { S with phase := phase, attempts := attempts }) :
    Tracks opts { S with phase := phase, attempts := attempts } :=
  ⟨h.nowhere, fun p hp => reads_congr (h.somewhere p hp) rfl rfl, hphase, h.publishing, h.visible, h.final⟩

/-- The server answers 204: the terminal event is stored, and comes at or before the cursor. -/
theorem complete_of_readAll (h : Tracks opts S) {found : List StoredEvent} (hspares : S.sparesStream opts (.readAll found))
    {status : Status} {a : Int} (hphase : S.phase = .checking status a)
    (hdone : status.isTerminal || found.getLast?.any StoredEvent.isTerminal) :
    S.log.isComplete ∧ ∀ e ∈ S.log.events, e.number ≤ a := by
  have hin := h.phase
  unfold InPhase at hin
  rw [hphase] at hin
  simp only [EventStreamRun.sparesStream, hphase, Bool.and_eq_true, decide_eq_true_eq] at hspares
  rw [hspares.1] at hdone
  refine ⟨?_, EventLog.after_eq_nil _ hspares.2⟩
  rcases Bool.or_eq_true _ _ ▸ hdone with hterm | hcomplete
  · exact hin.2 hterm
  · exact hcomplete

/-- So the client, which has delivered all that comes up to the cursor, has delivered all there is. -/
theorem tracks_complete (h : Tracks opts S) {a : Int} (ha : Resolved S a) (hcomplete : S.log.isComplete)
    (hle : ∀ e ∈ S.log.events, e.number ≤ a) : Tracks opts { S with phase := .done, base := S.base <|> some a } := by
  have hopened := tracks_opened h ha
  refine ⟨h.nowhere, fun p hp => reads_congr (hopened.somewhere p hp) rfl rfl, ⟨hcomplete, ?_⟩, h.publishing, h.visible, h.final⟩
  obtain ⟨b, hb, -, hes⟩ := hopened.phase.1.base
  rw [EventStreamRun.opened, List.append_nil] at hes
  exact ⟨b, hb, hes.trans (Lib.window_eq_above hle)⟩

/-- The server sends the next event: what was sent is what was read up to it. -/
theorem tracks_send (h : Tracks opts S) {e : StoredEvent} {position : Int} {inFlight : List StoredEvent}
    (hreads : Reads opts S position (S.delivered ++ inFlight)) (he : S.nextEvent position = some e) :
    Tracks opts { S with phase := .streaming e.number (inFlight ++ if opts.isVisible e then [e] else []) e.isTerminal } := by
  have hmem := List.mem_of_find?_eq_some he
  have hlt := List.find?_some he
  rw [decide_eq_true_eq] at hlt
  obtain ⟨b, hb, ⟨hle, -⟩, hes⟩ := hreads.base
  refine tracks_phase h _ S.attempts ⟨⟨b, hb, ⟨hle.trans hlt.le, Or.inr (S.log.number_lt hmem)⟩, ?_⟩, fun hterm => ?_⟩
  · rw [← List.append_assoc, hes]
    exact (Lib.window_find S.log.sorted hle he).symm
  · have hlast := h.final e hmem hterm
    refine ⟨?_, Lib.le_of_getLast? S.log.sorted hlast⟩
    change S.log.isComplete = true
    rw [EventLog.isComplete, hlast]
    exact hterm

/-- The client receives an event: its position is the number of the event. -/
theorem tracks_receive (h : Tracks opts S) {e : StoredEvent} {position : Int} {rest : List StoredEvent} {closed : Bool}
    (hreads : Reads opts S position (S.delivered ++ e :: rest))
    (hclosed : closed → S.log.isComplete ∧ ∀ e ∈ S.log.events, e.number ≤ position) : Tracks opts
      { S with phase := .streaming position rest closed, delivered := S.delivered ++ [e], cursor := .after e.number } := by
  obtain ⟨b, hb, hreached, hes⟩ := hreads
  have hmem : e ∈ readUpTo opts S b position := hes ▸ List.mem_append_right _ List.mem_cons_self
  obtain ⟨hlog, ⟨-, hlt⟩, -⟩ := Lib.mem_window.1 hmem
  refine ⟨nofun, fun p hp => ?_, ⟨⟨b, hb, hreached, ?_⟩, hclosed⟩, h.publishing, h.visible, h.final⟩
  · cases hp
    exact ⟨b, hb, ⟨hlt.le, Or.inr (S.log.number_lt hlog)⟩, (Lib.window_split S.log.sorted hes.symm).symm⟩
  · rw [List.append_assoc]
    exact hes

/-- Every action that spares the stream. -/
theorem step_tracks (h : Tracks opts S) {a : StreamAction} (hspares : S.sparesStream opts a)
    (hstep : S.step opts a = some S') : Tracks opts S' := by
  have hin := h.phase
  unfold InPhase at hin
  cases step_moves hstep with
  | @publishes e _ hopen => exact tracks_publish h hopen (by simpa [EventStreamRun.sparesStream, imp_iff_not_or] using hspares) _
  | @appends e hnone hopen =>
    have happended := tracks_append h hopen (by simpa [EventStreamRun.sparesStream, imp_iff_not_or] using hspares)
    rw [← hnone] at happended
    exact happended
  | @stores e he =>
    obtain ⟨hopen, hvisible⟩ := h.publishing e he
    exact tracks_append h hopen hvisible
  | reads hphase =>
    rw [hphase] at hin
    exact tracks_phase h _ S.attempts hin
  | @resolves found status hphase =>
    rw [hphase] at hin
    refine tracks_phase h _ S.attempts ⟨fun hnow => ⟨hin hnow, ?_⟩, fun p hp => ?_⟩
    · have hcursor : S.cursor = .now := hnow
      rw [EventStreamRun.resolvedCursor, hcursor, of_decide_eq_true hspares]
      exact S.log.last_lt
    · have hcursor : S.cursor = .after p := hp
      rw [EventStreamRun.resolvedCursor, hcursor]
  | misses hphase =>
    rw [hphase] at hin
    refine tracks_phase h _ S.attempts ⟨⟨hin.now, hin.after⟩, fun hterm => ?_⟩
    simp only [EventStreamRun.sparesStream, hphase, hterm, Bool.not_true, Bool.false_or, Bool.and_eq_true] at hspares
    exact hspares.2
  | finds hphase =>
    rw [hphase] at hin
    exact tracks_opened h hin
  | completes hphase hdone =>
    obtain ⟨hcomplete, hle⟩ := complete_of_readAll h hspares hphase hdone
    rw [hphase] at hin
    exact tracks_complete h hin.1 hcomplete hle
  | waits hphase =>
    rw [hphase] at hin
    exact tracks_opened h hin.1
  | sends hphase =>
    simp only [EventStreamRun.sparesStream, hphase, decide_eq_true_eq] at hspares
    rw [hphase] at hin
    exact tracks_send h hin.1 hspares
  | receives hphase =>
    rw [hphase] at hin
    exact tracks_receive h hin.1 hin.2
  | @closes position closed hphase =>
    -- the client has received the whole response, which ends with the terminal event
    simp only [EventStreamRun.sparesStream, hphase] at hspares
    rw [hphase] at hin
    obtain ⟨⟨b, hb, -, hes⟩, hclosed⟩ := hin
    obtain ⟨hcomplete, hle⟩ := hclosed hspares
    rw [List.append_nil] at hes
    exact tracks_phase h _ S.attempts ⟨hcomplete, b, hb, hes.trans (Lib.window_eq_above hle)⟩
  | fails => exact tracks_phase h _ S.attempts trivial
  | reconnects =>
    refine tracks_phase h _ _ fun hcursor => ?_
    simpa [EventStreamRun.sparesStream, show S.cursor = .now from hcursor] using hspares

/-! ## Where a stream starts -/

/-- A stream keeps the number that it starts after. A stream that gets one from a connection at the end of the log gets one below
those of the events to come. -/
theorem base_of_step (h : Tracks opts S) {a : StreamAction} (hstep : S.step opts a = some S') :
    (∀ b, S.base = some b → S'.base = some b) ∧
      (S.base = none → ∀ b, S'.base = some b → b < S'.log.events.length) := by
  have hsame : S'.base = S.base → (∀ b, S.base = some b → S'.base = some b) ∧
      (S.base = none → ∀ b, S'.base = some b → b < S'.log.events.length) := by
    intro heq
    refine ⟨fun b hb => heq.trans hb, fun hnone b hb => ?_⟩
    rw [heq, hnone] at hb
    cases hb
  have hopens : ∀ {c}, Resolved S c → S'.base = (S.base <|> some c) → S'.log = S.log →
      (∀ b, S.base = some b → S'.base = some b) ∧ (S.base = none → ∀ b, S'.base = some b → b < S'.log.events.length) := by
    intro c hc heq hlog
    refine ⟨fun b hb => ?_, fun hnone b hb => ?_⟩
    · rw [heq, hb]
      rfl
    · rw [heq, hnone] at hb
      cases hb
      rw [hlog]
      cases hcursor : S.cursor with
      | now => exact (hc.now hcursor).2
      | after p =>
        obtain ⟨b, hb, -⟩ := (h.somewhere p hcursor).base
        rw [hnone] at hb
        cases hb
  have hin := h.phase
  unfold InPhase at hin
  cases step_moves hstep with
  | finds hphase =>
    rw [hphase] at hin
    exact hopens hin rfl rfl
  | completes hphase _ | waits hphase =>
    rw [hphase] at hin
    exact hopens hin.1 rfl rfl
  | _ => exact hsame rfl

end EventStreamAux

open EventStreamAux

namespace Reconnecting

/-- An event of a run. -/
def progress : Event := ⟨⟨"Progress", "app.Progress", ["workflows.events.Event"]⟩, []⟩

/-- The terminal event. -/
def stop : Event := ⟨.stopEvent, []⟩

/-- The reads of a request, when the log has some events and some of them come after the cursor. -/
def request (log remaining : List StoredEvent) : List StreamAction := [.readRow, .readCursor log, .readRemaining remaining]

/-- The numbers of the delivered events. -/
def numbers (S : EventStreamRun) : List Nat := S.delivered.map StoredEvent.sequence

/-- A run that waits for its first event while the client is connected to it, which loses its connection after the event and
before it gets the terminal one. -/
def reconnected : List StreamAction :=
  request [] [] ++ [.readAll [], .publish progress, .send ⟨0, progress⟩, .receive, .publish stop, .store, .send ⟨1, stop⟩,
    .drop] ++ request [⟨0, progress⟩, ⟨1, stop⟩] [⟨1, stop⟩] ++ [.send ⟨1, stop⟩, .receive, .close]

/-- A stream at the end of the log loses its connection, an event is appended, and the stream is opened again. -/
def missed : List StreamAction :=
  request [] [] ++ [.readAll [], .drop, .publish progress] ++ request [⟨0, progress⟩] [] ++
    [.readAll [⟨0, progress⟩], .publish stop, .store, .send ⟨1, stop⟩, .receive, .close]

end Reconnecting

end LlamaAgents
