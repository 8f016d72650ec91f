import LlamaAgents.Lemmas.AgentWrites
import LlamaAgents.Server.AgentStream

/-!
# A subscription to the AgentData store delivers every event once

Whenever it registers, and however the writes take their course, a subscriber yields the events after its cursor in order, without a
gap, and returns with the terminal event, as long as its one search finds all events broadcast before it registered, nothing
behind a gap, and no more than a page.

It has yielded the events after its cursor up to its position. What it has not yielded yet stands in what it has found in the
service, or in its queue. It ends with the terminal event.
-/

namespace LlamaAgents

namespace AgentStreamAux

variable {S S' : AgentStream} {queue : List (Option (Numbered Event))}

/-- The events after a number up to a position. -/
def readUpTo (l : List (Numbered Event)) (b p : Int) : List (Numbered Event) :=
  Lib.window Numbered.number (fun _ => true) b p l

theorem mem_readUpTo {l : List (Numbered Event)} {b p : Int} {x : Numbered Event} :
    x ∈ readUpTo l b p ↔ x ∈ l ∧ b < x.number ∧ x.number ≤ p := by
  rw [readUpTo, Lib.mem_window]
  exact ⟨fun h => ⟨h.1, h.2.1.2, h.2.2⟩, fun h => ⟨h.1, ⟨rfl, h.2.1⟩, h.2.2⟩⟩

/-- A queue that holds the last events broadcast, and the end of the run behind them, if it is over. A queue that is not
registered any more belongs to a run that ends. -/
structure Queued (published : List (Numbered Event)) (closing : Closing) (listed : Bool)
    (queue : List (Option (Numbered Event))) (remaining : List (Numbered Event)) : Prop where
  holds : queue = remaining.map some ∨ closing = .done ∧ queue = remaining.map some ++ [none]
  suffix : remaining <:+ published
  listed : listed = false → closing ≠ .no

/-- What is known in a phase. -/
def InPhase (S : AgentStream) : Prop :=
  match S.phase with
  | .idle => S.position = S.after ∧ S.queue = [] ∧ S.listed = false
  | .regrouping _ => S.position = S.after ∧ S.registered ≤ S.published.length ∧
      Queued S.published S.closing S.listed S.queue (S.published.drop S.registered)
  | .backfilling rest => S.yielded ++ rest <+: S.due ∧ (∀ x ∈ S.missed, x ∈ S.yielded ++ rest) ∧
      S.registered ≤ S.published.length ∧ Queued S.published S.closing S.listed S.queue (S.published.drop S.registered)
  | .live => ∃ remaining, Queued S.published S.closing S.listed S.queue remaining ∧
      ∀ x ∈ S.published, S.position < x.number → x ∈ remaining
  | .returned => ∃ x ∈ S.yielded, x.isTerminal
  | .raised => True

/-- The subscriber keeps track: events stand in order, a terminal one last; new ones get higher numbers; a run that ends has a
terminal event after the cursor; the subscriber has yielded what there is up to its position, and no terminal event unless it
has returned. -/
structure Tracks (S : AgentStream) : Prop where
  sorted : S.published.Pairwise fun x y => x.number < y.number
  ended : ∀ x ∈ S.published, x.isTerminal = true → S.published.getLast? = some x
  fresh : S.published.any Numbered.isTerminal = true ∨ ∀ x ∈ S.published, x.sequence < S.writes.nextSequence
  closing : S.closing ≠ .no → ∃ x ∈ S.published, x.isTerminal = true ∧ S.after < x.number
  position : S.position = S.after ∨ S.after < S.position ∧ ∃ x ∈ S.published, S.position = x.number
  read : S.yielded = readUpTo S.published S.after S.position
  unended : S.phase ≠ .returned → ∀ x ∈ S.yielded, x.isTerminal = false
  inPhase : InPhase S

/-! ## Numbers -/

theorem lt_afterMaxSequence {α : Type} {W : WriteQueue α} {x : Numbered α} (hx : x ∈ W.items) :
    x.sequence < W.afterMaxSequence := by
  have hmono : ∀ (l : List (Numbered α)) (n : Nat), n ≤ l.foldl (fun n x => max n (x.sequence + 1)) n := by
    intro l
    induction l with
    | nil => exact fun n => Nat.le_refl n
    | cons y l ih => exact fun n => Nat.le_trans (Nat.le_max_left _ _) (ih _)
  obtain ⟨l₁, l₂, hsplit⟩ := List.append_of_mem hx
  rw [WriteQueue.afterMaxSequence, hsplit, List.foldl_append, List.foldl_cons]
  exact Nat.lt_of_lt_of_le (Nat.lt_of_succ_le (Nat.le_max_right _ _)) (hmono l₂ _)

theorem tracks_start (E : StoredEvents) (after : Int) : Tracks (.start E after) where
  sorted := E.sorted
  ended := E.ended
  fresh := Or.inr fun _ hx => lt_afterMaxSequence hx
  closing := fun h => absurd rfl h
  position := Or.inl rfl
  read := (Lib.window_self _).symm
  unended := fun _ => List.forall_mem_nil _
  inPhase := ⟨rfl, rfl, rfl⟩

theorem nextSequence_arrive {W W' : WriteQueue Event} {i : Nat} (h : W.arrive i = some W') :
    W.nextSequence ≤ W'.nextSequence := by
  obtain ⟨t, -, rfl⟩ := Option.map_eq_some_iff.1 h
  rw [WriteQueue.nextSequence, WriteQueue.nextSequence]
  cases W.counter with
  | some n => exact Nat.le_refl n
  | none =>
    change W.afterMaxSequence ≤ (W.items ++ [t.item]).foldl (fun n x => max n (x.sequence + 1)) 0
    rw [List.foldl_append]
    exact Nat.le_max_left _ _

/-- Writes take their course without the subscriber noticing. -/
theorem Tracks.withWrites (h : Tracks S) {W : WriteQueue Event} (hnext : S.writes.nextSequence ≤ W.nextSequence) :
    Tracks { S with writes := W } where
  sorted := h.sorted
  ended := h.ended
  fresh := h.fresh.imp_right fun hlt x hx => Nat.lt_of_lt_of_le (hlt x hx) hnext
  closing := h.closing
  position := h.position
  read := h.read
  unended := h.unended
  inPhase := h.inPhase

/-! ## The end of the run -/

/-- A run that ends has broadcast its terminal event. -/
theorem Tracks.any_terminal (h : Tracks S) (hclosing : S.closing ≠ .no) : S.published.any Numbered.isTerminal = true := by
  obtain ⟨x, hx, hterm, -⟩ := h.closing hclosing
  exact List.any_eq_true.2 ⟨x, hx, hterm⟩

theorem Queued.proceed {published remaining : List (Numbered Event)} {closing closing' : Closing} {listed : Bool}
    (h : Queued published closing listed queue remaining) (hne : closing ≠ .done)
    (hclosing : closing' ≠ .no) : Queued published closing' listed queue remaining where
  holds := h.holds.elim Or.inl fun hdone => absurd hdone.1 hne
  suffix := h.suffix
  listed := fun _ => hclosing

/-- The queues are ended. -/
theorem Queued.end {published remaining : List (Numbered Event)} {closing : Closing} {listed : Bool}
    (h : Queued published closing listed queue remaining) (hne : closing ≠ .done) :
    Queued published .done false (if listed then queue ++ [none] else queue) remaining where
  holds := by
    have hqueue := h.holds.resolve_right fun hdone => hne hdone.1
    cases listed with
    | true => exact Or.inr ⟨rfl, by rw [if_pos rfl, hqueue]⟩
    | false => exact Or.inl hqueue
  suffix := h.suffix
  listed := fun _ => by decide

/-- What is known in a phase stays known while the end of the run goes on. -/
theorem InPhase.goesOn (h : InPhase S) {closing : Closing} {listed : Bool}
    {W : WriteQueue Event} (hidle : S.queue = [] → S.listed = false → queue = [] ∧ listed = false)
    (hqueued : ∀ remaining, Queued S.published S.closing S.listed S.queue remaining →
      Queued S.published closing listed queue remaining) :
    InPhase { S with closing := closing, listed := listed, queue := queue, writes := W } := by
  unfold InPhase at h ⊢
  cases hp : S.phase with
  | idle =>
    simp only [hp] at h ⊢
    exact ⟨h.1, hidle h.2.1 h.2.2⟩
  | regrouping tasks =>
    simp only [hp] at h ⊢
    exact ⟨h.1, h.2.1, hqueued _ h.2.2⟩
  | backfilling rest =>
    simp only [hp] at h ⊢
    exact ⟨h.1, h.2.1, h.2.2.1, hqueued _ h.2.2.2⟩
  | live =>
    simp only [hp] at h ⊢
    obtain ⟨remaining, hremaining, hcover⟩ := h
    exact ⟨remaining, hqueued _ hremaining, hcover⟩
  | returned =>
    simp only [hp] at h ⊢
    exact h
  | raised =>
    dsimp only

/-- The end of the run goes on, without a signal yet. -/
theorem Tracks.proceed (h : Tracks S) {closing : Closing} (hold : S.closing ≠ .no) (hne : S.closing ≠ .done)
    (hclosing : closing ≠ .no) {W : WriteQueue Event} : Tracks { S with closing := closing, writes := W } where
  sorted := h.sorted
  ended := h.ended
  fresh := Or.inl (h.any_terminal hold)
  closing := fun _ => h.closing hold
  position := h.position
  read := h.read
  unended := h.unended
  inPhase := h.inPhase.goesOn (fun hqueue hlisted => ⟨hqueue, hlisted⟩) fun _ hq => hq.proceed hne hclosing

/-- The run ends. -/
theorem Tracks.end (h : Tracks S) (hold : S.closing ≠ .no) (hne : S.closing ≠ .done) {W : WriteQueue Event} :
    Tracks { S with
      closing := .done
      queue := if S.listed then S.queue ++ [none] else S.queue
      listed := false
      writes := W } where
  sorted := h.sorted
  ended := h.ended
  fresh := Or.inl (h.any_terminal hold)
  closing := fun _ => h.closing hold
  position := h.position
  read := h.read
  unended := h.unended
  inPhase := by
    refine h.inPhase.goesOn (fun hqueue hlisted => ⟨?_, rfl⟩) fun _ hq => hq.end hne
    rw [hlisted, hqueue]
    rfl

/-! ## A new event -/

/-- A queue gets a new event. -/
theorem Queued.publish {published remaining : List (Numbered Event)} {closing : Closing} {listed : Bool}
    (h : Queued published closing listed queue remaining) (hopen : closing = .no) (x : Numbered Event) {closing' : Closing} :
    Queued (published ++ [x]) closing' listed (if listed then queue ++ [some x] else queue) (remaining ++ [x]) where
  holds := by
    have hqueue := h.holds.resolve_right fun hdone => by rw [hopen] at hdone; cases hdone.1
    cases listed with
    | true => exact Or.inl (by rw [if_pos rfl, hqueue, List.map_append, List.map_singleton])
    | false => exact absurd hopen (h.listed rfl)
  suffix := by
    obtain ⟨before, hbefore⟩ := h.suffix
    exact ⟨before, by rw [← hbefore, List.append_assoc]⟩
  listed := fun hlisted => absurd hopen (h.listed hlisted)

theorem Tracks.publish (h : Tracks S) {e : Event} (hopen : S.published.any Numbered.isTerminal = false)
    (hafter : e.isStop = true → S.after < S.writes.nextSequence) (x : Numbered Event) (hx : x = ⟨S.writes.nextSequence, e⟩) :
    Tracks { S with
      writes := S.writes.append e
      published := S.published ++ [x]
      queue := if S.listed then S.queue ++ [some x] else S.queue
      closing := if e.isStop then .ticks else S.closing } := by
  have hbelow : ∀ y ∈ S.published, y.sequence < x.sequence := by
    rw [hx]
    exact h.fresh.resolve_left (ne_true_of_eq_false hopen)
  have hlow : S.position = S.after ∨ S.position < x.number := by
    rcases h.position with hpos | ⟨-, y, hy, hpos⟩
    · exact Or.inl hpos
    · rw [hpos]
      exact Or.inr (Int.ofNat_lt.2 (hbelow y hy))
  have hno : S.closing = .no := by
    by_contra hne
    exact ne_true_of_eq_false hopen (h.any_terminal hne)
  have hnone : ∀ y ∈ S.published, y.isTerminal = false := fun y hy =>
    Bool.eq_false_iff.2 fun hterm => ne_true_of_eq_false hopen (List.any_eq_true.2 ⟨y, hy, hterm⟩)
  refine ⟨?_, ?_, ?_, ?_, ?_, ?_, h.unended, ?_⟩
  · refine List.pairwise_append.2 ⟨h.sorted, List.pairwise_singleton _ _, fun y hy z hz => ?_⟩
    rw [List.mem_singleton.1 hz]
    exact Int.ofNat_lt.2 (hbelow y hy)
  · intro y hy hterm
    rcases List.mem_append.1 hy with hy | hy
    · exact absurd hterm (ne_true_of_eq_false (hnone y hy))
    · rw [List.getLast?_concat, List.mem_singleton.1 hy]
  · refine Or.inr fun y hy => ?_
    change y.sequence < S.writes.nextSequence + 1
    rcases List.mem_append.1 hy with hy | hy
    · exact Nat.lt_succ_of_lt (h.fresh.resolve_left (ne_true_of_eq_false hopen) y hy)
    · rw [List.mem_singleton.1 hy, hx]
      exact Nat.lt_succ_self _
  · intro hclosing
    cases hstop : e.isStop with
    | true =>
      refine ⟨x, List.mem_append_right _ (List.mem_singleton_self x), ?_, ?_⟩
      · rw [hx]
        exact hstop
      · rw [hx]
        exact hafter hstop
    | false =>
      simp only [hstop, Bool.false_eq_true, if_false] at hclosing
      exact absurd hno hclosing
  · exact h.position.imp_right fun ⟨hlt, y, hy, hpos⟩ => ⟨hlt, y, List.mem_append_left _ hy, hpos⟩
  · rw [h.read, readUpTo, readUpTo, Lib.window_append_of_lt hlow]
  · have hphase := h.inPhase
    have hdrop : ∀ n, n ≤ S.published.length → (S.published ++ [x]).drop n = S.published.drop n ++ [x] := fun n hn =>
      List.drop_append_of_le_length hn
    unfold InPhase at hphase ⊢
    cases hp : S.phase with
    | idle =>
      simp only [hp] at hphase ⊢
      refine ⟨hphase.1, ?_, hphase.2.2⟩
      rw [hphase.2.2, hphase.2.1]
      rfl
    | regrouping tasks =>
      simp only [hp] at hphase ⊢
      obtain ⟨hpos, hreg, hqueued⟩ := hphase
      refine ⟨hpos, hreg.trans (List.length_append ▸ Nat.le_add_right _ _), ?_⟩
      rw [hdrop _ hreg]
      exact hqueued.publish hno x
    | backfilling rest =>
      simp only [hp] at hphase ⊢
      obtain ⟨hpre, hmissed, hreg, hqueued⟩ := hphase
      refine ⟨?_, ?_, hreg.trans (List.length_append ▸ Nat.le_add_right _ _), ?_⟩
      · refine hpre.trans ?_
        rw [AgentStream.due, AgentStream.due, Lib.above, Lib.above, List.filter_append]
        exact List.prefix_append _ _
      · intro y hy
        refine hmissed y ?_
        rwa [AgentStream.missed, List.take_append_of_le_length hreg] at hy
      · rw [hdrop _ hreg]
        exact hqueued.publish hno x
    | live =>
      simp only [hp] at hphase ⊢
      obtain ⟨remaining, hqueued, hcover⟩ := hphase
      refine ⟨remaining ++ [x], hqueued.publish hno x, fun y hy hpos => ?_⟩
      rcases List.mem_append.1 hy with hy | hy
      · exact List.mem_append_left _ (hcover y hy hpos)
      · exact List.mem_append_right _ hy
    | returned =>
      simp only [hp] at hphase ⊢
      exact hphase
    | raised =>
      dsimp only

/-! ## The subscriber -/

theorem Tracks.subscribe (h : Tracks S) (hphase : S.phase = .idle) : Tracks { S with
      phase := .regrouping S.writes.pending
      writes := { S.writes with pending := [] }
      listed := true
      registered := S.published.length } := by
  have hidle := h.inPhase
  simp only [InPhase, hphase] at hidle
  refine ⟨h.sorted, h.ended, h.fresh, h.closing, h.position, h.read, ?_, ?_⟩
  · exact fun _ => h.unended (by rw [hphase]; decide)
  · refine ⟨hidle.1, Nat.le_refl _, ?_⟩
    change Queued S.published S.closing true S.queue (S.published.drop S.published.length)
    rw [List.drop_length]
    exact ⟨Or.inl hidle.2.1, List.nil_suffix, fun h => nomatch h⟩

theorem Tracks.fail (h : Tracks S) (hphase : S.phase ≠ .returned) : Tracks { S with phase := .raised, listed := false } where
  sorted := h.sorted
  ended := h.ended
  fresh := h.fresh
  closing := h.closing
  position := h.position
  read := h.read
  unended := fun _ => h.unended hphase
  inPhase := trivial

/-- What the subscriber has missed is the first part of what is due. -/
theorem missed_prefix : S.missed <+: S.due := by
  rw [AgentStream.missed, AgentStream.due, Lib.above, Lib.above]
  exact (List.take_prefix _ _).filter _

theorem Tracks.search (h : Tracks S) {tasks : List Nat} (hphase : S.phase = .regrouping tasks)
    (hsearch : S.delivers .search) : Tracks { S with phase := .backfilling (S.visible.take AgentStream.eventPageSize) } := by
  have hwaiting := h.inPhase
  simp only [InPhase, hphase] at hwaiting
  obtain ⟨hpos, hreg, hqueued⟩ := hwaiting
  rw [AgentStream.delivers, Bool.and_eq_true, Bool.and_eq_true, decide_eq_true_eq, decide_eq_true_eq, List.isPrefixOf_iff_prefix]
    at hsearch
  obtain ⟨⟨hpre, hlength⟩, hpage⟩ := hsearch
  have hnone : S.yielded = [] := by
    rw [h.read, hpos]
    exact Lib.window_self _
  refine ⟨h.sorted, h.ended, h.fresh, h.closing, h.position, h.read, fun _ => ?_, ?_⟩
  · exact h.unended (by rw [hphase]; exact SubscriberPhase.noConfusion)
  · change S.yielded ++ S.visible.take _ <+: S.due ∧ (∀ x ∈ S.missed, x ∈ S.yielded ++ S.visible.take _) ∧ _
    rw [hnone, List.nil_append, List.take_of_length_le hpage]
    have hfound : S.missed <+: S.visible := List.prefix_of_prefix_length_le missed_prefix hpre hlength
    exact ⟨hpre, fun x hx => hfound.subset hx, hreg, hqueued⟩

/-- The next event due is yielded. -/
theorem Tracks.yieldEvent (h : Tracks S) (hphase : S.phase ≠ .returned) {x : Numbered Event} {more : List (Numbered Event)}
    (hdue : S.due = S.yielded ++ x :: more) {phase : SubscriberPhase} (queue : List (Option (Numbered Event)))
    (hnext : x.isTerminal = false → InPhase { S with
      yielded := S.yielded ++ [x], position := x.number, phase := phase, queue := queue }) :
    Tracks (({ S with queue := queue } : AgentStream).yieldEvent x phase) := by
  have hx : x ∈ S.published ∧ S.after < x.number := by
    have hmem : x ∈ S.due := by
      rw [hdue]
      exact List.mem_append_right _ List.mem_cons_self
    exact ⟨(Lib.mem_above.1 hmem).1, (Lib.mem_above.1 hmem).2.2⟩
  refine ⟨h.sorted, h.ended, h.fresh, h.closing, Or.inr ⟨hx.2, x, hx.1, rfl⟩, ?_, ?_, ?_⟩
  · exact (Lib.window_of_above h.sorted hdue).symm
  · intro hgoes y hy
    rcases List.mem_append.1 hy with hy | hy
    · exact h.unended hphase y hy
    · rw [List.mem_singleton.1 hy, Bool.eq_false_iff]
      intro hterm
      refine hgoes ?_
      simp only [AgentStream.yieldEvent, hterm, if_true]
  · cases hterm : x.isTerminal with
    | true =>
      simp only [AgentStream.yieldEvent, InPhase, hterm, if_true]
      exact ⟨x, List.mem_append_right _ (List.mem_singleton_self x), hterm⟩
    | false =>
      have hinPhase := hnext hterm
      simp only [AgentStream.yieldEvent, hterm, Bool.false_eq_true, if_false, Bool.not_false, Bool.and_true]
      exact hinPhase

theorem Tracks.yield (h : Tracks S) {x : Numbered Event} {rest : List (Numbered Event)}
    (hphase : S.phase = .backfilling (x :: rest)) : Tracks (S.yieldEvent x (.backfilling rest)) := by
  have hfound := h.inPhase
  simp only [InPhase, hphase] at hfound
  obtain ⟨⟨more, hmore⟩, hmissed, hreg, hqueued⟩ := hfound
  have hjoin : (S.yielded ++ [x]) ++ rest = S.yielded ++ x :: rest := by rw [List.append_assoc, List.singleton_append]
  have hdue : S.due = S.yielded ++ x :: (rest ++ more) := by rw [← hmore, List.append_assoc, List.cons_append]
  refine h.yieldEvent (by rw [hphase]; exact SubscriberPhase.noConfusion) hdue S.queue fun _ => ?_
  change (S.yielded ++ [x]) ++ rest <+: S.due ∧ (∀ y ∈ S.missed, y ∈ (S.yielded ++ [x]) ++ rest) ∧ _
  rw [hjoin]
  exact ⟨⟨more, hmore⟩, hmissed, hreg, hqueued⟩

/-- Whatever was yielded is not after the position. -/
theorem Tracks.le_position (h : Tracks S) {x : Numbered Event} (hx : x ∈ S.yielded) : x.number ≤ S.position := by
  rw [h.read, mem_readUpTo] at hx
  exact hx.2.2

/-- A subscriber that has yielded all it has found finds the rest in its queue. -/
theorem Tracks.goLive (h : Tracks S) (hphase : S.phase = .backfilling []) : Tracks { S with phase := .live } := by
  have hfound := h.inPhase
  simp only [InPhase, hphase, List.append_nil] at hfound
  obtain ⟨-, hmissed, -, hqueued⟩ := hfound
  refine ⟨h.sorted, h.ended, h.fresh, h.closing, h.position, h.read, fun _ => ?_, ?_⟩
  · exact h.unended (by rw [hphase]; exact SubscriberPhase.noConfusion)
  · refine ⟨_, hqueued, fun x hx hpos => ?_⟩
    rw [← List.take_append_drop S.registered S.published] at hx
    rcases List.mem_append.1 hx with hx | hx
    · have hafter : S.after ≤ S.position := h.position.elim (fun hp => hp ▸ Int.le_refl _) fun hp => Int.le_of_lt hp.1
      have hyielded := hmissed x (Lib.mem_above.2 ⟨hx, rfl, Int.lt_of_le_of_lt hafter hpos⟩)
      exact absurd (h.le_position hyielded) (Int.not_le.2 hpos)
    · exact hx

/-- A queue that is not empty holds an event first, unless the terminal event was yielded. -/
theorem Tracks.queue_head (h : Tracks S) (hphase : S.phase = .live) {q : Option (Numbered Event)}
    (hqueue : S.queue = q :: queue) :
    ∃ x remaining, q = some x ∧ (queue = remaining.map some ∨ S.closing = .done ∧ queue = remaining.map some ++ [none]) ∧
      x :: remaining <:+ S.published ∧ (S.listed = false → S.closing ≠ .no) ∧
      ∀ y ∈ S.published, S.position < y.number → y ∈ x :: remaining := by
  have hlive := h.inPhase
  simp only [InPhase, hphase] at hlive
  obtain ⟨remaining, ⟨hholds, hsuffix, hlisted⟩, hcover⟩ := hlive
  rw [hqueue] at hholds
  cases remaining with
  | cons x remaining =>
    rcases hholds with hholds | ⟨hdone, hholds⟩
    · rw [List.map_cons, List.cons.injEq] at hholds
      exact ⟨x, remaining, hholds.1, Or.inl hholds.2, hsuffix, hlisted, hcover⟩
    · rw [List.map_cons, List.cons_append, List.cons.injEq] at hholds
      exact ⟨x, remaining, hholds.1, Or.inr ⟨hdone, hholds.2⟩, hsuffix, hlisted, hcover⟩
  | nil =>
    -- Only the signal is left: the terminal event has a position, so it was yielded.
    rcases hholds with hholds | ⟨hdone, -⟩
    · cases hholds
    · obtain ⟨t, ht, hterm, hafter⟩ := h.closing (by rw [hdone]; decide)
      have hle : t.number ≤ S.position := Int.not_lt.1 fun hlt => List.not_mem_nil (hcover t ht hlt)
      have hyielded : t ∈ S.yielded := by
        rw [h.read, mem_readUpTo]
        exact ⟨ht, hafter, hle⟩
      have hunended := h.unended (by rw [hphase]; decide) t hyielded
      rw [hterm] at hunended
      cases hunended

theorem Tracks.take (h : Tracks S) (hphase : S.phase = .live) (hstep : S.takeNext = some S') : Tracks S' := by
  rw [AgentStream.takeNext] at hstep
  cases hqueue : S.queue with
  | nil =>
    rw [hqueue] at hstep
    cases hstep
  | cons q queue =>
    obtain ⟨x, remaining, rfl, hholds, hsuffix, hlisted, hcover⟩ := h.queue_head hphase hqueue
    have hrest : remaining <:+ S.published := (List.suffix_cons x remaining).trans hsuffix
    have hqueued : Queued S.published S.closing S.listed queue remaining := ⟨hholds, hrest, hlisted⟩
    rw [hqueue] at hstep
    dsimp only at hstep
    split at hstep
    · case isTrue hold =>
      cases hstep
      refine ⟨h.sorted, h.ended, h.fresh, h.closing, h.position, h.read, fun _ => ?_, remaining, hqueued, fun y hy hpos => ?_⟩
      · exact h.unended (by rw [hphase]; decide)
      · rcases List.mem_cons.1 (hcover y hy hpos) with rfl | hy
        · exact absurd hold (Int.not_le.2 hpos)
        · exact hy
    · case isFalse hnew =>
      cases hstep
      obtain ⟨before, hbefore⟩ := hsuffix
      have hsorted := h.sorted
      rw [← hbefore] at hsorted
      obtain ⟨-, hright, hcross⟩ := List.pairwise_append.1 hsorted
      -- The events before it in the log are not after the position: those after it stand in the queue.
      have hpast : ∀ y ∈ before, y.number ≤ S.position := by
        intro y hy
        by_contra hpos
        have hmem := hcover y (hbefore ▸ List.mem_append_left _ hy) (Int.not_le.1 hpos)
        exact absurd (hcross y hy y hmem) (Int.lt_irrefl _)
      have hafter : S.after ≤ S.position := h.position.elim (fun hp => hp ▸ Int.le_refl _) fun hp => Int.le_of_lt hp.1
      have hlt : S.position < x.number := Int.not_le.1 hnew
      have hfuture : ∀ y ∈ x :: remaining, S.position < y.number :=
        List.forall_mem_cons.2 ⟨hlt, fun y hy => Int.lt_trans hlt ((List.pairwise_cons.1 hright).1 y hy)⟩
      have hdue : S.due = S.yielded ++ x :: remaining := by
        have hall : Lib.above Numbered.number (fun _ => true) S.after (x :: remaining) = x :: remaining :=
          List.filter_eq_self.2 fun y hy => decide_eq_true (Int.lt_of_le_of_lt hafter (hfuture y hy))
        rw [AgentStream.due, h.read, readUpTo, ← hbefore, Lib.above_split hpast hfuture, hall]
      refine h.yieldEvent (by rw [hphase]; decide) hdue queue fun _ => ⟨remaining, hqueued, fun y hy hpos => ?_⟩
      have hy' : S.position < y.number := Int.lt_trans hlt hpos
      rcases List.mem_cons.1 (hcover y hy hy') with rfl | hy
      · exact absurd hpos (Int.lt_irrefl _)
      · exact hy

/-- An action that lets the subscription deliver keeps the subscriber on track. -/
theorem step_tracks {a : SubscriptionAction} (h : Tracks S) (ha : S.delivers a) (hstep : S.step a = some S') : Tracks S' := by
  cases a with
  | publish e =>
    rw [AgentStream.step] at hstep
    split at hstep
    · cases hstep
    · case isFalse hopen =>
      cases hstep
      refine h.publish (Bool.eq_false_iff.2 hopen) (fun hstop => ?_) _ rfl
      rw [AgentStream.delivers, hstop, Bool.not_true, Bool.false_or, decide_eq_true_eq] at ha
      exact ha
  | arrive i =>
    obtain ⟨W, hW, rfl⟩ := Option.map_eq_some_iff.1 hstep
    exact h.withWrites (nextSequence_arrive hW)
  | respond i ok =>
    obtain ⟨W, hW, rfl⟩ := Option.map_eq_some_iff.1 hstep
    obtain ⟨t, -, rfl⟩ := Option.map_eq_some_iff.1 hW
    exact h.withWrites (Nat.le_refl _)
  | lose i =>
    obtain ⟨W, hW, rfl⟩ := Option.map_eq_some_iff.1 hstep
    obtain ⟨t, -, rfl⟩ := Option.map_eq_some_iff.1 hW
    exact h.withWrites (Nat.le_refl _)
  | regroup =>
    cases hstep
    exact h.withWrites (Nat.le_refl _)
  | closeTicks ok =>
    rw [AgentStream.step] at hstep
    split at hstep
    · case isTrue hclosing =>
      have hold : S.closing ≠ .no := by rw [hclosing]; decide
      have hne : S.closing ≠ .done := by rw [hclosing]; decide
      split at hstep
      · cases hstep
        exact h.proceed hold hne (by exact Closing.noConfusion)
      · cases hstep
        exact h.proceed hold hne (by decide)
    · cases hstep
  | close =>
    rw [AgentStream.step] at hstep
    split at hstep
    · case h_1 tasks hclosing =>
      have hold : S.closing ≠ .no := by rw [hclosing]; exact Closing.noConfusion
      have hne : S.closing ≠ .done := by rw [hclosing]; exact Closing.noConfusion
      split at hstep
      · split at hstep
        · cases hstep
          exact h.proceed hold hne (by decide)
        · cases hstep
          exact h.end hold hne
      · cases hstep
    · cases hstep
  | subscribe =>
    rw [AgentStream.step] at hstep
    split at hstep
    · case isTrue hphase =>
      cases hstep
      exact h.subscribe hphase
    · cases hstep
  | search =>
    rw [AgentStream.step] at hstep
    split at hstep
    · case h_1 tasks hphase =>
      split at hstep
      · split at hstep
        · cases hstep
          exact h.fail (by rw [hphase]; exact SubscriberPhase.noConfusion)
        · cases hstep
          exact h.search hphase ha
      · cases hstep
    · cases hstep
  | yield =>
    rw [AgentStream.step] at hstep
    split at hstep
    · case h_1 x rest hphase =>
      cases hstep
      exact h.yield hphase
    · cases hstep
  | take =>
    rw [AgentStream.step] at hstep
    split at hstep
    · case h_1 hphase =>
      exact (h.goLive hphase).take rfl hstep
    · case h_2 hphase => exact h.take hphase hstep
    · cases hstep

theorem takeNext_after (h : S.takeNext = some S') : S'.after = S.after := by
  unfold AgentStream.takeNext AgentStream.yieldEvent at h
  grind

/-- The cursor of a subscription never changes. -/
theorem step_after {a : SubscriptionAction} (h : S.step a = some S') : S'.after = S.after := by
  cases a with
  | arrive i | respond i ok | lose i =>
    obtain ⟨W, -, rfl⟩ := Option.map_eq_some_iff.1 h
    rfl
  | take =>
    rw [AgentStream.step] at h
    split at h
    · exact takeNext_after h
    · exact takeNext_after h
    · cases h
  | publish e | regroup | closeTicks ok | close | subscribe | search | yield =>
    unfold AgentStream.step AgentStream.yieldEvent at h
    grind

/-- A subscriber that has returned has yielded everything that was due. -/
theorem Tracks.complete (h : Tracks S) (hphase : S.phase = .returned) :
    S.yielded = S.due ∧ ∃ x ∈ S.yielded, x.isTerminal := by
  have hreturned := h.inPhase
  simp only [InPhase, hphase] at hreturned
  obtain ⟨x, hx, hterm⟩ := hreturned
  refine ⟨?_, x, hx, hterm⟩
  have hmem := hx
  rw [h.read, mem_readUpTo] at hmem
  rw [h.read]
  refine Lib.window_eq_above fun y hy => ?_
  exact Int.le_trans (Lib.le_of_getLast? h.sorted (h.ended x hmem.1 hterm) y hy) hmem.2.2

end AgentStreamAux

/-- In every run whose searches find what the subscriber has missed, with nothing behind a gap and no more than a page, from any events
stored before and any cursor that the terminal event comes after, what the subscriber has yielded is a prefix of the events after the
cursor, in order; once it has returned it has yielded them all, the terminal one included. -/
theorem agent_subscription_delivers_once {E : StoredEvents} {after : Int} {S : AgentStream}
    (hrun : Lib.Run AgentStream.step (fun S a => S.delivers a) (.start E after) S) :
    (S.published.Pairwise fun x y => x.number < y.number) ∧
    S.yielded <+: S.published.filter (fun x => decide (after < x.number)) ∧
    (S.phase = .returned → S.yielded = S.published.filter (fun x => decide (after < x.number)) ∧
      ∃ x ∈ S.yielded, x.isTerminal) := by
  have h : AgentStreamAux.Tracks S := hrun.invariant AgentStreamAux.Tracks (AgentStreamAux.tracks_start E after)
    fun _ _ _ h ha hstep => AgentStreamAux.step_tracks h ha hstep
  have hafter : S.after = after := hrun.invariant (fun S => S.after = after) rfl fun _ _ _ hafter _ hstep =>
    (AgentStreamAux.step_after hstep).trans hafter
  subst hafter
  refine ⟨h.sorted, ?_, fun hphase => h.complete hphase⟩
  have hprefix : S.yielded <+: S.due := by
    rw [h.read]
    exact Lib.window_prefix h.sorted
  exact hprefix

namespace Subscribed

/-- A progress event. -/
def progress : Event := ⟨.ofName "Progress", []⟩

/-- The terminal event. -/
def stop : Event := ⟨.stopEvent, []⟩

/-- A subscription to a new run. -/
def new : AgentStream := .start ⟨[], List.Pairwise.nil, List.forall_mem_nil _⟩ (-1)

end Subscribed

open Subscribed in
/-- A subscriber loses an event whose write is under way when it searches, if someone else awaits that write; it loses one whose
write is overtaken by the next; and it returns without the terminal event, if it registers while the store awaits its write. -/
theorem agent_subscription_delivers_once_false :
    (∃ S, Lib.Run AgentStream.step (fun _ _ => True) new S ∧ S.published.map Numbered.sequence = [0, 1] ∧
      S.yielded.map Numbered.sequence = [1]) ∧
    (∃ S, Lib.Run AgentStream.step (fun _ _ => True) new S ∧ S.published.map Numbered.sequence = [0, 1, 2] ∧
      S.yielded.map Numbered.sequence = [1, 2] ∧ S.registered = 0) ∧
    ∃ S, Lib.Run AgentStream.step (fun _ _ => True) new S ∧ S.published.map Numbered.sequence = [0] ∧
      S.phase = .returned ∧ S.yielded = [] := by
  refine ⟨?_, ?_, ?_⟩
  · exact Lib.Run.exists_of_actions _ _ [.publish progress, .regroup, .subscribe, .search, .publish progress, .take] _
      (by decide +kernel)
  · exact Lib.Run.exists_of_actions _ _ [.subscribe, .publish progress, .publish progress, .arrive 1, .search, .yield,
      .publish progress, .take, .take, .take] _ (by decide +kernel)
  · exact Lib.Run.exists_of_actions _ _ [.publish stop, .closeTicks true, .subscribe, .search, .arrive 0, .respond 0 true, .close,
      .take] _ (by decide +kernel)

open Subscribed in
/-- A subscriber registers after the first event, whose write it awaits; it yields all three and returns. -/
theorem agent_subscription_delivers_once_returned : ∃ S : AgentStream, S.published.map Numbered.sequence = [0, 1, 2] ∧
    S.registered = 1 ∧ S.phase = .returned ∧ S.yielded = S.published.filter (fun x => decide (-1 < x.number)) ∧
    ∃ x ∈ S.yielded, x.isTerminal := by
  obtain ⟨S, hrun, hpublished, hregistered, hphase⟩ := Lib.Run.exists_of_exec AgentStream.step (fun S a => S.delivers a) new
    [.publish progress, .subscribe, .publish progress, .arrive 0, .respond 0 true, .arrive 1, .search, .yield, .yield, .publish stop,
      .take, .take]
    (fun S => S.published.map Numbered.sequence = [0, 1, 2] ∧ S.registered = 1 ∧ S.phase = .returned) (by decide +kernel)
  exact ⟨S, hpublished, hregistered, hphase, (agent_subscription_delivers_once hrun).2.2 hphase⟩

end LlamaAgents
