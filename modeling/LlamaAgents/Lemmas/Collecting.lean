import LlamaAgents.Lemmas.PlainLoop

/-!
# Collection over a run

The invariant of collection: a binding of an open stream has buffered exactly what was routed to it and has not fired, or has
fired once with the first members it takes; a binding of a stream that was opened and has closed has fired once.
-/

namespace LlamaAgents

open Lib (Dict)

/-- The state of collection when `R` gives the events routed to each step in each stream so far. -/
structure Collects (cfg : BrokerConfig) (σ : BrokerState) (R : StreamId → StepId → List Event) : Prop where
  /-- An open stream was opened by an execution. -/
  opened : ∀ s st, σ.streams.get? s = some st → ∃ x, OpenedBy σ.log x s
  /-- A stream that was opened has its opener's scope and step in its id. -/
  scope : ∀ x s, OpenedBy σ.log x s → s.path = x.scopePath ∧ s.seq < σ.streamSeq
  /-- A binding that has not released has buffered what was routed to it, less than it waits for. -/
  waiting : ∀ s st, σ.streams.get? s = some st → ∀ b ∈ cfg.bindingsForSource s.step,
    (σ.releaseState s b.id).released = false → invocations σ.log b s = [] ∧
      (σ.releaseState s b.id).buffer = R s b.targetStep ∧
      ∀ n, b.policy.takeThreshold = some n → (R s b.targetStep).length < n
  /-- A binding that has released took its first members and fired once. -/
  fired : ∀ s st, σ.streams.get? s = some st → ∀ b ∈ cfg.bindingsForSource s.step,
    (σ.releaseState s b.id).released = true →
      (∃ n, b.policy.takeThreshold = some n ∧ n ≤ (R s b.targetStep).length) ∧
      invocations σ.log b s = [collectInvocation b s (R s b.targetStep)]
  /-- Every binding of a stream that has closed fired once. -/
  closed : ∀ x s, OpenedBy σ.log x s → σ.streams.get? s = none → ∀ b ∈ cfg.bindingsForSource s.step,
    invocations σ.log b s = [collectInvocation b s (R s b.targetStep)]
  /-- Nothing is known of a stream whose number was not given out yet. -/
  fresh : ∀ s, σ.streamSeq ≤ s.seq → (∀ b, invocations σ.log b s = []) ∧ ∀ n, R s n = []

namespace CollectingAux

open AccountingAux CommandsAux StepResultAux ResultAux RoutingAux

variable {cfg : BrokerConfig} {σ σ' : BrokerState} {R R' : StreamId → StepId → List Event} (now : Time) {s : StreamId}
  {st : CollectionStreamInstance} {b : CollectionBinding}

@[simp] theorem invocations_append (l l' : List LogEntry) (b : CollectionBinding) (s : StreamId) :
    invocations (l ++ l') b s = invocations l b s ++ invocations l' b s := List.filterMap_append

theorem openedBy_append (l l' : List LogEntry) (x : InProgressState) (s : StreamId) :
    OpenedBy (l ++ l') x s ↔ OpenedBy l x s ∨ OpenedBy l' x s := by
  constructor
  · rintro ⟨st, hst, rfl⟩
    rcases List.mem_append.1 hst with h | h
    · exact Or.inl ⟨st, h, rfl⟩
    · exact Or.inr ⟨st, h, rfl⟩
  · rintro (⟨st, hst, rfl⟩ | ⟨st, hst, rfl⟩)
    · exact ⟨st, List.mem_append_left _ hst, rfl⟩
    · exact ⟨st, List.mem_append_right _ hst, rfl⟩

/-! ## What collection does not look at -/

/-- Two states that agree on which streams are open, on the release states and on the records of collection. -/
structure SameStreams (σ σ' : BrokerState) : Prop where
  isOpen : ∀ s, (σ'.streams.get? s).isSome = (σ.streams.get? s).isSome
  releases : σ'.collectionReleaseStates = σ.collectionReleaseStates
  invocations : ∀ b s, invocations σ'.log b s = invocations σ.log b s
  opened : ∀ x s, OpenedBy σ'.log x s ↔ OpenedBy σ.log x s
  streamSeq : σ'.streamSeq = σ.streamSeq

theorem SameStreams.of_eq (hs : σ'.streams = σ.streams) (hr : σ'.collectionReleaseStates = σ.collectionReleaseStates)
    (hl : σ'.log = σ.log) (hk : σ'.streamSeq = σ.streamSeq) : SameStreams σ σ' :=
  ⟨fun s => by rw [hs], hr, fun b s => by rw [hl], fun x s => by rw [hl], hk⟩

/-- A record that says nothing of collection. -/
theorem SameStreams.report {e : LogEntry} (hi : ∀ b s, e.invocation? b s = none) (ho : ∀ x st, e ≠ .opened x st) :
    SameStreams σ (σ.report e) := by
  refine ⟨fun s => rfl, rfl, ?_, ?_, rfl⟩
  · intro b s
    rw [BrokerState.report_log, invocations_append]
    simp [LlamaAgents.invocations, hi]
  · intro x s
    rw [BrokerState.report_log, openedBy_append]
    constructor
    · rintro (h | ⟨st, hst, rfl⟩)
      · exact h
      · exact absurd (List.mem_singleton.1 hst).symm (ho x st)
    · exact Or.inl

theorem SameStreams.trans {σ'' : BrokerState} (h : SameStreams σ σ') (h' : SameStreams σ' σ'') : SameStreams σ σ'' where
  isOpen s := (h'.isOpen s).trans (h.isOpen s)
  releases := h'.releases.trans h.releases
  invocations b s := (h'.invocations b s).trans (h.invocations b s)
  opened x s := (h'.opened x s).trans (h.opened x s)
  streamSeq := h'.streamSeq.trans h.streamSeq

theorem SameStreams.some_of_some (h : SameStreams σ σ')
    (hst : σ'.streams.get? s = some st) : ∃ st', σ.streams.get? s = some st' := by
  have hopen := h.isOpen s
  rw [hst, Option.isSome_some] at hopen
  exact Option.isSome_iff_exists.1 hopen.symm

theorem SameStreams.releaseState (h : SameStreams σ σ') (s : StreamId) (id : BindingId) :
    σ'.releaseState s id = σ.releaseState s id := by
  rw [BrokerState.releaseState, BrokerState.releaseState, h.releases]

/-- Collection carries over to a state that it cannot tell from another. -/
theorem collects_of_same (h : Collects cfg σ R) (hsame : SameStreams σ σ') : Collects cfg σ' R := by
  refine ⟨?_, ?_, ?_, ?_, ?_, ?_⟩
  · intro s st hst
    obtain ⟨st', hst'⟩ := hsame.some_of_some hst
    obtain ⟨x, hx⟩ := h.opened s st' hst'
    exact ⟨x, (hsame.opened x s).2 hx⟩
  · intro x s hx
    rw [hsame.streamSeq]
    exact h.scope x s ((hsame.opened x s).1 hx)
  · intro s st hst b hb hr
    obtain ⟨st', hst'⟩ := hsame.some_of_some hst
    rw [hsame.releaseState] at hr ⊢
    rw [hsame.invocations]
    exact h.waiting s st' hst' b hb hr
  · intro s st hst b hb hr
    obtain ⟨st', hst'⟩ := hsame.some_of_some hst
    rw [hsame.releaseState] at hr
    rw [hsame.invocations]
    exact h.fired s st' hst' b hb hr
  · intro x s hx hs b hb
    have hnone : σ.streams.get? s = none := by
      have hopen := hsame.isOpen s
      rw [hs, Option.isSome_none] at hopen
      simpa using hopen.symm
    rw [hsame.invocations]
    exact h.closed x s ((hsame.opened x s).1 hx) hnone b hb
  · intro s hs
    rw [hsame.streamSeq] at hs
    obtain ⟨h₁, h₂⟩ := h.fresh s hs
    exact ⟨fun b => by rw [hsame.invocations]; exact h₁ b, h₂⟩

/-- Collection looks at the routed events of collect steps only, and only in streams that were opened. -/
theorem collects_congr (h : Collects cfg σ R)
    (hR : ∀ s, ∀ b ∈ cfg.bindingsForSource s.step, R' s b.targetStep = R s b.targetStep)
    (hfresh : ∀ s n, σ.streamSeq ≤ s.seq → R' s n = []) : Collects cfg σ R' := by
  refine ⟨h.opened, h.scope, ?_, ?_, ?_, ?_⟩
  · intro s st hst b hb hr
    rw [hR s b hb]
    exact h.waiting s st hst b hb hr
  · intro s st hst b hb hr
    rw [hR s b hb]
    exact h.fired s st hst b hb hr
  · intro x s hx hs b hb
    rw [hR s b hb]
    exact h.closed x s hx hs b hb
  · intro s hs
    exact ⟨(h.fresh s hs).1, fun n => hfresh s n hs⟩

/-! ## Closing a stream -/

/-- A closing stream invokes no binding of another. -/
theorem invocations_closeReleases_of_ne (s : StreamId) (path : ScopePath) (bs : List CollectionBinding) (b : CollectionBinding)
    {t : StreamId} (ht : t ≠ s) : invocations (closeReleases σ s path bs) b t = [] := by
  rw [invocations, List.filterMap_eq_nil_iff]
  intro e he
  obtain ⟨b', -, rfl⟩ := List.mem_map.1 he
  exact if_neg fun h => ht h.2.symm

theorem filterMap_eq_singleton {α β : Type*} [DecidableEq α] {l : List α} (hn : l.Nodup) (a : α) (f : α → β) :
    l.filterMap (fun x => if x = a then some (f x) else none) = if a ∈ l then [f a] else [] := by
  induction l with
  | nil => rfl
  | cons x l ih =>
    rw [List.nodup_cons] at hn
    by_cases hx : x = a
    · subst hx
      simp [ih hn.2, hn.1]
    · simp [ih hn.2, hx, Ne.symm hx]

/-- A binding fires when its stream closes unless it has released. -/
theorem invocations_closeReleases {path : ScopePath} {bs : List CollectionBinding}
    (hb : b ∈ bs) (hnd : bs.Nodup) : invocations (closeReleases σ s path bs) b s = if (σ.releaseState s b.id).released then []
      else [(CollectionReleasePayload.mk b.id s (b.policy.batch (σ.releaseState s b.id).buffer) path).toAttempt] := by
  have hfun : (LogEntry.invocation? b s ∘ fun b' => LogEntry.released b' s
      (CollectionReleasePayload.mk b'.id s (b'.policy.batch (σ.releaseState s b'.id).buffer) path).toAttempt) =
      fun b' => if b' = b then some
        (CollectionReleasePayload.mk b'.id s (b'.policy.batch (σ.releaseState s b'.id).buffer) path).toAttempt else none := by
    funext b'
    simp [LogEntry.invocation?]
  rw [invocations, closeReleases, List.filterMap_map, hfun, filterMap_eq_singleton (hnd.filter _)]
  cases hr : (σ.releaseState s b.id).released <;> simp [hb, hr]

theorem not_openedBy_closeReleases (s : StreamId) (path : ScopePath) (bs : List CollectionBinding) (x : InProgressState)
    (t : StreamId) : ¬ OpenedBy (closeReleases σ s path bs) x t := by
  rintro ⟨st, hst, -⟩
  obtain ⟨b, -, hb⟩ := List.mem_map.1 hst
  cases hb

theorem bindings_nodup (n : StepId) : (cfg.bindingsForSource n).Nodup := (bindingsForSource_nodup n).of_map _

/-- When a stream closes, each of its bindings that has not released fires with what was routed to it. -/
theorem close_collects (h : Collects cfg σ R) (hsc : Scoped cfg σ)
    (hst : σ.streams.get? s = some st) : Collects cfg (closeCollectionStream cfg s now σ).1 R := by
  obtain ⟨-, hsrc, hpath, -, -, -⟩ := hsc.stream s st hst
  have hlog := @closeCollectionStream_log cfg now σ s st hst
  rw [hsrc, hpath] at hlog
  have hseq := (Serves.close cfg now s σ).frame.streamSeq
  have hopened : ∀ x t, OpenedBy (closeCollectionStream cfg s now σ).1.log x t ↔ OpenedBy σ.log x t := by
    intro x t
    rw [hlog, openedBy_append]
    exact or_iff_left (not_openedBy_closeReleases s _ _ x t)
  have hother : ∀ b t, t ≠ s → invocations (closeCollectionStream cfg s now σ).1.log b t = invocations σ.log b t := by
    intro b t ht
    rw [hlog, invocations_append, invocations_closeReleases_of_ne s _ _ b ht, List.append_nil]
  have hrelease : ∀ t id, t ≠ s → (closeCollectionStream cfg s now σ).1.releaseState t id = σ.releaseState t id := by
    intro t id ht
    rw [BrokerState.releaseState, closeCollectionStream_releases now hst, if_neg fun h => ht h.1, BrokerState.releaseState]
  have hget : ∀ t st', (closeCollectionStream cfg s now σ).1.streams.get? t = some st' →
      t ≠ s ∧ σ.streams.get? t = some st' := by
    intro t st' ht
    rw [closeCollectionStream_get?] at ht
    split at ht
    · cases ht
    · case isFalse hts => exact ⟨hts, ht⟩
  refine ⟨?_, ?_, ?_, ?_, ?_, ?_⟩
  · intro t st' ht
    obtain ⟨x, hx⟩ := h.opened t st' (hget t st' ht).2
    exact ⟨x, (hopened x t).2 hx⟩
  · intro x t hx
    rw [hseq]
    exact h.scope x t ((hopened x t).1 hx)
  · intro t st' ht b hb hr
    obtain ⟨hts, ht'⟩ := hget t st' ht
    rw [hrelease t b.id hts] at hr ⊢
    rw [hother b t hts]
    exact h.waiting t st' ht' b hb hr
  · intro t st' ht b hb hr
    obtain ⟨hts, ht'⟩ := hget t st' ht
    rw [hrelease t b.id hts] at hr
    rw [hother b t hts]
    exact h.fired t st' ht' b hb hr
  · intro x t hx ht b hb
    by_cases hts : t = s
    · subst hts
      rw [hlog, invocations_append, invocations_closeReleases hb (bindings_nodup _)]
      cases hr : (σ.releaseState t b.id).released with
      | false =>
        obtain ⟨h₁, h₂, -⟩ := h.waiting t st hst b hb hr
        rw [h₁, h₂]
        rfl
      | true => simpa using (h.fired t st hst b hb hr).2
    · rw [closeCollectionStream_get?, if_neg hts] at ht
      rw [hother b t hts]
      exact h.closed x t ((hopened x t).1 hx) ht b hb
  · intro t ht
    rw [hseq] at ht
    have hts : t ≠ s := by
      rintro rfl
      have := (hsc.stream t st hst).2.2.2.2.1
      omega
    exact ⟨fun b => by rw [hother b t hts]; exact (h.fresh t ht).1 b, (h.fresh t ht).2⟩

/-- A stream with another counter is the same to collection. -/
theorem setOpenWorkItems_same (hst : σ.streams.get? s = some st) (n : Int) : SameStreams σ (setOpenWorkItems s st n σ) := by
  have hset : SameStreams σ (σ.setStreams (σ.streams.set s { st with openWorkItems := n })) := by
    refine ⟨?_, rfl, fun _ _ => rfl, fun _ _ => Iff.rfl, rfl⟩
    intro t
    rw [BrokerState.setStreams_streams, Dict.get?_set]
    split
    · case isTrue hts => rw [← hts, hst]; rfl
    · rfl
  unfold setOpenWorkItems
  dsimp only
  split
  · exact hset.trans (SameStreams.report (fun _ _ => rfl) (fun _ _ h => by cases h))
  · exact hset

theorem setOpenWorkItems_scoped (h : Scoped cfg σ)
    (hst : σ.streams.get? s = some st) (n : Int) : Scoped cfg (setOpenWorkItems s st n σ) := by
  unfold setOpenWorkItems
  dsimp only
  split
  · exact (setCount_scoped h hst n).congr rfl rfl (fun _ => rfl) rfl
  · exact setCount_scoped h hst n

/-- Adjusting a counter closes the stream at zero, and is otherwise nothing to collection. -/
theorem adjust_collects (h : Collects cfg σ R) (hsc : Scoped cfg σ) (s : Option StreamId) (delta : Int) :
    Collects cfg (adjustOpenWorkItems cfg s delta now σ).1 R := by
  unfold adjustOpenWorkItems
  split
  · exact h
  · split
    · split
      · exact collects_of_same h (SameStreams.report (fun _ _ => rfl) (fun _ _ h => by cases h))
      · exact h
    · case h_2 s _ st hst =>
      have hsame := setOpenWorkItems_same hst (st.openWorkItems + delta)
      dsimp only
      split
      · have hget : (setOpenWorkItems s st (st.openWorkItems + delta) σ).streams.get? s =
            some { st with openWorkItems := st.openWorkItems + delta } := by
          rw [setOpenWorkItems_streams, Dict.get?_set_self]
        exact close_collects now (collects_of_same h hsame) (setOpenWorkItems_scoped hsc hst _) hget
      · exact collects_of_same h hsame

/-! ## A member arrives -/

/-- The routed events after an event was delivered to a step. -/
def addRouted (t : TickAddEvent) (n : StepId) (R : StreamId → StepId → List Event) : StreamId → StepId → List Event :=
  fun s m => if t.scopePath.getLast? = some s ∧ m = n then R s m ++ [t.event] else R s m

/-- A full batch takes no later member. -/
theorem batch_append {p : Cardinality} {n : Nat} (hp : p.takeThreshold = some n) {es : List Event} (hn : n ≤ es.length)
    (l : List Event) : p.batch (es ++ l) = p.batch es := by
  simp only [Cardinality.batch, hp]
  exact List.take_append_of_le_length hn

/-- The binding that a member is collected for is one of its stream's producer. -/
theorem bindingForTarget_mem (hsc : Scoped cfg σ) {n : StepId}
    (hb : cfg.bindingForTarget s n σ.streams = some b) : b ∈ cfg.bindingsForSource s.step ∧ b.targetStep = n := by
  obtain ⟨st, hst, hid, hget, htarget⟩ := bindingForTarget_eq_some hb
  rw [(hsc.stream s st hst).2.2.2.1, List.mem_map] at hid
  obtain ⟨b', hb', hid⟩ := hid
  have hget' := bindingsForSource_config s.step b' hb'
  rw [hid, hget, Option.some.injEq] at hget'
  exact ⟨hget' ▸ hb', htarget⟩

/-- Two bindings of one producer with one target are one. -/
theorem binding_eq_of_target {n : StepId} {b b' : CollectionBinding} (hb : b ∈ cfg.bindingsForSource n)
    (hb' : b' ∈ cfg.bindingsForSource n) (h : b'.targetStep = b.targetStep) : b' = b := by
  obtain ⟨h₁, h₂⟩ := (cfg.mem_bindingsForSource n b).1 hb
  obtain ⟨h₃, h₄⟩ := (cfg.mem_bindingsForSource n b').1 hb'
  exact cfg.binding_unique _ _ _ _ h₃ h₁ (h₄.trans h₂.symm) h

/-- The bindings of a step have distinct ids. -/
theorem binding_eq_of_id {n : StepId} {b b' : CollectionBinding} (hb : b ∈ cfg.bindingsForSource n)
    (hb' : b' ∈ cfg.bindingsForSource n) (h : b'.id = b.id) : b' = b := by
  have h₁ := bindingsForSource_config n b hb
  have h₂ := bindingsForSource_config n b' hb'
  rw [h, h₁, Option.some.injEq] at h₂
  exact h₂.symm

/-- Collection carries over when only one binding of one open stream changes. -/
theorem collects_update (h : Collects cfg σ R)
    (hst : σ.streams.get? s = some st) (hstreams : σ'.streams = σ.streams) (hseq : σ'.streamSeq = σ.streamSeq)
    (hopened : ∀ x t, OpenedBy σ'.log x t ↔ OpenedBy σ.log x t)
    (hrel : ∀ t, ∀ b' ∈ cfg.bindingsForSource t.step, ¬(t = s ∧ b' = b) → σ'.releaseState t b'.id = σ.releaseState t b'.id)
    (hinv : ∀ t b', ¬(t = s ∧ b' = b) → invocations σ'.log b' t = invocations σ.log b' t)
    (hR : ∀ t, ∀ b' ∈ cfg.bindingsForSource t.step, ¬(t = s ∧ b' = b) → R' t b'.targetStep = R t b'.targetStep)
    (hfresh : ∀ t n, σ.streamSeq ≤ t.seq → R' t n = [])
    (hwait : (σ'.releaseState s b.id).released = false → invocations σ'.log b s = [] ∧
      (σ'.releaseState s b.id).buffer = R' s b.targetStep ∧
      ∀ n, b.policy.takeThreshold = some n → (R' s b.targetStep).length < n)
    (hfired : (σ'.releaseState s b.id).released = true →
      (∃ n, b.policy.takeThreshold = some n ∧ n ≤ (R' s b.targetStep).length) ∧
      invocations σ'.log b s = [collectInvocation b s (R' s b.targetStep)]) : Collects cfg σ' R' := by
  have hseqs : s.seq < σ.streamSeq := by
    obtain ⟨x, hx⟩ := h.opened s st hst
    exact (h.scope x s hx).2
  refine ⟨?_, ?_, ?_, ?_, ?_, ?_⟩
  · intro t st' ht
    rw [hstreams] at ht
    obtain ⟨x, hx⟩ := h.opened t st' ht
    exact ⟨x, (hopened x t).2 hx⟩
  · intro x t hx
    rw [hseq]
    exact h.scope x t ((hopened x t).1 hx)
  · intro t st' ht b' hb' hr
    by_cases hself : t = s ∧ b' = b
    · obtain ⟨rfl, rfl⟩ := hself
      exact hwait hr
    · rw [hstreams] at ht
      rw [hrel t b' hb' hself] at hr ⊢
      rw [hinv t b' hself, hR t b' hb' hself]
      exact h.waiting t st' ht b' hb' hr
  · intro t st' ht b' hb' hr
    by_cases hself : t = s ∧ b' = b
    · obtain ⟨rfl, rfl⟩ := hself
      exact hfired hr
    · rw [hstreams] at ht
      rw [hrel t b' hb' hself] at hr
      rw [hinv t b' hself, hR t b' hb' hself]
      exact h.fired t st' ht b' hb' hr
  · intro x t hx ht b' hb'
    rw [hstreams] at ht
    have hself : ¬(t = s ∧ b' = b) := by
      rintro ⟨rfl, -⟩
      rw [hst] at ht
      cases ht
    rw [hinv t b' hself, hR t b' hb' hself]
    exact h.closed x t ((hopened x t).1 hx) ht b' hb'
  · intro t ht
    rw [hseq] at ht
    refine ⟨fun b' => ?_, fun n => hfresh t n ht⟩
    rw [hinv t b' fun hself => by rw [hself.1] at ht; omega]
    exact (h.fresh t ht).1 b'

theorem addRouted_fresh (h : Collects cfg σ R) {t : TickAddEvent}
    (hst : σ.streams.get? s = some st) (hlast : t.scopePath.getLast? = some s) (n : StepId) (u : StreamId) (m : StepId)
    (hu : σ.streamSeq ≤ u.seq) : addRouted t n R u m = [] := by
  rw [addRouted, if_neg, (h.fresh u hu).2 m]
  rintro ⟨hu', -⟩
  rw [hlast, Option.some.injEq] at hu'
  subst hu'
  obtain ⟨x, hx⟩ := h.opened s st hst
  have := (h.scope x s hx).2
  omega

/-- A member fires only the batch that it fills. -/
theorem releaseOnItem_eq_some {r : CollectionReleaseState} {batch : List Event} (h : releaseOnItem b r = some batch) :
    ∃ k, b.policy.takeThreshold = some k ∧ k ≤ r.buffer.length ∧ batch = r.buffer.take k := by
  unfold releaseOnItem at h
  split at h
  · cases h
  · case h_2 k hk =>
    split at h
    · cases h
    · case isFalse hlt =>
      cases h
      exact ⟨k, hk, Nat.le_of_not_lt hlt, rfl⟩

/-- A member that arrives at its binding is buffered, fires it, or comes after it has fired. -/
theorem collectMember_collects (h : Collects cfg σ R) (hsc : Scoped cfg σ) (c : StepConfig) {tick : TickAddEvent}
    (hlast : tick.scopePath.getLast? = some s) (hpath : tick.scopePath.dropLast = s.path) {n : StepId}
    (hb : cfg.bindingForTarget s n σ.streams = some b) :
    Collects cfg (collectMember c tick s b now σ).1 (addRouted tick n R) := by
  obtain ⟨st, hst, -, -, -⟩ := bindingForTarget_eq_some hb
  obtain ⟨hmem, rfl⟩ := bindingForTarget_mem hsc hb
  have hself : addRouted tick b.targetStep R s b.targetStep = R s b.targetStep ++ [tick.event] := if_pos ⟨hlast, rfl⟩
  have hR : ∀ t, ∀ b' ∈ cfg.bindingsForSource t.step, ¬(t = s ∧ b' = b) →
      addRouted tick b.targetStep R t b'.targetStep = R t b'.targetStep := by
    intro t b' hb' hne
    refine if_neg ?_
    rintro ⟨ht, hn⟩
    rw [hlast, Option.some.injEq] at ht
    subst ht
    exact hne ⟨rfl, binding_eq_of_target hmem hb' hn⟩
  have hfresh := addRouted_fresh h hst hlast b.targetStep
  have hset : ∀ r, ∀ t, ∀ b' ∈ cfg.bindingsForSource t.step, ¬(t = s ∧ b' = b) →
      (σ.setReleases (σ.collectionReleaseStates.set (s, b.id) r)).releaseState t b'.id = σ.releaseState t b'.id := by
    intro r t b' hb' hne
    rw [releaseState_set, if_neg]
    rintro ⟨rfl, hid⟩
    exact hne ⟨rfl, binding_eq_of_id hmem hb' hid⟩
  unfold collectMember
  dsimp only
  split
  · case isTrue hr =>
    obtain ⟨⟨k, hk, hle⟩, hinv⟩ := h.fired s st hst b hmem hr
    refine collects_update h hst rfl rfl (fun _ _ => Iff.rfl) (fun _ _ _ _ => rfl) (fun _ _ _ => rfl) hR hfresh ?_ ?_
    · intro hr'
      rw [hr] at hr'
      cases hr'
    · intro _
      rw [hself, collectInvocation, batch_append hk hle, hinv]
      refine ⟨⟨k, hk, ?_⟩, rfl⟩
      rw [List.length_append]
      omega
  · case isFalse hr =>
    rw [Bool.not_eq_true] at hr
    obtain ⟨hinv, hbuf, -⟩ := h.waiting s st hst b hmem hr
    split
    · case h_1 hnone =>
      refine collects_update h hst rfl rfl (fun _ _ => Iff.rfl) (hset _) (fun _ _ _ => rfl) hR hfresh ?_ ?_
      · intro _
        rw [releaseState_set, if_pos ⟨rfl, rfl⟩, hself, hbuf]
        refine ⟨hinv, rfl, ?_⟩
        intro k hk
        rw [releaseOnItem, hk] at hnone
        dsimp only at hnone
        split at hnone
        · case isTrue hlt => rwa [hbuf] at hlt
        · cases hnone
      · intro hr'
        rw [releaseState_set, if_pos ⟨rfl, rfl⟩] at hr'
        rw [hr] at hr'
        cases hr'
    · case h_2 batch hsome =>
      obtain ⟨k, hk, hle, rfl⟩ := releaseOnItem_eq_some hsome
      have hlog : ∀ t b', invocations (fireCollectionRelease c b s (List.take k ((σ.releaseState s b.id).buffer ++ [tick.event]))
          tick.scopePath.dropLast now (σ.setReleases (σ.collectionReleaseStates.set (s, b.id) { σ.releaseState s b.id with
            buffer := (σ.releaseState s b.id).buffer ++ [tick.event], released := true }))).1.log b' t =
          invocations σ.log b' t ++ if b = b' ∧ s = t then
            [collectInvocation b s (R s b.targetStep ++ [tick.event])] else [] := by
        intro t b'
        refine (invocations_append _ _ _ _).trans ?_
        congr 1
        rw [collectInvocation, Cardinality.batch, hk, ← hbuf, hpath]
        by_cases hbt : b = b' ∧ s = t <;> simp [invocations, LogEntry.invocation?, hbt]
      refine collects_update h hst rfl rfl ?_ (hset _) ?_ hR hfresh ?_ ?_
      · intro x t
        refine (openedBy_append _ _ x t).trans (or_iff_left ?_)
        rintro ⟨st', hst', -⟩
        cases List.mem_singleton.1 hst'
      · intro t b' hne
        rw [hlog, if_neg, List.append_nil]
        rintro ⟨rfl, rfl⟩
        exact hne ⟨rfl, rfl⟩
      · intro hr'
        have hset' := releaseState_set σ s b.id { σ.releaseState s b.id with
          buffer := (σ.releaseState s b.id).buffer ++ [tick.event], released := true } s b.id
        rw [if_pos ⟨rfl, rfl⟩] at hset'
        cases (congrArg CollectionReleaseState.released hset').symm.trans hr'
      · intro _
        rw [hlog, hinv, if_pos ⟨rfl, rfl⟩, hself]
        refine ⟨⟨k, hk, ?_⟩, rfl⟩
        rw [← hbuf]
        exact hle

/-- A binding's target is a collect step. -/
theorem target_isCollect {n : StepId} (hb : b ∈ cfg.bindingsForSource n) {c : StepConfig}
    (hc : cfg.steps.get? b.targetStep = some c) : c.collectionParam.isSome := by
  obtain ⟨c', hc', hcol⟩ := cfg.binding_target b.id b (bindingsForSource_config n b hb)
  rw [hc, Option.some.injEq] at hc'
  exact hc' ▸ hcol

/-- An event delivered to a step that no binding of its stream leads to is nothing to collection. -/
theorem collects_addRouted_of_not_target (h : Collects cfg σ R) {tick : TickAddEvent} {n : StepId}
    (hseq : ∀ s, tick.scopePath.getLast? = some s → s.seq < σ.streamSeq)
    (hn : ∀ s, tick.scopePath.getLast? = some s → ∀ b ∈ cfg.bindingsForSource s.step, b.targetStep ≠ n) :
    Collects cfg σ (addRouted tick n R) := by
  refine collects_congr h ?_ ?_
  · intro s b hb
    refine if_neg ?_
    rintro ⟨hs, hbn⟩
    exact hn s hs b hb hbn
  · intro s m hs
    rw [addRouted, if_neg, (h.fresh s hs).2 m]
    rintro ⟨hlast, -⟩
    have := hseq s hlast
    omega

theorem bindingForTarget_eq_none (hsc : Scoped cfg σ)
    (hst : σ.streams.get? s = some st) {n : StepId} (h : cfg.bindingForTarget s n σ.streams = none) :
    ∀ b ∈ cfg.bindingsForSource s.step, b.targetStep ≠ n := by
  intro b hb hbn
  have hids := (hsc.stream s st hst).2.2.2.1
  rw [BrokerConfig.bindingForTarget, hst, Option.bind_some, List.findSome?_eq_none_iff] at h
  have := h b.id (hids ▸ List.mem_map.2 ⟨b, hb, rfl⟩)
  rw [bindingsForSource_config s.step b hb, Option.filter_some, if_pos (by simpa using hbn)] at this
  cases this

/-- A member's arrival at a collect step keeps collection. -/
theorem routeMember_collects {p : StreamId → Int} (h : Collects cfg σ R) (hp : ∀ t, 0 ≤ p t) {tick : TickAddEvent}
    (hscope : ScopeOk σ.streamSeq tick.scopePath) (ha : Accounts cfg σ fun t => p t + one tick.scopePath t) {n : StepId}
    {c : StepConfig} (hc : cfg.steps.get? n = some c) :
    Collects cfg (routeMemberToCollectStep cfg c tick n now σ).state (addRouted tick n R) := by
  unfold routeMemberToCollectStep
  split
  · case h_1 hlast =>
    have hnone : Collects cfg σ (addRouted tick n R) :=
      collects_addRouted_of_not_target h (by simp [hlast]) (by simp [hlast])
    split
    · exact collects_of_same hnone (SameStreams.of_eq rfl rfl rfl rfl)
    · dsimp only
      exact collects_of_same hnone (SameStreams.report (fun _ _ => rfl) (fun _ _ h => by cases h))
  · case h_2 s hlast =>
    obtain ⟨st, hst, -⟩ := ha.isOpen (s := s) (by
      have h₁ := hp s
      have h₂ := workIn_total_nonneg cfg σ s
      rw [one, if_pos hlast]
      omega)
    have hseq : ∀ u, tick.scopePath.getLast? = some u → u.seq < σ.streamSeq := fun u hu => (hscope u hu).2
    split
    · case h_1 hnone =>
      have htarget := bindingForTarget_eq_none ha.scopes hst hnone
      have hsame : SameStreams σ (σ.report (.droppedMember tick.event n s)) :=
        SameStreams.report (fun _ _ => rfl) (fun _ _ h => by cases h)
      refine adjust_collects now (collects_of_same (collects_addRouted_of_not_target h hseq ?_) hsame)
        (ha.scopes.congr rfl rfl (fun _ => rfl) rfl) _ _
      intro u hu
      rw [hlast, Option.some.injEq] at hu
      exact hu ▸ htarget
    · case h_2 b hb =>
      exact adjust_collects now (collectMember_collects now h ha.scopes c hlast (hscope s hlast).1 hb)
        (ha.collectMember hb hc (hscope s hlast).1 now).scopes _ _

/-- A delivery to a step that is not a collect step is nothing to collection, but may close the stream. -/
theorem deliver_collects (h : Collects cfg σ R) (hsc : Scoped cfg σ) {tick : TickAddEvent} (hatt : tick.attempts = none)
    (hscope : ScopeOk σ.streamSeq tick.scopePath) {n : StepId} {c : StepConfig} (hc : cfg.steps.get? n = some c)
    (hcol : c.collectionParam.isSome = false) : Collects cfg (deliverToStep cfg c tick n now σ).1 (addRouted tick n R) := by
  have hadd : Collects cfg σ (addRouted tick n R) := by
    refine collects_addRouted_of_not_target h (fun s hs => (hscope s hs).2) ?_
    rintro s - b hb rfl
    rw [target_isCollect hb hc] at hcol
    cases hcol
  have hcons : consumeSupersededDelayedAttempt tick (σ.workers n) = σ.workers n := by
    simp [consumeSupersededDelayedAttempt, hatt]
  unfold deliverToStep
  rw [hcons]
  dsimp only
  split
  · exact collects_of_same hadd (SameStreams.of_eq rfl rfl rfl rfl)
  · case h_2 ps _ =>
    have hrec := staticCollectEvents_records tick.event c ps (σ.workers n)
    have hset : Collects cfg (σ.setWorker n (staticCollectEvents tick.event c ps (σ.workers n)).1) (addRouted tick n R) :=
      collects_of_same hadd (SameStreams.of_eq rfl rfl rfl rfl)
    split
    · exact adjust_collects now hset (hsc.setWorker_le hrec.le) _ _
    · exact collects_of_same hadd (SameStreams.of_eq rfl rfl rfl rfl)

/-- The routed events after an event was delivered to each of some steps that accept it and are targeted by it. -/
def addDelivered (t : TickAddEvent) (R : StreamId → StepId → List Event) :
    List (StepId × StepConfig) → StreamId → StepId → List Event
  | [] => R
  | q :: l => if q.2.acceptsEvent t.event && t.isTargeted q.1 then addDelivered t (addRouted t q.1 R) l
    else addDelivered t R l

/-- Routing an event keeps collection: it is delivered to every step that accepts it and is targeted by it. -/
theorem route_collects {p : StreamId → Int} (hp : ∀ t, 0 ≤ p t) {tick : TickAddEvent} (h : Collects cfg σ R)
    (hscope : ScopeOk σ.streamSeq tick.scopePath) (hatt : tick.attempts = none) {l : List (StepId × StepConfig)}
    (hl : ∀ q ∈ l, cfg.steps.get? q.1 = some q.2)
    (ha : Accounts cfg σ fun t => p t + (l.countP fun q => q.2.acceptsEvent tick.event && tick.isTargeted q.1) *
      one tick.scopePath t) (hok : (routeToAcceptingSteps cfg tick [] now l σ).failed = false) :
    Collects cfg (routeToAcceptingSteps cfg tick [] now l σ).state (addDelivered tick R l) := by
  induction l generalizing σ R with
  | nil => exact h
  | cons q l ih =>
    obtain ⟨n, c⟩ := q
    have hc := hl (n, c) List.mem_cons_self
    have hl' : ∀ q ∈ l, cfg.steps.get? q.1 = some q.2 := fun q hq => hl q (List.mem_cons_of_mem _ hq)
    rw [routeToAcceptingSteps, if_neg (by simp)] at hok ⊢
    by_cases hno : (!(c.acceptsEvent tick.event && tick.isTargeted n)) = true
    · rw [if_pos hno] at hok ⊢
      rw [List.countP_cons_of_neg fun hc' => by dsimp only at hc'; simp [hc'] at hno] at ha
      have hsame : addDelivered tick R ((n, c) :: l) = addDelivered tick R l := by
        rw [Bool.not_eq_true'] at hno
        exact if_neg (by rw [hno]; exact Bool.false_ne_true)
      rw [hsame]
      exact ih h hscope hl' ha hok
    · rw [if_neg hno] at hok ⊢
      have hadded : addDelivered tick R ((n, c) :: l) = addDelivered tick (addRouted tick n R) l := if_pos (by simpa using hno)
      rw [hadded]
      obtain ⟨hp', hsplit⟩ := ha.first_delivery hp (by simpa using hno)
      split
      · case isTrue hcol =>
        rw [if_pos hcol] at hok
        dsimp only at hok ⊢
        split
        · case isTrue hfail =>
          rw [if_pos hfail] at hok
          rw [hfail] at hok
          cases hok
        · case isFalse hfail =>
          rw [if_neg hfail] at hok
          have hseq := (routes_kept cfg now (routeMember_routes cfg now hc tick σ)).streamSeq
          exact ih (routeMember_collects now h hp' hscope hsplit hc) (by rw [hseq]; exact hscope) hl'
            (Accounts.routeMember hp' hscope hsplit hc now) hok
      · case isFalse hcol =>
        rw [if_neg hcol] at hok
        have hseq := (deliverToStep_kept cfg now c tick n σ).streamSeq
        exact ih (deliver_collects now h ha.scopes hatt hscope hc (by simpa using hcol)) (by rw [hseq]; exact hscope) hl'
          (Accounts.deliver hp' hscope hatt hsplit hc now) hok

end CollectingAux

end LlamaAgents
