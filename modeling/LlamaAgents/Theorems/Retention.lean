import LlamaAgents.Server.Retention

/-!
# The memory store retains the newest finished runs

With a cap on finished handlers the store holds exactly the newest of them, all others, and data only for runs of its handlers, as long
as the calls suit the queue that eviction follows. The queue is not cleaned when a handler is deleted or written again, and the
data of a run is dropped with an eviction only.

As long as handlers become terminal once and only the oldest finished ones are taken away, the queue of the memory store is made of
entries that no longer count, followed by the finished handlers in their order. So what falls off its front is no longer held, or is
the oldest.
-/

namespace LlamaAgents

namespace RetentionAux

open Lib (Dict)

variable {τ : Type} {s : MemoryRuns τ} {R R' : RetentionRun τ} {id runId : String} {h : PersistentHandler}

/-! ## Single calls -/

/-- The handler side of an update is that of `MemoryWorkflowStore`. -/
theorem evictOne_store (s : MemoryRuns τ) (id : String) (queue : List String) :
    (s.evictOne id queue).store = { s.store with
      terminalQueue := queue
      handlers := if (s.store.handlers.get? id).any fun h => h.status.isTerminal
        then s.store.handlers.remove fun h => h.handlerId = id else s.store.handlers } := by
  unfold MemoryRuns.evictOne MemoryRuns.handlers
  cases s.store.handlers.get? id with
  | none => rfl
  | some h =>
    dsimp only
    rw [Option.any_some]
    cases h.status.isTerminal with
    | false => rfl
    | true => cases h.runId <;> rfl

theorem evict_store (k : Nat) (s : MemoryRuns τ) : (s.evict k).store = s.store.evict k := by
  induction k generalizing s with
  | zero => rfl
  | succ k ih =>
    simp only [MemoryRuns.evict, MemoryWorkflowStore.evict]
    cases s.store.terminalQueue with
    | nil => rfl
    | cons id queue => exact (ih _).trans (congrArg _ (evictOne_store s id queue))

theorem update_store (s : MemoryRuns τ) (h : PersistentHandler) : (s.update h).store = (s.store.call (.update h)).2 := by
  unfold MemoryRuns.update MemoryWorkflowStore.call
  dsimp only
  split
  · unfold MemoryRuns.evictOldestCompleted MemoryWorkflowStore.evictOldestCompleted
    dsimp only
    cases s.store.maxCompleted with
    | none => rfl
    | some cap => exact evict_store _ _
  · rfl

/-- A run with a handler. -/
theorem hasHandlerOf_iff : s.hasHandlerOf runId = true ↔ ∃ id h, s.handlers.get? id = some h ∧ h.runId = some runId := by
  unfold MemoryRuns.hasHandlerOf
  rw [List.any_eq_true]
  constructor
  · rintro ⟨h, hmem, hrun⟩
    obtain ⟨e, he, rfl⟩ := List.mem_map.1 hmem
    exact ⟨e.1, e.2, (Dict.get?_eq_some_iff _ _ _).2 he, of_decide_eq_true hrun⟩
  · rintro ⟨id, h, hget, hrun⟩
    exact ⟨h, List.mem_map.2 ⟨(id, h), (Dict.get?_eq_some_iff _ _ _).1 hget, rfl⟩, decide_eq_true hrun⟩

theorem get?_remove (T : HandlerTable) (id k : String) :
    (T.remove fun h => h.handlerId = id).get? k = if k = id then none else T.get? k := by
  rw [HandlerTable.get?, HandlerTable.remove, Dict.get?_filter]
  cases hget : T.rows.get? k with
  | none =>
    rw [HandlerTable.get?, hget]
    split <;> rfl
  | some h =>
    have hkey : h.handlerId = k := T.keyed hget
    rw [HandlerTable.get?, hget]
    by_cases hk : k = id
    · rw [if_pos hk, Option.filter_some, hkey, hk]
      simp
    · rw [if_neg hk, Option.filter_some, hkey]
      simp [hk]

/-- Nothing is left of a run that is dropped. -/
theorem holdsRun_dropRun {old : String} (h : (s.dropRun old).holdsRun runId = true) : s.holdsRun runId = true ∧ some old ≠ some runId := by
  unfold MemoryRuns.holdsRun MemoryRuns.dropRun Dict.contains at h
  simp only [Dict.get?_erase, Bool.or_eq_true, List.any_eq_true, List.mem_filter, decide_eq_true_eq, Option.isSome_iff_exists] at h
  unfold MemoryRuns.holdsRun Dict.contains
  simp only [Bool.or_eq_true, List.any_eq_true, decide_eq_true_eq, Option.isSome_iff_exists]
  by_cases hsame : old = runId
  · simp only [hsame, if_true, reduceCtorEq, exists_false, false_or] at h
    obtain ⟨key, ⟨-, hne⟩, heq⟩ := h
    exact absurd heq hne
  · simp only [hsame, if_false] at h
    exact ⟨h.imp_right fun ⟨key, ⟨hmem, _⟩, heq⟩ => ⟨key, hmem, heq⟩, fun heq => hsame (Option.some.inj heq)⟩

/-- What an entry of the queue that is terminal takes with it. -/
theorem evictOne_terminal (hget : s.handlers.get? id = some h) (hterminal : h.status.isTerminal = true) (queue : List String) :
    (s.evictOne id queue).handlers = (s.handlers.remove fun h => h.handlerId = id) ∧
      (s.evictOne id queue).store.terminalQueue = queue ∧
      (s.evictOne id queue).store.maxCompleted = s.store.maxCompleted ∧
      ∀ runId, (s.evictOne id queue).holdsRun runId = true → s.holdsRun runId = true ∧ h.runId ≠ some runId := by
  unfold MemoryRuns.evictOne
  rw [hget]
  simp only [hterminal, Bool.not_true, Bool.false_eq_true, if_false]
  cases hrun : h.runId with
  | none => exact ⟨rfl, rfl, rfl, fun runId hholds => ⟨hholds, nofun⟩⟩
  | some old =>
    refine ⟨rfl, rfl, rfl, fun runId hholds => ?_⟩
    exact holdsRun_dropRun hholds

/-- An entry of the queue that is not terminal is only taken away. -/
theorem evictOne_skip (hskip : (s.handlers.get? id).any (fun h => h.status.isTerminal) = false) (queue : List String) :
    s.evictOne id queue = { s with store := { s.store with terminalQueue := queue } } := by
  unfold MemoryRuns.evictOne
  cases hget : s.handlers.get? id with
  | none => rfl
  | some h =>
    rw [hget, Option.any_some] at hskip
    simp only [hskip, Bool.not_false, if_true]

/-! ## What a run keeps -/

/-- The store retains what it should, and its queue is made of entries that do not count, and then of the finished handlers. -/
structure Ordered (R : RetentionRun τ) : Prop where
  retains : R.Retains
  nodup : R.finalized.Nodup
  queue : ∃ stale, R.memory.store.terminalQueue = stale ++ R.finalized ∧ ∀ id ∈ stale, id ∉ R.finalized

/-- And the queue is within the cap. -/
structure Queued (R : RetentionRun τ) : Prop extends Ordered R where
  cap : ∀ cap, R.memory.store.maxCompleted = some cap → R.memory.store.terminalQueue.length ≤ cap

/-- When the oldest finished handlers go, their entries do not count any more. -/
theorem Ordered.queue_of_suffix (hq : Ordered R) {kept : List String} (hsuffix : kept <:+ R.finalized) :
    ∃ stale, R.memory.store.terminalQueue = stale ++ kept ∧ ∀ id ∈ stale, id ∉ kept := by
  obtain ⟨gone, hgone⟩ := hsuffix
  obtain ⟨stale, hqueue, hstale⟩ := hq.queue
  have hnodup := hq.nodup
  rw [← hgone] at hnodup hqueue hstale
  refine ⟨stale ++ gone, by rw [hqueue, List.append_assoc], fun id hid => ?_⟩
  rcases List.mem_append.1 hid with hid | hid
  · exact fun hkept => hstale id hid (List.mem_append_right _ hkept)
  · exact fun hkept => List.disjoint_of_nodup_append hnodup hid hkept

/-- The store after the write of a handler, before anything is evicted. -/
def written (s : MemoryRuns τ) (h : PersistentHandler) (queue : List String) : MemoryRuns τ :=
  { s with store := { s.store with handlers := s.handlers.update h, terminalQueue := queue } }

/-- What is written replaces the row of its handler. -/
theorem get?_written (queue : List String) (k : String) :
    (written s h queue).handlers.get? k = if h.handlerId = k then some h else s.handlers.get? k :=
  HandlerTable.get?_update _ _ _

/-- The data of runs still belongs to handlers when the row that was replaced had the same run, or a run without data. -/
theorem runs_written (hq : Ordered R) (queue : List String)
    (hrun : ((R.memory.handlers.get? h.handlerId).all fun old =>
      old.runId = h.runId || old.runId.all fun runId => !R.memory.holdsRun runId) = true)
    (hholds : (written R.memory h queue).holdsRun runId = true) : (written R.memory h queue).hasHandlerOf runId = true := by
  obtain ⟨id, old, hget, hold⟩ := hasHandlerOf_iff.1 (hq.retains.runs runId hholds)
  rw [hasHandlerOf_iff]
  by_cases hid : h.handlerId = id
  · subst hid
    rw [hget, Option.all_some, Bool.or_eq_true, decide_eq_true_eq, hold, Option.all_some] at hrun
    rcases hrun with hsame | hnone
    · exact ⟨_, h, (get?_written _ _).trans (if_pos rfl), hsame.symm⟩
    · rw [show R.memory.holdsRun runId = true from hholds] at hnone
      cases hnone
  · exact ⟨id, old, (get?_written _ _).trans ((if_neg hid).trans hget), hold⟩

/-- The write of a handler that is not terminal. -/
theorem update_active (hq : Queued R) (hrunning : h.status.isTerminal = false) (hsuits : R.suitsQueue (.update h) = true)
    (hstep : R.step (.update h) = some R') : Queued R' := by
  obtain ⟨hsuffix, hrun⟩ := Bool.and_eq_true_iff.1 hsuits
  rw [hrunning, if_neg Bool.false_ne_true, RetentionRun.finalizedAfter, hrunning, if_neg Bool.false_ne_true,
    List.isSuffixOf_iff_suffix] at hsuffix
  have hmemory : R.memory.call (.update h) = written R.memory h R.memory.store.terminalQueue := by
    rw [MemoryRuns.call, MemoryRuns.update, hrunning]
    rfl
  rw [RetentionRun.step, RetentionRun.finalizedAfter, RetentionRun.activeAfter, hmemory, hrunning, if_neg Bool.false_ne_true,
    if_neg Bool.false_ne_true] at hstep
  cases hstep
  refine ⟨⟨⟨fun id => ?_, fun id h' => ?_, fun runId hholds => runs_written hq.toOrdered _ hrun hholds⟩,
    hq.nodup.filter _, hq.queue_of_suffix hsuffix⟩, hq.cap⟩
  · rw [get?_written, List.mem_filter]
    by_cases hid : h.handlerId = id
    · simp [hid, hrunning]
    · simpa [hid, Ne.symm hid] using hq.retains.terminal id
  · rw [get?_written, Dict.get?_set]
    by_cases hid : h.handlerId = id
    · rw [if_pos hid, if_pos hid]
      refine ⟨fun hsame => hsame.1, fun hsame => ⟨hsame, ?_⟩⟩
      cases hsame
      exact hrunning
    · rw [if_neg hid, if_neg hid]
      exact hq.retains.active id h'

/-- The store after the write of a handler that becomes terminal, before anything is evicted. -/
theorem finalized_ordered (hq : Ordered R) (hterminal : h.status.isTerminal = true)
    (hnew : h.handlerId ∉ R.memory.store.terminalQueue)
    (hrun : ((R.memory.handlers.get? h.handlerId).all fun old =>
      old.runId = h.runId || old.runId.all fun runId => !R.memory.holdsRun runId) = true) :
    Ordered { memory := written R.memory h (R.memory.store.terminalQueue ++ [h.handlerId]),
              finalized := R.finalized ++ [h.handlerId], active := R.active.erase h.handlerId } := by
  obtain ⟨stale, hqueue, hstale⟩ := hq.queue
  rw [hqueue, List.mem_append, not_or] at hnew
  refine ⟨⟨fun id => ?_, fun id h' => ?_, fun runId hholds => runs_written hq _ hrun hholds⟩, ?_, stale, ?_, fun id hid => ?_⟩
  · rw [get?_written, List.mem_append, List.mem_singleton]
    by_cases hid : h.handlerId = id
    · simp [hid, hterminal]
    · simpa [hid, Ne.symm hid] using hq.retains.terminal id
  · rw [get?_written, Dict.get?_erase]
    by_cases hid : h.handlerId = id
    · rw [if_pos hid, if_pos hid]
      refine ⟨fun ⟨hsame, hrunning⟩ => ?_, nofun⟩
      cases hsame
      cases hterminal.symm.trans hrunning
    · rw [if_neg hid, if_neg hid]
      exact hq.retains.active id h'
  · exact List.nodup_append.2 ⟨hq.nodup, List.nodup_singleton _, fun a ha b hb => by
      rw [List.mem_singleton.1 hb]
      exact fun heq => hnew.2 (heq ▸ ha)⟩
  · change R.memory.store.terminalQueue ++ [h.handlerId] = stale ++ (R.finalized ++ [h.handlerId])
    rw [hqueue, List.append_assoc]
  · rw [List.mem_append, List.mem_singleton, not_or]
    exact ⟨hstale id hid, fun heq => hnew.1 (heq ▸ hid)⟩

/-- The eviction of one entry from a queue that is one too long. -/
theorem evicted_queued (hq : Ordered R) {cap : Nat} (hcap : R.memory.store.maxCompleted = some cap)
    (hlong : R.memory.store.terminalQueue.length = cap + 1) :
    Queued { memory := R.memory.evict 1, finalized := R.finalized.rtake cap, active := R.active } := by
  obtain ⟨stale, hqueue, hstale⟩ := hq.queue
  cases stale with
  | cons first stale =>
    -- An entry that does not count goes, and all finished handlers stay.
    have hskip : (R.memory.handlers.get? first).any (fun h => h.status.isTerminal) = false :=
      Bool.eq_false_iff.2 fun h => hstale first List.mem_cons_self ((hq.retains.terminal first).1 h)
    have hevict : R.memory.evict 1 = { R.memory with store := { R.memory.store with terminalQueue := stale ++ R.finalized } } := by
      rw [MemoryRuns.evict, hqueue]
      exact evictOne_skip hskip _
    have hfits : R.finalized.length ≤ cap := by
      rw [hqueue, List.cons_append, List.length_cons, List.length_append] at hlong
      omega
    rw [hevict, List.rtake, Nat.sub_eq_zero_of_le hfits, List.drop_zero]
    refine ⟨⟨⟨hq.retains.terminal, hq.retains.active, hq.retains.runs⟩, hq.nodup, stale, rfl, fun id hid =>
      hstale id (List.mem_cons_of_mem _ hid)⟩, fun c hc => ?_⟩
    cases hcap.symm.trans hc
    rw [hqueue, List.cons_append, List.length_cons] at hlong
    exact Nat.le_of_succ_le_succ (Nat.le_of_eq hlong)
  | nil =>
    rw [List.nil_append] at hqueue
    cases hfinalized : R.finalized with
    | nil => rw [hqueue, hfinalized] at hlong; cases hlong
    | cons oldest rest =>
      -- The oldest finished handler goes, with the data of its run.
      have hnodup := hq.nodup
      rw [hfinalized] at hnodup
      obtain ⟨hnotMem, hrest⟩ := List.nodup_cons.1 hnodup
      obtain ⟨h, hget, hterminal⟩ := (Option.any_eq_true _ _).1
        ((hq.retains.terminal oldest).2 (hfinalized ▸ List.mem_cons_self))
      obtain ⟨hhandlers, hleft, hsameCap, hholds⟩ := evictOne_terminal hget hterminal rest
      have hevict : R.memory.evict 1 = R.memory.evictOne oldest rest := by
        rw [MemoryRuns.evict, hqueue, hfinalized]
        rfl
      have hkeeps : (oldest :: rest).rtake cap = rest := by
        have hlength : (oldest :: rest).length = cap + 1 := by rw [← hfinalized, ← hqueue, hlong]
        rw [List.rtake, hlength, Nat.add_sub_cancel_left, List.drop_one, List.tail_cons]
      have hgets : ∀ id, (R.memory.evictOne oldest rest).handlers.get? id = if id = oldest then none else R.memory.handlers.get? id := by
        intro id
        rw [hhandlers, get?_remove]
      rw [hevict, hkeeps]
      refine ⟨⟨⟨fun id => ?_, fun id h' => ?_, fun runId hhold => ?_⟩, hrest, [], hleft, List.forall_mem_nil _⟩, fun c hc => ?_⟩
      · rw [hgets]
        by_cases hid : id = oldest
        · rw [if_pos hid, hid]
          exact ⟨nofun, fun hmem => (hnotMem hmem).elim⟩
        · rw [if_neg hid, hq.retains.terminal id, hfinalized, List.mem_cons]
          exact or_iff_right hid
      · rw [hgets]
        by_cases hid : id = oldest
        · rw [if_pos hid, ← hq.retains.active id h', hid, hget]
          refine ⟨nofun, fun ⟨hsame, hrunning⟩ => ?_⟩
          cases hsame
          cases hterminal.symm.trans hrunning
        · rw [if_neg hid]
          exact hq.retains.active id h'
      · obtain ⟨hbefore, hother⟩ := hholds runId hhold
        obtain ⟨id, kept, hkept, hrun⟩ := hasHandlerOf_iff.1 (hq.retains.runs runId hbefore)
        have hid : id ≠ oldest := by
          rintro rfl
          cases hget.symm.trans hkept
          exact hother hrun
        exact hasHandlerOf_iff.2 ⟨id, kept, (hgets id).trans ((if_neg hid).trans hkept), hrun⟩
      · change (R.memory.evictOne oldest rest).store.maxCompleted = some c at hc
        cases hcap.symm.trans (hsameCap.symm.trans hc)
        change (R.memory.evictOne oldest rest).store.terminalQueue.length ≤ cap
        rw [hqueue, hfinalized, List.length_cons] at hlong
        rw [hleft]
        exact Nat.le_of_succ_le_succ (Nat.le_of_eq hlong)

/-- The write of a handler that is terminal. -/
theorem update_terminal (hq : Queued R) (hterminal : h.status.isTerminal = true) (hsuits : R.suitsQueue (.update h) = true)
    (hstep : R.step (.update h) = some R') : Queued R' := by
  obtain ⟨hfresh, hrun⟩ := Bool.and_eq_true_iff.1 hsuits
  rw [if_pos hterminal, Bool.not_eq_true', List.contains_eq_mem, decide_eq_false_iff_not] at hfresh
  have hordered := finalized_ordered hq.toOrdered hterminal hfresh hrun
  have hnew : R.finalized.contains h.handlerId = false := by
    rw [List.contains_eq_mem, decide_eq_false_iff_not]
    obtain ⟨stale, hqueue, -⟩ := hq.queue
    exact fun hmem => hfresh (hqueue ▸ List.mem_append_right _ hmem)
  have hmemory : R.memory.call (.update h) =
      (written R.memory h (R.memory.store.terminalQueue ++ [h.handlerId])).evictOldestCompleted := by
    rw [MemoryRuns.call, MemoryRuns.update, if_pos hterminal]
    rfl
  rw [RetentionRun.step, RetentionRun.finalizedAfter, RetentionRun.activeAfter, hmemory, if_pos hterminal, if_pos hterminal, hnew,
    if_neg Bool.false_ne_true, RetentionRun.newest] at hstep
  cases hcap : R.memory.store.maxCompleted with
  | none =>
    have hevict : (written R.memory h (R.memory.store.terminalQueue ++ [h.handlerId])).evictOldestCompleted =
        written R.memory h (R.memory.store.terminalQueue ++ [h.handlerId]) := by
      unfold MemoryRuns.evictOldestCompleted written
      rw [hcap]
    rw [hevict, hcap] at hstep
    cases hstep
    exact ⟨hordered, fun c hc => by cases hcap.symm.trans hc⟩
  | some cap =>
    have hevict : (written R.memory h (R.memory.store.terminalQueue ++ [h.handlerId])).evictOldestCompleted =
        (written R.memory h (R.memory.store.terminalQueue ++ [h.handlerId])).evict
          ((R.memory.store.terminalQueue ++ [h.handlerId]).length - cap) := by
      unfold MemoryRuns.evictOldestCompleted written
      rw [hcap]
    have hwithin := hq.cap cap hcap
    rw [hevict, hcap] at hstep
    dsimp only at hstep
    have hlength : (R.memory.store.terminalQueue ++ [h.handlerId]).length = R.memory.store.terminalQueue.length + 1 :=
      List.length_append
    rcases Nat.lt_or_eq_of_le hwithin with hshort | hfull
    · have hkeeps : (R.finalized ++ [h.handlerId]).rtake cap = R.finalized ++ [h.handlerId] := by
        obtain ⟨stale, hqueue, -⟩ := hq.queue
        have hfits : (R.finalized ++ [h.handlerId]).length ≤ cap := by
          rw [hqueue, List.length_append] at hshort
          rw [List.length_append, List.length_singleton]
          omega
        rw [List.rtake, Nat.sub_eq_zero_of_le hfits, List.drop_zero]
      have hnone : (R.memory.store.terminalQueue ++ [h.handlerId]).length - cap = 0 := by omega
      rw [hnone, MemoryRuns.evict, hkeeps] at hstep
      cases hstep
      refine ⟨hordered, fun c hc => ?_⟩
      cases hcap.symm.trans hc
      exact hlength.le.trans hshort
    · have hone : (R.memory.store.terminalQueue ++ [h.handlerId]).length - cap = 1 := by omega
      rw [hone] at hstep
      cases hstep
      exact evicted_queued hordered hcap (hlength.trans (by rw [hfull]))

/-- A delete. -/
theorem delete_queued {q : HandlerQuery} (hq : Queued R) (hsuits : R.suitsQueue (.delete q) = true)
    (hstep : R.step (.delete q) = some R') : Queued R' := by
  obtain ⟨hsuffix, hruns⟩ := Bool.and_eq_true_iff.1 hsuits
  rw [List.isSuffixOf_iff_suffix] at hsuffix
  cases hstep
  have hgets : ∀ id, (R.memory.call (.delete q)).handlers.get? id = (R.memory.handlers.get? id).filter fun h => !q.accepts h :=
    fun id => HandlerTable.get?_delete _ _ _
  refine ⟨⟨⟨fun id => ?_, fun id h' => ?_, fun runId hholds => ?_⟩, hq.nodup.filter _, hq.queue_of_suffix hsuffix⟩, hq.cap⟩
  · rw [hgets]
    change _ ↔ id ∈ R.finalized.filter _
    rw [List.mem_filter, ← hq.retains.terminal id]
    cases R.memory.handlers.get? id with
    | none => simp
    | some h => cases haccepts : q.accepts h <;> simp [Option.filter_some, haccepts]
  · rw [hgets]
    change _ ↔ (R.active.filter fun _ h => !q.accepts h).get? id = some h'
    rw [Dict.get?_filter, Option.filter_eq_some_iff, Option.filter_eq_some_iff, ← hq.retains.active id h']
    exact and_right_comm
  · obtain ⟨id, h, hget, hrun⟩ := hasHandlerOf_iff.1 (hq.retains.runs runId hholds)
    -- A handler that is deleted has no run with data, so it is not this one.
    have hkept : q.accepts h = false := by
      refine Bool.eq_false_iff.2 fun haccepts => ?_
      have hmem : h ∈ R.memory.handlers.query q := by
        refine (HandlerTable.mem_query _).2 ⟨?_, haccepts⟩
        rw [R.memory.handlers.keyed hget]
        exact hget
      have hnone := List.all_eq_true.1 hruns h hmem
      rw [hrun, Option.all_some, show R.memory.holdsRun runId = true from hholds] at hnone
      cases hnone
    refine hasHandlerOf_iff.2 ⟨id, h, ?_, hrun⟩
    rw [hgets, hget, Option.filter_some, hkept]
    rfl

/-- What is added to the data of a run with a handler. -/
theorem Queued.added (hq : Queued R) (hhas : R.memory.hasHandlerOf runId = true) {memory : MemoryRuns τ}
    (hstore : memory.store = R.memory.store)
    (hholds : ∀ other, memory.holdsRun other = true → other = runId ∨ R.memory.holdsRun other = true) :
    Queued { R with memory := memory } := by
  have hhandlers : memory.handlers = R.memory.handlers := congrArg MemoryWorkflowStore.handlers hstore
  refine ⟨⟨⟨fun id => ?_, fun id h => ?_, fun other hother => ?_⟩, hq.nodup, ?_⟩, fun cap hcap => ?_⟩
  · rw [hhandlers]
    exact hq.retains.terminal id
  · rw [hhandlers]
    exact hq.retains.active id h
  · rw [MemoryRuns.hasHandlerOf, hhandlers]
    rcases hholds other hother with rfl | hbefore
    · exact hhas
    · exact hq.retains.runs other hbefore
  · rw [hstore]
    exact hq.queue
  · rw [hstore] at hcap ⊢
    exact hq.cap cap hcap

theorem contains_of_set {ν : Type} {d : Dict String ν} {k x : String} {v : ν} (h : (d.set k v).contains x = true) :
    x = k ∨ d.contains x = true := by
  rw [Dict.contains, Dict.get?_set] at h
  split at h
  · case _ heq => exact Or.inl heq.symm
  · exact Or.inr h

/-- Every call that suits the queue. -/
theorem step_queued {op : MemoryOp τ} (hq : Queued R) (hsuits : R.suitsQueue op = true) (hstep : R.step op = some R') : Queued R' := by
  cases op with
  | update h =>
    cases hterminal : h.status.isTerminal with
    | false => exact update_active hq hterminal hsuits hstep
    | true => exact update_terminal hq hterminal hsuits hstep
  | delete q => exact delete_queued hq hsuits hstep
  | appendEvent runId event =>
    cases hstep
    refine hq.added hsuits rfl fun other hother => ?_
    simp only [MemoryRuns.holdsRun, Bool.or_eq_true, or_assoc] at hother ⊢
    rcases hother with hevents | hrest
    · exact (contains_of_set hevents).imp_right Or.inl
    · exact Or.inr (Or.inr hrest)
  | appendTick runId tickData =>
    cases hstep
    refine hq.added hsuits rfl fun other hother => ?_
    simp only [MemoryRuns.holdsRun, Bool.or_eq_true, or_assoc] at hother ⊢
    rcases hother with hevents | hticks | hstores
    · exact Or.inr (Or.inl hevents)
    · exact (contains_of_set hticks).imp_right fun hticks => Or.inr (Or.inl hticks)
    · exact Or.inr (Or.inr (Or.inr hstores))
  | createStateStore runId namespaces =>
    cases hstep
    rw [MemoryRuns.call]
    split
    · exact hq
    · refine hq.added hsuits rfl fun other hother => ?_
      simp only [MemoryRuns.holdsRun, Bool.or_eq_true, or_assoc, List.any_append, List.any_cons, List.any_nil, Bool.or_false,
        decide_eq_true_eq] at hother ⊢
      rcases hother with hevents | hticks | hstores | heq
      · exact Or.inr (Or.inl hevents)
      · exact Or.inr (Or.inr (Or.inl hticks))
      · exact Or.inr (Or.inr (Or.inr hstores))
      · exact Or.inl heq.symm

/-- No call changes the cap. -/
theorem call_maxCompleted (s : MemoryRuns τ) (op : MemoryOp τ) : (s.call op).store.maxCompleted = s.store.maxCompleted := by
  have hevict : ∀ k (store : MemoryWorkflowStore), (store.evict k).maxCompleted = store.maxCompleted := by
    intro k
    induction k with
    | zero => exact fun _ => rfl
    | succ k ih =>
      intro store
      rw [MemoryWorkflowStore.evict]
      split
      · rfl
      · exact ih _
  cases op with
  | update h =>
    rw [MemoryRuns.call, update_store, MemoryWorkflowStore.call]
    dsimp only
    split
    · rw [MemoryWorkflowStore.evictOldestCompleted]
      split
      · rfl
      · exact hevict _ _
    · rfl
  | createStateStore runId namespaces =>
    rw [MemoryRuns.call]
    split <;> rfl
  | _ => rfl

end RetentionAux

/-- After every sequence of calls that suit the queue, the terminal handlers held are the newest that were finished and not deleted, at
most as many as the cap allows, the other handlers are those that were written and not deleted, and data is held for runs of handlers
only. -/
theorem memory_retains_newest {τ : Type} {cap : Option Nat} {R : RetentionRun τ}
    (hrun : Lib.Run RetentionRun.step (fun R op => R.suitsQueue op = true) (.new cap) R) :
    R.Retains ∧ ∀ n, cap = some n → R.finalized.length ≤ n := by
  have hnew : RetentionAux.Queued (.new cap : RetentionRun τ) := by
    refine ⟨⟨⟨fun _ => ⟨nofun, nofun⟩, fun _ _ => ⟨fun h => ?_, nofun⟩, nofun⟩, List.nodup_nil, [], rfl, List.forall_mem_nil _⟩,
      fun _ _ => Nat.zero_le _⟩
    cases h.1
  obtain ⟨hqueued, hcap⟩ : RetentionAux.Queued R ∧ R.memory.store.maxCompleted = cap := by
    refine hrun.invariant (fun R => RetentionAux.Queued R ∧ R.memory.store.maxCompleted = cap) ⟨hnew, rfl⟩ ?_
    intro R op R' ⟨hqueued, hcap⟩ hsuits hstep
    refine ⟨RetentionAux.step_queued hqueued hsuits hstep, ?_⟩
    cases hstep
    exact (RetentionAux.call_maxCompleted _ _).trans hcap
  refine ⟨hqueued.retains, fun n hn => ?_⟩
  obtain ⟨stale, hqueue, -⟩ := hqueued.queue
  have hwithin := hqueued.cap n (hcap.trans hn)
  rw [hqueue, List.length_append] at hwithin
  exact Nat.le_of_add_left_le hwithin

namespace Forgotten

/-- The row of a handler whose run has the same name. -/
def row (id : String) (status : Status) : PersistentHandler :=
  { handlerId := id, workflowName := "w", status := status, runId := some id }

/-- An event of a run. -/
def done : Event := ⟨.stopEvent, []⟩

/-- A run that starts and completes. -/
def completes (id : String) : List (MemoryOp Unit) := [.update (row id .running), .update (row id .completed)]

/-- Whether a finished handler is not held that should be. -/
def loses (id : String) (R : RetentionRun Unit) : Bool := R.finalized.contains id && !(R.memory.handlers.get? id).isSome

/-- Whether data of a run is held without a handler. -/
def orphans (runId : String) (R : RetentionRun Unit) : Bool := R.memory.holdsRun runId && !R.memory.hasHandlerOf runId

theorem loses_sound {id : String} {R : RetentionRun Unit} (h : loses id R = true) : ¬ R.Retains := by
  intro hretains
  obtain ⟨hmem, hgone⟩ := Bool.and_eq_true_iff.1 h
  obtain ⟨held, hheld, -⟩ := (Option.any_eq_true _ _).1 ((hretains.terminal id).2 (List.contains_iff_mem.1 hmem))
  rw [hheld] at hgone
  cases hgone

theorem orphans_sound {runId : String} {R : RetentionRun Unit} (h : orphans runId R = true) : ¬ R.Retains := by
  intro hretains
  obtain ⟨hholds, hnone⟩ := Bool.and_eq_true_iff.1 h
  rw [hretains.runs runId hholds] at hnone
  cases hnone

/-- A run to a state that a test finds at fault. -/
theorem exists_forgotten {cap : Nat} {test : RetentionRun Unit → Bool} (ops : List (MemoryOp Unit))
    (hsound : ∀ R, test R = true → ¬ R.Retains)
    (h : (Lib.exec RetentionRun.step (fun _ _ => true) (.new (some cap)) ops).any test = true) :
    ∃ R : RetentionRun Unit, Lib.Run RetentionRun.step (fun _ _ => True) (.new (some cap)) R ∧ test R = true ∧ ¬ R.Retains := by
  obtain ⟨R, hrun, htest⟩ := Lib.Run.exists_of_actions RetentionRun.step (.new (some cap)) ops (test ·) (by simpa using h)
  exact ⟨R, hrun, htest, hsound R htest⟩

end Forgotten

open Forgotten in
/-- A terminal handler that is written once more is evicted as if it were the oldest, and so is one when a newer one was deleted before
the next is finished. A delete leaves the events of the run, and so does the terminal event of a run that is appended when other runs
have been finished since its status was written. -/
theorem memory_retains_newest_false :
    (∃ R : RetentionRun Unit, Lib.Run RetentionRun.step (fun _ _ => True) (.new (some 1)) R ∧ loses "a" R = true ∧ ¬ R.Retains) ∧
    (∃ R : RetentionRun Unit, Lib.Run RetentionRun.step (fun _ _ => True) (.new (some 2)) R ∧ loses "a" R = true ∧ ¬ R.Retains) ∧
    (∃ R : RetentionRun Unit, Lib.Run RetentionRun.step (fun _ _ => True) (.new (some 2)) R ∧ orphans "a" R = true ∧ ¬ R.Retains) ∧
    ∃ R : RetentionRun Unit, Lib.Run RetentionRun.step (fun _ _ => True) (.new (some 1)) R ∧ orphans "a" R = true ∧ ¬ R.Retains := by
  refine ⟨exists_forgotten (completes "a" ++ [.update (row "a" .completed)]) (fun _ => loses_sound) (by decide +kernel),
    exists_forgotten (completes "a" ++ completes "b" ++ [.delete { handlerIdIn := some ["b"] }] ++ completes "c")
      (fun _ => loses_sound) (by decide +kernel),
    exists_forgotten ([.update (row "a" .running), .appendEvent "a" done, .delete { handlerIdIn := some ["a"] }])
      (fun _ => orphans_sound) (by decide +kernel),
    exists_forgotten (completes "a" ++ completes "b" ++ [.appendEvent "a" done]) (fun _ => orphans_sound) (by decide +kernel)⟩

open Forgotten in
/-- Of two runs that complete with events, the second one is held with its events. -/
theorem memory_retains_newest_second :
    ∃ R : RetentionRun Unit, R.finalized = ["b"] ∧ R.memory.holdsRun "a" = false ∧ R.memory.holdsRun "b" = true ∧ R.Retains := by
  obtain ⟨R, hrun, hfinalized, hgone, hheld⟩ := Lib.Run.exists_of_exec RetentionRun.step (fun R op => R.suitsQueue op)
    (.new (some 1) : RetentionRun Unit)
    [.update (row "a" .running), .appendEvent "a" done, .update (row "a" .completed), .update (row "b" .running),
      .appendEvent "b" done, .update (row "b" .completed)]
    (fun R => R.finalized = ["b"] ∧ R.memory.holdsRun "a" = false ∧ R.memory.holdsRun "b" = true) (by decide +kernel)
  exact ⟨R, hfinalized, hgone, hheld, (memory_retains_newest hrun).1⟩

end LlamaAgents
