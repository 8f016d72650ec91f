import LlamaAgents.Lemmas.StepResult

/-!
# The books after a result

Each way a plain execution can end keeps the books: what it takes off a stream's counter and what it leaves pending balance.
-/

namespace LlamaAgents

open Lib (Dict)

/-- The state of a run whose steps only return or raise, with `p` work pending for each stream. -/
structure PlainState (cfg : BrokerConfig) (σ : BrokerState) (p : StreamId → Int) : Prop where
  accounts : Accounts cfg σ p
  /-- Every open stream has work. -/
  positive : ∀ s st, σ.streams.get? s = some st → 0 < st.openWorkItems
  /-- No step waits. -/
  waiters : ∀ n, (σ.workers n).collectedWaiters = []

namespace ResultAux

open AccountingAux CommandsAux StepResultAux

variable {cfg : BrokerConfig} (now : Time)

/-! ## Deliveries -/

/-- An event without a target is delivered to every step that accepts its type. -/
theorem deliveries_untargeted (t : TickAddEvent) (ht : t.stepId = none) :
    t.deliveries cfg = countAcceptingSteps cfg t.event.type := by
  rw [TickAddEvent.deliveries, countAcceptingSteps, Dict.values, List.countP_map]
  refine List.countP_congr fun p _ => ?_
  simp [TickAddEvent.isTargeted, ht, StepConfig.acceptsEvent_eq]

/-- A targeted event that its step accepts is delivered once. -/
theorem deliveries_targeted {t : TickAddEvent} {n : StepId} (ht : t.stepId = some n) {c : StepConfig}
    (hc : cfg.steps.get? n = some c) (ha : c.acceptsEvent t.event) : t.deliveries cfg = 1 := by
  have hmem := (cfg.steps.get?_eq_some_iff n c).1 hc
  have hkeys : cfg.steps.entries.countP (fun p => p.1 = n) = 1 := by
    have h := List.count_eq_one_of_mem cfg.steps.nodup (List.mem_map.2 ⟨(n, c), hmem, rfl⟩)
    rw [List.count, List.countP_map] at h
    rw [← h]
    exact List.countP_congr fun p _ => by simp
  rw [TickAddEvent.deliveries, ← hkeys]
  refine List.countP_congr fun p hp => ?_
  simp only [TickAddEvent.isTargeted, ht, Option.all_some, Bool.and_eq_true, decide_eq_true_eq]
  refine ⟨fun h => h.2.symm, fun h => ⟨?_, h.symm⟩⟩
  have := (cfg.steps.get?_eq_some_iff p.1 p.2).2 hp
  rw [h, hc, Option.some.injEq] at this
  exact this ▸ ha

theorem pendingIn_append (l l' : List WorkflowTick) (s : StreamId) :
    pendingIn cfg (l ++ l') s = pendingIn cfg l s + pendingIn cfg l' s := by
  simp [pendingIn]

theorem pendingIn_cons (t : WorkflowTick) (l : List WorkflowTick) (s : StreamId) :
    pendingIn cfg (t :: l) s = t.pendingIn cfg s + pendingIn cfg l s := by
  simp [pendingIn]

@[simp] theorem pendingIn_nil (s : StreamId) : pendingIn cfg [] s = 0 := rfl

theorem pendingIn_tick_nonneg (t : WorkflowTick) (s : StreamId) : 0 ≤ t.pendingIn cfg s := by
  unfold WorkflowTick.pendingIn
  split
  · split <;> omega
  · rfl

theorem pendingIn_nonneg (l : List WorkflowTick) (s : StreamId) : 0 ≤ pendingIn cfg l s := by
  induction l with
  | nil => rfl
  | cons t l ih =>
    rw [pendingIn_cons]
    have : 0 ≤ t.pendingIn cfg s := pendingIn_tick_nonneg t s
    omega

/-- Emitted events are pending as many times as steps accept them. -/
theorem pendingIn_emitted (scope : ScopePath) (x : InProgressState) (es : List (Option Event)) (s : StreamId) :
    pendingIn cfg ((returnedEvents es).map (emittedTick scope x)) s = successors cfg es * one scope s := by
  rw [successors]
  generalize returnedEvents es = l
  induction l with
  | nil => simp
  | cons e l ih =>
    rw [List.map_cons, pendingIn_cons, ih, List.map_cons, List.sum_cons, Nat.cast_add, add_mul, emittedTick,
      WorkflowTick.pendingIn, deliveries_untargeted _ rfl, one]
    split <;> simp

/-! ## The end of an execution -/

section End

variable {σ : BrokerState} {p : StreamId → Int} {n : StepId} {c : StepConfig} {x : InProgressState} {id : Nat}

theorem workerId_of_execution {w : InternalStepWorkerState} (h : w.execution? id = some x) : x.workerId = id := by
  simpa using List.find?_some h

/-- A work item that leaves a step is pending until it is accounted for. -/
theorem erase_accounts (h : Accounts cfg σ p) (hn : cfg.steps.get? n = some c) {w : InternalStepWorkerState} {r : WorkRecord}
    (hw : (σ.workers n).records = r ::ₘ w.records) : Accounts cfg (σ.setWorker n w) fun t => p t + one r.scopePath t where
  scopes := h.scopes.setWorker_le (hw ▸ Multiset.le_cons_self _ _)
  balance t := by
    have h₁ := workIn_setWorker hn σ w t
    have h₂ := workIn_cons hw t
    have h₃ := h.balance t
    rw [setWorker_counter, setWorker_childrenIn]
    omega
  quiet := h.quiet

/-- The work items of an execution's stream include it. -/
theorem one_le_workIn (hn : cfg.steps.get? n = some c) (hx : (σ.workers n).execution? id = some x) (t : StreamId) :
    one x.scopePath t ≤ σ.workIn cfg t := by
  have h₁ := workIn_setWorker hn σ ((σ.workers n).eraseExecution id) t
  have h₂ := workIn_cons (WorkAux.eraseExecution_records hx) t
  have h₃ := workIn_total_nonneg cfg (σ.setWorker n ((σ.workers n).eraseExecution id)) t
  have h₄ : x.record.scopePath = x.scopePath := rfl
  rw [h₄] at h₂
  omega

/-- An ended execution is owed to its stream until it is resolved. -/
theorem endExecution_accounts (h : Accounts cfg σ p) (hn : cfg.steps.get? n = some c)
    (hx : (σ.workers n).execution? id = some x) :
    Accounts cfg (endExecution now c n x σ) fun t => p t + one x.scopePath t := by
  have hid := workerId_of_execution hx
  refine (erase_accounts h hn (w := (σ.workers n).eraseExecution x.workerId) (r := x.record) ?_).setWorker hn
    (WorkAux.drainEligibleQueue_records c n now _)
  rw [hid]
  exact WorkAux.eraseExecution_records hx

theorem endExecution_waiters (h : ∀ m, (σ.workers m).collectedWaiters = []) (m : StepId) :
    ((endExecution now c n x σ).workers m).collectedWaiters = [] := by
  unfold endExecution
  by_cases hm : m = n
  · subst hm
    simp only [BrokerState.setWorker_workers, Function.update_self]
    rw [(FrameAux.drainEligibleQueue_frame now c m _).waiters]
    exact h m
  · simp only [BrokerState.setWorker_workers, Function.update_of_ne hm]
    exact h m

/-- The end of an execution turns its work item into pending work. -/
theorem endExecution_plain (h : PlainState cfg σ p) (hn : cfg.steps.get? n = some c)
    (hx : (σ.workers n).execution? id = some x) :
    PlainState cfg (endExecution now c n x σ) fun t => p t + one x.scopePath t :=
  ⟨endExecution_accounts now h.accounts hn hx, h.positive, endExecution_waiters now h.waiters⟩

/-- A frame whose counters are new and positive, or old, keeps what a plain state has beside its books. -/
theorem plain_of_frame (h : PlainState cfg σ p) {r : BrokerState × List WorkflowCommand} {q : StreamId → Int}
    (ha : Accounts cfg r.1 q) (hf : Frame σ r) (hs : StreamsFrom σ r.1) : PlainState cfg r.1 q where
  accounts := ha
  positive s st hst := (hs s st hst).elim (fun h => h) (h.positive s st)
  waiters m := ((hf.workers m).waiters).trans (h.waiters m)

/-- The stream of an execution is open, with the execution in its counter. -/
theorem open_of_execution (h : Accounts cfg σ p) (hp : ∀ t, 0 ≤ p t) (hn : cfg.steps.get? n = some c)
    (hx : (σ.workers n).execution? id = some x) {t : StreamId} (ht : x.scopePath.getLast? = some t) :
    ∃ st, σ.streams.get? t = some st ∧ 1 ≤ st.openWorkItems := by
  have h₁ := one_le_workIn hn hx t
  have h₂ := hp t
  rw [one, if_pos ht] at h₁
  obtain ⟨st, hst, hle⟩ := h.isOpen (s := t) (by omega)
  exact ⟨st, hst, by omega⟩

/-! ## Returned events -/

/-- A completed item is paid for by its successors. -/
theorem completed_plain (h : PlainState cfg σ p) (hp : ∀ t, 0 ≤ p t) (hn : cfg.steps.get? n = some c)
    (hx : (σ.workers n).execution? id = some x) (es : List (Option Event)) :
    PlainState cfg (endExecution now c n x
      (adjustOpenWorkItems cfg x.scopePath.getLast? (successors cfg es - 1) now σ).1) fun t =>
        p t + pendingIn cfg ((returnedEvents es).map (emittedTick x.scopePath x)) t := by
  have hframe := (Serves.adjust cfg now x.scopePath.getLast? (successors cfg es - 1) σ).frame
  have hadj := h.accounts.adjust (s := x.scopePath.getLast?) ((successors cfg es : Int) - 1) (fun t ht => by
    obtain ⟨st, hst, hle⟩ := open_of_execution h.accounts hp hn hx ht
    exact ⟨st, hst, by omega⟩) now
  have hstate := plain_of_frame h hadj hframe (adjustOpenWorkItems_streamsFrom cfg now _ _ _)
  have hend := endExecution_plain now hstate hn ((hframe.workers n).execution hx)
  refine ⟨hend.accounts.congr fun t => ?_, hend.positive, hend.waiters⟩
  rw [pendingIn_emitted, one]
  split <;> ring

/-! ## A stream that opens -/

/-- Nothing belongs to a stream whose number was not given out yet. -/
theorem fresh_stream (h : Accounts cfg σ p) (hp : ∀ t, 0 ≤ p t) {s : StreamId} (hs : s.seq = σ.streamSeq) :
    σ.streams.get? s = none ∧ σ.workIn cfg s = 0 ∧ σ.childrenIn s = 0 ∧ p s = 0 ∧
      ∀ id, σ.collectionReleaseStates.get? (s, id) = none := by
  have hget : σ.streams.get? s = none := by
    rw [Option.eq_none_iff_forall_ne_some]
    intro st hst
    have := (h.scopes.stream s st hst).2.2.2.2.1
    omega
  have hb := h.balance s
  rw [BrokerState.counter, hget, Option.map_none, Option.getD_none] at hb
  have h₁ := workIn_total_nonneg cfg σ s
  have h₂ := childrenIn_nonneg σ s
  have h₃ := hp s
  refine ⟨hget, by omega, by omega, by omega, fun id => ?_⟩
  rw [Option.eq_none_iff_forall_ne_some]
  intro r hr
  obtain ⟨st, hst, -⟩ := h.scopes.release s id r hr
  rw [hget] at hst
  cases hst

variable (cfg) in
/-- The state after a stream was opened, before its parent is adjusted. -/
def opened (σ : BrokerState) (n : StepId) (x : InProgressState) (seed : Nat) : BrokerState :=
  let st : CollectionStreamInstance :=
    ⟨openedStream σ n x, n, x.scopePath, seed, (cfg.bindingsForSource n).map CollectionBinding.id⟩
  let σ' := { σ with streamSeq := σ.streamSeq + 1 }
  (σ'.setStreams (σ'.streams.set (openedStream σ n x) st)).report (.opened x st)

theorem opened_get? (seed : Nat) (t : StreamId) : (opened cfg σ n x seed).streams.get? t =
    if openedStream σ n x = t then
      some ⟨openedStream σ n x, n, x.scopePath, seed, (cfg.bindingsForSource n).map CollectionBinding.id⟩
    else σ.streams.get? t := Dict.get?_set _ _ _ _

/-- A stream opens with the count of its members. -/
theorem opened_counter (seed : Nat) (t : StreamId) : (opened cfg σ n x seed).counter t =
    if openedStream σ n x = t then (seed : Int) else σ.counter t := by
  rw [BrokerState.counter, opened_get?]
  split <;> rfl

/-- The parent of a stream that opens owes a release for each binding. -/
theorem opened_childrenIn (h : Accounts cfg σ p) (hp : ∀ t, 0 ≤ p t) (seed : Nat) (t : StreamId) :
    (opened cfg σ n x seed).childrenIn t = σ.childrenIn t + (cfg.bindingsForSource n).length * one x.scopePath t := by
  obtain ⟨hget, -, -, -, hrel⟩ := fresh_stream h hp (s := openedStream σ n x) rfl
  have hnew : σ.unreleased ⟨openedStream σ n x, n, x.scopePath, seed, (cfg.bindingsForSource n).map CollectionBinding.id⟩ =
      (cfg.bindingsForSource n).length := by
    rw [BrokerState.unreleased, List.countP_eq_length.2 fun id _ => ?_, List.length_map]
    rw [BrokerState.releaseState, hrel id]
    rfl
  have hsum := Dict.sum_set_new σ.streams
    (fun _ st => if st.scopePath.getLast? = some t then (σ.unreleased st : Int) else 0)
    ⟨openedStream σ n x, n, x.scopePath, seed, (cfg.bindingsForSource n).map CollectionBinding.id⟩ hget
  refine hsum.trans ?_
  rw [hnew, one, BrokerState.childrenIn]
  split <;> simp

/-- The books of a stream that opens: its seed is pending in it, and its parent owes a release for each binding. -/
theorem opened_accounts (h : Accounts cfg σ p) (hp : ∀ t, 0 ≤ p t) (hok : ScopeOk σ.streamSeq x.scopePath) (seed : Nat) :
    Accounts cfg (opened cfg σ n x seed) fun t => p t + (if openedStream σ n x = t then (seed : Int) else 0) -
      (cfg.bindingsForSource n).length * one x.scopePath t := by
  obtain ⟨hget, hwork, hchildren, hpend, hrel⟩ := fresh_stream h hp (s := openedStream σ n x) rfl
  have hk : σ.streamSeq ≤ σ.streamSeq + 1 := Nat.le_succ _
  refine ⟨⟨fun t st hst => ?_, fun m r hr => (h.scopes.record m r hr).mono hk, fun t id r hr => ?_⟩, fun t => ?_, ?_⟩
  · rw [opened_get?] at hst
    split at hst
    · case isTrue ht =>
      subst ht
      cases hst
      exact ⟨rfl, rfl, rfl, rfl, Nat.lt_succ_self _, hok.mono hk⟩
    · obtain ⟨h₁, h₂, h₃, h₄, h₅, h₆⟩ := h.scopes.stream t st hst
      exact ⟨h₁, h₂, h₃, h₄, Nat.lt_succ_of_lt h₅, h₆.mono hk⟩
  · obtain ⟨st, hst, hid⟩ := h.scopes.release t id r hr
    refine ⟨st, ?_, hid⟩
    rw [opened_get?, if_neg fun ht => ?_]
    · exact hst
    · rw [← ht, hget] at hst
      cases hst
  · have hb := h.balance t
    have hw : (opened cfg σ n x seed).workIn cfg t = σ.workIn cfg t := rfl
    rw [opened_counter, opened_childrenIn h hp, hw]
    split
    · case isTrue ht =>
      subst ht
      rw [hwork, hchildren, hpend]
      ring
    · rw [hb]
      ring
  · intro e he
    rcases List.mem_append.1 he with he | he
    · exact h.quiet e he
    · rw [List.mem_singleton] at he
      exact he ▸ rfl

/-- The stream that an execution opens is not the one it runs in. -/
theorem parent_ne_opened {t : StreamId} (ht : x.scopePath.getLast? = some t) : t ≠ openedStream σ n x := by
  intro h
  have : t ∈ (openedStream σ n x).path := List.mem_of_getLast? ht
  exact StreamId.notMem_path _ (h ▸ this)

variable (cfg) in
/-- The state after a stream was opened and its parent adjusted. -/
def openedParent (σ : BrokerState) (n : StepId) (x : InProgressState) (seed : Nat) : BrokerState :=
  (adjustOpenWorkItems cfg x.scopePath.getLast? ((cfg.bindingsForSource n).length - 1) now (opened cfg σ n x seed)).1

theorem scopeOk_of_execution (h : Accounts cfg σ p) (hx : (σ.workers n).execution? id = some x) :
    ScopeOk σ.streamSeq x.scopePath :=
  h.scopes.record n x.record (by rw [WorkAux.eraseExecution_records hx]; exact Multiset.mem_cons_self _ _)

theorem openedParent_accounts (h : Accounts cfg σ p) (hp : ∀ t, 0 ≤ p t) (hn : cfg.steps.get? n = some c)
    (hx : (σ.workers n).execution? id = some x) (seed : Nat) :
    Accounts cfg (openedParent cfg now σ n x seed) fun t => p t + (if openedStream σ n x = t then (seed : Int) else 0) -
      (cfg.bindingsForSource n).length * one x.scopePath t +
        if x.scopePath.getLast? = some t then ((cfg.bindingsForSource n).length - 1 : Int) else 0 := by
  refine (opened_accounts h hp (scopeOk_of_execution h hx) seed).adjust _ ?_ now
  intro t ht
  obtain ⟨st, hst, hle⟩ := open_of_execution h hp hn hx ht
  refine ⟨st, ?_, by omega⟩
  rw [opened_get?, if_neg (parent_ne_opened ht).symm]
  exact hst

theorem openedParent_get? (seed : Nat) : (openedParent cfg now σ n x seed).streams.get? (openedStream σ n x) =
    some ⟨openedStream σ n x, n, x.scopePath, seed, (cfg.bindingsForSource n).map CollectionBinding.id⟩ := by
  rw [openedParent, adjustOpenWorkItems_get?_ne cfg now _ _ fun ht => parent_ne_opened ht rfl, opened_get?, if_pos rfl]

theorem openChildStream_state (seed : Nat) :
    (openChildStream cfg n (openedScope σ n x) (openedStream σ n x) seed x now { σ with streamSeq := σ.streamSeq + 1 }).1 =
      if seed = 0 then (closeCollectionStream cfg (openedStream σ n x) now (openedParent cfg now σ n x seed)).1
      else openedParent cfg now σ n x seed := by
  simp only [openChildStream, openedScope, List.length_map, openedParent, opened]
  split <;> rfl

/-- Opening a stream leaves its seed pending in it, and the execution's own work item unaccounted. -/
theorem openChildStream_accounts (h : PlainState cfg σ p) (hp : ∀ t, 0 ≤ p t) (hn : cfg.steps.get? n = some c)
    (hx : (σ.workers n).execution? id = some x) (seed : Nat) :
    let σ' := (openChildStream cfg n (openedScope σ n x) (openedStream σ n x) seed x now
      { σ with streamSeq := σ.streamSeq + 1 }).1
    Accounts cfg σ' (fun t => p t + (if openedStream σ n x = t then (seed : Int) else 0) - one x.scopePath t) ∧
      ∀ s st, σ'.streams.get? s = some st → 0 < st.openWorkItems := by
  have hparent := openedParent_accounts now h.accounts hp hn hx seed
  have hself := @openedParent_get? cfg now σ n x seed
  have hpos : ∀ s st, s ≠ openedStream σ n x → (openedParent cfg now σ n x seed).streams.get? s = some st →
      0 < st.openWorkItems := by
    intro s st hs hst
    rcases adjustOpenWorkItems_get? cfg now _ _ _ s st hst with h' | h'
    · exact h'.2
    · rw [opened_get?, if_neg (Ne.symm hs)] at h'
      exact h.positive s st h'
  dsimp only
  rw [openChildStream_state]
  split
  · case isTrue hseed =>
    subst hseed
    refine ⟨(hparent.close hself now).congr fun t => ?_, fun s st hst => ?_⟩
    · simp only [one]
      split <;> split <;> split <;> ring
    · rw [closeCollectionStream_get?] at hst
      split at hst
      · cases hst
      · case isFalse hs => exact hpos s st hs hst
  · case isFalse hseed =>
    refine ⟨hparent.congr fun t => ?_, fun s st hst => ?_⟩
    · simp only [one]
      split <;> split <;> ring
    · by_cases hs : s = openedStream σ n x
      · rw [hs, hself, Option.some.injEq] at hst
        rw [← hst]
        exact Int.natCast_pos.2 (Nat.pos_of_ne_zero hseed)
      · exact hpos s st hs hst

/-- A fan-out is paid for by the stream that it opens. -/
theorem fannedOut_plain (h : PlainState cfg σ p) (hp : ∀ t, 0 ≤ p t) (hn : cfg.steps.get? n = some c)
    (hx : (σ.workers n).execution? id = some x) (es : List (Option Event)) :
    PlainState cfg (endExecution now c n x (openChildStream cfg n (openedScope σ n x) (openedStream σ n x) (successors cfg es)
      x now { σ with streamSeq := σ.streamSeq + 1 }).1) fun t =>
        p t + pendingIn cfg ((returnedEvents es).map (emittedTick (x.scopePath ++ [openedStream σ n x]) x)) t := by
  obtain ⟨hacc, hpos⟩ := openChildStream_accounts now h hp hn hx (successors cfg es)
  have hframe := (Serves.openChild cfg now n (openedScope σ n x) (openedStream σ n x) (successors cfg es) x
    { σ with streamSeq := σ.streamSeq + 1 }).frame
  refine ⟨(endExecution_accounts now hacc hn ((hframe.workers n).execution hx)).congr fun t => ?_, hpos,
    endExecution_waiters now fun m => ((hframe.workers m).waiters).trans (h.waiters m)⟩
  simp only [pendingIn_emitted, one, List.getLast?_append, List.getLast?_singleton, Option.some_or, Option.some.injEq]
  split <;> split <;> ring

/-! ## Failures -/

/-- A retry keeps the work record of the attempt that failed. -/
theorem retried_plain (h : PlainState cfg σ p) (hn : cfg.steps.get? n = some c) (hx : (σ.workers n).execution? id = some x)
    (f : StepWorkerFailed) (first : Time) (notBefore : Option Time) :
    PlainState cfg (endExecution now c n x
      (σ.setWorker n { σ.workers n with queue := x.retried f first notBefore :: (σ.workers n).queue })) p := by
  have hok := scopeOk_of_execution h.accounts hx
  have hacc := h.accounts.setWorker_cons hn (w := { σ.workers n with
    queue := x.retried f first notBefore :: (σ.workers n).queue }) (r := (x.retried f first notBefore).record) rfl hok
  have hstate : PlainState cfg (σ.setWorker n { σ.workers n with
      queue := x.retried f first notBefore :: (σ.workers n).queue }) fun t => p t - one x.scopePath t := by
    refine ⟨hacc, h.positive, fun m => ?_⟩
    by_cases hm : m = n
    · subst hm
      simpa using h.waiters m
    · simpa [Function.update_of_ne hm] using h.waiters m
  have hx' : ((σ.setWorker n { σ.workers n with
      queue := x.retried f first notBefore :: (σ.workers n).queue }).workers n).execution? id = some x := by
    simpa [InternalStepWorkerState.execution?] using hx
  have hend := endExecution_plain now hstate hn hx'
  exact ⟨hend.accounts.congr fun t => by ring, hend.positive, hend.waiters⟩

/-- A failure that is routed to a handler is delivered to it, once. -/
theorem routed_pending {key : StepId} {hd : CatchErrorHandler} (hkey : cfg.catchErrorHandlers.get? key = some hd)
    {d : CommandQueueEvent} (hev : d.event.type = .stepFailedEvent) (hstep : d.stepId = some hd.stepName)
    (hscope : d.scopePath = x.scopePath) (t : StreamId) :
    pendingIn cfg [.addEvent d.tick] t = one x.scopePath t := by
  obtain ⟨c', hc', hacc⟩ := cfg.handler_step key hd hkey
  have haccepts : c'.acceptsEvent d.tick.event := by
    have htype : d.tick.event.type = .stepFailedEvent := hev
    rw [StepConfig.acceptsEvent_eq, StepConfig.acceptsType, hacc, htype]
    simp [EventType.stepAcceptsType, EventType.typeMatches, EventType.isSubclass]
  have hdel := deliveries_targeted (t := d.tick) hstep hc' haccepts
  have hpath : d.tick.scopePath = x.scopePath := hscope
  rw [pendingIn_cons, pendingIn_nil, add_zero, WorkflowTick.pendingIn, hdel, hpath, one]
  rfl

end End

end ResultAux

end LlamaAgents
