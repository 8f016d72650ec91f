import LlamaAgents.Lib.Run
import LlamaAgents.Lemmas.ResultAccounts

/-!
# Runs whose steps only return or raise

What reducing any tick of such a run does, what the loop makes of the commands, and the invariant that every state reached in
such a run satisfies.
-/

namespace LlamaAgents

open Lib (Dict)

/-- What reducing a tick with `p` work pending elsewhere can do: the run goes on and the events it queues are pending, it ends
with its books in order or with every stream cleared, or a step fails it and leaves its work item in the counter of its
stream. -/
inductive PlainReduct (cfg : BrokerConfig) (tick : WorkflowTick) (p : StreamId → Int) (σ : BrokerState) :
    BrokerState × List WorkflowCommand → Prop
  | goesOn (r : BrokerState × List WorkflowCommand)
      (state : PlainState cfg r.1 fun t => p t + pendingIn cfg (newTicks r.2) t)
      (ticks : ∀ t ∈ newTicks r.2, PlainTick r.1.streamSeq t) (seq : σ.streamSeq ≤ r.1.streamSeq)
      (hx : ∀ d ∈ r.2, d.indicatesExit = false) : PlainReduct cfg tick p σ r
  | ends (r : BrokerState × List WorkflowCommand) (state : PlainState cfg r.1 p) (hn : newTicks r.2 = [])
      (hx : ∃ d ∈ r.2, d.indicatesExit) : PlainReduct cfg tick p σ r
  | clears (r : BrokerState × List WorkflowCommand) (hs : r.1.streams = ∅) (quiet : ∀ e ∈ r.1.log, e.isFault = false)
      (hx : ∃ d ∈ r.2, d.indicatesExit) : PlainReduct cfg tick p σ r
  | fails (t : TickStepResult) (f : StepWorkerFailed) (ht : tick = .stepResult t) (hf : .failed f ∈ t.result)
      (r : BrokerState × List WorkflowCommand) (x : InProgressState) (execution : (σ.workers t.stepId).execution? t.workerId = some x)
      (state : PlainState cfg r.1 fun s => p s + AccountingAux.one x.scopePath s) (hn : newTicks r.2 = [])
      (hx : .failWorkflow t.stepId f.exception ∈ r.2)
      (hx' : ∀ d ∈ r.2, d.indicatesExit → d = .failWorkflow t.stepId f.exception) : PlainReduct cfg tick p σ r

namespace PlainAux

open AccountingAux CommandsAux StepResultAux ResultAux

variable {cfg : BrokerConfig} {now : Time} {runId : Option String} {σ : BrokerState} {p : StreamId → Int}
  {r : BrokerState × List WorkflowCommand}

/-! ## Step after step -/

/-- An update of every step in turn keeps what each single update keeps, and its commands are theirs. -/
theorem forEachStep_invariant
    {f : StepConfig → StepId → InternalStepWorkerState → InternalStepWorkerState × List WorkflowCommand}
    (P : BrokerState → Prop) (Q : WorkflowCommand → Prop) {l : List (StepId × StepConfig)}
    (h : ∀ q ∈ l, ∀ σ, P σ → P (σ.setWorker q.1 (f q.2 q.1 (σ.workers q.1)).1) ∧ ∀ d ∈ (f q.2 q.1 (σ.workers q.1)).2, Q d)
    (hσ : P σ) : P (forEachStep f l σ).1 ∧ ∀ d ∈ (forEachStep f l σ).2, Q d := by
  induction l generalizing σ with
  | nil => exact ⟨hσ, by simp [forEachStep]⟩
  | cons q l ih =>
    obtain ⟨h₁, h₂⟩ := h q List.mem_cons_self σ hσ
    obtain ⟨h₃, h₄⟩ := ih (fun q' hq' => h q' (List.mem_cons_of_mem q hq')) h₁
    exact ⟨h₃, fun d hd => (List.mem_append.1 hd).elim (h₂ d) (h₄ d)⟩

/-- Each step is updated from its own state, and no other step is. -/
theorem forEachStep_workers
    {f : StepConfig → StepId → InternalStepWorkerState → InternalStepWorkerState × List WorkflowCommand}
    {l : List (StepId × StepConfig)} (hl : (l.map Prod.fst).Nodup) (σ : BrokerState) :
    (∀ q ∈ l, (forEachStep f l σ).1.workers q.1 = (f q.2 q.1 (σ.workers q.1)).1) ∧
      ∀ n, n ∉ l.map Prod.fst → (forEachStep f l σ).1.workers n = σ.workers n := by
  induction l generalizing σ with
  | nil => exact ⟨by simp, fun _ _ => rfl⟩
  | cons q l ih =>
    rw [List.map_cons, List.nodup_cons] at hl
    obtain ⟨h₁, h₂⟩ := ih hl.2 (σ.setWorker q.1 (f q.2 q.1 (σ.workers q.1)).1)
    refine ⟨?_, ?_⟩
    · intro q' hq'
      rcases List.mem_cons.1 hq' with rfl | hq'
      · exact (h₂ q'.1 hl.1).trans (by simp)
      · refine (h₁ q' hq').trans ?_
        have hne : q'.1 ≠ q.1 := fun heq => hl.1 (List.mem_map.2 ⟨q', hq', heq⟩)
        rw [BrokerState.setWorker_workers, Function.update_of_ne hne]
    · intro n hn
      rw [List.map_cons, List.mem_cons, not_or] at hn
      refine (h₂ n hn.2).trans ?_
      rw [BrokerState.setWorker_workers, Function.update_of_ne hn.1]

/-- What no single update changes of a worker state, all of them leave. -/
theorem forEachStep_same {α : Type*} (g : InternalStepWorkerState → α)
    {f : StepConfig → StepId → InternalStepWorkerState → InternalStepWorkerState × List WorkflowCommand}
    (hf : ∀ c n w, g (f c n w).1 = g w) (l : List (StepId × StepConfig)) (σ : BrokerState) (n : StepId) :
    g ((forEachStep f l σ).1.workers n) = g (σ.workers n) := by
  refine (forEachStep_invariant (f := f) (fun τ => g (τ.workers n) = g (σ.workers n)) (fun _ => True) ?_ rfl).1
  intro q _ τ hτ
  refine ⟨?_, fun _ _ => trivial⟩
  rw [BrokerState.setWorker_workers]
  by_cases hn : n = q.1
  · subst hn
    rw [Function.update_self, hf]
    exact hτ
  · rw [Function.update_of_ne hn]
    exact hτ

theorem forEachStep_fields
    (f : StepConfig → StepId → InternalStepWorkerState → InternalStepWorkerState × List WorkflowCommand)
    (l : List (StepId × StepConfig)) (σ : BrokerState) :
    (forEachStep f l σ).1.streams = σ.streams ∧
      (forEachStep f l σ).1.collectionReleaseStates = σ.collectionReleaseStates ∧
      (forEachStep f l σ).1.streamSeq = σ.streamSeq ∧ (forEachStep f l σ).1.workItemSeq = σ.workItemSeq := by
  induction l generalizing σ with
  | nil => exact ⟨rfl, rfl, rfl, rfl⟩
  | cons q l ih => exact ih (σ.setWorker q.1 (f q.2 q.1 (σ.workers q.1)).1)

theorem nodup_sortedSteps (cfg : BrokerConfig) : (cfg.sortedSteps.map Prod.fst).Nodup :=
  ((List.perm_insertionSort _ _).map Prod.fst).nodup_iff.2 cfg.steps.nodup

theorem get?_of_mem_sortedSteps {q : StepId × StepConfig} (h : q ∈ cfg.sortedSteps) : cfg.steps.get? q.1 = some q.2 :=
  (cfg.steps.get?_eq_some_iff _ _).2 ((List.mem_insertionSort _).1 h)

/-- An update of a step that keeps its records and has it wait for nothing. -/
theorem setWorker_plain (h : PlainState cfg σ p) {n : StepId} {c : StepConfig} (hn : cfg.steps.get? n = some c)
    {w : InternalStepWorkerState} (hr : w.records = (σ.workers n).records)
    (hw : w.collectedWaiters = (σ.workers n).collectedWaiters) : PlainState cfg (σ.setWorker n w) p where
  accounts := h.accounts.setWorker hn hr
  positive := h.positive
  waiters m := by
    by_cases hm : m = n
    · subst hm
      simpa [hw] using h.waiters m
    · simpa [Function.update_of_ne hm] using h.waiters m

variable (now) in
/-- A wakeup moves work between queue and slots only. -/
theorem wakeup_plain (h : PlainState cfg σ p) (due : Time) :
    (PlainState cfg (processWakeupTick cfg due σ now).1 p ∧ (processWakeupTick cfg due σ now).1.streamSeq = σ.streamSeq) ∧
      ∀ d ∈ (processWakeupTick cfg due σ now).2, d.indicatesExit = false ∧ d.isQueueEvent = false := by
  refine forEachStep_invariant (fun σ' => PlainState cfg σ' p ∧ σ'.streamSeq = σ.streamSeq) _ (fun q hq σ' hσ' => ?_) ⟨h, rfl⟩
  refine ⟨⟨setWorker_plain hσ'.1 (get?_of_mem_sortedSteps hq) ?_ ?_, hσ'.2⟩, fun d hd => ?_⟩
  · rw [WorkAux.drainEligibleQueue_records, WorkAux.wakeQueue_records]
  · exact (FrameAux.drainEligibleQueue_frame now q.2 q.1 _).waiters
  · have hd := FrameAux.drainEligibleQueue_commands now q.2 q.1 _ d hd
    exact ⟨by simpa using WorkflowCommand.not_exit_of_isDispatch hd, WorkflowCommand.not_isQueueEvent_of_isDispatch hd⟩

/-- So does the restart of what was in progress. -/
theorem rewind_plain (h : PlainState cfg σ p) :
    (PlainState cfg (rewindInProgress cfg now σ).1 p ∧ (rewindInProgress cfg now σ).1.streamSeq = σ.streamSeq) ∧
      ∀ d ∈ (rewindInProgress cfg now σ).2, d.indicatesExit = false ∧ d.isQueueEvent = false := by
  refine forEachStep_invariant (fun σ' => PlainState cfg σ' p ∧ σ'.streamSeq = σ.streamSeq) _ (fun q hq σ' hσ' => ?_) ⟨h, rfl⟩
  refine ⟨⟨setWorker_plain hσ'.1 (get?_of_mem_sortedSteps hq) (WorkAux.rewindStep_records _ _ _ _) ?_, hσ'.2⟩, fun d hd => ?_⟩
  · exact (FrameAux.drainEligibleQueue_frame now q.2 q.1 _).waiters
  · rcases List.mem_append.1 hd with hd | hd
    · have hd := FrameAux.drainEligibleQueue_commands now q.2 q.1 _ d hd
      exact ⟨by simpa using WorkflowCommand.not_exit_of_isDispatch hd, WorkflowCommand.not_isQueueEvent_of_isDispatch hd⟩
    · obtain ⟨a, -, ha⟩ := List.mem_filterMap.1 hd
      obtain ⟨t, -, rfl⟩ := Option.map_eq_some_iff.1 ha
      exact ⟨rfl, rfl⟩

/-! ## Reducing a tick -/

/-- A tick whose commands queue nothing, and that keeps the books. -/
theorem reduct_of_plain {tick : WorkflowTick} (h : PlainState cfg r.1 p)
    (hq : ∀ d ∈ r.2, d.isQueueEvent = false) (hseq : r.1.streamSeq = σ.streamSeq) : PlainReduct cfg tick p σ r := by
  have hn := newTicks_of_no_queue hq
  by_cases hx : ∃ d ∈ r.2, d.indicatesExit
  · exact .ends r h hn hx
  · refine .goesOn r ⟨h.accounts.congr fun t => by simp [hn], h.positive, h.waiters⟩ (by simp [hn]) hseq.ge fun d hd => ?_
    simpa using fun hd' => hx ⟨d, hd, hd'⟩

theorem reduct_withIdleCheck {tick : WorkflowTick} (h : PlainReduct cfg tick p σ r) :
    PlainReduct cfg tick p σ (withIdleCheck cfg r) := by
  unfold withIdleCheck
  split
  · have hn : newTicks (r.2 ++ [.scheduleIdleCheck]) = newTicks r.2 := by simp [newTicks]
    cases h with
    | goesOn r state ticks seq hx =>
      refine .goesOn _ (by rw [hn]; exact state) (by rw [hn]; exact ticks) seq fun d hd => ?_
      rcases List.mem_append.1 hd with hd | hd
      · exact hx d hd
      · rw [List.mem_singleton] at hd
        exact hd ▸ rfl
    | ends r state hn' hx =>
      obtain ⟨d, hd, hx⟩ := hx
      exact .ends _ state (hn.trans hn') ⟨d, List.mem_append_left _ hd, hx⟩
    | clears r hs quiet hx =>
      obtain ⟨d, hd, hx⟩ := hx
      exact .clears _ hs quiet ⟨d, List.mem_append_left _ hd, hx⟩
    | fails t f ht hf r x execution state hn' hx hx' =>
      refine .fails t f ht hf _ x execution state (hn.trans hn') (List.mem_append_left _ hx) fun d hd hde => ?_
      rcases List.mem_append.1 hd with hd | hd
      · exact hx' d hd hde
      · rw [List.mem_singleton] at hd
        rw [hd] at hde
        cases hde
  · exact h

variable (cfg now) in
/-- With no step waiting, an event resolves no waiter. -/
theorem resolveWaiters_of_none (h : ∀ n, (σ.workers n).collectedWaiters = []) (e : Event) :
    resolveWaiters cfg e now σ = (σ, []) ∧ waiterResolvedSteps cfg e σ = [] := by
  constructor
  · unfold resolveWaiters
    generalize cfg.steps.entries = l
    induction l with
    | nil => rfl
    | cons q l ih =>
      have hq : resolveStepWaiters q.2 q.1 e now [] (σ.workers q.1).collectedWaiters (σ.workers q.1) = (σ.workers q.1, []) := by
        rw [h q.1]
        rfl
      have hset : σ.setWorker q.1 (σ.workers q.1) = σ := by simp [BrokerState.setWorker]
      simp only [forEachStep, hq, hset, ih, List.nil_append]
  · simp [waiterResolvedSteps, h]

variable (cfg now) in
/-- Without waiters a timeout does nothing. -/
theorem waiterTimeout_of_none (h : ∀ n, (σ.workers n).collectedWaiters = []) (n : StepId) (id : WaiterId) :
    processWaiterTimeoutTick cfg n id σ now = (σ, []) := by
  unfold processWaiterTimeoutTick
  split
  · rfl
  · simp [h n]

/-- A new id for a work item touches the counter of ids alone. -/
theorem identifyWorkItem_fields (t : TickAddEvent) (σ : BrokerState) :
    let r := identifyWorkItem t σ
    (r.1.workers = σ.workers ∧ r.1.streams = σ.streams ∧ r.1.collectionReleaseStates = σ.collectionReleaseStates ∧
      r.1.streamSeq = σ.streamSeq ∧ r.1.log = σ.log) ∧
    (r.2.event = t.event ∧ r.2.stepId = t.stepId ∧ r.2.boundEvents = t.boundEvents ∧ r.2.attempts = t.attempts ∧
      r.2.scopePath = t.scopePath ∧ r.2.collectionReleasePayload = t.collectionReleasePayload) := by
  unfold identifyWorkItem nextWorkItemId
  cases t.workItemId <;> cases hp : t.collectionReleasePayload <;> dsimp only <;> split <;> simp [hp]

theorem unhandled_passive (t : TickAddEvent) (σ : BrokerState) :
    ∀ d ∈ unhandledEventCommands cfg t σ, d.isQueueEvent = false := by
  unfold unhandledEventCommands
  split <;> simp [WorkflowCommand.isQueueEvent]

/-- The deliveries of an added event are pending before it is routed. -/
theorem identified_accounts {t t' : TickAddEvent} {σ' : BrokerState}
    (h : Accounts cfg σ fun s => p s + (WorkflowTick.addEvent t).pendingIn cfg s) (hid : identifyWorkItem t σ = (σ', t')) :
    Accounts cfg σ' fun s => p s + (cfg.steps.entries.countP fun q => q.2.acceptsEvent t'.event && t'.isTargeted q.1) *
      one t'.scopePath s := by
  obtain ⟨⟨hw, hs, hrel, hseq, hlog⟩, hev, hstep, -, -, hscope, -⟩ := identifyWorkItem_fields t σ
  rw [hid] at hw hs hrel hseq hlog hev hstep hscope
  dsimp only at hw hs hrel hseq hlog hev hstep hscope
  refine (h.of_eq hw hs hrel hseq fun e he => Or.inl (hlog ▸ he)).congr fun s => ?_
  rw [WorkflowTick.pendingIn, TickAddEvent.deliveries, one, hscope, hev]
  simp only [TickAddEvent.isTargeted, hstep]
  split <;> simp

/-- An added event is delivered: what was pending for it is accounted for. -/
theorem addEvent_plain {t : TickAddEvent} (ht : PlainTick σ.streamSeq (.addEvent t)) (hp : ∀ s, 0 ≤ p s)
    (h : PlainState cfg σ fun s => p s + (WorkflowTick.addEvent t).pendingIn cfg s)
    (hr : processAddEventTick cfg t σ now = .ok r) :
    PlainState cfg r.1 p ∧ (∀ d ∈ r.2, d.isQueueEvent = false) ∧ r.1.streamSeq = σ.streamSeq := by
  obtain ⟨⟨hw, hs, hrel, hseq, hlog⟩, hev, hstep, -, hatt, hscope, hpay⟩ := identifyWorkItem_fields t σ
  generalize hid : identifyWorkItem t σ = r' at hw hs hrel hseq hlog hev hstep hatt hscope hpay
  obtain ⟨σ', t'⟩ := r'
  dsimp only at hw hs hrel hseq hlog hev hstep hatt hscope hpay
  have hwait : ∀ n, (σ'.workers n).collectedWaiters = [] := by rw [hw]; exact h.waiters
  obtain ⟨hres, hsteps⟩ := resolveWaiters_of_none cfg now hwait t'.event
  have hacc := identified_accounts h.accounts hid
  have hok : ScopeOk σ'.streamSeq t'.scopePath := by rw [hseq, hscope]; exact ht.2.2
  have hconfig : ∀ q ∈ cfg.steps.entries, cfg.steps.get? q.1 = some q.2 := fun q hq => (cfg.steps.get?_eq_some_iff _ _).2 hq
  have hroute := Accounts.route hp hok (hatt.trans ht.1) hconfig hacc now
  have hkept := RoutingAux.routes_kept cfg now (RoutingAux.routeToAcceptingSteps_routes cfg now t' [] hconfig σ')
  have hfrom : StreamsFrom σ' (routeToAcceptingSteps cfg t' [] now cfg.steps.entries σ').state :=
    RoutingAux.routeToAcceptingSteps_streamsFrom now t' [] cfg.steps.entries σ'
  have hplain : PlainState cfg (routeToAcceptingSteps cfg t' [] now cfg.steps.entries σ').state p :=
    ⟨hroute, fun s st hst => (hfrom s st hst).elim (fun h' => h') fun h' => h.positive s st (hs ▸ h'),
      fun n => (hkept.waiters n).trans (hwait n)⟩
  simp only [processAddEventTick, hid, hpay.trans ht.2.1, hres, hsteps, List.nil_append] at hr
  split at hr
  · cases hr
    exact ⟨hplain, hkept.commands, hkept.streamSeq.trans hseq⟩
  · cases hr
    refine ⟨hplain, fun d hd => ?_, hkept.streamSeq.trans hseq⟩
    exact (List.mem_append.1 hd).elim (hkept.commands d) (unhandled_passive t' _ d)

/-- The result of an execution keeps the books, unless it fails the run. -/
theorem stepResult_plain {t : TickStepResult} (ht : PlainResults t.result) (hp : ∀ s, 0 ≤ p s) (h : PlainState cfg σ p)
    (hr : processStepResultTick cfg t σ now runId = .ok r) : PlainReduct cfg (.stepResult t) p σ r := by
  obtain ⟨c, x, hc, hx, heffect⟩ := processStepResultTick_plain ht hr
  have hok := scopeOk_of_execution h.accounts hx
  cases heffect with
  | stopped _ hs hl hx => exact .clears _ hs (fun e he => h.accounts.quiet e (hl ▸ he)) hx
  | completed es cs hcx hct =>
    have hframe := (Serves.adjust cfg now x.scopePath.getLast? (successors cfg es - 1) σ).frame
    refine .goesOn _ (by rw [hct]; exact completed_plain now h hp hc hx es) (fun t' ht' => ?_) hframe.streamSeq.ge hcx
    rw [hct] at ht'
    obtain ⟨e, -, rfl⟩ := List.mem_map.1 ht'
    exact ⟨rfl, rfl, hok.mono hframe.streamSeq.ge⟩
  | fannedOut es cs hcx hct =>
    have hseq := (Serves.openChild cfg now t.stepId (openedScope σ t.stepId x) (openedStream σ t.stepId x)
      (successors cfg es) x { σ with streamSeq := σ.streamSeq + 1 }).frame.streamSeq
    refine .goesOn _ (by rw [hct]; exact fannedOut_plain now h hp hc hx es) (fun t' ht' => ?_)
      ((Nat.le_succ _).trans hseq.ge) hcx
    rw [hct] at ht'
    obtain ⟨e, -, rfl⟩ := List.mem_map.1 ht'
    refine ⟨rfl, rfl, ScopeOk.mono hseq.ge fun s hs => ?_⟩
    simp only [List.getLast?_append, List.getLast?_singleton, Option.some_or, Option.some.injEq] at hs
    subst hs
    exact ⟨by simp [openedStream, StreamId.path], Nat.lt_succ_self _⟩
  | retried f first notBefore cs hcx hct =>
    refine .goesOn _ ?_ (by simp [hct]) le_rfl hcx
    simpa [hct] using retried_plain now h hc hx f first notBefore
  | routed hd key hkey d hd' cs hcx hct =>
    have hend := endExecution_plain now h hc hx
    refine .goesOn _ ⟨hend.accounts.congr fun s => ?_, hend.positive, hend.waiters⟩ (fun t' ht' => ?_) le_rfl hcx
    · rw [hct, routed_pending hkey hd'.1 hd'.2.1 hd'.2.2]
    · rw [hct, List.mem_singleton] at ht'
      subst ht'
      have hscope : d.tick.scopePath = x.scopePath := hd'.2.2
      exact ⟨rfl, rfl, hscope.symm ▸ hok⟩
  | failed f hf e e' =>
    have hlost := erase_accounts h.accounts hc (w := (σ.workers t.stepId).eraseExecution x.workerId) (r := x.record)
      (by rw [workerId_of_execution hx]; exact WorkAux.eraseExecution_records hx)
    refine .fails t f rfl hf _ x hx ⟨hlost.of_eq rfl rfl rfl rfl fun e he => Or.inl he, h.positive, fun m => ?_⟩
      rfl (by simp) (by simp [WorkflowCommand.indicatesExit])
    by_cases hm : m = t.stepId
    · subst hm
      simpa [InternalStepWorkerState.eraseExecution] using h.waiters t.stepId
    · simpa [Function.update_of_ne hm] using h.waiters m

theorem map_eq_ok {ε α β : Type*} {f : α → β} {y : Except ε α} {b : β} (h : y.map f = .ok b) : ∃ a, y = .ok a ∧ f a = b := by
  cases y with
  | error e => cases h
  | ok a => exact ⟨a, rfl, Except.ok.inj h⟩

/-- What reducing a tick of a plain run does. -/
theorem reduceTick_plain {tick : WorkflowTick} (ht : PlainTick σ.streamSeq tick) (hp : ∀ s, 0 ≤ p s)
    (h : PlainState cfg σ fun s => p s + tick.pendingIn cfg s)
    (hr : reduceTick cfg tick σ now runId = .ok r) : PlainReduct cfg tick p σ r := by
  have hsame : (∀ s, tick.pendingIn cfg s = 0) → PlainState cfg σ p := fun h₀ =>
    ⟨h.accounts.congr fun s => by rw [h₀, add_zero], h.positive, h.waiters⟩
  cases tick with
  | stepResult t =>
    obtain ⟨r', hr', rfl⟩ := map_eq_ok hr
    exact reduct_withIdleCheck (stepResult_plain ht hp (hsame fun _ => rfl) hr')
  | addEvent t =>
    obtain ⟨r', hr', rfl⟩ := map_eq_ok hr
    obtain ⟨h₁, h₂, h₃⟩ := addEvent_plain ht hp h hr'
    exact reduct_withIdleCheck (reduct_of_plain h₁ h₂ h₃)
  | cancelRun =>
    cases hr
    exact reduct_withIdleCheck (reduct_of_plain (hsame fun _ => rfl)
      (by simp [processCancelRunTick, WorkflowCommand.isQueueEvent]) rfl)
  | publishEvent e =>
    cases hr
    exact reduct_withIdleCheck (reduct_of_plain (hsame fun _ => rfl) (by simp [WorkflowCommand.isQueueEvent]) rfl)
  | timeout t =>
    cases hr
    exact reduct_withIdleCheck (.clears _ rfl h.accounts.quiet ⟨_, List.mem_cons_of_mem _ List.mem_cons_self, rfl⟩)
  | waiterTimeout n id =>
    cases hr
    rw [waiterTimeout_of_none cfg now h.waiters]
    exact reduct_withIdleCheck (reduct_of_plain (hsame fun _ => rfl) (by simp) rfl)
  | idleCheck =>
    cases hr
    have hstate := hsame fun _ => rfl
    unfold processIdleCheckTick
    split
    · split
      · refine reduct_of_plain ⟨hstate.accounts.of_eq rfl rfl rfl rfl fun e he => Or.inl he, hstate.positive, hstate.waiters⟩
          (by simp [WorkflowCommand.isQueueEvent]) rfl
      · exact reduct_of_plain hstate (by simp [WorkflowCommand.isQueueEvent]) rfl
    · exact reduct_of_plain hstate (by simp) rfl
  | idleRelease =>
    cases hr
    exact reduct_of_plain (hsame fun _ => rfl) (by simp [WorkflowCommand.isQueueEvent]) rfl
  | wakeup due =>
    cases hr
    obtain ⟨⟨h₁, h₂⟩, h₃⟩ := wakeup_plain now (hsame fun _ => rfl) due
    exact reduct_withIdleCheck (reduct_of_plain h₁ (fun d hd => (h₃ d hd).2) h₂)

end PlainAux

/-! ## The loop -/

/-- The invariant of a run whose steps only return or raise, while it goes on. Streams may be owed deliveries that were pending when
a snapshot was taken, and are lost. -/
structure PlainLoop (cfg : BrokerConfig) (owed : StreamId → Nat) (L : Loop) : Prop where
  state : PlainState cfg L.state fun s => pendingIn cfg L.tickBuffer s + owed s
  buffer : ∀ t ∈ L.tickBuffer, PlainTick L.state.streamSeq t
  mailbox : ∀ t ∈ L.mailbox, ∃ m : Message, t = m.tick
  wakeups : ∀ e ∈ L.scheduledWakeups, e.2.2.isTimer

/-- Every open stream counts its open work, and one work item more when it is the stream of a lost one. -/
def Loop.CountsWith (cfg : BrokerConfig) (L : Loop) (lost : Option StreamId) : Prop :=
  ∀ s st, L.state.streams.get? s = some st →
    st.openWorkItems = L.openWork cfg s + (if lost = some s then 1 else 0) ∧ 0 < st.openWorkItems

/-- A run that a step failed for good, and the stream of the work item that failed: the last tick is the failure of an execution that
was in progress in that stream, and the run raised the step's exception. -/
def Loop.FailedForGood (cfg : BrokerConfig) (L : Loop) (lost : Option StreamId) : Prop :=
  ∃ σ t f x cs now runId, reduceTick cfg (.stepResult t) σ now runId = .ok (L.state, cs) ∧
    (σ.workers t.stepId).execution? t.workerId = some x ∧ lost = x.scopePath.getLast? ∧
    L.journal.getLast? = some (.stepResult t) ∧ .failed f ∈ t.result ∧ L.outcome = some (.raised f.exception)

/-- The invariant of such a run, whether it has ended or not. -/
structure PlainRun (cfg : BrokerConfig) (owed : StreamId → Nat) (L : Loop) : Prop where
  quiet : ∀ e ∈ L.state.log, e.isFault = false
  running : L.outcome = none → PlainLoop cfg owed L
  ended : owed = 0 → L.outcome ≠ none → ∃ lost, L.CountsWith cfg lost ∧ (lost ≠ none → L.FailedForGood cfg lost)

/-- A state without work, waiters, streams or records: that of a new context, or what a stop event leaves of one. -/
structure BrokerState.IsFresh (σ : BrokerState) : Prop where
  workers : ∀ n, (σ.workers n).queue = [] ∧ (σ.workers n).inProgress = [] ∧ (σ.workers n).collectedWaiters = []
  streams : σ.streams = ∅
  releases : σ.collectionReleaseStates = ∅
  log : σ.log = []

theorem BrokerState.isFresh_empty : ({} : BrokerState).IsFresh := ⟨fun _ => ⟨rfl, rfl, rfl⟩, rfl, rfl, rfl⟩

/-- An action in which a step's body, if one runs, only returns or raises. -/
def Action.isPlain : Action → Bool
  | .finish _ program _ => program.returnsOrRaises
  | _ => true

namespace PlainAux

open AccountingAux CommandsAux StepResultAux ResultAux

variable {cfg : BrokerConfig} {now : Time} {runId : Option String} {L : Loop} {owed : StreamId → Nat}

theorem countsWith_of_plain (scope : ScopePath)
    (h : PlainState cfg L.state fun s => pendingIn cfg L.tickBuffer s + one scope s) : L.CountsWith cfg scope.getLast? := by
  intro s st hst
  have hb := h.accounts.balance s
  rw [BrokerState.counter, hst, Option.map_some, Option.getD_some] at hb
  exact ⟨by rw [hb, Loop.openWork, one]; ring, h.positive s st hst⟩

theorem counts_of_plain (hzero : owed = 0) (h : PlainState cfg L.state fun s => pendingIn cfg L.tickBuffer s + owed s) :
    L.CountsWith cfg none :=
  countsWith_of_plain [] ⟨h.accounts.congr fun s => by simp [one, hzero], h.positive, h.waiters⟩

theorem pendingIn_filter (ts : List WorkflowTick) (s : StreamId) :
    pendingIn cfg (ts.filter (· ≠ .idleCheck)) s = pendingIn cfg ts s := by
  induction ts with
  | nil => rfl
  | cons t ts ih =>
    rw [List.filter_cons, pendingIn_cons]
    split
    · rw [pendingIn_cons, ih]
    · case isFalse ht =>
      simp only [ne_eq, decide_not, Bool.not_eq_true', decide_eq_false_iff_not, not_not] at ht
      have hzero : t.pendingIn cfg s = 0 := ht ▸ rfl
      rw [ih, hzero, zero_add]

/-- The commands of a tick that goes on make its queued events pending. -/
theorem processCommands_plain {cs : List WorkflowCommand} (hx : ∀ d ∈ cs, d.indicatesExit = false)
    (hout : L.outcome = none)
    (hstate : PlainState cfg L.state fun t => pendingIn cfg L.tickBuffer t + owed t + pendingIn cfg (newTicks cs) t)
    (hbuffer : ∀ t ∈ L.tickBuffer, PlainTick L.state.streamSeq t) (hticks : ∀ t ∈ newTicks cs, PlainTick L.state.streamSeq t)
    (hmail : ∀ t ∈ L.mailbox, ∃ m : Message, t = m.tick) (hwake : ∀ e ∈ L.scheduledWakeups, e.2.2.isTimer) :
    PlainRun cfg owed (L.processCommands now cs) := by
  obtain ⟨h₁, -, h₃⟩ := processCommands_fields now L cs
  obtain ⟨ts, hts, hfilter⟩ := processCommands_tickBuffer now L cs
  rw [takeWhile_of_no_exit hx] at hfilter
  have hnone := (processCommands_outcome_of_no_exit now L hx).trans hout
  refine ⟨h₁.symm ▸ hstate.accounts.quiet, fun _ => ⟨?_, fun t ht => ?_, h₃.symm ▸ hmail, fun e he => ?_⟩,
    fun _ h => absurd hnone h⟩
  · rw [h₁, hts]
    refine ⟨hstate.accounts.congr fun s => ?_, hstate.positive, hstate.waiters⟩
    rw [pendingIn_append, ← pendingIn_filter ts, hfilter, add_right_comm]
  · rw [hts, List.mem_append] at ht
    rw [h₁]
    rcases ht with ht | ht
    · exact hbuffer t ht
    · by_cases hidle : t = .idleCheck
      · exact hidle ▸ trivial
      · refine hticks t ?_
        rw [← hfilter]
        exact List.mem_filter.2 ⟨ht, by simpa using hidle⟩
  · exact (processCommands_wakeups now L cs e he).elim (hwake e) id

/-- Commands that queue nothing leave what is pending. -/
theorem pendingIn_processCommands {cs : List WorkflowCommand} (hn : newTicks cs = []) (s : StreamId) :
    pendingIn cfg (L.processCommands now cs).tickBuffer s = pendingIn cfg L.tickBuffer s := by
  obtain ⟨ts, hts, hfilter⟩ := processCommands_tickBuffer now L cs
  have hnil : newTicks (cs.takeWhile fun d => !d.indicatesExit) = [] := by
    rw [newTicks, List.filterMap_eq_nil_iff] at hn ⊢
    exact fun d hd => hn d ((List.takeWhile_sublist _).subset hd)
  rw [hts, pendingIn_append, ← pendingIn_filter ts, hfilter, hnil, pendingIn_nil, add_zero]

/-- The commands of a tick that ends the run and queues nothing. -/
theorem processCommands_ended {cs : List WorkflowCommand} (hx : ∃ d ∈ cs, d.indicatesExit)
    (hcount : owed = 0 → (L.processCommands now cs).CountsWith cfg none)
    (hquiet : ∀ e ∈ L.state.log, e.isFault = false) : PlainRun cfg owed (L.processCommands now cs) := by
  refine ⟨(processCommands_fields now L cs).1.symm ▸ hquiet, fun h => ?_,
    fun hzero _ => ⟨none, hcount hzero, fun h => absurd rfl h⟩⟩
  obtain ⟨d, -, hd, hout⟩ := processCommands_outcome_of_exit now L hx
  have := outcome_isSome_of_exit hd
  rw [← hout, h] at this
  cases this

/-- A reduction that raises had nothing to deliver. -/
theorem pendingIn_of_error {σ : BrokerState} {k : Nat} {tick : WorkflowTick} (ht : PlainTick k tick) {e : Exn}
    (h : reduceTick cfg tick σ now runId = .error e) (s : StreamId) : tick.pendingIn cfg s = 0 := by
  cases tick with
  | addEvent t =>
    obtain ⟨-, -, -, -, -, -, hpay⟩ := identifyWorkItem_fields t σ
    simp only [reduceTick, processAddEventTick, hpay.trans ht.2.1] at h
    split at h <;> cases h
  | _ => rfl

/-- Reducing a tick keeps the invariant. -/
theorem processTick_plain (hL : L.outcome = none) {tick : WorkflowTick}
    (ht : PlainTick L.state.streamSeq tick)
    (hstate : PlainState cfg L.state fun s => pendingIn cfg L.tickBuffer s + owed s + tick.pendingIn cfg s)
    (hbuffer : ∀ t ∈ L.tickBuffer, PlainTick L.state.streamSeq t)
    (hmail : ∀ t ∈ L.mailbox, ∃ m : Message, t = m.tick) (hwake : ∀ e ∈ L.scheduledWakeups, e.2.2.isTimer) :
    PlainRun cfg owed (L.processTick cfg runId now tick) := by
  unfold Loop.processTick
  split
  · case h_1 e hr =>
    refine ⟨hstate.accounts.quiet, nofun, fun hzero _ => ⟨none, counts_of_plain hzero ?_, fun h => absurd rfl h⟩⟩
    refine ⟨hstate.accounts.congr fun s => ?_, hstate.positive, hstate.waiters⟩
    rw [pendingIn_of_error ht hr, add_zero]
    rfl
  · case h_2 σ cs hr =>
    cases reduceTick_plain ht (fun s => add_nonneg (pendingIn_nonneg L.tickBuffer s) (Int.natCast_nonneg _)) hstate hr with
    | goesOn _ state ticks seq hx =>
      exact processCommands_plain hx hL state (fun t ht => (hbuffer t ht).mono seq) ticks hmail hwake
    | ends _ state hn hx =>
      refine processCommands_ended hx (fun hzero => counts_of_plain hzero ?_) state.accounts.quiet
      rw [(processCommands_fields now _ cs).1]
      exact ⟨state.accounts.congr fun s => by rw [pendingIn_processCommands hn], state.positive, state.waiters⟩
    | clears _ hs quiet hx =>
      refine processCommands_ended hx (fun _ s st hst => ?_) quiet
      have hs : σ.streams = ∅ := hs
      rw [(processCommands_fields now _ cs).1, hs] at hst
      cases hst
    | fails t f ht hf _ x execution state hn hx hx' =>
      obtain ⟨hstate', hjournal, -⟩ := processCommands_fields now { L with state := σ, journal := L.journal ++ [tick] } cs
      obtain ⟨d, hd, hde, hout⟩ := processCommands_outcome_of_exit now { L with state := σ, journal := L.journal ++ [tick] }
        ⟨_, hx, rfl⟩
      rw [hx' d hd hde] at hout
      refine ⟨hstate'.symm ▸ state.accounts.quiet, fun h => ?_, fun hzero _ => ⟨x.scopePath.getLast?,
        countsWith_of_plain x.scopePath ?_, fun _ => ⟨L.state, t, f, x, cs, now, runId, ?_, execution, rfl, ?_, hf, hout⟩⟩⟩
      · rw [hout] at h
        cases h
      · rw [hstate']
        exact ⟨state.accounts.congr fun s => by simp [pendingIn_processCommands hn, hzero], state.positive, state.waiters⟩
      · rw [hstate', ← ht]
        exact hr
      · rw [hjournal, List.getLast?_append, List.getLast?_singleton, ht]
        rfl

/-- The order of the pending ticks does not matter. -/
theorem pendingIn_perm {l l' : List WorkflowTick} (h : l.Perm l') (s : StreamId) : pendingIn cfg l s = pendingIn cfg l' s :=
  (h.map _).sum_eq

/-- A loop whose buffer becomes a list of ticks that deliver nothing into a stream. -/
theorem buffered_plain (h : PlainLoop cfg owed L) (hempty : L.tickBuffer = []) {L' : Loop} (hstate : L'.state = L.state)
    (hticks : ∀ t ∈ L'.tickBuffer, PlainTick L.state.streamSeq t ∧ ∀ s, t.pendingIn cfg s = 0)
    (hmail : ∀ t ∈ L'.mailbox, ∃ m : Message, t = m.tick) (hwake : ∀ e ∈ L'.scheduledWakeups, e.2.2.isTimer) :
    PlainLoop cfg owed L' := by
  have hzero : ∀ s, pendingIn cfg L'.tickBuffer s = 0 := fun s =>
    List.sum_eq_zero fun k hk => by
      obtain ⟨t, ht, rfl⟩ := List.mem_map.1 hk
      exact (hticks t ht).2 s
  refine ⟨?_, fun t ht => hstate.symm ▸ (hticks t ht).1, hmail, hwake⟩
  rw [hstate]
  refine ⟨h.state.accounts.congr fun s => ?_, h.state.positive, h.state.waiters⟩
  rw [hzero, hempty, pendingIn_nil]

variable (cfg) in
theorem message_plain (m : Message) (k : Nat) : PlainTick k m.tick ∧ ∀ s, m.tick.pendingIn cfg s = 0 := by
  cases m with
  | addEvent e step counts => exact ⟨⟨rfl, rfl, ScopeOk.nil k⟩, fun s => by simp [Message.tick, WorkflowTick.pendingIn]⟩
  | cancelRun => exact ⟨trivial, fun _ => rfl⟩
  | publishEvent e => exact ⟨trivial, fun _ => rfl⟩

theorem timer_plain {t : WorkflowTick} (h : t.isTimer) (k : Nat) : PlainTick k t ∧ ∀ s, t.pendingIn cfg s = 0 := by
  cases t <;> first | exact ⟨trivial, fun _ => rfl⟩ | cases h

/-- Every action of a plain run keeps the invariant. -/
theorem step_plain (hrun : PlainLoop cfg owed L) {a : Action} (ha : a.isPlain) {L' : Loop}
    (hstep : L.step cfg runId a = some L') : PlainRun cfg owed L' := by
  have hL := outcome_of_step hstep
  have ⟨hstate, hbuffer, hmail, hwake⟩ := hrun
  have hgo : ∀ {L'' : Loop}, L''.outcome = none → PlainLoop cfg owed L'' → PlainRun cfg owed L'' := fun ho hl =>
    ⟨hl.state.accounts.quiet, fun _ => hl, fun _ hne => absurd ho hne⟩
  cases step_moves hstep with
  | @rotates now t ts hb =>
    have hperm : ((t :: ts) ++ [WorkflowTick.idleCheck]).Perm L.tickBuffer := by
      rw [hb]
      exact List.perm_append_comm
    refine hgo hL ⟨?_, fun t' ht' => hbuffer t' (hperm.mem_iff.1 ht'), hmail, hwake⟩
    exact ⟨hstate.accounts.congr fun s => by rw [pendingIn_perm hperm], hstate.positive, hstate.waiters⟩
  | @processes now tick rest hb _ =>
    -- the tick is reduced with the rest of the buffer pending
    rw [hb] at hstate hbuffer
    refine processTick_plain
      (L := { L with tickBuffer := rest, idleCheckPending := decide (tick ≠ .idleCheck) && L.idleCheckPending }) hL
      (hbuffer tick List.mem_cons_self) ?_ (fun t' ht' => hbuffer t' (List.mem_cons_of_mem tick ht')) hmail hwake
    exact ⟨hstate.accounts.congr fun s => by rw [pendingIn_cons]; ring, hstate.positive, hstate.waiters⟩
  | takesDue now hempty =>
    refine hgo hL (buffered_plain hrun hempty rfl (fun t ht => ?_) hmail fun e he =>
      hwake e ((List.dropWhile_sublist _).subset he))
    rw [Loop.popDueTicks, hempty, List.nil_append] at ht
    obtain ⟨e, he, rfl⟩ := List.mem_map.1 ht
    exact timer_plain (hwake e ((List.takeWhile_sublist _).subset he)) _
  | @pulls t ts hempty hbox =>
    obtain ⟨m, rfl⟩ := hmail t (hbox ▸ List.mem_cons_self)
    refine hgo hL (buffered_plain hrun hempty rfl (fun t' ht' => ?_) (fun t' ht' =>
      hmail t' (hbox ▸ List.mem_cons_of_mem _ ht')) hwake)
    rw [List.mem_singleton] at ht'
    exact ht' ▸ message_plain cfg m _
  | @finishes i w program failedAt hempty _ =>
    refine hgo hL (buffered_plain hrun hempty rfl (fun t ht => ?_) hmail hwake)
    rw [hempty] at ht
    rw [List.mem_singleton.1 ht]
    exact ⟨workerTick_plain cfg runId L w ha failedAt, fun _ => rfl⟩
  | sends message =>
    refine hgo hL ⟨hstate, hbuffer, fun t ht => ?_, hwake⟩
    rcases List.mem_append.1 ht with ht | ht
    · exact hmail t ht
    · exact ⟨message, List.mem_singleton.1 ht⟩

/-- A fresh state owes nothing to any stream. -/
theorem plainState_of_fresh {σ : BrokerState} (h : σ.IsFresh) : PlainState cfg σ 0 := by
  obtain ⟨hw, hs, hr, hl⟩ := h
  have hrec : ∀ n, (σ.workers n).records = 0 := fun n => by
    simp [InternalStepWorkerState.records, (hw n).1, (hw n).2.1]
  refine ⟨⟨⟨fun s st hst => ?_, fun n r hr' => ?_, fun s id r hr' => ?_⟩, fun s => ?_, fun e he => ?_⟩, fun s st hst => ?_,
    fun n => (hw n).2.2⟩
  · rw [hs] at hst
    cases hst
  · rw [hrec] at hr'
    cases hr'
  · rw [hr] at hr'
    cases hr'
  · have hwork : σ.workIn cfg s = 0 := by
      refine List.sum_eq_zero fun k hk => ?_
      obtain ⟨q, -, rfl⟩ := List.mem_map.1 hk
      dsimp only
      rw [workIn_eq_countP, hrec]
      rfl
    rw [hwork, BrokerState.counter, BrokerState.childrenIn, hs]
    rfl
  · rw [hl] at he
    cases he
  · rw [hs] at hst
    cases hst

theorem rehydrate_of_none {σ : BrokerState} (h : ∀ n, (σ.workers n).collectedWaiters = []) : rehydrateWithTicks cfg σ = [] := by
  rw [rehydrateWithTicks, List.flatMap_eq_nil_iff]
  intro q _
  rw [h q.1]
  rfl

/-- A run that starts, with or without a start event, from a state with its books in order satisfies the invariant. -/
theorem start_plain {σ : BrokerState} (h : PlainState cfg σ fun s => owed s) (e : Option Event) (now : Time) :
    PlainRun cfg owed (Loop.start cfg σ e now) := by
  obtain ⟨⟨hstate, -⟩, hcs⟩ := rewind_plain h
  have hnew := newTicks_of_no_queue fun d hd => (hcs d hd).2
  obtain ⟨L, hL, heq⟩ := start_eq cfg σ e now
  have hbuffer : ∀ t ∈ L.tickBuffer, PlainTick L.state.streamSeq t ∧ ∀ s, t.pendingIn cfg s = 0 := by
    intro t ht
    rw [hL.tickBuffer, rehydrate_of_none h.waiters, List.nil_append, Option.mem_toList, Option.map_eq_some_iff] at ht
    obtain ⟨e, -, rfl⟩ := ht
    exact message_plain cfg (.addEvent e none ∅) _
  have hzero : ∀ s, pendingIn cfg L.tickBuffer s = 0 := fun s => List.sum_eq_zero (by simpa using fun t ht => (hbuffer t ht).2 s)
  rw [heq]
  refine processCommands_plain (fun d hd => (hcs d hd).1) hL.outcome ?_ (fun t ht => (hbuffer t ht).1) (by simp [hnew])
    (by simp [hL.mailbox]) (starts_isTimer hL)
  rw [hL.state]
  exact ⟨hstate.accounts.congr fun s => by simp [hzero, hnew], hstate.positive, hstate.waiters⟩

/-- Every state that a plain run reaches satisfies the invariant. -/
theorem run_plain {σ : BrokerState} (h : σ.IsFresh) {e : Event} {now : Time} {L : Loop}
    (hrun : Lib.Run (Loop.step cfg runId) (fun _ a => a.isPlain) (Loop.start cfg σ (some e) now) L) : PlainRun cfg 0 L :=
  hrun.invariant (PlainRun cfg 0) (start_plain (plainState_of_fresh h) e now) fun _ _ _ hL ha hs =>
    step_plain (hL.running (outcome_of_step hs)) ha hs

end PlainAux

end LlamaAgents
