import LlamaAgents.Lemmas.Slots

/-!
# What becomes of the work of a step

Outside a wakeup and the end of one of its own executions, a step's queue, executions and collect buffers change in two ways
only: they stay, or a first attempt without a delay is added. `WorkMove` says so of one step and `WorkMoves` of every configured one;
each function of the reducer is shown once to move work like this.
-/

namespace LlamaAgents

open Lib (Dict)

/-- How the work of a step changes outside a wakeup and the end of one of its executions. -/
inductive WorkMove (now : Time) (c : StepConfig) (n : StepId) : InternalStepWorkerState → InternalStepWorkerState → Prop
  | rests {w w' : InternalStepWorkerState} (queue : w'.queue = w.queue) (executions : w'.inProgress = w.inProgress)
      (collected : w'.collectedEvents = w.collectedEvents) : WorkMove now c n w w'
  | adds {w : InternalStepWorkerState} {a : EventAttempt} (eligible : a.isEligible) (first : a.attempts.getD 0 = 0) :
      WorkMove now c n w (addOrEnqueueEvent c n a now w).1
  | seq {w w' w'' : InternalStepWorkerState} : WorkMove now c n w w' → WorkMove now c n w' w'' → WorkMove now c n w w''

/-- The work of every configured step changes like this. -/
def WorkMoves (cfg : BrokerConfig) (now : Time) (σ σ' : BrokerState) : Prop :=
  ∀ n c, cfg.steps.get? n = some c → WorkMove now c n (σ.workers n) (σ'.workers n)

theorem WorkMove.refl {now : Time} {c : StepConfig} {n : StepId} (w : InternalStepWorkerState) : WorkMove now c n w w :=
  rests rfl rfl rfl

/-- An attempt is added after the waiters have changed. -/
theorem WorkMove.resumes {now : Time} {c : StepConfig} {n : StepId} {w : InternalStepWorkerState} (ys : List StepWorkerWaiter)
    {a : EventAttempt} (eligible : a.isEligible) (first : a.attempts.getD 0 = 0) :
    WorkMove now c n w (addOrEnqueueEvent c n a now { w with collectedWaiters := ys }).1 := by
  have hset : WorkMove now c n w { w with collectedWaiters := ys } := rests rfl rfl rfl
  exact hset.seq (adds eligible first)

namespace WorkMoves

variable {cfg : BrokerConfig} {now : Time} {σ σ' σ'' : BrokerState}

/-- The workers stay. -/
theorem of_workers (h : σ'.workers = σ.workers) : WorkMoves cfg now σ σ' := by
  intro n _ _
  rw [h]
  exact WorkMove.refl _

theorem refl (σ : BrokerState) : WorkMoves cfg now σ σ := of_workers rfl

theorem trans (h : WorkMoves cfg now σ σ') (h' : WorkMoves cfg now σ' σ'') : WorkMoves cfg now σ σ'' :=
  fun n c hc => (h n c hc).seq (h' n c hc)

/-- Only the workers of the first state matter. -/
theorem of_eq (h : WorkMoves cfg now σ' σ'') (hw : σ'.workers = σ.workers) : WorkMoves cfg now σ σ'' :=
  (of_workers hw).trans h

/-- The work of one step changes. -/
theorem setWorker {n : StepId} {c : StepConfig} (hc : cfg.steps.get? n = some c) {w : InternalStepWorkerState}
    (h : WorkMove now c n (σ.workers n) w) : WorkMoves cfg now σ (σ.setWorker n w) := by
  intro m c' hc'
  rw [BrokerState.setWorker_workers]
  by_cases hm : m = n
  · subst hm
    rw [hc] at hc'
    cases hc'
    rwa [Function.update_self]
  · rw [Function.update_of_ne hm]
    exact WorkMove.refl _

end WorkMoves

namespace WorkMovesAux

variable {cfg : BrokerConfig} {now : Time} {runId : Option String} {σ : BrokerState} {r : BrokerState × List WorkflowCommand}
  {n : StepId} {c : StepConfig}

/-! ## Streams -/

/-- The bookkeeping of streams moves work like this, that of a finished execution too. -/
theorem serves_moves (h : Serves now cfg.Binds σ r) : WorkMoves cfg now σ r.1 := by
  induction h with
  | keeps hw _ _ _ _ => exact WorkMoves.of_workers hw
  | fires hb s es out => exact (WorkMoves.setWorker hb.step (.adds rfl rfl)).trans (WorkMoves.of_workers rfl)
  | seq _ _ ih ih' => exact ih.trans ih'

/-! ## Routing -/

/-- An event that is no retry replaces no delayed attempt. -/
theorem consume_eq {tick : TickAddEvent} (htick : tick.attempts.getD 0 = 0) (w : InternalStepWorkerState) :
    consumeSupersededDelayedAttempt tick w = w := by
  rw [consumeSupersededDelayedAttempt, if_pos htick]

theorem staticCollectEvents_move (e : Event) (ps : List (String × EventType))
    (w : InternalStepWorkerState) : WorkMove now c n w (staticCollectEvents e c ps w).1 := by
  unfold staticCollectEvents
  dsimp only
  split <;> exact .rests rfl rfl rfl

theorem deliverToStep_moves {tick : TickAddEvent} (htick : tick.attempts.getD 0 = 0)
    (hc : cfg.steps.get? n = some c) (σ : BrokerState) : WorkMoves cfg now σ (deliverToStep cfg c tick n now σ).1 := by
  unfold deliverToStep
  rw [consume_eq htick]
  dsimp only
  split
  · exact WorkMoves.setWorker hc (.adds rfl htick)
  · case h_2 ps _ =>
    have hstatic : WorkMove now c n (σ.workers n) (staticCollectEvents tick.event c ps (σ.workers n)).1 :=
      staticCollectEvents_move tick.event ps (σ.workers n)
    split
    · exact (WorkMoves.setWorker hc hstatic).trans (serves_moves (Serves.adjust cfg now _ _ _))
    · exact WorkMoves.setWorker hc (hstatic.seq (.adds rfl htick))

/-- Routing only adds work. -/
theorem routes_moves {tick : TickAddEvent} (htick : tick.attempts.getD 0 = 0) (h : Routes cfg now tick σ r) :
    WorkMoves cfg now σ r.1 := by
  induction h with
  | serves h => exact serves_moves h
  | fails n e => exact WorkMoves.of_workers rfl
  | delivers hc => exact deliverToStep_moves htick hc _
  | seq _ _ ih ih' => exact ih.trans ih'

/-! ## Ticks -/

/-- Updates of one step after the other move work when each of them does. -/
theorem forEachStep_moves {f : StepConfig → StepId → InternalStepWorkerState → InternalStepWorkerState × List WorkflowCommand}
    {l : List (StepId × StepConfig)} (hl : ∀ q ∈ l, cfg.steps.get? q.1 = some q.2)
    (hf : ∀ c n w, WorkMove now c n w (f c n w).1) (σ : BrokerState) : WorkMoves cfg now σ (forEachStep f l σ).1 := by
  induction l generalizing σ with
  | nil => exact WorkMoves.refl σ
  | cons q l ih =>
    obtain ⟨hc, hl⟩ := List.forall_mem_cons.1 hl
    exact (WorkMoves.setWorker hc (hf q.2 q.1 _)).trans (ih hl _)

theorem resolveStepWaiters_move (c : StepConfig) (n : StepId) (e : Event) (seen ys : List StepWorkerWaiter)
    (w : InternalStepWorkerState) : WorkMove now c n w (resolveStepWaiters c n e now seen ys w).1 := by
  induction ys generalizing seen w with
  | nil => exact WorkMove.refl w
  | cons y ys ih =>
    rw [resolveStepWaiters]
    split
    · exact (WorkMove.resumes _ rfl rfl).seq (ih _ _)
    · exact ih _ _

theorem processWaiterTimeoutTick_moves (n : StepId) (id : WaiterId) (σ : BrokerState) :
    WorkMoves cfg now σ (processWaiterTimeoutTick cfg n id σ now).1 := by
  unfold processWaiterTimeoutTick
  split
  · exact WorkMoves.refl σ
  · case h_2 c hc =>
    dsimp only
    split
    · exact WorkMoves.refl σ
    · split
      · exact WorkMoves.refl σ
      · exact WorkMoves.setWorker hc (.resumes _ rfl rfl)

theorem mem_entries_get? {q : StepId × StepConfig} (h : q ∈ cfg.steps.entries) : cfg.steps.get? q.1 = some q.2 :=
  (cfg.steps.get?_eq_some_iff q.1 q.2).2 h

theorem processAddEventTick_moves {tick : TickAddEvent} (htick : tick.attempts.getD 0 = 0)
    (hr : processAddEventTick cfg tick σ now = .ok r) : WorkMoves cfg now σ r.1 := by
  obtain ⟨⟨hworkers, -⟩, -, -, -, hattempts, -⟩ := PlainAux.identifyWorkItem_fields tick σ
  have htick' : (identifyWorkItem tick σ).2.attempts.getD 0 = 0 := by
    rw [hattempts]
    exact htick
  unfold processAddEventTick at hr
  dsimp only at hr
  split at hr
  · unfold redeliverCollectionPayload at hr
    split at hr
    · cases hr
    · split at hr
      · cases hr
      · case h_2 c hc =>
        cases hr
        exact (WorkMoves.setWorker hc (.adds rfl htick')).of_eq hworkers
  · have hwoken : WorkMoves cfg now (identifyWorkItem tick σ).1
        (resolveWaiters cfg (identifyWorkItem tick σ).2.event now (identifyWorkItem tick σ).1).1 :=
      forEachStep_moves (fun _ => mem_entries_get?) (fun c n w => resolveStepWaiters_move c n _ [] w.collectedWaiters w) _
    have hmoves := hwoken.trans (routes_moves htick' (RoutingAux.routeToAcceptingSteps_routes cfg now _
      (waiterResolvedSteps cfg (identifyWorkItem tick σ).2.event (identifyWorkItem tick σ).1) (fun _ => mem_entries_get?) _))
    split at hr <;> cases hr <;> exact hmoves.of_eq hworkers

/-- A tick that tells no execution's result, wakes nothing and brings no attempt of its own moves work like this. -/
theorem reduceTick_moves {tick : WorkflowTick} (hresult : ∀ t, tick ≠ .stepResult t) (hwakeup : ∀ due, tick ≠ .wakeup due)
    (hadd : ∀ t, tick = .addEvent t → t.attempts.getD 0 = 0)
    (hr : reduceTick cfg tick σ now runId = .ok r) : WorkMoves cfg now σ r.1 := by
  unfold reduceTick at hr
  cases tick with
  | stepResult t => exact absurd rfl (hresult t)
  | addEvent t =>
    obtain ⟨r', hr', rfl⟩ := PlainAux.map_eq_ok hr
    rw [CommandsAux.withIdleCheck_fst]
    exact processAddEventTick_moves (hadd t rfl) hr'
  | cancelRun | publishEvent e | timeout t =>
    cases hr
    rw [CommandsAux.withIdleCheck_fst]
    exact WorkMoves.of_workers rfl
  | waiterTimeout n id =>
    cases hr
    rw [CommandsAux.withIdleCheck_fst]
    exact processWaiterTimeoutTick_moves n id σ
  | idleCheck =>
    cases hr
    unfold processIdleCheckTick
    split
    · split <;> exact WorkMoves.of_workers rfl
    · exact WorkMoves.refl σ
  | idleRelease =>
    cases hr
    exact WorkMoves.refl σ
  | wakeup due => exact absurd rfl (hwakeup due)

theorem mem_sortedSteps (hc : cfg.steps.get? n = some c) : (n, c) ∈ cfg.sortedSteps :=
  (List.mem_insertionSort _).2 ((cfg.steps.get?_eq_some_iff n c).1 hc)

/-- A wakeup wakes the delayed attempts of every step and drains its queue. -/
theorem wakeup_workers {due : Time}
    (hr : reduceTick cfg (.wakeup due) σ now runId = .ok r) (hc : cfg.steps.get? n = some c) :
    r.1.workers n = (drainEligibleQueue c n now
      { σ.workers n with queue := (σ.workers n).queue.map fun a => a.wake due }).1 := by
  cases hr
  rw [CommandsAux.withIdleCheck_fst]
  exact (PlainAux.forEachStep_workers (PlainAux.nodup_sortedSteps cfg) σ).1 (n, c) (mem_sortedSteps hc)

/-! ## The end of an execution -/

/-- What the results of an execution do to the state when none of them is a stop event: other steps stay, executions keep their
slots, and attempts are put in front of the queue, with a wakeup for each one that is delayed. -/
structure Folded (tick : TickStepResult) (id : Nat) (σ : BrokerState) (acc : StepResultAcc) : Prop where
  others : ∀ m, m ≠ tick.stepId → acc.state.workers m = σ.workers m
  slots : (acc.state.workers tick.stepId).slots = (σ.workers tick.stepId).slots
  queue : ∃ front, (acc.state.workers tick.stepId).queue = front ++ (σ.workers tick.stepId).queue ∧
    ∀ a ∈ front, 0 < a.attempts.getD 0 ∧ ∀ t, a.notBefore = some t → WorkflowCommand.scheduleWakeup t ∈ acc.commands
  execution : acc.execution.workerId = id

section Results

variable {runId : Option String} (c : StepConfig) {tick : TickStepResult} (scope : FanOutScope) (done : Bool) {id : Nat}
  {σ : BrokerState} {acc : StepResultAcc}

theorem Folded.start {σ' : BrokerState} (hw : σ'.workers = σ.workers) (x : InProgressState) :
    Folded tick x.workerId σ { state := σ', execution := x } :=
  ⟨fun m _ => congrFun hw m, by rw [hw], ⟨[], by rw [hw, List.nil_append], by simp⟩, rfl⟩

/-- Results that change neither the queue nor the slots. -/
theorem Folded.next (h : Folded tick id σ acc) {acc' : StepResultAcc}
    (others : ∀ m, m ≠ tick.stepId → acc'.state.workers m = acc.state.workers m)
    (slots : (acc'.state.workers tick.stepId).slots = (acc.state.workers tick.stepId).slots)
    (queue : (acc'.state.workers tick.stepId).queue = (acc.state.workers tick.stepId).queue)
    (execution : acc'.execution.workerId = acc.execution.workerId) (commands : acc.commands <+: acc'.commands) :
    Folded tick id σ acc' := by
  obtain ⟨front, hfront, hwakes⟩ := h.queue
  exact ⟨fun m hm => (others m hm).trans (h.others m hm), slots.trans h.slots,
    ⟨front, queue.trans hfront, fun a ha => ⟨(hwakes a ha).1, fun t ht => commands.subset ((hwakes a ha).2 t ht)⟩⟩, execution.trans h.execution⟩

/-- Results that set the worker state of their step, with the slots and the queue as they are. -/
theorem Folded.set (h : Folded tick id σ acc) {w : InternalStepWorkerState} {acc' : StepResultAcc}
    (state : acc'.state = acc.state.setWorker tick.stepId w) (slots : w.slots = (acc.state.workers tick.stepId).slots)
    (queue : w.queue = (acc.state.workers tick.stepId).queue)
    (execution : acc'.execution.workerId = acc.execution.workerId) (commands : acc.commands <+: acc'.commands) :
    Folded tick id σ acc' := by
  refine h.next ?_ ?_ ?_ execution commands
  · intro m hm
    rw [state, BrokerState.setWorker_workers, Function.update_of_ne hm]
  · rw [state, BrokerState.setWorker_workers, Function.update_self, slots]
  · rw [state, BrokerState.setWorker_workers, Function.update_self, queue]

theorem failed_folded (h : Folded tick id σ acc) (f : StepWorkerFailed) :
    Folded tick id σ (scheduleRetryOrRouteFailure cfg c tick runId f acc) := by
  rcases StepResultAux.scheduleRetryOrRouteFailure_cases cfg c tick runId f acc with
    ⟨-, notBefore, heq⟩ | ⟨-, key, handler, d, -, -, heq⟩ | ⟨-, e, heq⟩
  · obtain ⟨front, hfront, hwakes⟩ := h.queue
    rw [heq]
    refine ⟨fun m hm => ?_, ?_, ⟨acc.execution.retried f (f.firstAttempt acc.execution) notBefore :: front, ?_, ?_⟩, h.execution⟩
    · dsimp only
      rw [BrokerState.setWorker_workers, Function.update_of_ne hm, h.others m hm]
    · simp only [BrokerState.setWorker_workers, Function.update_self]
      exact h.slots
    · simp only [BrokerState.setWorker_workers, Function.update_self, hfront, List.cons_append]
    · intro a ha
      rcases List.mem_cons.1 ha with rfl | ha
      · refine ⟨Nat.succ_pos _, fun t ht => ?_⟩
        cases ht
        simp
      · exact ⟨(hwakes a ha).1, fun t ht => List.mem_append_left _ ((hwakes a ha).2 t ht)⟩
  · rw [heq]
    exact h.next (fun _ _ => rfl) rfl rfl rfl (List.prefix_append _ _)
  · rw [heq]
    exact h.next (fun _ _ => rfl) rfl rfl rfl (List.prefix_append _ _)

/-- A result that does not stop the run changes the worker of its step as `Folded` says. -/
theorem applyStepResult_folded (h : Folded tick id σ acc) {r : StepFunctionResult} (hr : Loop.stops r = false) :
    Folded tick id σ (applyStepResult cfg c tick scope done runId acc r) := by
  have hcommands := SlotsAux.applyStepResult_commands cfg runId c tick scope done acc r
  cases r with
  | result e fanned =>
    cases e with
    | none => exact h.next (fun _ _ => rfl) rfl rfl rfl hcommands
    | some e =>
      have hstop : ¬ e.isStop = true := by simpa [Loop.stops] using hr
      rw [applyStepResult, if_neg hstop] at hcommands ⊢
      exact h.next (fun _ _ => rfl) rfl rfl rfl hcommands
  | failed f => exact failed_folded c h f
  | addCollected b e =>
    rw [applyStepResult] at hcommands ⊢
    dsimp only at hcommands ⊢
    split at hcommands
    · case isTrue hstale =>
      rw [if_pos hstale]
      exact h.set rfl (SlotsAux.updateExecution_slots _ _ _) rfl rfl hcommands
    · case isFalse hstale =>
      rw [if_neg hstale]
      exact h.set rfl rfl rfl rfl hcommands
  | deleteCollected b =>
    rw [applyStepResult]
    split
    · exact h.set rfl rfl rfl rfl List.prefix_rfl
    · exact h
  | addWaiter add =>
    rw [applyStepResult] at hcommands ⊢
    dsimp only at hcommands ⊢
    split at hcommands
    · case isTrue hknown =>
      rw [if_pos hknown]
      exact h.set rfl rfl rfl rfl hcommands
    · case isFalse hknown =>
      rw [if_neg hknown]
      exact h.set rfl rfl rfl rfl hcommands
  | deleteWaiter i =>
    rw [applyStepResult]
    split
    · exact h.set rfl rfl rfl rfl List.prefix_rfl
    · exact h

theorem foldl_folded {rs : List StepFunctionResult} (hrs : ∀ r ∈ rs, Loop.stops r = false) (h : Folded tick id σ acc) :
    Folded tick id σ (rs.foldl (applyStepResult cfg c tick scope done runId) acc) := by
  induction rs generalizing acc with
  | nil => exact h
  | cons r rs ih =>
    obtain ⟨hr, hrs⟩ := List.forall_mem_cons.1 hrs
    exact ih hrs (applyStepResult_folded c scope done h hr)

end Results

/-- What an execution's result does to the work of the steps when the run goes on. The execution runs again, and only its
snapshot has changed; or attempts are put in front of its step's queue, work moves while the execution is resolved in its
stream, and at last the queue is drained, after the execution has given up its slot unless it runs again. -/
inductive WorkEnds (cfg : BrokerConfig) (now : Time) (tick : TickStepResult) (σ : BrokerState)
    (r : BrokerState × List WorkflowCommand) : Prop
  | reruns (others : ∀ m, m ≠ tick.stepId → r.1.workers m = σ.workers m)
      (slots : (r.1.workers tick.stepId).slots = (σ.workers tick.stepId).slots)
      (queue : (r.1.workers tick.stepId).queue = (σ.workers tick.stepId).queue)
  | ends (c : StepConfig) (config : cfg.steps.get? tick.stepId = some c) (front : List EventAttempt)
      (w₁ w₂ : InternalStepWorkerState)
      (others : ∀ m, m ≠ tick.stepId → ∀ c', cfg.steps.get? m = some c' → WorkMove now c' m (σ.workers m) (r.1.workers m))
      (slots : w₁.slots = (σ.workers tick.stepId).slots) (queue : w₁.queue = front ++ (σ.workers tick.stepId).queue)
      (wakeups : ∀ a ∈ front, 0 < a.attempts.getD 0 ∧ ∀ t, a.notBefore = some t → WorkflowCommand.scheduleWakeup t ∈ r.2)
      (moved : WorkMove now c tick.stepId w₁ w₂)
      (drained : ∃ w₃, (w₃ = w₂ ∨ ∃ id, w₃ = w₂.eraseExecution id) ∧
        r.1.workers tick.stepId = (drainEligibleQueue c tick.stepId now w₃).1)

/-- The end of an execution whose run goes on: its step's queue is drained, and the others stay. -/
theorem finishExecution_work {tick : TickStepResult} {acc : StepResultAcc}
    (hexit : ∀ d ∈ (finishExecution c tick acc now).2, d.indicatesExit = false) :
    (∀ m, m ≠ tick.stepId → (finishExecution c tick acc now).1.workers m = acc.state.workers m) ∧
      (∃ w, (w = acc.state.workers tick.stepId ∨ ∃ id, w = (acc.state.workers tick.stepId).eraseExecution id) ∧
        (finishExecution c tick acc now).1.workers tick.stepId = (drainEligibleQueue c tick.stepId now w).1) ∧
      ∀ d ∈ acc.commands, d ∈ (finishExecution c tick acc now).2 := by
  have hcommands := SlotsAux.finishExecution_commands now c tick acc
  have hgoes : acc.commands.any WorkflowCommand.indicatesExit = false := by
    rw [List.any_eq_false]
    exact fun d hd hd' => Bool.false_ne_true ((hexit d (hcommands d hd)).symm.trans hd')
  refine ⟨fun m hm => ?_, ⟨(SlotsAux.endedState tick acc).workers tick.stepId, ?_, ?_⟩, hcommands⟩
  · rw [SlotsAux.finishExecution_eq, SlotsAux.drainUnless, hgoes, if_neg Bool.false_ne_true]
    unfold SlotsAux.endedState
    split <;> simp [Function.update_of_ne hm]
  · unfold SlotsAux.endedState
    split
    · exact Or.inr ⟨acc.execution.workerId, by simp⟩
    · exact Or.inl rfl
  · rw [SlotsAux.finishExecution_eq, SlotsAux.drainUnless, hgoes, if_neg Bool.false_ne_true]
    simp

/-- An execution that runs again keeps its slot, and the queue stays. -/
theorem rerun_ends {tick : TickStepResult} {x : InProgressState} {rerun : InternalStepWorkerState × List WorkflowCommand}
    (hrerun : rerunForStaleCollectBuffer tick (σ.workers tick.stepId) x = some rerun) :
    WorkEnds cfg now tick σ (σ.setWorker tick.stepId rerun.1, rerun.2) := by
  unfold rerunForStaleCollectBuffer at hrerun
  split at hrerun <;> cases hrerun
  refine .reruns (fun m hm => ?_) ?_ ?_
  · dsimp only
    rw [BrokerState.setWorker_workers, Function.update_of_ne hm]
  · dsimp only
    rw [BrokerState.setWorker_workers, Function.update_self, SlotsAux.updateExecution_slots]
  · dsimp only
    rw [BrokerState.setWorker_workers, Function.update_self]
    rfl

/-- The result of an execution ends its work as described, unless it ends the run. -/
theorem stepResult_ends {tick : TickStepResult} (hr : processStepResultTick cfg tick σ now runId = .ok r)
    (hexit : ∀ d ∈ r.2, d.indicatesExit = false) : WorkEnds cfg now tick σ r := by
  cases CommandsAux.processStepResultTick_moves hr with
  | reruns _ _ hrerun => exact rerun_ends hrerun
  | @applies c x started acc resolved hc hx hstarted hacc hres =>
    obtain ⟨hothers, hdrained, hcommands⟩ := finishExecution_work hexit
    -- a stop event would have ended the run
    have hstops : ∀ q ∈ tick.result, Loop.stops q = false := by
      intro q hq
      by_contra hstop
      obtain ⟨d, hd, hd'⟩ := SlotsAux.foldl_exit cfg runId c tick started.2 (tick.result.any StepFunctionResult.isResult)
        (List.any_eq_true.2 ⟨q, hq, Bool.eq_true_of_not_eq_false hstop⟩) { state := started.1, execution := x }
      rw [← hacc] at hd
      exact Bool.false_ne_true ((hexit d (hcommands d (List.mem_append_left _ hd))).symm.trans hd')
    have hworkers : started.1.workers = σ.workers := hstarted ▸ SlotsAux.fanOutScope_workers σ tick.stepId x _
    have hfolded := @foldl_folded cfg runId c tick started.2 (tick.result.any StepFunctionResult.isResult) x.workerId σ _ tick.result
      hstops (Folded.start hworkers x)
    rw [← hacc] at hfolded
    have hmoves := serves_moves (Serves.resolve hres)
    obtain ⟨front, hfront, hwakes⟩ := hfolded.queue
    refine .ends c hc front _ _ (fun m hm c' hc' => ?_) hfolded.slots hfront
      (fun a ha => ⟨(hwakes a ha).1, fun t ht => hcommands _ (List.mem_append_left _ ((hwakes a ha).2 t ht))⟩) (hmoves tick.stepId c hc) hdrained
    rw [hothers m hm, ← hfolded.others m hm]
    exact hmoves m c' hc'

end WorkMovesAux

end LlamaAgents
