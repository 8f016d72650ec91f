import Mathlib.Data.List.Sort
import LlamaAgents.Streams

/-!
# The reducer

`control_loop/reduce.py`: what each tick does to the broker's state, and the commands it answers with. A reduction that raises
in the source is an error here.
-/

namespace LlamaAgents

open Lib (Dict)

variable (cfg : BrokerConfig)

/-- The steps in the order of their names. -/
def BrokerConfig.sortedSteps : List (StepId × StepConfig) := cfg.steps.entries.insertionSort fun a b => a.1 ≤ b.1

/-- Run an update of the worker state of each step, one after the other. -/
def forEachStep (f : StepConfig → StepId → InternalStepWorkerState → InternalStepWorkerState × List WorkflowCommand) :
    List (StepId × StepConfig) → BrokerState → BrokerState × List WorkflowCommand
  | [], σ => (σ, [])
  | (n, c) :: l, σ =>
    let done := f c n (σ.workers n)
    let rest := forEachStep f l (σ.setWorker n done.1)
    (rest.1, done.2 ++ rest.2)

/-! ## Rewinding and idleness -/

/-- The attempt that an interrupted execution is queued again as. -/
def InProgressState.rewound (x : InProgressState) : EventAttempt where
  event := x.event
  boundEvents := x.boundEvents
  attempts := some x.attempts
  firstAttemptAt := some x.firstAttemptAt
  lastException := x.lastException
  lastFailedAt := x.lastFailedAt
  recoveryCounts := x.recoveryCounts
  scopePath := x.scopePath
  collectionReleasePayload := x.sharedState.collectionReleasePayload
  workItemId := x.workItemId

/-- One step's turn in `rewind_in_progress`: each execution goes to the front of the queue, then what is eligible is
dispatched again and a wakeup is scheduled for each attempt that is not. -/
def rewindStep (now : Time) (c : StepConfig) (n : StepId) (w : InternalStepWorkerState) :
    InternalStepWorkerState × List WorkflowCommand :=
  let queue := (w.inProgress.map InProgressState.rewound).reverse ++ w.queue
  let drained := drainEligibleQueue c n now { w with queue := queue, inProgress := [] }
  (drained.1, drained.2 ++ drained.1.queue.filterMap fun a => a.notBefore.map WorkflowCommand.scheduleWakeup)

/-- `rewind_in_progress`. -/
def rewindInProgress (now : Time) (σ : BrokerState) : BrokerState × List WorkflowCommand :=
  forEachStep (rewindStep now) cfg.sortedSteps σ

/-- `_check_idle_state`. -/
def checkIdleState (σ : BrokerState) : Bool :=
  σ.isRunning && cfg.steps.keys.all fun n => (σ.workers n).queue.isEmpty && (σ.workers n).inProgress.isEmpty

/-- `_next_work_item_id`, with the state that has the counter advanced. -/
def nextWorkItemId (σ : BrokerState) : BrokerState × WorkItemId :=
  ({ σ with workItemSeq := σ.workItemSeq + 1 }, .item (σ.workItemSeq + 1))

/-- `_decide_retry_delay`. -/
def decideRetryDelay (policy : Option RetryPolicy) (elapsedTime : Time) (failures : Nat) (exception : Exn)
    (runId : Option String) (step : StepId) : Option Time :=
  policy.bind fun p => p.next elapsedTime failures exception (runId.map fun r => (r, step, failures))

/-! ## Step results -/

/-- `_collect_buffer_diverged`: the buffered events are compared by identity. -/
def collectBufferDiverged (live snapshot : List BufferedEvent) : Bool :=
  decide (live.map BufferedEvent.object ≠ snapshot.map BufferedEvent.object)

namespace InternalStepWorkerState

/-- The live buffer of `ctx.collect_events()` with an id. -/
def buffer (w : InternalStepWorkerState) (id : String) : List BufferedEvent := (w.collectedEvents.get? id).getD []

/-- The execution of a worker. -/
def execution? (w : InternalStepWorkerState) (id : Nat) : Option InProgressState := w.inProgress.find? fun x => x.workerId = id

/-- Update the execution of a worker in place. -/
def updateExecution (w : InternalStepWorkerState) (id : Nat) (f : InProgressState → InProgressState) :
    InternalStepWorkerState :=
  { w with inProgress := w.inProgress.modify (w.inProgress.findIdx fun x => x.workerId = id) f }

/-- Drop the execution of a worker. -/
def eraseExecution (w : InternalStepWorkerState) (id : Nat) : InternalStepWorkerState :=
  { w with inProgress := w.inProgress.eraseP fun x => x.workerId = id }

end InternalStepWorkerState

/-- The snapshot's buffer of `ctx.collect_events()` with an id. -/
def InProgressState.buffer (x : InProgressState) (id : String) : List BufferedEvent :=
  (x.sharedState.collectedEvents.get? id).getD []

/-- The execution with its collect snapshot brought up to date. -/
def InProgressState.refresh (x : InProgressState) (collected : Dict String (List BufferedEvent)) : InProgressState :=
  { x with sharedState := { x.sharedState with collectedEvents := collected } }

/-- Whether a result consumes a collect buffer that another worker has changed since the execution's snapshot. -/
def staleFiring (w : InternalStepWorkerState) (x : InProgressState) : StepFunctionResult → Bool
  | .deleteCollected id => collectBufferDiverged (w.buffer id) (x.buffer id)
  | _ => false

/-- `_rerun_for_stale_collect_buffer`. -/
def rerunForStaleCollectBuffer (tick : TickStepResult) (w : InternalStepWorkerState) (x : InProgressState) :
    Option (InternalStepWorkerState × List WorkflowCommand) :=
  if tick.result.any (staleFiring w x) then
    some (w.updateExecution x.workerId fun y => y.refresh w.collectedEvents,
      [.runWorker { stepId := tick.stepId, event := x.event, boundEvents := x.boundEvents, id := x.workerId }])
  else none

/-- `_FanOutScope`. -/
structure FanOutScope where
  triggerStack : ScopePath
  fannedOut : Bool
  fanOutStreamId : Option StreamId
  emitStack : ScopePath

/-- `_fan_out_scope`: an execution that returned a list mints a stream and emits into it. -/
def fanOutScope (σ : BrokerState) (step : StepId) (x : InProgressState) (fannedOut : Bool) : BrokerState × FanOutScope :=
  if fannedOut then
    let minted := mintStreamId σ x.scopePath step
    (minted.1, ⟨x.scopePath, true, some minted.2, x.scopePath ++ [minted.2]⟩)
  else (σ, ⟨x.scopePath, false, none, x.scopePath⟩)

/-- `_StepResultAcc`, with the state and the execution that the source mutates in place. -/
structure StepResultAcc where
  state : BrokerState
  execution : InProgressState
  commands : List WorkflowCommand := []
  outputEventName : Option String := none
  stepNoLongerInProgress : Bool := true
  redeliveryScheduled : Bool := false

/-- The attempt that a failed execution is retried as. -/
def InProgressState.retried (x : InProgressState) (failure : StepWorkerFailed) (firstAttemptAt : Time)
    (notBefore : Option Time) : EventAttempt where
  event := x.event
  boundEvents := x.boundEvents
  attempts := some (x.attempts + 1)
  firstAttemptAt := some firstAttemptAt
  lastException := some failure.exception
  lastFailedAt := some failure.failedAt
  recoveryCounts := x.recoveryCounts
  notBefore := notBefore
  scopePath := x.scopePath
  collectionReleasePayload := x.sharedState.collectionReleasePayload
  workItemId := x.workItemId

/-- The handler that a failed execution is routed to, with its recovery count, while its budget lasts. -/
def routedHandler (step : StepId) (x : InProgressState) : Option (CatchErrorHandler × Nat) :=
  ((cfg.handlerForStep.get? step).bind cfg.catchErrorHandlers.get?).bind fun h =>
    let newCount := (x.recoveryCounts.get? h.stepName).getD 0 + 1
    if newCount ≤ h.maxRecoveries then some (h, newCount) else none

/-- When a failed execution was first attempted: the failure's own record, or the execution's. -/
def StepWorkerFailed.firstAttempt (failure : StepWorkerFailed) (x : InProgressState) : Time :=
  failure.firstAttemptAt.getD x.firstAttemptAt

/-- The delay of a failed execution's retry, none when it is not retried: the decision in the failure, or the policy's. -/
def StepWorkerFailed.retryDelay (failure : StepWorkerFailed) (c : StepConfig) (step : StepId) (runId : Option String)
    (x : InProgressState) : Option Time :=
  match failure.retryDecision with
  | some decision => decision.delay
  | none => decideRetryDelay c.retryPolicy (failure.failedAt - failure.firstAttempt x) (x.attempts + 1) failure.exception runId step

/-- `_schedule_retry_or_route_failure`. -/
def scheduleRetryOrRouteFailure (c : StepConfig) (tick : TickStepResult) (runId : Option String) (failure : StepWorkerFailed)
    (acc : StepResultAcc) : StepResultAcc :=
  let step := tick.stepId
  let x := acc.execution
  let firstAttemptAt := failure.firstAttempt x
  match failure.retryDelay c step runId x with
  | some delay =>
    let notBefore := if 0 < delay then some (failure.failedAt + delay) else none
    let w := acc.state.workers step
    { acc with
      state := acc.state.setWorker step { w with queue := x.retried failure firstAttemptAt notBefore :: w.queue }
      commands := acc.commands ++ (notBefore.map WorkflowCommand.scheduleWakeup).toList
      redeliveryScheduled := true }
  | none =>
    let attempts := x.attempts + 1
    let elapsed := failure.failedAt - firstAttemptAt
    match routedHandler cfg step x with
    | some (h, newCount) =>
      { acc with
        commands := acc.commands ++ [.queueEvent
          { event := .stepFailed step tick.event failure.exception attempts elapsed failure.failedAt
            stepId := some h.stepName
            recoveryCounts := x.recoveryCounts.set h.stepName newCount
            scopePath := x.scopePath }]
        redeliveryScheduled := true }
    | none =>
      { acc with
        state := { acc.state with isRunning := false }
        commands := acc.commands ++ [.publishEvent (.workflowFailed step failure.exception (some attempts) (some elapsed)),
          .failWorkflow step failure.exception] }

/-- What a stop event leaves of the state: every worker's work, buffers and waiters are cleared, and the streams with them. -/
def stopped (σ : BrokerState) : BrokerState :=
  clearCollectionState { σ with isRunning := false, workers := fun _ => {} }

/-- The waiter that an `AddWaiter` registers, with the work item it suspends. -/
def AddWaiter.toWaiter (add : AddWaiter) (x : InProgressState) : StepWorkerWaiter where
  waiterId := add.waiterId
  event := x.event
  boundEvents := x.boundEvents
  waitingForEvent := add.eventType
  requirements := add.requirements
  hasRequirements := !add.requirements.isEmpty
  scopePath := x.scopePath
  collectionReleasePayload := x.sharedState.collectionReleasePayload
  workItemId := x.workItemId

/-- `_apply_step_result`. -/
def applyStepResult (c : StepConfig) (tick : TickStepResult) (scope : FanOutScope) (didCompleteStep : Bool)
    (runId : Option String) (acc : StepResultAcc) : StepFunctionResult → StepResultAcc
  | .result none _ => { acc with outputEventName := some "<class 'NoneType'>" }
  | .result (some e) _ =>
    if e.isStop then
      { acc with
        outputEventName := some e.typeText
        state := stopped acc.state
        commands := acc.commands ++ [.publishEvent e, .completeRun e] }
    else
      { acc with
        outputEventName := some e.typeText
        commands := acc.commands ++ (if e.isInstance .inputRequiredEvent then [.publishEvent e] else []) ++
          [.queueEvent { event := e, recoveryCounts := acc.execution.recoveryCounts, scopePath := scope.emitStack }] }
  | .failed failure => scheduleRetryOrRouteFailure cfg c tick runId failure acc
  | .addCollected id e =>
    let w := acc.state.workers tick.stepId
    let collected := w.buffer id
    if (acc.execution.buffer id).length < collected.length then
      -- another worker has buffered since this execution's snapshot: run it again on the live buffers
      let w := { w with collectedEvents := w.collectedEvents.set id collected }
      let x := acc.execution.refresh w.collectedEvents
      { acc with
        state := acc.state.setWorker tick.stepId (w.updateExecution x.workerId fun y => y.refresh w.collectedEvents)
        execution := x
        stepNoLongerInProgress := false
        commands := acc.commands ++
          [.runWorker { stepId := tick.stepId, event := e.event, boundEvents := x.boundEvents, id := x.workerId }] }
    else
      { acc with
        state := acc.state.setWorker tick.stepId
          { w with collectedEvents := w.collectedEvents.set id (collected ++ [e]) } }
  | .deleteCollected id =>
    let w := acc.state.workers tick.stepId
    if didCompleteStep then
      { acc with state := acc.state.setWorker tick.stepId { w with collectedEvents := w.collectedEvents.erase id } }
    else acc
  | .addWaiter add =>
    let w := acc.state.workers tick.stepId
    let waiter := add.toWaiter acc.execution
    if w.collectedWaiters.any fun y => y.waiterId = add.waiterId then
      let i := w.collectedWaiters.findIdx fun y => y.waiterId = add.waiterId
      { acc with state := acc.state.setWorker tick.stepId { w with collectedWaiters := w.collectedWaiters.set i waiter } }
    else
      { acc with
        state := acc.state.setWorker tick.stepId { w with collectedWaiters := w.collectedWaiters ++ [waiter] }
        commands := acc.commands ++ (add.waiterEvent.map WorkflowCommand.publishEvent).toList ++
          (add.timeout.map fun t => WorkflowCommand.scheduleWaiterTimeout tick.stepId add.waiterId t).toList }
  | .deleteWaiter id =>
    let w := acc.state.workers tick.stepId
    if didCompleteStep then
      { acc with
        state := acc.state.setWorker tick.stepId
          { w with collectedWaiters := w.collectedWaiters.eraseP fun y => y.waiterId = id } }
    else acc

/-- The `FANNED_OUT` branch of `_resolve_work_item_in_stream`: open the child stream, let the parent wait for each of its
releases, and close it at once when it holds no work. -/
def openChildStream (step : StepId) (scope : FanOutScope) (s : StreamId) (seed : Nat) (x : InProgressState) (now : Time)
    (σ : BrokerState) : BrokerState × List WorkflowCommand :=
  let ids := (cfg.bindingsForSource step).map CollectionBinding.id
  let stream : CollectionStreamInstance := ⟨s, step, scope.triggerStack, seed, ids⟩
  let σ := (σ.setStreams (σ.streams.set s stream)).report (.opened x stream)
  let parent := adjustOpenWorkItems cfg scope.triggerStack.getLast? ((ids.length : Int) - 1) now σ
  if seed = 0 then
    let child := closeCollectionStream cfg s now parent.1
    (child.1, parent.2 ++ child.2)
  else parent

/-- `_resolve_work_item_in_stream`. -/
def resolveWorkItemInStream (tick : TickStepResult) (scope : FanOutScope) (acc : StepResultAcc) (now : Time) :
    Except Exn (BrokerState × List WorkflowCommand) :=
  let emitted := tick.result.filterMap StepFunctionResult.emittedNonStop
  let successors := (emitted.map fun e => countAcceptingSteps cfg e.type).sum
  let enclosing := scope.triggerStack.getLast?
  match classifyWorkItem tick acc.commands (!acc.stepNoLongerInProgress) acc.redeliveryScheduled scope.fannedOut with
  | .error e => .error e
  | .ok .fannedOut =>
    match scope.fanOutStreamId with
    | some s => .ok (openChildStream cfg tick.stepId scope s successors acc.execution now acc.state)
    | none => .ok (acc.state, [])
  | .ok .completed => .ok (adjustOpenWorkItems cfg enclosing (successors - 1) now acc.state)
  | .ok .absorbed => .ok (adjustOpenWorkItems cfg enclosing (-1) now acc.state)
  | .ok .stillLive | .ok .runEnding => .ok (acc.state, [])

/-- The last phase of `_process_step_result_tick`: the transition event, the end of the execution, and new dispatches. -/
def finishExecution (c : StepConfig) (tick : TickStepResult) (acc : StepResultAcc) (now : Time) :
    BrokerState × List WorkflowCommand :=
  let step := tick.stepId
  let isCompleted := acc.commands.any WorkflowCommand.indicatesExit
  let changed : WorkflowCommand := .publishEvent
    (.stepStateChanged .notRunning step tick.event.typeText (toString tick.workerId) acc.outputEventName)
  let commands := if acc.stepNoLongerInProgress then changed :: acc.commands else acc.commands
  let σ := if acc.stepNoLongerInProgress then
      acc.state.setWorker step ((acc.state.workers step).eraseExecution acc.execution.workerId)
    else acc.state
  if isCompleted then (σ, commands)
  else
    let drained := drainEligibleQueue c step now (σ.workers step)
    (σ.setWorker step drained.1, commands ++ drained.2)

/-- `_process_step_result_tick`. -/
def processStepResultTick (tick : TickStepResult) (σ : BrokerState) (now : Time) (runId : Option String) :
    Except Exn (BrokerState × List WorkflowCommand) :=
  match cfg.steps.get? tick.stepId with
  | none => .error ⟨.keyError, "'" ++ tick.stepId ++ "'"⟩
  | some c =>
    let w := σ.workers tick.stepId
    match w.execution? tick.workerId with
    | none => .error ⟨.valueError, "Worker " ++ toString tick.workerId ++ " not found in in_progress"⟩
    | some x =>
      match rerunForStaleCollectBuffer tick w x with
      | some rerun => .ok (σ.setWorker tick.stepId rerun.1, rerun.2)
      | none =>
        let started := fanOutScope σ tick.stepId x (tick.result.any StepFunctionResult.isFannedOut)
        let didCompleteStep := tick.result.any StepFunctionResult.isResult
        let acc := tick.result.foldl (applyStepResult cfg c tick started.2 didCompleteStep runId)
          { state := started.1, execution := x }
        match resolveWorkItemInStream cfg tick started.2 acc now with
        | .error e => .error e
        | .ok resolved =>
          .ok (finishExecution c tick { acc with state := resolved.1, commands := acc.commands ++ resolved.2 } now)

/-! ## Added events -/

/-- The loop of `_select_static_collect_batch` over the slots: the first assignment of distinct buffered events. -/
def searchBatch (events : List Event) (allowSubclasses : Bool) : List (String × EventType) → List Nat → Option (List Nat)
  | [], _ => some []
  | (_, t) :: ps, used =>
    (List.range events.length).findSome? fun i =>
      if used.contains i || !(events[i]?.any fun e => e.eventMatches t allowSubclasses) then none
      else (searchBatch events allowSubclasses ps (i :: used)).map fun rest => i :: rest

/-- `_static_collect_events`: buffer an event of a multi-slot step, and bind the slots once all are filled. -/
def staticCollectEvents (e : Event) (c : StepConfig) (params : List (String × EventType)) (w : InternalStepWorkerState) :
    InternalStepWorkerState × BoundEvents :=
  let events := w.staticCollectEvents ++ [e]
  match searchBatch events c.acceptEventSubclasses params [] with
  | none => ({ w with staticCollectEvents := events }, none)
  | some selected =>
    let binding := (params.zip selected).filterMap fun p => events[p.2]?.map fun e => (p.1.1, e)
    let rest := (events.zipIdx.filter fun p => !selected.contains p.2).map Prod.fst
    ({ w with staticCollectEvents := rest }, some binding)

/-- `_redeliver_collection_payload`, for a tick with a payload. -/
def redeliverCollectionPayload (tick : TickAddEvent) (payload : CollectionReleasePayload) (now : Time) (σ : BrokerState) :
    Except Exn (BrokerState × List WorkflowCommand) :=
  match cfg.collectionBindings.get? payload.bindingId with
  | none => .error ⟨.workflowRuntimeError, "Collect invocation re-delivered for unknown binding '" ++ payload.bindingId.text ++
      "' (stream '" ++ payload.streamId.text ++ "'). Workflow state is corrupt."⟩
  | some b =>
    match cfg.steps.get? b.targetStep with
    | none => .error ⟨.keyError, "'" ++ b.targetStep ++ "'"⟩
    | some c =>
      let started := addOrEnqueueEvent c b.targetStep
        { event := payload.asEvent, attempts := tick.attempts, firstAttemptAt := tick.firstAttemptAt,
          lastException := tick.lastException, lastFailedAt := tick.lastFailedAt, recoveryCounts := tick.recoveryCounts,
          scopePath := tick.scopePath, collectionReleasePayload := some payload, workItemId := tick.workItemId }
        now (σ.workers b.targetStep)
      .ok (σ.setWorker b.targetStep started.1, started.2)

/-- Whether an event satisfies a waiter: its type, and each attribute the waiter requires. -/
def StepWorkerWaiter.isMatch (y : StepWorkerWaiter) (c : StepConfig) (e : Event) : Bool :=
  e.eventMatches y.waitingForEvent c.acceptEventSubclasses && y.requirements.all fun r => e.getAttr r.1 = r.2

/-- The attempt that resumes the work item a waiter suspended. -/
def StepWorkerWaiter.resumed (y : StepWorkerWaiter) : EventAttempt where
  event := y.event
  boundEvents := y.boundEvents
  scopePath := y.scopePath
  collectionReleasePayload := y.collectionReleasePayload
  workItemId := y.workItemId

/-- The loop of `_resolve_waiters` over one step's waiters, of which `seen` are done. -/
def resolveStepWaiters (c : StepConfig) (step : StepId) (e : Event) (now : Time) :
    List StepWorkerWaiter → List StepWorkerWaiter → InternalStepWorkerState → InternalStepWorkerState × List WorkflowCommand
  | _, [], w => (w, [])
  | seen, y :: ys, w =>
    if y.isMatch c e then
      let y' := { y with resolvedEvent := some e }
      let resumed := addOrEnqueueEvent c step y.resumed now { w with collectedWaiters := seen ++ y' :: ys }
      let rest := resolveStepWaiters c step e now (seen ++ [y']) ys resumed.1
      (rest.1, resumed.2 ++ rest.2)
    else resolveStepWaiters c step e now (seen ++ [y]) ys w

/-- `_resolve_waiters`. -/
def resolveWaiters (e : Event) (now : Time) (σ : BrokerState) : BrokerState × List WorkflowCommand :=
  forEachStep (fun c n w => resolveStepWaiters c n e now [] w.collectedWaiters w) cfg.steps.entries σ

/-- The steps that `_resolve_waiters` reports: those with a waiter that the event satisfies. -/
def waiterResolvedSteps (e : Event) (σ : BrokerState) : List StepId :=
  (cfg.steps.entries.filter fun p => (σ.workers p.1).collectedWaiters.any fun y => y.isMatch p.2 e).map Prod.fst

/-- `_RouteResult`, with the state. -/
structure RouteResult where
  state : BrokerState
  commands : List WorkflowCommand
  handled : Bool := false
  failed : Bool := false

/-- The error of an event sent to a collect step. -/
def targetedCollectError (e : Event) (step : StepId) : Exn :=
  ⟨.workflowRuntimeError, e.type.name ++ " was sent to collect step '" ++ step ++ "' via send_event(step=...), but a collect " ++
    "step cannot receive targeted events: it only collects events emitted inside a fan-out stream."⟩

/-- A member's arrival at a binding that has not released: buffer it, and fire a `Take` that has reached its threshold. -/
def collectMember (c : StepConfig) (tick : TickAddEvent) (s : StreamId) (b : CollectionBinding) (now : Time)
    (σ : BrokerState) : BrokerState × List WorkflowCommand :=
  let r := σ.releaseState s b.id
  if r.released then (σ, [])
  else
    let r := { r with buffer := r.buffer ++ [tick.event] }
    match releaseOnItem b r with
    | none => (σ.setReleases (σ.collectionReleaseStates.set (s, b.id) r), [])
    | some batch =>
      let σ := σ.setReleases (σ.collectionReleaseStates.set (s, b.id) { r with released := true })
      fireCollectionRelease c b s batch tick.scopePath.dropLast now σ

/-- `_route_member_to_collect_step`. -/
def routeMemberToCollectStep (c : StepConfig) (tick : TickAddEvent) (step : StepId) (now : Time) (σ : BrokerState) :
    RouteResult :=
  match tick.scopePath.getLast? with
  | none =>
    if tick.stepId.isSome then
      let error := targetedCollectError tick.event step
      { state := { σ with isRunning := false }
        commands := [.publishEvent (.workflowFailed step error), .failWorkflow step error]
        failed := true }
    else { state := σ.report (.unscopedMember tick.event step), commands := [] }
  | some s =>
    match cfg.bindingForTarget s step σ.streams with
    | none =>
      let adjusted := adjustOpenWorkItems cfg (some s) (-1) now (σ.report (.droppedMember tick.event step s))
      { state := adjusted.1, commands := adjusted.2 }
    | some b =>
      let collected := collectMember c tick s b now σ
      let adjusted := adjustOpenWorkItems cfg (some s) (-1) now collected.1
      { state := adjusted.1, commands := collected.2 ++ adjusted.2 }

/-- `_consume_superseded_delayed_attempt`. -/
def consumeSupersededDelayedAttempt (tick : TickAddEvent) (w : InternalStepWorkerState) : InternalStepWorkerState :=
  if tick.attempts.getD 0 = 0 then w
  else
    { w with queue := w.queue.eraseP fun a =>
        a.notBefore.isSome && decide (a.attempts = tick.attempts) && decide (a.event.type = tick.event.type) }

/-- The attempt that a routed event becomes at a step. -/
def TickAddEvent.toAttempt (tick : TickAddEvent) (bound : BoundEvents) : EventAttempt where
  event := tick.event
  boundEvents := bound
  attempts := tick.attempts
  firstAttemptAt := tick.firstAttemptAt
  lastException := tick.lastException
  lastFailedAt := tick.lastFailedAt
  recoveryCounts := tick.recoveryCounts
  scopePath := tick.scopePath
  workItemId := tick.workItemId

/-- The slots an event still has to be matched with: those of a multi-slot step, unless the tick brings its binding. -/
def TickAddEvent.openSlots (tick : TickAddEvent) (c : StepConfig) : Option (List (String × EventType)) :=
  if tick.boundEvents.isSome then none else c.collectParams.filter fun ps => !ps.isEmpty

/-- The delivery of an event to a step that is not a collect step. -/
def deliverToStep (c : StepConfig) (tick : TickAddEvent) (step : StepId) (now : Time) (σ : BrokerState) :
    BrokerState × List WorkflowCommand :=
  let w := consumeSupersededDelayedAttempt tick (σ.workers step)
  match tick.openSlots c with
  | none =>
    let added := addOrEnqueueEvent c step (tick.toAttempt tick.boundEvents) now w
    (σ.setWorker step added.1, added.2)
  | some params =>
    let collected := staticCollectEvents tick.event c params w
    match collected.2 with
    | none => adjustOpenWorkItems cfg tick.scopePath.getLast? (-1) now (σ.setWorker step collected.1)
    | some binding =>
      let added := addOrEnqueueEvent c step (tick.toAttempt (some binding)) now collected.1
      (σ.setWorker step added.1, added.2)

/-- Whether a tick is for a step: it names none, or this one. -/
def TickAddEvent.isTargeted (tick : TickAddEvent) (step : StepId) : Bool := tick.stepId.all fun n => n = step

/-- The loop of `_route_to_accepting_steps`. -/
def routeToAcceptingSteps (tick : TickAddEvent) (resolved : List StepId) (now : Time) :
    List (StepId × StepConfig) → BrokerState → RouteResult
  | [], σ => { state := σ, commands := [] }
  | (n, c) :: l, σ =>
    if resolved.contains n then
      -- the waiter swallowed a delivery that was counted in its stream
      let adjusted := if c.acceptsEvent tick.event && tick.isTargeted n
        then adjustOpenWorkItems cfg tick.scopePath.getLast? (-1) now σ else (σ, [])
      let rest := routeToAcceptingSteps tick resolved now l adjusted.1
      { rest with commands := adjusted.2 ++ rest.commands }
    else if !(c.acceptsEvent tick.event && tick.isTargeted n) then routeToAcceptingSteps tick resolved now l σ
    else if c.collectionParam.isSome then
      let routed := routeMemberToCollectStep cfg c tick n now σ
      if routed.failed then { routed with handled := true }
      else
        let rest := routeToAcceptingSteps tick resolved now l routed.state
        { rest with commands := routed.commands ++ rest.commands, handled := true }
    else
      let delivered := deliverToStep cfg c tick n now σ
      let rest := routeToAcceptingSteps tick resolved now l delivered.1
      { rest with commands := delivered.2 ++ rest.commands, handled := true }

/-- `_unhandled_event_commands`. -/
def unhandledEventCommands (tick : TickAddEvent) (σ : BrokerState) : List WorkflowCommand :=
  if tick.event.isInstance .inputRequiredEvent then []
  else [.publishEvent (.unhandled tick.event.type.name tick.event.type.qualname tick.stepId (checkIdleState cfg σ))]

/-- The first phase of `_process_add_event_tick`: mint the work item's id, and note the start event. -/
def identifyWorkItem (tick : TickAddEvent) (σ : BrokerState) : BrokerState × TickAddEvent :=
  let minted : BrokerState × TickAddEvent := match tick.workItemId, tick.collectionReleasePayload with
    | some _, _ => (σ, tick)
    | none, some payload => (σ, { tick with workItemId := some payload.workItemId })
    | none, none => ((nextWorkItemId σ).1, { tick with workItemId := some (nextWorkItemId σ).2 })
  (if tick.event.isInstance .startEvent then { minted.1 with isRunning := true } else minted.1, minted.2)

/-- `_process_add_event_tick`. -/
def processAddEventTick (tick : TickAddEvent) (σ : BrokerState) (now : Time) :
    Except Exn (BrokerState × List WorkflowCommand) :=
  let identified := identifyWorkItem tick σ
  let σ := identified.1
  let tick := identified.2
  match tick.collectionReleasePayload with
  | some payload => redeliverCollectionPayload cfg tick payload now σ
  | none =>
    let resolved := waiterResolvedSteps cfg tick.event σ
    let woken := resolveWaiters cfg tick.event now σ
    let routed := routeToAcceptingSteps cfg tick resolved now cfg.steps.entries woken.1
    let commands := woken.2 ++ routed.commands
    if routed.failed || !resolved.isEmpty || routed.handled then .ok (routed.state, commands)
    else .ok (routed.state, commands ++ unhandledEventCommands cfg tick routed.state)

/-! ## The other ticks -/

/-- `_process_cancel_run_tick`. -/
def processCancelRunTick (σ : BrokerState) : BrokerState × List WorkflowCommand :=
  (σ, [.publishEvent .workflowCancelled, .halt ⟨.workflowCancelledByUser, ""⟩])

/-- The error of a run that timed out. -/
def timeoutError (timeout : Time) (activeSteps : List StepId) : Exn :=
  ⟨.workflowTimeoutError, "Operation timed out after " ++ toString timeout ++ " seconds. " ++
    if activeSteps.isEmpty then "No steps active" else "Currently active steps: " ++ ", ".intercalate activeSteps⟩

/-- `_process_timeout_tick`. -/
def processTimeoutTick (timeout : Time) (σ : BrokerState) : BrokerState × List WorkflowCommand :=
  let activeSteps := cfg.steps.keys.filter fun n => !(σ.workers n).inProgress.isEmpty
  (clearCollectionState { σ with isRunning := false },
    [.publishEvent (.workflowTimedOut timeout activeSteps), .halt (timeoutError timeout activeSteps)])

/-- A queued attempt after a wakeup that is due at a time. -/
def EventAttempt.wake (a : EventAttempt) (due : Time) : EventAttempt :=
  if a.notBefore.any fun t => t ≤ due then { a with notBefore := none } else a

/-- `_process_wakeup_tick`. -/
def processWakeupTick (due : Time) (σ : BrokerState) (now : Time) : BrokerState × List WorkflowCommand :=
  forEachStep (fun c n w => drainEligibleQueue c n now { w with queue := w.queue.map fun a => a.wake due }) cfg.sortedSteps σ

/-- `_process_waiter_timeout_tick`. -/
def processWaiterTimeoutTick (step : StepId) (id : WaiterId) (σ : BrokerState) (now : Time) :
    BrokerState × List WorkflowCommand :=
  match cfg.steps.get? step with
  | none => (σ, [])
  | some c =>
    let w := σ.workers step
    match w.collectedWaiters.find? fun y => y.waiterId = id with
    | none => (σ, [])
    | some y =>
      if y.resolvedEvent.isSome then (σ, [])
      else
        let i := w.collectedWaiters.findIdx fun y => y.waiterId = id
        let w := { w with collectedWaiters := w.collectedWaiters.set i { y with timedOut := true } }
        let resumed := addOrEnqueueEvent c step y.resumed now w
        (σ.setWorker step resumed.1, resumed.2)

/-- The idle check: publish idleness, or fail a run that is stuck. -/
def processIdleCheckTick (σ : BrokerState) : BrokerState × List WorkflowCommand :=
  if checkIdleState cfg σ then
    match detectStuckStreams cfg σ with
    | some (step, error) =>
      ({ σ with isRunning := false }, [.publishEvent (.workflowFailed step error), .failWorkflow step error])
    | none => (σ, [.publishEvent .workflowIdle])
  else (σ, [])

/-- The end of `_reduce_tick`: schedule an idle check when nothing is left to run. -/
def withIdleCheck (r : BrokerState × List WorkflowCommand) : BrokerState × List WorkflowCommand :=
  if checkIdleState cfg r.1 then (r.1, r.2 ++ [.scheduleIdleCheck]) else r

/-- `_reduce_tick`. -/
def reduceTick (tick : WorkflowTick) (σ : BrokerState) (now : Time) (runId : Option String) :
    Except Exn (BrokerState × List WorkflowCommand) :=
  match tick with
  | .stepResult tick => (processStepResultTick cfg tick σ now runId).map (withIdleCheck cfg)
  | .addEvent tick => (processAddEventTick cfg tick σ now).map (withIdleCheck cfg)
  | .cancelRun => .ok (withIdleCheck cfg (processCancelRunTick σ))
  | .idleRelease => .ok (σ, [.completeRun .idleReleased])
  | .publishEvent e => .ok (withIdleCheck cfg (σ, [.publishEvent e]))
  | .timeout t => .ok (withIdleCheck cfg (processTimeoutTick cfg t σ))
  | .waiterTimeout step id => .ok (withIdleCheck cfg (processWaiterTimeoutTick cfg step id σ now))
  | .idleCheck => .ok (processIdleCheckTick cfg σ)
  | .wakeup due => .ok (withIdleCheck cfg (processWakeupTick cfg due σ now))

end LlamaAgents
