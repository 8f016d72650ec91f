import LlamaAgents.State

/-!
# Dispatch and collection streams

The dispatch primitives of `control_loop/reduce.py` (`_add_or_enqueue_event`, `_drain_eligible_queue`) and the stream
bookkeeping of `control_loop/streams.py`. A function that mutates the state in place returns the new state with its commands.
-/

namespace LlamaAgents

open Lib (Dict)

/-! ## Dispatch -/

/-- `_is_eligible`: an attempt with a retry delay waits for its wakeup. -/
def EventAttempt.isEligible (a : EventAttempt) : Bool := a.notBefore.isNone

/-- The smallest free worker id. -/
def freeWorkerId (c : StepConfig) (w : InternalStepWorkerState) : Nat :=
  ((List.range c.numWorkers).find? fun i => !(w.inProgress.map InProgressState.workerId).contains i).getD 0

/-- The execution that a dispatched attempt starts, on a snapshot of the step's shared state. A first attempt time of zero is
replaced, since the source tests it for truth. -/
def EventAttempt.start (a : EventAttempt) (step : StepId) (id : Nat) (now : Time) (w : InternalStepWorkerState) :
    InProgressState where
  event := a.event
  boundEvents := a.boundEvents
  workerId := id
  sharedState :=
    { stepName := step, collectedEvents := w.collectedEvents, collectedWaiters := w.collectedWaiters,
      collectionReleasePayload := a.collectionReleasePayload, scopePath := a.scopePath, workItemId := a.workItemId }
  attempts := a.attempts.getD 0
  firstAttemptAt := if a.firstAttemptAt.getD 0 = 0 then now else a.firstAttemptAt.getD 0
  lastException := a.lastException
  lastFailedAt := a.lastFailedAt
  recoveryCounts := a.recoveryCounts
  scopePath := a.scopePath
  workItemId := a.workItemId

/-- `_add_or_enqueue_event`. -/
def addOrEnqueueEvent (c : StepConfig) (step : StepId) (a : EventAttempt) (now : Time) (w : InternalStepWorkerState) :
    InternalStepWorkerState × List WorkflowCommand :=
  if w.inProgress.length < c.numWorkers ∧ a.isEligible then
    let id := freeWorkerId c w
    ({ w with inProgress := w.inProgress ++ [a.start step id now w] },
      [.runWorker { stepId := step, event := a.event, id := id, boundEvents := a.boundEvents },
        .publishEvent (.stepStateChanged .running step a.event.type.name (toString id) none)])
  else
    ({ w with queue := w.queue ++ [a] },
      [.publishEvent (.stepStateChanged .preparing step a.event.type.name "<enqueued>" none)])

/-- Take the first eligible attempt out of a queue. -/
def popEligible : List EventAttempt → Option (EventAttempt × List EventAttempt)
  | [] => none
  | a :: q => if a.isEligible then some (a, q) else (popEligible q).map fun r => (r.1, a :: r.2)

/-- The loop of `_drain_eligible_queue` with `k` free worker slots left: every round takes one. -/
def drainSlots (c : StepConfig) (step : StepId) (now : Time) :
    Nat → InternalStepWorkerState → InternalStepWorkerState × List WorkflowCommand
  | 0, w => (w, [])
  | k + 1, w =>
    match popEligible w.queue with
    | none => (w, [])
    | some (a, q) =>
      let started := addOrEnqueueEvent c step a now { w with queue := q }
      let rest := drainSlots c step now k started.1
      (rest.1, started.2 ++ rest.2)

/-- `_drain_eligible_queue`: dispatch eligible attempts while a worker is free. -/
def drainEligibleQueue (c : StepConfig) (step : StepId) (now : Time) (w : InternalStepWorkerState) :
    InternalStepWorkerState × List WorkflowCommand :=
  drainSlots c step now (c.numWorkers - w.inProgress.length) w

/-! ## Streams -/

variable (cfg : BrokerConfig)

/-- `binding_for_target`: the binding from a stream to a collect step. -/
def BrokerConfig.bindingForTarget (s : StreamId) (target : StepId) (streams : Dict StreamId CollectionStreamInstance) :
    Option CollectionBinding :=
  (streams.get? s).bind fun stream => stream.acceptingBindingIds.findSome? fun id =>
    (cfg.collectionBindings.get? id).filter fun b => b.targetStep = target

/-- `_count_accepting_steps`: the work items an event of a type becomes. -/
def countAcceptingSteps (t : EventType) : Nat := cfg.steps.values.countP fun c => c.acceptsType t

/-- `_clear_collection_state`. -/
def clearCollectionState (σ : BrokerState) : BrokerState := (σ.setStreams ∅).setReleases ∅

/-- `_mint_stream_id`, with the state that has the counter advanced. -/
def mintStreamId (σ : BrokerState) (path : ScopePath) (step : StepId) : BrokerState × StreamId :=
  ({ σ with streamSeq := σ.streamSeq + 1 }, .mk path step σ.streamSeq)

/-- The work item of a collect invocation. -/
def CollectionReleasePayload.toAttempt (p : CollectionReleasePayload) : EventAttempt :=
  { event := p.asEvent, scopePath := p.outputScopePath, collectionReleasePayload := some p, workItemId := some p.workItemId }

/-- `_fire_collection_release`: create the collect invocation of a binding, with a batch, in a scope. -/
def fireCollectionRelease (c : StepConfig) (b : CollectionBinding) (s : StreamId) (events : List Event)
    (outputStack : ScopePath) (now : Time) (σ : BrokerState) : BrokerState × List WorkflowCommand :=
  let attempt := (CollectionReleasePayload.mk b.id s events outputStack).toAttempt
  let started := addOrEnqueueEvent c b.targetStep attempt now (σ.workers b.targetStep)
  ((σ.setWorker b.targetStep started.1).report (.released b s attempt), started.2)

/-- `_release_on_item`: the batch of a `Take` whose threshold the buffer has reached. -/
def releaseOnItem (b : CollectionBinding) (r : CollectionReleaseState) : Option (List Event) :=
  match b.policy.takeThreshold with
  | none => none
  | some n => if r.buffer.length < n then none else some (r.buffer.take n)

/-- `_release_on_close`: the batch of a binding that has not released yet. -/
def releaseOnClose (b : CollectionBinding) (r : CollectionReleaseState) : Option (List Event) :=
  if r.released then none else some (b.policy.batch r.buffer)

/-- One binding's turn in `_close_collection_stream`: pop its release state and fire what is left to release. -/
def closeBinding (s : StreamId) (path : ScopePath) (now : Time) (b : CollectionBinding) (σ : BrokerState) :
    BrokerState × List WorkflowCommand :=
  match cfg.steps.get? b.targetStep with
  | none => (σ, [])
  | some c =>
    if c.collectionParam.isNone then (σ, [])
    else
      let r := σ.releaseState s b.id
      let σ := σ.setReleases (σ.collectionReleaseStates.erase (s, b.id))
      match releaseOnClose b r with
      | none => (σ, [])
      | some events => fireCollectionRelease c b s events path now σ

/-- The loop of `_close_collection_stream` over the bindings of the stream's producer. -/
def closeBindings (s : StreamId) (path : ScopePath) (now : Time) :
    List CollectionBinding → BrokerState → BrokerState × List WorkflowCommand
  | [], σ => (σ, [])
  | b :: bs, σ =>
    let fired := closeBinding cfg s path now b σ
    let rest := closeBindings s path now bs fired.1
    (rest.1, fired.2 ++ rest.2)

/-- `_close_collection_stream`. -/
def closeCollectionStream (s : StreamId) (now : Time) (σ : BrokerState) : BrokerState × List WorkflowCommand :=
  match σ.streams.get? s with
  | none => (σ, [])
  | some stream =>
    closeBindings cfg s stream.scopePath now (cfg.bindingsForSource stream.sourceStep) (σ.setStreams (σ.streams.erase s))

/-- A stream with a new counter, and the report of one that went negative. -/
def setOpenWorkItems (s : StreamId) (stream : CollectionStreamInstance) (n : Int) (σ : BrokerState) : BrokerState :=
  let σ := σ.setStreams (σ.streams.set s { stream with openWorkItems := n })
  if n < 0 then σ.report (.wentNegative n s stream.sourceStep) else σ

/-- `_adjust_open_work_items`. -/
def adjustOpenWorkItems (s : Option StreamId) (delta : Int) (now : Time) (σ : BrokerState) :
    BrokerState × List WorkflowCommand :=
  match s with
  | none => (σ, [])
  | some s =>
    match σ.streams.get? s with
    | none => (if delta < 0 then σ.report (.unknownStream s) else σ, [])
    | some stream =>
      let n := stream.openWorkItems + delta
      let σ := setOpenWorkItems s stream n σ
      if n ≤ 0 then closeCollectionStream cfg s now σ else (σ, [])

/-! ## Stuck runs -/

/-- The release state whose stream no longer exists, if any. -/
def orphanedRelease (σ : BrokerState) : Option CollectionReleaseState :=
  σ.collectionReleaseStates.values.find? fun r => !r.released && !σ.streams.contains r.streamId

/-- Whether some waiter inside an open stream is still pending. -/
def hasInStreamWaiter (σ : BrokerState) : Bool :=
  cfg.steps.keys.any fun n => (σ.workers n).collectedWaiters.any fun w =>
    w.resolvedEvent.isNone && !w.timedOut && w.scopePath.any fun s => σ.streams.contains s

/-- The text about an orphaned release. -/
def orphanedMessage (step : StepId) (r : CollectionReleaseState) : String :=
  "Workflow is idle with a pending collect release for step '" ++ step ++ "' (binding '" ++ r.bindingId.text ++
    "') whose stream '" ++ r.streamId.text ++ "' no longer exists, so the release can never fire. This indicates corrupted " ++
    "persisted state (e.g. a snapshot written by an incompatible library version)."

/-- The text about streams that nothing can close. -/
def leakedMessage (streams : List CollectionStreamInstance) : String :=
  "Workflow is idle but collection streams are still open, so the run can never complete: " ++
    "; ".intercalate (streams.map fun s => "stream '" ++ s.streamId.text ++ "' opened by step '" ++ s.sourceStep ++ "' with " ++
      toString s.openWorkItems ++ " open work item(s)") ++
    ". No queued, running, or resumable scoped work remains that can close the stream. This indicates corrupted persisted " ++
    "state, incompatible workflow/runtime changes since the run was snapshotted, or a runtime stream-accounting bug."

/-- `_detect_stuck_streams`. -/
def detectStuckStreams (σ : BrokerState) : Option (StepId × Exn) :=
  match orphanedRelease σ with
  | some r =>
    let step := ((cfg.collectionBindings.get? r.bindingId).map CollectionBinding.targetStep).getD "<unknown>"
    some (step, ⟨.workflowRuntimeError, orphanedMessage step r⟩)
  | none =>
    match σ.streams.values with
    | [] => none
    | stream :: rest =>
      if hasInStreamWaiter cfg σ then none
      else some (stream.sourceStep, ⟨.workflowRuntimeError, leakedMessage (stream :: rest)⟩)

/-! ## Classification of a finished execution -/

/-- `WorkDisposition`. -/
inductive WorkDisposition where
  | completed
  | fannedOut
  | stillLive
  | absorbed
  | runEnding
deriving DecidableEq, Repr

/-- `_classify_work_item`. -/
def classifyWorkItem (tick : TickStepResult) (commands : List WorkflowCommand)
    (rerunScheduled redeliveryScheduled fannedOut : Bool) : Except Exn WorkDisposition :=
  if commands.any WorkflowCommand.indicatesExit then .ok .runEnding
  else if rerunScheduled then .ok .stillLive
  else if tick.result.any StepFunctionResult.isFailed && redeliveryScheduled then .ok .stillLive
  else if tick.result.any StepFunctionResult.isResult then .ok (if fannedOut then .fannedOut else .completed)
  else if tick.result.any StepFunctionResult.isAddWaiter then .ok .stillLive
  else if tick.result.all StepFunctionResult.isAddCollected then .ok .absorbed
  else .error ⟨.workflowRuntimeError, "Cannot classify finished execution of step '" ++ tick.stepId ++
    "' for stream accounting: results=[" ++ ", ".intercalate (tick.result.map fun r => "'" ++ r.className ++ "'") ++
    "]. This is a runtime bug."⟩

end LlamaAgents
