import LlamaAgents.Config

/-!
# The broker's state, ticks and commands

The runtime data of `runtime/types/internal_state.py`, `results.py`, `ticks.py` and `commands.py`: work items queued and in
progress, waiters, open streams and release buffers, the results a step execution reports, the ticks that drive the control
loop and the commands the reducer answers with.
-/

namespace LlamaAgents

open Lib (Dict)

/-! ## Work records -/

/-- Events bound to the slots of a multi-slot step. -/
abbrev BoundEvents := Option (List (String × Event))

/-- `CollectionReleasePayload`: the batch of a collect invocation. -/
structure CollectionReleasePayload where
  bindingId : BindingId
  streamId : StreamId
  events : List Event
  outputScopePath : ScopePath
deriving DecidableEq

/-- `as_event`: the trigger of the collect invocation. -/
def CollectionReleasePayload.asEvent (p : CollectionReleasePayload) : Event :=
  ⟨.collectionReleaseEvent, [("events", .list (p.events.map Event.toValue)), ("stream_id", .str p.streamId.text),
    ("binding_id", .str p.bindingId.text)]⟩

/-- `work_item_id`: the id of the collect invocation. -/
def CollectionReleasePayload.workItemId (p : CollectionReleasePayload) : WorkItemId := .collect p.streamId p.bindingId

/-- `EventAttempt`: an event queued for a step. -/
structure EventAttempt where
  event : Event
  boundEvents : BoundEvents := none
  attempts : Option Nat := none
  firstAttemptAt : Option Time := none
  lastException : Option Exn := none
  lastFailedAt : Option Time := none
  recoveryCounts : Dict StepId Nat := ∅
  notBefore : Option Time := none
  scopePath : ScopePath := []
  collectionReleasePayload : Option CollectionReleasePayload := none
  workItemId : Option WorkItemId := none
deriving DecidableEq

/-- A waiter's id: given by the step, or built from the awaited type, the requirements and the work item. The two forms
without a work item are those of older versions. -/
inductive WaiterId where
  | explicit (id : String)
  | legacy (eventName : String) (requirements : List (String × Value))
  | base (eventName : String) (requirements : List (String × Value))
  | workItem (eventName : String) (requirements : List (String × Value)) (item : WorkItemId)
deriving DecidableEq

/-- `StepWorkerWaiter`. -/
structure StepWorkerWaiter where
  waiterId : WaiterId
  event : Event
  waitingForEvent : EventType
  requirements : List (String × Value)
  hasRequirements : Bool
  resolvedEvent : Option Event := none
  boundEvents : BoundEvents := none
  timedOut : Bool := false
  scopePath : ScopePath := []
  collectionReleasePayload : Option CollectionReleasePayload := none
  workItemId : Option WorkItemId := none
deriving DecidableEq

/-- An event in a buffer of `ctx.collect_events()`: its value, and which object it is. -/
structure BufferedEvent where
  event : Event
  object : Nat := 0
deriving DecidableEq

/-- `StepWorkerState`: the snapshot a step execution runs on. -/
structure StepWorkerState where
  stepName : StepId
  collectedEvents : Dict String (List BufferedEvent)
  collectedWaiters : List StepWorkerWaiter
  collectionReleasePayload : Option CollectionReleasePayload := none
  scopePath : ScopePath := []
  workItemId : Option WorkItemId := none
deriving DecidableEq

/-- `InProgressState`: a worker's execution in progress. -/
structure InProgressState where
  event : Event
  workerId : Nat
  sharedState : StepWorkerState
  attempts : Nat
  firstAttemptAt : Time
  lastException : Option Exn := none
  lastFailedAt : Option Time := none
  recoveryCounts : Dict StepId Nat := ∅
  boundEvents : BoundEvents := none
  scopePath : ScopePath := []
  workItemId : Option WorkItemId := none
deriving DecidableEq

/-- `InternalStepWorkerState`. The step's configuration, which the source keeps here too, is that of the `BrokerConfig`. -/
structure InternalStepWorkerState where
  queue : List EventAttempt := []
  inProgress : List InProgressState := []
  collectedEvents : Dict String (List BufferedEvent) := ∅
  collectedWaiters : List StepWorkerWaiter := []
  staticCollectEvents : List Event := []
deriving DecidableEq

/-! ## Streams -/

/-- `CollectionStreamInstance`. -/
structure CollectionStreamInstance where
  streamId : StreamId
  sourceStep : StepId
  scopePath : ScopePath
  openWorkItems : Int := 0
  acceptingBindingIds : List BindingId := []
deriving DecidableEq

/-- `CollectionReleaseState`. -/
structure CollectionReleaseState where
  bindingId : BindingId
  streamId : StreamId
  buffer : List Event := []
  released : Bool := false
deriving DecidableEq

/-- What the reducer reports beside its commands: the records of its logger, and two of the model's own, for a stream opened
by an execution and for a collect invocation created. Nothing reads them. -/
inductive LogEntry where
  | unknownStream (stream : StreamId)
  | wentNegative (openWorkItems : Int) (stream : StreamId) (sourceStep : StepId)
  | unscopedMember (event : Event) (step : StepId)
  | droppedMember (event : Event) (step : StepId) (stream : StreamId)
  | opened (execution : InProgressState) (stream : CollectionStreamInstance)
  | released (binding : CollectionBinding) (stream : StreamId) (attempt : EventAttempt)
deriving DecidableEq

/-- `BrokerState`. The source's dict of workers has the configured steps as its keys, all its life; here a step that is not
configured has the empty worker state. -/
structure BrokerState where
  isRunning : Bool := false
  workers : StepId → InternalStepWorkerState := fun _ => {}
  streamSeq : Nat := 0
  workItemSeq : Nat := 0
  streams : Dict StreamId CollectionStreamInstance := ∅
  collectionReleaseStates : Dict (StreamId × BindingId) CollectionReleaseState := ∅
  log : List LogEntry := []

namespace BrokerState

/-- Replace a step's worker state. -/
def setWorker (σ : BrokerState) (n : StepId) (w : InternalStepWorkerState) : BrokerState :=
  { σ with workers := Function.update σ.workers n w }

/-- Replace the open streams. -/
def setStreams (σ : BrokerState) (d : Dict StreamId CollectionStreamInstance) : BrokerState := { σ with streams := d }

/-- Replace the release states. -/
def setReleases (σ : BrokerState) (d : Dict (StreamId × BindingId) CollectionReleaseState) : BrokerState :=
  { σ with collectionReleaseStates := d }

/-- `_release_state_for`: the release state of a binding in a stream, a fresh one when there is none. The source stores the
fresh one at once; its caller then always stores the state it has filled. -/
def releaseState (σ : BrokerState) (s : StreamId) (id : BindingId) : CollectionReleaseState :=
  (σ.collectionReleaseStates.get? (s, id)).getD { bindingId := id, streamId := s }

/-- Add a record to the log. -/
def report (σ : BrokerState) (e : LogEntry) : BrokerState := { σ with log := σ.log ++ [e] }

section
variable (σ : BrokerState) (n : StepId) (w : InternalStepWorkerState) (d : Dict StreamId CollectionStreamInstance)
  (r : Dict (StreamId × BindingId) CollectionReleaseState) (e : LogEntry)

@[simp] theorem setWorker_workers : (σ.setWorker n w).workers = Function.update σ.workers n w := rfl
@[simp] theorem setWorker_streams : (σ.setWorker n w).streams = σ.streams := rfl
@[simp] theorem setWorker_releases : (σ.setWorker n w).collectionReleaseStates = σ.collectionReleaseStates := rfl
@[simp] theorem setWorker_streamSeq : (σ.setWorker n w).streamSeq = σ.streamSeq := rfl
@[simp] theorem setWorker_workItemSeq : (σ.setWorker n w).workItemSeq = σ.workItemSeq := rfl
@[simp] theorem setWorker_isRunning : (σ.setWorker n w).isRunning = σ.isRunning := rfl
@[simp] theorem setWorker_log : (σ.setWorker n w).log = σ.log := rfl
@[simp] theorem setStreams_workers : (σ.setStreams d).workers = σ.workers := rfl
@[simp] theorem setStreams_streams : (σ.setStreams d).streams = d := rfl
@[simp] theorem setStreams_releases : (σ.setStreams d).collectionReleaseStates = σ.collectionReleaseStates := rfl
@[simp] theorem setStreams_streamSeq : (σ.setStreams d).streamSeq = σ.streamSeq := rfl
@[simp] theorem setStreams_log : (σ.setStreams d).log = σ.log := rfl
@[simp] theorem setReleases_workers : (σ.setReleases r).workers = σ.workers := rfl
@[simp] theorem setReleases_streams : (σ.setReleases r).streams = σ.streams := rfl
@[simp] theorem setReleases_releases : (σ.setReleases r).collectionReleaseStates = r := rfl
@[simp] theorem setReleases_streamSeq : (σ.setReleases r).streamSeq = σ.streamSeq := rfl
@[simp] theorem setReleases_log : (σ.setReleases r).log = σ.log := rfl
@[simp] theorem report_workers : (σ.report e).workers = σ.workers := rfl
@[simp] theorem report_streams : (σ.report e).streams = σ.streams := rfl
@[simp] theorem report_releases : (σ.report e).collectionReleaseStates = σ.collectionReleaseStates := rfl
@[simp] theorem report_streamSeq : (σ.report e).streamSeq = σ.streamSeq := rfl
@[simp] theorem report_log : (σ.report e).log = σ.log ++ [e] := rfl

end

end BrokerState

/-! ## Results of a step execution -/

/-- `AddWaiter`. -/
structure AddWaiter where
  waiterId : WaiterId
  waiterEvent : Option Event := none
  requirements : List (String × Value) := []
  timeout : Option Time := none
  eventType : EventType
  hasRequirements : Bool := false
deriving DecidableEq

/-- `RetryDecision`: the delay before the next attempt, or none to stop retrying. -/
structure RetryDecision where
  delay : Option Time
deriving DecidableEq

/-- `StepWorkerFailed`. -/
structure StepWorkerFailed where
  exception : Exn
  failedAt : Time
  retryDecision : Option RetryDecision := none
  firstAttemptAt : Option Time := none
deriving DecidableEq

/-- `StepFunctionResult`. -/
inductive StepFunctionResult where
  | result (event : Option Event) (fannedOut : Bool)
  | failed (failure : StepWorkerFailed)
  | addCollected (eventId : String) (event : BufferedEvent)
  | deleteCollected (eventId : String)
  | addWaiter (waiter : AddWaiter)
  | deleteWaiter (waiterId : WaiterId)
deriving DecidableEq

namespace StepFunctionResult

/-- `isinstance(x, StepWorkerResult)`. -/
def isResult : StepFunctionResult → Bool
  | result _ _ => true
  | _ => false

/-- `isinstance(x, StepWorkerResult) and x.fanned_out`. -/
def isFannedOut : StepFunctionResult → Bool
  | result _ f => f
  | _ => false

/-- `isinstance(x, StepWorkerFailed)`. -/
def isFailed : StepFunctionResult → Bool
  | failed _ => true
  | _ => false

/-- `isinstance(x, AddWaiter)`. -/
def isAddWaiter : StepFunctionResult → Bool
  | addWaiter _ => true
  | _ => false

/-- `isinstance(x, AddCollectedEvent)`. -/
def isAddCollected : StepFunctionResult → Bool
  | addCollected _ _ => true
  | _ => false

/-- The event a result emits, unless it is a stop event. -/
def emittedNonStop : StepFunctionResult → Option Event
  | result (some e) _ => if e.isStop then none else some e
  | _ => none

/-- The class name of a result, for the classification error. -/
def className : StepFunctionResult → String
  | result _ _ => "StepWorkerResult"
  | failed _ => "StepWorkerFailed"
  | addCollected _ _ => "AddCollectedEvent"
  | deleteCollected _ => "DeleteCollectedEvent"
  | addWaiter _ => "AddWaiter"
  | deleteWaiter _ => "DeleteWaiter"

end StepFunctionResult

/-! ## Ticks and commands -/

/-- `TickStepResult`. -/
structure TickStepResult where
  stepId : StepId
  workerId : Nat
  event : Event
  result : List StepFunctionResult
deriving DecidableEq

/-- `TickAddEvent`. -/
structure TickAddEvent where
  event : Event
  stepId : Option StepId := none
  boundEvents : BoundEvents := none
  attempts : Option Nat := none
  firstAttemptAt : Option Time := none
  lastException : Option Exn := none
  lastFailedAt : Option Time := none
  recoveryCounts : Dict StepId Nat := ∅
  scopePath : ScopePath := []
  collectionReleasePayload : Option CollectionReleasePayload := none
  workItemId : Option WorkItemId := none
deriving DecidableEq

/-- `WorkflowTick`. -/
inductive WorkflowTick where
  | stepResult (tick : TickStepResult)
  | addEvent (tick : TickAddEvent)
  | cancelRun
  | publishEvent (event : Event)
  | timeout (timeout : Time)
  | waiterTimeout (stepId : StepId) (waiterId : WaiterId)
  | idleCheck
  | idleRelease
  | wakeup (due : Time)
deriving DecidableEq

/-- `CommandRunWorker`. -/
structure CommandRunWorker where
  stepId : StepId
  event : Event
  id : Nat
  boundEvents : BoundEvents := none
deriving DecidableEq

/-- `CommandQueueEvent`. -/
structure CommandQueueEvent where
  event : Event
  stepId : Option StepId := none
  recoveryCounts : Dict StepId Nat := ∅
  scopePath : ScopePath := []
deriving DecidableEq

/-- `WorkflowCommand`. -/
inductive WorkflowCommand where
  | runWorker (command : CommandRunWorker)
  | queueEvent (command : CommandQueueEvent)
  | halt (exception : Exn)
  | completeRun (result : Event)
  | failWorkflow (stepId : StepId) (exception : Exn)
  | publishEvent (event : Event)
  | scheduleIdleCheck
  | scheduleWaiterTimeout (stepId : StepId) (waiterId : WaiterId) (timeout : Time)
  | scheduleWakeup (atTime : Time)
deriving DecidableEq

/-- `indicates_exit`. -/
def WorkflowCommand.indicatesExit : WorkflowCommand → Bool
  | .completeRun _ | .failWorkflow _ _ | .halt _ => true
  | _ => false

end LlamaAgents
