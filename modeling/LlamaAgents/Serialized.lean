import LlamaAgents.Reduce

/-!
# The snapshot of a context

`SerializedContext` and the two directions of its codec in `runtime/types/internal_state.py`. What a snapshot leaves out is
left out here: the workers' slots and snapshots, the requirements of waiters and whether they have timed out. Events and
exceptions stand for what their serializer makes of them. The class that a waiter awaits is stored by its module and its name, and
imported again.
-/

namespace LlamaAgents

open Lib (Dict)

/-- `SerializedEventAttempt`. -/
structure SerializedEventAttempt where
  event : Event
  boundEvents : BoundEvents := none
  attempts : Nat := 0
  firstAttemptAt : Option Time := none
  lastException : Option Exn := none
  lastFailedAt : Option Time := none
  recoveryCounts : Dict StepId Nat := ∅
  notBefore : Option Time := none
  scopePath : ScopePath := []
  collectionReleasePayload : Option CollectionReleasePayload := none
  workItemId : Option WorkItemId := none

/-- `SerializedWaiter`. -/
structure SerializedWaiter where
  waiterId : WaiterId
  event : Event
  boundEvents : BoundEvents := none
  waitingForEvent : EventType
  hasRequirements : Bool := false
  resolvedEvent : Option Event := none
  scopePath : ScopePath := []
  collectionReleasePayload : Option CollectionReleasePayload := none
  workItemId : Option WorkItemId := none

/-- `SerializedStepWorkerState`. Buffered events that are read back are new objects; no snapshot with the old ones is left to
compare them with, so they keep their numbers. -/
structure SerializedStepWorkerState where
  queue : List SerializedEventAttempt := []
  inProgress : List SerializedEventAttempt := []
  collectedEvents : Dict String (List BufferedEvent) := ∅
  staticCollectEvents : List Event := []
  collectedWaiters : List SerializedWaiter := []

/-- `SerializedContext`, without the state store and the version. As in the broker's state, a step that is not configured has
the empty worker state. -/
structure SerializedContext where
  isRunning : Bool := false
  workers : StepId → SerializedStepWorkerState := fun _ => {}
  streamSeq : Nat := 0
  workItemSeq : Nat := 0
  streams : Dict StreamId CollectionStreamInstance := ∅
  collectionReleaseStates : Dict (StreamId × BindingId) CollectionReleaseState := ∅

/-! ## Serialization -/

/-- A queued attempt in a snapshot. -/
def EventAttempt.toSerialized (a : EventAttempt) : SerializedEventAttempt where
  event := a.event
  boundEvents := a.boundEvents
  attempts := a.attempts.getD 0
  firstAttemptAt := a.firstAttemptAt
  lastException := a.lastException
  lastFailedAt := a.lastFailedAt
  recoveryCounts := a.recoveryCounts
  notBefore := a.notBefore
  scopePath := a.scopePath
  collectionReleasePayload := a.collectionReleasePayload
  workItemId := a.workItemId

/-- An execution in progress in a snapshot, which is to be queued again. -/
def InProgressState.toSerialized (x : InProgressState) : SerializedEventAttempt where
  event := x.event
  boundEvents := x.boundEvents
  attempts := x.attempts
  firstAttemptAt := some x.firstAttemptAt
  lastException := x.lastException
  lastFailedAt := x.lastFailedAt
  recoveryCounts := x.recoveryCounts
  scopePath := x.scopePath
  collectionReleasePayload := x.sharedState.collectionReleasePayload
  workItemId := x.workItemId

/-- A waiter in a snapshot, which only says whether there are requirements. -/
def StepWorkerWaiter.toSerialized (y : StepWorkerWaiter) : SerializedWaiter where
  waiterId := y.waiterId
  event := y.event
  boundEvents := y.boundEvents
  waitingForEvent := y.waitingForEvent
  hasRequirements := !y.requirements.isEmpty || y.hasRequirements
  resolvedEvent := y.resolvedEvent
  scopePath := y.scopePath
  collectionReleasePayload := y.collectionReleasePayload
  workItemId := y.workItemId

/-- A step's worker state in a snapshot. -/
def InternalStepWorkerState.toSerialized (w : InternalStepWorkerState) : SerializedStepWorkerState where
  queue := w.queue.map EventAttempt.toSerialized
  inProgress := w.inProgress.map InProgressState.toSerialized
  collectedEvents := w.collectedEvents
  staticCollectEvents := w.staticCollectEvents
  collectedWaiters := w.collectedWaiters.map StepWorkerWaiter.toSerialized

/-- `to_serialized`. -/
def BrokerState.toSerialized (σ : BrokerState) : SerializedContext where
  isRunning := σ.isRunning
  workers n := (σ.workers n).toSerialized
  streamSeq := σ.streamSeq
  workItemSeq := σ.workItemSeq
  streams := σ.streams
  collectionReleaseStates := σ.collectionReleaseStates

/-! ## Deserialization -/

/-- The trigger of a restored record: that of its payload, when it has one. -/
def triggerOf (payload : Option CollectionReleasePayload) (event : Event) : Event :=
  (payload.map CollectionReleasePayload.asEvent).getD event

/-- `_deserialize_event_attempt`. -/
def SerializedEventAttempt.toAttempt (a : SerializedEventAttempt) : EventAttempt where
  event := triggerOf a.collectionReleasePayload a.event
  boundEvents := a.boundEvents
  attempts := some a.attempts
  firstAttemptAt := a.firstAttemptAt
  lastException := a.lastException
  lastFailedAt := a.lastFailedAt
  recoveryCounts := a.recoveryCounts
  notBefore := a.notBefore
  scopePath := a.scopePath
  collectionReleasePayload := a.collectionReleasePayload
  workItemId := a.workItemId

/-- A restored waiter: it has no requirements until its step is pinged, and has not timed out. -/
def SerializedWaiter.toWaiter (y : SerializedWaiter) : StepWorkerWaiter where
  waiterId := y.waiterId
  event := triggerOf y.collectionReleasePayload y.event
  waitingForEvent := y.waitingForEvent
  requirements := []
  hasRequirements := y.hasRequirements
  resolvedEvent := y.resolvedEvent
  boundEvents := y.boundEvents
  scopePath := y.scopePath
  collectionReleasePayload := y.collectionReleasePayload
  workItemId := y.workItemId

/-- A restored worker state: what was in progress is queued behind what was queued. -/
def SerializedStepWorkerState.toWorker (w : SerializedStepWorkerState) : InternalStepWorkerState where
  queue := (w.queue ++ w.inProgress).map SerializedEventAttempt.toAttempt
  collectedEvents := w.collectedEvents
  staticCollectEvents := w.staticCollectEvents
  collectedWaiters := w.collectedWaiters.map SerializedWaiter.toWaiter

/-- `from_serialized`: the steps of the workflow that runs now get their worker states back. -/
def BrokerState.fromSerialized (cfg : BrokerConfig) (s : SerializedContext) : BrokerState where
  isRunning := s.isRunning
  workers n := if cfg.steps.contains n then (s.workers n).toWorker else {}
  streamSeq := s.streamSeq
  workItemSeq := s.workItemSeq
  streams := s.streams
  collectionReleaseStates := s.collectionReleaseStates

/-- What `_import_event_type` makes of the module and the name of a class, none when it raises: the class, or for one that is
nested in another or in a function, whatever else the module has under that name. -/
abbrev ClassImport := EventType → Option EventType

/-- A stored waiter whose awaited class was imported. -/
def SerializedWaiter.imported (imports : ClassImport) (y : SerializedWaiter) : SerializedWaiter :=
  { y with waitingForEvent := (imports y.waitingForEvent).getD y.waitingForEvent }

/-- `from_serialized` with the classes that waiters await. It raises when one of them cannot be imported. -/
def BrokerState.fromSerialized? (imports : ClassImport) (cfg : BrokerConfig) (s : SerializedContext) : Option BrokerState :=
  if cfg.steps.keys.all fun n => (s.workers n).collectedWaiters.all fun y => (imports y.waitingForEvent).isSome then
    some (fromSerialized cfg { s with
      workers := fun n => { s.workers n with
        collectedWaiters := (s.workers n).collectedWaiters.map (SerializedWaiter.imported imports) } })
  else none

end LlamaAgents
