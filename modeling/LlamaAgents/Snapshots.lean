import LlamaAgents.Slots
import LlamaAgents.Serialized
import LlamaAgents.Lemmas.Work

/-!
# Runs that are restored from snapshots

At any point of a run its context can be serialized, and a new run of the same workflow can be started from the snapshot. The
workload of a step is what it has still to do: its unfinished items, its buffers and its waiters.
-/

namespace LlamaAgents

/-- What happens next: something in the run, or a new run is started from a snapshot of it, with a start event or without. -/
inductive SnapshotAction where
  | loop (action : TaskAction)
  | restore (startEvent : Option Event) (now : Time)

namespace Loop

variable (cfg : BrokerConfig) (runId : Option String) (raises : PolicyErrors)

/-- The effect of an action, if it can happen. -/
def stepSnapshots (L : Loop) : SnapshotAction → Option Loop
  | .loop a => L.stepTasks cfg runId raises a
  | .restore startEvent now => some (Loop.start cfg (BrokerState.fromSerialized cfg L.state.toSerialized) startEvent now)

/-- Whether the result that an action reduces, if any, adds to no collect buffer twice. -/
def addsOnce (L : Loop) : SnapshotAction → Bool
  | .loop (.loop (.drain _)) => L.tickBuffer.head?.all WorkflowTick.addsOnce
  | _ => true

end Loop

/-! ## The workload of a step -/

/-- An unfinished work item: its record, when it was first attempted and the time it is delayed to. -/
structure WorkItem extends WorkRecord where
  firstAttemptAt : Option Time
  notBefore : Option Time
deriving DecidableEq

/-- The item of a queued attempt. -/
def EventAttempt.item (a : EventAttempt) : WorkItem := ⟨a.record, a.firstAttemptAt, a.notBefore⟩

/-- The item of an execution in progress, which is not delayed. -/
def InProgressState.item (x : InProgressState) : WorkItem := ⟨x.record, some x.firstAttemptAt, none⟩

/-- The unfinished items of a step, queued and in progress. -/
def InternalStepWorkerState.items (w : InternalStepWorkerState) : Multiset WorkItem :=
  (w.queue.map EventAttempt.item ++ w.inProgress.map InProgressState.item : List WorkItem)

/-- An item that is kept: as it was, or, when it had not been attempted before, attempted now. -/
def WorkItem.Kept (now : Time) (i j : WorkItem) : Prop :=
  j = i ∨ i.firstAttemptAt.getD 0 = 0 ∧ j = { i with firstAttemptAt := some now }

/-- What a waiter waits for and what it resumes. -/
structure SuspendedItem where
  waiterId : WaiterId
  event : Event
  boundEvents : BoundEvents
  scopePath : ScopePath
  collectionReleasePayload : Option CollectionReleasePayload
  workItemId : Option WorkItemId
  waitingForEvent : EventType
  resolvedEvent : Option Event
deriving DecidableEq

/-- The item that a waiter suspends. -/
def StepWorkerWaiter.item (y : StepWorkerWaiter) : SuspendedItem :=
  ⟨y.waiterId, y.event, y.boundEvents, y.scopePath, y.collectionReleasePayload, y.workItemId, y.waitingForEvent,
    y.resolvedEvent⟩

/-- A step that has the same workload as before: the same unfinished items, buffers and waiters. -/
structure WorkloadKept (now : Time) (w w' : InternalStepWorkerState) : Prop where
  items : Multiset.Rel (WorkItem.Kept now) w.items w'.items
  collectedEvents : w'.collectedEvents = w.collectedEvents
  staticCollectEvents : w'.staticCollectEvents = w.staticCollectEvents
  waiters : w'.collectedWaiters.map StepWorkerWaiter.item = w.collectedWaiters.map StepWorkerWaiter.item

/-- A step that was rewound and is rewound again: its queue is the same, and so are the items in progress. -/
structure RewoundAgain (now : Time) (w w' : InternalStepWorkerState) : Prop where
  queue : w'.queue = w.queue
  inProgress : Multiset.Rel (WorkItem.Kept now) (w.inProgress.map InProgressState.item : List WorkItem)
    (w'.inProgress.map InProgressState.item : List WorkItem)
  collectedEvents : w'.collectedEvents = w.collectedEvents
  staticCollectEvents : w'.staticCollectEvents = w.staticCollectEvents
  waiters : w'.collectedWaiters = w.collectedWaiters

/-- A state that has the same streams, release states and counters as before. -/
structure StreamsKept (σ σ' : BrokerState) : Prop where
  streams : σ'.streams = σ.streams
  collectionReleaseStates : σ'.collectionReleaseStates = σ.collectionReleaseStates
  streamSeq : σ'.streamSeq = σ.streamSeq
  workItemSeq : σ'.workItemSeq = σ.workItemSeq

/-- The state of a run that is started from a snapshot of another's state. -/
def BrokerState.restored (imports : ClassImport) (cfg : BrokerConfig) (now : Time) (σ : BrokerState) : Option BrokerState :=
  (BrokerState.fromSerialized? imports cfg σ.toSerialized).map fun σ => (rewindInProgress cfg now σ).1

/-- Whether every class that a waiter awaits is what is found under its module and name. -/
def BrokerState.importsAwaited (imports : ClassImport) (cfg : BrokerConfig) (σ : BrokerState) : Bool :=
  cfg.steps.keys.all fun n => (σ.workers n).collectedWaiters.all fun y =>
    decide (imports y.waitingForEvent = some y.waitingForEvent)

/-- Whether an action starts a run from a snapshot only if the awaited classes can be imported. -/
def Loop.importsAwaited (imports : ClassImport) (cfg : BrokerConfig) (L : Loop) : SnapshotAction → Bool
  | .restore _ _ => L.state.importsAwaited imports cfg
  | .loop _ => true

end LlamaAgents
