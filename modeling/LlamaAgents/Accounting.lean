import LlamaAgents.Runner

/-!
# The open work of a stream

What a stream's counter stands for: the work items inside the stream, the deliveries still pending in the tick buffer, and the
releases that its child streams still owe it. These are the abstract quantities; the reducer only keeps the counter.
-/

namespace LlamaAgents

open Lib (Dict)

variable (cfg : BrokerConfig)

/-- A step's work items, queued and in progress, whose innermost scope is a stream. -/
def InternalStepWorkerState.workIn (w : InternalStepWorkerState) (s : StreamId) : Int :=
  w.queue.countP (fun a => a.scopePath.getLast? = some s) + w.inProgress.countP (fun x => x.scopePath.getLast? = some s)

/-- The work items whose innermost scope is a stream. -/
def BrokerState.workIn (σ : BrokerState) (s : StreamId) : Int := cfg.steps.sum fun n _ => (σ.workers n).workIn s

/-- The steps that accept an added event and are targeted by it. -/
def TickAddEvent.deliveries (tick : TickAddEvent) : Nat :=
  cfg.steps.entries.countP fun p => p.2.acceptsEvent tick.event && tick.isTargeted p.1

/-- The deliveries of a tick inside a stream. -/
def WorkflowTick.pendingIn (s : StreamId) : WorkflowTick → Int
  | .addEvent tick => if tick.scopePath.getLast? = some s then tick.deliveries cfg else 0
  | _ => 0

/-- The deliveries inside a stream that are pending in a tick buffer. -/
def pendingIn (ticks : List WorkflowTick) (s : StreamId) : Int := (ticks.map fun t => t.pendingIn cfg s).sum

/-- The bindings of an open stream that have not released. -/
def BrokerState.unreleased (σ : BrokerState) (stream : CollectionStreamInstance) : Nat :=
  stream.acceptingBindingIds.countP fun id => !(σ.releaseState stream.streamId id).released

/-- The releases that the open child streams of a stream still owe it. -/
def BrokerState.childrenIn (σ : BrokerState) (s : StreamId) : Int :=
  σ.streams.sum fun _ stream => if stream.scopePath.getLast? = some s then (σ.unreleased stream : Int) else 0

/-- The open work of a stream in a run. -/
def Loop.openWork (L : Loop) (s : StreamId) : Int :=
  L.state.workIn cfg s + pendingIn cfg L.tickBuffer s + L.state.childrenIn s

/-- The counter of a stream, zero when it is not open. -/
def BrokerState.counter (σ : BrokerState) (s : StreamId) : Int := ((σ.streams.get? s).map (·.openWorkItems)).getD 0

/-- The records of accounting that went wrong: a decrement of a stream that is not open, and a negative counter. -/
def LogEntry.isFault : LogEntry → Bool
  | .unknownStream _ | .wentNegative _ _ _ => true
  | _ => false

/-! ## What a collect step owes a stream -/

/-- Whether an added event is delivered to a step inside a stream. -/
def TickAddEvent.deliversTo (cfg : BrokerConfig) (t : TickAddEvent) (s : StreamId) (n : StepId) : Bool :=
  t.scopePath.getLast? = some s && (cfg.steps.get? n).any (fun c => c.acceptsEvent t.event) && t.isTargeted n

/-- The events routed to a step inside a stream by the ticks of a journal, in the order of their delivery. -/
def routed (cfg : BrokerConfig) (J : List WorkflowTick) (s : StreamId) (n : StepId) : List Event :=
  J.filterMap fun
    | .addEvent t => if t.deliversTo cfg s n then some t.event else none
    | _ => none

/-- The collect invocation that a record of the log says was created for a binding in a stream. -/
def LogEntry.invocation? (b : CollectionBinding) (s : StreamId) : LogEntry → Option EventAttempt
  | .released b' s' a => if b' = b ∧ s' = s then some a else none
  | _ => none

/-- The collect invocations created for a binding in a stream. -/
def invocations (log : List LogEntry) (b : CollectionBinding) (s : StreamId) : List EventAttempt :=
  log.filterMap (LogEntry.invocation? b s)

/-- The collect invocation of a binding in a stream that the members `es` were routed to: its batch is what the binding's
cardinality selects, and it runs in the scope the stream was opened in. -/
def collectInvocation (b : CollectionBinding) (s : StreamId) (es : List Event) : EventAttempt :=
  (CollectionReleasePayload.mk b.id s (b.policy.batch es) s.path).toAttempt

/-- A stream that an execution opened. -/
def OpenedBy (log : List LogEntry) (x : InProgressState) (s : StreamId) : Prop :=
  ∃ st, .opened x st ∈ log ∧ st.streamId = s

end LlamaAgents
