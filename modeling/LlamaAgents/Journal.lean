import LlamaAgents.Lib.Run
import LlamaAgents.Serialized
import LlamaAgents.Runner

/-!
# The tick journal

A run under tick persistence: every reduced tick is appended to the journal of the run, and a run that was interrupted is
resumed from it (`replay_ticks_stream`, `context_from_ticks`). A session is one life of the process; the journal goes over all
of them.
-/

namespace LlamaAgents

/-! ## The codec of ticks -/

/-- A step result as it is read back from the journal: an `AddWaiter` has lost its requirements, and the flag that there were
some is dropped again by its validator. -/
def StepFunctionResult.decoded : StepFunctionResult → StepFunctionResult
  | .addWaiter add => .addWaiter { add with requirements := [], hasRequirements := false }
  | r => r

/-- A tick as it is read back from the journal. -/
def WorkflowTick.decoded : WorkflowTick → WorkflowTick
  | .stepResult t => .stepResult { t with result := t.result.map StepFunctionResult.decoded }
  | t => t

/-! ## Replay -/

/-- `ReplayResult`. -/
structure ReplayResult where
  state : BrokerState
  exitCommand : Option WorkflowCommand := none

variable (cfg : BrokerConfig) (runId : Option String)

/-- One round of `replay_ticks_stream`: the commands are dropped, but for the last one that ends a run. -/
def replayTick (tick : WorkflowTick) (now : Time) (r : ReplayResult) : Except Exn ReplayResult :=
  (reduceTick cfg tick r.state now runId).map fun reduced =>
    { state := reduced.1
      exitCommand := ((reduced.2.filter WorkflowCommand.indicatesExit).getLast?).or r.exitCommand }

/-- `replay_ticks_stream`, from a state: the clock is read once for the rewind and once for each tick. -/
def replayTicksStream (σ : BrokerState) (ticks : List WorkflowTick) (clock : Nat → Time) : Except Exn ReplayResult :=
  Lib.replay (replayTick cfg runId) (fun k => clock (k + 1)) { state := (rewindInProgress cfg (clock 0) σ).1 } ticks

/-- An exit command with which a run is over. An idle release is not: the run is resumed later. -/
def WorkflowCommand.finalizes : WorkflowCommand → Bool
  | .completeRun e => !e.isInstance .idleReleasedEvent
  | c => c.indicatesExit

/-- `context_from_ticks`: the restored state of a run that is to be resumed. There is none when nothing was journaled, the
replay raises, or the run is over. -/
def contextFromTicks (ticks : List WorkflowTick) (clock : Nat → Time) : Option BrokerState :=
  if ticks.isEmpty then none
  else match replayTicksStream cfg runId {} ticks clock with
    | .error _ => none
    | .ok r => if r.exitCommand.any WorkflowCommand.finalizes then none
      else some (BrokerState.fromSerialized cfg r.state.toSerialized)

/-! ## Sessions -/

/-- A run under tick persistence: what earlier sessions have journaled, and the loop of this one. -/
structure Session where
  earlier : List WorkflowTick := []
  loop : Loop

/-- The persisted journal. -/
def Session.journal (S : Session) : List WorkflowTick := S.earlier ++ S.loop.journal.map WorkflowTick.decoded

/-- What happens in a run under tick persistence: its loop goes on, or the process stops and the run is resumed. A resumed run
that was not running gets a start event. -/
inductive SessionAction where
  | loop (action : Action)
  | resume (clock : Nat → Time) (start : Event) (now : Time)

namespace Session

/-- The first session of a run. -/
def start (startEvent : Event) (now : Time) : Session := { loop := Loop.start cfg {} (some startEvent) now }

/-- The effect of an action, if it can happen. -/
def step (S : Session) : SessionAction → Option Session
  | .loop a => (S.loop.step cfg runId a).map fun L => { S with loop := L }
  | .resume clock start now =>
    (contextFromTicks cfg runId S.journal clock).map fun σ =>
      { earlier := S.journal, loop := Loop.start cfg σ (if σ.isRunning then none else some start) now }

end Session

/-! ## Emitted events -/

/-- The ticks of the events that an action emits: those that a step result queues when it is reduced. -/
def Loop.emits (L : Loop) : Action → List WorkflowTick
  | .drain now => match L.tickBuffer with
    | .stepResult t :: _ => match reduceTick cfg (.stepResult t) L.state now runId with
      | .ok r => newTicks r.2
      | .error _ => []
    | _ => []
  | _ => []

/-- Whether a loop still has an event to deliver: it is in a queue, in progress or in a buffer, a waiter holds it, or it is in a
tick that waits to be reduced. -/
def Loop.holds (L : Loop) (e : Event) : Bool :=
  (cfg.steps.keys.any fun n =>
    let w := L.state.workers n
    w.queue.any (·.event = e) || w.inProgress.any (·.event = e) || w.collectedEvents.values.any (·.any (·.event = e)) ||
      w.collectedWaiters.any (fun y => y.event = e || y.resolvedEvent = some e) || w.staticCollectEvents.contains e) ||
    (L.state.collectionReleaseStates.values.any fun r => r.buffer.contains e) ||
    (L.tickBuffer ++ L.mailbox).any fun
      | .addEvent d => d.event = e
      | _ => false

/-- A run under tick persistence with the events that its step results have emitted so far. -/
structure EmittingRun where
  session : Session
  emitted : List WorkflowTick := []

namespace EmittingRun

/-- The first session of a run, in which nothing was emitted yet. -/
def start (startEvent : Event) (now : Time) : EmittingRun := { session := Session.start cfg startEvent now }

/-- The effect of an action, if it can happen. -/
def step (R : EmittingRun) (a : SessionAction) : Option EmittingRun :=
  (R.session.step cfg runId a).map fun S =>
    { session := S
      emitted := R.emitted ++ match a with
        | .loop a => R.session.loop.emits cfg runId a
        | .resume _ _ _ => [] }

/-- Whether the run goes on and no emitted event still waits in memory, in the loop's buffer of ticks. -/
def isFlushed (R : EmittingRun) : Bool :=
  R.session.loop.outcome = none && R.emitted.all fun t => !R.session.loop.tickBuffer.contains t

/-- Whether an action interrupts the run, if at all, where no emitted event waits in memory. -/
def keepsEmitted (R : EmittingRun) : SessionAction → Bool
  | .loop _ => true
  | .resume _ _ _ => R.isFlushed

end EmittingRun

end LlamaAgents
