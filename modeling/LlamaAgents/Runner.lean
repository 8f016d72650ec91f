import LlamaAgents.StepFunction

/-!
# The control loop

`control_loop/runner.py`: the loop's own state around the broker's (buffered ticks, scheduled wakeups, running workers, the
mailbox of the run, the ticks journaled so far), the commands' effects on it, and what can happen next. An action is what the
loop, a worker or a sender does; `Loop.step` is its effect, or none when it cannot happen.
-/

namespace LlamaAgents

open Lib (Dict)

/-- How a run ended. -/
inductive Outcome where
  | completed (result : Event)
  | raised (exception : Exn)
deriving DecidableEq

/-- `_ControlLoopRunner`: the broker's state and the loop's own. `workers` are the started and pending worker tasks. -/
structure Loop where
  state : BrokerState
  tickBuffer : List WorkflowTick := []
  scheduledWakeups : List (Time × Nat × WorkflowTick) := []
  wakeupSequence : Nat := 0
  idleCheckPending : Bool := false
  workers : List CommandRunWorker := []
  mailbox : List WorkflowTick := []
  journal : List WorkflowTick := []
  published : List Event := []
  outcome : Option Outcome := none

/-- Put an entry into the wakeups, which are in the order of their times and then of their sequence numbers. -/
def insertWakeup (e : Time × Nat × WorkflowTick) : List (Time × Nat × WorkflowTick) → List (Time × Nat × WorkflowTick)
  | [] => [e]
  | f :: l => if e.1 < f.1 || (decide (e.1 = f.1) && decide (e.2.1 < f.2.1)) then e :: f :: l else f :: insertWakeup e l

/-- The tick that a queued event becomes. -/
def CommandQueueEvent.tick (c : CommandQueueEvent) : TickAddEvent :=
  { event := c.event, stepId := c.stepId, recoveryCounts := c.recoveryCounts, scopePath := c.scopePath }

/-- The ticks that the queued events among some commands become. -/
def newTicks (cs : List WorkflowCommand) : List WorkflowTick :=
  cs.filterMap fun
    | .queueEvent c => some (.addEvent c.tick)
    | _ => none

namespace Loop

/-- `schedule_tick`. -/
def scheduleTick (L : Loop) (tick : WorkflowTick) (atTime : Time) : Loop :=
  { L with
    scheduledWakeups := insertWakeup (atTime, L.wakeupSequence, tick) L.scheduledWakeups
    wakeupSequence := L.wakeupSequence + 1 }

/-- The end of a run: `cleanup_tasks` cancels every worker. -/
def finishRun (L : Loop) (o : Outcome) : Loop := { L with workers := [], outcome := some o }

/-- `process_command`. -/
def processCommand (now : Time) (L : Loop) : WorkflowCommand → Loop
  | .queueEvent c => { L with tickBuffer := L.tickBuffer ++ [.addEvent c.tick] }
  | .runWorker c => { L with workers := L.workers ++ [c] }
  | .halt e => L.finishRun (.raised e)
  | .completeRun r => L.finishRun (.completed r)
  | .failWorkflow _ e => L.finishRun (.raised e)
  | .publishEvent e => { L with published := L.published ++ [e] }
  | .scheduleIdleCheck =>
    if L.idleCheckPending then L else { L with tickBuffer := L.tickBuffer ++ [.idleCheck], idleCheckPending := true }
  | .scheduleWaiterTimeout step id timeout => L.scheduleTick (.waiterTimeout step id) (now + timeout)
  | .scheduleWakeup atTime => L.scheduleTick (.wakeup atTime) atTime

/-- The commands of a tick in turn, up to one that ends the run. -/
def processCommands (now : Time) : Loop → List WorkflowCommand → Loop
  | L, [] => L
  | L, c :: cs => if c.indicatesExit then L.processCommand now c else processCommands now (L.processCommand now c) cs

variable (cfg : BrokerConfig) (runId : Option String)

/-- `_process_tick`: reduce, journal, then carry out the commands. -/
def processTick (now : Time) (tick : WorkflowTick) (L : Loop) : Loop :=
  match reduceTick cfg tick L.state now runId with
  | .error e => L.finishRun (.raised e)
  | .ok (σ, commands) => processCommands now { L with state := σ, journal := L.journal ++ [tick] } commands

/-- One round of draining the tick buffer. An idle check waits until nothing else is buffered. -/
def drainTick (now : Time) (L : Loop) : Option Loop :=
  match L.tickBuffer with
  | [] => none
  | .idleCheck :: [] => some (processTick cfg runId now .idleCheck { L with tickBuffer := [], idleCheckPending := false })
  | .idleCheck :: t :: ts => some { L with tickBuffer := (t :: ts) ++ [.idleCheck] }
  | t :: ts => some (processTick cfg runId now t { L with tickBuffer := ts })

/-- The tick that the loop reduces when it drains its buffer. -/
def drained? (L : Loop) : Option WorkflowTick :=
  match L.tickBuffer with
  | .idleCheck :: _ :: _ => none
  | ts => ts.head?

/-- The tick that a worker's task returns when the step's body is `program`. -/
def workerTick (L : Loop) (w : CommandRunWorker) (program : StepProgram) (failedAt : Time) : TickStepResult :=
  let results := match cfg.steps.get? w.stepId, (L.state.workers w.stepId).execution? w.id with
    | some c, some x => (stepWorker c w.stepId x.sharedState program failedAt).map (stampRetryDecision c w.stepId x runId)
    | _, _ => [.failed
        { exception := ⟨.workflowRuntimeError, "Worker " ++ toString w.id ++ " not found in in_progress. This should not happen."⟩
          failedAt := failedAt }]
  { stepId := w.stepId, workerId := w.id, event := w.event, result := results }

/-- Whether a step returned a stop event. -/
def stops : StepFunctionResult → Bool
  | .result (some e) _ => e.isStop
  | _ => false

/-- A worker's task ends. A stop event cancels the other workers at once. -/
def finishWorker (L : Loop) (i : Nat) (program : StepProgram) (failedAt : Time) : Option Loop :=
  L.workers[i]?.map fun w =>
    let tick := workerTick cfg runId L w program failedAt
    { L with
      workers := if tick.result.any stops then [] else L.workers.eraseIdx i
      tickBuffer := L.tickBuffer ++ [.stepResult tick] }

/-- `pop_due_ticks`. -/
def popDueTicks (L : Loop) (now : Time) : Loop :=
  { L with
    tickBuffer := L.tickBuffer ++ (L.scheduledWakeups.takeWhile fun e => e.1 ≤ now).map fun e => e.2.2
    scheduledWakeups := L.scheduledWakeups.dropWhile fun e => e.1 ≤ now }

end Loop

/-! ## The start of a run -/

mutual

/-- The text of a value in a waiter's id. -/
def Value.text : Value → String
  | .none => "null"
  | .bool b => if b then "true" else "false"
  | .int i => toString i
  | .str s => "\"" ++ s ++ "\""
  | .exn e => "\"" ++ e.message ++ "\""
  | .list vs => "[" ++ ",".intercalate (Value.texts vs) ++ "]"
  | .event t names vs => t.qualname ++ "(" ++ ",".intercalate (names.zipWith (fun n v => n ++ "=" ++ v) (Value.texts vs)) ++ ")"

/-- The texts of a list of values. -/
def Value.texts : List Value → List String
  | [] => []
  | v :: vs => v.text :: Value.texts vs

end

/-- The text of requirements in a waiter's id. -/
def requirementsText (requirements : List (String × Value)) : String :=
  "\x7b" ++ ",".intercalate (requirements.map fun r => "\"" ++ r.1 ++ "\":" ++ r.2.text) ++ "\x7d"

/-- The text of a waiter's id. -/
def WaiterId.text : WaiterId → String
  | .explicit id => id
  | .legacy name requirements | .base name requirements => "waiter_" ++ name ++ "_" ++ requirementsText requirements
  | .workItem name requirements item => "waiter_" ++ name ++ "_" ++ requirementsText requirements ++ "_" ++ item.text

/-- The tick that pings a step again with the work item a waiter suspended. -/
def StepWorkerWaiter.repingTick (y : StepWorkerWaiter) (step : StepId) : TickAddEvent where
  event := y.event
  stepId := some step
  boundEvents := y.boundEvents
  scopePath := y.scopePath
  collectionReleasePayload := y.collectionReleasePayload
  workItemId := y.workItemId

/-- `rehydrate_with_ticks`: ping the steps whose waiters have lost their requirements. -/
def rehydrateWithTicks (cfg : BrokerConfig) (σ : BrokerState) : List WorkflowTick :=
  cfg.sortedSteps.flatMap fun p =>
    (((σ.workers p.1).collectedWaiters.insertionSort fun y z => y.waiterId.text ≤ z.waiterId.text).filter fun y =>
      y.hasRequirements && y.requirements.isEmpty).map fun y => .addEvent (y.repingTick p.1)

/-- The construction of the runner and the first part of `run`: the pings of restored waiters and the start event are
buffered, the workflow's timeout is scheduled, and interrupted work is dispatched again. -/
def Loop.start (cfg : BrokerConfig) (σ : BrokerState) (startEvent : Option Event) (now : Time) : Loop :=
  let rewound := rewindInProgress cfg now σ
  let L : Loop :=
    { state := rewound.1
      tickBuffer := rehydrateWithTicks cfg σ ++ (startEvent.map fun e => WorkflowTick.addEvent { event := e }).toList }
  let L := match cfg.timeout with
    | some t => L.scheduleTick (.timeout t) (now + t)
    | none => L
  L.processCommands now rewound.2

/-! ## What can happen -/

/-- What can be sent to a run from outside its loop: an event without a scope (`ctx.send_event`, a handler's `send_event`), a
cancellation, or an event to publish. -/
inductive Message where
  | addEvent (event : Event) (stepId : Option StepId) (recoveryCounts : Dict StepId Nat)
  | cancelRun
  | publishEvent (event : Event)

/-- The tick of a message. -/
def Message.tick : Message → WorkflowTick
  | addEvent e step counts => .addEvent { event := e, stepId := step, recoveryCounts := counts }
  | cancelRun => .cancelRun
  | publishEvent e => .publishEvent e

/-- What happens next in a run: the loop drains a buffered tick; with nothing buffered it takes due wakeups, a tick from the
mailbox, or the result of the `i`-th worker's task; someone sends a message. -/
inductive Action where
  | drain (now : Time)
  | due (now : Time)
  | pull
  | finish (i : Nat) (program : StepProgram) (failedAt : Time)
  | send (message : Message)

namespace Loop

variable (cfg : BrokerConfig) (runId : Option String)

/-- The effect of an action, if it can happen. -/
def step (L : Loop) (a : Action) : Option Loop :=
  if L.outcome.isSome then none
  else match a with
    | .drain now => L.drainTick cfg runId now
    | .due now => if L.tickBuffer.isEmpty then some (L.popDueTicks now) else none
    | .pull =>
      match L.tickBuffer, L.mailbox with
      | [], t :: ts => some { L with tickBuffer := [t], mailbox := ts }
      | _, _ => none
    | .finish i program failedAt => if L.tickBuffer.isEmpty then L.finishWorker cfg runId i program failedAt else none
    | .send message => some { L with mailbox := L.mailbox ++ [message.tick] }

/-- The inner loop of `run`, for as many rounds as there are times given. -/
def drainLoop : List Time → Loop → Loop
  | [], L => L
  | now :: times, L =>
    if L.outcome.isSome then L
    else match L.drainTick cfg runId now with
      | none => L
      | some L' => drainLoop times L'

/-- The buffer holds one idle check when one is pending, and none otherwise. -/
def ChecksIdleOnce (L : Loop) : Prop := L.tickBuffer.count .idleCheck = if L.idleCheckPending then 1 else 0

instance (L : Loop) : Decidable L.ChecksIdleOnce := inferInstanceAs (Decidable (_ = _))

/-- The run is running, and no step has anything queued or in progress. -/
def IsIdle (L : Loop) : Prop :=
  L.state.isRunning ∧ ∀ n ∈ cfg.steps.keys, (L.state.workers n).queue = [] ∧ (L.state.workers n).inProgress = []

end Loop

/-- Whether a tick brings an event that it is to publish: one that was written to the stream, or the event of a waiter. -/
def WorkflowTick.brings (e : Event) : WorkflowTick → Bool
  | .publishEvent e' => e' = e
  | .stepResult t => t.result.any fun
    | .addWaiter add => add.waiterEvent = some e
    | _ => false
  | _ => false

end LlamaAgents
