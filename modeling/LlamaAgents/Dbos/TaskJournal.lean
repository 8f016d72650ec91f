import Mathlib.Data.List.DropRight
import LlamaAgents.Runner

/-!
# The journal of completed tasks

`journal/task_journal.py` and `wait_for_next_task` of the DBOS adapter. The control loop waits for its workers' tasks and for the
pull of the next tick; a fresh execution journals which task completed, and a recovery waits for the task that the journal names.
What a task returns, what a pull receives and what the clock shows are recorded by DBOS, so that they are the same in a recovery;
when a task completes is not.
-/

namespace LlamaAgents

/-- The key of a task. -/
inductive TaskKey where
  | worker (stepId : StepId) (workerId : Nat)
  | pull (sequence : Nat)
deriving DecidableEq, Repr

/-- The exception that a task ends with: a `TimeoutError`, or another one. -/
inductive TaskFailure where
  | timeout
  | other
deriving DecidableEq

/-- How a wait ends: it returns a task or, out of time, none; or it raises. -/
inductive WaitResult where
  | returned (task : Option TaskKey)
  | raised

/-- `TaskJournal`, loaded. -/
structure TaskJournal where
  entries : List TaskKey := []
  replayIndex : Nat := 0
deriving DecidableEq, Repr

namespace TaskJournal

/-- `next_expected_key`. -/
def nextExpectedKey (J : TaskJournal) : Option TaskKey := J.entries[J.replayIndex]?

/-- `record`. -/
def record (J : TaskJournal) (key : TaskKey) : TaskJournal :=
  { entries := J.entries ++ [key], replayIndex := J.replayIndex + 1 }

/-- `advance`. -/
def advance (J : TaskJournal) : TaskJournal := { J with replayIndex := J.replayIndex + 1 }

/-- The task that a wait is for, if the journal names one that is there. -/
def target (J : TaskJournal) (tasks : List TaskKey) : Option TaskKey := J.nextExpectedKey.filter fun k => k ∈ tasks

/-- `wait_for_next_task`: the key of the task it returns, or none when it runs out of time. Given are the tasks that complete
before the timeout, in their order, and how they fail. A wait without a timeout for a task that does not complete does not
return. -/
def waitForNextTask (J : TaskJournal) (tasks : List TaskKey) (timeout : Option Time) (failure : TaskKey → Option TaskFailure)
    (completed : List TaskKey) : Option (WaitResult × TaskJournal) :=
  let timedOut := if timeout.isSome then some (.returned none, J) else none
  match J.target tasks with
  | some k =>
    if k ∈ completed then
      -- the task is awaited, so that its exception is raised here; a `TimeoutError` is taken for the wait's own
      match failure k with
      | none => some (.returned (some k), J.advance)
      | some .timeout => some (.returned none, J)
      | some .other => some (.raised, J)
    else timedOut
  | none =>
    -- nothing to replay, or the expected task is not there: any task will do, and is recorded
    match completed.find? fun k => k ∈ tasks with
    | some k => some (.returned (some k), J.record k)
    | none => timedOut

/-- Whether a wait runs out of time when these tasks complete before its timeout. -/
def waitsInVain (J : TaskJournal) (tasks completed : List TaskKey) : Bool :=
  match J.target tasks with
  | some k => k ∉ completed
  | none => (completed.find? fun k => k ∈ tasks).isNone

end TaskJournal

/-- The key of a worker's task. -/
def CommandRunWorker.key (w : CommandRunWorker) : TaskKey := .worker w.stepId w.id

/-- `next_wakeup_timeout`. -/
def Loop.nextWakeupTimeout (L : Loop) (now : Time) : Option Time :=
  L.scheduledWakeups.head?.map fun e => max 0 (e.1 - now)

/-- What DBOS has recorded: what the clock shows, what the body of a worker's `k`-th task does, what a pull receives, and which
tasks fail: a worker's when its body is cancelled or its retry policy raises twice, a pull's when it cannot receive. -/
structure DurableWorld where
  clock : Nat → Time
  body : TaskKey → Nat → StepProgram × Time
  received : Nat → Option WorkflowTick
  failure : TaskKey → Nat → Option TaskFailure := fun _ _ => none

/-- A control loop over the DBOS adapter, with the results of its waits so far, and whether one has raised, which ends the loop. -/
structure DbosRun where
  loop : Loop
  pullSequence : Nat := 0
  reads : Nat := 0
  outcomes : List (Option TaskKey) := []
  raised : Bool := false
  journal : TaskJournal := {}

/-- What happens: the loop drains a tick, or waits while these tasks complete before its timeout. -/
inductive DbosAction where
  | drain
  | wait (completed : List TaskKey)

namespace DbosRun

variable (cfg : BrokerConfig) (runId : Option String) (world : DurableWorld)

/-- The start of an execution, with what the journal holds. -/
def start (σ : BrokerState) (startEvent : Option Event) (entries : List TaskKey) : DbosRun :=
  { loop := Loop.start cfg σ startEvent (world.clock 0), reads := 1, journal := { entries := entries } }

/-- The tasks that a wait is given: those of the workers, and the pull. -/
def tasks (R : DbosRun) : List TaskKey := R.loop.workers.map CommandRunWorker.key ++ [.pull R.pullSequence]

/-- The timeout of a wait. -/
def timeout (R : DbosRun) : Option Time := R.loop.nextWakeupTimeout (world.clock R.reads)

/-- How a task that is there fails. -/
def failure (R : DbosRun) (k : TaskKey) : Option TaskFailure := world.failure k (R.outcomes.count (some k))

/-- What the loop does with a completed task. One that has failed is only logged. -/
def complete (R : DbosRun) (k : TaskKey) : DbosRun :=
  match k with
  | .pull _ =>
    { R with
      loop.tickBuffer := if (R.failure world k).isSome then [] else (world.received R.pullSequence).toList
      pullSequence := R.pullSequence + 1 }
  | .worker _ _ =>
    let result := world.body k (R.outcomes.count (some k))
    let ended := fun i => if (R.failure world k).isSome then some { R.loop with workers := R.loop.workers.eraseIdx i }
      else R.loop.finishWorker cfg runId i result.1 result.2
    { R with loop := ((R.loop.workers.findIdx? fun w => w.key = k).bind ended).getD R.loop }

/-- What the loop does with the result of a wait. The clock was read for the timeout, and is read again when it is over. -/
def handle (R : DbosRun) (o : Option TaskKey) : DbosRun :=
  let R' := match o with
    | some k => R.complete cfg runId world k
    | none => { R with loop := R.loop.popDueTicks (world.clock (R.reads + 1)), reads := R.reads + 1 }
  { R' with reads := R'.reads + 1, outcomes := R.outcomes ++ [o] }

/-- The effect of an action, if it can happen. -/
def step (R : DbosRun) (a : DbosAction) : Option DbosRun :=
  if R.loop.outcome.isSome || R.raised then none
  else match a with
    | .drain => (R.loop.drainTick cfg runId (world.clock R.reads)).map fun L => { R with loop := L, reads := R.reads + 1 }
    | .wait completed =>
      if R.loop.tickBuffer.isEmpty then
        (R.journal.waitForNextTask R.tasks (R.timeout world) (R.failure world) completed).map fun r =>
          match r.1 with
          | .returned o => { R.handle cfg runId world o with journal := r.2 }
          | .raised => { R with raised := true }
      else none

/-- The outcomes of an execution up to the last one that is journaled. -/
def recorded (R : DbosRun) : List (Option TaskKey) := R.outcomes.rdropWhile Option.isNone

/-- Whether an action of a recovery keeps the timing of an execution: a wait, up to the end of what was recorded, is for no task
that has failed, and runs out of time exactly when the wait in its place did. -/
def keepsTiming (R : DbosRun) (R' : DbosRun) : DbosAction → Bool
  | .drain => true
  | .wait completed => decide (R.recorded.length ≤ R'.outcomes.length) ||
      ((R'.journal.target R'.tasks).all fun k => decide (R'.failure world k = none)) &&
        (R'.journal.waitsInVain R'.tasks completed == decide (R.outcomes[R'.outcomes.length]? = some none))

end DbosRun

end LlamaAgents
