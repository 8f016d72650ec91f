import LlamaAgents.Runner

/-!
# Worker slots and worker tasks

The reducer keeps an in-progress slot for each execution of a step, and the runner a task that will bring the slot's result.
`Loop.finishWorker` has the task of a body that returns, raises or waits, under retry policies that answer. Here a task can
also end in the two ways that bring no result: the body raises `asyncio.CancelledError`, which neither the wrapper nor
`_run_worker` catches, or the step's retry policy raises, and raises again on its own error.
-/

namespace LlamaAgents

/-- The exception that the retry policy of a step raises, if any, on the time since the first attempt, the number of failures
and the exception of the last one. -/
abbrev PolicyErrors := StepId → Time → Nat → Exn → Option Exn

/-- What the body of a step does: it runs as a program, or raises `asyncio.CancelledError`. -/
inductive StepBody where
  | program (program : StepProgram)
  | cancelled

namespace StepBody

/-- Whether a body raises `asyncio.CancelledError`. -/
def isCancelled : StepBody → Bool
  | cancelled => true
  | program _ => false

/-- The results of an execution, none when the wrapper lets a cancellation through. A collect step without a payload fails
before its body is called. -/
def results (c : StepConfig) (step : StepId) (snapshot : StepWorkerState) (failedAt : Time) :
    StepBody → Option (List StepFunctionResult)
  | program p => some (stepWorker c step snapshot p failedAt)
  | cancelled =>
    if c.collectionParam.isSome && snapshot.collectionReleasePayload.isNone then
      some (stepWorker c step snapshot (.ret .none) failedAt)
    else none

end StepBody

/-- What `_stamp_retry_decisions` raises: the first error of the step's policy on a failure without a decision. -/
def stampError (raises : PolicyErrors) (c : StepConfig) (step : StepId) (x : InProgressState)
    (results : List StepFunctionResult) : Option Exn :=
  results.findSome? fun
    | .failed f =>
      if c.retryPolicy.isSome && f.retryDecision.isNone then
        raises step (f.failedAt - x.firstAttemptAt) (x.attempts + 1) f.exception
      else none
    | _ => none

/-- `_stamp_retry_decisions`. -/
def stampRetryDecisions (raises : PolicyErrors) (c : StepConfig) (step : StepId) (x : InProgressState) (runId : Option String)
    (results : List StepFunctionResult) : Except Exn (List StepFunctionResult) :=
  match stampError raises c step x results with
  | none => .ok (results.map (stampRetryDecision c step x runId))
  | some e => .error e

namespace Loop

variable (cfg : BrokerConfig) (runId : Option String) (raises : PolicyErrors)

/-- `_run_worker`: the tick that a worker's task returns, none when the task is cancelled or fails. An error of the retry
policy is reported as the failure, which is stamped in its turn. -/
def runWorker (L : Loop) (w : CommandRunWorker) (body : StepBody) (failedAt failedAgainAt : Time) : Option TickStepResult :=
  match cfg.steps.get? w.stepId, (L.state.workers w.stepId).execution? w.id with
  | some c, some x =>
    (body.results c w.stepId x.sharedState failedAt).bind fun results =>
      match stampRetryDecisions raises c w.stepId x runId results with
      | .ok results => some { stepId := w.stepId, workerId := w.id, event := w.event, result := results }
      | .error e =>
        match stampRetryDecisions raises c w.stepId x runId [.failed { exception := e, failedAt := failedAgainAt }] with
        | .ok results => some { stepId := w.stepId, workerId := w.id, event := w.event, result := results }
        | .error _ => none
  | _, _ => some (L.workerTick cfg runId w (.ret .none) failedAt)

/-- A worker's task ends: its tick is buffered, and a stop event cancels the other workers at once. A task that ends without a
tick is only logged. -/
def endTask (L : Loop) (i : Nat) (body : StepBody) (failedAt failedAgainAt : Time) : Option Loop :=
  L.workers[i]?.map fun w =>
    match L.runWorker cfg runId raises w body failedAt failedAgainAt with
    | none => { L with workers := L.workers.eraseIdx i }
    | some tick =>
      { L with
        workers := if tick.result.any stops then [] else L.workers.eraseIdx i
        tickBuffer := L.tickBuffer ++ [.stepResult tick] }

end Loop

/-- What happens next in a run whose tasks can end without a result: a task ends, or anything else that `Action` has. -/
inductive TaskAction where
  | loop (action : Action)
  | taskEnd (i : Nat) (body : StepBody) (failedAt failedAgainAt : Time)

/-- The end of a worker's task, as an action of the loop. -/
def Action.isFinish : Action → Bool
  | .finish _ _ _ => true
  | _ => false

/-- The buffers that results add an event to. -/
def addedBuffers (results : List StepFunctionResult) : List String :=
  results.filterMap fun
    | .addCollected id _ => some id
    | _ => none

/-- The ids of the in-progress slots of a step. -/
def InternalStepWorkerState.slots (w : InternalStepWorkerState) : List Nat := w.inProgress.map InProgressState.workerId

/-- The slot of a step whose result a tick brings. -/
def WorkflowTick.slotAt? (n : StepId) : WorkflowTick → Option Nat
  | .stepResult t => if t.stepId = n then some t.workerId else none
  | _ => none

/-- Whether a tick brings the result of a step that returned a stop event. -/
def WorkflowTick.stops : WorkflowTick → Bool
  | .stepResult t => t.result.any Loop.stops
  | _ => false

/-- Whether the result of a tick, if any, adds to no collect buffer twice. -/
def WorkflowTick.addsOnce : WorkflowTick → Bool
  | .stepResult t => decide (addedBuffers t.result).Nodup
  | _ => true

/-- Whether a tick brings a stop event that is to be discarded for a stale collect buffer. -/
def WorkflowTick.stopsStale (σ : BrokerState) : WorkflowTick → Bool
  | .stepResult t => t.result.any Loop.stops &&
      ((σ.workers t.stepId).execution? t.workerId).any fun x => t.result.any (staleFiring (σ.workers t.stepId) x)
  | _ => false

namespace Loop

variable (cfg : BrokerConfig) (runId : Option String) (raises : PolicyErrors)

/-- The effect of an action, if it can happen. -/
def stepTasks (L : Loop) : TaskAction → Option Loop
  | .loop a => if a.isFinish then none else L.step cfg runId a
  | .taskEnd i body failedAt failedAgainAt =>
    if L.outcome.isNone && L.tickBuffer.isEmpty then L.endTask cfg runId raises i body failedAt failedAgainAt else none

/-- The ids of the slots of a step that a pending or running task works for. -/
def tasksAt (L : Loop) (n : StepId) : List Nat := (L.workers.filter fun w => w.stepId = n).map CommandRunWorker.id

/-- The ids of the slots of a step whose result is buffered. -/
def resultsAt (L : Loop) (n : StepId) : List Nat := L.tickBuffer.filterMap (WorkflowTick.slotAt? n)

/-- Each slot of a step has one task or one buffered result, and each of these has a slot. -/
def SlotsMatch (L : Loop) : Prop :=
  ∀ n ∈ cfg.steps.keys, (L.state.workers n).slots.Perm (L.tasksAt n ++ L.resultsAt n) ∧ (L.state.workers n).slots.Nodup

instance (L : Loop) : Decidable (L.SlotsMatch cfg) := inferInstanceAs (Decidable (∀ n ∈ cfg.steps.keys, _))

/-- Whether the result of a step that returned a stop event is buffered: the run is ending, and its other workers are
cancelled. -/
def isStopping (L : Loop) : Bool := L.tickBuffer.any WorkflowTick.stops

/-- Whether an action keeps the slots and their tasks together: no task is cancelled by its own body, and the result that is
reduced adds to no collect buffer twice and brings no stop event that is to be discarded. -/
def keepsSlots (L : Loop) : TaskAction → Bool
  | .taskEnd _ body _ _ => !body.isCancelled
  | .loop (.drain _) => L.tickBuffer.head?.all fun t => t.addsOnce && !t.stopsStale L.state
  | .loop _ => true

end Loop

/-! ## Pools -/

/-- The worker pool of a step is in order. -/
structure InternalStepWorkerState.Pooled (c : StepConfig) (w : InternalStepWorkerState) : Prop where
  bounded : w.inProgress.length ≤ c.numWorkers
  distinct : w.slots.Nodup
  below : ∀ i ∈ w.slots, i < c.numWorkers
  conserving : w.inProgress.length < c.numWorkers → ∀ a ∈ w.queue, a.isEligible = false

/-- A queue after dispatch: of the eligible attempts the first `k` are gone, and every delayed one is where it was. -/
structure DispatchedInOrder (k : Nat) (queue queue' : List EventAttempt) : Prop where
  eligible : queue'.filter EventAttempt.isEligible = (queue.filter EventAttempt.isEligible).drop k
  delayed : (queue'.filter fun a => !a.isEligible) = queue.filter fun a => !a.isEligible

/-- What draining a step's queue does: as many eligible attempts as there are free workers are started, the first in the queue
first, and nothing else starts or leaves the queue. -/
structure DrainedInOrder (c : StepConfig) (n : StepId) (now : Time) (w w' : InternalStepWorkerState) : Prop where
  started : ∃ xs, w'.inProgress = w.inProgress ++ xs ∧ List.Forall₂ (fun a x => ∃ id, x = a.start n id now w)
    ((w.queue.filter EventAttempt.isEligible).take (c.numWorkers - w.inProgress.length)) xs
  queue : DispatchedInOrder (c.numWorkers - w.inProgress.length) w.queue w'.queue

/-- What an action does to the queue of a step: delayed attempts may become eligible where they are, retries are put in front and
first attempts without a delay at the end, and then the first `k` eligible attempts leave the queue and are the last to be
started, in its order. -/
def QueueServed (n : StepId) (w w' : InternalStepWorkerState) : Prop :=
  ∃ (front back : List EventAttempt) (wake : EventAttempt → EventAttempt) (k : Nat) (held started : List InProgressState),
    ((∀ a ∈ front, 0 < a.attempts.getD 0) ∧ (∀ a ∈ back, a.isEligible ∧ a.attempts.getD 0 = 0) ∧
      (wake = id ∨ ∃ due, wake = fun a => a.wake due)) ∧
    DispatchedInOrder k (front ++ w.queue.map wake ++ back) w'.queue ∧ w'.inProgress = held ++ started ∧
    List.Forall₂ (fun a x => ∃ id now v, x = a.start n id now v)
      (((front ++ w.queue.map wake ++ back).filter EventAttempt.isEligible).take k) started

/-- A wakeup is scheduled or buffered that is due at a time or later. -/
def Loop.WakesBy (L : Loop) (t : Time) : Prop :=
  ∃ due, t ≤ due ∧ (.wakeup due ∈ L.tickBuffer ∨ ∃ e ∈ L.scheduledWakeups, e.2.2 = .wakeup due)

/-- What happens next in a run where wakeups can also be scheduled again, or that nothing waits for: an action, or the scheduling
of a wakeup that is due at a time, for another time. -/
def Loop.stepWoken (cfg : BrokerConfig) (runId : Option String) (raises : PolicyErrors) (L : Loop) :
    TaskAction ⊕ (Time × Time) → Option Loop
  | .inl a => L.stepTasks cfg runId raises a
  | .inr (due, atTime) => some (L.scheduleTick (.wakeup due) atTime)

/-- Reduce wakeups one after the other, each with the time at which it is reduced. -/
def reduceWakeups (cfg : BrokerConfig) : List (Time × Time) → BrokerState → BrokerState
  | [], σ => σ
  | (due, now) :: l, σ => reduceWakeups cfg l (processWakeupTick cfg due σ now).1

end LlamaAgents
