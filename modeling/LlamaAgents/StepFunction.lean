import LlamaAgents.Reduce

/-!
# Step executions

A step's body as the runtime sees it: it may buffer events (`ctx.collect_events`), wait for an event (`ctx.wait_for_event`),
and ends by returning a value or raising. The wrapper of `runtime/types/step_function.py` turns that into the results of the
execution, and the runner stamps retry decisions on failures (`_stamp_retry_decisions`).
-/

namespace LlamaAgents

open Lib (Dict)

/-- An element of a returned list: an event, or a value of another type. -/
inductive ReturnItem where
  | event (e : Event)
  | other (typeName : String)
deriving DecidableEq

/-- What a step function returns. -/
inductive ReturnValue where
  | none
  | event (e : Event)
  | list (items : List ReturnItem)
  | other (typeName : String)
deriving DecidableEq

/-- The arguments of `ctx.wait_for_event`. -/
structure WaitCall where
  eventType : EventType
  waiterEvent : Option Event := none
  waiterId : Option String := none
  requirements : List (String × Value) := []
  timeout : Option Time := some 2000

/-- A step's body. `next` of a wait gets the awaited event, or the error of a wait that timed out. -/
inductive StepProgram where
  | ret (value : ReturnValue)
  | raise (exception : Exn)
  | collectEvents (event : BufferedEvent) (expected : List EventType) (bufferId : Option String)
      (next : Option (List Event) → StepProgram)
  | waitForEvent (call : WaitCall) (next : Except Exn Event → StepProgram)

/-- Whether a body only returns or raises. -/
def StepProgram.returnsOrRaises : StepProgram → Bool
  | ret _ | raise _ => true
  | _ => false

/-! ## `ctx.collect_events` -/

/-- For each expected type in turn, the first event of that type that is not taken yet. -/
def takeByType : List EventType → List Event → List Event
  | [], _ => []
  | t :: ts, pool =>
    (pool.find? fun e => e.type = t).toList ++ takeByType ts (pool.eraseP fun e => e.type = t)

/-- `collect_events`: the collected events once all expected types are there, and the results recorded on the way. -/
def collectEvents (snapshot : StepWorkerState) (e : BufferedEvent) (expected : List EventType) (bufferId : Option String) :
    Option (List Event) × List StepFunctionResult :=
  if expected.isEmpty then (some [], [])
  else
    let id := if bufferId.getD "" = "" then "default" else bufferId.getD ""
    let collected := (snapshot.collectedEvents.get? id).getD []
    let remaining := expected.diff (collected.map fun y => y.event.type)
    if remaining = [e.event.type] then
      (some (takeByType expected ((collected ++ [e]).map BufferedEvent.event)), [.deleteCollected id])
    else (none, if remaining.contains e.event.type then [.addCollected id e] else [])

/-! ## `ctx.wait_for_event` -/

/-- `_stable_requirements_str`: requirements that differ in the order of their keys are the same. -/
def stableRequirements (requirements : List (String × Value)) : List (String × Value) :=
  requirements.insertionSort fun a b => a.1 ≤ b.1

/-- The waiter id of a call: the given one, an older form that a waiter of the snapshot has, or that of the work item. -/
def WaitCall.id (call : WaitCall) (snapshot : StepWorkerState) : WaiterId :=
  match call.waiterId with
  | some id => .explicit id
  | none =>
    let name := call.eventType.qualname
    let ids := snapshot.collectedWaiters.map StepWorkerWaiter.waiterId
    let legacyId := WaiterId.legacy name call.requirements
    let baseId := WaiterId.base name (stableRequirements call.requirements)
    if ids.contains legacyId then legacyId
    else if ids.contains baseId then baseId
    else match snapshot.workItemId with
      | some item => .workItem name (stableRequirements call.requirements) item
      | none => baseId

/-- `wait_for_event`: the suspension of the step, or what it goes on with and the result recorded. -/
def waitForEvent (snapshot : StepWorkerState) (call : WaitCall) : AddWaiter ⊕ (Except Exn Event × StepFunctionResult) :=
  let id := call.id snapshot
  let suspend : AddWaiter :=
    { waiterId := id, requirements := call.requirements, timeout := call.timeout, eventType := call.eventType,
      waiterEvent := call.waiterEvent }
  match snapshot.collectedWaiters.find? fun y => y.waiterId = id with
  | none => .inl suspend
  | some y =>
    if y.timedOut then
      .inr (.error ⟨.timeoutError, "Timed out waiting for " ++ call.eventType.name⟩, .deleteWaiter id)
    else match y.resolvedEvent with
      | none => .inl suspend
      | some e => .inr (.ok e, .deleteWaiter id)

/-! ## The wrapper -/

/-- How a body ends. -/
inductive StepEnd where
  | returned (value : ReturnValue)
  | raised (exception : Exn)
  | waiting (add : AddWaiter)

/-- Run a body on a snapshot: the results it records and how it ends. -/
def StepProgram.exec (snapshot : StepWorkerState) : StepProgram → List StepFunctionResult × StepEnd
  | ret v => ([], .returned v)
  | raise e => ([], .raised e)
  | collectEvents e expected bufferId next =>
    let collected := LlamaAgents.collectEvents snapshot e expected bufferId
    let rest := (next collected.1).exec snapshot
    (collected.2 ++ rest.1, rest.2)
  | waitForEvent call next =>
    match LlamaAgents.waitForEvent snapshot call with
    | .inl add => ([], .waiting add)
    | .inr (value, recorded) =>
      let rest := (next value).exec snapshot
      (recorded :: rest.1, rest.2)

/-- The events of a returned list, or the type of its first other element. -/
def ReturnItem.events : List ReturnItem → Except String (List Event)
  | [] => .ok []
  | .event e :: l => (ReturnItem.events l).map fun es => e :: es
  | .other typeName :: _ => .error typeName

/-- The results of a returned value, or the error that the wrapper raises. -/
def wrapReturn (c : StepConfig) (step : StepId) : ReturnValue → Except Exn (List StepFunctionResult)
  | .none => .ok [.result none false]
  | .event e =>
    if c.isFanOut && !c.bareReturnTypes.any fun t => e.isInstance t then
      .error ⟨.workflowRuntimeError, "Step function " ++ step ++ " returned a bare " ++ e.type.name ++
        " but its return annotation only declares it inside a list. Return a one-element list to fan out, or declare the bare " ++
        "type as a union member (e.g. -> list[A] | B) for ordinary dispatch."⟩
    else .ok [.result (some e) false]
  | .list items =>
    if c.isFanOut then
      match ReturnItem.events items with
      | .error typeName => .error ⟨.workflowRuntimeError, "Step function " ++ step ++ " returned a list containing " ++
          typeName ++ " instead of an Event instance."⟩
      | .ok [] => .ok [.result none true]
      | .ok (e :: es) => .ok ((e :: es).map fun e => .result (some e) true)
    else .error ⟨.workflowRuntimeError, "Step function " ++ step ++ " returned list instead of an Event instance."⟩
  | .other typeName =>
    .error ⟨.workflowRuntimeError, "Step function " ++ step ++ " returned " ++ typeName ++ " instead of an Event instance."⟩

/-- `wrapper`: the results of an execution of a step. -/
def stepWorker (c : StepConfig) (step : StepId) (snapshot : StepWorkerState) (program : StepProgram) (failedAt : Time) :
    List StepFunctionResult :=
  if c.collectionParam.isSome && snapshot.collectionReleasePayload.isNone then
    [.failed { exception := ⟨.workflowRuntimeError, "Collect step '" ++ step ++ "' was invoked without a collection release " ++
      "payload. This indicates a lost work record (runtime bug or corrupted serialized state)."⟩, failedAt := failedAt }]
  else
    let run := program.exec snapshot
    match run.2 with
    | .waiting add => run.1 ++ [.addWaiter add]
    | .raised e => run.1 ++ [.failed { exception := e, failedAt := failedAt }]
    | .returned v =>
      match wrapReturn c step v with
      | .ok results => run.1 ++ results
      | .error e => run.1 ++ [.failed { exception := e, failedAt := failedAt }]

/-- `_stamp_retry_decisions`, for one result. -/
def stampRetryDecision (c : StepConfig) (step : StepId) (x : InProgressState) (runId : Option String) :
    StepFunctionResult → StepFunctionResult
  | .failed f =>
    if f.retryDecision.isSome then .failed f
    else
      let delay := decideRetryDelay c.retryPolicy (f.failedAt - x.firstAttemptAt) (x.attempts + 1) f.exception runId step
      .failed { f with retryDecision := some ⟨delay⟩, firstAttemptAt := some x.firstAttemptAt }
  | r => r

end LlamaAgents
