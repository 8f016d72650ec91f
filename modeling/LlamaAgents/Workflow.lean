import Mathlib.Data.List.Dedup
import Mathlib.Data.List.Sort
import LlamaAgents.StreamLevels

/-!
# Workflows and their validation

`representation/validate.py`: the structural checks that a workflow's steps pass before it runs, and the broker's configuration
that is built from them. Resources are not modelled, so neither are their checks.
-/

namespace LlamaAgents

open Lib (Dict)

/-- A workflow: its class name, its steps, its timeout and the graph checks it skips. -/
structure Workflow where
  name : String
  steps : Dict StepId StepConfig
  timeout : Option Time := none
  skipGraphChecks : List GraphCheck := []

variable (steps : Dict StepId StepConfig)

/-- A validation error. -/
def validationError (message : String) : Exn := ⟨.workflowValidationError, message⟩

/-- A configuration error. -/
def configurationError (message : String) : Exn := ⟨.workflowConfigurationError, message⟩

/-- Raise a validation error that lists some messages, if there is one. -/
def raiseAll (errors : List String) : Except Exn Unit :=
  if errors.isEmpty then .ok () else .error (validationError ("\n".intercalate errors))

/-! ## The start and the stop event -/

/-- The text of a set of classes. -/
def classesText (types : List EventType) : String :=
  "\x7b" ++ ", ".intercalate (types.map fun t => "<class '" ++ t.qualname ++ "'>") ++ "\x7d"

/-- The one class among those found, or an error. -/
def ensureOneClass (found : List EventType) (kind action annotation workflowName : String) : Except Exn EventType :=
  match found with
  | [] => .error (configurationError ("At least one Event of type " ++ kind ++ " must be " ++ action ++
      " by any step. (Workflow '" ++ workflowName ++ "' has no @step that " ++ annotation ++ " " ++ kind ++ ".)"))
  | [t] => .ok t
  | ts => .error (configurationError ("Only one type of " ++ kind ++ " is allowed per workflow, found " ++
      toString ts.length ++ ": " ++ classesText ts ++ " in workflow '" ++ workflowName ++ "'."))

/-- `_ensure_start_event_class`. -/
def ensureStartEventClass (workflowName : String) : Except Exn EventType :=
  ensureOneClass ((steps.values.flatMap StepConfig.acceptedEvents).filter fun t => t.isSubclass .startEvent).dedup
    "StartEvent" "received" "accepts" workflowName

/-- `_ensure_stop_event_class`. -/
def ensureStopEventClass (workflowName : String) : Except Exn EventType :=
  ensureOneClass ((steps.values.flatMap StepConfig.returnTypes).filter fun t => t.isSubclass .stopEvent).dedup
    "StopEvent" "returned" "returns" workflowName

/-! ## Collect steps and joins -/

/-- The names of some event types in the order of the names. -/
def sortedNames (types : List EventType) : String := ", ".intercalate ((types.map EventType.name).insertionSort (· ≤ ·))

/-- The element types of a collect step that no producer's level contains. -/
def missingElementTypes (c : StepConfig) (p : CollectionParam) : List EventType :=
  (eventTypes p.elementTypes).filter fun t =>
    !(streamLevelTypesByProducer steps).any fun level => level.2.any fun produced => produced.typeMatches t c.acceptEventSubclasses

/-- `_validate_collection_bindings`. -/
def validateCollectionBindings : Except Exn Unit :=
  raiseAll (steps.entries.filterMap fun q => q.2.collectionParam.bind fun p =>
    let missing := missingElementTypes steps q.2 p
    if missing.isEmpty then none
    else some ("Step '" ++ q.1 ++ "' parameter '" ++ p.name ++ "' collects list[" ++ sortedNames missing ++ "], but no " ++
      "returned-list producer creates a stream for those event types. list[E] fan-in only consumes events from steps " ++
      "annotated as returning list[E]; use ctx.collect_events for unstreamed ctx.send_event flows."))

/-- The levels at which a join can take place: the top level, and each producer's stream. -/
def joinLevels (startEventClass : EventType) : List (String × List EventType) :=
  let externalSeeds := (steps.values.flatMap StepConfig.acceptedEvents).filter fun t => t.isSubclass .humanResponseEvent
  ("the top level", sameLevelTypes steps (startEventClass :: externalSeeds) []) ::
    (streamLevelTypesByProducer steps).map fun p => ("the stream of step '" ++ p.1 ++ "'", p.2)

/-- Where a slot's type is produced. -/
def slotLevelText (levels : List (String × List EventType)) (slot : String × EventType) : String :=
  let found := ((levels.filter fun l => l.2.contains slot.2).map Prod.fst).insertionSort (· ≤ ·)
  "'" ++ slot.1 ++ "' (" ++ slot.2.name ++ ") is produced at " ++
    if found.isEmpty then "no level" else ", ".intercalate found

/-- `_validate_multi_slot_levels`. -/
def validateMultiSlotLevels (startEventClass : EventType) : Except Exn Unit :=
  let levels := joinLevels steps startEventClass
  raiseAll (steps.entries.filterMap fun q => q.2.collectParams.bind fun slots =>
    if levels.any fun l => slots.all fun slot => l.2.contains slot.2 then none
    else some ("Step '" ++ q.1 ++ "' joins event parameters that are never produced at a common stream level: " ++
      "; ".intercalate (slots.map (slotLevelText levels)) ++ ". A multi-slot join only fires when all of its inputs originate " ++
      "at the same level. To gate in-stream work on input from another level, use ctx.wait_for_event inside the producing " ++
      "step instead."))

/-! ## Connectivity -/

/-- The class of `None`, the annotation of a step that returns nothing. -/
def noneType : EventType := ⟨"NoneType", "builtins.NoneType", []⟩

/-- Whether a type derives from one of some classes. -/
def EventType.isSubclassOfAny (t : EventType) (parents : List EventType) : Bool := parents.any fun p => t.isSubclass p

/-- `_validate_event_connectivity`: whether the workflow uses human input. -/
def validateEventConnectivity (startEventClass : EventType) : Except Exn Bool :=
  let produced := (startEventClass :: (steps.values.flatMap StepConfig.returnTypes).filter fun t => t ≠ noneType).dedup
  let consumed := (steps.values.flatMap StepConfig.acceptedEvents).dedup
  let acceptingStop := (steps.entries.filter fun q => q.2.acceptedEvents.any fun t => t.isSubclass .stopEvent).map Prod.fst
  let unconsumed := (steps.values.flatMap fun c => c.acceptedEvents.filter fun t =>
    !(t.isSubclassOfAny [.inputRequiredEvent, .humanResponseEvent, .stopEvent, .stepFailedEvent] ||
      produced.any fun p => p.typeMatches t c.acceptEventSubclasses)).dedup
  let unused := produced.filter fun t =>
    !(t.isSubclassOfAny [.inputRequiredEvent, .humanResponseEvent, .stopEvent] ||
      steps.values.any fun c => c.acceptsType t)
  if !acceptingStop.isEmpty then
    .error (validationError ("Step" ++ (if acceptingStop.length = 1 then "" else "s") ++ " '" ++
      "', '".intercalate acceptingStop ++ "' cannot accept StopEvent. StopEvent signals the end of the workflow. " ++
      "Use a different Event type instead."))
  else if !unconsumed.isEmpty then
    .error (validationError ("The following events are consumed but never produced: " ++
      ", ".intercalate (unconsumed.map EventType.name)))
  else if !unused.isEmpty then
    .error (validationError ("The following events are produced but never consumed: " ++
      ", ".intercalate (unused.map EventType.name)))
  else .ok (produced.any (fun t => t.isSubclass .inputRequiredEvent) || consumed.any fun t => t.isSubclass .humanResponseEvent)

/-! ## Handlers of failures -/

/-- The handlers that the steps declare. -/
def declaredHandlers : List CatchErrorHandler :=
  (steps.entries.filter fun q => q.2.role = .catchError).map fun q => ⟨q.1, q.2.catchErrorForSteps, q.2.catchErrorMaxRecoveries⟩

/-- The loop of `validate_catch_error_handlers` over the steps that handlers claim, with the owners so far. -/
def validateClaims (handlerSteps : List StepId) : List (StepId × StepId) → Dict StepId StepId → List String
  | [], _ => []
  | (handler, target) :: l, owners =>
    if !steps.contains target then
      ("@catch_error handler '" ++ handler ++ "' lists unknown step '" ++ target ++ "' in for_steps.") ::
        validateClaims handlerSteps l owners
    else if target = handler || handlerSteps.contains target then
      ("@catch_error handler '" ++ handler ++ "' cannot cover another handler step '" ++ target ++ "'.") ::
        validateClaims handlerSteps l owners
    else match owners.get? target with
      | some owner =>
        ("Step '" ++ target ++ "' is claimed by two @catch_error handlers: '" ++ owner ++ "' and '" ++ handler ++ "'.") ::
          validateClaims handlerSteps l owners
      | none => validateClaims handlerSteps l (owners.set target handler)

/-- `validate_catch_error_handlers`. -/
def validateCatchErrorHandlers (handlers : List CatchErrorHandler) : List String :=
  let wildcards := (handlers.filter fun h => h.forSteps.isNone).map CatchErrorHandler.stepName
  let claims := handlers.flatMap fun h => (h.forSteps.getD []).map fun target => (h.stepName, target)
  (if 1 < wildcards.length then
    ["Only one wildcard @catch_error handler is allowed per workflow, found " ++ toString wildcards.length ++ ": " ++
      ", ".intercalate (wildcards.insertionSort (· ≤ ·))] else []) ++
    validateClaims steps (handlers.map CatchErrorHandler.stepName) claims ∅

/-- The handlers by their step. -/
def catchErrorHandlers : Dict StepId CatchErrorHandler := Dict.ofList ((declaredHandlers steps).map fun h => (h.stepName, h))

/-- The handler of each step: the one that names it, or else the wildcard, which covers no handler. -/
def handlerForStep : Dict StepId StepId :=
  let handlers := declaredHandlers steps
  let claimed : Dict StepId StepId := Dict.ofList
    (handlers.flatMap fun h => (h.forSteps.getD []).map fun target => (target, h.stepName))
  match handlers.find? fun h => h.forSteps.isNone with
  | none => claimed
  | some wildcard => steps.keys.foldl (fun d n =>
      if (handlers.map CatchErrorHandler.stepName).contains n || d.contains n then d else d.set n wildcard.stepName) claimed

/-- `_collect_catch_error_handlers`. -/
def collectCatchErrorHandlers : Except Exn (Dict StepId CatchErrorHandler × Dict StepId StepId) :=
  match raiseAll (validateCatchErrorHandlers steps (declaredHandlers steps)) with
  | .error e => .error e
  | .ok () => .ok (catchErrorHandlers steps, handlerForStep steps)

/-! ## The step graph -/

/-- A node of the step graph. -/
inductive GraphNode where
  | step (name : StepId)
  | event (type : EventType)
deriving DecidableEq

/-- The event types of the graph. -/
def graphEventTypes (startEventClass : EventType) : List EventType :=
  (startEventClass :: steps.values.flatMap fun c => c.returnTypes.filter (fun t => t ≠ noneType) ++ c.acceptedEvents).dedup

/-- The outgoing edges of a node: a step returns events, an event goes to the steps that accept it. A stop event goes to no
step by way of its base classes. -/
def outgoing (startEventClass : EventType) : GraphNode → List GraphNode
  | .step n => ((steps.get? n).map fun c => (c.returnTypes.filter fun t => t ≠ noneType).map GraphNode.event).getD []
  | .event t =>
    if (graphEventTypes steps startEventClass).contains t then
      (steps.entries.filter fun q => t.stepAcceptsType q.2.acceptedEvents
        (q.2.acceptEventSubclasses && !t.isSubclass .stopEvent)).map fun q => GraphNode.step q.1
    else []

/-- The nodes of the graph. -/
def graphNodes (startEventClass : EventType) : List GraphNode :=
  steps.keys.map GraphNode.step ++ (graphEventTypes steps startEventClass).map GraphNode.event

/-- The incoming edges of a node. -/
def incoming (startEventClass : EventType) (node : GraphNode) : List GraphNode :=
  (graphNodes steps startEventClass).filter fun source => (outgoing steps startEventClass source).contains node

/-- The nodes reachable from the start event, human responses and the handlers. -/
def forwardReachable (startEventClass : EventType) (catchErrorSteps : List StepId) : List GraphNode :=
  let humanEvents := (graphEventTypes steps startEventClass).filter fun t => t.isSubclass .humanResponseEvent
  let seeds := ((startEventClass :: humanEvents).map GraphNode.event ++ catchErrorSteps.map GraphNode.step).dedup
  Lib.search (outgoing steps startEventClass) (graphNodes steps startEventClass).length seeds.reverse []

/-- The nodes from which an output event can be reached. -/
def reverseReachable (startEventClass : EventType) : List GraphNode :=
  let seeds := (graphEventTypes steps startEventClass).filter fun t => t.isSubclassOfAny [.stopEvent, .inputRequiredEvent]
  Lib.search (incoming steps startEventClass) (graphNodes steps startEventClass).length (seeds.map GraphNode.event).reverse []

/-- The name of a graph check. -/
def GraphCheck.text : GraphCheck → String
  | .reachability => "reachability"
  | .terminalEvent => "terminal_event"
  | .deadEnd => "dead_end"

/-- `GraphValidationError`. -/
structure GraphValidationError where
  check : GraphCheck
  message : String
  hint : String
  stepNames : List StepId := []
deriving DecidableEq

/-- The first graph check: every step is reachable from the inputs. -/
def checkReachability (startEventClass : EventType) (catchErrorSteps : List StepId) : List GraphValidationError :=
  let reachable := forwardReachable steps startEventClass catchErrorSteps
  let unreachable := ((steps.entries.filter fun q => !q.2.skipGraphChecks.contains .reachability &&
    !reachable.contains (.step q.1)).map Prod.fst).insertionSort (· ≤ ·)
  if unreachable.isEmpty then []
  else [⟨.reachability, "Unreachable steps: " ++ ", ".intercalate unreachable,
    "Steps must be reachable from StartEvent or HumanResponseEvent.", unreachable⟩]

/-- The second graph check: only output events have no consumer. -/
def checkTerminalEvents (startEventClass : EventType) : List GraphValidationError :=
  let dangling := (graphEventTypes steps startEventClass).filter fun t =>
    (outgoing steps startEventClass (.event t)).isEmpty && !t.isSubclassOfAny [.stopEvent, .inputRequiredEvent]
  if dangling.isEmpty then []
  else [⟨.terminalEvent, "Events produced but never consumed: " ++ sortedNames dangling,
    "Only StopEvent and InputRequiredEvent may be terminal.", []⟩]

/-- The third graph check: every step that produces events leads to an output event. -/
def checkDeadEnds (startEventClass : EventType) : List GraphValidationError :=
  let reachable := reverseReachable steps startEventClass
  let deadEnds := ((steps.entries.filter fun q => !(outgoing steps startEventClass (.step q.1)).isEmpty &&
    !q.2.skipGraphChecks.contains .deadEnd && !reachable.contains (.step q.1)).map Prod.fst).insertionSort (· ≤ ·)
  if deadEnds.isEmpty then []
  else [⟨.deadEnd, "Dead-end steps: " ++ ", ".intercalate deadEnds,
    "Steps must have a path to StopEvent or InputRequiredEvent.", deadEnds⟩]

/-- `validate_graph`. -/
def validateGraph (startEventClass : EventType) (skipChecks : List GraphCheck) (catchErrorSteps : List StepId) :
    List GraphValidationError :=
  (if skipChecks.contains .reachability then [] else checkReachability steps startEventClass catchErrorSteps) ++
    (if skipChecks.contains .terminalEvent then [] else checkTerminalEvents steps startEventClass) ++
    (if skipChecks.contains .deadEnd then [] else checkDeadEnds steps startEventClass)

/-- The report of graph errors. -/
def graphReport (errors : List GraphValidationError) : String :=
  "Graph validation failed:\n" ++ "\n".intercalate
    (errors.map fun e => "  - [" ++ e.check.text ++ "] " ++ e.message ++ "\n    " ++ e.hint)

/-! ## Validation -/

/-- `_WorkflowValidationResult`. -/
structure WorkflowValidationResult where
  startEventClass : EventType
  stopEventClass : EventType
  catchErrorHandlers : Dict StepId CatchErrorHandler
  handlerForStep : Dict StepId StepId
  usesHitl : Bool
deriving DecidableEq

namespace Workflow

/-- `_validate_workflow`. -/
def validate (w : Workflow) : Except Exn WorkflowValidationResult := do
  if w.steps.keys.isEmpty then
    throw (configurationError ("Workflow '" ++ w.name ++ "' has no configured steps. Did you forget to annotate methods with " ++
      "@step or to register free-function steps via @step(workflow=...)?"))
  let startEventClass ← ensureStartEventClass w.steps w.name
  let stopEventClass ← ensureStopEventClass w.steps w.name
  validateCollectionBindings w.steps
  validateMultiSlotLevels w.steps startEventClass
  let usesHitl ← validateEventConnectivity w.steps startEventClass
  let handlers ← collectCatchErrorHandlers w.steps
  let graphErrors := validateGraph w.steps startEventClass w.skipGraphChecks handlers.1.keys
  if !graphErrors.isEmpty then
    throw (validationError (graphReport graphErrors))
  return ⟨startEventClass, stopEventClass, handlers.1, handlers.2, usesHitl⟩

/-- A workflow that validation accepts. -/
def isValid (w : Workflow) : Bool := w.validate.toBool

end Workflow

/-! ## The configuration of a run -/

namespace WorkflowAux

/-- A computed binding goes from a fan-out step to a collect step, whose parameter determines the rest of it. -/
theorem mem_collectionBindingList {b : CollectionBinding} (h : b ∈ collectionBindingList steps) :
    ∃ c p, steps.get? b.targetStep = some c ∧ c.collectionParam = some p ∧ b.itemTypes = eventTypes p.elementTypes ∧
      b.policy = p.policy := by
  obtain ⟨s, -, h⟩ := List.mem_flatMap.1 h
  obtain ⟨q, hq, h⟩ := List.mem_filterMap.1 h
  obtain ⟨p, hp, h⟩ := Option.bind_eq_some_iff.1 h
  split at h
  · cases h
    exact ⟨q.2, p, (steps.get?_eq_some_iff _ _).2 hq, hp, rfl, rfl⟩
  · cases h

theorem get?_computeCollectionBindings {k : BindingId} {b : CollectionBinding}
    (h : (computeCollectionBindings steps).get? k = some b) : b.id = k ∧ b ∈ collectionBindingList steps := by
  obtain ⟨b', hb', heq⟩ := List.mem_map.1 (Dict.mem_of_get?_ofList h)
  cases heq
  exact ⟨rfl, hb'⟩

theorem get?_catchErrorHandlers {k : StepId} {h : CatchErrorHandler} (hk : (catchErrorHandlers steps).get? k = some h) :
    ∃ c, steps.get? h.stepName = some c ∧ c.role = .catchError := by
  obtain ⟨h', hh', heq⟩ := List.mem_map.1 (Dict.mem_of_get?_ofList hk)
  cases heq
  obtain ⟨q, hq, rfl⟩ := List.mem_map.1 hh'
  obtain ⟨hq, hrole⟩ := List.mem_filter.1 hq
  exact ⟨q.2, (steps.get?_eq_some_iff _ _).2 hq, by simpa using hrole⟩

end WorkflowAux

open WorkflowAux

/-- `BrokerConfig.from_workflow`, for a validated workflow. -/
def Workflow.config (w : Workflow) : BrokerConfig where
  steps := w.steps
  timeout := w.timeout
  catchErrorHandlers := LlamaAgents.catchErrorHandlers w.steps
  handlerForStep := LlamaAgents.handlerForStep w.steps
  collectionBindings := computeCollectionBindings w.steps
  binding_key _ _ h := (get?_computeCollectionBindings w.steps h).1
  binding_target _ b h := by
    obtain ⟨c, p, hc, hp, -⟩ := mem_collectionBindingList w.steps (get?_computeCollectionBindings w.steps h).2
    exact ⟨c, hc, hp ▸ rfl⟩
  binding_unique _ b _ b' h h' hs ht := by
    obtain ⟨c, p, hc, hp, hi, hpol⟩ := mem_collectionBindingList w.steps (get?_computeCollectionBindings w.steps h).2
    obtain ⟨c', p', hc', hp', hi', hpol'⟩ := mem_collectionBindingList w.steps (get?_computeCollectionBindings w.steps h').2
    rw [ht, hc', Option.some.injEq] at hc
    rw [← hc, hp', Option.some.injEq] at hp
    subst hp
    cases b
    cases b'
    simp_all
  handler_step _ d h := by
    obtain ⟨c, hc, hrole⟩ := get?_catchErrorHandlers w.steps h
    exact ⟨c, hc, c.handler_accepts hrole⟩

/-! ## A workflow that fans out -/

namespace FanOutJoin

/-- What the fan-out emits. -/
def member : EventType := ⟨"Member", "app.Member", ["workflows.events.Event"]⟩

/-- What the work on a member gives. -/
def done : EventType := ⟨"Done", "app.Done", ["workflows.events.Event"]⟩

/-- A workflow with a fan-out, a step that works on each member, and a collect step. -/
def workflow (policy : Cardinality) : Workflow where
  name := "FanOut"
  steps := ⟨[("fan_out", { acceptedEvents := [.startEvent], returnTypes := [member], isFanOut := true }),
    ("work", { acceptedEvents := [member], returnTypes := [done] }),
    ("join", { acceptedEvents := [done], returnTypes := [.stopEvent],
               collectionParam := some ⟨"items", [done], policy⟩
               accepts_elements := by simp
               accepts_slots := by simp })], by simp⟩

end FanOutJoin

/-- The default of `num_workers`. -/
def defaultNumWorkers : ℕ+ := 4

/-- A step with a number of workers and a retry policy, and otherwise the defaults of `@step`. -/
def plainStep (acceptedEvents returnTypes : List EventType) (numWorkers : ℕ+) (retryPolicy : Option RetryPolicy) : StepConfig :=
  { acceptedEvents, returnTypes, numWorkers, retryPolicy
    accepts_elements := by simp
    accepts_slots := by simp
    handler_accepts := by simp }

end LlamaAgents
