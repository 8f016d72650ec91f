import Mathlib.Data.List.Basic
import Mathlib.Data.PNat.Basic

/-!
# Events and event types

The classes of `workflows/events.py` that the runtime looks at, the attribute values of events, and the matching rule of
`workflows/_event_matching.py`. A class is its name, its qualified name and the qualified names of its proper base
classes, so that `issubclass` is a lookup; an annotation that is not a class is a type without bases.
-/

namespace LlamaAgents

/-- A point in time or a duration, in units of the clock's resolution. -/
abbrev Time := Int

/-- A step's name. Every `StepId` the runtime builds is `StepId.root(name)`, whose text is the name. -/
abbrev StepId := String

/-- A class, or another annotation of a step signature. -/
structure EventType where
  name : String
  qualname : String
  bases : List String
deriving DecidableEq, Repr

namespace EventType

/-- `is_subclass(candidate, parent)`. -/
def isSubclass (candidate parent : EventType) : Bool := decide (candidate = parent) || candidate.bases.contains parent.qualname

/-- `Event`, the root of the event classes. -/
def event : EventType := ⟨"Event", "workflows.events.Event", []⟩

/-- An event class that derives from `Event` directly. -/
def ofName (n : String) : EventType := ⟨n, "workflows.events." ++ n, ["workflows.events.Event"]⟩

/-- A class of `events.py` with one base class below `Event`. -/
def derived (n base : String) : EventType :=
  ⟨n, "workflows.events." ++ n, ["workflows.events." ++ base, "workflows.events.Event"]⟩

def startEvent : EventType := ofName "StartEvent"
def stopEvent : EventType := ofName "StopEvent"
def workflowTimedOutEvent : EventType := derived "WorkflowTimedOutEvent" "StopEvent"
def workflowCancelledEvent : EventType := derived "WorkflowCancelledEvent" "StopEvent"
def idleReleasedEvent : EventType := derived "IdleReleasedEvent" "StopEvent"
def workflowFailedEvent : EventType := derived "WorkflowFailedEvent" "StopEvent"
def collectionReleaseEvent : EventType := ofName "CollectionReleaseEvent"
def stepFailedEvent : EventType := ofName "StepFailedEvent"
def inputRequiredEvent : EventType := ofName "InputRequiredEvent"
def humanResponseEvent : EventType := ofName "HumanResponseEvent"
def workflowIdleEvent : EventType := derived "WorkflowIdleEvent" "InternalDispatchEvent"
def unhandledEvent : EventType := derived "UnhandledEvent" "InternalDispatchEvent"
def stepStateChanged : EventType := derived "StepStateChanged" "InternalDispatchEvent"

/-- `type_matches`: whether a produced type routes to a step that accepts `accepted`. -/
def typeMatches (produced accepted : EventType) (allowSubclasses : Bool) : Bool :=
  if allowSubclasses then isSubclass produced accepted else decide (produced = accepted)

/-- `step_accepts_type`: whether a produced type is accepted by any of the accepted ones. -/
def stepAcceptsType (produced : EventType) (acceptedEvents : List EventType) (allowSubclasses : Bool) : Bool :=
  acceptedEvents.any fun accepted => typeMatches produced accepted allowSubclasses

end EventType

/-- `event_types`: the event classes among a list of annotations. -/
def eventTypes (types : List EventType) : List EventType := types.filter fun t => t.isSubclass .event

/-- The classes of the exceptions the runtime raises itself, and any other one. -/
inductive ExnClass where
  | workflowConfigurationError
  | workflowValidationError
  | workflowRuntimeError
  | workflowTimeoutError
  | workflowCancelledByUser
  | valueError
  | keyError
  | timeoutError
  | other (name : String)
deriving DecidableEq, Repr

/-- An exception: its class and its message. -/
structure Exn where
  cls : ExnClass
  message : String
deriving DecidableEq, Repr

/-- The value of an event's attribute. An event as a value is its class with its attributes' names and values. -/
inductive Value where
  | none
  | bool (b : Bool)
  | int (i : Int)
  | str (s : String)
  | exn (e : Exn)
  | list (vs : List Value)
  | event (type : EventType) (names : List String) (vs : List Value)

mutual

/-- Equality of values is decidable. -/
def Value.decEq : (a b : Value) → Decidable (a = b)
  | .none, .none => isTrue rfl
  | .bool a, .bool b => decidable_of_iff (a = b) ⟨fun h => h ▸ rfl, fun h => Value.bool.inj h⟩
  | .int a, .int b => decidable_of_iff (a = b) ⟨fun h => h ▸ rfl, fun h => Value.int.inj h⟩
  | .str a, .str b => decidable_of_iff (a = b) ⟨fun h => h ▸ rfl, fun h => Value.str.inj h⟩
  | .exn a, .exn b => decidable_of_iff (a = b) ⟨fun h => h ▸ rfl, fun h => Value.exn.inj h⟩
  | .list a, .list b =>
    match Value.decEqList a b with
    | isTrue h => isTrue (h ▸ rfl)
    | isFalse h => isFalse fun e => h (Value.list.inj e)
  | .event t n a, .event t' n' b =>
    match (inferInstance : Decidable (t = t')), (inferInstance : Decidable (n = n')), Value.decEqList a b with
    | isTrue h₁, isTrue h₂, isTrue h₃ => isTrue (h₁ ▸ h₂ ▸ h₃ ▸ rfl)
    | isFalse h, _, _ => isFalse fun e => h (Value.event.inj e).1
    | _, isFalse h, _ => isFalse fun e => h (Value.event.inj e).2.1
    | _, _, isFalse h => isFalse fun e => h (Value.event.inj e).2.2
  | .none, .bool _ | .none, .int _ | .none, .str _ | .none, .exn _ | .none, .list _ | .none, .event _ _ _
  | .bool _, .none | .bool _, .int _ | .bool _, .str _ | .bool _, .exn _ | .bool _, .list _ | .bool _, .event _ _ _
  | .int _, .none | .int _, .bool _ | .int _, .str _ | .int _, .exn _ | .int _, .list _ | .int _, .event _ _ _
  | .str _, .none | .str _, .bool _ | .str _, .int _ | .str _, .exn _ | .str _, .list _ | .str _, .event _ _ _
  | .exn _, .none | .exn _, .bool _ | .exn _, .int _ | .exn _, .str _ | .exn _, .list _ | .exn _, .event _ _ _
  | .list _, .none | .list _, .bool _ | .list _, .int _ | .list _, .str _ | .list _, .exn _ | .list _, .event _ _ _
  | .event _ _ _, .none | .event _ _ _, .bool _ | .event _ _ _, .int _ | .event _ _ _, .str _ | .event _ _ _, .exn _
  | .event _ _ _, .list _ => isFalse nofun

/-- Equality of lists of values is decidable. -/
def Value.decEqList : (a b : List Value) → Decidable (a = b)
  | [], [] => isTrue rfl
  | [], _ :: _ | _ :: _, [] => isFalse nofun
  | a :: as, b :: bs =>
    match Value.decEq a b, Value.decEqList as bs with
    | isTrue h₁, isTrue h₂ => isTrue (h₁ ▸ h₂ ▸ rfl)
    | isFalse h, _ => isFalse fun e => h (List.cons.inj e).1
    | _, isFalse h => isFalse fun e => h (List.cons.inj e).2

end

instance : DecidableEq Value := Value.decEq

/-- An event: its class and its attributes, the declared and the dynamic ones. -/
structure Event where
  type : EventType
  attrs : List (String × Value) := []
deriving DecidableEq

namespace Event

/-- `getattr(event, k, None)`. -/
def getAttr (e : Event) (k : String) : Value := ((e.attrs.find? fun a => a.1 = k).map (·.2)).getD .none

/-- The event as an attribute of another event. -/
def toValue (e : Event) : Value := .event e.type (e.attrs.map (·.1)) (e.attrs.map (·.2))

/-- `isinstance(event, cls)`. -/
def isInstance (e : Event) (cls : EventType) : Bool := e.type.isSubclass cls

/-- `isinstance(event, StopEvent)`. -/
def isStop (e : Event) : Bool := e.isInstance .stopEvent

/-- `event_matches`: whether an event routes to a step that accepts `accepted`. -/
def eventMatches (e : Event) (accepted : EventType) (allowSubclasses : Bool) : Bool :=
  if allowSubclasses then e.isInstance accepted else decide (e.type = accepted)

/-- `step_accepts_event`: whether an event is accepted by any of the accepted types. -/
def stepAcceptsEvent (e : Event) (acceptedEvents : List EventType) (allowSubclasses : Bool) : Bool :=
  acceptedEvents.any fun accepted => eventMatches e accepted allowSubclasses

/-- The two halves of the matching rule agree: an event is accepted exactly when its type is. The birth count of a stream
is taken on types, the delivery on events. -/
theorem stepAcceptsEvent_eq (e : Event) (acceptedEvents : List EventType) (sub : Bool) :
    e.stepAcceptsEvent acceptedEvents sub = e.type.stepAcceptsType acceptedEvents sub := rfl

end Event

/-! ## The events the runtime builds -/

/-- `StepState`. -/
inductive StepState where
  | preparing
  | running
  | notRunning
deriving DecidableEq, Repr

/-- The value of a `StepState` member. -/
def StepState.value : StepState → String
  | .preparing => "preparing"
  | .running => "running"
  | .notRunning => "not_running"

/-- An optional attribute. -/
def Value.ofOption {α : Type} (f : α → Value) : Option α → Value
  | some a => f a
  | Option.none => .none

/-- `StepStateChanged(...)`. -/
def Event.stepStateChanged (state : StepState) (name inputEventName workerId : String)
    (outputEventName : Option String) : Event :=
  ⟨.stepStateChanged, [("step_state", .str state.value), ("name", .str name), ("input_event_name", .str inputEventName),
    ("output_event_name", .ofOption .str outputEventName), ("worker_id", .str workerId)]⟩

/-- `WorkflowFailedEvent(step_name, exception, attempts, elapsed_seconds)`. -/
def Event.workflowFailed (stepName : String) (exception : Exn) (attempts : Option Nat := none)
    (elapsedSeconds : Option Time := none) : Event :=
  ⟨.workflowFailedEvent, [("step_name", .str stepName), ("exception", .exn exception),
    ("attempts", .ofOption (fun n => .int n) attempts), ("elapsed_seconds", .ofOption .int elapsedSeconds)]⟩

/-- `StepFailedEvent(...)`, the input of a catch_error handler. -/
def Event.stepFailed (stepName : String) (inputEvent : Event) (exception : Exn) (attempts : Nat)
    (elapsedSeconds failedAt : Time) : Event :=
  ⟨.stepFailedEvent, [("step_name", .str stepName), ("input_event", inputEvent.toValue), ("exception", .exn exception),
    ("attempts", .int attempts), ("elapsed_seconds", .int elapsedSeconds), ("failed_at", .int failedAt)]⟩

/-- `WorkflowTimedOutEvent(timeout, active_steps)`. -/
def Event.workflowTimedOut (timeout : Time) (activeSteps : List String) : Event :=
  ⟨.workflowTimedOutEvent, [("timeout", .int timeout), ("active_steps", .list (activeSteps.map .str))]⟩

/-- `WorkflowCancelledEvent()`. -/
def Event.workflowCancelled : Event := ⟨.workflowCancelledEvent, []⟩

/-- `IdleReleasedEvent()`. -/
def Event.idleReleased : Event := ⟨.idleReleasedEvent, []⟩

/-- `WorkflowIdleEvent()`. -/
def Event.workflowIdle : Event := ⟨.workflowIdleEvent, []⟩

/-- `UnhandledEvent(event_type, qualified_name, step_name, idle)`. -/
def Event.unhandled (eventType qualifiedName : String) (stepName : Option String) (idle : Bool) : Event :=
  ⟨.unhandledEvent, [("event_type", .str eventType), ("qualified_name", .str qualifiedName),
    ("step_name", .ofOption .str stepName), ("idle", .bool idle)]⟩

/-- `str(type(event))`. -/
def Event.typeText (e : Event) : String := "<class '" ++ e.type.qualname ++ "'>"

end LlamaAgents
