import LlamaAgents.Lib.Dict
import LlamaAgents.Events

/-!
# Steps, collection bindings and the broker's configuration

The static data of a run: `StepConfig` of `workflows/decorators.py`, the cardinalities of `workflows/collect.py`, the ids the
runtime mints, and `CollectionBinding` and `BrokerConfig` of `runtime/types/internal_state.py`. The configuration never
changes during a run, so the reducer takes it as a parameter.
-/

namespace LlamaAgents

open Lib (Dict)

/-! ## Step configurations -/

/-- `Cardinality`: release on close with everything, or on the `n`-th arrival; `Take` refuses `n < 1`. -/
inductive Cardinality where
  | all
  | take (n : ℕ+)
deriving DecidableEq

/-- The text of a cardinality in a binding id. -/
def Cardinality.text : Cardinality → String
  | .all => "All"
  | .take n => "Take(" ++ toString (n : Nat) ++ ")"

/-- `_take_threshold`. -/
def Cardinality.takeThreshold : Cardinality → Option Nat
  | .all => none
  | .take n => some n

/-- The members that a cardinality selects from those that arrived. -/
def Cardinality.batch (p : Cardinality) (members : List Event) : List Event :=
  match p.takeThreshold with
  | none => members
  | some n => members.take n

/-- A `list[E]` parameter: `collection_param` with its `collection_policy`, which the decorator always sets together. -/
structure CollectionParam where
  name : String
  elementTypes : List EventType
  policy : Cardinality
deriving DecidableEq

/-- `StepRole`. -/
inductive StepRole where
  | step
  | catchError
deriving DecidableEq, Repr

/-- `WorkflowGraphCheck`. -/
inductive GraphCheck where
  | reachability
  | terminalEvent
  | deadEnd
deriving DecidableEq, Repr

/-- A retry policy's `next(elapsed_time, failures, exception, seed)`. The jitter seed is a digest of the run id, the step's
name and the number of failures; the policy gets what is digested. -/
structure RetryPolicy where
  next : Time → Nat → Exn → Option (String × StepId × Nat) → Option Time

/-- `StepConfig`, with what the decorators guarantee of it. -/
structure StepConfig where
  acceptedEvents : List EventType
  returnTypes : List EventType
  numWorkers : ℕ+ := 4
  retryPolicy : Option RetryPolicy := none
  skipGraphChecks : List GraphCheck := []
  collectParams : Option (List (String × EventType)) := none
  isFanOut : Bool := false
  bareReturnTypes : List EventType := []
  collectionParam : Option CollectionParam := none
  role : StepRole := .step
  catchErrorForSteps : Option (List StepId) := none
  catchErrorMaxRecoveries : ℕ+ := 1
  acceptEventSubclasses : Bool := false
  /-- A collect step accepts exactly the element types of its parameter. -/
  accepts_elements : ∀ p ∈ collectionParam, acceptedEvents = p.elementTypes := by decide
  /-- A multi-slot step accepts the types of its slots, and is not a collect step. -/
  accepts_slots : ∀ ps ∈ collectParams, acceptedEvents = ps.map Prod.snd ∧ collectionParam = none := by decide
  /-- A handler accepts exactly `StepFailedEvent`. -/
  handler_accepts : role = .catchError → acceptedEvents = [.stepFailedEvent] := by decide

/-- Whether a step accepts an event type. -/
def StepConfig.acceptsType (c : StepConfig) (t : EventType) : Bool := t.stepAcceptsType c.acceptedEvents c.acceptEventSubclasses

/-- Whether a step accepts an event. -/
def StepConfig.acceptsEvent (c : StepConfig) (e : Event) : Bool := e.stepAcceptsEvent c.acceptedEvents c.acceptEventSubclasses

theorem StepConfig.acceptsEvent_eq (c : StepConfig) (e : Event) : c.acceptsEvent e = c.acceptsType e.type :=
  e.stepAcceptsEvent_eq _ _

/-- `CatchErrorHandler`. -/
structure CatchErrorHandler where
  stepName : StepId
  forSteps : Option (List StepId)
  maxRecoveries : ℕ+
deriving DecidableEq

/-! ## Ids -/

/-- A stream id. The source's id is a digest of the scope path, the producing step and the run's stream counter; the model's
id is what is digested. -/
inductive StreamId where
  | mk (path : List StreamId) (step : StepId) (seq : Nat)

namespace StreamId

/-- The scope path in which the stream was opened. -/
def path : StreamId → List StreamId
  | mk p _ _ => p

/-- The step that opened the stream. -/
def step : StreamId → StepId
  | mk _ n _ => n

/-- The counter's value when the stream was opened. -/
def seq : StreamId → Nat
  | mk _ _ k => k

mutual

/-- Equality of stream ids is decidable. -/
def decEq : (a b : StreamId) → Decidable (a = b)
  | mk p n k, mk p' n' k' =>
    match (inferInstance : Decidable (k = k')), (inferInstance : Decidable (n = n')), decEqPath p p' with
    | isTrue h₁, isTrue h₂, isTrue h₃ => isTrue (h₁ ▸ h₂ ▸ h₃ ▸ rfl)
    | isFalse h, _, _ => isFalse fun e => h (StreamId.mk.inj e).2.2
    | _, isFalse h, _ => isFalse fun e => h (StreamId.mk.inj e).2.1
    | _, _, isFalse h => isFalse fun e => h (StreamId.mk.inj e).1

/-- Equality of scope paths is decidable. -/
def decEqPath : (a b : List StreamId) → Decidable (a = b)
  | [], [] => isTrue rfl
  | [], _ :: _ | _ :: _, [] => isFalse nofun
  | a :: as, b :: bs =>
    match decEq a b, decEqPath as bs with
    | isTrue h₁, isTrue h₂ => isTrue (h₁ ▸ h₂ ▸ rfl)
    | isFalse h, _ => isFalse fun e => h (List.cons.inj e).1
    | _, isFalse h => isFalse fun e => h (List.cons.inj e).2

end

instance : DecidableEq StreamId := decEq

mutual

/-- The text of a stream id. -/
def text : StreamId → String
  | mk p n k => "stream-" ++ pathText p ++ ":" ++ n ++ ":" ++ toString k

/-- The text of a scope path. -/
def pathText : List StreamId → String
  | [] => ""
  | [s] => text s
  | s :: p => text s ++ ">" ++ pathText p

end

/-- A stream is not one of those it was opened in. -/
theorem notMem_path (s : StreamId) : s ∉ s.path := by
  intro h
  have hlt : sizeOf s < sizeOf s.path := List.sizeOf_lt_of_mem h
  cases s with
  | mk p n k => simp only [path, mk.sizeOf_spec] at hlt; omega

end StreamId

/-- A collection stream scope path, innermost stream last. -/
abbrev ScopePath := List StreamId

/-- `_binding_id`. -/
structure BindingId where
  sourceStep : StepId
  targetStep : StepId
  typeNames : List String
  cardinality : Cardinality
deriving DecidableEq

/-- The text of a binding id. -/
def BindingId.text (b : BindingId) : String :=
  b.sourceStep ++ "->" ++ b.targetStep ++ ":" ++ ",".intercalate b.typeNames ++ ":" ++ b.cardinality.text ++ ":nearest"

/-- The id of a work item: minted from the counter, or a collect invocation's own. -/
inductive WorkItemId where
  | item (seq : Nat)
  | collect (stream : StreamId) (binding : BindingId)
deriving DecidableEq

/-- The text of a work item id. -/
def WorkItemId.text : WorkItemId → String
  | .item k => "work_item_" ++ toString k
  | .collect s b => "work_item_collect_" ++ s.text ++ ":" ++ b.text

/-! ## Bindings and the broker's configuration -/

/-- `CollectionBinding`. -/
structure CollectionBinding where
  sourceStep : StepId
  targetStep : StepId
  itemTypes : List EventType
  policy : Cardinality
deriving DecidableEq

/-- The binding's id, which determines its producer and its collect step. -/
def CollectionBinding.id (b : CollectionBinding) : BindingId :=
  ⟨b.sourceStep, b.targetStep, b.itemTypes.map EventType.qualname, b.policy⟩

/-- `BrokerConfig`, with what building it from a workflow guarantees. -/
structure BrokerConfig where
  steps : Dict StepId StepConfig
  timeout : Option Time := none
  catchErrorHandlers : Dict StepId CatchErrorHandler := ∅
  handlerForStep : Dict StepId StepId := ∅
  collectionBindings : Dict BindingId CollectionBinding := ∅
  /-- A binding is stored under its id. -/
  binding_key : ∀ k b, collectionBindings.get? k = some b → b.id = k
  /-- A binding ends in a collect step. -/
  binding_target : ∀ k b, collectionBindings.get? k = some b →
    ∃ c, steps.get? b.targetStep = some c ∧ c.collectionParam.isSome
  /-- A producer has at most one binding to a collect step. -/
  binding_unique : ∀ k b k' b', collectionBindings.get? k = some b → collectionBindings.get? k' = some b' →
    b.sourceStep = b'.sourceStep → b.targetStep = b'.targetStep → b = b'
  /-- A handler is a step that accepts `StepFailedEvent`. -/
  handler_step : ∀ h d, catchErrorHandlers.get? h = some d →
    ∃ c, steps.get? d.stepName = some c ∧ c.acceptedEvents = [.stepFailedEvent]

namespace BrokerConfig

/-- `bindings_for_source`. -/
def bindingsForSource (cfg : BrokerConfig) (sourceStep : StepId) : List CollectionBinding :=
  cfg.collectionBindings.values.filter fun b => b.sourceStep = sourceStep

theorem mem_bindingsForSource (cfg : BrokerConfig) (n : StepId) (b : CollectionBinding) :
    b ∈ cfg.bindingsForSource n ↔ cfg.collectionBindings.get? b.id = some b ∧ b.sourceStep = n := by
  simp only [bindingsForSource, List.mem_filter, decide_eq_true_eq, and_congr_left_iff]
  intro _
  constructor
  · intro h
    obtain ⟨⟨k, b'⟩, he, rfl⟩ := List.mem_map.1 h
    have hk := (cfg.collectionBindings.get?_eq_some_iff k b').2 he
    rw [cfg.binding_key k b' hk]
    exact hk
  · intro h
    exact List.mem_map.2 ⟨_, (cfg.collectionBindings.get?_eq_some_iff _ _).1 h, rfl⟩

end BrokerConfig

end LlamaAgents
