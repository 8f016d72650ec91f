import LlamaAgents.Lib.Returns
import LlamaAgents.Config

/-!
# Static stream levels

`workflows/_stream_levels.py`: the event types that can occur inside the stream of each fan-out step, as the static traversal
computes them, and the collection bindings that `_compute_collection_bindings` reads off them. The sets of the source are lists
here; only membership in them is ever asked.
-/

namespace LlamaAgents

open Lib (Dict)

variable (steps : Dict StepId StepConfig)

/-- The event types that some step returns. -/
def returnedTypes : List EventType := steps.values.flatMap fun c => eventTypes c.returnTypes

/-- Whether a collect step takes some of the types of a level. -/
def StepConfig.collectsFrom (c : StepConfig) (level : List EventType) : Bool :=
  c.collectionParam.any fun p => level.any fun t => t.stepAcceptsType p.elementTypes c.acceptEventSubclasses

/-- What one step adds to a level that contains a type, given what fan-out steps surface: a collect step and a guarded fan-out
step add nothing. -/
def levelSuccessors (collapsed : StepId → List EventType) (guard : List StepId) (t : EventType) (n : StepId) (c : StepConfig) :
    List EventType :=
  if !c.acceptsType t || c.collectionParam.isSome then []
  else if c.isFanOut then (if guard.contains n then [] else collapsed n)
  else eventTypes c.returnTypes

mutual

/-- `collapsed_outputs`: the types that a fan-out execution surfaces at the level that triggered it. The depth of the recursion
is bounded by `depth`. -/
def collapsedOutputs : Nat → StepId → List StepId → List EventType
  | 0, _, _ => []
  | depth + 1, producer, guard =>
    let child := walk depth (((steps.get? producer).map StepConfig.returnTypes).getD []) (producer :: guard)
    steps.entries.flatMap fun p =>
      if !p.2.collectsFrom child then []
      else if p.2.isFanOut then (if guard.contains p.1 then [] else collapsedOutputs depth p.1 (p.1 :: guard))
      else eventTypes p.2.returnTypes

/-- `walk`: the types reachable from some seeds without changing the stream level. -/
def walk : Nat → List EventType → List StepId → List EventType
  | 0, _, _ => []
  | depth + 1, seeds, guard =>
    Lib.search (fun t => steps.entries.flatMap fun p =>
        levelSuccessors (fun n => collapsedOutputs depth n guard) guard t p.1 p.2)
      ((eventTypes seeds).length + (returnedTypes steps).length) (eventTypes seeds).reverse []

end

/-- A depth that no recursion of the traversal exceeds: every third call puts a new step under guard. -/
def levelDepth : Nat := 3 * steps.entries.length + 3

/-- `same_level_types`. -/
def sameLevelTypes (seeds : List EventType) (guard : List StepId) : List EventType := walk steps (levelDepth steps) seeds guard

/-- `stream_level_types_by_producer`. -/
def streamLevelTypesByProducer : List (StepId × List EventType) :=
  (steps.entries.filter fun p => p.2.isFanOut).map fun p => (p.1, sameLevelTypes steps p.2.returnTypes [p.1])

/-- The binding of a producer with a level to a collect step, if it takes some of the level's types. -/
def collectionBinding? (source : StepId) (level : List EventType) (target : StepId) (c : StepConfig) :
    Option CollectionBinding :=
  c.collectionParam.bind fun p =>
    if level.any fun t => t.stepAcceptsType (eventTypes p.elementTypes) c.acceptEventSubclasses then
      some ⟨source, target, eventTypes p.elementTypes, p.policy⟩
    else none

/-- The bindings of the workflow graph, in the order in which they are found. -/
def collectionBindingList : List CollectionBinding :=
  (streamLevelTypesByProducer steps).flatMap fun s => steps.entries.filterMap fun p => collectionBinding? s.1 s.2 p.1 p.2

/-- `_compute_collection_bindings`. -/
def computeCollectionBindings : Dict BindingId CollectionBinding :=
  Dict.ofList ((collectionBindingList steps).map fun b => (b.id, b))

/-! ## The traversal as it runs

`walk` and `collapsed_outputs` call each other, and nothing in the source bounds how deep or how often. Here each call and each round
of the loop takes one from a bound, and where nothing is left there is no result. -/

/-- The return types of a step. -/
def stepReturns (n : StepId) : List EventType := ((steps.get? n).map StepConfig.returnTypes).getD []

/-- What one step pushes on the frontier for a type, if the call that it takes returns. -/
def pushedByStep (collapsed : StepId → Option (List EventType)) (guard : List StepId) (t : EventType) (n : StepId) (c : StepConfig) :
    Option (List EventType) :=
  if !c.acceptsType t || c.collectionParam.isSome then some []
  else if c.isFanOut then (if guard.contains n then some [] else collapsed n)
  else some (eventTypes c.returnTypes)

/-- What one step surfaces of a child level, if the call that it takes returns. -/
def surfacedByStep (collapsed : StepId → Option (List EventType)) (guard : List StepId) (child : List EventType) (n : StepId)
    (c : StepConfig) : Option (List EventType) :=
  if !c.collectsFrom child then some []
  else if c.isFanOut then (if guard.contains n then some [] else collapsed n)
  else some (eventTypes c.returnTypes)

mutual

/-- `collapsed_outputs`. -/
def runCollapsed : Nat → StepId → List StepId → Option (List EventType)
  | 0, _, _ => none
  | fuel + 1, producer, guard =>
    (runWalk fuel (eventTypes (stepReturns steps producer)).reverse [] (producer :: guard)).bind fun child =>
      (steps.entries.mapM fun p => surfacedByStep (fun n => runCollapsed fuel n (n :: guard)) guard child p.1 p.2).bind fun out =>
        some out.flatten

/-- The loop of `walk`, with the frontier as a stack. -/
def runWalk : Nat → List EventType → List EventType → List StepId → Option (List EventType)
  | 0, _, _, _ => none
  | _ + 1, [], seen, _ => some seen
  | fuel + 1, t :: frontier, seen, guard =>
    if t ∈ seen then runWalk fuel frontier seen guard
    else
      (steps.entries.mapM fun p => pushedByStep (fun n => runCollapsed fuel n guard) guard t p.1 p.2).bind fun added =>
        runWalk fuel (added.flatten.reverse ++ frontier) (seen ++ [t]) guard

end

/-! ## Recursion paths -/

/-- A round of a loop: its frontier, what has been seen, and the guard of its walk. -/
structure Visit where
  frontier : List EventType
  seen : List EventType
  guard : List StepId

/-- The first round of a walk. -/
def Visit.first (seeds : List EventType) (guard : List StepId) : Visit := ⟨(eventTypes seeds).reverse, [], guard⟩

/-- The walks that `collapsed_outputs` starts: that of the producer's own stream, and those of the collect steps that fan out. -/
inductive Starts : StepId → List StepId → Visit → Prop
  | child {producer : StepId} {guard : List StepId} :
      Starts producer guard (.first (stepReturns steps producer) (producer :: guard))
  | nested {producer n : StepId} {guard : List StepId} {c : StepConfig} {v : Visit} (hmem : (n, c) ∈ steps.entries)
      (hcollects : c.collectsFrom (sameLevelTypes steps (stepReturns steps producer) (producer :: guard)) = true)
      (hfan : c.isFanOut = true) (hguard : n ∉ guard) (hstarts : Starts n (n :: guard) v) : Starts producer guard v

/-- The types that a round pushes for a new type. -/
def pushedTypes (guard : List StepId) (t : EventType) : List EventType :=
  steps.entries.flatMap fun p =>
    levelSuccessors (fun n => collapsedOutputs steps (levelDepth steps) n guard) guard t p.1 p.2

/-- One step of a recursion path, from a round with a new type: to the next round of the same loop, or to a walk that is started below
it. -/
inductive Descends : Visit → Visit → Prop
  | round {frontier rest seen : List EventType} {guard : List StepId} {t : EventType}
      (hpop : frontier.dropWhile (· ∈ seen) = t :: rest) :
      Descends ⟨frontier, seen, guard⟩ ⟨(pushedTypes steps guard t).reverse ++ rest, seen ++ [t], guard⟩
  | call {frontier rest seen : List EventType} {guard : List StepId} {t : EventType} {n : StepId} {c : StepConfig} {v : Visit}
      (hpop : frontier.dropWhile (· ∈ seen) = t :: rest) (hmem : (n, c) ∈ steps.entries) (haccepts : c.acceptsType t = true)
      (hcollect : c.collectionParam = none) (hfan : c.isFanOut = true) (hguard : n ∉ guard) (hstarts : Starts steps n guard v) :
      Descends ⟨frontier, seen, guard⟩ v

end LlamaAgents
