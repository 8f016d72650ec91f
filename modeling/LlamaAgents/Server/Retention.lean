import LlamaAgents.Server.AgentWrites
import LlamaAgents.Server.EventStream
import LlamaAgents.Server.Stores
import Mathlib.Data.List.DropRight

/-!
# What the memory store retains

`MemoryWorkflowStore` with the events, ticks and state stores of its runs. It keeps a number of finished handlers: a queue of handler
ids grows with every terminal update, and what falls off its front is evicted, together with the data of the run. Beside it stands
what is to be retained: the finished handlers in the order in which they were finished, of which the oldest go when there are too
many, and the handlers that are not finished.
-/

namespace LlamaAgents

open Lib (Dict)

/-- The store, with the events, the ticks and the keys of the state stores of its runs. -/
structure MemoryRuns (τ : Type) where
  store : MemoryWorkflowStore := {}
  events : Dict String EventLog := ∅
  ticks : Dict String (List (Numbered τ)) := ∅
  stateStores : List (String × List String) := []

/-- The calls that change the store. -/
inductive MemoryOp (τ : Type) where
  | update (handler : PersistentHandler)
  | delete (query : HandlerQuery)
  | appendEvent (runId : String) (event : Event)
  | appendTick (runId : String) (tickData : τ)
  | createStateStore (runId : String) (namespaces : List String)

namespace MemoryRuns

variable {τ : Type} (s : MemoryRuns τ)

/-- The handlers. -/
def handlers : HandlerTable := s.store.handlers

/-- The store without the data of a run. -/
def dropRun (runId : String) : MemoryRuns τ :=
  { s with
    events := s.events.erase runId
    ticks := s.ticks.erase runId
    stateStores := s.stateStores.filter fun key => key.1 ≠ runId }

/-- The store when an id was taken from the front of the queue. A handler that is gone, or not terminal any more, is skipped. -/
def evictOne (id : String) (queue : List String) : MemoryRuns τ :=
  let popped : MemoryRuns τ := { s with store := { s.store with terminalQueue := queue } }
  match s.handlers.get? id with
  | none => popped
  | some h =>
    if !h.status.isTerminal then popped
    else
      let removed : MemoryRuns τ :=
        { s with store := { s.store with terminalQueue := queue, handlers := s.handlers.remove fun h => h.handlerId = id } }
      match h.runId with
      | none => removed
      | some runId => removed.dropRun runId

/-- Evict so many entries of the queue. -/
def evict : Nat → MemoryRuns τ → MemoryRuns τ
  | 0, s => s
  | k + 1, s => match s.store.terminalQueue with
    | [] => s
    | id :: queue => evict k (s.evictOne id queue)

/-- `_evict_oldest_completed`. -/
def evictOldestCompleted : MemoryRuns τ :=
  match s.store.maxCompleted with
  | none => s
  | some cap => evict (s.store.terminalQueue.length - cap) s

/-- `update`. -/
def update (h : PersistentHandler) : MemoryRuns τ :=
  if h.status.isTerminal then
    evictOldestCompleted
      { s with store := { s.store with handlers := s.handlers.update h, terminalQueue := s.store.terminalQueue ++ [h.handlerId] } }
  else { s with store := { s.store with handlers := s.handlers.update h } }

/-- `append_tick`, to the ticks of a run. -/
def tickAppended (ticks : List (Numbered τ)) (tickData : τ) : List (Numbered τ) :=
  ticks ++ [⟨(ticks.getLast?.map fun t => t.sequence + 1).getD 0, tickData⟩]

/-- The store after a call. -/
def call (s : MemoryRuns τ) : MemoryOp τ → MemoryRuns τ
  | .update h => s.update h
  | .delete q => { s with store := { s.store with handlers := s.handlers.delete q } }
  | .appendEvent runId event => { s with events := s.events.set runId (((s.events.get? runId).getD .empty).append event) }
  | .appendTick runId tickData => { s with ticks := s.ticks.set runId (tickAppended ((s.ticks.get? runId).getD []) tickData) }
  | .createStateStore runId namespaces =>
    if s.stateStores.contains (runId, namespaces) then s
    else { s with stateStores := s.stateStores ++ [(runId, namespaces)] }

/-- Whether there are events, ticks or state stores of a run. -/
def holdsRun (runId : String) : Bool :=
  s.events.contains runId || s.ticks.contains runId || s.stateStores.any fun key => key.1 = runId

/-- Whether a handler of a run is held. -/
def hasHandlerOf (runId : String) : Bool := s.handlers.rows.values.any fun h => h.runId = some runId

end MemoryRuns

/-- The store, the finished handlers that are to be retained, in the order in which they were finished, and the others. -/
structure RetentionRun (τ : Type) where
  memory : MemoryRuns τ
  finalized : List String := []
  active : Dict String PersistentHandler := ∅

namespace RetentionRun

variable {τ : Type} (R : RetentionRun τ)

/-- A new store with a cap. -/
def new (cap : Option Nat) : RetentionRun τ := { memory := { store := { maxCompleted := cap } } }

/-- The last ids, as many as the store may keep. -/
def newest (ids : List String) : List String :=
  match R.memory.store.maxCompleted with
  | none => ids
  | some cap => ids.rtake cap

/-- The finished handlers that are to be retained after a call. A handler is finished when it becomes terminal; to write it again does
not make it newer. -/
def finalizedAfter : MemoryOp τ → List String
  | .update h =>
    if h.status.isTerminal then
      if R.finalized.contains h.handlerId then R.finalized else R.newest (R.finalized ++ [h.handlerId])
    else R.finalized.filter (· ≠ h.handlerId)
  | .delete q => R.finalized.filter fun id => (R.memory.handlers.get? id).all fun h => !q.accepts h
  | _ => R.finalized

/-- The handlers that are not finished, after a call. -/
def activeAfter : MemoryOp τ → Dict String PersistentHandler
  | .update h => if h.status.isTerminal then R.active.erase h.handlerId else R.active.set h.handlerId h
  | .delete q => R.active.filter fun _ h => !q.accepts h
  | _ => R.active

/-- A call to the store. -/
def step (R : RetentionRun τ) (op : MemoryOp τ) : Option (RetentionRun τ) :=
  some { memory := R.memory.call op, finalized := R.finalizedAfter op, active := R.activeAfter op }

/-- The store holds what is to be retained: the terminal handlers are the finished ones, the others are there, and data is held only for
the runs of handlers. -/
structure Retains (R : RetentionRun τ) : Prop where
  terminal : ∀ id, (R.memory.handlers.get? id).any (fun h => h.status.isTerminal) = true ↔ id ∈ R.finalized
  active : ∀ id h, R.memory.handlers.get? id = some h ∧ h.status.isTerminal = false ↔ R.active.get? id = some h
  runs : ∀ runId, R.memory.holdsRun runId = true → R.memory.hasHandlerOf runId = true

/-- Whether a call suits the queue: a handler becomes terminal only once, the finished handlers that a call takes away are the oldest,
and the data of a run goes, or comes, only with a handler of the run. -/
def suitsQueue : MemoryOp τ → Bool
  | .update h =>
    (if h.status.isTerminal then !R.memory.store.terminalQueue.contains h.handlerId
      else (R.finalizedAfter (.update h)).isSuffixOf R.finalized) &&
    (R.memory.handlers.get? h.handlerId).all fun old => old.runId = h.runId || old.runId.all fun runId => !R.memory.holdsRun runId
  | .delete q =>
    (R.finalizedAfter (.delete q)).isSuffixOf R.finalized &&
      (R.memory.handlers.query q).all fun old => old.runId.all fun runId => !R.memory.holdsRun runId
  | .appendEvent runId _ | .appendTick runId _ | .createStateStore runId _ => R.memory.hasHandlerOf runId

end RetentionRun

end LlamaAgents
