import LlamaAgents.Lib.Lru
import LlamaAgents.Server.Handlers

/-!
# The handler stores

The four implementations of the handler side of `AbstractWorkflowStore`: in memory, SQLite and Postgres, and the AgentData
service. Each translates a query on its own, and all but the first write results as text and read them back. Rows come back from
a database in the order they were inserted.
-/

namespace LlamaAgents

open Lib (Dict Lru)

/-- The calls. -/
inductive HandlerOp where
  | update (handler : PersistentHandler)
  | query (query : HandlerQuery)
  | delete (query : HandlerQuery)

/-- What a call gives back. -/
inductive StoreAnswer where
  | done
  | handlers (found : List PersistentHandler)
  | deleted (count : Nat)
  | raised
deriving DecidableEq

/-- Answers that say the same: the same handlers, in any order, or the same count. -/
def StoreAnswer.Agrees : StoreAnswer → StoreAnswer → Prop
  | .handlers l, .handlers l' => l.Perm l'
  | a, b => a = b

/-- What a call on a table of handlers is for. -/
def HandlerTable.call (T : HandlerTable) : HandlerOp → StoreAnswer × HandlerTable
  | .update h => (.done, T.update h)
  | .query q => (.handlers (T.query q), T)
  | .delete q => (.deleted (T.query q).length, T.delete q)

/-! ## In memory -/

/-- `MemoryWorkflowStore`, without the events, ticks and state stores that are evicted with a handler. -/
structure MemoryWorkflowStore where
  handlers : HandlerTable := .empty
  maxCompleted : Option Nat := some 1000
  terminalQueue : List String := []

namespace MemoryWorkflowStore

/-- Evict so many entries of the queue. An entry whose handler is gone or not terminal any more is skipped. -/
def evict : Nat → MemoryWorkflowStore → MemoryWorkflowStore
  | 0, s => s
  | k + 1, s => match s.terminalQueue with
    | [] => s
    | id :: queue => evict k { s with
        terminalQueue := queue
        handlers := if (s.handlers.get? id).any fun h => h.status.isTerminal
          then s.handlers.remove fun h => h.handlerId = id else s.handlers }

/-- `_evict_oldest_completed`. -/
def evictOldestCompleted (s : MemoryWorkflowStore) : MemoryWorkflowStore :=
  match s.maxCompleted with
  | none => s
  | some cap => evict (s.terminalQueue.length - cap) s

/-- The effect of a call. -/
def call (s : MemoryWorkflowStore) : HandlerOp → StoreAnswer × MemoryWorkflowStore
  | .update h =>
    let s := { s with handlers := s.handlers.update h }
    (.done, if h.status.isTerminal
      then evictOldestCompleted { s with terminalQueue := s.terminalQueue ++ [h.handlerId] } else s)
  | .query q => (.handlers (s.handlers.query q), s)
  | .delete q => (.deleted (s.handlers.query q).length, { s with handlers := s.handlers.delete q })

end MemoryWorkflowStore

/-! ## Columns -/

/-- The columns that filters look at. -/
inductive HandlerColumn where
  | workflowName
  | handlerId
  | runId
  | status
  | idleSince
deriving DecidableEq

/-- The text of a status. -/
def Status.text : Status → String
  | .running => "running"
  | .completed => "completed"
  | .failed => "failed"
  | .cancelled => "cancelled"

/-- The value of a column, or null. -/
def HandlerColumn.value (h : PersistentHandler) : HandlerColumn → Option String
  | .workflowName => some h.workflowName
  | .handlerId => some h.handlerId
  | .runId => h.runId
  | .status => some h.status.text
  | .idleSince => h.idleSince.map toString

/-- The condition of a list filter, in a language of conditions: none when it is absent, and nothing can match when it is
empty. -/
def inCondition {γ : Type} (isIn : List String → γ) : Option (List String) → Option (List γ)
  | none => some []
  | some [] => none
  | some values => some [isIn values]

/-- The condition of the filter on idle handlers. -/
def idleCondition {γ : Type} (isSet isUnset : γ) : Option Bool → List γ
  | none => []
  | some true => [isSet]
  | some false => [isUnset]

/-! ## Results -/

/-- What the stores other than the one in memory make of a result: whether `JsonSerializer` can write it, and what
`_parse_stop_event` makes of what was written, unless it raises. -/
structure ResultCodec where
  canWrite : Event → Bool
  readBack : Event → Option Event

namespace PersistentHandler

variable (codec : ResultCodec) (h : PersistentHandler)

/-- Whether the handler can be written. -/
def canWrite : Bool := h.result.all codec.canWrite

/-- The handler that is read from its row. -/
def readBack : Option PersistentHandler :=
  match h.result with
  | none => some h
  | some e => (codec.readBack e).map fun e => { h with result := some e }

/-- Whether the handler can be written, and comes back as it was. -/
def survives : Bool := h.canWrite codec && h.result.all fun e => decide (codec.readBack e = some e)

end PersistentHandler

/-- The answer to a query that selects some rows. One row that cannot be read makes it raise. -/
def readRows (codec : ResultCodec) (rows : List PersistentHandler) : StoreAnswer :=
  match rows.mapM (PersistentHandler.readBack codec) with
  | some found => .handlers found
  | none => .raised

/-! ## SQL -/

/-- The clauses of a `WHERE`. -/
inductive SqlClause where
  | isIn (column : HandlerColumn) (values : List String)
  | isNull (column : HandlerColumn)
  | isNotNull (column : HandlerColumn)
deriving DecidableEq

/-- Whether a row meets a clause. A null is in no list. -/
def SqlClause.holds (h : PersistentHandler) : SqlClause → Bool
  | .isIn column values => (column.value h).any fun v => values.contains v
  | .isNull column => (column.value h).isNone
  | .isNotNull column => (column.value h).isSome

/-- The condition of `add_in_clause`. -/
def sqlInClause (column : HandlerColumn) : Option (List String) → Option (List SqlClause) := inCondition (.isIn column)

/-- `_build_filters`, of both SQL stores. -/
def sqlFilters (q : HandlerQuery) : Option (List SqlClause) := do
  let names ← sqlInClause .workflowName q.workflowNameIn
  let ids ← sqlInClause .handlerId q.handlerIdIn
  let runs ← sqlInClause .runId q.runIdIn
  let statuses ← sqlInClause .status (q.statusIn.map fun l => l.map Status.text)
  return names ++ ids ++ runs ++ statuses ++ idleCondition (.isNotNull .idleSince) (.isNull .idleSince) q.isIdle

/-- Whether the text columns of a row fit a `VARCHAR`, if they have to. -/
def PersistentHandler.fits (varchar : Option Nat) (h : PersistentHandler) : Bool :=
  varchar.all fun n => decide (h.handlerId.length ≤ n) && decide (h.workflowName.length ≤ n) &&
    h.runId.all fun r => decide (r.length ≤ n)

/-- The effect of a call on a table, whose text columns may have a length. A delete without clauses does nothing. -/
def sqlCall (codec : ResultCodec) (varchar : Option Nat) (T : HandlerTable) : HandlerOp → StoreAnswer × HandlerTable
  | .update h => if h.canWrite codec && h.fits varchar then (.done, T.update h) else (.raised, T)
  | .query q => match sqlFilters q with
    | none => (.handlers [], T)
    | some clauses => (readRows codec (T.rows.values.filter fun h => clauses.all (SqlClause.holds h)), T)
  | .delete q => match sqlFilters q with
    | none => (.deleted 0, T)
    | some clauses =>
      if clauses.isEmpty then (.deleted 0, T)
      else
        let meets := fun h => clauses.all (SqlClause.holds h)
        (.deleted (T.rows.values.filter meets).length, T.remove meets)

/-- `SqliteWorkflowStore`. -/
def sqliteCall (codec : ResultCodec) : HandlerTable → HandlerOp → StoreAnswer × HandlerTable := sqlCall codec none

/-- `PostgresWorkflowStore`, whose text columns are `VARCHAR(255)`. -/
def postgresCall (codec : ResultCodec) : HandlerTable → HandlerOp → StoreAnswer × HandlerTable := sqlCall codec (some 255)

/-! ## The AgentData service -/

/-- A condition on a field, in a filter of the service. -/
inductive AgentFilter where
  | includes (field : HandlerColumn) (values : List String)
  | eq (field : HandlerColumn) (value : Option String)
  | ne (field : HandlerColumn) (value : Option String)

/-- Whether an item meets a condition. -/
def AgentFilter.holds (h : PersistentHandler) : AgentFilter → Bool
  | .includes field values => (field.value h).any fun v => values.contains v
  | .eq field value => decide (field.value h = value)
  | .ne field value => decide (field.value h ≠ value)

/-- An item of the collection. The service numbers items as it creates them. -/
structure AgentItem where
  id : Nat
  data : PersistentHandler
deriving DecidableEq

/-- The item after the item with an id was written. -/
def AgentItem.written (x : AgentItem) (id : Nat) (h : PersistentHandler) : AgentItem :=
  if x.id = id then { x with data := h } else x

@[simp] theorem AgentItem.written_id (x : AgentItem) (id : Nat) (h : PersistentHandler) : (x.written id h).id = x.id := by
  unfold written
  split <;> rfl

/-- The collection, in the order in which its items were created. -/
structure AgentDataService where
  items : List AgentItem := []
  nextId : Nat := 0

/-- How many items a search gives back. -/
def agentPageSize : Nat := 100

namespace AgentDataService

variable (s : AgentDataService)

/-- The items that meet all conditions. -/
def matching (filters : List AgentFilter) : List AgentItem := s.items.filter fun x => filters.all (AgentFilter.holds x.data)

/-- `search`: the first page of the items, in the order they were created or the newest first. -/
def search (filters : List AgentFilter) (newestFirst : Bool) : List AgentItem :=
  (if newestFirst then (s.matching filters).reverse else s.matching filters).take agentPageSize

/-- `create`. -/
def create (h : PersistentHandler) : AgentDataService :=
  { items := s.items ++ [⟨s.nextId, h⟩], nextId := s.nextId + 1 }

/-- `update_item`, of an item that exists. -/
def updateItem (id : Nat) (h : PersistentHandler) : Option AgentDataService :=
  if s.items.any fun x => x.id = id
  then some { s with items := s.items.map fun x => x.written id h }
  else none

/-- `delete_item`. -/
def deleteItem (id : Nat) : AgentDataService := { s with items := s.items.filter fun x => x.id ≠ id }

/-- `delete_many`. -/
def deleteMany (filters : List AgentFilter) : AgentDataService :=
  { s with items := s.items.filter fun x => !filters.all (AgentFilter.holds x.data) }

end AgentDataService

/-- `_in_filter`. -/
def agentInFilter (field : HandlerColumn) : Option (List String) → Option (List AgentFilter) := inCondition (.includes field)

/-- `_build_handler_filters`. -/
def agentFilters (q : HandlerQuery) : Option (List AgentFilter) := do
  let ids ← agentInFilter .handlerId q.handlerIdIn
  let runs ← agentInFilter .runId q.runIdIn
  let names ← agentInFilter .workflowName q.workflowNameIn
  let statuses ← agentInFilter .status (q.statusIn.map fun l => l.map Status.text)
  return ids ++ runs ++ names ++ statuses ++ idleCondition (.ne .idleSince none) (.eq .idleSince none) q.isIdle

/-- `AgentDataStore`: the service, and the ids of items by handler. -/
structure AgentDataStore where
  service : AgentDataService := {}
  idCache : Lru String Nat := { maxsize := 256 }

namespace AgentDataStore

variable (s : AgentDataStore)

/-- The write of an item whose id is known. It raises when there is no such item. -/
def write (id : Nat) (h : PersistentHandler) : StoreAnswer × AgentDataStore :=
  match s.service.updateItem id h with
  | some service => (.done, { s with service := service })
  | none => (.raised, s)

/-- `update`, for a handler whose item is not cached: it is searched for, and created if there is none. Of several the oldest
survives. -/
def updateSearched (h : PersistentHandler) : StoreAnswer × AgentDataStore :=
  let found := s.service.search [.eq .handlerId (some h.handlerId)] true
  match found.getLast? with
  | none => (.done, { service := s.service.create h, idCache := s.idCache.put h.handlerId s.service.nextId })
  | some survivor =>
    let service := found.dropLast.foldl (fun t x => t.deleteItem x.id) s.service
    write { service := service, idCache := s.idCache.put h.handlerId survivor.id } survivor.id h

/-- The effect of a call. A delete forgets the items of the first page, and removes all that match. -/
def call (codec : ResultCodec) : HandlerOp → StoreAnswer × AgentDataStore
  | .update h =>
    if h.canWrite codec then
      let cached := s.idCache.get h.handlerId
      match cached.1 with
      | some id => write { s with idCache := cached.2 } id h
      | none => updateSearched { s with idCache := cached.2 } h
    else (.raised, s)
  | .query q => match agentFilters q with
    | none => (.handlers [], s)
    | some filters => (readRows codec ((s.service.search filters false).map AgentItem.data), s)
  | .delete q => match agentFilters q with
    | none => (.deleted 0, s)
    | some filters =>
      let found := s.service.search filters false
      let cache := found.foldl (fun c x => if x.data.handlerId.isEmpty then c else c.delete x.data.handlerId) s.idCache
      if found.isEmpty then (.deleted 0, { s with idCache := cache })
      else (.deleted (s.service.matching filters).length, { service := s.service.deleteMany filters, idCache := cache })

end AgentDataStore

/-! ## All of them -/

/-- Whether a call on a table is one that all stores take alike: a handler has an id, its text fits the columns of Postgres, and
its result comes back as it was; a query selects no more than a page; a delete has a filter. -/
def HandlerTable.isPlain (codec : ResultCodec) (T : HandlerTable) : HandlerOp → Bool
  | .update h => !h.handlerId.isEmpty && h.fits (some 255) && h.survives codec
  | .query q => decide ((T.query q).length ≤ agentPageSize)
  | .delete q => decide (q ≠ {}) && decide ((T.query q).length ≤ agentPageSize)

/-- The four stores, which get the same calls. The store in memory has no cap. -/
structure HandlerStores where
  memory : MemoryWorkflowStore := { maxCompleted := none }
  sqlite : HandlerTable := .empty
  postgres : HandlerTable := .empty
  agentData : AgentDataStore := {}

namespace HandlerStores

variable (codec : ResultCodec)

/-- The stores after a call. -/
def step (Q : HandlerStores) (op : HandlerOp) : Option HandlerStores := some
  { memory := (Q.memory.call op).2
    sqlite := (sqliteCall codec Q.sqlite op).2
    postgres := (postgresCall codec Q.postgres op).2
    agentData := (Q.agentData.call codec op).2 }

/-- Whether a call is one that all stores take alike. -/
def takesAlike (Q : HandlerStores) (op : HandlerOp) : Bool := Q.memory.handlers.isPlain codec op

end HandlerStores

end LlamaAgents
