import LlamaAgents.Runner

/-!
# Handlers and their rows

The rows that the server keeps for its handlers, what a live run writes there with an event of its stream
(`_ServerInternalRunAdapter.write_to_event_stream`), the queries that select them, and `update_handler_status`, which reads a row,
changes some of its fields and writes the whole row back (`_store/abstract_workflow_store.py`).
-/

namespace LlamaAgents

open Lib (Dict)

/-- `Status`. -/
inductive Status where
  | running
  | completed
  | failed
  | cancelled
deriving DecidableEq, Repr

/-- The arguments of `update_handler_status` for the end of a run. -/
structure StatusUpdate where
  status : Status
  result : Option Event := none
  error : Option String := none
deriving DecidableEq

/-- `str(value)`, of an attribute that is an exception or a number. -/
def Value.message : Value → String
  | .exn e => e.message
  | v => v.text

/-- The update that writing an event to the stream makes. -/
def Event.statusUpdate? (e : Event) : Option StatusUpdate :=
  if e.isInstance .workflowFailedEvent then some { status := .failed, error := some (e.getAttr "exception").message }
  else if e.isInstance .workflowTimedOutEvent then
    some { status := .failed, error := some ("Workflow timed out after " ++ (e.getAttr "timeout").message ++ "s") }
  else if e.isInstance .workflowCancelledEvent then some { status := .cancelled }
  else if e.isStop then some { status := .completed, result := some e }
  else none

/-- `is_terminal_status`. -/
def Status.isTerminal : Status → Bool
  | .running => false
  | .completed | .failed | .cancelled => true

/-- `PersistentHandler`. -/
structure PersistentHandler where
  handlerId : String
  workflowName : String
  status : Status
  runId : Option String := none
  error : Option String := none
  result : Option Event := none
  startedAt : Option Time := none
  updatedAt : Option Time := none
  completedAt : Option Time := none
  idleSince : Option Time := none
deriving DecidableEq

/-- How a handler has ended, or that it has not. -/
def PersistentHandler.outcome (h : PersistentHandler) : Status × Option Event × Option String := (h.status, h.result, h.error)

/-- `HandlerQuery`. -/
structure HandlerQuery where
  handlerIdIn : Option (List String) := none
  runIdIn : Option (List String) := none
  workflowNameIn : Option (List String) := none
  statusIn : Option (List Status) := none
  isIdle : Option Bool := none
deriving DecidableEq

/-- `_matches_query`. An empty list matches nothing. -/
def HandlerQuery.accepts (q : HandlerQuery) (h : PersistentHandler) : Bool :=
  (q.handlerIdIn.all fun ids => ids.contains h.handlerId) &&
  (q.runIdIn.all fun ids => h.runId.any fun r => ids.contains r) &&
  (q.workflowNameIn.all fun names => names.contains h.workflowName) &&
  (q.statusIn.all fun statuses => statuses.contains h.status) &&
  (q.isIdle.all fun idle => idle == h.idleSince.isSome)

/-- The rows of a store: every row stands under the id of its handler. -/
structure HandlerTable where
  rows : Dict String PersistentHandler
  keyed : ∀ {k : String} {h : PersistentHandler}, rows.get? k = some h → h.handlerId = k

namespace HandlerTable

/-- A store without rows. -/
def empty : HandlerTable := ⟨∅, fun h => nomatch h⟩

variable (T : HandlerTable)

/-- The row of a handler. -/
def get? (handlerId : String) : Option PersistentHandler := T.rows.get? handlerId

/-- The rows that a query selects, in the order they were inserted. -/
def query (q : HandlerQuery) : List PersistentHandler := T.rows.values.filter q.accepts

/-- The rows of a run. -/
def ofRun (runId : String) : List PersistentHandler := T.query { runIdIn := some [runId] }

/-- The write of a row: it replaces the row of its handler, or inserts one. -/
def update (h : PersistentHandler) : HandlerTable where
  rows := T.rows.set h.handlerId h
  keyed := by
    intro k h' hget
    rw [Dict.get?_set] at hget
    split at hget
    · case isTrue hk =>
      cases hget
      exact hk
    · exact T.keyed hget

/-- The removal of the rows that a test selects. -/
def remove (p : PersistentHandler → Bool) : HandlerTable where
  rows := T.rows.filter fun _ h => !p h
  keyed := by
    intro k h hget
    rw [Dict.get?_filter] at hget
    exact T.keyed (Option.eq_some_of_filter_eq_some hget)

/-- The removal of the rows that a query selects. -/
def delete (q : HandlerQuery) : HandlerTable := T.remove q.accepts

theorem get?_delete (q : HandlerQuery) (k : String) : (T.delete q).get? k = (T.get? k).filter fun h => !q.accepts h :=
  Dict.get?_filter _ _ _

theorem get?_update (h : PersistentHandler) (k : String) :
    (T.update h).get? k = if h.handlerId = k then some h else T.get? k := Dict.get?_set _ _ _ _

theorem mem_query {q : HandlerQuery} {h : PersistentHandler} :
    h ∈ T.query q ↔ T.get? h.handlerId = some h ∧ q.accepts h := by
  rw [query, List.mem_filter, Dict.values, List.mem_map]
  refine and_congr_left fun _ => ⟨?_, fun hget => ⟨_, (T.rows.get?_eq_some_iff _ _).1 hget, rfl⟩⟩
  rintro ⟨e, he, rfl⟩
  have hget := (T.rows.get?_eq_some_iff _ _).2 he
  rw [T.keyed hget]
  exact hget

end HandlerTable

/-- The arguments of `update_handler_status`. An absent idle time is left as it is; a given one may clear it. -/
structure HandlerChange where
  status : Option Status := none
  result : Option Event := none
  error : Option String := none
  idleSince : Option (Option Time) := none
deriving DecidableEq

/-- The changes that `update_handler_status` makes to the row it has read. -/
def PersistentHandler.changed (h : PersistentHandler) (c : HandlerChange) (now : Time) : PersistentHandler :=
  { h with
    status := c.status.getD h.status
    updatedAt := some now
    completedAt := if c.status.any Status.isTerminal then some now else h.completedAt
    result := c.result <|> h.result
    error := c.error <|> h.error
    idleSince := c.idleSince.getD h.idleSince }

/-- A terminal status update, as arguments of `update_handler_status`. -/
def StatusUpdate.toChange (u : StatusUpdate) : HandlerChange := { status := some u.status, result := u.result, error := u.error }

end LlamaAgents
