import LlamaAgents.Server.StatusWrites

/-!
# Starting runs under handlers

What `_service.py` does to start a run under a handler id and to cancel a handler, beside the writes that runs make to their
rows. A request reads the row of its handler, later stores a new row with a fresh run id, and then starts the run. The table of
rows and the runs are followed together.
-/

namespace LlamaAgents

/-- A start request, after `_context_from_handler_id`: the handler, the workflow, and the run whose state is continued. -/
structure StartRequest where
  handlerId : String
  workflowName : String
  continues : Option String
deriving DecidableEq

/-- A run whose row was stored, with the handler that it was stored for: not started yet, or live. A run that has reached a
terminal event is not one of them. -/
structure HandlerRun where
  runId : String
  handlerId : String
  live : Bool := false
deriving DecidableEq

/-- A request to cancel a handler, after its read: the run that it cancels and waits for, if any, and whether to purge the
handler. -/
structure CancelRequest where
  handlerId : String
  awaited : Option String
  purge : Bool
deriving DecidableEq

/-- The rows with the writes under way, the requests under way, the runs, and the run ids that were ever given out. -/
structure HandlerWorld extends RowRun where
  requests : List StartRequest := []
  runs : List HandlerRun := []
  cancels : List CancelRequest := []
  used : List String := []

/-- What can happen. -/
inductive HandlerAction where
  /-- `start_workflow` reads the row of a handler. -/
  | request (handlerId workflowName : String)
  /-- `run_workflow_handler` stores the row of a request, under a run id from `nanoid`. -/
  | store (index : Nat) (runId : String) (now : Time)
  /-- `workflow.run`. -/
  | run (index : Nat)
  /-- A live run reaches a terminal event, and its status update reads the row. -/
  | ends (index : Nat) (update : StatusUpdate)
  /-- The other reads and the writes of rows. -/
  | row (action : RowAction)
  /-- `cancel_handler` reads the row of a handler. -/
  | cancel (handlerId : String) (purge : Bool)
  /-- `cancel_handler` goes on after the run it waits for has ended. -/
  | cancelled (index : Nat)

namespace HandlerWorld

/-- A server that starts with some rows. -/
def start (T : HandlerTable) : HandlerWorld := { rows := T, used := T.rows.values.filterMap PersistentHandler.runId }

variable (W : HandlerWorld)

/-- The run that a start request continues from: that of the handler, when it has ended. -/
def continues (handlerId : String) : Option String :=
  ((W.rows.get? handlerId).filter fun h => h.status.isTerminal).bind PersistentHandler.runId

/-- The row of a new run. -/
def newRow (q : StartRequest) (runId : String) (now : Time) : PersistentHandler where
  handlerId := q.handlerId
  workflowName := q.workflowName
  status := .running
  runId := some runId
  startedAt := some now
  updatedAt := some now

/-- What `cancel_handler` makes of the row it has read, if it goes on. -/
def cancelRequest (h : PersistentHandler) (purge : Bool) : Option CancelRequest :=
  if !purge && (h.runId.isNone || h.status.isTerminal) then none
  else some ⟨h.handlerId, if h.status.isTerminal then none else h.runId, purge⟩

/-- The query of `cancel_handler` when it purges. -/
def purgeQuery (handlerId : String) : HandlerQuery := { handlerIdIn := some [handlerId] }

/-- The effect of an action, if it can happen. -/
def step : HandlerAction → Option HandlerWorld
  | .request handlerId workflowName =>
    some { W with requests := W.requests ++ [⟨handlerId, workflowName, W.continues handlerId⟩] }
  | .store i runId now =>
    if W.used.contains runId then none
    else W.requests[i]?.map fun q =>
      { W with
        rows := W.rows.update (newRow q runId now)
        requests := W.requests.eraseIdx i
        runs := W.runs ++ [{ runId := runId, handlerId := q.handlerId }]
        used := runId :: W.used }
  | .run i => (W.runs[i]?.filter fun x => !x.live).map fun _ =>
      { W with runs := W.runs.modify i fun x => { x with live := true } }
  | .ends i u => (W.runs[i]?.filter HandlerRun.live).map fun x =>
      -- a status update that finds no row logs a warning and is skipped
      { W with
        runs := W.runs.eraseIdx i
        held := W.held ++ ((W.found x.runId (.terminalEvent u)).map (HeldRow.mk (.terminalEvent u))).toList }
  | .row (.read _ (.terminalEvent _)) => none
  | .row a => (W.toRowRun.step a).map fun R => { W with toRowRun := R }
  | .cancel handlerId purge => ((W.rows.get? handlerId).bind fun h => cancelRequest h purge).map fun c =>
      { W with cancels := W.cancels ++ [c] }
  | .cancelled i => (W.cancels[i]?.filter fun c => W.runs.all fun x => !x.live || decide (some x.runId ≠ c.awaited)).map
      fun c => { W with
        rows := if c.purge then W.rows.delete (purgeQuery c.handlerId) else W.rows
        cancels := W.cancels.eraseIdx i }

/-- Whether the row of a handler can be replaced or removed: there is none, or it is terminal. -/
def isFree (handlerId : String) : Bool := (W.rows.get? handlerId).all fun h => h.status.isTerminal

/-- Whether an action leaves the rows of other runs to them: a row is stored or purged only when the handler has none or a
terminal one, and a row is written back only while the handler's row is that of the same run. -/
def sparesRuns : HandlerAction → Bool
  | .store i _ _ => W.requests[i]?.all fun q => W.isFree q.handlerId
  | .row (.write i _) => W.held[i]?.all fun w => (W.rows.get? w.handler.handlerId).any fun h => h.runId = w.handler.runId
  | .cancelled i => W.cancels[i]?.all fun c => !c.purge || W.isFree c.handlerId
  | _ => true

end HandlerWorld

end LlamaAgents
