import LlamaAgents.Server.Handlers
import LlamaAgents.Lib.Run

/-!
# Who writes the row of a handler

Several parts of the server write the row of a run: the event stream when it ends, idle marking and its reversal, and, under
DBOS, the completion of a release and a resume. Each reads the whole row, and later writes the whole row back. The store makes
single reads and writes atomic and nothing more, and any number of replicas share it, so that these writes interleave freely.
When a part of the server starts to write is left open here: every order is a run.
-/

namespace LlamaAgents

/-- The writes of a row, with what they are given. -/
inductive RowWriter where
  /-- `_handle_status_update`, for a terminal event of the stream, and the finalization of a recovered run. -/
  | terminalEvent (update : StatusUpdate)
  /-- The idle event of a run in process. -/
  | markIdle (since : Time)
  /-- `send_event` to an active run, and the end of a reload. -/
  | clearIdle
  /-- `_await_and_mark_released`, after `complete_release`. -/
  | markReleased (since : Time)
  /-- `_do_resume`, whose last write is of the row that it read before it rebuilt the run. -/
  | resume
deriving DecidableEq

/-- What a writer changes in the row it has read. -/
def RowWriter.change : RowWriter → HandlerChange
  | .terminalEvent u => u.toChange
  | .markIdle since => { status := some .running, idleSince := some (some since) }
  | .clearIdle => { idleSince := some none }
  | .markReleased since => { status := some .running, idleSince := some (some since) }
  | .resume => { status := some .running, idleSince := some none }

/-- Whether a writer changes when the handler is idle, and nothing else of its outcome. -/
def RowWriter.keepsOutcome (w : RowWriter) : Bool :=
  w.change.status.isNone && w.change.result.isNone && w.change.error.isNone

/-- A write under way: the row as it was read. -/
structure HeldRow where
  writer : RowWriter
  handler : PersistentHandler
deriving DecidableEq

/-- The rows, and the writes under way. -/
structure RowRun where
  rows : HandlerTable
  held : List HeldRow := []

/-- What happens to the rows: a writer reads the row of a run, writes back the row it has read, or fails to. A write that is
retried after a failure starts with a new read. -/
inductive RowAction where
  | read (runId : String) (writer : RowWriter)
  | write (index : Nat) (now : Time)
  | fail (index : Nat)

namespace RowRun

/-- The row that a writer reads: `update_handler_status` takes the first row of the run, a resume insists on a single one. -/
def found (R : RowRun) (runId : String) : RowWriter → Option PersistentHandler
  | .resume => match R.rows.ofRun runId with
    | [h] => some h
    | _ => none
  | _ => (R.rows.ofRun runId).head?

/-- The effect of an action, if it can happen. A writer that finds no row does nothing. -/
def step (R : RowRun) : RowAction → Option RowRun
  | .read runId writer => (R.found runId writer).map fun h => { R with held := R.held ++ [⟨writer, h⟩] }
  | .write i now => R.held[i]?.map fun w =>
      { rows := R.rows.update (w.handler.changed w.writer.change now), held := R.held.eraseIdx i }
  | .fail i => R.held[i]?.map fun _ => { R with held := R.held.eraseIdx i }

/-- Whether an action leaves terminal rows to themselves: a writer that reads a terminal row keeps its outcome, and a row that
is written back has not become terminal since it was read. -/
def sparesTerminal (R : RowRun) : RowAction → Bool
  | .read runId writer => (R.found runId writer).all fun h => !h.status.isTerminal || writer.keepsOutcome
  | .write i _ => R.held[i]?.all fun w => (R.rows.get? w.handler.handlerId).all fun h =>
      !h.status.isTerminal || w.handler.status.isTerminal
  | .fail _ => true

/-- A row that was found is stored, and names the run. -/
theorem get?_of_found {R : RowRun} {runId : String} {w : RowWriter} {h : PersistentHandler}
    (hf : R.found runId w = some h) : R.rows.get? h.handlerId = some h ∧ h.runId = some runId := by
  have hmem : h ∈ R.rows.ofRun runId := by
    unfold found at hf
    split at hf
    · split at hf
      · case h_1 heq =>
        cases hf
        rw [heq]
        exact List.mem_singleton_self _
      · cases hf
    · exact List.mem_of_head? hf
  obtain ⟨hget, haccepts⟩ := R.rows.mem_query.1 hmem
  refine ⟨hget, ?_⟩
  simp only [HandlerQuery.accepts, Option.all_none, Option.all_some, Bool.and_true, Bool.true_and] at haccepts
  obtain ⟨r, hr, hmem⟩ := (Option.any_eq_true _ _).1 haccepts
  rw [hr]
  simpa [eq_comm] using hmem

end RowRun

end LlamaAgents
