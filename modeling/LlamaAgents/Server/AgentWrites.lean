import LlamaAgents.Lib.Pages
import LlamaAgents.Lib.Run

/-!
# Background writes of the AgentData store

The AgentData store numbers an item, hands it to a task that creates it in the service, and goes on. Tasks are awaited when the
store regroups; the list of those to await is pruned of finished ones. A write may reach the service at any time, in any order, or
never, and its answer may fail either way.
-/

namespace LlamaAgents

/-- A numbered item of a collection of the service. -/
structure Numbered (α : Type) where
  sequence : Nat
  data : α
deriving DecidableEq

/-- Where a write is. -/
inductive WriteState where
  | inFlight
  /-- It has reached the service, and its answer is on the way. -/
  | stored
  | done
  | failed
deriving DecidableEq

/-- Whether the task of a write has ended. -/
def WriteState.isFinished : WriteState → Bool
  | .done => true
  | .failed => true
  | _ => false

/-- A task that creates an item. -/
structure WriteTask (α : Type) where
  item : Numbered α
  state : WriteState := .inFlight
deriving DecidableEq

/-- One collection of a run: the items in the service, in the order they reached it; the tasks of this process, the ones it has
not awaited yet, and the next number, once it is known. -/
structure WriteQueue (α : Type) where
  items : List (Numbered α) := []
  tasks : List (WriteTask α) := []
  pending : List Nat := []
  counter : Option Nat := none
deriving DecidableEq

namespace WriteQueue

variable {α : Type} (W : WriteQueue α)

/-- One more than the highest number in the service, by `_max_sequence`. -/
def afterMaxSequence : Nat := W.items.foldl (fun n x => max n (x.sequence + 1)) 0

/-- `_next_event_sequence` and `_next_tick_sequence`. -/
def nextSequence : Nat := W.counter.getD W.afterMaxSequence

/-- Whether a task has ended. -/
def isFinished (i : Nat) : Bool := W.tasks[i]?.all fun t => t.state.isFinished

/-- The length from which the list of pending tasks is pruned. -/
def maxPending : Nat := 50

/-- The items that a process is about to write, oldest first. -/
def underWay : List (Numbered α) := (W.tasks.filter fun t => decide (t.state = .inFlight)).map WriteTask.item

/-- `_track_pending`. -/
def trackPending (x : Numbered α) : WriteQueue α :=
  let pending := W.pending ++ [W.tasks.length]
  let W : WriteQueue α := { W with tasks := W.tasks ++ [{ item := x }] }
  { W with pending := if pending.length > maxPending then pending.filter fun i => !W.isFinished i else pending }

/-- The number and the write of a new item. -/
def append (x : α) : WriteQueue α :=
  { W.trackPending ⟨W.nextSequence, x⟩ with counter := some (W.nextSequence + 1) }

/-- A write reaches the service. -/
def arrive (i : Nat) : Option (WriteQueue α) :=
  (W.tasks[i]?.filter fun t => decide (t.state = .inFlight)).map fun t =>
    { W with items := W.items ++ [t.item], tasks := W.tasks.set i { t with state := .stored } }

/-- The answer to a write that has reached the service. -/
def respond (i : Nat) (ok : Bool) : Option (WriteQueue α) :=
  (W.tasks[i]?.filter fun t => decide (t.state = .stored)).map fun t =>
    { W with tasks := W.tasks.set i { t with state := if ok then .done else .failed } }

/-- A write fails and never reaches the service. -/
def lose (i : Nat) : Option (WriteQueue α) :=
  (W.tasks[i]?.filter fun t => decide (t.state = .inFlight)).map fun t =>
    { W with tasks := W.tasks.set i { t with state := .failed } }

/-- Whether all of some tasks have ended. -/
def haveFinished (l : List Nat) : Bool := l.all W.isFinished

/-- Whether one of some tasks has failed. -/
def anyFailed (l : List Nat) : Bool := l.any fun i => W.tasks[i]?.any fun t => decide (t.state = .failed)

end WriteQueue

/-! ## The ticks of a run -/

/-- The page size of `stream_ticks`. -/
def tickPageSize : Nat := 100

/-- `stream_ticks`, in a process that has written nothing yet. -/
def streamTicks {α : Type} (items : List (Numbered α)) : List (Numbered α) :=
  Lib.readPages Numbered.sequence tickPageSize (items.length + 1) none items

/-- The tick journal of a run: the writes, the tasks that a cleanup awaits, the writes of processes that have crashed, and the ticks
that were appended, as the process that runs now knows them. -/
structure TickJournal (α : Type) where
  writes : WriteQueue α := {}
  cleaning : List (List Nat) := []
  orphans : List (Numbered α) := []
  appended : List α := []

/-- What can happen. -/
inductive JournalAction (α : Type) where
  | append (tick : α)
  /-- The number of the last tick cannot be read: the tick is not written, which the run does not notice. -/
  | appendFails (tick : α)
  | arrive (i : Nat)
  | respond (i : Nat) (ok : Bool)
  | lose (i : Nat)
  /-- `after_tick` takes the pending tasks and awaits them. An error is logged. -/
  | regroup
  /-- `_cleanup_run` takes the pending tasks and awaits them. -/
  | cleanup
  /-- A cleanup goes on once its tasks have ended: it forgets the number, unless one has failed. -/
  | forget (i : Nat)
  /-- The process crashes, and the next one reads the journal. -/
  | restart
  /-- A write of a crashed process reaches the service. -/
  | arriveLate (i : Nat)

namespace TickJournal

variable {α : Type} (J : TickJournal α)

/-- The journal after an action, if it is possible. -/
def step : JournalAction α → Option (TickJournal α)
  | .append t => some { J with writes := J.writes.append t, appended := J.appended ++ [t] }
  | .appendFails t => if J.writes.counter.isNone then some { J with appended := J.appended ++ [t] } else none
  | .arrive i => (J.writes.arrive i).map fun W => { J with writes := W }
  | .respond i ok => (J.writes.respond i ok).map fun W => { J with writes := W }
  | .lose i => (J.writes.lose i).map fun W => { J with writes := W }
  | .regroup => some { J with writes := { J.writes with pending := [] } }
  | .cleanup => some { J with writes := { J.writes with pending := [] }, cleaning := J.cleaning ++ [J.writes.pending] }
  | .forget i => (J.cleaning[i]?.filter J.writes.haveFinished).map fun awaited =>
      { J with
        cleaning := J.cleaning.eraseIdx i
        writes := { J.writes with counter := if J.writes.anyFailed awaited then J.writes.counter else none } }
  | .restart => some
      { writes := { items := J.writes.items }
        orphans := J.orphans ++ J.writes.underWay
        appended := (streamTicks J.writes.items).map Numbered.data }
  | .arriveLate i => J.orphans[i]?.map fun x =>
      { J with orphans := J.orphans.eraseIdx i, writes := { J.writes with items := J.writes.items ++ [x] } }

/-- Whether an action keeps the journal in order: writes reach the service in the order of their numbers, none is lost but by a
crash, the number of the last tick can be read, and it is forgotten only when nothing is under way. -/
def keepsOrder : JournalAction α → Bool
  | .appendFails _ => false
  | .arrive i => (J.writes.tasks.take i).all fun t => decide (t.state ≠ .inFlight)
  | .lose _ => false
  | .forget _ => J.writes.underWay.isEmpty
  | .arriveLate _ => false
  | _ => true

end TickJournal

end LlamaAgents
