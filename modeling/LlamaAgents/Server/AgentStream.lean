import LlamaAgents.Lib.Window
import LlamaAgents.Server.AgentWrites
import LlamaAgents.Server.Handlers

/-!
# A subscription to the events of a run in the AgentData store

The store broadcasts an event to the queues of its subscribers and writes it in the background. A subscriber registers its queue,
awaits the writes that are pending, searches the service once, and then takes from its queue. After the terminal event the store
awaits the pending writes and ends the queues. All of this takes turns, with the writes and with others who await them.
-/

namespace LlamaAgents

/-- The number of a stored event, to compare with a cursor. -/
def Numbered.number (x : Numbered Event) : Int := x.sequence

/-- `_is_terminal_event`. -/
def Numbered.isTerminal (x : Numbered Event) : Bool := x.data.isStop

/-- What earlier processes have stored of a run: in order, with nothing after a terminal event. -/
structure StoredEvents where
  items : List (Numbered Event)
  sorted : items.Pairwise fun x y => x.number < y.number
  ended : ∀ x ∈ items, x.isTerminal = true → items.getLast? = some x

/-- The end of a run in the store: not reached, waiting for its ticks, for the event writes it has found pending, or over. -/
inductive Closing where
  | no
  | ticks
  | events (tasks : List Nat)
  | done
deriving DecidableEq

/-- Where a subscriber is. -/
inductive SubscriberPhase where
  | idle
  /-- It awaits the writes that it has found pending. -/
  | regrouping (tasks : List Nat)
  /-- It yields what it has found in the service. -/
  | backfilling (rest : List (Numbered Event))
  /-- It yields what its queue gets. -/
  | live
  | returned
  | raised
deriving DecidableEq

/-- A run and a subscriber: the event writes, the events broadcast so far, and the end of the run; the number that the subscription
starts after, the subscriber's phase, whether its queue is registered and what is in it, the last number yielded and what was
yielded. How many events were broadcast before the queue was registered is kept beside. -/
structure AgentStream where
  writes : WriteQueue Event
  published : List (Numbered Event)
  closing : Closing := .no
  after : Int
  phase : SubscriberPhase := .idle
  listed : Bool := false
  queue : List (Option (Numbered Event)) := []
  position : Int
  yielded : List (Numbered Event) := []
  registered : Nat := 0

/-- What can happen. -/
inductive SubscriptionAction where
  /-- `append_event`. -/
  | publish (e : Event)
  | arrive (i : Nat)
  | respond (i : Nat) (ok : Bool)
  | lose (i : Nat)
  /-- Someone else awaits the pending writes: `after_tick`, or another reader. -/
  | regroup
  /-- `_cleanup_run`: its ticks are written, or one of them has failed. -/
  | closeTicks (ok : Bool)
  /-- It has awaited the event writes. -/
  | close
  | subscribe
  /-- The subscriber has awaited the writes, and searches. -/
  | search
  | yield
  | take

namespace AgentStream

/-- A subscription after a number, to a run that a process goes on with. -/
def start (E : StoredEvents) (after : Int) : AgentStream :=
  { writes := { items := E.items }, published := E.items, after := after, position := after }

variable (S : AgentStream)

/-- The events after the cursor that a search would find, in order. -/
def visible : List (Numbered Event) :=
  (S.writes.items.filter (Lib.isAfter Numbered.number (some S.after))).insertionSort fun x y => x.number ≤ y.number

/-- How many events a search of `query_events` gives back. -/
def eventPageSize : Nat := 1000

/-- The subscriber yields an event, and ends with the terminal one. -/
def yieldEvent (x : Numbered Event) (phase : SubscriberPhase) : AgentStream :=
  { S with
    yielded := S.yielded ++ [x]
    position := x.number
    phase := if x.isTerminal then .returned else phase
    listed := S.listed && !x.isTerminal }

/-- The subscriber takes the next entry of its queue. -/
def takeNext : Option AgentStream :=
  match S.queue with
  | [] => none
  | none :: queue => some { S with queue := queue, phase := .returned, listed := false }
  | some x :: queue =>
    if x.number ≤ S.position then some { S with queue := queue, phase := .live }
    else some ({ S with queue := queue }.yieldEvent x .live)

/-- The state after an action, if it is possible. -/
def step : SubscriptionAction → Option AgentStream
  | .publish e =>
    if S.published.any Numbered.isTerminal then none
    else
      let x : Numbered Event := ⟨S.writes.nextSequence, e⟩
      some { S with
        writes := S.writes.append e
        published := S.published ++ [x]
        queue := if S.listed then S.queue ++ [some x] else S.queue
        closing := if e.isStop then .ticks else S.closing }
  | .arrive i => (S.writes.arrive i).map fun W => { S with writes := W }
  | .respond i ok => (S.writes.respond i ok).map fun W => { S with writes := W }
  | .lose i => (S.writes.lose i).map fun W => { S with writes := W }
  | .regroup => some { S with writes := { S.writes with pending := [] } }
  | .closeTicks ok =>
    if S.closing = .ticks then
      if ok then some { S with closing := .events S.writes.pending, writes := { S.writes with pending := [] } }
      else some { S with closing := .done }
    else none
  | .close => match S.closing with
    | .events tasks =>
      if S.writes.haveFinished tasks then
        if S.writes.anyFailed tasks then some { S with closing := .done }
        else some { S with
          closing := .done
          queue := if S.listed then S.queue ++ [none] else S.queue
          listed := false
          writes := { S.writes with counter := none } }
      else none
    | _ => none
  | .subscribe =>
    if S.phase = .idle then
      some { S with
        phase := .regrouping S.writes.pending
        writes := { S.writes with pending := [] }
        listed := true
        registered := S.published.length }
    else none
  | .search => match S.phase with
    | .regrouping tasks =>
      if S.writes.haveFinished tasks then
        if S.writes.anyFailed tasks then some { S with phase := .raised, listed := false }
        else some { S with phase := .backfilling (S.visible.take eventPageSize) }
      else none
    | _ => none
  | .yield => match S.phase with
    | .backfilling (x :: rest) => some (S.yieldEvent x (.backfilling rest))
    | _ => none
  | .take => match S.phase with
    | .backfilling [] => S.takeNext
    | .live => S.takeNext
    | _ => none

/-- The events to deliver: those after the cursor. -/
def due : List (Numbered Event) := Lib.above Numbered.number (fun _ => true) S.after S.published

/-- The events to deliver that were broadcast before the subscriber registered. -/
def missed : List (Numbered Event) :=
  Lib.above Numbered.number (fun _ => true) S.after (S.published.take S.registered)

/-- Whether an action lets the subscription deliver: a search finds all that the subscriber has missed and nothing behind a gap, and
no more than a page; the terminal event comes after the cursor. -/
def delivers : SubscriptionAction → Bool
  | .publish e => !e.isStop || decide (S.after < S.writes.nextSequence)
  | .search => S.visible.isPrefixOf S.due && decide (S.missed.length ≤ S.visible.length) &&
      decide (S.visible.length ≤ eventPageSize)
  | _ => true

end AgentStream

end LlamaAgents
