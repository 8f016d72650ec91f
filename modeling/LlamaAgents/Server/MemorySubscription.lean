import LlamaAgents.Server.EventStream

/-!
# Subscribers of the memory store

`subscribe_events` of `MemoryWorkflowStore`, for the events of one run. A subscriber reads the list of events from an index on, gives
out what it finds one by one, and sleeps on a condition when there is nothing. `append_event` adds to the list and notifies the
condition; an eviction drops the list. Conditions stand in a weak dictionary: one lives as long as a subscriber holds it. Nobody
awaits anything while the lock of the condition is held, except the sleep, which gives it back; so each part between two awaits
runs at once.
-/

namespace LlamaAgents

/-- Where a subscriber is. -/
inductive ReaderPhase where
  /-- It has not been asked for anything. -/
  | opened
  /-- It has given out an event, and the others of its batch are to follow. -/
  | reading (event : StoredEvent) (batch : List StoredEvent)
  /-- It sleeps on the condition. -/
  | parked
  /-- It was notified. -/
  | notified
  /-- It has returned, or was closed. -/
  | ended
deriving DecidableEq

/-- A subscriber: its argument, its index into the list, and the condition that it holds. Where in all events of the run it has started,
and what it has given out, is kept beside. -/
structure Subscriber where
  afterSequence : Int
  phase : ReaderPhase := .opened
  cursor : Nat := 0
  condition : Option Nat := none
  start : Nat := 0
  yielded : List StoredEvent := []
deriving DecidableEq

/-- A subscriber that has ended holds no condition. -/
def Subscriber.ends (s : Subscriber) : Subscriber := { s with phase := .ended, condition := none }

/-- Whether a subscriber does not look at the list again that it has seen: it has not begun, has ended, or ends with its batch. -/
def Subscriber.leavesList (s : Subscriber) : Bool :=
  match s.phase with
  | .opened | .ended => true
  | .reading event batch => (event :: batch).any StoredEvent.isTerminal
  | .parked | .notified => false

/-- The list of a run, if there is one, the condition of the run in the weak dictionary, and the subscribers. All events that were ever
appended are kept beside. -/
structure SubscribedRun where
  log : Option EventLog := none
  current : Option Nat := none
  conditions : Nat := 0
  subscribers : List Subscriber := []
  appended : List StoredEvent := []

/-- What can happen. -/
inductive SubscriberAction where
  | subscribe (afterSequence : Int)
  | append (event : Event)
  /-- The run is evicted. -/
  | evict
  /-- A subscriber is asked for the next event. -/
  | next (subscriber : Nat)
  /-- A subscriber that was notified runs. -/
  | wake (subscriber : Nat)
  /-- A subscriber is closed, or its task cancelled. -/
  | close (subscriber : Nat)

/-- The index that a subscriber starts from: after the last event whose number is not above the argument. -/
def startIndex (afterSequence : Int) (events : List StoredEvent) : Nat :=
  if 0 ≤ afterSequence then
    events.zipIdx.foldl (fun cursor x => if x.1.number ≤ afterSequence then x.2 + 1 else cursor) 0
  else 0

namespace SubscribedRun

variable (W : SubscribedRun)

/-- The events that a reader finds. -/
def events : List StoredEvent := (W.log.map EventLog.events).getD []

/-- Whether a condition is held by a subscriber. -/
def isHeld (condition : Nat) : Bool := W.subscribers.any fun s => s.condition = some condition

/-- What the weak dictionary has for the run. -/
def condition? : Option Nat := W.current.filter W.isHeld

/-- A subscriber looks at the list: it gives out the first event after its index, or sleeps. -/
def look (s : Subscriber) : Subscriber :=
  match W.events.drop s.cursor with
  | [] => { s with phase := .parked }
  | event :: batch => { s with phase := .reading event batch, yielded := s.yielded ++ [event] }

/-- `_get_or_create_condition`: the condition, and the state with it in the dictionary. -/
def getOrCreateCondition : Nat × SubscribedRun :=
  match W.condition? with
  | some condition => (condition, W)
  | none => (W.conditions, { W with current := some W.conditions, conditions := W.conditions + 1 })

/-- `notify_all`, when there is a condition. -/
def notifyAll : List Subscriber :=
  match W.condition? with
  | none => W.subscribers
  | some condition => W.subscribers.map fun s =>
      if s.phase = .parked && s.condition = some condition then { s with phase := .notified } else s

/-- The state with another subscriber in the place of one. -/
def put (i : Nat) (s : Subscriber) : SubscribedRun := { W with subscribers := W.subscribers.set i s }

/-- The start of a subscriber, up to its first event or its sleep. -/
def begin (i : Nat) (s : Subscriber) : SubscribedRun :=
  let cursor := startIndex s.afterSequence W.events
  let (condition, W) := W.getOrCreateCondition
  let start := W.appended.length - W.events.length + cursor
  W.put i (W.look { s with cursor := cursor, condition := some condition, start := start })

/-- A subscriber goes on after an event that it has given out. -/
def advance (s : Subscriber) (event : StoredEvent) (batch : List StoredEvent) : Subscriber :=
  let s := { s with cursor := s.cursor + 1 }
  if event.isTerminal then s.ends
  else
    match batch with
    | [] => W.look s
    | next :: rest => { s with phase := .reading next rest, yielded := s.yielded ++ [next] }

/-- The state after an action, if it is possible. -/
def step (W : SubscribedRun) : SubscriberAction → Option SubscribedRun
  | .subscribe afterSequence => some { W with subscribers := W.subscribers ++ [{ afterSequence := afterSequence }] }
  | .append event =>
    let log := W.log.getD .empty
    some { W with
      log := some (log.append event)
      subscribers := W.notifyAll
      appended := W.appended ++ [⟨log.nextSequence, event⟩] }
  | .evict => some { W with log := none }
  | .next i =>
    W.subscribers[i]?.bind fun s =>
      match s.phase with
      | .opened => some (W.begin i s)
      | .reading event batch => some (W.put i (W.advance s event batch))
      | _ => none
  | .wake i => W.subscribers[i]?.bind fun s => if s.phase = .notified then some (W.put i (W.look s)) else none
  | .close i => W.subscribers[i]?.map fun s => W.put i s.ends

/-- Every subscriber that sleeps has given out all events since its start, each once and in order, and is notified of the next one. -/
def ServesSleepers : Prop :=
  ∀ (i : Nat) (s : Subscriber), W.subscribers[i]? = some s → s.phase = .parked →
    s.yielded = W.appended.drop s.start ∧
    ∀ event W', W.step (.append event) = some W' → W'.subscribers[i]? = some { s with phase := .notified }

/-- Whether an action spares the subscribers: a list with events is evicted only when none of them will look at it again. -/
def sparesReaders : SubscriberAction → Bool
  | .evict => W.events.isEmpty || W.subscribers.all fun s => s.leavesList
  | _ => true

end SubscribedRun

end LlamaAgents
