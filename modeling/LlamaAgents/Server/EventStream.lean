import LlamaAgents.Lib.Run
import LlamaAgents.Lib.Window
import LlamaAgents.Server.Handlers

/-!
# Streaming the events of a run

A run appends its events to a log of the store; before its terminal event it writes the terminal status of its handler. The
server answers a request for events in several reads (`_resolve_event_stream`), then follows the log (`subscribe_events`). The
client reconnects with the number of the last event it has got (`get_workflow_events`). All three take turns here. What a read
of the store answers is part of the action: `AgentDataStore` may leave events out.
-/

namespace LlamaAgents

/-! ## The log -/

/-- `StoredEvent`, without its run and its time. -/
structure StoredEvent where
  sequence : Nat
  event : Event
deriving DecidableEq

/-- `_is_terminal_event`. -/
def StoredEvent.isTerminal (e : StoredEvent) : Bool := e.event.isStop

/-- The number of a stored event, to compare with a cursor. -/
def StoredEvent.number (e : StoredEvent) : Int := e.sequence

/-- The stored events of a run, numbered from zero without a gap. -/
structure EventLog where
  events : List StoredEvent
  numbered : events.map StoredEvent.sequence = List.range events.length

namespace EventLog

/-- No event is stored. -/
def empty : EventLog := ⟨[], rfl⟩

variable (l : EventLog)

/-- The number of the next event: one more than that of the last. -/
def nextSequence : Nat := (l.events.getLast?.map fun e => e.sequence + 1).getD 0

theorem nextSequence_eq : l.nextSequence = l.events.length := by
  have hlast : (l.events.map StoredEvent.sequence).getLast? = (List.range l.events.length).getLast? := by rw [l.numbered]
  rw [List.getLast?_map] at hlast
  rw [nextSequence, ← Function.comp_def (fun n : Nat => n + 1) StoredEvent.sequence, ← Option.map_map, hlast]
  cases l.events.length with
  | zero => rfl
  | succ n => rw [List.range_succ, List.getLast?_concat, Option.map_some, Option.getD_some]

/-- `append_event`. -/
def append (e : Event) : EventLog where
  events := l.events ++ [⟨l.nextSequence, e⟩]
  numbered := by
    rw [List.map_append, l.numbered, List.length_append, List.map_singleton, l.nextSequence_eq]
    exact List.range_succ.symm

/-- `query_events`, after a cursor. -/
def after (n : Int) : List StoredEvent := l.events.filter fun e => decide (n < e.number)

/-- Whether the last event is terminal. -/
def isComplete : Bool := l.events.getLast?.any StoredEvent.isTerminal

end EventLog

/-! ## The run, the server and the client -/

/-- Where to start streaming: at the end, or after a number. -/
inductive Cursor where
  | now
  | after (n : Int)
deriving DecidableEq

/-- What the client asks for, and whether the store is an `AgentDataStore`. -/
structure StreamOptions where
  includeInternal : Bool := false
  maxReconnectAttempts : Nat := 3
  isAgentData : Bool := false

/-- Whether an event is streamed. -/
def StreamOptions.isVisible (opts : StreamOptions) (e : StoredEvent) : Bool :=
  opts.includeInternal || !e.event.isInstance (.ofName "InternalDispatchEvent")

/-- Whether a query for some events can be answered so. `AgentDataStore` reads one page, and no event whose write is under way or
has failed; the other stores answer with all. -/
def StreamOptions.canAnswer (opts : StreamOptions) (found events : List StoredEvent) : Bool :=
  if opts.isAgentData then decide (found.Sublist events) else decide (found = events)

/-- Where a request for events is. -/
inductive StreamPhase where
  /-- The client is about to connect. -/
  | connecting
  /-- The server has read the row of the handler. -/
  | resolving (status : Status)
  /-- It has resolved the cursor. -/
  | resolved (status : Status) (after : Int)
  /-- It has found no event after the cursor, and is about to read all events. -/
  | checking (status : Status) (after : Int)
  /-- It follows the log: how far it has got, what was sent and not received yet, and whether it has sent the terminal event. -/
  | streaming (position : Int) (inFlight : List StoredEvent) (closed : Bool)
  /-- The stream has ended without an error. -/
  | done
  /-- The stream has ended with an error. -/
  | failed
deriving DecidableEq

/-- A run whose events a client streams: the log, the status of the handler, the terminal event that the run is about to append;
the client's cursor, its failed attempts, what it has delivered, and its request. The number that the stream starts after is
kept beside: that of the cursor, or, for a stream opened at the end, that of the first successful connection. -/
structure EventStreamRun where
  log : EventLog := .empty
  status : Status := .running
  publishing : Option Event := none
  cursor : Cursor
  attempts : Nat := 0
  delivered : List StoredEvent := []
  phase : StreamPhase := .connecting
  base : Option Int

/-- What can happen. -/
inductive StreamAction where
  /-- `write_to_event_stream`, up to the status update of a terminal event. -/
  | publish (e : Event)
  /-- The event is appended after its status update. -/
  | store
  /-- The reads of `_resolve_event_stream`, in their order, with what the store answers. -/
  | readRow
  | readCursor (found : List StoredEvent)
  | readRemaining (found : List StoredEvent)
  | readAll (found : List StoredEvent)
  /-- The server sends an event. -/
  | send (e : StoredEvent)
  /-- The client receives what was sent first. -/
  | receive
  /-- The server ends the response, and the client has received all of it. -/
  | close
  /-- The connection is lost, or not made. -/
  | drop
deriving DecidableEq

namespace EventStreamRun

/-- A client that opens a stream of a new run. The requests may come at any later time. -/
def start (cursor : Cursor) : EventStreamRun where
  cursor := cursor
  base := match cursor with
    | .now => none
    | .after n => some n

variable (opts : StreamOptions) (S : EventStreamRun)

/-- The cursor as the server resolves it: the end of the log is that of the events it has read. -/
def resolvedCursor (found : List StoredEvent) : Int :=
  match S.cursor with
  | .now => (found.getLast?.map StoredEvent.number).getD (-1)
  | .after n => n

/-- The event that comes after a position. -/
def nextEvent (position : Int) : Option StoredEvent := S.log.events.find? fun e => decide (position < e.number)

/-- A response that streams what comes after a number. The client counts its attempts anew. -/
def opened (after : Int) : EventStreamRun :=
  { S with phase := .streaming after [] false, attempts := 0, base := S.base <|> some after }

/-- The effect of an action, if it can happen. A run appends nothing after its terminal event. The subscription of an
`AgentDataStore` follows a queue after one page of the log: it may skip events, and end without the terminal one. -/
def step : StreamAction → Option EventStreamRun
  | .publish e =>
    if S.publishing.isSome || S.log.isComplete then none
    else match e.statusUpdate? with
      | some u => some { S with status := u.status, publishing := some e }
      | none => some { S with log := S.log.append e }
  | .store => S.publishing.map fun e => { S with log := S.log.append e, publishing := none }
  | .readRow => match S.phase with
    | .connecting => some { S with phase := .resolving S.status }
    | _ => none
  | .readCursor found => match S.phase with
    | .resolving status =>
      if opts.canAnswer found S.log.events then some { S with phase := .resolved status (S.resolvedCursor found) } else none
    | _ => none
  | .readRemaining found => match S.phase with
    | .resolved status after =>
      if !opts.canAnswer found (S.log.after after) then none
      else if found.isEmpty then some { S with phase := .checking status after } else some (S.opened after)
    | _ => none
  | .readAll found => match S.phase with
    | .checking status after =>
      if !opts.canAnswer found S.log.events then none
      -- 204, or a stream that waits for more
      else if status.isTerminal || found.getLast?.any StoredEvent.isTerminal then
        some { S with phase := .done, base := S.base <|> some after }
      else some (S.opened after)
    | _ => none
  | .send e => match S.phase with
    | .streaming position inFlight false =>
      if S.nextEvent position = some e ∨ opts.isAgentData ∧ e ∈ S.log.after position then some
        { S with phase := .streaming e.number (inFlight ++ if opts.isVisible e then [e] else []) e.isTerminal }
      else none
    | _ => none
  | .receive => match S.phase with
    | .streaming position (e :: rest) closed =>
      some { S with phase := .streaming position rest closed, delivered := S.delivered ++ [e], cursor := .after e.number }
    | _ => none
  | .close => match S.phase with
    | .streaming _ [] closed => if closed || opts.isAgentData then some { S with phase := .done } else none
    | _ => none
  | .drop => match S.phase with
    | .done | .failed => none
    | _ =>
      if S.attempts + 1 > opts.maxReconnectAttempts then some { S with phase := .failed }
      else some { S with phase := .connecting, attempts := S.attempts + 1 }

/-- The visible events that come after a number. -/
def visibleAfter (b : Int) : List StoredEvent := Lib.above StoredEvent.number opts.isVisible b S.log.events

/-- Whether an action keeps a stream complete: a terminal event is visible; the store answers with all events, sends the next one
and ends after the terminal one; when the server looks for remaining events and has read a terminal status, the terminal event is
stored; when it goes on to read all events, none has come after the cursor; and a connection at the end of the log is not lost
before it has delivered something. -/
def sparesStream : StreamAction → Bool
  | .publish e => !e.isStop || opts.isVisible ⟨0, e⟩
  | .readCursor found => decide (found = S.log.events)
  | .readRemaining found => match S.phase with
    | .resolved status after => decide (found = S.log.after after) && (!status.isTerminal || S.log.isComplete)
    | _ => true
  | .readAll found => match S.phase with
    | .checking _ after => decide (found = S.log.events) && (S.log.after after).isEmpty
    | _ => true
  | .send e => match S.phase with
    | .streaming position _ _ => decide (S.nextEvent position = some e)
    | _ => true
  | .close => match S.phase with
    | .streaming _ _ closed => closed
    | _ => true
  | .drop => !(decide (S.cursor = .now) && S.base.isSome)
  | _ => true

end EventStreamRun

end LlamaAgents
