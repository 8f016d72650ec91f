import LlamaAgents.Lib.Run
import LlamaAgents.Events

/-!
# The response that streams events

`format_stream` of `_stream_events`. A feeder task reads the subscription and puts its items into a queue, and a sentinel after the
last one. The response waits for the queue, with a timeout after which it sends a heartbeat. The subscription, the timer and the
consumer of the response take turns with both.
-/

namespace LlamaAgents

universe u v

/-- What a fetch of the next item ends with: an item, `StopAsyncIteration`, another exception, or a cancellation. -/
inductive Fetched (α : Type u) (ε : Type v) where
  | item (value : α)
  | ended
  | failed (exception : ε)
  | cancelled
deriving DecidableEq

/-- Whether a result is an exception or a cancellation. -/
def Fetched.isFailure {α : Type u} {ε : Type v} : Fetched α ε → Bool
  | .failed _ | .cancelled => true
  | _ => false

/-- Where the feeder task is: it runs, has finished, has failed, or was cancelled. -/
inductive FeederPhase (ε : Type v) where
  | running
  | finished
  | failed (exception : ε)
  | cancelled
deriving DecidableEq

/-- Where the response is: it waits for the queue, has yielded something, or is over. -/
inductive ResponsePhase where
  | waiting
  | yielding
  | finished
deriving DecidableEq

/-- A response: whether it is one of server-sent events, the heartbeat interval, the feeder, the queue with the sentinel as `none`,
where the response is, and what it has sent. -/
structure FormatStream (η : Type u) (ε : Type v) where
  sse : Bool
  heartbeatInterval : Option Time
  feeder : FeederPhase ε := .running
  queue : List (Option (Nat × η)) := []
  phase : ResponsePhase := .waiting
  sent : List String := []

/-- What can happen: the subscription gives the feeder an item, ends, or raises; the response gets an item from the queue, or its wait
times out; the consumer asks for more, or disconnects. -/
inductive FormatStreamAction (η : Type u) (ε : Type v) where
  | feed (result : Fetched (Nat × η) ε)
  | get
  | timeOut
  | resume
  | disconnect

namespace FormatStream

variable {η : Type u} {ε : Type v} (dumpJson : η → String)

/-- A response to a request, with the server's heartbeat interval. -/
def start (sse : Bool) (sseHeartbeatInterval : Option Time) : FormatStream η ε :=
  { sse := sse, heartbeatInterval := if sse then sseHeartbeatInterval else none }

/-- The text of a heartbeat. -/
def heartbeatText : String := ": heartbeat\n\n"

/-- The text of an event. -/
def eventText (sse : Bool) (item : Nat × η) : String :=
  if sse then "id: " ++ toString item.1 ++ "\ndata: " ++ dumpJson item.2 ++ "\n\n" else dumpJson item.2 ++ "\n"

/-- `_feed`: what the subscription gives goes into the queue, and the sentinel after the last item. -/
def feed (S : FormatStream η ε) : Fetched (Nat × η) ε → FormatStream η ε
  | .item item => { S with queue := S.queue ++ [some item] }
  | .ended => { S with queue := S.queue ++ [none], feeder := .finished }
  | .failed e => { S with feeder := .failed e }
  | .cancelled => { S with feeder := .cancelled }

/-- The effect of an action, if it can happen. -/
def step (S : FormatStream η ε) : FormatStreamAction η ε → Option (FormatStream η ε)
  | .feed r =>
    match S.feeder with
    | .running => some (S.feed r)
    | _ => none
  | .get =>
    match S.phase, S.queue with
    | .waiting, some item :: queue =>
      some { S with queue := queue, phase := .yielding, sent := S.sent ++ [eventText dumpJson S.sse item] }
    | .waiting, none :: queue => some { S with queue := queue, phase := .finished }
    | _, _ => none
  | .timeOut =>
    match S.phase, S.queue, S.heartbeatInterval with
    | .waiting, [], some _ => some { S with phase := .yielding, sent := S.sent ++ [heartbeatText] }
    | _, _, _ => none
  | .resume =>
    match S.phase with
    | .yielding => some { S with phase := .waiting }
    | _ => none
  | .disconnect =>
    match S.phase with
    | .finished => none
    | _ => some { S with phase := .finished, feeder := if let .running := S.feeder then .cancelled else S.feeder }

/-- Whether nothing can come any more, and the response goes on. -/
def IsStuck (S : FormatStream η ε) : Prop := S.feeder ≠ .running ∧ S.queue = [] ∧ S.phase ≠ .finished

/-- Whether the subscription does not raise. -/
def spares : FormatStreamAction η ε → Bool
  | .feed r => !r.isFailure
  | _ => true

end FormatStream

end LlamaAgents
