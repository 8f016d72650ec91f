import LlamaAgents.EventObjects

/-!
# Events on the wire

`EventEnvelope` of the client's protocol, what `WorkflowClient` sends, and what the server makes of it. A bare event is the dump of
the instance, an envelope has the dump and the name of the class. The text of a request is taken to give back the value that it was
made from.
-/

namespace LlamaAgents

open Lib (Dict Json)

/-! ## Envelopes -/

/-- `EventEnvelope`. -/
structure EventEnvelope where
  value : Json
  type : Option String := none
  qualifiedName : Option String := none

/-- Why client data is no event: the parts of the message of `EventValidationError`, or an exception of the import. -/
inductive ParseError where
  | notAnObject
  | invalidType (type : String) (expected : List String)
  | notAnEvent (qualifiedName : String)
  | invalidData
  | noQualifier
  | importFailed (qualifiedName : String)
deriving DecidableEq

/-- The text of an error. What a validation says is left out. -/
def ParseError.text : ParseError → String
  | notAnObject => "Failed to deserialize event. Must be a json object, or stringified json object"
  | invalidType type expected => "Invalid event type: " ++ type ++ ". Expected one of " ++ ", ".intercalate expected
  | notAnEvent qualifiedName =>
    "Invalid client data. Qualified name " ++ qualifiedName ++ " does not correspond to an Event subclass"
  | invalidData => "Failed to deserialize event: "
  | noQualifier => "Invalid client data. Must have a type or a qualified name, got \x7bevent\x7d"
  | importFailed qualifiedName => qualifiedName

namespace EventEnvelope

/-- A text, null or nothing. -/
def optionalText : Option Json → Option (Option String)
  | none | some .null => some none
  | some (.str s) => some (some s)
  | _ => none

/-- `_format_compatibility`: an older name of the value. -/
def formatCompatibility (entries : List (String × Json)) : List (String × Json) :=
  match Dict.lookup "value" entries, Dict.lookup "data" entries with
  | none, some v => Dict.put "value" v entries
  | _, _ => entries

/-- `model_validate` of an envelope. -/
def modelValidate (entries : List (String × Json)) : Option EventEnvelope :=
  let entries := formatCompatibility entries
  (Dict.lookup "value" entries).bind fun value =>
    (optionalText (Dict.lookup "type" entries)).bind fun type =>
      (optionalText (Dict.lookup "qualified_name" entries)).map fun qualifiedName => ⟨value, type, qualifiedName⟩

/-- `from_event`. -/
def fromEvent (e : EventObj) : EventEnvelope := { value := e.dumpJson, type := some e.type.name }

/-- `model_dump` of an envelope. -/
def modelDump (v : EventEnvelope) : Json :=
  let text : Option String → Json := fun s => (s.map fun s => Json.str s).getD .null
  .dict [("value", v.value), ("type", text v.type), ("qualified_name", text v.qualifiedName)]

/-- A text that is there and not empty. -/
def present (s : Option String) : Option String := s.filter fun s => s ≠ ""

variable (loads : String → Option Json) (importClass : String → Option (Option EventClass))

/-- The event of an envelope, by its type or else by its qualified name. The import of a qualified name raises, or gives a class that
is or is not an event class. -/
def load (registry : Dict String EventClass) (v : EventEnvelope) : Except (List ParseError) EventObj :=
  let validated : EventClass → List ParseError → Except (List ParseError) EventObj := fun C errors =>
    match C.modelValidate v.value with
    | some e => .ok e
    | none => .error (errors ++ [.invalidData])
  let byName : List ParseError → Except (List ParseError) EventObj := fun errors =>
    match present v.qualifiedName with
    | none => .error (if errors.isEmpty then [.noQualifier] else errors)
    | some name =>
      match importClass name with
      | none => .error [.importFailed name]
      | some none => .error (errors ++ [.notAnEvent name])
      | some (some C) => validated C errors
  match present v.type with
  | none => byName []
  | some name =>
    match registry.get? name with
    | none => byName [.invalidType name registry.keys]
    | some C => validated C []

/-- Whether some entries are not those of an envelope. -/
def missingQualifiers (entries : List (String × Json)) : Bool :=
  (!(Dict.lookup "qualified_name" entries).isSome || !(Dict.lookup "type" entries).isSome) &&
    !(Dict.lookup "value" entries).isSome

/-- `parse`, of an object: one without the keys of an envelope is taken as the explicit event. -/
def parseObject (entries : List (String × Json)) (registry : Dict String EventClass) (explicitEvent : Option EventClass) :
    Except (List ParseError) EventObj :=
  let wrapped := match missingQualifiers entries, explicitEvent with
    | true, some C =>
      (if registry.contains C.type.name then registry else registry.set C.type.name C,
        [("type", Json.str C.type.name), ("value", .dict entries)])
    | _, _ => (registry, entries)
  match modelValidate wrapped.2 with
  | none => .error [.invalidData]
  | some v => v.load importClass wrapped.1

/-- `parse`. -/
def parse (clientData : Json) (registry : Dict String EventClass) (explicitEvent : Option EventClass) :
    Except (List ParseError) EventObj :=
  let data := match clientData with
    | .str s => (loads s).getD (.str s)
    | data => data
  match data with
  | .dict entries => parseObject importClass entries registry explicitEvent
  | _ => .error [.notAnObject]

end EventEnvelope

/-! ## Client and server -/

/-- `_serialize_event`, of an event; there is none when the encoder of the request refuses it. -/
def serializeEvent (e : EventObj) (bare : Bool) : Option Json :=
  if bare then e.dumpPlain else some (EventEnvelope.fromEvent e).modelDump

/-- Whether a bare event is not taken for an envelope, and is encoded as in a dump for JSON: it has no field with the name of an
envelope's value, and not both fields with the names of its qualifiers. -/
structure EventObj.SurvivesBare (e : EventObj) : Prop where
  noValue : "value" ∉ e.fields.map Prod.fst
  noQualifiers : ¬ ("qualified_name" ∈ e.fields.map Prod.fst ∧ "type" ∈ e.fields.map Prod.fst)
  encoded : ∀ p ∈ e.fields, p.2.encodePlain = some p.2.dumpJson

/-- The body that `run_workflow` sends with a start event. -/
def runWorkflowBody (e : EventObj) : Option Json :=
  (serializeEvent e true).map fun d => .dict [("start_event", d), ("context", .dict [])]

/-- The body that `run_workflow_nowait` sends with a start event. -/
def runWorkflowNowaitBody (e : EventObj) : Option Json :=
  (serializeEvent e false).map fun d => .dict [("start_event", d), ("context", .dict [])]

/-- The body that `send_event` sends. -/
def sendEventBody (e : EventObj) : Option Json := (serializeEvent e false).map fun d => .dict [("event", d)]

/-- An entry of a request body. -/
def bodyGet (key : String) : Json → Option Json
  | .dict entries => Dict.lookup key entries
  | _ => none

variable (loads : String → Option Json) (importClass : String → Option (Option EventClass))

/-- The data of the start event in the body of a request. -/
def startEventData (body : Json) : Json :=
  let runKwargs := (bodyGet "kwargs" body).getD (.dict [])
  (bodyGet "start_event" body).getD runKwargs

/-- The start event in `_extract_run_params`, or the detail of a 400 response. -/
def extractStartEvent (registry : Dict String EventClass) (startEventClass : EventClass) (body : Json) :
    Except String (Option EventObj) :=
  match startEventData body with
  | .null => .ok none
  | data =>
    match EventEnvelope.parse loads importClass data registry (some startEventClass) with
    | .error errors => .error ("Validation error for 'start_event': " ++ " ".intercalate (errors.map ParseError.text))
    | .ok e =>
      if e.type.isSubclass startEventClass.type then .ok (some e)
      else .error ("Start event must be an instance of " ++ startEventClass.type.qualname)

/-- The event in `_post_event`, or the detail of a 400 response. -/
def postedEvent (registry : Dict String EventClass) (body : Json) : Except String EventObj :=
  match (bodyGet "event" body).filter Json.isTruthy with
  | none => .error "Event data is required"
  | some data =>
    match EventEnvelope.parse loads importClass data registry none with
    | .error errors => .error (" ".intercalate (errors.map ParseError.text))
    | .ok e => .ok e

end LlamaAgents
