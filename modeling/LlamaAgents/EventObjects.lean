import LlamaAgents.Events
import LlamaAgents.Lib.Json

/-!
# Event classes and their instances

The models of `workflows/events.py` with their hooks: how an instance is dumped, and how one is made from a dump. An event class
declares fields; what else an instance is given is kept in the dictionary `_data`. A stop event has a result besides, and a dump of its
own, which has the result in it but not `_data`.
-/

namespace LlamaAgents

open Lib (Dict Json)

/-- The value of a declared field: a JSON value, or another object, such as a time, an enum or a nested model, with the value that a
dump for JSON gives, and the one that the encoder of a request makes of it in a plain dump, unless it refuses it. -/
inductive EventValue where
  | json (value : Json)
  | object (text : String) (dumped : Json) (encoded : Option Json)

/-- The value in a dump for JSON. -/
def EventValue.dumpJson : EventValue → Json
  | json value => value
  | object _ dumped _ => dumped

/-- What the encoder of a request makes of the value in a plain dump. -/
def EventValue.encodePlain : EventValue → Option Json
  | json value => some value
  | object _ _ encoded => encoded

/-- A declared field: its default, its instances, and its validation, which gives back an instance from its dump. -/
structure EventField where
  default : Option EventValue := none
  isInstance : EventValue → Bool
  validate : Json → Option EventValue
  validate_dump : ∀ x, isInstance x = true → validate x.dumpJson = some x

/-- The value of a field that is given or not. A default is not validated. -/
def EventField.given (f : EventField) : Option Json → Option EventValue
  | some v => f.validate v
  | none => f.default

/-- An event class: its name, qualified name and bases, its declared fields, and the names of its methods and class variables. A name
with a leading underscore declares no field. -/
structure EventClass where
  type : EventType
  fields : Dict String EventField
  attributes : List String := []
  named : type.name ≠ ""
  undeclared : "_data" ∉ fields.keys ∧ "_result" ∉ fields.keys

/-- Whether the class is `StopEvent` or derives from it. -/
def EventType.isStop (t : EventType) : Bool := t.isSubclass .stopEvent

/-- An instance: its class with its attributes, the declared fields in order, `_data`, and for a stop event `_result`. -/
structure EventObj where
  type : EventType
  classAttributes : List String := []
  fields : List (String × EventValue)
  data : Json := .dict []
  result : Json := .null

namespace EventObj

/-- An instance of a class: its fields are those that the class declares, with instances of them, `_data` is a dictionary, and only a
stop event has a result. -/
structure IsOf (e : EventObj) (C : EventClass) : Prop where
  type : e.type = C.type
  attributes : e.classAttributes = C.attributes
  names : e.fields.map Prod.fst = C.fields.keys
  values : ∀ p ∈ e.fields, ∀ f, C.fields.get? p.1 = some f → f.isInstance p.2 = true
  data : ∃ entries, e.data = .dict entries
  result : e.type.isStop = false → e.result = .null

/-- The declared fields in a dump for JSON. -/
def fieldEntries (e : EventObj) : List (String × Json) := e.fields.map fun p => (p.1, p.2.dumpJson)

/-- `custom_model_dump` of an event: `_data` is left out when it is empty. -/
def withData (e : EventObj) (entries : List (String × Json)) : List (String × Json) :=
  match e.data with
  | .dict [] => entries
  | data => Dict.put "_data" data entries

/-- `custom_model_dump` of a stop event: the result is left out when there is none. -/
def withResult (e : EventObj) (entries : List (String × Json)) : List (String × Json) :=
  match e.result with
  | .null => entries
  | result => Dict.put "result" result entries

/-- `custom_model_dump`, with the declared fields as they are dumped. -/
def customModelDump (e : EventObj) (entries : List (String × Json)) : List (String × Json) :=
  if e.type.isStop then e.withResult entries else e.withData entries

/-- The entries of `model_dump` for JSON. -/
def dumpEntries (e : EventObj) : List (String × Json) := e.customModelDump e.fieldEntries

/-- `model_dump` for JSON. -/
def dumpJson (e : EventObj) : Json := .dict e.dumpEntries

/-- What the encoder of a request makes of `model_dump`, unless it refuses the value of a field. -/
def dumpPlain (e : EventObj) : Option Json :=
  (e.fields.mapM fun p : String × EventValue => p.2.encodePlain.map fun v => (p.1, v)).map fun entries => .dict (e.customModelDump entries)

/-- Whether there are dynamic fields. -/
def hasData (e : EventObj) : Bool :=
  match e.data with
  | .dict [] => false
  | _ => true

/-- Whether a dump has all there is: a stop event's has no dynamic fields, and a declared field with the name of the result is taken
for it, so that its value has to be the default. -/
def DumpsAll (e : EventObj) (C : EventClass) : Prop :=
  e.type.isStop → e.hasData = false ∧ ∀ x, ("result", x) ∈ e.fields →
    (C.fields.get? "result").bind EventField.default = some x ∧ (e.result = .null → x.dumpJson = .null)

end EventObj

namespace EventClass

/-- The declared fields of an instance that is made from some entries, in the order of their declaration. -/
def validateFields (entries : List (String × Json)) : List (String × EventField) → Option (List (String × EventValue))
  | [] => some []
  | (k, f) :: fields => (f.given (Dict.lookup k entries)).bind fun x =>
      (validateFields entries fields).map fun rest => (k, x) :: rest

/-- `_data` with the entries that are neither declared nor private. There is none if it is no dictionary and there are such entries. -/
def collectData (data : Json) (extra : List (String × Json)) : Option Json :=
  match extra, data with
  | [], data => some data
  | extra, .dict entries => some (.dict (extra.foldl (fun d p => Dict.put p.1 p.2 d) entries))
  | _, _ => none

/-- `DictLikeModel.__init__`, with some entries as its arguments. -/
def construct (C : EventClass) (entries : List (String × Json)) : Option EventObj :=
  (validateFields entries C.fields.entries).bind fun fields =>
    let extra := entries.filter fun p => !C.fields.contains p.1 && decide (p.1 ≠ "_data")
    (collectData ((Dict.lookup "_data" entries).getD (.dict [])) extra).map fun data =>
      { type := C.type, classAttributes := C.attributes, fields := fields, data := data }

/-- `model_validate`, which makes an instance with the entries as its arguments. A stop event takes the result out of them; it cannot
be given the private attribute besides. -/
def modelValidate (C : EventClass) : Json → Option EventObj
  | .dict entries =>
    if C.type.isStop then
      if (Dict.lookup "_result" entries).isSome then none
      else (C.construct (Dict.drop "result" entries)).map fun e => { e with result := (Dict.lookup "result" entries).getD .null }
    else C.construct entries
  | _ => none

end EventClass

end LlamaAgents
