import LlamaAgents.EventObjects

/-!
# The JSON serializer

`JsonSerializer` of `workflows/context/serializers.py`, on values that are built from JSON values and events with lists and
dictionaries. An event becomes a dictionary with its dump, its qualified name and a mark; so does an object that has a `class_name`,
with another mark. A dictionary with such a mark and a qualified name is taken for a serialized object. The text of a value is taken
to give back the value that it was made from.
-/

namespace LlamaAgents

open Lib (Dict Json)

/-- A value that is serialized. -/
inductive PyValue where
  | null
  | bool (b : Bool)
  | num (n : Int)
  | str (s : String)
  | event (e : EventObj)
  | list (items : List PyValue)
  | dict (entries : List (String × PyValue))

/-- The entries of `_data`. -/
def EventObj.dataEntries (e : EventObj) : List (String × Json) :=
  match e.data with
  | .dict entries => entries
  | _ => []

/-- `hasattr`, of a name that is no private attribute: the class has it, or it is a declared or a dynamic field. -/
def EventObj.hasAttr (e : EventObj) (name : String) : Bool :=
  e.classAttributes.contains name || (e.fields.map Prod.fst).contains name || (Dict.lookup name e.dataEntries).isSome

/-- What an event is serialized to. An object with a `class_name` is taken for a component, whose `to_dict` is the dictionary of the
dynamic fields here. -/
def EventObj.serialize (e : EventObj) : Json :=
  if e.hasAttr "class_name" then
    .dict [("__is_component", .bool true), ("value", e.data), ("qualified_name", .str e.type.qualname)]
  else .dict [("__is_pydantic", .bool true), ("value", e.dumpJson), ("qualified_name", .str e.type.qualname)]

mutual

/-- `serialize_value`. -/
def serializeValue : PyValue → Json
  | .null => .null
  | .bool b => .bool b
  | .num n => .num n
  | .str s => .str s
  | .event e => e.serialize
  | .list items => .list (serializeItems items)
  | .dict entries => .dict (serializeEntries entries)

def serializeItems : List PyValue → List Json
  | [] => []
  | v :: l => serializeValue v :: serializeItems l

/-- The entries of a dictionary, serialized. -/
def serializeEntries : List (String × PyValue) → List (String × Json)
  | [] => []
  | (k, v) :: l => (k, serializeValue v) :: serializeEntries l

end

/-- Whether a dictionary has the marks of a serialized object. -/
def hasMarks (entries : List (String × Json)) : Bool :=
  ((Dict.lookup "__is_pydantic" entries).any Json.isTruthy || (Dict.lookup "__is_component" entries).any Json.isTruthy) &&
    (Dict.lookup "qualified_name" entries).any Json.isTruthy

section Deserialize

variable (allowedTypeNames : Option (List String)) (importClass : String → Option (Option EventClass))

/-- The class of a qualified name, if it is allowed, can be imported, and is an event class. -/
def allowedClass (qualifiedName : Json) : Option EventClass :=
  match qualifiedName with
  | .str name => if allowedTypeNames.all fun names => names.contains name then (importClass name).bind id else none
  | _ => none

/-- The object of a dictionary with a mark. An event class has no `from_dict`. -/
def deserializeMarked (entries : List (String × Json)) : Option EventObj :=
  if (Dict.lookup "__is_pydantic" entries).any Json.isTruthy then
    (Dict.lookup "qualified_name" entries).bind fun name => (allowedClass allowedTypeNames importClass name).bind fun C =>
      (Dict.lookup "value" entries).bind C.modelValidate
  else none

mutual

/-- `deserialize_value`; there is none when it raises. -/
def deserializeValue : Json → Option PyValue
  | .null => some .null
  | .bool b => some (.bool b)
  | .num n => some (.num n)
  | .str s => some (.str s)
  | .list items => (deserializeItems items).map .list
  | .dict entries =>
    if hasMarks entries then (deserializeMarked allowedTypeNames importClass entries).map .event
    else (deserializeEntries entries).map .dict

def deserializeItems : List Json → Option (List PyValue)
  | [] => some []
  | v :: l => (deserializeValue v).bind fun v => (deserializeItems l).map fun l => v :: l

/-- The entries of a dictionary, deserialized. -/
def deserializeEntries : List (String × Json) → Option (List (String × PyValue))
  | [] => some []
  | (k, v) :: l => (deserializeValue v).bind fun v => (deserializeEntries l).map fun l => (k, v) :: l

end

/-- Whether an event is of the class that its qualified name leads to, and that class is allowed. -/
def EventObj.IsKnown (e : EventObj) : Prop :=
  e.type.qualname ≠ "" ∧ ∃ C, allowedClass allowedTypeNames importClass (.str e.type.qualname) = some C ∧ e.IsOf C

/-- Whether the dump of an event has all there is, and it is not taken for a component. -/
def EventObj.Survives (e : EventObj) : Prop :=
  (∀ C, allowedClass allowedTypeNames importClass (.str e.type.qualname) = some C → e.DumpsAll C) ∧ e.hasAttr "class_name" = false

mutual

/-- Whether every event in a value has a property, and every dictionary another one. -/
def PyValue.All (p : EventObj → Prop) (q : List (String × PyValue) → Prop) : PyValue → Prop
  | .event e => p e
  | .list items => itemsAll p q items
  | .dict entries => q entries ∧ entriesAll p q entries
  | _ => True

def itemsAll (p : EventObj → Prop) (q : List (String × PyValue) → Prop) : List PyValue → Prop
  | [] => True
  | v :: l => v.All p q ∧ itemsAll p q l

/-- Whether every value of a dictionary has them. -/
def entriesAll (p : EventObj → Prop) (q : List (String × PyValue) → Prop) : List (String × PyValue) → Prop
  | [] => True
  | (_, v) :: l => v.All p q ∧ entriesAll p q l

end

/-- Whether every event in a value is of a known class. -/
def PyValue.IsKnown : PyValue → Prop := PyValue.All (EventObj.IsKnown allowedTypeNames importClass) fun _ => True

/-- Whether every event in a value survives, and no dictionary in it has the marks of a serialized object. -/
def PyValue.Survives : PyValue → Prop :=
  PyValue.All (EventObj.Survives allowedTypeNames importClass) fun entries => hasMarks (serializeEntries entries) = false

end Deserialize

end LlamaAgents
