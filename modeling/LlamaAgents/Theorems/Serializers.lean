import LlamaAgents.Lemmas.EventObjects
import LlamaAgents.Serializers

/-!
# The event codec

What the serializer makes of an event gives the event back, alone and inside of lists and dictionaries.
-/

namespace LlamaAgents

open Lib (Dict Json)

namespace SerializersAux

open EventObjectsAux

variable {allowedTypeNames : Option (List String)} {importClass : String → Option (Option EventClass)}

/-- An event of a known class comes back from its dictionary exactly when it survives. -/
theorem deserialize_event_iff {e : EventObj} (hknown : e.IsKnown allowedTypeNames importClass) :
    deserializeValue allowedTypeNames importClass e.serialize = some (.event e) ↔ e.Survives allowedTypeNames importClass := by
  obtain ⟨hname, C, hC, he⟩ := hknown
  have hname : e.type.qualname.isEmpty = false := by
    rw [Bool.eq_false_iff, ne_eq, String.isEmpty_iff]
    exact hname
  rw [EventObj.Survives, hC, EventObj.serialize]
  cases hcomponent : e.hasAttr "class_name" with
  | true =>
    -- the mark of a component is not that of an event
    have hmarks : hasMarks [("__is_component", .bool true), ("value", e.data), ("qualified_name", .str e.type.qualname)] = true := by
      change (true && !e.type.qualname.isEmpty) = true
      rw [hname]
      rfl
    rw [if_pos rfl, deserializeValue, if_pos hmarks]
    exact iff_of_false nofun fun h => nomatch h.2
  | false =>
    have hmarks : hasMarks [("__is_pydantic", .bool true), ("value", e.dumpJson), ("qualified_name", .str e.type.qualname)] = true := by
      change ((true || _) && !e.type.qualname.isEmpty) = true
      rw [hname]
      rfl
    rw [if_neg Bool.false_ne_true, deserializeValue, if_pos hmarks]
    change ((allowedClass allowedTypeNames importClass (.str e.type.qualname)).bind fun C => C.modelValidate e.dumpJson).map
      PyValue.event = _ ↔ _
    rw [hC, Option.bind_some, Option.map_eq_some_iff]
    simp only [PyValue.event.injEq, exists_eq_right, modelValidate_dumpJson_iff he, Option.some.injEq, forall_eq', and_true]

mutual

/-- A value of known classes comes back exactly when it survives. -/
theorem deserialize_iff : ∀ {v : PyValue}, v.IsKnown allowedTypeNames importClass →
    (deserializeValue allowedTypeNames importClass (serializeValue v) = some v ↔ v.Survives allowedTypeNames importClass)
  | .null, _ | .bool _, _ | .num _, _ | .str _, _ => iff_of_true rfl trivial
  | .event _, h => deserialize_event_iff h
  | .list items, h => by
    rw [serializeValue, deserializeValue, Option.map_eq_some_iff]
    simp only [PyValue.list.injEq, exists_eq_right]
    exact deserialize_items_iff h
  | .dict entries, h => by
    rw [serializeValue, deserializeValue, PyValue.Survives, PyValue.All]
    cases hmarks : hasMarks (serializeEntries entries) with
    | true =>
      rw [if_pos rfl, Option.map_eq_some_iff]
      exact iff_of_false (fun h => nomatch h.choose_spec.2) fun h => nomatch h.1
    | false =>
      rw [if_neg Bool.false_ne_true, Option.map_eq_some_iff]
      simp only [PyValue.dict.injEq, exists_eq_right, true_and]
      exact deserialize_entries_iff h.2

theorem deserialize_items_iff : ∀ {l : List PyValue},
    itemsAll (EventObj.IsKnown allowedTypeNames importClass) (fun _ => True) l →
    (deserializeItems allowedTypeNames importClass (serializeItems l) = some l ↔
      itemsAll (EventObj.Survives allowedTypeNames importClass) (fun entries => hasMarks (serializeEntries entries) = false) l)
  | [], _ => iff_of_true rfl trivial
  | v :: l, h => by
    rw [serializeItems, deserializeItems, itemsAll, Option.bind_eq_some_iff]
    simp only [Option.map_eq_some_iff, List.cons.injEq, exists_eq_right_right]
    exact and_congr (deserialize_iff h.1) (deserialize_items_iff h.2)

theorem deserialize_entries_iff : ∀ {l : List (String × PyValue)},
    entriesAll (EventObj.IsKnown allowedTypeNames importClass) (fun _ => True) l →
    (deserializeEntries allowedTypeNames importClass (serializeEntries l) = some l ↔
      entriesAll (EventObj.Survives allowedTypeNames importClass) (fun entries => hasMarks (serializeEntries entries) = false) l)
  | [], _ => iff_of_true rfl trivial
  | (k, v) :: l, h => by
    rw [serializeEntries, deserializeEntries, entriesAll, Option.bind_eq_some_iff]
    simp only [Option.map_eq_some_iff, List.cons.injEq, Prod.mk.injEq, true_and, exists_eq_right_right]
    exact and_congr (deserialize_iff h.1) (deserialize_entries_iff h.2)

end

end SerializersAux

open SerializersAux

/-- The event codec is lossless. A value that is built from JSON values and events with lists and dictionaries, where each event is of
the class that its qualified name leads to, with any declared and dynamic fields, comes back from what the serializer makes of it
exactly when each event survives and none of its own dictionaries has the marks of a serialized object. An event survives when
neither it nor its class has an attribute `class_name` and, if it is a stop event, it has no dynamic fields and a declared field
`result` has its default. -/
theorem event_codec_lossless (allowedTypeNames : Option (List String)) (importClass : String → Option (Option EventClass)) (v : PyValue)
    (hknown : v.IsKnown allowedTypeNames importClass) :
    deserializeValue allowedTypeNames importClass (serializeValue v) = some v ↔ v.Survives allowedTypeNames importClass :=
  deserialize_iff hknown

open SampleEvents in
/-- A stop event comes back without its dynamic fields. An event with a dynamic field `class_name` does not come back at all. -/
theorem event_codec_lossless_false :
    (∃ e f : EventObj, e.IsOf (oneField .stopEvent "text" textField) ∧ e.hasData = true ∧ f.hasData = false ∧
      deserializeValue none (fun _ => some (some (oneField .stopEvent "text" textField))) (serializeValue (.event e)) =
        some (.event f)) ∧
    ∃ e : EventObj, e.IsOf (oneField .event "text" textField) ∧
      deserializeValue none (fun _ => some (some (oneField .event "text" textField))) (serializeValue (.event e)) = none :=
  ⟨⟨instanceOf .stopEvent "text" (.json (.str "v")) [("k", .num 1)] (.num 7), instanceOf .stopEvent "text" (.json (.str "v")) [] (.num 7),
      instanceOf_isOf rfl nofun, rfl, rfl, rfl⟩,
    instanceOf .event "text" (.json (.str "v")) [("class_name", .str "A")] .null, instanceOf_isOf rfl fun _ => rfl, rfl⟩

/-- A stop event with a result. -/
def SampleEvents.resulting : EventObj := instanceOf .stopEvent "text" (.json (.str "v")) [] (.list [.num 7])

open SampleEvents in
/-- It comes back inside of a dictionary. -/
theorem event_codec_lossless_nested :
    deserializeValue none (fun _ => some (some (oneField .stopEvent "text" textField)))
      (serializeValue (.dict [("last", .event resulting)])) = some (.dict [("last", .event resulting)]) := by
  have hknown : resulting.IsKnown none fun _ => some (some (oneField .stopEvent "text" textField)) :=
    ⟨by decide, _, rfl, instanceOf_isOf rfl nofun⟩
  refine (event_codec_lossless none _ (.dict [(_, .event _)]) ⟨trivial, hknown, trivial⟩).2
    ⟨rfl, ⟨fun C hC _ => ⟨rfl, fun x hx => ?_⟩, rfl⟩, trivial⟩
  exact absurd (Prod.mk.inj (List.mem_singleton.1 hx)).1 (by decide)

end LlamaAgents
