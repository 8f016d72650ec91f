import LlamaAgents.EventObjects

/-!
# The dump of an instance validates to it

The declared fields one after the other, then what the hooks of the class add to them: `_data`, or the result of a stop event.
-/

namespace LlamaAgents

open Lib (Dict Json)

namespace EventObjectsAux

variable {e : EventObj} {C : EventClass} {l : List (String × Json)}

/-! ## The entries of a dump -/

theorem keys_fieldEntries (e : EventObj) : e.fieldEntries.map Prod.fst = e.fields.map Prod.fst := by
  rw [EventObj.fieldEntries, List.map_map]
  rfl

theorem lookup_fieldEntries (he : e.IsOf C) {p : String × EventValue} (hp : p ∈ e.fields) :
    Dict.lookup p.1 e.fieldEntries = some p.2.dumpJson := by
  refine Dict.lookup_of_mem ?_ (List.mem_map.2 ⟨p, hp, rfl⟩)
  rw [keys_fieldEntries, he.names]
  exact C.fields.nodup

theorem lookup_fieldEntries_eq_none {k : String} (hk : k ∉ e.fields.map Prod.fst) : Dict.lookup k e.fieldEntries = none := by
  rw [Dict.lookup_eq_none_iff, keys_fieldEntries]
  exact hk

theorem lookup_withData {k : String} (hk : k ≠ "_data") (l : List (String × Json)) : Dict.lookup k (e.withData l) = Dict.lookup k l := by
  rw [EventObj.withData]
  split
  · rfl
  · rw [Dict.lookup_put, if_neg (Ne.symm hk)]

theorem lookup_withResult {k : String} (hk : k ≠ "result") (l : List (String × Json)) :
    Dict.lookup k (e.withResult l) = Dict.lookup k l := by
  rw [EventObj.withResult]
  split
  · rfl
  · rw [Dict.lookup_put, if_neg (Ne.symm hk)]

/-- What a dump has under a name that is neither declared nor one of the hooks' names. -/
theorem lookup_dumpEntries_eq_none {k : String} (hk : k ∉ e.fields.map Prod.fst) (hdata : k ≠ "_data") (hresult : k ≠ "result") :
    Dict.lookup k e.dumpEntries = none := by
  rw [EventObj.dumpEntries, EventObj.customModelDump]
  split
  · rw [lookup_withResult hresult, lookup_fieldEntries_eq_none hk]
  · rw [lookup_withData hdata, lookup_fieldEntries_eq_none hk]

/-! ## Construction -/

/-- The declared fields are validated one after the other. -/
theorem validateFields_eq_some_iff {fields : List (String × EventField)} {values : List (String × EventValue)} :
    EventClass.validateFields l fields = some values ↔
      List.Forall₂ (fun p f => p.1 = f.1 ∧ f.2.given (Dict.lookup f.1 l) = some p.2) values fields := by
  induction fields generalizing values with
  | nil =>
    rw [EventClass.validateFields, Option.some.injEq, List.forall₂_nil_right_iff]
    exact eq_comm
  | cons f fields ih =>
    rw [EventClass.validateFields, Option.bind_eq_some_iff, List.forall₂_cons_right_iff]
    constructor
    · rintro ⟨x, hx, h⟩
      obtain ⟨rest, hrest, rfl⟩ := Option.map_eq_some_iff.1 h
      exact ⟨(f.1, x), rest, ⟨rfl, hx⟩, ih.1 hrest, rfl⟩
    · rintro ⟨⟨k, x⟩, rest, ⟨rfl, hx⟩, hrest, rfl⟩
      exact ⟨x, hx, by rw [ih.2 hrest, Option.map_some]⟩

/-- The fields of an instance come back when each of them does. -/
theorem validateFields_instance (he : e.IsOf C) : EventClass.validateFields l C.fields.entries = some e.fields ↔
    ∀ p ∈ e.fields, ∀ f, C.fields.get? p.1 = some f → f.given (Dict.lookup p.1 l) = some p.2 := by
  have hnames : List.Forall₂ (fun p f => p.1 = f.1) e.fields C.fields.entries := by
    have heq : List.Forall₂ Eq (e.fields.map Prod.fst) (C.fields.entries.map Prod.fst) := by
      rw [List.forall₂_eq_eq_eq]
      exact he.names
    rwa [List.forall₂_map_left_iff, List.forall₂_map_right_iff] at heq
  obtain ⟨hlength, hzip⟩ := List.forall₂_iff_zip.1 hnames
  rw [validateFields_eq_some_iff, List.forall₂_iff_zip]
  constructor
  · rintro ⟨-, h⟩ p hp f hf
    obtain ⟨i, hi, rfl⟩ := List.mem_iff_getElem.1 hp
    have hmem : (e.fields[i], C.fields.entries[i]) ∈ e.fields.zip C.fields.entries :=
      List.mem_iff_getElem.2 ⟨i, by rw [List.length_zip, ← hlength, min_self]; exact hi, List.getElem_zip⟩
    have hentry : C.fields.get? C.fields.entries[i].1 = some C.fields.entries[i].2 :=
      (C.fields.get?_eq_some_iff _ _).2 (List.getElem_mem _)
    rw [← hzip hmem, hf, Option.some.injEq] at hentry
    have hgiven := (h hmem).2
    rwa [← hzip hmem, ← hentry] at hgiven
  · refine fun h => ⟨hlength, fun {p f} hpf => ⟨hzip hpf, ?_⟩⟩
    obtain ⟨hp, hf⟩ := List.of_mem_zip hpf
    rw [← hzip hpf]
    refine h p hp f.2 ?_
    rw [hzip hpf]
    exact (C.fields.get?_eq_some_iff _ _).2 hf

/-- A field that is given by its dump comes back. -/
theorem given_dump (he : e.IsOf C) {p : String × EventValue} (hp : p ∈ e.fields) {f : EventField}
    (hf : C.fields.get? p.1 = some f) : f.given (some p.2.dumpJson) = some p.2 := f.validate_dump p.2 (he.values p hp f hf)

/-- Entries with declared fields, `_data` and nothing else make an instance with these fields and this `_data`. -/
theorem construct_eq (he : e.IsOf C) (hkeys : ∀ p ∈ l, p.1 ∈ e.fields.map Prod.fst ∨ p.1 = "_data") :
    C.construct l = (EventClass.validateFields l C.fields.entries).map fun fields =>
      ⟨e.type, e.classAttributes, fields, (Dict.lookup "_data" l).getD (.dict []), .null⟩ := by
  have hextra : (l.filter fun p => !C.fields.contains p.1 && decide (p.1 ≠ "_data")) = [] := by
    rw [List.filter_eq_nil_iff]
    intro p hp
    rcases hkeys p hp with hmem | hkey
    · rw [he.names] at hmem
      obtain ⟨f, hf⟩ := (C.fields.mem_keys_iff p.1).1 hmem
      simp [Dict.contains, hf]
    · simp [hkey]
  rw [EventClass.construct, hextra, he.type, he.attributes, Option.map_eq_bind]
  rfl

theorem mem_fieldEntries_key {p : String × Json} (hp : p ∈ e.fieldEntries) : p.1 ∈ e.fields.map Prod.fst := by
  rw [← keys_fieldEntries]
  exact List.mem_map_of_mem hp

/-- An event that is no stop event comes back from its dump. -/
theorem construct_withData (he : e.IsOf C) : C.construct (e.withData e.fieldEntries) = some { e with result := .null } := by
  have hundeclared : "_data" ∉ e.fields.map Prod.fst := he.names ▸ C.undeclared.1
  have hfields : EventClass.validateFields (e.withData e.fieldEntries) C.fields.entries = some e.fields := by
    refine (validateFields_instance he).2 fun p hp f hf => ?_
    have hne : p.1 ≠ "_data" := fun heq => hundeclared (heq ▸ List.mem_map_of_mem hp)
    rw [lookup_withData hne, lookup_fieldEntries he hp, given_dump he hp hf]
  have hdata : (Dict.lookup "_data" (e.withData e.fieldEntries)).getD (.dict []) = e.data := by
    rw [EventObj.withData]
    split
    · case h_1 heq =>
      rw [lookup_fieldEntries_eq_none hundeclared, heq]
      rfl
    · rw [Dict.lookup_put, if_pos rfl]
      rfl
  rw [construct_eq he, hfields, Option.map_some, hdata]
  intro p hp
  rw [EventObj.withData] at hp
  split at hp
  · exact Or.inl (mem_fieldEntries_key hp)
  · rw [Dict.put_of_notMem _ (by rw [keys_fieldEntries]; exact hundeclared), List.mem_append, List.mem_singleton] at hp
    rcases hp with hp | rfl
    · exact Or.inl (mem_fieldEntries_key hp)
    · exact Or.inr rfl

theorem hasData_eq_false_iff : e.hasData = false ↔ e.data = .dict [] := by
  rw [EventObj.hasData]
  split
  · case h_1 heq => exact iff_of_true rfl heq
  · case h_2 hne => exact iff_of_false (by decide) hne

/-- The result of a stop event is read back, if no declared field is taken for it. -/
theorem lookup_result_iff (he : e.IsOf C) : (Dict.lookup "result" (e.withResult e.fieldEntries)).getD .null = e.result ↔
    ∀ x, ("result", x) ∈ e.fields → e.result = .null → x.dumpJson = .null := by
  rw [EventObj.withResult]
  split
  · case h_1 hnull =>
    rw [hnull]
    constructor
    · intro h x hx _
      rwa [lookup_fieldEntries he hx, Option.getD_some] at h
    · intro h
      cases hlookup : Dict.lookup "result" e.fieldEntries with
      | none => rfl
      | some v =>
        obtain ⟨⟨k, x⟩, hx, heq⟩ := List.mem_map.1 (Dict.mem_of_lookup hlookup)
        cases heq
        exact h x hx rfl
  · case h_2 hne =>
    rw [Dict.lookup_put, if_pos rfl]
    exact iff_of_true rfl fun x _ hnull => absurd hnull hne

/-- The dump of an instance validates to it exactly when it has all there is. -/
theorem modelValidate_dumpJson_iff (he : e.IsOf C) : C.modelValidate e.dumpJson = some e ↔ e.DumpsAll C := by
  rw [EventObj.dumpJson, EventClass.modelValidate, EventObj.dumpEntries, EventObj.customModelDump, ← he.type]
  cases hstop : e.type.isStop with
  | false =>
    rw [if_neg Bool.false_ne_true, if_neg Bool.false_ne_true, construct_withData he, ← he.result hstop]
    exact iff_of_true rfl fun h => absurd (hstop.symm.trans h) Bool.false_ne_true
  | true =>
    have hprivate : Dict.lookup "_result" (e.withResult e.fieldEntries) = none := by
      rw [lookup_withResult (by decide), lookup_fieldEntries_eq_none (he.names ▸ C.undeclared.2)]
    have hnodup : ((e.withResult e.fieldEntries).map Prod.fst).Nodup := by
      have hfields : (e.fieldEntries.map Prod.fst).Nodup := by
        rw [keys_fieldEntries, he.names]
        exact C.fields.nodup
      rw [EventObj.withResult]
      split
      · exact hfields
      · exact Dict.nodup_put _ _ _ hfields
    have hlookup : ∀ {k : String}, k ≠ "result" →
        Dict.lookup k (Dict.drop "result" (e.withResult e.fieldEntries)) = Dict.lookup k e.fieldEntries := by
      intro k hk
      rw [Dict.lookup_drop_ne hk, lookup_withResult hk]
    have hkeys : ∀ p ∈ Dict.drop "result" (e.withResult e.fieldEntries), p.1 ∈ e.fields.map Prod.fst ∨ p.1 = "_data" := by
      intro p hp
      have hne : p.1 ≠ "result" := by
        intro heq
        have hnone := Dict.lookup_drop_self (k := "result") hnodup
        rw [Dict.lookup_eq_none_iff] at hnone
        exact hnone (List.mem_map.2 ⟨p, hp, heq⟩)
      refine Or.inl ?_
      by_contra hnot
      rw [← keys_fieldEntries, ← Dict.lookup_eq_none_iff, ← hlookup hne, Dict.lookup_eq_none_iff] at hnot
      exact hnot (List.mem_map_of_mem hp)
    have hfields : EventClass.validateFields (Dict.drop "result" (e.withResult e.fieldEntries)) C.fields.entries = some e.fields ↔
        ∀ x, ("result", x) ∈ e.fields → (C.fields.get? "result").bind EventField.default = some x := by
      rw [validateFields_instance he]
      constructor
      · intro h x hx
        obtain ⟨f, hf⟩ := (C.fields.mem_keys_iff "result").1 (he.names ▸ List.mem_map_of_mem hx)
        have hgiven := h _ hx f hf
        rw [Dict.lookup_drop_self hnodup] at hgiven
        rw [hf]
        exact hgiven
      · rintro h ⟨k, x⟩ hp f hf
        by_cases hk : k = "result"
        · subst hk
          rw [Dict.lookup_drop_self hnodup]
          have hdefault := h x hp
          rwa [hf] at hdefault
        · rw [hlookup hk, lookup_fieldEntries he hp, given_dump he hp hf]
    have hdata : (Dict.lookup "_data" (Dict.drop "result" (e.withResult e.fieldEntries))).getD (.dict []) = .dict [] := by
      rw [hlookup (by decide), lookup_fieldEntries_eq_none (he.names ▸ C.undeclared.1)]
      rfl
    rw [if_pos rfl, if_pos rfl, hprivate, Option.isSome_none, if_neg Bool.false_ne_true, construct_eq he hkeys, hdata,
      Option.map_map, Option.map_eq_some_iff, EventObj.DumpsAll, hstop, forall_prop_of_true rfl, hasData_eq_false_iff, forall₂_and, ← hfields,
      ← lookup_result_iff he]
    obtain ⟨type, attributes, fields, data, result⟩ := e
    simp only [Function.comp_apply, EventObj.mk.injEq, true_and]
    constructor
    · rintro ⟨fields', hvalidated, rfl, rfl, hresult⟩
      exact ⟨rfl, hvalidated, hresult⟩
    · rintro ⟨rfl, hvalidated, hresult⟩
      exact ⟨fields, hvalidated, rfl, rfl, hresult⟩

/-- A plain dump whose values are encoded as in a dump for JSON. -/
theorem dumpPlain_eq (h : ∀ p ∈ e.fields, p.2.encodePlain = some p.2.dumpJson) : e.dumpPlain = some e.dumpJson := by
  have hentries : (e.fields.mapM fun p : String × EventValue => p.2.encodePlain.map fun v => (p.1, v)) = some e.fieldEntries := by
    refine Lib.mapM_eq_some_map fun p hp => ?_
    rw [h p hp]
    rfl
  rw [EventObj.dumpPlain, hentries]
  rfl

end EventObjectsAux

/-! ## Classes with one field -/

namespace SampleEvents

/-- A field with texts. -/
def textField : EventField where
  isInstance
    | .json (.str _) => true
    | _ => false
  validate
    | .str s => some (.json (.str s))
    | _ => none
  validate_dump x h := by
    rcases x with (_ | _ | _ | _ | _ | _) | _
    all_goals first | rfl | cases h

/-- A field with times, which a dump for JSON has as texts. -/
def timeField : EventField where
  isInstance
    | .object s (.str s') none => s = s'
    | _ => false
  validate
    | .str s => some (.object s (.str s) none)
    | _ => none
  validate_dump x h := by
    rcases x with _ | ⟨s, (_ | _ | _ | s' | _ | _), (_ | _)⟩
    all_goals first | cases h | skip
    cases of_decide_eq_true h
    rfl

/-- A class with one field. -/
def oneField (t : EventType) (name : String) (f : EventField) (ht : t.name ≠ "" := by decide)
    (hname : name ≠ "_data" ∧ name ≠ "_result" := by decide) : EventClass where
  type := t
  fields := Dict.set ∅ name f
  named := ht
  undeclared := ⟨fun h => hname.1 (List.mem_singleton.1 h).symm, fun h => hname.2 (List.mem_singleton.1 h).symm⟩

/-- An instance of such a class. -/
def instanceOf (t : EventType) (name : String) (x : EventValue) (data : List (String × Json)) (result : Json) : EventObj :=
  ⟨t, [], [(name, x)], .dict data, result⟩

theorem instanceOf_isOf {t : EventType} {name : String} {f : EventField} {x : EventValue} {data : List (String × Json)} {result : Json}
    {ht : t.name ≠ ""} {hname : name ≠ "_data" ∧ name ≠ "_result"} (hx : f.isInstance x = true)
    (hresult : t.isStop = false → result = .null) :
    (instanceOf t name x data result).IsOf (oneField t name f ht hname) := by
  refine ⟨rfl, rfl, rfl, fun p hp g hg => ?_, ⟨data, rfl⟩, hresult⟩
  cases List.mem_singleton.1 hp
  rw [oneField, Dict.get?_set_self, Option.some.injEq] at hg
  rw [← hg]
  exact hx

end SampleEvents

end LlamaAgents
