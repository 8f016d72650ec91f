import Mathlib.Algebra.BigOperators.Group.List.Basic
import Mathlib.Data.List.Nodup
import Mathlib.Tactic.Abel

/-!
# Insertion-ordered dictionaries

A finite map that remembers the order in which its keys were first set, with no key twice: setting a key that is present
keeps its place, setting a new one puts it last, and removing a key leaves the order of the others.
-/

namespace Lib

universe u v

/-- A finite map as the list of its entries, in insertion order; no key stands twice. -/
structure Dict (κ : Type u) (ν : Type v) where
  entries : List (κ × ν)
  nodup : (entries.map Prod.fst).Nodup

namespace Dict

variable {κ : Type u} {ν : Type v}

instance [DecidableEq κ] [DecidableEq ν] : DecidableEq (Dict κ ν) := fun d e =>
  decidable_of_iff (d.entries = e.entries) ⟨fun h => by cases d; cases e; simp_all, fun h => by rw [h]⟩

/-- The dictionary with no entry. -/
def empty : Dict κ ν := ⟨[], List.nodup_nil⟩

instance : EmptyCollection (Dict κ ν) := ⟨empty⟩

@[simp] theorem entries_empty : (∅ : Dict κ ν).entries = [] := rfl

/-- The keys, in insertion order. -/
def keys (d : Dict κ ν) : List κ := d.entries.map Prod.fst

/-- The values, in insertion order of their keys. -/
def values (d : Dict κ ν) : List ν := d.entries.map Prod.snd

/-- A dictionary is its entries: the proof of distinct keys adds nothing. -/
theorem ext_entries {d e : Dict κ ν} (h : d.entries = e.entries) : d = e := by
  cases d
  cases e
  simp_all

variable [DecidableEq κ]

/-! ## The operations on lists of entries -/

/-- The value of the first entry with key `k`. -/
def lookup (k : κ) : List (κ × ν) → Option ν
  | [] => none
  | (k', v) :: l => if k' = k then some v else lookup k l

/-- Set `k` to `v` in place, or at the end when `k` is new. -/
def put (k : κ) (v : ν) : List (κ × ν) → List (κ × ν)
  | [] => [(k, v)]
  | (k', w) :: l => if k' = k then (k', v) :: l else (k', w) :: put k v l

/-- Drop the entry with key `k`. -/
def drop (k : κ) : List (κ × ν) → List (κ × ν)
  | [] => []
  | (k', w) :: l => if k' = k then l else (k', w) :: drop k l

/-- Writing to a key adds that key and no other. -/
theorem mem_keys_put (k : κ) (v : ν) (l : List (κ × ν)) (x : κ) :
    x ∈ (put k v l).map Prod.fst ↔ x = k ∨ x ∈ l.map Prod.fst := by
  induction l with
  | nil => simp [put]
  | cons e l ih =>
    obtain ⟨k', w⟩ := e
    by_cases h : k' = k
    · simp [put, h]
    · simp only [put, if_neg h, List.map_cons, List.mem_cons, ih]
      tauto

/-- Writing to a key keeps the keys distinct. -/
theorem nodup_put (k : κ) (v : ν) (l : List (κ × ν)) (h : (l.map Prod.fst).Nodup) : ((put k v l).map Prod.fst).Nodup := by
  induction l with
  | nil => simp [put]
  | cons e l ih =>
    obtain ⟨k', w⟩ := e
    rw [List.map_cons, List.nodup_cons] at h
    by_cases hk : k' = k
    · simp only [put, if_pos hk, List.map_cons, List.nodup_cons]
      exact h
    · simp only [put, if_neg hk, List.map_cons, List.nodup_cons, mem_keys_put]
      exact ⟨fun hm => hm.elim hk h.1, ih h.2⟩

/-- Deleting a key keeps the order of the other entries. -/
theorem drop_sublist (k : κ) (l : List (κ × ν)) : (drop k l).Sublist l := by
  induction l with
  | nil => exact List.Sublist.refl _
  | cons e l ih =>
    obtain ⟨k', w⟩ := e
    by_cases hk : k' = k
    · simp only [drop, if_pos hk]
      exact List.sublist_cons_self _ _
    · simp only [drop, if_neg hk]
      exact ih.cons_cons _

/-- A search fails just for the keys that are not there. -/
theorem lookup_eq_none_iff (k : κ) (l : List (κ × ν)) : lookup k l = none ↔ k ∉ l.map Prod.fst := by
  induction l with
  | nil => simp [lookup]
  | cons e l ih =>
    obtain ⟨k', w⟩ := e
    by_cases hk : k' = k
    · simp [lookup, hk]
    · simp only [lookup, if_neg hk, ih, List.map_cons, List.mem_cons, not_or]
      exact ⟨fun h => ⟨fun e => hk e.symm, h⟩, fun h => h.2⟩

/-- What a search finds is an entry. -/
theorem mem_of_lookup {k : κ} {v : ν} {l : List (κ × ν)} (h : lookup k l = some v) : (k, v) ∈ l := by
  induction l with
  | nil => simp [lookup] at h
  | cons e l ih =>
    obtain ⟨k', w⟩ := e
    by_cases hk : k' = k
    · simp only [lookup, if_pos hk, Option.some.injEq] at h
      subst hk h
      exact List.mem_cons_self
    · simp only [lookup, if_neg hk] at h
      exact List.mem_cons_of_mem _ (ih h)

/-- With distinct keys every entry is found under its key. -/
theorem lookup_of_mem {k : κ} {v : ν} {l : List (κ × ν)} (hn : (l.map Prod.fst).Nodup) (h : (k, v) ∈ l) :
    lookup k l = some v := by
  induction l with
  | nil => cases h
  | cons e l ih =>
    obtain ⟨k', w⟩ := e
    rw [List.map_cons, List.nodup_cons] at hn
    rcases List.mem_cons.1 h with heq | hm
    · cases heq
      simp [lookup]
    · have hk : k' ≠ k := by
        rintro rfl
        exact hn.1 (List.mem_map.2 ⟨(k', v), hm, rfl⟩)
      simp only [lookup, if_neg hk]
      exact ih hn.2 hm

/-- A write is seen at its own key only. -/
theorem lookup_put (k : κ) (v : ν) (l : List (κ × ν)) (x : κ) :
    lookup x (put k v l) = if k = x then some v else lookup x l := by
  induction l with
  | nil => simp [put, lookup]
  | cons e l ih =>
    obtain ⟨k', w⟩ := e
    by_cases hk : k' = k
    · subst hk
      simp only [put, if_true, lookup]
      split <;> rfl
    · simp only [put, if_neg hk, lookup, ih]
      by_cases hx : k' = x
      · have : ¬ k = x := fun h => hk (hx.trans h.symm)
        simp [hx, this]
      · simp [hx]

/-- A new key stands last. -/
theorem put_of_notMem {k : κ} (v : ν) {l : List (κ × ν)} (h : k ∉ l.map Prod.fst) : put k v l = l ++ [(k, v)] := by
  induction l with
  | nil => rfl
  | cons e l ih =>
    obtain ⟨k', w⟩ := e
    rw [List.map_cons, List.mem_cons, not_or] at h
    rw [put, if_neg (Ne.symm h.1), ih h.2, List.cons_append]

/-- A key that is present keeps its place. -/
theorem put_of_mem {k : κ} (v : ν) {l : List (κ × ν)} (hn : (l.map Prod.fst).Nodup) (h : k ∈ l.map Prod.fst) :
    put k v l = l.map fun e => if e.1 = k then (k, v) else e := by
  induction l with
  | nil => cases h
  | cons e l ih =>
    obtain ⟨k', w⟩ := e
    rw [List.map_cons, List.nodup_cons] at hn
    rw [put, List.map_cons]
    split
    · case isTrue hk =>
      subst hk
      have hrest : (l.map fun e => if e.1 = k' then (k', v) else e) = l := by
        refine (List.map_congr_left fun e he => if_neg ?_).trans (List.map_id l)
        rintro rfl
        exact hn.1 (List.mem_map.2 ⟨e, he, rfl⟩)
      rw [hrest]
    · case isFalse hk =>
      rw [List.map_cons, List.mem_cons] at h
      rw [ih hn.2 (h.resolve_left (Ne.symm hk))]

/-- A deleted key is not found. -/
theorem lookup_drop_self {k : κ} {l : List (κ × ν)} (hn : (l.map Prod.fst).Nodup) : lookup k (drop k l) = none := by
  induction l with
  | nil => rfl
  | cons e l ih =>
    obtain ⟨k', w⟩ := e
    rw [List.map_cons, List.nodup_cons] at hn
    by_cases hk : k' = k
    · subst hk
      simp only [drop, if_true]
      exact (lookup_eq_none_iff _ _).2 hn.1
    · simp only [drop, if_neg hk, lookup]
      exact ih hn.2

/-- Deleting a key does not hide another. -/
theorem lookup_drop_ne {k x : κ} (hx : x ≠ k) (l : List (κ × ν)) : lookup x (drop k l) = lookup x l := by
  induction l with
  | nil => rfl
  | cons e l ih =>
    obtain ⟨k', w⟩ := e
    by_cases hk : k' = k
    · subst hk
      simp [drop, lookup, Ne.symm hx]
    · simp [drop, hk, lookup, ih]

/-! ## The operations on dictionaries -/

/-- The value at a key. -/
def get? (d : Dict κ ν) (k : κ) : Option ν := lookup k d.entries

/-- Whether a key is present. -/
def contains (d : Dict κ ν) (k : κ) : Bool := (d.get? k).isSome

/-- `d[k] = v`. -/
def set (d : Dict κ ν) (k : κ) (v : ν) : Dict κ ν := ⟨put k v d.entries, nodup_put k v _ d.nodup⟩

/-- `d.pop(k, None)`, without the value. -/
def erase (d : Dict κ ν) (k : κ) : Dict κ ν :=
  ⟨drop k d.entries, d.nodup.sublist ((drop_sublist k d.entries).map _)⟩

/-- The dictionary of the entries that a test accepts. -/
def filter (d : Dict κ ν) (p : κ → ν → Bool) : Dict κ ν :=
  ⟨d.entries.filter fun e => p e.1 e.2, d.nodup.sublist (List.filter_sublist.map _)⟩

/-- The dictionary of a list of pairs: a later pair with the same key wins. -/
def ofList (l : List (κ × ν)) : Dict κ ν := l.foldl (fun d e => d.set e.1 e.2) ∅

/-- The dictionary with other values. -/
def map {μ : Type*} (d : Dict κ ν) (f : ν → μ) : Dict κ μ :=
  ⟨d.entries.map fun e => (e.1, f e.2), by rw [List.map_map]; exact d.nodup⟩

/-- `d.update(e)`, with what a function keeps of each value. -/
def updateWith {μ : Type*} (f : ν → Option μ) (d : Dict κ μ) (e : Dict κ ν) : Dict κ μ :=
  e.entries.foldl (fun d x => (f x.2).elim d (d.set x.1)) d

/-- The entries are what the dictionary maps. -/
theorem get?_eq_some_iff (d : Dict κ ν) (k : κ) (v : ν) : d.get? k = some v ↔ (k, v) ∈ d.entries :=
  ⟨mem_of_lookup, lookup_of_mem d.nodup⟩

theorem get?_eq_none_iff (d : Dict κ ν) (k : κ) : d.get? k = none ↔ k ∉ d.keys := lookup_eq_none_iff k d.entries

/-- The keys are those that the dictionary maps. -/
theorem mem_keys_iff (d : Dict κ ν) (k : κ) : k ∈ d.keys ↔ ∃ v, d.get? k = some v := by
  rw [← not_iff_not, ← get?_eq_none_iff, Option.eq_none_iff_forall_ne_some]
  simp

/-- A filtered dictionary maps what passes the filter. -/
theorem get?_filter (d : Dict κ ν) (p : κ → ν → Bool) (k : κ) : (d.filter p).get? k = (d.get? k).filter (p k) := by
  ext v
  rw [get?_eq_some_iff, filter, List.mem_filter, Option.filter_eq_some_iff, get?_eq_some_iff]

@[simp] theorem get?_empty (k : κ) : (∅ : Dict κ ν).get? k = none := rfl

/-- A write is seen at its own key only. -/
theorem get?_set (d : Dict κ ν) (k : κ) (v : ν) (x : κ) : (d.set k v).get? x = if k = x then some v else d.get? x :=
  lookup_put k v d.entries x

/-- Every entry of the dictionary of a list is in the list. -/
theorem mem_of_get?_ofList {l : List (κ × ν)} {k : κ} {v : ν} (h : (ofList l).get? k = some v) : (k, v) ∈ l := by
  have key : ∀ (l : List (κ × ν)) (d : Dict κ ν), (l.foldl (fun d e => d.set e.1 e.2) d).get? k = some v →
      (k, v) ∈ l ∨ d.get? k = some v := by
    intro l
    induction l with
    | nil => exact fun d h => Or.inr h
    | cons e l ih =>
      intro d h
      rcases ih (d.set e.1 e.2) h with h | h
      · exact Or.inl (List.mem_cons_of_mem e h)
      · rw [get?_set] at h
        split at h
        · case isTrue hk =>
          cases h
          exact Or.inl (hk ▸ List.mem_cons_self)
        · exact Or.inr h
  exact (key l ∅ h).elim id fun h => nomatch h

/-- A dictionary is read back from its entries. -/
theorem ofList_entries (d : Dict κ ν) : ofList d.entries = d := by
  -- what is set already stands before what is left, and no key stands twice
  have key : ∀ (l : List (κ × ν)) (done : Dict κ ν), ((done.entries ++ l).map Prod.fst).Nodup →
      (l.foldl (fun d e => d.set e.1 e.2) done).entries = done.entries ++ l := by
    intro l
    induction l with
    | nil => exact fun done _ => (List.append_nil _).symm
    | cons e l ih =>
      intro done hnodup
      have hset : (done.set e.1 e.2).entries = done.entries ++ [e] := by
        refine put_of_notMem _ fun hmem => ?_
        rw [List.map_append, List.nodup_append] at hnodup
        exact hnodup.2.2 _ hmem _ List.mem_cons_self rfl
      have hsplit : done.entries ++ e :: l = (done.set e.1 e.2).entries ++ l := by
        rw [hset, List.append_assoc]
        rfl
      rw [List.foldl_cons, hsplit]
      exact ih _ (hsplit ▸ hnodup)
  exact ext_entries (key d.entries ∅ d.nodup)

/-- A key of a list of optional values, in the list without what is absent. -/
theorem lookup_filterMap (key : κ) {l : List (κ × Option ν)} (hnodup : (l.map Prod.fst).Nodup) :
    lookup key (l.filterMap fun e => e.2.map fun v => (e.1, v)) = (lookup key l).join := by
  induction l with
  | nil => rfl
  | cons e l ih =>
    obtain ⟨hnot, hrest⟩ := List.nodup_cons.1 hnodup
    have hl := ih hrest
    obtain ⟨k, value⟩ := e
    by_cases hkey : k = key
    · subst hkey
      cases value with
      | some v => simp [lookup]
      | none =>
        have hnone := (lookup_eq_none_iff k l).2 hnot
        simp [lookup, hl, hnone]
    · cases value with
      | some v => simp [lookup, hkey, hl]
      | none => simp [lookup, hkey, hl]

@[simp] theorem get?_set_self (d : Dict κ ν) (k : κ) (v : ν) : (d.set k v).get? k = some v := by
  rw [get?_set, if_pos rfl]

theorem get?_set_ne (d : Dict κ ν) {k x : κ} (v : ν) (h : x ≠ k) : (d.set k v).get? x = d.get? x := by
  rw [get?_set, if_neg (Ne.symm h)]

/-- An update wins where it has a value. -/
theorem get?_updateWith {μ : Type*} (f : ν → Option μ) (d : Dict κ μ) (e : Dict κ ν) (k : κ) :
    (d.updateWith f e).get? k = ((e.get? k).bind f).or (d.get? k) := by
  obtain ⟨l, hl⟩ := e
  unfold updateWith get?
  induction l generalizing d with
  | nil => rfl
  | cons x l ih =>
    obtain ⟨hx, hl⟩ := List.nodup_cons.1 hl
    rw [List.foldl_cons, lookup]
    refine (ih _ hl).trans ?_
    split
    · case isTrue hk =>
      subst hk
      rw [(lookup_eq_none_iff x.1 l).2 hx, Option.bind_none, Option.none_or, Option.bind_some]
      cases f x.2 with
      | none => rfl
      | some v => exact get?_set_self d x.1 v
    · case isFalse hk =>
      congr 1
      cases f x.2 with
      | none => rfl
      | some v => exact get?_set_ne d v (Ne.symm hk)

/-- The second of two writes to a key is the one that stays. -/
theorem put_put (k : κ) (v w : ν) (l : List (κ × ν)) : put k w (put k v l) = put k w l := by
  induction l with
  | nil => simp [put]
  | cons e l ih =>
    by_cases h : e.1 = k
    · simp [put, h]
    · simp [put, h, ih]

@[simp] theorem set_set (d : Dict κ ν) (k : κ) (v w : ν) : (d.set k v).set k w = d.set k w := ext_entries (put_put k v w d.entries)

@[simp] theorem get?_erase_self (d : Dict κ ν) (k : κ) : (d.erase k).get? k = none := lookup_drop_self d.nodup

theorem get?_erase_ne (d : Dict κ ν) {k x : κ} (h : x ≠ k) : (d.erase k).get? x = d.get? x := lookup_drop_ne h _

/-- A deleted key is mapped to nothing, the others as before. -/
theorem get?_erase (d : Dict κ ν) (k x : κ) : (d.erase k).get? x = if k = x then none else d.get? x := by
  by_cases h : k = x
  · subst h
    simp
  · rw [if_neg h, get?_erase_ne d (Ne.symm h)]

/-! ## The values at the other keys -/

/-- The values at all keys but one. -/
def valuesExcept (d : Dict κ ν) (k : κ) : List ν := (d.entries.filter fun e => e.1 ≠ k).map Prod.snd

/-- A write to a key leaves the other entries in their order. -/
theorem filter_ne_put (k : κ) (v : ν) (l : List (κ × ν)) :
    ((put k v l).filter fun e => e.1 ≠ k) = l.filter fun e => e.1 ≠ k := by
  induction l with
  | nil => simp [put]
  | cons e l ih =>
    obtain ⟨k', w⟩ := e
    by_cases h : k' = k
    · simp [put, h]
    · simp only [put, if_neg h, List.filter_cons, ih]

/-- The values of the other keys do not see a write. -/
@[simp] theorem valuesExcept_set (d : Dict κ ν) (k : κ) (v : ν) : (d.set k v).valuesExcept k = d.valuesExcept k :=
  congrArg _ (filter_ne_put k v d.entries)

theorem filter_ne_of_notMem {k : κ} {l : List (κ × ν)} (h : k ∉ l.map Prod.fst) : (l.filter fun e => e.1 ≠ k) = l :=
  List.filter_eq_self.2 fun _ he => decide_eq_true fun hk => h (hk ▸ List.mem_map_of_mem he)

/-- Deleting a key leaves the other entries in their order. -/
theorem filter_ne_drop {k : κ} {l : List (κ × ν)} (hn : (l.map Prod.fst).Nodup) :
    ((drop k l).filter fun e => e.1 ≠ k) = l.filter fun e => e.1 ≠ k := by
  induction l with
  | nil => rfl
  | cons e l ih =>
    obtain ⟨k', w⟩ := e
    rw [List.map_cons, List.nodup_cons] at hn
    by_cases h : k' = k
    · simp [drop, h]
    · simp only [drop, if_neg h, List.filter_cons, ih hn.2]

/-- The values of the other keys do not see a deletion. -/
@[simp] theorem valuesExcept_erase (d : Dict κ ν) (k : κ) : (d.erase k).valuesExcept k = d.valuesExcept k :=
  congrArg _ (filter_ne_drop d.nodup)

/-- The values that meet a test are those at the other keys, and the one at the key if it does. -/
theorem countP_values (d : Dict κ ν) (p : ν → Bool) (k : κ) :
    d.values.countP p = (d.valuesExcept k).countP p + (d.get? k).toList.countP p := by
  obtain ⟨l, hn⟩ := d
  show (l.map Prod.snd).countP p = ((l.filter fun e => e.1 ≠ k).map Prod.snd).countP p + (lookup k l).toList.countP p
  induction l with
  | nil => rfl
  | cons e l ih =>
    obtain ⟨k', w⟩ := e
    rw [List.map_cons, List.nodup_cons] at hn
    by_cases h : k' = k
    · subst h
      have hrest := filter_ne_of_notMem hn.1
      simp only [List.filter_cons, ne_eq, not_true_eq_false, decide_false, Bool.false_eq_true, if_false, lookup, if_true,
        List.map_cons, List.countP_cons, Option.toList_some, List.countP_nil, Nat.zero_add] at hrest ⊢
      rw [hrest]
    · simp only [List.filter_cons, ne_eq, h, not_false_eq_true, decide_true, if_true, lookup, if_false, List.map_cons,
        List.countP_cons] at ih ⊢
      rw [ih hn.2]
      omega

/-! ## Sums over the entries -/

section Sum

variable {M : Type*} [AddCommGroup M]

/-- The sum of a quantity over the entries. -/
def sum (d : Dict κ ν) (g : κ → ν → M) : M := (d.entries.map (fun e => g e.1 e.2)).sum

/-- A new key adds its term to the sum. -/
theorem sum_put_new (g : κ → ν → M) (k : κ) (v : ν) {l : List (κ × ν)} (h : lookup k l = none) :
    ((put k v l).map (fun e => g e.1 e.2)).sum = (l.map (fun e => g e.1 e.2)).sum + g k v := by
  induction l with
  | nil => simp [put]
  | cons e l ih =>
    obtain ⟨k', w⟩ := e
    by_cases hk : k' = k
    · simp [lookup, hk] at h
    · simp only [lookup, if_neg hk] at h
      simp only [put, if_neg hk, List.map_cons, List.sum_cons, ih h]
      abel

/-- A write to a key replaces its term in the sum. -/
theorem sum_put_old (g : κ → ν → M) (k : κ) (v : ν) {l : List (κ × ν)} {w : ν} (h : lookup k l = some w) :
    ((put k v l).map (fun e => g e.1 e.2)).sum = (l.map (fun e => g e.1 e.2)).sum - g k w + g k v := by
  induction l with
  | nil => simp [lookup] at h
  | cons e l ih =>
    obtain ⟨k', w'⟩ := e
    by_cases hk : k' = k
    · subst hk
      simp only [lookup, if_true, Option.some.injEq] at h
      subst h
      simp only [put, if_true, List.map_cons, List.sum_cons]
      abel
    · simp only [lookup, if_neg hk] at h
      simp only [put, if_neg hk, List.map_cons, List.sum_cons, ih h]
      abel

/-- A deleted key takes its term out of the sum. -/
theorem sum_drop (g : κ → ν → M) (k : κ) {l : List (κ × ν)} {v : ν} (h : lookup k l = some v) :
    ((drop k l).map (fun e => g e.1 e.2)).sum = (l.map (fun e => g e.1 e.2)).sum - g k v := by
  induction l with
  | nil => simp [lookup] at h
  | cons e l ih =>
    obtain ⟨k', w⟩ := e
    by_cases hk : k' = k
    · subst hk
      simp only [lookup, if_true, Option.some.injEq] at h
      subst h
      simp only [drop, if_true, List.map_cons, List.sum_cons]
      abel
    · simp only [lookup, if_neg hk] at h
      simp only [drop, if_neg hk, List.map_cons, List.sum_cons, ih h]
      abel

omit [DecidableEq κ] in
/-- A sum is over the entries only. -/
theorem sum_congr (d : Dict κ ν) {g g' : κ → ν → M} (h : ∀ k v, (k, v) ∈ d.entries → g k v = g' k v) : d.sum g = d.sum g' := by
  have : d.entries.map (fun e => g e.1 e.2) = d.entries.map (fun e => g' e.1 e.2) :=
    List.map_congr_left fun e he => h e.1 e.2 he
  rw [sum, sum, this]

/-- Two quantities that differ at one key only have sums that differ by that much. -/
theorem sum_eq_of_ne (d : Dict κ ν) (g g' : κ → ν → M) {k : κ} {v : ν} (hk : d.get? k = some v)
    (h : ∀ k' v', (k', v') ∈ d.entries → k' ≠ k → g' k' v' = g k' v') : d.sum g' = d.sum g - g k v + g' k v := by
  have key : ∀ l : List (κ × ν), (l.map Prod.fst).Nodup → lookup k l = some v →
      (∀ k' v', (k', v') ∈ l → k' ≠ k → g' k' v' = g k' v') →
      (l.map fun e => g' e.1 e.2).sum = (l.map fun e => g e.1 e.2).sum - g k v + g' k v := by
    intro l hn hl h
    induction l with
    | nil => simp [lookup] at hl
    | cons e l ih =>
      obtain ⟨k', w⟩ := e
      rw [List.map_cons, List.nodup_cons] at hn
      by_cases hk' : k' = k
      · subst hk'
        simp only [lookup, if_true, Option.some.injEq] at hl
        subst hl
        have hrest : l.map (fun e => g' e.1 e.2) = l.map (fun e => g e.1 e.2) := by
          refine List.map_congr_left fun e he => h e.1 e.2 (List.mem_cons_of_mem _ he) fun hek => hn.1 ?_
          exact List.mem_map.2 ⟨e, he, hek⟩
        simp only [List.map_cons, List.sum_cons, hrest]
        abel
      · simp only [lookup, if_neg hk'] at hl
        simp only [List.map_cons, List.sum_cons, ih hn.2 hl fun k₁ v₁ h₁ => h k₁ v₁ (List.mem_cons_of_mem _ h₁),
          h k' w List.mem_cons_self hk']
        abel
  exact key d.entries d.nodup hk h

omit [DecidableEq κ] in
@[simp] theorem sum_empty (g : κ → ν → M) : (∅ : Dict κ ν).sum g = 0 := rfl

/-- A new key adds its quantity. -/
theorem sum_set_new (d : Dict κ ν) (g : κ → ν → M) {k : κ} (v : ν) (h : d.get? k = none) :
    (d.set k v).sum g = d.sum g + g k v :=
  sum_put_new g k v h

/-- Setting a key that is present changes the sum by the difference at that key. -/
theorem sum_set_old (d : Dict κ ν) (g : κ → ν → M) {k : κ} (v : ν) {w : ν} (h : d.get? k = some w) :
    (d.set k v).sum g = d.sum g - g k w + g k v :=
  sum_put_old g k v h

/-- Removing a key removes its quantity. -/
theorem sum_erase (d : Dict κ ν) (g : κ → ν → M) {k : κ} {v : ν} (h : d.get? k = some v) :
    (d.erase k).sum g = d.sum g - g k v :=
  sum_drop g k h

end Sum

end Dict

/-- A partial map that is defined on every item of a list is a map of the list. -/
theorem mapM_eq_some_map {α : Type u} {β : Type v} {f : α → Option β} {g : α → β} {l : List α} (h : ∀ x ∈ l, f x = some (g x)) :
    l.mapM f = some (l.map g) := by
  induction l with
  | nil => rfl
  | cons x l ih =>
    rw [List.forall_mem_cons] at h
    rw [List.mapM_cons, h.1, ih h.2]
    rfl

end Lib
