import LlamaAgents.Lib.Dict

/-!
# Bounded caches

A cache keeps at most so many entries, in the order of their last use, and evicts the one used least recently. Whatever it
answers was put under that key, and nothing else about it is guaranteed: an entry may be gone at any time.
-/

namespace Lib

universe u v

/-- A bounded cache: its entries, the least recently used first. -/
structure Lru (κ : Type u) (ν : Type v) where
  maxsize : Nat
  data : Dict κ ν := ∅

namespace Lru

variable {κ : Type u} {ν : Type v} [DecidableEq κ] (c : Lru κ ν)

/-- Put an entry last. -/
def touch (k : κ) (v : ν) : Dict κ ν := (c.data.erase k).set k v

/-- The value of a key, which is used now. -/
def get (k : κ) : Option ν × Lru κ ν :=
  match c.data.get? k with
  | some v => (some v, { c with data := c.touch k v })
  | none => (none, c)

/-- Set a key, and evict the first entry if there are too many. -/
def put (k : κ) (v : ν) : Lru κ ν :=
  let data := c.touch k v
  { c with data := if data.entries.length > c.maxsize then ⟨data.entries.tail, data.nodup.sublist ((List.tail_sublist _).map _)⟩
      else data }

/-- Forget a key. -/
def delete (k : κ) : Lru κ ν := { c with data := c.data.erase k }

variable {c} {k k' : κ} {v v' : ν}

theorem get?_touch (h : (c.touch k v).get? k' = some v') : k' = k ∧ v' = v ∨ c.data.get? k' = some v' := by
  rw [touch, Dict.get?_set] at h
  split at h
  · case isTrue heq =>
    cases h
    exact Or.inl ⟨heq.symm, rfl⟩
  · case isFalse hne =>
    rw [Dict.get?_erase, if_neg hne] at h
    exact Or.inr h

/-- Whatever is cached after a read was cached before. -/
theorem get?_get (h : (c.get k).2.data.get? k' = some v') : c.data.get? k' = some v' := by
  unfold get at h
  split at h
  · case h_1 v hv =>
    rcases get?_touch h with ⟨rfl, rfl⟩ | h
    · exact hv
    · exact h
  · exact h

/-- Whatever is cached after a write was cached before, or is what was written. -/
theorem get?_put (h : (c.put k v).data.get? k' = some v') : k' = k ∧ v' = v ∨ c.data.get? k' = some v' := by
  refine get?_touch ?_
  rw [put] at h
  dsimp only at h
  split at h
  · rw [Dict.get?_eq_some_iff] at h ⊢
    exact List.mem_of_mem_tail h
  · exact h

/-- What is cached after a key was forgotten was cached before, under another key. -/
theorem get?_delete (h : (c.delete k).data.get? k' = some v') : k' ≠ k ∧ c.data.get? k' = some v' := by
  rw [delete, Dict.get?_erase] at h
  split at h
  · cases h
  · case isFalse hne => exact ⟨Ne.symm hne, h⟩

/-- An answer is what is cached. -/
theorem get_fst : (c.get k).1 = c.data.get? k := by
  unfold get
  split
  · case h_1 v hv => exact hv.symm
  · case h_2 hv => exact hv.symm

end Lru

end Lib
