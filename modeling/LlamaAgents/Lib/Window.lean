import Mathlib.Data.List.Basic
import Mathlib.Order.Lattice

/-!
# Windows of a numbered log

The entries of a log stand in the order of their numbers. A reader that has got as far as a position has read the window from
where it started up to there; it goes on with the first entry after its position.
-/

namespace Lib

universe u v

variable {α : Type u} {β : Type v} [LinearOrder β] (num : α → β) (keep : α → Bool)

/-- The kept entries with a number above `b`. -/
def above (b : β) (l : List α) : List α := l.filter fun x => keep x && decide (b < num x)

/-- The kept entries with a number above `b` and at most `p`. -/
def window (b p : β) (l : List α) : List α := (above num keep b l).filter fun x => decide (num x ≤ p)

variable {num keep} {b p : β} {l : List α}

theorem mem_above {x : α} : x ∈ above num keep b l ↔ x ∈ l ∧ keep x ∧ b < num x := by
  rw [above, List.mem_filter, Bool.and_eq_true, decide_eq_true_eq]

theorem mem_window {x : α} : x ∈ window num keep b p l ↔ x ∈ l ∧ (keep x ∧ b < num x) ∧ num x ≤ p := by
  rw [window, List.mem_filter, mem_above, decide_eq_true_eq, and_assoc]

theorem window_append (l l' : List α) : window num keep b p (l ++ l') = window num keep b p l ++ window num keep b p l' := by
  rw [window, above, List.filter_append, List.filter_append]
  rfl

/-- A reader that has not moved has read nothing. -/
theorem window_self (l : List α) : window num keep b b l = [] := by
  rw [List.eq_nil_iff_forall_not_mem]
  intro x hx
  obtain ⟨-, ⟨-, hlt⟩, hle⟩ := mem_window.1 hx
  exact absurd hlt (not_lt.2 hle)

/-- A reader that has reached the end has read everything. -/
theorem window_eq_above (h : ∀ x ∈ l, num x ≤ p) : window num keep b p l = above num keep b l :=
  List.filter_eq_self.2 fun x hx => decide_eq_true (h x (mem_above.1 hx).1)

/-- An entry that is appended after the position is not in the window. -/
theorem window_append_of_lt {x : α} (h : p = b ∨ p < num x) : window num keep b p (l ++ [x]) = window num keep b p l := by
  rcases h with rfl | h
  · rw [window_self, window_self]
  · have hnone : window num keep b p [x] = [] := by
      rw [List.eq_nil_iff_forall_not_mem]
      intro y hy
      obtain ⟨hmem, -, hle⟩ := mem_window.1 hy
      rw [List.mem_singleton.1 hmem] at hle
      exact absurd h (not_lt.2 hle)
    rw [window_append, hnone, List.append_nil]

/-- What there is to read is what was read and what comes after the position. -/
theorem above_split {d r : List α} (hd : ∀ x ∈ d, num x ≤ p) (hr : ∀ x ∈ r, p < num x) :
    above num keep b (d ++ r) = window num keep b p (d ++ r) ++ above num keep b r := by
  have hnone : window num keep b p r = [] := by
    rw [List.eq_nil_iff_forall_not_mem]
    intro x hx
    obtain ⟨hmem, -, hle⟩ := mem_window.1 hx
    exact absurd (hr x hmem) (not_lt.2 hle)
  rw [window_append, hnone, List.append_nil, window_eq_above hd, above, above, above, List.filter_append]

section Sorted

variable (hl : l.Pairwise fun x y => num x < num y)

include hl

theorem above_pairwise : (above num keep b l).Pairwise fun x y => num x < num y := hl.sublist List.filter_sublist

/-- What a reader has read is the first part of what there is to read. -/
theorem window_prefix : window num keep b p l <+: above num keep b l := by
  have hsorted : (above num keep b l).Pairwise fun x y => num x < num y := above_pairwise hl
  rw [window]
  generalize above num keep b l = m at hsorted
  induction m with
  | nil => exact List.prefix_rfl
  | cons x m ih =>
    obtain ⟨hx, hm⟩ := List.pairwise_cons.1 hsorted
    by_cases hp : num x ≤ p
    · rw [List.filter_cons, if_pos (decide_eq_true hp)]
      exact List.cons_prefix_cons.2 ⟨rfl, ih hm⟩
    · have hnone : (x :: m).filter (fun x => decide (num x ≤ p)) = [] := by
        rw [List.filter_eq_nil_iff]
        intro y hy hle
        rw [decide_eq_true_eq] at hle
        rcases List.mem_cons.1 hy with rfl | hy
        · exact hp hle
        · exact hp ((hx y hy).le.trans hle)
      rw [hnone]
      exact List.nil_prefix

/-- The first entry after the position is the next of the window, if it is kept. -/
theorem window_find {x : α} (hb : b ≤ p) (hx : (l.find? fun x => decide (p < num x)) = some x) :
    window num keep b (num x) l = window num keep b p l ++ if keep x then [x] else [] := by
  obtain ⟨hpx, l₁, l₂, rfl, hbefore⟩ := List.find?_eq_some_iff_append.1 hx
  rw [decide_eq_true_eq] at hpx
  obtain ⟨-, hright, hcross⟩ := List.pairwise_append.1 hl
  have hle : ∀ y ∈ l₁, num y ≤ p := by
    intro y hy
    have hy' := hbefore y hy
    rw [Bool.not_eq_true', decide_eq_false_iff_not] at hy'
    exact not_lt.1 hy'
  have hsame : window num keep b (num x) l₁ = window num keep b p l₁ := by
    rw [window_eq_above hle, window_eq_above fun y hy => (hle y hy).trans hpx.le]
  have hrest : ∀ q, q ≤ num x → window num keep b q l₂ = [] := by
    intro q hq
    rw [List.eq_nil_iff_forall_not_mem]
    intro y hy
    obtain ⟨hmem, -, hyq⟩ := mem_window.1 hy
    exact absurd ((List.pairwise_cons.1 hright).1 y hmem) (not_lt.2 (hyq.trans hq))
  have hcons : ∀ q, window num keep b q (x :: l₂) = window num keep b q [x] ++ window num keep b q l₂ := fun q =>
    window_append [x] l₂
  rw [window_append, window_append, hcons, hcons, hrest _ le_rfl, hrest p hpx.le, hsame, List.append_nil, List.append_nil,
    List.append_assoc]
  congr 1
  have hbx : b < num x := lt_of_le_of_lt hb hpx
  rw [window, window, above]
  cases hk : keep x <;> simp [hk, hbx, not_le.2 hpx]

/-- A reader whose position is the number of an entry has read up to this entry. -/
theorem window_of_above {d r : List α} {x : α} (h : above num keep b l = d ++ x :: r) :
    window num keep b (num x) l = d ++ [x] := by
  have hsorted : (above num keep b l).Pairwise fun x y => num x < num y := above_pairwise hl
  rw [h] at hsorted
  obtain ⟨-, hright, hcross⟩ := List.pairwise_append.1 hsorted
  rw [window, h, List.filter_append, List.filter_cons, if_pos (decide_eq_true le_rfl)]
  have hd : d.filter (fun y => decide (num y ≤ num x)) = d :=
    List.filter_eq_self.2 fun y hy => decide_eq_true (hcross y hy x List.mem_cons_self).le
  have hr : r.filter (fun y => decide (num y ≤ num x)) = [] := by
    rw [List.filter_eq_nil_iff]
    intro y hy hle
    rw [decide_eq_true_eq] at hle
    exact absurd ((List.pairwise_cons.1 hright).1 y hy) (not_lt.2 hle)
  rw [hd, hr]

/-- So for an entry it has already read. -/
theorem window_split {d r : List α} {x : α} (h : window num keep b p l = d ++ x :: r) :
    window num keep b (num x) l = d ++ [x] := by
  obtain ⟨more, hmore⟩ : window num keep b p l <+: above num keep b l := window_prefix hl
  rw [h, List.append_assoc, List.cons_append] at hmore
  exact window_of_above hl hmore.symm

/-- The last entry has the highest number. -/
theorem le_of_getLast? {t : α} (ht : l.getLast? = some t) : ∀ x ∈ l, num x ≤ num t := by
  intro x hx
  have hne : l ≠ [] := List.ne_nil_of_mem hx
  have hsplit := List.dropLast_append_getLast hne
  rw [List.getLast?_eq_some_getLast hne, Option.some.injEq] at ht
  rw [ht] at hsplit
  rw [← hsplit] at hl hx
  rcases List.mem_append.1 hx with hx | hx
  · exact ((List.pairwise_append.1 hl).2.2 x hx t (List.mem_singleton_self _)).le
  · rw [List.mem_singleton.1 hx]

end Sorted

end Lib
