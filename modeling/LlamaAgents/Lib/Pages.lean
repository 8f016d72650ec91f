import Mathlib.Data.List.Sort

/-!
# Reading by pages

A collection is read by pages of a fixed size, each ordered by number and starting after the last number of the one before. A page
that is not full is the last.
-/

namespace Lib

universe u v

variable {α : Type u} {β : Type v} [LinearOrder β] (num : α → β) (size : Nat)

/-- Whether an entry comes after a cursor, if there is one. -/
def isAfter (cursor : Option β) (x : α) : Bool := cursor.all fun n => decide (n < num x)

/-- The first entries after a cursor, in order. -/
def page (cursor : Option β) (l : List α) : List α :=
  ((l.filter (isAfter num cursor)).insertionSort fun x y => num x ≤ num y).take size

/-- All pages after a cursor, up to a number of pages. -/
def readPages : Nat → Option β → List α → List α
  | 0, _, _ => []
  | fuel + 1, cursor, l =>
    let p := page num size cursor l
    p ++ if p.length < size then [] else readPages fuel (p.getLast?.map num) l

variable {num size} {l : List α}

section Sorted

variable (hl : l.Pairwise fun x y => num x < num y)

include hl

/-- A page of a collection that is in order. -/
theorem page_eq (cursor : Option β) : page num size cursor l = (l.filter (isAfter num cursor)).take size := by
  have hle : (l.filter (isAfter num cursor)).Pairwise fun x y => num x ≤ num y :=
    (hl.sublist List.filter_sublist).imp fun h => h.le
  rw [page, List.Pairwise.insertionSort_eq hle]

/-- What comes after the last entry of a page is what the page left out. -/
theorem filter_isAfter_getLast {cursor : Option β} {x : α} {d : List α}
    (hd : (l.filter (isAfter num cursor)).take size = d ++ [x]) :
    l.filter (isAfter num (some (num x))) = (l.filter (isAfter num cursor)).drop size := by
  have hsplit : l.filter (isAfter num cursor) = d ++ x :: (l.filter (isAfter num cursor)).drop size := by
    conv_lhs => rw [← List.take_append_drop size (l.filter (isAfter num cursor)), hd, List.append_assoc, List.singleton_append]
  have hsorted : (l.filter (isAfter num cursor)).Pairwise fun x y => num x < num y := hl.sublist List.filter_sublist
  have hx : isAfter num cursor x := by
    have hmem : x ∈ l.filter (isAfter num cursor) := by
      rw [hsplit]
      exact List.mem_append_right _ List.mem_cons_self
    exact (List.mem_filter.1 hmem).2
  have hnarrow : l.filter (isAfter num (some (num x))) =
      (l.filter (isAfter num cursor)).filter (isAfter num (some (num x))) := by
    rw [List.filter_filter]
    refine List.filter_congr fun y _ => ?_
    rw [Bool.eq_iff_iff, Bool.and_eq_true]
    refine ⟨fun hy => ⟨hy, ?_⟩, And.left⟩
    cases cursor with
    | none => rfl
    | some n =>
      simp only [isAfter, Option.all_some, decide_eq_true_eq] at hx hy ⊢
      exact hx.trans hy
  rw [hsplit] at hsorted
  obtain ⟨-, hright, hcross⟩ := List.pairwise_append.1 hsorted
  have hbefore : (d ++ [x]).filter (isAfter num (some (num x))) = [] := by
    rw [List.filter_eq_nil_iff]
    intro y hy
    simp only [isAfter, Option.all_some, decide_eq_true_eq, not_lt]
    rcases List.mem_append.1 hy with hy | hy
    · exact (hcross y hy x List.mem_cons_self).le
    · rw [List.mem_singleton.1 hy]
  have hbehind : ((l.filter (isAfter num cursor)).drop size).filter (isAfter num (some (num x))) =
      (l.filter (isAfter num cursor)).drop size := by
    refine List.filter_eq_self.2 fun y hy => ?_
    simp only [isAfter, Option.all_some, decide_eq_true_eq]
    exact (List.pairwise_cons.1 hright).1 y hy
  calc l.filter (isAfter num (some (num x)))
      = ((d ++ [x]) ++ (l.filter (isAfter num cursor)).drop size).filter (isAfter num (some (num x))) := by
        rw [hnarrow, List.append_assoc, List.singleton_append, ← hsplit]
    _ = (l.filter (isAfter num cursor)).drop size := by rw [List.filter_append, hbefore, hbehind, List.nil_append]

/-- Enough pages of a collection in order are all that comes after the cursor. -/
theorem readPages_eq (hsize : 0 < size) {fuel : Nat} {cursor : Option β}
    (hfuel : (l.filter (isAfter num cursor)).length < fuel) :
    readPages num size fuel cursor l = l.filter (isAfter num cursor) := by
  induction fuel generalizing cursor with
  | zero => exact absurd hfuel (Nat.not_lt_zero _)
  | succ fuel ih =>
    rw [readPages]
    rw [page_eq hl]
    split
    · case isTrue hshort =>
      have hlength : (l.filter (isAfter num cursor)).length ≤ size := by
        rw [List.length_take] at hshort
        omega
      rw [List.append_nil, List.take_of_length_le hlength]
    · case isFalse hfull =>
      rcases List.eq_nil_or_concat ((l.filter (isAfter num cursor)).take size) with hnil | ⟨d, x, hd⟩
      · rw [hnil, List.length_nil] at hfull
        exact absurd hsize hfull
      · rw [List.concat_eq_append] at hd
        have hrest := filter_isAfter_getLast hl hd
        rw [hd, List.getLast?_concat, Option.map_some, ih, hrest, ← hd, List.take_append_drop]
        rw [hrest, List.length_drop]
        have hlen : 0 < (l.filter (isAfter num cursor)).length := by
          by_contra hzero
          rw [Nat.not_lt, Nat.le_zero, List.length_eq_zero_iff] at hzero
          rw [hzero, List.take_nil] at hd
          exact absurd hd.symm (List.append_ne_nil_of_right_ne_nil d (List.cons_ne_nil x []))
        omega

end Sorted

end Lib
