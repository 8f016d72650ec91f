import Mathlib.Data.List.Nodup
import Mathlib.Data.List.Perm.Subperm
import Mathlib.Data.List.TakeWhile

/-!
# Computations that may not end

A recursion that may not end is a function of a bound on its work that gives nothing when the bound is too small. It ends with a value
when every bound that is large enough gives that value.
-/

namespace Lib

universe u v

variable {α : Type u} {β : Type v}

/-- Visit the nodes on a stack, whose top is first, and push the successors of each new one, for at most `k` new nodes. -/
def search [DecidableEq α] (next : α → List α) : Nat → List α → List α → List α
  | 0, _, seen => seen
  | k + 1, stack, seen =>
    match stack.dropWhile (· ∈ seen) with
    | [] => seen
    | x :: rest => search next k ((next x).reverse ++ rest) (seen ++ [x])

/-- The computation ends with a value. -/
def Returns (f : Nat → Option α) (a : α) : Prop := ∃ n, ∀ k, n ≤ k → f k = some a

namespace Returns

variable {f g : Nat → Option α} {a : α}

theorem const (a : α) : Returns (fun _ => some a) a := ⟨0, fun _ _ => rfl⟩

/-- A call ends when its body does. -/
theorem call (hg : Returns g a) (h : ∀ k, f (k + 1) = g k) : Returns f a := by
  obtain ⟨n, hn⟩ := hg
  refine ⟨n + 1, fun k hk => ?_⟩
  obtain ⟨j, rfl⟩ : ∃ j, k = j + 1 := ⟨k - 1, by omega⟩
  rw [h, hn j (by omega)]

theorem bind {h : Nat → α → Option β} {b : β} (hf : Returns f a) (hh : Returns (fun k => h k a) b) :
    Returns (fun k => (f k).bind (h k)) b := by
  obtain ⟨n, hn⟩ := hf
  obtain ⟨m, hm⟩ := hh
  refine ⟨max n m, fun k hk => ?_⟩
  dsimp only
  rw [hn k (by omega), Option.bind_some]
  exact hm k (by omega)

theorem mapM {l : List α} {h : Nat → α → Option β} {v : α → β} (hl : ∀ x ∈ l, Returns (fun k => h k x) (v x)) :
    Returns (fun k => l.mapM (h k)) (l.map v) := by
  induction l with
  | nil => exact const []
  | cons x l ih =>
    obtain ⟨hx, hrest⟩ := List.forall_mem_cons.1 hl
    simp only [List.mapM_cons]
    exact hx.bind ((ih hrest).bind (const _))

theorem flatMap {l : List α} {h : Nat → α → Option (List β)} {v : α → List β} (hl : ∀ x ∈ l, Returns (fun k => h k x) (v x)) :
    Returns (fun k => (l.mapM (h k)).bind fun out => some out.flatten) (l.flatMap v) := by
  rw [List.flatMap_def]
  exact (mapM hl).bind (const _)

/-- A loop over a stack ends with what a search finds, when the successors of each node of a universe are computed and lie in it, and
the search has a round for each node that has not been seen. -/
theorem search [DecidableEq α] {next : α → List α} {loop : Nat → List α → List α → Option (List α)}
    {successors : Nat → α → Option (List α)} {U : List α} (hnil : ∀ k seen, loop (k + 1) [] seen = some seen)
    (hcons : ∀ k x rest seen, loop (k + 1) (x :: rest) seen = if x ∈ seen then loop k rest seen
      else (successors k x).bind fun added => loop k (added.reverse ++ rest) (seen ++ [x]))
    (hnext : ∀ x ∈ U, next x ⊆ U) (hsuccessors : ∀ x ∈ U, Returns (fun k => successors k x) (next x)) {rounds : Nat}
    {stack seen : List α} (hstack : stack ⊆ U) (hseen : seen ⊆ U) (hnodup : seen.Nodup) (hrounds : U.length ≤ rounds + seen.length) :
    Returns (fun k => loop k stack seen) (Lib.search next rounds stack seen) := by
  have hskip {x : α} {rest seen : List α} {r : List α} (hx : x ∈ seen) (h : Returns (fun k => loop k rest seen) r) :
      Returns (fun k => loop k (x :: rest) seen) r := h.call fun k => by rw [hcons, if_pos hx]
  induction rounds generalizing stack seen with
  | zero =>
    have hall : U ⊆ seen := ((hnodup.subperm hseen).perm_of_length_le (by omega)).symm.subset
    induction stack with
    | nil => exact (const seen).call fun k => hnil k seen
    | cons x rest ih => exact hskip (hall (hstack List.mem_cons_self)) (ih fun y hy => hstack (List.mem_cons_of_mem x hy))
  | succ rounds ihr =>
    induction stack with
    | nil => exact (const seen).call fun k => hnil k seen
    | cons x rest ih =>
      obtain ⟨hxU, hrest⟩ := List.cons_subset.1 hstack
      by_cases hx : x ∈ seen
      · have hsame : Lib.search next (rounds + 1) (x :: rest) seen = Lib.search next (rounds + 1) rest seen := by
          rw [Lib.search, Lib.search, List.dropWhile_cons_of_pos (p := (· ∈ seen)) (decide_eq_true hx)]
        rw [hsame]
        exact hskip hx (ih hrest)
      · have hvisit : Lib.search next (rounds + 1) (x :: rest) seen =
            Lib.search next rounds ((next x).reverse ++ rest) (seen ++ [x]) := by
          rw [Lib.search, List.dropWhile_cons_of_neg (p := (· ∈ seen)) (by simp [hx])]
        have hstack' : (next x).reverse ++ rest ⊆ U :=
          List.append_subset.2 ⟨fun y hy => hnext x hxU (List.mem_reverse.1 hy), hrest⟩
        have hseen' : seen ++ [x] ⊆ U := List.append_subset.2 ⟨hseen, List.cons_subset.2 ⟨hxU, List.nil_subset _⟩⟩
        have hnodup' : (seen ++ [x]).Nodup := List.nodup_append_comm.1 (List.nodup_cons.2 ⟨hx, hnodup⟩)
        have hlength : U.length ≤ rounds + (seen ++ [x]).length := by
          rw [List.length_append, List.length_singleton]
          omega
        have hbody : Returns (fun k => (successors k x).bind fun added => loop k (added.reverse ++ rest) (seen ++ [x])) _ :=
          (hsuccessors x hxU).bind (ihr hstack' hseen' hnodup' hlength)
        rw [hvisit]
        exact hbody.call fun k => by rw [hcons, if_neg hx]

end Returns

end Lib
