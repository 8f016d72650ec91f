import Mathlib.Logic.Basic

/-!
# Runs of a system

A system is a partial function from a state and an action to the next state. A run from a state takes one action after the
other, each of which meets a condition on the state it is taken in. The rules here carry a property along a run, and turn an
evaluated sequence of actions into a run.
-/

namespace Lib

universe u v

variable {σ : Type u} {α : Type v}

/-- The states that a run from `s` reaches, when every action of it meets the condition `C` in the state it is taken in. -/
inductive Run (step : σ → α → Option σ) (C : σ → α → Prop) (s : σ) : σ → Prop
  | refl : Run step C s s
  | tail {t u : σ} {a : α} : Run step C s t → C t a → step t a = some u → Run step C s u

/-- The state after a sequence of actions, if each of them is allowed in its turn and can be taken. -/
def exec (step : σ → α → Option σ) (ok : σ → α → Bool) : σ → List α → Option σ
  | s, [] => some s
  | s, a :: l => if ok s a then (step s a).bind fun t => exec step ok t l else none

namespace Run

variable {step : σ → α → Option σ} {C : σ → α → Prop} {s t : σ}

/-- A property of the first state that every action keeps holds of every state reached. -/
theorem invariant (P : σ → Prop) (h : Run step C s t) (h0 : P s)
    (hstep : ∀ t a u, P t → C t a → step t a = some u → P u) : P t := by
  induction h with
  | refl => exact h0
  | tail _ hc hs ih => exact hstep _ _ _ ih hc hs

/-- Runs compose. -/
theorem trans {u : σ} (h : Run step C s t) (h' : Run step C t u) : Run step C s u := by
  induction h' with
  | refl => exact h
  | tail _ hc hs ih => exact ih.tail hc hs

/-- A run takes no action, or a first one and then the others. -/
theorem cases_head (h : Run step C s t) : s = t ∨ ∃ a u, C s a ∧ step s a = some u ∧ Run step C u t := by
  induction h with
  | refl => exact Or.inl rfl
  | @tail t u a _ hc hs ih =>
    rcases ih with rfl | ⟨b, v, hb, hv, hrest⟩
    · exact Or.inr ⟨a, u, hc, hs, refl⟩
    · exact Or.inr ⟨b, v, hb, hv, hrest.tail hc hs⟩

/-- A weaker condition allows every run that a stronger one does. -/
theorem mono {C' : σ → α → Prop} (hC : ∀ t a, C t a → C' t a) (h : Run step C s t) : Run step C' s t := by
  induction h with
  | refl => exact refl
  | tail _ hc hs ih => exact ih.tail (hC _ _ hc) hs

/-- A sequence of actions that evaluates to a state is a run to it. -/
theorem of_exec {ok : σ → α → Bool} {l : List α} (h : exec step ok s l = some t) : Run step (fun s a => ok s a) s t := by
  induction l generalizing s with
  | nil =>
    rw [exec, Option.some.injEq] at h
    exact h ▸ refl
  | cons a l ih =>
    rw [exec] at h
    split at h
    · case isTrue hok =>
      obtain ⟨u, hu, h⟩ := Option.bind_eq_some_iff.1 h
      have hfirst : Run step (fun s a => ok s a) s u := refl.tail hok hu
      exact hfirst.trans (ih h)
    · cases h

/-- A sequence of actions that evaluates to a state with some property reaches such a state. -/
theorem exists_of_exec (step : σ → α → Option σ) (ok : σ → α → Bool) (s : σ) (l : List α) (P : σ → Prop) [DecidablePred P]
    (h : (exec step ok s l).any fun t => P t) : ∃ t, Run step (fun s a => ok s a) s t ∧ P t := by
  cases ht : exec step ok s l with
  | none => simp [ht] at h
  | some t =>
    rw [ht, Option.any_some] at h
    exact ⟨t, of_exec ht, of_decide_eq_true h⟩

/-- So does a sequence of actions that are under no condition. -/
theorem exists_of_actions (step : σ → α → Option σ) (s : σ) (l : List α) (P : σ → Prop) [DecidablePred P]
    (h : (exec step (fun _ _ => true) s l).any fun t => P t) : ∃ t, Run step (fun _ _ => True) s t ∧ P t := by
  obtain ⟨t, hrun, ht⟩ := exists_of_exec step _ s l P h
  exact ⟨t, hrun.mono fun _ _ _ => trivial, ht⟩

end Run

/-! ## Replay of a journal -/

universe w x

variable {τ : Type v} {T : Type w} {ε : Type x}

/-- The state after a journal, whose entries are reduced at the times of the clock. -/
def replay (reduce : τ → T → σ → Except ε σ) : (Nat → T) → σ → List τ → Except ε σ
  | _, s, [] => .ok s
  | clock, s, t :: ts =>
    match reduce t (clock 0) s with
    | .error e => .error e
    | .ok s' => replay reduce (fun k => clock (k + 1)) s' ts

end Lib
