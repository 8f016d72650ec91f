import Mathlib.Data.List.Basic

/-!
# Scripts of calls

A computation that issues calls one after the other and may stop before it has a result. What its calls and its result meet is
said by a predicate on each, and where the calls lead by a relation between the last state and the result; the rules below compose
such statements along the computation.
-/

namespace Lib

universe u v

/-- The calls that a computation issues, in order, and its result; with none it has stopped. -/
structure Script (ω : Type u) (α : Type v) where
  calls : List ω
  result : Option α

namespace Script

variable {ω : Type u} {α β : Type v}

/-- Issue one call. -/
def call (w : ω) : Script ω PUnit.{v + 1} := ⟨[w], some PUnit.unit⟩

/-- Stop here. -/
def stop : Script ω α := ⟨[], none⟩

instance : Monad (Script ω) where
  pure a := ⟨[], some a⟩
  bind x f :=
    match x.result with
    | none => ⟨x.calls, none⟩
    | some a => ⟨x.calls ++ (f a).calls, (f a).result⟩

/-- Every call of a computation meets `P`, and its result, if it has one, meets `Q`. -/
def Meets (P : ω → Prop) (Q : α → Prop) (x : Script ω α) : Prop := (∀ w ∈ x.calls, P w) ∧ ∀ a, x.result = some a → Q a

variable {P : ω → Prop} {Q : α → Prop} {R : β → Prop}

theorem meets_pure {a : α} (h : Q a) : Meets P Q (pure a : Script ω α) :=
  ⟨List.forall_mem_nil _, fun _ hb => by cases hb; exact h⟩

theorem meets_stop : Meets P Q (stop : Script ω α) := ⟨List.forall_mem_nil _, fun _ hb => by cases hb⟩

theorem meets_call {Q : PUnit → Prop} {w : ω} (hw : P w) (h : Q PUnit.unit) : Meets P Q (call w) :=
  ⟨List.forall_mem_singleton.2 hw, fun _ _ => h⟩

/-- What follows a computation starts from what the result of the computation meets. -/
theorem meets_bind {x : Script ω α} {f : α → Script ω β} (hx : Meets P Q x) (hf : ∀ a, Q a → Meets P R (f a)) :
    Meets P R (x >>= f) := by
  obtain ⟨calls, result⟩ := x
  cases result with
  | none => exact ⟨hx.1, fun _ hb => by cases hb⟩
  | some a =>
    obtain ⟨hcalls, hresult⟩ := hf a (hx.2 a rfl)
    exact ⟨fun w hw => (List.mem_append.1 hw).elim (hx.1 w) (hcalls w), hresult⟩

/-- A call, and what follows it. -/
theorem meets_call_bind {w : ω} {f : PUnit → Script ω β} (hw : P w) (hf : Meets P R (f PUnit.unit)) :
    Meets P R (call w >>= f) :=
  meets_bind (Q := fun _ => True) (meets_call hw trivial) fun _ _ => hf

/-- A call comes before what follows it. -/
theorem calls_call_bind (w : ω) (f : PUnit → Script ω β) : (call w >>= f).calls = w :: (f PUnit.unit).calls := rfl

/-- What a computation calls is called before what follows it. -/
theorem mem_calls_bind_left {x : Script ω α} {f : α → Script ω β} {w : ω} (hw : w ∈ x.calls) : w ∈ (x >>= f).calls := by
  obtain ⟨calls, result⟩ := x
  cases result with
  | none => exact hw
  | some a => exact List.mem_append_left _ hw

/-- What follows a computation with a result is called. -/
theorem mem_calls_bind_right {x : Script ω α} {f : α → Script ω β} {w : ω} {a : α} (hx : x.result = some a)
    (hw : w ∈ (f a).calls) : w ∈ (x >>= f).calls := by
  obtain ⟨calls, result⟩ := x
  cases hx
  exact List.mem_append_right _ hw

/-! ## Where the calls lead -/

section Leads

variable {σ : Type*} (step : σ → ω → σ)

/-- The state that all calls lead to from `s` and the result, if there is one, meet `Q`. -/
def Leads (s : σ) (Q : σ → α → Prop) (x : Script ω α) : Prop := ∀ a, x.result = some a → Q (x.calls.foldl step s) a

variable {step} {s : σ} {Q : σ → α → Prop} {R : σ → β → Prop}

theorem leads_pure {a : α} (h : Q s a) : Leads step s Q (pure a : Script ω α) := fun _ hb => by cases hb; exact h

theorem leads_stop : Leads step s Q (stop : Script ω α) := fun _ hb => by cases hb

/-- What follows a computation starts where its calls lead. -/
theorem leads_bind {x : Script ω α} {f : α → Script ω β} (hx : Leads step s Q x) (hf : ∀ t a, Q t a → Leads step t R (f a)) :
    Leads step s R (x >>= f) := by
  obtain ⟨calls, result⟩ := x
  cases result with
  | none => exact fun _ hb => by cases hb
  | some a =>
    intro b hb
    have hlast := hf _ a (hx a rfl) b hb
    rw [← List.foldl_append] at hlast
    exact hlast

theorem leads_call {Q : σ → PUnit → Prop} {w : ω} (h : Q (step s w) PUnit.unit) : Leads step s Q (call w) := fun _ _ => h

theorem leads_call_bind {w : ω} {f : PUnit → Script ω β} (hf : Leads step (step s w) R (f PUnit.unit)) :
    Leads step s R (call w >>= f) :=
  leads_bind (Q := fun t _ => t = step s w) (leads_call rfl) fun _ _ ht => ht ▸ hf

end Leads

end Script

end Lib
