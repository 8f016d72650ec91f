import Mathlib.Data.List.Basic

/-!
# Locks of an event loop

A fair lock of a cooperative event loop. A task that cannot take the lock leaves a future with it and sleeps. A release wakes the
first waiter, but does not hand the lock over: the waiter takes it when it runs. A task can be cancelled while it sleeps, and also
after it was woken and before it runs; then the next one is woken in its place.
-/

namespace Lib

universe u

/-- The future of a sleeping task. -/
inductive WaiterFuture where
  | pending
  | woken
  | cancelled
deriving DecidableEq, Repr

/-- A sleeping task, its future, and whether it is cancelled although its future was done. -/
structure Waiter (τ : Type u) where
  task : τ
  future : WaiterFuture := .pending
  mustCancel : Bool := false

/-- A lock: whether it is locked, and the tasks that sleep on it, the first to come first. -/
structure AsyncLock (τ : Type u) where
  locked : Bool := false
  waiters : List (Waiter τ) := []

namespace AsyncLock

variable {τ : Type u}

/-- Whether the lock can be taken at once: a task waits its turn, unless all those before it are cancelled. -/
def isFree (l : AsyncLock τ) : Bool := !l.locked && l.waiters.all fun w => decide (w.future = .cancelled)

/-- Take the lock, or sleep; and whether it was taken. -/
def acquire (l : AsyncLock τ) (t : τ) : Bool × AsyncLock τ :=
  if l.isFree then (true, { l with locked := true }) else (false, { l with waiters := l.waiters ++ [{ task := t }] })

/-- Make sure that the first waiter will wake up. -/
def wakeUpFirst (l : AsyncLock τ) : AsyncLock τ :=
  match l.waiters with
  | [] => l
  | w :: ws => if w.future = .pending then { l with waiters := { w with future := .woken } :: ws } else l

/-- Give the lock back. There is no result when it is not locked. -/
def release (l : AsyncLock τ) : Option (AsyncLock τ) := if l.locked then some { l with locked := false }.wakeUpFirst else none

/-- Only the first waiter is ever woken, and none while the lock is locked. -/
structure Sound (l : AsyncLock τ) : Prop where
  first : ∀ w ∈ l.waiters.tail, w.future ≠ .woken
  locked : l.locked = true → ∀ w ∈ l.waiters, w.future ≠ .woken

theorem sound_empty : Sound ({} : AsyncLock τ) := ⟨List.forall_mem_nil _, fun _ => List.forall_mem_nil _⟩

/-- Waking the first waiter of a lock that is not locked leaves only that one woken. -/
theorem Sound.wakeUpFirst {l : AsyncLock τ} (h : l.Sound) (hfree : l.locked = false) : l.wakeUpFirst.Sound := by
  rw [AsyncLock.wakeUpFirst]
  split
  · exact h
  · case h_2 w ws hws =>
    split
    · refine ⟨?_, fun hlocked => absurd hlocked (by rw [hfree]; nofun)⟩
      have hfirst := h.first
      rw [hws] at hfirst
      exact hfirst
    · exact h

/-- The lock is locked after a waiter is woken exactly when it was before. -/
@[simp] theorem locked_wakeUpFirst (l : AsyncLock τ) : l.wakeUpFirst.locked = l.locked := by
  rw [AsyncLock.wakeUpFirst]
  split
  · rfl
  · split <;> rfl

/-- A task that comes takes an unlocked lock, or sleeps. -/
theorem acquire_spec {l : AsyncLock τ} (h : l.Sound) (t : τ) :
    (l.acquire t).2.Sound ∧ ((l.acquire t).1 = true ∧ l.locked = false ∧ (l.acquire t).2.locked = true ∨
      (l.acquire t).1 = false ∧ (l.acquire t).2.locked = l.locked) := by
  rw [acquire]
  split
  · case isTrue hfree =>
    rw [isFree, Bool.and_eq_true, Bool.not_eq_true', List.all_eq_true] at hfree
    have hnone : ∀ w ∈ l.waiters, w.future ≠ .woken := by
      intro w hw hwoken
      have hcancelled := hfree.2 w hw
      rw [hwoken] at hcancelled
      cases hcancelled
    exact ⟨⟨fun w hw => hnone w (List.mem_of_mem_tail hw), fun _ => hnone⟩, Or.inl ⟨rfl, hfree.1, rfl⟩⟩
  · refine ⟨⟨?_, fun hlocked => ?_⟩, Or.inr ⟨rfl, rfl⟩⟩
    · intro w hw
      have hcases : w ∈ l.waiters.tail ∨ w = { task := t } := by
        cases hws : l.waiters with
        | nil =>
          rw [hws] at hw
          cases hw
        | cons v vs =>
          rw [hws] at hw
          exact (List.mem_append.1 hw).imp_right List.mem_singleton.1
      rcases hcases with hw | rfl
      · exact h.first w hw
      · nofun
    · intro w hw
      rcases List.mem_append.1 hw with hw | hw
      · exact h.locked hlocked w hw
      · rw [List.mem_singleton.1 hw]
        nofun

/-- A lock that is given back is not locked. -/
theorem release_spec {l m : AsyncLock τ} (h : l.Sound) (hm : l.release = some m) : m.Sound ∧ l.locked = true ∧ m.locked = false := by
  rw [release] at hm
  split at hm
  · case isTrue hlocked =>
    cases hm
    refine ⟨Sound.wakeUpFirst ⟨h.first, fun hnot => by cases hnot⟩ rfl, hlocked, ?_⟩
    rw [locked_wakeUpFirst]
  · cases hm

/-- The tail of what is left of a list is left of its tail. -/
theorem mem_tail_eraseP {p : Waiter τ → Bool} {l : List (Waiter τ)} {w : Waiter τ} (h : w ∈ (l.eraseP p).tail) : w ∈ l.tail := by
  cases l with
  | nil => exact h
  | cons v vs =>
    cases hv : p v with
    | true =>
      rw [List.eraseP_cons_of_pos hv] at h
      exact List.mem_of_mem_tail h
    | false =>
      rw [List.eraseP_cons_of_neg (by rw [hv]; nofun)] at h
      exact List.mem_of_mem_eraseP h

variable [DecidableEq τ]

/-- Cancel a sleeping task. -/
def cancel (l : AsyncLock τ) (t : τ) : AsyncLock τ :=
  { l with waiters := l.waiters.map fun w =>
      if w.task = t then (if w.future = .pending then { w with future := .cancelled } else { w with mustCancel := true }) else w }

/-- A sleeping task runs, once its future is done: it takes the lock, or it is cancelled; and whether it took it. -/
def resume (l : AsyncLock τ) (t : τ) : Option (Bool × AsyncLock τ) :=
  match l.waiters.find? fun w => w.task = t with
  | none => none
  | some w =>
    let rest : AsyncLock τ := { l with waiters := l.waiters.eraseP fun w => w.task = t }
    match w.future with
    | .pending => none
    | .woken => some (if w.mustCancel then (false, if rest.locked then rest else rest.wakeUpFirst) else (true, { rest with locked := true }))
    | .cancelled => some (false, if rest.locked then rest else rest.wakeUpFirst)

/-- Cancelling a task wakes none. -/
theorem Sound.cancel {l : AsyncLock τ} (h : l.Sound) (t : τ) : (l.cancel t).Sound := by
  have hkeep : ∀ w : Waiter τ, (if w.task = t then (if w.future = .pending then { w with future := .cancelled }
      else { w with mustCancel := true }) else w).future = .woken → w.future = .woken := by
    intro w hw
    split at hw
    · split at hw
      · cases hw
      · exact hw
    · exact hw
  refine ⟨fun w hw hwoken => ?_, fun hlocked w hw hwoken => ?_⟩
  · rw [AsyncLock.cancel, ← List.map_tail] at hw
    obtain ⟨v, hv, rfl⟩ := List.mem_map.1 hw
    exact h.first v hv (hkeep v hwoken)
  · obtain ⟨v, hv, rfl⟩ := List.mem_map.1 hw
    exact h.locked hlocked v hv (hkeep v hwoken)

/-- A task that runs takes an unlocked lock, or it is cancelled. -/
theorem resume_spec {l m : AsyncLock τ} (h : l.Sound) {t : τ} {taken : Bool} (hm : l.resume t = some (taken, m)) :
    m.Sound ∧ (taken = true ∧ l.locked = false ∧ m.locked = true ∨ taken = false ∧ m.locked = l.locked) := by
  rw [resume] at hm
  split at hm
  · cases hm
  · case h_2 w hw =>
    have hrest : Sound { l with waiters := l.waiters.eraseP fun w => w.task = t } :=
      ⟨fun v hv => h.first v (mem_tail_eraseP hv), fun hlocked v hv => h.locked hlocked v (List.mem_of_mem_eraseP hv)⟩
    have hgives : ∀ {n : AsyncLock τ}, n = (if l.locked then { l with waiters := l.waiters.eraseP fun w => w.task = t }
        else AsyncLock.wakeUpFirst { l with waiters := l.waiters.eraseP fun w => w.task = t }) →
          n.Sound ∧ n.locked = l.locked := by
      rintro n rfl
      split
      · exact ⟨hrest, rfl⟩
      · case isFalse hfree => exact ⟨hrest.wakeUpFirst (Bool.eq_false_iff.2 hfree), locked_wakeUpFirst _⟩
    dsimp only at hm
    split at hm
    · cases hm
    · case h_2 hwoken =>
      have hfree : l.locked = false := by
        cases hlocked : l.locked with
        | false => rfl
        | true => exact absurd hwoken (h.locked hlocked w (List.mem_of_find?_eq_some hw))
      split at hm
      · obtain ⟨hsound, hlocked⟩ := hgives (Prod.ext_iff.1 (Option.some.inj hm)).2.symm
        exact ⟨hsound, Or.inr ⟨(Prod.ext_iff.1 (Option.some.inj hm)).1.symm, hlocked⟩⟩
      · cases hm
        refine ⟨⟨hrest.first, fun _ v hv hv' => ?_⟩, Or.inl ⟨rfl, hfree, rfl⟩⟩
        -- The woken waiter was the first one, so that the others are those of the tail.
        cases hws : l.waiters with
        | nil =>
          rw [hws] at hv
          cases hv
        | cons x xs =>
          rw [hws] at hv hw
          have htail : ∀ y ∈ xs, y.future ≠ .woken := fun y hy => h.first y (by rw [hws]; exact hy)
          by_cases hx : x.task = t
          · rw [List.eraseP_cons_of_pos (by simpa using hx)] at hv
            exact htail v hv hv'
          · rw [List.find?_cons_of_neg (by simpa using hx)] at hw
            exact htail w (List.mem_of_find?_eq_some hw) hwoken
    · obtain ⟨hsound, hlocked⟩ := hgives (Prod.ext_iff.1 (Option.some.inj hm)).2.symm
      exact ⟨hsound, Or.inr ⟨(Prod.ext_iff.1 (Option.some.inj hm)).1.symm, hlocked⟩⟩

end AsyncLock

end Lib
