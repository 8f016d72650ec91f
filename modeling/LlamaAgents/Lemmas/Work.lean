import Mathlib.Data.Multiset.MapFold
import LlamaAgents.Reduce

/-!
# Work records

A work item keeps its record (its event, scope, batch and id) while it moves between a step's queue and a worker. The records
that a step holds are a multiset, and what each dispatch function does is one equation about it.
-/

namespace LlamaAgents

/-- What a work item keeps when it is queued, dispatched or rewound: everything but its timestamps and its worker. -/
structure WorkRecord where
  event : Event
  boundEvents : BoundEvents
  attempts : Nat
  lastException : Option Exn
  lastFailedAt : Option Time
  recoveryCounts : Lib.Dict StepId Nat
  scopePath : ScopePath
  collectionReleasePayload : Option CollectionReleasePayload
  workItemId : Option WorkItemId
deriving DecidableEq

/-- The record of a queued attempt. -/
def EventAttempt.record (a : EventAttempt) : WorkRecord :=
  ⟨a.event, a.boundEvents, a.attempts.getD 0, a.lastException, a.lastFailedAt, a.recoveryCounts, a.scopePath,
    a.collectionReleasePayload, a.workItemId⟩

/-- The record of an execution. -/
def InProgressState.record (x : InProgressState) : WorkRecord :=
  ⟨x.event, x.boundEvents, x.attempts, x.lastException, x.lastFailedAt, x.recoveryCounts, x.scopePath,
    x.sharedState.collectionReleasePayload, x.workItemId⟩

/-- The records of the work that a step holds, queued and in progress. -/
def InternalStepWorkerState.records (w : InternalStepWorkerState) : Multiset WorkRecord :=
  (w.queue.map EventAttempt.record ++ w.inProgress.map InProgressState.record : List WorkRecord)

@[simp] theorem start_record (a : EventAttempt) (n : StepId) (id : Nat) (now : Time) (w : InternalStepWorkerState) :
    (a.start n id now w).record = a.record := rfl

@[simp] theorem rewound_record (x : InProgressState) : x.rewound.record = x.record := rfl

@[simp] theorem refresh_record (x : InProgressState) (d : Lib.Dict String (List BufferedEvent)) :
    (x.refresh d).record = x.record := rfl

@[simp] theorem wake_record (a : EventAttempt) (due : Time) : (a.wake due).record = a.record := by
  unfold EventAttempt.wake
  split <;> rfl

@[simp] theorem records_empty : ({} : InternalStepWorkerState).records = 0 := rfl

namespace WorkAux

variable (c : StepConfig) (n : StepId) (now : Time)

/-- Adding an event to a step adds its record, wherever it goes. -/
theorem addOrEnqueueEvent_records (a : EventAttempt) (w : InternalStepWorkerState) :
    (addOrEnqueueEvent c n a now w).1.records = a.record ::ₘ w.records := by
  unfold addOrEnqueueEvent InternalStepWorkerState.records
  rw [Multiset.cons_coe, Multiset.coe_eq_coe]
  split
  · simp only [List.map_append, List.map_cons, List.map_nil, start_record, ← List.append_assoc]
    exact List.perm_append_singleton _ _
  · simp only [List.map_append, List.map_cons, List.map_nil, List.append_assoc, List.singleton_append]
    exact List.perm_middle

/-- What `popEligible` takes out of a queue, it takes from somewhere in it. -/
theorem popEligible_eq_some {q q' : List EventAttempt} {a : EventAttempt} (h : popEligible q = some (a, q')) :
    a.isEligible ∧ ∃ l r, q = l ++ a :: r ∧ q' = l ++ r ∧ ∀ b ∈ l, ¬ b.isEligible := by
  induction q generalizing q' with
  | nil => simp [popEligible] at h
  | cons b q ih =>
    rw [popEligible] at h
    split at h
    · case isTrue hb =>
      simp only [Option.some.injEq, Prod.mk.injEq] at h
      obtain ⟨rfl, rfl⟩ := h
      exact ⟨hb, [], q, rfl, rfl, by simp⟩
    · case isFalse hb =>
      obtain ⟨⟨a', q₁⟩, h₁, h₂⟩ := Option.map_eq_some_iff.1 h
      simp only [Prod.mk.injEq] at h₂
      obtain ⟨rfl, rfl⟩ := h₂
      obtain ⟨ha, l, r, rfl, rfl, hl⟩ := ih h₁
      refine ⟨ha, b :: l, r, rfl, rfl, ?_⟩
      intro x hx
      rcases List.mem_cons.1 hx with rfl | hx
      · exact hb
      · exact hl x hx

/-- Without an eligible attempt there is nothing to take. -/
theorem popEligible_eq_none {q : List EventAttempt} (h : popEligible q = none) : ∀ a ∈ q, ¬ a.isEligible := by
  induction q with
  | nil => simp
  | cons b q ih =>
    rw [popEligible] at h
    split at h
    · cases h
    · case isFalse hb =>
      intro a ha
      rcases List.mem_cons.1 ha with rfl | ha
      · exact hb
      · exact ih (Option.map_eq_none_iff.1 h) a ha

/-- Draining the queue loses and creates no work. -/
theorem drainSlots_records (k : Nat) (w : InternalStepWorkerState) : (drainSlots c n now k w).1.records = w.records := by
  induction k generalizing w with
  | zero => rfl
  | succ k ih =>
    rw [drainSlots]
    cases hq : popEligible w.queue with
    | none => rfl
    | some r =>
      obtain ⟨a, q'⟩ := r
      obtain ⟨-, l, r, hl, hr, -⟩ := popEligible_eq_some hq
      simp only [ih, addOrEnqueueEvent_records]
      rw [InternalStepWorkerState.records, InternalStepWorkerState.records, Multiset.cons_coe, Multiset.coe_eq_coe]
      simp only [hl, hr, List.map_append, List.map_cons, List.append_assoc, List.cons_append]
      exact List.perm_middle.symm

theorem drainEligibleQueue_records (w : InternalStepWorkerState) :
    (drainEligibleQueue c n now w).1.records = w.records :=
  drainSlots_records c n now _ w

/-- Rewinding a step loses and creates no work. -/
theorem rewindStep_records (w : InternalStepWorkerState) : (rewindStep now c n w).1.records = w.records := by
  rw [rewindStep, drainEligibleQueue_records]
  rw [InternalStepWorkerState.records, InternalStepWorkerState.records, Multiset.coe_eq_coe]
  simp only [List.map_append, List.map_reverse, List.map_map, List.map_nil, List.append_nil]
  exact ((List.reverse_perm _).append_right _).trans List.perm_append_comm

/-- Waking delayed attempts leaves the records. -/
theorem wakeQueue_records (due : Time) (w : InternalStepWorkerState) :
    ({ w with queue := w.queue.map fun a => a.wake due } : InternalStepWorkerState).records = w.records := by
  simp [InternalStepWorkerState.records, Function.comp_def]

/-- A list is the first element that has a property with the rest of the list. -/
theorem perm_cons_eraseP_of_find? {α : Type*} {p : α → Bool} {l : List α} {x : α} (h : l.find? p = some x) :
    l.Perm (x :: l.eraseP p) := by
  induction l with
  | nil => simp at h
  | cons y l ih =>
    by_cases hy : p y
    · simp only [List.find?_cons_of_pos hy, Option.some.injEq] at h
      rw [List.eraseP_cons_of_pos hy, h]
    · rw [List.find?_cons_of_neg hy] at h
      rw [List.eraseP_cons_of_neg hy]
      exact ((ih h).cons y).trans (List.Perm.swap x y _)

/-- Dropping an execution drops its record. -/
theorem eraseExecution_records {w : InternalStepWorkerState} {id : Nat} {x : InProgressState} (h : w.execution? id = some x) :
    w.records = x.record ::ₘ (w.eraseExecution id).records := by
  have hperm : w.inProgress.Perm (x :: w.inProgress.eraseP fun y => y.workerId = id) := perm_cons_eraseP_of_find? h
  rw [InternalStepWorkerState.records, InternalStepWorkerState.records, Multiset.cons_coe, Multiset.coe_eq_coe]
  exact ((hperm.map _).append_left _).trans List.perm_middle

end WorkAux

end LlamaAgents
