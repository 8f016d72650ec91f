import LlamaAgents.Lemmas.Holds

/-!
# Snapshots and rewinds keep the workload

A snapshot keeps every item as it is, and a rewind only moves items between the queue and the workers. What a rewind can change
is the time of the first attempt, of an item that it is the first to dispatch.
-/

namespace LlamaAgents

namespace ResumedAux

open CommandsAux

variable {cfg : BrokerConfig} {σ τ : BrokerState} {w v : InternalStepWorkerState} (now now' : Time)

theorem popEligible_none {q : List EventAttempt} (hq : ∀ a ∈ q, a.isEligible = false) : popEligible q = none := by
  induction q with
  | nil => rfl
  | cons b q ih =>
    have hb := hq b List.mem_cons_self
    rw [popEligible, if_neg (by rw [hb]; decide), ih fun a ha => hq a (List.mem_cons_of_mem _ ha)]
    rfl

theorem workers_rewound (cfg : BrokerConfig) (σ : BrokerState) {n : StepId} {c : StepConfig}
    (hn : cfg.steps.get? n = some c) : (rewindInProgress cfg now σ).1.workers n = (rewindStep now c n (σ.workers n)).1 := by
  have hmem : (n, c) ∈ cfg.sortedSteps := (List.mem_insertionSort _).2 ((cfg.steps.get?_eq_some_iff n c).1 hn)
  exact (PlainAux.forEachStep_workers (f := rewindStep now) (PlainAux.nodup_sortedSteps cfg) σ).1 (n, c) hmem

end ResumedAux

namespace WorkloadAux

variable {now now' : Time} {c : StepConfig} {n : StepId} {w : InternalStepWorkerState}

theorem kept_refl (i : WorkItem) : i.Kept now i := Or.inl rfl

theorem kept_trans {i j k : WorkItem} (h : i.Kept now j) (h' : j.Kept now k) : i.Kept now k := by
  rcases h with rfl | ⟨hi, rfl⟩
  · exact h'
  · rcases h' with rfl | ⟨-, rfl⟩ <;> exact Or.inr ⟨hi, rfl⟩

instance (now : Time) : IsTrans WorkItem (WorkItem.Kept now) := ⟨fun _ _ _ => kept_trans⟩

theorem rel_kept_refl (s : Multiset WorkItem) : Multiset.Rel (WorkItem.Kept now) s s :=
  Multiset.rel_refl_of_refl_on fun i _ => kept_refl i

/-! ## Dispatch -/

/-- Starting an attempt keeps its item. -/
theorem start_kept {a : EventAttempt} (ha : a.isEligible) (id : Nat) : a.item.Kept now (a.start n id now w).item := by
  have hdelay : a.notBefore = none := by simpa [EventAttempt.isEligible] using ha
  unfold EventAttempt.item InProgressState.item
  rw [start_record, hdelay]
  by_cases h : a.firstAttemptAt.getD 0 = 0
  · exact Or.inr ⟨h, by simp [EventAttempt.start, h]⟩
  · obtain ⟨t, ht⟩ : ∃ t, a.firstAttemptAt = some t := Option.ne_none_iff_exists'.1 fun hnone => h (by simp [hnone])
    rw [ht, Option.getD_some] at h
    exact Or.inl (by simp [EventAttempt.start, ht, h])

theorem addOrEnqueueEvent_items (a : EventAttempt) (w : InternalStepWorkerState) :
    Multiset.Rel (WorkItem.Kept now) (a.item ::ₘ w.items) (addOrEnqueueEvent c n a now w).1.items := by
  unfold addOrEnqueueEvent
  split
  · case isTrue h =>
    have hitems : ({ w with inProgress := w.inProgress ++ [a.start n (freeWorkerId c w) now w] } :
        InternalStepWorkerState).items = (a.start n (freeWorkerId c w) now w).item ::ₘ w.items := by
      rw [InternalStepWorkerState.items, InternalStepWorkerState.items, Multiset.cons_coe, Multiset.coe_eq_coe, List.map_append,
        ← List.append_assoc]
      exact List.perm_append_singleton _ _
    rw [hitems]
    exact Multiset.Rel.cons (start_kept h.2 _) (rel_kept_refl _)
  · have hitems : ({ w with queue := w.queue ++ [a] } : InternalStepWorkerState).items = a.item ::ₘ w.items := by
      rw [InternalStepWorkerState.items, InternalStepWorkerState.items, Multiset.cons_coe, Multiset.coe_eq_coe, List.map_append,
        List.append_assoc]
      exact List.perm_middle
    rw [hitems]
    exact rel_kept_refl _

theorem drainSlots_items (k : Nat) (w : InternalStepWorkerState) :
    Multiset.Rel (WorkItem.Kept now) w.items (drainSlots c n now k w).1.items := by
  induction k generalizing w with
  | zero => exact rel_kept_refl _
  | succ k ih =>
    rw [drainSlots]
    cases hq : popEligible w.queue with
    | none => exact rel_kept_refl _
    | some r =>
      obtain ⟨a, q⟩ := r
      obtain ⟨-, l, r, hl, rfl, -⟩ := WorkAux.popEligible_eq_some hq
      have hitems : w.items = a.item ::ₘ ({ w with queue := l ++ r } : InternalStepWorkerState).items := by
        rw [InternalStepWorkerState.items, InternalStepWorkerState.items, Multiset.cons_coe, Multiset.coe_eq_coe, hl]
        simp only [List.map_append, List.map_cons, List.append_assoc, List.cons_append]
        exact List.perm_middle
      rw [hitems]
      exact (addOrEnqueueEvent_items a _).trans _ (ih _)

/-- Rewinding a step keeps its workload. -/
theorem rewindStep_kept (w : InternalStepWorkerState) : WorkloadKept now w (rewindStep now c n w).1 := by
  have hframe := FrameAux.drainEligibleQueue_frame now c n
    { w with queue := (w.inProgress.map InProgressState.rewound).reverse ++ w.queue, inProgress := [] }
  refine ⟨?_, hframe.collected, hframe.static, congrArg _ hframe.waiters⟩
  have hitems : w.items = ({ w with
      queue := (w.inProgress.map InProgressState.rewound).reverse ++ w.queue, inProgress := [] } :
      InternalStepWorkerState).items := by
    rw [InternalStepWorkerState.items, InternalStepWorkerState.items, Multiset.coe_eq_coe]
    simp only [List.map_append, List.map_reverse, List.map_map, List.map_nil, List.append_nil]
    exact List.perm_append_comm.trans ((List.reverse_perm _).symm.append_right _)
  rw [hitems]
  exact drainSlots_items _ _

/-! ## Snapshots -/

/-- The condition that a work item with a payload is triggered by it. -/
def triggered : ItemCondition := fun _ e p => triggerOf p e = e

theorem triggered_passed (cfg : BrokerConfig) : triggered.Passed cfg where
  event _ _ _ := rfl
  collect _ _ _ := rfl
  restored _ _ p h := congrArg (triggerOf p) h

/-- A step that is restored from a snapshot has the same items. -/
theorem toWorker_items (h : w.Holds triggered n) : w.toSerialized.toWorker.items = w.items := by
  have hqueue : w.queue.map (fun a => a.toSerialized.toAttempt.item) = w.queue.map EventAttempt.item := by
    refine List.map_congr_left fun a ha => ?_
    have htrigger : triggerOf a.collectionReleasePayload a.event = a.event := h.queue a ha
    simp [EventAttempt.item, EventAttempt.record, EventAttempt.toSerialized, SerializedEventAttempt.toAttempt, htrigger]
  have hbusy : w.inProgress.map (fun x => x.toSerialized.toAttempt.item) = w.inProgress.map InProgressState.item := by
    refine List.map_congr_left fun x hx => ?_
    have htrigger : triggerOf x.sharedState.collectionReleasePayload x.event = x.event := h.executions x hx
    simp [EventAttempt.item, EventAttempt.record, InProgressState.item, InProgressState.record,
      InProgressState.toSerialized, SerializedEventAttempt.toAttempt, htrigger]
  simp only [InternalStepWorkerState.items, SerializedStepWorkerState.toWorker, InternalStepWorkerState.toSerialized,
    List.map_append, List.map_map, List.map_nil, List.append_nil]
  exact congrArg Multiset.ofList (congrArg₂ (· ++ ·) hqueue hbusy)

/-- And the same workload. -/
theorem toWorker_kept (h : w.Holds triggered n) : WorkloadKept now w w.toSerialized.toWorker := by
  refine ⟨?_, rfl, rfl, ?_⟩
  · rw [toWorker_items h]
    exact rel_kept_refl _
  · simp only [SerializedStepWorkerState.toWorker, InternalStepWorkerState.toSerialized, List.map_map]
    refine List.map_congr_left fun y hy => ?_
    have htrigger : triggerOf y.collectionReleasePayload y.event = y.event := h.waiters y hy
    simp [StepWorkerWaiter.item, StepWorkerWaiter.toSerialized, SerializedWaiter.toWaiter, htrigger]

theorem workloadKept_trans {w' w'' : InternalStepWorkerState} (h : WorkloadKept now w w') (h' : WorkloadKept now w' w'') :
    WorkloadKept now w w'' :=
  ⟨h.items.trans _ h'.items, h'.collectedEvents.trans h.collectedEvents, h'.staticCollectEvents.trans h.staticCollectEvents,
    h'.waiters.trans h.waiters⟩

/-- A state that is restored from a snapshot has the workload of each configured step. -/
theorem restored_kept {cfg : BrokerConfig} {σ : BrokerState} (h : σ.Holds triggered) (hn : n ∈ cfg.steps.keys) :
    WorkloadKept now (σ.workers n)
      ((rewindInProgress cfg now (BrokerState.fromSerialized cfg σ.toSerialized)).1.workers n) := by
  obtain ⟨c, hc⟩ := (cfg.steps.mem_keys_iff n).1 hn
  have hcontains : cfg.steps.contains n = true := by simp [Lib.Dict.contains, hc]
  have hworker : (BrokerState.fromSerialized cfg σ.toSerialized).workers n = (σ.workers n).toSerialized.toWorker :=
    if_pos hcontains
  rw [ResumedAux.workers_rewound now cfg _ hc, hworker]
  exact workloadKept_trans (toWorker_kept (h n)) (rewindStep_kept _)

theorem rewindInProgress_streams (now : Time) (cfg : BrokerConfig) (σ : BrokerState) : StreamsKept σ (rewindInProgress cfg now σ).1 := by
  obtain ⟨h₁, h₂, h₃, h₄⟩ := PlainAux.forEachStep_fields (rewindStep now) cfg.sortedSteps σ
  exact ⟨h₁, h₂, h₃, h₄⟩

/-- Classes that can be imported come back as they were. -/
theorem fromSerialized?_of_importsAwaited {imports : ClassImport} {cfg : BrokerConfig} {σ : BrokerState}
    (h : σ.importsAwaited imports cfg) :
    BrokerState.fromSerialized? imports cfg σ.toSerialized = some (BrokerState.fromSerialized cfg σ.toSerialized) := by
  have hawaited : ∀ n ∈ cfg.steps.keys, ∀ y ∈ (σ.toSerialized.workers n).collectedWaiters,
      imports y.waitingForEvent = some y.waitingForEvent := by
    intro n hn y hy
    obtain ⟨z, hz, rfl⟩ := List.mem_map.1 hy
    exact of_decide_eq_true (List.all_eq_true.1 (List.all_eq_true.1 h n hn) z hz)
  have hsome : (cfg.steps.keys.all fun n => (σ.toSerialized.workers n).collectedWaiters.all fun y =>
      (imports y.waitingForEvent).isSome) = true := by
    refine List.all_eq_true.2 fun n hn => List.all_eq_true.2 fun y hy => ?_
    rw [hawaited n hn y hy]
    rfl
  rw [BrokerState.fromSerialized?, if_pos hsome, Option.some.injEq]
  simp only [BrokerState.fromSerialized, BrokerState.mk.injEq, true_and, and_true]
  funext n
  split
  · case isTrue hcontains =>
    have hn : n ∈ cfg.steps.keys := (cfg.steps.mem_keys_iff n).2 (Option.isSome_iff_exists.1 hcontains)
    have hmap : (σ.toSerialized.workers n).collectedWaiters.map (SerializedWaiter.imported imports) =
        (σ.toSerialized.workers n).collectedWaiters := by
      refine (List.map_congr_left fun y hy => ?_).trans (List.map_id _)
      rw [SerializedWaiter.imported, hawaited n hn y hy]
      rfl
    rw [hmap]
  · rfl

/-- A class that comes back as it was can be imported. -/
theorem importsAwaited_of_restored {imports : ClassImport} {cfg : BrokerConfig} {σ σ' : BrokerState}
    (h : σ.restored imports cfg now = some σ')
    (hkept : ∀ n ∈ cfg.steps.keys, WorkloadKept now (σ.workers n) (σ'.workers n)) : σ.importsAwaited imports cfg := by
  obtain ⟨σ₀, hσ₀, rfl⟩ := Option.map_eq_some_iff.1 h
  rw [BrokerState.fromSerialized?] at hσ₀
  split at hσ₀
  · case isTrue hsome =>
    cases hσ₀
    refine List.all_eq_true.2 fun n hn => List.all_eq_true.2 fun y hy => decide_eq_true ?_
    obtain ⟨c, hc⟩ := (cfg.steps.mem_keys_iff n).1 hn
    have hcontains : cfg.steps.contains n = true := by simp [Lib.Dict.contains, hc]
    have hwaiters := (hkept n hn).waiters
    rw [ResumedAux.workers_rewound now cfg _ hc, (rewindStep_kept _).waiters] at hwaiters
    simp only [BrokerState.fromSerialized, hcontains, if_true, SerializedStepWorkerState.toWorker, BrokerState.toSerialized,
      InternalStepWorkerState.toSerialized, List.map_map, List.map_inj_left] at hwaiters
    have hclass : (imports y.waitingForEvent).getD y.waitingForEvent = y.waitingForEvent :=
      congrArg SuspendedItem.waitingForEvent (hwaiters y hy)
    obtain ⟨t, ht⟩ := Option.isSome_iff_exists.1
      (List.all_eq_true.1 (List.all_eq_true.1 hsome n hn) y.toSerialized (List.mem_map_of_mem hy))
    have ht : imports y.waitingForEvent = some t := ht
    rw [ht, Option.getD_some] at hclass
    rw [ht, hclass]
  · cases hσ₀

/-! ## Rewinding again -/

/-- A step that dispatch has nothing to do for: all workers are busy, or nothing in the queue is eligible. -/
structure Drained (c : StepConfig) (w : InternalStepWorkerState) : Prop where
  capacity : w.inProgress.length ≤ c.numWorkers
  drained : w.inProgress.length = c.numWorkers ∨ ∀ a ∈ w.queue, a.isEligible = false

/-- An eligible attempt is started when a worker is free. -/
theorem addOrEnqueueEvent_started {a : EventAttempt} (ha : a.isEligible) (hfree : w.inProgress.length < c.numWorkers) :
    (addOrEnqueueEvent c n a now w).1 = { w with inProgress := w.inProgress ++ [a.start n (freeWorkerId c w) now w] } := by
  rw [addOrEnqueueEvent, if_pos ⟨hfree, ha⟩]

theorem drainSlots_drained {k : Nat} (hk : w.inProgress.length + k = c.numWorkers) : Drained c (drainSlots c n now k w).1 := by
  induction k generalizing w with
  | zero => exact ⟨hk.le, Or.inl hk⟩
  | succ k ih =>
    rw [drainSlots]
    cases hq : popEligible w.queue with
    | none => exact ⟨by simp only; omega, Or.inr fun a ha => by simpa using WorkAux.popEligible_eq_none hq a ha⟩
    | some r =>
      obtain ⟨ha, -⟩ := WorkAux.popEligible_eq_some hq
      refine ih ?_
      rw [addOrEnqueueEvent_started ha (by simp only; omega), List.length_append, List.length_singleton]
      exact (Nat.succ_add_eq_add_succ _ k).trans hk

/-- When the workers suffice for the attempts in front and there is nothing else to dispatch, those are started. -/
theorem drainSlots_front (now : Time) (as : List EventAttempt) (has : ∀ a ∈ as, a.isEligible) {q : List EventAttempt} {k : Nat}
    (hq : k = as.length ∨ as.length ≤ k ∧ ∀ a ∈ q, a.isEligible = false) (hqueue : w.queue = as ++ q)
    (hcap : w.inProgress.length + as.length ≤ c.numWorkers) :
    (drainSlots c n now k w).1.queue = q ∧ Multiset.Rel (WorkItem.Kept now)
      (w.inProgress.map InProgressState.item ++ as.map EventAttempt.item : List WorkItem)
      ((drainSlots c n now k w).1.inProgress.map InProgressState.item : List WorkItem) := by
  induction as generalizing k w with
  | nil =>
    rw [List.nil_append] at hqueue
    have hstop : drainSlots c n now k w = (w, []) := by
      cases k with
      | zero => rfl
      | succ k =>
        obtain ⟨-, hq⟩ := hq.resolve_left (by simp)
        rw [drainSlots, hqueue, ResumedAux.popEligible_none hq]
    rw [hstop, List.map_nil, List.append_nil]
    exact ⟨hqueue, rel_kept_refl _⟩
  | cons a as ih =>
    rw [List.length_cons] at hq hcap
    obtain ⟨k, rfl⟩ : ∃ k', k = k' + 1 := ⟨k - 1, by omega⟩
    have ha := has a List.mem_cons_self
    have hpop : popEligible w.queue = some (a, as ++ q) := by rw [hqueue, List.cons_append, popEligible, if_pos ha]
    rw [drainSlots, hpop]
    dsimp only
    rw [addOrEnqueueEvent_started ha (by simp only; omega)]
    obtain ⟨h₁, h₂⟩ := ih (fun b hb => has b (List.mem_cons_of_mem _ hb)) (k := k)
      (hq.imp Nat.succ.inj fun h => ⟨Nat.le_of_succ_le_succ h.1, h.2⟩)
      (w := { w with
        queue := as ++ q
        inProgress := w.inProgress ++ [a.start n (freeWorkerId c { w with queue := as ++ q }) now w] }) rfl (by
        rw [List.length_append, List.length_singleton]
        omega)
    refine ⟨h₁, Multiset.Rel.trans _ ?_ h₂⟩
    rw [List.map_append, List.append_assoc, List.map_cons, List.map_singleton, List.singleton_append, ← Multiset.coe_add,
      ← Multiset.coe_add, ← Multiset.cons_coe, ← Multiset.cons_coe]
    exact (rel_kept_refl _).add (Multiset.Rel.cons (start_kept ha _) (rel_kept_refl _))

theorem rewindStep_drained (w : InternalStepWorkerState) : Drained c (rewindStep now c n w).1 :=
  drainSlots_drained (by simp)

theorem rewindStep_again (h : Drained c w) : RewoundAgain now w (rewindStep now c n w).1 := by
  have hframe := FrameAux.drainEligibleQueue_frame now c n
    { w with queue := (w.inProgress.map InProgressState.rewound).reverse ++ w.queue, inProgress := [] }
  have hlength : ((w.inProgress.map InProgressState.rewound).reverse).length = w.inProgress.length := by simp
  obtain ⟨hqueue, hitems⟩ := drainSlots_front (c := c) (n := n) (q := w.queue)
    (k := c.numWorkers - ([] : List InProgressState).length)
    (w := { w with queue := (w.inProgress.map InProgressState.rewound).reverse ++ w.queue, inProgress := [] })
    now (w.inProgress.map InProgressState.rewound).reverse (by
      intro a ha
      obtain ⟨x, -, rfl⟩ := List.mem_map.1 (List.mem_reverse.1 ha)
      rfl) (by
      rw [hlength]
      exact h.drained.imp (fun heq => by simp [heq]) fun hq => ⟨by simpa using h.capacity, hq⟩) rfl (by
      rw [hlength]
      simpa using h.capacity)
  refine ⟨hqueue, ?_, hframe.collected, hframe.static, hframe.waiters⟩
  have hperm : (w.inProgress.map InProgressState.item : Multiset WorkItem) =
      (([] : List InProgressState).map InProgressState.item ++
        ((w.inProgress.map InProgressState.rewound).reverse).map EventAttempt.item : List WorkItem) := by
    rw [Multiset.coe_eq_coe, List.map_nil, List.nil_append, List.map_reverse, List.map_map]
    exact (List.reverse_perm _).symm
  rw [hperm]
  exact hitems

/-- Rewinding a state again changes its steps no further. -/
theorem rewindInProgress_again {cfg : BrokerConfig} (σ : BrokerState) (hn : n ∈ cfg.steps.keys) :
    RewoundAgain now' ((rewindInProgress cfg now σ).1.workers n)
      ((rewindInProgress cfg now' (rewindInProgress cfg now σ).1).1.workers n) := by
  obtain ⟨c, hc⟩ := (cfg.steps.mem_keys_iff n).1 hn
  rw [ResumedAux.workers_rewound now' cfg _ hc, ResumedAux.workers_rewound now cfg σ hc]
  exact rewindStep_again (rewindStep_drained _)

end WorkloadAux

end LlamaAgents
