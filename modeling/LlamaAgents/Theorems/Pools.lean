import LlamaAgents.Lemmas.WorkMoves
import LlamaAgents.Lemmas.Workload
import LlamaAgents.Workflow

/-!
# Worker pools over runs

In every state that a run reaches while it goes on, each step's pool is in order, whatever the run started from: rewinding puts
the pools in order, and every tick serves them.

Adding an attempt keeps a pool in order, and draining a queue puts one in order whose executions have workers of their own.
-/

namespace LlamaAgents

namespace PoolsAux

variable {now : Time} {c : StepConfig} {n : StepId} {w w' : InternalStepWorkerState}

/-! ## Slots -/

/-- Each execution has a worker of its own. -/
structure Slotted (c : StepConfig) (w : InternalStepWorkerState) : Prop where
  bounded : w.inProgress.length ≤ c.numWorkers
  distinct : w.slots.Nodup
  below : ∀ i ∈ w.slots, i < c.numWorkers

theorem slotted_of_pooled (h : w.Pooled c) : Slotted c w := ⟨h.bounded, h.distinct, h.below⟩

theorem slots_length (w : InternalStepWorkerState) : w.slots.length = w.inProgress.length := List.length_map _

theorem slotted_of_sublist (h : Slotted c w) (hs : w'.slots.Sublist w.slots) : Slotted c w' where
  bounded := by
    rw [← slots_length]
    exact (hs.length_le.trans_eq (slots_length w)).trans h.bounded
  distinct := h.distinct.sublist hs
  below i hi := h.below i (hs.subset hi)

theorem slotted_of_slots (h : Slotted c w) (hs : w'.slots = w.slots) : Slotted c w' :=
  slotted_of_sublist h (hs ▸ List.Sublist.refl _)

theorem eraseExecution_slotted (h : Slotted c w) (id : Nat) : Slotted c (w.eraseExecution id) :=
  slotted_of_sublist h (List.eraseP_sublist.map _)

/-- A worker id that is given is one of the step's. -/
theorem freeWorkerId_lt (c : StepConfig) (w : InternalStepWorkerState) : freeWorkerId c w < c.numWorkers := by
  unfold freeWorkerId
  cases hfind : (List.range c.numWorkers).find? fun i => !(w.inProgress.map InProgressState.workerId).contains i with
  | none => exact c.numWorkers.pos
  | some i => exact List.mem_range.1 (List.mem_of_find?_eq_some hfind)

theorem addOrEnqueueEvent_slotted (h : Slotted c w) (n : StepId) (a : EventAttempt) (now : Time) :
    Slotted c (addOrEnqueueEvent c n a now w).1 := by
  have hdistinct := (SlotsAux.addOrEnqueueEvent_slots now c n a w).2 h.distinct
  unfold addOrEnqueueEvent at hdistinct ⊢
  split at hdistinct
  · case isTrue hfree =>
    rw [if_pos hfree]
    refine ⟨?_, hdistinct, ?_⟩
    · rw [List.length_append]
      exact hfree.1
    · intro i hi
      rw [InternalStepWorkerState.slots, List.map_append, List.mem_append] at hi
      rcases hi with hi | hi
      · exact h.below i hi
      · rw [List.mem_singleton.1 hi]
        exact freeWorkerId_lt c w
  · case isFalse hbusy =>
    rw [if_neg hbusy]
    exact ⟨h.bounded, h.distinct, h.below⟩

theorem drainSlots_slotted (h : Slotted c w) (n : StepId) (now : Time) (k : Nat) :
    Slotted c (drainSlots c n now k w).1 := by
  induction k generalizing w with
  | zero => exact h
  | succ k ih =>
    rw [drainSlots]
    split
    · exact h
    · case h_2 a q _ =>
      have hq : Slotted c { w with queue := q } := ⟨h.bounded, h.distinct, h.below⟩
      exact ih (addOrEnqueueEvent_slotted hq n a now)

/-! ## Pools -/

/-- Whatever the queue holds, draining it puts the pool in order. -/
theorem drainEligibleQueue_pooled (h : Slotted c w) (n : StepId) (now : Time) : (drainEligibleQueue c n now w).1.Pooled c := by
  have hslotted := drainSlots_slotted h n now (c.numWorkers - w.inProgress.length)
  have hdrained : WorkloadAux.Drained c (drainSlots c n now (c.numWorkers - w.inProgress.length) w).1 :=
    WorkloadAux.drainSlots_drained (Nat.add_sub_cancel' h.bounded)
  exact ⟨hslotted.bounded, hslotted.distinct, hslotted.below, fun hfree => hdrained.drained.resolve_left hfree.ne⟩

theorem addOrEnqueueEvent_pooled (h : w.Pooled c) (n : StepId) (a : EventAttempt) (now : Time) :
    (addOrEnqueueEvent c n a now w).1.Pooled c := by
  obtain ⟨hbounded, hdistinct, hbelow⟩ := addOrEnqueueEvent_slotted (slotted_of_pooled h) n a now
  refine ⟨hbounded, hdistinct, hbelow, ?_⟩
  unfold addOrEnqueueEvent
  split
  · case isTrue hfree => exact fun _ => h.conserving hfree.1
  · case isFalse hbusy =>
    intro hfree b hb
    rcases List.mem_append.1 hb with hb | hb
    · exact h.conserving hfree b hb
    · rw [List.mem_singleton.1 hb]
      exact Bool.eq_false_of_not_eq_true fun ha => hbusy ⟨hfree, ha⟩

/-- Moving work keeps each execution on a worker of its own. -/
theorem workMove_slotted (hmove : WorkMove now c n w w') (h : Slotted c w) : Slotted c w' := by
  induction hmove with
  | rests _ executions _ => exact slotted_of_slots h (congrArg (List.map InProgressState.workerId) executions)
  | adds _ _ => exact addOrEnqueueEvent_slotted h n _ now
  | seq _ _ ih₁ ih₂ => exact ih₂ (ih₁ h)

/-- Moving work keeps a pool in order. -/
theorem workMove_pooled (hmove : WorkMove now c n w w') (h : w.Pooled c) : w'.Pooled c := by
  induction hmove with
  | rests queue executions _ =>
    obtain ⟨h₁, h₂, h₃, h₄⟩ := h
    rw [InternalStepWorkerState.slots, ← executions] at h₂ h₃
    rw [← executions] at h₁ h₄
    rw [← queue] at h₄
    exact ⟨h₁, h₂, h₃, h₄⟩
  | adds _ _ => exact addOrEnqueueEvent_pooled h n _ now
  | seq _ _ ih₁ ih₂ => exact ih₂ (ih₁ h)

/-! ## The order of dispatch -/

/-- Moving work takes nothing out of the queue. -/
theorem workMove_queue (hmove : WorkMove now c n w w') :
    ∃ back, w'.queue = w.queue ++ back ∧ ∀ a ∈ back, a.isEligible ∧ a.attempts.getD 0 = 0 := by
  induction hmove with
  | rests queue _ _ => exact ⟨[], by rw [queue, List.append_nil], by simp⟩
  | @adds w a eligible first =>
    unfold addOrEnqueueEvent
    split
    · exact ⟨[], (List.append_nil _).symm, by simp⟩
    · exact ⟨[a], rfl, by simp [eligible, first]⟩
  | seq _ _ ih₁ ih₂ =>
    obtain ⟨back, hback, hnew⟩ := ih₁
    obtain ⟨back', hback', hnew'⟩ := ih₂
    exact ⟨back ++ back', by rw [hback', hback, List.append_assoc], List.forall_mem_append.2 ⟨hnew, hnew'⟩⟩

/-- Taking an eligible attempt out of a queue takes the first of them, and no delayed one. -/
theorem popEligible_filter {q q' : List EventAttempt} {a : EventAttempt} (h : popEligible q = some (a, q')) :
    q.filter EventAttempt.isEligible = a :: q'.filter EventAttempt.isEligible ∧
      (q'.filter fun a => !a.isEligible) = q.filter fun a => !a.isEligible := by
  obtain ⟨ha, l, r, rfl, rfl, hl⟩ := WorkAux.popEligible_eq_some h
  have hnone : l.filter EventAttempt.isEligible = [] := List.filter_eq_nil_iff.2 hl
  constructor
  · rw [List.filter_append, List.filter_append, hnone, List.nil_append, List.nil_append, List.filter_cons_of_pos ha]
  · rw [List.filter_append, List.filter_append, List.filter_cons_of_neg (by simpa using ha)]

theorem drainSlots_inOrder {k : Nat} (hk : 0 < k → w.inProgress.length + k ≤ c.numWorkers) :
    (∃ xs, (drainSlots c n now k w).1.inProgress = w.inProgress ++ xs ∧ List.Forall₂ (fun a x => ∃ id, x = a.start n id now w)
        ((w.queue.filter EventAttempt.isEligible).take k) xs) ∧
      DispatchedInOrder k w.queue (drainSlots c n now k w).1.queue := by
  induction k generalizing w with
  | zero => exact ⟨⟨[], (List.append_nil _).symm, by simp⟩, by simp [drainSlots], rfl⟩
  | succ k ih =>
    rw [drainSlots]
    cases hpop : popEligible w.queue with
    | none =>
      have hnone : w.queue.filter EventAttempt.isEligible = [] :=
        List.filter_eq_nil_iff.2 (WorkAux.popEligible_eq_none hpop)
      exact ⟨⟨[], (List.append_nil _).symm, by simp [hnone]⟩, by simp [hnone], rfl⟩
    | some r =>
      obtain ⟨a, q⟩ := r
      obtain ⟨heligible, hdelayed⟩ := popEligible_filter hpop
      have hfree := hk k.succ_pos
      have hadd : (addOrEnqueueEvent c n a now { w with queue := q }).1 = { w with
          queue := q
          inProgress := w.inProgress ++ [a.start n (freeWorkerId c { w with queue := q }) now w] } :=
        WorkloadAux.addOrEnqueueEvent_started (WorkAux.popEligible_eq_some hpop).1
          (show w.inProgress.length < c.numWorkers by omega)
      dsimp only
      rw [hadd]
      obtain ⟨⟨xs, hxs, hstarted⟩, hqueue⟩ := @ih { w with
        queue := q
        inProgress := w.inProgress ++ [a.start n (freeWorkerId c { w with queue := q }) now w] } (by
          intro _
          simp only [List.length_append, List.length_singleton]
          omega)
      refine ⟨⟨a.start n (freeWorkerId c { w with queue := q }) now w :: xs, ?_, ?_⟩, ?_, hqueue.delayed.trans hdelayed⟩
      · exact hxs.trans (List.append_assoc _ _ _)
      · rw [heligible, List.take_succ_cons]
        exact List.Forall₂.cons ⟨_, rfl⟩ hstarted
      · rw [heligible, List.drop_succ_cons]
        exact hqueue.eligible

/-- Draining a queue starts eligible attempts in the order of the queue. -/
theorem drainEligibleQueue_inOrder (c : StepConfig) (n : StepId) (now : Time) (w : InternalStepWorkerState) :
    DrainedInOrder c n now w (drainEligibleQueue c n now w).1 := by
  obtain ⟨hstarted, hqueue⟩ := @drainSlots_inOrder now c n w (c.numWorkers - w.inProgress.length) (by omega)
  exact ⟨hstarted, hqueue⟩

/-! ## Ticks -/

/-- A queue that gains first attempts only, at its end, is served: none of it is started. -/
theorem queueServed_of_append (back : List EventAttempt) (hqueue : w'.queue = w.queue ++ back)
    (hback : ∀ a ∈ back, a.isEligible ∧ a.attempts.getD 0 = 0) : QueueServed n w w' :=
  ⟨[], back, id, 0, w'.inProgress, [], ⟨by simp, hback, Or.inl rfl⟩, ⟨by simp [hqueue], by simp [hqueue]⟩, by simp, by simp⟩

theorem queueServed_of_eq (h : w'.queue = w.queue) : QueueServed n w w' :=
  queueServed_of_append [] (by rw [h, List.append_nil]) (by simp)

/-- A queue that is served by a drain, after retries were put in front of it, or attempts woken, and others added. -/
theorem queueServed_of_drain (front back : List EventAttempt) {wake : EventAttempt → EventAttempt} {v : InternalStepWorkerState}
    (hfront : ∀ a ∈ front, 0 < a.attempts.getD 0) (hback : ∀ a ∈ back, a.isEligible ∧ a.attempts.getD 0 = 0)
    (hwake : wake = id ∨ ∃ due, wake = fun a => a.wake due) (hv : v.queue = front ++ w.queue.map wake ++ back) :
    QueueServed n w (drainEligibleQueue c n now v).1 := by
  obtain ⟨⟨xs, hxs, hstarted⟩, hqueue⟩ := drainEligibleQueue_inOrder c n now v
  rw [hv] at hstarted hqueue
  exact ⟨front, back, wake, _, v.inProgress, xs, ⟨hfront, hback, hwake⟩, hqueue, hxs,
    hstarted.imp fun a x hx => ⟨hx.choose, now, v, hx.choose_spec⟩⟩

/-- What one tick does to the pool and the queue of a step. -/
structure Served (c : StepConfig) (n : StepId) (w w' : InternalStepWorkerState) : Prop where
  pooled : w'.Pooled c
  queue : QueueServed n w w'

theorem served_of_move (hmove : WorkMove now c n w w') (h : w.Pooled c) : Served c n w w' := by
  obtain ⟨back, hback, hnew⟩ := workMove_queue hmove
  exact ⟨workMove_pooled hmove h, queueServed_of_append _ hback hnew⟩

/-- A wakeup: the woken attempts are dispatched in the order of the queue. -/
theorem served_of_wakeup (h : w.Pooled c) (due : Time) :
    Served c n w (drainEligibleQueue c n now { w with queue := w.queue.map fun a => a.wake due }).1 := by
  have hslotted : Slotted c { w with queue := w.queue.map fun a => a.wake due } := ⟨h.bounded, h.distinct, h.below⟩
  exact ⟨drainEligibleQueue_pooled hslotted n now, queueServed_of_drain [] [] (by simp) (by simp)
    (Or.inr ⟨due, rfl⟩) (by rw [List.nil_append, List.append_nil])⟩

variable {cfg : BrokerConfig} {σ : BrokerState} {r : BrokerState × List WorkflowCommand}

/-- The result of an execution serves every pool. -/
theorem served_of_ends {tick : TickStepResult} (hends : WorkMovesAux.WorkEnds cfg now tick σ r) {m : StepId} {c : StepConfig}
    (hc : cfg.steps.get? m = some c) (h : (σ.workers m).Pooled c) : Served c m (σ.workers m) (r.1.workers m) := by
  rcases hends with ⟨hothers, hslots, hqueue⟩ | ⟨c', hc', front, w₁, w₂, hothers, hslots, hqueue, hretries, hmove, w₃, hw₃,
    hdrained⟩
  · by_cases hm : m = tick.stepId
    · subst hm
      obtain ⟨h₁, h₂, h₃⟩ := slotted_of_slots (slotted_of_pooled h) hslots
      refine ⟨⟨h₁, h₂, h₃, ?_⟩, queueServed_of_eq hqueue⟩
      rw [hqueue, ← slots_length, hslots, slots_length]
      exact h.conserving
    · rw [hothers m hm]
      exact ⟨h, queueServed_of_eq rfl⟩
  · by_cases hm : m = tick.stepId
    · subst hm
      rw [hc] at hc'
      cases hc'
      have hslotted : Slotted c w₂ := workMove_slotted hmove (slotted_of_slots (slotted_of_pooled h) hslots)
      obtain ⟨back, hback, hnew⟩ := workMove_queue hmove
      have hq₃ : w₃.queue = front ++ (σ.workers tick.stepId).queue.map id ++ back := by
        rw [List.map_id, ← hqueue, ← hback]
        rcases hw₃ with rfl | ⟨id, rfl⟩ <;> rfl
      have hslotted₃ : Slotted c w₃ := by
        rcases hw₃ with rfl | ⟨id, rfl⟩
        · exact hslotted
        · exact eraseExecution_slotted hslotted id
      rw [hdrained]
      exact ⟨drainEligibleQueue_pooled hslotted₃ _ now,
        queueServed_of_drain _ _ (fun a ha => (hretries a ha).1) hnew (Or.inl rfl) hq₃⟩
    · exact served_of_move (hothers m hm c hc) h

/-- Every tick after which the run goes on serves every pool. -/
theorem reduceTick_served {tick : WorkflowTick} (hadd : ∀ t, tick = .addEvent t → t.attempts = none) {runId : Option String}
    (hr : reduceTick cfg tick σ now runId = .ok r) (hexit : ∀ d ∈ r.2, d.indicatesExit = false) {m : StepId} {c : StepConfig}
    (hc : cfg.steps.get? m = some c) (h : (σ.workers m).Pooled c) : Served c m (σ.workers m) (r.1.workers m) := by
  by_cases hresult : ∃ t, tick = .stepResult t
  · obtain ⟨t, rfl⟩ := hresult
    obtain ⟨r', hr', rfl⟩ := PlainAux.map_eq_ok hr
    rw [CommandsAux.withIdleCheck_fst]
    exact served_of_ends (WorkMovesAux.stepResult_ends hr' (CommandsAux.no_exit_of_withIdleCheck hexit)) hc h
  · by_cases hwakeup : ∃ due, tick = .wakeup due
    · obtain ⟨due, rfl⟩ := hwakeup
      rw [WorkMovesAux.wakeup_workers hr hc]
      exact served_of_wakeup h due
    · have hfirst : ∀ t, tick = .addEvent t → t.attempts.getD 0 = 0 := fun t ht => by rw [hadd t ht]; rfl
      have hmoves := WorkMovesAux.reduceTick_moves (fun t ht => hresult ⟨t, ht⟩) (fun t ht => hwakeup ⟨t, ht⟩) hfirst hr
      exact served_of_move (hmoves m c hc) h

variable {cfg : BrokerConfig} {runId : Option String} {raises : PolicyErrors}

/-- An added event comes without attempts of its own: those are only in journals of older versions. -/
def Unattempted : WorkflowTick → Prop
  | .addEvent t => t.attempts = none
  | _ => True

theorem unattempted_produced : ProducedTicks Unattempted where
  queued _ := rfl
  message m := by
    cases m with
    | addEvent => rfl
    | cancelRun | publishEvent => trivial
  timer t ht := by
    cases t with
    | addEvent => cases ht
    | _ => trivial
  idle := trivial

/-- The invariant of a run: no waiting tick has attempts, and while the run goes on every pool is in order. -/
structure PooledRun (cfg : BrokerConfig) (L : Loop) : Prop where
  ticks : L.TicksAre Unattempted
  pooled : L.outcome = none → ∀ n c, cfg.steps.get? n = some c → (L.state.workers n).Pooled c

/-- An action after which the run goes on serves every pool. -/
theorem stepTasks_served {L L' : Loop} (h : PooledRun cfg L) {a : TaskAction}
    (hstep : L.stepTasks cfg runId raises a = some L') (hout : L'.outcome = none) {n : StepId} {c : StepConfig}
    (hc : cfg.steps.get? n = some c) : Served c n (L.state.workers n) (L'.state.workers n) := by
  rcases SlotsAux.stepTasks_cases hstep with ⟨b, -, hb⟩ | hended
  · have hpooled := h.pooled (CommandsAux.outcome_of_step hb) n c hc
    rcases CommandsAux.step_advance hb with ⟨hstate, -, -⟩ | ⟨now, -, tick, rest, hbuffer, cs, hr, hgo, -, -⟩
    · rw [hstate]
      exact ⟨hpooled, queueServed_of_eq rfl⟩
    · refine reduceTick_served ?_ hr (hgo hout) hc hpooled
      rintro t rfl
      exact h.ticks.buffer _ (hbuffer ▸ List.mem_cons_self)
  · rw [hended.rest]
    exact ⟨h.pooled hended.outcome n c hc, queueServed_of_eq rfl⟩

theorem stepTasks_pooledRun {L L' : Loop} (h : PooledRun cfg L) {a : TaskAction}
    (hstep : L.stepTasks cfg runId raises a = some L') : PooledRun cfg L' where
  ticks := SlotsAux.stepTasks_ticksAre unattempted_produced (fun _ => trivial) h.ticks hstep
  pooled hout _ _ hc := (stepTasks_served h hstep hout hc).pooled

theorem start_pooledRun (cfg : BrokerConfig) (σ : BrokerState) (start : Option Event) (now : Time) :
    PooledRun cfg (Loop.start cfg σ start now) where
  ticks := by
    refine CommandsAux.start_ticksAre unattempted_produced ?_ start now
    intro t ht
    obtain ⟨q, -, ht⟩ := List.mem_flatMap.1 ht
    obtain ⟨y, -, rfl⟩ := List.mem_map.1 ht
    rfl
  pooled _ n c hc := by
    rw [(CommandsAux.start_fields cfg σ start now).1, ResumedAux.workers_rewound now cfg σ hc]
    refine drainEligibleQueue_pooled ⟨?_, ?_, ?_⟩ n now
    · exact Nat.zero_le _
    · exact List.nodup_nil
    · exact List.forall_mem_nil _

end PoolsAux

open PoolsAux

/-- Worker pools are bounded, free of collisions and conserve work, in every state that a run reaches while it goes on. The run
starts from any state; its tasks may also end without a result. Every action serves each queue in its order, and a drain
starts as many eligible attempts as there are free workers, in the order of the queue, past the delayed ones. -/
theorem worker_pools_in_order (cfg : BrokerConfig) (runId : Option String) (raises : PolicyErrors) (σ : BrokerState)
    (start : Option Event) (now : Time) {L : Loop}
    (hrun : Lib.Run (Loop.stepTasks cfg runId raises) (fun _ _ => True) (Loop.start cfg σ start now) L) {n : StepId}
    {c : StepConfig} (hc : cfg.steps.get? n = some c) :
    (L.outcome = none → (L.state.workers n).Pooled c) ∧
      (∀ a L', L.stepTasks cfg runId raises a = some L' → L'.outcome = none →
        QueueServed n (L.state.workers n) (L'.state.workers n)) ∧
      ∀ time w, DrainedInOrder c n time w (drainEligibleQueue c n time w).1 := by
  have hinv : PooledRun cfg L :=
    hrun.invariant (PooledRun cfg) (start_pooledRun cfg σ start now) fun _ _ _ hL _ hs => stepTasks_pooledRun hL hs
  exact ⟨fun hout => hinv.pooled hout n c hc, fun _ _ hstep hout => (stepTasks_served hinv hstep hout hc).queue,
    fun time w => drainEligibleQueue_inOrder c n time w⟩

namespace PoolRuns

/-- A workflow of one step with two workers, whose failures are retried after a delay. -/
def workflow : Workflow where
  name := "Pool"
  steps := ⟨[("work", plainStep [.startEvent] [.stopEvent] ⟨2, Nat.two_pos⟩ (some ⟨fun _ _ _ _ => some 5⟩))], by simp⟩

/-- The event that the step takes. -/
def item : Event := ⟨.startEvent, []⟩

/-- Another event for the step. -/
def another : List TaskAction := [.loop (.send (.addEvent item none ∅)), .loop .pull, .loop (.drain 1)]

/-- Of four events two are started and two are queued; the first execution fails, and its retry is delayed. -/
def failing : List TaskAction :=
  .loop (.drain 1) :: another ++ another ++ another ++
    [.taskEnd 0 (.program (.raise ⟨.other "RuntimeError", "failed"⟩)) 1 1, .loop (.drain 2)]

end PoolRuns

open PoolRuns in
/-- A delayed retry stands in front of the queue, and the attempt behind it has taken the free worker. -/
theorem worker_pools_in_order_retried : ∃ L : Loop, (L.state.workers "work").slots = [1, 0] ∧
    (L.state.workers "work").queue.map EventAttempt.isEligible = [false, true] ∧
    ∃ c, workflow.steps.get? "work" = some c ∧ (L.state.workers "work").Pooled c := by
  obtain ⟨L, hrun, hout, hslots, hqueue⟩ := Lib.Run.exists_of_actions (Loop.stepTasks workflow.config none fun _ _ _ _ => none)
    (Loop.start workflow.config {} (some item) 0) failing
    (fun L => L.outcome = none ∧ (L.state.workers "work").slots = [1, 0] ∧
      (L.state.workers "work").queue.map EventAttempt.isEligible = [false, true]) (by decide +kernel)
  exact ⟨L, hslots, hqueue, _, rfl, (worker_pools_in_order workflow.config none (fun _ _ _ _ => none) {} (some item) 0 hrun rfl).1
    hout⟩

end LlamaAgents
