import LlamaAgents.Lemmas.SlotRuns
import LlamaAgents.Snapshots

/-!
# Conditions on the work items of a state

Every work item of a state can be seen as the attempt that would deliver it again: a queued attempt as it is, an execution as it
is rewound, a suspended one as it is resumed. A condition on these attempts holds after a tick when it holds before, of what the
tick delivers, and of what it makes of the execution that it ends.
-/

namespace LlamaAgents

open Lib (Dict)

/-- A worker state all of whose work items meet a condition. -/
structure InternalStepWorkerState.Meets (P : EventAttempt → Prop) (w : InternalStepWorkerState) : Prop where
  queue : ∀ a ∈ w.queue, P a
  executions : ∀ x ∈ w.inProgress, P x.rewound
  waiters : ∀ y ∈ w.collectedWaiters, P y.resumed

/-- A state all of whose work items meet a condition. -/
def BrokerState.Meets (P : StepId → EventAttempt → Prop) (σ : BrokerState) : Prop := ∀ n, (σ.workers n).Meets (P n)

/-- A condition that a work item goes on to meet when it is started at a time, and when it is woken after a delay. -/
structure PassedOn (now : Time) (P : StepId → EventAttempt → Prop) : Prop where
  starts : ∀ {n a}, P n a → ∀ id w, P n (a.start n id now w).rewound
  wakes : ∀ {n a}, P n a → ∀ due, P n (a.wake due)

/-- A condition that is met by what an execution leaves behind: the retry of a failure, and the work item that a waiter
suspends. -/
structure TickStepResult.Leaves (t : TickStepResult) (x : InProgressState) (P : EventAttempt → Prop) : Prop where
  retries : ∀ f, StepFunctionResult.failed f ∈ t.result → ∀ notBefore, P (x.retried f (f.firstAttempt x) notBefore)
  suspends : ∀ add, StepFunctionResult.addWaiter add ∈ t.result → P (add.toWaiter x).resumed

/-- A condition that is met by what an added event delivers: its attempts at the steps, or the collect invocation that it
delivers again. -/
structure TickAddEvent.Adds (cfg : BrokerConfig) (t : TickAddEvent) (σ : BrokerState) (P : StepId → EventAttempt → Prop) :
    Prop where
  delivers : t.collectionReleasePayload = none → ∀ q ∈ cfg.steps.entries,
    t.isDelivered (waiterResolvedSteps cfg t.event σ) q.1 q.2 →
    DispatchAux.Delivers (P q.1) (identifyWorkItem t σ).2 q.2 (σ.workers q.1).staticCollectEvents
  redelivers : ∀ payload b, (identifyWorkItem t σ).2.collectionReleasePayload = some payload →
    cfg.collectionBindings.get? payload.bindingId = some b → P b.targetStep
      { (identifyWorkItem t σ).2.toAttempt none with event := payload.asEvent, collectionReleasePayload := some payload }

/-- What a condition on work items has to hold of for a tick to keep it. -/
structure WorkflowTick.Keeps (cfg : BrokerConfig) (σ : BrokerState) (P : StepId → EventAttempt → Prop) (tick : WorkflowTick) :
    Prop where
  fires : DispatchAux.Fires cfg P
  results : ∀ t, tick = .stepResult t → ∀ x, (σ.workers t.stepId).execution? t.workerId = some x → t.Leaves x (P t.stepId)
  events : ∀ t, tick = .addEvent t → t.Adds cfg σ P

namespace WorkItemsAux

variable {cfg : BrokerConfig} {now : Time} {runId : Option String} {σ : BrokerState} {P : StepId → EventAttempt → Prop}
  {n : StepId} {w : InternalStepWorkerState}

theorem meets_empty (P : EventAttempt → Prop) : ({} : InternalStepWorkerState).Meets P :=
  ⟨List.forall_mem_nil _, List.forall_mem_nil _, List.forall_mem_nil _⟩

/-! ## Dispatch -/

/-- A worker takes in an attempt that meets the condition. -/
theorem addOrEnqueueEvent_meets (hP : PassedOn now P) (c : StepConfig) {a : EventAttempt} (ha : P n a)
    (h : w.Meets (P n)) : (addOrEnqueueEvent c n a now w).1.Meets (P n) := by
  unfold addOrEnqueueEvent
  split
  · refine ⟨h.queue, fun x hx => ?_, h.waiters⟩
    rcases List.mem_append.1 hx with hx | hx
    · exact h.executions x hx
    · rw [List.mem_singleton.1 hx]
      exact hP.starts ha _ _
  · refine ⟨fun b hb => ?_, h.executions, h.waiters⟩
    rcases List.mem_append.1 hb with hb | hb
    · exact h.queue b hb
    · rw [List.mem_singleton.1 hb]
      exact ha

/-- A worker that takes in only attempts that meet the condition keeps it. -/
theorem workerDispatch_meets (hP : PassedOn now P)
    {r : InternalStepWorkerState × List WorkflowCommand} (hd : WorkerDispatch now n (P n) w r) (h : w.Meets (P n)) :
    r.1.Meets (P n) := by
  induction hd with
  | adjusts executions queue waiters =>
    refine ⟨fun a ha => ?_, executions ▸ h.executions, fun y hy => ?_⟩
    · rcases queue a ha with ha | ha
      · exact h.queue a ha
      · exact ha
    · obtain ⟨z, hz, heq⟩ := waiters y hy
      exact heq ▸ h.waiters z hz
  | adds c ha => exact addOrEnqueueEvent_meets hP c ha h
  | seq _ _ ih ih' => exact ih' (ih h)

/-- A state keeps the condition when the worker written to it has it. -/
theorem setWorker_meets (h : σ.Meets P) (hw : w.Meets (P n)) :
    (σ.setWorker n w).Meets P := by
  intro m
  rw [BrokerState.setWorker_workers]
  by_cases hm : m = n
  · subst hm
    rw [Function.update_self]
    exact hw
  · rw [Function.update_of_ne hm]
    exact h m

/-- Starting and queueing work keeps the condition. -/
theorem dispatch_meets (hP : PassedOn now P) {r : BrokerState × List WorkflowCommand} (hd : Dispatch now P σ r)
    (h : σ.Meets P) : r.1.Meets P := by
  induction hd with
  | keeps workers =>
    intro n
    rw [workers]
    exact h n
  | worker n hw => exact setWorker_meets h (workerDispatch_meets hP hw (h n))
  | seq _ _ ih ih' => exact ih' (ih h)

/-! ## Results -/

section Results

variable (c : StepConfig) (tick : TickStepResult) (scope : FanOutScope) (done : Bool)

/-- The work items in the state meet the condition, and the execution whose results are applied differs from the one that has
ended by its collect snapshot only. -/
structure AccMeets (P : StepId → EventAttempt → Prop) (x : InProgressState) (acc : StepResultAcc) : Prop where
  state : acc.state.Meets P
  execution : ∃ d, acc.execution = x.refresh d

/-- An execution whose collect snapshot is refreshed meets what it met before. -/
theorem updateExecution_meets {P : EventAttempt → Prop} (h : w.Meets P) (id : Nat)
    (d : Dict String (List BufferedEvent)) : (w.updateExecution id fun y => y.refresh d).Meets P := by
  refine ⟨h.queue, fun x hx => ?_, h.waiters⟩
  obtain ⟨j, hj⟩ := List.mem_iff_getElem?.1 hx
  rw [InternalStepWorkerState.updateExecution, List.getElem?_modify] at hj
  obtain ⟨y, hy, heq⟩ := Option.map_eq_some_iff.1 hj
  have hmeets := h.executions y (List.mem_of_getElem? hy)
  split at heq
  · rw [← heq]
    exact hmeets
  · rw [← heq]
    exact hmeets

/-- One result of a step keeps the condition if the finished attempt leaves only work that meets it. -/
theorem applyStepResult_meets {x : InProgressState} (hleaves : tick.Leaves x (P tick.stepId)) {acc : StepResultAcc}
    (h : AccMeets P x acc) {r : StepFunctionResult} (hr : r ∈ tick.result) :
    AccMeets P x (applyStepResult cfg c tick scope done runId acc r) := by
  have hw := h.state tick.stepId
  obtain ⟨d, hd⟩ := h.execution
  cases r with
  | result e fanned =>
    cases e with
    | none => exact ⟨h.state, h.execution⟩
    | some e =>
      rw [applyStepResult]
      split
      · exact ⟨fun n => meets_empty (P n), h.execution⟩
      · exact ⟨h.state, h.execution⟩
  | failed f =>
    rw [applyStepResult]
    rcases StepResultAux.scheduleRetryOrRouteFailure_cases cfg c tick runId f acc with
      ⟨-, notBefore, heq⟩ | ⟨-, key, handler, d, -, -, heq⟩ | ⟨-, e, heq⟩
    · rw [heq]
      refine ⟨setWorker_meets h.state ⟨fun a ha => ?_, hw.executions, hw.waiters⟩, h.execution⟩
      rcases List.mem_cons.1 ha with rfl | ha
      · rw [hd]
        exact hleaves.retries f hr notBefore
      · exact hw.queue a ha
    · rw [heq]
      exact ⟨h.state, h.execution⟩
    · rw [heq]
      exact ⟨h.state, h.execution⟩
  | addCollected b e =>
    rw [applyStepResult]
    dsimp only
    split
    · refine ⟨setWorker_meets h.state (updateExecution_meets ?_ _ _), _, by rw [hd]; rfl⟩
      exact ⟨hw.queue, hw.executions, hw.waiters⟩
    · exact ⟨setWorker_meets h.state ⟨hw.queue, hw.executions, hw.waiters⟩, h.execution⟩
  | deleteCollected b =>
    rw [applyStepResult]
    split
    · exact ⟨setWorker_meets h.state ⟨hw.queue, hw.executions, hw.waiters⟩, h.execution⟩
    · exact h
  | addWaiter add =>
    have hadd : P tick.stepId (add.toWaiter acc.execution).resumed := by
      rw [hd]
      exact hleaves.suspends add hr
    rw [applyStepResult]
    dsimp only
    split
    · refine ⟨setWorker_meets h.state ⟨hw.queue, hw.executions, fun y hy => ?_⟩, h.execution⟩
      rcases List.mem_or_eq_of_mem_set hy with hy | rfl
      · exact hw.waiters y hy
      · exact hadd
    · refine ⟨setWorker_meets h.state ⟨hw.queue, hw.executions, fun y hy => ?_⟩, h.execution⟩
      rcases List.mem_append.1 hy with hy | hy
      · exact hw.waiters y hy
      · rw [List.mem_singleton.1 hy]
        exact hadd
  | deleteWaiter i =>
    rw [applyStepResult]
    split
    · exact ⟨setWorker_meets h.state ⟨hw.queue, hw.executions, fun y hy => hw.waiters y (List.mem_of_mem_eraseP hy)⟩,
        h.execution⟩
    · exact h

/-- So do all the results of the step, one after another. -/
theorem foldl_meets {x : InProgressState} (hleaves : tick.Leaves x (P tick.stepId)) {rs : List StepFunctionResult}
    (hrs : rs ⊆ tick.result) {acc : StepResultAcc} (h : AccMeets P x acc) :
    AccMeets P x (rs.foldl (applyStepResult cfg c tick scope done runId) acc) := by
  induction rs generalizing acc with
  | nil => exact h
  | cons r rs ih =>
    rw [List.cons_subset] at hrs
    exact ih hrs.2 (applyStepResult_meets c tick scope done hleaves h hrs.1)

end Results

/-- The end of an execution. -/
theorem finishExecution_meets (hP : PassedOn now P) (c : StepConfig) (tick : TickStepResult) {acc : StepResultAcc}
    (h : acc.state.Meets P) : (finishExecution c tick acc now).1.Meets P := by
  have hended : (SlotsAux.endedState tick acc).Meets P := by
    unfold SlotsAux.endedState
    split
    · have hw := h tick.stepId
      exact setWorker_meets h ⟨hw.queue, fun x hx => hw.executions x (List.mem_of_mem_eraseP hx), hw.waiters⟩
    · exact h
  rw [SlotsAux.finishExecution_eq, SlotsAux.drainUnless]
  split
  · exact hended
  · exact setWorker_meets hended (workerDispatch_meets hP
      (DispatchAux.drainEligibleQueue_dispatch now c (hended tick.stepId).queue) (hended tick.stepId))

/-! ## Ticks -/

/-- A step result keeps the condition. -/
theorem processStepResultTick_meets (hP : PassedOn now P) (hfires : DispatchAux.Fires cfg P) {tick : TickStepResult}
    (hleaves : ∀ x, (σ.workers tick.stepId).execution? tick.workerId = some x → tick.Leaves x (P tick.stepId))
    (h : σ.Meets P) {r : BrokerState × List WorkflowCommand} (hr : processStepResultTick cfg tick σ now runId = .ok r) :
    r.1.Meets P := by
  cases CommandsAux.processStepResultTick_moves hr with
  | reruns _ _ hrerun =>
    rw [rerunForStaleCollectBuffer] at hrerun
    split at hrerun <;> cases hrerun
    exact setWorker_meets h (updateExecution_meets (h tick.stepId) _ _)
  | @applies c x _ _ _ _ hx hstarted hacc hres =>
    refine finishExecution_meets hP c tick (dispatch_meets hP (DispatchAux.binds_dispatch now hfires (Serves.resolve hres)) ?_)
    rw [hacc]
    refine (foldl_meets c tick _ _ (hleaves x hx) (List.Subset.refl _) ⟨?_, x.sharedState.collectedEvents, rfl⟩).state
    intro n
    dsimp only
    rw [hstarted, SlotsAux.fanOutScope_workers]
    exact h n

/-- A tick keeps a condition on work items that what it adds to the state meets. -/
theorem reduceTick_meets (hP : PassedOn now P) {tick : WorkflowTick} (hkeeps : tick.Keeps cfg σ P) (h : σ.Meets P)
    {r : BrokerState × List WorkflowCommand} (hr : reduceTick cfg tick σ now runId = .ok r) : r.1.Meets P := by
  have hwaiters : ∀ n, ∀ y ∈ (σ.workers n).collectedWaiters, P n y.resumed := fun n => (h n).waiters
  unfold reduceTick at hr
  cases tick with
  | stepResult t =>
    obtain ⟨r', hr', rfl⟩ := PlainAux.map_eq_ok hr
    rw [CommandsAux.withIdleCheck_fst]
    exact processStepResultTick_meets hP hkeeps.fires (hkeeps.results t rfl) h hr'
  | addEvent t =>
    obtain ⟨r', hr', rfl⟩ := PlainAux.map_eq_ok hr
    rw [CommandsAux.withIdleCheck_fst]
    obtain ⟨hdelivers, hredelivers⟩ := hkeeps.events t rfl
    exact dispatch_meets hP
      (DispatchAux.processAddEventTick_dispatch now hkeeps.fires hwaiters hdelivers hredelivers hr') h
  | cancelRun =>
    cases hr
    rw [CommandsAux.withIdleCheck_fst]
    exact h
  | publishEvent e =>
    cases hr
    rw [CommandsAux.withIdleCheck_fst]
    exact h
  | timeout t =>
    cases hr
    rw [CommandsAux.withIdleCheck_fst]
    exact h
  | waiterTimeout n id =>
    cases hr
    rw [CommandsAux.withIdleCheck_fst]
    exact dispatch_meets hP (DispatchAux.processWaiterTimeoutTick_dispatch now hwaiters n id) h
  | idleCheck =>
    cases hr
    unfold processIdleCheckTick
    split
    · split <;> exact h
    · exact h
  | idleRelease =>
    cases hr
    exact h
  | wakeup due =>
    cases hr
    rw [CommandsAux.withIdleCheck_fst]
    exact dispatch_meets hP (DispatchAux.processWakeupTick_dispatch now (fun n a ha due => hP.wakes ((h n).queue a ha) due) due) h

/-! ## Rewinding -/

/-- Restarting the work of a step keeps the condition. -/
theorem rewindStep_meets (hP : PassedOn now P) (c : StepConfig)
    (h : w.Meets (P n)) : (rewindStep now c n w).1.Meets (P n) := by
  have hrewound : ({ w with queue := (w.inProgress.map InProgressState.rewound).reverse ++ w.queue, inProgress := [] } :
      InternalStepWorkerState).Meets (P n) := by
    refine ⟨fun a ha => ?_, List.forall_mem_nil _, h.waiters⟩
    rcases List.mem_append.1 ha with ha | ha
    · obtain ⟨x, hx, rfl⟩ := List.mem_map.1 (List.mem_reverse.1 ha)
      exact h.executions x hx
    · exact h.queue a ha
  have hdrained := workerDispatch_meets hP (DispatchAux.drainEligibleQueue_dispatch now c hrewound.queue) hrewound
  exact hdrained

/-- A run starts with the condition of the state that it is started from. -/
theorem start_meets (hP : PassedOn now P) (h : σ.Meets P) (e : Option Event) : (Loop.start cfg σ e now).state.Meets P := by
  rw [(CommandsAux.start_fields cfg σ e now).1]
  exact (PlainAux.forEachStep_invariant (fun τ => τ.Meets P) (fun _ => True) (fun q _ _ hτ =>
    ⟨setWorker_meets hτ (rewindStep_meets hP q.2 (hτ q.1)), fun _ _ => trivial⟩) h).1

end WorkItemsAux

/-! ## What work items pass on -/

/-- A condition on the step, the trigger and the payload of a work item. -/
abbrev ItemCondition := StepId → Event → Option CollectionReleasePayload → Prop

/-- A worker state all of whose work meets a condition: what is queued, in progress, and suspended by a waiter. -/
structure InternalStepWorkerState.Holds (Q : ItemCondition) (n : StepId) (w : InternalStepWorkerState) : Prop where
  queue : ∀ a ∈ w.queue, Q n a.event a.collectionReleasePayload
  executions : ∀ x ∈ w.inProgress, Q n x.event x.sharedState.collectionReleasePayload
  waiters : ∀ y ∈ w.collectedWaiters, Q n y.event y.collectionReleasePayload

/-- A state all of whose work meets a condition. -/
def BrokerState.Holds (Q : ItemCondition) (σ : BrokerState) : Prop := ∀ n, (σ.workers n).Holds Q n

/-- A condition that the work added by dispatch and the work restored from a snapshot meet. -/
structure ItemCondition.Passed (cfg : BrokerConfig) (Q : ItemCondition) : Prop where
  event : ∀ n ∈ cfg.steps.keys, ∀ e, Q n e none
  collect : ∀ p b, cfg.collectionBindings.get? p.bindingId = some b → Q b.targetStep p.asEvent (some p)
  restored : ∀ n e p, Q n e p → Q n (triggerOf p e) p

namespace HoldsAux

variable {cfg : BrokerConfig} {now : Time} {runId : Option String} {σ : BrokerState} {Q : ItemCondition}

/-- The attempts that keep a condition. -/
def Meets (Q : ItemCondition) (n : StepId) (a : EventAttempt) : Prop := Q n a.event a.collectionReleasePayload

/-- A condition on work items is one on the attempts that carry them. -/
theorem holds_iff_meets {n : StepId} {w : InternalStepWorkerState} : w.Holds Q n ↔ w.Meets (Meets Q n) :=
  ⟨fun h => ⟨h.queue, h.executions, h.waiters⟩, fun h => ⟨h.queue, h.executions, h.waiters⟩⟩

theorem state_holds_iff_meets : σ.Holds Q ↔ σ.Meets (Meets Q) := forall_congr' fun _ => holds_iff_meets

theorem holds_empty (Q : ItemCondition) (n : StepId) : ({} : InternalStepWorkerState).Holds Q n :=
  holds_iff_meets.2 (WorkItemsAux.meets_empty _)

/-- The trigger and the payload of a work item stay as they are. -/
theorem meets_passedOn (Q : ItemCondition) (now : Time) : PassedOn now (Meets Q) where
  starts h _ _ := h
  wakes := by
    intro n a h due
    have hwake : (a.wake due).event = a.event ∧ (a.wake due).collectionReleasePayload = a.collectionReleasePayload := by
      unfold EventAttempt.wake
      split <;> exact ⟨rfl, rfl⟩
    rw [Meets, hwake.1, hwake.2]
    exact h

/-! ## Ticks -/

/-- Every tick keeps a condition that is passed on. -/
theorem reduceTick_holds (hQ : Q.Passed cfg) {tick : WorkflowTick} (h : σ.Holds Q) {r : BrokerState × List WorkflowCommand}
    (hr : reduceTick cfg tick σ now runId = .ok r) : r.1.Holds Q := by
  have hmeets := state_holds_iff_meets.1 h
  refine state_holds_iff_meets.2 (WorkItemsAux.reduceTick_meets (meets_passedOn Q now) ⟨?_, ?_, ?_⟩ hmeets hr)
  · exact fun b hb s es out => hQ.collect _ b hb
  · intro t _ x hx
    have hknown := (hmeets t.stepId).executions x (List.mem_of_find?_eq_some hx)
    exact ⟨fun _ _ _ => hknown, fun _ _ => hknown⟩
  · intro t _
    refine ⟨fun _ q hq _ _ _ => hQ.event q.1 (List.mem_map_of_mem hq) _, ?_⟩
    exact fun payload b _ hb => hQ.collect payload b hb

/-! ## Restoring -/

/-- A condition survives a round trip through the serialized state. -/
theorem fromSerialized_holds (hQ : Q.Passed cfg) (h : σ.Holds Q) : (BrokerState.fromSerialized cfg σ.toSerialized).Holds Q := by
  intro n
  have hw := h n
  rw [BrokerState.fromSerialized]
  dsimp only
  split
  · refine ⟨fun a ha => ?_, List.forall_mem_nil _, fun y hy => ?_⟩
    · obtain ⟨s, hs, rfl⟩ := List.mem_map.1 ha
      rcases List.mem_append.1 hs with hs | hs
      · obtain ⟨b, hb, rfl⟩ := List.mem_map.1 hs
        exact hQ.restored _ _ _ (hw.queue b hb)
      · obtain ⟨x, hx, rfl⟩ := List.mem_map.1 hs
        exact hQ.restored _ _ _ (hw.executions x hx)
    · obtain ⟨s, hs, rfl⟩ := List.mem_map.1 hy
      obtain ⟨z, hz, rfl⟩ := List.mem_map.1 hs
      exact hQ.restored _ _ _ (hw.waiters z hz)
  · exact holds_empty Q n

/-! ## Runs -/

theorem start_holds (h : σ.Holds Q) (e : Option Event) (now : Time) : (Loop.start cfg σ e now).state.Holds Q :=
   state_holds_iff_meets.2 (WorkItemsAux.start_meets (meets_passedOn Q now) (state_holds_iff_meets.1 h) e)

/-- One action of the loop. -/
theorem step_holds (hQ : Q.Passed cfg) {L L' : Loop} (h : L.state.Holds Q) {a : Action} (hstep : L.step cfg runId a = some L') :
    L'.state.Holds Q := by
  rcases CommandsAux.step_advance hstep with ⟨hstate, -, -⟩ | ⟨now, -, tick, rest, hb, cs, hr, -⟩
  · rw [hstate]
    exact h
  · exact reduceTick_holds hQ h hr

/-- One action, in the run or from it to a restored one. -/
theorem stepSnapshots_holds (hQ : Q.Passed cfg) {raises : PolicyErrors} {L L' : Loop} (h : L.state.Holds Q)
    {a : SnapshotAction} (hstep : L.stepSnapshots cfg runId raises a = some L') : L'.state.Holds Q := by
  cases a with
  | restore e now =>
    cases hstep
    exact start_holds (fromSerialized_holds hQ h) e now
  | loop a =>
    rcases SlotsAux.stepTasks_cases hstep with ⟨_, -, hloop⟩ | hended
    · exact step_holds hQ h hloop
    · rw [hended.rest]
      exact h

/-- A condition that is passed on holds of all the work of every state that a run from a fresh context reaches. -/
theorem run_holds (hQ : Q.Passed cfg) {raises : PolicyErrors} {C : Loop → SnapshotAction → Prop} {e : Option Event}
    {L : Loop} (hrun : Lib.Run (Loop.stepSnapshots cfg runId raises) C (Loop.start cfg {} e now) L) : L.state.Holds Q :=
  hrun.invariant (fun L => L.state.Holds Q) (start_holds (fun n => holds_empty Q n) e now) fun _ _ _ h _ hs =>
    stepSnapshots_holds hQ h hs

end HoldsAux

end LlamaAgents
