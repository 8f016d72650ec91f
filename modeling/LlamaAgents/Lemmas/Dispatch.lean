import LlamaAgents.Lemmas.PlainLoop

/-!
# What dispatch can do

Every function that routes an event, resumes a waiter or closes a stream does three kinds of things to the state: it leaves the
workers alone, it reorders what a worker holds, or it adds an attempt to a worker. `Dispatch` says so once, with a condition on
the attempts that are added; an invariant of the workers is then shown by one induction over it.
-/

namespace LlamaAgents

open Lib (Dict)

/-- The slot of a step that a command starts a worker for. -/
def WorkflowCommand.startedAt? (n : StepId) : WorkflowCommand → Option Nat
  | .runWorker c => if c.stepId = n then some c.id else none
  | _ => none

/-- The slots of a step that commands start workers for. -/
def startedAt (n : StepId) (cs : List WorkflowCommand) : List Nat := cs.filterMap (WorkflowCommand.startedAt? n)

@[simp] theorem startedAt_nil (n : StepId) : startedAt n [] = [] := rfl

@[simp] theorem startedAt_append (n : StepId) (cs ds : List WorkflowCommand) :
    startedAt n (cs ++ ds) = startedAt n cs ++ startedAt n ds := List.filterMap_append

theorem startedAt_eq_nil {cs : List WorkflowCommand} {n : StepId} (h : ∀ d ∈ cs, d.startedAt? n = none) :
    startedAt n cs = [] := List.filterMap_eq_nil_iff.2 h

/-- What dispatch does to the worker state of a step: executions stay, queued attempts and waiters come from the old ones, and
attempts that are added meet `P`. -/
inductive WorkerDispatch (now : Time) (n : StepId) (P : EventAttempt → Prop) :
    InternalStepWorkerState → InternalStepWorkerState × List WorkflowCommand → Prop
  | adjusts {w w' : InternalStepWorkerState} (executions : w'.inProgress = w.inProgress)
      (queue : ∀ a ∈ w'.queue, a ∈ w.queue ∨ P a)
      (waiters : ∀ y ∈ w'.collectedWaiters, ∃ z ∈ w.collectedWaiters, z.resumed = y.resumed) :
      WorkerDispatch now n P w (w', [])
  | adds {w : InternalStepWorkerState} (c : StepConfig) {a : EventAttempt} (attempt : P a) :
      WorkerDispatch now n P w (addOrEnqueueEvent c n a now w)
  | seq {w : InternalStepWorkerState} {r r' : InternalStepWorkerState × List WorkflowCommand} :
      WorkerDispatch now n P w r → WorkerDispatch now n P r.1 r' → WorkerDispatch now n P w (r'.1, r.2 ++ r'.2)

/-- What dispatch does to the state: something to a worker at a time, or nothing to any of them. -/
inductive Dispatch (now : Time) (P : StepId → EventAttempt → Prop) : BrokerState → BrokerState × List WorkflowCommand → Prop
  | keeps {σ σ' : BrokerState} {cs : List WorkflowCommand} (workers : σ'.workers = σ.workers)
      (commands : ∀ d ∈ cs, ∀ n, d.startedAt? n = none) : Dispatch now P σ (σ', cs)
  | worker {σ : BrokerState} (n : StepId) {r : InternalStepWorkerState × List WorkflowCommand} :
      WorkerDispatch now n (P n) (σ.workers n) r → Dispatch now P σ (σ.setWorker n r.1, r.2)
  | seq {σ : BrokerState} {r r' : BrokerState × List WorkflowCommand} :
      Dispatch now P σ r → Dispatch now P r.1 r' → Dispatch now P σ (r'.1, r.2 ++ r'.2)

namespace WorkerDispatch

variable {now : Time} {n : StepId} {P : EventAttempt → Prop} {w : InternalStepWorkerState}

theorem refl (w : InternalStepWorkerState) : WorkerDispatch now n P w (w, []) :=
  adjusts rfl (fun _ => Or.inl) fun y hy => ⟨y, hy, rfl⟩

/-- Some queued attempts are dropped. -/
theorem drops {q : List EventAttempt} (h : ∀ a ∈ q, a ∈ w.queue) : WorkerDispatch now n P w ({ w with queue := q }, []) :=
  adjusts rfl (fun a ha => Or.inl (h a ha)) fun y hy => ⟨y, hy, rfl⟩

/-- Something is done first that answers with no command. -/
theorem after {w' : InternalStepWorkerState} {r : InternalStepWorkerState × List WorkflowCommand}
    (h : WorkerDispatch now n P w (w', [])) (h' : WorkerDispatch now n P w' r) : WorkerDispatch now n P w r := h.seq h'

end WorkerDispatch

namespace Dispatch

variable {now : Time} {P : StepId → EventAttempt → Prop} {σ σ' : BrokerState} {r : BrokerState × List WorkflowCommand}

theorem refl (σ : BrokerState) : Dispatch now P σ (σ, []) := keeps rfl (by simp)

/-- Something is done first that answers with no command. -/
theorem after (h : Dispatch now P σ (σ', [])) (h' : Dispatch now P σ' r) : Dispatch now P σ r := h.seq h'

/-- The workers stay, and nothing is answered. -/
theorem of_workers (h : σ'.workers = σ.workers) : Dispatch now P σ (σ', []) := keeps h (by simp)

/-- Only the workers of the first state matter. -/
theorem of_eq (h : Dispatch now P σ' r) (hw : σ'.workers = σ.workers) : Dispatch now P σ r := (of_workers hw).after h

/-- Only the workers of the last state matter. -/
theorem to_eq (h : Dispatch now P σ r) (hw : σ'.workers = r.1.workers) : Dispatch now P σ (σ', r.2) := by
  have h' := h.seq (of_workers hw)
  rwa [List.append_nil] at h'

end Dispatch

namespace DispatchAux

variable (cfg : BrokerConfig) (now : Time)

/-! ## One step -/

section Worker

variable {n : StepId} {P : EventAttempt → Prop} (c : StepConfig)

/-- The popped attempt comes from the queue, and so does the rest. -/
theorem popEligible_mem {q : List EventAttempt} {r : EventAttempt × List EventAttempt} (h : popEligible q = some r) :
    r.1 ∈ q ∧ ∀ a ∈ r.2, a ∈ q := by
  induction q generalizing r with
  | nil => cases h
  | cons b q ih =>
    rw [popEligible] at h
    split at h
    · cases h
      exact ⟨List.mem_cons_self, fun a => List.mem_cons_of_mem b⟩
    · obtain ⟨r', hr', rfl⟩ := Option.map_eq_some_iff.1 h
      obtain ⟨h₁, h₂⟩ := ih hr'
      refine ⟨List.mem_cons_of_mem b h₁, ?_⟩
      intro a ha
      rcases List.mem_cons.1 ha with rfl | ha
      · exact List.mem_cons_self
      · exact List.mem_cons_of_mem b (h₂ a ha)

/-- An added attempt is the only new one in the queue. -/
theorem addOrEnqueueEvent_queue (a : EventAttempt) (w : InternalStepWorkerState) :
    ∀ b ∈ (addOrEnqueueEvent c n a now w).1.queue, b ∈ w.queue ∨ b = a := by
  unfold addOrEnqueueEvent
  split
  · exact fun b => Or.inl
  · intro b hb
    rcases List.mem_append.1 hb with hb | hb
    · exact Or.inl hb
    · exact Or.inr (List.mem_singleton.1 hb)

/-- Draining a queue adds the attempts that it takes out. -/
theorem drainSlots_dispatch (k : Nat) {w : InternalStepWorkerState} (hq : ∀ a ∈ w.queue, P a) :
    WorkerDispatch now n P w (drainSlots c n now k w) := by
  induction k generalizing w with
  | zero => exact WorkerDispatch.refl w
  | succ k ih =>
    rw [drainSlots]
    cases hpop : popEligible w.queue with
    | none => exact WorkerDispatch.refl w
    | some r =>
      obtain ⟨hmem, hsub⟩ := popEligible_mem hpop
      refine (WorkerDispatch.drops hsub).after ((WorkerDispatch.adds c (hq r.1 hmem)).seq (ih ?_))
      intro b hb
      rcases addOrEnqueueEvent_queue now c r.1 _ b hb with hb | hb
      · exact hq b (hsub b hb)
      · exact hb ▸ hq r.1 hmem

/-- A drained queue starts attempts of the queue. -/
theorem drainEligibleQueue_dispatch {w : InternalStepWorkerState} (hq : ∀ a ∈ w.queue, P a) :
    WorkerDispatch now n P w (drainEligibleQueue c n now w) := drainSlots_dispatch now c _ hq

/-- Resuming the waiters that an event satisfies adds the work items that they suspended. -/
theorem resolveStepWaiters_dispatch (e : Event) (ys : List StepWorkerWaiter) (seen : List StepWorkerWaiter)
    {w : InternalStepWorkerState} (hw : w.collectedWaiters = seen ++ ys) (hP : ∀ y ∈ ys, P y.resumed) :
    WorkerDispatch now n P w (resolveStepWaiters c n e now seen ys w) := by
  induction ys generalizing seen w with
  | nil => exact WorkerDispatch.refl w
  | cons y ys ih =>
    have hP' : ∀ z ∈ ys, P z.resumed := fun z hz => hP z (List.mem_cons_of_mem y hz)
    rw [resolveStepWaiters]
    split
    · have hset : WorkerDispatch now n P w ({ w with collectedWaiters := seen ++ { y with resolvedEvent := some e } :: ys }, []) := by
        refine .adjusts rfl (fun _ => Or.inl) fun z hz => ?_
        rw [hw]
        rcases List.mem_append.1 hz with hz | hz
        · exact ⟨z, List.mem_append_left _ hz, rfl⟩
        · rcases List.mem_cons.1 hz with rfl | hz
          · exact ⟨y, by simp, rfl⟩
          · exact ⟨z, List.mem_append_right _ (List.mem_cons_of_mem y hz), rfl⟩
      refine hset.after ((WorkerDispatch.adds c (hP y List.mem_cons_self)).seq (ih (seen ++ [_]) ?_ hP'))
      rw [(FrameAux.addOrEnqueueEvent_frame now c n y.resumed _).waiters]
      simp
    · exact ih (seen ++ [y]) (by simpa using hw) hP'

theorem consume_dispatch (tick : TickAddEvent) (w : InternalStepWorkerState) :
    WorkerDispatch now n P w (consumeSupersededDelayedAttempt tick w, []) := by
  unfold consumeSupersededDelayedAttempt
  split
  · exact WorkerDispatch.refl w
  · exact WorkerDispatch.drops fun a => List.mem_of_mem_eraseP

theorem staticCollectEvents_dispatch (e : Event) (ps : List (String × EventType)) (w : InternalStepWorkerState) :
    WorkerDispatch now n P w ((staticCollectEvents e c ps w).1, []) := by
  obtain ⟨hy, hx, hq⟩ := RoutingAux.staticCollectEvents_fields e c ps w
  exact .adjusts hx (fun a ha => Or.inl (hq ▸ ha)) fun y hy' => ⟨y, hy ▸ hy', rfl⟩

end Worker

/-! ## Streams -/

section Streams

/-- The collect invocations that a condition on attempts has to allow: those of the configured bindings. -/
def Fires (P : StepId → EventAttempt → Prop) : Prop :=
  ∀ b, cfg.collectionBindings.get? b.id = some b → ∀ s es out, P b.targetStep (CollectionReleasePayload.mk b.id s es out).toAttempt

variable {cfg} {P : StepId → EventAttempt → Prop} (hP : Fires cfg P)

include hP

/-- The bookkeeping of streams dispatches only the releases that it fires. -/
theorem serves_dispatch {Q : StepConfig → CollectionBinding → Prop}
    (hQ : ∀ c b, Q c b → cfg.collectionBindings.get? b.id = some b) {σ : BrokerState} {r : BrokerState × List WorkflowCommand}
    (h : Serves now Q σ r) : Dispatch now P σ r := by
  induction h with
  | keeps hw _ _ _ _ => exact Dispatch.of_workers hw
  | @fires σ c b hb s es out =>
    have hadd : Dispatch now P σ (σ.setWorker b.targetStep _, _) := .worker b.targetStep (.adds c (hP b (hQ c b hb) s es out))
    exact hadd.to_eq rfl
  | seq _ _ ih ih' => exact ih.seq ih'

theorem binds_dispatch {σ : BrokerState} {r : BrokerState × List WorkflowCommand} (h : Serves now cfg.Binds σ r) :
    Dispatch now P σ r := serves_dispatch now hP (fun _ _ hb => hb.binding) h

/-! ## Routing -/

theorem routeMemberToCollectStep_dispatch (c : StepConfig) (tick : TickAddEvent) (n : StepId) (σ : BrokerState) :
    Dispatch now P σ ((routeMemberToCollectStep cfg c tick n now σ).state,
      (routeMemberToCollectStep cfg c tick n now σ).commands) := by
  unfold routeMemberToCollectStep
  split
  · split
    · exact .keeps rfl (by simp [WorkflowCommand.startedAt?])
    · exact Dispatch.of_workers rfl
  · split
    · case h_1 s _ _ _ =>
      exact (binds_dispatch now hP (Serves.adjust cfg now (some s) (-1) (σ.report (.droppedMember tick.event n s)))).of_eq rfl
    · case h_2 hb =>
      obtain ⟨-, -, -, hb, -⟩ := RoutingAux.bindingForTarget_eq_some hb
      exact (serves_dispatch now hP (fun _ _ hb => hb) (Serves.collectMember now hb tick _ σ)).seq
        (binds_dispatch now hP (Serves.adjust cfg now _ _ _))

/-- The attempts that an event becomes at a step, when the join of the step holds some events. -/
def Delivers (P : EventAttempt → Prop) (tick : TickAddEvent) (c : StepConfig) (held : List Event) : Prop :=
  ∀ bound, tick.bound? c held = some bound → P (tick.toAttempt bound)

/-- A step is given the event itself or the join that it completes. -/
theorem deliverToStep_dispatch (c : StepConfig) {tick : TickAddEvent} {n : StepId} {σ : BrokerState}
    (htick : Delivers (P n) tick c (σ.workers n).staticCollectEvents) :
    Dispatch now P σ (deliverToStep cfg c tick n now σ) := by
  have hcons := consume_dispatch now (n := n) (P := P n) tick (σ.workers n)
  unfold deliverToStep
  dsimp only
  split
  · case h_1 hslots => exact .worker n (hcons.after (.adds c (htick _ (by rw [TickAddEvent.bound?, hslots]))))
  · case h_2 ps hslots =>
    have hstatic := hcons.after (staticCollectEvents_dispatch now c tick.event ps _)
    split
    · have hset : Dispatch now P σ (σ.setWorker n _, []) := .worker n hstatic
      exact hset.after (binds_dispatch now hP (Serves.adjust cfg now _ _ _))
    · case h_2 binding hbinding =>
      rw [(RoutingAux.staticCollectEvents_static tick.event c ps _).2, (RoutingAux.consume_frame tick _).static] at hbinding
      refine .worker n (hstatic.after (.adds c (htick (some binding) ?_)))
      rw [TickAddEvent.bound?, hslots]
      exact congrArg (Option.map some) hbinding

/-- Routing gives an event to each step once, so that its buffer is still the one at the start. -/
theorem routeToAcceptingSteps_dispatch {tick : TickAddEvent} {l : List (StepId × StepConfig)} (hl : (l.map Prod.fst).Nodup)
    (resolved : List StepId) {σ : BrokerState}
    (htick : ∀ q ∈ l, tick.isDelivered resolved q.1 q.2 → Delivers (P q.1) tick q.2 (σ.workers q.1).staticCollectEvents) :
    Dispatch now P σ ((routeToAcceptingSteps cfg tick resolved now l σ).state,
      (routeToAcceptingSteps cfg tick resolved now l σ).commands) := by
  induction l generalizing σ with
  | nil => exact Dispatch.refl σ
  | cons p l ih =>
    obtain ⟨n, c⟩ := p
    rw [List.map_cons, List.nodup_cons] at hl
    -- what the step is given leaves the joins of the later ones
    have hlater : ∀ {τ : BrokerState}, (∀ m, m ≠ n → (τ.workers m).staticCollectEvents = (σ.workers m).staticCollectEvents) →
        Dispatch now P τ ((routeToAcceptingSteps cfg tick resolved now l τ).state,
          (routeToAcceptingSteps cfg tick resolved now l τ).commands) := by
      intro τ hτ
      refine ih hl.2 fun q hq => ?_
      have hmem : q.1 ∈ l.map Prod.fst := List.mem_map_of_mem hq
      rw [hτ q.1 fun heq => hl.1 (heq ▸ hmem)]
      exact htick q (List.mem_cons_of_mem _ hq)
    rw [routeToAcceptingSteps]
    split
    · dsimp only
      split
      · exact (binds_dispatch now hP (Serves.adjust cfg now _ _ σ)).seq
          (hlater fun m _ => ((Serves.adjust cfg now _ _ σ).frame.workers m).static)
      · exact (Dispatch.refl σ).after (hlater fun _ _ => rfl)
    · case isFalse hresolved =>
      split
      · exact hlater fun _ _ => rfl
      · case isFalse haccepts =>
        split
        · dsimp only
          split
          · exact routeMemberToCollectStep_dispatch now hP c tick n σ
          · exact (routeMemberToCollectStep_dispatch now hP c tick n σ).seq
              (hlater fun m _ => (RoutingAux.routeMemberToCollectStep_workers cfg now c tick n σ m).static)
        · case isFalse hcollect =>
          have hdelivered : tick.isDelivered resolved n c := by simp_all [TickAddEvent.isDelivered]
          refine (deliverToStep_dispatch now hP c (htick (n, c) List.mem_cons_self hdelivered)).seq (hlater fun m hm => ?_)
          rw [RoutingAux.deliverToStep_static, if_neg hm]

end Streams

/-! ## Ticks -/

section Ticks

variable {cfg} {P : StepId → EventAttempt → Prop} {σ : BrokerState}

/-- A dispatch at each step in turn is a dispatch. -/
theorem forEachStep_dispatch
    {f : StepConfig → StepId → InternalStepWorkerState → InternalStepWorkerState × List WorkflowCommand}
    {l : List (StepId × StepConfig)} (hl : (l.map Prod.fst).Nodup)
    (hf : ∀ q ∈ l, WorkerDispatch now q.1 (P q.1) (σ.workers q.1) (f q.2 q.1 (σ.workers q.1))) :
    Dispatch now P σ (forEachStep f l σ) := by
  induction l generalizing σ with
  | nil => exact Dispatch.refl σ
  | cons q l ih =>
    rw [List.map_cons, List.nodup_cons] at hl
    have hfirst : Dispatch now P σ (σ.setWorker q.1 _, _) := .worker q.1 (hf q List.mem_cons_self)
    refine hfirst.seq (ih hl.2 ?_)
    intro q' hq'
    have hne : q'.1 ≠ q.1 := fun he => hl.1 (he ▸ List.mem_map_of_mem hq')
    rw [BrokerState.setWorker_workers, Function.update_of_ne hne]
    exact hf q' (List.mem_cons_of_mem q hq')

/-- An event that a waiter waits for resumes the step of the waiter. -/
theorem resolveWaiters_dispatch (hy : ∀ n, ∀ y ∈ (σ.workers n).collectedWaiters, P n y.resumed) (e : Event) :
    Dispatch now P σ (resolveWaiters cfg e now σ) :=
  forEachStep_dispatch now cfg.steps.nodup fun q _ =>
    resolveStepWaiters_dispatch now q.2 e _ [] rfl (hy q.1)

theorem resolveStepWaiters_static (c : StepConfig) (n : StepId) (e : Event) (ys : List StepWorkerWaiter)
    (seen : List StepWorkerWaiter) (w : InternalStepWorkerState) :
    (resolveStepWaiters c n e now seen ys w).1.staticCollectEvents = w.staticCollectEvents := by
  induction ys generalizing seen w with
  | nil => rfl
  | cons y ys ih =>
    rw [resolveStepWaiters]
    split
    · exact (ih _ _).trans (FrameAux.addOrEnqueueEvent_frame now c n y.resumed _).static
    · exact ih _ _

/-- Resuming waiters leaves the joins. -/
theorem resolveWaiters_static (e : Event) (σ : BrokerState) (n : StepId) :
    ((resolveWaiters cfg e now σ).1.workers n).staticCollectEvents = (σ.workers n).staticCollectEvents := by
  rw [resolveWaiters, PlainAux.forEachStep_same InternalStepWorkerState.staticCollectEvents]
  exact fun c n w => resolveStepWaiters_static now c n e _ [] w

/-- A timeout resumes the step of its waiter. -/
theorem processWaiterTimeoutTick_dispatch (hy : ∀ n, ∀ y ∈ (σ.workers n).collectedWaiters, P n y.resumed) (n : StepId)
    (id : WaiterId) : Dispatch now P σ (processWaiterTimeoutTick cfg n id σ now) := by
  unfold processWaiterTimeoutTick
  split
  · exact Dispatch.refl σ
  · case h_2 c _ =>
    dsimp only
    split
    · exact Dispatch.refl σ
    · case h_2 y hfind =>
      split
      · exact Dispatch.refl σ
      · have hmem := List.mem_of_find?_eq_some hfind
        have hset : ∀ i, WorkerDispatch now n (P n) (σ.workers n) ({ σ.workers n with
            collectedWaiters := (σ.workers n).collectedWaiters.set i { y with timedOut := true } }, []) := by
          refine fun i => .adjusts rfl (fun _ => Or.inl) fun z hz => ?_
          rcases List.mem_or_eq_of_mem_set hz with hz | rfl
          · exact ⟨z, hz, rfl⟩
          · exact ⟨y, hmem, rfl⟩
        exact .worker n ((hset _).after (.adds c (hy n y hmem)))

/-- A wakeup starts attempts that wait for their time. -/
theorem processWakeupTick_dispatch (hq : ∀ n, ∀ a ∈ (σ.workers n).queue, ∀ due, P n (a.wake due)) (due : Time) :
    Dispatch now P σ (processWakeupTick cfg due σ now) := by
  refine forEachStep_dispatch now (PlainAux.nodup_sortedSteps cfg) fun q _ => ?_
  have hwake : ∀ a ∈ (σ.workers q.1).queue.map fun a => a.wake due, P q.1 a := by
    intro a ha
    obtain ⟨b, hb, rfl⟩ := List.mem_map.1 ha
    exact hq q.1 b hb due
  have hset : WorkerDispatch now q.1 (P q.1) (σ.workers q.1)
      ({ σ.workers q.1 with queue := (σ.workers q.1).queue.map fun a => a.wake due }, []) :=
    .adjusts rfl (fun a ha => Or.inr (hwake a ha)) fun y hy => ⟨y, hy, rfl⟩
  exact hset.after (drainEligibleQueue_dispatch now q.2 hwake)

theorem unhandledEventCommands_startedAt? (tick : TickAddEvent) (σ : BrokerState) :
    ∀ d ∈ unhandledEventCommands cfg tick σ, ∀ n, d.startedAt? n = none := by
  unfold unhandledEventCommands
  split <;> simp [WorkflowCommand.startedAt?]

/-- A work item's id does not decide where its event is delivered. -/
theorem isDelivered_identified (tick : TickAddEvent) (σ : BrokerState) (n : StepId) (c : StepConfig) :
    (identifyWorkItem tick σ).2.isDelivered (waiterResolvedSteps cfg (identifyWorkItem tick σ).2.event (identifyWorkItem tick σ).1)
      n c = tick.isDelivered (waiterResolvedSteps cfg tick.event σ) n c := by
  obtain ⟨⟨hworkers, -⟩, hevent, hstep, -⟩ := PlainAux.identifyWorkItem_fields tick σ
  rw [TickAddEvent.isDelivered, TickAddEvent.isTargeted, waiterResolvedSteps, hevent, hstep, hworkers]
  rfl

/-- An added event adds attempts of its own, collect invocations and suspended work items. -/
theorem processAddEventTick_dispatch (hP : Fires cfg P) (hy : ∀ n, ∀ y ∈ (σ.workers n).collectedWaiters, P n y.resumed)
    {tick : TickAddEvent} (htick : tick.collectionReleasePayload = none → ∀ q ∈ cfg.steps.entries,
      tick.isDelivered (waiterResolvedSteps cfg tick.event σ) q.1 q.2 →
      Delivers (P q.1) (identifyWorkItem tick σ).2 q.2 (σ.workers q.1).staticCollectEvents)
    (hredeliver : ∀ payload b, (identifyWorkItem tick σ).2.collectionReleasePayload = some payload →
      cfg.collectionBindings.get? payload.bindingId = some b → P b.targetStep
        { (identifyWorkItem tick σ).2.toAttempt none with event := payload.asEvent, collectionReleasePayload := some payload })
    {r : BrokerState × List WorkflowCommand} (hr : processAddEventTick cfg tick σ now = .ok r) : Dispatch now P σ r := by
  have hfields := PlainAux.identifyWorkItem_fields tick σ
  have hworkers := hfields.1.1
  unfold processAddEventTick at hr
  dsimp only at hr
  split at hr
  · case h_1 payload hpayload =>
    unfold redeliverCollectionPayload at hr
    split at hr
    · cases hr
    · case h_2 b hb =>
      split at hr
      · cases hr
      · case h_2 c _ =>
        cases hr
        have hadd : Dispatch now P (identifyWorkItem tick σ).1 (BrokerState.setWorker _ b.targetStep _, _) :=
          .worker b.targetStep (.adds c (hredeliver payload b hpayload hb))
        exact hadd.of_eq hworkers
  · case h_2 hpayload =>
    have hwoken : Dispatch now P (identifyWorkItem tick σ).1
        (resolveWaiters cfg (identifyWorkItem tick σ).2.event now (identifyWorkItem tick σ).1) :=
      resolveWaiters_dispatch now (hworkers ▸ hy) _
    have hstatic : ∀ n, ((resolveWaiters cfg (identifyWorkItem tick σ).2.event now (identifyWorkItem tick σ).1).1.workers
        n).staticCollectEvents = ((identifyWorkItem tick σ).1.workers n).staticCollectEvents := resolveWaiters_static now _ _
    rw [hworkers] at hstatic
    have hrouted := hwoken.seq (routeToAcceptingSteps_dispatch now hP cfg.steps.nodup
      (waiterResolvedSteps cfg (identifyWorkItem tick σ).2.event (identifyWorkItem tick σ).1) fun q hq hdelivered =>
        hstatic q.1 ▸ htick (hfields.2.2.2.2.2.2.symm.trans hpayload) q hq (by rwa [isDelivered_identified] at hdelivered))
    split at hr
    · cases hr
      exact hrouted.of_eq hworkers
    · cases hr
      exact (hrouted.seq (.keeps rfl (unhandledEventCommands_startedAt? _ _))).of_eq hworkers

end Ticks

end DispatchAux

end LlamaAgents
