import LlamaAgents.Lemmas.SlotRuns
import LlamaAgents.Workflow

/-!
# The drain loop ends

A round of the drain loop reduces a tick, or puts an idle check behind the others. Reducing a tick buffers at most one event for
each result that it brings, and these bring none, so twice the weight of the buffer, and one for an idle check in front, goes
down with every round.

Only the result of an execution has events queued, at most one for each of its results, and only an idle check publishes that
the run is idle unless the tick itself brings that event.
-/

namespace LlamaAgents

/-- A command that queues no event, and does not publish that the run is idle. -/
def WorkflowCommand.IsCalm (d : WorkflowCommand) : Prop := d.isQueueEvent = false ∧ d ≠ .publishEvent .workflowIdle

namespace IdlenessAux

variable {cfg : BrokerConfig} {runId : Option String} {now : Time} {σ : BrokerState} {r : BrokerState × List WorkflowCommand}

/-! ## Commands that start work -/

/-- Another event is published. -/
theorem calm_publish {e : Event} (h : e.type ≠ .workflowIdleEvent) : (WorkflowCommand.publishEvent e).IsCalm :=
  ⟨rfl, fun heq => h (congrArg Event.type (WorkflowCommand.publishEvent.inj heq))⟩

theorem calm_of_isDispatch {d : WorkflowCommand} (h : d.isDispatch) : d.IsCalm := by
  cases d with
  | runWorker c => exact ⟨rfl, nofun⟩
  | publishEvent e =>
    refine calm_publish fun heq => ?_
    rw [WorkflowCommand.isDispatch, heq] at h
    exact absurd h (by decide)
  | _ => cases h

theorem calm_append {cs ds : List WorkflowCommand} (hcs : ∀ d ∈ cs, d.IsCalm) (hds : ∀ d ∈ ds, d.IsCalm) :
    ∀ d ∈ cs ++ ds, d.IsCalm := fun d hd => (List.mem_append.1 hd).elim (hcs d) (hds d)

theorem calm_of_dispatch {cs : List WorkflowCommand} (h : ∀ d ∈ cs, d.isDispatch) : ∀ d ∈ cs, d.IsCalm :=
  fun d hd => calm_of_isDispatch (h d hd)

/-- A failure of the run. -/
theorem calm_failure (n : StepId) (e : Exn) (attempts : Option Nat) (elapsed : Option Time) :
    ∀ d ∈ [WorkflowCommand.publishEvent (.workflowFailed n e attempts elapsed), .failWorkflow n e], d.IsCalm := by
  intro d hd
  rcases List.mem_cons.1 hd with rfl | hd
  · exact calm_publish (show EventType.workflowFailedEvent ≠ .workflowIdleEvent by decide)
  · rw [List.mem_singleton.1 hd]
    exact ⟨rfl, nofun⟩

/-! ## Added events -/

section Added

variable (cfg now)

theorem deliverToStep_dispatch (c : StepConfig) (t : TickAddEvent) (n : StepId) (σ : BrokerState) :
    ∀ d ∈ (deliverToStep cfg c t n now σ).2, d.isDispatch := by
  unfold deliverToStep
  dsimp only
  split
  · exact FrameAux.addOrEnqueueEvent_commands now c n _ _
  · split
    · exact (Serves.adjust cfg now _ _ _).frame.commands
    · exact FrameAux.addOrEnqueueEvent_commands now c n _ _

theorem resolveStepWaiters_isDispatch (c : StepConfig) (n : StepId) (e : Event) (seen ys : List StepWorkerWaiter)
    (w : InternalStepWorkerState) : ∀ d ∈ (resolveStepWaiters c n e now seen ys w).2, d.isDispatch := by
  induction ys generalizing seen w with
  | nil => exact List.forall_mem_nil _
  | cons y ys ih =>
    rw [resolveStepWaiters]
    split
    · intro d hd
      rcases List.mem_append.1 hd with hd | hd
      · exact FrameAux.addOrEnqueueEvent_commands now c n _ _ d hd
      · exact ih _ _ d hd
    · exact ih _ _

theorem resolveWaiters_isDispatch (e : Event) (σ : BrokerState) : ∀ d ∈ (resolveWaiters cfg e now σ).2, d.isDispatch :=
  (PlainAux.forEachStep_invariant (fun _ => True) (fun d => d.isDispatch = true)
    (fun q _ _ _ => ⟨trivial, resolveStepWaiters_isDispatch now q.2 q.1 e [] _ _⟩) trivial).2

theorem routes_calm {t : TickAddEvent} {σ : BrokerState} {r : BrokerState × List WorkflowCommand} (h : Routes cfg now t σ r) :
    ∀ d ∈ r.2, d.IsCalm := by
  induction h with
  | serves h => exact calm_of_dispatch h.frame.commands
  | fails n e => exact calm_failure n e none none
  | @delivers σ n c _ => exact calm_of_dispatch (deliverToStep_dispatch cfg now c t n σ)
  | seq _ _ ih ih' => exact calm_append ih ih'

end Added

theorem processAddEventTick_calm {t : TickAddEvent} (hr : processAddEventTick cfg t σ now = .ok r) : ∀ d ∈ r.2, d.IsCalm := by
  unfold processAddEventTick at hr
  generalize identifyWorkItem t σ = identified at hr
  obtain ⟨σ', t'⟩ := identified
  dsimp only at hr
  split at hr
  · unfold redeliverCollectionPayload at hr
    split at hr
    · cases hr
    · split at hr <;> cases hr
      exact calm_of_dispatch (FrameAux.addOrEnqueueEvent_commands now _ _ _ _)
  · have hrouted := calm_append (calm_of_dispatch (resolveWaiters_isDispatch cfg now t'.event σ'))
      (routes_calm cfg now (RoutingAux.routeToAcceptingSteps_routes cfg now t' (waiterResolvedSteps cfg t'.event σ')
        (fun q hq => (cfg.steps.get?_eq_some_iff q.1 q.2).2 hq) (resolveWaiters cfg t'.event now σ').1))
    split at hr <;> cases hr
    · exact hrouted
    · refine calm_append hrouted ?_
      unfold unhandledEventCommands
      split
      · exact List.forall_mem_nil _
      · intro d hd
        rw [List.mem_singleton.1 hd]
        exact calm_publish (show EventType.unhandledEvent ≠ .workflowIdleEvent by decide)

/-! ## Results -/

/-- Commands that queue at most `k` events, and do not publish that the run is idle if `quiet` holds. -/
structure Queues (quiet : Prop) (k : Nat) (cs : List WorkflowCommand) : Prop where
  queued : (newTicks cs).length ≤ k
  calm : quiet → .publishEvent .workflowIdle ∉ cs

variable {quiet : Prop}

theorem queues_of_calm {cs : List WorkflowCommand} (h : ∀ d ∈ cs, d.IsCalm) (k : Nat) : Queues quiet k cs where
  queued := by
    rw [CommandsAux.newTicks_of_no_queue fun d hd => (h d hd).1]
    exact Nat.zero_le k
  calm _ hd := (h _ hd).2 rfl

theorem queues_append {j k : Nat} {cs ds : List WorkflowCommand} (hcs : Queues quiet j cs) (hds : Queues quiet k ds) :
    Queues quiet (j + k) (cs ++ ds) where
  queued := by
    rw [CommandsAux.newTicks_append, List.length_append]
    exact Nat.add_le_add hcs.queued hds.queued
  calm hquiet hd := (List.mem_append.1 hd).elim (hcs.calm hquiet) (hds.calm hquiet)

theorem queues_queue (d : CommandQueueEvent) : Queues quiet 1 [.queueEvent d] := ⟨le_rfl, by simp⟩

section Results

variable (c : StepConfig) {tick : TickStepResult} (scope : FanOutScope) (done : Bool)

theorem failed_queues (f : StepWorkerFailed) (acc : StepResultAcc) :
    ∃ cs, (scheduleRetryOrRouteFailure cfg c tick runId f acc).commands = acc.commands ++ cs ∧ Queues quiet 1 cs := by
  unfold scheduleRetryOrRouteFailure
  dsimp only
  split
  · refine ⟨_, rfl, queues_of_calm (fun d hd => ?_) 1⟩
    obtain ⟨t, -, rfl⟩ := Option.map_eq_some_iff.1 (Option.mem_toList.1 hd)
    exact ⟨rfl, nofun⟩
  · split
    · exact ⟨_, rfl, queues_queue _⟩
    · exact ⟨_, rfl, queues_of_calm (calm_failure _ _ _ _) 1⟩

/-- A result adds commands that queue at most one event. -/
theorem applyStepResult_queues (acc : StepResultAcc) {r : StepFunctionResult}
    (hr : quiet → ∀ add, r = .addWaiter add → add.waiterEvent ≠ some .workflowIdle) :
    ∃ cs, (applyStepResult cfg c tick scope done runId acc r).commands = acc.commands ++ cs ∧ Queues quiet 1 cs := by
  have hnone : ∃ cs, acc.commands = acc.commands ++ cs ∧ Queues quiet 1 cs :=
    ⟨[], (List.append_nil _).symm, queues_of_calm (List.forall_mem_nil _) 1⟩
  cases r with
  | result e fanned =>
    cases e with
    | none => exact hnone
    | some e =>
      rw [applyStepResult]
      split
      · case isTrue hstop =>
        refine ⟨_, rfl, queues_of_calm (fun d hd => ?_) 1⟩
        rcases List.mem_cons.1 hd with rfl | hd
        · refine ⟨rfl, fun heq => ?_⟩
          cases WorkflowCommand.publishEvent.inj heq
          exact absurd hstop (by decide)
        · rw [List.mem_singleton.1 hd]
          exact ⟨rfl, fun h => by cases h⟩
      · refine ⟨_, List.append_assoc _ _ _, queues_append (queues_of_calm ?_ 0) (queues_queue _)⟩
        intro d hd
        split at hd
        · case isTrue hinput =>
          rw [List.mem_singleton] at hd
          subst hd
          refine ⟨rfl, fun heq => ?_⟩
          cases WorkflowCommand.publishEvent.inj heq
          exact absurd hinput (by decide)
        · cases hd
  | failed f => exact failed_queues c f acc
  | addCollected b e =>
    rw [applyStepResult]
    dsimp only
    split
    · exact ⟨_, rfl, Nat.zero_le _, by simp⟩
    · exact hnone
  | deleteCollected b =>
    rw [applyStepResult]
    split <;> exact hnone
  | addWaiter add =>
    rw [applyStepResult]
    dsimp only
    split
    · exact hnone
    · have htimeout : ∀ d ∈ (add.timeout.map fun t => WorkflowCommand.scheduleWaiterTimeout tick.stepId add.waiterId t).toList,
          d.IsCalm := by
        intro d hd
        obtain ⟨t, -, rfl⟩ := Option.map_eq_some_iff.1 (Option.mem_toList.1 hd)
        exact ⟨rfl, fun h => by cases h⟩
      have hevent : Queues quiet 1 (add.waiterEvent.map WorkflowCommand.publishEvent).toList := by
        cases he : add.waiterEvent with
        | none => exact ⟨Nat.zero_le _, by simp⟩
        | some e =>
          refine ⟨Nat.zero_le _, fun hquiet hd => hr hquiet add rfl ?_⟩
          rw [he, WorkflowCommand.publishEvent.inj (List.mem_singleton.1 hd)]
      exact ⟨_, List.append_assoc _ _ _, queues_append hevent (queues_of_calm htimeout 0)⟩
  | deleteWaiter i =>
    rw [applyStepResult]
    split <;> exact hnone

theorem foldl_queues {rs : List StepFunctionResult}
    (hrs : quiet → ∀ r ∈ rs, ∀ add, r = .addWaiter add → add.waiterEvent ≠ some .workflowIdle) (acc : StepResultAcc) :
    ∃ cs, (rs.foldl (applyStepResult cfg c tick scope done runId) acc).commands = acc.commands ++ cs ∧ Queues quiet rs.length cs := by
  induction rs generalizing acc with
  | nil => exact ⟨[], (List.append_nil _).symm, queues_of_calm (List.forall_mem_nil _) 0⟩
  | cons r rs ih =>
    obtain ⟨cs, hcs, hq⟩ := @applyStepResult_queues cfg runId quiet c tick scope done acc r fun hquiet =>
      hrs hquiet r List.mem_cons_self
    obtain ⟨ds, hds, hq'⟩ := ih (fun hquiet q hq => hrs hquiet q (List.mem_cons_of_mem r hq))
      (applyStepResult cfg c tick scope done runId acc r)
    refine ⟨cs ++ ds, ?_, ?_⟩
    · rw [List.foldl_cons, hds, hcs, List.append_assoc]
    · rw [List.length_cons, Nat.add_comm]
      exact queues_append hq hq'

end Results

/-- The end of an execution queues nothing more. -/
theorem finishExecution_queues (c : StepConfig) (tick : TickStepResult) {acc : StepResultAcc} {k : Nat}
    (h : Queues quiet k acc.commands) : Queues quiet k (finishExecution c tick acc now).2 := by
  have hended : Queues quiet k (SlotsAux.endedCommands tick acc) := by
    unfold SlotsAux.endedCommands
    split
    · have hchanged : (WorkflowCommand.publishEvent (.stepStateChanged .notRunning tick.stepId tick.event.typeText
          (toString tick.workerId) acc.outputEventName)).IsCalm :=
        calm_publish (show EventType.stepStateChanged ≠ .workflowIdleEvent by decide)
      have happend := queues_append (queues_of_calm (List.forall_mem_singleton.2 hchanged) 0) h
      rwa [Nat.zero_add] at happend
    · exact h
  rw [SlotsAux.finishExecution_eq, SlotsAux.drainUnless]
  split
  · exact hended
  · exact queues_append hended (queues_of_calm (calm_of_dispatch (FrameAux.drainEligibleQueue_commands now c _ _)) 0)

theorem processStepResultTick_queues {tick : TickStepResult} (hr : processStepResultTick cfg tick σ now runId = .ok r) :
    Queues (WorkflowTick.brings .workflowIdle (.stepResult tick) = false) tick.result.length r.2 := by
  cases CommandsAux.processStepResultTick_moves hr with
  | reruns _ _ hrerun =>
    unfold rerunForStaleCollectBuffer at hrerun
    split at hrerun <;> cases hrerun
    exact ⟨Nat.zero_le _, by simp⟩
  | @applies c x started acc _ _ _ _ hacc hres =>
    obtain ⟨cs, hcs, hq⟩ := @foldl_queues cfg runId (WorkflowTick.brings .workflowIdle (.stepResult tick) = false) c tick started.2
      (tick.result.any StepFunctionResult.isResult) tick.result (by
        rintro hbrings q hq add rfl hevent
        rw [WorkflowTick.brings, List.any_eq_false] at hbrings
        exact hbrings _ hq (decide_eq_true hevent))
      { state := started.1, execution := x }
    rw [List.nil_append, ← hacc] at hcs
    rw [← hcs] at hq
    exact finishExecution_queues c tick
      (queues_append hq (queues_of_calm (calm_of_dispatch (Serves.resolve hres).frame.commands) 0))

/-! ## Every tick -/

/-- The number of results that a tick brings. -/
def results : WorkflowTick → Nat
  | .stepResult t => t.result.length
  | _ => 0

theorem withIdleCheck_queues {k : Nat} (h : Queues quiet k r.2) : Queues quiet k (withIdleCheck cfg r).2 := by
  have hcheck : WorkflowCommand.IsCalm .scheduleIdleCheck := ⟨rfl, nofun⟩
  unfold withIdleCheck
  split
  · exact queues_append h (queues_of_calm (List.forall_mem_singleton.2 hcheck) 0)
  · exact h

/-- A tick queues no more events than it brings results. If it publishes that the run is idle, it brings that event or is an idle
check of a run that is idle. -/
theorem reduceTick_queues {tick : WorkflowTick} (hr : reduceTick cfg tick σ now runId = .ok r) :
    Queues (tick.brings .workflowIdle = false ∧ (tick = .idleCheck → checkIdleState cfg σ = false)) (results tick) r.2 := by
  cases tick with
  | stepResult t =>
    obtain ⟨r', hr', rfl⟩ := PlainAux.map_eq_ok hr
    have h := processStepResultTick_queues hr'
    exact withIdleCheck_queues ⟨h.queued, fun hquiet => h.calm hquiet.1⟩
  | addEvent t =>
    obtain ⟨r', hr', rfl⟩ := PlainAux.map_eq_ok hr
    exact withIdleCheck_queues (queues_of_calm (processAddEventTick_calm hr') 0)
  | cancelRun =>
    cases hr
    refine withIdleCheck_queues (queues_of_calm ?_ 0)
    refine List.forall_mem_cons.2 ⟨calm_publish (by decide), List.forall_mem_singleton.2 ⟨rfl, nofun⟩⟩
  | idleRelease =>
    cases hr
    have hreleased : WorkflowCommand.IsCalm (.completeRun .idleReleased) := ⟨rfl, nofun⟩
    exact queues_of_calm (List.forall_mem_singleton.2 hreleased) 0
  | publishEvent e =>
    cases hr
    refine withIdleCheck_queues ⟨Nat.zero_le _, fun hquiet hd => ?_⟩
    have heq := WorkflowCommand.publishEvent.inj (List.mem_singleton.1 hd)
    exact Bool.false_ne_true (hquiet.1.symm.trans (decide_eq_true heq.symm))
  | timeout t =>
    cases hr
    refine withIdleCheck_queues (queues_of_calm ?_ 0)
    refine List.forall_mem_cons.2 ⟨calm_publish ?_, List.forall_mem_singleton.2 ⟨rfl, nofun⟩⟩
    exact show EventType.workflowTimedOutEvent ≠ .workflowIdleEvent by decide
  | waiterTimeout n id =>
    cases hr
    refine withIdleCheck_queues (queues_of_calm (calm_of_dispatch ?_) 0)
    unfold processWaiterTimeoutTick
    split
    · exact List.forall_mem_nil _
    · dsimp only
      split
      · exact List.forall_mem_nil _
      · split
        · exact List.forall_mem_nil _
        · exact FrameAux.addOrEnqueueEvent_commands now _ _ _ _
  | idleCheck =>
    cases hr
    unfold processIdleCheckTick
    split
    · case isTrue hidle =>
      split
      · exact queues_of_calm (calm_failure _ _ none none) 0
      · exact ⟨Nat.zero_le _, fun hquiet _ => Bool.false_ne_true ((hquiet.2 rfl).symm.trans hidle)⟩
    · exact queues_of_calm (List.forall_mem_nil _) 0
  | wakeup due =>
    cases hr
    refine withIdleCheck_queues (queues_of_calm (calm_of_dispatch ?_) 0)
    exact (PlainAux.forEachStep_invariant (fun _ => True) (fun d => d.isDispatch = true)
      (fun q _ _ _ => ⟨trivial, FrameAux.drainEligibleQueue_commands now q.2 q.1 _⟩) trivial).2

end IdlenessAux

namespace IdlenessAux

open CommandsAux

variable {cfg : BrokerConfig} {runId : Option String} {raises : PolicyErrors} {now : Time} {L L' : Loop}

/-! ## One idle check -/

theorem processCommand_once (h : L.ChecksIdleOnce) (d : WorkflowCommand) : (L.processCommand now d).ChecksIdleOnce := by
  cases d with
  | queueEvent c =>
    have hnone : [WorkflowTick.addEvent c.tick].count .idleCheck = 0 := List.count_eq_zero.2 (by simp)
    rw [Loop.processCommand, Loop.ChecksIdleOnce, List.count_append, hnone, Nat.add_zero]
    exact h
  | scheduleIdleCheck =>
    rw [Loop.processCommand]
    split
    · exact h
    · case isFalse hpending =>
      rw [Bool.not_eq_true] at hpending
      rw [Loop.ChecksIdleOnce, hpending] at h
      simp [Loop.ChecksIdleOnce, List.count_append, h]
  | _ => exact h

theorem processCommands_once (h : L.ChecksIdleOnce) (cs : List WorkflowCommand) : (L.processCommands now cs).ChecksIdleOnce := by
  induction cs generalizing L with
  | nil => exact h
  | cons d cs ih =>
    rw [Loop.processCommands]
    split
    · exact processCommand_once h d
    · exact ih (processCommand_once h d)

theorem processTick_once (h : L.ChecksIdleOnce) (tick : WorkflowTick) : (L.processTick cfg runId now tick).ChecksIdleOnce := by
  unfold Loop.processTick
  split
  · exact h
  · case h_2 σ cs _ =>
    have hreduced : Loop.ChecksIdleOnce { L with state := σ, journal := L.journal ++ [tick] } := h
    exact processCommands_once hreduced cs

/-- What is left of the buffer when its first tick is taken out to be reduced. -/
theorem once_of_taken (h : L.ChecksIdleOnce) {tick : WorkflowTick} {rest : List WorkflowTick} (hb : L.tickBuffer = tick :: rest)
    (hidle : tick = .idleCheck → rest = []) : Loop.ChecksIdleOnce
      { L with tickBuffer := rest, idleCheckPending := decide (tick ≠ .idleCheck) && L.idleCheckPending } := by
  rw [Loop.ChecksIdleOnce, hb] at h
  by_cases htick : tick = .idleCheck
  · simp [Loop.ChecksIdleOnce, htick, hidle htick]
  · rw [List.count_cons_of_ne htick] at h
    simpa [Loop.ChecksIdleOnce, htick] using h

/-- The idle check goes behind the other ticks. -/
theorem once_of_rotated (h : L.ChecksIdleOnce) {ts : List WorkflowTick} (hb : L.tickBuffer = .idleCheck :: ts) :
    Loop.ChecksIdleOnce { L with tickBuffer := ts ++ [.idleCheck] } := by
  have hperm : ([WorkflowTick.idleCheck] ++ ts).Perm (ts ++ [.idleCheck]) := List.perm_append_comm
  rw [Loop.ChecksIdleOnce, hb] at h
  exact (hperm.count_eq _).symm.trans h

/-- One action of a run. -/
theorem step_once (h : L.ChecksIdleOnce) (hmailbox : .idleCheck ∉ L.mailbox)
    (hwakeups : ∀ e ∈ L.scheduledWakeups, e.2.2 ≠ .idleCheck) {a : Action} (hstep : L.step cfg runId a = some L') :
    L'.ChecksIdleOnce := by
  have happend : ∀ ts : List WorkflowTick, .idleCheck ∉ ts → (L.tickBuffer ++ ts).count .idleCheck = L.tickBuffer.count .idleCheck := by
    intro ts hts
    rw [List.count_append, List.count_eq_zero.2 hts, Nat.add_zero]
  cases step_moves hstep with
  | rotates now hb => exact once_of_rotated h hb
  | processes now hb hidle => exact processTick_once (once_of_taken h hb hidle) _
  | takesDue now _ =>
    refine (happend _ ?_).trans h
    intro hmem
    obtain ⟨e, he, heq⟩ := List.mem_map.1 hmem
    exact hwakeups e ((List.takeWhile_sublist _).subset he) heq
  | @pulls t ts hb hm =>
    have ht : .idleCheck ∉ [t] := fun hmem => hmailbox (hm ▸ (List.mem_singleton.1 hmem) ▸ List.mem_cons_self)
    rw [Loop.ChecksIdleOnce, hb] at h
    exact (List.count_eq_zero.2 ht).trans h
  | finishes program failedAt hb hw => exact (happend _ (by simp)).trans h
  | sends message => exact h

/-- The invariant of a run: one idle check when one is pending, and none among the ticks that are not buffered yet. -/
structure IdleRun (L : Loop) : Prop where
  once : L.ChecksIdleOnce
  mailbox : .idleCheck ∉ L.mailbox
  wakeups : ∀ e ∈ L.scheduledWakeups, e.2.2 ≠ .idleCheck

theorem isTimer_ne_idleCheck {t : WorkflowTick} (h : t.isTimer) : t ≠ .idleCheck := by
  rintro rfl
  cases h

theorem processTick_mailbox (tick : WorkflowTick) : (L.processTick cfg runId now tick).mailbox = L.mailbox := by
  unfold Loop.processTick
  split
  · rfl
  · exact (processCommands_fields now _ _).2.2

theorem processTick_wakeups (h : ∀ e ∈ L.scheduledWakeups, e.2.2 ≠ .idleCheck) (tick : WorkflowTick) :
    ∀ e ∈ (L.processTick cfg runId now tick).scheduledWakeups, e.2.2 ≠ .idleCheck := by
  unfold Loop.processTick
  split
  · exact h
  · exact fun e he => (processCommands_wakeups now _ _ e he).elim (h e) isTimer_ne_idleCheck

theorem step_idleRun (h : IdleRun L) {a : Action} (hstep : L.step cfg runId a = some L') : IdleRun L' := by
  refine ⟨step_once h.once h.mailbox h.wakeups hstep, ?_, ?_⟩ <;> cases step_moves hstep
  case refine_1.rotates => exact h.mailbox
  case refine_1.processes =>
    rw [processTick_mailbox]
    exact h.mailbox
  case refine_1.takesDue => exact h.mailbox
  case refine_1.pulls hm => exact fun hmem => h.mailbox (hm ▸ List.mem_cons_of_mem _ hmem)
  case refine_1.finishes => exact h.mailbox
  case refine_1.sends message =>
    intro hmem
    rcases List.mem_append.1 hmem with hmem | hmem
    · exact h.mailbox hmem
    · cases message <;> cases List.mem_singleton.1 hmem
  case refine_2.rotates => exact h.wakeups
  case refine_2.processes =>
    refine processTick_wakeups ?_ _
    exact h.wakeups
  case refine_2.takesDue => exact fun e he => h.wakeups e ((List.dropWhile_sublist _).subset he)
  case refine_2.pulls => exact h.wakeups
  case refine_2.finishes => exact h.wakeups
  case refine_2.sends => exact h.wakeups

theorem stepTasks_idleRun (h : IdleRun L) {a : TaskAction} (hstep : L.stepTasks cfg runId raises a = some L') : IdleRun L' := by
  rcases SlotsAux.stepTasks_cases hstep with ⟨b, -, hb⟩ | hended
  · exact step_idleRun h hb
  · rw [hended.rest]
    refine ⟨?_, h.mailbox, h.wakeups⟩
    have hnone : L'.tickBuffer.count .idleCheck = 0 := by
      rcases hended.results with hbuffer | ⟨t, hbuffer⟩ <;> rw [hbuffer] <;> exact List.count_eq_zero.2 (by simp)
    have honce := h.once
    rw [Loop.ChecksIdleOnce, hended.waited] at honce
    exact hnone.trans honce

theorem start_idleRun (cfg : BrokerConfig) (σ : BrokerState) (start : Option Event) (now : Time) :
    IdleRun (Loop.start cfg σ start now) := by
  obtain ⟨L, hL, heq⟩ := start_eq cfg σ start now
  have honce : L.ChecksIdleOnce := by
    rw [Loop.ChecksIdleOnce, hL.idle]
    refine List.count_eq_zero.2 fun hmem => ?_
    rcases mem_start_tickBuffer hL hmem with ⟨n, y, -, heq⟩ | ⟨e, heq⟩ <;> cases heq
  rw [heq]
  refine ⟨processCommands_once honce _, ?_, fun e he => ?_⟩
  · rw [(processCommands_fields now L _).2.2, hL.mailbox]
    exact List.not_mem_nil
  · exact isTimer_ne_idleCheck ((processCommands_wakeups now L _ e he).elim (starts_isTimer hL e) id)

/-! ## The end of the loop -/

/-- What is still to be reduced for a tick: the tick itself and an event for each result that it brings. -/
def weight (t : WorkflowTick) : Nat := if t = .idleCheck then 0 else 1 + results t

/-- What is still to be reduced for some ticks. -/
def load (ts : List WorkflowTick) : Nat := (ts.map weight).sum

/-- A bound on the rounds that a buffer is drained in. -/
def rounds (ts : List WorkflowTick) : Nat := 2 * load ts + if ts.head? = some .idleCheck then 1 else 0

theorem load_append (ts us : List WorkflowTick) : load (ts ++ us) = load ts + load us := by
  rw [load, List.map_append, List.sum_append]
  rfl

theorem load_filter (ts : List WorkflowTick) : load (ts.filter fun t => t ≠ .idleCheck) = load ts := by
  induction ts with
  | nil => rfl
  | cons t ts ih =>
    by_cases ht : t = .idleCheck
    · rw [List.filter_cons_of_neg (by simpa using ht), ih]
      simp [load, weight, ht]
    · rw [List.filter_cons_of_pos (by simpa using ht), load, List.map_cons, List.sum_cons]
      exact congrArg (weight t + ·) ih

/-- Queued events weigh one each. -/
theorem load_newTicks (cs : List WorkflowCommand) : load (newTicks cs) = (newTicks cs).length := by
  have hone : ∀ t ∈ newTicks cs, weight t = 1 := by
    intro t ht
    obtain ⟨d, -, hd⟩ := List.mem_filterMap.1 ht
    cases d <;> cases hd
    rfl
  rw [load, List.map_congr_left hone]
  simp

theorem rounds_le (ts : List WorkflowTick) : rounds ts ≤ 2 * load ts + 1 := by
  unfold rounds
  split <;> omega

/-- Reducing the first tick of a buffer takes its weight away, and puts an event back for each result at most. -/
theorem processTick_load {tick : WorkflowTick} (hout : (L.processTick cfg runId now tick).outcome = none) :
    load (L.processTick cfg runId now tick).tickBuffer ≤ load L.tickBuffer + results tick := by
  unfold Loop.processTick at hout ⊢
  split at hout
  · cases hout
  · case h_2 σ cs hr =>
    obtain ⟨ts, hts, hfilter⟩ := processCommands_tickBuffer now { L with state := σ, journal := L.journal ++ [tick] } cs
    have hsub : (newTicks (cs.takeWhile fun d => !d.indicatesExit)).length ≤ (newTicks cs).length :=
      ((List.takeWhile_sublist _).filterMap _).length_le
    rw [hts, load_append, ← load_filter ts, hfilter, load_newTicks]
    exact Nat.add_le_add_left (hsub.trans (reduceTick_queues hr).queued) _

/-- An idle check leaves the buffer as it is. -/
theorem processTick_idleCheck (L : Loop) : (L.processTick cfg runId now .idleCheck).tickBuffer = L.tickBuffer := by
  unfold Loop.processTick
  rw [reduceTick]
  dsimp only
  unfold processIdleCheckTick
  split
  · split <;> rfl
  · rfl

theorem step_of_drain (hlive : L.outcome = none) (hdrain : L.drainTick cfg runId now = some L') :
    L.step cfg runId (.drain now) = some L' := by
  rw [Loop.step, hlive]
  exact hdrain

/-- Every round brings the end of the loop nearer. -/
theorem drain_rounds (h : L.ChecksIdleOnce) (hlive : L.outcome = none) (hdrain : L.drainTick cfg runId now = some L')
    (hout : L'.outcome = none) : rounds L'.tickBuffer < rounds L.tickBuffer := by
  cases step_moves (step_of_drain hlive hdrain) with
  | @rotates _ t ts hb =>
    have ht : t ≠ .idleCheck := by
      rintro rfl
      rw [Loop.ChecksIdleOnce, hb] at h
      split at h <;> simp at h
    rw [rounds, hb, rounds, load_append]
    simp [load, weight, ht]
  | @processes _ tick rest hb hidle =>
    by_cases htick : tick = .idleCheck
    · subst htick
      rw [processTick_idleCheck, hb, hidle rfl]
      exact show rounds [] < rounds [.idleCheck] by decide
    · have hload := processTick_load hout
      have hle := rounds_le (Loop.processTick cfg runId now tick
        { L with tickBuffer := rest, idleCheckPending := decide (tick ≠ .idleCheck) && L.idleCheckPending }).tickBuffer
      have hweight : load L.tickBuffer = 1 + results tick + load rest := by
        rw [hb, load, List.map_cons, List.sum_cons, weight, if_neg htick]
        rfl
      have hbefore : 2 * load L.tickBuffer ≤ rounds L.tickBuffer := Nat.le_add_right _ _
      dsimp only at hload
      omega

theorem drainTick_once (h : L.ChecksIdleOnce) (hlive : L.outcome = none) (hdrain : L.drainTick cfg runId now = some L') :
    L'.ChecksIdleOnce := by
  cases step_moves (step_of_drain hlive hdrain) with
  | rotates _ hb => exact once_of_rotated h hb
  | processes _ hb hidle => exact processTick_once (once_of_taken h hb hidle) _

/-- A buffer that needs no more rounds is empty. -/
theorem eq_nil_of_rounds {ts : List WorkflowTick} (h : rounds ts = 0) : ts = [] := by
  cases ts with
  | nil => rfl
  | cons t ts =>
    by_cases ht : t = .idleCheck
    · simp [rounds, ht] at h
    · simp [rounds, load, weight, ht] at h

theorem drainTick_eq_none (hdrain : L.drainTick cfg runId now = none) : L.tickBuffer = [] := by
  unfold Loop.drainTick at hdrain
  split at hdrain
  · assumption
  all_goals cases hdrain

/-- With enough rounds the loop ends: the run has exited, or nothing is buffered. -/
theorem drainLoop_ends (h : L.ChecksIdleOnce) {times : List Time} (htimes : rounds L.tickBuffer ≤ times.length) :
    (L.drainLoop cfg runId times).outcome.isSome ∨ (L.drainLoop cfg runId times).tickBuffer = [] := by
  induction times generalizing L with
  | nil => exact Or.inr (eq_nil_of_rounds (Nat.le_zero.1 htimes))
  | cons now times ih =>
    rw [Loop.drainLoop]
    split
    · case isTrue hsome => exact Or.inl hsome
    · case isFalse hlive =>
      rw [Option.not_isSome_iff_eq_none] at hlive
      split
      · case h_1 hdrain => exact Or.inr (drainTick_eq_none hdrain)
      · case h_2 L' hdrain =>
        cases hout : L'.outcome with
        | some o =>
          left
          cases times <;> simp [Loop.drainLoop, hout]
        | none =>
          have hlt := drain_rounds h hlive hdrain hout
          rw [List.length_cons] at htimes
          exact ih (drainTick_once h hlive hdrain) (by omega)

theorem drainLoop_once (h : L.ChecksIdleOnce) (times : List Time) : (L.drainLoop cfg runId times).ChecksIdleOnce := by
  induction times generalizing L with
  | nil => exact h
  | cons now times ih =>
    rw [Loop.drainLoop]
    split
    · exact h
    · case isFalse hlive =>
      split
      · exact h
      · case h_2 L' hdrain => exact ih (drainTick_once h (Option.not_isSome_iff_eq_none.1 hlive) hdrain)

/-! ## The idle event -/

/-- What commands publish is added to what was published. -/
theorem processCommands_published (L : Loop) (cs : List WorkflowCommand) :
    ∃ es, (L.processCommands now cs).published = L.published ++ es ∧ ∀ e ∈ es, .publishEvent e ∈ cs := by
  have hone : ∀ (L : Loop) (d : WorkflowCommand),
      ∃ es, (L.processCommand now d).published = L.published ++ es ∧ ∀ e ∈ es, d = .publishEvent e := by
    intro L d
    cases d with
    | publishEvent e => exact ⟨[e], rfl, fun e' he' => by rw [List.mem_singleton.1 he']⟩
    | scheduleIdleCheck =>
      refine ⟨[], ?_, List.forall_mem_nil _⟩
      rw [Loop.processCommand, List.append_nil]
      split <;> rfl
    | _ => exact ⟨[], (List.append_nil _).symm, List.forall_mem_nil _⟩
  induction cs generalizing L with
  | nil => exact ⟨[], (List.append_nil _).symm, List.forall_mem_nil _⟩
  | cons d cs ih =>
    obtain ⟨es, hes, hmem⟩ := hone L d
    rw [Loop.processCommands]
    split
    · exact ⟨es, hes, fun e he => List.mem_cons.2 (Or.inl (hmem e he).symm)⟩
    · obtain ⟨es', hes', hmem'⟩ := ih (L.processCommand now d)
      refine ⟨es ++ es', by rw [hes', hes, List.append_assoc], fun e he => ?_⟩
      rcases List.mem_append.1 he with he | he
      · exact List.mem_cons.2 (Or.inl (hmem e he).symm)
      · exact List.mem_cons_of_mem d (hmem' e he)

/-- A tick that is reduced adds to what was published. It publishes that the run is idle only as an idle check of a run that is
idle, unless it brings that event. -/
theorem processTick_published (L : Loop) (tick : WorkflowTick) :
    ∃ es, (L.processTick cfg runId now tick).published = L.published ++ es ∧
      (.workflowIdle ∈ es → tick.brings .workflowIdle = false → tick = .idleCheck ∧ checkIdleState cfg L.state = true) := by
  unfold Loop.processTick
  split
  · exact ⟨[], (List.append_nil _).symm, nofun⟩
  · case h_2 σ cs hr =>
    obtain ⟨es, hes, hmem⟩ := @processCommands_published now { L with state := σ, journal := L.journal ++ [tick] } cs
    refine ⟨es, hes, fun hidle hbrings => ?_⟩
    by_contra hnot
    rw [not_and, Bool.not_eq_true] at hnot
    exact (reduceTick_queues hr).calm ⟨hbrings, hnot⟩ (hmem _ hidle)

theorem isIdle_of_check (h : checkIdleState cfg L.state = true) : L.IsIdle cfg := by
  rw [checkIdleState, Bool.and_eq_true, List.all_eq_true] at h
  refine ⟨h.1, fun n hn => ?_⟩
  have hn' := h.2 n hn
  rw [Bool.and_eq_true, List.isEmpty_iff, List.isEmpty_iff] at hn'
  exact hn'

/-- A round publishes that the run is idle only when nothing else is buffered and the run is idle, unless the tick that it
reduces brings that event. -/
theorem drain_published (hlive : L.outcome = none) (hdrain : L.drainTick cfg runId now = some L') :
    ∃ es, L'.published = L.published ++ es ∧ (.workflowIdle ∈ es → L.drained?.any (fun t => t.brings .workflowIdle) = false →
      L.tickBuffer = [.idleCheck] ∧ L'.tickBuffer = [] ∧ L.IsIdle cfg) := by
  cases step_moves (step_of_drain hlive hdrain) with
  | rotates _ hb => exact ⟨[], (List.append_nil _).symm, nofun⟩
  | @processes _ tick rest hb hidle =>
    obtain ⟨es, hes, hmem⟩ := @processTick_published cfg runId now
      { L with tickBuffer := rest, idleCheckPending := decide (tick ≠ .idleCheck) && L.idleCheckPending } tick
    refine ⟨es, hes, fun hpublished hbrings => ?_⟩
    rw [drained_of_processes hb hidle, Option.any_some] at hbrings
    obtain ⟨rfl, hcheck⟩ := hmem hpublished hbrings
    refine ⟨by rw [hb, hidle rfl], ?_, isIdle_of_check hcheck⟩
    rw [processTick_idleCheck]
    exact hidle rfl

end IdlenessAux

open IdlenessAux

/-- The drain loop ends, and idle checks are unique. From every state of the broker and every buffer, with an idle check in it
exactly when one is pending, the loop ends after a number of rounds that depends on the buffer only, or the run exits, and the
buffer stays like this in every round, as it is in every state of a run. A round publishes that the run is idle only when the
idle check was all that was buffered, nothing is queued or in progress and the run is running, unless a step or a sender had
that event published. -/
theorem drain_loop_ends (cfg : BrokerConfig) (runId : Option String) :
    (∀ L : Loop, L.ChecksIdleOnce →
      (∃ N, ∀ times : List Time, N ≤ times.length →
        (L.drainLoop cfg runId times).outcome.isSome ∨ (L.drainLoop cfg runId times).tickBuffer = []) ∧
      ∀ times : List Time, (L.drainLoop cfg runId times).ChecksIdleOnce) ∧
    (∀ (raises : PolicyErrors) (σ : BrokerState) (start : Option Event) (now : Time) (L : Loop),
      Lib.Run (Loop.stepTasks cfg runId raises) (fun _ _ => True) (Loop.start cfg σ start now) L → L.ChecksIdleOnce) ∧
    ∀ (L L' : Loop) (now : Time), L.outcome = none → L.drainTick cfg runId now = some L' →
      ∃ es, L'.published = L.published ++ es ∧ (.workflowIdle ∈ es → L.drained?.any (fun t => t.brings .workflowIdle) = false →
        L.tickBuffer = [.idleCheck] ∧ L'.tickBuffer = [] ∧ L.IsIdle cfg) := by
  refine ⟨fun L h => ⟨⟨_, fun times htimes => drainLoop_ends h htimes⟩, drainLoop_once h⟩, ?_, ?_⟩
  · intro raises σ start now L hrun
    exact (hrun.invariant IdleRun (start_idleRun cfg σ start now) fun _ _ _ hL _ hs => stepTasks_idleRun hL hs).once
  · intro L L' now hlive hdrain
    exact drain_published hlive hdrain

namespace DrainRuns

/-- A workflow of one step. -/
def workflow : Workflow where
  name := "Drain"
  steps := ⟨[("work", plainStep [.startEvent] [.stopEvent] defaultNumWorkers none)], by simp⟩

/-- An idle check is buffered before an event that no step accepts. -/
def rotating : Loop where
  state := { isRunning := true }
  tickBuffer := [.idleCheck, .addEvent { event := .workflowCancelled }]
  idleCheckPending := true

end DrainRuns

open DrainRuns in
/-- The idle check waits for the event, and then publishes that the run is idle. -/
theorem drain_loop_ends_rotating : rotating.ChecksIdleOnce ∧ (rotating.drainLoop workflow.config none [0, 0]).ChecksIdleOnce ∧
    (rotating.drainLoop workflow.config none [0, 0, 0]).tickBuffer = [] ∧
    (rotating.drainLoop workflow.config none [0, 0, 0]).published.getLast? = some .workflowIdle ∧
    ∃ N, ∀ times : List Time, N ≤ times.length → (rotating.drainLoop workflow.config none times).outcome.isSome ∨
      (rotating.drainLoop workflow.config none times).tickBuffer = [] := by
  have honce : rotating.ChecksIdleOnce := by decide
  obtain ⟨hends, hkept⟩ := (drain_loop_ends workflow.config none).1 rotating honce
  exact ⟨honce, hkept [0, 0], by decide +kernel, by decide +kernel, hends⟩

end LlamaAgents
