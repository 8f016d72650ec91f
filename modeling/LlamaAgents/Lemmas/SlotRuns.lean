import LlamaAgents.Lemmas.Slots

/-!
# Slots and tasks along a run

Each action of the loop keeps the slots of a step with the tasks that run for them and the results that wait in the buffer.
`SlotsHeld` counts them against each other, with the slots that have lost their task: those of the workers that a stop event
cancels, until the run ends.
-/

namespace LlamaAgents

open Lib (Dict)

/-- The slots of the steps that meet `S` are distinct, and each has a task, a buffered result, or is lost. -/
def Loop.SlotsHeld (S : StepId → Prop) (lost : StepId → Nat → Nat) (L : Loop) : Prop :=
  ∀ n, S n → (∀ k, (L.state.workers n).slots.count k = (L.tasksAt n).count k + (L.resultsAt n).count k + lost n k) ∧
    (L.state.workers n).slots.Nodup

namespace SlotsAux

variable {cfg : BrokerConfig} {runId : Option String} {S : StepId → Prop} {lost : StepId → Nat → Nat} {L L' : Loop}

/-! ## Commands -/

theorem processCommand_tasksAt (now : Time) (L : Loop) {d : WorkflowCommand} (h : d.indicatesExit = false) (n : StepId) :
    (L.processCommand now d).tasksAt n = L.tasksAt n ++ startedAt n [d] := by
  cases d with
  | runWorker c =>
    by_cases hn : c.stepId = n <;>
      simp [Loop.processCommand, Loop.tasksAt, startedAt, WorkflowCommand.startedAt?, hn]
  | scheduleIdleCheck =>
    unfold Loop.processCommand
    dsimp only
    split <;> exact (List.append_nil _).symm
  | halt => cases h
  | completeRun => cases h
  | failWorkflow => cases h
  | _ => exact (List.append_nil _).symm

/-- The commands of a tick add a task for each worker that they start. -/
theorem processCommands_tasksAt (now : Time) (L : Loop) {cs : List WorkflowCommand} (h : ∀ d ∈ cs, d.indicatesExit = false)
    (n : StepId) : (L.processCommands now cs).tasksAt n = L.tasksAt n ++ startedAt n cs := by
  induction cs generalizing L with
  | nil => exact (List.append_nil _).symm
  | cons d cs ih =>
    have hd := h d List.mem_cons_self
    rw [Loop.processCommands, if_neg (by simp [hd]), ih _ fun d' hd' => h d' (List.mem_cons_of_mem d hd'),
      processCommand_tasksAt now L hd, List.append_assoc, ← startedAt_append, List.singleton_append]

/-- The commands of a tick buffer no result. -/
theorem processCommands_resultsAt (now : Time) (L : Loop) (cs : List WorkflowCommand) (n : StepId) :
    (L.processCommands now cs).resultsAt n = L.resultsAt n := by
  obtain ⟨ts, hts, hfilter⟩ := CommandsAux.processCommands_tickBuffer now L cs
  have hnil : ts.filterMap (WorkflowTick.slotAt? n) = [] := by
    rw [List.filterMap_eq_nil_iff]
    intro t ht
    by_cases hidle : t = .idleCheck
    · rw [hidle]
      rfl
    · have hmem : t ∈ newTicks (cs.takeWhile fun d => !d.indicatesExit) := by
        rw [← hfilter]
        exact List.mem_filter.2 ⟨ht, by simpa using hidle⟩
      obtain ⟨d, -, hd⟩ := List.mem_filterMap.1 hmem
      cases d <;> cases hd
      rfl
  rw [Loop.resultsAt, hts, List.filterMap_append, hnil, List.append_nil]
  rfl

/-! ## Actions -/

/-- Reducing the first buffered tick. -/
theorem processTick_held {now : Time} {tick : WorkflowTick} {rest : List WorkflowTick} {L M : Loop}
    (h : L.SlotsHeld S lost) (hadds : tick.addsOnce) (hb : L.tickBuffer = tick :: rest) (hstate : M.state = L.state)
    (hworkers : M.workers = L.workers) (hrest : M.tickBuffer = rest)
    (hout : (M.processTick cfg runId now tick).outcome = none) : (M.processTick cfg runId now tick).SlotsHeld S lost := by
  unfold Loop.processTick at hout ⊢
  split at hout
  · cases hout
  · case h_2 σ cs hr =>
    have hgo := CommandsAux.no_exit_of_outcome_eq_none now hout
    rw [hstate] at hr
    intro n hn
    obtain ⟨hcount, hnodup⟩ := h n hn
    obtain ⟨hmoved, hkeep⟩ := reduceTick_moved hadds hr hgo n
    rw [(CommandsAux.processCommands_fields now _ cs).1]
    refine ⟨fun k => ?_, hkeep hnodup⟩
    have htasks : ∀ M' : Loop, M'.workers = L.workers → M'.tasksAt n = L.tasksAt n := fun M' hw => by
      rw [Loop.tasksAt, hw, Loop.tasksAt]
    have hresults : ∀ M' : Loop, M'.tickBuffer = rest → L.resultsAt n = (tick.slotAt? n).toList ++ M'.resultsAt n := by
      intro M' hM'
      rw [Loop.resultsAt, Loop.resultsAt, hb, hM', List.filterMap_cons]
      cases tick.slotAt? n <;> rfl
    rw [processCommands_tasksAt now _ hgo, processCommands_resultsAt, List.count_append,
      htasks { M with state := σ, journal := M.journal ++ [tick] } hworkers]
    have h₁ := hcount k
    have h₂ := hmoved k
    rw [hresults { M with state := σ, journal := M.journal ++ [tick] } hrest, List.count_append] at h₁
    dsimp only at h₂ ⊢
    omega

/-- A loop whose slots, tasks and buffered results are the old ones. -/
theorem held_of_eq (h : L.SlotsHeld S lost) (hstate : L'.state = L.state) (hworkers : L'.workers = L.workers)
    (hbuffer : ∀ n, L'.resultsAt n = L.resultsAt n) : L'.SlotsHeld S lost := by
  intro n hn
  rw [hstate, hbuffer n, Loop.tasksAt, hworkers]
  exact h n hn

/-- Ticks that bring no result. -/
theorem resultsAt_append {ts : List WorkflowTick} (hb : L'.tickBuffer = L.tickBuffer ++ ts)
    (hts : ∀ t ∈ ts, ∀ n, t.slotAt? n = none) (n : StepId) : L'.resultsAt n = L.resultsAt n := by
  rw [Loop.resultsAt, hb, List.filterMap_append, List.filterMap_eq_nil_iff.2 fun t ht => hts t ht n, List.append_nil]
  rfl

/-- The ticks in the mailbox and among the wakeups bring no results. -/
structure Loop.BringsNone (L : Loop) : Prop where
  mailbox : ∀ t ∈ L.mailbox, ∀ n, t.slotAt? n = none
  wakeups : ∀ e ∈ L.scheduledWakeups, ∀ n, e.2.2.slotAt? n = none

/-- Any action but the end of a task keeps the slots with their tasks and results, while the run goes on. -/
theorem step_held {a : Action} (h : L.SlotsHeld S lost) (hnone : Loop.BringsNone L)
    (hadds : ∀ now, a = .drain now → L.tickBuffer.head?.all WorkflowTick.addsOnce) (hfinish : a.isFinish = false)
    (hstep : L.step cfg runId a = some L') (hout : L'.outcome = none) : L'.SlotsHeld S lost := by
  cases CommandsAux.step_moves hstep with
  | rotates now hb =>
    refine held_of_eq h rfl rfl fun n => ?_
    rw [Loop.resultsAt, Loop.resultsAt, hb, List.filterMap_append, List.filterMap_cons]
    exact List.append_nil _
  | processes now hb _ =>
    have hadds := hadds now rfl
    rw [hb] at hadds
    exact processTick_held h hadds hb rfl rfl rfl hout
  | takesDue now _ =>
    refine held_of_eq h rfl rfl (resultsAt_append rfl fun t ht => ?_)
    obtain ⟨e, he, rfl⟩ := List.mem_map.1 ht
    exact hnone.wakeups e (List.takeWhile_subset _ he)
  | @pulls t ts hb hmail =>
    have hbuffer : ({ L with tickBuffer := [t], mailbox := ts } : Loop).tickBuffer = L.tickBuffer ++ [t] := by rw [hb]; rfl
    refine held_of_eq h rfl rfl (resultsAt_append hbuffer fun t' ht' => ?_)
    rw [List.mem_singleton.1 ht']
    exact hnone.mailbox t (hmail ▸ List.mem_cons_self)
  | finishes => cases hfinish
  | sends message => exact held_of_eq h rfl rfl fun _ => rfl

/-- The ids of the slots of a step that some workers work for. -/
def slotsOf (ws : List CommandRunWorker) (n : StepId) : List Nat := (ws.filter fun w => w.stepId = n).map CommandRunWorker.id

theorem tasksAt_count {L : Loop} {i : Nat} {w : CommandRunWorker} (hi : L.workers[i]? = some w) (n : StepId) (k : Nat) :
    (L.tasksAt n).count k = (slotsOf [w] n).count k + (slotsOf (L.workers.eraseIdx i) n).count k := by
  obtain ⟨hlt, hget⟩ := List.getElem?_eq_some_iff.1 hi
  have hperm : (w :: L.workers.eraseIdx i).Perm L.workers := hget ▸ List.getElem_cons_eraseIdx_perm hlt
  rw [Loop.tasksAt, ← ((hperm.filter _).map _).count_eq, ← List.count_append, slotsOf, slotsOf, ← List.map_append,
    ← List.filter_append, List.singleton_append]

/-- The end of a task that brings a tick: its slot has a buffered result instead, and the slots of the tasks that are cancelled
with it are lost. -/
theorem taskEnd_held (h : L.SlotsHeld S lost) {i : Nat} {w : CommandRunWorker} (hi : L.workers[i]? = some w)
    {tick : TickStepResult} (hstepId : tick.stepId = w.stepId) (hworker : tick.workerId = w.id) {lost' : StepId → Nat → Nat}
    (hlost : ∀ n k, (L'.tasksAt n).count k + lost' n k = (slotsOf (L.workers.eraseIdx i) n).count k + lost n k)
    (hstate : L'.state = L.state) (hb : L'.tickBuffer = L.tickBuffer ++ [.stepResult tick]) : L'.SlotsHeld S lost' := by
  intro n hn
  obtain ⟨hcount, hnodup⟩ := h n hn
  rw [hstate]
  refine ⟨fun k => ?_, hnodup⟩
  have htasks := tasksAt_count hi n k
  have hresults : L'.resultsAt n = L.resultsAt n ++ slotsOf [w] n := by
    rw [Loop.resultsAt, hb, List.filterMap_append, slotsOf]
    congr 1
    by_cases hw : w.stepId = n <;> simp [WorkflowTick.slotAt?, hstepId, hworker, hw]
  have h₁ := hcount k
  have h₂ := hlost n k
  rw [hresults, List.count_append]
  omega

/-- The end of a task that brings no tick: its slot is lost. -/
theorem taskLost_held {L : Loop} (h : L.SlotsHeld S lost) {i : Nat} {w : CommandRunWorker} (hi : L.workers[i]? = some w) :
    Loop.SlotsHeld S (fun n k => (slotsOf [w] n).count k + lost n k) { L with workers := L.workers.eraseIdx i } := by
  intro n hn
  obtain ⟨hcount, hnodup⟩ := h n hn
  refine ⟨fun k => ?_, hnodup⟩
  have htasks := tasksAt_count hi n k
  have h₁ := hcount k
  dsimp only
  change _ = (slotsOf (L.workers.eraseIdx i) n).count k + (L.resultsAt n).count k + _
  omega

/-! ## Ticks that bring no result -/

theorem slotAt?_of_isTimer {t : WorkflowTick} (h : t.isTimer) (n : StepId) : t.slotAt? n = none := by
  cases t <;> first | rfl | cases h

theorem processTick_bringsNone {now : Time} {L : Loop} (h : Loop.BringsNone L) (tick : WorkflowTick) :
    Loop.BringsNone (L.processTick cfg runId now tick) := by
  unfold Loop.processTick
  split
  · exact ⟨h.mailbox, h.wakeups⟩
  · case h_2 σ cs _ =>
    refine ⟨?_, ?_⟩
    · rw [(CommandsAux.processCommands_fields now _ cs).2.2]
      exact h.mailbox
    · intro e he n
      rcases CommandsAux.processCommands_wakeups now _ cs e he with he | he
      · exact h.wakeups e he n
      · exact slotAt?_of_isTimer he n

theorem step_bringsNone {a : Action} (h : Loop.BringsNone L) (hstep : L.step cfg runId a = some L') :
    Loop.BringsNone L' := by
  cases CommandsAux.step_moves hstep with
  | rotates => exact ⟨h.mailbox, h.wakeups⟩
  | processes =>
    refine processTick_bringsNone ?_ _
    exact ⟨h.mailbox, h.wakeups⟩
  | takesDue => exact ⟨h.mailbox, fun e he => h.wakeups e (List.dropWhile_subset _ he)⟩
  | pulls _ hmail => exact ⟨fun t' ht' => h.mailbox t' (hmail ▸ List.mem_cons_of_mem _ ht'), h.wakeups⟩
  | finishes => exact ⟨h.mailbox, h.wakeups⟩
  | sends message =>
    refine ⟨fun t ht => ?_, h.wakeups⟩
    rcases List.mem_append.1 ht with ht | ht
    · exact h.mailbox t ht
    · rw [List.mem_singleton.1 ht]
      intro n
      cases message <;> rfl

/-! ## The start of a run -/

/-- Commands that start workers only at the step whose turn it is. -/
theorem forEachStep_startedAt
    {f : StepConfig → StepId → InternalStepWorkerState → InternalStepWorkerState × List WorkflowCommand}
    {l : List (StepId × StepConfig)} (hl : (l.map Prod.fst).Nodup)
    (hf : ∀ q ∈ l, ∀ m, m ≠ q.1 → ∀ w, startedAt m (f q.2 q.1 w).2 = []) (σ : BrokerState) :
    (∀ q ∈ l, startedAt q.1 (forEachStep f l σ).2 = startedAt q.1 (f q.2 q.1 (σ.workers q.1)).2) ∧
      ∀ n, n ∉ l.map Prod.fst → startedAt n (forEachStep f l σ).2 = [] := by
  induction l generalizing σ with
  | nil => exact ⟨by simp, fun _ _ => rfl⟩
  | cons q l ih =>
    rw [List.map_cons, List.nodup_cons] at hl
    obtain ⟨h₁, h₂⟩ := ih hl.2 (fun q' hq' => hf q' (List.mem_cons_of_mem q hq')) (σ.setWorker q.1 (f q.2 q.1 (σ.workers q.1)).1)
    rw [forEachStep]
    dsimp only
    refine ⟨?_, ?_⟩
    · intro q' hq'
      rw [startedAt_append]
      rcases List.mem_cons.1 hq' with rfl | hq'
      · rw [h₂ q'.1 hl.1, List.append_nil]
      · have hne : q'.1 ≠ q.1 := fun heq => hl.1 (List.mem_map.2 ⟨q', hq', heq⟩)
        rw [hf q List.mem_cons_self q'.1 hne, h₁ q' hq', BrokerState.setWorker_workers, Function.update_of_ne hne]
        rfl
    · intro n hn
      rw [List.map_cons, List.mem_cons, not_or] at hn
      rw [startedAt_append, hf q List.mem_cons_self n hn.1, h₂ n hn.2]
      rfl

/-- Rewinding a step gives every slot to a worker that it starts. -/
theorem rewindStep_slots (now : Time) (c : StepConfig) (n : StepId) (w : InternalStepWorkerState) :
    (rewindStep now c n w).1.slots = startedAt n (rewindStep now c n w).2 ∧ (rewindStep now c n w).1.slots.Nodup ∧
      ∀ m, m ≠ n → startedAt m (rewindStep now c n w).2 = [] := by
  have hwakeups : ∀ (m : StepId) (q : List EventAttempt),
      startedAt m (q.filterMap fun a => a.notBefore.map WorkflowCommand.scheduleWakeup) = [] := by
    intro m q
    refine startedAt_eq_nil fun d hd => ?_
    obtain ⟨a, -, ha⟩ := List.mem_filterMap.1 hd
    obtain ⟨t, -, rfl⟩ := Option.map_eq_some_iff.1 ha
    rfl
  have hdrain := (DispatchAux.drainEligibleQueue_dispatch (n := n) (P := fun _ => True) now c
    (w := { w with queue := (w.inProgress.map InProgressState.rewound).reverse ++ w.queue, inProgress := [] })
    fun _ _ => trivial).slots
  obtain ⟨⟨h₁, h₂⟩, h₃⟩ := hdrain
  unfold rewindStep
  dsimp only
  refine ⟨?_, h₂ List.nodup_nil, fun m hm => ?_⟩
  · rw [startedAt_append, hwakeups, List.append_nil, h₁]
    rfl
  · rw [startedAt_append, hwakeups, h₃ m hm]
    rfl

/-- Rewinding gives every slot of the configured steps to a worker that it starts. -/
theorem rewindInProgress_slots (cfg : BrokerConfig) (now : Time) (σ : BrokerState) {n : StepId}
    (hn : n ∈ cfg.steps.keys ∨ (σ.workers n).inProgress = []) :
    ((rewindInProgress cfg now σ).1.workers n).slots = startedAt n (rewindInProgress cfg now σ).2 ∧
      ((rewindInProgress cfg now σ).1.workers n).slots.Nodup := by
  obtain ⟨hworkers, hothers⟩ :=
    PlainAux.forEachStep_workers (f := rewindStep now) (PlainAux.nodup_sortedSteps cfg) σ
  obtain ⟨hstarted, hnone⟩ := forEachStep_startedAt (f := rewindStep now) (PlainAux.nodup_sortedSteps cfg)
    (fun q _ m hm w => (rewindStep_slots now q.2 q.1 w).2.2 m hm) σ
  by_cases hmem : n ∈ cfg.sortedSteps.map Prod.fst
  · obtain ⟨q, hq, rfl⟩ := List.mem_map.1 hmem
    rw [rewindInProgress, hworkers q hq, hstarted q hq]
    exact ⟨(rewindStep_slots now q.2 q.1 _).1, (rewindStep_slots now q.2 q.1 _).2.1⟩
  · have hempty : (σ.workers n).inProgress = [] := by
      refine hn.resolve_left fun hkey => hmem ?_
      obtain ⟨q, hq, rfl⟩ := List.mem_map.1 hkey
      exact List.mem_map_of_mem ((List.mem_insertionSort _).2 hq)
    rw [rewindInProgress, hothers n hmem, hnone n hmem, InternalStepWorkerState.slots, hempty]
    exact ⟨rfl, List.nodup_nil⟩

theorem rewindInProgress_no_exit (cfg : BrokerConfig) (now : Time) (σ : BrokerState) :
    ∀ d ∈ (rewindInProgress cfg now σ).2, d.indicatesExit = false := by
  refine (PlainAux.forEachStep_invariant (fun _ => True) (fun d => d.indicatesExit = false) ?_ trivial).2
  intro q _ τ _
  refine ⟨trivial, fun d hd => ?_⟩
  rcases List.mem_append.1 hd with hd | hd
  · simpa using WorkflowCommand.not_exit_of_isDispatch (FrameAux.drainEligibleQueue_commands now q.2 q.1 _ d hd)
  · obtain ⟨a, -, ha⟩ := List.mem_filterMap.1 hd
    obtain ⟨t, -, rfl⟩ := Option.map_eq_some_iff.1 ha
    rfl

/-- A run starts with a task for every slot. -/
theorem start_held (cfg : BrokerConfig) {σ : BrokerState} (hS : ∀ n, S n → n ∈ cfg.steps.keys ∨ (σ.workers n).inProgress = [])
    (e : Option Event) (now : Time) :
    (Loop.start cfg σ e now).SlotsHeld S (fun _ _ => 0) ∧ Loop.BringsNone (Loop.start cfg σ e now) := by
  have hgo := rewindInProgress_no_exit cfg now σ
  obtain ⟨L, hL, heq⟩ := CommandsAux.start_eq cfg σ e now
  have hnone : ∀ n, L.resultsAt n = [] := by
    intro n
    rw [Loop.resultsAt, List.filterMap_eq_nil_iff]
    intro t ht
    rcases CommandsAux.mem_start_tickBuffer hL ht with ⟨m, y, -, rfl⟩ | ⟨e, rfl⟩ <;> rfl
  rw [heq]
  refine ⟨fun n hn => ?_, ?_, ?_⟩
  · obtain ⟨hslots, hnodup⟩ := rewindInProgress_slots cfg now σ (hS n hn)
    rw [(CommandsAux.processCommands_fields now L _).1, hL.state]
    refine ⟨fun k => ?_, hnodup⟩
    rw [processCommands_tasksAt now L hgo, processCommands_resultsAt, hnone, Loop.tasksAt, hL.workers, hslots]
    simp
  · rw [(CommandsAux.processCommands_fields now L _).2.2, hL.mailbox]
    exact fun t ht => nomatch ht
  · intro w hw n
    refine slotAt?_of_isTimer ?_ n
    exact (CommandsAux.processCommands_wakeups now L _ w hw).elim (CommandsAux.starts_isTimer hL w) fun h => h

/-! ## Actions and ends of tasks -/

/-- What the end of a task leaves of the loop: all but the tasks, and a result in the buffer that was empty, if there is one. -/
structure TaskEnded (L L' : Loop) : Prop where
  outcome : L.outcome = none
  waited : L.tickBuffer = []
  rest : L' = { L with workers := L'.workers, tickBuffer := L'.tickBuffer }
  results : L'.tickBuffer = [] ∨ ∃ t, L'.tickBuffer = [.stepResult t]

/-- An action of a run is one of the loop's, or the end of a task. -/
theorem stepTasks_cases {raises : PolicyErrors} {a : TaskAction}
    (hstep : L.stepTasks cfg runId raises a = some L') :
    (∃ b, a = .loop b ∧ L.step cfg runId b = some L') ∨ TaskEnded L L' := by
  cases a with
  | loop b =>
    rw [Loop.stepTasks] at hstep
    split at hstep
    · cases hstep
    · exact Or.inl ⟨b, rfl, hstep⟩
  | taskEnd i body t t' =>
    rw [Loop.stepTasks] at hstep
    split at hstep
    · case isTrue hlive =>
      rw [Bool.and_eq_true, Option.isNone_iff_eq_none, List.isEmpty_iff] at hlive
      obtain ⟨w, -, rfl⟩ := Option.map_eq_some_iff.1 hstep
      refine Or.inr ⟨hlive.1, hlive.2, ?_, ?_⟩
      · split <;> rfl
      · split
        · exact Or.inl hlive.2
        · exact Or.inr ⟨_, by rw [hlive.2]; rfl⟩
    · cases hstep

/-- A property of all results and of the ticks that are produced holds of every tick that waits in the loop. -/
theorem stepTasks_ticksAre {Q : WorkflowTick → Prop} (hQ : ProducedTicks Q) (hresult : ∀ t, Q (.stepResult t))
    {raises : PolicyErrors} (h : L.TicksAre Q) {a : TaskAction}
    (hstep : L.stepTasks cfg runId raises a = some L') : L'.TicksAre Q := by
  rcases stepTasks_cases hstep with ⟨b, -, hb⟩ | hended
  · exact CommandsAux.step_ticksAre hQ h (fun _ _ _ _ _ => hresult _) hb
  · rw [hended.rest]
    refine ⟨?_, h.mailbox, h.wakeups⟩
    intro t ht
    rcases hended.results with hbuffer | ⟨t', hbuffer⟩
    · rw [hbuffer] at ht
      cases ht
    · rw [hbuffer, List.mem_singleton] at ht
      rw [ht]
      exact hresult t'

end SlotsAux

end LlamaAgents
