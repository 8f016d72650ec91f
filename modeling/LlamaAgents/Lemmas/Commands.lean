import Mathlib.Data.List.TakeWhile
import LlamaAgents.Lemmas.Routing

/-!
# What the loop makes of commands

Carrying out the commands of a tick leaves the broker's state, the journal and the mailbox; it queues ticks, schedules timers
and may end the run.
-/

namespace LlamaAgents

/-- How a command ends the run. -/
def WorkflowCommand.outcome : WorkflowCommand → Option Outcome
  | .halt e | .failWorkflow _ e => some (.raised e)
  | .completeRun r => some (.completed r)
  | _ => none

/-- A tick that the loop schedules for later. -/
def WorkflowTick.isTimer : WorkflowTick → Bool
  | .timeout _ | .waiterTimeout _ _ | .wakeup _ => true
  | _ => false

/-- A tick that ends the run: a cancellation, the timeout of the workflow, or a release. -/
def WorkflowTick.isFinal : WorkflowTick → Bool
  | .cancelRun | .timeout _ | .idleRelease => true
  | _ => false

/-- The tick that a command schedules for later. -/
def WorkflowCommand.scheduled? : WorkflowCommand → Option WorkflowTick
  | .scheduleWaiterTimeout step id _ => some (.waiterTimeout step id)
  | .scheduleWakeup atTime => some (.wakeup atTime)
  | _ => none

/-- What some commands do to the scheduled ticks: they stay, and each new one has a new number and was scheduled by one of the
commands. -/
structure Loop.Reschedules (L : Loop) (cs : List WorkflowCommand) (L' : Loop) : Prop where
  sequence : L.wakeupSequence ≤ L'.wakeupSequence
  kept : L.scheduledWakeups ⊆ L'.scheduledWakeups
  added : ∀ e ∈ L'.scheduledWakeups, e ∈ L.scheduledWakeups ∨
    (L.wakeupSequence ≤ e.2.1 ∧ e.2.1 < L'.wakeupSequence ∧ ∃ d ∈ cs, d.scheduled? = some e.2.2)

namespace CommandsAux

variable (now : Time) {cs : List WorkflowCommand}

@[simp] theorem newTicks_nil : newTicks [] = [] := rfl

@[simp] theorem newTicks_append (cs ds : List WorkflowCommand) : newTicks (cs ++ ds) = newTicks cs ++ newTicks ds :=
  List.filterMap_append

/-- Only commands that queue an event bring new ticks. -/
theorem newTicks_of_no_queue (h : ∀ d ∈ cs, d.isQueueEvent = false) : newTicks cs = [] := by
  rw [newTicks, List.filterMap_eq_nil_iff]
  intro d hd
  have := h d hd
  cases d <;> simp_all [WorkflowCommand.isQueueEvent]

theorem mem_insertWakeup (e f : Time × Nat × WorkflowTick) (l : List (Time × Nat × WorkflowTick)) :
    f ∈ insertWakeup e l ↔ f = e ∨ f ∈ l := by
  induction l with
  | nil => simp [insertWakeup]
  | cons g l ih =>
    unfold insertWakeup
    split
    · simp
    · simp only [List.mem_cons, ih]
      tauto

/-- The buffer after one command. -/
theorem processCommand_tickBuffer (L : Loop) (d : WorkflowCommand) :
    ∃ ts, (L.processCommand now d).tickBuffer = L.tickBuffer ++ ts ∧ ts.filter (· ≠ .idleCheck) = newTicks [d] := by
  cases d with
  | queueEvent c => exact ⟨[.addEvent c.tick], rfl, rfl⟩
  | scheduleIdleCheck =>
    unfold Loop.processCommand
    dsimp only
    split
    · exact ⟨[], by simp, rfl⟩
    · exact ⟨[.idleCheck], rfl, rfl⟩
  | _ => exact ⟨[], (List.append_nil _).symm, rfl⟩

theorem processCommand_outcome (L : Loop) (d : WorkflowCommand) :
    (L.processCommand now d).outcome = if d.indicatesExit then d.outcome else L.outcome := by
  cases d with
  | scheduleIdleCheck =>
    unfold Loop.processCommand
    dsimp only
    split <;> rfl
  | _ => rfl

/-- What no command touches. -/
theorem processCommand_fields (L : Loop) (d : WorkflowCommand) :
    (L.processCommand now d).state = L.state ∧ (L.processCommand now d).journal = L.journal ∧
      (L.processCommand now d).mailbox = L.mailbox := by
  cases d with
  | scheduleIdleCheck =>
    unfold Loop.processCommand
    dsimp only
    split <;> exact ⟨rfl, rfl, rfl⟩
  | _ => exact ⟨rfl, rfl, rfl⟩

theorem processCommands_fields (L : Loop) (cs : List WorkflowCommand) :
    (L.processCommands now cs).state = L.state ∧ (L.processCommands now cs).journal = L.journal ∧
      (L.processCommands now cs).mailbox = L.mailbox := by
  induction cs generalizing L with
  | nil => exact ⟨rfl, rfl, rfl⟩
  | cons d cs ih =>
    obtain ⟨h₁, h₂, h₃⟩ := processCommand_fields now L d
    rw [Loop.processCommands]
    split
    · exact ⟨h₁, h₂, h₃⟩
    · obtain ⟨g₁, g₂, g₃⟩ := ih (L.processCommand now d)
      exact ⟨g₁.trans h₁, g₂.trans h₂, g₃.trans h₃⟩

/-- One command keeps what is scheduled, and gives what it schedules the next number. -/
theorem processCommand_reschedules (L : Loop) (d : WorkflowCommand) : L.Reschedules [d] (L.processCommand now d) := by
  have hsame : ∀ {L' : Loop}, L'.scheduledWakeups = L.scheduledWakeups → L'.wakeupSequence = L.wakeupSequence →
      L.Reschedules [d] L' :=
    fun hw hs => ⟨hs.ge, fun e he => hw ▸ he, fun e he => Or.inl (hw ▸ he)⟩
  have hnew : ∀ {tick : WorkflowTick} (t : Time), d.scheduled? = some tick → L.Reschedules [d] (L.scheduleTick tick t) := by
    intro tick t hd
    refine ⟨Nat.le_succ _, fun e he => (mem_insertWakeup _ _ _).2 (Or.inr he), ?_⟩
    intro e he
    rcases (mem_insertWakeup _ _ _).1 he with rfl | he
    · exact Or.inr ⟨le_rfl, Nat.lt_succ_self _, d, List.mem_singleton_self d, hd⟩
    · exact Or.inl he
  cases d with
  | scheduleIdleCheck =>
    unfold Loop.processCommand
    dsimp only
    split <;> exact hsame rfl rfl
  | scheduleWaiterTimeout n id t => exact hnew _ rfl
  | scheduleWakeup t => exact hnew _ rfl
  | _ => exact hsame rfl rfl

/-- Commands only add wakeups to the schedule. -/
theorem processCommands_reschedules (L : Loop) (cs : List WorkflowCommand) : L.Reschedules cs (L.processCommands now cs) := by
  induction cs generalizing L with
  | nil => exact ⟨le_rfl, fun _ he => he, fun _ he => Or.inl he⟩
  | cons d cs ih =>
    obtain ⟨hs, hk, ha⟩ := processCommand_reschedules now L d
    have hhead : ∀ e ∈ (L.processCommand now d).scheduledWakeups, e ∈ L.scheduledWakeups ∨
        (L.wakeupSequence ≤ e.2.1 ∧ e.2.1 < (L.processCommand now d).wakeupSequence ∧
          ∃ d' ∈ d :: cs, d'.scheduled? = some e.2.2) := by
      intro e he
      refine (ha e he).imp_right ?_
      rintro ⟨h₁, h₂, d', hd', hsched⟩
      exact ⟨h₁, h₂, d', List.mem_singleton.1 hd' ▸ List.mem_cons_self, hsched⟩
    rw [Loop.processCommands]
    split
    · exact ⟨hs, hk, hhead⟩
    · obtain ⟨hs', hk', ha'⟩ := ih (L.processCommand now d)
      refine ⟨hs.trans hs', fun e he => hk' (hk he), ?_⟩
      intro e he
      rcases ha' e he with he | ⟨h₁, h₂, d', hd', hsched⟩
      · refine (hhead e he).imp_right ?_
        rintro ⟨h₁, h₂, hd⟩
        exact ⟨h₁, h₂.trans_le hs', hd⟩
      · exact Or.inr ⟨hs.trans h₁, h₂, d', List.mem_cons_of_mem d hd', hsched⟩

theorem processCommands_wakeups (L : Loop) (cs : List WorkflowCommand) :
    ∀ e ∈ (L.processCommands now cs).scheduledWakeups, e ∈ L.scheduledWakeups ∨ e.2.2.isTimer := by
  intro e he
  refine ((processCommands_reschedules now L cs).added e he).imp_right ?_
  rintro ⟨-, -, d, -, hd⟩
  generalize e.2.2 = tick at hd ⊢
  cases d <;> cases hd <;> rfl

/-- Every tick that the commands schedule waits, if none of them ends the run. -/
theorem processCommands_schedules (L : Loop) (h : ∀ d ∈ cs, d.indicatesExit = false)
    {d : WorkflowCommand} (hd : d ∈ cs) {tick : WorkflowTick} (htick : d.scheduled? = some tick) :
    ∃ e ∈ (L.processCommands now cs).scheduledWakeups, e.2.2 = tick := by
  induction cs generalizing L with
  | nil => cases hd
  | cons d' cs ih =>
    have hd' := h d' List.mem_cons_self
    rw [Loop.processCommands, if_neg (by simp [hd'])]
    rcases List.mem_cons.1 hd with rfl | hd
    · have hin : ∃ e ∈ (L.processCommand now d).scheduledWakeups, e.2.2 = tick := by
        cases d <;> cases htick <;> exact ⟨_, (mem_insertWakeup _ _ _).2 (Or.inl rfl), rfl⟩
      obtain ⟨e, he, heq⟩ := hin
      exact ⟨e, (processCommands_reschedules now _ cs).kept he, heq⟩
    · exact ih _ (fun d hd => h d (List.mem_cons_of_mem d' hd)) hd

/-- The queued events are buffered, up to a command that ends the run; an idle check may be buffered with them. -/
theorem processCommands_tickBuffer (L : Loop) (cs : List WorkflowCommand) :
    ∃ ts, (L.processCommands now cs).tickBuffer = L.tickBuffer ++ ts ∧
      ts.filter (· ≠ .idleCheck) = newTicks (cs.takeWhile fun d => !d.indicatesExit) := by
  induction cs generalizing L with
  | nil => exact ⟨[], (List.append_nil _).symm, rfl⟩
  | cons d cs ih =>
    rw [Loop.processCommands]
    split
    · case isTrue hd =>
      refine ⟨[], ?_, by simp [hd, newTicks]⟩
      cases d <;> first | exact (List.append_nil _).symm | cases hd
    · case isFalse hd =>
      rw [Bool.not_eq_true] at hd
      obtain ⟨ts, h₁, h₂⟩ := processCommand_tickBuffer now L d
      obtain ⟨ts', h₃, h₄⟩ := ih (L.processCommand now d)
      refine ⟨ts ++ ts', by rw [h₃, h₁, List.append_assoc], ?_⟩
      rw [List.filter_append, h₂, h₄, List.takeWhile_cons_of_pos (by simpa using hd), ← newTicks_append]
      rfl

/-- Without a command that ends the run it goes on. -/
theorem processCommands_outcome_of_no_exit (L : Loop) (h : ∀ d ∈ cs, d.indicatesExit = false) :
    (L.processCommands now cs).outcome = L.outcome := by
  induction cs generalizing L with
  | nil => rfl
  | cons d cs ih =>
    have hd := h d List.mem_cons_self
    rw [Loop.processCommands, if_neg (by simp [hd]), ih _ fun d' hd' => h d' (List.mem_cons_of_mem d hd'),
      processCommand_outcome, if_neg (by simp [hd])]

/-- A command that ends the run gives its outcome. -/
theorem processCommands_outcome_of_exit (L : Loop) (h : ∃ d ∈ cs, d.indicatesExit) :
    ∃ d ∈ cs, d.indicatesExit ∧ (L.processCommands now cs).outcome = d.outcome := by
  induction cs generalizing L with
  | nil => simp at h
  | cons d cs ih =>
    by_cases hd : d.indicatesExit
    · refine ⟨d, List.mem_cons_self, hd, ?_⟩
      rw [Loop.processCommands, if_pos hd, processCommand_outcome, if_pos hd]
    · obtain ⟨d', hd', hx⟩ := h
      rcases List.mem_cons.1 hd' with rfl | hd'
      · exact absurd hx hd
      · rw [Loop.processCommands, if_neg hd]
        obtain ⟨d', h₁, h₂, h₃⟩ := ih (L.processCommand now d) ⟨d', hd', hx⟩
        exact ⟨d', List.mem_cons_of_mem d h₁, h₂, h₃⟩

theorem outcome_isSome_of_exit {d : WorkflowCommand} (h : d.indicatesExit) : d.outcome.isSome := by
  cases d <;> first | rfl | cases h

theorem takeWhile_of_no_exit (h : ∀ d ∈ cs, d.indicatesExit = false) :
    cs.takeWhile (fun d => !d.indicatesExit) = cs :=
  List.takeWhile_eq_self_iff.2 fun d hd => by simp [h d hd]

/-- A run that goes on after some commands had none among them that ends it. -/
theorem no_exit_of_outcome_eq_none {L : Loop} (h : (L.processCommands now cs).outcome = none) :
    ∀ d ∈ cs, d.indicatesExit = false := by
  intro d hd
  by_contra hx
  obtain ⟨d', -, hx', hout⟩ := processCommands_outcome_of_exit now L ⟨d, hd, by simpa using hx⟩
  have hsome := outcome_isSome_of_exit hx'
  rw [← hout, h] at hsome
  cases hsome

end CommandsAux

/-- The loop of a run that starts, before the commands of rewinding its state. -/
structure Loop.Starts (cfg : BrokerConfig) (σ : BrokerState) (e : Option Event) (now : Time) (L : Loop) : Prop where
  state : L.state = (rewindInProgress cfg now σ).1
  tickBuffer : L.tickBuffer = rehydrateWithTicks cfg σ ++ (e.map fun e => WorkflowTick.addEvent { event := e }).toList
  wakeups : ∀ w ∈ L.scheduledWakeups, w.2.1 < L.wakeupSequence ∧ ∃ t, w.2.2 = .timeout t
  mailbox : L.mailbox = []
  journal : L.journal = []
  workers : L.workers = []
  outcome : L.outcome = none
  idle : L.idleCheckPending = false

/-- What each action does. -/
inductive Loop.Moves (cfg : BrokerConfig) (runId : Option String) (L : Loop) : Action → Loop → Prop
  | rotates (now : Time) {t : WorkflowTick} {ts : List WorkflowTick} (hb : L.tickBuffer = .idleCheck :: t :: ts) :
      Moves cfg runId L (.drain now) { L with tickBuffer := (t :: ts) ++ [.idleCheck] }
  | processes (now : Time) {tick : WorkflowTick} {rest : List WorkflowTick} (hb : L.tickBuffer = tick :: rest)
      (hidle : tick = .idleCheck → rest = []) :
      Moves cfg runId L (.drain now) (Loop.processTick cfg runId now tick
        { L with tickBuffer := rest, idleCheckPending := decide (tick ≠ .idleCheck) && L.idleCheckPending })
  | takesDue (now : Time) (hb : L.tickBuffer = []) : Moves cfg runId L (.due now) (L.popDueTicks now)
  | pulls {t : WorkflowTick} {ts : List WorkflowTick} (hb : L.tickBuffer = []) (hm : L.mailbox = t :: ts) :
      Moves cfg runId L .pull { L with tickBuffer := [t], mailbox := ts }
  | finishes {i : Nat} {w : CommandRunWorker} (program : StepProgram) (failedAt : Time) (hb : L.tickBuffer = [])
      (hw : L.workers[i]? = some w) :
      Moves cfg runId L (.finish i program failedAt)
        { L with
          workers := if (L.workerTick cfg runId w program failedAt).result.any Loop.stops then [] else L.workers.eraseIdx i
          tickBuffer := L.tickBuffer ++ [.stepResult (L.workerTick cfg runId w program failedAt)] }
  | sends (message : Message) :
      Moves cfg runId L (.send message) { L with mailbox := L.mailbox ++ [message.tick] }

/-- What an action has done: nothing to the broker's state and the journal, and it has dropped no buffered tick unless the run
has ended; or it has reduced the first buffered tick and buffered those of its commands. -/
inductive Loop.Advance (cfg : BrokerConfig) (runId : Option String) (L : Loop) (a : Action) (L' : Loop) : Prop
  | waits (state : L'.state = L.state) (journal : L'.journal = L.journal)
      (tickBuffer : L'.outcome = none → ∀ t, L.tickBuffer.count t ≤ L'.tickBuffer.count t)
  | reduces (now : Time) (action : a = .drain now) (tick : WorkflowTick) (rest : List WorkflowTick)
      (buffer : L.tickBuffer = tick :: rest) (commands : List WorkflowCommand)
      (reduce : reduceTick cfg tick L.state now runId = .ok (L'.state, commands))
      (goesOn : L'.outcome = none → ∀ d ∈ commands, d.indicatesExit = false) (journal : L'.journal = L.journal ++ [tick])
      (tickBuffer : ∃ ts, L'.tickBuffer = rest ++ ts ∧
        ts.filter (fun t => t ≠ .idleCheck) = newTicks (commands.takeWhile fun d => !d.indicatesExit))

namespace CommandsAux

variable {cfg : BrokerConfig} {runId : Option String} {L L' : Loop} {σ : BrokerState} {now : Time}
  {r : BrokerState × List WorkflowCommand}

/-- Only a run without an outcome takes a step. -/
theorem outcome_of_step {a : Action} (h : L.step cfg runId a = some L') : L.outcome = none := by
  by_contra hne
  unfold Loop.step at h
  rw [if_pos (Option.isSome_iff_ne_none.2 hne)] at h
  cases h

/-- Reducing the first buffered tick. -/
theorem processTick_advance {tick : WorkflowTick} {rest : List WorkflowTick} (hb : L.tickBuffer = tick :: rest)
    {M : Loop} (hstate : M.state = L.state) (hjournal : M.journal = L.journal) (hrest : M.tickBuffer = rest) :
    L.Advance cfg runId (.drain now) (M.processTick cfg runId now tick) := by
  unfold Loop.processTick
  split
  · exact .waits hstate hjournal nofun
  · case h_2 σ cs hr =>
    obtain ⟨h₁, h₂, -⟩ := processCommands_fields now { M with state := σ, journal := M.journal ++ [tick] } cs
    refine .reduces now rfl tick rest hb cs ?_ (fun hout => no_exit_of_outcome_eq_none now hout) ?_ ?_
    · rw [h₁, ← hstate, hr]
    · rw [h₂, hjournal]
    · obtain ⟨ts, hts, hfilter⟩ := processCommands_tickBuffer now { M with state := σ, journal := M.journal ++ [tick] } cs
      exact ⟨ts, hts.trans (congrArg (· ++ ts) hrest), hfilter⟩

/-- An action that happens has one of these effects. -/
theorem step_moves {a : Action} (h : L.step cfg runId a = some L') : L.Moves cfg runId a L' := by
  have hL := outcome_of_step h
  unfold Loop.step at h
  rw [if_neg (by simp [hL])] at h
  cases a with
  | drain now =>
    dsimp only [Loop.drainTick] at h
    split at h
    · cases h
    · case h_2 hb =>
      cases h
      exact .processes now hb fun _ => rfl
    · case h_3 hb =>
      cases h
      exact .rotates now hb
    · case h_4 t ts hone hmany hb =>
      cases h
      have hne : t ≠ .idleCheck := by
        rintro rfl
        cases ts with
        | nil => exact hone rfl rfl
        | cons t' ts => exact hmany t' ts rfl rfl
      have hmove : L.Moves cfg runId (.drain now) _ := .processes now hb fun heq => absurd heq hne
      rw [decide_eq_true hne, Bool.true_and] at hmove
      exact hmove
  | due now =>
    dsimp only at h
    split at h
    · case isTrue hempty =>
      cases h
      exact .takesDue now (List.isEmpty_iff.1 hempty)
    · cases h
  | pull =>
    dsimp only at h
    split at h
    · case h_1 hb hm =>
      cases h
      exact .pulls hb hm
    · cases h
  | finish i program failedAt =>
    dsimp only at h
    split at h
    · case isTrue hempty =>
      obtain ⟨w, hw, rfl⟩ := Option.map_eq_some_iff.1 h
      exact .finishes program failedAt (List.isEmpty_iff.1 hempty) hw
    · cases h
  | send message =>
    cases h
    exact .sends message

theorem drained_of_processes {tick : WorkflowTick} {rest : List WorkflowTick} (hb : L.tickBuffer = tick :: rest)
    (hidle : tick = .idleCheck → rest = []) : L.drained? = some tick := by
  rw [Loop.drained?, hb]
  split
  · case h_1 t ts heq =>
    rw [List.cons.injEq] at heq
    rw [hidle heq.1] at heq
    cases heq.2
  · rfl

/-- Every action waits or reduces a tick. -/
theorem step_advance {a : Action} (h : L.step cfg runId a = some L') : L.Advance cfg runId a L' := by
  have happend : ∀ (l : List WorkflowTick) (t : WorkflowTick), L.tickBuffer.count t ≤ (L.tickBuffer ++ l).count t := by
    intro l t
    rw [List.count_append]
    exact Nat.le_add_right _ _
  cases step_moves h with
  | @rotates now t ts hb =>
    have hperm : ([WorkflowTick.idleCheck] ++ (t :: ts)).Perm ((t :: ts) ++ [.idleCheck]) := List.perm_append_comm
    exact .waits rfl rfl fun _ t => hb ▸ (hperm.count_eq t).le
  | processes now hb _ => exact processTick_advance hb rfl rfl rfl
  | takesDue now hb => exact .waits rfl rfl fun _ => happend _
  | pulls hb _ =>
    refine .waits rfl rfl fun _ t => ?_
    rw [hb]
    exact Nat.zero_le _
  | finishes program failedAt _ _ => exact .waits rfl rfl fun _ => happend _
  | sends message => exact .waits rfl rfl fun _ _ => le_rfl

/-- Every tick that the commands of a tick buffer is an idle check or a queued event. -/
theorem mem_processCommands_tickBuffer (now : Time) (L : Loop) (cs : List WorkflowCommand) :
    ∀ t ∈ (L.processCommands now cs).tickBuffer, t ∈ L.tickBuffer ∨ t = .idleCheck ∨
      ∃ d : CommandQueueEvent, t = .addEvent d.tick := by
  obtain ⟨ts, hts, hfilter⟩ := processCommands_tickBuffer now L cs
  intro t ht
  rw [hts, List.mem_append] at ht
  refine ht.imp id ?_
  intro ht
  by_cases hidle : t = .idleCheck
  · exact Or.inl hidle
  · have hmem : t ∈ newTicks (cs.takeWhile fun d => !d.indicatesExit) := by
      rw [← hfilter]
      exact List.mem_filter.2 ⟨ht, by simpa using hidle⟩
    obtain ⟨d, -, hd⟩ := List.mem_filterMap.1 hmem
    cases d <;> cases hd
    exact Or.inr ⟨_, rfl⟩

theorem withIdleCheck_fst (cfg : BrokerConfig) (r : BrokerState × List WorkflowCommand) : (withIdleCheck cfg r).1 = r.1 := by
  unfold withIdleCheck
  split <;> rfl

theorem mem_withIdleCheck {d : WorkflowCommand} (hd : d ∈ r.2) : d ∈ (withIdleCheck cfg r).2 := by
  unfold withIdleCheck
  split
  · exact List.mem_append_left _ hd
  · exact hd

theorem no_exit_of_withIdleCheck
    (h : ∀ d ∈ (withIdleCheck cfg r).2, d.indicatesExit = false) : ∀ d ∈ r.2, d.indicatesExit = false :=
  fun d hd => h d (mem_withIdleCheck hd)

/-- What the result of an execution comes to: the execution runs again, or its results are applied and it ends. -/
inductive ResultMove (cfg : BrokerConfig) (tick : TickStepResult) (σ : BrokerState) (now : Time) (runId : Option String) :
    BrokerState × List WorkflowCommand → Prop
  | reruns {c : StepConfig} {x : InProgressState} {rerun : InternalStepWorkerState × List WorkflowCommand}
      (hc : cfg.steps.get? tick.stepId = some c) (hx : (σ.workers tick.stepId).execution? tick.workerId = some x)
      (hrerun : rerunForStaleCollectBuffer tick (σ.workers tick.stepId) x = some rerun) :
      ResultMove cfg tick σ now runId (σ.setWorker tick.stepId rerun.1, rerun.2)
  | applies {c : StepConfig} {x : InProgressState} {started : BrokerState × FanOutScope} {acc : StepResultAcc}
      {resolved : BrokerState × List WorkflowCommand}
      (hc : cfg.steps.get? tick.stepId = some c) (hx : (σ.workers tick.stepId).execution? tick.workerId = some x)
      (hstarted : started = fanOutScope σ tick.stepId x (tick.result.any StepFunctionResult.isFannedOut))
      (hacc : acc = tick.result.foldl (applyStepResult cfg c tick started.2 (tick.result.any StepFunctionResult.isResult) runId)
        { state := started.1, execution := x })
      (hres : resolveWorkItemInStream cfg tick started.2 acc now = .ok resolved) :
      ResultMove cfg tick σ now runId
        (finishExecution c tick { acc with state := resolved.1, commands := acc.commands ++ resolved.2 } now)

/-- A result that raises nothing comes to one of the two. -/
theorem processStepResultTick_moves {tick : TickStepResult} (hr : processStepResultTick cfg tick σ now runId = .ok r) :
    ResultMove cfg tick σ now runId r := by
  unfold processStepResultTick at hr
  split at hr
  · cases hr
  · case h_2 c hc =>
    dsimp only at hr
    split at hr
    · cases hr
    · case h_2 x hx =>
      split at hr
      · case h_1 rerun hrerun =>
        cases hr
        exact .reruns hc hx hrerun
      · split at hr
        · cases hr
        · case h_2 resolved hres =>
          cases hr
          exact .applies hc hx rfl rfl hres

/-- A final tick ends the run. -/
theorem not_goesOn_of_final {tick : WorkflowTick} (h : tick.isFinal = true) (hr : reduceTick cfg tick σ now runId = .ok r) :
    ¬∀ d ∈ r.2, d.indicatesExit = false := by
  intro hgo
  cases tick with
  | cancelRun =>
    cases hr
    cases no_exit_of_withIdleCheck hgo (.halt ⟨.workflowCancelledByUser, ""⟩) (by simp [processCancelRunTick])
  | timeout t =>
    cases hr
    cases no_exit_of_withIdleCheck hgo _ (List.mem_cons_of_mem _ List.mem_cons_self)
  | idleRelease =>
    cases hr
    cases hgo _ List.mem_cons_self
  | _ => cases h

/-- A step result that can be reduced is journaled. -/
theorem journal_of_result {L L' : Loop} (hstep : L.step cfg runId (.drain now) = some L') {t : TickStepResult}
    {rest : List WorkflowTick} (hb : L.tickBuffer = .stepResult t :: rest)
    (hr : reduceTick cfg (.stepResult t) L.state now runId = .ok r) : L'.journal = L.journal ++ [.stepResult t] := by
  have hout := outcome_of_step hstep
  unfold Loop.step at hstep
  rw [if_neg (by simp [hout])] at hstep
  simp only [Loop.drainTick, hb, Option.some.injEq, Loop.processTick, hr] at hstep
  rw [← hstep]
  exact (processCommands_fields now _ r.2).2.1

theorem start_eq (cfg : BrokerConfig) (σ : BrokerState) (e : Option Event) (now : Time) :
    ∃ L : Loop, L.Starts cfg σ e now ∧ Loop.start cfg σ e now = L.processCommands now (rewindInProgress cfg now σ).2 := by
  unfold Loop.start
  dsimp only
  split
  · refine ⟨_, ⟨rfl, rfl, ?_, rfl, rfl, rfl, rfl, rfl⟩, rfl⟩
    intro w hw
    rw [List.mem_singleton.1 hw]
    exact ⟨Nat.zero_lt_one, _, rfl⟩
  · exact ⟨_, ⟨rfl, rfl, fun w hw => absurd hw List.not_mem_nil, rfl, rfl, rfl, rfl, rfl⟩, rfl⟩

theorem start_fields (cfg : BrokerConfig) (σ : BrokerState) (e : Option Event) (now : Time) :
    (Loop.start cfg σ e now).state = (rewindInProgress cfg now σ).1 ∧ (Loop.start cfg σ e now).journal = [] := by
  obtain ⟨L, hL, heq⟩ := start_eq cfg σ e now
  obtain ⟨h₁, h₂, -⟩ := processCommands_fields now L (rewindInProgress cfg now σ).2
  rw [heq]
  exact ⟨h₁.trans hL.state, h₂.trans hL.journal⟩

theorem starts_isTimer {L : Loop} {e : Option Event} (h : L.Starts cfg σ e now) : ∀ w ∈ L.scheduledWakeups, w.2.2.isTimer := by
  intro w hw
  obtain ⟨-, t, ht⟩ := h.wakeups w hw
  rw [ht]
  rfl

/-- The ticks that a run starts with: pings of restored waiters, and its start event. -/
theorem mem_start_tickBuffer {L : Loop} {e : Option Event} (h : L.Starts cfg σ e now)
    {t : WorkflowTick} (ht : t ∈ L.tickBuffer) :
    (∃ n, ∃ y ∈ (σ.workers n).collectedWaiters, t = .addEvent (y.repingTick n)) ∨ ∃ e, t = .addEvent { event := e } := by
  rw [h.tickBuffer, List.mem_append] at ht
  rcases ht with ht | ht
  · obtain ⟨q, -, ht⟩ := List.mem_flatMap.1 ht
    obtain ⟨y, hy, rfl⟩ := List.mem_map.1 ht
    exact Or.inl ⟨q.1, y, (List.mem_insertionSort _).1 (List.mem_filter.1 hy).1, rfl⟩
  · obtain ⟨e, -, rfl⟩ := Option.map_eq_some_iff.1 (Option.mem_toList.1 ht)
    exact Or.inr ⟨e, rfl⟩

end CommandsAux

/-- Every tick that waits in the loop has a property. -/
structure Loop.TicksAre (Q : WorkflowTick → Prop) (L : Loop) : Prop where
  buffer : ∀ t ∈ L.tickBuffer, Q t
  mailbox : ∀ t ∈ L.mailbox, Q t
  wakeups : ∀ e ∈ L.scheduledWakeups, Q e.2.2

/-- A property of the ticks that the loop, its timers and its senders produce. -/
structure ProducedTicks (Q : WorkflowTick → Prop) : Prop where
  queued : ∀ d : CommandQueueEvent, Q (.addEvent d.tick)
  message : ∀ m : Message, Q m.tick
  timer : ∀ t, t.isTimer → Q t
  idle : Q .idleCheck

namespace CommandsAux

variable {Q : WorkflowTick → Prop}

theorem processCommands_ticksAre (hQ : ProducedTicks Q) (now : Time) {L : Loop} (h : L.TicksAre Q) (cs : List WorkflowCommand) :
    (L.processCommands now cs).TicksAre Q := by
  refine ⟨?_, ?_, ?_⟩
  · intro t ht
    rcases mem_processCommands_tickBuffer now L cs t ht with ht | rfl | ⟨d, rfl⟩
    · exact h.buffer t ht
    · exact hQ.idle
    · exact hQ.queued d
  · rw [(processCommands_fields now L cs).2.2]
    exact h.mailbox
  · intro e he
    rcases processCommands_wakeups now L cs e he with he | he
    · exact h.wakeups e he
    · exact hQ.timer _ he

/-- A tick produces only ticks of the kind that its commands produce. -/
theorem processTick_ticksAre {cfg : BrokerConfig} {runId : Option String} (hQ : ProducedTicks Q) (now : Time) {L : Loop}
    (h : L.TicksAre Q) (tick : WorkflowTick) : (L.processTick cfg runId now tick).TicksAre Q := by
  unfold Loop.processTick
  split
  · exact ⟨h.buffer, h.mailbox, h.wakeups⟩
  · refine processCommands_ticksAre hQ now ?_ _
    exact ⟨h.buffer, h.mailbox, h.wakeups⟩

/-- The ticks that wait when a run starts have the property if the pings of restored waiters do. -/
theorem start_ticksAre {cfg : BrokerConfig} (hQ : ProducedTicks Q) {σ : BrokerState}
    (hping : ∀ t ∈ rehydrateWithTicks cfg σ, Q t) (e : Option Event) (now : Time) : (Loop.start cfg σ e now).TicksAre Q := by
  obtain ⟨L, hL, heq⟩ := start_eq cfg σ e now
  rw [heq]
  refine processCommands_ticksAre hQ now ⟨?_, ?_, fun w hw => hQ.timer _ (starts_isTimer hL w hw)⟩ _
  · rw [hL.tickBuffer]
    intro t ht
    rcases List.mem_append.1 ht with ht | ht
    · exact hping t ht
    · obtain ⟨e, -, rfl⟩ := Option.map_eq_some_iff.1 (Option.mem_toList.1 ht)
      exact hQ.message (.addEvent e none ∅)
  · rw [hL.mailbox]
    exact fun t ht => absurd ht List.not_mem_nil

/-- A property of the ticks that are produced holds of every tick that waits in the loop. -/
theorem step_ticksAre {cfg : BrokerConfig} {runId : Option String} (hQ : ProducedTicks Q) {L L' : Loop} (h : L.TicksAre Q)
    {a : Action} (hworker : ∀ i program failedAt w, a = .finish i program failedAt →
      Q (.stepResult (L.workerTick cfg runId w program failedAt))) (hstep : L.step cfg runId a = some L') : L'.TicksAre Q := by
  cases step_moves hstep with
  | rotates now hb =>
    refine ⟨?_, h.mailbox, h.wakeups⟩
    intro t' ht'
    refine h.buffer t' ?_
    rw [hb]
    exact List.perm_append_comm.mem_iff.1 ht'
  | processes now hb _ =>
    refine processTick_ticksAre hQ now ?_ _
    refine ⟨?_, h.mailbox, h.wakeups⟩
    intro t' ht'
    exact h.buffer t' (hb ▸ List.mem_cons_of_mem _ ht')
  | takesDue now _ =>
    refine ⟨?_, h.mailbox, fun e he => h.wakeups e ((List.dropWhile_sublist _).subset he)⟩
    intro t ht
    rcases List.mem_append.1 ht with ht | ht
    · exact h.buffer t ht
    · obtain ⟨e, he, rfl⟩ := List.mem_map.1 ht
      exact h.wakeups e ((List.takeWhile_sublist _).subset he)
  | pulls _ hbox =>
    refine ⟨?_, ?_, h.wakeups⟩
    · intro t' ht'
      rw [List.mem_singleton] at ht'
      exact h.mailbox t' (hbox ▸ ht' ▸ List.mem_cons_self)
    · intro t' ht'
      exact h.mailbox t' (hbox ▸ List.mem_cons_of_mem _ ht')
  | @finishes i w program failedAt _ _ =>
    refine ⟨?_, h.mailbox, h.wakeups⟩
    intro t ht
    rcases List.mem_append.1 ht with ht | ht
    · exact h.buffer t ht
    · rw [List.mem_singleton] at ht
      exact ht ▸ hworker i program failedAt w rfl
  | sends message =>
    refine ⟨h.buffer, ?_, h.wakeups⟩
    intro t ht
    rcases List.mem_append.1 ht with ht | ht
    · exact h.mailbox t ht
    · rw [List.mem_singleton] at ht
      exact ht ▸ hQ.message message

end CommandsAux

end LlamaAgents
