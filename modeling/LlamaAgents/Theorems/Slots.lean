import LlamaAgents.Workflow
import LlamaAgents.Lemmas.SlotRuns

/-!
# Slots and executions

Every in-progress slot has one task or one buffered result behind it, while the run goes on and is not stopping, as long as
no task ends without a result and no result starts its slot's worker twice or is discarded after it has cancelled the others.
Each of these happens: a body raises `asyncio.CancelledError`, a retry policy raises on its own error, a body adds to a collect
buffer again and again, or a stop event is returned on a stale buffer. The slot is then left without a task, or has two.
-/

namespace LlamaAgents

namespace SlotsAux

variable {cfg : BrokerConfig} {runId : Option String} {raises : PolicyErrors}

/-- A task that returns brings the result of its slot. -/
theorem runWorker_ids {L : Loop} {w : CommandRunWorker} {body : StepBody} {t t' : Time} {tick : TickStepResult}
    (h : L.runWorker cfg runId raises w body t t' = some tick) : tick.stepId = w.stepId ∧ tick.workerId = w.id := by
  unfold Loop.runWorker at h
  split at h
  · obtain ⟨results, -, h⟩ := Option.bind_eq_some_iff.1 h
    split at h
    · cases h
      exact ⟨rfl, rfl⟩
    · split at h
      · cases h
        exact ⟨rfl, rfl⟩
      · cases h
  · cases h
    exact ⟨rfl, rfl⟩

/-- A task returns, when its body is not cancelled and no policy raises on its own error. -/
theorem runWorker_isSome (cfg : BrokerConfig) (runId : Option String)
    (hraises : ∀ n t k e e', raises n t k e = some e' → ∀ t', raises n t' k e' = none) (L : Loop) (w : CommandRunWorker)
    {body : StepBody} (hbody : body.isCancelled = false) (t t' : Time) :
    (L.runWorker cfg runId raises w body t t').isSome := by
  unfold Loop.runWorker
  split
  · case h_1 c x _ _ =>
    cases body with
    | cancelled => cases hbody
    | program p =>
      rw [StepBody.results, Option.bind_some]
      split
      · rfl
      · case h_2 e he =>
        have hnone : stampError raises c w.stepId x [.failed { exception := e, failedAt := t' }] = none := by
          unfold stampRetryDecisions at he
          split at he
          · cases he
          · case h_2 e' hfound =>
            cases he
            obtain ⟨r, -, hr⟩ := List.exists_of_findSome?_eq_some hfound
            split at hr
            · split at hr
              · rw [stampError, List.findSome?_singleton]
                dsimp only
                split
                · exact hraises _ _ _ _ _ hr _
                · rfl
              · cases hr
            · cases hr
        rw [stampRetryDecisions, hnone]
        rfl
  · rfl

/-- A stop event that is not discarded ends the run. -/
theorem reduceTick_stops {tick : WorkflowTick} {σ : BrokerState} {now : Time} (hstops : tick.stops)
    (hstale : tick.stopsStale σ = false) {r : BrokerState × List WorkflowCommand}
    (hr : reduceTick cfg tick σ now runId = .ok r) : ∃ d ∈ r.2, d.indicatesExit := by
  cases tick with
  | stepResult t =>
    obtain ⟨r', hr', rfl⟩ := PlainAux.map_eq_ok hr
    cases CommandsAux.processStepResultTick_moves hr' with
    | reruns _ hx hrerun =>
      rw [rerunForStaleCollectBuffer] at hrerun
      split at hrerun
      · case isTrue hfires =>
        rw [WorkflowTick.stops] at hstops
        rw [WorkflowTick.stopsStale, hstops, hx, Option.any_some, hfires] at hstale
        cases hstale
      · cases hrerun
    | @applies c x started acc _ _ _ _ hacc _ =>
      obtain ⟨d, hd, hexit⟩ := foldl_exit cfg runId c t started.2 (t.result.any StepFunctionResult.isResult) hstops
        { state := started.1, execution := x }
      rw [← hacc] at hd
      exact ⟨d, CommandsAux.mem_withIdleCheck (finishExecution_commands now c t _ d (List.mem_append_left _ hd)), hexit⟩
  | _ => cases hstops

/-- While the run goes on, no slot is lost, or the result of a step that stops the run is the only tick that is buffered. -/
structure SlotRun (cfg : BrokerConfig) (L : Loop) : Prop where
  brings : Loop.BringsNone L
  held : L.outcome = none → L.SlotsHeld (· ∈ cfg.steps.keys) (fun _ _ => 0) ∨ ∃ t, L.tickBuffer = [t] ∧ t.stops

/-- A stopping run goes on stopping, or ends. -/
theorem stopping_step {L L' : Loop} {a : Action} {t : WorkflowTick} (hb : L.tickBuffer = [t]) (hstops : t.stops)
    (hstale : ∀ now, a = .drain now → t.stopsStale L.state = false) (hfinish : a.isFinish = false)
    (hstep : L.step cfg runId a = some L') (hout : L'.outcome = none) : L'.tickBuffer = [t] := by
  cases CommandsAux.step_moves hstep with
  | rotates now hb' =>
    rw [hb] at hb'
    cases hb'
  | processes now hb' _ =>
    rw [hb] at hb'
    cases hb'
    unfold Loop.processTick at hout
    split at hout
    · cases hout
    · case h_2 σ cs hr =>
      obtain ⟨d, hd, hexit⟩ := reduceTick_stops hstops (hstale now rfl) hr
      rw [CommandsAux.no_exit_of_outcome_eq_none now hout d hd] at hexit
      cases hexit
  | takesDue _ hb' | pulls hb' _ =>
    rw [hb] at hb'
    cases hb'
  | finishes => cases hfinish
  | sends => exact hb

/-- One action that keeps the slots. -/
theorem stepTasks_slotRun (hraises : ∀ n t k e e', raises n t k e = some e' → ∀ t', raises n t' k e' = none) {L L' : Loop}
    (h : SlotRun cfg L) {a : TaskAction} (ha : L.keepsSlots a) (hstep : L.stepTasks cfg runId raises a = some L') :
    SlotRun cfg L' := by
  cases a with
  | loop a =>
    rw [Loop.stepTasks] at hstep
    split at hstep
    · cases hstep
    · case isFalse hfinish =>
      rw [Bool.not_eq_true] at hfinish
      refine ⟨step_bringsNone h.brings hstep, ?_⟩
      intro hout
      have hhead : ∀ now, a = .drain now → L.tickBuffer.head?.all fun t => t.addsOnce && !t.stopsStale L.state := by
        rintro now rfl
        exact ha
      rcases h.held (CommandsAux.outcome_of_step hstep) with hheld | ⟨t, hb, hstops⟩
      · refine Or.inl (step_held hheld h.brings (fun now hdrain => ?_) hfinish hstep hout)
        have hhead := hhead now hdrain
        cases hbuffer : L.tickBuffer.head? with
        | none => rfl
        | some t =>
          rw [hbuffer, Option.all_some, Bool.and_eq_true] at hhead
          exact hhead.1
      · refine Or.inr ⟨t, stopping_step hb hstops (fun now hdrain => ?_) hfinish hstep hout, hstops⟩
        have hhead := hhead now hdrain
        rw [hb, List.head?_cons, Option.all_some, Bool.and_eq_true, Bool.not_eq_true'] at hhead
        exact hhead.2
  | taskEnd i body t t' =>
    rw [Loop.stepTasks] at hstep
    split at hstep
    · case isTrue hlive =>
      rw [Bool.and_eq_true, Option.isNone_iff_eq_none, List.isEmpty_iff] at hlive
      obtain ⟨w, hw, rfl⟩ := Option.map_eq_some_iff.1 hstep
      rw [Loop.keepsSlots, Bool.not_eq_true'] at ha
      obtain ⟨tick, htick⟩ := Option.isSome_iff_exists.1
        (runWorker_isSome cfg runId hraises L w ha t t')
      obtain ⟨hid, hworker⟩ := runWorker_ids htick
      rw [htick]
      refine ⟨⟨h.brings.mailbox, h.brings.wakeups⟩, ?_⟩
      intro _
      dsimp only
      cases hstops : tick.result.any Loop.stops with
      | true => exact Or.inr ⟨.stepResult tick, by rw [hlive.2]; rfl, hstops⟩
      | false =>
        rcases h.held hlive.1 with hheld | ⟨t, hb, -⟩
        · refine Or.inl (taskEnd_held hheld hw hid hworker (fun n k => ?_) rfl rfl)
          rw [Loop.tasksAt, if_neg Bool.false_ne_true, slotsOf]
        · rw [hlive.2] at hb
          cases hb
    · cases hstep

end SlotsAux

open SlotsAux

/-- Every in-progress slot has exactly one execution behind it. The run starts from any state, with the interrupted work of that
state dispatched again; no policy raises on the error that it raised itself. -/
theorem slots_have_one_execution (cfg : BrokerConfig) (runId : Option String) {raises : PolicyErrors}
    (hraises : ∀ n t k e e', raises n t k e = some e' → ∀ t', raises n t' k e' = none) (σ : BrokerState)
    (start : Option Event) (now : Time) {L : Loop}
    (hrun : Lib.Run (Loop.stepTasks cfg runId raises) (fun L a => L.keepsSlots a) (Loop.start cfg σ start now) L)
    (hlive : L.outcome = none) (hstopping : L.isStopping = false) : L.SlotsMatch cfg := by
  have hinv : SlotRun cfg L := by
    refine hrun.invariant (SlotRun cfg) ?_ fun _ _ _ hL ha hs => stepTasks_slotRun hraises hL ha hs
    obtain ⟨hheld, hnone⟩ := start_held cfg (σ := σ) (fun n hn => Or.inl hn) start now
    exact ⟨hnone, fun _ => Or.inl hheld⟩
  rcases hinv.held hlive with hheld | ⟨t, hb, hstops⟩
  · intro n hn
    obtain ⟨hcount, hnodup⟩ := hheld n hn
    refine ⟨List.perm_iff_count.2 fun k => ?_, hnodup⟩
    rw [List.count_append]
    exact hcount k
  · rw [Loop.isStopping, hb] at hstopping
    simp [hstops] at hstopping

namespace SlotLeaks

/-- A workflow of one step, with a retry policy that gives up. -/
def workflow : Workflow where
  name := "Gather"
  steps := ⟨[("gather", plainStep [.startEvent] [.stopEvent] defaultNumWorkers (some ⟨fun _ _ _ _ => none⟩))], by simp⟩

/-- The event that the step takes. -/
def item : Event := ⟨.startEvent, []⟩

/-- A policy that raises on every failure. -/
def raising : PolicyErrors := fun _ _ _ _ => some ⟨.other "RuntimeError", "no policy for this error"⟩

/-- Another event for the step. -/
def another : List TaskAction := [.loop (.send (.addEvent item none ∅)), .loop .pull, .loop (.drain 1)]

/-- The body raises `asyncio.CancelledError`. -/
def cancelled : List TaskAction := [.loop (.drain 1), .taskEnd 0 .cancelled 1 1]

/-- The body fails, and the policy raises. -/
def failed : List TaskAction := [.loop (.drain 1), .taskEnd 0 (.program (.raise ⟨.other "RuntimeError", "failed"⟩)) 1 1]

/-- A body that adds its event to a collect buffer some number of times, and returns nothing. -/
def adding : Nat → StepProgram
  | 0 => .ret .none
  | k + 1 => .collectEvents { event := item } (List.replicate 9 .startEvent) none fun _ => adding k

/-- The body adds four events to a collect buffer. -/
def fourTimes : List TaskAction := [.loop (.drain 1), .taskEnd 0 (.program (adding 4)) 1 1, .loop (.drain 1)]

/-- A body that collects one event and stops the run. -/
def stopping : StepProgram := .collectEvents { event := item } [.startEvent] none fun _ => .ret (.event ⟨.stopEvent, []⟩)

/-- Of three executions one adds to the collect buffer, and then one stops the run on the buffer as it was before. -/
def stopsStale : List TaskAction :=
  .loop (.drain 1) :: another ++ another ++ [.taskEnd 0 (.program (adding 1)) 1 1, .loop (.drain 1),
    .taskEnd 0 (.program stopping) 1 1, .loop (.drain 1)]

end SlotLeaks

open SlotLeaks in
/-- A slot loses its task, or has two: the body raises `asyncio.CancelledError`, the policy raises on the failure and on its own
error, the body adds four events to a collect buffer, or a stop event is discarded for a stale collect buffer. -/
theorem slots_have_one_execution_false : workflow.isValid ∧
    ∀ q ∈ [((fun _ _ _ _ => none : PolicyErrors), cancelled), (raising, failed), ((fun _ _ _ _ => none), fourTimes),
      ((fun _ _ _ _ => none), stopsStale)],
      ∃ L, Lib.Run (Loop.stepTasks workflow.config none q.1) (fun _ _ => True) (Loop.start workflow.config {} (some item) 0) L ∧
        L.outcome = none ∧ L.isStopping = false ∧ ¬ L.SlotsMatch workflow.config := by
  refine ⟨by decide, ?_⟩
  intro q hq
  simp only [List.mem_cons, List.not_mem_nil, or_false] at hq
  rcases hq with rfl | rfl | rfl | rfl
  · exact Lib.Run.exists_of_actions _ _ cancelled _ (by decide +kernel)
  · exact Lib.Run.exists_of_actions _ _ failed _ (by decide +kernel)
  · exact Lib.Run.exists_of_actions _ _ fourTimes _ (by decide +kernel)
  · exact Lib.Run.exists_of_actions _ _ stopsStale _ (by decide +kernel)

open SlotLeaks in
/-- With three executions in progress, after one of them has added to the collect buffer. -/
theorem slots_have_one_execution_gathering : ∃ L : Loop, (L.state.workers "gather").slots = [1, 2] ∧
    L.SlotsMatch workflow.config := by
  obtain ⟨L, hrun, hout, hgoes, hslots⟩ := Lib.Run.exists_of_exec (Loop.stepTasks workflow.config none fun _ _ _ _ => none)
    (fun L a => L.keepsSlots a) (Loop.start workflow.config {} (some item) 0) (stopsStale.take 9)
    (fun L => L.outcome = none ∧ L.isStopping = false ∧ (L.state.workers "gather").slots = [1, 2]) (by decide +kernel)
  exact ⟨L, hslots, slots_have_one_execution workflow.config none (fun _ _ _ _ _ h => by cases h) {} (some item) 0 hrun hout hgoes⟩

end LlamaAgents
