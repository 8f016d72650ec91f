import LlamaAgents.Theorems.Slots
import LlamaAgents.Lemmas.Holds

/-!
# The reducer does not raise

The reducer raises in three places: when a result names a slot that is not in progress, when a finished execution cannot be
classified, and when a collect payload is delivered again for an unknown binding. In a run whose results add to no collect
buffer twice, none of them is reached. A result that adds to a buffer four times starts its worker twice; the first of the two
gives the slot up, and the result of the other one names a slot that is gone.
-/

namespace LlamaAgents

open SlotsAux HoldsAux

namespace ReducerAux

variable {cfg : BrokerConfig} {runId : Option String} {raises : PolicyErrors} {σ : BrokerState} {now : Time}

/-! ## Classification -/

/-- Results that say how an execution ended: it returned, failed, or waits. -/
def SaysHow (rs : List StepFunctionResult) : Prop := ∃ r ∈ rs, r.isResult ∨ r.isFailed ∨ r.isAddWaiter

theorem wrapReturn_saysHow {c : StepConfig} {n : StepId} {v : ReturnValue} {rs : List StepFunctionResult}
    (h : wrapReturn c n v = .ok rs) : SaysHow rs := by
  cases StepResultAux.wrapReturn_plain h with
  | returned es fanned hes =>
    obtain ⟨e, es, rfl⟩ := List.exists_cons_of_ne_nil hes
    exact ⟨_, List.mem_cons_self, Or.inl rfl⟩
  | raised f => exact ⟨_, List.mem_singleton_self _, Or.inr (Or.inl rfl)⟩

/-- The wrapper always says how an execution ended. -/
theorem stepWorker_saysHow (c : StepConfig) (n : StepId) (snapshot : StepWorkerState) (program : StepProgram) (t : Time) :
    SaysHow (stepWorker c n snapshot program t) := by
  have hlast : ∀ (rs : List StepFunctionResult) {r : StepFunctionResult}, (r.isResult ∨ r.isFailed ∨ r.isAddWaiter) →
      SaysHow (rs ++ [r]) := fun rs r hr => ⟨r, List.mem_append_right _ (List.mem_singleton_self r), hr⟩
  unfold stepWorker
  split
  · exact ⟨_, List.mem_singleton_self _, Or.inr (Or.inl rfl)⟩
  · dsimp only
    split
    · exact hlast _ (Or.inr (Or.inr rfl))
    · exact hlast _ (Or.inr (Or.inl rfl))
    · split
      · case h_1 hv =>
        obtain ⟨r, hr, hhow⟩ := wrapReturn_saysHow hv
        exact ⟨r, List.mem_append_right _ hr, hhow⟩
      · exact hlast _ (Or.inr (Or.inl rfl))

theorem stamp_saysHow {c : StepConfig} {n : StepId} {x : InProgressState} {rs : List StepFunctionResult} (h : SaysHow rs) :
    SaysHow (rs.map (stampRetryDecision c n x runId)) := by
  obtain ⟨r, hr, hhow⟩ := h
  refine ⟨_, List.mem_map_of_mem hr, ?_⟩
  cases r with
  | failed f =>
    rw [stampRetryDecision]
    split <;> exact Or.inr (Or.inl rfl)
  | _ => exact hhow

theorem stampRetryDecisions_saysHow {c : StepConfig} {n : StepId} {x : InProgressState} {rs rs' : List StepFunctionResult}
    (h : SaysHow rs) (hs : stampRetryDecisions raises c n x runId rs = .ok rs') : SaysHow rs' := by
  unfold stampRetryDecisions at hs
  split at hs
  · cases hs
    exact stamp_saysHow h
  · cases hs

/-- A task that returns says how its execution ended. -/
theorem runWorker_saysHow {L : Loop} {w : CommandRunWorker} {body : StepBody} {t t' : Time} {tick : TickStepResult}
    (h : L.runWorker cfg runId raises w body t t' = some tick) : SaysHow tick.result := by
  have hfailed : ∀ f, SaysHow [.failed f] := fun f => ⟨_, List.mem_singleton_self _, Or.inr (Or.inl rfl)⟩
  unfold Loop.runWorker at h
  split at h
  · case h_1 c x _ _ =>
    obtain ⟨results, hresults, h⟩ := Option.bind_eq_some_iff.1 h
    have hhow : SaysHow results := by
      cases body with
      | program p =>
        cases hresults
        exact stepWorker_saysHow c w.stepId x.sharedState p t
      | cancelled =>
        rw [StepBody.results] at hresults
        split at hresults <;> cases hresults
        exact stepWorker_saysHow c w.stepId x.sharedState _ t
    split at h
    · case h_1 hs =>
      cases h
      exact stampRetryDecisions_saysHow hhow hs
    · split at h
      · case h_1 hs =>
        cases h
        exact stampRetryDecisions_saysHow (hfailed _) hs
      · cases h
  · case h_2 hnone =>
    cases h
    unfold Loop.workerTick
    dsimp only
    split
    · case h_1 c x hc hx => exact absurd hx (hnone c x hc)
    · exact hfailed _

/-- A result that failed is delivered again, or ends the run. -/
theorem foldl_failed (cfg : BrokerConfig) (runId : Option String) (c : StepConfig) (tick : TickStepResult) (scope : FanOutScope)
    (done : Bool) {rs : List StepFunctionResult} (acc : StepResultAcc)
    (h : rs.any StepFunctionResult.isFailed ∨ acc.redeliveryScheduled = true ∨ ∃ d ∈ acc.commands, d.indicatesExit) :
    let acc' := rs.foldl (applyStepResult cfg c tick scope done runId) acc
    acc'.redeliveryScheduled = true ∨ ∃ d ∈ acc'.commands, d.indicatesExit := by
  induction rs generalizing acc with
  | nil => simpa using h
  | cons r rs ih =>
    refine ih _ ?_
    by_cases hr : r.isFailed
    · cases r with
      | failed f =>
        rw [applyStepResult]
        rcases StepResultAux.scheduleRetryOrRouteFailure_cases cfg c tick runId f acc with
          ⟨-, notBefore, heq⟩ | ⟨-, key, handler, d, -, -, heq⟩ | ⟨-, e, heq⟩
        · rw [heq]
          exact Or.inr (Or.inl rfl)
        · rw [heq]
          exact Or.inr (Or.inl rfl)
        · rw [heq]
          exact Or.inr (Or.inr ⟨.failWorkflow tick.stepId f.exception, by simp, rfl⟩)
      | _ => cases hr
    · rw [List.any_cons, Bool.or_eq_true] at h
      rcases h with h | h | ⟨d, hd, hexit⟩
      · exact Or.inl (h.resolve_left hr)
      · refine Or.inr (Or.inl ?_)
        cases r with
        | result e fanned =>
          cases e with
          | none => exact h
          | some e =>
            rw [applyStepResult]
            split <;> exact h
        | failed f => exact absurd rfl hr
        | addCollected b e =>
          rw [applyStepResult]
          dsimp only
          split <;> exact h
        | addWaiter add =>
          rw [applyStepResult]
          dsimp only
          split <;> exact h
        | deleteCollected b =>
          rw [applyStepResult]
          split <;> exact h
        | deleteWaiter i =>
          rw [applyStepResult]
          split <;> exact h
      · exact Or.inr (Or.inr ⟨d, (applyStepResult_commands cfg runId c tick scope done acc r).subset hd, hexit⟩)

/-- A finished execution that says how it ended can be classified. -/
theorem resolve_ok (cfg : BrokerConfig) (now : Time) {tick : TickStepResult} (hhow : SaysHow tick.result)
    (scope : FanOutScope) {acc : StepResultAcc}
    (hfailed : tick.result.any StepFunctionResult.isFailed →
      acc.redeliveryScheduled = true ∨ ∃ d ∈ acc.commands, d.indicatesExit) :
    ∃ r, resolveWorkItemInStream cfg tick scope acc now = .ok r := by
  have hclass : ∃ d, classifyWorkItem tick acc.commands (!acc.stepNoLongerInProgress) acc.redeliveryScheduled
      scope.fannedOut = .ok d := by
    obtain ⟨r, hr, hhow⟩ := hhow
    unfold classifyWorkItem
    by_cases hexit : acc.commands.any WorkflowCommand.indicatesExit
    · exact ⟨_, if_pos hexit⟩
    · rw [if_neg hexit]
      split
      · exact ⟨_, rfl⟩
      · split
        · exact ⟨_, rfl⟩
        · case isFalse hnot =>
          have hnone : tick.result.any StepFunctionResult.isFailed = false := by
            by_contra hany
            rw [Bool.not_eq_false] at hany
            rcases hfailed hany with hagain | hexit'
            · exact hnot (by rw [hany, hagain]; rfl)
            · exact hexit (List.any_eq_true.2 hexit')
          split
          · exact ⟨_, rfl⟩
          · case isFalse hres =>
            rcases hhow with h | h | h
            · exact absurd (List.any_eq_true.2 ⟨r, hr, h⟩) hres
            · rw [List.any_eq_true.2 ⟨r, hr, h⟩] at hnone
              cases hnone
            · exact ⟨_, if_pos (List.any_eq_true.2 ⟨r, hr, h⟩)⟩
  obtain ⟨d, hd⟩ := hclass
  unfold resolveWorkItemInStream
  dsimp only
  rw [hd]
  cases d with
  | fannedOut =>
    dsimp only
    split <;> exact ⟨_, rfl⟩
  | _ => exact ⟨_, rfl⟩

/-- The result of a slot in progress, which says how its execution ended, is reduced. -/
theorem processStepResultTick_ok (now : Time) (runId : Option String) {tick : TickStepResult} (hn : tick.stepId ∈ cfg.steps.keys)
    (hslot : tick.workerId ∈ (σ.workers tick.stepId).slots) (hhow : SaysHow tick.result) :
    ∃ r, processStepResultTick cfg tick σ now runId = .ok r := by
  obtain ⟨q, hq, hkey⟩ := List.mem_map.1 hn
  have hc : cfg.steps.get? tick.stepId = some q.2 := hkey ▸ (cfg.steps.get?_eq_some_iff q.1 q.2).2 hq
  obtain ⟨y, hy, hid⟩ := List.mem_map.1 hslot
  have hfind : ((σ.workers tick.stepId).execution? tick.workerId).isSome := by
    rw [InternalStepWorkerState.execution?, List.find?_isSome]
    exact ⟨y, hy, decide_eq_true hid⟩
  obtain ⟨x, hx⟩ := Option.isSome_iff_exists.1 hfind
  unfold processStepResultTick
  rw [hc]
  dsimp only
  rw [hx]
  dsimp only
  split
  · exact ⟨_, rfl⟩
  · obtain ⟨r, hr⟩ := resolve_ok cfg now hhow
      (fanOutScope σ tick.stepId x (tick.result.any StepFunctionResult.isFannedOut)).2
      fun hany => foldl_failed cfg runId q.2 tick
        (fanOutScope σ tick.stepId x (tick.result.any StepFunctionResult.isFannedOut)).2
        (tick.result.any StepFunctionResult.isResult)
        { state := (fanOutScope σ tick.stepId x (tick.result.any StepFunctionResult.isFannedOut)).1, execution := x }
        (Or.inl hany)
    rw [hr]
    exact ⟨_, rfl⟩

/-! ## Known work -/

/-- A step that is configured, and a payload, if any, of a configured binding. -/
def Known (cfg : BrokerConfig) : ItemCondition := fun n _ payload =>
  n ∈ cfg.steps.keys ∧ ∀ p, payload = some p → (cfg.collectionBindings.get? p.bindingId).isSome

theorem known_passed (cfg : BrokerConfig) : (Known cfg).Passed cfg where
  event n hn _ := ⟨hn, nofun⟩
  collect p b hb := by
    obtain ⟨c, hc, -⟩ := cfg.binding_target p.bindingId b hb
    refine ⟨List.mem_map.2 ⟨_, (cfg.steps.get?_eq_some_iff _ _).1 hc, rfl⟩, ?_⟩
    rintro p' ⟨⟩
    rw [hb]
    rfl
  restored _ _ _ h := h

/-- A tick with a payload of a configured binding, if any. -/
def TickKnown (cfg : BrokerConfig) : WorkflowTick → Prop
  | .addEvent t => ∀ p, t.collectionReleasePayload = some p → (cfg.collectionBindings.get? p.bindingId).isSome
  | _ => True

theorem processAddEventTick_ok (σ : BrokerState) (now : Time) {tick : TickAddEvent} (ht : TickKnown cfg (.addEvent tick)) :
    ∃ r, processAddEventTick cfg tick σ now = .ok r := by
  have hpayload := (PlainAux.identifyWorkItem_fields tick σ).2.2.2.2.2.2
  unfold processAddEventTick
  dsimp only
  split
  · case h_1 payload hp =>
    rw [hpayload] at hp
    obtain ⟨b, hb⟩ := Option.isSome_iff_exists.1 (ht payload hp)
    obtain ⟨c, hc, -⟩ := cfg.binding_target payload.bindingId b hb
    rw [redeliverCollectionPayload, hb]
    dsimp only
    rw [hc]
    exact ⟨_, rfl⟩
  · split <;> exact ⟨_, rfl⟩

/-! ## Runs -/

/-- A tick that can be reduced, if its slot is in progress. -/
def TickOk (cfg : BrokerConfig) (t : WorkflowTick) : Prop :=
  TickKnown cfg t ∧ ∀ r, t = .stepResult r → SaysHow r.result

theorem produced_ok (cfg : BrokerConfig) : ProducedTicks (TickOk cfg) where
  queued _ := ⟨nofun, nofun⟩
  message m := by cases m <;> exact ⟨by first | trivial | exact nofun, nofun⟩
  timer t ht := by cases t <;> cases ht <;> exact ⟨trivial, nofun⟩
  idle := ⟨trivial, nofun⟩

/-- What holds in every state of a run: the state holds work that the configuration knows, the ticks that wait are good, and
while the run goes on each result that waits has a slot of its own. -/
structure ReducerRun (cfg : BrokerConfig) (L : Loop) : Prop where
  known : L.state.Holds (Known cfg)
  ticks : L.TicksAre (TickOk cfg)
  brings : Loop.BringsNone L
  held : L.outcome = none → ∃ lost, L.SlotsHeld (fun _ => True) lost

theorem start_reducerRun (h : σ.Holds (Known cfg)) (e : Option Event) (now : Time) : ReducerRun cfg (Loop.start cfg σ e now) := by
  obtain ⟨hheld, hbrings⟩ := start_held (S := fun _ => True) cfg (σ := σ) (fun n _ => by
    by_cases hn : n ∈ cfg.steps.keys
    · exact Or.inl hn
    · exact Or.inr (List.eq_nil_iff_forall_not_mem.2 fun x hx => hn ((h n).executions x hx).1)) e now
  refine ⟨?_, ?_, hbrings, fun _ => ⟨_, hheld⟩⟩
  · exact start_holds h e now
  · refine CommandsAux.start_ticksAre (produced_ok cfg) ?_ e now
    intro t ht
    obtain ⟨q, -, ht⟩ := List.mem_flatMap.1 ht
    obtain ⟨y, hy, rfl⟩ := List.mem_map.1 ht
    have hy := (List.mem_insertionSort _).1 (List.mem_filter.1 hy).1
    exact ⟨((h q.1).waiters y hy).2, nofun⟩

/-- One action of the loop itself. -/
theorem step_reducerRun {L L' : Loop} {a : Action} (h : ReducerRun cfg L)
    (hadds : ∀ now, a = .drain now → L.tickBuffer.head?.all WorkflowTick.addsOnce) (hfinish : a.isFinish = false)
    (hstep : L.step cfg runId a = some L') : ReducerRun cfg L' := by
  refine ⟨?_, ?_, step_bringsNone h.brings hstep, ?_⟩
  · rcases CommandsAux.step_advance hstep with ⟨hstate, -, -⟩ | ⟨now, -, tick, rest, hb, cs, hr, -⟩
    · rw [hstate]
      exact h.known
    · exact reduceTick_holds (known_passed cfg) h.known hr
  · refine CommandsAux.step_ticksAre (produced_ok cfg) h.ticks ?_ hstep
    rintro i program failedAt w rfl
    cases hfinish
  · intro hout
    obtain ⟨lost, hheld⟩ := h.held (CommandsAux.outcome_of_step hstep)
    exact ⟨lost, step_held hheld h.brings hadds hfinish hstep hout⟩

/-- The end of a task. -/
theorem endTask_reducerRun {L L' : Loop} (h : ReducerRun cfg L) (hlive : L.outcome = none) {i : Nat} {body : StepBody}
    {t t' : Time} (hend : L.endTask cfg runId raises i body t t' = some L') : ReducerRun cfg L' := by
  obtain ⟨lost, hheld⟩ := h.held hlive
  obtain ⟨w, hw, rfl⟩ := Option.map_eq_some_iff.1 hend
  split
  · exact ⟨h.known, ⟨h.ticks.buffer, h.ticks.mailbox, h.ticks.wakeups⟩, ⟨h.brings.mailbox, h.brings.wakeups⟩,
      fun _ => ⟨_, taskLost_held hheld hw⟩⟩
  · case h_2 tick htick =>
    obtain ⟨hid, hworker⟩ := runWorker_ids htick
    have hbuffer : ∀ u ∈ L.tickBuffer ++ [.stepResult tick], TickOk cfg u := by
      intro u hu
      rcases List.mem_append.1 hu with hu | hu
      · exact h.ticks.buffer u hu
      · rw [List.mem_singleton.1 hu]
        refine ⟨trivial, ?_⟩
        rintro r ⟨⟩
        exact runWorker_saysHow htick
    refine ⟨h.known, ⟨hbuffer, h.ticks.mailbox, h.ticks.wakeups⟩, ⟨h.brings.mailbox, h.brings.wakeups⟩, fun _ => ?_⟩
    by_cases hstops : tick.result.any Loop.stops
    · refine ⟨fun n k => (slotsOf (L.workers.eraseIdx i) n).count k + lost n k,
        taskEnd_held hheld hw hid hworker (fun n k => ?_) rfl rfl⟩
      rw [Loop.tasksAt, if_pos hstops]
      exact Nat.zero_add _
    · refine ⟨lost, taskEnd_held hheld hw hid hworker (fun n k => ?_) rfl rfl⟩
      rw [Loop.tasksAt, if_neg hstops, slotsOf]

theorem stepSnapshots_reducerRun {L L' : Loop} {a : SnapshotAction} (h : ReducerRun cfg L) (ha : L.addsOnce a)
    (hstep : L.stepSnapshots cfg runId raises a = some L') : ReducerRun cfg L' := by
  cases a with
  | restore e now =>
    cases hstep
    exact start_reducerRun (fromSerialized_holds (known_passed cfg) h.known) e now
  | loop a =>
    rw [Loop.stepSnapshots] at hstep
    cases a with
    | loop a =>
      rw [Loop.stepTasks] at hstep
      split at hstep
      · cases hstep
      · case isFalse hfinish =>
        refine step_reducerRun h ?_ (by simpa using hfinish) hstep
        rintro now rfl
        exact ha
    | taskEnd i body t t' =>
      rw [Loop.stepTasks] at hstep
      split at hstep
      · case isTrue hlive =>
        rw [Bool.and_eq_true, Option.isNone_iff_eq_none] at hlive
        exact endTask_reducerRun h hlive.1 hstep
      · cases hstep

end ReducerAux

open ReducerAux

/-- The reducer never raises in a live run: in every state that a run from a fresh context or from snapshots of it reaches, the
first buffered tick is reduced. -/
theorem reducer_never_raises (cfg : BrokerConfig) (runId : Option String) (raises : PolicyErrors) (start : Option Event)
    (now : Time) {L : Loop}
    (hrun : Lib.Run (Loop.stepSnapshots cfg runId raises) (fun L a => L.addsOnce a) (Loop.start cfg {} start now) L)
    (hlive : L.outcome = none) {tick : WorkflowTick} {rest : List WorkflowTick} (hbuffer : L.tickBuffer = tick :: rest)
    (now' : Time) : ∃ r, reduceTick cfg tick L.state now' runId = .ok r := by
  have hinv : ReducerRun cfg L := hrun.invariant (ReducerRun cfg)
    (start_reducerRun (fun n => holds_empty (Known cfg) n) start now) fun _ _ _ hL ha hs => stepSnapshots_reducerRun hL ha hs
  obtain ⟨hknown, hhow⟩ := hinv.ticks.buffer tick (hbuffer ▸ List.mem_cons_self)
  unfold reduceTick
  cases tick with
  | stepResult t =>
    obtain ⟨lost, hheld⟩ := hinv.held hlive
    have hslot : t.workerId ∈ (L.state.workers t.stepId).slots := by
      have hcount := (hheld t.stepId trivial).1 t.workerId
      have hmem : t.workerId ∈ L.resultsAt t.stepId := by
        rw [Loop.resultsAt, hbuffer, List.filterMap_cons]
        simp [WorkflowTick.slotAt?]
      have hpos := List.count_pos_iff.2 hmem
      exact List.count_pos_iff.1 (by omega)
    obtain ⟨x, hx, -⟩ := List.mem_map.1 hslot
    obtain ⟨r, hr⟩ := processStepResultTick_ok now' runId
      ((hinv.known t.stepId).executions x hx).1 hslot (hhow t rfl)
    dsimp only
    rw [hr]
    exact ⟨_, rfl⟩
  | addEvent t =>
    obtain ⟨r, hr⟩ := processAddEventTick_ok L.state now' hknown
    dsimp only
    rw [hr]
    exact ⟨_, rfl⟩
  | _ => exact ⟨_, rfl⟩

namespace SlotLeaks

/-- Both executions of a worker that was started twice return, with an idle check in between. -/
def bothReturn : List TaskAction :=
  [.taskEnd 0 (.program (.ret .none)) 2 2, .loop (.drain 2), .loop (.drain 2), .taskEnd 0 (.program (.ret .none)) 3 3]

/-- Whether a run goes on and its first buffered tick names a slot that is not in progress. -/
def raises (L : Loop) : Bool :=
  L.outcome.isNone && match L.tickBuffer with
    | tick :: _ => match reduceTick workflow.config tick L.state 3 none with
      | .error e => decide (e = ⟨.valueError, "Worker 0 not found in in_progress"⟩)
      | .ok _ => false
    | [] => false

end SlotLeaks

open SlotLeaks in
/-- One execution adds four events to a collect buffer. Its worker is started twice, and the second result raises. -/
theorem reducer_never_raises_false : workflow.isValid ∧
    ∃ L, Lib.Run (Loop.stepSnapshots workflow.config none fun _ _ _ _ => none) (fun _ _ => True)
        (Loop.start workflow.config {} (some item) 0) L ∧ L.outcome = none ∧ ∃ tick rest, L.tickBuffer = tick :: rest ∧
          reduceTick workflow.config tick L.state 3 none = .error ⟨.valueError, "Worker 0 not found in in_progress"⟩ := by
  refine ⟨by decide, ?_⟩
  obtain ⟨L, hrun, hraises⟩ := Lib.Run.exists_of_actions (Loop.stepSnapshots workflow.config none fun _ _ _ _ => none)
    (Loop.start workflow.config {} (some item) 0) ((fourTimes ++ bothReturn).map SnapshotAction.loop) (SlotLeaks.raises ·)
    (by decide +kernel)
  rw [SlotLeaks.raises, Bool.and_eq_true, Option.isNone_iff_eq_none] at hraises
  obtain ⟨hlive, hraises⟩ := hraises
  refine ⟨L, hrun, hlive, ?_⟩
  split at hraises
  · case h_1 tick rest hb =>
    split at hraises
    · case h_1 e he => exact ⟨tick, rest, hb, he.trans (congrArg Except.error (of_decide_eq_true hraises))⟩
    · cases hraises
  · cases hraises

/-- Whether the result of an execution is all that is buffered. -/
def SlotLeaks.bringsOneResult : List WorkflowTick → Bool
  | [.stepResult _] => true
  | _ => false

open SlotLeaks in
/-- An execution is in progress when the run is restored from a snapshot, and its result is reduced. -/
theorem reducer_never_raises_restored : ∃ (L : Loop) (t : TickStepResult), L.tickBuffer = [.stepResult t] ∧
    ∃ r, reduceTick workflow.config (.stepResult t) L.state 3 none = .ok r := by
  obtain ⟨L, hrun, hlive, hcheck⟩ := Lib.Run.exists_of_exec (Loop.stepSnapshots workflow.config none fun _ _ _ _ => none)
    (fun L a => L.addsOnce a) (Loop.start workflow.config {} (some item) 0)
    [.loop (.loop (.drain 1)), .restore none 2, .loop (.taskEnd 0 (.program (adding 1)) 3 3)]
    (fun L => L.outcome = none ∧ bringsOneResult L.tickBuffer) (by decide +kernel)
  unfold bringsOneResult at hcheck
  split at hcheck
  · case h_1 t hb => exact ⟨L, t, hb, reducer_never_raises workflow.config none _ (some item) 0 hrun hlive hb 3⟩
  · cases hcheck

end LlamaAgents
