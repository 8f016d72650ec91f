import LlamaAgents.Lemmas.Commands

/-!
# The result of an execution keeps the books

For steps that only return or raise: what the results of an execution do to the state, one case per way it can end. The work
item is taken off its stream, and what it emitted, retried or handed to a handler is counted in its place.
-/

namespace LlamaAgents

open Lib (Dict)

/-- The results of an execution that only returned or raised. -/
inductive PlainResults : List StepFunctionResult → Prop
  | returned (es : List (Option Event)) (fanned : Bool) (h : es ≠ []) : PlainResults (es.map fun e => .result e fanned)
  | raised (f : StepWorkerFailed) : PlainResults [.failed f]

/-- A tick of a run whose steps only return or raise: a result of that kind, or an event in a scope that was opened. -/
def PlainTick (k : Nat) : WorkflowTick → Prop
  | .addEvent t => t.attempts = none ∧ t.collectionReleasePayload = none ∧ ScopeOk k t.scopePath
  | .stepResult t => PlainResults t.result
  | _ => True

theorem PlainTick.mono {k k' : Nat} (hk : k ≤ k') {t : WorkflowTick} (h : PlainTick k t) : PlainTick k' t := by
  cases t <;> first | exact h | exact ⟨h.1, h.2.1, h.2.2.mono hk⟩

namespace StepResultAux

open AccountingAux CommandsAux

variable (cfg : BrokerConfig) (now : Time) {σ : BrokerState} {r : BrokerState × List WorkflowCommand}

/-! ## What a body that returns or raises reports -/

theorem wrapReturn_plain {c : StepConfig} {n : StepId} {v : ReturnValue} {rs : List StepFunctionResult}
    (h : wrapReturn c n v = .ok rs) : PlainResults rs := by
  unfold wrapReturn at h
  split at h
  · cases h
    exact PlainResults.returned [none] false (by simp)
  · case h_2 e =>
    split at h
    · cases h
    · cases h
      exact PlainResults.returned [some e] false (by simp)
  · split at h
    · split at h
      · cases h
      · cases h
        exact PlainResults.returned [none] true (by simp)
      · case h_3 e es _ =>
        cases h
        have := PlainResults.returned ((e :: es).map some) true (by simp)
        simpa [Function.comp_def] using this
    · cases h
  · cases h

theorem plainResults_stamp {c : StepConfig} {n : StepId} {x : InProgressState} {runId : Option String}
    {rs : List StepFunctionResult} (h : PlainResults rs) : PlainResults (rs.map (stampRetryDecision c n x runId)) := by
  cases h with
  | returned es fanned hes =>
    have : (es.map fun e => StepFunctionResult.result e fanned).map (stampRetryDecision c n x runId) =
        es.map fun e => StepFunctionResult.result e fanned := by
      rw [List.map_map]
      exact List.map_congr_left fun e _ => rfl
    rw [this]
    exact PlainResults.returned es fanned hes
  | raised f =>
    rw [List.map_cons, List.map_nil, stampRetryDecision]
    split <;> exact PlainResults.raised _

/-- A step that only returns or raises reports plain results. -/
theorem stepWorker_plain (c : StepConfig) (n : StepId) (snapshot : StepWorkerState) {program : StepProgram}
    (hp : program.returnsOrRaises) (t : Time) : PlainResults (stepWorker c n snapshot program t) := by
  unfold stepWorker
  split
  · exact PlainResults.raised _
  · cases program with
    | ret v =>
      simp only [StepProgram.exec]
      cases hv : wrapReturn c n v with
      | ok rs => simpa using wrapReturn_plain hv
      | error e => exact PlainResults.raised _
    | raise e => exact PlainResults.raised _
    | collectEvents => simp [StepProgram.returnsOrRaises] at hp
    | waitForEvent => simp [StepProgram.returnsOrRaises] at hp

theorem workerTick_plain (runId : Option String) (L : Loop) (w : CommandRunWorker) {program : StepProgram}
    (hp : program.returnsOrRaises) (t : Time) : PlainResults (L.workerTick cfg runId w program t).result := by
  unfold Loop.workerTick
  dsimp only
  split
  · exact plainResults_stamp (stepWorker_plain _ _ _ hp t)
  · exact PlainResults.raised _

/-! ## Applying returned results -/

/-- The commands that a returned value is answered with. -/
def emits (scope : FanOutScope) (x : InProgressState) : Option Event → List WorkflowCommand
  | none => []
  | some e => (if e.isInstance .inputRequiredEvent then [.publishEvent e] else []) ++
      [.queueEvent { event := e, recoveryCounts := x.recoveryCounts, scopePath := scope.emitStack }]

/-- Whether a returned value is a stop event. -/
def isStopResult : Option Event → Bool
  | some e => e.isStop
  | none => false

variable (c : StepConfig) (tick : TickStepResult) (scope : FanOutScope) (runId : Option String)

/-- Without a stop event the state stays, and each returned event is queued. -/
theorem foldl_returned {es : List (Option Event)} (hes : ∀ e ∈ es, isStopResult e = false) (fanned : Bool)
    (acc : StepResultAcc) :
    let r := (es.map fun e => StepFunctionResult.result e fanned).foldl (applyStepResult cfg c tick scope true runId) acc
    r.state = acc.state ∧ r.execution = acc.execution ∧ r.commands = acc.commands ++ es.flatMap (emits scope acc.execution) ∧
      r.stepNoLongerInProgress = acc.stepNoLongerInProgress ∧ r.redeliveryScheduled = acc.redeliveryScheduled := by
  induction es generalizing acc with
  | nil => simp
  | cons e es ih =>
    have hes' : ∀ e ∈ es, isStopResult e = false := fun e' he' => hes e' (List.mem_cons_of_mem e he')
    have he := hes e List.mem_cons_self
    cases e with
    | none =>
      have := ih hes' { acc with outputEventName := some "<class 'NoneType'>" }
      simpa [applyStepResult, emits] using this
    | some e =>
      have he : e.isStop = false := he
      have := ih hes' (applyStepResult cfg c tick scope true runId acc (.result (some e) fanned))
      simp only [applyStepResult, he, Bool.false_eq_true, if_false] at this
      simpa [applyStepResult, he, emits, List.append_assoc] using this

/-- One returned value: a stop event clears the state and ends the run, any other one leaves the state. -/
theorem applyStepResult_result (e : Option Event) (fanned : Bool) (acc : StepResultAcc) :
    let r := applyStepResult cfg c tick scope true runId acc (.result e fanned)
    r.state = (if isStopResult e then stopped acc.state else acc.state) ∧
      (isStopResult e → ∃ d ∈ r.commands, d.indicatesExit) ∧ (∀ d ∈ acc.commands, d ∈ r.commands) ∧
      r.stepNoLongerInProgress = acc.stepNoLongerInProgress := by
  cases e with
  | none => simp [applyStepResult, isStopResult]
  | some e =>
    by_cases he : e.isStop
    · simp only [applyStepResult, isStopResult, he, if_true, List.mem_append, List.mem_cons, true_implies]
      exact ⟨trivial, ⟨.completeRun e, by simp, rfl⟩, fun d hd => Or.inl hd, trivial⟩
    · simp only [applyStepResult, isStopResult, he, Bool.false_eq_true, if_false, false_implies, List.mem_append, true_and]
      exact ⟨fun d hd => Or.inl (Or.inl hd), trivial⟩

/-- Nothing that follows a stop event changes the state or keeps the run going. -/
theorem foldl_after_stop (es : List (Option Event)) (fanned : Bool) (acc : StepResultAcc)
    (hσ : acc.state = stopped σ) (hx : ∃ d ∈ acc.commands, d.indicatesExit) :
    let r := (es.map fun e => StepFunctionResult.result e fanned).foldl (applyStepResult cfg c tick scope true runId) acc
    r.state = stopped σ ∧ (∃ d ∈ r.commands, d.indicatesExit) ∧ r.stepNoLongerInProgress = acc.stepNoLongerInProgress := by
  induction es generalizing acc with
  | nil => exact ⟨hσ, hx, rfl⟩
  | cons e es ih =>
    obtain ⟨h₁, -, h₃, h₄⟩ := applyStepResult_result cfg c tick scope runId e fanned acc
    obtain ⟨d, hd, hx⟩ := hx
    have hstate : (applyStepResult cfg c tick scope true runId acc (.result e fanned)).state = stopped σ := by
      rw [h₁, hσ]
      split <;> rfl
    obtain ⟨g₁, g₂, g₃⟩ := ih _ hstate ⟨d, h₃ d hd, hx⟩
    exact ⟨g₁, g₂, g₃.trans h₄⟩

/-- After a stop event nothing is left, and the run is to end. -/
theorem foldl_stopped {es : List (Option Event)} (hes : ∃ e ∈ es, isStopResult e) (fanned : Bool) (acc : StepResultAcc) :
    let r := (es.map fun e => StepFunctionResult.result e fanned).foldl (applyStepResult cfg c tick scope true runId) acc
    r.state = stopped acc.state ∧ (∃ d ∈ r.commands, d.indicatesExit) ∧
      r.stepNoLongerInProgress = acc.stepNoLongerInProgress := by
  induction es generalizing acc with
  | nil => simp at hes
  | cons e es ih =>
    obtain ⟨h₁, h₂, -, h₄⟩ := applyStepResult_result cfg c tick scope runId e fanned acc
    by_cases he : isStopResult e
    · rw [if_pos he] at h₁
      obtain ⟨g₁, g₂, g₃⟩ := foldl_after_stop cfg c tick scope runId es fanned _ h₁ (h₂ he)
      exact ⟨g₁, g₂, g₃.trans h₄⟩
    · rw [if_neg he] at h₁
      have hes' : ∃ e ∈ es, isStopResult e := by
        obtain ⟨e', he', hs⟩ := hes
        rcases List.mem_cons.1 he' with rfl | he'
        · exact absurd hs he
        · exact ⟨e', he', hs⟩
      obtain ⟨g₁, g₂, g₃⟩ := ih hes' (applyStepResult cfg c tick scope true runId acc (.result e fanned))
      exact ⟨by rw [← h₁]; exact g₁, g₂, g₃.trans h₄⟩

/-! ## The commands -/

/-- The tick that an emitted event becomes. -/
def emittedTick (scope : ScopePath) (x : InProgressState) (e : Event) : WorkflowTick :=
  .addEvent { event := e, recoveryCounts := x.recoveryCounts, scopePath := scope }

/-- The returned events. -/
def returnedEvents (es : List (Option Event)) : List Event := es.filterMap id

theorem newTicks_emits (scope : FanOutScope) (x : InProgressState) (es : List (Option Event)) :
    newTicks (es.flatMap (emits scope x)) = (returnedEvents es).map (emittedTick scope.emitStack x) := by
  induction es with
  | nil => rfl
  | cons e es ih =>
    rw [List.flatMap_cons, newTicks_append, ih]
    cases e with
    | none => rfl
    | some e =>
      simp only [emits, newTicks_append, returnedEvents, List.filterMap_cons_some (f := id) rfl, List.map_cons]
      split <;> rfl

theorem emits_no_exit (scope : FanOutScope) (x : InProgressState) (es : List (Option Event)) :
    ∀ d ∈ es.flatMap (emits scope x), d.indicatesExit = false := by
  intro d hd
  obtain ⟨e, -, hd⟩ := List.mem_flatMap.1 hd
  cases e with
  | none => simp [emits] at hd
  | some e =>
    simp only [emits, List.mem_append, List.mem_singleton] at hd
    rcases hd with hd | rfl
    · split at hd
      · rw [List.mem_singleton] at hd
        exact hd ▸ rfl
      · simp at hd
    · rfl

/-! ## The cases of a result -/

/-- An execution's end: it leaves its worker, and queued work takes the free slot. -/
def endExecution (n : StepId) (x : InProgressState) (σ : BrokerState) : BrokerState :=
  let σ := σ.setWorker n ((σ.workers n).eraseExecution x.workerId)
  σ.setWorker n (drainEligibleQueue c n now (σ.workers n)).1

/-- The work items that returned events become. -/
def successors (es : List (Option Event)) : Nat := ((returnedEvents es).map fun e => countAcceptingSteps cfg e.type).sum

/-- The stream that an execution opens by returning a list. -/
def openedStream (σ : BrokerState) (n : StepId) (x : InProgressState) : StreamId := .mk x.scopePath n σ.streamSeq

/-- The scope of an execution that returned a list. -/
def openedScope (σ : BrokerState) (n : StepId) (x : InProgressState) : FanOutScope :=
  ⟨x.scopePath, true, some (openedStream σ n x), x.scopePath ++ [openedStream σ n x]⟩

/-- What a plain result does: the execution returned a stop event, returned events, opened a stream, is retried, is routed to
a handler, or fails the run. -/
inductive PlainEffect (n : StepId) (x : InProgressState) (results : List StepFunctionResult) (σ : BrokerState) :
    BrokerState × List WorkflowCommand → Prop
  | stopped (r : BrokerState × List WorkflowCommand) (hs : r.1.streams = ∅) (hl : r.1.log = σ.log)
      (hx : ∃ d ∈ r.2, d.indicatesExit) : PlainEffect n x results σ r
  | completed (es : List (Option Event)) (cs : List WorkflowCommand) (hx : ∀ d ∈ cs, d.indicatesExit = false)
      (ht : newTicks cs = (returnedEvents es).map (emittedTick x.scopePath x)) :
      PlainEffect n x results σ
        (endExecution now c n x (adjustOpenWorkItems cfg x.scopePath.getLast? (successors cfg es - 1) now σ).1, cs)
  | fannedOut (es : List (Option Event)) (cs : List WorkflowCommand) (hx : ∀ d ∈ cs, d.indicatesExit = false)
      (ht : newTicks cs = (returnedEvents es).map (emittedTick (x.scopePath ++ [openedStream σ n x]) x)) :
      PlainEffect n x results σ
        (endExecution now c n x (openChildStream cfg n (openedScope σ n x) (openedStream σ n x) (successors cfg es) x now
          { σ with streamSeq := σ.streamSeq + 1 }).1, cs)
  | retried (f : StepWorkerFailed) (first : Time) (notBefore : Option Time) (cs : List WorkflowCommand)
      (hx : ∀ d ∈ cs, d.indicatesExit = false) (ht : newTicks cs = []) :
      PlainEffect n x results σ
        (endExecution now c n x
          (σ.setWorker n { σ.workers n with queue := x.retried f first notBefore :: (σ.workers n).queue }), cs)
  | routed (h : CatchErrorHandler) (key : StepId) (hh : cfg.catchErrorHandlers.get? key = some h)
      (d : CommandQueueEvent) (hd : d.event.type = .stepFailedEvent ∧ d.stepId = some h.stepName ∧ d.scopePath = x.scopePath)
      (cs : List WorkflowCommand) (hx : ∀ d ∈ cs, d.indicatesExit = false) (ht : newTicks cs = [.addEvent d.tick]) :
      PlainEffect n x results σ (endExecution now c n x σ, cs)
  | failed (f : StepWorkerFailed) (hf : .failed f ∈ results) (e e' : Event) :
      PlainEffect n x results σ
        (({ σ with isRunning := false } : BrokerState).setWorker n ((σ.workers n).eraseExecution x.workerId),
          [.publishEvent e, .publishEvent e', .failWorkflow n f.exception])

/-- The end of an execution that does not end the run. -/
theorem finishExecution_of_no_exit (acc : StepResultAcc) (hf : acc.stepNoLongerInProgress = true)
    (hx : ∀ d ∈ acc.commands, d.indicatesExit = false) :
    ∃ cs, finishExecution c tick acc now = (endExecution now c tick.stepId acc.execution acc.state, cs) ∧
      (∀ d ∈ cs, d.indicatesExit = false) ∧ newTicks cs = newTicks acc.commands := by
  have hany : acc.commands.any WorkflowCommand.indicatesExit = false := by
    rw [List.any_eq_false]
    exact fun d hd => by simp [hx d hd]
  refine ⟨_, by simp only [finishExecution, hf, hany, if_true]; rfl, ?_, ?_⟩
  · intro d hd
    rcases List.mem_append.1 hd with hd | hd
    · rcases List.mem_cons.1 hd with rfl | hd
      · rfl
      · exact hx d hd
    · simpa using WorkflowCommand.not_exit_of_isDispatch (FrameAux.drainEligibleQueue_commands now c _ _ d hd)
  · rw [newTicks_append, newTicks_of_no_queue fun d hd =>
      WorkflowCommand.not_isQueueEvent_of_isDispatch (FrameAux.drainEligibleQueue_commands now c _ _ d hd), List.append_nil]
    rfl

/-- The end of an execution that ends the run. -/
theorem finishExecution_of_exit (acc : StepResultAcc) (hf : acc.stepNoLongerInProgress = true)
    (hx : ∃ d ∈ acc.commands, d.indicatesExit) :
    ∃ e, finishExecution c tick acc now =
      (acc.state.setWorker tick.stepId ((acc.state.workers tick.stepId).eraseExecution acc.execution.workerId),
        .publishEvent e :: acc.commands) := by
  have hany : acc.commands.any WorkflowCommand.indicatesExit = true := by
    rw [List.any_eq_true]
    exact hx
  exact ⟨_, by simp only [finishExecution, hf, hany, if_true]; rfl⟩

/-- Nothing of the stream bookkeeping ends the run or queues an event. -/
theorem newTicks_of_frame (h : Frame σ r) : newTicks r.2 = [] ∧ ∀ d ∈ r.2, d.indicatesExit = false :=
  ⟨newTicks_of_no_queue fun d hd => WorkflowCommand.not_isQueueEvent_of_isDispatch (h.commands d hd),
    fun d hd => by simpa using WorkflowCommand.not_exit_of_isDispatch (h.commands d hd)⟩

/-- The classification of an execution that returned. -/
theorem resolve_returned {es : List (Option Event)} {fanned : Bool} (hne : es ≠ [])
    (htick : tick.result = es.map fun e => .result e fanned) {acc : StepResultAcc}
    (hf : acc.stepNoLongerInProgress = true) (hx : ∀ d ∈ acc.commands, d.indicatesExit = false)
    (hes : ∀ e ∈ es, isStopResult e = false) (hscope : scope.fannedOut = fanned) :
    resolveWorkItemInStream cfg tick scope acc now =
      if fanned then
        match scope.fanOutStreamId with
        | some s => .ok (openChildStream cfg tick.stepId scope s (successors cfg es) acc.execution now acc.state)
        | none => .ok (acc.state, [])
      else .ok (adjustOpenWorkItems cfg scope.triggerStack.getLast? (successors cfg es - 1) now acc.state) := by
  have hany : acc.commands.any WorkflowCommand.indicatesExit = false := by
    rw [List.any_eq_false]
    exact fun d hd => by simp [hx d hd]
  have hfail : tick.result.any StepFunctionResult.isFailed = false := by
    rw [htick, List.any_map, List.any_eq_false]
    exact fun e _ => by simp [StepFunctionResult.isFailed]
  have hres : tick.result.any StepFunctionResult.isResult = true := by
    obtain ⟨e, es', rfl⟩ := List.exists_cons_of_ne_nil hne
    simp [htick, StepFunctionResult.isResult]
  have hem : tick.result.filterMap StepFunctionResult.emittedNonStop = returnedEvents es := by
    rw [htick, List.filterMap_map, returnedEvents]
    refine List.filterMap_congr fun e he => ?_
    have := hes e he
    cases e with
    | none => rfl
    | some e =>
      have : e.isStop = false := this
      simp [StepFunctionResult.emittedNonStop, this]
  have hclass : classifyWorkItem tick acc.commands (!acc.stepNoLongerInProgress) acc.redeliveryScheduled scope.fannedOut =
      .ok (if fanned then .fannedOut else .completed) := by
    simp [classifyWorkItem, hany, hf, hfail, hres, hscope]
  simp only [resolveWorkItemInStream, hclass, hem]
  cases fanned <;> rfl

/-- What a failure does: it is retried, routed to a handler, or fails the run. -/
theorem scheduleRetryOrRouteFailure_cases (f : StepWorkerFailed) (acc : StepResultAcc) :
    let r := scheduleRetryOrRouteFailure cfg c tick runId f acc
    ((f.retryDelay c tick.stepId runId acc.execution).isSome ∧ ∃ notBefore, r =
      ⟨acc.state.setWorker tick.stepId { acc.state.workers tick.stepId with
          queue := acc.execution.retried f (f.firstAttempt acc.execution) notBefore :: (acc.state.workers tick.stepId).queue },
        acc.execution, acc.commands ++ (notBefore.map WorkflowCommand.scheduleWakeup).toList, acc.outputEventName,
        acc.stepNoLongerInProgress, true⟩) ∨
    (f.retryDelay c tick.stepId runId acc.execution = none ∧ ∃ key h d, cfg.catchErrorHandlers.get? key = some h ∧
      (d.event.type = .stepFailedEvent ∧ d.stepId = some h.stepName ∧ d.scopePath = acc.execution.scopePath) ∧
      r = ⟨acc.state, acc.execution, acc.commands ++ [.queueEvent d], acc.outputEventName, acc.stepNoLongerInProgress, true⟩) ∨
    (f.retryDelay c tick.stepId runId acc.execution = none ∧ ∃ e, r =
      ⟨{ acc.state with isRunning := false }, acc.execution,
        acc.commands ++ [.publishEvent e, .failWorkflow tick.stepId f.exception], acc.outputEventName,
        acc.stepNoLongerInProgress, acc.redeliveryScheduled⟩) := by
  unfold scheduleRetryOrRouteFailure
  dsimp only
  split
  · case h_1 hdelay => exact Or.inl ⟨by rw [hdelay]; rfl, _, rfl⟩
  · case h_2 hdelay =>
    split
    · case h_1 h _ hh =>
      obtain ⟨h', hh', heq⟩ := Option.bind_eq_some_iff.1 hh
      obtain ⟨key, -, hkey⟩ := Option.bind_eq_some_iff.1 hh'
      dsimp only at heq
      split at heq
      · cases heq
        exact Or.inr (Or.inl ⟨hdelay, key, h, _, hkey, ⟨rfl, rfl, rfl⟩, rfl⟩)
      · cases heq
    · exact Or.inr (Or.inr ⟨hdelay, _, rfl⟩)

/-- A failed execution that is delivered again stays alive, and one that fails the run ends it: its stream is left. -/
theorem resolve_raised {f : StepWorkerFailed} (htick : tick.result = [.failed f]) {acc : StepResultAcc}
    (hf : acc.stepNoLongerInProgress = true)
    (h : acc.redeliveryScheduled = true ∨ ∃ d ∈ acc.commands, d.indicatesExit) :
    resolveWorkItemInStream cfg tick scope acc now = .ok (acc.state, []) := by
  have hclass : classifyWorkItem tick acc.commands (!acc.stepNoLongerInProgress) acc.redeliveryScheduled scope.fannedOut =
      .ok .runEnding ∨ classifyWorkItem tick acc.commands (!acc.stepNoLongerInProgress) acc.redeliveryScheduled
      scope.fannedOut = .ok .stillLive := by
    unfold classifyWorkItem
    split
    · exact Or.inl rfl
    · case isFalse hany =>
      refine Or.inr ?_
      rcases h with h | h
      · simp [hf, htick, StepFunctionResult.isFailed, h]
      · exact absurd (List.any_eq_true.2 h) hany
  rcases hclass with h | h <;> simp only [resolveWorkItemInStream, h]

/-- The reduction of a result, once its execution is found and its snapshot is current. -/
def reduceResult (x : InProgressState) (σ : BrokerState) : Except Exn (BrokerState × List WorkflowCommand) :=
  let started := fanOutScope σ tick.stepId x (tick.result.any StepFunctionResult.isFannedOut)
  let acc := tick.result.foldl (applyStepResult cfg c tick started.2 (tick.result.any StepFunctionResult.isResult) runId)
    { state := started.1, execution := x }
  match resolveWorkItemInStream cfg tick started.2 acc now with
  | .error e => .error e
  | .ok resolved => .ok (finishExecution c tick { acc with state := resolved.1, commands := acc.commands ++ resolved.2 } now)

/-- An execution that returned. -/
theorem reduceResult_returned {es : List (Option Event)} {fanned : Bool} (hne : es ≠ [])
    (htick : tick.result = es.map fun e => .result e fanned) {x : InProgressState}
    (h : reduceResult cfg now c tick runId x σ = .ok r) : PlainEffect cfg now c tick.stepId x tick.result σ r := by
  have hfan : tick.result.any StepFunctionResult.isFannedOut = fanned := by
    obtain ⟨e, es', rfl⟩ := List.exists_cons_of_ne_nil hne
    cases fanned <;> simp [htick, StepFunctionResult.isFannedOut]
  have hres : tick.result.any StepFunctionResult.isResult = true := by
    obtain ⟨e, es', rfl⟩ := List.exists_cons_of_ne_nil hne
    simp [htick, StepFunctionResult.isResult]
  simp only [reduceResult, hfan, hres] at h
  by_cases hstop : ∃ e ∈ es, isStopResult e
  · obtain ⟨h₁, h₂, h₃⟩ := foldl_stopped cfg c tick (fanOutScope σ tick.stepId x fanned).2 runId hstop fanned
      { state := (fanOutScope σ tick.stepId x fanned).1, execution := x }
    rw [← htick] at h₁ h₂ h₃
    generalize tick.result.foldl _ _ = acc at h h₁ h₂ h₃
    have hresolve : resolveWorkItemInStream cfg tick (fanOutScope σ tick.stepId x fanned).2 acc now =
        .ok (acc.state, []) := by
      simp [resolveWorkItemInStream, classifyWorkItem, List.any_eq_true.2 h₂]
    simp only [hresolve, List.append_nil] at h
    obtain ⟨e, he⟩ := finishExecution_of_exit now c tick acc h₃ h₂
    rw [he] at h
    cases h
    refine PlainEffect.stopped _ ?_ ?_ ?_
    · simp [h₁, stopped, clearCollectionState]
    · have : (fanOutScope σ tick.stepId x fanned).1.log = σ.log := by
        unfold fanOutScope
        split <;> rfl
      simpa [h₁, stopped, clearCollectionState] using this
    · obtain ⟨d, hd, hx⟩ := h₂
      exact ⟨d, List.mem_cons_of_mem _ hd, hx⟩
  · have hes : ∀ e ∈ es, isStopResult e = false := fun e he => by
      simpa using fun hs => hstop ⟨e, he, hs⟩
    obtain ⟨h₁, h₂, h₃, h₄, -⟩ := foldl_returned cfg c tick (fanOutScope σ tick.stepId x fanned).2 runId hes fanned
      { state := (fanOutScope σ tick.stepId x fanned).1, execution := x }
    rw [← htick] at h₁ h₂ h₃ h₄
    generalize tick.result.foldl _ _ = acc at h h₁ h₂ h₃ h₄
    simp only [List.nil_append] at h₃
    have hx : ∀ d ∈ acc.commands, d.indicatesExit = false := h₃ ▸ emits_no_exit _ x es
    have hresolve := resolve_returned cfg now tick (fanOutScope σ tick.stepId x fanned).2 hne htick h₄ hx hes
      (by unfold fanOutScope; cases fanned <;> rfl)
    rw [hresolve] at h
    cases fanned with
    | false =>
      simp only [Bool.false_eq_true, if_false] at h
      obtain ⟨ht, hx'⟩ := newTicks_of_frame (Serves.adjust cfg now
        (fanOutScope σ tick.stepId x false).2.triggerStack.getLast? (successors cfg es - 1) acc.state).frame
      obtain ⟨cs, hcs, hcx, hct⟩ := finishExecution_of_no_exit now c tick { acc with
        state := (adjustOpenWorkItems cfg (fanOutScope σ tick.stepId x false).2.triggerStack.getLast?
          (successors cfg es - 1) now acc.state).1
        commands := acc.commands ++ (adjustOpenWorkItems cfg (fanOutScope σ tick.stepId x false).2.triggerStack.getLast?
          (successors cfg es - 1) now acc.state).2 } h₄ fun d hd => (List.mem_append.1 hd).elim (hx d) (hx' d)
      rw [hcs] at h
      cases h
      rw [h₁, h₂]
      refine PlainEffect.completed es cs hcx ?_
      rw [hct, newTicks_append, ht, List.append_nil, h₃, newTicks_emits]
      rfl
    | true =>
      simp only [if_true] at h
      have hid : (fanOutScope σ tick.stepId x true).2.fanOutStreamId = some (openedStream σ tick.stepId x) := rfl
      have hscope : (fanOutScope σ tick.stepId x true).2 = openedScope σ tick.stepId x := rfl
      rw [hid] at h
      dsimp only at h
      obtain ⟨ht, hx'⟩ := newTicks_of_frame (Serves.openChild cfg now tick.stepId (fanOutScope σ tick.stepId x true).2
        (openedStream σ tick.stepId x) (successors cfg es) acc.execution acc.state).frame
      obtain ⟨cs, hcs, hcx, hct⟩ := finishExecution_of_no_exit now c tick { acc with
        state := (openChildStream cfg tick.stepId (fanOutScope σ tick.stepId x true).2 (openedStream σ tick.stepId x)
          (successors cfg es) acc.execution now acc.state).1
        commands := acc.commands ++ (openChildStream cfg tick.stepId (fanOutScope σ tick.stepId x true).2
          (openedStream σ tick.stepId x) (successors cfg es) acc.execution now acc.state).2 } h₄
        fun d hd => (List.mem_append.1 hd).elim (hx d) (hx' d)
      rw [hcs] at h
      cases h
      rw [h₁, h₂]
      refine PlainEffect.fannedOut es cs hcx ?_
      rw [hct, newTicks_append, ht, List.append_nil, h₃, newTicks_emits]
      rfl

/-- An execution that raised. -/
theorem reduceResult_raised {f : StepWorkerFailed} (htick : tick.result = [.failed f]) {x : InProgressState}
    (h : reduceResult cfg now c tick runId x σ = .ok r) : PlainEffect cfg now c tick.stepId x tick.result σ r := by
  have hfan : tick.result.any StepFunctionResult.isFannedOut = false := by simp [htick, StepFunctionResult.isFannedOut]
  simp only [reduceResult, hfan] at h
  simp only [htick, List.foldl_cons, List.foldl_nil, applyStepResult] at h
  have hstart : (fanOutScope σ tick.stepId x false).1 = σ := rfl
  rw [hstart] at h
  rcases scheduleRetryOrRouteFailure_cases cfg c tick runId f { state := σ, execution := x } with
    ⟨-, notBefore, hr⟩ | ⟨-, key, hd, d, hkey, hd', hr⟩ | ⟨-, e, hr⟩ <;> simp only [List.nil_append] at hr
  · rw [hr, resolve_raised cfg now tick _ htick rfl (Or.inl rfl)] at h
    simp only [List.append_nil] at h
    obtain ⟨cs, hcs, hcx, hct⟩ := finishExecution_of_no_exit now c tick ⟨σ.setWorker tick.stepId
        { σ.workers tick.stepId with queue := x.retried f (f.firstAttempt x) notBefore :: (σ.workers tick.stepId).queue },
        x, (notBefore.map WorkflowCommand.scheduleWakeup).toList, none, true, true⟩ rfl
      (by cases notBefore <;> simp [WorkflowCommand.indicatesExit])
    rw [hcs] at h
    cases h
    refine PlainEffect.retried f (f.firstAttempt x) notBefore cs hcx ?_
    rw [hct]
    cases notBefore <;> rfl
  · rw [hr, resolve_raised cfg now tick _ htick rfl (Or.inl rfl)] at h
    simp only [List.append_nil] at h
    obtain ⟨cs, hcs, hcx, hct⟩ := finishExecution_of_no_exit now c tick ⟨σ, x, [.queueEvent d], none, true, true⟩ rfl
      (by simp [WorkflowCommand.indicatesExit])
    rw [hcs] at h
    cases h
    exact PlainEffect.routed hd key hkey d hd' cs hcx hct
  · have hexit : ∃ d ∈ [WorkflowCommand.publishEvent e, .failWorkflow tick.stepId f.exception], d.indicatesExit :=
      ⟨_, List.mem_cons_of_mem _ List.mem_cons_self, rfl⟩
    rw [hr, resolve_raised cfg now tick _ htick rfl (Or.inr hexit)] at h
    simp only [List.append_nil] at h
    obtain ⟨e', he'⟩ := finishExecution_of_exit now c tick ⟨{ σ with isRunning := false }, x, _, none, true, false⟩
      rfl hexit
    rw [he'] at h
    cases h
    exact PlainEffect.failed f (by simp [htick]) e' e

theorem not_stale_of_plain {rs : List StepFunctionResult} (h : PlainResults rs) (w : InternalStepWorkerState)
    (x : InProgressState) : rs.any (staleFiring w x) = false := by
  cases h with
  | returned es fanned _ => simp [List.any_map, staleFiring]
  | raised f => simp [staleFiring]

variable {cfg now runId}

/-- What the result of an execution that only returned or raised does. -/
theorem processStepResultTick_plain {tick : TickStepResult}
    (hp : PlainResults tick.result) (h : processStepResultTick cfg tick σ now runId = .ok r) :
    ∃ c x, cfg.steps.get? tick.stepId = some c ∧ (σ.workers tick.stepId).execution? tick.workerId = some x ∧
      PlainEffect cfg now c tick.stepId x tick.result σ r := by
  unfold processStepResultTick at h
  split at h
  · cases h
  · case h_2 c hc =>
    dsimp only at h
    split at h
    · cases h
    · case h_2 x hx =>
      simp only [rerunForStaleCollectBuffer, not_stale_of_plain hp, Bool.false_eq_true, if_false] at h
      refine ⟨c, x, hc, hx, ?_⟩
      generalize htick : tick.result = rs at hp
      cases hp with
      | returned es fanned hne => exact htick ▸ reduceResult_returned cfg now c tick runId hne htick h
      | raised f => exact htick ▸ reduceResult_raised cfg now c tick runId htick h

end StepResultAux

end LlamaAgents
