import LlamaAgents.Lemmas.Work

/-!
# What dispatch and stream bookkeeping leave alone

Firing a release, closing a stream and adjusting a counter start work and change streams; they touch nothing else. `Frame`
says once what stays, and each function of the stream bookkeeping is shown to be one.
-/

namespace LlamaAgents

/-- A command that starts a worker or publishes the state of a step. -/
def WorkflowCommand.isDispatch : WorkflowCommand → Bool
  | .runWorker _ => true
  | .publishEvent e => e.type = .stepStateChanged
  | _ => false

/-- Starting work never ends a run. -/
theorem WorkflowCommand.not_exit_of_isDispatch {c : WorkflowCommand} (h : c.isDispatch) : ¬ c.indicatesExit := by
  cases c <;> simp_all [isDispatch, indicatesExit]

/-- A worker state with more work, and everything else as before. -/
structure WorkerFrame (w w' : InternalStepWorkerState) : Prop where
  waiters : w'.collectedWaiters = w.collectedWaiters
  collected : w'.collectedEvents = w.collectedEvents
  static : w'.staticCollectEvents = w.staticCollectEvents
  executions : w.inProgress <+: w'.inProgress

/-- A state with more work, other streams and release states, and everything else as before; the commands only start workers
and publish events. -/
structure Frame (σ : BrokerState) (r : BrokerState × List WorkflowCommand) : Prop where
  workers : ∀ n, WorkerFrame (σ.workers n) (r.1.workers n)
  streamSeq : r.1.streamSeq = σ.streamSeq
  workItemSeq : r.1.workItemSeq = σ.workItemSeq
  isRunning : r.1.isRunning = σ.isRunning
  commands : ∀ c ∈ r.2, c.isDispatch

theorem WorkerFrame.refl (w : InternalStepWorkerState) : WorkerFrame w w := ⟨rfl, rfl, rfl, List.prefix_rfl⟩

/-- What two steps in a row leave alone. -/
theorem WorkerFrame.trans {w w' w'' : InternalStepWorkerState} (h : WorkerFrame w w') (h' : WorkerFrame w' w'') :
    WorkerFrame w w'' :=
  ⟨h'.waiters.trans h.waiters, h'.collected.trans h.collected, h'.static.trans h.static, h.executions.trans h'.executions⟩

/-- An execution is still there after a frame. -/
theorem WorkerFrame.execution {w w' : InternalStepWorkerState} (h : WorkerFrame w w') {id : Nat} {x : InProgressState}
    (hx : w.execution? id = some x) : w'.execution? id = some x := by
  obtain ⟨l, hl⟩ := h.executions
  rw [InternalStepWorkerState.execution?, ← hl, List.find?_append, ← InternalStepWorkerState.execution?, hx]
  rfl

namespace Frame

/-- A state that differs from another in its streams, release states and log only is a frame of it. -/
theorem of_workers {σ σ' : BrokerState} (hw : σ'.workers = σ.workers) (hs : σ'.streamSeq = σ.streamSeq)
    (hi : σ'.workItemSeq = σ.workItemSeq) (hr : σ'.isRunning = σ.isRunning) : Frame σ (σ', []) :=
  ⟨fun n => by simp only [hw]; exact WorkerFrame.refl _, hs, hi, hr, by simp⟩

/-- Frames compose, and their commands are appended. -/
theorem trans {σ : BrokerState} {r r' : BrokerState × List WorkflowCommand} (h : Frame σ r) (h' : Frame r.1 r') :
    Frame σ (r'.1, r.2 ++ r'.2) where
  workers n := (h.workers n).trans (h'.workers n)
  streamSeq := h'.streamSeq.trans h.streamSeq
  workItemSeq := h'.workItemSeq.trans h.workItemSeq
  isRunning := h'.isRunning.trans h.isRunning
  commands c hc := (List.mem_append.1 hc).elim (h.commands c) (h'.commands c)

end Frame

namespace FrameAux

variable (cfg : BrokerConfig) (now : Time)

/-- An added attempt is started or queued, and nothing else of the worker changes. -/
theorem addOrEnqueueEvent_frame (c : StepConfig) (n : StepId) (a : EventAttempt) (w : InternalStepWorkerState) :
    WorkerFrame w (addOrEnqueueEvent c n a now w).1 := by
  unfold addOrEnqueueEvent
  split
  · exact ⟨rfl, rfl, rfl, List.prefix_append _ _⟩
  · exact ⟨rfl, rfl, rfl, List.prefix_rfl⟩

/-- The commands of an added attempt start or report it. -/
theorem addOrEnqueueEvent_commands (c : StepConfig) (n : StepId) (a : EventAttempt) (w : InternalStepWorkerState) :
    ∀ d ∈ (addOrEnqueueEvent c n a now w).2, d.isDispatch := by
  unfold addOrEnqueueEvent
  split <;> simp [WorkflowCommand.isDispatch, Event.stepStateChanged]

/-- Filling slots from the queue only adds executions, with the commands to start them. -/
theorem drainSlots_frame (c : StepConfig) (n : StepId) (k : Nat) (w : InternalStepWorkerState) :
    WorkerFrame w (drainSlots c n now k w).1 ∧ ∀ d ∈ (drainSlots c n now k w).2, d.isDispatch := by
  induction k generalizing w with
  | zero => exact ⟨WorkerFrame.refl w, by simp [drainSlots]⟩
  | succ k ih =>
    rw [drainSlots]
    cases popEligible w.queue with
    | none => exact ⟨WorkerFrame.refl w, by simp⟩
    | some r =>
      have hadd := addOrEnqueueEvent_frame now c n r.1 { w with queue := r.2 }
      obtain ⟨hf, hc⟩ := ih (addOrEnqueueEvent c n r.1 now { w with queue := r.2 }).1
      refine ⟨WorkerFrame.trans ⟨hadd.waiters, hadd.collected, hadd.static, hadd.executions⟩ hf, ?_⟩
      intro d hd
      exact (List.mem_append.1 hd).elim (addOrEnqueueEvent_commands now c n r.1 _ d) (hc d)

theorem drainEligibleQueue_frame (c : StepConfig) (n : StepId) (w : InternalStepWorkerState) :
    WorkerFrame w (drainEligibleQueue c n now w).1 := (drainSlots_frame now c n _ w).1

/-- The commands of a drained queue start or report attempts. -/
theorem drainEligibleQueue_commands (c : StepConfig) (n : StepId) (w : InternalStepWorkerState) :
    ∀ d ∈ (drainEligibleQueue c n now w).2, d.isDispatch := (drainSlots_frame now c n _ w).2

/-- Work added to one step is a frame of the state. -/
theorem setWorker_frame {σ : BrokerState} {n : StepId} {w : InternalStepWorkerState} {cs : List WorkflowCommand}
    (hw : WorkerFrame (σ.workers n) w) (hc : ∀ c ∈ cs, c.isDispatch) : Frame σ (σ.setWorker n w, cs) where
  workers m := by
    by_cases h : m = n
    · subst h
      simpa using hw
    · simp only [BrokerState.setWorker_workers, Function.update_of_ne h]
      exact WorkerFrame.refl _
  streamSeq := rfl
  workItemSeq := rfl
  isRunning := rfl
  commands := hc

/-- Adding an attempt to a step changes that step alone. -/
theorem addEvent_frame (σ : BrokerState) (c : StepConfig) (n : StepId) (a : EventAttempt) :
    Frame σ (σ.setWorker n (addOrEnqueueEvent c n a now (σ.workers n)).1, (addOrEnqueueEvent c n a now (σ.workers n)).2) :=
  setWorker_frame (addOrEnqueueEvent_frame now c n a _) (addOrEnqueueEvent_commands now c n a _)

end FrameAux

/-! ## The bookkeeping of streams -/

/-- Whether a record of the log tells of a release. -/
def LogEntry.isRelease : LogEntry → Bool
  | .released _ _ _ => true
  | _ => false

/-- A binding of the workflow, with the configuration of its collect step. -/
structure BrokerConfig.Binds (cfg : BrokerConfig) (c : StepConfig) (b : CollectionBinding) : Prop where
  step : cfg.steps.get? b.targetStep = some c
  binding : cfg.collectionBindings.get? b.id = some b

/-- What the bookkeeping of streams does to the state: it changes streams, release states and the log, or fires the release
of a binding that `Q` allows. -/
inductive Serves (now : Time) (Q : StepConfig → CollectionBinding → Prop) :
    BrokerState → BrokerState × List WorkflowCommand → Prop
  | keeps {σ σ' : BrokerState} (workers : σ'.workers = σ.workers) (streamSeq : σ'.streamSeq = σ.streamSeq)
      (workItemSeq : σ'.workItemSeq = σ.workItemSeq) (isRunning : σ'.isRunning = σ.isRunning)
      (log : ∃ l, σ'.log = σ.log ++ l ∧ ∀ e ∈ l, e.isRelease = false) : Serves now Q σ (σ', [])
  | fires {σ : BrokerState} {c : StepConfig} {b : CollectionBinding} (allowed : Q c b) (s : StreamId) (es : List Event)
      (out : ScopePath) : Serves now Q σ (fireCollectionRelease c b s es out now σ)
  | seq {σ : BrokerState} {r r' : BrokerState × List WorkflowCommand} :
      Serves now Q σ r → Serves now Q r.1 r' → Serves now Q σ (r'.1, r.2 ++ r'.2)

namespace Serves

variable {cfg : BrokerConfig} {now : Time} {Q : StepConfig → CollectionBinding → Prop} {σ σ' : BrokerState}
  {r : BrokerState × List WorkflowCommand}

theorem refl (σ : BrokerState) : Serves now Q σ (σ, []) := keeps rfl rfl rfl rfl ⟨[], (List.append_nil _).symm, by simp⟩

theorem setStreams (d : Lib.Dict StreamId CollectionStreamInstance) : Serves now Q σ (σ.setStreams d, []) :=
  keeps rfl rfl rfl rfl ⟨[], (List.append_nil _).symm, by simp⟩

theorem setReleases (d : Lib.Dict (StreamId × BindingId) CollectionReleaseState) : Serves now Q σ (σ.setReleases d, []) :=
  keeps rfl rfl rfl rfl ⟨[], (List.append_nil _).symm, by simp⟩

/-- A report that is not of a release is bookkeeping. -/
theorem report {e : LogEntry} (he : e.isRelease = false) : Serves now Q σ (σ.report e, []) :=
  keeps rfl rfl rfl rfl ⟨[e], rfl, by simpa using he⟩

/-- Something is done first that answers with no command. -/
theorem after (h : Serves now Q σ (σ', [])) (h' : Serves now Q σ' r) : Serves now Q σ r := h.seq h'

/-- The bookkeeping of streams is a frame. -/
theorem frame (h : Serves now Q σ r) : Frame σ r := by
  induction h with
  | keeps hw hs hi hr _ => exact Frame.of_workers hw hs hi hr
  | @fires σ c b _ s es out =>
    have hadd := FrameAux.addEvent_frame now σ c b.targetStep (CollectionReleasePayload.mk b.id s es out).toAttempt
    exact ⟨hadd.workers, hadd.streamSeq, hadd.workItemSeq, hadd.isRunning, hadd.commands⟩
  | seq _ _ ih ih' => exact ih.trans ih'

variable (cfg now)

/-- Closing a stream for a binding takes its buffer and fires what is left in it. -/
theorem closeBinding (s : StreamId) (path : ScopePath) {b : CollectionBinding} (hb : cfg.collectionBindings.get? b.id = some b)
    (σ : BrokerState) : Serves now cfg.Binds σ (LlamaAgents.closeBinding cfg s path now b σ) := by
  unfold LlamaAgents.closeBinding
  split
  · exact refl σ
  · case h_2 hc =>
    dsimp only
    split
    · exact refl σ
    · split
      · exact setReleases _
      · exact (setReleases _).after (fires ⟨hc, hb⟩ s _ path)

/-- A closing stream goes through its bindings one by one. -/
theorem closeBindings (s : StreamId) (path : ScopePath) {bs : List CollectionBinding}
    (hbs : ∀ b ∈ bs, cfg.collectionBindings.get? b.id = some b) (σ : BrokerState) :
    Serves now cfg.Binds σ (LlamaAgents.closeBindings cfg s path now bs σ) := by
  induction bs generalizing σ with
  | nil => exact refl σ
  | cons b bs ih =>
    obtain ⟨hb, hbs⟩ := List.forall_mem_cons.1 hbs
    exact (closeBinding cfg now s path hb σ).seq (ih hbs _)

/-- Closing a stream fires the bindings that it has and nothing else. -/
theorem close (s : StreamId) (σ : BrokerState) : Serves now cfg.Binds σ (closeCollectionStream cfg s now σ) := by
  unfold closeCollectionStream
  split
  · exact refl σ
  · exact (setStreams _).after (closeBindings cfg now s _ (fun b hb => ((cfg.mem_bindingsForSource _ b).1 hb).1) _)

/-- A changed count is written back, and a stream whose count falls to zero is closed. -/
theorem adjust (s : Option StreamId) (delta : Int) (σ : BrokerState) :
    Serves now cfg.Binds σ (adjustOpenWorkItems cfg s delta now σ) := by
  unfold adjustOpenWorkItems
  split
  · exact refl σ
  · split
    · split
      · exact report rfl
      · exact refl σ
    · have hset : ∀ s stream n, Serves now cfg.Binds σ (setOpenWorkItems s stream n σ, []) := by
        intro s stream n
        unfold setOpenWorkItems
        dsimp only
        split
        · exact (setStreams _).after (report rfl)
        · exact setStreams _
      dsimp only
      split
      · exact (hset _ _ _).after (close cfg now _ _)
      · exact hset _ _ _

/-- A fan-out opens a stream, closed at once when it has no member, and adjusts the count of the one around it. -/
theorem openChild (n : StepId) (scope : FanOutScope) (s : StreamId) (seed : Nat) (x : InProgressState) (σ : BrokerState) :
    Serves now cfg.Binds σ (openChildStream cfg n scope s seed x now σ) := by
  have hopen : ∀ d stream, Serves now cfg.Binds σ ((σ.setStreams d).report (.opened x stream), []) := fun d stream =>
    (setStreams d).after (report rfl)
  unfold openChildStream
  dsimp only
  split
  · exact (hopen _ _).after ((adjust cfg now _ _ _).seq (close cfg now s _))
  · exact (hopen _ _).after (adjust cfg now _ _ _)

variable {cfg now} in
/-- A finished work item opens a stream or adjusts the count of its own. -/
theorem resolve {tick : TickStepResult} {scope : FanOutScope} {acc : StepResultAcc}
    (hr : resolveWorkItemInStream cfg tick scope acc now = .ok r) : Serves now cfg.Binds acc.state r := by
  unfold resolveWorkItemInStream at hr
  dsimp only at hr
  split at hr
  · cases hr
  · split at hr <;> cases hr
    · exact openChild cfg now _ _ _ _ _ _
    · exact refl _
  all_goals cases hr
  · exact adjust cfg now _ _ _
  · exact adjust cfg now _ _ _
  · exact refl _
  · exact refl _

/-- A member joins its batch and fires it when the batch is full. -/
theorem collectMember {c : StepConfig} {b : CollectionBinding} (hQ : Q c b) (tick : TickAddEvent) (s : StreamId)
    (σ : BrokerState) : Serves now Q σ (LlamaAgents.collectMember c tick s b now σ) := by
  unfold LlamaAgents.collectMember
  dsimp only
  split
  · exact refl σ
  · split
    · exact setReleases _
    · exact (setReleases _).after (fires hQ s _ _)

end Serves

end LlamaAgents
