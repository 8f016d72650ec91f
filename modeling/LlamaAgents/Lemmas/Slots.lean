import LlamaAgents.Slots
import LlamaAgents.Lemmas.Dispatch

/-!
# What a tick does to the slots

A dispatch adds a slot for each worker that it starts, with an id of its own. The result of an execution gives up its slot, or
keeps it and starts one worker for it again. So the slots before a tick and the workers it starts are the slot whose result it
brings, if any, and the slots after it.
-/

namespace LlamaAgents

open Lib (Dict)

/-- The slots before a tick of a step, and the workers it starts there, are the slots of the results it brings and the slots
after it, which are distinct when they were before. -/
structure SlotsMoved (n : StepId) (σ : BrokerState) (brought : List Nat) (r : BrokerState × List WorkflowCommand) : Prop where
  count : ∀ k, (σ.workers n).slots.count k + (startedAt n r.2).count k = brought.count k + (r.1.workers n).slots.count k
  nodup : (σ.workers n).slots.Nodup → (r.1.workers n).slots.Nodup

namespace SlotsAux

variable (now : Time)

/-! ## Dispatch -/

/-- A worker id that is given is free. -/
theorem freeWorkerId_notMem {c : StepConfig} {w : InternalStepWorkerState} (h : w.inProgress.length < c.numWorkers) :
    freeWorkerId c w ∉ w.slots := by
  unfold freeWorkerId
  cases hfind : (List.range c.numWorkers).find? fun i => !(w.inProgress.map InProgressState.workerId).contains i with
  | some i => simpa [InternalStepWorkerState.slots] using List.find?_some hfind
  | none =>
    have hsub : List.range c.numWorkers ⊆ w.slots := by
      intro i hi
      simpa [InternalStepWorkerState.slots] using List.find?_eq_none.1 hfind i hi
    have hlen := (List.nodup_range.subperm hsub).length_le
    rw [List.length_range, InternalStepWorkerState.slots, List.length_map] at hlen
    omega

/-- A started attempt takes the slot that its command names. -/
theorem addOrEnqueueEvent_slots (c : StepConfig) (n : StepId) (a : EventAttempt) (w : InternalStepWorkerState) :
    (addOrEnqueueEvent c n a now w).1.slots = w.slots ++ startedAt n (addOrEnqueueEvent c n a now w).2 ∧
      (w.slots.Nodup → (addOrEnqueueEvent c n a now w).1.slots.Nodup) := by
  unfold addOrEnqueueEvent
  split
  · case isTrue h =>
    have hslots : ({ w with inProgress := w.inProgress ++ [a.start n (freeWorkerId c w) now w] } : InternalStepWorkerState).slots =
        w.slots ++ [freeWorkerId c w] := by simp [InternalStepWorkerState.slots, EventAttempt.start]
    refine ⟨by simp [hslots, startedAt, WorkflowCommand.startedAt?], ?_⟩
    intro hn
    rw [hslots]
    exact hn.append (List.nodup_singleton _) (by simpa using freeWorkerId_notMem h.1)
  · exact ⟨by simp [InternalStepWorkerState.slots, startedAt, WorkflowCommand.startedAt?], id⟩

theorem addOrEnqueueEvent_startedAt (c : StepConfig) {n m : StepId} (hm : m ≠ n) (a : EventAttempt)
    (w : InternalStepWorkerState) : startedAt m (addOrEnqueueEvent c n a now w).2 = [] := by
  unfold addOrEnqueueEvent
  split <;> simp [startedAt, WorkflowCommand.startedAt?, hm.symm]

end SlotsAux

section

open SlotsAux

variable {now : Time} {P : StepId → EventAttempt → Prop} {σ : BrokerState} {r : BrokerState × List WorkflowCommand}

/-- A dispatch at a step adds the slots of the workers that it starts, each with an id of its own. -/
theorem WorkerDispatch.slots {n : StepId} {P : EventAttempt → Prop} {w : InternalStepWorkerState}
    {r : InternalStepWorkerState × List WorkflowCommand} (h : WorkerDispatch now n P w r) :
    (r.1.slots = w.slots ++ startedAt n r.2 ∧ (w.slots.Nodup → r.1.slots.Nodup)) ∧ ∀ m, m ≠ n → startedAt m r.2 = [] := by
  induction h with
  | adjusts executions =>
    rw [InternalStepWorkerState.slots, executions]
    exact ⟨⟨by simp [InternalStepWorkerState.slots], id⟩, fun _ _ => rfl⟩
  | adds c => exact ⟨addOrEnqueueEvent_slots now c n _ _, fun m hm => addOrEnqueueEvent_startedAt now c hm _ _⟩
  | seq _ _ ih ih' =>
    obtain ⟨⟨h₁, h₂⟩, h₃⟩ := ih
    obtain ⟨⟨g₁, g₂⟩, g₃⟩ := ih'
    refine ⟨⟨by rw [g₁, h₁, startedAt_append, List.append_assoc], fun hn => g₂ (h₂ hn)⟩, ?_⟩
    intro m hm
    rw [startedAt_append, h₃ m hm, g₃ m hm]
    rfl

/-- A dispatch adds the slots of the workers that it starts, each with an id of its own. -/
theorem Dispatch.slots (h : Dispatch now P σ r) (n : StepId) : (r.1.workers n).slots = (σ.workers n).slots ++ startedAt n r.2 ∧
      ((σ.workers n).slots.Nodup → (r.1.workers n).slots.Nodup) := by
  induction h with
  | keeps workers commands =>
    rw [workers, startedAt_eq_nil fun d hd => commands d hd n]
    exact ⟨(List.append_nil _).symm, id⟩
  | @worker σ m r hw =>
    obtain ⟨hm, hother⟩ := hw.slots
    rw [BrokerState.setWorker_workers]
    by_cases hn : n = m
    · subst hn
      rw [Function.update_self]
      exact hm
    · rw [Function.update_of_ne hn, hother n hn]
      exact ⟨(List.append_nil _).symm, id⟩
  | seq _ _ ih ih' =>
    obtain ⟨h₁, h₂⟩ := ih
    obtain ⟨g₁, g₂⟩ := ih'
    exact ⟨by rw [g₁, h₁, startedAt_append, List.append_assoc], fun hn => g₂ (h₂ hn)⟩

/-- Dispatch fills the slots that its commands start. -/
theorem Dispatch.moved (h : Dispatch now P σ r) (n : StepId) : SlotsMoved n σ [] r := by
  obtain ⟨h₁, h₂⟩ := h.slots n
  refine ⟨fun k => ?_, h₂⟩
  rw [h₁, List.count_append, List.count_nil]
  omega

end

namespace SlotsAux

variable (cfg : BrokerConfig) (runId : Option String) (now : Time)

/-! ## The results of an execution -/

theorem updateExecution_slots (w : InternalStepWorkerState) (id : Nat) (d : Dict String (List BufferedEvent)) :
    (w.updateExecution id fun y => y.refresh d).slots = w.slots := by
  rw [InternalStepWorkerState.slots, InternalStepWorkerState.updateExecution]
  apply List.ext_getElem?
  intro j
  rw [List.getElem?_map, List.getElem?_modify, InternalStepWorkerState.slots, List.getElem?_map]
  split <;> simp [Function.comp_def, InProgressState.refresh]

/-- How far the results of an execution have been applied: the slots are as before, and the execution's worker is started again
at most once. Once it is, the execution is up to date with the buffers that the rest of the results add to. -/
structure Applied (n : StepId) (id : Nat) (σ : BrokerState) (acc : StepResultAcc) (rest : List StepFunctionResult) : Prop where
  slots : ∀ m, (acc.state.workers m).slots = (σ.workers m).slots
  execution : acc.execution.workerId = id
  started : ∀ m, startedAt m acc.commands = if m = n ∧ acc.stepNoLongerInProgress = false then [id] else []
  current : acc.stepNoLongerInProgress = false → ∀ b ∈ addedBuffers rest,
    ((acc.state.workers n).buffer b).length ≤ (acc.execution.buffer b).length

section Results

variable {n : StepId} {id : Nat} {σ : BrokerState} {acc : StepResultAcc} {rest : List StepFunctionResult}

/-- A result that touches neither the slots nor the collect buffers, and starts nothing. -/
theorem Applied.of_eq {r : StepFunctionResult} (h : Applied n id σ acc (r :: rest)) {acc' : StepResultAcc}
    {ds : List WorkflowCommand} (hslots : ∀ m, (acc'.state.workers m).slots = (acc.state.workers m).slots)
    (hbuffers : ∀ b ∈ addedBuffers rest, ((acc'.state.workers n).buffer b).length ≤ ((acc.state.workers n).buffer b).length)
    (hx : acc'.execution = acc.execution) (hcommands : acc'.commands = acc.commands ++ ds)
    (hds : ∀ d ∈ ds, ∀ m, d.startedAt? m = none) (hflag : acc'.stepNoLongerInProgress = acc.stepNoLongerInProgress) :
    Applied n id σ acc' rest where
  slots m := (hslots m).trans (h.slots m)
  execution := hx ▸ h.execution
  started m := by rw [hcommands, startedAt_append, startedAt_eq_nil fun d hd => hds d hd m, List.append_nil, hflag, h.started m]
  current hf b hb := by
    have hmem : b ∈ addedBuffers (r :: rest) := by
      rw [addedBuffers, List.filterMap_cons]
      split
      · exact hb
      · exact List.mem_cons_of_mem _ hb
    exact (hbuffers b hb).trans (hx ▸ h.current (hflag ▸ hf) b hmem)

/-- A worker state with the slots of the old one. -/
theorem setWorker_slots {τ : BrokerState} {w : InternalStepWorkerState} (hs : w.slots = (τ.workers n).slots) (m : StepId) :
    ((τ.setWorker n w).workers m).slots = (τ.workers m).slots := by
  rw [BrokerState.setWorker_workers]
  by_cases hm : m = n
  · subst hm
    rw [Function.update_self, hs]
  · rw [Function.update_of_ne hm]

variable (c : StepConfig) (tick : TickStepResult) (scope : FanOutScope) (done : Bool)

theorem buffer_set (d : Dict String (List BufferedEvent)) (b b' : String) (es : List BufferedEvent) :
    ((d.set b es).get? b').getD [] = if b' = b then es else (d.get? b').getD [] := by
  rw [Dict.get?_set]
  by_cases h : b' = b
  · rw [if_pos h, if_pos h.symm]
    rfl
  · rw [if_neg h, if_neg fun h' => h h'.symm]

/-- An event added to a collect buffer: the worker is started again on buffers that have grown since its snapshot. -/
theorem applied_addCollected {b : String} {e : BufferedEvent} (hn : (addedBuffers (.addCollected b e :: rest)).Nodup)
    (h : Applied tick.stepId id σ acc (.addCollected b e :: rest)) :
    Applied tick.stepId id σ (applyStepResult cfg c tick scope done runId acc (.addCollected b e)) rest := by
  have hb : b ∉ addedBuffers rest := (List.nodup_cons.1 hn).1
  rw [applyStepResult]
  dsimp only
  split
  · case isTrue hstale =>
    have hfirst : acc.stepNoLongerInProgress = true := by
      by_contra hf
      have := h.current (by simpa using hf) b (by simp [addedBuffers])
      omega
    refine ⟨fun m => ?_, h.execution, fun m => ?_, fun _ b' _ => ?_⟩
    · rw [← h.slots m]
      refine setWorker_slots ?_ m
      rw [updateExecution_slots]
      rfl
    · rw [startedAt_append, h.started m, hfirst]
      by_cases hm : m = tick.stepId
      · simp [hm, startedAt, WorkflowCommand.startedAt?, InProgressState.refresh, h.execution]
      · simp [hm, startedAt, WorkflowCommand.startedAt?, Ne.symm hm]
    · simp [InternalStepWorkerState.buffer, InternalStepWorkerState.updateExecution, InProgressState.buffer,
        InProgressState.refresh]
  · refine h.of_eq (setWorker_slots rfl) (fun b' hb' => ?_) rfl (List.append_nil _).symm (List.forall_mem_nil _) rfl
    · have hne : b' ≠ b := fun he => hb (he ▸ hb')
      rw [BrokerState.setWorker_workers, Function.update_self]
      change (((Dict.set _ b _).get? b').getD []).length ≤ _
      rw [buffer_set, if_neg hne]
      exact le_rfl

/-- Any result but a stop event. -/
theorem applyStepResult_applied {r : StepFunctionResult} (hr : Loop.stops r = false) (hn : (addedBuffers (r :: rest)).Nodup)
    (h : Applied tick.stepId id σ acc (r :: rest)) :
    Applied tick.stepId id σ (applyStepResult cfg c tick scope done runId acc r) rest := by
  have hnil := (List.append_nil acc.commands).symm
  cases r with
  | result e fanned =>
    cases e with
    | none => exact h.of_eq (fun _ => rfl) (fun _ _ => le_rfl) rfl hnil (List.forall_mem_nil _) rfl
    | some e =>
      rw [applyStepResult, if_neg (by simpa [Loop.stops] using hr)]
      refine h.of_eq (fun _ => rfl) (fun _ _ => le_rfl) rfl (List.append_assoc _ _ _) ?_ rfl
      intro d hd m
      rcases List.mem_append.1 hd with hd | hd
      · split at hd
        · rw [List.mem_singleton.1 hd]
          rfl
        · cases hd
      · rw [List.mem_singleton.1 hd]
        rfl
  | failed f =>
    rw [applyStepResult]
    rcases StepResultAux.scheduleRetryOrRouteFailure_cases cfg c tick runId f acc with
      ⟨-, notBefore, heq⟩ | ⟨-, key, handler, d, -, -, heq⟩ | ⟨-, e, heq⟩
    · rw [heq]
      refine h.of_eq (setWorker_slots rfl) (fun b _ => ?_) rfl rfl ?_ rfl
      · simp [InternalStepWorkerState.buffer]
      · cases notBefore <;> simp [WorkflowCommand.startedAt?]
    · rw [heq]
      exact h.of_eq (fun _ => rfl) (fun _ _ => le_rfl) rfl rfl (by simp [WorkflowCommand.startedAt?]) rfl
    · rw [heq]
      exact h.of_eq (fun _ => rfl) (fun _ _ => le_rfl) rfl rfl (by simp [WorkflowCommand.startedAt?]) rfl
  | addCollected b e => exact applied_addCollected cfg runId c tick scope done hn h
  | deleteCollected b =>
    rw [applyStepResult]
    split
    · refine h.of_eq (setWorker_slots rfl) (fun b' _ => ?_) rfl hnil (List.forall_mem_nil _) rfl
      rw [BrokerState.setWorker_workers, Function.update_self, InternalStepWorkerState.buffer, Dict.get?_erase]
      split
      · exact Nat.zero_le _
      · exact le_rfl
    · exact h.of_eq (fun _ => rfl) (fun _ _ => le_rfl) rfl hnil (List.forall_mem_nil _) rfl
  | addWaiter add =>
    rw [applyStepResult]
    dsimp only
    split
    · exact h.of_eq (setWorker_slots rfl) (fun b _ => by simp [InternalStepWorkerState.buffer]) rfl hnil
        (List.forall_mem_nil _) rfl
    · refine h.of_eq (setWorker_slots rfl) (fun b _ => by simp [InternalStepWorkerState.buffer]) rfl
        (List.append_assoc _ _ _) ?_ rfl
      cases add.waiterEvent <;> cases add.timeout <;> simp [WorkflowCommand.startedAt?]
  | deleteWaiter i =>
    rw [applyStepResult]
    split
    · exact h.of_eq (setWorker_slots rfl) (fun b _ => by simp [InternalStepWorkerState.buffer]) rfl hnil
        (List.forall_mem_nil _) rfl
    · exact h.of_eq (fun _ => rfl) (fun _ _ => le_rfl) rfl hnil (List.forall_mem_nil _) rfl

/-- The results add to distinct buffers, so that none makes the execution stale for another. -/
theorem foldl_applied {rs : List StepFunctionResult} (hrs : ∀ r ∈ rs, Loop.stops r = false) (hn : (addedBuffers rs).Nodup)
    (h : Applied tick.stepId id σ acc rs) :
    Applied tick.stepId id σ (rs.foldl (applyStepResult cfg c tick scope done runId) acc) [] := by
  induction rs generalizing acc with
  | nil => exact h
  | cons r rs ih =>
    have hn' : (addedBuffers rs).Nodup := by
      rw [addedBuffers, List.filterMap_cons] at hn
      split at hn
      · exact hn
      · exact (List.nodup_cons.1 hn).2
    exact ih (fun r' hr' => hrs r' (List.mem_cons_of_mem r hr')) hn'
      (applyStepResult_applied cfg runId c tick scope done (hrs r List.mem_cons_self) hn h)

end Results

/-! ## Results that stop the run -/

section Stops

variable (c : StepConfig) (tick : TickStepResult) (scope : FanOutScope) (done : Bool)

/-- A result adds to the commands. -/
theorem applyStepResult_commands (acc : StepResultAcc) (r : StepFunctionResult) :
    acc.commands <+: (applyStepResult cfg c tick scope done runId acc r).commands := by
  cases r with
  | result e fanned =>
    cases e with
    | none => exact List.prefix_rfl
    | some e =>
      rw [applyStepResult]
      split
      · exact List.prefix_append _ _
      · dsimp only
        rw [List.append_assoc]
        exact List.prefix_append _ _
  | failed f =>
    rw [applyStepResult]
    rcases StepResultAux.scheduleRetryOrRouteFailure_cases cfg c tick runId f acc with
      ⟨-, notBefore, heq⟩ | ⟨-, key, handler, d, -, -, heq⟩ | ⟨-, e, heq⟩ <;> rw [heq] <;> exact List.prefix_append _ _
  | addCollected b e =>
    rw [applyStepResult]
    dsimp only
    split
    · exact List.prefix_append _ _
    · exact List.prefix_rfl
  | addWaiter add =>
    rw [applyStepResult]
    dsimp only
    split
    · exact List.prefix_rfl
    · dsimp only
      rw [List.append_assoc]
      exact List.prefix_append _ _
  | deleteCollected b =>
    rw [applyStepResult]
    split <;> exact List.prefix_rfl
  | deleteWaiter i =>
    rw [applyStepResult]
    split <;> exact List.prefix_rfl

theorem foldl_commands (rs : List StepFunctionResult) (acc : StepResultAcc) :
    acc.commands <+: (rs.foldl (applyStepResult cfg c tick scope done runId) acc).commands := by
  induction rs generalizing acc with
  | nil => exact List.prefix_rfl
  | cons r rs ih => exact (applyStepResult_commands cfg runId c tick scope done acc r).trans (ih _)

/-- A stop event among the results ends the run. -/
theorem foldl_exit {rs : List StepFunctionResult} (h : rs.any Loop.stops) (acc : StepResultAcc) :
    ∃ d ∈ (rs.foldl (applyStepResult cfg c tick scope done runId) acc).commands, d.indicatesExit := by
  induction rs generalizing acc with
  | nil => cases h
  | cons r rs ih =>
    by_cases hr : Loop.stops r
    · unfold Loop.stops at hr
      split at hr
      · case h_1 e fanned =>
        have hpre := foldl_commands cfg runId c tick scope done rs
          (applyStepResult cfg c tick scope done runId acc (.result (some e) fanned))
        refine ⟨.completeRun e, hpre.subset ?_, rfl⟩
        rw [applyStepResult, if_pos hr]
        simp
      · cases hr
    · rw [List.any_cons, Bool.or_eq_true] at h
      exact ih (h.resolve_left hr) _

end Stops

/-! ## The end of an execution -/

/-- An execution that is dropped gives up its slot. -/
theorem eraseExecution_slots {w : InternalStepWorkerState} {id : Nat} (h : id ∈ w.slots) :
    w.slots.Perm (id :: (w.eraseExecution id).slots) := by
  obtain ⟨x, hx, hid⟩ := List.mem_map.1 h
  have hfind : (w.inProgress.find? fun y => decide (y.workerId = id)).isSome := by
    rw [List.find?_isSome]
    exact ⟨x, hx, decide_eq_true hid⟩
  obtain ⟨y, hy⟩ := Option.isSome_iff_exists.1 hfind
  have hperm := (WorkAux.perm_cons_eraseP_of_find? hy).map InProgressState.workerId
  have hyid : y.workerId = id := by simpa using List.find?_some hy
  rwa [List.map_cons, hyid] at hperm

/-- The state in which an execution has given up its slot, unless it runs again. -/
def endedState (tick : TickStepResult) (acc : StepResultAcc) : BrokerState :=
  if acc.stepNoLongerInProgress then
    acc.state.setWorker tick.stepId ((acc.state.workers tick.stepId).eraseExecution acc.execution.workerId)
  else acc.state

/-- The commands of an execution with its transition event, unless it runs again. -/
def endedCommands (tick : TickStepResult) (acc : StepResultAcc) : List WorkflowCommand :=
  if acc.stepNoLongerInProgress then
    .publishEvent (.stepStateChanged .notRunning tick.stepId tick.event.typeText (toString tick.workerId) acc.outputEventName) ::
      acc.commands
  else acc.commands

/-- Drain a step's queue, unless the run ends. -/
def drainUnless (c : StepConfig) (n : StepId) (ends : Bool) (r : BrokerState × List WorkflowCommand) :
    BrokerState × List WorkflowCommand :=
  if ends then r
  else
    let drained := drainEligibleQueue c n now (r.1.workers n)
    (r.1.setWorker n drained.1, r.2 ++ drained.2)

theorem finishExecution_eq (c : StepConfig) (tick : TickStepResult) (acc : StepResultAcc) :
    finishExecution c tick acc now = drainUnless now c tick.stepId (acc.commands.any WorkflowCommand.indicatesExit)
      (endedState tick acc, endedCommands tick acc) := rfl

theorem endedCommands_startedAt (tick : TickStepResult) (acc : StepResultAcc) (m : StepId) :
    startedAt m (endedCommands tick acc) = startedAt m acc.commands := by
  unfold endedCommands
  split <;> rfl

theorem endedState_slots (tick : TickStepResult) (acc : StepResultAcc)
    (hid : acc.execution.workerId ∈ (acc.state.workers tick.stepId).slots) (m : StepId) :
    (acc.state.workers m).slots.Perm
      ((if m = tick.stepId ∧ acc.stepNoLongerInProgress = true then [acc.execution.workerId] else []) ++
        ((endedState tick acc).workers m).slots) := by
  unfold endedState
  cases acc.stepNoLongerInProgress with
  | false => simp
  | true =>
    rw [if_pos rfl, BrokerState.setWorker_workers]
    by_cases hm : m = tick.stepId
    · subst hm
      rw [Function.update_self, if_pos ⟨rfl, rfl⟩]
      exact eraseExecution_slots hid
    · rw [Function.update_of_ne hm, if_neg fun h => hm h.1]
      exact List.Perm.refl _

/-- A run that goes on fills the free slots from the queue. -/
theorem drainUnless_slots (c : StepConfig) (n : StepId) (ends : Bool) (r : BrokerState × List WorkflowCommand) (m : StepId) :
    (∀ k, (r.1.workers m).slots.count k + (startedAt m (drainUnless now c n ends r).2).count k =
      (startedAt m r.2).count k + ((drainUnless now c n ends r).1.workers m).slots.count k) ∧
    ((r.1.workers m).slots.Nodup → ((drainUnless now c n ends r).1.workers m).slots.Nodup) := by
  have hdrain : Dispatch now (fun _ _ => True) r.1
      (r.1.setWorker n (drainEligibleQueue c n now (r.1.workers n)).1, (drainEligibleQueue c n now (r.1.workers n)).2) :=
    .worker n (DispatchAux.drainEligibleQueue_dispatch now c fun _ _ => trivial)
  obtain ⟨h₁, h₂⟩ := hdrain.slots m
  unfold drainUnless
  split
  · exact ⟨fun k => Nat.add_comm _ _, id⟩
  · refine ⟨fun k => ?_, h₂⟩
    dsimp only at h₁ ⊢
    rw [startedAt_append, List.count_append, h₁, List.count_append]
    omega

/-- The end of an execution adds to its commands. -/
theorem finishExecution_commands (c : StepConfig) (tick : TickStepResult) (acc : StepResultAcc) :
    ∀ d ∈ acc.commands, d ∈ (finishExecution c tick acc now).2 := by
  intro d hd
  have hended : d ∈ endedCommands tick acc := by
    unfold endedCommands
    split
    · exact List.mem_cons_of_mem _ hd
    · exact hd
  rw [finishExecution_eq, drainUnless]
  split
  · exact hended
  · exact List.mem_append_left _ hended

/-- The end of an execution gives up its slot, unless it runs again, and drains the queue into free ones. -/
theorem finishExecution_slots (c : StepConfig) (tick : TickStepResult) (acc : StepResultAcc)
    (hid : acc.execution.workerId ∈ (acc.state.workers tick.stepId).slots) (m : StepId) :
    (∀ k, (acc.state.workers m).slots.count k + (startedAt m (finishExecution c tick acc now).2).count k =
      (if m = tick.stepId ∧ acc.stepNoLongerInProgress = true then [acc.execution.workerId] else []).count k +
        (startedAt m acc.commands).count k + ((finishExecution c tick acc now).1.workers m).slots.count k) ∧
    ((acc.state.workers m).slots.Nodup → ((finishExecution c tick acc now).1.workers m).slots.Nodup) := by
  have hended := endedState_slots tick acc hid m
  rw [finishExecution_eq]
  obtain ⟨h₁, h₂⟩ := drainUnless_slots now c tick.stepId (acc.commands.any WorkflowCommand.indicatesExit)
    (endedState tick acc, endedCommands tick acc) m
  refine ⟨fun k => ?_, fun hn => h₂ (List.nodup_append.1 (hended.nodup_iff.1 hn)).2.1⟩
  have hk := h₁ k
  dsimp only at hk
  rw [endedCommands_startedAt] at hk
  rw [hended.count_eq k, List.count_append]
  omega

/-! ## Ticks -/

theorem fanOutScope_workers (σ : BrokerState) (n : StepId) (x : InProgressState) (fannedOut : Bool) :
    (fanOutScope σ n x fannedOut).1.workers = σ.workers := by
  unfold fanOutScope
  split <;> rfl

variable {cfg} {runId} {now} {σ : BrokerState} {r : BrokerState × List WorkflowCommand}

theorem mem_slots_of_execution? {w : InternalStepWorkerState} {id : Nat} {x : InProgressState} (h : w.execution? id = some x) :
    x.workerId = id ∧ id ∈ w.slots := by
  have hid : x.workerId = id := by simpa using List.find?_some h
  exact ⟨hid, hid ▸ List.mem_map_of_mem (List.mem_of_find?_eq_some h)⟩

theorem slotAt?_toList (tick : TickStepResult) (m : StepId) :
    ((WorkflowTick.stepResult tick).slotAt? m).toList = if m = tick.stepId then [tick.workerId] else [] := by
  rw [WorkflowTick.slotAt?]
  by_cases hm : m = tick.stepId
  · rw [if_pos hm.symm, if_pos hm]
    rfl
  · rw [if_neg fun h => hm h.symm, if_neg hm]
    rfl

/-- An execution that runs again from the start keeps its slot, and one worker is started for it. -/
theorem rerun_moved {tick : TickStepResult} {x : InProgressState}
    (hx : (σ.workers tick.stepId).execution? tick.workerId = some x) {rerun : InternalStepWorkerState × List WorkflowCommand}
    (hrerun : rerunForStaleCollectBuffer tick (σ.workers tick.stepId) x = some rerun) (m : StepId) :
    SlotsMoved m σ ((WorkflowTick.stepResult tick).slotAt? m).toList (σ.setWorker tick.stepId rerun.1, rerun.2) := by
  rw [slotAt?_toList]
  rw [rerunForStaleCollectBuffer] at hrerun
  split at hrerun <;> cases hrerun
  have hslots := setWorker_slots (n := tick.stepId) (τ := σ) (updateExecution_slots (σ.workers tick.stepId) x.workerId
    (σ.workers tick.stepId).collectedEvents) m
  refine ⟨fun k => ?_, fun hnodup => hslots ▸ hnodup⟩
  rw [hslots]
  by_cases hm : m = tick.stepId
  · simp [startedAt, WorkflowCommand.startedAt?, hm, (mem_slots_of_execution? hx).1, Nat.add_comm]
  · simp [startedAt, WorkflowCommand.startedAt?, hm, Ne.symm hm]

/-- The result of an execution that does not end the run gives its slot up, or starts one worker for it again. -/
theorem processStepResultTick_moved {tick : TickStepResult} (hn : (addedBuffers tick.result).Nodup)
    (hr : processStepResultTick cfg tick σ now runId = .ok r) (hgo : ∀ d ∈ r.2, d.indicatesExit = false) (m : StepId) :
    SlotsMoved m σ ((WorkflowTick.stepResult tick).slotAt? m).toList r := by
  cases CommandsAux.processStepResultTick_moves hr with
  | reruns _ hx hrerun => exact rerun_moved hx hrerun m
  | @applies c x started acc resolved _ hx hstarted hacc hres =>
    obtain ⟨hid, hmem⟩ := mem_slots_of_execution? hx
    rw [slotAt?_toList]
    have hstops : tick.result.any Loop.stops = false := by
      by_contra hstop
      obtain ⟨d, hd, hexit⟩ := foldl_exit cfg runId c tick started.2 (tick.result.any StepFunctionResult.isResult)
        (by simpa using hstop) { state := started.1, execution := x }
      rw [← hacc] at hd
      have hgo := hgo d (finishExecution_commands now c tick _ d (List.mem_append_left _ hd))
      rw [hexit] at hgo
      cases hgo
    have hfirst : Applied tick.stepId tick.workerId σ { state := started.1, execution := x } tick.result :=
      ⟨fun m => by rw [hstarted, fanOutScope_workers], hid, fun m => by simp, nofun⟩
    have happlied := foldl_applied cfg runId c tick started.2 (tick.result.any StepFunctionResult.isResult)
      (fun r hr => by simpa using List.any_eq_false.1 hstops r hr) hn hfirst
    rw [← hacc] at happlied
    have hdispatch := DispatchAux.binds_dispatch now (P := fun _ _ => True) (fun _ _ _ _ _ => trivial) (Serves.resolve hres)
    have hslot : acc.execution.workerId ∈ (resolved.1.workers tick.stepId).slots := by
      rw [(hdispatch.slots tick.stepId).1, happlied.slots, happlied.execution]
      exact List.mem_append_left _ hmem
    obtain ⟨h₁, h₂⟩ := hdispatch.slots m
    obtain ⟨h₃, h₄⟩ := finishExecution_slots now c tick
      { acc with state := resolved.1, commands := acc.commands ++ resolved.2 } hslot m
    refine ⟨fun k => ?_, fun hnodup => h₄ (h₂ (by rwa [happlied.slots m]))⟩
    have hk := h₃ k
    dsimp only at hk
    rw [h₁, startedAt_append, List.count_append, List.count_append, happlied.slots m, happlied.started m, happlied.execution] at hk
    by_cases hm : m = tick.stepId
    · cases hflag : acc.stepNoLongerInProgress <;> simp [hm, hflag] at hk ⊢ <;> omega
    · simp [hm] at hk ⊢
      omega

theorem withIdleCheck_moved {m : StepId} {brought : List Nat}
    (h : SlotsMoved m σ brought r) : SlotsMoved m σ brought (withIdleCheck cfg r) := by
  unfold withIdleCheck
  split
  · refine ⟨fun k => ?_, h.nodup⟩
    have hnil : startedAt m [.scheduleIdleCheck] = [] := rfl
    rw [startedAt_append, hnil, List.append_nil]
    exact h.count k
  · exact h

/-- A tick that does not end the run keeps the slots and the started workers together. -/
theorem reduceTick_moved {tick : WorkflowTick} (hadds : tick.addsOnce)
    (hr : reduceTick cfg tick σ now runId = .ok r) (hgo : ∀ d ∈ r.2, d.indicatesExit = false) (m : StepId) :
    SlotsMoved m σ (tick.slotAt? m).toList r := by
  have hfires : DispatchAux.Fires cfg fun _ _ => True := fun _ _ _ _ _ => trivial
  have hkeep : ∀ {σ' : BrokerState} {cs : List WorkflowCommand}, σ'.workers = σ.workers →
      (∀ d ∈ cs, ∀ n, d.startedAt? n = none) → SlotsMoved m σ [] (σ', cs) := fun hw hcs =>
    (Dispatch.keeps hw hcs : Dispatch now (fun _ _ => True) σ (_, _)).moved m
  unfold reduceTick at hr
  cases tick with
  | stepResult t =>
    obtain ⟨r', hr', rfl⟩ := PlainAux.map_eq_ok hr
    have hgo' := CommandsAux.no_exit_of_withIdleCheck hgo
    exact withIdleCheck_moved (processStepResultTick_moved (of_decide_eq_true hadds) hr' hgo' m)
  | addEvent t =>
    obtain ⟨r', hr', rfl⟩ := PlainAux.map_eq_ok hr
    exact withIdleCheck_moved ((DispatchAux.processAddEventTick_dispatch now hfires (fun _ _ _ => trivial) (fun _ _ _ _ _ _ => trivial)
      (fun _ _ _ _ => trivial) hr').moved m)
  | cancelRun =>
    cases hr
    exact withIdleCheck_moved (hkeep rfl (by simp [WorkflowCommand.startedAt?]))
  | publishEvent e =>
    cases hr
    exact withIdleCheck_moved (hkeep rfl (by simp [WorkflowCommand.startedAt?]))
  | timeout t =>
    cases hr
    exact withIdleCheck_moved (hkeep rfl (by simp [WorkflowCommand.startedAt?]))
  | waiterTimeout n id =>
    cases hr
    exact withIdleCheck_moved
      ((DispatchAux.processWaiterTimeoutTick_dispatch now (P := fun _ _ => True) (fun _ _ _ => trivial) n id).moved m)
  | idleCheck =>
    cases hr
    unfold processIdleCheckTick
    split
    · split
      · exact hkeep rfl (by simp [WorkflowCommand.startedAt?])
      · exact hkeep rfl (by simp [WorkflowCommand.startedAt?])
    · exact hkeep rfl (by simp)
  | idleRelease =>
    cases hr
    exact hkeep rfl (by simp [WorkflowCommand.startedAt?])
  | wakeup due =>
    cases hr
    exact withIdleCheck_moved ((DispatchAux.processWakeupTick_dispatch now (P := fun _ _ => True) (fun _ _ _ _ => trivial) due).moved m)

end SlotsAux

end LlamaAgents
