import LlamaAgents.Lemmas.PlainLoop

/-!
# The work items of collect steps

Every collect invocation that the log records was put into the queue or the executions of its step, and no other work item of
a step is one. `Creates` says so of a change of the state: the items that a step holds grow by those that the new records
tell. Only the end of an execution takes an item away.
-/

namespace LlamaAgents

open Lib (Dict)

/-- A record of the collect invocation with a payload: its trigger, scope and id are the payload's. -/
def WorkRecord.isItem (p : CollectionReleasePayload) (r : WorkRecord) : Bool :=
  r.collectionReleasePayload = some p && r.event = p.asEvent && r.scopePath = p.outputScopePath &&
    r.workItemId = some p.workItemId

/-- The number of collect invocations with a payload that a step holds, queued and in progress. -/
def BrokerState.items (σ : BrokerState) (n : StepId) (p : CollectionReleasePayload) : Nat :=
  (σ.workers n).records.countP fun r => r.isItem p

/-- Whether a record of the log tells of a collect invocation with a payload at a step. -/
def LogEntry.creates (n : StepId) (p : CollectionReleasePayload) : LogEntry → Bool
  | .released b _ a => b.targetStep = n && a.record.isItem p
  | _ => false

/-- A change of the state in which the items of every step grow by those that the new records of the log tell. -/
def Creates (σ σ' : BrokerState) : Prop :=
  ∃ l, σ'.log = σ.log ++ l ∧ ∀ n p, σ'.items n p = σ.items n p + l.countP (LogEntry.creates n p)

namespace Creates

variable {cfg : BrokerConfig} {now : Time} {σ σ' σ'' : BrokerState} {n : StepId} {c : StepConfig}

theorem of_eq (hw : σ'.workers = σ.workers) (hl : σ'.log = σ.log) : Creates σ σ' :=
  ⟨[], by rw [hl, List.append_nil], fun n p => by rw [BrokerState.items, BrokerState.items, hw]; rfl⟩

theorem refl (σ : BrokerState) : Creates σ σ := of_eq rfl rfl

theorem trans (h : Creates σ σ') (h' : Creates σ' σ'') : Creates σ σ'' := by
  obtain ⟨l, hlog, hitems⟩ := h
  obtain ⟨l', hlog', hitems'⟩ := h'
  refine ⟨l ++ l', by rw [hlog', hlog, List.append_assoc], fun n p => ?_⟩
  rw [hitems', hitems, List.countP_append, Nat.add_assoc]

/-- A write to one step changes the items of that step. -/
theorem items_setWorker (σ : BrokerState) (n : StepId) (w : InternalStepWorkerState) (m : StepId) (p : CollectionReleasePayload) :
    (σ.setWorker n w).items m p = if m = n then w.records.countP (fun r => r.isItem p) else σ.items m p := by
  rw [BrokerState.items, BrokerState.setWorker_workers]
  split
  · case isTrue hm => rw [hm, Function.update_self]
  · case isFalse hm => rw [Function.update_of_ne hm, BrokerState.items]

/-- The work of one step changes, and no collect item of it. -/
theorem setWorker {w : InternalStepWorkerState}
    (h : ∀ p, w.records.countP (fun r => r.isItem p) = (σ.workers n).records.countP fun r => r.isItem p) :
    Creates σ (σ.setWorker n w) := by
  refine ⟨[], (List.append_nil _).symm, fun m p => ?_⟩
  rw [items_setWorker]
  split
  · case isTrue hm =>
    rw [h, hm]
    rfl
  · rfl

/-- An attempt that carries no payload is added. -/
theorem adds {a : EventAttempt} (ha : a.collectionReleasePayload = none) {w : InternalStepWorkerState}
    (hw : w.records = (σ.workers n).records) : Creates σ (σ.setWorker n (addOrEnqueueEvent c n a now w).1) := by
  refine setWorker fun p => ?_
  have hother : a.record.isItem p = false := by
    rw [WorkRecord.isItem, EventAttempt.record, ha]
    rfl
  rw [WorkAux.addOrEnqueueEvent_records, hw, Multiset.countP_cons, hother]
  simp

/-- The bookkeeping of streams adds the items of the releases that it fires. -/
theorem of_serves {Q : StepConfig → CollectionBinding → Prop} {r : BrokerState × List WorkflowCommand} (h : Serves now Q σ r) :
    Creates σ r.1 := by
  induction h with
  | @keeps σ σ' hw _ _ _ hlog =>
    obtain ⟨l, hlog, hl⟩ := hlog
    refine ⟨l, hlog, fun n p => ?_⟩
    have hnone : l.countP (LogEntry.creates n p) = 0 := by
      rw [List.countP_eq_zero]
      intro e he
      have := hl e he
      cases e <;> simp_all [LogEntry.isRelease, LogEntry.creates]
    rw [hnone, BrokerState.items, hw]
    rfl
  | @fires σ c b _ s es out =>
    refine ⟨[.released b s (CollectionReleasePayload.mk b.id s es out).toAttempt], rfl, fun n p => ?_⟩
    have hset := items_setWorker σ b.targetStep (addOrEnqueueEvent c b.targetStep
      (CollectionReleasePayload.mk b.id s es out).toAttempt now (σ.workers b.targetStep)).1 n p
    refine Eq.trans hset ?_
    rw [List.countP_singleton, LogEntry.creates, WorkAux.addOrEnqueueEvent_records, Multiset.countP_cons]
    by_cases hn : n = b.targetStep
    · subst hn
      simp [BrokerState.items]
    · simp [hn, Ne.symm hn]
  | seq _ _ ih ih' => exact ih.trans ih'

/-! ## Routing -/

/-- A delivered attempt is no collect invocation. -/
theorem deliver {tick : TickAddEvent} (htick : tick.attempts = none) (σ : BrokerState) :
    Creates σ (deliverToStep cfg c tick n now σ).1 := by
  have hcons : consumeSupersededDelayedAttempt tick (σ.workers n) = σ.workers n := by
    simp [consumeSupersededDelayedAttempt, htick]
  unfold deliverToStep
  rw [hcons]
  dsimp only
  split
  · exact adds rfl rfl
  · case h_2 ps _ =>
    have hrec := RoutingAux.staticCollectEvents_records tick.event c ps (σ.workers n)
    split
    · exact (setWorker fun p => by rw [hrec]).trans (of_serves (Serves.adjust cfg now _ _ _))
    · exact adds rfl hrec

/-- Routing makes an item for each batch that it logs. -/
theorem of_routes {tick : TickAddEvent} (htick : tick.attempts = none) {r : BrokerState × List WorkflowCommand}
    (h : Routes cfg now tick σ r) : Creates σ r.1 := by
  induction h with
  | serves h => exact of_serves h
  | fails n e => exact of_eq rfl rfl
  | delivers _ => exact deliver htick _
  | seq _ _ ih ih' => exact ih.trans ih'

end Creates

/-! ## Ticks -/

/-- A change of the state in which the items of a step grow by no more than the new records of the log tell, and those that
they tell are there in the end. -/
def Accrues (σ σ' : BrokerState) : Prop :=
  ∃ l, σ'.log = σ.log ++ l ∧ ∀ n p, σ'.items n p ≤ σ.items n p + l.countP (LogEntry.creates n p) ∧
    l.countP (LogEntry.creates n p) ≤ σ'.items n p

namespace CollectItemsAux

open PlainAux CommandsAux StepResultAux ResultAux

variable {cfg : BrokerConfig} {now : Time} {runId : Option String} {σ τ : BrokerState} {n : StepId} {c : StepConfig}
  {x : InProgressState} {id : Nat} {r : BrokerState × List WorkflowCommand}

theorem accrues_of_creates {σ' : BrokerState} (h : Creates σ σ') : Accrues σ σ' := by
  obtain ⟨l, hlog, hitems⟩ := h
  refine ⟨l, hlog, fun n p => ?_⟩
  have := hitems n p
  omega

variable (now c) in
/-- The end of an execution takes its item away. -/
theorem endExecution_items (hx : (τ.workers n).execution? id = some x) (m : StepId) (p : CollectionReleasePayload) :
    (endExecution now c n x τ).items m p + (if m = n ∧ x.record.isItem p then 1 else 0) = τ.items m p := by
  unfold endExecution
  dsimp only
  rw [Creates.items_setWorker, WorkAux.drainEligibleQueue_records, Creates.items_setWorker]
  by_cases hm : m = n
  · subst hm
    rw [BrokerState.items, WorkAux.eraseExecution_records hx, workerId_of_execution hx, Multiset.countP_cons]
    simp
  · simp [hm]

/-- An execution that ends after releases have added items. -/
theorem ended_accrues (h : Creates σ τ) (hx : (σ.workers n).execution? id = some x)
    (hx' : (τ.workers n).execution? id = some x) : Accrues σ (endExecution now c n x τ) := by
  obtain ⟨l, hlog, hitems⟩ := h
  refine ⟨l, hlog, fun m p => ?_⟩
  have h₁ := endExecution_items now c hx m p
  have h₂ := endExecution_items now c hx' m p
  have h₃ := hitems m p
  omega

/-- An execution that is retried leaves its item in the queue. -/
theorem retried_accrues (hx : (σ.workers n).execution? id = some x) (f : StepWorkerFailed) (first : Time)
    (notBefore : Option Time) : Accrues σ (endExecution now c n x
      (σ.setWorker n { σ.workers n with queue := x.retried f first notBefore :: (σ.workers n).queue })) := by
  generalize hw : ({ σ.workers n with queue := x.retried f first notBefore :: (σ.workers n).queue } : InternalStepWorkerState) = w
  have hx' : ((σ.setWorker n w).workers n).execution? id = some x := by
    rw [BrokerState.setWorker_workers, Function.update_self, ← hw]
    exact hx
  have hrec : w.records = (x.retried f first notBefore).record ::ₘ (σ.workers n).records := hw ▸ rfl
  have hsame : ∀ p, (x.retried f first notBefore).record.isItem p = x.record.isItem p := fun p => rfl
  refine ⟨[], (List.append_nil _).symm, fun m p => ?_⟩
  have hends := endExecution_items now c hx' m p
  rw [Creates.items_setWorker, hrec, Multiset.countP_cons, hsame] at hends
  by_cases hm : m = n
  · subst hm
    rw [if_pos rfl] at hends
    change _ = σ.items m p + _ at hends
    simp only [true_and] at hends
    exact ⟨by simp; omega, Nat.zero_le _⟩
  · rw [if_neg hm, if_neg fun h => hm h.1] at hends
    exact ⟨by simp; omega, Nat.zero_le _⟩

/-- A step result ends at most the item that it is of. -/
theorem stepResult_accrues {t : TickStepResult} (ht : PlainResults t.result)
    (hr : processStepResultTick cfg t σ now runId = .ok r) (hgo : ∀ d ∈ r.2, d.indicatesExit = false) : Accrues σ r.1 := by
  obtain ⟨c, x, hc, hx, heffect⟩ := processStepResultTick_plain ht hr
  cases heffect with
  | stopped _ hs hl hexit =>
    obtain ⟨d, hd, hexit⟩ := hexit
    exact absurd ((hgo d hd).symm.trans hexit) Bool.false_ne_true
  | completed es cs hcx hct =>
    have hserves := Serves.adjust cfg now x.scopePath.getLast? (successors cfg es - 1) σ
    exact ended_accrues (.of_serves hserves) hx ((hserves.frame.workers _).execution hx)
  | fannedOut es cs hcx hct =>
    have hserves := Serves.openChild cfg now t.stepId (openedScope σ t.stepId x) (openedStream σ t.stepId x)
      (successors cfg es) x { σ with streamSeq := σ.streamSeq + 1 }
    have hseq : Creates σ { σ with streamSeq := σ.streamSeq + 1 } := .of_eq rfl rfl
    exact ended_accrues (hseq.trans (.of_serves hserves)) hx ((hserves.frame.workers _).execution hx)
  | retried f first notBefore cs hcx hct => exact retried_accrues hx f first notBefore
  | routed hd key hkey d hd' cs hcx hct => exact ended_accrues (Creates.refl σ) hx hx
  | failed f hf e e' => exact absurd (hgo (.failWorkflow t.stepId f.exception) (by simp)) (by simp [WorkflowCommand.indicatesExit])

theorem addEvent_creates {t : TickAddEvent} (ht : PlainTick σ.streamSeq (.addEvent t))
    (hwait : ∀ n, (σ.workers n).collectedWaiters = []) (hr : processAddEventTick cfg t σ now = .ok r) : Creates σ r.1 := by
  obtain ⟨⟨hw, -, -, -, hlog⟩, -, -, -, hatt, -, hpay⟩ := identifyWorkItem_fields t σ
  generalize hid : identifyWorkItem t σ = r' at hw hlog hatt hpay
  obtain ⟨σ', t'⟩ := r'
  dsimp only at hw hlog hatt hpay
  have hwait' : ∀ n, (σ'.workers n).collectedWaiters = [] := by
    rw [hw]
    exact hwait
  obtain ⟨hres, hsteps⟩ := resolveWaiters_of_none cfg now hwait' t'.event
  have hroute : Creates σ (routeToAcceptingSteps cfg t' [] now cfg.steps.entries σ').state :=
    (Creates.of_eq hw hlog).trans (Creates.of_routes (hatt.trans ht.1) (RoutingAux.routeToAcceptingSteps_routes cfg now t' []
      (fun q hq => (cfg.steps.get?_eq_some_iff _ _).2 hq) σ'))
  simp only [processAddEventTick, hid, hpay.trans ht.2.1, hres, hsteps, List.nil_append] at hr
  split at hr <;> cases hr <;> exact hroute

/-- Updates of one step after the other that keep its records. -/
theorem forEachStep_creates
    {f : StepConfig → StepId → InternalStepWorkerState → InternalStepWorkerState × List WorkflowCommand}
    (hf : ∀ c n w, (f c n w).1.records = w.records) (l : List (StepId × StepConfig)) (σ : BrokerState) :
    Creates σ (forEachStep f l σ).1 := by
  induction l generalizing σ with
  | nil => exact Creates.refl σ
  | cons q l ih => exact (Creates.setWorker fun p => by rw [hf]).trans (ih _)

/-- A tick that lets the run go on. -/
theorem reduceTick_accrues {tick : WorkflowTick} (ht : PlainTick σ.streamSeq tick)
    (hwait : ∀ n, (σ.workers n).collectedWaiters = [])
    (hr : reduceTick cfg tick σ now runId = .ok r) (hgo : ∀ d ∈ r.2, d.indicatesExit = false) : Accrues σ r.1 := by
  cases tick with
  | stepResult t =>
    obtain ⟨r', hr', rfl⟩ := map_eq_ok hr
    rw [withIdleCheck_fst]
    exact stepResult_accrues ht hr' (no_exit_of_withIdleCheck hgo)
  | addEvent t =>
    obtain ⟨r', hr', rfl⟩ := map_eq_ok hr
    rw [withIdleCheck_fst]
    exact accrues_of_creates (addEvent_creates ht hwait hr')
  | cancelRun => exact absurd hgo (not_goesOn_of_final rfl hr)
  | timeout t => exact absurd hgo (not_goesOn_of_final rfl hr)
  | idleRelease => exact absurd hgo (not_goesOn_of_final rfl hr)
  | publishEvent e =>
    cases hr
    rw [withIdleCheck_fst]
    exact accrues_of_creates (Creates.refl σ)
  | waiterTimeout n id =>
    cases hr
    rw [withIdleCheck_fst, waiterTimeout_of_none cfg now hwait]
    exact accrues_of_creates (Creates.refl σ)
  | idleCheck =>
    cases hr
    refine accrues_of_creates ?_
    unfold processIdleCheckTick
    split
    · split <;> exact .of_eq rfl rfl
    · exact Creates.refl σ
  | wakeup due =>
    cases hr
    rw [withIdleCheck_fst]
    refine accrues_of_creates (forEachStep_creates (fun c n w => ?_) _ σ)
    rw [WorkAux.drainEligibleQueue_records, WorkAux.wakeQueue_records]

/-- A step of a plain run that goes on. -/
theorem step_accrues {L L' : Loop} {a : Action} {owed : StreamId → Nat} (h : PlainLoop cfg owed L)
    (hstep : L.step cfg runId a = some L') (hout : L'.outcome = none) : Accrues L.state L'.state := by
  obtain ⟨hstate, hbuffer, -, -⟩ := h
  rcases step_advance hstep with ⟨h₁, -, -⟩ | ⟨now, -, tick, rest, hb, cs, hr, hx, -, -⟩
  · rw [h₁]
    exact accrues_of_creates (Creates.refl _)
  · rw [hb] at hbuffer
    exact reduceTick_accrues (hbuffer tick List.mem_cons_self) hstate.waiters hr (hx hout)

end CollectItemsAux

end LlamaAgents
