import LlamaAgents.Theorems.Pools

/-!
# Delayed retries and their wakeups

The attempt of a delayed retry is in the broker's state and its wakeup in the loop's. While a run goes on, every delayed attempt
has a wakeup that is scheduled or buffered and not due too early; a wakeup leaves alone what is delayed past it.
-/

namespace LlamaAgents

namespace WakeupsAux

open CommandsAux WorkMovesAux PoolsAux

variable {cfg : BrokerConfig} {runId : Option String} {raises : PolicyErrors} {now : Time} {c : StepConfig} {n : StepId}
  {w w' : InternalStepWorkerState} {t : Time}

/-! ## Delayed attempts -/

theorem not_isEligible {a : EventAttempt} (ha : a.notBefore = some t) : a.isEligible = false := by
  rw [EventAttempt.isEligible, ha]
  rfl

/-- Moving work delays nothing. -/
theorem workMove_delayed (hmove : WorkMove now c n w w') {a : EventAttempt} (ha : a ∈ w'.queue) (ht : a.notBefore = some t) :
    a ∈ w.queue := by
  induction hmove with
  | rests queue _ _ => exact queue ▸ ha
  | @adds w b heligible _ =>
    rcases DispatchAux.addOrEnqueueEvent_queue now c b w a ha with ha | rfl
    · exact ha
    · rw [not_isEligible ht] at heligible
      cases heligible
  | seq _ _ ih₁ ih₂ => exact ih₁ (ih₂ ha)

/-- Draining leaves delayed attempts in the queue, and brings none. -/
theorem mem_drained_iff {a : EventAttempt} (ht : a.notBefore = some t) :
    a ∈ (drainEligibleQueue c n now w).1.queue ↔ a ∈ w.queue := by
  have hmem : ∀ q : List EventAttempt, a ∈ (q.filter fun a => !a.isEligible) ↔ a ∈ q := by
    intro q
    rw [List.mem_filter, not_isEligible ht]
    exact and_iff_left rfl
  rw [← hmem, ← hmem w.queue, (drainEligibleQueue_inOrder c n now w).queue.delayed]

/-- An attempt that is delayed after a wakeup was delayed before, past the time of the wakeup. -/
theorem mem_woken {a : EventAttempt} {due : Time} {q : List EventAttempt} (ht : a.notBefore = some t) :
    a ∈ q.map (fun a => a.wake due) ↔ a ∈ q ∧ due < t := by
  constructor
  · intro ha
    obtain ⟨b, hb, rfl⟩ := List.mem_map.1 ha
    unfold EventAttempt.wake at ht ⊢
    split at ht
    · cases ht
    · case isFalse hlate =>
      rw [if_neg hlate]
      rw [ht] at hlate
      exact ⟨hb, by simpa using hlate⟩
  · rintro ⟨ha, hdue⟩
    refine List.mem_map.2 ⟨a, ha, ?_⟩
    rw [EventAttempt.wake, ht, if_neg (by simpa using hdue)]

variable {σ : BrokerState} {r : BrokerState × List WorkflowCommand}

/-- An attempt that is delayed after an execution's result was delayed before, or a wakeup is scheduled for it. -/
theorem ends_delayed {tick : TickStepResult} (hends : WorkEnds cfg now tick σ r) {c : StepConfig}
    (hc : cfg.steps.get? n = some c) {a : EventAttempt} (ha : a ∈ (r.1.workers n).queue) (ht : a.notBefore = some t) :
    a ∈ (σ.workers n).queue ∨ .scheduleWakeup t ∈ r.2 := by
  rcases hends with ⟨hothers, -, hqueue⟩ | ⟨c', -, front, w₁, w₂, hothers, -, hqueue, hwakeups, hmove, w₃, hw₃, hdrained⟩
  · by_cases hn : n = tick.stepId
    · subst hn
      exact Or.inl (hqueue ▸ ha)
    · exact Or.inl (hothers n hn ▸ ha)
  · by_cases hn : n = tick.stepId
    · subst hn
      rw [hdrained, mem_drained_iff ht] at ha
      have ha₂ : a ∈ w₂.queue := by
        rcases hw₃ with rfl | ⟨id, rfl⟩ <;> exact ha
      have ha₁ := workMove_delayed hmove ha₂ ht
      rw [hqueue] at ha₁
      exact (List.mem_append.1 ha₁).symm.imp id fun ha => (hwakeups a ha).2 t ht
    · exact Or.inl (workMove_delayed (hothers n hn c hc) ha ht)

/-- An attempt that is delayed after a tick was delayed before, past the time of the tick if that is a wakeup; or the tick has a
wakeup scheduled for it. -/
theorem reduceTick_delayed {tick : WorkflowTick} (hadd : ∀ t, tick = .addEvent t → t.attempts = none)
    (hr : reduceTick cfg tick σ now runId = .ok r) (hexit : ∀ d ∈ r.2, d.indicatesExit = false)
    (hc : cfg.steps.get? n = some c) {a : EventAttempt} (ha : a ∈ (r.1.workers n).queue) (ht : a.notBefore = some t) :
    (a ∈ (σ.workers n).queue ∧ ∀ due, tick = .wakeup due → due < t) ∨ .scheduleWakeup t ∈ r.2 := by
  by_cases hresult : ∃ t, tick = .stepResult t
  · obtain ⟨t', rfl⟩ := hresult
    obtain ⟨r', hr', rfl⟩ := PlainAux.map_eq_ok hr
    rw [withIdleCheck_fst] at ha
    refine (ends_delayed (stepResult_ends hr' (no_exit_of_withIdleCheck hexit)) hc ha ht).imp (fun ha => ⟨ha, nofun⟩)
      CommandsAux.mem_withIdleCheck
  · by_cases hwakeup : ∃ due, tick = .wakeup due
    · obtain ⟨due, rfl⟩ := hwakeup
      rw [wakeup_workers hr hc, mem_drained_iff ht, mem_woken ht] at ha
      refine Or.inl ⟨ha.1, ?_⟩
      rintro _ ⟨⟩
      exact ha.2
    · have hfirst : ∀ t, tick = .addEvent t → t.attempts.getD 0 = 0 := fun t ht => by rw [hadd t ht]; rfl
      have hmove := reduceTick_moves (fun t ht => hresult ⟨t, ht⟩) (fun t ht => hwakeup ⟨t, ht⟩) hfirst hr n c hc
      exact Or.inl ⟨workMove_delayed hmove ha ht, fun due hdue => absurd ⟨due, hdue⟩ hwakeup⟩

/-! ## Wakeups -/

/-- What waits in a loop waits in one that has all its ticks. -/
theorem wakesBy_mono {L L' : Loop} (h : L.WakesBy t) (hbuffer : ∀ due, .wakeup due ∈ L.tickBuffer →
      t ≤ due → .wakeup due ∈ L'.tickBuffer ∨ ∃ e ∈ L'.scheduledWakeups, e.2.2 = .wakeup due)
    (hscheduled : ∀ e ∈ L.scheduledWakeups, e ∈ L'.scheduledWakeups ∨ e.2.2 ∈ L'.tickBuffer) : L'.WakesBy t := by
  obtain ⟨due, hdue, hmem | ⟨e, he, heq⟩⟩ := h
  · exact ⟨due, hdue, hbuffer due hmem hdue⟩
  · refine ⟨due, hdue, (hscheduled e he).symm.imp ?_ ?_⟩
    · exact fun hbuffered => heq ▸ hbuffered
    · exact fun he => ⟨e, he, heq⟩

/-- The invariant of a run: no waiting tick has attempts, and while it goes on every delayed attempt has its wakeup. -/
structure ArmedRun (cfg : BrokerConfig) (L : Loop) : Prop where
  ticks : L.TicksAre Unattempted
  armed : L.outcome = none → ∀ n c, cfg.steps.get? n = some c → ∀ a ∈ (L.state.workers n).queue, ∀ t,
    a.notBefore = some t → L.WakesBy t

/-- Reducing the first buffered tick. -/
theorem processTick_armed {L M : Loop} (h : ArmedRun cfg L) (hlive : L.outcome = none) {tick : WorkflowTick}
    {rest : List WorkflowTick} (hb : L.tickBuffer = tick :: rest) (hstate : M.state = L.state) (hrest : M.tickBuffer = rest)
    (hscheduled : M.scheduledWakeups = L.scheduledWakeups) (hout : (M.processTick cfg runId now tick).outcome = none)
    (hc : cfg.steps.get? n = some c) {a : EventAttempt} (ha : a ∈ ((M.processTick cfg runId now tick).state.workers n).queue)
    (ht : a.notBefore = some t) : (M.processTick cfg runId now tick).WakesBy t := by
  unfold Loop.processTick at hout ha ⊢
  split at hout
  · cases hout
  · case h_2 τ cs hr =>
    rw [hr] at ha
    dsimp only at ha
    have hexit := no_exit_of_outcome_eq_none now hout
    rw [(processCommands_fields now _ cs).1] at ha
    rw [hstate] at hr
    have hadd : ∀ t, tick = .addEvent t → t.attempts = none := by
      rintro t rfl
      exact h.ticks.buffer _ (hb ▸ List.mem_cons_self)
    obtain ⟨ts, hts, -⟩ := processCommands_tickBuffer now { M with state := τ, journal := M.journal ++ [tick] } cs
    have hkept := (processCommands_reschedules now { M with state := τ, journal := M.journal ++ [tick] } cs).kept
    rcases reduceTick_delayed hadd hr hexit hc ha ht with ⟨ha, hlate⟩ | hd
    · refine wakesBy_mono (h.armed hlive n c hc a ha t ht) ?_ ?_
      · -- the wakeup that is reduced is not the one that is due for this attempt
        intro due hmem hdue
        rw [hb] at hmem
        rcases List.mem_cons.1 hmem with heq | hmem
        · exact absurd (hlate due heq.symm) (not_lt.2 hdue)
        · rw [hts]
          exact Or.inl (List.mem_append_left _ (hrest ▸ hmem))
      · intro e he
        rw [← hscheduled] at he
        exact Or.inl (hkept he)
    · obtain ⟨e, he, heq⟩ := processCommands_schedules now { M with state := τ, journal := M.journal ++ [tick] } hexit hd rfl
      exact ⟨t, le_rfl, Or.inr ⟨e, he, heq⟩⟩

/-- An action of the loop keeps the wakeups of delayed attempts. -/
theorem step_armed {L L' : Loop} (h : ArmedRun cfg L) {b : Action} (hstep : L.step cfg runId b = some L')
    (hout : L'.outcome = none) (hc : cfg.steps.get? n = some c) {a : EventAttempt} (ha : a ∈ (L'.state.workers n).queue)
    (ht : a.notBefore = some t) : L'.WakesBy t := by
  have hlive := outcome_of_step hstep
  cases step_moves hstep with
  | rotates now hb =>
    refine wakesBy_mono (h.armed hlive n c hc a ha t ht) (fun due hmem _ => Or.inl ?_) fun e he => Or.inl he
    rw [hb] at hmem
    exact (@List.perm_append_comm _ [WorkflowTick.idleCheck] _).mem_iff.1 hmem
  | processes now hb _ => exact processTick_armed h hlive hb rfl rfl rfl hout hc ha ht
  | takesDue now hb =>
    refine wakesBy_mono (h.armed hlive n c hc a ha t ht) (fun due hmem _ => Or.inl (List.mem_append_left _ hmem)) ?_
    intro e he
    rw [← List.takeWhile_append_dropWhile (p := fun e => decide (e.1 ≤ now)) (l := L.scheduledWakeups)] at he
    rcases List.mem_append.1 he with he | he
    · exact Or.inr (List.mem_append_right _ (List.mem_map_of_mem he))
    · exact Or.inl he
  | pulls hb hm =>
    refine wakesBy_mono (h.armed hlive n c hc a ha t ht) (fun due hmem _ => ?_) fun e he => Or.inl he
    rw [hb] at hmem
    cases hmem
  | finishes program failedAt hb hw =>
    exact wakesBy_mono (h.armed hlive n c hc a ha t ht) (fun due hmem _ => Or.inl (List.mem_append_left _ hmem))
      fun e he => Or.inl he
  | sends message => exact h.armed hlive n c hc a ha t ht

theorem stepTasks_armedRun {L L' : Loop} (h : ArmedRun cfg L) {a : TaskAction}
    (hstep : L.stepTasks cfg runId raises a = some L') : ArmedRun cfg L' where
  ticks := SlotsAux.stepTasks_ticksAre unattempted_produced (fun _ => trivial) h.ticks hstep
  armed hout n c hc a' ha t ht := by
    rcases SlotsAux.stepTasks_cases hstep with ⟨b, -, hb⟩ | hended
    · exact step_armed h hb hout hc ha ht
    · have hstate : L'.state = L.state := by rw [hended.rest]
      have hscheduled : L'.scheduledWakeups = L.scheduledWakeups := by rw [hended.rest]
      refine wakesBy_mono (h.armed hended.outcome n c hc a' (hstate ▸ ha) t ht) (fun due hmem _ => ?_) fun e he =>
        Or.inl (hscheduled ▸ he)
      rw [hended.waited] at hmem
      cases hmem

theorem stepWoken_armedRun {L L' : Loop} (h : ArmedRun cfg L) {a : TaskAction ⊕ (Time × Time)}
    (hstep : L.stepWoken cfg runId raises a = some L') : ArmedRun cfg L' := by
  rcases a with a | ⟨due, atTime⟩
  · exact stepTasks_armedRun h hstep
  · cases hstep
    refine ⟨⟨h.ticks.buffer, h.ticks.mailbox, ?_⟩, fun hout n c hc a ha t ht => ?_⟩
    · intro e he
      rcases (mem_insertWakeup _ _ _).1 he with rfl | he
      · trivial
      · exact h.ticks.wakeups e he
    · exact wakesBy_mono (h.armed hout n c hc a ha t ht) (fun due hmem _ => Or.inl hmem) fun e he =>
        Or.inl ((mem_insertWakeup _ _ _).2 (Or.inr he))

/-- What the update of a step commands is commanded. -/
theorem mem_forEachStep {f : StepConfig → StepId → InternalStepWorkerState → InternalStepWorkerState × List WorkflowCommand}
    {l : List (StepId × StepConfig)} (hl : (l.map Prod.fst).Nodup) {q : StepId × StepConfig} (hq : q ∈ l) {σ : BrokerState}
    {d : WorkflowCommand} (hd : d ∈ (f q.2 q.1 (σ.workers q.1)).2) : d ∈ (forEachStep f l σ).2 := by
  induction l generalizing σ with
  | nil => cases hq
  | cons q' l ih =>
    rw [List.map_cons, List.nodup_cons] at hl
    rcases List.mem_cons.1 hq with rfl | hq
    · exact List.mem_append_left _ hd
    · have hne : q.1 ≠ q'.1 := fun heq => hl.1 (heq ▸ List.mem_map_of_mem hq)
      refine List.mem_append_right _ (ih hl.2 hq ?_)
      rw [BrokerState.setWorker_workers, Function.update_of_ne hne]
      exact hd

/-- A start schedules a wakeup for each delayed attempt of the state. -/
theorem start_armedRun (cfg : BrokerConfig) (σ : BrokerState) (start : Option Event) (now : Time) :
    ArmedRun cfg (Loop.start cfg σ start now) where
  ticks := (start_pooledRun cfg σ start now).ticks
  armed _ n c hc a ha t ht := by
    rw [(start_fields cfg σ start now).1] at ha
    have hd : WorkflowCommand.scheduleWakeup t ∈ (rewindInProgress cfg now σ).2 := by
      refine mem_forEachStep (PlainAux.nodup_sortedSteps cfg) (mem_sortedSteps hc) (List.mem_append_right _ ?_)
      rw [ResumedAux.workers_rewound now cfg σ hc] at ha
      exact List.mem_filterMap.2 ⟨a, ha, by rw [ht]; rfl⟩
    obtain ⟨L, -, heq⟩ := start_eq cfg σ start now
    obtain ⟨e, he, htick⟩ := processCommands_schedules now L (SlotsAux.rewindInProgress_no_exit cfg now σ) hd rfl
    rw [heq]
    exact ⟨t, le_rfl, Or.inr ⟨e, he, htick⟩⟩

/-! ## Sequences of wakeups -/

/-- Attempts that are delayed until a time, in a queue. -/
theorem filter_delayed (t : Time) (q : List EventAttempt) :
    (q.filter fun a => !a.isEligible).filter (fun a => a.notBefore = some t) = q.filter fun a => a.notBefore = some t := by
  rw [List.filter_filter]
  refine List.filter_congr fun a _ => ?_
  by_cases ha : a.notBefore = some t <;> simp [ha, EventAttempt.isEligible]

theorem filter_wake {due : Time} (hdue : due < t) (q : List EventAttempt) :
    (q.map fun a => a.wake due).filter (fun a => a.notBefore = some t) = q.filter fun a => a.notBefore = some t := by
  have hlate : ∀ a : EventAttempt, a.notBefore = some t → a.wake due = a := by
    intro a ha
    rw [EventAttempt.wake, ha, if_neg (by simpa using hdue)]
  have hwake : ∀ a : EventAttempt, (a.wake due).notBefore = some t → a.notBefore = some t := by
    intro a ha
    unfold EventAttempt.wake at ha
    split at ha
    · cases ha
    · exact ha
  induction q with
  | nil => rfl
  | cons a q ih =>
    by_cases ha : a.notBefore = some t
    · rw [List.map_cons, hlate a ha, List.filter_cons_of_pos (by simpa using ha), List.filter_cons_of_pos (by simpa using ha), ih]
    · rw [List.map_cons, List.filter_cons_of_neg (by simpa using fun h => ha (hwake a h)),
        List.filter_cons_of_neg (by simpa using ha), ih]

/-- A wakeup that is due before a time leaves the attempts that are delayed until that time, in their order. -/
theorem processWakeupTick_later {due : Time} (hdue : due < t) (σ : BrokerState) (n : StepId) :
    (((processWakeupTick cfg due σ now).1.workers n).queue.filter fun a => a.notBefore = some t) =
      (σ.workers n).queue.filter fun a => a.notBefore = some t := by
  obtain ⟨hworkers, hothers⟩ := PlainAux.forEachStep_workers (f := fun c n w => drainEligibleQueue c n now
    { w with queue := w.queue.map fun a => a.wake due }) (PlainAux.nodup_sortedSteps cfg) σ
  by_cases hn : n ∈ cfg.sortedSteps.map Prod.fst
  · obtain ⟨⟨m, c⟩, hq, rfl⟩ := List.mem_map.1 hn
    rw [processWakeupTick, hworkers (m, c) hq, ← filter_delayed, (drainEligibleQueue_inOrder c m now _).queue.delayed,
      filter_delayed, filter_wake hdue]
  · rw [processWakeupTick, hothers n hn]

theorem reduceWakeups_later {l : List (Time × Time)} (hl : ∀ q ∈ l, q.1 < t) (σ : BrokerState) (n : StepId) :
    (((reduceWakeups cfg l σ).workers n).queue.filter fun a => a.notBefore = some t) =
      (σ.workers n).queue.filter fun a => a.notBefore = some t := by
  induction l generalizing σ with
  | nil => rfl
  | cons q l ih =>
    obtain ⟨hq, hl⟩ := List.forall_mem_cons.1 hl
    exact (ih hl _).trans (processWakeupTick_later hq σ n)

end WakeupsAux

open WakeupsAux

/-- No delayed retry is stranded. In every state that a run reaches while it goes on, an attempt that is queued with a delay has
a wakeup, scheduled or buffered, that is not due before the end of the delay, whatever other wakeups are scheduled. Wakeups that
are due before the end of a delay, however many, leave the attempts that wait for it. -/
theorem delayed_retries_wake (cfg : BrokerConfig) (runId : Option String) (raises : PolicyErrors) (σ : BrokerState)
    (start : Option Event) (now : Time) {L : Loop}
    (hrun : Lib.Run (Loop.stepWoken cfg runId raises) (fun _ _ => True) (Loop.start cfg σ start now) L) (n : StepId) :
    (L.outcome = none → ∀ c, cfg.steps.get? n = some c → ∀ a ∈ (L.state.workers n).queue, ∀ t, a.notBefore = some t →
      L.WakesBy t) ∧
    ∀ (τ : BrokerState) (wakeups : List (Time × Time)) (t : Time), (∀ q ∈ wakeups, q.1 < t) →
      (((reduceWakeups cfg wakeups τ).workers n).queue.filter fun a => a.notBefore = some t) =
        (τ.workers n).queue.filter fun a => a.notBefore = some t := by
  have hinv : ArmedRun cfg L :=
    hrun.invariant (ArmedRun cfg) (start_armedRun cfg σ start now) fun _ _ _ hL _ hs => stepWoken_armedRun hL hs
  exact ⟨fun hout c hc a ha t ht => hinv.armed hout n c hc a ha t ht, fun τ _ _ hl => reduceWakeups_later hl τ n⟩

open PoolRuns in
/-- A retry that is delayed until time 6 waits for the wakeup of that time. -/
theorem delayed_retries_wake_retried : ∃ L : Loop,
    ((L.state.workers "work").queue.map EventAttempt.notBefore = [some 6, none]) ∧ L.WakesBy 6 := by
  obtain ⟨L, hrun, hout, hqueue⟩ := Lib.Run.exists_of_actions (Loop.stepWoken workflow.config none fun _ _ _ _ => none)
    (Loop.start workflow.config {} (some item) 0) (failing.map Sum.inl)
    (fun L => L.outcome = none ∧ (L.state.workers "work").queue.map EventAttempt.notBefore = [some 6, none]) (by decide +kernel)
  have hmem : some 6 ∈ (L.state.workers "work").queue.map EventAttempt.notBefore := by simp [hqueue]
  obtain ⟨a, ha, ht⟩ := List.mem_map.1 hmem
  exact ⟨L, hqueue, (delayed_retries_wake workflow.config none (fun _ _ _ _ => none) {} (some item) 0 hrun "work").1 hout _ rfl a
    ha 6 ht⟩

end LlamaAgents
