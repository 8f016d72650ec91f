import LlamaAgents.Journal
import LlamaAgents.Workflow
import LlamaAgents.Lemmas.Commands

/-!
# Emitted events and crashes

The runner journals a step result first and turns the events it emitted into ticks of their own, which wait in memory until
their turn. A process that stops in between loses them: a replay drops the commands of the step result, and nothing else
remembers them. In every other state each emitted event has its own tick in the journal.
-/

namespace LlamaAgents

open CommandsAux

namespace EmissionAux

variable {cfg : BrokerConfig} {runId : Option String}

theorem mem_newTicks {cs : List WorkflowCommand} {t : WorkflowTick} (h : t ∈ newTicks cs) : ∃ d, t = .addEvent d := by
  obtain ⟨d, -, hd⟩ := List.mem_filterMap.1 h
  cases d <;> cases hd
  exact ⟨_, rfl⟩

theorem mem_emits {L : Loop} {a : Action} {t : WorkflowTick} (h : t ∈ L.emits cfg runId a) : ∃ d, t = .addEvent d := by
  unfold Loop.emits at h
  split at h
  · split at h
    · split at h
      · exact mem_newTicks h
      · cases h
    · cases h
  · cases h

/-- An action that journals nothing emits nothing. -/
theorem emits_of_journal {L L' : Loop} {a : Action} (hstep : L.step cfg runId a = some L') (hj : L'.journal = L.journal) :
    L.emits cfg runId a = [] := by
  unfold Loop.emits
  split
  · split
    · case h_1 t rest hb =>
      split
      · case h_1 r hr =>
        have hnew := journal_of_result hstep hb hr
        rw [hj] at hnew
        exact absurd (congrArg List.length hnew) (by simp)
      · rfl
    · rfl
  · rfl

/-- While the run goes on, every emitted event is journaled or waits in the buffer. -/
structure Accounted (R : EmittingRun) : Prop where
  added : ∀ t ∈ R.emitted, ∃ d, t = .addEvent d
  counted : R.session.loop.outcome = none →
    ∀ t, R.emitted.count t ≤ R.session.journal.count t + R.session.loop.tickBuffer.count t

/-- One action of the loop. -/
theorem loop_accounted {R : EmittingRun} (h : Accounted R) {L : Loop} {a : Action}
    (hstep : R.session.loop.step cfg runId a = some L) :
    Accounted ⟨{ R.session with loop := L }, R.emitted ++ R.session.loop.emits cfg runId a⟩ := by
  have hadded : ∀ t ∈ R.emitted ++ R.session.loop.emits cfg runId a, ∃ d, t = .addEvent d := by
    intro t ht
    rcases List.mem_append.1 ht with ht | ht
    · exact h.added t ht
    · exact mem_emits ht
  refine ⟨hadded, ?_⟩
  intro hout t
  have hold := h.counted (outcome_of_step hstep) t
  rcases step_advance hstep with ⟨-, hj, hbuffer⟩ | ⟨now, rfl, tick, rest, hb, cs, hr, hgo, hj, ts, hts, hfilter⟩
  · dsimp only
    rw [emits_of_journal hstep hj, List.append_nil, Session.journal, hj]
    exact hold.trans (Nat.add_le_add_left (hbuffer hout t) _)
  · by_cases hmem : t ∈ R.emitted ++ R.session.loop.emits cfg runId (.drain now)
    · obtain ⟨d, rfl⟩ := hadded t hmem
      -- the emitted events are the new ticks of a step result, and every new tick is buffered
      have hnew : (newTicks cs).count (.addEvent d) = ts.count (.addEvent d) := by
        have hall : (cs.takeWhile fun d => !d.indicatesExit) = cs := takeWhile_of_no_exit (hgo hout)
        rw [hall] at hfilter
        rw [← hfilter, List.count_filter (by simp)]
      have hemits : (R.session.loop.emits cfg runId (.drain now)).count (.addEvent d) ≤ ts.count (.addEvent d) := by
        rw [← hnew]
        unfold Loop.emits
        rw [hb]
        dsimp only
        split
        · case h_1 t' rest' heq =>
          cases heq
          rw [hr]
        · exact Nat.zero_le _
      have hdecoded : ([tick] : List WorkflowTick).count (.addEvent d) ≤ [tick.decoded].count (.addEvent d) := by
        cases tick with
        | stepResult t' => simp
        | _ => exact le_rfl
      dsimp only
      rw [Session.journal, hb, ← List.singleton_append] at hold
      rw [Session.journal, hj, hts, List.map_append, List.map_singleton]
      simp only [List.count_append] at hold ⊢
      omega
    · rw [List.count_eq_zero_of_not_mem hmem]
      exact Nat.zero_le _

/-- Every state that a run reaches by actions that keep the emitted events accounts for them. -/
theorem run_accounted {start : Event} {now : Time} {R : EmittingRun}
    (hrun : Lib.Run (EmittingRun.step cfg runId) (fun R a => R.keepsEmitted a) (EmittingRun.start cfg start now) R) :
    Accounted R := by
  refine hrun.invariant Accounted ⟨fun t ht => absurd ht List.not_mem_nil, fun _ t => Nat.zero_le _⟩ ?_
  intro R a R' hR ha hstep
  obtain ⟨S, hS, rfl⟩ := Option.map_eq_some_iff.1 hstep
  cases a with
  | loop a =>
    obtain ⟨L, hL, rfl⟩ := Option.map_eq_some_iff.1 hS
    exact loop_accounted hR hL
  | resume clock e now =>
    obtain ⟨σ, hσ, rfl⟩ := Option.map_eq_some_iff.1 hS
    rw [EmittingRun.keepsEmitted, EmittingRun.isFlushed, Bool.and_eq_true, decide_eq_true_eq, List.all_eq_true] at ha
    dsimp only
    rw [List.append_nil]
    refine ⟨hR.added, ?_⟩
    intro _ t
    by_cases hmem : t ∈ R.emitted
    · have hgone : R.session.loop.tickBuffer.count t = 0 := by
        rw [List.count_eq_zero]
        simpa using ha.2 t hmem
      have hold := hR.counted ha.1 t
      have hjournal := (start_fields cfg σ (if σ.isRunning then none else some e) now).2
      dsimp only
      rw [Session.journal, hjournal, List.map_nil, List.append_nil]
      dsimp only
      omega
    · rw [List.count_eq_zero_of_not_mem hmem]
      exact Nat.zero_le _

end EmissionAux

open EmissionAux

/-- A crash loses no emitted event: when a run is interrupted only where no emitted event waits in memory, then at each such
point every event that a journaled step result emitted, returned or routed to a handler, has a tick of its own in the journal,
as often as it was emitted. -/
theorem crash_loses_no_emitted_event (cfg : BrokerConfig) (runId : Option String) (start : Event) (now : Time)
    {R : EmittingRun}
    (hrun : Lib.Run (EmittingRun.step cfg runId) (fun R a => R.keepsEmitted a) (EmittingRun.start cfg start now) R)
    (hflushed : R.isFlushed) (t : WorkflowTick) : R.emitted.count t ≤ R.session.journal.count t := by
  rw [EmittingRun.isFlushed, Bool.and_eq_true, decide_eq_true_eq, List.all_eq_true] at hflushed
  by_cases hmem : t ∈ R.emitted
  · have hgone : R.session.loop.tickBuffer.count t = 0 := by
      rw [List.count_eq_zero]
      simpa using hflushed.2 t hmem
    have hcounted := (run_accounted hrun).counted hflushed.1 t
    omega
  · rw [List.count_eq_zero_of_not_mem hmem]
    exact Nat.zero_le _

namespace TwoJobs

/-- What the first step hands to the second. -/
def job : EventType := ⟨"Job", "app.Job", ["workflows.events.Event"]⟩

/-- A job with a number. -/
def jobOf (k : Int) : Event := ⟨job, [("n", .int k)]⟩

/-- A workflow whose second step has one worker. -/
def workflow : Workflow where
  name := "Jobs"
  steps := ⟨[("begin", plainStep [.startEvent] [job] defaultNumWorkers none),
    ("work", plainStep [job] [.stopEvent] ⟨1, Nat.one_pos⟩ none)], by simp⟩

/-- The first job is in progress. -/
def oneJob : List SessionAction :=
  [.loop (.drain 1), .loop (.finish 0 (.ret (.event (jobOf 1))) 1), .loop (.drain 1), .loop (.drain 1), .loop (.drain 1)]

/-- A second job is sent and waits for the worker. -/
def anotherJob : List SessionAction := [.loop (.send (.addEvent (jobOf 2) none ∅)), .loop .pull, .loop (.drain 2)]

/-- The process stops and the run is resumed. -/
def resumed : SessionAction := .resume (fun _ => 3) ⟨.startEvent, []⟩ 4

/-- The first step has returned a job, and its result is journaled. -/
def begun : List SessionAction :=
  [.loop (.drain 1), .loop (.finish 0 (.ret (.event (jobOf 1))) 1), .loop (.drain 1)]

/-- Whether the job was emitted, is not in the journal, and is nowhere in the run resumed from it. -/
def jobLost (R : EmittingRun) : Bool :=
  R.emitted.contains (.addEvent { event := jobOf 1 }) && !R.session.journal.contains (.addEvent { event := jobOf 1 }) &&
    match R.session.step workflow.config none resumed with
    | some S => !S.loop.holds workflow.config (jobOf 1) && S.loop.workers.isEmpty && S.loop.tickBuffer.isEmpty
    | none => false

end TwoJobs

open TwoJobs in
/-- The process stops after the result of the first step is journaled and before the tick of the job it returned is reduced.
The resumed run does not know of the job, and has nothing else to do. -/
theorem crash_loses_no_emitted_event_false : workflow.isValid ∧
    ∃ R, Lib.Run (EmittingRun.step workflow.config none) (fun _ _ => True)
      (EmittingRun.start workflow.config ⟨.startEvent, []⟩ 0) R ∧
      WorkflowTick.addEvent { event := jobOf 1 } ∈ R.emitted ∧
      WorkflowTick.addEvent { event := jobOf 1 } ∉ R.session.journal ∧
      ∃ S, R.session.step workflow.config none resumed = some S ∧ S.loop.holds workflow.config (jobOf 1) = false ∧
        S.loop.workers = [] ∧ S.loop.tickBuffer = [] := by
  refine ⟨by decide, ?_⟩
  obtain ⟨R, hrun, hlost⟩ := Lib.Run.exists_of_actions (EmittingRun.step workflow.config none)
    (EmittingRun.start workflow.config ⟨.startEvent, []⟩ 0) begun (jobLost ·) (by decide +kernel)
  refine ⟨R, hrun, ?_⟩
  rw [jobLost, Bool.and_eq_true, Bool.and_eq_true] at hlost
  obtain ⟨⟨hemitted, hjournal⟩, hresumed⟩ := hlost
  split at hresumed
  · case h_1 S hS =>
    simp only [Bool.and_eq_true, Bool.not_eq_true', List.isEmpty_iff] at hresumed
    exact ⟨by simpa using hemitted, by simpa using hjournal, S, hS, hresumed.1.1, hresumed.1.2, hresumed.2⟩
  · cases hresumed

open TwoJobs in
/-- The run is interrupted and resumed while the job is in progress. -/
theorem crash_loses_no_emitted_event_resumed : ∃ R : EmittingRun, R.session.earlier ≠ [] ∧ R.emitted ≠ [] ∧
    ∀ t, R.emitted.count t ≤ R.session.journal.count t := by
  obtain ⟨R, hrun, hflushed, hearlier, hemitted⟩ := Lib.Run.exists_of_exec (EmittingRun.step workflow.config none)
    (fun R a => R.keepsEmitted a) (EmittingRun.start workflow.config ⟨.startEvent, []⟩ 0)
    (oneJob ++ resumed :: anotherJob) (fun R => R.isFlushed ∧ R.session.earlier ≠ [] ∧ R.emitted ≠ []) (by decide +kernel)
  exact ⟨R, hearlier, hemitted, crash_loses_no_emitted_event workflow.config none ⟨.startEvent, []⟩ 0 hrun hflushed⟩

end LlamaAgents
