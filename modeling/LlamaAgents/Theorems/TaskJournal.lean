import LlamaAgents.Lib.Run
import LlamaAgents.Dbos.TaskJournal
import LlamaAgents.Lemmas.Commands
import LlamaAgents.Workflow

/-!
# Recovery from the task journal

The journal names the tasks that the waits of the control loop returned, and not the waits that ran out of time. A recovery
returns the same tasks in the same order when its waits run out of time where the recorded ones did and no task has failed; a task
whose result DBOS has recorded completes at once, and comes before a timeout that it came after; one that has failed raises.

A recovery that runs out of time where the recorded execution did goes through the states of that execution, one after the other,
up to its end or to the end of its journal.
-/

namespace LlamaAgents

/-- What a wait returns, and the journal after it. -/
inductive TaskJournal.Waits (J : TaskJournal) (tasks : List TaskKey) (failure : TaskKey → Option TaskFailure)
    (completed : List TaskKey) : WaitResult → TaskJournal → Prop
  | replays {k : TaskKey} (htarget : J.target tasks = some k) (hk : k ∈ completed) :
      Waits J tasks failure completed (.returned (some k)) J.advance
  | records {k : TaskKey} (htarget : J.target tasks = none) (hk : completed.find? (fun k => k ∈ tasks) = some k) :
      Waits J tasks failure completed (.returned (some k)) (J.record k)
  | runsOut (hvain : J.waitsInVain tasks completed = true) : Waits J tasks failure completed (.returned none) J
  | fails {k : TaskKey} (htarget : J.target tasks = some k) (hk : failure k ≠ none) {r : WaitResult}
      (hr : ∀ k, r ≠ .returned (some k)) : Waits J tasks failure completed r J

/-- What each action does: it drains a tick, or waits with nothing to drain. -/
inductive DbosRun.Moves (cfg : BrokerConfig) (runId : Option String) (world : DurableWorld) (R : DbosRun) :
    DbosAction → DbosRun → Prop
  | drains {L : Loop} (hbuffer : R.loop.tickBuffer ≠ [])
      (hL : R.loop.step cfg runId (.drain (world.clock R.reads)) = some L) :
      Moves cfg runId world R .drain { R with loop := L, reads := R.reads + 1 }
  | waits {completed : List TaskKey} {o : Option TaskKey} {J : TaskJournal} (hbuffer : R.loop.tickBuffer = [])
      (hJ : R.journal.Waits R.tasks (R.failure world) completed (.returned o) J) :
      Moves cfg runId world R (.wait completed) { R.handle cfg runId world o with journal := J }
  | raises {completed : List TaskKey} {J : TaskJournal} (hbuffer : R.loop.tickBuffer = [])
      (hJ : R.journal.Waits R.tasks (R.failure world) completed .raised J) :
      Moves cfg runId world R (.wait completed) { R with raised := true }

namespace TaskJournalAux

open CommandsAux

variable {cfg : BrokerConfig} {runId : Option String} {world : DurableWorld} {J J' : TaskJournal} {tasks completed : List TaskKey}
  {timeout : Option Time} {failure : TaskKey → Option TaskFailure} {r : WaitResult} {R R' P : DbosRun} {a : DbosAction}

theorem waitForNextTask_waits (h : J.waitForNextTask tasks timeout failure completed = some (r, J')) :
    J.Waits tasks failure completed r J' := by
  unfold TaskJournal.waitForNextTask at h
  have htimedOut : J.waitsInVain tasks completed = true →
      (if timeout.isSome then some (WaitResult.returned none, J) else none) = some (r, J') →
      J.Waits tasks failure completed r J' := by
    intro hvain h
    split at h
    · cases h
      exact .runsOut hvain
    · cases h
  dsimp only at h
  split at h
  · case h_1 k htarget =>
    split at h
    · case isTrue hk =>
      split at h
      · cases h
        exact .replays htarget hk
      · case h_2 hfailure =>
        cases h
        exact .fails htarget (by simp [hfailure]) (by simp)
      · case h_3 hfailure =>
        cases h
        exact .fails htarget (by simp [hfailure]) (by simp)
    · case isFalse hk =>
      refine htimedOut ?_ h
      simp [TaskJournal.waitsInVain, htarget, hk]
  · case h_2 htarget =>
    split at h
    · case h_1 k hk =>
      cases h
      exact .records htarget hk
    · case h_2 hk =>
      refine htimedOut ?_ h
      simp only [TaskJournal.waitsInVain, htarget, hk]
      rfl

theorem target_eq_some {k : TaskKey} (h : J.target tasks = some k) : J.nextExpectedKey = some k ∧ k ∈ tasks := by
  rw [TaskJournal.target, Option.filter_eq_some_iff, decide_eq_true_eq] at h
  exact h

/-- The index stays within the entries, and these are only appended to. -/
theorem waits_entries (h : J.Waits tasks failure completed r J') (hindex : J.replayIndex ≤ J.entries.length) :
    J'.replayIndex ≤ J'.entries.length ∧ J.entries <+: J'.entries := by
  cases h with
  | replays htarget _ =>
    have hlt := (List.getElem?_eq_some_iff.1 (target_eq_some htarget).1).1
    exact ⟨hlt, List.prefix_rfl⟩
  | records _ _ =>
    refine ⟨?_, List.prefix_append _ _⟩
    rw [TaskJournal.record, List.length_append]
    exact Nat.add_le_add_right hindex 1
  | runsOut _ | fails _ _ _ => exact ⟨hindex, List.prefix_rfl⟩

/-- A journal that is read to its end names no task. -/
theorem target_of_end (hindex : J.replayIndex = J.entries.length) : J.target tasks = none := by
  rw [TaskJournal.target, TaskJournal.nextExpectedKey, hindex, List.getElem?_eq_none (le_refl _)]
  rfl

/-! ## One action -/

theorem handle_outcomes (R : DbosRun) (o : Option TaskKey) : (R.handle cfg runId world o).outcomes = R.outcomes ++ [o] := rfl

/-- Only draining reduces ticks. -/
theorem handle_journal (R : DbosRun) (o : Option TaskKey) : (R.handle cfg runId world o).loop.journal = R.loop.journal := by
  rcases o with _ | ⟨n, id⟩ | _
  · rfl
  · change (Option.getD _ R.loop).journal = R.loop.journal
    cases hL : (R.loop.workers.findIdx? fun w => w.key = .worker n id).bind _ with
    | none => rfl
    | some L =>
      obtain ⟨i, -, hL⟩ := Option.bind_eq_some_iff.1 hL
      split at hL
      · cases hL
        rfl
      · obtain ⟨w, -, rfl⟩ := Option.map_eq_some_iff.1 hL
        rfl
  · rfl

/-- What the loop does with a result does not depend on the journal. -/
theorem handle_journaled (R : DbosRun) (J : TaskJournal) (o : Option TaskKey) :
    DbosRun.handle cfg runId world { R with journal := J } o = { R.handle cfg runId world o with journal := J } := by
  rcases o with _ | _ | _ <;> rfl

theorem step_moves (h : R.step cfg runId world a = some R') : R.Moves cfg runId world a R' := by
  unfold DbosRun.step at h
  split at h
  · cases h
  · case isFalse hout =>
    rw [Bool.or_eq_true, not_or] at hout
    cases a with
    | drain =>
      obtain ⟨L, hL, rfl⟩ := Option.map_eq_some_iff.1 h
      refine .drains ?_ ?_
      · intro hempty
        rw [Loop.drainTick, hempty] at hL
        cases hL
      · rw [Loop.step, if_neg hout.1]
        exact hL
    | wait completed =>
      dsimp only at h
      split at h
      · case isTrue hempty =>
        obtain ⟨⟨r, J⟩, hr, rfl⟩ := Option.map_eq_some_iff.1 h
        cases r with
        | returned o => exact .waits (List.isEmpty_iff.1 hempty) (waitForNextTask_waits hr)
        | raised => exact .raises (List.isEmpty_iff.1 hempty) (waitForNextTask_waits hr)
      · cases h

/-- What only grows in an execution. -/
theorem step_grows (h : R.step cfg runId world a = some R') :
    R.outcomes <+: R'.outcomes ∧ R.loop.journal <+: R'.loop.journal := by
  cases step_moves h with
  | drains _ hL =>
    refine ⟨List.prefix_rfl, ?_⟩
    rcases step_advance hL with ⟨-, hj, -⟩ | ⟨-, -, tick, -, -, -, -, -, hj, -⟩
    · dsimp only
      rw [hj]
    · dsimp only
      rw [hj]
      exact List.prefix_append _ _
  | waits _ _ =>
    refine ⟨List.prefix_append _ _, ?_⟩
    dsimp only
    rw [handle_journal]
  | raises _ _ => exact ⟨List.prefix_rfl, List.prefix_rfl⟩

theorem step_entries (h : R.step cfg runId world a = some R') (hindex : R.journal.replayIndex ≤ R.journal.entries.length) :
    R'.journal.replayIndex ≤ R'.journal.entries.length ∧ R.journal.entries <+: R'.journal.entries := by
  cases step_moves h with
  | drains _ _ | raises _ _ => exact ⟨hindex, List.prefix_rfl⟩
  | waits _ hJ => exact waits_entries hJ hindex

/-- An execution that has read its journal to the end, and in which no wait has raised. -/
def IsFresh (R : DbosRun) : Prop := R.journal.replayIndex = R.journal.entries.length ∧ R.raised = false

theorem handle_raised (R : DbosRun) (o : Option TaskKey) : (R.handle cfg runId world o).raised = R.raised := by
  rcases o with _ | _ | _ <;> rfl

/-- A fresh execution records what its waits return, and none of them raises. -/
theorem step_fresh (h : R.step cfg runId world a = some R') (hfresh : IsFresh R) : IsFresh R' := by
  obtain ⟨hindex, hraised⟩ := hfresh
  have hnone : R.journal.target R.tasks = none := target_of_end hindex
  cases step_moves h with
  | drains _ _ => exact ⟨hindex, hraised⟩
  | waits _ hJ =>
    refine ⟨?_, (handle_raised R _).trans hraised⟩
    cases hJ with
    | replays htarget _ | fails htarget _ _ =>
      rw [hnone] at htarget
      cases htarget
    | records _ _ => simp [TaskJournal.record, hindex]
    | runsOut _ => exact hindex
  | raises _ hJ =>
    cases hJ with
    | fails htarget _ _ =>
      rw [hnone] at htarget
      cases htarget

/-! ## Runs -/

variable {C C' : DbosRun → DbosAction → Prop}

theorem run_grows (h : Lib.Run (DbosRun.step cfg runId world) C P R) :
    P.outcomes <+: R.outcomes ∧ P.loop.journal <+: R.loop.journal := by
  refine h.invariant (fun R => P.outcomes <+: R.outcomes ∧ P.loop.journal <+: R.loop.journal)
    ⟨List.prefix_rfl, List.prefix_rfl⟩ ?_
  intro R a R' hR _ hstep
  exact ⟨hR.1.trans (step_grows hstep).1, hR.2.trans (step_grows hstep).2⟩

/-- The journal of every run is consistent. -/
theorem run_entries (h : Lib.Run (DbosRun.step cfg runId world) C P R) (hindex : P.journal.replayIndex ≤ P.journal.entries.length) :
    R.journal.replayIndex ≤ R.journal.entries.length ∧ P.journal.entries <+: R.journal.entries := by
  refine h.invariant (fun R => R.journal.replayIndex ≤ R.journal.entries.length ∧ P.journal.entries <+: R.journal.entries)
    ⟨hindex, List.prefix_rfl⟩ ?_
  intro R a R' hR _ hstep
  have hnext := step_entries hstep hR.1
  exact ⟨hnext.1, hR.2.trans hnext.2⟩

theorem run_fresh (h : Lib.Run (DbosRun.step cfg runId world) C P R) (hfresh : IsFresh P) : IsFresh R :=
  h.invariant IsFresh hfresh fun _ _ _ hR _ hstep => step_fresh hstep hR

end TaskJournalAux

/-- Where a recovery is, next to the execution that it recovers: at a state that the execution went through, past its last state
with nothing but ticks drained, or past the end of what was recorded. -/
inductive DbosRun.Follows (cfg : BrokerConfig) (runId : Option String) (world : DurableWorld) (R₀ R R' : DbosRun) : Prop
  | along (P : DbosRun) (before : Lib.Run (DbosRun.step cfg runId world) (fun _ _ => True) R₀ P)
      (after : Lib.Run (DbosRun.step cfg runId world) (fun _ _ => True) P R)
      (same : R' = { P with journal := ⟨R.journal.entries, P.journal.entries.length⟩ })
  | ahead (outcomes : R'.outcomes = R.outcomes) (journal : R.loop.journal <+: R'.loop.journal) (calm : R'.raised = false)
  | beyond (recorded : R.recorded <+: R'.outcomes)

namespace TaskJournalAux

open CommandsAux

variable {cfg : BrokerConfig} {runId : Option String} {world : DurableWorld} {R₀ R R' R'' P : DbosRun}

theorem recorded_le_outcomes (R : DbosRun) : R.recorded <+: R.outcomes := List.rdropWhile_prefix _ _

/-- A wait that is past what was recorded leaves the execution behind. -/
theorem beyond_of_wait (R' : DbosRun) (hrecorded : R.recorded <+: R'.outcomes) {o : Option TaskKey} {J : TaskJournal} :
    DbosRun.Follows cfg runId world R₀ R { R'.handle cfg runId world o with journal := J } :=
  .beyond (hrecorded.trans (List.prefix_append _ _))

/-- A wait in the place of one that was recorded returns what that one did. -/
theorem wait_follows (hfresh : IsFresh P) {completed completed' : List TaskKey} {o : Option TaskKey} {r : WaitResult}
    {J J' : TaskJournal} {entries : List TaskKey}
    (hP : P.journal.Waits P.tasks (P.failure world) completed (.returned o) J) (hentries : J.entries <+: entries)
    (hfails : ∀ k, TaskJournal.target ⟨entries, P.journal.entries.length⟩ P.tasks = some k → P.failure world k = none)
    (htiming : TaskJournal.waitsInVain ⟨entries, P.journal.entries.length⟩ P.tasks completed' = o.isNone)
    (hR : TaskJournal.Waits ⟨entries, P.journal.entries.length⟩ P.tasks (P.failure world) completed' r J') :
    r = .returned o ∧ J' = ⟨entries, J.entries.length⟩ := by
  have hnone : P.journal.target P.tasks = none := target_of_end hfresh.1
  cases hP with
  | replays htarget _ | fails htarget _ _ =>
    rw [hnone] at htarget
    cases htarget
  | @records k _ hk =>
    -- the journal names the task that was recorded here
    have htarget : TaskJournal.target ⟨entries, P.journal.entries.length⟩ P.tasks = some k := by
      rw [TaskJournal.target, Option.filter_eq_some_iff]
      refine ⟨?_, by simpa using List.find?_some hk⟩
      obtain ⟨rest, rfl⟩ := hentries
      simp [TaskJournal.nextExpectedKey, TaskJournal.record]
    cases hR with
    | replays htarget' _ =>
      rw [htarget, Option.some.injEq] at htarget'
      subst htarget'
      exact ⟨rfl, by simp [TaskJournal.advance, TaskJournal.record]⟩
    | records htarget' _ =>
      rw [htarget] at htarget'
      cases htarget'
    | runsOut hvain =>
      rw [hvain] at htiming
      cases htiming
    | fails htarget' hk _ => exact absurd (hfails _ htarget') hk
  | runsOut _ =>
    cases hR with
    | runsOut _ => exact ⟨rfl, rfl⟩
    | fails htarget hk _ => exact absurd (hfails _ htarget) hk
    | replays htarget hk => simp [TaskJournal.waitsInVain, htarget, hk] at htiming
    | records htarget hk => simp [TaskJournal.waitsInVain, htarget, hk] at htiming

/-- A wait at a state that the execution went through is past what was recorded, or does what the execution did there. -/
theorem wait_along {P' : DbosRun} {b : DbosAction} {completed : List TaskKey} {r : WaitResult} {J' : TaskJournal}
    (hfresh : IsFresh R₀) (hbefore : Lib.Run (DbosRun.step cfg runId world) (fun _ _ => True) R₀ P)
    (hP' : P.step cfg runId world b = some P') (hrest : Lib.Run (DbosRun.step cfg runId world) (fun _ _ => True) P' R)
    (hempty : P.loop.tickBuffer = [])
    (ha : R.keepsTiming world { P with journal := ⟨R.journal.entries, P.journal.entries.length⟩ } (.wait completed) = true)
    (hJ : TaskJournal.Waits ⟨R.journal.entries, P.journal.entries.length⟩ P.tasks (P.failure world) completed r J') :
    R.recorded <+: P.outcomes ∨ ∃ o J, r = .returned o ∧ P' = { P.handle cfg runId world o with journal := J } ∧
      J' = ⟨R.journal.entries, J.entries.length⟩ := by
  have hP := run_fresh hbefore hfresh
  cases step_moves hP' with
  | drains hbuffer _ => exact absurd hempty hbuffer
  | raises _ hJ' =>
    cases hJ' with
    | fails htarget _ _ =>
      rw [target_of_end hP.1] at htarget
      cases htarget
  | @waits completed' o J _ hJ' =>
    have hentries := (run_entries hrest (run_fresh (hbefore.tail trivial hP') hfresh).1.le).2
    have houtcomes := (run_grows hrest).1
    by_cases hend : R.recorded.length ≤ P.outcomes.length
    · exact Or.inl (List.prefix_of_prefix_length_le (recorded_le_outcomes R) ((List.prefix_append _ _).trans houtcomes) hend)
    · -- the wait in this place is recorded
      have hplace : R.outcomes[P.outcomes.length]? = some o := by
        obtain ⟨rest, hrest⟩ := houtcomes
        rw [← hrest]
        simp [handle_outcomes]
      rw [DbosRun.keepsTiming, Bool.or_eq_true, Bool.and_eq_true, decide_eq_true_eq] at ha
      obtain ⟨hfails, htimes⟩ := ha.resolve_left hend
      have htiming : TaskJournal.waitsInVain ⟨R.journal.entries, P.journal.entries.length⟩ P.tasks completed = o.isNone := by
        refine (LawfulBEq.eq_of_beq htimes).trans ?_
        dsimp only
        rw [hplace]
        cases o <;> rfl
      obtain ⟨rfl, rfl⟩ := wait_follows hP hJ' hentries
        (fun k hk => of_decide_eq_true ((Option.all_eq_true _ _).1 hfails k hk)) htiming hJ
      exact Or.inr ⟨o, J, rfl, rfl, rfl⟩

/-- Each action of a recovery that keeps the timing leaves it at the side of the execution. -/
theorem step_follows (hfresh : IsFresh R₀)
    (h : DbosRun.Follows cfg runId world R₀ R R') {a : DbosAction} (ha : R.keepsTiming world R' a = true)
    (hstep : R'.step cfg runId world a = some R'') : DbosRun.Follows cfg runId world R₀ R R'' := by
  cases h with
  | ahead houtcomes hjournal hcalm =>
    cases step_moves hstep with
    | drains _ hL => exact .ahead houtcomes (hjournal.trans (step_grows hstep).2) hcalm
    | waits _ _ => exact beyond_of_wait _ (houtcomes ▸ recorded_le_outcomes R)
    | raises _ _ => exact .beyond (houtcomes ▸ recorded_le_outcomes R)
  | beyond hrecorded => exact .beyond (hrecorded.trans (step_grows hstep).1)
  | along P hbefore hafter hsame =>
    subst hsame
    rcases hafter.cases_head with rfl | ⟨b, P', -, hP', hrest⟩
    · cases step_moves hstep with
      | drains _ hL => exact .ahead rfl (step_grows hstep).2 (run_fresh hbefore hfresh).2
      | waits _ _ =>
        refine beyond_of_wait _ ?_
        exact recorded_le_outcomes P
      | raises _ _ => exact .beyond (recorded_le_outcomes P)
    · have hbefore' := hbefore.tail trivial hP'
      cases step_moves hstep with
      | drains hbuffer hL =>
        cases step_moves hP' with
        | drains _ hL' =>
          rw [hL] at hL'
          cases hL'
          exact .along _ hbefore' hrest rfl
        | waits hempty _ | raises hempty _ => exact absurd hempty hbuffer
      | @waits completed _ _ hempty hJ =>
        rcases wait_along hfresh hbefore hP' hrest hempty ha hJ with hbeyond | ⟨o, J, hr, rfl, rfl⟩
        · refine beyond_of_wait _ ?_
          exact hbeyond
        · cases hr
          rw [handle_journaled]
          exact .along _ hbefore' hrest rfl
      | @raises completed _ hempty hJ =>
        rcases wait_along hfresh hbefore hP' hrest hempty ha hJ with hbeyond | ⟨o, J, hr, -, -⟩
        · exact .beyond hbeyond
        · cases hr

/-- A recovery that keeps the timing stays at the side of the execution. -/
theorem run_follows (hfresh : IsFresh R₀)
    (hrun : Lib.Run (DbosRun.step cfg runId world) (fun _ _ => True) R₀ R)
    (hrecovery : Lib.Run (DbosRun.step cfg runId world) (fun R' a => R.keepsTiming world R' a)
      { R₀ with journal := ⟨R.journal.entries, R₀.journal.entries.length⟩ } R') :
    DbosRun.Follows cfg runId world R₀ R R' := by
  refine hrecovery.invariant (fun R' => DbosRun.Follows cfg runId world R₀ R R') (.along R₀ .refl hrun rfl) ?_
  intro R' a R'' h ha hstep
  exact step_follows hfresh h ha hstep

end TaskJournalAux

open TaskJournalAux

namespace SlowWork

/-- The answer that the first step waits for. -/
def answer : EventType := ⟨"Answer", "app.Answer", ["workflows.events.HumanResponseEvent", "workflows.events.Event"]⟩

/-- A workflow in which one step waits for an answer while another works. -/
def workflow : Workflow where
  name := "Slow"
  steps := ⟨[("ask", plainStep [.startEvent] [.stopEvent] defaultNumWorkers none),
    ("work", plainStep [.startEvent] [.stopEvent] defaultNumWorkers none)], by simp⟩

/-- The first step waits for ten seconds at most, the other returns nothing, and nothing is received. -/
def world : DurableWorld where
  clock k := if k < 5 then 1 else 12
  body k _ := match k with
    | .worker "ask" _ => (.waitForEvent { eventType := answer, timeout := some 10 } fun _ => .ret .none, 1)
    | _ => (.ret .none, 12)
  received _ := none

/-- The body of the second step raises `asyncio.CancelledError`. -/
def failing : DurableWorld := { world with failure := fun k _ => if k = .worker "work" 0 then some .other else none }

/-- The task of the first step. -/
def ask : TaskKey := .worker "ask" 0

/-- The task of the second step. -/
def work : TaskKey := .worker "work" 0

/-- The first step waits for its answer. -/
def waiting : List DbosAction := [.drain, .wait [ask], .drain]

/-- The wait for the answer runs out of time, and the second step completes after that. -/
def late : List DbosAction := [.wait [], .drain, .wait [work], .drain]

/-- The second step completes at once. -/
def early : List DbosAction := [.wait [work], .drain]

/-- The state of an execution that starts with some journal. -/
def executed (world : DurableWorld) (entries : List TaskKey) (ok : DbosRun → DbosAction → Bool) (l : List DbosAction) :
    Option DbosRun :=
  Lib.exec (DbosRun.step workflow.config none world) ok
    (DbosRun.start workflow.config world {} (some ⟨.startEvent, []⟩) entries) l

/-- Whether neither of two executions has reduced the ticks of the other before its own. -/
def differ (R R' : DbosRun) : Bool :=
  !R'.loop.journal.isPrefixOf R.loop.journal && !R.loop.journal.isPrefixOf R'.loop.journal

end SlowWork

end LlamaAgents
