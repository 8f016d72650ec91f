import LlamaAgents.Server.StatusWrites

/-!
# Terminal statuses

A handler whose run has ended keeps its status, its result and its error, as long as no writer overwrites a terminal row with one
that it read before, and no writer that reads a terminal row sets its status. The server ensures neither.
-/

namespace LlamaAgents

namespace TerminalStatusAux

/-- A terminal row that is held is one whose outcome is still stored, and its writer keeps it. -/
def Faithful (R : RowRun) : Prop :=
  ∀ w ∈ R.held, w.handler.status.isTerminal → w.writer.keepsOutcome ∧
    ∃ h, R.rows.get? w.handler.handlerId = some h ∧ h.outcome = w.handler.outcome

theorem changed_outcome {h : PersistentHandler} {w : RowWriter} (hw : w.keepsOutcome) (now : Time) :
    (h.changed w.change now).outcome = h.outcome := by
  simp only [RowWriter.keepsOutcome, Bool.and_eq_true, Option.isNone_iff_eq_none] at hw
  simp [PersistentHandler.outcome, PersistentHandler.changed, hw.1.1, hw.1.2, hw.2]

theorem isTerminal_of_outcome {h h' : PersistentHandler} (heq : h'.outcome = h.outcome) (hterm : h.status.isTerminal) :
    h'.status.isTerminal := by
  have hstatus : h'.status = h.status := congrArg Prod.fst heq
  rw [hstatus]
  exact hterm

/-- A write that spares terminal rows keeps the outcome of every one of them. -/
theorem write_outcome {R : RowRun} (hR : Faithful R) {i : Nat} {now : Time} (hspares : R.sparesTerminal (.write i now))
    {w : HeldRow} (hw : R.held[i]? = some w) {k : String} {h : PersistentHandler} (hk : R.rows.get? k = some h)
    (hterm : h.status.isTerminal) :
    ∃ h', (R.rows.update (w.handler.changed w.writer.change now)).get? k = some h' ∧ h'.outcome = h.outcome := by
  rw [HandlerTable.get?_update]
  by_cases heq : (w.handler.changed w.writer.change now).handlerId = k
  · have hid : w.handler.handlerId = k := heq
    have hheld : w.handler.status.isTerminal := by
      simpa [RowRun.sparesTerminal, hw, hid, hk, hterm] using hspares
    obtain ⟨hkeeps, h', hget, houtcome⟩ := hR w (List.mem_of_getElem? hw) hheld
    rw [hid, hk] at hget
    cases hget
    rw [if_pos heq]
    exact ⟨_, rfl, (changed_outcome hkeeps now).trans houtcome.symm⟩
  · rw [if_neg heq]
    exact ⟨h, hk, rfl⟩

/-- What an action that spares terminal rows keeps: the outcome of each, and the invariant. -/
theorem step_faithful {R R' : RowRun} (hR : Faithful R) {a : RowAction} (hspares : R.sparesTerminal a)
    (hstep : R.step a = some R') :
    Faithful R' ∧ ∀ k h, R.rows.get? k = some h → h.status.isTerminal →
      ∃ h', R'.rows.get? k = some h' ∧ h'.outcome = h.outcome := by
  cases a with
  | read runId writer =>
    obtain ⟨h, hf, rfl⟩ := Option.map_eq_some_iff.1 hstep
    refine ⟨fun w hw hterm => ?_, fun k h' hk _ => ⟨h', hk, rfl⟩⟩
    rcases List.mem_append.1 hw with hw | hw
    · exact hR w hw hterm
    · cases List.mem_singleton.1 hw
      have hkeeps : writer.keepsOutcome := by simpa [RowRun.sparesTerminal, hf, hterm] using hspares
      exact ⟨hkeeps, h, (RowRun.get?_of_found hf).1, rfl⟩
  | write i now =>
    obtain ⟨w, hw, rfl⟩ := Option.map_eq_some_iff.1 hstep
    refine ⟨fun v hv hterm => ?_, fun k h hk hterm => write_outcome hR hspares hw hk hterm⟩
    obtain ⟨hkeeps, h, hget, houtcome⟩ := hR v (List.mem_of_mem_eraseIdx hv) hterm
    obtain ⟨h', hget', houtcome'⟩ := write_outcome hR hspares hw hget (isTerminal_of_outcome houtcome hterm)
    exact ⟨hkeeps, h', hget', houtcome'.trans houtcome⟩
  | fail i =>
    obtain ⟨w, hw, rfl⟩ := Option.map_eq_some_iff.1 hstep
    exact ⟨fun v hv hterm => hR v (List.mem_of_mem_eraseIdx hv) hterm, fun k h hk _ => ⟨h, hk, rfl⟩⟩

theorem run_faithful {R R' : RowRun} (hR : Faithful R)
    (hrun : Lib.Run RowRun.step (fun R a => R.sparesTerminal a) R R') : Faithful R' :=
  hrun.invariant Faithful hR fun _ _ _ h hs hstep => (step_faithful h hs hstep).1

end TerminalStatusAux

open TerminalStatusAux

/-- A terminal status is final. From any rows and no write under way, once the row of a handler is terminal, every later state
has a row for it with the same status, result and error. -/
theorem terminal_status_is_final (T : HandlerTable) {R R' : RowRun}
    (hrun : Lib.Run RowRun.step (fun R a => R.sparesTerminal a) { rows := T } R) {k : String} {h : PersistentHandler}
    (hrow : R.rows.get? k = some h) (hterm : h.status.isTerminal)
    (hrun' : Lib.Run RowRun.step (fun R a => R.sparesTerminal a) R R') :
    ∃ h', R'.rows.get? k = some h' ∧ h'.status = h.status ∧ h'.result = h.result ∧ h'.error = h.error := by
  have hR : Faithful R := run_faithful (fun w hw => absurd hw List.not_mem_nil) hrun
  have hkept := hrun'.invariant (fun Q => Faithful Q ∧ ∃ h', Q.rows.get? k = some h' ∧ h'.outcome = h.outcome)
    ⟨hR, h, hrow, rfl⟩ fun Q a Q' hQ hspares hstep => by
      obtain ⟨hQ, h', hget, houtcome⟩ := hQ
      obtain ⟨hQ', hkeeps⟩ := step_faithful hQ hspares hstep
      obtain ⟨h'', hget', houtcome'⟩ := hkeeps k h' hget (isTerminal_of_outcome houtcome hterm)
      exact ⟨hQ', h'', hget', houtcome'.trans houtcome⟩
  obtain ⟨-, h', hget, houtcome⟩ := hkept
  rw [PersistentHandler.outcome, PersistentHandler.outcome, Prod.mk.injEq, Prod.mk.injEq] at houtcome
  exact ⟨h', hget, houtcome⟩

namespace Overwritten

/-- The row of a run. -/
def row : HandlerTable := HandlerTable.empty.update { handlerId := "h", workflowName := "Ask", status := .running, runId := some "r" }

/-- The run completes. -/
def completed : RowWriter := .terminalEvent { status := .completed, result := some ⟨.stopEvent, []⟩ }

/-- The status of the handler. -/
def status? (R : RowRun) : Option Status := (R.rows.get? "h").map PersistentHandler.status

end Overwritten

open Overwritten in
/-- A completed run is running again: in process, when an event was sent to it just before and the row read then is written
last; and under DBOS, when it completes on its own while it is being released, and the release is completed after it. -/
theorem terminal_status_is_final_false : (∃ R R', Lib.Run RowRun.step (fun _ _ => True) { rows := row } R ∧
      status? R = some .completed ∧ Lib.Run RowRun.step (fun _ _ => True) R R' ∧ status? R' = some .running ∧
      (R'.rows.get? "h").any fun h => h.result.isNone) ∧
    ∃ R R', Lib.Run RowRun.step (fun _ _ => True) { rows := row } R ∧ R.held = [] ∧ status? R = some .completed ∧
      Lib.Run RowRun.step (fun _ _ => True) R R' ∧ status? R' = some .running := by
  refine ⟨?_, ?_⟩
  · obtain ⟨R, hrun, hcompleted, hcheck⟩ := Lib.Run.exists_of_actions RowRun.step { rows := row }
      [.read "r" .clearIdle, .read "r" completed, .write 1 1]
      (fun R => status? R = some .completed ∧ (Lib.exec RowRun.step (fun _ _ => true) R [.write 0 2]).any fun R' =>
        status? R' = some .running ∧ (R'.rows.get? "h").any fun h => h.result.isNone) (by decide +kernel)
    obtain ⟨R', hrun', hlast⟩ := Lib.Run.exists_of_actions _ _ _ _ hcheck
    exact ⟨R, R', hrun, hcompleted, hrun', hlast⟩
  · obtain ⟨R, hrun, hheld, hcompleted, hcheck⟩ := Lib.Run.exists_of_actions RowRun.step { rows := row }
      [.read "r" completed, .write 0 1]
      (fun R => R.held = [] ∧ status? R = some .completed ∧
        (Lib.exec RowRun.step (fun _ _ => true) R [.read "r" (.markReleased 2), .write 0 2]).any fun R' =>
          status? R' = some .running) (by decide +kernel)
    obtain ⟨R', hrun', hlast⟩ := Lib.Run.exists_of_actions _ _ _ _ hcheck
    exact ⟨R, R', hrun, hheld, hcompleted, hrun', hlast⟩

open Overwritten in
/-- An event is sent to the run after it has completed: its row stays completed. -/
theorem terminal_status_is_final_sent : ∃ R' : RowRun, R'.held = [] ∧ ∃ h, R'.rows.get? "h" = some h ∧ h.status = .completed ∧
    h.result = some ⟨.stopEvent, []⟩ := by
  obtain ⟨R, hrun, hfirst, hrest⟩ := Lib.Run.exists_of_exec RowRun.step (fun R a => R.sparesTerminal a) { rows := row }
    [.read "r" completed, .write 0 1]
    (fun R => (R.rows.get? "h").any (fun h : PersistentHandler => h.status = .completed ∧ h.result = some ⟨.stopEvent, []⟩) ∧
      (Lib.exec RowRun.step (fun R a => R.sparesTerminal a) R [.read "r" .clearIdle, .write 0 2]).any fun R' : RowRun =>
        R'.held = []) (by decide +kernel)
  obtain ⟨h, hrow, hh⟩ := (Option.any_eq_true _ _).1 hfirst
  have hh := of_decide_eq_true hh
  obtain ⟨R', hrun', hlast⟩ := Lib.Run.exists_of_exec _ _ _ _ _ hrest
  obtain ⟨h', hget, hstatus, hresult, -⟩ :=
    terminal_status_is_final row hrun hrow (by rw [hh.1]; rfl) hrun'
  exact ⟨R', hlast, h', hget, hstatus.trans hh.1, hresult.trans hh.2⟩

end LlamaAgents
