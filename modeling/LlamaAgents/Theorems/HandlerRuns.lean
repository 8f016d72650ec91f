import LlamaAgents.Server.Starting

/-!
# The run of a handler

When a row is stored or purged only under a handler that has none or a terminal one, and rows are written back only to the run
they were read for, a handler has at most one live run, and every live run finds its row through its handler and through its run
id. A start request replaces the row of a handler whose run is live all the same.
-/

namespace LlamaAgents

namespace StartingAux

variable {W W' : HandlerWorld}

/-- What a run owns: the row of its handler, which no other row nor write stands for. -/
structure Owned (W : HandlerWorld) (runId handlerId : String) : Prop where
  row : ∃ h, W.rows.get? handlerId = some h ∧ h.runId = some runId ∧ h.status.isTerminal = false
  sole : ∀ {k h}, W.rows.get? k = some h → h.runId = some runId → k = handlerId
  held : ∀ w ∈ W.held, w.handler.runId = some runId →
    w.handler.handlerId = handlerId ∧ w.handler.status.isTerminal = false ∧ w.writer.change.status.any Status.isTerminal = false

/-- Every run owns its row, and run ids are given out once. -/
structure Orderly (W : HandlerWorld) : Prop where
  owned : ∀ x ∈ W.runs, Owned W x.runId x.handlerId
  nodup : (W.runs.map HandlerRun.runId).Nodup
  runs : ∀ x ∈ W.runs, x.runId ∈ W.used
  rows : ∀ {k h r}, W.rows.get? k = some h → h.runId = some r → r ∈ W.used
  held : ∀ w ∈ W.held, ∀ r, w.handler.runId = some r → r ∈ W.used

theorem start_orderly (T : HandlerTable) : Orderly (HandlerWorld.start T) where
  owned := List.forall_mem_nil _
  nodup := List.nodup_nil
  runs := List.forall_mem_nil _
  rows {k h r} hget hr := by
    have hmem : h ∈ T.rows.values := List.mem_map.2 ⟨(k, h), (T.rows.get?_eq_some_iff _ _).1 hget, rfl⟩
    exact List.mem_filterMap.2 ⟨h, hmem, hr⟩
  held := List.forall_mem_nil _

/-! ## Reads and writes of rows -/

/-- A row that is read for its run is that of the handler. -/
theorem owned_read {runId handlerId : String} (h : Owned W runId handlerId) {w : HeldRow}
    (hget : W.rows.get? w.handler.handlerId = some w.handler)
    (hw : w.handler.runId = some runId → w.writer.change.status.any Status.isTerminal = false) :
    Owned { W with held := W.held ++ [w] } runId handlerId := by
  refine ⟨h.row, h.sole, fun v hv hr => ?_⟩
  rcases List.mem_append.1 hv with hv | hv
  · exact h.held v hv hr
  · cases List.mem_singleton.1 hv
    obtain ⟨row, hrow, -, hstatus⟩ := h.row
    have hid := h.sole hget hr
    rw [hid, hrow] at hget
    cases hget
    exact ⟨hid, hstatus, hw hr⟩

/-- A row that is written back for the run that it is of keeps every run's row. -/
theorem owned_write {runId handlerId : String} (h : Owned W runId handlerId) {w : HeldRow} (hw : w ∈ W.held) {now : Time}
    (hsame : ∃ row, W.rows.get? w.handler.handlerId = some row ∧ row.runId = w.handler.runId) {l : List HeldRow}
    (hl : l ⊆ W.held) :
    Owned { W with rows := W.rows.update (w.handler.changed w.writer.change now), held := l } runId handlerId := by
  obtain ⟨row, hrow, hid, hstatus⟩ := h.row
  have hrun : w.handler.handlerId = handlerId → w.handler.runId = some runId := by
    rintro rfl
    obtain ⟨row', hrow', hid'⟩ := hsame
    rw [hrow] at hrow'
    cases hrow'
    exact hid'.symm.trans hid
  refine ⟨?_, fun {k h'} hget hr => ?_, fun v hv => h.held v (hl hv)⟩
  · rw [HandlerTable.get?_update]
    split
    · case isTrue heq =>
      obtain ⟨-, hcopy, hwriter⟩ := h.held w hw (hrun heq)
      refine ⟨_, rfl, hrun heq, ?_⟩
      rw [PersistentHandler.changed]
      dsimp only
      cases hc : w.writer.change.status with
      | none => exact hcopy
      | some s =>
        rw [hc] at hwriter
        exact hwriter
    · exact ⟨row, hrow, hid, hstatus⟩
  · rw [HandlerTable.get?_update] at hget
    split at hget
    · case isTrue heq =>
      cases hget
      exact heq.symm.trans (h.held w hw hr).1
    · exact h.sole hget hr

/-- A row that is free is no run's. -/
theorem ne_of_isFree {runId handlerId k : String} (h : Owned W runId handlerId) (hfree : W.isFree k) : k ≠ handlerId := by
  rintro rfl
  obtain ⟨row, hrow, -, hstatus⟩ := h.row
  rw [HandlerWorld.isFree, hrow, Option.all_some, hstatus] at hfree
  cases hfree

/-! ## Steps -/

/-- What is unchanged of the rows and the writes under way, the runs still own. -/
theorem orderly_of_runs (h : Orderly W) (hrows : W'.rows = W.rows) (hheld : W'.held = W.held) (hused : W'.used = W.used)
    (hruns : ∀ x ∈ W'.runs, ∃ y ∈ W.runs, y.runId = x.runId ∧ y.handlerId = x.handlerId)
    (hnodup : (W'.runs.map HandlerRun.runId).Nodup) : Orderly W' := by
  refine ⟨fun x hx => ?_, hnodup, fun x hx => ?_, ?_, ?_⟩
  · obtain ⟨y, hy, hid, hhandler⟩ := hruns x hx
    obtain ⟨row, sole, held⟩ := h.owned y hy
    rw [← hid, ← hhandler]
    exact ⟨hrows ▸ row, hrows ▸ sole, hheld ▸ held⟩
  · obtain ⟨y, hy, hid, -⟩ := hruns x hx
    rw [hused, ← hid]
    exact h.runs y hy
  · rw [hrows, hused]
    exact h.rows
  · rw [hheld, hused]
    exact h.held

theorem orderly_read (h : Orderly W) {w : HeldRow} (hget : W.rows.get? w.handler.handlerId = some w.handler)
    (hw : ∀ x ∈ W.runs, w.handler.runId = some x.runId → w.writer.change.status.any Status.isTerminal = false) :
    Orderly { W with held := W.held ++ [w] } := by
  refine ⟨fun x hx => owned_read (h.owned x hx) hget (hw x hx), h.nodup, h.runs, h.rows, fun v hv => ?_⟩
  rcases List.mem_append.1 hv with hv | hv
  · exact h.held v hv
  · cases List.mem_singleton.1 hv
    exact fun r => h.rows hget

theorem orderly_row (h : Orderly W) {a : RowAction} (hspares : W.sparesRuns (.row a)) (hstep : W.step (.row a) = some W') :
    Orderly W' := by
  cases a with
  | read runId writer =>
    have hwriter : writer.change.status.any Status.isTerminal = false := by
      cases writer with
      | terminalEvent u => cases hstep
      | _ => rfl
    have hread : ∃ r, W.found runId writer = some r ∧ W' = { W with held := W.held ++ [⟨writer, r⟩] } := by
      cases writer with
      | terminalEvent u => cases hstep
      | _ =>
        obtain ⟨R, hR, rfl⟩ := Option.map_eq_some_iff.1 hstep
        obtain ⟨r, hr, rfl⟩ := Option.map_eq_some_iff.1 hR
        exact ⟨r, hr, rfl⟩
    obtain ⟨r, hr, rfl⟩ := hread
    exact orderly_read h (RowRun.get?_of_found hr).1 fun _ _ _ => hwriter
  | write i now =>
    obtain ⟨R, hR, rfl⟩ := Option.map_eq_some_iff.1 hstep
    obtain ⟨w, hw, rfl⟩ := Option.map_eq_some_iff.1 hR
    have hmem := List.mem_of_getElem? hw
    have hsame : ∃ row, W.rows.get? w.handler.handlerId = some row ∧ row.runId = w.handler.runId := by
      simpa [HandlerWorld.sparesRuns, hw, Option.any_eq_true] using hspares
    refine ⟨fun x hx => owned_write (h.owned x hx) hmem hsame (List.eraseIdx_subset), h.nodup, h.runs, fun {k r id} hget hid => ?_,
      fun v hv => h.held v (List.mem_of_mem_eraseIdx hv)⟩
    rw [HandlerTable.get?_update] at hget
    split at hget
    · cases hget
      exact h.held w hmem id hid
    · exact h.rows hget hid
  | fail i =>
    obtain ⟨R, hR, rfl⟩ := Option.map_eq_some_iff.1 hstep
    obtain ⟨w, hw, rfl⟩ := Option.map_eq_some_iff.1 hR
    refine ⟨fun x hx => ?_, h.nodup, h.runs, h.rows, fun v hv => h.held v (List.mem_of_mem_eraseIdx hv)⟩
    exact ⟨(h.owned x hx).row, (h.owned x hx).sole, fun v hv => (h.owned x hx).held v (List.mem_of_mem_eraseIdx hv)⟩

/-- A new row under a free handler, with a new run id. -/
theorem orderly_store (h : Orderly W) {q : StartRequest} (hfree : W.isFree q.handlerId) {runId : String}
    (hnew : runId ∉ W.used) (now : Time) (l : List StartRequest) :
    Orderly { W with
      rows := W.rows.update (HandlerWorld.newRow q runId now), requests := l
      runs := W.runs ++ [{ runId := runId, handlerId := q.handlerId }], used := runId :: W.used } := by
  refine ⟨fun x hx => ?_, ?_, fun x hx => ?_, fun {k r id} hget hid => ?_, fun w hw r hr => List.mem_cons_of_mem _ (h.held w hw r hr)⟩
  · rcases List.mem_append.1 hx with hold | hx
    · have hx' := h.owned x hold
      obtain ⟨row, hrow, hid, hstatus⟩ := hx'.row
      refine ⟨⟨row, ?_, hid, hstatus⟩, fun {k r} hget hr => ?_, hx'.held⟩
      · rw [HandlerTable.get?_update]
        exact (if_neg (ne_of_isFree hx' hfree)).trans hrow
      · rw [HandlerTable.get?_update] at hget
        split at hget
        · cases hget
          cases hr
          exact absurd (h.runs x hold) hnew
        · exact hx'.sole hget hr
    · cases List.mem_singleton.1 hx
      refine ⟨⟨_, by rw [HandlerTable.get?_update]; exact if_pos rfl, rfl, rfl⟩, fun {k r} hget hr => ?_, fun w hw hr => ?_⟩
      · rw [HandlerTable.get?_update] at hget
        split at hget
        · case isTrue heq => exact heq.symm
        · exact absurd (h.rows hget hr) hnew
      · exact absurd (h.held w hw _ hr) hnew
  · rw [List.map_append, List.nodup_append]
    refine ⟨h.nodup, List.nodup_singleton _, ?_⟩
    rintro r hr s hs rfl
    obtain ⟨x, hx, rfl⟩ := List.mem_map.1 hr
    have hid : x.runId = runId := List.mem_singleton.1 hs
    exact hnew (hid ▸ h.runs x hx)
  · rcases List.mem_append.1 hx with hx | hx
    · exact List.mem_cons_of_mem _ (h.runs x hx)
    · cases List.mem_singleton.1 hx
      exact List.mem_cons_self
  · rw [HandlerTable.get?_update] at hget
    split at hget
    · cases hget
      cases hid
      exact List.mem_cons_self
    · exact List.mem_cons_of_mem _ (h.rows hget hid)

/-- A free handler is purged. -/
theorem orderly_purge (h : Orderly W) {handlerId : String} (hfree : W.isFree handlerId) (l : List CancelRequest) :
    Orderly { W with rows := W.rows.delete (HandlerWorld.purgeQuery handlerId), cancels := l } := by
  have hrow : ∀ {k r}, (W.rows.delete (HandlerWorld.purgeQuery handlerId)).get? k = some r → W.rows.get? k = some r := by
    intro k r hget
    rw [HandlerTable.get?_delete] at hget
    exact Option.eq_some_of_filter_eq_some hget
  refine ⟨fun x hx => ?_, h.nodup, h.runs, fun hget => h.rows (hrow hget), h.held⟩
  have hx' := h.owned x hx
  obtain ⟨row, hget, hid, hstatus⟩ := hx'.row
  refine ⟨⟨row, ?_, hid, hstatus⟩, fun hget => hx'.sole (hrow hget), hx'.held⟩
  have hne : row.handlerId ≠ handlerId := by
    rw [W.rows.keyed hget]
    exact (ne_of_isFree hx' hfree).symm
  rw [HandlerTable.get?_delete, hget]
  simp [HandlerWorld.purgeQuery, HandlerQuery.accepts, hne]

/-- Every action that leaves the rows of other runs to them. -/
theorem step_orderly (h : Orderly W) {a : HandlerAction} (hspares : W.sparesRuns a) (hstep : W.step a = some W') :
    Orderly W' := by
  cases a with
  | request handlerId workflowName =>
    cases hstep
    exact orderly_of_runs h rfl rfl rfl (fun x hx => ⟨x, hx, rfl, rfl⟩) h.nodup
  | store i runId now =>
    rw [HandlerWorld.step] at hstep
    split at hstep
    · cases hstep
    · case isFalse hused =>
      obtain ⟨q, hq, rfl⟩ := Option.map_eq_some_iff.1 hstep
      have hfree : W.isFree q.handlerId := by simpa [HandlerWorld.sparesRuns, hq] using hspares
      exact orderly_store h hfree (by simpa using hused) now _
  | run i =>
    obtain ⟨x, -, rfl⟩ := Option.map_eq_some_iff.1 hstep
    have hruns : ∀ y ∈ W.runs.modify i fun x => { x with live := true },
        ∃ z ∈ W.runs, z.runId = y.runId ∧ z.handlerId = y.handlerId := by
      intro y hy
      obtain ⟨j, hj⟩ := List.mem_iff_getElem?.1 hy
      rw [List.getElem?_modify] at hj
      obtain ⟨z, hz, rfl⟩ := Option.map_eq_some_iff.1 hj
      refine ⟨z, List.mem_of_getElem? hz, ?_⟩
      split <;> exact ⟨rfl, rfl⟩
    have hids : (W.runs.modify i fun x => { x with live := true }).map HandlerRun.runId = W.runs.map HandlerRun.runId := by
      refine List.ext_getElem? fun j => ?_
      rw [List.getElem?_map, List.getElem?_map, List.getElem?_modify, Option.map_eq_map, Option.map_map]
      refine congrArg (fun f => Option.map f W.runs[j]?) (funext fun z => ?_)
      rw [Function.comp_apply]
      split <;> rfl
    exact orderly_of_runs h rfl rfl rfl hruns (by rw [hids]; exact h.nodup)
  | ends i u =>
    obtain ⟨x, hx, rfl⟩ := Option.map_eq_some_iff.1 hstep
    obtain ⟨hlt, rfl⟩ := List.getElem?_eq_some_iff.1 (Option.eq_some_of_filter_eq_some hx)
    have hperm := (List.getElem_cons_eraseIdx_perm hlt).map HandlerRun.runId
    rw [List.map_cons] at hperm
    obtain ⟨hout, hnodup⟩ := List.nodup_cons.1 (hperm.nodup_iff.2 h.nodup)
    have hended : Orderly { W with runs := W.runs.eraseIdx i } :=
      orderly_of_runs h rfl rfl rfl (fun y hy => ⟨y, List.mem_of_mem_eraseIdx hy, rfl, rfl⟩) hnodup
    cases hf : W.found W.runs[i].runId (.terminalEvent u) with
    | none =>
      rw [Option.map_none, Option.toList_none, List.append_nil]
      exact hended
    | some r =>
      obtain ⟨hget, hid⟩ := RowRun.get?_of_found hf
      refine orderly_read hended (w := ⟨.terminalEvent u, r⟩) hget fun y hy hr => ?_
      -- the run has ended: no run that is left has its id
      have hsame : y.runId = W.runs[i].runId := Option.some.inj (hr.symm.trans hid)
      exact absurd (hsame ▸ List.mem_map_of_mem hy) hout
  | row a => exact orderly_row h hspares hstep
  | cancel handlerId purge =>
    obtain ⟨c, -, rfl⟩ := Option.map_eq_some_iff.1 hstep
    exact orderly_of_runs h rfl rfl rfl (fun x hx => ⟨x, hx, rfl, rfl⟩) h.nodup
  | cancelled i =>
    obtain ⟨c, hc, rfl⟩ := Option.map_eq_some_iff.1 hstep
    cases hpurge : c.purge with
    | false => exact orderly_of_runs h rfl rfl rfl (fun x hx => ⟨x, hx, rfl, rfl⟩) h.nodup
    | true =>
      have hfree : W.isFree c.handlerId := by
        simpa [HandlerWorld.sparesRuns, Option.eq_some_of_filter_eq_some hc, hpurge] using hspares
      exact orderly_purge h hfree _

end StartingAux

open StartingAux

/-- A handler has one live run, and every live run has a handler: the row of the handler that it was started for names it, is
the row that its terminal status update finds, and is not terminal, so that the service resolves the handler to it. -/
theorem handler_has_one_live_run (T : HandlerTable) {W : HandlerWorld}
    (hrun : Lib.Run HandlerWorld.step (fun W a => W.sparesRuns a) (HandlerWorld.start T) W) :
    ((W.runs.filter HandlerRun.live).map HandlerRun.handlerId).Nodup ∧
      ∀ x ∈ W.runs, x.live → ∃ h, W.rows.get? x.handlerId = some h ∧ h.runId = some x.runId ∧
        h.status.isTerminal = false ∧ ∀ u, W.found x.runId (.terminalEvent u) = some h := by
  have h : Orderly W := hrun.invariant Orderly (start_orderly T) fun _ _ _ h hs hstep => step_orderly h hs hstep
  refine ⟨?_, fun x hx _ => ?_⟩
  · have hruns := (List.pairwise_map.1 h.nodup).sublist (List.filter_sublist (p := HandlerRun.live))
    refine List.pairwise_map.2 (hruns.imp_of_mem fun {x y} hx hy hne heq => hne ?_)
    obtain ⟨row, hrow, hid, -⟩ := (h.owned x (List.mem_filter.1 hx).1).row
    obtain ⟨row', hrow', hid', -⟩ := (h.owned y (List.mem_filter.1 hy).1).row
    rw [heq, hrow'] at hrow
    cases hrow
    exact Option.some.inj (hid.symm.trans hid')
  · obtain ⟨row, hrow, hid, hstatus⟩ := (h.owned x hx).row
    refine ⟨row, hrow, hid, hstatus, fun u => ?_⟩
    have hmem : row ∈ W.rows.ofRun x.runId := by
      refine W.rows.mem_query.2 ⟨?_, by simp [HandlerQuery.accepts, hid]⟩
      rw [W.rows.keyed hrow]
      exact hrow
    obtain ⟨row', hhead⟩ := Option.isSome_iff_exists.1 (List.isSome_head?.2 (List.ne_nil_of_mem hmem))
    have hfound : W.found x.runId (.terminalEvent u) = some row' := hhead
    obtain ⟨hget, hid'⟩ := RowRun.get?_of_found hfound
    have hhandler := (h.owned x hx).sole hget hid'
    rw [hhandler, hrow] at hget
    cases hget
    exact hfound

namespace Restarted

/-- A run is started under a handler, and another one under the same handler. -/
def restarted : List HandlerAction :=
  [.request "h" "Ask", .store 0 "r" 1, .run 0, .request "h" "Ask", .store 0 "s" 2, .run 1]

/-- A run is started under a handler, completes, and another one is started under the same handler. -/
def continued : List HandlerAction :=
  [.request "h" "Ask", .store 0 "r" 1, .run 0, .ends 0 { status := .completed, result := some ⟨.stopEvent, []⟩ },
    .row (.write 0 2), .request "h" "Ask", .store 0 "s" 3, .run 0]

/-- The runs that are live. -/
def liveRuns (W : HandlerWorld) : List (String × String) := (W.runs.filter HandlerRun.live).map fun x => (x.handlerId, x.runId)

end Restarted

open Restarted in
/-- A handler is started again while its run is live: both runs are live, and no row names the first. -/
theorem handler_has_one_live_run_false : ∃ W, Lib.Run HandlerWorld.step (fun _ _ => True) (HandlerWorld.start .empty) W ∧
    liveRuns W = [("h", "r"), ("h", "s")] ∧ W.rows.ofRun "r" = [] :=
  Lib.Run.exists_of_actions _ _ restarted _ (by decide +kernel)

open Restarted in
/-- A handler is started again after its run has completed: the second run is live and has the row. -/
theorem handler_has_one_live_run_continued : ∃ W : HandlerWorld, liveRuns W = [("h", "s")] ∧
    ((W.runs.filter HandlerRun.live).map HandlerRun.handlerId).Nodup ∧ ∀ x ∈ W.runs, x.live → ∃ h,
      W.rows.get? x.handlerId = some h ∧ h.runId = some x.runId ∧ h.status.isTerminal = false ∧
      ∀ u, W.found x.runId (.terminalEvent u) = some h := by
  obtain ⟨W, hrun, hcheck⟩ := Lib.Run.exists_of_exec HandlerWorld.step (fun W a => W.sparesRuns a) (HandlerWorld.start .empty)
    continued (fun W => liveRuns W = [("h", "s")]) (by decide +kernel)
  exact ⟨W, hcheck, handler_has_one_live_run .empty hrun⟩

end LlamaAgents
