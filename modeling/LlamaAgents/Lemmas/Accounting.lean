import Mathlib.Algebra.Order.BigOperators.Group.List
import Mathlib.Algebra.Order.Ring.Int
import Mathlib.Tactic.Ring
import LlamaAgents.Accounting
import LlamaAgents.Lemmas.Frame

/-!
# Stream bookkeeping keeps the books

`Scoped` says how scopes, streams and release states hang together; each function of the stream bookkeeping keeps it, and moves
work between the work items of a stream, its children and its counter without losing any.
-/

namespace LlamaAgents

open Lib (Dict)

/-- A scope path whose innermost stream was opened in the rest of it, before the counter reached `k`. -/
def ScopeOk (k : Nat) (p : ScopePath) : Prop := ∀ s, p.getLast? = some s → p.dropLast = s.path ∧ s.seq < k

/-- A scope stays well formed when more streams are opened. -/
theorem ScopeOk.mono {k k' : Nat} (hk : k ≤ k') {p : ScopePath} (h : ScopeOk k p) : ScopeOk k' p :=
  fun s hs => ⟨(h s hs).1, lt_of_lt_of_le (h s hs).2 hk⟩

theorem ScopeOk.nil (k : Nat) : ScopeOk k [] := by simp [ScopeOk]

/-- How scopes, streams and release states hang together. -/
structure Scoped (cfg : BrokerConfig) (σ : BrokerState) : Prop where
  /-- An open stream is what its id says, and its bindings are those of its producer. -/
  stream : ∀ s st, σ.streams.get? s = some st → st.streamId = s ∧ st.sourceStep = s.step ∧ st.scopePath = s.path ∧
    st.acceptingBindingIds = (cfg.bindingsForSource s.step).map CollectionBinding.id ∧ s.seq < σ.streamSeq ∧
    ScopeOk σ.streamSeq s.path
  /-- Every work item lives in a scope that was opened. -/
  record : ∀ n, ∀ r ∈ (σ.workers n).records, ScopeOk σ.streamSeq r.scopePath
  /-- A release state belongs to a binding of an open stream. -/
  release : ∀ s id r, σ.collectionReleaseStates.get? (s, id) = some r →
    ∃ st, σ.streams.get? s = some st ∧ id ∈ st.acceptingBindingIds

namespace AccountingAux

variable (cfg : BrokerConfig) (now : Time)

/-! ## Counting work -/

/-- One where the innermost scope is the stream, zero elsewhere. -/
def one (p : ScopePath) (s : StreamId) : Int := if p.getLast? = some s then 1 else 0

theorem one_nonneg (p : ScopePath) (s : StreamId) : 0 ≤ one p s := by
  unfold one
  split <;> omega

/-- A step's work in a stream is counted on the records. -/
theorem workIn_eq_countP (w : InternalStepWorkerState) (s : StreamId) :
    w.workIn s = (w.records.countP fun r => r.scopePath.getLast? = some s : Nat) := by
  rw [InternalStepWorkerState.records, Multiset.coe_countP, List.countP_append, List.countP_map, List.countP_map,
    InternalStepWorkerState.workIn]
  push_cast
  rfl

theorem workIn_nonneg (w : InternalStepWorkerState) (s : StreamId) : 0 ≤ w.workIn s := by
  unfold InternalStepWorkerState.workIn
  omega

theorem workIn_congr {w w' : InternalStepWorkerState} (h : w'.records = w.records) (s : StreamId) :
    w'.workIn s = w.workIn s := by
  rw [workIn_eq_countP, workIn_eq_countP, h]

/-- One more work record is one more in the stream it runs in. -/
theorem workIn_cons {w w' : InternalStepWorkerState} {r : WorkRecord} (h : w'.records = r ::ₘ w.records) (s : StreamId) :
    w'.workIn s = w.workIn s + one r.scopePath s := by
  rw [workIn_eq_countP, workIn_eq_countP, h, Multiset.countP_cons, one]
  split <;> simp

variable {cfg}

/-- The work in a stream changes with the worker state of a configured step. -/
theorem workIn_setWorker {n : StepId} {c : StepConfig} (hn : cfg.steps.get? n = some c) (σ : BrokerState)
    (w : InternalStepWorkerState) (s : StreamId) :
    (σ.setWorker n w).workIn cfg s = σ.workIn cfg s - (σ.workers n).workIn s + w.workIn s := by
  have h := cfg.steps.sum_eq_of_ne (fun m _ => (σ.workers m).workIn s)
    (fun m _ => ((σ.setWorker n w).workers m).workIn s) hn fun m _ _ hm => by
      simp only [BrokerState.setWorker_workers, Function.update_of_ne hm]
  simpa [BrokerState.workIn] using h

theorem workIn_setWorker_congr {n : StepId} {c : StepConfig} (hn : cfg.steps.get? n = some c) {σ : BrokerState}
    {w : InternalStepWorkerState} (hw : w.records = (σ.workers n).records) (s : StreamId) :
    (σ.setWorker n w).workIn cfg s = σ.workIn cfg s := by
  rw [workIn_setWorker hn, workIn_congr hw]
  omega

/-- One more record at a step is one more in the whole state. -/
theorem workIn_setWorker_cons {n : StepId} {c : StepConfig} (hn : cfg.steps.get? n = some c) {σ : BrokerState}
    {w : InternalStepWorkerState} {r : WorkRecord} (hw : w.records = r ::ₘ (σ.workers n).records) (s : StreamId) :
    (σ.setWorker n w).workIn cfg s = σ.workIn cfg s + one r.scopePath s := by
  rw [workIn_setWorker hn, workIn_cons hw]
  omega

@[simp] theorem setStreams_workIn (σ : BrokerState) (d : Dict StreamId CollectionStreamInstance) (s : StreamId) :
    (σ.setStreams d).workIn cfg s = σ.workIn cfg s := rfl

@[simp] theorem setReleases_workIn (σ : BrokerState) (d : Dict (StreamId × BindingId) CollectionReleaseState)
    (s : StreamId) : (σ.setReleases d).workIn cfg s = σ.workIn cfg s := rfl

@[simp] theorem report_workIn (σ : BrokerState) (e : LogEntry) (s : StreamId) :
    (σ.report e).workIn cfg s = σ.workIn cfg s := rfl

variable (cfg) in
theorem workIn_total_nonneg (σ : BrokerState) (s : StreamId) : 0 ≤ σ.workIn cfg s := by
  apply List.sum_nonneg
  intro x hx
  obtain ⟨e, -, rfl⟩ := List.mem_map.1 hx
  exact workIn_nonneg _ s

theorem childrenIn_nonneg (σ : BrokerState) (s : StreamId) : 0 ≤ σ.childrenIn s := by
  apply List.sum_nonneg
  intro x hx
  obtain ⟨e, -, rfl⟩ := List.mem_map.1 hx
  dsimp only
  split <;> omega

theorem childrenIn_congr {σ σ' : BrokerState} (hs : σ'.streams = σ.streams)
    (hr : σ'.collectionReleaseStates = σ.collectionReleaseStates) (s : StreamId) : σ'.childrenIn s = σ.childrenIn s := by
  simp only [BrokerState.childrenIn, BrokerState.unreleased, BrokerState.releaseState, hs, hr]

theorem counter_congr {σ σ' : BrokerState} (hs : σ'.streams = σ.streams) (s : StreamId) : σ'.counter s = σ.counter s := by
  rw [BrokerState.counter, BrokerState.counter, hs]

@[simp] theorem setWorker_counter (σ : BrokerState) (n : StepId) (w : InternalStepWorkerState) (s : StreamId) :
    (σ.setWorker n w).counter s = σ.counter s := rfl

@[simp] theorem setReleases_counter (σ : BrokerState) (d : Dict (StreamId × BindingId) CollectionReleaseState)
    (s : StreamId) : (σ.setReleases d).counter s = σ.counter s := rfl

@[simp] theorem setWorker_childrenIn (σ : BrokerState) (n : StepId) (w : InternalStepWorkerState) (s : StreamId) :
    (σ.setWorker n w).childrenIn s = σ.childrenIn s := rfl

end AccountingAux

namespace Scoped

variable {cfg : BrokerConfig}

theorem congr {σ σ' : BrokerState} (h : Scoped cfg σ) (hs : σ'.streams = σ.streams)
    (hr : σ'.collectionReleaseStates = σ.collectionReleaseStates) (hw : ∀ n, (σ'.workers n).records = (σ.workers n).records)
    (hk : σ'.streamSeq = σ.streamSeq) : Scoped cfg σ' where
  stream := by simpa only [hs, hk] using h.stream
  record := by simpa only [hw, hk] using h.record
  release := by simpa only [hs, hr] using h.release

/-- A work item added in a scope that was opened keeps the scopes right. -/
theorem setWorker {σ : BrokerState} (h : Scoped cfg σ) {n : StepId} {w : InternalStepWorkerState} {r : WorkRecord}
    (hw : w.records = r ::ₘ (σ.workers n).records) (hr : ScopeOk σ.streamSeq r.scopePath) : Scoped cfg (σ.setWorker n w) where
  stream := h.stream
  record m x hx := by
    by_cases hm : m = n
    · subst hm
      simp only [BrokerState.setWorker_workers, Function.update_self, hw, Multiset.mem_cons] at hx
      rcases hx with rfl | hx
      · exact hr
      · exact h.record m x hx
    · simp only [BrokerState.setWorker_workers, Function.update_of_ne hm] at hx
      exact h.record m x hx
  release := h.release

/-- A state whose steps hold no more work than before keeps the scopes right. -/
theorem setWorker_le {σ : BrokerState} (h : Scoped cfg σ) {n : StepId} {w : InternalStepWorkerState}
    (hw : w.records ≤ (σ.workers n).records) : Scoped cfg (σ.setWorker n w) where
  stream := h.stream
  record m x hx := by
    by_cases hm : m = n
    · subst hm
      simp only [BrokerState.setWorker_workers, Function.update_self] at hx
      exact h.record m x (Multiset.mem_of_le hw hx)
    · simp only [BrokerState.setWorker_workers, Function.update_of_ne hm] at hx
      exact h.record m x hx
  release := h.release

end Scoped

namespace AccountingAux

variable {cfg : BrokerConfig} (now : Time) {b : CollectionBinding} {bs : List CollectionBinding}

/-! ## Firing and closing -/

/-- The records after a release fires. -/
theorem fireCollectionRelease_records (c : StepConfig) (b : CollectionBinding) (s : StreamId) (es : List Event)
    (out : ScopePath) (σ : BrokerState) :
    ((fireCollectionRelease c b s es out now σ).1.workers b.targetStep).records =
      (CollectionReleasePayload.mk b.id s es out).toAttempt.record ::ₘ (σ.workers b.targetStep).records := by
  simp [fireCollectionRelease, WorkAux.addOrEnqueueEvent_records]

theorem fireCollectionRelease_workers_ne (c : StepConfig) (b : CollectionBinding) (s : StreamId) (es : List Event)
    (out : ScopePath) (σ : BrokerState) {n : StepId} (hn : n ≠ b.targetStep) :
    (fireCollectionRelease c b s es out now σ).1.workers n = σ.workers n := by
  simp [fireCollectionRelease, Function.update_of_ne hn]

/-- A release that fires is one work item in its output scope. -/
theorem fireCollectionRelease_workIn {c : StepConfig} (hb : cfg.steps.get? b.targetStep = some c)
    (s : StreamId) (es : List Event) (out : ScopePath) (σ : BrokerState) (t : StreamId) :
    (fireCollectionRelease c b s es out now σ).1.workIn cfg t = σ.workIn cfg t + one out t := by
  have h := workIn_setWorker_cons hb
    (WorkAux.addOrEnqueueEvent_records c b.targetStep now (CollectionReleasePayload.mk b.id s es out).toAttempt
      (σ.workers b.targetStep)) t
  exact h

/-- The turn of a configured binding when its stream closes. -/
theorem closeBinding_eq (hb : cfg.collectionBindings.get? b.id = some b) (s : StreamId)
    (path : ScopePath) (σ : BrokerState) :
    ∃ c, cfg.steps.get? b.targetStep = some c ∧
      closeBinding cfg s path now b σ =
        if (σ.releaseState s b.id).released then (σ.setReleases (σ.collectionReleaseStates.erase (s, b.id)), [])
        else fireCollectionRelease c b s (b.policy.batch (σ.releaseState s b.id).buffer) path now
          (σ.setReleases (σ.collectionReleaseStates.erase (s, b.id))) := by
  obtain ⟨c, hc, hp⟩ := cfg.binding_target _ b hb
  refine ⟨c, hc, ?_⟩
  have hn : c.collectionParam.isNone = false := by simpa [Option.isSome_iff_ne_none] using hp
  by_cases hrel : (σ.releaseState s b.id).released <;>
    simp [closeBinding, hc, hn, releaseOnClose, hrel]

/-- A binding's turn pops its release state and leaves the other ones. -/
theorem closeBinding_releases (hb : cfg.collectionBindings.get? b.id = some b) (s : StreamId)
    (path : ScopePath) (σ : BrokerState) :
    (closeBinding cfg s path now b σ).1.collectionReleaseStates = σ.collectionReleaseStates.erase (s, b.id) ∧
      (closeBinding cfg s path now b σ).1.streams = σ.streams := by
  obtain ⟨c, -, h⟩ := closeBinding_eq now hb s path σ
  rw [h]
  split <;> exact ⟨rfl, rfl⟩

/-- A binding that has not released is one work item in the producer's scope. -/
theorem closeBinding_workIn (hb : cfg.collectionBindings.get? b.id = some b) (s : StreamId)
    (path : ScopePath) (σ : BrokerState) (t : StreamId) :
    (closeBinding cfg s path now b σ).1.workIn cfg t =
      σ.workIn cfg t + if (σ.releaseState s b.id).released then 0 else one path t := by
  obtain ⟨c, hc, h⟩ := closeBinding_eq now hb s path σ
  rw [h]
  split
  · simp
  · simp [fireCollectionRelease_workIn now hc]

/-- A binding's turn adds work in the producer's scope only. -/
theorem closeBinding_mem_records (hb : cfg.collectionBindings.get? b.id = some b) (s : StreamId)
    (path : ScopePath) (σ : BrokerState) {n : StepId} {r : WorkRecord}
    (hr : r ∈ ((closeBinding cfg s path now b σ).1.workers n).records) : r ∈ (σ.workers n).records ∨ r.scopePath = path := by
  obtain ⟨c, -, h⟩ := closeBinding_eq now hb s path σ
  rw [h] at hr
  split at hr
  · exact Or.inl hr
  · by_cases hn : n = b.targetStep
    · subst hn
      rw [fireCollectionRelease_records, Multiset.mem_cons] at hr
      rcases hr with rfl | hr
      · exact Or.inr rfl
      · exact Or.inl hr
    · rw [fireCollectionRelease_workers_ne now _ _ _ _ _ _ hn] at hr
      exact Or.inl hr

/-- The release states after the turns of a list of bindings: those of the list are gone. -/
theorem closeBindings_releases (hb : ∀ b ∈ bs, cfg.collectionBindings.get? b.id = some b)
    (s : StreamId) (path : ScopePath) (σ : BrokerState) (t : StreamId) (id : BindingId) :
    (closeBindings cfg s path now bs σ).1.collectionReleaseStates.get? (t, id) =
      if t = s ∧ id ∈ bs.map CollectionBinding.id then none else σ.collectionReleaseStates.get? (t, id) := by
  induction bs generalizing σ with
  | nil => simp [closeBindings]
  | cons b bs ih =>
    rw [closeBindings, ih (fun b' hb' => hb b' (List.mem_cons_of_mem b hb')),
      (closeBinding_releases now (hb b List.mem_cons_self) s path σ).1, Dict.get?_erase]
    by_cases hts : t = s
    · by_cases hid : id = b.id
      · simp [hts, hid]
      · have : ¬(s, b.id) = (t, id) := fun h => hid (Prod.mk.inj h).2.symm
        simp [hts, hid, Ne.symm hid]
    · have : ¬(s, b.id) = (t, id) := fun h => hts (Prod.mk.inj h).1.symm
      simp [hts, this]

theorem closeBindings_streams (hb : ∀ b ∈ bs, cfg.collectionBindings.get? b.id = some b)
    (s : StreamId) (path : ScopePath) (σ : BrokerState) : (closeBindings cfg s path now bs σ).1.streams = σ.streams := by
  induction bs generalizing σ with
  | nil => rfl
  | cons b bs ih =>
    rw [closeBindings, ih (fun b' hb' => hb b' (List.mem_cons_of_mem b hb')),
      (closeBinding_releases now (hb b List.mem_cons_self) s path σ).2]

/-- Closing fires one work item, in the producer's scope, for each binding that has not released. -/
theorem closeBindings_workIn (hb : ∀ b ∈ bs, cfg.collectionBindings.get? b.id = some b)
    (hnd : (bs.map CollectionBinding.id).Nodup) (s : StreamId) (path : ScopePath) (σ : BrokerState) (t : StreamId) :
    (closeBindings cfg s path now bs σ).1.workIn cfg t =
      σ.workIn cfg t + (bs.countP fun b => !(σ.releaseState s b.id).released) * one path t := by
  induction bs generalizing σ with
  | nil => simp [closeBindings]
  | cons b bs ih =>
    rw [List.map_cons, List.nodup_cons] at hnd
    have hcount : (bs.countP fun b' => !((closeBinding cfg s path now b σ).1.releaseState s b'.id).released) =
        bs.countP fun b' => !(σ.releaseState s b'.id).released := by
      apply List.countP_congr
      intro b' hb'
      have hne : (s, b'.id) ≠ (s, b.id) := fun h => hnd.1 (List.mem_map.2 ⟨b', hb', (Prod.mk.inj h).2⟩)
      rw [BrokerState.releaseState, (closeBinding_releases now (hb b List.mem_cons_self) s path σ).1,
        Dict.get?_erase_ne _ hne, ← BrokerState.releaseState]
    rw [closeBindings, ih (fun b' hb' => hb b' (List.mem_cons_of_mem b hb')) hnd.2, hcount,
      closeBinding_workIn now (hb b List.mem_cons_self), List.countP_cons]
    cases (σ.releaseState s b.id).released
    · simp only [Bool.false_eq_true, if_false, Bool.not_false, if_true]
      push_cast
      ring
    · simp

theorem closeBindings_mem_records (hb : ∀ b ∈ bs, cfg.collectionBindings.get? b.id = some b)
    (s : StreamId) (path : ScopePath) (σ : BrokerState) {n : StepId} {r : WorkRecord}
    (hr : r ∈ ((closeBindings cfg s path now bs σ).1.workers n).records) : r ∈ (σ.workers n).records ∨ r.scopePath = path := by
  induction bs generalizing σ with
  | nil => exact Or.inl hr
  | cons b bs ih =>
    rcases ih (fun b' hb' => hb b' (List.mem_cons_of_mem b hb')) _ hr with h | h
    · exact closeBinding_mem_records now (hb b List.mem_cons_self) s path σ h
    · exact Or.inr h

theorem bindingsForSource_config (n : StepId) :
    ∀ b ∈ cfg.bindingsForSource n, cfg.collectionBindings.get? b.id = some b :=
  fun b hb => ((cfg.mem_bindingsForSource n b).1 hb).1

/-- A producer's bindings have different ids. -/
theorem bindingsForSource_nodup (n : StepId) : ((cfg.bindingsForSource n).map CollectionBinding.id).Nodup := by
  have hkeys : cfg.collectionBindings.values.map CollectionBinding.id = cfg.collectionBindings.keys := by
    rw [Dict.values, Dict.keys, List.map_map]
    refine List.map_congr_left fun e he => ?_
    exact cfg.binding_key e.1 e.2 ((cfg.collectionBindings.get?_eq_some_iff e.1 e.2).2 he)
  have : (cfg.collectionBindings.values.map CollectionBinding.id).Nodup := hkeys ▸ cfg.collectionBindings.nodup
  exact this.sublist (List.filter_sublist.map _)

/-- What the log says of the bindings that release when a stream closes. -/
def closeReleases (σ : BrokerState) (s : StreamId) (path : ScopePath) (bs : List CollectionBinding) : List LogEntry :=
  (bs.filter fun b => !(σ.releaseState s b.id).released).map fun b =>
    .released b s (CollectionReleasePayload.mk b.id s (b.policy.batch (σ.releaseState s b.id).buffer) path).toAttempt

/-- Two states with the same release states of some bindings log the same releases of them. -/
theorem closeReleases_congr {σ σ' : BrokerState} {s : StreamId}
    (h : ∀ b ∈ bs, σ'.releaseState s b.id = σ.releaseState s b.id) (path : ScopePath) :
    closeReleases σ' s path bs = closeReleases σ s path bs := by
  rw [closeReleases, closeReleases, List.filter_congr fun b hb => by rw [h b hb]]
  refine List.map_congr_left fun b hb => ?_
  rw [h b (List.mem_filter.1 hb).1]

/-- A closing stream logs the releases that it fires. -/
theorem closeBindings_log (hb : ∀ b ∈ bs, cfg.collectionBindings.get? b.id = some b)
    (hnd : (bs.map CollectionBinding.id).Nodup) (s : StreamId) (path : ScopePath) (σ : BrokerState) :
    (closeBindings cfg s path now bs σ).1.log = σ.log ++ closeReleases σ s path bs := by
  induction bs generalizing σ with
  | nil => simp [closeBindings, closeReleases]
  | cons b bs ih =>
    rw [List.map_cons, List.nodup_cons] at hnd
    have hrest : closeReleases (closeBinding cfg s path now b σ).1 s path bs = closeReleases σ s path bs := by
      refine closeReleases_congr (fun b' hb' => ?_) path
      have hne : (s, b'.id) ≠ (s, b.id) := fun h => hnd.1 (List.mem_map.2 ⟨b', hb', (Prod.mk.inj h).2⟩)
      rw [BrokerState.releaseState, (closeBinding_releases now (hb b List.mem_cons_self) s path σ).1,
        Dict.get?_erase_ne _ hne, ← BrokerState.releaseState]
    rw [closeBindings, ih (fun b' hb' => hb b' (List.mem_cons_of_mem b hb')) hnd.2, hrest]
    obtain ⟨c, -, h⟩ := closeBinding_eq now (hb b List.mem_cons_self) s path σ
    rw [h]
    cases hrel : (σ.releaseState s b.id).released <;> simp [closeReleases, hrel, fireCollectionRelease]

/-! ## Closing a stream -/

section Close

variable {σ : BrokerState} {s : StreamId} {st : CollectionStreamInstance}

theorem closeCollectionStream_eq (hst : σ.streams.get? s = some st) :
    closeCollectionStream cfg s now σ = closeBindings cfg s st.scopePath now (cfg.bindingsForSource st.sourceStep)
      (σ.setStreams (σ.streams.erase s)) := by
  simp [closeCollectionStream, hst]

theorem closeCollectionStream_streams (hst : σ.streams.get? s = some st) :
    (closeCollectionStream cfg s now σ).1.streams = σ.streams.erase s := by
  rw [closeCollectionStream_eq now hst, closeBindings_streams now (bindingsForSource_config _)]
  rfl

theorem closeCollectionStream_log (hst : σ.streams.get? s = some st) :
    (closeCollectionStream cfg s now σ).1.log =
      σ.log ++ closeReleases σ s st.scopePath (cfg.bindingsForSource st.sourceStep) := by
  rw [closeCollectionStream_eq now hst,
    closeBindings_log now (bindingsForSource_config _) (bindingsForSource_nodup _)]
  rfl

/-- A closed stream leaves no release state. -/
theorem closeCollectionStream_releases (hst : σ.streams.get? s = some st) (t : StreamId) (id : BindingId) :
    (closeCollectionStream cfg s now σ).1.collectionReleaseStates.get? (t, id) =
      if t = s ∧ id ∈ (cfg.bindingsForSource st.sourceStep).map CollectionBinding.id then none
      else σ.collectionReleaseStates.get? (t, id) := by
  rw [closeCollectionStream_eq now hst, closeBindings_releases now (bindingsForSource_config _)]
  rfl

/-- After a stream closes nothing of it is left, and the other scopes are as before. -/
theorem closeCollectionStream_scoped (h : Scoped cfg σ) (hst : σ.streams.get? s = some st) :
    Scoped cfg (closeCollectionStream cfg s now σ).1 := by
  obtain ⟨-, hsrc, hpath, hids, -, hok⟩ := h.stream s st hst
  have hseq := (Serves.close cfg now s σ).frame.streamSeq
  refine ⟨?_, ?_, ?_⟩
  · intro t st' ht
    rw [closeCollectionStream_streams now hst, Dict.get?_erase] at ht
    split at ht
    · cases ht
    · rw [hseq]
      exact h.stream t st' ht
  · intro n r hr
    rw [closeCollectionStream_eq now hst] at hr
    rw [hseq]
    rcases closeBindings_mem_records now (bindingsForSource_config _) s _ _ hr with hr | hr
    · exact h.record n r hr
    · rw [hr, hpath]
      exact hok
  · intro t id r hr
    rw [closeCollectionStream_releases now hst] at hr
    split at hr
    · cases hr
    · case isFalse hne =>
      obtain ⟨st', hst', hid⟩ := h.release t id r hr
      refine ⟨st', ?_, hid⟩
      rw [closeCollectionStream_streams now hst, Dict.get?_erase]
      split
      · case isTrue hts =>
        subst hts
        rw [hst, Option.some.injEq] at hst'
        subst hst'
        exact absurd ⟨rfl, by rw [hsrc, ← hids]; exact hid⟩ hne
      · exact hst'

/-- What a child owes its parent becomes work of the parent when the child closes; no stream's work changes. -/
theorem closeCollectionStream_work (h : Scoped cfg σ) (hst : σ.streams.get? s = some st) (t : StreamId) :
    (closeCollectionStream cfg s now σ).1.workIn cfg t + (closeCollectionStream cfg s now σ).1.childrenIn t =
      σ.workIn cfg t + σ.childrenIn t := by
  obtain ⟨hid, hsrc, -, hids, -, -⟩ := h.stream s st hst
  have hwork : (closeCollectionStream cfg s now σ).1.workIn cfg t =
      σ.workIn cfg t + σ.unreleased st * one st.scopePath t := by
    rw [closeCollectionStream_eq now hst,
      closeBindings_workIn now (bindingsForSource_config _) (bindingsForSource_nodup _), BrokerState.unreleased, hids, hsrc, hid,
      List.countP_map]
    rfl
  have hchildren : (closeCollectionStream cfg s now σ).1.childrenIn t =
      σ.childrenIn t - if st.scopePath.getLast? = some t then (σ.unreleased st : Int) else 0 := by
    rw [BrokerState.childrenIn, BrokerState.childrenIn, closeCollectionStream_streams now hst, ← Dict.sum_erase _ _ hst]
    refine Dict.sum_congr _ fun k st' hk => ?_
    have hget := (Dict.get?_eq_some_iff _ _ _).2 hk
    rw [Dict.get?_erase] at hget
    split at hget
    · cases hget
    · case isFalse hks =>
      have hk' := (h.stream k st' hget).1
      have : (closeCollectionStream cfg s now σ).1.unreleased st' = σ.unreleased st' := by
        unfold BrokerState.unreleased
        refine List.countP_congr fun id _ => ?_
        rw [BrokerState.releaseState, closeCollectionStream_releases now hst, if_neg fun hc => hks (hk'.symm.trans hc.1).symm,
          ← BrokerState.releaseState]
      rw [this]
  rw [hwork, hchildren, one]
  split <;> ring

/-- A closed stream counts nothing; the others keep their count. -/
theorem closeCollectionStream_counter (hst : σ.streams.get? s = some st) (t : StreamId) :
    (closeCollectionStream cfg s now σ).1.counter t = if t = s then 0 else σ.counter t := by
  rw [BrokerState.counter, closeCollectionStream_streams now hst, Dict.get?_erase, BrokerState.counter]
  by_cases hts : t = s
  · simp [hts]
  · simp [hts, Ne.symm hts]

end Close

/-! ## Adjusting a counter -/

section Adjust

variable {σ : BrokerState} {s : StreamId} {st : CollectionStreamInstance}

/-- The streams with a new counter for one of them. -/
abbrev setCount (σ : BrokerState) (s : StreamId) (st : CollectionStreamInstance) (n : Int) : BrokerState :=
  σ.setStreams (σ.streams.set s { st with openWorkItems := n })

theorem setCount_scoped (h : Scoped cfg σ) (hst : σ.streams.get? s = some st) (n : Int) : Scoped cfg (setCount σ s st n) where
  stream t st' ht := by
    rw [BrokerState.setStreams_streams, Dict.get?_set] at ht
    split at ht
    · case isTrue hts =>
      cases ht
      exact hts ▸ h.stream s st hst
    · exact h.stream t st' ht
  record := h.record
  release t id r hr := by
    obtain ⟨st', hst', hid⟩ := h.release t id r hr
    rw [BrokerState.setStreams_streams, Dict.get?_set]
    split
    · case isTrue hts =>
      subst hts
      rw [hst, Option.some.injEq] at hst'
      exact ⟨_, rfl, hst' ▸ hid⟩
    · exact ⟨st', hst', hid⟩

theorem setCount_childrenIn (hst : σ.streams.get? s = some st) (n : Int) (t : StreamId) :
    (setCount σ s st n).childrenIn t = σ.childrenIn t := by
  rw [BrokerState.childrenIn, BrokerState.setStreams_streams, Dict.sum_set_old _ _ _ hst, BrokerState.childrenIn]
  exact Int.sub_add_cancel _ _

/-- A count is written for one stream. -/
theorem setCount_counter (n : Int) (t : StreamId) : (setCount σ s st n).counter t = if t = s then n else σ.counter t := by
  rw [BrokerState.counter, BrokerState.setStreams_streams, Dict.get?_set, BrokerState.counter]
  by_cases hts : t = s
  · simp [hts]
  · simp [hts, Ne.symm hts]

end Adjust

end AccountingAux

open AccountingAux

/-- The books of a state are in order when `p` work is pending for each stream: each counter is the work items, the owed
releases and the pending work of its stream, and no fault was logged. -/
structure Accounts (cfg : BrokerConfig) (σ : BrokerState) (p : StreamId → Int) : Prop where
  scopes : Scoped cfg σ
  balance : ∀ s, σ.counter s = σ.workIn cfg s + σ.childrenIn s + p s
  quiet : ∀ e ∈ σ.log, e.isFault = false

namespace Accounts

variable {cfg : BrokerConfig} {σ : BrokerState} {p : StreamId → Int} {s : StreamId} {st : CollectionStreamInstance}

theorem congr (h : Accounts cfg σ p) {q : StreamId → Int} (hq : ∀ s, q s = p s) : Accounts cfg σ q :=
  ⟨h.scopes, fun s => by rw [hq, h.balance], h.quiet⟩

/-- A stream with work or pending work is open, and its counter is at least that. -/
theorem isOpen (h : Accounts cfg σ p) (hs : 0 < σ.workIn cfg s + p s) :
    ∃ st, σ.streams.get? s = some st ∧ σ.workIn cfg s + p s ≤ st.openWorkItems := by
  have hb := h.balance s
  have hc := childrenIn_nonneg σ s
  cases hst : σ.streams.get? s with
  | none =>
    rw [BrokerState.counter, hst, Option.map_none, Option.getD_none] at hb
    omega
  | some st =>
    rw [BrokerState.counter, hst, Option.map_some, Option.getD_some] at hb
    exact ⟨st, rfl, by omega⟩

/-- Closing a stream takes its counter off the pending work. -/
theorem close (h : Accounts cfg σ p) (hst : σ.streams.get? s = some st)
    (now : Time) :
    Accounts cfg (closeCollectionStream cfg s now σ).1 fun t => p t - if t = s then st.openWorkItems else 0 := by
  refine ⟨closeCollectionStream_scoped now h.scopes hst, fun t => ?_, fun e he => ?_⟩
  · have hb := h.balance t
    rw [closeCollectionStream_counter now hst, closeCollectionStream_work now h.scopes hst]
    split
    · case isTrue hts =>
      subst hts
      rw [BrokerState.counter, hst, Option.map_some, Option.getD_some] at hb
      omega
    · omega
  · rw [closeCollectionStream_log now hst, List.mem_append] at he
    rcases he with he | he
    · exact h.quiet e he
    · obtain ⟨b, -, rfl⟩ := List.mem_map.1 he
      rfl

/-- A new counter moves the pending work by the difference. -/
theorem setCount (h : Accounts cfg σ p) (hst : σ.streams.get? s = some st)
    (delta : Int) : Accounts cfg (AccountingAux.setCount σ s st (st.openWorkItems + delta)) fun t =>
      p t + if t = s then delta else 0 := by
  refine ⟨setCount_scoped h.scopes hst _, fun t => ?_, h.quiet⟩
  have hb := h.balance t
  rw [setCount_counter, setCount_childrenIn hst, setStreams_workIn]
  split
  · case isTrue hts =>
    subst hts
    rw [BrokerState.counter, hst, Option.map_some, Option.getD_some] at hb
    omega
  · omega

/-- Adjusting the counter of an open stream that stays non-negative moves the pending work by as much. -/
theorem adjust_some (h : Accounts cfg σ p) (hst : σ.streams.get? s = some st)
    {delta : Int} (hn : 0 ≤ st.openWorkItems + delta) (now : Time) :
    Accounts cfg (adjustOpenWorkItems cfg (some s) delta now σ).1 fun t => p t + if t = s then delta else 0 := by
  have hset : setOpenWorkItems s st (st.openWorkItems + delta) σ =
      AccountingAux.setCount σ s st (st.openWorkItems + delta) := by
    rw [setOpenWorkItems, if_neg (by omega)]
  have hget : (AccountingAux.setCount σ s st (st.openWorkItems + delta)).streams.get? s =
      some { st with openWorkItems := st.openWorkItems + delta } := by
    rw [BrokerState.setStreams_streams, Dict.get?_set_self]
  simp only [adjustOpenWorkItems, hst, hset]
  split
  · refine ((h.setCount hst delta).close hget now).congr fun t => ?_
    dsimp only
    split <;> omega
  · exact h.setCount hst delta

/-- Adjusting the innermost stream of a scope, if it has one. -/
theorem adjust (h : Accounts cfg σ p) {s : Option StreamId} (delta : Int)
    (hs : ∀ t, s = some t → ∃ st, σ.streams.get? t = some st ∧ 0 ≤ st.openWorkItems + delta) (now : Time) :
    Accounts cfg (adjustOpenWorkItems cfg s delta now σ).1 fun t => p t + if s = some t then delta else 0 := by
  cases s with
  | none => simpa [adjustOpenWorkItems] using h
  | some s =>
    obtain ⟨st, hst, hn⟩ := hs s rfl
    refine (h.adjust_some hst hn now).congr fun t => ?_
    simp only [Option.some.injEq, eq_comm]

/-- A pending delivery inside a stream that ends without new work is taken off the stream's counter. -/
theorem adjust_delivered (h : Accounts cfg σ p) {s : Option StreamId} (hs : ∀ t, s = some t → 1 ≤ p t) (now : Time) :
    Accounts cfg (adjustOpenWorkItems cfg s (-1) now σ).1 fun t => p t - if s = some t then 1 else 0 := by
  refine (h.adjust (-1) (fun t ht => ?_) now).congr fun t => by split <;> omega
  have hp := hs t ht
  have hw := workIn_total_nonneg cfg σ t
  obtain ⟨st, hst, hc⟩ := h.isOpen (s := t) (by omega)
  exact ⟨st, hst, by omega⟩

end Accounts

/-! ## Counters stay positive -/

/-- Every open stream of the second state has a positive counter or is as in the first. -/
def StreamsFrom (σ σ' : BrokerState) : Prop :=
  ∀ s st, σ'.streams.get? s = some st → 0 < st.openWorkItems ∨ σ.streams.get? s = some st

theorem StreamsFrom.of_eq {σ σ' : BrokerState} (h : σ'.streams = σ.streams) : StreamsFrom σ σ' :=
  fun _ _ hs => Or.inr (h ▸ hs)

theorem StreamsFrom.trans {σ σ' σ'' : BrokerState} (h : StreamsFrom σ σ') (h' : StreamsFrom σ' σ'') : StreamsFrom σ σ'' :=
  fun s st hs => (h' s st hs).elim Or.inl fun hs' => h s st hs'

namespace AccountingAux

variable (cfg : BrokerConfig) (now : Time)

/-- Only the closed stream is taken away. -/
theorem closeCollectionStream_get? (s t : StreamId) (σ : BrokerState) :
    (closeCollectionStream cfg s now σ).1.streams.get? t = if t = s then none else σ.streams.get? t := by
  cases hst : σ.streams.get? s with
  | none =>
    simp only [closeCollectionStream, hst]
    split
    · case isTrue hts => rw [hts, hst]
    · rfl
  | some st =>
    rw [closeCollectionStream_streams now hst, Dict.get?_erase]
    simp only [eq_comm]

theorem setOpenWorkItems_streams (s : StreamId) (st : CollectionStreamInstance) (n : Int) (σ : BrokerState) :
    (setOpenWorkItems s st n σ).streams = σ.streams.set s { st with openWorkItems := n } := by
  unfold setOpenWorkItems
  dsimp only
  split <;> rfl

/-- Adjusting a stream leaves it with a positive counter or closes it, and leaves the other streams. -/
theorem adjustOpenWorkItems_get? (s : Option StreamId) (delta : Int) (σ : BrokerState) (t : StreamId)
    (st : CollectionStreamInstance) (h : (adjustOpenWorkItems cfg s delta now σ).1.streams.get? t = some st) :
    (s = some t ∧ 0 < st.openWorkItems) ∨ σ.streams.get? t = some st := by
  unfold adjustOpenWorkItems at h
  split at h
  · exact Or.inr h
  · case h_2 s =>
    split at h
    · split at h <;> exact Or.inr h
    · dsimp only at h
      split at h
      · rw [closeCollectionStream_get?, setOpenWorkItems_streams] at h
        split at h
        · cases h
        · case isFalse hts => exact Or.inr (by rwa [Dict.get?_set_ne _ _ hts] at h)
      · case isFalse hn =>
        rw [setOpenWorkItems_streams, Dict.get?_set] at h
        split at h
        · case isTrue hts =>
          cases h
          exact Or.inl ⟨by rw [hts], by dsimp only; omega⟩
        · exact Or.inr h

theorem adjustOpenWorkItems_get?_ne {s : Option StreamId} (delta : Int) (σ : BrokerState) {t : StreamId} (hts : s ≠ some t) :
    (adjustOpenWorkItems cfg s delta now σ).1.streams.get? t = σ.streams.get? t := by
  unfold adjustOpenWorkItems
  split
  · rfl
  · case h_2 s =>
    have hts : t ≠ s := fun h => hts (by rw [h])
    split
    · split <;> rfl
    · dsimp only
      split
      · rw [closeCollectionStream_get?, setOpenWorkItems_streams, if_neg hts, Dict.get?_set_ne _ _ hts]
      · rw [setOpenWorkItems_streams, Dict.get?_set_ne _ _ hts]

/-- Adjusting a count opens no stream. -/
theorem adjustOpenWorkItems_streamsFrom (s : Option StreamId) (delta : Int) (σ : BrokerState) :
    StreamsFrom σ (adjustOpenWorkItems cfg s delta now σ).1 :=
  fun t st h => (adjustOpenWorkItems_get? cfg now s delta σ t st h).imp And.right id

end AccountingAux

end LlamaAgents
