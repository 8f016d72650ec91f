import Mathlib.Data.Finset.Max
import LlamaAgents.Serialized
import LlamaAgents.Workflow
import LlamaAgents.Lemmas.PlainLoop

/-!
# Stream accounting

In every run that is started from a fresh context and whose steps only return or raise, the counter of an open stream is its open
work: the work items in it, the deliveries pending for it and the releases its children owe it. The one exception is the last tick
of a run that a step fails for good, and a run that is resumed from its snapshot.
-/

namespace LlamaAgents

open PlainAux

namespace FailedMember

open FanOutJoin

/-- The fan-out returns one member, which is dispatched; the buffered idle check finds the run busy. -/
def opening : List Action := [.drain 1, .finish 0 (.ret (.list [.event ⟨member, []⟩])) 1, .drain 1, .drain 1, .drain 1]

/-- The step that works on the member raises. -/
def failing : List Action := opening ++ [.finish 0 (.raise ⟨.other "ValueError", "boom"⟩) 2, .drain 2]

/-- A run that is resumed from a snapshot of another. -/
def resumed (L : Loop) : Loop :=
  Loop.start (workflow .all).config (BrokerState.fromSerialized (workflow .all).config L.state.toSerialized) none 3

/-- The state after the failure: the stream is open, its counter is one, and it has no open work. -/
def check (L : Loop) : Bool :=
  L.state.streams.entries.any fun p => p.2.openWorkItems = 1 && L.openWork (workflow .all).config p.1 = 0

end FailedMember

open Lib (Dict)

namespace PlainAux

variable {cfg : BrokerConfig} {σ : BrokerState} {p : StreamId → Int}

/-- A stream that is open though nothing in it is queued, in progress or pending has a child, which is deeper. -/
theorem exists_child (h : PlainState cfg σ p) {s : StreamId} (hs : s ∈ σ.streams.keys) (hwork : σ.workIn cfg s = 0)
    (hp : p s = 0) : ∃ t ∈ σ.streams.keys, s.path.length < t.path.length := by
  obtain ⟨st, hst⟩ := (Dict.mem_keys_iff _ _).1 hs
  have hpositive := h.positive s st hst
  have hbalance := h.accounts.balance s
  rw [BrokerState.counter, hst, hwork, hp, Option.map_some, Option.getD_some] at hbalance
  by_contra hnone
  have hzero : σ.childrenIn s = 0 := by
    refine List.sum_eq_zero fun x hx => ?_
    obtain ⟨⟨t, child⟩, ht, rfl⟩ := List.mem_map.1 hx
    refine if_neg fun hlast => hnone ⟨t, List.mem_map_of_mem ht, ?_⟩
    obtain ⟨-, -, hpath, -, -, hok⟩ := h.accounts.scopes.stream t child ((Dict.get?_eq_some_iff _ _ _).2 ht)
    have hne : t.path ≠ [] := fun heq => by simp [hpath, heq] at hlast
    rw [← (hok s (hpath ▸ hlast)).1, List.length_dropLast]
    exact Nat.sub_one_lt (List.length_pos_of_ne_nil hne).ne'
  omega

/-- With nothing queued, in progress or pending no stream is open: the deepest one would have a deeper child. -/
theorem streams_of_quiet (h : PlainState cfg σ p) (hwork : ∀ s, σ.workIn cfg s = 0) (hp : ∀ s, p s = 0) : σ.streams.keys = [] := by
  by_contra hne
  obtain ⟨s, hs, hmax⟩ := σ.streams.keys.toFinset.exists_max_image (fun s => s.path.length) (by simpa using hne)
  rw [List.mem_toFinset] at hs
  obtain ⟨t, ht, hdeeper⟩ := exists_child h hs (hwork s) (hp s)
  exact absurd (hmax t (List.mem_toFinset.2 ht)) (by omega)

end PlainAux

/-- A run whose steps only return or raise never gets stuck: once nothing is queued, in progress or pending, no stream is open, so the
idle check that looks for streams that can never close does not fail the run. -/
theorem idle_run_has_no_open_stream (cfg : BrokerConfig) (runId : Option String) {σ : BrokerState} (hσ : σ.IsFresh) (start : Event)
    (now : Time) {L : Loop}
    (hrun : Lib.Run (Loop.step cfg runId) (fun _ a => a.isPlain) (Loop.start cfg σ (some start) now) L) (hout : L.outcome = none)
    (hidle : checkIdleState cfg L.state = true) (hbuffer : ∀ t ∈ L.tickBuffer, t = .idleCheck) :
    L.state.streams.keys = [] ∧ detectStuckStreams cfg L.state = none := by
  have h := ((run_plain hσ hrun).running hout).state
  rw [checkIdleState, Bool.and_eq_true, List.all_eq_true] at hidle
  have hwork : ∀ s, L.state.workIn cfg s = 0 := by
    refine fun s => List.sum_eq_zero fun x hx => ?_
    obtain ⟨e, he, rfl⟩ := List.mem_map.1 hx
    have hempty := hidle.2 e.1 (List.mem_map_of_mem he)
    simp only [Bool.and_eq_true, List.isEmpty_iff] at hempty
    simp [InternalStepWorkerState.workIn, hempty]
  have hpending : ∀ s, pendingIn cfg L.tickBuffer s = 0 := by
    refine fun s => List.sum_eq_zero fun x hx => ?_
    obtain ⟨t, ht, rfl⟩ := List.mem_map.1 hx
    rw [hbuffer t ht]
    rfl
  have hkeys := streams_of_quiet h hwork (by simpa using hpending)
  have hstreams : L.state.streams.entries = [] := List.map_eq_nil_iff.1 hkeys
  have hreleases : L.state.collectionReleaseStates.entries = [] := by
    refine List.eq_nil_iff_forall_not_mem.2 ?_
    rintro ⟨⟨s, id⟩, r⟩ hr
    obtain ⟨st, hst, -⟩ := h.accounts.scopes.release s id r ((Dict.get?_eq_some_iff _ _ _).2 hr)
    simpa [hstreams] using (Dict.get?_eq_some_iff _ _ _).1 hst
  refine ⟨hkeys, ?_⟩
  simp [detectStuckStreams, orphanedRelease, Dict.values, hstreams, hreleases]

open FanOutJoin FailedMember in
/-- The stream of a fan-out is closed once its member and its collect step are done. -/
theorem idle_run_has_no_open_stream_collected : ∃ L : Loop, L.state.streamSeq = 1 ∧ L.state.streams.keys = [] := by
  obtain ⟨L, hrun, hout, hidle, hbuffer, hseq⟩ := Lib.Run.exists_of_exec (Loop.step (workflow .all).config none)
    (fun _ a => a.isPlain) (Loop.start (workflow .all).config {} (some ⟨.startEvent, []⟩) 0)
    (opening ++ [.finish 0 (.ret .none) 2, .drain 2, .finish 0 (.ret .none) 3, .drain 3])
    (fun L => L.outcome = none ∧ checkIdleState (workflow .all).config L.state ∧ L.tickBuffer = [.idleCheck] ∧
      L.state.streamSeq = 1) (by decide +kernel)
  exact ⟨L, hseq, (idle_run_has_no_open_stream (workflow .all).config none BrokerState.isFresh_empty ⟨.startEvent, []⟩ 0 hrun hout hidle
    (by simp [hbuffer])).1⟩

end LlamaAgents
