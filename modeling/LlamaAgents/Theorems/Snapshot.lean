import LlamaAgents.Workflow
import LlamaAgents.Lemmas.Workload

/-!
# A snapshot keeps the workload

What a run has still to do is the same after its context was serialized, restored and rewound. The one thing that changes is
when an item was first attempted: an item that was queued and that no worker had been free for has not been attempted yet, and
the rewind may be the first to dispatch it. A run can be restored when the classes that its waiters await can be imported.
-/

namespace LlamaAgents

open WorkloadAux

/-- The state that is restored from a snapshot and rewound has the workload of the run that the snapshot was taken of exactly when
the awaited classes can be imported, and rewinding a state a second time leaves its queues as they are and the same work in
progress. -/
theorem snapshot_keeps_workload (cfg : BrokerConfig) (runId : Option String) (raises : PolicyErrors) (imports : ClassImport)
    (start : Option Event) (began : Time) {L : Loop}
    (hrun : Lib.Run (Loop.stepSnapshots cfg runId raises) (fun L a => L.importsAwaited imports cfg a)
      (Loop.start cfg {} start began) L) (now : Time) :
    ((∃ σ, L.state.restored imports cfg now = some σ ∧ (∀ n ∈ cfg.steps.keys, WorkloadKept now (L.state.workers n) (σ.workers n)) ∧
      StreamsKept L.state σ) ↔ L.state.importsAwaited imports cfg) ∧
    ∀ (σ : BrokerState) (now' : Time),
      (∀ n ∈ cfg.steps.keys, RewoundAgain now' ((rewindInProgress cfg now σ).1.workers n)
        ((rewindInProgress cfg now' (rewindInProgress cfg now σ).1).1.workers n)) ∧
      StreamsKept (rewindInProgress cfg now σ).1 (rewindInProgress cfg now' (rewindInProgress cfg now σ).1).1 := by
  have htriggered : L.state.Holds triggered := HoldsAux.run_holds (triggered_passed cfg) hrun
  refine ⟨⟨?_, fun himports => ?_⟩, ?_⟩
  · rintro ⟨σ, hσ, hkept, -⟩
    exact importsAwaited_of_restored hσ hkept
  · refine ⟨_, by rw [BrokerState.restored, fromSerialized?_of_importsAwaited himports, Option.map_some], ?_, ?_⟩
    · exact fun n hn => restored_kept htriggered hn
    · obtain ⟨h₁, h₂, h₃, h₄⟩ := rewindInProgress_streams now cfg (BrokerState.fromSerialized cfg L.state.toSerialized)
      exact ⟨h₁, h₂, h₃, h₄⟩
  · intro σ now'
    exact ⟨fun n hn => rewindInProgress_again σ hn, rewindInProgress_streams now' cfg _⟩

namespace OneWorker

/-- A workflow of one step with one worker. -/
def workflow : Workflow where
  name := "OneWorker"
  steps := ⟨[("work", plainStep [.startEvent] [.stopEvent] ⟨1, Nat.one_pos⟩ none)], by simp⟩

/-- The event that the step takes. -/
def item : Event := ⟨.startEvent, []⟩

/-- The worker is busy with one event when another one arrives. -/
def twoEvents : List SnapshotAction :=
  [.loop (.loop (.drain 1)), .loop (.loop (.send (.addEvent item none ∅))), .loop (.loop .pull), .loop (.loop (.drain 2))]

/-- Whether the snapshot that is restored at a time has other unfinished items. -/
def changes (now : Time) (L : Loop) : Bool :=
  (L.state.restored some workflow.config now).any fun σ => decide ((σ.workers "work").items ≠ (L.state.workers "work").items)

/-- A class that is defined in a function. -/
def inner : EventType := ⟨"Answer", "app.main.<locals>.Answer", ["workflows.events.Event"]⟩

/-- The step waits for an event of that class. -/
def waits : List SnapshotAction :=
  [.loop (.loop (.drain 1)), .loop (.taskEnd 0 (.program (.waitForEvent { eventType := inner } fun _ => .ret .none)) 2 2),
    .loop (.loop (.drain 3))]

/-- Imports that find every class but that one. -/
def imports : ClassImport := fun t => if t = inner then none else some t

/-- A run of the workflow in which nothing is restored. -/
def Reaches (L : Loop) : Prop :=
  Lib.Run (Loop.stepSnapshots workflow.config none fun _ _ _ _ => none) (fun L a => L.importsAwaited some workflow.config a)
    (Loop.start workflow.config {} (some item) 1) L

/-- The run of the two events, and that its snapshot changes. -/
theorem exists_changed : ∃ L : Loop, Reaches L ∧ changes 9 L = true ∧ L.state.importsAwaited some workflow.config :=
  Lib.Run.exists_of_exec (Loop.stepSnapshots workflow.config none fun _ _ _ _ => none)
    (fun L a => L.importsAwaited some workflow.config a) _ twoEvents _ (by decide +kernel)

end OneWorker

/-- The time of the first attempt is not kept: the rewind dispatches the event that was queued, for the first time. A run that
waits for an event of a local class cannot be restored. -/
theorem snapshot_keeps_workload_false : (∃ L σ, OneWorker.Reaches L ∧
      L.state.restored some OneWorker.workflow.config 9 = some σ ∧ (σ.workers "work").items ≠ (L.state.workers "work").items) ∧
    ∃ L, OneWorker.Reaches L ∧ L.state.restored OneWorker.imports OneWorker.workflow.config 9 = none := by
  refine ⟨?_, ?_⟩
  · obtain ⟨L, hrun, hL, -⟩ := OneWorker.exists_changed
    obtain ⟨σ, hσ, hne⟩ := (Option.any_eq_true _ _).1 hL
    exact ⟨L, σ, hrun, hσ, of_decide_eq_true hne⟩
  · obtain ⟨L, hrun, hL⟩ := Lib.Run.exists_of_exec (Loop.stepSnapshots OneWorker.workflow.config none fun _ _ _ _ => none)
      (fun L a => L.importsAwaited some OneWorker.workflow.config a)
      (Loop.start OneWorker.workflow.config {} (some OneWorker.item) 1) OneWorker.waits
      (fun L => (L.state.restored OneWorker.imports OneWorker.workflow.config 9).isNone) (by decide +kernel)
    exact ⟨L, hrun, Option.isNone_iff_eq_none.1 hL⟩

/-- The run of the counterexample keeps everything else. -/
theorem snapshot_keeps_workload_queued : ∃ (L : Loop) (σ : BrokerState), OneWorker.changes 9 L = true ∧
    WorkloadKept 9 (L.state.workers "work") (σ.workers "work") := by
  obtain ⟨L, hrun, hL, himports⟩ := OneWorker.exists_changed
  obtain ⟨σ, -, hkept, -⟩ := (snapshot_keeps_workload _ none _ some _ _ hrun 9).1.2 himports
  exact ⟨L, σ, hL, hkept "work" (by decide)⟩

end LlamaAgents
