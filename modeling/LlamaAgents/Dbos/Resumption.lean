import LlamaAgents.Events

/-!
# Who resumes a run

`journal/lifecycle.py`: the row that coordinates release and resume of a run across replicas. Each operation is one statement or
transaction of the database, and reads the clock of its replica. The two implementations of the lock do the same to the row.

The callers of `send_event` that resume a released run, on any replica (`_do_resume` in `idle_release.py`). A caller claims the
resume, refreshes its claim before and after it has rebuilt the state, purges the old workflow, starts the new one, and completes
the resume. Nothing but the operations on the lifecycle row is atomic: other callers, the release of the run and its loop come in
between, and a caller may stop anywhere.
-/

namespace LlamaAgents

/-- `RunLifecycleState`. -/
inductive RunLifecycleState where
  | active
  | releasing
  | released
  | resuming
deriving DecidableEq, Repr

/-- `ResumeClaim`. -/
structure ResumeClaim where
  version : Time
  previousState : RunLifecycleState
deriving DecidableEq, Repr

/-- The row of a run in the lifecycle table. -/
structure LifecycleRow where
  state : RunLifecycleState
  updatedAt : Time
deriving DecidableEq, Repr

/-- What `try_begin_resume` returns: nothing, so that the caller sends normally; a claim; or the state that the caller has to wait
for. -/
inductive ResumeAnswer where
  | send
  | claim (claim : ResumeClaim)
  | wait (state : RunLifecycleState)
deriving DecidableEq, Repr

/-- `CRASH_TIMEOUT_SECONDS`. -/
def crashTimeoutSeconds : Time := 120

namespace LifecycleRow

/-- An update of the row that meets a condition. There is no new row when none meets it. -/
def update (expected : LifecycleRow → Bool) (state : RunLifecycleState) (now : Time) (row : Option LifecycleRow) :
    Option LifecycleRow :=
  if row.any expected then some ⟨state, now⟩ else none

/-- `create`. A row that is there is replaced. -/
def create (now : Time) : LifecycleRow := ⟨.active, now⟩

/-- `begin_release`. -/
def beginRelease : Time → Option LifecycleRow → Option LifecycleRow := update (fun row => row.state = .active) .releasing

/-- `complete_release`. -/
def completeRelease : Time → Option LifecycleRow → Option LifecycleRow := update (fun row => row.state = .releasing) .released

/-- Whether the row is that of the resume with this version. -/
def ownedBy (version : Time) (row : LifecycleRow) : Bool := row.state = .resuming && row.updatedAt = version

/-- `refresh_resume_owner`. -/
def refreshResumeOwner (version : Time) : Time → Option LifecycleRow → Option LifecycleRow :=
  update (ownedBy version) .resuming

/-- `complete_resume`. -/
def completeResume (version : Time) : Time → Option LifecycleRow → Option LifecycleRow := update (ownedBy version) .active

/-- Whether a resume can be claimed: the run is released, or a release or a resume was begun too long ago. -/
def isClaimable (crashTimeout : Option Time) (readAt : Time) (row : LifecycleRow) : Bool :=
  match row.state with
  | .active => false
  | .released => true
  | .releasing | .resuming => crashTimeout.any fun t => t < readAt - row.updatedAt

/-- `try_begin_resume`, with the new row. The clock is read for the age of the row and again for the claim. -/
def tryBeginResume (crashTimeout : Option Time) (readAt now : Time) (row : Option LifecycleRow) :
    ResumeAnswer × Option LifecycleRow :=
  match row with
  | none => (.send, none)
  | some r =>
    if r.state = .active then (.send, some r)
    else if r.isClaimable crashTimeout readAt then (.claim ⟨now, r.state⟩, some ⟨.resuming, now⟩)
    else (.wait r.state, some r)

end LifecycleRow

/-! ## The callers -/

/-- Where a caller is in `_do_resume`, with its claim. -/
inductive ResumePhase where
  | idle
  | claimed (claim : ResumeClaim)
  | refreshed (claim : ResumeClaim)
  | fenced (claim : ResumeClaim)
  | purged (claim : ResumeClaim)
  | started (claim : ResumeClaim)
deriving DecidableEq, Repr

namespace ResumePhase

/-- The claim of a caller. -/
def claim? : ResumePhase → Option ResumeClaim
  | idle => none
  | claimed c | refreshed c | fenced c | purged c | started c => some c

/-- Whether a caller has refreshed its claim for the last time and has not started the new workflow. -/
def isFenced : ResumePhase → Bool
  | fenced _ | purged _ => true
  | _ => false

/-- Whether a caller has started the new workflow and has not completed the resume. -/
def isStarted : ResumePhase → Bool
  | started _ => true
  | _ => false

end ResumePhase

/-- The lifecycle row of a run and its callers. Beside them are kept the times that were written to the row, the caller that made
the latest claim, and how many loops were started since the run was last released. -/
structure Resumption (ρ : Type) where
  row : Option LifecycleRow := none
  phase : ρ → ResumePhase := fun _ => .idle
  stamps : List Time := []
  latest : Option ρ := none
  starts : Nat := 0

/-- What happens to them: the loop of the run publishes that it is idle, its release begins and completes, and a caller does the
next thing. -/
inductive ResumptionAction (ρ : Type) where
  | create (now : Time)
  | beginRelease (now : Time)
  | completeRelease (now : Time)
  | tryBeginResume (caller : ρ) (readAt now : Time)
  | refreshResumeOwner (caller : ρ) (now : Time)
  | purge (caller : ρ)
  | runWorkflow (caller : ρ)
  | completeResume (caller : ρ) (now : Time)

namespace Resumption

variable {ρ : Type} [DecidableEq ρ]

/-- A caller goes on. -/
def setPhase (F : Resumption ρ) (r : ρ) (p : ResumePhase) : Resumption ρ := { F with phase := Function.update F.phase r p }

/-- The row is written. -/
def write (F : Resumption ρ) (row : LifecycleRow) : Resumption ρ :=
  { F with row := some row, stamps := row.updatedAt :: F.stamps }

/-- A caller's claim is made. -/
def claims (F : Resumption ρ) (r : ρ) (c : ResumeClaim) (row : LifecycleRow) : Resumption ρ :=
  { (F.write row).setPhase r (.claimed c) with latest := some r }

/-- `refresh_resume_owner`, and what the caller does with the result. -/
def refresh (F : Resumption ρ) (r : ρ) (c : ResumeClaim) (next : ResumeClaim → ResumePhase) (now : Time) : Resumption ρ :=
  match LifecycleRow.refreshResumeOwner c.version now F.row with
  | none => F.setPhase r .idle
  | some row => (F.write row).setPhase r (next ⟨row.updatedAt, .resuming⟩)

/-- The effect of an action, if it can happen. A caller without a claim, or whose claim is gone, calls `try_begin_resume`. -/
def step (F : Resumption ρ) : ResumptionAction ρ → Option (Resumption ρ)
  | .create now => some (F.write (LifecycleRow.create now))
  | .beginRelease now => some <| match LifecycleRow.beginRelease now F.row with
    | none => F
    | some row => { F.write row with starts := 0 }
  | .completeRelease now => some <| match LifecycleRow.completeRelease now F.row with
    | none => F
    | some row => F.write row
  | .tryBeginResume r readAt now => match F.phase r with
    | .idle => match LifecycleRow.tryBeginResume (some crashTimeoutSeconds) readAt now F.row with
      | (.claim c, some row) => some (F.claims r c row)
      | _ => some F
    | _ => none
  | .refreshResumeOwner r now => match F.phase r with
    | .claimed c => some (F.refresh r c .refreshed now)
    | .refreshed c => some (F.refresh r c .fenced now)
    | _ => none
  | .purge r => match F.phase r with
    | .fenced c => some (F.setPhase r (.purged c))
    | _ => none
  | .runWorkflow r => match F.phase r with
    | .purged c => some { F.setPhase r (.started c) with starts := F.starts + 1 }
    | _ => none
  | .completeResume r now => match F.phase r with
    | .started c => match LifecycleRow.completeResume c.version now F.row with
      | none => some (F.setPhase r .idle)
      | some row => some ((F.write row).setPhase r .idle)
    | _ => none

end Resumption

/-- The time that an action may write to the row. -/
def ResumptionAction.stamp? {ρ : Type} : ResumptionAction ρ → Option Time
  | .create now | .beginRelease now | .completeRelease now | .tryBeginResume _ _ now | .refreshResumeOwner _ now
  | .completeResume _ now => some now
  | .purge _ | .runWorkflow _ => none

namespace Resumption

variable {ρ : Type}

/-- Whether an action writes a time that was not written before. -/
def isDistinct (F : Resumption ρ) (a : ResumptionAction ρ) : Bool := a.stamp?.all fun now => now ∉ F.stamps

/-- Whether a resume under way can be claimed by another caller. -/
def takesOver (F : Resumption ρ) (readAt : Time) : Bool :=
  F.row.any fun row => decide (row.state = .resuming) && row.isClaimable (some crashTimeoutSeconds) readAt

/-- Whether an action leaves alone a caller that has refreshed its claim for the last time: the row is not created anew before the
caller has started the new workflow, and the resume is not taken over before it has completed. -/
def isUndisturbed (F : Resumption ρ) : ResumptionAction ρ → Bool
  | .create _ => F.latest.all fun r => !(F.phase r).isFenced
  | .tryBeginResume _ readAt _ =>
    !F.takesOver readAt || F.latest.all fun r => !(F.phase r).isFenced && !(F.phase r).isStarted
  | _ => true

end Resumption

end LlamaAgents
