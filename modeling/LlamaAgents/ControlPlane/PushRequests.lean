import LlamaAgents.ControlPlane.Source

/-!
# Push requests at the same time

`handle_git_request` downloads the whole repository, serves the request on its own copy, and uploads the copy when a ref has changed.
The callback then reads the deployment and may update it, before the request is answered. Requests take these steps in any order
among each other.
-/

namespace LlamaAgents

/-- What a request does to its copy of the repository: the contents before, and those that it would upload. -/
structure ServedPush where
  before : Repository
  after : Repository

namespace ServedPush

variable (push : ServedPush)

/-- Whether the request has changed a ref. -/
def changes (ref : String) : Bool := push.before.refs.get? ref ≠ push.after.refs.get? ref

/-- The ref that the callback is told of. -/
def changedRef : Option (String × String) := SourceWorld.changedRef push.before push.after

/-- Whether the copy is uploaded. -/
def hasChanged : Bool := SourceWorld.hasChanged push.before push.after

end ServedPush

/-- How far a request has come. Beside its copy it keeps how many uploads there had been when it downloaded, and the number of its own
upload. -/
inductive PushProgress where
  | waiting
  | downloaded (version : Nat) (before : Repository)
  | served (version : Nat) (push : ServedPush)
  | uploaded (number : Nat) (push : ServedPush)
  /-- The callback has read the deployment and is going to update it. -/
  | notifying (number : Nat) (push : ServedPush)
  | notified (number : Nat) (push : ServedPush)
  | answered (number : Nat) (push : ServedPush)
  /-- The request is answered and has changed nothing. -/
  | unchanged
  | failed

namespace PushProgress

/-- The upload of a request that has made one and has not failed since. -/
def published? : PushProgress → Option (Nat × ServedPush)
  | uploaded number push | notifying number push | notified number push | answered number push => some (number, push)
  | _ => none

/-- Whether the request is over. -/
def isFinished : PushProgress → Bool
  | answered _ _ | unchanged | failed => true
  | _ => false

end PushProgress

/-- The stored repository, the deployment and the requests. The number of uploads, and whether the commit of the deployment was set by a
push, are kept beside. -/
structure PushWorld where
  stored : Option Repository := none
  spec : LlamaDeploymentSpec
  requests : List PushProgress := []
  uploads : Nat := 0
  pushed : Bool := false

/-- What can happen. -/
inductive PushAction where
  /-- A request comes in. -/
  | arrive
  | download (request : Nat)
  /-- The request is served on the copy, which then has some content. -/
  | serve (request : Nat) (after : Repository)
  | upload (request : Nat)
  /-- The callback reads the deployment. -/
  | inspect (request : Nat)
  /-- The callback updates the deployment. -/
  | patch (request : Nat)
  | answer (request : Nat)
  | fail (request : Nat)
  /-- The deployment is changed by others. Its commit is still that of a push when they leave it. -/
  | edit (spec : LlamaDeploymentSpec)

namespace PushWorld

variable (W : PushWorld)

/-- The content of the stored repository. -/
def content : Repository := W.stored.getD .bare

/-- A request comes further. -/
def moved (i : Nat) (p : PushProgress) : PushWorld := { W with requests := W.requests.set i p }

/-- The state after a step of a request. -/
def stepRequest (i : Nat) : PushProgress → PushAction → Option PushWorld
  | .waiting, .download _ => some (W.moved i (.downloaded W.uploads W.content))
  | .downloaded version before, .serve _ after => some (W.moved i (.served version ⟨before, after⟩))
  | .served _ push, .upload _ =>
    if push.hasChanged then
      some { W.moved i (.uploaded W.uploads push) with stored := some push.after, uploads := W.uploads + 1 }
    else none
  | .served _ push, .answer _ => if push.hasChanged then none else some (W.moved i .unchanged)
  | .uploaded number push, .inspect _ =>
    some (W.moved i (if push.changedRef.isSome && SourceWorld.isFirstPush W.spec then .notifying number push
      else .notified number push))
  | .notifying number push, .patch _ =>
    push.changedRef.map fun changed =>
      { W.moved i (.notified number push) with
        spec := applyDeploymentUpdate (SourceWorld.pushUpdate changed) W.spec
        pushed := true }
  | .notified number push, .answer _ => some (W.moved i (.answered number push))
  | p, .fail _ => if p.isFinished then none else some (W.moved i .failed)
  | _, _ => none

/-- The state after an action, if it is possible. -/
def step (W : PushWorld) (a : PushAction) : Option PushWorld :=
  match a with
  | .arrive =>
    if W.spec.repoUrl = "" || W.spec.repoUrl = internalCodeRepoScheme then some { W with requests := W.requests ++ [.waiting] }
    else none
  | .edit spec => some { W with spec := spec, pushed := W.pushed && spec.gitSha = W.spec.gitSha }
  | .download i | .serve i _ | .upload i | .inspect i | .patch i | .answer i | .fail i =>
    W.requests[i]?.bind fun p => W.stepRequest i p a

/-- A ref that a request has changed and that was answered is stored, or a later push has changed it, which is answered or has only to
be. -/
def IsKept : Prop :=
  ∀ (i number : Nat) (push : ServedPush) (ref : String), W.requests[i]? = some (.answered number push) → push.changes ref = true →
    W.content.refs.get? ref = push.after.refs.get? ref ∨
    ∃ (j : Nat) (p : PushProgress) (laterNumber : Nat) (later : ServedPush), W.requests[j]? = some p ∧
      p.published? = some (laterNumber, later) ∧ number < laterNumber ∧ later.changes ref = true

/-- A commit that was set by a push is stored. -/
def IsPinned : Prop := W.pushed = true → ∃ sha, W.spec.gitSha = some sha ∧ sha ∈ W.content.commits

/-- Whether an action keeps pushes: a push brings a commit and takes none away, it is uploaded only over what was downloaded, and no
request fails once it has uploaded. -/
def keepsPushes : PushAction → Bool
  | .serve i after => match W.requests[i]? with
    | some (.downloaded _ before) =>
      (before.commits.all fun commit => after.commits.contains commit) &&
        (SourceWorld.changedRef before after).all fun e => after.commits.contains e.2
    | _ => true
  | .upload i => match W.requests[i]? with
    | some (.served version _) => version = W.uploads
    | _ => true
  | .fail i => W.requests[i]?.all fun p => p.published?.isNone
  | _ => true

end PushWorld

end LlamaAgents
