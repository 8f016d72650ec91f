import LlamaAgents.Operator.Cluster

/-!
# Paused Deployments

The remediation of a failed rollout pauses the Kubernetes Deployment, and the Deployment of a later generation is unpaused when it is
applied. Which generation has failed is read from the status, where builds are recorded as well. Whether the Deployment is paused is
read too, and a reading that fails is taken for one of a Deployment that is not. This module follows one resource and the Deployment
that belongs to it, with the generations that the Deployment was applied for.
-/

namespace LlamaAgents

open Lib (Dict)

/-- A resource with its Jobs, its reconcile that is under way, and the generation whose failed rollout has paused the Deployment, if it
is paused. The generations that the Deployment was applied for are kept beside, each with the pause that there was afterwards. -/
structure PauseWorld where
  resource : Managed
  underway : Option Underway := none
  pausedBy : Option Nat := none
  applied : List (Nat × Option Nat) := []

/-- What can happen. -/
inductive PauseAction where
  | change (spec : DeploymentSpec)
  | delete
  /-- A Job of the resource reports. -/
  | report (job : String) (state : JobState)
  /-- A Job of the resource is gone. -/
  | reap (job : String)
  /-- The first part of a reconcile, of which at most so many calls are made. -/
  | begin (gated : Bool) (obs : Observation) (calls : Nat)
  /-- The second part. -/
  | finish (obs : Observation) (calls : Nat)

namespace PauseWorld

variable (r : Reconciler) (name : String) (W : PauseWorld)

/-- A new resource. -/
def new (spec : DeploymentSpec) : PauseWorld := { resource := { object := { spec := spec } } }

/-- The resource itself. -/
def object : LlamaDeployment := W.resource.object

/-- The state after a call of a reconcile for a generation, where the resources that have failed are those of `rolledOut`. -/
def perform (generation rolledOut : Nat) (W : PauseWorld) (c : ApiCall) : PauseWorld :=
  let W := { W with resource := W.resource.perform c }
  match c with
  | .deployment _ unpause _ =>
    let pausedBy := if unpause then none else W.pausedBy
    { W with pausedBy := pausedBy, applied := W.applied ++ [(generation, pausedBy)] }
  | .scaleDownReplicaSet => { W with pausedBy := W.pausedBy.or (some rolledOut) }
  | .teardown => { W with pausedBy := none }
  | _ => W

/-- The calls of the second part of a reconcile. -/
def finishing (obs : Observation) (u : Underway) : List ApiCall := Cluster.finishing r obs u W.resource

/-- The state after an action, if it is possible. -/
def step (W : PauseWorld) : PauseAction → Option PauseWorld
  | .change spec =>
    let object := { W.object with spec := spec, generation := W.object.generation + 1 }
    some { W with resource := { W.resource with object := object } }
  | .delete =>
    let object := { W.object with deleting := true, generation := W.object.generation + 1 }
    some { W with resource := { W.resource with object := object } }
  | .report job state =>
    if W.resource.jobs.contains job then
      some { W with resource := { W.resource with jobs := W.resource.jobs.set job state } }
    else none
  | .reap job => some { W with resource := { W.resource with jobs := W.resource.jobs.erase job } }
  | .begin gated obs n =>
    if W.underway.isSome || W.object.deleting then none
    else
      let generation := W.object.generation
      let first := r.reconcile name gated obs W.object W.resource.jobs
      let W := (first.calls.take n).foldl (perform generation generation) W
      some (if first.calls.length ≤ n then { W with underway := first.result } else W)
  | .finish obs n =>
    W.underway.map fun u =>
      ((W.finishing r obs u).take n).foldl (perform (u.current W.object).generation u.copy.generation) { W with underway := none }

/-- The Deployment was never applied for a generation after the one that has paused it, and left paused. -/
def RollsOut : Prop := ∀ generation cause, (generation, some cause) ∈ W.applied → generation ≤ cause

/-- Whether the second part of a reconcile finds that the rollout has failed. -/
def findsFailure (obs : Observation) (u : Underway) : Bool :=
  (match u.remaining with
    | .rollout _ => true
    | _ => false) &&
  (r.assessDeploymentHealth obs (u.current W.object)).phase.isFailedPhase

/-- Whether an action leaves the marker of the failed rollout with the pause: while the Deployment is paused, a reconcile of another
generation than the marked one reads that it is, and finds no failed Job for its build; and a reconcile that finds the rollout failed
makes all its calls, and is still about the generation that it has applied. -/
def keepsCause : PauseAction → Bool
  | .begin _ obs _ =>
    W.pausedBy.isNone || W.object.status.failedRolloutGeneration = W.object.generation ||
      (obs.paused && W.resource.jobs.get? (buildJobName name (r.computeBuildId name W.object.spec)) ≠ some .failed)
  | .finish obs n =>
    W.underway.all fun u =>
      !W.findsFailure r obs u || ((W.finishing r obs u).length ≤ n && u.copy.generation = W.object.generation)
  | _ => true

end PauseWorld

end LlamaAgents
