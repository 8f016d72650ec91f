import LlamaAgents.Operator.Cluster

/-!
# The build Jobs of a namespace

Jobs share one namespace, whatever resource they were created for, and a reconcile finds the Job of a build by its name alone. This
module runs reconciles over the Jobs of all resources, and keeps for which resource and build the Job of each name was created.
Whether the capacity gates turn a reconcile away is left open.
-/

namespace LlamaAgents

open Lib (Dict)

/-- The resources and the Jobs by name, the reconcile that is under way, and the build that the last Job of each name was created
for. The builds that specs ask for, and those of which a Job has succeeded, are kept beside. -/
structure JobWorld where
  deployments : Dict String LlamaDeployment := ∅
  jobs : Dict String JobState := ∅
  underway : Option (String × Underway) := none
  createdFor : Dict String (String × String) := ∅
  asked : List (String × String) := []
  succeeded : List (String × String) := []

/-- What can happen. -/
inductive JobAction where
  | create (name : String) (spec : DeploymentSpec)
  | change (name : String) (spec : DeploymentSpec)
  | delete (name : String)
  /-- A Job reports. -/
  | report (job : String) (state : JobState)
  /-- A Job is gone: its time is up, or its owner is. -/
  | reap (job : String)
  /-- The first part of a reconcile, of which at most so many calls are made. -/
  | begin (name : String) (gated : Bool) (obs : Observation) (calls : Nat)
  /-- The second part. -/
  | finish (obs : Observation) (calls : Nat)

namespace JobWorld

variable (r : Reconciler) (W : JobWorld)

/-- A resource with a spec, which asks for a build. -/
def put (name : String) (ld : LlamaDeployment) : JobWorld :=
  { W with
    deployments := W.deployments.set name ld
    asked := W.asked ++ [(name, r.computeBuildId name ld.spec)] }

/-- The state after a call of the reconcile of a resource. -/
def perform (name : String) (W : JobWorld) (c : ApiCall) : JobWorld :=
  match W.deployments.get? name with
  | none => W
  | some ld =>
    match c with
    | .migrate => { W with deployments := W.deployments.set name ld.migrated }
    | .status s _ => { W with deployments := W.deployments.set name { ld with status := s } }
    | .createJob job =>
      { W with
        jobs := W.jobs.set job .active
        createdFor := W.createdFor.set job (name, r.computeBuildId name ld.spec) }
    | .deleteJob job => { W with jobs := W.jobs.erase job }
    | .teardown | .deployment _ _ _ | .scaleDownReplicaSet => W

/-- The state after an action, if it is possible. -/
def step (W : JobWorld) : JobAction → Option JobWorld
  | .create name spec => if W.deployments.contains name then none else some (W.put r name { spec := spec })
  | .change name spec =>
    (W.deployments.get? name).map fun ld => W.put r name { ld with spec := spec, generation := ld.generation + 1 }
  | .delete name =>
    (W.deployments.get? name).map fun ld => W.put r name { ld with deleting := true, generation := ld.generation + 1 }
  | .report job state =>
    if W.jobs.contains job then
      some { W with
        jobs := W.jobs.set job state
        succeeded := if state = .succeeded then W.succeeded ++ (W.createdFor.get? job).toList else W.succeeded }
    else none
  | .reap job => some { W with jobs := W.jobs.erase job }
  | .begin name gated obs calls =>
    if W.underway.isSome then none
    else
      (W.deployments.get? name).map fun ld =>
        if ld.deleting then if calls = 0 then W else { W with deployments := W.deployments.erase name }
        else
          let first := r.reconcile name gated obs ld W.jobs
          let W := (first.calls.take calls).foldl (perform r name) W
          if first.calls.length ≤ calls then { W with underway := first.result.map fun u => (name, u) } else W
  | .finish obs calls =>
    W.underway.map fun (name, u) =>
      let W : JobWorld := { W with underway := none }
      match W.deployments.get? name with
      | none => W
      | some ld => ((Cluster.finishing r obs u { object := ld }).take calls).foldl (perform r name) W

/-- A build is recorded as done only after a Job that was created for the resource and the build has succeeded. -/
def AcceptsOwnJobs : Prop :=
  ∀ name ld, W.deployments.get? name = some ld → ld.status.buildStatus = .succeeded → (name, ld.status.buildId) ∈ W.succeeded

/-- Whether the Job of a build has another name than the Jobs of all other builds that were asked for. -/
def namesJobApart (name : String) (spec : DeploymentSpec) : Bool :=
  let buildId := r.computeBuildId name spec
  W.asked.all fun b => b = (name, buildId) || buildJobName b.1 b.2 ≠ buildJobName name buildId

/-- Whether an action keeps the Jobs of builds apart. -/
def keepsJobsApart : JobAction → Bool
  | .create name spec | .change name spec => W.namesJobApart r name spec
  | _ => true

end JobWorld

end LlamaAgents
