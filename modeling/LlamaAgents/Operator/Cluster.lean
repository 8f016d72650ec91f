import LlamaAgents.Lib.Run
import LlamaAgents.Operator.Reconcile

/-!
# A namespace of LlamaDeployments

The resources of a namespace with their build Jobs, and the one worker that reconciles them. Users create, change and delete
resources at any time, Jobs report and are reaped at any time, and the worker takes the first and the second part of a reconcile in
turn. `checkCapacityGates` looks at the other resources of the namespace.
-/

namespace LlamaAgents

open Lib (Dict)

/-- A resource with its build Jobs. What was decided about the failures of its generations is kept beside. -/
structure Managed where
  object : LlamaDeployment
  jobs : Dict String JobState := ∅
  notes : List FailureNote := []

namespace Managed

variable (m : Managed)

/-- The resource after a call of its reconcile. -/
def perform : ApiCall → Managed
  | .migrate => { m with object := m.object.migrated }
  | .status s note => { m with object := { m.object with status := s }, notes := m.notes ++ note.toList }
  | .createJob name => { m with jobs := m.jobs.set name .active }
  | .deleteJob name => { m with jobs := m.jobs.erase name }
  | .teardown | .deployment _ _ _ | .scaleDownReplicaSet => m

/-- The resource after some calls. -/
def performAll (calls : List ApiCall) : Managed := calls.foldl perform m

/-- Whether the resource takes a slot of the concurrent rollouts. -/
def isRolling : Bool := !m.object.spec.suspended && m.object.status.phase.isRollingPhase

/-- Whether the resource counts toward the limit of deployments. -/
def isActive : Bool := m.object.status.phase.isActivePhase

/-- Whether the build of a generation was declared failed, or its rollout has failed and was remediated. -/
def hasFailed (generation : Nat) : Bool :=
  m.notes.contains (.buildFailed generation) || m.notes.contains (.rolloutRemediated generation)

end Managed

/-- The resources by name, and the reconcile that is under way. -/
structure Cluster where
  deployments : Dict String Managed := ∅
  underway : Option (String × Underway) := none

/-- What can happen. -/
inductive ClusterAction where
  | create (name : String) (spec : DeploymentSpec)
  | change (name : String) (spec : DeploymentSpec)
  /-- A deletion is asked for; the worker then takes the finalizer away. -/
  | delete (name : String)
  /-- A Job of a resource reports. -/
  | report (name job : String) (state : JobState)
  /-- A Job of a resource is gone. -/
  | reap (name job : String)
  /-- The first part of a reconcile, of which at most so many calls are made. -/
  | begin (name : String) (obs : Observation) (calls : Nat)
  /-- The second part. -/
  | finish (obs : Observation) (calls : Nat)

namespace Cluster

variable (r : Reconciler) (C : Cluster)

/-- The other resources of the namespace. -/
def others (name : String) : List Managed := C.deployments.valuesExcept name

/-- `checkRolloutCapacity`. -/
def checkRolloutCapacity (name : String) : Bool :=
  0 < r.maxConcurrentRollouts && r.maxConcurrentRollouts ≤ (C.others name).countP Managed.isRolling

/-- `checkDeploymentCapacity`. -/
def checkDeploymentCapacity (name : String) : Bool :=
  0 < r.maxDeployments && r.maxDeployments ≤ (C.others name).countP Managed.isActive

/-- `checkCapacityGates`: whether the reconcile is turned away. -/
def checkCapacityGates (name : String) (ld : LlamaDeployment) : Bool :=
  ld.needsFullReconciliation && !ld.spec.suspended && ld.status.phase ≠ .awaitingCode &&
    (C.checkDeploymentCapacity r name || C.checkRolloutCapacity r name)

/-- The first part of the reconcile of a resource. -/
def beginning (name : String) (obs : Observation) (m : Managed) : Lib.Script ApiCall Underway :=
  r.reconcile name (C.checkCapacityGates r name m.object) obs m.object m.jobs

/-- Put a resource in its place. -/
def put (name : String) (m : Managed) : Cluster := { C with deployments := C.deployments.set name m }

/-- The calls of the second part. When it goes on with its copy, an update of the status is refused once the spec has changed. -/
def finishing (obs : Observation) (u : Underway) (m : Managed) : List ApiCall :=
  let calls := (r.resume obs u m.object).calls
  let isFresh := u.full || u.remaining = .migrated || u.copy.generation = m.object.generation
  if isFresh then calls
  else calls.takeWhile fun
    | .status _ _ => false
    | _ => true

/-- The state after an action, if it is possible. -/
def step (C : Cluster) : ClusterAction → Option Cluster
  | .create name spec => if C.deployments.contains name then none else some (C.put name { object := { spec := spec } })
  | .change name spec =>
    (C.deployments.get? name).map fun m =>
      C.put name { m with object := { m.object with spec := spec, generation := m.object.generation + 1 } }
  | .delete name =>
    (C.deployments.get? name).map fun m =>
      C.put name { m with object := { m.object with deleting := true, generation := m.object.generation + 1 } }
  | .report name job state =>
    (C.deployments.get? name).bind fun m =>
      if m.jobs.contains job then some (C.put name { m with jobs := m.jobs.set job state }) else none
  | .reap name job => (C.deployments.get? name).map fun m => C.put name { m with jobs := m.jobs.erase job }
  | .begin name obs calls =>
    if C.underway.isSome then none
    else
      (C.deployments.get? name).map fun m =>
        if m.object.deleting then
          -- `handleDeletion`: without its finalizer the resource goes.
          if calls = 0 then C else { C with deployments := C.deployments.erase name }
        else
          let first := C.beginning r name obs m
          let C := C.put name (m.performAll (first.calls.take calls))
          if first.calls.length ≤ calls then { C with underway := first.result.map fun u => (name, u) } else C
  | .finish obs calls =>
    C.underway.map fun (name, u) =>
      let C : Cluster := { C with underway := none }
      match C.deployments.get? name with
      | none => C
      | some m => C.put name (m.performAll ((finishing r obs u m).take calls))

end Cluster

/-! ## Slots and gates -/

/-- Whether a resource is active, or builds what will be. -/
def Managed.isOccupying (m : Managed) : Bool := m.isActive || m.object.status.phase = .building

/-- Whether a reconcile starts something new: the resource is new, or has a build to start or to await. -/
def Managed.starts (r : Reconciler) (name : String) (m : Managed) : Bool :=
  m.object.status.phase = .unset || (r.needsBuild name m.object m.jobs && !m.object.isAlreadyFailed)

/-- Whether the capacity gates are asked about a resource that is not suspended. -/
def Managed.isBehindGates (m : Managed) : Bool :=
  m.object.needsFullReconciliation && m.object.status.phase ≠ .awaitingCode

/-- Whether a Secret is named and not found. -/
def Managed.missesSecret (obs : Observation) (m : Managed) : Bool :=
  m.object.spec.secretName ≠ "" && obs.secret matches .notFound

namespace Cluster

variable (r : Reconciler) (C : Cluster)

/-- How many resources take a slot of the concurrent rollouts. -/
def rolling : Nat := C.deployments.values.countP Managed.isRolling

/-- Whether the reconcile of a resource is turned away by a capacity gate. -/
def turnsAway (name : String) (m : Managed) : Bool :=
  !m.object.deleting && !m.object.needsMigration && C.checkCapacityGates r name m.object

/-- All slots are taken, and every resource that takes one is turned away. -/
def IsBlocked : Prop :=
  r.maxConcurrentRollouts ≤ C.rolling ∧
    ∀ name m, C.deployments.get? name = some m → m.isRolling = true → C.turnsAway r name m = true

/-- Whether the others leave a slot for a rollout. -/
def hasRolloutRoom (name : String) : Bool := (C.others name).countP Managed.isRolling < r.maxConcurrentRollouts

/-- Whether the others, those that still build included, leave room under the limit of deployments. -/
def hasDeploymentRoom (name : String) : Bool :=
  r.maxDeployments ≤ 0 || (C.others name).countP Managed.isOccupying < r.maxDeployments

/-- Whether the first part of a reconcile leaves room: one that is not behind the gates takes a new slot only when there is one, and
none starts what may become active without room for it. -/
def beginsWithRoom (name : String) (obs : Observation) (m : Managed) : Bool :=
  (m.object.spec.suspended || m.isRolling || m.isBehindGates || !m.starts r name || C.hasRolloutRoom r name) &&
    (m.isOccupying || !(m.starts r name || m.missesSecret obs) || C.hasDeploymentRoom r name)

/-- Whether the second part leaves room: the assessed phase takes a slot, or is active, only when there is room for it. -/
def finishesWithRoom (name : String) (obs : Observation) (u : Underway) (m : Managed) : Bool :=
  let phase := (r.assessDeploymentHealth obs (u.current m.object)).phase
  !(u.remaining matches .rollout _) ||
    (m.object.spec.suspended || m.isRolling || !phase.isRollingPhase || C.hasRolloutRoom r name) &&
      (m.isOccupying || !phase.isActivePhase || C.hasDeploymentRoom r name)

/-- Whether an action leaves room: besides the two parts of a reconcile, a resource in a rolling phase is unsuspended only when there
is a slot. -/
def keepsRoom : ClusterAction → Bool
  | .change name spec =>
    (C.deployments.get? name).all fun m =>
      spec.suspended || !m.object.status.phase.isRollingPhase || m.isRolling || C.hasRolloutRoom r name
  | .begin name obs _ => (C.deployments.get? name).all fun m => C.beginsWithRoom r name obs m
  | .finish obs _ => C.underway.all fun x => (C.deployments.get? x.1).all fun m => C.finishesWithRoom r x.1 obs x.2 m
  | _ => true

end Cluster

/-! ## The failed generation -/

/-- Whether nothing but the marker of failed generations keeps a reconcile from looking for the Job of the build. -/
def Managed.comesToBuild (r : Reconciler) (name : String) (obs : Observation) (m : Managed) : Bool :=
  let ld := m.object
  let secretFound : Bool := match obs.secret with
    | .found _ => true
    | .notFound => false
  !ld.needsMigration && (ld.spec.secretName = "" || secretFound) && isValidDNS1035Label name && !ld.isAwaitingCodePush &&
    !(ld.spec.suspended && ld.spec.buildGeneration ≤ ld.status.lastBuiltGeneration) &&
    !(ld.status.buildId = r.computeBuildId name ld.spec && ld.status.buildStatus = .succeeded)

/-- The name of the Job of a resource's build. -/
def Managed.buildJob (r : Reconciler) (name : String) (m : Managed) : String :=
  buildJobName name (r.computeBuildId name m.object.spec)

/-- The marker of a resource tells the truth, and is acted on so. -/
structure Managed.Truthful (r : Reconciler) (name : String) (m : Managed) : Prop where
  /-- The marked generation has failed. -/
  marked : m.object.status.failedRolloutGeneration ≠ 0 → m.hasFailed m.object.status.failedRolloutGeneration = true
  /-- A generation is skipped only when it has failed. -/
  skipped : ∀ gated obs u, (r.reconcile name gated obs m.object m.jobs).result = some u → u.remaining = .alreadyFailed →
    m.hasFailed m.object.generation = true
  /-- A generation that has not failed gets a new Job when the Job of its build is gone. -/
  built : ∀ obs, m.comesToBuild r name obs = true → m.hasFailed m.object.generation = false →
    m.jobs.get? (m.buildJob r name) = none → .createJob (m.buildJob r name) ∈ (r.reconcile name false obs m.object m.jobs).calls

/-- The calls of a remediation: the failing ReplicaSet is scaled down, or the Deployment when no pod is healthy. -/
def Remediates (phase : DeploymentPhase) (calls : List ApiCall) : Prop :=
  if phase = .rolloutFailed then .scaleDownReplicaSet ∈ calls else ∃ buildId unpause, .deployment buildId unpause 0 ∈ calls

/-- The markers of all resources tell the truth, and a reconcile that finds the rollout failed remediates it, unless the failure is
one of the infrastructure. -/
structure Cluster.Truthful (r : Reconciler) (C : Cluster) : Prop where
  resources : ∀ name m, C.deployments.get? name = some m → m.Truthful r name
  remediated : ∀ name u m buildId obs, C.underway = some (name, u) → C.deployments.get? name = some m →
    u.remaining = .rollout buildId → (r.assessDeploymentHealth obs (u.current m.object)).phase.isFailedPhase = true →
    classifyPodFailures obs.pods ≠ .infra →
    Remediates (r.assessDeploymentHealth obs (u.current m.object)).phase (Cluster.finishing r obs u m)

/-- Whether the resources of a full reconcile are applied while it is still to read the resource again. -/
def Underway.hasApplied (u : Underway) : Bool :=
  u.full && match u.remaining with
    | .rollout _ => true
    | _ => false

/-- Whether an action leaves the marker alone: a reconcile finds no failed Job for the build of a generation that is not marked, and
the spec does not change between the resources of a full reconcile and its second reading. -/
def Cluster.sparesMarker (r : Reconciler) (C : Cluster) : ClusterAction → Bool
  | .begin name _ _ =>
    (C.deployments.get? name).all fun m =>
      m.object.status.failedRolloutGeneration = m.object.generation || m.jobs.get? (m.buildJob r name) ≠ some .failed
  | .change name _ | .delete name => C.underway.all fun x => x.1 ≠ name || !x.2.hasApplied
  | _ => true

end LlamaAgents
