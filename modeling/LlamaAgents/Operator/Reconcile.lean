import LlamaAgents.Lib.Script
import LlamaAgents.Operator.Deployment

/-!
# Reconciling a LlamaDeployment

`Reconcile` as the calls that it makes to the API server, in order. It works on a copy of the resource, and reads the resource again
only where it records the generation as reconciled (`updateVersionTracking`, `migrateDisplayName`): what comes after that reading is
the second part of a reconcile here. A reconcile may stop after any of its calls, by an error or a crash.
-/

namespace LlamaAgents

/-! ## The health of a rollout -/

/-- The status of a condition. -/
inductive ConditionStatus where
  | isTrue
  | isFalse
  | unknown
deriving DecidableEq

/-- A Kubernetes Deployment: its replicas, and its conditions `Available` and `Progressing`. -/
structure DeploymentView where
  desiredReplicas : Nat := 1
  replicas : Nat := 0
  readyReplicas : Nat := 0
  availableReplicas : Nat := 0
  available : Option ConditionStatus := none
  progressing : Option ConditionStatus := none

/-- The state of a container: why it waits, and with which codes it has ended, now and before. -/
structure ContainerView where
  waitingReason : Option String := none
  exitCode : Option Int := none
  lastExitCode : Option Int := none

/-- A pod: the reason in its status, whether it is pending, and its containers. -/
structure PodView where
  reason : String := ""
  isPending : Bool := false
  initContainers : List ContainerView := []
  containers : List ContainerView := []

/-- `failureType`. -/
inductive FailureType where
  | unknown
  | app
  | infra
deriving DecidableEq

/-- Whether a container fails by the application's own doing. -/
def ContainerView.isFailing (c : ContainerView) : Bool :=
  c.waitingReason.any (["CrashLoopBackOff", "ImagePullBackOff", "ErrImagePull", "CreateContainerConfigError"].contains ·) ||
    c.exitCode.any (· ≠ 0) || c.lastExitCode.any (· ≠ 0)

/-- `classifyPod`. -/
def classifyPod (pod : PodView) : FailureType :=
  if pod.reason = "Evicted" then .infra
  else if pod.isPending && pod.containers.isEmpty && pod.initContainers.isEmpty then .infra
  else if (pod.initContainers ++ pod.containers).any ContainerView.isFailing then .app
  else .unknown

/-- `classifyPodFailures`; without an answer the failure is unknown. -/
def classifyPodFailures : Option (List PodView) → FailureType
  | none => .unknown
  | some pods =>
    if pods.any (classifyPod · = .app) then .app
    else if pods.any (classifyPod · = .infra) then .infra
    else .unknown

/-- The phase of a Deployment that there is. -/
def DeploymentView.phase (v : DeploymentView) : DeploymentPhase × String :=
  if v.availableReplicas = 0 then
    if v.progressing = some .isFalse then (.failed, "Deployment has failed and no pods are available")
    else (.pending, "Waiting for deployment pods to become available")
  else if v.progressing = some .isFalse then
    (.rolloutFailed, "Deployment rollout failed but " ++ toString v.availableReplicas ++
      " pods from previous version are still serving traffic")
  else if v.available = some .isTrue && v.progressing = some .isTrue && v.readyReplicas = v.desiredReplicas &&
      v.replicas = v.desiredReplicas then
    (.running, "Deployment is healthy and running")
  else if v.progressing = some .isTrue && (v.desiredReplicas < v.replicas || v.readyReplicas < v.desiredReplicas) then
    if v.desiredReplicas < v.replicas then
      (.rollingOut, "Rolling update in progress (" ++ toString v.readyReplicas ++ "/" ++ toString v.desiredReplicas ++
        " pods ready, " ++ toString v.replicas ++ " total)")
    else
      (.pending, "Deployment starting up (" ++ toString v.readyReplicas ++ "/" ++ toString v.desiredReplicas ++ " pods ready)")
  else if 0 < v.readyReplicas then
    (.pending, "Deployment status unclear (" ++ toString v.readyReplicas ++ "/" ++ toString v.desiredReplicas ++ " pods ready)")
  else (.pending, "Waiting for deployment to be ready")

/-- `determineDeploymentPhase`. -/
def determineDeploymentPhase (suspended : Bool) (view : Option DeploymentView) : DeploymentPhase × String :=
  if suspended then (.suspended, "Deployment is suspended (scaled to 0 replicas)")
  else
    match view with
    | none => (.pending, "Waiting for deployment to be created")
    | some v => v.phase

/-- Whether a phase is one of a rollout in progress, with a start time. -/
def DeploymentPhase.isInProgress (p : DeploymentPhase) : Bool := p = .pending || p = .rollingOut

/-- `checkRolloutTimeout`: the phase and the message of a rollout that has timed out. The Deployment is read again for them. -/
def Reconciler.checkRolloutTimeout (r : Reconciler) (startedAt : Option Int) (now : Int) (view : Option DeploymentView) :
    Option (DeploymentPhase × String) :=
  startedAt.bind fun t =>
    let elapsed := now - t
    if 0 < r.rolloutTimeout - elapsed then none
    else
      let phase := if view.any (·.availableReplicas = 0) then DeploymentPhase.failed else .rolloutFailed
      some (phase, "Rollout timed out after " ++ r.showDuration elapsed ++ " (limit: " ++ r.showDuration r.rolloutTimeout ++
        "); failing pods stopped")

/-! ## The calls of a reconcile -/

open Lib (Dict Script)
open Lib.Script (call stop)

/-- What a build Job reports: neither a success nor a failure so far, a success, or a failure. -/
inductive JobState where
  | active
  | succeeded
  | failed
deriving DecidableEq

/-- What a change of the status decides about the failure of a generation. -/
inductive FailureNote where
  /-- The failed build Job of the generation was deleted, to build again. -/
  | buildRetried (generation : Nat)
  /-- The build of the generation has failed. -/
  | buildFailed (generation : Nat)
  /-- The rollout of the generation has failed and was remediated. -/
  | rolloutRemediated (generation : Nat)
deriving DecidableEq

/-- The calls to the API server that change something. -/
inductive ApiCall where
  /-- The patch of `migrateDisplayName`. -/
  | migrate
  | status (s : DeploymentStatus) (note : Option FailureNote)
  | createJob (name : String)
  | deleteJob (name : String)
  /-- `deleteOwnedResources`. -/
  | teardown
  /-- `reconcileDeployment`: the build, whether the Deployment is unpaused, and its replicas. -/
  | deployment (buildId : String) (unpause : Bool) (replicas : Nat)
  /-- `scaleDownFailingReplicaSet`. -/
  | scaleDownReplicaSet
deriving DecidableEq

/-- What a look at the Secret finds; when it is there, writing the reset counter may fail. -/
inductive SecretLookup where
  | found (resetFails : Bool)
  | notFound

/-- What `reconcileResources` comes to; an error may come before or after it has applied the Deployment. -/
inductive ResourcesOutcome where
  | applied
  | failed (deploymentApplied : Bool) (error : String)

/-- What a reconcile finds outside of the resource and its Jobs: a new token, the Secret, whether the Deployment is paused, what
comes of applying the resources, the Deployment and the time when its health is assessed, the Deployment when a timeout is, and the
pods. -/
structure Observation where
  authToken : String := "token"
  secret : SecretLookup := .found false
  paused : Bool := false
  resources : ResourcesOutcome := .applied
  view : Option DeploymentView := none
  now : Int := 0
  timeoutView : Option DeploymentView := none
  pods : Option (List PodView) := none

/-- What is left of a reconcile when it reads the resource again. -/
inductive Remaining where
  | migrated
  | alreadyFailed
  | awaitingCode
  /-- The resources are applied for a build. -/
  | rollout (buildId : String)
deriving DecidableEq

/-- A reconcile after its first part: whether it is a full one, its copy of the resource, and what is left. -/
structure Underway where
  full : Bool
  copy : LlamaDeployment
  remaining : Remaining

/-- `initializeStatus`. -/
def initializeStatus (token : String) (full : Bool) (ld : LlamaDeployment) : Script ApiCall LlamaDeployment :=
  if ld.status.phase = .unset || full then
    let kept := ld.status.phase.isKept
    let s := if ld.status.authToken = "" then { ld.status with authToken := token } else ld.status
    let message :=
      if full then
        if s.schemaVersion ≠ currentSchemaVersion then
          "Schema version migration required (from " ++ s.schemaVersion ++ " to " ++ currentSchemaVersion ++ ")"
        else "Full reconciliation required due to spec changes"
      else "Starting reconciliation"
    let s := if kept then s else { s with phase := .pending, message := message }
    if ld.status.authToken = "" || !kept then do
      call (.status s none)
      return { ld with status := s }
    else return ld
  else return ld

/-- `checkSecretGate`. -/
def checkSecretGate (obs : Observation) (ld : LlamaDeployment) : Script ApiCall LlamaDeployment :=
  if ld.spec.secretName = "" then return ld
  else
    match obs.secret with
    | .notFound =>
      let message := "Secret " ++ ld.spec.secretName ++
        " not found after retries - rollout failed. Create the Secret and update the resource to retry."
      if ld.status.secretCheckRetries < 3 then do
        call (.status { ld.status with secretCheckRetries := ld.status.secretCheckRetries + 1 } none)
        stop
      else if ld.status.phase ≠ .rolloutFailed || ld.status.message ≠ message then do
        call (.status { ld.status with phase := .rolloutFailed, message := message } none)
        stop
      else stop
    | .found resetFails =>
      let s := { ld.status with secretCheckRetries := 0 }
      if 0 < ld.status.secretCheckRetries && !resetFails then do
        call (.status s none)
        return { ld with status := s }
      else return { ld with status := s }

/-- `handleInvalidDNSName`. -/
def handleInvalidDNSName (name : String) (ld : LlamaDeployment) : Script ApiCall Underway :=
  let message := "Deployment name \"" ++ name ++ "\" is not a valid DNS-1035 label: must start with a lowercase letter, " ++
    "contain only lowercase alphanumeric characters or '-', end with an alphanumeric character, " ++
    "and be at most 63 characters (regex: '[a-z]([a-z0-9-]*[a-z0-9])?')"
  do
    call .teardown
    if ld.status.phase ≠ .failed || ld.status.message ≠ message then
      call (.status { ld.status with phase := .failed, message := message } none)
    stop

/-- `supersedeStaleBuildJob`: the Jobs that it leaves. -/
def supersedeStaleBuildJob (name : String) (ld : LlamaDeployment) (jobs : Dict String JobState) (newBuildId : String) :
    Script ApiCall (Dict String JobState) :=
  let staleJob := buildJobName name ld.status.buildId
  if ld.status.buildId = "" || ld.status.buildId = newBuildId then return jobs
  else if ld.status.buildStatus ≠ .pending && ld.status.buildStatus ≠ .running then return jobs
  else
    match jobs.get? staleJob with
    | none | some .succeeded => return jobs
    | some _ => do
      call (.deleteJob staleJob)
      return jobs.erase staleJob

/-- Whether a build has to be started or awaited. -/
def Reconciler.needsBuild (r : Reconciler) (name : String) (ld : LlamaDeployment) (jobs : Dict String JobState) : Bool :=
  let buildId := r.computeBuildId name ld.spec
  !ld.isAwaitingCodePush && !(ld.spec.suspended && ld.spec.buildGeneration ≤ ld.status.lastBuiltGeneration) &&
    !(ld.status.buildId = buildId && ld.status.buildStatus = .succeeded) &&
    jobs.get? (buildJobName name buildId) ≠ some .succeeded

/-- `reconcileBuild`: the build that there is, and the copy of the resource with what was written about it. -/
def Reconciler.reconcileBuild (r : Reconciler) (name : String) (ld : LlamaDeployment) (jobs : Dict String JobState) :
    Script ApiCall (String × LlamaDeployment) :=
  let buildId := r.computeBuildId name ld.spec
  let job := buildJobName name buildId
  if ld.isAwaitingCodePush then return ("", ld)
  else if ld.spec.suspended && ld.spec.buildGeneration ≤ ld.status.lastBuiltGeneration then return ("", ld)
  else if ld.status.buildId = buildId && ld.status.buildStatus = .succeeded then return (buildId, ld)
  else do
    let jobs ← supersedeStaleBuildJob name ld jobs buildId
    match jobs.get? job with
    | none =>
      call (.createJob job)
      call (.status { ld.status with
        buildId := buildId, buildStatus := .pending, phase := .building, message := "Build job created: " ++ job } none)
      stop
    | some .succeeded =>
      let s := { ld.status with
        buildId := buildId, buildStatus := .succeeded, lastBuiltGeneration := ld.spec.buildGeneration }
      call (.status s none)
      return (buildId, { ld with status := s })
    | some .failed =>
      if ld.status.failedRolloutGeneration ≠ ld.generation then
        -- The generation's retry is recorded in the field that says that the generation has failed.
        call (.deleteJob job)
        call (.status { ld.status with failedRolloutGeneration := ld.generation } (some (.buildRetried ld.generation)))
        stop
      else
        let s := { ld.status with
          buildId := buildId, buildStatus := .failed, phase := .buildFailed, message := "Build job failed: " ++ job,
          failedRolloutGeneration := ld.generation }
        call (.status s (some (.buildFailed ld.generation)))
        stop
    | some .active =>
      if ld.status.buildStatus ≠ .running then
        call (.status { ld.status with
          buildStatus := .running, phase := .building, message := "Build in progress: " ++ job } none)
      stop

/-- `reconcileDeployment`: a paused Deployment is unpaused for a generation after the failed one, and a generation that has failed
without a healthy pod gets no replica. -/
def reconcileDeployment (paused : Bool) (buildId : String) (ld : LlamaDeployment) : ApiCall :=
  let marked := ld.status.failedRolloutGeneration
  let replicas := if ld.spec.suspended || (marked = ld.generation && ld.status.phase = .failed) then 0 else 1
  .deployment buildId (paused && 0 < marked && marked < ld.generation) replicas

/-- `handleReconcileFailure`. -/
def handleReconcileFailure (ld : LlamaDeployment) (error : String) : Script ApiCall Unit := do
  if ld.status.phase ≠ .failed then
    call (.status { ld.status with phase := .failed, message := "Failed to reconcile resources: " ++ error } none)
  stop

/-- `reconcileResources`, with what follows a failure. -/
def reconcileResources (obs : Observation) (buildId : String) (ld : LlamaDeployment) : Script ApiCall Unit :=
  match obs.resources with
  | .applied => call (reconcileDeployment obs.paused buildId ld)
  | .failed true error => do
    call (reconcileDeployment obs.paused buildId ld)
    handleReconcileFailure ld error
  | .failed false error => handleReconcileFailure ld error

/-- `Reconcile`, up to where it reads the resource again; `gated` is what `checkCapacityGates` says. -/
def Reconciler.reconcile (r : Reconciler) (name : String) (gated : Bool) (obs : Observation) (ld : LlamaDeployment)
    (jobs : Dict String JobState) : Script ApiCall Underway :=
  let full := ld.needsFullReconciliation
  if ld.needsMigration then do
    call .migrate
    return ⟨full, ld, .migrated⟩
  else if gated then stop
  else do
    let ld ← initializeStatus obs.authToken full ld
    let ld ← checkSecretGate obs ld
    if !isValidDNS1035Label name then handleInvalidDNSName name ld
    else if ld.isAlreadyFailed then return ⟨full, ld, .alreadyFailed⟩
    else if ld.isAwaitingCodePush then return ⟨full, ld, .awaitingCode⟩
    else
      let (buildId, ld) ← r.reconcileBuild name ld jobs
      reconcileResources obs buildId ld
      return ⟨full, ld, .rollout buildId⟩

/-- `finalizePhase`. -/
def finalizePhase (ld : LlamaDeployment) (phase : DeploymentPhase) (message : String) (dirty : Bool)
    (note : Option FailureNote) : Script ApiCall Unit :=
  if ld.status.phase ≠ phase || dirty then call (.status { ld.status with phase := phase, message := message } note)
  else return ()

/-- What `assessDeploymentHealth` comes to: a phase with its message, and the copy of the resource with the start of the rollout. -/
structure Assessment where
  phase : DeploymentPhase
  message : String
  ld : LlamaDeployment
  dirty : Bool

/-- `assessDeploymentHealth`. -/
def Reconciler.assessDeploymentHealth (r : Reconciler) (obs : Observation) (ld : LlamaDeployment) : Assessment :=
  let (phase, message) := determineDeploymentPhase ld.spec.suspended obs.view
  let startedAt := if phase.isInProgress then some (ld.status.rolloutStartedAt.getD obs.now) else none
  let timedOut := if phase.isInProgress then r.checkRolloutTimeout startedAt obs.now obs.timeoutView else none
  let (phase, message) := timedOut.getD (phase, message)
  { phase := phase
    message := message
    ld := { ld with status := { ld.status with rolloutStartedAt := startedAt } }
    dirty := startedAt ≠ ld.status.rolloutStartedAt }

/-- The end of a rollout's reconcile: the health, `remediateFailedRollout` and the phase. `applied` is the generation whose resources
this reconcile has applied. -/
def Reconciler.finishRollout (r : Reconciler) (obs : Observation) (applied : Nat) (buildId : String) (ld : LlamaDeployment) :
    Script ApiCall Unit :=
  let a := r.assessDeploymentHealth obs ld
  if a.phase.isFailedPhase && ld.status.failedRolloutGeneration ≠ ld.generation then
    if classifyPodFailures obs.pods = .infra then stop
    else
      let s := { a.ld.status with failedRolloutGeneration := ld.generation, rolloutStartedAt := none }
      let s := if a.phase = .rolloutFailed then s else { s with phase := .failed }
      let marked := { ld with status := s }
      do
        call (if a.phase = .rolloutFailed then .scaleDownReplicaSet else reconcileDeployment obs.paused buildId marked)
        finalizePhase marked a.phase a.message true (some (.rolloutRemediated applied))
  else finalizePhase a.ld a.phase a.message a.dirty none

/-- The resource that the second part of a reconcile works on: as it is read again in a full one, and the copy in any other. -/
def Underway.current (u : Underway) (fresh : LlamaDeployment) : LlamaDeployment :=
  if u.full then { fresh with status := fresh.tracked } else u.copy

/-- `updateVersionTracking`, in a full reconcile. -/
def updateVersionTracking (u : Underway) (fresh : LlamaDeployment) : Script ApiCall LlamaDeployment := do
  if u.full then call (.status fresh.tracked none)
  return u.current fresh

/-- The second part of `Reconcile`: `fresh` is the resource as it is read again. -/
def Reconciler.resume (r : Reconciler) (obs : Observation) (u : Underway) (fresh : LlamaDeployment) : Script ApiCall Unit :=
  match u.remaining with
  | .migrated => call (.status { fresh.status with lastReconciledGeneration := fresh.generation } none)
  | .alreadyFailed => do
    let _ ← updateVersionTracking u fresh
    return ()
  | .awaitingCode => do
    let ld ← updateVersionTracking u fresh
    finalizePhase ld .awaitingCode "Waiting for code push" false none
  | .rollout buildId => do
    let ld ← updateVersionTracking u fresh
    r.finishRollout obs u.copy.generation buildId ld

end LlamaAgents
