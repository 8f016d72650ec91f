import LlamaAgents.Lib.Dict
import LlamaAgents.Lib.Lines

/-!
# LlamaDeployments

The custom resource of the operator: what its user asks for, and what the operator keeps about it. Generations count the changes of
the spec; the status says which generation was last reconciled and which one has failed.
-/

namespace LlamaAgents

/-- `status.phase`; `unset` is the empty string of a new resource. -/
inductive DeploymentPhase where
  | unset
  | pending
  | running
  | failed
  | rollingOut
  | rolloutFailed
  | suspended
  | building
  | buildFailed
  | awaitingCode
deriving DecidableEq

namespace DeploymentPhase

/-- `isTerminalFailure`. -/
def isTerminalFailure : DeploymentPhase → Bool
  | .rolloutFailed | .failed | .buildFailed => true
  | _ => false

/-- `isActivePhase`. -/
def isActivePhase : DeploymentPhase → Bool
  | .suspended | .failed | .building | .buildFailed | .awaitingCode | .unset => false
  | _ => true

/-- `isFailedPhase`. -/
def isFailedPhase : DeploymentPhase → Bool
  | .rolloutFailed | .failed => true
  | _ => false

/-- `isRollingPhase`. -/
def isRollingPhase : DeploymentPhase → Bool
  | .pending | .rollingOut | .building => true
  | _ => false

/-- The phases that `initializeStatus` does not reset. -/
def isKept : DeploymentPhase → Bool
  | .building | .suspended | .awaitingCode => true
  | p => p.isTerminalFailure

theorem isTerminalFailure_of_isFailedPhase {p : DeploymentPhase} (h : p.isFailedPhase = true) : p.isTerminalFailure = true := by
  cases p <;> first | rfl | cases h

end DeploymentPhase

/-- `status.buildStatus`. -/
inductive BuildStatus where
  | unset
  | pending
  | running
  | succeeded
  | failed
deriving DecidableEq

/-- The spec, as far as the operator's control flow and its builds read it. -/
structure DeploymentSpec where
  /-- The display name, where it stood before `displayName` was there. -/
  name : String := ""
  displayName : String := ""
  projectId : String := ""
  repoUrl : String := ""
  gitRef : String := ""
  gitSha : String := ""
  deploymentFilePath : String := ""
  imageTag : String := ""
  secretName : String := ""
  suspended : Bool := false
  buildGeneration : Int := 0
deriving DecidableEq

/-- The status. Times are in seconds; of a release the history keeps the commit. -/
structure DeploymentStatus where
  phase : DeploymentPhase := .unset
  message : String := ""
  authToken : String := ""
  schemaVersion : String := ""
  lastReconciledGeneration : Nat := 0
  releaseHistory : List String := []
  rolloutStartedAt : Option Int := none
  failedRolloutGeneration : Nat := 0
  secretCheckRetries : Nat := 0
  buildId : String := ""
  buildStatus : BuildStatus := .unset
  lastBuiltGeneration : Int := 0
deriving DecidableEq

/-- A LlamaDeployment, apart from its name; `deleting` says that it has a deletion timestamp. -/
structure LlamaDeployment where
  generation : Nat := 1
  deleting : Bool := false
  spec : DeploymentSpec
  status : DeploymentStatus := {}
deriving DecidableEq

/-- The settings of the reconciler: its limits, of which those that are not positive do not count, the rollout timeout in seconds,
the digest that shortens a build id, the text of a duration, where builds find the build API, the image tag by default, and for
how many seconds the control plane keeps any artifact (`build_artifact_gc_grace_seconds`). -/
structure Reconciler where
  maxConcurrentRollouts : Int := 0
  maxDeployments : Int := 0
  rolloutTimeout : Int := 1800
  digest : String → String := id
  showDuration : Int → String := fun seconds => toString seconds ++ "s"
  buildApiHost : String := "llama-agents-build.llama-agents.svc.cluster.local:8001"
  imageTag : String := "appserver-latest"
  graceSeconds : Int := 4500

/-- `appserverTagPrefix`: how image tags of the old form start. -/
def appserverTagPrefix : String := "appserver-"

/-- `getContainerImageTag` of a spec with a tag, for the tag that the operator takes by default. -/
def getContainerImageTag (operatorTag imageTag : String) : String :=
  if imageTag = "" then operatorTag else Lib.trimPrefix appserverTagPrefix imageTag

/-- `CurrentSchemaVersion`. -/
def currentSchemaVersion : String := "7"

/-- How many entries the release history keeps. -/
def maxReleaseHistory : Nat := 20

/-- `isValidDNS1035Label`. -/
def isValidDNS1035Label (name : String) : Bool :=
  let chars := name.toList
  let letter (c : Char) : Bool := 'a' ≤ c && c ≤ 'z'
  let digit (c : Char) : Bool := '0' ≤ c && c ≤ '9'
  !chars.isEmpty && chars.length ≤ 63 && chars.all (fun c => letter c || digit c || c == '-') &&
    chars.head?.all letter && chars.getLast?.all (fun c => letter c || digit c)

/-- `buildJobName`: the name is cut to what a Job may be called. -/
def buildJobName (deploymentName buildId : String) : String :=
  String.ofList ((deploymentName.toList ++ "-build-".toList ++ buildId.toList).take 63)

namespace LlamaDeployment

variable (ld : LlamaDeployment)

/-- `needsFullReconciliation`. -/
def needsFullReconciliation : Bool :=
  ld.status.schemaVersion ≠ currentSchemaVersion || ld.status.lastReconciledGeneration ≠ ld.generation ||
    ld.status.lastReconciledGeneration = 0

/-- Whether `migrateDisplayName` has something to move. -/
def needsMigration : Bool := ld.spec.name ≠ "" && ld.spec.displayName = ""

/-- `isAwaitingCodePush`. -/
def isAwaitingCodePush : Bool := ld.spec.repoUrl = ""

/-- Whether the current generation is marked as failed, and the phase says so. -/
def isAlreadyFailed : Bool := ld.status.phase.isTerminalFailure && ld.status.failedRolloutGeneration = ld.generation

/-- The patch of `migrateDisplayName`; as a change of the spec it makes a new generation. -/
def migrated : LlamaDeployment :=
  { ld with
    generation := ld.generation + 1
    spec := { ld.spec with name := "", displayName := ld.spec.name } }

/-- The release history with the current commit. -/
def nextReleaseHistory : List String :=
  let history := ld.status.releaseHistory
  if ld.spec.gitSha = "" || history.getLast?.getD "" = ld.spec.gitSha then history
  else
    let longer := history ++ [ld.spec.gitSha]
    if maxReleaseHistory < longer.length then longer.tail else longer

/-- The status that `updateVersionTracking` writes. -/
def tracked : DeploymentStatus :=
  { ld.status with
    releaseHistory := ld.nextReleaseHistory
    schemaVersion := currentSchemaVersion
    lastReconciledGeneration := ld.generation }

end LlamaDeployment

/-- `computeBuildId`. -/
def Reconciler.computeBuildId (r : Reconciler) (name : String) (spec : DeploymentSpec) : String :=
  let parts := if 0 < spec.buildGeneration then [name, spec.gitSha, "bg:" ++ toString spec.buildGeneration]
    else [name, spec.gitSha]
  r.digest ("|".intercalate parts)

end LlamaAgents
