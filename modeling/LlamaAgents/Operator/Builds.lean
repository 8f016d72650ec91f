import LlamaAgents.Operator.Cluster

/-!
# Builds and their artifacts

A build Job gets its inputs as environment variables, assembled apart from the build id. Its pod uploads the artifact under the id,
unless there is one already. The artifacts of a deployment are collected when no ReplicaSet refers to them and they are old enough.
Around the namespace of resources, this module keeps the pods of the Jobs, the artifacts, the ReplicaSets and the collections that
are under way.
-/

namespace LlamaAgents

open Lib (Dict)

/-- The environment variables of a container, in order. -/
abbrev Environment := List (String × String)

/-- The value of a variable. -/
def Environment.get? (env : Environment) (key : String) : Option String := (env.find? (·.1 = key)).map Prod.snd

/-- `commonEnvVars`. -/
def Reconciler.commonEnvVars (r : Reconciler) (name : String) (ld : LlamaDeployment) : Environment :=
  let filePath := if ld.spec.deploymentFilePath = "" then "." else ld.spec.deploymentFilePath
  [("LLAMA_DEPLOY_REPO_URL", "http://" ++ r.buildApiHost ++ "/deployments/" ++ name),
    ("LLAMA_DEPLOY_GIT_REF", ld.spec.gitRef),
    ("LLAMA_DEPLOY_GIT_SHA", ld.spec.gitSha),
    ("LLAMA_DEPLOY_DEPLOYMENT_FILE_PATH", filePath),
    ("LLAMA_DEPLOY_DEPLOYMENT_NAME", name),
    ("LLAMA_DEPLOY_AUTH_TOKEN", ld.status.authToken),
    ("LLAMA_DEPLOY_BUILD_API_HOST", r.buildApiHost),
    ("LLAMA_DEPLOY_PROJECT_ID", ld.spec.projectId),
    ("LLAMA_DEPLOY_IS_DEPLOYED", "true"),
    ("LOG_FORMAT", "json"),
    ("GIT_CONFIG_COUNT", "1"),
    ("GIT_CONFIG_KEY_0", "safe.directory"),
    ("GIT_CONFIG_VALUE_0", "/opt/app")] ++
  if ld.spec.imageTag = "" then [] else [("LLAMA_DEPLOY_APPSERVER_VERSION", getContainerImageTag r.imageTag ld.spec.imageTag)]

/-- The environment of `createBuildJob`. -/
def Reconciler.buildJobEnv (r : Reconciler) (name : String) (ld : LlamaDeployment) (buildId : String) : Environment :=
  r.commonEnvVars name ld ++ [("LLAMA_DEPLOY_BUILD_ID", buildId)]

/-- What a build checks out: a commit that is pinned, and otherwise a ref. -/
inductive Revision where
  | commit (sha : String)
  | ref (name : String)
deriving DecidableEq

/-- The inputs of a build: the revision, the path of the deployment file and the version of the appserver, if one is asked for. -/
structure BuildInputs where
  revision : Revision
  filePath : String
  appserverVersion : Option String
deriving DecidableEq

/-- The inputs that the build takes from its environment. -/
def BuildInputs.ofEnv (env : Environment) : BuildInputs :=
  let sha := (env.get? "LLAMA_DEPLOY_GIT_SHA").getD ""
  { revision := if sha = "" then .ref ((env.get? "LLAMA_DEPLOY_GIT_REF").getD "") else .commit sha
    filePath := (env.get? "LLAMA_DEPLOY_DEPLOYMENT_FILE_PATH").getD "."
    appserverVersion := env.get? "LLAMA_DEPLOY_APPSERVER_VERSION" }

/-- The inputs that a resource prescribes for its build. -/
def Reconciler.buildInputs (r : Reconciler) (name : String) (ld : LlamaDeployment) : BuildInputs :=
  .ofEnv (r.buildJobEnv name ld (r.computeBuildId name ld.spec))

/-- The pod of a build Job: whose Job it is, the id and the inputs of the build, and whether it has done its work. -/
structure BuildPod where
  deployment : String
  job : String
  buildId : String
  inputs : BuildInputs
  done : Bool := false
deriving DecidableEq

/-- An artifact: what it was built from and when it was stored. -/
structure Artifact where
  inputs : BuildInputs
  timestamp : Int
deriving DecidableEq

/-- A run of `gc_build_artifacts`: the ids that it keeps, and, once it has listed the artifacts, those that it has still to delete. -/
structure Collection where
  deployment : String
  kept : List String
  toDelete : Option (List String) := none
deriving DecidableEq

/-- The namespace, the pods of all Jobs created so far, the artifacts by deployment and build id, the build that the Deployment was
last applied with, the ReplicaSets with the builds they refer to, and the collections. The inputs of the last upload of each artifact
and all specs that there were are kept beside. -/
structure BuildWorld where
  cluster : Cluster := {}
  pods : List BuildPod := []
  artifacts : Dict (String × String) Artifact := ∅
  applied : Dict String String := ∅
  replicaSets : List (String × String) := []
  collections : List Collection := []
  uploaded : Dict (String × String) BuildInputs := ∅
  specs : List (String × DeploymentSpec) := []

/-- What can happen. -/
inductive BuildAction where
  /-- Anything in the namespace. -/
  | cluster (a : ClusterAction)
  /-- The pod of a Job does its work at a time: it finds the artifact there, or it builds and uploads. -/
  | build (pod : Nat) (finds : Bool) (time : Int)
  /-- The ReplicaSet of the applied Deployment is created. -/
  | rollOut (deployment : String)
  /-- A ReplicaSet is removed. -/
  | prune (deployment buildId : String)
  /-- `gc_build_artifacts` starts: it lists the ReplicaSets, or fails to. -/
  | collect (deployment : String) (keep : List String) (listed : Bool)
  /-- A collection lists the artifacts, and reads the clock. -/
  | select (collection : Nat) (now : Int)
  /-- A collection deletes an artifact. -/
  | deleteArtifact (collection : Nat) (buildId : String)

namespace BuildWorld

variable (r : Reconciler) (W : BuildWorld)

/-- The pod of the latest Job of a name. -/
def lastPod? (deployment job : String) : Option BuildPod :=
  W.pods.reverse.find? fun p => p.deployment = deployment && p.job = job

/-- `_get_referenced_build_ids_from_replicasets`, without the failure. -/
def referenced (deployment : String) : List String :=
  ((W.replicaSets.filter fun x => x.1 = deployment).map Prod.snd).filter (· ≠ "")

/-- Whether the operator takes a build for done without a Job. -/
def isAccepted (deployment buildId : String) : Bool :=
  (W.cluster.deployments.get? deployment).any fun m =>
    m.object.status.buildId = buildId && m.object.status.buildStatus = .succeeded

/-- The artifacts that a collection deletes, by the time that it reads. -/
def selected (c : Collection) (now : Int) : List String :=
  (W.artifacts.entries.filter fun e =>
    e.1.1 = c.deployment && !c.kept.contains e.1.2 && e.2.timestamp ≤ now - r.graceSeconds).map fun e => e.1.2

/-- The calls that an action of the namespace makes, and for whom. -/
def calls : ClusterAction → Option (String × LlamaDeployment × List ApiCall)
  | .begin name obs n =>
    (W.cluster.deployments.get? name).bind fun m =>
      if m.object.deleting then none else some (name, m.object, (W.cluster.beginning r name obs m).calls.take n)
  | .finish obs n =>
    W.cluster.underway.bind fun x => (W.cluster.deployments.get? x.1).map fun m =>
      (x.1, x.2.current m.object, (Cluster.finishing r obs x.2 m).take n)
  | _ => none

/-- What a call of a reconcile brings about: the pod of a new Job, or a Deployment. -/
def follow (name : String) (ld : LlamaDeployment) (W : BuildWorld) : ApiCall → BuildWorld
  | .createJob job =>
    let buildId := r.computeBuildId name ld.spec
    { W with pods := W.pods ++ [{ deployment := name, job := job, buildId := buildId, inputs := r.buildInputs name ld }] }
  | .deployment buildId _ _ => { W with applied := W.applied.set name buildId }
  | _ => W

/-- The specs that an action brings. -/
def newSpecs : ClusterAction → List (String × DeploymentSpec)
  | .create name spec | .change name spec => [(name, spec)]
  | _ => []

/-- Whether an action of the namespace is one that the pods allow: a Job succeeds only when its pod has done its work. -/
def allows : ClusterAction → Bool
  | .report name job .succeeded => (W.lastPod? name job).any BuildPod.done
  | _ => true

/-- The state after an action of the namespace. -/
def stepCluster (a : ClusterAction) : Option BuildWorld :=
  if W.allows a then
    (W.cluster.step r a).map fun C =>
      let W' := match W.calls r a with
        | none => W
        | some (name, ld, calls) => calls.foldl (follow r name ld) W
      { W' with cluster := C, specs := W'.specs ++ newSpecs a }
  else none

/-- The state after a pod has done its work. -/
def stepBuild (i : Nat) (finds : Bool) (time : Int) : Option BuildWorld :=
  W.pods[i]?.bind fun p =>
    let key := (p.deployment, p.buildId)
    let W' : BuildWorld := { W with pods := W.pods.set i { p with done := true } }
    if finds then if W.artifacts.contains key then some W' else none
    else some { W' with artifacts := W.artifacts.set key ⟨p.inputs, time⟩, uploaded := W.uploaded.set key p.inputs }

/-- The state after an action, if it is possible. -/
def step (W : BuildWorld) : BuildAction → Option BuildWorld
  | .cluster a => W.stepCluster r a
  | .build i finds time => W.stepBuild i finds time
  | .rollOut name => (W.applied.get? name).map fun buildId => { W with replicaSets := W.replicaSets ++ [(name, buildId)] }
  | .prune name buildId => some { W with replicaSets := W.replicaSets.erase (name, buildId) }
  | .collect name keep listed =>
    -- A failure is logged as one that skips the collection, and taken for no ReplicaSets.
    let referenced := if listed then W.referenced name else []
    some { W with collections := W.collections ++ [{ deployment := name, kept := referenced ++ keep }] }
  | .select i now =>
    W.collections[i]?.bind fun c =>
      if c.toDelete.isSome then none
      else some { W with collections := W.collections.set i { c with toDelete := some (W.selected r c now) } }
  | .deleteArtifact i buildId =>
    W.collections[i]?.bind fun c =>
      c.toDelete.bind fun ids =>
        if ids.contains buildId then
          some { W with
            artifacts := W.artifacts.erase (c.deployment, buildId)
            collections := W.collections.set i { c with toDelete := some (ids.erase buildId) } }
        else none

/-! ## Artifacts that are still needed -/

/-- No artifact that could be deleted now is needed. -/
def SparesNeeded : Prop :=
  ∀ i buildId W', BuildWorld.step r W (.deleteArtifact i buildId) = some W' → ∃ c, W.collections[i]? = some c ∧
    buildId ∉ W.referenced c.deployment ∧ W.isAccepted c.deployment buildId = false

/-- Whether a collection passes an artifact over when it looks at the time: the artifact is among those that it keeps, or is not
there, or is young. -/
def passesOver (c : Collection) (now : Int) (buildId : String) : Bool :=
  c.kept.contains buildId || (W.artifacts.get? (c.deployment, buildId)).all fun a => now - r.graceSeconds < a.timestamp

/-- Whether no collection of a deployment is about to delete a build. -/
def isSafe (deployment buildId : String) : Bool :=
  W.collections.all fun c => c.deployment ≠ deployment || !(c.toDelete.getD []).contains buildId

/-- Whether every collection of a deployment that has still to list the artifacts keeps a build. -/
def isKept (deployment buildId : String) : Bool :=
  W.collections.all fun c => c.deployment ≠ deployment || c.toDelete.isSome || c.kept.contains buildId

/-- Whether an action keeps collections harmless: the ReplicaSets are listed without a failure; the build that the operator takes for
done is passed over when a collection looks at the artifacts; a ReplicaSet is created only for a build that no collection is about to
delete and that those that have still to look keep; and a reconcile finds no Job as succeeded whose build is about to be deleted. -/
def sparesBuilds : BuildAction → Bool
  | .collect _ _ listed => listed
  | .select i now =>
    W.collections[i]?.all fun c => (W.cluster.deployments.get? c.deployment).all fun m =>
      m.object.status.buildStatus ≠ .succeeded || W.passesOver r c now m.object.status.buildId
  | .rollOut name => (W.applied.get? name).all fun buildId => buildId = "" || W.isSafe name buildId && W.isKept name buildId
  | .cluster (.begin name _ _) =>
    (W.cluster.deployments.get? name).all fun m =>
      m.jobs.get? (m.buildJob r name) ≠ some .succeeded || W.isSafe name (r.computeBuildId name m.object.spec)
  | _ => true

end BuildWorld

end LlamaAgents
