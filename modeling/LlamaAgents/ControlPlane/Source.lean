import LlamaAgents.ControlPlane.Update
import LlamaAgents.Lib.Run
import LlamaAgents.Operator.Deployment

/-!
# The source of a deployment

Create, update, rollback and push, as `DeploymentService` carries them out on one deployment. They resolve a ref in the repository that
the deployment names, or will name, and patch repository, ref, commit and the path of the built UI as fields of their own. The contents
of repositories change in between.
-/

namespace LlamaAgents

open Lib (Dict)

/-- `INTERNAL_CODE_REPO_SCHEME`. -/
def internalCodeRepoScheme : String := "internal://"

/-- A repository: its commits, the annotated tags by their ids with the commits they stand for, its refs with the objects they name,
and the branch that is checked out by default. -/
structure Repository where
  commits : List String := []
  tags : Dict String String := ∅
  refs : Dict String String := ∅
  defaultBranch : Option String := none
  named : "" ∉ commits
  tagged : ∀ e ∈ tags.entries, e.2 ∈ commits
  closed : ∀ e ∈ refs.entries, e.2 ∈ commits ∨ tags.contains e.2 = true

namespace Repository

/-- `init_bare_repo`. -/
def bare : Repository := { named := List.not_mem_nil, tagged := List.forall_mem_nil _, closed := List.forall_mem_nil _ }

variable (repo : Repository)

/-- The commit that an object stands for. -/
def peel (object : String) : String := (repo.tags.get? object).getD object

/-- `SHA_LIKE_RE`. -/
def isShaLike (ref : String) : Bool :=
  7 ≤ ref.length && ref.length ≤ 40 && ref.toList.all fun c => c.isDigit || ('a' ≤ c && c ≤ 'f')

/-- `resolve_ref_in_repo`, as far as it comes to a commit: a named ref, a branch or a tag of that name, a commit, or the beginning of
the id of only one. -/
def resolveRef (ref : String) : Option String :=
  match [ref, "refs/heads/" ++ ref, "refs/tags/" ++ ref].findSome? repo.refs.get? with
  | some object => some (repo.peel object)
  | none =>
    if repo.commits.contains ref then some ref
    else if isShaLike ref then
      match repo.commits.filter fun commit => ref.toList.isPrefixOf commit.toList with
      | [commit] => some commit
      | _ => none
    else none

end Repository

/-- What is found out about a repository beside its contents: whether it can be accessed, and whether the package of the UI could be
fetched. -/
structure GitAccess where
  accessible : Bool := true
  packageFetched : Bool := true

/-- A valid `GitApplicationValidationResponse`. -/
structure ValidatedApplication where
  gitSha : String
  gitRef : Option String
  uiBuildOutputPath : Option String
deriving DecidableEq

/-- The settings that matter here. -/
structure ControlSettings where
  shouldStampImageTag : Bool := true
  defaultAppserverImageTag : Option String := none
  codeRepoStorage : Bool := true

/-- `DeploymentCreate`, as it is validated. -/
structure DeploymentCreate where
  id : Option String := none
  displayName : String
  repoUrl : String := ""
  deploymentFilePath : Option String := none
  gitRef : Option String := none
  personalAccessToken : Option String := none
  secrets : Dict String String := ∅
  appserverVersion : Option String := none

/-- The first of two texts that Python takes for true. -/
def orElse (a b : Option String) : Option String := if isFilled a then a else b

/-- The secrets that a deployment is created with. -/
def DeploymentCreate.allSecrets (data : DeploymentCreate) : Dict String String :=
  let token : Dict String String :=
    if isFilled data.personalAccessToken then (∅ : Dict String String).set "GITHUB_PAT" (data.personalAccessToken.getD "") else ∅
  data.secrets.entries.foldl (fun secrets e => secrets.set e.1 e.2) token

/-- The spec of a new deployment, with the ref, the commit and the path of the UI that were found. -/
def ControlSettings.newSpec (settings : ControlSettings) (projectId deploymentId : String) (data : DeploymentCreate)
    (gitRef gitSha ui : Option String) : LlamaDeploymentSpec :=
  { projectId := projectId
    repoUrl := data.repoUrl
    deploymentFilePath := (orElse data.deploymentFilePath (some ".")).getD "."
    gitRef := orElse data.gitRef gitRef
    gitSha := gitSha
    displayName := some data.displayName
    secretName := if data.allSecrets.entries.isEmpty then none else some (deploymentId ++ "-secrets")
    staticAssetsPath := ui
    imageTag := if settings.shouldStampImageTag then orElse data.appserverVersion (orElse settings.defaultAppserverImageTag none)
      else none }

/-- Whether a URL is cleared. -/
def isBlank (url : String) : Bool := url.toList.all Char.isWhitespace

/-- The first changes that `update_deployment` makes to an update of a deployment with a URL: the image tag, and a cleared URL of a
deployment that has its code in its own repository. -/
def ControlSettings.adjustedUpdate (settings : ControlSettings) (repoUrl : String) (update : DeploymentUpdate) : DeploymentUpdate :=
  let update : DeploymentUpdate :=
    if !settings.shouldStampImageTag then { update with appserverVersion := none, imageTag := none }
    else if update.bumpToLatestAppserver && !isFilled update.appserverVersion && !isFilled update.imageTag then
      { update with imageTag := settings.defaultAppserverImageTag }
    else update
  if update.repoUrl.any isBlank && repoUrl = internalCodeRepoScheme then { update with repoUrl := none } else update

/-- What an update has to find out about the source. -/
inductive SourcePlan where
  | nothing
  /-- A ref is to be resolved in the deployment's own repository. -/
  | resolve (ref : String)
  /-- An application is to be validated. -/
  | validate (url : String) (gitRef path : Option String)

/-- The branches of `update_deployment`, for the URL, the ref and the path that the deployment has. -/
def sourcePlan (repoUrl : String) (gitRef : Option String) (filePath : String) (update : DeploymentUpdate) : SourcePlan :=
  let url := (orElse update.repoUrl (some repoUrl)).getD ""
  let ref := orElse update.gitRef gitRef
  if update.repoUrl.any isBlank then .nothing
  else if (update.repoUrl.isSome || update.gitRef.isSome) && url = internalCodeRepoScheme then
    if isFilled ref then .resolve (ref.getD "") else .nothing
  else if update.hasGitFields && url ≠ internalCodeRepoScheme then
    .validate url ref (orElse update.deploymentFilePath (some filePath))
  else .nothing

/-- One deployment with the repositories by their URLs, its own repository, and its spec once it is created. -/
structure SourceWorld where
  settings : ControlSettings := {}
  deploymentId : String
  projectId : String
  repositories : Dict String Repository := ∅
  codeRepo : Option Repository := none
  spec : Option LlamaDeploymentSpec := none

/-- What can happen. -/
inductive SourceAction where
  | create (data : DeploymentCreate) (access : GitAccess)
  | update (update : DeploymentUpdate) (access : GitAccess)
  | rollback (gitSha : String) (imageTag : Option String)
  /-- A push to the deployment's own repository, with what it then holds. -/
  | push (after : Repository)
  /-- The content of another repository changes. -/
  | change (url : String) (content : Repository)

namespace SourceWorld

variable (configs : String → String → Option (Option String)) (W : SourceWorld)

/-- The repository that a URL names. -/
def repository (url : String) : Option Repository :=
  if url = internalCodeRepoScheme then W.codeRepo else W.repositories.get? url

/-- `validate_git_application`. `configs` gives for a commit and a path the config, if it is valid, by the path where the UI is built,
if it has one. -/
def validateGitApplication (access : GitAccess) (url : String) (gitRef path : Option String) : Option ValidatedApplication :=
  if access.accessible then
    (W.repository url).bind fun repo =>
      (orElse gitRef repo.defaultBranch).bind fun ref =>
        (repo.resolveRef ref).bind fun sha =>
          (configs sha ((orElse path (some ".")).getD ".")).map fun ui =>
            { gitSha := sha, gitRef := some ref, uiBuildOutputPath := if access.packageFetched then ui else none }
  else none

/-- The application that `create_deployment` validates. -/
def createValidated (data : DeploymentCreate) (access : GitAccess) : Option ValidatedApplication :=
  if data.repoUrl = "" then none else W.validateGitApplication configs access data.repoUrl data.gitRef data.deploymentFilePath

/-- The spec that `create_deployment` gives a deployment. -/
def createdSpec (data : DeploymentCreate) (validated : Option ValidatedApplication) : LlamaDeploymentSpec :=
  W.settings.newSpec W.projectId W.deploymentId data (validated.bind ValidatedApplication.gitRef)
    (validated.map ValidatedApplication.gitSha) (validated.bind ValidatedApplication.uiBuildOutputPath)

/-- What an update does about the source. -/
inductive SourceUpdate where
  /-- Nothing is resolved. -/
  | unresolved
  /-- A ref is resolved in the deployment's own repository. -/
  | resolved (sha : String)
  /-- An application was validated, or could not be. -/
  | validated (result : Option ValidatedApplication)
  /-- The update is refused. -/
  | refused
deriving DecidableEq

/-- The middle part of `update_deployment`. -/
def resolveSource (spec : LlamaDeploymentSpec) (update : DeploymentUpdate) (access : GitAccess) : SourceUpdate :=
  match sourcePlan spec.repoUrl spec.gitRef spec.deploymentFilePath update with
  | .nothing => .unresolved
  | .resolve ref =>
    if !W.settings.codeRepoStorage then .refused
    else
      match W.codeRepo.bind fun repo => repo.resolveRef ref with
      | some sha => .resolved sha
      | none => .refused
  | .validate url ref path => .validated (W.validateGitApplication configs access url ref path)

/-- The update with what was found out about the source. -/
def SourceUpdate.applied (update : DeploymentUpdate) : SourceUpdate → DeploymentUpdate
  | .unresolved | .refused => update
  | .resolved sha => { update with gitSha := some sha }
  | .validated result =>
    { update with
      gitSha := result.map ValidatedApplication.gitSha
      staticAssetsPath := result.bind ValidatedApplication.uiBuildOutputPath }

/-- `update_deployment`. -/
def updatedSpec (spec : LlamaDeploymentSpec) (update : DeploymentUpdate) (access : GitAccess) : Option LlamaDeploymentSpec :=
  let update := W.settings.adjustedUpdate spec.repoUrl update
  match W.resolveSource configs spec update access with
  | .refused => none
  | found => some (applyDeploymentUpdate (found.applied update) spec)

/-- The first ref that a push has changed, with the object it names now. -/
def changedRef (before after : Repository) : Option (String × String) :=
  after.refs.entries.find? fun e => before.refs.get? e.1 ≠ some e.2

/-- Whether a push has changed any ref. -/
def hasChanged (before after : Repository) : Bool :=
  (changedRef before after).isSome || before.refs.entries.any fun e => !after.refs.contains e.1

/-- The name of a branch without its prefix. -/
def branchName (ref : String) : String :=
  if "refs/heads/".toList.isPrefixOf ref.toList then String.ofList (ref.toList.drop "refs/heads/".length) else ref

/-- Whether `_on_push_complete` takes a push for the first one: the deployment does not name its own repository, or has no commit. -/
def isFirstPush (spec : LlamaDeploymentSpec) : Bool := !(spec.repoUrl = internalCodeRepoScheme && isFilled spec.gitSha)

/-- The update that `_on_push_complete` makes for a ref and the object that it names. -/
def pushUpdate (changed : String × String) : DeploymentUpdate :=
  { repoUrl := some internalCodeRepoScheme, gitSha := some changed.2, gitRef := some (branchName changed.1) }

/-- `_on_push_complete`. -/
def pushedSpec (spec : LlamaDeploymentSpec) : Option (String × String) → LlamaDeploymentSpec
  | none => spec
  | some changed => if isFirstPush spec then applyDeploymentUpdate (pushUpdate changed) spec else spec

/-- The state after an operation that succeeds, or after a repository has changed. -/
def step (W : SourceWorld) : SourceAction → Option SourceWorld
  | .create data access =>
    if W.spec.isSome || (data.repoUrl = "" && !W.settings.codeRepoStorage) then none
    else some { W with spec := some (W.createdSpec data (W.createValidated configs data access)) }
  | .update update access =>
    W.spec.bind fun spec => (W.updatedSpec configs spec update access).map fun spec => { W with spec := some spec }
  | .rollback sha tag =>
    W.spec.map fun spec =>
      let tag := if W.settings.shouldStampImageTag then tag else none
      { W with spec := some (applyDeploymentUpdate { gitSha := some sha, imageTag := tag } spec) }
  | .push after =>
    W.spec.bind fun spec =>
      let before := W.codeRepo.getD .bare
      if (spec.repoUrl = "" || spec.repoUrl = internalCodeRepoScheme) && W.settings.codeRepoStorage && hasChanged before after then
        some { W with codeRepo := some after, spec := some (pushedSpec spec (changedRef before after)) }
      else none
  | .change url content =>
    if url = internalCodeRepoScheme then none else some { W with repositories := W.repositories.set url content }

/-- The application whose config an operation validates, with the path of the config. -/
def validatedBy (W : SourceWorld) : SourceAction → Option (ValidatedApplication × String)
  | .create data access =>
    (W.createValidated configs data access).map fun v => (v, (orElse data.deploymentFilePath (some ".")).getD ".")
  | .update update access =>
    W.spec.bind fun spec =>
      match W.resolveSource configs spec (W.settings.adjustedUpdate spec.repoUrl update) access with
      | .validated (some v) => some (v, (orElse update.deploymentFilePath (orElse (some spec.deploymentFilePath) (some "."))).getD ".")
      | _ => none
  | _ => none

/-! ## Coherent sources -/

/-- Whether the repository that a URL names has a commit. -/
def holdsCommit (url sha : String) : Bool := (W.repository url).any fun repo => repo.commits.contains sha

/-- The commit of the deployment is one of the repository that it names. -/
def IsCoherent : Prop := ∀ spec sha, W.spec = some spec → spec.gitSha = some sha → W.holdsCommit spec.repoUrl sha = true

/-- After an operation that has validated a config, commit and UI path are those of the commit. -/
def IsExact (a : SourceAction) (W' : SourceWorld) : Prop :=
  ∀ v path, W.validatedBy configs a = some (v, path) →
    ∃ spec, W'.spec = some spec ∧ spec.gitSha = some v.gitSha ∧ configs v.gitSha path = some spec.staticAssetsPath

/-- Whether what an update leaves fits what it changes: a valid config has a UI, or there was none before; and where no commit is
found, the repository stays the same or there was no commit, and the client sets none. -/
def updateFits (spec : LlamaDeploymentSpec) (update : DeploymentUpdate) : SourceUpdate → Bool
  | .refused | .resolved _ => true
  | .validated (some v) => v.uiBuildOutputPath.isSome || spec.staticAssetsPath.isNone
  | .validated none => update.repoUrl.all (· = spec.repoUrl) || spec.gitSha.isNone
  | .unresolved => update.gitSha.isNone && (update.repoUrl.all (· = spec.repoUrl) || spec.gitSha.isNone)

/-- Whether an action keeps the source coherent: the package of the UI is fetched, an update fits, a rollback is to a commit of the
repository, a push brings a commit and not a tag, and no repository loses a commit. -/
def keepsSource : SourceAction → Bool
  | .create _ access => access.packageFetched
  | .update update access =>
    access.packageFetched && W.spec.all fun spec =>
      updateFits spec (W.settings.adjustedUpdate spec.repoUrl update)
        (W.resolveSource configs spec (W.settings.adjustedUpdate spec.repoUrl update) access)
  | .rollback sha _ => sha = "" || W.spec.all fun spec => W.holdsCommit spec.repoUrl sha
  | .push after =>
    ((W.codeRepo.getD .bare).commits.all fun commit => after.commits.contains commit) &&
      (changedRef (W.codeRepo.getD .bare) after).all fun e => after.commits.contains e.2
  | .change url content => (W.repositories.get? url).all fun repo => repo.commits.all fun commit => content.commits.contains commit

end SourceWorld

/-! ## Rollbacks

The operator records the releases of a deployment in its status, each with its commit and its image tag. A rollback sets the commit of
a deployment back to a recorded one, with the image tag that the history has for it. The ref that the deployment follows stays in
its spec. -/

/-- `ReleaseHistoryEntry`. The operator records a release only once there is a commit. -/
structure ReleaseHistoryEntry where
  gitSha : String
  imageTag : Option String := none
  named : gitSha ≠ ""

/-- `getContainerImageTag`, for the tag that the operator takes by default. -/
def LlamaDeploymentSpec.getContainerImageTag (operatorTag : String) (spec : LlamaDeploymentSpec) : String :=
  LlamaAgents.getContainerImageTag operatorTag (spec.imageTag.getD "")

/-- Whether a deployment follows a branch of a repository. -/
def LlamaDeploymentSpec.followsBranch (spec : LlamaDeploymentSpec) : Bool := isFilled spec.gitRef && spec.repoUrl ≠ ""

/-- A deployment with the releases that its status records, the oldest first, and the tag that the operator takes by default. -/
structure ReleaseWorld where
  source : SourceWorld
  history : List ReleaseHistoryEntry := []
  operatorTag : String

/-- What can happen: an operation of the service or a change of a repository, and the operator records the release. -/
inductive ReleaseAction where
  | serve (a : SourceAction)
  | updateVersionTracking

/-- Whether an action is no other rollback and names neither a repository nor a ref. -/
def ReleaseAction.leavesSource : ReleaseAction → Bool
  | .serve (.update update _) => update.repoUrl.isNone && update.gitRef.isNone
  | .serve (.rollback _ _) => false
  | _ => true

namespace ReleaseWorld

variable (configs : String → String → Option (Option String)) (W : ReleaseWorld)

/-- The history that `updateVersionTracking` writes for a spec. -/
def nextHistory (spec : LlamaDeploymentSpec) : List ReleaseHistoryEntry :=
  if named : spec.gitSha.getD "" = "" then W.history
  else if W.history.getLast?.any fun entry => entry.gitSha = spec.gitSha.getD "" then W.history
  else
    let longer := W.history ++ [{ gitSha := spec.gitSha.getD "", imageTag := some (spec.getContainerImageTag W.operatorTag), named := named }]
    if 20 < longer.length then longer.tail else longer

/-- The image tag that `rollback_deployment` sets, for the one that the request names. -/
def rollbackTag (gitSha : String) (requested : Option String) : Option String :=
  match requested with
  | some tag => some tag
  | none => (W.history.find? fun item => item.gitSha = gitSha && isFilled item.imageTag).bind ReleaseHistoryEntry.imageTag

/-- The image tags that the history has for a commit, in the order in which they were recorded. -/
def recordedTags (gitSha : String) : List String :=
  (W.history.filter fun item => item.gitSha = gitSha && isFilled item.imageTag).filterMap ReleaseHistoryEntry.imageTag

/-- The state after an action. -/
def step (W : ReleaseWorld) : ReleaseAction → Option ReleaseWorld
  | .serve (.rollback sha requested) =>
    (W.source.step configs (.rollback sha (W.rollbackTag sha requested))).map fun source => { W with source := source }
  | .serve a => (W.source.step configs a).map fun source => { W with source := source }
  | .updateVersionTracking => W.source.spec.map fun spec => { W with history := W.nextHistory spec }

/-- Whether the ref of a spec names its commit, or cannot be resolved. -/
def refNamesCommit (spec : LlamaDeploymentSpec) : Bool :=
  ((W.source.repository spec.repoUrl).bind fun repo => repo.resolveRef (spec.gitRef.getD "")).all fun sha => some sha = spec.gitSha

/-- Whether an action leaves the commit of a deployment alone. An update that comes with a token or the path of the config resolves
the ref again, unless the deployment has its code in its own repository. -/
def keepsPin : ReleaseAction → Bool
  | .serve (.update update _) =>
    update.gitSha.isNone && W.source.spec.all fun spec =>
      spec.repoUrl = internalCodeRepoScheme || (update.personalAccessToken.isNone && update.deploymentFilePath.isNone) ||
        W.refNamesCommit spec
  | _ => true

end ReleaseWorld

end LlamaAgents
