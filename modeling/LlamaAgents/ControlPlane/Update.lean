import LlamaAgents.Lib.Dict
import Mathlib.Data.List.Sort

/-!
# Updating a deployment

A LlamaDeployment as the schema of the operator admits it, and as the control plane reads it: the control plane declares the fields
of its own model, drops what it does not know and fills in its defaults, and writes a resource without what is unset.
`apply_deployment_update` patches the spec field by field and collects the changes of secrets; `update_deployment` merges these into
the Secret, stamps the hash of its contents on the resource and replaces the resource as a whole.
-/

namespace LlamaAgents

open Lib (Dict)

/-- The fields of a spec in the schema. -/
inductive SpecField where
  | projectId
  | displayName
  | name
  | repoUrl
  | deploymentFilePath
  | gitRef
  | gitSha
  | secretName
  | image
  | imageTag
  | staticAssetsPath
  | templateName
  | suspended
  | buildGeneration
deriving DecidableEq

/-- The value of a field. -/
inductive FieldValue where
  | text (s : String)
  | flag (b : Bool)
  | number (n : Int)
deriving DecidableEq

/-- A spec as it is stored: what the schema does not require may be absent. -/
structure CrdSpec where
  projectId : String
  repoUrl : String
  deploymentFilePath : String := "llama_deployment.yml"
  displayName : Option String := none
  name : Option String := none
  gitRef : Option String := none
  gitSha : Option String := none
  secretName : Option String := none
  image : Option String := none
  imageTag : Option String := none
  staticAssetsPath : Option String := none
  templateName : Option String := none
  suspended : Option Bool := none
  buildGeneration : Option Int := none
deriving DecidableEq

/-- A field as the operator reads it: an absent one has the zero value of its type. -/
def CrdSpec.read (s : CrdSpec) : SpecField → FieldValue
  | .projectId => .text s.projectId
  | .displayName => .text (s.displayName.getD "")
  | .name => .text (s.name.getD "")
  | .repoUrl => .text s.repoUrl
  | .deploymentFilePath => .text s.deploymentFilePath
  | .gitRef => .text (s.gitRef.getD "")
  | .gitSha => .text (s.gitSha.getD "")
  | .secretName => .text (s.secretName.getD "")
  | .image => .text (s.image.getD "")
  | .imageTag => .text (s.imageTag.getD "")
  | .staticAssetsPath => .text (s.staticAssetsPath.getD "")
  | .templateName => .text (s.templateName.getD "")
  | .suspended => .flag (s.suspended.getD false)
  | .buildGeneration => .number (s.buildGeneration.getD 0)

/-- The metadata of a stored object. -/
structure ObjectMeta where
  name : String
  resourceNamespace : String
  uid : Option String := none
  resourceVersion : Option Nat := none
  creationTimestamp : Option String := none
  labels : Option (Dict String String) := none
  annotations : Option (Dict String String) := none
  finalizers : List String := []
  ownerReferences : List String := []

/-- A stored resource. Its status is written apart. -/
structure StoredDeployment where
  metadata : ObjectMeta
  spec : CrdSpec

/-- `LlamaDeploymentMetadata`. -/
structure LlamaDeploymentMetadata where
  name : String
  resourceNamespace : String
  uid : Option String := none
  resourceVersion : Option Nat := none
  creationTimestamp : Option String := none
  annotations : Option (Dict String String) := none
  labels : Option (Dict String String) := none

/-- `LlamaDeploymentSpec`. -/
structure LlamaDeploymentSpec where
  projectId : String
  repoUrl : String
  deploymentFilePath : String := "."
  gitRef : Option String := none
  gitSha : Option String := none
  displayName : Option String := none
  secretName : Option String := none
  staticAssetsPath : Option String := none
  imageTag : Option String := none
  suspended : Bool := false
  buildGeneration : Int := 0
deriving DecidableEq

/-- `LlamaDeploymentCRD`, without its status. -/
structure LlamaDeploymentCRD where
  metadata : LlamaDeploymentMetadata
  spec : LlamaDeploymentSpec

/-- Whether an optional text is one that Python takes for true. -/
def isFilled (s : Option String) : Bool := s.any (· ≠ "")

/-- `_migrate_name`: the old name becomes the display name, when there is none. -/
def CrdSpec.migratedDisplayName (s : CrdSpec) : Option String :=
  if isFilled s.name && !isFilled s.displayName then s.name else s.displayName

/-- The spec that the control plane reads. -/
def LlamaDeploymentSpec.modelValidate (s : CrdSpec) : LlamaDeploymentSpec :=
  { projectId := s.projectId
    repoUrl := s.repoUrl
    deploymentFilePath := s.deploymentFilePath
    gitRef := s.gitRef
    gitSha := s.gitSha
    displayName := s.migratedDisplayName
    secretName := s.secretName
    staticAssetsPath := s.staticAssetsPath
    imageTag := s.imageTag
    suspended := s.suspended.getD false
    buildGeneration := s.buildGeneration.getD 0 }

/-- The spec that the control plane writes, `model_dump` without what is `None`. -/
def LlamaDeploymentSpec.modelDump (s : LlamaDeploymentSpec) : CrdSpec :=
  { projectId := s.projectId
    repoUrl := s.repoUrl
    deploymentFilePath := s.deploymentFilePath
    gitRef := s.gitRef
    gitSha := s.gitSha
    displayName := s.displayName
    secretName := s.secretName
    staticAssetsPath := s.staticAssetsPath
    imageTag := s.imageTag
    suspended := some s.suspended
    buildGeneration := some s.buildGeneration }

/-- The resource that the control plane reads. -/
def LlamaDeploymentCRD.modelValidate (o : StoredDeployment) : LlamaDeploymentCRD :=
  { metadata :=
      { name := o.metadata.name
        resourceNamespace := o.metadata.resourceNamespace
        uid := o.metadata.uid
        resourceVersion := o.metadata.resourceVersion
        creationTimestamp := o.metadata.creationTimestamp
        annotations := o.metadata.annotations
        labels := o.metadata.labels }
    spec := .modelValidate o.spec }

/-- The resource that the control plane writes. -/
def LlamaDeploymentCRD.modelDump (c : LlamaDeploymentCRD) : StoredDeployment :=
  { metadata :=
      { name := c.metadata.name
        resourceNamespace := c.metadata.resourceNamespace
        uid := c.metadata.uid
        resourceVersion := c.metadata.resourceVersion
        creationTimestamp := c.metadata.creationTimestamp
        annotations := c.metadata.annotations
        labels := c.metadata.labels }
    spec := c.spec.modelDump }

/-! ## Updates -/

/-- `DeploymentUpdate`, as it is validated. -/
structure DeploymentUpdate where
  displayName : Option String := none
  repoUrl : Option String := none
  deploymentFilePath : Option String := none
  gitRef : Option String := none
  gitSha : Option String := none
  personalAccessToken : Option String := none
  /-- A value adds or updates a secret, and without one the secret is removed. -/
  secrets : Option (Dict String (Option String)) := none
  staticAssetsPath : Option String := none
  appserverVersion : Option String := none
  imageTag : Option String := none
  bumpToLatestAppserver : Bool := false
  suspended : Option Bool := none
  rebuild : Bool := false

namespace DeploymentUpdate

variable (update : DeploymentUpdate)

/-- `has_git_fields`. -/
def hasGitFields : Bool :=
  update.repoUrl.isSome || update.deploymentFilePath.isSome || update.gitRef.isSome || update.personalAccessToken.isSome

/-- `_has_substantive_fields`. -/
def hasSubstantiveFields : Bool :=
  update.repoUrl.isSome || update.deploymentFilePath.isSome || update.gitRef.isSome || update.personalAccessToken.isSome ||
    update.secrets.isSome || update.imageTag.isSome || update.appserverVersion.isSome || update.bumpToLatestAppserver

/-- The secrets that the update adds. -/
def secretAdds : Dict String String :=
  let token := match update.personalAccessToken with
    | none => ∅
    | some pat => if pat = "" then ∅ else (∅ : Dict String String).set "GITHUB_PAT" pat
  (update.secrets.getD ∅).entries.foldl (fun adds e => e.2.elim adds (adds.set e.1)) token

/-- The secrets that the update removes. -/
def secretRemoves : List String :=
  (if update.personalAccessToken = some "" then ["GITHUB_PAT"] else []) ++
    ((update.secrets.getD ∅).entries.filter fun e => e.2.isNone).map Prod.fst

/-- Whether the update changes secrets. -/
def changesSecrets : Bool := !update.secretAdds.entries.isEmpty || !update.secretRemoves.isEmpty

end DeploymentUpdate

/-- `version_to_image_tag`. -/
def versionToImageTag (version : String) : String := version

/-- `apply_deployment_update`: the updated spec. -/
def applyDeploymentUpdate (update : DeploymentUpdate) (existing : LlamaDeploymentSpec) : LlamaDeploymentSpec :=
  { existing with
    displayName := update.displayName.or existing.displayName
    repoUrl := update.repoUrl.getD existing.repoUrl
    deploymentFilePath := update.deploymentFilePath.getD existing.deploymentFilePath
    gitRef := update.gitRef.or existing.gitRef
    gitSha := match update.gitSha with
      | none => existing.gitSha
      | some sha => if sha = "" then none else some sha
    staticAssetsPath := update.staticAssetsPath.or existing.staticAssetsPath
    suspended := match update.suspended with
      | some suspended => suspended
      | none => if existing.suspended && update.hasSubstantiveFields then false else existing.suspended
    imageTag := (update.imageTag.or (update.appserverVersion.map versionToImageTag)).or existing.imageTag
    buildGeneration := if update.rebuild then existing.buildGeneration + 1 else existing.buildGeneration }

/-- What `_compute_secret_hash` digests. -/
def secretContent (secrets : Dict String String) : String :=
  "|".intercalate ((secrets.entries.insertionSort fun a b => a.1 ≤ b.1).map fun e => e.1 ++ "=" ++ e.2)

/-- The secrets after the changes of an update. -/
def mergedSecrets (update : DeploymentUpdate) (existing : Dict String String) : Dict String String :=
  update.secretAdds.entries.foldl (fun secrets e => secrets.set e.1 e.2) (update.secretRemoves.foldl Dict.erase existing)

/-- The annotation with the hash of the Secret. -/
def secretHashKey : String := "deploy.llamaindex.ai/secret-hash"

/-- The resource that `update_deployment` writes, for the contents that it finds in the Secret. -/
def updatedResource (digest : String → String) (deploymentId : String) (update : DeploymentUpdate) (existing : LlamaDeploymentCRD)
    (existingSecrets : Dict String String) : LlamaDeploymentCRD :=
  let spec := applyDeploymentUpdate update existing.spec
  if update.changesSecrets then
    let hash := digest (secretContent (mergedSecrets update existingSecrets))
    { metadata := { existing.metadata with annotations := some ((existing.metadata.annotations.getD ∅).set secretHashKey hash) }
      spec := if isFilled existing.spec.secretName then spec else { spec with secretName := some (deploymentId ++ "-secrets") } }
  else { existing with spec := spec }

/-- The object that `update_deployment` writes back for a stored one. -/
def writtenBack (digest : String → String) (deploymentId : String) (update : DeploymentUpdate) (stored : StoredDeployment)
    (existingSecrets : Dict String String) : StoredDeployment :=
  (updatedResource digest deploymentId update (.modelValidate stored) existingSecrets).modelDump

/-! ## What an update leaves alone -/

namespace DeploymentUpdate

variable (update : DeploymentUpdate)

/-- The fields that an update sets. -/
def sets : SpecField → Bool
  | .displayName => update.displayName.isSome
  | .repoUrl => update.repoUrl.isSome
  | .deploymentFilePath => update.deploymentFilePath.isSome
  | .gitRef => update.gitRef.isSome
  | .gitSha => update.gitSha.isSome
  | .staticAssetsPath => update.staticAssetsPath.isSome
  | .imageTag => update.imageTag.isSome || update.appserverVersion.isSome
  | .suspended => update.suspended.isSome
  | .buildGeneration => update.rebuild
  | .projectId | .name | .secretName | .image | .templateName => false

/-- The fields that follow from an update. -/
def derives (stored : StoredDeployment) : SpecField → Bool
  | .suspended => stored.spec.suspended.getD false && update.hasSubstantiveFields
  | .secretName => update.changesSecrets && !isFilled stored.spec.secretName
  | _ => false

end DeploymentUpdate

/-- What an object that is written back for an update is to agree on with the stored one. -/
structure AgreesOutside (update : DeploymentUpdate) (stored written : StoredDeployment) : Prop where
  spec : ∀ f, update.sets f = false → update.derives stored f = false → written.spec.read f = stored.spec.read f
  labels : written.metadata.labels = stored.metadata.labels
  annotations : ∀ key, (key = secretHashKey → update.changesSecrets = false) →
    (written.metadata.annotations.getD ∅).get? key = (stored.metadata.annotations.getD ∅).get? key
  finalizers : written.metadata.finalizers = stored.metadata.finalizers
  ownerReferences : written.metadata.ownerReferences = stored.metadata.ownerReferences

/-- Whether the model of the control plane carries a field of a stored spec: it has the field, or the field is empty and stays so. -/
def CrdSpec.carries (s : CrdSpec) : SpecField → Bool
  | .name => !isFilled s.name
  | .image => !isFilled s.image
  | .templateName => !isFilled s.templateName
  | .displayName => !isFilled s.name || isFilled s.displayName
  | _ => true

/-- Whether the control plane carries a stored object as a whole. -/
def StoredDeployment.isCarried (o : StoredDeployment) : Bool :=
  o.spec.carries .name && o.spec.carries .image && o.spec.carries .templateName && o.metadata.finalizers.isEmpty &&
    o.metadata.ownerReferences.isEmpty

end LlamaAgents
