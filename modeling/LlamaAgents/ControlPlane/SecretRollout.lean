import LlamaAgents.ControlPlane.Backup
import LlamaAgents.ControlPlane.Source

/-!
# Secrets and the pods that read them

The pods of a deployment read its Secret when they start, so a new Secret reaches them through a rolling update. The control plane
stamps the hash of the contents on the resource, and the operator copies it to the annotations of the pod template. A creation, an
update and a restore write the Secret first and then the deployment, which may fail: another writer may have come first.
-/

namespace LlamaAgents

open Lib (Dict)

namespace StoredDeployment

variable (stored : StoredDeployment)

/-- The hash on a resource. -/
def secretHash : Option String := (stored.metadata.annotations.getD ∅).get? secretHashKey

/-- The source that a pod template is annotated with. -/
def gitSource : String :=
  if stored.spec.gitSha.getD "" ≠ "" ∨ stored.spec.gitRef.getD "" ≠ "" then stored.spec.repoUrl ++ "@" ++ stored.spec.gitSha.getD ""
  else stored.spec.repoUrl

/-- The annotations of the pod template in `createDeploymentForLlama`. -/
def podAnnotations : Dict String String :=
  let annotations := (∅ : Dict String String).set "deploy.llamaindex.ai/git-source" stored.gitSource
  stored.secretHash.elim annotations (annotations.set secretHashKey)

/-- What a backup keeps of a resource, with its annotations cleaned as in `ClusterDeployment.cleaned`. -/
def cleaned : StoredDeployment :=
  { metadata :=
      { name := stored.metadata.name
        resourceNamespace := stored.metadata.resourceNamespace
        labels := stored.metadata.labels
        annotations := ClusterDeployment.cleanedAnnotations stored.metadata.annotations }
    spec := stored.spec }

end StoredDeployment

/-- What a deployment is created from, with the ref, the commit and the path of the UI that were found. -/
structure CreationInput where
  settings : ControlSettings := {}
  resourceNamespace : String
  projectId : String
  data : DeploymentCreate
  gitRef : Option String := none
  gitSha : Option String := none
  ui : Option String := none

/-- The resource that `create_deployment` writes. -/
def CreationInput.resource (digest : String → String) (deploymentId : String) (input : CreationInput) : StoredDeployment :=
  let secrets := input.data.allSecrets
  { metadata :=
      { name := deploymentId
        resourceNamespace := input.resourceNamespace
        annotations := some
          (if secrets.entries.isEmpty then ∅ else (∅ : Dict String String).set secretHashKey (digest (secretContent secrets)))
        labels := some ((∅ : Dict String String).set "deploy.llamaindex.ai/project-id" input.projectId) }
    spec := (input.settings.newSpec input.projectId deploymentId input.data input.gitRef input.gitSha input.ui).modelDump }

/-- What writes a deployment and its Secret. -/
inductive SecretWrite where
  | create (input : CreationInput)
  | update (update : DeploymentUpdate)
  /-- The entry of a backup: the resource that was backed up, and its Secret if there was one. -/
  | restore (backedUp : StoredDeployment) (secret : Option (Dict String String))

/-- Whether it is a restore. -/
def SecretWrite.isRestore : SecretWrite → Bool
  | restore _ _ => true
  | _ => false

/-- A deployment in the cluster, and the Secret of its name. -/
structure SecretedDeployment where
  resource : Option StoredDeployment := none
  secret : Option (Dict String String) := none

namespace SecretedDeployment

variable (digest : String → String) (deploymentId : String)

/-- What a write makes of the deployment and of the Secret: an id that is in use cannot be created, and what is not there cannot be
updated. -/
def written (s : SecretedDeployment) : SecretWrite → SecretedDeployment
  | .create input =>
    match s.resource with
    | some _ => s
    | none =>
      { resource := some (input.resource digest deploymentId)
        secret := if input.data.allSecrets.entries.isEmpty then s.secret else some input.data.allSecrets }
  | .update update =>
    match s.resource with
    | none => s
    | some stored =>
      { resource := some (writtenBack digest deploymentId update stored (s.secret.getD ∅))
        secret := if update.changesSecrets then some (mergedSecrets update (s.secret.getD ∅)) else s.secret }
  | .restore backedUp secret => { resource := some backedUp.cleaned, secret := secret.or s.secret }

/-- The cluster after a write, whose second call succeeds or not. -/
def write (s : SecretedDeployment) (next : SecretWrite × Bool) : SecretedDeployment :=
  if next.2 then s.written digest deploymentId next.1
  else { s with secret := (s.written digest deploymentId next.1).secret }

/-- The cluster after some writes. -/
def writeAll (s : SecretedDeployment) (writes : List (SecretWrite × Bool)) : SecretedDeployment :=
  writes.foldl (write digest deploymentId) s

end SecretedDeployment

/-- Whether the items of a Secret can be told apart once they are joined: no key has a separator, and no value has that of the
items. -/
def isSeparable (secrets : Dict String String) : Bool :=
  secrets.entries.all fun e => !e.1.toList.contains '=' && !e.1.toList.contains '|' && !e.2.toList.contains '|'

end LlamaAgents
