import LlamaAgents.Lib.Json

/-!
# Backup and restore

`BackupService` writes the resources of a namespace and their Secrets to the members of an archive, and applies what it reads from one.
The members of a deployment are told apart by the ends of their names. The texts of a member, and how they are encrypted, are given by
a codec.
-/

namespace LlamaAgents

open Lib (Dict Json)

/-- The regular expression of `validate_dns_1035_label`. -/
def isDns1035Label (name : String) : Bool :=
  let isPart (c : Char) := c.isLower || c.isDigit
  name.toList.length ≤ 63 && name.toList.head?.any Char.isLower && name.toList.getLast?.any isPart &&
    name.toList.all fun c => isPart c || c = '-'

/-- A resource as the API server lists it. -/
structure ClusterDeployment where
  name : String
  resourceNamespace : String
  labels : Option (Dict String String) := none
  annotations : Option (Dict String String) := none
  generation : Option Nat := none
  /-- All other metadata. -/
  otherMetadata : Dict String Json := ∅
  spec : Dict String Json := ∅
  status : Option Json := none

namespace ClusterDeployment

variable (d : ClusterDeployment)

/-- A field of the spec that is a text. -/
def specText (key : String) : Option String :=
  match d.spec.get? key with
  | some (.str text) => some text
  | _ => none

/-- The Secret that the spec names. -/
def secretName : Option String := (d.specText "secretName").filter (· ≠ "")

/-- Whether an annotation has one of `_SYSTEM_ANNOTATION_PREFIXES`. -/
def isSystemAnnotation (key : String) : Bool :=
  "kubectl.kubernetes.io/".toList.isPrefixOf key.toList || "deploy.llamaindex.ai/".toList.isPrefixOf key.toList

/-- The annotations that are not the system's. -/
def keptAnnotations (annotations : Option (Dict String String)) : Dict String String :=
  (annotations.getD ∅).filter fun key _ => ! isSystemAnnotation key

/-- What `clean_crd_metadata` leaves of the annotations: none at all when each of them is the system's. -/
def cleanedAnnotations (annotations : Option (Dict String String)) : Option (Dict String String) :=
  if (keptAnnotations annotations).entries.isEmpty then none else some (keptAnnotations annotations)

/-- The annotations of a resource that are not the system's. -/
def userAnnotations : Dict String String := keptAnnotations d.annotations

/-- `clean_crd_metadata`. -/
def cleaned : ClusterDeployment :=
  { d with
    annotations := cleanedAnnotations d.annotations
    generation := none
    otherMetadata := ∅
    status := none }

end ClusterDeployment

/-- The resources and Secrets of a namespace. -/
structure ClusterNamespace where
  deployments : Dict String ClusterDeployment := ∅
  secrets : Dict String (Dict String ByteArray) := ∅

/-- `BackupManifest`. -/
structure BackupManifest where
  version : Nat
  timestamp : String
  backupNamespace : String
  deploymentCount : Nat
  encrypted : Bool

/-- How documents are written and read as YAML or JSON and how they are encrypted, with some salt: reading gives what was written, and
decryption what was encrypted. -/
structure BackupCodec (β : Type) where
  dump : ClusterDeployment → β
  load : β → ClusterDeployment
  dumpSecret : Dict String String → β
  loadSecret : β → Dict String String
  dumpGeneration : Nat → β
  loadGeneration : β → Nat
  dumpManifest : BackupManifest → β
  loadManifest : β → BackupManifest
  encrypt : Nat → String → β → β
  decrypt : String → β → Option β
  load_dump : ∀ d, load (dump d) = d
  loadSecret_dump : ∀ s, loadSecret (dumpSecret s) = s
  loadGeneration_dump : ∀ n, loadGeneration (dumpGeneration n) = n
  loadManifest_dump : ∀ m, loadManifest (dumpManifest m) = m
  decrypt_encrypt : ∀ salt password plain, decrypt password (encrypt salt password plain) = some plain

/-- `_paired_secret_name`. -/
def pairedSecretName (name : String) : String := name ++ "-secrets"

/-- The texts of a Secret, if they are texts. -/
def decodeSecret (data : Dict String ByteArray) : Option (Dict String String) :=
  if data.values.all fun bytes => (String.fromUTF8? bytes).isSome then some (data.map fun bytes => (String.fromUTF8? bytes).getD "")
  else none

/-- The contents of a Secret with some texts. -/
def encodeSecret (texts : Dict String String) : Dict String ByteArray := texts.map String.toUTF8

/-- `BackupEntry`. -/
structure BackupEntry where
  name : String
  cr : ClusterDeployment
  secret : Option (Dict String String) := none
  generation : Option Nat := none

/-- Whether a password is one that Python takes for true. -/
def isPassword (password : Option String) : Bool := password.any (· ≠ "")

section Archive

variable {β : Type} (codec : BackupCodec β) (password : Option String)

/-- The member with the Secret of a deployment. -/
def BackupEntry.secretMembers (salt : String → Nat) (entry : BackupEntry) : List (String × β) :=
  match entry.secret with
  | none => []
  | some data =>
    if isPassword password then
      [(entry.name ++ ".secret.enc", codec.encrypt (salt entry.name) (password.getD "") (codec.dumpSecret data))]
    else [(entry.name ++ ".secret.yaml", codec.dumpSecret data)]

/-- The member with the generation of a deployment. -/
def BackupEntry.generationMembers (entry : BackupEntry) : List (String × β) :=
  match entry.generation with
  | none => []
  | some n => [(entry.name ++ ".meta.json", codec.dumpGeneration n)]

/-- The members of a deployment. -/
def BackupEntry.members (salt : String → Nat) (entry : BackupEntry) : List (String × β) :=
  (entry.name ++ ".yaml", codec.dump entry.cr) :: (entry.secretMembers codec password salt ++ entry.generationMembers codec)

/-- `create_backup_archive`. -/
def createBackupArchive (salt : String → Nat) (backupNamespace timestamp : String) (entries : List BackupEntry) : List (String × β) :=
  let manifest : BackupManifest :=
    { version := 1
      timestamp := timestamp
      backupNamespace := backupNamespace
      deploymentCount := entries.length
      encrypted := password.isSome }
  ("manifest.json", codec.dumpManifest manifest) :: entries.flatMap (BackupEntry.members codec password salt)

/-- What `read_backup_archive` collects. -/
structure ArchiveFiles where
  crs : Dict String ClusterDeployment := ∅
  secrets : Dict String (Dict String String) := ∅
  generations : Dict String Nat := ∅
  manifest : Option BackupManifest := none

/-- `str.endswith`. -/
def hasSuffix (suffix name : String) : Bool := suffix.toList.isSuffixOf name.toList

/-- `str.removesuffix`, where it has the suffix. -/
def removeSuffix (suffix name : String) : String := String.ofList (name.toList.take (name.toList.length - suffix.toList.length))

/-- One member of an archive is read. -/
def readMember (files : ArchiveFiles) (member : String × β) : Except String ArchiveFiles :=
  let (name, content) := member
  if name = "manifest.json" then .ok { files with manifest := some (codec.loadManifest content) }
  else if hasSuffix ".secret.enc" name then
    match password with
    | none => .error ("Archive contains encrypted secrets but no password provided (file: " ++ name ++ ")")
    | some password =>
      match codec.decrypt password content with
      | none => .error "InvalidTag"
      | some plain => .ok { files with secrets := files.secrets.set (removeSuffix ".secret.enc" name) (codec.loadSecret plain) }
  else if hasSuffix ".meta.json" name then
    .ok { files with generations := files.generations.set (removeSuffix ".meta.json" name) (codec.loadGeneration content) }
  else if hasSuffix ".secret.yaml" name then
    .ok { files with secrets := files.secrets.set (removeSuffix ".secret.yaml" name) (codec.loadSecret content) }
  else if hasSuffix ".yaml" name then .ok { files with crs := files.crs.set (removeSuffix ".yaml" name) (codec.load content) }
  else .ok files

/-- The entries that were read. -/
def ArchiveFiles.entries (files : ArchiveFiles) : List BackupEntry :=
  files.crs.entries.map fun e =>
    { name := e.1, cr := e.2, secret := files.secrets.get? e.1, generation := files.generations.get? e.1 }

/-- `read_backup_archive`: the entries. -/
def readBackupArchive (members : List (String × β)) : Except String (List BackupEntry) :=
  match members.foldlM (readMember codec password) {} with
  | .error e => .error e
  | .ok files =>
    match files.manifest with
    | none => .error "Archive missing manifest.json"
    | some manifest =>
      if manifest.version ≠ 1 then .error ("Unsupported archive version: " ++ toString manifest.version) else .ok files.entries

end Archive

/-- `conflict_mode`. -/
inductive ConflictMode where
  | skip
  | overwrite
  | overwriteIfNewer
deriving DecidableEq

/-- What has become of a deployment. -/
inductive RestoreAction where
  | created
  | updated
  | skipped
  | deleted
  | failed (error : String)

/-- `RestoreResponse`: the results by name, or the error. -/
abbrev RestoreResponse := Except String (List (String × RestoreAction))

namespace ClusterNamespace

variable (N : ClusterNamespace)

/-- `get_secret_data` of the paired Secret: the texts if there is one; it fails when they are no texts. -/
def pairedSecret (name : String) : Option (Option (Dict String String)) :=
  match N.secrets.get? (pairedSecretName name) with
  | none => some none
  | some data => (decodeSecret data).map some

/-- What is backed up of a deployment. -/
def backupEntry (d : ClusterDeployment) : Option BackupEntry :=
  (N.pairedSecret d.name).map fun secret => { name := d.name, cr := d.cleaned, secret := secret, generation := d.generation }

/-- `_perform_backup`: the archive, unless it fails. -/
def performBackup {β : Type} (codec : BackupCodec β) (password : Option String) (salt : String → Nat)
    (backupNamespace timestamp : String) : Option (List (String × β)) :=
  (N.deployments.values.mapM N.backupEntry).map (createBackupArchive codec password salt backupNamespace timestamp)

/-- `apply_deployment_crd`. The server counts the generations. -/
def applyDeployment (cr : ClusterDeployment) : ClusterNamespace :=
  let generation := match N.deployments.get? cr.name with
    | none => some 1
    | some existing => existing.generation.map (· + 1)
  { N with deployments := N.deployments.set cr.name { cr with generation := generation } }

/-- An entry is applied: the Secret first, if there is one. -/
def applyEntry (entry : BackupEntry) : ClusterNamespace :=
  match entry.secret with
  | none => N.applyDeployment entry.cr
  | some secret =>
    applyDeployment { N with secrets := N.secrets.set (pairedSecretName entry.name) (encodeSecret secret) } entry.cr

/-- The part of `_restore_entries` for one entry. -/
def restoreEntry (mode : ConflictMode) (entry : BackupEntry) : ClusterNamespace × RestoreAction :=
  match N.deployments.get? entry.name with
  | none => (N.applyEntry entry, .created)
  | some existing =>
    let existingProject := existing.specText "projectId"
    let entryProject := entry.cr.specText "projectId"
    if existingProject.any (· ≠ "") && entryProject.any (· ≠ "") && existingProject ≠ entryProject then
      (N, .failed ("Project mismatch: existing deployment belongs to project '" ++ existingProject.getD "" ++
        "', backup entry belongs to '" ++ entryProject.getD "" ++ "'"))
    else if mode = .skip then (N, .skipped)
    else if mode = .overwriteIfNewer && existing.generation.any fun n => entry.generation.any (· < n) then (N, .skipped)
    else (N.applyEntry entry, .updated)

/-- `_restore_entries`. -/
def restoreEntries (mode : ConflictMode) : ClusterNamespace → List BackupEntry → ClusterNamespace × List (String × RestoreAction)
  | N, [] => (N, [])
  | N, entry :: rest =>
    let (N, action) := N.restoreEntry mode entry
    let (N, results) := restoreEntries mode N rest
    (N, (entry.name, action) :: results)

/-- `_handle_deletions`. -/
def handleDeletions (entries : List BackupEntry) : ClusterNamespace × List (String × RestoreAction) :=
  let deleted := N.deployments.keys.filter fun name => !(entries.map BackupEntry.name).contains name
  ({ N with deployments := N.deployments.filter fun name _ => (entries.map BackupEntry.name).contains name },
    deleted.map fun name => (name, .deleted))

/-- `_perform_restore`. -/
def performRestore {β : Type} (codec : BackupCodec β) (password : Option String) (mode : ConflictMode) (includeDeletions : Bool)
    (members : List (String × β)) : ClusterNamespace × RestoreResponse :=
  match readBackupArchive codec password members with
  | .error e => (N, .error e)
  | .ok entries =>
    if includeDeletions && entries.isEmpty then
      (N, .error "Refusing to delete all deployments: backup contains zero entries")
    else
      let (N, results) := restoreEntries mode N entries
      if includeDeletions then
        let (N, deletions) := N.handleDeletions entries
        (N, .ok (results ++ deletions))
      else (N, .ok results)

/-- Whether every Secret that a deployment names is there under the name of one of them, or is not there at all, and those that go
with a deployment are texts. -/
def isPaired : Bool :=
  N.deployments.values.all fun d =>
    (N.pairedSecret d.name).isSome &&
      d.secretName.all fun secret => !N.secrets.contains secret || N.deployments.keys.any fun name => pairedSecretName name = secret

end ClusterNamespace

/-! ## Between a backup and a restore -/

/-- What happens to a deployment between a backup and a restore. -/
inductive ClusterChange where
  | spec
  /-- Metadata or status are written. -/
  | metadata
  | secret
  | deletion
  | creation
  /-- Other deployments and Secrets change. -/
  | elsewhere
deriving DecidableEq

namespace ClusterNamespace

/-- Both have the same deployment of a name, and the same Secret with it. -/
def AgreeAt (name : String) (N N' : ClusterNamespace) : Prop :=
  N'.deployments.get? name = N.deployments.get? name ∧
    N'.secrets.get? (pairedSecretName name) = N.secrets.get? (pairedSecretName name)

/-- A change as the API server carries it out. -/
inductive Changes (name : String) : ClusterChange → ClusterNamespace → ClusterNamespace → Prop where
  | spec {N : ClusterNamespace} {d : ClusterDeployment} {spec : Dict String Json} (hget : N.deployments.get? name = some d)
      (hnew : spec ≠ d.spec) :
      Changes name .spec N
        { N with deployments := N.deployments.set name { d with spec := spec, generation := d.generation.map (· + 1) } }
  | metadata {N : ClusterNamespace} {d d' : ClusterDeployment} (hget : N.deployments.get? name = some d) (hspec : d'.spec = d.spec)
      (hgeneration : d'.generation = d.generation) :
      Changes name .metadata N { N with deployments := N.deployments.set name d' }
  | secret {N : ClusterNamespace} {secrets : Dict String (Dict String ByteArray)} : Changes name .secret N { N with secrets := secrets }
  | deletion {N : ClusterNamespace} : Changes name .deletion N { N with deployments := N.deployments.erase name }
  | creation {N : ClusterNamespace} {d : ClusterDeployment} (hnone : N.deployments.get? name = none) (hfirst : d.generation = some 1) :
      Changes name .creation N { N with deployments := N.deployments.set name d }
  | elsewhere {N N' : ClusterNamespace} (hagree : AgreeAt name N N') : Changes name .elsewhere N N'

/-- The changes since a backup, in their order. -/
inductive History (name : String) : List ClusterChange → ClusterNamespace → ClusterNamespace → Prop where
  | nil {N : ClusterNamespace} : History name [] N N
  | cons {N N' N'' : ClusterNamespace} {change : ClusterChange} {changes : List ClusterChange} (hchange : Changes name change N N')
      (hrest : History name changes N' N'') : History name (change :: changes) N N''

end ClusterNamespace

end LlamaAgents
