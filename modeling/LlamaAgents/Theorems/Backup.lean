import LlamaAgents.Lemmas.Backup

/-!
# Restored backups

The backup of a namespace, restored into an empty one, gives back its deployments, with their specs, labels and annotations, and the
Secrets that they name, exactly when these have the names that go with deployments and hold texts.
-/

namespace LlamaAgents

open Lib (Dict Json)

/-- A namespace has exactly the deployments of another one, each with its name, spec, labels and user annotations, and the Secrets that
they name with the same contents. -/
structure IsRestored (N N' : ClusterNamespace) : Prop where
  keys : N'.deployments.keys = N.deployments.keys
  deployments : ∀ name d, N.deployments.get? name = some d → ∃ d', N'.deployments.get? name = some d' ∧ d'.name = d.name ∧
    d'.spec = d.spec ∧ d'.labels = d.labels ∧ d'.userAnnotations = d.userAnnotations
  secrets : ∀ name d secret data, N.deployments.get? name = some d → d.secretName = some secret → N.secrets.get? secret = some data →
    N'.secrets.get? secret = some data

namespace BackupAux

variable {N : ClusterNamespace}

theorem dot_notMem_label {name : String} (h : isDns1035Label name = true) : '.' ∉ name.toList := by
  intro hmem
  have hall := List.all_eq_true.1 (Bool.and_eq_true_iff.1 h).2 _ hmem
  revert hall
  decide

/-- The names of what is backed up are the keys. -/
theorem names_entryOf (hnames : ∀ e ∈ N.deployments.entries, e.2.name = e.1) :
    (N.deployments.values.map (entryOf N)).map BackupEntry.name = N.deployments.keys := by
  rw [List.map_map, Dict.values, List.map_map, Dict.keys]
  exact List.map_congr_left fun e he => hnames e he

/-- What `isPaired` says of one deployment. -/
theorem isPaired_get (hpaired : N.isPaired = true) {d : ClusterDeployment} (hmem : d ∈ N.deployments.values) :
    (N.pairedSecret d.name).isSome = true ∧
      ∀ secret, d.secretName = some secret → N.secrets.contains secret = true →
        ∃ name ∈ N.deployments.keys, pairedSecretName name = secret := by
  obtain ⟨hsome, hall⟩ := Bool.and_eq_true_iff.1 (List.all_eq_true.1 hpaired d hmem)
  refine ⟨hsome, fun secret hsecret hcontains => ?_⟩
  rw [hsecret, Option.all_some, hcontains, Bool.not_true, Bool.false_or] at hall
  obtain ⟨name, hname, heq⟩ := List.any_eq_true.1 hall
  exact ⟨name, hname, of_decide_eq_true heq⟩

/-- The Secret that goes with a deployment is backed up with its contents. -/
theorem entryOf_secret {d : ClusterDeployment} {data : Dict String ByteArray} (hsome : (N.pairedSecret d.name).isSome = true)
    (hdata : N.secrets.get? (pairedSecretName d.name) = some data) :
    ∃ texts, (entryOf N d).secret = some texts ∧ encodeSecret texts = data := by
  have hpaired : N.pairedSecret d.name = (decodeSecret data).map some := by rw [ClusterNamespace.pairedSecret, hdata]
  rw [hpaired, Option.isSome_map] at hsome
  obtain ⟨texts, htexts⟩ := Option.isSome_iff_exists.1 hsome
  refine ⟨texts, ?_, encode_decode htexts⟩
  rw [entryOf, hpaired, htexts]
  rfl

/-- What `isPaired` asks of every deployment. -/
theorem isPaired_of (hsome : ∀ d ∈ N.deployments.values, (N.pairedSecret d.name).isSome = true)
    (hnamed : ∀ d ∈ N.deployments.values, ∀ secret data, d.secretName = some secret → N.secrets.get? secret = some data →
      ∃ name ∈ N.deployments.keys, pairedSecretName name = secret) : N.isPaired = true := by
  refine List.all_eq_true.2 fun d hd => Bool.and_eq_true_iff.2 ⟨hsome d hd, ?_⟩
  cases hsecret : d.secretName with
  | none => rfl
  | some secret =>
    rw [Option.all_some, Bool.or_eq_true, Bool.not_eq_true', Dict.contains]
    cases hdata : N.secrets.get? secret with
    | none => exact .inl rfl
    | some data =>
      obtain ⟨name, hname, heq⟩ := hnamed d hd secret data hsecret hdata
      exact .inr (List.any_eq_true.2 ⟨name, hname, decide_eq_true heq⟩)

variable {β : Type} {codec : BackupCodec β} {password : Option String} {salt : String → Nat} {backupNamespace timestamp : String}
  {mode : ConflictMode} {includeDeletions : Bool}

/-- A backup that succeeds has found texts in every Secret that goes with a deployment. -/
theorem pairedSecret_of_performBackup {archive : List (String × β)}
    (h : N.performBackup codec password salt backupNamespace timestamp = some archive) :
    ∀ d ∈ N.deployments.values, (N.pairedSecret d.name).isSome = true := by
  obtain ⟨entries, hentries, -⟩ := Option.map_eq_some_iff.1 h
  revert entries
  generalize N.deployments.values = l
  induction l with
  | nil => exact fun _ _ => List.forall_mem_nil _
  | cons d l ih =>
    intro entries hentries
    rw [List.mapM_cons] at hentries
    obtain ⟨entry, hentry, hrest⟩ := Option.bind_eq_some_iff.1 hentries
    obtain ⟨rest, hrest, -⟩ := Option.bind_eq_some_iff.1 hrest
    obtain ⟨secret, hsecret, -⟩ := Option.map_eq_some_iff.1 hentry
    exact List.forall_mem_cons.2 ⟨Option.isSome_of_eq_some hsecret, ih rest hrest⟩

section Restored

variable (hnames : ∀ e ∈ N.deployments.entries, e.2.name = e.1 ∧ isDns1035Label e.1 = true)
  (hsome : ∀ d ∈ N.deployments.values, (N.pairedSecret d.name).isSome = true)

include hnames in
/-- The entries of a backup: their names, which are those of their resources. -/
theorem entryOf_names : (N.deployments.values.map (entryOf N)).map BackupEntry.name = N.deployments.keys ∧
    (∀ entry ∈ N.deployments.values.map (entryOf N), entry.cr.name = entry.name) ∧
    ∀ entry ∈ N.deployments.values.map (entryOf N), '.' ∉ entry.name.toList := by
  refine ⟨names_entryOf fun e he => (hnames e he).1, fun entry hentry => ?_, fun entry hentry => ?_⟩
  · obtain ⟨d, -, rfl⟩ := List.mem_map.1 hentry
    rfl
  · obtain ⟨d, hd, rfl⟩ := List.mem_map.1 hentry
    obtain ⟨e, he, rfl⟩ := List.mem_map.1 hd
    have hlabel := (hnames e he).2
    rw [← (hnames e he).1] at hlabel
    exact dot_notMem_label hlabel

include hnames hsome in
/-- The backup succeeds, and restoring it into an empty namespace restores its entries one by one. -/
theorem performRestore_backup : ∃ archive, N.performBackup codec password salt backupNamespace timestamp = some archive ∧
    (ClusterNamespace.performRestore {} codec password mode includeDeletions archive).1 =
      (ClusterNamespace.restoreEntries mode {} (N.deployments.values.map (entryOf N))).1 := by
  obtain ⟨hkeys, hcr, hdots⟩ := entryOf_names hnames
  have hnodup : ((N.deployments.values.map (entryOf N)).map BackupEntry.name).Nodup := hkeys ▸ N.deployments.nodup
  refine ⟨createBackupArchive codec password salt backupNamespace timestamp (N.deployments.values.map (entryOf N)), ?_,
    performRestore_empty (readBackupArchive_create hdots hnodup) hcr hnodup⟩
  rw [ClusterNamespace.performBackup, mapM_backupEntry hsome]
  rfl

include hnames in
/-- The deployments come back. -/
theorem restoreEntries_isRestored (hsecrets : ∀ name d secret data, N.deployments.get? name = some d → d.secretName = some secret →
    N.secrets.get? secret = some data →
    (ClusterNamespace.restoreEntries mode {} (N.deployments.values.map (entryOf N))).1.secrets.get? secret = some data) :
    IsRestored N (ClusterNamespace.restoreEntries mode {} (N.deployments.values.map (entryOf N))).1 := by
  obtain ⟨hkeys, hcr, -⟩ := entryOf_names hnames
  have hnodup : ((N.deployments.values.map (entryOf N)).map BackupEntry.name).Nodup := hkeys ▸ N.deployments.nodup
  have hcreated : (ClusterNamespace.restoreEntries mode {} (N.deployments.values.map (entryOf N))).1.deployments.entries =
      [] ++ (N.deployments.values.map (entryOf N)).map fun e => (e.name, createdCr e) :=
    restoreEntries_deployments (N := {}) hcr hnodup
  refine ⟨?_, fun name d hget => ?_, hsecrets⟩
  · rw [← hkeys, Dict.keys, hcreated, List.nil_append, List.map_map]
    rfl
  · have he : (name, d) ∈ N.deployments.entries := (Dict.get?_eq_some_iff _ _ _).1 hget
    have hentry : entryOf N d ∈ N.deployments.values.map (entryOf N) := List.mem_map_of_mem (List.mem_map_of_mem he)
    have hname : d.name = name := (hnames _ he).1
    refine ⟨createdCr (entryOf N d), (Dict.get?_eq_some_iff _ _ _).2 ?_, rfl, rfl, rfl, cleaned_userAnnotations d⟩
    rw [hcreated, List.nil_append]
    exact List.mem_map.2 ⟨entryOf N d, hentry, by rw [← hname]; rfl⟩

include hnames hsome in
/-- The Secrets that are there afterwards are those that go with deployments, with their contents. -/
theorem restoreEntries_secrets (secret : String) :
    (∀ name ∈ N.deployments.keys, pairedSecretName name = secret →
      ∀ data, N.secrets.get? secret = some data →
        (ClusterNamespace.restoreEntries mode {} (N.deployments.values.map (entryOf N))).1.secrets.get? secret = some data) ∧
    ((∀ name ∈ N.deployments.keys, pairedSecretName name ≠ secret) →
      (ClusterNamespace.restoreEntries mode {} (N.deployments.values.map (entryOf N))).1.secrets.get? secret = none) := by
  obtain ⟨hkeys, hcr, -⟩ := entryOf_names hnames
  have hnodup : ((N.deployments.values.map (entryOf N)).map BackupEntry.name).Nodup := hkeys ▸ N.deployments.nodup
  refine ⟨?_, fun hother => ?_⟩
  · rintro name hname rfl data hdata
    obtain ⟨e, he, rfl⟩ := List.mem_map.1 hname
    have hmem : e.2 ∈ N.deployments.values := List.mem_map_of_mem he
    rw [← (hnames e he).1] at hdata ⊢
    obtain ⟨texts, htexts, hencode⟩ := entryOf_secret (hsome _ hmem) hdata
    rw [← hencode]
    exact restoreEntries_secret (N := {}) hcr hnodup (List.mem_map_of_mem hmem) htexts
  · exact restoreEntries_other (N := {}) hcr hnodup fun entry hentry =>
      hother _ (hkeys ▸ List.mem_map_of_mem hentry)

end Restored

end BackupAux

open BackupAux

namespace BackupWitness

/-- Documents that have not been turned into texts. -/
inductive Document where
  | resource (d : ClusterDeployment)
  | secret (texts : Dict String String)
  | generation (n : Nat)
  | manifest (m : BackupManifest)
  | sealed (password : String) (plain : Document)

/-- The codec of such documents. -/
def codec : BackupCodec Document where
  dump := .resource
  load document := match document with
    | .resource d => d
    | _ => { name := "", resourceNamespace := "" }
  dumpSecret := .secret
  loadSecret document := match document with
    | .secret texts => texts
    | _ => ∅
  dumpGeneration := .generation
  loadGeneration document := match document with
    | .generation n => n
    | _ => 0
  dumpManifest := .manifest
  loadManifest document := match document with
    | .manifest m => m
    | _ => ⟨0, "", "", 0, false⟩
  encrypt _ := .sealed
  decrypt password document := match document with
    | .sealed given plain => if given = password then some plain else none
    | _ => none
  load_dump _ := rfl
  loadSecret_dump _ := rfl
  loadGeneration_dump _ := rfl
  loadManifest_dump _ := rfl
  decrypt_encrypt _ _ _ := if_pos rfl

/-- A deployment that names a Secret. -/
def app (secret : String) : ClusterDeployment :=
  { name := "app", resourceNamespace := "llama", generation := some 3, spec := Dict.empty.set "secretName" (.str secret) }

/-- The deployment and the Secret that it names. -/
def named (secret : String) (bytes : List UInt8) : ClusterNamespace :=
  { deployments := Dict.empty.set "app" (app secret), secrets := Dict.empty.set secret (Dict.empty.set "KEY" ⟨bytes.toArray⟩) }

end BackupWitness

open BackupWitness

end LlamaAgents
