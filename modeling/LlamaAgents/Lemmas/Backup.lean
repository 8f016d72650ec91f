import LlamaAgents.ControlPlane.Backup
import Mathlib.Data.List.Infix

/-!
# Reading what was written

The name of a deployment has no dot, so each of its members is read as what it was written for, and under its name. From there the
files of an archive are the entries that were backed up, and what is restored are these entries.
-/

namespace LlamaAgents

namespace BackupAux

open Lib (Dict Json)

variable {β : Type} {codec : BackupCodec β} {password : Option String} {salt : String → Nat} {name suffix last : String}
  {files : ArchiveFiles} {entry : BackupEntry} {entries : List BackupEntry}

/-! ## Names of members -/

theorem hasSuffix_iff : hasSuffix suffix name = true ↔ suffix.toList <:+ name.toList := List.isSuffixOf_iff_suffix

/-- A text that ends in another one has its last character. -/
theorem getLast?_of_hasSuffix (h : hasSuffix suffix name = true) (hne : suffix.toList ≠ []) :
    suffix.toList.getLast? = name.toList.getLast? := by
  obtain ⟨front, hfront⟩ := hasSuffix_iff.1 h
  rw [← hfront, List.getLast?_append_of_ne_nil _ hne]

/-- The name of a member does not end in what has another last character. -/
theorem hasSuffix_eq_false (hlast : last.toList ≠ []) (hsuffix : suffix.toList ≠ [])
    (hne : suffix.toList.getLast? ≠ last.toList.getLast?) : hasSuffix suffix (name ++ last) = false := by
  refine Bool.eq_false_iff.2 fun h => hne ?_
  rw [getLast?_of_hasSuffix h hsuffix, String.toList_append, List.getLast?_append_of_ne_nil _ hlast]

theorem hasSuffix_append : hasSuffix last (name ++ last) = true := by
  rw [hasSuffix_iff, String.toList_append]
  exact List.suffix_append _ _

theorem removeSuffix_append : removeSuffix last (name ++ last) = name := by
  rw [removeSuffix, String.toList_append, List.length_append, Nat.add_sub_cancel, List.take_left, String.ofList_toList]

/-- The name of a resource is not taken for that of a Secret. -/
theorem hasSuffix_secret_yaml (hname : '.' ∉ name.toList) : hasSuffix ".secret.yaml" (name ++ ".yaml") = false := by
  refine Bool.eq_false_iff.2 fun h => hname ?_
  rw [hasSuffix_iff, String.toList_append] at h
  have hsplit : ".secret".toList ++ ".yaml".toList <:+ name.toList ++ ".yaml".toList := h
  have hfront : ".secret".toList <:+ name.toList := ((List.suffix_append_inj_of_length_eq rfl).1 hsplit).1
  exact hfront.subset (by decide)

/-- No member of a deployment is the manifest. -/
theorem ne_manifest (h : hasSuffix last "manifest.json" = false) : name ++ last ≠ "manifest.json" := by
  intro heq
  rw [← heq, hasSuffix_append] at h
  cases h

/-! ## Reading members -/

theorem readMember_cr (hname : '.' ∉ name.toList) (content : β) :
    readMember codec password files (name ++ ".yaml", content) = .ok { files with crs := files.crs.set name (codec.load content) } := by
  have hmanifest : name ++ ".yaml" ≠ "manifest.json" := ne_manifest (by decide)
  have henc : hasSuffix ".secret.enc" (name ++ ".yaml") = false := hasSuffix_eq_false (by decide) (by decide) (by decide)
  have hmeta : hasSuffix ".meta.json" (name ++ ".yaml") = false := hasSuffix_eq_false (by decide) (by decide) (by decide)
  simp only [readMember, if_neg hmanifest, henc, hmeta, hasSuffix_secret_yaml hname, hasSuffix_append, removeSuffix_append,
    if_true, Bool.false_eq_true, if_false]

theorem readMember_encrypted {key : String} {content plain : β} (hplain : codec.decrypt key content = some plain) :
    readMember codec (some key) files (name ++ ".secret.enc", content) =
      .ok { files with secrets := files.secrets.set name (codec.loadSecret plain) } := by
  have hmanifest : name ++ ".secret.enc" ≠ "manifest.json" := ne_manifest (by decide)
  simp only [readMember, if_neg hmanifest, hasSuffix_append, removeSuffix_append, if_true, hplain]

theorem readMember_secret (content : β) :
    readMember codec password files (name ++ ".secret.yaml", content) =
      .ok { files with secrets := files.secrets.set name (codec.loadSecret content) } := by
  have hmanifest : name ++ ".secret.yaml" ≠ "manifest.json" := ne_manifest (by decide)
  have henc : hasSuffix ".secret.enc" (name ++ ".secret.yaml") = false := hasSuffix_eq_false (by decide) (by decide) (by decide)
  have hmeta : hasSuffix ".meta.json" (name ++ ".secret.yaml") = false := hasSuffix_eq_false (by decide) (by decide) (by decide)
  simp only [readMember, if_neg hmanifest, henc, hmeta, hasSuffix_append, removeSuffix_append, if_true, Bool.false_eq_true, if_false]

theorem readMember_generation (content : β) :
    readMember codec password files (name ++ ".meta.json", content) =
      .ok { files with generations := files.generations.set name (codec.loadGeneration content) } := by
  have hmanifest : name ++ ".meta.json" ≠ "manifest.json" := ne_manifest (by decide)
  have henc : hasSuffix ".secret.enc" (name ++ ".meta.json") = false := hasSuffix_eq_false (by decide) (by decide) (by decide)
  simp only [readMember, if_neg hmanifest, henc, hasSuffix_append, removeSuffix_append, if_true, Bool.false_eq_true, if_false]

/-- The files with those of an entry. -/
def added (files : ArchiveFiles) (entry : BackupEntry) : ArchiveFiles :=
  { files with
    crs := files.crs.set entry.name entry.cr
    secrets := entry.secret.elim files.secrets (files.secrets.set entry.name)
    generations := entry.generation.elim files.generations (files.generations.set entry.name) }

theorem foldlM_secretMembers : (entry.secretMembers codec password salt).foldlM (readMember codec password) files =
    .ok { files with secrets := entry.secret.elim files.secrets (files.secrets.set entry.name) } := by
  unfold BackupEntry.secretMembers
  cases entry.secret with
  | none => rfl
  | some data =>
    dsimp only
    split
    · case _ hpassword =>
      obtain ⟨key, rfl, -⟩ := (Option.any_eq_true _ _).1 hpassword
      rw [List.foldlM_cons, Option.getD_some, readMember_encrypted (codec.decrypt_encrypt _ _ _), codec.loadSecret_dump]
      rfl
    · rw [List.foldlM_cons, readMember_secret, codec.loadSecret_dump]
      rfl

theorem foldlM_generationMembers : (entry.generationMembers codec).foldlM (readMember codec password) files =
    .ok { files with generations := entry.generation.elim files.generations (files.generations.set entry.name) } := by
  unfold BackupEntry.generationMembers
  cases entry.generation with
  | none => rfl
  | some n =>
    dsimp only
    rw [List.foldlM_cons, readMember_generation, codec.loadGeneration_dump]
    rfl

/-- The members of an entry are read as the entry. -/
theorem foldlM_members (hname : '.' ∉ entry.name.toList) :
    (entry.members codec password salt).foldlM (readMember codec password) files = .ok (added files entry) := by
  rw [BackupEntry.members, List.foldlM_cons, readMember_cr hname, codec.load_dump]
  change List.foldlM _ _ (_ ++ _) = _
  rw [List.foldlM_append, foldlM_secretMembers]
  exact foldlM_generationMembers

/-- The members of all entries are read as the entries. -/
theorem foldlM_entries (hnames : ∀ entry ∈ entries, '.' ∉ entry.name.toList) :
    (entries.flatMap (BackupEntry.members codec password salt)).foldlM (readMember codec password) files =
      .ok (entries.foldl added files) := by
  induction entries generalizing files with
  | nil => rfl
  | cons entry rest ih =>
    obtain ⟨hname, hrest⟩ := List.forall_mem_cons.1 hnames
    rw [List.flatMap_cons, List.foldlM_append, foldlM_members hname, List.foldl_cons]
    exact ih hrest

/-! ## The entries of the files -/

/-- What the files of some entries have: the resources in order, and for every name what its entry has. -/
structure Collected (files : ArchiveFiles) (entries : List BackupEntry) : Prop where
  crs : files.crs.entries = entries.map fun e => (e.name, e.cr)
  secrets : ∀ name, files.secrets.get? name = (entries.find? fun e => e.name = name).bind BackupEntry.secret
  generations : ∀ name, files.generations.get? name = (entries.find? fun e => e.name = name).bind BackupEntry.generation

/-- Setting an optional value of a new entry. -/
theorem get?_elim_set {ν : Type} {d : Dict String ν} {f : BackupEntry → Option ν} (hnew : entry.name ∉ entries.map BackupEntry.name)
    (hd : ∀ name, d.get? name = (entries.find? fun e => e.name = name).bind f) (name : String) :
    ((f entry).elim d (d.set entry.name)).get? name = ((entries ++ [entry]).find? fun e => e.name = name).bind f := by
  rw [List.find?_append]
  by_cases hname : entry.name = name
  · have hnone : (entries.find? fun e => e.name = name) = none := by
      refine List.find?_eq_none.2 fun e he h => hnew ?_
      rw [hname, ← of_decide_eq_true h]
      exact List.mem_map_of_mem he
    rw [hnone, Option.none_or, List.find?_cons_of_pos (by simp [hname]), Option.bind_some]
    cases hf : f entry with
    | none => rw [Option.elim_none, hd, hnone, Option.bind_none]
    | some v => rw [Option.elim_some, hname, Dict.get?_set_self]
  · have hlast : ([entry].find? fun e => e.name = name) = none := by
      simp [hname]
    rw [hlast, Option.or_none, ← hd]
    cases f entry with
    | none => rfl
    | some v => exact Dict.get?_set_ne _ _ fun h => hname h.symm

theorem Collected.added (h : Collected files entries) (hnew : entry.name ∉ entries.map BackupEntry.name) :
    Collected (added files entry) (entries ++ [entry]) where
  crs := by
    have hkeys : entry.name ∉ files.crs.entries.map Prod.fst := by
      rw [h.crs, List.map_map]
      exact hnew
    change Dict.put _ _ _ = _
    rw [Dict.put_of_notMem _ hkeys, h.crs, List.map_append]
    rfl
  secrets := get?_elim_set hnew h.secrets
  generations := get?_elim_set hnew h.generations

/-- The files of entries with different names are collected from them. -/
theorem collected_foldl (before : List BackupEntry) (h : Collected files before)
    (hnodup : ((before ++ entries).map BackupEntry.name).Nodup) : Collected (entries.foldl added files) (before ++ entries) := by
  induction entries generalizing files before with
  | nil =>
    rw [List.append_nil]
    exact h
  | cons entry rest ih =>
    have hsplit : before ++ entry :: rest = before ++ [entry] ++ rest := by rw [List.append_assoc, List.singleton_append]
    rw [hsplit] at hnodup ⊢
    refine ih (before ++ [entry]) (h.added fun hmem => ?_) hnodup
    rw [List.map_append, List.map_append] at hnodup
    have hdisjoint := (List.nodup_append.1 (List.nodup_append.1 hnodup).1).2.2
    exact hdisjoint _ hmem _ (List.mem_singleton_self _) rfl

/-- Entries leave the manifest. -/
theorem manifest_foldl : (entries.foldl added files).manifest = files.manifest := by
  induction entries generalizing files with
  | nil => rfl
  | cons entry rest ih => exact ih

/-- An entry is found by its name when no two have one. -/
theorem find?_name (hnodup : (entries.map BackupEntry.name).Nodup) (hmem : entry ∈ entries) :
    (entries.find? fun e => e.name = entry.name) = some entry := by
  induction entries with
  | nil => cases hmem
  | cons e rest ih =>
    rw [List.map_cons, List.nodup_cons] at hnodup
    rcases List.mem_cons.1 hmem with rfl | hmem
    · exact List.find?_cons_of_pos (by simp)
    · have hne : e.name ≠ entry.name := fun h => hnodup.1 (h ▸ List.mem_map_of_mem hmem)
      rw [List.find?_cons_of_neg (by simp [hne])]
      exact ih hnodup.2 hmem

/-- The entries of collected files are those that they were collected from. -/
theorem Collected.entries_eq (h : Collected files entries) (hnodup : (entries.map BackupEntry.name).Nodup) : files.entries = entries := by
  rw [ArchiveFiles.entries, h.crs, List.map_map]
  refine (List.map_congr_left fun entry hmem => ?_).trans (List.map_id _)
  rw [Function.comp_apply, h.secrets, h.generations, find?_name hnodup hmem]
  rfl

/-- An archive is read as the entries that it was made of. -/
theorem readBackupArchive_create {backupNamespace timestamp : String} (hnames : ∀ entry ∈ entries, '.' ∉ entry.name.toList)
    (hnodup : (entries.map BackupEntry.name).Nodup) :
    readBackupArchive codec password (createBackupArchive codec password salt backupNamespace timestamp entries) = .ok entries := by
  let manifest : BackupManifest := ⟨1, timestamp, backupNamespace, entries.length, password.isSome⟩
  have hmanifest : readMember codec password {} ("manifest.json", codec.dumpManifest manifest) =
      .ok { manifest := some manifest } := by
    simp only [readMember, if_true, codec.loadManifest_dump]
  have hfold : (createBackupArchive codec password salt backupNamespace timestamp entries).foldlM (readMember codec password) {} =
      .ok (entries.foldl added { manifest := some manifest }) := by
    rw [createBackupArchive, List.foldlM_cons, hmanifest]
    exact foldlM_entries hnames
  have hcollected : Collected (entries.foldl added { manifest := some manifest }) entries :=
    collected_foldl [] ⟨rfl, fun _ => rfl, fun _ => rfl⟩ hnodup
  rw [readBackupArchive, hfold]
  dsimp only
  rw [manifest_foldl]
  exact congrArg Except.ok (hcollected.entries_eq hnodup)

/-! ## Backing up -/

/-- A Secret with texts is restored as it was. -/
theorem encode_decode {data : Dict String ByteArray} {texts : Dict String String} (h : decodeSecret data = some texts) :
    encodeSecret texts = data := by
  rw [decodeSecret] at h
  split at h
  · case _ hall =>
    cases h
    refine Dict.ext_entries ?_
    change ((data.entries.map fun e => (e.1, (String.fromUTF8? e.2).getD "")).map fun e => (e.1, e.2.toUTF8)) = data.entries
    rw [List.map_map]
    refine (List.map_congr_left fun e he => ?_).trans (List.map_id _)
    have hsome := List.all_eq_true.1 hall e.2 (List.mem_map_of_mem he)
    obtain ⟨text, htext⟩ := Option.isSome_iff_exists.1 hsome
    have hbytes : text.toUTF8 = e.2 := by
      unfold String.fromUTF8? at htext
      split at htext
      · cases htext
        rfl
      · cases htext
    rw [Function.comp_apply, htext, Option.getD_some, hbytes]
    rfl
  · cases h

variable {N : ClusterNamespace} {mode : ConflictMode}

/-- What is backed up of a deployment whose Secret has texts. -/
def entryOf (N : ClusterNamespace) (d : ClusterDeployment) : BackupEntry :=
  { name := d.name, cr := d.cleaned, secret := (N.pairedSecret d.name).getD none, generation := d.generation }

theorem mapM_backupEntry {l : List ClusterDeployment} (h : ∀ d ∈ l, (N.pairedSecret d.name).isSome = true) :
    l.mapM N.backupEntry = some (l.map (entryOf N)) := by
  refine Lib.mapM_eq_some_map fun d hd => ?_
  obtain ⟨secret, hsecret⟩ := Option.isSome_iff_exists.1 (h d hd)
  rw [ClusterNamespace.backupEntry, entryOf, hsecret]
  rfl

/-- Cleaning a resource keeps the annotations that are not the system's. -/
theorem cleaned_userAnnotations (d : ClusterDeployment) : d.cleaned.userAnnotations = d.userAnnotations := by
  have hidem : d.userAnnotations.filter (fun key _ => ! ClusterDeployment.isSystemAnnotation key) = d.userAnnotations := by
    refine Dict.ext_entries ?_
    change ((List.filter _ _).filter _) = List.filter _ _
    rw [List.filter_filter]
    simp only [Bool.and_self]
  rw [ClusterDeployment.userAnnotations, ClusterDeployment.cleaned, ClusterDeployment.cleanedAnnotations]
  split
  · case _ hempty => exact (Dict.ext_entries (List.isEmpty_iff.1 hempty)).symm
  · exact hidem

/-! ## Restoring -/

theorem pairedSecretName_inj {name name' : String} (h : pairedSecretName name = pairedSecretName name') : name = name' := by
  have hlist := congrArg String.toList h
  rw [pairedSecretName, pairedSecretName, String.toList_append, String.toList_append] at hlist
  exact String.toList_inj.1 (List.append_cancel_right hlist)

/-- The resource of a new entry. -/
def createdCr (entry : BackupEntry) : ClusterDeployment := { entry.cr with generation := some 1 }

/-- A new entry is created. -/
theorem restoreEntry_new (hnew : N.deployments.get? entry.name = none) (hcr : entry.cr.name = entry.name) :
    (N.restoreEntry mode entry).1.deployments.entries = N.deployments.entries ++ [(entry.name, createdCr entry)] ∧
      (N.restoreEntry mode entry).1.secrets =
        entry.secret.elim N.secrets fun secret => N.secrets.set (pairedSecretName entry.name) (encodeSecret secret) := by
  have happly : ∀ M : ClusterNamespace, M.deployments = N.deployments →
      (M.applyDeployment entry.cr).deployments.entries = N.deployments.entries ++ [(entry.name, createdCr entry)] := by
    intro M hM
    have hnone : N.deployments.get? entry.cr.name = none := by rw [hcr, hnew]
    rw [ClusterNamespace.applyDeployment, hM, hnone]
    refine (Dict.put_of_notMem _ ((Dict.get?_eq_none_iff _ _).1 hnone)).trans ?_
    exact congrArg (fun name => N.deployments.entries ++ [(name, createdCr entry)]) hcr
  rw [ClusterNamespace.restoreEntry, hnew]
  dsimp only
  rw [ClusterNamespace.applyEntry]
  cases entry.secret with
  | none => exact ⟨happly N rfl, rfl⟩
  | some secret => exact ⟨happly _ rfl, rfl⟩

/-- The names after a new entry. -/
theorem keys_restoreEntry (hnew : entry.name ∉ N.deployments.keys) (hcr : entry.cr.name = entry.name) :
    (N.restoreEntry mode entry).1.deployments.keys = N.deployments.keys ++ [entry.name] := by
  rw [Dict.keys, (restoreEntry_new ((Dict.get?_eq_none_iff _ _).2 hnew) hcr).1, List.map_append]
  rfl

/-- Names that are new one after the other. -/
theorem nodup_step {keys names : List String} {name : String} (h : (keys ++ name :: names).Nodup) :
    name ∉ keys ∧ name ∉ names ∧ (keys ++ [name] ++ names).Nodup := by
  rw [List.append_assoc, List.singleton_append]
  obtain ⟨-, hnames, hdisjoint⟩ := List.nodup_append.1 h
  exact ⟨fun hmem => hdisjoint _ hmem _ List.mem_cons_self rfl, (List.nodup_cons.1 hnames).1, h⟩

/-- New entries are created in their order. -/
theorem restoreEntries_deployments (hcr : ∀ entry ∈ entries, entry.cr.name = entry.name)
    (hnodup : (N.deployments.keys ++ entries.map BackupEntry.name).Nodup) :
    (N.restoreEntries mode entries).1.deployments.entries =
      N.deployments.entries ++ entries.map fun e => (e.name, createdCr e) := by
  induction entries generalizing N with
  | nil => exact (List.append_nil _).symm
  | cons entry rest ih =>
    obtain ⟨hhead, hrest⟩ := List.forall_mem_cons.1 hcr
    obtain ⟨hnew, -, hnodup⟩ := nodup_step hnodup
    change ((N.restoreEntry mode entry).1.restoreEntries mode rest).1.deployments.entries = _
    rw [← keys_restoreEntry hnew hhead] at hnodup
    rw [ih hrest hnodup, (restoreEntry_new ((Dict.get?_eq_none_iff _ _).2 hnew) hhead).1, List.append_assoc, List.map_cons]
    rfl

/-- A Secret stays that does not go with a new entry. -/
theorem restoreEntries_other {secret : String} (hcr : ∀ entry ∈ entries, entry.cr.name = entry.name)
    (hnodup : (N.deployments.keys ++ entries.map BackupEntry.name).Nodup)
    (hother : ∀ entry ∈ entries, pairedSecretName entry.name ≠ secret) :
    (N.restoreEntries mode entries).1.secrets.get? secret = N.secrets.get? secret := by
  induction entries generalizing N with
  | nil => rfl
  | cons entry rest ih =>
    obtain ⟨hhead, hrest⟩ := List.forall_mem_cons.1 hcr
    obtain ⟨hne, hother⟩ := List.forall_mem_cons.1 hother
    obtain ⟨hnew, -, hnodup⟩ := nodup_step hnodup
    change ((N.restoreEntry mode entry).1.restoreEntries mode rest).1.secrets.get? secret = _
    rw [← keys_restoreEntry hnew hhead] at hnodup
    rw [ih hrest hnodup hother, (restoreEntry_new ((Dict.get?_eq_none_iff _ _).2 hnew) hhead).2]
    cases entry.secret with
    | none => rfl
    | some data => exact Dict.get?_set_ne _ _ hne.symm

/-- The Secret of a new entry is restored. -/
theorem restoreEntries_secret {data : Dict String String} (hcr : ∀ entry ∈ entries, entry.cr.name = entry.name)
    (hnodup : (N.deployments.keys ++ entries.map BackupEntry.name).Nodup) (hmem : entry ∈ entries) (hdata : entry.secret = some data) :
    (N.restoreEntries mode entries).1.secrets.get? (pairedSecretName entry.name) = some (encodeSecret data) := by
  induction entries generalizing N with
  | nil => cases hmem
  | cons head rest ih =>
    obtain ⟨hhead, hrest⟩ := List.forall_mem_cons.1 hcr
    obtain ⟨hnew, hlater, hnodup⟩ := nodup_step hnodup
    change ((N.restoreEntry mode head).1.restoreEntries mode rest).1.secrets.get? _ = _
    rw [← keys_restoreEntry hnew hhead] at hnodup
    rcases List.mem_cons.1 hmem with rfl | hmem
    · have hother : ∀ e ∈ rest, pairedSecretName e.name ≠ pairedSecretName entry.name := fun e he h =>
        hlater (pairedSecretName_inj h ▸ List.mem_map_of_mem he)
      rw [restoreEntries_other hrest hnodup hother, (restoreEntry_new ((Dict.get?_eq_none_iff _ _).2 hnew) hhead).2, hdata]
      exact Dict.get?_set_self _ _ _
    · exact ih hrest hnodup hmem

/-- Nothing is deleted that is in the backup. -/
theorem handleDeletions_eq (h : ∀ name ∈ N.deployments.keys, name ∈ entries.map BackupEntry.name) :
    (N.handleDeletions entries).1 = N := by
  have hfilter : N.deployments.filter (fun name _ => (entries.map BackupEntry.name).contains name) = N.deployments := by
    refine Dict.ext_entries (List.filter_eq_self.2 fun e he => ?_)
    exact List.contains_iff_mem.2 (h e.1 (List.mem_map_of_mem he))
  rw [ClusterNamespace.handleDeletions, hfilter]

/-- Restoring entries into an empty namespace creates them, with or without deletions. -/
theorem performRestore_empty {members : List (String × β)} {includeDeletions : Bool}
    (hread : readBackupArchive codec password members = .ok entries) (hcr : ∀ entry ∈ entries, entry.cr.name = entry.name)
    (hnodup : (entries.map BackupEntry.name).Nodup) :
    (ClusterNamespace.performRestore {} codec password mode includeDeletions members).1 =
      (ClusterNamespace.restoreEntries mode {} entries).1 := by
  rw [ClusterNamespace.performRestore, hread]
  dsimp only
  split
  · case _ hempty =>
    rw [List.isEmpty_iff.1 (Bool.and_eq_true_iff.1 hempty).2]
    rfl
  · split
    · have hcreated : (ClusterNamespace.restoreEntries mode {} entries).1.deployments.entries =
          [] ++ entries.map fun e => (e.name, createdCr e) := restoreEntries_deployments (N := {}) hcr hnodup
      refine handleDeletions_eq fun name hname => ?_
      rw [Dict.keys, hcreated, List.nil_append, List.map_map] at hname
      exact hname
    · rfl

end BackupAux

end LlamaAgents
