import LlamaAgents.Lemmas.Backup

/-!
# Restoring over newer work

Between a backup and a restore a deployment goes through changes. The server counts those of the spec, not those of the Secret, and
it starts over for a resource that is created again; the restore compares the counts. So the work that it leaves alone is that on a
deployment that is still the one of the backup and whose spec was changed.
-/

namespace LlamaAgents

open Lib (Dict)

namespace RestoreConflictsAux

open ClusterNamespace

variable {N N' N'' : ClusterNamespace} {name : String} {entry : BackupEntry} {mode : ConflictMode}

theorem agreeAt_trans (h : AgreeAt name N N') (h' : AgreeAt name N' N'') : AgreeAt name N N'' :=
  ⟨h'.1.trans h.1, h'.2.trans h.2⟩

/-! ## The generation counts the changes of the spec -/

/-- A deployment of a generation. -/
def HasGeneration (name : String) (n : Nat) (N : ClusterNamespace) : Prop :=
  ∃ d, N.deployments.get? name = some d ∧ d.generation = some n

/-- Without a deletion the generation stays, and a change of the spec raises it. -/
theorem generation_step {change : ClusterChange} {n : Nat} (h : Changes name change N N') (hkept : change ≠ .deletion)
    (hn : HasGeneration name n N) : ∃ n', HasGeneration name n' N' ∧ n ≤ n' ∧ (change = .spec → n < n') := by
  obtain ⟨d, hd, hgeneration⟩ := hn
  cases h with
  | spec hget hnew =>
    cases hd.symm.trans hget
    exact ⟨n + 1, ⟨_, Dict.get?_set_self _ _ _, congrArg (Option.map (· + 1)) hgeneration⟩, Nat.le_succ n, fun _ => Nat.lt_succ_self n⟩
  | metadata hget hspec hsame =>
    cases hd.symm.trans hget
    exact ⟨n, ⟨_, Dict.get?_set_self _ _ _, hsame.trans hgeneration⟩, Nat.le_refl n, nofun⟩
  | secret => exact ⟨n, ⟨d, hd, hgeneration⟩, Nat.le_refl n, nofun⟩
  | deletion => exact absurd rfl hkept
  | creation hnone hfirst => exact absurd (hd.symm.trans hnone) nofun
  | elsewhere hagree => exact ⟨n, ⟨d, hagree.1.trans hd, hgeneration⟩, Nat.le_refl n, nofun⟩

/-- Through a history without a deletion the generation does not fall, and it is higher after one with a change of the spec. -/
theorem generation_history {changes : List ClusterChange} {n : Nat} (h : History name changes N N') (hkept : .deletion ∉ changes)
    (hn : HasGeneration name n N) : ∃ n', HasGeneration name n' N' ∧ n ≤ n' ∧ (.spec ∈ changes → n < n') := by
  induction h generalizing n with
  | nil => exact ⟨n, hn, Nat.le_refl n, nofun⟩
  | cons hchange hrest ih =>
    obtain ⟨hfirst, hlater⟩ := not_or.1 (List.mem_cons.not.1 hkept)
    obtain ⟨m, hm, hle, hlt⟩ := generation_step hchange (Ne.symm hfirst) hn
    obtain ⟨n', hn', hle', hlt'⟩ := ih hlater hm
    refine ⟨n', hn', Nat.le_trans hle hle', fun hspec => ?_⟩
    rcases List.mem_cons.1 hspec with hhere | hthere
    · exact Nat.lt_of_lt_of_le (hlt hhere.symm) hle'
    · exact Nat.lt_of_le_of_lt hle (hlt' hthere)

/-! ## What a restore leaves alone -/

/-- An entry of another name leaves a deployment and its Secret alone. -/
theorem restoreEntry_frame (hcr : entry.cr.name = entry.name) (hname : entry.name ≠ name) :
    AgreeAt name N (N.restoreEntry mode entry).1 := by
  have hother : pairedSecretName name ≠ pairedSecretName entry.name := fun h => hname (BackupAux.pairedSecretName_inj h).symm
  have happly (M : ClusterNamespace) : (M.applyDeployment entry.cr).deployments.get? name = M.deployments.get? name :=
    Dict.get?_set_ne _ _ (fun h => hname (hcr.symm.trans h.symm))
  have hentry : AgreeAt name N (N.applyEntry entry) := by
    rw [applyEntry]
    cases entry.secret with
    | none => exact ⟨happly N, rfl⟩
    | some secret => exact ⟨happly _, Dict.get?_set_ne _ _ hother⟩
  rw [restoreEntry]
  cases N.deployments.get? entry.name with
  | none => exact hentry
  | some existing =>
    dsimp only
    split
    · exact ⟨rfl, rfl⟩
    · split
      · exact ⟨rfl, rfl⟩
      · split
        · exact ⟨rfl, rfl⟩
        · exact hentry

/-- A deployment of a higher generation is skipped. -/
theorem restoreEntry_newer {m n : Nat} (hn : HasGeneration entry.name n N) (hentry : entry.generation = some m) (hlt : m < n) :
    (N.restoreEntry .overwriteIfNewer entry).1 = N := by
  obtain ⟨d, hd, hgeneration⟩ := hn
  rw [restoreEntry, hd]
  dsimp only
  split
  · rfl
  · rw [if_neg (by decide), if_pos]
    rw [hgeneration, hentry]
    simpa using hlt

/-- An entry of another project fails. -/
theorem restoreEntry_project {existing : ClusterDeployment} {p q : String} (hget : N.deployments.get? entry.name = some existing)
    (hexisting : existing.specText "projectId" = some p) (hentry : entry.cr.specText "projectId" = some q) (hp : p ≠ "") (hq : q ≠ "")
    (hother : p ≠ q) : (N.restoreEntry mode entry).1 = N := by
  rw [restoreEntry, hget]
  dsimp only
  rw [if_pos]
  rw [hexisting, hentry]
  simp [hp, hq, hother]

/-- A restore leaves a deployment and its Secret alone when each entry of its name does. -/
theorem restoreEntries_agree {entries : List BackupEntry} (hcr : ∀ entry ∈ entries, entry.cr.name = entry.name)
    (hkept : ∀ entry ∈ entries, entry.name = name → ∀ M, AgreeAt name N M → (M.restoreEntry mode entry).1 = M) :
    AgreeAt name N (N.restoreEntries mode entries).1 := by
  induction entries generalizing N with
  | nil => exact ⟨rfl, rfl⟩
  | cons entry rest ih =>
    obtain ⟨hcrHere, hcrRest⟩ := List.forall_mem_cons.1 hcr
    obtain ⟨hkeptHere, hkeptRest⟩ := List.forall_mem_cons.1 hkept
    have hstep : AgreeAt name N (N.restoreEntry mode entry).1 := by
      by_cases hname : entry.name = name
      · rw [hkeptHere hname N ⟨rfl, rfl⟩]
        exact ⟨rfl, rfl⟩
      · exact restoreEntry_frame hcrHere hname
    exact agreeAt_trans hstep (ih hcrRest fun e he hname M hM => hkeptRest e he hname M (agreeAt_trans hstep hM))

/-- What is known of the entries of a backup. -/
theorem entry_of_backup {entries : List BackupEntry} (hbackup : N.deployments.values.mapM N.backupEntry = some entries)
    (hmem : entry ∈ entries) : ∃ d ∈ N.deployments.values, N.backupEntry d = some entry := by
  generalize N.deployments.values = values at hbackup
  induction values generalizing entries with
  | nil =>
    cases hbackup
    cases hmem
  | cons d rest ih =>
    rw [List.mapM_cons] at hbackup
    obtain ⟨first, hfirst, hbackup⟩ := Option.bind_eq_some_iff.1 hbackup
    obtain ⟨others, hothers, hbackup⟩ := Option.bind_eq_some_iff.1 hbackup
    cases hbackup
    rcases List.mem_cons.1 hmem with rfl | hmem
    · exact ⟨d, List.mem_cons_self, hfirst⟩
    · obtain ⟨d', hd', hentry⟩ := ih hmem hothers
      exact ⟨d', List.mem_cons_of_mem _ hd', hentry⟩

/-- An entry has the name, the generation and the cleaned resource of its deployment. -/
theorem backupEntry_eq {d : ClusterDeployment} (h : N.backupEntry d = some entry) :
    entry.name = d.name ∧ entry.cr = d.cleaned ∧ entry.generation = d.generation := by
  obtain ⟨secret, -, rfl⟩ := Option.map_eq_some_iff.1 h
  exact ⟨rfl, rfl, rfl⟩

/-- An entry of a backup is that of the deployment of its name. -/
theorem entry_generation (hnames : ∀ e ∈ N.deployments.entries, e.2.name = e.1) {entries : List BackupEntry}
    (hbackup : N.deployments.values.mapM N.backupEntry = some entries) (hmem : entry ∈ entries) :
    entry.cr.name = entry.name ∧ ∃ d, N.deployments.get? entry.name = some d ∧ entry.generation = d.generation := by
  obtain ⟨d, hd, heq⟩ := entry_of_backup hbackup hmem
  obtain ⟨hname, hcr, hgen⟩ := backupEntry_eq heq
  obtain ⟨e, he, rfl⟩ := List.mem_map.1 hd
  refine ⟨?_, e.2, ?_, hgen⟩
  · rw [hcr, hname]
    rfl
  · rw [hname, hnames e he]
    exact (Dict.get?_eq_some_iff _ _ _).2 he

end RestoreConflictsAux

open ClusterNamespace RestoreConflictsAux

/-- Let a backup be taken of a namespace where a deployment has a generation, and a history of it follow. When its spec was changed
and it was not deleted, a restore that overwrites what is not newer leaves it and its Secret as they are. In every mode, and whatever
else is in the namespace, the entry of a deployment changes nothing when a deployment of its name is there and both belong to
projects that differ. -/
theorem restore_keeps_newer_work (before : ClusterNamespace) (d : ClusterDeployment) :
    (∀ {now : ClusterNamespace} {entries : List BackupEntry} {n : Nat} {changes : List ClusterChange},
      (∀ e ∈ before.deployments.entries, e.2.name = e.1) → before.deployments.values.mapM before.backupEntry = some entries →
      before.deployments.get? d.name = some d → d.generation = some n → History d.name changes before now → .spec ∈ changes →
      .deletion ∉ changes → AgreeAt d.name now (now.restoreEntries .overwriteIfNewer entries).1) ∧
    ∀ (mode : ConflictMode) (N : ClusterNamespace) (existing : ClusterDeployment) (entry : BackupEntry) (p q : String),
      before.backupEntry d = some entry → N.deployments.get? d.name = some existing → existing.specText "projectId" = some p →
      d.specText "projectId" = some q → p ≠ "" → q ≠ "" → p ≠ q → (N.restoreEntry mode entry).1 = N := by
  refine ⟨?_, ?_⟩
  · intro now entries n changes hnames hbackup hget hgeneration hhistory hspec hkept
    obtain ⟨n', ⟨d', hd', hgeneration'⟩, -, hlt⟩ := generation_history hhistory hkept ⟨d, hget, hgeneration⟩
    refine restoreEntries_agree (fun entry hmem => (entry_generation hnames hbackup hmem).1) fun entry hmem hname M hM => ?_
    obtain ⟨-, old, hold, hgen⟩ := entry_generation hnames hbackup hmem
    rw [hname] at hold
    cases hold.symm.trans hget
    refine restoreEntry_newer ⟨d', ?_, hgeneration'⟩ (hgen.trans hgeneration) (hlt hspec)
    rw [hname, hM.1, hd']
  · intro mode N existing entry p q heq hexisting hp hq hpne hqne hother
    obtain ⟨hname, hcr, -⟩ := backupEntry_eq heq
    rw [← hname] at hexisting
    refine restoreEntry_project hexisting hp ?_ hpne hqne hother
    rw [hcr]
    exact hq

namespace RestoreConflictsWitness

/-- A deployment of a project, with a generation and a commit. -/
def app (generation : Nat) (sha project : String) : ClusterDeployment :=
  { name := "app", resourceNamespace := "llama", generation := some generation
    spec := (Dict.empty.set "projectId" (.str project)).set "gitSha" (.str sha) }

/-- The deployment with its Secret. -/
def cluster (generation : Nat) (sha : String) (byte : UInt8) : ClusterNamespace :=
  { deployments := Dict.empty.set "app" (app generation sha "p")
    secrets := Dict.empty.set "app-secrets" (Dict.empty.set "API_KEY" ⟨#[byte]⟩) }

/-- The entries of a backup of it. -/
def entries (generation : Nat) (sha : String) (text : String) : List BackupEntry :=
  [{ name := "app", cr := (app generation sha "p").cleaned, secret := some (Dict.empty.set "API_KEY" text)
     generation := some generation }]

end RestoreConflictsWitness

open RestoreConflictsWitness

/-- A key that was changed since the backup is changed back; and a deployment that was deleted and created again is taken back to
the commit of the backup. -/
theorem restore_keeps_newer_work_false :
    ((cluster 2 "old" 65).deployments.values.mapM (cluster 2 "old" 65).backupEntry = some (entries 2 "old" "A")) ∧
    (History "app" [.secret] (cluster 2 "old" 65) (cluster 2 "old" 66) ∧
      ((cluster 2 "old" 66).restoreEntries .overwriteIfNewer (entries 2 "old" "A")).1.secrets.get? "app-secrets" =
        some (Dict.empty.set "API_KEY" ⟨#[65]⟩)) ∧
    (History "app" [.deletion, .creation] (cluster 2 "old" 65) (cluster 1 "new" 65) ∧
      (((cluster 1 "new" 65).restoreEntries .overwriteIfNewer (entries 2 "old" "A")).1.deployments.get? "app").map
        (ClusterDeployment.specText · "gitSha") = some (some "old")) := by
  refine ⟨by rfl, ⟨.cons .secret .nil, by rfl⟩, ⟨.cons .deletion (.cons (.creation rfl rfl) .nil), by decide +kernel⟩⟩

/-- A new commit since the backup stays, and so does the key that was changed with it; an entry changes nothing where the name has
gone to another project. -/
theorem restore_keeps_newer_work_commit :
    AgreeAt "app" (cluster 3 "new" 66) ((cluster 3 "new" 66).restoreEntries .overwriteIfNewer (entries 2 "old" "A")).1 ∧
      let N : ClusterNamespace := { deployments := Dict.empty.set "app" (app 1 "old" "q") }
      ∀ entry ∈ entries 2 "old" "A", (N.restoreEntry .overwrite entry).1 = N := by
  have hspec : (app 3 "new" "p").spec ≠ (app 2 "old" "p").spec := by
    intro h
    have htext := congrArg (fun spec => (ClusterDeployment.mk "" "" none none none ∅ spec none).specText "gitSha") h
    exact absurd htext (by decide)
  have hhistory : History "app" [.spec, .secret] (cluster 2 "old" 65) (cluster 3 "new" 66) :=
    .cons (.spec (d := app 2 "old" "p") rfl hspec) (.cons .secret .nil)
  obtain ⟨hnewer, hproject⟩ := restore_keeps_newer_work (cluster 2 "old" 65) (app 2 "old" "p")
  refine ⟨?_, List.forall_mem_singleton.2 ?_⟩
  · exact @hnewer (cluster 3 "new" 66) (entries 2 "old" "A") 2 [.spec, .secret] (List.forall_mem_singleton.2 rfl) rfl rfl rfl hhistory
      (by decide) (by decide)
  · exact hproject .overwrite _ (app 1 "old" "q") _ "q" "p" rfl rfl rfl rfl (by decide)
      (by decide) (by decide)

end LlamaAgents
