import LlamaAgents.ControlPlane.ConfigValidation

/-!
# Where the files of a config lie

The reader of a deployment config opens files in the directory of the config path and the `package.json` in the UI directory that the
config names; the validation of a checkout opens the latter once more. The paths are checked after the files were read, so these lie
below the source root exactly when the two directories lie in it, or hold nothing that is read.
-/

namespace LlamaAgents

open Lib (FilePath FileTree Part up resolve)

/-- A location strictly below a path. -/
def LiesBelow (root : FilePath) (loc : List Part) : Prop := resolve root.parts <+: loc ∧ loc ≠ resolve root.parts

/-- The two directories in which a reading opens files lie in the root, as far as files are opened there: the one of the config path,
and the UI directory of the config that its files hold. -/
structure StaysInside {α : Type} (formats : ConfigFormats α) (t : FileTree α) (root configPath : FilePath) : Prop where
  config : (readConfigFiles formats t root configPath).opened ≠ [] →
    resolve root.parts <+: resolve (root.join (configDirectory t root configPath)).parts
  ui : ∀ merged ui, (readConfigFiles formats t root configPath).result = .ok merged → merged.ui = some ui →
    t.isFile (packagePath (root.join (configDirectory t root configPath)) ui) = true →
    resolve root.parts <+: resolve ((root.join (configDirectory t root configPath)).join (.ofText ui.directory)).parts

namespace ConfigReadingAux

variable {α β γ : Type} {formats : ConfigFormats α} {t : FileTree α} {root : FilePath} {loc : List Part}

/-! ## Readings -/

/-- A reading after another one opens the files of both, if the first one succeeds. -/
theorem mem_opened_bind {r : Reading β} {f : β → Reading γ} :
    loc ∈ (r >>= f).opened ↔ loc ∈ r.opened ∨ ∃ b, r.result = .ok b ∧ loc ∈ (f b).opened := by
  obtain ⟨result, opened⟩ := r
  cases result with
  | error e =>
    refine ⟨.inl, fun h => h.resolve_right ?_⟩
    rintro ⟨b, hb, -⟩
    cases hb
  | ok b =>
    refine ⟨fun h => (List.mem_append.1 h).imp_right fun h => ⟨b, rfl, h⟩, fun h => List.mem_append.2 (h.imp_right ?_)⟩
    rintro ⟨b', hb, hloc⟩
    cases hb
    exact hloc

theorem result_bind {r : Reading β} {f : β → Reading γ} {c : γ} (h : (r >>= f).result = .ok c) :
    ∃ b, r.result = .ok b ∧ (f b).result = .ok c := by
  obtain ⟨result, opened⟩ := r
  cases result with
  | error e => cases h
  | ok b => exact ⟨b, rfl, h⟩

/-- What needs no file opens none. -/
theorem notMem_opened_ofExcept {r : Except String β} : loc ∉ (Reading.ofExcept r).opened := List.not_mem_nil

theorem notMem_opened_pure {b : β} : loc ∉ (pure b : Reading β).opened := List.not_mem_nil

/-- A file is opened where its path leads. -/
theorem mem_openFile {path : FilePath} : loc ∈ (openFile t path).opened ↔ t.isFile path = true ∧ loc = resolve path.parts := by
  unfold openFile FileTree.isFile
  cases hwalk : t.walk [] path.parts with
  | none =>
    have hnone : t.lookup path = none := by rw [FileTree.lookup, hwalk]; rfl
    simp [hnone, Reading.ofExcept, Reading.opened]
  | some place =>
    obtain rfl : place = resolve path.parts := FileTree.walk_eq hwalk
    cases t.lookup path with
    | none => simp [Reading.ofExcept, Reading.opened]
    | some node =>
      cases node with
      | dir => simp [Reading.ofExcept, Reading.opened]
      | file content => simp [Reading.opened]

/-- What was read of a file that stands there. -/
theorem mem_openFile_bind {path : FilePath} {f : α → Reading γ} (hf : ∀ content, loc ∉ (f content).opened) :
    loc ∈ (openFile t path >>= f).opened ↔ t.isFile path = true ∧ loc = resolve path.parts := by
  rw [mem_opened_bind, mem_openFile]
  refine ⟨fun h => h.resolve_right ?_, .inl⟩
  rintro ⟨content, -, hloc⟩
  exact hf content hloc

/-- What stands in a directory lies below the root exactly when the directory lies in it. -/
theorem liesBelow_snoc_iff {parts : List Part} {name : Part} (hname : name ≠ up) :
    LiesBelow root (resolve (parts ++ [name])) ↔ resolve root.parts <+: resolve parts := by
  rw [Lib.resolve_append, List.foldl_cons, List.foldl_nil, Lib.enter, if_neg hname, LiesBelow, List.prefix_concat_iff]
  refine ⟨fun h => h.1.resolve_left (Ne.symm h.2), fun h => ⟨.inr h, fun heq => ?_⟩⟩
  have hlength := h.length_le
  rw [← heq, List.length_append, List.length_singleton] at hlength
  omega

/-! ## The reader -/

theorem mem_readTomlConfig {dir : FilePath} (h : loc ∈ (readTomlConfig formats t dir).opened) :
    ∃ name ≠ up, loc = resolve (dir.parts ++ [name]) := by
  obtain ⟨name, hname, hpath⟩ : ∃ name : Part, name ≠ up ∧ localTomlPath t dir = dir.below [name] := by
    unfold localTomlPath
    dsimp only
    split
    · exact ⟨_, by decide, rfl⟩
    · exact ⟨_, by decide, rfl⟩
  unfold readTomlConfig at h
  rw [hpath] at h
  dsimp only at h
  split at h
  · exact ⟨name, hname, ((mem_openFile_bind fun _ => notMem_opened_ofExcept).1 h).2⟩
  · split at h
    · refine ⟨Chars "pyproject.toml", by decide, ((mem_openFile_bind fun content hloc => ?_).1 h).2⟩
      rcases mem_opened_bind.1 hloc with hloc | ⟨_, -, hloc⟩
      · exact notMem_opened_ofExcept hloc
      · exact notMem_opened_pure hloc
    · exact absurd h notMem_opened_pure

theorem mem_mergeYamlConfig {dir : FilePath} {configFile : Option Part} {config : DeploymentConfig}
    (hfile : ∀ name, configFile = some name → name ≠ up) (h : loc ∈ (mergeYamlConfig formats t dir configFile config).opened) :
    ∃ name ≠ up, loc = resolve (dir.parts ++ [name]) := by
  have hname : ∀ name : Part, name ≠ up → configFile.getD name ≠ up := by
    intro name hname
    cases configFile with
    | none => exact hname
    | some named => exact hfile named rfl
  obtain ⟨name, hnameup, hpath⟩ : ∃ name : Part, name ≠ up ∧ yamlPath t dir configFile = dir.below [name] := by
    unfold yamlPath
    dsimp only
    split
    · exact ⟨_, hname _ (by decide), rfl⟩
    · exact ⟨_, hname _ (by decide), rfl⟩
  unfold mergeYamlConfig at h
  split at h
  · rw [hpath] at h
    refine ⟨name, hnameup, ((mem_openFile_bind fun content hloc => ?_).1 h).2⟩
    rcases mem_opened_bind.1 hloc with hloc | ⟨_, -, hloc⟩
    · exact notMem_opened_ofExcept hloc
    · exact notMem_opened_pure hloc
  · exact absurd h notMem_opened_pure

/-- A file that was named is no step up. -/
theorem namedConfigFile_ne_up {configPath : FilePath} {name : Part} (h : namedConfigFile t root configPath = some name) : name ≠ up := by
  unfold namedConfigFile at h
  split at h
  · case isTrue hfile =>
    have hlast := (Option.filter_eq_some_iff.1 h).1
    rintro rfl
    refine FileTree.getLast?_ne_up hfile ?_
    have hne : configPath.parts ≠ [] := fun hnil => by simp [hnil] at hlast
    unfold FilePath.join
    split
    · exact hlast
    · rw [List.getLast?_append_of_ne_nil _ hne, hlast]
  · cases h

/-- The files of a config are opened in its directory. -/
theorem mem_readConfigFiles {configPath : FilePath} (h : loc ∈ (readConfigFiles formats t root configPath).opened) :
    ∃ name ≠ up, loc = resolve ((root.join (configDirectory t root configPath)).parts ++ [name]) := by
  rcases mem_opened_bind.1 h with h | ⟨toml, -, h⟩
  · exact mem_readTomlConfig h
  · exact mem_mergeYamlConfig (fun name hname => namedConfigFile_ne_up hname) h

/-- A `package.json` is opened in the directory of the UI. -/
theorem mem_mergePackageJson {dir : FilePath} {config : DeploymentConfig} :
    loc ∈ (mergePackageJson formats t dir config).opened ↔
      ∃ ui, config.ui = some ui ∧ t.isFile (packagePath dir ui) = true ∧ loc = resolve (packagePath dir ui).parts := by
  unfold mergePackageJson
  cases hui : config.ui with
  | none => simp [notMem_opened_pure]
  | some ui =>
    dsimp only
    rw [show (∃ ui', some ui = some ui' ∧ t.isFile (packagePath dir ui') = true ∧ loc = resolve (packagePath dir ui').parts) ↔
      t.isFile (packagePath dir ui) = true ∧ loc = resolve (packagePath dir ui).parts by simp]
    split
    · refine mem_openFile_bind fun content hloc => ?_
      rcases mem_opened_bind.1 hloc with hloc | ⟨_, -, hloc⟩
      · exact notMem_opened_ofExcept hloc
      · exact notMem_opened_pure hloc
    · case isFalse hnone =>
      refine ⟨fun h => absurd h notMem_opened_pure, fun h => absurd ?_ hnone⟩
      have hfile := h.1
      unfold FileTree.isFile at hfile
      unfold FileTree.exists?
      split at hfile
      · case h_1 hlookup => rw [hlookup]; rfl
      · cases hfile

/-- The reader opens the files of the config and the `package.json` of the UI that these name. -/
theorem mem_readDeploymentConfig {configPath : FilePath} : loc ∈ (readDeploymentConfig formats t root configPath).opened ↔
    loc ∈ (readConfigFiles formats t root configPath).opened ∨ ∃ merged,
      (readConfigFiles formats t root configPath).result = .ok merged ∧
      loc ∈ (mergePackageJson formats t (root.join (configDirectory t root configPath)) merged).opened := by
  unfold readDeploymentConfig
  rw [mem_opened_bind]
  refine or_congr Iff.rfl (exists_congr fun merged => and_congr Iff.rfl ?_)
  unfold readUiConfig
  rw [mem_opened_bind]
  refine ⟨fun h => h.resolve_right ?_, .inl⟩
  rintro ⟨config, -, hloc⟩
  rcases mem_opened_bind.1 hloc with hloc | ⟨_, -, hloc⟩
  · exact notMem_opened_ofExcept hloc
  · exact notMem_opened_pure hloc

/-- What the reader opens lies below the root exactly when its directories lie in the root. -/
theorem readDeploymentConfig_iff {configPath : FilePath} :
    (∀ loc ∈ (readDeploymentConfig formats t root configPath).opened, LiesBelow root loc) ↔
      StaysInside formats t root configPath := by
  have hpackage : Chars "package.json" ≠ up := by decide
  simp only [mem_readDeploymentConfig]
  refine ⟨fun h => ⟨fun hopened => ?_, fun merged ui hmerged hui hfile => ?_⟩, fun h loc hloc => ?_⟩
  · obtain ⟨loc, hloc⟩ := List.exists_mem_of_ne_nil _ hopened
    obtain ⟨name, hname, rfl⟩ := mem_readConfigFiles hloc
    exact (liesBelow_snoc_iff hname).1 (h _ (.inl hloc))
  · exact (liesBelow_snoc_iff hpackage).1 (h _ (.inr ⟨merged, hmerged, mem_mergePackageJson.2 ⟨ui, hui, hfile, rfl⟩⟩))
  · rcases hloc with hloc | ⟨merged, hmerged, hloc⟩
    · have hdir := h.config (List.ne_nil_of_mem hloc)
      obtain ⟨name, hname, rfl⟩ := mem_readConfigFiles hloc
      exact (liesBelow_snoc_iff hname).2 hdir
    · obtain ⟨ui, hui, hfile, rfl⟩ := mem_mergePackageJson.1 hloc
      exact (liesBelow_snoc_iff hpackage).2 (h.ui merged ui hmerged hui hfile)

/-- What the reader returns has passed the checks of its paths. -/
theorem validateUiPaths_of_result {configPath : FilePath} {config : DeploymentConfig}
    (h : (readDeploymentConfig formats t root configPath).result = .ok config) :
    validateUiPaths root (configDirectory t root configPath) config = .ok () := by
  obtain ⟨merged, -, h⟩ := result_bind h
  obtain ⟨checked, -, h⟩ := result_bind h
  obtain ⟨⟨⟩, hvalid, h⟩ := result_bind h
  cases h
  exact hvalid

/-! ## The checks of the reader -/

theorem up_notMem_foldl_enter {parts loc : List Part} (h : up ∉ loc) : up ∉ parts.foldl Lib.enter loc := by
  induction parts generalizing loc with
  | nil => exact h
  | cons part parts ih =>
    refine ih ?_
    unfold Lib.enter
    split
    · exact fun hmem => h (List.dropLast_subset _ hmem)
    · case isFalse hpart =>
      rw [List.mem_append, List.mem_singleton, not_or]
      exact ⟨h, Ne.symm hpart⟩

theorem up_notMem_resolve (parts : List Part) : up ∉ resolve parts := up_notMem_foldl_enter List.not_mem_nil

/-- A path that passes the check lies in the root. -/
theorem of_validatePathTraversal {path : FilePath} {pathType : String} (h : validatePathTraversal root path pathType = .ok ()) :
    resolve root.parts <+: resolve (root.join path).parts := by
  unfold validatePathTraversal at h
  split at h
  · assumption
  · cases h

/-- The paths of a checked UI: its directory and its build output directory lie in the root. -/
theorem of_validateUiPaths {configDir : FilePath} {config : DeploymentConfig} (h : validateUiPaths root configDir config = .ok ())
    {ui : UIConfig} (hui : config.ui = some ui) :
    resolve root.parts <+: resolve (root.join (configDir.join (.ofText ui.directory))).parts ∧
      ∀ out, config.buildOutputPath = some out → resolve root.parts <+: resolve (root.join (configDir.join out)).parts := by
  unfold validateUiPaths at h
  rw [hui] at h
  dsimp only at h
  cases hdir : validatePathTraversal root (configDir.join (.ofText ui.directory)) "ui_source" with
  | error e =>
    rw [hdir] at h
    cases h
  | ok u =>
    have hbelow := of_validatePathTraversal hdir
    refine ⟨hbelow, fun out hout => ?_⟩
    rw [hdir] at h
    unfold DeploymentConfig.buildOutputPath at hout
    rw [hui] at hout
    cases hbuild : ui.buildOutputDir.filter (· ≠ []) with
    | some dir =>
      simp only [hbuild, Option.map_some, Option.some.injEq] at h hout
      subst hout
      exact of_validatePathTraversal h
    | none =>
      simp only [hbuild, Option.map_some, Option.some.injEq] at hout
      subst hout
      have hparts : ∀ p q : FilePath, (p.join (q.below [Chars "dist"])).parts = (p.join q).parts ++ [Chars "dist"] := by
        intro p q
        unfold FilePath.join FilePath.below
        split
        · rfl
        · exact (List.append_assoc _ _ _).symm
      have hbelowDir : configDir.join ((FilePath.ofText ui.directory).below [Chars "dist"]) =
          (configDir.join (.ofText ui.directory)).below [Chars "dist"] := by
        unfold FilePath.join FilePath.below
        split
        · rfl
        · rw [List.append_assoc]
      rw [hbelowDir, hparts, Lib.resolve_append]
      exact hbelow.trans (List.prefix_append _ _)

theorem join_assoc (p q r : FilePath) : p.join (q.join r) = (p.join q).join r := by
  unfold FilePath.join
  by_cases hr : r.isAbsolute
  · simp [hr]
  · by_cases hq : q.isAbsolute
    · simp [hr, hq]
    · simp [hr, hq]

/-! ## The validation on a checkout -/

theorem resolveConfigParent_of_isAbsolute {configPath : FilePath} (h : configPath.isAbsolute = true) :
    resolveConfigParent t root configPath = root.join (configDirectory t root configPath) := by
  unfold resolveConfigParent configDirectory
  split
  · rw [FilePath.join, if_pos h, FilePath.join, FilePath.parent, if_pos h]
  · rfl

/-- The `package.json` that the response reads lies in the directory of the UI. -/
theorem mem_respondValid {configPath : FilePath} {config : DeploymentConfig}
    (h : loc ∈ (respondValid formats t root configPath config).opened) : ∃ ui, config.ui = some ui ∧
      loc = resolve ((resolveConfigParent t root configPath).join (.ofText ui.directory)).parts ++ [Chars "package.json"] := by
  unfold respondValid at h
  rcases mem_opened_bind.1 h with h | ⟨dist, -, h⟩
  · unfold LlamaAgents.uiBuildOutputPath at h
    split at h
    · exact absurd h notMem_opened_pure
    · case h_2 ui hui =>
      have hfile : loc ∈ (openFile t (FilePath.below ⟨true,
          resolve ((resolveConfigParent t root configPath).join (.ofText ui.directory)).parts⟩ [Chars "package.json"])).opened := by
        dsimp only at h
        split at h
        · exact h
        · exact h
      refine ⟨ui, hui, (mem_openFile.1 hfile).2.trans (Lib.resolve_plain ?_)⟩
      rw [FilePath.below, List.mem_append, not_or]
      exact ⟨up_notMem_resolve _, by decide⟩
  · cases dist with
    | none => exact absurd h notMem_opened_pure
    | some dist =>
      rcases mem_opened_bind.1 h with h | ⟨_, -, h⟩
      · exact absurd h notMem_opened_ofExcept
      · exact absurd h notMem_opened_pure

theorem mem_orInvalid {r : Reading β} {f : β → Reading ConfigVerdict} :
    loc ∈ (orInvalid r f).opened ↔ loc ∈ r.opened ∨ ∃ b, r.result = .ok b ∧ loc ∈ (f b).opened := by
  unfold orInvalid
  cases hr : r.result with
  | error e => simp [Reading.opened]
  | ok b =>
    dsimp only
    rw [show (r.andThen fun _ => f b) = r >>= fun _ => f b from rfl, mem_opened_bind, hr]
    simp

/-- The validation opens what the reader opens, and the `package.json` of a UI whose path was checked. -/
theorem validateViaClone_iff {place : List Part} {deploymentFilePath : Option (List Char)} :
    (∀ loc ∈ (validateViaClone formats t ⟨true, place⟩ deploymentFilePath).opened, LiesBelow ⟨true, place⟩ loc) ↔
      StaysInside formats t ⟨true, place⟩ (FilePath.join ⟨true, place⟩ (.ofText (requestedPath deploymentFilePath))) := by
  rw [← readDeploymentConfig_iff]
  unfold validateViaClone
  dsimp only
  have habs : (FilePath.join ⟨true, place⟩ (.ofText (requestedPath deploymentFilePath))).isAbsolute = true := by
    unfold FilePath.join
    split
    · assumption
    · rfl
  generalize FilePath.join ⟨true, place⟩ (.ofText (requestedPath deploymentFilePath)) = configPath at habs ⊢
  have hread : ∀ loc, loc ∈ (readValidConfig formats t ⟨true, place⟩ configPath).opened ↔
      loc ∈ (readDeploymentConfig formats t ⟨true, place⟩ configPath).opened := by
    intro loc
    unfold readValidConfig
    rw [mem_opened_bind]
    refine ⟨fun h => h.resolve_right ?_, .inl⟩
    rintro ⟨config, -, hloc⟩
    rcases mem_opened_bind.1 hloc with hloc | ⟨_, -, hloc⟩
    · exact notMem_opened_ofExcept hloc
    · exact notMem_opened_pure hloc
  simp only [mem_orInvalid, hread]
  refine ⟨fun h loc hloc => h loc (.inl hloc), fun h loc hloc => hloc.elim (h loc) ?_⟩
  rintro ⟨config, hconfig, hloc⟩
  obtain ⟨config', hresult, hvalid⟩ := result_bind hconfig
  obtain ⟨_, -, hvalid⟩ := result_bind hvalid
  cases hvalid
  obtain ⟨ui, hui, rfl⟩ := mem_respondValid hloc
  have hwithin := (of_validateUiPaths (validateUiPaths_of_result hresult) hui).1
  rw [join_assoc, ← resolveConfigParent_of_isAbsolute habs] at hwithin
  have hbelow := (@liesBelow_snoc_iff ⟨true, place⟩ _ (Chars "package.json") (by decide)).2 hwithin
  rw [Lib.resolve_append] at hbelow
  exact hbelow

end ConfigReadingAux

open ConfigReadingAux

/-- Reading a deployment config opens only files below the source root exactly when its directories lie in the root, as far as they
hold files that are read, and so does its validation on a checkout, for the path that was asked for. The UI directory and the build
output directory of a config that was read always lie in the root. -/
theorem config_reading_stays_below {α : Type} (formats : ConfigFormats α) (t : FileTree α) (place : List Part) (configPath : FilePath)
    (deploymentFilePath : Option (List Char)) :
    ((∀ loc ∈ (readDeploymentConfig formats t ⟨true, place⟩ configPath).opened, LiesBelow ⟨true, place⟩ loc) ↔
        StaysInside formats t ⟨true, place⟩ configPath) ∧
      ((∀ loc ∈ (validateViaClone formats t ⟨true, place⟩ deploymentFilePath).opened, LiesBelow ⟨true, place⟩ loc) ↔
        StaysInside formats t ⟨true, place⟩ (FilePath.join ⟨true, place⟩ (.ofText (requestedPath deploymentFilePath)))) ∧
      ∀ config, (readDeploymentConfig formats t ⟨true, place⟩ configPath).result = .ok config → ∀ ui, config.ui = some ui →
        let dir := FilePath.join ⟨true, place⟩ (configDirectory t ⟨true, place⟩ configPath)
        resolve place <+: resolve (dir.join (.ofText ui.directory)).parts ∧
          ∀ out, config.buildOutputPath = some out → resolve place <+: resolve (dir.join out).parts := by
  refine ⟨readDeploymentConfig_iff, validateViaClone_iff, fun config hresult ui hsome => ?_⟩
  have hpaths := of_validateUiPaths (validateUiPaths_of_result hresult) hsome
  simp only [join_assoc] at hpaths
  exact hpaths

namespace ConfigReadingWitness

/-- A config with an app. -/
def app : DeploymentConfig := { app := some (Chars "app:app") }

/-- Contents that all hold the config. -/
def formats : ConfigFormats Unit where
  toml _ := .ok app
  pyproject _ := .ok none
  yaml _ := .ok (none, none)
  packageJson _ := .ok none
  hasScript _ _ := true
  listSet := id

/-- The root of a checkout. -/
def checkout : List Part := [Chars "checkout"]

/-- A machine with a config in the checkout and one beside it. -/
def machine : FileTree Unit :=
  (((Lib.FileTree.makeDir (fun _ => none) checkout).makeDir [Chars "other"]).write [Chars "other", Chars "llama_agents.toml"] ()).write
    [Chars "checkout", Chars "llama_agents.toml"] ()

end ConfigReadingWitness

open ConfigReadingWitness in
/-- The condition is met by a checkout with a config at its top. -/
theorem config_reading_stays_below_top :
    (validateViaClone formats machine ⟨true, checkout⟩ none).opened = [[Chars "checkout", Chars "llama_agents.toml"]] ∧
      StaysInside formats machine ⟨true, checkout⟩ (FilePath.join ⟨true, checkout⟩ (.ofText (requestedPath none))) := by
  have hopened : (validateViaClone formats machine ⟨true, checkout⟩ none).opened = [[Chars "checkout", Chars "llama_agents.toml"]] :=
    rfl
  refine ⟨hopened, (config_reading_stays_below formats machine checkout ⟨false, []⟩ none).2.1.1 fun loc hloc => ?_⟩
  rw [hopened, List.mem_singleton] at hloc
  subst hloc
  exact ⟨by decide, by decide⟩

open ConfigReadingWitness in
/-- A request may name a path outside the checkout: the config beside it is opened and accepted. -/
theorem config_reading_stays_below_false :
    [Chars "other", Chars "llama_agents.toml"] ∈
        (validateViaClone formats machine ⟨true, checkout⟩ (some (Chars "../other"))).opened ∧
      ¬LiesBelow ⟨true, checkout⟩ [Chars "other", Chars "llama_agents.toml"] :=
  ⟨by decide, fun h => absurd h.1 (by decide)⟩

end LlamaAgents
