import LlamaAgents.Lib.Dict
import LlamaAgents.Lib.FileTree

/-!
# The deployment config

`deployment_config.py`, `path_util.py` and `ui_build.py`. A text is the list of its characters. How the contents of a file are read
as TOML, YAML or JSON and validated is given, as is the order in which a set is listed. A reading keeps the locations of the files
that it opens.
-/

namespace LlamaAgents

open Lib (Dict FilePath FileTree Part)

/-! ## The models -/

/-- A text of the source. -/
abbrev Chars (text : String) : List Char := text.toList

/-- `_pick_non_default`. -/
def pickNonDefault {β : Type} [DecidableEq β] (falsy a b default : β) : β :=
  if a ≠ default then a else if b ≠ falsy then b else default

/-- `a or b` on optional texts. -/
def textOr (a b : Option (List Char)) : Option (List Char) := if a.any (· ≠ []) then a else b

/-- `UIConfig`. -/
structure UIConfig where
  directory : List Char
  buildOutputDir : Option (List Char) := none
  packageManager : List Char := Chars "npm"
  buildCommand : List Char := Chars "build"
  serveCommand : List Char := Chars "dev"
  proxyPort : Int := 4502

/-- `UIConfig.merge_config`. -/
def UIConfig.mergeConfig (self config : UIConfig) : UIConfig where
  directory := self.directory
  buildOutputDir := textOr self.buildOutputDir config.buildOutputDir
  packageManager := pickNonDefault [] self.packageManager config.packageManager (Chars "npm")
  buildCommand := pickNonDefault [] self.buildCommand config.buildCommand (Chars "build")
  serveCommand := pickNonDefault [] self.serveCommand config.serveCommand (Chars "dev")
  proxyPort := pickNonDefault 0 self.proxyPort config.proxyPort 4502

/-- `DeploymentConfig`. -/
structure DeploymentConfig where
  name : List Char := Chars "default"
  llamaCloud : Bool := false
  app : Option (List Char) := none
  workflows : Dict (List Char) (List Char) := ∅
  envFiles : List (List Char) := []
  env : Dict (List Char) (List Char) := ∅
  requiredEnvVars : List (List Char) := []
  ui : Option UIConfig := none

namespace DeploymentConfig

/-- `DeploymentConfig.merge_config`. The sets of env files and of required variables are listed in a given order. -/
def mergeConfig (listSet : List (List Char) → List (List Char)) (self config : DeploymentConfig) : DeploymentConfig where
  name := pickNonDefault [] self.name config.name (Chars "default")
  llamaCloud := self.llamaCloud || config.llamaCloud
  app := textOr self.app config.app
  workflows := self.workflows.updateWith some config.workflows
  envFiles := listSet (self.envFiles ++ config.envFiles)
  env := self.env.updateWith some config.env
  requiredEnvVars := listSet (self.requiredEnvVars ++ config.requiredEnvVars)
  ui :=
    match self.ui, config.ui with
    | some ui, some ui' => some (ui.mergeConfig ui')
    | some ui, none => some ui
    | none, ui' => ui'

variable (self : DeploymentConfig)

/-- `has_no_workflows`. -/
def hasNoWorkflows : Bool := self.workflows.entries.isEmpty && self.app.isNone

/-- `has_both_app_and_workflows`. -/
def hasBothAppAndWorkflows : Bool := self.app.isSome && !self.workflows.entries.isEmpty

/-- `validate_config`. -/
def validateConfig : Except String Unit :=
  if self.hasNoWorkflows then .error "Config must have at least one workflow."
  else if self.hasBothAppAndWorkflows then .error "Config cannot have both app and workflows configured."
  else .ok ()

/-- `is_valid`. -/
def isValid : Bool := !self.hasNoWorkflows && !self.hasBothAppAndWorkflows

/-- `build_output_path`. -/
def buildOutputPath : Option FilePath := self.ui.map fun ui =>
  match ui.buildOutputDir.filter (· ≠ []) with
  | some dir => .ofText dir
  | none => (FilePath.ofText ui.directory).below [Chars "dist"]

end DeploymentConfig

/-! ## Reading files -/

/-- A reading: its result, and the locations of the files that it opened. -/
def Reading (β : Type) : Type := Except String β × List (List Part)

namespace Reading

variable {β γ : Type}

/-- The locations of the opened files. -/
def opened (r : Reading β) : List (List Part) := r.2

/-- What was read. -/
def result (r : Reading β) : Except String β := r.1

/-- A result that needs no file. -/
def ofExcept (r : Except String β) : Reading β := (r, [])

/-- A reading after another one; an error ends it. -/
def andThen (r : Reading β) (f : β → Reading γ) : Reading γ :=
  match r.1 with
  | .ok b => ((f b).1, r.2 ++ (f b).2)
  | .error e => (.error e, r.2)

instance : Monad Reading where
  pure b := ofExcept (.ok b)
  bind := andThen

end Reading

/-- `open(path)` and the content. -/
def openFile {α : Type} (t : FileTree α) (path : FilePath) : Reading α :=
  match t.lookup path with
  | some (.file content) => (.ok content, (t.walk [] path.parts).toList)
  | some .dir => .ofExcept (.error "Is a directory")
  | none => .ofExcept (.error "No such file or directory")

/-- What the reader takes of a `package.json`: the name of its package manager, and its `llamaagents` or `llamadeploy` table. -/
structure PackageJson where
  packageManagerName : Option (List Char) := none
  directory : Option (List Char) := none
  buildOutputDir : Option (List Char) := none
  packageManager : Option (List Char) := none
  buildCommand : Option (List Char) := none
  serveCommand : Option (List Char) := none
  proxyPort : Option Int := none

/-- `UIConfig.model_validate(ui_payload)`, with the directory of the config and the name of the package manager filled in. -/
def PackageJson.uiConfig (package : PackageJson) (uiDir : List Char) : UIConfig where
  directory := package.directory.getD uiDir
  buildOutputDir := package.buildOutputDir
  packageManager := (package.packageManager.or package.packageManagerName).getD (Chars "npm")
  buildCommand := package.buildCommand.getD (Chars "build")
  serveCommand := package.serveCommand.getD (Chars "dev")
  proxyPort := package.proxyPort.getD 4502

/-- How contents are read. A content that does not parse or validate is an error. A `pyproject.toml` without a table has no config; a
YAML file can have a config of the deprecated form and one of the form of today; a `package.json` that is no table has nothing. -/
structure ConfigFormats (α : Type) where
  toml : α → Except String DeploymentConfig
  pyproject : α → Except String (Option DeploymentConfig)
  yaml : α → Except String (Option DeploymentConfig × Option DeploymentConfig)
  packageJson : α → Except String (Option PackageJson)
  hasScript : α → List Char → Bool
  listSet : List (List Char) → List (List Char)

/-! ## The reader -/

section Reader

variable {α : Type} (formats : ConfigFormats α) (t : FileTree α)

/-- The local TOML file that is read. -/
def localTomlPath (dir : FilePath) : FilePath :=
  let agentsToml := dir.below [Chars "llama_agents.toml"]
  if t.exists? agentsToml then agentsToml else dir.below [Chars "llama_deploy.toml"]

/-- The config of the local TOML file, or of the table of the `pyproject.toml`, of a directory. -/
def readTomlConfig (dir : FilePath) : Reading DeploymentConfig :=
  let pyproject := dir.below [Chars "pyproject.toml"]
  if t.exists? (localTomlPath t dir) then do
    let content ← openFile t (localTomlPath t dir)
    .ofExcept (formats.toml content)
  else if t.exists? pyproject then do
    let content ← openFile t pyproject
    let config ← .ofExcept (formats.pyproject content)
    pure (config.getD {})
  else pure {}

/-- Which of the two forms of a YAML config is merged. -/
def pickYamlConfig (old new : Option DeploymentConfig) : Option DeploymentConfig :=
  if old.any (·.isValid) && !new.any (·.isValid) then old else new

/-- The YAML file that is read: the one that was named, or one of the two names. -/
def yamlPath (dir : FilePath) (configFile : Option Part) : FilePath :=
  let agentsYaml := dir.below [configFile.getD (Chars "llama_agents.yaml")]
  if t.exists? agentsYaml then agentsYaml else dir.below [configFile.getD (Chars "llama_deploy.yaml")]

/-- The merge of the YAML file into a config without workflows. -/
def mergeYamlConfig (dir : FilePath) (configFile : Option Part) (config : DeploymentConfig) : Reading DeploymentConfig :=
  if config.hasNoWorkflows && t.exists? (yamlPath t dir configFile) then do
    let content ← openFile t (yamlPath t dir configFile)
    let forms ← .ofExcept (formats.yaml content)
    pure (match pickYamlConfig forms.1 forms.2 with
      | some loaded => config.mergeConfig formats.listSet loaded
      | none => config)
  else pure config

/-- The UI with what its `package.json` says: a build output directory there is relative to the UI directory. -/
def UIConfig.withPackage (ui : UIConfig) (package : PackageJson) : UIConfig :=
  let uiConfig := package.uiConfig ui.directory
  UIConfig.mergeConfig { uiConfig with
    buildOutputDir := uiConfig.buildOutputDir.map fun dir => ((FilePath.ofText ui.directory).join (.ofText dir)).text } ui

/-- The path of the `package.json` of a UI. -/
def packagePath (dir : FilePath) (ui : UIConfig) : FilePath := (dir.join (.ofText ui.directory)).below [Chars "package.json"]

/-- The merge of the `package.json` of the UI. -/
def mergePackageJson (dir : FilePath) (config : DeploymentConfig) : Reading DeploymentConfig :=
  match config.ui with
  | none => pure config
  | some ui =>
    if t.exists? (packagePath dir ui) then do
      let content ← openFile t (packagePath dir ui)
      let package ← .ofExcept (formats.packageJson content)
      pure { config with ui := some ((package.map ui.withPackage).getD ui) }
    else pure config

/-- `validate_path_traversal`. -/
def validatePathTraversal (root path : FilePath) (pathType : String) : Except String Unit :=
  if Lib.resolve root.parts <+: Lib.resolve (root.join path).parts then .ok ()
  else .error (pathType ++ " " ++ String.ofList path.text ++ " is not a subdirectory of the source root " ++ String.ofList root.text)

/-- The checks of the paths of the UI. -/
def validateUiPaths (root configDir : FilePath) (config : DeploymentConfig) : Except String Unit :=
  match config.ui with
  | none => .ok ()
  | some ui => do
    validatePathTraversal root (configDir.join (.ofText ui.directory)) "ui_source"
    match ui.buildOutputDir.filter (· ≠ []) with
    | some buildOutputDir => validatePathTraversal root (configDir.join (.ofText buildOutputDir)) "ui_build_output_dir"
    | none => .ok ()

/-- The directory of a config path: the parent of a file. -/
def configDirectory (root configPath : FilePath) : FilePath := if t.isFile (root.join configPath) then configPath.parent else configPath

/-- The config file that was named, unless it is one of the TOML files. -/
def namedConfigFile (root configPath : FilePath) : Option Part :=
  if t.isFile (root.join configPath) then configPath.parts.getLast?.filter fun name =>
    name ≠ Chars "llama_agents.toml" ∧ name ≠ Chars "llama_deploy.toml" ∧ name ≠ Chars "pyproject.toml"
  else none

/-- The config of the TOML files and the YAML file. -/
def readConfigFiles (root configPath : FilePath) : Reading DeploymentConfig := do
  let dir := root.join (configDirectory t root configPath)
  let toml ← readTomlConfig formats t dir
  mergeYamlConfig formats t dir (namedConfigFile t root configPath) toml

/-- The config of the files with the `package.json` of its UI, checked. -/
def readUiConfig (root configDir : FilePath) (merged : DeploymentConfig) : Reading DeploymentConfig := do
  let config ← mergePackageJson formats t (root.join configDir) merged
  let _ ← .ofExcept (validateUiPaths root configDir config)
  pure config

/-- `read_deployment_config`. -/
def readDeploymentConfig (root configPath : FilePath) : Reading DeploymentConfig := do
  let merged ← readConfigFiles formats t root configPath
  readUiConfig formats t root (configDirectory t root configPath) merged

/-- `resolve_config_parent`. -/
def resolveConfigParent (root deploymentPath : FilePath) : FilePath :=
  if t.isFile (root.join deploymentPath) then (root.join deploymentPath).parent else root.join deploymentPath

/-- `ui_build_output_path`, with the directory of the UI resolved. A `package.json` that cannot be read has no scripts. -/
def uiBuildOutputPath (configParent : FilePath) (config : DeploymentConfig) : Reading (Option FilePath) :=
  match config.ui with
  | none => pure none
  | some ui =>
    let uiRoot : FilePath := ⟨true, Lib.resolve (configParent.join (.ofText ui.directory)).parts⟩
    let packageJson := openFile t (uiRoot.below [Chars "package.json"])
    match packageJson.result with
    | .ok content => (.ok (if formats.hasScript content ui.buildCommand then config.buildOutputPath else none), packageJson.opened)
    | .error _ => (.ok none, packageJson.opened)

end Reader

/-! ## The environment of the app server -/

section Environment

variable (values : List Char → Dict (List Char) (Option (List Char)))

/-- `parse_environment_variables` of `workflow_loader.py`, with what `dotenv_values` reads of each env file. A variable without a value
is left out. -/
def parseEnvironmentVariables (config : DeploymentConfig) : Dict (List Char) (List Char) :=
  config.envFiles.foldl (fun env file => env.updateWith id (values file)) config.env

/-- `load_environment_variables`: the environment afterwards. An empty value is not set. -/
def loadEnvironmentVariables (config : DeploymentConfig) (environ : Dict (List Char) (List Char)) : Dict (List Char) (List Char) :=
  environ.updateWith (fun value => if value = [] then none else some value) (parseEnvironmentVariables values config)

end Environment

end LlamaAgents
