import LlamaAgents.Core.DeploymentConfig

/-!
# The validation of a deployment config

How `_git_service.py` validates the config of a repository on a checkout at a commit. The checkout is a directory of the machine,
whose whole tree of files is given.
-/

namespace LlamaAgents

open Lib (FilePath FileTree)

/-- The result of a validation: `GitApplicationValidationResponse`. -/
structure ConfigVerdict where
  isValid : Bool
  errorMessage : Option String := none
  uiBuildOutputPath : Option FilePath := none

/-- `deployment_file_path or DEFAULT_DEPLOYMENT_FILE_PATH`. -/
def requestedPath (deploymentFilePath : Option (List Char)) : List Char := (deploymentFilePath.filter (· ≠ [])).getD (Chars ".")

section Validation

variable {α : Type} (formats : ConfigFormats α) (t : FileTree α) (root : FilePath)

/-- The config at a path, read and validated. -/
def readValidConfig (configPath : FilePath) : Reading DeploymentConfig := do
  let config ← readDeploymentConfig formats t root configPath
  let _ ← .ofExcept config.validateConfig
  pure config

/-- An error of the reader makes the config invalid. -/
def orInvalid {β : Type} (r : Reading β) (f : β → Reading ConfigVerdict) : Reading ConfigVerdict :=
  match r.result with
  | .ok b => r.andThen fun _ => f b
  | .error e => (.ok { isValid := false, errorMessage := some ("Invalid deployment config: " ++ e) }, r.opened)

/-- `path.relative_to(root)`. -/
def relativeTo (path : FilePath) : Except String FilePath :=
  if path.isAbsolute = root.isAbsolute ∧ root.parts <+: path.parts then .ok ⟨false, path.parts.drop root.parts.length⟩
  else .error (String.ofList path.text ++ " is not in the subpath of " ++ String.ofList root.text)

/-- The response for a valid config. -/
def respondValid (configPath : FilePath) (config : DeploymentConfig) : Reading ConfigVerdict := do
  let configParent := resolveConfigParent t root configPath
  match ← LlamaAgents.uiBuildOutputPath formats t configParent config with
  | none => pure { isValid := true }
  | some dist =>
    let relative ← .ofExcept (relativeTo root (configParent.join dist))
    pure { isValid := true, uiBuildOutputPath := some relative }

/-- `_validate_via_clone` on the machine with the checkout at a directory. -/
def validateViaClone (deploymentFilePath : Option (List Char)) : Reading ConfigVerdict :=
  let configPath := root.join (.ofText (requestedPath deploymentFilePath))
  orInvalid (readValidConfig formats t root configPath) (respondValid formats t root configPath)

end Validation

end LlamaAgents
