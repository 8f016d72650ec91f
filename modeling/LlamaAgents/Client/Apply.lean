import LlamaAgents.Client.Annotations
import LlamaAgents.ControlPlane.Update
import LlamaAgents.Lib.Json

/-!
# Getting a deployment and applying it

`llamactl` shows a deployment as a document and applies a document as an update. On the way a spec is a response of the control plane,
the display model of the client, a document of JSON values, the display model again and an update. A field of the display model may be
unset, null or have a value.
-/

namespace LlamaAgents.Apply

open Lib (Dict Json)

/-- `SECRET_MASK`. -/
def secretMask : String := "********"

/-! ## The response of the control plane -/

/-- What versions rest on: the digits of Python, its `repr`, and how a version is parsed, to its epoch and whether it has a local
segment. -/
structure VersionRules where
  isDigit : Char → Bool
  repr : String → String
  parse : String → Option (Nat × Bool)

/-- `validate_appserver_version`: the error, if there is one. -/
def VersionRules.error? (rules : VersionRules) (value : String) : Option String :=
  match rules.parse value with
  | none => some ("invalid appserver_version " ++ rules.repr value ++ ", expected something like '0.11.3'")
  | some (epoch, hasLocal) =>
    if epoch ≠ 0 then some ("invalid appserver_version " ++ rules.repr value ++ " (epoch not supported)")
    else if hasLocal then some ("invalid appserver_version " ++ rules.repr value ++ " (local segment not supported)")
    else none

/-- Whether an image tag has `APPSERVER_TAG_PREFIX`. -/
def isLegacyTag (tag : String) : Bool := "appserver-".toList.isPrefixOf tag.toList

/-- An image tag as the operator reads it, without the legacy start. -/
def trimLegacyTag (tag : String) : String := Lib.trimPrefix "appserver-" tag

/-- `image_tag_to_version`. -/
def imageTagToVersion (rules : VersionRules) (tag : String) : Option String :=
  if isLegacyTag tag then some (trimLegacyTag tag) else if tag.toList.head?.any rules.isDigit then some tag else none

/-- `DeploymentResponse`. The document that its status makes is given. -/
structure DeploymentResponse where
  id : String
  displayName : String
  repoUrl : String
  deploymentFilePath : String
  gitRef : Option String
  hasPersonalAccessToken : Bool
  secretNames : Option (List String)
  appserverVersion : Option String
  suspended : Bool
  status : Json

/-- The version that a response derives from the image tag. -/
def derivedVersion (rules : VersionRules) (spec : LlamaDeploymentSpec) : Option String :=
  if isFilled spec.imageTag then spec.imageTag.bind (imageTagToVersion rules) else none

/-- `_llamadeployment_to_response`. -/
def toResponse (rules : VersionRules) (spec : LlamaDeploymentSpec) (id : String) (status : Json)
    (secretNames : Option (List String)) : DeploymentResponse :=
  let filtered := (secretNames.getD []).filter (· ≠ "GITHUB_PAT")
  { id := id
    displayName := spec.displayName.getD ""
    repoUrl := spec.repoUrl
    deploymentFilePath := spec.deploymentFilePath
    gitRef := spec.gitRef
    hasPersonalAccessToken := (secretNames.getD []).contains "GITHUB_PAT"
    secretNames := if filtered.isEmpty then none else some filtered
    appserverVersion := derivedVersion rules spec
    suspended := spec.suspended
    status := status }

/-! ## The display model -/

/-- `DeploymentSpec`: each field may be unset, and when it is set, null. -/
structure DeploymentSpec where
  repoUrl : Option (Option String) := none
  deploymentFilePath : Option (Option String) := none
  gitRef : Option (Option String) := none
  appserverVersion : Option (Option String) := none
  suspended : Option (Option Bool) := none
  secrets : Option (Option (Dict String (Option String))) := none
  personalAccessToken : Option (Option String) := none

/-- `DeploymentDisplay`. -/
structure DeploymentDisplay where
  name : Option String := none
  generateName : Option String := none
  spec : DeploymentSpec
  status : Option Json := none

/-- `DeploymentDisplay.from_response`. -/
def DeploymentDisplay.fromResponse (r : DeploymentResponse) : DeploymentDisplay :=
  let names := r.secretNames.getD []
  { name := some r.id
    generateName := some r.displayName
    spec :=
      { repoUrl := some (some r.repoUrl)
        deploymentFilePath := some (some r.deploymentFilePath)
        gitRef := some r.gitRef
        appserverVersion := some r.appserverVersion
        suspended := some (some r.suspended)
        secrets := some (if names.isEmpty then none else some (Dict.ofList (names.map fun name => (name, some secretMask))))
        personalAccessToken := some (if r.hasPersonalAccessToken then some secretMask else none) }
    status := some r.status }

/-- A text or null as a value. -/
def jsonText : Option String → Json
  | none => .null
  | some s => .str s

/-- The fields of a spec with their values; what is unset or null has none. -/
def DeploymentSpec.values (spec : DeploymentSpec) : List (String × Option Json) :=
  [("repo_url", spec.repoUrl.join.map .str), ("deployment_file_path", spec.deploymentFilePath.join.map .str),
    ("git_ref", spec.gitRef.join.map .str), ("appserver_version", spec.appserverVersion.join.map .str),
    ("suspended", spec.suspended.join.map .bool),
    ("secrets", spec.secrets.join.map fun secrets => .dict (secrets.entries.map fun e => (e.1, jsonText e.2))),
    ("personal_access_token", spec.personalAccessToken.join.map .str)]

/-- `to_output_dict`. -/
def DeploymentDisplay.toOutputDict (display : DeploymentDisplay) : List (String × Json) :=
  [("name", jsonText display.name)] ++ (display.generateName.map fun name => ("generate_name", Json.str name)).toList ++
    [("spec", .dict (display.spec.values.filterMap fun e => e.2.map fun v => (e.1, v)))] ++
    (display.status.map fun status => ("status", status)).toList

/-! ## Reading a document -/

/-- What was read of a field, and what is wrong with it. -/
structure Read (α : Type) where
  value : α
  errors : List FieldError := []

/-- The path of an error by names. -/
def namedPath (names : List String) : List PathPart := names.map fun name => .name name.toList

/-- One error, at a path. -/
def errorAt (path : List String) (message : String) : List FieldError := [⟨namedPath path, message.toList⟩]

/-- A field with a text or null. -/
def readText (path : List String) : Option Json → Read (Option (Option String))
  | none => { value := none }
  | some .null => { value := some none }
  | some (.str s) => { value := some (some s) }
  | some _ => { value := none, errors := errorAt path "Input should be a valid string" }

/-- The texts that stand for a truth value. -/
def flagOfText (text : String) : Option Bool :=
  if ["1", "on", "t", "true", "y", "yes"].contains text.toLower then some true
  else if ["0", "off", "f", "false", "n", "no"].contains text.toLower then some false
  else none

/-- A field with a truth value or null. -/
def readFlag (path : List String) : Option Json → Read (Option (Option Bool))
  | none => { value := none }
  | some .null => { value := some none }
  | some (.bool b) => { value := some (some b) }
  | some (.num n) =>
    if n = 0 then { value := some (some false) } else if n = 1 then { value := some (some true) }
    else { value := none, errors := errorAt path "Input should be a valid boolean, unable to interpret input" }
  | some (.str s) =>
    match flagOfText s with
    | some b => { value := some (some b) }
    | none => { value := none, errors := errorAt path "Input should be a valid boolean, unable to interpret input" }
  | some _ => { value := none, errors := errorAt path "Input should be a valid boolean" }

/-- A field with texts or nulls by name, or null. -/
def readSecrets (path : List String) : Option Json → Read (Option (Option (Dict String (Option String))))
  | none => { value := none }
  | some .null => { value := some none }
  | some (.dict entries) =>
    let read := entries.map fun e => (e.1, readText (path ++ [e.1]) (some e.2))
    { value := some (some (Dict.ofList (read.map fun e => (e.1, e.2.value.join))))
      errors := read.flatMap fun e => e.2.errors }
  | some _ => { value := none, errors := errorAt path "Input should be a valid dictionary" }

/-- Fields that a model does not have. -/
def extraErrors (path known : List String) (entries : List (String × Json)) : List FieldError :=
  (entries.filter fun e => !known.contains e.1).flatMap fun e => errorAt (path ++ [e.1]) "Extra inputs are not permitted"

/-- `DeploymentSpec.model_validate`. -/
def readSpec (entries : List (String × Json)) : Read DeploymentSpec :=
  let text (field : String) := readText ["spec", field] (Dict.lookup field entries)
  let repoUrl := text "repo_url"
  let deploymentFilePath := text "deployment_file_path"
  let gitRef := text "git_ref"
  let appserverVersion := text "appserver_version"
  let suspended := readFlag ["spec", "suspended"] (Dict.lookup "suspended" entries)
  let secrets := readSecrets ["spec", "secrets"] (Dict.lookup "secrets" entries)
  let personalAccessToken := text "personal_access_token"
  { value :=
      { repoUrl := repoUrl.value
        deploymentFilePath := deploymentFilePath.value
        gitRef := gitRef.value
        appserverVersion := appserverVersion.value
        suspended := suspended.value
        secrets := secrets.value
        personalAccessToken := personalAccessToken.value }
    errors := repoUrl.errors ++ deploymentFilePath.errors ++ gitRef.errors ++ appserverVersion.errors ++ suspended.errors ++
      secrets.errors ++ personalAccessToken.errors ++
      extraErrors ["spec"] ["repo_url", "deployment_file_path", "git_ref", "appserver_version", "suspended", "secrets",
        "personal_access_token"] entries }

/-- `DeploymentDisplay.model_validate`, after the status was dropped. -/
def modelValidate (raw : List (String × Json)) : Except (List FieldError) DeploymentDisplay :=
  let raw := Dict.drop "status" raw
  let name := readText ["name"] (Dict.lookup "name" raw)
  let generateName := readText ["generate_name"] (Dict.lookup "generate_name" raw)
  let spec : Read DeploymentSpec := match Dict.lookup "spec" raw with
    | none => { value := {}, errors := errorAt ["spec"] "Field required" }
    | some (.dict entries) => readSpec entries
    | some _ => { value := {}, errors := errorAt ["spec"] "Input should be a valid dictionary or instance of DeploymentSpec" }
  match name.errors ++ generateName.errors ++ spec.errors ++ extraErrors [] ["name", "generate_name", "spec"] raw with
  | [] => .ok { name := name.value.join, generateName := generateName.value.join, spec := spec.value }
  | errors => .error errors

/-! ## References to the environment -/

/-- The variable of a reference at the start of a text, `_ENV_VAR_RE`. -/
def reference? : List Char → Option (List Char)
  | '$' :: '\x7b' :: rest =>
    let var := rest.takeWhile (· ≠ '\x7d')
    if var ≠ [] ∧ '\x7d' ∈ rest then some var else none
  | _ => none

/-- Whether there is a reference in a text. -/
def hasReference : List Char → Bool
  | [] => false
  | c :: rest => (reference? (c :: rest)).isSome || hasReference rest

/-- `_resolve_string`: the text with the values of its references, and those without one. The characters of a reference are passed
over once its value stands. -/
def resolveChars (env : String → Option String) : Nat → List Char → List Char × List String
  | _, [] => ([], [])
  | passed + 1, _ :: rest => resolveChars env passed rest
  | 0, c :: rest =>
    match reference? (c :: rest) with
    | none => ((c :: (resolveChars env 0 rest).1), (resolveChars env 0 rest).2)
    | some var =>
      let tail := resolveChars env (var.length + 2) rest
      match env (String.ofList var) with
      | none => ('$' :: '\x7b' :: var ++ '\x7d' :: tail.1, String.ofList var :: tail.2)
      | some value => (value.toList ++ tail.1, tail.2)

/-- `_resolve_string`. -/
def resolveString (env : String → Option String) (text : String) : String × List String :=
  (String.ofList (resolveChars env 0 text.toList).1, (resolveChars env 0 text.toList).2)

/-- A field with its references resolved, and those that are not, with the path. -/
def resolveField (env : String → Option String) (path : List String) : Option (Option String) →
    Option (Option String) × List (String × List String)
  | some (some text) => (some (some (resolveString env text).1), (resolveString env text).2.map fun var => (var, path))
  | field => (field, [])

/-- The secrets with their references resolved. -/
def resolveSecrets (env : String → Option String) : Option (Option (Dict String (Option String))) →
    Option (Option (Dict String (Option String))) × List (String × List String)
  | some (some secrets) =>
    (some (some (secrets.map fun value => value.map fun text => (resolveString env text).1)),
      secrets.entries.flatMap fun e => (resolveField env ["spec", "secrets", e.1] (some e.2)).2)
  | field => (field, [])

/-- `_resolve_spec_env_vars`: the resolved spec, and what is not resolved. -/
def resolveSpecEnvVars (env : String → Option String) (spec : DeploymentSpec) : DeploymentSpec × List (String × List String) :=
  let repoUrl := resolveField env ["spec", "repo_url"] spec.repoUrl
  let deploymentFilePath := resolveField env ["spec", "deployment_file_path"] spec.deploymentFilePath
  let gitRef := resolveField env ["spec", "git_ref"] spec.gitRef
  let appserverVersion := resolveField env ["spec", "appserver_version"] spec.appserverVersion
  let personalAccessToken := resolveField env ["spec", "personal_access_token"] spec.personalAccessToken
  let secrets := resolveSecrets env spec.secrets
  ({ spec with
      repoUrl := repoUrl.1
      deploymentFilePath := deploymentFilePath.1
      gitRef := gitRef.1
      appserverVersion := appserverVersion.1
      personalAccessToken := personalAccessToken.1
      secrets := secrets.1 },
    repoUrl.2 ++ deploymentFilePath.2 ++ gitRef.2 ++ appserverVersion.2 ++ personalAccessToken.2 ++ secrets.2)

/-- The errors of `UnresolvedEnvVarsError`: one for each path. -/
def unresolvedErrors (unresolved : List (String × List String)) : List FieldError :=
  (unresolved.map Prod.snd).eraseDups.flatMap fun path =>
    let names := ((unresolved.filter fun e => e.2 = path).map Prod.fst).eraseDups.insertionSort (· ≤ ·)
    errorAt path ("unresolved environment variables: " ++ ", ".intercalate names)

/-! ## The update -/

/-- `strip_masks`, for the fields that are set. -/
def stripMasks (spec : DeploymentSpec) : DeploymentSpec :=
  { spec with
    secrets := match spec.secrets with
      | some (some secrets) =>
        let filtered := secrets.filter fun _ value => value ≠ some secretMask
        if filtered.entries.isEmpty then none else some (some filtered)
      | field => field
    personalAccessToken := if spec.personalAccessToken = some (some secretMask) then none else spec.personalAccessToken }

/-- `parse_apply_yaml`, of a document that has been loaded. -/
def parseApplyYaml (env : String → Option String) (raw : List (String × Json)) : Except (List FieldError) DeploymentDisplay :=
  match modelValidate raw with
  | .error errors => .error errors
  | .ok display =>
    let (spec, unresolved) := resolveSpecEnvVars env display.spec
    if unresolved.isEmpty then .ok { display with spec := stripMasks spec } else .error (unresolvedErrors unresolved)

/-- `to_update_payload`. -/
def toUpdatePayload (rules : VersionRules) (display : DeploymentDisplay) : Except String DeploymentUpdate :=
  let spec := display.spec
  match spec.appserverVersion.join.bind rules.error? with
  | some error => .error ("Value error, " ++ error)
  | none =>
    .ok
      { displayName := display.generateName
        repoUrl := spec.repoUrl.join
        deploymentFilePath := spec.deploymentFilePath.join
        gitRef := spec.gitRef.join
        personalAccessToken := if spec.personalAccessToken = some none then some "" else spec.personalAccessToken.join
        secrets := spec.secrets.join
        appserverVersion := spec.appserverVersion.join
        suspended := spec.suspended.join }

/-- Why a document cannot be applied. -/
inductive ApplyError where
  | document (errors : List FieldError)
  | payload (error : String)

/-- The update that comes of getting a deployment and applying what was got. -/
def getAndApply (rules : VersionRules) (env : String → Option String) (spec : LlamaDeploymentSpec) (id : String) (status : Json)
    (secretNames : Option (List String)) : Except ApplyError DeploymentUpdate :=
  match parseApplyYaml env (DeploymentDisplay.fromResponse (toResponse rules spec id status secretNames)).toOutputDict with
  | .error errors => .error (.document errors)
  | .ok display => (toUpdatePayload rules display).mapError .payload

end LlamaAgents.Apply
