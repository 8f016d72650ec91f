import LlamaAgents.Operator.Deployment
import Mathlib.Data.List.DropRight

/-!
# The ids of deployments

How `k8s_client.py` picks the id of a new deployment. A text is the list of its characters, and lower-casing is given. The draws of
`random` and the answers of the API server are given for each round.
-/

namespace LlamaAgents

/-- The letters of a DNS label. -/
def isLabelLetter (c : Char) : Bool := 'a' ≤ c && c ≤ 'z'

/-- The digits of a DNS label. -/
def isLabelDigit (c : Char) : Bool := '0' ≤ c && c ≤ '9'

/-! ## Random suffixes -/

/-- The draws for one suffix: its hexadecimal digits, and a letter for the case that it stands alone and starts with a digit. -/
structure SuffixDraw where
  digits : Fin 5 → Fin 16
  letter : Fin 6

/-- The characters of `random.choices`. -/
def hexDigit (i : Nat) : Char := "0123456789abcdef".toList.getD i '0'

/-- `_append_random_suffix`. -/
def appendRandomSuffix (draw : SuffixDraw) (deploymentId : List Char) (maxLength : Nat) : List Char :=
  let hexSuffix := (List.ofFn draw.digits).map fun i => hexDigit i
  if deploymentId.isEmpty then
    if hexSuffix.head?.any isLabelDigit then hexDigit (10 + draw.letter) :: hexSuffix.tail else hexSuffix
  else deploymentId.take (maxLength - 5 - 1) ++ '-' :: hexSuffix

/-! ## The search for an id -/

/-- A run of hyphens becomes one. -/
def collapseHyphens : List Char → List Char
  | '-' :: '-' :: rest => collapseHyphens ('-' :: rest)
  | c :: rest => c :: collapseHyphens rest
  | [] => []

/-- A hyphen at the start is taken away. -/
def trimFirst (text : List Char) : List Char := if text.head? = some '-' then text.tail else text

/-- A hyphen at the end is taken away. -/
def trimLast (text : List Char) : List Char := if text.getLast? = some '-' then text.dropLast else text

/-- A text that does not start with a letter gets one in front. -/
def startWithLetter (text : List Char) : List Char :=
  if text.head?.any fun c => !isLabelLetter c then 'd' :: '-' :: text else text

/-- The id that `find_deployment_id` makes of a name before it adds a suffix. -/
def baseDeploymentId (lower : List Char → List Char) (name : List Char) : List Char :=
  let id := (lower name).map fun c => if isLabelLetter c || isLabelDigit c then c else '-'
  ((startWithLetter (trimLast (trimFirst (collapseHyphens id)))).take 63).rdropWhile (· = '-')

/-- What goes wrong when an id is picked. -/
inductive DeploymentIdError where
  | exhausted (id : List Char)
  | reserved (id : List Char)
  | inUse (id : List Char)

/-- The loop of `find_deployment_id`, with the rounds that are left and the number of the round. -/
def findFreeId (available : Nat → List Char → Bool) (draws : Nat → SuffixDraw) (base : List Char) :
    Nat → Nat → List Char → Except DeploymentIdError (List Char)
  | 0, _, id => .error (.exhausted id)
  | rounds + 1, i, id =>
    if available i id then .ok id
    else findFreeId available draws base rounds (i + 1) (appendRandomSuffix (draws (i + 1)) base 63)

/-- `find_deployment_id`. -/
def findDeploymentId (lower : List Char → List Char) (available : Nat → List Char → Bool) (draws : Nat → SuffixDraw)
    (name : List Char) (forceSuffix : Bool) : Except DeploymentIdError (List Char) :=
  let base := baseDeploymentId lower name
  let id := if base.length < 3 || forceSuffix then appendRandomSuffix (draws 0) base 63 else base
  findFreeId available draws base 99 0 id

/-- `reserved_deployment_ids`. -/
def reservedDeploymentIds : List (List Char) :=
  ["validate-repository".toList, "list-projects".toList, "organizations".toList, "version".toList]

/-- The id of a deployment that `create_deployment` creates. -/
def selectDeploymentId (lower : List Char → List Char) (available : Nat → List Char → Bool) (draws : Nat → SuffixDraw)
    (displayName : List Char) : (explicitId : Option (List Char)) → Except DeploymentIdError (List Char)
  | some id =>
    if reservedDeploymentIds.contains (lower id) then .error (.reserved id)
    else if !available 0 id then .error (.inUse id)
    else .ok id
  | none => findDeploymentId lower available draws displayName (reservedDeploymentIds.contains (lower displayName))

end LlamaAgents
