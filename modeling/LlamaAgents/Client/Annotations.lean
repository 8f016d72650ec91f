import LlamaAgents.Lib.Dict
import LlamaAgents.Lib.Lines

/-!
# Error annotations in the YAML of a deployment

How `apply_yaml.py` writes the errors of an apply into the text that was applied, and takes them out again. A text is the list of its
characters. What the YAML parser makes of a text is given: nothing, or a tree of nodes, in which every key has its line.
-/

namespace LlamaAgents

open Lib (Dict splitLines isBreak)

/-- A part of the path of an error. -/
inductive PathPart where
  | name (text : List Char)
  | index (n : Int)
deriving DecidableEq

/-- `str(part)`. -/
def PathPart.text : PathPart → List Char
  | .name text => text
  | .index n => (toString n).toList

/-- `FieldError`. -/
structure FieldError where
  path : List PathPart
  message : List Char
deriving DecidableEq

/-- The whitespace of a regular expression. -/
def isSpace (c : Char) : Bool :=
  [0x20, 0x85, 0xa0, 0x1680, 0x2028, 0x2029, 0x202f, 0x205f, 0x3000].contains c.toNat ||
    (0x09 ≤ c.toNat && c.toNat ≤ 0x0d) || (0x1c ≤ c.toNat && c.toNat ≤ 0x1f) || (0x2000 ≤ c.toNat && c.toNat ≤ 0x200a)

/-- `_ANNOTATION_RE.match`. -/
def isAnnotationLine (line : List Char) : Bool := "## ERROR:".toList.isPrefixOf (line.dropWhile isSpace)

/-- `_strip_existing_annotations`. -/
def stripExistingAnnotations (text : List Char) : List Char := ((splitLines text).filter fun line => !isAnnotationLine line).flatten

/-- `_path_label`. -/
def pathLabel (path : List PathPart) : List Char := ['.'].intercalate (path.map PathPart.text)

/-- `text.splitlines()`: a line has breaks only at its end. -/
def bareLines (text : List Char) : List (List Char) := (splitLines text).map fun line => line.filter fun c => !isBreak c

/-- The lines of a message, at least one. -/
def messageLines (message : List Char) : List (List Char) := if (bareLines message).isEmpty then [[]] else bareLines message

/-- The lines of `_annotation_text`. -/
def annotationLines (includePath : Bool) (indent : Nat) (error : FieldError) : List (List Char) :=
  let message := if includePath && !error.path.isEmpty then pathLabel error.path ++ ": ".toList ++ error.message else error.message
  (messageLines message).map fun line => List.replicate indent ' ' ++ "## ERROR: ".toList ++ line ++ ['\n']

/-- `_annotation_text`. -/
def annotationText (includePath : Bool) (indent : Nat) (error : FieldError) : List Char :=
  (annotationLines includePath indent error).flatten

/-- The number of blanks at the start of a line. -/
def indentOf (line : List Char) : Nat := (line.takeWhile (· = ' ')).length

/-- Whether a line is a doc comment with an indent. -/
def isDocLine (indent : Nat) (line : List Char) : Bool :=
  decide (indentOf line = indent) && "## ".toList.isPrefixOf (line.dropWhile (· = ' '))

/-- The loop of `_key_insert_line`. -/
def climbDocLines (lines : List (List Char)) (indent : Nat) : Nat → Nat
  | 0 => 0
  | current + 1 => if isDocLine indent (lines.getD current []) then climbDocLines lines indent current else current + 1

/-- `_key_insert_line`. -/
def keyInsertLine (lines : List (List Char)) (keyLine : Nat) : Nat := climbDocLines lines (indentOf (lines.getD keyLine [])) keyLine

/-! ## The lines of keys -/

mutual

/-- A node of the YAML parser. What a sequence holds is never looked at. -/
inductive YamlNode where
  | scalar (value : List Char)
  | sequence
  | mapping (entries : YamlEntries)

/-- The entries of a mapping: a key with its line, and its value. -/
inductive YamlEntries where
  | nil
  | cons (key : YamlNode) (line : Nat) (value : YamlNode) (rest : YamlEntries)

end

mutual

/-- Whether all keys that are gone through have lines before one. -/
def YamlNode.linesBelow (n : Nat) : YamlNode → Bool
  | .mapping entries => entries.linesBelow n
  | _ => true

def YamlEntries.linesBelow (n : Nat) : YamlEntries → Bool
  | .nil => true
  | .cons _ line value rest => decide (line < n) && value.linesBelow n && rest.linesBelow n

end

/-- What `yaml.compose` makes of a text, without recursive aliases. The lines of the keys are lines of the text. -/
structure YamlParser where
  compose : List Char → Option YamlNode
  inText : ∀ text root, compose text = some root → root.linesBelow (splitLines text).length = true

/-- `SPEC_FIELDS`. -/
def specFields : List (List Char) :=
  ["repo_url".toList, "deployment_file_path".toList, "git_ref".toList, "appserver_version".toList, "suspended".toList,
    "personal_access_token".toList]

/-- Whether the line of a key is kept. -/
def isIndexed : List PathPart → Bool
  | [.name key] => key = "name".toList || key = "generate_name".toList
  | [.name top, .name key] => top = "spec".toList && (specFields.contains key || key = "secrets".toList)
  | [.name top, .name field, .name _] => top = "spec".toList && field = "secrets".toList
  | _ => false

/-- The lines of paths. -/
abbrev KeyLines := Dict (List PathPart) Nat

mutual

/-- Of the values only mappings are gone through. -/
def YamlNode.indexNode (path : List PathPart) (index : KeyLines) : YamlNode → Except String KeyLines
  | .mapping entries => entries.indexMappingNode path index
  | _ => .ok index

/-- `_index_mapping_node`. The value of a key that is no scalar is a list, which cannot be part of a path in a set. -/
def YamlEntries.indexMappingNode (path : List PathPart) (index : KeyLines) : YamlEntries → Except String KeyLines
  | .nil => .ok index
  | .cons key line value rest =>
    match key with
    | .scalar key =>
      let childPath := path ++ [.name key]
      match value.indexNode childPath (if isIndexed childPath then index.set childPath line else index) with
      | .error e => .error e
      | .ok index => rest.indexMappingNode path index
    | _ => .error "unhashable type: 'list'"

end

/-- `_index_apply_paths`: nothing for a text that is no mapping. -/
def YamlParser.indexApplyPaths (yaml : YamlParser) (text : List Char) : Except String (Option KeyLines) :=
  match yaml.compose text with
  | some (.mapping entries) => (entries.indexMappingNode [] ∅).map some
  | _ => .ok none

/-! ## Annotations -/

/-- The errors grouped by the line that they are put before. -/
def groupErrors (place : FieldError → Option Nat) (errors : List FieldError) : Dict Nat (List FieldError) :=
  errors.foldl (fun grouped error =>
    match place error with
    | some line => grouped.set line ((grouped.get? line).getD [] ++ [error])
    | none => grouped) ∅

/-- The part of `annotate_yaml_with_errors` after the lines of the keys are known. -/
def annotateStripped (index : Option KeyLines) (errors : List FieldError) (stripped : List Char) : List Char :=
  match index with
  | none => errors.flatMap (annotationText true 0) ++ stripped
  | some index =>
    let lines := splitLines stripped
    let place (error : FieldError) := (index.get? error.path).map (keyInsertLine lines)
    let grouped := groupErrors place errors
    (errors.filter fun error => (place error).isNone).flatMap (annotationText true 0) ++
      lines.zipIdx.flatMap fun p => ((grouped.get? p.2).getD []).flatMap (annotationText false (indentOf p.1)) ++ p.1

/-- `annotate_yaml_with_errors`. -/
def annotateYamlWithErrors (yaml : YamlParser) (text : List Char) (errors : List FieldError) : Except String (List Char) :=
  let stripped := stripExistingAnnotations text
  if errors.isEmpty then .ok stripped
  else (yaml.indexApplyPaths stripped).map fun index => annotateStripped index errors stripped

end LlamaAgents
