import LlamaAgents.Client.Annotations
import Mathlib.Data.List.Induction

/-!
# Annotations are reversible and stable

An annotated text is the stripped one with notices between its lines, each of which is taken for an annotation. So the annotations can
be taken away, and are the same when they are made again. That the lines of keys are found takes keys that are scalars: the path of
another key cannot be hashed.
-/

namespace LlamaAgents

open Lib (splitLines isBreak IsLine IsNotice AreLines withNotices)

mutual

/-- Whether all keys that are gone through are scalars. -/
def YamlNode.plainKeys : YamlNode → Bool
  | .mapping entries => entries.plainKeys
  | _ => true

def YamlEntries.plainKeys : YamlEntries → Bool
  | .nil => true
  | .cons (.scalar _) _ value rest => value.plainKeys && rest.plainKeys
  | .cons _ _ _ _ => false

end

/-- Whether all keys of a text are scalars, as far as they are gone through. -/
def YamlParser.hasPlainKeys (yaml : YamlParser) (text : List Char) : Bool := (yaml.compose text).all YamlNode.plainKeys

/-- The lines of the keys of a text, if it has any. -/
def YamlParser.keyLines (yaml : YamlParser) (text : List Char) : Option KeyLines := (yaml.indexApplyPaths text).toOption.join

/-- The line of the key of an error. -/
def keyLineOf (index : Option KeyLines) (error : FieldError) : Option Nat := index.bind (·.get? error.path)

/-- The line that an error is put before; without one it stands at the top. -/
def placeOf (index : Option KeyLines) (stripped : List Char) (error : FieldError) : Option Nat :=
  (keyLineOf index error).map (keyInsertLine (splitLines stripped))

/-- Whether a line is a doc comment of the key at another line. -/
def IsDocOf (lines : List (List Char)) (keyLine line : Nat) : Prop :=
  isDocLine (indentOf (lines.getD keyLine [])) (lines.getD line []) = true

/-- The lines that a text is to be shown as: the mark and a line of the text each, and the mark alone for an empty text. -/
def shownAs (indent : Nat) (text : List Char) : List (List Char) :=
  (if bareLines text = [] then [[]] else bareLines text).map fun line =>
    List.replicate indent ' ' ++ "## ERROR: ".toList ++ line ++ ['\n']

/-- What an error says at the top: its message, after its path if it has one. -/
def FieldError.label (error : FieldError) : List Char :=
  if error.path = [] then error.message else pathLabel error.path ++ ": ".toList ++ error.message

/-- The lines of an annotated text: the errors at the top, and before each line those that belong there. -/
def annotatedLines (index : Option KeyLines) (errors : List FieldError) (stripped : List Char) : List (List Char) :=
  (errors.filter fun error => (placeOf index stripped error).isNone).flatMap (fun error => shownAs 0 error.label) ++
    withNotices (fun p => (errors.filter fun error => placeOf index stripped error = some p.2).flatMap
      fun error => shownAs (indentOf p.1) error.message) (splitLines stripped) 0

/-- An annotated text: its annotations can be taken away, and are the same when they are made again; every error stands at one place, at
the top when its path has no line, else before its line and the doc comments above it. -/
structure IsAnnotated (yaml : YamlParser) (errors : List FieldError) (stripped annotated : List Char) : Prop where
  reversible : stripExistingAnnotations annotated = stripped
  stable : annotateYamlWithErrors yaml annotated errors = .ok annotated
  lines : splitLines annotated = annotatedLines (yaml.keyLines stripped) errors stripped
  top : ∀ error, keyLineOf (yaml.keyLines stripped) error = none → placeOf (yaml.keyLines stripped) stripped error = none
  placed : ∀ error keyLine, keyLineOf (yaml.keyLines stripped) error = some keyLine →
    ∃ line, placeOf (yaml.keyLines stripped) stripped error = some line ∧ line ≤ keyLine ∧ keyLine < (splitLines stripped).length ∧
      (∀ doc, line ≤ doc → doc < keyLine → IsDocOf (splitLines stripped) keyLine doc) ∧
      ∀ above, above + 1 = line → ¬IsDocOf (splitLines stripped) keyLine above

namespace AnnotationsAux

variable {index : Option KeyLines} {errors : List FieldError} {stripped : List Char}

/-! ## The index -/

mutual

/-- The keys of a node are indexed exactly when they are scalars. -/
theorem indexNode_ok_iff (path : List PathPart) (lines : KeyLines) :
    ∀ node : YamlNode, (∃ lines', node.indexNode path lines = .ok lines') ↔ node.plainKeys = true
  | .scalar _ => ⟨fun _ => rfl, fun _ => ⟨lines, rfl⟩⟩
  | .sequence => ⟨fun _ => rfl, fun _ => ⟨lines, rfl⟩⟩
  | .mapping entries => indexMappingNode_ok_iff path lines entries

theorem indexMappingNode_ok_iff (path : List PathPart) (lines : KeyLines) :
    ∀ entries : YamlEntries, (∃ lines', entries.indexMappingNode path lines = .ok lines') ↔ entries.plainKeys = true
  | .nil => ⟨fun _ => rfl, fun _ => ⟨lines, rfl⟩⟩
  | .cons .sequence _ _ _ => ⟨fun h => (by cases h.choose_spec), fun h => (by cases h)⟩
  | .cons (.mapping _) _ _ _ => ⟨fun h => (by cases h.choose_spec), fun h => (by cases h)⟩
  | .cons (.scalar key) line value rest => by
    have hvalue := indexNode_ok_iff (path ++ [.name key])
      (if isIndexed (path ++ [.name key]) then lines.set (path ++ [.name key]) line else lines) value
    rw [YamlEntries.indexMappingNode, YamlEntries.plainKeys, Bool.and_eq_true, ← hvalue]
    cases hok : value.indexNode (path ++ [.name key])
      (if isIndexed (path ++ [.name key]) then lines.set (path ++ [.name key]) line else lines) with
    | error e => simp
    | ok lines' =>
      rw [← indexMappingNode_ok_iff path lines' rest]
      simp

end

mutual

/-- The lines of an index are those of keys. -/
theorem indexNode_lines {n : Nat} {path : List PathPart} {lines lines' : KeyLines}
    (hlines : ∀ p line, lines.get? p = some line → line < n) :
    ∀ node : YamlNode, node.linesBelow n = true → node.indexNode path lines = .ok lines' →
      ∀ p line, lines'.get? p = some line → line < n
  | .scalar _, _, h => by
    cases h
    exact hlines
  | .sequence, _, h => by
    cases h
    exact hlines
  | .mapping entries, hbelow, h => indexMappingNode_lines hlines entries hbelow h

theorem indexMappingNode_lines {n : Nat} {path : List PathPart} {lines lines' : KeyLines}
    (hlines : ∀ p line, lines.get? p = some line → line < n) :
    ∀ entries : YamlEntries, entries.linesBelow n = true → entries.indexMappingNode path lines = .ok lines' →
      ∀ p line, lines'.get? p = some line → line < n
  | .nil, _, h => by
    cases h
    exact hlines
  | .cons .sequence _ _ _, _, h => by cases h
  | .cons (.mapping _) _ _ _, _, h => by cases h
  | .cons (.scalar key) line value rest, hbelow, h => by
    rw [YamlEntries.linesBelow, Bool.and_eq_true, Bool.and_eq_true, decide_eq_true_eq] at hbelow
    obtain ⟨⟨hline, hvalue⟩, hrest⟩ := hbelow
    have hset : ∀ p l, (if isIndexed (path ++ [.name key]) then lines.set (path ++ [.name key]) line else lines).get? p = some l →
        l < n := by
      intro p l hget
      split at hget
      · rw [Lib.Dict.get?_set] at hget
        split at hget
        · cases hget
          exact hline
        · exact hlines p l hget
      · exact hlines p l hget
    rw [YamlEntries.indexMappingNode] at h
    split at h
    · cases h
    · case h_2 hok => exact indexMappingNode_lines (indexNode_lines hset value hvalue hok) rest hrest h

end

/-- A text is indexed exactly when its keys are scalars. -/
theorem indexApplyPaths_ok_iff (yaml : YamlParser) (text : List Char) :
    (∃ index, yaml.indexApplyPaths text = .ok index) ↔ yaml.hasPlainKeys text = true := by
  unfold YamlParser.indexApplyPaths YamlParser.hasPlainKeys
  split
  · case h_1 entries hroot =>
    rw [hroot, Option.all_some, YamlNode.plainKeys, ← indexMappingNode_ok_iff [] ∅ entries]
    cases entries.indexMappingNode [] ∅ with
    | error e => simp [Except.map]
    | ok lines => simp [Except.map]
  · case h_2 hroot =>
    refine ⟨fun _ => ?_, fun _ => ⟨none, rfl⟩⟩
    cases hcompose : yaml.compose text with
    | none => rfl
    | some root =>
      cases root with
      | scalar value => rfl
      | sequence => rfl
      | mapping entries => exact absurd hcompose (hroot entries)

/-- The lines that a text is indexed with are lines of the text. -/
theorem keyLineOf_lt {yaml : YamlParser} {text : List Char} {error : FieldError} {line : Nat}
    (h : keyLineOf (yaml.keyLines text) error = some line) : line < (splitLines text).length := by
  obtain ⟨lines, hlines, hline⟩ := Option.bind_eq_some_iff.1 h
  unfold YamlParser.keyLines YamlParser.indexApplyPaths at hlines
  split at hlines
  · case h_1 entries hroot =>
    have hbelow := yaml.inText text _ hroot
    cases hok : entries.indexMappingNode [] ∅ with
    | error e =>
      rw [hok] at hlines
      cases hlines
    | ok lines' =>
      rw [hok] at hlines
      cases hlines
      exact indexMappingNode_lines (fun p l hget => by cases hget) entries hbelow hok _ _ hline
  · cases hlines

/-! ## The lines of an annotation -/

theorem isBreak_of_mem_messageLines {message body : List Char} (h : body ∈ messageLines message) : ∀ c ∈ body, isBreak c = false := by
  intro c hc
  unfold messageLines at h
  split at h
  · obtain rfl := List.mem_singleton.1 h
    exact absurd hc List.not_mem_nil
  · obtain ⟨line, -, rfl⟩ := List.mem_map.1 h
    simpa using (List.mem_filter.1 hc).2

theorem mem_annotationLines {includePath : Bool} {indent : Nat} {error : FieldError} {l : List Char}
    (h : l ∈ annotationLines includePath indent error) :
    ∃ body, (∀ c ∈ body, isBreak c = false) ∧ l = List.replicate indent ' ' ++ "## ERROR: ".toList ++ body ++ ['\n'] := by
  unfold annotationLines at h
  obtain ⟨body, hbody, rfl⟩ := List.mem_map.1 h
  exact ⟨body, isBreak_of_mem_messageLines hbody, rfl⟩

theorem isNotice_of_mem {includePath : Bool} {indent : Nat} {error : FieldError} {l : List Char}
    (h : l ∈ annotationLines includePath indent error) : IsNotice l := by
  obtain ⟨body, hbody, rfl⟩ := mem_annotationLines h
  refine ⟨Lib.isLine_of_body fun c hc => ?_, List.getLast?_concat, ?_⟩
  · rcases List.mem_append.1 hc with hc | hc
    · rcases List.mem_append.1 hc with hc | hc
      · rw [List.eq_of_mem_replicate hc]
        rfl
      · have hmark : "## ERROR: ".toList.all (fun c => !isBreak c) = true := by decide
        simpa using List.all_eq_true.1 hmark c hc
    · exact hbody c hc
  · cases indent with
    | zero => exact fun h => by cases h
    | succ indent => exact fun h => by cases h

theorem isAnnotationLine_of_mem {includePath : Bool} {indent : Nat} {error : FieldError} {l : List Char}
    (h : l ∈ annotationLines includePath indent error) : isAnnotationLine l = true := by
  obtain ⟨body, -, rfl⟩ := mem_annotationLines h
  have hblank : ∀ c ∈ List.replicate indent ' ', isSpace c = true := by
    intro c hc
    rw [List.eq_of_mem_replicate hc]
    rfl
  rw [isAnnotationLine, List.append_assoc, List.append_assoc, List.dropWhile_append_of_pos hblank]
  rfl

/-- An annotation is what its text is to be shown as. -/
theorem annotationLines_top (error : FieldError) : annotationLines true 0 error = shownAs 0 error.label := by
  unfold annotationLines shownAs messageLines FieldError.label
  simp [List.isEmpty_iff]

theorem annotationLines_line (indent : Nat) (error : FieldError) : annotationLines false indent error = shownAs indent error.message := by
  unfold annotationLines shownAs messageLines
  simp [List.isEmpty_iff]

/-! ## Lines without annotations -/

/-- A line feed after a line makes it no annotation. -/
theorem isAnnotationLine_lineFeed (l : List Char) : isAnnotationLine (l ++ ['\n']) = isAnnotationLine l := by
  unfold isAnnotationLine
  induction l with
  | nil => rfl
  | cons c l ih =>
    rw [List.cons_append, List.dropWhile_cons, List.dropWhile_cons]
    split
    · exact ih
    · rw [Bool.eq_iff_iff, List.isPrefixOf_iff_prefix, List.isPrefixOf_iff_prefix, ← List.cons_append, List.prefix_concat_iff]
      refine ⟨fun h => h.resolve_left fun heq => ?_, .inr⟩
      have hmem : '\n' ∈ "## ERROR:".toList := heq ▸ List.mem_append_right _ List.mem_cons_self
      exact absurd hmem (by decide)

/-- No line is an annotation once the annotations are taken away. -/
theorem isAnnotationLine_stripped {text l : List Char} (h : l ∈ splitLines (stripExistingAnnotations text)) : isAnnotationLine l = false := by
  have hlines := (Lib.areLines_splitLines text).filter fun line => !isAnnotationLine line
  rcases hlines.mem_splitLines l h with hl | ⟨l', hl', -, rfl⟩
  · simpa using (List.mem_filter.1 hl).2
  · rw [isAnnotationLine_lineFeed]
    simpa using (List.mem_filter.1 hl').2

/-! ## The layout -/

theorem get?_groupErrors (place : FieldError → Option Nat) (errors : List FieldError) (line : Nat) :
    ((groupErrors place errors).get? line).getD [] = errors.filter fun error => place error = some line := by
  induction errors using List.reverseRecOn with
  | nil => rfl
  | append_singleton errors error ih =>
    rw [groupErrors] at ih ⊢
    rw [List.foldl_concat, List.filter_append]
    generalize List.foldl _ _ errors = grouped at ih ⊢
    cases hplace : place error with
    | none => simp [ih, hplace]
    | some place' =>
      dsimp only
      rw [Lib.Dict.get?_set]
      split
      · case isTrue heq =>
        subst heq
        simp [ih, hplace]
      · case isFalse hne => simp [ih, hplace, hne]

theorem flatten_annotations (includePath : Bool) (indent : Nat) (errors : List FieldError) :
    (errors.flatMap (annotationLines includePath indent)).flatten = errors.flatMap (annotationText includePath indent) := by
  induction errors with
  | nil => rfl
  | cons error errors ih =>
    rw [List.flatMap_cons, List.flatten_append, ih, List.flatMap_cons]
    rfl

/-- An annotated text is its annotated lines. -/
theorem annotateStripped_eq (index : Option KeyLines) (errors : List FieldError) (stripped : List Char) :
    annotateStripped index errors stripped = (annotatedLines index errors stripped).flatten := by
  simp only [annotatedLines, ← annotationLines_top, ← annotationLines_line, List.flatten_append, flatten_annotations]
  unfold annotateStripped
  cases index with
  | none =>
    have htop : (errors.filter fun error => (placeOf none stripped error).isNone) = errors := List.filter_eq_self.2 fun _ _ => rfl
    have hnone : ∀ line, (errors.filter fun error => placeOf none stripped error = some line) = [] :=
      fun line => List.filter_eq_nil_iff.2 fun error _ => by simp [placeOf, keyLineOf]
    rw [htop, Lib.withNotices_none (fun p => by rw [hnone p.2]; rfl), Lib.flatten_splitLines]
  | some lines =>
    have hplace : ∀ error, placeOf (some lines) stripped error = (lines.get? error.path).map (keyInsertLine (splitLines stripped)) :=
      fun error => rfl
    simp only [get?_groupErrors, hplace, Lib.flatten_withNotices, flatten_annotations]

/-- The lines of an annotated text. -/
theorem splitLines_annotateStripped (index : Option KeyLines) (errors : List FieldError) (stripped : List Char) :
    splitLines (annotateStripped index errors stripped) = annotatedLines index errors stripped := by
  have hnotices : ∀ (f : FieldError → Bool) includePath indent, ∀ n ∈ (errors.filter f).flatMap (annotationLines includePath indent),
      IsNotice n := by
    intro f includePath indent n hn
    obtain ⟨error, -, hmem⟩ := List.mem_flatMap.1 hn
    exact isNotice_of_mem hmem
  rw [annotateStripped_eq]
  simp only [annotatedLines, ← annotationLines_top, ← annotationLines_line]
  rw [List.flatten_append, Lib.splitLines_notices (hnotices _ _ _), Lib.splitLines_withNotices (fun p => hnotices _ _ _)]
  rw [Lib.flatten_splitLines]

/-- The annotations of an annotated text can be taken away. -/
theorem strip_annotateStripped (index : Option KeyLines) (errors : List FieldError) {stripped : List Char}
    (h : ∀ l ∈ splitLines stripped, isAnnotationLine l = false) :
    stripExistingAnnotations (annotateStripped index errors stripped) = stripped := by
  have hnotices : ∀ (f : FieldError → Bool) includePath indent, ∀ n ∈ (errors.filter f).flatMap (annotationLines includePath indent),
      (!isAnnotationLine n) = false := by
    intro f includePath indent n hn
    obtain ⟨error, -, hmem⟩ := List.mem_flatMap.1 hn
    rw [isAnnotationLine_of_mem hmem]
    rfl
  have hlines : ∀ l ∈ splitLines stripped, (!isAnnotationLine l) = true := fun l hl => by rw [h l hl]; rfl
  have htop : ((errors.filter fun error => (placeOf index stripped error).isNone).flatMap (annotationLines true 0)).filter
      (fun line => !isAnnotationLine line) = [] := List.filter_eq_nil_iff.2 fun n hn => by rw [hnotices _ _ _ n hn]; exact Bool.false_ne_true
  rw [stripExistingAnnotations, splitLines_annotateStripped]
  simp only [annotatedLines, ← annotationLines_top, ← annotationLines_line]
  rw [List.filter_append, htop, Lib.filter_withNotices (fun p => hnotices _ _ _) hlines, List.nil_append, Lib.flatten_splitLines]

/-! ## Where an error stands -/

/-- The climb ends above the doc comments of a key. -/
theorem climbDocLines_spec (lines : List (List Char)) (indent keyLine : Nat) :
    climbDocLines lines indent keyLine ≤ keyLine ∧
      (∀ line, climbDocLines lines indent keyLine ≤ line → line < keyLine → isDocLine indent (lines.getD line []) = true) ∧
      ∀ line, line + 1 = climbDocLines lines indent keyLine → isDocLine indent (lines.getD line []) = false := by
  induction keyLine with
  | zero => exact ⟨Nat.le_refl _, fun line _ h => absurd h (Nat.not_lt_zero _), fun line h => absurd h (Nat.succ_ne_zero _)⟩
  | succ current ih =>
    obtain ⟨hle, hdocs, hstop⟩ := ih
    rw [climbDocLines]
    split
    · case isTrue hdoc =>
      refine ⟨Nat.le_succ_of_le hle, fun line hfrom hto => ?_, hstop⟩
      rcases Nat.lt_succ_iff_lt_or_eq.1 hto with hto | rfl
      · exact hdocs line hfrom hto
      · exact hdoc
    · case isFalse hdoc =>
      refine ⟨Nat.le_refl _, fun line hfrom hto => absurd hto (Nat.not_lt.2 hfrom), fun line hline => ?_⟩
      obtain rfl := Nat.succ.inj hline
      exact Bool.eq_false_iff.2 hdoc

/-- What is returned for a text is an annotated one. -/
theorem isAnnotated {yaml : YamlParser} {text annotated : List Char} (h : annotateYamlWithErrors yaml text errors = .ok annotated) :
    IsAnnotated yaml errors (stripExistingAnnotations text) annotated := by
  have hresult : annotated = annotateStripped (yaml.keyLines (stripExistingAnnotations text)) errors (stripExistingAnnotations text) := by
    unfold annotateYamlWithErrors at h
    dsimp only at h
    split at h
    · case isTrue hempty =>
      cases h
      obtain rfl := List.isEmpty_iff.1 hempty
      rw [annotateStripped_eq, annotatedLines]
      simp [Lib.withNotices_none, Lib.flatten_splitLines]
    · unfold YamlParser.keyLines
      cases hindex : yaml.indexApplyPaths (stripExistingAnnotations text) with
      | error e =>
        rw [hindex] at h
        cases h
      | ok index =>
        rw [hindex] at h
        cases h
        rfl
  have hstrip : stripExistingAnnotations annotated = stripExistingAnnotations text :=
    hresult ▸ strip_annotateStripped _ errors fun l hl => isAnnotationLine_stripped hl
  refine ⟨hstrip, ?_, hresult ▸ splitLines_annotateStripped _ errors _, fun error hnone => ?_, fun error keyLine hkey => ?_⟩
  · rw [← h]
    unfold annotateYamlWithErrors
    rw [hstrip]
  · rw [placeOf, hnone]
    rfl
  · obtain ⟨hle, hdocs, hstop⟩ := climbDocLines_spec (splitLines (stripExistingAnnotations text))
      (indentOf ((splitLines (stripExistingAnnotations text)).getD keyLine [])) keyLine
    refine ⟨keyInsertLine (splitLines (stripExistingAnnotations text)) keyLine, by rw [placeOf, hkey]; rfl, hle, keyLineOf_lt hkey,
      hdocs, fun above habove hdoc => ?_⟩
    rw [IsDocOf, hstop above habove] at hdoc
    cases hdoc

end AnnotationsAux

open AnnotationsAux

namespace AnnotationsWitness

/-- A parser that knows two texts: one with a name, and one whose key is a sequence. -/
def yaml : YamlParser where
  compose text :=
    if text = "name: a\n".toList then some (.mapping (.cons (.scalar "name".toList) 0 (.scalar "a".toList) .nil))
    else if text = "[a]: 1\n".toList then some (.mapping (.cons .sequence 0 (.scalar "1".toList) .nil))
    else none
  inText text root h := by
    split at h
    · case isTrue htext =>
      cases h
      rw [htext]
      decide
    · split at h
      · case isTrue htext =>
        cases h
        rw [htext]
        decide
      · cases h

def error : FieldError := ⟨[.name "name".toList], "bad name".toList⟩

end AnnotationsWitness

end LlamaAgents
