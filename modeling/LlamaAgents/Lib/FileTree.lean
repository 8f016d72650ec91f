import Mathlib.Data.List.Infix

/-!
# Paths and file trees

Paths as `pathlib` has them, and trees of files without symbolic links. A location is the list of the names that lead to it from the
root of the tree.
-/

namespace Lib

/-- The name of a part, or the step up. -/
abbrev Part := List Char

/-- The step to the directory above. -/
def up : Part := ['.', '.']

/-- A path: whether it starts at the root, and its parts. -/
structure FilePath where
  isAbsolute : Bool
  parts : List Part
deriving DecidableEq

namespace FilePath

/-- The path of a text: empty parts and single dots fall away. -/
def ofText (text : List Char) : FilePath :=
  ⟨decide (text.head? = some '/'), (text.splitOn '/').filter fun part => part ≠ [] ∧ part ≠ ['.']⟩

/-- The text of a path. -/
def text (p : FilePath) : List Char :=
  if p.isAbsolute then '/' :: ['/'].intercalate p.parts else if p.parts = [] then ['.'] else ['/'].intercalate p.parts

/-- A path below another one; an absolute path replaces it. -/
def join (p q : FilePath) : FilePath := if q.isAbsolute then q else ⟨p.isAbsolute, p.parts ++ q.parts⟩

/-- A path below another one that is given by its parts. -/
def below (p : FilePath) (parts : List Part) : FilePath := ⟨p.isAbsolute, p.parts ++ parts⟩

/-- The path without its last part. -/
def parent (p : FilePath) : FilePath := ⟨p.isAbsolute, p.parts.dropLast⟩

end FilePath

/-! ## Locations -/

/-- Where a part leads from a location. -/
def enter (loc : List Part) (part : Part) : List Part := if part = up then loc.dropLast else loc ++ [part]

/-- Where parts lead from the root, when no step is checked. -/
def resolve (parts : List Part) : List Part := parts.foldl enter []

/-- What stands at a location. -/
inductive Node (α : Type) where
  | file (content : α)
  | dir
deriving DecidableEq

/-- What stands at each location. -/
abbrev FileTree (α : Type) := List Part → Option (Node α)

namespace FileTree

variable {α : Type} (t : FileTree α)

/-- Whether a directory stands at a location. -/
def isDir (loc : List Part) : Bool :=
  match t loc with
  | some .dir => true
  | _ => false

/-- Where parts lead from a location: each step is taken in a directory. -/
def walk : List Part → List Part → Option (List Part)
  | loc, [] => some loc
  | loc, part :: parts => if t.isDir loc then walk (enter loc part) parts else none

/-- What stands at a path. -/
def lookup (p : FilePath) : Option (Node α) := (t.walk [] p.parts).bind t

/-- Whether something stands at a path. -/
def exists? (p : FilePath) : Bool := (t.lookup p).isSome

/-- Whether a file stands at a path. -/
def isFile (p : FilePath) : Bool :=
  match t.lookup p with
  | some (.file _) => true
  | _ => false

/-- A directory is made, with those above it. -/
def makeDir (loc : List Part) : FileTree α := fun l => if l.isPrefixOf loc then some .dir else t l

/-- A file is written. -/
def write (loc : List Part) (content : α) : FileTree α := fun l => if l = loc then some (.file content) else t l

end FileTree

/-! ## What a walk finds -/

theorem foldl_enter_plain {parts : List Part} (h : up ∉ parts) (loc : List Part) : parts.foldl enter loc = loc ++ parts := by
  induction parts generalizing loc with
  | nil => simp
  | cons part parts ih =>
    obtain ⟨hpart, hparts⟩ := not_or.1 (mt List.mem_cons.2 h)
    rw [List.foldl_cons, enter, if_neg (Ne.symm hpart), ih hparts]
    simp

theorem resolve_append (a b : List Part) : resolve (a ++ b) = b.foldl enter (resolve a) := List.foldl_append

theorem resolve_plain {parts : List Part} (h : up ∉ parts) : resolve parts = parts := foldl_enter_plain h []

namespace FileTree

variable {α : Type} {t : FileTree α} {parts : List Part}

/-- A walk ends where its parts lead. -/
theorem walk_eq {loc loc' : List Part} (h : t.walk loc parts = some loc') : loc' = parts.foldl enter loc := by
  induction parts generalizing loc with
  | nil => exact (Option.some.inj h).symm
  | cons part parts ih =>
    rw [walk] at h
    split at h
    · exact ih h
    · cases h

/-- A walk through directories that ends with a step up leads to a directory. -/
theorem isDir_of_walk_up {loc loc' : List Part} (h : t.walk loc (parts ++ [up]) = some loc')
    (hloc : ∀ a, a <+: loc → a ≠ loc → t.isDir a = true) : t.isDir loc' = true := by
  induction parts generalizing loc with
  | nil =>
    rw [List.nil_append, walk] at h
    split at h
    · case isTrue hdir =>
      obtain rfl : loc.dropLast = loc' := Option.some.inj h
      by_cases heq : loc.dropLast = loc
      · rwa [heq]
      · exact hloc _ (List.dropLast_prefix loc) heq
    · cases h
  | cons part parts ih =>
    rw [List.cons_append, walk] at h
    split at h
    · case isTrue hdir =>
      refine ih h fun a ha hne => ?_
      have hwithin : a <+: loc := by
        unfold enter at ha hne
        split at ha
        · exact ha.trans (List.dropLast_prefix loc)
        · case isFalse hpart =>
          rw [if_neg hpart] at hne
          exact (List.prefix_concat_iff.1 ha).resolve_left hne
      by_cases heq : a = loc
      · rwa [heq]
      · exact hloc a hwithin heq
    · cases h

/-- A step up leads to no file. -/
theorem getLast?_ne_up {p : FilePath} (h : t.isFile p = true) : p.parts.getLast? ≠ some up := by
  intro hlast
  obtain ⟨front, hfront⟩ := List.getLast?_eq_some_iff.1 hlast
  unfold isFile lookup at h
  rw [hfront] at h
  cases hwalk : t.walk [] (front ++ [up]) with
  | none =>
    rw [hwalk] at h
    cases h
  | some loc =>
    have hdir := isDir_of_walk_up hwalk fun a ha hne => absurd (List.prefix_nil.1 ha) hne
    unfold isDir at hdir
    rw [hwalk, Option.bind_some] at h
    split at hdir
    · case h_1 hnode =>
      rw [hnode] at h
      cases h
    · cases hdir

end FileTree

end Lib
