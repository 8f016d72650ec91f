import LlamaAgents.Core.DeploymentConfig
import Mathlib.Data.List.Dedup

/-!
# The environment of two merged configs

The env files of two configs are merged through a set, whose order is not theirs. What a variable gets is compared with what the
configs declare: the value of the last env file that has it.
-/

namespace LlamaAgents

open Lib (Dict)

/-- The value that an env file gives a variable. -/
def fileValue (values : List Char → Dict (List Char) (Option (List Char))) (var file : List Char) : Option (List Char) :=
  ((values file).get? var).bind id

/-- The value that two configs declare for a variable: of the last env file that has one, else of the second config, else of the
first. -/
def declaredValue (values : List Char → Dict (List Char) (Option (List Char))) (toml yaml : DeploymentConfig) (var : List Char) :
    Option (List Char) :=
  ((toml.envFiles ++ yaml.envFiles).reverse.findSome? (fileValue values var)).or ((yaml.env.get? var).or (toml.env.get? var))

/-- Of the files that have a variable, the last in one list gives it the value that the last in another list gives it. -/
def LastAgrees (values : List Char → Dict (List Char) (Option (List Char))) (var : List Char) (listed declared : List (List Char)) :
    Prop := listed.reverse.findSome? (fileValue values var) = declared.reverse.findSome? (fileValue values var)

namespace EnvironmentAux

variable {values : List Char → Dict (List Char) (Option (List Char))} {var : List Char}

/-- The files are read one after another, and a later one wins. -/
theorem get?_foldl_files (files : List (List Char)) (env : Dict (List Char) (List Char)) :
    (files.foldl (fun env file => env.updateWith id (values file)) env).get? var =
      (files.reverse.findSome? (fileValue values var)).or (env.get? var) := by
  induction files using List.reverseRecOn with
  | nil => rfl
  | append_singleton files file ih =>
    rw [List.foldl_concat, Dict.get?_updateWith, ih, List.reverse_concat, List.findSome?_cons]
    unfold fileValue
    cases ((values file).get? var).bind id with
    | none => rfl
    | some value => rfl

/-- Only the last place of a file counts. -/
theorem findSome?_reverse_dedup {β γ : Type} [DecidableEq β] (f : β → Option γ) (l : List β) :
    l.dedup.reverse.findSome? f = l.reverse.findSome? f := by
  induction l with
  | nil => rfl
  | cons x l ih =>
    by_cases hx : x ∈ l
    · rw [List.dedup_cons_of_mem hx, ih, List.reverse_cons, List.findSome?_append]
      cases hl : l.reverse.findSome? f with
      | some value => rfl
      | none =>
        have hnone : f x = none := List.findSome?_eq_none_iff.1 hl x (List.mem_reverse.2 hx)
        simp [hnone]
    · rw [List.dedup_cons_of_notMem hx, List.reverse_cons, List.reverse_cons, List.findSome?_append, List.findSome?_append, ih]

/-- Two lists in which the last element always decides alike are the same. -/
theorem eq_of_findSome? {β : Type} [DecidableEq β] {l l' : List β} (hl : l.Nodup) (hl' : l'.Nodup)
    (h : ∀ f : β → Option β, l.reverse.findSome? f = l'.reverse.findSome? f) : l = l' := by
  induction l using List.reverseRecOn generalizing l' with
  | nil =>
    cases l' using List.reverseRecOn with
    | nil => rfl
    | append_singleton l' y => simpa using h some
  | append_singleton l x ih =>
    cases l' using List.reverseRecOn with
    | nil => simpa using h some
    | append_singleton l' y =>
      obtain rfl : x = y := by simpa using h some
      rw [List.nodup_append] at hl hl'
      have hx : ∀ {m : List β}, (∀ a ∈ m, ∀ b ∈ [x], a ≠ b) → ∀ f : β → Option β,
          (m ++ [x]).reverse.findSome? (fun z => if z = x then none else f z) = m.reverse.findSome? f := by
        intro m hm f
        rw [List.reverse_append, List.reverse_singleton, List.singleton_append, List.findSome?_cons, if_pos rfl]
        induction m using List.reverseRecOn with
        | nil => rfl
        | append_singleton m z ihm =>
          have hz : z ≠ x := hm z (List.mem_append_right _ List.mem_cons_self) x List.mem_cons_self
          have hrest := ihm fun a ha => hm a (List.mem_append_left _ ha)
          simp only [List.reverse_append, List.reverse_singleton, List.singleton_append, List.findSome?_cons, if_neg hz, hrest]
      rw [ih hl.1 hl'.1 fun f => (hx hl.2.2 f).symm.trans ((h _).trans (hx hl'.2.2 f))]

variable {listSet : List (List Char) → List (List Char)} {toml yaml : DeploymentConfig}

/-- What is parsed comes of the files in the order of the set. -/
theorem get?_parseEnvironmentVariables : (parseEnvironmentVariables values (toml.mergeConfig listSet yaml)).get? var =
    ((listSet (toml.envFiles ++ yaml.envFiles)).reverse.findSome? (fileValue values var)).or
      ((yaml.env.get? var).or (toml.env.get? var)) := by
  unfold parseEnvironmentVariables DeploymentConfig.mergeConfig
  dsimp only
  rw [get?_foldl_files, Dict.get?_updateWith, Option.bind_fun_some]

/-- Some file has a variable in one order when one has it in the other. -/
theorem findSome?_isSome_congr {l l' : List (List Char)} (h : ∀ x, x ∈ l ↔ x ∈ l') :
    (l.reverse.findSome? (fileValue values var)).isSome = (l'.reverse.findSome? (fileValue values var)).isSome := by
  rw [Bool.eq_iff_iff, List.findSome?_isSome_iff, List.findSome?_isSome_iff]
  simp only [List.mem_reverse, h]

/-- What is parsed is what is declared exactly when the last files agree. -/
theorem parsed_iff (hset : ∀ l, (listSet l).Perm l.dedup) :
    (parseEnvironmentVariables values (toml.mergeConfig listSet yaml)).get? var = declaredValue values toml yaml var ↔
      LastAgrees values var (listSet (toml.envFiles ++ yaml.envFiles)) (toml.envFiles ++ yaml.envFiles) := by
  have hsome := @findSome?_isSome_congr values var _ _ fun x =>
    (hset (toml.envFiles ++ yaml.envFiles)).mem_iff.trans (List.mem_dedup (a := x))
  rw [get?_parseEnvironmentVariables, declaredValue, LastAgrees]
  generalize (listSet _).reverse.findSome? _ = a at hsome ⊢
  generalize (toml.envFiles ++ yaml.envFiles).reverse.findSome? _ = b at hsome ⊢
  cases a with
  | none =>
    obtain rfl : b = none := by simpa using hsome.symm
    simp
  | some a =>
    obtain ⟨b, rfl⟩ := Option.isSome_iff_exists.1 hsome.symm
    simp

end EnvironmentAux

open EnvironmentAux

/-- Whatever the order in which the set of env files is listed, a variable is parsed with the value that the two configs declare exactly
when the last of the listed files that have it agrees with the last of the declared ones; it is put into every environment with that
value exactly when the value is also not empty. For all contents of the files that takes the declared order, each file at its last
place. -/
theorem environment_follows_declared_order (listSet : List (List Char) → List (List Char)) (hset : ∀ l, (listSet l).Perm l.dedup)
    (toml yaml : DeploymentConfig) :
    (∀ values var,
      ((parseEnvironmentVariables values (toml.mergeConfig listSet yaml)).get? var = declaredValue values toml yaml var ↔
        LastAgrees values var (listSet (toml.envFiles ++ yaml.envFiles)) (toml.envFiles ++ yaml.envFiles)) ∧
      ((∀ environ, (loadEnvironmentVariables values (toml.mergeConfig listSet yaml) environ).get? var =
          (declaredValue values toml yaml var).or (environ.get? var)) ↔
        LastAgrees values var (listSet (toml.envFiles ++ yaml.envFiles)) (toml.envFiles ++ yaml.envFiles) ∧
          declaredValue values toml yaml var ≠ some [])) ∧
    ((∀ values var, LastAgrees values var (listSet (toml.envFiles ++ yaml.envFiles)) (toml.envFiles ++ yaml.envFiles)) ↔
      listSet (toml.envFiles ++ yaml.envFiles) = (toml.envFiles ++ yaml.envFiles).dedup) := by
  refine ⟨fun values var => ⟨parsed_iff hset, ?_⟩, fun h => ?_, fun h values var => ?_⟩
  · rw [← parsed_iff hset]
    have hsome : ((parseEnvironmentVariables values (toml.mergeConfig listSet yaml)).get? var).isSome =
        (declaredValue values toml yaml var).isSome := by
      have hfiles := @findSome?_isSome_congr values var _ _ fun x =>
        (hset (toml.envFiles ++ yaml.envFiles)).mem_iff.trans (List.mem_dedup (a := x))
      rw [get?_parseEnvironmentVariables, declaredValue]
      simp only [Option.isSome_or, hfiles]
    simp only [loadEnvironmentVariables, Dict.get?_updateWith]
    generalize (parseEnvironmentVariables _ _).get? var = parsed at hsome ⊢
    generalize declaredValue values toml yaml var = declared at hsome ⊢
    refine ⟨fun h => ?_, fun ⟨heq, hne⟩ environ => ?_⟩
    · have hempty := h ∅
      rw [Dict.get?_empty, Option.or_none, Option.or_none] at hempty
      cases parsed with
      | none =>
        obtain rfl : none = declared := hempty
        exact ⟨rfl, nofun⟩
      | some value =>
        obtain ⟨_, rfl⟩ := Option.isSome_iff_exists.1 hsome.symm
        rw [Option.bind_some] at hempty
        split at hempty
        · cases hempty
        · case isFalse hne => exact ⟨hempty, fun hnil => hne (Option.some.inj (hempty.trans hnil))⟩
    · subst heq
      cases parsed with
      | none => rfl
      | some value => rw [Option.bind_some, if_neg (fun h => hne (congrArg some h))]
  · refine eq_of_findSome? ((hset _).nodup_iff.2 (List.nodup_dedup _)) (List.nodup_dedup _) fun f => ?_
    rw [findSome?_reverse_dedup]
    have hvalues : fileValue (fun file => (∅ : Dict _ _).set [] (f file)) [] = f := by
      funext file
      rw [fileValue, Dict.get?_set_self]
      rfl
    have hagrees := h (fun file => (∅ : Dict _ _).set [] (f file)) []
    rwa [LastAgrees, hvalues] at hagrees
  · rw [LastAgrees, h, findSome?_reverse_dedup]

namespace EnvironmentWitness

/-- Two files that set one variable. -/
def values (file : List Char) : Dict (List Char) (Option (List Char)) := (∅ : Dict _ _).set (Chars "X") (some file)

def toml : DeploymentConfig := { envFiles := [Chars "a"] }

def yaml : DeploymentConfig := { envFiles := [Chars "b"] }

/-- A set that is listed from its end. -/
def fromEnd (l : List (List Char)) : List (List Char) := l.dedup.reverse

end EnvironmentWitness

open EnvironmentWitness in
/-- Two files that are read in their declared order. -/
theorem environment_follows_declared_order_two :
    (parseEnvironmentVariables values (toml.mergeConfig List.dedup yaml)).get? (Chars "X") = declaredValue values toml yaml (Chars "X") ∧
      (loadEnvironmentVariables values (toml.mergeConfig List.dedup yaml) ∅).get? (Chars "X") =
        (declaredValue values toml yaml (Chars "X")).or none := by
  obtain ⟨hfollows, horder⟩ := environment_follows_declared_order List.dedup (fun _ => .refl _) toml yaml
  obtain ⟨hparsed, hloaded⟩ := hfollows values (Chars "X")
  have hagrees := horder.2 rfl values (Chars "X")
  exact ⟨hparsed.2 hagrees, hloaded.2 ⟨hagrees, by decide⟩ ∅⟩

open EnvironmentWitness in
/-- A set may be listed in any order: the file that was declared first wins. -/
theorem environment_follows_declared_order_false :
    (∀ l, (fromEnd l).Perm l.dedup) ∧ declaredValue values toml yaml (Chars "X") = some (Chars "b") ∧
      (parseEnvironmentVariables values (toml.mergeConfig fromEnd yaml)).get? (Chars "X") = some (Chars "a") :=
  ⟨fun l => l.dedup.reverse_perm, by decide, by decide⟩

end LlamaAgents
