import LlamaAgents.Lemmas.SourceCoherence

/-!
# The deployed source is coherent

Commit, repository and UI path fit each other as long as an operation does not leave one of them behind. The service patches each of
them on its own, and nothing of a validation that fails, or finds no UI, takes the old value away.
-/

namespace LlamaAgents

open Lib (Dict)

/-- For every sequence of operations and every content of the repositories: before and after each operation the commit is one of the
repository that the deployment names, and after one that has validated a config, commit and UI path are those of the commit. -/
theorem deployed_source_is_coherent {configs : String → String → Option (Option String)} {W₀ W W' : SourceWorld} {a : SourceAction}
    (hnew : W₀.spec = none) (hrun : Lib.Run (SourceWorld.step configs) (fun W a => W.keepsSource configs a = true) W₀ W)
    (hkeeps : W.keepsSource configs a = true) (hstep : W.step configs a = some W') :
    W.IsCoherent ∧ W'.IsCoherent ∧ W.IsExact configs a W' := by
  have hcoherent : W.IsCoherent := by
    refine hrun.invariant _ ?_ fun _ _ _ h hkeeps hstep => SourceCoherenceAux.step_coherent hkeeps hstep h
    intro spec _ hspec
    cases hnew.symm.trans hspec
  exact ⟨hcoherent, SourceCoherenceAux.step_coherent hkeeps hstep hcoherent, SourceCoherenceAux.step_exact hkeeps hstep⟩

namespace LeftBehind

/-- A repository whose branch `main` is at the last of its commits. -/
def repository (commits : List String) (last : String) (named : "" ∉ commits) (hlast : last ∈ commits) : Repository where
  commits := commits
  refs := (∅ : Dict String String).set "refs/heads/main" last
  defaultBranch := some "main"
  named := named
  tagged := List.forall_mem_nil _
  closed e he := Or.inl (by cases he with | head => exact hlast | tail _ h => cases h)

/-- The first commit has a UI, and the second one is a service without. -/
def configs (sha path : String) : Option (Option String) :=
  if path ≠ "." then none else if sha = "aaaaaaa" then some (some "ui/dist") else if sha = "bbbbbbb" then some none else none

/-- Two repositories, and no deployment yet. -/
def start : SourceWorld where
  deploymentId := "app"
  projectId := "p"
  repositories :=
    ((∅ : Dict String Repository).set "https://one" (repository ["aaaaaaa"] "aaaaaaa" (by decide) (by decide))).set "https://two"
      (repository ["ccccccc"] "ccccccc" (by decide) (by decide))

/-- A deployment of the first repository. -/
def creates : SourceAction := .create { displayName := "app", repoUrl := "https://one" } {}

/-- The deployment is moved to the second repository, which has no config. -/
def moves : SourceAction := .update { repoUrl := some "https://two" } {}

theorem both_named : "" ∉ ["aaaaaaa", "bbbbbbb"] := by decide

theorem second_mem : "bbbbbbb" ∈ ["aaaaaaa", "bbbbbbb"] := by decide

/-- The first repository gets its second commit. -/
def dropsUi : SourceAction := .change "https://one" (repository ["aaaaaaa", "bbbbbbb"] "bbbbbbb" both_named second_mem)

/-- The deployment follows its branch. -/
def refreshes : SourceAction := .update { gitRef := some "main" } {}

end LeftBehind

open LeftBehind in
/-- A deployment that is moved to a repository without a config keeps the commit of the old one. And one whose branch has moved on to
a commit without a UI keeps the path of the old UI. -/
theorem deployed_source_is_coherent_false :
    (∃ W, Lib.Run (SourceWorld.step configs) (fun _ _ => True) start W ∧ ¬ W.IsCoherent) ∧
    ∃ W W', Lib.Run (SourceWorld.step configs) (fun _ _ => True) start W ∧ W.step configs refreshes = some W' ∧
      ¬ W.IsExact configs refreshes W' := by
  refine ⟨?_, ?_⟩
  · obtain ⟨W, hrun, hcheck⟩ := Lib.Run.exists_of_actions (SourceWorld.step configs) start [creates, moves]
      (fun W => W.spec.any fun spec : LlamaDeploymentSpec => decide (spec.gitSha = some "aaaaaaa") && !W.holdsCommit spec.repoUrl "aaaaaaa")
      (by decide +kernel)
    refine ⟨W, hrun, fun hcoherent => ?_⟩
    obtain ⟨spec, hspec, h⟩ := (Option.any_eq_true _ _).1 hcheck
    obtain ⟨hsha, hmissing⟩ := Bool.and_eq_true_iff.1 h
    rw [hcoherent spec _ hspec (of_decide_eq_true hsha)] at hmissing
    cases hmissing
  · obtain ⟨W, hrun, hvalid, hafter⟩ := Lib.Run.exists_of_actions (SourceWorld.step configs) start [creates, dropsUi]
      (fun W => W.validatedBy configs refreshes = some (⟨"bbbbbbb", some "main", none⟩, ".") ∧
        (W.step configs refreshes).any fun W' => W'.spec.any fun spec : LlamaDeploymentSpec => spec.staticAssetsPath = some "ui/dist")
      (by decide +kernel)
    obtain ⟨W', hstep, hpath⟩ := (Option.any_eq_true _ _).1 hafter
    obtain ⟨spec, hspec, hpath⟩ := (Option.any_eq_true _ _).1 hpath
    refine ⟨W, W', hrun, hstep, fun hexact => ?_⟩
    obtain ⟨spec', hspec', -, hui⟩ := hexact _ _ hvalid
    cases hspec.symm.trans hspec'
    rw [of_decide_eq_true hpath] at hui
    exact absurd hui (by decide)

open LeftBehind in
/-- A deployment of the first commit, which is then updated, has its commit and its UI. -/
theorem deployed_source_is_coherent_created :
    ∃ W W' : SourceWorld, W.step configs refreshes = some W' ∧ W'.IsCoherent ∧ W.IsExact configs refreshes W' ∧
      W.validatedBy configs refreshes = some (⟨"aaaaaaa", some "main", some "ui/dist"⟩, ".") := by
  obtain ⟨W, hrun, hkeeps, hsome, hvalid⟩ := Lib.Run.exists_of_exec (SourceWorld.step configs) (fun W a => W.keepsSource configs a)
    start [creates] (fun W => W.keepsSource configs refreshes ∧ (W.step configs refreshes).isSome ∧
      W.validatedBy configs refreshes = some (⟨"aaaaaaa", some "main", some "ui/dist"⟩, ".")) (by decide +kernel)
  obtain ⟨W', hstep⟩ := Option.isSome_iff_exists.1 hsome
  have h := deployed_source_is_coherent rfl hrun hkeeps hstep
  exact ⟨W, W', hstep, h.2.1, h.2.2, hvalid⟩

end LlamaAgents
