import LlamaAgents.ControlPlane.Source

/-!
# What is found in a repository

A ref resolves to a commit of the repository, and a valid application is one of a commit of the repository that was asked for. From
there each operation is followed to the fields of the spec.
-/

namespace LlamaAgents

namespace SourceCoherenceAux

open Lib (Dict)
open SourceWorld

variable {configs : String → String → Option (Option String)} {W W' : SourceWorld} {spec : LlamaDeploymentSpec}
  {repo : Repository} {sha : String}
  {update : DeploymentUpdate} {access : GitAccess}

/-! ## Refs -/

/-- The commit that a named object stands for is in the repository. -/
theorem peel_mem {ref object : String} (h : repo.refs.get? ref = some object) :
    repo.peel object ∈ repo.commits := by
  rw [Repository.peel]
  cases htag : repo.tags.get? object with
  | some commit => exact repo.tagged _ ((Dict.get?_eq_some_iff _ _ _).1 htag)
  | none =>
    have hclosed := repo.closed _ ((Dict.get?_eq_some_iff _ _ _).1 h)
    rw [Dict.contains, htag] at hclosed
    exact hclosed.resolve_right Bool.false_ne_true

/-- A ref resolves to a commit of the repository. -/
theorem resolveRef_mem {ref sha : String} (h : repo.resolveRef ref = some sha) : sha ∈ repo.commits := by
  unfold Repository.resolveRef at h
  split at h
  · case _ object hfound =>
    obtain ⟨name, -, hname⟩ := List.exists_of_findSome?_eq_some hfound
    cases h
    exact peel_mem hname
  · split at h
    · case _ hcommit =>
      cases h
      exact List.contains_iff_mem.1 hcommit
    · split at h
      · split at h
        · case _ commit hone =>
          cases h
          have hmem : sha ∈ repo.commits.filter fun commit => ref.toList.isPrefixOf commit.toList := by
            rw [hone]
            exact List.mem_singleton.2 rfl
          exact (List.mem_filter.1 hmem).1
        · cases h
      · cases h

theorem ne_empty_of_mem (h : sha ∈ repo.commits) : sha ≠ "" := by
  rintro rfl
  exact repo.named h

theorem holdsCommit_iff {url sha : String} :
    W.holdsCommit url sha = true ↔ ∃ repo, W.repository url = some repo ∧ sha ∈ repo.commits := by
  rw [holdsCommit, Option.any_eq_true]
  simp only [List.contains_iff_mem]

/-- A valid application is that of a commit of the repository, with the UI that its config has. -/
theorem validate_sound {url : String} {gitRef path : Option String} {v : ValidatedApplication}
    (h : W.validateGitApplication configs access url gitRef path = some v) (hfetched : access.packageFetched = true) :
    v.gitSha ≠ "" ∧ W.holdsCommit url v.gitSha = true ∧
      configs v.gitSha ((orElse path (some ".")).getD ".") = some v.uiBuildOutputPath := by
  simp only [validateGitApplication, hfetched, if_true] at h
  split at h
  · obtain ⟨repo, hrepo, h⟩ := Option.bind_eq_some_iff.1 h
    obtain ⟨ref, -, h⟩ := Option.bind_eq_some_iff.1 h
    obtain ⟨sha, hsha, h⟩ := Option.bind_eq_some_iff.1 h
    obtain ⟨ui, hui, rfl⟩ := Option.map_eq_some_iff.1 h
    exact ⟨ne_empty_of_mem (resolveRef_mem hsha), holdsCommit_iff.2 ⟨repo, hrepo, resolveRef_mem hsha⟩, hui⟩
  · cases h

/-! ## The URL of an update -/

theorem orElse_of_filled {a b : Option String} (h : isFilled a = true) : orElse a b = a := if_pos h

theorem orElse_of_not_filled {a b : Option String} (h : isFilled a = false) : orElse a b = b :=
  if_neg (by rw [h]; exact Bool.false_ne_true)

/-- Asking for a default twice is asking for both in turn. -/
theorem orElse_assoc (a b c : Option String) : orElse (orElse a b) c = orElse a (orElse b c) := by
  cases h : isFilled a with
  | true => rw [orElse_of_filled h, orElse_of_filled h, orElse_of_filled h]
  | false => rw [orElse_of_not_filled h, orElse_of_not_filled h]

/-- The URL that a ref is resolved in is the one that the deployment then has, unless the URL is cleared. -/
theorem resolved_url (h : ¬ update.repoUrl.any isBlank = true) :
    (orElse update.repoUrl (some spec.repoUrl)).getD "" = update.repoUrl.getD spec.repoUrl := by
  cases hurl : update.repoUrl with
  | none => rfl
  | some url =>
    have hfilled : isFilled (some url) = true := by
      rw [isFilled, Option.any_some, decide_eq_true_eq]
      rintro rfl
      rw [hurl, Option.any_some] at h
      exact h rfl
    rw [orElse_of_filled hfilled]
    rfl

/-- The adjustments of an update leave the commit and the path of the config alone. -/
theorem adjusted_deploymentFilePath (settings : ControlSettings) (url : String) (update : DeploymentUpdate) :
    (settings.adjustedUpdate url update).deploymentFilePath = update.deploymentFilePath := by
  unfold ControlSettings.adjustedUpdate
  dsimp only
  split_ifs <;> rfl

/-! ## Operations -/

/-- A patched spec has a commit of its repository when the patch brings one, or leaves the repository or has none to keep. -/
theorem apply_coherent (hnew : ∀ sha, update.gitSha = some sha → sha ≠ "" → W.holdsCommit (update.repoUrl.getD spec.repoUrl) sha = true)
    (hkept : update.gitSha = none → update.repoUrl.getD spec.repoUrl = spec.repoUrl ∨ spec.gitSha = none)
    (hspec : ∀ sha, spec.gitSha = some sha → W.holdsCommit spec.repoUrl sha = true)
    (hsha : (applyDeploymentUpdate update spec).gitSha = some sha) :
    W.holdsCommit (applyDeploymentUpdate update spec).repoUrl sha = true := by
  change W.holdsCommit (update.repoUrl.getD spec.repoUrl) sha = true
  cases hgit : update.gitSha with
  | none =>
    rw [applyDeploymentUpdate, hgit] at hsha
    rcases hkept hgit with hurl | hnone
    · rw [hurl]
      exact hspec sha hsha
    · cases hnone.symm.trans hsha
  | some found =>
    rw [applyDeploymentUpdate, hgit] at hsha
    change (if found = "" then none else some found) = some sha at hsha
    split at hsha
    · cases hsha
    · case _ hfilled =>
      cases hsha
      exact hnew _ hgit hfilled

/-- A URL that an update does not change. -/
theorem kept_url (h : update.repoUrl.all (· = spec.repoUrl) = true) : update.repoUrl.getD spec.repoUrl = spec.repoUrl := by
  cases hurl : update.repoUrl with
  | none => rfl
  | some url =>
    rw [hurl, Option.all_some, decide_eq_true_eq] at h
    exact h

/-- A ref is resolved only for a deployment that then names its own repository. -/
theorem plan_resolve {ref : String} (h : sourcePlan spec.repoUrl spec.gitRef spec.deploymentFilePath update = .resolve ref) :
    update.repoUrl.getD spec.repoUrl = internalCodeRepoScheme := by
  unfold sourcePlan at h
  dsimp only at h
  split at h
  · cases h
  · case _ hblank =>
    split at h
    · case _ hinternal =>
      rw [← resolved_url hblank]
      exact of_decide_eq_true (Bool.and_eq_true_iff.1 hinternal).2
    · split at h <;> cases h

/-- An application is validated at the URL that the deployment then has. -/
theorem plan_validate {url : String} {gitRef path : Option String}
    (h : sourcePlan spec.repoUrl spec.gitRef spec.deploymentFilePath update = .validate url gitRef path) :
    url = update.repoUrl.getD spec.repoUrl ∧ path = orElse update.deploymentFilePath (some spec.deploymentFilePath) := by
  unfold sourcePlan at h
  dsimp only at h
  split at h
  · cases h
  · case _ hblank =>
    split at h
    · split at h <;> cases h
    · split at h
      · cases h
        exact ⟨resolved_url hblank, rfl⟩
      · cases h

/-- A ref that is resolved in the deployment's own repository is one of a commit there, and the deployment then names it. -/
theorem resolved_sound (h : W.resolveSource configs spec update access = .resolved sha) :
    W.holdsCommit (update.repoUrl.getD spec.repoUrl) sha = true := by
  unfold resolveSource at h
  split at h
  · cases h
  · case _ hplan =>
    split at h
    · cases h
    · split at h
      · case _ found hfound =>
        cases h
        obtain ⟨repo, hrepo, href⟩ := Option.bind_eq_some_iff.1 hfound
        refine holdsCommit_iff.2 ⟨repo, ?_, resolveRef_mem href⟩
        rw [plan_resolve hplan, repository, if_pos rfl, hrepo]
      · cases h
  · cases h

/-- What an update validates is the application at the URL that the deployment then has. -/
theorem validated_sound {result : Option ValidatedApplication}
    (h : W.resolveSource configs spec update access = .validated result) :
    ∃ gitRef, result = W.validateGitApplication configs access (update.repoUrl.getD spec.repoUrl) gitRef
      (orElse update.deploymentFilePath (some spec.deploymentFilePath)) := by
  unfold resolveSource at h
  split at h
  · cases h
  · split at h
    · cases h
    · split at h <;> cases h
  · case _ gitRef _ hplan =>
    cases h
    obtain ⟨rfl, rfl⟩ := plan_validate hplan
    exact ⟨gitRef, rfl⟩

/-- When what stays fits what changes, an update that is not refused leaves a commit of the repository. -/
theorem resolveSource_coherent {found : SourceUpdate} (hfound : W.resolveSource configs spec update access = found)
    (hrefused : found ≠ .refused) (hfetched : access.packageFetched = true) (hfits : updateFits spec update found = true)
    (hspec : ∀ sha, spec.gitSha = some sha → W.holdsCommit spec.repoUrl sha = true)
    (hsha : (applyDeploymentUpdate (found.applied update) spec).gitSha = some sha) :
    W.holdsCommit (applyDeploymentUpdate (found.applied update) spec).repoUrl sha = true := by
  cases found with
  | refused => exact absurd rfl hrefused
  | resolved found =>
    refine apply_coherent (fun sha h _ => ?_) (fun h => by cases h) hspec hsha
    cases h
    exact resolved_sound hfound
  | unresolved =>
    obtain ⟨hnone, hkept⟩ := Bool.and_eq_true_iff.1 hfits
    have hgit : update.gitSha = none := Option.isNone_iff_eq_none.1 hnone
    refine apply_coherent (fun sha h => ?_) (fun _ => ?_) hspec hsha
    · cases hgit.symm.trans h
    · exact (Bool.or_eq_true_iff.1 hkept).imp kept_url Option.isNone_iff_eq_none.1
  | validated result =>
    cases result with
    | none =>
      refine apply_coherent (fun _ h => by cases h) (fun _ => ?_) hspec hsha
      exact (Bool.or_eq_true_iff.1 hfits).imp kept_url Option.isNone_iff_eq_none.1
    | some v =>
      refine apply_coherent (fun sha h _ => ?_) (fun h => by cases h) hspec hsha
      cases h
      obtain ⟨_, hvalid⟩ := validated_sound hfound
      exact (validate_sound hvalid.symm hfetched).2.1

/-- When an update finds a valid config, and it has a UI or there was none, the spec gets commit and UI of the config. -/
theorem validated_exact {v : ValidatedApplication} (hfound : W.resolveSource configs spec update access = .validated (some v))
    (hfetched : access.packageFetched = true) (hfits : updateFits spec update (.validated (some v)) = true) :
    let spec' := applyDeploymentUpdate (SourceUpdate.applied update (.validated (some v))) spec
    spec'.gitSha = some v.gitSha ∧
      configs v.gitSha ((orElse (orElse update.deploymentFilePath (some spec.deploymentFilePath)) (some ".")).getD ".") =
        some spec'.staticAssetsPath := by
  obtain ⟨_, hvalid⟩ := validated_sound hfound
  obtain ⟨hsha, -, hconfig⟩ := validate_sound hvalid.symm hfetched
  refine ⟨if_neg hsha, hconfig.trans (congrArg some ?_)⟩
  change v.uiBuildOutputPath = v.uiBuildOutputPath.or spec.staticAssetsPath
  rcases Bool.or_eq_true_iff.1 hfits with hui | hnone
  · obtain ⟨ui, hui⟩ := Option.isSome_iff_exists.1 hui
    rw [hui, Option.some_or]
  · rw [Option.isNone_iff_eq_none.1 hnone, Option.or_none]

/-- An update is the one of the spec for what is found, unless it is refused. -/
theorem updatedSpec_eq {spec' : LlamaDeploymentSpec} (h : W.updatedSpec configs spec update access = some spec') :
    ∃ found, W.resolveSource configs spec (W.settings.adjustedUpdate spec.repoUrl update) access = found ∧ found ≠ .refused ∧
      spec' = applyDeploymentUpdate (found.applied (W.settings.adjustedUpdate spec.repoUrl update)) spec := by
  unfold updatedSpec at h
  dsimp only at h
  split at h
  · cases h
  · case _ hrefused =>
    cases h
    exact ⟨_, rfl, hrefused, rfl⟩

/-- A repository that loses no commit. -/
theorem holdsCommit_grows {url sha : String} (h : W.holdsCommit url sha = true)
    (hgrows : ∀ repo, W.repository url = some repo → ∃ repo', W'.repository url = some repo' ∧ repo.commits ⊆ repo'.commits) :
    W'.holdsCommit url sha = true := by
  obtain ⟨repo, hrepo, hmem⟩ := holdsCommit_iff.1 h
  obtain ⟨repo', hrepo', hsub⟩ := hgrows repo hrepo
  exact holdsCommit_iff.2 ⟨repo', hrepo', hsub hmem⟩

theorem subset_of_all {l l' : List String} (h : (l.all fun commit => l'.contains commit) = true) : l ⊆ l' :=
  fun _ hmem => List.contains_iff_mem.1 (List.all_eq_true.1 h _ hmem)

/-- A push leaves the spec, or makes the deployment name its own repository with the object that was pushed. -/
theorem pushedSpec_eq (spec : LlamaDeploymentSpec) (changed : Option (String × String)) :
    pushedSpec spec changed = spec ∨
      ∃ e, changed = some e ∧ pushedSpec spec changed = applyDeploymentUpdate (pushUpdate e) spec := by
  unfold pushedSpec
  split
  · exact Or.inl rfl
  · split
    · exact Or.inr ⟨_, rfl, rfl⟩
    · exact Or.inl rfl

/-- The commit that the update of a push sets. -/
theorem pushUpdate_gitSha {changed : String × String} (hmem : changed.2 ∈ repo.commits)
    (hsha : (applyDeploymentUpdate (pushUpdate changed) spec).gitSha = some sha) : sha = changed.2 := by
  change (if changed.2 = "" then none else some changed.2) = some sha at hsha
  rw [if_neg (ne_empty_of_mem hmem)] at hsha
  cases hsha
  rfl

/-- A push that brings a commit leaves the deployment with a commit of its repository. -/
theorem push_coherent {after : Repository} (hkeeps : W.keepsSource configs (.push after) = true)
    (h : W.step configs (.push after) = some W') (hcoherent : W.IsCoherent) : W'.IsCoherent := by
  obtain ⟨hsub, hchanged⟩ := Bool.and_eq_true_iff.1 hkeeps
  obtain ⟨spec, hspec, h⟩ := Option.bind_eq_some_iff.1 h
  dsimp only at h
  split at h
  · cases h
    have hkept : ∀ sha, spec.gitSha = some sha → SourceWorld.holdsCommit { W with codeRepo := some after } spec.repoUrl sha = true := by
      intro sha hsha
      refine holdsCommit_grows (hcoherent spec sha hspec hsha) fun repo hrepo => ?_
      by_cases hurl : spec.repoUrl = internalCodeRepoScheme
      · rw [repository, if_pos hurl] at hrepo
        rw [hrepo] at hsub
        exact ⟨after, if_pos hurl, subset_of_all hsub⟩
      · rw [repository, if_neg hurl] at hrepo
        exact ⟨repo, (if_neg hurl).trans hrepo, List.Subset.refl _⟩
    intro spec' sha hspec' hsha
    cases hspec'
    change SourceWorld.holdsCommit { W with codeRepo := some after } _ sha = true
    rcases pushedSpec_eq spec (changedRef (W.codeRepo.getD .bare) after) with hsame | ⟨changed, hfound, hset⟩
    · rw [hsame] at hsha ⊢
      exact hkept sha hsha
    · rw [hfound] at hchanged
      have hmem : changed.2 ∈ after.commits := List.contains_iff_mem.1 hchanged
      rw [hset] at hsha ⊢
      cases pushUpdate_gitSha hmem hsha
      exact holdsCommit_iff.2 ⟨after, if_pos rfl, hmem⟩
  · cases h

/-- Every operation that keeps its source leaves the deployment with a commit of its repository. -/
theorem step_coherent {a : SourceAction} (hkeeps : W.keepsSource configs a = true) (h : W.step configs a = some W')
    (hcoherent : W.IsCoherent) : W'.IsCoherent := by
  cases a with
  | create data access =>
    rw [step] at h
    split at h
    · cases h
    · cases h
      intro spec sha hspec hsha
      cases hspec
      obtain ⟨v, hv, rfl⟩ := Option.map_eq_some_iff.1 hsha
      rw [createValidated] at hv
      split at hv
      · cases hv
      · exact (validate_sound hv hkeeps).2.1
  | update update access =>
    obtain ⟨hfetched, hfits⟩ := Bool.and_eq_true_iff.1 hkeeps
    obtain ⟨spec, hspec, h⟩ := Option.bind_eq_some_iff.1 h
    obtain ⟨spec', hspec', rfl⟩ := Option.map_eq_some_iff.1 h
    obtain ⟨found, hfound, hrefused, rfl⟩ := updatedSpec_eq hspec'
    rw [hspec, Option.all_some, hfound] at hfits
    intro _ sha hs hsha
    cases hs
    exact resolveSource_coherent hfound hrefused hfetched hfits (fun sha hsha => hcoherent spec sha hspec hsha) hsha
  | rollback sha tag =>
    obtain ⟨spec, hspec, rfl⟩ := Option.map_eq_some_iff.1 h
    intro _ found hs hfound
    cases hs
    refine apply_coherent (W := W) (fun _ h hfilled => ?_) (fun h => by cases h) (fun sha hsha => hcoherent spec sha hspec hsha) hfound
    cases h
    refine (Bool.or_eq_true_iff.1 hkeeps).elim (fun hempty => absurd (of_decide_eq_true hempty) hfilled) fun hcommit => ?_
    rw [hspec, Option.all_some] at hcommit
    exact hcommit
  | push after => exact push_coherent hkeeps h hcoherent
  | change url content =>
    rw [step] at h
    split at h
    · cases h
    · case _ hexternal =>
      cases h
      intro spec sha hspec hsha
      refine holdsCommit_grows (hcoherent spec sha hspec hsha) fun repo hrepo => ?_
      rw [repository] at hrepo ⊢
      split at hrepo
      · case _ hinternal => exact ⟨repo, (if_pos hinternal).trans hrepo, List.Subset.refl _⟩
      · case _ hinternal =>
        rw [if_neg hinternal, Dict.get?_set]
        split
        · case _ hurl =>
          rw [keepsSource, hurl, hrepo] at hkeeps
          exact ⟨content, rfl, subset_of_all hkeeps⟩
        · exact ⟨repo, hrepo, List.Subset.refl _⟩

/-- After an operation that keeps its source and has validated a config, commit and UI path are those of the commit. -/
theorem step_exact {a : SourceAction} (hkeeps : W.keepsSource configs a = true) (h : W.step configs a = some W') :
    W.IsExact configs a W' := by
  intro v path hv
  cases a with
  | create data access =>
    obtain ⟨v, hvalid, hpair⟩ := Option.map_eq_some_iff.1 hv
    cases hpair
    rw [step] at h
    split at h
    · cases h
    · cases h
      refine ⟨_, rfl, ?_⟩
      rw [createValidated] at hvalid
      rw [createdSpec, createValidated]
      split at hvalid
      · cases hvalid
      · case _ hurl =>
        rw [if_neg hurl, hvalid]
        exact ⟨rfl, (validate_sound hvalid hkeeps).2.2⟩
  | update update access =>
    obtain ⟨hfetched, hfits⟩ := Bool.and_eq_true_iff.1 hkeeps
    obtain ⟨spec, hspec, h⟩ := Option.bind_eq_some_iff.1 h
    obtain ⟨spec', hspec', rfl⟩ := Option.map_eq_some_iff.1 h
    obtain ⟨found, hfound, hrefused, rfl⟩ := updatedSpec_eq hspec'
    rw [hspec, Option.all_some, hfound] at hfits
    rw [validatedBy, hspec, Option.bind_some, hfound] at hv
    split at hv
    · cases hv
      refine ⟨_, rfl, ?_⟩
      rw [← orElse_assoc, ← adjusted_deploymentFilePath W.settings spec.repoUrl]
      exact validated_exact hfound hfetched hfits
    · cases hv
  | rollback _ _ => cases hv
  | push _ => cases hv
  | change _ _ => cases hv

end SourceCoherenceAux

end LlamaAgents
