import LlamaAgents.Lemmas.SourceCoherence

/-!
# A rollback is a pin

The commit of a rollback stays through updates that do not touch the source, unless one of them resolves the ref again that the
rollback was to clear. The image tag comes from the oldest record of the commit, where the newest one is meant.
-/

namespace LlamaAgents

open Lib (Dict)

namespace RollbackAux

open SourceWorld

variable {configs : String → String → Option (Option String)} {W W' : ReleaseWorld} {S : SourceWorld} {spec : LlamaDeploymentSpec}
  {update : DeploymentUpdate} {access : GitAccess} {sha : String}

/-- The adjustments of an update name no new repository, ref or commit. -/
theorem adjusted_source (settings : ControlSettings) (url : String) (hurl : update.repoUrl = none) :
    (settings.adjustedUpdate url update).repoUrl = none ∧ (settings.adjustedUpdate url update).gitRef = update.gitRef ∧
      (settings.adjustedUpdate url update).gitSha = update.gitSha ∧
      (settings.adjustedUpdate url update).personalAccessToken = update.personalAccessToken := by
  unfold ControlSettings.adjustedUpdate
  dsimp only
  split_ifs <;> simp [hurl]

/-- An update that names no repository and no ref resolves nothing, or the ref of the deployment in a repository that is not its own. -/
theorem plan_leaves (hurl : update.repoUrl = none) (href : update.gitRef = none) :
    sourcePlan spec.repoUrl spec.gitRef spec.deploymentFilePath update = .nothing ∨
      (spec.repoUrl ≠ internalCodeRepoScheme ∧ ¬ (update.personalAccessToken = none ∧ update.deploymentFilePath = none) ∧
        ∃ path, sourcePlan spec.repoUrl spec.gitRef spec.deploymentFilePath update = .validate spec.repoUrl spec.gitRef path) := by
  have hresolved : (orElse update.repoUrl (some spec.repoUrl)).getD "" = spec.repoUrl := by
    rw [hurl]
    rfl
  have hkept : orElse update.gitRef spec.gitRef = spec.gitRef := by
    rw [href]
    rfl
  unfold sourcePlan
  dsimp only
  rw [hresolved, hkept, hurl, href]
  simp only [Option.any_none, Bool.false_eq_true, if_false, Option.isSome_none, Bool.or_self, Bool.false_and]
  split
  · case _ h =>
    obtain ⟨hfields, hexternal⟩ := Bool.and_eq_true_iff.1 h
    refine Or.inr ⟨of_decide_eq_true hexternal, ?_, _, rfl⟩
    rintro ⟨htoken, hpath⟩
    simp [DeploymentUpdate.hasGitFields, hurl, href, htoken, hpath] at hfields
  · exact Or.inl rfl

/-- A validated application has the commit that the ref names. -/
theorem validated_gitSha {url : String} {gitRef path : Option String} {v : ValidatedApplication} (href : isFilled gitRef = true)
    (h : S.validateGitApplication configs access url gitRef path = some v) :
    ((S.repository url).bind fun repo => repo.resolveRef (gitRef.getD "")) = some v.gitSha := by
  unfold validateGitApplication at h
  split at h
  · obtain ⟨repo, hrepo, h⟩ := Option.bind_eq_some_iff.1 h
    obtain ⟨ref, hfound, h⟩ := Option.bind_eq_some_iff.1 h
    obtain ⟨commit, hcommit, h⟩ := Option.bind_eq_some_iff.1 h
    obtain ⟨ui, -, rfl⟩ := Option.map_eq_some_iff.1 h
    rw [SourceCoherenceAux.orElse_of_filled href] at hfound
    rw [hrepo, Option.bind_some, hfound, Option.getD_some, hcommit]
  · cases h

/-- An update without a commit leaves the one that there is. -/
theorem apply_gitSha (h : update.gitSha = none) : (applyDeploymentUpdate update spec).gitSha = spec.gitSha := by
  rw [applyDeploymentUpdate, h]

/-- The deployment is at a commit, and follows a branch of a repository. -/
def IsPinned (sha : String) (W : ReleaseWorld) : Prop :=
  ∃ spec, W.source.spec = some spec ∧ spec.gitSha = some sha ∧ spec.followsBranch = true

/-- What a patched spec follows, when the patch names neither a repository nor a ref. -/
theorem apply_followsBranch (hurl : update.repoUrl = none) (href : update.gitRef = none) (h : spec.followsBranch = true) :
    (applyDeploymentUpdate update spec).followsBranch = true := by
  unfold LlamaDeploymentSpec.followsBranch at h ⊢
  rw [applyDeploymentUpdate, hurl, href]
  exact h

/-- An update that keeps the pin. -/
theorem update_pinned {spec' : LlamaDeploymentSpec} (hnamed : sha ≠ "") (hspec : W.source.spec = some spec) (hsha : spec.gitSha = some sha)
    (hfollows : spec.followsBranch = true) (hleaves : (ReleaseAction.serve (.update update access)).leavesSource = true)
    (hkeeps : W.keepsPin (.serve (.update update access)) = true)
    (h : W.source.updatedSpec configs spec update access = some spec') : spec'.gitSha = some sha ∧ spec'.followsBranch = true := by
  obtain ⟨hurl, href⟩ := Bool.and_eq_true_iff.1 hleaves
  rw [Option.isNone_iff_eq_none] at hurl href
  obtain ⟨hnone, hpin⟩ := Bool.and_eq_true_iff.1 hkeeps
  rw [Option.isNone_iff_eq_none] at hnone
  rw [hspec, Option.all_some] at hpin
  obtain ⟨found, hfound, -, rfl⟩ := SourceCoherenceAux.updatedSpec_eq h
  obtain ⟨haurl, haref, hasha, hatoken⟩ := adjusted_source W.source.settings spec.repoUrl hurl
  have hapath := SourceCoherenceAux.adjusted_deploymentFilePath W.source.settings spec.repoUrl update
  rw [href] at haref
  rw [hnone] at hasha
  unfold resolveSource at hfound
  rcases @plan_leaves spec _ haurl haref with hplan | ⟨hexternal, hfields, path, hplan⟩
  · rw [hplan] at hfound
    subst hfound
    exact ⟨(apply_gitSha hasha).trans hsha, apply_followsBranch haurl haref hfollows⟩
  · rw [hplan] at hfound
    change SourceUpdate.validated (W.source.validateGitApplication configs access spec.repoUrl spec.gitRef path) = found at hfound
    rw [hatoken, hapath] at hfields
    cases hvalid : W.source.validateGitApplication configs access spec.repoUrl spec.gitRef path with
    | none =>
      rw [hvalid] at hfound
      subst hfound
      exact ⟨(apply_gitSha rfl).trans hsha, apply_followsBranch haurl haref hfollows⟩
    | some v =>
      rw [hvalid] at hfound
      subst hfound
      -- The ref is resolved again, so it has to name the commit that the deployment is at.
      have hnames : W.refNamesCommit spec = true := by
        rcases Bool.or_eq_true_iff.1 hpin with h | h
        · rcases Bool.or_eq_true_iff.1 h with hinternal | hneither
          · exact absurd (of_decide_eq_true hinternal) hexternal
          · obtain ⟨htoken, hpath⟩ := Bool.and_eq_true_iff.1 hneither
            exact absurd ⟨Option.isNone_iff_eq_none.1 htoken, Option.isNone_iff_eq_none.1 hpath⟩ hfields
        · exact h
      have hcommit := validated_gitSha (Bool.and_eq_true_iff.1 hfollows).1 hvalid
      rw [ReleaseWorld.refNamesCommit, hcommit, Option.all_some, decide_eq_true_eq, hsha, Option.some.injEq] at hnames
      refine ⟨?_, apply_followsBranch haurl haref hfollows⟩
      change (if v.gitSha = "" then none else some v.gitSha) = some sha
      rw [hnames, if_neg hnamed]

/-- A push leaves the spec of a deployment that has its code, and a commit, in its own repository. -/
theorem pushedSpec_pinned (hnamed : sha ≠ "") (hurl : spec.repoUrl = internalCodeRepoScheme) (hsha : spec.gitSha = some sha)
    (changed : Option (String × String)) : pushedSpec spec changed = spec := by
  have hnotFirst : isFirstPush spec = false := by
    simp [isFirstPush, hurl, hsha, isFilled, hnamed]
  cases changed with
  | none => rfl
  | some e =>
    rw [pushedSpec, hnotFirst]
    rfl

/-- One action after a rollback, when it keeps the pin. -/
theorem step_pinned {a : ReleaseAction} (hnamed : sha ≠ "") (hpinned : IsPinned sha W) (hleaves : a.leavesSource = true)
    (hkeeps : W.keepsPin a = true) (h : W.step configs a = some W') : IsPinned sha W' := by
  obtain ⟨spec, hspec, hsha, hfollows⟩ := hpinned
  cases a with
  | updateVersionTracking =>
    obtain ⟨_, -, rfl⟩ := Option.map_eq_some_iff.1 h
    exact ⟨spec, hspec, hsha, hfollows⟩
  | serve a =>
    cases a with
    | create data access =>
      obtain ⟨S, hS, -⟩ := Option.map_eq_some_iff.1 h
      rw [SourceWorld.step, hspec] at hS
      cases hS
    | update update access =>
      obtain ⟨S, hS, rfl⟩ := Option.map_eq_some_iff.1 h
      obtain ⟨spec₀, hspec₀, hS⟩ := Option.bind_eq_some_iff.1 hS
      cases hspec.symm.trans hspec₀
      obtain ⟨spec', hupdated, rfl⟩ := Option.map_eq_some_iff.1 hS
      exact ⟨spec', rfl, update_pinned hnamed hspec hsha hfollows hleaves hkeeps hupdated⟩
    | rollback _ _ => cases hleaves
    | push after =>
      obtain ⟨S, hS, rfl⟩ := Option.map_eq_some_iff.1 h
      obtain ⟨spec₀, hspec₀, hS⟩ := Option.bind_eq_some_iff.1 hS
      cases hspec.symm.trans hspec₀
      dsimp only at hS
      split at hS
      · case _ hpush =>
        cases hS
        have hnotEmpty : spec.repoUrl ≠ "" := of_decide_eq_true (Bool.and_eq_true_iff.1 hfollows).2
        have hurl : spec.repoUrl = internalCodeRepoScheme := by
          simpa [hnotEmpty] using (Bool.and_eq_true_iff.1 (Bool.and_eq_true_iff.1 hpush).1).1
        exact ⟨_, congrArg some (pushedSpec_pinned hnamed hurl hsha _), hsha, hfollows⟩
      · cases hS
    | change url content =>
      obtain ⟨S, hS, rfl⟩ := Option.map_eq_some_iff.1 h
      rw [SourceWorld.step] at hS
      split at hS
      · cases hS
      · cases hS
        exact ⟨spec, hspec, hsha, hfollows⟩

/-- The tag that a rollback takes is the oldest one recorded for the commit. -/
theorem rollbackTag_eq (W : ReleaseWorld) (sha : String) : W.rollbackTag sha none = (W.recordedTags sha).head? := by
  unfold ReleaseWorld.rollbackTag ReleaseWorld.recordedTags
  dsimp only
  rw [← List.head?_filter]
  cases hfound : W.history.filter fun item => item.gitSha = sha && isFilled item.imageTag with
  | nil => rfl
  | cons item rest =>
    have hitem := (List.mem_filter.1 (hfound ▸ List.mem_cons_self : item ∈ W.history.filter _)).2
    obtain ⟨tag, htag, -⟩ := (Option.any_eq_true _ _).1 (Bool.and_eq_true_iff.1 hitem).2
    rw [List.filterMap_cons_some htag]
    exact htag

end RollbackAux

/-- After a rollback of a deployment that follows a branch to the commit of a release, the deployment is at that commit, and stays
there through all later actions that name no repository and no ref and keep the pin, however the branch moves. A rollback that names
no image tag sets the last one recorded for the commit if and only if that is the first one as well. -/
theorem rollback_pins_commit {configs : String → String → Option (Option String)} {W : ReleaseWorld} {spec : LlamaDeploymentSpec}
    (release : ReleaseHistoryEntry) (requested : Option String) (hspec : W.source.spec = some spec)
    (hfollows : spec.followsBranch = true) :
    ∃ W' pinned, W.step configs (.serve (.rollback release.gitSha requested)) = some W' ∧ W'.source.spec = some pinned ∧
      pinned.gitSha = some release.gitSha ∧
      (requested = none → W.source.settings.shouldStampImageTag = true →
        ∀ tag, (W.recordedTags release.gitSha).getLast? = some tag →
          (pinned.imageTag = some tag ↔ (W.recordedTags release.gitSha).head? = some tag)) ∧
      ∀ V, Lib.Run (ReleaseWorld.step configs) (fun V a => a.leavesSource = true ∧ V.keepsPin a = true) W' V →
        ∃ later, V.source.spec = some later ∧ later.gitSha = some release.gitSha := by
  let tag := if W.source.settings.shouldStampImageTag then W.rollbackTag release.gitSha requested else none
  let pinned := applyDeploymentUpdate { gitSha := some release.gitSha, imageTag := tag } spec
  let W' : ReleaseWorld := { W with source := { W.source with spec := some pinned } }
  have hstep : W.step configs (.serve (.rollback release.gitSha requested)) = some W' := by
    rw [ReleaseWorld.step, SourceWorld.step, hspec]
    rfl
  have hsha : pinned.gitSha = some release.gitSha := if_neg release.named
  refine ⟨W', pinned, hstep, rfl, hsha, ?_, fun V hrun => ?_⟩
  · intro hrequested hstamps newest hnewest
    have htag : tag = (W.recordedTags release.gitSha).head? := by
      change (if W.source.settings.shouldStampImageTag then W.rollbackTag release.gitSha requested else none) = _
      rw [if_pos hstamps, hrequested, RollbackAux.rollbackTag_eq]
    change (tag.or none).or spec.imageTag = some newest ↔ _
    rw [htag]
    -- a tag is recorded, so the one of the spec does not matter
    cases htags : W.recordedTags release.gitSha with
    | nil => simp [htags] at hnewest
    | cons first rest => rfl
  · have hpinned : RollbackAux.IsPinned release.gitSha V := by
      refine hrun.invariant _ ⟨pinned, rfl, hsha, RollbackAux.apply_followsBranch rfl rfl hfollows⟩ ?_
      intro V a V' hpinned hallowed hstep
      exact RollbackAux.step_pinned release.named hpinned hallowed.1 hallowed.2 hstep
    obtain ⟨later, hlater, hcommit, -⟩ := hpinned
    exact ⟨later, hlater, hcommit⟩

namespace Unpinned

theorem commits_named : "" ∉ ["aaaaaaa", "bbbbbbb"] := by decide

theorem no_tags : ∀ e ∈ (∅ : Dict String String).entries, e.2 ∈ ["aaaaaaa", "bbbbbbb"] := List.forall_mem_nil _

/-- A repository whose branch `main` is at one of its two commits. -/
def repository (head : String) (hhead : head ∈ ["aaaaaaa", "bbbbbbb"]) : Repository where
  commits := ["aaaaaaa", "bbbbbbb"]
  refs := (∅ : Dict String String).set "refs/heads/main" head
  defaultBranch := some "main"
  named := commits_named
  tagged := no_tags
  closed e he := Or.inl (by cases he with | head => exact hhead | tail _ h => cases h)

/-- Every commit has a config without a UI. -/
def configs (_ path : String) : Option (Option String) := if path = "." then some none else none

/-- A repository at its first commit, and no deployment yet. -/
def start : ReleaseWorld where
  source :=
    { deploymentId := "app", projectId := "p"
      repositories := (∅ : Dict String Repository).set "https://one" (repository "aaaaaaa" (by decide)) }
  operatorTag := "latest"

/-- A deployment of the first commit. -/
def created : List ReleaseAction :=
  [.serve (.create { displayName := "app", repoUrl := "https://one", gitRef := some "main", appserverVersion := some "0.1" } {}),
    .updateVersionTracking]

/-- The branch moves to a commit, and the deployment follows with a version of the server. -/
def released (head : String) (hhead : head ∈ ["aaaaaaa", "bbbbbbb"]) (version : String) : List ReleaseAction :=
  [.serve (.change "https://one" (repository head hhead)),
    .serve (.update { gitRef := some "main", appserverVersion := some version } {}), .updateVersionTracking]

/-- The deployment is rolled back to its first commit. -/
def rollsBack : ReleaseAction := .serve (.rollback "aaaaaaa" none)

/-- The deployment gets another token. -/
def changesToken : ReleaseAction := .serve (.update { personalAccessToken := some "token" } {})

/-- The first commit is released, then the second one and the first one again, each with a newer server, and the second one. -/
def releases : List ReleaseAction :=
  created ++ released "bbbbbbb" (by decide) "0.2" ++ released "aaaaaaa" (by decide) "0.3" ++ released "bbbbbbb" (by decide) "0.4"

/-- The deployment as it is created, and the record of its release. -/
def deployed : ReleaseWorld :=
  { start with
    source := { start.source with
      spec := some { projectId := "p", repoUrl := "https://one", gitRef := some "main", gitSha := some "bbbbbbb" } }
    history := [⟨"aaaaaaa", some "0.1", by decide⟩] }

end Unpinned

open Unpinned in
/-- A deployment that is rolled back to its first commit is at the second one again after an update of its token. And the rollback
takes the image tag of the first release of the commit, not of the last one. -/
theorem rollback_pins_commit_false :
    (∃ W W' : ReleaseWorld, Lib.Run (ReleaseWorld.step configs) (fun _ _ => True) start W ∧
      (∃ spec, W.source.spec = some spec ∧ spec.followsBranch = true ∧ spec.gitSha = some "aaaaaaa") ∧
      changesToken.leavesSource = true ∧ W.step configs changesToken = some W' ∧
      ∃ spec, W'.source.spec = some spec ∧ spec.gitSha = some "bbbbbbb") ∧
    ∃ W W' : ReleaseWorld, Lib.Run (ReleaseWorld.step configs) (fun _ _ => True) start W ∧
      W.recordedTags "aaaaaaa" = ["0.1", "0.3"] ∧ W.step configs rollsBack = some W' ∧
      ∃ spec, W'.source.spec = some spec ∧ spec.imageTag = some "0.1" := by
  refine ⟨?_, ?_⟩
  · obtain ⟨W, hrun, hbefore, hafter⟩ := Lib.Run.exists_of_actions (ReleaseWorld.step configs) start (releases ++ [rollsBack])
      (fun W => (W.source.spec.any fun spec : LlamaDeploymentSpec => spec.followsBranch ∧ spec.gitSha = some "aaaaaaa") ∧
        (W.step configs changesToken).any fun W' : ReleaseWorld =>
          W'.source.spec.any fun spec : LlamaDeploymentSpec => decide (spec.gitSha = some "bbbbbbb"))
      (by decide +kernel)
    obtain ⟨spec, hspec, hpinned⟩ := (Option.any_eq_true _ _).1 hbefore
    obtain ⟨W', hstep, hmoved⟩ := (Option.any_eq_true _ _).1 hafter
    obtain ⟨spec', hspec', hsha'⟩ := (Option.any_eq_true _ _).1 hmoved
    exact ⟨W, W', hrun, ⟨spec, hspec, of_decide_eq_true hpinned⟩, rfl, hstep, spec', hspec', of_decide_eq_true hsha'⟩
  · obtain ⟨W, hrun, htags, hafter⟩ := Lib.Run.exists_of_actions (ReleaseWorld.step configs) start releases
      (fun W => W.recordedTags "aaaaaaa" = ["0.1", "0.3"] ∧
        (W.step configs rollsBack).any fun W' : ReleaseWorld =>
          W'.source.spec.any fun spec : LlamaDeploymentSpec => decide (spec.imageTag = some "0.1"))
      (by decide +kernel)
    obtain ⟨W', hstep, htag⟩ := (Option.any_eq_true _ _).1 hafter
    obtain ⟨spec, hspec, htag⟩ := (Option.any_eq_true _ _).1 htag
    exact ⟨W, W', hrun, htags, hstep, spec, hspec, of_decide_eq_true htag⟩

open Unpinned in
/-- The deployment is rolled back to its first release, with the image tag of it. -/
theorem rollback_pins_commit_deployed :
    ∃ W pinned, deployed.step configs rollsBack = some W ∧ W.source.spec = some pinned ∧ pinned.gitSha = some "aaaaaaa" ∧
      pinned.imageTag = some "0.1" := by
  obtain ⟨W, pinned, hstep, hspec, hsha, htag, -⟩ :=
    @rollback_pins_commit configs deployed _ ⟨"aaaaaaa", some "0.1", by decide⟩ none rfl rfl
  exact ⟨W, pinned, hstep, hspec, hsha, (htag rfl rfl "0.1" (by decide)).2 (by decide)⟩

end LlamaAgents
