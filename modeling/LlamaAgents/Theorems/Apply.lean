import LlamaAgents.Client.Apply

/-!
# Getting and applying is a no-op

A document reads back as the display model that it was made of, with what is null unset. What the masks stand for is left alone. The
only ways in which applying changes something: a text that reads like a reference to the environment, a tag whose end is no version,
and a deployment without a display name, which gets the empty one.
-/

namespace LlamaAgents.Apply

open Lib (Dict Json)

/-- The texts of a spec that are shown, and read back with their references resolved. -/
def shownTexts (rules : VersionRules) (spec : LlamaDeploymentSpec) : List String :=
  spec.repoUrl :: spec.deploymentFilePath :: (spec.gitRef.toList ++ (derivedVersion rules spec).toList)

/-- A spec that is got and applied as it is: there is a display name, no text reads like a reference to the environment, and what the
tag says is a valid version, if it says one. -/
structure SurvivesApply (rules : VersionRules) (spec : LlamaDeploymentSpec) : Prop where
  named : spec.displayName.isSome = true
  plain : ∀ text ∈ shownTexts rules spec, hasReference text.toList = false
  valid : (derivedVersion rules spec).bind rules.error? = none

namespace ApplyAux

variable {env : String → Option String}

/-! ## A document reads back -/

theorem readText_str (path : List String) (text : Option String) : readText path (text.map .str) = { value := text.map some } := by
  cases text <;> rfl

theorem readFlag_bool (path : List String) (flag : Option Bool) : readFlag path (flag.map .bool) = { value := flag.map some } := by
  cases flag <;> rfl

/-- Secrets are read back as they were written. -/
theorem readSecrets_dict (path : List String) (secrets : Option (Dict String (Option String))) :
    readSecrets path (secrets.map fun secrets => .dict (secrets.entries.map fun e => (e.1, jsonText e.2))) =
      { value := secrets.map some } := by
  cases secrets with
  | none => rfl
  | some secrets =>
    have hread (name : String) (value : Option String) :
        readText (path ++ [name]) (some (jsonText value)) = { value := some value } := by
      cases value <;> rfl
    rw [Option.map_some, readSecrets]
    simp only [List.map_map, Function.comp_def, hread, Option.join_some, List.flatMap_map]
    rw [List.map_id', Dict.ofList_entries]
    simp

theorem extraErrors_nil {path known : List String} {entries : List (String × Json)}
    (h : ∀ e ∈ entries, known.contains e.1 = true) : extraErrors path known entries = [] := by
  rw [extraErrors, List.filter_eq_nil_iff.2]
  · rfl
  · intro e he
    rw [h e he]
    exact Bool.false_ne_true

/-- A spec with what is null unset. -/
def withoutNulls (spec : DeploymentSpec) : DeploymentSpec :=
  { repoUrl := spec.repoUrl.join.map some
    deploymentFilePath := spec.deploymentFilePath.join.map some
    gitRef := spec.gitRef.join.map some
    appserverVersion := spec.appserverVersion.join.map some
    suspended := spec.suspended.join.map some
    secrets := spec.secrets.join.map some
    personalAccessToken := spec.personalAccessToken.join.map some }

theorem readSpec_values (spec : DeploymentSpec) :
    readSpec (spec.values.filterMap fun e => e.2.map fun v => (e.1, v)) = { value := withoutNulls spec } := by
  have hnodup : (spec.values.map Prod.fst).Nodup := by
    show ["repo_url", "deployment_file_path", "git_ref", "appserver_version", "suspended", "secrets",
      "personal_access_token"].Nodup
    decide
  have hextra : extraErrors ["spec"] ["repo_url", "deployment_file_path", "git_ref", "appserver_version", "suspended", "secrets",
      "personal_access_token"] (spec.values.filterMap fun e => e.2.map fun v => (e.1, v)) = [] := by
    refine extraErrors_nil fun e he => ?_
    obtain ⟨x, hx, hvalue⟩ := List.mem_filterMap.1 he
    obtain ⟨v, -, rfl⟩ := Option.map_eq_some_iff.1 hvalue
    have hkey : x.1 ∈ spec.values.map Prod.fst := List.mem_map_of_mem hx
    exact List.contains_iff_mem.2 hkey
  have hlookup (key : String) := Dict.lookup_filterMap key hnodup
  have hrepo : Dict.lookup "repo_url" spec.values = some (spec.repoUrl.join.map .str) := rfl
  have hpath : Dict.lookup "deployment_file_path" spec.values = some (spec.deploymentFilePath.join.map .str) := rfl
  have href : Dict.lookup "git_ref" spec.values = some (spec.gitRef.join.map .str) := rfl
  have hversion : Dict.lookup "appserver_version" spec.values = some (spec.appserverVersion.join.map .str) := rfl
  have hsuspended : Dict.lookup "suspended" spec.values = some (spec.suspended.join.map .bool) := rfl
  have hsecrets : Dict.lookup "secrets" spec.values = some (spec.secrets.join.map fun secrets =>
    .dict (secrets.entries.map fun e => (e.1, jsonText e.2))) := rfl
  have htoken : Dict.lookup "personal_access_token" spec.values = some (spec.personalAccessToken.join.map .str) := rfl
  rw [readSpec, hextra]
  simp only [hlookup, hrepo, hpath, href, hversion, hsuspended, hsecrets, htoken, Option.join_some, readText_str, readFlag_bool,
    readSecrets_dict, List.append_nil]
  rfl

/-- A document reads back as the display model that it was made of, without its status and with what is null unset. -/
theorem modelValidate_toOutputDict (display : DeploymentDisplay) :
    modelValidate display.toOutputDict =
      .ok { name := display.name, generateName := display.generateName, spec := withoutNulls display.spec } := by
  obtain ⟨name, generateName, spec, status⟩ := display
  let document := DeploymentDisplay.toOutputDict ⟨name, generateName, spec, none⟩
  have hdrop : Dict.drop "status" (DeploymentDisplay.toOutputDict ⟨name, generateName, spec, status⟩) = document := by
    cases generateName <;> cases status <;> rfl
  have hname : Dict.lookup "name" document = some (jsonText name) := rfl
  have hgenerate : Dict.lookup "generate_name" document = generateName.map .str := by cases generateName <;> rfl
  have hspec : Dict.lookup "spec" document = some (.dict (spec.values.filterMap fun e => e.2.map fun v => (e.1, v))) := by
    cases generateName <;> rfl
  have hextra : extraErrors [] ["name", "generate_name", "spec"] document = [] := by cases generateName <;> rfl
  have hread : readText ["name"] (some (jsonText name)) = { value := some name } := by cases name <;> rfl
  simp only [modelValidate, hdrop, hname, hgenerate, hspec, hextra, hread, readText_str, readSpec_values, List.append_nil]
  cases generateName <;> rfl

/-! ## References -/

/-- A text without references is left as it is. -/
theorem resolveString_plain {text : String} (h : hasReference text.toList = false) : resolveString env text = (text, []) := by
  have hchars : ∀ l, hasReference l = false → resolveChars env 0 l = (l, []) := by
    intro l
    induction l with
    | nil => exact fun _ => rfl
    | cons c l ih =>
      intro hl
      rw [hasReference, Bool.or_eq_false_iff] at hl
      have hnone : reference? (c :: l) = none := Option.not_isSome_iff_eq_none.1 (Bool.not_eq_true _ ▸ hl.1)
      rw [resolveChars, hnone, ih hl.2]
  rw [resolveString, hchars _ h, String.ofList_toList]

/-- A field without references is left as it is. -/
theorem resolveField_plain {path : List String} {field : Option (Option String)}
    (h : ∀ text, field = some (some text) → hasReference text.toList = false) : resolveField env path field = (field, []) := by
  rcases field with _ | _ | text
  · rfl
  · rfl
  · rw [resolveField, resolveString_plain (h text rfl)]
    rfl

/-- Where no variable is set, a text with a reference is not resolved. -/
theorem resolveChars_unresolved {l : List Char} (h : hasReference l = true) : (resolveChars (fun _ => none) 0 l).2 ≠ [] := by
  induction l with
  | nil => cases h
  | cons c l ih =>
    rw [resolveChars]
    split
    · case h_1 hnone =>
      rw [hasReference, hnone] at h
      exact ih h
    · exact List.cons_ne_nil _ _

/-- A field that is resolved where no variable is set has no references. -/
theorem plain_of_resolveField {path : List String} {field : Option (Option String)}
    (h : (resolveField (fun _ => none) path field).2 = []) : ∀ text, field = some (some text) → hasReference text.toList = false := by
  rintro text rfl
  by_contra hreference
  exact resolveChars_unresolved (Bool.not_eq_false _ ▸ hreference) (List.map_eq_nil_iff.1 h)

/-- Every value is the mask, or there is none. -/
def AllMasked (secrets : Option (Option (Dict String (Option String)))) : Prop :=
  ∀ d, secrets = some (some d) → ∀ e ∈ d.entries, e.2 = some secretMask

/-- Masks are left as they are. -/
theorem resolveSecrets_masked {secrets : Option (Option (Dict String (Option String)))} (h : AllMasked secrets) :
    resolveSecrets env secrets = (secrets, []) := by
  rcases secrets with _ | _ | d
  · rfl
  · rfl
  · have hmask := h d rfl
    have hplain : resolveString env secretMask = (secretMask, []) := resolveString_plain (by decide)
    rw [resolveSecrets]
    refine Prod.ext (congrArg (some ∘ some) (Dict.ext_entries ?_)) (List.flatMap_eq_nil_iff.2 fun e he => ?_)
    · refine (List.map_congr_left fun e he => ?_).trans (List.map_id _)
      obtain ⟨key, value⟩ := e
      cases hmask _ he
      dsimp only
      rw [Option.map_some, hplain]
      rfl
    · rw [hmask e he, resolveField, hplain]
      rfl

/-- A spec without references and with masks alone is left as it is. -/
theorem resolveSpecEnvVars_plain {spec : DeploymentSpec}
    (h : ∀ field ∈ [spec.repoUrl, spec.deploymentFilePath, spec.gitRef, spec.appserverVersion, spec.personalAccessToken],
      ∀ text, field = some (some text) → hasReference text.toList = false) (hsecrets : AllMasked spec.secrets) :
    resolveSpecEnvVars env spec = (spec, []) := by
  simp only [List.forall_mem_cons] at h
  obtain ⟨hrepo, hpath, href, hversion, htoken, -⟩ := h
  rw [resolveSpecEnvVars, resolveField_plain hrepo, resolveField_plain hpath, resolveField_plain href, resolveField_plain hversion,
    resolveField_plain htoken, resolveSecrets_masked hsecrets]
  rfl

/-- The secrets and the token that are shown are masks. -/
theorem allMasked_fromResponse (r : DeploymentResponse) : AllMasked (withoutNulls (DeploymentDisplay.fromResponse r).spec).secrets := by
  intro d hd e he
  rw [withoutNulls, DeploymentDisplay.fromResponse] at hd
  dsimp only at hd
  split at hd
  · cases hd
  · cases hd
    have hmem := Dict.mem_of_get?_ofList ((Dict.get?_eq_some_iff _ e.1 e.2).2 he)
    obtain ⟨name, -, hname⟩ := List.mem_map.1 hmem
    exact (Prod.ext_iff.1 hname).2.symm

/-- Masks are stripped, and nothing else. -/
theorem stripMasks_eq {spec : DeploymentSpec} (hsecrets : AllMasked spec.secrets) (hset : spec.secrets ≠ some none)
    (htoken : spec.personalAccessToken = none ∨ spec.personalAccessToken = some (some secretMask)) :
    stripMasks spec = { spec with secrets := none, personalAccessToken := none } := by
  have hempty (d : Dict String (Option String)) (hd : spec.secrets = some (some d)) :
      (d.filter fun _ value => value ≠ some secretMask).entries = [] := by
    refine List.filter_eq_nil_iff.2 fun e he => ?_
    rw [hsecrets d hd e he]
    simp
  obtain ⟨repoUrl, path, ref, version, suspended, secrets, token⟩ := spec
  have hstripped : (if token = some (some secretMask) then none else token) = none := by
    rcases htoken with rfl | rfl
    · rfl
    · rw [if_pos rfl]
  rw [stripMasks, hstripped]
  rcases secrets with _ | _ | d
  · rfl
  · exact absurd rfl hset
  · dsimp only
    rw [hempty d rfl]
    rfl

/-- The tag that comes of the version of a tag is that tag without its legacy start. -/
theorem derivedVersion_or (rules : VersionRules) (spec : LlamaDeploymentSpec) :
    ((derivedVersion rules spec).map versionToImageTag).or spec.imageTag = spec.imageTag.map trimLegacyTag := by
  rw [derivedVersion]
  cases spec.imageTag with
  | none => rfl
  | some tag =>
    rw [Option.bind_some, Option.map_some, imageTagToVersion]
    by_cases hlegacy : isLegacyTag tag = true
    · have hfilled : isFilled (some tag) = true := by
        rw [isFilled, Option.any_some, decide_eq_true_eq]
        rintro rfl
        exact absurd hlegacy (by decide)
      rw [if_pos hfilled, if_pos hlegacy]
      rfl
    · rw [if_neg hlegacy, trimLegacyTag, Lib.trimPrefix, if_neg (show ¬ "appserver-".toList.isPrefixOf tag.toList = true from hlegacy)]
      split
      · split
        · rfl
        · rfl
      · rfl

variable {rules : VersionRules} {spec : LlamaDeploymentSpec} {id : String} {status : Json} {secretNames : Option (List String)}

/-- The update that comes of getting a deployment and applying what was got, when no text reads like a reference to the environment:
an error of the version, or an update that names no secret. -/
theorem getAndApply_eq (hplain : ∀ text ∈ shownTexts rules spec, hasReference text.toList = false) :
    getAndApply rules env spec id status secretNames =
      match (derivedVersion rules spec).bind rules.error? with
      | some error => .error (.payload ("Value error, " ++ error))
      | none =>
        .ok { displayName := some (spec.displayName.getD ""), repoUrl := some spec.repoUrl
              deploymentFilePath := some spec.deploymentFilePath, gitRef := spec.gitRef
              appserverVersion := derivedVersion rules spec, suspended := some spec.suspended } := by
  let shown := withoutNulls (DeploymentDisplay.fromResponse (toResponse rules spec id status secretNames)).spec
  have hmasked : AllMasked shown.secrets := allMasked_fromResponse _
  have hset : shown.secrets ≠ some none := fun h => by
    obtain ⟨_, -, hnone⟩ := Option.map_eq_some_iff.1 h
    cases hnone
  have htoken : shown.personalAccessToken = none ∨ shown.personalAccessToken = some (some secretMask) := by
    change Option.map some (if _ then some secretMask else none) = _ ∨ Option.map some (if _ then some secretMask else none) = _
    split
    · exact Or.inr rfl
    · exact Or.inl rfl
  have hfields : ∀ field ∈ [shown.repoUrl, shown.deploymentFilePath, shown.gitRef, shown.appserverVersion, shown.personalAccessToken],
      ∀ text, field = some (some text) → hasReference text.toList = false := by
    simp only [shownTexts, List.forall_mem_cons, List.forall_mem_append, Option.mem_toList] at hplain
    obtain ⟨hrepo, hpath, href, hversion⟩ := hplain
    simp only [List.forall_mem_cons]
    refine ⟨fun text h => ?_, fun text h => ?_, fun text h => ?_, fun text h => ?_, fun text h => ?_, nofun⟩
    · cases h
      exact hrepo
    · cases h
      exact hpath
    · obtain ⟨ref, hget, heq⟩ := Option.map_eq_some_iff.1 h
      cases heq
      exact href _ hget
    · obtain ⟨version, hget, heq⟩ := Option.map_eq_some_iff.1 h
      cases heq
      exact hversion _ hget
    · rcases htoken with hnone | hmask
      · cases hnone.symm.trans h
      · cases hmask.symm.trans h
        decide
  have hjoin {α : Type} (o : Option α) : (o.map some).join = o := by cases o <;> rfl
  have hversions : shown.appserverVersion.join = derivedVersion rules spec := hjoin _
  have hrefs : shown.gitRef.join = spec.gitRef := hjoin _
  rw [getAndApply, parseApplyYaml, modelValidate_toOutputDict]
  dsimp only
  rw [resolveSpecEnvVars_plain hfields hmasked]
  dsimp only
  rw [if_pos List.isEmpty_nil, stripMasks_eq hmasked hset htoken]
  dsimp only [toUpdatePayload]
  rw [hversions, hrefs]
  cases (derivedVersion rules spec).bind rules.error? with
  | none => rfl
  | some error => rfl

/-- What is applied where no variable is set has no references. -/
theorem plain_of_getAndApply {update : DeploymentUpdate}
    (h : getAndApply rules (fun _ => none) spec id status secretNames = .ok update) :
    ∀ text ∈ shownTexts rules spec, hasReference text.toList = false := by
  rw [getAndApply, parseApplyYaml, modelValidate_toOutputDict] at h
  dsimp only at h
  split at h
  · cases h
  · case h_2 hparsed =>
    split at hparsed
    · case isTrue hempty =>
      simp only [resolveSpecEnvVars, List.isEmpty_iff, List.append_eq_nil_iff] at hempty
      obtain ⟨⟨⟨⟨⟨hrepo, hpath⟩, href⟩, hversion⟩, -⟩, -⟩ := hempty
      simp only [shownTexts, List.forall_mem_cons, List.forall_mem_append, Option.mem_toList]
      refine ⟨plain_of_resolveField hrepo _ rfl, plain_of_resolveField hpath _ rfl, fun ref hget => ?_, fun version hget => ?_⟩
      · refine plain_of_resolveField href ref ?_
        change spec.gitRef.map some = _
        rw [hget]
        rfl
      · refine plain_of_resolveField hversion version ?_
        change (derivedVersion rules spec).map some = _
        rw [hget]
        rfl
    · cases hparsed

end ApplyAux

open ApplyAux

/-- For every spec and all secret names, getting the deployment and applying what was got succeeds in every environment, leaves the
spec but for the legacy start of the image tag, and neither adds nor removes a secret, exactly for the specs that survive it. -/
theorem get_then_apply_changes_nothing (rules : VersionRules) (spec : LlamaDeploymentSpec) (id : String) (status : Json)
    (secretNames : Option (List String)) :
    (∀ env, ∃ update, getAndApply rules env spec id status secretNames = .ok update ∧
      applyDeploymentUpdate update spec = { spec with imageTag := spec.imageTag.map trimLegacyTag } ∧
      update.secretAdds = ∅ ∧ update.secretRemoves = []) ↔ SurvivesApply rules spec := by
  refine ⟨fun h => ?_, fun h env => ?_⟩
  · obtain ⟨update, hupdate, hspec, -⟩ := h fun _ => none
    have hplain := plain_of_getAndApply hupdate
    rw [getAndApply_eq hplain] at hupdate
    split at hupdate
    · cases hupdate
    · case h_2 hvalid =>
      cases hupdate
      refine ⟨?_, hplain, hvalid⟩
      rw [← show some (spec.displayName.getD "") = spec.displayName from congrArg LlamaDeploymentSpec.displayName hspec]
      rfl
  · refine ⟨_, (getAndApply_eq h.plain).trans (by rw [h.valid]), ?_, rfl, rfl⟩
    obtain ⟨name, hname⟩ := Option.isSome_iff_exists.1 h.named
    have hrefs : spec.gitRef.or spec.gitRef = spec.gitRef := by cases spec.gitRef <;> rfl
    have htag := derivedVersion_or rules spec
    clear h
    obtain ⟨projectId, repoUrl, path, gitRef, gitSha, displayName, secretName, assets, tag, suspended, generation⟩ := spec
    cases hname
    dsimp only [applyDeploymentUpdate] at hrefs htag ⊢
    rw [hrefs, Option.none_or, Option.none_or, htag]
    rfl

namespace ApplyWitness

/-- Versions of digits and points. -/
def rules : VersionRules where
  isDigit := Char.isDigit
  repr value := "'" ++ value ++ "'"
  parse value := if value ≠ "" ∧ value.toList.all (fun c => c.isDigit || c = '.') then some (0, false) else none

/-- A deployment with a display name, a ref and an image tag. -/
def spec (displayName gitRef imageTag : Option String) : LlamaDeploymentSpec :=
  { projectId := "p", repoUrl := "repo", displayName := displayName, gitRef := gitRef, imageTag := imageTag }

/-- What becomes of a deployment with two secrets and a token. -/
def applied (env : String → Option String) (spec : LlamaDeploymentSpec) : Except ApplyError LlamaDeploymentSpec :=
  (getAndApply rules env spec "app" .null (some ["API_KEY", "GITHUB_PAT", "OTHER"])).map fun update => applyDeploymentUpdate update spec

end ApplyWitness

open ApplyWitness

/-- A tag whose end is no version cannot be applied, a ref that reads like a reference is taken for one, and a deployment without a
display name gets the empty one. -/
theorem get_then_apply_changes_nothing_false :
    (∃ error, applied (fun _ => none) (spec (some "App") none (some "appserver-latest")) = .error (.payload error)) ∧
    (∃ errors, applied (fun _ => none) (spec (some "App") (some "$\x7bBRANCH\x7d") none) = .error (.document errors)) ∧
    (applied (fun _ => some "main") (spec (some "App") (some "$\x7bBRANCH\x7d") none) = .ok (spec (some "App") (some "main") none)) ∧
    applied (fun _ => none) (spec none none none) = .ok (spec (some "") none none) :=
  ⟨⟨_, rfl⟩, ⟨_, rfl⟩, rfl, rfl⟩

/-- A deployment with a legacy tag, secrets and a token is left as it is but for the start of the tag. -/
theorem get_then_apply_changes_nothing_legacy :
    ∃ update, getAndApply rules (fun _ => none) (spec (some "App") (some "main") (some "appserver-0.4.2")) "app" .null
        (some ["API_KEY", "GITHUB_PAT", "OTHER"]) = .ok update ∧
      applyDeploymentUpdate update (spec (some "App") (some "main") (some "appserver-0.4.2")) =
        spec (some "App") (some "main") (some "0.4.2") ∧ update.secretAdds = ∅ ∧ update.secretRemoves = [] := by
  have hversion : derivedVersion rules (spec (some "App") (some "main") (some "appserver-0.4.2")) = some "0.4.2" := by decide
  refine (get_then_apply_changes_nothing rules _ "app" .null _).2 ⟨rfl, ?_, ?_⟩ _
  · rw [shownTexts, hversion]
    decide
  · rw [hversion]
    decide

end LlamaAgents.Apply
