import LlamaAgents.ControlPlane.Update

/-!
# An update changes only what it names

The object that is written back agrees with the stored one outside of what the update names, as long as the control plane carries the
stored object. It has no place for an image, a template, an old name, finalizers and owners, and a replace takes away what it does
not write.
-/

namespace LlamaAgents

open Lib (Dict)

namespace UpdateFrameAux

variable {digest : String → String} {deploymentId : String} {update : DeploymentUpdate} {stored : StoredDeployment}
  {secrets : Dict String String}

theorem eq_none_of_isSome {α : Type} {o : Option α} (h : o.isSome = false) : o = none :=
  Option.not_isSome_iff_eq_none.1 (Bool.not_eq_true _ ▸ h)

/-- A text that is not filled reads as the empty one. -/
theorem getD_of_not_filled {s : Option String} (h : isFilled s = false) : s.getD "" = "" := by
  cases s with
  | none => rfl
  | some t =>
    rw [isFilled, Option.any_some, decide_eq_false_iff_not, ne_eq, not_not] at h
    exact h

/-- An update writes the secret name when it changes secrets, and otherwise only what `apply_deployment_update` changes. -/
theorem read_written (f : SpecField) (hf : f ≠ .secretName) :
    (writtenBack digest deploymentId update stored secrets).spec.read f =
      (applyDeploymentUpdate update (.modelValidate stored.spec)).modelDump.read f := by
  unfold writtenBack updatedResource
  dsimp only
  split
  · split
    · rfl
    · cases f with
      | secretName => exact (hf rfl).elim
      | _ => rfl
  · rfl

theorem read_secretName (h : update.derives stored .secretName = false) :
    (writtenBack digest deploymentId update stored secrets).spec.read .secretName = stored.spec.read .secretName := by
  unfold writtenBack updatedResource
  dsimp only
  split
  · case _ hchanges =>
    rw [DeploymentUpdate.derives, hchanges, Bool.true_and, Bool.not_eq_false'] at h
    rw [if_pos (show isFilled (LlamaDeploymentCRD.modelValidate stored).spec.secretName = true from h)]
    rfl
  · rfl

/-- Every field that is carried, and neither named nor derived, is written as it is stored. -/
theorem read_carried {f : SpecField} (hset : update.sets f = false) (hderived : update.derives stored f = false)
    (hcarried : stored.spec.carries f = true) :
    (writtenBack digest deploymentId update stored secrets).spec.read f = stored.spec.read f := by
  by_cases hname : f = .secretName
  · subst hname
    exact read_secretName hderived
  rw [read_written f hname]
  cases f with
  | projectId => rfl
  | secretName => exact (hname rfl).elim
  | displayName =>
    have hnone : update.displayName = none := eq_none_of_isSome hset
    have hkept : stored.spec.migratedDisplayName = stored.spec.displayName := by
      rw [CrdSpec.carries, Bool.or_eq_true, Bool.not_eq_true'] at hcarried
      rw [CrdSpec.migratedDisplayName]
      rcases hcarried with h | h
      · rw [h, Bool.false_and, if_neg Bool.false_ne_true]
      · rw [h, Bool.not_true, Bool.and_false, if_neg Bool.false_ne_true]
    simp [applyDeploymentUpdate, LlamaDeploymentSpec.modelDump, LlamaDeploymentSpec.modelValidate, CrdSpec.read, hnone, hkept]
  | name =>
    rw [CrdSpec.carries, Bool.not_eq_true'] at hcarried
    exact congrArg FieldValue.text (getD_of_not_filled hcarried).symm
  | image =>
    rw [CrdSpec.carries, Bool.not_eq_true'] at hcarried
    exact congrArg FieldValue.text (getD_of_not_filled hcarried).symm
  | templateName =>
    rw [CrdSpec.carries, Bool.not_eq_true'] at hcarried
    exact congrArg FieldValue.text (getD_of_not_filled hcarried).symm
  | suspended =>
    have hnone : update.suspended = none := eq_none_of_isSome hset
    have hresume : ((stored.spec.suspended.getD false) && update.hasSubstantiveFields) = false := hderived
    simp [applyDeploymentUpdate, LlamaDeploymentSpec.modelDump, LlamaDeploymentSpec.modelValidate, CrdSpec.read, hnone, hresume]
  | buildGeneration =>
    have hno : update.rebuild = false := hset
    simp [applyDeploymentUpdate, LlamaDeploymentSpec.modelDump, LlamaDeploymentSpec.modelValidate, CrdSpec.read, hno]
  | imageTag =>
    rw [DeploymentUpdate.sets, Bool.or_eq_false_iff] at hset
    have htag : update.imageTag = none := eq_none_of_isSome hset.1
    have hversion : update.appserverVersion = none := eq_none_of_isSome hset.2
    simp [applyDeploymentUpdate, LlamaDeploymentSpec.modelDump, LlamaDeploymentSpec.modelValidate, CrdSpec.read, htag, hversion]
  | repoUrl =>
    have hnone : update.repoUrl = none := eq_none_of_isSome hset
    simp [applyDeploymentUpdate, LlamaDeploymentSpec.modelDump, LlamaDeploymentSpec.modelValidate, CrdSpec.read, hnone]
  | deploymentFilePath =>
    have hnone : update.deploymentFilePath = none := eq_none_of_isSome hset
    simp [applyDeploymentUpdate, LlamaDeploymentSpec.modelDump, LlamaDeploymentSpec.modelValidate, CrdSpec.read, hnone]
  | gitRef =>
    have hnone : update.gitRef = none := eq_none_of_isSome hset
    simp [applyDeploymentUpdate, LlamaDeploymentSpec.modelDump, LlamaDeploymentSpec.modelValidate, CrdSpec.read, hnone]
  | gitSha =>
    have hnone : update.gitSha = none := eq_none_of_isSome hset
    simp [applyDeploymentUpdate, LlamaDeploymentSpec.modelDump, LlamaDeploymentSpec.modelValidate, CrdSpec.read, hnone]
  | staticAssetsPath =>
    have hnone : update.staticAssetsPath = none := eq_none_of_isSome hset
    simp [applyDeploymentUpdate, LlamaDeploymentSpec.modelDump, LlamaDeploymentSpec.modelValidate, CrdSpec.read, hnone]

/-- Labels are written as they are stored. -/
theorem labels_written : (writtenBack digest deploymentId update stored secrets).metadata.labels = stored.metadata.labels := by
  unfold writtenBack updatedResource
  dsimp only
  split
  · rfl
  · rfl

/-- Annotations are written as they are stored, but for the hash of a Secret that changes. -/
theorem annotations_written {key : String} (hkey : key = secretHashKey → update.changesSecrets = false) :
    ((writtenBack digest deploymentId update stored secrets).metadata.annotations.getD ∅).get? key =
      (stored.metadata.annotations.getD ∅).get? key := by
  unfold writtenBack updatedResource
  dsimp only
  split
  · case _ hchanges =>
    refine Dict.get?_set_ne _ _ fun hsame => ?_
    rw [hkey hsame] at hchanges
    cases hchanges
  · rfl

/-- No finalizer and no owner is written. -/
theorem owners_written : (writtenBack digest deploymentId update stored secrets).metadata.finalizers = [] ∧
    (writtenBack digest deploymentId update stored secrets).metadata.ownerReferences = [] := by
  unfold writtenBack updatedResource
  dsimp only
  split
  · exact ⟨rfl, rfl⟩
  · exact ⟨rfl, rfl⟩

/-- What the model of the control plane has no place for reads as empty in every object written back. -/
theorem read_dropped : (writtenBack digest deploymentId update stored secrets).spec.read .name = .text "" ∧
    (writtenBack digest deploymentId update stored secrets).spec.read .image = .text "" ∧
    (writtenBack digest deploymentId update stored secrets).spec.read .templateName = .text "" :=
  ⟨read_written .name nofun, read_written .image nofun, read_written .templateName nofun⟩

theorem not_filled_of_getD {s : Option String} (h : FieldValue.text "" = .text (s.getD "")) : (!isFilled s) = true := by
  cases s with
  | none => rfl
  | some t =>
    obtain rfl : "" = t := FieldValue.text.inj h
    rfl

/-- A stored object that agrees with what is written back, where the update has no say, is carried. -/
theorem isCarried_of_kept
    (hspec : ∀ f ∈ [SpecField.name, .image, .templateName],
      (writtenBack digest deploymentId update stored secrets).spec.read f = stored.spec.read f)
    (hfinalizers : (writtenBack digest deploymentId update stored secrets).metadata.finalizers = stored.metadata.finalizers)
    (howners : (writtenBack digest deploymentId update stored secrets).metadata.ownerReferences = stored.metadata.ownerReferences) :
    stored.isCarried = true := by
  rw [owners_written.1] at hfinalizers
  rw [owners_written.2] at howners
  have hname := hspec .name (by simp)
  have himage := hspec .image (by simp)
  have htemplate := hspec .templateName (by simp)
  rw [read_dropped.1] at hname
  rw [read_dropped.2.1] at himage
  rw [read_dropped.2.2] at htemplate
  simp only [StoredDeployment.isCarried, Bool.and_eq_true, List.isEmpty_iff]
  exact ⟨⟨⟨⟨not_filled_of_getD hname, not_filled_of_getD himage⟩, not_filled_of_getD htemplate⟩, hfinalizers.symm⟩, howners.symm⟩

theorem carries_of_isCarried (h : stored.isCarried = true) : (∀ f, stored.spec.carries f = true) ∧ stored.metadata.finalizers = [] ∧
    stored.metadata.ownerReferences = [] := by
  simp only [StoredDeployment.isCarried, Bool.and_eq_true, List.isEmpty_iff] at h
  obtain ⟨⟨⟨⟨hname, himage⟩, htemplate⟩, hfinalizers⟩, howners⟩ := h
  refine ⟨fun f => ?_, hfinalizers, howners⟩
  cases f with
  | name => exact hname
  | image => exact himage
  | templateName => exact htemplate
  | displayName =>
    replace hname : (!isFilled stored.spec.name) = true := hname
    show (!isFilled stored.spec.name || isFilled stored.spec.displayName) = true
    rw [hname, Bool.true_or]
  | _ => rfl

end UpdateFrameAux

open UpdateFrameAux in
/-- For every stored object and every update, with whatever the Secret holds, the object written back agrees with the stored one
outside of the update exactly when the stored object is carried, and exactly then the empty update writes all fields and metadata back
as they are. -/
theorem update_changes_only_what_it_names (digest : String → String) (deploymentId : String) (stored : StoredDeployment)
    (update : DeploymentUpdate) (secrets : Dict String String) :
    (AgreesOutside update stored (writtenBack digest deploymentId update stored secrets) ↔ stored.isCarried = true) ∧
    ((∀ f, (writtenBack digest deploymentId {} stored secrets).spec.read f = stored.spec.read f) ∧
      (writtenBack digest deploymentId {} stored secrets).metadata = stored.metadata ↔ stored.isCarried = true) := by
  refine ⟨⟨fun h => ?_, fun h => ?_⟩, fun h => ?_, fun h => ?_⟩
  · refine isCarried_of_kept (fun f hf => ?_) h.finalizers h.ownerReferences
    simp only [List.mem_cons, List.not_mem_nil, or_false] at hf
    rcases hf with rfl | rfl | rfl
    · exact h.spec _ rfl rfl
    · exact h.spec _ rfl rfl
    · exact h.spec _ rfl rfl
  · obtain ⟨hcarries, hfinalizers, howners⟩ := carries_of_isCarried h
    refine ⟨fun f hset hderived => read_carried hset hderived (hcarries f), labels_written, fun key hkey => annotations_written hkey, ?_, ?_⟩
    · rw [owners_written.1, hfinalizers]
    · rw [owners_written.2, howners]
  · exact isCarried_of_kept (fun f _ => h.1 f) (by rw [h.2]) (by rw [h.2])
  · obtain ⟨hcarries, hfinalizers, howners⟩ := carries_of_isCarried h
    refine ⟨fun f => read_carried ?_ ?_ (hcarries f), ?_⟩
    · cases f <;> rfl
    · cases f with
      | suspended => exact Bool.and_false _
      | _ => rfl
    · obtain ⟨m, spec⟩ := stored
      cases m
      cases hfinalizers
      cases howners
      rfl

namespace Stripped

/-- A resource as the operator keeps it: with its finalizer, an image and a template. -/
def reconciled : StoredDeployment :=
  { metadata := { name := "app", resourceNamespace := "default", finalizers := ["deploy.llamaindex.ai/finalizer"] }
    spec := { projectId := "p", repoUrl := "repo", image := some "registry/appserver", templateName := some "large" } }

end Stripped

/-- Whatever is stored, the empty update writes an object without finalizers, owners, image, template and old name; so a resource as
the operator keeps it does not survive it. -/
theorem update_changes_only_what_it_names_false :
    (∀ digest deploymentId stored secrets,
      let written := writtenBack digest deploymentId {} stored secrets
      written.metadata.finalizers = [] ∧ written.metadata.ownerReferences = [] ∧ written.spec.read .image = .text "" ∧
        written.spec.read .templateName = .text "" ∧ written.spec.read .name = .text "") ∧
    ∀ digest deploymentId secrets, ¬ AgreesOutside {} Stripped.reconciled (writtenBack digest deploymentId {} Stripped.reconciled secrets) := by
  refine ⟨fun digest deploymentId stored secrets => ?_, fun digest deploymentId secrets h => ?_⟩
  · exact ⟨rfl, rfl, rfl, rfl, rfl⟩
  · have himage : FieldValue.text "" = .text "registry/appserver" := h.spec .image rfl rfl
    exact absurd himage (by decide)

/-- A resource with a display name, suspended and with a label, survives a new commit but for the commit and the suspension. -/
theorem update_changes_only_what_it_names_plain :
    let stored : StoredDeployment :=
      { metadata := { name := "app", resourceNamespace := "default", labels := some (Dict.empty.set "team" "a") }
        spec := { projectId := "p", repoUrl := "repo", displayName := some "App", suspended := some true } }
    stored.isCarried = true ∧
      AgreesOutside { gitRef := some "main", gitSha := some "sha" } stored
        (writtenBack id "app" { gitRef := some "main", gitSha := some "sha" } stored ∅) ∧
      (writtenBack id "app" { gitRef := some "main", gitSha := some "sha" } stored ∅).spec.read .suspended = .flag false :=
  ⟨rfl, (update_changes_only_what_it_names id "app" _ _ _).1.2 rfl, rfl⟩

end LlamaAgents
