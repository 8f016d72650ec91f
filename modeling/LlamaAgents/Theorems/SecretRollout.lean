import LlamaAgents.ControlPlane.SecretRollout
import LlamaAgents.Theorems.UpdateFrame
import Mathlib.Data.String.Basic

/-!
# A changed Secret reaches the pods

The hash is over the items joined with separators that keys and values may have themselves, so two contents can have one hash. And a
restore takes the hash off the resource: over a resource without one, the pod template stays as it is. So it does when only the Secret
is written.
-/

namespace LlamaAgents

open Lib (Dict)

namespace SecretRolloutAux

variable {digest : String → String} {deploymentId : String}

/-! ## What is digested can be read back -/

/-- An item as it is joined. -/
def item (e : String × String) : List Char := e.1.toList ++ '=' :: e.2.toList

/-- An item is cut at the first sign of equality. -/
def cutItem (text : List Char) : String × String :=
  (String.ofList (text.takeWhile (· ≠ '=')), String.ofList ((text.dropWhile (· ≠ '=')).drop 1))

/-- The items are read back from what they were joined to. -/
def readBack (content : List Char) : List (String × String) := if content = [] then [] else (content.splitOn '|').map cutItem

/-- The items in the order of their keys. -/
def sortedItems (secrets : Dict String String) : List (String × String) := secrets.entries.insertionSort fun a b => a.1 ≤ b.1

theorem perm_sortedItems (secrets : Dict String String) : (sortedItems secrets).Perm secrets.entries := List.perm_insertionSort _ _

theorem cutItem_item {e : String × String} (hkey : '=' ∉ e.1.toList) : cutItem (item e) = e := by
  have htake : ∀ c ∈ e.1.toList, decide (c ≠ '=') = true := by
    intro c hc
    rw [decide_eq_true_eq]
    rintro rfl
    exact hkey hc
  rw [cutItem, item, List.takeWhile_append_of_pos htake, List.dropWhile_append_of_pos htake]
  simp

theorem toList_secretContent (secrets : Dict String String) :
    (secretContent secrets).toList = ['|'].intercalate ((sortedItems secrets).map item) := by
  rw [secretContent, String.toList_intercalate, List.map_map]
  refine congrArg (List.intercalate _) (List.map_congr_left fun e _ => ?_)
  simp [item]

/-- What is known of the items of a content that can be read back. -/
theorem separable_item {secrets : Dict String String} (h : isSeparable secrets = true) {e : String × String}
    (he : e ∈ sortedItems secrets) : '=' ∉ e.1.toList ∧ '|' ∉ item e := by
  have hall := List.all_eq_true.1 h e ((perm_sortedItems secrets).mem_iff.1 he)
  simp only [Bool.and_eq_true, Bool.not_eq_true', List.contains_eq_mem, decide_eq_false_iff_not] at hall
  obtain ⟨⟨hequal, hkey⟩, hvalue⟩ := hall
  refine ⟨hequal, fun hbar => ?_⟩
  rcases List.mem_append.1 hbar with hbar | hbar
  · exact hkey hbar
  · rcases List.mem_cons.1 hbar with hbar | hbar
    · exact absurd hbar (by decide)
    · exact hvalue hbar

theorem readBack_secretContent {secrets : Dict String String} (h : isSeparable secrets = true) :
    readBack (secretContent secrets).toList = sortedItems secrets := by
  rw [toList_secretContent]
  cases hitems : sortedItems secrets with
  | nil => rfl
  | cons e rest =>
    have hmem {x : String × String} (hx : x ∈ e :: rest) : x ∈ sortedItems secrets := hitems ▸ hx
    have hbars : ∀ l ∈ (e :: rest).map item, '|' ∉ l := by
      intro l hl
      obtain ⟨x, hx, rfl⟩ := List.mem_map.1 hl
      exact (separable_item h (hmem hx)).2
    have hne : ['|'].intercalate ((e :: rest).map item) ≠ [] := by
      intro hnil
      have hsplit := List.splitOn_intercalate '|' hbars (by simp)
      rw [hnil] at hsplit
      have hfirst : [] = item e := (List.cons.inj hsplit).1
      simp [item] at hfirst
    rw [readBack, if_neg hne, List.splitOn_intercalate '|' hbars (by simp), List.map_map]
    refine (List.map_congr_left fun x hx => ?_).trans (List.map_id _)
    exact cutItem_item (separable_item h (hmem hx)).1

/-- Contents whose items can be told apart and that are digested from one text have the same keys and values. -/
theorem get?_of_secretContent {c c' : Dict String String} (hc : isSeparable c = true) (hc' : isSeparable c' = true)
    (h : secretContent c = secretContent c') (key : String) : c.get? key = c'.get? key := by
  have hitems : sortedItems c = sortedItems c' := by rw [← readBack_secretContent hc, h, readBack_secretContent hc']
  refine Option.ext fun value => ?_
  rw [Dict.get?_eq_some_iff, Dict.get?_eq_some_iff, ← (perm_sortedItems c).mem_iff, hitems, (perm_sortedItems c').mem_iff]

/-! ## The hash through the writes -/

theorem get?_podAnnotations (stored : StoredDeployment) : stored.podAnnotations.get? secretHashKey = stored.secretHash := by
  rw [StoredDeployment.podAnnotations]
  cases stored.secretHash with
  | none => exact Dict.get?_set_ne _ _ (by decide)
  | some hash => exact Dict.get?_set_self _ _ _

/-- An update that changes secrets stamps the hash of what they have become. -/
theorem secretHash_changed {update : DeploymentUpdate} (h : update.changesSecrets = true) (stored : StoredDeployment)
    (secrets : Dict String String) : (writtenBack digest deploymentId update stored secrets).secretHash =
      some (digest (secretContent (mergedSecrets update secrets))) := by
  unfold writtenBack updatedResource
  rw [if_pos h]
  exact Dict.get?_set_self _ _ _

/-- Another update leaves the hash. -/
theorem secretHash_unchanged {update : DeploymentUpdate} (h : update.changesSecrets = false) (stored : StoredDeployment)
    (secrets : Dict String String) : (writtenBack digest deploymentId update stored secrets).secretHash = stored.secretHash :=
  UpdateFrameAux.annotations_written fun _ => h

/-- A resource from a backup has no hash. -/
theorem secretHash_cleaned (stored : StoredDeployment) : stored.cleaned.secretHash = none := by
  rw [StoredDeployment.secretHash, StoredDeployment.cleaned, ClusterDeployment.cleanedAnnotations]
  split
  · rfl
  · rw [Option.getD_some, ClusterDeployment.keptAnnotations, Dict.get?_filter]
    have hsystem : ClusterDeployment.isSystemAnnotation secretHashKey = true := by decide
    rw [hsystem]
    cases (stored.metadata.annotations.getD ∅).get? secretHashKey <;> rfl

theorem secretHash_created {input : CreationInput} : (input.resource digest deploymentId).secretHash =
    if input.data.allSecrets.entries.isEmpty then none else some (digest (secretContent input.data.allSecrets)) := by
  rw [StoredDeployment.secretHash, CreationInput.resource, Option.getD_some]
  split
  · rfl
  · exact Dict.get?_set_self _ _ _

/-- A hash on the resource is that of the contents of the Secret. -/
def Stamped (digest : String → String) (s : SecretedDeployment) : Prop :=
  ∀ stored hash, s.resource = some stored → stored.secretHash = some hash → ∃ c, s.secret = some c ∧ hash = digest (secretContent c)

theorem stamped_absent (secret : Option (Dict String String)) : Stamped digest { secret := secret } := by
  intro stored hash hstored
  cases hstored

/-- What is written as a whole is stamped. -/
theorem stamped_written {s : SecretedDeployment} (h : Stamped digest s) (next : SecretWrite) :
    Stamped digest (s.written digest deploymentId next) := by
  intro stored hash hstored hhash
  cases next with
  | create input =>
    rw [SecretedDeployment.written] at hstored ⊢
    cases hres : s.resource with
    | some existing =>
      rw [hres] at hstored
      exact h stored hash (hres.trans (hres.symm.trans hstored)) hhash
    | none =>
      rw [hres] at hstored
      cases hstored
      rw [secretHash_created] at hhash
      dsimp only
      split at hhash
      · cases hhash
      · case _ hsome =>
        cases hhash
        exact ⟨_, if_neg hsome, rfl⟩
  | update update =>
    rw [SecretedDeployment.written] at hstored ⊢
    cases hres : s.resource with
    | none =>
      rw [hres] at hstored
      exact absurd (hres.symm.trans hstored) nofun
    | some existing =>
      rw [hres] at hstored
      cases hstored
      dsimp only
      cases hchanges : update.changesSecrets with
      | true =>
        cases (secretHash_changed hchanges existing (s.secret.getD ∅)).symm.trans hhash
        exact ⟨_, if_pos rfl, rfl⟩
      | false =>
        rw [secretHash_unchanged hchanges] at hhash
        obtain ⟨c, hc, rfl⟩ := h existing hash hres hhash
        exact ⟨c, by rw [if_neg Bool.false_ne_true, hc], rfl⟩
  | restore backedUp secret =>
    cases hstored
    rw [secretHash_cleaned] at hhash
    cases hhash

theorem stamped_writeAll {s : SecretedDeployment} (h : Stamped digest s) {writes : List (SecretWrite × Bool)}
    (hwhole : ∀ w ∈ writes, w.2 = true) : Stamped digest (s.writeAll digest deploymentId writes) := by
  induction writes generalizing s with
  | nil => exact h
  | cons next rest ih =>
    obtain ⟨hnext, hrest⟩ := List.forall_mem_cons.1 hwhole
    refine ih ?_ hrest
    rw [SecretedDeployment.write, if_pos hnext]
    exact stamped_written h next.1

/-- A write over a resource that is stamped changes its hash with the contents, unless it is a restore and there was no hash. -/
theorem secretHash_written (hdigest : Function.Injective digest) {s : SecretedDeployment} (hstamped : Stamped digest s)
    {next : SecretWrite} {stored stored' : StoredDeployment} {c c' : Dict String String} {key : String}
    (hstored : s.resource = some stored) (hstored' : (s.written digest deploymentId next).resource = some stored')
    (hc : s.secret = some c) (hc' : (s.written digest deploymentId next).secret = some c') (hchanged : c.get? key ≠ c'.get? key)
    (hseparable : isSeparable c = true) (hseparable' : isSeparable c' = true)
    (hrestore : next.isRestore = true → stored.secretHash.isSome = true) : stored.secretHash ≠ stored'.secretHash := by
  cases next with
  | create input =>
    -- the id is in use, so nothing is written
    rw [SecretedDeployment.written, hstored, hc] at hc'
    cases hc'
    exact absurd rfl hchanged
  | update update =>
    rw [SecretedDeployment.written, hstored] at hstored' hc'
    dsimp only at hstored' hc'
    rw [hc, Option.getD_some] at hstored' hc'
    cases hstored'
    cases hchanges : update.changesSecrets with
    | false =>
      rw [hchanges, if_neg Bool.false_ne_true] at hc'
      cases hc'
      exact absurd rfl hchanged
    | true =>
      rw [hchanges, if_pos rfl] at hc'
      cases hc'
      rw [secretHash_changed hchanges]
      intro hsame
      obtain ⟨content, hcontent, hhash⟩ := hstamped stored _ hstored hsame
      cases hc.symm.trans hcontent
      exact hchanged (get?_of_secretContent hseparable hseparable' (hdigest hhash).symm key)
  | restore backedUp secret =>
    cases hstored'
    rw [secretHash_cleaned]
    intro hnone
    rw [hnone] at hrestore
    exact Bool.false_ne_true (hrestore rfl)

end SecretRolloutAux

open SecretRolloutAux

/-- Let a digest have no collisions, and let writes follow each other from a cluster without the deployment, of which none fails once
it has written the Secret. When the next one changes the contents of the Secret under a resource that stays, the items of both contents
can be told apart, and it is no restore over a resource without a hash, then the annotations of the pod template change. -/
theorem secret_changes_reach_pods {digest : String → String} (hdigest : Function.Injective digest) {deploymentId : String}
    {stale : Option (Dict String String)} {writes : List (SecretWrite × Bool)} {next : SecretWrite × Bool} {s s' : SecretedDeployment}
    {stored stored' : StoredDeployment} {c c' : Dict String String} {key : String}
    (hs : s = SecretedDeployment.writeAll digest deploymentId { secret := stale } writes) (hs' : s' = s.write digest deploymentId next)
    (hwhole : ∀ w ∈ next :: writes, w.2 = true)
    (hstored : s.resource = some stored) (hstored' : s'.resource = some stored') (hc : s.secret = some c) (hc' : s'.secret = some c')
    (hchanged : c.get? key ≠ c'.get? key) (hseparable : isSeparable c = true) (hseparable' : isSeparable c' = true)
    (hrestore : next.1.isRestore = true → stored.secretHash.isSome = true) :
    stored.podAnnotations.get? secretHashKey ≠ stored'.podAnnotations.get? secretHashKey := by
  obtain ⟨hnext, hwrites⟩ := List.forall_mem_cons.1 hwhole
  subst hs'
  rw [SecretedDeployment.write, if_pos hnext] at hstored' hc'
  rw [get?_podAnnotations, get?_podAnnotations]
  have hstamped : Stamped digest s := by
    rw [hs]
    exact stamped_writeAll (stamped_absent stale) hwrites
  exact secretHash_written hdigest hstamped hstored hstored' hc hc' hchanged hseparable hseparable' hrestore

namespace SecretRolloutWitness

/-- A deployment with one secret. -/
def created (key value : String) : SecretWrite :=
  .create
    { resourceNamespace := "llama", projectId := "p"
      data := { displayName := "App", secrets := (∅ : Dict String String).set key value } }

/-- An update of two secrets. -/
def pair (x y : String) : SecretWrite :=
  .update { secrets := some (((∅ : Dict String (Option String)).set "a" (some x)).set "b" (some y)) }

/-- The entry of a backup with one secret. -/
def restored (value : String) : SecretWrite :=
  .restore { metadata := { name := "app", resourceNamespace := "llama" }, spec := { projectId := "p", repoUrl := "repo" } }
    (some ((∅ : Dict String String).set "KEY" value))

/-- The annotations of the pod template and the value of a secret, after some writes. -/
def seen (digest : String → String) (writes : List (SecretWrite × Bool)) (key : String) : Option (Dict String String) × Option String :=
  let s := SecretedDeployment.writeAll digest "app" {} writes
  (s.resource.map StoredDeployment.podAnnotations, s.secret.bind (Dict.get? · key))

end SecretRolloutWitness

open SecretRolloutWitness

/-- Whatever the digest, a value that reads like two items has the hash of the two items, a Secret that is restored twice with
different values leaves the pod template without a hash both times, and an update that writes the Secret alone leaves the hash. -/
theorem secret_changes_reach_pods_false :
    (∀ digest, ∃ annotations, seen digest [(created "a" "1|b=2", true)] "a" = (annotations, some "1|b=2") ∧
      seen digest [(created "a" "1|b=2", true), (pair "1" "2", true)] "a" = (annotations, some "1")) ∧
    (∀ digest, ∃ annotations, seen digest [(restored "old", true)] "KEY" = (annotations, some "old") ∧
      seen digest [(restored "old", true), (restored "new", true)] "KEY" = (annotations, some "new")) ∧
    ∀ digest, ∃ annotations, seen digest [(created "a" "1", true)] "a" = (annotations, some "1") ∧
      seen digest [(created "a" "1", true), (pair "2" "3", false)] "a" = (annotations, some "2") :=
  ⟨fun _ => ⟨_, rfl, rfl⟩, fun _ => ⟨_, rfl, rfl⟩, fun _ => ⟨_, rfl, rfl⟩⟩

/-- An update of a secret that was there from the start reaches the pods, and so does the restore after it. -/
theorem secret_changes_reach_pods_update :
    let first := SecretedDeployment.writeAll id "app" {} [(created "a" "1", true)]
    let second := first.write id "app" (pair "2" "3", true)
    let third := second.write id "app" (restored "old", true)
    ∃ a b c : StoredDeployment, first.resource = some a ∧ second.resource = some b ∧ third.resource = some c ∧
      a.podAnnotations.get? secretHashKey ≠ b.podAnnotations.get? secretHashKey ∧
      b.podAnnotations.get? secretHashKey ≠ c.podAnnotations.get? secretHashKey := by
  refine ⟨_, _, _, rfl, rfl, rfl, ?_, ?_⟩
  · exact @secret_changes_reach_pods id Function.injective_id "app" none [(created "a" "1", true)] (pair "2" "3", true) _ _ _ _ _ _ "a"
      rfl rfl (by simp) rfl rfl rfl rfl (by decide) (by decide) (by decide) nofun
  · exact @secret_changes_reach_pods id Function.injective_id "app" none [(created "a" "1", true), (pair "2" "3", true)]
      (restored "old", true) _ _ _ _ _ _ "KEY" rfl rfl (by simp) rfl rfl rfl rfl (by decide) (by decide) (by decide) fun _ => rfl

end LlamaAgents
