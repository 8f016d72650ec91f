import Mathlib.Data.List.Nodup
import Mathlib.Data.List.Perm.Basic
import LlamaAgents.Operator.ReplicaSets

/-!
# Remediation spares the serving ReplicaSet

What the loop over the ReplicaSets keeps, as an invariant over the part of the list that it has seen; and from it that the choice is
safe for every list, and for revisions as Kubernetes writes them independent of the order.
-/

namespace LlamaAgents

namespace ReplicaSetsAux

open ReplicaSetScan

variable {uid : String} {s : ReplicaSetScan} {seen : List ReplicaSet} {rs : ReplicaSet}

/-- What the loop knows of the ReplicaSets that it has seen: the newest is one of those owned, and if another one is said to be
healthy, there is one. -/
structure Tracks (uid : String) (seen : List ReplicaSet) (s : ReplicaSetScan) : Prop where
  newest : ∀ rs, s.newestRS = some rs → rs ∈ seen ∧ rs.isOwnedBy uid = true
  other : s.hasOtherHealthyRS = true →
    ∃ x ∈ seen, x.isOwnedBy uid = true ∧ x.isHealthy = true ∧ s.newestRS ≠ some x

theorem Tracks.skip (h : Tracks uid seen s) : Tracks uid (seen ++ [rs]) s := by
  refine ⟨fun x hx => ?_, fun hother => ?_⟩
  · obtain ⟨hmem, howned⟩ := h.newest x hx
    exact ⟨List.mem_append_left _ hmem, howned⟩
  · obtain ⟨x, hx, hrest⟩ := h.other hother
    exact ⟨x, List.mem_append_left _ hx, hrest⟩

theorem Tracks.supersede (h : Tracks uid seen s) (hnew : rs ∉ seen) (howned : rs.isOwnedBy uid = true) (rev : Int) :
    Tracks uid (seen ++ [rs]) { s.supersede rs with maxRevision := rev } := by
  refine ⟨fun x hx => ?_, fun hother => ?_⟩
  · cases hx
    exact ⟨List.mem_append_right _ List.mem_cons_self, howned⟩
  · -- Whoever was healthy before was seen before, and is not the one that comes.
    have hhealthy : ∃ x ∈ seen, x.isOwnedBy uid = true ∧ x.isHealthy = true := by
      rcases (Bool.or_eq_true _ _).mp hother with hbefore | hbefore
      · obtain ⟨x, hx, hxowned, hxhealthy, -⟩ := h.other hbefore
        exact ⟨x, hx, hxowned, hxhealthy⟩
      · cases hx : s.newestRS with
        | none =>
          rw [hx] at hbefore
          cases hbefore
        | some x =>
          rw [hx] at hbefore
          obtain ⟨hmem, hxowned⟩ := h.newest x hx
          exact ⟨x, hmem, hxowned, hbefore⟩
    obtain ⟨x, hx, hxowned, hxhealthy⟩ := hhealthy
    refine ⟨x, List.mem_append_left _ hx, hxowned, hxhealthy, fun heq => ?_⟩
    cases heq
    exact hnew hx

theorem Tracks.pass (h : Tracks uid seen s) (hnew : rs ∉ seen) (howned : rs.isOwnedBy uid = true) :
    Tracks uid (seen ++ [rs]) (s.pass rs) := by
  refine ⟨h.skip.newest, fun hother => ?_⟩
  rcases (Bool.or_eq_true _ _).mp hother with hbefore | hhealthy
  · exact h.skip.other hbefore
  · refine ⟨rs, List.mem_append_right _ List.mem_cons_self, howned, hhealthy, fun heq => ?_⟩
    exact hnew (h.newest rs heq).1

/-- One round keeps what the loop knows. -/
theorem Tracks.round (h : Tracks uid seen s) (hnew : rs ∉ seen) : Tracks uid (seen ++ [rs]) (s.round uid rs) := by
  rw [ReplicaSetScan.round]
  cases howned : rs.isOwnedBy uid with
  | false => exact h.skip
  | true =>
    rw [if_neg (by nofun)]
    split
    · split
      · exact h.supersede hnew howned _
      · exact h.pass hnew howned
    · split
      · exact h.supersede hnew howned _
      · exact h.pass hnew howned

/-- So does the rest of the loop. -/
theorem foldl_tracks {items : List ReplicaSet} (hnd : (seen ++ items).Nodup) (h : Tracks uid seen s) :
    Tracks uid (seen ++ items) (items.foldl (ReplicaSetScan.round uid) s) := by
  induction items generalizing seen s with
  | nil =>
    rw [List.append_nil]
    exact h
  | cons rs items ih =>
    have hnew : rs ∉ seen := fun hmem => (List.nodup_append.1 hnd).2.2 rs hmem rs List.mem_cons_self rfl
    rw [List.append_cons] at hnd ⊢
    exact ih hnd (h.round hnew)

theorem scan_tracks {items : List ReplicaSet} (hnd : items.Nodup) : Tracks uid items (scanReplicaSets uid items) :=
  have hnone : Tracks uid [] {} := ⟨nofun, nofun⟩
  have hall : ([] ++ items).Nodup := hnd
  foldl_tracks hall hnone

/-- With a positive revision on each of the owned ReplicaSets, the loop keeps one with the highest. -/
structure Highest (uid : String) (seen : List ReplicaSet) (s : ReplicaSetScan) : Prop where
  newest : ∀ rs, s.newestRS = some rs → rs ∈ seen ∧ rs.isOwnedBy uid = true ∧ rs.revisionNumber = some s.maxRevision
  none : s.newestRS = none → s.maxRevision = -1
  bound : ∀ x ∈ seen, x.isOwnedBy uid = true → ∃ rev, x.revisionNumber = some rev ∧ rev ≤ s.maxRevision

theorem Highest.pass (h : Highest uid seen s)
    (hbound : rs.isOwnedBy uid = true → ∃ rev, rs.revisionNumber = some rev ∧ rev ≤ s.maxRevision) :
    Highest uid (seen ++ [rs]) s := by
  refine ⟨fun x hx => ?_, h.none, fun x hx hxowned => ?_⟩
  · obtain ⟨hmem, hrest⟩ := h.newest x hx
    exact ⟨List.mem_append_left _ hmem, hrest⟩
  · rcases List.mem_append.1 hx with hx | hx
    · exact h.bound x hx hxowned
    · rw [List.mem_singleton.1 hx] at hxowned ⊢
      exact hbound hxowned

theorem Highest.round (h : Highest uid seen s) (hrev : rs.isOwnedBy uid = true → ∃ rev, rs.revisionNumber = some rev) :
    Highest uid (seen ++ [rs]) (s.round uid rs) := by
  rw [ReplicaSetScan.round]
  cases howned : rs.isOwnedBy uid with
  | false => exact h.pass fun hother => absurd (howned.symm.trans hother) Bool.false_ne_true
  | true =>
    obtain ⟨rev, hrev⟩ := hrev howned
    rw [if_neg (by nofun), hrev]
    dsimp only
    split
    · case isTrue hlt =>
      refine ⟨fun x hx => ?_, nofun, fun x hx hxowned => ?_⟩
      · cases hx
        exact ⟨List.mem_append_right _ List.mem_cons_self, howned, hrev⟩
      · rcases List.mem_append.1 hx with hx | hx
        · obtain ⟨rev', hrev', hle⟩ := h.bound x hx hxowned
          exact ⟨rev', hrev', Int.le_trans hle (Int.le_of_lt hlt)⟩
        · rw [List.mem_singleton.1 hx]
          exact ⟨rev, hrev, Int.le_refl _⟩
    · case isFalse hle =>
      have hpass : Highest uid (seen ++ [rs]) s := h.pass fun _ => ⟨rev, hrev, Int.not_lt.1 hle⟩
      exact ⟨hpass.newest, hpass.none, hpass.bound⟩

theorem foldl_highest {items : List ReplicaSet} (h : Highest uid seen s)
    (hrev : ∀ rs ∈ items, rs.isOwnedBy uid = true → ∃ rev, rs.revisionNumber = some rev) :
    Highest uid (seen ++ items) (items.foldl (ReplicaSetScan.round uid) s) := by
  induction items generalizing seen s with
  | nil =>
    rw [List.append_nil]
    exact h
  | cons rs items ih =>
    rw [List.append_cons]
    exact ih (h.round (hrev rs List.mem_cons_self)) fun x hx => hrev x (List.mem_cons_of_mem _ hx)

/-- The one that is kept has a higher revision than every other one that is owned. -/
theorem newest_iff {items : List ReplicaSet}
    (hrev : ∀ x ∈ items, x.isOwnedBy uid = true → ∃ rev, x.revisionNumber = some rev ∧ 0 < rev)
    (hdistinct : ∀ x ∈ items, ∀ y ∈ items, x.isOwnedBy uid = true → y.isOwnedBy uid = true →
      x.revisionNumber = y.revisionNumber → x = y) :
    (scanReplicaSets uid items).newestRS = some rs ↔ rs ∈ items ∧ rs.isOwnedBy uid = true ∧
      ∀ x ∈ items, x.isOwnedBy uid = true → x ≠ rs → x.revisionNumber.getD 0 < rs.revisionNumber.getD 0 := by
  have h : Highest uid items (scanReplicaSets uid items) := by
    have hnone : Highest uid [] {} := ⟨nofun, fun _ => rfl, List.forall_mem_nil _⟩
    refine foldl_highest hnone fun x hx howned => ?_
    obtain ⟨rev, hrev, -⟩ := hrev x hx howned
    exact ⟨rev, hrev⟩
  constructor
  · intro hnewest
    obtain ⟨hmem, howned, hmax⟩ := h.newest rs hnewest
    refine ⟨hmem, howned, fun x hx hxowned hne => ?_⟩
    obtain ⟨rev, hxrev, hle⟩ := h.bound x hx hxowned
    rw [hxrev, hmax, Option.getD_some, Option.getD_some]
    refine Int.lt_iff_le_and_ne.2 ⟨hle, fun heq => hne ?_⟩
    exact hdistinct x hx rs hmem hxowned howned (by rw [hxrev, hmax, heq])
  · rintro ⟨hmem, howned, hhighest⟩
    cases hnewest : (scanReplicaSets uid items).newestRS with
    | none =>
      obtain ⟨rev, hrsrev, hpos⟩ := hrev rs hmem howned
      obtain ⟨rev', hrsrev', hle⟩ := h.bound rs hmem howned
      rw [hrsrev, Option.some.injEq] at hrsrev'
      rw [h.none hnewest] at hle
      omega
    | some x =>
      obtain ⟨hx, hxowned, hxrev⟩ := h.newest x hnewest
      by_cases heq : x = rs
      · rw [heq]
      · have hlt := hhighest x hx hxowned heq
        obtain ⟨rev, hrsrev, hle⟩ := h.bound rs hmem howned
        rw [hxrev, hrsrev, Option.getD_some, Option.getD_some] at hlt
        omega

end ReplicaSetsAux

open ReplicaSetsAux

/-- Remediation never takes down the serving ReplicaSet. Whatever Deployment is found and whatever ReplicaSets are listed, in any
order: (1) at most one is scaled down, and it is one that the Deployment owns; (2) if it has available replicas, so has another one
that the Deployment owns; (3) and if the revisions of the owned ReplicaSets are distinct positive integers, the one that is considered
is the one with the highest revision, in every order of the list. -/
theorem remediation_spares_serving (deployment : Option PausableDeployment) (listed : Option ReplicaSetList) :
    ((scaleDownFailingReplicaSet deployment listed).countP fun c => decide (c ≠ .pause)) ≤ 1 ∧
    (∀ rs, .scaleDown rs ∈ scaleDownFailingReplicaSet deployment listed →
      ∃ d L, deployment = some d ∧ listed = some L ∧ rs ∈ L.items ∧ rs.isOwnedBy d.uid = true ∧
        (rs.isHealthy = true → ∃ x ∈ L.items, x ≠ rs ∧ x.isOwnedBy d.uid = true ∧ x.isHealthy = true)) ∧
    ∀ uid (L : ReplicaSetList), (∀ x ∈ L.items, x.isOwnedBy uid = true → ∃ rev, x.revisionNumber = some rev ∧ 0 < rev) →
      (∀ x ∈ L.items, ∀ y ∈ L.items, x.isOwnedBy uid = true → y.isOwnedBy uid = true → x.revisionNumber = y.revisionNumber → x = y) →
      ∀ items, items.Perm L.items → ∀ rs, (scanReplicaSets uid items).newestRS = some rs ↔
        rs ∈ L.items ∧ rs.isOwnedBy uid = true ∧
          ∀ x ∈ L.items, x.isOwnedBy uid = true → x ≠ rs → x.revisionNumber.getD 0 < rs.revisionNumber.getD 0 := by
  refine ⟨?_, fun rs hrs => ?_, fun uid L hrev hdistinct items hperm rs => ?_⟩
  · cases deployment with
    | none => exact Nat.zero_le 1
    | some d =>
      rw [scaleDownFailingReplicaSet, List.countP_append]
      have hpause : ∀ b : Bool, (if b then [] else [RemediationCall.pause]).countP (fun c => decide (c ≠ .pause)) = 0 := by decide
      rw [hpause, Nat.zero_add]
      refine Nat.le_trans List.countP_le_length ?_
      rw [List.length_map]
      exact Option.length_toList_le
  · cases deployment with
    | none => cases hrs
    | some d =>
      rcases List.mem_append.1 hrs with hrs | hrs
      · split at hrs
        · cases hrs
        · cases List.mem_singleton.1 hrs
      · obtain ⟨x, hx, heq⟩ := List.mem_map.1 hrs
        cases heq
        obtain ⟨L, rfl, hscaled⟩ := Option.bind_eq_some_iff.1 (Option.mem_toList.1 hx)
        obtain ⟨hnewest, hallowed⟩ := Option.filter_eq_some_iff.1 hscaled
        have h : Tracks d.uid L.items _ := scan_tracks (List.Nodup.of_map _ L.distinct)
        obtain ⟨hmem, howned⟩ := h.newest rs hnewest
        refine ⟨d, L, rfl, rfl, hmem, howned, fun hhealthy => ?_⟩
        have hother : (scanReplicaSets d.uid L.items).hasOtherHealthyRS = true := by
          rw [hhealthy, Bool.true_and, Bool.not_not, Bool.and_eq_true] at hallowed
          exact hallowed.1
        obtain ⟨x, hx, hxowned, hxhealthy, hne⟩ := h.other hother
        exact ⟨x, hx, fun heq => hne (heq ▸ hnewest), hxowned, hxhealthy⟩
  · have hmem : ∀ x, x ∈ items ↔ x ∈ L.items := fun x => hperm.mem_iff
    simp only [newest_iff (fun x hx => hrev x ((hmem x).1 hx)) (fun x hx y hy => hdistinct x ((hmem x).1 hx) y ((hmem y).1 hy)), hmem]

namespace FailingRollout

/-- The ReplicaSet that serves. -/
def serving : ReplicaSet := ⟨"app-1", ["uid"], some "1", 100, some 1, 1⟩

/-- The ReplicaSet of the failed rollout, whose pod is up now and then. -/
def failing : ReplicaSet := ⟨"app-2", ["uid"], some "2", 200, some 1, 1⟩

/-- A ReplicaSet of another Deployment. -/
def foreign : ReplicaSet := ⟨"other-9", ["elsewhere"], some "9", 300, some 1, 0⟩

-- Alone it stays up.
example : scaleDownFailingReplicaSet (some ⟨"uid", false⟩) (some ⟨[failing, foreign], by decide⟩) = [.pause] := by decide +kernel

end FailingRollout

open FailingRollout in
/-- The ReplicaSet of the failed rollout goes down, although another Deployment has a higher revision, and one that serves is left. -/
theorem remediation_spares_serving_failing :
    scaleDownFailingReplicaSet (some ⟨"uid", false⟩) (some ⟨[failing, foreign, serving], by decide⟩) = [.pause, .scaleDown failing] ∧
      ∃ x ∈ [failing, foreign, serving], x ≠ failing ∧ x.isOwnedBy "uid" = true ∧ x.isHealthy = true := by
  have hcalls : scaleDownFailingReplicaSet (some ⟨"uid", false⟩) (some ⟨[failing, foreign, serving], by decide⟩) =
      [.pause, .scaleDown failing] := by decide +kernel
  refine ⟨hcalls, ?_⟩
  obtain ⟨-, hserving, -⟩ := remediation_spares_serving (some ⟨"uid", false⟩) (some ⟨[failing, foreign, serving], by decide⟩)
  obtain ⟨d, L, hd, hL, -, -, hother⟩ := hserving failing (by rw [hcalls]; exact List.mem_cons_of_mem _ List.mem_cons_self)
  cases hd
  cases hL
  exact hother (by decide)

end LlamaAgents
