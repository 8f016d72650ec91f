import LlamaAgents.Lemmas.BuildCalls
import LlamaAgents.Operator.BuildJobs

/-!
# A build is accepted for its own Job

The name of a Job holds the deployment and the build id, but it is cut to 63 characters. A success that is found under the name of a
build is one of the build only as long as the names of different builds differ.

As long as the Jobs of different builds have different names, the Job that a reconcile finds under the name of a build was created for
that build, so a success that it finds is a success of the build.
-/

namespace LlamaAgents

namespace BuildJobsAux

open Lib (Dict)
open BuildCallsAux

variable {r : Reconciler} {W W' : JobWorld} {name : String} {ld : LlamaDeployment}

/-- The name of the Job of a build. -/
def jobOf (b : String × String) : String := buildJobName b.1 b.2

/-- Jobs belong to builds that were asked for, and what is recorded as done has a Job that has succeeded. -/
structure Sound (r : Reconciler) (W : JobWorld) : Prop where
  accepts : W.AcceptsOwnJobs
  asked : ∀ name ld, W.deployments.get? name = some ld → (name, r.computeBuildId name ld.spec) ∈ W.asked
  apart : ∀ b ∈ W.asked, ∀ c ∈ W.asked, jobOf b = jobOf c → b = c
  created : ∀ job state, W.jobs.get? job = some state → ∃ b ∈ W.asked, W.createdFor.get? job = some b ∧ job = jobOf b
  done : ∀ job b, W.jobs.get? job = some .succeeded → W.createdFor.get? job = some b → b ∈ W.succeeded
  underway : ∀ name u, W.underway = some (name, u) → u.copy.status.buildStatus = .succeeded →
    (name, u.copy.status.buildId) ∈ W.succeeded

/-- A build that a reconcile takes for done has a Job of its own that has succeeded. -/
theorem Sound.succeeded_of_done (h : Sound r W) (hld : W.deployments.get? name = some ld) {buildId : String}
    (hdone : Done r name ld W.jobs buildId) : (name, buildId) ∈ W.succeeded := by
  rcases hdone with ⟨hstatus, rfl⟩ | ⟨rfl, hjob⟩
  · exact h.accepts name ld hld hstatus
  · obtain ⟨b, hb, hcreated, hname⟩ := h.created _ _ hjob
    have hsame : b = (name, r.computeBuildId name ld.spec) := h.apart _ hb _ (h.asked name ld hld) hname.symm
    exact hsame ▸ h.done _ _ hjob hcreated

/-! ## Calls -/

/-- A call that fits the builds: a status records only what is done, and a Job gets the name of the build. -/
def Fits (name buildId : String) (succeeded : List (String × String)) : ApiCall → Prop
  | .status s _ => s.buildStatus = .succeeded → (name, s.buildId) ∈ succeeded
  | .createJob job => job = buildJobName name buildId
  | _ => True

/-- A resource that is written back with a build of the same id. -/
theorem Sound.written (h : Sound r W) (hld : W.deployments.get? name = some ld) {new : LlamaDeployment}
    (hid : r.computeBuildId name new.spec = r.computeBuildId name ld.spec)
    (hdone : new.status.buildStatus = .succeeded → (name, new.status.buildId) ∈ W.succeeded) :
    Sound r { W with deployments := W.deployments.set name new } := by
  refine ⟨fun other ld' hget => ?_, fun other ld' hget => ?_, h.apart, h.created, h.done, h.underway⟩
  · dsimp only at hget
    rw [Dict.get?_set] at hget
    split at hget
    · case _ heq =>
      cases hget
      exact heq ▸ hdone
    · exact h.accepts other ld' hget
  · dsimp only at hget
    rw [Dict.get?_set] at hget
    split at hget
    · case _ heq =>
      cases hget
      subst heq
      rw [hid]
      exact h.asked name ld hld
    · exact h.asked other ld' hget

/-- A Job that is gone. -/
theorem Sound.erased (h : Sound r W) (job : String) : Sound r { W with jobs := W.jobs.erase job } := by
  have hkept : ∀ other state, (W.jobs.erase job).get? other = some state → W.jobs.get? other = some state := by
    intro other state hget
    rw [Dict.get?_erase] at hget
    split at hget
    · cases hget
    · exact hget
  exact ⟨h.accepts, h.asked, h.apart, fun other state hget => h.created other state (hkept _ _ hget),
    fun other b hget => h.done other b (hkept _ _ hget), h.underway⟩

/-- A resource that is gone. -/
theorem Sound.removed (h : Sound r W) (name : String) : Sound r { W with deployments := W.deployments.erase name } := by
  have hkept : ∀ other ld, (W.deployments.erase name).get? other = some ld → W.deployments.get? other = some ld := by
    intro other ld hget
    rw [Dict.get?_erase] at hget
    split at hget
    · cases hget
    · exact hget
  exact ⟨fun other ld hget => h.accepts other ld (hkept _ _ hget), fun other ld hget => h.asked other ld (hkept _ _ hget), h.apart,
    h.created, h.done, h.underway⟩

/-- Another reconcile is under way, with a copy that records only what is done. -/
theorem Sound.goesOn (h : Sound r W) {underway : Option (String × Underway)}
    (hu : ∀ name u, underway = some (name, u) → u.copy.status.buildStatus = .succeeded → (name, u.copy.status.buildId) ∈ W.succeeded) :
    Sound r { W with underway := underway } :=
  ⟨h.accepts, h.asked, h.apart, h.created, h.done, hu⟩

/-- The Job of the current build, as it is created. -/
theorem Sound.jobCreated (h : Sound r W) (hld : W.deployments.get? name = some ld) {job : String}
    (hjob : job = buildJobName name (r.computeBuildId name ld.spec)) :
    Sound r { W with
      jobs := W.jobs.set job .active
      createdFor := W.createdFor.set job (name, r.computeBuildId name ld.spec) } := by
  refine ⟨h.accepts, h.asked, h.apart, fun other state hget => ?_, fun other b hget hcreated => ?_, h.underway⟩
  · dsimp only at hget ⊢
    rw [Dict.get?_set] at hget ⊢
    split at hget
    · case _ heq =>
      subst heq
      rw [if_pos rfl]
      exact ⟨_, h.asked name ld hld, rfl, hjob⟩
    · case _ hne =>
      rw [if_neg hne]
      exact h.created other state hget
  · dsimp only at hget hcreated
    rw [Dict.get?_set] at hget hcreated
    split at hget
    · cases hget
    · case _ hne =>
      rw [if_neg hne] at hcreated
      exact h.done other b hget hcreated

/-- What the calls of a reconcile keep: the builds stay sound, none succeeds, and the resource asks for the same build. -/
structure Kept (r : Reconciler) (name buildId : String) (W W' : JobWorld) : Prop where
  sound : Sound r W'
  succeeded : W'.succeeded = W.succeeded
  current : ∃ ld, W'.deployments.get? name = some ld ∧ r.computeBuildId name ld.spec = buildId

theorem perform_kept {buildId : String} {c : ApiCall} (h : Kept r name buildId W W') (hc : Fits name buildId W.succeeded c) :
    Kept r name buildId W (W'.perform r name c) := by
  obtain ⟨ld, hld, hid⟩ := h.current
  unfold JobWorld.perform
  rw [hld]
  cases c with
  | migrate =>
    have hdone : ld.status.buildStatus = .succeeded → (name, ld.status.buildId) ∈ W'.succeeded := h.sound.accepts name ld hld
    exact ⟨h.sound.written hld rfl hdone, h.succeeded, ld.migrated, Dict.get?_set_self _ _ _, hid⟩
  | status s note =>
    have hdone : s.buildStatus = .succeeded → (name, s.buildId) ∈ W'.succeeded := fun hs => h.succeeded ▸ hc hs
    exact ⟨h.sound.written hld rfl hdone, h.succeeded, _, Dict.get?_set_self _ _ _, hid⟩
  | createJob job => exact ⟨h.sound.jobCreated hld (hid.symm ▸ hc), h.succeeded, ld, hld, hid⟩
  | deleteJob job => exact ⟨h.sound.erased job, h.succeeded, ld, hld, hid⟩
  | teardown => exact h
  | deployment _ _ _ => exact h
  | scaleDownReplicaSet => exact h

theorem performAll_kept {buildId : String} {calls : List ApiCall} (h : Kept r name buildId W W')
    (hcalls : ∀ c ∈ calls, Fits name buildId W.succeeded c) : Kept r name buildId W (calls.foldl (JobWorld.perform r name) W') := by
  induction calls generalizing W' with
  | nil => exact h
  | cons c calls ih =>
    obtain ⟨hc, hcalls⟩ := List.forall_mem_cons.1 hcalls
    exact ih (perform_kept h hc) hcalls

/-! ## Actions -/

/-- A resource with another spec, whose Job has a name of its own. -/
theorem Sound.put (h : Sound r W) (hdone : ld.status.buildStatus = .succeeded → (name, ld.status.buildId) ∈ W.succeeded)
    (hnames : W.namesJobApart r name ld.spec = true) : Sound r (W.put r name ld) := by
  have hapart : ∀ b ∈ W.asked, jobOf b = jobOf (name, r.computeBuildId name ld.spec) → b = (name, r.computeBuildId name ld.spec) := by
    intro b hb hsame
    have hb' := List.all_eq_true.1 hnames b hb
    rcases Bool.or_eq_true_iff.1 hb' with heq | hne
    · exact of_decide_eq_true heq
    · exact absurd hsame (of_decide_eq_true hne)
  have hgrown {b : String × String} (hb : b ∈ (W.put r name ld).asked) : b ∈ W.asked ∨ b = (name, r.computeBuildId name ld.spec) :=
    (List.mem_append.1 hb).imp_right List.mem_singleton.1
  refine ⟨fun other ld' hget => ?_, fun other ld' hget => ?_, fun b hb c hc hsame => ?_, fun job state hget => ?_, h.done, h.underway⟩
  · change (W.deployments.set name ld).get? other = some ld' at hget
    rw [Dict.get?_set] at hget
    split at hget
    · case _ heq =>
      cases hget
      exact heq ▸ hdone
    · exact h.accepts other ld' hget
  · change (W.deployments.set name ld).get? other = some ld' at hget
    rw [Dict.get?_set] at hget
    split at hget
    · case _ heq =>
      cases hget
      exact List.mem_append_right _ (List.mem_singleton.2 (by rw [heq]))
    · exact List.mem_append_left _ (h.asked other ld' hget)
  · rcases hgrown hb with hb | rfl
    · rcases hgrown hc with hc | rfl
      · exact h.apart b hb c hc hsame
      · exact hapart b hb hsame
    · rcases hgrown hc with hc | rfl
      · exact (hapart c hc hsame.symm).symm
      · rfl
  · obtain ⟨b, hb, hcreated⟩ := h.created job state hget
    exact ⟨b, List.mem_append_left _ hb, hcreated⟩

/-- A build that was asked for before needs no new name. -/
theorem Sound.namesJobApart (h : Sound r W) (hld : W.deployments.get? name = some ld) : W.namesJobApart r name ld.spec = true := by
  refine List.all_eq_true.2 fun b hb => ?_
  by_cases hsame : jobOf b = jobOf (name, r.computeBuildId name ld.spec)
  · exact Bool.or_eq_true_iff.2 (Or.inl (decide_eq_true (h.apart b hb _ (h.asked name ld hld) hsame)))
  · exact Bool.or_eq_true_iff.2 (Or.inr (decide_eq_true hsame))

/-- A Job that reports. -/
theorem Sound.reported (h : Sound r W) {job : String} {state : JobState} (hjob : W.jobs.contains job = true) :
    Sound r { W with
      jobs := W.jobs.set job state
      succeeded := if state = .succeeded then W.succeeded ++ (W.createdFor.get? job).toList else W.succeeded } := by
  have hgrown {b : String × String} (hb : b ∈ W.succeeded) :
      b ∈ (if state = .succeeded then W.succeeded ++ (W.createdFor.get? job).toList else W.succeeded) := by
    split
    · exact List.mem_append_left _ hb
    · exact hb
  refine ⟨fun name ld hget hs => hgrown (h.accepts name ld hget hs), h.asked, h.apart, fun other s hget => ?_, fun other b hget hcreated => ?_,
    fun name u hu hs => hgrown (h.underway name u hu hs)⟩
  · dsimp only at hget
    rw [Dict.get?_set] at hget
    split at hget
    · case _ heq =>
      obtain ⟨old, hold⟩ := Option.isSome_iff_exists.1 hjob
      exact heq ▸ h.created job old hold
    · exact h.created other s hget
  · dsimp only at hget hcreated ⊢
    rw [Dict.get?_set] at hget
    split at hget
    · case _ heq =>
      cases hget
      subst heq
      rw [if_pos rfl, hcreated]
      exact List.mem_append_right _ (List.mem_singleton.2 rfl)
    · exact hgrown (h.done other b hget hcreated)

/-- The calls of the first part fit the builds, and so does the copy that it goes on with. -/
theorem begin_fits (h : Sound r W) (hld : W.deployments.get? name = some ld) (gated : Bool) (obs : Observation) :
    (r.reconcile name gated obs ld W.jobs).Meets (Fits name (r.computeBuildId name ld.spec) W.succeeded)
      fun u => u.copy.status.buildStatus = .succeeded → (name, u.copy.status.buildId) ∈ W.succeeded := by
  cases hname : ld.needsMigration with
  | true =>
    unfold Reconciler.reconcile
    simp only [hname, if_true]
    exact Lib.Script.meets_call_bind trivial (Lib.Script.meets_pure (h.accepts name ld hld))
  | false =>
    obtain ⟨hcalls, hresult⟩ := reconcile_builds r name gated obs W.jobs hname
    refine ⟨fun c hc => ?_, fun u hu hs => h.succeeded_of_done hld ((hresult u hu).done hs)⟩
    have hbuild := hcalls c hc
    cases c with
    | status s note => exact fun hs => h.succeeded_of_done hld (hbuild hs)
    | createJob job => exact hbuild
    | _ => trivial

/-- The calls of the second part fit the builds. -/
theorem finish_fits (h : Sound r W) (hld : W.deployments.get? name = some ld) {u : Underway}
    (hu : u.copy.status.buildStatus = .succeeded → (name, u.copy.status.buildId) ∈ W.succeeded) (obs : Observation) (buildId : String) :
    ∀ c ∈ Cluster.finishing r obs u { object := ld }, Fits name buildId W.succeeded c := by
  intro c hc
  have hmem : c ∈ (r.resume obs u ld).calls := by
    unfold Cluster.finishing at hc
    dsimp only at hc
    split at hc
    · exact hc
    · exact (List.takeWhile_sublist _).mem hc
  have hbuild := (resume_builds r obs u ld).1 c hmem
  cases c with
  | status s note =>
    intro hs
    rcases hbuild with hfresh | ⟨-, -, hcopy⟩
    · rw [hfresh.1]
      exact h.accepts name ld hld (hfresh.2 ▸ hs)
    · rw [hcopy.1]
      exact hu (hcopy.2 ▸ hs)
  | createJob job => exact hbuild.elim
  | _ => trivial

/-- Every action that keeps the Jobs apart. -/
theorem step_sound {a : JobAction} (h : Sound r W) (hkeeps : W.keepsJobsApart r a = true) (hstep : W.step r a = some W') :
    Sound r W' := by
  cases a with
  | create name spec =>
    rw [JobWorld.step] at hstep
    split at hstep
    · cases hstep
    · cases hstep
      exact h.put nofun hkeeps
  | change name spec =>
    obtain ⟨ld, hld, rfl⟩ := Option.map_eq_some_iff.1 hstep
    exact h.put (h.accepts name ld hld) hkeeps
  | delete name =>
    obtain ⟨ld, hld, rfl⟩ := Option.map_eq_some_iff.1 hstep
    have hnames : W.namesJobApart r name ld.spec = true := h.namesJobApart hld
    exact h.put (h.accepts name ld hld) hnames
  | report job state =>
    rw [JobWorld.step] at hstep
    split at hstep
    · case _ hjob =>
      cases hstep
      exact h.reported hjob
    · cases hstep
  | reap job =>
    cases hstep
    exact h.erased job
  | begin name gated obs n =>
    rw [JobWorld.step] at hstep
    split at hstep
    · cases hstep
    · obtain ⟨ld, hld, rfl⟩ := Option.map_eq_some_iff.1 hstep
      split
      · split
        · exact h
        · exact h.removed name
      · obtain ⟨hcalls, hresult⟩ := begin_fits h hld gated obs
        have hkept : Kept r name (r.computeBuildId name ld.spec) W
            (((r.reconcile name gated obs ld W.jobs).calls.take n).foldl (JobWorld.perform r name) W) :=
          performAll_kept ⟨h, rfl, ld, hld, rfl⟩ fun c hc => hcalls c (List.mem_of_mem_take hc)
        dsimp only
        split
        · refine hkept.sound.goesOn fun other u hu hs => ?_
          obtain ⟨v, hv, heq⟩ := Option.map_eq_some_iff.1 hu
          cases heq
          exact hkept.succeeded ▸ hresult u hv hs
        · exact hkept.sound
  | finish obs n =>
    obtain ⟨⟨name, u⟩, hu, rfl⟩ := Option.map_eq_some_iff.1 hstep
    have hidle : Sound r { W with underway := none } := by
      refine h.goesOn fun _ _ hnone => ?_
      cases hnone
    dsimp only
    split
    · exact hidle
    · case _ ld hld =>
      have hkept := @performAll_kept r _ _ name _ ((Cluster.finishing r obs u { object := ld }).take n) ⟨hidle, rfl, ld, hld, rfl⟩
        fun c hc => finish_fits hidle hld (h.underway name u hu) obs _ c (List.mem_of_mem_take hc)
      exact hkept.sound

end BuildJobsAux

open Lib (Dict)

namespace BuildJobsAux

/-- Names of Jobs that are not cut stand for one deployment and one build. -/
theorem buildJobName_apart {name other id id' : String} (hname : name.length ≤ 40) (hother : other.length ≤ 40) (hid : id.length = 16)
    (hid' : id'.length = 16) (h : buildJobName name id = buildJobName other id') : name = other ∧ id = id' := by
  have hfits {n i : String} (hn : n.length ≤ 40) (hi : i.length = 16) : (n.toList ++ "-build-".toList ++ i.toList).length ≤ 63 := by
    simp only [List.length_append, String.length_toList, hi]
    change n.length + 7 + 16 ≤ 63
    omega
  rw [buildJobName, buildJobName, List.take_of_length_le (hfits hname hid), List.take_of_length_le (hfits hother hid')] at h
  obtain ⟨hfront, hids⟩ := List.append_inj' (String.ofList_injective h) (by rw [String.length_toList, String.length_toList, hid, hid'])
  exact ⟨String.toList_injective (List.append_cancel_right hfront), String.toList_injective hids⟩

/-- The name of the Job of a deployment with a long name says nothing about the build. -/
theorem buildJobName_cut {name : String} (hname : 56 ≤ name.length) (id id' : String) : buildJobName name id = buildJobName name id' := by
  have hlong : 63 ≤ (name.toList ++ "-build-".toList).length := by
    rw [List.length_append, String.length_toList]
    change 63 ≤ name.length + 7
    omega
  rw [buildJobName, buildJobName, List.take_append_of_le_length hlong, List.take_append_of_le_length hlong]

end BuildJobsAux

/-- In every run in which the Jobs of different builds have different names, a build is recorded as done only after a Job of that
deployment and that build has succeeded. With build ids of 16 characters, Jobs have different names when the names of the deployments
have at most 40. -/
theorem build_accepted_for_own_job (r : Reconciler) :
    (∀ W, Lib.Run (JobWorld.step r) (fun W a => W.keepsJobsApart r a = true) {} W → W.AcceptsOwnJobs) ∧
    ((∀ content, (r.digest content).length = 16) → ∀ name other spec spec', name.length ≤ 40 → other.length ≤ 40 →
      buildJobName name (r.computeBuildId name spec) = buildJobName other (r.computeBuildId other spec') →
        name = other ∧ r.computeBuildId name spec = r.computeBuildId other spec') := by
  refine ⟨fun W hrun => ?_, fun hdigest name other spec spec' hname hother h => ?_⟩
  · have hstart : BuildJobsAux.Sound r {} := by
      refine ⟨fun _ _ h => ?_, fun _ _ h => ?_, List.forall_mem_nil _, fun _ _ h => ?_, fun _ _ h => ?_, fun _ _ h => ?_⟩
      all_goals cases h
    have hsound : BuildJobsAux.Sound r W :=
      hrun.invariant _ hstart fun _ _ _ h hkeeps hstep => BuildJobsAux.step_sound h hkeeps hstep
    exact hsound.accepts
  · exact BuildJobsAux.buildJobName_apart hname hother (hdigest _) (hdigest _) h

namespace BorrowedJob

/-- A reconciler whose build ids are the last letters and digits of their contents, in reverse. -/
def shortIds : Reconciler where
  digest content := String.ofList ((content.toList.reverse.filter Char.isAlphanum ++ List.replicate 16 '0').take 16)

/-- A spec with a commit. -/
def pinned (sha : String) : DeploymentSpec := { repoUrl := "repo", gitSha := sha }

/-- A name of so many letters. -/
def letters (n : Nat) : String := String.ofList (List.replicate n 'a')

/-- The build of a commit. -/
def buildOf (name sha : String) : String := shortIds.computeBuildId name (pinned sha)

/-- A deployment is created for a commit, and its Job succeeds. -/
def built (name sha : String) : List JobAction :=
  [.create name (pinned sha), .begin name false {} 9, .report (buildJobName name (buildOf name sha)) .succeeded]

/-- A deployment that is named like the Job of another. -/
def namesake : String := buildJobName (letters 40) (buildOf (letters 40) "1")

/-- Whether a build is recorded as done for which no Job has succeeded. -/
def borrows (name sha : String) (W : JobWorld) : Bool :=
  !W.succeeded.contains (name, buildOf name sha) && (W.deployments.get? name).any fun ld : LlamaDeployment =>
    decide (ld.status.buildId = buildOf name sha ∧ ld.status.buildStatus = .succeeded)

theorem borrows_sound {name sha : String} {W : JobWorld} (h : borrows name sha W = true) : ¬ W.AcceptsOwnJobs := by
  intro haccepts
  obtain ⟨hmissing, hdone⟩ := Bool.and_eq_true_iff.1 h
  obtain ⟨ld, hld, hdone⟩ := (Option.any_eq_true _ _).1 hdone
  obtain ⟨hid, hstatus⟩ := of_decide_eq_true hdone
  have hmem := haccepts name ld hld hstatus
  rw [hid] at hmem
  rw [List.contains_iff_mem.2 hmem] at hmissing
  cases hmissing

end BorrowedJob

open BorrowedJob in
/-- The Jobs of all builds of a deployment with a name of at least 56 characters have one name, so the build of its second commit is
accepted for the Job of the first. And a deployment may have the name of the Job of another one, and is then accepted for that Job.
All names are valid. -/
theorem build_accepted_for_own_job_false :
    (∀ name id id' : String, 56 ≤ name.length → buildJobName name id = buildJobName name id') ∧
    isValidDNS1035Label (letters 57) = true ∧ isValidDNS1035Label (letters 40) = true ∧ isValidDNS1035Label namesake = true ∧
    (∃ W, Lib.Run (JobWorld.step shortIds) (fun _ _ => True) {} W ∧ borrows (letters 57) "2" W = true ∧ ¬ W.AcceptsOwnJobs) ∧
    ∃ W, Lib.Run (JobWorld.step shortIds) (fun _ _ => True) {} W ∧ borrows namesake "1" W = true ∧ ¬ W.AcceptsOwnJobs := by
  refine ⟨fun name id id' h => BuildJobsAux.buildJobName_cut h id id', by decide +kernel, by decide +kernel, by decide +kernel, ?_, ?_⟩
  · obtain ⟨W, hrun, hborrows⟩ := Lib.Run.exists_of_actions (JobWorld.step shortIds) {}
      (built (letters 57) "1" ++ [.change (letters 57) (pinned "2"), .begin (letters 57) false {} 9]) (borrows (letters 57) "2" ·)
      (by decide +kernel)
    exact ⟨W, hrun, hborrows, borrows_sound hborrows⟩
  · obtain ⟨W, hrun, hborrows⟩ := Lib.Run.exists_of_actions (JobWorld.step shortIds) {}
      (built (letters 40) "1" ++ [.create namesake (pinned "1"), .begin namesake false {} 9]) (borrows namesake "1" ·)
      (by decide +kernel)
    exact ⟨W, hrun, hborrows, borrows_sound hborrows⟩

open BorrowedJob in
/-- A deployment with a short name is accepted for the Job of its second commit, after the one of the first. -/
theorem build_accepted_for_own_job_rebuilt :
    ∃ W : JobWorld, (W.deployments.get? "app").any (fun ld : LlamaDeployment => ld.status.buildId = buildOf "app" "2") = true ∧
      ("app", buildOf "app" "2") ∈ W.succeeded ∧ W.AcceptsOwnJobs := by
  obtain ⟨W, hrun, hid, hmem⟩ := Lib.Run.exists_of_exec (JobWorld.step shortIds) (fun W a => W.keepsJobsApart shortIds a) {}
    (built "app" "1" ++ [.begin "app" false {} 9, .finish {} 9, .change "app" (pinned "2"), .begin "app" false {} 9,
      .report (buildJobName "app" (buildOf "app" "2")) .succeeded, .begin "app" false {} 9])
    (fun W => (W.deployments.get? "app").any (fun ld : LlamaDeployment => ld.status.buildId = buildOf "app" "2") ∧
      ("app", buildOf "app" "2") ∈ W.succeeded) (by decide +kernel)
  exact ⟨W, hid, hmem, (build_accepted_for_own_job shortIds).1 W hrun⟩

end LlamaAgents
