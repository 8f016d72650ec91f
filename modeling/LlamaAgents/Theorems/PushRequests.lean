import LlamaAgents.ControlPlane.PushRequests
import LlamaAgents.Lemmas.SourceCoherence

/-!
# Acknowledged pushes survive

A push that is uploaded over what it has downloaded stays until a later one changes the same ref. Nothing in the storage sees to that:
the upload of a request replaces the repository as a whole, with everything that others have uploaded in between.

When every upload is one over what was downloaded, the content that is stored has every ref as the last push has left it that has
changed it, and all commits there were. The uploads are numbered, so that a later one is known.
-/

namespace LlamaAgents

namespace PushRequestsAux

variable {W W' : PushWorld} {i : Nat} {p p' : PushProgress}

/-- A request has made an upload. -/
def Published (W : PushWorld) (i number : Nat) (push : ServedPush) : Prop :=
  ∃ p, W.requests[i]? = some p ∧ p.published? = some (number, push)

/-- The copy that a request has downloaded, with the number of uploads before. -/
def copy? : PushProgress → Option (Nat × Repository)
  | .downloaded version before => some (version, before)
  | .served version push => some (version, push.before)
  | _ => none

/-- A push takes no commit away, and what it tells the callback is a commit. -/
structure IsGrowing (push : ServedPush) : Prop where
  grows : push.before.commits ⊆ push.after.commits
  brings : ∀ e, push.changedRef = some e → e.2 ∈ push.after.commits

/-- What is known of a copy: it is the content while there is no other upload. -/
def IsCurrent (W : PushWorld) (version : Nat) (before : Repository) : Prop :=
  version ≤ W.uploads ∧ (version = W.uploads → before = W.content)

/-- What is known of an upload: its refs are stored unless a later push has changed them, and so is what the callback is told. -/
structure IsStored (W : PushWorld) (number : Nat) (push : ServedPush) : Prop where
  numbered : number < W.uploads
  kept : ∀ ref, push.changes ref = true → W.content.refs.get? ref = push.after.refs.get? ref ∨
    ∃ j laterNumber later, Published W j laterNumber later ∧ number < laterNumber ∧ later.changes ref = true
  told : ∀ e, push.changedRef = some e → e.2 ∈ W.content.commits

/-- The invariant of the requests and the deployment. -/
structure Sound (W : PushWorld) : Prop where
  current : ∀ (i : Nat) p version before, W.requests[i]? = some p → copy? p = some (version, before) → IsCurrent W version before
  growing : ∀ (i : Nat) version push, W.requests[i]? = some (.served version push) → IsGrowing push
  stored : ∀ i number push, Published W i number push → IsStored W number push
  pinned : W.IsPinned

/-- The invariant holds when no request has come in. -/
theorem sound_start {stored : Option Repository} {spec : LlamaDeploymentSpec} : Sound { stored := stored, spec := spec } :=
  ⟨nofun, nofun, fun _ _ _ ⟨_, hq, _⟩ => (by cases hq), nofun⟩

theorem Sound.isKept (h : Sound W) : W.IsKept := by
  intro i number push ref hi hchanges
  refine ((h.stored i number push ⟨_, hi, rfl⟩).kept ref hchanges).imp id ?_
  rintro ⟨j, laterNumber, later, ⟨p, hp, hpublished⟩, hlater⟩
  exact ⟨j, p, laterNumber, later, hp, hpublished, hlater⟩

/-! ## Requests that come further -/

/-- After a request has come further, every request is as it was, or it is this one. -/
theorem moved_cases {j : Nat} {q : PushProgress} (h : (W.moved i p').requests[j]? = some q) :
    (j = i ∧ q = p') ∨ W.requests[j]? = some q := by
  rw [PushWorld.moved, List.getElem?_set] at h
  split at h
  · case _ hij =>
    split at h
    · cases h
      exact Or.inl ⟨hij.symm, rfl⟩
    · cases h
  · exact Or.inr h

/-- Uploads stay when the request that comes further had none, or keeps it. -/
theorem published_moved {j number : Nat} {push : ServedPush} (hi : W.requests[i]? = some p)
    (hsame : p.published? = none ∨ p'.published? = p.published?) (h : Published W j number push) :
    Published (W.moved i p') j number push := by
  obtain ⟨q, hq, hpublished⟩ := h
  by_cases hij : i = j
  · subst hij
    cases hi.symm.trans hq
    rcases hsame with hnone | hsame
    · cases hnone.symm.trans hpublished
    · refine ⟨p', ?_, hsame.trans hpublished⟩
      rw [PushWorld.moved, List.getElem?_set, if_pos rfl, if_pos (List.getElem?_eq_some_iff.1 hq).1]
  · refine ⟨q, ?_, hpublished⟩
    rw [PushWorld.moved, List.getElem?_set, if_neg hij]
    exact hq

/-- A request that keeps its upload brings no new one. -/
theorem published_of_moved {j number : Nat} {push : ServedPush} (hi : W.requests[i]? = some p)
    (hsame : p'.published? = p.published?) (h : Published (W.moved i p') j number push) :
    Published W j number push := by
  obtain ⟨q, hq, hpublished⟩ := h
  rcases moved_cases hq with ⟨rfl, rfl⟩ | hq
  · exact ⟨p, hi, hsame.symm.trans hpublished⟩
  · exact ⟨q, hq, hpublished⟩

/-- The invariant stays when a request comes further without an upload, if that holds which is to be known of it, and the commit of the
deployment is stored. -/
theorem Sound.moved (h : Sound W) (hi : W.requests[i]? = some p)
    (hsame : p'.published? = p.published?)
    (hcurrent : ∀ version before, copy? p' = some (version, before) → IsCurrent W version before)
    (hgrowing : ∀ version push, p' = .served version push → IsGrowing push) : Sound (W.moved i p') where
  current j q version before hq hcopy := by
    rcases moved_cases hq with ⟨rfl, rfl⟩ | hq
    · exact hcurrent version before hcopy
    · exact h.current j q version before hq hcopy
  growing j version push hq := by
    rcases moved_cases hq with ⟨-, hp⟩ | hq
    · exact hgrowing version push hp.symm
    · exact h.growing j version push hq
  stored j number push hpublished := by
    obtain ⟨hnumbered, hkept, htold⟩ := h.stored j number push (published_of_moved hi hsame hpublished)
    refine ⟨hnumbered, fun ref hchanges => (hkept ref hchanges).imp id ?_, htold⟩
    rintro ⟨k, laterNumber, later, hlater, hrest⟩
    exact ⟨k, laterNumber, later, published_moved hi (Or.inr hsame) hlater, hrest⟩
  pinned := h.pinned

/-- The invariant does not depend on the deployment but for its commit. -/
theorem Sound.setSpec (h : Sound W) {spec : LlamaDeploymentSpec} {pushed : Bool}
    (hpinned : pushed = true → ∃ sha, spec.gitSha = some sha ∧ sha ∈ W.content.commits) :
    Sound { W with spec := spec, pushed := pushed } :=
  ⟨h.current, h.growing, fun i number push hpublished =>
    let hs := h.stored i number push hpublished
    ⟨hs.numbered, hs.kept, hs.told⟩, hpinned⟩

/-- The invariant stays when a copy of the content is uploaded. -/
theorem Sound.uploaded (h : Sound W) {version : Nat} {push : ServedPush} (hi : W.requests[i]? = some (.served version push))
    (hversion : version = W.uploads) :
    Sound { W.moved i (.uploaded W.uploads push) with stored := some push.after, uploads := W.uploads + 1 } := by
  have hbefore : push.before = W.content := (h.current i _ version push.before hi rfl).2 hversion
  have hgrowing := h.growing i version push hi
  have hgrows : W.content.commits ⊆ push.after.commits := hbefore ▸ hgrowing.grows
  have hlength : i < W.requests.length := (List.getElem?_eq_some_iff.1 hi).1
  refine ⟨fun j q v before hq hcopy => ?_, fun j v push' hq => ?_, fun j number push' hpublished => ?_, fun hpushed => ?_⟩
  · rcases moved_cases hq with ⟨rfl, rfl⟩ | hq
    · cases hcopy
    · have hle := (h.current j q v before hq hcopy).1
      exact ⟨Nat.le_succ_of_le hle, fun heq => absurd (heq ▸ hle) (Nat.not_succ_le_self _)⟩
  · rcases moved_cases hq with ⟨-, hq⟩ | hq
    · cases hq
    · exact h.growing j v push' hq
  · obtain ⟨q, hq, hpublished⟩ := hpublished
    rcases moved_cases hq with ⟨rfl, rfl⟩ | hq
    · cases hpublished
      exact ⟨Nat.lt_succ_self _, fun _ _ => Or.inl rfl, hgrowing.brings⟩
    · obtain ⟨hnumbered, hkept, htold⟩ := h.stored j number push' ⟨q, hq, hpublished⟩
      refine ⟨Nat.lt_succ_of_lt hnumbered, fun ref hchanges => ?_, fun e he => hgrows (htold e he)⟩
      by_cases hnew : push.changes ref = true
      · -- The new upload is later than all others.
        refine Or.inr ⟨i, W.uploads, push, ⟨.uploaded W.uploads push, ?_, rfl⟩, hnumbered, hnew⟩
        exact (List.getElem?_set_self hlength)
      · -- A ref that the upload has not changed is as it was stored before.
        have hunchanged : push.after.refs.get? ref = W.content.refs.get? ref := by
          rw [ServedPush.changes, decide_eq_true_eq, not_not] at hnew
          rw [← hnew, hbefore]
        refine (hkept ref hchanges).imp hunchanged.trans ?_
        rintro ⟨k, laterNumber, later, hlater, hrest⟩
        exact ⟨k, laterNumber, later, published_moved hi (Or.inl rfl) hlater, hrest⟩
  · obtain ⟨sha, hsha, hmem⟩ := h.pinned hpushed
    exact ⟨sha, hsha, hgrows hmem⟩

/-- A request that comes in changes nothing. -/
theorem Sound.arrived (h : Sound W) : Sound { W with requests := W.requests ++ [.waiting] } := by
  have hold : ∀ {j : Nat} {q : PushProgress}, (W.requests ++ [.waiting])[j]? = some q → W.requests[j]? = some q ∨ q = .waiting := by
    intro j q hq
    rw [List.getElem?_append] at hq
    split at hq
    · exact Or.inl hq
    · exact Or.inr (List.mem_singleton.1 (List.mem_of_getElem? hq))
  have hnew : ∀ {j number : Nat} {push : ServedPush}, Published W j number push →
      Published { W with requests := W.requests ++ [.waiting] } j number push := by
    rintro j number push ⟨q, hq, hpublished⟩
    exact ⟨q, (List.getElem?_append_left (List.getElem?_eq_some_iff.1 hq).1).trans hq, hpublished⟩
  refine ⟨fun j q version before hq hcopy => ?_, fun j version push hq => ?_, fun j number push hpublished => ?_, h.pinned⟩
  · rcases hold hq with hq | rfl
    · exact h.current j q version before hq hcopy
    · cases hcopy
  · rcases hold hq with hq | hq
    · exact h.growing j version push hq
    · cases hq
  · obtain ⟨q, hq, hpublished⟩ := hpublished
    rcases hold hq with hq | rfl
    · obtain ⟨hnumbered, hkept, htold⟩ := h.stored j number push ⟨q, hq, hpublished⟩
      refine ⟨hnumbered, fun ref hchanges => (hkept ref hchanges).imp id ?_, htold⟩
      rintro ⟨k, laterNumber, later, hlater, hrest⟩
      exact ⟨k, laterNumber, later, hnew hlater, hrest⟩
    · cases hpublished

/-! ## The steps -/

/-- A request that keeps its upload and has no copy any more. -/
theorem Sound.forgets (h : Sound W) (hi : W.requests[i]? = some p) (hsame : p'.published? = p.published?) (hcopy : copy? p' = none) :
    Sound (W.moved i p') := by
  refine h.moved hi hsame (fun _ _ hp => ?_) fun _ _ hp => ?_
  · cases hcopy.symm.trans hp
  · rw [hp] at hcopy
    cases hcopy

/-- A push that is served as the condition wants it is growing. -/
theorem isGrowing_of_keeps {before after : Repository}
    (h : ((before.commits.all fun commit => after.commits.contains commit) &&
      (SourceWorld.changedRef before after).all fun e => after.commits.contains e.2) = true) : IsGrowing ⟨before, after⟩ := by
  obtain ⟨hgrows, hbrings⟩ := Bool.and_eq_true_iff.1 h
  refine ⟨SourceCoherenceAux.subset_of_all hgrows, fun e he => ?_⟩
  rw [show SourceWorld.changedRef before after = some e from he, Option.all_some] at hbrings
  exact List.contains_iff_mem.1 hbrings

/-- The update of the callback sets a commit that is stored. -/
theorem Sound.patched (h : Sound W) {number : Nat} {push : ServedPush} {changed : String × String}
    (hi : W.requests[i]? = some (.notifying number push)) (hchanged : push.changedRef = some changed) :
    Sound { W.moved i (.notified number push) with
      spec := applyDeploymentUpdate (SourceWorld.pushUpdate changed) W.spec
      pushed := true } := by
  have hmem : changed.2 ∈ W.content.commits := (h.stored i number push ⟨_, hi, rfl⟩).told changed hchanged
  have hmoved : Sound (W.moved i (.notified number push)) := h.forgets hi rfl rfl
  refine hmoved.setSpec fun _ => ⟨changed.2, ?_, hmem⟩
  exact if_neg (SourceCoherenceAux.ne_empty_of_mem hmem)

/-- Every step that keeps pushes keeps the invariant. -/
theorem step_sound {a : PushAction} (hkeeps : W.keepsPushes a = true) (hstep : W.step a = some W') (h : Sound W) : Sound W' := by
  cases a with
  | arrive =>
    rw [PushWorld.step] at hstep
    split at hstep
    · cases hstep
      exact h.arrived
    · cases hstep
  | edit spec =>
    cases hstep
    refine h.setSpec fun hpushed => ?_
    obtain ⟨hset, hsame⟩ := Bool.and_eq_true_iff.1 hpushed
    exact of_decide_eq_true hsame ▸ h.pinned hset
  | download i =>
    obtain ⟨p, hi, hstep⟩ := Option.bind_eq_some_iff.1 hstep
    cases p with
    | waiting =>
      cases hstep
      refine h.moved hi rfl (fun version before hcopy => ?_) nofun
      cases hcopy
      exact ⟨Nat.le_refl _, fun _ => rfl⟩
    | _ => cases hstep
  | serve i after =>
    obtain ⟨p, hi, hstep⟩ := Option.bind_eq_some_iff.1 hstep
    cases p with
    | downloaded version before =>
      cases hstep
      rw [PushWorld.keepsPushes, hi] at hkeeps
      refine h.moved hi rfl (fun _ _ hcopy => ?_) fun _ _ hp => ?_
      · cases hcopy
        exact h.current i _ _ _ hi rfl
      · cases hp
        exact isGrowing_of_keeps hkeeps
    | _ => cases hstep
  | upload i =>
    obtain ⟨p, hi, hstep⟩ := Option.bind_eq_some_iff.1 hstep
    cases p with
    | served version push =>
      rw [PushWorld.keepsPushes, hi] at hkeeps
      rw [PushWorld.stepRequest] at hstep
      split at hstep
      · cases hstep
        exact h.uploaded hi (of_decide_eq_true hkeeps)
      · cases hstep
    | _ => cases hstep
  | inspect i =>
    obtain ⟨p, hi, hstep⟩ := Option.bind_eq_some_iff.1 hstep
    cases p with
    | uploaded number push =>
      cases hstep
      refine h.forgets hi ?_ ?_ <;> split <;> rfl
    | _ => cases hstep
  | patch i =>
    obtain ⟨p, hi, hstep⟩ := Option.bind_eq_some_iff.1 hstep
    cases p with
    | notifying number push =>
      obtain ⟨changed, hchanged, rfl⟩ := Option.map_eq_some_iff.1 hstep
      exact h.patched hi hchanged
    | _ => cases hstep
  | answer i =>
    obtain ⟨p, hi, hstep⟩ := Option.bind_eq_some_iff.1 hstep
    cases p with
    | served version push =>
      rw [PushWorld.stepRequest] at hstep
      split at hstep
      · cases hstep
      · cases hstep
        exact h.forgets hi rfl rfl
    | notified number push =>
      cases hstep
      exact h.forgets hi rfl rfl
    | _ => cases hstep
  | fail i =>
    obtain ⟨p, hi, hstep⟩ := Option.bind_eq_some_iff.1 hstep
    rw [PushWorld.keepsPushes, hi, Option.all_some, Option.isNone_iff_eq_none] at hkeeps
    have hmoved : W' = W.moved i .failed := by
      cases p <;> cases hstep <;> rfl
    rw [hmoved]
    exact h.forgets hi hkeeps.symm rfl

end PushRequestsAux

open Lib (Dict)

/-- For every stored repository and deployment and every interleaving of requests: what an answered request has changed is stored or
was changed by a later push, and a commit that a push has set for the deployment is stored. -/
theorem acknowledged_pushes_survive {stored : Option Repository} {spec : LlamaDeploymentSpec} {W : PushWorld}
    (hrun : Lib.Run PushWorld.step (fun W a => W.keepsPushes a = true) { stored := stored, spec := spec } W) :
    W.IsKept ∧ W.IsPinned := by
  have hsound : PushRequestsAux.Sound W := hrun.invariant _ PushRequestsAux.sound_start
    fun _ _ _ h hkeeps hstep => PushRequestsAux.step_sound hkeeps hstep h
  exact ⟨hsound.isKept, hsound.pinned⟩

namespace LostPush

/-- A deployment that waits for its first push. -/
def spec : LlamaDeploymentSpec := { projectId := "p", repoUrl := "" }

/-- A repository with one branch. -/
def branch (name commit : String) (named : "" ≠ commit) : Repository where
  commits := [commit]
  refs := (∅ : Dict String String).set ("refs/heads/" ++ name) commit
  named h := named (List.mem_singleton.1 h)
  tagged := List.forall_mem_nil _
  closed e he := Or.inl (by cases he with | head => exact List.mem_singleton_self commit | tail _ h => cases h)

/-- The branch `main` is pushed. -/
def main : Repository := branch "main" "aaaaaaa" (by decide)

/-- The branch `dev` is pushed to an empty repository. -/
def dev : Repository := branch "dev" "bbbbbbb" (by decide)

/-- The branch `dev` is pushed to a repository that has `main`. -/
def both : Repository where
  commits := ["aaaaaaa", "bbbbbbb"]
  refs := main.refs.set "refs/heads/dev" "bbbbbbb"
  named := by decide
  tagged := List.forall_mem_nil _
  closed := by decide

/-- The steps of the first request after its push was served. -/
def first : List PushAction := [.upload 0, .inspect 0, .patch 0, .answer 0]

/-- What the first request has pushed, when it is answered. -/
def firstPush (W : PushWorld) : Option (Nat × ServedPush) :=
  W.requests[0]?.bind fun p => match p with
    | .answered number push => some (number, push)
    | _ => none

/-- The branch `main` of what is stored. -/
def storedMain (W : PushWorld) : Option String := W.content.refs.get? "refs/heads/main"

theorem answered_of_firstPush {W : PushWorld} {number : Nat} {push : ServedPush} (h : firstPush W = some (number, push)) :
    W.requests[0]? = some (.answered number push) := by
  obtain ⟨p, hp, h⟩ := Option.bind_eq_some_iff.1 h
  cases p with
  | answered _ _ =>
    cases h
    exact hp
  | _ => cases h

end LostPush

open LostPush in
/-- Two requests download the empty repository. The first one pushes `main`, is answered, and its commit becomes that of the deployment.
The second one then uploads `dev`, and all of it is gone. -/
theorem acknowledged_pushes_survive_false :
    ∃ W, Lib.Run PushWorld.step (fun _ _ => True) { spec := spec } W ∧ (∀ p ∈ W.requests, p.isFinished = true) ∧
      ¬ W.IsKept ∧ ¬ W.IsPinned := by
  obtain ⟨W, hrun, hfinished, hpushed, hsha, hmissing, hmain, hfirst, hlater⟩ := Lib.Run.exists_of_actions PushWorld.step
    { spec := spec }
    ([.arrive, .arrive, .download 0, .download 1, .serve 0 main, .serve 1 dev] ++ first ++ [.upload 1, .inspect 1, .answer 1])
    (fun W => (∀ p ∈ W.requests, p.isFinished = true) ∧ W.pushed ∧ W.spec.gitSha = some "aaaaaaa" ∧
      "aaaaaaa" ∉ W.content.commits ∧ storedMain W = none ∧
      ((firstPush W).any fun x => x.2.changes "refs/heads/main" && (x.2.after.refs.get? "refs/heads/main").isSome) ∧
      W.requests.all fun p => p.published?.all fun x => x.1 = 0 || !x.2.changes "refs/heads/main") (by decide +kernel)
  refine ⟨W, hrun, hfinished, fun hkept => ?_, fun hpinned => ?_⟩
  · obtain ⟨⟨number, push⟩, hpush, hx⟩ := (Option.any_eq_true _ _).1 hfirst
    obtain ⟨hchanges, hsome⟩ := Bool.and_eq_true_iff.1 hx
    rcases hkept 0 number push _ (answered_of_firstPush hpush) hchanges with hstored | ⟨j, p, m, later, hp, hpublished, hlt, hagain⟩
    · rw [← hstored, show W.content.refs.get? "refs/heads/main" = none from hmain] at hsome
      cases hsome
    · have hother := List.all_eq_true.1 hlater p (List.mem_of_getElem? hp)
      rw [hpublished, Option.all_some, hagain, Bool.not_true, Bool.or_false, decide_eq_true_eq] at hother
      exact Nat.not_lt_zero number (hother ▸ hlt)
  · obtain ⟨sha, hset, hmem⟩ := hpinned hpushed
    cases hsha.symm.trans hset
    exact hmissing hmem

open LostPush in
/-- A second request that downloads after the first one has uploaded pushes `dev` beside `main`. -/
theorem acknowledged_pushes_survive_in_turn :
    ∃ W : PushWorld, W.IsKept ∧ W.IsPinned ∧ W.pushed = true ∧ storedMain W = some "aaaaaaa" ∧
      W.content.refs.get? "refs/heads/dev" = some "bbbbbbb" := by
  obtain ⟨W, hrun, hpushed, hmain, hdev⟩ := Lib.Run.exists_of_exec PushWorld.step (fun W a => W.keepsPushes a) { spec := spec }
    ([.arrive, .arrive, .download 0, .serve 0 main] ++ first ++ [.download 1, .serve 1 both, .upload 1, .inspect 1, .answer 1])
    (fun W => W.pushed ∧ storedMain W = some "aaaaaaa" ∧ W.content.refs.get? "refs/heads/dev" = some "bbbbbbb") (by decide +kernel)
  have h := acknowledged_pushes_survive hrun
  exact ⟨W, h.1, h.2, hpushed, hmain, hdev⟩

end LlamaAgents
