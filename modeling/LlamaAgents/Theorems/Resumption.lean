import LlamaAgents.Lib.Run
import LlamaAgents.Dbos.Resumption

/-!
# The fence around a resume

The claim of a resume is checked before the old workflow is purged and the new one is started, and again after that, but not
together with them. As long as nobody takes the claim over in between, only its holder purges and starts, and it starts one loop;
a caller that is late by more than the crash timeout starts a second one.

The invariant of the callers that resume a run. A version names one caller, since no time is written twice; the caller whose
version is in the row made the latest claim; and while a caller is fenced, the row is its own.
-/

namespace LlamaAgents

/-- The invariant of the callers, when none that is fenced is disturbed. -/
structure Resumption.Fenced {ρ : Type} (F : Resumption ρ) : Prop where
  stamped : ∀ r c, (F.phase r).claim? = some c → c.version ∈ F.stamps
  unique : ∀ r r' c c', (F.phase r).claim? = some c → (F.phase r').claim? = some c' → c.version = c'.version → r = r'
  owner : ∀ r c, (F.phase r).claim? = some c → F.row = some ⟨.resuming, c.version⟩ → F.latest = some r
  fenced : ∀ r c, (F.phase r).claim? = some c → (F.phase r).isFenced → F.row = some ⟨.resuming, c.version⟩ ∧ F.starts = 0
  released : ∀ row, F.row = some row → row.state = .releasing ∨ row.state = .released → F.starts = 0
  resuming : ∀ v, F.row = some ⟨.resuming, v⟩ → F.starts = 0 ∨ ∃ r c, F.phase r = .started c ∧ c.version = v
  bounded : F.starts ≤ 1

namespace ResumptionAux

variable {ρ : Type} {F F' : Resumption ρ} {r r' : ρ} {c : ResumeClaim} {now : Time}

/-! ## The row -/

theorem update_eq_some {expected : LifecycleRow → Bool} {state : RunLifecycleState} {row : Option LifecycleRow}
    {new : LifecycleRow} (h : LifecycleRow.update expected state now row = some new) :
    new = ⟨state, now⟩ ∧ ∃ old, row = some old ∧ expected old = true := by
  rw [LifecycleRow.update] at h
  split at h
  · case isTrue hany =>
    cases h
    exact ⟨rfl, (Option.any_eq_true _ _).1 hany⟩
  · cases h

theorem ownedBy_iff {version : Time} {row : LifecycleRow} :
    row.ownedBy version = true ↔ row = ⟨.resuming, version⟩ := by
  obtain ⟨state, updatedAt⟩ := row
  simp [LifecycleRow.ownedBy]

theorem completeResume_eq_none {version : Time} {row : Option LifecycleRow}
    (h : LifecycleRow.completeResume version now row = none) : row ≠ some ⟨.resuming, version⟩ := by
  rintro rfl
  simp [LifecycleRow.completeResume, LifecycleRow.update, LifecycleRow.ownedBy] at h

/-- A claim is made on a row that can be claimed. -/
theorem tryBeginResume_eq_claim {crashTimeout : Option Time} {readAt : Time} {row : Option LifecycleRow} {new : LifecycleRow}
    (h : LifecycleRow.tryBeginResume crashTimeout readAt now row = (.claim c, some new)) :
    c.version = now ∧ new = ⟨.resuming, now⟩ ∧ ∃ old, row = some old ∧ old.isClaimable crashTimeout readAt = true := by
  unfold LifecycleRow.tryBeginResume at h
  split at h
  · cases h
  · split at h
    · cases h
    · split at h
      · case isTrue hclaimable =>
        cases h
        exact ⟨rfl, rfl, _, rfl, hclaimable⟩
      · cases h

/-! ## Callers -/

theorem claim_of_isFenced {p : ResumePhase} (h : p.isFenced = true) : ∃ c, p.claim? = some c := by
  cases p <;> first | exact ⟨_, rfl⟩ | cases h

/-- A caller that is fenced made the latest claim. -/
theorem latest_of_isFenced (h : F.Fenced) (hr : (F.phase r).isFenced = true) : F.latest = some r := by
  obtain ⟨c, hc⟩ := claim_of_isFenced hr
  exact h.owner r c hc (h.fenced r c hc hr).1

variable [DecidableEq ρ]

theorem setPhase_self (F : Resumption ρ) (r : ρ) (p : ResumePhase) : (F.setPhase r p).phase r = p := by
  simp [Resumption.setPhase]

theorem setPhase_of_ne (F : Resumption ρ) (p : ResumePhase) (h : r' ≠ r) : (F.setPhase r p).phase r' = F.phase r' := by
  simp [Resumption.setPhase, h]

omit [DecidableEq ρ] in
/-- The row is written, and it is not that of a resume. -/
theorem write_fenced (h : F.Fenced) {state : RunLifecycleState} {starts : Nat} (hnone : ∀ r, (F.phase r).isFenced = false)
    (hstate : state ≠ .resuming) (hbounded : starts ≤ 1) (hreleased : state = .releasing ∨ state = .released → starts = 0) :
    Resumption.Fenced { F.write ⟨state, now⟩ with starts := starts } where
  stamped r c hc := List.mem_cons_of_mem _ (h.stamped r c hc)
  unique := h.unique
  owner r c hc hrow := by
    cases hrow
    exact absurd rfl hstate
  fenced r c _ hr := absurd hr (by simpa [Resumption.write] using hnone r)
  released row hrow hs := by
    cases hrow
    exact hreleased hs
  resuming v hrow := by
    cases hrow
    exact absurd rfl hstate
  bounded := hbounded

/-- A caller gives up, or is done. -/
theorem leave_fenced (h : F.Fenced) (hstarted : ∀ c, F.phase r = .started c → F.row ≠ some ⟨.resuming, c.version⟩) :
    (F.setPhase r .idle).Fenced := by
  have hkept : ∀ {r' c}, ((F.setPhase r .idle).phase r').claim? = some c → r' ≠ r ∧ (F.phase r').claim? = some c := by
    intro r' c hc
    by_cases heq : r' = r
    · subst heq
      rw [setPhase_self] at hc
      cases hc
    · rw [setPhase_of_ne F _ heq] at hc
      exact ⟨heq, hc⟩
  refine ⟨?_, ?_, ?_, ?_, h.released, ?_, h.bounded⟩
  · intro r' c hc
    exact h.stamped r' c (hkept hc).2
  · intro r₁ r₂ c₁ c₂ h₁ h₂
    exact h.unique r₁ r₂ c₁ c₂ (hkept h₁).2 (hkept h₂).2
  · intro r' c hc
    exact h.owner r' c (hkept hc).2
  · intro r' c hc hfenced
    obtain ⟨hne, hc⟩ := hkept hc
    rw [setPhase_of_ne F _ hne] at hfenced
    exact h.fenced r' c hc hfenced
  · intro v hrow
    refine (h.resuming v hrow).imp_right ?_
    rintro ⟨r', c, hr', rfl⟩
    have hne : r' ≠ r := by
      rintro rfl
      exact hstarted c hr' hrow
    exact ⟨r', c, by rw [setPhase_of_ne F _ hne, hr'], rfl⟩

/-- A caller becomes, or stays, the owner of the row under a version that was not written before. -/
theorem own_fenced (h : F.Fenced) (hfresh : now ∉ F.stamps) (hothers : ∀ r', r' ≠ r → (F.phase r').isFenced = false)
    (hstarts : F.starts = 0) {p : ResumePhase} (hp : p.claim? = some c) (hversion : c.version = now) :
    Resumption.Fenced { (F.write ⟨.resuming, now⟩).setPhase r p with latest := some r } := by
  have hphase : ∀ {r'}, r' ≠ r → ((F.write ⟨.resuming, now⟩).setPhase r p).phase r' = F.phase r' := fun hne =>
    setPhase_of_ne _ p hne
  -- only this caller holds the new version
  have hholds : ∀ {r' c'}, (((F.write ⟨.resuming, now⟩).setPhase r p).phase r').claim? = some c' →
      (r' = r ∧ c' = c) ∨ (r' ≠ r ∧ (F.phase r').claim? = some c' ∧ c'.version ≠ now) := by
    intro r' c' hc'
    by_cases heq : r' = r
    · subst heq
      rw [setPhase_self, hp, Option.some.injEq] at hc'
      exact Or.inl ⟨rfl, hc'.symm⟩
    · rw [hphase heq] at hc'
      refine Or.inr ⟨heq, hc', ?_⟩
      rintro rfl
      exact hfresh (h.stamped r' c' hc')
  refine ⟨?_, ?_, ?_, ?_, ?_, fun _ _ => Or.inl hstarts, h.bounded⟩
  · intro r' c' hc'
    rcases hholds hc' with ⟨-, rfl⟩ | ⟨-, hc', -⟩
    · rw [hversion]
      exact List.mem_cons_self
    · exact List.mem_cons_of_mem _ (h.stamped r' c' hc')
  · intro r₁ r₂ c₁ c₂ h₁ h₂ heq
    rcases hholds h₁ with ⟨rfl, rfl⟩ | ⟨-, h₁, hne₁⟩
    · rcases hholds h₂ with ⟨rfl, -⟩ | ⟨-, -, hne₂⟩
      · rfl
      · exact absurd (heq.symm.trans hversion) hne₂
    · rcases hholds h₂ with ⟨rfl, rfl⟩ | ⟨-, h₂, -⟩
      · exact absurd (heq.trans hversion) hne₁
      · exact h.unique r₁ r₂ c₁ c₂ h₁ h₂ heq
  · intro r' c' hc' hrow
    rcases hholds hc' with ⟨rfl, -⟩ | ⟨-, -, hne⟩
    · rfl
    · cases hrow
      exact absurd rfl hne
  · intro r' c' hc' hfenced
    rcases hholds hc' with ⟨-, rfl⟩ | ⟨hne, -, -⟩
    · rw [hversion]
      exact ⟨rfl, hstarts⟩
    · dsimp only at hfenced
      rw [hphase hne, hothers r' hne] at hfenced
      cases hfenced
  · intro row hrow hs
    cases hrow
    rcases hs with hs | hs <;> cases hs

/-- A caller goes on with its claim, and starts the new workflow at most when it has not done so. -/
theorem goOn_fenced (h : F.Fenced) (hc : (F.phase r).claim? = some c) (hfenced : (F.phase r).isFenced = true)
    {p : ResumePhase} {starts : Nat} (hp : p.claim? = some c)
    (hstarts : (starts = 0 ∧ p.isFenced = true) ∨ (starts = 1 ∧ p = .started c)) :
    Resumption.Fenced { F.setPhase r p with starts := starts } := by
  obtain ⟨hrow, -⟩ := h.fenced r c hc hfenced
  -- a caller has the claim that it had
  have hkept : ∀ {r' c'}, ((F.setPhase r p).phase r').claim? = some c' → (F.phase r').claim? = some c' := by
    intro r' c' hc'
    by_cases heq : r' = r
    · subst heq
      rw [setPhase_self, hp] at hc'
      rw [hc, hc']
    · rwa [setPhase_of_ne F p heq] at hc'
  refine ⟨?_, ?_, ?_, ?_, ?_, ?_, ?_⟩
  · intro r' c' hc'
    exact h.stamped r' c' (hkept hc')
  · intro r₁ r₂ c₁ c₂ h₁ h₂
    exact h.unique r₁ r₂ c₁ c₂ (hkept h₁) (hkept h₂)
  · intro r' c' hc'
    exact h.owner r' c' (hkept hc')
  · intro r' c' hc' hfenced'
    dsimp only at hc' hfenced'
    by_cases heq : r' = r
    · subst heq
      rw [setPhase_self] at hfenced' hc'
      rw [hp, Option.some.injEq] at hc'
      rcases hstarts with ⟨rfl, -⟩ | ⟨-, rfl⟩
      · exact ⟨hc' ▸ hrow, rfl⟩
      · cases hfenced'
    · -- two callers are not fenced at once
      rw [setPhase_of_ne F p heq] at hc' hfenced'
      have hlatest := latest_of_isFenced h hfenced'
      rw [latest_of_isFenced h hfenced, Option.some.injEq] at hlatest
      exact absurd hlatest.symm heq
  · intro row hrow' hs
    rw [show F.row = some row from hrow'] at hrow
    cases hrow
    rcases hs with hs | hs <;> cases hs
  · intro v hv
    rcases hstarts with ⟨rfl, -⟩ | ⟨-, rfl⟩
    · exact Or.inl rfl
    · rw [show F.row = some ⟨.resuming, v⟩ from hv] at hrow
      cases hrow
      exact Or.inr ⟨r, c, setPhase_self F r _, rfl⟩
  · rcases hstarts with ⟨rfl, -⟩ | ⟨rfl, -⟩
    · exact Nat.zero_le 1
    · exact le_rfl

/-! ## Runs -/

/-- A claim is made by a caller that is not fenced, while no other is. -/
theorem claim_fenced (h : F.Fenced) {readAt : Time} {row : LifecycleRow}
    (hfresh : now ∉ F.stamps) (hundisturbed : F.isUndisturbed (.tryBeginResume r readAt now) = true)
    (hclaim : LifecycleRow.tryBeginResume (some crashTimeoutSeconds) readAt now F.row = (.claim c, some row)) :
    (F.claims r c row).Fenced := by
  obtain ⟨hversion, rfl, old, hold, hclaimable⟩ := tryBeginResume_eq_claim hclaim
  rw [Resumption.isUndisturbed, Resumption.takesOver, hold, Option.any_some, hclaimable, Bool.and_true] at hundisturbed
  have hnone : ∀ r', (F.phase r').isFenced = false := by
    intro r'
    by_contra hr'
    rw [Bool.not_eq_false] at hr'
    obtain ⟨c', hc'⟩ := claim_of_isFenced hr'
    have hrow := (h.fenced r' c' hc' hr').1
    rw [hold, Option.some.injEq] at hrow
    subst hrow
    simp [latest_of_isFenced h hr', hr'] at hundisturbed
  refine own_fenced h hfresh (fun r' _ => hnone r') ?_ rfl hversion
  cases hs : old.state with
  | active => simp [LifecycleRow.isClaimable, hs] at hclaimable
  | releasing => exact h.released old hold (Or.inl hs)
  | released => exact h.released old hold (Or.inr hs)
  | resuming =>
    have hrow : F.row = some ⟨.resuming, old.updatedAt⟩ := by rw [hold, ← hs]
    refine (h.resuming _ hrow).resolve_right ?_
    rintro ⟨r', c', hr', hv⟩
    have hlatest := h.owner r' c' (by rw [hr']; rfl) (by rw [hrow, hv])
    simp [hs, hlatest, hr', ResumePhase.isStarted] at hundisturbed

/-- A caller that has not refreshed its claim for the last time refreshes it. -/
theorem refresh_fenced (h : F.Fenced) (hc : (F.phase r).claim? = some c)
    (hstarted : (F.phase r).isStarted = false) (hfresh : now ∉ F.stamps) {next : ResumeClaim → ResumePhase}
    (hnext : ∀ c, (next c).claim? = some c) : (F.refresh r c next now).Fenced := by
  have hnot : ∀ c, F.phase r ≠ .started c := by
    intro c hr
    rw [hr] at hstarted
    cases hstarted
  unfold Resumption.refresh
  split
  · exact leave_fenced h fun c hr => absurd hr (hnot c)
  · case h_2 row hrow =>
    obtain ⟨rfl, old, hold, howned⟩ := update_eq_some hrow
    rw [ownedBy_iff.1 howned] at hold
    have hlatest := h.owner r c hc hold
    have hothers : ∀ r', r' ≠ r → (F.phase r').isFenced = false := by
      intro r' hne
      by_contra hr'
      have hlatest' := latest_of_isFenced h (by simpa using hr')
      rw [hlatest, Option.some.injEq] at hlatest'
      exact hne hlatest'.symm
    have hstarts : F.starts = 0 := by
      refine (h.resuming _ hold).resolve_right ?_
      rintro ⟨r', c', hr', hv⟩
      have heq := h.unique r r' c c' hc (by rw [hr']; rfl) hv.symm
      subst heq
      exact hnot c' hr'
    have := own_fenced h hfresh hothers hstarts (hnext ⟨now, .resuming⟩) rfl
    rw [← hlatest] at this
    exact this

/-- Every action that writes a new time and disturbs no fenced caller keeps the invariant. -/
theorem step_fenced (h : F.Fenced) {a : ResumptionAction ρ} (hdistinct : F.isDistinct a = true)
    (hundisturbed : F.isUndisturbed a = true) (hstep : F.step a = some F') : F'.Fenced := by
  -- no caller is fenced while the row is not that of a resume
  have hnone : ∀ {old : LifecycleRow}, F.row = some old → old.state ≠ .resuming → ∀ r, (F.phase r).isFenced = false := by
    intro old hold hne r
    by_contra hr
    obtain ⟨c, hc⟩ := claim_of_isFenced (by simpa using hr)
    have hrow := (h.fenced r c hc (by simpa using hr)).1
    rw [hold, Option.some.injEq] at hrow
    exact hne (by rw [hrow])
  cases a with
  | create now =>
    cases hstep
    refine write_fenced h ?_ nofun h.bounded nofun
    intro r
    by_contra hr
    rw [Bool.not_eq_false] at hr
    simp [Resumption.isUndisturbed, latest_of_isFenced h hr, hr] at hundisturbed
  | beginRelease now =>
    cases hstep
    split
    · exact h
    · case h_2 row hrow =>
      obtain ⟨rfl, old, hold, hactive⟩ := update_eq_some hrow
      refine write_fenced h (hnone hold ?_) nofun (Nat.zero_le 1) fun _ => rfl
      simp [of_decide_eq_true hactive]
  | completeRelease now =>
    cases hstep
    split
    · exact h
    · case h_2 row hrow =>
      obtain ⟨rfl, old, hold, hreleasing⟩ := update_eq_some hrow
      have hs := of_decide_eq_true hreleasing
      exact write_fenced h (hnone hold (by simp [hs])) nofun h.bounded fun _ => h.released old hold (Or.inl hs)
  | tryBeginResume r readAt now =>
    rw [Resumption.step] at hstep
    split at hstep
    · case h_1 hidle =>
      split at hstep
      · case h_1 c row hclaim =>
        cases hstep
        exact claim_fenced h (by simpa [Resumption.isDistinct, ResumptionAction.stamp?] using hdistinct) hundisturbed hclaim
      · cases hstep
        exact h
    · cases hstep
  | refreshResumeOwner r now =>
    have hfresh : now ∉ F.stamps := by simpa [Resumption.isDistinct, ResumptionAction.stamp?] using hdistinct
    rw [Resumption.step] at hstep
    split at hstep
    · case h_1 c hr =>
      cases hstep
      exact refresh_fenced h (by rw [hr]; rfl) (by rw [hr]; rfl) hfresh fun _ => rfl
    · case h_2 c hr =>
      cases hstep
      exact refresh_fenced h (by rw [hr]; rfl) (by rw [hr]; rfl) hfresh fun _ => rfl
    · cases hstep
  | purge r =>
    rw [Resumption.step] at hstep
    split at hstep
    · case h_1 c hr =>
      cases hstep
      have hc : (F.phase r).claim? = some c := by rw [hr]; rfl
      have hfenced : (F.phase r).isFenced = true := by rw [hr]; rfl
      have := goOn_fenced (p := .purged c) h hc hfenced rfl (Or.inl ⟨(h.fenced r c hc hfenced).2, rfl⟩)
      exact this
    · cases hstep
  | runWorkflow r =>
    rw [Resumption.step] at hstep
    split at hstep
    · case h_1 c hr =>
      cases hstep
      have hc : (F.phase r).claim? = some c := by rw [hr]; rfl
      have hfenced : (F.phase r).isFenced = true := by rw [hr]; rfl
      refine goOn_fenced h hc hfenced rfl (Or.inr ⟨?_, rfl⟩)
      rw [(h.fenced r c hc hfenced).2]
    · cases hstep
  | completeResume r now =>
    rw [Resumption.step] at hstep
    split at hstep
    · case h_1 c hr =>
      have hc : (F.phase r).claim? = some c := by rw [hr]; rfl
      split at hstep
      · case h_1 hnot =>
        cases hstep
        refine leave_fenced h ?_
        intro c' hr'
        rw [hr, ResumePhase.started.injEq] at hr'
        exact hr' ▸ completeResume_eq_none hnot
      · case h_2 row hrow =>
        cases hstep
        obtain ⟨rfl, old, hold, howned⟩ := update_eq_some hrow
        rw [ownedBy_iff.1 howned] at hold
        refine leave_fenced (write_fenced h ?_ nofun h.bounded nofun) nofun
        intro r'
        by_contra hr'
        rw [Bool.not_eq_false] at hr'
        have hlatest := latest_of_isFenced h hr'
        rw [h.owner r c hc hold, Option.some.injEq] at hlatest
        subst hlatest
        rw [hr] at hr'
        cases hr'
    · cases hstep

omit [DecidableEq ρ] in
theorem initial_fenced : ({} : Resumption ρ).Fenced :=
  ⟨nofun, nofun, nofun, nofun, nofun, nofun, Nat.zero_le 1⟩

/-- Every run whose actions write new times and disturb no fenced caller keeps the invariant. -/
theorem run_fenced (hrun : Lib.Run Resumption.step (fun F a => F.isDistinct a && F.isUndisturbed a) {} F) : F.Fenced := by
  refine hrun.invariant Resumption.Fenced initial_fenced ?_
  intro F a F' h ha hstep
  rw [Bool.and_eq_true] at ha
  exact step_fenced h ha.1 ha.2 hstep

end ResumptionAux

open ResumptionAux

/-- Resume ownership is fenced: in every interleaving of the callers with the release of the run in which no time is written twice
and nobody disturbs a caller that has refreshed its claim for the last time, the old workflow is purged and a new one is started
only by the caller that made the latest claim, and at most one loop is started after a release of the run. -/
theorem resume_fenced {ρ : Type} [DecidableEq ρ] {F : Resumption ρ}
    (hrun : Lib.Run Resumption.step (fun F a => F.isDistinct a && F.isUndisturbed a) {} F) :
    (∀ r F', F.step (.purge r) = some F' ∨ F.step (.runWorkflow r) = some F' → F.latest = some r) ∧ F.starts ≤ 1 := by
  have hfenced := run_fenced hrun
  refine ⟨?_, hfenced.bounded⟩
  intro r F' hstep
  refine latest_of_isFenced hfenced ?_
  rcases hstep with hstep | hstep <;> rw [Resumption.step] at hstep <;> split at hstep
  · case h_1 c hr => rw [hr]; rfl
  · cases hstep
  · case h_1 c hr => rw [hr]; rfl
  · cases hstep

namespace SlowOwner

/-- The run is released, and the first caller claims its resume and refreshes the claim twice. -/
def fenced : List (ResumptionAction (Fin 2)) :=
  [.create 0, .beginRelease 60, .completeRelease 61, .tryBeginResume 0 100 100, .refreshResumeOwner 0 101,
    .refreshResumeOwner 0 102]

/-- More than two minutes later the second caller takes the resume over, and starts the new workflow. -/
def takenOver : List (ResumptionAction (Fin 2)) :=
  [.tryBeginResume 1 223 223, .refreshResumeOwner 1 224, .refreshResumeOwner 1 225, .purge 1, .runWorkflow 1]

/-- The first caller purges the old workflow, and starts a new one. -/
def goesOn : List (ResumptionAction (Fin 2)) := [.purge 0, .runWorkflow 0]

end SlowOwner

open SlowOwner in
/-- The first caller is slow after its last refresh. The second one takes the resume over and starts the new loop; the first one
then purges that loop's workflow without holding the latest claim, and starts a second loop. -/
theorem resume_fenced_false :
    (∃ F : Resumption (Fin 2), Lib.Run Resumption.step (fun F a => F.isDistinct a) {} F ∧ F.latest = some 1 ∧
      ∃ F', F.step (.purge 0) = some F') ∧
    ∃ F : Resumption (Fin 2), Lib.Run Resumption.step (fun F a => F.isDistinct a) {} F ∧ F.starts = 2 := by
  refine ⟨?_, ?_⟩
  · obtain ⟨F, hrun, hlatest, hpurges⟩ := Lib.Run.exists_of_exec Resumption.step (fun F a => F.isDistinct a) {}
      (fenced ++ takenOver) (fun F : Resumption (Fin 2) => F.latest = some 1 ∧ (F.step (.purge 0)).isSome) (by decide)
    exact ⟨F, hrun, hlatest, Option.isSome_iff_exists.1 hpurges⟩
  · exact Lib.Run.exists_of_exec Resumption.step (fun F a => F.isDistinct a) {} (fenced ++ takenOver ++ goesOn) _ (by decide)

open SlowOwner in
/-- The first caller claims the resume and goes on at once. -/
theorem resume_fenced_alone : ∃ F : Resumption (Fin 2), F.starts = 1 ∧
    (∀ r F', F.step (.purge r) = some F' ∨ F.step (.runWorkflow r) = some F' → F.latest = some r) ∧ F.starts ≤ 1 := by
  obtain ⟨F, hrun, hstarts⟩ := Lib.Run.exists_of_exec Resumption.step (fun F a => F.isDistinct a && F.isUndisturbed a) {}
    (fenced ++ goesOn) (fun F => F.starts = 1) (by decide)
  exact ⟨F, hstarts, resume_fenced hrun⟩

end LlamaAgents
