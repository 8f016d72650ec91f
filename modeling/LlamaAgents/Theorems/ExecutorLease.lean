import LlamaAgents.Dbos.ExecutorLease
import LlamaAgents.Lib.Run

/-!
# An executor slot has one trusted lease

A row is taken over only when its heartbeat is older than the timeout, so until then the manager that has sent it is the holder.
-/

namespace LlamaAgents

open Lib (Dict)

variable {ρ : Type} [DecidableEq ρ]

namespace LeaseAux

variable {leaseTimeout : Time} {T T' : LeaseTable ρ} {r : ρ} {now : Time}

/-- A lease that is not older than the timeout is in the table, with the time at which it was confirmed. -/
def Kept (leaseTimeout : Time) (T : LeaseTable ρ) : Prop :=
  ∀ r l, T.leases r = some l → T.clock ≤ l.confirmedAt + leaseTimeout → T.rows.get? l.slotId = some ⟨some r, some l.confirmedAt⟩

/-- A manager writes to a row that is free or its own, and has a lease of what it has written, of what it had, or none. -/
theorem write_kept (h : Kept leaseTimeout T) {slotId : String} {row : Option (LeaseRow ρ)} {lease : Option Lease}
    (hrow : row.isSome → ∃ old, T.rows.get? slotId = some old ∧ (old.isFree leaseTimeout now ∨ old.holder = some r))
    (hlease : ∀ l ∈ lease, l.slotId = slotId ∧ (row = some ⟨some r, some l.confirmedAt⟩ ∨
      row = none ∧ ∃ l' ∈ T.leases r, l'.slotId = slotId ∧ l'.confirmedAt = l.confirmedAt)) :
    Kept leaseTimeout (T.write r now slotId row lease) := by
  intro r' l hl hfresh
  have hclock := (le_max_left T.clock now).trans hfresh
  have hnow := (le_max_right T.clock now).trans hfresh
  by_cases hr : r' = r
  · subst hr
    obtain ⟨rfl, rfl | ⟨rfl, l', hl', hslot, htime⟩⟩ := hlease l ((Function.update_self _ _ T.leases).symm.trans hl)
    · exact Dict.get?_set_self ..
    · have hget := h r' l' hl' (htime.symm ▸ hclock)
      rwa [hslot, htime] at hget
  · have hget := h r' l ((Function.update_of_ne hr _ T.leases).symm.trans hl) hclock
    cases row with
    | none => exact hget
    | some row =>
      refine (Dict.get?_set_ne _ _ ?_).trans hget
      rintro rfl
      -- The heartbeat of the other manager is too young for its row to be free.
      obtain ⟨old, hold, hfree⟩ := hrow rfl
      cases hold.symm.trans hget
      simp only [LeaseRow.isFree, Option.isNone_some, Option.any_some, Bool.false_or, decide_eq_true_eq, Option.some.injEq] at hfree
      rcases hfree with hstale | heq
      · exact absurd hnow (not_le.2 (lt_sub_iff_add_lt.1 hstale))
      · exact hr heq

theorem heldBy_eq {slotId : String} {row : LeaseRow ρ} (h : T.heldBy r slotId = some row) :
    T.rows.get? slotId = some row ∧ row.holder = some r := by
  simpa [LeaseTable.heldBy, Option.filter_eq_some_iff] using h

theorem step_kept {a : LeaseAction ρ} (h : Kept leaseTimeout T) (hstep : T.step leaseTimeout a = some T') : Kept leaseTimeout T' := by
  cases a with
  | seedSlot slotPrefix i =>
    rw [LeaseTable.step] at hstep
    split at hstep
    · exact Option.some.inj hstep ▸ h
    · case _ hnew =>
      cases hstep
      intro r l hl hfresh
      have hget := h r l hl hfresh
      refine (Dict.get?_set_ne _ _ fun heq => hnew ?_).trans hget
      rw [Dict.contains, ← heq, hget]
      rfl
  | acquire r locked now =>
    rw [LeaseTable.step] at hstep
    split at hstep
    · cases hstep
      exact fun r l hl hfresh => h r l hl ((le_max_left _ _).trans hfresh)
    · case _ slotId row hfound =>
      cases hstep
      have hmem := (List.mem_insertionSort _).1 (List.mem_of_find?_eq_some hfound)
      have hfree := List.find?_some hfound
      rw [Bool.and_eq_true] at hfree
      exact write_kept h (fun _ => ⟨row, (Dict.get?_eq_some_iff _ _ _).2 hmem, Or.inl hfree.1⟩) (by simp)
  | heartbeat r now =>
    obtain ⟨lease, hlease, rfl⟩ := Option.map_eq_some_iff.1 hstep
    obtain ⟨hlease, -⟩ := Option.filter_eq_some_iff.1 hlease
    split
    · exact write_kept h nofun (by simp [hlease])
    · case _ row hrow =>
      obtain ⟨hrow, hholder⟩ := heldBy_eq hrow
      exact write_kept h (fun _ => ⟨row, hrow, Or.inr hholder⟩) (by simp [hholder])
  | release r now =>
    obtain ⟨lease, -, rfl⟩ := Option.map_eq_some_iff.1 hstep
    refine write_kept h (fun hheld => ?_) nofun
    obtain ⟨row, hrow⟩ := Option.isSome_iff_exists.1 (Option.isSome_map.symm.trans hheld)
    exact ⟨row, (heldBy_eq hrow).1, Or.inr (heldBy_eq hrow).2⟩

end LeaseAux

/-- A lease excludes: in every interleaving of the managers, a manager that has confirmed its lease no longer ago than the timeout is the
holder of the slot, and no other manager has confirmed a lease of it since then. -/
theorem lease_excludes (leaseTimeout : Time) {T : LeaseTable ρ} {began : Time}
    (hrun : Lib.Run (LeaseTable.step leaseTimeout) (fun _ _ => True) { clock := began } T) {r : ρ} {slotId : String}
    (h : T.trusts leaseTimeout r slotId) :
    (T.rows.get? slotId).bind LeaseRow.holder = some r ∧ ∀ r', T.trusts leaseTimeout r' slotId → r' = r := by
  have hkept := hrun.invariant (LeaseAux.Kept leaseTimeout) nofun fun _ _ _ h _ => LeaseAux.step_kept h
  have hholder : ∀ r, T.trusts leaseTimeout r slotId → (T.rows.get? slotId).bind LeaseRow.holder = some r := by
    intro r h
    obtain ⟨l, hl, htrusts⟩ := (Option.any_eq_true _ _).1 h
    simp only [Bool.and_eq_true, decide_eq_true_eq] at htrusts
    rw [← htrusts.1, hkept r l hl htrusts.2]
    rfl
  exact ⟨hholder r h, fun r' h' => Option.some.inj ((hholder r' h').symm.trans (hholder r h))⟩

/-- The slot of a manager that has stopped is leased again after the timeout. -/
theorem lease_excludes_stopped : ∃ T : LeaseTable Bool, (T.leases false).map Lease.slotId = some "executor-0" ∧
    T.trusts 30 true "executor-0" ∧ ¬ T.trusts 30 false "executor-0" := by
  obtain ⟨T, hrun, hslot, htrusts⟩ := Lib.Run.exists_of_actions (LeaseTable.step (ρ := Bool) 30) { clock := 0 }
    [.seedSlot "executor" 0, .acquire false [] 1, .heartbeat false 11, .acquire true [] 41, .acquire true [] 42]
    (fun T => (T.leases false).map Lease.slotId = some "executor-0" ∧ T.trusts 30 true "executor-0") (by decide +kernel)
  refine ⟨T, hslot, htrusts, fun h => ?_⟩
  cases (lease_excludes 30 hrun htrusts).2 false h

end LlamaAgents
