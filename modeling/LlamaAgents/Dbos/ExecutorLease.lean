import Mathlib.Data.List.Sort
import LlamaAgents.Events
import LlamaAgents.Lib.Dict

/-!
# Executor leases

`executor_lease.py`: the processes of a deployment share a table of slots, of which each leases one. Heartbeats may be late or fail, and
a process may stop anywhere; a slot whose heartbeat is older than the timeout is leased again.
-/

namespace LlamaAgents

open Lib (Dict)

/-- A row of `executor_leases`, under the id of its slot. -/
structure LeaseRow (ρ : Type) where
  holder : Option ρ := none
  heartbeatAt : Option Time := none

/-- The lease of a manager, whether a heartbeat has found it lost, and the time that the manager has last written to the row, which the
source does not keep. -/
structure Lease where
  slotId : String
  lost : Bool := false
  confirmedAt : Time

/-- The table, the leases of the managers, and the latest time that the database has shown. -/
structure LeaseTable (ρ : Type) where
  rows : Dict String (LeaseRow ρ) := ∅
  leases : ρ → Option Lease := fun _ => none
  clock : Time

/-- What a manager does, in one statement or transaction at the time that the database shows it. Rows that others have locked are
skipped. -/
inductive LeaseAction (ρ : Type) where
  | seedSlot (slotPrefix : String) (i : Nat)
  | acquire (holder : ρ) (locked : List String) (now : Time)
  | heartbeat (holder : ρ) (now : Time)
  | release (holder : ρ) (now : Time)

variable {ρ : Type} [DecidableEq ρ] (leaseTimeout : Time)

/-- Whether a row can be leased. -/
def LeaseRow.isFree (now : Time) (row : LeaseRow ρ) : Bool :=
  row.holder.isNone || row.heartbeatAt.any fun t => t < now - leaseTimeout

namespace LeaseTable

variable (T : LeaseTable ρ)

/-- The row of a slot that a manager holds. -/
def heldBy (r : ρ) (slotId : String) : Option (LeaseRow ρ) := (T.rows.get? slotId).filter fun row => row.holder = some r

/-- A manager writes to a slot, if it has found the row, and goes on with a lease or none. -/
def write (r : ρ) (now : Time) (slotId : String) (row : Option (LeaseRow ρ)) (lease : Option Lease) : LeaseTable ρ :=
  { rows := row.elim T.rows (T.rows.set slotId)
    leases := Function.update T.leases r lease
    clock := max T.clock now }

/-- The state after an action. -/
def step : LeaseAction ρ → Option (LeaseTable ρ)
  | .seedSlot slotPrefix i =>
    let slotId := slotPrefix ++ "-" ++ toString i
    if T.rows.contains slotId then some T else some { T with rows := T.rows.set slotId {} }
  | .acquire r locked now =>
    match (T.rows.entries.insertionSort fun a b => a.1 ≤ b.1).find? fun e => e.2.isFree leaseTimeout now && !locked.contains e.1 with
    | none => some { T with clock := max T.clock now }
    | some (slotId, _) => some (T.write r now slotId (some ⟨some r, some now⟩) (some { slotId := slotId, confirmedAt := now }))
  | .heartbeat r now =>
    ((T.leases r).filter fun lease => !lease.lost).map fun lease =>
      match T.heldBy r lease.slotId with
      | none => T.write r now lease.slotId none (some { lease with lost := true })
      | some row => T.write r now lease.slotId (some { row with heartbeatAt := some now }) (some { lease with confirmedAt := now })
  | .release r now =>
    (T.leases r).map fun lease => T.write r now lease.slotId ((T.heldBy r lease.slotId).map fun _ => {}) none

/-- Whether a manager has a lease of a slot that it has confirmed no longer ago than the timeout. -/
def trusts (r : ρ) (slotId : String) : Bool :=
  (T.leases r).any fun lease => lease.slotId = slotId && T.clock ≤ lease.confirmedAt + leaseTimeout

end LeaseTable

end LlamaAgents
