import LlamaAgents.Lib.AsyncLock
import LlamaAgents.Lib.Dict
import LlamaAgents.Lib.Run

/-!
# Keyed locks

`_keyed_lock.py`: a lock for each key that is in use. A call registers its interest under the main lock, takes the key's lock, runs
its body, gives the lock back, and deregisters under the main lock. What a coroutine does between two points where it sleeps is one
action. It sleeps where a lock is taken, and its body may sleep; it can be cancelled wherever it sleeps.
-/

namespace LlamaAgents

open Lib (Dict AsyncLock)

/-- Where a coroutine sleeps in a call, and the lock object whose `__aenter__` it has called. -/
inductive LockPlace (κ : Type) where
  | entering (key : κ)
  | waiting (key : κ) (lock : Nat)
  | inside (key : κ) (lock : Nat)
  | leaving (key : κ)
deriving DecidableEq, Repr

/-- The key of the call. -/
def LockPlace.key {κ : Type} : LockPlace κ → κ
  | entering k | waiting k _ | inside k _ | leaving k => k

/-- `KeyedLock`, the lock objects that were created, and the coroutines that are in a call. -/
structure KeyedLock (κ τ : Type) where
  mainLock : AsyncLock τ := {}
  locks : Dict κ Nat := ∅
  refs : Dict κ Int := ∅
  objects : Nat → AsyncLock τ := fun _ => {}
  created : Nat := 0
  coroutines : Dict τ (LockPlace κ) := ∅

/-- What a coroutine does next: it calls, it runs after it has slept on a lock, its body ends (it returns, raises or is cancelled);
or it is cancelled while it sleeps on a lock. -/
inductive LockAction (κ τ : Type) where
  | call (t : τ) (key : κ)
  | resume (t : τ)
  | exit (t : τ)
  | cancel (t : τ)
deriving DecidableEq, Repr

namespace KeyedLock

variable {κ τ : Type} [DecidableEq κ] [DecidableEq τ] (S : KeyedLock κ τ)

/-- A coroutine sleeps. -/
def place (t : τ) (p : LockPlace κ) : KeyedLock κ τ := { S with coroutines := S.coroutines.set t p }

/-- The call of a coroutine is over. -/
def finished (t : τ) : KeyedLock κ τ := { S with coroutines := S.coroutines.erase t }

/-- A lock object changes. -/
def setObject (o : Nat) (l : AsyncLock τ) : KeyedLock κ τ := { S with objects := Function.update S.objects o l }

/-- The first block under the main lock: a lock for a new key, and one more that refers to it. -/
def register (k : κ) : KeyedLock κ τ :=
  let S := if S.locks.contains k then S
    else { S.setObject S.created {} with locks := S.locks.set k S.created, refs := S.refs.set k 0, created := S.created + 1 }
  { S with refs := S.refs.set k ((S.refs.get? k).getD 0 + 1) }

/-- The second block under the main lock: one less, and nothing when it was the last. There is no count without a `KeyError`. -/
def deregister (k : κ) : KeyedLock κ τ :=
  match S.refs.get? k with
  | none => S
  | some n =>
    if n - 1 = 0 then { S with locks := S.locks.erase k, refs := S.refs.erase k } else { S with refs := S.refs.set k (n - 1) }

/-- Give the main lock back. -/
def releaseMain : KeyedLock κ τ := { S with mainLock := S.mainLock.release.getD S.mainLock }

/-- The `finally` clause: sleep on the main lock, or deregister. -/
def leave (t : τ) (k : κ) : KeyedLock κ τ :=
  match S.mainLock.acquire t with
  | (true, l) => ((({ S with mainLock := l } : KeyedLock κ τ).deregister k).releaseMain).finished t
  | (false, l) => ({ S with mainLock := l } : KeyedLock κ τ).place t (.leaving k)

/-- Take the key's lock: enter the body, or sleep. A key that is not there would raise into the `finally` clause. -/
def enter (t : τ) (k : κ) : KeyedLock κ τ :=
  match S.locks.get? k with
  | none => S.leave t k
  | some o =>
    match (S.objects o).acquire t with
    | (true, l) => (S.setObject o l).place t (.inside k o)
    | (false, l) => (S.setObject o l).place t (.waiting k o)

/-- With the main lock taken: register, give it back, and go on to the key's lock. -/
def registered (t : τ) (k : κ) : KeyedLock κ τ := ((S.register k).releaseMain).enter t k

/-- The effect of an action, if it can happen. -/
def step : LockAction κ τ → Option (KeyedLock κ τ)
  | .call t k =>
    if S.coroutines.contains t then none
    else match S.mainLock.acquire t with
      | (true, l) => some (({ S with mainLock := l } : KeyedLock κ τ).registered t k)
      | (false, l) => some (({ S with mainLock := l } : KeyedLock κ τ).place t (.entering k))
  | .resume t =>
    match S.coroutines.get? t with
    | some (.entering k) => (S.mainLock.resume t).map fun r =>
        let S := { S with mainLock := r.2 }
        if r.1 then S.registered t k else S.finished t
    | some (.waiting k o) => ((S.objects o).resume t).map fun r =>
        let S := S.setObject o r.2
        if r.1 then S.place t (.inside k o) else S.leave t k
    | some (.leaving k) => (S.mainLock.resume t).map fun r =>
        let S := { S with mainLock := r.2 }
        if r.1 then (S.deregister k).releaseMain.finished t else S.finished t
    | _ => none
  | .exit t =>
    match S.coroutines.get? t with
    | some (.inside k o) => some ((S.setObject o ((S.objects o).release.getD (S.objects o))).leave t k)
    | _ => none
  | .cancel t =>
    match S.coroutines.get? t with
    | some (.entering _) | some (.leaving _) => some { S with mainLock := S.mainLock.cancel t }
    | some (.waiting _ o) => some (S.setObject o ((S.objects o).cancel t))
    | _ => none

/-- Whether a coroutine holds a key's lock. -/
def Holds (t : τ) (k : κ) (o : Nat) : Prop := S.coroutines.get? t = some (.inside k o)

/-- Whether a coroutine waits for a key's lock. -/
def WaitsFor (t : τ) (k : κ) (o : Nat) : Prop := S.coroutines.get? t = some (.waiting k o)

end KeyedLock

end LlamaAgents
