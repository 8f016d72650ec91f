import LlamaAgents.Server.KeyedLock

/-!
# Keyed locks exclude and leave nothing behind

The main lock is given back before its holder sleeps, so that nobody ever sleeps on it, and the two blocks under it are atomic. The
invariant counts the coroutines that refer to a key; a coroutine between two places, which is in none of the maps, is counted apart.
-/

namespace LlamaAgents

open Lib (Dict AsyncLock)

namespace KeyedLockAux

open KeyedLock

variable {κ τ : Type} [DecidableEq κ] [DecidableEq τ] {S : KeyedLock κ τ} {t : τ} {k : κ} {p : LockPlace κ} {o : Nat}
  {extra : Option κ}

/-- The number of coroutines in a call with a key. -/
def users (S : KeyedLock κ τ) (k : κ) : Nat := S.coroutines.values.countP fun p => decide (p.key = k)

/-- The count that the map has for a number of users. -/
def tally (n : Nat) : Option Int := if n = 0 then none else some n

/-- What holds whenever no coroutine runs, or when one runs that is registered for the key `extra` and at no place. -/
structure Sound (S : KeyedLock κ τ) (extra : Option κ) : Prop where
  main : S.mainLock = {}
  placed : ∀ t p, S.coroutines.get? t = some p → ∃ o, S.locks.get? p.key = some o ∧ (p = .waiting p.key o ∨ p = .inside p.key o)
  distinct : ∀ k k' o, S.locks.get? k = some o → S.locks.get? k' = some o → k = k'
  created : ∀ k o, S.locks.get? k = some o → o < S.created
  counted : ∀ k, S.refs.get? k = tally (users S k + if extra = some k then 1 else 0)
  same : ∀ k, S.locks.contains k = S.refs.contains k
  objects : ∀ o, (S.objects o).Sound
  locked : ∀ t k o, S.Holds t k o → (S.objects o).locked = true
  exclusive : ∀ t u k o, S.Holds t k o → S.Holds u k o → t = u

theorem start_sound : Sound ({} : KeyedLock κ τ) none :=
  ⟨rfl, nofun, nofun, nofun, fun _ => rfl, fun _ => rfl, fun _ => AsyncLock.sound_empty, nofun, nofun⟩

/-! ## Counting -/

theorem users_eq (S : KeyedLock κ τ) (t : τ) (k : κ) : users S k = (S.coroutines.valuesExcept t).countP (fun p => decide (p.key = k)) +
    (S.coroutines.get? t).elim 0 fun p => if p.key = k then 1 else 0 := by
  rw [users, S.coroutines.countP_values _ t]
  cases S.coroutines.get? t <;> simp [List.countP_singleton]

theorem users_place_new (h : S.coroutines.get? t = none) (p : LockPlace κ) (k : κ) :
    users (S.place t p) k = users S k + if p.key = k then 1 else 0 := by
  rw [users_eq _ t, users_eq S t, place, Dict.valuesExcept_set, Dict.get?_set_self, h]
  rfl

theorem users_place_old {p q : LockPlace κ} (h : S.coroutines.get? t = some q) (hkey : p.key = q.key) (k : κ) :
    users (S.place t p) k = users S k := by
  rw [users_eq _ t, users_eq S t, place, Dict.valuesExcept_set, Dict.get?_set_self, h, Option.elim_some, Option.elim_some, hkey]

theorem users_over (h : S.coroutines.get? t = some p) (k : κ) :
    users S k = users (S.finished t) k + if p.key = k then 1 else 0 := by
  rw [users_eq S t, users_eq _ t, finished, Dict.valuesExcept_erase, Dict.get?_erase_self, h]
  rfl

/-- A key with a lock is one with a count. -/
theorem Sound.contains_iff (h : Sound S extra) (k : κ) :
    S.locks.contains k = true ↔ users S k + (if extra = some k then 1 else 0) ≠ 0 := by
  rw [h.same, Dict.contains, h.counted, tally]
  split
  · simp
  · simp

/-- A coroutine in a call with a key is one of its users. -/
theorem users_pos (h : S.coroutines.get? t = some p) : users S p.key ≠ 0 := by
  rw [users_over h, if_pos rfl]
  exact Nat.succ_ne_zero _

/-- The lock that a coroutine holds is the key's. -/
theorem Sound.holds (h : Sound S extra) (ht : S.Holds t k o) : S.locks.get? k = some o := by
  obtain ⟨o', ho', hcases⟩ := h.placed t _ ht
  rcases hcases with hcases | hcases <;> cases hcases
  exact ho'

/-- The lock that a coroutine waits for is the key's. -/
theorem Sound.waitsFor (h : Sound S extra) (ht : S.WaitsFor t k o) : S.locks.get? k = some o := by
  obtain ⟨o', ho', hcases⟩ := h.placed t _ ht
  rcases hcases with hcases | hcases <;> cases hcases
  exact ho'

/-! ## The main lock -/

/-- Nobody sleeps on a main lock that nobody holds: the `finally` clause runs through. -/
theorem leave_eq (h : S.mainLock = {}) (t : τ) (k : κ) : S.leave t k = (S.finished t).deregister k := by
  cases S with
  | mk mainLock locks refs objects created coroutines =>
    cases h
    rw [leave]
    show ((deregister _ k).releaseMain).finished t = _
    simp only [deregister, finished]
    split
    · rfl
    · split <;> rfl

/-- Likewise a call runs through to the key's lock. -/
theorem registered_eq (h : S.mainLock = {}) (t : τ) (k : κ) :
    ({ S with mainLock := { locked := true } } : KeyedLock κ τ).registered t k = (S.register k).enter t k := by
  cases S with
  | mk mainLock locks refs objects created coroutines =>
    cases h
    rw [registered]
    congr 1
    simp only [register, setObject]
    split <;> rfl

/-! ## Parts of an action -/

/-- Registering for a key that has a lock counts the coroutine that runs. -/
theorem Sound.register_old (h : Sound S none) {k : κ} (hk : S.locks.contains k = true) : Sound (S.register k) (some k) := by
  have hcounted : ∀ k', S.refs.get? k' = tally (users S k') := fun k' => by simpa using h.counted k'
  have huser : users S k ≠ 0 := by simpa using (h.contains_iff k).1 hk
  rw [KeyedLock.register, if_pos hk]
  refine ⟨h.main, h.placed, h.distinct, h.created, fun k' => ?_, fun k' => ?_, h.objects, h.locked, h.exclusive⟩
  · rw [Dict.get?_set]
    split
    · case isTrue heq =>
      subst heq
      rw [if_pos rfl, hcounted, tally, if_neg huser, tally, if_neg (Nat.succ_ne_zero _)]
      rfl
    · case isFalse hne =>
      rw [if_neg fun heq => hne (Option.some.inj heq), hcounted]
      rfl
  · rw [h.same, Dict.contains, Dict.contains, Dict.get?_set]
    split
    · case isTrue heq =>
      subst heq
      rw [hcounted, tally, if_neg huser]
      rfl
    · rfl

/-- Registering for a key that has none gives it a new lock. -/
theorem Sound.register_new (h : Sound S none) {k : κ} (hk : S.locks.contains k = false) : Sound (S.register k) (some k) := by
  have hcounted : ∀ k', S.refs.get? k' = tally (users S k') := fun k' => by simpa using h.counted k'
  have hnone : S.locks.get? k = none := by simpa [Dict.contains] using hk
  have hkey : ∀ {k' : κ} {o : Nat}, S.locks.get? k' = some o → k ≠ k' := by
    rintro k' o hk' rfl
    rw [hnone] at hk'
    cases hk'
  have huser : users S k = 0 := by
    by_contra huser
    rw [(h.contains_iff k).2 (by simpa using huser)] at hk
    cases hk
  rw [KeyedLock.register, if_neg (by rw [hk]; exact Bool.false_ne_true)]
  refine ⟨h.main, fun t p hp => ?_, fun k₁ k₂ o h₁ h₂ => ?_, fun k' o ho => ?_, fun k' => ?_, fun k' => ?_, fun o => ?_,
    fun t k' o ho => ?_, h.exclusive⟩
  · obtain ⟨o, ho, hcases⟩ := h.placed t p hp
    exact ⟨o, by rw [Dict.get?_set, if_neg (hkey ho)]; exact ho, hcases⟩
  · rw [Dict.get?_set] at h₁ h₂
    split at h₁ <;> split at h₂
    · case isTrue.isTrue e₁ e₂ => rw [← e₁, ← e₂]
    · cases h₁
      exact absurd (h.created _ _ h₂) (Nat.lt_irrefl _)
    · cases h₂
      exact absurd (h.created _ _ h₁) (Nat.lt_irrefl _)
    · exact h.distinct _ _ _ h₁ h₂
  · rw [Dict.get?_set] at ho
    split at ho
    · cases ho
      exact Nat.lt_succ_self _
    · exact (h.created _ _ ho).trans (Nat.lt_succ_self _)
  · show ((S.refs.set k 0).set k _).get? k' = tally (users S k' + _)
    rw [Dict.set_set, Dict.get?_set_self, Dict.get?_set]
    split
    · case isTrue heq =>
      subst heq
      rw [if_pos rfl, huser]
      rfl
    · case isFalse hne => rw [if_neg fun heq => hne (Option.some.inj heq), hcounted, Nat.add_zero]
  · show (S.locks.set k _).contains k' = ((S.refs.set k 0).set k _).contains k'
    rw [Dict.set_set, Dict.contains, Dict.contains, Dict.get?_set, Dict.get?_set]
    split
    · rfl
    · exact h.same k'
  · show AsyncLock.Sound (Function.update S.objects S.created {} o)
    rw [Function.update_apply]
    split
    · exact AsyncLock.sound_empty
    · exact h.objects o
  · show AsyncLock.locked (Function.update S.objects S.created {} o) = true
    rw [Function.update_of_ne (Nat.ne_of_lt (h.created _ _ (h.holds ho)))]
    exact h.locked t k' o ho

/-- Registering counts the coroutine that runs. -/
theorem Sound.register (h : Sound S none) (k : κ) : Sound (S.register k) (some k) := by
  cases hk : S.locks.contains k with
  | true => exact h.register_old hk
  | false => exact h.register_new hk

/-- A coroutine that ends its call is no longer at a place, and still counts. -/
theorem Sound.finished (h : Sound S none) (hp : S.coroutines.get? t = some p) : Sound (S.finished t) (some p.key) := by
  have hget : ∀ {u : τ} {q : LockPlace κ}, (S.coroutines.erase t).get? u = some q → S.coroutines.get? u = some q := by
    intro u q hq
    rw [Dict.get?_erase] at hq
    split at hq
    · cases hq
    · exact hq
  refine ⟨h.main, fun u q hq => h.placed u q (hget hq), h.distinct, h.created, fun k => ?_, h.same, h.objects,
    fun u k o ho => h.locked u k o (hget ho), fun u v k o hu hv => h.exclusive u v k o (hget hu) (hget hv)⟩
  have hcounted := h.counted k
  rw [users_over hp] at hcounted
  show S.refs.get? k = _
  simpa using hcounted

/-- A lock object may change, if it stays sound and locked for the one that holds it. -/
theorem Sound.setObject (h : Sound S extra) {l : AsyncLock τ} (hl : l.Sound)
    (hlocked : ∀ t k, S.Holds t k o → l.locked = true) : Sound (S.setObject o l) extra := by
  refine ⟨h.main, h.placed, h.distinct, h.created, h.counted, h.same, fun o' => ?_, fun t k o' ho' => ?_, h.exclusive⟩
  · show AsyncLock.Sound (Function.update S.objects o l o')
    rw [Function.update_apply]
    split
    · exact hl
    · exact h.objects o'
  · show AsyncLock.locked (Function.update S.objects o l o') = true
    rw [Function.update_apply]
    split
    · case isTrue heq => exact hlocked t k (heq ▸ ho')
    · exact h.locked t k o' ho'

/-- Deregistering stops counting the coroutine that runs, and removes a lock that nobody refers to. -/
theorem Sound.deregister (h : Sound S (some k)) : Sound (S.deregister k) none := by
  have hcount : S.refs.get? k = some ((users S k + 1 : Nat) : Int) := by
    rw [h.counted, if_pos rfl, tally, if_neg (Nat.succ_ne_zero _)]
  have hother : ∀ {k' : κ}, k ≠ k' → S.refs.get? k' = tally (users S k') := by
    intro k' hne
    rw [h.counted, if_neg fun heq => hne (Option.some.inj heq), Nat.add_zero]
  rw [KeyedLock.deregister, hcount]
  dsimp only
  split
  · case isTrue hlast =>
    have huser : users S k = 0 := by omega
    have hused : ∀ {t : τ} {p : LockPlace κ}, S.coroutines.get? t = some p → k ≠ p.key := by
      rintro t p hp rfl
      exact users_pos hp huser
    have hget : ∀ {k' : κ} {o : Nat}, (S.locks.erase k).get? k' = some o → S.locks.get? k' = some o := by
      intro k' o ho
      rw [Dict.get?_erase] at ho
      split at ho
      · cases ho
      · exact ho
    refine ⟨h.main, fun t p hp => ?_, fun k₁ k₂ o h₁ h₂ => h.distinct k₁ k₂ o (hget h₁) (hget h₂),
      fun k' o ho => h.created k' o (hget ho),
      fun k' => ?_, fun k' => ?_, h.objects, h.locked, h.exclusive⟩
    · obtain ⟨o, ho, hcases⟩ := h.placed t p hp
      exact ⟨o, by rw [Dict.get?_erase, if_neg (hused hp)]; exact ho, hcases⟩
    · show (S.refs.erase k).get? k' = tally (users S k' + 0)
      rw [Dict.get?_erase]
      split
      · case isTrue heq => rw [← heq, huser]; rfl
      · case isFalse hne => exact hother hne
    · rw [Dict.contains, Dict.contains, Dict.get?_erase, Dict.get?_erase]
      split
      · rfl
      · exact h.same k'
  · case isFalse hlast =>
    have huser : users S k ≠ 0 := by omega
    refine ⟨h.main, h.placed, h.distinct, h.created, fun k' => ?_, fun k' => ?_, h.objects, h.locked, h.exclusive⟩
    · show (S.refs.set k _).get? k' = tally (users S k' + 0)
      rw [Dict.get?_set]
      split
      · case isTrue heq =>
        subst heq
        rw [tally, if_neg (by omega)]
        congr 1
        omega
      · case isFalse hne => exact hother hne
    · rw [h.same, Dict.contains, Dict.contains, Dict.get?_set]
      split
      · case isTrue heq =>
        subst heq
        rw [hcount]
        rfl
      · rfl

/-- The coroutine that runs comes to a place at the key's lock. -/
theorem Sound.place_new (h : Sound S (some k)) (ht : S.coroutines.get? t = none)
    (hk : S.locks.get? k = some o) (hp : p = .waiting k o ∨ p = .inside k o ∧ (S.objects o).locked = true ∧
      ∀ u, ¬ S.Holds u k o) : Sound (S.place t p) none := by
  have hkey : p.key = k := by rcases hp with rfl | ⟨rfl, -⟩ <;> rfl
  have hget : ∀ {u : τ} {q : LockPlace κ}, (S.coroutines.set t p).get? u = some q → t = u ∧ p = q ∨ S.coroutines.get? u = some q := by
    intro u q hq
    rw [Dict.get?_set] at hq
    split at hq
    · case isTrue heq => exact Or.inl ⟨heq, Option.some.inj hq⟩
    · exact Or.inr hq
  refine ⟨h.main, fun u q hq => ?_, h.distinct, h.created, fun k' => ?_, h.same, h.objects, fun u k' o' hu => ?_, fun u v k' o' hu hv => ?_⟩
  · rcases hget hq with ⟨-, rfl⟩ | hq
    · rw [hkey]
      exact ⟨o, hk, hp.imp_right And.left⟩
    · exact h.placed u q hq
  · rw [users_place_new ht, hkey]
    show S.refs.get? k' = _
    rw [h.counted]
    simp
  · rcases hget hu with ⟨-, heq⟩ | hu
    · rcases hp with rfl | ⟨rfl, hlocked, -⟩ <;> cases heq
      exact hlocked
    · exact h.locked u k' o' hu
  · rcases hget hu with ⟨rfl, heq⟩ | hu' <;> rcases hget hv with ⟨rfl, heq⟩ | hv'
    · rfl
    · rcases hp with rfl | ⟨rfl, -, hfree⟩ <;> cases heq
      exact absurd hv' (hfree v)
    · rcases hp with rfl | ⟨rfl, -, hfree⟩ <;> cases heq
      exact absurd hu' (hfree u)
    · exact h.exclusive u v k' o' hu' hv'

/-- A coroutine that goes from one place to another has left the first. -/
theorem Sound.replace {p q : LockPlace κ} (hq : S.coroutines.get? t = some q) (hkey : p.key = q.key)
    (h : Sound ((S.finished t).place t p) none) : Sound (S.place t p) none := by
  have hget : ∀ u, ((S.coroutines.erase t).set t p).get? u = (S.coroutines.set t p).get? u := by
    intro u
    rw [Dict.get?_set, Dict.get?_set]
    split
    · rfl
    · case isFalse hne => exact Dict.get?_erase_ne _ (Ne.symm hne)
  refine ⟨h.main, fun u r hr => h.placed u r ((hget u).trans hr), h.distinct, h.created, fun k' => ?_, h.same, h.objects,
    fun u k' o hu => h.locked u k' o ((hget u).trans hu),
    fun u v k' o hu hv => h.exclusive u v k' o ((hget u).trans hu) ((hget v).trans hv)⟩
  have hcounted := h.counted k'
  rw [users_place_new (Dict.get?_erase_self _ _), hkey, ← users_over hq] at hcounted
  rw [users_place_old hq hkey]
  exact hcounted

/-! ## Actions -/

/-- The end of a call, after the lock object was given back or given up. -/
theorem Sound.leave {l : AsyncLock τ} (h : Sound S none) (hp : S.coroutines.get? t = some p) (hl : l.Sound)
    (hlocked : ∀ u k, u ≠ t → S.Holds u k o → l.locked = true) : Sound ((S.setObject o l).leave t p.key) none := by
  rw [leave_eq (S := S.setObject o l) h.main]
  refine Sound.deregister ((h.finished hp).setObject hl fun u k hu => ?_)
  have hne : u ≠ t := by
    rintro rfl
    rw [Holds, KeyedLock.finished, Dict.get?_erase_self] at hu
    cases hu
  refine hlocked u k hne ?_
  rw [Holds, KeyedLock.finished, Dict.get?_erase_ne _ hne] at hu
  exact hu

/-- A coroutine that takes the lock is the only one that holds it. -/
theorem Sound.enter (h : Sound S (some k)) (ht : S.coroutines.get? t = none) : Sound (S.enter t k) none := by
  have hcontains : S.locks.contains k = true := (h.contains_iff k).2 (by simp)
  obtain ⟨o, ho⟩ := Option.isSome_iff_exists.1 hcontains
  rw [KeyedLock.enter, ho]
  dsimp only
  obtain ⟨hsound, hcases⟩ := AsyncLock.acquire_spec (h.objects o) t
  rcases hacquire : (S.objects o).acquire t with ⟨taken, l⟩
  rw [hacquire] at hsound hcases
  rcases hcases with ⟨htaken, hfree, hlocked⟩ | ⟨htaken, hlocked⟩
  · cases htaken
    have hnone : ∀ u k', ¬ S.Holds u k' o := by
      intro u k' hu
      rw [h.locked u k' o hu] at hfree
      cases hfree
    have hset := h.setObject hsound fun u k' hu => absurd hu (hnone u k')
    refine hset.place_new ht ho (Or.inr ⟨rfl, ?_, fun u hu => hnone u k hu⟩)
    show AsyncLock.locked (Function.update S.objects o l o) = true
    rw [Function.update_self]
    exact hlocked
  · cases htaken
    have hset := h.setObject hsound fun u k' hu => hlocked.trans (h.locked u k' o hu)
    exact hset.place_new ht ho (Or.inl rfl)

/-- A coroutine that runs after it has waited for a key's lock. -/
theorem Sound.resume {l : AsyncLock τ} {taken : Bool} (h : Sound S none) (ht : S.WaitsFor t k o)
    (hl : (S.objects o).resume t = some (taken, l)) :
    Sound (if taken then (S.setObject o l).place t (.inside k o) else (S.setObject o l).leave t k) none := by
  obtain ⟨hsound, ⟨rfl, hfree, hlocked⟩ | ⟨rfl, hlocked⟩⟩ := AsyncLock.resume_spec (h.objects o) hl
  · have hnone : ∀ u k', ¬ S.Holds u k' o := by
      intro u k' hu
      rw [h.locked u k' o hu] at hfree
      cases hfree
    have hset := h.setObject hsound fun u k' hu => absurd hu (hnone u k')
    have hover : Sound ((S.setObject o l).finished t) (some k) := hset.finished ht
    rw [if_pos rfl]
    refine Sound.replace (q := .waiting k o) ht rfl (hover.place_new (Dict.get?_erase_self _ _) (h.waitsFor ht) (Or.inr ⟨rfl, ?_, ?_⟩))
    · show AsyncLock.locked (Function.update S.objects o l o) = true
      rw [Function.update_self]
      exact hlocked
    · intro u hu
      rw [Holds, KeyedLock.finished, Dict.get?_erase] at hu
      split at hu
      · cases hu
      · exact hnone u k hu
  · rw [if_neg Bool.false_ne_true]
    exact h.leave ht hsound fun u k' _ hu => hlocked.trans (h.locked u k' o hu)

/-- A body ends, and its coroutine gives the lock back. -/
theorem Sound.exit (h : Sound S none) (ht : S.Holds t k o) :
    Sound ((S.setObject o ((S.objects o).release.getD (S.objects o))).leave t k) none := by
  have hlocked := h.locked t k o ht
  cases hrelease : (S.objects o).release with
  | none => rw [AsyncLock.release, if_pos hlocked] at hrelease; cases hrelease
  | some l =>
    obtain ⟨hsound, -, -⟩ := AsyncLock.release_spec (h.objects o) hrelease
    refine h.leave ht hsound fun u k' hne hu => ?_
    have hkey : k = k' := h.distinct k k' o (h.holds ht) (h.holds hu)
    exact absurd (h.exclusive u t k o (hkey ▸ hu) ht) hne

/-- Nobody sleeps on the main lock. -/
theorem Sound.not_main (h : Sound S none) (hp : S.coroutines.get? t = some (.entering k) ∨ S.coroutines.get? t = some (.leaving k)) :
    False := by
  rcases hp with hp | hp
  · obtain ⟨o, -, hcases | hcases⟩ := h.placed t _ hp <;> cases hcases
  · obtain ⟨o, -, hcases | hcases⟩ := h.placed t _ hp <;> cases hcases

/-- A call runs through to the key's lock. -/
theorem Sound.call (h : Sound S none) (ht : S.coroutines.get? t = none) (k : κ) : Sound ((S.register k).enter t k) none := by
  have hsame : (S.register k).coroutines = S.coroutines := by
    rw [KeyedLock.register]
    split <;> rfl
  exact (h.register k).enter (by rw [hsame]; exact ht)

/-- Every action keeps what holds. -/
theorem step_sound {T : KeyedLock κ τ} {a : LockAction κ τ} (h : Sound S none) (hs : S.step a = some T) : Sound T none := by
  cases a with
  | call t k =>
    rw [step] at hs
    split at hs
    · cases hs
    · case isFalse hnew =>
      rw [h.main] at hs
      have ht : S.coroutines.get? t = none := by simpa [Dict.contains] using hnew
      have hcall := h.call ht k
      rw [← registered_eq h.main t k] at hcall
      exact Option.some.inj hs ▸ hcall
  | resume t =>
    rw [step] at hs
    split at hs
    · case h_1 k hp => exact (h.not_main (Or.inl hp)).elim
    · case h_2 k o hp =>
      obtain ⟨⟨taken, l⟩, hl, rfl⟩ := Option.map_eq_some_iff.1 hs
      exact h.resume hp hl
    · case h_3 k hp => exact (h.not_main (Or.inr hp)).elim
    · cases hs
  | exit t =>
    rw [step] at hs
    split at hs
    · case h_1 k o hp =>
      cases hs
      exact h.exit hp
    · cases hs
  | cancel t =>
    rw [step] at hs
    split at hs
    · case h_1 k hp => exact (h.not_main (Or.inl hp)).elim
    · case h_2 k hp => exact (h.not_main (Or.inr hp)).elim
    · case h_3 k o hp =>
      cases hs
      exact h.setObject ((h.objects o).cancel t) fun u k' hu => h.locked u k' o hu
    · cases hs

end KeyedLockAux

open KeyedLockAux

variable {κ τ : Type} [DecidableEq κ] [DecidableEq τ]

/-- Keyed locks exclude and leave nothing behind. In every state of every run, with any number of coroutines and keys and
cancellations wherever a coroutine sleeps: (1) at most one coroutine is inside the critical section of a key; (2) the lock object of
a key that a coroutine holds or waits for is the one in the map; (3) and a key has an entry in the two maps exactly while some
coroutine holds its lock or waits for it. -/
theorem keyed_lock_excludes {S : KeyedLock κ τ} (hrun : Lib.Run KeyedLock.step (fun _ _ => True) {} S) :
    (∀ t u k o o', S.Holds t k o → S.Holds u k o' → t = u) ∧
    (∀ t k o, S.Holds t k o ∨ S.WaitsFor t k o → S.locks.get? k = some o) ∧
    ∀ k, (S.locks.contains k = true ↔ ∃ t o, S.Holds t k o ∨ S.WaitsFor t k o) ∧
      (S.refs.contains k = true ↔ ∃ t o, S.Holds t k o ∨ S.WaitsFor t k o) := by
  have h : Sound S none := hrun.invariant (Sound · none) start_sound fun _ _ _ h _ hs => step_sound h hs
  have hused : ∀ k, S.locks.contains k = true ↔ ∃ t o, S.Holds t k o ∨ S.WaitsFor t k o := by
    intro k
    constructor
    · intro hk
      have huser : users S k ≠ 0 := by simpa using (h.contains_iff k).1 hk
      obtain ⟨p, hp, hkey⟩ := List.countP_pos_iff.1 (Nat.pos_of_ne_zero huser)
      obtain ⟨⟨t, q⟩, hq, rfl⟩ := List.mem_map.1 hp
      have ht := (S.coroutines.get?_eq_some_iff t q).2 hq
      obtain ⟨o, -, hcases⟩ := h.placed t q ht
      rw [of_decide_eq_true hkey] at hcases
      rcases hcases with rfl | rfl
      · exact ⟨t, o, Or.inr ht⟩
      · exact ⟨t, o, Or.inl ht⟩
    · rintro ⟨t, o, ht | ht⟩
      · rw [Dict.contains, h.holds ht]
        rfl
      · rw [Dict.contains, h.waitsFor ht]
        rfl
  refine ⟨fun t u k o o' ht hu => ?_, fun t k o ht => ht.elim h.holds h.waitsFor, fun k => ⟨hused k, ?_⟩⟩
  · have hsame : some o = some o' := (h.holds ht).symm.trans (h.holds hu)
    cases hsame
    exact h.exclusive t u k o ht hu
  · rw [← h.same]
    exact hused k

namespace CancelledWaiters

/-- A coroutine holds a key, two wait for it, the second is woken and cancelled before it runs, and the third is woken in its place. -/
def handedOn : List (LockAction String Nat) :=
  [.call 0 "h", .call 1 "h", .call 2 "h", .exit 0, .cancel 1, .resume 1, .resume 2]

end CancelledWaiters

open CancelledWaiters in
/-- After a cancelled coroutine has passed its turn on, the next one holds the lock that all three came for. -/
theorem keyed_lock_excludes_cancelled : ∃ S : KeyedLock String Nat, S.Holds 2 "h" 0 ∧ S.locks.get? "h" = some 0 ∧
    ∀ u o, S.Holds u "h" o → u = 2 := by
  obtain ⟨S, hrun, hholds⟩ := Lib.Run.exists_of_actions KeyedLock.step ({} : KeyedLock String Nat) handedOn
    (fun S => S.coroutines.get? 2 = some (.inside "h" 0)) (by decide +kernel)
  have h := keyed_lock_excludes hrun
  exact ⟨S, hholds, h.2.1 2 "h" 0 (Or.inl hholds), fun u o hu => h.1 u 2 "h" o 0 hu hholds⟩

end LlamaAgents
