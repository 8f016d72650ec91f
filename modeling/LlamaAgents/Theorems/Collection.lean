import LlamaAgents.Lemmas.CollectItems
import LlamaAgents.Lemmas.Collecting
import LlamaAgents.Lemmas.Workload
import LlamaAgents.Workflow

/-!
# Collection

In every run whose steps only return or raise, however often it is interrupted and resumed, a collect step is invoked exactly
once for each stream, with the members that were routed to it.
-/

namespace LlamaAgents

open Lib (Dict)

/-! ## Runs that are resumed -/

/-- What happens next: something in the run, or it is interrupted and a new run resumes its context, with a start event or without. -/
inductive ResumableAction where
  | loop (action : Action)
  | resume (startEvent : Option Event) (now : Time)

/-- An action in which a step's body, if one runs, only returns or raises. -/
def ResumableAction.isPlain : ResumableAction → Bool
  | loop a => a.isPlain
  | resume _ _ => true

/-- The state of a context that was serialized and restored. The log, which is no part of it, goes on. -/
def BrokerState.resumed (cfg : BrokerConfig) (σ : BrokerState) : BrokerState :=
  { BrokerState.fromSerialized cfg σ.toSerialized with log := σ.log }

namespace Loop

variable (cfg : BrokerConfig) (runId : Option String)

/-- The effect of an action, if it can happen. A run that has not ended is resumed without the ticks that were pending; its journal
goes on. -/
def stepResumable (L : Loop) : ResumableAction → Option Loop
  | .loop a => L.step cfg runId a
  | .resume e now =>
    if L.outcome.isSome then none else some { Loop.start cfg (L.state.resumed cfg) e now with journal := L.journal }

/-- A run, resumed any number of times, in which the bodies of steps only return or raise. -/
abbrev Reaches : Loop → Loop → Prop := Lib.Run (stepResumable cfg runId) fun _ a => a.isPlain

end Loop

namespace CollectingAux

open AccountingAux CommandsAux StepResultAux ResultAux RoutingAux PlainAux CollectItemsAux WorkloadAux

variable {cfg : BrokerConfig} {σ : BrokerState} {R : StreamId → StepId → List Event} {now : Time} {runId : Option String}
  {p : StreamId → Int} {r : BrokerState × List WorkflowCommand}

/-! ## The journal -/

theorem addDelivered_eq (t : TickAddEvent) (R : StreamId → StepId → List Event) {l : List (StepId × StepConfig)}
    (hl : (l.map Prod.fst).Nodup) (s : StreamId) (n : StepId) :
    addDelivered t R l s n = R s n ++ if t.scopePath.getLast? = some s ∧
      ∃ q ∈ l, q.1 = n ∧ (q.2.acceptsEvent t.event && t.isTargeted q.1) then [t.event] else [] := by
  induction l generalizing R with
  | nil => simp [addDelivered]
  | cons q l ih =>
    rw [List.map_cons, List.nodup_cons] at hl
    rw [addDelivered]
    simp only [List.exists_mem_cons_iff]
    by_cases hq : (q.2.acceptsEvent t.event && t.isTargeted q.1) = true
    · rw [if_pos hq, ih _ hl.2, addRouted]
      by_cases hn : n = q.1
      · have hrest : ¬∃ q' ∈ l, q'.1 = n ∧ (q'.2.acceptsEvent t.event && t.isTargeted q'.1) = true := by
          rintro ⟨q', hq', hn', -⟩
          exact hl.1 (List.mem_map.2 ⟨q', hq', hn'.trans hn⟩)
        by_cases hs : t.scopePath.getLast? = some s
        · rw [if_pos ⟨hs, hn⟩, if_neg fun h => hrest h.2, if_pos ⟨hs, Or.inl ⟨hn.symm, hq⟩⟩, List.append_nil]
        · rw [if_neg fun h => hs h.1, if_neg fun h => hs h.1, if_neg fun h => hs h.1]
      · simp only [hn, Ne.symm hn, and_false, false_and, false_or, if_false]
    · rw [if_neg hq, ih _ hl.2]
      simp only [hq, Bool.false_eq_true, and_false, false_or]

theorem deliversTo_iff (t : TickAddEvent) (s : StreamId) (n : StepId) :
    t.deliversTo cfg s n = true ↔ t.scopePath.getLast? = some s ∧
      ∃ q ∈ cfg.steps.entries, q.1 = n ∧ (q.2.acceptsEvent t.event && t.isTargeted q.1) := by
  rw [TickAddEvent.deliversTo, Bool.and_eq_true, Bool.and_eq_true, decide_eq_true_eq, and_assoc, Option.any_eq_true]
  refine and_congr_right fun _ => ?_
  constructor
  · rintro ⟨⟨c, hc, ha⟩, ht⟩
    exact ⟨(n, c), (cfg.steps.get?_eq_some_iff n c).1 hc, rfl, by rw [ha, ht]; rfl⟩
  · rintro ⟨⟨m, c⟩, hq, rfl, ha⟩
    rw [Bool.and_eq_true] at ha
    exact ⟨⟨c, (cfg.steps.get?_eq_some_iff m c).2 hq, ha.1⟩, ha.2⟩

/-- The journal with one tick more. -/
theorem routed_append (J : List WorkflowTick) (t : TickAddEvent) :
    routed cfg (J ++ [.addEvent t]) = addDelivered t (routed cfg J) cfg.steps.entries := by
  funext s n
  rw [addDelivered_eq _ _ cfg.steps.nodup, routed, List.filterMap_append, ← routed]
  congr 1
  by_cases h : t.deliversTo cfg s n = true
  · rw [if_pos ((deliversTo_iff t s n).1 h)]
    simp [h]
  · rw [if_neg fun h' => h ((deliversTo_iff t s n).2 h')]
    simp [h]

/-- A tick that adds no event routes none. -/
theorem routed_append_of_ne (J : List WorkflowTick) {tick : WorkflowTick} (h : ∀ t, tick ≠ .addEvent t) :
    routed cfg (J ++ [tick]) = routed cfg J := by
  funext s n
  rw [routed, List.filterMap_append, ← routed]
  cases tick with
  | addEvent t => exact absurd rfl (h t)
  | _ => exact List.append_nil _

theorem addDelivered_congr {t t' : TickAddEvent} (he : t'.event = t.event) (hs : t'.scopePath = t.scopePath)
    (hi : t'.stepId = t.stepId) (R : StreamId → StepId → List Event) (l : List (StepId × StepConfig)) :
    addDelivered t' R l = addDelivered t R l := by
  induction l generalizing R with
  | nil => rfl
  | cons q l ih =>
    have hadd : addRouted t' q.1 R = addRouted t q.1 R := by
      funext s n
      rw [addRouted, addRouted, he, hs]
    have hcond : (q.2.acceptsEvent t'.event && t'.isTargeted q.1) = (q.2.acceptsEvent t.event && t.isTargeted q.1) := by
      rw [TickAddEvent.isTargeted, TickAddEvent.isTargeted, he, hi]
    simp only [addDelivered, hcond, hadd, ih]

/-! ## Added events -/

theorem exit_of_member_failed {c : StepConfig} {t : TickAddEvent} {n : StepId}
    (h : (routeMemberToCollectStep cfg c t n now σ).failed = true) :
    ∃ d ∈ (routeMemberToCollectStep cfg c t n now σ).commands, d.indicatesExit := by
  unfold routeMemberToCollectStep at h ⊢
  cases hlast : t.scopePath.getLast? with
  | none =>
    simp only [hlast] at h ⊢
    split
    · exact ⟨_, List.mem_cons_of_mem _ List.mem_cons_self, rfl⟩
    · case isFalse hstep =>
      rw [if_neg hstep] at h
      cases h
  | some s =>
    simp only [hlast] at h
    split at h <;> cases h

/-- Routing that fails ends the run. -/
theorem exit_of_failed (t : TickAddEvent) (l : List (StepId × StepConfig))
    (h : (routeToAcceptingSteps cfg t [] now l σ).failed = true) :
    ∃ d ∈ (routeToAcceptingSteps cfg t [] now l σ).commands, d.indicatesExit := by
  induction l generalizing σ with
  | nil => cases h
  | cons q l ih =>
    obtain ⟨n, c⟩ := q
    rw [routeToAcceptingSteps, if_neg (by simp)] at h ⊢
    split
    · case isTrue hno =>
      rw [if_pos hno] at h
      exact ih h
    · case isFalse hno =>
      rw [if_neg hno] at h
      split
      · case isTrue hcol =>
        rw [if_pos hcol] at h
        dsimp only at h ⊢
        split
        · case isTrue hfail =>
          exact exit_of_member_failed hfail
        · case isFalse hfail =>
          rw [if_neg hfail] at h
          obtain ⟨d, hd, hx⟩ := ih h
          exact ⟨d, List.mem_append_right _ hd, hx⟩
      · case isFalse hcol =>
        rw [if_neg hcol] at h
        obtain ⟨d, hd, hx⟩ := ih h
        exact ⟨d, List.mem_append_right _ hd, hx⟩

/-- An added event that lets the run go on is collected where it is due. -/
theorem addEvent_collects {J : List WorkflowTick} {t : TickAddEvent}
    (ht : PlainTick σ.streamSeq (.addEvent t)) (hp : ∀ s, 0 ≤ p s)
    (hs : PlainState cfg σ fun s => p s + (WorkflowTick.addEvent t).pendingIn cfg s) (h : Collects cfg σ (routed cfg J))
    (hr : processAddEventTick cfg t σ now = .ok r)
    (hx : ∀ d ∈ r.2, d.indicatesExit = false) : Collects cfg r.1 (routed cfg (J ++ [.addEvent t])) := by
  obtain ⟨⟨hw, hst, hrel, hseq, hlog⟩, hev, hstep, -, hatt, hscope, hpay⟩ := identifyWorkItem_fields t σ
  generalize hid : identifyWorkItem t σ = r' at hw hst hrel hseq hlog hev hstep hatt hscope hpay
  obtain ⟨σ', t'⟩ := r'
  dsimp only at hw hst hrel hseq hlog hev hstep hatt hscope hpay
  have hwait : ∀ n, (σ'.workers n).collectedWaiters = [] := by
    rw [hw]
    exact hs.waiters
  obtain ⟨hres, hsteps⟩ := resolveWaiters_of_none cfg now hwait t'.event
  have hacc := identified_accounts hs.accounts hid
  have hok : ScopeOk σ'.streamSeq t'.scopePath := by
    rw [hseq, hscope]
    exact ht.2.2
  have hroute := route_collects now hp (collects_of_same h (SameStreams.of_eq hst hrel hlog hseq)) hok (hatt.trans ht.1)
    (fun q hq => (cfg.steps.get?_eq_some_iff _ _).2 hq) hacc
  rw [addDelivered_congr hev hscope hstep, ← routed_append] at hroute
  simp only [processAddEventTick, hid, hpay.trans ht.2.1, hres, hsteps, List.nil_append] at hr
  have hgo : (routeToAcceptingSteps cfg t' [] now cfg.steps.entries σ').failed = false := by
    by_contra hfail
    rw [Bool.not_eq_false] at hfail
    rw [if_pos (by simp [hfail])] at hr
    cases hr
    obtain ⟨d, hd, hx'⟩ := exit_of_failed t' cfg.steps.entries hfail
    rw [hx d hd] at hx'
    cases hx'
  split at hr <;> cases hr <;> exact hroute hgo

/-! ## Results -/

theorem takeThreshold_pos {p : Cardinality} {n : Nat} (h : p.takeThreshold = some n) : 0 < n := by
  cases p with
  | all => cases h
  | take k =>
    cases h
    exact k.pos

/-- A stream that opens has no release yet, and nothing was routed inside it. -/
theorem opened_collects (h : Collects cfg σ R) (ha : Accounts cfg σ p) (hp : ∀ t, 0 ≤ p t) (n : StepId)
    (x : InProgressState) (seed : Nat) : Collects cfg (opened cfg σ n x seed) R := by
  obtain ⟨-, -, -, -, hrel⟩ := fresh_stream ha hp (s := openedStream σ n x) rfl
  have hfresh := h.fresh (openedStream σ n x) le_rfl
  have hinv : ∀ b t, invocations (opened cfg σ n x seed).log b t = invocations σ.log b t := by
    intro b t
    refine (invocations_append _ _ _ _).trans ?_
    exact List.append_nil _
  have hopened : ∀ y t, OpenedBy (opened cfg σ n x seed).log y t → OpenedBy σ.log y t ∨ (y = x ∧ t = openedStream σ n x) := by
    intro y t hy
    refine ((openedBy_append _ _ y t).1 hy).imp id ?_
    rintro ⟨st, hst, rfl⟩
    cases List.mem_singleton.1 hst
    exact ⟨rfl, rfl⟩
  have hget : ∀ t st, (opened cfg σ n x seed).streams.get? t = some st →
      t = openedStream σ n x ∨ σ.streams.get? t = some st := by
    intro t st ht
    rw [opened_get?] at ht
    split at ht
    · case isTrue hts => exact Or.inl hts.symm
    · exact Or.inr ht
  have hreleased : ∀ id, (opened cfg σ n x seed).releaseState (openedStream σ n x) id =
      { bindingId := id, streamId := openedStream σ n x } := by
    intro id
    change (σ.collectionReleaseStates.get? _).getD _ = _
    rw [hrel id]
    rfl
  refine ⟨?_, ?_, ?_, ?_, ?_, ?_⟩
  · intro t st ht
    rcases hget t st ht with rfl | ht
    · exact ⟨x, (openedBy_append _ _ _ _).2 (Or.inr ⟨_, List.mem_singleton_self _, rfl⟩)⟩
    · obtain ⟨y, hy⟩ := h.opened t st ht
      exact ⟨y, (openedBy_append _ _ _ _).2 (Or.inl hy)⟩
  · intro y t hy
    rcases hopened y t hy with hy | ⟨rfl, rfl⟩
    · exact ⟨(h.scope y t hy).1, Nat.lt_succ_of_lt (h.scope y t hy).2⟩
    · exact ⟨rfl, Nat.lt_succ_self _⟩
  · intro t st ht b hb hr
    rw [hinv]
    rcases hget t st ht with rfl | ht
    · rw [hreleased, hfresh.2]
      exact ⟨hfresh.1 b, rfl, fun k hk => takeThreshold_pos hk⟩
    · exact h.waiting t st ht b hb hr
  · intro t st ht b hb hr
    rw [hinv]
    rcases hget t st ht with rfl | ht
    · rw [hreleased] at hr
      cases hr
    · exact h.fired t st ht b hb hr
  · intro y t hy ht b hb
    rw [opened_get?] at ht
    split at ht
    · cases ht
    · case isFalse hne =>
      rw [hinv]
      rcases hopened y t hy with hy | ⟨-, rfl⟩
      · exact h.closed y t hy ht b hb
      · exact absurd rfl hne
  · intro t ht
    obtain ⟨h₁, h₂⟩ := h.fresh t (Nat.le_of_succ_le ht)
    exact ⟨fun b => (hinv b t).trans (h₁ b), h₂⟩

/-- Opening a child stream, which closes at once when it holds no work. -/
theorem openChildStream_collects (h : Collects cfg σ R) (ha : Accounts cfg σ p) (hp : ∀ t, 0 ≤ p t)
    {n : StepId} {c : StepConfig} (hn : cfg.steps.get? n = some c) {id : Nat} {x : InProgressState}
    (hx : (σ.workers n).execution? id = some x) (seed : Nat) :
    Collects cfg (openChildStream cfg n (openedScope σ n x) (openedStream σ n x) seed x now
      { σ with streamSeq := σ.streamSeq + 1 }).1 R := by
  have hparent : Collects cfg (openedParent cfg now σ n x seed) R :=
    adjust_collects now (opened_collects h ha hp n x seed) (opened_accounts ha hp (scopeOk_of_execution ha hx) seed).scopes _ _
  rw [openChildStream_state]
  split
  · exact close_collects now hparent (openedParent_accounts now ha hp hn hx seed).scopes (openedParent_get? now seed)
  · exact hparent

/-- A plain result that lets the run go on keeps collection. -/
theorem stepResult_collects {t : TickStepResult} (ht : PlainResults t.result) (hp : ∀ s, 0 ≤ p s)
    (hs : PlainState cfg σ p) (h : Collects cfg σ R)
    (hr : processStepResultTick cfg t σ now runId = .ok r) (hgo : ∀ d ∈ r.2, d.indicatesExit = false) :
    Collects cfg r.1 R := by
  obtain ⟨c, x, hc, hx, heffect⟩ := processStepResultTick_plain ht hr
  have hend : ∀ {τ : BrokerState}, Collects cfg τ R → Collects cfg (endExecution now c t.stepId x τ) R := by
    intro τ hτ
    exact collects_of_same hτ (SameStreams.of_eq rfl rfl rfl rfl)
  cases heffect with
  | stopped _ hs hl hx =>
    obtain ⟨d, hd, hx⟩ := hx
    rw [hgo d hd] at hx
    cases hx
  | completed es cs hcx hct => exact hend (adjust_collects now h hs.accounts.scopes _ _)
  | fannedOut es cs hcx hct => exact hend (openChildStream_collects h hs.accounts hp hc hx _)
  | retried f first notBefore cs hcx hct =>
    refine hend (collects_of_same h ?_)
    exact SameStreams.of_eq rfl rfl rfl rfl
  | routed hd key hkey d hd' cs hcx hct => exact hend h
  | failed f hf e e' =>
    have := hgo (.failWorkflow t.stepId f.exception) (by simp)
    cases this

/-! ## Ticks -/

/-- Updates of the workers alone are nothing to collection. -/
theorem forEachStep_collects (h : Collects cfg σ R)
    (f : StepConfig → StepId → InternalStepWorkerState → InternalStepWorkerState × List WorkflowCommand)
    (l : List (StepId × StepConfig)) : Collects cfg (forEachStep f l σ).1 R := by
  refine (forEachStep_invariant (fun σ' => Collects cfg σ' R) (fun _ => True) ?_ h).1
  intro q _ σ' hσ'
  exact ⟨collects_of_same hσ' (SameStreams.of_eq rfl rfl rfl rfl), fun _ _ => trivial⟩

/-- A tick that lets the run go on keeps collection. -/
theorem reduceTick_collects {J : List WorkflowTick} {tick : WorkflowTick}
    (ht : PlainTick σ.streamSeq tick) (hp : ∀ s, 0 ≤ p s) (hs : PlainState cfg σ fun s => p s + tick.pendingIn cfg s)
    (h : Collects cfg σ (routed cfg J))
    (hr : reduceTick cfg tick σ now runId = .ok r) (hgo : ∀ d ∈ r.2, d.indicatesExit = false) :
    Collects cfg r.1 (routed cfg (J ++ [tick])) := by
  cases tick with
  | stepResult t =>
    obtain ⟨r', hr', rfl⟩ := map_eq_ok hr
    have hs' : PlainState cfg σ p := ⟨hs.accounts.congr fun s => (add_zero _).symm, hs.positive, hs.waiters⟩
    rw [routed_append_of_ne J (by simp), withIdleCheck_fst]
    exact stepResult_collects ht hp hs' h hr' (no_exit_of_withIdleCheck hgo)
  | addEvent t =>
    obtain ⟨r', hr', rfl⟩ := map_eq_ok hr
    rw [withIdleCheck_fst]
    exact addEvent_collects ht hp hs h hr' (no_exit_of_withIdleCheck hgo)
  | cancelRun => exact absurd hgo (not_goesOn_of_final rfl hr)
  | timeout t => exact absurd hgo (not_goesOn_of_final rfl hr)
  | idleRelease => exact absurd hgo (not_goesOn_of_final rfl hr)
  | publishEvent e =>
    cases hr
    rw [routed_append_of_ne J (by simp), withIdleCheck_fst]
    exact h
  | waiterTimeout n id =>
    cases hr
    rw [routed_append_of_ne J (by simp), withIdleCheck_fst, waiterTimeout_of_none cfg now hs.waiters]
    exact h
  | idleCheck =>
    cases hr
    rw [routed_append_of_ne J (by simp)]
    unfold processIdleCheckTick
    split
    · split
      · exact collects_of_same h (SameStreams.of_eq rfl rfl rfl rfl)
      · exact h
    · exact h
  | wakeup due =>
    cases hr
    rw [routed_append_of_ne J (by simp), withIdleCheck_fst]
    exact forEachStep_collects h _ _

/-- Collection at the start of a run, with nothing opened and nothing routed. -/
theorem collects_of_fresh (h : σ.IsFresh) : Collects cfg σ (routed cfg []) := by
  obtain ⟨-, hstreams, -, hlog⟩ := h
  have hnone : ∀ x s, ¬OpenedBy σ.log x s := by
    rintro x s ⟨st, hst, -⟩
    rw [hlog] at hst
    cases hst
  have hclosed : ∀ s st, σ.streams.get? s ≠ some st := by
    intro s st hst
    rw [hstreams] at hst
    cases hst
  refine ⟨?_, ?_, ?_, ?_, ?_, ?_⟩
  · intro s st hst
    exact absurd hst (hclosed s st)
  · intro x s hx
    exact absurd hx (hnone x s)
  · intro s st hst
    exact absurd hst (hclosed s st)
  · intro s st hst
    exact absurd hst (hclosed s st)
  · intro x s hx
    exact absurd hx (hnone x s)
  · intro s _
    rw [hlog]
    exact ⟨fun _ => rfl, fun _ => rfl⟩

/-! ## Resuming -/

/-- The work of a context that is resumed is what it was, at the steps that the workflow has. -/
theorem resumed_records (h : σ.Holds triggered) (n : StepId) :
    ((σ.resumed cfg).workers n).records = if cfg.steps.contains n then (σ.workers n).records else 0 := by
  have hmap : ∀ w : InternalStepWorkerState, w.records = w.items.map WorkItem.toWorkRecord := by
    intro w
    simp only [InternalStepWorkerState.records, InternalStepWorkerState.items, Multiset.map_coe, List.map_append, List.map_map]
    rfl
  rw [BrokerState.resumed, BrokerState.fromSerialized]
  dsimp only
  split
  · rw [hmap, hmap, ← toWorker_items (h n)]
    rfl
  · rfl

/-- So are its books. -/
theorem resumed_plain (h : PlainState cfg σ p) (hholds : σ.Holds triggered) : PlainState cfg (σ.resumed cfg) p := by
  refine ⟨⟨⟨h.accounts.scopes.stream, ?_, h.accounts.scopes.release⟩, ?_, h.accounts.quiet⟩, h.positive, ?_⟩
  · intro n r hr
    rw [resumed_records hholds] at hr
    split at hr
    · exact h.accounts.scopes.record n r hr
    · simp at hr
  · intro s
    have hwork : (σ.resumed cfg).workIn cfg s = σ.workIn cfg s := by
      refine cfg.steps.sum_congr fun n c hn => ?_
      have hcontains : cfg.steps.contains n = true := by simp [Dict.contains, (cfg.steps.get?_eq_some_iff n c).2 hn]
      rw [workIn_eq_countP, workIn_eq_countP, resumed_records hholds, if_pos hcontains]
    rw [hwork]
    exact h.accounts.balance s
  · intro n
    rw [BrokerState.resumed, BrokerState.fromSerialized]
    dsimp only
    split
    · simp [SerializedStepWorkerState.toWorker, BrokerState.toSerialized, InternalStepWorkerState.toSerialized, h.waiters n]
    · rfl

/-- Resuming creates no collect invocation. -/
theorem resumed_accrues (h : σ.Holds triggered) (now : Time) :
    Accrues σ (rewindInProgress cfg now (σ.resumed cfg)).1 := by
  obtain ⟨l, hlog, hitems⟩ := forEachStep_creates (fun c n w => WorkAux.rewindStep_records c n now w)
    cfg.sortedSteps (σ.resumed cfg)
  refine ⟨l, hlog, fun n q => ?_⟩
  have hle : (σ.resumed cfg).items n q ≤ σ.items n q := by
    rw [BrokerState.items, resumed_records h]
    split
    · rfl
    · exact Nat.zero_le _
  rw [rewindInProgress, hitems]
  exact ⟨by omega, by omega⟩

/-! ## Runs -/

/-- What holds while a plain run goes on, however often it was resumed. -/
structure CollectsLoop (cfg : BrokerConfig) (owed : StreamId → Nat) (L : Loop) : Prop where
  plain : PlainLoop cfg owed L
  collects : Collects cfg L.state (routed cfg L.journal)
  triggered : L.state.Holds triggered

/-- A run that starts from a state with its books in order, with the journal of the runs before it. -/
theorem start_collects {owed : StreamId → Nat} {J : List WorkflowTick} (h : PlainState cfg σ fun s => owed s)
    (hcol : Collects cfg σ (routed cfg J)) (hholds : σ.Holds triggered) {e : Option Event}
    (hout : (Loop.start cfg σ e now).outcome = none) {L : Loop} (hL : L = { Loop.start cfg σ e now with journal := J }) :
    CollectsLoop cfg owed L := by
  subst hL
  obtain ⟨h₁, h₂, h₃, h₄⟩ := (start_plain h e now).running hout
  refine ⟨⟨h₁, h₂, h₃, h₄⟩, ?_, HoldsAux.start_holds hholds e now⟩
  rw [(start_fields cfg σ e now).1]
  exact forEachStep_collects hcol _ _

theorem outcome_of_stepResumable {M M' : Loop} {a : ResumableAction} (hstep : M.stepResumable cfg runId a = some M') :
    M.outcome = none := by
  cases a with
  | loop a => exact outcome_of_step hstep
  | resume e now =>
    rw [Loop.stepResumable] at hstep
    split at hstep
    · cases hstep
    · case isFalse h => simpa using h

/-- A step of a run that goes on. When it resumes, the deliveries of the ticks that are lost are owed. -/
theorem step_collects {M M' : Loop} {owed : StreamId → Nat} (h : CollectsLoop cfg owed M) {a : ResumableAction} (ha : a.isPlain)
    (hstep : M.stepResumable cfg runId a = some M') (hout : M'.outcome = none) :
    (∃ owed', CollectsLoop cfg owed' M') ∧ Accrues M.state M'.state := by
  obtain ⟨hplain, hcol, hholds⟩ := h
  cases a with
  | resume e now =>
    have hgoes := outcome_of_stepResumable hstep
    rw [Loop.stepResumable, hgoes] at hstep
    cases hstep
    have howed : ∀ s, ((pendingIn cfg M.tickBuffer s + owed s).toNat : Int) = pendingIn cfg M.tickBuffer s + owed s := fun s =>
      Int.toNat_of_nonneg (add_nonneg (pendingIn_nonneg M.tickBuffer s) (Int.natCast_nonneg _))
    obtain ⟨h₁, h₂, h₃⟩ := resumed_plain hplain.state hholds
    refine ⟨⟨_, start_collects ⟨h₁.congr howed, h₂, h₃⟩ (collects_of_same hcol (SameStreams.of_eq rfl rfl rfl rfl))
      (HoldsAux.fromSerialized_holds (triggered_passed cfg) hholds) hout rfl⟩, ?_⟩
    rw [(start_fields cfg _ e now).1]
    exact resumed_accrues hholds now
  | loop a =>
    refine ⟨⟨owed, (step_plain hplain ha hstep).running hout, ?_,
      HoldsAux.step_holds (triggered_passed cfg) hholds hstep⟩, step_accrues hplain hstep hout⟩
    obtain ⟨hstate, hbuffer, -, -⟩ := hplain
    rcases step_advance hstep with ⟨h₁, h₂, -⟩ | ⟨now, -, tick, rest, hb, cs, hr, hx, hj, -⟩
    · rw [h₁, h₂]
      exact hcol
    · rw [hj]
      rw [hb] at hstate hbuffer
      have hpend : PlainState cfg M.state fun s => pendingIn cfg rest s + owed s + tick.pendingIn cfg s :=
        ⟨hstate.accounts.congr fun s => by rw [pendingIn_cons]; ring, hstate.positive, hstate.waiters⟩
      exact reduceTick_collects (hbuffer tick List.mem_cons_self)
        (fun s => add_nonneg (pendingIn_nonneg rest s) (Int.natCast_nonneg _)) hpend hcol hr (hx hout)

/-- Every state that a plain run reaches and goes on from satisfies the invariant of collection. -/
theorem run_collects {e : Event} {L : Loop} (hrun : (Loop.start cfg {} (some e) now).Reaches cfg runId L)
    (hgoes : L.outcome = none) : ∃ owed, CollectsLoop cfg owed L := by
  refine hrun.invariant (fun L => L.outcome = none → ∃ owed, CollectsLoop cfg owed L) ?_ ?_ hgoes
  · intro hout
    refine ⟨0, start_collects (plainState_of_fresh BrokerState.isFresh_empty) (collects_of_fresh BrokerState.isFresh_empty)
      (HoldsAux.holds_empty _) hout ?_⟩
    rw [← (start_fields cfg {} (some e) now).2]
  · intro M a M' hM ha hstep hout
    obtain ⟨_, h⟩ := hM (outcome_of_stepResumable hstep)
    exact (step_collects h ha hstep hout).1

/-- A plain run that goes on in the end has gone on before. -/
theorem outcome_of_run {M L : Loop} (hrun : M.Reaches cfg runId L) (hgoes : L.outcome = none) : M.outcome = none := by
  rcases hrun.cases_head with rfl | ⟨_, _, -, hstep, -⟩
  · exact hgoes
  · exact outcome_of_stepResumable hstep

/-- Every step of a run that goes on tells of the collect invocations that it creates. -/
theorem run_accrues {e : Event} {M M' : Loop} {a : ResumableAction} (hrun : (Loop.start cfg {} (some e) now).Reaches cfg runId M)
    (ha : a.isPlain) (hstep : M.stepResumable cfg runId a = some M') (hout : M'.outcome = none) : Accrues M.state M'.state := by
  obtain ⟨_, h⟩ := run_collects hrun (outcome_of_stepResumable hstep)
  exact (step_collects h ha hstep hout).2

/-- Every collect invocation that the log records was among the work of its step in some state of the run. -/
theorem run_items {e : Event} {L : Loop} (hrun : (Loop.start cfg {} (some e) now).Reaches cfg runId L) (hgoes : L.outcome = none)
    {n : StepId} {q : CollectionReleasePayload} (hq : 0 < L.state.log.countP (LogEntry.creates n q)) :
    ∃ M, (Loop.start cfg {} (some e) now).Reaches cfg runId M ∧ M.Reaches cfg runId L ∧ 0 < M.state.items n q := by
  induction hrun with
  | refl =>
    have hlog : (Loop.start cfg {} (some e) now).state.log = [] := by
      rw [(start_fields cfg {} (some e) now).1]
      exact (forEachStep_invariant (fun σ' => σ'.log = []) (fun _ => True) (fun _ _ _ h => ⟨h, fun _ _ => trivial⟩) rfl).1
    rw [hlog] at hq
    cases hq
  | @tail M L a hrun ha hstep ih =>
    obtain ⟨l, hlog, hitems⟩ := run_accrues hrun ha hstep hgoes
    rw [hlog, List.countP_append] at hq
    by_cases hnew : l.countP (LogEntry.creates n q) = 0
    · obtain ⟨M', hM', hrest, hheld⟩ := ih (outcome_of_stepResumable hstep) (by omega)
      exact ⟨M', hM', hrest.tail ha hstep, hheld⟩
    · have := (hitems n q).2
      exact ⟨L, hrun.tail ha hstep, .refl, by omega⟩

end CollectingAux

open CollectingAux

/-- One collect invocation was created for a binding in a stream, and this is its payload: the events routed to the collect
step, all of them or the first that a `Take` asks for, to be processed in the scope given. -/
structure Loop.CollectedOnce (cfg : BrokerConfig) (L : Loop) (b : CollectionBinding) (s : StreamId) (scope : ScopePath)
    (p : CollectionReleasePayload) : Prop where
  invocation : ∃ a, invocations L.state.log b s = [a] ∧ a.record.isItem p
  binding : p.bindingId = b.id ∧ p.streamId = s
  scope : p.outputScopePath = scope
  all : b.policy = .all → p.events = routed cfg L.journal s b.targetStep
  take : ∀ k, b.policy = .take k → p.events = (routed cfg L.journal s b.targetStep).take k

/-- Every collect step fires exactly once per stream, with the right batch, in a run that may be interrupted and resumed at any
point. When a stream that an execution opened has closed, one collect invocation was created for each binding of its producer: its
batch are the events routed to the collect step inside the stream, in the order of their delivery, all of them or the first that a
`Take` asks for, and its scope is that of the execution that opened the stream. It stood among the work of its step in some state of
the run, and in no step of the run did the work of a step gain a collect invocation that was not recorded. No release state of the
stream is left. -/
theorem collect_fires_once (cfg : BrokerConfig) (runId : Option String) (start : Event) (now : Time) {L : Loop}
    (hrun : (Loop.start cfg {} (some start) now).Reaches cfg runId L) (hgoes : L.outcome = none) {x : InProgressState}
    {s : StreamId} (hopened : OpenedBy L.state.log x s) (hclosed : L.state.streams.get? s = none) :
    (∀ b ∈ cfg.bindingsForSource s.step, ∃ p, L.CollectedOnce cfg b s x.scopePath p ∧
      ∃ M, (Loop.start cfg {} (some start) now).Reaches cfg runId M ∧ M.Reaches cfg runId L ∧ 0 < M.state.items b.targetStep p) ∧
      (∀ M a M', (Loop.start cfg {} (some start) now).Reaches cfg runId M → a.isPlain → M.stepResumable cfg runId a = some M' →
        M'.Reaches cfg runId L → Accrues M.state M'.state) ∧
      ∀ id, L.state.collectionReleaseStates.get? (s, id) = none := by
  obtain ⟨_, hplain, hcollects, -⟩ := run_collects hrun hgoes
  refine ⟨?_, ?_, ?_⟩
  · intro b hb
    have hfired := hcollects.closed x s hopened hclosed b hb
    rw [collectInvocation, (hcollects.scope x s hopened).1] at hfired
    have hitem : ∀ q : CollectionReleasePayload, q.toAttempt.record.isItem q := by simp [WorkRecord.isItem, EventAttempt.record,
      CollectionReleasePayload.toAttempt]
    refine ⟨_, ⟨⟨_, hfired, hitem _⟩, ⟨rfl, rfl⟩, rfl, ?_, ?_⟩, run_items hrun hgoes ?_⟩
    · intro hall
      simp [hall, Cardinality.batch, Cardinality.takeThreshold]
    · intro k hk
      simp [hk, Cardinality.batch, Cardinality.takeThreshold]
    · obtain ⟨e, he, hinv⟩ := List.mem_filterMap.1 (hfired ▸ List.mem_singleton_self _)
      refine List.countP_pos_iff.2 ⟨e, he, ?_⟩
      cases e with
      | released b' s' a =>
        rw [LogEntry.invocation?] at hinv
        split at hinv
        · case isTrue hsame =>
          cases hinv
          rw [LogEntry.creates, hsame.1, hitem]
          simp
        · cases hinv
      | _ => cases hinv
  · intro M a M' hM ha hstep hrest
    exact run_accrues hM ha hstep (outcome_of_run hrest hgoes)
  · intro id
    rw [Option.eq_none_iff_forall_ne_some]
    intro r hr
    obtain ⟨st, hst, -⟩ := hplain.state.accounts.scopes.release s id r hr
    rw [hclosed] at hst
    cases hst

namespace FirstOfTwo

open FanOutJoin

/-- Two members are worked on; the first result fires the collect step, the run is resumed, and the second result closes the
stream. -/
def actions : List ResumableAction :=
  [.loop (.drain 1), .loop (.finish 0 (.ret (.list [.event ⟨member, []⟩, .event ⟨member, []⟩])) 1), .loop (.drain 1),
    .loop (.drain 1), .loop (.drain 1), .loop (.drain 1), .loop (.finish 0 (.ret (.event ⟨done, [("n", .int 1)]⟩)) 2),
    .loop (.drain 2), .loop (.drain 2), .resume none 3, .loop (.finish 1 (.ret (.event ⟨done, [("n", .int 2)]⟩)) 3),
    .loop (.drain 3), .loop (.drain 3)]

/-- The stream was opened and has closed, its producer has a binding, and the run goes on. -/
def check (L : Loop) : Bool :=
  L.outcome = none && L.state.log.any fun
    | .opened _ st => (L.state.streams.get? st.streamId).isNone &&
        !((workflow (.take ⟨1, Nat.one_pos⟩)).config.bindingsForSource st.streamId.step).isEmpty
    | _ => false

end FirstOfTwo

open FanOutJoin FirstOfTwo in
/-- A collect step that takes one member has fired once when the stream of two has closed, in a run that was resumed in between. -/
theorem collect_fires_once_first : ∃ (L : Loop) (x : InProgressState) (s : StreamId), OpenedBy L.state.log x s ∧
    L.state.streams.get? s = none ∧ ∃ b ∈ (workflow (.take 1)).config.bindingsForSource s.step, ∃ p,
      L.CollectedOnce (workflow (.take 1)).config b s x.scopePath p := by
  obtain ⟨L, hrun, hcheck⟩ := Lib.Run.exists_of_exec (Loop.stepResumable (workflow (.take 1)).config none) (fun _ a => a.isPlain)
    (Loop.start (workflow (.take 1)).config {} (some ⟨.startEvent, []⟩) 0) actions (check ·) (by decide +kernel)
  rw [check, Bool.and_eq_true, decide_eq_true_eq] at hcheck
  obtain ⟨hgoes, hany⟩ := hcheck
  obtain ⟨e, he, hopen⟩ := List.any_eq_true.1 hany
  cases e with
  | opened x st =>
    dsimp only at hopen
    rw [Bool.and_eq_true, Option.isNone_iff_eq_none, Bool.not_eq_true', List.isEmpty_eq_false_iff_exists_mem] at hopen
    obtain ⟨hclosed, b, hb⟩ := hopen
    have hopened : OpenedBy L.state.log x st.streamId := ⟨st, he, rfl⟩
    obtain ⟨hfires, -⟩ := collect_fires_once (workflow (.take 1)).config none ⟨.startEvent, []⟩ 0 hrun hgoes hopened
      hclosed
    obtain ⟨p, hp, -⟩ := hfires b hb
    exact ⟨L, x, st.streamId, hopened, hclosed, b, hb, p, hp⟩
  | _ => cases hopen

end LlamaAgents
