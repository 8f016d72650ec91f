import Mathlib.Tactic.Positivity
import LlamaAgents.Lemmas.Accounting

/-!
# Routing an event keeps the books

An event delivered to a step becomes a work item, joins a batch or fills a slot of a join. Each way takes one pending delivery
off the event's stream and puts it, if at all, where the books still count it.
-/

namespace LlamaAgents

open Lib (Dict)

/-- Whether an event is delivered to a step that is not a collect step: no waiter of the step takes it, the step accepts it, and
it is for this step. -/
def TickAddEvent.isDelivered (tick : TickAddEvent) (resolved : List StepId) (n : StepId) (c : StepConfig) : Bool :=
  !resolved.contains n && (c.acceptsEvent tick.event && tick.isTargeted n) && c.collectionParam.isNone

/-- The events that an event's attempt at a step is bound to: those its tick brings, or those of a join that it completes. There
is none while the join waits for more events. -/
def TickAddEvent.bound? (tick : TickAddEvent) (c : StepConfig) (buffered : List Event) : Option BoundEvents :=
  match tick.openSlots c with
  | none => some tick.boundEvents
  | some ps => (staticCollectEvents tick.event c ps { staticCollectEvents := buffered }).2.map some

/-- The buffer of a join after an event was delivered to it. -/
def TickAddEvent.buffered (tick : TickAddEvent) (c : StepConfig) (buffered : List Event) : List Event :=
  match tick.openSlots c with
  | none => buffered
  | some ps => (staticCollectEvents tick.event c ps { staticCollectEvents := buffered }).1.staticCollectEvents

/-- A command that queues an event. -/
def WorkflowCommand.isQueueEvent : WorkflowCommand → Bool
  | .queueEvent _ => true
  | _ => false

theorem WorkflowCommand.not_isQueueEvent_of_isDispatch {c : WorkflowCommand} (h : c.isDispatch) : c.isQueueEvent = false := by
  cases c <;> simp_all [isDispatch, isQueueEvent]

/-- What routing keeps: waiters, collect buffers, executions and the stream counter stay, and nothing is queued for later. -/
structure Kept (σ : BrokerState) (r : BrokerState × List WorkflowCommand) : Prop where
  waiters : ∀ n, (r.1.workers n).collectedWaiters = (σ.workers n).collectedWaiters
  executions : ∀ n, (σ.workers n).inProgress <+: (r.1.workers n).inProgress
  streamSeq : r.1.streamSeq = σ.streamSeq
  commands : ∀ c ∈ r.2, c.isQueueEvent = false

namespace Kept

/-- A frame keeps all that routing must keep. -/
theorem of_frame {σ : BrokerState} {r : BrokerState × List WorkflowCommand} (h : Frame σ r) : Kept σ r where
  waiters n := (h.workers n).waiters
  executions n := (h.workers n).executions
  streamSeq := h.streamSeq
  commands c hc := WorkflowCommand.not_isQueueEvent_of_isDispatch (h.commands c hc)

theorem trans {σ : BrokerState} {r r' : BrokerState × List WorkflowCommand} (h : Kept σ r) (h' : Kept r.1 r') :
    Kept σ (r'.1, r.2 ++ r'.2) where
  waiters n := (h'.waiters n).trans (h.waiters n)
  executions n := (h.executions n).trans (h'.executions n)
  streamSeq := h'.streamSeq.trans h.streamSeq
  commands c hc := (List.mem_append.1 hc).elim (h.commands c) (h'.commands c)

/-- A step whose waiters and executions stay. -/
theorem setWorker {σ : BrokerState} {n : StepId} {w : InternalStepWorkerState} {cs : List WorkflowCommand}
    (hw : w.collectedWaiters = (σ.workers n).collectedWaiters) (he : (σ.workers n).inProgress <+: w.inProgress)
    (hc : ∀ c ∈ cs, c.isQueueEvent = false) : Kept σ (σ.setWorker n w, cs) where
  waiters m := by
    by_cases h : m = n
    · subst h
      simpa using hw
    · simp [Function.update_of_ne h]
  executions m := by
    by_cases h : m = n
    · subst h
      simpa using he
    · simp only [BrokerState.setWorker_workers, Function.update_of_ne h]
      exact List.prefix_rfl
  streamSeq := rfl
  commands := hc

end Kept

/-- What routing an event does: members are accounted for in their streams, other steps are given the event, or the run fails. -/
inductive Routes (cfg : BrokerConfig) (now : Time) (tick : TickAddEvent) :
    BrokerState → BrokerState × List WorkflowCommand → Prop
  | serves {σ : BrokerState} {r : BrokerState × List WorkflowCommand} (bookkeeping : Serves now cfg.Binds σ r) :
      Routes cfg now tick σ r
  | fails {σ : BrokerState} (n : StepId) (e : Exn) : Routes cfg now tick σ
      ({ σ with isRunning := false }, [.publishEvent (.workflowFailed n e), .failWorkflow n e])
  | delivers {σ : BrokerState} {n : StepId} {c : StepConfig} (config : cfg.steps.get? n = some c) :
      Routes cfg now tick σ (deliverToStep cfg c tick n now σ)
  | seq {σ : BrokerState} {r r' : BrokerState × List WorkflowCommand} :
      Routes cfg now tick σ r → Routes cfg now tick r.1 r' → Routes cfg now tick σ (r'.1, r.2 ++ r'.2)

namespace RoutingAux

open AccountingAux

variable (cfg : BrokerConfig) (now : Time)

/-- A binding to a step that a stream has is a configured one of the step. -/
theorem bindingForTarget_eq_some {cfg : BrokerConfig} {s : StreamId} {n : StepId} {d : Dict StreamId CollectionStreamInstance}
    {b : CollectionBinding} (h : cfg.bindingForTarget s n d = some b) :
    ∃ st, d.get? s = some st ∧ b.id ∈ st.acceptingBindingIds ∧ cfg.collectionBindings.get? b.id = some b ∧
      b.targetStep = n := by
  obtain ⟨st, hst, h⟩ := Option.bind_eq_some_iff.1 h
  obtain ⟨id, hid, h⟩ := List.exists_of_findSome?_eq_some h
  obtain ⟨hb, htarget⟩ := Option.filter_eq_some_iff.1 h
  have hkey := cfg.binding_key id b hb
  subst hkey
  exact ⟨st, hst, hid, hb, of_decide_eq_true htarget⟩

/-- A member that is routed to a collect step is accounted for in its stream, unless it fails the run. -/
theorem routeMember_routes {c : StepConfig} {n : StepId} (hc : cfg.steps.get? n = some c) (tick : TickAddEvent)
    (σ : BrokerState) : Routes cfg now tick σ ((routeMemberToCollectStep cfg c tick n now σ).state,
      (routeMemberToCollectStep cfg c tick n now σ).commands) := by
  unfold routeMemberToCollectStep
  split
  · split
    · exact .fails n _
    · exact .serves (Serves.report rfl)
  · split
    · case h_1 s _ _ _ =>
      have hreport : Serves now cfg.Binds σ (σ.report (.droppedMember tick.event n s), []) := Serves.report rfl
      exact .serves (hreport.after (Serves.adjust cfg now (some s) (-1) _))
    · case h_2 hb =>
      obtain ⟨-, -, -, hget, rfl⟩ := bindingForTarget_eq_some hb
      exact .serves ((Serves.collectMember now ⟨hc, hget⟩ tick _ σ).seq (Serves.adjust cfg now _ _ _))

/-- Step by step, routing only serves streams, delivers or fails. -/
theorem routeToAcceptingSteps_routes (tick : TickAddEvent) (resolved : List StepId) {l : List (StepId × StepConfig)}
    (hl : ∀ q ∈ l, cfg.steps.get? q.1 = some q.2) (σ : BrokerState) :
    Routes cfg now tick σ ((routeToAcceptingSteps cfg tick resolved now l σ).state,
      (routeToAcceptingSteps cfg tick resolved now l σ).commands) := by
  induction l generalizing σ with
  | nil => exact .serves (Serves.refl σ)
  | cons q l ih =>
    obtain ⟨n, c⟩ := q
    obtain ⟨hc, hl⟩ := List.forall_mem_cons.1 hl
    rw [routeToAcceptingSteps]
    split
    · dsimp only
      split
      · exact .seq (.serves (Serves.adjust cfg now _ _ σ)) (ih hl _)
      · exact .seq (.serves (Serves.refl σ)) (ih hl _)
    · split
      · exact ih hl σ
      · split
        · dsimp only
          split
          · exact routeMember_routes cfg now hc tick σ
          · exact (routeMember_routes cfg now hc tick σ).seq (ih hl _)
        · exact .seq (.delivers hc) (ih hl _)

/-! ## What routing keeps -/

theorem routeMemberToCollectStep_workers (c : StepConfig) (tick : TickAddEvent) (n : StepId) (σ : BrokerState) (m : StepId) :
    WorkerFrame (σ.workers m) ((routeMemberToCollectStep cfg c tick n now σ).state.workers m) := by
  unfold routeMemberToCollectStep
  split
  · split <;> exact WorkerFrame.refl _
  · split
    · case h_1 _ s _ _ _ =>
      exact (Serves.adjust cfg now (some s) (-1) (σ.report (.droppedMember tick.event n s))).frame.workers m
    · case h_2 _ s _ _ b _ =>
      have hmember := (Serves.collectMember now (Q := fun _ _ => True) (c := c) (b := b) trivial tick s σ).frame
      exact (hmember.trans (Serves.adjust cfg now _ _ _).frame).workers m

theorem consume_frame (tick : TickAddEvent) (w : InternalStepWorkerState) :
    WorkerFrame w (consumeSupersededDelayedAttempt tick w) := by
  unfold consumeSupersededDelayedAttempt
  split
  · exact WorkerFrame.refl w
  · exact ⟨rfl, rfl, rfl, List.prefix_rfl⟩

theorem staticCollectEvents_fields (e : Event) (c : StepConfig) (ps : List (String × EventType))
    (w : InternalStepWorkerState) :
    (staticCollectEvents e c ps w).1.collectedWaiters = w.collectedWaiters ∧
      (staticCollectEvents e c ps w).1.inProgress = w.inProgress ∧ (staticCollectEvents e c ps w).1.queue = w.queue := by
  unfold staticCollectEvents
  dsimp only
  split <;> exact ⟨rfl, rfl, rfl⟩

/-- Filling the slots of a join makes no work record. -/
theorem staticCollectEvents_records (e : Event) (c : StepConfig) (ps : List (String × EventType)) (w : InternalStepWorkerState) :
    (staticCollectEvents e c ps w).1.records = w.records := by
  obtain ⟨-, hin, hq⟩ := staticCollectEvents_fields e c ps w
  rw [InternalStepWorkerState.records, hin, hq, ← InternalStepWorkerState.records]

/-- Only the buffer of a join decides what an event does to it. -/
theorem staticCollectEvents_static (e : Event) (c : StepConfig) (ps : List (String × EventType))
    (w : InternalStepWorkerState) :
    (staticCollectEvents e c ps w).1.staticCollectEvents =
        (staticCollectEvents e c ps { staticCollectEvents := w.staticCollectEvents }).1.staticCollectEvents ∧
      (staticCollectEvents e c ps w).2 = (staticCollectEvents e c ps { staticCollectEvents := w.staticCollectEvents }).2 := by
  unfold staticCollectEvents
  dsimp only
  cases searchBatch (w.staticCollectEvents ++ [e]) c.acceptEventSubclasses ps [] <;> exact ⟨rfl, rfl⟩

/-- A delivery fills the buffer of its own step and leaves those of the others. -/
theorem deliverToStep_static (c : StepConfig) (tick : TickAddEvent) (n : StepId) (σ : BrokerState) (m : StepId) :
    ((deliverToStep cfg c tick n now σ).1.workers m).staticCollectEvents =
      if m = n then tick.buffered c (σ.workers n).staticCollectEvents else (σ.workers m).staticCollectEvents := by
  have hset : ∀ w : InternalStepWorkerState, w.staticCollectEvents = tick.buffered c (σ.workers n).staticCollectEvents →
      ((σ.setWorker n w).workers m).staticCollectEvents =
        if m = n then tick.buffered c (σ.workers n).staticCollectEvents else (σ.workers m).staticCollectEvents := by
    intro w hw
    rw [BrokerState.setWorker_workers]
    split
    · case isTrue hm => rw [hm, Function.update_self, hw]
    · case isFalse hm => rw [Function.update_of_ne hm]
  have hcons := (consume_frame tick (σ.workers n)).static
  unfold deliverToStep
  dsimp only
  split
  · case h_1 hslots =>
    refine hset _ ?_
    rw [(FrameAux.addOrEnqueueEvent_frame now c n _ _).static, hcons, TickAddEvent.buffered, hslots]
  · case h_2 ps hslots =>
    have hstatic := (staticCollectEvents_static tick.event c ps (consumeSupersededDelayedAttempt tick (σ.workers n))).1
    rw [hcons] at hstatic
    have hleft : tick.buffered c (σ.workers n).staticCollectEvents =
        (staticCollectEvents tick.event c ps { staticCollectEvents := (σ.workers n).staticCollectEvents }).1.staticCollectEvents := by
      rw [TickAddEvent.buffered, hslots]
    split
    · rw [((Serves.adjust cfg now _ _ _).frame.workers m).static]
      exact hset _ (hstatic.trans hleft.symm)
    · refine hset _ ?_
      rw [(FrameAux.addOrEnqueueEvent_frame now c n _ _).static]
      exact hstatic.trans hleft.symm

/-- A delivery starts or queues an attempt, or fills a slot of a join. -/
theorem deliverToStep_kept (c : StepConfig) (tick : TickAddEvent) (n : StepId) (σ : BrokerState) :
    Kept σ (deliverToStep cfg c tick n now σ) := by
  have hw := consume_frame tick (σ.workers n)
  have hadd : ∀ (a : EventAttempt) (w : InternalStepWorkerState), w.collectedWaiters = (σ.workers n).collectedWaiters →
      (σ.workers n).inProgress <+: w.inProgress →
      Kept σ (σ.setWorker n (addOrEnqueueEvent c n a now w).1, (addOrEnqueueEvent c n a now w).2) := by
    intro a w h₁ h₂
    have hf := FrameAux.addOrEnqueueEvent_frame now c n a w
    exact Kept.setWorker (hf.waiters.trans h₁) (h₂.trans hf.executions) fun d hd =>
      WorkflowCommand.not_isQueueEvent_of_isDispatch (FrameAux.addOrEnqueueEvent_commands now c n a w d hd)
  unfold deliverToStep
  dsimp only
  split
  · exact hadd _ _ hw.waiters hw.executions
  · case h_2 ps _ =>
    obtain ⟨h₁, h₂, -⟩ := staticCollectEvents_fields tick.event c ps (consumeSupersededDelayedAttempt tick (σ.workers n))
    have h₁' := h₁.trans hw.waiters
    have h₂' : (σ.workers n).inProgress <+:
        (staticCollectEvents tick.event c ps (consumeSupersededDelayedAttempt tick (σ.workers n))).1.inProgress := by
      rw [h₂]
      exact hw.executions
    split
    · exact (Kept.setWorker h₁' h₂' (List.forall_mem_nil _)).trans
        (Kept.of_frame (Serves.adjust cfg now _ _ _).frame)
    · exact hadd _ _ h₁' h₂'

/-- Every way of routing keeps them, hence their sequences do. -/
theorem routes_kept {tick : TickAddEvent} {σ : BrokerState} {r : BrokerState × List WorkflowCommand}
    (h : Routes cfg now tick σ r) : Kept σ r := by
  induction h with
  | serves h => exact Kept.of_frame h.frame
  | fails n e => exact ⟨fun _ => rfl, fun _ => List.prefix_rfl, rfl, by simp [WorkflowCommand.isQueueEvent]⟩
  | @delivers σ n c _ => exact deliverToStep_kept cfg now c tick n σ
  | seq _ _ ih ih' => exact ih.trans ih'

/-! ## Members of a stream -/

variable {cfg} {σ : BrokerState} {s : StreamId} {st : CollectionStreamInstance} {r : CollectionReleaseState}

theorem releaseState_set (σ : BrokerState) (s : StreamId) (id : BindingId) (r : CollectionReleaseState) (t : StreamId)
    (id' : BindingId) :
    (σ.setReleases (σ.collectionReleaseStates.set (s, id) r)).releaseState t id' =
      if t = s ∧ id' = id then r else σ.releaseState t id' := by
  rw [BrokerState.releaseState, BrokerState.setReleases_releases, Dict.get?_set]
  by_cases h : t = s ∧ id' = id
  · rw [if_pos h, if_pos (by rw [h.1, h.2])]
    rfl
  · rw [if_neg h, if_neg fun hc => h ⟨(Prod.mk.inj hc).1.symm, (Prod.mk.inj hc).2.symm⟩]
    rfl

/-- A release state of a binding of an open stream keeps the scopes right. -/
theorem setRelease_scoped (h : Scoped cfg σ)
    (hst : σ.streams.get? s = some st) {id : BindingId} (hid : id ∈ st.acceptingBindingIds) (r : CollectionReleaseState) :
    Scoped cfg (σ.setReleases (σ.collectionReleaseStates.set (s, id) r)) where
  stream := h.stream
  record := h.record
  release t id' r' hr := by
    rw [BrokerState.setReleases_releases, Dict.get?_set] at hr
    split at hr
    · case isTrue he =>
      obtain ⟨rfl, rfl⟩ := Prod.mk.inj he
      exact ⟨st, hst, hid⟩
    · exact h.release t id' r' hr

/-- Filling a buffer releases nothing. -/
theorem setRelease_childrenIn_of_eq (σ : BrokerState) (s : StreamId) (id : BindingId)
    (hr : r.released = (σ.releaseState s id).released) (t : StreamId) :
    (σ.setReleases (σ.collectionReleaseStates.set (s, id) r)).childrenIn t = σ.childrenIn t := by
  have : ∀ st, (σ.setReleases (σ.collectionReleaseStates.set (s, id) r)).unreleased st = σ.unreleased st := by
    intro st
    refine List.countP_congr fun id' _ => ?_
    rw [releaseState_set]
    split
    · case isTrue he => rw [hr, he.1, he.2]
    · rfl
  simp only [BrokerState.childrenIn, this]
  rfl

/-- A property that stops holding at one element of a list without duplicates is counted once less. -/
theorem countP_eq_add_one {α : Type*} {l : List α} (hn : l.Nodup) {a : α} (ha : a ∈ l) {p q : α → Bool}
    (hp : p a = true) (hq : q a = false) (hne : ∀ b, b ≠ a → q b = p b) : l.countP p = l.countP q + 1 := by
  induction l with
  | nil => simp at ha
  | cons b l ih =>
    rw [List.nodup_cons] at hn
    rcases List.mem_cons.1 ha with rfl | ha
    · have : l.countP p = l.countP q :=
        List.countP_congr fun b hb => by rw [hne b fun he => hn.1 (he ▸ hb)]
      rw [List.countP_cons_of_pos hp, List.countP_cons_of_neg (by simp [hq]), this]
    · have hb : b ≠ a := fun he => hn.1 (he ▸ ha)
      simp only [List.countP_cons, hne b hb, ih hn.2 ha]
      omega

/-- A release that fires is owed to the parent no longer. -/
theorem setRelease_childrenIn (h : Scoped cfg σ)
    (hst : σ.streams.get? s = some st) {id : BindingId} (hid : id ∈ st.acceptingBindingIds)
    (hold : (σ.releaseState s id).released = false) (hr : r.released = true) (t : StreamId) :
    (σ.setReleases (σ.collectionReleaseStates.set (s, id) r)).childrenIn t = σ.childrenIn t - one st.scopePath t := by
  obtain ⟨hsid, -, -, hids, -⟩ := h.stream s st hst
  have hflip : σ.unreleased st = (σ.setReleases (σ.collectionReleaseStates.set (s, id) r)).unreleased st + 1 := by
    refine countP_eq_add_one (hids ▸ bindingsForSource_nodup _) hid ?_ ?_ fun id' hid' => ?_
    · simp [hsid, hold]
    · simp [releaseState_set, hsid, hr]
    · simp [releaseState_set, hid']
  have hsum := Dict.sum_eq_of_ne σ.streams
    (fun _ st' => if st'.scopePath.getLast? = some t then (σ.unreleased st' : Int) else 0)
    (fun _ st' => if st'.scopePath.getLast? = some t then
      ((σ.setReleases (σ.collectionReleaseStates.set (s, id) r)).unreleased st' : Int) else 0) hst ?_
  · rw [BrokerState.childrenIn, BrokerState.setReleases_streams, hsum, BrokerState.childrenIn, one, hflip]
    split <;> omega
  · intro k st' hk hks
    have hk' := (h.stream k st' ((Dict.get?_eq_some_iff _ _ _).2 hk)).1
    have : (σ.setReleases (σ.collectionReleaseStates.set (s, id) r)).unreleased st' = σ.unreleased st' := by
      refine List.countP_congr fun id' _ => ?_
      rw [releaseState_set, if_neg fun hc => hks (hk'.symm.trans hc.1)]
    rw [this]

/-! ## Counters stay positive -/

theorem collectMember_streams (c : StepConfig) (tick : TickAddEvent) (s : StreamId) (b : CollectionBinding)
    (σ : BrokerState) : (collectMember c tick s b now σ).1.streams = σ.streams := by
  unfold collectMember
  dsimp only
  split
  · rfl
  · split <;> rfl

theorem routeMemberToCollectStep_streamsFrom (c : StepConfig) (tick : TickAddEvent) (n : StepId) (σ : BrokerState) :
    StreamsFrom σ (routeMemberToCollectStep cfg c tick n now σ).state := by
  unfold routeMemberToCollectStep
  split
  · split <;> exact StreamsFrom.of_eq rfl
  · split
    · exact (StreamsFrom.of_eq rfl).trans (adjustOpenWorkItems_streamsFrom cfg now _ _ _)
    · exact (StreamsFrom.of_eq (collectMember_streams now c tick _ _ σ)).trans
        (adjustOpenWorkItems_streamsFrom cfg now _ _ _)

theorem deliverToStep_streamsFrom (c : StepConfig) (tick : TickAddEvent) (n : StepId) (σ : BrokerState) :
    StreamsFrom σ (deliverToStep cfg c tick n now σ).1 := by
  unfold deliverToStep
  dsimp only
  split
  · exact StreamsFrom.of_eq rfl
  · split
    · exact (StreamsFrom.of_eq rfl).trans (adjustOpenWorkItems_streamsFrom cfg now _ _ _)
    · exact StreamsFrom.of_eq rfl

/-- Routing opens no stream. -/
theorem routeToAcceptingSteps_streamsFrom (tick : TickAddEvent) (resolved : List StepId) (l : List (StepId × StepConfig))
    (σ : BrokerState) : StreamsFrom σ (routeToAcceptingSteps cfg tick resolved now l σ).state := by
  induction l generalizing σ with
  | nil => exact StreamsFrom.of_eq rfl
  | cons q l ih =>
    rw [routeToAcceptingSteps]
    split
    · dsimp only
      split
      · exact (adjustOpenWorkItems_streamsFrom cfg now _ _ σ).trans (ih _)
      · exact ih σ
    · split
      · exact ih σ
      · split
        · dsimp only
          split
          · exact routeMemberToCollectStep_streamsFrom now q.2 tick q.1 σ
          · exact (routeMemberToCollectStep_streamsFrom now q.2 tick q.1 σ).trans (ih _)
        · exact (deliverToStep_streamsFrom now q.2 tick q.1 σ).trans (ih _)

end RoutingAux

namespace Accounts

open AccountingAux RoutingAux

variable {cfg : BrokerConfig} {σ : BrokerState} {p : StreamId → Int} {s : StreamId} {st : CollectionStreamInstance}
  {r : CollectionReleaseState} {n : StepId} {c : StepConfig} {tick : TickAddEvent}

/-- The books do not look at the running flag, the work item counter or harmless records of the log. -/
theorem of_eq (h : Accounts cfg σ p) {σ' : BrokerState} (hw : σ'.workers = σ.workers) (hs : σ'.streams = σ.streams)
    (hr : σ'.collectionReleaseStates = σ.collectionReleaseStates) (hk : σ'.streamSeq = σ.streamSeq)
    (hl : ∀ e ∈ σ'.log, e ∈ σ.log ∨ e.isFault = false) : Accounts cfg σ' p where
  scopes := h.scopes.congr hs hr (fun n => by rw [hw]) hk
  balance s := by
    rw [counter_congr hs, childrenIn_congr hs hr, BrokerState.workIn, hw]
    exact h.balance s
  quiet e he := (hl e he).elim (h.quiet e) id

theorem report (h : Accounts cfg σ p) {e : LogEntry} (he : e.isFault = false) : Accounts cfg (σ.report e) p :=
  h.of_eq rfl rfl rfl rfl fun e' he' => by
    rcases List.mem_append.1 he' with h' | h'
    · exact Or.inl h'
    · rw [List.mem_singleton] at h'
      exact Or.inr (h' ▸ he)

/-- A step that holds the same work. -/
theorem setWorker (h : Accounts cfg σ p) (hn : cfg.steps.get? n = some c)
    {w : InternalStepWorkerState} (hw : w.records = (σ.workers n).records) : Accounts cfg (σ.setWorker n w) p where
  scopes := h.scopes.setWorker_le (le_of_eq hw)
  balance s := by
    rw [workIn_setWorker_congr hn hw]
    exact h.balance s
  quiet := h.quiet

/-- A pending delivery that becomes a work item. -/
theorem setWorker_cons (h : Accounts cfg σ p) (hn : cfg.steps.get? n = some c)
    {w : InternalStepWorkerState} {r : WorkRecord} (hw : w.records = r ::ₘ (σ.workers n).records)
    (hr : ScopeOk σ.streamSeq r.scopePath) : Accounts cfg (σ.setWorker n w) fun t => p t - one r.scopePath t where
  scopes := h.scopes.setWorker hw hr
  balance s := by
    rw [workIn_setWorker_cons hn hw, setWorker_counter, setWorker_childrenIn, h.balance s]
    ring
  quiet := h.quiet

/-- A release that fires becomes a work item in its output scope. -/
theorem fire (h : Accounts cfg σ p) {b : CollectionBinding} (hc : cfg.steps.get? b.targetStep = some c)
    (s : StreamId) (es : List Event) {out : ScopePath} (hout : ScopeOk σ.streamSeq out) (now : Time) :
    Accounts cfg (fireCollectionRelease c b s es out now σ).1 fun t => p t - one out t :=
  (h.setWorker_cons hc (WorkAux.addOrEnqueueEvent_records c b.targetStep now
    (CollectionReleasePayload.mk b.id s es out).toAttempt _) hout).report rfl

/-- A binding that is marked as released is owed no longer: its work is pending. -/
theorem setReleased (h : Accounts cfg σ p) (hst : σ.streams.get? s = some st)
    {id : BindingId} (hid : id ∈ st.acceptingBindingIds) (hold : (σ.releaseState s id).released = false)
    (hr : r.released = true) :
    Accounts cfg (σ.setReleases (σ.collectionReleaseStates.set (s, id) r)) fun t => p t + one st.scopePath t where
  scopes := setRelease_scoped h.scopes hst hid r
  balance t := by
    rw [setReleases_workIn, setReleases_counter, setRelease_childrenIn h.scopes hst hid hold hr, h.balance t]
    ring
  quiet := h.quiet

/-- A binding whose buffer is filled is owed as before. -/
theorem setBuffered (h : Accounts cfg σ p) (hst : σ.streams.get? s = some st)
    {id : BindingId} (hid : id ∈ st.acceptingBindingIds)
    (hr : r.released = (σ.releaseState s id).released) :
    Accounts cfg (σ.setReleases (σ.collectionReleaseStates.set (s, id) r)) p where
  scopes := setRelease_scoped h.scopes hst hid r
  balance t := by
    rw [setReleases_workIn, setRelease_childrenIn_of_eq σ s id hr, setReleases_counter]
    exact h.balance t
  quiet := h.quiet

/-- A member that arrives at a binding is buffered or fires the binding's release; no work is lost. -/
theorem collectMember (h : Accounts cfg σ p) {b : CollectionBinding}
    (hb : cfg.bindingForTarget s n σ.streams = some b) (hc : cfg.steps.get? n = some c)
    (hpath : tick.scopePath.dropLast = s.path) (now : Time) :
    Accounts cfg (LlamaAgents.collectMember c tick s b now σ).1 p := by
  obtain ⟨st, hst, hid, -, rfl⟩ := bindingForTarget_eq_some hb
  obtain ⟨-, -, hsp, -, -, hok⟩ := h.scopes.stream s st hst
  unfold LlamaAgents.collectMember
  dsimp only
  split
  · exact h
  · case isFalse hrel =>
    split
    · exact h.setBuffered hst hid rfl
    · rw [hpath]
      refine ((h.setReleased hst hid (by simpa using hrel) rfl).fire hc s _ hok now).congr fun t => ?_
      rw [hsp]
      omega

/-- The arrival of a member at a collect step takes its delivery off the books. -/
theorem routeMember (hp : ∀ t, 0 ≤ p t) (hscope : ScopeOk σ.streamSeq tick.scopePath)
    (h : Accounts cfg σ fun t => p t + one tick.scopePath t) (hc : cfg.steps.get? n = some c)
    (now : Time) : Accounts cfg (routeMemberToCollectStep cfg c tick n now σ).state p := by
  unfold routeMemberToCollectStep
  split
  · case h_1 hlast =>
    have hp' : ∀ t, p t = p t + one tick.scopePath t := fun t => by simp [one, hlast]
    split
    · exact (h.congr hp').of_eq rfl rfl rfl rfl fun e he => Or.inl he
    · exact (h.congr hp').report rfl
  · case h_2 s hlast =>
    have hp' : ∀ t, p t = p t + one tick.scopePath t - if some s = some t then 1 else 0 := fun t => by
      rw [one, hlast]
      split <;> omega
    have hpend : ∀ t, some s = some t → 1 ≤ p t + one tick.scopePath t := fun t ht => by
      have := hp t
      rw [one, hlast, if_pos ht]
      omega
    split
    · exact ((h.report rfl).adjust_delivered hpend now).congr hp'
    · case h_2 b hb => exact ((h.collectMember hb hc (hscope s hlast).1 now).adjust_delivered hpend now).congr hp'

/-- The delivery to a step that is not a collect step becomes a work item there, or fills a slot of a join. -/
theorem deliver (hp : ∀ t, 0 ≤ p t) (hscope : ScopeOk σ.streamSeq tick.scopePath)
    (hatt : tick.attempts = none) (h : Accounts cfg σ fun t => p t + one tick.scopePath t)
    (hc : cfg.steps.get? n = some c) (now : Time) : Accounts cfg (deliverToStep cfg c tick n now σ).1 p := by
  have hcons : consumeSupersededDelayedAttempt tick (σ.workers n) = σ.workers n := by
    simp [consumeSupersededDelayedAttempt, hatt]
  have hadd : ∀ (bound : BoundEvents) (w : InternalStepWorkerState), w.records = (σ.workers n).records →
      Accounts cfg (σ.setWorker n (addOrEnqueueEvent c n (tick.toAttempt bound) now w).1) p := by
    intro bound w hw
    have hrec := WorkAux.addOrEnqueueEvent_records c n now (tick.toAttempt bound) w
    rw [hw] at hrec
    exact (h.setWorker_cons hc hrec hscope).congr fun t => by
      change p t = p t + one tick.scopePath t - one tick.scopePath t
      omega
  unfold deliverToStep
  rw [hcons]
  dsimp only
  split
  · exact hadd _ _ rfl
  · case h_2 ps _ =>
    have hrec := staticCollectEvents_records tick.event c ps (σ.workers n)
    split
    · refine ((h.setWorker hc hrec).adjust_delivered (fun t ht => ?_) now).congr fun t => ?_
      · have := hp t
        rw [one, if_pos ht]
        omega
      · rw [one]
        split <;> omega
    · exact hadd _ _ hrec

/-- Of the deliveries of an event to a step and to those after it, one comes first. -/
theorem first_delivery (hp : ∀ t, 0 ≤ p t) {q : StepId × StepConfig} {l : List (StepId × StepConfig)}
    (h : Accounts cfg σ fun t => p t + ((q :: l).countP fun q => q.2.acceptsEvent tick.event && tick.isTargeted q.1) *
      one tick.scopePath t) (hyes : (q.2.acceptsEvent tick.event && tick.isTargeted q.1) = true) :
    (∀ t, 0 ≤ p t + (l.countP fun q => q.2.acceptsEvent tick.event && tick.isTargeted q.1) * one tick.scopePath t) ∧
      Accounts cfg σ fun t => p t + (l.countP fun q => q.2.acceptsEvent tick.event && tick.isTargeted q.1) * one tick.scopePath t +
        one tick.scopePath t := by
  rw [List.countP_cons_of_pos (by simpa using hyes)] at h
  refine ⟨fun t => ?_, h.congr fun t => by push_cast; ring⟩
  have := hp t
  have := one_nonneg tick.scopePath t
  positivity

/-- Routing an event takes each of its deliveries off the books once. -/
theorem route (hp : ∀ t, 0 ≤ p t) (hscope : ScopeOk σ.streamSeq tick.scopePath)
    (hatt : tick.attempts = none) {l : List (StepId × StepConfig)} (hl : ∀ q ∈ l, cfg.steps.get? q.1 = some q.2)
    (h : Accounts cfg σ fun t => p t + (l.countP fun q => q.2.acceptsEvent tick.event && tick.isTargeted q.1) *
      one tick.scopePath t) (now : Time) : Accounts cfg (routeToAcceptingSteps cfg tick [] now l σ).state p := by
  induction l generalizing σ with
  | nil => exact h.congr fun t => by simp
  | cons q l ih =>
    obtain ⟨n, c⟩ := q
    have hc := hl (n, c) List.mem_cons_self
    have hl' : ∀ q ∈ l, cfg.steps.get? q.1 = some q.2 := fun q hq => hl q (List.mem_cons_of_mem _ hq)
    rw [routeToAcceptingSteps, if_neg (by simp)]
    split
    · case isTrue hno =>
      rw [List.countP_cons_of_neg fun hc' => by dsimp only at hc'; simp [hc'] at hno] at h
      exact ih hscope hl' h
    · case isFalse hyes =>
      obtain ⟨hp', hsplit⟩ := h.first_delivery hp (by simpa using hyes)
      split
      · dsimp only
        split
        · case isTrue hfail =>
          have hnil : tick.scopePath.getLast? = none := by
            unfold routeMemberToCollectStep at hfail
            split at hfail
            · assumption
            · split at hfail <;> simp at hfail
          exact (Accounts.routeMember hp' hscope hsplit hc now).congr fun t => by simp [one, hnil]
        · have hseq := (routes_kept cfg now (routeMember_routes cfg now hc tick σ)).streamSeq
          exact ih (by rw [hseq]; exact hscope) hl' (Accounts.routeMember hp' hscope hsplit hc now)
      · have hseq := (deliverToStep_kept cfg now c tick n σ).streamSeq
        exact ih (by rw [hseq]; exact hscope) hl' (Accounts.deliver hp' hscope hatt hsplit hc now)

end Accounts

end LlamaAgents
