import LlamaAgents.Server.Stores
import LlamaAgents.Lib.Run

/-!
# The handler stores are interchangeable

After the same calls the stores in memory, in SQLite, in Postgres and in the AgentData service hold the same handlers and answer
the next call alike, as long as each call is plain: handlers have an id, texts that fit and a result that survives being written
and read, a query or delete selects no more than a page of the service, and a delete has a filter.

Each store's conditions say what the predicate of the store in memory says. A collection of the service stands for a table when
it has its rows, in the same order, and every cached id is that of the item of its handler.
-/

namespace LlamaAgents

open Lib (Dict Lru)

namespace StoresAux

/-! ## Conditions -/

/-- A list filter and its condition, in a language in which being in a list means what it says. -/
theorem inCondition_any {γ : Type} {isIn : List String → γ} {holds : γ → Bool} {value : Option String}
    (hisIn : ∀ values, holds (isIn values) = value.any fun v => values.contains v) (filter : Option (List String)) :
    (inCondition isIn filter).any (fun l => l.all holds) = filter.all fun values => value.any fun v => values.contains v := by
  cases filter with
  | none => rfl
  | some values =>
    cases values with
    | nil => cases value <;> simp [inCondition]
    | cons v values => simp [inCondition, hisIn]

/-- The filter on idle handlers and its condition, in a language in which being set means what it says. -/
theorem idleCondition_all {γ : Type} {isSet isUnset : γ} {holds : γ → Bool} {value : Option String}
    (hset : holds isSet = value.isSome) (hunset : holds isUnset = value.isNone) (filter : Option Bool) :
    (idleCondition isSet isUnset filter).all holds = filter.all fun idle => idle == value.isSome := by
  cases filter with
  | none => rfl
  | some idle => cases idle <;> cases value <;> simp_all [idleCondition]

theorem text_injective : Function.Injective Status.text := by
  intro s s' h
  cases s <;> cases s' <;> first | rfl | exact absurd h (by decide)

/-- A filter on statuses may look at their texts. -/
theorem contains_text (statuses : List Status) (s : Status) :
    (statuses.map Status.text).contains s.text = statuses.contains s := by
  rw [Bool.eq_iff_iff, List.contains_iff_mem, List.contains_iff_mem, List.mem_map_of_injective text_injective]

/-- Conditions that are joined hold when each of them does. -/
theorem joined_any {γ : Type} {holds : γ → Bool} (a b c d : Option (List γ)) (e : List γ) :
    (do let a ← a; let b ← b; let c ← c; let d ← d; return a ++ b ++ c ++ d ++ e : Option (List γ)).any (fun l => l.all holds) =
      (a.any (fun l => l.all holds) && b.any (fun l => l.all holds) && c.any (fun l => l.all holds) &&
        d.any (fun l => l.all holds) && e.all holds) := by
  cases a <;> cases b <;> cases c <;> cases d <;> simp [Bool.and_assoc]

/-- The predicate of the store in memory, by columns. -/
theorem accepts_eq (q : HandlerQuery) (h : PersistentHandler) :
    q.accepts h = (q.handlerIdIn.all (fun values => (HandlerColumn.value h .handlerId).any fun v => values.contains v) &&
      q.runIdIn.all (fun values => (HandlerColumn.value h .runId).any fun v => values.contains v) &&
      q.workflowNameIn.all (fun values => (HandlerColumn.value h .workflowName).any fun v => values.contains v) &&
      (q.statusIn.map fun l => l.map Status.text).all (fun values =>
        (HandlerColumn.value h .status).any fun v => values.contains v) &&
      q.isIdle.all fun idle => idle == (HandlerColumn.value h .idleSince).isSome) := by
  simp only [HandlerQuery.accepts, HandlerColumn.value, Option.any_some, Option.all_map, contains_text,
    Option.isSome_map]

/-- The clauses of the SQL stores say what `_matches_query` says. -/
theorem sqlFilters_any (q : HandlerQuery) (h : PersistentHandler) :
    (sqlFilters q).any (fun clauses => clauses.all (SqlClause.holds h)) = q.accepts h := by
  have hin : ∀ column filter, (sqlInClause column filter).any (fun l => l.all (SqlClause.holds h)) =
      filter.all fun values => (HandlerColumn.value h column).any fun v => values.contains v :=
    fun column => inCondition_any fun _ => rfl
  have hset : (SqlClause.isNotNull .idleSince).holds h = (HandlerColumn.value h .idleSince).isSome := rfl
  have hunset : (SqlClause.isNull .idleSince).holds h = (HandlerColumn.value h .idleSince).isNone := rfl
  rw [sqlFilters, joined_any, hin, hin, hin, hin, idleCondition_all hset hunset, accepts_eq]
  ac_rfl

/-- The conditions for the service say what `_matches_query` says. -/
theorem agentFilters_any (q : HandlerQuery) (h : PersistentHandler) :
    (agentFilters q).any (fun filters => filters.all (AgentFilter.holds h)) = q.accepts h := by
  have hin : ∀ field filter, (agentInFilter field filter).any (fun l => l.all (AgentFilter.holds h)) =
      filter.all fun values => (HandlerColumn.value h field).any fun v => values.contains v :=
    fun field => inCondition_any fun _ => rfl
  have hset : (AgentFilter.ne .idleSince none).holds h = (HandlerColumn.value h .idleSince).isSome := by
    cases hvalue : HandlerColumn.value h .idleSince <;> simp [AgentFilter.holds, hvalue]
  have hunset : (AgentFilter.eq .idleSince none).holds h = (HandlerColumn.value h .idleSince).isNone := by
    cases hvalue : HandlerColumn.value h .idleSince <;> simp [AgentFilter.holds, hvalue]
  rw [agentFilters, joined_any, hin, hin, hin, hin, idleCondition_all hset hunset, accepts_eq]

/-- Only the query without any filter has no clause. -/
theorem eq_of_sqlFilters_nil {q : HandlerQuery} (h : sqlFilters q = some []) : q = {} := by
  have hin : ∀ {column filter}, sqlInClause column filter = some [] → filter = none := by
    intro column filter hl
    match filter, hl with
    | none, _ => rfl
    | some [], hl => cases hl
    | some (v :: values), hl => cases hl
  have hidle : ∀ {isSet isUnset : SqlClause} {filter}, idleCondition isSet isUnset filter = [] → filter = none := by
    intro isSet isUnset filter hl
    match filter, hl with
    | none, _ => rfl
    | some true, hl => cases hl
    | some false, hl => cases hl
  obtain ⟨ids, runs, names, statuses, idle⟩ := q
  simp only [sqlFilters, Option.bind_eq_bind, Option.bind_eq_some_iff, Option.pure_def, Option.some.injEq,
    List.append_eq_nil_iff] at h
  obtain ⟨l₁, h₁, l₂, h₂, l₃, h₃, l₄, h₄, ⟨⟨⟨rfl, rfl⟩, rfl⟩, rfl⟩, h₅⟩ := h
  cases hin h₁
  cases hin h₂
  cases hin h₃
  cases Option.map_eq_none_iff.1 (hin h₄)
  cases hidle h₅
  rfl

/-! ## The SQL stores -/

variable {codec : ResultCodec} {T : HandlerTable} {varchar : Option Nat} {q : HandlerQuery}

/-- A handler that survives is read as it was written. -/
theorem readBack_of_survives {h : PersistentHandler} (hs : h.survives codec) : h.readBack codec = some h := by
  obtain ⟨id, name, status, run, error, result, started, updated, completed, idle⟩ := h
  cases result with
  | none => rfl
  | some e =>
    simp only [PersistentHandler.survives, Option.all_some, Bool.and_eq_true, decide_eq_true_eq] at hs
    simp only [PersistentHandler.readBack, hs.2, Option.map_some]

/-- Rows that survive are answered as they are. -/
theorem readRows_of_survives {l : List PersistentHandler} (hl : ∀ h ∈ l, h.survives codec) :
    readRows codec l = .handlers l := by
  rw [readRows, Lib.mapM_eq_some_map fun h hh => readBack_of_survives (hl h hh), List.map_id']

theorem remove_eq_self {p : PersistentHandler → Bool} (h : ∀ x, p x = false) : T.remove p = T := by
  obtain ⟨rows, hkeyed⟩ := T
  have hrows : (rows.filter fun _ x => !p x) = rows := by
    refine Dict.ext_entries (List.filter_eq_self.2 fun e _ => ?_)
    simp only [h, Bool.not_false]
  simp only [HandlerTable.remove, hrows]

/-- A query without possible matches selects nothing. -/
theorem accepts_of_sqlFilters_none (h : sqlFilters q = none) (x : PersistentHandler) : q.accepts x = false := by
  rw [← sqlFilters_any, h]
  rfl

/-- The clauses select what the query does. -/
theorem accepts_of_sqlFilters {clauses : List SqlClause} (h : sqlFilters q = some clauses) :
    (fun x => clauses.all (SqlClause.holds x)) = q.accepts := by
  funext x
  rw [← sqlFilters_any, h]
  rfl

/-- A query of a table is the query of the store in memory. -/
theorem sqlCall_query (hs : ∀ h ∈ T.query q, h.survives codec) :
    sqlCall codec varchar T (.query q) = (.handlers (T.query q), T) := by
  rw [sqlCall]
  cases h : sqlFilters q with
  | none =>
    have hnone : T.query q = [] := List.filter_eq_nil_iff.2 fun x _ => by simp [accepts_of_sqlFilters_none h x]
    rw [hnone]
  | some clauses =>
    simp only [accepts_of_sqlFilters h]
    rw [← readRows_of_survives hs]
    rfl

/-- So is a delete, if the query has a filter. -/
theorem sqlCall_delete (hq : q ≠ {}) :
    sqlCall codec varchar T (.delete q) = (.deleted (T.query q).length, T.delete q) := by
  rw [sqlCall]
  cases h : sqlFilters q with
  | none =>
    have hnone : T.query q = [] := List.filter_eq_nil_iff.2 fun x _ => by simp [accepts_of_sqlFilters_none h x]
    rw [hnone, HandlerTable.delete, remove_eq_self (accepts_of_sqlFilters_none h), List.length_nil]
  | some clauses =>
    cases clauses with
    | nil => exact absurd (eq_of_sqlFilters_nil h) hq
    | cons clause clauses =>
      simp only [accepts_of_sqlFilters h]
      rfl

/-! ## The AgentData store -/

/-- A collection that stands for a table: it has its rows, in the same order, each under an id of its own, and a cached id is
that of the item of its handler. -/
structure Keeps (T : HandlerTable) (s : AgentDataStore) : Prop where
  stored : T.rows.entries = s.service.items.map fun x => (x.data.handlerId, x.data)
  ids : (s.service.items.map AgentItem.id).Nodup
  fresh : ∀ x ∈ s.service.items, x.id < s.service.nextId
  named : ∀ x ∈ s.service.items, x.data.handlerId.isEmpty = false
  cached : ∀ {k id}, s.idCache.data.get? k = some id → ∃ x ∈ s.service.items, x.id = id ∧ x.data.handlerId = k

variable {s : AgentDataStore}

theorem Keeps.names (hk : Keeps T s) : (s.service.items.map fun x => x.data.handlerId).Nodup := by
  have hnodup := T.rows.nodup
  rw [hk.stored, List.map_map] at hnodup
  exact hnodup

theorem Keeps.values (hk : Keeps T s) : T.rows.values = s.service.items.map AgentItem.data := by
  rw [Dict.values, hk.stored, List.map_map]
  rfl

/-- Items have the same id exactly when they are of the same handler. -/
theorem Keeps.id_eq_iff (hk : Keeps T s) {x y : AgentItem} (hx : x ∈ s.service.items) (hy : y ∈ s.service.items) :
    y.id = x.id ↔ y.data.handlerId = x.data.handlerId := by
  constructor
  · intro h
    rw [List.inj_on_of_nodup_map hk.ids hy hx h]
  · intro h
    rw [List.inj_on_of_nodup_map hk.names hy hx h]

/-- The write of a handler to its item is the write of its row. -/
theorem Keeps.write (hk : Keeps T s) {x : AgentItem} (hx : x ∈ s.service.items) {h : PersistentHandler}
    (hname : x.data.handlerId = h.handlerId) : (s.write x.id h).1 = .done ∧ Keeps (T.update h) (s.write x.id h).2 := by
  have hwrite : s.write x.id h =
      (.done, { s with service := { s.service with items := s.service.items.map fun y => y.written x.id h } }) := by
    have hany : (s.service.items.any fun y => decide (y.id = x.id)) = true := List.any_eq_true.2 ⟨x, hx, decide_eq_true rfl⟩
    rw [AgentDataStore.write, AgentDataService.updateItem, if_pos hany]
  have hnames : ∀ y ∈ s.service.items, (y.written x.id h).data.handlerId = y.data.handlerId := by
    intro y hy
    unfold AgentItem.written
    split
    · case isTrue hy' => exact hname.symm.trans ((hk.id_eq_iff hx hy).1 hy').symm
    · rfl
  have hmem : h.handlerId ∈ T.rows.entries.map Prod.fst := by
    rw [hk.stored, List.map_map]
    exact List.mem_map.2 ⟨x, hx, hname⟩
  rw [hwrite]
  refine ⟨rfl, ⟨?_, ?_, ?_, ?_, ?_⟩⟩
  · change Dict.put h.handlerId h T.rows.entries = _
    rw [Dict.put_of_mem h T.rows.nodup hmem, hk.stored, List.map_map, List.map_map]
    refine List.map_congr_left fun y hy => ?_
    have hiff := hk.id_eq_iff hx hy
    rw [hname] at hiff
    simp only [Function.comp_apply, AgentItem.written, hiff]
    split <;> rfl
  · rw [List.map_map]
    have hids : s.service.items.map (AgentItem.id ∘ fun y => y.written x.id h) = s.service.items.map AgentItem.id :=
      List.map_congr_left fun y _ => y.written_id x.id h
    exact hids ▸ hk.ids
  · intro y hy
    obtain ⟨y', hy', rfl⟩ := List.mem_map.1 hy
    rw [AgentItem.written_id]
    exact hk.fresh y' hy'
  · intro y hy
    obtain ⟨y', hy', rfl⟩ := List.mem_map.1 hy
    rw [hnames y' hy']
    exact hk.named y' hy'
  · intro k id hcached
    obtain ⟨y, hy, rfl, rfl⟩ := hk.cached hcached
    exact ⟨_, List.mem_map_of_mem hy, y.written_id x.id h, hnames y hy⟩

/-- A collection with another cache of ids of items still stands for the table. -/
theorem Keeps.withCache (hk : Keeps T s) {c : Lru String Nat}
    (hc : ∀ {k id}, c.data.get? k = some id → ∃ x ∈ s.service.items, x.id = id ∧ x.data.handlerId = k) :
    Keeps T { s with idCache := c } :=
  ⟨hk.stored, hk.ids, hk.fresh, hk.named, hc⟩

/-- The items of a handler: it has none, or one. -/
theorem Keeps.matching_name (hk : Keeps T s) (k : String) :
    (s.service.matching [.eq .handlerId (some k)] = [] ∧ k ∉ T.rows.entries.map Prod.fst) ∨
    ∃ x ∈ s.service.items, x.data.handlerId = k ∧ s.service.matching [.eq .handlerId (some k)] = [x] := by
  have hmem : ∀ x, x ∈ s.service.matching [.eq .handlerId (some k)] ↔ x ∈ s.service.items ∧ x.data.handlerId = k := by
    intro x
    rw [AgentDataService.matching, List.mem_filter]
    simp [AgentFilter.holds, HandlerColumn.value]
  have hnodup : ((s.service.matching [.eq .handlerId (some k)]).map fun x => x.data.handlerId).Nodup :=
    hk.names.sublist (List.filter_sublist.map _)
  match hl : s.service.matching [.eq .handlerId (some k)] with
  | [] =>
    refine Or.inl ⟨rfl, ?_⟩
    rw [hk.stored, List.map_map]
    intro hin
    obtain ⟨x, hx, hname⟩ := List.mem_map.1 hin
    exact List.not_mem_nil (hl ▸ (hmem x).2 ⟨hx, hname⟩)
  | [x] =>
    have hx := (hmem x).1 (hl ▸ List.mem_singleton_self x)
    exact Or.inr ⟨x, hx.1, hx.2, rfl⟩
  | x :: y :: l =>
    have hx := (hmem x).1 (hl ▸ List.mem_cons_self)
    have hy := (hmem y).1 (hl ▸ List.mem_cons_of_mem x List.mem_cons_self)
    rw [hl, List.map_cons, List.map_cons, List.nodup_cons] at hnodup
    exact absurd (hx.2.trans hy.2.symm ▸ List.mem_cons_self) hnodup.1

/-- The creation of an item is the insertion of a row. -/
theorem Keeps.create (hk : Keeps T s) {h : PersistentHandler} (hnamed : h.handlerId.isEmpty = false)
    (hnew : h.handlerId ∉ T.rows.entries.map Prod.fst) :
    Keeps (T.update h) { service := s.service.create h, idCache := s.idCache.put h.handlerId s.service.nextId } := by
  refine ⟨?_, ?_, ?_, ?_, ?_⟩
  · change Dict.put h.handlerId h T.rows.entries = _
    rw [Dict.put_of_notMem h hnew, hk.stored, AgentDataService.create, List.map_append]
    rfl
  · rw [AgentDataService.create, List.map_append, List.map_singleton, ← List.concat_eq_append]
    refine hk.ids.concat fun hin => ?_
    obtain ⟨x, hx, hid⟩ := List.mem_map.1 hin
    exact (hk.fresh x hx).ne hid
  · intro x hx
    rcases List.mem_append.1 hx with hx | hx
    · exact Nat.lt_succ_of_lt (hk.fresh x hx)
    · cases List.mem_singleton.1 hx
      exact Nat.lt_succ_self _
  · intro x hx
    rcases List.mem_append.1 hx with hx | hx
    · exact hk.named x hx
    · cases List.mem_singleton.1 hx
      exact hnamed
  · intro k id hcached
    rcases Lru.get?_put hcached with ⟨rfl, rfl⟩ | hcached
    · exact ⟨⟨s.service.nextId, h⟩, List.mem_append_right _ (List.mem_singleton_self _), rfl, rfl⟩
    · obtain ⟨x, hx, hx'⟩ := hk.cached hcached
      exact ⟨x, List.mem_append_left _ hx, hx'⟩

/-- The update of a handler is the write of its row. -/
theorem Keeps.update (hk : Keeps T s) {h : PersistentHandler} (hnamed : h.handlerId.isEmpty = false)
    (hwrite : h.canWrite codec) :
    (s.call codec (.update h)).1 = .done ∧ Keeps (T.update h) (s.call codec (.update h)).2 := by
  have hread : Keeps T { s with idCache := (s.idCache.get h.handlerId).2 } :=
    hk.withCache fun hcached => hk.cached (Lru.get?_get hcached)
  rw [AgentDataStore.call, if_pos hwrite]
  dsimp only
  cases hget : (s.idCache.get h.handlerId).1 with
  | some id =>
    rw [Lru.get_fst] at hget
    obtain ⟨x, hx, rfl, hname⟩ := hk.cached hget
    exact hread.write hx hname
  | none =>
    rw [AgentDataStore.updateSearched]
    rcases hread.matching_name h.handlerId with ⟨hfound, hnew⟩ | ⟨x, hx, hname, hfound⟩
    · simp only [AgentDataService.search, hfound]
      exact ⟨rfl, hread.create hnamed hnew⟩
    · simp only [AgentDataService.search, hfound]
      have hput : Keeps T { s with idCache := (s.idCache.get h.handlerId).2.put h.handlerId x.id } := by
        refine hk.withCache fun hcached => ?_
        rcases Lru.get?_put hcached with ⟨rfl, rfl⟩ | hcached
        · exact ⟨x, hx, rfl, hname⟩
        · exact hread.cached hcached
      exact hput.write hx hname

/-- What is cached after the items of a page were forgotten was cached before, and is not of the page. -/
theorem get?_forgotten {l : List AgentItem} {c : Lru String Nat} {k : String} {id : Nat}
    (h : (l.foldl (fun c x => if x.data.handlerId.isEmpty then c else c.delete x.data.handlerId) c).data.get? k = some id) :
    c.data.get? k = some id ∧ ∀ x ∈ l, x.data.handlerId.isEmpty = false → x.data.handlerId ≠ k := by
  induction l generalizing c with
  | nil => exact ⟨h, List.forall_mem_nil _⟩
  | cons x l ih =>
    rw [List.foldl_cons] at h
    obtain ⟨hc, hl⟩ := ih h
    split at hc
    · case isTrue hempty =>
      refine ⟨hc, List.forall_mem_cons.2 ⟨fun hx => ?_, hl⟩⟩
      rw [hempty] at hx
      cases hx
    · obtain ⟨hne, hc⟩ := Lru.get?_delete hc
      exact ⟨hc, List.forall_mem_cons.2 ⟨fun _ => Ne.symm hne, hl⟩⟩

/-- A query without possible matches selects nothing. -/
theorem accepts_of_agentFilters_none (h : agentFilters q = none) (x : PersistentHandler) : q.accepts x = false := by
  rw [← agentFilters_any, h]
  rfl

/-- The conditions select what the query does. -/
theorem accepts_of_agentFilters {filters : List AgentFilter} (h : agentFilters q = some filters) (x : PersistentHandler) :
    filters.all (AgentFilter.holds x) = q.accepts x := by
  rw [← agentFilters_any, h]
  rfl

/-- The items that meet the conditions are those of the rows that the query selects. -/
theorem Keeps.matching (hk : Keeps T s) {filters : List AgentFilter} (h : agentFilters q = some filters) :
    (s.service.matching filters).map AgentItem.data = T.query q := by
  rw [HandlerTable.query, hk.values, List.filter_map, AgentDataService.matching]
  simp only [accepts_of_agentFilters h]
  rfl

/-- A query of the collection is the query of the table, if it selects no more than a page. -/
theorem Keeps.query (hk : Keeps T s) (hs : ∀ h ∈ T.query q, h.survives codec)
    (hpage : (T.query q).length ≤ agentPageSize) : s.call codec (.query q) = (.handlers (T.query q), s) := by
  rw [AgentDataStore.call]
  cases h : agentFilters q with
  | none =>
    have hnone : T.query q = [] := List.filter_eq_nil_iff.2 fun x _ => by simp [accepts_of_agentFilters_none h x]
    rw [hnone]
  | some filters =>
    have hmatching := hk.matching h
    rw [← hmatching, List.length_map] at hpage
    simp only [AgentDataService.search, Bool.false_eq_true, if_false, List.take_of_length_le hpage, hmatching,
      readRows_of_survives hs]

/-- The removal of the items that match is the removal of the rows that the query selects, if their ids are forgotten. -/
theorem Keeps.deleteMany (hk : Keeps T s) {filters : List AgentFilter} (h : agentFilters q = some filters) {c : Lru String Nat}
    (hc : ∀ {k id}, c.data.get? k = some id →
      s.idCache.data.get? k = some id ∧ ∀ x ∈ s.service.matching filters, x.data.handlerId ≠ k) :
    Keeps (T.delete q) { service := s.service.deleteMany filters, idCache := c } := by
  have hsub : (s.service.deleteMany filters).items.Sublist s.service.items := List.filter_sublist
  refine ⟨?_, hk.ids.sublist (hsub.map _), fun x hx => hk.fresh x (hsub.subset hx), fun x hx => hk.named x (hsub.subset hx), ?_⟩
  · change (T.rows.entries.filter fun e => !q.accepts e.2) = _
    rw [hk.stored, List.filter_map, AgentDataService.deleteMany]
    simp only [accepts_of_agentFilters h]
    rfl
  · intro k id hcached
    obtain ⟨hold, hkept⟩ := hc hcached
    obtain ⟨x, hx, hid, hname⟩ := hk.cached hold
    refine ⟨x, List.mem_filter.2 ⟨hx, ?_⟩, hid, hname⟩
    rw [Bool.not_eq_true', Bool.eq_false_iff]
    intro hmatch
    exact hkept x (List.mem_filter.2 ⟨hx, hmatch⟩) hname

/-- So is a delete. -/
theorem Keeps.delete (hk : Keeps T s) (hpage : (T.query q).length ≤ agentPageSize) :
    (s.call codec (.delete q)).1 = .deleted (T.query q).length ∧ Keeps (T.delete q) (s.call codec (.delete q)).2 := by
  rw [AgentDataStore.call]
  cases h : agentFilters q with
  | none =>
    have hnone : T.query q = [] := List.filter_eq_nil_iff.2 fun x _ => by simp [accepts_of_agentFilters_none h x]
    rw [hnone, HandlerTable.delete, remove_eq_self (accepts_of_agentFilters_none h)]
    exact ⟨rfl, hk⟩
  | some filters =>
    rw [← hk.matching h, List.length_map] at hpage ⊢
    have hdeleted := hk.deleteMany h fun hcached => ⟨(get?_forgotten hcached).1, fun x hx =>
      (get?_forgotten hcached).2 x hx (hk.named x (List.mem_of_mem_filter hx))⟩
    simp only [AgentDataService.search, Bool.false_eq_true, if_false, List.take_of_length_le hpage]
    split
    · case isTrue hempty =>
      -- Without a match the service is not asked to delete.
      rw [List.isEmpty_iff] at hempty
      have hsame : s.service.deleteMany filters = s.service := by
        have hitems : (s.service.deleteMany filters).items = s.service.items := by
          refine List.filter_eq_self.2 fun x hx => ?_
          rw [Bool.not_eq_true', Bool.eq_false_iff]
          exact List.filter_eq_nil_iff.1 hempty x hx
        exact congrArg (fun items => { s.service with items := items }) hitems
      rw [hsame] at hdeleted
      rw [hempty] at hdeleted ⊢
      exact ⟨rfl, hdeleted⟩
    · exact ⟨rfl, hdeleted⟩

/-! ## Each store does what a table does -/

variable {Q Q' : HandlerStores} {op : HandlerOp}

theorem memory_call {M : MemoryWorkflowStore} (huncapped : M.maxCompleted = none) (op : HandlerOp) :
    (M.call op).1 = (M.handlers.call op).1 ∧ (M.call op).2.handlers = (M.handlers.call op).2 ∧
      (M.call op).2.maxCompleted = none := by
  obtain ⟨handlers, maxCompleted, queue⟩ := M
  cases huncapped
  cases op with
  | update h =>
    simp only [MemoryWorkflowStore.call, MemoryWorkflowStore.evictOldestCompleted]
    split <;> exact ⟨rfl, rfl, rfl⟩
  | query q => exact ⟨rfl, rfl, rfl⟩
  | delete q => exact ⟨rfl, rfl, rfl⟩

/-- The rows of a table all survive. -/
def Survive (codec : ResultCodec) (T : HandlerTable) : Prop := ∀ k h, T.get? k = some h → h.survives codec

theorem Survive.query (hs : Survive codec T) (q : HandlerQuery) : ∀ h ∈ T.query q, h.survives codec :=
  fun h hmem => hs h.handlerId h (T.mem_query.1 hmem).1

/-- A plain call leaves rows that survive. -/
theorem Survive.call (hs : Survive codec T) (hop : T.isPlain codec op) : Survive codec (T.call op).2 := by
  cases op with
  | update h =>
    rw [HandlerTable.isPlain, Bool.and_eq_true] at hop
    intro k h' hget
    rw [HandlerTable.call, HandlerTable.get?_update] at hget
    split at hget
    · cases hget
      exact hop.2
    · exact hs k h' hget
  | query q => exact hs
  | delete q =>
    intro k h' hget
    rw [HandlerTable.call, HandlerTable.get?_delete] at hget
    exact hs k h' (Option.eq_some_of_filter_eq_some hget)

theorem sqlCall_eq (hs : Survive codec T) (hfits : ∀ h : PersistentHandler, h.fits (some 255) → h.fits varchar)
    (hop : T.isPlain codec op) : sqlCall codec varchar T op = T.call op := by
  cases op with
  | update h =>
    rw [HandlerTable.isPlain, Bool.and_eq_true, Bool.and_eq_true, PersistentHandler.survives, Bool.and_eq_true] at hop
    rw [sqlCall, if_pos (Bool.and_eq_true_iff.2 ⟨hop.2.1, hfits h hop.1.2⟩), HandlerTable.call]
  | query q => exact sqlCall_query (hs.query q)
  | delete q =>
    rw [HandlerTable.isPlain, Bool.and_eq_true, decide_eq_true_eq] at hop
    exact sqlCall_delete hop.1

theorem Keeps.call (hk : Keeps T s) (hs : Survive codec T) (hop : T.isPlain codec op) :
    (s.call codec op).1 = (T.call op).1 ∧ Keeps (T.call op).2 (s.call codec op).2 := by
  cases op with
  | update h =>
    rw [HandlerTable.isPlain, Bool.and_eq_true, Bool.and_eq_true, Bool.not_eq_true', PersistentHandler.survives,
      Bool.and_eq_true] at hop
    exact hk.update hop.1.1 hop.2.1
  | query q =>
    rw [HandlerTable.isPlain, decide_eq_true_eq] at hop
    rw [hk.query (hs.query q) hop]
    exact ⟨rfl, hk⟩
  | delete q =>
    rw [HandlerTable.isPlain, Bool.and_eq_true, decide_eq_true_eq, decide_eq_true_eq] at hop
    exact hk.delete hop.2

/-- The stores have the same rows, which survive. -/
structure Alike (codec : ResultCodec) (Q : HandlerStores) : Prop where
  survive : Survive codec Q.memory.handlers
  uncapped : Q.memory.maxCompleted = none
  sqlite : Q.sqlite = Q.memory.handlers
  postgres : Q.postgres = Q.memory.handlers
  agentData : Keeps Q.memory.handlers Q.agentData

theorem alike_empty : Alike codec {} where
  survive := fun _ _ h => nomatch h
  uncapped := rfl
  sqlite := rfl
  postgres := rfl
  agentData := ⟨rfl, List.nodup_nil, List.forall_mem_nil _, List.forall_mem_nil _, fun h => nomatch h⟩

/-- Answers that are the same agree. -/
theorem agrees_of_eq {a b : StoreAnswer} (h : a = b) : a.Agrees b := by
  subst h
  cases a with
  | handlers l => exact List.Perm.refl l
  | done => rfl
  | deleted n => rfl
  | raised => rfl

/-- A call that all stores take alike is answered alike. -/
theorem Alike.answers (ha : Alike codec Q) (hop : Q.takesAlike codec op) :
    (Q.memory.call op).1.Agrees (sqliteCall codec Q.sqlite op).1 ∧
      (Q.memory.call op).1.Agrees (postgresCall codec Q.postgres op).1 ∧
      (Q.memory.call op).1.Agrees (Q.agentData.call codec op).1 := by
  have hmemory := (memory_call ha.uncapped op).1
  rw [sqliteCall, postgresCall, ha.sqlite, ha.postgres, sqlCall_eq ha.survive (fun _ _ => rfl) hop,
    sqlCall_eq ha.survive (fun _ h => h) hop]
  exact ⟨agrees_of_eq hmemory, agrees_of_eq hmemory, agrees_of_eq (hmemory.trans (ha.agentData.call ha.survive hop).1.symm)⟩

/-- It leaves the stores with the same rows. -/
theorem step_alike (ha : Alike codec Q) (hop : Q.takesAlike codec op) (hstep : Q.step codec op = some Q') :
    Alike codec Q' := by
  obtain ⟨-, hhandlers, huncapped⟩ := memory_call ha.uncapped op
  rw [HandlerStores.step, Option.some.injEq] at hstep
  subst hstep
  refine ⟨?_, huncapped, ?_, ?_, ?_⟩
  · change Survive codec (Q.memory.call op).2.handlers
    rw [hhandlers]
    exact ha.survive.call hop
  · change (sqlCall codec none Q.sqlite op).2 = (Q.memory.call op).2.handlers
    rw [ha.sqlite, sqlCall_eq ha.survive (fun _ _ => rfl) hop, hhandlers]
  · change (sqlCall codec (some 255) Q.postgres op).2 = (Q.memory.call op).2.handlers
    rw [ha.postgres, sqlCall_eq ha.survive (fun _ h => h) hop, hhandlers]
  · change Keeps (Q.memory.call op).2.handlers (Q.agentData.call codec op).2
    rw [hhandlers]
    exact (ha.agentData.call ha.survive hop).2

end StoresAux

/-- After any sequence of plain calls the stores hold the same handlers, and they answer every plain call alike. -/
theorem handler_stores_are_interchangeable {codec : ResultCodec} {Q : HandlerStores}
    (hrun : Lib.Run (HandlerStores.step codec) (fun Q op => Q.takesAlike codec op) {} Q) :
    Q.sqlite.rows.values.Perm Q.memory.handlers.rows.values ∧ Q.postgres.rows.values.Perm Q.memory.handlers.rows.values ∧
    (Q.agentData.service.items.map AgentItem.data).Perm Q.memory.handlers.rows.values ∧
    ∀ op, Q.takesAlike codec op → (Q.memory.call op).1.Agrees (sqliteCall codec Q.sqlite op).1 ∧
      (Q.memory.call op).1.Agrees (postgresCall codec Q.postgres op).1 ∧
      (Q.memory.call op).1.Agrees (Q.agentData.call codec op).1 := by
  have ha : StoresAux.Alike codec Q := hrun.invariant (StoresAux.Alike codec) StoresAux.alike_empty fun _ _ _ ha hop hstep =>
    StoresAux.step_alike ha hop hstep
  refine ⟨?_, ?_, ?_, fun op hop => ha.answers hop⟩
  · rw [ha.sqlite]
  · rw [ha.postgres]
  · rw [ha.agentData.values]

namespace Divergent

/-- A running handler. -/
def handler (id : String) : PersistentHandler := { handlerId := id, workflowName := "Ask", status := .running, runId := some "r" }

/-- Of a plain stop event only the result is written; whatever else it was given is lost. -/
def plainStops : ResultCodec where
  canWrite _ := true
  readBack e := some { e with attrs := e.attrs.filter fun a => a.1 = "result" }

/-- `StopEvent(result=7, k=1)`. -/
def extended : Event := { type := .stopEvent, attrs := [("result", .int 7), ("k", .int 1)] }

/-- Ids that all differ. -/
def idOf (n : Nat) : String := String.ofList (List.replicate n 'h')

/-- How many handlers an answer has. -/
def count : StoreAnswer → Nat
  | .handlers l => l.length
  | .deleted n => n
  | _ => 0

/-- Every row can be read. -/
theorem count_readRows (l : List PersistentHandler) : count (readRows plainStops l) = l.length := by
  have hread : PersistentHandler.readBack plainStops = fun h => pure { h with result := h.result.bind plainStops.readBack } := by
    funext h
    obtain ⟨id, name, status, run, error, result, started, updated, completed, idle⟩ := h
    cases result <;> rfl
  rw [readRows, hread, List.mapM_pure]
  exact List.length_map _

/-- The service never gives back more than a page. -/
theorem count_agentData (Q : HandlerStores) (q : HandlerQuery) : count (Q.agentData.call plainStops (.query q)).1 ≤ 100 := by
  rw [AgentDataStore.call]
  cases agentFilters q with
  | none => exact Nat.zero_le _
  | some filters =>
    rw [count_readRows, List.length_map]
    exact List.length_take_le _ _

/-- Any number of handlers can be stored. -/
theorem exists_stored (n : Nat) : ∃ Q, Lib.Run (HandlerStores.step plainStops) (fun _ _ => True) {} Q ∧
    Q.memory.handlers.rows.keys = (List.range n).map idOf := by
  induction n with
  | zero => exact ⟨{}, .refl, rfl⟩
  | succ n ih =>
    obtain ⟨Q, hrun, hkeys⟩ := ih
    refine ⟨_, hrun.tail (a := .update (handler (idOf n))) trivial rfl, ?_⟩
    have hnew : idOf n ∉ Q.memory.handlers.rows.keys := by
      rw [hkeys, List.mem_map]
      rintro ⟨m, hm, heq⟩
      have hlength := congrArg String.length heq
      simp only [idOf, String.length_ofList, List.length_replicate] at hlength
      exact (List.mem_range.1 hm).ne hlength
    change (Dict.put (idOf n) _ Q.memory.handlers.rows.entries).map Prod.fst = _
    rw [Dict.put_of_notMem _ hnew, List.map_append, List.range_succ, List.map_append, ← hkeys]
    rfl

/-- A handler whose texts do not fit is in memory only. -/
theorem exists_refused (h : PersistentHandler) (hlong : h.fits (some 255) = false) :
    ∃ Q, Lib.Run (HandlerStores.step plainStops) (fun _ _ => True) {} Q ∧ Q.memory.handlers.rows.values.length = 1 ∧
      Q.postgres.rows.values = [] := by
  refine ⟨_, Lib.Run.refl.tail (a := .update h) trivial rfl, ?_, ?_⟩
  · change (MemoryWorkflowStore.call { maxCompleted := none } (.update h)).2.handlers.rows.values.length = 1
    rw [(StoresAux.memory_call rfl _).2.1]
    rfl
  · change (sqlCall plainStops (some 255) .empty (.update h)).2.rows.values = []
    rw [sqlCall, hlong, Bool.and_false]
    rfl

end Divergent

open Divergent in
/-- The stores differ when they are asked to delete everything, when a query selects more than a page, after a handler without an
id was deleted and is stored again, when a text does not fit, and when a result loses attributes on its way to the row and back. -/
theorem handler_stores_are_interchangeable_false :
    (∃ Q, Lib.Run (HandlerStores.step plainStops) (fun _ _ => True) {} Q ∧ (Q.memory.call (.delete {})).1 = .deleted 1 ∧
      (sqliteCall plainStops Q.sqlite (.delete {})).1 = .deleted 0 ∧ (Q.agentData.call plainStops (.delete {})).1 = .deleted 1) ∧
    (∃ Q, Lib.Run (HandlerStores.step plainStops) (fun _ _ => True) {} Q ∧ count (Q.memory.call (.query {})).1 = 101 ∧
      count (Q.agentData.call plainStops (.query {})).1 ≤ 100) ∧
    (∃ Q, Lib.Run (HandlerStores.step plainStops) (fun _ _ => True) {} Q ∧ Q.memory.handlers.rows.values.length = 1 ∧
      Q.agentData.service.items = []) ∧
    (∃ Q, Lib.Run (HandlerStores.step plainStops) (fun _ _ => True) {} Q ∧ Q.memory.handlers.rows.values.length = 1 ∧
      Q.postgres.rows.values = []) ∧
    ∃ Q, Lib.Run (HandlerStores.step plainStops) (fun _ _ => True) {} Q ∧
      (Q.memory.call (.query {})).1 = .handlers [{ handler "a" with result := some extended }] ∧
      (sqliteCall plainStops Q.sqlite (.query {})).1 =
        .handlers [{ handler "a" with result := some { extended with attrs := [("result", .int 7)] } }] := by
  refine ⟨?_, ?_, ?_, ?_, ?_⟩
  · exact Lib.Run.exists_of_actions _ _ [.update (handler "a")] _ (by decide +kernel)
  · obtain ⟨Q, hrun, hkeys⟩ := exists_stored 101
    refine ⟨Q, hrun, ?_, count_agentData Q {}⟩
    have hall : Q.memory.handlers.query {} = Q.memory.handlers.rows.values := List.filter_eq_self.2 fun _ _ => rfl
    change (Q.memory.handlers.query {}).length = 101
    calc (Q.memory.handlers.query {}).length = Q.memory.handlers.rows.entries.length := by
          rw [hall, Dict.values, List.length_map]
      _ = Q.memory.handlers.rows.keys.length := (List.length_map _).symm
      _ = 101 := by rw [hkeys, List.length_map, List.length_range]
  · exact Lib.Run.exists_of_actions _ _ [.update (handler ""), .delete { handlerIdIn := some [""] }, .update (handler "")] _
      (by decide +kernel)
  · refine exists_refused (handler (idOf 256)) ?_
    have hlength : (idOf 256).length = 256 := by rw [idOf, String.length_ofList, List.length_replicate]
    simp only [PersistentHandler.fits, handler, hlength]
    rfl
  · exact Lib.Run.exists_of_actions _ _ [.update { handler "a" with result := some extended }] _ (by decide +kernel)

open Divergent in
/-- Two handlers are stored and one of them is deleted: a delete of what is left has the same answer from all stores. -/
theorem handler_stores_are_interchangeable_deleted : ∃ Q : HandlerStores, Q.memory.handlers.rows.values.length = 1 ∧
    (Q.memory.call (.delete { runIdIn := some ["r"] })).1 = .deleted 1 ∧
    (Q.agentData.call plainStops (.delete { runIdIn := some ["r"] })).1 = .deleted 1 := by
  obtain ⟨Q, hrun, hlength, hdeleted, hplain⟩ := Lib.Run.exists_of_exec (HandlerStores.step plainStops)
    (fun Q op => Q.takesAlike plainStops op) {}
    [.update (handler "a"), .update (handler "b"), .delete { handlerIdIn := some ["a"] }]
    (fun Q => Q.memory.handlers.rows.values.length = 1 ∧ (Q.memory.call (.delete { runIdIn := some ["r"] })).1 = .deleted 1 ∧
      Q.takesAlike plainStops (.delete { runIdIn := some ["r"] })) (by decide +kernel)
  have hagree := ((handler_stores_are_interchangeable hrun).2.2.2 _ hplain).2.2
  rw [hdeleted] at hagree
  match hanswer : (Q.agentData.call plainStops (.delete { runIdIn := some ["r"] })).1, hagree with
  | .deleted n, hagree => exact ⟨Q, hlength, hdeleted, hanswer.trans hagree.symm⟩

end LlamaAgents
