import Logalot.ColdSearch
import Logalot.TierFiltersSound
import Logalot.UnionSearchSound

/-!
# Cursors across the tiers

A page of the hot store lies below its cursor, and the cursor it returns below or
at each of its events. No other route of a search reads the cursor.
-/

namespace Logalot

open Go Pg

/-! ## Positions -/

def LogEvent.position {α : Type} (ev : LogEvent α) : Option (Lex (Int × Uuid)) :=
  (uuidIn ev.id).map fun u => toLex (ev.ts, u)

def Cursor.position (c : Cursor) : Option (Lex (Int × Uuid)) := (uuidIn c.id).map fun u => toLex (c.ts, u)

def LogEvent.Below {α : Type} (ev : LogEvent α) (c : Cursor) : Prop :=
  ∃ p k, ev.position = some p ∧ c.position = some k ∧ p < k

def Row.position (r : Row) : Lex (Int × Uuid) := toLex (r.ts * 1000, r.id)

theorem position_spelled (r : Row) : r.toEvent.spelled.position = some r.position := by
  simp only [LogEvent.position, LogEvent.spelled, Row.toEvent, uuidIn_uuidOut]
  rfl

theorem position_mono {r r' : Row} (h : r.key ≤ r'.key) : r.position ≤ r'.position := by
  rw [Row.key, Row.key, Prod.Lex.le_iff] at h
  rw [Row.position, Row.position, Prod.Lex.le_iff]
  simp only [ofLex_toLex] at h ⊢
  rcases h with h | ⟨h, hu⟩
  · exact Or.inl (by omega)
  · exact Or.inr ⟨by omega, hu⟩

theorem position_lt {r : Row} {t : Time} {u : Uuid} (h : r.key < toLex (micros t, u)) : r.position < toLex (t, u) := by
  rw [Row.key, Prod.Lex.lt_iff] at h
  rw [Row.position, Prod.Lex.lt_iff]
  simp only [ofLex_toLex] at h ⊢
  have hm : micros t * 1000 ≤ t := Int.ediv_mul_le t (by decide)
  rcases h with h | ⟨h, hu⟩
  · exact Or.inl (lt_of_lt_of_le (Int.mul_lt_mul_of_pos_right h (by decide)) hm)
  · rcases lt_or_eq_of_le (h ▸ hm) with hlt | heq
    · exact Or.inl hlt
    · exact Or.inr ⟨heq, hu⟩

/-! ## Pages of the hot store -/

theorem cond_of_mapM :
    ∀ {vs : List (Clause Arg)} {conds : List Cond} {v : Clause Arg}, vs.mapM Clause.cond = some conds →
    v ∈ vs → ∃ c ∈ conds, v.cond = some c
  | w :: vs, conds, v, h, hv => by
    rw [List.mapM_cons, Option.bind_eq_bind, Option.bind_eq_some_iff] at h
    obtain ⟨c, hc, h⟩ := h
    rw [Option.bind_eq_bind, Option.bind_eq_some_iff] at h
    obtain ⟨cs, hcs, h⟩ := h
    cases h
    rcases List.mem_cons.mp hv with rfl | hv
    · exact ⟨c, List.mem_cons_self, hc⟩
    · obtain ⟨d, hd, e⟩ := cond_of_mapM hcs hv
      exact ⟨d, List.mem_cons_of_mem _ hd, e⟩

structure HotPage (q : SearchQuery) (page : SearchPage Bytes) (rows : List Row) : Prop where
  events : page.events = rows.map fun r => r.toEvent.spelled
  sorted : rows.Pairwise fun a b => b.position ≤ a.position
  below : ∀ c, q.cursor = some c → ∀ r ∈ rows, ∃ k, c.position = some k ∧ r.position < k
  next : ∀ c, page.nextCursor = some c → ∃ r, rows.getLast? = some r ∧ c.position = some r.position

theorem paginate_events (events : List LogEvent) (limit : Nat) : (paginate events limit).1 = events.take limit := by
  unfold paginate
  split
  · exact (List.take_of_length_le ‹_›).symm
  · rfl

theorem paginate_next {events : List LogEvent} {limit : Nat} {c : Cursor} (h : (paginate events limit).2 = some c) :
    ∃ last, (events.take limit).getLast? = some last ∧ c = ⟨last.ts, last.id⟩ := by
  unfold paginate at h
  split at h
  · cases h
  · obtain ⟨last, hl, rfl⟩ := Option.map_eq_some_iff.mp h
    exact ⟨last, hl, rfl⟩

theorem query_of_search {fts : Fts} {db : LogTable} {tc : TenantContext} {q : SearchQuery} {page : SearchPage}
    (h : search fts db tc q = some page) : ∃ conds,
      (searchStmt tc.tenantId q (searchLimit q.limit + 1)).clauses.mapM Clause.cond = some conds ∧
      page.events = ((newestFirst (matching fts conds db.rows)).take (searchLimit q.limit)).map Row.toEvent ∧
      ∀ c, page.nextCursor = some c → ∃ last, page.events.getLast? = some last ∧ c = ⟨last.ts, last.id⟩ := by
  have hd := (buildSearch_isolates fts tc.tenantId q (searchLimit q.limit + 1)).denotes
  have hk := queryKind_newest (searchLimit q.limit + 1)
  push_cast at hk
  simp only [search] at h
  split at h
  · cases h
  split at h
  · rename_i events he
    cases h
    cases hm : (searchStmt tc.tenantId q (searchLimit q.limit + 1)).clauses.mapM Clause.cond with
    | none =>
      rw [evalSql, readQuery_of_denotes hd, Stmt.query, hm] at he
      split at he <;> simp_all
    | some conds =>
      have hq : (searchStmt tc.tenantId q (searchLimit q.limit + 1)).query =
          some ⟨.newest (searchLimit q.limit + 1), conds⟩ := by
        rw [Stmt.query, hm]
        exact hk ▸ rfl
      rw [evalSql, readQuery_of_denotes hd, hq, Option.bind_some, Query.run] at he
      obtain rfl := Result.events.inj (Option.some.inj he)
      have htake := paginate_events (((newestFirst (matching fts conds db.rows)).take (searchLimit q.limit + 1)).map
        Row.toEvent) (searchLimit q.limit)
      rw [← List.map_take, List.take_take, Nat.min_eq_left (Nat.le_succ _)] at htake
      refine ⟨conds, rfl, htake, fun c hc => ?_⟩
      obtain ⟨last, hl, rfl⟩ := paginate_next hc
      exact ⟨last, by rw [paginate_events, hl], rfl⟩
  · cases h

theorem hotPage_of_search {fts : Fts} {db : LogTable} {tc : TenantContext} {q : SearchQuery} {page : SearchPage}
    (h : search fts db tc q = some page) : ∃ rows, HotPage q page.spelled rows := by
  obtain ⟨conds, hm, he, hn⟩ := query_of_search h
  refine ⟨_, (congrArg (List.map LogEvent.spelled) he).trans List.map_map, ?_, fun c hc r hr => ?_, fun c hc => ?_⟩
  · exact ((pairwise_newestFirst _).sublist (List.take_sublist _ _)).imp fun hab => position_mono hab
  · have hv : Clause.keyBefore (.time c.ts) (.text c.id) ∈
        (searchStmt tc.tenantId q (searchLimit q.limit + 1)).clauses := by
      simp [searchStmt, cursorClause, hc]
    obtain ⟨d, hd, hcond⟩ := cond_of_mapM hm hv
    obtain ⟨u, hu, rfl⟩ := Option.map_eq_some_iff.mp hcond
    refine ⟨toLex (c.ts, u), by simp [Cursor.position, hu], ?_⟩
    have hrow := (List.mem_filter.mp (mem_newestFirst.mp (List.mem_of_mem_take hr))).2
    exact position_lt (by simpa [Cond.holds] using List.all_eq_true.mp hrow _ hd)
  · obtain ⟨last, hl, rfl⟩ := hn c hc
    rw [he, List.getLast?_map, Option.map_eq_some_iff] at hl
    obtain ⟨r, hr, rfl⟩ := hl
    exact ⟨r, hr, position_spelled r⟩

def Serves (fts : Fts) (db : LogTable) (hot : StoreSearch Bytes) : Prop :=
  ∀ tc q, (∃ page, search fts db tc q = some page ∧ (hot tc q).1 = page.spelled) ∨
    ((hot tc q).1 = ⟨[], none⟩ ∧ (hot tc q).2 ≠ none)

theorem hotPage_of_serves {fts : Fts} {db : LogTable} {hot : StoreSearch Bytes} (h : Serves fts db hot)
    (tc : TenantContext) (q : SearchQuery) : ∃ rows, HotPage q (hot tc q).1 rows := by
  rcases h tc q with ⟨page, h, he⟩ | ⟨h, -⟩
  · rw [he]
    exact hotPage_of_search h
  · rw [h]
    exact ⟨[], rfl, .nil, fun _ _ _ hr => (by cases hr), fun _ hc => by cases hc⟩

/-! ## Searches -/

structure Fetch where
  slice : SortSlice Bytes
  hot : StoreSearch Bytes
  cold : ColdStore
  now : Time
  now' : Time
  coldNow : Time

def TieredSearcher.fetch (ts : TieredSearcher) (tc : TenantContext) (q : SearchQuery) (f : Fetch) : Answer Bytes :=
  (ts.search f.slice f.hot (f.cold.search f.coldNow) f.now f.now' tc q).2

def TieredSearcher.HotOnly (ts : TieredSearcher) (now : Time) (q : SearchQuery) : Prop :=
  ts.enabled = false ∨ ts.hasCold = false ∨ ts.classifyTier now q = .hot

section
variable {ts : TieredSearcher} {tc : TenantContext} {q : SearchQuery} {f : Fetch}

theorem fetch_hot (h : ts.HotOnly f.now q) : ts.fetch tc q f = f.hot tc (withLimit q) := by
  have hw : ts.classifyTier f.now (withLimit q) = ts.classifyTier f.now q := rfl
  unfold TieredSearcher.fetch TieredSearcher.search
  by_cases hc : (!ts.enabled || !ts.hasCold) = true
  · rw [if_pos hc]
  · rw [if_neg hc, hw]
    rcases h with h | h | h
    · simp [h] at hc
    · simp [h] at hc
    · rw [h]

theorem fetch_cursor (h : ¬ ts.HotOnly f.now q) (c : Option Cursor) :
    ts.fetch tc { q with cursor := c } f = ts.fetch tc q f := by
  have hc : ¬ (!ts.enabled || !ts.hasCold) = true := fun e => h (by
    simp only [Bool.or_eq_true, Bool.not_eq_true'] at e
    exact e.imp_right Or.inl)
  unfold TieredSearcher.fetch TieredSearcher.search
  rw [if_neg hc, if_neg hc]
  have hw : ∀ c, ts.classifyTier f.now (withLimit { q with cursor := c }) = ts.classifyTier f.now q := fun _ => rfl
  have hw' : ts.classifyTier f.now (withLimit q) = ts.classifyTier f.now q := rfl
  rw [hw, hw']
  cases ht : ts.classifyTier f.now q with
  | hot => exact absurd (Or.inr (Or.inr ht)) h
  | cold => rfl
  | both => rfl

theorem fetch_both (he : ts.enabled = true) (hc : ts.hasCold = true) (h : ts.classifyTier f.now q = .both) :
    ts.fetch tc q f = mergePages f.slice (withLimit q).limit (f.hot tc (ts.split f.now' (withLimit q)).1)
      (f.cold.search f.coldNow tc (ts.split f.now' (withLimit q)).2) := by
  have hw : ts.classifyTier f.now (withLimit q) = .both := h
  unfold TieredSearcher.fetch TieredSearcher.search
  rw [if_neg (by simp [he, hc]), hw]
  rfl

theorem fetch_cold (he : ts.enabled = true) (hc : ts.hasCold = true) (h : ts.classifyTier f.now q = .cold) :
    ts.fetch tc q f = f.cold.search f.coldNow tc (withLimit q) := by
  have hw : ts.classifyTier f.now (withLimit q) = .cold := h
  unfold TieredSearcher.fetch TieredSearcher.search
  rw [if_neg (by simp [he, hc]), hw]

/-! ## Following cursors -/

/-- Pages fetched one after the other from a cursor on, until the client stops. -/
inductive TieredSearcher.Pages (ts : TieredSearcher) (tc : TenantContext) (q : SearchQuery) :
    Option Cursor → List (Fetch × List (LogEvent Bytes)) → Prop
  | last {c f} : Pages ts tc q c [(f, (ts.fetch tc { q with cursor := c } f).1.events)]
  | next {c f c' rest} : (ts.fetch tc { q with cursor := c } f).1.nextCursor = some c' → Pages ts tc q (some c') rest →
      Pages ts tc q c ((f, (ts.fetch tc { q with cursor := c } f).1.events) :: rest)

def LogEvent.Precedes {α : Type} (ev' ev : LogEvent α) : Prop :=
  ∃ p' p, ev'.position = some p' ∧ ev.position = some p ∧ p' < p

def TieredSearcher.Hot (ts : TieredSearcher) (q : SearchQuery) (f : Fetch) : Prop :=
  ts.HotOnly f.now q ∧ ∃ fts db, Serves fts db f.hot

theorem hotPage_of_fetch (h : ts.Hot q f) (tc : TenantContext) : ∃ rows, HotPage q (ts.fetch tc q f).1 rows := by
  obtain ⟨hroute, fts, db, hs⟩ := h
  rw [fetch_hot hroute]
  obtain ⟨rows, hp⟩ := hotPage_of_serves hs tc (withLimit q)
  exact ⟨rows, hp.events, hp.sorted, hp.below, hp.next⟩

theorem HotPage.below_cursor {page : SearchPage Bytes} {rows : List Row} (h : HotPage q page rows) {c : Cursor}
    (hc : q.cursor = some c) : ∀ ev ∈ page.events, ev.Below c := by
  intro ev hev
  rw [h.events] at hev
  obtain ⟨r, hr, rfl⟩ := List.mem_map.mp hev
  obtain ⟨k, hk, hlt⟩ := h.below c hc r hr
  exact ⟨_, k, position_spelled r, hk, hlt⟩

theorem HotPage.le_next {page : SearchPage Bytes} {rows : List Row} (h : HotPage q page rows) {c : Cursor}
    (hc : page.nextCursor = some c) : ∃ r ∈ rows, c.position = some r.position ∧
      ∀ ev ∈ page.events, ∃ p, ev.position = some p ∧ r.position ≤ p := by
  obtain ⟨r, hlast, hpos⟩ := h.next c hc
  obtain ⟨init, rfl⟩ := List.getLast?_eq_some_iff.mp hlast
  refine ⟨r, by simp, hpos, fun ev hev => ?_⟩
  rw [h.events] at hev
  obtain ⟨r', hr', rfl⟩ := List.mem_map.mp hev
  refine ⟨_, position_spelled r', ?_⟩
  rcases List.mem_append.mp hr' with hr' | hr'
  · exact (List.pairwise_append.mp h.sorted).2.2 r' hr' r (List.mem_singleton_self r)
  · rw [List.mem_singleton.mp hr']

theorem pages_below {c : Option Cursor} {pages : List (Fetch × List (LogEvent Bytes))} (h : ts.Pages tc q c pages)
    (hh : ∀ p ∈ pages, ts.Hot q p.1) :
    (∀ c0, c = some c0 → ∀ p ∈ pages, ∀ ev ∈ p.2, ev.Below c0) ∧
      pages.Pairwise fun p p' => ∀ ev ∈ p.2, ∀ ev' ∈ p'.2, ev'.Precedes ev := by
  induction h with
  | @last c f =>
    obtain ⟨rows, hp⟩ := hotPage_of_fetch (q := { q with cursor := c }) (hh _ List.mem_cons_self) tc
    refine ⟨fun c0 hc p hmem => ?_, List.pairwise_singleton ..⟩
    rw [List.mem_singleton.mp hmem]
    exact hp.below_cursor hc
  | @next c f c' rest hn _ ih =>
    obtain ⟨rows, hp⟩ := hotPage_of_fetch (q := { q with cursor := c }) (hh _ List.mem_cons_self) tc
    obtain ⟨hbelow, hpair⟩ := ih fun p hmem => hh p (List.mem_cons_of_mem _ hmem)
    obtain ⟨r, hr, hpos, hle⟩ := hp.le_next hn
    constructor
    · intro c0 hc p hmem
      rcases List.mem_cons.mp hmem with rfl | hmem
      · exact hp.below_cursor hc
      · intro ev hev
        obtain ⟨k, hk, hlt⟩ := hp.below c0 hc r hr
        obtain ⟨a, k', ha, hk', hlt'⟩ := hbelow c' rfl p hmem ev hev
        rw [hpos] at hk'
        cases hk'
        exact ⟨a, k, ha, hk, hlt'.trans hlt⟩
    · refine List.pairwise_cons.mpr ⟨fun p' hmem ev hev ev' hev' => ?_, hpair⟩
      obtain ⟨b, hb, hge⟩ := hle ev hev
      obtain ⟨a, k', ha, hk', hlt⟩ := hbelow c' rfl p' hmem ev' hev'
      rw [hpos] at hk'
      cases hk'
      exact ⟨a, b, ha, hb, lt_of_lt_of_le hlt hge⟩

end

/-- **Cursors.** A search of the hot store alone returns events strictly below its cursor, and pages that are
all of that kind never return an event again. Any other search returns what it returns without a cursor. -/
theorem search_below_cursor (ts : TieredSearcher) (tc : TenantContext) (q : SearchQuery) :
    (∀ f, ts.Hot q f → ∀ c, q.cursor = some c → ∀ ev ∈ (ts.fetch tc q f).1.events, ev.Below c) ∧
    (∀ c pages, ts.Pages tc q c pages → (∀ p ∈ pages, ts.Hot q p.1) →
      pages.Pairwise fun p p' => ∀ ev ∈ p.2, ∀ ev' ∈ p'.2, ev'.Precedes ev) ∧
    ∀ f, ¬ ts.HotOnly f.now q → ∀ c, ts.fetch tc { q with cursor := c } f = ts.fetch tc q f := by
  refine ⟨fun f hf c hc => ?_, fun c pages h hh => (pages_below h hh).2, fun f hf c => fetch_cursor hf c⟩
  obtain ⟨rows, hp⟩ := hotPage_of_fetch hf tc
  exact hp.below_cursor hc

/-! ### A page again -/

section
open Pipeline

def hotStore (fts : Fts) (db : LogTable) : StoreSearch Bytes := fun tc q =>
  match search fts db tc q with
  | some page => (page.spelled, none)
  | none => (⟨[], none⟩, some [])

theorem serves_hotStore (fts : Fts) (db : LogTable) : Serves fts db (hotStore fts db) := by
  intro tc q
  unfold hotStore
  cases h : search fts db tc q with
  | none => exact Or.inr ⟨rfl, by simp⟩
  | some page => exact Or.inl ⟨page, rfl, rfl⟩

def ColdRow.cells (r : ColdRow) : AthenaRow :=
  [some (itoa r.record.ts), some r.record.id, some r.record.service, some r.record.level, some r.record.message,
    some (bs "\x7b\x7d")]

def athenaOver (T : Trino) (st : Statement) (rows : List ColdRow) : Athena where
  start _ := .ok []
  polls _ := [.ok .running, .ok .succeeded]
  contextErr := []
  results _ := .ok ([] :: (st.eval T.engine fun _ => rows).map ColdRow.cells)

def archiveOver (rows : List ColdRow) (q : SearchQuery) : ColdStore :=
  ⟨true, some (athenaOver asciiTrino (coldStatement juneFirst sampleContext q) rows)⟩

theorem search_archiveOver (rows : List ColdRow) (q : SearchQuery) :
    (archiveOver rows q).search juneFirst sampleContext q = (fetchResults ([] ::
      ((coldStatement juneFirst sampleContext q).eval asciiTrino.engine fun _ => rows).map ColdRow.cells)
        q.limit, none) := by
  have hv : sampleContext.valid = none := by decide
  simp only [ColdStore.search, archiveOver, hv, checkTenantPredicate_buildColdQuery juneFirst sampleContext q hv]
  rfl

def mayRows : LogTable := ⟨[rowAt (midnight 2026 5 10), rowAt (midnight 2026 5 11)], by decide +kernel⟩

def mayQuery : SearchQuery := { tsFrom := juneFirst - 30 * 86400000000000, limit := 1 }

def mayPage : SearchPage Bytes :=
  ⟨[(rowAt (midnight 2026 5 11)).toEvent.spelled], some ⟨midnight 2026 5 11, (rowAt (midnight 2026 5 11)).toEvent.id⟩⟩

theorem may_page : hotStore (fun _ _ => true) mayRows sampleContext (withLimit mayQuery) = (mayPage, none) ∧
    hotStore (fun _ _ => true) mayRows sampleContext (router.split (juneFirst + 1000000000) (withLimit mayQuery)).1 =
      (mayPage, none) := by
  decide +kernel

def mayFetch (now : Time) : Fetch :=
  ⟨insertionSlice, hotStore (fun _ _ => true) mayRows, archiveOver [] (router.split now (withLimit mayQuery)).2,
    now, now, juneFirst⟩

theorem first_may_page : router.fetch sampleContext mayQuery (mayFetch juneFirst) = (mayPage, none) := by
  have hroute : router.classifyTier juneFirst mayQuery = .hot := by decide
  rw [fetch_hot (Or.inr (Or.inr hroute))]
  simp only [mayFetch, may_page.1]

theorem second_may_page (c : Option Cursor) :
    router.fetch sampleContext { mayQuery with cursor := c } (mayFetch (juneFirst + 1000000000)) =
      (⟨mayPage.events, none⟩, none) := by
  have hroute : router.classifyTier (juneFirst + 1000000000) mayQuery = .both := by decide
  have hhot : ¬ router.HotOnly (juneFirst + 1000000000) mayQuery := by
    rintro (h | h | h)
    · cases h
    · cases h
    · rw [hroute] at h
      cases h
  have hdedupe : dedupe [] (mayPage.events ++ []) = mayPage.events := by decide
  have hmerge : mergePages insertionSlice 1 (mayPage, none) (⟨[], none⟩, none) = (⟨mayPage.events, none⟩, none) := by
    simp only [mergePages, hdedupe]
    rfl
  rw [fetch_cursor hhot, fetch_both rfl rfl hroute]
  simp only [mayFetch, may_page.2, search_archiveOver]
  exact hmerge

def marchNoon : Time := midnight 2026 3 1 + 43200000000000

def marchQuery : SearchQuery :=
  { tsFrom := midnight 2026 3 1, tsTo := midnight 2026 3 2, cursor := some ⟨midnight 2026 3 1, uuidOut sampleRow.id⟩ }

/-- A search of May returns its first page again once the clock has moved it across the cutoff, and the archive
returns an event above the cursor. -/
theorem cursor_not_read :
    (∃ c, router.fetch sampleContext mayQuery (mayFetch juneFirst) = (⟨mayPage.events, some c⟩, none) ∧
      router.fetch sampleContext { mayQuery with cursor := some c } (mayFetch (juneFirst + 1000000000)) =
        (⟨mayPage.events, none⟩, none)) ∧
    ∃ ev, (router.fetch sampleContext marchQuery ⟨insertionSlice, hotStore (fun _ _ => true) mayRows,
        archiveOver [coldRow sampleContext (eventAt marchNoon)] (withLimit marchQuery), juneFirst, juneFirst,
          juneFirst⟩).1.events = [ev] ∧ midnight 2026 3 1 < ev.ts := by
  refine ⟨⟨_, first_may_page, second_may_page _⟩, ?_⟩
  have hroute : router.classifyTier juneFirst marchQuery = .cold := by decide
  rw [fetch_cold rfl rfl hroute, search_archiveOver]
  have hev : ∃ ev ∈ [eventAt marchNoon].map fun ev => { ev.spelled with tenantId := [], raw := [] },
      (fetchResults ([] ::
        ((coldStatement juneFirst sampleContext (withLimit marchQuery)).eval asciiTrino.engine fun _ =>
          [coldRow sampleContext (eventAt marchNoon)]).map ColdRow.cells) (withLimit marchQuery).limit).events = [ev] ∧
      midnight 2026 3 1 < ev.ts := by decide
  obtain ⟨ev, -, hev⟩ := hev
  exact ⟨ev, hev⟩

/-- With the flag off the second page is below the first. -/
theorem hot_pages_below : ∃ c,
    (TieredSearcher.fetch { router with enabled := false } sampleContext mayQuery (mayFetch juneFirst)).1.nextCursor =
      some c ∧
    ∀ ev ∈ (TieredSearcher.fetch { router with enabled := false } sampleContext { mayQuery with cursor := some c }
      (mayFetch (juneFirst + 1000000000))).1.events, ev.Below c := by
  refine ⟨⟨midnight 2026 5 11, (rowAt (midnight 2026 5 11)).toEvent.id⟩, ?_, ?_⟩
  · rw [fetch_hot (Or.inl rfl)]
    simp only [mayFetch, may_page.1]
    rfl
  · exact (search_below_cursor { router with enabled := false } sampleContext _).1 _
      ⟨Or.inl rfl, _, _, serves_hotStore _ _⟩ _ rfl

end

end Logalot
