import Logalot.BuildersSound
import Logalot.Lib.Keyset
import Logalot.Search

/-!
# Following cursors returns every event once

The rows of a tenant are strictly ordered by `(ts, id)`, and a page of the store is
a page of that listing. The rest is keyset pagination.
-/

namespace Logalot

open Go Pg Keyset

/-! ## What the clauses select -/

theorem mapM_none_of_mem {v : Clause Arg} : ∀ {vs : List (Clause Arg)}, v ∈ vs → v.cond = none →
    vs.mapM Clause.cond = none
  | w :: vs, hm, hv => by
    rw [List.mapM_cons]
    rcases List.mem_cons.mp hm with rfl | hm
    · rw [hv]
      rfl
    · rw [mapM_none_of_mem hm hv]
      cases w.cond <;> rfl

def Selects (fts : Fts) (vs : List (Clause Arg)) (P : Row → Prop) : Prop :=
  ∃ conds, vs.mapM Clause.cond = some conds ∧ ∀ r, (∀ c ∈ conds, c.holds fts r = true) ↔ P r

section
variable {fts : Fts}

theorem Selects.append {vs ws : List (Clause Arg)} {P Q : Row → Prop} (hv : Selects fts vs P) (hw : Selects fts ws Q) :
    Selects fts (vs ++ ws) fun r => P r ∧ Q r := by
  obtain ⟨cs, h1, h2⟩ := hv
  obtain ⟨ds, h3, h4⟩ := hw
  refine ⟨cs ++ ds, by simp [List.mapM_append, h1, h3], fun r => ?_⟩
  refine Iff.trans ?_ (and_congr (h2 r) (h4 r))
  simp [or_imp, forall_and]

theorem selects_nil : Selects fts [] fun _ => True := ⟨[], rfl, by simp⟩

theorem selects_one {v : Clause Arg} {c : Cond} (h : v.cond = some c) : Selects fts [v] (c.holds fts · = true) :=
  ⟨[c], by simp [h], by simp⟩

theorem Selects.imp {vs : List (Clause Arg)} {P Q : Row → Prop} (h : Selects fts vs P) (hPQ : ∀ r, P r ↔ Q r) :
    Selects fts vs Q :=
  ⟨h.choose, h.choose_spec.1, fun r => (h.choose_spec.2 r).trans (hPQ r)⟩

theorem selects_ite {p : Prop} [Decidable p] {v : Clause Arg} {c : Cond} (h : v.cond = some c) :
    Selects fts (if p then [] else [v]) fun r => ¬p → c.holds fts r = true := by
  by_cases hp : p
  · rw [if_pos hp]
    exact selects_nil.imp fun r => by simp [hp]
  · rw [if_neg hp]
    exact (selects_one h).imp fun r => by simp [hp]

def keyCursor (k : Lex (Int × Uuid)) : Cursor := { ts := (ofLex k).1 * 1000, id := uuidOut (ofLex k).2 }

theorem selects_cursor : ∀ c : Option (Lex (Int × Uuid)),
    Selects fts (cursorClause (c.map keyCursor)) fun r => ∀ k, c = some k → r.key < k
  | none => selects_nil.imp fun r => by simp
  | some k => by
    have hm : micros ((ofLex k).1 * 1000) = (ofLex k).1 := by
      unfold micros
      omega
    have hc : (Clause.keyBefore (.time (keyCursor k).ts) (.text (keyCursor k).id)).cond =
        some (.before (ofLex k).1 (ofLex k).2) := by
      simp [Clause.cond, keyCursor, uuidIn_uuidOut, hm]
    exact (selects_one hc).imp fun r => by simp [Cond.holds]

theorem selects_level {l : Option Bytes} (hl : ∀ s, l = some s → (levelIn s).isSome = true) :
    Selects fts (levelClause l) fun r => ∀ s, l = some s → levelIn s = some r.level := by
  cases l with
  | none => exact selects_nil.imp fun r => by simp
  | some s =>
    obtain ⟨lv, hlv⟩ := Option.isSome_iff_exists.mp (hl s rfl)
    have hc : (Clause.levelEq (.text s)).cond = some (.level lv) := by simp [Clause.cond, hlv]
    exact (selects_one hc).imp fun r => by simp [Cond.holds, hlv, eq_comm]

theorem labels_all_iff (labels : Labels) (r : Row) :
    (¬labels = [] → (labels.all (· ∈ r.labels)) = true) ↔ ∀ l ∈ labels, l ∈ r.labels := by
  cases labels <;> simp

theorem selects_search {tenant : Bytes} {u : Uuid} (hu : uuidIn tenant = some u) {q : SearchQuery}
    (hl : ∀ s, q.level = some s → (levelIn s).isSome = true) (c : Option (Lex (Int × Uuid))) (fetchLimit : Int) :
    Selects fts (searchStmt tenant { q with cursor := c.map keyCursor } fetchLimit).clauses
      fun r => q.Matches fts u r ∧ ∀ k, c = some k → r.key < k := by
  have ht : (Clause.tenantEq (.text tenant)).cond = some (.tenant u) := by simp [Clause.cond, hu]
  have hfrom : Selects fts (fromClause q.tsFrom) _ := selects_ite rfl
  have hto : Selects fts (toClause q.tsTo) _ := selects_ite rfl
  have htext : Selects fts (textClause q.text) _ := selects_ite rfl
  have hlabels : Selects fts (labelsClause q.labels) _ := selects_ite rfl
  have hservice : Selects fts (serviceClause q.service) _ := selects_ite rfl
  have h := (selects_one ht).append ((((((hfrom.append hto).append htext).append hlabels).append hservice).append
    (selects_level hl)).append (selects_cursor c))
  refine h.imp fun r => ?_
  simp only [Cond.holds, decide_eq_true_eq, SearchQuery.Matches, labels_all_iff, Bool.not_eq_true]
  tauto

end

/-! ## The listing of a tenant's matching rows -/

section
variable (fts : Fts) (u : Uuid) (q : SearchQuery)

def listing (db : LogTable) : List Row := newestFirst (db.rows.filter (q.Matches fts u ·))

variable {fts u q} {db : LogTable} {c : Option (Lex (Int × Uuid))} {tc : TenantContext} {pages : List (List LogEvent)}

theorem mem_listing {r : Row} : r ∈ listing fts u q db ↔ r ∈ db.rows ∧ q.Matches fts u r := by
  simp [listing, mem_newestFirst]

theorem eq_of_matches {r r' : Row} (hr : r ∈ db.rows ∧ q.Matches fts u r)
    (hr' : r' ∈ db.rows ∧ q.Matches fts u r') (e : r.key = r'.key) : r = r' :=
  db.eq_of_key hr.1 hr'.1 (hr.2.1.trans hr'.2.1.symm) e

theorem desc_listing (db : LogTable) : Desc Row.key (listing fts u q db) := by
  have hnodup : (listing fts u q db).Nodup := (perm_newestFirst _).nodup_iff.mpr (db.nodup_rows.filter _)
  refine (List.Pairwise.and_mem.mp ((pairwise_newestFirst _).and hnodup)).imp ?_
  rintro a b ⟨ha, hb, hle, hne⟩
  exact lt_of_le_of_ne hle fun e => hne (eq_of_matches (mem_listing.mp ha) (mem_listing.mp hb) e.symm)

theorem newestFirst_filter (db : LogTable) (p : Row → Bool) :
    newestFirst ((db.rows.filter (q.Matches fts u ·)).filter p) = (listing fts u q db).filter p := by
  refine List.Perm.eq_of_pairwise (fun a b ha hb h h' => ?_) (pairwise_newestFirst _)
    ((pairwise_newestFirst _).filter p) ((perm_newestFirst _).trans ((perm_newestFirst _).filter p).symm)
  have ha' := List.mem_filter.mp (List.mem_filter.mp (mem_newestFirst.mp ha)).1
  have hb' := mem_listing.mp (List.mem_filter.mp hb).1
  exact eq_of_matches ⟨ha'.1, by simpa using ha'.2⟩ hb' (le_antisymm h' h)

theorem newestFirst_matching {conds : List Cond}
    (hc : ∀ r, (∀ d ∈ conds, d.holds fts r = true) ↔ q.Matches fts u r ∧ ∀ k, c = some k → r.key < k) :
    newestFirst (matching fts conds db.rows) = below Row.key c (listing fts u q db) := by
  have hm : matching fts conds db.rows =
      (db.rows.filter (q.Matches fts u ·)).filter fun r => decide (∀ k, c = some k → r.key < k) := by
    rw [List.filter_filter, matching]
    refine List.filter_congr fun r _ => ?_
    rw [Bool.eq_iff_iff, List.all_eq_true, hc r]
    simp [and_comm]
  rw [hm, newestFirst_filter]
  cases c with
  | none => simp [below]
  | some k => simp [below]

/-! ## Pages of the store are pages of the listing -/

theorem paginate_eq_page {l : List Row} (limit : Nat) :
    paginate (((below Row.key c l).take (limit + 1)).map Row.toEvent) limit =
      ((page Row.key limit c l).1.map Row.toEvent, (page Row.key limit c l).2.map keyCursor) := by
  unfold paginate page
  have hlen : (((below Row.key c l).take (limit + 1)).map Row.toEvent).length ≤ limit ↔
      (below Row.key c l).length ≤ limit := by
    rw [List.length_map, List.length_take]
    omega
  by_cases h : (below Row.key c l).length ≤ limit
  · rw [if_pos (hlen.mpr h), if_pos h, List.take_of_length_le (by omega)]
    rfl
  · rw [if_neg (mt hlen.mp h), if_neg h, ← List.map_take, List.take_take, Nat.min_eq_left (Nat.le_succ limit)]
    simp only [List.getLast?_map, Option.map_map]
    rfl

theorem queryKind_newest (n : Nat) : queryKind .events (.newest (.int n)) = some (.newest n) := by
  have hneg : ¬((n : Int) < 0) := by omega
  simp only [queryKind, if_neg hneg]
  rfl

theorem readQuery_buildSearch (fts : Fts) {tenant : Bytes} (hu : uuidIn tenant = some u)
    (hl : ∀ s, q.level = some s → (levelIn s).isSome = true) (c : Option (Lex (Int × Uuid))) (n : Nat) :
    ∃ conds, readQuery (buildSearch tenant { q with cursor := c.map keyCursor } n).sql
        (buildSearch tenant { q with cursor := c.map keyCursor } n).args = some ⟨.newest n, conds⟩ ∧
      ∀ r, (∀ d ∈ conds, d.holds fts r = true) ↔ q.Matches fts u r ∧ ∀ k, c = some k → r.key < k := by
  have hsel : Selects fts _ _ := selects_search hu hl c n
  obtain ⟨conds, h1, h2⟩ := hsel
  have hd := (buildSearch_isolates fts tenant { q with cursor := c.map keyCursor } n).denotes
  refine ⟨conds, ?_, h2⟩
  rw [readQuery_of_denotes hd, Stmt.query, h1]
  exact queryKind_newest n ▸ rfl

theorem readQuery_unknown_level {tenant s : Bytes} (hs : q.level = some s) (hn : levelIn s = none) (n : Int) :
    readQuery (buildSearch tenant q n).sql (buildSearch tenant q n).args = none := by
  have hd := (buildSearch_isolates (fun _ _ => true) tenant q n).denotes
  have hc : (Clause.levelEq (.text s)).cond = none := by simp [Clause.cond, hn]
  have hm : (searchStmt tenant q n).clauses.mapM Clause.cond = none := by
    refine mapM_none_of_mem (v := .levelEq (.text s)) ?_ hc
    simp [searchStmt, levelClause, hs]
  rw [readQuery_of_denotes hd, Stmt.query, hm]
  split <;> simp_all

theorem search_eq_page (hv : tc.valid = none) (hu : uuidIn tc.tenantId = some u)
    (hl : ∀ s, q.level = some s → (levelIn s).isSome = true) (db : LogTable) (c : Option (Lex (Int × Uuid))) :
    search fts db tc { q with cursor := c.map keyCursor } =
      some ⟨(page Row.key (searchLimit q.limit) c (listing fts u q db)).1.map Row.toEvent,
        (page Row.key (searchLimit q.limit) c (listing fts u q db)).2.map keyCursor⟩ := by
  obtain ⟨conds, h1, h2⟩ := readQuery_buildSearch fts hu hl c (searchLimit q.limit + 1)
  push_cast at h1
  simp only [search, hv, evalSql, h1, Option.bind_some, Query.run, newestFirst_matching h2, paginate_eq_page]

theorem level_of_search {page : SearchPage}
    (h : search fts db tc q = some page) : ∀ s, q.level = some s → (levelIn s).isSome = true := by
  intro s hs
  by_contra hn
  rw [Bool.not_eq_true, Option.isSome_eq_false_iff, Option.isNone_iff_eq_none] at hn
  simp only [search, evalSql, readQuery_unknown_level hs hn, Option.bind_none] at h
  split at h <;> cases h

theorem level_of_follows {cur : Option Cursor} {dbs : Nat → LogTable} (h : Follows fts tc q cur dbs pages) :
    ∀ s, q.level = some s → (levelIn s).isSome = true := by
  cases h with
  | last hs => exact level_of_search (q := { q with cursor := cur }) hs
  | next hs _ => exact level_of_search (q := { q with cursor := cur }) hs

theorem pages_of_follows (hv : tc.valid = none) (hu : uuidIn tc.tenantId = some u)
    (hl : ∀ s, q.level = some s → (levelIn s).isSome = true) {cur : Option Cursor} {dbs : Nat → LogTable}
    (h : Follows fts tc q cur dbs pages) : ∀ c : Option (Lex (Int × Uuid)), cur = c.map keyCursor →
      ∃ ps, Pages Row.key (searchLimit q.limit) c (fun i => listing fts u q (dbs i)) ps ∧
        pages = ps.map (List.map Row.toEvent) := by
  induction h with
  | @last cur dbs es hs =>
    rintro c rfl
    rw [search_eq_page hv hu hl, Option.some.injEq, SearchPage.mk.injEq, Option.map_eq_none_iff] at hs
    exact ⟨_, .last (Prod.ext rfl hs.2), by simp [hs.1]⟩
  | @next cur dbs es cur' pages hs _ ih =>
    rintro c rfl
    rw [search_eq_page hv hu hl, Option.some.injEq, SearchPage.mk.injEq, Option.map_eq_some_iff] at hs
    obtain ⟨he, k, hk, rfl⟩ := hs
    obtain ⟨ps, hps, rfl⟩ := ih (some k) rfl
    exact ⟨_, .next (Prod.ext rfl hk) hps, by simp [he]⟩

theorem follows_of_pages (hv : tc.valid = none) (hu : uuidIn tc.tenantId = some u)
    (hl : ∀ s, q.level = some s → (levelIn s).isSome = true) {S : Nat → List Row}
    {ps : List (List Row)} (h : Pages Row.key (searchLimit q.limit) c S ps) :
    ∀ dbs : Nat → LogTable, (∀ i, S i = listing fts u q (dbs i)) →
      Follows fts tc q (c.map keyCursor) dbs (ps.map (List.map Row.toEvent)) := by
  induction h with
  | @last c S p hp =>
    intro dbs hS
    refine .last ?_
    rw [search_eq_page hv hu hl, ← hS 0, hp]
    rfl
  | @next c S p k ps hp _ ih =>
    intro dbs hS
    refine .next ?_ (ih (fun i => dbs (i + 1)) fun i => hS (i + 1))
    rw [search_eq_page hv hu hl, ← hS 0, hp]
    rfl

/-! ## Events -/

theorem key_of_toEvent {r r' : Row} (h : r.toEvent = r'.toEvent) : r.key = r'.key := by
  have hts : r.ts * 1000 = r'.ts * 1000 := congrArg LogEvent.ts h
  have hid : uuidIn (uuidOut r.id) = uuidIn (uuidOut r'.id) := congrArg (fun e => uuidIn e.id) h
  rw [uuidIn_uuidOut, uuidIn_uuidOut, Option.some.injEq] at hid
  rw [Row.key, Row.key, hid, show r.ts = r'.ts by omega]

theorem nodup_events {rows : List Row} (h : Desc Row.key rows) : (rows.map Row.toEvent).Nodup := by
  refine List.pairwise_map.mpr (h.imp fun {a b} hlt e => ?_)
  exact absurd (key_of_toEvent e) (ne_of_gt hlt)

theorem searchLimit_eq {limit : Int} (h : 1 ≤ limit ∧ limit ≤ 1000) : searchLimit limit = limit.toNat := by
  unfold searchLimit
  rw [if_neg]
  simp only [Logstore.maxSearchLimit]
  omega

end

/-- **Following cursors.** While events are inserted between the fetches, the pages
up to the first without a next cursor hold every event present at the first
fetch exactly once, in strictly decreasing order; the pages come to an end once
nothing is inserted (unless the database rejects the level of the filter); and
if nothing ever is, their number is known. -/
theorem follows_returns_every_event (fts : Fts) (tc : TenantContext) {u : Uuid} (q : SearchQuery)
    (hv : tc.valid = none) (hu : uuidIn tc.tenantId = some u) (hlimit : 1 ≤ q.limit ∧ q.limit ≤ 1000)
    (dbs : Nat → LogTable) (hg : ∀ i, (dbs i).rows ⊆ (dbs (i + 1)).rows) :
    (∀ pages, Follows fts tc q none dbs pages →
      (∃ rows : List Row, pages.flatten = rows.map Row.toEvent ∧ rows.Pairwise (fun a b => b.key < a.key) ∧
        ∀ r ∈ rows, q.Matches fts u r ∧ ∃ i, r ∈ (dbs i).rows) ∧
      ∀ r ∈ (dbs 0).rows, q.Matches fts u r → pages.flatten.count r.toEvent = 1) ∧
    (∀ m, (∀ s, q.level = some s → (levelIn s).isSome = true) → (∀ i, m ≤ i → dbs i = dbs m) →
      ∃ pages, Follows fts tc q none dbs pages) ∧
    ((∀ i, dbs i = dbs 0) → ∀ pages, Follows fts tc q none dbs pages →
      pages.length = max 1 (((dbs 0).rows.countP (q.Matches fts u ·) + q.limit.toNat - 1) / q.limit.toNat)) := by
  have hlim := searchLimit_eq hlimit
  have hpos : 0 < searchLimit q.limit := by
    rw [hlim]
    omega
  have hdesc : ∀ i, Desc Row.key (listing fts u q (dbs i)) := fun i => desc_listing (dbs i)
  have hgrow : ∀ i, listing fts u q (dbs i) ⊆ listing fts u q (dbs (i + 1)) := fun i r hr =>
    mem_listing.mpr ⟨hg i (mem_listing.mp hr).1, (mem_listing.mp hr).2⟩
  refine ⟨fun pages hp => ?_, fun m hl hm => ?_, fun hs pages hp => ?_⟩
  · obtain ⟨ps, hps, rfl⟩ := pages_of_follows hv hu (level_of_follows hp) hp none rfl
    obtain ⟨h1, h2, h3⟩ := complete_of_pages hpos hps hdesc hgrow
    have hflat : (ps.map (List.map Row.toEvent)).flatten = ps.flatten.map Row.toEvent := by rw [List.map_flatten]
    refine ⟨⟨ps.flatten, hflat, h1, fun r hr => ?_⟩, fun r hr hm => ?_⟩
    · obtain ⟨⟨i, hi⟩, -⟩ := h2 r hr
      exact ⟨(mem_listing.mp hi).2, i, (mem_listing.mp hi).1⟩
    · rw [hflat]
      exact List.count_eq_one_of_mem (nodup_events h1) (List.mem_map_of_mem (h3 r (mem_listing.mpr ⟨hr, hm⟩)))
  · obtain ⟨ps, hps⟩ := exists_pages hpos m (fun i => listing fts u q (dbs i)) none hdesc fun i hi => by rw [hm i hi]
    exact ⟨_, follows_of_pages hv hu hl hps dbs fun _ => rfl⟩
  · obtain ⟨ps, hps, rfl⟩ := pages_of_follows hv hu (level_of_follows hp) hp none rfl
    have hlen := length_of_pages hpos hps (hdesc 0) fun i => by rw [hs i]
    have hn : (listing fts u q (dbs 0)).length = (dbs 0).rows.countP (q.Matches fts u ·) := by
      rw [listing, (perm_newestFirst _).length_eq, List.countP_eq_length_filter]
    rw [List.length_map, hlen, below, hn, hlim]

/-- Three rows of one tenant, a page of two: the rows come back in two pages. -/
theorem follows_three_rows :
    let u : Uuid := ⟨List.replicate 16 17, rfl⟩
    let tc : TenantContext := { tenantId := uuidOut u }
    let row := fun n : Int => Row.mk u n ⟨List.replicate 16 0, rfl⟩ [] .info [] [] none none []
    let db : LogTable := ⟨[row 2, row 3, row 1], by decide⟩
    ∃ pages, Follows (fun _ _ => true) tc { limit := 2 } none (fun _ => db) pages ∧ pages.length = 2 ∧
      pages.flatten.count (row 1).toEvent = 1 := by
  intro u tc row db
  obtain ⟨h1, h2, h3⟩ := follows_returns_every_event (fun _ _ => true) tc (u := u) { limit := 2 }
    (by decide) (by decide) (by decide) (fun _ => db) fun _ _ h => h
  obtain ⟨pages, hp⟩ := h2 0 (fun _ h => by cases h) fun _ _ => rfl
  refine ⟨pages, hp, (h3 (fun _ => rfl) pages hp).trans (by decide), (h1 pages hp).2 (row 1) ?_ ?_⟩
  · simp [db]
  · decide

end Logalot
