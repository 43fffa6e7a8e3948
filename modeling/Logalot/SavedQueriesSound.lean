import Logalot.SavedQueries
import Logalot.SearchSound

/-!
# One predicate for alerts, panels and searches

The filters of a saved query are compiled three times, to the same rows provided
that no bound of the window is the zero time: a search and a panel leave such a
bound out, and the evaluator does not.
-/

namespace Logalot

open Go Pg

/-! ## What the statements select -/

/-- The database knows the level of a filter. -/
def KnownLevel (l : Option Bytes) : Prop := ∀ s, l = some s → (levelIn s).isSome = true

instance (l : Option Bytes) : Decidable (KnownLevel l) :=
  match l with
  | none => .isTrue fun _ h => by cases h
  | some s => decidable_of_iff ((levelIn s).isSome = true) ⟨fun h _ e => Option.some.inj e ▸ h, fun h => h s rfl⟩

/-- The number of rows that a query is about; the cast of an unknown level fails. -/
def selected (fts : Fts) (db : LogTable) (u : Uuid) (q : SearchQuery) : Option Nat :=
  if KnownLevel q.level then some (db.rows.countP (q.Matches fts u ·)) else none

section
variable {fts : Fts} {tenant : Bytes} {u : Uuid} (hu : uuidIn tenant = some u)
include hu

variable {d : SavedQueryDef}

theorem selects_panel (hl : KnownLevel d.level) (tsFrom tsTo : Time) :
    Selects fts (panelClauses tenant d tsFrom tsTo) ((d.window tsFrom tsTo).Matches fts u) := by
  have ht : (Clause.tenantEq (.text tenant)).cond = some (.tenant u) := by simp [Clause.cond, hu]
  have hfrom : Selects fts (fromClause tsFrom) _ := selects_ite rfl
  have hto : Selects fts (toClause tsTo) _ := selects_ite rfl
  have htext : Selects fts (textClause d.queryText) _ := selects_ite rfl
  have hlabels : Selects fts (labelsClause d.labels) _ := selects_ite rfl
  have hservice : Selects fts (serviceClause d.service) _ := selects_ite rfl
  have h := (selects_one ht).append ((hfrom.append hto).append
    (((htext.append hservice).append (selects_level hl)).append hlabels))
  refine h.imp fun r => ?_
  simp only [Cond.holds, decide_eq_true_eq, SearchQuery.Matches, SavedQueryDef.window, labels_all_iff, Bool.not_eq_true]
  tauto

theorem selects_window (hl : KnownLevel d.level) (tsFrom tsTo : Time) (fetchLimit : Int) :
    Selects fts (searchStmt tenant (d.window tsFrom tsTo) fetchLimit).clauses ((d.window tsFrom tsTo).Matches fts u) :=
  (selects_search hu (q := d.window tsFrom tsTo) hl none fetchLimit).imp fun r => by simp

theorem selects_count (hl : KnownLevel d.level) {q : RuleQuery} (htext : q.text = d.queryText)
    (hservice : trimSpace q.service = trimSpace d.service) (hlevel : q.level = d.level) (hlabels : q.labels = d.labels)
    {tsFrom tsTo : Time} (hf : isZero tsFrom = false) (ht : isZero tsTo = false) :
    Selects fts (countStmt tenant q tsFrom tsTo).clauses ((d.window tsFrom tsTo).Matches fts u) := by
  have hten : (Clause.tenantEq (.text tenant)).cond = some (.tenant u) := by simp [Clause.cond, hu]
  have hsince : Selects fts [.tsGe (.time tsFrom)] _ := selects_one rfl
  have huntil : Selects fts [.tsLt (.time tsTo)] _ := selects_one rfl
  have htext' : Selects fts (textClause q.text) _ := selects_ite rfl
  have hlabels' : Selects fts (labelsClause q.labels) _ := selects_ite rfl
  have hservice' : Selects fts (serviceClause q.service) _ := selects_ite rfl
  have h := (selects_one hten).append (((((hsince.append huntil).append htext').append hlabels').append
    hservice').append (selects_level (hlevel ▸ hl)))
  refine h.imp fun r => ?_
  simp only [Cond.holds, decide_eq_true_eq, SearchQuery.Matches, SavedQueryDef.window, labels_all_iff, hf, ht, htext,
    hservice, hlevel, hlabels, true_imp_iff]
  tauto

end

theorem levelClause_subset_panel (tenant : Bytes) (d : SavedQueryDef) (tsFrom tsTo : Time) :
    levelClause d.level ⊆ panelClauses tenant d tsFrom tsTo := by
  intro v hv
  simp only [panelClauses, filterClauses, List.mem_cons, List.mem_append]
  tauto

theorem levelClause_subset_count (tenant : Bytes) (q : RuleQuery) (tsFrom tsTo : Time) :
    levelClause q.level ⊆ (countStmt tenant q tsFrom tsTo).clauses := by
  intro v hv
  simp only [countStmt, List.mem_cons, List.mem_append]
  tauto

theorem levelClause_subset_search (tenant : Bytes) (q : SearchQuery) (fetchLimit : Int) :
    levelClause q.level ⊆ (searchStmt tenant q fetchLimit).clauses := by
  intro v hv
  simp only [searchStmt, List.mem_cons, List.mem_append]
  tauto

theorem length_matching {fts : Fts} {conds : List Cond} {P : Row → Prop} [DecidablePred P]
    (h : ∀ r, (∀ c ∈ conds, c.holds fts r = true) ↔ P r) (rows : List Row) :
    (matching fts conds rows).length = rows.countP (P ·) := by
  rw [matching, ← List.countP_eq_length_filter]
  apply List.countP_congr
  intro r _
  rw [List.all_eq_true, h r, decide_eq_true_eq]

section
variable {fts : Fts} {sql : Bytes} {args : List Arg} {st : Stmt Arg}
  (hd : (parseSql sql).bind (Stmt.args args) = some st)
include hd

theorem evalSql_selects {kind : QueryKind} (hk : queryKind st.proj st.tail = some kind) {P : Row → Prop}
    (hs : Selects fts st.clauses P) : ∃ conds, (∀ r, (∀ c ∈ conds, c.holds fts r = true) ↔ P r) ∧
      ∀ db, evalSql fts db sql args = Query.run fts db ⟨kind, conds⟩ := by
  obtain ⟨conds, hc, h⟩ := hs
  refine ⟨conds, h, fun db => ?_⟩
  rw [evalSql, readQuery_of_denotes hd, Stmt.query, hk, hc]
  rfl

theorem evalSql_unknown_level {l : Option Bytes} (hl : ¬ KnownLevel l) (hm : levelClause l ⊆ st.clauses)
    (db : LogTable) : evalSql fts db sql args = none := by
  rw [KnownLevel] at hl
  push Not at hl
  obtain ⟨s, rfl, hn⟩ := hl
  have hc : (Clause.levelEq (.text s)).cond = none := by
    rw [Clause.cond, Option.map_eq_none_iff]
    exact Option.not_isSome_iff_eq_none.mp hn
  rw [evalSql, readQuery_of_denotes hd, Stmt.query, mapM_none_of_mem (hm List.mem_cons_self) hc]
  split
  · rename_i h
    cases h
  · rfl

end

/-! ## The three counts -/

section
variable (fts : Fts) (db : LogTable)

theorem panelCount_eq {tc : TenantContext} (hv : tc.valid = none) {u : Uuid} (hu : uuidIn tc.tenantId = some u)
    (d : SavedQueryDef) (tsFrom tsTo : Time) :
    panelCount fts db tc d tsFrom tsTo = selected fts db u (d.window tsFrom tsTo) := by
  have hd := (buildCountQuery_isolates fts tc.tenantId d tsFrom tsTo).denotes
  simp only [panelCount, hv]
  by_cases hl : KnownLevel (d.window tsFrom tsTo).level
  · obtain ⟨conds, hc, he⟩ := evalSql_selects hd rfl (selects_panel hu hl tsFrom tsTo)
    rw [he, Query.run, selected, if_pos hl, length_matching hc]
  · rw [evalSql_unknown_level hd hl (levelClause_subset_panel ..), selected, if_neg hl]

theorem countEvents_eq {tc : TenantContext} (hv : tc.valid = none) {u : Uuid} (hu : uuidIn tc.tenantId = some u)
    {d : SavedQueryDef} {q : RuleQuery} (htext : q.text = d.queryText)
    (hservice : trimSpace q.service = trimSpace d.service) (hlevel : q.level = d.level) (hlabels : q.labels = d.labels)
    {tsFrom tsTo : Time} (hf : isZero tsFrom = false) (ht : isZero tsTo = false) :
    countEvents fts db tc q tsFrom tsTo = selected fts db u (d.window tsFrom tsTo) := by
  have hd := (buildCount_isolates fts tc.tenantId q tsFrom tsTo).denotes
  simp only [countEvents, hv]
  by_cases hl : KnownLevel (d.window tsFrom tsTo).level
  · obtain ⟨conds, hc, he⟩ := evalSql_selects hd rfl (selects_count hu hl htext hservice hlevel hlabels hf ht)
    rw [he, Query.run, selected, if_pos hl, length_matching hc]
  · rw [evalSql_unknown_level hd (show ¬ KnownLevel q.level from hlevel ▸ hl) (levelClause_subset_count ..),
      selected, if_neg hl]

theorem searchCount_eq {tenant : Bytes} {u : Uuid} (hu : uuidIn tenant = some u) (d : SavedQueryDef)
    (tsFrom tsTo : Time) {limit : Nat} (hlim : db.rows.length ≤ limit) :
    searchCount fts db tenant (d.window tsFrom tsTo) limit = selected fts db u (d.window tsFrom tsTo) := by
  have hd := (buildSearch_isolates fts tenant (d.window tsFrom tsTo) limit).denotes
  unfold searchCount
  by_cases hl : KnownLevel (d.window tsFrom tsTo).level
  · obtain ⟨conds, hc, he⟩ := evalSql_selects hd (queryKind_newest limit) (selects_window hu hl tsFrom tsTo limit)
    have hlen : (matching fts conds db.rows).length ≤ limit := (List.length_filter_le ..).trans hlim
    have hn : (((newestFirst (matching fts conds db.rows)).take limit).map Row.toEvent).length =
        db.rows.countP ((d.window tsFrom tsTo).Matches fts u ·) := by
      rw [List.length_map, List.length_take, (perm_newestFirst _).length_eq, Nat.min_eq_right hlen, length_matching hc]
    rw [he, selected, if_pos hl, ← hn]
    rfl
  · rw [evalSql_unknown_level hd hl (levelClause_subset_search ..), selected, if_neg hl]

end

/-! ## Resolution -/

variable {row : SavedQueryRow} {rules : List Rule} {saved : SavedQueryTable} {i : Nat}

theorem SavedQueryTable.find_row (saved : SavedQueryTable) (h : row ∈ saved.rows)
    {p : SavedQueryRow → Bool} (hp : p row = true) (hid : ∀ row', p row' = true → row'.id = row.id) :
    saved.rows.find? p = some row := by
  obtain ⟨row', h'⟩ := Option.isSome_iff_exists.mp (List.find?_isSome.mpr ⟨row, h, hp⟩)
  rw [h', List.inj_on_of_nodup_map saved.nodup_id (List.mem_of_find?_eq_some h') h (hid _ (List.find?_some h'))]

theorem SavedQueryTable.find_fetched (saved : SavedQueryTable) (h : row ∈ saved.rows)
    {needed : List (Uuid × Uuid)} (hn : (row.id, row.tenantId) ∈ needed) :
    lookupQueries saved needed row.id row.tenantId = some row.resolution := by
  have h1 : row.id ∈ needed.map Prod.fst := List.mem_map.mpr ⟨_, hn, rfl⟩
  have h2 : row.tenantId ∈ needed.map Prod.snd := List.mem_map.mpr ⟨_, hn, rfl⟩
  simp only [lookupQueries]
  rw [List.find?_filter, saved.find_row h (by simp [h1, h2])]
  · rfl
  · intro row' h'
    simp only [decide_eq_true_eq] at h'
    exact h'.2.1

theorem mem_neededQueries {r : Rule} (hr : r ∈ rules) (hq : r.query.isEmpty = true) {id : Uuid}
    (hid : r.savedQueryId = some id) : (id, r.tenantId) ∈ neededQueries rules := by
  refine List.mem_filterMap.mpr ⟨r, hr, ?_⟩
  rw [if_pos hq, hid]
  rfl

theorem getElem?_resolveSavedQueriesBatch {r : Rule}
    (hr : rules[i]? = some r) (hq : r.query.isEmpty = true) (hrow : row ∈ saved.rows)
    (hid : r.savedQueryId = some row.id) (ht : r.tenantId = row.tenantId) :
    (resolveSavedQueriesBatch saved rules)[i]? = some { r with query := row.resolution.apply r.query } := by
  have hn := mem_neededQueries (List.mem_of_getElem? hr) hq hid
  rw [ht] at hn
  have hres : r.resolve (lookupQueries saved (neededQueries rules)) =
      { r with query := row.resolution.apply r.query } := by
    simp only [Rule.resolve, hid, hq, ht, saved.find_fetched hrow hn]
    rfl
  rw [resolveSavedQueriesBatch, if_neg (List.ne_nil_of_mem hn), List.getElem?_map, hr, Option.map_some, hres]

theorem resolve_eq_toDef (hrow : row ∈ saved.rows) {tc : TenantContext}
    (hv : tc.valid = none) (hu : uuidIn tc.tenantId = some row.tenantId) {savedQueryID : Bytes}
    (hs : uuidIn savedQueryID = some row.id) : saved.resolve tc savedQueryID = some (some row.toDef) := by
  have hfind := saved.find_row hrow (p := fun row' => row'.tenantId = row.tenantId ∧ row'.id = row.id) (by simp)
    fun row' h => (of_decide_eq_true h).2
  simp only [SavedQueryTable.resolve, hv, hu, hs, hfind, Option.map_some]

structure SameFilters (q : RuleQuery) (d : SavedQueryDef) : Prop where
  text : q.text = d.queryText
  service : trimSpace q.service = trimSpace d.service
  level : q.level = d.level
  labels : q.labels = d.labels

theorem sameFilters_resolution (row : SavedQueryRow) {q : RuleQuery} (hq : q.isEmpty = true) :
    SameFilters (row.resolution.apply q) row.toDef := by
  obtain ⟨-, hservice, hlevel, hlabels⟩ : trimSpace q.text = [] ∧ trimSpace q.service = [] ∧ q.level = none ∧
      q.labels = [] := by simpa [RuleQuery.isEmpty] using hq
  have htrim : trimSpace [] = [] := by decide
  unfold SavedQuery.apply SavedQueryRow.resolution SavedQueryRow.toDef
  by_cases hf : hasFilters row.filtersRaw = true
  · cases hu : unmarshalFilters row.filtersRaw with
    | none =>
      simp only [if_pos hf, Option.map_none]
      exact ⟨rfl, hservice.trans htrim.symm, hlevel, hlabels⟩
    | some f =>
      simp only [if_pos hf, Option.map_some]
      exact ⟨rfl, rfl, by rw [hlevel], rfl⟩
  · simp only [if_neg hf]
    exact ⟨rfl, hservice.trans htrim.symm, hlevel, hlabels⟩

/-! ## Tenants -/

def uuidRest (left : Nat) : Nat := 2 * left + ([12, 10, 8, 6].filter (· < left)).length

def isHyphenAt (i : Nat) : Prop := i = 8 ∨ i = 13 ∨ i = 18 ∨ i = 23

instance (i : Nat) : Decidable (isHyphenAt i) := inferInstanceAs (Decidable (_ ∨ _))

theorem uuidRest_succ :
    ∀ left < 16, ¬ isHyphenAt (36 - uuidRest (left + 1)) ∧ ¬ isHyphenAt (36 - uuidRest (left + 1) + 1) ∧
    uuidRest (left + 1) ≤ 36 ∧
    if left ∈ [12, 10, 8, 6] then isHyphenAt (36 - uuidRest (left + 1) + 2) ∧ uuidRest (left + 1) = uuidRest left + 3
    else uuidRest (left + 1) = uuidRest left + 2 ∧ ¬ (isHyphenAt (36 - uuidRest left)) := by decide

theorem hexPair_of_isHexDigit {a b : UInt8} (ha : isHexDigit a = true) (hb : isHexDigit b = true) :
    ∃ d, hexPair a b = some d := by
  have h : ∀ c, isHexDigit c = true → (hexVal c).isSome = true := by decide +kernel
  obtain ⟨x, hx⟩ := Option.isSome_iff_exists.mp (h a ha)
  obtain ⟨y, hy⟩ := Option.isSome_iff_exists.mp (h b hb)
  exact ⟨_, by rw [hexPair, hx, hy]⟩

theorem head_of_digits {c : UInt8} (h : isHexDigit c = true) : c ≠ 45 ∧ c ≠ 123 := by
  have h' : ∀ c, isHexDigit c = true → c ≠ 45 ∧ c ≠ 123 := by decide +kernel
  exact h' c h

theorem isHexDigit_of_uuidByteOk {c : UInt8} (h : uuidByteOk c i = true) (hi : ¬ isHyphenAt i) :
    isHexDigit c = true := by
  unfold isHyphenAt at hi
  rwa [uuidByteOk, if_neg hi] at h

theorem eq_of_uuidByteOk {c : UInt8} (h : uuidByteOk c i = true) (hi : isHyphenAt i) : c = 45 := by
  unfold isHyphenAt at hi
  rw [uuidByteOk, if_pos hi] at h
  simpa using h

theorem uuidFrom_of_canonical {left : Nat} (hleft : left ≤ 16) : ∀ {s : Bytes}, s.length = uuidRest left →
    (∀ p ∈ s.zipIdx (36 - uuidRest left), uuidByteOk p.1 p.2 = true) →
    ∃ ds, uuidFrom left s = some (ds, []) ∧ ds.length = left := by
  induction left with
  | zero =>
    intro s hs _
    obtain rfl : s = [] := List.length_eq_zero_iff.mp hs
    exact ⟨[], rfl, rfl⟩
  | succ left ih =>
    intro s hs hok
    obtain ⟨hi, hi', hle, hrest⟩ := uuidRest_succ left (by omega)
    rcases s with - | ⟨a, - | ⟨b, s⟩⟩
    · simp only [uuidRest, List.length_nil] at hs
      omega
    · simp only [uuidRest, List.length_cons, List.length_nil] at hs
      omega
    · simp only [List.zipIdx_cons, List.mem_cons, forall_eq_or_imp, List.length_cons] at hok hs
      obtain ⟨ha, hb, hok⟩ := hok
      obtain ⟨d, hd⟩ := hexPair_of_isHexDigit (isHexDigit_of_uuidByteOk ha hi) (isHexDigit_of_uuidByteOk hb hi')
      suffices h : ∃ ds, uuidFrom left (skipHyphen left s) = some (ds, []) ∧ ds.length = left by
        obtain ⟨ds, hds, hl⟩ := h
        exact ⟨d :: ds, by simp [uuidFrom, hd, hds], by simp [hl]⟩
      split at hrest
      · -- a hyphen follows the byte
        rename_i hmem
        cases s with
        | nil =>
          rw [List.length_nil] at hs
          omega
        | cons c s =>
          simp only [List.zipIdx_cons, List.mem_cons, forall_eq_or_imp, List.length_cons] at hok hs
          have hc := eq_of_uuidByteOk hok.1 hrest.1
          have hskip : skipHyphen left (c :: s) = s := by
            have : left % 2 = 0 ∧ left ≠ 0 := by
              simp only [List.mem_cons, List.not_mem_nil, or_false] at hmem
              omega
            simp [skipHyphen, hc, this]
          rw [hskip]
          refine ih (by omega) (by omega) ?_
          rw [show 36 - uuidRest left = 36 - uuidRest (left + 1) + 1 + 1 + 1 by omega]
          exact hok.2
      · have hpos : 36 - uuidRest left = 36 - uuidRest (left + 1) + 1 + 1 := by omega
        rw [← hpos] at hok
        have hskip : skipHyphen left s = s := by
          cases s with
          | nil => simp [skipHyphen]
          | cons c s =>
            simp only [List.zipIdx_cons, List.mem_cons, forall_eq_or_imp] at hok
            simp [skipHyphen, (head_of_digits (isHexDigit_of_uuidByteOk hok.1 hrest.2)).1]
        rw [hskip]
        exact ih (by omega) (by omega) hok

theorem uuidIn_of_isUUID {s : Bytes} (h : isUUID s = true) : ∃ u, uuidIn s = some u := by
  simp only [isUUID, Bool.and_eq_true, beq_iff_eq, List.all_eq_true] at h
  obtain ⟨ds, hds, hl⟩ := uuidFrom_of_canonical le_rfl h.1 h.2
  have hbrace : s.head? ≠ some 123 := by
    cases s with
    | nil => simp
    | cons c s =>
      have hc : uuidByteOk c 0 = true := h.2 (c, 0) (by simp)
      simpa using (head_of_digits (isHexDigit_of_uuidByteOk hc (by decide))).2
  exact ⟨⟨ds, hl⟩, by simp [uuidIn, hbrace, hds, hl]⟩

theorem isHexDigit_hexDigit : ∀ d : UInt8,
    isHexDigit (hexDigit (d / 16)) = true ∧ isHexDigit (hexDigit (d % 16)) = true := by
  decide +kernel

theorem isUUID_uuidOut : ∀ u : Uuid, isUUID (uuidOut u) = true
  | ⟨[a, b, c, d, e, f, g, h, i, j, k, l, m, n, o, p], _⟩ => by
    simp [isUUID, uuidOut, uuidOutFrom, uuidByteOk, isHexDigit_hexDigit]

theorem valid_uuidOut (u : Uuid) : TenantContext.valid { tenantId := uuidOut u } = none := by
  have hgraph : ∀ c, c = 45 ∨ isHexDigit c = true → isGraph c = true := by decide +kernel
  have htrim : trimSpace (uuidOut u) = uuidOut u :=
    trimSpace_of_graph fun c hc => hgraph c (mem_of_isUUID (isUUID_uuidOut u) hc)
  rw [TenantContext.valid, htrim, if_neg (uuidOut_ne_nil u), isUUID_uuidOut]
  rfl

/-! ## Main result -/

/-- **Alerts, panels and searches agree.** For a rule and a panel that refer to a saved query, in a window with
both bounds set, the count of the evaluator, that of the panel and the number of events that a search selects
are the number of rows that match. -/
theorem saved_query_counts_agree (fts : Fts) (db : LogTable)
    (hrow : row ∈ saved.rows) {r : Rule} (hr : rules[i]? = some r)
    (hq : r.query.isEmpty = true) (hid : r.savedQueryId = some row.id) (htenant : r.tenantId = row.tenantId)
    (heff : (row.resolution.apply r.query).isEmpty = false) {tc : TenantContext} (hv : tc.valid = none)
    (hu : uuidIn tc.tenantId = some row.tenantId) {savedQueryID : Bytes} (hs : uuidIn savedQueryID = some row.id)
    {tsFrom tsTo : Time} (hf : isZero tsFrom = false) (ht : isZero tsTo = false) :
    ∃ r' d, (resolveSavedQueriesBatch saved rules)[i]? = some r' ∧ saved.resolve tc savedQueryID = some (some d) ∧
      r'.count fts db tsFrom tsTo = selected fts db row.tenantId (d.window tsFrom tsTo) ∧
      panelCount fts db tc d tsFrom tsTo = selected fts db row.tenantId (d.window tsFrom tsTo) ∧
      ∀ limit : Nat, db.rows.length ≤ limit →
        searchCount fts db tc.tenantId (d.window tsFrom tsTo) limit =
          selected fts db row.tenantId (d.window tsFrom tsTo) := by
  refine ⟨_, row.toDef, getElem?_resolveSavedQueriesBatch hr hq hrow hid htenant, resolve_eq_toDef hrow hv hu hs, ?_,
    panelCount_eq fts db hv hu _ _ _, fun limit => searchCount_eq fts db hu _ _ _⟩
  have hsame := sameFilters_resolution row hq
  rw [Rule.count, if_neg (by simp [heff]), htenant]
  exact countEvents_eq fts db (valid_uuidOut _) (uuidIn_uuidOut _) hsame.text hsame.service hsame.level hsame.labels
    hf ht

/-! ## The zero time as a bound -/

def errorsQuery : SavedQueryRow :=
  { id := .rep 1, tenantId := .rep 17, queryText := [], filtersRaw := bs "\x7b\"level\": \"error\"\x7d" }

def errorsTable : SavedQueryTable := ⟨[errorsQuery], List.nodup_singleton _⟩

def errorsRule : Rule :=
  { id := .rep 2, tenantId := .rep 17, name := bs "errors", comparator := .gt, threshold := .ofInt 0
    windowSeconds := 60, severity := bs "info", state := .ok, transitionSeq := 0, savedQueryId := some (.rep 1)
    query := { text := [], service := [], level := none, labels := [] }, channels := [] }

def errorsTenant : TenantContext := { tenantId := uuidOut (.rep 17) }

def errorsAt (ts : Int) : LogTable :=
  ⟨[⟨.rep 17, ts, .rep 3, [], .error, [], [], none, none, []⟩], List.nodup_singleton _⟩

/-- An error of the year 0, seen from the zero time on: the panel and a search have no lower bound then. -/
theorem zero_bound_counts_differ :
    ∃ r' d, (resolveSavedQueriesBatch errorsTable [errorsRule])[0]? = some r' ∧ r'.query.isEmpty = false ∧
      errorsTable.resolve errorsTenant (uuidOut (.rep 1)) = some (some d) ∧ zeroTime < 0 ∧
      r'.count (fun _ _ => true) (errorsAt (micros zeroTime - 1)) zeroTime 0 = some 0 ∧
      panelCount (fun _ _ => true) (errorsAt (micros zeroTime - 1)) errorsTenant d zeroTime 0 = some 1 ∧
      searchCount (fun _ _ => true) (errorsAt (micros zeroTime - 1)) errorsTenant.tenantId (d.window zeroTime 0) 1 =
        some 1 := by
  have hmem : errorsQuery ∈ errorsTable.rows := List.mem_singleton_self _
  have hv : errorsTenant.valid = none := valid_uuidOut _
  refine ⟨_, errorsQuery.toDef, getElem?_resolveSavedQueriesBatch rfl (by decide) hmem rfl rfl, by decide,
    resolve_eq_toDef hmem hv (uuidIn_uuidOut _) (uuidIn_uuidOut _), by decide, by decide +kernel, by decide +kernel,
    by decide +kernel⟩

theorem errors_counted :
    ∃ r' d, (resolveSavedQueriesBatch errorsTable [errorsRule])[0]? = some r' ∧
      errorsTable.resolve errorsTenant (uuidOut (.rep 1)) = some (some d) ∧
      r'.count (fun _ _ => true) (errorsAt 5) 1000 9000 =
        selected (fun _ _ => true) (errorsAt 5) (.rep 17) (d.window 1000 9000) ∧
      panelCount (fun _ _ => true) (errorsAt 5) errorsTenant d 1000 9000 =
        selected (fun _ _ => true) (errorsAt 5) (.rep 17) (d.window 1000 9000) ∧
      ∀ limit : Nat, (errorsAt 5).rows.length ≤ limit →
        searchCount (fun _ _ => true) (errorsAt 5) errorsTenant.tenantId (d.window 1000 9000) limit =
          selected (fun _ _ => true) (errorsAt 5) (.rep 17) (d.window 1000 9000) := by
  have heff : (errorsQuery.resolution.apply errorsRule.query).isEmpty = false := by decide
  have hf : isZero 1000 = false := by decide
  have ht : isZero 9000 = false := by decide
  exact saved_query_counts_agree (fun _ _ => true) (errorsAt 5) (List.mem_singleton_self errorsQuery)
    (show [errorsRule][0]? = some errorsRule from rfl) (by decide) rfl rfl heff (valid_uuidOut _) (uuidIn_uuidOut _)
    (uuidIn_uuidOut _) hf ht

end Logalot
