import Logalot.ColdQuerySound
import Logalot.ColdSqlSound
import Logalot.Lib.Assoc
import Logalot.SearchSound
import Logalot.TieredSearchSound
import Logalot.TierFilters

/-!
# Where the filters of the tiers agree

The cold statement keeps an event by its date, its service and those of its
labels that a path can name; the hot one by its microsecond, its service, its
labels and its level.
-/

namespace Logalot

open Go Pg Sql Spelling Assoc

/-! ## The statement of a cold query -/

theorem lexemes_labels (labels : Labels) : ∀ t : Term,
    (labels.foldl (fun t l => Term.and t (.label l)) t).lexemes =
      t.lexemes ++ labels.flatMap fun l => kw "AND" :: (Factor.label l).lexemes := by
  induction labels with
  | nil => intro t; simp
  | cons l labels ih => intro t; simp [ih, Term.lexemes]

theorem tokens_labels (labels : Labels) :
    ((labels.flatMap labelParts).flatMap Part.tokens).map Lexeme.tok =
      labels.flatMap fun l => kw "AND" :: (Factor.label l).lexemes := by
  induction labels with
  | nil => rfl
  | cons l labels ih =>
    have hl : ((labelParts l).flatMap Part.tokens).map Lexeme.tok = kw "AND" :: (Factor.label l).lexemes := rfl
    rw [List.flatMap_cons, List.flatMap_append, List.map_append, ih, hl, List.flatMap_cons]

theorem tokens_front (tenant fromDate toDate text svc : Bytes) :
    ((frontParts tenant fromDate toDate text svc).flatMap Part.tokens).map Lexeme.tok =
      kw "SELECT" :: (coldHead ++ kw "WHERE" :: (coldTerm tenant fromDate toDate text svc).lexemes) := by
  rfl

theorem coldStatement_lexemes (now : Time) {tc : TenantContext} (q : SearchQuery) (h : tc.valid = none) :
    (coldStatement now tc q).lexemes = (tokenize (buildColdQuery now tc q)).map .tok := by
  have htail : (Part.tokens (.plain fixedOrder)).map Lexeme.tok ++ [.tok ⟨.tokNumber, itoa (clampLimit q.limit)⟩] =
      coldTail (itoa (clampLimit q.limit)) := rfl
  rw [tokenize_buildColdQuery now tc q h, coldParts]
  simp only [List.flatMap_append, List.flatMap_cons, List.flatMap_nil, List.map_append, List.append_nil,
    List.map_cons, List.map_nil, tokens_front, tokens_labels, List.append_assoc, htail]
  simp only [Statement.lexemes, coldStatement, Condition.lexemes, lexemes_labels, List.flatMap_nil, List.nil_append,
    List.cons_append, List.append_assoc]

/-! ## What the cold query keeps -/

section
variable (T : Trino) (r : ColdRow)

theorem eval_tenant (v : Bytes) :
    (Factor.cmp .tenantId .eq (.literal v)).eval T.engine r = some (r.record.tenantId == v) := by
  rfl

theorem eval_dt (lo hi : Bytes) :
    (Factor.between false .dt (.literal lo) (.literal hi)).eval T.engine r =
      some (textLe lo r.dt && textLe r.dt hi) := by
  rfl

theorem eval_optional (v : Bytes) (f : Factor) :
    (Factor.optional v f).eval T.engine r = Truth.or (some (v == [])) (f.eval T.engine r) := by
  rfl

theorem eval_regexpLike (p : Bytes) :
    (Factor.test (.regexpLike p)).eval T.engine r = some (T.regexpLike r.record.message p) := by
  rfl

theorem eval_service (v : Bytes) :
    (Factor.cmp .service .eq (.literal v)).eval T.engine r = some (r.record.service == v) := by
  rfl

theorem eval_label (l : Bytes × Bytes) :
    (Factor.label l).eval T.engine r = (T.jsonExtractScalar r.record.labels (bs "$." ++ l.1)).map (· == l.2) := by
  have h : (Factor.label l).eval T.engine r =
      (T.jsonExtractScalar r.record.labels (bs "$." ++ l.1)).bind fun a => some (a == l.2) := by rfl
  rw [h]
  cases T.jsonExtractScalar r.record.labels (bs "$." ++ l.1) <;> rfl

theorem factors_labels : ∀ (labels : Labels) (t : Term),
    (labels.foldl (fun t l => Term.and t (.label l)) t).factors = t.factors ++ labels.map Factor.label := by
  intro labels
  induction labels with
  | nil => intro t; simp
  | cons l labels ih =>
    intro t
    rw [List.foldl_cons, ih, Term.factors, List.map_cons, List.append_assoc]
    rfl

theorem satisfies_coldStatement (now : Time) (tc : TenantContext) (q : SearchQuery) :
    T.Satisfies (coldStatement now tc q) r ↔ r.record.tenantId = tc.tenantId ∧ q.ColdWindow now r.dt ∧
      (trimSpace q.text = [] ∨ T.regexpLike r.record.message (trimSpace q.text) = true) ∧
      (trimSpace q.service = [] ∨ r.record.service = trimSpace q.service) ∧
      ∀ l ∈ q.labels, T.jsonExtractScalar r.record.labels (bs "$." ++ l.1) = some l.2 := by
  have hlabel : ∀ l, (Factor.label l).eval T.engine r = some true ↔
      T.jsonExtractScalar r.record.labels (bs "$." ++ l.1) = some l.2 := fun l => by
    rw [eval_label]
    simp
  have hterm : (coldTerm tc.tenantId (timeBounds now q).1 (timeBounds now q).2 (trimSpace q.text)
      (trimSpace q.service)).factors = [.cmp .tenantId .eq (.literal tc.tenantId),
        .between false .dt (.literal (timeBounds now q).1) (.literal (timeBounds now q).2),
        .optional (trimSpace q.text) (.test (.regexpLike (trimSpace q.text))),
        .optional (trimSpace q.service) (.cmp .service .eq (.literal (trimSpace q.service)))] := rfl
  rw [Trino.Satisfies, Condition.eval_eq_true]
  simp only [coldStatement, Condition.terms, List.mem_singleton, exists_eq_left, Term.eval_eq_true, factors_labels,
    hterm, List.forall_mem_append, List.forall_mem_cons, List.forall_mem_map, forall_eq, hlabel, Truth.or_eq_true,
    eval_tenant, eval_dt, eval_optional, eval_regexpLike, eval_service, Option.some.injEq, beq_iff_eq,
    Bool.and_eq_true, SearchQuery.ColdWindow, and_assoc]

theorem jsonExtractScalar_key (labels : Labels) (k : Bytes) :
    T.jsonExtractScalar labels (bs "$." ++ k) = if T.isMember k then labels.lookup k else none := by
  have hpath : T.jsonPath (bs "$." ++ k) =
      if (k.splitOn (byte '.')).all T.isMember then some (k.splitOn (byte '.')) else none := by
    have h : bs "$." ++ k = byte '$' :: byte '.' :: k := rfl
    rw [h, Trino.jsonPath]
    simp only [true_and]
  rw [Trino.jsonExtractScalar, hpath]
  by_cases hd : byte '.' ∈ k
  · -- Two members or more.
    have hm : T.isMember k = false := by
      by_contra h
      exact (T.isMember_sound k (by simpa using h)).2 hd
    obtain ⟨a, b, rfl⟩ := List.append_of_mem hd
    obtain ⟨x, xs, hx⟩ := List.exists_cons_of_ne_nil (List.splitOn_ne_nil (byte '.') a)
    obtain ⟨y, ys, hy⟩ := List.exists_cons_of_ne_nil (List.splitOn_ne_nil (byte '.') b)
    rw [List.splitOn_append_cons_self, hx, hy, hm]
    split <;> simp_all
  · rw [List.splitOn_eq_singleton hd]
    cases hm : T.isMember k <;> simp [hm]

end

/-! ## What the hot query keeps -/

theorem satisfies_buildSearch (fts : Fts) {tenant : Bytes} {u : Uuid} (hu : uuidIn tenant = some u) {q : SearchQuery}
    (hc : q.cursor = none) (n : Nat) (r : Row) : Satisfies fts (buildSearch tenant q n) r ↔ q.Matches fts u r := by
  by_cases hl : ∀ s, q.level = some s → (levelIn s).isSome = true
  · obtain ⟨conds, h1, h2⟩ := readQuery_buildSearch fts hu hl none n
    rw [Option.map_none, ← hc] at h1
    rw [Satisfies, h1]
    simpa using h2 r
  · push Not at hl
    obtain ⟨s, hs, hn⟩ := hl
    have hnone : levelIn s = none := by simpa using hn
    rw [Satisfies, readQuery_unknown_level hs hnone]
    refine ⟨fun ⟨_, h, _⟩ => (by cases h), fun h => ?_⟩
    have := h.2.2.2.2.2.2 s hs
    rw [hnone] at this
    cases this

/-! ## An event in both tiers -/

theorem mem_rows_of_archived {tc : TenantContext} {ev : LogEvent} {o : ColdObject} (h : Archived tc ev o)
    (hz : isZero ev.ts = false) : coldRow tc ev ∈ o.rows := by
  obtain ⟨-, -, hdate, -⟩ := date_of_archived h hz
  obtain ⟨filed, encoded, batchIDs, puts, events, -, g, -, now, batchID, hev, rfl⟩ := h
  obtain ⟨i, hi, hget⟩ := List.mem_iff_getElem.mp hev
  refine List.mem_map.mpr ⟨coldRecord tc ev.ts ev, ?_, by rw [hdate]; rfl⟩
  refine List.mem_map.mpr ⟨(ev, i), List.mem_zipIdx_iff_getElem?.mpr (by simp [hget, hi]), ?_⟩
  have hts : resolveTS (now i) ev = ev.ts := if_neg (by simp [hz])
  simp only [hts]

section
variable {tc : TenantContext} {ev : LogEvent} {q : SearchQuery}

theorem satisfies_cold_iff (T : Trino) (hkeys : (ev.labels.map Prod.fst).Nodup) (htext : q.text = []) (now : Time) :
    T.Satisfies (coldStatement now tc q) (coldRow tc ev) ↔
      q.Passes ev ∧ (∀ l ∈ q.labels, T.isMember l.1 = true) ∧ q.ColdWindow now (formatDate ev.ts) := by
  have hempty : trimSpace ([] : Bytes) = [] := rfl
  have hlabel : ∀ l : Bytes × Bytes, T.jsonExtractScalar ev.labels (bs "$." ++ l.1) = some l.2 ↔
      l ∈ ev.labels ∧ T.isMember l.1 = true := fun l => by
    rw [jsonExtractScalar_key]
    by_cases hm : T.isMember l.1 = true
    · rw [if_pos hm]
      simpa [hm] using lookup_eq_some_iff_mem hkeys
    · simp [hm]
  rw [satisfies_coldStatement, htext, hempty]
  simp only [coldRow, coldRecord, hlabel, SearchQuery.Passes, true_and, forall_and, or_iff_not_imp_left, ne_eq]
  tauto

theorem satisfies_hot_iff (fts : Fts) {clock : Time} {id : Uuid} {row : Row}
    (hi : insertRow tc ev clock id = some row) (hz : isZero ev.ts = false) (htext : q.text = [])
    (hcur : q.cursor = none) (n : Nat) :
    Satisfies fts (buildSearch tc.tenantId q n) row ↔ q.Passes ev ∧ q.HotWindow (micros ev.ts) ∧ q.HasLevel ev := by
  have h := insertRow_eq_some hi
  have hempty : trimSpace ([] : Bytes) = [] := rfl
  have hts := h.ts
  rw [if_neg (by simp [hz])] at hts
  rw [satisfies_buildSearch fts h.tenant hcur, SearchQuery.Matches, htext, hempty, hts, h.labels, h.service, h.level]
  simp only [SearchQuery.Passes, SearchQuery.HotWindow, SearchQuery.HasLevel, ne_eq, not_true_eq_false,
    false_imp_iff, true_and]
  tauto

theorem unixDay_eq_micros (t : Time) : unixDay t = micros t / 86400000000 := by
  unfold unixDay micros
  omega

theorem coldWindow_iff (hfrom : isZero q.tsFrom = false) (hto : isZero q.tsTo = false)
    (hy : fourDigit (unixDay ev.ts)) (hyf : fourDigit (unixDay q.tsFrom)) (hyt : fourDigit (unixDay q.tsTo))
    (now : Time) : q.ColdWindow now (formatDate ev.ts) ↔
      unixDay q.tsFrom ≤ unixDay ev.ts ∧ unixDay ev.ts ≤ unixDay q.tsTo := by
  have hb : timeBounds now q = (formatDate q.tsFrom, formatDate q.tsTo) := by simp [timeBounds, hfrom, hto]
  rw [SearchQuery.ColdWindow, hb, textLe_formatDate hyf hy, textLe_formatDate hy hyt]

theorem days_of_hotWindow (hfrom : isZero q.tsFrom = false) (hto : isZero q.tsTo = false)
    (h : q.HotWindow (micros ev.ts)) : unixDay q.tsFrom ≤ unixDay ev.ts ∧ unixDay ev.ts ≤ unixDay q.tsTo := by
  have h1 := h.1 hfrom
  have h2 := h.2 hto
  rw [unixDay_eq_micros, unixDay_eq_micros ev.ts, unixDay_eq_micros q.tsTo]
  omega

/-- **Filters of the tiers.** For a query with both bounds and no text, the two `WHERE` clauses agree on an
event stored in both tiers just when, the event passing the filters on service and labels: if every label
key can stand in a path, then an event of the dates of the window is in the window and has the level; and
if the event is in the window and has the level, every label key can stand in a path. -/
theorem filters_agree_iff (T : Trino) (fts : Fts) {clock : Time} {id : Uuid} {row : Row} {o : ColdObject}
    (hi : insertRow tc ev clock id = some row) (ho : Archived tc ev o) (hz : isZero ev.ts = false)
    (hkeys : (ev.labels.map Prod.fst).Nodup) (htext : q.text = []) (hcur : q.cursor = none)
    (hfrom : isZero q.tsFrom = false) (hto : isZero q.tsTo = false) (hy : fourDigit (unixDay ev.ts))
    (hyf : fourDigit (unixDay q.tsFrom)) (hyt : fourDigit (unixDay q.tsTo)) (now : Time) (n : Nat) :
    (coldStatement now tc q).lexemes = (tokenize (buildColdQuery now tc q)).map .tok ∧ coldRow tc ev ∈ o.rows ∧
    ((T.Satisfies (coldStatement now tc q) (coldRow tc ev) ↔ Satisfies fts (buildSearch tc.tenantId q n) row) ↔
      (q.Passes ev →
        ((∀ l ∈ q.labels, T.isMember l.1 = true) → unixDay q.tsFrom ≤ unixDay ev.ts → unixDay ev.ts ≤ unixDay q.tsTo →
          q.HotWindow (micros ev.ts) ∧ q.HasLevel ev) ∧
        (q.HotWindow (micros ev.ts) → q.HasLevel ev → ∀ l ∈ q.labels, T.isMember l.1 = true))) := by
  have hdays : q.HotWindow (micros ev.ts) → _ := days_of_hotWindow hfrom hto
  refine ⟨coldStatement_lexemes now q (insertRow_eq_some hi).valid, mem_rows_of_archived ho hz, ?_⟩
  rw [satisfies_cold_iff T hkeys htext, satisfies_hot_iff fts hi hz htext hcur,
    coldWindow_iff hfrom hto hy hyf hyt]
  constructor
  · intro h hp
    exact ⟨fun hm h1 h2 => (h.mp ⟨hp, hm, h1, h2⟩).2, fun hw hl => (h.mpr ⟨hp, hw, hl⟩).2.1⟩
  · intro h
    constructor
    · intro ⟨hp, hm, h1, h2⟩
      exact ⟨hp, (h hp).1 hm h1 h2⟩
    · intro ⟨hp, hw, hl⟩
      exact ⟨hp, (h hp).2 hw hl, hdays hw⟩

end

/-! ### Events on which they differ -/

section
open Pipeline

def asciiTrino : Trino where
  regexpLike _ _ := false
  isMember s := !s.isEmpty && s.all isMemberByte
  isMember_sound s h := by
    simp only [Bool.and_eq_true, Bool.not_eq_true', List.isEmpty_eq_false_iff, List.all_eq_true] at h
    exact ⟨h.1, fun hd => absurd (h.2 _ hd) (by decide)⟩
  isMember_ascii s hs h := by simpa [hs] using h
  arrange _ rows := rows
  arrange_sub _ _ _ h := h
  arrange_nil _ := rfl

/-- An event is stored in both tiers, and only one of the statements built for the query keeps it. -/
def Differ (ev : LogEvent) (q : SearchQuery) : Prop :=
  ∃ row o, insertRow sampleContext ev 0 sampleRow.id = some row ∧ Archived sampleContext ev o ∧
    ¬ (asciiTrino.Satisfies (coldStatement 0 sampleContext q) (coldRow sampleContext ev) ↔
      Satisfies (fun _ _ => true) (buildSearch sampleContext.tenantId q 51) row)

theorem inserted_sample (ev : LogEvent) : ∃ row, insertRow sampleContext ev 0 sampleRow.id = some row := by
  have hv : sampleContext.valid = none := by decide
  have hu : uuidIn sampleContext.tenantId = some sampleRow.tenantId := by decide
  simp [insertRow, hv, hu]

theorem differ_of {ev : LogEvent} {q : SearchQuery} (hz : isZero ev.ts = false) (hkeys : (ev.labels.map Prod.fst).Nodup)
    (htext : q.text = []) (hcur : q.cursor = none)
    (h : ¬ (q.Passes ev ∧ (∀ l ∈ q.labels, asciiTrino.isMember l.1 = true) ∧ q.ColdWindow 0 (formatDate ev.ts) ↔
      q.Passes ev ∧ q.HotWindow (micros ev.ts) ∧ q.HasLevel ev)) : Differ ev q := by
  obtain ⟨row, hi⟩ := inserted_sample ev
  refine ⟨row, _, hi, archived_alone (by decide) hz, fun hiff => h ?_⟩
  rw [satisfies_cold_iff asciiTrino hkeys htext] at hiff
  exact hiff.trans (satisfies_hot_iff (fun _ _ => true) hi hz htext hcur 51)

/-- The level is not asked of the archive, the whole of the first and last dates are in its window, and a
label key with a dot is read as two members. -/
theorem filters_differ :
    Differ (eventAt januaryFirst)
      { level := some (bs "error"), tsFrom := januaryFirst, tsTo := januaryFirst + 3600000000000 } ∧
    Differ (eventAt januaryFirst)
      { tsFrom := januaryFirst + 3600000000000, tsTo := januaryFirst + 7200000000000 } ∧
    Differ { eventAt januaryFirst with labels := [(bs "k8s.pod", bs "api")] }
      { labels := [(bs "k8s.pod", bs "api")], tsFrom := januaryFirst, tsTo := januaryFirst + 3600000000000 } := by
  refine ⟨differ_of ?_ ?_ rfl rfl ?_, differ_of ?_ ?_ rfl rfl ?_, differ_of ?_ ?_ rfl rfl ?_⟩ <;> decide

/-- On an event of January with a plain label, and the level asked for, they agree. -/
theorem labelled_event_agrees :
    let ev := { eventAt januaryFirst with labels := [(bs "env", bs "prod")] }
    let q : SearchQuery := { labels := [(bs "env", bs "prod")], level := some (bs "info"), tsFrom := januaryFirst,
                             tsTo := januaryFirst + 3600000000000 }
    ∃ row, insertRow sampleContext ev 0 sampleRow.id = some row ∧
      (asciiTrino.Satisfies (coldStatement 0 sampleContext q) (coldRow sampleContext ev) ↔
        Satisfies (fun _ _ => true) (buildSearch sampleContext.tenantId q 51) row) := by
  intro ev q
  obtain ⟨row, hi⟩ := inserted_sample ev
  have h := filters_agree_iff (q := q) asciiTrino (fun _ _ => true) hi (archived_alone (by decide) (by decide))
    (by decide) (by decide) rfl rfl (by decide) (by decide) (by decide) (by decide) (by decide) 0 51
  exact ⟨row, hi, h.2.2.mpr (by decide)⟩

end

end Logalot
