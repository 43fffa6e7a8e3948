import Logalot.RetentionSound
import Logalot.TieredSearch

/-!
# A search reaches what is retained

The horizon of the router is an instant and those of the worker are dates, so what
the router leaves to the hot store is not dropped yet. The archive compares dates as
texts, and from 2026-01-01 on if a query has no lower bound; the hot store compares
microseconds.
-/

namespace Logalot

open Go Pg

/-! ## Stored events -/

/-- The event is in the partition of its day and in an object of the archive. -/
structure Stored (tc : TenantContext) (ev : LogEvent) (row : Row) (o : ColdObject) (s : Tiers) : Prop where
  timed : isZero ev.ts = false
  inserted : ∃ now id, insertRow tc ev now id = some row
  hot : s.HasRow (unixDay ev.ts) row
  archived : Archived tc ev o
  cold : o.key ∈ s.cold

/-- A call is made of a store that holds the event, with time bounds that it meets; `now` is the clock
read for a query of the archive. -/
def Reaches (now : Time) (calls : List StoreCall) (row : Row) (o : ColdObject) (s : Tiers) : Prop :=
  ∃ c ∈ calls, (c.store = .hot ∧ row ∈ s.hot.rows ∧ c.query.HotWindow row.ts) ∨
    (c.store = .cold ∧ o.key ∈ s.cold ∧ c.query.ColdWindow now (formatDate o.t))

theorem Stored.row_ts {tc : TenantContext} {ev : LogEvent} {row : Row} {o : ColdObject} {s : Tiers}
    (h : Stored tc ev row o s) : row.ts = micros ev.ts := by
  obtain ⟨now, id, hi⟩ := h.inserted
  rw [(insertRow_eq_some hi).ts, if_neg (by simp [h.timed])]

/-! ## Routes -/

variable {ts : TieredSearcher} {now now' t u : Time} {q : SearchQuery}

theorem classifyTier_hot (h : ts.classifyTier now q = .hot) :
    (isZero q.tsFrom = true ∧ isZero q.tsTo = true) ∨ (isZero q.tsFrom = false ∧ ts.hotCutoff now ≤ q.tsFrom) := by
  unfold TieredSearcher.classifyTier at h
  grind

theorem classifyTier_cold (h : ts.classifyTier now q = .cold) :
    isZero q.tsTo = false ∧ q.tsTo ≤ ts.hotCutoff now := by
  unfold TieredSearcher.classifyTier at h
  grind

theorem neg_le_bmod {d : Int} (h : 0 ≤ d) : -d ≤ Int.bmod (-d) (2 ^ 64) := by
  rw [Int.bmod_def]
  norm_num
  split <;> omega

theorem search_calls {α : Type} (he : ts.enabled = true) (hc : ts.hasCold = true) (slice : SortSlice α)
    (hot cold : StoreSearch α) (tc : TenantContext) : (ts.search slice hot cold now now' tc q).1 =
      match ts.classifyTier now (withLimit q) with
      | .hot => [⟨.hot, withLimit q⟩]
      | .cold => [⟨.cold, withLimit q⟩]
      | .both => [⟨.hot, (ts.split now' (withLimit q)).1⟩, ⟨.cold, (ts.split now' (withLimit q)).2⟩] := by
  unfold TieredSearcher.search
  rw [if_neg (by simp [he, hc])]
  cases ts.classifyTier now (withLimit q) <;> rfl

theorem le_hotCutoff (h : 1 ≤ ts.hotDays) (now : Time) :
    now - ts.hotDays * 86400000000000 ≤ ts.hotCutoff now := by
  unfold TieredSearcher.hotCutoff
  rw [neg_mul, sub_eq_add_neg]
  exact Int.add_le_add_left (neg_le_bmod (by omega)) now

theorem hotCutoff_mono (ts : TieredSearcher) (h : now ≤ now') : ts.hotCutoff now ≤ ts.hotCutoff now' := by
  unfold TieredSearcher.hotCutoff
  exact add_le_add_left h _

/-! ## Bounds -/

theorem unixDay_mono (h : t ≤ u) : unixDay t ≤ unixDay u := Int.ediv_le_ediv (by decide) h

theorem unixDay_sub_days (t : Time) (days : Int) : unixDay (t - days * 86400000000000) = unixDay t - days := by
  unfold unixDay
  rw [sub_eq_add_neg, ← neg_mul, Int.add_mul_ediv_right _ _ (by decide), ← sub_eq_add_neg]

theorem micros_mono (h : t ≤ u) : micros t ≤ micros u := Int.ediv_le_ediv (by decide) h

theorem fourDigit_of_le (h1 : 1 ≤ (civil (unixDay t)).year) (h : t ≤ u)
    (h9 : (civil (unixDay u)).year ≤ 9999) : fourDigit (unixDay t) ∧ fourDigit (unixDay u) := by
  have := civil_year_mono (unixDay_mono h)
  exact ⟨⟨by omega, by omega⟩, ⟨by omega, h9⟩⟩

theorem coldWindow_of (h1 : 1 ≤ (civil (unixDay t)).year) (hfrom : isZero q.tsFrom = false → q.tsFrom ≤ t)
    (hdate : isZero q.tsFrom = true → unixDay januaryFirst ≤ unixDay t) (hto : isZero q.tsTo = false)
    (hlt : t ≤ q.tsTo) (h9 : (civil (unixDay q.tsTo)).year ≤ 9999) (now : Time) :
    q.ColdWindow now (formatDate t) := by
  obtain ⟨hy, hy'⟩ := fourDigit_of_le h1 hlt h9
  constructor
  · cases hz : isZero q.tsFrom with
    | true =>
      have hjan : bs "2026-01-01" = formatDate januaryFirst := by decide
      rw [timeBounds, if_pos hz, hjan]
      exact textLe_formatDate_of_le hy (hdate hz)
    | false =>
      rw [timeBounds, if_neg (by simp [hz])]
      exact textLe_formatDate_of_le hy (unixDay_mono (hfrom hz))
  · have hb : (timeBounds now q).2 = formatDate q.tsTo := if_neg (by simp [hto])
    rw [hb]
    exact textLe_formatDate_of_le hy' (unixDay_mono hlt)

theorem isZero_of_lt (h1 : 1 ≤ (civil (unixDay t)).year) (h : t < u) : isZero u = false := by
  by_contra hz
  have hu : u = zeroTime := by simpa [isZero] using hz
  subst hu
  have hm := civil_year_mono (unixDay_mono (Int.le_sub_one_of_lt h))
  have h0 : (civil (unixDay (zeroTime - 1))).year = 0 := by decide
  rw [h0] at hm
  omega

/-! ## Searches -/

section
variable {r : Retainer} {tc : TenantContext} {ev : LogEvent} {row : Row} {o : ColdObject} {s s' : Tiers}
  {coldDays : Int}

theorem Stored.hot_after (h : Stored tc ev row o s) (hr : r.hotDays = ts.hotDays) (hd : 1 ≤ ts.hotDays)
    (hrun : r.Cycles (CycleEnv.By now tc.tenantId coldDays) s s') (h1 : 1 ≤ (civil (unixDay ev.ts)).year)
    (hge : ts.hotCutoff now ≤ ev.ts) : row ∈ s'.hot.rows := by
  refine (hasRow_run hrun h1 ?_ h.hot).mem_rows
  have hle := unixDay_mono ((le_hotCutoff hd now).trans hge)
  rw [unixDay_sub_days] at hle
  rwa [hr]

theorem Stored.cold_after (h : Stored tc ev row o s)
    (hrun : r.Cycles (CycleEnv.By now tc.tenantId coldDays) s s') (hy : fourDigit (unixDay ev.ts))
    (hkept : now - coldDays * 86400000000000 ≤ ev.ts) : o.key ∈ s'.cold ∧ formatDate o.t = formatDate ev.ts := by
  obtain ⟨hu, ⟨batchID, hkey⟩, hdate, hday⟩ := date_of_archived h.archived h.timed
  refine ⟨?_, hdate⟩
  rw [hkey]
  have hle := unixDay_mono hkept
  rw [unixDay_sub_days] at hle
  exact key_run hrun hu (hday ▸ hy) (hday ▸ hle) (hkey ▸ h.cold)

/-- **No gap between the tiers.** After any cycles until `now`, a search at `now` of a window with an event
reaches the event in one of the tiers. -/
theorem search_reaches_event (he : ts.enabled = true) (hc : ts.hasCold = true) (hd : 1 ≤ ts.hotDays)
    (hr : r.hotDays = ts.hotDays) (h : Stored tc ev row o s)
    (hrun : r.Cycles (CycleEnv.By now tc.tenantId coldDays) s s')
    (hkept : now - coldDays * 86400000000000 ≤ ev.ts) (hn : now ≤ now')
    (hq : isZero q.tsFrom = false ∨ isZero q.tsTo = false) (hw : q.Contains ev.ts)
    (h1 : 1 ≤ (civil (unixDay ev.ts)).year)
    (hmicro : ts.hotCutoff now ≤ ev.ts → isZero q.tsTo = false → micros ev.ts < micros q.tsTo)
    (h9 : ev.ts < ts.hotCutoff now' → (civil (unixDay (ts.hotCutoff now'))).year ≤ 9999)
    (hdate : ev.ts < ts.hotCutoff now' → isZero q.tsFrom = true → unixDay januaryFirst ≤ unixDay ev.ts)
    {α : Type} (slice : SortSlice α) (hot cold : StoreSearch α) (now'' : Time) :
    Reaches now'' (ts.search slice hot cold now now' tc q).1 row o s' := by
  have hmono := hotCutoff_mono ts hn
  -- The hot store is asked for the event, which is not before the first cutoff.
  have hhot : ∀ c : StoreCall, ts.hotCutoff now ≤ ev.ts → c.store = .hot →
      (isZero c.query.tsFrom = false → c.query.tsFrom ≤ ev.ts) → c.query.tsTo = q.tsTo →
      c.store = .hot ∧ row ∈ s'.hot.rows ∧ c.query.HotWindow row.ts := by
    intro c hge hs hfrom hto
    refine ⟨hs, h.hot_after hr hd hrun h1 hge, fun hz => ?_, fun hz => ?_⟩
    · rw [h.row_ts]
      exact micros_mono (hfrom hz)
    · rw [h.row_ts]
      rw [hto] at hz ⊢
      exact hmicro hge hz
  -- The archive is asked for it, which is before the second.
  have hcold : ∀ c : StoreCall, ev.ts < ts.hotCutoff now' → c.store = .cold → c.query.tsFrom = q.tsFrom →
      isZero c.query.tsTo = false → ev.ts ≤ c.query.tsTo → c.query.tsTo ≤ ts.hotCutoff now' →
      c.store = .cold ∧ o.key ∈ s'.cold ∧ c.query.ColdWindow now'' (formatDate o.t) := by
    intro c hlt hs hfrom hz hle hcut
    have h9' := (civil_year_mono (unixDay_mono hcut)).trans (h9 hlt)
    obtain ⟨hk, hf⟩ := h.cold_after hrun (fourDigit_of_le h1 hle h9').1 hkept
    refine ⟨hs, hk, ?_⟩
    rw [hf]
    exact coldWindow_of h1 (hfrom ▸ hw.1) (hfrom ▸ hdate hlt) hz hle h9' now''
  rw [search_calls he hc]
  cases hroute : ts.classifyTier now (withLimit q) with
  | hot =>
    refine ⟨_, List.mem_cons_self, Or.inl (hhot _ ?_ rfl hw.1 rfl)⟩
    rcases classifyTier_hot hroute with ⟨hz, hz'⟩ | ⟨hz, hle⟩
    · rcases hq with h | h
      · exact absurd (h.symm.trans hz) (by decide)
      · exact absurd (h.symm.trans hz') (by decide)
    · exact hle.trans (hw.1 hz)
  | cold =>
    obtain ⟨hz, hle⟩ := classifyTier_cold hroute
    have hlt := hw.2 hz
    exact ⟨_, List.mem_cons_self, Or.inr (hcold _ (lt_of_lt_of_le hlt (hle.trans hmono)) rfl rfl hz hlt.le
      (hle.trans hmono))⟩
  | both =>
    by_cases hlt : ev.ts < ts.hotCutoff now'
    · exact ⟨_, List.mem_cons_of_mem _ List.mem_cons_self,
        Or.inr (hcold _ hlt rfl rfl (isZero_of_lt h1 hlt) hlt.le le_rfl)⟩
    · exact ⟨_, List.mem_cons_self, Or.inl (hhot _ (hmono.trans (not_lt.mp hlt)) rfl (fun _ => not_lt.mp hlt) rfl)⟩

end

/-! ### Events at the bounds -/

section
open Pipeline

def eventAt (t : Time) : LogEvent := { sampleEvent with ts := t }

def rowAt (t : Time) : Row := { sampleRow with ts := micros t }

def tiersAt (t : Time) : Tiers :=
  { hot := { parts := [{ emptyPart (unixDay t) with rows := [rowAt t] }], rest := [] }, cold := {(objectAt t).key} }

theorem stored_at {t : Time} (h : isZero t = false) :
    Stored sampleContext (eventAt t) (rowAt t) (objectAt t) (tiersAt t) where
  timed := h
  inserted := by
    have hv : sampleContext.valid = none := by decide
    have hu : uuidIn sampleContext.tenantId = some sampleRow.tenantId := by decide
    refine ⟨0, sampleRow.id, ?_⟩
    simp only [insertRow, hv, hu, eventAt, h, if_true]
    rfl
  hot := ⟨_, List.mem_cons_self, rfl, List.mem_cons_self⟩
  archived := archived_alone (by decide) h
  cold := Finset.mem_singleton_self _

def router : TieredSearcher := newTieredSearcher true 30 true

def midnight (year month day : Int) : Time := dayNumber ⟨year, month, day⟩ * 86400000000000

instance (now : Time) (calls : List StoreCall) (row : Row) (o : ColdObject) (s : Tiers) :
    Decidable (Reaches now calls row o s) :=
  inferInstanceAs (Decidable (∃ c ∈ calls, _))

/-- The event at `t` is kept and in the window, and yet not reached. -/
def Missed (now t : Time) (coldDays : Int) (q : SearchQuery) : Prop :=
  Stored sampleContext (eventAt t) (rowAt t) (objectAt t) (tiersAt t) ∧ now - coldDays * 86400000000000 ≤ t ∧
  (isZero q.tsFrom = false ∨ isZero q.tsTo = false) ∧ q.Contains t ∧
  ∀ (slice : SortSlice Bytes) (hot cold : StoreSearch Bytes),
    ¬ Reaches now (router.search slice hot cold now now sampleContext q).1 (rowAt t) (objectAt t) (tiersAt t)

/-- An event of 2025 without a lower bound, one in the same microsecond as the upper bound, one of year 9999
seen from the next year, and one of a year before the first. -/
theorem search_misses_event :
    Missed juneFirst (midnight 2025 12 15) 365 { tsTo := midnight 2026 1 10 } ∧
    Missed juneFirst (juneFirst - 900) 365 { tsFrom := mayFirst + 86400000000000, tsTo := juneFirst - 500 } ∧
    Missed (midnight 10000 3 1) (midnight 9999 12 15) 365 { tsFrom := midnight 9999 12 1 } ∧
    Missed juneFirst (midnight (-1) 6 1) 1000000 { tsFrom := midnight (-2) 6 1 } := by
  refine ⟨⟨stored_at (by decide), ?_⟩, ⟨stored_at (by decide), ?_⟩, ⟨stored_at (by decide), ?_⟩,
    stored_at (by decide), ?_⟩
  all_goals
    refine ⟨by decide, by decide, by decide, fun slice hot cold => ?_⟩
    rw [search_calls rfl rfl]
    decide

theorem sampleCycle_by : sampleCycle.By juneFirst sampleContext.tenantId 100 where
  clock := le_rfl
  dbDate := le_rfl
  policies rows hp p hmem _ := by
    cases hp
    rw [List.mem_singleton.mp hmem]
    decide
  lawful := pagedS3_lawful

/-- After a cycle on June 1, which is 31 days later, an event of May 1 is reached. -/
theorem may_event_reached :
    ∃ N rep, (∀ fuel ≥ N, Retainer.runCycle ⟨true, false, 30⟩ fuel sampleCycle (tiersAt mayFirst) = some rep) ∧
      ∀ (slice : SortSlice Bytes) (hot cold : StoreSearch Bytes), Reaches juneFirst
        (router.search slice hot cold juneFirst juneFirst sampleContext { tsFrom := mayFirst }).1
        (rowAt mayFirst) (objectAt mayFirst) rep.tiers := by
  obtain ⟨N, rep, hN, -, -, -⟩ := runCycle_swept (r := ⟨true, false, 30⟩) rfl rfl
    (show sampleCycle.client.Lawful from pagedS3_lawful) (show sampleCycle.policies = .ok [samplePolicy] from rfl)
    (tiersAt mayFirst)
  have hrun : Retainer.Cycles ⟨true, false, 30⟩ (CycleEnv.By juneFirst sampleContext.tenantId 100) (tiersAt mayFirst)
      rep.tiers := .single (Or.inr ⟨sampleCycle, N, rep, sampleCycle_by, hN N le_rfl, rfl⟩)
  refine ⟨N, rep, hN, fun slice hot cold => ?_⟩
  exact search_reaches_event rfl rfl (by decide) rfl
    (stored_at (t := mayFirst) (by decide)) hrun (by decide) le_rfl (Or.inl (by decide)) (by decide)
    (by decide) (by decide) (by decide) (by decide) slice hot cold juneFirst

end

end Logalot
