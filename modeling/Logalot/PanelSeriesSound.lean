import Mathlib.Data.Finset.Card
import Logalot.PanelsSound
import Logalot.SavedQueriesSound

/-!
# The series of a panel

The width of a bucket is the range over the number of buckets, rounded up, so there
are not more of them than were asked for, and their counts add up.
-/

namespace Logalot

open Go Pg

/-! ## Counts per bucket -/

theorem pairwise_bucketCounts (starts : List Int) : (bucketCounts starts).Pairwise fun a b => a.1 < b.1 := by
  have hle : (starts.dedup.insertionSort (· ≤ ·)).Pairwise (· ≤ ·) := List.pairwise_insertionSort _ _
  have hnodup : (starts.dedup.insertionSort (· ≤ ·)).Nodup :=
    (List.perm_insertionSort _ _).nodup_iff.mpr (List.nodup_dedup starts)
  rw [bucketCounts, List.pairwise_map]
  exact (hle.and hnodup).imp fun h => lt_of_le_of_ne h.1 h.2

theorem mem_bucketCounts {starts : List Int} {b : Int × Nat} :
    b ∈ bucketCounts starts ↔ b.1 ∈ starts ∧ b.2 = starts.count b.1 := by
  obtain ⟨s, n⟩ := b
  simp only [bucketCounts, List.mem_map, List.mem_insertionSort, List.mem_dedup, Prod.mk.injEq]
  constructor
  · rintro ⟨a, ha, rfl, rfl⟩
    exact ⟨ha, rfl⟩
  · rintro ⟨ha, rfl⟩
    exact ⟨s, ha, rfl, rfl⟩

theorem length_bucketCounts_le {starts : List Int} {start width : Int} {n : Nat}
    (h : ∀ b ∈ starts, ∃ k < n, b = start + (k : Nat) * width) : (bucketCounts starts).length ≤ n := by
  have hsub : starts.toFinset ⊆ (Finset.range n).image fun k : Nat => start + k * width := by
    intro b hb
    obtain ⟨k, hk, rfl⟩ := h b (List.mem_toFinset.mp hb)
    exact Finset.mem_image.mpr ⟨k, Finset.mem_range.mpr hk, rfl⟩
  calc (bucketCounts starts).length = starts.dedup.length := by
        rw [bucketCounts, List.length_map, List.length_insertionSort]
    _ = starts.toFinset.card := (List.card_toFinset starts).symm
    _ ≤ ((Finset.range n).image fun k : Nat => start + k * width).card := Finset.card_le_card hsub
    _ ≤ n := Finset.card_image_le.trans (Finset.card_range n).le

theorem sum_bucketCounts (starts : List Int) : ((bucketCounts starts).map Prod.snd).sum = starts.length := by
  rw [bucketCounts, List.map_map, ← List.sum_map_count_dedup_eq_length starts]
  exact ((List.perm_insertionSort _ _).map _).sum_eq

/-! ## Buckets of a range -/

section
variable {start width : Int} (hw : 1 ≤ width) {r : Row}
include hw

theorem bucketStart_eq (hr : start ≤ r.ts) :
    ∃ k : Nat, bucketStart start width r = start + k * (width * 1000000) ∧ k * (width * 1000000) ≤ r.ts - start := by
  have hk : 0 ≤ (r.ts - start) / (width * 1000000) := Int.ediv_nonneg (by omega) (by omega)
  refine ⟨((r.ts - start) / (width * 1000000)).toNat, ?_, ?_⟩
  · rw [Int.toNat_of_nonneg hk, bucketStart, Int.fdiv_eq_ediv_of_nonneg _ (by omega), Int.add_comm]
  · rw [Int.toNat_of_nonneg hk]
    exact Int.ediv_mul_le _ (by omega)

theorem bucketStart_eq_iff (k : Nat) : bucketStart start width r = start + k * (width * 1000000) ↔
    start + k * (width * 1000000) ≤ r.ts ∧ r.ts < start + k * (width * 1000000) + width * 1000000 := by
  have hw' : 0 < width * 1000000 := by omega
  have hdiv : (r.ts - start) / (width * 1000000) = k ↔
      k * (width * 1000000) ≤ r.ts - start ∧ r.ts - start < (k + 1) * (width * 1000000) := by
    rw [← Int.le_ediv_iff_mul_le hw', ← Int.ediv_lt_iff_lt_mul hw']
    omega
  have hmul : (r.ts - start) / (width * 1000000) * (width * 1000000) = k * (width * 1000000) ↔
      (r.ts - start) / (width * 1000000) = k := Int.mul_eq_mul_right_iff hw'.ne'
  rw [bucketStart, Int.fdiv_eq_ediv_of_nonneg _ (by omega), Int.add_comm, Int.add_right_inj, hmul, hdiv, Int.add_mul]
  omega

end

theorem range_le_buckets {tsFrom tsTo : Int} (hft : tsFrom < tsTo) (hmax : tsTo - tsFrom < 2 ^ 63) {n : Int}
    (hn : 1 ≤ n) : tsTo - tsFrom ≤ n * (bucketSize tsFrom tsTo n * 1000000000) := by
  have hsub : timeSub tsTo tsFrom = tsTo - tsFrom := by
    rw [timeSub, min_eq_right (by omega), max_eq_right (by omega)]
  have hceil : -(-(tsTo - tsFrom) / (1000000000 * n)) ≤ bucketSize tsFrom tsTo n := by
    simp only [bucketSize, hsub, if_neg (by omega : ¬ n ≤ 0), if_neg (by omega : ¬ tsTo - tsFrom ≤ 0)]
    exact le_max_right ..
  have hfloor : -(tsTo - tsFrom) / (1000000000 * n) * (1000000000 * n) ≤ -(tsTo - tsFrom) :=
    Int.ediv_mul_le _ (by omega)
  calc tsTo - tsFrom ≤ -(-(tsTo - tsFrom) / (1000000000 * n)) * (1000000000 * n) := by linarith
    _ ≤ bucketSize tsFrom tsTo n * (1000000000 * n) := Int.mul_le_mul_of_nonneg_right hceil (by omega)
    _ = n * (bucketSize tsFrom tsTo n * 1000000000) := by ring

/-! ## Main result -/

/-- What is to be known of the buckets of a range; `rows` are its events, and `width` is in seconds. -/
structure Series (tsFrom tsTo : Time) (n width : Int) (rows : List Row) (buckets : List (Int × Nat)) : Prop where
  increasing : buckets.Pairwise fun a b => a.1 < b.1
  start : ∀ b ∈ buckets, (∃ k : Nat, b.1 = micros tsFrom + k * (width * 1000000)) ∧ micros tsFrom ≤ b.1 ∧
    b.1 < micros tsTo
  length : buckets.length ≤ n
  count : ∀ b ∈ buckets, b.2 = rows.countP fun r => b.1 ≤ r.ts ∧ r.ts < b.1 + width * 1000000
  total : (buckets.map Prod.snd).sum = rows.length

theorem series_bucketCounts {tsFrom tsTo : Time} (hf : 1000 ∣ tsFrom) (ht : 1000 ∣ tsTo) {n width : Int}
    (hw : 1 ≤ width) (hcover : tsTo - tsFrom ≤ n * (width * 1000000000)) (hn : 0 ≤ n) {rows : List Row}
    (hrows : ∀ r ∈ rows, micros tsFrom ≤ r.ts ∧ r.ts < micros tsTo) :
    Series tsFrom tsTo n width rows (bucketCounts (rows.map (bucketStart (micros tsFrom) width))) := by
  obtain ⟨f, rfl⟩ := hf
  obtain ⟨t, rfl⟩ := ht
  have hmf : micros (1000 * f) = f := Int.mul_ediv_cancel_left f (by decide)
  have hmt : micros (1000 * t) = t := Int.mul_ediv_cancel_left t (by decide)
  rw [hmf, hmt] at hrows
  have hcover' : t - f ≤ n * (width * 1000000) := by linarith
  -- every start is that of a bucket with a number below `n`
  have hstart : ∀ b ∈ rows.map (bucketStart f width), ∃ k : Nat, k < n.toNat ∧
      b = f + k * (width * 1000000) ∧ b < t := by
    intro b hb
    obtain ⟨r, hr, rfl⟩ := List.mem_map.mp hb
    obtain ⟨k, hk, hle⟩ := bucketStart_eq hw (hrows r hr).1
    have hlt := (hrows r hr).2
    refine ⟨k, ?_, hk, by omega⟩
    have hkn : (k : Int) * (width * 1000000) < n * (width * 1000000) := by omega
    have := lt_of_mul_lt_mul_right hkn (by omega)
    omega
  refine ⟨pairwise_bucketCounts _, ?_, ?_, ?_, ?_⟩
  · intro b hb
    rw [hmf, hmt] at *
    obtain ⟨k, -, hk, hlt⟩ := hstart b.1 (mem_bucketCounts.mp hb).1
    have hnonneg : 0 ≤ (k : Int) * (width * 1000000) := Int.mul_nonneg (by omega) (by omega)
    exact ⟨⟨k, hk⟩, by omega, hlt⟩
  · rw [hmf]
    have h := length_bucketCounts_le fun b hb => by
      obtain ⟨k, hk, he, -⟩ := hstart b hb
      exact ⟨k, hk, he⟩
    omega
  · intro b hb
    rw [hmf] at hb
    obtain ⟨hmem, hcount⟩ := mem_bucketCounts.mp hb
    obtain ⟨k, -, hk, -⟩ := hstart b.1 hmem
    rw [hcount, List.count, List.countP_map]
    apply List.countP_congr
    intro r _
    simp only [Function.comp, beq_iff_eq, decide_eq_true_eq, hk]
    exact bucketStart_eq_iff hw k
  · rw [hmf, sum_bucketCounts, List.length_map]

/-- **The series of a panel.** Of a range in whole microseconds, for every filter: the server knows the level that it
names and gives the series and the count of the events that match, or it refuses both. -/
theorem timeSeries_covers (fts : Fts) (db : LogTable) {tc : TenantContext} (hv : tc.valid = none) (d : SavedQueryDef)
    {tsFrom tsTo : Time} (hzf : isZero tsFrom = false) (hzt : isZero tsTo = false) (hft : tsFrom < tsTo)
    (hf : 1000 ∣ tsFrom) (ht : 1000 ∣ tsTo) (hmax : tsTo - tsFrom < 2 ^ 63) {n : Int} (hn : 1 ≤ n) :
    (¬ KnownLevel d.level ∧ timeSeries fts db tc d tsFrom tsTo n = none ∧ panelCount fts db tc d tsFrom tsTo = none) ∨
    ∃ u buckets, uuidIn tc.tenantId = some u ∧ timeSeries fts db tc d tsFrom tsTo n = some buckets ∧
      Series tsFrom tsTo n (bucketSize tsFrom tsTo n)
        (db.rows.filter ((d.window tsFrom tsTo).Matches fts u ·)) buckets ∧
      panelCount fts db tc d tsFrom tsTo = some (buckets.map Prod.snd).sum := by
  obtain ⟨u, hu⟩ := uuidIn_of_isUUID (TenantContext.isUUID_of_valid hv)
  have hcount := panelCount_eq fts db hv hu d tsFrom tsTo
  by_cases hl : KnownLevel d.level
  · right
    have hpanel : Selects fts _ _ := selects_panel hu hl tsFrom tsTo
    obtain ⟨conds, hc, hsel⟩ := hpanel
    have hrows : panelRows fts db tc.tenantId d tsFrom tsTo =
        some (db.rows.filter ((d.window tsFrom tsTo).Matches fts u ·)) := by
      rw [panelRows, hc, Option.map_some, matching]
      congr 1
      apply List.filter_congr
      intro r _
      rw [Bool.eq_iff_iff, List.all_eq_true, hsel r, decide_eq_true_eq]
    have hwin : ∀ r ∈ db.rows.filter ((d.window tsFrom tsTo).Matches fts u ·),
        micros tsFrom ≤ r.ts ∧ r.ts < micros tsTo := by
      intro r hr
      obtain ⟨-, hfrom, hto, -⟩ := of_decide_eq_true (List.mem_filter.mp hr).2
      exact ⟨hfrom hzf, hto hzt⟩
    have hseries := series_bucketCounts hf ht (bucketSize_pos tsFrom tsTo n) (range_le_buckets hft hmax hn) (by omega)
      hwin
    refine ⟨u, _, hu, timeSeries_eq hv n hrows, hseries, ?_⟩
    rw [hcount, selected, if_pos (show KnownLevel (d.window tsFrom tsTo).level from hl), hseries.total,
      List.countP_eq_length_filter]
  · refine Or.inl ⟨hl, ?_, ?_⟩
    · have hd := (buildTimeSeriesQuery_isolates fts tc.tenantId d tsFrom tsTo (bucketSize tsFrom tsTo n)).denotes
      simp only [timeSeries, hv]
      rw [evalSql_unknown_level hd hl (levelClause_subset_panel ..)]
    · rw [hcount, selected, if_neg (show ¬ KnownLevel (d.window tsFrom tsTo).level from hl)]

/-- One event in a range of three seconds, of which two buckets are asked for. -/
theorem sample_series_covers :
    ∃ u buckets, uuidIn panelTenant.tenantId = some u ∧
      timeSeries (fun _ _ => true) (panelTable 1700000) panelTenant panelDef (ofMillis 0) (ofMillis 3000) 2 =
        some buckets ∧
      Series (ofMillis 0) (ofMillis 3000) 2 (bucketSize (ofMillis 0) (ofMillis 3000) 2)
        ((panelTable 1700000).rows.filter
          ((panelDef.window (ofMillis 0) (ofMillis 3000)).Matches (fun _ _ => true) u ·)) buckets ∧
      panelCount (fun _ _ => true) (panelTable 1700000) panelTenant panelDef (ofMillis 0) (ofMillis 3000) =
        some (buckets.map Prod.snd).sum := by
  have h := timeSeries_covers (fun _ _ => true) (panelTable 1700000) valid_panelTenant panelDef
    (show isZero (ofMillis 0) = false by decide) (show isZero (ofMillis 3000) = false by decide) (by decide)
    (by decide) (by decide) (by decide) (show (1 : Int) ≤ 2 by decide)
  exact h.resolve_left fun hn => hn.1 (by decide)

end Logalot
