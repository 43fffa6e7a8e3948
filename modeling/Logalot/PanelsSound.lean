import Mathlib.Algebra.BigOperators.Group.List.Lemmas
import Logalot.BuildersSound
import Logalot.Panels

/-!
# Buckets of the server in slots of the web

The web counts a bucket in the slot its start falls into.
-/

namespace Logalot

open Go Pg

/-! ## The loops of the web -/

def countIn (a b : ℚ) (l : List (Int × Nat)) : Nat :=
  ((l.filter fun x => a ≤ (x.1 : ℚ) ∧ (x.1 : ℚ) < b).map Prod.snd).sum

variable {a b : ℚ} {l : List (Int × Nat)} {fromMs toMs n : Int}

theorem countIn_cons (x : Int × Nat) (l : List (Int × Nat)) :
    countIn a b (x :: l) = (if a ≤ (x.1 : ℚ) ∧ (x.1 : ℚ) < b then x.2 else 0) + countIn a b l := by
  unfold countIn
  rw [List.filter_cons]
  split <;> simp_all

theorem countIn_perm {l' : List (Int × Nat)} (h : l.Perm l') : countIn a b l = countIn a b l' :=
  ((h.filter _).map _).sum_eq

theorem countIn_eq_zero (h : ∀ x ∈ l, b ≤ (x.1 : ℚ)) : countIn a b l = 0 := by
  unfold countIn
  rw [List.filter_eq_nil_iff.mpr]
  · rfl
  · intro x hx
    simp [h x hx]

theorem countIn_filter {c : ℚ} (hc : c ≤ a) (l : List (Int × Nat)) :
    countIn a b (l.filter fun x => c ≤ (x.1 : ℚ)) = countIn a b l := by
  unfold countIn
  rw [List.filter_filter]
  congr 2
  apply List.filter_congr
  intro x _
  by_cases h : a ≤ (x.1 : ℚ) ∧ (x.1 : ℚ) < b
  · simp [h, hc.trans h.1]
  · simp [h]

theorem fillSlot_eq (hl : l.Pairwise fun x y => x.1 ≤ y.1) (count : Nat) :
    fillSlot a b count l = (count + countIn a b l, l.filter fun x => b ≤ (x.1 : ℚ)) := by
  induction l generalizing count with
  | nil => simp [fillSlot, countIn]
  | cons x l ih =>
    obtain ⟨hx, hl'⟩ := List.pairwise_cons.mp hl
    rw [fillSlot]
    by_cases hb : (x.1 : ℚ) < b
    · rw [if_pos hb, ih hl', countIn_cons, List.filter_cons_of_neg (by simpa using hb)]
      by_cases ha : a ≤ (x.1 : ℚ)
      · simp [ha, hb, Nat.add_assoc]
      · simp [ha]
    · -- the buckets are in order, so none that follows begins in the slot either
      have hge : ∀ y ∈ x :: l, b ≤ (y.1 : ℚ) := by
        intro y hy
        rcases List.mem_cons.mp hy with rfl | hy
        · exact not_lt.mp hb
        · exact (not_lt.mp hb).trans (by exact_mod_cast hx y hy)
      rw [if_neg hb, countIn_eq_zero hge, List.filter_eq_self.mpr fun y hy => by simpa using hge y hy]
      rfl

theorem fillSlots_eq {size : ℚ} (hs : 0 ≤ size) (k : Nat) :
    ∀ (i : Nat) {l : List (Int × Nat)}, l.Pairwise (fun x y => x.1 ≤ y.1) →
      fillSlots fromMs size i k l = (List.range k).map fun j =>
        ⟨some (truncate (fromMs + (i + j : Nat) * size)),
          countIn (fromMs + (i + j : Nat) * size) (fromMs + (i + j : Nat) * size + size) l⟩ := by
  induction k with
  | zero =>
    intro i l _
    rfl
  | succ k ih =>
    intro i l hl
    rw [fillSlots, fillSlot_eq hl, List.range_succ_eq_map, List.map_cons, List.map_map]
    simp only [Nat.zero_add, Nat.add_zero]
    congr 1
    rw [ih (i + 1) (hl.filter _)]
    apply List.map_congr_left
    intro j _
    have hj : i + 1 + j = i + (j + 1) := by omega
    have hle : (fromMs : ℚ) + i * size + size ≤ fromMs + (i + (j + 1) : Nat) * size := by
      have : (0 : ℚ) ≤ j * size := mul_nonneg (Nat.cast_nonneg j) hs
      push_cast
      linarith
    simp only [Function.comp, hj, Nat.succ_eq_add_one, countIn_filter hle]

def slotStart (fromMs toMs n : Int) (i : Nat) : ℚ := fromMs + i * ((toMs - fromMs : ℚ) / n)

theorem slotStart_succ (fromMs toMs n : Int) (i : Nat) :
    slotStart fromMs toMs n (i + 1) = slotStart fromMs toMs n i + (toMs - fromMs : ℚ) / n := by
  unfold slotStart
  push_cast
  ring

theorem gapFillBuckets_received (hft : fromMs < toMs) (hn : 1 ≤ n) (buckets : List (Int × Nat)) :
    gapFillBuckets (buckets.map .received) (some fromMs) (some toMs) n = (List.range n.toNat).map fun i =>
      ⟨some (truncate (slotStart fromMs toMs n i)),
        countIn (slotStart fromMs toMs n i) (slotStart fromMs toMs n (i + 1))
          (buckets.map fun b => (b.1 / 1000, b.2))⟩ := by
  have hsize : (0 : ℚ) ≤ (toMs - fromMs : ℚ) / n := by
    have hd : (fromMs : ℚ) ≤ toMs := by exact_mod_cast hft.le
    exact div_nonneg (sub_nonneg.mpr hd) (by exact_mod_cast (by omega : 0 ≤ n))
  have hread : (buckets.map PanelBucket.received).filterMap (fun b => b.bucketStart.map fun ms => (ms, b.count)) =
      buckets.map fun b => (b.1 / 1000, b.2) := by
    rw [List.filterMap_map]
    exact congrFun List.filterMap_eq_map' buckets
  rw [gapFillBuckets, if_neg (by omega)]
  simp only [hread]
  rw [if_neg (by omega), fillSlots_eq hsize n.toNat 0 (List.pairwise_insertionSort _ _)]
  apply List.map_congr_left
  intro i _
  rw [Nat.zero_add, countIn_perm (List.perm_insertionSort _ _), slotStart_succ]
  rfl

theorem countIn_bucketCounts (a b : ℚ) (starts : List Int) :
    countIn a b ((bucketCounts starts).map fun x => (x.1 / 1000, x.2)) =
      starts.countP fun s => a ≤ ((s / 1000 : Int) : ℚ) ∧ ((s / 1000 : Int) : ℚ) < b := by
  rw [← List.sum_map_count_dedup_filter_eq_countP]
  unfold countIn bucketCounts
  rw [List.map_map, List.filter_map, List.map_map]
  exact (((List.perm_insertionSort _ _).filter _).map _).sum_eq

/-! ## Slots -/

def InSlot (fromMs toMs n : Int) (i : Nat) (ms : ℚ) : Prop :=
  slotStart fromMs toMs n i ≤ ms ∧ ms < slotStart fromMs toMs n (i + 1)

instance (fromMs toMs n : Int) (i : Nat) : DecidablePred (InSlot fromMs toMs n i) :=
  fun _ => inferInstanceAs (Decidable (_ ∧ _))

theorem slotStart_le_iff (hn : 1 ≤ n) (i : Nat) (x : Int) :
    slotStart fromMs toMs n i ≤ (x : ℚ) / 1000 ↔ i * (1000 * (toMs - fromMs)) ≤ n * (x - 1000 * fromMs) := by
  have hn' : (0 : ℚ) < n := by exact_mod_cast hn
  have hl : 1000 * (n : ℚ) * slotStart fromMs toMs n i = 1000 * n * fromMs + i * (1000 * (toMs - fromMs)) := by
    unfold slotStart
    field_simp
  have hr : 1000 * (n : ℚ) * ((x : ℚ) / 1000) = 1000 * n * fromMs + n * (x - 1000 * fromMs) := by
    field_simp
    ring
  rw [← mul_le_mul_iff_right₀ (by positivity : (0 : ℚ) < 1000 * n), hl, hr, add_le_add_iff_left]
  exact_mod_cast Iff.rfl

theorem inSlot_iff (hn : 1 ≤ n) (i : Nat) (x : Int) :
    InSlot fromMs toMs n i ((x : ℚ) / 1000) ↔
      i * (1000 * (toMs - fromMs)) ≤ n * (x - 1000 * fromMs) ∧
      ¬ ((i + 1 : Nat) : Int) * (1000 * (toMs - fromMs)) ≤ n * (x - 1000 * fromMs) := by
  rw [InSlot, ← slotStart_le_iff hn, ← slotStart_le_iff hn, not_le]

/-! ## Buckets in slots -/

theorem bucketSize_pos (tsFrom tsTo : Time) (n : Int) : 1 ≤ bucketSize tsFrom tsTo n := by
  unfold bucketSize
  simp only
  split
  · omega
  · exact le_max_left ..

def ofMillis (ms : Int) : Time := ms * 1000000

theorem micros_ofMillis (ms : Int) : micros (ofMillis ms) = 1000 * ms := by
  unfold micros ofMillis
  omega

/-- There is one slot, or every slot is a whole number of buckets. -/
def Aligned (fromMs toMs n : Int) : Prop :=
  n = 1 ∨ n * (1000 * bucketSize (ofMillis fromMs) (ofMillis toMs) n) ∣ toMs - fromMs

theorem le_start_iff {w x c : Int} (hw : 0 < w) (hc : w ∣ c) : c ≤ x / w * w ↔ c ≤ x := by
  obtain ⟨k, rfl⟩ := hc
  rw [Int.mul_comm w k, Int.mul_le_mul_right hw, Int.le_ediv_iff_mul_le hw]

section Slot

variable {fromMs toMs n : Int} {width : Int} (hw : 1 ≤ width) {r : Row}
include hw

variable (fromMs r) in
theorem bucketStart_sub : bucketStart (1000 * fromMs) width r - 1000 * fromMs =
    (r.ts - 1000 * fromMs) / (width * 1000000) * (width * 1000000) := by
  unfold bucketStart
  rw [Int.fdiv_eq_ediv_of_nonneg _ (by omega)]
  omega

theorem bucketStart_millis : ((bucketStart (1000 * fromMs) width r / 1000 : Int) : ℚ) =
    (bucketStart (1000 * fromMs) width r : ℚ) / 1000 := by
  obtain ⟨k, hk⟩ : (1000 : Int) ∣ bucketStart (1000 * fromMs) width r := by
    refine ⟨fromMs + (r.ts - 1000 * fromMs) / (width * 1000000) * (width * 1000), ?_⟩
    have h := bucketStart_sub fromMs hw r
    linarith
  rw [hk, Int.mul_ediv_cancel_left k (by decide)]
  push_cast
  ring

theorem slotStart_bucketStart (hn : 1 ≤ n) (hd : n * (1000 * width) ∣ toMs - fromMs) (j : Int) :
    j * (1000 * (toMs - fromMs)) ≤ n * (bucketStart (1000 * fromMs) width r - 1000 * fromMs) ↔
      j * (1000 * (toMs - fromMs)) ≤ n * (r.ts - 1000 * fromMs) := by
  obtain ⟨m, hm⟩ := hd
  have hj : j * (1000 * (toMs - fromMs)) = n * (width * 1000000 * (j * m)) := by
    rw [hm]
    ring
  rw [hj, Int.mul_le_mul_left (by omega), Int.mul_le_mul_left (by omega), bucketStart_sub fromMs hw r]
  exact le_start_iff (by omega) (Int.dvd_mul_right ..)

theorem inSlot_bucketStart (hn : 1 ≤ n) (ha : n = 1 ∨ n * (1000 * width) ∣ toMs - fromMs)
    (hfrom : 1000 * fromMs ≤ r.ts) (hto : r.ts < 1000 * toMs) {i : Nat} (hi : i < n.toNat) :
    InSlot fromMs toMs n i ((bucketStart (1000 * fromMs) width r / 1000 : Int) : ℚ) ↔
      InSlot fromMs toMs n i ((r.ts : ℚ) / 1000) := by
  rw [bucketStart_millis hw, inSlot_iff hn, inSlot_iff hn]
  rcases ha with rfl | hd
  · -- the only slot has the event and the start of its bucket
    obtain rfl : i = 0 := by omega
    have hb := bucketStart_sub fromMs hw r
    have hq : 0 ≤ (r.ts - 1000 * fromMs) / (width * 1000000) := Int.ediv_nonneg (by omega) (by omega)
    have hq' : 0 ≤ (r.ts - 1000 * fromMs) / (width * 1000000) * (width * 1000000) := Int.mul_nonneg hq (by omega)
    have hle : (r.ts - 1000 * fromMs) / (width * 1000000) * (width * 1000000) ≤ r.ts - 1000 * fromMs :=
      Int.ediv_mul_le _ (by omega)
    omega
  · rw [slotStart_bucketStart hw hn hd, slotStart_bucketStart hw hn hd]

end Slot

/-! ## Main result -/

def panelRows (fts : Fts) (db : LogTable) (tenantID : Bytes) (d : SavedQueryDef) (tsFrom tsTo : Time) :
    Option (List Row) :=
  ((panelClauses tenantID d tsFrom tsTo).mapM Clause.cond).map fun conds => matching fts conds db.rows

theorem timeSeries_eq {fts : Fts} {db : LogTable} {tc : TenantContext} (hv : tc.valid = none) {d : SavedQueryDef}
    {tsFrom tsTo : Time} (n : Int) {rows : List Row} (hr : panelRows fts db tc.tenantId d tsFrom tsTo = some rows) :
    timeSeries fts db tc d tsFrom tsTo n =
      some (bucketCounts (rows.map (bucketStart (micros tsFrom) (bucketSize tsFrom tsTo n)))) := by
  obtain ⟨conds, hc, rfl⟩ := Option.map_eq_some_iff.mp hr
  have hw := bucketSize_pos tsFrom tsTo n
  have hd := (buildTimeSeriesQuery_isolates fts tc.tenantId d tsFrom tsTo (bucketSize tsFrom tsTo n)).denotes
  have hq : (timeSeriesStmt tc.tenantId d tsFrom tsTo (bucketSize tsFrom tsTo n)).query =
      some ⟨.buckets (micros tsFrom) (bucketSize tsFrom tsTo n), conds⟩ := by
    simp only [Stmt.query, timeSeriesStmt, queryKind, hc]
  simp only [timeSeries, hv, evalSql, readQuery_of_denotes hd, hq, Option.bind_some, Query.run]
  rw [if_neg (fun h => absurd h.1 (by omega))]

/-- The series that a panel is to show: the events of each slot. -/
def exactSlots (fromMs toMs n : Int) (rows : List Row) : List PanelBucket :=
  (List.range n.toNat).map fun i =>
    ⟨some (truncate (slotStart fromMs toMs n i)), rows.countP fun r => InSlot fromMs toMs n i ((r.ts : ℚ) / 1000)⟩

theorem gapFill_of_aligned (fts : Fts) (db : LogTable) {tc : TenantContext} (hv : tc.valid = none) (d : SavedQueryDef)
    (hft : fromMs < toMs) (hn : 1 ≤ n) (ha : Aligned fromMs toMs n) {rows : List Row}
    (hr : panelRows fts db tc.tenantId d (ofMillis fromMs) (ofMillis toMs) = some rows)
    (hw : ∀ r ∈ rows, 1000 * fromMs ≤ r.ts ∧ r.ts < 1000 * toMs) :
    ∃ buckets, timeSeries fts db tc d (ofMillis fromMs) (ofMillis toMs) n = some buckets ∧
      gapFillBuckets (buckets.map .received) (some fromMs) (some toMs) n = exactSlots fromMs toMs n rows := by
  refine ⟨_, timeSeries_eq hv n hr, ?_⟩
  rw [gapFillBuckets_received hft hn]
  apply List.map_congr_left
  intro i hi
  rw [countIn_bucketCounts, List.countP_map, micros_ofMillis]
  congr 1
  apply List.countP_congr
  intro r hrm
  have hs := inSlot_bucketStart (bucketSize_pos (ofMillis fromMs) (ofMillis toMs) n) hn ha (hw r hrm).1 (hw r hrm).2
    (List.mem_range.mp hi)
  simp only [Function.comp, decide_eq_true_eq]
  exact hs

/-! ## Ranges of whole seconds -/

theorem aligned_iff_dvd (hft : fromMs < toMs) (hn : 1 ≤ n)
    (hmax : (toMs - fromMs) * 1000000 < 2 ^ 63) : Aligned fromMs toMs n ↔ n = 1 ∨ n * 1000 ∣ toMs - fromMs := by
  apply or_congr_right
  constructor
  · intro h
    exact Int.dvd_trans ⟨bucketSize (ofMillis fromMs) (ofMillis toMs) n, by ring⟩ h
  · rintro ⟨m, hm⟩
    have hm0 : 0 < m := by
      have : 0 < n * 1000 * m := by omega
      exact pos_of_mul_pos_right this (by omega)
    have hsub : timeSub (ofMillis toMs) (ofMillis fromMs) = 1000000000 * n * m := by
      unfold timeSub ofMillis
      rw [min_eq_right (by omega), max_eq_right (by omega)]
      linarith
    have hsize : bucketSize (ofMillis fromMs) (ofMillis toMs) n = m := by
      unfold bucketSize
      have hpos : 0 < 1000000000 * n * m := Int.mul_pos (by omega) hm0
      simp only [hsub, if_neg (by omega : ¬ n ≤ 0), if_neg (not_le.mpr hpos), ← Int.mul_neg]
      rw [Int.mul_ediv_cancel_left _ (by omega), Int.neg_neg, max_eq_right (by omega)]
    rw [hsize, hm]
    exact ⟨1, by ring⟩

theorem exists_misplaced {range width : Int} (hr : 0 < range) (hn : 2 ≤ n) (hn' : n ≤ 100) (hw : 1 ≤ width)
    (hd : ¬ n * (1000 * width) ∣ range) :
    ∃ x, 0 ≤ x ∧ x < 1000 * range ∧ 1000 * range ≤ n * x ∧
      n * (x / (width * 1000000) * (width * 1000000)) < 1000 * range := by
  have hnw : 0 < n * (width * 1000000) := Int.mul_pos (by omega) (by omega)
  -- the end of the slot lies inside bucket `q`, and its distance to the end of the bucket is a multiple of a
  -- millisecond
  obtain ⟨q, hq⟩ : ∃ q, q = 1000 * range / (n * (width * 1000000)) := ⟨_, rfl⟩
  have hq1 : q * (n * (width * 1000000)) ≤ 1000 * range := hq ▸ Int.ediv_mul_le _ hnw.ne'
  have hq2 : 1000 * range < (q + 1) * (n * (width * 1000000)) := hq ▸ Int.lt_ediv_add_one_mul_self _ hnw
  have hne : q * (n * (width * 1000000)) ≠ 1000 * range := fun h => hd ⟨q, by linarith⟩
  have hgap : range + 1 ≤ (q + 1) * (n * (width * 1000)) := by
    have : 1000 * range < 1000 * ((q + 1) * (n * (width * 1000))) := by linarith
    omega
  -- the first microsecond at or after the end of the slot
  obtain ⟨x, hx⟩ : ∃ x, x = -(-(1000 * range) / n) := ⟨_, rfl⟩
  have hx1 : 1000 * range ≤ n * x := by
    have := Int.mul_ediv_self_le (x := -(1000 * range)) (k := n) (by omega)
    rw [hx]
    linarith
  have hx2 : n * x < 1000 * range + n := by
    have := Int.lt_mul_ediv_self_add (x := -(1000 * range)) (k := n) (by omega)
    rw [hx]
    linarith
  have hx3 : q * (width * 1000000) ≤ x := by
    apply le_of_mul_le_mul_left _ (by omega : 0 < n)
    linarith
  have hx4 : x < (q + 1) * (width * 1000000) := by
    apply lt_of_mul_lt_mul_left _ (by omega : 0 ≤ n)
    linarith
  have hdiv : x / (width * 1000000) = q := by
    apply le_antisymm
    · exact Int.lt_add_one_iff.mp ((Int.ediv_lt_iff_lt_mul (by omega)).mpr hx4)
    · exact (Int.le_ediv_iff_mul_le (by omega)).mpr hx3
  have hx0 : 0 < x := pos_of_mul_pos_right (by omega : 0 < n * x) (by omega)
  refine ⟨x, hx0.le, ?_, hx1, ?_⟩
  · have : 2 * (x - 1) ≤ n * (x - 1) := Int.mul_le_mul_of_nonneg_right hn (by omega)
    linarith
  · rw [hdiv]
    have := lt_of_le_of_ne hq1 hne
    linarith

/-- Without alignment some event is counted in the first slot that does not belong there. -/
theorem misplaced_of_not_aligned (hft : fromMs < toMs) (hn : 1 ≤ n) (hn' : n ≤ 100)
    (ha : ¬ Aligned fromMs toMs n) :
    ∃ ts, 1000 * fromMs ≤ ts ∧ ts < 1000 * toMs ∧ ∀ r : Row, r.ts = ts →
      InSlot fromMs toMs n 0
        ((bucketStart (1000 * fromMs) (bucketSize (ofMillis fromMs) (ofMillis toMs) n) r / 1000 : Int) : ℚ) ∧
      ¬ InSlot fromMs toMs n 0 ((r.ts : ℚ) / 1000) := by
  obtain ⟨hn1, hd⟩ := not_or.mp ha
  have hw := bucketSize_pos (ofMillis fromMs) (ofMillis toMs) n
  obtain ⟨x, hx0, hx, hafter, hbefore⟩ := exists_misplaced (by omega) (by omega) hn' hw hd
  refine ⟨1000 * fromMs + x, by omega, by omega, ?_⟩
  intro r hr
  have hsub : r.ts - 1000 * fromMs = x := by omega
  rw [bucketStart_millis hw, inSlot_iff hn, inSlot_iff hn, bucketStart_sub fromMs hw r, hsub]
  have hnonneg : 0 ≤ x / (bucketSize (ofMillis fromMs) (ofMillis toMs) n * 1000000) *
      (bucketSize (ofMillis fromMs) (ofMillis toMs) n * 1000000) :=
    Int.mul_nonneg (Int.ediv_nonneg hx0 (by omega)) (by omega)
  constructor
  · refine ⟨?_, by simpa using hbefore⟩
    simpa using Int.mul_nonneg (by omega : 0 ≤ n) hnonneg
  · rintro ⟨-, h⟩
    exact h (by simpa using hafter)

/-! ## A panel with one event -/

def panelTenant : TenantContext := { tenantId := uuidOut (.rep 17) }

def panelDef : SavedQueryDef := { queryText := [], service := [], level := none, labels := [] }

def panelRow (ts : Int) : Row := ⟨.rep 17, ts, .rep 0, [], .info, [], [], none, none, []⟩

def panelTable (ts : Int) : LogTable := ⟨[panelRow ts], List.nodup_singleton _⟩

theorem valid_panelTenant : panelTenant.valid = none := by decide

theorem panelRows_panelTable {ts : Int} (h : 1000 * fromMs ≤ ts ∧ ts < 1000 * toMs) :
    panelRows (fun _ _ => true) (panelTable ts) panelTenant.tenantId panelDef (ofMillis fromMs) (ofMillis toMs) =
      some [panelRow ts] := by
  have hfilters : filterClauses panelDef = [] := by decide
  unfold panelRows panelClauses fromClause toClause
  rw [hfilters]
  by_cases hf : isZero (ofMillis fromMs) = true <;> by_cases ht : isZero (ofMillis toMs) = true <;>
    simp [hf, ht, Clause.cond, panelTenant, uuidIn_uuidOut, matching, panelTable, Cond.holds, panelRow,
      micros_ofMillis, h.1, h.2]

/-- **Panels.** The events of a range, counted by the server and filled in by the web, are in their slots for every
set of events just if the range is aligned. -/
theorem gapFill_timeSeries_iff (hft : fromMs < toMs) (hn : 1 ≤ n) (hn' : n ≤ 100) :
    (∀ fts db (tc : TenantContext) d rows, tc.valid = none →
      panelRows fts db tc.tenantId d (ofMillis fromMs) (ofMillis toMs) = some rows →
      (∀ r ∈ rows, 1000 * fromMs ≤ r.ts ∧ r.ts < 1000 * toMs) →
      ∃ buckets, timeSeries fts db tc d (ofMillis fromMs) (ofMillis toMs) n = some buckets ∧
        gapFillBuckets (buckets.map .received) (some fromMs) (some toMs) n = exactSlots fromMs toMs n rows) ↔
      Aligned fromMs toMs n := by
  constructor
  · intro hall
    by_contra ha
    obtain ⟨ts, h1, h2, hts⟩ := misplaced_of_not_aligned hft hn hn' ha
    obtain ⟨hin, hout⟩ := hts (panelRow ts) rfl
    have hr := panelRows_panelTable ⟨h1, h2⟩
    obtain ⟨buckets, hb, hfill⟩ := hall _ _ _ _ _ valid_panelTenant hr fun r hm => by
      rw [List.mem_singleton.mp hm]
      exact ⟨h1, h2⟩
    rw [timeSeries_eq valid_panelTenant n hr, Option.some.injEq, micros_ofMillis] at hb
    rw [← hb, gapFillBuckets_received hft hn, exactSlots, List.map_inj_left] at hfill
    -- the first slot has the event, to which it does not belong
    have hslot := congrArg PanelBucket.count (hfill 0 (List.mem_range.mpr (by omega)))
    dsimp only at hslot
    rw [countIn_bucketCounts, List.map_singleton, List.countP_singleton, List.countP_singleton,
      if_pos (by exact decide_eq_true hin), if_neg (by simpa using hout)] at hslot
    cases hslot
  · intro ha fts db tc d rows hv hr hw
    exact gapFill_of_aligned fts db hv d hft hn ha hr hw

/-- Two slots of a second and a half: the server has buckets of two seconds. -/
theorem event_in_wrong_slot :
    panelRows (fun _ _ => true) (panelTable 1700000) panelTenant.tenantId panelDef (ofMillis 0) (ofMillis 3000) =
      some [panelRow 1700000] ∧
    ∃ buckets, timeSeries (fun _ _ => true) (panelTable 1700000) panelTenant panelDef (ofMillis 0) (ofMillis 3000) 2 =
        some buckets ∧
      (gapFillBuckets (buckets.map .received) (some 0) (some 3000) 2).map PanelBucket.count = [1, 0] ∧
      (exactSlots 0 3000 2 [panelRow 1700000]).map PanelBucket.count = [0, 1] := by
  have hr := panelRows_panelTable (show 1000 * (0 : Int) ≤ 1700000 ∧ (1700000 : Int) < 1000 * 3000 by decide)
  refine ⟨hr, _, timeSeries_eq valid_panelTenant 2 hr, ?_⟩
  decide +kernel

theorem event_in_its_slot :
    ∃ buckets, timeSeries (fun _ _ => true) (panelTable 1700000) panelTenant panelDef (ofMillis 0) (ofMillis 2000) 2 =
        some buckets ∧
      (gapFillBuckets (buckets.map .received) (some 0) (some 2000) 2).map PanelBucket.count = [0, 1] := by
  have ha : Aligned 0 2000 2 := (aligned_iff_dvd (by decide) (by decide) (by decide)).mpr (Or.inr (by decide))
  have hr := panelRows_panelTable (show 1000 * (0 : Int) ≤ 1700000 ∧ (1700000 : Int) < 1000 * 2000 by decide)
  obtain ⟨buckets, hb, hfill⟩ := (gapFill_timeSeries_iff (by decide) (by decide) (by decide)).mpr ha _ _ _ _ _
    valid_panelTenant hr (by decide)
  refine ⟨buckets, hb, ?_⟩
  rw [hfill]
  decide +kernel

end Logalot
