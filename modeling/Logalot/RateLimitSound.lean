import Mathlib.Algebra.Order.Archimedean.Basic
import Mathlib.Tactic.FieldSimp
import Logalot.RateLimit
import Logalot.Lib.Bucket

/-!
# What the rate limiter admits

A reading that goes back refills nothing, but it becomes the time the next refill
counts from; and a bucket whose key has expired by the clock of Redis is full,
whatever is read.
-/

namespace Logalot

open Go TokenBucket

/-! ## One step -/

variable {lim : Limits}

theorem rate_pos (hl : ¬ lim.unlimited) : 0 < lim.rate := not_le.mp fun h => hl (.inl h)

theorem burst_pos (hl : ¬ lim.unlimited) : 0 < lim.burst := not_le.mp fun h => hl (.inr h)

theorem limited_of_pos (hr : 0 < lim.rate) (hb : 0 < lim.burst) : ¬ lim.unlimited := by
  rintro (h | h)
  · exact absurd hr (not_lt.mpr h)
  · exact absurd hb (not_lt.mpr h)

def inflow (rate : ℚ) (a b : ℤ) : ℚ := (if b - a < 0 then 0 else b - a : ℤ) / 1000 * rate

theorem inflow_eq (rate : ℚ) (a b : ℤ) : inflow rate a b = (max 0 (b - a) : ℤ) / 1000 * rate := by
  unfold inflow
  split
  · rw [max_eq_left (by omega)]
  · rw [max_eq_right (by omega)]

theorem inflow_nonneg {rate : ℚ} (hr : 0 ≤ rate) (a b : ℤ) : 0 ≤ inflow rate a b := by
  rw [inflow_eq]
  have : (0 : ℚ) ≤ (max 0 (b - a) : ℤ) := Int.cast_nonneg (le_max_left _ _)
  positivity

theorem take_admits {s : BucketState} {now : ℤ}
    (h : 1 ≤ fill lim.burst s.tokens (inflow lim.rate s.ts now)) :
    take s lim now 1 = (⟨fill lim.burst s.tokens (inflow lim.rate s.ts now) - 1, now⟩,
      { allowed := true, limit := lim.burst, remaining := fill lim.burst s.tokens (inflow lim.rate s.ts now) - 1 }) :=
  if_pos h

theorem take_denies {s : BucketState} {now : ℤ}
    (h : ¬ 1 ≤ fill lim.burst s.tokens (inflow lim.rate s.ts now)) :
    take s lim now 1 = (⟨fill lim.burst s.tokens (inflow lim.rate s.ts now), now⟩,
      { allowed := false
        retryAfter := if 0 < lim.rate then
          ⌈(1 - fill lim.burst s.tokens (inflow lim.rate s.ts now)) / lim.rate * 1000⌉ else 0
        limit := lim.burst
        remaining := fill lim.burst s.tokens (inflow lim.rate s.ts now) }) :=
  if_neg h

theorem take_one (s : BucketState) (lim : Limits) (now : ℤ) :
    (take s lim now 1).1 = ⟨drain (fill lim.burst s.tokens (inflow lim.rate s.ts now)), now⟩ ∧
      ((take s lim now 1).2.allowed = true ↔ 1 ≤ fill lim.burst s.tokens (inflow lim.rate s.ts now)) := by
  by_cases h : 1 ≤ fill lim.burst s.tokens (inflow lim.rate s.ts now)
  · rw [take_admits h, drain, if_pos h]
    exact ⟨rfl, fun _ => h, fun _ => rfl⟩
  · rw [take_denies h, drain, if_neg h]
    exact ⟨rfl, fun hf => (by cases hf), fun h' => absurd h' h⟩

theorem script_eq_take (lim : Limits) (now : ℤ) (n : ℚ) (h : Option BucketState) :
    tokenBucketScript lim.rate lim.burst now n h =
      (⟨(take (h.getD ⟨lim.burst, now⟩) lim now n).1, ⌈lim.burst / lim.rate * 1000⌉ + 1000⟩,
        ⟨if (take (h.getD ⟨lim.burst, now⟩) lim now n).2.allowed then 1 else 0,
          (take (h.getD ⟨lim.burst, now⟩) lim now n).2.retryAfter,
          ⌊(take (h.getD ⟨lim.burst, now⟩) lim now n).2.remaining⌋⟩) := by
  simp only [tokenBucketScript, take]
  generalize min lim.burst _ = tokens
  by_cases h : n ≤ tokens
  · simp only [if_pos h, if_true]
  · simp only [if_neg h, Bool.false_eq_true, if_false]

section Tenant

variable {resolve : TenantContext → Limits} {tc : TenantContext} {s : BucketState} {lim : Limits}

theorem bucketKey_of_valid (hv : tc.valid = none) : bucketKey tc = .ok (bucketKeyPrefix ++ tc.tenantId) := by
  simp only [bucketKey, hv]

theorem allow_limited (resolve : TenantContext → Limits) (hv : tc.valid = none) (hl : ¬ (resolve tc).unlimited)
    (db : Redis) (now : ℤ)
    (hs : s = ((db (bucketKeyPrefix ++ tc.tenantId)).map Bucket.state).getD ⟨(resolve tc).burst, now⟩) :
    allow resolve db tc now =
      (.ok { (take s (resolve tc) now 1).2 with remaining := ⌊(take s (resolve tc) now 1).2.remaining⌋ },
        fun k => if k = bucketKeyPrefix ++ tc.tenantId then
          some ⟨(take s (resolve tc) now 1).1, ⌈(resolve tc).burst / (resolve tc).rate * 1000⌉ + 1000⟩ else db k) := by
  unfold allow
  simp only [hv, hl, if_false, bucketKey_of_valid hv, script_eq_take, ← hs]
  by_cases h : 1 ≤ fill (resolve tc).burst s.tokens (inflow (resolve tc).rate s.ts now)
  · rw [take_admits h]
    rfl
  · rw [take_denies h]
    rfl

/-! ## One request after another -/

/-- What flows into the bucket between two requests. Of an expired key the bucket is full. -/
def gain (lim : Limits) (a b : Arrival) : ℚ :=
  if a.redisMs + (⌈lim.burst / lim.rate * 1000⌉ + 1000) < b.redisMs then lim.burst else inflow lim.rate a.nowMs b.nowMs

def gains (lim : Limits) : Arrival → List Arrival → List ℚ
  | _, [] => []
  | a, b :: as => gain lim a b :: gains lim b as

theorem gain_nonneg (hl : ¬ lim.unlimited) (a b : Arrival) : 0 ≤ gain lim a b := by
  unfold gain
  split
  · exact (burst_pos hl).le
  · exact inflow_nonneg (rate_pos hl).le _ _

theorem gain_self (hl : ¬ lim.unlimited) (a : Arrival) : gain lim a a = 0 := by
  have hfill : 0 < lim.burst / lim.rate * 1000 := by
    have := rate_pos hl
    have := burst_pos hl
    positivity
  have := Int.ceil_pos.mpr hfill
  rw [gain, if_neg (by omega)]
  simp [inflow]

theorem nonneg_of_mem (hl : ¬ lim.unlimited) (a : Arrival) (as : List Arrival) {x : ℚ}
    (h : x ∈ lim.burst :: gains lim a as) : 0 ≤ x := by
  induction as generalizing a with
  | nil =>
    rw [List.mem_singleton.mp h]
    exact (burst_pos hl).le
  | cons b as ih =>
    rcases List.mem_cons.mp h with rfl | h
    · exact (burst_pos hl).le
    rcases List.mem_cons.mp h with rfl | h
    · exact gain_nonneg hl a b
    · exact ih b (List.mem_cons_of_mem _ h)

theorem length_gains (lim : Limits) : ∀ (a : Arrival) (as : List Arrival), (gains lim a as).length = as.length
  | _, [] => rfl
  | _, b :: as => congrArg Nat.succ (length_gains lim b as)

theorem allow_admits (hv : tc.valid = none) (hl : ¬ (resolve tc).unlimited) (db : Redis) (now : ℤ)
    (hs : s = ((db (bucketKeyPrefix ++ tc.tenantId)).map Bucket.state).getD ⟨(resolve tc).burst, now⟩) {level : ℚ}
    (hlevel : fill (resolve tc).burst s.tokens (inflow (resolve tc).rate s.ts now) = level) :
    (isAdmitted (allow resolve db tc now).1 = true ↔ 1 ≤ level) ∧
      (allow resolve db tc now).2 (bucketKeyPrefix ++ tc.tenantId) =
        some ⟨⟨drain level, now⟩, ⌈(resolve tc).burst / (resolve tc).rate * 1000⌉ + 1000⟩ := by
  obtain ⟨h1, h2⟩ := take_one s (resolve tc) now
  rw [hlevel] at h1 h2
  rw [allow_limited resolve hv hl db now hs, ← h1]
  exact ⟨h2, if_pos rfl⟩

theorem allow_arrival (hv : tc.valid = none) (hl : ¬ (resolve tc).unlimited) {db : Redis} (since : ℤ)
    (hs : db (bucketKeyPrefix ++ tc.tenantId) = some ⟨s, ⌈(resolve tc).burst / (resolve tc).rate * 1000⌉ + 1000⟩)
    (ht : 0 ≤ s.tokens) (a : Arrival) {r : Except KernelError Decision × Redis}
    (hr : r = allow resolve (dropExpired (bucketKeyPrefix ++ tc.tenantId) since a.redisMs db) tc a.nowMs) :
    (isAdmitted r.1 = true ↔ 1 ≤ fill (resolve tc).burst s.tokens (gain (resolve tc) ⟨s.ts, since⟩ a)) ∧
      r.2 (bucketKeyPrefix ++ tc.tenantId) =
        some ⟨⟨drain (fill (resolve tc).burst s.tokens (gain (resolve tc) ⟨s.ts, since⟩ a)), a.nowMs⟩,
          ⌈(resolve tc).burst / (resolve tc).rate * 1000⌉ + 1000⟩ := by
  subst hr
  by_cases hgone : since + (⌈(resolve tc).burst / (resolve tc).rate * 1000⌉ + 1000) < a.redisMs
  · -- the bucket starts full, and would be full if it had been kept
    refine allow_admits hv hl _ a.nowMs (s := ⟨(resolve tc).burst, a.nowMs⟩) ?_ ?_
    · simp [dropExpired, hs, hgone]
    · rw [gain, if_pos hgone]
      simp [fill, inflow, ht]
  · refine allow_admits hv hl _ a.nowMs (s := s) ?_ ?_
    · simp [dropExpired, hs, hgone]
    · rw [gain, if_neg hgone]

theorem countP_allowAll (hv : tc.valid = none) (hl : ¬ (resolve tc).unlimited) :
    ∀ (as : List Arrival) (db : Redis) (since : ℤ) (s : BucketState),
      db (bucketKeyPrefix ++ tc.tenantId) = some ⟨s, ⌈(resolve tc).burst / (resolve tc).rate * 1000⌉ + 1000⟩ →
      0 ≤ s.tokens →
      (allowAll resolve tc db since as).countP isAdmitted =
        served (resolve tc).burst s.tokens (gains (resolve tc) ⟨s.ts, since⟩ as)
  | [], _, _, _, _, _ => rfl
  | a :: as, db, since, s, hs, ht => by
    obtain ⟨hadmitted, hnext⟩ := allow_arrival hv hl since hs ht a rfl
    have hlevel := fill_nonneg (burst_pos hl).le ht (gain_nonneg hl ⟨s.ts, since⟩ a)
    rw [allowAll, List.countP_cons, countP_allowAll hv hl as _ _ _ hnext (drain_nonneg hlevel), gains, served, add_comm]
    simp only [hadmitted]

/-- A bucket that is absent at first is one that was empty and has been filled. -/
theorem admitted_cons (hv : tc.valid = none) (hl : ¬ (resolve tc).unlimited) (a : Arrival) (as : List Arrival) :
    admitted resolve tc (a :: as) =
      served (resolve tc).burst 0 ((resolve tc).burst :: gains (resolve tc) a as) := by
  have hlevel := fill_nonneg (burst_pos hl).le le_rfl (burst_pos hl).le
  have hfull : fill (resolve tc).burst (resolve tc).burst (inflow (resolve tc).rate a.nowMs a.nowMs) =
      fill (resolve tc).burst 0 (resolve tc).burst := by
    simp [fill, inflow]
  obtain ⟨hadmitted, hnext⟩ := allow_admits hv hl
    (dropExpired (bucketKeyPrefix ++ tc.tenantId) 0 a.redisMs fun _ => none) a.nowMs
    (s := ⟨(resolve tc).burst, a.nowMs⟩) (by simp [dropExpired]) hfull
  rw [admitted, allowAll, List.countP_cons, countP_allowAll hv hl as _ _ _ hnext (drain_nonneg hlevel),
    served, add_comm]
  simp only [hadmitted]

end Tenant

/-! ## Many requests at once -/

theorem gains_replicate (hl : ¬ lim.unlimited) (a : Arrival) (as : List Arrival) : ∀ n : ℕ,
    gains lim a (List.replicate n a ++ as) = List.replicate n 0 ++ gains lim a as
  | 0 => rfl
  | n + 1 => by
    rw [List.replicate_succ, List.cons_append, gains, gains_replicate hl a as n, gain_self hl, List.replicate_succ,
      List.cons_append]

theorem gains_flatMap (hl : ¬ lim.unlimited) (n : ℕ) : ∀ (a : Arrival) (as : List Arrival),
    gains lim a (as.flatMap (List.replicate (n + 1))) = (gains lim a as).flatMap fun x => x :: List.replicate n 0
  | _, [] => rfl
  | a, b :: as => by
    rw [List.flatMap_cons, List.replicate_succ, List.cons_append, gains, gains_replicate hl, gains_flatMap hl n b as,
      gains, List.flatMap_cons, List.cons_append]

theorem admitted_flatMap {resolve : TenantContext → Limits} {tc : TenantContext} (hv : tc.valid = none)
    (hl : ¬ (resolve tc).unlimited) (n : ℕ) (a : Arrival) (as : List Arrival) :
    admitted resolve tc ((a :: as).flatMap (List.replicate (n + 1))) = served (resolve tc).burst 0
      (((resolve tc).burst :: gains (resolve tc) a as).flatMap fun x => x :: List.replicate n 0) := by
  rw [List.flatMap_cons, List.replicate_succ, List.cons_append, admitted_cons hv hl, gains_replicate hl,
    gains_flatMap hl, List.flatMap_cons, List.cons_append]

/-! ## Time refilled -/

theorem min_gain (hr : 0 < lim.rate) (a b : Arrival) :
    min lim.burst (gain lim a b) = lim.rate / 1000 * refill (lim.burst / lim.rate * 1000) a b := by
  have hfull : lim.rate / 1000 * (lim.burst / lim.rate * 1000) = lim.burst := by field_simp
  unfold gain refill
  by_cases hgone : a.redisMs + (⌈lim.burst / lim.rate * 1000⌉ + 1000) < b.redisMs
  · rw [if_pos hgone, if_pos hgone, min_self, hfull]
  · rw [if_neg hgone, if_neg hgone, mul_min_of_nonneg _ _ (by positivity), hfull, inflow_eq]
    congr 1
    ring

theorem sum_gains (hr : 0 < lim.rate) : ∀ (a : Arrival) (as : List Arrival),
    ((gains lim a as).map (min lim.burst)).sum = lim.rate / 1000 * refilled (lim.burst / lim.rate * 1000) (a :: as)
  | _, [] => by simp [gains, refilled]
  | a, b :: as => by
    rw [gains, List.map_cons, List.sum_cons, min_gain hr, sum_gains hr b as, refilled]
    ring

theorem sum_pulses (cap : ℚ) (hc : 0 ≤ cap) (n : ℕ) (xs : List ℚ) :
    ((xs.flatMap fun x => x :: List.replicate n 0).map (min cap)).sum = (xs.map (min cap)).sum := by
  induction xs with
  | nil => rfl
  | cons x xs ih => simp [ih, hc]

theorem sum_map_sub_one (cap : ℚ) (xs : List ℚ) :
    (xs.map fun x => min cap x - 1).sum = (xs.map (min cap)).sum - xs.length := by
  induction xs with
  | nil => simp
  | cons x xs ih =>
    rw [List.map_cons, List.sum_cons, ih, List.map_cons, List.sum_cons, List.length_cons]
    push_cast
    ring

/-! ## Main result -/

section Bounds

variable {resolve : TenantContext → Limits} {tc : TenantContext} (hv : tc.valid = none) (hl : ¬ (resolve tc).unlimited)
include hv hl

theorem admitted_le_refilled (n : ℕ) (as : List Arrival) :
    (admitted resolve tc (as.flatMap (List.replicate (n + 1))) : ℚ) ≤ (resolve tc).burst +
      (resolve tc).rate / 1000 * refilled ((resolve tc).burst / (resolve tc).rate * 1000) as := by
  have hb := burst_pos hl
  cases as with
  | nil => simpa [admitted, allowAll, refilled] using hb.le
  | cons a as =>
    have hpulses : ∀ x ∈ ((resolve tc).burst :: gains (resolve tc) a as).flatMap (fun x => x :: List.replicate n 0),
        0 ≤ x := by
      intro x hx
      obtain ⟨y, hy, hx⟩ := List.mem_flatMap.mp hx
      rcases List.mem_cons.mp hx with rfl | hx
      · exact nonneg_of_mem hl a as hy
      · exact (List.eq_of_mem_replicate hx).ge
    have h := served_le hb.le le_rfl hpulses
    rw [sum_pulses _ hb.le, List.map_cons, List.sum_cons, min_self, sum_gains (rate_pos hl), zero_add] at h
    rw [admitted_flatMap hv hl]
    exact h

theorem refilled_le_admitted {n : ℕ} (hn : (resolve tc).burst ≤ (n + 1 : ℕ)) (a : Arrival) (as : List Arrival) :
    (resolve tc).burst + (resolve tc).rate / 1000 * refilled ((resolve tc).burst / (resolve tc).rate * 1000) (a :: as) ≤
      admitted resolve tc ((a :: as).flatMap (List.replicate (n + 1))) + (a :: as).length := by
  have hb := burst_pos hl
  have h := le_served hb.le hn le_rfl fun x hx => nonneg_of_mem hl a as hx
  rw [sum_map_sub_one, List.map_cons, List.sum_cons, min_self, sum_gains (rate_pos hl), List.length_cons,
    length_gains] at h
  rw [admitted_flatMap hv hl, List.length_cons]
  linarith

end Bounds

/-- **Admitted requests.** For limits under which a bucket is full after `fillMs`, and one or more requests at each of
the times, the bound by the spread of the readings holds exactly if the bucket is refilled for no longer. -/
theorem admitted_le_iff {tc : TenantContext} (hv : tc.valid = none) {fillMs : ℚ} (hfill : 0 < fillMs)
    (as : List Arrival) :
    (∀ (resolve : TenantContext → Limits) (n : ℕ), 0 < (resolve tc).rate → 0 < (resolve tc).burst →
      (resolve tc).burst / (resolve tc).rate * 1000 = fillMs →
      (admitted resolve tc (as.flatMap (List.replicate (n + 1))) : ℚ) ≤
        (resolve tc).burst + (resolve tc).rate * spread as / 1000) ↔
    refilled fillMs as ≤ spread as := by
  constructor
  · intro h
    by_contra hlt
    have hgap : 0 < refilled fillMs as - spread as := sub_pos.mpr (not_le.mp hlt)
    cases as with
    | nil => exact hlt (by simp [refilled, spread])
    | cons a as =>
      -- with a burst this large, the time refilled beyond the spread is worth more than a request at each time
      obtain ⟨c, hc⟩ := exists_nat_gt ((a :: as).length * fillMs / (refilled fillMs (a :: as) - spread (a :: as)))
      have hc0 : (0 : ℚ) < c := lt_of_le_of_lt (by positivity) hc
      let resolve : TenantContext → Limits := fun _ => ⟨c * 1000 / fillMs, c⟩
      have hn : (resolve tc).burst ≤ (c + 1 : ℕ) := by
        change (c : ℚ) ≤ _
        push_cast
        linarith
      have hrate : 0 < (resolve tc).rate := by
        change 0 < (c * 1000 / fillMs : ℚ)
        positivity
      have hfillMs : (resolve tc).burst / (resolve tc).rate * 1000 = fillMs := by
        change (c / (c * 1000 / fillMs) * 1000 : ℚ) = fillMs
        field_simp
      have hmany := refilled_le_admitted hv (limited_of_pos hrate hc0) hn a as
      have hbound := h resolve c hrate hc0 hfillMs
      rw [hfillMs] at hmany
      rw [div_lt_iff₀ hgap] at hc
      have hworth : (c : ℚ) * (refilled fillMs (a :: as) - spread (a :: as)) / fillMs ≤ (a :: as).length := by
        have hsplit : (c : ℚ) * (refilled fillMs (a :: as) - spread (a :: as)) / fillMs =
            (resolve tc).rate / 1000 * refilled fillMs (a :: as) - (resolve tc).rate * spread (a :: as) / 1000 := by
          change _ = c * 1000 / fillMs / 1000 * refilled fillMs (a :: as) - c * 1000 / fillMs * spread (a :: as) / 1000
          field_simp
        linarith
      rw [div_le_iff₀ hfill] at hworth
      linarith
  · intro h resolve n hr hb hfillMs
    have hbound := admitted_le_refilled hv (limited_of_pos hr hb) n as
    have hm := mul_le_mul_of_nonneg_left h (by positivity : 0 ≤ (resolve tc).rate / 1000)
    rw [hfillMs] at hbound
    linarith

def limitedTenant : TenantContext := { tenantId := bs "11111111-1111-4111-8111-111111111111" }

/-- At one request a second: two replicas that differ by a second, and a reading that repeats after the key is gone. -/
def skewedArrivals : List Arrival := [⟨0, 0⟩, ⟨1000, 1000⟩, ⟨0, 1000⟩, ⟨1000, 2000⟩]

def expiredArrivals : List Arrival := [⟨0, 0⟩, ⟨0, 3000⟩, ⟨0, 6000⟩]

/-- Three requests are admitted where two, and where one, would keep to the bound. -/
theorem clocks_over_admit :
    limitedTenant.valid = none ∧
      ¬ ((admitted (fun _ => ⟨1, 1⟩) limitedTenant skewedArrivals : ℚ) ≤ 1 + 1 * spread skewedArrivals / 1000) ∧
      ¬ ((admitted (fun _ => ⟨1, 1⟩) limitedTenant expiredArrivals : ℚ) ≤ 1 + 1 * spread expiredArrivals / 1000) := by
  have hs : admitted (fun _ => ⟨1, 1⟩) limitedTenant skewedArrivals = 3 ∧ spread skewedArrivals = 1000 := by
    decide +kernel
  have he : admitted (fun _ => ⟨1, 1⟩) limitedTenant expiredArrivals = 3 ∧ spread expiredArrivals = 0 := by
    decide +kernel
  refine ⟨by decide, ?_, ?_⟩
  · rw [hs.1, hs.2]
    norm_num
  · rw [he.1, he.2]
    norm_num

/-- A reading that goes back, and a key that expires, are no harm where the readings have moved on by more. -/
def ampleArrivals : List Arrival := [⟨4000, 0⟩, ⟨0, 500⟩, ⟨1000, 1500⟩, ⟨4000, 5000⟩]

theorem ample_within_bound :
    refilled 1000 ampleArrivals = 2000 ∧ spread ampleArrivals = 4000 ∧
      (admitted (fun _ => ⟨3, 3⟩) limitedTenant (ampleArrivals.flatMap (List.replicate 5)) : ℚ) ≤
        3 + 3 * 4000 / 1000 := by
  have hs : spread ampleArrivals = 4000 := by decide
  have hr : refilled 1000 ampleArrivals = 2000 := by decide +kernel
  have hv : limitedTenant.valid = none := by decide
  have hle : refilled 1000 ampleArrivals ≤ spread ampleArrivals := by
    rw [hr, hs]
    norm_num
  have h := (admitted_le_iff hv (by norm_num) ampleArrivals).mpr hle (fun _ => ⟨3, 3⟩) 4 (by norm_num) (by norm_num)
    (by norm_num)
  exact ⟨hr, hs, h.trans (by rw [hs]; norm_num)⟩

end Logalot
