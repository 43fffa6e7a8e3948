import Logalot.Limiters
import Logalot.RateLimitSound

/-!
# What the two limiters agree on

An expired key and a bucket refilled to its burst answer alike, and a request reads
and writes the bucket of its tenant only.
-/

namespace Logalot

open Go TokenBucket Keyed

/-! ## One call -/

section Allow

variable {resolve : TenantContext → Limits} {tc : TenantContext}

theorem take_congr {s s' : BucketState} {lim : Limits} {now : ℤ}
    (h : fill lim.burst s.tokens (inflow lim.rate s.ts now) = fill lim.burst s'.tokens (inflow lim.rate s'.ts now)) :
    take s lim now 1 = take s' lim now 1 := by
  by_cases h1 : 1 ≤ fill lim.burst s.tokens (inflow lim.rate s.ts now)
  · rw [take_admits h1, take_admits (h ▸ h1), h]
  · rw [take_denies h1, take_denies (h ▸ h1), h]

theorem call_cases (resolve : TenantContext → Limits) (tc : TenantContext) :
    (∃ e, tc.valid = some e) ∨ (tc.valid = none ∧ (resolve tc).unlimited) ∨
      (tc.valid = none ∧ ¬ (resolve tc).unlimited) := by
  cases hv : tc.valid with
  | some e => exact .inl ⟨e, rfl⟩
  | none =>
    by_cases hl : (resolve tc).unlimited
    · exact .inr (.inl ⟨rfl, hl⟩)
    · exact .inr (.inr ⟨rfl, hl⟩)

theorem allow_invalid {e : KernelError} (hv : tc.valid = some e) (db : Redis) (now : ℤ) :
    allow resolve db tc now = (.error e, db) := by
  unfold allow
  simp only [hv]

theorem allow_unlimited (resolve : TenantContext → Limits) (hv : tc.valid = none) (hl : (resolve tc).unlimited)
    (db : Redis) (now : ℤ) : allow resolve db tc now = (.ok { allowed := true }, db) := by
  unfold allow
  simp only [hv, hl, if_true]

theorem memoryAllow_invalid {e : KernelError} (hv : tc.valid = some e) (m : MemoryBuckets) (now : ℤ) :
    memoryAllow resolve m tc now = (.error e, m) := by
  unfold memoryAllow
  simp only [hv]

theorem memoryAllow_unlimited (resolve : TenantContext → Limits) (hv : tc.valid = none) (hl : (resolve tc).unlimited)
    (m : MemoryBuckets) (now : ℤ) : memoryAllow resolve m tc now = (.ok { allowed := true }, m) := by
  unfold memoryAllow
  simp only [hv, hl, if_true]

theorem memoryAllow_limited (resolve : TenantContext → Limits) (hv : tc.valid = none) (hl : ¬ (resolve tc).unlimited)
    (m : MemoryBuckets) (now : ℤ)
    {s : BucketState} (hs : s = (m (bucketKeyPrefix ++ tc.tenantId)).getD ⟨(resolve tc).burst, now⟩) :
    memoryAllow resolve m tc now =
      (.ok (take s (resolve tc) now 1).2,
        fun k => if k = bucketKeyPrefix ++ tc.tenantId then some (take s (resolve tc) now 1).1 else m k) := by
  subst hs
  unfold memoryAllow
  simp only [hv, hl, if_false, bucketKey_of_valid hv]

end Allow

/-! ## Tenants do not meet -/

theorem memoryStep_local (resolve : TenantContext → Limits) : Local LimiterEvent.key (memoryStep resolve) := by
  refine .of_update fun e => ?_
  cases e with
  | expire id moment => exact ⟨fun b => (none, b), fun m => by simp [memoryStep]⟩
  | request tc now =>
    rcases call_cases resolve tc with ⟨err, hv⟩ | ⟨hv, hl⟩ | ⟨hv, hl⟩
    · exact ⟨fun b => (some (.error err), b), fun m => by simp [memoryStep, memoryAllow_invalid hv]⟩
    · exact ⟨fun b => (some (.ok { allowed := true }), b),
        fun m => by simp [memoryStep, memoryAllow_unlimited resolve hv hl]⟩
    · refine ⟨fun b => (some (.ok (take (b.getD ⟨(resolve tc).burst, now⟩) (resolve tc) now 1).2),
        some (take (b.getD ⟨(resolve tc).burst, now⟩) (resolve tc) now 1).1), fun m => ?_⟩
      rw [memoryStep, memoryAllow_limited resolve hv hl m now rfl]
      exact congrArg _ (funext fun k => (Function.update_apply m _ _ k).symm)

theorem redisStep_local (resolve : TenantContext → Limits) : Local LimiterEvent.key (redisStep resolve) := by
  refine .of_update fun e => ?_
  cases e with
  | expire id moment =>
    exact ⟨fun _ => (none, none), fun db => congrArg _ (funext fun k => (Function.update_apply db _ _ k).symm)⟩
  | request tc now =>
    rcases call_cases resolve tc with ⟨err, hv⟩ | ⟨hv, hl⟩ | ⟨hv, hl⟩
    · exact ⟨fun b => (some (.error err), b), fun db => by simp [redisStep, allow_invalid hv]⟩
    · exact ⟨fun b => (some (.ok { allowed := true }), b), fun db => by simp [redisStep, allow_unlimited resolve hv hl]⟩
    · refine ⟨fun b =>
        let t := take ((b.map Bucket.state).getD ⟨(resolve tc).burst, now⟩) (resolve tc) now 1
        (some (.ok { t.2 with remaining := ⌊t.2.remaining⌋ }),
          some ⟨t.1, ⌈(resolve tc).burst / (resolve tc).rate * 1000⌉ + 1000⟩), fun db => ?_⟩
      rw [redisStep, allow_limited resolve hv hl db now rfl]
      exact congrArg _ (funext fun k => (Function.update_apply db _ _ k).symm)

theorem key_eq_iff {e : LimiterEvent} {id : Bytes} : e.key = bucketKeyPrefix ++ id ↔ e.tenant = id :=
  List.append_right_inj _

/-- **Tenants are independent.** Of two sequences that differ in events of the tenant `a` only, another
tenant gets the same decisions. -/
theorem answers_independent (resolve : TenantContext → Limits) (m : MemoryBuckets) (db : Redis) {a b : Bytes}
    (hab : a ≠ b) {es es' : List LimiterEvent}
    (he : es.filter (fun e => e.tenant ≠ a) = es'.filter (fun e => e.tenant ≠ a)) :
    (answers (memoryStep resolve) m es).filter (fun p => p.1.tenant = b) =
        (answers (memoryStep resolve) m es').filter (fun p => p.1.tenant = b) ∧
      (answers (redisStep resolve) db es).filter (fun p => p.1.tenant = b) =
        (answers (redisStep resolve) db es').filter (fun p => p.1.tenant = b) := by
  have hk : bucketKeyPrefix ++ a ≠ bucketKeyPrefix ++ b := fun h => hab (List.append_cancel_left h)
  have he' : es.filter (fun e => e.key ≠ bucketKeyPrefix ++ a) =
      es'.filter (fun e => e.key ≠ bucketKeyPrefix ++ a) := by
    simpa only [ne_eq, key_eq_iff] using he
  have hm := answers_of_other (memoryStep_local resolve) hk m he'
  have hr := answers_of_other (redisStep_local resolve) hk db he'
  simp only [key_eq_iff] at hm hr
  exact ⟨hm, hr⟩

def neighbourTenant : TenantContext := { tenantId := bs "22222222-2222-4222-8222-222222222222" }

theorem neighbour_exhausted :
    (answers (memoryStep fun _ => ⟨1, 1⟩) (fun _ => none)
        [.request neighbourTenant 0, .request neighbourTenant 0, .request limitedTenant 0]).filter
        (fun p => p.1.tenant = limitedTenant.tenantId) =
      (answers (memoryStep fun _ => ⟨1, 1⟩) (fun _ => none) [.request limitedTenant 0]).filter
        (fun p => p.1.tenant = limitedTenant.tenantId) ∧
    (answers (redisStep fun _ => ⟨1, 1⟩) (fun _ => none)
        [.request neighbourTenant 0, .request neighbourTenant 0, .request limitedTenant 0]).filter
        (fun p => p.1.tenant = limitedTenant.tenantId) =
      (answers (redisStep fun _ => ⟨1, 1⟩) (fun _ => none) [.request limitedTenant 0]).filter
        (fun p => p.1.tenant = limitedTenant.tenantId) :=
  answers_independent (fun _ => ⟨1, 1⟩) (fun _ => none) (fun _ => none)
    (a := neighbourTenant.tenantId) (by decide) rfl

/-! ## An expired key is a full bucket -/

/-- What Redis has of a tenant beside what memory has, from the moment `m` on. A key that is gone stands
for a bucket that has had the time to fill. -/
def Tied (lim : Limits) (m : ℚ) : Option Bucket → Option BucketState → Prop
  | none, none => True
  | some b, some s => b.state = s ∧ 0 ≤ s.tokens ∧ b.ttl = ⌈lim.burst / lim.rate * 1000⌉ + 1000
  | none, some s => 0 ≤ s.tokens ∧ s.ts + (⌈lim.burst / lim.rate * 1000⌉ + 1000) ≤ m
  | some _, none => False

variable {lim : Limits} {s : BucketState} {now : ℤ}

theorem Tied.mono {m m' : ℚ} (hm : m ≤ m') {b : Option Bucket} {s : Option BucketState}
    (h : Tied lim m b s) : Tied lim m' b s := by
  cases b with
  | some b => cases s <;> exact h
  | none =>
    cases s with
    | none => trivial
    | some s => exact ⟨h.1, h.2.trans hm⟩

theorem take_tokens_nonneg (hl : ¬ lim.unlimited) (hs : 0 ≤ s.tokens) (now : ℤ) :
    0 ≤ (take s lim now 1).1.tokens := by
  rw [(take_one s lim now).1]
  exact drain_nonneg (fill_nonneg (burst_pos hl).le hs (inflow_nonneg (rate_pos hl).le _ _))

theorem fill_of_expired (hl : ¬ lim.unlimited) (hs : 0 ≤ s.tokens)
    (h : (s.ts + (⌈lim.burst / lim.rate * 1000⌉ + 1000) : ℚ) ≤ now) :
    fill lim.burst s.tokens (inflow lim.rate s.ts now) = lim.burst := by
  have hr := rate_pos hl
  have hc : lim.burst / lim.rate * 1000 ≤ ⌈lim.burst / lim.rate * 1000⌉ := Int.le_ceil _
  have he : lim.burst / lim.rate * 1000 ≤ ((now - s.ts : ℤ) : ℚ) := by
    push_cast
    linarith
  have hm : ((now - s.ts : ℤ) : ℚ) ≤ (max 0 (now - s.ts) : ℤ) := Int.cast_le.mpr (le_max_right _ _)
  have hin : lim.burst ≤ inflow lim.rate s.ts now := by
    rw [inflow_eq]
    calc lim.burst = lim.burst / lim.rate * 1000 / 1000 * lim.rate := by field_simp
      _ ≤ (max 0 (now - s.ts) : ℤ) / 1000 * lim.rate := by
        have := he.trans hm
        gcongr
  exact min_eq_left (by linarith)

theorem take_of_expired (hl : ¬ lim.unlimited) (hs : 0 ≤ s.tokens)
    (h : (s.ts + (⌈lim.burst / lim.rate * 1000⌉ + 1000) : ℚ) ≤ now) :
    take ⟨lim.burst, now⟩ lim now 1 = take s lim now 1 := by
  have hf := fill_of_expired hl hs h
  have hfresh : fill lim.burst lim.burst (inflow lim.rate now now) = lim.burst := by simp [fill, inflow]
  exact take_congr (hfresh.trans hf.symm)

theorem Tied.take_eq (hl : ¬ lim.unlimited) {m : ℚ} {b : Option Bucket} {s : Option BucketState}
    (h : Tied lim m b s) (hm : m ≤ now) :
    take ((b.map Bucket.state).getD ⟨lim.burst, now⟩) lim now 1 = take (s.getD ⟨lim.burst, now⟩) lim now 1 ∧
      0 ≤ (take (s.getD ⟨lim.burst, now⟩) lim now 1).1.tokens := by
  have hb := (burst_pos hl).le
  cases b with
  | some b =>
    cases s with
    | none => exact h.elim
    | some s =>
      obtain ⟨rfl, hs, _⟩ := h
      exact ⟨rfl, take_tokens_nonneg hl hs now⟩
  | none =>
    cases s with
    | none => exact ⟨rfl, take_tokens_nonneg hl (s := ⟨lim.burst, now⟩) hb now⟩
    | some s => exact ⟨take_of_expired hl h.1 (h.2.trans hm), take_tokens_nonneg hl h.1 now⟩

section Agree

variable {limits : Bytes → Limits}

def StoresTied (limits : Bytes → Limits) (m : ℚ) (db : Redis) (buckets : MemoryBuckets) : Prop :=
  ∀ id, Tied (limits id) m (db (bucketKeyPrefix ++ id)) (buckets (bucketKeyPrefix ++ id))

theorem StoresTied.step {m : ℚ} {db : Redis} {buckets : MemoryBuckets} (h : StoresTied limits m db buckets)
    {e : LimiterEvent} (hm : m ≤ e.moment) (he : MayHappen db e) :
    AnswersAgree (redisStep (fun tc => limits tc.tenantId) db e).1
      (memoryStep (fun tc => limits tc.tenantId) buckets e).1 ∧
      StoresTied limits e.moment (redisStep (fun tc => limits tc.tenantId) db e).2
        (memoryStep (fun tc => limits tc.tenantId) buckets e).2 := by
  cases e with
  | expire id moment =>
    refine ⟨trivial, fun id' => ?_⟩
    have ht := (h id').mono hm
    simp only [redisStep, memoryStep, List.append_right_inj]
    by_cases hid : id' = id
    · subst hid
      rw [if_pos rfl]
      cases hb : db (bucketKeyPrefix ++ id') with
      | none => rwa [hb] at ht
      | some b =>
        rw [hb] at ht
        cases hs : buckets (bucketKeyPrefix ++ id') with
        | none => trivial
        | some s =>
          rw [hs] at ht
          obtain ⟨rfl, hn, httl⟩ := ht
          have hdrop := he b hb
          rw [httl] at hdrop
          exact ⟨hn, by push_cast at hdrop; exact hdrop⟩
    · rw [if_neg hid]
      exact ht
  | request tc now =>
    rcases call_cases (fun tc => limits tc.tenantId) tc with ⟨err, hv⟩ | ⟨hv, hl⟩ | ⟨hv, hl⟩
    · simp only [redisStep, memoryStep, allow_invalid hv, memoryAllow_invalid hv]
      exact ⟨rfl, fun id => (h id).mono hm⟩
    · simp only [redisStep, memoryStep, allow_unlimited (fun tc => limits tc.tenantId) hv hl,
        memoryAllow_unlimited (fun tc => limits tc.tenantId) hv hl]
      exact ⟨by simp [AnswersAgree], fun id => (h id).mono hm⟩
    · obtain ⟨htake, hpos⟩ := (h tc.tenantId).take_eq hl hm
      simp only [redisStep, memoryStep, allow_limited (fun tc => limits tc.tenantId) hv hl db now rfl,
        memoryAllow_limited (fun tc => limits tc.tenantId) hv hl buckets now rfl, htake]
      refine ⟨rfl, fun id => ?_⟩
      by_cases hid : id = tc.tenantId
      · subst hid
        simp only [if_true]
        exact ⟨rfl, hpos, rfl⟩
      · simp only [List.append_right_inj, if_neg hid]
        exact (h id).mono hm

theorem StoresTied.answers : ∀ {es : List LimiterEvent} {m : ℚ} {db : Redis} {buckets : MemoryBuckets},
    StoresTied limits m db buckets → (m :: es.map LimiterEvent.moment).Pairwise (· ≤ ·) →
    KeepsTtl (fun tc => limits tc.tenantId) db es →
    List.Forall₂ (fun p q => p.1 = q.1 ∧ AnswersAgree p.2 q.2)
      (answers (redisStep fun tc => limits tc.tenantId) db es)
      (answers (memoryStep fun tc => limits tc.tenantId) buckets es)
  | [], _, _, _, _, _, _ => .nil
  | e :: es, m, db, buckets, h, hm, ht => by
    obtain ⟨hm1, hm2⟩ := List.pairwise_cons.mp hm
    obtain ⟨hagree, hnext⟩ := h.step (hm1 _ List.mem_cons_self) ht.1
    exact .cons ⟨rfl, hagree⟩ (StoresTied.answers hnext hm2 ht.2)

end Agree

/-- **Refinement.** Over any sequence of requests whose times do not go back, with keys dropped no earlier
than they may be, Redis decides as memory does. -/
theorem limiters_agree (limits : Bytes → Limits) {es : List LimiterEvent}
    (hmono : (es.map LimiterEvent.moment).Pairwise (· ≤ ·))
    (httl : KeepsTtl (fun tc => limits tc.tenantId) (fun _ => none) es) :
    List.Forall₂ (fun p q => p.1 = q.1 ∧ AnswersAgree p.2 q.2)
      (answers (redisStep fun tc => limits tc.tenantId) (fun _ => none) es)
      (answers (memoryStep fun tc => limits tc.tenantId) (fun _ => none) es) := by
  cases es with
  | nil => exact .nil
  | cons e es =>
    have hm : (e.moment :: (e :: es).map LimiterEvent.moment).Pairwise (· ≤ ·) := by
      refine List.pairwise_cons.mpr ⟨fun x hx => ?_, hmono⟩
      rcases List.mem_cons.mp hx with rfl | hx
      · exact le_refl _
      · exact List.rel_of_pairwise_cons hmono hx
    exact StoresTied.answers (m := e.moment) (fun _ => trivial) hm httl

/-- One request a second: the key is dropped three seconds after the write, and the next request finds a
full bucket either way. -/
theorem agree_across_expiry :
    List.Forall₂ (fun p q => p.1 = q.1 ∧ AnswersAgree p.2 q.2)
      (answers (redisStep fun _ => ⟨1, 1⟩) (fun _ => none)
        [.request limitedTenant 0, .expire limitedTenant.tenantId 3000, .request limitedTenant 3000])
      (answers (memoryStep fun _ => ⟨1, 1⟩) (fun _ => none)
        [.request limitedTenant 0, .expire limitedTenant.tenantId 3000, .request limitedTenant 3000]) := by
  refine limiters_agree (fun _ => ⟨1, 1⟩) (by decide) ⟨trivial, fun b hb => ?_, trivial, trivial⟩
  rw [redisStep, allow_limited _ (by decide) (by decide) (fun _ => none) 0 rfl] at hb
  simp only [if_true, Option.some.injEq] at hb
  subst hb
  decide +kernel

/-! ## When to come back -/

/-- **Retry-After.** A denied request that comes back after `retryAfter` is admitted, and none before it is,
exactly if a token fits into the bucket. -/
theorem retryAfter_exact_iff (hr : 0 < lim.rate)
    (hd : (take s lim now 1).2.allowed = false) :
    ((take (take s lim now 1).1 lim (now + (take s lim now 1).2.retryAfter) 1).2.allowed = true ∧
      ∀ t, now ≤ t → t < now + (take s lim now 1).2.retryAfter →
        (take (take s lim now 1).1 lim t 1).2.allowed = false) ↔
    1 ≤ lim.burst := by
  have hlow : ¬ 1 ≤ fill lim.burst s.tokens (inflow lim.rate s.ts now) := fun h => by
    rw [(take_one s lim now).2.mpr h] at hd
    cases hd
  rw [take_denies hlow]
  generalize fill lim.burst s.tokens (inflow lim.rate s.ts now) = level at hlow
  simp only [if_pos hr]
  -- what is missing flows in over `(1 - level) / rate` seconds, which the answer rounds up
  have hmiss : (1 - level) / lim.rate * 1000 / 1000 * lim.rate = 1 - level := by field_simp
  constructor
  · rintro ⟨h, -⟩
    exact ((take_one _ _ _).2.mp h).trans (min_le_left _ _)
  · intro hb
    refine ⟨(take_one _ _ _).2.mpr (le_min hb ?_), fun t h1 h2 => Bool.eq_false_iff.mpr fun h => ?_⟩
    · have hle : (1 - level) / lim.rate * 1000 ≤ (max 0 ⌈(1 - level) / lim.rate * 1000⌉ : ℤ) :=
        (Int.le_ceil _).trans (Int.cast_le.mpr (le_max_right _ _))
      have hin : 1 - level ≤ inflow lim.rate now (now + ⌈(1 - level) / lim.rate * 1000⌉) := by
        rw [inflow_eq, add_sub_cancel_left]
        calc 1 - level = (1 - level) / lim.rate * 1000 / 1000 * lim.rate := hmiss.symm
          _ ≤ _ := by gcongr
      dsimp only
      linarith
    · have hlt : ((t - now : ℤ) : ℚ) < (1 - level) / lim.rate * 1000 := Int.lt_ceil.mp (by linarith)
      have hin : inflow lim.rate now t < 1 - level := by
        rw [inflow_eq, max_eq_right (by linarith)]
        calc ((t - now : ℤ) : ℚ) / 1000 * lim.rate < (1 - level) / lim.rate * 1000 / 1000 * lim.rate := by gcongr
          _ = 1 - level := hmiss
      have hfill : 1 ≤ level + inflow lim.rate now t := ((take_one _ _ _).2.mp h).trans (min_le_right _ _)
      linarith

/-- The second request of an instant waits for one token. -/
theorem second_request_waits :
    (take ⟨0, 0⟩ ⟨3, 1⟩ 0 1).2.retryAfter = 334 ∧
      (((take (take ⟨0, 0⟩ ⟨3, 1⟩ 0 1).1 ⟨3, 1⟩ (0 + (take ⟨0, 0⟩ ⟨3, 1⟩ 0 1).2.retryAfter) 1).2.allowed = true ∧
        ∀ t, 0 ≤ t → t < 0 + (take ⟨0, 0⟩ ⟨3, 1⟩ 0 1).2.retryAfter →
          (take (take ⟨0, 0⟩ ⟨3, 1⟩ 0 1).1 ⟨3, 1⟩ t 1).2.allowed = false) ↔ (1 : ℚ) ≤ 1) :=
  ⟨by decide +kernel, retryAfter_exact_iff (by decide +kernel) (by decide +kernel)⟩

/-- Half a token a second into a bucket of one half: the first request is told to come back after a second,
and is denied again then. -/
theorem half_burst_never_admits :
    (answers (memoryStep fun _ => ⟨1/2, 1/2⟩) (fun _ => none)
      [.request limitedTenant 0, .request limitedTenant 1000]).map
        Prod.snd =
      [some (.ok { allowed := false, retryAfter := 1000, limit := 1/2, remaining := 1/2 }),
        some (.ok { allowed := false, retryAfter := 1000, limit := 1/2, remaining := 1/2 })] := by
  decide +kernel

end Logalot
