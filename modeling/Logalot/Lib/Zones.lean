import Logalot.Lib.Rfc3339

/-!
# Times in a zone

A `time.Time` has an offset from UTC besides its instant, and `MarshalJSON` writes
the time on the clock of its zone. An offset is written in whole minutes, so the
text gives the instant back only if there are no seconds in it.
-/

namespace Go

def formatDateTime (t : Time) : Bytes :=
  let second := t / 1000000000 % 86400
  formatDate t ++ [84] ++ padInt (second / 3600) 2 ++ [58] ++ padInt (second / 60 % 60) 2 ++ [58] ++
    padInt (second % 60) 2 ++ formatNano (t % 1000000000)

def formatZone (offset : Int) : Bytes :=
  if offset = 0 then [90]
  else
    let zone := offset.tdiv 60
    (if zone < 0 then 45 else 43) :: (padInt (zone.natAbs / 60 : Nat) 2 ++ 58 :: padInt (zone.natAbs % 60 : Nat) 2)

/-- `t.In(zone).Format(time.RFC3339Nano)`. -/
def formatIn (offset : Int) (t : Time) : Bytes := formatDateTime (t + offset * 1000000000) ++ formatZone offset

/-- The hour of the zone has more than two digits or is not below 24. -/
def badZoneHour (b : Bytes) : Bool :=
  match b.reverse with
  | 90 :: _ => false
  | _ :: _ :: _ :: e :: d :: c :: _ => isDigit c || 24 ≤ parseNat [d, e]
  | _ => false

/-- `t.In(zone).MarshalJSON()`. -/
def marshalTimeIn (offset : Int) (t : Time) : Option Bytes :=
  if (formatIn offset t)[4]? = some 45 ∧ badZoneHour (formatIn offset t) = false then
    some (34 :: formatIn offset t ++ [34])
  else none

example : marshalTimeIn 3208 (-5000000000000000000) = some (bs "\"1811-07-23T16:00:08+00:53\"") := by decide

theorem formatRFC3339Nano_eq (t : Time) : formatRFC3339Nano t = formatDateTime t ++ [90] := rfl

theorem formatIn_zero (t : Time) : formatIn 0 t = formatRFC3339Nano t := by
  rw [formatIn, formatRFC3339Nano_eq, zero_mul, add_zero]
  rfl

/-! ## Reading numbers -/

variable {n offset : Int}

theorem padInt_two (h0 : 0 ≤ n) (h : n < 100) :
    ∃ a b, padInt n 2 = [a, b] ∧ isDigit a = true ∧ isDigit b = true := by
  have hlen : (padInt n 2).length = 2 := length_padInt h0 (by omega) (by decide)
  obtain ⟨a, b, hab⟩ := List.length_eq_two.mp hlen
  have hd := isDigit_padInt h0 (w := 2)
  rw [hab] at hd
  exact ⟨a, b, hab, hd a List.mem_cons_self, hd b (List.mem_cons_of_mem _ List.mem_cons_self)⟩

theorem getnum_padInt (fixed : Bool) (h0 : 0 ≤ n) (h : n < 100) (s : Bytes) :
    getnum fixed (padInt n 2 ++ s) = some (n.toNat, s) := by
  obtain ⟨a, b, hab, ha, hb⟩ := padInt_two h0 h
  have hval : (parseNat (padInt n 2) : Int) = n := parseNat_padInt h0
  rw [hab] at hval ⊢
  have hn : parseNat [a, b] = n.toNat := by omega
  simp only [List.cons_append, List.nil_append, getnum, ha, hb, hn, Bool.not_true, if_true]
  rfl

theorem skipByte_cons (c : UInt8) (s : Bytes) : skipByte c (c :: s) = some s := by
  rw [skipByte, if_pos rfl]

theorem getYear_padInt (h0 : 0 ≤ n) (h : n ≤ 9999) (s : Bytes) :
    getYear (padInt n 4 ++ s) = some (n.toNat, s) := by
  have hlen : (padInt n 4).length = 4 := length_padInt h0 (by omega) (by decide)
  have htake : (padInt n 4 ++ s).take 4 = padInt n 4 := List.take_left' hlen
  have hval : (parseNat (padInt n 4) : Int) = n := parseNat_padInt h0
  unfold getYear
  rw [htake, List.drop_left' hlen, if_pos ⟨hlen, List.all_eq_true.mpr (isDigit_padInt h0)⟩]
  congr 2
  omega

theorem getDate_formatDate {t : Time} (h : fourDigit (unixDay t)) (s : Bytes) :
    getDate (formatDate t ++ s) = some (civil (unixDay t), s) := by
  obtain ⟨hm1, hm12, hd1, hd⟩ := civil_valid (unixDay t)
  have hd31 := daysIn_le (civil (unixDay t)).month (civil (unixDay t)).year
  have hdate : (⟨(civil (unixDay t)).year.toNat, (civil (unixDay t)).month.toNat, (civil (unixDay t)).day.toNat⟩ :
      Date) = civil (unixDay t) := by
    rw [Int.toNat_of_nonneg h.1, Int.toNat_of_nonneg (by omega), Int.toNat_of_nonneg (by omega)]
  unfold getDate
  simp only [formatDate_eq, List.append_assoc, List.cons_append, getYear_padInt h.1 h.2, skipByte_cons,
    getnum_padInt true (show 0 ≤ (civil (unixDay t)).month by omega) (by omega),
    getnum_padInt true (show 0 ≤ (civil (unixDay t)).day by omega) (by omega), Option.bind_eq_bind, Option.bind_some,
    hdate]
  rw [if_pos (civil_valid _)]

/-! ## Reading the clock -/

def EndsClock (s : Bytes) : Prop := ∀ c ∈ s.head?, isDigit c = false ∧ c ≠ 46 ∧ c ≠ 44

theorem getFraction_endsClock {s : Bytes} (h : EndsClock s) : getFraction s = some (0, s) := by
  obtain _ | ⟨p, _ | ⟨d, s⟩⟩ := s
  · rfl
  · rfl
  · obtain ⟨-, h46, h44⟩ := h p rfl
    rw [getFraction, if_neg fun hp => hp.1.elim h46 h44]

theorem takeWhile_append_endsClock {w s : Bytes} (hw : ∀ c ∈ w, isDigit c = true) (hs : EndsClock s) :
    (w ++ s).takeWhile isDigit = w ∧ (w ++ s).dropWhile isDigit = s := by
  have hnil : s.takeWhile isDigit = [] ∧ s.dropWhile isDigit = s := by
    cases s with
    | nil => exact ⟨rfl, rfl⟩
    | cons c s => simp [(hs c rfl).1]
  rw [List.takeWhile_append_of_pos hw, List.dropWhile_append_of_pos hw, hnil.1, hnil.2, List.append_nil]
  exact ⟨rfl, rfl⟩

theorem exists_replicate_zero (w : Bytes) :
    ∃ k, w = (w.reverse.dropWhile (· == 48)).reverse ++ List.replicate k 48 := by
  refine ⟨(w.reverse.takeWhile (· == 48)).length, ?_⟩
  have hz : w.reverse.takeWhile (· == 48) = List.replicate (w.reverse.takeWhile (· == 48)).length 48 := by
    refine List.eq_replicate_of_mem fun c hc => ?_
    simpa using List.all_eq_true.mp List.all_takeWhile c hc
  have hw : w.reverse = w.reverse.takeWhile (· == 48) ++ w.reverse.dropWhile (· == 48) :=
    List.takeWhile_append_dropWhile.symm
  rw [← List.reverse_replicate, ← hz, ← List.reverse_append, ← hw, List.reverse_reverse]

theorem getFraction_formatNano (h0 : 0 ≤ n) (h : n < 1000000000) {s : Bytes} (hs : EndsClock s) :
    getFraction (formatNano n ++ s) = some (n.toNat, s) := by
  have hlen : (padInt n 9).length = 9 := length_padInt h0 (by omega) (by decide)
  have hval : (parseNat (padInt n 9) : Int) = n := parseNat_padInt h0
  obtain ⟨k, hk⟩ := exists_replicate_zero (padInt n 9)
  unfold formatNano
  cases hw : ((padInt n 9).reverse.dropWhile (· == 48)).reverse with
  | nil =>
    rw [hw, List.nil_append] at hk
    have hzero : parseNat (List.replicate k 48) = 0 := by
      have := parseNat_replicate_zero k []
      rwa [List.append_nil] at this
    rw [hk, hzero] at hval
    rw [← hval]
    exact getFraction_endsClock hs
  | cons d w =>
    rw [hw] at hk
    have hdig : ∀ c ∈ d :: w, isDigit c = true := fun c hc =>
      isDigit_padInt h0 c (hk ▸ List.mem_append_left _ hc)
    obtain ⟨htake, hdrop⟩ := takeWhile_append_endsClock hdig hs
    have hpad : ((d :: w) ++ List.replicate 9 48).take 9 = padInt n 9 := by
      have hle : (d :: w).length + k = 9 := by rw [← hlen, hk, List.length_append, List.length_replicate]
      rw [hk, List.take_append, List.take_of_length_le (by omega), List.take_replicate]
      congr 2
      omega
    show getFraction (46 :: d :: (w ++ s)) = _
    rw [getFraction, if_pos ⟨.inl rfl, hdig d List.mem_cons_self⟩]
    rw [List.cons_append] at htake hdrop
    simp only [htake, hdrop, hpad]
    congr 2
    omega

theorem getClock_padInt (h0 : 0 ≤ n) (h : n < 86400) (s : Bytes) :
    getClock (padInt (n / 3600) 2 ++ 58 :: (padInt (n / 60 % 60) 2 ++ 58 :: (padInt (n % 60) 2 ++ s))) =
      some (n.toNat, s) := by
  unfold getClock
  simp only [getnum_padInt false (show 0 ≤ n / 3600 by omega) (by omega), skipByte_cons,
    getnum_padInt true (show 0 ≤ n / 60 % 60 by omega) (by omega),
    getnum_padInt true (show 0 ≤ n % 60 by omega) (by omega), Option.bind_eq_bind, Option.bind_some]
  rw [if_pos (by omega)]
  congr 2
  omega

/-! ## Reading the zone -/

theorem endsClock_formatZone (offset : Int) : EndsClock (formatZone offset) := by
  unfold formatZone EndsClock
  intro c hc
  split at hc
  · cases hc
    decide
  · dsimp only at hc
    split at hc
    · cases hc
      decide
    · cases hc
      decide

theorem natAbs_tdiv_sixty (offset : Int) : (offset.tdiv 60).natAbs = offset.natAbs / 60 := by
  rw [Int.natAbs_tdiv]
  rfl

theorem getZone_formatZone (h : offset.natAbs < 86400) :
    getZone (formatZone offset) = some (offset.tdiv 60 * 60, []) := by
  unfold formatZone
  split
  · rename_i hz
    rw [hz]
    rfl
  · have habs := natAbs_tdiv_sixty offset
    dsimp only
    generalize offset.tdiv 60 = zone at habs
    have hget : ∀ c : UInt8, c = 45 ∨ c = 43 →
        getZone (c :: (padInt (zone.natAbs / 60 : Nat) 2 ++ 58 :: padInt (zone.natAbs % 60 : Nat) 2)) =
          some (if c = 43 then (zone.natAbs * 60 : Int) else -(zone.natAbs * 60), []) := by
      intro c hc
      have hne : c ≠ 90 := by rcases hc with rfl | rfl <;> decide
      have hmin : getnum true (padInt (zone.natAbs % 60 : Nat) 2) = some (zone.natAbs % 60, []) := by
        have := getnum_padInt true (show 0 ≤ ((zone.natAbs % 60 : Nat) : Int) by omega) (by omega) []
        rwa [List.append_nil] at this
      rw [getZone, if_neg hne]
      simp only [getnum_padInt true (show 0 ≤ ((zone.natAbs / 60 : Nat) : Int) by omega) (by omega), skipByte_cons,
        hmin, Option.bind_eq_bind, Option.bind_some, Int.toNat_natCast]
      rw [if_pos (by omega)]
      have hsum : ((zone.natAbs / 60 : Nat) * 60 + (zone.natAbs % 60 : Nat) : Int) * 60 = zone.natAbs * 60 := by omega
      rw [hsum]
      rcases hc with rfl | rfl <;> rfl
    by_cases hneg : zone < 0
    · rw [if_pos hneg, hget 45 (.inl rfl), if_neg (by decide)]
      congr 2
      omega
    · rw [if_neg hneg, hget 43 (.inr rfl), if_pos rfl]
      congr 2
      omega

theorem instant_of_parts (w z : Int) :
    (w / 86400000000000 * 86400 + (w / 1000000000 % 86400).toNat - z) * 1000000000 + (w % 1000000000).toNat =
      w - z * 1000000000 := by omega

theorem parseRFC3339_formatDateTime {w : Time} (hy : fourDigit (unixDay w))
    (hoff : offset.natAbs < 86400) :
    parseRFC3339 (formatDateTime w ++ formatZone offset) = some (w - offset.tdiv 60 * 60 * 1000000000) := by
  have hclock : ∀ n : Int, 0 ≤ n % 86400 ∧ n % 86400 < 86400 := fun n => by omega
  have hnano : ∀ n : Int, 0 ≤ n % 1000000000 ∧ n % 1000000000 < 1000000000 := fun n => by omega
  unfold parseRFC3339
  simp only [formatDateTime, List.append_assoc, List.cons_append, List.nil_append, getDate_formatDate hy,
    skipByte_cons, getClock_padInt (hclock _).1 (hclock _).2,
    getFraction_formatNano (hnano _).1 (hnano _).2 (endsClock_formatZone offset),
    getZone_formatZone hoff, Option.bind_eq_bind, Option.bind_some, if_true, dayNumber_civil]
  exact congrArg some (instant_of_parts w _)

theorem parseRFC3339_formatIn {t : Time} (hoff : offset.natAbs < 86400)
    (hy : fourDigit (unixDay (t + offset * 1000000000))) :
    parseRFC3339 (formatIn offset t) = some (t + (offset - offset.tdiv 60 * 60) * 1000000000) := by
  rw [formatIn, parseRFC3339_formatDateTime hy hoff]
  congr 1
  ring

/-! ## What is written -/

theorem three_le_length_padInt (h : 100 ≤ n) : 3 ≤ (padInt n 2).length := by
  by_contra hlt
  have := (bounds_of_length_padInt (show (padInt n 2).length ≤ 2 by omega)).2
  omega

theorem badZoneHour_append {w h r : Bytes} {sign c d e m n : UInt8} (hn : n ≠ 90)
    (hr : h.reverse ++ sign :: w.reverse = e :: d :: c :: r) :
    badZoneHour (w ++ sign :: (h ++ [58, m, n])) = (isDigit c || decide (24 ≤ parseNat [d, e])) := by
  have hrev : (w ++ sign :: (h ++ [58, m, n])).reverse = n :: m :: 58 :: (h.reverse ++ sign :: w.reverse) := by simp
  unfold badZoneHour
  rw [hrev, hr]
  split
  · rename_i he
    exact absurd (List.cons.inj he).1 hn
  · rename_i he
    cases he
    rfl
  · rename_i hne
    exact absurd rfl (hne _ _ _ _ _ _ _)

theorem badZoneHour_formatZone (w : Bytes) (offset : Int) :
    badZoneHour (w ++ formatZone offset) = decide (86400 ≤ offset.natAbs) := by
  have habs := natAbs_tdiv_sixty offset
  unfold formatZone
  split
  · rename_i hz
    rw [hz]
    simp [badZoneHour]
  · dsimp only
    generalize offset.tdiv 60 = zone at habs
    obtain ⟨m, n, hm, -, hn⟩ := padInt_two (show 0 ≤ ((zone.natAbs % 60 : Nat) : Int) by omega) (by omega)
    have h90 : n ≠ 90 := fun e => by
      rw [e] at hn
      cases hn
    have hsign : isDigit (if zone < 0 then 45 else 43) = false := by split <;> decide
    generalize (if zone < 0 then (45 : UInt8) else 43) = sign at hsign
    have hhour : 0 ≤ ((zone.natAbs / 60 : Nat) : Int) := by omega
    by_cases hh : zone.natAbs / 60 < 100
    · obtain ⟨d, e, hde, -, -⟩ := padInt_two hhour (by omega)
      have hval : (parseNat (padInt (zone.natAbs / 60 : Nat) 2) : Int) = (zone.natAbs / 60 : Nat) :=
        parseNat_padInt hhour
      rw [hde] at hval
      rw [hm, badZoneHour_append h90 (by rw [hde]; rfl), hsign, Bool.false_or]
      exact decide_eq_decide.mpr (by omega)
    · -- of three digits or more the third from the end stands where the sign is expected
      have hlen := three_le_length_padInt (show (100 : Int) ≤ (zone.natAbs / 60 : Nat) by omega)
      have hdig := isDigit_padInt hhour (w := 2)
      obtain ⟨e, d, c, r, hr⟩ : ∃ e d c r, (padInt (zone.natAbs / 60 : Nat) 2).reverse = e :: d :: c :: r := by
        rw [← List.length_reverse] at hlen
        generalize (padInt (zone.natAbs / 60 : Nat) 2).reverse = l at hlen
        obtain _ | ⟨e, _ | ⟨d, _ | ⟨c, r⟩⟩⟩ := l
        · simp at hlen
        · simp at hlen
        · simp at hlen
        · exact ⟨e, d, c, r, rfl⟩
      have hc : isDigit c = true := hdig c (by
        rw [← List.mem_reverse, hr]
        simp)
      rw [hm, badZoneHour_append h90 (by rw [hr]; rfl), hc, Bool.true_or]
      exact (decide_eq_true (by omega)).symm

theorem formatDateTime_dash (w : Time) (z : Bytes) :
    (formatDateTime w ++ z)[4]? = some 45 ↔ fourDigit (unixDay w) := by
  have hlen : 4 < (formatDateTime w).length := by
    have := (le_length_padInt (civil (unixDay w)).year 4).1
    simp only [formatDateTime, formatDate_eq, List.length_append, List.length_cons]
    omega
  have hutc := marshalTime_isSome_iff w
  unfold marshalTime at hutc
  rw [formatRFC3339Nano_eq, List.getElem?_append_left hlen] at hutc
  rw [← hutc, List.getElem?_append_left hlen]
  split <;> simp_all

theorem marshalTimeIn_eq_some_iff {t : Time} {b : Bytes} :
    marshalTimeIn offset t = some b ↔ offset.natAbs < 86400 ∧ fourDigit (unixDay (t + offset * 1000000000)) ∧
      b = 34 :: formatIn offset t ++ [34] := by
  have hdash : (formatIn offset t)[4]? = some 45 ↔ fourDigit (unixDay (t + offset * 1000000000)) :=
    formatDateTime_dash _ _
  have hzone : badZoneHour (formatIn offset t) = false ↔ offset.natAbs < 86400 := by
    rw [formatIn, badZoneHour_formatZone, decide_eq_false_iff_not, Nat.not_le]
  unfold marshalTimeIn
  simp only [hdash, hzone]
  by_cases h : fourDigit (unixDay (t + offset * 1000000000)) ∧ offset.natAbs < 86400
  · rw [if_pos h, Option.some_inj, eq_comm]
    exact ⟨fun hb => ⟨h.2, h.1, hb⟩, fun hb => hb.2.2⟩
  · rw [if_neg h]
    exact iff_of_false (fun hb => by cases hb) fun hb => h ⟨hb.2.1, hb.1⟩

end Go
