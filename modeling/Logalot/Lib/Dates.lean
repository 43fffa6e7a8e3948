import Mathlib.Order.Monotone.Basic
import Mathlib.Tactic.IntervalCases
import Logalot.Lib.Calendar

/-!
# Dates as text

The dates of day numbers are valid, follow the order of the days and give the
day number back. In years of four digits the text of a date is parsed as its
midnight, and texts are in the order of the days.
-/

namespace Go

/-! ## Years of an era -/

def yearOfEra (doe : Int) : Int := (doe - doe / 1460 + doe / 36524 - doe / 146096) / 365

def eraYearStart (y : Int) : Int := 365 * y + y / 4 - y / 100 + y / 400

theorem yearOfEra_eq {c q r : Int} (hc : 0 ≤ c ∧ c < 4) (hq : 0 ≤ q ∧ q < 25) (hr : 0 ≤ r ∧ r < 1461)
    (hl : q = 24 → r < 1460) :
    yearOfEra (36524 * c + 1461 * q + r) = 100 * c + 4 * q + min (r / 365) 3 := by
  have h4 : (36524 * c + 1461 * q + r) / 1460 = 25 * c + q + (24 * c + q + r) / 1460 := by omega
  have h1 : (36524 * c + 1461 * q + r) / 36524 = c := by omega
  have h0 : (36524 * c + 1461 * q + r) / 146096 = 0 := by omega
  have hk : (24 * c + q + r) / 1460 = 0 ∨ (24 * c + q + r) / 1460 = 1 := by omega
  unfold yearOfEra
  rw [h4, h1, h0]
  rcases hk with hk | hk <;> rw [hk] <;> omega

theorem eraYearStart_eq {c q k : Int} (hc : 0 ≤ c ∧ c < 4) (hq : 0 ≤ q ∧ q < 25) (hk : 0 ≤ k ∧ k < 4) :
    eraYearStart (100 * c + 4 * q + k) = 36524 * c + 1461 * q + 365 * k := by
  have h4 : (100 * c + 4 * q + k) / 4 = 25 * c + q := by omega
  have h1 : (100 * c + 4 * q + k) / 100 = c := by omega
  have h0 : (100 * c + 4 * q + k) / 400 = 0 := by omega
  unfold eraYearStart
  rw [h4, h1, h0]
  omega

theorem lt_eraYearStart_succ {c q r k : Int} (hc : 0 ≤ c ∧ c < 4) (hq : 0 ≤ q ∧ q < 25) (hr : 0 ≤ r ∧ r < 1461)
    (hl : q = 24 → r < 1460) (hk : k = min (r / 365) 3) :
    36524 * c + 1461 * q + r < eraYearStart (100 * c + 4 * q + k + 1) := by
  by_cases h3 : k < 3
  · have h : 100 * c + 4 * q + k + 1 = 100 * c + 4 * q + (k + 1) := by omega
    rw [h, eraYearStart_eq hc hq ⟨by omega, by omega⟩]
    omega
  · by_cases h24 : q < 24
    · have h : 100 * c + 4 * q + k + 1 = 100 * c + 4 * (q + 1) + 0 := by omega
      rw [h, eraYearStart_eq hc ⟨by omega, by omega⟩ ⟨by omega, by omega⟩]
      omega
    · by_cases hc3 : c < 3
      · have h : 100 * c + 4 * q + k + 1 = 100 * (c + 1) + 4 * 0 + 0 := by omega
        rw [h, eraYearStart_eq ⟨by omega, by omega⟩ ⟨by omega, by omega⟩ ⟨by omega, by omega⟩]
        omega
      · have h : 100 * c + 4 * q + k + 1 = 400 := by omega
        have h400 : eraYearStart 400 = 146097 := by decide
        rw [h, h400]
        omega

theorem yearOfEra_spec {doe : Int} (h : 0 ≤ doe ∧ doe < 146097) :
    (0 ≤ yearOfEra doe ∧ yearOfEra doe < 400) ∧ eraYearStart (yearOfEra doe) ≤ doe ∧
      doe < eraYearStart (yearOfEra doe + 1) := by
  by_cases hd : doe = 146096
  · subst hd
    decide
  · obtain ⟨c, q, r, rfl, hc, hq, hr, hl⟩ : ∃ c q r : Int, doe = 36524 * c + 1461 * q + r ∧ (0 ≤ c ∧ c < 4) ∧
        (0 ≤ q ∧ q < 25) ∧ (0 ≤ r ∧ r < 1461) ∧ (q = 24 → r < 1460) :=
      ⟨doe / 36524, doe % 36524 / 1461, doe % 36524 % 1461, by omega, by omega, by omega, by omega, by omega⟩
    rw [yearOfEra_eq hc hq hr hl]
    refine ⟨by omega, ?_, lt_eraYearStart_succ hc hq hr hl rfl⟩
    rw [eraYearStart_eq hc hq ⟨by omega, by omega⟩]
    omega

theorem eraYearStart_succ_le (y : Int) : eraYearStart (y + 1) ≤ eraYearStart y + 366 := by
  have h4 : (y + 1) / 4 ≤ y / 4 + 1 := by omega
  have hc : (y + 1) / 400 - (y + 1) / 100 ≤ y / 400 - y / 100 := by omega
  unfold eraYearStart
  omega

theorem eraYearStart_mono {y z : Int} (h : y ≤ z) : eraYearStart y ≤ eraYearStart z := by
  refine monotone_int_of_le_succ (fun y => ?_) h
  unfold eraYearStart
  omega

theorem yearOfEra_unique (doe y : Int) (hd : 0 ≤ doe ∧ doe < 146097) (h0 : eraYearStart y ≤ doe)
    (h1 : doe < eraYearStart (y + 1)) : yearOfEra doe = y := by
  obtain ⟨-, hs, he⟩ := yearOfEra_spec hd
  rcases lt_trichotomy (yearOfEra doe) y with h | h | h
  · have := eraYearStart_mono (show yearOfEra doe + 1 ≤ y by omega)
    omega
  · exact h
  · have := eraYearStart_mono (show y + 1 ≤ yearOfEra doe by omega)
    omega

/-! ## Dates and day numbers -/

def marchYear (days : Int) : Int := yearOfEra ((days + 719468) % 146097) + (days + 719468) / 146097 * 400

def dayOfYear (days : Int) : Int :=
  (days + 719468) % 146097 - (365 * yearOfEra ((days + 719468) % 146097) +
    yearOfEra ((days + 719468) % 146097) / 4 - yearOfEra ((days + 719468) % 146097) / 100)

def marchMonth (doy : Int) : Int := (5 * doy + 2) / 153

theorem doe_spec (n : Int) : 0 ≤ (n + 719468) % 146097 ∧ (n + 719468) % 146097 < 146097 := by omega

theorem dayOfYear_eq (n : Int) :
    dayOfYear n = (n + 719468) % 146097 - eraYearStart (yearOfEra ((n + 719468) % 146097)) := by
  obtain ⟨hy, -, -⟩ := yearOfEra_spec (doe_spec n)
  unfold dayOfYear eraYearStart
  omega

theorem dayOfYear_bounds (n : Int) : 0 ≤ dayOfYear n ∧ dayOfYear n ≤ 365 := by
  obtain ⟨-, hs, he⟩ := yearOfEra_spec (doe_spec n)
  have hl := eraYearStart_succ_le (yearOfEra ((n + 719468) % 146097))
  rw [dayOfYear_eq]
  omega

theorem civil_eq (n : Int) : civil n =
    { year := marchYear n + (if marchMonth (dayOfYear n) < 10 then 0 else 1)
      month := if marchMonth (dayOfYear n) < 10 then marchMonth (dayOfYear n) + 3 else marchMonth (dayOfYear n) - 9
      day := dayOfYear n - (153 * marchMonth (dayOfYear n) + 2) / 5 + 1 } := by
  have h : civil n =
      { year := marchYear n + (if (if marchMonth (dayOfYear n) < 10 then marchMonth (dayOfYear n) + 3
          else marchMonth (dayOfYear n) - 9) ≤ 2 then 1 else 0)
        month := if marchMonth (dayOfYear n) < 10 then marchMonth (dayOfYear n) + 3 else marchMonth (dayOfYear n) - 9
        day := dayOfYear n - (153 * marchMonth (dayOfYear n) + 2) / 5 + 1 } := rfl
  have hb := dayOfYear_bounds n
  rw [h]
  unfold marchMonth
  split <;> split <;> simp <;> omega

theorem dayOfYear_succ (n : Int) :
    (marchYear (n + 1) = marchYear n ∧ dayOfYear (n + 1) = dayOfYear n + 1) ∨
    (marchYear (n + 1) = marchYear n + 1 ∧ dayOfYear (n + 1) = 0) := by
  simp only [dayOfYear_eq, marchYear]
  by_cases hl : (n + 719468) % 146097 = 146096
  · have h0 : (n + 1 + 719468) % 146097 = 0 := by omega
    have he : (n + 1 + 719468) / 146097 = (n + 719468) / 146097 + 1 := by omega
    have hz : yearOfEra 0 = 0 := by decide
    have hy : yearOfEra 146096 = 399 := by decide
    have hs : eraYearStart 0 = 0 := by decide
    right
    rw [h0, he, hl, hz, hy, hs]
    omega
  · have h1 : (n + 1 + 719468) % 146097 = (n + 719468) % 146097 + 1 := by omega
    have he : (n + 1 + 719468) / 146097 = (n + 719468) / 146097 := by omega
    have hd : 0 ≤ (n + 719468) % 146097 ∧ (n + 719468) % 146097 + 1 < 146097 := by omega
    rw [h1, he]
    generalize (n + 719468) % 146097 = doe at hd
    obtain ⟨-, hs, hn⟩ := yearOfEra_spec (show 0 ≤ doe ∧ doe < 146097 by omega)
    by_cases hin : doe + 1 < eraYearStart (yearOfEra doe + 1)
    · left
      rw [yearOfEra_unique (doe + 1) (yearOfEra doe) (by omega) (by omega) hin]
      omega
    · right
      have hs' : eraYearStart (yearOfEra doe + 1) < eraYearStart (yearOfEra doe + 1 + 1) := by
        unfold eraYearStart
        omega
      rw [yearOfEra_unique (doe + 1) (yearOfEra doe + 1) (by omega) (by omega) (by omega)]
      omega

def Date.key (d : Date) : Int := (12 * d.year + d.month) * 32 + d.day

theorem key_civil (n : Int) : (civil n).key =
    (12 * marchYear n + marchMonth (dayOfYear n) + 3) * 32 +
      (dayOfYear n - (153 * marchMonth (dayOfYear n) + 2) / 5 + 1) := by
  rw [civil_eq]
  simp only [Date.key]
  split <;> omega

theorem marchMonth_succ (doy : Int) :
    marchMonth (doy + 1) = marchMonth doy ∨ marchMonth (doy + 1) = marchMonth doy + 1 := by
  unfold marchMonth
  omega

theorem key_civil_le_iff (m n : Int) : (civil m).key ≤ (civil n).key ↔ m ≤ n := by
  refine (strictMono_int_of_lt_succ fun n => ?_).le_iff_le (f := fun n => (civil n).key)
  have hb := dayOfYear_bounds n
  simp only [key_civil]
  rcases dayOfYear_succ n with ⟨hy, hd⟩ | ⟨hy, hd⟩
  · rw [hy, hd]
    rcases marchMonth_succ (dayOfYear n) with h | h
    · rw [h]
      omega
    · rw [h]
      omega
  · rw [hy, hd]
    unfold marchMonth
    omega

def isLeap (year : Int) : Bool := year % 4 = 0 ∧ (year % 100 ≠ 0 ∨ year % 400 = 0)

def daysIn (month year : Int) : Int :=
  if month = 2 then (if isLeap year then 29 else 28)
  else if month = 4 ∨ month = 6 ∨ month = 9 ∨ month = 11 then 30
  else 31

def Date.Valid (d : Date) : Prop :=
  1 ≤ d.month ∧ d.month ≤ 12 ∧ 1 ≤ d.day ∧ d.day ≤ daysIn d.month d.year

instance (d : Date) : Decidable d.Valid := inferInstanceAs (Decidable (_ ∧ _))

theorem ediv_succ {y k : Int} (hk : k = 4 ∨ k = 100 ∨ k = 400) :
    (y + 1) / k = y / k + (if (y + 1) % k = 0 then 1 else 0) := by
  rcases hk with rfl | rfl | rfl <;> split <;> omega

variable {n : Int} {w : Nat} {t : Time}

theorem isLeap_of_dayOfYear (h : dayOfYear n = 365) : isLeap (marchYear n + 1) = true := by
  obtain ⟨-, -, he⟩ := yearOfEra_spec (doe_spec n)
  rw [dayOfYear_eq] at h
  unfold isLeap marchYear
  simp only [decide_eq_true_eq]
  generalize yearOfEra ((n + 719468) % 146097) = y at *
  unfold eraYearStart at h he
  rw [ediv_succ (k := 4) (by omega), ediv_succ (k := 100) (by omega), ediv_succ (k := 400) (by omega)] at he
  split at he <;> split at he <;> split at he <;> omega

theorem civil_valid (n : Int) : (civil n).Valid := by
  obtain ⟨h0, h365⟩ := dayOfYear_bounds n
  have hl := isLeap_of_dayOfYear (n := n)
  have hm : 0 ≤ marchMonth (dayOfYear n) ∧ marchMonth (dayOfYear n) ≤ 11 := by
    unfold marchMonth
    omega
  have hd : 153 * marchMonth (dayOfYear n) ≤ 5 * dayOfYear n + 2 ∧
      5 * dayOfYear n + 2 < 153 * marchMonth (dayOfYear n) + 153 := by
    unfold marchMonth
    omega
  rw [civil_eq]
  generalize marchMonth (dayOfYear n) = mp at *
  obtain ⟨hm0, hm11⟩ := hm
  by_cases h11 : mp = 11
  · subst h11
    refine ⟨by simp, by simp, by simp; omega, ?_⟩
    by_cases h : dayOfYear n = 365
    · simp [daysIn, hl h, h]
    · simp only [daysIn]
      simp
      split <;> omega
  · refine ⟨?_, ?_, ?_, ?_⟩
    · simp only
      split <;> omega
    · simp only
      split <;> omega
    · simp only
      omega
    · simp only [daysIn]
      interval_cases mp <;> simp at * <;> omega

def dayNumber (d : Date) : Int :=
  let y := if d.month ≤ 2 then d.year - 1 else d.year
  let mp := if d.month ≤ 2 then d.month + 9 else d.month - 3
  y / 400 * 146097 + (y % 400 * 365 + y % 400 / 4 - y % 400 / 100 + ((153 * mp + 2) / 5 + d.day - 1)) - 719468

theorem dayNumber_civil (n : Int) : dayNumber (civil n) = n := by
  obtain ⟨h0, h365⟩ := dayOfYear_bounds n
  have hm : 0 ≤ marchMonth (dayOfYear n) ∧ marchMonth (dayOfYear n) ≤ 11 := by
    unfold marchMonth
    omega
  obtain ⟨hy, -, -⟩ := yearOfEra_spec (doe_spec n)
  have hq : marchYear n / 400 = (n + 719468) / 146097 := by unfold marchYear; omega
  have hr : marchYear n % 400 = yearOfEra ((n + 719468) % 146097) := by unfold marchYear; omega
  have hd : dayNumber (civil n) = marchYear n / 400 * 146097 + (marchYear n % 400 * 365 + marchYear n % 400 / 4 -
      marchYear n % 400 / 100 + dayOfYear n) - 719468 := by
    rw [civil_eq]
    unfold dayNumber
    by_cases h : marchMonth (dayOfYear n) < 10
    · simp only [if_pos h]
      rw [if_neg (by omega), if_neg (by omega)]
      simp
      omega
    · simp only [if_neg h]
      rw [if_pos (by omega), if_pos (by omega)]
      simp
      omega
  rw [hd, hq, hr]
  unfold dayOfYear
  omega

/-! ## Digits -/

theorem parseNat_cons (c : UInt8) (s : Bytes) : parseNat (c :: s) = parseNat s + 10 ^ s.length * digitVal c := by
  simp [parseNat, Nat.ofDigits_append]

theorem digitVal_lt {c : UInt8} (h : isDigit c = true) : digitVal c < 10 := by
  have hd : ∀ c : UInt8, isDigit c = true → digitVal c < 10 := by decide +kernel
  exact hd c h

theorem parseNat_lt : ∀ {s : Bytes}, (∀ c ∈ s, isDigit c = true) → parseNat s < 10 ^ s.length
  | [], _ => by simp [parseNat]
  | c :: s, h => by
    have ih := parseNat_lt fun d hd => h d (List.mem_cons_of_mem _ hd)
    have hc := digitVal_lt (h c List.mem_cons_self)
    rw [parseNat_cons, List.length_cons, Nat.pow_succ]
    nlinarith

theorem parseNat_replicate_zero (k : Nat) (s : Bytes) : parseNat (List.replicate k 48 ++ s) = parseNat s := by
  induction k with
  | zero => rfl
  | succ k ih =>
    rw [List.replicate_succ, List.cons_append, parseNat_cons, ih]
    simp [digitVal]

theorem length_natDigits_le {n : Nat} (h : n < 10 ^ w) (hw : 0 < w) : (natDigits n).length ≤ w := by
  unfold natDigits
  split
  · exact hw
  · simpa using (Nat.digits_length_le_iff (by decide) n).mpr h

theorem length_padInt (h0 : 0 ≤ n) (h : n < 10 ^ w) (hw : 0 < w) : (padInt n w).length = w := by
  have hl : (natDigits n.natAbs).length ≤ w := length_natDigits_le (by zify; rwa [abs_of_nonneg h0]) hw
  simp only [padInt, if_neg (show ¬ n < 0 by omega), List.nil_append, List.length_append, List.length_replicate]
  omega

theorem isDigit_padInt (h0 : 0 ≤ n) : ∀ c ∈ padInt n w, isDigit c = true := by
  intro c hc
  simp only [padInt, if_neg (show ¬ n < 0 by omega), List.nil_append, List.mem_append, List.mem_replicate] at hc
  rcases hc with ⟨_, rfl⟩ | hc
  · decide
  · exact isDigit_of_mem_natDigits hc

theorem parseNat_padInt (h0 : 0 ≤ n) : (parseNat (padInt n w) : Int) = n := by
  simp only [padInt, if_neg (show ¬ n < 0 by omega), List.nil_append, parseNat_replicate_zero, parseNat_natDigits]
  omega

/-! ## Text order -/

def textLe : Bytes → Bytes → Bool
  | [], _ => true
  | _ :: _, [] => false
  | a :: s, b :: t => a < b || (a == b && textLe s t)

theorem textLe_refl : ∀ s : Bytes, textLe s s = true
  | [] => rfl
  | a :: s => by simp [textLe, textLe_refl s]

theorem textLe_cons {a b : UInt8} {s t : Bytes} :
    textLe (a :: s) (b :: t) = true ↔ a < b ∨ (a = b ∧ textLe s t = true) := by
  simp [textLe]

theorem textLe_total : ∀ s t : Bytes, textLe s t = true ∨ textLe t s = true
  | [], _ => Or.inl (by simp [textLe])
  | _ :: _, [] => Or.inr (by simp [textLe])
  | a :: s, b :: t => by
    rw [textLe_cons, textLe_cons]
    by_cases he : a = b
    · exact (textLe_total s t).imp (fun h => Or.inr ⟨he, h⟩) fun h => Or.inr ⟨he.symm, h⟩
    · by_cases hlt : a < b
      · exact Or.inl (Or.inl hlt)
      · exact Or.inr (Or.inl (UInt8.lt_of_le_of_ne (UInt8.not_lt.mp hlt) (Ne.symm he)))

theorem textLe_trans : ∀ {s t u : Bytes}, textLe s t = true → textLe t u = true → textLe s u = true
  | [], _, _, _, _ => by simp [textLe]
  | _ :: _, [], _, h, _ => by simp [textLe] at h
  | _ :: _, _ :: _, [], _, h => by simp [textLe] at h
  | a :: s, b :: t, c :: u, h, h' => by
    rw [textLe_cons] at h h' ⊢
    rcases h with h | ⟨rfl, h⟩
    · rcases h' with h' | ⟨rfl, h'⟩
      · exact Or.inl (UInt8.lt_trans h h')
      · exact Or.inl h
    · rcases h' with h' | ⟨rfl, h'⟩
      · exact Or.inl h'
      · exact Or.inr ⟨rfl, textLe_trans h h'⟩

theorem textLe_antisymm : ∀ {s t : Bytes}, textLe s t = true → textLe t s = true → s = t
  | [], [], _, _ => rfl
  | [], _ :: _, _, h => by simp [textLe] at h
  | _ :: _, [], h, _ => by simp [textLe] at h
  | a :: s, b :: t, h, h' => by
    rw [textLe_cons] at h h'
    rcases h with h | ⟨rfl, h⟩
    · rcases h' with h' | ⟨rfl, -⟩
      · exact absurd h (UInt8.lt_asymm h')
      · exact absurd h (UInt8.lt_irrefl _)
    · rcases h' with h' | ⟨-, h'⟩
      · exact absurd h' (UInt8.lt_irrefl _)
      · rw [textLe_antisymm h h']

theorem textLe_append : ∀ {a b : Bytes} (_ : a.length = b.length) (s t : Bytes),
    textLe (a ++ s) (b ++ t) = true ↔ (textLe a b = true ∧ a ≠ b) ∨ (a = b ∧ textLe s t = true)
  | [], [], _, s, t => by simp
  | x :: a, y :: b, h, s, t => by
    have ih := textLe_append (show a.length = b.length by simpa using h) s t
    simp only [List.cons_append, textLe_cons, ih]
    by_cases hx : x = y
    · subst hx
      simp
    · simp [hx]

theorem digitVal_lt_iff {c d : UInt8} (hc : isDigit c = true) (hd : isDigit d = true) :
    digitVal c < digitVal d ↔ c < d := by
  simp only [isDigit, Bool.and_eq_true, decide_eq_true_eq, UInt8.le_iff_toNat_le] at hc hd
  have h48 : (48 : UInt8).toNat = 48 := rfl
  rw [UInt8.lt_iff_toNat_lt, digitVal, digitVal]
  omega

theorem digitVal_inj {c d : UInt8} (hc : isDigit c = true) (hd : isDigit d = true) :
    digitVal c = digitVal d ↔ c = d := by
  simp only [isDigit, Bool.and_eq_true, decide_eq_true_eq, UInt8.le_iff_toNat_le] at hc hd
  have h48 : (48 : UInt8).toNat = 48 := rfl
  rw [← UInt8.toNat_inj, digitVal, digitVal]
  omega

theorem le_add_mul_iff {P x y i j : Nat} (hx : x < P) (hy : y < P) :
    x + P * i ≤ y + P * j ↔ i < j ∨ (i = j ∧ x ≤ y) := by
  rcases lt_trichotomy i j with h | rfl | h
  · have hm : P * (i + 1) ≤ P * j := Nat.mul_le_mul_left _ h
    rw [Nat.mul_succ] at hm
    omega
  · omega
  · have hm : P * (j + 1) ≤ P * i := Nat.mul_le_mul_left _ h
    rw [Nat.mul_succ] at hm
    omega

theorem textLe_digits : ∀ {s t : Bytes}, s.length = t.length → (∀ c ∈ s, isDigit c = true) →
    (∀ c ∈ t, isDigit c = true) → (textLe s t = true ↔ parseNat s ≤ parseNat t)
  | [], [], _, _, _ => by simp [textLe]
  | a :: s, b :: t, h, hs, ht => by
    have hl : s.length = t.length := by simpa using h
    have hs' : ∀ c ∈ s, isDigit c = true := fun c hc => hs c (List.mem_cons_of_mem _ hc)
    have ht' : ∀ c ∈ t, isDigit c = true := fun c hc => ht c (List.mem_cons_of_mem _ hc)
    have ha := hs a List.mem_cons_self
    have hb := ht b List.mem_cons_self
    rw [textLe_cons, textLe_digits hl hs' ht', parseNat_cons, parseNat_cons, hl,
      le_add_mul_iff (hl ▸ parseNat_lt hs') (parseNat_lt ht'), digitVal_lt_iff ha hb, digitVal_inj ha hb]

theorem textLe_padInt {a b : Int} (hw : 0 < w) (ha : 0 ≤ a ∧ a < 10 ^ w) (hb : 0 ≤ b ∧ b < 10 ^ w)
    (s t : Bytes) :
    textLe (padInt a w ++ s) (padInt b w ++ t) = true ↔ a < b ∨ (a = b ∧ textLe s t = true) := by
  have hla := length_padInt ha.1 ha.2 hw
  have hlb := length_padInt hb.1 hb.2 hw
  have hpa := parseNat_padInt (w := w) ha.1
  have hpb := parseNat_padInt (w := w) hb.1
  have heq : padInt a w = padInt b w ↔ a = b := by
    refine ⟨fun h => ?_, fun h => by rw [h]⟩
    rw [h] at hpa
    omega
  rw [textLe_append (hla.trans hlb.symm), textLe_digits (hla.trans hlb.symm) (isDigit_padInt ha.1)
    (isDigit_padInt hb.1), Ne, heq]
  refine or_congr ?_ Iff.rfl
  omega

/-! ## Dates as text -/

def fourDigit (days : Int) : Prop := 0 ≤ (civil days).year ∧ (civil days).year ≤ 9999

instance (days : Int) : Decidable (fourDigit days) := inferInstanceAs (Decidable (_ ∧ _))

theorem daysIn_le (m y : Int) : daysIn m y ≤ 31 := by
  unfold daysIn
  split
  · split <;> decide
  · split <;> decide

theorem formatDate_eq (t : Time) : formatDate t = padInt (civil (unixDay t)).year 4 ++
    45 :: (padInt (civil (unixDay t)).month 2 ++ 45 :: padInt (civil (unixDay t)).day 2) := by
  simp [formatDate]

/-- **Text order.** Dates of years with four digits are in the order of the days. -/
theorem textLe_formatDate {u : Time} (ht : fourDigit (unixDay t)) (hu : fourDigit (unixDay u)) :
    textLe (formatDate t) (formatDate u) = true ↔ unixDay t ≤ unixDay u := by
  obtain ⟨m1, m2, d1, d2⟩ := civil_valid (unixDay t)
  obtain ⟨m1', m2', d1', d2'⟩ := civil_valid (unixDay u)
  have h31 := daysIn_le (civil (unixDay t)).month (civil (unixDay t)).year
  have h31' := daysIn_le (civil (unixDay u)).month (civil (unixDay u)).year
  have hlast :=
    textLe_padInt (w := 2) (by decide) (show 0 ≤ (civil (unixDay t)).day ∧ (civil (unixDay t)).day < 10 ^ 2 by omega)
    (show 0 ≤ (civil (unixDay u)).day ∧ (civil (unixDay u)).day < 10 ^ 2 by omega) [] []
  obtain ⟨hy0, hy1⟩ := ht
  obtain ⟨hy0', hy1'⟩ := hu
  rw [← key_civil_le_iff]
  simp only [List.append_nil] at hlast
  rw [formatDate_eq, formatDate_eq, textLe_padInt (by decide) ⟨hy0, by omega⟩ ⟨hy0', by omega⟩, textLe_cons,
    textLe_padInt (by decide) ⟨by omega, by omega⟩ ⟨by omega, by omega⟩, textLe_cons, hlast]
  simp only [Date.key, textLe]
  simp
  omega

/-- `time.Parse("2006-01-02", s)`. -/
def parseDate (s : Bytes) : Option Time :=
  let y := s.take 4
  let m := (s.drop 5).take 2
  let d := s.drop 8
  let date : Date := { year := parseNat y, month := parseNat m, day := parseNat d }
  if s.length = 10 ∧ (s.drop 4).take 1 = [45] ∧ (s.drop 7).take 1 = [45] ∧
      (y ++ m ++ d).all isDigit = true ∧ date.Valid then some (dayNumber date * 86400000000000)
  else none

theorem civil_lt_hundred (n : Int) :
    (0 ≤ (civil n).month ∧ (civil n).month < 10 ^ 2) ∧ (0 ≤ (civil n).day ∧ (civil n).day < 10 ^ 2) := by
  obtain ⟨m1, m2, d1, d2⟩ := civil_valid n
  have h31 := daysIn_le (civil n).month (civil n).year
  omega

theorem length_civil (h : fourDigit n) : (padInt (civil n).year 4).length = 4 ∧
    (padInt (civil n).month 2).length = 2 ∧ (padInt (civil n).day 2).length = 2 := by
  obtain ⟨hm, hd⟩ := civil_lt_hundred n
  obtain ⟨hy0, hy1⟩ := h
  exact ⟨length_padInt hy0 (by omega) (by decide), length_padInt hm.1 hm.2 (by decide),
    length_padInt hd.1 hd.2 (by decide)⟩

theorem length_formatDate (h : fourDigit (unixDay t)) : (formatDate t).length = 10 := by
  obtain ⟨hy, hm, hd⟩ := length_civil h
  rw [formatDate_eq, List.length_append, List.length_cons, List.length_append, List.length_cons, hy, hm, hd]

theorem civil_year_mono {m : Int} (h : m ≤ n) : (civil m).year ≤ (civil n).year := by
  have hk : (civil m).key ≤ (civil n).key := (key_civil_le_iff m n).mpr h
  obtain ⟨hm1, hm12, hd1, hd⟩ := civil_valid m
  obtain ⟨hn1, hn12, he1, he⟩ := civil_valid n
  have hd31 := daysIn_le (civil m).month (civil m).year
  have he31 := daysIn_le (civil n).month (civil n).year
  unfold Date.key at hk
  omega

theorem textLe_formatDate_of_le {u : Time} (hu : fourDigit (unixDay u)) (h : unixDay t ≤ unixDay u) :
    textLe (formatDate t) (formatDate u) = true := by
  have hy := civil_year_mono h
  by_cases h0 : 0 ≤ (civil (unixDay t)).year
  · exact (textLe_formatDate ⟨h0, hy.trans hu.2⟩ hu).mpr h
  · have hl := (length_civil hu).1
    rw [formatDate_eq, formatDate_eq u]
    cases hp : padInt (civil (unixDay u)).year 4 with
    | nil => rw [hp] at hl; cases hl
    | cons c s =>
      have hc : isDigit c = true := isDigit_padInt hu.1 c (by rw [hp]; exact List.mem_cons_self)
      simp only [isDigit, Bool.and_eq_true, decide_eq_true_eq] at hc
      rw [padInt, if_pos (by omega)]
      exact textLe_cons.mpr (Or.inl (UInt8.lt_of_lt_of_le (show (45 : UInt8) < 48 by decide) hc.1))

theorem le_length_padInt (n : Int) (w : Nat) : w ≤ (padInt n w).length ∧ (n < 0 → w + 1 ≤ (padInt n w).length) := by
  by_cases h : n < 0
  · simp only [padInt, if_pos h, List.length_append, List.length_replicate, List.length_singleton]
    omega
  · simp only [padInt, if_neg h, List.nil_append, List.length_append, List.length_replicate]
    omega

theorem lt_of_length_padInt (h0 : 0 ≤ n) (h : (padInt n w).length = w) : n < 10 ^ w := by
  have hlt := parseNat_lt (isDigit_padInt h0 (w := w))
  have hp := parseNat_padInt h0 (w := w)
  rw [h] at hlt
  rw [← hp]
  exact_mod_cast hlt

theorem bounds_of_length_padInt (h : (padInt n w).length ≤ w) : 0 ≤ n ∧ n < 10 ^ w := by
  obtain ⟨hle, hneg⟩ := le_length_padInt n w
  have h0 : 0 ≤ n := by
    by_contra hlt
    have := hneg (by omega)
    omega
  exact ⟨h0, lt_of_length_padInt h0 (by omega)⟩

theorem fourDigit_iff (n : Int) : fourDigit n ↔ -719528 ≤ n ∧ n ≤ 2932896 := by
  have hlow : (civil (-719529)).year = -1 ∧ (civil (-719528)).year = 0 := by decide
  have hhigh : (civil 2932896).year = 9999 ∧ (civil 2932897).year = 10000 := by decide
  unfold fourDigit
  constructor
  · rintro ⟨h0, h1⟩
    constructor
    · by_contra hlt
      have := civil_year_mono (show n ≤ -719529 by omega)
      omega
    · by_contra hlt
      have := civil_year_mono (show 2932897 ≤ n by omega)
      omega
  · rintro ⟨h0, h1⟩
    have h2 := civil_year_mono h0
    have h3 := civil_year_mono h1
    omega

theorem padInt_inj {m : Int} (h : padInt m w = padInt n w) : m = n := by
  have hneg : ∀ {k : Int}, k < 0 → padInt k w = 45 :: padInt (-k) w := by
    intro k hk
    have habs : (-k).natAbs = k.natAbs := Int.natAbs_neg k
    simp only [padInt, if_pos hk, if_neg (show ¬ -k < 0 by omega), habs, List.nil_append, List.cons_append]
  have hdash : ∀ {k : Int} {s : Bytes}, 0 ≤ k → padInt k w ≠ 45 :: s := by
    intro k s hk he
    have hd := isDigit_padInt hk (w := w) 45 (by rw [he]; exact List.mem_cons_self)
    exact absurd hd (by decide)
  rcases lt_or_ge m 0 with hm | hm <;> rcases lt_or_ge n 0 with hn | hn
  · rw [hneg hm, hneg hn] at h
    have hp := congrArg (fun s => (parseNat s : Int)) (List.cons.inj h).2
    simp only [parseNat_padInt (w := w) (show 0 ≤ -m by omega), parseNat_padInt (w := w) (show 0 ≤ -n by omega)] at hp
    omega
  · rw [hneg hm] at h
    exact absurd h.symm (hdash hn)
  · rw [hneg hn] at h
    exact absurd h (hdash hm)
  · have hp := congrArg (fun s => (parseNat s : Int)) h
    simpa only [parseNat_padInt (w := w) hm, parseNat_padInt (w := w) hn] using hp

theorem unixDay_of_formatDate {u : Time} (h : formatDate t = formatDate u) : unixDay t = unixDay u := by
  obtain ⟨hm, hd⟩ := civil_lt_hundred (unixDay t)
  obtain ⟨hm', hd'⟩ := civil_lt_hundred (unixDay u)
  have hml := length_padInt hm.1 hm.2 (by decide)
  have hml' := length_padInt hm'.1 hm'.2 (by decide)
  have hdl := length_padInt hd.1 hd.2 (by decide)
  have hdl' := length_padInt hd'.1 hd'.2 (by decide)
  rw [formatDate_eq, formatDate_eq] at h
  obtain ⟨hyear, h⟩ := List.append_inj' h (by simp [hml, hml', hdl, hdl'])
  obtain ⟨hmonth, h⟩ := List.append_inj (List.cons.inj h).2 (hml.trans hml'.symm)
  have hday := (List.cons.inj h).2
  have hkey : (civil (unixDay t)).key = (civil (unixDay u)).key := by
    unfold Date.key
    rw [padInt_inj hyear, padInt_inj hmonth, padInt_inj hday]
  exact le_antisymm ((key_civil_le_iff _ _).mp hkey.le) ((key_civil_le_iff _ _).mp hkey.ge)

/-- **Round trip.** A formatted date is parsed as its midnight. -/
theorem parseDate_formatDate (h : fourDigit (unixDay t)) :
    parseDate (formatDate t) = some (unixDay t * 86400000000000) := by
  obtain ⟨hy, hm, hd⟩ := length_civil h
  obtain ⟨hm0, hd0⟩ := civil_lt_hundred (unixDay t)
  have hyt : (formatDate t).take 4 = padInt (civil (unixDay t)).year 4 := by
    simp [formatDate_eq, hy]
  have hmt : ((formatDate t).drop 5).take 2 = padInt (civil (unixDay t)).month 2 := by
    simp [formatDate_eq, List.take_append, List.drop_append, hy, hm]
  have hdt : (formatDate t).drop 8 = padInt (civil (unixDay t)).day 2 := by
    simp [formatDate_eq, List.drop_append, List.drop_eq_nil_of_le, hy, hm]
  have hs1 : ((formatDate t).drop 4).take 1 = [45] := by
    simp [formatDate_eq, List.take_append, hy]
  have hs2 : ((formatDate t).drop 7).take 1 = [45] := by
    simp [formatDate_eq, List.take_append, List.drop_append, hy, hm]
  have hdig : (padInt (civil (unixDay t)).year 4 ++ padInt (civil (unixDay t)).month 2 ++
      padInt (civil (unixDay t)).day 2).all isDigit = true := by
    simp only [List.all_append, Bool.and_eq_true, List.all_eq_true]
    exact ⟨⟨isDigit_padInt h.1, isDigit_padInt hm0.1⟩, isDigit_padInt hd0.1⟩
  simp only [parseDate, hyt, hmt, hdt, parseNat_padInt h.1, parseNat_padInt hm0.1, parseNat_padInt hd0.1]
  rw [if_pos ⟨length_formatDate h, hs1, hs2, hdig, civil_valid _⟩, dayNumber_civil]

end Go
