import Logalot.Lib.Shortest
import Logalot.Lib.Strconv

/-!
# Writing floating-point numbers

`strconv.FormatFloat` with format `f` and precision -1: the shortest decimal that
rounds to the double, without an exponent. For integers both roundings are of
integers: to a significand of 53 bits, with ties to even, and back to decimals.
-/

namespace Go

open Shortest

/-! ## Rounding of integers -/

/-- To the nearest multiple of `2 ^ e`, ties to the even one. -/
def roundAt (e n : Nat) : Nat :=
  let q := n / 2 ^ e
  let r := n % 2 ^ e
  2 ^ e * if 2 * r < 2 ^ e then q else if 2 ^ e < 2 * r then q + 1 else q + q % 2

/-- To the nearest integer with a significand of 53 bits, ties to even. -/
def roundSig (n : Nat) : Nat := roundAt (Nat.log2 n - 52) n

section
variable {e m n : Nat}

theorem roundAt_dvd (e n : Nat) : 2 ^ e ∣ roundAt e n := Nat.dvd_mul_right _ _

theorem roundAt_of_dvd (h : 2 ^ e ∣ n) : roundAt e n = n := by
  have hr : n % 2 ^ e = 0 := Nat.mod_eq_zero_of_dvd h
  have hpos : 0 < 2 ^ e := Nat.two_pow_pos e
  rw [roundAt]
  rw [hr, Nat.mul_zero, if_pos hpos, Nat.mul_div_cancel' h]

theorem roundAt_near (e n : Nat) : 2 * roundAt e n ≤ 2 * n + 2 ^ e ∧ 2 * n ≤ 2 * roundAt e n + 2 ^ e := by
  have hdiv := Nat.div_add_mod n (2 ^ e)
  have hlt := Nat.mod_lt n (Nat.two_pow_pos e)
  have hparity : n / 2 ^ e % 2 < 2 := Nat.mod_lt _ (by decide)
  rw [roundAt]
  generalize n / 2 ^ e = q at *
  generalize n % 2 ^ e = r at *
  generalize 2 ^ e = u at *
  by_cases h1 : 2 * r < u
  · rw [if_pos h1]
    omega
  · by_cases h2 : u < 2 * r
    · rw [if_neg h1, if_pos h2, Nat.mul_succ]
      omega
    · rw [if_neg h1, if_neg h2, Nat.mul_add]
      obtain hp | hp : q % 2 = 0 ∨ q % 2 = 1 := by omega
      · rw [hp]
        omega
      · rw [hp]
        omega

theorem roundAt_bounds (e n : Nat) : 2 ^ e * (n / 2 ^ e) ≤ roundAt e n ∧ roundAt e n ≤ 2 ^ e * (n / 2 ^ e + 1) := by
  have hparity : n / 2 ^ e % 2 < 2 := Nat.mod_lt _ (by decide)
  rw [roundAt]
  by_cases h1 : 2 * (n % 2 ^ e) < 2 ^ e
  · rw [if_pos h1]
    exact ⟨Nat.le_refl _, Nat.mul_le_mul_left _ (Nat.le_succ _)⟩
  · rw [if_neg h1]
    by_cases h2 : 2 ^ e < 2 * (n % 2 ^ e)
    · rw [if_pos h2]
      exact ⟨Nat.mul_le_mul_left _ (Nat.le_succ _), Nat.le_refl _⟩
    · rw [if_neg h2]
      exact ⟨Nat.mul_le_mul_left _ (by omega), Nat.mul_le_mul_left _ (by omega)⟩

theorem roundAt_mono (h : n ≤ m) : roundAt e n ≤ roundAt e m := by
  have hq : n / 2 ^ e ≤ m / 2 ^ e := Nat.div_le_div_right h
  by_cases heq : n / 2 ^ e = m / 2 ^ e
  · -- the same two multiples lie around both
    have hr : n % 2 ^ e ≤ m % 2 ^ e := by
      have hn := Nat.div_add_mod n (2 ^ e)
      have hm := Nat.div_add_mod m (2 ^ e)
      rw [heq] at hn
      omega
    rw [roundAt, roundAt, heq]
    refine Nat.mul_le_mul_left _ ?_
    have hparity : m / 2 ^ e % 2 < 2 := Nat.mod_lt _ (by decide)
    by_cases h1 : 2 * (n % 2 ^ e) < 2 ^ e
    · rw [if_pos h1]
      split_ifs <;> omega
    · have h1' : ¬ 2 * (m % 2 ^ e) < 2 ^ e := by omega
      rw [if_neg h1, if_neg h1']
      split_ifs <;> omega
  · calc
      roundAt e n ≤ 2 ^ e * (n / 2 ^ e + 1) := (roundAt_bounds e n).2
      _ ≤ 2 ^ e * (m / 2 ^ e) := Nat.mul_le_mul_left _ (by omega)
      _ ≤ roundAt e m := (roundAt_bounds e m).1

/-! ## The binade of a number -/

theorem roundSig_zero : roundSig 0 = 0 := by decide

theorem roundSig_bounds (hn : n ≠ 0) : 2 ^ Nat.log2 n ≤ roundSig n ∧ roundSig n ≤ 2 ^ (Nat.log2 n + 1) := by
  have hlo : roundAt (Nat.log2 n - 52) (2 ^ Nat.log2 n) = 2 ^ Nat.log2 n :=
    roundAt_of_dvd (Nat.pow_dvd_pow 2 (Nat.sub_le _ _))
  have hhi : roundAt (Nat.log2 n - 52) (2 ^ (Nat.log2 n + 1)) = 2 ^ (Nat.log2 n + 1) :=
    roundAt_of_dvd (Nat.pow_dvd_pow 2 (by omega))
  constructor
  · rw [← hlo]
    exact roundAt_mono (Nat.log2_self_le hn)
  · rw [← hhi]
    exact roundAt_mono (Nat.le_of_lt Nat.lt_log2_self)

theorem roundSig_ne_zero (hn : n ≠ 0) : roundSig n ≠ 0 := by
  have hlow := (roundSig_bounds hn).1
  have hpos := Nat.two_pow_pos (Nat.log2 n)
  omega

theorem roundSig_mono (h : n ≤ m) : roundSig n ≤ roundSig m := by
  by_cases hn : n = 0
  · rw [hn, roundSig_zero]
    exact Nat.zero_le _
  have hm : m ≠ 0 := by omega
  have hlog : Nat.log2 n ≤ Nat.log2 m := (Nat.le_log2 hm).mpr (Nat.le_trans (Nat.log2_self_le hn) h)
  by_cases heq : Nat.log2 n = Nat.log2 m
  · rw [roundSig, roundSig, heq]
    exact roundAt_mono h
  · calc
      roundSig n ≤ 2 ^ (Nat.log2 n + 1) := (roundSig_bounds hn).2
      _ ≤ 2 ^ Nat.log2 m := Nat.pow_le_pow_right (by decide) (by omega)
      _ ≤ roundSig m := (roundSig_bounds hm).1

theorem roundSig_of_lt (h : n < 2 ^ 53) : roundSig n = n := by
  have he : Nat.log2 n - 52 = 0 := by
    by_cases hn : n = 0
    · rw [hn]
      decide
    · have := (Nat.log2_lt hn).mpr h
      omega
  rw [roundSig, he]
  exact roundAt_of_dvd (Nat.one_dvd n)

theorem eq_of_roundSig_eq (h : n < 2 ^ 53) (hm : roundSig m = roundSig n) : m = n := by
  rw [roundSig_of_lt h] at hm
  by_cases hlt : m < 2 ^ 53
  · rw [roundSig_of_lt hlt] at hm
    exact hm
  · have hmono := roundSig_mono (Nat.le_of_not_lt hlt)
    have hpow : roundSig (2 ^ 53) = 2 ^ 53 := by decide
    omega

theorem roundSig_dvd (n : Nat) : 2 ^ (Nat.log2 (roundSig n) - 52) ∣ roundSig n := by
  by_cases hn : n = 0
  · rw [hn, roundSig_zero]
    exact Nat.dvd_zero _
  obtain ⟨hlo, hhi⟩ := roundSig_bounds hn
  have hne := roundSig_ne_zero hn
  by_cases heq : roundSig n = 2 ^ (Nat.log2 n + 1)
  · rw [heq, Nat.log2_two_pow]
    exact Nat.pow_dvd_pow 2 (Nat.sub_le _ _)
  · have hlog : Nat.log2 (roundSig n) = Nat.log2 n := by
      have h1 := (Nat.le_log2 hne).mpr hlo
      have h2 := (Nat.log2_lt hne).mpr (Nat.lt_of_le_of_ne hhi heq)
      omega
    rw [hlog]
    exact roundAt_dvd _ n

theorem roundSig_roundSig (n : Nat) : roundSig (roundSig n) = roundSig n := roundAt_of_dvd (roundSig_dvd n)

end

/-! ## The numbers that round to a double -/

theorem two_pow_lt_ten_pow {j e : Nat} (h : 10 ^ (j + 1) ≤ 2 ^ e) : j + 1 < e := by
  have hlt : 2 ^ (j + 1) < 10 ^ (j + 1) := Nat.pow_lt_pow_left (by decide) (by omega)
  exact (Nat.pow_lt_pow_iff_right (by decide)).mp (Nat.lt_of_lt_of_le hlt h)

theorem not_two_pow_dvd_ten_pow (j : Nat) : ¬ 2 ^ (j + 1) ∣ 10 ^ j := by
  intro hd
  have h5 : 10 ^ j = 2 ^ j * 5 ^ j := by rw [← Nat.mul_pow]
  rw [h5, Nat.pow_succ] at hd
  have h2 : 2 ∣ 5 ^ j := Nat.dvd_of_mul_dvd_mul_left (Nat.two_pow_pos j) hd
  have hodd : 5 ^ j % 2 = 1 := by simp [Nat.pow_mod]
  omega

theorem roundSig_no_tie {n j lo : Nat} (hn : n ≠ 0) (h : roundSig (lo + 10 ^ (j + 1)) = roundSig n)
    (hd : 10 ^ (j + 1) ∣ lo) : 2 * roundSig n ≠ 2 * lo + 10 ^ (j + 1) := by
  intro htie
  have hdvd := roundSig_dvd n
  have hv := roundSig_ne_zero hn
  have hten : 0 < 10 ^ (j + 1) := Nat.pow_pos (by decide)
  generalize roundSig n = v at *
  have hhi : lo + 10 ^ (j + 1) ≠ 0 := by omega
  have hlog : Nat.log2 (lo + 10 ^ (j + 1)) = Nat.log2 v := by
    have hle : Nat.log2 v ≤ Nat.log2 (lo + 10 ^ (j + 1)) :=
      (Nat.le_log2 hhi).mpr (Nat.le_trans (Nat.log2_self_le hv) (by omega))
    have hlt : ¬ Nat.log2 v < Nat.log2 (lo + 10 ^ (j + 1)) := by
      intro hlt
      have hpow : 2 ^ (Nat.log2 v + 1) ≤ 2 ^ Nat.log2 (lo + 10 ^ (j + 1)) := Nat.pow_le_pow_right (by decide) hlt
      have hlow := (roundSig_bounds hhi).1
      have hup := Nat.lt_log2_self (n := v)
      omega
    omega
  have hnear := (roundAt_near (Nat.log2 (lo + 10 ^ (j + 1)) - 52) (lo + 10 ^ (j + 1))).2
  have hround : roundAt (Nat.log2 (lo + 10 ^ (j + 1)) - 52) (lo + 10 ^ (j + 1)) = v := h
  rw [hround, hlog] at hnear
  have hexp : j + 1 < Nat.log2 v - 52 := two_pow_lt_ten_pow (by omega)
  have hdv : 2 ^ (j + 2) ∣ 2 * v := Nat.dvd_mul_left_of_dvd (Nat.dvd_trans (Nat.pow_dvd_pow 2 hexp) hdvd) 2
  have hdlo : 2 ^ (j + 2) ∣ 2 * lo := by
    rw [Nat.pow_succ, Nat.mul_comm]
    exact Nat.mul_dvd_mul_left 2 (Nat.dvd_trans (pow_dvd_pow_of_dvd (by decide) (j + 1)) hd)
  rw [htie] at hdv
  exact not_two_pow_dvd_ten_pow (j + 1) ((Nat.dvd_add_right hdlo).mp hdv)

theorem around_roundSig {n : Nat} (hn : n ≠ 0) : Around (fun m => roundSig m = roundSig n) (roundSig n) := by
  have hpos := roundSig_ne_zero hn
  refine ⟨?_, fun a b c ha hc hab hbc => ?_, ?_, fun m hm => ?_, fun j lo hhi hd => ?_⟩
  · simp [roundSig_roundSig]
  · have h1 := roundSig_mono hab
    have h2 := roundSig_mono hbc
    simp only [decide_eq_true_eq] at ha hc ⊢
    omega
  · simp [roundSig_zero, Ne.symm hpos]
  · simp only [decide_eq_true_eq] at hm
    by_cases hm0 : m = 0
    · omega
    · have hup := Nat.lt_log2_self (n := m)
      have hlow := (roundSig_bounds hm0).1
      rw [Nat.pow_succ] at hup
      omega
  · exact roundSig_no_tie hn (by simpa using hhi) hd

/-! ## Doubles that are integers -/

theorem roundEven_intCast (z : ℤ) : roundEven z = z := by
  unfold roundEven
  rw [Int.floor_intCast, sub_self, if_pos (by norm_num)]

theorem roundEven_div (n u : Nat) (hu : 0 < u) : roundEven ((n : ℚ) / u) =
    ((if 2 * (n % u) < u then n / u else if u < 2 * (n % u) then n / u + 1 else n / u + n / u % 2 : Nat) : ℤ) := by
  have hfloor : ⌊(n : ℚ) / u⌋ = ((n / u : Nat) : ℤ) := by
    rw [Rat.floor_natCast_div_natCast]
    rfl
  have huq : (0 : ℚ) < u := by exact_mod_cast hu
  have hfrac : (n : ℚ) / u - ((n / u : Nat) : ℤ) = ((n % u : Nat) : ℚ) / u := by
    have hdiv : (n : ℚ) = u * ((n / u : Nat) : ℚ) + ((n % u : Nat) : ℚ) := by exact_mod_cast (Nat.div_add_mod n u).symm
    rw [Int.cast_natCast, eq_div_iff (ne_of_gt huq), sub_mul, div_mul_cancel₀ _ (ne_of_gt huq)]
    linarith
  have hlt : (n : ℚ) / u - ((n / u : Nat) : ℤ) < 1 / 2 ↔ 2 * (n % u) < u := by
    rw [hfrac, div_lt_div_iff₀ huq (by norm_num), one_mul, mul_comm]
    exact_mod_cast Iff.rfl
  have hgt : 1 / 2 < (n : ℚ) / u - ((n / u : Nat) : ℤ) ↔ u < 2 * (n % u) := by
    rw [hfrac, div_lt_div_iff₀ (by norm_num) huq, one_mul, mul_comm]
    exact_mod_cast Iff.rfl
  unfold roundEven
  rw [hfloor]
  by_cases h1 : 2 * (n % u) < u
  · rw [if_pos (hlt.mpr h1), if_pos h1]
  · rw [if_neg (mt hlt.mp h1), if_neg h1]
    by_cases h2 : u < 2 * (n % u)
    · rw [if_pos (hgt.mpr h2), if_pos h2]
      push_cast
      rfl
    · rw [if_neg (mt hgt.mp h2), if_neg h2]
      push_cast
      rfl

theorem nearestDouble_natCast (n : Nat) :
    nearestDouble n = if 2 ^ 1024 ≤ roundSig n then none else some (roundSig n : ℚ) := by
  by_cases hn : n = 0
  · subst hn
    decide +kernel
  have hlead : (2 : ℚ) ^ ((Nat.log2 n : ℤ) - 0) ≤ n := by
    rw [sub_zero, zpow_natCast]
    exact_mod_cast Nat.log2_self_le hn
  have hvalue : (roundEven ((n : ℚ) / 2 ^ max ((Nat.log2 n : ℤ) - 0 - 52) (-1074)) : ℚ) *
      2 ^ max ((Nat.log2 n : ℤ) - 0 - 52) (-1074) = roundSig n := by
    rw [sub_zero, max_eq_left (by omega)]
    by_cases hk : 52 ≤ Nat.log2 n
    · have he : (Nat.log2 n : ℤ) - 52 = ((Nat.log2 n - 52 : Nat) : ℤ) := by omega
      rw [he, zpow_natCast]
      have hpow : (2 : ℚ) ^ (Nat.log2 n - 52) = ((2 ^ (Nat.log2 n - 52) : Nat) : ℚ) := by push_cast; rfl
      rw [hpow, roundEven_div n _ (Nat.two_pow_pos _), Int.cast_natCast, ← Nat.cast_mul, mul_comm]
      rfl
    · have he : (Nat.log2 n : ℤ) - 52 = -((52 - Nat.log2 n : Nat) : ℤ) := by omega
      have hsmall : roundSig n = n :=
        roundSig_of_lt (lt_of_lt_of_le Nat.lt_log2_self (Nat.pow_le_pow_right (by decide) (by omega)))
      have hint : (n : ℚ) / 2 ^ ((Nat.log2 n : ℤ) - 52) = ((n * 2 ^ (52 - Nat.log2 n) : ℤ) : ℚ) := by
        rw [he, zpow_neg, zpow_natCast, div_inv_eq_mul]
        push_cast
        rfl
      rw [hint, roundEven_intCast, ← hint, div_mul_cancel₀ _ (zpow_ne_zero _ (by norm_num)), hsmall]
  unfold nearestDouble
  rw [Nat.abs_cast]
  dsimp only
  have hone : ((Nat.log2 1 : Nat) : ℤ) = 0 := rfl
  have hpos : ¬ (n : ℚ) < 0 := by simp
  rw [Rat.num_natCast, Rat.den_natCast, Int.natAbs_natCast, hone, if_pos hlead, hvalue, if_neg hpos]
  by_cases hover : 2 ^ 1024 ≤ roundSig n
  · rw [if_pos hover, if_pos (by exact_mod_cast hover)]
  · rw [if_neg hover, if_neg (by exact_mod_cast hover)]

theorem nearestDouble_neg {q : ℚ} (hq : 0 < q) : nearestDouble (-q) = (nearestDouble q).map Neg.neg := by
  unfold nearestDouble
  simp only [abs_neg, if_pos (neg_lt_zero.mpr hq), if_neg (not_lt.mpr hq.le)]
  split_ifs <;> rfl

/-! ## Reading integers -/

theorem parseNat_concat (s : Bytes) (c : UInt8) : parseNat (s ++ [c]) = parseNat s * 10 + digitVal c := by
  simp [parseNat, Nat.ofDigits_cons, Nat.mul_comm, Nat.add_comm]

theorem foldl_digits (s : Bytes) : s.foldl (fun v c => v * 10 + digitVal c) 0 = parseNat s := by
  induction s using List.reverseRecOn with
  | nil => rfl
  | append_singleton s c ih => rw [List.foldl_concat, ih, parseNat_concat]

theorem scanMantissa_digits {s : Bytes} (hs : s.all isDigit = true) (m : Mantissa) (hdot : m.sawDot = false) :
    scanMantissa false m s =
      ({ m with value := s.foldl (fun v c => v * 10 + digitVal c) m.value, sawDigits := m.sawDigits || !s.isEmpty },
        []) := by
  induction s generalizing m with
  | nil => simp [scanMantissa]
  | cons c s ih =>
    obtain ⟨hc, hs⟩ := Bool.and_eq_true_iff.mp hs
    have hbytes : ∀ c, isDigit c = true → c ≠ 95 ∧ c ≠ 46 := by decide +kernel
    obtain ⟨h1, h2⟩ := hbytes c hc
    have ih' := fun m hm => ih hs m hm
    simp [scanMantissa, h1, h2, floatDigit, hc, ih', hdot]

theorem natDigits_cases (n : Nat) : natDigits n = [48] ∨
    ∃ c s, natDigits n = c :: s ∧ c ≠ 48 ∧ isDigit c = true ∧ s.all isDigit = true := by
  by_cases hn : n = 0
  · left
    rw [hn]
    rfl
  right
  have hdigit : ∀ c ∈ natDigits n, isDigit c = true := fun _ => isDigit_of_mem_natDigits
  cases hcs : natDigits n with
  | nil => exact absurd hcs (natDigits_ne_nil n)
  | cons c s =>
    rw [hcs] at hdigit
    refine ⟨c, s, rfl, ?_, hdigit c List.mem_cons_self,
      List.all_eq_true.mpr fun d hd => hdigit d (List.mem_cons_of_mem _ hd)⟩
    have hhead : (natDigits n).head? = some c := by rw [hcs, List.head?_cons]
    have hne : Nat.digits 10 n ≠ [] := by simpa [Nat.digits_eq_nil_iff_eq_zero] using hn
    rw [natDigits, if_neg hn, List.head?_reverse, List.getLast?_map, List.getLast?_eq_some_getLast hne] at hhead
    have hc : digitByte ((Nat.digits 10 n).getLast hne) = c := by simpa using hhead
    have hlt : (Nat.digits 10 n).getLast hne < 10 := Nat.digits_lt_base (by decide) (List.getLast_mem hne)
    have hnz : (Nat.digits 10 n).getLast hne ≠ 0 := Nat.getLast_digit_ne_zero 10 hn
    rintro rfl
    have hval := digitVal_digitByte hlt
    rw [hc] at hval
    exact hnz hval.symm

theorem all_isDigit_natDigits (n : Nat) : (natDigits n).all isDigit = true :=
  List.all_eq_true.mpr fun _ => isDigit_of_mem_natDigits

theorem hexPrefix_natDigits (n : Nat) : hexPrefix (natDigits n) = none := by
  obtain h | ⟨c, s, h, hc, -, -⟩ := natDigits_cases n
  · rw [h]
    rfl
  · rw [h]
    unfold hexPrefix
    split
    · rename_i heq
      cases heq
      exact absurd rfl hc
    · rfl

theorem special_digits {s : Bytes} (hs : s.all isDigit = true) : special s = none ∧ special (45 :: s) = none := by
  have hbytes : ∀ c, isDigit c = true → c ≠ 43 ∧ c ≠ 45 ∧ lower c ≠ 105 ∧ lower c ≠ 110 := by decide +kernel
  cases s with
  | nil => exact ⟨rfl, by decide⟩
  | cons c s =>
    obtain ⟨hc, -⟩ := Bool.and_eq_true_iff.mp hs
    obtain ⟨h1, h2, h3, h4⟩ := hbytes c hc
    have hlen : commonPrefixLenIgnoreCase (c :: s) (bs "infinity") = 0 := by
      have hbs : bs "infinity" = 105 :: bs "nfinity" := rfl
      rw [hbs, commonPrefixLenIgnoreCase, if_neg h3]
    refine ⟨?_, ?_⟩
    · simp [special, h1, h2, h3, h4]
    · simp [special, afterInfinity, hlen]

theorem readSign_digits {s : Bytes} (hs : s.all isDigit = true) : readSign s = (false, s) := by
  unfold readSign
  split
  · cases hs
  · cases hs
  · rfl

theorem readFloat_natDigits (n : Nat) : readFloat (natDigits n) = some ((n : ℚ), []) ∧
    readFloat (45 :: natDigits n) = some (-(n : ℚ), []) := by
  have hmantissa := scanMantissa_digits (all_isDigit_natDigits n) {} rfl
  rw [foldl_digits, parseNat_natDigits] at hmantissa
  have hempty : (natDigits n).isEmpty = false := by simpa using natDigits_ne_nil n
  have hsign := readSign_digits (all_isDigit_natDigits n)
  have hminus : readSign (45 :: natDigits n) = (true, natDigits n) := rfl
  constructor
  · simp [readFloat, hsign, hexPrefix_natDigits, hmantissa, hempty]
  · simp [readFloat, hminus, hexPrefix_natDigits, hmantissa, hempty]

theorem parseFloat_natDigits (n : Nat) : parseFloat (natDigits n) =
    if 2 ^ 1024 ≤ roundSig n then .error .errRange else .ok (.fin (roundSig n)) := by
  rw [parseFloat, (special_digits (all_isDigit_natDigits n)).1, (readFloat_natDigits n).1]
  dsimp only
  rw [nearestDouble_natCast, if_neg (not_not.mpr rfl)]
  split_ifs <;> rfl

theorem parseFloat_minus_natDigits {n : Nat} (hn : 0 < n) : parseFloat (45 :: natDigits n) =
    if 2 ^ 1024 ≤ roundSig n then .error .errRange else .ok (.fin (-roundSig n)) := by
  rw [parseFloat, (special_digits (all_isDigit_natDigits n)).2, (readFloat_natDigits n).2]
  dsimp only
  rw [nearestDouble_neg (by exact_mod_cast hn), nearestDouble_natCast, if_neg (not_not.mpr rfl)]
  split_ifs <;> rfl

/-! ## Writing -/

/-- `FormatFloat(v, 'f', -1, 64)`. The double times `10 ^ s` is an integer; the shortest one that rounds to the double
is written with a point before its last `s` digits. A double that is zero may be negative. -/
def formatFixed (negative : Bool) (v : ℚ) : Bytes :=
  let a := |v|
  let s := Nat.log2 a.den
  let r := shortest (fun m => nearestDouble ((m : ℚ) / 10 ^ s) = some a) (a * 10 ^ s).num.natAbs
  let fraction := ((padInt (r % 10 ^ s : Nat) s).reverse.dropWhile (· = 48)).reverse
  (if negative then [45] else []) ++ natDigits (r / 10 ^ s) ++ if fraction = [] then [] else 46 :: fraction

theorem formatFixed_of_abs {n : Nat} (hn : roundSig n < 2 ^ 1024) {v : ℚ} (hv : |v| = roundSig n) (negative : Bool) :
    formatFixed negative v = (if negative then [45] else []) ++
      natDigits (shortest (fun m => roundSig m = roundSig n) (roundSig n)) := by
  have hok : (fun m : Nat => decide (nearestDouble ((m : ℚ) / 10 ^ 0) = some (roundSig n : ℚ))) =
      fun m => decide (roundSig m = roundSig n) := by
    funext m
    rw [pow_zero, div_one, nearestDouble_natCast]
    by_cases hm : 2 ^ 1024 ≤ roundSig m
    · have hne : roundSig m ≠ roundSig n := by omega
      rw [if_pos hm]
      simp [hne]
    · rw [if_neg hm]
      simp
  have hnum : ((roundSig n : ℚ) * 10 ^ 0).num.natAbs = roundSig n := by
    rw [pow_zero, mul_one, Rat.num_natCast, Int.natAbs_natCast]
  have hlog : Nat.log2 (roundSig n : ℚ).den = 0 := by
    rw [Rat.den_natCast]
    rfl
  unfold formatFixed
  dsimp only
  rw [hv, hlog, hok, hnum, Nat.pow_zero, Nat.mod_one, Nat.div_one]
  have hfraction : ((padInt ((0 : Nat) : ℤ) 0).reverse.dropWhile (· = 48)).reverse = [] := by decide
  rw [hfraction, if_pos rfl, List.append_nil]

end Go
