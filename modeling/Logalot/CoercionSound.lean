import Mathlib.Data.List.TakeWhile
import Logalot.Coercion

/-!
# Numbers in labels: which integers keep their text

An integer that no double is near to is no number for the decoder, and its text is
kept. Any other is rounded to a double, of which the shortest decimal is written.
-/

namespace Logalot

open Go Shortest

/-! ## An integer as JSON -/

theorem scanNumber_natDigits (n : Nat) :
    Json.scanNumber (natDigits n) = some [] ∧ Json.scanNumber (45 :: natDigits n) = some [] := by
  obtain h | ⟨c, s, h, hc, hdigit, hs⟩ := natDigits_cases n
  · rw [h]
    exact ⟨rfl, rfl⟩
  · have hdrop : s.dropWhile isDigit = [] := List.dropWhile_eq_nil_iff.mpr (List.all_eq_true.mp hs)
    have hscan : Json.scanDigits (c :: s) = some [] := by rw [Json.scanDigits, if_pos hdigit, hdrop]
    have hminus : c ≠ 45 := by
      rintro rfl
      cases hdigit
    rw [h]
    unfold Json.scanNumber
    constructor
    · simp [hc, hminus, hscan, Json.scanFraction, Json.scanExponent]
    · simp [hc, hscan, Json.scanFraction, Json.scanExponent]

theorem scanNumber_itoa (z : Int) : Json.scanNumber (itoa z) = some [] := by
  unfold itoa
  by_cases hz : z < 0
  · rw [if_pos hz]
    exact (scanNumber_natDigits z.natAbs).2
  · rw [if_neg hz]
    exact (scanNumber_natDigits z.natAbs).1

theorem itoa_head (z : Int) : ∃ c s, itoa z = c :: s ∧ (c = 45 ∨ isDigit c = true) := by
  unfold itoa
  by_cases hz : z < 0
  · rw [if_pos hz]
    exact ⟨45, _, rfl, .inl rfl⟩
  · rw [if_neg hz]
    cases h : natDigits z.natAbs with
    | nil => exact absurd h (natDigits_ne_nil _)
    | cons c s => exact ⟨c, s, rfl, .inr (isDigit_of_mem_natDigits (by rw [h]; exact List.mem_cons_self))⟩

theorem parse_itoa (z : Int) : Json.parse (itoa z) = some (.number (itoa z)) := by
  obtain ⟨c, s, h, hc⟩ := itoa_head z
  have hbytes : ∀ c, (c = 45 ∨ isDigit c = true) → (c == 32 || c == 9 || c == 10 || c == 13) = false ∧
      c ≠ 34 ∧ c ≠ 123 ∧ c ≠ 91 ∧ c ≠ 110 ∧ c ≠ 116 ∧ c ≠ 102 := by decide +kernel
  obtain ⟨hws, h1, h2, h3, h4, h5, h6⟩ := hbytes c hc
  have hskip : Json.skipWs (c :: s) = c :: s := by
    rw [Json.skipWs, List.dropWhile_cons_of_neg]
    simp [hws]
  have hnumber := scanNumber_itoa z
  rw [h] at hnumber ⊢
  have hscan : Json.scanValue (2 * (c :: s).length + 1) Json.maxNestingDepth (c :: s) =
      some (.number (c :: s), []) := by
    unfold Json.scanValue
    simp only [h1, h2, h3, h4, h5, h6, if_false, hnumber, Option.map_some]
    simp [Json.before]
  rw [Json.parse, hskip, hscan]
  rfl

/-! ## An integer as a label -/

def writtenFor (n : Nat) : Nat := shortest (fun m => roundSig m = roundSig n) (roundSig n)

theorem formatNumber_itoa (z : Int) : formatNumber (itoa z) =
    if 2 ^ 1024 ≤ roundSig z.natAbs then none
    else some ((if z < 0 then [45] else []) ++ natDigits (writtenFor z.natAbs)) := by
  unfold formatNumber itoa writtenFor
  by_cases hz : z < 0
  · have hpos : 0 < z.natAbs := by omega
    rw [if_pos hz, parseFloat_minus_natDigits hpos]
    by_cases hover : 2 ^ 1024 ≤ roundSig z.natAbs
    · rw [if_pos hover, if_pos hover]
    · have habs : |-(roundSig z.natAbs : ℚ)| = roundSig z.natAbs := by rw [abs_neg, Nat.abs_cast]
      rw [if_neg hover, if_neg hover, if_pos hz]
      exact congrArg some (formatFixed_of_abs (by omega) habs true)
  · have hhead : ((natDigits z.natAbs).head? = some 45) = False := by
      refine eq_false fun h => ?_
      have := isDigit_of_mem_natDigits (List.mem_of_head? h)
      cases this
    rw [if_neg hz, parseFloat_natDigits]
    by_cases hover : 2 ^ 1024 ≤ roundSig z.natAbs
    · rw [if_pos hover, if_pos hover]
    · rw [if_neg hover, if_neg hover, if_neg hz]
      simp only [hhead]
      exact congrArg some (formatFixed_of_abs (by omega) (Nat.abs_cast _) false)

theorem coerceToString_itoa (z : Int) : coerceToString processorDecoder (itoa z) =
    if 2 ^ 1024 ≤ roundSig z.natAbs then itoa z
    else (if z < 0 then [45] else []) ++ natDigits (writtenFor z.natAbs) := by
  have hparse := parse_itoa z
  have hstring : processorDecoder.string (itoa z) = none := by
    change Json.decodeString (itoa z) = none
    rw [Json.decodeString, hparse]
  have hany : processorDecoder.any (itoa z) = (formatNumber (itoa z)).map .float64 := by
    simp [processorDecoder, goDecoder, hparse]
  rw [coerceToString, hstring]
  dsimp only
  rw [hany, formatNumber_itoa]
  by_cases hover : 2 ^ 1024 ≤ roundSig z.natAbs
  · rw [if_pos hover, if_pos hover]
    rfl
  · rw [if_neg hover, if_neg hover]
    rfl

theorem natDigits_injective {m n : Nat} (h : natDigits m = natDigits n) : m = n := by
  rw [← parseNat_natDigits m, h, parseNat_natDigits]

theorem written_eq_itoa_iff (z : Int) :
    (if z < 0 then [45] else []) ++ natDigits (writtenFor z.natAbs) = itoa z ↔ writtenFor z.natAbs = z.natAbs := by
  unfold itoa
  by_cases hz : z < 0
  · rw [if_pos hz, if_pos hz, List.singleton_append, List.cons_inj_right]
    exact ⟨natDigits_injective, fun h => by rw [h]⟩
  · rw [if_neg hz, if_neg hz, List.nil_append]
    exact ⟨natDigits_injective, fun h => by rw [h]⟩

def SameDouble (n m : Nat) : Prop := roundSig m = roundSig n

theorem isShortest_of_lt {n : Nat} (h : n < 2 ^ 53) : IsShortest (SameDouble n) (roundSig n) n := by
  refine ⟨rfl, fun m k hm hk => ?_, fun m hm hne => ?_⟩
  · rw [← eq_of_roundSig_eq h hm]
    exact hk
  · exact absurd (eq_of_roundSig_eq h hm) hne

theorem writtenFor_eq_iff (n : Nat) : writtenFor n = n ↔ IsShortest (SameDouble n) (roundSig n) n := by
  by_cases hn : n = 0
  · subst hn
    exact iff_of_true (by decide) (isShortest_of_lt (by decide))
  · have h := (around_roundSig hn).shortest_eq_iff (n := n)
    simp only [decide_eq_true_eq] at h
    exact h

/-- The text of an integer is kept just if it is beyond all doubles, or of the integers that round to the same double
none ends in more zeros, and none that ends in as many is as near to the double. -/
theorem integer_kept_iff (z : Int) : coerceToString processorDecoder (itoa z) = itoa z ↔
    2 ^ 1024 ≤ roundSig z.natAbs ∨ IsShortest (SameDouble z.natAbs) (roundSig z.natAbs) z.natAbs := by
  rw [coerceToString_itoa, ← writtenFor_eq_iff]
  by_cases hover : 2 ^ 1024 ≤ roundSig z.natAbs
  · rw [if_pos hover]
    exact iff_of_true rfl (.inl hover)
  · rw [if_neg hover, written_eq_itoa_iff]
    exact ⟨.inr, fun h => h.resolve_left hover⟩

/-- Two identifiers of 64 bits that become others. -/
theorem identifiers_changed :
    coerceToString processorDecoder (bs "9007199254740993") = bs "9007199254740992" ∧
      coerceToString processorDecoder (bs "1152921504606846976") = bs "1152921504606847000" := by
  have hpow : ∀ k n : Nat, 64 ≤ k → n < 2 ^ 64 → ¬ 2 ^ k ≤ n := fun k n hk hn =>
    Nat.not_le.mpr (Nat.lt_of_lt_of_le hn (Nat.pow_le_pow_right (by decide) hk))
  constructor
  · have htext : bs "9007199254740993" = itoa 9007199254740993 := by decide
    rw [htext, coerceToString_itoa, if_neg (hpow 1024 _ (by decide) (by decide))]
    decide
  · have htext : bs "1152921504606846976" = itoa 1152921504606846976 := by decide
    rw [htext, coerceToString_itoa, if_neg (hpow 1024 _ (by decide) (by decide))]
    decide

/-- Integers of up to 53 bits keep their text. -/
theorem coerceToString_of_lt {z : Int} (h : z.natAbs < 2 ^ 53) : coerceToString processorDecoder (itoa z) = itoa z := by
  have hwritten := (writtenFor_eq_iff z.natAbs).mpr (isShortest_of_lt h)
  rw [coerceToString_itoa]
  by_cases hover : 2 ^ 1024 ≤ roundSig z.natAbs
  · rw [if_pos hover]
  · rw [if_neg hover]
    exact (written_eq_itoa_iff z).mpr hwritten

theorem coerceToString_large : coerceToString processorDecoder (itoa 4503599627370497) = itoa 4503599627370497 :=
  coerceToString_of_lt (by decide)

end Logalot
