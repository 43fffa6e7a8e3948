import Mathlib.Algebra.Order.Floor.Ring
import Mathlib.Data.Rat.Floor
import Logalot.Lib.Bytes

/-!
# Reading floating-point numbers

`strconv.ParseFloat` with 64 bits: infinities and NaN by name, decimal and
hexadecimal numbers with underscores between digits, rounded to the nearest
double. The value of a number is exact until it is rounded.
-/

namespace Go

inductive Double where
  | nan
  | inf (negative : Bool)
  | fin (q : ℚ)
  deriving DecidableEq

def Double.isFinite : Double → Bool
  | .fin _ => true
  | _ => false

inductive NumError where
  | errSyntax
  | errRange
  deriving Repr, DecidableEq

/-! ## Rounding -/

def roundEven (x : ℚ) : ℤ :=
  if x - ⌊x⌋ < 1 / 2 then ⌊x⌋ else if 1 / 2 < x - ⌊x⌋ then ⌊x⌋ + 1 else ⌊x⌋ + ⌊x⌋ % 2

/-- To the nearest double: 53 bits from the leading one, none below `2 ^ (-1074)`. There is none for an
overflow. -/
def nearestDouble (q : ℚ) : Option ℚ :=
  let a := |q|
  let k : ℤ := (Nat.log2 a.num.natAbs : ℤ) - Nat.log2 a.den
  let lead := if (2 : ℚ) ^ k ≤ a then k else k - 1
  let e := max (lead - 52) (-1074)
  let v := roundEven (a / 2 ^ e) * (2 : ℚ) ^ e
  if 2 ^ 1024 ≤ v then none else some (if q < 0 then -v else v)

/-! ## Names -/

def lower (c : UInt8) : UInt8 := if isUpper c then c + 32 else c

def toLower (s : Bytes) : Bytes := s.map lower

def commonPrefixLenIgnoreCase : Bytes → Bytes → Nat
  | c :: s, d :: p => if lower c = d then commonPrefixLenIgnoreCase s p + 1 else 0
  | _, _ => 0

/-- What follows `inf` or `infinity`. -/
def afterInfinity (s : Bytes) : Option Bytes :=
  let n := commonPrefixLenIgnoreCase s (bs "infinity")
  let n := if 3 < n ∧ n < 8 then 3 else n
  if n = 3 ∨ n = 8 then some (s.drop n) else none

/-- `special`, with what follows. -/
def special : Bytes → Option (Double × Bytes)
  | [] => none
  | c :: s =>
    if c = 43 ∨ c = 45 then (afterInfinity s).map fun r => (.inf (c == 45), r)
    else if lower c = 105 then (afterInfinity (c :: s)).map fun r => (.inf false, r)
    else if lower c = 110 then
      if commonPrefixLenIgnoreCase (c :: s) (bs "nan") = 3 then some (.nan, (c :: s).drop 3) else none
    else none

/-! ## Numbers -/

structure Mantissa where
  value : Nat := 0
  /-- The digits after the point. -/
  frac : Nat := 0
  sawDot : Bool := false
  sawDigits : Bool := false
  underscores : Bool := false

def floatDigit (hex : Bool) (c : UInt8) : Option Nat :=
  if isDigit c then some (digitVal c)
  else if hex && 97 ≤ lower c && lower c ≤ 102 then some ((lower c).toNat - 87)
  else none

def scanMantissa (hex : Bool) : Mantissa → Bytes → Mantissa × Bytes
  | m, [] => (m, [])
  | m, c :: s =>
    if c = 95 then scanMantissa hex { m with underscores := true } s
    else if c = 46 then if m.sawDot then (m, c :: s) else scanMantissa hex { m with sawDot := true } s
    else
      match floatDigit hex c with
      | none => (m, c :: s)
      | some d =>
        scanMantissa hex
          { m with
            value := m.value * (if hex then 16 else 10) + d
            frac := if m.sawDot then m.frac + 1 else m.frac
            sawDigits := true } s

/-- The digits of an exponent, those that no longer matter left out; whether there were underscores. -/
def scanExponent : Nat → Bool → Bytes → Nat × Bool × Bytes
  | e, u, [] => (e, u, [])
  | e, u, c :: s =>
    if c = 95 then scanExponent e true s
    else if isDigit c then scanExponent (if e < 10000 then e * 10 + digitVal c else e) u s
    else (e, u, c :: s)

def readSign : Bytes → Bool × Bytes
  | 43 :: s => (false, s)
  | 45 :: s => (true, s)
  | s => (false, s)

def readExponent (s : Bytes) : Option (Int × Bool × Bytes) :=
  let (neg, s) := readSign s
  match s with
  | [] => none
  | c :: _ =>
    if isDigit c then
      let (e, u, r) := scanExponent 0 false s
      some (if neg then -(e : Int) else e, u, r)
    else none

inductive Saw where
  | start
  | digit
  | underscore
  | other
  deriving DecidableEq

def underscoresFrom (hex : Bool) : Saw → Bytes → Bool
  | saw, [] => saw != .underscore
  | saw, c :: s =>
    if (floatDigit hex c).isSome then underscoresFrom hex .digit s
    else if c = 95 then saw == .digit && underscoresFrom hex .underscore s
    else saw != .underscore && underscoresFrom hex .other s

/-- An underscore stands between digits only, or after the prefix of a base. -/
def underscoreOK (s : Bytes) : Bool :=
  match (readSign s).2 with
  | 48 :: c :: s =>
    if lower c = 98 ∨ lower c = 111 ∨ lower c = 120 then underscoresFrom (lower c == 120) .digit s
    else underscoresFrom false .start (48 :: c :: s)
  | s => underscoresFrom false .start s

/-- The prefix of a hexadecimal number; something follows it. -/
def hexPrefix : Bytes → Option Bytes
  | 48 :: c :: d :: s => if lower c = 120 then some (d :: s) else none
  | _ => none

/-- `readFloat`: the exact number, and what follows. -/
def readFloat (text : Bytes) : Option (ℚ × Bytes) :=
  let (neg, s) := readSign text
  let hex := (hexPrefix s).isSome
  let (m, s) := scanMantissa hex {} ((hexPrefix s).getD s)
  if !m.sawDigits then none
  else
    let exponent : Option (Int × Bool × Bytes) :=
      match s with
      | [] => if hex then none else some (0, false, [])
      | c :: r =>
        if lower c = (if hex then 112 else 101) then readExponent r
        else if hex then none else some (0, false, c :: r)
    match exponent with
    | none => none
    | some (e, u, rest) =>
      if (m.underscores || u) && !underscoreOK (text.take (text.length - rest.length)) then none
      else
        let scale : ℚ := if hex then 2 ^ (e - 4 * m.frac) else 10 ^ (e - m.frac)
        some ((if neg then -1 else 1) * (m.value * scale), rest)

/-- `ParseFloat`: all of the text must be read. -/
def parseFloat (s : Bytes) : Except NumError Double :=
  match special s with
  | some (v, rest) => if rest = [] then .ok v else .error .errSyntax
  | none =>
    match readFloat s with
    | none => .error .errSyntax
    | some (q, rest) =>
      if rest ≠ [] then .error .errSyntax
      else
        match nearestDouble q with
        | none => .error .errRange
        | some v => .ok (.fin v)

/-! ## Which numbers are finite -/

/-- The texts of infinities and NaN, in lower case. -/
def nonFiniteTexts : List Bytes :=
  [bs "inf", bs "+inf", bs "-inf", bs "infinity", bs "+infinity", bs "-infinity", bs "nan"]

theorem lower_lower (c : UInt8) : lower (lower c) = lower c := by
  revert c
  decide +kernel

theorem lower_eq_sign_iff (c : UInt8) : (lower c = 43 ↔ c = 43) ∧ (lower c = 45 ↔ c = 45) := by
  revert c
  decide +kernel

theorem commonPrefixLen_toLower : ∀ s p : Bytes,
    commonPrefixLenIgnoreCase (toLower s) p = commonPrefixLenIgnoreCase s p
  | [], _ => rfl
  | _ :: _, [] => rfl
  | c :: s, d :: p => by
    simp only [toLower, List.map_cons, commonPrefixLenIgnoreCase, lower_lower]
    rw [← commonPrefixLen_toLower s p, toLower]

theorem toLower_take_commonPrefixLen : ∀ s p : Bytes,
    toLower (s.take (commonPrefixLenIgnoreCase s p)) = p.take (commonPrefixLenIgnoreCase s p)
  | [], _ => by simp [commonPrefixLenIgnoreCase, toLower]
  | _ :: _, [] => by simp [commonPrefixLenIgnoreCase, toLower]
  | c :: s, d :: p => by
    rw [commonPrefixLenIgnoreCase]
    by_cases h : lower c = d
    · rw [if_pos h, List.take_succ_cons, List.take_succ_cons, ← toLower_take_commonPrefixLen s p, ← h]
      rfl
    · simp [if_neg h, toLower]

theorem afterInfinity_toLower (s : Bytes) : afterInfinity (toLower s) = (afterInfinity s).map toLower := by
  unfold afterInfinity
  simp only [commonPrefixLen_toLower]
  generalize (if 3 < commonPrefixLenIgnoreCase s (bs "infinity") ∧
    commonPrefixLenIgnoreCase s (bs "infinity") < 8 then 3 else commonPrefixLenIgnoreCase s (bs "infinity")) = n
  by_cases h : n = 3 ∨ n = 8
  · rw [if_pos h, if_pos h, Option.map_some, toLower, toLower, List.map_drop]
  · rw [if_neg h, if_neg h, Option.map_none]

theorem special_toLower (s : Bytes) : special (toLower s) = (special s).map fun p => (p.1, toLower p.2) := by
  cases s with
  | nil => rfl
  | cons c s =>
    have hc : toLower (c :: s) = lower c :: toLower s := rfl
    rw [hc]
    simp only [special, (lower_eq_sign_iff c).1, (lower_eq_sign_iff c).2, lower_lower]
    by_cases hs : c = 43 ∨ c = 45
    · have hb : (lower c == 45) = (c == 45) := by
        rcases hs with rfl | rfl <;> decide
      rw [if_pos hs, if_pos hs, afterInfinity_toLower, hb, Option.map_map, Option.map_map]
      rfl
    · rw [if_neg hs, if_neg hs, ← hc, afterInfinity_toLower, commonPrefixLen_toLower]
      by_cases hi : lower c = 105
      · rw [if_pos hi, if_pos hi, Option.map_map, Option.map_map]
        rfl
      · rw [if_neg hi, if_neg hi]
        by_cases hn : lower c = 110
        · rw [if_pos hn, if_pos hn]
          by_cases h3 : commonPrefixLenIgnoreCase (c :: s) (bs "nan") = 3
          · rw [if_pos h3, if_pos h3, Option.map_some, toLower, toLower, List.map_drop]
          · rw [if_neg h3, if_neg h3, Option.map_none]
        · rw [if_neg hn, if_neg hn, Option.map_none]

variable {s : Bytes}

theorem toLower_of_drop {p : Bytes} {n : Nat} (hn : n ≤ commonPrefixLenIgnoreCase s p) (hd : s.drop n = []) :
    toLower s = p.take n := by
  have hs : s.take n = s := List.take_of_length_le (List.drop_eq_nil_iff.mp hd)
  have h := congrArg (List.take n) (toLower_take_commonPrefixLen s p)
  rwa [toLower, ← List.map_take, List.take_take, List.take_take, min_eq_left hn, hs, ← toLower] at h

theorem toLower_of_afterInfinity (h : afterInfinity s = some []) :
    toLower s = bs "inf" ∨ toLower s = bs "infinity" := by
  unfold afterInfinity at h
  dsimp only at h
  by_cases hn : 3 < commonPrefixLenIgnoreCase s (bs "infinity") ∧ commonPrefixLenIgnoreCase s (bs "infinity") < 8
  · rw [if_pos hn, if_pos (.inl rfl), Option.some.injEq] at h
    exact .inl (toLower_of_drop hn.1.le h)
  · rw [if_neg hn] at h
    by_cases h38 : commonPrefixLenIgnoreCase s (bs "infinity") = 3 ∨ commonPrefixLenIgnoreCase s (bs "infinity") = 8
    · rw [if_pos h38, Option.some.injEq] at h
      rcases h38 with h3 | h8
      · exact .inl (toLower_of_drop h3.ge (h3 ▸ h))
      · exact .inr (toLower_of_drop h8.ge (h8 ▸ h))
    · rw [if_neg h38] at h
      cases h

theorem mem_nonFiniteTexts_of_special {v : Double} (h : special s = some (v, [])) :
    toLower s ∈ nonFiniteTexts := by
  cases s with
  | nil => cases h
  | cons c s =>
    rw [special] at h
    by_cases hs : c = 43 ∨ c = 45
    · rw [if_pos hs, Option.map_eq_some_iff] at h
      obtain ⟨r, hr, he⟩ := h
      cases he
      have hl : toLower (c :: s) = c :: toLower s := by
        rcases hs with rfl | rfl <;> rfl
      rw [hl]
      rcases hs with rfl | rfl <;> rcases toLower_of_afterInfinity hr with hi | hi <;> rw [hi] <;> decide
    · rw [if_neg hs] at h
      by_cases hi : lower c = 105
      · rw [if_pos hi, Option.map_eq_some_iff] at h
        obtain ⟨r, hr, he⟩ := h
        cases he
        rcases toLower_of_afterInfinity hr with hi | hi <;> rw [hi] <;> decide
      · rw [if_neg hi] at h
        by_cases hn : lower c = 110
        · rw [if_pos hn] at h
          by_cases h3 : commonPrefixLenIgnoreCase (c :: s) (bs "nan") = 3
          · rw [if_pos h3, Option.some.injEq, Prod.mk.injEq] at h
            rw [toLower_of_drop h3.ge h.2]
            decide
          · rw [if_neg h3] at h
            cases h
        · rw [if_neg hn] at h
          cases h

theorem special_not_finite {p : Double × Bytes} (h : special s = some p) : p.1.isFinite = false := by
  cases s with
  | nil => cases h
  | cons c s =>
    rw [special] at h
    split_ifs at h
    · obtain ⟨r, _, rfl⟩ := Option.map_eq_some_iff.mp h
      rfl
    · obtain ⟨r, _, rfl⟩ := Option.map_eq_some_iff.mp h
      rfl
    · cases h
      rfl

theorem parseFloat_finite_iff {v : Double} (h : parseFloat s = .ok v) :
    v.isFinite = true ↔ toLower s ∉ nonFiniteTexts := by
  unfold parseFloat at h
  cases hs : special s with
  | some p =>
    obtain ⟨w, rest⟩ := p
    rw [hs] at h
    dsimp only at h
    split at h
    · rename_i hr
      subst hr
      cases h
      have hf : v.isFinite = false := special_not_finite hs
      simp [hf, mem_nonFiniteTexts_of_special hs]
    · cases h
  | none =>
    have hn : toLower s ∉ nonFiniteTexts := by
      intro hm
      have hall : ∀ t ∈ nonFiniteTexts, special t ≠ none := by decide
      exact hall _ hm (by rw [special_toLower, hs]; rfl)
    rw [hs] at h
    dsimp only at h
    split at h
    · cases h
    · split at h
      · cases h
      · split at h
        · cases h
        · cases h
          simp [hn, Double.isFinite]

end Go
