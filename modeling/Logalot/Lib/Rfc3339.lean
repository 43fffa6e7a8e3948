import Logalot.Lib.Dates
import Logalot.Lib.Json

/-!
# Times of RFC 3339

`time.Parse` for the layouts `RFC3339` and `RFC3339Nano`, which accept the same
texts: an hour may be one digit, and the seconds may have a fraction of any
length whatever the layout says. Each part of the reader takes bytes that stand
for themselves in JSON. A time is written as JSON if its year has four digits.
-/

namespace Go

def skipByte (c : UInt8) : Bytes → Option Bytes
  | [] => none
  | d :: s => if d = c then some s else none

/-- `getnum`: two digits, or one if the number is not fixed in length. -/
def getnum (fixed : Bool) : Bytes → Option (Nat × Bytes)
  | [] => none
  | c :: s =>
    if !isDigit c then none
    else
      match s with
      | d :: r => if isDigit d then some (parseNat [c, d], r) else if fixed then none else some (digitVal c, s)
      | [] => if fixed then none else some (digitVal c, [])

def getYear (s : Bytes) : Option (Nat × Bytes) :=
  if (s.take 4).length = 4 ∧ (s.take 4).all isDigit then some (parseNat (s.take 4), s.drop 4) else none

def getDate (s : Bytes) : Option (Date × Bytes) := do
  let (year, s) ← getYear s
  let (month, s) ← getnum true (← skipByte 45 s)
  let (day, s) ← getnum true (← skipByte 45 s)
  let date : Date := { year, month, day }
  if date.Valid then some (date, s) else none

def getClock (s : Bytes) : Option (Nat × Bytes) := do
  let (hour, s) ← getnum false s
  let (minute, s) ← getnum true (← skipByte 58 s)
  let (second, s) ← getnum true (← skipByte 58 s)
  if hour < 24 ∧ minute < 60 ∧ second < 60 then some ((hour * 60 + minute) * 60 + second, s) else none

/-- The nanoseconds of a fraction; digits after the ninth are dropped. -/
def getFraction : Bytes → Option (Nat × Bytes)
  | p :: d :: s =>
    if (p = 46 ∨ p = 44) ∧ isDigit d then
      let digits := (d :: s).takeWhile isDigit
      some (parseNat ((digits ++ List.replicate 9 48).take 9), (d :: s).dropWhile isDigit)
    else some (0, p :: d :: s)
  | s => some (0, s)

def getZone : Bytes → Option (Int × Bytes)
  | [] => none
  | c :: s =>
    if c = 90 then some (0, s)
    else do
      let (hour, s) ← getnum true s
      let (minute, s) ← getnum true (← skipByte 58 s)
      let offset : Int := (hour * 60 + minute) * 60
      if hour ≤ 24 ∧ minute ≤ 60 then
        if c = 43 then some (offset, s) else if c = 45 then some (-offset, s) else none
      else none

def parseRFC3339 (s : Bytes) : Option Time := do
  let (date, s) ← getDate s
  let (second, s) ← getClock (← skipByte 84 s)
  let (nsec, s) ← getFraction s
  let (offset, s) ← getZone s
  if s = [] then some ((dayNumber date * 86400 + second - offset) * 1000000000 + nsec) else none

example : parseRFC3339 (bs "2026-01-02T3:04:05.5+01:00") = parseRFC3339 (bs "2026-01-02T02:04:05,500Z") := by
  decide

/-! ## Formatting -/

/-- The fraction of a second, without the zeros at its end. -/
def formatNano (nsec : Int) : Bytes :=
  match ((padInt nsec 9).reverse.dropWhile (· == 48)).reverse with
  | [] => []
  | digits => 46 :: digits

/-- `t.UTC().Format(time.RFC3339Nano)`. -/
def formatRFC3339Nano (t : Time) : Bytes :=
  let second := t / 1000000000 % 86400
  formatDate t ++ [84] ++ padInt (second / 3600) 2 ++ [58] ++ padInt (second / 60 % 60) 2 ++ [58] ++
    padInt (second % 60) 2 ++ formatNano (t % 1000000000) ++ [90]

/-- `t.UTC().MarshalJSON()`: an error unless the dash follows four bytes for the year. -/
def marshalTime (t : Time) : Option Bytes :=
  if (formatRFC3339Nano t)[4]? = some 45 then some (34 :: formatRFC3339Nano t ++ [34]) else none

theorem padInt_getElem?_ne_dash (n : Int) (w : Nat) {i : Nat} (hi : 0 < i) : (padInt n w)[i]? ≠ some 45 := by
  intro h
  have hdigit : ∀ c ∈ List.replicate (w - (natDigits n.natAbs).length) 48 ++ natDigits n.natAbs, isDigit c = true := by
    intro c hc
    rcases List.mem_append.mp hc with hc | hc
    · rw [(List.mem_replicate.mp hc).2]
      rfl
    · exact isDigit_of_mem_natDigits hc
  unfold padInt at h
  simp only [List.append_assoc] at h
  split at h
  · rw [List.getElem?_append_right hi] at h
    exact absurd (hdigit _ (List.mem_of_getElem? h)) (by decide)
  · rw [List.nil_append] at h
    exact absurd (hdigit _ (List.mem_of_getElem? h)) (by decide)

theorem exists_formatRFC3339Nano (t : Time) :
    ∃ rest, formatRFC3339Nano t = padInt (civil (unixDay t)).year 4 ++ 45 :: rest := by
  simp only [formatRFC3339Nano, formatDate_eq, List.append_assoc, List.cons_append]
  exact ⟨_, rfl⟩

theorem marshalTime_isSome_iff (t : Time) : (marshalTime t).isSome ↔ fourDigit (unixDay t) := by
  obtain ⟨rest, htext⟩ := exists_formatRFC3339Nano t
  have hdash : (marshalTime t).isSome ↔ (formatRFC3339Nano t)[4]? = some 45 := by
    unfold marshalTime
    split <;> simp_all
  rw [hdash, htext, fourDigit]
  constructor
  · intro h
    have hlen : (padInt (civil (unixDay t)).year 4).length ≤ 4 := by
      by_contra hlong
      rw [List.getElem?_append_left (by omega)] at h
      exact padInt_getElem?_ne_dash _ _ (by decide) h
    obtain ⟨h0, h1⟩ := bounds_of_length_padInt hlen
    exact ⟨h0, by omega⟩
  · rintro ⟨h0, h1⟩
    have hlen : (padInt (civil (unixDay t)).year 4).length = 4 := length_padInt h0 (by omega) (by decide)
    rw [List.getElem?_append_right (by omega), hlen]
    rfl

example : marshalTime 1767225600123450000 = some (bs "\"2026-01-01T00:00:00.12345Z\"") := by decide

/-! ## What is read -/

/-- What is left of `s` is `r`, and what was read stands for itself in a literal. -/
def Reads (s r : Bytes) : Prop := ∃ a : Bytes, s = a ++ r ∧ ∀ c ∈ a, Json.isPlain c = true

theorem Reads.refl (s : Bytes) : Reads s s := ⟨[], rfl, fun _ h => by cases h⟩

variable {s r : Bytes} {n : Nat}

theorem Reads.trans {t : Bytes} (h : Reads s r) (h' : Reads r t) : Reads s t := by
  obtain ⟨a, rfl, ha⟩ := h
  obtain ⟨b, rfl, hb⟩ := h'
  refine ⟨a ++ b, (List.append_assoc ..).symm, fun c hc => ?_⟩
  rcases List.mem_append.mp hc with hc | hc
  · exact ha c hc
  · exact hb c hc

theorem isPlain_of_isDigit : ∀ c, isDigit c = true → Json.isPlain c = true := by decide +kernel

theorem reads_of_isPlain {c : UInt8} (h : Json.isPlain c = true) : Reads (c :: s) s :=
  ⟨[c], rfl, fun d hd => by rwa [List.mem_singleton.mp hd]⟩

theorem reads_digit {c : UInt8} (h : isDigit c = true) : Reads (c :: s) s :=
  reads_of_isPlain (isPlain_of_isDigit c h)

theorem reads_digits (s : Bytes) : Reads s (s.dropWhile isDigit) :=
  ⟨s.takeWhile isDigit, List.takeWhile_append_dropWhile.symm, fun c hc =>
    isPlain_of_isDigit c (List.all_eq_true.mp List.all_takeWhile c hc)⟩

theorem reads_skipByte {c : UInt8} (hc : Json.isPlain c = true) (h : skipByte c s = some r) :
    Reads s r := by
  cases s with
  | nil => cases h
  | cons d s =>
    rw [skipByte] at h
    split at h
    · rename_i e
      cases h
      exact reads_of_isPlain (e ▸ hc)
    · cases h

theorem reads_getnum {fixed : Bool} (h : getnum fixed s = some (n, r)) : Reads s r := by
  unfold getnum at h
  cases s with
  | nil => cases h
  | cons c s =>
    by_cases hc : isDigit c = true
    · simp only [hc] at h
      cases s with
      | nil =>
        cases fixed <;> simp at h
        rw [← h.2]
        exact reads_digit hc
      | cons d s =>
        by_cases hd : isDigit d = true
        · simp only [hd, if_true] at h
          cases h
          exact (reads_digit hc).trans (reads_digit hd)
        · cases fixed <;> simp [hd] at h
          rw [← h.2]
          exact reads_digit hc
    · simp [hc] at h

theorem reads_getYear (h : getYear s = some (n, r)) : Reads s r := by
  unfold getYear at h
  split at h
  · rename_i hd
    cases h
    exact ⟨s.take 4, (List.take_append_drop 4 s).symm, fun c hc => isPlain_of_isDigit c (List.all_eq_true.mp hd.2 c hc)⟩
  · cases h

theorem reads_getDate {d : Date} (h : getDate s = some (d, r)) : Reads s r := by
  simp only [getDate, Option.bind_eq_bind, Option.bind_eq_some_iff] at h
  obtain ⟨y, hy, s1, h1, m, hm, s2, h2, dd, hd, h⟩ := h
  split at h
  · cases h
    exact (reads_getYear hy).trans ((reads_skipByte (by decide) h1).trans ((reads_getnum hm).trans
      ((reads_skipByte (by decide) h2).trans (reads_getnum hd))))
  · cases h

theorem reads_getClock (h : getClock s = some (n, r)) : Reads s r := by
  simp only [getClock, Option.bind_eq_bind, Option.bind_eq_some_iff] at h
  obtain ⟨hh, hh', s1, h1, m, hm, s2, h2, sec, hs, h⟩ := h
  split at h
  · cases h
    exact (reads_getnum hh').trans ((reads_skipByte (by decide) h1).trans ((reads_getnum hm).trans
      ((reads_skipByte (by decide) h2).trans (reads_getnum hs))))
  · cases h

theorem reads_getFraction (h : getFraction s = some (n, r)) : Reads s r := by
  unfold getFraction at h
  split at h
  · rename_i p d s
    split at h
    · rename_i hp
      cases h
      refine Reads.trans (reads_of_isPlain ?_) (reads_digits (d :: s))
      rcases hp.1 with rfl | rfl <;> decide
    · cases h
      exact .refl _
  · cases h
    exact .refl _

theorem reads_getZone {n : Int} (h : getZone s = some (n, r)) : Reads s r := by
  cases s with
  | nil => cases h
  | cons c s =>
    rw [getZone] at h
    split at h
    · rename_i hc
      cases h
      exact reads_of_isPlain (hc ▸ by decide)
    · simp only [Option.bind_eq_bind, Option.bind_eq_some_iff] at h
      obtain ⟨hh, hh', s1, h1, m, hm, h⟩ := h
      have htail : Reads s m.2 := (reads_getnum hh').trans ((reads_skipByte (by decide) h1).trans (reads_getnum hm))
      split at h
      · split at h
        · rename_i hc
          cases h
          exact (reads_of_isPlain (hc ▸ by decide)).trans htail
        · split at h
          · rename_i hc
            cases h
            exact (reads_of_isPlain (hc ▸ by decide)).trans htail
          · cases h
      · cases h

theorem isPlain_of_parseRFC3339 {t : Time} (h : parseRFC3339 s = some t) :
    ∀ c ∈ s, Json.isPlain c = true := by
  simp only [parseRFC3339, Option.bind_eq_bind, Option.bind_eq_some_iff] at h
  obtain ⟨d, hd, s1, h1, sec, hs, f, hf, z, hz, h⟩ := h
  split at h
  · rename_i hnil
    have hr : Reads s z.2 := (reads_getDate hd).trans ((reads_skipByte (by decide) h1).trans
      ((reads_getClock hs).trans ((reads_getFraction hf).trans (reads_getZone hz))))
    obtain ⟨a, rfl, ha⟩ := hr
    rw [hnil, List.append_nil]
    exact ha
  · cases h

end Go
