import Logalot.Lib.Bytes

/-!
# Instants and dates

An instant is a whole number of nanoseconds since the Unix epoch. Dates are
those of the proleptic Gregorian calendar in UTC, computed from the day number
in years that start in March, so that the leap day is the last of its year.
-/

namespace Go

abbrev Time := Int

/-- The zero `time.Time`: January 1, year 1, 00:00:00 UTC. -/
def zeroTime : Time := -62135596800 * 1000000000

def isZero (t : Time) : Bool := t == zeroTime

/-- Days since the Unix epoch. -/
def unixDay (t : Time) : Int := t / 86400000000000

structure Date where
  year : Int
  month : Int
  day : Int
  deriving Repr, DecidableEq

/-- The date of a day number. -/
def civil (days : Int) : Date :=
  let z := days + 719468
  let era := z / 146097
  let doe := z % 146097
  let yoe := (doe - doe / 1460 + doe / 36524 - doe / 146096) / 365
  let doy := doe - (365 * yoe + yoe / 4 - yoe / 100)
  let mp := (5 * doy + 2) / 153
  let month := if mp < 10 then mp + 3 else mp - 9
  { year := yoe + era * 400 + (if month ≤ 2 then 1 else 0)
    month := month
    day := doy - (153 * mp + 2) / 5 + 1 }

/-- `t.UTC().Format("2006-01-02")`. -/
def formatDate (t : Time) : Bytes :=
  let d := civil (unixDay t)
  padInt d.year 4 ++ [45] ++ padInt d.month 2 ++ [45] ++ padInt d.day 2

theorem mem_formatDate {t : Time} {c : UInt8} (h : c ∈ formatDate t) : c = 45 ∨ isDigit c = true := by
  simp only [formatDate, List.mem_append, List.mem_singleton] at h
  rcases h with (((h | h) | h) | h) | h
  · exact mem_padInt h
  · exact Or.inl h
  · exact mem_padInt h
  · exact Or.inl h
  · exact mem_padInt h

example : formatDate 1709164800000000000 = bs "2024-02-29" := by decide

example : formatDate zeroTime = bs "0001-01-01" := by decide

end Go
