import Logalot.Pipeline
import Logalot.Lib.Dates
import Logalot.Lib.Ranges

/-!
# Partitions of the hot store

`log_events` is partitioned by day of `ts`, with a default partition for rows
of other days (`migrations/000010_log_events.up.sql`). A scheduled function
creates the partitions of the next days, and another drops those older than
the retention horizon, which it tells by their names
(`migrations/000016_retention_worker.up.sql`). The time zone is UTC.
-/

namespace Logalot

open Go Pg Ranges

abbrev HotTable := Table Bytes Int Row

def dayMicros : Int := 86400000000

/-! ## Names -/

/-- `to_char(day, 'YYYYMMDD')`; a year before the first is written without its sign. -/
def toChar (day : Int) : Bytes :=
  let d := civil day
  padInt (if d.year ≤ 0 then 1 - d.year else d.year) 4 ++ padInt d.month 2 ++ padInt d.day 2

/-- `to_date(s, 'YYYYMMDD')` on eight digits; `none` is an error of the server. -/
def toDate (s : Bytes) : Option Int :=
  let d : Date := { year := parseNat (s.take 4), month := parseNat ((s.drop 4).take 2), day := parseNat (s.drop 6) }
  if d.Valid then some (dayNumber d) else none

def partitionName (day : Int) : Bytes := bs "log_events_" ++ toChar day

/-- `relname ~ '^log_events_[0-9]{8}$'`. -/
def isDailyName (name : Bytes) : Bool :=
  (bs "log_events_").isPrefixOf name && name.length == 19 && (name.drop 11).all isDigit

/-- `right(s, n)`. -/
def right (s : Bytes) (n : Nat) : Bytes := s.drop (s.length - n)

/-! ## Lifecycle -/

/-- `none` if the server refuses the partition. -/
def createLogEventsPartition (t : HotTable) (day : Int) : Option HotTable :=
  if ∃ p ∈ t.parts, p.name = partitionName day then some t
  else t.create Row.ts (partitionName day) (day * dayMicros) ((day + 1) * dayMicros)

/-- Partitions for `today .. today + daysAhead`; an error undoes them all. -/
def ensureLogEventsPartitions (today : Int) (daysAhead : Nat) (t : HotTable) : Option HotTable :=
  (List.range (daysAhead + 1)).foldlM (fun t (i : Nat) => createLogEventsPartition t (today + (i : Int))) t

def isExpired (cutoff : Int) (name : Bytes) : Bool :=
  isDailyName name && (toDate (right name 8)).any (· < cutoff)

/-- The table afterwards and the number of partitions dropped. -/
def dropLogEventsPartitionsOlderThan (today retentionDays : Int) (t : HotTable) : Option (HotTable × Nat) :=
  let cutoff := today - retentionDays
  if ∃ p ∈ t.parts, isDailyName p.name = true ∧ toDate (right p.name 8) = none then none
  else some (t.dropNamed (isExpired cutoff), (t.parts.filter fun p => isExpired cutoff p.name).length)

/-! ## Histories -/

structure Hot where
  clock : Time
  table : HotTable

def Hot.today (s : Hot) : Int := unixDay s.clock

inductive HotAction where
  | append (row : Row)
  | tick (now : Time)
  | ensure (daysAhead : Nat)
  | drop (retentionDays : Int)

inductive HotStep (dec : Decoder) (s : Hot) : HotAction → Hot → Prop
  | append {tc env received ev id row} : normalize dec tc env received = .ok ev →
      insertRow tc ev s.clock id = some row →
      HotStep dec s (.append row) { s with table := s.table.insert Row.ts row }
  | tick {now} : s.clock ≤ now → HotStep dec s (.tick now) { s with clock := now }
  | ensure {daysAhead t} : ensureLogEventsPartitions s.today daysAhead s.table = some t →
      HotStep dec s (.ensure daysAhead) { s with table := t }
  | drop {retentionDays t n} : dropLogEventsPartitionsOlderThan s.today retentionDays s.table = some (t, n) →
      HotStep dec s (.drop retentionDays) { s with table := t }

/-- Histories from the empty table, of which every action meets a condition. -/
def hotSystem (dec : Decoder) (ok : Hot → HotAction → Prop) : Runs.System Hot where
  init s := s.table = { parts := [], rest := [] }
  step s t := ∃ a, ok s a ∧ HotStep dec s a t

/-- No row lies before midnight of `today` minus some days. -/
def Kept (today retentionDays : Int) (t : HotTable) : Prop :=
  ∀ r ∈ t.rows, (today - retentionDays) * dayMicros ≤ r.ts

def Nameable (day : Int) : Prop := 1 ≤ (civil day).year ∧ (civil day).year ≤ 9999

instance (day : Int) : Decidable (Nameable day) := inferInstanceAs (Decidable (_ ∧ _))

/-- Partitions are only created in the years 1 to 9999. -/
def NamedEnsures (s : Hot) : HotAction → Prop
  | .ensure daysAhead => ∀ i ≤ daysAhead, Nameable (s.today + (i : Int))
  | _ => True

/-- Rows are only appended on days that have a partition. -/
def CoveredAppends (s : Hot) : HotAction → Prop
  | .append row => s.table.Covers row.ts
  | _ => True

end Logalot
