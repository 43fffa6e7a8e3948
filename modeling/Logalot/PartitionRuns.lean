import Logalot.Partitions

/-!
# Partitions created ahead

Histories of appends and of calls of `app.ensure_log_events_partitions` that may
fail, from the call the migration makes (`migrations/000010_log_events.up.sql`).
-/

namespace Logalot

open Go Pg Ranges

/-- A call that fails changes nothing. -/
def Hot.apply (s : Hot) : HotAction → Hot
  | .append row => { s with table := s.table.insert Row.ts row }
  | .tick now => { s with clock := now }
  | .ensure daysAhead => { s with table := (ensureLogEventsPartitions s.today daysAhead s.table).getD s.table }
  | .drop retentionDays =>
    { s with table := ((dropLogEventsPartitionsOlderThan s.today retentionDays s.table).map Prod.fst).getD s.table }

def Hot.before (s : Hot) (es : List HotAction) (i : Nat) : Hot := (es.take i).foldl Hot.apply s

def Appendable (dec : Decoder) (clock : Time) (row : Row) : Prop :=
  ∃ tc env received ev id, normalize dec tc env received = .ok ev ∧ insertRow tc ev clock id = some row

/-- From the migration on, rows are appended and partitions created. -/
structure PartitionHistory (dec : Decoder) (s : Hot) (es : List HotAction) : Prop where
  empty : s.table = { parts := [], rest := [] }
  era : 1 ≤ (civil s.today).year
  bootstrap : es[0]? = some (.ensure 7)
  appends : ∀ (i : Nat) row, es[i]? = some (.append row) → Appendable dec (s.before es i).clock row
  forward : ∀ (i : Nat) now, es[i]? = some (.tick now) → (s.before es i).clock ≤ now
  kept : ∀ (i : Nat) d, es[i]? ≠ some (.drop d)

def HasDay (t : HotTable) (day : Int) : Prop := ∃ p ∈ t.parts, p.lo = day * dayMicros ∧ p.hi = (day + 1) * dayMicros

def rowDay (r : Row) : Int := r.ts / dayMicros

def EnsureSucceeds (s : Hot) (daysAhead : Nat) : Prop :=
  ∃ t, ensureLogEventsPartitions s.today daysAhead s.table = some t ∧
    ∀ d, s.today ≤ d → d ≤ s.today + daysAhead → HasDay t d

def EnsuredAt (s : Hot) (es : List HotAction) (i : Nat) (day : Int) : Prop :=
  ∃ daysAhead : Nat, es[i]? = some (.ensure daysAhead) ∧ (s.before es i).today ≤ day ∧
    day ≤ (s.before es i).today + daysAhead

end Logalot
