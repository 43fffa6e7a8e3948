import Mathlib.Data.Rat.Floor
import Logalot.Builders

/-!
# Time series of dashboard panels

`TimeSeries` of `services/query-service/internal/adapters/postgres/panelstore.go`
counts events per bucket and leaves out empty buckets; `gapFillBuckets` of
`apps/web/src/features/dashboards/panel-data.ts` makes a series without gaps of
them. The server rounds the width of a bucket up to whole seconds, the web does
not. Fractions are exact.
-/

namespace Logalot

open Go Pg

/-! ## The server -/

/-- `none` is an error: of the context or of the server. -/
def timeSeries (fts : Fts) (db : LogTable) (tc : TenantContext) (d : SavedQueryDef) (tsFrom tsTo : Time)
    (nBuckets : Int) : Option (List (Int × Nat)) :=
  match tc.valid with
  | some _ => none
  | none =>
    let b := buildTimeSeriesQuery tc.tenantId d tsFrom tsTo (bucketSize tsFrom tsTo nBuckets)
    match evalSql fts db b.sql b.args with
    | some (.buckets buckets) => some buckets
    | _ => none

/-- `PanelStore.Count`. -/
def panelCount (fts : Fts) (db : LogTable) (tc : TenantContext) (d : SavedQueryDef) (tsFrom tsTo : Time) : Option Nat :=
  match tc.valid with
  | some _ => none
  | none =>
    let b := buildCountQuery tc.tenantId d tsFrom tsTo
    match evalSql fts db b.sql b.args with
    | some (.count n) => some n
    | _ => none

/-! ## The web -/

/-- The start is what `Date.parse` makes of its text, in milliseconds: `none` is not a number. -/
structure PanelBucket where
  bucketStart : Option Int
  count : Nat
  deriving DecidableEq

/-- A bucket as the web receives it: the text of its start is read to the millisecond. -/
def PanelBucket.received (b : Int × Nat) : PanelBucket := ⟨some (b.1 / 1000), b.2⟩

/-- The instant of `new Date(ms)`. -/
def truncate (ms : ℚ) : Int := if 0 ≤ ms then ms.floor else ms.ceil

/-- The inner loop: the count of a slot, and the buckets after the cursor. -/
def fillSlot (slotStart slotEnd : ℚ) : Nat → List (Int × Nat) → Nat × List (Int × Nat)
  | count, [] => (count, [])
  | count, next :: rest =>
    if (next.1 : ℚ) < slotEnd then
      fillSlot slotStart slotEnd (if slotStart ≤ (next.1 : ℚ) then count + next.2 else count) rest
    else (count, next :: rest)

/-- The outer loop from slot `i` on, with the number of slots that are left. -/
def fillSlots (fromMs : Int) (size : ℚ) : Nat → Nat → List (Int × Nat) → List PanelBucket
  | _, 0, _ => []
  | i, left + 1, sorted =>
    let slotStart := fromMs + i * size
    let slot := fillSlot slotStart (slotStart + size) 0 sorted
    ⟨some (truncate slotStart), slot.1⟩ :: fillSlots fromMs size (i + 1) left slot.2

def gapFillBuckets (buckets : List PanelBucket) (start stop : Option Int) (n : Int) : List PanelBucket :=
  if n ≤ 0 then []
  else
    match start, stop with
    | some fromMs, some toMs =>
      if toMs ≤ fromMs then []
      else
        let size : ℚ := (toMs - fromMs) / n
        let sorted := (buckets.filterMap fun b => b.bucketStart.map fun ms => (ms, b.count)).insertionSort
          fun a b => a.1 ≤ b.1
        fillSlots fromMs size 0 n.toNat sorted
    | _, _ => []

end Logalot
