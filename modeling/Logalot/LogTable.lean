import Mathlib.Data.List.Dedup
import Mathlib.Data.List.Sort
import Mathlib.Data.Prod.Lex
import Mathlib.Order.Lattice
import Logalot.Kernel
import Logalot.Lib.Uuid

/-!
# The hot store

The table `log_events` (`migrations/000010_log_events.up.sql`) and what a query
over it returns: a conjunction of conditions selects rows, and the result is
the newest of them, their number, or their number per time bucket. Timestamps
have the resolution of the database, a microsecond.
-/

namespace Logalot

open Go Pg

structure Row where
  tenantId : Uuid
  ts : Int
  id : Uuid
  service : Bytes
  level : Level
  message : Bytes
  labels : Labels
  traceId : Option Bytes
  spanId : Option Bytes
  raw : Bytes
  deriving DecidableEq

/-- The order of pages: by time, then by id. -/
def Row.key (r : Row) : Lex (Int × Uuid) := toLex (r.ts, r.id)

/-- The primary key. -/
def Row.pk (r : Row) : Uuid × Int × Uuid := (r.tenantId, r.ts, r.id)

/-- A table satisfies its primary key constraint. -/
structure LogTable where
  rows : List Row
  nodup_pk : (rows.map Row.pk).Nodup

/-- The microsecond of an instant, as the driver sends it. -/
def micros (t : Time) : Int := t / 1000

/-- `scanEvents` on one row of the read projection. -/
def Row.toEvent (r : Row) : LogEvent :=
  { tenantId := uuidOut r.tenantId
    ts := r.ts * 1000
    id := uuidOut r.id
    service := r.service
    level := r.level
    message := r.message
    labels := r.labels
    traceId := r.traceId.getD []
    spanId := r.spanId.getD []
    raw := r.raw }

/-! ## Conditions -/

/-- Full-text search: whether a web-search query matches a document. -/
abbrev Fts := Bytes → Bytes → Bool

inductive Cond where
  | tenant (u : Uuid)
  | since (t : Int)
  | until (t : Int)
  | text (q : Bytes)
  | labels (l : Labels)
  | service (s : Bytes)
  | level (l : Level)
  | before (ts : Int) (id : Uuid)

/-- The document of a row, the source of its generated `search` column. -/
def Row.document (r : Row) : Bytes := r.message ++ bs " " ++ r.service

def Cond.holds (fts : Fts) (r : Row) : Cond → Bool
  | .tenant u => r.tenantId = u
  | .since t => t ≤ r.ts
  | .until t => r.ts < t
  | .text q => fts q r.document
  | .labels l => l.all (· ∈ r.labels)
  | .service s => r.service = s
  | .level l => r.level = l
  | .before ts id => r.key < toLex (ts, id)

def matching (fts : Fts) (conds : List Cond) (rows : List Row) : List Row :=
  rows.filter fun r => conds.all (·.holds fts r)

/-! ## Queries -/

inductive QueryKind where
  | newest (limit : Nat)
  | count
  /-- Buckets of `width` seconds from `start` on. -/
  | buckets (start width : Int)

structure Query where
  kind : QueryKind
  conds : List Cond

inductive Result where
  | events (es : List LogEvent)
  | count (n : Nat)
  | buckets (bs : List (Int × Nat))
  deriving DecidableEq

/-- `ORDER BY ts DESC, id DESC`. -/
def newestFirst (rows : List Row) : List Row := rows.insertionSort fun a b => b.key ≤ a.key

/-- The start of a row's bucket, in microseconds. -/
def bucketStart (start width : Int) (r : Row) : Int :=
  Int.fdiv (r.ts - start) (width * 1000000) * (width * 1000000) + start

/-- `GROUP BY 1 ORDER BY 1` with `COUNT(*)`. -/
def bucketCounts (starts : List Int) : List (Int × Nat) :=
  (starts.dedup.insertionSort (· ≤ ·)).map fun b => (b, starts.count b)

/-- `none` is an error of the server: here, division by a bucket width of zero. -/
def Query.run (fts : Fts) (db : LogTable) (q : Query) : Option Result :=
  let rows := matching fts q.conds db.rows
  match q.kind with
  | .newest limit => some (.events (((newestFirst rows).take limit).map Row.toEvent))
  | .count => some (.count rows.length)
  | .buckets start width =>
    if width = 0 ∧ rows ≠ [] then none
    else some (.buckets (bucketCounts (rows.map (bucketStart start width))))

end Logalot
