import Logalot.PgSql

/-!
# The builders of hot-store queries

`buildSearch` (`pkg/logstore`), `buildCount` (the alert evaluator's
`logcounter.go`), and `buildCountQuery`, `buildTimeSeriesQuery` and
`buildRecentQuery` (the query service's `panelstore.go`). Each appends a clause per
filter that is set, with a fresh placeholder for every value.
-/

namespace Logalot

open Go

structure Built where
  sql : Bytes
  args : List Arg
  deriving Repr, DecidableEq

def Built.write (b : Built) (s : Bytes) : Built := { b with sql := b.sql ++ s }

/-- `ph`: bind `v` as the next positional parameter and write its `$N`. -/
def Built.ph (b : Built) (v : Arg) : Built :=
  { sql := b.sql ++ (bs "$" ++ itoa ((b.args ++ [v]).length : Nat)), args := b.args ++ [v] }

/-! ## Clauses -/

def Built.andTsGe (b : Built) (t : Time) : Built := (b.write (bs " AND ts >= ")).ph (.time t)

def Built.andTsLt (b : Built) (t : Time) : Built := (b.write (bs " AND ts < ")).ph (.time t)

def Built.andText (b : Built) (text : Bytes) : Built :=
  ((b.write (bs " AND search @@ websearch_to_tsquery('english', ")).ph (.text text)).write (bs ")")

def Built.andLabels (b : Built) (labels : Labels) : Built :=
  ((b.write (bs " AND labels @> ")).ph (.json labels)).write (bs "::jsonb")

def Built.andService (b : Built) (svc : Bytes) : Built := (b.write (bs " AND service = ")).ph (.text svc)

def Built.andLevel (b : Built) (level : Bytes) : Built :=
  ((b.write (bs " AND level = ")).ph (.text level)).write (bs "::log_level")

def Built.andKeyBefore (b : Built) (c : Cursor) : Built :=
  ((((b.write (bs " AND (ts, id) < (")).ph (.time c.ts)).write (bs ", ")).ph (.text c.id)).write (bs "::uuid)")

/-! ## Optional filters -/

def Built.whenTsFrom (b : Built) (t : Time) : Built := if isZero t then b else b.andTsGe t

def Built.whenTsTo (b : Built) (t : Time) : Built := if isZero t then b else b.andTsLt t

def Built.whenText (b : Built) (text : Bytes) : Built :=
  if trimSpace text = [] then b else b.andText (trimSpace text)

def Built.whenLabels (b : Built) (labels : Labels) : Built := if labels = [] then b else b.andLabels labels

def Built.whenService (b : Built) (service : Bytes) : Built :=
  if trimSpace service = [] then b else b.andService (trimSpace service)

def Built.whenLevel (b : Built) : Option Bytes → Built
  | none => b
  | some level => b.andLevel level

def Built.whenCursor (b : Built) : Option Cursor → Built
  | none => b
  | some c => b.andKeyBefore c

/-! ## Log search -/

def selectColumns : Bytes :=
  bs "tenant_id::text, ts, id::text, service, level::text, message, labels, trace_id, span_id, raw"

def buildSearch (tenantID : Bytes) (q : SearchQuery) (fetchLimit : Int) : Built :=
  let b : Built :=
    { sql := bs "SELECT " ++ selectColumns ++ bs " FROM log_events WHERE tenant_id = $1::uuid"
      args := [.text tenantID] }
  let b := b.whenTsFrom q.tsFrom
  let b := b.whenTsTo q.tsTo
  let b := b.whenText q.text
  let b := b.whenLabels q.labels
  let b := b.whenService q.service
  let b := b.whenLevel q.level
  let b := b.whenCursor q.cursor
  (b.write (bs " ORDER BY ts DESC, id DESC LIMIT ")).ph (.int fetchLimit)

/-! ## Alert rules -/

/-- The window of a rule is always bound, also when a bound is the zero time. -/
def buildCount (tenantID : Bytes) (q : RuleQuery) (tsFrom tsTo : Time) : Built :=
  let b : Built :=
    { sql := bs "SELECT count(*) FROM log_events WHERE tenant_id = $1::uuid", args := [.text tenantID] }
  let b := b.andTsGe tsFrom
  let b := b.andTsLt tsTo
  let b := b.whenText q.text
  let b := b.whenLabels q.labels
  let b := b.whenService q.service
  b.whenLevel q.level

/-! ## Dashboard panels -/

structure SavedQueryDef where
  queryText : Bytes
  service : Bytes
  level : Option Bytes
  labels : Labels

def appendTimeRange (b : Built) (tsFrom tsTo : Time) : Built := (b.whenTsFrom tsFrom).whenTsTo tsTo

def appendFilters (b : Built) (d : SavedQueryDef) : Built :=
  (((b.whenText d.queryText).whenService d.service).whenLevel d.level).whenLabels d.labels

def buildCountQuery (tenantID : Bytes) (d : SavedQueryDef) (tsFrom tsTo : Time) : Built :=
  let b : Built :=
    { sql := bs "SELECT COUNT(*) FROM log_events WHERE tenant_id = $1::uuid", args := [.text tenantID] }
  appendFilters (appendTimeRange b tsFrom tsTo) d

def timeSeriesSelect : Bytes :=
  bs "\nSELECT\n  to_timestamp(floor(EXTRACT(EPOCH FROM ts - $2) / $3) * $3 + EXTRACT(EPOCH FROM $2)) " ++
  bs "AS bucket_start,\n  COUNT(*) AS count\nFROM log_events\nWHERE tenant_id = $1::uuid"

def buildTimeSeriesQuery (tenantID : Bytes) (d : SavedQueryDef) (tsFrom tsTo : Time) (bucketSecs : Int) : Built :=
  let b : Built := { sql := timeSeriesSelect, args := [.text tenantID, .time tsFrom, .float bucketSecs] }
  (appendFilters (appendTimeRange b tsFrom tsTo) d).write (bs " GROUP BY 1 ORDER BY 1")

def buildRecentQuery (tenantID : Bytes) (d : SavedQueryDef) (tsFrom tsTo : Time) (limit : Int) : Built :=
  let b : Built :=
    { sql := bs "SELECT " ++ selectColumns ++ bs " FROM log_events WHERE tenant_id = $1::uuid"
      args := [.text tenantID] }
  let b := appendFilters (appendTimeRange b tsFrom tsTo) d
  ((b.write (bs " ORDER BY ts DESC, id DESC")).write (bs " LIMIT ")).ph (.int limit)

def defaultPanelBuckets : Int := 30

/-- `to.Sub(from)`, which saturates at the bounds of a `time.Duration`. -/
def timeSub (tsTo tsFrom : Time) : Int := max (-2 ^ 63) (min (2 ^ 63 - 1) (tsTo - tsFrom))

/-- The width of a bucket in seconds, the quotient rounded up. -/
def bucketSize (tsFrom tsTo : Time) (n : Int) : Int :=
  let n := if n ≤ 0 then defaultPanelBuckets else n
  let dur := timeSub tsTo tsFrom
  if dur ≤ 0 then 60
  else max 1 (-((-dur) / (1000000000 * n)))

end Logalot
