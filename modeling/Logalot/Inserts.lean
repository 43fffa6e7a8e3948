import Logalot.Lib.JsonEncode
import Logalot.Lib.TokenLists
import Logalot.PgSql
import Logalot.Pipeline

/-!
# Inserting a batch

`buildInsert` (`pkg/logstore/logstore.go`) writes one `INSERT` for the events of
an `Append`, and beside it the list of the arguments. Postgres reads the columns
and the groups of values from the text, and takes for each placeholder the
argument with its number.
-/

namespace Logalot.Inserts

open Go TokenLists

/-- A time in a zone, whose offset is in seconds. -/
structure ZonedTime where
  instant : Time
  offset : Int
  deriving Repr, DecidableEq

def ZonedTime.utc (t : ZonedTime) : ZonedTime := { t with offset := 0 }

/-- An event as `Append` gets it: its level may be any text, and its labels a nil map. -/
structure AppendEvent where
  tenantId : Bytes
  ts : ZonedTime
  id : Bytes
  service : Bytes
  level : Bytes
  message : Bytes
  labels : Option Labels
  traceId : Bytes
  spanId : Bytes
  raw : Bytes
  deriving Repr, DecidableEq

inductive InsertArg where
  | text (s : Bytes)
  | time (t : ZonedTime)
  | bytes (b : Bytes)
  | null
  deriving Repr, DecidableEq

def insertColumns : Bytes := bs "tenant_id, ts, service, level, message, labels, trace_id, span_id, raw"

def colsPerRow : Nat := 9

/-- The marshalling of a map of strings never fails. -/
def marshalLabels : Option Labels → Bytes
  | none => bs "\x7b\x7d"
  | some labels => Json.encodeMap labels

def nullIfEmpty (s : Bytes) : InsertArg := if s = [] then .null else .text s

/-- The group of values of the row whose first placeholder comes after `base`. -/
def groupText (base : Nat) : Bytes :=
  bs "($" ++ itoa (base + 1 : Nat) ++ bs "::uuid, $" ++ itoa (base + 2 : Nat) ++ bs ", $" ++ itoa (base + 3 : Nat) ++
    bs ", $" ++ itoa (base + 4 : Nat) ++ bs "::log_level, $" ++ itoa (base + 5 : Nat) ++
    bs ", $" ++ itoa (base + 6 : Nat) ++ bs "::jsonb, $" ++ itoa (base + 7 : Nat) ++
    bs ", $" ++ itoa (base + 8 : Nat) ++ bs ", $" ++ itoa (base + 9 : Nat) ++ bs "::jsonb)"

def rowArgs (tenantID : Bytes) (now : ZonedTime) (ev : AppendEvent) : List InsertArg :=
  let ts := if isZero ev.ts.instant then now else ev.ts
  let level := if ev.level = [] then bs "info" else ev.level
  let raw := if ev.raw = [] then bs "\x7b\x7d" else ev.raw
  [.text tenantID, .time ts.utc, .text ev.service, .text level, .text ev.message, .bytes (marshalLabels ev.labels),
    nullIfEmpty ev.traceId, nullIfEmpty ev.spanId, .bytes raw]

/-- The loop of `buildInsert`: what is written and appended from the event at `i` on. -/
def insertFrom (tenantID : Bytes) (now : ZonedTime) : Nat → List AppendEvent → Bytes × List InsertArg
  | _, [] => ([], [])
  | i, ev :: events =>
    let rest := insertFrom tenantID now (i + 1) events
    ((if 0 < i then bs ", " else []) ++ groupText (i * colsPerRow) ++ rest.1, rowArgs tenantID now ev ++ rest.2)

structure Insert where
  sql : Bytes
  args : List InsertArg
  deriving Repr, DecidableEq

def buildInsert (tenantID : Bytes) (now : ZonedTime) (events : List AppendEvent) : Insert :=
  let rows := insertFrom tenantID now 0 events
  ⟨bs "INSERT INTO log_events (" ++ insertColumns ++ bs ") VALUES " ++ rows.1, rows.2⟩

/-! ## How Postgres reads it -/

inductive Column where
  | tenantId
  | ts
  | service
  | level
  | message
  | labels
  | traceId
  | spanId
  | raw
  deriving Repr, DecidableEq

def Column.name : Column → Bytes
  | .tenantId => bs "tenant_id"
  | .ts => bs "ts"
  | .service => bs "service"
  | .level => bs "level"
  | .message => bs "message"
  | .labels => bs "labels"
  | .traceId => bs "trace_id"
  | .spanId => bs "span_id"
  | .raw => bs "raw"

def columns : List Column := [.tenantId, .ts, .service, .level, .message, .labels, .traceId, .spanId, .raw]

structure Value where
  number : Nat
  cast : Option Bytes
  deriving Repr, DecidableEq

structure InsertStmt where
  columns : List Column
  groups : List (List Value)
  deriving Repr, DecidableEq

def readColumn : List PgToken → Option (Column × List PgToken)
  | .word w :: ts => (columns.find? fun c => toUpper c.name = w).map fun c => (c, ts)
  | _ => none

def readValue : List PgToken → Option (Value × List PgToken)
  | .param n :: ts =>
    if ts.head? = some (.sym (bs "::")) then
      match ts.tail with
      | .word t :: rest => some (⟨n, some t⟩, rest)
      | _ => none
    else some (⟨n, none⟩, ts)
  | _ => none

def readList {α : Type} (item : List PgToken → Option (α × List PgToken)) (ts : List PgToken) :
    Option (List α × List PgToken) :=
  enclosed (.sym (bs "(")) (.sym (bs ")")) (sepBy (.sym (bs ",")) item ts.length) ts

def readInsert (sql : Bytes) : Option InsertStmt :=
  let ts := pgLex sql
  if ts.take 3 = pgLex (bs "INSERT INTO log_events") then
    (readList readColumn (ts.drop 3)).bind fun r =>
      if r.2.head? = some (.word (bs "VALUES")) then
        (sepBy (.sym (bs ",")) (readList readValue) r.2.length r.2.tail).bind fun q =>
          if q.2 = [] then some ⟨r.1, q.1⟩ else none
      else none
  else none

/-! ## What each column is to hold -/

/-- The type of a column that a value has to be cast to, folded as words are. -/
def Column.cast : Column → Option Bytes
  | .tenantId => some (bs "UUID")
  | .level => some (bs "LOG_LEVEL")
  | .labels | .raw => some (bs "JSONB")
  | .ts | .service | .message | .traceId | .spanId => none

/-- The tenant is the one given, not that of the event; the time is in UTC. -/
def Column.value (tenantID : Bytes) (now : ZonedTime) (ev : AppendEvent) : Column → InsertArg
  | .tenantId => .text tenantID
  | .ts => .time ⟨if isZero ev.ts.instant then now.instant else ev.ts.instant, 0⟩
  | .service => .text ev.service
  | .level => .text (if ev.level = [] then bs "info" else ev.level)
  | .message => .text ev.message
  | .labels => .bytes (Json.encodeMap (ev.labels.getD []))
  | .traceId => if ev.traceId = [] then .null else .text ev.traceId
  | .spanId => if ev.spanId = [] then .null else .text ev.spanId
  | .raw => .bytes (if ev.raw = [] then bs "\x7b\x7d" else ev.raw)

def groupAt (i : Nat) : List Value := columns.mapIdx fun j c => ⟨9 * i + j + 1, c.cast⟩

end Logalot.Inserts
