import Mathlib.Data.List.Sort
import Logalot.Kernel
import Logalot.Lib.Dates

/-!
# The cold archive

`Store.Archive` of `pkg/coldstore`: the events of a batch are grouped by the
UTC date and hour of their timestamps, and each group is written as one object
under the prefix of the tenant of the context.
-/

namespace Logalot

open Go

def hour (t : Time) : Int := t / 3600000000000 % 24

/-- The key of an object (`parquet.go`). -/
def coldKey (tenantID batchID : Bytes) (t : Time) : Bytes :=
  bs "logs/tenant_id=" ++ tenantID ++ bs "/dt=" ++ formatDate t ++ bs "/hour=" ++ padInt (hour t) 2 ++ bs "/" ++
    batchID ++ bs ".parquet"

/-- A row of an object; the labels are encoded as one JSON text. -/
structure ColdLogRecord where
  tenantId : Bytes
  ts : Int
  id : Bytes
  service : Bytes
  level : Bytes
  message : Bytes
  labels : Labels
  traceId : Bytes
  spanId : Bytes
  raw : Bytes
  deriving Repr, DecidableEq

/-- `t.UnixMilli()`, in the arithmetic of 64-bit integers. -/
def unixMilli (t : Time) : Int := Int.bmod (t / 1000000) (2 ^ 64)

/-- The time of an event, or the clock's if it has none. -/
def resolveTS (now : Time) (ev : LogEvent) : Time := if isZero ev.ts then now else ev.ts

/-- The record of an event; the tenant is that of the context, not the one the event names. -/
def coldRecord (tc : TenantContext) (t : Time) (ev : LogEvent) : ColdLogRecord :=
  { tenantId := tc.tenantId
    ts := unixMilli t
    id := ev.id
    service := ev.service
    level := ev.level.text
    message := ev.message
    labels := ev.labels
    traceId := ev.traceId
    spanId := ev.spanId
    raw := if ev.raw = [] then bs "\x7b\x7d" else ev.raw }

/-- The clock is read again here: `now i` at the `i`-th event, if that has no time. -/
def encodeParquet (tc : TenantContext) (now : Nat → Time) (events : List LogEvent) : List ColdLogRecord :=
  events.zipIdx.map fun (ev, i) => coldRecord tc (resolveTS (now i) ev) ev

/-! ## Groups -/

/-- Events of one hour, with the time of the first. -/
structure EventGroup where
  pk : Bytes
  t : Time
  events : List LogEvent
  deriving Repr, DecidableEq

/-- `t.Format("2006-01-02-15")`. -/
def partitionKey (t : Time) : Bytes := formatDate t ++ bs "-" ++ padInt (hour t) 2

def addToGroup (groups : List EventGroup) (t : Time) (ev : LogEvent) : List EventGroup :=
  if ∃ g ∈ groups, g.pk = partitionKey t then
    groups.map fun g => if g.pk = partitionKey t then { g with events := g.events ++ [ev] } else g
  else groups ++ [{ pk := partitionKey t, t := t, events := [ev] }]

/-- The clock reads `now i` at the `i`-th event, if that has no time. -/
def partitionEvents (now : Nat → Time) (events : List LogEvent) : List EventGroup :=
  (events.zipIdx.foldl (fun groups (ev, i) => addToGroup groups (resolveTS (now i) ev) ev) []).insertionSort
    fun a b => textLe a.pk b.pk = true

/-! ## Writing -/

structure ColdObject where
  key : Bytes
  /-- The time the key was made of. -/
  t : Time
  records : List ColdLogRecord
  deriving Repr, DecidableEq

def coldObject (tc : TenantContext) (now : Nat → Time) (batchID : Bytes) (g : EventGroup) : ColdObject :=
  { key := coldKey tc.tenantId batchID g.t, t := g.t, records := encodeParquet tc now g.events }

/-- The objects for the groups, under fresh batch ids; `now i` is the clock when the `i`-th is encoded. -/
def coldObjects (tc : TenantContext) (now : Nat → Nat → Time) (batchIDs : Nat → Bytes) (groups : List EventGroup) :
    List ColdObject :=
  groups.zipIdx.map fun (g, i) => coldObject tc (now i) (batchIDs i) g

/-- The objects put before the first failure, and whether there was none; the registration of a
partition in the catalogue never fails the call. -/
def putObjects (puts : Nat → Bool) : Nat → List ColdObject → List ColdObject × Bool
  | _, [] => ([], true)
  | i, o :: os =>
    if puts i then
      let r := putObjects puts (i + 1) os
      (o :: r.1, r.2)
    else ([], false)

/-- What one call writes, and whether it returns without an error. -/
def archive (tc : TenantContext) (filed : Nat → Time) (encoded : Nat → Nat → Time) (batchIDs : Nat → Bytes)
    (puts : Nat → Bool) (events : List LogEvent) : List ColdObject × Bool :=
  match tc.valid with
  | some _ => ([], false)
  | none => putObjects puts 0 (coldObjects tc encoded batchIDs (partitionEvents filed events))

/-- Some call wrote the object, and the event is one of those in it. -/
def Archived (tc : TenantContext) (ev : LogEvent) (o : ColdObject) : Prop :=
  ∃ filed encoded batchIDs puts events, o ∈ (archive tc filed encoded batchIDs puts events).1 ∧
    ∃ g ∈ partitionEvents filed events, ∃ now batchID, ev ∈ g.events ∧ o = coldObject tc now batchID g

end Logalot
