import Logalot.Kernel
import Logalot.Lib.Base64
import Logalot.Lib.JsonEncode
import Logalot.Lib.Rfc3339

/-!
# Events as JSON

How an event is written for the tail channel (`pkg/tailbus/tailbus.go`) and in a
page of `GET /v1/search`, and the position of a page as an opaque token
(`services/query-service/internal/adapters/httpx`). Times are in UTC.
-/

namespace Logalot

open Go

/-- A map of labels is written as `null` when it is nil, which only one without labels is. -/
def marshalLabels (isNil : Bool) (labels : Labels) : Bytes :=
  if labels = [] ∧ isNil then bs "null" else Json.encodeMap labels

/-- A payload that is no JSON is an error. -/
def marshalRaw (raw : Bytes) : Option (List (Bytes × Bytes)) :=
  if raw = [] then some [] else (Json.compact raw).map fun text => [(bs "raw", text)]

def LogEvent.marshal (isNil : Bool) (ev : LogEvent) : Option Bytes := do
  let ts ← marshalTime ev.ts
  let raw ← marshalRaw ev.raw
  some (Json.encodeObject
    ([(bs "tenant_id", Json.quote ev.tenantId), (bs "ts", ts)] ++ Json.omitEmpty (bs "id") ev.id ++
      [(bs "service", Json.quote ev.service), (bs "level", Json.quote ev.level.text),
        (bs "message", Json.quote ev.message), (bs "labels", marshalLabels isNil ev.labels)] ++
      Json.omitEmpty (bs "trace_id") ev.traceId ++ Json.omitEmpty (bs "span_id") ev.spanId ++ raw))

/-- The payload of `Bus.Publish`, with the tenant of the context; `Normalize` leaves no labels as a nil map. -/
def tailPayload (tc : TenantContext) (ev : LogEvent) : Option Bytes :=
  LogEvent.marshal true { ev with tenantId := tc.tenantId }

def Cursor.marshal (c : Cursor) : Option Bytes :=
  (marshalTime c.ts).map fun ts => Json.encodeObject [(bs "ts", ts), (bs "id", Json.quote c.id)]

/-- No cursor and one that cannot be written give the empty token. -/
def encodeCursor (c : Option Cursor) : Bytes := ((c.bind Cursor.marshal).map Base64.encode).getD []

def searchResponse (isNil : LogEvent → Bool) (page : SearchPage) : Option Bytes := do
  let events ← page.events.mapM fun ev => ev.marshal (isNil ev)
  some (Json.encodeObject
    ((bs "events", Json.encodeArray events) :: Json.omitEmpty (bs "nextCursor") (encodeCursor page.nextCursor)))

end Logalot
