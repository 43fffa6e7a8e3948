import Logalot.Ingest
import Logalot.Lib.Zones
import Logalot.Search
import Logalot.Wire

/-!
# Cursors as tokens

`encodeCursor` and `decodeCursor` of the query service
(`services/query-service/internal/adapters/httpx/cursor.go`): the position after a
page is JSON in base64. A cursor is written in the zone of its time.
-/

namespace Logalot

open Go

def Cursor.marshalIn (offset : Int) (c : Cursor) : Option Bytes :=
  (marshalTimeIn offset c.ts).map fun ts => Json.encodeObject [(bs "ts", ts), (bs "id", Json.quote c.id)]

/-- `encodeCursor` of a cursor whose time has the offset. -/
def encodeCursorIn (offset : Int) (c : Option Cursor) : Bytes :=
  ((c.bind (Cursor.marshalIn offset)).map Base64.encode).getD []

def errBadCursor : Bytes := bs "invalid cursor"

/-- A member stored in the field that its key names up to case; `null` leaves both as they are. -/
def Cursor.store (c : Cursor) (m : Bytes × Bytes) : Option Cursor :=
  if Json.foldName m.1 = Json.foldName (bs "ts") then
    if isNull m.2 then some c else (unmarshalTime m.2).map fun t => { c with ts := t }
  else if Json.foldName m.1 = Json.foldName (bs "id") then (storeString c.id m.2).map fun s => { c with id := s }
  else some c

/-- `json.Unmarshal` into a zero cursor. -/
def Cursor.unmarshal (raw : Bytes) : Option Cursor :=
  match Json.parse raw with
  | some .null => some ⟨zeroTime, []⟩
  | some (.object members) => members.foldlM Cursor.store ⟨zeroTime, []⟩
  | _ => none

def decodeCursor (token : Bytes) : Except Bytes (Option Cursor) :=
  if token = [] then .ok none
  else
    match (Base64.decode token).bind Cursor.unmarshal with
    | none => .error errBadCursor
    | some c => if c.id = [] ∨ isZero c.ts then .error errBadCursor else .ok (some c)

/-- The id is a UUID, and no search of a tenant fails for the cursor. -/
def Cursor.Binds (c : Cursor) : Prop :=
  (Pg.uuidIn c.id).isSome ∧ ∀ (fts : Fts) (db : LogTable) (tc : TenantContext) (q : SearchQuery), tc.valid = none →
    (∀ s, q.level = some s → (levelIn s).isSome) → (search fts db tc { q with cursor := some c }).isSome

/-! ## What a token holds -/

/-- The members that name a field are `null` or of its type, and the last that is of its type is kept. -/
structure FieldHolds {α : Type} (read : Bytes → Option α) (zero : α) (raws : List Bytes) (a : α) : Prop where
  typed : ∀ raw ∈ raws, isNull raw = true ∨ (read raw).isSome
  last : a = (raws.filterMap read).getLast?.getD zero

/-- The token is an object with the time and the id of the cursor. -/
def Cursor.IsIn (c : Cursor) (token : Bytes) : Prop :=
  ∃ raw members, Base64.decode token = some raw ∧ Json.parse raw = some (.object members) ∧
    FieldHolds unmarshalTime zeroTime (namedMembers (bs "ts") members) c.ts ∧
    FieldHolds stringOf [] (namedMembers (bs "id") members) c.id

end Logalot
