import Logalot.Lib.Rfc3339
import Logalot.Normalize

/-!
# Validation at ingest

`validateRaw` of `services/ingest-service` decodes a payload into a struct, where
a key is matched with the name of a field up to case and `null` leaves most fields
as they are; the processor decodes the same bytes into a map. Both ends use
`encoding/json`. Only the formatting of floating-point numbers is a parameter.
-/

namespace Logalot

open Go

/-! ## The decoders of the processor -/

/-- `m[k] = v` for each member, so the last of a key is kept. -/
def decodeMap (members : List (Bytes × Bytes)) : Labels := members.foldl (fun m p => putLabel m p.1 p.2) []

/-- `formatFloat` is how a number is written again once it is a `float64`; `none` if it is out of range. -/
def goDecoder (formatFloat : Bytes → Option Bytes) : Decoder where
  object raw :=
    match Json.parse raw with
    | some .null => some []
    | some (.object members) => some (decodeMap members)
    | _ => none
  string := Json.decodeString
  int64 := Json.decodeInt64
  any raw :=
    match Json.parse raw with
    | none => none
    | some .null => some .null
    | some (.bool b) => some (.bool b)
    | some (.number text) => (formatFloat text).map .float64
    | some (.string s) => some (.string s)
    | some (.array _) | some (.object _) => some .composite
  time := parseRFC3339

/-! ## The validation schema -/

structure IngestEvent where
  message : Bytes := []
  level : Option Level := none
  service : Bytes := []
  ts : Option Time := none
  deriving Repr, DecidableEq

def ingestKeys : List Bytes := [bs "message", bs "level", bs "service", bs "ts"]

def isNull (raw : Bytes) : Bool := Json.parse raw == some .null

/-- A value stored in a field of type `string`. -/
def storeString (old raw : Bytes) : Option Bytes :=
  match Json.parse raw with
  | some .null => some old
  | some (.string s) => some s
  | _ => none

/-- `Level.UnmarshalJSON`; it is called for `null` too. -/
def unmarshalLevel (raw : Bytes) : Option Level := (Json.decodeString raw).bind parseLevelText

/-- `Time.UnmarshalJSON`, which does not unquote what stands between the quotes. -/
def unmarshalTime : Bytes → Option Time
  | [] => none
  | c :: s => if c = 34 ∧ s.getLast? = some 34 then parseRFC3339 s.dropLast else none

/-- A member stored in the field that its key names up to case; `none` is an error. -/
def IngestEvent.store (ev : IngestEvent) (m : Bytes × Bytes) : Option IngestEvent :=
  if Json.foldName m.1 = Json.foldName (bs "message") then
    (storeString ev.message m.2).map fun s => { ev with message := s }
  else if Json.foldName m.1 = Json.foldName (bs "level") then
    (unmarshalLevel m.2).map fun l => { ev with level := some l }
  else if Json.foldName m.1 = Json.foldName (bs "service") then
    (storeString ev.service m.2).map fun s => { ev with service := s }
  else if Json.foldName m.1 = Json.foldName (bs "ts") then
    if isNull m.2 then some { ev with ts := none } else (unmarshalTime m.2).map fun t => { ev with ts := some t }
  else some ev

/-- The members in the order of the text; a later one overwrites. -/
def storeAll (members : List (Bytes × Bytes)) : Option IngestEvent := members.foldlM IngestEvent.store {}

def unmarshalIngestEvent (raw : Bytes) : Option IngestEvent :=
  match Json.parse raw with
  | some .null => some {}
  | some (.object members) => storeAll members
  | _ => none

inductive ValidateError where
  /-- "malformed event json: .." -/
  | malformedEvent
  /-- "event.message is required" -/
  | messageRequired
  deriving Repr, DecidableEq

/-- `none` accepts the payload. -/
def validateRaw (raw : Bytes) : Option ValidateError :=
  match unmarshalIngestEvent raw with
  | none => some .malformedEvent
  | some ev => if trimSpace ev.message = [] then some .messageRequired else none

/-! ## What the members of a payload say -/

/-- `null` stores nothing in a field of type `string`. -/
def stringOf (raw : Bytes) : Option Bytes :=
  match Json.parse raw with
  | some (.string s) => some s
  | _ => none

def textOf (raw : Bytes) : Option Bytes := (stringOf raw).filter (· ≠ [])

def setLevel (raw : Bytes) : Option (Option Level) := (unmarshalLevel raw).map some

/-- `null` stores the absence of a time. -/
def setTime (raw : Bytes) : Option (Option Time) := if isNull raw then some none else (unmarshalTime raw).map some

/-- A time of RFC 3339, or a positive number of seconds or milliseconds. -/
def instantOf (raw : Bytes) : Option Time :=
  ((textOf raw).bind parseRFC3339).or
    ((Json.decodeInt64 raw).bind fun i => if i > 0 then some (epochToTime i) else none)

/-- What stands under the keys that name a field up to case. -/
def namedMembers (name : Bytes) (members : List (Bytes × Bytes)) : List Bytes :=
  (members.filter fun m => Json.foldName m.1 = Json.foldName name).map Prod.snd

section
variable {β : Type} (read : Bytes → Option β)

def seen (name : Bytes) (members : List (Bytes × Bytes)) : Option β :=
  ((namedMembers name members).filterMap read).getLast?

def kept (name : Bytes) (members : List (Bytes × Bytes)) : Option (Bytes × Bytes) :=
  (members.filter fun m => m.1 == name).getLast?

/-- The value of the first of some keys whose last member has one. -/
def found (keys : List Bytes) (members : List (Bytes × Bytes)) : Option β :=
  keys.findSome? fun k => (kept k members).bind fun m => read m.2

end

/-- A message that is not blank stands under one of its keys as they are spelled, and the first service, level and
time under theirs are the last that stand under `service`, `level` and `ts` in any spelling. -/
def Agree (members : List (Bytes × Bytes)) : Prop :=
  (∃ s ∈ found textOf messageKeys members, trimSpace s ≠ []) ∧
  (∀ s ∈ seen stringOf (bs "service") members, s ≠ [] → found textOf serviceKeys members = some s) ∧
  (∀ l ∈ (seen setLevel (bs "level") members).join, (found unmarshalLevel levelKeys members).getD .info = l) ∧
  ∀ t ∈ (seen setTime (bs "ts") members).join, found instantOf tsKeys members = some t

instance (members : List (Bytes × Bytes)) : Decidable (Agree members) := by
  unfold Agree
  infer_instance

end Logalot
