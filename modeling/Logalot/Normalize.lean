import Logalot.Kernel

/-!
# Normalization

`services/processor/internal/app/normalize.go`: an envelope's payload becomes
a log event. A payload that is no JSON object is poison; anything else is
tolerated, with defaults for what is missing. The decoding of JSON texts and
of RFC 3339 times is a parameter.
-/

namespace Logalot

open Go

/-- A value decoded into an `interface{}`; a number is already formatted. -/
inductive AnyValue where
  | null
  | bool (b : Bool)
  | float64 (text : Bytes)
  | string (s : Bytes)
  | composite
  deriving Repr, DecidableEq

/-- The decoders of `encoding/json` for the types the code decodes into, `none` for an error, and
`time.Parse` for RFC 3339 with optional fractions. -/
structure Decoder where
  object : Bytes → Option Labels
  string : Bytes → Option Bytes
  int64 : Bytes → Option Int
  any : Bytes → Option AnyValue
  time : Bytes → Option Time

/-! ## Accepted keys -/

def messageKeys : List Bytes := [bs "message", bs "msg", bs "text"]

def levelKeys : List Bytes := [bs "level", bs "severity", bs "lvl"]

def tsKeys : List Bytes := [bs "ts", bs "timestamp", bs "time", bs "@timestamp"]

def serviceKeys : List Bytes := [bs "service", bs "svc", bs "logger", bs "source"]

def traceKeys : List Bytes := [bs "trace_id", bs "traceId", bs "trace", bs "traceID"]

def spanKeys : List Bytes := [bs "span_id", bs "spanId", bs "span", bs "spanID"]

def labelsKeys : List Bytes := [bs "labels", bs "fields", bs "attributes", bs "attrs"]

def reservedKeys : List Bytes :=
  [messageKeys, levelKeys, tsKeys, serviceKeys, traceKeys, spanKeys, labelsKeys].flatten

/-! ## Fields -/

variable (dec : Decoder)

def firstString (m : Labels) (keys : List Bytes) : Bytes :=
  (keys.findSome? fun k => do
    let s ← dec.string (← m.lookup k)
    if s = [] then none else some s).getD []

def parseLevelText (s : Bytes) : Option Level :=
  [Level.trace, .debug, .info, .warn, .error, .fatal].find? (·.text == s)

def parseLevel (m : Labels) : Level :=
  (levelKeys.findSome? fun k => do parseLevelText (← dec.string (← m.lookup k))).getD .info

/-- From `10^12` on a number counts milliseconds, below it seconds. -/
def epochToTime (i : Int) : Time := if i ≥ 1000000000000 then i * 1000000 else i * 1000000000

def timeOf (raw : Bytes) : Option Time :=
  match (dec.string raw).bind fun s => if s = [] then none else dec.time s with
  | some t => some t
  | none => (dec.int64 raw).bind fun i => if i > 0 then some (epochToTime i) else none

def parseTS (m : Labels) (env : Envelope) (now : Time) : Time :=
  match tsKeys.findSome? fun k => (m.lookup k).bind (timeOf dec) with
  | some t => t
  | none => if isZero env.receivedAt then now else env.receivedAt

def coerceToString (raw : Bytes) : Bytes :=
  match dec.string raw with
  | some s => s
  | none =>
    match dec.any raw with
    | some .null => []
    | some (.bool b) => if b then bs "true" else bs "false"
    | some (.float64 text) => text
    | _ => raw

/-- `out[k] = v`. -/
def putLabel (out : Labels) (k v : Bytes) : Labels :=
  if (out.lookup k).isSome then out.map fun p => if p.1 = k then (k, v) else p else out ++ [(k, v)]

def explicitLabels (m : Labels) : Labels :=
  ((labelsKeys.filterMap fun k => m.lookup k).filterMap dec.object).flatten.foldl
    (fun out p => putLabel out p.1 (coerceToString dec p.2)) []

def parseLabels (m : Labels) : Labels :=
  m.foldl (fun out p =>
    if p.1 ∈ reservedKeys ∨ (out.lookup p.1).isSome then out else putLabel out p.1 (coerceToString dec p.2))
    (explicitLabels dec m)

/-! ## Events -/

inductive Poison where
  | emptyPayload
  | notAnObject
  deriving Repr, DecidableEq

/-- The tenant is that of the context, never one the payload names. -/
def normalize (tc : TenantContext) (env : Envelope) (now : Time) : Except Poison LogEvent :=
  if env.raw = [] then .error .emptyPayload
  else
    match dec.object env.raw with
    | none => .error .notAnObject
    | some m =>
      .ok { tenantId := tc.tenantId
            ts := parseTS dec m env now
            id := []
            service := firstString dec m serviceKeys
            level := parseLevel dec m
            message := firstString dec m messageKeys
            labels := parseLabels dec m
            traceId := firstString dec m traceKeys
            spanId := firstString dec m spanKeys
            raw := env.raw }

/-- A payload that `normalize` rejects, whatever the context and the clock. -/
def IsPoison (raw : Bytes) : Prop := raw = [] ∨ dec.object raw = none

variable {dec}

theorem isPoison_of_normalize {tc : TenantContext} {env : Envelope} {now : Time} {p : Poison}
    (h : normalize dec tc env now = .error p) : IsPoison dec env.raw := by
  unfold normalize at h
  split at h
  · exact Or.inl ‹_›
  · split at h
    · exact Or.inr ‹_›
    · cases h

theorem raw_of_normalize {tc : TenantContext} {env : Envelope} {now : Time} {ev : LogEvent}
    (h : normalize dec tc env now = .ok ev) : ev.raw = env.raw ∧ ¬ IsPoison dec env.raw := by
  unfold normalize at h
  split at h
  · cases h
  · split at h
    · cases h
    · rename_i hr _ m hm
      obtain rfl := Except.ok.inj h
      refine ⟨rfl, ?_⟩
      rintro (he | he)
      · exact hr he
      · rw [hm] at he; cases he

end Logalot
