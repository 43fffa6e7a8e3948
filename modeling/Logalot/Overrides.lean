import Logalot.Kernel
import Logalot.Lib.Strconv

/-!
# Limits of single tenants

`ParseOverrides` and `StaticResolver` (`ratelimit/resolver.go`): the text of
`INGEST_RATE_LIMIT_OVERRIDES` is a list of entries `id=rate:burst`, read into a
map that is looked up by the tenant id as it is written.
-/

namespace Logalot

open Go

structure LimitValues where
  rate : Double
  burst : Double
  deriving DecidableEq

inductive OverrideError where
  | missingEquals (entry : Bytes)
  | invalidTenant (id : Bytes) (err : KernelError)
  | missingColon (entry : Bytes)
  | rate (entry : Bytes) (err : NumError)
  | burst (entry : Bytes) (err : NumError)
  deriving Repr, DecidableEq

abbrev Overrides := Bytes → Option LimitValues

/-- One entry, its texts with white space cut off. -/
def parseOverride (entry : Bytes) : Except OverrideError (Bytes × LimitValues) :=
  match cut (bs "=") entry with
  | none => .error (.missingEquals entry)
  | some (id, spec) =>
    let id := trimSpace id
    match ({ tenantId := id } : TenantContext).valid with
    | some err => .error (.invalidTenant id err)
    | none =>
      match cut (bs ":") spec with
      | none => .error (.missingColon entry)
      | some (rateStr, burstStr) =>
        match parseFloat (trimSpace rateStr) with
        | .error err => .error (.rate entry err)
        | .ok rate =>
          match parseFloat (trimSpace burstStr) with
          | .error err => .error (.burst entry err)
          | .ok burst => .ok (id, ⟨rate, burst⟩)

/-- The loop of `ParseOverrides`. -/
def addOverrides : Overrides → List Bytes → Except OverrideError Overrides
  | out, [] => .ok out
  | out, entry :: rest =>
    if trimSpace entry = [] then addOverrides out rest
    else
      match parseOverride (trimSpace entry) with
      | .error err => .error err
      | .ok (id, lim) => addOverrides (fun k => if k = id then some lim else out k) rest

def parseOverrides (s : Bytes) : Except OverrideError Overrides :=
  if trimSpace s = [] then .ok fun _ => none
  else addOverrides (fun _ => none) ((trimSpace s).splitOn 44)

/-- `StaticResolver.Resolve`. -/
def staticResolve (default : LimitValues) (overrides : Overrides) (tc : TenantContext) : LimitValues :=
  (overrides tc.tenantId).getD default

/-! ## What a text says -/

def overrideTexts (s : Bytes) : List Bytes := (((trimSpace s).splitOn 44).map trimSpace).filter (· ≠ [])

/-- The entries as pairs of a tenant id and its limits; those that cannot be read are left out. -/
def overrideEntries (s : Bytes) : List (Bytes × LimitValues) :=
  (overrideTexts s).filterMap fun entry => (parseOverride entry).toOption

def SpellsLimits (entry : Bytes) (p : Bytes × LimitValues) : Prop :=
  ∃ id rateStr burstStr, entry = id ++ bs "=" ++ (rateStr ++ bs ":" ++ burstStr) ∧ p.1 = trimSpace id ∧
    parseFloat (trimSpace rateStr) = .ok p.2.rate ∧ parseFloat (trimSpace burstStr) = .ok p.2.burst

/-- The limits of the last entry that names the UUID in any letters, which is given in lower case. -/
def lastNaming (entries : List (Bytes × LimitValues)) (uuid : Bytes) : Option LimitValues :=
  (entries.map fun p => (toLower p.1, p.2)).reverse.lookup uuid

/-- The limits of the last entry that spells the id as it is given. -/
def lastSpelled (entries : List (Bytes × LimitValues)) (id : Bytes) : Option LimitValues := entries.reverse.lookup id

def numberTexts (entry : Bytes) : List Bytes :=
  match cut (bs "=") entry with
  | none => []
  | some (_, spec) =>
    match cut (bs ":") spec with
    | none => []
    | some (rateStr, burstStr) => [trimSpace rateStr, trimSpace burstStr]

end Logalot
