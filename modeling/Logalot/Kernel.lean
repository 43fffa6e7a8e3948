import Logalot.Lib.Calendar

/-!
# The shared kernel

The tenant scope every operation runs under, and the value types the services
exchange (`pkg/kernel`).
-/

namespace Logalot

open Go

/-! ## Tenant scope -/

inductive Role where
  | unset
  | tenantAdmin
  | member
  | platformOperator
  deriving Repr, DecidableEq

/-- The enumeration `tenant_status` of the database. -/
inductive TenantStatus where
  | active
  | suspended
  | deleted
  deriving Repr, DecidableEq

structure TenantContext where
  tenantId : Bytes
  principalId : Bytes := []
  role : Role := .unset
  scopes : List Bytes := []
  deriving Repr, DecidableEq

def scopeIngestWrite : Bytes := bs "ingest:write"

inductive KernelError where
  | errNoTenantContext
  | errInvalidTenantID
  deriving Repr, DecidableEq

def KernelError.text : KernelError → Bytes
  | .errNoTenantContext => bs "kernel: no tenant context"
  | .errInvalidTenantID => bs "kernel: tenant id is not a valid uuid"

def isHexDigit (c : UInt8) : Bool := isDigit c || (97 ≤ c && c ≤ 102) || (65 ≤ c && c ≤ 70)

/-- The byte `c` may stand at position `i` of a canonical UUID. -/
def uuidByteOk (c : UInt8) (i : Nat) : Bool :=
  if i = 8 ∨ i = 13 ∨ i = 18 ∨ i = 23 then c == 45 else isHexDigit c

def isUUID (s : Bytes) : Bool :=
  s.length == 36 && s.zipIdx.all fun p => uuidByteOk p.1 p.2

/-- `TenantContext.Valid`: `none` for a usable tenant scope. -/
def TenantContext.valid (tc : TenantContext) : Option KernelError :=
  if trimSpace tc.tenantId = [] then some .errNoTenantContext
  else if !isUUID tc.tenantId then some .errInvalidTenantID
  else none

/-! ## Events and queries -/

inductive Level where
  | trace
  | debug
  | info
  | warn
  | error
  | fatal
  deriving Repr, DecidableEq

def Level.text : Level → Bytes
  | .trace => bs "trace"
  | .debug => bs "debug"
  | .info => bs "info"
  | .warn => bs "warn"
  | .error => bs "error"
  | .fatal => bs "fatal"

/-- A Go map, as its entries in some iteration order. -/
abbrev Labels := List (Bytes × Bytes)

/-- An event; the level of one read from the archive may be any text. -/
structure LogEvent (α : Type := Level) where
  tenantId : Bytes
  ts : Time
  id : Bytes
  service : Bytes
  level : α
  message : Bytes
  labels : Labels
  traceId : Bytes
  spanId : Bytes
  raw : Bytes
  deriving Repr, DecidableEq

structure Envelope where
  tenantId : Bytes
  receivedAt : Time
  raw : Bytes
  deriving Repr, DecidableEq

structure Cursor where
  ts : Time
  id : Bytes
  deriving Repr, DecidableEq

/-- The level of a filter is the text the caller sent; the database checks it. -/
structure SearchQuery where
  text : Bytes := []
  service : Bytes := []
  level : Option Bytes := none
  labels : Labels := []
  tsFrom : Time := zeroTime
  tsTo : Time := zeroTime
  cursor : Option Cursor := none
  limit : Int := 0
  deriving Repr, DecidableEq

/-- What an alert rule counts (`services/alert-evaluator`). -/
structure RuleQuery where
  text : Bytes
  service : Bytes
  level : Option Bytes
  labels : Labels
  deriving Repr, DecidableEq

structure SearchPage (α : Type := Level) where
  events : List (LogEvent α)
  nextCursor : Option Cursor
  deriving Repr, DecidableEq

/-! ## Valid tenant ids -/

theorem TenantContext.isUUID_of_valid {tc : TenantContext} (h : tc.valid = none) : isUUID tc.tenantId = true := by
  unfold TenantContext.valid at h
  split at h
  · cases h
  · split at h
    · cases h
    · rename_i hu; simpa using hu

theorem TenantContext.ne_blank_of_valid {tc : TenantContext} (h : tc.valid = none) :
    trimSpace tc.tenantId ≠ [] := by
  unfold TenantContext.valid at h
  split at h
  · cases h
  · assumption

theorem uuidByteOk_cases {c : UInt8} {i : Nat} (h : uuidByteOk c i = true) : c = 45 ∨ isHexDigit c = true := by
  unfold uuidByteOk at h
  split at h
  · exact Or.inl (by simpa using h)
  · exact Or.inr h

theorem mem_of_isUUID {s : Bytes} (h : isUUID s = true) {c : UInt8} (hc : c ∈ s) :
    c = 45 ∨ isHexDigit c = true := by
  simp only [isUUID, Bool.and_eq_true, List.all_eq_true] at h
  obtain ⟨i, hi, rfl⟩ := List.mem_iff_getElem.mp hc
  exact uuidByteOk_cases (h.2 (s[i], i) (by simp [List.mem_zipIdx_iff_getElem?, hi]))

end Logalot
