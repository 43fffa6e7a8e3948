import Logalot.ApiKeys
import Logalot.Lib.Runs

/-!
# Authentication beside revocation

Any number of `Authenticate` calls (`pkg/auth/authenticator.go`) and of `Revoke`
calls (`pkg/auth/store.go`) over one database and one cache. A step is one round
trip to either; the checks of a call belong to the round trip before them.
-/

namespace Logalot

open Go Pg TtlCache

inductive AuthPhase where
  | started
  | corrupt
  | missed
  | resolved (ent : CacheEntry)
  | expired
  | returned (r : Except AuthError TenantContext)
  deriving DecidableEq

structure AuthCall where
  apiKey : Bytes
  phase : AuthPhase
  deriving DecidableEq

def beginAuth (apiKey : Bytes) : AuthPhase :=
  if apiKey = [] then .returned (.error .errNoCredential)
  else
    match parseKey apiKey with
    | none => .returned (.error .errMalformedKey)
    | some _ => .started

def afterGet (sha256 : Bytes → Bytes) (now : Time) (pk : ParsedKey) : Option (Option CacheEntry) → AuthPhase
  | none => .missed
  | some none => .corrupt
  | some (some ent) =>
    match checkEntry (sha256 pk.secret) now ent with
    | .error .errExpiredKey => .expired
    | r => .returned r

def afterValidate : Except AuthError CacheEntry → AuthPhase
  | .error e => .returned (.error e)
  | .ok ent => .resolved ent

/-- `returned` has whether the cache entry was deleted, which `Revoke` does not report. -/
inductive KeyRevokePhase where
  | begun
  | committed
  | returned (deleted : Bool)
  | failed
  deriving DecidableEq

structure RevokeCall where
  tc : TenantContext
  keyId : Bytes
  phase : KeyRevokePhase
  deriving DecidableEq

structure KeyState where
  db : KeyDb
  cache : KeyCache
  clock : Int
  calls : Nat → Option AuthCall
  revokes : Nat → Option RevokeCall

namespace KeyState

def setCall (s : KeyState) (i : Nat) (apiKey : Bytes) (phase : AuthPhase) : KeyState :=
  { s with calls := Function.update s.calls i (some ⟨apiKey, phase⟩) }

def setRevoke (s : KeyState) (i : Nat) (tc : TenantContext) (keyId : Bytes) (phase : KeyRevokePhase) : KeyState :=
  { s with revokes := Function.update s.revokes i (some ⟨tc, keyId, phase⟩) }

section Steps

variable (sha256 : Bytes → Bytes) (ttl : Int)

inductive Step : KeyState → KeyState → Prop where
  | start {s : KeyState} {i : Nat} (apiKey : Bytes) :
    s.calls i = none → Step s (s.setCall i apiKey (beginAuth apiKey))
  | get {s : KeyState} {i : Nat} {apiKey : Bytes} {pk : ParsedKey} (now : Time) :
    s.calls i = some ⟨apiKey, .started⟩ → parseKey apiKey = some pk →
    Step s (s.setCall i apiKey (afterGet sha256 now pk (s.cache.get s.clock (cacheKey pk.keyId))))
  | getFails {s : KeyState} {i : Nat} {apiKey : Bytes} :
    s.calls i = some ⟨apiKey, .started⟩ → Step s (s.setCall i apiKey .missed)
  | dropCorrupt {s : KeyState} {i : Nat} {apiKey : Bytes} {pk : ParsedKey} (fails : Bool) :
    s.calls i = some ⟨apiKey, .corrupt⟩ → parseKey apiKey = some pk →
    Step s ({ s with cache := s.cache.busted fails pk.keyId }.setCall i apiKey .missed)
  | dropExpired {s : KeyState} {i : Nat} {apiKey : Bytes} {pk : ParsedKey} (fails : Bool) :
    s.calls i = some ⟨apiKey, .expired⟩ → parseKey apiKey = some pk →
    Step s ({ s with cache := s.cache.busted fails pk.keyId }.setCall i apiKey (.returned (.error .errExpiredKey)))
  /-- The registry of tenants does not change, so the queries of `resolveKey` are one step. -/
  | resolve {s : KeyState} {i : Nat} {apiKey : Bytes} {pk : ParsedKey} (now : Time) :
    s.calls i = some ⟨apiKey, .missed⟩ → parseKey apiKey = some pk →
    Step s (s.setCall i apiKey (afterValidate (s.db.validate sha256 now pk)))
  | resolveFails {s : KeyState} {i : Nat} {apiKey : Bytes} :
    s.calls i = some ⟨apiKey, .missed⟩ → Step s (s.setCall i apiKey (.returned (.error .postgres)))
  | set {s : KeyState} {i : Nat} {apiKey : Bytes} {pk : ParsedKey} {ent : CacheEntry} (fails : Bool) :
    s.calls i = some ⟨apiKey, .resolved ent⟩ → parseKey apiKey = some pk →
    Step s ({ s with cache := s.cache.filled fails s.clock ttl pk.keyId ent }.setCall i apiKey
      (.returned (tenantContextFrom ent)))
  | revoke {s : KeyState} {i : Nat} (tc : TenantContext) (keyId : Bytes) :
    s.revokes i = none → Step s (s.setRevoke i tc keyId .begun)
  | revokeCommit {s : KeyState} {i : Nat} {tc : TenantContext} {keyId : Bytes} (now : Time) :
    s.revokes i = some ⟨tc, keyId, .begun⟩ → tc.valid = none →
    Step s ({ s with db := s.db.revoke tc.tenantId keyId now }.setRevoke i tc keyId .committed)
  /-- No tenant scope, or an error of the database. -/
  | revokeFails {s : KeyState} {i : Nat} {tc : TenantContext} {keyId : Bytes} :
    s.revokes i = some ⟨tc, keyId, .begun⟩ → Step s (s.setRevoke i tc keyId .failed)
  | revokeBust {s : KeyState} {i : Nat} {tc : TenantContext} {keyId : Bytes} (fails : Bool) :
    s.revokes i = some ⟨tc, keyId, .committed⟩ →
    Step s ({ s with cache := s.cache.busted fails keyId }.setRevoke i tc keyId (.returned !fails))
  | tick {s : KeyState} (d : Nat) : Step s { s with clock := s.clock + d }
  | evict {s : KeyState} (key : Bytes) : Step s { s with cache := s.cache.del key }

/-- At first the cache holds no entry and no call has begun. -/
def system : Runs.System KeyState :=
  { init := fun s => s.cache.All (fun _ v => v = none) ∧ s.calls = (fun _ => none) ∧ s.revokes = fun _ => none
    step := Step sha256 ttl }

end Steps

/-- A call for the key is between the row it found valid and the cache. -/
def Filling (s : KeyState) (keyId : Bytes) : Prop :=
  ∃ i apiKey pk ent, s.calls i = some ⟨apiKey, .resolved ent⟩ ∧ parseKey apiKey = some pk ∧ pk.keyId = keyId

/-- `Revoke` deletes the cache entry of a key while no call is about to fill it. -/
def BustsSettled (s t : KeyState) : Prop :=
  ∀ i tc keyId, s.revokes i = some ⟨tc, keyId, .committed⟩ →
    t.revokes i = some ⟨tc, keyId, .returned true⟩ → ¬ s.Filling keyId

def SameTables (s t : KeyState) : Prop := t.db = s.db

end KeyState

end Logalot
