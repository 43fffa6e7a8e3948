import Logalot.Kernel
import Logalot.Lib.TtlCache
import Logalot.Lib.Uuid

/-!
# Ingest API keys

The authenticator of `pkg/auth`: the text form of a key (`key.go`), the lookup
of its row under row level security (`store.go`), the cache of validated keys
(`cache.go`) and `Authenticate` (`authenticator.go`). SHA-256 is a parameter.
-/

namespace Logalot

open Go Pg TtlCache

inductive AuthError where
  | errNoCredential
  | errMalformedKey
  | errUnknownKey
  | errBadSecret
  | errRevokedKey
  | errExpiredKey
  | kernel (e : KernelError)
  | postgres
  deriving Repr, DecidableEq

/-! ## Text form -/

def keyPrefix : Bytes := bs "lgk"

def keySeparator : Bytes := bs "_"

structure ParsedKey where
  publicId : Bytes
  keyId : Bytes
  secret : Bytes
  deriving Repr, DecidableEq

def parseKey (raw : Bytes) : Option ParsedKey :=
  match splitN keySeparator 4 raw with
  | [pre, publicId, keyId, secret] =>
    if pre ≠ keyPrefix then none
    else if publicId = [] ∨ keyId = [] ∨ secret = [] then none
    else some { publicId, keyId, secret }
  | _ => none

/-! ## Tables -/

structure TenantRow where
  id : Uuid
  publicId : Bytes
  status : TenantStatus
  deriving DecidableEq

structure ApiKey where
  id : Bytes
  tenantId : Uuid
  keyHash : Bytes
  scopes : List Bytes
  revokedAt : Option Time
  expiresAt : Option Time
  deriving DecidableEq

/-- The tables `tenants` and `api_keys` with their uniqueness constraints. -/
structure KeyDb where
  tenants : List TenantRow
  keys : List ApiKey
  nodup_publicId : (tenants.map TenantRow.publicId).Nodup
  nodup_id : (keys.map ApiKey.id).Nodup

/-- The policy of `api_keys` in a transaction armed for the tenant `guc`. -/
def ApiKey.Visible (guc : Bytes) (r : ApiKey) : Prop := uuidIn guc = some r.tenantId

instance (guc : Bytes) (r : ApiKey) : Decidable (r.Visible guc) := inferInstanceAs (Decidable (_ = _))

/-- `WithTenantScope`: the work runs in a transaction armed for the tenant. -/
def withTenantScope {α : Type} (tc : TenantContext) (work : Bytes → Except AuthError α) : Except AuthError α :=
  match tc.valid with
  | some e => .error (.kernel e)
  | none => work tc.tenantId

structure StoredKey where
  keyId : Bytes
  tenantId : Bytes
  keyHash : Bytes
  scopes : List Bytes
  revokedAt : Option Time
  expiresAt : Option Time
  deriving DecidableEq

/-- `scanKey` on one row. -/
def ApiKey.stored (r : ApiKey) : StoredKey :=
  { keyId := r.id
    tenantId := uuidOut r.tenantId
    keyHash := r.keyHash
    scopes := r.scopes
    revokedAt := r.revokedAt
    expiresAt := r.expiresAt }

namespace KeyDb

def resolveTenantID (db : KeyDb) (publicId : Bytes) : Except AuthError Bytes :=
  match db.tenants.find? fun t => t.publicId = publicId ∧ t.status = .active with
  | some t => .ok (uuidOut t.id)
  | none => .error .errUnknownKey

def selectKey (db : KeyDb) (guc keyId : Bytes) : Except AuthError StoredKey :=
  match db.keys.find? fun r => r.Visible guc ∧ r.id = keyId with
  | some r => .ok r.stored
  | none => .error .errUnknownKey

def resolveKey (db : KeyDb) (publicId keyId : Bytes) : Except AuthError StoredKey :=
  match db.resolveTenantID publicId with
  | .error e => .error e
  | .ok tid => withTenantScope { tenantId := tid } fun guc => db.selectKey guc keyId

/-- The `UPDATE` of `Revoke` on one row. -/
def revokeRow (guc keyId : Bytes) (now : Time) (r : ApiKey) : ApiKey :=
  if r.Visible guc ∧ r.id = keyId ∧ r.revokedAt = none then { r with revokedAt := some now } else r

theorem revokeRow_id (guc keyId : Bytes) (now : Time) (r : ApiKey) : (revokeRow guc keyId now r).id = r.id := by
  unfold revokeRow
  split <;> rfl

def revoke (db : KeyDb) (guc keyId : Bytes) (now : Time) : KeyDb :=
  { db with
    keys := db.keys.map (revokeRow guc keyId now)
    nodup_id := by
      have h : ApiKey.id ∘ revokeRow guc keyId now = ApiKey.id := funext (revokeRow_id guc keyId now)
      rw [List.map_map, h]
      exact db.nodup_id }

end KeyDb

/-! ## The cache -/

structure CacheEntry where
  tenantId : Bytes
  principalId : Bytes
  scopes : List Bytes
  keyHash : Bytes
  expiresAt : Option Time
  deriving DecidableEq

def cacheKey (keyId : Bytes) : Bytes := bs "auth:key:" ++ keyId

/-- The value of a key, `none` for bytes that are no entry. -/
abbrev KeyCache := Store Bytes (Option CacheEntry)

/-- Which of the round trips of a call to the cache fail. -/
structure CacheFaults where
  get : Bool := false
  set : Bool := false
  del : Bool := false

def KeyCache.busted (fails : Bool) (keyId : Bytes) (cache : KeyCache) : KeyCache :=
  if fails then cache else cache.del (cacheKey keyId)

def KeyCache.filled (fails : Bool) (clock ttl : Int) (keyId : Bytes) (ent : CacheEntry) (cache : KeyCache) :
    KeyCache :=
  if fails then cache else cache.set clock ttl (cacheKey keyId) (some ent)

def KeyCache.find (faults : CacheFaults) (clock : Int) (keyId : Bytes) (cache : KeyCache) : Option CacheEntry :=
  if faults.get then none else (cache.get clock (cacheKey keyId)).join

/-! ## Authentication -/

/-- `!now.Before(*expiresAt)`, for a key that expires. -/
def Expired (now : Time) (expiresAt : Option Time) : Prop := ∃ t ∈ expiresAt, ¬ now < t

instance (now : Time) (expiresAt : Option Time) : Decidable (Expired now expiresAt) :=
  match expiresAt with
  | none => .isFalse fun ⟨_, h, _⟩ => by cases h
  | some t => decidable_of_iff (¬ now < t) ⟨fun h => ⟨t, rfl, h⟩, fun ⟨_, h, hn⟩ => Option.some.inj h ▸ hn⟩

def tenantContextFrom (ent : CacheEntry) : Except AuthError TenantContext :=
  let tc : TenantContext := { tenantId := ent.tenantId, principalId := ent.principalId, scopes := ent.scopes }
  match tc.valid with
  | some e => .error (.kernel e)
  | none => .ok tc

def checkEntry (secretHash : Bytes) (now : Time) (ent : CacheEntry) : Except AuthError TenantContext :=
  if secretHash ≠ ent.keyHash then .error .errBadSecret
  else if Expired now ent.expiresAt then .error .errExpiredKey
  else tenantContextFrom ent

def StoredKey.entry (sk : StoredKey) : CacheEntry :=
  { tenantId := sk.tenantId
    principalId := sk.keyId
    scopes := sk.scopes
    keyHash := sk.keyHash
    expiresAt := sk.expiresAt }

def checkKey (secretHash : Bytes) (now : Time) (sk : StoredKey) : Except AuthError CacheEntry :=
  if secretHash ≠ sk.keyHash then .error .errBadSecret
  else if sk.revokedAt ≠ none then .error .errRevokedKey
  else if Expired now sk.expiresAt then .error .errExpiredKey
  else .ok sk.entry

def KeyDb.validate (sha256 : Bytes → Bytes) (db : KeyDb) (now : Time) (pk : ParsedKey) : Except AuthError CacheEntry :=
  match db.resolveKey pk.publicId pk.keyId with
  | .error e => .error e
  | .ok sk => checkKey (sha256 pk.secret) now sk

section Authenticate

variable (sha256 : Bytes → Bytes) (ttl : Int)

def authenticateMiss (db : KeyDb) (cache : KeyCache) (clock now : Int) (faults : CacheFaults) (pk : ParsedKey) :
    Except AuthError TenantContext × KeyCache :=
  match db.validate sha256 now pk with
  | .error e => (.error e, cache)
  | .ok ent => (tenantContextFrom ent, cache.filled faults.set clock ttl pk.keyId ent)

/-- `now` is the time of the service, `clock` that of the cache. -/
def authenticate (db : KeyDb) (cache : KeyCache) (clock now : Int) (faults : CacheFaults) (apiKey : Bytes) :
    Except AuthError TenantContext × KeyCache :=
  if apiKey = [] then (.error .errNoCredential, cache)
  else
    match parseKey apiKey with
    | none => (.error .errMalformedKey, cache)
    | some pk =>
      if faults.get then authenticateMiss sha256 ttl db cache clock now faults pk
      else
        match cache.get clock (cacheKey pk.keyId) with
        | none => authenticateMiss sha256 ttl db cache clock now faults pk
        | some none => authenticateMiss sha256 ttl db (cache.busted faults.del pk.keyId) clock now faults pk
        | some (some ent) =>
          match checkEntry (sha256 pk.secret) now ent with
          | .error .errExpiredKey => (.error .errExpiredKey, cache.busted faults.del pk.keyId)
          | r => (r, cache)

end Authenticate

end Logalot
