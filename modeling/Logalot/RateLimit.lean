import Mathlib.Algebra.Order.Floor.Ring
import Mathlib.Data.Rat.Floor
import Logalot.Kernel

/-!
# The ingest rate limiter

`services/ingest-service/internal/ratelimit`: a token bucket per tenant, held in
Redis and stepped by a script that mirrors the function `take`. The numbers are
exact; times are Unix milliseconds.
-/

namespace Logalot

open Go

structure Limits where
  rate : ℚ
  burst : ℚ
  deriving DecidableEq

def Limits.unlimited (lim : Limits) : Prop := lim.rate ≤ 0 ∨ lim.burst ≤ 0

instance (lim : Limits) : Decidable lim.unlimited := inferInstanceAs (Decidable (_ ∨ _))

/-- `retryAfter` is in milliseconds. -/
structure Decision where
  allowed : Bool
  retryAfter : ℤ := 0
  limit : ℚ := 0
  remaining : ℚ := 0
  deriving DecidableEq

structure BucketState where
  tokens : ℚ
  ts : ℤ
  deriving DecidableEq

/-! ## One step -/

def take (s : BucketState) (lim : Limits) (nowMs : ℤ) (n : ℚ) : BucketState × Decision :=
  let elapsed := if nowMs - s.ts < 0 then 0 else nowMs - s.ts
  let tokens := min lim.burst (s.tokens + elapsed / 1000 * lim.rate)
  if n ≤ tokens then
    (⟨tokens - n, nowMs⟩, { allowed := true, limit := lim.burst, remaining := tokens - n })
  else
    let retry := if 0 < lim.rate then ⌈(n - tokens) / lim.rate * 1000⌉ else 0
    (⟨tokens, nowMs⟩, { allowed := false, retryAfter := retry, limit := lim.burst, remaining := tokens })

/-- A bucket's hash, and the time to live the script last set on it. -/
structure Bucket where
  state : BucketState
  ttl : ℤ

structure ScriptReply where
  allowed : ℤ
  retryAfter : ℤ
  tokens : ℤ

/-- `tokenBucketScript` on the hash of its key. -/
def tokenBucketScript (rate burst : ℚ) (now : ℤ) (take : ℚ) (h : Option BucketState) : Bucket × ScriptReply :=
  let s := h.getD ⟨burst, now⟩
  let elapsed := if now - s.ts < 0 then 0 else now - s.ts
  let tokens := min burst (s.tokens + elapsed / 1000 * rate)
  let ttl := ⌈burst / rate * 1000⌉ + 1000
  if take ≤ tokens then
    (⟨⟨tokens - take, now⟩, ttl⟩, ⟨1, 0, ⌊tokens - take⌋⟩)
  else
    let retryAfter := if 0 < rate then ⌈(take - tokens) / rate * 1000⌉ else 0
    (⟨⟨tokens, now⟩, ttl⟩, ⟨0, retryAfter, ⌊tokens⌋⟩)

/-! ## The Redis limiter -/

def bucketKeyPrefix : Bytes := bs "ratelimit:ingest:"

def bucketKey (tc : TenantContext) : Except KernelError Bytes :=
  match tc.valid with
  | some e => .error e
  | none => .ok (bucketKeyPrefix ++ tc.tenantId)

abbrev Redis := Bytes → Option Bucket

/-- `RedisLimiter.Allow` at clock reading `nowMs`, with the database after it. -/
def allow (resolve : TenantContext → Limits) (db : Redis) (tc : TenantContext) (nowMs : ℤ) :
    Except KernelError Decision × Redis :=
  match tc.valid with
  | some e => (.error e, db)
  | none =>
    let lim := resolve tc
    if lim.unlimited then (.ok { allowed := true }, db)
    else
      match bucketKey tc with
      | .error e => (.error e, db)
      | .ok key =>
        let (b, res) := tokenBucketScript lim.rate lim.burst nowMs 1 ((db key).map Bucket.state)
        let d : Decision := { allowed := res.allowed == 1, limit := lim.burst, remaining := res.tokens }
        (.ok (if d.allowed then d else { d with retryAfter := res.retryAfter }),
          fun k => if k = key then some b else db k)

/-- A request: the clock reading that its replica passes, and what the clock of Redis reads when the script runs. -/
structure Arrival where
  nowMs : ℤ
  redisMs : ℤ
  deriving DecidableEq

/-- A key is gone once its time to live is over, here counted from the write at `since`. -/
def dropExpired (key : Bytes) (since redisMs : ℤ) (db : Redis) : Redis := fun k =>
  if k = key ∧ (db key).any (fun b => since + b.ttl < redisMs) then none else db k

/-- Requests of one tenant, of which the one before came at `since`. -/
def allowAll (resolve : TenantContext → Limits) (tc : TenantContext) :
    Redis → ℤ → List Arrival → List (Except KernelError Decision)
  | _, _, [] => []
  | db, since, a :: as =>
    let r := allow resolve (dropExpired (bucketKeyPrefix ++ tc.tenantId) since a.redisMs db) tc a.nowMs
    r.1 :: allowAll resolve tc r.2 a.redisMs as

def isAdmitted : Except KernelError Decision → Bool
  | .ok d => d.allowed
  | .error _ => false

def admitted (resolve : TenantContext → Limits) (tc : TenantContext) (as : List Arrival) : ℕ :=
  (allowAll resolve tc (fun _ => none) 0 as).countP isAdmitted

/-! ## Time refilled -/

def spread (as : List Arrival) : ℤ :=
  (as.map Arrival.nowMs).max?.getD 0 - (as.map Arrival.nowMs).min?.getD 0

/-- The time for which a bucket that is full after `fillMs` is refilled between two requests: that by which the reading
moves forward, at most until the bucket is full; and until it is full if the key is gone. -/
def refill (fillMs : ℚ) (a b : Arrival) : ℚ :=
  if a.redisMs + (⌈fillMs⌉ + 1000) < b.redisMs then fillMs else min fillMs (max 0 (b.nowMs - a.nowMs) : ℤ)

def refilled (fillMs : ℚ) : List Arrival → ℚ
  | a :: b :: as => refill fillMs a b + refilled fillMs (b :: as)
  | _ => 0

end Logalot
