import Logalot.RateLimit
import Logalot.Lib.Keyed

/-!
# The two limiters

`MemoryLimiter` (`ratelimit/memory.go`) beside `RedisLimiter`, both along a
sequence of requests of any tenants. Between requests Redis may drop the key of
a bucket; a map of a process drops nothing.
-/

namespace Logalot

open Go

/-- The field `buckets`. -/
abbrev MemoryBuckets := Bytes → Option BucketState

/-- `MemoryLimiter.Allow` at clock reading `nowMs`, with the map after it. -/
def memoryAllow (resolve : TenantContext → Limits) (buckets : MemoryBuckets) (tc : TenantContext) (nowMs : ℤ) :
    Except KernelError Decision × MemoryBuckets :=
  match tc.valid with
  | some e => (.error e, buckets)
  | none =>
    let lim := resolve tc
    if lim.unlimited then (.ok { allowed := true }, buckets)
    else
      match bucketKey tc with
      | .error e => (.error e, buckets)
      | .ok key =>
        let s := (buckets key).getD ⟨lim.burst, nowMs⟩
        let (next, d) := take s lim nowMs 1
        (.ok d, fun k => if k = key then some next else buckets k)

/-! ## Sequences -/

/-- A call of `Allow`, or the moment at which Redis drops the bucket of the tenant `id`. -/
inductive LimiterEvent where
  | request (tc : TenantContext) (nowMs : ℤ)
  | expire (id : Bytes) (moment : ℚ)

def LimiterEvent.tenant : LimiterEvent → Bytes
  | .request tc _ => tc.tenantId
  | .expire id _ => id

def LimiterEvent.key (e : LimiterEvent) : Bytes := bucketKeyPrefix ++ e.tenant

def LimiterEvent.moment : LimiterEvent → ℚ
  | .request _ nowMs => nowMs
  | .expire _ m => m

def memoryStep (resolve : TenantContext → Limits) (buckets : MemoryBuckets) :
    LimiterEvent → Option (Except KernelError Decision) × MemoryBuckets
  | .request tc nowMs => (some (memoryAllow resolve buckets tc nowMs).1, (memoryAllow resolve buckets tc nowMs).2)
  | .expire _ _ => (none, buckets)

def redisStep (resolve : TenantContext → Limits) (db : Redis) :
    LimiterEvent → Option (Except KernelError Decision) × Redis
  | .request tc nowMs => (some (allow resolve db tc nowMs).1, (allow resolve db tc nowMs).2)
  | .expire id _ => (none, fun k => if k = bucketKeyPrefix ++ id then none else db k)

/-- What Redis may do next: a key is dropped no earlier than its time to live after the last write. -/
def MayHappen (db : Redis) : LimiterEvent → Prop
  | .request _ _ => True
  | .expire id m => ∀ b, db (bucketKeyPrefix ++ id) = some b → b.state.ts + b.ttl ≤ m

def KeepsTtl (resolve : TenantContext → Limits) : Redis → List LimiterEvent → Prop
  | _, [] => True
  | db, e :: es => MayHappen db e ∧ KeepsTtl resolve (redisStep resolve db e).2 es

/-- The answer of Redis beside that of memory: whole tokens are reported. -/
def AnswersAgree : Option (Except KernelError Decision) → Option (Except KernelError Decision) → Prop
  | some (.ok d), some (.ok d') => d = { d' with remaining := ⌊d'.remaining⌋ }
  | some (.error e), some (.error e') => e = e'
  | none, none => True
  | _, _ => False

end Logalot
