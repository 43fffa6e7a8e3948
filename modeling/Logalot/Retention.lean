import Mathlib.Data.Finset.SDiff
import Logalot.ColdArchive
import Logalot.Partitions

/-!
# The retention worker

One cycle of `services/retention-worker`: the old partitions of the hot store
are dropped, and for each tenant with a policy the objects of its cold prefix
are listed page by page and those of expired dates deleted in batches. S3 is a
parameter: what it answers to a request, in terms of the objects it holds.
-/

namespace Logalot

open Go Pg

/-! ## S3 -/

abbrev ColdBucket := Finset Bytes

structure ListObjectsV2Output where
  contents : List Bytes
  isTruncated : Bool
  nextContinuationToken : Option Bytes
  deriving Repr, DecidableEq

structure S3KeyError where
  key : Bytes
  code : Bytes
  message : Bytes
  deriving Repr, DecidableEq

/-- The answers of S3; an error is its text. Some objects of a batch may be gone after an error. -/
structure S3Client where
  listObjectsV2 : ColdBucket → (pre : Bytes) → (continuationToken : Option Bytes) → Except Bytes ListObjectsV2Output
  deleteObjects : ColdBucket → List Bytes → ColdBucket × Except Bytes (List S3KeyError)

/-! ## Purging a prefix (`coldpurger.go`) -/

def maxDeleteBatch : Nat := 1000

def tenantColdPrefix (tenantID : Bytes) : Bytes := bs "logs/tenant_id=" ++ tenantID ++ bs "/"

/-- The date of a key, at midnight. -/
def parseDtFromKey (key : Bytes) : Option Time :=
  match cut (bs "/dt=") key with
  | none => none
  | some (_, rest) =>
    let dtStr := match cut (bs "/") rest with
      | some (dt, _) => dt
      | none => rest
    if dtStr.length ≠ 10 then none else parseDate dtStr

def keyExpired (cutoffDate : Time) (key : Bytes) : Bool := (parseDtFromKey key).any (· < cutoffDate)

variable (client : S3Client)

/-- The loop over the pages; `none` if more than `fuel` are requested. -/
def collectExpired (b : ColdBucket) (tenantID : Bytes) (cutoffDate : Time) :
    (fuel : Nat) → (continuationToken : Option Bytes) → (toDelete : List Bytes) → Option (Except Bytes (List Bytes))
  | 0, _, _ => none
  | fuel + 1, continuationToken, toDelete =>
    match client.listObjectsV2 b (tenantColdPrefix tenantID) continuationToken with
    | .error e => some (.error (bs "coldpurger: list objects (tenant=" ++ tenantID ++ bs "): " ++ e))
    | .ok out =>
      let toDelete := toDelete ++ out.contents.filter (keyExpired cutoffDate)
      if out.isTruncated then collectExpired b tenantID cutoffDate fuel out.nextContinuationToken toDelete
      else some (.ok toDelete)

/-- What a purge leaves, the number of objects it counts as deleted and its error. -/
structure Purged where
  bucket : ColdBucket
  deleted : Nat
  err : Option Bytes

def deleteErrorText (e : S3KeyError) : Bytes :=
  bs "coldpurger: delete error for key " ++ e.key ++ bs ": code=" ++ e.code ++ bs " msg=" ++ e.message

/-- The loop over the batches, from position `i` on. -/
def deleteFrom (keys : List Bytes) (i deleted : Nat) (b : ColdBucket) : Purged :=
  if i < keys.length then
    let fin := min (i + maxDeleteBatch) keys.length
    let batch := (keys.take fin).drop i
    match client.deleteObjects b batch with
    | (b', .error e) =>
      { bucket := b'
        deleted := deleted
        err := some (bs "coldpurger: delete batch [" ++ itoa i ++ bs ".." ++ itoa fin ++ bs "]: " ++ e) }
    | (b', .ok (e :: _)) => { bucket := b', deleted := deleted, err := some (deleteErrorText e) }
    | (b', .ok []) => deleteFrom keys (i + maxDeleteBatch) (deleted + batch.length) b'
  else { bucket := b, deleted := deleted, err := none }
termination_by keys.length - i
decreasing_by
  have : 0 < maxDeleteBatch := by decide
  omega

def deleteBatched (b : ColdBucket) (keys : List Bytes) : Purged := deleteFrom client keys 0 0 b

/-- What a call of `deleteBatched` deletes, counts and returns. -/
structure DeleteRun where
  removed : List Bytes
  deleted : Nat
  err : Option Bytes
  deriving DecidableEq

/-- The loop over the batches with what its calls come to, by the positions of the batches: a call that fails
deletes nothing, and one that succeeds deletes the keys it reports no error for. -/
def deleteRunFrom (outcome : Nat → Except Bytes (List S3KeyError)) (keys : List Bytes) (i deleted : Nat)
    (removed : List Bytes) : DeleteRun :=
  if i < keys.length then
    let fin := min (i + maxDeleteBatch) keys.length
    let batch := (keys.take fin).drop i
    match outcome i with
    | .error e =>
      { removed
        deleted
        err := some (bs "coldpurger: delete batch [" ++ itoa i ++ bs ".." ++ itoa fin ++ bs "]: " ++ e) }
    | .ok (e :: errs) =>
      { removed := removed ++ batch.filter fun k => k ∉ (e :: errs).map S3KeyError.key
        deleted
        err := some (deleteErrorText e) }
    | .ok [] => deleteRunFrom outcome keys (i + maxDeleteBatch) (deleted + batch.length) (removed ++ batch)
  else { removed, deleted, err := none }
termination_by keys.length - i
decreasing_by
  have : 0 < maxDeleteBatch := by decide
  omega

def deleteRun (outcome : Nat → Except Bytes (List S3KeyError)) (keys : List Bytes) : DeleteRun :=
  deleteRunFrom outcome keys 0 0 []

def purgeExpiredPrefixes (fuel : Nat) (b : ColdBucket) (tenantID : Bytes) (cutoffDate : Time) : Option Purged :=
  match collectExpired client b tenantID cutoffDate fuel none [] with
  | none => none
  | some (.error e) => some { bucket := b, deleted := 0, err := some e }
  | some (.ok toDelete) =>
    if toDelete = [] then some { bucket := b, deleted := 0, err := none }
    else some (deleteBatched client b toDelete)

/-! ## The cycle (`retainer.go`) -/

structure RetentionPolicy where
  tenantId : Bytes
  hotDays : Int
  coldDays : Int
  deriving Repr, DecidableEq

/-- A row of `retention_policies`, with the constraints of the table. -/
structure RetentionPolicyRow where
  tenantId : Uuid
  hotDays : Int
  coldDays : Int
  hotDays_pos : 1 ≤ hotDays
  hotDays_le : hotDays ≤ 90
  hotDays_le_coldDays : hotDays ≤ coldDays
  deriving DecidableEq

/-- `SELECT tenant_id::text, hot_days, cold_days FROM retention_policies ORDER BY tenant_id`. -/
def listAll (rows : List RetentionPolicyRow) : List RetentionPolicy :=
  (rows.insertionSort fun a b => a.tenantId ≤ b.tenantId).map fun r =>
    { tenantId := uuidOut r.tenantId, hotDays := r.hotDays, coldDays := r.coldDays }

structure Retainer where
  enabled : Bool
  dryRun : Bool
  hotDays : Int
  deriving Repr, DecidableEq

/-- `now.UTC().Truncate(24 * time.Hour).AddDate(0, 0, -coldDays)`. -/
def coldCutoff (now : Time) (coldDays : Int) : Time := (unixDay now - coldDays) * 86400000000000

/-- The sweep over the policies: the bucket afterwards, and for each tenant the error of its purge. The
failure of one does not end it. -/
def purgeAll (fuel : Nat) (now : Time) :
    List RetentionPolicy → ColdBucket → Option (ColdBucket × List (Bytes × Option Bytes))
  | [], b => some (b, [])
  | p :: policies, b =>
    match purgeExpiredPrefixes client fuel b p.tenantId (coldCutoff now p.coldDays) with
    | none => none
    | some r => (purgeAll fuel now policies r.bucket).map fun x => (x.1, (p.tenantId, r.err) :: x.2)

structure Tiers where
  hot : HotTable
  cold : ColdBucket

/-- What the outside answers to a cycle: the date of the database and whether it performs the drop,
the policies, the clock and S3. -/
structure CycleEnv where
  client : S3Client
  dbDate : Int
  dropError : Option Bytes
  policies : Except Bytes (List RetentionPolicyRow)
  now : Time

/-- A failed drop is logged, and leaves the table as it is. -/
def Retainer.dropOlderThan (r : Retainer) (env : CycleEnv) (t : HotTable) : HotTable :=
  match env.dropError with
  | some _ => t
  | none =>
    match dropLogEventsPartitionsOlderThan env.dbDate r.hotDays t with
    | some (t', _) => t'
    | none => t

structure CycleReport where
  tiers : Tiers
  purges : List (Bytes × Option Bytes)
  err : Option Bytes

/-- `none` if a listing has more than `fuel` pages. -/
def Retainer.runCycle (r : Retainer) (fuel : Nat) (env : CycleEnv) (s : Tiers) : Option CycleReport :=
  if !r.enabled then some { tiers := s, purges := [], err := none }
  else if r.dryRun then
    match env.policies with
    | .error e => some { tiers := s, purges := [], err := some e }
    | .ok _ => some { tiers := s, purges := [], err := none }
  else
    let hot := r.dropOlderThan env s.hot
    match env.policies with
    | .error e => some { tiers := { s with hot := hot }, purges := [], err := some e }
    | .ok rows =>
      match purgeAll env.client fuel env.now (listAll rows) s.cold with
      | none => none
      | some (cold, purges) => some { tiers := { hot := hot, cold := cold }, purges := purges, err := none }

/-! ## What is assumed of S3 -/

/-- The calls from a continuation token on come to an end with these keys. -/
inductive S3Client.Pages (b : ColdBucket) (pre : Bytes) : Option Bytes → List Bytes → Prop
  | last {tok out} : client.listObjectsV2 b pre tok = .ok out → out.isTruncated = false →
      S3Client.Pages b pre tok out.contents
  | more {tok out next keys} : client.listObjectsV2 b pre tok = .ok out → out.isTruncated = true →
      out.nextContinuationToken = some next → S3Client.Pages b pre (some next) keys →
      S3Client.Pages b pre tok (out.contents ++ keys)

inductive S3Client.PagesFail (b : ColdBucket) (pre : Bytes) : Option Bytes → Prop
  | now {tok e} : client.listObjectsV2 b pre tok = .error e → S3Client.PagesFail b pre tok
  | later {tok out next} : client.listObjectsV2 b pre tok = .ok out → out.isTruncated = true →
      out.nextContinuationToken = some next → S3Client.PagesFail b pre (some next) → S3Client.PagesFail b pre tok

/-- A listing ends, and one that succeeds has exactly the keys with the prefix. A deletion removes
nothing but objects of the batch, and all of them if it reports no error. -/
structure S3Client.Lawful : Prop where
  ends : ∀ b pre, (∃ keys, client.Pages b pre none keys) ∨ client.PagesFail b pre none
  lists : ∀ b pre keys, client.Pages b pre none keys → ∀ k, k ∈ keys ↔ k ∈ b ∧ pre <+: k
  sub : ∀ b batch, ∀ k ∈ (client.deleteObjects b batch).1, k ∈ b
  others : ∀ b batch, ∀ k ∈ b, k ∉ batch → k ∈ (client.deleteObjects b batch).1
  deletes : ∀ b batch, (client.deleteObjects b batch).2 = .ok [] → ∀ k ∈ batch, k ∉ (client.deleteObjects b batch).1

/-- No call for keys with the prefix fails. -/
structure S3Client.NeverFails (pre : Bytes) : Prop where
  lists : ∀ b tok, ∃ out, client.listObjectsV2 b pre tok = .ok out
  deletes : ∀ b batch, (∀ k ∈ batch, pre <+: k) → (client.deleteObjects b batch).2 = .ok []

/-! ## Runs of cycles -/

/-- What other writers do between two cycles: rows and objects are added, and partitions. -/
structure Tiers.Grows (s t : Tiers) : Prop where
  hot : ∀ p ∈ s.hot.parts, ∃ p' ∈ t.hot.parts, p'.name = p.name ∧ p.rows ⊆ p'.rows
  cold : s.cold ⊆ t.cold

/-- Cycles whose surroundings meet a condition, and other writes between them. -/
def Retainer.Cycles (r : Retainer) (ok : CycleEnv → Prop) : Tiers → Tiers → Prop :=
  Relation.ReflTransGen fun s t => s.Grows t ∨
    ∃ env fuel rep, ok env ∧ r.runCycle fuel env s = some rep ∧ rep.tiers = t

/-- A cycle that starts by `now`, with policies that keep the objects of a tenant for some days. -/
structure CycleEnv.By (now : Time) (tenantID : Bytes) (coldDays : Int) (env : CycleEnv) : Prop where
  clock : env.now ≤ now
  dbDate : env.dbDate ≤ unixDay now
  policies : ∀ rows, env.policies = .ok rows → ∀ p ∈ rows, uuidOut p.tenantId = tenantID → coldDays ≤ p.coldDays
  lawful : env.client.Lawful

end Logalot
