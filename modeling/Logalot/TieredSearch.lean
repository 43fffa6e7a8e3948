import Logalot.ColdQuery
import Logalot.Lib.Dates
import Logalot.LogTable

/-!
# Search over both tiers

`TieredSearcher` of `services/query-service`: a query is sent to the hot store,
to the cold archive or, cut at the hot horizon, to both, whose pages are then
merged. The stores are parameters, and so is the order in which `sort.Slice` leaves
events that are equal in time and id. Each call of a store is recorded.
-/

namespace Logalot

open Go

namespace QueryService

def defaultSearchLimit : Int := 50

def maxSearchLimit : Int := 1000

def defaultHotDays : Int := 30

end QueryService

/-! ## Routing -/

inductive Tier where
  | hot
  | cold
  | both
  deriving Repr, DecidableEq

/-- `hasCold` is false for a nil archive. -/
structure TieredSearcher where
  hotDays : Int
  hasCold : Bool
  enabled : Bool
  deriving Repr, DecidableEq

def newTieredSearcher (hasCold : Bool) (hotDays : Int) (enabled : Bool) : TieredSearcher :=
  { hotDays := if hotDays ≤ 0 then QueryService.defaultHotDays else hotDays, hasCold := hasCold, enabled := enabled }

variable (ts : TieredSearcher)

/-- `now.Add(-time.Duration(hotDays) * 24 * time.Hour)`, in the arithmetic of 64-bit durations. -/
def TieredSearcher.hotCutoff (now : Time) : Time := now + Int.bmod (-ts.hotDays * 86400000000000) (2 ^ 64)

def TieredSearcher.classifyTier (now : Time) (q : SearchQuery) : Tier :=
  let hotCutoff := ts.hotCutoff now
  if isZero q.tsFrom && isZero q.tsTo then .hot
  else if !isZero q.tsFrom && !isZero q.tsTo then
    if q.tsTo ≤ hotCutoff then .cold
    else if hotCutoff ≤ q.tsFrom then .hot
    else .both
  else if !isZero q.tsFrom then
    if q.tsFrom < hotCutoff then .both else .hot
  else if q.tsTo ≤ hotCutoff then .cold
  else .both

/-! ## Merging -/

/-- An event of the hot store, whose level is one of the levels, among those of both stores. -/
def LogEvent.spelled (ev : LogEvent) : LogEvent Bytes := { ev with level := ev.level.text }

def SearchPage.spelled (page : SearchPage) : SearchPage Bytes := ⟨page.events.map LogEvent.spelled, page.nextCursor⟩

section
variable {α : Type}

def newer (a b : LogEvent α) : Bool :=
  if a.ts = b.ts then !textLe a.id b.id else b.ts < a.ts

/-- `sort.Slice` with `newer`. -/
structure SortSlice (α : Type := Level) where
  sort : List (LogEvent α) → List (LogEvent α)
  perm : ∀ l, (sort l).Perm l
  sorted : ∀ l, (sort l).Pairwise fun a b => newer b a = false

/-- Events without an id are all kept; of others the first with a time and an id. -/
def dedupe : (seen : List (Time × Bytes)) → List (LogEvent α) → List (LogEvent α)
  | _, [] => []
  | seen, ev :: evs =>
    if ev.id = [] then ev :: dedupe seen evs
    else if (ev.ts, ev.id) ∈ seen then dedupe seen evs
    else ev :: dedupe ((ev.ts, ev.id) :: seen) evs

inductive Store where
  | hot
  | cold
  deriving Repr, DecidableEq

structure StoreCall where
  store : Store
  query : SearchQuery
  deriving Repr, DecidableEq

/-- A page and the text of an error, if any; a failed commit returns both. -/
abbrev Answer (α : Type := Level) := SearchPage α × Option Bytes

abbrev StoreSearch (α : Type := Level) := TenantContext → SearchQuery → Answer α

/-- One failure is logged, and the page that came with it used. -/
def mergePages (slice : SortSlice α) (limit : Int) (hot cold : Answer α) : Answer α :=
  match hot.2, cold.2 with
  | some e, some e' => (⟨[], none⟩, some (bs "tiered search: both tiers failed: " ++ e ++ bs "\n" ++ e'))
  | _, _ =>
    let deduped := slice.sort (dedupe [] (hot.1.events ++ cold.1.events))
    (⟨if limit > 0 ∧ deduped.length > limit then deduped.take limit.toNat else deduped, none⟩, none)

def TieredSearcher.split (now : Time) (q : SearchQuery) : SearchQuery × SearchQuery :=
  ({ q with tsFrom := ts.hotCutoff now, cursor := none }, { q with tsTo := ts.hotCutoff now, cursor := none })

def TieredSearcher.unionSearch (slice : SortSlice α) (hot cold : StoreSearch α) (now : Time) (tc : TenantContext)
    (q : SearchQuery) : List StoreCall × Answer α :=
  let (hotQ, coldQ) := ts.split now q
  ([⟨.hot, hotQ⟩, ⟨.cold, coldQ⟩], mergePages slice q.limit (hot tc hotQ) (cold tc coldQ))

/-! ## Search -/

def withLimit (q : SearchQuery) : SearchQuery :=
  let limit := if q.limit ≤ 0 then QueryService.defaultSearchLimit else q.limit
  { q with limit := if limit > QueryService.maxSearchLimit then QueryService.maxSearchLimit else limit }

/-- The calls a search makes, and its result. The clock reads `now` when the query is classified, and
`now'` when it is split. -/
def TieredSearcher.search (slice : SortSlice α) (hot cold : StoreSearch α) (now now' : Time) (tc : TenantContext)
    (q : SearchQuery) : List StoreCall × Answer α :=
  let q := withLimit q
  if !ts.enabled || !ts.hasCold then ([⟨.hot, q⟩], hot tc q)
  else
    match ts.classifyTier now q with
    | .cold => ([⟨.cold, q⟩], cold tc q)
    | .both => ts.unionSearch slice hot cold now' tc q
    | .hot => ([⟨.hot, q⟩], hot tc q)

end

/-! ## Time predicates -/

/-- The window of a query: from the first bound on, and before the second. -/
def SearchQuery.Contains (q : SearchQuery) (t : Time) : Prop :=
  (isZero q.tsFrom = false → q.tsFrom ≤ t) ∧ (isZero q.tsTo = false → t < q.tsTo)

instance (q : SearchQuery) (t : Time) : Decidable (q.Contains t) := inferInstanceAs (Decidable (_ ∧ _))

/-- The bounds on `ts` that `buildSearch` writes, at the resolution of the database. -/
def SearchQuery.HotWindow (q : SearchQuery) (micro : Int) : Prop :=
  (isZero q.tsFrom = false → micros q.tsFrom ≤ micro) ∧ (isZero q.tsTo = false → micro < micros q.tsTo)

instance (q : SearchQuery) (micro : Int) : Decidable (q.HotWindow micro) := inferInstanceAs (Decidable (_ ∧ _))

/-- The bounds on `dt` that `buildColdQuery` writes, the clock reading `now` there. -/
def SearchQuery.ColdWindow (now : Time) (q : SearchQuery) (dt : Bytes) : Prop :=
  textLe (timeBounds now q).1 dt = true ∧ textLe dt (timeBounds now q).2 = true

instance (now : Time) (q : SearchQuery) (dt : Bytes) : Decidable (q.ColdWindow now dt) :=
  inferInstanceAs (Decidable (_ ∧ _))

end Logalot
