import Logalot.Builders

/-!
# Log search

`Store.Search` of `pkg/logstore`: the statement built for one row more than the
page holds is run, the extra row tells whether another page follows, and the
last row kept becomes the next cursor. `Follows` is a client that follows the
cursors while events are inserted between the fetches.
-/

namespace Logalot

open Go

namespace Logstore

def defaultSearchLimit : Int := 50

def maxSearchLimit : Int := 1000

end Logstore

def searchLimit (limit : Int) : Nat :=
  if limit ≤ 0 ∨ limit > Logstore.maxSearchLimit then Logstore.defaultSearchLimit.toNat else limit.toNat

def paginate (events : List LogEvent) (limit : Nat) : List LogEvent × Option Cursor :=
  if events.length ≤ limit then (events, none)
  else
    let trimmed := events.take limit
    (trimmed, trimmed.getLast?.map fun last => { ts := last.ts, id := last.id })

/-- `none` is an error: of the context or of the server. -/
def search (fts : Fts) (db : LogTable) (tc : TenantContext) (q : SearchQuery) : Option SearchPage :=
  match tc.valid with
  | some _ => none
  | none =>
    let limit := searchLimit q.limit
    let b := buildSearch tc.tenantId q (limit + 1)
    match evalSql fts db b.sql b.args with
    | some (.events events) =>
      let p := paginate events limit
      some { events := p.1, nextCursor := p.2 }
    | _ => none

/-- The pages a client fetches from cursor `c` on until there is no next cursor,
the `i`-th from the table `dbs i`. -/
inductive Follows (fts : Fts) (tc : TenantContext) (q : SearchQuery) :
    Option Cursor → (Nat → LogTable) → List (List LogEvent) → Prop
  | last {c dbs es} : search fts (dbs 0) tc { q with cursor := c } = some ⟨es, none⟩ → Follows fts tc q c dbs [es]
  | next {c dbs es c' pages} : search fts (dbs 0) tc { q with cursor := c } = some ⟨es, some c'⟩ →
      Follows fts tc q (some c') (fun i => dbs (i + 1)) pages → Follows fts tc q c dbs (es :: pages)

/-- What a search is to return: the rows of tenant `u` that pass every filter set. -/
def SearchQuery.Matches (fts : Fts) (u : Pg.Uuid) (q : SearchQuery) (r : Row) : Prop :=
  r.tenantId = u ∧
  (isZero q.tsFrom = false → micros q.tsFrom ≤ r.ts) ∧
  (isZero q.tsTo = false → r.ts < micros q.tsTo) ∧
  (trimSpace q.text ≠ [] → fts (trimSpace q.text) r.document = true) ∧
  (∀ l ∈ q.labels, l ∈ r.labels) ∧
  (trimSpace q.service ≠ [] → r.service = trimSpace q.service) ∧
  (∀ s, q.level = some s → levelIn s = some r.level)

instance (fts : Fts) (u : Pg.Uuid) (q : SearchQuery) (r : Row) : Decidable (q.Matches fts u r) :=
  inferInstanceAs (Decidable (_ ∧ _))

end Logalot
