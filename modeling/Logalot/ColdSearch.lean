import Logalot.Lib.Json
import Logalot.Normalize
import Logalot.TieredSearch

/-!
# Reading the cold archive

`Store.Search` of `pkg/coldstore`: behind a flag and the check of the tenant
predicate, a query is started at Athena, polled until it ends, and the rows of
its first page of results become events. Athena's answers are parameters.
`Fetch` is a search of the query service with both stores.
-/

namespace Logalot

open Go

/-! ## Athena -/

inductive QueryState where
  | queued
  | running
  | succeeded
  | failed (reason : Bytes)
  | cancelled
  deriving Repr, DecidableEq

/-- The cells of a row of results, `none` for NULL. -/
abbrev AthenaRow := List (Option Bytes)

structure Athena where
  /-- The id of an execution, or the text of an error. -/
  start : Bytes → Except Bytes Bytes
  /-- The answers to the polls of an execution before the context ends. -/
  polls : Bytes → List (Except Bytes QueryState)
  contextErr : Bytes
  results : Bytes → Except Bytes (List AthenaRow)

/-- `none` once the query has succeeded. -/
def pollQuery (contextErr : Bytes) : List (Except Bytes QueryState) → Option Bytes
  | [] => some contextErr
  | .error e :: _ => some (bs "coldstore: get query execution: " ++ e)
  | .ok .succeeded :: _ => none
  | .ok (.failed reason) :: _ => some (bs "coldstore: query failed: " ++ reason)
  | .ok .cancelled :: _ => some (bs "coldstore: query cancelled")
  | .ok _ :: polls => pollQuery contextErr polls

/-! ## Results -/

/-- A cell as text; NULL and a missing cell are empty. -/
def AthenaRow.str (row : AthenaRow) (i : Nat) : Bytes := (row[i]?.join).getD []

/-- `fmt.Sscanf` with `%d`: what follows the digits is ignored. -/
def scanInt64 (s : Bytes) : Option Int :=
  let unsigned := match s with | c :: r => if c = 45 ∨ c = 43 then r else s | [] => []
  let digits := unsigned.takeWhile isDigit
  Json.parseInt64 (if s.head? = some 45 then 45 :: digits else digits)

/-- Decoding into a `map[string]string`; one value that is no text fails the whole. -/
def decodeStringMap (raw : Bytes) : Option Labels :=
  match Json.parse raw with
  | some .null => some []
  | some (.object members) =>
    (members.mapM fun m => (Json.decodeString m.2).map fun s => (m.1, s)).map fun ms =>
      ms.foldl (fun out p => putLabel out p.1 p.2) []
  | _ => none

/-- The level is kept as it is. -/
def rowToEvent (row : AthenaRow) : LogEvent Bytes :=
  { tenantId := []
    ts := ((scanInt64 (row.str 0)).map fun ms => ms * 1000000).getD zeroTime
    id := row.str 1
    service := row.str 2
    level := row.str 3
    message := row.str 4
    labels := if row.str 5 = [] ∨ row.str 5 = bs "\x7b\x7d" then [] else (decodeStringMap (row.str 5)).getD []
    traceId := []
    spanId := []
    raw := [] }

/-- The first row is that of the column names. -/
def fetchResults (rows : List AthenaRow) (limit : Int) : SearchPage Bytes :=
  let events := rows.tail.map rowToEvent
  ⟨if limit > 0 ∧ events.length > limit then events.take limit.toNat else events, none⟩

/-! ## Search -/

def errColdSearchDisabled : Bytes := bs "coldstore: cold search is disabled (feature flag off)"

structure ColdStore where
  searchEnabled : Bool
  athena : Option Athena

/-- No page comes with an error. -/
def coldFailure (e : Bytes) : Answer Bytes := (⟨[], none⟩, some e)

def Athena.run (a : Athena) (sql : Bytes) (limit : Int) : Answer Bytes :=
  match a.start sql with
  | .error e => coldFailure (bs "coldstore: start query: " ++ e)
  | .ok qid =>
    match pollQuery a.contextErr (a.polls qid) with
    | some e => coldFailure e
    | none =>
      match a.results qid with
      | .error e => coldFailure (bs "coldstore: get results: " ++ e)
      | .ok rows => (fetchResults rows limit, none)

/-- The clock reads `now` when the query is built. -/
def ColdStore.search (st : ColdStore) (now : Time) : StoreSearch Bytes := fun tc q =>
  if !st.searchEnabled then coldFailure errColdSearchDisabled
  else
    match tc.valid with
    | some e => coldFailure e.text
    | none =>
      match st.athena with
      | none => coldFailure (bs "coldstore: Athena client not configured")
      | some a =>
        let sql := buildColdQuery now tc q
        match checkTenantPredicate sql tc.tenantId with
        | some e => coldFailure (bs "coldstore: fitness gate: " ++ e)
        | none => a.run sql q.limit

end Logalot
