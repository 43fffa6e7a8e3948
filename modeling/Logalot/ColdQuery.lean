import Logalot.Fitness

/-!
# The cold query builder

`buildColdQuery` (`pkg/coldstore/query.go`) renders the Athena `SELECT` of a
tenant-scoped search. Values are inlined as quoted literals; those of the user
are escaped. The labels of a query are listed in the order in which the loop
over the map visits them, and `now` is the clock read by `timeBounds`.
-/

namespace Logalot

open Go

def defaultSearchLimit : Int := 50

def maxSearchLimit : Int := 1000

def escapeSQ (s : Bytes) : Bytes := replaceAll s [quote] [quote, quote]

def timeBounds (now : Time) (q : SearchQuery) : Bytes × Bytes :=
  let fromDate := if isZero q.tsFrom then bs "2026-01-01" else formatDate q.tsFrom
  let toDate := if isZero q.tsTo then formatDate now else formatDate q.tsTo
  (fromDate, toDate)

def labelPredicate (l : Bytes × Bytes) : Bytes :=
  bs "\n  AND json_extract_scalar(labels, '$." ++ escapeSQ l.1 ++ bs "') = '" ++ escapeSQ l.2 ++ bs "'"

def clampLimit (limit : Int) : Int :=
  if limit ≤ 0 ∨ limit > maxSearchLimit then defaultSearchLimit else limit

def buildColdQuery (now : Time) (tc : TenantContext) (q : SearchQuery) : Bytes :=
  let bounds := timeBounds now q
  let text := trimSpace q.text
  let svc := trimSpace q.service
  bs "SELECT ts, id, service, level, message, labels\n" ++
  bs "FROM logalot_cold.log_events\n" ++
  bs "WHERE tenant_id = '" ++ tc.tenantId ++ bs "'" ++
  bs "\n  AND dt BETWEEN '" ++ bounds.1 ++ bs "' AND '" ++ bounds.2 ++ bs "'" ++
  bs "\n  AND ( '" ++ escapeSQ text ++ bs "' = '' OR regexp_like(message, '" ++ escapeSQ text ++ bs "') )" ++
  bs "\n  AND ( '" ++ escapeSQ svc ++ bs "' = '' OR service = '" ++ escapeSQ svc ++ bs "' )" ++
  q.labels.flatMap labelPredicate ++
  bs "\nORDER BY ts DESC\nLIMIT " ++ itoa (clampLimit q.limit)

end Logalot
