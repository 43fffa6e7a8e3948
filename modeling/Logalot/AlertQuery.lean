import Logalot.AlertConfig
import Logalot.SavedQueries
import Logalot.Lib.Stringify

/-!
# The inline query of a rule

A query that `ruleQuerySchema` (`packages/contracts/src/alertRule.ts`) accepts is
written with `JSON.stringify` (`alert-rule-repository.ts`) and decoded by
`scanRule` of the evaluator (`rulestore.go`). The column in between keeps the
value that the text holds.
-/

namespace Logalot

open Go Js

/-! ## The contract -/

namespace AlertConfig

/-- The schema, as the field `query` of a request. -/
def ruleQuerySchema (query : RuleQuery) : Except (List Issue) RuleQuery :=
  if queryIssues (trimQuery query) ≠ [] then .error (queryIssues (trimQuery query)) else .ok (trimQuery query)

def levelName (l : Level) : JsString := l.text.map UInt8.toUInt16

/-- The fields of the object in the order of the schema, each with the text of its value. -/
def RuleQuery.members (query : RuleQuery) : List (JsString × Bytes) :=
  (query.text.toList.map fun s => (js "text", stringify s)) ++
    (query.service.toList.map fun s => (js "service", stringify s)) ++
    (query.level.toList.map fun l => (js "level", stringify (levelName l))) ++
    query.labels.toList.map fun labels => (js "labels", objectText (labels.map fun p => (p.1, stringify p.2)))

/-- `JSON.stringify(input.query)`. -/
def RuleQuery.stringify (query : RuleQuery) : Bytes := objectText query.members

end AlertConfig

/-! ## The evaluator -/

/-- A member stored in the field that its key names up to case; `null` is the nil pointer. -/
def RuleQuery.store (q : RuleQuery) (m : Bytes × Bytes) : Option RuleQuery :=
  if Json.foldName m.1 = Json.foldName (bs "text") then (storeString q.text m.2).map fun s => { q with text := s }
  else if Json.foldName m.1 = Json.foldName (bs "service") then
    (storeString q.service m.2).map fun s => { q with service := s }
  else if Json.foldName m.1 = Json.foldName (bs "level") then
    if isNull m.2 then some { q with level := none }
    else (unmarshalLevel m.2).map fun l => { q with level := some l.text }
  else if Json.foldName m.1 = Json.foldName (bs "labels") then
    (storeStringMap q.labels m.2).map fun l => { q with labels := l }
  else some q

/-- The query of `scanRule`; `none` is an error. -/
def scanQuery (queryRaw : Bytes) : Option RuleQuery :=
  if queryRaw = [] then some noQuery
  else
    match Json.parse queryRaw with
    | some .null => some noQuery
    | some (.object members) => members.foldlM RuleQuery.store noQuery
    | _ => none

end Logalot
