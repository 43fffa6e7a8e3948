import Logalot.Alerts
import Logalot.Lib.JsString

/-!
# Alert rules

The request schemas (`packages/contracts/src/alertRule.ts`), `AlertRuleService`
(`services/control-plane/src/app/alert-rule-service.ts`) and its repository
(`adapters/postgres/alert-rule-repository.ts`) over the table `alert_rules`
(migrations 000009 and 000014). Fields of other types or names are refused by the
schemas and not represented.
-/

namespace Logalot.AlertConfig

open Js Pg

/-! ## Queries and channels -/

structure RuleQuery where
  text : Option JsString
  service : Option JsString
  level : Option Level
  labels : Option (List (JsString × JsString))
  deriving DecidableEq

def RuleQuery.empty : RuleQuery := ⟨none, none, none, none⟩

def nonBlank (s : Option JsString) : Bool := s.any fun s => trim s != []

def hasInlineQuery (query : RuleQuery) : Bool :=
  nonBlank query.text || nonBlank query.service || query.level.isSome || query.labels.any fun labels => labels != []

inductive NotifyChannel where
  | webhook (url : JsString)
  | email (recipient : JsString)
  deriving DecidableEq

inductive AlertSeverity where
  | info
  | warning
  | critical
  deriving DecidableEq

/-! ## Request schemas -/

inductive Problem where
  | tooSmall
  | tooBig
  | invalidFormat
  | custom (message : JsString)
  deriving DecidableEq

structure Issue where
  path : List String
  problem : Problem
  deriving DecidableEq

/-- The formats of URLs and email addresses. -/
structure Formats where
  url : JsString → Bool
  email : JsString → Bool

def issueIf (c : Bool) (path : List String) (problem : Problem) : List Issue := if c then [⟨path, problem⟩] else []

def lengthIssues (path : List String) (min max : Nat) (s : JsString) : List Issue :=
  issueIf (s.length < min) path .tooSmall ++ issueIf (max < s.length) path .tooBig

def isHexUnit (c : UInt16) : Bool := (48 ≤ c && c ≤ 57) || (97 ≤ c && c ≤ 102) || (65 ≤ c && c ≤ 70)

def isUuidText (s : JsString) : Bool :=
  s.length == 36 && s.zipIdx.all fun p => if p.2 ∈ [8, 13, 18, 23] then p.1 == 45 else isHexUnit p.1

def trimQuery (query : RuleQuery) : RuleQuery :=
  { query with text := query.text.map trim, service := query.service.map trim }

def queryIssues (query : RuleQuery) : List Issue :=
  (query.text.elim [] fun s => lengthIssues ["query", "text"] 0 1000 s) ++
    query.service.elim [] fun s => lengthIssues ["query", "service"] 0 200 s

def channelIssues (f : Formats) (i : Nat) : NotifyChannel → List Issue
  | .webhook url =>
    issueIf (!f.url url) ["notifyChannels", toString i, "url"] .invalidFormat ++
      lengthIssues ["notifyChannels", toString i, "url"] 0 2000 url
  | .email recipient =>
    issueIf (!f.email recipient) ["notifyChannels", toString i, "to"] .invalidFormat ++
      lengthIssues ["notifyChannels", toString i, "to"] 0 320 recipient

def channelsIssues (f : Formats) (channels : List NotifyChannel) : List Issue :=
  (channels.zipIdx.flatMap fun p => channelIssues f p.2 p.1) ++
    issueIf (20 < channels.length) ["notifyChannels"] .tooBig

def windowIssues (windowSeconds : Int) : List Issue :=
  issueIf (windowSeconds < 30) ["windowSeconds"] .tooSmall ++ issueIf (86400 < windowSeconds) ["windowSeconds"] .tooBig

structure CreateInput where
  name : JsString
  savedQueryId : Option JsString
  query : Option RuleQuery
  comparator : Option Comparator
  threshold : ℚ
  windowSeconds : Option Int
  severity : Option AlertSeverity
  enabled : Option Bool
  notifyChannels : Option (List NotifyChannel)

structure CreateAlertRuleRequest where
  name : JsString
  savedQueryId : Option JsString
  query : RuleQuery
  comparator : Comparator
  threshold : ℚ
  windowSeconds : Int
  severity : AlertSeverity
  enabled : Bool
  notifyChannels : List NotifyChannel

def CreateInput.withDefaults (r : CreateInput) : CreateAlertRuleRequest :=
  { name := trim r.name
    savedQueryId := r.savedQueryId
    query := trimQuery (r.query.getD .empty)
    comparator := r.comparator.getD .gt
    threshold := r.threshold
    windowSeconds := r.windowSeconds.getD 300
    severity := r.severity.getD .warning
    enabled := r.enabled.getD true
    notifyChannels := r.notifyChannels.getD [] }

def sourceMessage : JsString := js "provide exactly one of: savedQueryId, or a non-empty query"

def emptiedMessage : JsString := js "query cannot be emptied; set a savedQueryId to switch query source"

def CreateAlertRuleRequest.issues (f : Formats) (v : CreateAlertRuleRequest) : List Issue :=
  lengthIssues ["name"] 1 200 v.name ++
    (v.savedQueryId.elim [] fun id => issueIf (!isUuidText id) ["savedQueryId"] .invalidFormat) ++
    queryIssues v.query ++ issueIf (v.threshold < 0) ["threshold"] .tooSmall ++ windowIssues v.windowSeconds ++
    channelsIssues f v.notifyChannels

def CreateAlertRuleRequest.refinements (v : CreateAlertRuleRequest) : List Issue :=
  issueIf (v.savedQueryId.isSome == hasInlineQuery v.query) ["query"] (.custom sourceMessage)

/-- No issue of a field keeps the conditions on the whole object from being checked. -/
def checked {α : Type} (issues refinements : List Issue) (v : α) : Except (List Issue) α :=
  if issues ++ refinements ≠ [] then .error (issues ++ refinements) else .ok v

def createAlertRuleRequestSchema (f : Formats) (r : CreateInput) : Except (List Issue) CreateAlertRuleRequest :=
  checked (r.withDefaults.issues f) r.withDefaults.refinements r.withDefaults

/-- A field that is absent is left as it is; `savedQueryId` may also be `null`. -/
structure AlertRulePatch where
  name : Option JsString
  savedQueryId : Option (Option JsString)
  query : Option RuleQuery
  comparator : Option Comparator
  threshold : Option ℚ
  windowSeconds : Option Int
  severity : Option AlertSeverity
  enabled : Option Bool
  notifyChannels : Option (List NotifyChannel)
  deriving DecidableEq

def AlertRulePatch.none : AlertRulePatch :=
  ⟨.none, .none, .none, .none, .none, .none, .none, .none, .none⟩

def AlertRulePatch.trimmed (p : AlertRulePatch) : AlertRulePatch :=
  { p with name := p.name.map trim, query := p.query.map trimQuery }

def AlertRulePatch.issues (f : Formats) (v : AlertRulePatch) : List Issue :=
  (v.name.elim [] fun name => lengthIssues ["name"] 1 200 name) ++
    (v.savedQueryId.join.elim [] fun id => issueIf (!isUuidText id) ["savedQueryId"] .invalidFormat) ++
    v.query.elim [] queryIssues ++ (v.threshold.elim [] fun t => issueIf (t < 0) ["threshold"] .tooSmall) ++
    v.windowSeconds.elim [] windowIssues ++ v.notifyChannels.elim [] (channelsIssues f)

def AlertRulePatch.refinements (v : AlertRulePatch) : List Issue :=
  issueIf (v = .none) [] (.custom (js "at least one field must be provided")) ++
    issueIf (v.query.any (fun query => !hasInlineQuery query) && v.savedQueryId.isNone) ["query"]
      (.custom emptiedMessage)

def updateAlertRuleRequestSchema (f : Formats) (p : AlertRulePatch) : Except (List Issue) AlertRulePatch :=
  checked (p.trimmed.issues f) p.trimmed.refinements p.trimmed

/-! ## The table -/

structure AlertRule where
  id : Uuid
  tenantId : Uuid
  name : JsString
  savedQueryId : Option JsString
  query : RuleQuery
  comparator : Comparator
  threshold : ℚ
  windowSeconds : Int
  severity : AlertSeverity
  enabled : Bool
  notifyChannels : List NotifyChannel
  deriving DecidableEq

abbrev RuleTable := List AlertRule

inductive SqlState where
  | untranslatable
  | checkViolation
  | uniqueViolation
  deriving DecidableEq

/-- The checks of the table: `alert_rules_query_source` and the one on `window_seconds`. -/
def AlertRule.checks (r : AlertRule) : Bool :=
  (r.savedQueryId.isSome || r.query != .empty) && (30 ≤ r.windowSeconds && r.windowSeconds ≤ 86400)

/-- No text of the database has the null character, and JSON has no lone surrogates. -/
def storableText (s : JsString) : Bool := !s.contains 0

def storableJson (s : JsString) : Bool := !s.contains 0 && wellFormed s

def storableQuery (query : RuleQuery) : Bool :=
  query.text.all storableJson && query.service.all storableJson &&
    query.labels.all fun labels => labels.all fun l => storableJson l.1 && storableJson l.2

def storableChannels (channels : List NotifyChannel) : Bool :=
  channels.all fun
    | .webhook url => storableJson url
    | .email recipient => storableJson recipient

def CreateAlertRuleRequest.row (input : CreateAlertRuleRequest) (tenantId id : Uuid) : AlertRule :=
  { id, tenantId, name := input.name, savedQueryId := input.savedQueryId, query := input.query
    comparator := input.comparator, threshold := input.threshold, windowSeconds := input.windowSeconds
    severity := input.severity, enabled := input.enabled, notifyChannels := input.notifyChannels }

namespace RuleTable

/-- The statement is confined to the tenant; the checks come before the unique index of tenant and name. -/
def create (db : RuleTable) (tenantId : Uuid) (input : CreateAlertRuleRequest) (id : Uuid) :
    Except SqlState (RuleTable × AlertRule) :=
  if !(storableText input.name && storableQuery input.query && storableChannels input.notifyChannels) then
    .error .untranslatable
  else if !(input.row tenantId id).checks then .error .checkViolation
  else if db.any fun r => r.tenantId = tenantId ∧ r.name = input.name then .error .uniqueViolation
  else .ok (db ++ [input.row tenantId id], input.row tenantId id)

def findById (db : RuleTable) (tenantId id : Uuid) : Option AlertRule :=
  db.find? fun r => r.tenantId = tenantId ∧ r.id = id

def delete (db : RuleTable) (tenantId id : Uuid) : RuleTable × Bool :=
  (db.filter fun r => ¬ (r.tenantId = tenantId ∧ r.id = id), (db.findById tenantId id).isSome)

end RuleTable

def AlertRulePatch.apply (p : AlertRulePatch) (r : AlertRule) : AlertRule :=
  { r with
    name := p.name.getD r.name
    savedQueryId := p.savedQueryId.getD r.savedQueryId
    query := p.query.getD r.query
    comparator := p.comparator.getD r.comparator
    threshold := p.threshold.getD r.threshold
    windowSeconds := p.windowSeconds.getD r.windowSeconds
    severity := p.severity.getD r.severity
    enabled := p.enabled.getD r.enabled
    notifyChannels := p.notifyChannels.getD r.notifyChannels }

def AlertRulePatch.storable (p : AlertRulePatch) : Bool :=
  p.name.all storableText && p.query.all storableQuery && p.notifyChannels.all storableChannels

def RuleTable.update (db : RuleTable) (tenantId id : Uuid) (patch : AlertRulePatch) :
    Except SqlState (RuleTable × Option AlertRule) :=
  if patch = .none then .ok (db, db.findById tenantId id)
  else if !patch.storable then .error .untranslatable
  else
    match db.findById tenantId id with
    | none => .ok (db, none)
    | some r =>
      if !(patch.apply r).checks then .error .checkViolation
      else if db.any fun r' => r'.tenantId = tenantId ∧ r'.id ≠ id ∧ r'.name = (patch.apply r).name then
        .error .uniqueViolation
      else
        .ok (db.map fun r' => if r'.tenantId = tenantId ∧ r'.id = id then patch.apply r else r', some (patch.apply r))

/-! ## The service -/

inductive Operation where
  | create
  | read
  | list
  | update
  | delete
  deriving DecidableEq

def can : Role → Operation → Bool
  | .tenantAdmin, _ => true
  | .member, .read => true
  | .member, .list => true
  | _, _ => false

structure Context where
  tenantId : Uuid
  role : Role

inductive Failure where
  | forbidden
  | validation (message : JsString) (issues : List Issue)
  | conflict (message : JsString)
  | notFound (message : JsString)
  | database (code : SqlState)
  deriving DecidableEq

def assertCan (ctx : Context) (operation : Operation) : Except Failure Unit :=
  if can ctx.role operation then .ok () else .error .forbidden

def assertChannels (channels : List NotifyChannel) : Except Failure Unit :=
  match channels.find? fun
    | .webhook url => url = []
    | .email recipient => recipient = [] with
  | none => .ok ()
  | some (.webhook _) => .error (.validation (js "webhook channel requires a url") [])
  | some (.email _) => .error (.validation (js "email channel requires a recipient") [])

def assertQuerySource (savedQueryId : Option JsString) (query : RuleQuery) : Except Failure Unit :=
  if savedQueryId.isSome == hasInlineQuery query then .error (.validation sourceMessage []) else .ok ()

def notFoundMessage : JsString := js "alert rule not found"

/-- A patch may not empty the query unless it sets a saved query. -/
def assertNotEmptied (patch : AlertRulePatch) : Except Failure Unit :=
  if patch.query.any (fun query => !hasInlineQuery query) && patch.savedQueryId.join.isNone then
    .error (.validation emptiedMessage [])
  else .ok ()

/-- A clash of names is a conflict; other errors of the database are passed on. -/
def orConflict {α : Type} (message : JsString) : Except SqlState α → Except Failure α
  | .ok a => .ok a
  | .error .uniqueViolation => .error (.conflict message)
  | .error code => .error (.database code)

def orNotFound {α : Type} : RuleTable × Option α → Except Failure (RuleTable × α)
  | (db, some a) => .ok (db, a)
  | (_, none) => .error (.notFound notFoundMessage)

namespace Service

def create (db : RuleTable) (ctx : Context) (cmd : CreateAlertRuleRequest) (id : Uuid) :
    Except Failure (RuleTable × AlertRule) := do
  assertCan ctx .create
  assertChannels cmd.notifyChannels
  assertQuerySource cmd.savedQueryId cmd.query
  orConflict (js "an alert rule named '" ++ cmd.name ++ js "' already exists") (db.create ctx.tenantId cmd id)

def update (db : RuleTable) (ctx : Context) (id : Uuid) (patch : AlertRulePatch) :
    Except Failure (RuleTable × AlertRule) := do
  assertCan ctx .update
  patch.notifyChannels.elim (.ok ()) assertChannels
  assertNotEmptied patch
  let updated ← orConflict (js "an alert rule with that name already exists") (db.update ctx.tenantId id patch)
  orNotFound updated

def remove (db : RuleTable) (ctx : Context) (id : Uuid) : Except Failure RuleTable := do
  assertCan ctx .delete
  if (db.delete ctx.tenantId id).2 then .ok (db.delete ctx.tenantId id).1 else .error (.notFound notFoundMessage)

end Service

/-! ## Requests -/

def parse {α : Type} : Except (List Issue) α → Except Failure α
  | .ok a => .ok a
  | .error issues => .error (.validation (js "request validation failed") issues)

inductive Request where
  | create (body : CreateInput) (newId : Uuid)
  | update (id : Uuid) (body : AlertRulePatch)
  | remove (id : Uuid)

def handle (f : Formats) (db : RuleTable) (ctx : Context) : Request → Except Failure RuleTable
  | .create body newId => do
    let cmd ← parse (createAlertRuleRequestSchema f body)
    let r ← Service.create db ctx cmd newId
    return r.1
  | .update id body => do
    let patch ← parse (updateAlertRuleRequestSchema f body)
    let r ← Service.update db ctx id patch
    return r.1
  | .remove id => Service.remove db ctx id

end Logalot.AlertConfig
