import Logalot.Alerts
import Logalot.Ingest
import Logalot.Panels

/-!
# Saved queries

The table `saved_queries` (migration 000007), of which `filters` is a JSON text,
and its two readers: the alert evaluator, which fetches the queries of a batch
of rules at once (`resolveSavedQueriesBatch` of `rulestore.go`), and the panels
(`PanelStore.Resolve` of `panelstore.go`). Each decodes the filters and has its
own compiler of them.
-/

namespace Logalot

open Go Pg

structure SavedQueryRow where
  id : Uuid
  tenantId : Uuid
  queryText : Bytes
  filtersRaw : Bytes
  deriving DecidableEq

structure SavedQueryTable where
  rows : List SavedQueryRow
  nodup_id : (rows.map SavedQueryRow.id).Nodup

/-! ## Filters -/

structure QueryFilters where
  service : Bytes := []
  level : Bytes := []
  labels : Labels := []
  deriving DecidableEq

/-- A value stored in a field of type `map[string]string`, which keeps what the map holds already. -/
def storeStringMap (old : Labels) (raw : Bytes) : Option Labels :=
  match Json.parse raw with
  | some .null => some []
  | some (.object members) =>
    members.foldlM (fun out m => (Json.decodeString m.2).map fun s => putLabel out m.1 s) old
  | _ => none

def QueryFilters.store (f : QueryFilters) (m : Bytes × Bytes) : Option QueryFilters :=
  if Json.foldName m.1 = Json.foldName (bs "service") then
    (storeString f.service m.2).map fun s => { f with service := s }
  else if Json.foldName m.1 = Json.foldName (bs "level") then
    (storeString f.level m.2).map fun s => { f with level := s }
  else if Json.foldName m.1 = Json.foldName (bs "labels") then
    (storeStringMap f.labels m.2).map fun l => { f with labels := l }
  else some f

def unmarshalFilters (raw : Bytes) : Option QueryFilters :=
  match Json.parse raw with
  | some .null => some {}
  | some (.object members) => members.foldlM QueryFilters.store {}
  | _ => none

def hasFilters (raw : Bytes) : Bool := raw != [] && raw != bs "\x7b\x7d"

/-! ## The alert evaluator -/

def noQuery : RuleQuery := { text := [], service := [], level := none, labels := [] }

/-- The fields of a row that `applyBatchResolutions` writes into a rule. -/
def SavedQueryRow.resolution (row : SavedQueryRow) : SavedQuery :=
  { queryText := row.queryText
    filters :=
      if hasFilters row.filtersRaw then (unmarshalFilters row.filtersRaw).map fun f => (f.service, f.level, f.labels)
      else none }

def neededQueries (rules : List Rule) : List (Uuid × Uuid) :=
  rules.filterMap fun r => if r.query.isEmpty then r.savedQueryId.map fun id => (id, r.tenantId) else none

/-- The rows of the needed ids and of the needed tenants, by id and tenant. -/
def lookupQueries (saved : SavedQueryTable) (needed : List (Uuid × Uuid)) : SavedQueries := fun id tenantId =>
  let fetched := saved.rows.filter fun row => row.id ∈ needed.map Prod.fst ∧ row.tenantId ∈ needed.map Prod.snd
  (fetched.find? fun row => row.id = id ∧ row.tenantId = tenantId).map SavedQueryRow.resolution

def resolveSavedQueriesBatch (saved : SavedQueryTable) (rules : List Rule) : List Rule :=
  if neededQueries rules = [] then rules else rules.map (Rule.resolve (lookupQueries saved (neededQueries rules)))

/-- The map that `resolveSavedQueriesBatch` fills row by row: of rows with the same id and tenant the last one stays. -/
def lookupRows (fetched : List SavedQueryRow) : SavedQueries :=
  fetched.foldl
    (fun lookup row id tenantId =>
      if id = row.id ∧ tenantId = row.tenantId then some row.resolution else lookup id tenantId)
    fun _ _ => none

/-- What the query may return: the rows of the needed ids and tenants in any order, or an error. Here an id may
belong to several tenants. -/
def FetchesSaved (saved : List SavedQueryRow) (needed : List (Uuid × Uuid)) : Option (List SavedQueryRow) → Prop
  | none => True
  | some fetched =>
    fetched.Perm (saved.filter fun row => row.id ∈ needed.map Prod.fst ∧ row.tenantId ∈ needed.map Prod.snd)

/-- `resolveSavedQueriesBatch` with the rows it fetches. -/
def resolveFetched (fetched : Option (List SavedQueryRow)) (rules : List Rule) : List Rule :=
  if neededQueries rules = [] then rules
  else
    match fetched with
    | none => rules
    | some rows => rules.map (Rule.resolve (lookupRows rows))

/-- `LogCounter.Count`. -/
def countEvents (fts : Fts) (db : LogTable) (tc : TenantContext) (q : RuleQuery) (tsFrom tsTo : Time) : Option Nat :=
  match tc.valid with
  | some _ => none
  | none =>
    let b := buildCount tc.tenantId q tsFrom tsTo
    match evalSql fts db b.sql b.args with
    | some (.count n) => some n
    | _ => none

/-- The count of `evaluateRule`, for the tenant of the rule; a rule without an effective query has none. -/
def Rule.count (fts : Fts) (db : LogTable) (r : Rule) (tsFrom tsTo : Time) : Option Nat :=
  if r.query.isEmpty then none else countEvents fts db { tenantId := uuidOut r.tenantId } r.query tsFrom tsTo

/-! ## Panels -/

def SavedQueryRow.toDef (row : SavedQueryRow) : SavedQueryDef :=
  let d : SavedQueryDef := { queryText := row.queryText, service := [], level := none, labels := [] }
  if hasFilters row.filtersRaw then
    match unmarshalFilters row.filtersRaw with
    | some f => { d with
        service := f.service, level := if f.level = [] then d.level else some f.level, labels := f.labels }
    | none => d
  else d

/-- `PanelStore.Resolve`: an error, or the definition if the tenant sees one. -/
def SavedQueryTable.resolve (saved : SavedQueryTable) (tc : TenantContext) (savedQueryID : Bytes) :
    Option (Option SavedQueryDef) :=
  match tc.valid with
  | some _ => none
  | none =>
    match uuidIn tc.tenantId, uuidIn savedQueryID with
    | some u, some id => some ((saved.rows.find? fun row => row.tenantId = u ∧ row.id = id).map SavedQueryRow.toDef)
    | _, _ => none

/-! ## Searches -/

/-- The search for a definition, without cursor. -/
def SavedQueryDef.window (d : SavedQueryDef) (tsFrom tsTo : Time) : SearchQuery :=
  { text := d.queryText, service := d.service, level := d.level, labels := d.labels, tsFrom, tsTo }

def searchCount (fts : Fts) (db : LogTable) (tenantID : Bytes) (q : SearchQuery) (fetchLimit : Int) : Option Nat :=
  match evalSql fts db (buildSearch tenantID q fetchLimit).sql (buildSearch tenantID q fetchLimit).args with
  | some (.events es) => some es.length
  | _ => none

end Logalot
