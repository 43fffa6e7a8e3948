import Mathlib.Data.Rat.Defs
import Logalot.Kernel
import Logalot.Lib.Ordered
import Logalot.Lib.Runs
import Logalot.Lib.Uuid

/-!
# The alert evaluator

`services/alert-evaluator`: any number of replicas run evaluation cycles
(`internal/app/evaluator.go`) over the tables `alert_rules` and
`alert_notifications` (`internal/adapters/postgres/rulestore.go`). A step of a
replica is one call of a port; what the ports return of the logs and of the
notifier is arbitrary, and a replica may crash between any two steps.
-/

namespace Logalot

open Go Pg

/-! ## Rules -/

inductive AlertState where
  | ok
  | firing
  | noData
  deriving Repr, DecidableEq

inductive Comparator where
  | gt
  | gte
  | lt
  | lte
  | eq
  deriving Repr, DecidableEq

inductive Float64 where
  | nan
  | inf (negative : Bool)
  | fin (q : ℚ)
  deriving DecidableEq

namespace Float64

/-- A conversion rounds to 53 significant bits, ties to even. -/
def roundNat (m : Nat) : Nat :=
  let e := m.log2 - 52
  let q := m / 2 ^ e
  let r := m % 2 ^ e
  if 2 ^ e < 2 * r ∨ (2 * r = 2 ^ e ∧ q % 2 = 1 ∧ e ≠ 0) then (q + 1) * 2 ^ e else q * 2 ^ e

def ofInt (n : Int) : Float64 := .fin (if n < 0 then -(roundNat n.natAbs : ℚ) else roundNat n.natAbs)

def lt : Float64 → Float64 → Bool
  | .fin p, .fin q => p < q
  | .inf true, .fin _ => true
  | .fin _, .inf false => true
  | .inf true, .inf false => true
  | _, _ => false

def eq : Float64 → Float64 → Bool
  | .fin p, .fin q => p = q
  | .inf a, .inf b => a = b
  | _, _ => false

end Float64

def crosses (v : Float64) (cmp : Comparator) (threshold : Float64) : Bool :=
  match cmp with
  | .gt => threshold.lt v
  | .gte => threshold.lt v || v.eq threshold
  | .lt => v.lt threshold
  | .lte => v.lt threshold || v.eq threshold
  | .eq => v.eq threshold

def decideState (count : Int) (cmp : Comparator) (threshold : Float64) : AlertState :=
  if crosses (.ofInt count) cmp threshold then .firing else .ok

def RuleQuery.isEmpty (q : RuleQuery) : Bool :=
  trimSpace q.text = [] ∧ trimSpace q.service = [] ∧ q.level = none ∧ q.labels = []

structure Channel where
  type : Bytes
  url : Bytes
  recipient : Bytes
  deriving DecidableEq

/-- A row of `alert_rules`; `none` for a jsonb column that does not decode. -/
structure AlertRule where
  id : Uuid
  tenantId : Uuid
  name : Bytes
  comparator : Comparator
  threshold : Float64
  windowSeconds : Int
  severity : Bytes
  enabled : Bool
  query : Option RuleQuery
  channels : Option (List Channel)
  savedQueryId : Option Uuid
  state : AlertState
  transitionSeq : Nat
  lastEvaluatedAt : Option Time
  lastTriggeredAt : Option Time
  lastNotifiedAt : Option Time
  deriving DecidableEq

/-- What the evaluator is given of a row. -/
structure Rule where
  id : Uuid
  tenantId : Uuid
  name : Bytes
  comparator : Comparator
  threshold : Float64
  windowSeconds : Int
  severity : Bytes
  state : AlertState
  transitionSeq : Nat
  savedQueryId : Option Uuid
  query : RuleQuery
  channels : List Channel
  deriving DecidableEq

def AlertRule.scan (r : AlertRule) : Option Rule :=
  match r.query, r.channels with
  | some query, some channels =>
    some
      { id := r.id
        tenantId := r.tenantId
        name := r.name
        comparator := r.comparator
        threshold := r.threshold
        windowSeconds := r.windowSeconds
        severity := r.severity
        state := r.state
        transitionSeq := r.transitionSeq
        savedQueryId := r.savedQueryId
        query
        channels }
  | _, _ => none

/-- `filters` is `none` for an empty object and for one that does not decode. -/
structure SavedQuery where
  queryText : Bytes
  filters : Option (Bytes × Bytes × Labels)

abbrev SavedQueries := Uuid → Uuid → Option SavedQuery

def SavedQuery.apply (sq : SavedQuery) (q : RuleQuery) : RuleQuery :=
  match sq.filters with
  | none => { q with text := sq.queryText }
  | some (service, level, labels) =>
    { text := sq.queryText
      service
      level := if level = [] then q.level else some level
      labels }

/-- `applyBatchResolutions` on one rule. -/
def Rule.resolve (saved : SavedQueries) (r : Rule) : Rule :=
  match r.savedQueryId with
  | none => r
  | some id =>
    if !r.query.isEmpty then r
    else
      match saved id r.tenantId with
      | none => r
      | some sq => { r with query := sq.apply r.query }

/-! ## The outbox -/

structure OutboxRow where
  id : Uuid
  tenantId : Uuid
  ruleId : Uuid
  transitionSeq : Nat
  toState : AlertState
  observedCount : Int
  threshold : Float64
  occurredAt : Time
  dispatchedAt : Option Time
  deriving DecidableEq

structure Notification where
  id : Uuid
  tenantId : Uuid
  ruleId : Uuid
  ruleName : Bytes
  transitionSeq : Nat
  toState : AlertState
  severity : Bytes
  observedCount : Int
  threshold : Float64
  channels : List Channel
  occurredAt : Time
  deriving DecidableEq

structure TransitionInput where
  rule : Rule
  expectedFrom : AlertState
  target : AlertState
  observedCount : Int
  now : Time
  deriving DecidableEq

/-- The tables with their primary keys. -/
structure AlertDb where
  rules : List AlertRule
  outbox : List OutboxRow
  nodup_rules : (rules.map AlertRule.id).Nodup
  nodup_outbox : (outbox.map OutboxRow.id).Nodup

namespace AlertDb

theorem nodup_map_id {α β : Type} {l : List α} {key : α → β} {f : α → α} (hn : (l.map key).Nodup)
    (hf : ∀ a, key (f a) = key a) : ((l.map f).map key).Nodup := by
  have h : key ∘ f = key := funext hf
  rw [List.map_map, h]
  exact hn

/-- An `UPDATE` that keeps the ids. -/
def mapRules (db : AlertDb) (f : AlertRule → AlertRule) (hf : ∀ r, (f r).id = r.id) : AlertDb :=
  { db with rules := db.rules.map f, nodup_rules := nodup_map_id db.nodup_rules hf }

def mapOutbox (db : AlertDb) (f : OutboxRow → OutboxRow) (hf : ∀ n, (f n).id = n.id) : AlertDb :=
  { db with outbox := db.outbox.map f, nodup_outbox := nodup_map_id db.nodup_outbox hf }

def due (dueBefore : Time) (r : AlertRule) : Bool :=
  r.enabled && (match r.lastEvaluatedAt with | none => true | some t => t ≤ dueBefore)

/-- `ORDER BY last_evaluated_at NULLS FIRST`. -/
def evaluatedLe (a b : AlertRule) : Prop :=
  match a.lastEvaluatedAt, b.lastEvaluatedAt with
  | none, _ => True
  | some _, none => False
  | some s, some t => s ≤ t

/-- What `ListDue` may return when it succeeds. -/
def ListsDue (db : AlertDb) (saved : SavedQueries) (dueBefore : Time) (limit : Nat) (out : List Rule) : Prop :=
  ∃ rows rules, Ordered.Top evaluatedLe limit (db.rules.filter (due dueBefore)) rows ∧
    rows.mapM AlertRule.scan = some rules ∧ out = rules.map (Rule.resolve saved)

/-- The compare-and-swap on one row. -/
def swap (i : TransitionInput) (r : AlertRule) : AlertRule :=
  if r.id = i.rule.id ∧ r.state = i.expectedFrom then
    { r with
      state := i.target
      transitionSeq := r.transitionSeq + 1
      lastEvaluatedAt := some i.now
      lastTriggeredAt := if i.target = .firing then some i.now else r.lastTriggeredAt }
  else r

theorem swap_id (i : TransitionInput) (r : AlertRule) : (swap i r).id = r.id := by
  unfold swap
  split <;> rfl

def outboxRow (i : TransitionInput) (seq : Nat) (id : Uuid) (clock : Time) : OutboxRow :=
  { id
    tenantId := i.rule.tenantId
    ruleId := i.rule.id
    transitionSeq := seq
    toState := i.target
    observedCount := i.observedCount
    threshold := i.rule.threshold
    occurredAt := clock
    dispatchedAt := none }

/-- The transaction of `Transition`; `none` leaves the tables as they are. The database chooses the id and the time of
the outbox row. -/
def transition (db : AlertDb) (i : TransitionInput) (id : Uuid) (clock : Time) : Option AlertDb :=
  match db.rules.find? fun r => r.id = i.rule.id ∧ r.state = i.expectedFrom with
  | none => none
  | some r =>
    if h : (∀ n ∈ db.outbox, n.id ≠ id) ∧
        ∀ n ∈ db.outbox, ¬ (n.ruleId = i.rule.id ∧ n.transitionSeq = r.transitionSeq + 1) then
      some
        { rules := db.rules.map (swap i)
          outbox := db.outbox ++ [outboxRow i (r.transitionSeq + 1) id clock]
          nodup_rules := nodup_map_id db.nodup_rules (swap_id i)
          nodup_outbox := by
            rw [List.map_append, List.nodup_append]
            refine ⟨db.nodup_outbox, List.nodup_singleton _, ?_⟩
            intro a ha b hb he
            obtain ⟨n, hn, rfl⟩ := List.mem_map.mp ha
            exact h.1 n hn (he.trans (List.mem_singleton.mp hb)) }
    else none

def markEvaluated (db : AlertDb) (ruleId : Uuid) (now : Time) : AlertDb :=
  db.mapRules (fun r => if r.id = ruleId then { r with lastEvaluatedAt := some now } else r) fun r => by
    split <;> rfl

def scanNotification (r : AlertRule) (n : OutboxRow) : Option Notification :=
  r.channels.map fun channels =>
    { id := n.id
      tenantId := n.tenantId
      ruleId := n.ruleId
      ruleName := r.name
      transitionSeq := n.transitionSeq
      toState := n.toState
      severity := r.severity
      observedCount := n.observedCount
      threshold := n.threshold
      channels
      occurredAt := n.occurredAt }

/-- The join of the outbox with the rules. -/
def pending (db : AlertDb) : List (OutboxRow × AlertRule) :=
  db.outbox.filterMap fun n =>
    if n.dispatchedAt = none then (db.rules.find? fun r => r.id = n.ruleId).map fun r => (n, r) else none

/-- What `ListPending` may return when it succeeds. -/
def ListsPending (db : AlertDb) (limit : Nat) (out : List Notification) : Prop :=
  ∃ rows, Ordered.Top (fun a b => a.1.occurredAt ≤ b.1.occurredAt) limit db.pending rows ∧
    rows.mapM (fun p => scanNotification p.2 p.1) = some out

def markDispatched (db : AlertDb) (n : Notification) (now : Time) : AlertDb :=
  (db.mapOutbox (fun m => if m.id = n.id then { m with dispatchedAt := some now } else m) fun m => by
    split <;> rfl).mapRules
      (fun r => if r.id = n.ruleId then { r with lastNotifiedAt := some now } else r) fun r => by
    split <;> rfl

end AlertDb

end Logalot
