import Logalot.AlertRuns

/-!
# Whole cycles

`EvaluateDue` of one evaluator from its first call to its last, where the store
answers every call: only counts and deliveries fail, always for the same rules or
the same rows.
-/

namespace Logalot

open Go Pg

/-- The loop of `EvaluateDue` over the due rules, in a cycle that began at `start`. `evaluateRule` counts
for each rule that has a query. -/
inductive Evaluates (fails : Uuid → Bool) (start : Time) : AlertDb → List Rule → AlertDb → Prop where
  | nil {db : AlertDb} : Evaluates fails start db [] db
  | skip {db db' : AlertDb} {r : Rule} {todo : List Rule} {now : Time} : start ≤ now → r.query.isEmpty = true →
    Evaluates fails start (db.markEvaluated r.id now) todo db' → Evaluates fails start db (r :: todo) db'
  | countFails {db db' : AlertDb} {r : Rule} {todo : List Rule} : r.query.isEmpty = false → fails r.id = true →
    Evaluates fails start db todo db' → Evaluates fails start db (r :: todo) db'
  | unchanged {db db' : AlertDb} {r : Rule} {todo : List Rule} {now : Time} {n : Int} : start ≤ now →
    r.query.isEmpty = false → fails r.id = false → decideState n r.comparator r.threshold = r.state →
    Evaluates fails start (db.markEvaluated r.id now) todo db' → Evaluates fails start db (r :: todo) db'
  | changed {db db₁ db' : AlertDb} {r : Rule} {todo : List Rule} {now : Time} {n : Int} {id : Uuid} {clock : Time} :
    start ≤ now → r.query.isEmpty = false → fails r.id = false → decideState n r.comparator r.threshold ≠ r.state →
    db.transition ⟨r, r.state, decideState n r.comparator r.threshold, n, now⟩ id clock = some db₁ →
    Evaluates fails start db₁ todo db' → Evaluates fails start db (r :: todo) db'

/-- The loop of `dispatchPending`, with a call of `Notify` for each row. -/
inductive Delivers (fails : Uuid → Bool) : AlertDb → List Notification → AlertDb → Prop where
  | nil {db : AlertDb} : Delivers fails db [] db
  | notifyFails {db db' : AlertDb} {n : Notification} {todo : List Notification} : fails n.id = true →
    Delivers fails db todo db' → Delivers fails db (n :: todo) db'
  | notify {db db' : AlertDb} {n : Notification} {todo : List Notification} (now : Time) : fails n.id = false →
    Delivers fails (db.markDispatched n now) todo db' → Delivers fails db (n :: todo) db'

/-- `dispatchPending`. -/
def RelayPass (cfg : EvaluatorConfig) (fails : Uuid → Bool) (db : AlertDb) (out : List Notification) (db' : AlertDb) :
    Prop :=
  db.ListsPending cfg.new.batchSize.toNat out ∧ Delivers fails db out db'

/-- `EvaluateDue` at clock reading `now`; its relay delivers what it can. -/
def Cycle (cfg : EvaluatorConfig) (fails : Uuid → Bool) (now : Time) (db : AlertDb) (due : List Rule) (db' : AlertDb) :
    Prop :=
  ∃ saved db₁ notifyFails out, db.ListsDue saved (now - cfg.new.interval) cfg.new.batchSize.toNat due ∧
    Evaluates fails now db due db₁ ∧ RelayPass cfg notifyFails db₁ out db'

/-- Consecutive cycles with the batch of each, at times when every enabled rule is due. -/
inductive Cycles (cfg : EvaluatorConfig) (fails : Uuid → Bool) : AlertDb → List (List Rule) → AlertDb → Prop where
  | nil {db : AlertDb} : Cycles cfg fails db [] db
  | cons {db db₁ db' : AlertDb} {now : Time} {due : List Rule} {dues : List (List Rule)} :
    (∀ r ∈ db.rules, r.enabled = true → AlertDb.due (now - cfg.new.interval) r = true) →
    Cycle cfg fails now db due db₁ → Cycles cfg fails db₁ dues db' → Cycles cfg fails db (due :: dues) db'

/-- Consecutive passes of the relay with the batch of each; no row is added between them. -/
inductive RelayPasses (cfg : EvaluatorConfig) (fails : Uuid → Bool) :
    AlertDb → List (List Notification) → AlertDb → Prop where
  | nil {db : AlertDb} : RelayPasses cfg fails db [] db
  | cons {db db₁ db' : AlertDb} {out : List Notification} {outs : List (List Notification)} :
    RelayPass cfg fails db out db₁ → RelayPasses cfg fails db₁ outs db' → RelayPasses cfg fails db (out :: outs) db'

def Counted (dues : List (List Rule)) (id : Uuid) : Prop := ∃ due ∈ dues, ∃ r ∈ due, r.id = id ∧ r.query.isEmpty = false

def NotifyTried (outs : List (List Notification)) (id : Uuid) : Prop := ∃ out ∈ outs, ∃ n ∈ out, n.id = id

end Logalot
