import Logalot.Alerts

/-!
# Evaluation cycles

`EvaluateDue`, one call of a port at a time: the snapshot of the due rules, each
rule in turn, then the relay over the snapshot of the outbox.
-/

namespace Logalot

open Go Pg

structure EvaluatorConfig where
  interval : Int
  batchSize : Int

/-- `New`: what is not positive is the default, of ten seconds and of two hundred rows. -/
def EvaluatorConfig.new (cfg : EvaluatorConfig) : EvaluatorConfig :=
  { interval := if cfg.interval ≤ 0 then 10 * 1000000000 else cfg.interval
    batchSize := if cfg.batchSize ≤ 0 then 200 else cfg.batchSize }

inductive EvalPhase where
  | idle
  | evaluating (todo : List Rule)
  | unchanged (ruleId : Uuid) (now : Time) (todo : List Rule)
  | changed (i : TransitionInput) (todo : List Rule)
  | dispatching (todo : List Notification)
  | delivered (n : Notification) (todo : List Notification)
  deriving DecidableEq

/-- `evaluateRule` after the count: the state of the rule is that of the snapshot. -/
def afterCount (r : Rule) (now : Time) (count : Int) (todo : List Rule) : EvalPhase :=
  let target := decideState count r.comparator r.threshold
  if target = r.state then .unchanged r.id now todo
  else .changed { rule := r, expectedFrom := r.state, target, observedCount := count, now } todo

inductive AlertEvent where
  | notified (n : Notification) (ok : Bool)
  | marked (n : Notification)
  | markFailed (n : Notification)
  /-- A crash, with the notification that was delivered and not yet marked. -/
  | crashed (inHand : Option Notification)
  deriving DecidableEq

def AlertEvent.attempt (id : Uuid) : AlertEvent → Bool
  | .notified n _ => n.id = id
  | _ => false

def AlertEvent.success (id : Uuid) : AlertEvent → Bool
  | .notified n true => n.id = id
  | _ => false

def AlertEvent.mark (id : Uuid) : AlertEvent → Bool
  | .marked n => n.id = id
  | _ => false

/-- The row was delivered, and then the mark failed or the replica crashed before it. -/
def AlertEvent.lapse (id : Uuid) : AlertEvent → Bool
  | .markFailed n => n.id = id
  | .crashed (some n) => n.id = id
  | _ => false

def EvalPhase.inHand : EvalPhase → Option Notification
  | .delivered n _ => some n
  | _ => none

/-- The notifications of the current pass that are not settled. -/
def EvalPhase.queue : EvalPhase → List Notification
  | .dispatching todo => todo
  | .delivered n todo => n :: todo
  | _ => []

/-- `log` records the calls of the notifier and what became of them. -/
structure AlertRun where
  db : AlertDb
  replicas : Nat → EvalPhase
  log : List AlertEvent

namespace AlertRun

def setPhase (s : AlertRun) (k : Nat) (p : EvalPhase) : AlertRun :=
  { s with replicas := Function.update s.replicas k p }

def record (s : AlertRun) (e : AlertEvent) : AlertRun := { s with log := s.log ++ [e] }

inductive Step (cfg : EvaluatorConfig) (k : Nat) : AlertRun → AlertRun → Prop where
  | listDue {s : AlertRun} {saved : SavedQueries} {now : Time} {out : List Rule} :
    s.replicas k = .idle → s.db.ListsDue saved (now - cfg.new.interval) cfg.new.batchSize.toNat out →
    Step cfg k s (s.setPhase k (.evaluating out))
  | skip {s : AlertRun} {r : Rule} {todo : List Rule} (now : Time) :
    s.replicas k = .evaluating (r :: todo) → r.query.isEmpty = true →
    Step cfg k s (s.setPhase k (.unchanged r.id now todo))
  | count {s : AlertRun} {r : Rule} {todo : List Rule} (now : Time) (n : Int) :
    s.replicas k = .evaluating (r :: todo) → r.query.isEmpty = false →
    Step cfg k s (s.setPhase k (afterCount r now n todo))
  | countFails {s : AlertRun} {r : Rule} {todo : List Rule} :
    s.replicas k = .evaluating (r :: todo) → Step cfg k s (s.setPhase k (.evaluating todo))
  | markEvaluated {s : AlertRun} {id : Uuid} {now : Time} {todo : List Rule} :
    s.replicas k = .unchanged id now todo →
    Step cfg k s ({ s with db := s.db.markEvaluated id now }.setPhase k (.evaluating todo))
  | markEvaluatedFails {s : AlertRun} {id : Uuid} {now : Time} {todo : List Rule} :
    s.replicas k = .unchanged id now todo → Step cfg k s (s.setPhase k (.evaluating todo))
  | transition {s : AlertRun} {i : TransitionInput} {todo : List Rule} {id : Uuid} {clock : Time} {db : AlertDb} :
    s.replicas k = .changed i todo → s.db.transition i id clock = some db →
    Step cfg k s ({ s with db := db }.setPhase k (.evaluating todo))
  /-- The swap was lost, or the transaction rolled back. -/
  | transitionFails {s : AlertRun} {i : TransitionInput} {todo : List Rule} :
    s.replicas k = .changed i todo → Step cfg k s (s.setPhase k (.evaluating todo))
  | listPending {s : AlertRun} {out : List Notification} :
    s.replicas k = .evaluating [] → s.db.ListsPending cfg.new.batchSize.toNat out →
    Step cfg k s (s.setPhase k (.dispatching out))
  | listPendingFails {s : AlertRun} :
    s.replicas k = .evaluating [] → Step cfg k s (s.setPhase k .idle)
  | notify {s : AlertRun} {n : Notification} {todo : List Notification} (ok : Bool) :
    s.replicas k = .dispatching (n :: todo) →
    Step cfg k s ((s.record (.notified n ok)).setPhase k
      (if ok then .delivered n todo else .dispatching todo))
  /-- The transaction commits, whether or not the replica learns of it. -/
  | markDispatched {s : AlertRun} {n : Notification} {todo : List Notification} (now : Time) :
    s.replicas k = .delivered n todo →
    Step cfg k s (({ s with db := s.db.markDispatched n now }.record (.marked n)).setPhase k
      (.dispatching todo))
  | markDispatchedFails {s : AlertRun} {n : Notification} {todo : List Notification} :
    s.replicas k = .delivered n todo →
    Step cfg k s ((s.record (.markFailed n)).setPhase k (.dispatching todo))
  | rest {s : AlertRun} : s.replicas k = .dispatching [] → Step cfg k s (s.setPhase k .idle)
  | crash {s : AlertRun} :
    Step cfg k s ((s.record (.crashed (s.replicas k).inHand)).setPhase k .idle)

def Edits (s t : AlertRun) : Prop :=
  ∃ (f : AlertRule → AlertRule) (hf : ∀ r, (f r).id = r.id),
    (∀ r, (f r).state = r.state ∧ (f r).transitionSeq = r.transitionSeq) ∧ t = { s with db := s.db.mapRules f hf }

/-- At first every rule is quiet, nothing has been sent and no replica is at work. -/
def Fresh (s : AlertRun) : Prop :=
  (∀ r ∈ s.db.rules, r.state = .ok ∧ r.transitionSeq = 0) ∧ s.db.outbox = [] ∧ s.replicas = (fun _ => .idle) ∧
    s.log = []

def system (cfg : EvaluatorConfig) : Runs.System AlertRun :=
  { init := Fresh
    step := fun s t => (∃ k, Step cfg k s t) ∨ Edits s t }

def single (cfg : EvaluatorConfig) : Runs.System AlertRun :=
  { init := Fresh
    step := fun s t => Step cfg 0 s t ∨ Edits s t }

end AlertRun

end Logalot
