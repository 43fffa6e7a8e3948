import Logalot.AlertRuns
import Logalot.Lib.Journal

/-!
# One outbox row for each transition

A transition takes effect only from the state it was decided in, together with its
row, so the outbox of a rule is the journal of its state.
-/

namespace Logalot

open Go Pg

/-! ## The outbox of a rule -/

def AlertDb.rowsOf (db : AlertDb) (ruleId : Uuid) : List OutboxRow := db.outbox.filter fun n => n.ruleId = ruleId

def OutboxRow.entry (n : OutboxRow) : Nat × AlertState := (n.transitionSeq, n.toState)

def AlertDb.history (db : AlertDb) (ruleId : Uuid) : List (Nat × AlertState) := (db.rowsOf ruleId).map OutboxRow.entry

def AlertDb.Numbered (db : AlertDb) : Prop :=
  ∀ r ∈ db.rules, Journal.Numbered .ok (db.history r.id) r.state r.transitionSeq

variable {db db' : AlertDb} {f : OutboxRow → OutboxRow} {hf : ∀ n, (f n).id = n.id} {i : TransitionInput}
variable {clock : Time}

theorem AlertDb.eq_of_id {r r' : AlertRule} (h : r ∈ db.rules) (h' : r' ∈ db.rules)
    (he : r.id = r'.id) : r = r' :=
  List.inj_on_of_nodup_map db.nodup_rules h h' he

theorem history_mapOutbox
    (hr : ∀ n, (f n).ruleId = n.ruleId) (he : ∀ n, (f n).entry = n.entry) (ruleId : Uuid) :
    (db.mapOutbox f hf).history ruleId = db.history ruleId := by
  unfold AlertDb.history AlertDb.rowsOf AlertDb.mapOutbox
  simp only [List.filter_map, List.map_map, Function.comp_def, hr, he]

theorem AlertDb.Numbered.mapOutbox (h : db.Numbered) (hr : ∀ n, (f n).ruleId = n.ruleId)
    (he : ∀ n, (f n).entry = n.entry) : (db.mapOutbox f hf).Numbered := by
  intro r hm
  rw [history_mapOutbox hr he]
  exact h r hm

theorem AlertDb.Numbered.mapRules (h : db.Numbered) {f : AlertRule → AlertRule}
    (hf : ∀ r, (f r).id = r.id) (hs : ∀ r, (f r).state = r.state ∧ (f r).transitionSeq = r.transitionSeq) :
    (db.mapRules f hf).Numbered := by
  intro r' hm
  obtain ⟨r, hr, rfl⟩ := List.mem_map.mp hm
  rw [hf r, (hs r).1, (hs r).2]
  exact h r hr

theorem AlertDb.Numbered.markEvaluated (h : db.Numbered) (id : Uuid) (now : Time) :
    (db.markEvaluated id now).Numbered := by
  apply h.mapRules
  intro r
  by_cases e : r.id = id
  · simp [e]
  · simp [e]

theorem AlertDb.Numbered.markDispatched (h : db.Numbered) (n : Notification) (now : Time) :
    (db.markDispatched n now).Numbered := by
  apply AlertDb.Numbered.mapRules
  · apply h.mapOutbox
    · intro m
      by_cases e : m.id = n.id
      · simp [e]
      · simp [e]
    · intro m
      by_cases e : m.id = n.id
      · simp [e, OutboxRow.entry]
      · simp [e]
  · intro r
    by_cases e : r.id = n.ruleId
    · simp [e]
    · simp [e]

theorem transition_cases {id : Uuid}
    (h : db.transition i id clock = some db') :
    ∃ r ∈ db.rules, r.id = i.rule.id ∧ r.state = i.expectedFrom ∧ (∀ n ∈ db.outbox, n.id ≠ id) ∧
      db'.rules = db.rules.map (AlertDb.swap i) ∧
      db'.outbox = db.outbox ++ [AlertDb.outboxRow i (r.transitionSeq + 1) id clock] := by
  unfold AlertDb.transition at h
  split at h
  · cases h
  · rename_i r hf
    split at h
    · rename_i hg
      have hp := List.find?_some hf
      simp only [decide_eq_true_eq] at hp
      obtain rfl := Option.some.inj h
      exact ⟨r, List.mem_of_find?_eq_some hf, hp.1, hp.2, hg.1, rfl, rfl⟩
    · cases h

theorem AlertDb.Numbered.transition (h : db.Numbered) {id : Uuid} (hne : i.target ≠ i.expectedFrom)
    (ht : db.transition i id clock = some db') : db'.Numbered := by
  obtain ⟨r, hr, hid, hst, -, hrules, hout⟩ := transition_cases ht
  intro r' hm
  rw [hrules] at hm
  obtain ⟨r₀, hr₀, rfl⟩ := List.mem_map.mp hm
  rw [AlertDb.swap_id]
  have hh : db'.history r₀.id = db.history r₀.id ++
      (if r₀.id = i.rule.id then [(r.transitionSeq + 1, i.target)] else []) := by
    unfold AlertDb.history AlertDb.rowsOf
    rw [hout, List.filter_append, List.map_append]
    by_cases e : r₀.id = i.rule.id
    · simp [e, AlertDb.outboxRow, OutboxRow.entry]
    · simp [e, AlertDb.outboxRow, Ne.symm e]
  rw [hh]
  by_cases e : r₀.id = i.rule.id
  · -- the row that was swapped
    obtain rfl := AlertDb.eq_of_id hr hr₀ (hid.trans e.symm)
    have hsw : AlertDb.swap i r = { r with
        state := i.target
        transitionSeq := r.transitionSeq + 1
        lastEvaluatedAt := some i.now
        lastTriggeredAt := if i.target = .firing then some i.now else r.lastTriggeredAt } := if_pos ⟨hid, hst⟩
    rw [if_pos e, hsw]
    apply (h r hr).append
    rw [hst]
    exact hne
  · have hsw : AlertDb.swap i r₀ = r₀ := if_neg fun hc => e hc.1
    rw [if_neg e, hsw, List.append_nil]
    exact h r₀ hr₀

def AlertDb.Owned (db : AlertDb) : Prop := ∀ n ∈ db.outbox, n.ruleId ∈ db.rules.map AlertRule.id

theorem AlertDb.Owned.mapRules (h : db.Owned) {f : AlertRule → AlertRule} (hf : ∀ r, (f r).id = r.id) :
    (db.mapRules f hf).Owned := by
  intro n hn
  have he : (db.mapRules f hf).rules.map AlertRule.id = db.rules.map AlertRule.id := by
    unfold AlertDb.mapRules
    rw [List.map_map]
    exact List.map_congr_left fun r _ => hf r
  rw [he]
  exact h n hn

theorem AlertDb.Owned.markDispatched (h : db.Owned) (n : Notification) (now : Time) :
    (db.markDispatched n now).Owned := by
  apply AlertDb.Owned.mapRules
  intro m hm
  obtain ⟨m', hm', rfl⟩ := List.mem_map.mp hm
  have he : (if m'.id = n.id then { m' with dispatchedAt := some now } else m').ruleId = m'.ruleId := by
    split <;> rfl
  rw [he]
  exact h m' hm'

theorem AlertDb.Owned.transition (h : db.Owned) {id : Uuid}
    (ht : db.transition i id clock = some db') : db'.Owned := by
  obtain ⟨r, hr, hid, -, -, hrules, hout⟩ := transition_cases ht
  have he : db'.rules.map AlertRule.id = db.rules.map AlertRule.id := by
    rw [hrules, List.map_map]
    exact List.map_congr_left fun r _ => AlertDb.swap_id i r
  intro n hn
  rw [he]
  rw [hout] at hn
  rcases List.mem_append.mp hn with hn | hn
  · exact h n hn
  · rw [List.mem_singleton.mp hn]
    exact List.mem_map.mpr ⟨r, hr, hid⟩

/-! ## Steps -/

namespace AlertRun

variable {cfg : EvaluatorConfig} {k : Nat} {s t : AlertRun} {p : EvalPhase}

theorem step_db (h : Step cfg k s t) :
    t.db = s.db ∨ (∃ id now, t.db = s.db.markEvaluated id now) ∨
      (∃ i todo id clock, s.replicas k = .changed i todo ∧ s.db.transition i id clock = some t.db) ∨
      ∃ n todo now, s.replicas k = .delivered n todo ∧ t.db = s.db.markDispatched n now := by
  cases h with
  | markEvaluated hp => exact Or.inr (Or.inl ⟨_, _, rfl⟩)
  | transition hp ht => exact Or.inr (Or.inr (Or.inl ⟨_, _, _, _, hp, ht⟩))
  | markDispatched now hp => exact Or.inr (Or.inr (Or.inr ⟨_, _, now, hp, rfl⟩))
  | _ => exact Or.inl rfl

def Moves (p : EvalPhase) : Prop := ∀ i todo, p = .changed i todo → i.target ≠ i.expectedFrom

theorem moves_afterCount (r : Rule) (now : Time) (n : Int) (todo : List Rule) : Moves (afterCount r now n todo) := by
  intro i todo' h
  unfold afterCount at h
  simp only at h
  split at h
  · cases h
  · rename_i hne
    obtain ⟨rfl, -⟩ := EvalPhase.changed.inj h
    exact hne

theorem step_replicas (h : Step cfg k s t) : ∃ p, Moves p ∧ t.replicas = Function.update s.replicas k p := by
  have hm : ∀ {p : EvalPhase}, (∀ i todo, p ≠ .changed i todo) → Moves p := by
    intro p hp i todo hc
    exact absurd hc (hp i todo)
  cases h with
  | count now n hp hq => exact ⟨_, moves_afterCount _ now n _, rfl⟩
  | notify ok hp =>
    refine ⟨_, hm ?_, rfl⟩
    intro i todo hc
    cases ok <;> cases hc
  | _ => exact ⟨_, hm (fun _ _ hc => by cases hc), rfl⟩

structure Consistent (s : AlertRun) : Prop where
  numbered : s.db.Numbered
  owned : s.db.Owned
  moves : ∀ k, Moves (s.replicas k)

theorem Consistent.step (hs : s.Consistent) (h : Step cfg k s t) : t.Consistent := by
  constructor
  · rcases step_db h with he | ⟨id, now, he⟩ | ⟨i, todo, id, clock, hp, he⟩ | ⟨n, todo, now, hp, he⟩
    · rw [he]
      exact hs.numbered
    · rw [he]
      exact hs.numbered.markEvaluated id now
    · exact hs.numbered.transition (hs.moves k i todo hp) he
    · rw [he]
      exact hs.numbered.markDispatched n now
  · rcases step_db h with he | ⟨id, now, he⟩ | ⟨i, todo, id, clock, hp, he⟩ | ⟨n, todo, now, hp, he⟩
    · rw [he]
      exact hs.owned
    · rw [he]
      exact hs.owned.mapRules _
    · exact hs.owned.transition he
    · rw [he]
      exact hs.owned.markDispatched n now
  · intro j
    obtain ⟨p, hp, he⟩ := step_replicas h
    rw [he]
    by_cases e : j = k
    · rw [e, Function.update_self]
      exact hp
    · rw [Function.update_of_ne e]
      exact hs.moves j

theorem Consistent.edit (hs : s.Consistent) (h : Edits s t) : t.Consistent := by
  obtain ⟨f, hf, hc, rfl⟩ := h
  exact ⟨hs.numbered.mapRules hf hc, hs.owned.mapRules hf, hs.moves⟩

theorem Fresh.consistent (h : s.Fresh) : s.Consistent := by
  obtain ⟨hr, ho, hp, -⟩ := h
  constructor
  · intro r hm
    have hh : s.db.history r.id = [] := by
      unfold AlertDb.history AlertDb.rowsOf
      rw [ho]
      rfl
    rw [hh, (hr r hm).1, (hr r hm).2]
    exact Journal.numbered_nil
  · intro n hn
    rw [ho] at hn
    cases hn
  · intro k i todo hc
    rw [hp] at hc
    cases hc

theorem consistent_reachable (hr : (system cfg).Reachable s) : s.Consistent := by
  apply hr.invariant (P := Consistent)
  · intro s hs
    exact hs.consistent
  · intro s t _ hs h
    rcases h with ⟨k, h⟩ | h
    · exact hs.step h
    · exact hs.edit h

/-- **Transitions and outbox rows.** At all times the rows of a rule are numbered from one without gaps or repeats, each
is a change of state, and the rule has the state and the number of its last row. -/
theorem outbox_journals_transitions (hr : (system cfg).Reachable s) {r : AlertRule} (h : r ∈ s.db.rules) :
    (s.db.rowsOf r.id).map OutboxRow.transitionSeq = List.range' 1 (s.db.rowsOf r.id).length ∧
      List.IsChain (· ≠ ·) (.ok :: (s.db.rowsOf r.id).map OutboxRow.toState) ∧
      r.state = ((s.db.rowsOf r.id).map OutboxRow.toState).getLastD .ok ∧
      r.transitionSeq = (s.db.rowsOf r.id).length := by
  have hn := (consistent_reachable hr).numbered r h
  have hfst : (s.db.history r.id).map Prod.fst = (s.db.rowsOf r.id).map OutboxRow.transitionSeq := List.map_map
  have hsnd : (s.db.history r.id).map Prod.snd = (s.db.rowsOf r.id).map OutboxRow.toState := List.map_map
  have hlen : (s.db.history r.id).length = (s.db.rowsOf r.id).length := List.length_map ..
  obtain ⟨h1, h2, h3, h4⟩ := hn
  rw [hfst, hlen] at h1
  rw [hsnd] at h2 h3
  rw [hlen] at h4
  exact ⟨h1, h2, h3, h4⟩

/-! ## A run -/

theorem setPhase_self : (s.setPhase k p).replicas k = p := Function.update_self ..

theorem setPhase_setPhase {q : EvalPhase} : (s.setPhase k p).setPhase k q = s.setPhase k q := by
  unfold setPhase
  rw [Function.update_idem]

section Swap

variable {saved : SavedQueries} {now now' : Time} {r : Rule} {n : Int} {target : AlertState}

theorem decide_run (hk : s.replicas k = .idle)
    (hl : s.db.ListsDue saved (now - cfg.new.interval) cfg.new.batchSize.toNat [r]) (hq : r.query.isEmpty = false)
    (hd : decideState n r.comparator r.threshold = target) (hne : target ≠ r.state) :
    Relation.ReflTransGen (Step cfg k) s (s.setPhase k (.changed ⟨r, r.state, target, n, now'⟩ [])) := by
  subst hd
  have h1 : Step cfg k s (s.setPhase k (.evaluating [r])) := .listDue hk hl
  have h2 : Step cfg k (s.setPhase k (.evaluating [r]))
      ((s.setPhase k (.evaluating [r])).setPhase k (afterCount r now' n [])) := .count now' n setPhase_self hq
  have hc : afterCount r now' n [] = .changed ⟨r, r.state, decideState n r.comparator r.threshold, n, now'⟩ [] :=
    if_neg hne
  rw [setPhase_setPhase, hc] at h2
  exact .tail (.single h1) h2

theorem swap_run {id : Uuid} {clock : Time} {db : AlertDb} (hk : s.replicas k = .idle)
    (hl : s.db.ListsDue saved (now - cfg.new.interval) cfg.new.batchSize.toNat [r]) (hq : r.query.isEmpty = false)
    (hd : decideState n r.comparator r.threshold = target) (hne : target ≠ r.state)
    (ht : s.db.transition ⟨r, r.state, target, n, now'⟩ id clock = some db) :
    Relation.ReflTransGen (Step cfg k) s ({ s with db }.setPhase k (.evaluating [])) := by
  have h1 : Relation.ReflTransGen (Step cfg k) s (s.setPhase k (.changed ⟨r, r.state, target, n, now'⟩ [])) :=
    decide_run hk hl hq hd hne
  have h2 : Step cfg k (s.setPhase k (.changed ⟨r, r.state, target, n, now'⟩ []))
      (({ s with db }.setPhase k (.changed ⟨r, r.state, target, n, now'⟩ [])).setPhase k (.evaluating [])) :=
    .transition setPhase_self ht
  rw [setPhase_setPhase] at h2
  exact .tail h1 h2

end Swap

/-- The state in which only the first replica is at work. -/
def alone (db : AlertDb) (p : EvalPhase) (log : List AlertEvent) : AlertRun :=
  { db, replicas := fun k => if k = 0 then p else .idle, log }

theorem alone_run {db db' : AlertDb} {p q : EvalPhase} {log log' : List AlertEvent}
    (h : Relation.ReflTransGen (Step cfg 0) (alone db p log) ((alone db' p log').setPhase 0 q)) :
    Relation.ReflTransGen (Step cfg 0) (alone db p log) (alone db' q log') := by
  unfold setPhase alone at h
  rw [Runs.update_lone fun k e => if_neg e] at h
  exact h

section Cycle

variable {db db' : AlertDb} {log : List AlertEvent} {saved : SavedQueries} {now : Time}

theorem transition_run {r : Rule} {target : AlertState} {n : Int} {id : Uuid} {clock now' : Time}
    (hl : db.ListsDue saved (now - cfg.new.interval) cfg.new.batchSize.toNat [r]) (hq : r.query.isEmpty = false)
    (hd : decideState n r.comparator r.threshold = target) (hne : target ≠ r.state)
    (ht : db.transition ⟨r, r.state, target, n, now'⟩ id clock = some db') :
    Relation.ReflTransGen (Step cfg 0) (alone db .idle log) (alone db' (.evaluating []) log) :=
  alone_run (swap_run (s := alone db .idle log) rfl hl hq hd hne ht)

end Cycle

section Relaying

variable {db : AlertDb} {log : List AlertEvent} {n : Notification} {todo : List Notification}

theorem listPending_run (hl : db.ListsPending cfg.new.batchSize.toNat todo) :
    Relation.ReflTransGen (Step cfg 0) (alone db (.evaluating []) log) (alone db (.dispatching todo) log) :=
  alone_run (.single (.listPending rfl hl))

theorem idle_run {saved : SavedQueries} {now : Time}
    (hl : db.ListsDue saved (now - cfg.new.interval) cfg.new.batchSize.toNat []) :
    Relation.ReflTransGen (Step cfg 0) (alone db .idle log) (alone db (.evaluating []) log) :=
  alone_run (.single (.listDue rfl hl))

theorem notifyFails_run : Relation.ReflTransGen (Step cfg 0) (alone db (.dispatching (n :: todo)) log)
    (alone db (.dispatching todo) (log ++ [.notified n false])) :=
  alone_run (.single (.notify false rfl))

theorem notify_run (now : Time) : Relation.ReflTransGen (Step cfg 0) (alone db (.dispatching (n :: todo)) log)
    (alone (db.markDispatched n now) (.dispatching todo) (log ++ [.notified n true] ++ [.marked n])) := by
  have h1 : Relation.ReflTransGen (Step cfg 0) (alone db (.dispatching (n :: todo)) log)
      (alone db (.delivered n todo) (log ++ [.notified n true])) := alone_run (.single (.notify true rfl))
  exact h1.trans (alone_run (.single (.markDispatched now rfl)))

theorem rest_run : Relation.ReflTransGen (Step cfg 0) (alone db (.dispatching []) log) (alone db .idle log) :=
  alone_run (.single (.rest rfl))

end Relaying

def sampleConfig : EvaluatorConfig := ⟨2, 10⟩

def sampleRule : AlertRule :=
  { id := .rep 1
    tenantId := .rep 17
    name := bs "errors"
    comparator := .gt
    threshold := .fin 0
    windowSeconds := 300
    severity := bs "warning"
    enabled := true
    query := some { text := bs "error", service := [], level := none, labels := [] }
    channels := some []
    savedQueryId := none
    state := .ok
    transitionSeq := 0
    lastEvaluatedAt := none
    lastTriggeredAt := none
    lastNotifiedAt := none }

def sampleFiring : AlertRule :=
  { sampleRule with
    state := .firing
    transitionSeq := 1
    lastEvaluatedAt := some 10
    lastTriggeredAt := some 10 }

def sampleScanned (st : AlertState) (seq : Nat) : Rule :=
  { id := .rep 1
    tenantId := .rep 17
    name := bs "errors"
    comparator := .gt
    threshold := .fin 0
    windowSeconds := 300
    severity := bs "warning"
    state := st
    transitionSeq := seq
    savedQueryId := none
    query := { text := bs "error", service := [], level := none, labels := [] }
    channels := [] }

def sampleRow (seq : Nat) (st : AlertState) (n : Int) (clock : Time) : OutboxRow :=
  { id := .rep (UInt8.ofNat (32 + seq))
    tenantId := .rep 17
    ruleId := .rep 1
    transitionSeq := seq
    toState := st
    observedCount := n
    threshold := .fin 0
    occurredAt := clock
    dispatchedAt := none }

def sampleStart : AlertDb := ⟨[sampleRule], [], by decide, by decide⟩

def sampleFired : AlertDb := ⟨[sampleFiring], [sampleRow 1 .firing 3 11], by decide, by decide⟩

theorem sampleStart_due : sampleStart.ListsDue (fun _ _ => none) (10 - sampleConfig.new.interval)
    sampleConfig.new.batchSize.toNat [sampleScanned .ok 0] :=
  ⟨[sampleRule], [sampleScanned .ok 0], ⟨[sampleRule], .refl _, List.pairwise_singleton _ _, rfl⟩, rfl, rfl⟩

theorem sampleStart_transition :
    sampleStart.transition ⟨sampleScanned .ok 0, .ok, .firing, 3, 10⟩ (.rep 33) 11 = some sampleFired := rfl

theorem sampleFired_run :
    Relation.ReflTransGen (Step sampleConfig 0) (alone sampleStart .idle [])
      (alone sampleFired (.evaluating []) []) := by
  have hd : decideState 3 .gt (.fin 0) = .firing := by decide
  exact transition_run sampleStart_due rfl hd (by decide) sampleStart_transition

theorem sampleStart_fresh : (alone sampleStart .idle []).Fresh := by
  refine ⟨?_, rfl, ?_, rfl⟩
  · intro r hr
    obtain rfl := List.mem_singleton.mp hr
    exact ⟨rfl, rfl⟩
  · funext k
    exact ite_self _

def sampleQuiet : AlertRule :=
  { sampleFiring with
    state := .ok
    transitionSeq := 2
    lastEvaluatedAt := some 13 }

def sampleResolved : AlertDb :=
  ⟨[sampleQuiet], [sampleRow 1 .firing 3 11, sampleRow 2 .ok 0 13], by decide, by decide⟩

def sampleNotification (seq : Nat) (st : AlertState) (n : Int) (clock : Time) : Notification :=
  { id := .rep (UInt8.ofNat (32 + seq))
    tenantId := .rep 17
    ruleId := .rep 1
    ruleName := bs "errors"
    transitionSeq := seq
    toState := st
    severity := bs "warning"
    observedCount := n
    threshold := .fin 0
    channels := []
    occurredAt := clock }

def sampleOpened : Notification := sampleNotification 1 .firing 3 11

def sampleClosed : Notification := sampleNotification 2 .ok 0 13

theorem sampleFired_pending : sampleFired.ListsPending sampleConfig.new.batchSize.toNat [sampleOpened] :=
  ⟨[(sampleRow 1 .firing 3 11, sampleFiring)], ⟨_, .refl _, List.pairwise_singleton _ _, rfl⟩, rfl⟩

theorem sampleFired_due : sampleFired.ListsDue (fun _ _ => none) (12 - sampleConfig.new.interval)
    sampleConfig.new.batchSize.toNat [sampleScanned .firing 1] :=
  ⟨[sampleFiring], [sampleScanned .firing 1], ⟨[sampleFiring], .refl _, List.pairwise_singleton _ _, rfl⟩, rfl, rfl⟩

theorem sampleFired_transition :
    sampleFired.transition ⟨sampleScanned .firing 1, .firing, .ok, 0, 13⟩ (.rep 34) 13 = some sampleResolved := rfl

theorem sampleResolved_run : ∃ log, Relation.ReflTransGen (Step sampleConfig 0) (alone sampleStart .idle [])
    (alone sampleResolved (.evaluating []) log) := by
  have hd : decideState 0 .gt (.fin 0) = .ok := by decide
  have h1 := (sampleFired_run.trans (listPending_run sampleFired_pending)).trans (notifyFails_run.trans rest_run)
  exact ⟨_, h1.trans (transition_run sampleFired_due rfl hd (by decide) sampleFired_transition)⟩

theorem resolved_rule_journaled : ∃ log, (system sampleConfig).Reachable (alone sampleResolved (.evaluating []) log) ∧
    (sampleResolved.rowsOf sampleQuiet.id).map OutboxRow.transitionSeq = [1, 2] ∧
    List.IsChain (· ≠ ·) [AlertState.ok, .firing, .ok] ∧
    sampleQuiet.state = ((sampleResolved.rowsOf sampleQuiet.id).map OutboxRow.toState).getLastD .ok ∧
    sampleQuiet.transitionSeq = 2 := by
  obtain ⟨log, h⟩ := sampleResolved_run
  have hr : (system sampleConfig).Reachable (alone sampleResolved (.evaluating []) log) := by
    refine (Runs.System.Reachable.init sampleStart_fresh).steps ?_
    exact Relation.ReflTransGen.mono (fun _ _ h => Or.inl ⟨0, h⟩) _ _ h
  exact ⟨log, hr, outbox_journals_transitions hr (r := sampleQuiet) List.mem_cons_self⟩

end AlertRun

end Logalot
