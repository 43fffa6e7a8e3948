import Logalot.AlertCycles
import Logalot.AlertRelaySound
import Logalot.Lib.Backlog

/-!
# Which rules and rows have their turn

A rule whose count fails keeps its `last_evaluated_at`, and a row whose delivery
fails stays pending: both stay in front of the next batch.
-/

namespace Logalot

open Go Pg Backlog

/-! ## Cycles are runs of the evaluator -/

section Steps

open AlertRun

variable {cfg : EvaluatorConfig} {fails : Uuid → Bool} {db db' : AlertDb} {log : List AlertEvent}

theorem markEvaluated_run {r : Rule} {todo : List Rule} {now : Time} :
    Relation.ReflTransGen (Step cfg 0) (alone db (.unchanged r.id now todo) log)
      (alone (db.markEvaluated r.id now) (.evaluating todo) log) :=
  alone_run (.single (.markEvaluated rfl))

theorem count_run {r : Rule} {todo : List Rule} (now : Time) (n : Int) (hq : r.query.isEmpty = false) :
    Relation.ReflTransGen (Step cfg 0) (alone db (.evaluating (r :: todo)) log)
      (alone db (afterCount r now n todo) log) :=
  alone_run (.single (.count now n rfl hq))

theorem Evaluates.steps {start : Time} {due : List Rule} (h : Evaluates fails start db due db') :
    Relation.ReflTransGen (Step cfg 0) (alone db (.evaluating due) log) (alone db' (.evaluating []) log) := by
  induction h with
  | nil => exact .refl
  | @skip db db' r todo now _ hq _ ih =>
    have h : Relation.ReflTransGen (Step cfg 0) (alone db (.evaluating (r :: todo)) log)
        (alone db (.unchanged r.id now todo) log) := alone_run (.single (.skip now rfl hq))
    exact h.trans (markEvaluated_run.trans ih)
  | @countFails db db' r todo _ _ _ ih =>
    have h : Relation.ReflTransGen (Step cfg 0) (alone db (.evaluating (r :: todo)) log)
        (alone db (.evaluating todo) log) := alone_run (.single (.countFails rfl))
    exact h.trans ih
  | @unchanged db db' r todo now n _ hq _ hs _ ih =>
    have h : Relation.ReflTransGen (Step cfg 0) (alone db (.evaluating (r :: todo)) log)
        (alone db (afterCount r now n todo) log) := count_run now n hq
    have ha : afterCount r now n todo = .unchanged r.id now todo := if_pos hs
    rw [ha] at h
    exact h.trans (markEvaluated_run.trans ih)
  | @changed db db₁ db' r todo now n id clock _ hq _ hs ht _ ih =>
    have h : Relation.ReflTransGen (Step cfg 0) (alone db (.evaluating (r :: todo)) log)
        (alone db (afterCount r now n todo) log) := count_run now n hq
    have ha : afterCount r now n todo =
        .changed ⟨r, r.state, decideState n r.comparator r.threshold, n, now⟩ todo := if_neg hs
    rw [ha] at h
    have h' : Relation.ReflTransGen (Step cfg 0)
        (alone db (.changed ⟨r, r.state, decideState n r.comparator r.threshold, n, now⟩ todo) log)
        (alone db₁ (.evaluating todo) log) := alone_run (.single (.transition rfl ht))
    exact h.trans (h'.trans ih)

theorem Delivers.steps {out : List Notification} (h : Delivers fails db out db') :
    ∀ log, ∃ log', Relation.ReflTransGen (Step cfg 0) (alone db (.dispatching out) log)
      (alone db' (.dispatching []) log') := by
  induction h with
  | nil => exact fun log => ⟨log, .refl⟩
  | notifyFails _ _ ih =>
    intro log
    obtain ⟨log', h⟩ := ih (log ++ [.notified _ false])
    exact ⟨log', notifyFails_run.trans h⟩
  | notify now _ _ ih =>
    intro log
    obtain ⟨log', h⟩ := ih _
    exact ⟨log', (notify_run now).trans h⟩

/-- A cycle is what a replica does from one rest to the next. -/
theorem cycle_run {now : Time} {due : List Rule} (h : Cycle cfg fails now db due db') :
    ∃ log', Relation.ReflTransGen (Step cfg 0) (alone db .idle log) (alone db' .idle log') := by
  obtain ⟨saved, db₁, notifyFails, out, hl, he, hp, hd⟩ := h
  have hout : ∃ log', Relation.ReflTransGen (Step cfg 0) (alone db₁ (.dispatching out) log)
      (alone db' (.dispatching []) log') := hd.steps log
  obtain ⟨log', hd⟩ := hout
  have h : Relation.ReflTransGen (Step cfg 0) (alone db .idle log) (alone db (.evaluating due) log) :=
    alone_run (.single (.listDue rfl hl))
  exact ⟨log', h.trans (he.steps.trans ((listPending_run hp).trans (hd.trans rest_run)))⟩

/-- The rule resolves, and of its two rows the second is delivered. -/
theorem resolving_cycle_run : ∃ log', Relation.ReflTransGen (Step sampleConfig 0) (alone sampleFired .idle [])
      (alone sampleClosedDb .idle log') ∧
    sampleClosedDb.rules.map AlertRule.state = [.ok] ∧
    sampleClosedDb.outbox.map OutboxRow.dispatchedAt = [none, some 14] := by
  have hd : decideState 0 .gt (.fin 0) = .ok := by decide
  have ht : sampleFired.transition ⟨sampleScanned .firing 1, .firing, decideState 0 .gt (.fin 0), 0, 13⟩ (.rep 34) 13 =
      some sampleResolved := by
    rw [hd]
    exact sampleFired_transition
  have he : Evaluates (fun _ => false) 12 sampleFired [sampleScanned .firing 1] sampleResolved :=
    .changed (n := 0) (show (12 : Int) ≤ 13 by decide) rfl rfl (by decide) ht .nil
  have hp : RelayPass sampleConfig (fun id => id = sampleOpened.id) sampleResolved [sampleOpened, sampleClosed]
      sampleClosedDb :=
    ⟨sampleResolved_pending, .notifyFails (by decide) (.notify 14 (by decide) .nil)⟩
  obtain ⟨log', h⟩ : ∃ log', Relation.ReflTransGen (Step sampleConfig 0) (alone sampleFired .idle [])
      (alone sampleClosedDb .idle log') := cycle_run ⟨_, _, _, _, sampleFired_due, he, hp⟩
  exact ⟨log', h, rfl, rfl⟩

end Steps

/-! ## The snapshot of the rules -/

theorem scan_spec {r : AlertRule} {x : Rule} (h : r.scan = some x) :
    x.id = r.id ∧ x.state = r.state ∧ x.transitionSeq = r.transitionSeq ∧ r.query = some x.query := by
  unfold AlertRule.scan at h
  split at h
  · rename_i query channels hq _
    cases h
    exact ⟨rfl, rfl, rfl, hq⟩
  · cases h

theorem resolve_spec (saved : SavedQueries) (x : Rule) :
    (x.resolve saved).id = x.id ∧ (x.resolve saved).state = x.state ∧
      (x.resolve saved).transitionSeq = x.transitionSeq ∧
      (x.query.isEmpty = false → (x.resolve saved).query = x.query) := by
  unfold Rule.resolve
  split
  · exact ⟨rfl, rfl, rfl, fun _ => rfl⟩
  · split
    · exact ⟨rfl, rfl, rfl, fun _ => rfl⟩
    · rename_i hq
      split
      · exact ⟨rfl, rfl, rfl, fun _ => rfl⟩
      · exact ⟨rfl, rfl, rfl, fun he => absurd (by simp [he]) hq⟩

variable {db db' : AlertDb} {before start : Time} {due : List Rule} {fails : Uuid → Bool} {cfg : EvaluatorConfig}
variable {outs : List (List Notification)}

theorem listsDue_spec {saved : SavedQueries} {limit : Nat}
    (h : db.ListsDue saved before limit due) :
    ∃ p : List AlertRule, p.Perm (db.rules.filter (AlertDb.due before)) ∧ p.Pairwise AlertDb.evaluatedLe ∧
      due.map Rule.id = (p.take limit).map AlertRule.id ∧
      ∀ x ∈ due, ∃ r ∈ p.take limit, x.id = r.id ∧ x.state = r.state ∧ x.transitionSeq = r.transitionSeq ∧
        ∀ q, r.query = some q → q.isEmpty = false → x.query = q := by
  obtain ⟨rows, rules, ⟨p, hp, hs, rfl⟩, hscan, rfl⟩ := h
  refine ⟨p, hp, hs, ?_, fun x hx => ?_⟩
  · rw [List.map_map]
    exact map_eq_of_mapM (fun r y hy => (resolve_spec saved y).1.trans (scan_spec hy).1) hscan
  · obtain ⟨y, hy, rfl⟩ := List.mem_map.mp hx
    obtain ⟨q₁, q₂, rfl⟩ := List.append_of_mem hy
    obtain ⟨l₁, r, l₂, hl, hr, -⟩ := mapM_split hscan
    obtain ⟨h1, h2, h3, h4⟩ := scan_spec hr
    obtain ⟨k1, k2, k3, k4⟩ := resolve_spec saved y
    refine ⟨r, hl ▸ List.mem_append_right _ List.mem_cons_self, k1.trans h1, k2.trans h2, k3.trans h3,
      fun q hq he => ?_⟩
    rw [h4, Option.some.injEq] at hq
    rw [k4 (by rw [hq]; exact he), hq]

/-! ## What a cycle does to the rules -/

structure Stamps (start : Time) (ids : List Uuid) (r r' : AlertRule) : Prop where
  id : r'.id = r.id
  enabled : r'.enabled = r.enabled
  query : r'.query = r.query
  stamped : r.id ∈ ids → ∃ t, start ≤ t ∧ r'.lastEvaluatedAt = some t
  kept : r.id ∉ ids → r'.lastEvaluatedAt = r.lastEvaluatedAt

theorem Stamps.refl (start : Time) (r : AlertRule) : Stamps start [] r r :=
  ⟨rfl, rfl, rfl, fun h => absurd h List.not_mem_nil, fun _ => rfl⟩

theorem Stamps.trans {ids ids' : List Uuid} {r r' r'' : AlertRule} (h : Stamps start ids r r')
    (h' : Stamps start ids' r' r'') : Stamps start (ids ++ ids') r r'' := by
  have hid : r'.id = r.id := h.id
  refine ⟨h'.id.trans h.id, h'.enabled.trans h.enabled, h'.query.trans h.query, fun hm => ?_, fun hn => ?_⟩
  · by_cases hm' : r.id ∈ ids'
    · exact h'.stamped (hid.symm ▸ hm')
    · rw [h'.kept (hid.symm ▸ hm')]
      exact h.stamped ((List.mem_append.mp hm).resolve_right hm')
  · rw [h'.kept (hid.symm ▸ fun hm => hn (List.mem_append_right _ hm)),
      h.kept fun hm => hn (List.mem_append_left _ hm)]

def StampsRules (start : Time) (ids : List Uuid) (db db' : AlertDb) : Prop :=
  ∃ g : AlertRule → AlertRule, db'.rules = db.rules.map g ∧ ∀ r ∈ db.rules, Stamps start ids r (g r)

theorem StampsRules.refl (start : Time) (db : AlertDb) : StampsRules start [] db db :=
  ⟨fun r => r, (List.map_id' _).symm, fun r _ => .refl start r⟩

theorem StampsRules.trans {ids ids' : List Uuid} {db₁ : AlertDb} (h : StampsRules start ids db db₁)
    (h' : StampsRules start ids' db₁ db') : StampsRules start (ids ++ ids') db db' := by
  obtain ⟨g, hg, hs⟩ := h
  obtain ⟨g', hg', hs'⟩ := h'
  refine ⟨fun r => g' (g r), by rw [hg', hg, List.map_map]; rfl, fun r hr => (hs r hr).trans (hs' _ ?_)⟩
  rw [hg]
  exact List.mem_map_of_mem hr

theorem stampsRules_markEvaluated {now : Time} (h : start ≤ now) (db : AlertDb) (id : Uuid) :
    StampsRules start [id] db (db.markEvaluated id now) := by
  refine ⟨_, rfl, fun r _ => ?_⟩
  by_cases e : r.id = id
  · rw [if_pos e]
    exact ⟨rfl, rfl, rfl, fun _ => ⟨now, h, rfl⟩, fun hn => absurd (List.mem_singleton.mpr e) hn⟩
  · rw [if_neg e]
    exact ⟨rfl, rfl, rfl, fun hm => absurd (List.mem_singleton.mp hm) e, fun _ => rfl⟩

theorem stampsRules_transition {i : TransitionInput} {id : Uuid} {clock : Time}
    (h : start ≤ i.now) (ht : db.transition i id clock = some db') : StampsRules start [i.rule.id] db db' := by
  obtain ⟨r₀, hr₀, hid, hst, -, hrules, -⟩ := transition_cases ht
  refine ⟨_, hrules, fun r hr => ?_⟩
  by_cases e : r.id = i.rule.id
  · obtain rfl := AlertDb.eq_of_id hr₀ hr (hid.trans e.symm)
    rw [AlertDb.swap, if_pos ⟨hid, hst⟩]
    exact ⟨rfl, rfl, rfl, fun _ => ⟨i.now, h, rfl⟩, fun hn => absurd (List.mem_singleton.mpr hid) hn⟩
  · rw [AlertDb.swap, if_neg fun hc => e hc.1]
    exact ⟨rfl, rfl, rfl, fun hm => absurd (List.mem_singleton.mp hm) e, fun _ => rfl⟩

def evaluatedIds (fails : Uuid → Bool) (due : List Rule) : List Uuid :=
  (due.filter fun r => r.query.isEmpty || !fails r.id).map Rule.id

theorem Evaluates.stamps
    (h : Evaluates fails start db due db') : StampsRules start (evaluatedIds fails due) db db' := by
  induction h with
  | nil => exact .refl start _
  | @skip db db' r todo now hn hq _ ih =>
    rw [evaluatedIds, List.filter_cons_of_pos (by simp [hq])]
    exact (stampsRules_markEvaluated hn _ _).trans ih
  | @countFails db db' r todo hq hf _ ih =>
    rw [evaluatedIds, List.filter_cons_of_neg (by simp [hq, hf])]
    exact ih
  | @unchanged db db' r todo now n hn hq hf _ _ ih =>
    rw [evaluatedIds, List.filter_cons_of_pos (by simp [hf])]
    exact (stampsRules_markEvaluated hn _ _).trans ih
  | @changed db db₁ db' r todo now n id clock hn hq hf _ ht _ ih =>
    rw [evaluatedIds, List.filter_cons_of_pos (by simp [hf])]
    exact (stampsRules_transition hn ht).trans ih

theorem Delivers.stamps (start : Time) {out : List Notification}
    (h : Delivers fails db out db') : StampsRules start [] db db' := by
  induction h with
  | nil => exact .refl start _
  | notifyFails _ _ ih => exact ih
  | @notify db db' n todo now _ _ ih =>
    have hm : StampsRules start [] db (db.markDispatched n now) := by
      refine ⟨_, rfl, fun r _ => ?_⟩
      by_cases e : r.id = n.ruleId
      · rw [if_pos e]
        exact ⟨rfl, rfl, rfl, fun hm => absurd hm List.not_mem_nil, fun _ => rfl⟩
      · rw [if_neg e]
        exact .refl start r
    exact hm.trans ih

theorem Cycle.stamps {now : Time}
    (h : Cycle cfg fails now db due db') : StampsRules now (evaluatedIds fails due) db db' := by
  obtain ⟨saved, db₁, notifyFails, out, -, he, -, hd⟩ := h
  have hs := he.stamps.trans (hd.stamps now)
  rwa [List.append_nil] at hs

/-! ## The front of the rules -/

def Fronted (db : AlertDb) (a : List Uuid) : Prop :=
  ∃ rows rest, (db.rules.filter fun r => r.enabled).Perm (rows ++ rest) ∧ rows.map AlertRule.id = a ∧
    rows.Pairwise (fun x y => ¬ AlertDb.evaluatedLe y x) ∧ ∀ x ∈ rows, ∀ y ∈ rest, ¬ AlertDb.evaluatedLe y x

theorem evaluatedLe_congr {x x' y y' : AlertRule} (hy : y'.lastEvaluatedAt = y.lastEvaluatedAt)
    (hx : x'.lastEvaluatedAt = x.lastEvaluatedAt) : AlertDb.evaluatedLe y' x' ↔ AlertDb.evaluatedLe y x := by
  unfold AlertDb.evaluatedLe
  rw [hy, hx]

theorem not_evaluatedLe_of_stamps {x y : AlertRule} {t : Time} {on : Int} (hx : AlertDb.due before x = true)
    (hb : before = start - on) (hp : 0 < on) (hs : start ≤ t) (hy : y.lastEvaluatedAt = some t) :
    ¬ AlertDb.evaluatedLe y x := by
  unfold AlertDb.evaluatedLe
  rw [hy]
  unfold AlertDb.due at hx
  cases hx' : x.lastEvaluatedAt with
  | none => exact id
  | some u =>
    rw [hx'] at hx
    have hu : u ≤ before := by simpa using (Bool.and_eq_true_iff.mp hx).2
    intro hle
    exact absurd (show start ≤ before from hs.trans (hle.trans hu)) (by subst hb; exact not_le.mpr (sub_lt_self _ hp))

theorem filter_due
    (hd : ∀ r ∈ db.rules, r.enabled = true → AlertDb.due before r = true) :
    db.rules.filter (AlertDb.due before) = db.rules.filter fun r => r.enabled := by
  refine List.filter_congr fun r hr => ?_
  cases he : r.enabled with
  | true => exact hd r hr he
  | false => simp [AlertDb.due, he]

theorem nodup_ids_of_perm {l : List AlertRule} (hp : l.Perm (db.rules.filter fun r => r.enabled)) :
    (l.map AlertRule.id).Nodup :=
  ((hp.map _).nodup_iff).mpr ((List.filter_sublist.map _).nodup db.nodup_rules)

section Front

variable {cfg : EvaluatorConfig} {fails : Uuid → Bool} {now : Time} {db db' : AlertDb} {due : List Rule}

theorem interval_pos (cfg : EvaluatorConfig) : 0 < cfg.new.interval := by
  unfold EvaluatorConfig.new
  dsimp only
  split <;> omega

theorem batch_of_fronted {a : List Uuid} (hf : Fronted db a)
    (hd : ∀ r ∈ db.rules, r.enabled = true → AlertDb.due (now - cfg.new.interval) r = true)
    (hc : Cycle cfg fails now db due db') :
    ∃ m, due.map Rule.id = (a ++ m).take cfg.new.batchSize.toNat ∧ ∀ x ∈ a, x ∉ m := by
  obtain ⟨rows, rest, hperm, rfl, hlt, hrest⟩ := hf
  obtain ⟨saved, -, -, -, hl, -⟩ := hc
  obtain ⟨p, hp, hs, hids, -⟩ := listsDue_spec hl
  rw [filter_due hd] at hp
  obtain ⟨rest', hr, rfl⟩ := eq_append_of_sorted (hp.trans hperm) hs hlt hrest
  refine ⟨rest'.map AlertRule.id, by rw [hids, ← List.map_append, List.map_take], fun x hx hm => ?_⟩
  have hn := nodup_ids_of_perm hp
  rw [List.map_append, List.nodup_append] at hn
  exact hn.2.2 x hx x hm rfl

def InlineQueries (db : AlertDb) : Prop :=
  ∀ r ∈ db.rules, r.enabled = true → ∃ q, r.query = some q ∧ q.isEmpty = false

theorem query_of_cycle (hq : InlineQueries db) (hc : Cycle cfg fails now db due db') {x : Rule} (hx : x ∈ due) :
    x.query.isEmpty = false := by
  obtain ⟨saved, -, -, -, hl, -⟩ := hc
  obtain ⟨p, hp, -, -, hspec⟩ := listsDue_spec hl
  obtain ⟨r, hr, -, -, -, hquery⟩ := hspec x hx
  obtain ⟨hrm, hrd⟩ := List.mem_filter.mp (hp.mem_iff.mp (List.mem_of_mem_take hr))
  obtain ⟨q, he, hn⟩ := hq r hrm (Bool.and_eq_true_iff.mp hrd).1
  rw [hquery q he hn]
  exact hn

theorem evaluatedIds_eq (hq : ∀ x ∈ due, x.query.isEmpty = false) :
    evaluatedIds fails due = (due.map Rule.id).filter fun id => !fails id := by
  rw [evaluatedIds, List.filter_map]
  congr 1
  exact List.filter_congr fun x hx => by simp [hq x hx]

theorem InlineQueries.cycle (hq : InlineQueries db) (hc : Cycle cfg fails now db due db') : InlineQueries db' := by
  obtain ⟨g, hg, hs⟩ := hc.stamps
  intro r' hr' he
  rw [hg] at hr'
  obtain ⟨r, hr, rfl⟩ := List.mem_map.mp hr'
  rw [(hs r hr).enabled] at he
  rw [(hs r hr).query]
  exact hq r hr he

theorem Fronted.cycle {a : List Uuid} (hf : Fronted db a)
    (hd : ∀ r ∈ db.rules, r.enabled = true → AlertDb.due (now - cfg.new.interval) r = true) (hq : InlineQueries db)
    (hc : Cycle cfg fails now db due db') : Fronted db' (afterPass cfg.new.batchSize.toNat fails a) := by
  obtain ⟨m, hids, hdis⟩ := batch_of_fronted hf hd hc
  obtain ⟨rows, rest, hperm, rfl, hlt, hrest⟩ := hf
  obtain ⟨g, hg, hs⟩ := hc.stamps
  rw [evaluatedIds_eq fun x hx => query_of_cycle hq hc hx, hids] at hs
  generalize cfg.new.batchSize.toNat = b at hs hids ⊢
  have hrules : ∀ r ∈ rows ++ rest, r ∈ db.rules ∧ r.enabled = true := fun r hr =>
    List.mem_filter.mp (hperm.mem_iff.mpr hr)
  have hn : (rows.map AlertRule.id).Nodup := by
    have h := nodup_ids_of_perm hperm.symm
    rw [List.map_append] at h
    exact (List.nodup_append.mp h).1
  have hkept : ∀ r ∈ afterPass b (fun r => fails r.id) rows, (g r).lastEvaluatedAt = r.lastEvaluatedAt := fun r hr =>
    (hs r (hrules r (List.mem_append_left _ (afterPass_sublist.mem hr))).1).kept
      (not_mem_moved hn hdis (afterPass_map AlertRule.id fails ▸ List.mem_map_of_mem hr))
  refine ⟨(afterPass b (fun r => fails r.id) rows).map g,
    ((rows.take b).filter (fun r => !fails r.id) ++ rest).map g, ?_, ?_, ?_, ?_⟩
  · -- the rows of the batch that did not fail join the rest
    have he : db'.rules.filter (fun r => r.enabled) = (db.rules.filter fun r => r.enabled).map g := by
      rw [hg, List.filter_map]
      congr 1
      exact List.filter_congr fun r hr => by simp [(hs r hr).enabled]
    rw [he, ← List.map_append]
    exact (hperm.trans (perm_afterPass rest)).map g
  · rw [List.map_map, ← afterPass_map]
    exact List.map_congr_left fun r hr => (hs r (hrules r (List.mem_append_left _ (afterPass_sublist.mem hr))).1).id
  · rw [List.pairwise_map]
    refine (hlt.sublist afterPass_sublist).imp_of_mem fun hx hy h => ?_
    rwa [evaluatedLe_congr (hkept _ hy) (hkept _ hx)]
  · intro x' hx' y' hy'
    obtain ⟨x, hx, rfl⟩ := List.mem_map.mp hx'
    obtain ⟨y, hy, rfl⟩ := List.mem_map.mp hy'
    have hxr := hrules x (List.mem_append_left _ (afterPass_sublist.mem hx))
    have hyr : y ∈ rows ++ rest := by
      rcases List.mem_append.mp hy with hy | hy
      · exact List.mem_append_left _ (List.mem_of_mem_take (List.mem_of_mem_filter hy))
      · exact List.mem_append_right _ hy
    by_cases hst : y.id ∈ ((rows.map AlertRule.id ++ m).take b).filter fun id => !fails id
    · obtain ⟨t, ht, hyt⟩ := (hs y (hrules y hyr).1).stamped hst
      have hdue : AlertDb.due (now - cfg.new.interval) (g x) = true := by
        have h := hd x hxr.1 hxr.2
        unfold AlertDb.due at h ⊢
        rwa [hkept x hx, (hs x hxr.1).enabled]
      exact not_evaluatedLe_of_stamps hdue rfl (interval_pos cfg) ht hyt
    · have hyrest : y ∈ rest := by
        refine (List.mem_append.mp hy).resolve_left fun hy => hst ?_
        obtain ⟨hyt, hyf⟩ := List.mem_filter.mp hy
        refine List.mem_filter.mpr ⟨?_, hyf⟩
        rw [List.take_append, ← List.map_take]
        exact List.mem_append_left _ (List.mem_map_of_mem hyt)
      rw [evaluatedLe_congr ((hs y (hrules y hyr).1).kept hst) (hkept x hx)]
      exact hrest x (afterPass_sublist.mem hx) y hyrest

theorem Cycles.run {dues : List (List Rule)} (h : Cycles cfg fails db dues db') :
    ∀ {a : List Uuid}, Fronted db a → InlineQueries db →
      Run cfg.new.batchSize.toNat fails a (dues.map (List.map Rule.id)) := by
  induction h with
  | nil => exact fun _ _ => .nil
  | cons hd hc _ ih =>
    intro a hf hq
    obtain ⟨m, hids, hdis⟩ := batch_of_fronted hf hd hc
    exact .cons hids hdis (ih (hf.cycle hd hq hc) (hq.cycle hc))

theorem Cycles.counted_iff {dues : List (List Rule)} (h : Cycles cfg fails db dues db') (hq : InlineQueries db)
    (id : Uuid) : Counted dues id ↔ ∃ batch ∈ dues.map (List.map Rule.id), id ∈ batch := by
  induction h with
  | nil => simp [Counted]
  | cons hd hc _ ih =>
    have ih := ih (hq.cycle hc)
    simp only [Counted, List.map_cons, List.mem_cons, exists_eq_or_imp, List.mem_map] at ih ⊢
    rw [ih]
    refine or_congr ⟨?_, ?_⟩ Iff.rfl
    · rintro ⟨x, hx, rfl, -⟩
      exact ⟨x, hx, rfl⟩
    · rintro ⟨x, hx, rfl⟩
      exact ⟨x, hx, rfl, query_of_cycle hq hc hx⟩

end Front

theorem fronted_of_order {order : List AlertRule}
    (ho : order.Perm (db.rules.filter fun r => r.enabled))
    (hs : order.Pairwise fun x y => ¬ AlertDb.evaluatedLe y x) : Fronted db (order.map AlertRule.id) :=
  ⟨order, [], by rw [List.append_nil]; exact ho.symm, rfl, hs, fun _ _ _ h => absurd h List.not_mem_nil⟩

/-- **Turns of the rules.** As many cycles as the rules fill batches attempt the count of every rule exactly
if they get to the last one with the places that failing rules keep. -/
theorem all_counted_iff {dues : List (List Rule)}
    {order : List AlertRule} (ho : order.Perm (db.rules.filter fun r => r.enabled))
    (hs : order.Pairwise fun x y => ¬ AlertDb.evaluatedLe y x) (hq : InlineQueries db)
    (h : Cycles cfg fails db dues db')
    (hk : dues.length = (order.length + cfg.new.batchSize.toNat - 1) / cfg.new.batchSize.toNat) :
    (∀ r ∈ db.rules, r.enabled = true → Counted dues r.id) ↔
      order.length ≤ reached cfg.new.batchSize.toNat fails (order.map AlertRule.id)
        ((order.length + cfg.new.batchSize.toNat - 1) / cfg.new.batchSize.toNat) := by
  have hrun := (h.run (fronted_of_order ho hs) hq).all_taken_iff (nodup_ids_of_perm ho)
  rw [List.length_map, List.length_map, hk] at hrun
  rw [← hrun]
  constructor
  · intro hall x hx
    obtain ⟨r, hr, rfl⟩ := List.mem_map.mp hx
    obtain ⟨hrm, he⟩ := List.mem_filter.mp (ho.mem_iff.mp hr)
    exact (h.counted_iff hq r.id).mp (hall r hrm he)
  · intro hall r hr he
    have hmem : r ∈ order := ho.mem_iff.mpr (List.mem_filter.mpr ⟨hr, he⟩)
    exact (h.counted_iff hq r.id).mpr (hall r.id (List.mem_map_of_mem hmem))

section Sample

open AlertRun

def turnsConfig : EvaluatorConfig := ⟨2, 1⟩

def turnsFirst : AlertRule := { sampleRule with lastEvaluatedAt := some 0 }

def turnsSecond : AlertRule := { sampleRule with id := .rep 2, lastEvaluatedAt := some 1 }

def turnsDb : AlertDb := ⟨[turnsFirst, turnsSecond], [], by decide, List.nodup_nil⟩

def turnsScanned : Rule := { sampleScanned .ok 0 with id := .rep 2 }

theorem relayPass_of_empty {cfg : EvaluatorConfig} {fails : Uuid → Bool} {db : AlertDb} (h : db.outbox = []) :
    RelayPass cfg fails db [] db := by
  have hp : db.pending = [] := by
    unfold AlertDb.pending
    rw [h]
    rfl
  exact ⟨⟨[], ⟨[], by rw [hp], .nil, (List.take_nil).symm⟩, rfl⟩, .nil⟩

theorem turnsDb_inline : InlineQueries turnsDb := by
  intro r hr _
  have hq : r.query = sampleRule.query := by
    rcases List.mem_cons.mp hr with rfl | hr
    · rfl
    · rw [List.mem_singleton.mp hr]
      rfl
  exact ⟨_, hq, rfl⟩

theorem turnsDb_order : turnsDb.rules.Pairwise AlertDb.evaluatedLe :=
  List.pairwise_pair.mpr (show (0 : Int) ≤ 1 by decide)

theorem turnsDb_due : turnsDb.ListsDue (fun _ _ => none) (10 - turnsConfig.new.interval)
      turnsConfig.new.batchSize.toNat [sampleScanned .ok 0] ∧
    turnsDb.ListsDue (fun _ _ => none) (20 - turnsConfig.new.interval)
      turnsConfig.new.batchSize.toNat [sampleScanned .ok 0] :=
  ⟨⟨[turnsFirst], _, ⟨_, .refl _, turnsDb_order, rfl⟩, rfl, rfl⟩,
    ⟨[turnsFirst], _, ⟨_, .refl _, turnsDb_order, rfl⟩, rfl, rfl⟩⟩

theorem turnsDb_allDue :
    (∀ r ∈ turnsDb.rules, r.enabled = true → AlertDb.due (10 - turnsConfig.new.interval) r = true) ∧
    ∀ r ∈ turnsDb.rules, r.enabled = true → AlertDb.due (20 - turnsConfig.new.interval) r = true := by
  decide

/-- The count of the rule evaluated longest ago fails: it takes both batches, and the other rule has no turn. -/
theorem failing_rule_starves : ∃ dues,
    Cycles turnsConfig (fun id => id = .rep 1) turnsDb dues turnsDb ∧
      dues.length = (turnsDb.rules.length + turnsConfig.new.batchSize.toNat - 1) / turnsConfig.new.batchSize.toNat ∧
      ¬ Counted dues turnsSecond.id := by
  have he : ∀ start, Evaluates (fun id => id = .rep 1) start turnsDb [sampleScanned .ok 0] turnsDb := fun start =>
    .countFails rfl (by decide) .nil
  refine ⟨[[sampleScanned .ok 0], [sampleScanned .ok 0]], ?_, rfl, ?_⟩
  · exact .cons turnsDb_allDue.1 ⟨_, _, fun _ => false, [], turnsDb_due.1, he 10, relayPass_of_empty rfl⟩
      (.cons turnsDb_allDue.2 ⟨_, _, fun _ => false, [], turnsDb_due.2, he 20, relayPass_of_empty rfl⟩ .nil)
  · rintro ⟨due, hd, r, hr, hid, -⟩
    have hdue : due = [sampleScanned .ok 0] := by
      rcases List.mem_cons.mp hd with rfl | hd
      · rfl
      · exact List.mem_singleton.mp hd
    rw [hdue] at hr
    rw [List.mem_singleton.mp hr] at hid
    exact absurd hid (by decide)

def turnsQuiet : AlertDb := turnsDb.markEvaluated (.rep 1) 11

theorem turnsQuiet_due : turnsQuiet.ListsDue (fun _ _ => none) (20 - turnsConfig.new.interval)
    turnsConfig.new.batchSize.toNat [turnsScanned] := by
  refine ⟨[turnsSecond], _, ⟨[turnsSecond, { turnsFirst with lastEvaluatedAt := some 11 }], ?_, ?_, rfl⟩, rfl, rfl⟩
  · exact .swap _ _ _
  · exact List.pairwise_pair.mpr (show (1 : Int) ≤ 11 by decide)

/-- The count of the rule evaluated last fails, and both have their turn. -/
theorem last_rule_fails : ∃ dues,
    Cycles turnsConfig (fun id => id = .rep 2) turnsDb dues turnsQuiet ∧
      ((∀ r ∈ turnsDb.rules, r.enabled = true → Counted dues r.id) ↔
        2 ≤ reached 1 (fun id => id = Uuid.rep 2) [.rep 1, .rep 2] 2) ∧
      2 ≤ reached 1 (fun id => id = Uuid.rep 2) [.rep 1, .rep 2] 2 := by
  have hc : Cycles turnsConfig (fun id => id = .rep 2) turnsDb [[sampleScanned .ok 0], [turnsScanned]] turnsQuiet := by
    have hdue : ∀ r ∈ turnsQuiet.rules, r.enabled = true → AlertDb.due (20 - turnsConfig.new.interval) r = true := by
      decide
    have hquiet : decideState 0 (sampleScanned .ok 0).comparator (sampleScanned .ok 0).threshold = .ok := by
      decide
    refine .cons turnsDb_allDue.1 ⟨_, turnsQuiet, fun _ => false, [], turnsDb_due.1, ?_, relayPass_of_empty rfl⟩
      (.cons hdue ⟨_, turnsQuiet, fun _ => false, [], turnsQuiet_due, ?_, relayPass_of_empty rfl⟩ .nil)
    · exact .unchanged (show (10 : Int) ≤ 11 by decide) rfl (by decide) hquiet .nil
    · exact .countFails rfl (by decide) .nil
  refine ⟨_, hc, ?_, by decide⟩
  have ho : turnsDb.rules.Perm (turnsDb.rules.filter fun r => r.enabled) := .refl _
  exact all_counted_iff ho (List.pairwise_pair.mpr (show ¬ (1 : Int) ≤ 0 by decide))
    turnsDb_inline hc rfl

end Sample

/-! ## The front of the outbox -/

theorem pending_fst (db : AlertDb) : db.pending.map Prod.fst =
    db.outbox.filter fun n => n.dispatchedAt = none ∧ (db.rules.find? fun r => r.id = n.ruleId).isSome := by
  unfold AlertDb.pending
  induction db.outbox with
  | nil => rfl
  | cons n l ih =>
    rw [List.filterMap_cons]
    by_cases hd : n.dispatchedAt = none
    · cases hf : db.rules.find? fun r => r.id = n.ruleId with
      | none =>
        rw [List.filter_cons_of_neg (by simp [hf])]
        simpa [hd] using ih
      | some r =>
        rw [List.filter_cons_of_pos (by simp [hd, hf])]
        simpa [hd] using ih
    · rw [List.filter_cons_of_neg (by simp [hd])]
      simpa [hd] using ih

theorem find?_map_id (l : List AlertRule) {f : AlertRule → AlertRule} (hf : ∀ r, (f r).id = r.id) (id : Uuid) :
    ((l.map f).find? fun r => r.id = id).isSome = (l.find? fun r => r.id = id).isSome := by
  rw [List.find?_map, Option.isSome_map]
  congr 2
  funext r
  simp [hf r]

theorem pending_markDispatched (db : AlertDb) (n : Notification) (now : Time) :
    (db.markDispatched n now).pending.map Prod.fst = (db.pending.map Prod.fst).filter fun m => m.id ≠ n.id := by
  have hrules : ∀ id, (((db.markDispatched n now).rules.find? fun r => r.id = id).isSome) =
      ((db.rules.find? fun r => r.id = id).isSome) := fun id => by
    refine find?_map_id db.rules (fun r => ?_) id
    split <;> rfl
  rw [pending_fst, pending_fst]
  simp only [hrules]
  have hout : (db.markDispatched n now).outbox =
    db.outbox.map fun m => if m.id = n.id then { m with dispatchedAt := some now } else m := rfl
  rw [hout, List.filter_filter]
  induction db.outbox with
  | nil => rfl
  | cons m l ih =>
    rw [List.map_cons]
    by_cases he : m.id = n.id
    · rw [if_pos he, List.filter_cons_of_neg (by simp), List.filter_cons_of_neg (by simp [he])]
      exact ih
    · rw [if_neg he]
      by_cases hd : m.dispatchedAt = none ∧ (db.rules.find? fun r => r.id = m.ruleId).isSome
      · rw [List.filter_cons_of_pos (by simpa using hd), List.filter_cons_of_pos (by simpa [he] using hd), ih]
      · rw [List.filter_cons_of_neg (by simpa using hd), List.filter_cons_of_neg (by simpa [he] using hd), ih]

theorem Delivers.pending {out : List Notification}
    (h : Delivers fails db out db') : db'.pending.map Prod.fst =
      (db.pending.map Prod.fst).filter fun m => m.id ∉ (out.map Notification.id).filter fun id => !fails id := by
  induction h with
  | nil => simp
  | @notifyFails db db' n todo hf _ ih =>
    rw [ih, List.map_cons, List.filter_cons_of_neg (by simp [hf])]
  | @notify db db' n todo now hf _ ih =>
    rw [ih, pending_markDispatched, List.map_cons, List.filter_cons_of_pos (by simp [hf]), List.filter_filter]
    refine List.filter_congr fun m _ => ?_
    simp only [List.mem_cons, not_or, ← Bool.decide_and]
    exact decide_eq_decide.mpr and_comm

def PendingInOrder (db : AlertDb) (a : List Uuid) : Prop :=
  ∃ rows : List OutboxRow, (db.pending.map Prod.fst).Perm rows ∧ rows.map OutboxRow.id = a ∧
    rows.Pairwise fun x y => x.occurredAt < y.occurredAt

section Relay

variable {cfg : EvaluatorConfig} {fails : Uuid → Bool} {db db' : AlertDb} {out : List Notification}

theorem batch_of_pending {a : List Uuid} (hf : PendingInOrder db a) (hp : RelayPass cfg fails db out db') :
    out.map Notification.id = a.take cfg.new.batchSize.toNat := by
  obtain ⟨rows, hperm, rfl, hlt⟩ := hf
  obtain ⟨⟨_, ⟨p, hpp, hps, rfl⟩, hscan⟩, -⟩ := hp
  have hids : out.map Notification.id = ((p.take cfg.new.batchSize.toNat).map Prod.fst).map OutboxRow.id := by
    rw [List.map_map]
    exact map_eq_of_mapM (fun q n hs => (sent_of_scan hs).1.symm) hscan
  have hsorted : (p.map Prod.fst).Pairwise fun x y => x.occurredAt ≤ y.occurredAt := List.pairwise_map.mpr hps
  have hperm' : (p.map Prod.fst).Perm (rows ++ []) := by
    rw [List.append_nil]
    exact (hpp.map Prod.fst).trans hperm
  obtain ⟨m, hm, he⟩ := eq_append_of_sorted hperm' hsorted (hlt.imp fun h => not_le.mpr h)
    fun _ _ _ h => absurd h List.not_mem_nil
  rw [List.Perm.eq_nil hm, List.append_nil] at he
  rw [hids, List.map_take, he, List.map_take]

theorem PendingInOrder.pass {a : List Uuid} (hf : PendingInOrder db a) (hp : RelayPass cfg fails db out db') :
    PendingInOrder db' (afterPass cfg.new.batchSize.toNat fails a) := by
  have hids := batch_of_pending hf hp
  obtain ⟨rows, hperm, rfl, hlt⟩ := hf
  have hpend := hp.2.pending
  rw [hids] at hpend
  generalize cfg.new.batchSize.toNat = b at hpend ⊢
  have hn : (rows.map OutboxRow.id).Nodup := by
    have h : ((db.pending.map Prod.fst).map OutboxRow.id).Nodup := by
      rw [List.map_map]
      exact nodup_pending db
    exact ((hperm.map OutboxRow.id).nodup_iff).mp h
  refine ⟨_, by rw [hpend]; exact hperm.filter _, ?_, hlt.filter _⟩
  rw [← filter_not_moved hn, List.filter_map]
  rfl

theorem RelayPasses.run {outs : List (List Notification)} (h : RelayPasses cfg fails db outs db') :
    ∀ {a : List Uuid}, PendingInOrder db a →
      Run cfg.new.batchSize.toNat fails a (outs.map (List.map Notification.id)) := by
  induction h with
  | nil => exact fun _ => .nil
  | cons hp _ ih =>
    intro a hf
    refine .cons (m := []) ?_ (fun _ _ h => absurd h List.not_mem_nil) (ih (hf.pass hp))
    rw [List.append_nil]
    exact batch_of_pending hf hp

end Relay

theorem notifyTried_iff {id : Uuid} :
    NotifyTried outs id ↔ ∃ batch ∈ outs.map (List.map Notification.id), id ∈ batch := by
  simp only [NotifyTried, List.mem_map, exists_exists_and_eq_and]

/-- **Turns of the rows.** As many passes as the pending rows fill batches attempt the delivery of every row
exactly if they get to the last one with the places that undeliverable rows keep. -/
theorem all_notified_iff {order : List OutboxRow} (ho : order.Perm (db.pending.map Prod.fst))
    (hs : order.Pairwise fun x y => x.occurredAt < y.occurredAt) (h : RelayPasses cfg fails db outs db')
    (hk : outs.length = (order.length + cfg.new.batchSize.toNat - 1) / cfg.new.batchSize.toNat) :
    (∀ p ∈ db.pending, NotifyTried outs p.1.id) ↔
      order.length ≤ reached cfg.new.batchSize.toNat fails (order.map OutboxRow.id)
        ((order.length + cfg.new.batchSize.toNat - 1) / cfg.new.batchSize.toNat) := by
  have hn : (order.map OutboxRow.id).Nodup := by
    rw [(ho.map OutboxRow.id).nodup_iff, List.map_map]
    exact nodup_pending db
  have hrun := (h.run ⟨order, ho.symm, rfl, hs⟩).all_taken_iff hn
  rw [List.length_map, List.length_map, hk] at hrun
  rw [← hrun]
  constructor
  · intro hall x hx
    obtain ⟨n, hn, rfl⟩ := List.mem_map.mp hx
    obtain ⟨p, hp, rfl⟩ := List.mem_map.mp (ho.mem_iff.mp hn)
    exact notifyTried_iff.mp (hall p hp)
  · intro hall p hp
    exact notifyTried_iff.mpr (hall _ (List.mem_map_of_mem (ho.mem_iff.mpr (List.mem_map_of_mem hp))))

section Sample

open AlertRun

/-- Two rules of two tenants, each with a row to tell. -/
def outboxFirst : OutboxRow := sampleRow 1 .firing 3 11

def outboxSecond : OutboxRow := { sampleRow 2 .firing 3 12 with tenantId := .rep 18, ruleId := .rep 2 }

def outboxDb : AlertDb :=
  ⟨[sampleFiring, { sampleFiring with id := .rep 2, tenantId := .rep 18 }], [outboxFirst, outboxSecond],
    by decide, by decide⟩

def noticeSecond : Notification := { sampleNotification 2 .firing 3 12 with tenantId := .rep 18, ruleId := .rep 2 }

theorem outboxDb_pending : outboxDb.ListsPending turnsConfig.new.batchSize.toNat [sampleOpened] := by
  refine ⟨[(outboxFirst, sampleFiring)],
    ⟨[(outboxFirst, sampleFiring), (outboxSecond, { sampleFiring with id := .rep 2, tenantId := .rep 18 })], .refl _,
      ?_, rfl⟩, rfl⟩
  exact List.pairwise_pair.mpr (by decide)

/-- The older row cannot be delivered: it takes both passes, and that of the other tenant has no turn. -/
theorem failing_row_blocks : ∃ outs,
    RelayPasses turnsConfig (fun id => id = outboxFirst.id) outboxDb outs outboxDb ∧
      outs.length = (outboxDb.pending.length + turnsConfig.new.batchSize.toNat - 1) / turnsConfig.new.batchSize.toNat ∧
      outboxSecond ∈ outboxDb.pending.map Prod.fst ∧ outboxSecond.tenantId ≠ outboxFirst.tenantId ∧
      ¬ NotifyTried outs outboxSecond.id := by
  have hp : RelayPass turnsConfig (fun id => id = outboxFirst.id) outboxDb [sampleOpened] outboxDb :=
    ⟨outboxDb_pending, .notifyFails (by decide) .nil⟩
  refine ⟨[[sampleOpened], [sampleOpened]], .cons hp (.cons hp .nil), rfl, by decide, by decide, ?_⟩
  rintro ⟨out, ho, n, hn, hid⟩
  have hout : out = [sampleOpened] := by
    rcases List.mem_cons.mp ho with rfl | ho
    · rfl
    · exact List.mem_singleton.mp ho
  rw [hout] at hn
  rw [List.mem_singleton.mp hn] at hid
  exact absurd hid (by decide)

theorem outboxDb_second : (outboxDb.markDispatched sampleOpened 20).ListsPending turnsConfig.new.batchSize.toNat
    [noticeSecond] :=
  ⟨_, ⟨_, .refl _, List.pairwise_singleton _ _, rfl⟩, rfl⟩

/-- The newer row cannot be delivered, and both have their turn. -/
theorem last_row_fails : ∃ outs db,
    RelayPasses turnsConfig (fun id => id = outboxSecond.id) outboxDb outs db ∧
      ((∀ p ∈ outboxDb.pending, NotifyTried outs p.1.id) ↔
        2 ≤ reached 1 (fun id => id = outboxSecond.id) [outboxFirst.id, outboxSecond.id] 2) ∧
      2 ≤ reached 1 (fun id => id = outboxSecond.id) [outboxFirst.id, outboxSecond.id] 2 := by
  have hp : RelayPasses turnsConfig (fun id => id = outboxSecond.id) outboxDb [[sampleOpened], [noticeSecond]]
      (outboxDb.markDispatched sampleOpened 20) :=
    .cons ⟨outboxDb_pending, .notify 20 (by decide) .nil⟩
      (.cons ⟨outboxDb_second, .notifyFails (by decide) .nil⟩ .nil)
  refine ⟨_, _, hp, ?_, by decide⟩
  have ho : [outboxFirst, outboxSecond].Perm (outboxDb.pending.map Prod.fst) := .refl _
  exact all_notified_iff ho (List.pairwise_pair.mpr (by decide)) hp rfl

end Sample

end Logalot
