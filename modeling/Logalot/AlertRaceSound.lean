import Logalot.AlertCyclesSound

/-!
# Snapshots that have aged

A transition compares the state of the rule with that of its snapshot, not the
number of transitions, and so takes a rule for unmoved that other replicas have
moved an even number of times.
-/

namespace Logalot

open Go Pg

def EvalPhase.held : EvalPhase → List Rule
  | .evaluating todo => todo
  | .unchanged _ _ todo => todo
  | .changed i todo => i.rule :: todo
  | _ => []

def stateOf (seq : Nat) : AlertState := if seq % 2 = 0 then .ok else .firing

theorem stateOf_succ {t : AlertState} {seq : Nat} (ht : t = .ok ∨ t = .firing) (hne : t ≠ stateOf seq) :
    t = stateOf (seq + 1) := by
  unfold stateOf at hne ⊢
  rcases Nat.mod_two_eq_zero_or_one seq with h | h
  · have h' : (seq + 1) % 2 = 1 := by omega
    rw [if_pos h] at hne
    rw [if_neg (by omega)]
    exact ht.resolve_left hne
  · have h' : (seq + 1) % 2 = 0 := by omega
    rw [if_neg (by omega)] at hne
    rw [if_pos h']
    exact ht.resolve_right hne

theorem stateOf_eq {a b : Nat} (h : stateOf a = stateOf b) : a % 2 = b % 2 := by
  unfold stateOf at h
  rcases Nat.mod_two_eq_zero_or_one a with ha | ha <;> rcases Nat.mod_two_eq_zero_or_one b with hb | hb
  · rw [ha, hb]
  · rw [if_pos ha, if_neg (by omega)] at h
    cases h
  · rw [if_neg (by omega), if_pos hb] at h
    cases h
  · rw [ha, hb]

theorem decideState_cases (n : Int) (cmp : Comparator) (threshold : Float64) :
    decideState n cmp threshold = .ok ∨ decideState n cmp threshold = .firing := by
  unfold decideState
  split
  · exact .inr rfl
  · exact .inl rfl

namespace AlertRun

variable {cfg : EvaluatorConfig} {k : Nat} {s t : AlertRun} {db : AlertDb} {r' : AlertRule} {i : TransitionInput}
variable {id : Uuid} {clock : Time}

/-! ## What a step does to snapshots and rules -/

def Decided (p : EvalPhase) : Prop :=
  ∀ i todo, p = .changed i todo → i.expectedFrom = i.rule.state ∧ (i.target = .ok ∨ i.target = .firing)

def ReadFrom (db : AlertDb) (x : Rule) : Prop :=
  ∃ r ∈ db.rules, x.id = r.id ∧ x.state = r.state ∧ x.transitionSeq = r.transitionSeq

theorem decided_afterCount (r : Rule) (now : Time) (n : Int) (todo : List Rule) :
    Decided (afterCount r now n todo) ∧ ∀ x ∈ (afterCount r now n todo).held, x ∈ r :: todo := by
  unfold afterCount
  dsimp only
  split
  · exact ⟨fun _ _ h => (by cases h), fun x hx => List.mem_cons_of_mem _ hx⟩
  · refine ⟨fun i todo' h => ?_, fun x hx => hx⟩
    obtain ⟨rfl, -⟩ := EvalPhase.changed.inj h
    exact ⟨rfl, decideState_cases n _ _⟩

theorem readFrom_of_listsDue {saved : SavedQueries} {before : Time} {limit : Nat} {out : List Rule}
    (h : db.ListsDue saved before limit out) {x : Rule} (hx : x ∈ out) : ReadFrom db x := by
  obtain ⟨p, hp, -, -, hspec⟩ := listsDue_spec h
  obtain ⟨r, hr, h1, h2, h3, -⟩ := hspec x hx
  exact ⟨r, List.mem_of_mem_filter (hp.mem_iff.mp (List.mem_of_mem_take hr)), h1, h2, h3⟩

theorem step_held (h : Step cfg k s t) : ∃ p, t.replicas = Function.update s.replicas k p ∧ Decided p ∧
    ∀ x ∈ p.held, x ∈ (s.replicas k).held ∨ (t.db = s.db ∧ ReadFrom s.db x) := by
  have hd : ∀ {p : EvalPhase}, (∀ i todo, p ≠ .changed i todo) → Decided p := fun hp i todo hc =>
    absurd hc (hp i todo)
  cases h with
  | listDue hp hl => exact ⟨_, rfl, hd (fun _ _ h => by cases h), fun x hx => .inr ⟨rfl, readFrom_of_listsDue hl hx⟩⟩
  | count now n hp hq =>
    obtain ⟨h1, h2⟩ := decided_afterCount _ now n _
    exact ⟨_, rfl, h1, fun x hx => .inl (by rw [hp]; exact h2 x hx)⟩
  | skip now hp hq =>
    exact ⟨_, rfl, hd (fun _ _ h => by cases h), fun x hx => .inl (by rw [hp]; exact List.mem_cons_of_mem _ hx)⟩
  | countFails hp =>
    exact ⟨_, rfl, hd (fun _ _ h => by cases h), fun x hx => .inl (by rw [hp]; exact List.mem_cons_of_mem _ hx)⟩
  | markEvaluated hp => exact ⟨_, rfl, hd (fun _ _ h => by cases h), fun x hx => .inl (by rw [hp]; exact hx)⟩
  | markEvaluatedFails hp => exact ⟨_, rfl, hd (fun _ _ h => by cases h), fun x hx => .inl (by rw [hp]; exact hx)⟩
  | transition hp ht =>
    exact ⟨_, rfl, hd (fun _ _ h => by cases h), fun x hx => .inl (by rw [hp]; exact List.mem_cons_of_mem _ hx)⟩
  | transitionFails hp =>
    exact ⟨_, rfl, hd (fun _ _ h => by cases h), fun x hx => .inl (by rw [hp]; exact List.mem_cons_of_mem _ hx)⟩
  | notify ok hp =>
    cases ok <;> exact ⟨_, rfl, hd (fun _ _ h => by cases h), fun x hx => absurd hx List.not_mem_nil⟩
  | _ => exact ⟨_, rfl, hd (fun _ _ h => by cases h), fun x hx => absurd hx List.not_mem_nil⟩

/-- The rules move on, their state with their number. -/
def Advances (db db' : AlertDb) : Prop :=
  ∃ g : AlertRule → AlertRule, db'.rules = db.rules.map g ∧ ∀ r ∈ db.rules, (g r).id = r.id ∧
    r.transitionSeq ≤ (g r).transitionSeq ∧
      (r.state = stateOf r.transitionSeq → (g r).state = stateOf (g r).transitionSeq)

theorem advances_mapRules (db : AlertDb) {f : AlertRule → AlertRule} (hf : ∀ r, (f r).id = r.id)
    (hs : ∀ r, (f r).state = r.state ∧ (f r).transitionSeq = r.transitionSeq) : Advances db (db.mapRules f hf) :=
  ⟨f, rfl, fun r _ => ⟨hf r, (hs r).2.ge, fun h => by rw [(hs r).1, (hs r).2, h]⟩⟩

theorem advances_transition {db' : AlertDb}
    (ht : db.transition i id clock = some db') (hne : i.target ≠ i.expectedFrom)
    (hd : i.target = .ok ∨ i.target = .firing) : Advances db db' := by
  obtain ⟨-, -, -, -, -, hrules, -⟩ := transition_cases ht
  refine ⟨_, hrules, fun r hr => ?_⟩
  by_cases e : r.id = i.rule.id ∧ r.state = i.expectedFrom
  · rw [AlertDb.swap, if_pos e]
    exact ⟨rfl, Nat.le_succ _, fun h => stateOf_succ hd (by rw [← h, e.2]; exact hne)⟩
  · rw [AlertDb.swap, if_neg e]
    exact ⟨rfl, le_refl _, fun h => h⟩

/-! ## Snapshots and rules in a run -/

structure Versioned (s : AlertRun) : Prop where
  rules : ∀ r ∈ s.db.rules, r.state = stateOf r.transitionSeq
  decided : ∀ k, Decided (s.replicas k)
  held : ∀ k, ∀ x ∈ (s.replicas k).held, x.state = stateOf x.transitionSeq ∧
    ∀ r ∈ s.db.rules, r.id = x.id → x.transitionSeq ≤ r.transitionSeq

theorem Versioned.advance (hs : s.Versioned) (ha : Advances s.db t.db) :
    (∀ r ∈ t.db.rules, r.state = stateOf r.transitionSeq) ∧
      ∀ k, ∀ x ∈ (s.replicas k).held, x.state = stateOf x.transitionSeq ∧
        ∀ r ∈ t.db.rules, r.id = x.id → x.transitionSeq ≤ r.transitionSeq := by
  obtain ⟨g, hg, hr⟩ := ha
  rw [hg]
  refine ⟨fun r' hr' => ?_, fun k x hx => ⟨(hs.held k x hx).1, fun r' hr' he => ?_⟩⟩
  · obtain ⟨r, hm, rfl⟩ := List.mem_map.mp hr'
    exact (hr r hm).2.2 (hs.rules r hm)
  · obtain ⟨r, hm, rfl⟩ := List.mem_map.mp hr'
    exact ((hs.held k x hx).2 r hm ((hr r hm).1.symm.trans he)).trans (hr r hm).2.1

theorem step_advances (hc : s.Consistent) (hs : s.Versioned) (h : Step cfg k s t) : Advances s.db t.db := by
  rcases step_db h with he | ⟨id, now, he⟩ | ⟨i, todo, id, clock, hp, he⟩ | ⟨n, todo, now, hp, he⟩
  · rw [he]
    exact ⟨fun r => r, (List.map_id' _).symm, fun r _ => ⟨rfl, le_refl _, fun h => h⟩⟩
  · rw [he]
    refine advances_mapRules _ _ fun r => ?_
    split <;> exact ⟨rfl, rfl⟩
  · exact advances_transition he (hc.moves k i todo hp) (hs.decided k i todo hp).2
  · rw [he]
    refine advances_mapRules (s.db.mapOutbox _ _) _ fun r => ?_
    split <;> exact ⟨rfl, rfl⟩

theorem Versioned.step (hc : s.Consistent) (hs : s.Versioned) (h : Step cfg k s t) : t.Versioned := by
  obtain ⟨hrules, hold⟩ := hs.advance (step_advances hc hs h)
  obtain ⟨p, hp, hd, hheld⟩ := step_held h
  refine ⟨hrules, fun j => ?_, fun j x hx => ?_⟩
  · rw [hp]
    by_cases e : j = k
    · rw [e, Function.update_self]
      exact hd
    · rw [Function.update_of_ne e]
      exact hs.decided j
  · rw [hp] at hx
    by_cases e : j = k
    · rw [e, Function.update_self] at hx
      rcases hheld x hx with hx | ⟨he, r, hr, h1, h2, h3⟩
      · exact hold k x hx
      · -- a snapshot that was just read
        refine ⟨by rw [h2, h3]; exact hs.rules r hr, fun r' hr' hid => ?_⟩
        rw [he] at hr'
        rw [AlertDb.eq_of_id hr' hr (hid.trans h1), h3]
    · rw [Function.update_of_ne e] at hx
      exact hold j x hx

theorem Versioned.edit (hs : s.Versioned) (h : Edits s t) : t.Versioned := by
  obtain ⟨f, hf, hc, rfl⟩ := h
  obtain ⟨h1, h2⟩ := hs.advance (t := { s with db := s.db.mapRules f hf }) (advances_mapRules s.db hf hc)
  exact ⟨h1, hs.decided, h2⟩

theorem Fresh.versioned (h : s.Fresh) : s.Versioned := by
  obtain ⟨hr, -, hp, -⟩ := h
  refine ⟨fun r hm => ?_, fun k i todo hc => ?_, fun k x hx => ?_⟩
  · rw [(hr r hm).1, (hr r hm).2]
    rfl
  · rw [hp] at hc
    cases hc
  · rw [hp] at hx
    cases hx

theorem versioned_reachable (hr : (system cfg).Reachable s) : s.Versioned := by
  apply hr.invariant (P := Versioned)
  · intro s hs
    exact hs.versioned
  · intro s t hs hv h
    rcases h with ⟨k, h⟩ | h
    · exact hv.step (consistent_reachable hs) h
    · exact hv.edit h

theorem seq_of_transition {db' : AlertDb}
    (ht : db.transition i id clock = some db') {r : AlertRule} (hm : r ∈ db.rules) (hid : r.id = i.rule.id)
    (hm' : r' ∈ db'.rules) (hid' : r'.id = i.rule.id) :
    r.state = i.expectedFrom ∧ r'.transitionSeq = r.transitionSeq + 1 := by
  obtain ⟨r₀, hr₀, hid₀, hst, -, hrules, -⟩ := transition_cases ht
  obtain rfl := AlertDb.eq_of_id hr₀ hm (hid₀.trans hid.symm)
  refine ⟨hst, ?_⟩
  rw [hrules] at hm'
  obtain ⟨r₁, hr₁, rfl⟩ := List.mem_map.mp hm'
  rw [AlertDb.swap_id] at hid'
  obtain rfl := AlertDb.eq_of_id hr₀ hr₁ (hid.trans hid'.symm)
  rw [AlertDb.swap, if_pos ⟨hid, hst⟩]

/-- **Swaps and versions.** A transition that takes effect writes the number after that of its snapshot
exactly if the rule has made fewer than two transitions since. -/
theorem swap_version_iff (hr : (system cfg).Reachable s) {todo : List Rule}
    (hp : s.replicas k = .changed i todo)
    (ht : s.db.transition i id clock = some db) {r : AlertRule} (hm : r ∈ s.db.rules) (hid : r.id = i.rule.id)
    (hm' : r' ∈ db.rules) (hid' : r'.id = i.rule.id) :
    r'.transitionSeq = i.rule.transitionSeq + 1 ↔ r.transitionSeq < i.rule.transitionSeq + 2 := by
  have hv := versioned_reachable hr
  have hheld : i.rule ∈ (s.replicas k).held := by
    rw [hp]
    exact List.mem_cons_self
  obtain ⟨hstate, hle⟩ := hv.held k _ hheld
  obtain ⟨hst, hseq⟩ := seq_of_transition ht hm hid hm' hid'
  -- the state is that of the snapshot, so the numbers differ by an even one
  have hpar : r.transitionSeq % 2 = i.rule.transitionSeq % 2 := by
    refine stateOf_eq ?_
    rw [← hv.rules r hm, hst, (hv.decided k i todo hp).1, hstate]
  have hge := hle r hm hid
  rw [hseq]
  omega

/-! ## One replica -/

/-- The snapshots are of different rules, none of which has moved since. -/
structure Current (db : AlertDb) (held : List Rule) : Prop where
  nodup : (held.map Rule.id).Nodup
  unmoved : ∀ x ∈ held, ∀ r ∈ db.rules, r.id = x.id → r.transitionSeq = x.transitionSeq

section Current

variable {db db' : AlertDb} {held : List Rule}

theorem current_nil : Current db [] := ⟨List.nodup_nil, fun _ hx => absurd hx List.not_mem_nil⟩

theorem Current.tail {r : Rule} (h : Current db (r :: held)) : Current db held :=
  ⟨(List.nodup_cons.mp h.nodup).2, fun x hx => h.unmoved x (List.mem_cons_of_mem r hx)⟩

theorem Current.map {g : AlertRule → AlertRule} (h : Current db held) (hr : db'.rules = db.rules.map g)
    (hg : ∀ r, (g r).id = r.id) (hs : ∀ r, (g r).id ∈ held.map Rule.id → (g r).transitionSeq = r.transitionSeq) :
    Current db' held := by
  refine ⟨h.nodup, fun x hx r' hr' hid => ?_⟩
  rw [hr] at hr'
  obtain ⟨r, hm, rfl⟩ := List.mem_map.mp hr'
  rw [hs r (List.mem_map.mpr ⟨x, hx, hid.symm⟩)]
  exact h.unmoved x hx r hm ((hg r).symm.trans hid)

theorem current_of_listsDue {saved : SavedQueries} {before : Time} {limit : Nat}
    (h : db.ListsDue saved before limit held) : Current db held := by
  obtain ⟨p, hp, -, hids, -⟩ := listsDue_spec h
  refine ⟨?_, fun x hx r hr hid => ?_⟩
  · rw [hids]
    have hn : (p.map AlertRule.id).Nodup :=
      (hp.map AlertRule.id).nodup_iff.mpr ((List.filter_sublist.map _).nodup db.nodup_rules)
    exact hn.sublist ((List.take_sublist _ _).map _)
  · obtain ⟨r', hr', h1, -, h3⟩ := readFrom_of_listsDue h hx
    rw [AlertDb.eq_of_id hr hr' (hid.trans h1), h3]

theorem Current.transition {i : TransitionInput} {id : Uuid} {clock : Time} (h : Current db (i.rule :: held))
    (ht : db.transition i id clock = some db') : Current db' held := by
  obtain ⟨-, -, -, -, -, hrules, -⟩ := transition_cases ht
  refine h.tail.map hrules (fun r => AlertDb.swap_id i r) fun r hr => ?_
  have hne : r.id ≠ i.rule.id := fun he => by
    rw [AlertDb.swap_id, he] at hr
    exact (List.nodup_cons.mp h.nodup).1 hr
  rw [AlertDb.swap, if_neg fun hc => hne hc.1]

end Current

theorem Current.step (h : Current s.db (s.replicas k).held) (hst : Step cfg k s t) :
    Current t.db (t.replicas k).held := by
  cases hst with
  | listDue hp hl =>
    rw [setPhase_self]
    exact current_of_listsDue hl
  | transition hp ht =>
    rw [hp] at h
    rw [setPhase_self]
    exact h.transition ht
  | count now n hp hq =>
    rw [hp] at h
    rw [setPhase_self]
    unfold afterCount
    dsimp only
    split
    · exact h.tail
    · exact h
  | skip now hp | countFails hp | transitionFails hp =>
    rw [hp] at h
    rw [setPhase_self]
    exact h.tail
  | markEvaluated hp =>
    rw [hp] at h
    rw [setPhase_self]
    exact h.map rfl (fun r => by split <;> rfl) fun r _ => by split <;> rfl
  | markEvaluatedFails hp =>
    rw [hp] at h
    rw [setPhase_self]
    exact h
  | notify ok hp =>
    rw [setPhase_self]
    cases ok <;> exact current_nil
  | _ =>
    rw [setPhase_self]
    exact current_nil

theorem current_reachable (hr : (single cfg).Reachable s) : Current s.db (s.replicas 0).held := by
  apply hr.invariant (P := fun s => Current s.db (s.replicas 0).held)
  · rintro s ⟨-, -, hp, -⟩
    rw [hp]
    exact current_nil
  · rintro s t - h (hst | ⟨f, hf, hs, rfl⟩)
    · exact h.step hst
    · exact h.map rfl hf fun r _ => (hs r).2

/-- With one evaluator every transition writes the number after that of its snapshot. -/
theorem single_swap_version (hr : (single cfg).Reachable s) {todo : List Rule}
    (hp : s.replicas 0 = .changed i todo)
    (ht : s.db.transition i id clock = some db) (hm' : r' ∈ db.rules) (hid' : r'.id = i.rule.id) :
    r'.transitionSeq = i.rule.transitionSeq + 1 := by
  obtain ⟨r, hm, hid, -⟩ := transition_cases ht
  have hc := current_reachable hr
  rw [hp] at hc
  rw [(seq_of_transition ht hm hid hm' hid').2, hc.unmoved i.rule List.mem_cons_self r hm hid]

/-! ## Two replicas -/

section Race

variable {saved : SavedQueries} {now now' : Time} {r : Rule} {n : Int} {target : AlertState}

theorem change_run {id : Uuid} {clock : Time} {db : AlertDb} (hk : s.replicas k = .idle)
    (hl : s.db.ListsDue saved (now - cfg.new.interval) cfg.new.batchSize.toNat [r]) (hq : r.query.isEmpty = false)
    (hd : decideState n r.comparator r.threshold = target) (hne : target ≠ r.state)
    (ht : s.db.transition ⟨r, r.state, target, n, now'⟩ id clock = some db) :
    Relation.ReflTransGen (Step cfg k) s ({ s with db }.setPhase k .idle) := by
  have h1 : Relation.ReflTransGen (Step cfg k) s ({ s with db }.setPhase k (.evaluating [])) :=
    swap_run hk hl hq hd hne ht
  have h2 : Step cfg k ({ s with db }.setPhase k (.evaluating []))
      (({ s with db }.setPhase k (.evaluating [])).setPhase k .idle) := .listPendingFails setPhase_self
  rw [setPhase_setPhase] at h2
  exact .tail h1 h2

end Race

def agedInput : TransitionInput := ⟨sampleScanned .ok 0, .ok, .firing, 5, 10⟩

def agedRun : AlertRun := (alone sampleStart .idle []).setPhase 0 (.changed agedInput [])

theorem agedRun_reachable : (system sampleConfig).Reachable agedRun := by
  have hd : decideState 5 .gt (.fin 0) = .firing := by decide
  refine (Runs.System.Reachable.init sampleStart_fresh).steps ?_
  exact Relation.ReflTransGen.mono (fun _ _ h => Or.inl ⟨0, h⟩) _ _
    (decide_run rfl sampleStart_due rfl hd (by decide))

/-- Nobody else has moved the rule: the swap writes the next number. -/
theorem fresh_snapshot_swapped :
    ∃ db, agedRun.db.transition agedInput (.rep 35) 20 = some db ∧ ∃ r' ∈ db.rules, r'.id = agedInput.rule.id ∧
      r'.transitionSeq = 1 := by
  obtain ⟨db, ht⟩ : ∃ db, agedRun.db.transition agedInput (.rep 35) 20 = some db := ⟨_, rfl⟩
  refine ⟨db, ht, ?_⟩
  cases ht
  refine ⟨_, List.mem_cons_self, rfl, ?_⟩
  have ht : agedRun.db.transition agedInput (.rep 35) 20 = some _ := rfl
  exact (swap_version_iff agedRun_reachable (k := 0) rfl ht (r := sampleRule) List.mem_cons_self rfl
    List.mem_cons_self rfl).mpr (by decide)

def movedRun : AlertRun :=
  { ({ agedRun with db := sampleFired }.setPhase 1 .idle) with db := sampleResolved }.setPhase 1 .idle

theorem movedRun_reachable : (system sampleConfig).Reachable movedRun := by
  have hf : decideState 3 .gt (.fin 0) = .firing := by decide
  have ho : decideState 0 .gt (.fin 0) = .ok := by decide
  have h1 : Relation.ReflTransGen (Step sampleConfig 1) agedRun ({ agedRun with db := sampleFired }.setPhase 1 .idle) :=
    change_run rfl sampleStart_due rfl hf (by decide) sampleStart_transition
  have h2 : Relation.ReflTransGen (Step sampleConfig 1)
      ({ agedRun with db := sampleFired }.setPhase 1 .idle) movedRun :=
    change_run setPhase_self sampleFired_due rfl ho (by decide) sampleFired_transition
  exact agedRun_reachable.steps (Relation.ReflTransGen.mono (fun _ _ h => Or.inl ⟨1, h⟩) _ _ (h1.trans h2))

/-- The swap of the first replica takes effect on its old count, two transitions late. -/
theorem aged_snapshot_swapped : (system sampleConfig).Reachable movedRun ∧
    movedRun.replicas 0 = .changed agedInput [] ∧ agedInput.rule.transitionSeq = 0 ∧
    ∃ db, movedRun.db.transition agedInput (.rep 35) 20 = some db ∧
      db.rules.map (fun r => (r.id, r.state, r.transitionSeq)) = [(agedInput.rule.id, .firing, 3)] :=
  ⟨movedRun_reachable, rfl, rfl, _, rfl, rfl⟩

end AlertRun

end Logalot
