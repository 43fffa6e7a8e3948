import Logalot.AlertConfig

/-!
# The query source of alert rules

A patch is checked without the rule it is applied to: one that sets the other
source is accepted, and one that removes the source of a rule is left to the check
of the table. A rule has one source as long as patches do neither.
-/

namespace Logalot.AlertConfig

open Js Pg

def OneSource (r : AlertRule) : Prop := r.savedQueryId ≠ none ↔ hasInlineQuery r.query = false

instance (r : AlertRule) : Decidable (OneSource r) := inferInstanceAs (Decidable (_ ↔ _))

/-- The patch keeps the source of the rule, or sets one source and takes the other away. -/
def Keeps (r : AlertRule) (p : AlertRulePatch) : Prop :=
  match p.savedQueryId, p.query with
  | none, none => True
  | some (some _), none => r.savedQueryId ≠ none
  | some none, none => r.savedQueryId = none
  | none, some _ => r.savedQueryId = none
  | some (some _), some query => hasInlineQuery query = false
  | some none, some _ => True

def QueryPasses (p : AlertRulePatch) : Prop :=
  (p.query.any (fun query => !hasInlineQuery query) && p.savedQueryId.join.isNone) = false

/-! ## One rule -/

theorem ne_empty_of_hasInlineQuery {query : RuleQuery} (h : hasInlineQuery query = true) : query ≠ .empty := by
  rintro rfl
  exact absurd h (by decide)

variable {r row : AlertRule} {α : Type} {f : Formats} {patch : AlertRulePatch} {cmd : CreateAlertRuleRequest}
variable {db db' : RuleTable} {id tenantId : Uuid} {ctx : Context}

theorem oneSource_apply {p : AlertRulePatch} (h : OneSource r) (hk : Keeps r p) (hq : QueryPasses p) :
    OneSource (p.apply r) := by
  unfold OneSource Keeps QueryPasses at *
  simp only [AlertRulePatch.apply]
  cases hs : p.savedQueryId with
  | none =>
    cases hp : p.query with
    | none => simpa only [Option.getD_none] using h
    | some query =>
      rw [hs, hp] at hk hq
      simp only [Option.any_some, Option.join_none, Option.isNone_none, Bool.and_true, Bool.not_eq_false'] at hq
      simp [hk, hq]
  | some saved =>
    cases hp : p.query with
    | none =>
      rw [hs, hp] at hk
      simp only [Option.getD_some, Option.getD_none]
      cases saved with
      | none =>
        rw [hk] at h
        exact h
      | some id => exact ⟨fun _ => h.mp hk, fun _ => Option.some_ne_none id⟩
    | some query =>
      rw [hs, hp] at hk hq
      simp only [Option.getD_some]
      cases saved with
      | none =>
        simp only [Option.any_some, Option.join_some, Option.isNone_none, Bool.and_true, Bool.not_eq_false'] at hq
        simp [hq]
      | some id => exact ⟨fun _ => hk, fun _ => Option.some_ne_none id⟩

theorem checks_of_oneSource (h : OneSource r)
    (hw : 30 ≤ r.windowSeconds ∧ r.windowSeconds ≤ 86400) : r.checks = true := by
  have hs : (r.savedQueryId.isSome || r.query != .empty) = true := by
    cases hid : r.savedQueryId with
    | some id => rfl
    | none =>
      have hq : hasInlineQuery r.query = true := by
        rw [← Bool.not_eq_false]
        exact fun hf => h.mpr hf hid
      simpa using ne_empty_of_hasInlineQuery hq
  simp [AlertRule.checks, hs, hw.1, hw.2]

theorem window_of_checks (h : r.checks = true) : 30 ≤ r.windowSeconds ∧ r.windowSeconds ≤ 86400 := by
  simp only [AlertRule.checks, Bool.and_eq_true, decide_eq_true_eq] at h
  exact h.2

/-! ## Schemas -/

theorem checked_eq_ok {issues refinements : List Issue} {v w : α}
    (h : checked issues refinements v = .ok w) : issues = [] ∧ refinements = [] ∧ v = w := by
  unfold checked at h
  split at h
  · cases h
  · rename_i hi
    obtain ⟨h1, h2⟩ := List.append_eq_nil_iff.mp (not_not.mp hi)
    exact ⟨h1, h2, Except.ok.inj h⟩

theorem issueIf_eq_nil {c : Bool} {path : List String} {problem : Problem} :
    issueIf c path problem = [] ↔ c = false := by
  cases c <;> simp [issueIf]

theorem window_of_schema {body : AlertRulePatch}
    (h : updateAlertRuleRequestSchema f body = .ok patch) {w : Int} (hw : patch.windowSeconds = some w) :
    30 ≤ w ∧ w ≤ 86400 := by
  obtain ⟨hi, -, rfl⟩ := checked_eq_ok h
  simp only [AlertRulePatch.issues, List.append_eq_nil_iff, hw, Option.elim_some, windowIssues, issueIf_eq_nil,
    decide_eq_false_iff_not, not_lt] at hi
  exact hi.1.2

theorem source_of_schema {body : CreateInput}
    (h : createAlertRuleRequestSchema f body = .ok cmd) : cmd.savedQueryId.isSome ≠ hasInlineQuery cmd.query := by
  obtain ⟨-, hs, rfl⟩ := checked_eq_ok h
  simpa using issueIf_eq_nil.mp hs

/-! ## The table -/

theorem create_eq_ok {input : CreateAlertRuleRequest}
    (h : db.create tenantId input id = .ok (db', row)) :
    db' = db ++ [row] ∧ row.savedQueryId = input.savedQueryId ∧ row.query = input.query ∧ row.checks = true := by
  unfold RuleTable.create at h
  split at h
  · cases h
  · split at h
    · cases h
    · rename_i hc
      split at h
      · cases h
      · cases h
        exact ⟨rfl, rfl, rfl, by simpa using hc⟩

theorem update_eq_ok
    (h : db.update tenantId id patch = .ok (db', some row)) :
    db' = db ∨ ∃ r, db.findById tenantId id = some r ∧ row = patch.apply r ∧ row.checks = true ∧
      ∀ r' ∈ db', r' ∈ db ∨ r' = row := by
  unfold RuleTable.update at h
  split at h
  · exact Or.inl (Prod.mk.inj (Except.ok.inj h)).1.symm
  · split at h
    · cases h
    · split at h
      · cases h
      · rename_i r hr
        split at h
        · cases h
        · rename_i hc
          split at h
          · cases h
          · cases h
            refine Or.inr ⟨r, hr, rfl, by simpa using hc, fun r' hr' => ?_⟩
            obtain ⟨a, ha, rfl⟩ := List.mem_map.mp hr'
            split
            · exact Or.inr rfl
            · exact Or.inl ha

theorem update_eq_error {code : SqlState}
    (h : db.update tenantId id patch = .error code) :
    patch.storable = false ∨ code = .uniqueViolation ∨
      ∃ r, db.findById tenantId id = some r ∧ (patch.apply r).checks = false := by
  unfold RuleTable.update at h
  split at h
  · cases h
  · split at h
    · rename_i hs
      exact Or.inl (by simpa using hs)
    · split at h
      · cases h
      · rename_i r hr
        split at h
        · rename_i hc
          exact Or.inr (Or.inr ⟨r, hr, by simpa using hc⟩)
        · split at h
          · cases h
            exact Or.inr (Or.inl rfl)
          · cases h

/-! ## The service -/

theorem bind_eq_ok {ε β : Type} {x : Except ε α} {f : α → Except ε β} {b : β} (h : (x >>= f) = .ok b) :
    ∃ a, x = .ok a ∧ f a = .ok b := by
  cases x with
  | error e => cases h
  | ok a => exact ⟨a, rfl, h⟩

theorem bind_eq_error {ε β : Type} {x : Except ε α} {f : α → Except ε β} {e : ε} (h : (x >>= f) = .error e) :
    x = .error e ∨ ∃ a, x = .ok a ∧ f a = .error e := by
  cases x with
  | error e' =>
    cases h
    exact Or.inl rfl
  | ok a => exact Or.inr ⟨a, rfl, h⟩

theorem orConflict_eq_ok {message : JsString} {x : Except SqlState α} {a : α}
    (h : orConflict message x = .ok a) : x = .ok a := by
  unfold orConflict at h
  split at h
  · exact congrArg Except.ok (Except.ok.inj h)
  · cases h
  · cases h

theorem service_create_eq_ok (h : Service.create db ctx cmd id = .ok (db', row)) :
    db.create ctx.tenantId cmd id = .ok (db', row) := by
  obtain ⟨-, -, h⟩ := bind_eq_ok h
  obtain ⟨-, -, h⟩ := bind_eq_ok h
  obtain ⟨-, -, h⟩ := bind_eq_ok h
  exact orConflict_eq_ok h

theorem service_update_eq_ok
    (h : Service.update db ctx id patch = .ok (db', row)) :
    QueryPasses patch ∧ db.update ctx.tenantId id patch = .ok (db', some row) := by
  obtain ⟨-, -, h⟩ := bind_eq_ok h
  obtain ⟨-, -, h⟩ := bind_eq_ok h
  obtain ⟨u, hq, h⟩ := bind_eq_ok h
  obtain ⟨⟨db₁, row₁⟩, hu, h⟩ := bind_eq_ok h
  constructor
  · unfold assertNotEmptied at hq
    split at hq
    · cases hq
    · rename_i hn
      exact (Bool.not_eq_true _).mp hn
  · rw [orConflict_eq_ok hu]
    cases row₁ with
    | none => cases h
    | some row₁ =>
      cases h
      rfl

def Failure.Expected : Failure → Prop
  | .validation _ _ => True
  | .conflict _ => True
  | .notFound _ => True
  | .forbidden => False
  | .database _ => False

theorem assertChannels_expected {channels : List NotifyChannel} {e : Failure}
    (h : assertChannels channels = .error e) : e.Expected := by
  unfold assertChannels at h
  split at h
  · cases h
  · cases h
    trivial
  · cases h
    trivial

theorem service_update_eq_error {e : Failure}
    (hcan : can ctx.role .update = true) (h : Service.update db ctx id patch = .error e) :
    e.Expected ∨ QueryPasses patch ∧ ∃ code, db.update ctx.tenantId id patch = .error code ∧
      code ≠ .uniqueViolation := by
  rcases bind_eq_error h with h | ⟨-, -, h⟩
  · rw [assertCan, if_pos hcan] at h
    cases h
  rcases bind_eq_error h with h | ⟨-, -, h⟩
  · cases hc : patch.notifyChannels with
    | none =>
      rw [hc] at h
      cases h
    | some channels =>
      rw [hc] at h
      exact Or.inl (assertChannels_expected h)
  by_cases hq : QueryPasses patch
  · rcases bind_eq_error h with h | ⟨-, -, h⟩
    · rw [assertNotEmptied, if_neg (by rw [hq]; exact Bool.false_ne_true)] at h
      cases h
    · rcases bind_eq_error h with h | ⟨⟨db', row⟩, -, h⟩
      · unfold orConflict at h
        split at h
        · cases h
        · cases h
          exact Or.inl trivial
        · rename_i code hne he
          exact Or.inr ⟨hq, code, he, hne⟩
      · cases row with
        | some row => cases h
        | none =>
          cases h
          exact Or.inl trivial
  · rcases bind_eq_error h with h | ⟨u, h, -⟩
    · rw [assertNotEmptied, if_pos ((Bool.not_eq_false _).mp hq)] at h
      cases h
      exact Or.inl trivial
    · rw [assertNotEmptied, if_pos ((Bool.not_eq_false _).mp hq)] at h
      cases h

/-! ## Runs -/

def KeepsSources (f : Formats) (db : RuleTable) (ctx : Context) : Request → Prop
  | .update id body => ∀ patch r, updateAlertRuleRequestSchema f body = .ok patch →
      db.findById ctx.tenantId id = some r → Keeps r patch
  | _ => True

/-- Requests of any tenants, one after another; one that fails leaves the table as it is. -/
def system (f : Formats) (ok : RuleTable → Context → Request → Prop) : Runs.System RuleTable :=
  { init := fun db => db = []
    step := fun db db' => ∃ ctx request, handle f db ctx request = .ok db' ∧ ok db ctx request }

def Sound (db : RuleTable) : Prop := ∀ r ∈ db, OneSource r ∧ r.checks = true

theorem parse_eq_ok {x : Except (List Issue) α} {a : α} (h : parse x = .ok a) : x = .ok a := by
  unfold parse at h
  split at h
  · exact congrArg Except.ok (Except.ok.inj h)
  · cases h

theorem sound_create {body : CreateInput} {newId : Uuid}
    (h : Sound db) (hh : handle f db ctx (.create body newId) = .ok db') : Sound db' := by
  obtain ⟨cmd, hcmd, hh⟩ := bind_eq_ok hh
  obtain ⟨⟨db₁, row⟩, hrow, hh⟩ := bind_eq_ok hh
  cases hh
  obtain ⟨rfl, hid, hq, hc⟩ := create_eq_ok (service_create_eq_ok hrow)
  intro r hr
  rcases List.mem_append.mp hr with hr | hr
  · exact h r hr
  · obtain rfl := List.mem_singleton.mp hr
    refine ⟨?_, hc⟩
    have hs := source_of_schema (parse_eq_ok hcmd)
    rw [OneSource, hid, hq]
    cases hsaved : cmd.savedQueryId with
    | none => simpa [hsaved] using hs
    | some saved => simpa [hsaved] using hs

theorem sound_update {body : AlertRulePatch}
    (h : Sound db) (hk : KeepsSources f db ctx (.update id body))
    (hh : handle f db ctx (.update id body) = .ok db') : Sound db' := by
  obtain ⟨patch, hpatch, hh⟩ := bind_eq_ok hh
  obtain ⟨⟨db₁, row⟩, hrow, hh⟩ := bind_eq_ok hh
  cases hh
  obtain ⟨hq, hu⟩ := service_update_eq_ok hrow
  rcases update_eq_ok hu with rfl | ⟨r, hr, rfl, hc, hmem⟩
  · exact h
  · intro r' hr'
    rcases hmem r' hr' with hr' | rfl
    · exact h r' hr'
    · have hs := h r (List.mem_of_find?_eq_some hr)
      exact ⟨oneSource_apply hs.1 (hk patch r (parse_eq_ok hpatch) hr) hq, hc⟩

theorem sound_remove (h : Sound db)
    (hh : handle f db ctx (.remove id) = .ok db') : Sound db' := by
  obtain ⟨-, -, hh⟩ := bind_eq_ok hh
  split at hh
  · cases hh
    intro r hr
    exact h r (List.mem_of_mem_filter hr)
  · cases hh

theorem sound_reachable (hr : (system f (KeepsSources f)).Reachable db) : Sound db := by
  apply hr.invariant
  · rintro _ rfl r hr
    cases hr
  · rintro db db' - h ⟨ctx, request, hh, hk⟩
    cases request with
    | create body newId => exact sound_create h hh
    | update id body => exact sound_update h hk hh
    | remove id => exact sound_remove h hh

/-! ## Main result -/

/-- **One query source.** -/
theorem rules_have_one_source (hr : (system f (KeepsSources f)).Reachable db) :
    (∀ r ∈ db, OneSource r) ∧
    ∀ ctx id body patch e, updateAlertRuleRequestSchema f body = .ok patch → can ctx.role .update = true →
      patch.storable = true → KeepsSources f db ctx (.update id body) →
      handle f db ctx (.update id body) = .error e → e.Expected := by
  have h := sound_reachable hr
  refine ⟨fun r hr => (h r hr).1, ?_⟩
  intro ctx id body patch e hpatch hcan hstore hk hh
  rcases bind_eq_error hh with hh | ⟨patch', hp, hh⟩
  · rw [hpatch] at hh
    cases hh
  obtain rfl := Except.ok.inj (hpatch.symm.trans (parse_eq_ok hp))
  rcases bind_eq_error hh with hh | ⟨r, -, hh⟩
  · rcases service_update_eq_error hcan hh with he | ⟨hq, code, hu, hne⟩
    · exact he
    -- the statement that the database would refuse is one it accepts
    rcases update_eq_error hu with hs | hc | ⟨r, hfind, hc⟩
    · rw [hstore] at hs
      cases hs
    · exact absurd hc hne
    · have hs := h r (List.mem_of_find?_eq_some hfind)
      have hw : 30 ≤ (patch.apply r).windowSeconds ∧ (patch.apply r).windowSeconds ≤ 86400 := by
        cases hwin : patch.windowSeconds with
        | none => simpa [AlertRulePatch.apply, hwin] using window_of_checks hs.2
        | some w => simpa [AlertRulePatch.apply, hwin] using window_of_schema hpatch hwin
      rw [checks_of_oneSource (oneSource_apply hs.1 (hk patch r hpatch hfind) hq) hw] at hc
      cases hc
  · cases hh

/-! ## Patches on a rule -/

def sampleFormats : Formats := ⟨fun _ => true, fun _ => true⟩

def sampleContext : Context := ⟨.rep 1, .tenantAdmin⟩

def sampleSaved : JsString := js "11111111-1111-1111-1111-111111111111"

def sampleInline : CreateInput :=
  ⟨js "errors", none, some { RuleQuery.empty with level := some .error }, none, 5, none, none, none, none⟩

def sampleByReference : CreateInput := { sampleInline with savedQueryId := some sampleSaved, query := none }

def sampleRules (body : CreateInput) : RuleTable := [body.withDefaults.row (.rep 1) (.rep 9)]

theorem handle_sample :
    handle sampleFormats [] sampleContext (.create sampleInline (.rep 9)) = .ok (sampleRules sampleInline) ∧
    handle sampleFormats [] sampleContext (.create sampleByReference (.rep 9)) =
      .ok (sampleRules sampleByReference) := by
  constructor
  · rfl
  · rfl

def setsSaved : AlertRulePatch := { AlertRulePatch.none with savedQueryId := some (some sampleSaved) }

def dropsSaved : AlertRulePatch := { AlertRulePatch.none with savedQueryId := some none }

theorem patches_break_sources :
    (∃ db db', (system sampleFormats fun _ _ _ => True).Reachable db ∧
      handle sampleFormats db sampleContext (.update (.rep 9) setsSaved) = .ok db' ∧ ∃ r ∈ db', ¬ OneSource r) ∧
    ∃ db, (system sampleFormats fun _ _ _ => True).Reachable db ∧
      updateAlertRuleRequestSchema sampleFormats dropsSaved = .ok dropsSaved ∧
      handle sampleFormats db sampleContext (.update (.rep 9) dropsSaved) = .error (.database .checkViolation) := by
  have h0 : (system sampleFormats fun _ _ _ => True).Reachable [] := .init rfl
  have h1 := h0.step ⟨_, _, handle_sample.1, trivial⟩
  have h2 := h0.step ⟨_, _, handle_sample.2, trivial⟩
  refine ⟨⟨_, (sampleRules sampleInline).map setsSaved.apply, h1, rfl, ?_⟩, _, h2, rfl, rfl⟩
  decide

/-- A saved query is set and the query of the rule emptied. -/
def switchesSource : AlertRulePatch := { setsSaved with query := some .empty }

def sampleSecond : CreateInput := { sampleInline with name := js "late" }

def takesName : AlertRulePatch := { AlertRulePatch.none with name := some (js "errors") }

def sampleSwitched : RuleTable := (sampleRules sampleInline).map switchesSource.apply

theorem handle_switched :
    handle sampleFormats (sampleRules sampleInline) sampleContext (.update (.rep 9) switchesSource) =
      .ok sampleSwitched ∧
    handle sampleFormats sampleSwitched sampleContext (.create sampleSecond (.rep 8)) =
      .ok (sampleSwitched ++ [sampleSecond.withDefaults.row (.rep 1) (.rep 8)]) := by
  constructor
  · rfl
  · rfl

theorem sample_rules_switch_source :
    ∃ db, (system sampleFormats (KeepsSources sampleFormats)).Reachable db ∧
      db.map (fun r => (r.savedQueryId.isSome, hasInlineQuery r.query)) = [(true, false), (false, true)] ∧
      (∀ r ∈ db, OneSource r) ∧
      ∃ e, handle sampleFormats db sampleContext (.update (.rep 8) takesName) = .error e ∧ e.Expected := by
  have h0 : (system sampleFormats (KeepsSources sampleFormats)).Reachable [] := .init rfl
  have h1 := h0.step ⟨_, _, handle_sample.1, trivial⟩
  have h2 := h1.step ⟨_, _, handle_switched.1, fun patch r hp hr => by
    obtain ⟨-, -, rfl⟩ := checked_eq_ok hp
    exact (rfl : hasInlineQuery (trimQuery .empty) = false)⟩
  have h3 := h2.step ⟨_, _, handle_switched.2, trivial⟩
  have h := rules_have_one_source h3
  refine ⟨_, h3, rfl, h.1, _, rfl, h.2 sampleContext (.rep 8) takesName takesName _ rfl rfl (by decide) ?_ rfl⟩
  intro patch r hp hr
  obtain ⟨-, -, rfl⟩ := checked_eq_ok hp
  trivial

end Logalot.AlertConfig
