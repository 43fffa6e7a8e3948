import Logalot.Admin
import Logalot.Lib.Unwinding

/-!
# Administration: tenants apart from each other

No generated id is generated for two tenants. Then what tenants are told, and what
is stored of them, is what it is in the run in which no other tenant has acted.
-/

namespace Logalot.Admin

open Go Pg Unwinding

variable {home : Id → Uuid} {P : Uuid → Bool} {rows : List Row} {deps : Deps} {t : Uuid}

def Row.Homed (home : Id → Uuid) (r : Row) : Prop := ∀ i, r.id? = some i → home i = r.tenantId

def part (P : Uuid → Bool) (rows : List Row) : List Row := rows.filter fun r => P r.tenantId

def Row.operator? : Row → Option Uuid
  | user u => if u.isPlatformOperator then some u.id else none
  | _ => none

def operators (rows : List Row) : List Uuid := rows.filterMap Row.operator?

/-! ## Edits of one tenant -/

def Edit.Ok (home : Id → Uuid) (t : Uuid) : Edit → Prop
  | .insert rs => ∀ r ∈ rs, r.tenantId = t ∧ r.operator? = none ∧ r.Homed home
  | .update f => ∀ r, (f r).tenantId = r.tenantId ∧ (f r).id? = r.id? ∧ (f r).operator? = r.operator?
  | _ => True

theorem Edit.part_apply {e : Edit} (he : e.Ok home t) (rows : List Row) :
    part P (e.apply t rows) = if P t then e.apply t (part P rows) else part P rows := by
  have hne : ∀ r ∈ part P rows, ¬ P t = true → r.tenantId ≠ t := fun r hr hP hr' => hP (hr' ▸ (List.mem_filter.mp hr).2)
  cases e with
  | keep => exact (ite_self _).symm
  | insert rs =>
    have hrs : part P rs = if P t then rs else [] := by
      by_cases hP : P t = true
      · rw [if_pos hP]
        exact List.filter_eq_self.mpr fun r hr => (he r hr).1 ▸ hP
      · rw [if_neg hP]
        exact List.filter_eq_nil_iff.mpr fun r hr => (he r hr).1 ▸ hP
    simp only [Edit.apply, part, List.filter_append] at hrs ⊢
    rw [hrs]
    split <;> rfl
  | update f =>
    have htenant : (fun r : Row => P r.tenantId) ∘ (fun r => if r.tenantId = t then f r else r) =
        fun r => P r.tenantId := by
      funext r
      rw [Function.comp_apply]
      split
      · rw [(he r).1]
      · rfl
    rw [Edit.apply, part, List.filter_map, htenant]
    by_cases hP : P t = true
    · rw [if_pos hP]
      rfl
    · rw [if_neg hP]
      exact (List.map_congr_left fun r hr => if_neg (hne r hr hP)).trans (List.map_id _)
  | delete gone =>
    rw [Edit.apply, part, List.filter_filter, List.filter_congr (fun r _ => Bool.and_comm _ _), ← List.filter_filter]
    by_cases hP : P t = true
    · rw [if_pos hP]
      rfl
    · rw [if_neg hP]
      exact List.filter_eq_self.mpr fun r hr => by simp [hne r hr hP]

theorem Edit.homed_apply (h : ∀ r ∈ rows, r.Homed home) {e : Edit} (he : e.Ok home t) :
    ∀ r ∈ e.apply t rows, r.Homed home := by
  cases e with
  | keep => exact h
  | insert rs => exact List.forall_mem_append.mpr ⟨fun r hr => (he r hr).2.2, h⟩
  | delete gone => exact fun r hr => h r (List.mem_of_mem_filter hr)
  | update f =>
    intro r hr
    obtain ⟨r₀, hr₀, rfl⟩ := List.mem_map.mp hr
    split
    · obtain ⟨ht, hid, -⟩ := he r₀
      exact fun i hi => ht ▸ h r₀ hr₀ i (hid ▸ hi)
    · exact h r₀ hr₀

theorem Edit.operators_apply {e : Edit} (he : e.Ok home t) (rows : List Row) :
    operators (e.apply t rows) ⊆ operators rows := by
  cases e with
  | keep => exact List.Subset.refl _
  | insert rs =>
    have hrs : operators rs = [] := List.filterMap_eq_nil_iff.mpr fun r hr => (he r hr).2.1
    have happ : operators (rs ++ rows) = operators rows :=
      List.filterMap_append.trans (congrArg (· ++ operators rows) hrs)
    exact happ ▸ List.Subset.refl _
  | update f =>
    have hf : Row.operator? ∘ (fun r => if r.tenantId = t then f r else r) = Row.operator? := by
      funext r
      rw [Function.comp_apply]
      split
      · exact (he r).2.2
      · rfl
    rw [Edit.apply, operators, List.filterMap_map, hf]
    exact List.Subset.refl _
  | delete gone => exact (List.filter_sublist.filterMap _).subset

theorem ok_create {cmd : CreateUserCommand} (h : home (.user cmd.newId) = t) (c : Scope) :
    (UserService.create deps t cmd c).2.Ok home t := by
  simp only [UserService.create]
  split
  · trivial
  split
  · trivial
  · refine List.forall_mem_cons.mpr ⟨⟨rfl, rfl, ?_⟩, List.forall_mem_singleton.mpr ⟨rfl, rfl, ?_⟩⟩
    · rintro i ⟨⟩
      exact h
    · rintro i ⟨⟩

theorem ok_perform {ctx : Context} {r : Scoped} (hnew : ∀ i, r.newId = some i → home i = ctx.tenantId) (c : Scope) :
    (r.perform deps ctx c).2.Ok home ctx.tenantId := by
  cases r with
  | userCreate cmd => exact ok_create (hnew _ rfl) c
  | userUpdate id cmd =>
    simp only [Scoped.perform, UserService.update]
    split
    · intro r
      cases r <;> simp only [UserService.patch] <;> (try split) <;> simp [Row.tenantId, Row.id?, Row.operator?]
    · trivial
  | userRemove id =>
    simp only [Scoped.perform, UserService.remove]
    split <;> trivial
  | keyIssue cmd =>
    simp only [Scoped.perform, ApiKeyService.issue]
    split
    · trivial
    split
    · trivial
    · refine List.forall_mem_singleton.mpr ⟨rfl, rfl, ?_⟩
      rintro i ⟨⟩
      exact hnew _ rfl
  | keyRevoke keyId now =>
    simp only [Scoped.perform, ApiKeyService.revoke]
    split
    · trivial
    split
    · intro r
      cases r <;> simp only [ApiKeyService.revokeRow] <;> (try split) <;> simp [Row.tenantId, Row.id?, Row.operator?]
    · trivial
  | retentionUpsert hotDays coldDays =>
    simp only [Scoped.perform, RetentionService.upsert]
    split
    · trivial
    · split
      · exact List.forall_mem_singleton.mpr ⟨rfl, rfl, by rintro i ⟨⟩⟩
      · intro r
        cases r <;> exact ⟨rfl, rfl, rfl⟩
  | _ => trivial

/-! ## States that are alike to some of the tenants -/

structure Alike (home : Id → Uuid) (P : Uuid → Bool) (s s' : Tables) : Prop where
  tenants : s.tenants = s'.tenants
  rows : part P s.rows = part P s'.rows
  homed : ∀ r ∈ s.rows, r.Homed home
  homed' : ∀ r ∈ s'.rows, r.Homed home

variable {s s' : Tables} {i principal : Option Id} {work : Scope → Answer × Edit}

theorem holds_part (h : ∀ r ∈ s.rows, r.Homed home) (hi : ∀ j, i = some j → P (home j) = true) :
    s.holds i = (part P s.rows).any fun r => r.id?.isSome && r.id? = i := by
  unfold Tables.holds part
  rw [Bool.eq_iff_iff, List.any_eq_true, List.any_eq_true]
  constructor
  · rintro ⟨r, hr, hq⟩
    refine ⟨r, List.mem_filter.mpr ⟨hr, ?_⟩, hq⟩
    simp only [Bool.and_eq_true, decide_eq_true_eq] at hq
    obtain ⟨j, hj⟩ := Option.isSome_iff_exists.mp hq.1
    rw [← h r hr j hj]
    exact hi j (hq.2.symm.trans hj)
  · rintro ⟨r, hr, hq⟩
    exact ⟨r, List.mem_of_mem_filter hr, hq⟩

theorem Alike.scope (h : Alike home P s s') (ht : P t = true) (hnew : ∀ j, i = some j → home j = t)
    (hp : ∀ j, principal = some j → home j = t) : s.scope t i principal = s'.scope t i principal := by
  have hown : ∀ l : List Row, l.filter (fun r => r.tenantId = t) = (part P l).filter fun r => r.tenantId = t := by
    intro l
    rw [part, List.filter_filter]
    refine List.filter_congr fun r _ => ?_
    by_cases hr : r.tenantId = t
    · simp [hr, ht]
    · simp [hr]
  have hholds : ∀ {i : Option Id}, (∀ j, i = some j → home j = t) → s.holds i = s'.holds i := by
    intro i hi
    have hP : ∀ j, i = some j → P (home j) = true := fun j hj => hi j hj ▸ ht
    rw [holds_part h.homed hP, holds_part h.homed' hP, h.rows]
  unfold Tables.scope
  rw [h.tenants, hown, hown s'.rows, h.rows, hholds hnew, hholds hp]

theorem Alike.outside (h : Alike home P s s') (hwork : ∀ c, (work c).2.Ok home t) (ht : P t = false) :
    Alike home P (s.withTenantTx t i principal work).2 s' where
  tenants := h.tenants
  rows := (Edit.part_apply (hwork _) _).trans (by rw [ht, if_neg Bool.false_ne_true, h.rows])
  homed := Edit.homed_apply h.homed (hwork _)
  homed' := h.homed'

theorem Alike.symm (h : Alike home P s s') : Alike home P s' s := ⟨h.tenants.symm, h.rows.symm, h.homed', h.homed⟩

/-- A transaction on both states, which differ in what it has to go by only if it is armed for none of the tenants. -/
theorem Alike.withTenantTx (h : Alike home P s s') (hwork : ∀ c, (work c).2.Ok home t)
    (hnew : ∀ j, i = some j → home j = t) (hp : ∀ j, principal = some j → home j = t) :
    Alike home P (s.withTenantTx t i principal work).2 (s'.withTenantTx t i principal work).2 ∧
      (P t = true → (s.withTenantTx t i principal work).1 = (s'.withTenantTx t i principal work).1) := by
  cases ht : P t with
  | false => exact ⟨((h.outside hwork ht).symm.outside hwork ht).symm, fun h => by cases h⟩
  | true =>
    have hscope := h.scope ht hnew hp
    refine ⟨⟨h.tenants, ?_, Edit.homed_apply h.homed (hwork _), Edit.homed_apply h.homed' (hwork _)⟩, fun _ => ?_⟩
    · unfold Tables.withTenantTx
      rw [Edit.part_apply (hwork _), Edit.part_apply (hwork _), hscope, h.rows]
    · unfold Tables.withTenantTx
      rw [hscope]

theorem Alike.registry (h : Alike home P s s') (ctx : Context) (r : Request) :
    Alike home P (registry ctx s r).2 (registry ctx s' r).2 ∧ (registry ctx s r).1 = (registry ctx s' r).1 := by
  cases r with
  | tenantRemove id =>
    simp only [Admin.registry, h.tenants]
    split
    · have hdelete : ∀ l, part P (l.filter fun r => r.tenantId ≠ id) = (part P l).filter fun r => r.tenantId ≠ id := by
        intro l
        rw [part, List.filter_filter, List.filter_congr (fun r _ => Bool.and_comm _ _), ← List.filter_filter, part]
      refine ⟨⟨rfl, ?_, fun r hr => h.homed r (List.mem_of_mem_filter hr),
        fun r hr => h.homed' r (List.mem_of_mem_filter hr)⟩, rfl⟩
      rw [hdelete, hdelete, h.rows]
    · exact ⟨h, rfl⟩
  | tenantCreate newId publicId name =>
    simp only [Admin.registry, h.tenants]
    split
    · exact ⟨h, rfl⟩
    · exact ⟨⟨rfl, h.rows, h.homed, h.homed'⟩, rfl⟩
  | tenantGet id =>
    simp only [Admin.registry, h.tenants]
    split <;> exact ⟨h, rfl⟩
  | tenantUpdate id name status =>
    simp only [Admin.registry, h.tenants]
    exact ⟨⟨rfl, h.rows, h.homed, h.homed'⟩, trivial⟩
  | tenantList => exact ⟨h, congrArg Answer.tenants h.tenants⟩
  | _ => exact ⟨h, rfl⟩

/-! ## Requests -/

def Event.newId (e : Event) : Option (Id × Uuid) :=
  match e.request with
  | .inTenant r => r.newId.map fun i => (i, e.ctx.tenantId)
  | .provisionAdmin tenantId cmd => some (.user cmd.newId, tenantId)
  | _ => none

structure Event.Own (home : Id → Uuid) (e : Event) : Prop where
  principal : home (.user e.ctx.principalId) = e.ctx.tenantId
  newId : ∀ i t, e.newId = some (i, t) → home i = t

def Event.relevant (P : Uuid → Bool) (e : Event) : Bool := e.ctx.role = .platformOperator || P e.ctx.tenantId

def Event.writing (P : Uuid → Bool) (e : Event) : Bool :=
  e.ctx.role = .platformOperator || (e.ctx.role = .tenantAdmin && P e.ctx.tenantId)

/-- Not seen is the answer to an operator that provisions an admin of another tenant: it tells whether the email is in
use there. -/
def Event.seen (P : Uuid → Bool) (e : Event) : Bool :=
  match e.request with
  | .provisionAdmin tenantId _ => e.relevant P && P tenantId
  | _ => e.relevant P

theorem Event.relevant_of_seen {e : Event} (h : e.seen P = true) : e.relevant P = true := by
  unfold Event.seen at h
  split at h
  · exact (Bool.and_eq_true _ _ ▸ h).1
  · exact h

theorem Event.Own.scoped {ctx : Context} {r : Scoped} (he : Event.Own home ⟨ctx, .inTenant r⟩) {i : Id}
    (hi : r.newId = some i) : home i = ctx.tenantId :=
  he.newId i _ (by simp [Event.newId, hi])

theorem operator_not_can (r : Scoped) : can .platformOperator r.operation = false := by
  cases r <;> rfl

theorem keep_of_member {r : Scoped} (h : can .member r.operation = true) (ctx : Context) (c : Scope) :
    (r.perform deps ctx c).2 = .keep := by
  cases r <;> first | rfl | cases h

theorem Alike.kept {e : Event} (h : Alike home P s s') (he : e.Own home) (hr : e.relevant P = true) :
    Alike home P (step deps s e).2 (step deps s' e).2 ∧ (e.seen P = true → (step deps s e).1 = (step deps s' e).1) := by
  unfold Admin.step
  split
  · rename_i hcan
    obtain ⟨ctx, r⟩ := e
    cases r with
    | inTenant r =>
      have hp : ∀ j, some (Id.user ctx.principalId) = some j → home j = ctx.tenantId := by
        rintro _ ⟨⟩
        exact he.principal
      obtain ⟨hs, ha⟩ := h.withTenantTx (ok_perform fun _ => he.scoped) (fun _ => he.scoped) hp
      refine ⟨hs, fun _ => ha ?_⟩
      -- an operator may make no such request
      rcases Bool.or_eq_true _ _ ▸ hr with hop | hP
      · have hcan : can ctx.role r.operation = true := hcan
        rw [of_decide_eq_true hop, operator_not_can] at hcan
        cases hcan
      · exact hP
    | provisionAdmin tenantId cmd =>
      simp only [handle, h.tenants]
      split
      · have hnew : ∀ j, some (Id.user cmd.newId) = some j → home j = tenantId := by
          rintro _ ⟨⟩
          exact he.newId _ _ rfl
        have hp : ∀ j, (none : Option Id) = some j → home j = tenantId := by rintro _ ⟨⟩
        have hwork : ∀ c, (UserService.create deps tenantId { cmd with role := .tenantAdmin } c).2.Ok home tenantId :=
          ok_create (hnew _ rfl)
        obtain ⟨hs, ha⟩ := h.withTenantTx hwork hnew hp
        exact ⟨hs, fun hseen => ha (Bool.and_eq_true _ _ ▸ hseen).2⟩
      · exact ⟨h, fun _ => rfl⟩
    | _ => exact (h.registry ctx _).imp_right fun ha _ => ha
  · exact ⟨h, fun _ => rfl⟩

/-- Neither a request for other tenants nor one of a member changes anything. -/
theorem Alike.skip {e : Event} (h : Alike home P s s') (he : e.Own home) (hop : e.ctx.role ≠ .platformOperator)
    (hr : e.ctx.role ≠ .tenantAdmin ∨ P e.ctx.tenantId = false) : Alike home P (step deps s e).2 s' := by
  unfold Admin.step
  split
  · rename_i hcan
    obtain ⟨⟨tenantId, principalId, role⟩, r⟩ := e
    cases r with
    | inTenant r =>
      rcases hr with hr | hP
      · have hkeep : ∀ c, (r.perform deps ⟨tenantId, principalId, role⟩ c).2 = .keep := by
          intro c
          cases role with
          | member => exact keep_of_member hcan _ c
          | tenantAdmin => exact absurd rfl hr
          | platformOperator => exact absurd rfl hop
          | unset => cases hcan
        simp only [handle, Tables.withTenantTx, hkeep]
        exact h
      · exact h.outside (ok_perform fun _ => he.scoped) hP
    | tenantGet id =>
      simp only [handle, Admin.registry]
      split <;> exact h
    | tenantList => exact h
    | _ => cases role <;> first | exact absurd rfl hop | cases hcan
  · exact h

theorem unwinds (deps : Deps) (home : Id → Uuid) (P : Uuid → Bool) :
    Unwinds (step deps) (Event.Own home) (Alike home P) (Event.relevant P) (Event.seen P) where
  keep he h hr := (h.kept he hr).1
  skip he h hr := by
    simp only [Event.relevant, Bool.or_eq_false_iff, decide_eq_false_iff_not] at hr
    exact h.skip he hr.1 (.inr hr.2)
  relevant := Event.relevant_of_seen
  answer he h hseen := (h.kept he (Event.relevant_of_seen hseen)).2 hseen

theorem unwinds_writing (deps : Deps) (home : Id → Uuid) (P : Uuid → Bool) :
    Unwinds (step deps) (Event.Own home) (Alike home P) (Event.writing P) fun _ => false where
  keep {s s' e} he h hr := by
    refine (h.kept he ?_).1
    simp only [Event.writing, Event.relevant, Bool.or_eq_true, Bool.and_eq_true] at hr ⊢
    exact hr.imp_right And.right
  skip {s s' e} he h hr := by
    simp only [Event.writing, Bool.or_eq_false_iff, decide_eq_false_iff_not, Bool.and_eq_false_iff] at hr
    exact h.skip he hr.1 hr.2
  relevant h := by cases h
  answer _ _ h := by cases h

/-- Some tenants, or none of them, and the operators are told the same if no other tenant acts, up to whether an admin
that an operator provisions for another tenant has an email in use there; and what is stored of these tenants and of the
registry is the same if only operators and admins of these tenants act. -/
theorem tenants_isolated (deps : Deps) (P : Uuid → Bool) {home : Id → Uuid} {s : Tables}
    (hs : ∀ r ∈ s.rows, r.Homed home) {es : List Event} (he : ∀ e ∈ es, e.Own home) :
    (answers (step deps) s es).filter (fun p => p.1.seen P) =
        (answers (step deps) s (es.filter (Event.relevant P))).filter (fun p => p.1.seen P) ∧
      (final (step deps) s es).tenants = (final (step deps) s (es.filter (Event.writing P))).tenants ∧
      part P (final (step deps) s es).rows = part P (final (step deps) s (es.filter (Event.writing P))).rows := by
  have hself : Alike home P s s := ⟨rfl, rfl, hs, hs⟩
  have hfinal := ((unwinds_writing deps home P).run he hself).2
  exact ⟨((unwinds deps home P).run he hself).1, hfinal.tenants, hfinal.rows⟩

def leaving : List Event :=
  [⟨⟨.rep 2, .rep 4, .tenantAdmin⟩, .inTenant (.userRemove (.rep 4))⟩,
    ⟨⟨.rep 1, .rep 3, .tenantAdmin⟩, .inTenant .userList⟩]

def twoAdmins : Tables :=
  ⟨[⟨⟨.rep 1, bs "acme", .active⟩, []⟩, ⟨⟨.rep 2, bs "globex", .active⟩, []⟩],
    [.user ⟨.rep 3, .rep 1, bs "ada", [], none, userActive, false⟩,
      .user ⟨.rep 4, .rep 2, bs "eve", [], none, userActive, false⟩]⟩

theorem leaving_isolated :
    (answers (step ⟨id, id, id⟩) twoAdmins leaving).filter (fun p => p.1.seen fun t => t = .rep 1) =
      (answers (step ⟨id, id, id⟩) twoAdmins (leaving.filter (Event.relevant fun t => t = .rep 1))).filter
        fun p => p.1.seen fun t => t = .rep 1 := by
  have hs : ∀ r ∈ twoAdmins.rows, r.Homed fun i => if i = .user (.rep 4) then .rep 2 else .rep 1 := by
    refine List.forall_mem_cons.mpr ⟨?_, List.forall_mem_singleton.mpr ?_⟩ <;> rintro _ ⟨⟩ <;> rfl
  have he : ∀ e ∈ leaving, e.Own fun i => if i = .user (.rep 4) then .rep 2 else .rep 1 := by
    refine List.forall_mem_cons.mpr ⟨⟨rfl, ?_⟩, List.forall_mem_singleton.mpr ⟨rfl, ?_⟩⟩ <;> rintro _ _ ⟨⟩
  exact (tenants_isolated _ _ hs he).1

theorem operators_step (deps : Deps) (s : Tables) (e : Event) :
    operators (step deps s e).2.rows ⊆ operators s.rows := by
  unfold Admin.step
  split
  · obtain ⟨ctx, r⟩ := e
    cases r with
    | inTenant r =>
      -- whose the ids are does not matter here
      have hok : ∀ c, (r.perform deps ctx c).2.Ok (fun _ => ctx.tenantId) ctx.tenantId := ok_perform fun _ _ => rfl
      exact Edit.operators_apply (hok _) _
    | provisionAdmin tenantId cmd =>
      simp only [handle]
      split
      · have hok : ∀ cmd c, (UserService.create deps tenantId cmd c).2.Ok (fun _ => tenantId) tenantId :=
          fun _ => ok_create rfl
        exact Edit.operators_apply (hok _ _) _
      · exact List.Subset.refl _
    | tenantRemove id =>
      simp only [handle, registry]
      split
      · exact (List.filter_sublist.filterMap _).subset
      · exact List.Subset.refl _
    | tenantCreate newId publicId name =>
      simp only [handle, registry]
      split <;> exact List.Subset.refl _
    | tenantGet id =>
      simp only [handle, registry]
      split <;> exact List.Subset.refl _
    | _ => exact List.Subset.refl _
  · exact List.Subset.refl _

/-- No request makes a platform operator. -/
theorem operators_run (deps : Deps) (s : Tables) (es : List Event) :
    operators (final (step deps) s es).rows ⊆ operators s.rows :=
  final_induction (I := fun s' => operators s'.rows ⊆ operators s.rows)
    (fun s' e h => List.Subset.trans (operators_step deps s' e) h) es (List.Subset.refl _)

end Logalot.Admin
