import Logalot.FitnessSound

/-!
# Which accepted statements are safe

With a top-level `OR` or a `UNION` the check says nothing about the other
alternatives and branches: such a statement is safe exactly when those admit no
other tenant's row on their own.
-/

namespace Logalot

open Go Sql

section
variable (E : Engine)

def Term.OnlyOf (t : Bytes) (d : Term) : Prop := ∀ r, d.eval E r = some true → E.tenantId r = some t

def whereHolds (r : E.Row) : Option Condition → Prop
  | none => True
  | some c => c.eval E r = some true

/-- The alternatives of the first `WHERE` clause without the predicate, and the
branches of the `UNION`s, admit only rows of tenant `t`. -/
def Statement.Confined (st : Statement) (t : Bytes) : Prop :=
  (∀ d ∈ st.cond.terms, ¬d.carries t → d.OnlyOf E t) ∧
  ∀ x ∈ st.ops, x.op = .union → ∀ r, whereHolds E r x.sel.cond → E.tenantId r = some t

/-! ## Rows of one condition -/

theorem Condition.eval_eq_true (r : E.Row) (c : Condition) :
    c.eval E r = some true ↔ ∃ d ∈ c.terms, d.eval E r = some true := by
  fun_induction Condition.terms c with
  | case1 t => simp [Condition.eval]
  | case2 c t ih =>
    rw [Condition.eval, Truth.or_eq_true, ih]
    simp [or_and_right, exists_or]

theorem Term.eval_eq_true (r : E.Row) (t : Term) :
    t.eval E r = some true ↔ ∀ f ∈ t.factors, f.eval E r = some true := by
  fun_induction Term.factors t with
  | case1 f => simp [Term.eval]
  | case2 t f ih =>
    rw [Term.eval, Truth.and_eq_true, ih]
    simp [or_imp, forall_and]

theorem Factor.tenantId_of_tenantEq {f : Factor} {v : Bytes} (hf : f.tenantEq = some v) {r : E.Row}
    (h : f.eval E r = some true) : E.tenantId r = some v := by
  cases f with
  | cmp x o y =>
    rw [Factor.eval, hf] at h
    simpa using h
  | _ => simp [Factor.tenantEq] at hf

variable {t : Bytes} {db : List Lexeme → List E.Row} {st : Statement}

theorem Term.onlyOf_of_carries {d : Term} (h : d.carries t) : d.OnlyOf E t := by
  intro r hr
  obtain ⟨f, hf, ht⟩ := h
  exact f.tenantId_of_tenantEq E ht ((d.eval_eq_true E r).mp hr f hf)

theorem mem_selectRows {head : List Lexeme} {cond : Option Condition} {r : E.Row} :
    r ∈ selectRows E db head cond ↔ r ∈ db head ∧ whereHolds E r cond := by
  cases cond <;> simp [selectRows, whereHolds]

/-! ## Rows of a statement -/

theorem evalOps_forall {P : E.Row → Prop} : ∀ (ops : List Further)
    (combine : List E.Row → List E.Row) (cur : List E.Row),
    (∀ rows ⊆ cur, ∀ r ∈ combine rows, P r) →
    (∀ x ∈ ops, x.op = .union → ∀ r ∈ selectRows E db x.sel.head x.sel.cond, P r) →
    ∀ r ∈ evalOps E db combine cur ops, P r
  | [], combine, cur, hcomb, _ => hcomb cur (List.Subset.refl _)
  | x :: ops, combine, cur, hcomb, hops => by
    have hrest : ∀ y ∈ ops, y.op = .union → ∀ r ∈ selectRows E db y.sel.head y.sel.cond, P r :=
      fun y hy => hops y (List.mem_cons_of_mem _ hy)
    have hcur : ∀ r ∈ combine cur, P r := hcomb cur (List.Subset.refl _)
    unfold evalOps
    cases hx : x.op with
    | intersect =>
      refine evalOps_forall ops combine _ (fun rows hrows => hcomb rows fun r hr => ?_) hrest
      exact (List.mem_filter.mp (hrows hr)).1
    | union =>
      refine evalOps_forall ops _ _ (fun rows hrows r hr => ?_) hrest
      rcases List.mem_append.mp hr with hr | hr
      · exact hcur r hr
      · exact hops x List.mem_cons_self hx r (hrows hr)
    | except =>
      -- rows are only taken away, whatever the branch returns
      refine evalOps_forall ops _ _ (fun rows _ r hr => ?_) hrest
      exact hcur r (List.mem_filter.mp hr).1

theorem mem_evalOps_union {r : E.Row} : ∀ (ops : List Further)
    (combine : List E.Row → List E.Row) (cur : List E.Row), (∀ x ∈ ops, x.op = .union) →
    (r ∈ combine cur ∨ ∃ x ∈ ops, r ∈ selectRows E db x.sel.head x.sel.cond) → r ∈ evalOps E db combine cur ops
  | [], combine, cur, _, h => h.elim id fun ⟨_, hx, _⟩ => absurd hx List.not_mem_nil
  | x :: ops, combine, cur, hops, h => by
    unfold evalOps
    rw [hops x List.mem_cons_self]
    refine mem_evalOps_union ops _ _ (fun y hy => hops y (List.mem_cons_of_mem _ hy)) ?_
    rcases h with h | ⟨y, hy, h⟩
    · exact .inl (List.mem_append_left _ h)
    · rcases List.mem_cons.mp hy with rfl | hy
      · exact .inl (List.mem_append_right _ h)
      · exact .inr ⟨y, hy, h⟩

theorem Statement.safe_of_confined (h : st.Confined E t) : st.Safe E t := by
  intro db r hr
  refine evalOps_forall E (P := fun r => E.tenantId r = some t) st.ops id _ (fun rows hrows r hr => ?_)
    (fun x hx hu r hr => h.2 x hx hu r ((mem_selectRows E).mp hr).2) r (E.arrange_sub _ _ r hr)
  obtain ⟨-, hc⟩ := (mem_selectRows E).mp (hrows hr)
  obtain ⟨d, hd, hr⟩ := (st.cond.eval_eq_true E r).mp hc
  by_cases hcar : d.carries t
  · exact d.onlyOf_of_carries E hcar r hr
  · exact h.1 d hd hcar r hr

theorem Statement.confined_of_safe (hu : ∀ x ∈ st.ops, x.op = .union)
    (ht : st.tail = []) (h : st.Safe E t) : st.Confined E t := by
  have shows : ∀ r, (st.cond.eval E r = some true ∨ ∃ x ∈ st.ops, whereHolds E r x.sel.cond) →
      E.tenantId r = some t := by
    intro r hr
    refine h (fun _ => [r]) r ?_
    rw [Statement.eval, ht, E.arrange_nil]
    refine mem_evalOps_union E st.ops id _ hu ?_
    simpa [mem_selectRows, whereHolds] using hr
  refine ⟨fun d hd _ r hr => shows r (.inl ?_), fun x hx _ r hr => shows r (.inr ⟨x, hx, hr⟩)⟩
  exact (st.cond.eval_eq_true E r).mpr ⟨d, hd, hr⟩

theorem Statement.confined_of_orFree (ho : st.cond.orFree = true)
    (hu : st.unionFree = true) (h : ∃ d ∈ st.cond.terms, d.carries t) : st.Confined E t := by
  obtain ⟨d, hd, hcar⟩ := h
  refine ⟨fun d' hd' hn => absurd hcar ?_, fun x hx he => ?_⟩
  · cases hc : st.cond with
    | term t =>
      rw [hc, Condition.terms, List.mem_singleton] at hd hd'
      rw [hd, ← hd']
      exact hn
    | or c t =>
      rw [hc] at ho
      cases ho
  · have := List.all_eq_true.mp hu x hx
    rw [he] at this
    cases this

/-- **When an accepted statement is safe.** Without a top-level `OR` in the first
`WHERE` and without `UNION`, always. In general it suffices that the statement is
confined, which is also necessary unless rows are taken away again by `EXCEPT`,
`INTERSECT` or `LIMIT`. -/
theorem safe_of_checkTenantPredicate {sql : Bytes} (hs : Spells st.lexemes sql)
    (hp : plain st.lexemes = true) (hc : checkTenantPredicate sql t = none) :
    (st.cond.orFree = true → st.unionFree = true → st.Safe E t) ∧
    (st.Confined E t → st.Safe E t) ∧
    ((∀ x ∈ st.ops, x.op = .union) → st.tail = [] → (st.Safe E t ↔ st.Confined E t)) := by
  refine ⟨fun ho hu => ?_, st.safe_of_confined E, fun hu ht => ⟨st.confined_of_safe E hu ht, st.safe_of_confined E⟩⟩
  exact st.safe_of_confined E (st.confined_of_orFree E ho hu (carries_of_checkTenantPredicate hs hp hc))

end

/-! ## Two unsafe statements and a safe one -/

def identOperand (v : Bytes) : Operand := ⟨[.tok ⟨.tokIdent, v⟩], List.cons_ne_nil _ _, rfl⟩

def stringOperand (v : Bytes) : Operand := ⟨[.tok ⟨.tokString, v⟩], List.cons_ne_nil _ _, rfl⟩

def numberOperand (v : Bytes) : Operand := ⟨[.tok ⟨.tokNumber, v⟩], List.cons_ne_nil _ _, rfl⟩

def tenantFactor (t : Bytes) : Factor := .cmp (identOperand (bs "tenant_id")) .eq (stringOperand t)

def numberFactor (col n : Bytes) : Factor := .cmp (identOperand col) .eq (numberOperand n)

def fromEvents : List Lexeme := [.tok ⟨.tokOp, bs "*"⟩, kw "FROM", .tok ⟨.tokIdent, bs "log_events"⟩]

/-- `SELECT * FROM log_events WHERE <c> <ops>` -/
def selectEvents (c : Condition) (ops : List Further) : Statement :=
  { head := fromEvents, head_ok := by decide, cond := c, ops := ops, tail := [], tail_ok := rfl,
    tail_head := fun _ h => by cases h }

/-- `tenant_id = 'T' AND a = 1` -/
def guarded : Term := .and (.factor (tenantFactor (bs "T"))) (numberFactor (bs "a") (bs "1"))

/-- A row is its tenant; every other comparison holds. -/
def tenantRows : Engine :=
  { Row := Bytes, tenantId := some, cmp := fun _ _ _ _ => some true, between := fun _ _ _ _ => some true,
    test := fun _ _ => some true, same := fun a b => a == b, arrange := fun _ rows => rows,
    arrange_sub := fun _ _ _ h => h, arrange_nil := fun _ => rfl }

theorem not_safe_of_eval {st : Statement} (h : st.eval tenantRows (fun _ => [bs "U"]) = [bs "U"]) :
    ¬st.Safe tenantRows (bs "T") := fun hs => by
  have hm : bs "U" ∈ st.eval tenantRows fun _ => [bs "U"] := by
    rw [h]
    exact List.mem_singleton_self _
  have e : some (bs "U") = some (bs "T") := hs _ _ hm
  revert e
  decide

/-- The check accepts a top-level `OR` beside the predicate, and a `UNION` after
it; both statements return the rows of tenant `U` too. -/
theorem accepted_statements_leak :
    let orCond : Condition := .or (.term guarded) (.factor (numberFactor (bs "b") (bs "2")))
    let orSql := bs " SELECT * FROM log_events WHERE tenant_id = 'T' AND a = 1 OR b = 2"
    let all : Further := ⟨.union, true, ⟨fromEvents, by decide, none⟩⟩
    let unionSql := bs " SELECT * FROM log_events WHERE tenant_id = 'T' AND a = 1 UNION ALL SELECT * FROM log_events"
    (Spells (selectEvents orCond []).lexemes orSql ∧ checkTenantPredicate orSql (bs "T") = none ∧
      ¬(selectEvents orCond []).Safe tenantRows (bs "T")) ∧
    (Spells (selectEvents (.term guarded) [all]).lexemes unionSql ∧
      checkTenantPredicate unionSql (bs "T") = none ∧
      ¬(selectEvents (.term guarded) [all]).Safe tenantRows (bs "T")) := by
  refine ⟨⟨spells_of_spellOut ?_ ?_, ?_, not_safe_of_eval rfl⟩, spells_of_spellOut ?_ ?_, ?_, not_safe_of_eval rfl⟩ <;>
    decide

theorem guarded_select_safe : (selectEvents (.term guarded) []).Safe tenantRows (bs "T") := by
  have hs : Spells (selectEvents (.term guarded) []).lexemes
      (bs " SELECT * FROM log_events WHERE tenant_id = 'T' AND a = 1") :=
    spells_of_spellOut (by decide) (by decide)
  exact (safe_of_checkTenantPredicate tenantRows hs (by decide) (by decide)).1 rfl rfl

end Logalot
