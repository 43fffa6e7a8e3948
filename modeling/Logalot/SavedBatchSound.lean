import Logalot.SavedQueriesSound

/-!
# What the batch resolution leaves alone

One thing of a rule remains besides its own fields: a service that is blank, where
the saved query has no filters. No statement is built from it.
-/

namespace Logalot

open Go Pg

/-! ## The map -/

theorem lookupRows_append (l : List SavedQueryRow) (row : SavedQueryRow) (id tenantId : Uuid) :
    lookupRows (l ++ [row]) id tenantId =
      if id = row.id ∧ tenantId = row.tenantId then some row.resolution else lookupRows l id tenantId := by
  simp only [lookupRows, List.foldl_append, List.foldl_cons, List.foldl_nil]

theorem lookupRows_eq_some {l : List SavedQueryRow} {id tenantId : Uuid} {sq : SavedQuery}
    (h : lookupRows l id tenantId = some sq) :
    ∃ row ∈ l, row.id = id ∧ row.tenantId = tenantId ∧ sq = row.resolution := by
  induction l using List.reverseRecOn with
  | nil => cases h
  | append_singleton l row ih =>
    rw [lookupRows_append] at h
    by_cases hk : id = row.id ∧ tenantId = row.tenantId
    · rw [if_pos hk] at h
      exact ⟨row, List.mem_append_right _ List.mem_cons_self, hk.1.symm, hk.2.symm, (Option.some.inj h).symm⟩
    · rw [if_neg hk] at h
      obtain ⟨row', hm, hr⟩ := ih h
      exact ⟨row', List.mem_append_left _ hm, hr⟩

theorem lookupRows_of_mem {l : List SavedQueryRow} (hn : (l.map SavedQueryRow.id).Nodup) {row : SavedQueryRow}
    (hm : row ∈ l) : lookupRows l row.id row.tenantId = some row.resolution := by
  induction l using List.reverseRecOn with
  | nil => cases hm
  | append_singleton l row' ih =>
    rw [List.map_append, List.nodup_append] at hn
    rw [lookupRows_append]
    rcases List.mem_append.mp hm with hm | hm
    · have hne : row.id ≠ row'.id := fun he =>
        hn.2.2 _ (List.mem_map_of_mem hm) _ (List.mem_map_of_mem List.mem_cons_self) he
      rw [if_neg fun h => hne h.1]
      exact ih hn.1 hm
    · rw [List.mem_singleton.mp hm, if_pos ⟨rfl, rfl⟩]

/-- For the table as it is, whose ids are unique, the order of the rows does not matter. -/
theorem resolveFetched_eq (saved : SavedQueryTable) {rules : List Rule} {fetched : List SavedQueryRow}
    (hf : FetchesSaved saved.rows (neededQueries rules) (some fetched)) :
    resolveFetched (some fetched) rules = resolveSavedQueriesBatch saved rules := by
  have hp : fetched.Perm _ := hf
  have hlookup : lookupRows fetched = lookupQueries saved (neededQueries rules) := by
    have hn : (fetched.map SavedQueryRow.id).Nodup :=
      ((hp.map _).nodup_iff).mpr ((List.filter_sublist.map _).nodup saved.nodup_id)
    funext id tenantId
    unfold lookupQueries
    dsimp only
    cases hfind : (saved.rows.filter fun row => row.id ∈ (neededQueries rules).map Prod.fst ∧
        row.tenantId ∈ (neededQueries rules).map Prod.snd).find? fun row => row.id = id ∧ row.tenantId = tenantId with
    | some row =>
      obtain ⟨rfl, rfl⟩ : row.id = id ∧ row.tenantId = tenantId := by simpa using List.find?_some hfind
      exact lookupRows_of_mem hn (hp.mem_iff.mpr (List.mem_of_find?_eq_some hfind))
    | none =>
      cases hl : lookupRows fetched id tenantId with
      | none => rfl
      | some sq =>
        obtain ⟨row, hm, h1, h2, -⟩ := lookupRows_eq_some hl
        have := List.find?_eq_none.mp hfind row (hp.mem_iff.mp hm)
        exact absurd (by simp [h1, h2]) this
  unfold resolveFetched resolveSavedQueriesBatch
  simp only [hlookup]

def timeoutsQuery : SavedQueryRow :=
  { id := .rep 5, tenantId := .rep 18, queryText := bs "timeout", filtersRaw := bs "\x7b\x7d" }

def timeoutsRule : Rule := { errorsRule with id := .rep 6, tenantId := .rep 18, savedQueryId := some (.rep 5) }

def tenantsTable : SavedQueryTable := ⟨[errorsQuery, timeoutsQuery, { errorsQuery with id := .rep 7 }], by decide⟩

/-- Rules of two tenants; the rows come in the other order. -/
theorem two_rules_resolved :
    resolveFetched (some [timeoutsQuery, errorsQuery]) [errorsRule, timeoutsRule] =
      resolveSavedQueriesBatch tenantsTable [errorsRule, timeoutsRule] ∧
    (resolveFetched (some [timeoutsQuery, errorsQuery]) [errorsRule, timeoutsRule]).map
      (fun r => (r.query.text, r.query.level)) = [([], some (bs "error")), (bs "timeout", none)] :=
  ⟨resolveFetched_eq tenantsTable (List.Perm.swap _ _ _), by decide +kernel⟩

/-! ## One rule -/

theorem whenService_blank {s : Bytes} (h : trimSpace s = []) (b : Built) : b.whenService s = b := if_pos h

theorem apply_of_isEmpty (sq : SavedQuery) {q : RuleQuery} (hq : q.isEmpty = true) :
    sq.apply q = sq.apply noQuery ∨ (sq.filters = none ∧ trimSpace q.service = [] ∧
      sq.apply q = { sq.apply noQuery with service := q.service }) := by
  obtain ⟨-, hservice, hlevel, hlabels⟩ : trimSpace q.text = [] ∧ trimSpace q.service = [] ∧ q.level = none ∧
      q.labels = [] := by simpa [RuleQuery.isEmpty] using hq
  unfold SavedQuery.apply
  cases hf : sq.filters with
  | some f =>
    left
    simp only [hlevel, noQuery]
  | none =>
    refine .inr ⟨rfl, hservice, ?_⟩
    simp only [noQuery, ← hlevel, ← hlabels]

theorem buildCount_blank {q : RuleQuery} {s : Bytes} (hs : trimSpace s = []) (hq : q.service = []) (tenantId : Bytes)
    (tsFrom tsTo : Time) :
    buildCount tenantId { q with service := s } tsFrom tsTo = buildCount tenantId q tsFrom tsTo := by
  have hnil : trimSpace [] = [] := by decide
  unfold buildCount
  simp only [hq, whenService_blank hs, whenService_blank hnil]

def ResolvedFrom (saved : List SavedQueryRow) (r : Rule) (q : RuleQuery) : Prop :=
  (r.query.isEmpty = false ∧ q = r.query) ∨
    (r.query.isEmpty = true ∧ (q = r.query ∨ ∃ row ∈ saved, r.savedQueryId = some row.id ∧
      row.tenantId = r.tenantId ∧
      (q = row.resolution.apply noQuery ∨ (row.resolution.filters = none ∧ trimSpace r.query.service = [] ∧
        q = { row.resolution.apply noQuery with service := r.query.service })) ∧
      ∀ tenantId tsFrom tsTo,
        buildCount tenantId q tsFrom tsTo = buildCount tenantId (row.resolution.apply noQuery) tsFrom tsTo))

theorem resolvedFrom_self (saved : List SavedQueryRow) (r : Rule) : ResolvedFrom saved r r.query := by
  cases he : r.query.isEmpty with
  | false => exact .inl ⟨he, rfl⟩
  | true => exact .inr ⟨he, .inl rfl⟩

theorem resolve_lookupRows {saved fetched : List SavedQueryRow} (hsub : ∀ row ∈ fetched, row ∈ saved) (r : Rule) :
    ∃ q, r.resolve (lookupRows fetched) = { r with query := q } ∧ ResolvedFrom saved r q := by
  unfold Rule.resolve
  split
  · exact ⟨r.query, rfl, resolvedFrom_self saved r⟩
  · rename_i id hid
    split
    · exact ⟨r.query, rfl, resolvedFrom_self saved r⟩
    · rename_i he
      have he : r.query.isEmpty = true := by simpa using he
      split
      · exact ⟨r.query, rfl, resolvedFrom_self saved r⟩
      · rename_i sq hl
        obtain ⟨row, hm, rfl, ht, rfl⟩ := lookupRows_eq_some hl
        have happly := apply_of_isEmpty row.resolution he
        refine ⟨_, rfl, .inr ⟨he, .inr ⟨row, hsub row hm, hid, ht, happly, fun tenantId tsFrom tsTo => ?_⟩⟩⟩
        rcases happly with h | ⟨hf, hb, h⟩
        · rw [h]
        · rw [h, buildCount_blank hb]
          unfold SavedQuery.apply
          rw [hf]
          rfl

/-- **Frame of the batch.** In every list of rules, and for every content of the table, each rule keeps its
place and all of it but the query, which is its own or is resolved. -/
theorem resolveFetched_frame {saved : List SavedQueryRow} {rules : List Rule} {fetched : Option (List SavedQueryRow)}
    (hf : FetchesSaved saved (neededQueries rules) fetched) :
    (resolveFetched fetched rules).length = rules.length ∧
      ∀ (i : Nat) r, rules[i]? = some r →
        ∃ q, (resolveFetched fetched rules)[i]? = some { r with query := q } ∧ ResolvedFrom saved r q := by
  have hself : rules.length = rules.length ∧ ∀ (i : Nat) r, rules[i]? = some r →
      ∃ q, rules[i]? = some { r with query := q } ∧ ResolvedFrom saved r q :=
    ⟨rfl, fun i r hr => ⟨r.query, hr, resolvedFrom_self saved r⟩⟩
  unfold resolveFetched
  by_cases hn : neededQueries rules = []
  · rw [if_pos hn]
    exact hself
  · rw [if_neg hn]
    cases fetched with
    | none => exact hself
    | some rows =>
      have hsub : ∀ row ∈ rows, row ∈ saved := fun row hm => List.mem_of_mem_filter (List.Perm.mem_iff hf |>.mp hm)
      refine ⟨List.length_map _, fun i r hr => ?_⟩
      obtain ⟨q, hq, hres⟩ := resolve_lookupRows hsub r
      refine ⟨q, ?_, hres⟩
      rw [List.getElem?_map, hr, Option.map_some, hq]

/-! ## Samples -/

def billingQuery : SavedQueryRow :=
  { id := .rep 1, tenantId := .rep 18, queryText := bs "refund", filtersRaw := bs "\x7b\x7d" }

def billingRule (service : String) : Rule :=
  { errorsRule with tenantId := .rep 18, query := { noQuery with service := bs service } }

/-- The blank service of the rule is still there. -/
theorem blank_service_kept :
    FetchesSaved [errorsQuery, billingQuery] (neededQueries [billingRule " "]) (some [billingQuery]) ∧
      (billingRule " ").query.isEmpty = true ∧
      resolveFetched (some [billingQuery]) [billingRule " "] =
        [{ billingRule " " with query := { noQuery with text := bs "refund", service := bs " " } }] ∧
      resolveFetched (some [billingQuery]) [billingRule ""] =
        [{ billingRule "" with query := { noQuery with text := bs "refund" } }] :=
  ⟨List.Perm.refl _, by decide, rfl, rfl⟩

theorem tenants_share_id :
    (resolveFetched (some [billingQuery, errorsQuery]) [errorsRule, billingRule " "]).length = 2 ∧
      ∀ (i : Nat) r, [errorsRule, billingRule " "][i]? = some r →
        ∃ q, (resolveFetched (some [billingQuery, errorsQuery]) [errorsRule, billingRule " "])[i]? =
          some { r with query := q } ∧ ResolvedFrom [errorsQuery, billingQuery] r q :=
  resolveFetched_frame (List.Perm.swap _ _ _)

end Logalot
