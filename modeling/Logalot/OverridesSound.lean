import Logalot.Overrides

/-!
# Which overrides take effect

The id of a tenant is in lower case everywhere but in the text of the overrides.
The numbers are finite unless a text is the name of an infinity or of NaN.
-/

namespace Logalot

open Go

/-! ## The loop -/

theorem parseOverride_ok {entry : Bytes} {p : Bytes × LimitValues} (h : parseOverride entry = .ok p) :
    SpellsLimits entry p ∧ ∃ rateStr burstStr, numberTexts entry = [rateStr, burstStr] ∧
      parseFloat rateStr = .ok p.2.rate ∧ parseFloat burstStr = .ok p.2.burst := by
  unfold parseOverride at h
  unfold numberTexts
  cases he : cut (bs "=") entry with
  | none => rw [he] at h; cases h
  | some q =>
    obtain ⟨id, spec⟩ := q
    rw [he] at h
    dsimp only at h
    cases hv : ({ tenantId := trimSpace id } : TenantContext).valid with
    | some err => rw [hv] at h; cases h
    | none =>
      rw [hv] at h
      dsimp only at h
      cases hc : cut (bs ":") spec with
      | none => rw [hc] at h; cases h
      | some q =>
        obtain ⟨rateStr, burstStr⟩ := q
        rw [hc] at h
        dsimp only at h
        cases hr : parseFloat (trimSpace rateStr) with
        | error err => rw [hr] at h; cases h
        | ok rate =>
          rw [hr] at h
          dsimp only at h
          cases hb : parseFloat (trimSpace burstStr) with
          | error err => rw [hb] at h; cases h
          | ok burst =>
            rw [hb] at h
            cases h
            have hentry : entry = id ++ bs "=" ++ (rateStr ++ bs ":" ++ burstStr) := by
              rw [← eq_append_of_cut hc, ← eq_append_of_cut he]
            exact ⟨⟨id, rateStr, burstStr, hentry, rfl, hr, hb⟩, _, _, by simp only [hc], hr, hb⟩

theorem forall₂_filterMap {entries : List Bytes} (h : ∀ e ∈ entries, ∃ p, parseOverride e = .ok p) :
    List.Forall₂ SpellsLimits entries (entries.filterMap fun e => (parseOverride e).toOption) := by
  induction entries with
  | nil => exact .nil
  | cons e entries ih =>
    obtain ⟨p, hp⟩ := h e List.mem_cons_self
    rw [List.filterMap_cons_some (by rw [hp]; rfl)]
    exact .cons (parseOverride_ok hp).1 (ih fun e' he => h e' (List.mem_cons_of_mem _ he))

theorem addOverrides_ok : ∀ {entries : List Bytes} {out out' : Overrides}, addOverrides out entries = .ok out' →
    (∀ e ∈ (entries.map trimSpace).filter (· ≠ []), ∃ p, parseOverride e = .ok p) ∧
      ∀ k, out' k = ((((entries.map trimSpace).filter (· ≠ [])).filterMap fun e =>
        (parseOverride e).toOption).reverse.lookup k).or (out k)
  | [], out, out', h => by
    cases h
    exact ⟨by simp, by simp⟩
  | entry :: rest, out, out', h => by
    rw [addOverrides] at h
    by_cases hb : trimSpace entry = []
    · rw [if_pos hb] at h
      rw [List.map_cons, List.filter_cons_of_neg (by simpa using hb)]
      exact addOverrides_ok h
    · rw [if_neg hb] at h
      rw [List.map_cons, List.filter_cons_of_pos (by simpa using hb)]
      cases hp : parseOverride (trimSpace entry) with
      | error err => rw [hp] at h; cases h
      | ok p =>
        obtain ⟨id, lim⟩ := p
        rw [hp] at h
        dsimp only at h
        obtain ⟨hall, hout⟩ := addOverrides_ok h
        refine ⟨?_, fun k => ?_⟩
        · intro e he
          rcases List.mem_cons.mp he with rfl | he
          · exact ⟨_, hp⟩
          · exact hall e he
        · rw [hout k, List.filterMap_cons, hp]
          simp only [Except.toOption, List.reverse_cons, List.lookup_append, Option.or_assoc]
          by_cases hk : k = id
          · subst hk
            simp
          · have : (k == id) = false := beq_eq_false_iff_ne.mpr hk
            simp [List.lookup_cons, this, hk]

variable {s : Bytes} {out : Overrides}

theorem parseOverrides_ok (h : parseOverrides s = .ok out) :
    (∀ e ∈ overrideTexts s, ∃ p, parseOverride e = .ok p) ∧ ∀ k, out k = lastSpelled (overrideEntries s) k := by
  unfold parseOverrides at h
  by_cases hs : trimSpace s = []
  · rw [if_pos hs] at h
    cases h
    have ht : overrideTexts s = [] := by rw [overrideTexts, hs]; decide
    exact ⟨by simp [ht], fun k => by simp [lastSpelled, overrideEntries, ht]⟩
  · rw [if_neg hs] at h
    obtain ⟨hall, hout⟩ := addOverrides_ok h
    exact ⟨hall, fun k => by rw [hout k, Option.or_none, lastSpelled, overrideEntries, overrideTexts]⟩

/-! ## Spellings -/

theorem lastNaming_ne_none {entries : List (Bytes × LimitValues)} {id : Bytes} {lim : LimitValues}
    (h : lastSpelled entries id = some lim) : lastNaming entries (toLower id) ≠ none := by
  obtain ⟨pre, post, he, _⟩ := List.lookup_eq_some_iff.mp h
  have hm : (id, lim) ∈ entries := by
    rw [← List.mem_reverse, he]
    exact List.mem_append_right _ List.mem_cons_self
  intro hn
  have hnone := List.lookup_eq_none_iff.mp hn (toLower id, lim) (List.mem_reverse.mpr (List.mem_map.mpr ⟨_, hm, rfl⟩))
  simp at hnone

theorem exists_default_ne (lim : LimitValues) : ∃ default : LimitValues, default ≠ lim := by
  by_cases h : lim = ⟨.nan, .nan⟩
  · exact ⟨⟨.fin 0, .fin 0⟩, by rw [h]; decide⟩
  · exact ⟨⟨.nan, .nan⟩, fun e => h e.symm⟩

theorem finite_iff_texts (h : parseOverrides s = .ok out) :
    (∀ p ∈ overrideEntries s, p.2.rate.isFinite = true ∧ p.2.burst.isFinite = true) ↔
      ∀ e ∈ overrideTexts s, ∀ t ∈ numberTexts e, toLower t ∉ nonFiniteTexts := by
  have hall := (parseOverrides_ok h).1
  constructor
  · intro hf e he t ht
    obtain ⟨p, hp⟩ := hall e he
    obtain ⟨-, rateStr, burstStr, hn, hr, hb⟩ := parseOverride_ok hp
    have hm : p ∈ overrideEntries s := List.mem_filterMap.mpr ⟨e, he, by rw [hp]; rfl⟩
    rw [hn, List.mem_cons, List.mem_singleton] at ht
    rcases ht with rfl | rfl
    · exact (parseFloat_finite_iff hr).mp (hf p hm).1
    · exact (parseFloat_finite_iff hb).mp (hf p hm).2
  · intro ht p hm
    obtain ⟨e, he, hp⟩ := List.mem_filterMap.mp hm
    have hok : parseOverride e = .ok p := by
      cases hpe : parseOverride e with
      | error err => rw [hpe] at hp; cases hp
      | ok q => rw [hpe] at hp; cases hp; rfl
    obtain ⟨-, rateStr, burstStr, hn, hr, hb⟩ := parseOverride_ok hok
    exact ⟨(parseFloat_finite_iff hr).mpr (ht e he _ (by rw [hn]; exact List.mem_cons_self)),
      (parseFloat_finite_iff hb).mpr (ht e he _ (by rw [hn]; exact List.mem_cons_of_mem _ List.mem_cons_self))⟩

/-- **Overrides.** The entries of an accepted text are the pairs that it spells. The three parts of what it promises
hold together exactly if each UUID is last spelled in lower case with the limits it is last given at all, and no
number is written by name. -/
theorem overrides_apply_iff (h : parseOverrides s = .ok out) :
    List.Forall₂ SpellsLimits (overrideTexts s) (overrideEntries s) ∧
    (((∀ uuid lim, lastNaming (overrideEntries s) uuid = some lim →
        ∀ default tc, tc.tenantId = uuid → staticResolve default out tc = lim) ∧
      (∀ default tc, lastNaming (overrideEntries s) (toLower tc.tenantId) = none →
        staticResolve default out tc = default) ∧
      ∀ p ∈ overrideEntries s, p.2.rate.isFinite = true ∧ p.2.burst.isFinite = true) ↔
    ((∀ uuid lim, lastNaming (overrideEntries s) uuid = some lim → lastSpelled (overrideEntries s) uuid = some lim) ∧
      ∀ e ∈ overrideTexts s, ∀ t ∈ numberTexts e, toLower t ∉ nonFiniteTexts)) := by
  refine ⟨forall₂_filterMap (parseOverrides_ok h).1, ?_⟩
  have hout := (parseOverrides_ok h).2
  have hres : ∀ default (tc : TenantContext),
      staticResolve default out tc = (lastSpelled (overrideEntries s) tc.tenantId).getD default := fun default tc => by
    rw [staticResolve, hout]
  rw [finite_iff_texts h]
  constructor
  · rintro ⟨hnamed, -, hfin⟩
    refine ⟨fun uuid lim hl => ?_, hfin⟩
    obtain ⟨default, hne⟩ := exists_default_ne lim
    have hr := hnamed uuid lim hl default { tenantId := uuid } rfl
    rw [hres] at hr
    cases hs : lastSpelled (overrideEntries s) uuid with
    | none => rw [hs] at hr; exact absurd hr hne
    | some lim' => rw [hs] at hr; exact congrArg some hr
  · rintro ⟨hspelled, hfin⟩
    refine ⟨fun uuid lim hl default tc ht => ?_, fun default tc hn => ?_, hfin⟩
    · rw [hres, ht, hspelled uuid lim hl]
      rfl
    · rw [hres]
      cases hs : lastSpelled (overrideEntries s) tc.tenantId with
      | none => rfl
      | some lim => exact absurd hn (lastNaming_ne_none hs)

def acceptedOverrides (s : Bytes) : Overrides := (parseOverrides s).toOption.getD fun _ => none

theorem parseOverrides_accepted (h : (parseOverrides s).toOption.isSome = true) :
    parseOverrides s = .ok (acceptedOverrides s) := by
  unfold acceptedOverrides
  cases hp : parseOverrides s with
  | error err => rw [hp] at h; cases h
  | ok out => rfl

def overrideSample : Bytes :=
  bs "11111111-1111-4111-8111-11111111111a=1:1,,22222222-2222-4222-8222-222222222222=0:0" ++
    bs ", 11111111-1111-4111-8111-11111111111a=2000:4e3"

theorem overrideSample_applies :
    staticResolve ⟨.fin 1000, .fin 2000⟩ (acceptedOverrides overrideSample)
        { tenantId := bs "11111111-1111-4111-8111-11111111111a" } = ⟨.fin 2000, .fin 4000⟩ ∧
      staticResolve ⟨.fin 1000, .fin 2000⟩ (acceptedOverrides overrideSample)
        { tenantId := bs "33333333-3333-4333-8333-333333333333" } = ⟨.fin 1000, .fin 2000⟩ := by
  have hok := parseOverrides_accepted (s := overrideSample) (by decide +kernel)
  have hlower : (overrideEntries overrideSample).map (fun p => (toLower p.1, p.2)) =
      overrideEntries overrideSample := by
    decide +kernel
  have hsame : ∀ uuid, lastNaming (overrideEntries overrideSample) uuid =
      lastSpelled (overrideEntries overrideSample) uuid := fun uuid => by
    rw [lastNaming, hlower, lastSpelled]
  obtain ⟨h1, h2, -⟩ := (overrides_apply_iff hok).2.mpr
    ⟨fun uuid lim hl => (hsame uuid).symm.trans hl, by decide +kernel⟩
  exact ⟨h1 _ _ (by decide +kernel) _ _ rfl, h2 _ _ (by decide +kernel)⟩

/-- A UUID in capital letters leaves its tenant with the default, and a burst may be infinite. -/
theorem capitals_and_names_accepted :
    (parseOverrides (bs "AAAAAAAA-AAAA-4AAA-8AAA-AAAAAAAAAAAA=5:Inf")).toOption.isSome = true ∧
      lastNaming (overrideEntries (bs "AAAAAAAA-AAAA-4AAA-8AAA-AAAAAAAAAAAA=5:Inf"))
        (bs "aaaaaaaa-aaaa-4aaa-8aaa-aaaaaaaaaaaa") = some ⟨.fin 5, .inf false⟩ ∧
      staticResolve ⟨.fin 1, .fin 1⟩ (acceptedOverrides (bs "AAAAAAAA-AAAA-4AAA-8AAA-AAAAAAAAAAAA=5:Inf"))
        { tenantId := bs "aaaaaaaa-aaaa-4aaa-8aaa-aaaaaaaaaaaa" } = ⟨.fin 1, .fin 1⟩ := by
  decide +kernel

end Logalot
