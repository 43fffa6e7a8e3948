import Logalot.TieredSearchSound
import Logalot.UnionSearchSound

/-!
# Windows of the tiers

A search that is cut in two asks each tier for its side of a second cutoff. The
clock goes on between the two.
-/

namespace Logalot

open Go Pipeline

/-- The windows of the calls are disjoint, and together they are the window of the query. -/
def Tiles (calls : List StoreCall) (q : SearchQuery) : Prop :=
  calls.Pairwise (fun a b => ∀ t, ¬ (a.query.Contains t ∧ b.query.Contains t)) ∧
  ∀ t, (∃ c ∈ calls, c.query.Contains t) ↔ q.Contains t

variable {ts : TieredSearcher} {now now' : Time} {q : SearchQuery}

/-- The query has events on both sides of the cutoff. -/
def Straddles (cutoff : Time) (q : SearchQuery) : Prop :=
  (isZero q.tsFrom = true ∨ q.tsFrom < cutoff) ∧ (isZero q.tsTo = true ∨ cutoff < q.tsTo)

theorem classifyTier_both_iff (hq : isZero q.tsFrom = false ∨ isZero q.tsTo = false) :
    ts.classifyTier now q = .both ↔ Straddles (ts.hotCutoff now) q := by
  unfold TieredSearcher.classifyTier Straddles
  grind

theorem tiles_single (store : Store) (q : SearchQuery) : Tiles [⟨store, withLimit q⟩] q := by
  refine ⟨List.pairwise_singleton _ _, fun t => ?_⟩
  rw [List.exists_mem_cons_iff]
  simp only [List.not_mem_nil, false_and, exists_false, or_false]
  exact Iff.rfl

theorem tiles_halves_iff {cut : Time} (hq : isZero q.tsFrom = false ∨ isZero q.tsTo = false)
    (hfrom : isZero q.tsFrom = true ∨ q.tsFrom < cut)
    (hlt : isZero q.tsFrom = true ∨ isZero q.tsTo = true ∨ q.tsFrom < q.tsTo) :
    Tiles [⟨.hot, { q with tsFrom := cut, cursor := none }⟩, ⟨.cold, { q with tsTo := cut, cursor := none }⟩] q ↔
      isZero cut = false ∧ (isZero q.tsTo = true ∨ cut ≤ q.tsTo) := by
  unfold Tiles
  simp only [List.pairwise_pair, List.exists_mem_cons_iff, List.not_mem_nil, false_and, exists_false, or_false]
  unfold SearchQuery.Contains
  constructor
  · rintro ⟨hdisjoint, hunion⟩
    constructor
    · -- a cutoff at the zero time bounds neither half
      by_contra hz
      cases hto : isZero q.tsTo with
      | true => exact hdisjoint q.tsFrom (by grind)
      | false => exact hdisjoint (q.tsTo - 1) (by grind)
    · by_contra hto
      have := hunion q.tsTo
      grind
  · rintro ⟨hcut, hto⟩
    exact ⟨fun t => by grind, fun t => by grind⟩

/-- **Windows of the tiers.** The windows asked of the tiers are disjoint and together that of the query, exactly
when there is no archive to ask, the query lies on one side of the cutoff, or the second cutoff is not past its end. -/
theorem search_tiles_iff {α : Type} (slice : SortSlice α) (hot cold : StoreSearch α) (tc : TenantContext)
    (hn : now ≤ now') (hq : isZero q.tsFrom = false ∨ isZero q.tsTo = false) :
    Tiles (ts.search slice hot cold now now' tc q).1 q ↔
      (ts.enabled = false ∨ ts.hasCold = false) ∨ ¬ Straddles (ts.hotCutoff now) q ∨
      (isZero (ts.hotCutoff now') = false ∧ (isZero q.tsTo = true ∨ ts.hotCutoff now' ≤ q.tsTo)) := by
  by_cases hoff : ts.enabled = false ∨ ts.hasCold = false
  · have hcalls : (ts.search slice hot cold now now' tc q).1 = [⟨.hot, withLimit q⟩] := by
      unfold TieredSearcher.search
      rw [if_pos (by rcases hoff with h | h <;> simp [h])]
    rw [hcalls]
    exact ⟨fun _ => Or.inl hoff, fun _ => tiles_single .hot q⟩
  rw [or_iff_right hoff]
  rw [not_or, Bool.not_eq_false, Bool.not_eq_false] at hoff
  rw [search_calls hoff.1 hoff.2]
  have hboth : ts.classifyTier now (withLimit q) = .both ↔ Straddles (ts.hotCutoff now) q := classifyTier_both_iff hq
  cases hroute : ts.classifyTier now (withLimit q) with
  | hot =>
    rw [hroute] at hboth
    exact ⟨fun _ => Or.inl fun h => Tier.noConfusion (hboth.mpr h), fun _ => tiles_single .hot q⟩
  | cold =>
    rw [hroute] at hboth
    exact ⟨fun _ => Or.inl fun h => Tier.noConfusion (hboth.mpr h), fun _ => tiles_single .cold q⟩
  | both =>
    have hstraddle : Straddles (ts.hotCutoff now) q := hboth.mp hroute
    rw [or_iff_right fun h => h hstraddle]
    have hmono := hotCutoff_mono ts hn
    have hfrom : isZero q.tsFrom = true ∨ q.tsFrom < ts.hotCutoff now' :=
      hstraddle.1.imp_right fun h => lt_of_lt_of_le h hmono
    have hlt : isZero q.tsFrom = true ∨ isZero q.tsTo = true ∨ q.tsFrom < q.tsTo := by
      rcases hstraddle with ⟨h | h, h' | h'⟩
      · exact Or.inl h
      · exact Or.inl h
      · exact Or.inr (Or.inl h')
      · exact Or.inr (Or.inr (lt_trans h h'))
    have htiles : Tiles _ (withLimit q) ↔ _ := tiles_halves_iff hq hfrom hlt
    exact htiles

def cutoffQuery : SearchQuery :=
  { tsFrom := juneFirst - 31 * 86400000000000, tsTo := juneFirst - 30 * 86400000000000 + 1 }

/-- Within the two readings of the clock the cutoff passes the end of the query. -/
theorem archive_asked_past_end :
    isZero cutoffQuery.tsFrom = false ∧ juneFirst ≤ juneFirst + 2 ∧
    ¬ Tiles (router.search insertionSlice (answering []) (answering []) juneFirst (juneFirst + 2)
      sampleContext cutoffQuery).1 cutoffQuery := by
  refine ⟨by decide, by decide, fun h => ?_⟩
  have hin := (h.2 cutoffQuery.tsTo).mp
  rw [search_calls rfl rfl] at hin
  exact absurd (hin (by decide)) (by decide)

theorem windows_tile :
    Tiles (router.search insertionSlice (answering []) (answering []) juneFirst juneFirst sampleContext cutoffQuery).1
      cutoffQuery :=
  (search_tiles_iff insertionSlice (answering []) (answering []) sampleContext le_rfl (Or.inl (by decide))).mpr
    (Or.inr (Or.inr (by decide)))

end Logalot
