import Mathlib.Data.List.Basic
import Mathlib.Order.Lattice

/-!
# Keyset pagination

A collection listed in strictly decreasing order of a key is fetched page by
page: a page holds up to `limit` elements below the cursor, and when more follow
the key of its last element is the next cursor. Pages are fetched from a
growing sequence of collections; what is there at the first fetch is returned
whatever is added later.
-/

namespace Keyset

section
variable {α κ : Type} [LinearOrder κ] (key : α → κ)

def Desc (l : List α) : Prop := l.Pairwise fun a b => key b < key a

def below : Option κ → List α → List α
  | none, l => l
  | some k, l => l.filter (key · < k)

/-- One element more than the limit tells that another page follows. -/
def page (limit : Nat) (c : Option κ) (l : List α) : List α × Option κ :=
  if (below key c l).length ≤ limit then (below key c l, none)
  else ((below key c l).take limit, ((below key c l).take limit).getLast?.map key)

/-- The pages fetched by following cursors, the `i`-th from the collection `S i`. -/
inductive Pages (limit : Nat) : Option κ → (Nat → List α) → List (List α) → Prop
  | last {c S p} : page key limit c (S 0) = (p, none) → Pages limit c S [p]
  | next {c S p k ps} : page key limit c (S 0) = (p, some k) → Pages limit (some k) (fun i => S (i + 1)) ps →
      Pages limit c S (p :: ps)

variable {key} {limit : Nat} {l : List α} {c : Option κ}

theorem desc_below (h : Desc key l) : ∀ c, Desc key (below key c l)
  | none => h
  | some _ => h.filter _

theorem mem_below {x : α} :
    x ∈ below key c l ↔ x ∈ l ∧ ∀ k, c = some k → key x < k := by
  cases c <;> simp [below]

theorem filter_lt_last (h : Desc key l) {z : α} (hz : (l.take limit).getLast? = some z) :
    l.filter (key · < key z) = l.drop limit := by
  obtain ⟨a, ha⟩ := List.getLast?_eq_some_iff.mp hz
  have hl : l = a ++ z :: l.drop limit := by
    rw [← List.singleton_append, ← List.append_assoc, ← ha, List.take_append_drop]
  have hd : Desc key (a ++ z :: l.drop limit) := hl ▸ h
  obtain ⟨-, h2, h3⟩ := List.pairwise_append.mp hd
  have e1 : a.filter (key · < key z) = [] := List.filter_eq_nil_iff.mpr fun x hx => by
    simpa using le_of_lt (h3 x hx z List.mem_cons_self)
  have e2 : (l.drop limit).filter (key · < key z) = l.drop limit := List.filter_eq_self.mpr fun x hx => by
    simpa using (List.pairwise_cons.mp h2).1 x hx
  conv_lhs => rw [hl]
  simp [e1, e2]

theorem page_cases (hl : 0 < limit) (h : Desc key l) :
    ((below key c l).length ≤ limit ∧ page key limit c l = (below key c l, none)) ∨
    (limit < (below key c l).length ∧ ∃ k, page key limit c l = ((below key c l).take limit, some k) ∧
      below key (some k) l = (below key c l).drop limit ∧ (∀ k', c = some k' → k < k') ∧
      ∀ x ∈ (below key c l).take limit, k ≤ key x) := by
  unfold page
  by_cases hn : (below key c l).length ≤ limit
  · exact .inl ⟨hn, if_pos hn⟩
  refine .inr ⟨Nat.lt_of_not_le hn, ?_⟩
  have hne : (below key c l).take limit ≠ [] := by
    rw [Ne, List.take_eq_nil_iff]
    rintro (rfl | e)
    · exact absurd hl (Nat.lt_irrefl _)
    · rw [e] at hn
      exact hn (Nat.zero_le _)
  obtain ⟨z, hz⟩ : ∃ z, ((below key c l).take limit).getLast? = some z :=
    ⟨_, List.getLast?_eq_some_getLast hne⟩
  have hzm : z ∈ below key c l := List.mem_of_mem_take (List.mem_of_getLast? hz)
  refine ⟨key z, by rw [if_neg hn, hz]; rfl, ?_, fun k' hk' => (mem_below.mp hzm).2 k' hk', fun x hx => ?_⟩
  · rw [← filter_lt_last (desc_below h c) hz]
    -- the cursor only moves down, so filtering again by the old one changes nothing
    cases c with
    | none => rfl
    | some k' =>
      simp only [below, List.filter_filter]
      refine List.filter_congr fun x _ => ?_
      have hk := (mem_below.mp hzm).2 k' rfl
      by_cases hx : key x < key z
      · simp [hx, lt_trans hx hk]
      · simp [hx]
  · obtain ⟨a, ha⟩ := List.getLast?_eq_some_iff.mp hz
    have hd : Desc key (a ++ [z]) := ha ▸ (desc_below h c).sublist (List.take_sublist _ _)
    rw [ha, List.mem_append, List.mem_singleton] at hx
    rcases hx with hx | rfl
    · exact le_of_lt ((List.pairwise_append.mp hd).2.2 x hx z (List.mem_singleton_self z))
    · exact le_refl _

/-! ## Pages of a growing collection -/

/-- **Completeness.** The pages are in strictly decreasing order, hold only
elements that were there, and hold every element of the first collection. -/
theorem complete_of_pages (hl : 0 < limit) {S : Nat → List α} {ps : List (List α)}
    (h : Pages key limit c S ps) (hd : ∀ i, Desc key (S i)) (hg : ∀ i, S i ⊆ S (i + 1)) :
    Desc key ps.flatten ∧ (∀ x ∈ ps.flatten, (∃ i, x ∈ S i) ∧ ∀ k, c = some k → key x < k) ∧
      ∀ x ∈ below key c (S 0), x ∈ ps.flatten := by
  induction h with
  | @last c S p hp =>
    obtain ⟨-, he⟩ | ⟨-, k, he, -⟩ := page_cases (c := c) hl (hd 0)
    · obtain rfl : p = below key c (S 0) := (Prod.mk.inj (hp.symm.trans he)).1
      simp only [List.flatten_cons, List.flatten_nil, List.append_nil]
      exact ⟨desc_below (hd 0) c, fun x hx => ⟨⟨0, (mem_below.mp hx).1⟩, (mem_below.mp hx).2⟩, fun x hx => hx⟩
    · cases (Prod.mk.inj (hp.symm.trans he)).2
  | @next c S p k ps hp _ ih =>
    obtain ⟨-, he⟩ | ⟨-, k', he, hrest, hk, hle⟩ := page_cases (c := c) hl (hd 0)
    · cases (Prod.mk.inj (hp.symm.trans he)).2
    · obtain ⟨rfl, e⟩ := Prod.mk.inj (hp.symm.trans he)
      cases e
      obtain ⟨i1, i2, i3⟩ := ih (fun i => hd (i + 1)) fun i => hg (i + 1)
      rw [List.flatten_cons]
      refine ⟨?_, fun x hx => ?_, fun x hx => ?_⟩
      · -- within the page, within the later pages, and from the page to the later ones
        refine List.pairwise_append.mpr ⟨(desc_below (hd 0) c).sublist (List.take_sublist _ _), i1, fun a ha b hb => ?_⟩
        exact lt_of_lt_of_le ((i2 b hb).2 k rfl) (hle a ha)
      · rcases List.mem_append.mp hx with hx | hx
        · have hm := mem_below.mp (List.mem_of_mem_take hx)
          exact ⟨⟨0, hm.1⟩, hm.2⟩
        · obtain ⟨⟨i, hi⟩, hlt⟩ := i2 x hx
          exact ⟨⟨i + 1, hi⟩, fun k' hk' => lt_trans (hlt k rfl) (hk k' hk')⟩
      · rw [← List.take_append_drop limit (below key c (S 0)), List.mem_append, ← hrest] at hx
        rcases hx with hx | hx
        · exact List.mem_append_left _ hx
        · refine List.mem_append_right _ (i3 x (mem_below.mpr ⟨hg 0 (mem_below.mp hx).1, (mem_below.mp hx).2⟩))

theorem length_of_pages (hl : 0 < limit) {S : Nat → List α} {ps : List (List α)}
    (h : Pages key limit c S ps) (hd : Desc key l) (hs : ∀ i, S i = l) :
    ps.length = max 1 (((below key c l).length + limit - 1) / limit) := by
  induction h with
  | @last c S p hp =>
    rw [hs 0] at hp
    obtain ⟨hn, he⟩ | ⟨-, k, he, -⟩ := page_cases (c := c) hl hd
    · have : ((below key c l).length + limit - 1) / limit ≤ 1 := by
        rw [← Nat.lt_succ_iff, Nat.div_lt_iff_lt_mul hl]
        omega
      simp only [List.length_cons, List.length_nil]
      omega
    · cases (Prod.mk.inj (hp.symm.trans he)).2
  | @next c S p k ps hp _ ih =>
    rw [hs 0] at hp
    obtain ⟨-, he⟩ | ⟨hn, k', he, hrest, -, -⟩ := page_cases (c := c) hl hd
    · cases (Prod.mk.inj (hp.symm.trans he)).2
    · obtain ⟨-, e⟩ := Prod.mk.inj (hp.symm.trans he)
      cases e
      have hlen : (below key (some k) l).length = (below key c l).length - limit := by rw [hrest, List.length_drop]
      rw [List.length_cons, ih fun i => hs (i + 1), hlen]
      generalize (below key c l).length = n at hn ⊢
      -- one page more than for the `n - limit` elements that remain
      obtain ⟨m, rfl⟩ : ∃ m, n = limit + m := ⟨n - limit, by omega⟩
      have e1 : limit + m - limit + limit - 1 = m + limit - 1 := by omega
      have e2 : limit + m + limit - 1 = m + limit - 1 + limit := by omega
      have e3 : 1 ≤ (m + limit - 1) / limit := (Nat.le_div_iff_mul_le hl).mpr (by omega)
      rw [e1, e2, Nat.add_div_right _ hl]
      omega

theorem exists_pages (hl : 0 < limit) : ∀ (m : Nat) (S : Nat → List α) (c : Option κ),
    (∀ i, Desc key (S i)) → (∀ i, m ≤ i → S i = S m) → ∃ ps, Pages key limit c S ps := by
  -- a collection that never changes: by the number of elements that remain
  have fixed : ∀ (n : Nat) (l : List α) (c : Option κ), Desc key l → (below key c l).length ≤ n →
      ∃ ps, Pages key limit c (fun _ => l) ps := by
    intro n
    induction n with
    | zero =>
      intro l c hd hn
      obtain ⟨-, he⟩ | ⟨hlt, -⟩ := page_cases (c := c) hl hd
      · exact ⟨_, .last he⟩
      · omega
    | succ n ih =>
      intro l c hd hn
      obtain ⟨-, he⟩ | ⟨hlt, k, he, hrest, -, -⟩ := page_cases (c := c) hl hd
      · exact ⟨_, .last he⟩
      · obtain ⟨ps, hps⟩ := ih l (some k) hd (by rw [hrest, List.length_drop]; omega)
        exact ⟨_, .next he hps⟩
  intro m
  induction m with
  | zero =>
    intro S c hd hs
    have hS : S = fun _ => S 0 := funext fun i => hs i (Nat.zero_le i)
    rw [hS]
    exact fixed _ _ c (hd 0) (Nat.le_refl _)
  | succ m ih =>
    intro S c hd hs
    obtain ⟨-, he⟩ | ⟨-, k, he, -⟩ := page_cases (c := c) hl (hd 0)
    · exact ⟨_, .last he⟩
    · obtain ⟨ps, hps⟩ := ih (fun i => S (i + 1)) (some k) (fun i => hd (i + 1)) fun i hi => hs (i + 1) (by omega)
      exact ⟨_, .next he hps⟩

end

end Keyset
