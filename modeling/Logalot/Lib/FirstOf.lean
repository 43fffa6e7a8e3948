import Mathlib.Data.List.Dedup
import Mathlib.Data.List.Perm.Lattice

/-!
# The first of each key

A loop over a list with a set of keys it has seen: an entry whose key was seen
is dropped, and one that has no key is always kept.
-/

namespace FirstOf

variable {α β κ ν : Type*} [DecidableEq κ] [DecidableEq ν] {key : α → Option κ} {seen : List κ} {l : List α}

def firstOf (key : α → Option κ) : (seen : List κ) → List α → List α
  | _, [] => []
  | seen, a :: l =>
    match key a with
    | none => a :: firstOf key seen l
    | some k => if k ∈ seen then firstOf key seen l else a :: firstOf key (k :: seen) l

theorem firstOf_cons_none {a : α} (h : key a = none) : firstOf key seen (a :: l) = a :: firstOf key seen l := by
  rw [firstOf, h]

theorem firstOf_cons_seen {a : α} {k : κ} (h : key a = some k) (hk : k ∈ seen) :
    firstOf key seen (a :: l) = firstOf key seen l := by
  rw [firstOf, h]
  exact if_pos hk

theorem firstOf_cons_new {a : α} {k : κ} (h : key a = some k) (hk : k ∉ seen) :
    firstOf key seen (a :: l) = a :: firstOf key (k :: seen) l := by
  rw [firstOf, h]
  exact if_neg hk

variable {l : List α}

theorem firstOf_congr : ∀ {seen seen' : List κ}, (∀ k, k ∈ seen ↔ k ∈ seen') →
    firstOf key seen l = firstOf key seen' l := by
  induction l with
  | nil =>
    intro seen seen' _
    rfl
  | cons a l ih =>
    intro seen seen' h
    cases hk : key a with
    | none => rw [firstOf_cons_none hk, firstOf_cons_none hk, ih h]
    | some k =>
      by_cases hs : k ∈ seen
      · rw [firstOf_cons_seen hk hs, firstOf_cons_seen hk ((h k).mp hs), ih h]
      · rw [firstOf_cons_new hk hs, firstOf_cons_new hk fun hs' => hs ((h k).mpr hs')]
        have hc : ∀ k', k' ∈ k :: seen ↔ k' ∈ k :: seen' := fun k' => by simp only [List.mem_cons, h k']
        rw [ih hc]

theorem firstOf_append : ∀ {seen : List κ} (l' : List α),
    firstOf key seen (l ++ l') = firstOf key seen l ++ firstOf key (l.filterMap key ++ seen) l' := by
  induction l with
  | nil =>
    intro seen l'
    rfl
  | cons a l ih =>
    intro seen l'
    rw [List.cons_append]
    cases hk : key a with
    | none => rw [firstOf_cons_none hk, firstOf_cons_none hk, List.filterMap_cons_none hk, ih, List.cons_append]
    | some k =>
      rw [List.filterMap_cons_some hk]
      by_cases hs : k ∈ seen
      · rw [firstOf_cons_seen hk hs, firstOf_cons_seen hk hs, ih]
        congr 1
        apply firstOf_congr
        intro k'
        simp only [List.cons_append, List.mem_cons, List.mem_append]
        exact ⟨Or.inr, fun h => h.elim (fun he => Or.inr (he ▸ hs)) id⟩
      · rw [firstOf_cons_new hk hs, firstOf_cons_new hk hs, ih, List.cons_append]
        congr 2
        apply firstOf_congr
        intro k'
        simp only [List.cons_append, List.mem_cons, List.mem_append]
        exact or_left_comm

theorem firstOf_of_nodup : ∀ {seen : List κ}, (l.filterMap key).Nodup →
    firstOf key seen l = l.filter fun a => (key a).all (· ∉ seen) := by
  induction l with
  | nil =>
    intro seen _
    rfl
  | cons a l ih =>
    intro seen hn
    cases hk : key a with
    | none =>
      rw [List.filterMap_cons_none hk] at hn
      rw [firstOf_cons_none hk, ih hn, List.filter_cons_of_pos (by rw [hk]; rfl)]
    | some k =>
      rw [List.filterMap_cons_some hk, List.nodup_cons] at hn
      by_cases hs : k ∈ seen
      · rw [firstOf_cons_seen hk hs, ih hn.2, List.filter_cons_of_neg (by simp [hk, hs])]
      · rw [firstOf_cons_new hk hs, ih hn.2, List.filter_cons_of_pos (by simp [hk, hs])]
        congr 1
        apply List.filter_congr
        intro b hb
        cases hkb : key b with
        | none => rfl
        | some k' =>
          -- no later entry has the key just seen
          have hne : k' ≠ k := fun he => hn.1 (List.mem_filterMap.mpr ⟨b, hb, he ▸ hkb⟩)
          simp [hne]

/-! ## What is kept -/

theorem firstOf_sublist : ∀ {seen : List κ}, (firstOf key seen l).Sublist l := by
  induction l with
  | nil =>
    intro seen
    exact List.Sublist.refl _
  | cons a l ih =>
    intro seen
    cases hk : key a with
    | none =>
      rw [firstOf_cons_none hk]
      exact ih.cons_cons a
    | some k =>
      by_cases hs : k ∈ seen
      · rw [firstOf_cons_seen hk hs]
        exact ih.cons a
      · rw [firstOf_cons_new hk hs]
        exact ih.cons_cons a

theorem mem_keys_firstOf : ∀ {seen : List κ} {k : κ},
    k ∈ (firstOf key seen l).filterMap key ↔ k ∈ l.filterMap key ∧ k ∉ seen := by
  induction l with
  | nil =>
    intro seen k
    simp [firstOf]
  | cons a l ih =>
    intro seen k
    cases hk : key a with
    | none => rw [firstOf_cons_none hk, List.filterMap_cons_none hk, List.filterMap_cons_none hk, ih]
    | some k' =>
      rw [List.filterMap_cons_some hk, List.mem_cons]
      by_cases hs : k' ∈ seen
      · rw [firstOf_cons_seen hk hs, ih]
        exact ⟨fun h => ⟨Or.inr h.1, h.2⟩, fun h => ⟨h.1.resolve_left fun he => h.2 (he ▸ hs), h.2⟩⟩
      · rw [firstOf_cons_new hk hs, List.filterMap_cons_some hk, List.mem_cons, ih, List.mem_cons, not_or]
        constructor
        · rintro (rfl | ⟨hl, -, hn⟩)
          · exact ⟨Or.inl rfl, hs⟩
          · exact ⟨Or.inr hl, hn⟩
        · rintro ⟨he | hl, hn⟩
          · exact Or.inl he
          · by_cases he : k = k'
            · exact Or.inl he
            · exact Or.inr ⟨hl, he, hn⟩

theorem nodup_keys_firstOf : ∀ {seen : List κ}, ((firstOf key seen l).filterMap key).Nodup := by
  induction l with
  | nil =>
    intro seen
    exact List.nodup_nil
  | cons a l ih =>
    intro seen
    cases hk : key a with
    | none =>
      rw [firstOf_cons_none hk, List.filterMap_cons_none hk]
      exact ih
    | some k =>
      by_cases hs : k ∈ seen
      · rw [firstOf_cons_seen hk hs]
        exact ih
      · rw [firstOf_cons_new hk hs, List.filterMap_cons_some hk, List.nodup_cons, mem_keys_firstOf]
        exact ⟨fun h => h.2 List.mem_cons_self, ih⟩

theorem filter_none_firstOf : ∀ {seen : List κ},
    ((firstOf key seen l).filter fun a => (key a).isNone) = l.filter fun a => (key a).isNone := by
  induction l with
  | nil =>
    intro seen
    rfl
  | cons a l ih =>
    intro seen
    cases hk : key a with
    | none =>
      rw [firstOf_cons_none hk, List.filter_cons_of_pos (by rw [hk]; rfl),
        List.filter_cons_of_pos (by rw [hk]; rfl), ih]
    | some k =>
      by_cases hs : k ∈ seen
      · rw [firstOf_cons_seen hk hs, ih, List.filter_cons_of_neg (by simp [hk])]
      · rw [firstOf_cons_new hk hs, List.filter_cons_of_neg (by simp [hk]), ih, List.filter_cons_of_neg (by simp [hk])]

theorem countP_firstOf {p : α → Bool} (hp : ∀ a b k, key a = some k → key b = some k → p a = p b) (l : List α) :
    (firstOf key [] l).countP p =
      (l.filter fun a => (key a).isNone).countP p + ((l.filter p).filterMap key).dedup.length := by
  have hkeys : (((firstOf key [] l).filter p).filterMap key).Perm ((l.filter p).filterMap key).dedup := by
    rw [List.perm_ext_iff_of_nodup _ (List.nodup_dedup _)]
    · intro k
      rw [List.mem_dedup]
      -- both lists have an entry with the key
      have hmem : k ∈ (firstOf key [] l).filterMap key ↔ k ∈ l.filterMap key ∧ k ∉ [] := mem_keys_firstOf
      constructor
      · intro h
        obtain ⟨a, ha, hka⟩ := List.mem_filterMap.mp h
        obtain ⟨ha, hpa⟩ := List.mem_filter.mp ha
        obtain ⟨b, hb, hkb⟩ := List.mem_filterMap.mp (hmem.mp (List.mem_filterMap.mpr ⟨a, ha, hka⟩)).1
        exact List.mem_filterMap.mpr ⟨b, List.mem_filter.mpr ⟨hb, hp a b k hka hkb ▸ hpa⟩, hkb⟩
      · intro h
        obtain ⟨a, ha, hka⟩ := List.mem_filterMap.mp h
        obtain ⟨ha, hpa⟩ := List.mem_filter.mp ha
        have hk := hmem.mpr ⟨List.mem_filterMap.mpr ⟨a, ha, hka⟩, List.not_mem_nil⟩
        obtain ⟨b, hb, hkb⟩ := List.mem_filterMap.mp hk
        exact List.mem_filterMap.mpr ⟨b, List.mem_filter.mpr ⟨hb, hp a b k hka hkb ▸ hpa⟩, hkb⟩
    · exact (List.filter_sublist.filterMap key).nodup nodup_keys_firstOf
  have hlen := hkeys.length_eq
  rw [List.length_filterMap_eq_countP, List.countP_filter] at hlen
  rw [List.countP_eq_countP_filter_add _ p fun a => (key a).isNone, filter_none_firstOf, ← hlen]
  simp only [List.countP_filter, Option.not_isNone, Bool.and_comm]

theorem map_firstOf {key' : β → Option ν} (f : α → β) (g : κ → ν) : ∀ {seen : List κ},
    (∀ a ∈ l, key' (f a) = (key a).map g) →
    (∀ k ∈ seen ++ l.filterMap key, ∀ k' ∈ seen ++ l.filterMap key, g k = g k' → k = k') →
    (firstOf key seen l).map f = firstOf key' (seen.map g) (l.map f) := by
  induction l with
  | nil =>
    intro seen _ _
    rfl
  | cons a l ih =>
    intro seen hkey hinj
    have hl : ∀ b ∈ l, key' (f b) = (key b).map g := fun b hb => hkey b (List.mem_cons_of_mem _ hb)
    have ha := hkey a List.mem_cons_self
    rw [List.map_cons]
    cases hk : key a with
    | none =>
      rw [List.filterMap_cons_none hk] at hinj
      rw [hk] at ha
      rw [firstOf_cons_none hk, firstOf_cons_none ha, List.map_cons, ih hl hinj]
    | some k =>
      rw [List.filterMap_cons_some hk] at hinj
      rw [hk] at ha
      by_cases hs : k ∈ seen
      · rw [firstOf_cons_seen hk hs, firstOf_cons_seen ha (List.mem_map_of_mem hs)]
        have hsub : seen ++ l.filterMap key ⊆ seen ++ k :: l.filterMap key :=
          (List.Sublist.append_left (List.sublist_cons_self _ _) _).subset
        exact ih hl fun k₁ h₁ k₂ h₂ => hinj k₁ (hsub h₁) k₂ (hsub h₂)
      · have hs' : g k ∉ seen.map g := by
          intro h
          obtain ⟨k', hk', he⟩ := List.mem_map.mp h
          have := hinj k' (List.mem_append_left _ hk') k (List.mem_append_right _ List.mem_cons_self) he
          exact hs (this ▸ hk')
        rw [firstOf_cons_new hk hs, firstOf_cons_new ha hs', List.map_cons, ih hl]
        · rfl
        · intro k₁ h₁ k₂ h₂
          have hperm : (seen ++ k :: l.filterMap key).Perm (k :: seen ++ l.filterMap key) := List.perm_middle
          exact hinj k₁ (hperm.mem_iff.mpr h₁) k₂ (hperm.mem_iff.mpr h₂)

end FirstOf
