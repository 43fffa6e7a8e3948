import Mathlib.Order.Basic

/-!
# Tables whose rows are marked and never removed

The order on rows says that one is a later version of another. A table grows
into another if it has a later version of each of its rows.
-/

namespace Table

variable {ρ : Type*} [Preorder ρ] {a b c : List ρ}

def Grows (a b : List ρ) : Prop := ∀ r ∈ a, ∃ r' ∈ b, r ≤ r'

theorem Grows.refl (a : List ρ) : Grows a a := fun r hr => ⟨r, hr, le_refl r⟩

theorem Grows.trans (h₁ : Grows a b) (h₂ : Grows b c) : Grows a c := by
  intro r hr
  obtain ⟨r', hr', h'⟩ := h₁ r hr
  obtain ⟨r'', hr'', h''⟩ := h₂ r' hr'
  exact ⟨r'', hr'', h'.trans h''⟩

theorem grows_map {f : ρ → ρ} (hf : ∀ r, r ≤ f r) (a : List ρ) : Grows a (a.map f) :=
  fun r hr => ⟨f r, List.mem_map_of_mem hr, hf r⟩

theorem grows_append (a b : List ρ) : Grows a (a ++ b) :=
  fun r hr => ⟨r, List.mem_append_left b hr, le_refl r⟩

theorem Grows.exists_mem (h : Grows a b) {P : ρ → Prop} (hP : ∀ r r', r ≤ r' → P r → P r') :
    (∃ r ∈ a, P r) → ∃ r ∈ b, P r := by
  rintro ⟨r, hr, hp⟩
  obtain ⟨r', hr', hle⟩ := h r hr
  exact ⟨r', hr', hP r r' hle hp⟩

end Table
