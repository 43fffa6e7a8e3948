import Mathlib.Data.List.Basic

/-!
# Histories

A history is a list of events to which a run appends. `Before P` says of each
event that what happened before it satisfies `P`: it holds of a longer history
once it holds of the event that was added.
-/

namespace History

variable {ε : Type*} {P Q : List ε → ε → Prop} {l : List ε}

def Before (P : List ε → ε → Prop) (l : List ε) : Prop := ∀ l₁ e l₂, l = l₁ ++ e :: l₂ → P l₁ e

theorem before_nil : Before P [] := by
  intro l₁ e l₂ h
  exact absurd h.symm (by simp)

theorem Before.append (h : Before P l) {e : ε} (he : P l e) : Before P (l ++ [e]) := by
  intro l₁ x l₂ hl
  -- the event is the last one, or it stands in the history as it was
  rcases l₂.eq_nil_or_concat with rfl | ⟨l₂, y, rfl⟩
  · obtain ⟨rfl, hx⟩ := List.append_inj' hl rfl
    obtain rfl := List.singleton_inj.mp hx
    exact he
  · rw [List.concat_eq_append, ← List.cons_append, ← List.append_assoc] at hl
    obtain ⟨hl', -⟩ := List.append_inj' hl rfl
    exact h l₁ x l₂ hl'

theorem Before.mono (h : Before P l) (hPQ : ∀ l₁ e, l₁ <+: l → e ∈ l → P l₁ e → Q l₁ e) : Before Q l := by
  intro l₁ e l₂ hl
  refine hPQ l₁ e ?_ ?_ (h l₁ e l₂ hl)
  · rw [hl]
    exact List.prefix_append ..
  · rw [hl]
    exact List.mem_append_right _ List.mem_cons_self

theorem exists_mem_append {p : ε → Prop} {l' : List ε} (h : ∃ e ∈ l, p e) : ∃ e ∈ l ++ l', p e := by
  obtain ⟨e, he, hp⟩ := h
  exact ⟨e, List.mem_append_left _ he, hp⟩

theorem exists_mem_concat {p : ε → Prop} {e : ε} (h : p e) : ∃ x ∈ l ++ [e], p x :=
  ⟨e, List.mem_append_right _ (List.mem_singleton.mpr rfl), h⟩

end History
