import Mathlib.Data.List.Basic
import Mathlib.Logic.Function.Basic

/-!
# Services over a keyed store

Each event belongs to one key. A service is local when what it answers and what
it leaves at that key depend only on what the store has there, and no other key
changes.
-/

namespace Keyed

variable {κ β ε ρ : Type*}

structure Local (key : ε → κ) (act : (κ → β) → ε → ρ × (κ → β)) : Prop where
  frame : ∀ s e k, k ≠ key e → (act s e).2 k = s k
  answer : ∀ {s s' e}, s (key e) = s' (key e) → (act s e).1 = (act s' e).1
  stored : ∀ {s s' e}, s (key e) = s' (key e) → (act s e).2 (key e) = (act s' e).2 (key e)

/-- The answers along a run, each with its event. -/
def answers (act : (κ → β) → ε → ρ × (κ → β)) : (κ → β) → List ε → List (ε × ρ)
  | _, [] => []
  | s, e :: es => (e, (act s e).1) :: answers act (act s e).2 es

section

variable [DecidableEq κ] {key : ε → κ} {act : (κ → β) → ε → ρ × (κ → β)}

theorem Local.of_update (h : ∀ e, ∃ g : β → ρ × β, ∀ s, act s e =
    ((g (s (key e))).1, Function.update s (key e) (g (s (key e))).2)) : Local key act where
  frame s e k hk := by
    obtain ⟨g, hg⟩ := h e
    rw [hg]
    exact Function.update_of_ne hk _ _
  answer {s s' e} hs := by
    obtain ⟨g, hg⟩ := h e
    rw [hg, hg, hs]
  stored {s s' e} hs := by
    obtain ⟨g, hg⟩ := h e
    simp [hg, hs]

theorem answers_filter (h : Local key act) {k : κ} : ∀ {es : List ε} {s s' : κ → β}, s k = s' k →
    (answers act s es).filter (fun p => key p.1 = k) = answers act s' (es.filter (fun e => key e = k))
  | [], _, _, _ => rfl
  | e :: es, s, s', hs => by
    rw [answers]
    by_cases hk : key e = k
    · subst hk
      rw [List.filter_cons_of_pos (by simp), List.filter_cons_of_pos (by simp), answers, h.answer hs,
        answers_filter h (h.stored hs)]
    · rw [List.filter_cons_of_neg (by simpa using hk), List.filter_cons_of_neg (by simpa using hk)]
      exact answers_filter h ((h.frame s e k (Ne.symm hk)).trans hs)

/-- **Non-interference.** Two runs whose events differ only at one key give the same answers at any other. -/
theorem answers_of_other (h : Local key act) {a b : κ} (hab : a ≠ b) (s : κ → β) {es es' : List ε}
    (he : es.filter (fun e => key e ≠ a) = es'.filter (fun e => key e ≠ a)) :
    (answers act s es).filter (fun p => key p.1 = b) = (answers act s es').filter (fun p => key p.1 = b) := by
  have hf : ∀ l : List ε, (l.filter (fun e => key e ≠ a)).filter (fun e => key e = b) =
      l.filter (fun e => key e = b) := by
    intro l
    rw [List.filter_filter]
    refine List.filter_congr fun e _ => ?_
    by_cases hk : key e = b
    · simp [hk, hab.symm]
    · simp [hk]
  have hb : ∀ l, (answers act s l).filter (fun p => key p.1 = b) = answers act s (l.filter fun e => key e = b) :=
    fun _ => answers_filter h rfl
  rw [hb, hb, ← hf es, he, hf]

end

end Keyed
