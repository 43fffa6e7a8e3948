import Mathlib.Logic.Function.Basic
import Mathlib.Logic.Relation

/-!
# Transition systems

A system is a predicate on first states and a step relation. What holds first
and is kept by every step holds in every reachable state.
-/

namespace Runs

structure System (σ : Type*) where
  init : σ → Prop
  step : σ → σ → Prop

variable {σ ι α : Type*} {S : System σ} {P : σ → Prop} {f : ι → Option α}

inductive System.Reachable (S : System σ) : σ → Prop where
  | init {s : σ} : S.init s → S.Reachable s
  | step {s t : σ} : S.Reachable s → S.step s t → S.Reachable t

/-- **Invariants.** A step may use that it starts in a reachable state. -/
theorem System.Reachable.invariant {s : σ} (hr : S.Reachable s) (hi : ∀ s, S.init s → P s)
    (hs : ∀ s t, S.Reachable s → P s → S.step s t → P t) : P s := by
  induction hr with
  | init h => exact hi _ h
  | step hr h ih => exact hs _ _ hr ih h

theorem System.Reachable.steps {s t : σ} (hr : S.Reachable s) (h : Relation.ReflTransGen S.step s t) :
    S.Reachable t := by
  induction h with
  | refl => exact hr
  | tail _ h ih => exact .step ih h

theorem System.Reachable.mono {T : System σ} {s : σ} (hr : S.Reachable s) (hi : ∀ s, S.init s → T.init s)
    (hs : ∀ s t, S.step s t → T.step s t) : T.Reachable s := by
  induction hr with
  | init h => exact .init (hi _ h)
  | step _ h ih => exact .step ih (hs _ _ h)

def System.restrict (S : System σ) (ok : σ → σ → Prop) : System σ :=
  { init := S.init, step := fun s t => S.step s t ∧ ok s t }

/-! ## Components -/

theorem update_cases [DecidableEq ι] {i j : ι} {a b : α}
    (h : Function.update f i (some a) j = some b) : (j = i ∧ b = a) ∨ (j ≠ i ∧ f j = some b) := by
  by_cases e : j = i
  · subst e
    rw [Function.update_self] at h
    exact Or.inl ⟨rfl, (Option.some.inj h).symm⟩
  · rw [Function.update_of_ne e] at h
    exact Or.inr ⟨e, h⟩

theorem update_apply_cases [DecidableEq ι] (f : ι → α) (i j : ι) (a : α) :
    Function.update f i a j = f j ∨ (j = i ∧ Function.update f i a j = a) := by
  by_cases e : j = i
  · exact Or.inr ⟨e, by rw [e, Function.update_self]⟩
  · exact Or.inl (Function.update_of_ne e ..)

theorem update_related [DecidableEq ι] {i j : ι} {a b b' : α} {R : α → α → Prop}
    (ha : f i = some a) (hr : R a a) (hb : f j = some b) (h : R b b') :
    ∃ a', Function.update f j (some b') i = some a' ∧ R a a' := by
  by_cases e : i = j
  · subst e
    obtain rfl := Option.some.inj (ha.symm.trans hb)
    exact ⟨b', Function.update_self .., h⟩
  · exact ⟨a, (Function.update_of_ne e ..).trans ha, hr⟩

theorem update_begun [DecidableEq ι] {i j : ι} {a b : α} (ha : f i = some a)
    (hj : f j = none) : Function.update f j (some b) i = some a := by
  have e : i ≠ j := by
    rintro rfl
    rw [ha] at hj
    cases hj
  exact (Function.update_of_ne e ..).trans ha

theorem update_lone [DecidableEq ι] {f : ι → α} {i : ι} {rest : α} (hf : ∀ j, j ≠ i → f j = rest) (a : α) :
    Function.update f i a = fun j => if j = i then a else rest := by
  funext j
  by_cases e : j = i
  · rw [e, Function.update_self, if_pos rfl]
  · rw [Function.update_of_ne e, if_neg e]
    exact hf j e

end Runs
