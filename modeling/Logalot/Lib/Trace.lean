import Mathlib.Data.List.Basic

/-!
# Traces

A machine is driven by a list of inputs. What holds first and is kept by each
input of the list holds in every state along it.
-/

namespace Trace

variable {σ ε : Type} {step : σ → ε → σ} {s : σ} {es : List ε} {i j : Nat}

def stateAt (step : σ → ε → σ) (s : σ) (es : List ε) (i : Nat) : σ := (es.take i).foldl step s

theorem stateAt_succ {e : ε} (h : es[i]? = some e) : stateAt step s es (i + 1) = step (stateAt step s es i) e := by
  unfold stateAt
  rw [List.take_add_one, h, List.foldl_append]
  rfl

theorem stateAt_succ_of_none (h : es[i]? = none) : stateAt step s es (i + 1) = stateAt step s es i := by
  unfold stateAt
  rw [List.take_add_one, h, Option.toList_none, List.append_nil]

theorem stateAt_induction {P : Nat → σ → Prop} (h0 : P 0 s)
    (hstep : ∀ i e, es[i]? = some e → P i (stateAt step s es i) → P (i + 1) (step (stateAt step s es i) e))
    (hend : ∀ i t, es[i]? = none → P i t → P (i + 1) t) (i : Nat) : P i (stateAt step s es i) := by
  induction i with
  | zero => exact h0
  | succ i ih =>
    cases he : es[i]? with
    | none =>
      rw [stateAt_succ_of_none he]
      exact hend i _ he ih
    | some e =>
      rw [stateAt_succ he]
      exact hstep i e he ih

theorem stateAt_invariant {P : σ → Prop} (h0 : P s)
    (hstep : ∀ i e, es[i]? = some e → P (stateAt step s es i) → P (step (stateAt step s es i) e)) (i : Nat) :
    P (stateAt step s es i) :=
  stateAt_induction (P := fun _ => P) h0 hstep (fun _ _ _ h => h) i

theorem stateAt_le {f : σ → Nat} (hij : i ≤ j)
    (hstep : ∀ k e, i ≤ k → k < j → es[k]? = some e → f (step (stateAt step s es k) e) ≤ f (stateAt step s es k)) :
    f (stateAt step s es j) ≤ f (stateAt step s es i) := by
  induction hij with
  | refl => exact Nat.le_refl _
  | @step j hij ih =>
    refine Nat.le_trans ?_ (ih fun k e hik hkj => hstep k e hik (Nat.lt_succ_of_lt hkj))
    cases he : es[j]? with
    | none => exact Nat.le_of_eq (congrArg f (stateAt_succ_of_none he))
    | some e =>
      rw [stateAt_succ he]
      exact hstep j e hij (Nat.lt_succ_self j) he

end Trace
