import Mathlib.Data.List.Basic

/-!
# Runs without the events of others

An observer sees some of the answers of a run. Where the events that are not
relevant leave what the observer can tell apart as it is, the same is seen of the
run in which they do not take place.
-/

namespace Unwinding

variable {σ ε ρ : Type*}

/-- The answers along a run, each with its event. -/
def answers (step : σ → ε → ρ × σ) : σ → List ε → List (ε × ρ)
  | _, [] => []
  | s, e :: es => (e, (step s e).1) :: answers step (step s e).2 es

def final (step : σ → ε → ρ × σ) : σ → List ε → σ := List.foldl fun s e => (step s e).2

/-- States that `R` relates are the same to the observer. -/
structure Unwinds (step : σ → ε → ρ × σ) (ok : ε → Prop) (R : σ → σ → Prop) (relevant seen : ε → Bool) : Prop where
  keep : ∀ {s s' e}, ok e → R s s' → relevant e = true → R (step s e).2 (step s' e).2
  skip : ∀ {s s' e}, ok e → R s s' → relevant e = false → R (step s e).2 s'
  relevant : ∀ {e}, seen e = true → relevant e = true
  answer : ∀ {s s' e}, ok e → R s s' → seen e = true → (step s e).1 = (step s' e).1

variable {step : σ → ε → ρ × σ} {ok : ε → Prop} {R : σ → σ → Prop} {relevant seen : ε → Bool}

theorem Unwinds.run (h : Unwinds step ok R relevant seen) {es : List ε} {s s' : σ} (hok : ∀ e ∈ es, ok e)
    (hs : R s s') :
    (answers step s es).filter (fun p => seen p.1) =
        (answers step s' (es.filter relevant)).filter (fun p => seen p.1) ∧
      R (final step s es) (final step s' (es.filter relevant)) := by
  induction es generalizing s s' with
  | nil => exact ⟨rfl, hs⟩
  | cons e es ih =>
    obtain ⟨he, hok⟩ := List.forall_mem_cons.mp hok
    cases hr : relevant e with
    | true =>
      obtain ⟨ha, hf⟩ := ih hok (h.keep he hs hr)
      rw [List.filter_cons_of_pos hr]
      refine ⟨?_, hf⟩
      by_cases hseen : seen e = true
      · simp only [answers, List.filter_cons, hseen, if_true, ha, h.answer he hs hseen]
      · simp only [answers, List.filter_cons, hseen, Bool.false_eq_true, if_false, ha]
    | false =>
      obtain ⟨ha, hf⟩ := ih hok (h.skip he hs hr)
      have hseen : ¬ seen e = true := fun hseen => by simp [h.relevant hseen] at hr
      rw [List.filter_cons_of_neg (by simp [hr])]
      refine ⟨?_, hf⟩
      simp only [answers, List.filter_cons, hseen, Bool.false_eq_true, if_false, ha]

/-- An invariant of single steps. -/
theorem final_induction {I : σ → Prop} (hstep : ∀ s e, I s → I (step s e).2) (es : List ε) {s : σ} (hs : I s) :
    I (final step s es) :=
  List.foldlRecOn es _ hs fun s h e _ => hstep s e h

end Unwinding
