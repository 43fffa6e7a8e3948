import Mathlib.Algebra.BigOperators.Group.List.Basic
import Mathlib.Algebra.Order.Field.Basic
import Mathlib.Tactic.Linarith

/-!
# Token buckets

A bucket holds a level up to a capacity. Before each request there is an
inflow, of which what exceeds the capacity is lost; a request is served if the
level is at least one, and takes one.
-/

namespace TokenBucket

variable {K : Type*} [Field K] [LinearOrder K]

def fill (cap level inflow : K) : K := min cap (level + inflow)

def drain (level : K) : K := if 1 ≤ level then level - 1 else level

def served (cap : K) : K → List K → Nat
  | _, [] => 0
  | level, x :: xs =>
    (if 1 ≤ fill cap level x then 1 else 0) + served cap (drain (fill cap level x)) xs

theorem drain_add_served (level : K) : drain level + ((if 1 ≤ level then 1 else 0 : Nat) : K) = level := by
  unfold drain
  split
  · rw [Nat.cast_one, sub_add_cancel]
  · rw [Nat.cast_zero, add_zero]

theorem fill_zero {cap level : K} (h : level ≤ cap) : fill cap level 0 = level := by
  rw [fill, add_zero, min_eq_right h]

variable [IsStrictOrderedRing K]

theorem drain_nonneg {level : K} (h : 0 ≤ level) : 0 ≤ drain level := by
  unfold drain
  split
  · linarith
  · exact h

theorem fill_nonneg {cap level x : K} (hc : 0 ≤ cap) (hl : 0 ≤ level) (hx : 0 ≤ x) : 0 ≤ fill cap level x :=
  le_min hc (add_nonneg hl hx)

/-- **Upper bound.** No more is served than what was there and what flowed in, up to the capacity each time. -/
theorem served_le {cap : K} (hc : 0 ≤ cap) : ∀ {level : K} {xs : List K}, 0 ≤ level → (∀ x ∈ xs, 0 ≤ x) →
    (served cap level xs : K) ≤ level + (xs.map (min cap)).sum
  | level, [], hl, _ => by simpa [served] using hl
  | level, x :: xs, hl, hx => by
    have hf := fill_nonneg hc hl (hx x List.mem_cons_self)
    have ih := served_le hc (drain_nonneg hf) fun y hy => hx y (List.mem_cons_of_mem _ hy)
    have hd := drain_add_served (fill cap level x)
    have hle : fill cap level x ≤ level + min cap x := by
      rw [← min_add_add_left]
      exact min_le_min_right _ (by linarith)
    rw [served, List.map_cons, List.sum_cons, Nat.cast_add]
    linarith

/-- Requests without an inflow take whole units, and all of them if there are enough requests. -/
theorem served_replicate {cap : K} (xs : List K) : ∀ (n : Nat) {level : K}, 0 ≤ level → level ≤ cap →
    ∃ (k : Nat) (rest : K), 0 ≤ rest ∧ k + rest = level ∧ (level ≤ n → rest < 1) ∧
      served cap level (List.replicate n 0 ++ xs) = k + served cap rest xs
  | 0, level, hl, _ => by
    refine ⟨0, level, hl, by simp, fun h => ?_, by simp⟩
    rw [Nat.cast_zero] at h
    linarith
  | n + 1, level, hl, hc => by
    rw [List.replicate_succ, List.cons_append, served, fill_zero hc]
    by_cases h1 : 1 ≤ level
    · have hl' : 0 ≤ level - 1 := by linarith
      obtain ⟨k, rest, hr, hk, hn, hs⟩ := served_replicate xs n hl' (by linarith)
      rw [drain, if_pos h1, if_pos h1, hs]
      refine ⟨1 + k, rest, hr, ?_, fun h => hn ?_, by omega⟩
      · push_cast
        linarith
      · push_cast at h
        linarith
    · obtain ⟨k, rest, hr, hk, -, hs⟩ := served_replicate xs n hl hc
      rw [drain, if_neg h1, if_neg h1, hs]
      have : (0 : K) ≤ k := Nat.cast_nonneg k
      exact ⟨k, rest, hr, hk, fun _ => by linarith, by omega⟩

/-- **Lower bound.** Where each inflow is followed by more requests than the bucket can hold units, less than one unit
of it is left over. -/
theorem le_served {cap : K} (hc : 0 ≤ cap) {n : Nat} (hn : cap ≤ (n + 1 : Nat)) :
    ∀ {level : K} {xs : List K}, 0 ≤ level → (∀ x ∈ xs, 0 ≤ x) →
    (xs.map fun x => min cap x - 1).sum ≤ served cap level (xs.flatMap fun x => x :: List.replicate n 0)
  | level, [], _, _ => by simp [served]
  | level, x :: xs, hl, hx => by
    have hf := fill_nonneg hc hl (hx x List.mem_cons_self)
    have hcap : fill cap level x ≤ cap := min_le_left _ _
    obtain ⟨k, rest, hr, hk, hlt, hs⟩ :=
      served_replicate (xs.flatMap fun x => x :: List.replicate n 0) (n + 1) hf hcap
    have ih := le_served hc hn hr fun y hy => hx y (List.mem_cons_of_mem _ hy)
    have hfirst : served cap level (x :: List.replicate n 0 ++ xs.flatMap fun x => x :: List.replicate n 0) =
        k + served cap rest (xs.flatMap fun x => x :: List.replicate n 0) := by
      rw [← hs, List.replicate_succ, List.cons_append, List.cons_append, served, served, fill_zero hcap]
    have hle : min cap x ≤ fill cap level x := min_le_min_left _ (by linarith)
    have hrest := hlt (hcap.trans hn)
    rw [List.flatMap_cons, hfirst, List.map_cons, List.sum_cons, Nat.cast_add]
    linarith

end TokenBucket
