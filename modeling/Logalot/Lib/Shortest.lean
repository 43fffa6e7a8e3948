import Mathlib.Data.Nat.Digits.Defs
import Mathlib.Algebra.Order.Ring.Nat

/-!
# The shortest decimal in an interval

Printing a number with as few digits as tell it from others: of the numbers that
will do, which lie around it, one that ends in as many zeros as can be, and of
these the nearest. The search goes through the multiples of the powers of ten on
both sides of the number.
-/

namespace Shortest

/-- The multiple of `q` next to `v` that will do; if both do, the nearer one, or the even one of two as near. -/
def pick (ok : Nat → Bool) (v q : Nat) : Option Nat :=
  let lo := v / q * q
  if ok lo = true ∧ ok (lo + q) = true then
    if q < 2 * (v - lo) ∨ 2 * (v - lo) = q ∧ v / q % 2 = 1 then some (lo + q) else some lo
  else if ok lo = true then some lo
  else if ok (lo + q) = true then some (lo + q)
  else none

/-- What is found among the multiples of `10 ^ j` and, failing them, of lower powers. -/
def shortestFrom (ok : Nat → Bool) (v : Nat) : Nat → Nat
  | 0 => v
  | j + 1 => (pick ok v (10 ^ (j + 1))).getD (shortestFrom ok v j)

def shortest (ok : Nat → Bool) (v : Nat) : Nat := shortestFrom ok v (Nat.digits 10 v).length

/-- Of the numbers that will do none ends in more zeros, and of those that end in as many none is as near. -/
structure IsShortest (ok : Nat → Prop) (v n : Nat) : Prop where
  fits : ok n
  zeros : ∀ m k, ok m → 10 ^ k ∣ m → 10 ^ k ∣ n
  nearest : ∀ m, ok m → m ≠ n → (∀ k, 10 ^ k ∣ n → 10 ^ k ∣ m) → ((n : Int) - v).natAbs < ((m : Int) - v).natAbs

theorem IsShortest.unique {ok : Nat → Prop} {v n n' : Nat} (h : IsShortest ok v n) (h' : IsShortest ok v n') :
    n = n' := by
  by_contra hne
  have h1 := h.nearest n' h'.fits (Ne.symm hne) fun k => h'.zeros n k h.fits
  have h2 := h'.nearest n h.fits hne fun k => h.zeros n' k h'.fits
  omega

/-- The numbers that will do are an interval around `v`, and no two of them that are next to each other among the
multiples of a power of ten are as near to it. -/
structure Around (ok : Nat → Bool) (v : Nat) : Prop where
  self : ok v = true
  between : ∀ a b c, ok a = true → ok c = true → a ≤ b → b ≤ c → ok b = true
  zero : ok 0 = false
  le : ∀ m, ok m = true → m ≤ 2 * v
  no_tie : ∀ j lo, ok (lo + 10 ^ (j + 1)) = true → 10 ^ (j + 1) ∣ lo → 2 * v ≠ 2 * lo + 10 ^ (j + 1)

section
variable {ok : Nat → Bool} {v q m n : Nat}

theorem div_mul_bounds (hq : 0 < q) (v : Nat) : v / q * q ≤ v ∧ v < v / q * q + q := by
  have := Nat.lt_div_mul_add hq (a := v)
  exact ⟨Nat.div_mul_le_self v q, by omega⟩

theorem Around.neighbour (h : Around ok v) (hq : 0 < q) (hm : ok m = true) (hd : q ∣ m) :
    (m ≤ v / q * q ∧ ok (v / q * q) = true) ∨ (v / q * q + q ≤ m ∧ ok (v / q * q + q) = true) := by
  obtain ⟨hlo, hhi⟩ := div_mul_bounds hq v
  obtain ⟨x, rfl⟩ := hd
  by_cases hx : x ≤ v / q
  · have hle : q * x ≤ v / q * q := by
      rw [Nat.mul_comm]
      exact Nat.mul_le_mul_right q hx
    exact .inl ⟨hle, h.between _ _ _ hm h.self hle hlo⟩
  · have hle : v / q * q + q ≤ q * x := by
      rw [← Nat.succ_mul, Nat.mul_comm q x]
      exact Nat.mul_le_mul_right q (by omega)
    exact .inr ⟨hle, h.between _ _ _ h.self hm (Nat.le_of_lt hhi) hle⟩

theorem Around.pick_eq_some (h : Around ok v) (hq : 0 < q)
    (htie : ok (v / q * q + q) = true → 2 * v ≠ 2 * (v / q * q) + q) (hp : pick ok v q = some n) :
    ok n = true ∧ q ∣ n ∧
      ∀ m, ok m = true → m ≠ n → q ∣ m → ((n : Int) - v).natAbs < ((m : Int) - v).natAbs := by
  obtain ⟨hlo, hhi⟩ := div_mul_bounds hq v
  have hdlo : q ∣ v / q * q := Nat.dvd_mul_left q _
  have hdhi : q ∣ v / q * q + q := Nat.dvd_add hdlo (Nat.dvd_refl q)
  have hnear : ∀ m, ok m = true → q ∣ m → _ := fun m hm hd => h.neighbour hq hm hd
  unfold pick at hp
  generalize v / q * q = lo at *
  by_cases hl : ok lo = true
  · by_cases hh : ok (lo + q) = true
    · have hne := htie hh
      rw [if_pos ⟨hl, hh⟩] at hp
      by_cases hup : q < 2 * (v - lo) ∨ 2 * (v - lo) = q ∧ v / q % 2 = 1
      · rw [if_pos hup] at hp
        cases hp
        refine ⟨hh, hdhi, fun m hm hmn hd => ?_⟩
        obtain ⟨hle, -⟩ | ⟨hle, -⟩ := hnear m hm hd
        · omega
        · omega
      · rw [if_neg hup] at hp
        cases hp
        refine ⟨hl, hdlo, fun m hm hmn hd => ?_⟩
        obtain ⟨hle, -⟩ | ⟨hle, -⟩ := hnear m hm hd
        · omega
        · omega
    · rw [if_neg fun hboth => hh hboth.2, if_pos hl] at hp
      cases hp
      refine ⟨hl, hdlo, fun m hm hmn hd => ?_⟩
      obtain ⟨hle, -⟩ | ⟨-, hhi'⟩ := hnear m hm hd
      · omega
      · exact absurd hhi' hh
  · rw [if_neg fun hboth => hl hboth.1, if_neg hl] at hp
    by_cases hh : ok (lo + q) = true
    · rw [if_pos hh] at hp
      cases hp
      refine ⟨hh, hdhi, fun m hm hmn hd => ?_⟩
      obtain ⟨-, hlo'⟩ | ⟨hle, -⟩ := hnear m hm hd
      · exact absurd hlo' hl
      · omega
    · rw [if_neg hh] at hp
      cases hp

theorem Around.pick_eq_none (h : Around ok v) (hq : 0 < q) (hp : pick ok v q = none) (hm : ok m = true) : ¬ q ∣ m := by
  intro hd
  unfold pick at hp
  dsimp only at hp
  obtain ⟨-, hl⟩ | ⟨-, hh⟩ := h.neighbour hq hm hd
  · by_cases hh : ok (v / q * q + q) = true
    · rw [if_pos ⟨hl, hh⟩] at hp
      split at hp <;> cases hp
    · rw [if_neg fun hboth => hh hboth.2, if_pos hl] at hp
      cases hp
  · by_cases hl : ok (v / q * q) = true
    · rw [if_pos ⟨hl, hh⟩] at hp
      split at hp <;> cases hp
    · rw [if_neg fun hboth => hl hboth.1, if_neg hl, if_pos hh] at hp
      cases hp

theorem isShortest_of_nearest {j : Nat} (hnone : ∀ m, ok m = true → ¬ 10 ^ (j + 1) ∣ m)
    (h : ok n = true ∧ 10 ^ j ∣ n ∧
      ∀ m, ok m = true → m ≠ n → 10 ^ j ∣ m → ((n : Int) - v).natAbs < ((m : Int) - v).natAbs) :
    IsShortest (ok · = true) v n := by
  obtain ⟨hn, hd, hnear⟩ := h
  refine ⟨hn, fun m k hm hk => ?_, fun m hm hne hzeros => hnear m hm hne (hzeros j hd)⟩
  by_cases hkj : k ≤ j
  · exact Nat.dvd_trans (Nat.pow_dvd_pow 10 hkj) hd
  · exact absurd (Nat.dvd_trans (Nat.pow_dvd_pow 10 (by omega)) hk) (hnone m hm)

theorem Around.isShortest_from (h : Around ok v) : ∀ j, (∀ m, ok m = true → ¬ 10 ^ (j + 1) ∣ m) →
    IsShortest (ok · = true) v (shortestFrom ok v j)
  | 0, hnone => by
    refine isShortest_of_nearest hnone ⟨h.self, Nat.one_dvd _, fun m _ hne _ => ?_⟩
    simp only [shortestFrom] at hne ⊢
    omega
  | j + 1, hnone => by
    have hq : 0 < 10 ^ (j + 1) := Nat.pow_pos (by decide)
    rw [shortestFrom]
    cases hp : pick ok v (10 ^ (j + 1)) with
    | none => exact h.isShortest_from j fun m hm => h.pick_eq_none hq hp hm
    | some n =>
      have htie := h.no_tie j (v / 10 ^ (j + 1) * 10 ^ (j + 1))
      exact isShortest_of_nearest hnone (h.pick_eq_some hq (fun hok => htie hok (Nat.dvd_mul_left _ _)) hp)

theorem Around.isShortest (h : Around ok v) : IsShortest (ok · = true) v (shortest ok v) := by
  refine h.isShortest_from _ fun m hm hd => ?_
  have hlt : v < 10 ^ (Nat.digits 10 v).length := Nat.lt_base_pow_length_digits (by decide)
  have hle := h.le m hm
  have hpos : m ≠ 0 := by
    rintro rfl
    simp [h.zero] at hm
  have hmle := Nat.le_of_dvd (Nat.pos_of_ne_zero hpos) hd
  rw [Nat.pow_succ] at hmle
  omega

theorem Around.shortest_eq_iff (h : Around ok v) : shortest ok v = n ↔ IsShortest (ok · = true) v n := by
  constructor
  · rintro rfl
    exact h.isShortest
  · exact fun hn => h.isShortest.unique hn

end

end Shortest
