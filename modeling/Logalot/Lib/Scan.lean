import Mathlib.Data.List.TakeWhile
import Logalot.Lib.Bytes

/-!
# Scanners

A scanner is given by a step `next c s`: with `c` the next byte and `s` the
bytes after it, the token read (if any) and the bytes left. `scan_append`
splits a scan at a point the first half settles: no step of it depends on
what follows, as long as that is one of the texts that can follow.
-/

namespace Go

theorem takeWhile_append {p : UInt8 → Bool} {r : Bytes} : ∀ {s : Bytes},
    s.dropWhile p ≠ [] ∨ (∀ c, r.head? = some c → p c = false) →
    (s ++ r).takeWhile p = s.takeWhile p ∧ (s ++ r).dropWhile p = s.dropWhile p ++ r
  | [], h => by
    cases r with
    | nil => simp
    | cons c r =>
      have hc : p c = false := h.elim (fun e => absurd rfl e) fun e => e c rfl
      simp [hc]
  | c :: s, h => by
    by_cases hc : p c = true
    · rw [List.dropWhile_cons_of_pos hc] at h
      obtain ⟨h1, h2⟩ := takeWhile_append h
      simp [hc, h1, h2]
    · simp [hc]

theorem takeWhile_append_stop {p : UInt8 → Bool} {a s : Bytes} (ha : a.all p = true)
    (hs : ∀ c, s.head? = some c → p c = false) : (a ++ s).takeWhile p = a ∧ (a ++ s).dropWhile p = s := by
  obtain ⟨h1, h2⟩ := takeWhile_append (s := a) (.inr hs)
  have ha' := List.all_eq_true.mp ha
  rw [h1, h2, List.takeWhile_eq_self_iff.mpr ha', List.dropWhile_eq_nil_iff.mpr ha', List.nil_append]
  exact ⟨rfl, rfl⟩

section
variable {τ : Type} (next : UInt8 → Bytes → Option τ × Bytes)

def scanFrom : Nat → Bytes → List τ
  | 0, _ => []
  | _ + 1, [] => []
  | n + 1, c :: s => (next c s).1.toList ++ scanFrom n (next c s).2

def scan (s : Bytes) : List τ := scanFrom next s.length s

/-- The step at `c` reads the same token whichever of the texts `P` follows `s`. -/
def Settled (P : Bytes → Prop) (c : UInt8) (s : Bytes) : Prop :=
  ∀ r, P r → next c (s ++ r) = ((next c s).1, (next c s).2 ++ r)

def closedFrom (ok : UInt8 → Bytes → Bool) : Nat → Bytes → Bool
  | _, [] => true
  | 0, _ :: _ => false
  | n + 1, c :: s => ok c s && closedFrom ok n (next c s).2

variable (hn : ∀ c s, (next c s).2.length ≤ s.length)
include hn

theorem scanFrom_fuel : ∀ (n m : Nat) (s : Bytes), s.length ≤ n → s.length ≤ m →
    scanFrom next n s = scanFrom next m s
  | 0, m, s, h, _ => by
    rw [List.eq_nil_of_length_eq_zero (Nat.le_zero.mp h)]
    cases m <;> rfl
  | n + 1, 0, s, _, h => by rw [List.eq_nil_of_length_eq_zero (Nat.le_zero.mp h)]; rfl
  | n + 1, m + 1, [], _, _ => rfl
  | n + 1, m + 1, c :: s, h, h' => by
    have hr := hn c s
    simp only [List.length_cons] at h h'
    simp only [scanFrom]
    rw [scanFrom_fuel n m _ (by omega) (by omega)]

theorem scan_cons (c : UInt8) (s : Bytes) :
    scan next (c :: s) = (next c s).1.toList ++ scan next (next c s).2 := by
  have hr := hn c s
  unfold scan
  simp only [List.length_cons, scanFrom]
  rw [scanFrom_fuel next hn s.length _ _ hr (Nat.le_refl _)]

theorem scan_append {P : Bytes → Prop} {ok : UInt8 → Bytes → Bool} (hok : ∀ c s, ok c s = true → Settled next P c s)
    {b : Bytes} (hb : P b) :
    ∀ (n : Nat) (a : Bytes), closedFrom next ok n a = true → scan next (a ++ b) = scan next a ++ scan next b
  | _, [], _ => rfl
  | 0, _ :: _, h => by simp [closedFrom] at h
  | n + 1, c :: a, h => by
    simp only [closedFrom, Bool.and_eq_true] at h
    have hs := hok c a h.1 b hb
    rw [List.cons_append, scan_cons next hn, scan_cons next hn, hs, scan_append hok hb n _ h.2]
    simp only [List.append_assoc]

end

end Go
