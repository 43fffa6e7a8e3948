import Mathlib.Data.List.Pairwise
import Mathlib.Data.List.Perm.Basic
import Mathlib.Data.List.Sort

/-!
# Ordered queries with a limit

`ORDER BY key LIMIT n` returns the first rows of some arrangement of the table
in which keys do not decrease: rows with equal keys may stand in any order.
-/

namespace Ordered

variable {α : Type*} {le : α → α → Prop} {n : Nat} {rows out : List α}

def Top (le : α → α → Prop) (n : Nat) (rows out : List α) : Prop :=
  ∃ p : List α, p.Perm rows ∧ p.Pairwise le ∧ out = p.take n

theorem Top.mem (h : Top le n rows out) {a : α} (ha : a ∈ out) : a ∈ rows := by
  obtain ⟨p, hp, -, rfl⟩ := h
  exact hp.mem_iff.mp (List.mem_of_mem_take ha)

theorem Top.nodup_map {β : Type*} {f : α → β} (h : Top le n rows out) (hn : (rows.map f).Nodup) :
    (out.map f).Nodup := by
  obtain ⟨p, hp, -, rfl⟩ := h
  have hs : ((p.take n).map f).Sublist (p.map f) := (List.take_sublist n p).map f
  exact hs.nodup ((hp.map f).nodup_iff.mpr hn)

theorem Top.before (h : Top le n rows out) {l₁ l₂ : List α} {a b : α} (ho : out = l₁ ++ b :: l₂) (ha : a ∈ rows)
    (hne : a ≠ b) (hlt : ¬ le b a) : a ∈ l₁ := by
  obtain ⟨p, hp, hs, rfl⟩ := h
  -- in the whole arrangement the rows before `b` are those of the result
  have hsplit : p = l₁ ++ b :: (l₂ ++ p.drop n) := by
    rw [← List.cons_append, ← List.append_assoc, ← ho, List.take_append_drop]
  have hm : a ∈ l₁ ++ b :: (l₂ ++ p.drop n) := by
    rw [← hsplit]
    exact hp.mem_iff.mpr ha
  rcases List.mem_append.mp hm with hm | hm
  · exact hm
  · rcases List.mem_cons.mp hm with hm | hm
    · exact absurd hm hne
    · rw [hsplit] at hs
      have hb := (List.pairwise_append.mp hs).2.1
      exact absurd ((List.pairwise_cons.mp hb).1 a hm) hlt

theorem Top.split (h : Top le n rows out) :
    ∃ rest, rows.Perm (out ++ rest) ∧ (∀ a ∈ out, ∀ b ∈ rest, le a b) ∧ (rest ≠ [] → out.length = n) := by
  obtain ⟨p, hp, hs, rfl⟩ := h
  refine ⟨p.drop n, by rw [List.take_append_drop]; exact hp.symm, ?_, ?_⟩
  · rw [← List.take_append_drop n p] at hs
    exact (List.pairwise_append.mp hs).2.2
  · intro hne
    rw [List.length_take, Nat.min_eq_left]
    by_contra hlt
    exact hne (List.drop_of_length_le (by omega))

/-! ## Results from parts of a table -/

theorem forall_take_of_countP {p : α → Bool} :
    ∀ {s : List α} {n : Nat}, s.Pairwise (fun a b => p b = true → p a = true) →
    n ≤ s.countP p → ∀ a ∈ s.take n, p a = true
  | _, 0, _, _, a, ha => by simp at ha
  | [], _ + 1, _, hn, a, ha => by simp at ha
  | c :: s, n + 1, hs, hn, a, ha => by
    obtain ⟨hc, hs⟩ := List.pairwise_cons.mp hs
    have hpc : p c = true := by
      by_contra hpc
      have hzero : s.countP p = 0 := List.countP_eq_zero.mpr fun b hb hpb => hpc (hc b hb hpb)
      rw [List.countP_cons_of_neg hpc] at hn
      omega
    rw [List.countP_cons_of_pos hpc] at hn
    rw [List.take_succ_cons] at ha
    rcases List.mem_cons.mp ha with rfl | ha
    · exact hpc
    · exact forall_take_of_countP hs (by omega) a ha

theorem countP_take_between {p q : α → Bool} : ∀ {s : List α}, s.Pairwise (fun a b => p b = true → p a = true) →
    s.Pairwise (fun a b => q b = true → q a = true) → ∀ n, (s.take n).countP (fun a => q a && !p a) =
      min (s.countP fun a => q a && !p a) (n - s.countP p)
  | _, _, _, 0 => by simp
  | [], _, _, _ + 1 => by simp
  | c :: s, hp, hq, n + 1 => by
    obtain ⟨hpc, hp⟩ := List.pairwise_cons.mp hp
    obtain ⟨hqc, hq⟩ := List.pairwise_cons.mp hq
    have ih := countP_take_between hp hq n
    rw [List.take_succ_cons, List.countP_cons, List.countP_cons, List.countP_cons, ih]
    by_cases h : p c = true
    · simp only [h, Bool.not_true, Bool.and_false, Bool.false_eq_true, if_false, if_true]
      omega
    · have hnone : s.countP p = 0 := List.countP_eq_zero.mpr fun b hb hpb => h (hpc b hb hpb)
      by_cases h' : q c = true
      · simp only [hnone, h, h', Bool.not_false, Bool.and_true, if_true, Bool.false_eq_true, if_false]
        omega
      · have hnone' : (s.countP fun a => q a && !p a) = 0 := List.countP_eq_zero.mpr fun b hb hb' => by
          rw [Bool.and_eq_true] at hb'
          exact h' (hqc b hb hb'.1)
        simp [hnone', h']

theorem take_filter_of_forall {p : α → Bool} : ∀ {s : List α} {n : Nat}, (∀ a ∈ s.take n, p a = true) →
    (s.filter p).take n = s.take n
  | _, 0, _ => by simp
  | [], _ + 1, _ => rfl
  | c :: s, n + 1, h => by
    rw [List.take_succ_cons] at h ⊢
    rw [List.filter_cons_of_pos (h c List.mem_cons_self), List.take_succ_cons,
      take_filter_of_forall fun a ha => h a (List.mem_cons_of_mem _ ha)]

section
variable [DecidableRel le] [IsTrans α le] [Std.Total le] {s more : List α}

theorem top_of_dominated (hs : s.Pairwise le) (hrows : rows.Perm (s ++ more))
    (hmore : ∀ x ∈ more, n ≤ s.countP fun y => le y x) : Top le n rows (s.take n) := by
  have hcut : ∀ a ∈ s.take n, ∀ b ∈ s.drop n ++ more, le a b := by
    intro a ha b hb
    rcases List.mem_append.mp hb with hb | hb
    · rw [← List.take_append_drop n s] at hs
      exact (List.pairwise_append.mp hs).2.2 a ha b hb
    · have hdown : s.Pairwise fun c d => decide (le d b) = true → decide (le c b) = true := by
        refine hs.imp fun {c d} hcd hdb => ?_
        exact decide_eq_true (IsTrans.trans _ _ _ hcd (of_decide_eq_true hdb))
      exact of_decide_eq_true (forall_take_of_countP hdown (hmore b hb) a ha)
  refine ⟨s.take n ++ (s.drop n ++ more).insertionSort le, ?_, ?_, ?_⟩
  · refine List.Perm.trans ((List.perm_insertionSort le _).append_left _) ?_
    rw [← List.append_assoc, List.take_append_drop]
    exact hrows.symm
  · refine List.pairwise_append.mpr ⟨hs.sublist (List.take_sublist n s), List.pairwise_insertionSort le _, ?_⟩
    intro a ha b hb
    exact hcut a ha b ((List.mem_insertionSort le).mp hb)
  · by_cases hn : n ≤ s.length
    · rw [List.take_append_of_le_length (by rw [List.length_take]; omega), List.take_take, Nat.min_self]
    · have hnil : more = [] := List.eq_nil_iff_forall_not_mem.mpr fun x hx => by
        have := (hmore x hx).trans List.countP_le_length
        omega
      rw [hnil, List.append_nil, List.drop_of_length_le (by omega), List.insertionSort_nil, List.append_nil,
        List.take_take, Nat.min_self]

theorem top_of_strays (good : α → Bool) (hs : s.Pairwise le) (hrows : rows.Perm (s.filter good ++ more))
    (hmore : ∀ x ∈ more, n ≤ (s.filter good).countP fun y => le y x)
    (hstray : ∀ x ∈ s, good x = false → n ≤ s.countP fun y => !decide (le x y)) : Top le n rows (s.take n) := by
  have hgood : ∀ a ∈ s.take n, good a = true := by
    intro a ha
    by_contra hbad
    have hdown : s.Pairwise fun c d => (!decide (le a d)) = true → (!decide (le a c)) = true := by
      refine hs.imp fun {c d} hcd hd => ?_
      simp only [Bool.not_eq_true', decide_eq_false_iff_not] at hd ⊢
      exact fun hc => hd (IsTrans.trans _ _ _ hc hcd)
    have h := forall_take_of_countP hdown (hstray a (List.mem_of_mem_take ha) (by simpa using hbad)) a ha
    have hrefl : le a a := (Std.Total.total (r := le) a a).elim id id
    simp [hrefl] at h
  rw [← take_filter_of_forall hgood]
  exact top_of_dominated (hs.filter good) hrows hmore

end

end Ordered
