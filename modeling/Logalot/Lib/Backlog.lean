import Mathlib.Data.List.Nodup
import Mathlib.Data.List.Perm.Basic
import Mathlib.Logic.Function.Iterate

/-!
# Passes over a backlog

A pass takes the first items of a queue, up to a batch size. An item that fails
keeps its place and is taken again by the next pass; the others leave, or go
behind those that were never taken. `reached` is how far the passes get.
-/

namespace Backlog

variable {α : Type*}

def afterPass (b : Nat) (fails : α → Bool) (q : List α) : List α := (q.take b).filter fails ++ q.drop b

/-- The items taken by passes, with the places that failed items take from later passes. -/
def reached (b : Nat) (fails : α → Bool) (q : List α) : Nat → Nat
  | 0 => 0
  | k + 1 => reached b fails q k + (b - (q.take (reached b fails q k)).countP fails)

/-- What each pass takes, starting with `q` in front of items that were taken before. -/
inductive Run (b : Nat) (fails : α → Bool) : List α → List (List α) → Prop where
  | nil {q : List α} : Run b fails q []
  | cons {q m batch : List α} {batches : List (List α)} : batch = (q ++ m).take b → (∀ x ∈ q, x ∉ m) →
    Run b fails (afterPass b fails q) batches → Run b fails q (batch :: batches)

section

variable {b : Nat} {fails : α → Bool} {q : List α}

theorem countP_take_add_le (n c : Nat) : (q.take (n + c)).countP fails ≤ (q.take n).countP fails + c := by
  rw [List.take_add, List.countP_append]
  have h1 : ((q.drop n).take c).countP fails ≤ ((q.drop n).take c).length := List.countP_le_length
  have h2 : ((q.drop n).take c).length ≤ c := List.length_take_le _ _
  omega

theorem countP_reached_le : ∀ k, (q.take (reached b fails q k)).countP fails ≤ b
  | 0 => by simp [reached]
  | k + 1 => by
    have ih := countP_reached_le k
    have h : (q.take (reached b fails q k + (b - (q.take (reached b fails q k)).countP fails))).countP fails ≤ _ :=
      countP_take_add_le _ _
    rw [reached]
    omega

theorem front_eq : ∀ k, (afterPass b fails)^[k] q =
    (q.take (reached b fails q k)).filter fails ++ q.drop (reached b fails q k)
  | 0 => by simp [reached]
  | k + 1 => by
    have hb : (q.take (reached b fails q k)).countP fails ≤ b := countP_reached_le k
    rw [Function.iterate_succ_apply', front_eq k, afterPass, reached]
    generalize reached b fails q k = n at hb
    rw [List.countP_eq_length_filter] at hb
    rw [List.take_append, List.drop_append, List.take_of_length_le hb, List.drop_of_length_le hb,
      List.countP_eq_length_filter, List.nil_append, List.filter_append, List.filter_filter, List.drop_drop,
      List.take_add, List.filter_append]
    simp only [Bool.and_self]

theorem mem_front_take {k : Nat} {x : α} : x ∈ ((afterPass b fails)^[k] q).take b ↔
    x ∈ (q.take (reached b fails q k)).filter fails ∨
      x ∈ (q.drop (reached b fails q k)).take (b - (q.take (reached b fails q k)).countP fails) := by
  have hb : (q.take (reached b fails q k)).countP fails ≤ b := countP_reached_le k
  rw [List.countP_eq_length_filter] at hb ⊢
  rw [front_eq, List.take_append, List.take_of_length_le hb, List.mem_append]

theorem mem_taken_iff {x : α} :
    ∀ k, (∃ j < k, x ∈ ((afterPass b fails)^[j] q).take b) ↔ x ∈ q.take (reached b fails q k)
  | 0 => by simp [reached]
  | k + 1 => by
    have ih := mem_taken_iff (x := x) k
    rw [reached, List.take_add, List.mem_append, ← ih]
    constructor
    · rintro ⟨j, hj, hx⟩
      rcases Nat.lt_succ_iff_lt_or_eq.mp hj with hj | rfl
      · exact .inl ⟨j, hj, hx⟩
      · rcases mem_front_take.mp hx with hx | hx
        · exact .inl (ih.mpr (List.mem_of_mem_filter hx))
        · exact .inr hx
    · rintro (⟨j, hj, hx⟩ | hx)
      · exact ⟨j, Nat.lt_succ_of_lt hj, hx⟩
      · exact ⟨k, Nat.lt_succ_self k, mem_front_take.mpr (.inr hx)⟩

theorem mem_take_of_front {m : List α} {x : α} (hx : x ∈ q) (hd : ∀ x ∈ q, x ∉ m) (h : x ∈ (q ++ m).take b) :
    x ∈ q.take b := by
  rw [List.take_append, List.mem_append] at h
  exact h.resolve_right fun hm => hd x hx (List.mem_of_mem_take hm)

/-! ## One pass -/

theorem afterPass_sublist : (afterPass b fails q).Sublist q := by
  conv_rhs => rw [← List.take_append_drop b q]
  exact List.filter_sublist.append (.refl _)

theorem afterPass_map {β : Type*} (f : α → β) (fails : β → Bool) :
    (afterPass b (fun x => fails (f x)) q).map f = afterPass b fails (q.map f) := by
  simp only [afterPass, List.map_append, List.map_drop, ← List.map_take, List.filter_map, Function.comp_def]

theorem perm_afterPass (rest : List α) :
    (q ++ rest).Perm (afterPass b fails q ++ ((q.take b).filter (fun x => !fails x) ++ rest)) := by
  have hb : (q.take b).Perm ((q.take b).filter fails ++ (q.take b).filter fun x => !fails x) :=
    (List.filter_append_perm _ _).symm
  have hq : q ++ rest = q.take b ++ (q.drop b ++ rest) := by
    rw [← List.append_assoc, List.take_append_drop]
  rw [hq, afterPass]
  refine (hb.append_right _).trans ?_
  simp only [List.append_assoc]
  exact (List.perm_append_comm_assoc _ _ _).append_left _

theorem not_mem_moved {m : List α} (hn : q.Nodup) (hd : ∀ x ∈ q, x ∉ m) {x : α} (hx : x ∈ afterPass b fails q) :
    x ∉ ((q ++ m).take b).filter fun x => !fails x := by
  intro hm
  obtain ⟨hm, hf⟩ := List.mem_filter.mp hm
  rcases List.mem_append.mp hx with hx | hx
  · rw [(List.mem_filter.mp hx).2] at hf
    cases hf
  · have ht := mem_take_of_front (List.mem_of_mem_drop hx) hd hm
    rw [← List.take_append_drop b q, List.nodup_append] at hn
    exact hn.2.2 x ht x hx rfl

theorem filter_not_moved [DecidableEq α] (hn : q.Nodup) :
    q.filter (fun x => x ∉ (q.take b).filter fun x => !fails x) = afterPass b fails q := by
  have hdis : ∀ x ∈ q.drop b, x ∉ q.take b := fun x hx ht => by
    rw [← List.take_append_drop b q, List.nodup_append] at hn
    exact hn.2.2 x ht x hx rfl
  conv_lhs => rw [← List.take_append_drop b q, List.filter_append]
  rw [List.take_append_drop, afterPass]
  congr 1
  · refine List.filter_congr fun x hx => ?_
    simp [List.mem_filter, hx]
  · refine List.filter_eq_self.mpr fun x hx => ?_
    simp [List.mem_filter, hdis x hx]

/-! ## Runs -/

theorem Run.taken_iff {batches : List (List α)} (h : Run b fails q batches) {x : α} (hx : x ∈ q) :
    (∃ batch ∈ batches, x ∈ batch) ↔ ∃ j < batches.length, x ∈ ((afterPass b fails)^[j] q).take b := by
  induction h with
  | nil => simp
  | @cons q m batch batches he hd hr ih =>
    subst he
    by_cases ht : x ∈ q.take b
    · have hm : x ∈ (q ++ m).take b := by
        rw [List.take_append]
        exact List.mem_append_left _ ht
      exact ⟨fun _ => ⟨0, Nat.succ_pos _, ht⟩, fun _ => ⟨_, List.mem_cons_self, hm⟩⟩
    · have hx' : x ∈ afterPass b fails q := by
        refine List.mem_append_right _ ?_
        rw [← List.take_append_drop b q] at hx
        exact (List.mem_append.mp hx).resolve_left ht
      have hn : x ∉ (q ++ m).take b := fun h => ht (mem_take_of_front hx hd h)
      simp only [List.mem_cons, exists_eq_or_imp, hn, false_or, ih hx', List.length_cons]
      constructor
      · rintro ⟨j, hj, h⟩
        exact ⟨j + 1, Nat.succ_lt_succ hj, h⟩
      · rintro ⟨j, hj, h⟩
        cases j with
        | zero => exact absurd h ht
        | succ j => exact ⟨j, Nat.lt_of_succ_lt_succ hj, h⟩

/-- **Coverage.** Passes take every item exactly if they reach the end of the queue. -/
theorem Run.all_taken_iff {batches : List (List α)} (h : Run b fails q batches) (hn : q.Nodup) :
    (∀ x ∈ q, ∃ batch ∈ batches, x ∈ batch) ↔ q.length ≤ reached b fails q batches.length := by
  have hiff : ∀ x ∈ q, (∃ batch ∈ batches, x ∈ batch) ↔ x ∈ q.take (reached b fails q batches.length) := fun x hx =>
    (h.taken_iff hx).trans (mem_taken_iff _)
  constructor
  · intro hall
    by_contra hlt
    have hlt : reached b fails q batches.length < q.length := Nat.lt_of_not_le hlt
    -- the first item that was not reached
    have hmem := (hiff _ (List.getElem_mem hlt)).mp (hall _ (List.getElem_mem hlt))
    have hdrop : q[reached b fails q batches.length] ∈ q.drop (reached b fails q batches.length) := by
      rw [List.drop_eq_getElem_cons hlt]
      exact List.mem_cons_self
    rw [← List.take_append_drop (reached b fails q batches.length) q, List.nodup_append] at hn
    exact hn.2.2 _ hmem _ hdrop rfl
  · intro hle x hx
    exact (hiff x hx).mpr (by rwa [List.take_of_length_le hle])

end

/-! ## Sorted queues -/

theorem eq_append_of_sorted {le : α → α → Prop} : ∀ {a l m : List α}, l.Perm (a ++ m) → l.Pairwise le →
    a.Pairwise (fun x y => ¬ le y x) → (∀ x ∈ a, ∀ y ∈ m, ¬ le y x) → ∃ m', m'.Perm m ∧ l = a ++ m'
  | [], l, m, hp, _, _, _ => ⟨l, hp, rfl⟩
  | x :: a, l, m, hp, hl, ha, hm => by
    obtain ⟨hx, ha⟩ := List.pairwise_cons.mp ha
    have hxl : x ∈ l := hp.mem_iff.mpr List.mem_cons_self
    cases l with
    | nil => cases hxl
    | cons y l =>
      obtain ⟨hy, hl'⟩ := List.pairwise_cons.mp hl
      -- nothing else can be first
      have hxy : x = y := by
        by_contra hne
        have hle : le y x := hy x ((List.mem_cons.mp hxl).resolve_left hne)
        have hym : y ∈ x :: (a ++ m) := hp.mem_iff.mp List.mem_cons_self
        rcases List.mem_append.mp ((List.mem_cons.mp hym).resolve_left (Ne.symm hne)) with h | h
        · exact hx y h hle
        · exact hm x List.mem_cons_self y h hle
      subst hxy
      obtain ⟨m', hm', rfl⟩ := eq_append_of_sorted (List.Perm.cons_inv hp) hl' ha
        fun z hz => hm z (List.mem_cons_of_mem _ hz)
      exact ⟨m', hm', rfl⟩

end Backlog
