import Mathlib.Data.List.Nodup

/-!
# Association lists as maps

A list of pairs whose first components do not repeat is a map, and its order does
not matter for what is found in it.
-/

namespace Assoc

variable {α β : Type*} [BEq α] [LawfulBEq α] {l : List (α × β)} {k k' : α} {v : β}

theorem lookup_eq_some_iff_mem (h : (l.map Prod.fst).Nodup) : l.lookup k = some v ↔ (k, v) ∈ l := by
  induction l with
  | nil => simp
  | cons p l ih =>
    obtain ⟨a, b⟩ := p
    rw [List.map_cons, List.nodup_cons] at h
    rw [List.lookup_cons, List.mem_cons, Prod.mk.injEq]
    rcases eq_or_ne k a with hk | hk
    · subst hk
      have hn : (k, v) ∉ l := fun hm => h.1 (List.mem_map.mpr ⟨_, hm, rfl⟩)
      simp [hn, eq_comm]
    · rw [beq_eq_false_iff_ne.mpr hk]
      simpa [hk] using ih h.2

theorem lookup_perm (h : (l.map Prod.fst).Nodup) {l' : List (α × β)} (hp : l'.Perm l) (k : α) :
    l'.lookup k = l.lookup k := by
  have h' : (l'.map Prod.fst).Nodup := (hp.map _).nodup_iff.mpr h
  ext v
  rw [lookup_eq_some_iff_mem h', lookup_eq_some_iff_mem h, hp.mem_iff]

theorem lookup_eq_none_iff : l.lookup k = none ↔ k ∉ l.map Prod.fst := by
  rw [List.lookup_eq_none_iff]
  constructor
  · intro h hm
    obtain ⟨p, hp, rfl⟩ := List.mem_map.mp hm
    exact absurd (h p hp) (by simp)
  · intro h p hp
    exact bne_iff_ne.mpr fun he => h (List.mem_map.mpr ⟨p, hp, he.symm⟩)

theorem lookup_map_put [DecidableEq α] :
    (l.map fun p => if p.1 = k' then (k', v) else p).lookup k =
      if k = k' then (l.lookup k).map fun _ => v else l.lookup k := by
  induction l with
  | nil => simp
  | cons p l ih =>
    obtain ⟨a, b⟩ := p
    simp only [List.map_cons]
    by_cases ha : a = k'
    · subst ha
      by_cases hk : k = a
      · simp [hk]
      · have hb : (k == a) = false := beq_eq_false_iff_ne.mpr hk
        simpa [List.lookup_cons, hb, hk] using ih
    · by_cases hk : k = a
      · subst hk
        simp [ha]
      · have hb : (k == a) = false := beq_eq_false_iff_ne.mpr hk
        simpa [List.lookup_cons, hb, ha] using ih

theorem lookup_append_single [DecidableEq α] (h : l.lookup k' = none) :
    (l ++ [(k', v)]).lookup k = if k = k' then some v else l.lookup k := by
  rw [List.lookup_append]
  by_cases hk : k = k'
  · subst hk
    simp [h]
  · have hb : (k == k') = false := beq_eq_false_iff_ne.mpr hk
    simp [List.lookup_cons, hb, hk]

end Assoc
