import Mathlib.Data.List.Perm.Basic
import Mathlib.Data.List.Nodup

/-!
# Grouping a list

Entries are filed one after another under their keys, a new group standing
behind the others. Each entry is then in one group, that of its key.
-/

namespace Groups

variable {α κ : Type*} [DecidableEq κ] {key : α → κ} {groups : List (κ × List α)} {l : List α}

def fileInto (key : α → κ) (groups : List (κ × List α)) (a : α) : List (κ × List α) :=
  if key a ∈ groups.map Prod.fst then groups.map fun g => if g.1 = key a then (g.1, g.2 ++ [a]) else g
  else groups ++ [(key a, [a])]

def groupsBy (key : α → κ) (l : List α) : List (κ × List α) := l.foldl (fileInto key) []

structure Grouped (key : α → κ) (groups : List (κ × List α)) (l : List α) : Prop where
  nodup : (groups.map Prod.fst).Nodup
  keyed : ∀ g ∈ groups, ∀ a ∈ g.2, key a = g.1
  nonempty : ∀ g ∈ groups, g.2 ≠ []
  perm : (groups.flatMap Prod.snd).Perm l

omit [DecidableEq κ] in
theorem Grouped.of_perm (h : Grouped key groups l) {groups' : List (κ × List α)} (hp : groups'.Perm groups) :
    Grouped key groups' l where
  nodup := ((hp.map _).nodup_iff).mpr h.nodup
  keyed g hg := h.keyed g (hp.mem_iff.mp hg)
  nonempty g hg := h.nonempty g (hp.mem_iff.mp hg)
  perm := (hp.flatMap_right _).trans h.perm

theorem fileInto_of_mem (h : (groups.map Prod.fst).Nodup) {a : α} (ha : key a ∈ groups.map Prod.fst) :
    ∃ before as after, groups = before ++ (key a, as) :: after ∧
      fileInto key groups a = before ++ (key a, as ++ [a]) :: after := by
  obtain ⟨g, hg, hk⟩ := List.mem_map.mp ha
  obtain ⟨before, after, rfl⟩ := List.append_of_mem hg
  obtain ⟨k, as⟩ := g
  obtain rfl : k = key a := hk
  refine ⟨before, as, after, rfl, ?_⟩
  rw [List.map_append, List.map_cons, List.nodup_middle, List.nodup_cons] at h
  have hother : ∀ m : List (κ × List α), (∀ g ∈ m, g ∈ before ++ after) →
      (m.map fun g => if g.1 = key a then (g.1, g.2 ++ [a]) else g) = m := by
    intro m hm
    rw [List.map_congr_left (g := id), List.map_id]
    intro g hg
    refine if_neg fun he => h.1 ?_
    rw [← List.map_append]
    exact List.mem_map.mpr ⟨g, hm g hg, he⟩
  rw [fileInto, if_pos ha, List.map_append, List.map_cons, if_pos rfl,
    hother before fun g hg => List.mem_append_left _ hg, hother after fun g hg => List.mem_append_right _ hg]

theorem Grouped.fileInto (h : Grouped key groups l) (a : α) : Grouped key (fileInto key groups a) (l ++ [a]) := by
  by_cases ha : key a ∈ groups.map Prod.fst
  · obtain ⟨before, as, after, rfl, hfile⟩ := fileInto_of_mem h.nodup ha
    rw [hfile]
    have hmid : ∀ as', (before ++ (key a, as') :: after).flatMap Prod.snd =
        before.flatMap Prod.snd ++ (as' ++ after.flatMap Prod.snd) := fun as' => by
      rw [List.flatMap_append, List.flatMap_cons]
    constructor
    · have hn := h.nodup
      rwa [List.map_append, List.map_cons] at hn ⊢
    · intro g hg
      rcases List.mem_append.mp hg with hg | hg
      · exact h.keyed g (List.mem_append_left _ hg)
      · rcases List.mem_cons.mp hg with rfl | hg
        · intro b hb
          rcases List.mem_append.mp hb with hb | hb
          · exact h.keyed (key a, as) (List.mem_append_right _ List.mem_cons_self) b hb
          · rw [List.mem_singleton.mp hb]
        · exact h.keyed g (List.mem_append_right _ (List.mem_cons_of_mem _ hg))
    · intro g hg
      rcases List.mem_append.mp hg with hg | hg
      · exact h.nonempty g (List.mem_append_left _ hg)
      · rcases List.mem_cons.mp hg with rfl | hg
        · exact List.append_ne_nil_of_right_ne_nil _ (List.cons_ne_nil _ _)
        · exact h.nonempty g (List.mem_append_right _ (List.mem_cons_of_mem _ hg))
    · have hp := h.perm
      rw [hmid] at hp ⊢
      have hlast : (before.flatMap Prod.snd ++ (as ++ [a] ++ after.flatMap Prod.snd)).Perm
          (before.flatMap Prod.snd ++ (as ++ after.flatMap Prod.snd) ++ [a]) := by
        rw [List.append_assoc, List.append_assoc, List.append_assoc]
        exact (List.perm_append_comm.append_left as).append_left _
      exact hlast.trans (hp.append_right [a])
  · rw [Groups.fileInto, if_neg ha]
    constructor
    · rw [List.map_append, List.nodup_append]
      refine ⟨h.nodup, List.nodup_singleton _, ?_⟩
      intro k hk k' hk' he
      rw [List.map_singleton, List.mem_singleton] at hk'
      rw [he, hk'] at hk
      exact ha hk
    · intro g hg
      rcases List.mem_append.mp hg with hg | hg
      · exact h.keyed g hg
      · rw [List.mem_singleton.mp hg]
        exact fun b hb => by rw [List.mem_singleton.mp hb]
    · intro g hg
      rcases List.mem_append.mp hg with hg | hg
      · exact h.nonempty g hg
      · rw [List.mem_singleton.mp hg]
        exact List.cons_ne_nil _ _
    · rw [List.flatMap_append, List.flatMap_singleton]
      exact h.perm.append_right [a]

omit [DecidableEq κ] in
theorem grouped_nil (key : α → κ) : Grouped key [] [] where
  nodup := List.nodup_nil
  keyed _ hg := absurd hg List.not_mem_nil
  nonempty _ hg := absurd hg List.not_mem_nil
  perm := List.Perm.refl _

theorem grouped_groupsBy (key : α → κ) (l : List α) : Grouped key (groupsBy key l) l := by
  have hrun : ∀ (l : List α) {groups : List (κ × List α)} {done : List α}, Grouped key groups done →
      Grouped key (l.foldl (Groups.fileInto key) groups) (done ++ l) := by
    intro l
    induction l with
    | nil =>
      intro groups done h
      rwa [List.append_nil]
    | cons a l ih =>
      intro groups done h
      have := ih (h.fileInto a)
      rwa [List.append_assoc] at this
  exact hrun l (grouped_nil key)

end Groups
