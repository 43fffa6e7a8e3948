import Mathlib.Order.Lattice

/-!
# Range-partitioned tables

A table is cut into partitions, each for the keys of a half-open range, and a
default partition for all others. A row is stored in the partition that covers
its key. A partition is created only where no other one and no row of the
default partition is, and dropping partitions drops their rows.
-/

namespace Ranges

structure Partition (ν κ α : Type*) where
  name : ν
  lo : κ
  hi : κ
  rows : List α
  deriving DecidableEq

structure Table (ν κ α : Type*) where
  parts : List (Partition ν κ α)
  /-- The default partition. -/
  rest : List α
  deriving DecidableEq

variable {ν κ α : Type*} {a : α} {t : Table ν κ α}

def Table.rows (t : Table ν κ α) : List α := t.parts.flatMap Partition.rows ++ t.rest

variable [LinearOrder κ]

def Partition.Covers (p : Partition ν κ α) (k : κ) : Prop := p.lo ≤ k ∧ k < p.hi

instance (p : Partition ν κ α) (k : κ) : Decidable (p.Covers k) := inferInstanceAs (Decidable (_ ∧ _))

def Table.Covers (t : Table ν κ α) (k : κ) : Prop := ∃ p ∈ t.parts, p.Covers k

instance (t : Table ν κ α) (k : κ) : Decidable (t.Covers k) := inferInstanceAs (Decidable (∃ _ ∈ _, _))

variable (key : α → κ)

/-- `none` if no partition covers the row. -/
def place (a : α) : List (Partition ν κ α) → Option (List (Partition ν κ α))
  | [] => none
  | p :: ps => if p.Covers (key a) then some ({ p with rows := p.rows ++ [a] } :: ps) else (place a ps).map (p :: ·)

def Table.insert (t : Table ν κ α) (a : α) : Table ν κ α :=
  match place key a t.parts with
  | some ps => { t with parts := ps }
  | none => { t with rest := t.rest ++ [a] }

/-- `none` if the range meets another partition or a row of the default partition. -/
def Table.create (t : Table ν κ α) (name : ν) (lo hi : κ) : Option (Table ν κ α) :=
  if (∃ p ∈ t.parts, p.lo < hi ∧ lo < p.hi) ∨ (∃ a ∈ t.rest, lo ≤ key a ∧ key a < hi) then none
  else some { t with parts := t.parts ++ [{ name := name, lo := lo, hi := hi, rows := [] }] }

omit [LinearOrder κ] in
def Table.dropNamed (t : Table ν κ α) (sel : ν → Bool) : Table ν κ α :=
  { t with parts := t.parts.filter fun p => !sel p.name }

/-! ## Rows lie in the range of their partition -/

def Table.Routed (t : Table ν κ α) : Prop := ∀ p ∈ t.parts, ∀ a ∈ p.rows, p.Covers (key a)

variable {key}

theorem place_of_covers : ∀ {ps : List (Partition ν κ α)}, (∃ p ∈ ps, p.Covers (key a)) →
    ∃ ps', place key a ps = some ps'
  | [], h => by
    obtain ⟨p, hp, -⟩ := h
    cases hp
  | p :: ps, h => by
    by_cases hc : p.Covers (key a)
    · exact ⟨_, by rw [place, if_pos hc]⟩
    · obtain ⟨q, hq, hk⟩ := h
      rcases List.mem_cons.mp hq with rfl | hq
      · exact absurd hk hc
      · obtain ⟨ps', hps⟩ := place_of_covers (show ∃ p ∈ ps, p.Covers (key a) from ⟨q, hq, hk⟩)
        exact ⟨p :: ps', by rw [place, if_neg hc, hps, Option.map_some]⟩

theorem mem_place : ∀ {ps ps' : List (Partition ν κ α)}, place key a ps = some ps' → ∀ p ∈ ps',
    p ∈ ps ∨ ∃ q ∈ ps, q.Covers (key a) ∧ p = { q with rows := q.rows ++ [a] }
  | [], ps', h => by cases h
  | q :: ps, ps', h => by
    intro p hp
    by_cases hc : q.Covers (key a)
    · rw [place, if_pos hc] at h
      cases h
      rcases List.mem_cons.mp hp with rfl | hp
      · exact Or.inr ⟨q, List.mem_cons_self, hc, rfl⟩
      · exact Or.inl (List.mem_cons_of_mem _ hp)
    · rw [place, if_neg hc] at h
      obtain ⟨ps'', hps, rfl⟩ := Option.map_eq_some_iff.mp h
      rcases List.mem_cons.mp hp with rfl | hp
      · exact Or.inl List.mem_cons_self
      · rcases mem_place hps p hp with hp | ⟨r, hr, hk, rfl⟩
        · exact Or.inl (List.mem_cons_of_mem _ hp)
        · exact Or.inr ⟨r, List.mem_cons_of_mem _ hr, hk, rfl⟩

theorem place_of_not_covers : ∀ {ps : List (Partition ν κ α)}, (∀ p ∈ ps, ¬ p.Covers (key a)) →
    place key a ps = none
  | [], _ => rfl
  | p :: ps, h => by
    rw [place, if_neg (h p List.mem_cons_self), place_of_not_covers fun q hq => h q (List.mem_cons_of_mem _ hq)]
    rfl

def Partition.head (p : Partition ν κ α) : ν × κ × κ := (p.name, p.lo, p.hi)

theorem map_head_place : ∀ {ps ps' : List (Partition ν κ α)}, place key a ps = some ps' →
    ps'.map Partition.head = ps.map Partition.head
  | [], ps', h => by cases h
  | p :: ps, ps', h => by
    by_cases hc : p.Covers (key a)
    · rw [place, if_pos hc] at h
      cases h
      rfl
    · rw [place, if_neg hc] at h
      obtain ⟨ps'', hps, rfl⟩ := Option.map_eq_some_iff.mp h
      rw [List.map_cons, List.map_cons, map_head_place hps]

theorem Table.map_head_insert (t : Table ν κ α) (a : α) :
    (t.insert key a).parts.map Partition.head = t.parts.map Partition.head := by
  unfold Table.insert
  split
  · exact map_head_place ‹_›
  · rfl

theorem Table.insert_of_not_covers (h : ¬ t.Covers (key a)) :
    t.insert key a = { t with rest := t.rest ++ [a] } := by
  unfold Table.insert
  rw [place_of_not_covers fun p hp hc => h ⟨p, hp, hc⟩]

theorem Table.parts_insert {p : Partition ν κ α} (h : p ∈ (t.insert key a).parts) :
    p ∈ t.parts ∨ ∃ q ∈ t.parts, q.Covers (key a) ∧ p = { q with rows := q.rows ++ [a] } := by
  unfold Table.insert at h
  split at h
  · rename_i ps hps
    exact mem_place hps p h
  · exact Or.inl h

theorem Table.rest_insert (h : t.Covers (key a)) : (t.insert key a).rest = t.rest := by
  obtain ⟨ps, hps⟩ := place_of_covers h
  unfold Table.insert
  rw [hps]

theorem Table.Routed.insert (h : t.Routed key) (a : α) : (t.insert key a).Routed key := by
  intro p hp b hb
  rcases Table.parts_insert hp with hp | ⟨q, hq, hk, rfl⟩
  · exact h p hp b hb
  · rcases List.mem_append.mp hb with hb | hb
    · exact h q hq b hb
    · rw [List.mem_singleton] at hb
      subst hb
      exact hk

theorem Table.create_eq {t' : Table ν κ α} {n : ν} {lo hi : κ} (h : t.create key n lo hi = some t') :
    t' = { t with parts := t.parts ++ [{ name := n, lo := lo, hi := hi, rows := [] }] } := by
  unfold Table.create at h
  split at h
  · cases h
  · exact (Option.some.inj h).symm

theorem Table.Routed.create {t' : Table ν κ α} (h : t.Routed key) {n : ν} {lo hi : κ}
    (hc : t.create key n lo hi = some t') : t'.Routed key := by
  rw [Table.create_eq hc]
  intro p hp b hb
  rcases List.mem_append.mp hp with hp | hp
  · exact h p hp b hb
  · rw [List.mem_singleton] at hp
    subst hp
    cases hb

theorem Table.Routed.dropNamed (h : t.Routed key) (sel : ν → Bool) :
    (t.dropNamed sel).Routed key :=
  fun p hp => h p (List.mem_filter.mp hp).1

omit [LinearOrder κ] in
theorem Table.mem_rows_dropNamed {sel : ν → Bool} :
    a ∈ (t.dropNamed sel).rows ↔ (∃ p ∈ t.parts, sel p.name = false ∧ a ∈ p.rows) ∨ a ∈ t.rest := by
  simp only [Table.rows, Table.dropNamed, List.mem_append, List.mem_flatMap, List.mem_filter,
    Bool.not_eq_true', and_assoc]

end Ranges
