import Mathlib.Logic.Function.Basic

/-!
# A store whose entries expire

Each key holds at most one item, with the instant it is gone. An item that was
dropped early looks like one that has expired.
-/

namespace TtlCache

structure Item (ε : Type*) where
  value : ε
  deadline : Int

abbrev Store (κ ε : Type*) := κ → Option (Item ε)

namespace Store

variable {κ ε : Type*} {now : Int} {v : ε}

def empty : Store κ ε := fun _ => none

def get (now : Int) (k : κ) (c : Store κ ε) : Option ε :=
  match c k with
  | some i => if now < i.deadline then some i.value else none
  | none => none

def set [DecidableEq κ] (now ttl : Int) (k : κ) (v : ε) (c : Store κ ε) : Store κ ε :=
  Function.update c k (some ⟨v, now + ttl⟩)

def del [DecidableEq κ] (k : κ) (c : Store κ ε) : Store κ ε := Function.update c k none

def All (P : κ → ε → Prop) (c : Store κ ε) : Prop := ∀ k i, c k = some i → P k i.value

variable {P : κ → ε → Prop} {c : Store κ ε} {k : κ}

theorem exists_of_get (h : c.get now k = some v) : ∃ i, c k = some i ∧ i.value = v := by
  unfold get at h
  split at h
  · rename_i i hi
    split at h
    · exact ⟨i, hi, Option.some.inj h⟩
    · cases h
  · cases h

theorem get_of_none (h : c k = none) : c.get now k = none := by
  rw [get, h]

theorem All.get (h : c.All P) (hg : c.get now k = some v) : P k v := by
  obtain ⟨i, hi, rfl⟩ := exists_of_get hg
  exact h k i hi

variable [DecidableEq κ]

theorem get_set_self {now' ttl : Int} (h : now < now' + ttl) : (c.set now' ttl k v).get now k = some v := by
  rw [get, set, Function.update_self]
  exact if_pos h

theorem All.set {ttl : Int} (h : c.All P) (hv : P k v) : (c.set now ttl k v).All P := by
  intro k' i hi
  by_cases e : k' = k
  · subst e
    rw [Store.set, Function.update_self] at hi
    obtain rfl := Option.some.inj hi
    exact hv
  · rw [Store.set, Function.update_of_ne e] at hi
    exact h k' i hi

theorem All.del (h : c.All P) : (c.del k).All P := by
  intro k' i hi
  by_cases e : k' = k
  · subst e
    rw [Store.del, Function.update_self] at hi
    cases hi
  · rw [Store.del, Function.update_of_ne e] at hi
    exact h k' i hi

theorem del_self : c.del k k = none := Function.update_self ..

theorem del_eq_none {k' : κ} (h : c k' = none) : c.del k k' = none := by
  by_cases e : k' = k
  · rw [e]
    exact del_self
  · rw [del, Function.update_of_ne e, h]

theorem set_of_ne {ttl : Int} {k' : κ} (h : k' ≠ k) : c.set now ttl k v k' = c k' :=
  Function.update_of_ne h ..

end Store

end TtlCache
