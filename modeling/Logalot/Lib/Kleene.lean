import Mathlib.Logic.Basic

/-!
# Three-valued truth

The truth values of SQL conditions, with `none` for unknown. A `WHERE` clause
keeps the rows on which its condition is `some true`.
-/

namespace Sql

abbrev Truth := Option Bool

def Truth.not : Truth → Truth
  | some b => some (!b)
  | none => none

def Truth.and : Truth → Truth → Truth
  | some false, _ => some false
  | _, some false => some false
  | some true, some true => some true
  | _, _ => none

def Truth.or : Truth → Truth → Truth
  | some true, _ => some true
  | _, some true => some true
  | some false, some false => some false
  | _, _ => none

theorem Truth.and_eq_true {a b : Truth} : a.and b = some true ↔ a = some true ∧ b = some true := by
  rcases a with _ | _ | _ <;> rcases b with _ | _ | _ <;> simp [Truth.and]

theorem Truth.or_eq_true {a b : Truth} : a.or b = some true ↔ a = some true ∨ b = some true := by
  rcases a with _ | _ | _ <;> rcases b with _ | _ | _ <;> simp [Truth.or]

end Sql
