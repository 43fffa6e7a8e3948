import Mathlib.Data.List.Lex
import Logalot.Lib.Bytes

/-!
# UUIDs and their text form

The `uuid` type of Postgres: sixteen bytes compared from the left. `uuidIn`
follows the server's input function (either case, optional braces, a hyphen
after any two bytes) and `uuidOut` its output function; reading back what was
written gives the same value.
-/

namespace Pg

open Go

structure Uuid where
  bytes : List UInt8
  length_bytes : bytes.length = 16
  deriving DecidableEq

/-- One byte, repeated. -/
def Uuid.rep (d : UInt8) : Uuid := ⟨List.replicate 16 d, List.length_replicate⟩

/-- Comparison of the bytes from the left. -/
instance : LinearOrder Uuid :=
  LinearOrder.lift' (fun u => u.bytes.map UInt8.toNat) fun u v h => by
    have hb : u.bytes = v.bytes := List.map_injective_iff.mpr (fun _ _ => UInt8.toNat_inj.mp) h
    cases u
    cases v
    cases hb
    rfl

def hexVal (c : UInt8) : Option UInt8 :=
  if 48 ≤ c ∧ c ≤ 57 then some (c - 48)
  else if 97 ≤ c ∧ c ≤ 102 then some (c - 87)
  else if 65 ≤ c ∧ c ≤ 70 then some (c - 55)
  else none

def hexPair (a b : UInt8) : Option UInt8 :=
  match hexVal a, hexVal b with
  | some x, some y => some (x * 16 + y)
  | _, _ => none

/-- The text after a byte of which `left` more follow: a hyphen is skipped there
after every second byte. -/
def skipHyphen (left : Nat) (s : Bytes) : Bytes :=
  if s.head? = some 45 ∧ left % 2 = 0 ∧ left ≠ 0 then s.tail else s

/-- Read `left` bytes; what remains is returned with them. -/
def uuidFrom : Nat → Bytes → Option (List UInt8 × Bytes)
  | 0, s => some ([], s)
  | left + 1, a :: b :: s =>
    match hexPair a b with
    | some d => (uuidFrom left (skipHyphen left s)).map fun r => (d :: r.1, r.2)
    | none => none
  | _ + 1, _ => none

def uuidIn (s : Bytes) : Option Uuid :=
  let braces := s.head? = some 123
  match uuidFrom 16 (if braces then s.tail else s) with
  | none => none
  | some (ds, rest) =>
    if h : rest = (if braces then [125] else []) ∧ ds.length = 16 then some ⟨ds, h.2⟩ else none

def hexDigit (d : UInt8) : UInt8 := if d < 10 then d + 48 else d + 87

def uuidOutFrom : List UInt8 → Bytes
  | [] => []
  | d :: ds =>
    hexDigit (d / 16) :: hexDigit (d % 16) ::
      (if ds.length ∈ [12, 10, 8, 6] then 45 :: uuidOutFrom ds else uuidOutFrom ds)

def uuidOut (u : Uuid) : Bytes := uuidOutFrom u.bytes

/-! ## Round trip -/

theorem hexPair_hexDigit (d : UInt8) : hexPair (hexDigit (d / 16)) (hexDigit (d % 16)) = some d := by
  have h : ∀ d : UInt8, hexPair (hexDigit (d / 16)) (hexDigit (d % 16)) = some d := by decide +kernel
  exact h d

theorem hexDigit_ne (d : UInt8) : hexDigit (d / 16) ≠ 45 ∧ hexDigit (d / 16) ≠ 123 := by
  have h : ∀ d : UInt8, hexDigit (d / 16) ≠ 45 ∧ hexDigit (d / 16) ≠ 123 := by decide +kernel
  exact h d

theorem head_uuidOutFrom (ds : List UInt8) :
    (uuidOutFrom ds).head? ≠ some 45 ∧ (uuidOutFrom ds).head? ≠ some 123 := by
  cases ds with
  | nil => simp [uuidOutFrom]
  | cons d ds => simpa [uuidOutFrom] using hexDigit_ne d

theorem uuidFrom_uuidOutFrom : ∀ ds : List UInt8, uuidFrom ds.length (uuidOutFrom ds) = some (ds, [])
  | [] => rfl
  | d :: ds => by
    have ih := uuidFrom_uuidOutFrom ds
    -- the hyphens written are among those the reader skips, and nothing else is one
    have hs : skipHyphen ds.length (if ds.length ∈ [12, 10, 8, 6] then 45 :: uuidOutFrom ds else uuidOutFrom ds) =
        uuidOutFrom ds := by
      split
      · have he : ds.length % 2 = 0 ∧ ds.length ≠ 0 := by
          rename_i hm
          simp only [List.mem_cons, List.not_mem_nil, or_false] at hm
          omega
        simp [skipHyphen, he]
      · rw [skipHyphen, if_neg fun e => (head_uuidOutFrom ds).1 e.1]
    rw [uuidOutFrom, List.length_cons, uuidFrom, hexPair_hexDigit]
    simp only [hs, ih, Option.map_some]

theorem uuidIn_uuidOut (u : Uuid) : uuidIn (uuidOut u) = some u := by
  have hb : (uuidOut u).head? ≠ some 123 := (head_uuidOutFrom u.bytes).2
  have hr : uuidFrom 16 (uuidOut u) = some (u.bytes, []) := u.length_bytes ▸ uuidFrom_uuidOutFrom u.bytes
  simp [uuidIn, hb, hr, u.length_bytes]

/-! ## Characters -/

theorem of_mem_uuidOutFrom {c : UInt8} : ∀ {ds : List UInt8}, c ∈ uuidOutFrom ds → (hexVal c).isSome ∨ c = 45
  | d :: ds, h => by
    have hh : ∀ d : UInt8, (hexVal (hexDigit (d / 16))).isSome ∧ (hexVal (hexDigit (d % 16))).isSome := by
      decide +kernel
    rw [uuidOutFrom] at h
    rcases List.mem_cons.mp h with rfl | h
    · exact Or.inl (hh d).1
    rcases List.mem_cons.mp h with rfl | h
    · exact Or.inl (hh d).2
    split at h
    · rcases List.mem_cons.mp h with rfl | h
      · exact Or.inr rfl
      · exact of_mem_uuidOutFrom h
    · exact of_mem_uuidOutFrom h

theorem underscore_not_mem_uuidOut (u : Uuid) : 95 ∉ uuidOut u := by
  intro h
  rcases of_mem_uuidOutFrom h with h | h
  · exact absurd h (by decide)
  · exact absurd h (by decide)

theorem uuidOut_ne_nil (u : Uuid) : uuidOut u ≠ [] := by
  intro h
  have hu := uuidIn_uuidOut u
  rw [h] at hu
  cases hu

example : (uuidIn (bs "{11111111-1111-4111-8111-1111111111AF}")).map uuidOut =
    some (bs "11111111-1111-4111-8111-1111111111af") := by decide

end Pg
