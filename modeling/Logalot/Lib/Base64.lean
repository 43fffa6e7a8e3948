import Logalot.Lib.Bytes

/-!
# Base64

`base64.RawURLEncoding`: the alphabet for URLs, without padding. Line ends are
skipped, and the bits left over at the end are not checked.
-/

namespace Base64

open Go

def alphabet : Bytes := bs "ABCDEFGHIJKLMNOPQRSTUVWXYZabcdefghijklmnopqrstuvwxyz0123456789-_"

def encodeDigit (n : Nat) : UInt8 := alphabet.getD (n % 64) 0

def encode : Bytes → Bytes
  | [] => []
  | [a] => [encodeDigit (a.toNat / 4), encodeDigit (a.toNat * 16)]
  | [a, b] => [encodeDigit (a.toNat / 4), encodeDigit (a.toNat * 16 + b.toNat / 16), encodeDigit (b.toNat * 4)]
  | a :: b :: c :: s =>
    encodeDigit (a.toNat / 4) :: encodeDigit (a.toNat * 16 + b.toNat / 16) ::
      encodeDigit (b.toNat * 4 + c.toNat / 64) :: encodeDigit c.toNat :: encode s

example : encode (bs "\x7b\"ts\":1\x7d?") = bs "eyJ0cyI6MX0_" := by decide +kernel

theorem encode_ne_nil {s : Bytes} (h : s ≠ []) : encode s ≠ [] := by
  match s with
  | [] => exact absurd rfl h
  | [a] => simp [encode]
  | [a, b] => simp [encode]
  | a :: b :: c :: s => simp [encode]

/-! ## Decoding -/

def decodeDigit (c : UInt8) : Option Nat := if c ∈ alphabet then some (alphabet.idxOf c) else none

/-- The bytes of digits of six bits, four digits for three bytes. -/
def decodeFrom : List Nat → Option Bytes
  | [] => some []
  | [_] => none
  | [a, b] => some [UInt8.ofNat (a * 4 + b / 16)]
  | [a, b, c] => some [UInt8.ofNat (a * 4 + b / 16), UInt8.ofNat (b * 16 + c / 4)]
  | a :: b :: c :: d :: s =>
    (decodeFrom s).map fun t =>
      UInt8.ofNat (a * 4 + b / 16) :: UInt8.ofNat (b * 16 + c / 4) :: UInt8.ofNat (c * 64 + d) :: t

def decode (s : Bytes) : Option Bytes := ((s.filter fun c => c != 10 && c != 13).mapM decodeDigit).bind decodeFrom

example : decode (bs "eyJ0\ncyI6MX0_") = some (bs "\x7b\"ts\":1\x7d?") := by decide +kernel

example : decode (bs "eyJ0c") = none := by decide +kernel

/-! ## Round trip -/

def digits : Bytes → List Nat
  | [] => []
  | [a] => [a.toNat / 4, a.toNat * 16 % 64]
  | [a, b] => [a.toNat / 4, (a.toNat * 16 + b.toNat / 16) % 64, b.toNat * 4 % 64]
  | a :: b :: c :: s =>
    a.toNat / 4 :: (a.toNat * 16 + b.toNat / 16) % 64 :: (b.toNat * 4 + c.toNat / 64) % 64 :: c.toNat % 64 :: digits s

theorem encodeDigit_mod (n : Nat) : encodeDigit (n % 64) = encodeDigit n := by
  unfold encodeDigit
  rw [Nat.mod_mod]

theorem encode_eq_map (s : Bytes) : encode s = (digits s).map encodeDigit := by
  induction s using encode.induct with
  | case1 => rfl
  | case2 a => simp [encode, digits, encodeDigit_mod]
  | case3 a b => simp [encode, digits, encodeDigit_mod]
  | case4 a b c s ih => simp [encode, digits, encodeDigit_mod, ih]

theorem digits_lt (s : Bytes) : ∀ d ∈ digits s, d < 64 := by
  have hlt : ∀ a : UInt8, a.toNat / 4 < 64 := fun a => by
    have := a.toNat_lt
    omega
  have hmod : ∀ n, n % 64 < 64 := fun n => Nat.mod_lt n (by decide)
  induction s using digits.induct with
  | case1 => simp [digits]
  | case2 a => simp [digits, hlt, hmod]
  | case3 a b => simp [digits, hlt, hmod]
  | case4 a b c s ih => simpa [digits, hlt, hmod] using ih

theorem encodeDigit_spec : ∀ n < 64,
    decodeDigit (encodeDigit n) = some n ∧ (encodeDigit n != 10 && encodeDigit n != 13) = true := by
  decide +kernel

theorem decodeFrom_digits (s : Bytes) : decodeFrom (digits s) = some s := by
  have h1 : ∀ a : UInt8, ∀ m, m < 16 → UInt8.ofNat (a.toNat / 4 * 4 + (a.toNat * 16 + m) % 64 / 16) = a := by
    intro a m hm
    have := a.toNat_lt
    rw [show a.toNat / 4 * 4 + (a.toNat * 16 + m) % 64 / 16 = a.toNat by omega, UInt8.ofNat_toNat]
  have h2 : ∀ (a : Nat) (b : UInt8) (m : Nat), m < 4 →
      UInt8.ofNat ((a * 16 + b.toNat / 16) % 64 * 16 + (b.toNat * 4 + m) % 64 / 4) = b := by
    intro a b m hm
    have := b.toNat_lt
    rw [← UInt8.toNat_inj, UInt8.toNat_ofNat']
    omega
  have h3 : ∀ (b : Nat) (c : UInt8), UInt8.ofNat ((b * 4 + c.toNat / 64) % 64 * 64 + c.toNat % 64) = c := by
    intro b c
    have := c.toNat_lt
    rw [← UInt8.toNat_inj, UInt8.toNat_ofNat']
    omega
  have hb : ∀ b : UInt8, b.toNat / 16 < 16 := fun b => by
    have := b.toNat_lt
    omega
  have hc : ∀ c : UInt8, c.toNat / 64 < 4 := fun c => by
    have := c.toNat_lt
    omega
  induction s using digits.induct with
  | case1 => rfl
  | case2 a => simpa [digits, decodeFrom] using h1 a 0 (by decide)
  | case3 a b => simpa [digits, decodeFrom, h1 a _ (hb b)] using h2 a.toNat b 0 (by decide)
  | case4 a b c s ih =>
    simp only [digits, decodeFrom, ih, Option.map_some, h1 a _ (hb b), h2 a.toNat b _ (hc c), h3]

theorem mapM_decodeDigit {l : List Nat} (hl : ∀ d ∈ l, d < 64) :
    ((l.map encodeDigit).filter fun c => c != 10 && c != 13).mapM decodeDigit = some l := by
  induction l with
  | nil => rfl
  | cons d l ih =>
    obtain ⟨hd, hl⟩ := List.forall_mem_cons.mp hl
    obtain ⟨hdigit, hkept⟩ := encodeDigit_spec d hd
    rw [List.map_cons, List.filter_cons, if_pos hkept, List.mapM_cons, hdigit, ih hl]
    rfl

theorem decode_encode (s : Bytes) : decode (encode s) = some s := by
  unfold decode
  rw [encode_eq_map, mapM_decodeDigit (digits_lt s), Option.bind_some, decodeFrom_digits]

end Base64
