import Logalot.Lib.Split
import Logalot.Lib.Stringify

/-!
# Texts in two languages

A text is a sequence of characters of Unicode. JavaScript holds it in UTF-16 and
Go in UTF-8; both are codes in which no word starts inside another, so a text is
split into the same parts in either.
-/

namespace Js

open Go Json Split

def charUnits (c : Char) : JsString :=
  if c.toNat < 0x10000 then [UInt16.ofNat c.toNat]
  else [UInt16.ofNat (0xD800 + (c.toNat - 0x10000) / 1024), UInt16.ofNat (0xDC00 + (c.toNat - 0x10000) % 1024)]

def utf16 (s : List Char) : JsString := s.flatMap charUnits

def charBytes (c : Char) : Bytes := encodeRune c.toNat

def utf8Text (s : List Char) : Bytes := s.flatMap charBytes

theorem isScalar_toNat (c : Char) : IsScalar c.toNat := by
  have h : c.toNat < 0xD800 ∨ 0xDFFF < c.toNat ∧ c.toNat < 0x110000 := c.valid
  unfold IsScalar
  omega

/-! ## UTF-16 -/

theorem toNat_ofNat16 {n : Nat} (h : n < 65536) : (UInt16.ofNat n).toNat = n := by
  rw [UInt16.toNat_ofNat', Nat.mod_eq_of_lt h]

inductive Units (r : Nat) : JsString → Prop
  | one (u : UInt16) (h : u.toNat = r) (hl : isLow u = false) (hh : isHigh u = false) : Units r [u]
  | two (u v : UInt16) (hu : isHigh u = true) (hv : isLow v = true) (h : pairValue u v = r) : Units r [u, v]

theorem units_charUnits (c : Char) : Units c.toNat (charUnits c) := by
  obtain ⟨hmax, hs⟩ := isScalar_toNat c
  unfold charUnits
  generalize c.toNat = r at hmax hs
  by_cases h : r < 0x10000
  · rw [if_pos h]
    have hr := toNat_ofNat16 h
    refine .one _ hr ?_ ?_
    · rw [Bool.eq_false_iff, ne_eq, isLow_iff, hr]
      exact fun hl => hs ⟨le_trans (by decide) hl.1, hl.2⟩
    · rw [Bool.eq_false_iff, ne_eq, isHigh_iff, hr]
      exact fun hh => hs ⟨hh.1, lt_trans hh.2 (by decide)⟩
  · rw [if_neg h]
    have hhigh := toNat_ofNat16 (show 0xD800 + (r - 0x10000) / 1024 < 65536 by omega)
    have hlow := toNat_ofNat16 (show 0xDC00 + (r - 0x10000) % 1024 < 65536 by omega)
    refine .two _ _ ?_ ?_ ?_
    · rw [isHigh_iff, hhigh]
      unfold IsHighPoint
      omega
    · rw [isLow_iff, hlow]
      unfold IsLowPoint
      omega
    · unfold pairValue
      rw [hhigh, hlow]
      omega

theorem not_isLow_of_isHigh {u : UInt16} (h : isHigh u = true) : isLow u = false := by
  rw [isHigh_iff] at h
  rw [Bool.eq_false_iff, ne_eq, isLow_iff]
  exact fun hl => absurd h.2 (not_lt.mpr hl.1)

theorem Units.inj {r r' : Nat} {w : JsString} (h : Units r w) (h' : Units r' w) : r = r' := by
  cases h with
  | one u h => cases h' with | one _ h' => exact h.symm.trans h'
  | two u v _ _ h => cases h' with | two _ _ _ _ h' => exact h.symm.trans h'

theorem charUnits_inj {c d : Char} (h : charUnits c = charUnits d) : c = d :=
  Char.toNat_inj.mp ((units_charUnits c).inj (h ▸ units_charUnits d))

theorem syncCode_charUnits : SyncCode charUnits fun u => isLow u = false where
  shape c := by
    have h := units_charUnits c
    generalize charUnits c = w at h
    cases h with
    | one u _ hl _ => exact ⟨u, [], rfl, hl, fun _ h => absurd h List.not_mem_nil⟩
    | two u v hu hv _ =>
      refine ⟨u, [v], rfl, not_isLow_of_isHigh hu, List.forall_mem_singleton.mpr ?_⟩
      rw [hv]
      decide
  free c d h := by
    apply charUnits_inj
    have hc := units_charUnits c
    have hd := units_charUnits d
    generalize charUnits c = w at h hc
    generalize charUnits d = v at h hd
    obtain ⟨t, ht⟩ := h
    cases hc with
    | one u _ hl hh =>
      cases hd with
      | one u' _ _ _ =>
        cases ht
        rfl
      | two u' v' hu' _ _ =>
        rw [(List.cons.inj ht).1, hu'] at hh
        cases hh
    | two u v _ _ _ =>
      cases hd with
      | one u' _ _ _ => cases ht
      | two u' v' _ _ _ =>
        cases ht
        rfl

theorem codePoints_units {r : Nat} {w : JsString} (h : Units r w) (s : JsString) :
    codePoints (w ++ s) = r :: codePoints s := by
  cases h with
  | one u h hl hh =>
    rw [← h]
    cases s with
    | nil => rfl
    | cons d s =>
      show codePoints (u :: d :: s) = _
      rw [codePoints, hh, Bool.false_and, if_neg (by decide)]
  | two u v hu hv h =>
    show codePoints (u :: v :: s) = _
    rw [codePoints, hu, hv, Bool.and_self, if_pos rfl, h]

theorem codePoints_utf16 (s : List Char) : codePoints (utf16 s) = s.map Char.toNat := by
  induction s with
  | nil => rfl
  | cons c s ih =>
    rw [List.map_cons, ← ih]
    exact codePoints_units (units_charUnits c) (utf16 s)

theorem utf8_utf16 (s : List Char) : utf8 (utf16 s) = utf8Text s := by
  rw [utf8, codePoints_utf16, List.flatMap_map]
  rfl

/-! ## UTF-8 -/

def IsTail (b : UInt8) : Prop := 0x80 ≤ b.toNat ∧ b.toNat < 0xC0

theorem charBytes_inj {c d : Char} (h : charBytes c = charBytes d) : c = d := by
  have hc := (encoded_encodeRune (isScalar_toNat c)).value
  have hd := (encoded_encodeRune (isScalar_toNat d)).value
  have hv : runeValue (charBytes c) = runeValue (charBytes d) := congrArg runeValue h
  exact Char.toNat_inj.mp (hc.symm.trans (hv.trans hd))

theorem syncCode_charBytes : SyncCode charBytes fun b => ¬ IsTail b where
  shape c := by
    have h := encoded_encodeRune (isScalar_toNat c)
    have htail : ∀ {n : Nat}, n < 64 → ¬ ¬ IsTail (UInt8.ofNat (0x80 + n)) := by
      intro n hn
      rw [not_not, IsTail, toNat_ofNat (show 0x80 + n < 256 by omega)]
      omega
    have hlead : ∀ {n : Nat}, n < 256 → (n < 0x80 ∨ 0xC0 ≤ n) → ¬ IsTail (UInt8.ofNat n) := by
      intro n hn h
      rw [IsTail, toNat_ofNat hn]
      omega
    have hm : ∀ n, n % 64 < 64 := fun n => Nat.mod_lt n (by decide)
    show ∃ x w, encodeRune c.toNat = x :: w ∧ _
    generalize encodeRune c.toNat = w at h
    cases h with
    | one h => exact ⟨_, _, rfl, hlead (by omega) (.inl h), fun _ h => absurd h List.not_mem_nil⟩
    | two h h' =>
      exact ⟨_, _, rfl, hlead (by omega) (.inr (by omega)), List.forall_mem_singleton.mpr (htail (hm _))⟩
    | three h h' hs =>
      exact ⟨_, _, rfl, hlead (by omega) (.inr (by omega)), List.forall_mem_cons.mpr ⟨htail (hm _),
        List.forall_mem_singleton.mpr (htail (hm _))⟩⟩
    | four h h' =>
      exact ⟨_, _, rfl, hlead (by omega) (.inr (by omega)), List.forall_mem_cons.mpr ⟨htail (hm _),
        List.forall_mem_cons.mpr ⟨htail (hm _), List.forall_mem_singleton.mpr (htail (hm _))⟩⟩⟩
  free c d h := by
    obtain ⟨t, ht⟩ := h
    have hc := (encoded_encodeRune (isScalar_toNat c)).isRune
    have hd := (encoded_encodeRune (isScalar_toNat d)).isRune
    have heq : charBytes c ++ t = charBytes d ++ [] := by rw [ht, List.append_nil]
    exact charBytes_inj (hc.append_inj hd heq).1

end Js
