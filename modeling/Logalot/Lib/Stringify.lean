import Logalot.Lib.JsString
import Logalot.Lib.Utf8

/-!
# JSON from JavaScript

What `JSON.stringify` writes for strings and for objects of texts, in UTF-8, and
what a decoder makes of it. A surrogate that stands alone is written as an escape
and becomes U+FFFD.
-/

namespace Js

open Go Json

/-! ## Code points -/

def pairValue (c d : UInt16) : Nat := (c.toNat - 0xD800) * 1024 + (d.toNat - 0xDC00) + 0x10000

/-- Surrogates that stand alone are code points, too. -/
def codePoints : JsString → List Nat
  | [] => []
  | [c] => [c.toNat]
  | c :: d :: s => if isHigh c && isLow d then pairValue c d :: codePoints s else c.toNat :: codePoints (d :: s)

def utf8 (s : JsString) : Bytes := (codePoints s).flatMap encodeRune

def IsHighPoint (r : Nat) : Prop := 0xD800 ≤ r ∧ r < 0xDC00

def IsLowPoint (r : Nat) : Prop := 0xDC00 ≤ r ∧ r < 0xE000

theorem isHigh_iff {c : UInt16} : isHigh c = true ↔ IsHighPoint c.toNat := by
  simp only [isHigh, IsHighPoint, Bool.and_eq_true, decide_eq_true_eq, UInt16.le_iff_toNat_le]
  exact and_congr Iff.rfl Nat.lt_succ_iff.symm

theorem isLow_iff {c : UInt16} : isLow c = true ↔ IsLowPoint c.toNat := by
  simp only [isLow, IsLowPoint, Bool.and_eq_true, decide_eq_true_eq, UInt16.le_iff_toNat_le]
  exact and_congr Iff.rfl Nat.lt_succ_iff.symm

theorem pairValue_bounds {c d : UInt16} (h : (isHigh c && isLow d) = true) :
    0x10000 ≤ pairValue c d ∧ pairValue c d < 0x110000 := by
  obtain ⟨hc, hd⟩ := Bool.and_eq_true_iff.mp h
  obtain ⟨hc1, hc2⟩ := isHigh_iff.mp hc
  obtain ⟨hd1, hd2⟩ := isLow_iff.mp hd
  unfold pairValue
  omega

theorem codePoints_lt (s : JsString) : ∀ r ∈ codePoints s, r < 0x110000 := by
  induction s using codePoints.induct with
  | case1 => exact fun _ h => absurd h List.not_mem_nil
  | case2 c =>
    have := c.toNat_lt
    simp only [codePoints, List.mem_singleton, forall_eq]
    omega
  | case3 c d s h ih =>
    rw [codePoints, if_pos h]
    exact List.forall_mem_cons.mpr ⟨(pairValue_bounds h).2, ih⟩
  | case4 c d s h ih =>
    have := c.toNat_lt
    rw [codePoints, if_neg h]
    exact List.forall_mem_cons.mpr ⟨by omega, ih⟩

theorem head_codePoints (c : UInt16) (s : JsString) :
    ∃ r l, codePoints (c :: s) = r :: l ∧ (IsLowPoint r → isLow c = true) := by
  cases s with
  | nil => exact ⟨_, _, rfl, isLow_iff.mpr⟩
  | cons d s =>
    rw [codePoints]
    split
    · rename_i h
      refine ⟨_, _, rfl, fun hl => ?_⟩
      have := (pairValue_bounds h).1
      exact absurd hl.2 (by omega)
    · exact ⟨_, _, rfl, isLow_iff.mpr⟩

theorem codePoints_chain (s : JsString) : (codePoints s).IsChain fun r r' => ¬ (IsHighPoint r ∧ IsLowPoint r') := by
  induction s using codePoints.induct with
  | case1 => exact .nil
  | case2 c => exact .singleton _
  | case3 c d s h ih =>
    rw [codePoints, if_pos h, List.isChain_cons]
    refine ⟨fun r' _ hc => ?_, ih⟩
    have := (pairValue_bounds h).1
    exact absurd hc.1.2 (by omega)
  | case4 c d s h ih =>
    rw [codePoints, if_neg h, List.isChain_cons]
    refine ⟨fun r' hr' hc => ?_, ih⟩
    obtain ⟨r, l, hrl, hlow⟩ := head_codePoints d s
    rw [hrl, List.head?_cons, Option.mem_some_iff] at hr'
    subst hr'
    exact h (Bool.and_eq_true_iff.mpr ⟨isHigh_iff.mpr hc.1, hlow hc.2⟩)

/-! ## Literals -/

def hexDigit (n : Nat) : UInt8 := if n < 10 then UInt8.ofNat (48 + n) else UInt8.ofNat (87 + n)

def unicodeEscape (r : Nat) : Bytes :=
  [92, 117, hexDigit (r / 4096), hexDigit (r / 256 % 16), hexDigit (r / 16 % 16), hexDigit (r % 16)]

def shortEscapes : List (Nat × UInt8) := [(8, 98), (9, 116), (10, 110), (12, 102), (13, 114), (34, 34), (92, 92)]

def quoteCodePoint (r : Nat) : Bytes :=
  match shortEscapes.lookup r with
  | some e => [92, e]
  | none => if r < 32 ∨ (0xD800 ≤ r ∧ r < 0xE000) then unicodeEscape r else encodeRune r

/-- `JSON.stringify` of a string. -/
def stringify (s : JsString) : Bytes := 34 :: (codePoints s).flatMap quoteCodePoint ++ [34]

theorem hexDigit_spec : ∀ n < 16, isHex (hexDigit n) = true ∧ hexVal (hexDigit n) = n := by decide

variable {r n k : Nat} {s : Bytes}

theorem getu4_unicodeEscape (h : r < 0x10000) :
    getu4 (hexDigit (r / 4096)) (hexDigit (r / 256 % 16)) (hexDigit (r / 16 % 16)) (hexDigit (r % 16)) = r := by
  unfold getu4
  rw [(hexDigit_spec (r / 4096) (by omega)).2, (hexDigit_spec (r / 256 % 16) (by omega)).2,
    (hexDigit_spec (r / 16 % 16) (by omega)).2, (hexDigit_spec (r % 16) (by omega)).2]
  omega

inductive Quoted (r : Nat) : Bytes → Prop
  | short (e : UInt8) (h : (r, e) ∈ shortEscapes) : Quoted r [92, e]
  | escaped (h : r < 32 ∨ (0xD800 ≤ r ∧ r < 0xE000)) : Quoted r (unicodeEscape r)
  | plain (h : IsScalar r) (hge : 32 ≤ r) (hq : r ≠ 34) (hb : r ≠ 92) : Quoted r (encodeRune r)

theorem quoted_quoteCodePoint (h : r < 0x110000) : Quoted r (quoteCodePoint r) := by
  unfold quoteCodePoint
  split
  · rename_i e he
    obtain ⟨l, l', hl, -⟩ := List.lookup_eq_some_iff.mp he
    exact .short e (by rw [hl]; simp)
  · rename_i hn
    split
    · rename_i he
      exact .escaped he
    · rename_i he
      have hne : ∀ p ∈ shortEscapes, (r != p.1) = true := List.lookup_eq_none_iff.mp hn
      exact .plain ⟨h, fun hs => he (.inr hs)⟩ (Nat.le_of_not_lt fun hs => he (.inl hs))
        (by simpa using hne (34, 34) (by decide)) (by simpa using hne (92, 92) (by decide))

def PassesScan (c : UInt8) : Prop := c ≠ 34 ∧ c ≠ 92 ∧ ¬ c < 32

theorem scanString_pass {w : Bytes} (hw : ∀ c ∈ w, PassesScan c) (s : Bytes) :
    scanString (w ++ s) = (scanString s).map fun p => (w ++ p.1, p.2) := by
  induction w with
  | nil => simp
  | cons c w ih =>
    obtain ⟨⟨hq, hb, hge⟩, hw⟩ := List.forall_mem_cons.mp hw
    rw [List.cons_append, scanString, if_neg hq, if_neg (not_or.mpr ⟨hge, hb⟩), ih hw, Option.map_map]
    · rfl
    all_goals simp_all

theorem passesScan_of_ge (h : 0x80 ≤ n) (h' : n < 256) : PassesScan (UInt8.ofNat n) := by
  have hn := toNat_ofNat h'
  refine ⟨fun he => ?_, fun he => ?_, fun hlt => ?_⟩
  · rw [he] at hn
    exact absurd hn (by simp; omega)
  · rw [he] at hn
    exact absurd hn (by simp; omega)
  · rw [UInt8.lt_iff_toNat_lt, hn] at hlt
    exact absurd hlt (by simp; omega)

theorem encodeRune_passes (h : IsScalar r) (hge : 32 ≤ r) (hq : r ≠ 34) (hb : r ≠ 92) :
    ∀ c ∈ encodeRune r, PassesScan c := by
  have he := encoded_encodeRune h
  generalize encodeRune r = w at he
  cases he with
  | one h =>
    have hn := toNat_ofNat (show r < 256 by omega)
    simp only [List.mem_singleton, forall_eq]
    refine ⟨fun he => ?_, fun he => ?_, fun hlt => ?_⟩
    · rw [he] at hn
      exact hq hn.symm
    · rw [he] at hn
      exact hb hn.symm
    · rw [UInt8.lt_iff_toNat_lt, hn] at hlt
      exact absurd hlt (Nat.not_lt.mpr hge)
  | two h h' =>
    simp only [List.forall_mem_cons]
    exact ⟨passesScan_of_ge (by omega) (by omega), passesScan_of_ge (by omega) (by omega),
      fun _ h => absurd h List.not_mem_nil⟩
  | three h h' hs =>
    simp only [List.forall_mem_cons]
    exact ⟨passesScan_of_ge (by omega) (by omega), passesScan_of_ge (by omega) (by omega),
      passesScan_of_ge (by omega) (by omega), fun _ h => absurd h List.not_mem_nil⟩
  | four h h' =>
    simp only [List.forall_mem_cons]
    exact ⟨passesScan_of_ge (by omega) (by omega), passesScan_of_ge (by omega) (by omega),
      passesScan_of_ge (by omega) (by omega), passesScan_of_ge (by omega) (by omega),
      fun _ h => absurd h List.not_mem_nil⟩

theorem shortEscapes_spec : ∀ p ∈ shortEscapes, p.2 ∈ escapes ∧ p.2 ≠ 117 := by decide

theorem scanString_quote (h : r < 0x110000) (s : Bytes) :
    scanString (quoteCodePoint r ++ s) = (scanString s).map fun p => (quoteCodePoint r ++ p.1, p.2) := by
  have hq := quoted_quoteCodePoint h
  generalize quoteCodePoint r = w at hq
  cases hq with
  | short e he =>
    obtain ⟨hesc, hne⟩ := shortEscapes_spec _ he
    show scanString (92 :: e :: s) = _
    rw [scanString, if_pos hesc]
    · rfl
    · exact fun _ _ _ _ _ h117 _ => hne h117
  | escaped he =>
    have h1 := (hexDigit_spec (r / 4096) (by omega)).1
    have h2 := (hexDigit_spec (r / 256 % 16) (by omega)).1
    have h3 := (hexDigit_spec (r / 16 % 16) (by omega)).1
    have h4 := (hexDigit_spec (r % 16) (by omega)).1
    show scanString (92 :: 117 :: _ :: _ :: _ :: _ :: s) = _
    rw [scanString, if_pos (by simp [h1, h2, h3, h4])]
    rfl
  | plain hs hge hq hb => exact scanString_pass (encodeRune_passes hs hge hq hb) s

theorem scanString_literal {l : List Nat} (hl : ∀ r ∈ l, r < 0x110000) (s : Bytes) :
    scanString (l.flatMap quoteCodePoint ++ 34 :: s) = some (l.flatMap quoteCodePoint, s) := by
  induction l with
  | nil => rfl
  | cons r l ih =>
    obtain ⟨hr, hl⟩ := List.forall_mem_cons.mp hl
    rw [List.flatMap_cons, List.append_assoc, scanString_quote hr, ih hl]
    rfl

/-! ## Reading literals -/

theorem unquoteFrom_skip (w s : Bytes) : unquoteFrom w.length (w ++ s) = unquoteFrom 0 s := by
  induction w with
  | nil => rfl
  | cons c w ih => exact ih

theorem unquoteFrom_step {c : UInt8} {w v : Bytes} (h : unquoteChar c (w ++ s) = (v, w.length + 1)) :
    unquoteFrom 0 (c :: w ++ s) = v ++ unquoteFrom 0 s := by
  rw [List.cons_append, unquoteFrom, h]
  exact congrArg (v ++ ·) (unquoteFrom_skip w s)

theorem le_ofNat {k : UInt8} (h : n < 256) : k ≤ UInt8.ofNat n ↔ k.toNat ≤ n := by
  rw [UInt8.le_iff_toNat_le, toNat_ofNat h]

theorem ofNat_le {k : UInt8} (h : n < 256) : UInt8.ofNat n ≤ k ↔ n ≤ k.toNat := by
  rw [UInt8.le_iff_toNat_le, toNat_ofNat h]

theorem ofNat_lt {k : UInt8} (h : n < 256) : UInt8.ofNat n < k ↔ n < k.toNat := by
  rw [UInt8.lt_iff_toNat_lt, toNat_ofNat h]

theorem ofNat_eq {k : UInt8} (h : n < 256) : UInt8.ofNat n = k ↔ n = k.toNat := by
  rw [← UInt8.toNat_inj, toNat_ofNat h]

theorem unquoteChar_tails {lo hi b : UInt8} {w : Bytes} (hn : n < 256) (hge : 0x80 ≤ n)
    (htails : tails (UInt8.ofNat n) = some (k, lo, hi)) (hk : (b :: w).length = k) (hlo : lo ≤ b) (hhi : b ≤ hi)
    (hw : ∀ d ∈ w, (0x80 : UInt8) ≤ d ∧ d ≤ 0xBF) :
    unquoteChar (UInt8.ofNat n) (b :: w ++ s) = (UInt8.ofNat n :: b :: w, (b :: w).length + 1) := by
  have hbs : UInt8.ofNat n ≠ 92 := fun he => by
    rw [ofNat_eq hn] at he
    exact absurd he (by simp; omega)
  have hlt : ¬ UInt8.ofNat n < 0x80 := by
    rw [ofNat_lt hn]
    exact Nat.not_lt.mpr hge
  have htake : (w ++ s).take (k - 1) = w := by
    rw [← hk]
    exact List.take_left
  have his : isTails k lo hi (b :: w ++ s) = true := by
    rw [List.cons_append, isTails, htake, ← hk]
    simpa [hlo, hhi] using hw
  have htake' : (b :: w ++ s).take k = b :: w := by
    rw [← hk]
    exact List.take_left
  unfold unquoteChar
  rw [if_neg hbs, if_neg hlt, htails]
  dsimp only
  rw [if_pos his, htake', hk]

theorem tails_two : ∀ n < 32, 2 ≤ n → tails (UInt8.ofNat (0xC0 + n)) = some (1, 0x80, 0xBF) := by decide

theorem tails_three : ∀ n < 16,
    tails (UInt8.ofNat (0xE0 + n)) = some (2, if n = 0 then 0xA0 else 0x80, if n = 13 then 0x9F else 0xBF) := by
  decide

theorem tails_four : ∀ n < 5,
    tails (UInt8.ofNat (0xF0 + n)) = some (3, if n = 0 then 0x90 else 0x80, if n = 4 then 0x8F else 0xBF) := by
  decide

theorem tail_bounds {m : Nat} (h : m < 64) : (0x80 : UInt8) ≤ UInt8.ofNat (0x80 + m) ∧ UInt8.ofNat (0x80 + m) ≤ 0xBF :=
  ⟨(le_ofNat (by omega)).mpr (Nat.le_add_right _ _),
    (ofNat_le (by omega)).mpr (Nat.add_le_add_left (Nat.le_of_lt_succ h) _)⟩

theorem unquoteChar_encoded {v : Bytes} (he : Encoded r v) (hb : r ≠ 92) (s : Bytes) :
    ∃ c w, v = c :: w ∧ unquoteChar c (w ++ s) = (v, w.length + 1) := by
  cases he with
  | one h =>
    refine ⟨_, _, rfl, ?_⟩
    unfold unquoteChar
    rw [if_neg fun he => hb ((ofNat_eq (by omega)).mp he), if_pos ((ofNat_lt (by omega)).mpr h)]
    rfl
  | two h h' =>
    obtain ⟨hlo, hhi⟩ := tail_bounds (Nat.mod_lt r (by decide : 0 < 64))
    exact ⟨_, _, rfl, unquoteChar_tails (by omega) (by omega) (tails_two (r / 64) (by omega) (by omega)) rfl hlo hhi
      fun _ h => absurd h List.not_mem_nil⟩
  | three h h' hs =>
    have hm := Nat.mod_lt (r / 64) (by decide : 0 < 64)
    obtain ⟨hlo, hhi⟩ := tail_bounds hm
    refine ⟨_, _, rfl, unquoteChar_tails (by omega) (by omega) (tails_three (r / 4096) (by omega)) rfl ?_ ?_ ?_⟩
    · split
      · exact (le_ofNat (by omega)).mpr (by simp; omega)
      · exact hlo
    · split
      · exact (ofNat_le (by omega)).mpr (by simp; omega)
      · exact hhi
    · exact List.forall_mem_singleton.mpr (tail_bounds (Nat.mod_lt r (by decide)))
  | four h h' =>
    have hm := Nat.mod_lt (r / 4096) (by decide : 0 < 64)
    obtain ⟨hlo, hhi⟩ := tail_bounds hm
    refine ⟨_, _, rfl, unquoteChar_tails (by omega) (by omega) (tails_four (r / 262144) (by omega)) rfl ?_ ?_ ?_⟩
    · split
      · exact (le_ofNat (by omega)).mpr (by simp; omega)
      · exact hlo
    · split
      · exact (ofNat_le (by omega)).mpr (by simp; omega)
      · exact hhi
    · exact List.forall_mem_cons.mpr ⟨tail_bounds (Nat.mod_lt (r / 64) (by decide)),
        List.forall_mem_singleton.mpr (tail_bounds (Nat.mod_lt r (by decide)))⟩

def NoLowFirst (s : Bytes) : Prop := ∀ a b c d t, s = 92 :: 117 :: a :: b :: c :: d :: t → ¬ IsLowPoint (getu4 a b c d)

theorem noLowFirst_quote (h : r < 0x110000) (hr : ¬ IsLowPoint r) (s : Bytes) :
    NoLowFirst (quoteCodePoint r ++ s) := by
  intro a b c d t he
  have hq := quoted_quoteCodePoint h
  generalize quoteCodePoint r = w at hq he
  cases hq with
  | short e hm =>
    obtain ⟨-, hne⟩ := shortEscapes_spec _ hm
    injection he with _ he
    injection he with he _
    exact absurd he hne
  | escaped hc =>
    obtain ⟨rfl, rfl, rfl, rfl, -⟩ : hexDigit (r / 4096) = a ∧ hexDigit (r / 256 % 16) = b ∧
        hexDigit (r / 16 % 16) = c ∧ hexDigit (r % 16) = d ∧ s = t := by simpa [unicodeEscape] using he
    rw [getu4_unicodeEscape (by omega)]
    exact hr
  | plain hs hge hq hb =>
    have hpass := encodeRune_passes hs hge hq hb
    obtain ⟨x, w, hcons, -⟩ := isRune_encodeRune h
    rw [hcons] at hpass he
    injection he with he _
    exact absurd he (hpass x List.mem_cons_self).2.1

theorem unquoteEscape_unicode (h : r < 0x10000) (hs : IsHighPoint r → NoLowFirst s) :
    unquoteEscape ((unicodeEscape r).tail ++ s) = (encodeRune r, 6) := by
  rw [unicodeEscape, List.tail_cons]
  simp only [List.cons_append, List.nil_append, unquoteEscape, getu4_unicodeEscape h]
  by_cases hsur : 0xD800 ≤ r ∧ r < 0xE000
  · rw [if_pos hsur, encodeRune_surrogate hsur]
    split
    · rename_i a b c d t
      by_cases hlow : r < 0xDC00 ∧ 0xDC00 ≤ getu4 a b c d ∧ getu4 a b c d < 0xE000
      · exact absurd hlow.2 (hs ⟨hsur.1, hlow.1⟩ a b c d t rfl)
      · rw [if_neg hlow]
    · rfl
  · rw [if_neg hsur]

theorem unquoteFrom_quote (h : r < 0x110000) (hs : IsHighPoint r → NoLowFirst s) :
    unquoteFrom 0 (quoteCodePoint r ++ s) = encodeRune r ++ unquoteFrom 0 s := by
  have hq := quoted_quoteCodePoint h
  generalize quoteCodePoint r = w at hq
  cases hq with
  | short e hm =>
    refine unquoteFrom_step ?_
    simp only [shortEscapes, List.mem_cons, Prod.mk.injEq, List.not_mem_nil, or_false] at hm
    rcases hm with ⟨rfl, rfl⟩ | ⟨rfl, rfl⟩ | ⟨rfl, rfl⟩ | ⟨rfl, rfl⟩ | ⟨rfl, rfl⟩ | ⟨rfl, rfl⟩ | ⟨rfl, rfl⟩
    all_goals rfl
  | escaped hc => exact unquoteFrom_step (unquoteEscape_unicode (by omega) hs)
  | plain hsc hge hq hb =>
    obtain ⟨c, w, hcons, hu⟩ := unquoteChar_encoded (encoded_encodeRune hsc) hb s
    rw [hcons] at hu ⊢
    exact unquoteFrom_step hu

theorem unquote_literal {l : List Nat} (hl : ∀ r ∈ l, r < 0x110000)
    (hc : l.IsChain fun r r' => ¬ (IsHighPoint r ∧ IsLowPoint r')) :
    unquote (l.flatMap quoteCodePoint) = l.flatMap encodeRune := by
  unfold unquote
  induction l with
  | nil => rfl
  | cons r l ih =>
    obtain ⟨hr, hl⟩ := List.forall_mem_cons.mp hl
    obtain ⟨hnext, hc⟩ := List.isChain_cons.mp hc
    have hlow : IsHighPoint r → NoLowFirst (l.flatMap quoteCodePoint) := by
      intro hh
      cases l with
      | nil => exact fun _ _ _ _ _ h => by cases h
      | cons r' l =>
        rw [List.flatMap_cons]
        exact noLowFirst_quote (hl r' List.mem_cons_self) (fun h => hnext r' rfl ⟨hh, h⟩) _
    rw [List.flatMap_cons, List.flatMap_cons, unquoteFrom_quote hr hlow, ih hl hc]

/-! ## Values -/

/-- A text that is read as the value whatever follows it, with `k` more arrays and objects open at most. -/
structure Scans (k : Nat) (raw : Bytes) (v : Value) : Prop where
  skip : ∀ s, skipWs (raw ++ s) = raw ++ s
  scan : ∀ n d s, raw.length ≤ n → k ≤ d → scanValue n d (raw ++ s) = some (v, s)

theorem Scans.parse {raw : Bytes} {v : Value} (h : Scans k raw v) (hk : k ≤ maxNestingDepth) :
    parse raw = some v := by
  have hskip := h.skip []
  have hscan := h.scan (2 * raw.length + 1) maxNestingDepth [] (by omega) hk
  rw [List.append_nil] at hskip hscan
  unfold Json.parse
  rw [hskip, hscan]
  rfl

theorem stringify_append (s : JsString) (t : Bytes) :
    stringify s ++ t = 34 :: ((codePoints s).flatMap quoteCodePoint ++ 34 :: t) := by
  simp [stringify]

theorem scanString_stringify (s : JsString) (t : Bytes) :
    scanString ((codePoints s).flatMap quoteCodePoint ++ 34 :: t) = some ((codePoints s).flatMap quoteCodePoint, t) :=
  scanString_literal (codePoints_lt s) t

theorem unquote_stringify (s : JsString) : unquote ((codePoints s).flatMap quoteCodePoint) = utf8 s :=
  unquote_literal (codePoints_lt s) (codePoints_chain s)

theorem scans_stringify (k : Nat) (s : JsString) : Scans k (stringify s) (.string (utf8 s)) where
  skip _ := rfl
  scan n d t hn _ := by
    cases n with
    | zero => exact absurd hn (by simp [stringify])
    | succ n =>
      rw [stringify_append]
      unfold scanValue
      rw [if_pos rfl, scanString_stringify, Option.map_some, unquote_stringify]

def membersText : List (JsString × Bytes) → Bytes
  | [] => []
  | [m] => stringify m.1 ++ 58 :: m.2
  | m :: m' :: ms => stringify m.1 ++ 58 :: m.2 ++ 44 :: membersText (m' :: ms)

/-- `JSON.stringify` of an object, given the texts of its values. -/
def objectText (members : List (JsString × Bytes)) : Bytes := 123 :: membersText members ++ [125]

theorem before_append (w s : Bytes) : before (w ++ s) s = w := by
  unfold before
  rw [List.length_append, Nat.add_sub_cancel, List.take_left]

theorem scanMembers_member {d : Nat} {key : JsString} {raw : Bytes} {v : Value} (h : Scans k raw v)
    (hn : raw.length ≤ n) (hk : k ≤ d) {c : UInt8} (hc : c = 44 ∨ c = 125) (t : Bytes) :
    scanMembers (n + 1) d (stringify key ++ 58 :: raw ++ c :: t) =
      if c = 44 then (scanMembers n d (skipWs t)).map fun p => ((utf8 key, raw) :: p.1, p.2)
      else some ([(utf8 key, raw)], t) := by
  have hskip : ∀ c s, c = 58 ∨ c = 44 ∨ c = 125 → skipWs (c :: s) = c :: s := by
    rintro c s (rfl | rfl | rfl) <;> rfl
  rw [List.append_assoc, stringify_append, List.cons_append]
  conv_lhs => unfold scanMembers
  rcases hc with rfl | rfl
  · simp only [scanString_stringify, hskip 58 _ (.inl rfl), h.skip, h.scan n d _ hn hk, hskip 44 _ (.inr (.inl rfl)),
      unquote_stringify, before_append, if_true]
  · simp only [scanString_stringify, hskip 58 _ (.inl rfl), h.skip, h.scan n d _ hn hk, hskip 125 _ (.inr (.inr rfl)),
      unquote_stringify, before_append]
    rfl

theorem skipWs_membersText (m : JsString × Bytes) (ms : List (JsString × Bytes)) (t : Bytes) :
    skipWs (membersText (m :: ms) ++ t) = membersText (m :: ms) ++ t := by
  cases ms with
  | nil => rfl
  | cons m' ms => rfl

theorem scanMembers_membersText {d : Nat} (hk : k ≤ d) (t : Bytes) (m : JsString × Bytes) (ms : List (JsString × Bytes))
    (h : ∀ m' ∈ m :: ms, ∃ v, Scans k m'.2 v) (hn : (membersText (m :: ms)).length ≤ n) :
    scanMembers n d (membersText (m :: ms) ++ 125 :: t) = some ((m :: ms).map fun m => (utf8 m.1, m.2), t) := by
  induction ms generalizing m n with
  | nil =>
    obtain ⟨v, hv⟩ := h m List.mem_cons_self
    rw [membersText, List.length_append, List.length_cons] at hn
    obtain ⟨n, rfl⟩ : ∃ n', n = n' + 1 := ⟨n - 1, by omega⟩
    rw [membersText, scanMembers_member hv (by omega) hk (.inr rfl), if_neg (by decide)]
    rfl
  | cons m' ms ih =>
    obtain ⟨v, hv⟩ := h m List.mem_cons_self
    rw [membersText, List.length_append, List.length_append, List.length_cons, List.length_cons] at hn
    obtain ⟨n, rfl⟩ : ∃ n', n = n' + 1 := ⟨n - 1, by omega⟩
    rw [membersText, List.append_assoc, List.cons_append, scanMembers_member hv (by omega) hk (.inl rfl), if_pos rfl,
      skipWs_membersText, ih m' (fun x hx => h x (List.mem_cons_of_mem _ hx)) (by omega)]
    rfl

theorem scans_objectText {members : List (JsString × Bytes)} (h : ∀ m ∈ members, ∃ v, Scans k m.2 v) :
    Scans (k + 1) (objectText members) (.object (members.map fun m => (utf8 m.1, m.2))) where
  skip _ := rfl
  scan n d t hn hd := by
    obtain ⟨n, rfl⟩ : ∃ n', n = n' + 1 := ⟨n - 1, by simp [objectText] at hn; omega⟩
    obtain ⟨d, rfl⟩ : ∃ d', d = d' + 1 := ⟨d - 1, by omega⟩
    have hcons : objectText members ++ t = 123 :: (membersText members ++ 125 :: t) := by simp [objectText]
    rw [hcons]
    unfold scanValue
    rw [if_neg (by decide), if_pos rfl]
    cases members with
    | nil => rfl
    | cons m ms =>
      rw [skipWs_membersText]
      have hmem := scanMembers_membersText (Nat.le_of_succ_le_succ hd) t m ms h
        (show (membersText (m :: ms)).length ≤ n by simp [objectText] at hn; omega)
      obtain ⟨x, hx⟩ : ∃ x, membersText (m :: ms) ++ 125 :: t = 34 :: x := by cases ms <;> exact ⟨_, rfl⟩
      rw [hx] at hmem ⊢
      show (scanMembers n d (34 :: x)).map (fun p => (Value.object p.1, p.2)) = _
      rw [hmem]
      rfl

end Js
