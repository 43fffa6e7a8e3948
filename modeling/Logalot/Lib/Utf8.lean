import Logalot.Lib.Json

/-!
# Texts in UTF-8

The first byte of an encoded rune tells how long it is, so an encoded text falls
into its runes in one way only. `strings.TrimSpace` leaves nothing of a text
exactly when each rune of it is white space.
-/

namespace Go

open Json

/-! ## Runes -/

def IsScalar (r : Nat) : Prop := r < 0x110000 ∧ ¬ (0xD800 ≤ r ∧ r < 0xE000)

def runeLength (lead : UInt8) : Nat :=
  if lead < 0x80 then 1 else if lead < 0xE0 then 2 else if lead < 0xF0 then 3 else 4

/-- The inverse of `encodeRune`. -/
def runeValue : Bytes → Nat
  | [a] => a.toNat
  | [a, b] => (a.toNat - 0xC0) * 64 + (b.toNat - 0x80)
  | [a, b, c] => ((a.toNat - 0xE0) * 64 + (b.toNat - 0x80)) * 64 + (c.toNat - 0x80)
  | [a, b, c, d] => (((a.toNat - 0xF0) * 64 + (b.toNat - 0x80)) * 64 + (c.toNat - 0x80)) * 64 + (d.toNat - 0x80)
  | _ => 0

inductive Encoded (r : Nat) : Bytes → Prop
  | one (h : r < 0x80) : Encoded r [UInt8.ofNat r]
  | two (h : 0x80 ≤ r) (h' : r < 0x800) : Encoded r [UInt8.ofNat (0xC0 + r / 64), UInt8.ofNat (0x80 + r % 64)]
  | three (h : 0x800 ≤ r) (h' : r < 0x10000) (hs : ¬ (0xD800 ≤ r ∧ r < 0xE000)) :
    Encoded r [UInt8.ofNat (0xE0 + r / 4096), UInt8.ofNat (0x80 + r / 64 % 64), UInt8.ofNat (0x80 + r % 64)]
  | four (h : 0x10000 ≤ r) (h' : r < 0x110000) :
    Encoded r [UInt8.ofNat (0xF0 + r / 262144), UInt8.ofNat (0x80 + r / 4096 % 64), UInt8.ofNat (0x80 + r / 64 % 64),
      UInt8.ofNat (0x80 + r % 64)]

variable {r : Nat} {w : Bytes}

theorem encoded_encodeRune (h : IsScalar r) : Encoded r (encodeRune r) := by
  obtain ⟨hmax, hs⟩ := h
  unfold encodeRune
  by_cases h1 : r < 0x80
  · rw [if_pos h1]
    exact .one h1
  · by_cases h2 : r < 0x800
    · rw [if_neg h1, if_pos h2]
      exact .two (by omega) h2
    · by_cases h3 : r < 0x10000
      · rw [if_neg h1, if_neg h2, if_neg hs, if_pos h3]
        exact .three (by omega) h3 hs
      · rw [if_neg h1, if_neg h2, if_neg hs, if_neg h3]
        exact .four (by omega) hmax

theorem encodeRune_surrogate (h : 0xD800 ≤ r ∧ r < 0xE000) : encodeRune r = replacement := by
  unfold encodeRune
  rw [if_neg (by omega), if_neg (by omega), if_pos h]

theorem toNat_ofNat {n : Nat} (h : n < 256) : (UInt8.ofNat n).toNat = n := by
  rw [UInt8.toNat_ofNat', Nat.mod_eq_of_lt h]

theorem Encoded.value (h : Encoded r w) : runeValue w = r := by
  cases h with
  | one h =>
    have ha := toNat_ofNat (show r < 256 by omega)
    exact ha
  | two h h' =>
    have ha := toNat_ofNat (show 0xC0 + r / 64 < 256 by omega)
    have hb := toNat_ofNat (show 0x80 + r % 64 < 256 by omega)
    dsimp only [runeValue]
    omega
  | three h h' hs =>
    have ha := toNat_ofNat (show 0xE0 + r / 4096 < 256 by omega)
    have hb := toNat_ofNat (show 0x80 + r / 64 % 64 < 256 by omega)
    have hc := toNat_ofNat (show 0x80 + r % 64 < 256 by omega)
    dsimp only [runeValue]
    omega
  | four h h' =>
    have ha := toNat_ofNat (show 0xF0 + r / 262144 < 256 by omega)
    have hb := toNat_ofNat (show 0x80 + r / 4096 % 64 < 256 by omega)
    have hc := toNat_ofNat (show 0x80 + r / 64 % 64 < 256 by omega)
    have hd := toNat_ofNat (show 0x80 + r % 64 < 256 by omega)
    dsimp only [runeValue]
    omega

/-- A text that starts with as many bytes as its first byte says. -/
def IsRune (w : Bytes) : Prop := ∃ lead t, w = lead :: t ∧ w.length = runeLength lead

theorem Encoded.isRune (h : Encoded r w) : IsRune w := by
  cases h with
  | one h =>
    refine ⟨_, _, rfl, ?_⟩
    simp only [runeLength, UInt8.lt_iff_toNat_lt, toNat_ofNat (show r < 256 by omega)]
    exact (if_pos h).symm
  | two h h' =>
    refine ⟨_, _, rfl, ?_⟩
    simp only [runeLength, UInt8.lt_iff_toNat_lt, toNat_ofNat (show 0xC0 + r / 64 < 256 by omega)]
    rw [if_neg (by simp; omega), if_pos (by simp; omega)]
    rfl
  | three h h' hs =>
    refine ⟨_, _, rfl, ?_⟩
    simp only [runeLength, UInt8.lt_iff_toNat_lt, toNat_ofNat (show 0xE0 + r / 4096 < 256 by omega)]
    rw [if_neg (by simp; omega), if_neg (by simp), if_pos (by simp; omega)]
    rfl
  | four h h' =>
    refine ⟨_, _, rfl, ?_⟩
    simp only [runeLength, UInt8.lt_iff_toNat_lt, toNat_ofNat (show 0xF0 + r / 262144 < 256 by omega)]
    rw [if_neg (by simp; omega), if_neg (by simp; omega), if_neg (by simp)]
    rfl

theorem isRune_encodeRune (h : r < 0x110000) : IsRune (encodeRune r) := by
  by_cases hs : 0xD800 ≤ r ∧ r < 0xE000
  · rw [encodeRune_surrogate hs]
    exact ⟨_, _, rfl, rfl⟩
  · exact (encoded_encodeRune ⟨h, hs⟩).isRune

theorem IsRune.append_inj {v s t : Bytes} (hv : IsRune v) (hw : IsRune w) (h : v ++ s = w ++ t) : v = w ∧ s = t := by
  obtain ⟨a, v', rfl, ha⟩ := hv
  obtain ⟨b, w', rfl, hb⟩ := hw
  obtain ⟨rfl, -⟩ : a = b ∧ v' ++ s = w' ++ t := List.cons.inj h
  exact List.append_inj h (ha.trans hb.symm)

/-! ## White space -/

theorem isRune_of_mem_spaceRunes : ∀ w ∈ spaceRunes, IsRune w := by
  intro w hw
  have h : ∀ w ∈ spaceRunes, w.head?.any (fun lead => w.length == runeLength lead) = true := by decide
  cases w with
  | nil => exact absurd (h [] hw) (by decide)
  | cons lead t => exact ⟨lead, t, rfl, by simpa using h _ hw⟩

theorem dropRune_eq_some {runes : List Bytes} {s s' : Bytes} (h : dropRune runes s = some s') :
    ∃ w ∈ runes, s = w ++ s' := by
  obtain ⟨w, hw, h⟩ := List.exists_of_findSome?_eq_some h
  split at h
  · rename_i hp
    obtain ⟨t, rfl⟩ := List.isPrefixOf_iff_prefix.mp hp
    rw [List.drop_left] at h
    exact ⟨w, hw, by rw [Option.some.inj h]⟩
  · cases h

theorem trimRunes_spec (runes : List Bytes) (n : Nat) (s : Bytes) :
    ∃ ws : List Bytes, (∀ w ∈ ws, w ∈ runes) ∧ s = ws.flatten ++ trimRunes runes n s := by
  induction n generalizing s with
  | zero => exact ⟨[], fun _ h => absurd h List.not_mem_nil, rfl⟩
  | succ n ih =>
    rw [trimRunes]
    split
    · rename_i s' h
      obtain ⟨w, hw, rfl⟩ := dropRune_eq_some h
      obtain ⟨ws, hws, hs⟩ := ih s'
      refine ⟨w :: ws, List.forall_mem_cons.mpr ⟨hw, hws⟩, ?_⟩
      rw [List.flatten_cons, List.append_assoc, ← hs]
    · exact ⟨[], fun _ h => absurd h List.not_mem_nil, rfl⟩

theorem dropRune_space (hw : w ∈ spaceRunes) (s : Bytes) : dropRune spaceRunes (w ++ s) = some s := by
  cases h : dropRune spaceRunes (w ++ s) with
  | none =>
    have hn := List.findSome?_eq_none_iff.mp h w hw
    rw [if_pos (List.isPrefixOf_iff_prefix.mpr (List.prefix_append w s))] at hn
    cases hn
  | some s' =>
    obtain ⟨v, hv, he⟩ := dropRune_eq_some h
    rw [((isRune_of_mem_spaceRunes w hw).append_inj (isRune_of_mem_spaceRunes v hv) he).2]

theorem trimRunes_spaces {ws : List Bytes} (hws : ∀ w ∈ ws, w ∈ spaceRunes) {n : Nat} (hn : ws.length ≤ n) :
    trimRunes spaceRunes n ws.flatten = [] := by
  induction ws generalizing n with
  | nil => cases n <;> rfl
  | cons w ws ih =>
    obtain ⟨hw, hws⟩ := List.forall_mem_cons.mp hws
    cases n with
    | zero => cases hn
    | succ n =>
      rw [trimRunes, List.flatten_cons, dropRune_space hw]
      exact ih hws (Nat.le_of_succ_le_succ hn)

theorem length_le_flatten {ws : List Bytes} (hws : ∀ w ∈ ws, w ≠ []) : ws.length ≤ ws.flatten.length := by
  induction ws with
  | nil => exact Nat.le_refl _
  | cons w ws ih =>
    obtain ⟨hw, hws⟩ := List.forall_mem_cons.mp hws
    have hpos := List.length_pos_of_ne_nil hw
    have hle := ih hws
    rw [List.flatten_cons, List.length_append, List.length_cons]
    omega

theorem trimSpace_eq_nil_iff {s : Bytes} : trimSpace s = [] ↔
    ∃ ws : List Bytes, (∀ w ∈ ws, w ∈ spaceRunes) ∧ s = ws.flatten := by
  constructor
  · intro h
    obtain ⟨vs, hvs, hl⟩ := trimRunes_spec spaceRunes s.length s
    obtain ⟨ws, hws, hr⟩ := trimRunes_spec (spaceRunes.map List.reverse) (trimLeft s).length (trimLeft s).reverse
    have hnil : trimRunes (spaceRunes.map List.reverse) (trimLeft s).length (trimLeft s).reverse = [] :=
      List.reverse_eq_nil_iff.mp h
    rw [hnil, List.append_nil] at hr
    refine ⟨vs ++ (ws.map List.reverse).reverse, fun w hw => ?_, ?_⟩
    · rcases List.mem_append.mp hw with hw | hw
      · exact hvs w hw
      · obtain ⟨v, hv, rfl⟩ := List.mem_map.mp (List.mem_reverse.mp hw)
        obtain ⟨u, hu, rfl⟩ := List.mem_map.mp (hws v hv)
        rw [List.reverse_reverse]
        exact hu
    · rw [List.flatten_append, ← List.reverse_flatten, ← hr, List.reverse_reverse]
      exact hl
  · rintro ⟨ws, hws, rfl⟩
    have hne : ∀ w ∈ ws, w ≠ [] := fun w hw => by
      obtain ⟨_, _, rfl, -⟩ := isRune_of_mem_spaceRunes w (hws w hw)
      exact List.cons_ne_nil _ _
    have hl : trimLeft ws.flatten = [] := trimRunes_spaces hws (length_le_flatten hne)
    rw [trimSpace, hl]
    rfl

def spaceValues : List Nat := spaceRunes.map runeValue

theorem encodeRune_mem_spaceRunes (h : r < 0x110000) : encodeRune r ∈ spaceRunes ↔ r ∈ spaceValues := by
  constructor
  · intro hm
    by_cases hs : 0xD800 ≤ r ∧ r < 0xE000
    · rw [encodeRune_surrogate hs] at hm
      exact absurd hm (by decide)
    · exact List.mem_map.mpr ⟨_, hm, (encoded_encodeRune ⟨h, hs⟩).value⟩
  · have hall : ∀ r ∈ spaceValues, encodeRune r ∈ spaceRunes := by decide
    exact hall r

theorem trimSpace_encoded {l : List Nat} (hl : ∀ r ∈ l, r < 0x110000) :
    trimSpace (l.flatMap encodeRune) = [] ↔ ∀ r ∈ l, r ∈ spaceValues := by
  rw [trimSpace_eq_nil_iff]
  constructor
  · rintro ⟨ws, hws, he⟩
    induction l generalizing ws with
    | nil => exact fun _ h => absurd h List.not_mem_nil
    | cons r l ih =>
      obtain ⟨hr, hl⟩ := List.forall_mem_cons.mp hl
      have hrune := isRune_encodeRune hr
      rw [List.flatMap_cons] at he
      cases ws with
      | nil =>
        obtain ⟨_, _, hcons, -⟩ := hrune
        rw [hcons] at he
        cases he
      | cons w ws =>
        obtain ⟨hw, hws'⟩ := List.forall_mem_cons.mp hws
        obtain ⟨rfl, he'⟩ := hrune.append_inj (isRune_of_mem_spaceRunes w hw) he
        exact List.forall_mem_cons.mpr ⟨(encodeRune_mem_spaceRunes hr).mp hw, ih hl ws hws' he'⟩
  · intro h
    refine ⟨l.map encodeRune, fun w hw => ?_, List.flatMap_def⟩
    obtain ⟨r, hr, rfl⟩ := List.mem_map.mp hw
    exact (encodeRune_mem_spaceRunes (hl r hr)).mpr (h r hr)

end Go
