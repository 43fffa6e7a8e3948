import Mathlib.Data.Nat.Digits.Defs
import Mathlib.Data.Nat.Digits.Lemmas

/-!
# Byte strings

Go strings are byte sequences. The functions here follow the documented
behaviour of the `strings` and `strconv` packages: `replaceAll` rewrites
non-overlapping matches from the left, `trimSpace` removes the white space of
Unicode at both ends, and `splitN` leaves the remainder in its last part.
-/

namespace Go

abbrev Bytes := List UInt8

/-- The bytes of a literal. -/
def bs (s : String) : Bytes := s.toByteArray.data.toList

instance : LawfulBEq Bytes := inferInstance

/-- A decidable fact about bytes can be checked on all of them. -/
instance decidableForallByte (P : UInt8 → Prop) [DecidablePred P] : Decidable (∀ c, P c) :=
  decidable_of_iff (((List.range 256).all fun n => decide (P (UInt8.ofNat n))) = true) (by
    simp only [List.all_eq_true, List.mem_range, decide_eq_true_eq]
    exact ⟨fun h c => by simpa using h c.toNat c.toNat_lt, fun h n _ => h _⟩)

/-! ## ASCII classes -/

def isDigit (c : UInt8) : Bool := 48 ≤ c && c ≤ 57

def isUpper (c : UInt8) : Bool := 65 ≤ c && c ≤ 90

def isLower (c : UInt8) : Bool := 97 ≤ c && c ≤ 122

def isLetter (c : UInt8) : Bool := isLower c || isUpper c

def upper (c : UInt8) : UInt8 := if isLower c then c - 32 else c

/-- `strings.ToUpper` on ASCII text. -/
def toUpper (s : Bytes) : Bytes := s.map upper

/-- `strings.EqualFold` on ASCII text. -/
def equalFold (s t : Bytes) : Bool := toUpper s == toUpper t

/-! ## Replacing and splitting -/

/-- Replace `old` by `new`, skipping the bytes of a match already replaced. -/
def replaceFrom (old new : Bytes) : Nat → Bytes → Bytes
  | _, [] => []
  | k + 1, _ :: s => replaceFrom old new k s
  | 0, c :: s =>
    if old.isPrefixOf (c :: s) then new ++ replaceFrom old new (old.length - 1) s
    else c :: replaceFrom old new 0 s

def replaceAll (s old new : Bytes) : Bytes := replaceFrom old new 0 s

/-- `strings.Cut` at the first occurrence of a separator. -/
def cut (sep : Bytes) : Bytes → Option (Bytes × Bytes)
  | [] => if sep.isEmpty then some ([], []) else none
  | c :: s =>
    if sep.isPrefixOf (c :: s) then some ([], (c :: s).drop sep.length)
    else (cut sep s).map fun p => (c :: p.1, p.2)

def splitN (sep : Bytes) : Nat → Bytes → List Bytes
  | 0, _ => []
  | 1, s => [s]
  | n + 2, s =>
    match cut sep s with
    | none => [s]
    | some p => p.1 :: splitN sep (n + 1) p.2

theorem eq_append_of_cut {sep : Bytes} : ∀ {s a b : Bytes}, cut sep s = some (a, b) → s = a ++ sep ++ b
  | [], a, b, h => by
    unfold cut at h
    split at h
    · cases h
      simp_all
    · cases h
  | c :: s, a, b, h => by
    unfold cut at h
    split at h
    · rename_i hp
      cases h
      obtain ⟨rest, hr⟩ := List.isPrefixOf_iff_prefix.mp hp
      rw [← hr, List.drop_left, List.nil_append]
    · obtain ⟨p, hp, he⟩ := Option.map_eq_some_iff.mp h
      cases he
      rw [List.cons_append, List.cons_append, ← eq_append_of_cut hp]

variable {c : UInt8}

theorem cut_append_of_not_mem (sep : Bytes) : ∀ {a : Bytes}, c ∉ a → ∀ s : Bytes,
    cut (c :: sep) (a ++ s) = (cut (c :: sep) s).map fun p => (a ++ p.1, p.2)
  | [], _, s => by
    cases h : cut (c :: sep) s with
    | none => simpa using h
    | some p => simpa using h
  | x :: a, h, s => by
    have hx : c ≠ x := fun e => h (e ▸ List.mem_cons_self)
    have ih := cut_append_of_not_mem sep (fun hm : c ∈ a => h (List.mem_cons_of_mem _ hm)) s
    rw [List.cons_append, cut, ih]
    simp [List.isPrefixOf, hx, Function.comp_def]

theorem cut_self_append {sep : Bytes} (s : Bytes) :
    cut (c :: sep) (c :: sep ++ s) = some ([], s) := by
  rw [List.cons_append, cut, if_pos]
  · simp
  · rw [List.isPrefixOf_iff_prefix]
    exact ⟨s, rfl⟩

/-! ## White space -/

/-- The UTF-8 encodings of the runes for which `unicode.IsSpace` holds. -/
def spaceRunes : List Bytes :=
  [[9], [10], [11], [12], [13], [32], [0xC2, 0x85], [0xC2, 0xA0], [0xE1, 0x9A, 0x80],
   [0xE2, 0x80, 0x80], [0xE2, 0x80, 0x81], [0xE2, 0x80, 0x82], [0xE2, 0x80, 0x83], [0xE2, 0x80, 0x84],
   [0xE2, 0x80, 0x85], [0xE2, 0x80, 0x86], [0xE2, 0x80, 0x87], [0xE2, 0x80, 0x88], [0xE2, 0x80, 0x89],
   [0xE2, 0x80, 0x8A], [0xE2, 0x80, 0xA8], [0xE2, 0x80, 0xA9], [0xE2, 0x80, 0xAF], [0xE2, 0x81, 0x9F],
   [0xE3, 0x80, 0x80]]

def dropRune (runes : List Bytes) (s : Bytes) : Option Bytes :=
  runes.findSome? fun r => if r.isPrefixOf s then some (s.drop r.length) else none

def trimRunes (runes : List Bytes) : Nat → Bytes → Bytes
  | 0, s => s
  | n + 1, s =>
    match dropRune runes s with
    | some s' => trimRunes runes n s'
    | none => s

def trimLeft (s : Bytes) : Bytes := trimRunes spaceRunes s.length s

/-- The last rune of a string is found by reading the encodings backwards. -/
def trimRight (s : Bytes) : Bytes := (trimRunes (spaceRunes.map List.reverse) s.length s.reverse).reverse

def trimSpace (s : Bytes) : Bytes := trimRight (trimLeft s)

/-- A visible ASCII character, or DEL. -/
def isGraph (c : UInt8) : Bool := 33 ≤ c && c < 0x80

theorem dropRune_eq_none {runes : List Bytes} (hr : ∀ r ∈ runes, (r.head?.any fun b => !isGraph b) = true)
    (hc : isGraph c = true) (s : Bytes) : dropRune runes (c :: s) = none := by
  rw [dropRune, List.findSome?_eq_none_iff]
  intro r hm
  cases r with
  | nil => cases hr [] hm
  | cons b r =>
    have hb : isGraph b = false := by simpa using hr (b :: r) hm
    have hne : b ≠ c := fun e => by rw [e, hc] at hb; cases hb
    simp [List.isPrefixOf, hne]

theorem trimRunes_of_graph {runes : List Bytes} (hr : ∀ r ∈ runes, (r.head?.any fun b => !isGraph b) = true) {s : Bytes}
    (h : ∀ c ∈ s, isGraph c = true) : trimRunes runes s.length s = s := by
  cases s with
  | nil => rfl
  | cons c s => rw [List.length_cons, trimRunes, dropRune_eq_none hr (h c List.mem_cons_self)]

theorem trimSpace_of_graph {s : Bytes} (h : ∀ c ∈ s, isGraph c = true) : trimSpace s = s := by
  have hl : trimLeft s = s := trimRunes_of_graph (by decide) h
  have hr : trimRunes (spaceRunes.map List.reverse) s.reverse.length s.reverse = s.reverse :=
    trimRunes_of_graph (by decide) fun c hc => h c (List.mem_reverse.mp hc)
  rw [List.length_reverse] at hr
  rw [trimSpace, hl, trimRight, hr, List.reverse_reverse]

/-! ## Decimal numbers -/

def digitByte (d : Nat) : UInt8 := UInt8.ofNat (48 + d)

def digitVal (c : UInt8) : Nat := c.toNat - 48

def natDigits (n : Nat) : Bytes :=
  if n = 0 then [48] else ((Nat.digits 10 n).map digitByte).reverse

def itoa (n : Int) : Bytes :=
  if n < 0 then 45 :: natDigits n.natAbs else natDigits n.natAbs

def parseNat (s : Bytes) : Nat := Nat.ofDigits 10 (s.reverse.map digitVal)

/-- `appendInt`: pad the digits with zeros to a width, the sign in front. -/
def padInt (n : Int) (width : Nat) : Bytes :=
  let d := natDigits n.natAbs
  (if n < 0 then [45] else []) ++ List.replicate (width - d.length) 48 ++ d

theorem isDigit_digitByte {d : Nat} (h : d < 10) : isDigit (digitByte d) = true := by
  interval_cases d <;> decide

theorem digitVal_digitByte {d : Nat} (h : d < 10) : digitVal (digitByte d) = d := by
  interval_cases d <;> decide

theorem natDigits_ne_nil (n : Nat) : natDigits n ≠ [] := by
  unfold natDigits
  split
  · simp
  · rename_i h; simp [Nat.digits_eq_nil_iff_eq_zero, h]

theorem isDigit_of_mem_natDigits {n : Nat} (h : c ∈ natDigits n) : isDigit c = true := by
  unfold natDigits at h
  split at h
  · simp at h; subst h; decide
  · simp only [List.mem_reverse, List.mem_map] at h
    obtain ⟨d, hd, rfl⟩ := h
    exact isDigit_digitByte (Nat.digits_lt_base (by decide) hd)

theorem parseNat_natDigits (n : Nat) : parseNat (natDigits n) = n := by
  unfold parseNat natDigits
  split
  · rename_i h; subst h; decide
  · rw [List.reverse_reverse, List.map_map]
    have : (Nat.digits 10 n).map (digitVal ∘ digitByte) = Nat.digits 10 n := by
      refine (List.map_congr_left fun d hd => ?_).trans (List.map_id _)
      exact digitVal_digitByte (Nat.digits_lt_base (by decide) hd)
    rw [this, Nat.ofDigits_digits]

theorem mem_padInt {n : Int} {w : Nat} (h : c ∈ padInt n w) : c = 45 ∨ isDigit c = true := by
  simp only [padInt, List.mem_append, List.mem_replicate] at h
  rcases h with (h | ⟨_, rfl⟩) | h
  · split at h
    · simp at h; exact Or.inl h
    · cases h
  · exact Or.inr (by decide)
  · exact Or.inr (isDigit_of_mem_natDigits h)

theorem itoa_natCast (n : Nat) : itoa n = natDigits n := by
  unfold itoa
  rw [if_neg (by omega), Int.natAbs_natCast]

end Go
