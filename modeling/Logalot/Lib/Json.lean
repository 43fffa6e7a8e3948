import Logalot.Lib.Bytes

/-!
# JSON texts

The texts that `encoding/json` accepts and what they hold at their top level:
the members of an object come with the texts of their values, as a `RawMessage`
keeps them. A literal is unquoted to UTF-8, where what cannot be decoded becomes
U+FFFD.
-/

namespace Json

open Go

/-! ## Literals -/

def isHex (c : UInt8) : Bool := isDigit c || (97 ≤ c && c ≤ 102) || (65 ≤ c && c ≤ 70)

/-- What may follow a backslash, `u` apart. -/
def escapes : Bytes := bs "bfnrt\\/\""

/-- A literal from after its opening quote on: the text up to the closing one, and what follows that. -/
def scanString : Bytes → Option (Bytes × Bytes)
  | [] => none
  | 92 :: 117 :: a :: b :: c :: d :: s =>
    if [a, b, c, d].all isHex then (scanString s).map fun p => (92 :: 117 :: a :: b :: c :: d :: p.1, p.2) else none
  | 92 :: e :: s => if e ∈ escapes then (scanString s).map fun p => (92 :: e :: p.1, p.2) else none
  | c :: s =>
    if c = 34 then some ([], s)
    else if c < 32 ∨ c = 92 then none
    else (scanString s).map fun p => (c :: p.1, p.2)

def hexVal (c : UInt8) : Nat :=
  if isDigit c then c.toNat - 48 else if isLower c then c.toNat - 87 else c.toNat - 55

def getu4 (a b c d : UInt8) : Nat := ((hexVal a * 16 + hexVal b) * 16 + hexVal c) * 16 + hexVal d

/-- U+FFFD. -/
def replacement : Bytes := [0xEF, 0xBF, 0xBD]

def encodeRune (r : Nat) : Bytes :=
  if r < 0x80 then [UInt8.ofNat r]
  else if r < 0x800 then [UInt8.ofNat (0xC0 + r / 64), UInt8.ofNat (0x80 + r % 64)]
  else if 0xD800 ≤ r ∧ r < 0xE000 then replacement
  else if r < 0x10000 then
    [UInt8.ofNat (0xE0 + r / 4096), UInt8.ofNat (0x80 + r / 64 % 64), UInt8.ofNat (0x80 + r % 64)]
  else [UInt8.ofNat (0xF0 + r / 262144), UInt8.ofNat (0x80 + r / 4096 % 64), UInt8.ofNat (0x80 + r / 64 % 64),
    UInt8.ofNat (0x80 + r % 64)]

/-- How many bytes follow a lead byte in UTF-8, and between which bounds the first of them is. -/
def tails (c : UInt8) : Option (Nat × UInt8 × UInt8) :=
  if 0xC2 ≤ c ∧ c ≤ 0xDF then some (1, 0x80, 0xBF)
  else if c = 0xE0 then some (2, 0xA0, 0xBF)
  else if c = 0xED then some (2, 0x80, 0x9F)
  else if 0xE1 ≤ c ∧ c ≤ 0xEF then some (2, 0x80, 0xBF)
  else if c = 0xF0 then some (3, 0x90, 0xBF)
  else if 0xF1 ≤ c ∧ c ≤ 0xF3 then some (3, 0x80, 0xBF)
  else if c = 0xF4 then some (3, 0x80, 0x8F)
  else none

def isTails (n : Nat) (lo hi : UInt8) : Bytes → Bool
  | [] => false
  | c :: s => lo ≤ c && c ≤ hi && (s.take (n - 1)).length == n - 1 && (s.take (n - 1)).all fun d => 0x80 ≤ d && d ≤ 0xBF

/-- What an escape from after its backslash on stands for, and how many bytes it takes with the backslash.
Two surrogates that belong together are one character. -/
def unquoteEscape : Bytes → Bytes × Nat
  | 117 :: a :: b :: c :: d :: s =>
    let r := getu4 a b c d
    if 0xD800 ≤ r ∧ r < 0xE000 then
      match s with
      | 92 :: 117 :: a' :: b' :: c' :: d' :: _ =>
        let r' := getu4 a' b' c' d'
        if r < 0xDC00 ∧ 0xDC00 ≤ r' ∧ r' < 0xE000 then
          (encodeRune ((r - 0xD800) * 1024 + (r' - 0xDC00) + 0x10000), 12)
        else (replacement, 6)
      | _ => (replacement, 6)
    else (encodeRune r, 6)
  | 98 :: _ => ([8], 2)
  | 102 :: _ => ([12], 2)
  | 110 :: _ => ([10], 2)
  | 114 :: _ => ([13], 2)
  | 116 :: _ => ([9], 2)
  | e :: _ => ([e], 2)
  | [] => ([], 1)

/-- What the first character of a literal stands for, and how many bytes it takes. -/
def unquoteChar (c : UInt8) (s : Bytes) : Bytes × Nat :=
  if c = 92 then unquoteEscape s
  else if c < 0x80 then ([c], 1)
  else
    match tails c with
    | some (n, lo, hi) => if isTails n lo hi s then (c :: s.take n, n + 1) else (replacement, 1)
    | none => (replacement, 1)

/-- The first bytes belong to a character already unquoted. -/
def unquoteFrom : Nat → Bytes → Bytes
  | _, [] => []
  | k + 1, _ :: s => unquoteFrom k s
  | 0, c :: s => (unquoteChar c s).1 ++ unquoteFrom ((unquoteChar c s).2 - 1) s

def unquote (s : Bytes) : Bytes := unquoteFrom 0 s

/-! ## Values -/

/-- A value with the texts of what it is made of. -/
inductive Value where
  | null
  | bool (b : Bool)
  | number (text : Bytes)
  | string (s : Bytes)
  | array (text : Bytes)
  | object (members : List (Bytes × Bytes))
  deriving Repr, DecidableEq

def skipWs (s : Bytes) : Bytes := s.dropWhile fun c => c == 32 || c == 9 || c == 10 || c == 13

/-- The part of `s` before its end `rest`. -/
def before (s rest : Bytes) : Bytes := s.take (s.length - rest.length)

def scanWord (w : Bytes) (v : Value) (s : Bytes) : Option (Value × Bytes) :=
  if w.isPrefixOf s then some (v, s.drop w.length) else none

def scanDigits : Bytes → Option Bytes
  | [] => none
  | c :: s => if isDigit c then some (s.dropWhile isDigit) else none

def scanFraction : Bytes → Option Bytes
  | 46 :: s => scanDigits s
  | s => some s

def scanExponent : Bytes → Option Bytes
  | [] => some []
  | c :: s =>
    if c = 101 ∨ c = 69 then
      match s with
      | [] => none
      | d :: r => if d = 43 ∨ d = 45 then scanDigits r else scanDigits s
    else some (c :: s)

/-- What follows a number: no zero stands before other digits. -/
def scanNumber (s : Bytes) : Option Bytes :=
  let unsigned := match s with | 45 :: r => r | _ => s
  let whole := match unsigned with | 48 :: r => some r | _ => scanDigits unsigned
  (whole.bind scanFraction).bind scanExponent

mutual
/-- A value at the start of a text, and what follows it. At most `depth` more arrays and objects may be open. -/
def scanValue : (fuel depth : Nat) → Bytes → Option (Value × Bytes)
  | 0, _, _ => none
  | _ + 1, _, [] => none
  | n + 1, depth, c :: s =>
    if c = 34 then (scanString s).map fun p => (.string (unquote p.1), p.2)
    else if c = 123 then
      match depth, skipWs s with
      | 0, _ => none
      | _ + 1, 125 :: r => some (.object [], r)
      | d + 1, r => (scanMembers n d r).map fun p => (.object p.1, p.2)
    else if c = 91 then
      match depth, skipWs s with
      | 0, _ => none
      | _ + 1, 93 :: r => some (.array (before (c :: s) r), r)
      | d + 1, r => (scanElements n d r).map fun r => (.array (before (c :: s) r), r)
    else if c = 110 then scanWord (bs "null") .null (c :: s)
    else if c = 116 then scanWord (bs "true") (.bool true) (c :: s)
    else if c = 102 then scanWord (bs "false") (.bool false) (c :: s)
    else (scanNumber (c :: s)).map fun r => (.number (before (c :: s) r), r)
def scanElements : (fuel depth : Nat) → Bytes → Option Bytes
  | 0, _, _ => none
  | n + 1, d, s =>
    match scanValue n d s with
    | none => none
    | some (_, r) =>
      match skipWs r with
      | 44 :: r => scanElements n d (skipWs r)
      | 93 :: r => some r
      | _ => none
def scanMembers : (fuel depth : Nat) → Bytes → Option (List (Bytes × Bytes) × Bytes)
  | 0, _, _ => none
  | n + 1, d, s =>
    match s with
    | 34 :: r =>
      match scanString r with
      | none => none
      | some (key, r) =>
        match skipWs r with
        | 58 :: r =>
          let v := skipWs r
          match scanValue n d v with
          | none => none
          | some (_, r) =>
            let member := (unquote key, before v r)
            match skipWs r with
            | 44 :: r => (scanMembers n d (skipWs r)).map fun p => (member :: p.1, p.2)
            | 125 :: r => some ([member], r)
            | _ => none
        | _ => none
    | _ => none
end

def maxNestingDepth : Nat := 10000

/-- The value a text holds; `none` for a syntax error. Two steps of the scan take a byte at least. -/
def parse (s : Bytes) : Option Value :=
  match scanValue (2 * s.length + 1) maxNestingDepth (skipWs s) with
  | none => none
  | some (v, r) => if skipWs r = [] then some v else none

/-! ## Decoding -/

/-- A key up to case, as the names of struct fields are compared. Of the characters beyond ASCII two fold to
letters of ASCII; the others fold to such characters again. -/
def foldName : Bytes → Bytes
  | 0xC5 :: 0xBF :: s => 83 :: foldName s
  | 0xE2 :: 0x84 :: 0xAA :: s => 75 :: foldName s
  | c :: s => upper c :: foldName s
  | [] => []

/-- Decoding into a `string`: `null` leaves the zero value. -/
def decodeString (raw : Bytes) : Option Bytes :=
  match parse raw with
  | some .null => some []
  | some (.string s) => some s
  | _ => none

def isNumber (s : Bytes) : Bool := scanNumber s == some []

/-- `strconv.ParseInt(s, 10, 64)` of a number of JSON. -/
def parseInt64 (s : Bytes) : Option Int :=
  let digits := match s with | 45 :: r => r | _ => s
  let n : Int := if s.head? = some 45 then -parseNat digits else parseNat digits
  if digits ≠ [] ∧ digits.all isDigit ∧ -2 ^ 63 ≤ n ∧ n < 2 ^ 63 then some n else none

/-- Decoding into a `json.Number`, which a literal may hold too, and its `Int64`. -/
def decodeInt64 (raw : Bytes) : Option Int :=
  match parse raw with
  | some (.number text) => parseInt64 text
  | some (.string s) => if isNumber s then parseInt64 s else none
  | _ => none

/-! ## Plain literals -/

def isPlain (c : UInt8) : Bool := 32 ≤ c && c < 0x80 && c != 34 && c != 92

theorem of_isPlain : ∀ c, isPlain c = true → c < 0x80 ∧ c ≠ 34 ∧ c ≠ 92 ∧ ¬ c < 32 := by decide +kernel

theorem unquote_plain {s : Bytes} (h : ∀ c ∈ s, isPlain c = true) : unquote s = s := by
  unfold unquote
  induction s with
  | nil => rfl
  | cons c s ih =>
    obtain ⟨hlt, -, hne, -⟩ := of_isPlain c (h c List.mem_cons_self)
    have hchar : unquoteChar c s = ([c], 1) := by
      unfold unquoteChar
      rw [if_neg hne, if_pos hlt]
    rw [unquoteFrom, hchar]
    exact congrArg (c :: ·) (ih fun d hd => h d (List.mem_cons_of_mem _ hd))

theorem scanString_plain {s : Bytes} (h : ∀ c ∈ s, isPlain c = true) (rest : Bytes) :
    scanString (s ++ 34 :: rest) = some (s, rest) := by
  induction s with
  | nil => rfl
  | cons c s ih =>
    obtain ⟨-, hq, hne, hge⟩ := of_isPlain c (h c List.mem_cons_self)
    rw [List.cons_append, scanString, if_neg hq, if_neg (not_or.mpr ⟨hge, hne⟩),
      ih fun d hd => h d (List.mem_cons_of_mem _ hd)]
    · rfl
    all_goals simp_all

example : parse (bs " \x7b\"a\" : [1, \x7b\"b\":null\x7d], \"\\u0061\\ud83d\\ude00\":-1.5e3 \x7d ") =
    some (.object [(bs "a", bs "[1, \x7b\"b\":null\x7d]"), (bs "a😀", bs "-1.5e3")]) := by decide

example : parse (bs "[01]") = none := by decide

end Json
