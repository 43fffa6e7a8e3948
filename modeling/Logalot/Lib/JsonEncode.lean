import Mathlib.Data.List.Sort
import Logalot.Lib.Dates
import Logalot.Lib.Json

/-!
# Writing JSON

What `json.Marshal` writes for strings, maps, structs and texts that are JSON
already. Characters that HTML gives a meaning are escaped, and so are two line
separators; bytes that are no UTF-8 become U+FFFD. Only a text can be an error.
-/

namespace Json

open Go

/-! ## Literals -/

def hexByte (n : UInt8) : UInt8 := if n < 10 then 48 + n else 87 + n

def escapeHex (c : UInt8) : Bytes := [92, 117, 48, 48, hexByte (c / 16), hexByte (c % 16)]

def isHtml (c : UInt8) : Bool := c == 60 || c == 62 || c == 38

def quoteByte (c : UInt8) : Bytes :=
  if c = 92 ∨ c = 34 then [92, c]
  else if c = 8 then [92, 98]
  else if c = 12 then [92, 102]
  else if c = 10 then [92, 110]
  else if c = 13 then [92, 114]
  else if c = 9 then [92, 116]
  else if c < 32 ∨ isHtml c then escapeHex c
  else [c]

/-- U+2028 and U+2029, which JavaScript takes for line ends. -/
def separators : List (Bytes × Bytes) := [([0xE2, 0x80, 0xA8], bs "\\u2028"), ([0xE2, 0x80, 0xA9], bs "\\u2029")]

/-- What is written for the first character of a string, and how many bytes it takes. -/
def quoteChar (c : UInt8) (s : Bytes) : Bytes × Nat :=
  if c < 0x80 then (quoteByte c, 1)
  else
    match tails c with
    | some (n, lo, hi) =>
      if isTails n lo hi s then ((separators.lookup (c :: s.take n)).getD (c :: s.take n), n + 1) else (bs "\\ufffd", 1)
    | none => (bs "\\ufffd", 1)

/-- The first bytes belong to a character already written. -/
def quoteFrom : Nat → Bytes → Bytes
  | _, [] => []
  | k + 1, _ :: s => quoteFrom k s
  | 0, c :: s => (quoteChar c s).1 ++ quoteFrom ((quoteChar c s).2 - 1) s

def quote (s : Bytes) : Bytes := 34 :: quoteFrom 0 s ++ [34]

/-! ## Values -/

def encodeArray (elements : List Bytes) : Bytes := 91 :: [44].intercalate elements ++ [93]

def encodeObject (fields : List (Bytes × Bytes)) : Bytes :=
  123 :: [44].intercalate (fields.map fun p => quote p.1 ++ 58 :: p.2) ++ [125]

/-- A `map[string]string`, by its keys. -/
def encodeMap (m : List (Bytes × Bytes)) : Bytes :=
  encodeObject ((m.insertionSort fun p q => textLe p.1 q.1 = true).map fun p => (p.1, quote p.2))

/-- A field with the option `omitempty`. -/
def omitEmpty (name s : Bytes) : List (Bytes × Bytes) := if s = [] then [] else [(name, quote s)]

/-! ## Texts -/

def compactFrom : (literal : Bool) → Bytes → Bytes
  | _, [] => []
  | true, 92 :: e :: s => 92 :: e :: compactFrom true s
  | q, 0xE2 :: 0x80 :: 0xA8 :: s => bs "\\u2028" ++ compactFrom q s
  | q, 0xE2 :: 0x80 :: 0xA9 :: s => bs "\\u2029" ++ compactFrom q s
  | q, c :: s =>
    if isHtml c then escapeHex c ++ compactFrom q s
    else if !q && (c == 32 || c == 9 || c == 10 || c == 13) then compactFrom q s
    else c :: compactFrom (q != (c == 34)) s

/-- A `RawMessage`: without the white space outside of literals, and an error unless it is JSON. -/
def compact (s : Bytes) : Option Bytes := if (parse s).isSome then some (compactFrom false s) else none

example : compact (bs " \x7b \"a\\\" <\" : [1 , 2] \x7d") = some (bs "\x7b\"a\\\" \\u003c\":[1,2]\x7d") := by
  decide

example : encodeMap [(bs "b", bs "x\ny"), (bs "a", [0xFF])] = bs "\x7b\"a\":\"\\ufffd\",\"b\":\"x\\ny\"\x7d" := by
  decide

end Json
