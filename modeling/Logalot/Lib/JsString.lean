import Mathlib.Data.List.DropRight

/-!
# Strings of JavaScript

A string is a sequence of 16-bit code units; `length` counts them. `trim`
removes white space and line terminators at both ends, each of which is one
unit.
-/

namespace Js

abbrev JsString := List UInt16

instance : LawfulBEq JsString := inferInstance

/-- A literal without characters beyond the basic plane. -/
def js (s : String) : JsString := s.toList.map fun c => UInt16.ofNat c.toNat

def isSpace (c : UInt16) : Bool :=
  (9 ≤ c && c ≤ 13) || c == 32 || c == 0xA0 || c == 0x1680 || (0x2000 ≤ c && c ≤ 0x200A) || c == 0x2028 ||
    c == 0x2029 || c == 0x202F || c == 0x205F || c == 0x3000 || c == 0xFEFF

def trim (s : JsString) : JsString := (s.dropWhile isSpace).rdropWhile isSpace

/-! ## Surrogates -/

def isHigh (c : UInt16) : Bool := 0xD800 ≤ c && c ≤ 0xDBFF

def isLow (c : UInt16) : Bool := 0xDC00 ≤ c && c ≤ 0xDFFF

def wellFormed : JsString → Bool
  | [] => true
  | [c] => !isHigh c && !isLow c
  | c :: d :: s => if isHigh c then isLow d && wellFormed s else !isLow c && wellFormed (d :: s)

end Js
