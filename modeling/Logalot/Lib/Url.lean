import Logalot.Lib.JsString

/-!
# References to URLs

How a browser reads a reference on a page of an `http` or `https` origin, up to
the point where it knows which authority the URL has: white space is taken out,
a scheme may change the authority, and two slashes of either kind begin one.
How the text of an authority names a host is left open.
-/

namespace Url

open Js

def slash : UInt16 := 47

def backslash : UInt16 := 92

def isSlash (c : UInt16) : Bool := c == slash || c == backslash

/-! ## White space -/

def isControlOrSpace (c : UInt16) : Bool := c ≤ 0x20

def isTabOrNewline (c : UInt16) : Bool := c == 9 || c == 10 || c == 13

def strip (s : JsString) : JsString := (s.dropWhile isControlOrSpace).rdropWhile isControlOrSpace

def removeTabs (s : JsString) : JsString := s.filter fun c => !isTabOrNewline c

def readBackslashes (s : JsString) : JsString := s.map fun c => if c = backslash then slash else c

/-! ## Schemes -/

def isAlpha (c : UInt16) : Bool := (65 ≤ c && c ≤ 90) || (97 ≤ c && c ≤ 122)

def isSchemeUnit (c : UInt16) : Bool := isAlpha c || (48 ≤ c && c ≤ 57) || c == 43 || c == 45 || c == 46

def toLower (c : UInt16) : UInt16 := if 65 ≤ c ∧ c ≤ 90 then c + 32 else c

def http : JsString := js "http"

def https : JsString := js "https"

/-- The special schemes other than `file`. -/
def hierarchical : List JsString := [http, https, js "ws", js "wss", js "ftp"]

def readScheme (s : JsString) : Option (JsString × JsString) :=
  match s with
  | [] => none
  | c :: _ =>
    if isAlpha c then
      match s.dropWhile isSchemeUnit with
      | 58 :: rest => some ((s.takeWhile isSchemeUnit).map toLower, rest)
      | _ => none
    else none

/-! ## Authorities -/

/-- `own` is a path, query or fragment under the authority of the page; `other` is a scheme without an origin. -/
inductive Target where
  | own (rest : JsString)
  | authority (scheme rest : JsString)
  | other (scheme rest : JsString)
  deriving DecidableEq

def relative (scheme s : JsString) : Target :=
  match s with
  | c :: d :: rest => if isSlash c && isSlash d then .authority scheme (rest.dropWhile isSlash) else .own s
  | _ => .own s

def afterScheme (page scheme rest : JsString) : Target :=
  if scheme ∈ hierarchical then
    if scheme = page then
      match rest with
      | 47 :: 47 :: rest => .authority scheme (rest.dropWhile isSlash)
      | _ => relative scheme rest
    else .authority scheme (rest.dropWhile isSlash)
  else .other scheme rest

def target (page reference : JsString) : Target :=
  let s := removeTabs (strip reference)
  match readScheme s with
  | none => relative page s
  | some (scheme, rest) => afterScheme page scheme rest

/-! ## Origins -/

structure Origin where
  scheme : JsString
  host : JsString
  port : Option Nat
  deriving DecidableEq

structure WebOrigin extends Origin where
  web : scheme = http ∨ scheme = https

/-- The origin of a reference, for any reading of authorities. -/
def resolve (readAuthority : JsString → JsString → Option Origin) (page : WebOrigin) (reference : JsString) :
    Option Origin :=
  match target page.scheme reference with
  | .own _ => some page.toOrigin
  | .authority scheme rest => readAuthority scheme rest
  | .other _ _ => none

/-! ## References without white space -/

theorem strip_eq_self {c : UInt16} {s : JsString} (hc : isControlOrSpace c = false)
    (hl : isControlOrSpace ((c :: s).getLast (List.cons_ne_nil c s)) = false) : strip (c :: s) = c :: s := by
  unfold strip
  rw [List.dropWhile_cons_of_neg (by simp [hc]), List.rdropWhile_eq_self_iff]
  intro _
  simp [hl]

theorem removeTabs_eq_self {s : JsString} (h : ∀ c ∈ s, isTabOrNewline c = false) : removeTabs s = s := by
  apply List.filter_eq_self.mpr
  intro c hc
  simp [h c hc]

theorem head_readBackslashes {s : JsString} (h : ∀ c, s.head? = some c → isSlash c = false) :
    (readBackslashes s).head? ≠ some slash := by
  cases s with
  | nil => simp [readBackslashes]
  | cons c s =>
    have hc := h c rfl
    simp only [isSlash, Bool.or_eq_false_iff, beq_eq_false_iff_ne] at hc
    simp [readBackslashes, hc.1, hc.2]

theorem resolve_of_single_slash {s rest : JsString} (hs : removeTabs (strip s) = slash :: rest)
    (hr : ∀ c, rest.head? = some c → isSlash c = false) (readAuthority : JsString → JsString → Option Origin)
    (page : WebOrigin) : resolve readAuthority page s = some page.toOrigin := by
  have ht : target page.scheme s = .own (slash :: rest) := by
    simp only [target, hs]
    have hscheme : readScheme (slash :: rest) = none := rfl
    rw [hscheme]
    cases rest with
    | nil => rfl
    | cons c rest => simp [relative, hr c rfl]
  simp only [resolve, ht]

example : target https (js "/\t/x") = .authority https (js "x") := by decide

end Url
