import Logalot.Kernel
import Logalot.Lib.Scan

/-!
# The tenant fitness function

`CheckTenantPredicate` (`pkg/coldstore/fitness.go`) gates every cold query: the
SQL text is tokenized, the tokens after the first top-level `WHERE` are split
into terms at the top-level `AND`s, and one term must be the comparison of
`tenant_id` with the tenant's own id.
-/

namespace Logalot

open Go

/-! ## Tokens -/

inductive TokKind where
  | tokIdent
  | tokString
  | tokNumber
  | tokOp
  | tokLParen
  | tokRParen
  | tokComma
  | tokKW
  deriving Repr, DecidableEq

structure Token where
  kind : TokKind
  val : Bytes
  deriving Repr, DecidableEq

def sqlKeywords : List Bytes :=
  [bs "SELECT", bs "FROM", bs "WHERE", bs "AND", bs "OR", bs "NOT", bs "BETWEEN", bs "IN", bs "LIKE", bs "IS",
   bs "ORDER", bs "BY", bs "LIMIT", bs "HAVING", bs "GROUP", bs "AS", bs "NULL", bs "TRUE", bs "FALSE",
   bs "UNION", bs "EXCEPT", bs "INTERSECT"]

def byte (c : Char) : UInt8 := c.val.toUInt8

def quote : UInt8 := 39

def isBlank (c : UInt8) : Bool := c == byte ' ' || c == byte '\t' || c == byte '\n' || c == byte '\r'

def isNumByte (c : UInt8) : Bool := isDigit c || c == byte '.'

def isWordStart (c : UInt8) : Bool := c == byte '_' || isLetter c

def isWordByte (c : UInt8) : Bool := c == byte '_' || c == byte '.' || isLetter c || isDigit c

def isAngle (c : UInt8) : Bool := c == byte '<' || c == byte '>' || c == byte '!'

def isArith (c : UInt8) : Bool := c == byte '*' || c == byte '+' || c == byte '-' || c == byte '/'

/-! ## The tokenizer -/

def skipLine : Bytes → Bytes
  | [] => []
  | c :: s => if c = byte '\n' then c :: s else skipLine s

def skipBlock : Bytes → Bytes
  | a :: b :: s => if a = byte '*' ∧ b = byte '/' then s else skipBlock (b :: s)
  | _ => []

/-- The text of a literal up to its closing quote, still escaped, and the bytes
after that quote. -/
def scanString : Bytes → Bytes × Bytes
  | [] => ([], [])
  | [c] => if c = quote then ([], []) else ([c], [])
  | c :: d :: s =>
    if c = quote then
      if d = quote then
        let r := scanString s
        (c :: d :: r.1, r.2)
      else ([], d :: s)
    else
      let r := scanString (d :: s)
      (c :: r.1, r.2)

def wordToken (w : Bytes) : Token :=
  if toUpper w ∈ sqlKeywords then ⟨.tokKW, toUpper w⟩ else ⟨.tokIdent, w⟩

/-- An operator that starts with `<`, `>` or `!` takes a following `=` or `>`. -/
def angleToken (c : UInt8) : Bytes → Option Token × Bytes
  | d :: s =>
    if d = byte '=' ∨ d = byte '>' then (some ⟨.tokOp, [c, d]⟩, s) else (some ⟨.tokOp, [c]⟩, d :: s)
  | [] => (some ⟨.tokOp, [c]⟩, [])

/-- One round of the loop: the token at `c`, if any, and the bytes after it. -/
def nextToken (c : UInt8) (s : Bytes) : Option Token × Bytes :=
  if isBlank c then (none, s)
  else if c = byte '-' ∧ s.head? = some (byte '-') then (none, skipLine s.tail)
  else if c = byte '/' ∧ s.head? = some (byte '*') then (none, skipBlock s.tail)
  else if c = quote then
    let r := scanString s
    (some ⟨.tokString, replaceAll r.1 [quote, quote] [quote]⟩, r.2)
  else if c = byte '(' then (some ⟨.tokLParen, [c]⟩, s)
  else if c = byte ')' then (some ⟨.tokRParen, [c]⟩, s)
  else if c = byte ',' then (some ⟨.tokComma, [c]⟩, s)
  else if c = byte '=' then (some ⟨.tokOp, [c]⟩, s)
  else if isAngle c then angleToken c s
  else if isArith c then (some ⟨.tokOp, [c]⟩, s)
  else if isDigit c then (some ⟨.tokNumber, c :: s.takeWhile isNumByte⟩, s.dropWhile isNumByte)
  else if isWordStart c then (some (wordToken (c :: s.takeWhile isWordByte)), s.dropWhile isWordByte)
  else (none, s)

def tokenize (sql : Bytes) : List Token := scan nextToken sql

/-! ## The WHERE clause -/

def findWHEREFrom (depth i : Nat) : List Token → Option Nat
  | [] => none
  | tok :: rest =>
    match tok.kind with
    | .tokLParen => findWHEREFrom (depth + 1) (i + 1) rest
    | .tokRParen => findWHEREFrom (depth - 1) (i + 1) rest
    | .tokKW =>
      if depth = 0 ∧ tok.val = bs "WHERE" then some i else findWHEREFrom depth (i + 1) rest
    | _ => findWHEREFrom depth (i + 1) rest

/-- The index of the first top-level `WHERE`; `none` is the source's `-1`. -/
def findWHERE (tokens : List Token) : Option Nat := findWHEREFrom 0 0 tokens

def clauseEnds : List Bytes :=
  [bs "ORDER", bs "LIMIT", bs "HAVING", bs "UNION", bs "EXCEPT", bs "INTERSECT"]

def flush (terms : List (List Token)) (cur : List Token) : List (List Token) :=
  if cur = [] then terms else terms ++ [cur]

/-- The loop of `splitTopLevelAND`; `cur` is `tokens[start:i]`. -/
def splitFrom (terms : List (List Token)) (depth : Nat) (inBetween : Bool) (cur : List Token) :
    List Token → List (List Token)
  | [] => flush terms cur
  | tok :: rest =>
    match tok.kind with
    | .tokLParen => splitFrom terms (depth + 1) inBetween (cur ++ [tok]) rest
    | .tokRParen => splitFrom terms (depth - 1) inBetween (cur ++ [tok]) rest
    | .tokKW =>
      if 0 < depth then splitFrom terms depth inBetween (cur ++ [tok]) rest
      else if tok.val ∈ clauseEnds then flush terms cur
      else if tok.val = bs "BETWEEN" then splitFrom terms depth true (cur ++ [tok]) rest
      else if tok.val = bs "AND" then
        if inBetween then splitFrom terms depth false (cur ++ [tok]) rest
        else splitFrom (flush terms cur) depth false [] rest
      else splitFrom terms depth inBetween (cur ++ [tok]) rest
    | _ => splitFrom terms depth inBetween (cur ++ [tok]) rest

def splitTopLevelAND (tokens : List Token) : List (List Token) := splitFrom [] 0 false [] tokens

def isEqualityPredicate (term : List Token) (colName value : Bytes) : Bool :=
  match term with
  | [a, b, c] =>
    a.kind == .tokIdent && equalFold a.val colName && b.kind == .tokOp && b.val == bs "=" &&
      c.kind == .tokString && c.val == value
  | _ => false

def errMissingTenantPredicate : Bytes := bs "coldstore: missing tenant_id predicate"

/-- The check; `none` is the source's `nil` error. -/
def checkTenantPredicate (sql tenantID : Bytes) : Option Bytes :=
  if trimSpace tenantID = [] then some (errMissingTenantPredicate ++ bs ": empty tenant ID")
  else
    let tokens := tokenize sql
    match findWHERE tokens with
    | none => some (errMissingTenantPredicate ++ bs ": no WHERE clause found")
    | some whereIdx =>
      if (splitTopLevelAND (tokens.drop (whereIdx + 1))).any
          (isEqualityPredicate · (bs "tenant_id") tenantID) then none
      else some (errMissingTenantPredicate ++ bs ": tenant_id = '" ++ tenantID ++
        bs "' predicate absent from top-level WHERE AND-chain")

/-! ## Scanning facts -/

theorem length_skipLine_le : ∀ s : Bytes, (skipLine s).length ≤ s.length
  | [] => Nat.le_refl _
  | c :: s => by
    unfold skipLine
    split
    · exact Nat.le_refl _
    · exact Nat.le_succ_of_le (length_skipLine_le s)

theorem length_skipBlock_le : ∀ s : Bytes, (skipBlock s).length ≤ s.length
  | [] => Nat.le_refl _
  | [_] => Nat.zero_le _
  | a :: b :: s => by
    unfold skipBlock
    split
    · simp only [List.length_cons]; omega
    · exact Nat.le_succ_of_le (length_skipBlock_le (b :: s))

theorem length_scanString_le : ∀ s : Bytes, (scanString s).2.length ≤ s.length
  | [] => Nat.le_refl _
  | [c] => by unfold scanString; split <;> simp
  | c :: d :: s => by
    have h1 := length_scanString_le s
    have h2 := length_scanString_le (d :: s)
    simp only [List.length_cons] at h2
    unfold scanString
    simp only [List.length_cons]
    split
    · split
      · simp only; omega
      · simp only [List.length_cons]; omega
    · simp only; omega

theorem length_dropWhile_le (p : UInt8 → Bool) (s : Bytes) : (s.dropWhile p).length ≤ s.length :=
  (List.dropWhile_sublist p).length_le

theorem length_angleToken_le (c : UInt8) (s : Bytes) : (angleToken c s).2.length ≤ s.length := by
  cases s with
  | nil => exact Nat.le_refl _
  | cons d s =>
    simp only [angleToken]
    split <;> simp

theorem length_nextToken_le (c : UInt8) (s : Bytes) : (nextToken c s).2.length ≤ s.length := by
  have h1 := length_skipLine_le s.tail
  have h2 := length_skipBlock_le s.tail
  simp only [List.length_tail] at h1 h2
  have h3 := length_scanString_le s
  have h4 := length_angleToken_le c s
  have h5 := length_dropWhile_le isNumByte s
  have h6 := length_dropWhile_le isWordByte s
  unfold nextToken
  repeat'
    refine iteInduction (motive := fun r : Option Token × Bytes => r.2.length ≤ s.length) (fun _ => ?_) (fun _ => ?_)
  all_goals (try dsimp only); omega

theorem tokenize_cons (c : UInt8) (s : Bytes) :
    tokenize (c :: s) = (nextToken c s).1.toList ++ tokenize (nextToken c s).2 :=
  scan_cons nextToken length_nextToken_le c s

end Logalot
