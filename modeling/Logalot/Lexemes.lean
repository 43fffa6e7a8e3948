import Logalot.Fitness

/-!
# Lexemes of SQL text

How a sequence of SQL lexemes is spelled as text: keywords in any case, string
literals with their quotes doubled, white space and comments between lexemes,
and maximal munch where two lexemes touch. A `Lexeme` is one of the token
kinds of the fitness function, or one that its tokenizer does not know: a
double-quoted identifier or another symbol.
-/

namespace Logalot

open Go

inductive Lexeme where
  | tok (t : Token)
  | quoted (v : Bytes)
  | symbol (c : UInt8)
  deriving Repr, DecidableEq

/-! ## Spelling one lexeme -/

/-- A literal's text with every `q` doubled. -/
def doubled (q : UInt8) (v : Bytes) : Bytes := v.flatMap fun c => if c = q then [q, q] else [c]

def isWord : Bytes → Bool
  | [] => false
  | c :: s => isWordStart c && s.all isWordByte

def isNum : Bytes → Bool
  | [] => false
  | c :: s => isDigit c && s.all isNumByte

def sqlOps : List Bytes :=
  [bs "=", bs "<", bs ">", bs "<=", bs ">=", bs "!=", bs "<>", bs "*", bs "+", bs "-", bs "/"]

/-- Bytes that start no token of the fitness function's tokenizer. -/
def isSymbol (c : UInt8) : Bool :=
  !(isBlank c || c == quote || c == byte '"' || c == byte '(' || c == byte ')' || c == byte ',' || c == byte '=' ||
    isAngle c || isArith c || isDigit c || isWordStart c)

def Token.Spelled (t : Token) (w : Bytes) : Prop :=
  match t.kind with
  | .tokIdent => w = t.val ∧ isWord w = true ∧ toUpper w ∉ sqlKeywords
  | .tokKW => toUpper w = t.val ∧ isWord w = true ∧ t.val ∈ sqlKeywords
  | .tokString => w = quote :: (doubled quote t.val ++ [quote])
  | .tokNumber => w = t.val ∧ isNum w = true
  | .tokOp => w = t.val ∧ w ∈ sqlOps
  | .tokLParen => w = t.val ∧ w = [byte '(']
  | .tokRParen => w = t.val ∧ w = [byte ')']
  | .tokComma => w = t.val ∧ w = [byte ',']

def Lexeme.Spelled : Lexeme → Bytes → Prop
  | .tok t, w => t.Spelled w
  | .quoted v, w => w = byte '"' :: (doubled (byte '"') v ++ [byte '"'])
  | .symbol c, w => w = [c] ∧ isSymbol c = true

/-! ## What may follow -/

/-- The byte `c` would be read into an operator `o` before it. -/
def opJoins (o : Bytes) (c : UInt8) : Bool :=
  match o with
  | [a] => (isAngle a && (c == byte '=' || c == byte '>')) || (a == byte '-' && c == byte '-') ||
      (a == byte '/' && c == byte '*')
  | _ => false

/-- The byte `c` would be read into the token `t` before it. -/
def Token.joins (t : Token) (c : UInt8) : Bool :=
  match t.kind with
  | .tokIdent | .tokKW => isWordByte c
  | .tokString => c == quote
  | .tokNumber => isNumByte c
  | .tokOp => opJoins t.val c
  | _ => false

def Lexeme.apart (l : Lexeme) (s : Bytes) : Bool :=
  match l, s with
  | .tok t, c :: _ => !t.joins c
  | .quoted _, c :: _ => c != byte '"'
  | _, _ => true

/-! ## Gaps -/

/-- No `*/` stands in a comment's body. -/
def noClose : Bytes → Bool
  | a :: b :: s => !(a == byte '*' && b == byte '/') && noClose (b :: s)
  | _ => true

inductive Gap : Bytes → Prop
  | nil : Gap []
  | blank {c g} : isBlank c = true → Gap g → Gap (c :: g)
  | line {body g} : byte '\n' ∉ body → Gap g → Gap (byte '-' :: byte '-' :: (body ++ byte '\n' :: g))
  | block {body g} : noClose body = true → Gap g →
      Gap (byte '/' :: byte '*' :: (body ++ byte '*' :: byte '/' :: g))

/-- The text `s` spells the lexemes `ls`. A line comment may end the text. -/
inductive Spells : List Lexeme → Bytes → Prop
  | nil {g} : Gap g → Spells [] g
  | comment {g body} : Gap g → byte '\n' ∉ body → Spells [] (g ++ byte '-' :: byte '-' :: body)
  | cons {g l w ls s} : Gap g → l.Spelled w → l.apart s = true → Spells ls s → Spells (l :: ls) (g ++ (w ++ s))

/-! ## A standard spelling -/

def Token.text (t : Token) : Bytes :=
  match t.kind with
  | .tokString => quote :: (doubled quote t.val ++ [quote])
  | _ => t.val

def Lexeme.text : Lexeme → Bytes
  | .tok t => t.text
  | .quoted v => byte '"' :: (doubled (byte '"') v ++ [byte '"'])
  | .symbol c => [c]

/-- The lexemes in their own spelling, a blank before each. -/
def spellOut : List Lexeme → Bytes
  | [] => []
  | l :: ls => byte ' ' :: (l.text ++ spellOut ls)

end Logalot
