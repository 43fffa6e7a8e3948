import Logalot.Lexemes
import Logalot.Lib.Kleene

/-!
# The SELECT statements a cold query may be

The grammar of `SELECT ... WHERE <condition>` with the precedence of SQL, set
operations and a closing `ORDER BY`/`LIMIT`, and what such a statement returns. An
`Engine` gives meaning to everything but the structure, except that
`tenant_id = '<v>'` compares the row's tenant.
-/

namespace Logalot

open Go Sql

def kw (k : String) : Lexeme := .tok ⟨.tokKW, bs k⟩

def Lexeme.isKind (k : TokKind) : Lexeme → Bool
  | .tok t => t.kind == k
  | _ => false

/-- Lexemes with balanced parentheses, `d` of them open before; those outside
all parentheses satisfy `p`. -/
def balanced (p : Lexeme → Bool) : Nat → List Lexeme → Bool
  | d, [] => d == 0
  | d, l :: ls =>
    if l.isKind .tokLParen then balanced p (d + 1) ls
    else if l.isKind .tokRParen then 0 < d && balanced p (d - 1) ls
    else (0 < d || p l) && balanced p d ls

/-! ## Conditions -/

def constantKws : List Bytes := [bs "NULL", bs "TRUE", bs "FALSE"]

def arithOps : List Bytes := [bs "*", bs "+", bs "-", bs "/"]

/-- What an operand holds outside parentheses: no comma, no comparison sign and
no keyword but the constants. -/
def operandLexeme : Lexeme → Bool
  | .tok t =>
    match t.kind with
    | .tokIdent | .tokString | .tokNumber => true
    | .tokOp => t.val ∈ arithOps
    | .tokKW => t.val ∈ constantKws
    | _ => false
  | _ => true

structure Operand where
  lexemes : List Lexeme
  ne_nil : lexemes ≠ []
  ok : balanced operandLexeme 0 lexemes = true

inductive CmpOp where
  | eq
  | lt
  | gt
  | le
  | ge
  | ne
  | ltgt
  deriving Repr, DecidableEq

def CmpOp.text : CmpOp → Bytes
  | .eq => bs "="
  | .lt => bs "<"
  | .gt => bs ">"
  | .le => bs "<="
  | .ge => bs ">="
  | .ne => bs "!="
  | .ltgt => bs "<>"

def CmpOp.lexeme (o : CmpOp) : Lexeme := .tok ⟨.tokOp, o.text⟩

mutual
inductive Condition where
  | term (t : Term)
  | or (c : Condition) (t : Term)
inductive Term where
  | factor (f : Factor)
  | and (t : Term) (f : Factor)
inductive Factor where
  | not (f : Factor)
  | paren (c : Condition)
  | cmp (l : Operand) (o : CmpOp) (r : Operand)
  | between (neg : Bool) (x lo hi : Operand)
  | test (e : Operand)
end

def lparen : Lexeme := .tok ⟨.tokLParen, [byte '(']⟩

def rparen : Lexeme := .tok ⟨.tokRParen, [byte ')']⟩

mutual
def Condition.lexemes : Condition → List Lexeme
  | .term t => t.lexemes
  | .or c t => c.lexemes ++ kw "OR" :: t.lexemes
def Term.lexemes : Term → List Lexeme
  | .factor f => f.lexemes
  | .and t f => t.lexemes ++ kw "AND" :: f.lexemes
def Factor.lexemes : Factor → List Lexeme
  | .not f => kw "NOT" :: f.lexemes
  | .paren c => lparen :: (c.lexemes ++ [rparen])
  | .cmp l o r => l.lexemes ++ o.lexeme :: r.lexemes
  | .between neg x lo hi =>
    x.lexemes ++ ((if neg then [kw "NOT"] else []) ++ kw "BETWEEN" :: (lo.lexemes ++ kw "AND" :: hi.lexemes))
  | .test e => e.lexemes
end

/-- The literal that a factor compares `tenant_id` with. -/
def Factor.tenantEq : Factor → Option Bytes
  | .cmp l .eq r =>
    match l.lexemes, r.lexemes with
    | [.tok a], [.tok c] =>
      if a.kind = .tokIdent ∧ equalFold a.val (bs "tenant_id") ∧ c.kind = .tokString then some c.val else none
    | _, _ => none
  | _ => none

def Condition.terms : Condition → List Term
  | .term t => [t]
  | .or c t => c.terms ++ [t]

def Term.factors : Term → List Factor
  | .factor f => [f]
  | .and t f => t.factors ++ [f]

def Term.carries (t : Term) (v : Bytes) : Prop := ∃ f ∈ t.factors, f.tenantEq = some v

/-! ## Statements -/

def clauseKws : List Bytes :=
  [bs "SELECT", bs "WHERE", bs "ORDER", bs "LIMIT", bs "HAVING", bs "GROUP", bs "UNION", bs "EXCEPT",
   bs "INTERSECT"]

/-- What a select list and `FROM` clause hold outside parentheses. -/
def headLexeme : Lexeme → Bool
  | .tok t => !(t.kind == .tokKW && t.val ∈ clauseKws)
  | _ => true

/-- What `ORDER BY` and `LIMIT` hold outside parentheses. -/
def tailLexeme : Lexeme → Bool
  | .tok t => !(t.kind == .tokKW && t.val ∈ clauseKws && t.val ∉ [bs "ORDER", bs "LIMIT"])
  | _ => true

structure Select where
  head : List Lexeme
  head_ok : balanced headLexeme 0 head = true
  cond : Option Condition

inductive SetOp where
  | union
  | except
  | intersect
  deriving Repr, DecidableEq

def SetOp.lexeme : SetOp → Lexeme
  | .union => kw "UNION"
  | .except => kw "EXCEPT"
  | .intersect => kw "INTERSECT"

/-- A set operation with a further `SELECT`; `all` is the word after it. -/
structure Further where
  op : SetOp
  all : Bool
  sel : Select

structure Statement where
  head : List Lexeme
  head_ok : balanced headLexeme 0 head = true
  cond : Condition
  ops : List Further
  tail : List Lexeme
  tail_ok : balanced tailLexeme 0 tail = true
  tail_head : ∀ l, tail.head? = some l → l = kw "ORDER" ∨ l = kw "LIMIT"

def whereLexemes : Option Condition → List Lexeme
  | none => []
  | some c => kw "WHERE" :: c.lexemes

def Further.lexemes (x : Further) : List Lexeme :=
  x.op.lexeme :: ((if x.all then [.tok ⟨.tokIdent, bs "ALL"⟩] else []) ++
    kw "SELECT" :: (x.sel.head ++ whereLexemes x.sel.cond))

def Statement.lexemes (st : Statement) : List Lexeme :=
  kw "SELECT" :: (st.head ++ kw "WHERE" :: (st.cond.lexemes ++ (st.ops.flatMap Further.lexemes ++ st.tail)))

/-! ## Meaning -/

structure Engine where
  Row : Type
  tenantId : Row → Option Bytes
  cmp : List Lexeme → CmpOp → List Lexeme → Row → Truth
  between : List Lexeme → List Lexeme → List Lexeme → Row → Truth
  test : List Lexeme → Row → Truth
  /-- Two rows agree on the selected columns. -/
  same : Row → Row → Bool
  /-- What `ORDER BY` and `LIMIT` keep, and in which order. -/
  arrange : List Lexeme → List Row → List Row
  arrange_sub : ∀ tail rows r, r ∈ arrange tail rows → r ∈ rows
  arrange_nil : ∀ rows, arrange [] rows = rows

section
variable (E : Engine)

mutual
def Condition.eval (r : E.Row) : Condition → Truth
  | .term t => t.eval r
  | .or c t => (c.eval r).or (t.eval r)
def Term.eval (r : E.Row) : Term → Truth
  | .factor f => f.eval r
  | .and t f => (t.eval r).and (f.eval r)
def Factor.eval (r : E.Row) : Factor → Truth
  | .not f => (f.eval r).not
  | .paren c => c.eval r
  | .cmp x o y =>
    match (Factor.cmp x o y).tenantEq with
    | some v => (E.tenantId r).map (· == v)
    | none => E.cmp x.lexemes o y.lexemes r
  | .between neg x lo hi =>
    let b := E.between x.lexemes lo.lexemes hi.lexemes r
    if neg then b.not else b
  | .test e => E.test e.lexemes r
end

/-- The rows a `SELECT` keeps, `db` giving the rows of each `FROM` clause. -/
def selectRows (db : List Lexeme → List E.Row) (head : List Lexeme) (cond : Option Condition) : List E.Row :=
  (db head).filter fun r =>
    match cond with
    | none => true
    | some c => c.eval E r == some true

def exceptRows (a b : List E.Row) : List E.Row := a.filter fun r => !b.any (E.same r)

def intersectRows (a b : List E.Row) : List E.Row := a.filter fun r => b.any (E.same r)

/-- Left to right, `INTERSECT` first: `cur` is the operand being read, `combine`
what awaits it. -/
def evalOps (db : List Lexeme → List E.Row) (combine : List E.Row → List E.Row) (cur : List E.Row) :
    List Further → List E.Row
  | [] => combine cur
  | x :: rest =>
    let rows := selectRows E db x.sel.head x.sel.cond
    match x.op with
    | .intersect => evalOps db combine (intersectRows E cur rows) rest
    | .union => evalOps db (fun t => combine cur ++ t) rows rest
    | .except => evalOps db (fun t => exceptRows E (combine cur) t) rows rest

def Statement.eval (db : List Lexeme → List E.Row) (st : Statement) : List E.Row :=
  E.arrange st.tail (evalOps E db id (selectRows E db st.head (some st.cond)) st.ops)

/-- Whatever the tables hold, every row returned is one of tenant `t`. -/
def Statement.Safe (st : Statement) (t : Bytes) : Prop :=
  ∀ db, ∀ r ∈ st.eval E db, E.tenantId r = some t

end

/-- No `OR` stands at the top level of the condition. -/
def Condition.orFree : Condition → Bool
  | .term _ => true
  | .or _ _ => false

def Statement.unionFree (st : Statement) : Bool := st.ops.all fun x => x.op != .union

/-- Every lexeme is one the tokenizer of the fitness function knows. -/
def plain (ls : List Lexeme) : Bool := ls.all fun l => match l with | .tok _ => true | _ => false

end Logalot
