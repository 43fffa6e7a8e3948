import Logalot.Fitness
import Logalot.LogTable

/-!
# Reading and running the hot store's statements

The Postgres side of the log queries: the text is split into tokens, read as a
`SELECT` over `log_events` with a conjunction of clauses, its placeholders are
replaced by the bound arguments and cast, and the query so bound is run on a
table. Everything outside this fragment, and every failing cast, is `none`.
-/

namespace Logalot

open Go Pg

/-! ## Tokens -/

inductive PgToken where
  | word (w : Bytes)
  | param (n : Nat)
  | str (v : Bytes)
  | num (d : Bytes)
  | sym (s : Bytes)
  deriving Repr, DecidableEq

def isIdentByte (c : UInt8) : Bool := isWordStart c || isDigit c || c == byte '$'

/-- The bytes of operators, `+-*/<>=~!@#%^&|?`. -/
def isOpByte (c : UInt8) : Bool := c ∈ [43, 45, 42, 47, 60, 62, 61, 126, 33, 64, 35, 37, 94, 38, 124, 63]

/-- One round of the lexer; words are folded to one case. -/
def pgNext (c : UInt8) (s : Bytes) : Option PgToken × Bytes :=
  if isBlank c then (none, s)
  else if c = quote then
    let r := scanString s
    (some (.str (replaceAll r.1 [quote, quote] [quote])), r.2)
  else if c = byte '$' then (some (.param (parseNat (s.takeWhile isDigit))), s.dropWhile isDigit)
  else if isDigit c then (some (.num (c :: s.takeWhile isDigit)), s.dropWhile isDigit)
  else if isWordStart c then (some (.word (toUpper (c :: s.takeWhile isIdentByte))), s.dropWhile isIdentByte)
  else if isOpByte c then (some (.sym (c :: s.takeWhile isOpByte)), s.dropWhile isOpByte)
  else if c = byte ':' ∧ s.head? = some (byte ':') then (some (.sym (bs "::")), s.tail)
  else (some (.sym [c]), s)

def pgLex (sql : Bytes) : List PgToken := scan pgNext sql

/-! ## Statements, over placeholder numbers or over arguments -/

inductive Clause (α : Type) where
  | tenantEq (id : α)
  | tsGe (t : α)
  | tsLt (t : α)
  | textMatch (q : α)
  | labelsContain (l : α)
  | serviceEq (s : α)
  | levelEq (l : α)
  | keyBefore (ts id : α)
  deriving Repr, DecidableEq

inductive Projection (α : Type) where
  | events
  | count
  | buckets (start width : α)
  deriving Repr, DecidableEq

inductive Tail (α : Type) where
  | none
  | newest (limit : α)
  | byBucket
  deriving Repr, DecidableEq

structure Stmt (α : Type) where
  proj : Projection α
  clauses : List (Clause α)
  tail : Tail α
  deriving Repr, DecidableEq

/-! ## Parsing by templates -/

/-- A text with `$0` for its placeholders, and what it reads as. -/
structure Template (β : Type) where
  text : Bytes
  make : List Nat → Option β

/-- Match a token with a template's; the placeholder number found, if any. -/
def matchToken : PgToken → PgToken → Option (List Nat)
  | .param _, .param n => some [n]
  | a, b => if a = b then some [] else none

/-- Match tokens against a template's; the placeholder numbers found, and the rest. -/
def matchTokens : List PgToken → List PgToken → Option (List Nat × List PgToken)
  | [], ts => some ([], ts)
  | a :: tm, b :: ts => (matchToken a b).bind fun ns => (matchTokens tm ts).map fun r => (ns ++ r.1, r.2)
  | _ :: _, [] => none

def Template.parse {β : Type} (t : Template β) (ts : List PgToken) : Option (β × List PgToken) :=
  (matchTokens (pgLex t.text) ts).bind fun r => (t.make r.1).map fun b => (b, r.2)

def parseFirst {β : Type} (tms : List (Template β)) (ts : List PgToken) : Option (β × List PgToken) :=
  tms.findSome? fun t => t.parse ts

def unary {β : Type} (f : Nat → β) : List Nat → Option β
  | [a] => some (f a)
  | _ => none

def headers : List (Template (Projection Nat)) :=
  [⟨bs "SELECT tenant_id::text, ts, id::text, service, level::text, message, labels, trace_id, span_id, raw " ++
      bs "FROM log_events WHERE",
    fun ns => if ns = [] then some .events else none⟩,
   ⟨bs "SELECT count(*) FROM log_events WHERE", fun ns => if ns = [] then some .count else none⟩,
   ⟨bs "SELECT to_timestamp(floor(EXTRACT(EPOCH FROM ts - $0) / $0) * $0 + EXTRACT(EPOCH FROM $0)) AS bucket_start, " ++
      bs "COUNT(*) AS count FROM log_events WHERE",
    fun ns => match ns with
      | [a, b, b', a'] => if a = a' ∧ b = b' then some (.buckets a b) else none
      | _ => none⟩]

def clauseTemplates : List (Template (Clause Nat)) :=
  [⟨bs "tenant_id = $0::uuid", unary .tenantEq⟩,
   ⟨bs "ts >= $0", unary .tsGe⟩,
   ⟨bs "ts < $0", unary .tsLt⟩,
   ⟨bs "search @@ websearch_to_tsquery('english', $0)", unary .textMatch⟩,
   ⟨bs "labels @> $0::jsonb", unary .labelsContain⟩,
   ⟨bs "service = $0", unary .serviceEq⟩,
   ⟨bs "level = $0::log_level", unary .levelEq⟩,
   ⟨bs "(ts, id) < ($0, $0::uuid)", fun ns => match ns with | [a, b] => some (.keyBefore a b) | _ => none⟩]

def tails : List (Template (Tail Nat)) :=
  [⟨bs "ORDER BY ts DESC, id DESC LIMIT $0", unary .newest⟩,
   ⟨bs "GROUP BY 1 ORDER BY 1", fun ns => if ns = [] then some .byBucket else none⟩]

def parseClauses : Nat → List PgToken → Option (List (Clause Nat) × List PgToken)
  | 0, _ => none
  | n + 1, ts =>
    match parseFirst clauseTemplates ts with
    | none => none
    | some (c, .word w :: rest) =>
      if w = bs "AND" then (parseClauses n rest).map fun r => (c :: r.1, r.2) else some ([c], .word w :: rest)
    | some (c, rest) => some ([c], rest)

def parseTail (ts : List PgToken) : Option (Tail Nat) :=
  if ts = [] then some .none
  else
    match parseFirst tails ts with
    | some (t, []) => some t
    | _ => none

def parseSql (sql : Bytes) : Option (Stmt Nat) :=
  match parseFirst headers (pgLex sql) with
  | none => none
  | some (p, ts) =>
    match parseClauses ts.length ts with
    | none => none
    | some (cs, ts') => (parseTail ts').map fun t => ⟨p, cs, t⟩

def PgToken.number : PgToken → Option Nat
  | .param n => some n
  | _ => none

def placeholders (sql : Bytes) : List Nat := (pgLex sql).filterMap PgToken.number

/-! ## Binding arguments -/

/-- A value bound to a placeholder. `float` is a `float64` that holds an integer. -/
inductive Arg where
  | text (s : Bytes)
  | time (t : Time)
  | int (n : Int)
  | float (n : Int)
  | json (l : Labels)
  deriving Repr, DecidableEq

def argOf (args : List Arg) (k : Nat) : Option Arg := if k = 0 then none else args[k - 1]?

def levelIn (s : Bytes) : Option Level :=
  [Level.trace, .debug, .info, .warn, .error, .fatal].find? fun l => l.text = s

def Clause.cond : Clause Arg → Option Cond
  | .tenantEq (.text s) => (uuidIn s).map .tenant
  | .tsGe (.time t) => some (.since (micros t))
  | .tsLt (.time t) => some (.until (micros t))
  | .textMatch (.text q) => some (.text q)
  | .labelsContain (.json l) => some (.labels l)
  | .serviceEq (.text s) => some (.service s)
  | .levelEq (.text s) => (levelIn s).map .level
  | .keyBefore (.time t) (.text id) => (uuidIn id).map (.before (micros t))
  | _ => none

def Clause.args (args : List Arg) : Clause Nat → Option (Clause Arg)
  | .tenantEq a => (argOf args a).map .tenantEq
  | .tsGe a => (argOf args a).map .tsGe
  | .tsLt a => (argOf args a).map .tsLt
  | .textMatch a => (argOf args a).map .textMatch
  | .labelsContain a => (argOf args a).map .labelsContain
  | .serviceEq a => (argOf args a).map .serviceEq
  | .levelEq a => (argOf args a).map .levelEq
  | .keyBefore a b => (argOf args a).bind fun x => (argOf args b).map fun y => .keyBefore x y

def Projection.args (args : List Arg) : Projection Nat → Option (Projection Arg)
  | .events => some .events
  | .count => some .count
  | .buckets a b => (argOf args a).bind fun x => (argOf args b).map fun y => .buckets x y

def Tail.args (args : List Arg) : Tail Nat → Option (Tail Arg)
  | .none => some .none
  | .newest a => (argOf args a).map .newest
  | .byBucket => some .byBucket

/-- The statement with each placeholder `$k` replaced by the `k`-th argument. -/
def Stmt.args (args : List Arg) (st : Stmt Nat) : Option (Stmt Arg) :=
  match st.proj.args args, st.clauses.mapM (Clause.args args), st.tail.args args with
  | some p, some cs, some t => some ⟨p, cs, t⟩
  | _, _, _ => none

def queryKind : Projection Arg → Tail Arg → Option QueryKind
  | .events, .newest (.int n) => if n < 0 then none else some (.newest n.toNat)
  | .count, .none => some .count
  | .buckets (.time t) (.float w), .byBucket => some (.buckets (micros t) w)
  | _, _ => none

def Stmt.query (st : Stmt Arg) : Option Query :=
  match queryKind st.proj st.tail, st.clauses.mapM Clause.cond with
  | some k, some cs => some ⟨k, cs⟩
  | _, _ => none

def readQuery (sql : Bytes) (args : List Arg) : Option Query :=
  (parseSql sql).bind fun st => (st.args args).bind Stmt.query

def evalSql (fts : Fts) (db : LogTable) (sql : Bytes) (args : List Arg) : Option Result :=
  (readQuery sql args).bind (Query.run fts db)

end Logalot
