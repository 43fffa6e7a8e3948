import Logalot.Builders
import Logalot.ColdArchive
import Logalot.ColdQuery
import Logalot.ColdSql

/-!
# The filters of the two tiers

What the `WHERE` clause of a cold query and that of a hot query say of an event
that is stored in both tiers. The engine of the archive is Trino: a column is
compared as text, and `json_extract_scalar` follows a path of members into the
labels. Regular expressions, the members a path may name without quotes beyond
those of plain ASCII, and the order of the result are parameters.
-/

namespace Logalot

open Go Sql

/-! ## Rows of the archive -/

/-- A row of `logalot_cold.log_events`: a record, and the date of its partition. -/
structure ColdRow where
  dt : Bytes
  record : ColdLogRecord
  deriving DecidableEq

def ColdObject.rows (o : ColdObject) : List ColdRow := o.records.map fun r => ⟨formatDate o.t, r⟩

def ColdRow.column (r : ColdRow) (name : Bytes) : Option Bytes :=
  ([(bs "tenant_id", r.record.tenantId), (bs "dt", r.dt), (bs "id", r.record.id), (bs "service", r.record.service),
    (bs "level", r.record.level), (bs "message", r.record.message), (bs "trace_id", r.record.traceId),
    (bs "span_id", r.record.spanId), (bs "raw", r.record.raw)].find? fun c => equalFold name c.1).map Prod.snd

/-! ## Values -/

/-- Letters, digits, `_`, `-` and `:`. -/
def isMemberByte (c : UInt8) : Bool :=
  isLetter c || isDigit c || c == byte '_' || c == byte '-' || c == byte ':'

structure Trino where
  regexpLike : Bytes → Bytes → Bool
  /-- What may stand after a dot of a path. -/
  isMember : Bytes → Bool
  isMember_sound : ∀ s, isMember s = true → s ≠ [] ∧ byte '.' ∉ s
  isMember_ascii : ∀ s, s ≠ [] → (∀ c ∈ s, isMemberByte c = true) → isMember s = true
  arrange : List Lexeme → List ColdRow → List ColdRow
  arrange_sub : ∀ tail rows r, r ∈ arrange tail rows → r ∈ rows
  arrange_nil : ∀ rows, arrange [] rows = rows

section
variable (T : Trino)

/-- The members of a path `$.a.b`; other paths select nothing in an object of texts, or are errors. -/
def Trino.jsonPath : Bytes → Option (List Bytes)
  | a :: b :: s =>
    let members := s.splitOn (byte '.')
    if a = byte '$' ∧ b = byte '.' ∧ members.all T.isMember then some members else none
  | _ => none

/-- The labels are an object of texts, which have no members of their own. -/
def Trino.jsonExtractScalar (labels : Labels) (path : Bytes) : Option Bytes :=
  match T.jsonPath path with
  | some [k] => labels.lookup k
  | _ => none

/-- The value of an operand, or NULL. -/
def Trino.value (r : ColdRow) : List Lexeme → Option Bytes
  | [.tok ⟨.tokString, v⟩] => some v
  | [.tok ⟨.tokIdent, name⟩] => r.column name
  | [.tok ⟨.tokIdent, f⟩, .tok ⟨.tokLParen, _⟩, .tok ⟨.tokIdent, c⟩, .tok ⟨.tokComma, _⟩, .tok ⟨.tokString, path⟩,
      .tok ⟨.tokRParen, _⟩] =>
    if equalFold f (bs "json_extract_scalar") ∧ equalFold c (bs "labels") then
      T.jsonExtractScalar r.record.labels path
    else none
  | _ => none

def CmpOp.holds (a b : Bytes) : CmpOp → Bool
  | .eq => a == b
  | .lt => !textLe b a
  | .gt => !textLe a b
  | .le => textLe a b
  | .ge => textLe b a
  | .ne | .ltgt => a != b

/-- A call that is a condition. -/
def Trino.test (r : ColdRow) : List Lexeme → Truth
  | [.tok ⟨.tokIdent, f⟩, .tok ⟨.tokLParen, _⟩, .tok ⟨.tokIdent, c⟩, .tok ⟨.tokComma, _⟩, .tok ⟨.tokString, pattern⟩,
      .tok ⟨.tokRParen, _⟩] =>
    if equalFold f (bs "regexp_like") then (r.column c).map (T.regexpLike · pattern) else none
  | _ => none

abbrev Trino.engine : Engine where
  Row := ColdRow
  tenantId r := some r.record.tenantId
  cmp x o y r := (T.value r x).bind fun a => (T.value r y).map fun b => o.holds a b
  between x lo hi r :=
    (T.value r x).bind fun a => (T.value r lo).bind fun l => (T.value r hi).map fun h => textLe l a && textLe a h
  test e r := T.test r e
  same a b := a = b
  arrange := T.arrange
  arrange_sub := T.arrange_sub
  arrange_nil := T.arrange_nil

def Trino.Satisfies (st : Statement) (r : ColdRow) : Prop := st.cond.eval T.engine r = some true

end

/-! ## The cold query as a statement -/

def ident (w : String) : Lexeme := .tok ⟨.tokIdent, bs w⟩

def str (v : Bytes) : Lexeme := .tok ⟨.tokString, v⟩

def comma : Lexeme := .tok ⟨.tokComma, [byte ',']⟩

def Operand.literal (v : Bytes) : Operand := ⟨[str v], by simp, rfl⟩

def Operand.tenantId : Operand := ⟨[ident "tenant_id"], by simp, by decide +kernel⟩

def Operand.dt : Operand := ⟨[ident "dt"], by simp, by decide +kernel⟩

def Operand.service : Operand := ⟨[ident "service"], by simp, by decide +kernel⟩

def Operand.regexpLike (pattern : Bytes) : Operand :=
  ⟨[ident "regexp_like", lparen, ident "message", comma, str pattern, rparen], by simp, rfl⟩

def Operand.jsonExtractScalar (path : Bytes) : Operand :=
  ⟨[ident "json_extract_scalar", lparen, ident "labels", comma, str path, rparen], by simp, rfl⟩

/-- `( 'v' = '' OR .. )`. -/
def Factor.optional (v : Bytes) (f : Factor) : Factor :=
  .paren (.or (.term (.factor (.cmp (.literal v) .eq (.literal [])))) (.factor f))

def Factor.label (l : Bytes × Bytes) : Factor := .cmp (.jsonExtractScalar (bs "$." ++ l.1)) .eq (.literal l.2)

def coldTerm (tenant fromDate toDate text svc : Bytes) : Term :=
  .and (.and (.and (.factor (.cmp .tenantId .eq (.literal tenant)))
    (.between false .dt (.literal fromDate) (.literal toDate)))
    (.optional text (.test (.regexpLike text))))
    (.optional svc (.cmp .service .eq (.literal svc)))

def coldHead : List Lexeme :=
  [ident "ts", comma, ident "id", comma, ident "service", comma, ident "level", comma, ident "message", comma,
    ident "labels", kw "FROM", ident "logalot_cold.log_events"]

def coldTail (limit : Bytes) : List Lexeme :=
  [kw "ORDER", kw "BY", ident "ts", ident "DESC", kw "LIMIT", .tok ⟨.tokNumber, limit⟩]

/-- What `buildColdQuery` writes. -/
def coldStatement (now : Time) (tc : TenantContext) (q : SearchQuery) : Statement where
  head := coldHead
  head_ok := by decide +kernel
  cond := .term (q.labels.foldl (fun t l => .and t (.label l))
    (coldTerm tc.tenantId (timeBounds now q).1 (timeBounds now q).2 (trimSpace q.text) (trimSpace q.service)))
  ops := []
  tail := coldTail (itoa (clampLimit q.limit))
  tail_ok := by rfl
  tail_head l h := Or.inl (Option.some.inj h).symm

/-! ## The hot query -/

/-- A row meets every condition of a statement that the server accepts. -/
def Satisfies (fts : Fts) (b : Built) (r : Row) : Prop :=
  ∃ query, readQuery b.sql b.args = some query ∧ ∀ c ∈ query.conds, c.holds fts r = true

/-! ## An event in both tiers -/

def coldRow (tc : TenantContext) (ev : LogEvent) : ColdRow :=
  { dt := formatDate ev.ts, record := coldRecord tc ev.ts ev }

def SearchQuery.Passes (q : SearchQuery) (ev : LogEvent) : Prop :=
  (trimSpace q.service ≠ [] → ev.service = trimSpace q.service) ∧ ∀ l ∈ q.labels, l ∈ ev.labels

instance (q : SearchQuery) (ev : LogEvent) : Decidable (q.Passes ev) := inferInstanceAs (Decidable (_ ∧ _))

def SearchQuery.HasLevel (q : SearchQuery) (ev : LogEvent) : Prop := ∀ s, q.level = some s → levelIn s = some ev.level

instance (q : SearchQuery) (ev : LogEvent) : Decidable (q.HasLevel ev) :=
  inferInstanceAs (Decidable (∀ s, q.level = some s → levelIn s = some ev.level))

end Logalot
