import Logalot.Builders
import Logalot.LogTableSound
import Logalot.PgSqlSound

/-!
# What the built statements denote

Each builder's text reads as the statement over its own clauses, with every
placeholder bound to the value it was written for. The tenant clause is always
among them.
-/

namespace Logalot

open Go Pg Spelling

/-! ## The parts of the text -/

def fixedUuid : pgText.Fixed false := ⟨bs "::uuid", by decide +kernel, by decide +kernel⟩

def fixedTenant : pgText.Fixed true := ⟨bs " AND tenant_id = ", by decide +kernel, by decide +kernel⟩

def fixedSince : pgText.Fixed true := ⟨bs " AND ts >= ", by decide +kernel, by decide +kernel⟩

def fixedUntil : pgText.Fixed true := ⟨bs " AND ts < ", by decide +kernel, by decide +kernel⟩

def fixedSearch : pgText.Fixed true :=
  ⟨bs " AND search @@ websearch_to_tsquery('english', ", by decide +kernel, by decide +kernel⟩

def fixedParen : pgText.Fixed false := ⟨bs ")", by decide +kernel, by decide +kernel⟩

def fixedLabels : pgText.Fixed true := ⟨bs " AND labels @> ", by decide +kernel, by decide +kernel⟩

def fixedJsonb : pgText.Fixed false := ⟨bs "::jsonb", by decide +kernel, by decide +kernel⟩

def fixedServiceEq : pgText.Fixed true := ⟨bs " AND service = ", by decide +kernel, by decide +kernel⟩

def fixedLevelEq : pgText.Fixed true := ⟨bs " AND level = ", by decide +kernel, by decide +kernel⟩

def fixedLevel : pgText.Fixed false := ⟨bs "::log_level", by decide +kernel, by decide +kernel⟩

def fixedKey : pgText.Fixed true := ⟨bs " AND (ts, id) < (", by decide +kernel, by decide +kernel⟩

def fixedComma : pgText.Fixed true := ⟨bs ", ", by decide +kernel, by decide +kernel⟩

def fixedUuidParen : pgText.Fixed false := ⟨bs "::uuid)", by decide +kernel, by decide +kernel⟩

def fixedNewest : pgText.Fixed true :=
  ⟨bs " ORDER BY ts DESC, id DESC LIMIT ", by decide +kernel, by decide +kernel⟩

def fixedByBucket : pgText.Fixed false := ⟨bs " GROUP BY 1 ORDER BY 1", by decide +kernel, by decide +kernel⟩

def andParts : Clause Nat → List pgText.Part
  | .tenantEq a => [.hole fixedTenant a, .plain fixedUuid]
  | .tsGe a => [.hole fixedSince a]
  | .tsLt a => [.hole fixedUntil a]
  | .textMatch a => [.hole fixedSearch a, .plain fixedParen]
  | .labelsContain a => [.hole fixedLabels a, .plain fixedJsonb]
  | .serviceEq a => [.hole fixedServiceEq a]
  | .levelEq a => [.hole fixedLevelEq a, .plain fixedLevel]
  | .keyBefore a b => [.hole fixedKey a, .hole fixedComma b, .plain fixedUuidParen]

def tailParts : Tail Nat → List pgText.Part
  | .none => []
  | .newest a => [.hole fixedNewest a]
  | .byBucket => [.plain fixedByBucket]

theorem andParts_tokens (c : Clause Nat) : (andParts c).flatMap Part.tokens = andTokens c := by
  cases c <;> rfl

theorem tailParts_tokens (t : Tail Nat) : (tailParts t).flatMap Part.tokens = tailTokens t := by
  cases t <;> rfl

theorem flatMap_andParts_tokens (cs : List (Clause Nat)) :
    (cs.flatMap andParts).flatMap Part.tokens = cs.flatMap andTokens := by
  rw [List.flatMap_assoc]
  exact congrArg (cs.flatMap ·) (funext andParts_tokens)

structure Front (p : Projection Nat) where
  lead : Bytes
  lead_closed : closedFrom pgNext (pgSettled false) lead.length lead = true
  parts : List pgText.Part
  head : List PgToken
  tokens : pgLex lead ++ parts.flatMap Part.tokens = head ++ clauseTokens (.tenantEq 1)
  parse : ∀ rest, parseFirst headers (head ++ rest) = some (p, rest)
  /-- The number of arguments the front refers to. -/
  arity : Nat
  in_range : ∀ k ∈ head.filterMap PgToken.number, 1 ≤ k ∧ k ≤ arity

def eventsFront : Front .events where
  lead := bs "SELECT"
  lead_closed := by decide +kernel
  parts :=
    [.hole ⟨bs " " ++ selectColumns ++ bs " FROM log_events WHERE tenant_id = ", by decide +kernel,
      by decide +kernel⟩ 1, .plain fixedUuid]
  head := pgLex (bs "SELECT " ++ selectColumns ++ bs " FROM log_events WHERE")
  tokens := by decide +kernel
  parse _ := parseFirst_of_readsAs _ (by decide +kernel)
  arity := 1
  in_range := by decide +kernel

def ruleFront : Front .count where
  lead := bs "SELECT"
  lead_closed := by decide +kernel
  parts :=
    [.hole ⟨bs " count(*) FROM log_events WHERE tenant_id = ", by decide +kernel, by decide +kernel⟩ 1,
     .plain fixedUuid]
  head := pgLex (bs "SELECT count(*) FROM log_events WHERE")
  tokens := by decide +kernel
  parse _ := parseFirst_of_readsAs _ (by decide +kernel)
  arity := 1
  in_range := by decide +kernel

def panelFront : Front .count where
  lead := bs "SELECT"
  lead_closed := by decide +kernel
  parts :=
    [.hole ⟨bs " COUNT(*) FROM log_events WHERE tenant_id = ", by decide +kernel, by decide +kernel⟩ 1,
     .plain fixedUuid]
  head := pgLex (bs "SELECT COUNT(*) FROM log_events WHERE")
  tokens := by decide +kernel
  parse _ := parseFirst_of_readsAs _ (by decide +kernel)
  arity := 1
  in_range := by decide +kernel

def seriesFront : Front (.buckets 2 3) where
  lead := bs "\nSELECT"
  lead_closed := by decide +kernel
  parts :=
    [.hole ⟨bs "\n  to_timestamp(floor(EXTRACT(EPOCH FROM ts - ", by decide +kernel, by decide +kernel⟩ 2,
     .hole ⟨bs ") / ", by decide +kernel, by decide +kernel⟩ 3,
     .hole ⟨bs ") * ", by decide +kernel, by decide +kernel⟩ 3,
     .hole ⟨bs " + EXTRACT(EPOCH FROM ", by decide +kernel, by decide +kernel⟩ 2,
     .hole ⟨bs ")) AS bucket_start,\n  COUNT(*) AS count\nFROM log_events\nWHERE tenant_id = ", by decide +kernel,
      by decide +kernel⟩ 1,
     .plain fixedUuid]
  head := pgLex (bs "SELECT to_timestamp(floor(EXTRACT(EPOCH FROM ts - $2) / $3) * $3 + EXTRACT(EPOCH FROM $2)) " ++
    bs "AS bucket_start, COUNT(*) AS count FROM log_events WHERE")
  tokens := by decide +kernel
  parse _ := parseFirst_of_readsAs _ (by decide +kernel)
  arity := 3
  in_range := by decide +kernel

/-! ## Statements under construction -/

def Reads {p : Projection Nat} (F : Front p) (init : List Arg) (b : Built) (vs : List (Clause Arg)) : Prop :=
  ∃ cs : List (Clause Nat), b.sql = F.lead ++ (F.parts ++ cs.flatMap andParts).flatMap Part.text ∧
    List.Forall₂ (fun c v => Clause.args b.args c = some v) cs vs ∧ init <+: b.args

def Adds (f : Built → Built) (vs : List (Clause Arg)) : Prop :=
  ∀ (p : Projection Nat) (F : Front p) (init : List Arg) (b : Built) (us : List (Clause Arg)),
    Reads F init b us → Reads F init (f b) (us ++ vs)

theorem Reads.snoc {p : Projection Nat} {F : Front p} {init l : List Arg} {b b' : Built} {us : List (Clause Arg)}
    {c : Clause Nat} {v : Clause Arg} (h : Reads F init b us) (hs : b'.sql = b.sql ++ (andParts c).flatMap Part.text)
    (ha : b'.args = b.args ++ l) (hc : c.args b'.args = some v) : Reads F init b' (us ++ [v]) := by
  obtain ⟨cs, h1, h2, h3⟩ := h
  refine ⟨cs ++ [c], ?_, ?_, ?_⟩
  · rw [hs, h1]
    simp only [List.flatMap_append, List.flatMap_cons, List.flatMap_nil, List.append_nil, List.append_assoc]
  · refine List.rel_append (h2.imp fun d w hd => ?_) (.cons hc .nil)
    rw [ha]
    exact Clause.args_append hd
  · rw [ha]
    exact h3.trans (List.prefix_append _ _)

variable {vs : List (Clause Arg)} {f : Built → Built} {args : List Arg}

theorem Adds.comp {g : Built → Built} {ws : List (Clause Arg)} (hf : Adds f vs) (hg : Adds g ws) :
    Adds (fun b => g (f b)) (vs ++ ws) := by
  intro p F init b us h
  rw [← List.append_assoc]
  exact hg p F init _ _ (hf p F init b us h)

theorem adds_id : Adds (fun b => b) [] := by
  intro p F init b us h
  rwa [List.append_nil]

/-! ### Clauses -/

theorem write_nil (b : Built) : b.write [] = b := by simp [Built.write]

theorem adds_unary {v : Arg} {x y : Bytes} (mk : (α : Type) → α → Clause α)
    (hm : ∀ args k, (mk Nat k).args args = (argOf args k).map (mk Arg))
    (hp : ∀ k, (andParts (mk Nat k)).flatMap Part.text = x ++ (placeholder k ++ y))
    (hf : ∀ b, f b = ((b.write x).ph v).write y) : Adds f [mk Arg v] := by
  intro p F init b us h
  refine h.snoc (l := [v]) (c := mk Nat (b.args ++ [v]).length) ?_ ?_ ?_
  · simp only [hf, hp, Built.write, Built.ph, itoa_natCast, List.append_assoc]
    rfl
  · rw [hf]
    rfl
  · have ha : (f b).args = b.args ++ [v] := by
      rw [hf]
      rfl
    rw [hm, ha, argOf_length]
    rfl

theorem adds_andTsGe (t : Time) : Adds (·.andTsGe t) [.tsGe (.time t)] :=
  adds_unary (y := []) (fun _ => .tsGe) (fun _ _ => rfl) (fun _ => by simp [andParts, Part.text, pgText, fixedSince])
    fun _ => (write_nil _).symm

theorem adds_andTsLt (t : Time) : Adds (·.andTsLt t) [.tsLt (.time t)] :=
  adds_unary (y := []) (fun _ => .tsLt) (fun _ _ => rfl) (fun _ => by simp [andParts, Part.text, pgText, fixedUntil])
    fun _ => (write_nil _).symm

theorem adds_andText (q : Bytes) : Adds (·.andText q) [.textMatch (.text q)] :=
  adds_unary (fun _ => .textMatch) (fun _ _ => rfl)
    (fun _ => by simp [andParts, Part.text, pgText, fixedSearch, fixedParen]) fun _ => rfl

theorem adds_andLabels (l : Labels) : Adds (·.andLabels l) [.labelsContain (.json l)] :=
  adds_unary (fun _ => .labelsContain) (fun _ _ => rfl)
    (fun _ => by simp [andParts, Part.text, pgText, fixedLabels, fixedJsonb]) fun _ => rfl

theorem adds_andService (s : Bytes) : Adds (·.andService s) [.serviceEq (.text s)] :=
  adds_unary (y := []) (fun _ => .serviceEq) (fun _ _ => rfl)
    (fun _ => by simp [andParts, Part.text, pgText, fixedServiceEq]) fun _ => (write_nil _).symm

theorem adds_andLevel (l : Bytes) : Adds (·.andLevel l) [.levelEq (.text l)] :=
  adds_unary (fun _ => .levelEq) (fun _ _ => rfl)
    (fun _ => by simp [andParts, Part.text, pgText, fixedLevelEq, fixedLevel]) fun _ => rfl

theorem adds_andKeyBefore (c : Cursor) : Adds (·.andKeyBefore c) [.keyBefore (.time c.ts) (.text c.id)] := by
  intro p F init b us h
  let args := b.args ++ [Arg.time c.ts]
  refine h.snoc (l := [.time c.ts, .text c.id]) (c := .keyBefore args.length (args ++ [Arg.text c.id]).length) ?_ ?_ ?_
  · simp only [Built.andKeyBefore, Built.ph, itoa_natCast, Built.write, andParts, List.flatMap_cons, List.flatMap_nil,
      Part.text, List.append_nil, List.append_assoc, args]
    rfl
  · simp [Built.andKeyBefore, Built.ph, Built.write]
  · have h1 : argOf (args ++ [Arg.text c.id]) args.length = some (.time c.ts) := argOf_append (argOf_length _ _)
    have h2 : argOf (args ++ [Arg.text c.id]) (args ++ [Arg.text c.id]).length = some (.text c.id) := argOf_length _ _
    have ha : (b.andKeyBefore c).args = args ++ [.text c.id] := rfl
    simp only [ha, Clause.args, h1, h2, Option.bind_some, Option.map_some]

/-! ### Optional clauses -/

theorem adds_ite {c : Prop} [Decidable c] (h : Adds f vs) :
    Adds (fun b => if c then b else f b) (if c then [] else vs) := by
  split
  · exact adds_id
  · exact h

def fromClause (t : Time) : List (Clause Arg) := if isZero t then [] else [.tsGe (.time t)]

def toClause (t : Time) : List (Clause Arg) := if isZero t then [] else [.tsLt (.time t)]

def textClause (q : Bytes) : List (Clause Arg) := if trimSpace q = [] then [] else [.textMatch (.text (trimSpace q))]

def labelsClause (l : Labels) : List (Clause Arg) := if l = [] then [] else [.labelsContain (.json l)]

def serviceClause (s : Bytes) : List (Clause Arg) := if trimSpace s = [] then [] else [.serviceEq (.text (trimSpace s))]

def levelClause (l : Option Bytes) : List (Clause Arg) := l.toList.map fun s => .levelEq (.text s)

def cursorClause (c : Option Cursor) : List (Clause Arg) := c.toList.map fun k => .keyBefore (.time k.ts) (.text k.id)

theorem adds_whenTsFrom (t : Time) : Adds (·.whenTsFrom t) (fromClause t) := adds_ite (adds_andTsGe t)

theorem adds_whenTsTo (t : Time) : Adds (·.whenTsTo t) (toClause t) := adds_ite (adds_andTsLt t)

theorem adds_whenText (q : Bytes) : Adds (·.whenText q) (textClause q) := adds_ite (adds_andText _)

theorem adds_whenLabels (l : Labels) : Adds (·.whenLabels l) (labelsClause l) := adds_ite (adds_andLabels l)

theorem adds_whenService (s : Bytes) : Adds (·.whenService s) (serviceClause s) := adds_ite (adds_andService _)

theorem adds_whenLevel : ∀ l : Option Bytes, Adds (·.whenLevel l) (levelClause l)
  | none => adds_id
  | some l => adds_andLevel l

theorem adds_whenCursor : ∀ c : Option Cursor, Adds (·.whenCursor c) (cursorClause c)
  | none => adds_id
  | some c => adds_andKeyBefore c

theorem adds_appendTimeRange (tsFrom tsTo : Time) :
    Adds (appendTimeRange · tsFrom tsTo) (fromClause tsFrom ++ toClause tsTo) :=
  (adds_whenTsFrom tsFrom).comp (adds_whenTsTo tsTo)

def filterClauses (d : SavedQueryDef) : List (Clause Arg) :=
  textClause d.queryText ++ serviceClause d.service ++ levelClause d.level ++ labelsClause d.labels

theorem adds_appendFilters (d : SavedQueryDef) : Adds (appendFilters · d) (filterClauses d) :=
  (((adds_whenText d.queryText).comp (adds_whenService d.service)).comp (adds_whenLevel d.level)).comp
    (adds_whenLabels d.labels)

/-! ## Finished statements -/

def Clause.holes : Clause Nat → List Nat
  | .tenantEq a | .tsGe a | .tsLt a | .textMatch a | .labelsContain a | .serviceEq a | .levelEq a => [a]
  | .keyBefore a b => [a, b]

theorem filterMap_clauseTokens (c : Clause Nat) : (clauseTokens c).filterMap PgToken.number = c.holes := by
  cases c <;> rfl

theorem in_range_of_argOf {k : Nat} {a : Arg} (h : argOf args k = some a) :
    1 ≤ k ∧ k ≤ args.length := by
  unfold argOf at h
  split at h
  · cases h
  · have := (List.getElem?_eq_some_iff.mp h).1
    omega

theorem Clause.in_range {c : Clause Nat} {v : Clause Arg} (h : c.args args = some v) :
    ∀ k ∈ c.holes, 1 ≤ k ∧ k ≤ args.length := by
  cases c with
  | keyBefore a b =>
    simp only [Clause.args, Option.bind_eq_some_iff, Option.map_eq_some_iff] at h
    obtain ⟨x, hx, y, hy, -⟩ := h
    simp only [Clause.holes, List.mem_cons, List.not_mem_nil, or_false]
    rintro k (rfl | rfl)
    · exact in_range_of_argOf hx
    · exact in_range_of_argOf hy
  | _ =>
    simp only [Clause.args, Option.map_eq_some_iff] at h
    obtain ⟨x, hx, -⟩ := h
    simp only [Clause.holes, List.mem_singleton]
    rintro k rfl
    exact in_range_of_argOf hx

theorem in_range_clauses {cs : List (Clause Nat)}
    (h : List.Forall₂ (fun c v => Clause.args args c = some v) cs vs) :
    ∀ k ∈ (cs.flatMap andTokens).filterMap PgToken.number, 1 ≤ k ∧ k ≤ args.length := by
  induction h with
  | nil =>
    intro k hk
    cases hk
  | @cons c v cs vs hc _ ih =>
    intro k hk
    rw [List.flatMap_cons, List.filterMap_append, List.mem_append] at hk
    rcases hk with hk | hk
    · refine c.in_range hc k ?_
      rw [← filterMap_clauseTokens]
      exact hk
    · exact ih k hk

/-- What is to be known of a built statement: the tenant is the first argument,
no placeholder is out of range, the text and arguments read as `st`, and the
result depends on the tenant's rows alone. -/
structure Isolates (fts : Fts) (tenant : Bytes) (b : Built) (st : Stmt Arg) : Prop where
  tenant_first : b.args.head? = some (.text tenant)
  in_range : ∀ k ∈ placeholders b.sql, 1 ≤ k ∧ k ≤ b.args.length
  denotes : (parseSql b.sql).bind (Stmt.args b.args) = some st
  isolated : ∀ db db' : LogTable, (∀ u, uuidIn tenant = some u → AgreeOn u db db') →
    evalSql fts db b.sql b.args = evalSql fts db' b.sql b.args

theorem readQuery_of_denotes {sql : Bytes} {st : Stmt Arg}
    (hd : (parseSql sql).bind (Stmt.args args) = some st) : readQuery sql args = st.query := by
  unfold readQuery
  cases hp : parseSql sql with
  | none =>
    rw [hp] at hd
    cases hd
  | some st' =>
    rw [hp, Option.bind_some] at hd
    rw [Option.bind_some, hd, Option.bind_some]

theorem evalSql_congr {fts : Fts} {tenant sql : Bytes} {st : Stmt Arg}
    (hd : (parseSql sql).bind (Stmt.args args) = some st) (hc : st.clauses = .tenantEq (.text tenant) :: vs)
    {db db' : LogTable} (ha : ∀ u, uuidIn tenant = some u → AgreeOn u db db') :
    evalSql fts db sql args = evalSql fts db' sql args := by
  unfold evalSql
  rw [readQuery_of_denotes hd]
  unfold Stmt.query
  cases queryKind st.proj st.tail with
  | none => rfl
  | some kind =>
    cases hm : st.clauses.mapM Clause.cond with
    | none => rfl
    | some conds =>
      rw [hc] at hm
      cases hu : uuidIn tenant with
      | none => simp [Clause.cond, hu] at hm
      | some u =>
        have hmem : .tenant u ∈ conds := by
          simp only [List.mapM_cons, Clause.cond, hu, Option.map_some, Option.bind_eq_bind, Option.bind_some,
            Option.bind_eq_some_iff] at hm
          obtain ⟨rest, -, e⟩ := hm
          cases e
          exact List.mem_cons_self
        exact Query.run_congr fts hmem (ha u hu)

section
variable {p : Projection Nat} {F : Front p}

theorem pgLex_parts (F : Front p) (cs : List (Clause Nat)) (t : Tail Nat) :
    pgLex (F.lead ++ ((F.parts ++ cs.flatMap andParts).flatMap Part.text ++ (tailParts t).flatMap Part.text)) =
      F.head ++ (clauseTokens (.tenantEq 1) ++ (cs.flatMap andTokens ++ tailTokens t)) := by
  have hnil : StartsIn pgText.stops [] := fun c hc => by cases hc
  have hparts := read_parts hnil (F.parts ++ cs.flatMap andParts ++ tailParts t)
  rw [List.append_nil, List.flatMap_append] at hparts
  have hstart := startsIn_parts hnil (F.parts ++ cs.flatMap andParts ++ tailParts t)
  rw [List.append_nil, List.flatMap_append] at hstart
  have hlead : pgText.read (F.lead ++ _) = pgText.read F.lead ++ _ := read_lead F.lead_closed hstart
  rw [hparts] at hlead
  refine hlead.trans ?_
  have hread : pgText.read F.lead = pgLex F.lead := rfl
  have hempty : pgText.read [] = [] := rfl
  rw [hread, hempty, List.append_nil, List.flatMap_append, List.flatMap_append, flatMap_andParts_tokens,
    tailParts_tokens, ← List.append_assoc, ← List.append_assoc, F.tokens]
  simp only [List.append_assoc]

variable {tenant : Bytes} {more l : List Arg} {b b' : Built} {vs : List (Clause Arg)}

theorem Reads.isolates (fts : Fts) (h : Reads F (.text tenant :: more) b vs) (hn : F.arity ≤ more.length + 1)
    {t : Tail Nat} (hs : b'.sql = b.sql ++ (tailParts t).flatMap Part.text) (ha : b'.args = b.args ++ l)
    {p' : Projection Arg} (hp : p.args b'.args = some p') {t' : Tail Arg} (ht : t.args b'.args = some t') :
    Isolates fts tenant b' ⟨p', .tenantEq (.text tenant) :: vs, t'⟩ := by
  obtain ⟨cs, h1, h2, ⟨rest, h3⟩⟩ := h
  have hargs : b'.args = .text tenant :: (more ++ (rest ++ l)) := by
    rw [ha, ← h3]
    simp
  have hlen : more.length + 1 ≤ b'.args.length := by
    rw [hargs, List.length_cons, List.length_append]
    omega
  have hlex := pgLex_parts F cs t
  rw [← List.append_assoc, ← h1, ← hs] at hlex
  have hcs : List.Forall₂ (fun c v => Clause.args b'.args c = some v) (.tenantEq 1 :: cs)
      (.tenantEq (.text tenant) :: vs) := by
    refine .cons (by rw [hargs]; rfl) (h2.imp fun c v hc => ?_)
    rw [ha]
    exact Clause.args_append hc
  have hd : (parseSql b'.sql).bind (Stmt.args b'.args) = some ⟨p', .tenantEq (.text tenant) :: vs, t'⟩ := by
    rw [parseSql_of_tokens F.parse hlex, Option.bind_some, Stmt.args, hp, mapM_args hcs, ht]
  refine ⟨by rw [hargs]; rfl, ?_, hd, fun db db' hdb => evalSql_congr hd rfl hdb⟩
  -- the placeholders are those of the front, of the clauses and of the tail
  intro k hk
  rw [placeholders, hlex, List.filterMap_append, List.filterMap_append, List.filterMap_append, List.mem_append,
    List.mem_append, List.mem_append] at hk
  rcases hk with hk | hk | hk | hk
  · have := F.in_range k hk
    omega
  · obtain rfl : k = 1 := by simpa [filterMap_clauseTokens, Clause.holes] using hk
    omega
  · exact in_range_clauses (List.forall₂_cons.mp hcs).2 k hk
  · cases t with
    | newest a =>
      obtain rfl : a = k := by simpa [tailTokens, PgToken.number, wordTok, symTok] using hk
      simp only [Tail.args, Option.map_eq_some_iff] at ht
      obtain ⟨x, hx, -⟩ := ht
      exact in_range_of_argOf hx
    | none => cases hk
    | byBucket => cases hk

end

/-! ## The five builders -/

def searchStmt (tenant : Bytes) (q : SearchQuery) (fetchLimit : Int) : Stmt Arg :=
  { proj := .events
    clauses := .tenantEq (.text tenant) :: (fromClause q.tsFrom ++ toClause q.tsTo ++ textClause q.text ++
      labelsClause q.labels ++ serviceClause q.service ++ levelClause q.level ++ cursorClause q.cursor)
    tail := .newest (.int fetchLimit) }

def countStmt (tenant : Bytes) (q : RuleQuery) (tsFrom tsTo : Time) : Stmt Arg :=
  { proj := .count
    clauses := .tenantEq (.text tenant) :: ([.tsGe (.time tsFrom)] ++ [.tsLt (.time tsTo)] ++ textClause q.text ++
      labelsClause q.labels ++ serviceClause q.service ++ levelClause q.level)
    tail := .none }

def panelClauses (tenant : Bytes) (d : SavedQueryDef) (tsFrom tsTo : Time) : List (Clause Arg) :=
  .tenantEq (.text tenant) :: (fromClause tsFrom ++ toClause tsTo ++ filterClauses d)

def countQueryStmt (tenant : Bytes) (d : SavedQueryDef) (tsFrom tsTo : Time) : Stmt Arg :=
  { proj := .count, clauses := panelClauses tenant d tsFrom tsTo, tail := .none }

def timeSeriesStmt (tenant : Bytes) (d : SavedQueryDef) (tsFrom tsTo : Time) (bucketSecs : Int) : Stmt Arg :=
  { proj := .buckets (.time tsFrom) (.float bucketSecs), clauses := panelClauses tenant d tsFrom tsTo,
    tail := .byBucket }

def recentStmt (tenant : Bytes) (d : SavedQueryDef) (tsFrom tsTo : Time) (limit : Int) : Stmt Arg :=
  { proj := .events, clauses := panelClauses tenant d tsFrom tsTo, tail := .newest (.int limit) }

theorem reads_front {p : Projection Nat} (F : Front p) (init : List Arg) :
    Reads F init ⟨F.lead ++ F.parts.flatMap Part.text, init⟩ [] :=
  ⟨[], by simp, .nil, List.prefix_rfl⟩

theorem eventsFront_text : bs "SELECT " ++ selectColumns ++ bs " FROM log_events WHERE tenant_id = $1::uuid" =
    eventsFront.lead ++ eventsFront.parts.flatMap Part.text := by decide

theorem ruleFront_text : bs "SELECT count(*) FROM log_events WHERE tenant_id = $1::uuid" =
    ruleFront.lead ++ ruleFront.parts.flatMap Part.text := by decide

theorem panelFront_text : bs "SELECT COUNT(*) FROM log_events WHERE tenant_id = $1::uuid" =
    panelFront.lead ++ panelFront.parts.flatMap Part.text := by decide

theorem seriesFront_text : timeSeriesSelect = seriesFront.lead ++ seriesFront.parts.flatMap Part.text := by
  decide +kernel

theorem Reads.isolates_newest {F : Front .events} {tenant : Bytes} {more : List Arg} {b : Built} (fts : Fts)
    (h : Reads F (.text tenant :: more) b vs) (hn : F.arity ≤ more.length + 1) (limit : Int) :
    Isolates fts tenant ((b.write (bs " ORDER BY ts DESC, id DESC LIMIT ")).ph (.int limit))
      ⟨.events, .tenantEq (.text tenant) :: vs, .newest (.int limit)⟩ := by
  refine h.isolates fts hn (l := [.int limit]) (t := .newest (b.args ++ [Arg.int limit]).length) ?_ rfl rfl ?_
  · simp only [Built.write, Built.ph, itoa_natCast, tailParts, List.flatMap_cons, List.flatMap_nil, Part.text,
      List.append_nil, List.append_assoc]
    rfl
  · exact congrArg (Option.map _) (argOf_length b.args (.int limit))

section
variable (fts : Fts) (tenant : Bytes)

theorem buildSearch_isolates (q : SearchQuery) (fetchLimit : Int) :
    Isolates fts tenant (buildSearch tenant q fetchLimit) (searchStmt tenant q fetchLimit) := by
  have hadds := ((((((adds_whenTsFrom q.tsFrom).comp (adds_whenTsTo q.tsTo)).comp (adds_whenText q.text)).comp
    (adds_whenLabels q.labels)).comp (adds_whenService q.service)).comp (adds_whenLevel q.level)).comp
    (adds_whenCursor q.cursor)
  have h := hadds _ _ _ _ _ (reads_front eventsFront [.text tenant])
  rw [← eventsFront_text] at h
  exact h.isolates_newest fts (Nat.le_refl _) fetchLimit

theorem buildCount_isolates (q : RuleQuery) (tsFrom tsTo : Time) :
    Isolates fts tenant (buildCount tenant q tsFrom tsTo) (countStmt tenant q tsFrom tsTo) := by
  have hadds := (((((adds_andTsGe tsFrom).comp (adds_andTsLt tsTo)).comp (adds_whenText q.text)).comp
    (adds_whenLabels q.labels)).comp (adds_whenService q.service)).comp (adds_whenLevel q.level)
  have h := hadds _ _ _ _ _ (reads_front ruleFront [.text tenant])
  rw [← ruleFront_text] at h
  exact h.isolates fts (t := .none) (Nat.le_refl _) (List.append_nil _).symm (List.append_nil _).symm rfl rfl

theorem buildCountQuery_isolates (d : SavedQueryDef) (tsFrom tsTo : Time) :
    Isolates fts tenant (buildCountQuery tenant d tsFrom tsTo) (countQueryStmt tenant d tsFrom tsTo) := by
  have hadds := (adds_appendTimeRange tsFrom tsTo).comp (adds_appendFilters d)
  have h := hadds _ _ _ _ _ (reads_front panelFront [.text tenant])
  rw [← panelFront_text] at h
  exact h.isolates fts (t := .none) (Nat.le_refl _) (List.append_nil _).symm (List.append_nil _).symm rfl rfl

theorem buildTimeSeriesQuery_isolates (d : SavedQueryDef) (tsFrom tsTo : Time) (bucketSecs : Int) :
    Isolates fts tenant (buildTimeSeriesQuery tenant d tsFrom tsTo bucketSecs)
      (timeSeriesStmt tenant d tsFrom tsTo bucketSecs) := by
  have hadds := (adds_appendTimeRange tsFrom tsTo).comp (adds_appendFilters d)
  have h := hadds _ _ _ _ _ (reads_front seriesFront [.text tenant, .time tsFrom, .float bucketSecs])
  rw [← seriesFront_text] at h
  -- the front refers to the second and third argument, which later clauses do not move
  obtain ⟨rest, hrest⟩ : [Arg.text tenant, .time tsFrom, .float bucketSecs] <+:
      (buildTimeSeriesQuery tenant d tsFrom tsTo bucketSecs).args := h.choose_spec.2.2
  have hp : (Projection.buckets 2 3).args (buildTimeSeriesQuery tenant d tsFrom tsTo bucketSecs).args =
      some (.buckets (.time tsFrom) (.float bucketSecs)) := by
    rw [← hrest]
    rfl
  have ha : (buildTimeSeriesQuery tenant d tsFrom tsTo bucketSecs).args = _ ++ [] := (List.append_nil _).symm
  exact h.isolates fts (t := .byBucket) (Nat.le_refl _) rfl ha hp rfl

theorem buildRecentQuery_isolates (d : SavedQueryDef) (tsFrom tsTo : Time) (limit : Int) :
    Isolates fts tenant (buildRecentQuery tenant d tsFrom tsTo limit) (recentStmt tenant d tsFrom tsTo limit) := by
  have hadds := (adds_appendTimeRange tsFrom tsTo).comp (adds_appendFilters d)
  have h := hadds _ _ _ _ _ (reads_front eventsFront [.text tenant])
  rw [← eventsFront_text] at h
  have hw : ∀ b : Built, (b.write (bs " ORDER BY ts DESC, id DESC")).write (bs " LIMIT ") =
      b.write (bs " ORDER BY ts DESC, id DESC LIMIT ") := by
    intro b
    have e : bs " ORDER BY ts DESC, id DESC LIMIT " = bs " ORDER BY ts DESC, id DESC" ++ bs " LIMIT " := by
      decide
    simp only [Built.write, e, List.append_assoc]
  rw [buildRecentQuery]
  simp only [hw]
  exact h.isolates_newest fts (Nat.le_refl _) limit

end

/-- **Tenant isolation of the log queries.** Each of the five builders, for every
filter, cursor, window, limit and bucket count: the tenant of the context is the
first argument, every placeholder stands for the argument it was written for,
and rows of other tenants cannot change the result. -/
theorem builders_isolate_tenant (fts : Fts) (tc : TenantContext) (q : SearchQuery) (rq : RuleQuery)
    (d : SavedQueryDef) (tsFrom tsTo : Time) (fetchLimit limit buckets : Int) :
    Isolates fts tc.tenantId (buildSearch tc.tenantId q fetchLimit) (searchStmt tc.tenantId q fetchLimit) ∧
    Isolates fts tc.tenantId (buildCount tc.tenantId rq tsFrom tsTo) (countStmt tc.tenantId rq tsFrom tsTo) ∧
    Isolates fts tc.tenantId (buildCountQuery tc.tenantId d tsFrom tsTo) (countQueryStmt tc.tenantId d tsFrom tsTo) ∧
    Isolates fts tc.tenantId (buildTimeSeriesQuery tc.tenantId d tsFrom tsTo (bucketSize tsFrom tsTo buckets))
      (timeSeriesStmt tc.tenantId d tsFrom tsTo (bucketSize tsFrom tsTo buckets)) ∧
    Isolates fts tc.tenantId (buildRecentQuery tc.tenantId d tsFrom tsTo limit)
      (recentStmt tc.tenantId d tsFrom tsTo limit) :=
  ⟨buildSearch_isolates fts _ q fetchLimit, buildCount_isolates fts _ rq tsFrom tsTo,
    buildCountQuery_isolates fts _ d tsFrom tsTo, buildTimeSeriesQuery_isolates fts _ d tsFrom tsTo _,
    buildRecentQuery_isolates fts _ d tsFrom tsTo limit⟩

end Logalot
