import Logalot.PgSql
import Logalot.LexemesSound
import Logalot.Lib.Template

/-!
# Reading generated statements

The lexer on text with placeholders in it, and the parser on the tokens of a
statement: a statement spelled with its templates is read back as itself.
-/

namespace Logalot

open Go Pg Spelling

/-! ## Rounds of the lexer -/

variable {c : UInt8} {args : List Arg}

theorem pgNext_blank (h : isBlank c = true) (s : Bytes) : pgNext c s = (none, s) := by
  unfold pgNext
  rw [if_pos h]

theorem pgNext_quote (s : Bytes) :
    pgNext quote s = (some (.str (replaceAll (scanString s).1 [quote, quote] [quote])), (scanString s).2) := by
  unfold pgNext
  rw [if_neg (by decide), if_pos rfl]

theorem pgNext_param (s : Bytes) :
    pgNext (byte '$') s = (some (.param (parseNat (s.takeWhile isDigit))), s.dropWhile isDigit) := by
  unfold pgNext
  rw [if_neg (by decide), if_neg (by decide), if_pos rfl]

theorem pgNext_digit (h : isDigit c = true) (s : Bytes) :
    pgNext c s = (some (.num (c :: s.takeWhile isDigit)), s.dropWhile isDigit) := by
  have hb : ∀ c, isDigit c = true → isBlank c = false ∧ c ≠ quote ∧ c ≠ byte '$' := by decide +kernel
  obtain ⟨h1, h2, h3⟩ := hb c h
  unfold pgNext
  rw [if_neg (by simp [h1]), if_neg h2, if_neg h3, if_pos h]

theorem pgNext_word (h : isWordStart c = true) (s : Bytes) :
    pgNext c s = (some (.word (toUpper (c :: s.takeWhile isIdentByte))), s.dropWhile isIdentByte) := by
  have hb : ∀ c, isWordStart c = true → isBlank c = false ∧ c ≠ quote ∧ c ≠ byte '$' ∧ isDigit c = false := by
    decide +kernel
  obtain ⟨h1, h2, h3, h4⟩ := hb c h
  unfold pgNext
  rw [if_neg (by simp [h1]), if_neg h2, if_neg h3, if_neg (by simp [h4]), if_pos h]

def pgPastWord (c : UInt8) : Bool := !(isBlank c || c == quote || c == byte '$' || isDigit c || isWordStart c)

theorem pgNext_pastWord (h : pgPastWord c = true) (s : Bytes) :
    pgNext c s =
      if isOpByte c then (some (.sym (c :: s.takeWhile isOpByte)), s.dropWhile isOpByte)
      else if c = byte ':' ∧ s.head? = some (byte ':') then (some (.sym (bs "::")), s.tail)
      else (some (.sym [c]), s) := by
  simp only [pgPastWord, Bool.not_eq_true', Bool.or_eq_false_iff, beq_eq_false_iff_ne] at h
  obtain ⟨⟨⟨⟨h1, h2⟩, h3⟩, h4⟩, h5⟩ := h
  unfold pgNext
  rw [if_neg (by simp [h1]), if_neg h2, if_neg h3, if_neg (by simp [h4]), if_neg (by simp [h5])]

theorem pgNext_op (h : isOpByte c = true) (s : Bytes) :
    pgNext c s = (some (.sym (c :: s.takeWhile isOpByte)), s.dropWhile isOpByte) := by
  have hb : ∀ c, isOpByte c = true → pgPastWord c = true := by decide +kernel
  rw [pgNext_pastWord (hb c h), if_pos h]

def isPunct (c : UInt8) : Bool := c == byte '(' || c == byte ')' || c == byte ','

theorem pgNext_punct (h : isPunct c = true) (s : Bytes) : pgNext c s = (some (.sym [c]), s) := by
  have hb : ∀ c, isPunct c = true → pgPastWord c = true ∧ isOpByte c = false ∧ c ≠ byte ':' := by decide +kernel
  obtain ⟨h1, h2, h3⟩ := hb c h
  rw [pgNext_pastWord h1, if_neg (by simp [h2]), if_neg fun e => h3 e.1]

theorem pgNext_cast (s : Bytes) : pgNext (byte ':') (byte ':' :: s) = (some (.sym (bs "::")), s) := by
  rw [pgNext_pastWord (by decide), if_neg (by decide), if_pos ⟨rfl, rfl⟩]
  rfl

theorem length_pgNext_le (c : UInt8) (s : Bytes) : (pgNext c s).2.length ≤ s.length := by
  have h1 := length_scanString_le s
  have h2 := length_dropWhile_le isDigit s
  have h3 := length_dropWhile_le isIdentByte s
  have h4 := length_dropWhile_le isOpByte s
  have h5 : s.tail.length ≤ s.length := by simp
  unfold pgNext
  repeat'
    refine iteInduction (motive := fun r : Option PgToken × Bytes => r.2.length ≤ s.length) (fun _ => ?_) (fun _ => ?_)
  all_goals (try dsimp only); omega

/-! ## Text with placeholders -/

def isPgStop (c : UInt8) : Bool := isBlank c || c == byte ')' || c == byte ',' || c == byte ':'

def placeholder (n : Nat) : Bytes := byte '$' :: natDigits n

theorem pgLex_placeholder (n : Nat) (s : Bytes) (hs : StartsIn isPgStop s) :
    pgLex (placeholder n ++ s) = .param n :: pgLex s := by
  have hd : (natDigits n).all isDigit = true := List.all_eq_true.mpr fun _ => isDigit_of_mem_natDigits
  have hb : ∀ c, isPgStop c = true → isDigit c = false := by decide +kernel
  obtain ⟨h1, h2⟩ := takeWhile_append_stop hd fun c hc => hb c (hs c hc)
  rw [placeholder, List.cons_append, pgLex, scan_cons pgNext length_pgNext_le, pgNext_param, h1, h2, parseNat_natDigits]
  rfl

def runEnds (beforeHole : Bool) (p : UInt8 → Bool) (s : Bytes) : Bool := !beforeHole || !(s.dropWhile p).isEmpty

def pgSettled (beforeHole : Bool) (c : UInt8) (s : Bytes) : Bool :=
  isBlank c || isPunct c || (c == byte ':' && s.head? == some (byte ':')) ||
  (c == quote && !(scanString s).2.isEmpty) ||
  ((isDigit c || c == byte '$') && runEnds beforeHole isDigit s) ||
  (isWordStart c && runEnds beforeHole isIdentByte s) ||
  (isOpByte c && runEnds beforeHole isOpByte s)

theorem scanString_append : ∀ {s : Bytes}, (scanString s).2 ≠ [] → ∀ r,
    scanString (s ++ r) = ((scanString s).1, (scanString s).2 ++ r)
  | [], h, _ => absurd rfl h
  | [c], h, _ => absurd (by unfold scanString; split <;> rfl) h
  | c :: d :: s, h, r => by
    rw [List.cons_append, List.cons_append]
    by_cases hc : c = quote
    · by_cases hd : d = quote
      · simp only [scanString, hc, hd, if_true] at h ⊢
        simp [scanString_append h r]
      · simp only [scanString, hc, hd, if_true, if_false, List.cons_append]
    · have hs : (scanString (d :: s)).2 ≠ [] := by simpa only [scanString, hc, if_false] using h
      have ih := scanString_append hs r
      rw [List.cons_append] at ih
      rw [scanString, scanString, if_neg hc, if_neg hc, ih]

theorem pgSettled_sound {b : Bool} {P : Bytes → Prop} (hP : b = true ∨ ∀ r, P r → StartsIn isPgStop r) (c : UInt8)
    (s : Bytes) (h : pgSettled b c s = true) : Settled pgNext P c s := by
  intro r hr
  have run : ∀ p : UInt8 → Bool, (∀ c, isPgStop c = true → p c = false) → runEnds b p s = true →
      (s ++ r).takeWhile p = s.takeWhile p ∧ (s ++ r).dropWhile p = s.dropWhile p ++ r := by
    intro p hp he
    refine takeWhile_append ?_
    simp only [runEnds, Bool.or_eq_true, Bool.not_eq_true'] at he
    rcases he with he | he
    · exact .inr fun c hc => hp c ((hP.resolve_left (by simp [he])) r hr c hc)
    · exact .inl (by simpa using he)
  simp only [pgSettled, Bool.or_eq_true, Bool.and_eq_true, beq_iff_eq] at h
  rcases h with (((((h | h) | ⟨rfl, h⟩) | ⟨rfl, h⟩) | ⟨h | rfl, he⟩) | ⟨h, he⟩) | ⟨h, he⟩
  · rw [pgNext_blank h, pgNext_blank h]
  · rw [pgNext_punct h, pgNext_punct h]
  · cases s with
    | nil => cases h
    | cons d s =>
      obtain rfl : d = byte ':' := Option.some.inj h
      rw [List.cons_append, pgNext_cast, pgNext_cast]
  · rw [pgNext_quote, pgNext_quote, scanString_append (by simpa using h) r]
  · obtain ⟨h1, h2⟩ := run isDigit (by decide +kernel) he
    rw [pgNext_digit h, pgNext_digit h, h1, h2]
  · obtain ⟨h1, h2⟩ := run isDigit (by decide +kernel) he
    rw [pgNext_param, pgNext_param, h1, h2]
  · obtain ⟨h1, h2⟩ := run isIdentByte (by decide +kernel) he
    rw [pgNext_word h, pgNext_word h, h1, h2]
  · obtain ⟨h1, h2⟩ := run isOpByte (by decide +kernel) he
    rw [pgNext_op h, pgNext_op h, h1, h2]

def pgText : Spelling PgToken Nat where
  next := pgNext
  shrinks := length_pgNext_le
  hole := placeholder
  token := .param
  stops := isPgStop
  scan_hole := pgLex_placeholder
  settled := pgSettled
  settled_hole := pgSettled_sound (.inl rfl)
  settled_stop := pgSettled_sound (.inr fun _ h => h)

/-! ## Templates on the start of a text -/

theorem matchTokens_append (rest : List PgToken) : ∀ {tm ts : List PgToken} {r : List Nat × List PgToken},
    matchTokens tm ts = some r → matchTokens tm (ts ++ rest) = some (r.1, r.2 ++ rest)
  | [], ts, r, h => by
    cases h
    rfl
  | a :: tm, [], r, h => by cases h
  | a :: tm, b :: ts, r, h => by
    simp only [List.cons_append, matchTokens, Option.bind_eq_some_iff, Option.map_eq_some_iff] at h ⊢
    obtain ⟨ns, hns, r', hr', rfl⟩ := h
    exact ⟨ns, hns, _, matchTokens_append rest hr', rfl⟩

def mismatched : List PgToken → List PgToken → Bool
  | a :: tm, b :: ts => (matchToken a b).isNone || mismatched tm ts
  | _, _ => false

theorem matchTokens_of_mismatched (rest : List PgToken) : ∀ {tm ts : List PgToken}, mismatched tm ts = true →
    matchTokens tm (ts ++ rest) = none
  | [], _, h => by simp [mismatched] at h
  | a :: tm, [], h => by simp [mismatched] at h
  | a :: tm, b :: ts, h => by
    simp only [mismatched, Bool.or_eq_true, Option.isNone_iff_eq_none] at h
    rw [List.cons_append, matchTokens]
    rcases h with h | h
    · rw [h]
      rfl
    · rw [matchTokens_of_mismatched rest h]
      cases matchToken a b <;> rfl

def readsAs {β : Type} [DecidableEq β] (ts : List PgToken) (b : β) : List (Template β) → Bool
  | [] => false
  | t :: tms => t.parse ts = some (b, []) || (mismatched (pgLex t.text) ts && readsAs ts b tms)

theorem parseFirst_of_readsAs {β : Type} [DecidableEq β] {ts : List PgToken} {b : β} (rest : List PgToken) :
    ∀ {tms : List (Template β)}, readsAs ts b tms = true → parseFirst tms (ts ++ rest) = some (b, rest)
  | [], h => by cases h
  | t :: tms, h => by
    simp only [readsAs, Bool.or_eq_true, decide_eq_true_eq, Bool.and_eq_true] at h
    rw [parseFirst, List.findSome?_cons]
    rcases h with h | ⟨hm, h⟩
    · simp only [Template.parse, Option.bind_eq_some_iff, Option.map_eq_some_iff] at h
      obtain ⟨r, hr, x, hx, e⟩ := h
      obtain ⟨rfl, hr2⟩ := Prod.mk.inj e
      simp [Template.parse, matchTokens_append rest hr, hx, hr2]
    · have hn : t.parse (ts ++ rest) = none := by
        rw [Template.parse, matchTokens_of_mismatched rest hm]
        rfl
      rw [hn]
      exact parseFirst_of_readsAs rest h

/-! ## Statements in their own tokens -/

def wordTok (w : String) : PgToken := .word (bs w)

def symTok (s : String) : PgToken := .sym (bs s)

def clauseTokens : Clause Nat → List PgToken
  | .tenantEq a => [wordTok "TENANT_ID", symTok "=", .param a, symTok "::", wordTok "UUID"]
  | .tsGe a => [wordTok "TS", symTok ">=", .param a]
  | .tsLt a => [wordTok "TS", symTok "<", .param a]
  | .textMatch a =>
    [wordTok "SEARCH", symTok "@@", wordTok "WEBSEARCH_TO_TSQUERY", symTok "(", .str (bs "english"), symTok ",",
     .param a, symTok ")"]
  | .labelsContain a => [wordTok "LABELS", symTok "@>", .param a, symTok "::", wordTok "JSONB"]
  | .serviceEq a => [wordTok "SERVICE", symTok "=", .param a]
  | .levelEq a => [wordTok "LEVEL", symTok "=", .param a, symTok "::", wordTok "LOG_LEVEL"]
  | .keyBefore a b =>
    [symTok "(", wordTok "TS", symTok ",", wordTok "ID", symTok ")", symTok "<", symTok "(", .param a, symTok ",",
     .param b, symTok "::", wordTok "UUID", symTok ")"]

def andTokens (c : Clause Nat) : List PgToken := wordTok "AND" :: clauseTokens c

def tailTokens : Tail Nat → List PgToken
  | .none => []
  | .newest a =>
    [wordTok "ORDER", wordTok "BY", wordTok "TS", wordTok "DESC", symTok ",", wordTok "ID", wordTok "DESC",
     wordTok "LIMIT", .param a]
  | .byBucket => [wordTok "GROUP", wordTok "BY", .num (bs "1"), wordTok "ORDER", wordTok "BY", .num (bs "1")]

theorem parseFirst_clauseTokens (c : Clause Nat) (rest : List PgToken) :
    parseFirst clauseTemplates (clauseTokens c ++ rest) = some (c, rest) := by
  cases c <;> rfl

theorem parseTail_tailTokens (t : Tail Nat) : parseTail (tailTokens t) = some t := by
  cases t <;> rfl

theorem parseClauses_tokens {rest : List PgToken} (hr : ∀ w r, rest = .word w :: r → w ≠ bs "AND") :
    ∀ (cs : List (Clause Nat)) (c : Clause Nat) (n : Nat), cs.length < n →
      parseClauses n (clauseTokens c ++ (cs.flatMap andTokens ++ rest)) = some (c :: cs, rest)
  | _, _, 0, h => absurd h (Nat.not_lt_zero _)
  | [], c, n + 1, _ => by
    rw [List.flatMap_nil, List.nil_append, parseClauses, parseFirst_clauseTokens]
    cases rest with
    | nil => rfl
    | cons t r =>
      cases t with
      | word w => simp [hr w r rfl]
      | _ => rfl
  | d :: cs, c, n + 1, h => by
    have ih := parseClauses_tokens hr cs d n (Nat.lt_of_succ_lt_succ h)
    have he : (d :: cs).flatMap andTokens ++ rest =
        .word (bs "AND") :: (clauseTokens d ++ (cs.flatMap andTokens ++ rest)) := by
      rw [List.flatMap_cons, List.append_assoc]
      rfl
    rw [he, parseClauses, parseFirst_clauseTokens]
    simp [ih]

theorem tailTokens_ne_and (t : Tail Nat) : ∀ w r, tailTokens t = .word w :: r → w ≠ bs "AND" := by
  intro w r h
  cases t with
  | none => cases h
  | newest a =>
    cases h
    decide
  | byBucket =>
    cases h
    decide

theorem length_le_flatMap_andTokens : ∀ cs : List (Clause Nat), cs.length ≤ (cs.flatMap andTokens).length
  | [] => Nat.le_refl _
  | c :: cs => by
    have ih := length_le_flatMap_andTokens cs
    rw [List.flatMap_cons, List.length_append, List.length_cons, andTokens, List.length_cons]
    omega

theorem parseSql_of_tokens {sql : Bytes} {head : List PgToken} {p : Projection Nat} (hh : ∀ rest,
    parseFirst headers (head ++ rest) = some (p, rest)) {c : Clause Nat} {cs : List (Clause Nat)} {t : Tail Nat}
    (hs : pgLex sql = head ++ (clauseTokens c ++ (cs.flatMap andTokens ++ tailTokens t))) :
    parseSql sql = some ⟨p, c :: cs, t⟩ := by
  have hlen : cs.length < (clauseTokens c ++ (cs.flatMap andTokens ++ tailTokens t)).length := by
    have h1 := length_le_flatMap_andTokens cs
    have h2 : 0 < (clauseTokens c).length := by cases c <;> exact Nat.succ_pos _
    simp only [List.length_append]
    omega
  have hc := parseClauses_tokens (tailTokens_ne_and t) cs c _ hlen
  unfold parseSql
  rw [hs, hh]
  simp only [hc]
  rw [parseTail_tailTokens]
  rfl

/-! ## Arguments -/

theorem argOf_append {more : List Arg} {k : Nat} {a : Arg} (h : argOf args k = some a) :
    argOf (args ++ more) k = some a := by
  unfold argOf at h ⊢
  split at h
  · cases h
  · rw [if_neg ‹_›, List.getElem?_append_left (List.getElem?_eq_some_iff.mp h).1]
    exact h

theorem argOf_length (args : List Arg) (a : Arg) : argOf (args ++ [a]) (args ++ [a]).length = some a := by
  simp [argOf]

theorem Clause.args_append {more : List Arg} {c : Clause Nat} {v : Clause Arg} (h : c.args args = some v) :
    c.args (args ++ more) = some v := by
  cases c with
  | keyBefore a b =>
    simp only [Clause.args, Option.bind_eq_some_iff, Option.map_eq_some_iff] at h ⊢
    obtain ⟨x, hx, y, hy, e⟩ := h
    exact ⟨x, argOf_append hx, y, argOf_append hy, e⟩
  | _ =>
    simp only [Clause.args, Option.map_eq_some_iff] at h ⊢
    obtain ⟨x, hx, e⟩ := h
    exact ⟨x, argOf_append hx, e⟩

theorem mapM_args {cs : List (Clause Nat)} {vs : List (Clause Arg)}
    (h : List.Forall₂ (fun c v => Clause.args args c = some v) cs vs) : cs.mapM (Clause.args args) = some vs := by
  induction h with
  | nil => rfl
  | cons h _ ih => simp [h, ih]

end Logalot
