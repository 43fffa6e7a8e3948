import Logalot.ColdSql
import Logalot.LexemesSound

/-!
# What the fitness function guarantees

On the text of a statement the tokenizer gives the statement's own tokens, the
terms it splits are the factors of the `WHERE` clause except where two of them
meet at a top-level `OR`, and a term that passes as the tenant predicate is
such a factor.
-/

namespace Logalot

open Go Sql

def toks (ls : List Lexeme) : List Token := ls.filterMap fun l => match l with | .tok t => some t | _ => none

@[simp] theorem toks_nil : toks [] = [] := rfl

@[simp] theorem toks_cons_tok (t : Token) (ls : List Lexeme) : toks (.tok t :: ls) = t :: toks ls := rfl

@[simp] theorem toks_append (a b : List Lexeme) : toks (a ++ b) = toks a ++ toks b :=
  List.filterMap_append

theorem eq_map_toks : ∀ {ls : List Lexeme}, plain ls = true → ls = (toks ls).map .tok
  | [], _ => rfl
  | .tok t :: ls, h => by
    have h' : plain ls = true := by simpa [plain] using h
    rw [toks_cons_tok, List.map_cons, ← eq_map_toks h']
  | .quoted _ :: _, h => by simp [plain] at h
  | .symbol _ :: _, h => by simp [plain] at h

variable {b ls : List Lexeme} {t : Token} {p q : Lexeme → Bool}

theorem plain_append {a : List Lexeme} : plain (a ++ b) = true ↔ plain a = true ∧ plain b = true := by
  simp [plain]

theorem plain_cons_tok : plain (.tok t :: ls) = true ↔ plain ls = true := by
  simp [plain]

/-! ## Balanced lexemes -/

theorem balanced_append {e : Nat} (hq : 0 < e ∨ ∀ l, p l = true → q l = true) (hb : balanced q e b = true) :
    ∀ (d : Nat) (a : List Lexeme), balanced p d a = true → balanced q (d + e) (a ++ b) = true
  | d, [], h => by
    have hd : d = 0 := by simpa [balanced] using h
    subst hd
    simpa using hb
  | d, l :: a, h => by
    unfold balanced at h
    rw [List.cons_append]
    unfold balanced
    split at h
    · rw [if_pos ‹_›, show d + e + 1 = d + 1 + e by omega]
      exact balanced_append hq hb (d + 1) a h
    · rw [if_neg ‹_›]
      split at h
      · simp only [Bool.and_eq_true, decide_eq_true_eq] at h
        have e1 : d + e - 1 = d - 1 + e := by omega
        rw [if_pos ‹_›, e1, balanced_append hq hb (d - 1) a h.2]
        simp only [Bool.and_true, decide_eq_true_eq]
        omega
      · simp only [Bool.and_eq_true, Bool.or_eq_true, decide_eq_true_eq] at h
        rw [if_neg ‹_›, balanced_append hq hb d a h.2]
        simp only [Bool.and_true, Bool.or_eq_true, decide_eq_true_eq]
        rcases h.1 with h1 | h1
        · exact .inl (by omega)
        · exact hq.elim (fun h2 => .inl (by omega)) fun h2 => .inr (h2 l h1)

theorem balanced_mono (h : ∀ l, p l = true → q l = true)
    (hl : balanced p 0 ls = true) : balanced q 0 ls = true := by
  have := balanced_append (b := []) (.inr h) (rfl : balanced q 0 [] = true) 0 ls hl
  simpa using this

def anyLexeme (_ : Lexeme) : Bool := true

theorem balanced_cons_kw (k : String) (ls : List Lexeme) :
    balanced anyLexeme 0 (kw k :: ls) = balanced anyLexeme 0 ls := rfl

theorem balanced_join {a : List Lexeme} (ha : balanced anyLexeme 0 a = true) (hb : balanced anyLexeme 0 b = true) :
    balanced anyLexeme 0 (a ++ b) = true :=
  balanced_append (.inr fun _ h => h) hb 0 a ha

theorem Operand.balanced_any (x : Operand) : balanced anyLexeme 0 x.lexemes = true :=
  balanced_mono (fun _ _ => rfl) x.ok

theorem balanced_paren (h : balanced anyLexeme 0 ls = true) :
    balanced q 0 (lparen :: (ls ++ [rparen])) = true := by
  have h1 : balanced q 1 [rparen] = true := rfl
  exact balanced_append (.inl Nat.one_pos) h1 0 ls h

mutual
theorem Condition.balanced_lexemes : ∀ c : Condition, balanced anyLexeme 0 c.lexemes = true
  | .term t => by
    rw [Condition.lexemes]
    exact t.balanced_lexemes
  | .or c t => by
    rw [Condition.lexemes]
    exact balanced_join c.balanced_lexemes (by rw [balanced_cons_kw]; exact t.balanced_lexemes)
theorem Term.balanced_lexemes : ∀ t : Term, balanced anyLexeme 0 t.lexemes = true
  | .factor f => by
    rw [Term.lexemes]
    exact f.balanced_lexemes
  | .and t f => by
    rw [Term.lexemes]
    exact balanced_join t.balanced_lexemes (by rw [balanced_cons_kw]; exact f.balanced_lexemes)
theorem Factor.balanced_lexemes : ∀ f : Factor, balanced anyLexeme 0 f.lexemes = true
  | .not f => by
    rw [Factor.lexemes, balanced_cons_kw]
    exact f.balanced_lexemes
  | .paren c => by
    rw [Factor.lexemes]
    exact balanced_paren c.balanced_lexemes
  | .cmp l o r => by
    rw [Factor.lexemes]
    exact balanced_join l.balanced_any r.balanced_any
  | .between neg x lo hi => by
    have h : balanced anyLexeme 0 (kw "BETWEEN" :: (lo.lexemes ++ kw "AND" :: hi.lexemes)) = true :=
      balanced_join lo.balanced_any hi.balanced_any
    rw [Factor.lexemes]
    refine balanced_join x.balanced_any (balanced_join ?_ h)
    cases neg <;> rfl
  | .test e => by
    rw [Factor.lexemes]
    exact e.balanced_any
end

/-! ## The parenthesis depth -/

def depthAfter (d : Nat) (t : Token) : Nat :=
  match t.kind with
  | .tokLParen => d + 1
  | .tokRParen => d - 1
  | _ => d

theorem balanced_cons_tok {d : Nat}
    (h : balanced p d (.tok t :: ls) = true) :
    balanced p (depthAfter d t) ls = true ∧ (t.kind = .tokKW → 0 < d ∨ p (.tok t) = true) := by
  unfold balanced at h
  unfold depthAfter
  cases hk : t.kind with
  | tokLParen =>
    simp only [Lexeme.isKind, hk] at h
    exact ⟨h, fun e => by cases e⟩
  | tokRParen =>
    simp only [Lexeme.isKind, hk] at h
    have h' : 0 < d ∧ balanced p (d - 1) ls = true := by simpa using h
    exact ⟨h'.2, fun e => by cases e⟩
  | tokIdent | tokString | tokNumber | tokOp | tokComma | tokKW =>
    simp only [Lexeme.isKind, hk] at h
    have h' : (0 < d ∨ p (.tok t) = true) ∧ balanced p d ls = true := by simpa using h
    exact ⟨h'.2, fun _ => h'.1⟩

/-! ## The first WHERE -/

theorem findWHEREFrom_cons {d : Nat} (i : Nat) (rest : List Token)
    (h : t.kind = .tokKW → 0 < d ∨ t.val ≠ bs "WHERE") :
    findWHEREFrom d i (t :: rest) = findWHEREFrom (depthAfter d t) (i + 1) rest := by
  rw [findWHEREFrom, depthAfter]
  cases hk : t.kind with
  | tokKW =>
    have hn : ¬(d = 0 ∧ t.val = bs "WHERE") := by
      rintro ⟨h0, hw⟩
      exact (h hk).elim (fun h1 => by omega) fun h1 => h1 hw
    exact if_neg hn
  | _ => rfl

theorem findWHEREFrom_balanced (rest : List Token) : ∀ (ls : List Lexeme) (d i : Nat), plain ls = true →
    balanced headLexeme d ls = true →
    findWHEREFrom d i (toks ls ++ rest) = findWHEREFrom 0 (i + (toks ls).length) rest
  | [], d, i, _, h => by
    have hd : d = 0 := by simpa [balanced] using h
    subst hd
    rfl
  | .quoted _ :: _, _, _, hp, _ => by simp [plain] at hp
  | .symbol _ :: _, _, _, hp, _ => by simp [plain] at hp
  | .tok t :: ls, d, i, hp, h => by
    obtain ⟨hb, hkw⟩ := balanced_cons_tok h
    have hw : t.kind = .tokKW → 0 < d ∨ t.val ≠ bs "WHERE" := by
      intro hk
      refine (hkw hk).imp_right fun hh e => ?_
      simp only [headLexeme, hk, e] at hh
      revert hh
      decide
    rw [toks_cons_tok, List.cons_append, findWHEREFrom_cons i _ hw,
      findWHEREFrom_balanced rest ls _ (i + 1) (plain_cons_tok.mp hp) hb, List.length_cons]
    congr 1
    omega

/-! ## Splitting at AND -/

def inert (t : Token) : Prop :=
  t.kind = .tokKW → t.val ∉ clauseEnds ∧ t.val ≠ bs "BETWEEN" ∧ t.val ≠ bs "AND"

theorem splitFrom_cons {d : Nat} (h : 0 < d ∨ inert t) (terms : List (List Token)) (b : Bool)
    (cur rest : List Token) :
    splitFrom terms d b cur (t :: rest) = splitFrom terms (depthAfter d t) b (cur ++ [t]) rest := by
  rw [splitFrom, depthAfter]
  cases hk : t.kind with
  | tokKW =>
    simp only
    split
    · rfl
    · obtain ⟨h1, h2, h3⟩ := (h.resolve_left ‹_›) hk
      rw [if_neg h1, if_neg h2, if_neg h3]
  | _ => rfl

theorem splitFrom_balanced (hp : ∀ t, p (.tok t) = true → inert t) (terms : List (List Token))
    (b : Bool) (rest : List Token) : ∀ (ls : List Lexeme) (d : Nat) (cur : List Token), plain ls = true →
    balanced p d ls = true →
    splitFrom terms d b cur (toks ls ++ rest) = splitFrom terms 0 b (cur ++ toks ls) rest
  | [], d, cur, _, h => by
    have hd : d = 0 := by simpa [balanced] using h
    subst hd
    simp
  | .quoted _ :: _, _, _, hl, _ => by simp [plain] at hl
  | .symbol _ :: _, _, _, hl, _ => by simp [plain] at hl
  | .tok t :: ls, d, cur, hl, h => by
    obtain ⟨hb, hkw⟩ := balanced_cons_tok h
    have hi : 0 < d ∨ inert t := by
      by_cases hk : t.kind = .tokKW
      · exact (hkw hk).imp_right (hp t)
      · exact .inr fun e => absurd e hk
    rw [toks_cons_tok, List.cons_append, splitFrom_cons hi,
      splitFrom_balanced hp terms b rest ls _ _ (plain_cons_tok.mp hl) hb, List.append_assoc, List.singleton_append]

theorem inert_of_operandLexeme (t : Token) (h : operandLexeme (.tok t) = true) : inert t := by
  intro hk
  have hm : t.val ∈ constantKws := by simpa [operandLexeme, hk] using h
  have hc : ∀ v ∈ constantKws, v ∉ clauseEnds ∧ v ≠ bs "BETWEEN" ∧ v ≠ bs "AND" := by decide
  exact hc t.val hm

section
variable (terms : List (List Token)) (rest : List Token)

theorem splitFrom_operand (b : Bool) {x : Operand} (hp : plain x.lexemes = true) (cur : List Token) :
    splitFrom terms 0 b cur (toks x.lexemes ++ rest) = splitFrom terms 0 b (cur ++ toks x.lexemes) rest :=
  splitFrom_balanced inert_of_operandLexeme terms b rest x.lexemes 0 cur hp x.ok

theorem splitFrom_factor : ∀ (f : Factor) (cur : List Token), plain f.lexemes = true →
    splitFrom terms 0 false cur (toks f.lexemes ++ rest) = splitFrom terms 0 false (cur ++ toks f.lexemes) rest
  | .not f, cur, hp => by
    rw [Factor.lexemes] at hp ⊢
    have hi : inert ⟨.tokKW, bs "NOT"⟩ := fun _ => by decide
    rw [kw, toks_cons_tok, List.cons_append, splitFrom_cons (.inr hi)]
    refine (splitFrom_factor f _ (plain_cons_tok.mp hp)).trans ?_
    rw [List.append_assoc, List.singleton_append]
  | .paren c, cur, hp => by
    rw [Factor.lexemes] at hp ⊢
    exact splitFrom_balanced (p := fun _ => false) (fun _ h => by cases h) terms false rest _ 0 cur hp
      (balanced_paren c.balanced_lexemes)
  | .cmp l o r, cur, hp => by
    rw [Factor.lexemes] at hp ⊢
    obtain ⟨hl, hr⟩ := plain_append.mp hp
    have hi : inert ⟨.tokOp, o.text⟩ := fun e => by cases e
    rw [toks_append, List.append_assoc, splitFrom_operand _ _ _ hl, CmpOp.lexeme, toks_cons_tok, List.cons_append,
      splitFrom_cons (.inr hi)]
    refine (splitFrom_operand _ _ _ (plain_cons_tok.mp hr) _).trans ?_
    simp only [List.append_assoc, List.singleton_append]
  | .between neg x lo hi, cur, hp => by
    rw [Factor.lexemes] at hp ⊢
    obtain ⟨hx, hp⟩ := plain_append.mp hp
    obtain ⟨-, hp⟩ := plain_append.mp hp
    obtain ⟨hlo, hp⟩ := plain_append.mp (plain_cons_tok.mp hp)
    have hhi := plain_cons_tok.mp hp
    have hnot : inert ⟨.tokKW, bs "NOT"⟩ := fun _ => by decide
    -- from BETWEEN on: the flag is set, the bounds are collected, its AND clears the flag
    have key : ∀ cur', splitFrom terms 0 false cur'
        (toks (kw "BETWEEN" :: (lo.lexemes ++ kw "AND" :: hi.lexemes)) ++ rest) =
        splitFrom terms 0 false (cur' ++ toks (kw "BETWEEN" :: (lo.lexemes ++ kw "AND" :: hi.lexemes))) rest := by
      intro cur'
      simp only [kw, toks_cons_tok, toks_append, List.cons_append, List.append_assoc]
      refine Eq.trans (b := splitFrom terms 0 true (cur' ++ [⟨.tokKW, bs "BETWEEN"⟩])
        (toks lo.lexemes ++ ⟨.tokKW, bs "AND"⟩ :: (toks hi.lexemes ++ rest))) rfl ?_
      rw [splitFrom_operand _ _ _ hlo]
      refine Eq.trans (b := splitFrom terms 0 false (cur' ++ [⟨.tokKW, bs "BETWEEN"⟩] ++ toks lo.lexemes ++
        [⟨.tokKW, bs "AND"⟩]) (toks hi.lexemes ++ rest)) rfl ?_
      rw [splitFrom_operand _ _ _ hhi]
      simp only [List.append_assoc, List.cons_append, List.nil_append]
    rw [toks_append, List.append_assoc, splitFrom_operand _ _ _ hx]
    cases neg with
    | false =>
      simp only [Bool.false_eq_true, if_false, List.nil_append]
      rw [key, List.append_assoc]
    | true =>
      simp only [if_true, List.singleton_append]
      rw [kw, toks_cons_tok, List.cons_append, splitFrom_cons (.inr hnot)]
      refine (key _).trans ?_
      simp only [List.append_assoc, List.singleton_append]
  | .test e, cur, hp => by
    rw [Factor.lexemes] at hp ⊢
    exact splitFrom_operand _ _ _ hp cur

end

/-! ## The terms of a condition -/

def orToken : Token := ⟨.tokKW, bs "OR"⟩

def Term.chunks (acc : List (List Token) × List Token) : Term → List (List Token) × List Token
  | .factor f => (acc.1, acc.2 ++ toks f.lexemes)
  | .and t f => (flush (t.chunks acc).1 (t.chunks acc).2, toks f.lexemes)

def Condition.chunks (acc : List (List Token) × List Token) : Condition → List (List Token) × List Token
  | .term t => t.chunks acc
  | .or c t => t.chunks ((c.chunks acc).1, (c.chunks acc).2 ++ [orToken])

theorem splitFrom_term (rest : List Token) : ∀ (t : Term) (acc : List (List Token) × List Token),
    plain t.lexemes = true →
    splitFrom acc.1 0 false acc.2 (toks t.lexemes ++ rest) = splitFrom (t.chunks acc).1 0 false (t.chunks acc).2 rest
  | .factor f, acc, hp => by
    rw [Term.lexemes] at hp ⊢
    exact splitFrom_factor acc.1 rest f acc.2 hp
  | .and t f, acc, hp => by
    rw [Term.lexemes] at hp ⊢
    obtain ⟨ht, hf⟩ := plain_append.mp hp
    rw [toks_append, List.append_assoc, splitFrom_term _ t acc ht, kw, toks_cons_tok]
    exact splitFrom_factor _ rest f [] (plain_cons_tok.mp hf)

theorem splitFrom_condition (rest : List Token) : ∀ (c : Condition) (acc : List (List Token) × List Token),
    plain c.lexemes = true →
    splitFrom acc.1 0 false acc.2 (toks c.lexemes ++ rest) = splitFrom (c.chunks acc).1 0 false (c.chunks acc).2 rest
  | .term t, acc, hp => by
    rw [Condition.lexemes] at hp ⊢
    exact splitFrom_term rest t acc hp
  | .or c t, acc, hp => by
    rw [Condition.lexemes] at hp ⊢
    obtain ⟨hc, ht⟩ := plain_append.mp hp
    have hi : inert orToken := fun _ => by decide
    rw [toks_append, List.append_assoc, splitFrom_condition _ c acc hc, kw, toks_cons_tok, List.cons_append]
    exact (splitFrom_cons (.inr hi) _ _ _ _).trans
      (splitFrom_term rest t ((c.chunks acc).1, (c.chunks acc).2 ++ [orToken]) (plain_cons_tok.mp ht))

def Term.Chunk (t : Term) (x : List Token) : Prop := (∃ f ∈ t.factors, x = toks f.lexemes) ∨ orToken ∈ x

theorem mem_flush {terms : List (List Token)} {cur x : List Token} (h : x ∈ flush terms cur) : x ∈ terms ∨ x = cur := by
  unfold flush at h
  split at h
  · exact .inl h
  · simpa using h

theorem Term.chunks_cases : ∀ (t : Term) (acc : List (List Token) × List Token), acc.2 = [] ∨ orToken ∈ acc.2 →
    (∀ x ∈ (t.chunks acc).1, x ∈ acc.1 ∨ t.Chunk x) ∧ t.Chunk (t.chunks acc).2
  | .factor f, acc, hacc => by
    refine ⟨fun x hx => .inl hx, ?_⟩
    rcases hacc with h | h
    · exact .inl ⟨f, by simp [Term.factors], by simp [Term.chunks, h]⟩
    · exact .inr (List.mem_append_left _ h)
  | .and t f, acc, hacc => by
    obtain ⟨h1, h2⟩ := t.chunks_cases acc hacc
    have lift : ∀ x, t.Chunk x → (Term.and t f).Chunk x := fun x hx =>
      hx.imp_left fun ⟨g, hg, e⟩ => ⟨g, by simp [Term.factors, hg], e⟩
    refine ⟨fun x hx => ?_, .inl ⟨f, by simp [Term.factors], rfl⟩⟩
    rcases mem_flush hx with hx | rfl
    · exact (h1 x hx).imp_right (lift x)
    · exact .inr (lift _ h2)

theorem Condition.chunks_cases : ∀ (c : Condition),
    (∀ x ∈ (c.chunks ([], [])).1, ∃ t ∈ c.terms, t.Chunk x) ∧ ∃ t ∈ c.terms, t.Chunk (c.chunks ([], [])).2
  | .term t => by
    obtain ⟨h1, h2⟩ := t.chunks_cases ([], []) (.inl rfl)
    refine ⟨fun x hx => ⟨t, by simp [Condition.terms], ?_⟩, t, by simp [Condition.terms], h2⟩
    exact (h1 x hx).resolve_left List.not_mem_nil
  | .or c t => by
    obtain ⟨h1, -⟩ := c.chunks_cases
    obtain ⟨h3, h4⟩ := t.chunks_cases ((c.chunks ([], [])).1, (c.chunks ([], [])).2 ++ [orToken]) (.inr (by simp))
    refine ⟨fun x hx => ?_, t, by simp [Condition.terms], h4⟩
    rcases h3 x hx with hx | hx
    · obtain ⟨d, hd, hc⟩ := h1 x hx
      exact ⟨d, by simp [Condition.terms, hd], hc⟩
    · exact ⟨t, by simp [Condition.terms], hx⟩

/-! ## The tenant predicate -/

theorem isEqualityPredicate_iff {term : List Token} {col v : Bytes} :
    isEqualityPredicate term col v = true ↔
      ∃ a, term = [⟨.tokIdent, a⟩, ⟨.tokOp, bs "="⟩, ⟨.tokString, v⟩] ∧ equalFold a col = true := by
  constructor
  · intro h
    unfold isEqualityPredicate at h
    split at h
    · simp only [Bool.and_eq_true, beq_iff_eq] at h
      obtain ⟨⟨⟨⟨⟨h1, h2⟩, h3⟩, h4⟩, h5⟩, h6⟩ := h
      rename_i a b c
      obtain ⟨ka, va⟩ := a
      obtain ⟨kb, vb⟩ := b
      obtain ⟨kc, vc⟩ := c
      simp only at h1 h2 h3 h4 h5 h6
      subst h1 h3 h4 h5 h6
      exact ⟨va, rfl, h2⟩
    · cases h
  · rintro ⟨a, rfl, h⟩
    simp [isEqualityPredicate, h]

theorem not_balanced_sign (a : Bytes) (ls : List Lexeme) :
    balanced operandLexeme 0 (.tok ⟨.tokIdent, a⟩ :: .tok ⟨.tokOp, bs "="⟩ :: ls) ≠ true := by
  have h : bs "=" ∉ arithOps := by decide
  simp [balanced, Lexeme.isKind, operandLexeme, h]

theorem CmpOp.eq_of_text {o : CmpOp} (h : o.text = bs "=") : o = .eq := by
  cases o <;> first | rfl | exact absurd h (by decide)

theorem Factor.tenantEq_of_isEqualityPredicate {f : Factor} (hp : plain f.lexemes = true) {v : Bytes}
    (h : isEqualityPredicate (toks f.lexemes) (bs "tenant_id") v = true) : f.tenantEq = some v := by
  obtain ⟨a, e, ha⟩ := isEqualityPredicate_iff.mp h
  have hl : f.lexemes = [.tok ⟨.tokIdent, a⟩, .tok ⟨.tokOp, bs "="⟩, .tok ⟨.tokString, v⟩] := by
    rw [eq_map_toks hp, e]
    rfl
  cases f with
  | not f =>
    rw [Factor.lexemes] at hl
    cases (List.cons.inj hl).1
  | paren c =>
    rw [Factor.lexemes] at hl
    cases (List.cons.inj hl).1
  | test x =>
    rw [Factor.lexemes] at hl
    exact absurd (hl ▸ x.ok) (not_balanced_sign a _)
  | between neg x lo hi =>
    have hm : kw "BETWEEN" ∈ (Factor.between neg x lo hi).lexemes := by simp [Factor.lexemes]
    rw [hl] at hm
    simp [kw] at hm
  | cmp l o r =>
    rw [Factor.lexemes] at hl
    rcases l with ⟨_ | ⟨l1, _ | ⟨l2, ls⟩⟩, hl0, hlok⟩
    · exact absurd rfl hl0
    · simp only [List.cons_append, List.nil_append, List.cons.injEq] at hl
      obtain ⟨rfl, ho, hr⟩ := hl
      have ho' : o = .eq := by
        injection ho with ho
        injection ho with _ ho
        exact CmpOp.eq_of_text ho
      subst ho'
      simp [Factor.tenantEq, hr, ha]
    · -- two lexemes before the sign: the sign itself would stand in an operand
      simp only [List.cons_append, List.cons.injEq] at hl
      obtain ⟨rfl, rfl, -⟩ := hl
      exact absurd hlok (not_balanced_sign a ls)

theorem not_isEqualityPredicate_or {x : List Token} (h : orToken ∈ x) (col v : Bytes) :
    isEqualityPredicate x col v ≠ true := by
  intro he
  obtain ⟨a, rfl, -⟩ := isEqualityPredicate_iff.mp he
  simp [orToken] at h

/-! ## The lexemes of a statement -/

theorem plain_terms : ∀ {c : Condition}, plain c.lexemes = true → ∀ t ∈ c.terms, plain t.lexemes = true
  | .term t, hp, d, hd => by
    rw [Condition.lexemes] at hp
    rw [Condition.terms, List.mem_singleton] at hd
    exact hd ▸ hp
  | .or c t, hp, d, hd => by
    rw [Condition.lexemes] at hp
    obtain ⟨hc, ht⟩ := plain_append.mp hp
    rw [Condition.terms, List.mem_append, List.mem_singleton] at hd
    rcases hd with hd | rfl
    · exact plain_terms hc d hd
    · exact plain_cons_tok.mp ht

theorem plain_factors : ∀ {t : Term}, plain t.lexemes = true → ∀ f ∈ t.factors, plain f.lexemes = true
  | .factor f, hp, g, hg => by
    rw [Term.lexemes] at hp
    rw [Term.factors, List.mem_singleton] at hg
    exact hg ▸ hp
  | .and t f, hp, g, hg => by
    rw [Term.lexemes] at hp
    obtain ⟨ht, hf⟩ := plain_append.mp hp
    rw [Term.factors, List.mem_append, List.mem_singleton] at hg
    rcases hg with hg | rfl
    · exact plain_factors ht g hg
    · exact plain_cons_tok.mp hf

theorem splitFrom_after (st : Statement) (terms : List (List Token)) (cur : List Token) :
    splitFrom terms 0 false cur (toks (st.ops.flatMap Further.lexemes ++ st.tail)) = flush terms cur := by
  have stop : ∀ k rest, k ∈ clauseEnds → splitFrom terms 0 false cur (⟨.tokKW, k⟩ :: rest) = flush terms cur := by
    intro k rest hk
    simp [splitFrom, hk]
  rcases hops : st.ops with _ | ⟨x, ops⟩
  · rcases htail : st.tail with _ | ⟨l, tail⟩
    · rfl
    · rcases st.tail_head l (by rw [htail]; rfl) with rfl | rfl
      · exact stop _ _ (by decide)
      · exact stop _ _ (by decide)
  · rw [List.flatMap_cons, Further.lexemes, List.append_assoc, List.cons_append]
    cases x.op
    · exact stop _ _ (by decide)
    · exact stop _ _ (by decide)
    · exact stop _ _ (by decide)

theorem terms_of_statement {st : Statement} (hp : plain st.lexemes = true) :
    ∃ i, findWHERE (toks st.lexemes) = some i ∧ splitTopLevelAND ((toks st.lexemes).drop (i + 1)) =
      flush (st.cond.chunks ([], [])).1 (st.cond.chunks ([], [])).2 := by
  have hp' := plain_append.mp (plain_cons_tok.mp hp)
  obtain ⟨hc, -⟩ := plain_append.mp (plain_cons_tok.mp hp'.2)
  -- the head holds no WHERE, so the one found is the one of the grammar
  have hw : findWHERE (toks st.lexemes) = some (1 + (toks st.head).length) := by
    rw [Statement.lexemes, kw, toks_cons_tok, toks_append, findWHERE, findWHEREFrom_cons _ _ fun _ => .inr (by decide)]
    exact findWHEREFrom_balanced _ st.head 0 (0 + 1) hp'.1 st.head_ok
  refine ⟨_, hw, ?_⟩
  have hd : (toks st.lexemes).drop (1 + (toks st.head).length + 1) =
      toks st.cond.lexemes ++ toks (st.ops.flatMap Further.lexemes ++ st.tail) := by
    simp only [Statement.lexemes, kw, toks_cons_tok, toks_append, Nat.add_comm 1, List.drop_succ_cons]
    rw [List.drop_append]
    simp
  rw [hd, splitTopLevelAND, splitFrom_condition _ st.cond ([], []) hc, splitFrom_after]

/-- **What acceptance means.** One of the alternatives of the first `WHERE`
clause carries the tenant predicate as a conjunct. -/
theorem carries_of_checkTenantPredicate {st : Statement} {sql t : Bytes} (hs : Spells st.lexemes sql)
    (hp : plain st.lexemes = true) (hc : checkTenantPredicate sql t = none) :
    ∃ d ∈ st.cond.terms, d.carries t := by
  have hcond : plain st.cond.lexemes = true := by
    have hp' := plain_append.mp (plain_cons_tok.mp hp)
    exact (plain_append.mp (plain_cons_tok.mp hp'.2)).1
  obtain ⟨i, hw, hsplit⟩ := terms_of_statement hp
  rw [checkTenantPredicate, tokenize_spells hs _ (eq_map_toks hp)] at hc
  simp only [hw, hsplit] at hc
  split at hc
  · cases hc
  · split at hc
    · obtain ⟨x, hx, he⟩ := List.any_eq_true.mp ‹_›
      obtain ⟨d, hd, hchunk⟩ : ∃ d ∈ st.cond.terms, d.Chunk x := by
        rcases mem_flush hx with hx | rfl
        · exact st.cond.chunks_cases.1 x hx
        · exact st.cond.chunks_cases.2
      rcases hchunk with ⟨f, hf, rfl⟩ | hor
      · exact ⟨d, hd, f, hf, f.tenantEq_of_isEqualityPredicate (plain_factors (plain_terms hcond d hd) f hf) he⟩
      · exact absurd he (not_isEqualityPredicate_or hor _ _)
    · cases hc

end Logalot
