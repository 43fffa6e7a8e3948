import Logalot.Lexemes

/-!
# Tokenizing spelled lexemes

`tokenize_spells`: text that spells a sequence of tokens is tokenized to that
sequence, whatever its white space, comments and letter case.
-/

namespace Logalot

open Go

/-! ## String literals -/

theorem doubled_cons_self (q : UInt8) (v : Bytes) : doubled q (q :: v) = q :: q :: doubled q v := by
  simp [doubled]

variable {c : UInt8} {s : Bytes} {t : Token}

theorem doubled_cons_ne {q : UInt8} (h : c ≠ q) (v : Bytes) : doubled q (c :: v) = c :: doubled q v := by
  simp [doubled, h]

theorem scanString_cons_ne (h : c ≠ quote) (s : Bytes) :
    scanString (c :: s) = (c :: (scanString s).1, (scanString s).2) := by
  cases s with
  | nil => simp [scanString, h]
  | cons d s => simp [scanString, h]

theorem scanString_escape (s : Bytes) :
    scanString (quote :: quote :: s) = (quote :: quote :: (scanString s).1, (scanString s).2) := by
  simp [scanString]

theorem scanString_close (h : s.head? ≠ some quote) : scanString (quote :: s) = ([], s) := by
  cases s with
  | nil => rfl
  | cons d s =>
    have hd : d ≠ quote := by simpa using h
    simp [scanString, hd]

theorem scanString_doubled (h : s.head? ≠ some quote) :
    ∀ v : Bytes, scanString (doubled quote v ++ quote :: s) = (doubled quote v, s)
  | [] => scanString_close h
  | c :: v => by
    by_cases hc : c = quote
    · subst hc
      rw [doubled_cons_self, List.cons_append, List.cons_append, scanString_escape, scanString_doubled h v]
    · rw [doubled_cons_ne hc, List.cons_append, scanString_cons_ne hc, scanString_doubled h v]

theorem replaceAll_doubled : ∀ v : Bytes, replaceAll (doubled quote v) [quote, quote] [quote] = v
  | [] => rfl
  | c :: v => by
    have ih := replaceAll_doubled v
    unfold replaceAll at ih ⊢
    by_cases hc : c = quote
    · subst hc
      rw [doubled_cons_self]
      simp [replaceFrom, ih]
    · rw [doubled_cons_ne hc]
      simp [replaceFrom, Ne.symm hc, ih]

/-! ## One step of the tokenizer, by the class of its byte -/

theorem nextToken_blank (h : isBlank c = true) (s : Bytes) : nextToken c s = (none, s) := by
  unfold nextToken; rw [if_pos h]

theorem nextToken_line (s : Bytes) : nextToken (byte '-') (byte '-' :: s) = (none, skipLine s) := by
  unfold nextToken
  rw [if_neg (by decide), if_pos (by simp)]; rfl

theorem nextToken_block (s : Bytes) : nextToken (byte '/') (byte '*' :: s) = (none, skipBlock s) := by
  unfold nextToken
  rw [if_neg (by decide), if_neg (by simp [show byte '/' ≠ byte '-' by decide]), if_pos (by simp)]; rfl

theorem nextToken_quote (s : Bytes) :
    nextToken quote s =
      (some ⟨.tokString, replaceAll (scanString s).1 [quote, quote] [quote]⟩, (scanString s).2) := by
  unfold nextToken
  rw [if_neg (by decide), if_neg (by simp [show quote ≠ byte '-' by decide]),
    if_neg (by simp [show quote ≠ byte '/' by decide]), if_pos rfl]

def soloToken (c : UInt8) : Option Token :=
  if c = byte '(' then some ⟨.tokLParen, [c]⟩
  else if c = byte ')' then some ⟨.tokRParen, [c]⟩
  else if c = byte ',' then some ⟨.tokComma, [c]⟩
  else if c = byte '=' then some ⟨.tokOp, [c]⟩
  else none

theorem nextToken_solo (h : soloToken c = some t) (s : Bytes) :
    nextToken c s = (some t, s) := by
  have hb : ∀ c, (soloToken c).isSome → isBlank c = false ∧ c ≠ byte '-' ∧ c ≠ byte '/' ∧ c ≠ quote := by
    decide +kernel
  obtain ⟨h1, h2, h3, h4⟩ := hb c (by rw [h]; rfl)
  unfold nextToken
  rw [if_neg (by simp [h1]), if_neg (by simp [h2]), if_neg (by simp [h3]), if_neg h4]
  unfold soloToken at h
  split at h
  · rename_i hc; rw [if_pos hc, Option.some.inj h]
  split at h
  · rename_i hn hc; rw [if_neg hn, if_pos hc, Option.some.inj h]
  split at h
  · rename_i hn hn' hc; rw [if_neg hn, if_neg hn', if_pos hc, Option.some.inj h]
  split at h
  · rename_i hn hn' hn'' hc; rw [if_neg hn, if_neg hn', if_neg hn'', if_pos hc, Option.some.inj h]
  · cases h

def pastSolo (c : UInt8) : Bool :=
  !(isBlank c || c == quote || c == byte '(' || c == byte ')' || c == byte ',' || c == byte '=')

theorem nextToken_pastSolo (h : pastSolo c = true)
    (h1 : ¬ (c = byte '-' ∧ s.head? = some (byte '-'))) (h2 : ¬ (c = byte '/' ∧ s.head? = some (byte '*'))) :
    nextToken c s =
      if isAngle c then angleToken c s
      else if isArith c then (some ⟨.tokOp, [c]⟩, s)
      else if isDigit c then (some ⟨.tokNumber, c :: s.takeWhile isNumByte⟩, s.dropWhile isNumByte)
      else if isWordStart c then (some (wordToken (c :: s.takeWhile isWordByte)), s.dropWhile isWordByte)
      else (none, s) := by
  simp only [pastSolo, Bool.not_eq_true', Bool.or_eq_false_iff, beq_eq_false_iff_ne] at h
  obtain ⟨⟨⟨⟨⟨ha, hb⟩, hc⟩, hd⟩, he⟩, hf⟩ := h
  unfold nextToken
  rw [if_neg (by simp [ha]), if_neg h1, if_neg h2, if_neg hb, if_neg hc, if_neg hd, if_neg he, if_neg hf]

theorem nextToken_angle (h : isAngle c = true) (s : Bytes) : nextToken c s = angleToken c s := by
  have hb : ∀ c, isAngle c = true → pastSolo c = true ∧ c ≠ byte '-' ∧ c ≠ byte '/' := by decide +kernel
  obtain ⟨h0, h1, h2⟩ := hb c h
  rw [nextToken_pastSolo h0 (by simp [h1]) (by simp [h2]), if_pos h]

theorem nextToken_arith (h : isArith c = true)
    (h1 : ¬ (c = byte '-' ∧ s.head? = some (byte '-'))) (h2 : ¬ (c = byte '/' ∧ s.head? = some (byte '*'))) :
    nextToken c s = (some ⟨.tokOp, [c]⟩, s) := by
  have hb : ∀ c, isArith c = true → pastSolo c = true ∧ isAngle c = false := by decide +kernel
  obtain ⟨h0, h3⟩ := hb c h
  rw [nextToken_pastSolo h0 h1 h2, if_neg (by simp [h3]), if_pos h]

theorem nextToken_digit (h : isDigit c = true) (s : Bytes) :
    nextToken c s = (some ⟨.tokNumber, c :: s.takeWhile isNumByte⟩, s.dropWhile isNumByte) := by
  have hb : ∀ c, isDigit c = true →
      pastSolo c = true ∧ c ≠ byte '-' ∧ c ≠ byte '/' ∧ isAngle c = false ∧ isArith c = false := by decide +kernel
  obtain ⟨h0, h1, h2, h3, h4⟩ := hb c h
  rw [nextToken_pastSolo h0 (by simp [h1]) (by simp [h2]), if_neg (by simp [h3]), if_neg (by simp [h4]), if_pos h]

theorem nextToken_word (h : isWordStart c = true) (s : Bytes) :
    nextToken c s = (some (wordToken (c :: s.takeWhile isWordByte)), s.dropWhile isWordByte) := by
  have hb : ∀ c, isWordStart c = true → pastSolo c = true ∧ c ≠ byte '-' ∧ c ≠ byte '/' ∧
      isAngle c = false ∧ isArith c = false ∧ isDigit c = false := by decide +kernel
  obtain ⟨h0, h1, h2, h3, h4, h5⟩ := hb c h
  rw [nextToken_pastSolo h0 (by simp [h1]) (by simp [h2]), if_neg (by simp [h3]), if_neg (by simp [h4]),
    if_neg (by simp [h5]), if_pos h]

/-! ## Gaps -/

theorem skipLine_append {body : Bytes} (h : byte '\n' ∉ body) (s : Bytes) :
    skipLine (body ++ byte '\n' :: s) = byte '\n' :: s := by
  induction body with
  | nil => simp [skipLine]
  | cons c body ih =>
    rw [List.mem_cons, not_or] at h
    rw [List.cons_append, skipLine, if_neg (Ne.symm h.1), ih h.2]

theorem skipLine_all {body : Bytes} (h : byte '\n' ∉ body) : skipLine body = [] := by
  induction body with
  | nil => rfl
  | cons c body ih =>
    rw [List.mem_cons, not_or] at h
    rw [skipLine, if_neg (Ne.symm h.1), ih h.2]

theorem skipBlock_append : ∀ {body : Bytes}, noClose body = true → ∀ s : Bytes,
    skipBlock (body ++ byte '*' :: byte '/' :: s) = s
  | [], _, s => by simp [skipBlock]
  | [a], _, s => by
    have : ¬ (a = byte '*' ∧ byte '*' = byte '/') := fun h => absurd h.2 (by decide)
    rw [List.cons_append, List.nil_append, skipBlock, if_neg this]
    simp [skipBlock]
  | a :: b :: body, h, s => by
    simp only [noClose, Bool.and_eq_true, Bool.not_eq_true', Bool.and_eq_false_iff, beq_eq_false_iff_ne] at h
    have hab : ¬ (a = byte '*' ∧ b = byte '/') := fun e => h.1.elim (· e.1) (· e.2)
    rw [List.cons_append, List.cons_append, skipBlock, if_neg hab, ← List.cons_append, skipBlock_append h.2]

theorem tokenize_blank (h : isBlank c = true) (s : Bytes) : tokenize (c :: s) = tokenize s := by
  rw [tokenize_cons, nextToken_blank h]; rfl

theorem tokenize_gap {g : Bytes} (h : Gap g) (s : Bytes) : tokenize (g ++ s) = tokenize s := by
  induction h with
  | nil => rfl
  | blank hc _ ih => rw [List.cons_append, tokenize_blank hc, ih]
  | @line body g hb _ ih =>
    rw [List.cons_append, List.cons_append, List.append_assoc, List.cons_append, tokenize_cons, nextToken_line,
      skipLine_append hb]
    change tokenize (byte '\n' :: (g ++ s)) = tokenize s
    rw [tokenize_blank (by decide), ih]
  | @block body g hb _ ih =>
    rw [List.cons_append, List.cons_append, List.append_assoc, List.cons_append, List.cons_append, tokenize_cons,
      nextToken_block, skipBlock_append hb]
    exact ih

/-! ## Tokens -/

theorem head?_of_apart (h : (Lexeme.tok t).apart s = true) :
    ∀ c, s.head? = some c → t.joins c = false := by
  intro c hc
  cases s with
  | nil => cases hc
  | cons d s => simp only [List.head?_cons, Option.some.injEq] at hc; subst hc; simpa [Lexeme.apart] using h

theorem tokenize_word {w : Bytes} (hw : isWord w = true) (hs : ∀ c, s.head? = some c → isWordByte c = false) :
    tokenize (w ++ s) = wordToken w :: tokenize s := by
  cases w with
  | nil => cases hw
  | cons c w =>
    simp only [isWord, Bool.and_eq_true] at hw
    obtain ⟨h1, h2⟩ := takeWhile_append_stop hw.2 hs
    rw [List.cons_append, tokenize_cons, nextToken_word hw.1, h1, h2]
    rfl

theorem tokenize_num {w : Bytes} (hw : isNum w = true) (hs : ∀ c, s.head? = some c → isNumByte c = false) :
    tokenize (w ++ s) = ⟨.tokNumber, w⟩ :: tokenize s := by
  cases w with
  | nil => cases hw
  | cons c w =>
    simp only [isNum, Bool.and_eq_true] at hw
    obtain ⟨h1, h2⟩ := takeWhile_append_stop hw.2 hs
    rw [List.cons_append, tokenize_cons, nextToken_digit hw.1, h1, h2]
    rfl

theorem tokenize_string (v : Bytes) (hs : s.head? ≠ some quote) :
    tokenize (quote :: (doubled quote v ++ quote :: s)) = ⟨.tokString, v⟩ :: tokenize s := by
  rw [tokenize_cons, nextToken_quote, scanString_doubled hs, replaceAll_doubled]
  rfl

theorem tokenize_solo (h : soloToken c = some t) (s : Bytes) :
    tokenize (c :: s) = t :: tokenize s := by
  rw [tokenize_cons, nextToken_solo h]; rfl

theorem tokenize_op {o : Bytes} (ho : o ∈ sqlOps) (hs : ∀ c, s.head? = some c → opJoins o c = false) :
    tokenize (o ++ s) = ⟨.tokOp, o⟩ :: tokenize s := by
  -- one byte that is an arithmetic sign, one angle byte, or an angle byte and its second
  have arith : ∀ a, isArith a = true → o = [a] → tokenize (o ++ s) = ⟨.tokOp, o⟩ :: tokenize s := by
    intro a ha he
    subst he
    have h1 : ¬ (a = byte '-' ∧ s.head? = some (byte '-')) := fun e => by
      have := hs _ e.2; simp [opJoins, e.1] at this
    have h2 : ¬ (a = byte '/' ∧ s.head? = some (byte '*')) := fun e => by
      have := hs _ e.2; simp [opJoins, e.1] at this
    rw [List.cons_append, List.nil_append, tokenize_cons, nextToken_arith ha h1 h2]; rfl
  have angle : ∀ a, isAngle a = true → o = [a] → tokenize (o ++ s) = ⟨.tokOp, o⟩ :: tokenize s := by
    intro a ha he
    subst he
    rw [List.cons_append, List.nil_append, tokenize_cons, nextToken_angle ha]
    cases s with
    | nil => rfl
    | cons d s =>
      have := hs d rfl
      simp only [opJoins, ha, Bool.true_and, Bool.or_eq_false_iff, beq_eq_false_iff_ne] at this
      simp [angleToken, this.1.1]
  have angle2 : ∀ a b, isAngle a = true → b = byte '=' ∨ b = byte '>' → o = [a, b] →
      tokenize (o ++ s) = ⟨.tokOp, o⟩ :: tokenize s := by
    intro a b ha hb he
    subst he
    rw [List.cons_append, List.cons_append, List.nil_append, tokenize_cons, nextToken_angle ha]
    simp [angleToken, hb]
  have heq : o = [byte '='] → tokenize (o ++ s) = ⟨.tokOp, o⟩ :: tokenize s := by
    intro he; subst he; exact tokenize_solo rfl s
  simp only [sqlOps, List.mem_cons, List.not_mem_nil, or_false] at ho
  rcases ho with h | h | h | h | h | h | h | h | h | h | h
  · exact heq h
  · exact angle _ (by decide) h
  · exact angle _ (by decide) h
  · exact angle2 _ _ (by decide) (Or.inl rfl) h
  · exact angle2 _ _ (by decide) (Or.inl rfl) h
  · exact angle2 _ _ (by decide) (Or.inl rfl) h
  · exact angle2 _ _ (by decide) (Or.inr rfl) h
  · exact arith _ (by decide) h
  · exact arith _ (by decide) h
  · exact arith _ (by decide) h
  · exact arith _ (by decide) h

/-- **One token.** A spelled token is read back, up to the byte that ends it. -/
theorem tokenize_spelled {w : Bytes} (hw : t.Spelled w) (ha : (Lexeme.tok t).apart s = true) :
    tokenize (w ++ s) = t :: tokenize s := by
  have hj := head?_of_apart ha
  obtain ⟨kind, val⟩ := t
  cases kind with
  | tokIdent =>
    obtain ⟨rfl, h1, h2⟩ := hw
    rw [tokenize_word h1 hj]; simp [wordToken, h2]
  | tokKW =>
    obtain ⟨rfl, h1, h2⟩ := hw
    rw [tokenize_word h1 hj]; simp only [wordToken]; rw [if_pos h2]
  | tokString =>
    simp only [Token.Spelled] at hw
    subst hw
    rw [List.cons_append, List.append_assoc]
    exact tokenize_string val fun e => by have := hj _ e; simp [Token.joins] at this
  | tokNumber => obtain ⟨rfl, h1⟩ := hw; exact tokenize_num h1 hj
  | tokOp => obtain ⟨rfl, h1⟩ := hw; exact tokenize_op h1 hj
  | tokLParen => obtain ⟨h1, rfl⟩ := hw; simp only at h1; subst h1; exact tokenize_solo rfl s
  | tokRParen => obtain ⟨h1, rfl⟩ := hw; simp only at h1; subst h1; exact tokenize_solo rfl s
  | tokComma => obtain ⟨h1, rfl⟩ := hw; simp only at h1; subst h1; exact tokenize_solo rfl s

/-- **Tokenizing spelled text.** -/
theorem tokenize_spells {ls : List Lexeme} (h : Spells ls s) :
    ∀ ts : List Token, ls = ts.map Lexeme.tok → tokenize s = ts := by
  induction h with
  | @nil g hg =>
    intro ts he
    rw [List.map_eq_nil_iff.mp he.symm, ← List.append_nil g, tokenize_gap hg]; rfl
  | @comment g body hg hb =>
    intro ts he
    rw [List.map_eq_nil_iff.mp he.symm, tokenize_gap hg, tokenize_cons, nextToken_line, skipLine_all hb]; rfl
  | cons hg hw ha _ ih =>
    intro ts he
    obtain ⟨t, ts, rfl, rfl, hts⟩ := List.map_eq_cons_iff.mp he.symm
    rw [tokenize_gap hg, tokenize_spelled hw ha, ih ts hts.symm]

/-! ## The standard spelling -/

instance decidableTokenSpelled (w : Bytes) : (t : Token) → Decidable (t.Spelled w)
  | ⟨.tokIdent, v⟩ => inferInstanceAs (Decidable (w = v ∧ isWord w = true ∧ toUpper w ∉ sqlKeywords))
  | ⟨.tokKW, v⟩ => inferInstanceAs (Decidable (toUpper w = v ∧ isWord w = true ∧ v ∈ sqlKeywords))
  | ⟨.tokString, v⟩ => inferInstanceAs (Decidable (w = quote :: (doubled quote v ++ [quote])))
  | ⟨.tokNumber, v⟩ => inferInstanceAs (Decidable (w = v ∧ isNum w = true))
  | ⟨.tokOp, v⟩ => inferInstanceAs (Decidable (w = v ∧ w ∈ sqlOps))
  | ⟨.tokLParen, v⟩ => inferInstanceAs (Decidable (w = v ∧ w = [byte '(']))
  | ⟨.tokRParen, v⟩ => inferInstanceAs (Decidable (w = v ∧ w = [byte ')']))
  | ⟨.tokComma, v⟩ => inferInstanceAs (Decidable (w = v ∧ w = [byte ',']))

instance decidableSpelled (w : Bytes) : (l : Lexeme) → Decidable (l.Spelled w)
  | .tok t => decidableTokenSpelled w t
  | .quoted v => inferInstanceAs (Decidable (w = byte '"' :: (doubled (byte '"') v ++ [byte '"'])))
  | .symbol c => inferInstanceAs (Decidable (w = [c] ∧ isSymbol c = true))

theorem opJoins_blank (o : Bytes) : opJoins o (byte ' ') = false := by
  unfold opJoins
  split
  · simp [byte]
  · rfl

theorem apart_blank (l : Lexeme) (s : Bytes) : l.apart (byte ' ' :: s) = true := by
  cases l with
  | tok t =>
    have h : t.joins (byte ' ') = false := by
      unfold Token.joins
      split
      · rfl
      · rfl
      · rfl
      · rfl
      · exact opJoins_blank _
      · rfl
    simp [Lexeme.apart, h]
  | quoted v => rfl
  | symbol c => rfl

theorem spells_of_spellOut : ∀ {ls : List Lexeme} {s : Bytes}, (∀ l ∈ ls, l.Spelled l.text) → spellOut ls = s →
    Spells ls s
  | [], _, _, rfl => .nil .nil
  | l :: ls, _, h, rfl => by
    have ha : l.apart (spellOut ls) = true := by
      cases ls with
      | nil => cases l <;> rfl
      | cons l' ls => exact apart_blank l _
    have ih := spells_of_spellOut (fun x hx => h x (List.mem_cons_of_mem _ hx)) rfl
    exact .cons (g := [byte ' ']) (.blank rfl .nil) (h l List.mem_cons_self) ha ih

end Logalot
