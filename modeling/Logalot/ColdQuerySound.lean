import Logalot.ColdQuery
import Logalot.LexemesSound
import Logalot.Lib.Template

/-!
# The cold query cannot be injected

The text of a cold query is a fixed text with literals in it. A scan of the
fixed parts does not depend on what follows them, and each literal reads back
as one string token with the value that was escaped, so the tokens of the
query are known for every input.
-/

namespace Logalot

open Go Spelling

/-! ## Literals -/

def literal (v : Bytes) : Bytes := quote :: (doubled quote v ++ [quote])

theorem escapeSQ_eq_doubled : ∀ v : Bytes, escapeSQ v = doubled quote v
  | [] => rfl
  | c :: v => by
    have ih := escapeSQ_eq_doubled v
    unfold escapeSQ replaceAll at ih ⊢
    rw [replaceFrom]
    by_cases h : c = quote
    · subst h
      rw [doubled_cons_self, ← ih]
      rfl
    · have hp : List.isPrefixOf [quote] (c :: v) = false := by simp [List.isPrefixOf, Ne.symm h]
      rw [doubled_cons_ne h, hp, ih]
      rfl

theorem doubled_of_not_mem {q : UInt8} : ∀ {v : Bytes}, q ∉ v → doubled q v = v
  | [], _ => rfl
  | c :: v, h => by
    rw [List.mem_cons, not_or] at h
    rw [doubled_cons_ne (Ne.symm h.1), doubled_of_not_mem h.2]

theorem doubled_append (q : UInt8) (a b : Bytes) : doubled q (a ++ b) = doubled q a ++ doubled q b :=
  List.flatMap_append

theorem tokenize_literal (v : Bytes) {s : Bytes} (hs : s.head? ≠ some quote) :
    tokenize (literal v ++ s) = ⟨.tokString, v⟩ :: tokenize s := by
  have h := tokenize_string v hs
  simpa [literal] using h

theorem quote_not_mem_of_isUUID {s : Bytes} (h : isUUID s = true) : quote ∉ s := fun hm => by
  have := mem_of_isUUID h hm
  revert this
  decide

theorem quote_not_mem_formatDate (t : Time) : quote ∉ formatDate t := fun hm => by
  have := mem_formatDate hm
  revert this
  decide

theorem quote_not_mem_timeBounds (now : Time) (q : SearchQuery) :
    quote ∉ (timeBounds now q).1 ∧ quote ∉ (timeBounds now q).2 := by
  unfold timeBounds
  constructor
  · dsimp only
    split
    · decide
    · exact quote_not_mem_formatDate _
  · dsimp only
    split <;> exact quote_not_mem_formatDate _

/-! ## Fixed parts -/

def settled (c : UInt8) (s : Bytes) : Bool :=
  isBlank c || (soloToken c).isSome || (isWordStart c && !(s.dropWhile isWordByte).isEmpty)

theorem settled_sound (P : Bytes → Prop) (c : UInt8) (s : Bytes) (h : settled c s = true) :
    Settled nextToken P c s := by
  intro r _
  simp only [settled, Bool.or_eq_true, Bool.and_eq_true] at h
  rcases h with (h | h) | ⟨hw, hs⟩
  · rw [nextToken_blank h, nextToken_blank h]
  · obtain ⟨t, ht⟩ := Option.isSome_iff_exists.mp h
    rw [nextToken_solo ht, nextToken_solo ht]
  · obtain ⟨h1, h2⟩ := takeWhile_append (r := r) (.inl (by simpa using hs))
    rw [nextToken_word hw, nextToken_word hw, h1, h2]

def coldText : Spelling Token Bytes where
  next := nextToken
  shrinks := length_nextToken_le
  hole := literal
  token v := ⟨.tokString, v⟩
  stops c := c != quote
  scan_hole v s hs := tokenize_literal v fun e => by simpa using hs quote e
  settled _ := settled
  settled_hole := settled_sound _
  settled_stop := settled_sound _

/-! ## The parts of a cold query -/

def fixedSelect : coldText.Fixed true :=
  ⟨bs "SELECT ts, id, service, level, message, labels\nFROM logalot_cold.log_events\nWHERE tenant_id = ",
   by decide +kernel, by decide +kernel⟩

def fixedDt : coldText.Fixed true := ⟨bs "\n  AND dt BETWEEN ", by decide +kernel, by decide +kernel⟩

def fixedAnd : coldText.Fixed true := ⟨bs " AND ", by decide +kernel, by decide +kernel⟩

def fixedOpen : coldText.Fixed true := ⟨bs "\n  AND ( ", by decide +kernel, by decide +kernel⟩

def fixedEq : coldText.Fixed true := ⟨bs " = ", by decide +kernel, by decide +kernel⟩

def fixedRegexp : coldText.Fixed true := ⟨bs " OR regexp_like(message, ", by decide +kernel, by decide +kernel⟩

def fixedService : coldText.Fixed true := ⟨bs " OR service = ", by decide +kernel, by decide +kernel⟩

def fixedClose : coldText.Fixed false := ⟨bs " )", by decide +kernel, by decide +kernel⟩

def fixedCloseCall : coldText.Fixed false := ⟨bs ") )", by decide +kernel, by decide +kernel⟩

def fixedExtract : coldText.Fixed true :=
  ⟨bs "\n  AND json_extract_scalar(labels, ", by decide +kernel, by decide +kernel⟩

def fixedExtracted : coldText.Fixed true := ⟨bs ") = ", by decide +kernel, by decide +kernel⟩

def fixedOrder : coldText.Fixed false := ⟨bs "\nORDER BY ts DESC\nLIMIT ", by decide +kernel, by decide +kernel⟩

def labelParts (l : Bytes × Bytes) : List coldText.Part :=
  [.hole fixedExtract (bs "$." ++ l.1), .hole fixedExtracted l.2]

def frontParts (tenant fromDate toDate text svc : Bytes) : List coldText.Part :=
  [.hole fixedSelect tenant, .hole fixedDt fromDate, .hole fixedAnd toDate,
   .hole fixedOpen text, .hole fixedEq [], .hole fixedRegexp text, .plain fixedCloseCall,
   .hole fixedOpen svc, .hole fixedEq [], .hole fixedService svc, .plain fixedClose]

def coldParts (tenant fromDate toDate text svc : Bytes) (labels : Labels) : List coldText.Part :=
  frontParts tenant fromDate toDate text svc ++ labels.flatMap labelParts ++ [.plain fixedOrder]

theorem labelParts_text (l : Bytes × Bytes) : (labelParts l).flatMap Part.text = labelPredicate l := by
  have h1 : bs "\n  AND json_extract_scalar(labels, '$." = fixedExtract.text ++ quote :: bs "$." := by decide
  have h2 : bs "') = '" = quote :: (fixedExtracted.text ++ [quote]) := by decide
  have h3 : doubled quote (bs "$.") = bs "$." := rfl
  simp only [labelParts, labelPredicate, List.flatMap_cons, List.flatMap_nil, Part.text,
    coldText, literal, escapeSQ_eq_doubled, doubled_append, h1, h2, h3, List.append_assoc, List.cons_append,
    List.nil_append, List.append_nil]
  rfl

theorem flatMap_labelParts (labels : Labels) :
    (labels.flatMap labelParts).flatMap Part.text = labels.flatMap labelPredicate := by
  rw [List.flatMap_assoc]
  exact congrArg (labels.flatMap ·) (funext labelParts_text)

theorem buildColdQuery_eq (now : Time) (tc : TenantContext) (q : SearchQuery) (h : tc.valid = none) :
    buildColdQuery now tc q =
      (coldParts tc.tenantId (timeBounds now q).1 (timeBounds now q).2 (trimSpace q.text) (trimSpace q.service)
        q.labels).flatMap Part.text ++ itoa (clampLimit q.limit) := by
  have ht := doubled_of_not_mem (quote_not_mem_of_isUUID (TenantContext.isUUID_of_valid h))
  have hd := quote_not_mem_timeBounds now q
  have h1 (s : Bytes) : bs "SELECT ts, id, service, level, message, labels\n" ++
      (bs "FROM logalot_cold.log_events\n" ++ (bs "WHERE tenant_id = '" ++ s)) = fixedSelect.text ++ quote :: s := by
    have h : bs "SELECT ts, id, service, level, message, labels\n" ++ bs "FROM logalot_cold.log_events\n" ++
        bs "WHERE tenant_id = '" = fixedSelect.text ++ [quote] := by decide
    simpa only [List.append_assoc, List.singleton_append] using congrArg (· ++ s) h
  have h2 : bs "\n  AND dt BETWEEN '" = fixedDt.text ++ [quote] := by decide
  have h3 : bs "' AND '" = quote :: (fixedAnd.text ++ [quote]) := by decide
  have h4 : bs "\n  AND ( '" = fixedOpen.text ++ [quote] := by decide
  have h5 : bs "' = '' OR regexp_like(message, '" =
    quote :: (fixedEq.text ++ (literal [] ++ (fixedRegexp.text ++ [quote]))) := by decide
  have h6 : bs "') )" = quote :: fixedCloseCall.text := by decide
  have h7 : bs "' = '' OR service = '" =
    quote :: (fixedEq.text ++ (literal [] ++ (fixedService.text ++ [quote]))) := by decide
  have h8 : bs "' )" = quote :: fixedClose.text := by decide
  have h9 : bs "'" = [quote] := by decide
  have h10 : bs "\nORDER BY ts DESC\nLIMIT " = fixedOrder.text := by decide
  unfold buildColdQuery coldParts frontParts
  simp only [List.flatMap_append, List.flatMap_cons, List.flatMap_nil, Part.text, flatMap_labelParts]
  simp only [escapeSQ_eq_doubled, coldText, literal, ht, doubled_of_not_mem hd.1, doubled_of_not_mem hd.2]
  simp only [List.append_assoc, List.cons_append, List.nil_append, List.append_nil]
  rw [h1]
  simp only [h2, h3, h4, h5, h6, h7, h8, h9, h10, literal, List.append_assoc, List.cons_append, List.nil_append]

/-! ## The tokens of a cold query -/

theorem isNum_natDigits (n : Nat) : isNum (natDigits n) = true := by
  have hd := fun c (hc : c ∈ natDigits n) => isDigit_of_mem_natDigits hc
  cases h : natDigits n with
  | nil => exact absurd h (natDigits_ne_nil n)
  | cons c s =>
    rw [h] at hd
    simp only [isNum, Bool.and_eq_true, List.all_eq_true]
    exact ⟨hd c List.mem_cons_self, fun d hm => by simp [isNumByte, hd d (List.mem_cons_of_mem _ hm)]⟩

theorem isNum_clampLimit (n : Int) : isNum (itoa (clampLimit n)) = true := by
  have hp : 0 ≤ clampLimit n := by
    unfold clampLimit
    split
    · decide
    · omega
  obtain ⟨m, hm⟩ := Int.eq_ofNat_of_zero_le hp
  rw [hm]
  have h := itoa_natCast m
  rw [h]
  exact isNum_natDigits m

theorem stops_of_isNum {w : Bytes} (h : isNum w = true) : StartsIn coldText.stops w := by
  intro c hc
  cases w with
  | nil => cases hc
  | cons d s =>
    simp only [isNum, Bool.and_eq_true] at h
    obtain rfl : d = c := Option.some.inj hc
    have hd : ∀ c, isDigit c = true → (c != quote) = true := by decide +kernel
    exact hd d h.1

theorem tokenize_buildColdQuery (now : Time) (tc : TenantContext) (q : SearchQuery) (h : tc.valid = none) :
    tokenize (buildColdQuery now tc q) =
      (coldParts tc.tenantId (timeBounds now q).1 (timeBounds now q).2 (trimSpace q.text) (trimSpace q.service)
        q.labels).flatMap Part.tokens ++ [⟨.tokNumber, itoa (clampLimit q.limit)⟩] := by
  have hn := isNum_clampLimit q.limit
  have ht : tokenize (itoa (clampLimit q.limit)) = [⟨.tokNumber, itoa (clampLimit q.limit)⟩] := by
    rw [← List.append_nil (itoa (clampLimit q.limit)), tokenize_num hn (fun c hc => by cases hc), List.append_nil]
    rfl
  rw [buildColdQuery_eq now tc q h, ← ht]
  exact read_parts (stops_of_isNum hn) _

/-! ## Kinds and values -/

def selectKinds : List TokKind :=
  [.tokKW, .tokIdent, .tokComma, .tokIdent, .tokComma, .tokIdent, .tokComma, .tokIdent, .tokComma, .tokIdent,
   .tokComma, .tokIdent, .tokKW, .tokIdent, .tokKW, .tokIdent, .tokOp, .tokString]

def dtKinds : List TokKind := [.tokKW, .tokIdent, .tokKW, .tokString, .tokKW, .tokString]

def textKinds : List TokKind :=
  [.tokKW, .tokLParen, .tokString, .tokOp, .tokString, .tokKW, .tokIdent, .tokLParen, .tokIdent, .tokComma,
   .tokString, .tokRParen, .tokRParen]

def serviceKinds : List TokKind :=
  [.tokKW, .tokLParen, .tokString, .tokOp, .tokString, .tokKW, .tokIdent, .tokOp, .tokString, .tokRParen]

def labelKinds : List TokKind :=
  [.tokKW, .tokIdent, .tokLParen, .tokIdent, .tokComma, .tokString, .tokRParen, .tokOp, .tokString]

def orderKinds : List TokKind := [.tokKW, .tokKW, .tokIdent, .tokIdent, .tokKW, .tokNumber]

def coldKinds (n : Nat) : List TokKind :=
  selectKinds ++ dtKinds ++ textKinds ++ serviceKinds ++ (List.replicate n labelKinds).flatten ++ orderKinds

def coldValues (tenant fromDate toDate text svc : Bytes) (labels : Labels) : List Bytes :=
  [tenant, fromDate, toDate, text, [], text, svc, [], svc] ++ labels.flatMap fun l => [bs "$." ++ l.1, l.2]

theorem map_kind_labels : ∀ labels : Labels,
    ((labels.flatMap labelParts).flatMap Part.tokens).map Token.kind = (List.replicate labels.length labelKinds).flatten
  | [] => rfl
  | l :: labels => by
    have h : (((labelParts ([], [])).map (Part.shape [])).flatMap Part.tokens).map Token.kind = labelKinds := by
      decide
    rw [List.flatMap_cons, List.flatMap_append, List.map_append, map_kind_labels labels,
      map_tokens_shape Token.kind [] fun _ => rfl, List.length_cons, List.replicate_succ, List.flatten_cons, ← h]
    rfl

theorem map_kind_coldParts (tenant fromDate toDate text svc n : Bytes) (labels : Labels) :
    ((coldParts tenant fromDate toDate text svc labels).flatMap Part.tokens ++ [Token.mk .tokNumber n]).map Token.kind =
      coldKinds labels.length := by
  have hfront : ((frontParts [] [] [] [] []).flatMap Part.tokens).map Token.kind =
      selectKinds ++ dtKinds ++ textKinds ++ serviceKinds := by decide
  have horder : (Part.tokens (.plain fixedOrder)).map Token.kind ++ [TokKind.tokNumber] = orderKinds := by decide
  have hshape : (frontParts tenant fromDate toDate text svc).map (Part.shape []) = frontParts [] [] [] [] [] := rfl
  simp only [coldParts, List.flatMap_append, List.map_append, List.flatMap_cons, List.flatMap_nil, List.append_nil,
    map_kind_labels, List.map_cons, List.map_nil, List.append_assoc, horder]
  rw [map_tokens_shape Token.kind [] fun _ => rfl, hshape, hfront]
  simp only [coldKinds, List.append_assoc]

def stringValue (t : Token) : Option Bytes := if t.kind = .tokString then some t.val else none

def stringValues (ts : List Token) : List Bytes := ts.filterMap stringValue

theorem stringValues_coldParts (tenant fromDate toDate text svc n : Bytes) (labels : Labels) :
    stringValues ((coldParts tenant fromDate toDate text svc labels).flatMap Part.tokens ++ [Token.mk .tokNumber n]) =
      coldValues tenant fromDate toDate text svc labels := by
  -- the fixed parts hold no string token
  have hfixed : ∀ t ∈ [fixedSelect.text, fixedDt.text, fixedAnd.text, fixedOpen.text, fixedEq.text, fixedRegexp.text,
      fixedService.text, fixedClose.text, fixedCloseCall.text, fixedExtract.text, fixedExtracted.text, fixedOrder.text],
      stringValues (tokenize t) = [] := by
    decide
  have hparts : ∀ p ∈ coldParts tenant fromDate toDate text svc labels, stringValues (tokenize p.fixed) = [] := by
    intro p hp
    refine hfixed p.fixed ?_
    simp only [coldParts, frontParts, labelParts, List.mem_append, List.mem_cons, List.mem_flatMap, List.not_mem_nil,
      or_false] at hp
    rcases hp with ((h | h | h | h | h | h | h | h | h | h | h) | ⟨l, -, h | h⟩) | h <;> rw [h] <;> simp [Part.fixed]
  have hlabels : (labels.flatMap labelParts).filterMap Part.value = labels.flatMap fun l => [bs "$." ++ l.1, l.2] := by
    rw [List.filterMap_flatMap]
    rfl
  have hfront : (frontParts tenant fromDate toDate text svc).filterMap Part.value =
      [tenant, fromDate, toDate, text, [], text, svc, [], svc] := rfl
  have horder : [(.plain fixedOrder : coldText.Part)].filterMap Part.value = [] := rfl
  have hvalues := filterMap_tokens (f := stringValue) (g := id) (fun _ => rfl) hparts
  rw [stringValues, List.filterMap_append, hvalues, List.map_id, coldParts, List.filterMap_append,
    List.filterMap_append, hlabels, hfront, horder]
  simp [coldValues, stringValue]

/-! ## The query passes the fitness function -/

theorem findWHEREFrom_append {k : Nat} : ∀ {a : List Token} {d i : Nat}, findWHEREFrom d i a = some k →
    ∀ b, findWHEREFrom d i (a ++ b) = some k
  | [], _, _, h, _ => by cases h
  | t :: a, d, i, h, b => by
    rw [List.cons_append]
    rw [findWHEREFrom] at h ⊢
    cases hk : t.kind with
    | tokKW =>
      simp only [hk] at h ⊢
      split at h
      · rwa [if_pos ‹_›]
      · rw [if_neg ‹_›]
        exact findWHEREFrom_append h b
    | _ =>
      simp only [hk] at h ⊢
      exact findWHEREFrom_append h b

theorem mem_flush_of_mem {x : List Token} {terms : List (List Token)} (h : x ∈ terms) (cur : List Token) :
    x ∈ flush terms cur := by
  unfold flush
  split
  · exact h
  · exact List.mem_append_left _ h

theorem mem_splitFrom {x : List Token} : ∀ (ts : List Token) {terms : List (List Token)}, x ∈ terms →
    ∀ (d : Nat) (b : Bool) (cur : List Token), x ∈ splitFrom terms d b cur ts
  | [], terms, h, _, _, cur => mem_flush_of_mem h cur
  | t :: ts, terms, h, d, b, cur => by
    have ih := fun {terms'} (h' : x ∈ terms') => mem_splitFrom ts h'
    unfold splitFrom
    cases t.kind with
    | tokKW =>
      simp only
      split
      · exact ih h ..
      split
      · exact mem_flush_of_mem h cur
      split
      · exact ih h ..
      split
      · split
        · exact ih h ..
        · exact ih (mem_flush_of_mem h cur) ..
      · exact ih h ..
    | _ => exact ih h ..

theorem mem_splitTopLevelAND {x : List Token} (hx : x ≠ [])
    (hk : ∀ t ∈ x, t.kind = .tokIdent ∨ t.kind = .tokOp ∨ t.kind = .tokString) (rest : List Token) :
    x ∈ splitTopLevelAND (x ++ ⟨.tokKW, bs "AND"⟩ :: rest) := by
  have collect : ∀ (ys cur : List Token), (∀ t ∈ ys, t.kind = .tokIdent ∨ t.kind = .tokOp ∨ t.kind = .tokString) →
      splitFrom [] 0 false cur (ys ++ ⟨.tokKW, bs "AND"⟩ :: rest) =
        splitFrom [] 0 false (cur ++ ys) (⟨.tokKW, bs "AND"⟩ :: rest) := by
    intro ys
    induction ys with
    | nil => intro cur _; simp
    | cons y ys ih =>
      intro cur hy
      have ih' := ih (cur ++ [y]) fun t ht => hy t (List.mem_cons_of_mem _ ht)
      rw [List.cons_append, splitFrom]
      rcases hy y List.mem_cons_self with e | e | e <;> simp only [e, ih', List.append_assoc, List.singleton_append]
  have h1 : bs "AND" ∉ clauseEnds := by decide
  have h2 : bs "AND" ≠ bs "BETWEEN" := by decide
  rw [splitTopLevelAND, collect x [] hk, List.nil_append, splitFrom]
  simp only [Nat.lt_irrefl, if_false, h1, h2, if_true, Bool.false_eq_true]
  refine mem_splitFrom rest ?_ _ _ _
  simp [flush, hx]

theorem checkTenantPredicate_of_tokens {sql t : Bytes} {pre post : List Token} {k : Nat} (ht : trimSpace t ≠ [])
    (hs : tokenize sql = pre ++ post) (hw : findWHERE pre = some k) (hk : k < pre.length)
    (hm : [⟨.tokIdent, bs "tenant_id"⟩, ⟨.tokOp, bs "="⟩, ⟨.tokString, t⟩] ∈
      splitTopLevelAND (pre.drop (k + 1) ++ post)) :
    checkTenantPredicate sql t = none := by
  have hw' : findWHERE (pre ++ post) = some k := findWHEREFrom_append hw post
  have hd : (pre ++ post).drop (k + 1) = pre.drop (k + 1) ++ post := List.drop_append_of_le_length hk
  have he : isEqualityPredicate [⟨.tokIdent, bs "tenant_id"⟩, ⟨.tokOp, bs "="⟩, ⟨.tokString, t⟩]
      (bs "tenant_id") t = true := by
    have hf : equalFold (bs "tenant_id") (bs "tenant_id") = true := by decide
    simp [isEqualityPredicate, hf]
  rw [checkTenantPredicate, if_neg ht]
  simp only [hs, hw', hd]
  rw [if_pos (List.any_eq_true.mpr ⟨_, hm, he⟩)]

theorem checkTenantPredicate_buildColdQuery (now : Time) (tc : TenantContext) (q : SearchQuery)
    (h : tc.valid = none) : checkTenantPredicate (buildColdQuery now tc q) tc.tenantId = none := by
  have hsel : findWHERE (tokenize fixedSelect.text) = some 14 := by decide
  have hlen : 14 < (tokenize fixedSelect.text).length := by decide
  have hdrop : (tokenize fixedSelect.text).drop 15 = [⟨.tokIdent, bs "tenant_id"⟩, ⟨.tokOp, bs "="⟩] := by
    decide
  have hdt : tokenize fixedDt.text = [⟨.tokKW, bs "AND"⟩, ⟨.tokIdent, bs "dt"⟩, ⟨.tokKW, bs "BETWEEN"⟩] := by
    decide
  have htoks := tokenize_buildColdQuery now tc q h
  have hread : coldText.read = tokenize := rfl
  simp only [coldParts, frontParts, List.cons_append, List.flatMap_cons, Part.tokens, hread,
    List.append_assoc] at htoks
  refine checkTenantPredicate_of_tokens (TenantContext.ne_blank_of_valid h) htoks hsel hlen ?_
  rw [hdrop, hdt]
  exact mem_splitTopLevelAND (x := [_, _, ⟨.tokString, tc.tenantId⟩]) (List.cons_ne_nil _ _) (by simp) _

/-- **No injection.** The kinds of the tokens of a cold query depend on the number
of labels alone, every value is one string token that reads back as the value,
and the query passes the fitness function for its tenant. -/
theorem buildColdQuery_injection_free (now : Time) (tc : TenantContext) (q : SearchQuery) (h : tc.valid = none) :
    (tokenize (buildColdQuery now tc q)).map Token.kind = coldKinds q.labels.length ∧
    stringValues (tokenize (buildColdQuery now tc q)) =
      coldValues tc.tenantId (timeBounds now q).1 (timeBounds now q).2 (trimSpace q.text) (trimSpace q.service)
        q.labels ∧
    checkTenantPredicate (buildColdQuery now tc q) tc.tenantId = none := by
  refine ⟨?_, ?_, checkTenantPredicate_buildColdQuery now tc q h⟩
  · rw [tokenize_buildColdQuery now tc q h, map_kind_coldParts]
  · rw [tokenize_buildColdQuery now tc q h, stringValues_coldParts]

/-- A text that tries to close its literal stays inside it. -/
theorem buildColdQuery_hostile_text :
    let tc : TenantContext := { tenantId := bs "11111111-1111-4111-8111-111111111111" }
    let q : SearchQuery := { text := bs "' OR 1 = 1 --", labels := [(bs "k') --", bs "'")] }
    tc.valid = none ∧ checkTenantPredicate (buildColdQuery 0 tc q) tc.tenantId = none ∧
      (tokenize (buildColdQuery 0 tc q)).map Token.kind = coldKinds 1 := by
  have hv : TenantContext.valid { tenantId := bs "11111111-1111-4111-8111-111111111111" } = none := by decide
  have h := buildColdQuery_injection_free 0 _
    { text := bs "' OR 1 = 1 --", labels := [(bs "k') --", bs "'")] } hv
  exact ⟨hv, h.2.2, h.1⟩

end Logalot
