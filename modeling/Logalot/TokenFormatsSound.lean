import Logalot.TokenFormats

/-!
# Tokens in both languages

The loop of `splitN` computes what `strings.SplitN` does, and a token is accepted
exactly if it is the fields joined after the prefix.
-/

namespace Logalot.TokenFormats

open Go Js

/-! ## Splitting -/

theorem splitLoop_eq (sep : JsString) (k : Nat) (out : List JsString) (rest : JsString) :
    splitLoop sep k out rest = out ++ Split.splitN sep (k + 1) rest := by
  induction k generalizing out rest with
  | zero => rfl
  | succ k ih =>
    rw [splitLoop, Split.splitN]
    cases Split.indexOf sep rest with
    | none => rfl
    | some idx =>
      dsimp only
      rw [ih, List.append_assoc]
      rfl

theorem splitN_eq (s sep : JsString) {n : Int} (hn : 1 ≤ n) : splitN s sep n = Split.splitN sep n.toNat s := by
  have hsucc : (n - 1).toNat + 1 = n.toNat := by omega
  rw [splitN, if_neg (by omega), splitLoop_eq, hsucc, List.nil_append]

theorem cut_eq (sep s : Bytes) :
    cut sep s = (Split.indexOf sep s).map fun i => (s.take i, s.drop (i + sep.length)) := by
  induction s with
  | nil =>
    rw [cut, Split.indexOf]
    split
    · simp
    · rfl
  | cons c s ih =>
    rw [cut, Split.indexOf, ih]
    split
    · simp
    · rw [Option.map_map, Option.map_map]
      refine congrArg (fun f => Option.map f (Split.indexOf sep s)) (funext fun i => ?_)
      simp [Nat.succ_add]

theorem goSplitN_eq (sep : Bytes) (n : Nat) (s : Bytes) : Go.splitN sep (n + 1) s = Split.splitN sep (n + 1) s := by
  induction n generalizing s with
  | zero => rfl
  | succ n ih =>
    rw [Go.splitN, Split.splitN, cut_eq]
    cases Split.indexOf sep s with
    | none => rfl
    | some i => exact congrArg (_ :: ·) (ih _)

section
variable (s sep : List Char)

theorem splitN_utf16 (hs : sep ≠ []) {n : Int} (hn : 1 ≤ n) :
    splitN (utf16 s) (utf16 sep) n = (Split.splitN sep n.toNat s).map utf16 := by
  obtain ⟨m, hm⟩ : ∃ m, n.toNat = m + 1 := ⟨n.toNat - 1, by omega⟩
  rw [splitN_eq _ _ hn, hm]
  exact syncCode_charUnits.splitN_flatMap hs m s

theorem goSplitN_utf8Text (hs : sep ≠ []) {n : Nat} (hn : 1 ≤ n) :
    Go.splitN (utf8Text sep) n (utf8Text s) = (Split.splitN sep n s).map utf8Text := by
  obtain ⟨m, rfl⟩ : ∃ m, n = m + 1 := ⟨n - 1, by omega⟩
  rw [goSplitN_eq]
  exact syncCode_charBytes.splitN_flatMap hs m s

theorem goSplitN_eq_map_utf8 (hs : sep ≠ []) {n : Int} (hn : 1 ≤ n) :
    Go.splitN (utf8Text sep) n.toNat (utf8Text s) = (splitN (utf16 s) (utf16 sep) n).map utf8 := by
  rw [goSplitN_utf8Text s sep hs (by omega), splitN_utf16 s sep hs hn, List.map_map]
  exact List.map_congr_left fun l _ => (utf8_utf16 l).symm

end

/-! ## Fields -/

theorem separator_eq : separator = [95] := by decide

theorem parseFields_eq_some_iff {pre raw : JsString} {n : Int} {fields : List JsString} (hpre : 95 ∉ pre)
    (hn : 2 ≤ n) : parseFields pre n raw = some fields ↔
      (fields.length : Int) + 1 = n ∧ [] ∉ fields ∧ (∀ f ∈ fields.dropLast, 95 ∉ f) ∧
        raw = join separator (pre :: fields) := by
  unfold parseFields
  rw [splitN_eq _ _ (by omega), separator_eq]
  obtain ⟨m, hm⟩ : ∃ m, n.toNat = m + 1 := ⟨n.toNat - 1, by omega⟩
  rw [hm]
  constructor
  · intro h
    cases hparts : Split.splitN [95] (m + 1) raw with
    | nil => exact absurd hparts (Split.splitN_ne_nil _ _)
    | cons p fs =>
      rw [hparts] at h
      dsimp only at h
      split at h
      · cases h
      · rename_i hok
        cases h
        simp only [not_or, not_not] at hok
        obtain ⟨hlen, rfl, hne⟩ := hok
        have hjoin : [95].intercalate (Split.splitN [95] (m + 1) raw) = raw := Split.intercalate_splitN m raw
        have hmem := Split.not_mem_dropLast_splitN (c := 95) m raw
        rw [hparts] at hjoin hmem
        have hfs : fields ≠ [] := fun he => by
          rw [he] at hlen
          simp at hlen
          omega
        rw [List.dropLast_cons_of_ne_nil hfs] at hmem
        exact ⟨hlen, hne, (List.forall_mem_cons.mp hmem).2, hjoin.symm⟩
  · rintro ⟨hlen, hne, hmem, rfl⟩
    have hfs : fields ≠ [] := fun he => by
      rw [he] at hlen
      simp at hlen
      omega
    have hlast : pre :: fields = (pre :: fields.dropLast) ++ [fields.getLast hfs] := by
      rw [List.cons_append, List.dropLast_append_getLast]
    have hm' : m + 1 = (pre :: fields.dropLast).length + 1 := by
      rw [List.length_cons, List.length_dropLast]
      have : 0 < fields.length := List.length_pos_iff.mpr hfs
      omega
    have hsplit := Split.splitN_intercalate (x := fields.getLast hfs) (List.forall_mem_cons.mpr ⟨hpre, hmem⟩)
    rw [← hlast, ← hm'] at hsplit
    rw [join, hsplit]
    exact if_neg (by simp [hlen, hne])

theorem prefixes_plain : 95 ∉ KEY_PREFIX ∧ 95 ∉ REFRESH_PREFIX ∧ 95 ∉ INVITE_PREFIX := by decide

/-! ## The three formats -/

variable {P : Type} {read : List JsString → Option P} {fs : List JsString} {s : List Char}

theorem parseToken_eq_ok_iff {pre message raw : JsString} {n : Int} {p : P}
    {fields : List JsString} (hread : ∀ fs, read fs = some p ↔ fs = fields) :
    parseToken pre n read message raw = .ok p ↔ parseFields pre n raw = some fields := by
  have hbind : (parseFields pre n raw).bind read = some p ↔ parseFields pre n raw = some fields := by
    simp only [Option.bind_eq_some_iff, hread, exists_eq_right]
  rw [← hbind]
  unfold parseToken
  cases (parseFields pre n raw).bind read with
  | none => simp
  | some q => simp

theorem ParsedApiKey.ofFields_eq_some_iff {p : ParsedApiKey} :
    ParsedApiKey.ofFields fs = some p ↔ fs = [p.publicId, p.keyId, p.secret] := by
  unfold ParsedApiKey.ofFields
  split
  · simp [ParsedApiKey.ext_iff]
  · rename_i hne
    exact iff_of_false (by simp) fun h => hne _ _ _ h

theorem parseApiKey_eq_ok_iff (raw : JsString) (p : ParsedApiKey) :
    parseApiKey raw = .ok p ↔ p.Plain ∧ raw = p.assemble := by
  rw [parseApiKey, parseToken_eq_ok_iff fun _ => ParsedApiKey.ofFields_eq_some_iff,
    parseFields_eq_some_iff prefixes_plain.1 (by decide)]
  simp [ParsedApiKey.Plain, PlainField, ParsedApiKey.assemble, assemblePlaintext, eq_comm]
  tauto

theorem ParsedRefreshToken.ofFields_eq_some_iff {p : ParsedRefreshToken} :
    ParsedRefreshToken.ofFields fs = some p ↔ fs = [p.tenantId, p.tokenId, p.secret] := by
  unfold ParsedRefreshToken.ofFields
  split
  · simp [ParsedRefreshToken.ext_iff]
  · rename_i hne
    exact iff_of_false (by simp) fun h => hne _ _ _ h

theorem parseRefreshToken_eq_ok_iff (raw : JsString) (p : ParsedRefreshToken) :
    parseRefreshToken raw = .ok p ↔ p.Plain ∧ raw = p.assemble := by
  rw [parseRefreshToken, parseToken_eq_ok_iff fun _ => ParsedRefreshToken.ofFields_eq_some_iff,
    parseFields_eq_some_iff prefixes_plain.2.1 (by decide)]
  simp [ParsedRefreshToken.Plain, PlainField, ParsedRefreshToken.assemble, assembleRefreshToken, eq_comm]
  tauto

theorem ParsedInviteToken.ofFields_eq_some_iff {p : ParsedInviteToken} :
    ParsedInviteToken.ofFields fs = some p ↔ fs = [p.publicId, p.secret] := by
  unfold ParsedInviteToken.ofFields
  split
  · simp [ParsedInviteToken.ext_iff]
  · rename_i hne
    exact iff_of_false (by simp) fun h => hne _ _ h

theorem parseInviteToken_eq_ok_iff (raw : JsString) (p : ParsedInviteToken) :
    parseInviteToken raw = .ok p ↔ p.Plain ∧ raw = p.assemble := by
  rw [parseInviteToken, parseToken_eq_ok_iff fun _ => ParsedInviteToken.ofFields_eq_some_iff,
    parseFields_eq_some_iff prefixes_plain.2.2 (by decide)]
  simp [ParsedInviteToken.Plain, PlainField, ParsedInviteToken.assemble, assembleInviteToken, eq_comm]
  tauto

theorem RoundTrips.of_iff {parse : JsString → Except ValidationError P} {assemble : P → JsString}
    {Plain : P → Prop} (h : ∀ raw p, parse raw = .ok p ↔ Plain p ∧ raw = assemble p) :
    RoundTrips parse assemble Plain :=
  ⟨fun p hp => (h _ p).mpr ⟨hp, rfl⟩, fun raw p hp => ((h raw p).mp hp).2.symm⟩

/-! ## Slugs -/

theorem assemble_invite (slug secret : JsString) :
    ParsedInviteToken.assemble ⟨slug, secret⟩ = INVITE_TOKEN_PREFIX ++ (slug ++ 95 :: secret) := by
  have hpre : INVITE_TOKEN_PREFIX = INVITE_PREFIX ++ [95] := by decide
  simp [ParsedInviteToken.assemble, assembleInviteToken, join, List.intercalate, separator_eq, hpre]

theorem parseInviteTenantSlug_eq_some_iff (token slug : JsString) : parseInviteTenantSlug token = some slug ↔
    (∃ secret, parseInviteToken token = .ok ⟨slug, secret⟩) ∧ tenantPublicId slug = true := by
  have hsep : js "_" = [95] := by decide
  simp only [parseInviteToken_eq_ok_iff, assemble_invite]
  unfold parseInviteTenantSlug
  dsimp only
  rw [hsep]
  constructor
  · intro h
    split at h
    · cases h
    · rename_i hp
      rw [Bool.not_eq_true', Bool.not_eq_false] at hp
      obtain ⟨rest, rfl⟩ := List.isPrefixOf_iff_prefix.mp hp
      rw [List.drop_left] at h
      split at h
      · cases h
      · rename_i i hi
        split at h
        · cases h
        · rename_i hbounds
          obtain ⟨h0, hlast⟩ := not_or.mp hbounds
          split at h
          · rename_i hvalid
            cases h
            have happ := Split.append_of_indexOf hi
            have hlen := congrArg List.length happ
            rw [List.singleton_append, List.length_singleton] at happ
            simp only [List.length_append, List.length_take, List.length_cons, List.length_nil,
              List.length_drop] at hlen
            have hslug : rest.take i ≠ [] := fun he => by
              have := congrArg List.length he
              rw [List.length_take, List.length_nil] at this
              omega
            have hsecret : rest.drop (i + 1) ≠ [] := fun he => by
              have := congrArg List.length he
              rw [List.length_drop, List.length_nil] at this
              omega
            refine ⟨⟨rest.drop (i + 1), ⟨⟨hslug, Split.not_mem_take_indexOf hi⟩, hsecret⟩, ?_⟩, hvalid⟩
            rw [happ]
          · cases h
  · rintro ⟨⟨secret, ⟨⟨hslug, hplain⟩, hsecret⟩, rfl⟩, hvalid⟩
    have hp : INVITE_TOKEN_PREFIX.isPrefixOf (INVITE_TOKEN_PREFIX ++ (slug ++ 95 :: secret)) = true :=
      List.isPrefixOf_iff_prefix.mpr (List.prefix_append _ _)
    have hbounds : ¬ (slug.length = 0 ∨ slug.length = (slug ++ 95 :: secret).length - 1) := by
      have h1 : 0 < slug.length := List.length_pos_iff.mpr hslug
      have h2 : 0 < secret.length := List.length_pos_iff.mpr hsecret
      rw [List.length_append, List.length_cons]
      omega
    simp only [hp, List.drop_left, Split.indexOf_append hplain, if_neg hbounds, List.take_left, hvalid]
    rfl

/-! ## Both languages -/

/-- How the Go services read a token of four parts. -/
def goFields (pre sep raw : Bytes) : Option (Bytes × Bytes × Bytes) :=
  match Go.splitN sep 4 raw with
  | [p, a, b, c] => if p ≠ pre ∨ a = [] ∨ b = [] ∨ c = [] then none else some (a, b, c)
  | _ => none

def utf8Fields : List JsString → Option (Bytes × Bytes × Bytes)
  | [a, b, c] => some (utf8 a, utf8 b, utf8 c)
  | _ => none

theorem utf16_eq_nil_iff : utf16 s = [] ↔ s = [] :=
  ⟨fun h => syncCode_charUnits.flatMap_inj (h.trans List.flatMap_nil.symm), fun h => h ▸ rfl⟩

theorem utf8Text_eq_nil_iff : utf8Text s = [] ↔ s = [] :=
  ⟨fun h => syncCode_charBytes.flatMap_inj (h.trans List.flatMap_nil.symm), fun h => h ▸ rfl⟩

theorem utf16_inj {t : List Char} : utf16 s = utf16 t ↔ s = t :=
  ⟨fun h => syncCode_charUnits.flatMap_inj h, fun h => h ▸ rfl⟩

theorem utf8Text_inj {t : List Char} : utf8Text s = utf8Text t ↔ s = t :=
  ⟨fun h => syncCode_charBytes.flatMap_inj h, fun h => h ▸ rfl⟩

theorem goFields_eq (pre s : List Char) :
    goFields (utf8Text pre) (utf8Text ['_']) (utf8Text s) = (parseFields (utf16 pre) 4 (utf16 s)).bind utf8Fields := by
  have hsep : separator = utf16 ['_'] := by decide
  unfold goFields parseFields
  rw [goSplitN_utf8Text s ['_'] (List.cons_ne_nil _ _) (by decide), hsep,
    splitN_utf16 s ['_'] (List.cons_ne_nil _ _) (by decide), show (4 : Int).toNat = 4 from rfl]
  match Split.splitN ['_'] 4 s with
  | [] | [_] | [_, _] | [_, _, _] => rfl
  | [p, a, b, c] =>
    simp only [List.map_cons, List.map_nil]
    by_cases hp : p ≠ pre ∨ a = [] ∨ b = [] ∨ c = []
    · rw [if_pos (by simpa [utf8Text_inj, utf8Text_eq_nil_iff] using hp),
        if_pos (by simpa [utf16_inj, utf16_eq_nil_iff, eq_comm] using hp)]
      rfl
    · rw [if_neg (by simpa [utf8Text_inj, utf8Text_eq_nil_iff] using hp),
        if_neg (by simpa [utf16_inj, utf16_eq_nil_iff, eq_comm] using hp)]
      simp only [Option.bind_some, utf8Fields, utf8_utf16]
  | _ :: _ :: _ :: _ :: _ :: rest =>
    simp only [List.map_cons]
    rw [if_pos (.inl (by simp; omega))]
    rfl

theorem toOption_parseToken (pre : JsString) (n : Int) (read : List JsString → Option P)
    (message raw : JsString) : (parseToken pre n read message raw).toOption = (parseFields pre n raw).bind read := by
  unfold parseToken
  cases (parseFields pre n raw).bind read <;> rfl

/-- A parser of the control plane and one of Go that make the same of three fields. -/
theorem goFields_map_eq {Q : Type} {pre : List Char} {toGo : P → Q}
    {ofGo : Bytes × Bytes × Bytes → Q} (h : ∀ fs, (read fs).map toGo = (utf8Fields fs).map ofGo)
    (message : JsString) (s : List Char) :
    (goFields (utf8Text pre) (utf8Text ['_']) (utf8Text s)).map ofGo =
      (parseToken (utf16 pre) 4 read message (utf16 s)).toOption.map toGo := by
  rw [goFields_eq, toOption_parseToken, Option.map_bind, Option.map_bind]
  exact congrArg ((parseFields (utf16 pre) 4 (utf16 s)).bind ·) (funext fun fs => (h fs).symm)

theorem parseKey_eq_map (raw : Bytes) :
    parseKey raw = (goFields keyPrefix keySeparator raw).map fun f => ⟨f.1, f.2.1, f.2.2⟩ := by
  unfold parseKey goFields
  generalize Go.splitN keySeparator 4 raw = parts
  match parts with
  | [p, a, b, c] =>
    by_cases hp : p = keyPrefix
    · simp only [hp, ne_eq, not_true, if_false, false_or]
      split <;> rfl
    · simp [hp]
  | [] | [_] | [_, _] | [_, _, _] | _ :: _ :: _ :: _ :: _ :: _ => rfl

theorem parseRefreshToken_eq_map (raw : Bytes) : Logalot.parseRefreshToken raw =
    (goFields refreshPrefix refreshSeparator raw).map fun f => ⟨f.1, f.2.1, f.2.2⟩ := by
  unfold Logalot.parseRefreshToken goFields
  generalize Go.splitN refreshSeparator 4 raw = parts
  match parts with
  | [p, a, b, c] =>
    dsimp only
    split <;> rfl
  | [] | [_] | [_, _] | [_, _, _] | _ :: _ :: _ :: _ :: _ :: _ => rfl

theorem prefixes_utf8 : keyPrefix = utf8Text ['l', 'g', 'k'] ∧ keySeparator = utf8Text ['_'] ∧
    refreshPrefix = utf8Text ['l', 'g', 'r'] ∧ refreshSeparator = utf8Text ['_'] := by decide

theorem prefixes_utf16 : KEY_PREFIX = utf16 ['l', 'g', 'k'] ∧ REFRESH_PREFIX = utf16 ['l', 'g', 'r'] := by decide

theorem parseKey_eq (s : List Char) :
    parseKey (utf8Text s) = (parseApiKey (utf16 s)).toOption.map ParsedApiKey.toGo := by
  rw [parseKey_eq_map, prefixes_utf8.1, prefixes_utf8.2.1, parseApiKey, prefixes_utf16.1]
  refine goFields_map_eq (fun fs => ?_) _ s
  match fs with
  | [] | [_] | [_, _] | [_, _, _] | _ :: _ :: _ :: _ :: _ => rfl

/-- The sessions read a refresh token in UTF-8. -/
theorem parseRefreshToken_eq (s : List Char) :
    Logalot.parseRefreshToken (utf8Text s) = (parseRefreshToken (utf16 s)).toOption.map ParsedRefreshToken.toGo := by
  rw [parseRefreshToken_eq_map, prefixes_utf8.2.2.1, prefixes_utf8.2.2.2, parseRefreshToken, prefixes_utf16.2]
  refine goFields_map_eq (fun fs => ?_) _ s
  match fs with
  | [] | [_] | [_, _] | [_, _, _] | _ :: _ :: _ :: _ :: _ => rfl

/-- **Tokens.** A text is split alike in both languages, a key is read alike, what is written in a format is read
back and what is read is what was written, and the slug of an invite is the valid one that its parser returns. -/
theorem tokens_agree :
    (∀ (s sep : List Char) (n : Int), sep ≠ [] → 1 ≤ n →
      Go.splitN (utf8Text sep) n.toNat (utf8Text s) = (splitN (utf16 s) (utf16 sep) n).map utf8) ∧
    (∀ s : List Char, parseKey (utf8Text s) = (parseApiKey (utf16 s)).toOption.map ParsedApiKey.toGo) ∧
    RoundTrips parseApiKey ParsedApiKey.assemble ParsedApiKey.Plain ∧
    RoundTrips parseRefreshToken ParsedRefreshToken.assemble ParsedRefreshToken.Plain ∧
    RoundTrips parseInviteToken ParsedInviteToken.assemble ParsedInviteToken.Plain ∧
    ∀ token slug, parseInviteTenantSlug token = some slug ↔
      (∃ secret, parseInviteToken token = .ok ⟨slug, secret⟩) ∧ tenantPublicId slug = true :=
  ⟨fun s sep _ hs hn => goSplitN_eq_map_utf8 s sep hs hn, parseKey_eq, .of_iff parseApiKey_eq_ok_iff,
    .of_iff parseRefreshToken_eq_ok_iff, .of_iff parseInviteToken_eq_ok_iff, parseInviteTenantSlug_eq_some_iff⟩

/-- A secret may hold the separator, and a character beyond the basic plane. -/
example : parseApiKey (js "lgk_acme_01_a_b") = .ok ⟨js "acme", js "01", js "a_b"⟩ ∧
    splitN (utf16 ['😀', '_', 'x', '_']) (js "_") 2 = [[0xD83D, 0xDE00], js "x_"] := by decide

end Logalot.TokenFormats
