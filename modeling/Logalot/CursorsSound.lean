import Logalot.Cursors
import Logalot.Lib.Stringify
import Logalot.SavedQueriesSound
import Logalot.WireSound

/-!
# Tokens and positions

Any text is an id for `decodeCursor`, while the database takes UUIDs only. A cursor
comes back from its token if the clock of its zone can be written to the second.
-/

namespace Logalot

open Go Pg

/-! ## Searches with a cursor -/

theorem evalSql_buildSearch_isSome_iff (fts : Fts) (db : LogTable) (tenant : Bytes) (q : SearchQuery) (n : Nat) :
    (∃ events, evalSql fts db (buildSearch tenant q n).sql (buildSearch tenant q n).args = some (.events events)) ↔
      ((searchStmt tenant q n).clauses.mapM Clause.cond).isSome := by
  have hd := (buildSearch_isolates fts tenant q n).denotes
  rw [evalSql, readQuery_of_denotes hd, Stmt.query]
  have hk : queryKind (searchStmt tenant q n).proj (searchStmt tenant q n).tail = some (.newest n) :=
    queryKind_newest n
  rw [hk]
  cases (searchStmt tenant q n).clauses.mapM Clause.cond with
  | none => simp
  | some conds => exact iff_of_true ⟨_, rfl⟩ rfl

theorem search_isSome_iff {fts : Fts} {db : LogTable} {tc : TenantContext} (hv : tc.valid = none) (q : SearchQuery) :
    (search fts db tc q).isSome ↔ (∀ s, q.level = some s → (levelIn s).isSome) ∧
      ∀ c, q.cursor = some c → (uuidIn c.id).isSome := by
  obtain ⟨u, hu⟩ := uuidIn_of_isUUID (TenantContext.isUUID_of_valid hv)
  have hrun : (search fts db tc q).isSome ↔
      ((searchStmt tc.tenantId q (searchLimit q.limit + 1 : Nat)).clauses.mapM Clause.cond).isSome := by
    rw [← evalSql_buildSearch_isSome_iff fts db]
    simp only [search, hv]
    push_cast
    split
    · rename_i events he
      exact iff_of_true rfl ⟨_, he⟩
    · rename_i hne
      refine iff_of_false (by simp) ?_
      rintro ⟨events, he⟩
      exact hne events he
  rw [hrun, mapM_isSome_iff]
  constructor
  · intro h
    refine ⟨fun s hs => ?_, fun c hc => ?_⟩
    · simpa [Clause.cond] using h (.levelEq (.text s)) (by simp [searchStmt, levelClause, hs])
    · simpa [Clause.cond] using h (.keyBefore (.time c.ts) (.text c.id)) (by simp [searchStmt, cursorClause, hc])
  · rintro ⟨hl, hc⟩ v hmem
    have hite : ∀ {p : Prop} [Decidable p] {x : Clause Arg}, v ∈ (if p then [] else [x]) → v = x := by
      intro p _ x hx
      split at hx
      · cases hx
      · exact List.mem_singleton.mp hx
    simp only [searchStmt, List.mem_cons, List.mem_append] at hmem
    rcases hmem with rfl | (((((hx | hx) | hx) | hx) | hx) | hx) | hx
    · simp [Clause.cond, hu]
    · rw [hite hx]
      rfl
    · rw [hite hx]
      rfl
    · rw [hite hx]
      rfl
    · rw [hite hx]
      rfl
    · rw [hite hx]
      rfl
    · obtain ⟨s, hs, rfl⟩ := List.mem_map.mp hx
      simpa [Clause.cond] using hl s (Option.mem_toList.mp hs)
    · obtain ⟨c, hcur, rfl⟩ := List.mem_map.mp hx
      simpa [Clause.cond] using hc c (Option.mem_toList.mp hcur)

/-! ## What is accepted -/

theorem parse_quote (s : Bytes) : ∀ v, Json.parse (34 :: s) = some v → ∃ t, v = .string t := by
  intro v h
  have hws : Json.skipWs (34 :: s) = 34 :: s := rfl
  unfold Json.parse at h
  rw [hws] at h
  unfold Json.scanValue at h
  rw [if_pos rfl] at h
  cases hs : Json.scanString s with
  | none => simp [hs] at h
  | some p =>
    simp only [hs, Option.map_some] at h
    split at h
    · cases h
      exact ⟨_, rfl⟩
    · cases h

theorem unmarshalTime_of_isNull {raw : Bytes} (h : isNull raw = true) : unmarshalTime raw = none := by
  unfold isNull at h
  obtain _ | ⟨c, s⟩ := raw
  · rfl
  · by_cases hc : c = 34
    · subst hc
      obtain ⟨t, ht⟩ := parse_quote s _ (beq_iff_eq.mp h)
      cases ht
    · rw [unmarshalTime, if_neg fun hq => hc hq.1]

section
variable {α : Type} {read : Bytes → Option α} {zero a : α} {raw : Bytes} {raws : List Bytes}

theorem fieldHolds_nil : FieldHolds read zero [] a ↔ a = zero :=
  ⟨fun h => h.last, fun h => ⟨fun _ h => absurd h List.not_mem_nil, h⟩⟩

theorem fieldHolds_cons : FieldHolds read zero (raw :: raws) a ↔
    (isNull raw = true ∨ (read raw).isSome) ∧ FieldHolds read ((read raw).getD zero) raws a := by
  have hlast : ((raw :: raws).filterMap read).getLast?.getD zero =
      (raws.filterMap read).getLast?.getD ((read raw).getD zero) := by
    cases hr : read raw with
    | none => rw [List.filterMap_cons_none hr, Option.getD_none]
    | some b => simp [List.filterMap_cons_some hr, List.getLast?_cons]
  constructor
  · rintro ⟨ht, hl⟩
    obtain ⟨h1, h2⟩ := List.forall_mem_cons.mp ht
    exact ⟨h1, h2, hl.trans hlast⟩
  · rintro ⟨h1, h2, hl⟩
    exact ⟨List.forall_mem_cons.mpr ⟨h1, h2⟩, hl.trans hlast.symm⟩

end

theorem namedMembers_cons (name : Bytes) (m : Bytes × Bytes) (ms : List (Bytes × Bytes)) :
    namedMembers name (m :: ms) =
      if Json.foldName m.1 = Json.foldName name then m.2 :: namedMembers name ms else namedMembers name ms := by
  unfold namedMembers
  rw [List.filter_cons]
  by_cases h : Json.foldName m.1 = Json.foldName name
  · rw [if_pos (decide_eq_true h), if_pos h, List.map_cons]
  · rw [if_neg (by simpa using h), if_neg h]

theorem store_time (c : Cursor) {m : Bytes × Bytes} (hm : Json.foldName m.1 = Json.foldName (bs "ts")) :
    c.store m = if isNull m.2 = true ∨ (unmarshalTime m.2).isSome then
      some { c with ts := (unmarshalTime m.2).getD c.ts } else none := by
  rw [Cursor.store, if_pos hm]
  by_cases hn : isNull m.2 = true
  · rw [if_pos hn, if_pos (.inl hn), unmarshalTime_of_isNull hn]
    rfl
  · rw [if_neg hn]
    cases ht : unmarshalTime m.2 with
    | none => simp [hn]
    | some t => simp

theorem store_id (c : Cursor) {m : Bytes × Bytes} (ht : Json.foldName m.1 ≠ Json.foldName (bs "ts"))
    (hm : Json.foldName m.1 = Json.foldName (bs "id")) :
    c.store m = if isNull m.2 = true ∨ (stringOf m.2).isSome then
      some { c with id := (stringOf m.2).getD c.id } else none := by
  rw [Cursor.store, if_neg ht, if_pos hm, storeString_eq]
  split <;> rfl

theorem foldlM_store {members : List (Bytes × Bytes)} {c₀ c : Cursor} : members.foldlM Cursor.store c₀ = some c ↔
    FieldHolds unmarshalTime c₀.ts (namedMembers (bs "ts") members) c.ts ∧
      FieldHolds stringOf c₀.id (namedMembers (bs "id") members) c.id := by
  have hne : Json.foldName (bs "ts") ≠ Json.foldName (bs "id") := by decide
  induction members generalizing c₀ with
  | nil =>
    rw [List.foldlM_nil]
    simp only [namedMembers, List.filter_nil, List.map_nil, fieldHolds_nil]
    constructor
    · rintro h
      cases h
      exact ⟨rfl, rfl⟩
    · rintro ⟨h1, h2⟩
      cases c₀
      cases c
      exact congrArg some (by simp_all)
  | cons m ms ih =>
    rw [List.foldlM_cons, namedMembers_cons, namedMembers_cons]
    by_cases ht : Json.foldName m.1 = Json.foldName (bs "ts")
    · rw [if_pos ht, if_neg (ht ▸ hne), store_time c₀ ht, fieldHolds_cons]
      by_cases hok : isNull m.2 = true ∨ (unmarshalTime m.2).isSome
      · rw [if_pos hok]
        simp only [Option.bind_eq_bind, Option.bind_some, ih, hok, true_and]
      · rw [if_neg hok]
        exact iff_of_false (by simp) fun h => hok h.1.1
    · rw [if_neg ht]
      by_cases hi : Json.foldName m.1 = Json.foldName (bs "id")
      · rw [if_pos hi, store_id c₀ ht hi, fieldHolds_cons]
        by_cases hok : isNull m.2 = true ∨ (stringOf m.2).isSome
        · rw [if_pos hok]
          simp only [Option.bind_eq_bind, Option.bind_some, ih, hok, true_and]
        · rw [if_neg hok]
          exact iff_of_false (by simp) fun h => hok h.2.1
      · rw [if_neg hi, Cursor.store, if_neg ht, if_neg hi]
        exact ih

theorem decodeCursor_eq_ok_iff (token : Bytes) (c : Cursor) :
    decodeCursor token = .ok (some c) ↔ c.IsIn token ∧ c.id ≠ [] ∧ c.ts ≠ zeroTime := by
  have hzero : isZero c.ts = true ↔ c.ts = zeroTime := beq_iff_eq
  have hun : ∀ raw, c.id ≠ [] → (Cursor.unmarshal raw = some c ↔
      ∃ members, Json.parse raw = some (.object members) ∧ members.foldlM Cursor.store ⟨zeroTime, []⟩ = some c) := by
    intro raw hid
    unfold Cursor.unmarshal
    split
    · rename_i hnull
      simp only [hnull, Option.some.injEq, reduceCtorEq, false_and, exists_false, iff_false]
      rintro rfl
      exact hid rfl
    · rename_i members hp
      simp [hp]
    · rename_i hno hobj
      simp only [reduceCtorEq, false_iff]
      rintro ⟨members, hp, -⟩
      exact hobj members hp
  unfold decodeCursor
  by_cases ht : token = []
  · rw [if_pos ht, ht]
    refine iff_of_false (by simp) ?_
    rintro ⟨⟨raw, members, hd, hp, -⟩, -⟩
    cases hd
    cases hp
  · rw [if_neg ht]
    constructor
    · intro h
      split at h
      · cases h
      · rename_i c' hc
        split at h
        · cases h
        · rename_i hok
          cases h
          obtain ⟨hid, hts⟩ := not_or.mp hok
          obtain ⟨raw, hd, hu⟩ := Option.bind_eq_some_iff.mp hc
          obtain ⟨members, hp, hf⟩ := (hun raw hid).mp hu
          exact ⟨⟨raw, members, hd, hp, foldlM_store.mp hf⟩, hid, fun hz => hts (hzero.mpr hz)⟩
    · rintro ⟨⟨raw, members, hd, hp, hf⟩, hid, hz⟩
      have hc : (Base64.decode token).bind Cursor.unmarshal = some c := by
        rw [hd, Option.bind_some, hun raw hid]
        exact ⟨members, hp, foldlM_store.mpr hf⟩
      rw [hc]
      exact if_neg (not_or.mpr ⟨hid, fun ht => hz (hzero.mp ht)⟩)

/-! ## What is written -/

theorem scans_plain {s : Bytes} (h : ∀ c ∈ s, Json.isPlain c = true) (k : Nat) :
    Js.Scans k (34 :: s ++ [34]) (.string s) where
  skip _ := rfl
  scan n d t hn _ := by
    cases n with
    | zero => exact absurd hn (by simp)
    | succ n =>
      have hcons : 34 :: s ++ [34] ++ t = 34 :: (s ++ 34 :: t) := by simp
      rw [hcons]
      unfold Json.scanValue
      rw [if_pos rfl, Json.scanString_plain h, Option.map_some, Json.unquote_plain h]

theorem quoteFrom_plain {s : Bytes} (h : ∀ c ∈ s, Json.isPlain c = true ∧ Json.isHtml c = false) :
    Json.quoteFrom 0 s = s := by
  have hbyte : ∀ c, Json.isPlain c = true → Json.isHtml c = false → c < 0x80 ∧ Json.quoteByte c = [c] := by
    decide +kernel
  induction s with
  | nil => rfl
  | cons c s ih =>
    obtain ⟨⟨hp, hh⟩, hs⟩ := List.forall_mem_cons.mp h
    obtain ⟨hlt, hq⟩ := hbyte c hp hh
    rw [Json.quoteFrom, Json.quoteChar, if_pos hlt, hq]
    exact congrArg (c :: ·) (ih hs)

theorem reads_uuidFrom {c : UInt8} : ∀ {n : Nat} {s rest : Bytes} {ds : List UInt8}, uuidFrom n s = some (ds, rest) →
    c ∈ s → (hexVal c).isSome ∨ c = 45 ∨ c ∈ rest
  | 0, s, rest, ds, h, hc => by
    cases h
    exact .inr (.inr hc)
  | n + 1, [], rest, ds, h, hc => absurd hc List.not_mem_nil
  | n + 1, [a], rest, ds, h, hc => by cases h
  | n + 1, a :: b :: s, rest, ds, h, hc => by
    rw [uuidFrom] at h
    cases hp : hexPair a b with
    | none => simp [hp] at h
    | some d =>
      simp only [hp] at h
      obtain ⟨r, hr, he⟩ := Option.map_eq_some_iff.mp h
      cases he
      have hpair : (hexVal a).isSome ∧ (hexVal b).isSome := by
        unfold hexPair at hp
        cases ha : hexVal a <;> cases hb : hexVal b <;> simp_all
      rcases List.mem_cons.mp hc with rfl | hc
      · exact .inl hpair.1
      rcases List.mem_cons.mp hc with rfl | hc
      · exact .inl hpair.2
      by_cases hh : c = 45
      · exact .inr (.inl hh)
      · refine reads_uuidFrom hr ?_
        unfold skipHyphen
        split
        · rename_i hhead
          obtain _ | ⟨e, s⟩ := s
          · cases hc
          · cases hhead.1
            exact (List.mem_cons.mp hc).resolve_left hh
        · exact hc

theorem plain_of_uuidIn {s : Bytes} {u : Uuid} (h : uuidIn s = some u) :
    ∀ c ∈ s, Json.isPlain c = true ∧ Json.isHtml c = false := by
  have hhex : ∀ c : UInt8, (hexVal c).isSome → Json.isPlain c = true ∧ Json.isHtml c = false := by decide +kernel
  intro c hc
  by_cases hb : s.head? = some 123
  · simp only [uuidIn, hb, if_true] at h
    split at h
    · cases h
    · rename_i ds rest hfrom
      split at h
      · rename_i hend
        obtain _ | ⟨e, s⟩ := s
        · cases hb
        · cases hb
          rcases List.mem_cons.mp hc with rfl | hc
          · decide
          rcases reads_uuidFrom hfrom hc with hx | rfl | hx
          · exact hhex c hx
          · decide
          · rw [hend.1, List.mem_singleton] at hx
            rw [hx]
            decide
      · cases h
  · simp only [uuidIn, hb, if_false] at h
    split at h
    · cases h
    · rename_i ds rest hfrom
      split at h
      · rename_i hend
        rcases reads_uuidFrom hfrom hc with hx | rfl | hx
        · exact hhex c hx
        · decide
        · rw [hend.1] at hx
          cases hx
      · cases h

theorem unmarshalTime_quoted (s : Bytes) : unmarshalTime (34 :: s ++ [34]) = parseRFC3339 s := by
  rw [List.cons_append, unmarshalTime, if_pos ⟨rfl, by simp⟩, List.dropLast_concat]

theorem encodeObject_cursor (ts id : Bytes) :
    Json.encodeObject [(bs "ts", ts), (bs "id", id)] = Js.objectText [(Js.js "ts", ts), (Js.js "id", id)] := by
  have hts : Json.quote (bs "ts") = Js.stringify (Js.js "ts") := by decide
  have hid : Json.quote (bs "id") = Js.stringify (Js.js "id") := by decide
  simp [Json.encodeObject, Js.objectText, Js.membersText, List.intercalate, hts, hid]

theorem unmarshal_marshalIn {offset : Int} {c : Cursor} {u : Uuid} (hid : uuidIn c.id = some u) {raw : Bytes}
    (h : c.marshalIn offset = some raw) :
    Cursor.unmarshal raw = some ⟨c.ts + (offset - offset.tdiv 60 * 60) * 1000000000, c.id⟩ := by
  obtain ⟨b, hb, rfl⟩ := Option.map_eq_some_iff.mp h
  obtain ⟨hoff, hy, rfl⟩ := marshalTimeIn_eq_some_iff.mp hb
  have hparse := parseRFC3339_formatIn hoff hy
  have hplain := plain_of_uuidIn hid
  have htime := scans_plain (isPlain_of_parseRFC3339 hparse) 0
  have hlit := scans_plain (fun d hd => (hplain d hd).1) 0
  have hquote : Json.quote c.id = 34 :: c.id ++ [34] := by rw [Json.quote, quoteFrom_plain hplain]
  have hscans : ∀ m ∈ [(Js.js "ts", 34 :: formatIn offset c.ts ++ [34]), (Js.js "id", 34 :: c.id ++ [34])],
      ∃ v, Js.Scans 0 m.2 v :=
    List.forall_mem_cons.mpr ⟨⟨_, htime⟩, List.forall_mem_singleton.mpr ⟨_, hlit⟩⟩
  have hobj := (Js.scans_objectText hscans).parse (by decide)
  have hkeys : Js.utf8 (Js.js "ts") = bs "ts" ∧ Js.utf8 (Js.js "id") = bs "id" := by decide
  have hread : unmarshalTime (34 :: formatIn offset c.ts ++ [34]) =
      some (c.ts + (offset - offset.tdiv 60 * 60) * 1000000000) := by
    rw [unmarshalTime_quoted, hparse]
  have hstring : stringOf (34 :: c.id ++ [34]) = some c.id := by
    rw [stringOf, hlit.parse (Nat.zero_le _)]
  rw [List.map_cons, List.map_cons, List.map_nil, hkeys.1, hkeys.2] at hobj
  rw [hquote, encodeObject_cursor]
  unfold Cursor.unmarshal
  rw [hobj]
  refine foldlM_store.mpr ?_
  have hne : Json.foldName (bs "ts") ≠ Json.foldName (bs "id") := by decide
  have hts : namedMembers (bs "ts") [(bs "ts", 34 :: formatIn offset c.ts ++ [34]), (bs "id", 34 :: c.id ++ [34])] =
      [34 :: formatIn offset c.ts ++ [34]] := by
    rw [namedMembers_cons, if_pos rfl, namedMembers_cons, if_neg hne.symm]
    rfl
  have hids : namedMembers (bs "id") [(bs "ts", 34 :: formatIn offset c.ts ++ [34]), (bs "id", 34 :: c.id ++ [34])] =
      [34 :: c.id ++ [34]] := by
    rw [namedMembers_cons, if_neg hne, namedMembers_cons, if_pos rfl]
    rfl
  rw [hts, hids, fieldHolds_cons, fieldHolds_cons, hread, hstring, fieldHolds_nil, fieldHolds_nil]
  exact ⟨⟨.inr rfl, rfl⟩, .inr rfl, rfl⟩

theorem decodeCursor_encodeCursorIn {offset : Int} {c : Cursor} {u : Uuid} (hid : uuidIn c.id = some u)
    (hz : c.ts ≠ zeroTime) : decodeCursor (encodeCursorIn offset (some c)) = .ok (some c) ↔
      offset.natAbs < 86400 ∧ 60 ∣ offset ∧ fourDigit (unixDay (c.ts + offset * 1000000000)) := by
  have hne : c.id ≠ [] := fun e => by
    rw [e] at hid
    cases hid
  have hwritten : ∀ raw, c.marshalIn offset = some raw → encodeCursorIn offset (some c) = Base64.encode raw := by
    intro raw hm
    rw [encodeCursorIn, Option.bind_some, hm]
    rfl
  constructor
  · intro h
    cases hm : c.marshalIn offset with
    | none =>
      rw [encodeCursorIn, Option.bind_some, hm] at h
      cases h
    | some raw =>
      obtain ⟨b, hb, -⟩ := Option.map_eq_some_iff.mp hm
      obtain ⟨hoff, hy, -⟩ := marshalTimeIn_eq_some_iff.mp hb
      have hun := unmarshal_marshalIn hid hm
      rw [hwritten raw hm, decodeCursor, Base64.decode_encode, Option.bind_some, hun] at h
      split at h
      · cases h
      · dsimp only at h
        split at h
        · cases h
        · have hts : c.ts + (offset - offset.tdiv 60 * 60) * 1000000000 = c.ts :=
            congrArg Cursor.ts (Option.some.inj (Except.ok.inj h))
          have hsec : (offset - offset.tdiv 60 * 60) * 1000000000 = 0 := by linarith
          exact ⟨hoff, ⟨offset.tdiv 60, by omega⟩, hy⟩
  · rintro ⟨hoff, hmin, hy⟩
    have hb := marshalTimeIn_eq_some_iff.mpr ⟨hoff, hy, rfl⟩
    have hm : c.marshalIn offset = some _ := Option.map_eq_some_iff.mpr ⟨_, hb, rfl⟩
    have hun := unmarshal_marshalIn hid hm
    rw [Int.tdiv_mul_cancel hmin, sub_self, zero_mul, add_zero] at hun
    have hraw : Base64.encode (Json.encodeObject [(bs "ts", 34 :: formatIn offset c.ts ++ [34]),
        (bs "id", Json.quote c.id)]) ≠ [] := Base64.encode_ne_nil (List.cons_ne_nil _ _)
    rw [hwritten _ hm, decodeCursor, if_neg hraw, Base64.decode_encode, Option.bind_some, hun]
    exact if_neg (not_or.mpr ⟨hne, fun h => hz (beq_iff_eq.mp h)⟩)

/-- **Tokens.** What is accepted can be bound exactly for the tokens whose id is a UUID or empty, or whose time is
zero. A cursor with a UUID comes back from its token exactly in the zones of whole minutes, less than a day from UTC,
whose clock shows a year of four digits. -/
theorem cursor_tokens_iff (token : Bytes) (offset : Int) (c : Cursor) (hid : (uuidIn c.id).isSome)
    (hz : c.ts ≠ zeroTime) :
    ((∀ d, decodeCursor token = .ok (some d) → d.Binds) ↔
      ∀ d : Cursor, d.IsIn token → d.id = [] ∨ d.ts = zeroTime ∨ (uuidIn d.id).isSome) ∧
    (decodeCursor (encodeCursorIn offset (some c)) = .ok (some c) ↔
      offset.natAbs < 86400 ∧ 60 ∣ offset ∧ fourDigit (unixDay (c.ts + offset * 1000000000))) := by
  obtain ⟨u, hu⟩ := Option.isSome_iff_exists.mp hid
  refine ⟨⟨fun h d hin => ?_, fun h d hd => ?_⟩, decodeCursor_encodeCursorIn hu hz⟩
  · by_cases hne : d.id = []
    · exact .inl hne
    · by_cases hzero : d.ts = zeroTime
      · exact .inr (.inl hzero)
      · exact .inr (.inr (h d ((decodeCursor_eq_ok_iff token d).mpr ⟨hin, hne, hzero⟩)).1)
  · obtain ⟨hin, hne, hzero⟩ := (decodeCursor_eq_ok_iff token d).mp hd
    have hok := ((h d hin).resolve_left hne).resolve_left hzero
    refine ⟨hok, fun fts db tc q hv hl => ?_⟩
    refine (search_isSome_iff hv _).mpr ⟨hl, ?_⟩
    rintro d' ⟨rfl⟩
    exact hok

/-- A token with the id `x`: it is accepted, and every search of a tenant with it fails. -/
theorem tampered_token_accepted :
    decodeCursor (Base64.encode (bs "\x7b\"ts\":\"2026-01-01T00:00:00Z\",\"id\":\"x\"\x7d")) =
        .ok (some ⟨1767225600000000000, bs "x"⟩) ∧
      ¬ Cursor.Binds ⟨1767225600000000000, bs "x"⟩ ∧
      ∀ (fts : Fts) (db : LogTable) (tc : TenantContext) (q : SearchQuery), tc.valid = none →
        search fts db tc { q with cursor := some ⟨1767225600000000000, bs "x"⟩ } = none := by
  refine ⟨by decide, fun h => absurd h.1 (by decide), fun fts db tc q hv => ?_⟩
  have hnot : ¬ (uuidIn (bs "x")).isSome := by decide
  have hsearch := @search_isSome_iff fts db tc hv { q with cursor := some ⟨1767225600000000000, bs "x"⟩ }
  simpa using mt hsearch.mp fun h => hnot (h.2 _ rfl)

theorem january_cursor_back :
    decodeCursor (encodeCursorIn 3600 (some ⟨1767225600000000000, uuidOut (.rep 17)⟩)) =
      .ok (some ⟨1767225600000000000, uuidOut (.rep 17)⟩) :=
  (cursor_tokens_iff [] 3600 ⟨1767225600000000000, uuidOut (.rep 17)⟩ (by decide) (by decide)).2.mpr
    (by decide)

/-- The offset of Berlin before 1893 has seconds. -/
example : decodeCursor (encodeCursorIn 3208 (some ⟨-5000000000000000000, uuidOut (.rep 17)⟩)) =
    .ok (some ⟨-4999999972000000000, uuidOut (.rep 17)⟩) := by decide

theorem encodeCursorIn_zero (c : Option Cursor) : encodeCursorIn 0 c = encodeCursor c := by
  have hm : ∀ t, marshalTimeIn 0 t = marshalTime t := by
    intro t
    have hbad : badZoneHour (formatIn 0 t) = false := by
      rw [formatIn, badZoneHour_formatZone]
      rfl
    rw [formatIn_zero] at hbad
    simp only [marshalTimeIn, marshalTime, hbad, and_true, formatIn_zero]
  have hc : Cursor.marshalIn 0 = Cursor.marshal := by
    funext c
    rw [Cursor.marshalIn, Cursor.marshal, hm]
  rw [encodeCursorIn, encodeCursor, hc]

end Logalot
