import Logalot.AlertQuery

/-!
# White space on both sides

U+0085 is white space to `strings.TrimSpace` and not to `String.prototype.trim`.
With U+FEFF it is the other way round, but the schema has cut it off where it would
matter.
-/

namespace Logalot

open Go Js

/-! ## Decoding -/

namespace AlertConfig

def RuleQuery.decoded (query : RuleQuery) : Logalot.RuleQuery :=
  { text := query.text.elim [] utf8
    service := query.service.elim [] utf8
    level := query.level.map Level.text
    labels := query.labels.elim [] fun labels => labels.foldl (fun out p => putLabel out (utf8 p.1) (utf8 p.2)) [] }

end AlertConfig

open AlertConfig

theorem parse_stringify (s : JsString) : Json.parse (stringify s) = some (.string (utf8 s)) :=
  (scans_stringify 0 s).parse (Nat.zero_le _)

theorem storeString_stringify (old : Bytes) (s : JsString) : storeString old (stringify s) = some (utf8 s) := by
  unfold storeString
  rw [parse_stringify]

theorem decodeString_stringify (s : JsString) : Json.decodeString (stringify s) = some (utf8 s) := by
  unfold Json.decodeString
  rw [parse_stringify]

theorem unmarshalLevel_name (l : Level) : unmarshalLevel (stringify (levelName l)) = some l := by
  unfold unmarshalLevel
  rw [decodeString_stringify]
  cases l <;> decide

theorem isNull_stringify (s : JsString) : isNull (stringify s) = false := by
  unfold isNull
  rw [parse_stringify]
  rfl

def labelsText (labels : List (JsString × JsString)) : Bytes := objectText (labels.map fun p => (p.1, stringify p.2))

theorem scans_labelsText (labels : List (JsString × JsString)) :
    Scans 1 (labelsText labels) (.object (labels.map fun p => (utf8 p.1, stringify p.2))) := by
  have h := @scans_objectText 0 (labels.map fun p => (p.1, stringify p.2)) fun m hm => by
    obtain ⟨p, -, rfl⟩ := List.mem_map.mp hm
    exact ⟨_, scans_stringify 0 p.2⟩
  rwa [List.map_map] at h

theorem storeStringMap_labelsText (old : Labels) (labels : List (JsString × JsString)) :
    storeStringMap old (labelsText labels) =
      some (labels.foldl (fun out p => putLabel out (utf8 p.1) (utf8 p.2)) old) := by
  unfold storeStringMap
  rw [(scans_labelsText labels).parse (by decide)]
  dsimp only
  induction labels generalizing old with
  | nil => rfl
  | cons p labels ih =>
    rw [List.map_cons, List.foldlM_cons, decodeString_stringify]
    exact ih _

theorem parse_query (query : AlertConfig.RuleQuery) :
    Json.parse query.stringify = some (.object (query.members.map fun m => (utf8 m.1, m.2))) := by
  refine (scans_objectText (k := 1) fun m hm => ?_).parse (by decide)
  unfold AlertConfig.RuleQuery.members at hm
  simp only [List.mem_append, List.mem_map] at hm
  rcases hm with ((⟨s, -, rfl⟩ | ⟨s, -, rfl⟩) | ⟨l, -, rfl⟩) | ⟨labels, -, rfl⟩
  · exact ⟨_, scans_stringify 1 s⟩
  · exact ⟨_, scans_stringify 1 s⟩
  · exact ⟨_, scans_stringify 1 _⟩
  · exact ⟨_, scans_labelsText labels⟩

/-! Each field of the object is stored in its own field. -/

section
variable (q : RuleQuery)

theorem store_text (s : JsString) : q.store (utf8 (js "text"), stringify s) = some { q with text := utf8 s } := by
  have hname : Json.foldName (utf8 (js "text")) = Json.foldName (bs "text") := by decide
  unfold RuleQuery.store
  rw [if_pos hname, storeString_stringify]
  rfl

theorem store_service (s : JsString) :
    q.store (utf8 (js "service"), stringify s) = some { q with service := utf8 s } := by
  have hname : Json.foldName (utf8 (js "service")) = Json.foldName (bs "service") := by decide
  unfold RuleQuery.store
  rw [hname, if_neg (by decide), if_pos rfl, storeString_stringify]
  rfl

theorem store_level (l : Level) :
    q.store (utf8 (js "level"), stringify (levelName l)) = some { q with level := some l.text } := by
  have hname : Json.foldName (utf8 (js "level")) = Json.foldName (bs "level") := by decide
  unfold RuleQuery.store
  rw [hname, if_neg (by decide), if_neg (by decide), if_pos rfl, isNull_stringify, unmarshalLevel_name]
  rfl

theorem store_labels (labels : List (JsString × JsString)) :
    q.store (utf8 (js "labels"), labelsText labels) =
      some { q with labels := labels.foldl (fun out p => putLabel out (utf8 p.1) (utf8 p.2)) q.labels } := by
  have hname : Json.foldName (utf8 (js "labels")) = Json.foldName (bs "labels") := by decide
  unfold RuleQuery.store
  rw [hname, if_neg (by decide), if_neg (by decide), if_neg (by decide), if_pos rfl, storeStringMap_labelsText]
  rfl

theorem store_optional {α : Type} {name : JsString} {value : α → Bytes} {set : α → RuleQuery}
    (h : ∀ a, q.store (utf8 name, value a) = some (set a)) (o : Option α) :
    ((o.toList.map fun a => (name, value a)).map fun m => (utf8 m.1, m.2)).foldlM RuleQuery.store q =
      some (o.elim q set) := by
  cases o with
  | none => rfl
  | some a => simp [h]

end

theorem scanQuery_stringify (query : AlertConfig.RuleQuery) : scanQuery query.stringify = some query.decoded := by
  have hne : query.stringify ≠ [] := List.cons_ne_nil _ _
  unfold scanQuery
  rw [if_neg hne, parse_query]
  dsimp only
  rw [AlertConfig.RuleQuery.members, List.map_append, List.map_append, List.map_append, List.foldlM_append,
    List.foldlM_append, List.foldlM_append, store_optional _ (store_text _), Option.bind_eq_bind, Option.bind_some,
    store_optional _ (store_service _), Option.bind_some, store_optional _ (store_level _), Option.bind_some]
  refine (store_optional _ (store_labels _) _).trans ?_
  unfold AlertConfig.RuleQuery.decoded
  cases query.text <;> cases query.service <;> cases query.level <;> cases query.labels <;> rfl

/-! ## White space -/

def isUnicodeSpace (c : UInt16) : Bool := c.toNat ∈ spaceValues

theorem spaceValues_lt : ∀ r ∈ spaceValues, r < 0xD800 := by decide

theorem codePoints_space (s : JsString) : (∀ r ∈ codePoints s, r ∈ spaceValues) ↔ ∀ c ∈ s, isUnicodeSpace c = true := by
  induction s using codePoints.induct with
  | case1 => simp [codePoints]
  | case2 c => simp [codePoints, isUnicodeSpace]
  | case3 c d s h ih =>
    rw [codePoints, if_pos h]
    refine iff_of_false (fun hall => ?_) (fun hall => ?_)
    · have hlt := spaceValues_lt _ (hall _ List.mem_cons_self)
      have hge := (pairValue_bounds h).1
      omega
    · have hc : c.toNat ∈ spaceValues := by simpa [isUnicodeSpace] using hall c List.mem_cons_self
      have hlt := spaceValues_lt _ hc
      have hge := (isHigh_iff.mp (Bool.and_eq_true_iff.mp h).1).1
      omega
  | case4 c d s h ih =>
    rw [codePoints, if_neg h, List.forall_mem_cons, List.forall_mem_cons, ih]
    simp [isUnicodeSpace]

theorem trimSpace_utf8 (s : JsString) : trimSpace (utf8 s) = [] ↔ ∀ c ∈ s, isUnicodeSpace c = true := by
  rw [utf8, trimSpace_encoded (codePoints_lt s), codePoints_space]

theorem isSpace_head_trim {s t : JsString} {c : UInt16} (h : trim s = c :: t) : isSpace c = false := by
  unfold trim at h
  obtain ⟨r, hr⟩ : ∃ r, s.dropWhile isSpace = c :: r := by
    obtain ⟨r, hr⟩ := List.rdropWhile_prefix isSpace (s.dropWhile isSpace)
    rw [h] at hr
    exact ⟨t ++ r, hr.symm⟩
  have hne : s.dropWhile isSpace ≠ [] := by rw [hr]; exact List.cons_ne_nil _ _
  have hhead := List.head_dropWhile_not isSpace hne
  simpa [hr] using hhead

theorem trim_trim_eq_nil {s : JsString} : trim (trim s) = [] ↔ trim s = [] := by
  constructor
  · intro h
    cases hs : trim s with
    | nil => rfl
    | cons c t =>
      have hc := isSpace_head_trim hs
      rw [hs] at h
      have hd : (c :: t).dropWhile isSpace = c :: t := by simp [hc]
      unfold trim at h
      rw [hd, List.rdropWhile_eq_nil_iff] at h
      exact absurd (h c List.mem_cons_self) (by rw [hc]; decide)
  · intro h
    rw [h]
    rfl

theorem eq_nextLine {c : UInt16} (h : isUnicodeSpace c = true) (hs : isSpace c = false) : c = 0x85 := by
  have hall : ∀ r ∈ spaceValues, isSpace (UInt16.ofNat r) = true ∨ r = 0x85 := by decide
  rcases hall c.toNat (by simpa [isUnicodeSpace] using h) with hc | hc
  · rw [UInt16.ofNat_toNat, hs] at hc
    cases hc
  · exact UInt16.toNat_inj.mp hc

theorem nextLine_mem_trim {s : JsString} (hb : ∀ c ∈ trim s, isUnicodeSpace c = true) :
    trim s ≠ [] ↔ 0x85 ∈ trim s := by
  constructor
  · intro hne
    cases hs : trim s with
    | nil => exact absurd hs hne
    | cons c t =>
      rw [hs] at hb
      rw [eq_nextLine (hb c List.mem_cons_self) (isSpace_head_trim hs)]
      exact List.mem_cons_self
  · exact fun hm hnil => by rw [hnil] at hm; cases hm

/-! ## Agreement -/

def AlertConfig.RuleQuery.texts (query : AlertConfig.RuleQuery) : List JsString :=
  query.text.toList ++ query.service.toList

/-- All that the query has are texts that are blank to the evaluator, and one of them has U+0085. -/
structure OnlyNextLines (query : AlertConfig.RuleQuery) : Prop where
  level : query.level = none
  labels : query.labels.getD [] = []
  blank : ∀ s ∈ query.texts, ∀ c ∈ s, isUnicodeSpace c = true
  nextLine : ∃ s ∈ query.texts, 0x85 ∈ s

theorem trimSpace_text (o : Option JsString) :
    trimSpace (o.elim [] utf8) = [] ↔ ∀ s ∈ o.toList, ∀ c ∈ s, isUnicodeSpace c = true := by
  cases o with
  | none => exact iff_of_true rfl fun _ h => absurd h List.not_mem_nil
  | some s =>
    rw [Option.elim_some, trimSpace_utf8, Option.toList_some]
    simp

theorem putLabel_ne_nil (out : Labels) (k v : Bytes) : putLabel out k v ≠ [] := by
  unfold putLabel
  split
  · rename_i h
    intro hnil
    rw [List.map_eq_nil_iff.mp hnil] at h
    cases h
  · simp

theorem putLabels_eq_nil {labels : List (JsString × JsString)} :
    labels.foldl (fun out p => putLabel out (utf8 p.1) (utf8 p.2)) [] = [] ↔ labels = [] := by
  constructor
  · intro h
    cases labels using List.reverseRecOn with
    | nil => rfl
    | append_singleton l p =>
      rw [List.foldl_append] at h
      exact absurd h (putLabel_ne_nil _ _ _)
  · rintro rfl
    rfl

theorem isEmpty_decoded (query : AlertConfig.RuleQuery) :
    query.decoded.isEmpty = true ↔
      (∀ s ∈ query.texts, ∀ c ∈ s, isUnicodeSpace c = true) ∧ query.level = none ∧ query.labels.getD [] = [] := by
  have hlabels : query.decoded.labels = [] ↔ query.labels.getD [] = [] := by
    unfold AlertConfig.RuleQuery.decoded
    cases query.labels with
    | none => exact iff_of_true rfl rfl
    | some labels => exact putLabels_eq_nil
  have hlevel : query.decoded.level = none ↔ query.level = none := Option.map_eq_none_iff
  unfold RuleQuery.isEmpty AlertConfig.RuleQuery.texts
  rw [decide_eq_true_eq, hlabels, hlevel, List.forall_mem_append, ← trimSpace_text, ← trimSpace_text, and_assoc]
  rfl

theorem nonBlank_trimmed (o : Option JsString) : nonBlank (o.map trim) = true ↔ ∃ s ∈ (o.map trim).toList, s ≠ [] := by
  cases o with
  | none => exact iff_of_false (by decide) fun ⟨_, h, _⟩ => absurd h List.not_mem_nil
  | some s =>
    have hiff : trim (trim s) ≠ [] ↔ trim s ≠ [] := not_congr trim_trim_eq_nil
    simp [nonBlank, hiff]

theorem hasInlineQuery_trimmed (query : AlertConfig.RuleQuery) :
    hasInlineQuery (trimQuery query) = true ↔
      (∃ s ∈ (trimQuery query).texts, s ≠ []) ∨ query.level ≠ none ∨ query.labels.getD [] ≠ [] := by
  have hlabels : (query.labels.any fun labels => labels != []) = true ↔ query.labels.getD [] ≠ [] := by
    cases query.labels with
    | none => simp
    | some labels => simp
  have hlevel : query.level.isSome = true ↔ query.level ≠ none := Option.isSome_iff_ne_none
  have htexts : (∃ s ∈ (trimQuery query).texts, s ≠ []) ↔
      nonBlank (query.text.map trim) = true ∨ nonBlank (query.service.map trim) = true := by
    rw [nonBlank_trimmed, nonBlank_trimmed]
    simp only [AlertConfig.RuleQuery.texts, trimQuery, List.mem_append, or_and_right, exists_or]
  rw [htexts, ← hlevel, ← hlabels]
  simp only [hasInlineQuery, trimQuery, Bool.or_eq_true, or_assoc]

theorem exists_nextLine {query : AlertConfig.RuleQuery}
    (hb : ∀ s ∈ (trimQuery query).texts, ∀ c ∈ s, isUnicodeSpace c = true) :
    (∃ s ∈ (trimQuery query).texts, s ≠ []) ↔ ∃ s ∈ (trimQuery query).texts, 0x85 ∈ s := by
  refine exists_congr fun t => and_congr_right fun ht => ?_
  obtain ⟨s, rfl⟩ : ∃ s, t = trim s := by
    simp only [AlertConfig.RuleQuery.texts, trimQuery, List.mem_append, Option.mem_toList,
      Option.map_eq_some_iff] at ht
    rcases ht with ⟨s, -, rfl⟩ | ⟨s, -, rfl⟩
    · exact ⟨s, rfl⟩
    · exact ⟨s, rfl⟩
  exact nextLine_mem_trim (hb _ ht)

/-- **Contract and evaluator.** A query that the contract accepts is decoded, and both sides agree whether it has
a filter exactly when it is not made of U+0085 and white space. -/
theorem inline_agrees_iff {raw query : AlertConfig.RuleQuery} (h : ruleQuerySchema raw = .ok query) :
    ∃ q, scanQuery query.stringify = some q ∧ ((hasInlineQuery query = !q.isEmpty) ↔ ¬ OnlyNextLines query) := by
  obtain rfl : trimQuery raw = query := by
    unfold ruleQuerySchema at h
    split at h
    · cases h
    · exact Except.ok.inj h
  refine ⟨_, scanQuery_stringify _, ?_⟩
  have hempty := isEmpty_decoded (trimQuery raw)
  have hinline := hasInlineQuery_trimmed raw
  constructor
  · intro hagree ⟨hlevel, hlabels, hblank, hnext⟩
    rw [hempty.mpr ⟨hblank, hlevel, hlabels⟩] at hagree
    rw [hinline.mpr (.inl ((exists_nextLine hblank).mpr hnext))] at hagree
    cases hagree
  · intro honly
    cases hq : (trimQuery raw).decoded.isEmpty with
    | false =>
      -- a query without texts, level and labels decodes to an empty one
      by_contra hn
      have hnone := fun hp => hn (hinline.mpr hp)
      refine Bool.false_ne_true (hq.symm.trans (hempty.mpr ⟨fun s hs => ?_, ?_, ?_⟩))
      · have hnil : s = [] := by_contra fun hne => hnone (.inl ⟨s, hs, hne⟩)
        rw [hnil]
        exact fun _ h => absurd h List.not_mem_nil
      · exact by_contra fun hl => hnone (.inr (.inl hl))
      · exact by_contra fun hl => hnone (.inr (.inr hl))
    | true =>
      obtain ⟨hblank, hlevel, hlabels⟩ := hempty.mp hq
      refine Bool.eq_false_iff.mpr fun hp => ?_
      rcases hinline.mp hp with ht | hl | hl
      · exact honly ⟨hlevel, hlabels, hblank, (exists_nextLine hblank).mp ht⟩
      · exact hl hlevel
      · exact hl hlabels

def nextLineQuery (service : Option JsString) : AlertConfig.RuleQuery :=
  { AlertConfig.RuleQuery.empty with text := some [0x85], service }

/-- The contract has a filter, and the evaluator skips the rule. -/
theorem nextLine_skipped :
    ruleQuerySchema (nextLineQuery none) = .ok (nextLineQuery none) ∧ hasInlineQuery (nextLineQuery none) = true ∧
      ∃ q, scanQuery (nextLineQuery none).stringify = some q ∧ q.isEmpty = true :=
  ⟨rfl, rfl, _, scanQuery_stringify _, by decide⟩

theorem service_counts :
    ∃ q, scanQuery (nextLineQuery (some (js "api"))).stringify = some q ∧
      ((hasInlineQuery (nextLineQuery (some (js "api"))) = !q.isEmpty) ↔
        ¬ OnlyNextLines (nextLineQuery (some (js "api")))) :=
  inline_agrees_iff (show ruleQuerySchema (nextLineQuery (some (js " api"))) = .ok _ from rfl)

end Logalot
