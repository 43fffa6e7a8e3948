import Logalot.Inserts
import Logalot.PgSqlSound

/-!
# Inserting a batch: every value in its column

Postgres reads the text of an `INSERT` back as the columns and a group of values
for each event. The placeholders count on from row to row, as the arguments do.
-/

namespace Logalot.Inserts

open Go TokenLists Spelling

/-! ## The text of a group -/

def openFirst : pgText.Fixed true := ⟨bs " (", by decide +kernel, by decide +kernel⟩

def openNext : pgText.Fixed true := ⟨bs ", (", by decide +kernel, by decide +kernel⟩

def afterUuid : pgText.Fixed true := ⟨bs "::uuid, ", by decide +kernel, by decide +kernel⟩

theorem comma_closed : closedFrom pgText.next (pgText.settled true) (bs ", ").length (bs ", ") = true := by decide

theorem comma_head : (bs ", ").head?.any pgText.stops = true := by decide

def afterValue : pgText.Fixed true := ⟨bs ", ", comma_closed, comma_head⟩

def afterLevel : pgText.Fixed true := ⟨bs "::log_level, ", by decide +kernel, by decide +kernel⟩

def afterLabels : pgText.Fixed true := ⟨bs "::jsonb, ", by decide +kernel, by decide +kernel⟩

def closeGroup : pgText.Fixed false := ⟨bs "::jsonb)", by decide +kernel, by decide +kernel⟩

def groupParts (opening : pgText.Fixed true) (base : Nat) : List pgText.Part :=
  [.hole opening (base + 1), .hole afterUuid (base + 2), .hole afterValue (base + 3), .hole afterValue (base + 4),
    .hole afterLevel (base + 5), .hole afterValue (base + 6), .hole afterLabels (base + 7), .hole afterValue (base + 8),
    .hole afterValue (base + 9), .plain closeGroup]

theorem groupText_eq (base : Nat) : groupText base =
    (bs "(" ++ [byte '$']) ++ itoa (base + 1 : Nat) ++ (afterUuid.text ++ [byte '$']) ++ itoa (base + 2 : Nat) ++
      (afterValue.text ++ [byte '$']) ++ itoa (base + 3 : Nat) ++ (afterValue.text ++ [byte '$']) ++
      itoa (base + 4 : Nat) ++ (afterLevel.text ++ [byte '$']) ++ itoa (base + 5 : Nat) ++
      (afterValue.text ++ [byte '$']) ++ itoa (base + 6 : Nat) ++ (afterLabels.text ++ [byte '$']) ++
      itoa (base + 7 : Nat) ++ (afterValue.text ++ [byte '$']) ++ itoa (base + 8 : Nat) ++
      (afterValue.text ++ [byte '$']) ++ itoa (base + 9 : Nat) ++ closeGroup.text := rfl

theorem groupParts_text (opening : pgText.Fixed true) (before : Bytes) (h : opening.text = before ++ bs "(")
    (base : Nat) : (groupParts opening base).flatMap Part.text = before ++ groupText base := by
  have hhole : ∀ n, pgText.hole n = [byte '$'] ++ itoa (n : Nat) := fun n => by
    rw [itoa_natCast]
    rfl
  rw [groupText_eq]
  simp only [groupParts, List.flatMap_cons, List.flatMap_nil, Part.text, h, hhole, List.append_assoc, List.append_nil]

/-! ## The tokens of a group -/

def spellValue (v : Value) : List PgToken :=
  match v.cast with
  | none => [.param v.number]
  | some t => [.param v.number, .sym (bs "::"), .word t]

def groupTokens (i : Nat) : List PgToken :=
  .sym (bs "(") :: (spellList (.sym (bs ",")) spellValue (groupAt i) ++ [.sym (bs ")")])

theorem groupParts_tokens_first : (groupParts openFirst 0).flatMap Part.tokens = groupTokens 0 := rfl

theorem groupParts_tokens_next (i : Nat) :
    (groupParts openNext (i * colsPerRow)).flatMap Part.tokens = .sym (bs ",") :: groupTokens i := by
  rw [Nat.mul_comm]
  rfl

theorem readValue_spellValue (v : Value) (rest : List PgToken) (h : rest.head? ≠ some (.sym (bs "::"))) :
    readValue (spellValue v ++ rest) = some (v, rest) := by
  obtain ⟨n, cast⟩ := v
  cases cast with
  | none => simp [spellValue, readValue, h]
  | some t => simp [spellValue, readValue]

theorem spellValue_ne_nil (v : Value) : spellValue v ≠ [] := by
  obtain ⟨n, cast⟩ := v
  cases cast <;> simp [spellValue]

theorem readList_spellList {α : Type} {item : List PgToken → Option (α × List PgToken)} {spell : α → List PgToken}
    (hne : ∀ a, spell a ≠ [])
    (hitem : ∀ a rest, rest.head? ≠ some (.sym (bs "::")) → item (spell a ++ rest) = some (a, rest))
    {as : List α} (has : as ≠ []) (rest : List PgToken) :
    readList item (.sym (bs "(") :: (spellList (.sym (bs ",")) spell as ++ .sym (bs ")") :: rest)) =
      some (as, rest) := by
  have hcomma : some (PgToken.sym (bs ",")) ≠ some (.sym (bs "::")) := by decide
  have hclose : some (PgToken.sym (bs ")")) ≠ some (.sym (bs "::")) := by decide
  have hlen := length_le_spellList (.sym (bs ",")) hne as
  rw [← congrArg (fun l => some (l, rest)) (List.map_id' as)]
  refine enclosed_spellList (P := fun ts => ts.head? ≠ some (PgToken.sym (bs "::"))) hitem (fun _ => hcomma) hclose
    (by decide) has ?_
  simp only [List.length_cons, List.length_append]
  omega

theorem readList_groupTokens (i : Nat) (rest : List PgToken) :
    readList readValue (groupTokens i ++ rest) = some (groupAt i, rest) := by
  have hgroup := readList_spellList spellValue_ne_nil readValue_spellValue
    (show groupAt i ≠ [] by simp [groupAt, columns]) rest
  simpa [groupTokens] using hgroup

/-! ## The text of the rows -/

section
variable (tenantID : Bytes) (now : ZonedTime)

def nextParts (i n : Nat) : List pgText.Part := (List.range' i n).flatMap fun k => groupParts openNext (k * colsPerRow)

theorem nextParts_succ (i n : Nat) :
    nextParts i (n + 1) = groupParts openNext (i * colsPerRow) ++ nextParts (i + 1) n := by
  rw [nextParts, List.range'_succ, List.flatMap_cons]
  rfl

theorem insertFrom_next (events : List AppendEvent) : ∀ i, 0 < i →
    (insertFrom tenantID now i events).1 = (nextParts i events.length).flatMap Part.text := by
  induction events with
  | nil => exact fun _ _ => rfl
  | cons ev events ih =>
    intro i hi
    have hgroup := groupParts_text openNext (bs ", ") rfl (i * colsPerRow)
    rw [insertFrom, if_pos hi, ih (i + 1) (Nat.succ_pos i), List.length_cons, nextParts_succ,
      List.flatMap_append, hgroup]

theorem insertFrom_first (first : AppendEvent) (rest : List AppendEvent) :
    bs " " ++ (insertFrom tenantID now 0 (first :: rest)).1 =
      (groupParts openFirst 0 ++ nextParts 1 rest.length).flatMap Part.text := by
  have hgroup := groupParts_text openFirst (bs " ") rfl 0
  rw [insertFrom, insertFrom_next tenantID now rest (0 + 1) Nat.one_pos, List.flatMap_append, hgroup]
  simp

theorem flatMap_nextParts_tokens (i n : Nat) :
    (nextParts i n).flatMap Part.tokens = (List.range' i n).flatMap fun k => .sym (bs ",") :: groupTokens k := by
  rw [nextParts, List.flatMap_assoc]
  exact congrArg ((List.range' i n).flatMap ·) (funext groupParts_tokens_next)

def insertLead : Bytes := bs "INSERT INTO log_events (" ++ insertColumns ++ bs ") VALUES"

theorem pgLex_buildInsert (first : AppendEvent) (rest : List AppendEvent) :
    pgLex (buildInsert tenantID now (first :: rest)).sql =
      pgLex insertLead ++ spellList (.sym (bs ",")) groupTokens (List.range (rest.length + 1)) := by
  have hsql : (buildInsert tenantID now (first :: rest)).sql =
      insertLead ++ (groupParts openFirst 0 ++ nextParts 1 rest.length).flatMap Part.text := by
    have hspace : bs ") VALUES " = bs ") VALUES" ++ bs " " := rfl
    rw [← insertFrom_first tenantID now first rest, buildInsert, insertLead, hspace]
    simp only [List.append_assoc]
  have hnil : StartsIn pgText.stops [] := fun c hc => by cases hc
  have hparts := read_parts hnil (groupParts openFirst 0 ++ nextParts 1 rest.length)
  have hstart := startsIn_parts hnil (groupParts openFirst 0 ++ nextParts 1 rest.length)
  rw [List.append_nil] at hparts hstart
  have hclosed : closedFrom pgText.next (pgText.settled false) insertLead.length insertLead = true := by decide
  rw [hsql]
  refine (read_lead hclosed hstart).trans ?_
  rw [hparts, List.flatMap_append, groupParts_tokens_first, flatMap_nextParts_tokens, List.range_eq_range',
    List.range'_succ, spellList_cons]
  have hlead : pgText.read insertLead = pgLex insertLead := rfl
  have hempty : pgText.read [] = [] := rfl
  rw [hlead, hempty, List.append_nil]

/-! ## The arguments -/

theorem insertFrom_args (events : List AppendEvent) : ∀ i,
    (insertFrom tenantID now i events).2 = events.flatMap (rowArgs tenantID now) := by
  induction events with
  | nil => exact fun _ => rfl
  | cons ev events ih =>
    intro i
    rw [insertFrom, ih, List.flatMap_cons]

theorem rowArgs_eq (ev : AppendEvent) : rowArgs tenantID now ev = columns.map (Column.value tenantID now ev) := by
  have hts : (if isZero ev.ts.instant then now else ev.ts).utc =
      ⟨if isZero ev.ts.instant then now.instant else ev.ts.instant, 0⟩ := by
    split <;> rfl
  have hlabels : marshalLabels ev.labels = Json.encodeMap (ev.labels.getD []) := by
    cases ev.labels <;> rfl
  unfold rowArgs
  dsimp only
  rw [hts, hlabels]
  rfl

end

theorem getElem?_flatMap {α β : Type} {f : α → List β} {k : Nat} (hf : ∀ a, (f a).length = k) {a : α} {j : Nat}
    (hj : j < k) : ∀ {l : List α} {i : Nat}, l[i]? = some a → (l.flatMap f)[k * i + j]? = (f a)[j]?
  | b :: l, 0, h => by
    cases h
    rw [List.flatMap_cons, Nat.mul_zero, Nat.zero_add, List.getElem?_append_left (by rw [hf]; exact hj)]
  | b :: l, i + 1, h => by
    have ih := getElem?_flatMap hf hj (l := l) (i := i) h
    have hle : (f b).length ≤ k * (i + 1) + j := by
      rw [hf, Nat.mul_succ]
      omega
    rw [List.flatMap_cons, List.getElem?_append_right hle, hf, ← ih]
    congr 1
    rw [Nat.mul_succ]
    omega

/-! ## Every value in its column -/

theorem filterMap_groupTokens (i : Nat) : (groupTokens i).filterMap PgToken.number = List.range' (9 * i + 1) 9 := rfl

theorem flatMap_range' (n : Nat) :
    (List.range n).flatMap (fun i => List.range' (9 * i + 1) 9) = List.range' 1 (9 * n) := by
  induction n with
  | zero => rfl
  | succ n ih =>
    rw [List.range_succ, List.flatMap_append, ih, List.flatMap_singleton, Nat.mul_succ, Nat.add_comm (9 * n) 1,
      List.range'_append_1]

theorem placeholders_buildInsert (tenantID : Bytes) (now : ZonedTime) (first : AppendEvent) (rest : List AppendEvent) :
    placeholders (buildInsert tenantID now (first :: rest)).sql = List.range' 1 (9 * (rest.length + 1)) := by
  have hlead : (pgLex insertLead).filterMap PgToken.number = [] := by decide
  rw [placeholders, pgLex_buildInsert, List.filterMap_append, hlead, List.nil_append,
    filterMap_spellList (by rfl), ← flatMap_range']
  exact congrArg ((List.range (rest.length + 1)).flatMap ·) (funext filterMap_groupTokens)

def columnTokens : List PgToken :=
  .sym (bs "(") :: (spellList (.sym (bs ",")) (fun c : Column => [.word (toUpper c.name)]) columns ++ [.sym (bs ")")])

theorem readList_columnTokens (rest : List PgToken) :
    readList readColumn (columnTokens ++ rest) = some (columns, rest) := by
  have hcolumn : ∀ (c : Column) (ts : List PgToken), readColumn ([.word (toUpper c.name)] ++ ts) = some (c, ts) := by
    intro c ts
    have hfind : columns.find? (fun d => toUpper d.name = toUpper c.name) = some c := by cases c <;> decide
    simp [readColumn, hfind]
  have hlist := readList_spellList (fun c : Column => List.cons_ne_nil (.word (toUpper c.name)) [])
    (fun c ts _ => hcolumn c ts) (show columns ≠ [] by decide) rest
  simpa [columnTokens] using hlist

theorem pgLex_insertLead :
    pgLex insertLead = pgLex (bs "INSERT INTO log_events") ++ (columnTokens ++ [.word (bs "VALUES")]) := by
  decide

theorem readInsert_buildInsert (tenantID : Bytes) (now : ZonedTime) (first : AppendEvent) (rest : List AppendEvent) :
    readInsert (buildInsert tenantID now (first :: rest)).sql =
      some ⟨columns, (List.range (rest.length + 1)).map groupAt⟩ := by
  have hthree : (pgLex (bs "INSERT INTO log_events")).length = 3 := by decide
  have hne : ∀ i, groupTokens i ≠ [] := fun i => List.cons_ne_nil _ _
  have hgroups : ∀ n, (List.range (rest.length + 1)).length ≤ n →
      sepBy (.sym (bs ",")) (readList readValue) n
        (spellList (.sym (bs ",")) groupTokens (List.range (rest.length + 1))) =
      some ((List.range (rest.length + 1)).map groupAt, []) := by
    intro n hn
    rw [← List.append_nil (spellList _ _ _)]
    exact sepBy_spellList (P := fun _ => True) (fun i ts _ => readList_groupTokens i ts) (fun _ => trivial) trivial
      (by simp) _ n (by simp) hn
  unfold readInsert
  rw [pgLex_buildInsert, pgLex_insertLead, List.append_assoc]
  dsimp only
  rw [← hthree, List.take_left, if_pos rfl, List.drop_left, List.append_assoc, readList_columnTokens, Option.bind_some]
  have hlen := length_le_spellList (.sym (bs ",")) hne (List.range (rest.length + 1))
  simp only [List.singleton_append, List.head?_cons, if_true, List.tail_cons]
  rw [hgroups _ (by rw [List.length_cons]; omega)]
  rfl

/-- Each column of each row is bound to the value meant for it. -/
theorem insert_aligned (tenantID : Bytes) (now : ZonedTime) (first : AppendEvent) (rest : List AppendEvent) :
    placeholders (buildInsert tenantID now (first :: rest)).sql = List.range' 1 (9 * (first :: rest).length) ∧
      (buildInsert tenantID now (first :: rest)).args.length = 9 * (first :: rest).length ∧
      ∃ groups, readInsert (buildInsert tenantID now (first :: rest)).sql = some ⟨columns, groups⟩ ∧
        groups.length = (first :: rest).length ∧
        ∀ (i : Nat) (ev : AppendEvent), (first :: rest)[i]? = some ev →
          groups[i]? = some (columns.mapIdx fun j c => ⟨9 * i + j + 1, c.cast⟩) ∧
          ∀ (j : Nat) (c : Column), columns[j]? = some c →
            (buildInsert tenantID now (first :: rest)).args[9 * i + j]? = some (c.value tenantID now ev) := by
  have hargs : (buildInsert tenantID now (first :: rest)).args = (first :: rest).flatMap (rowArgs tenantID now) :=
    insertFrom_args tenantID now (first :: rest) 0
  have hrow : ∀ ev, (rowArgs tenantID now ev).length = 9 := fun _ => rfl
  refine ⟨placeholders_buildInsert tenantID now first rest, ?_, _, readInsert_buildInsert tenantID now first rest,
    ?_, ?_⟩
  · rw [hargs, List.length_flatMap]
    simp only [hrow, List.map_const', List.sum_replicate_nat, List.length_cons]
    omega
  · simp
  · intro i ev hi
    have hlt : i < rest.length + 1 := (List.getElem?_eq_some_iff.mp hi).1
    refine ⟨?_, fun j c hj => ?_⟩
    · rw [List.getElem?_map, List.getElem?_range hlt]
      rfl
    · have hj' : j < 9 := (List.getElem?_eq_some_iff.mp hj).1
      rw [hargs, getElem?_flatMap hrow hj' hi, rowArgs_eq, List.getElem?_map, hj]
      rfl

/-! ## The rows of the hot store -/

def ofLogEvent (ev : LogEvent) : AppendEvent :=
  { ev with ts := ⟨ev.ts, 0⟩, level := ev.level.text, labels := some ev.labels }

structure Holds (row : Row) (value : Column → InsertArg) : Prop where
  tenantId : ∃ s, value .tenantId = .text s ∧ Pg.uuidIn s = some row.tenantId
  ts : ∃ t, value .ts = .time t ∧ micros t.instant = row.ts
  service : value .service = .text row.service
  level : value .level = .text row.level.text
  message : value .message = .text row.message
  labels : value .labels = .bytes (Json.encodeMap row.labels)
  traceId : value .traceId = row.traceId.elim .null .text
  spanId : value .spanId = row.spanId.elim .null .text
  raw : value .raw = .bytes row.raw

theorem elim_nullIfEmpty (s : Bytes) :
    (Logalot.nullIfEmpty s).elim InsertArg.null .text = if s = [] then .null else .text s := by
  by_cases h : s = [] <;> simp [Logalot.nullIfEmpty, h]

/-- The row that the pipeline inserts for an event is the one that `buildInsert` binds. -/
theorem insertRow_holds {tc : TenantContext} {ev : LogEvent} {now : Time} {id : Pg.Uuid} {row : Row}
    (h : insertRow tc ev now id = some row) :
    Holds row (Column.value tc.tenantId ⟨now, 0⟩ (ofLogEvent ev)) := by
  unfold insertRow at h
  split at h
  · obtain ⟨u, hu, rfl⟩ := Option.map_eq_some_iff.mp h
    have hlevel : ev.level.text ≠ [] := by cases ev.level <;> decide
    exact ⟨⟨_, rfl, hu⟩, ⟨_, rfl, rfl⟩, rfl, congrArg InsertArg.text (if_neg hlevel), rfl, rfl,
      (elim_nullIfEmpty _).symm, (elim_nullIfEmpty _).symm, rfl⟩
  · cases h

end Logalot.Inserts
