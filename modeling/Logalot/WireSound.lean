import Logalot.IngestSound
import Logalot.PipelineSound
import Logalot.Wire

/-!
# Times that can be written

`Normalize` takes every epoch of 64 bits for a time, and a zone can move a date out
of the years of four digits.
-/

namespace Logalot

open Go Pipeline

/-! ## Writing -/

theorem marshalRaw_isSome {raw : Bytes} (h : raw = [] ∨ (Json.parse raw).isSome) : (marshalRaw raw).isSome := by
  unfold marshalRaw
  split
  · rfl
  · rename_i hne
    rw [Json.compact, if_pos (h.resolve_left hne)]
    rfl

theorem marshal_isSome_iff {isNil : Bool} (ev : LogEvent) (h : ev.raw = [] ∨ (Json.parse ev.raw).isSome) :
    (ev.marshal isNil).isSome ↔ fourDigit (unixDay ev.ts) := by
  rw [← marshalTime_isSome_iff]
  obtain ⟨raw, hraw⟩ := Option.isSome_iff_exists.mp (marshalRaw_isSome h)
  unfold LogEvent.marshal
  rw [hraw]
  cases marshalTime ev.ts <;> rfl

theorem encodeCursor_ne_nil_iff (c : Cursor) : encodeCursor (some c) ≠ [] ↔ fourDigit (unixDay c.ts) := by
  rw [← marshalTime_isSome_iff, encodeCursor, Option.bind_some, Cursor.marshal]
  cases marshalTime c.ts with
  | none => simp
  | some ts =>
    refine iff_of_true (Base64.encode_ne_nil ?_) rfl
    exact List.cons_ne_nil _ _

theorem mapM_isSome_iff {α β : Type} {f : α → Option β} : ∀ {l : List α}, (l.mapM f).isSome ↔ ∀ a ∈ l, (f a).isSome
  | [] => by simp
  | a :: l => by
    rw [List.mapM_cons, List.forall_mem_cons, ← mapM_isSome_iff]
    cases f a <;> cases l.mapM f <;> simp

theorem searchResponse_isSome_iff {isNil : LogEvent → Bool} {page : SearchPage} :
    (searchResponse isNil page).isSome ↔ ∀ ev ∈ page.events, (ev.marshal (isNil ev)).isSome := by
  rw [← mapM_isSome_iff]
  unfold searchResponse
  cases page.events.mapM fun ev => ev.marshal (isNil ev) <;> simp

/-- The event can be written wherever it is sent. The store gives it an id. -/
structure LogEvent.Encodes (ev : LogEvent) : Prop where
  year : 0 ≤ (civil (unixDay ev.ts)).year ∧ (civil (unixDay ev.ts)).year ≤ 9999
  tail : ∀ tc, (tailPayload tc ev).isSome
  response : ∀ isNil id before after next, (∀ e ∈ before ++ after, (e.marshal (isNil e)).isSome) →
    (searchResponse isNil { events := before ++ { ev with id } :: after, nextCursor := next }).isSome
  cursor : ∀ id, encodeCursor (some { ts := ev.ts, id }) ≠ []

theorem encodes_iff {ev : LogEvent} (h : ev.raw = [] ∨ (Json.parse ev.raw).isSome) :
    ev.Encodes ↔ fourDigit (unixDay ev.ts) := by
  refine ⟨fun he => he.year, fun hy => ⟨hy, fun tc => ?_, ?_, fun id => ?_⟩⟩
  · exact (marshal_isSome_iff { ev with tenantId := tc.tenantId } h).mpr hy
  · intro isNil id before after next hothers
    refine searchResponse_isSome_iff.mpr fun e he => ?_
    rcases List.mem_append.mp he with he | he
    · exact hothers e (List.mem_append_left _ he)
    · rcases List.mem_cons.mp he with rfl | he
      · exact (marshal_isSome_iff { ev with id } h).mpr hy
      · exact hothers e (List.mem_append_right _ he)
  · exact (encodeCursor_ne_nil_iff { ts := ev.ts, id }).mpr hy

/-! ## Times of payloads -/

section
variable (dec : Decoder)

def isTime (raw : Bytes) : Bool := ((dec.string raw).bind dec.time).isSome || (dec.int64 raw).any (0 < ·)

/-- The text is of an instant in the years from 0 to 9999; the epoch is one of them in seconds, or in
milliseconds since `10^12` stands for the year 2001. -/
def InYears (raw : Bytes) : Prop :=
  match (dec.string raw).bind dec.time with
  | some t => fourDigit (unixDay t)
  | none => ∀ i, dec.int64 raw = some i → i ≤ 253402300799 ∨ (1000000000000 ≤ i ∧ i ≤ 253402300799999)

/-- The first of the time keys that holds a time decides, then the receipt, then the clock. -/
def TimeInYears (m : Labels) (env : Envelope) (now : Time) : Prop :=
  match (tsKeys.filterMap fun k => m.lookup k).find? (isTime dec) with
  | some raw => InYears dec raw
  | none => fourDigit (unixDay (if isZero env.receivedAt then now else env.receivedAt))

variable {dec}

theorem fourDigit_epochToTime {i : Int} (hi : 0 < i) :
    fourDigit (unixDay (epochToTime i)) ↔ i ≤ 253402300799 ∨ (1000000000000 ≤ i ∧ i ≤ 253402300799999) := by
  rw [fourDigit_iff]
  unfold unixDay epochToTime
  split <;> omega

theorem timeOf_eq (h : dec.time [] = none) (raw : Bytes) :
    timeOf dec raw =
      ((dec.string raw).bind dec.time).or
        ((dec.int64 raw).bind fun i => if i > 0 then some (epochToTime i) else none) := by
  have htext : ((dec.string raw).bind fun s => if s = [] then none else dec.time s) =
      (dec.string raw).bind dec.time := by
    cases dec.string raw with
    | none => rfl
    | some s =>
      by_cases hs : s = []
      · simp [hs, h]
      · simp [hs]
  unfold timeOf
  rw [htext]
  cases (dec.string raw).bind dec.time <;> rfl

theorem isSome_timeOf (h : dec.time [] = none) (raw : Bytes) : (timeOf dec raw).isSome = isTime dec raw := by
  rw [timeOf_eq h, Option.isSome_or, isTime]
  cases dec.int64 raw with
  | none => rfl
  | some i =>
    by_cases hi : i > 0 <;> simp [hi]

theorem fourDigit_timeOf (h : dec.time [] = none) {raw : Bytes} {t : Time} (ht : timeOf dec raw = some t) :
    fourDigit (unixDay t) ↔ InYears dec raw := by
  rw [timeOf_eq h] at ht
  unfold InYears
  cases htext : (dec.string raw).bind dec.time with
  | some u =>
    rw [htext, Option.some_or] at ht
    rw [Option.some.inj ht]
  | none =>
    rw [htext, Option.none_or] at ht
    obtain ⟨i, hint, hi⟩ := Option.bind_eq_some_iff.mp ht
    split at hi
    · rename_i hpos
      rw [← Option.some.inj hi, fourDigit_epochToTime hpos, hint]
      simp only [Option.some.injEq, forall_eq']
    · cases hi

theorem findSome?_bind {α β γ : Type} (g : α → Option β) (f : β → Option γ) : ∀ l : List α,
    (l.findSome? fun a => (g a).bind f) = ((l.filterMap g).find? fun b => (f b).isSome).bind f
  | [] => rfl
  | a :: l => by
    rw [List.findSome?_cons, findSome?_bind g f l]
    cases hg : g a with
    | none => rw [List.filterMap_cons_none hg, Option.bind_none]
    | some b =>
      rw [List.filterMap_cons_some hg, Option.bind_some, List.find?_cons]
      cases hf : f b with
      | none => rfl
      | some c => exact hf.symm

theorem fourDigit_parseTS (h : dec.time [] = none) (m : Labels) (env : Envelope) (now : Time) :
    fourDigit (unixDay (parseTS dec m env now)) ↔ TimeInYears dec m env now := by
  unfold parseTS TimeInYears
  rw [findSome?_bind (fun k => m.lookup k) (timeOf dec)]
  simp only [isSome_timeOf h]
  cases hfind : (tsKeys.filterMap fun k => m.lookup k).find? (isTime dec) with
  | none => exact Iff.rfl
  | some raw =>
    have htime : (timeOf dec raw).isSome = true := by
      rw [isSome_timeOf h]
      exact List.find?_some hfind
    obtain ⟨t, ht⟩ := Option.isSome_iff_exists.mp htime
    rw [Option.bind_some, ht]
    exact fourDigit_timeOf h ht

end

/-- The event of an accepted payload can be written if and only if the value that gives its time is in range. -/
theorem normalize_encodes_iff (formatFloat : Bytes → Option Bytes) (tc : TenantContext) (now : Time) {env : Envelope}
    {m : Labels} (h : (goDecoder formatFloat).object env.raw = some m) :
    ∃ ev, normalize (goDecoder formatFloat) tc env now = .ok ev ∧
      (ev.Encodes ↔ TimeInYears (goDecoder formatFloat) m env now) := by
  have hparse : (Json.parse env.raw).isSome := by
    cases hp : Json.parse env.raw with
    | none => simp [goDecoder, hp] at h
    | some v => rfl
  obtain ⟨ev, hev, hraw, hts, -⟩ := normalize_of_object tc now h
  refine ⟨ev, hev, ?_⟩
  rw [encodes_iff (Or.inr (hraw ▸ hparse)), hts]
  exact fourDigit_parseTS rfl m env now

/-! ### Out of range -/

/-- Epochs in seconds and in microseconds, and a text whose zone moves it into the next year. -/
def lateTimes : List Bytes :=
  [bs "\x7b\"ts\":999999999999\x7d", bs "\x7b\"ts\":1767225600000000\x7d",
    bs "\x7b\"ts\":\"9999-12-31T23:59:59-01:00\"\x7d"]

theorem late_time_lost :
    lateTimes.map (fun raw => (payloadEvent raw).map fun ev => (civil (unixDay ev.ts)).year) =
      [some 33658, some 57971, some 10000] ∧
    ∀ raw ∈ lateTimes, (payloadEvent raw).any (fun ev =>
      tailPayload sampleContext ev == none && searchResponse (fun _ => true)
        { events := [ev], nextCursor := none } == none &&
        encodeCursor (some { ts := ev.ts, id := ev.id }) == []) = true := by
  decide

theorem second_written :
    ∃ ev, normalize (goDecoder fun _ => none) { tenantId := [] } (payloadEnvelope (bs "\x7b\"ts\":1767225600\x7d")) 0 =
      .ok ev ∧ ev.Encodes := by
  have h : (goDecoder fun _ => none).object (payloadEnvelope (bs "\x7b\"ts\":1767225600\x7d")).raw =
      some [(bs "ts", bs "1767225600")] := by decide
  obtain ⟨ev, hev, hiff⟩ := normalize_encodes_iff (fun _ => none) { tenantId := [] } 0 h
  have hfind : (tsKeys.filterMap fun k => [(bs "ts", bs "1767225600")].lookup k).find?
      (isTime (goDecoder fun _ => none)) = some (bs "1767225600") := by decide
  have htext : ((goDecoder fun _ => none).string (bs "1767225600")).bind (goDecoder fun _ => none).time = none := by
    decide
  have hint : (goDecoder fun _ => none).int64 (bs "1767225600") = some 1767225600 := by decide
  refine ⟨ev, hev, hiff.mpr ?_⟩
  rw [TimeInYears, hfind]
  simp only [InYears, htext, hint]
  exact fun i hi => Or.inl (by rw [← Option.some.inj hi]; decide)

end Logalot
