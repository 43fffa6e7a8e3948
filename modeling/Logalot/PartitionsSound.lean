import Logalot.Partitions
import Logalot.PipelineSound

/-!
# What a drop of partitions leaves

A partition created in the years 1 to 9999 is dropped exactly when its day is
before the cutoff. Rows of the default partition are never dropped.
-/

namespace Logalot

open Go Pg Ranges

/-! ## Names -/

variable {day today : Int} {t t' : HotTable}

theorem Nameable.fourDigit (h : Nameable day) : fourDigit day := ⟨by have := h.1; omega, h.2⟩

theorem toChar_eq (h : Nameable day) :
    toChar day = padInt (civil day).year 4 ++ (padInt (civil day).month 2 ++ padInt (civil day).day 2) := by
  have hy : ¬ (civil day).year ≤ 0 := by have := h.1; omega
  simp only [toChar, if_neg hy, List.append_assoc]

theorem length_toChar (h : Nameable day) : (toChar day).length = 8 := by
  obtain ⟨hy, hm, hd⟩ := length_civil h.fourDigit
  rw [toChar_eq h, List.length_append, List.length_append, hy, hm, hd]

theorem isDigit_toChar (h : Nameable day) : (toChar day).all isDigit = true := by
  obtain ⟨hm, hd⟩ := civil_lt_hundred day
  rw [toChar_eq h]
  simp only [List.all_append, Bool.and_eq_true, List.all_eq_true]
  exact ⟨isDigit_padInt h.fourDigit.1, isDigit_padInt hm.1, isDigit_padInt hd.1⟩

theorem toDate_toChar (h : Nameable day) : toDate (toChar day) = some day := by
  obtain ⟨hy, hm, hd⟩ := length_civil h.fourDigit
  obtain ⟨hm0, hd0⟩ := civil_lt_hundred day
  have hyt : (toChar day).take 4 = padInt (civil day).year 4 := by
    rw [toChar_eq h]
    exact List.take_left' hy
  have hmt : ((toChar day).drop 4).take 2 = padInt (civil day).month 2 := by
    rw [toChar_eq h, List.drop_left' hy]
    exact List.take_left' hm
  have hdt : (toChar day).drop 6 = padInt (civil day).day 2 := by
    rw [toChar_eq h, ← List.append_assoc]
    exact List.drop_left' (by rw [List.length_append, hy, hm])
  simp only [toDate, hyt, hmt, hdt, parseNat_padInt h.fourDigit.1, parseNat_padInt hm0.1, parseNat_padInt hd0.1]
  rw [if_pos (civil_valid day), dayNumber_civil]

theorem isDailyName_partitionName (h : Nameable day) : isDailyName (partitionName day) = true := by
  have hl : (bs "log_events_").length = 11 := by decide
  have hd : (partitionName day).drop 11 = toChar day := List.drop_left' hl
  have hn : (partitionName day).length = 19 := by rw [partitionName, List.length_append, hl, length_toChar h]
  have hp : (bs "log_events_").isPrefixOf (partitionName day) = true := by
    rw [List.isPrefixOf_iff_prefix]
    exact List.prefix_append _ _
  rw [isDailyName, hp, hn, hd, isDigit_toChar h]
  rfl

theorem right_partitionName (h : Nameable day) : right (partitionName day) 8 = toChar day := by
  have hl : (bs "log_events_").length = 11 := by decide
  have hn : (partitionName day).length = 19 := by rw [partitionName, List.length_append, hl, length_toChar h]
  rw [right, hn]
  exact List.drop_left' hl

theorem isExpired_partitionName {cutoff : Int} (h : Nameable day) :
    isExpired cutoff (partitionName day) = decide (day < cutoff) := by
  rw [isExpired, isDailyName_partitionName h, right_partitionName h, toDate_toChar h]
  rfl

/-! ## Daily partitions -/

structure DailyPart (p : Partition Bytes Int Row) (day : Int) : Prop where
  nameable : Nameable day
  name : p.name = partitionName day
  lo : p.lo = day * dayMicros
  hi : p.hi = (day + 1) * dayMicros

structure Daily (t : HotTable) : Prop where
  routed : t.Routed Row.ts
  part : ∀ p ∈ t.parts, ∃ day, DailyPart p day

theorem Daily.empty : Daily { parts := [], rest := [] } :=
  { routed := fun _ hp => by cases hp
    part := fun _ hp => by cases hp }

theorem Daily.insert (h : Daily t) (r : Row) : Daily (t.insert Row.ts r) := by
  refine ⟨h.routed.insert r, fun p hp => ?_⟩
  rcases Table.parts_insert hp with hp | ⟨q, hq, -, rfl⟩
  · exact h.part p hp
  · obtain ⟨day, hd⟩ := h.part q hq
    exact ⟨day, hd.nameable, hd.name, hd.lo, hd.hi⟩

theorem Daily.create (h : Daily t) (hn : Nameable day)
    (hc : createLogEventsPartition t day = some t') : Daily t' ∧ t'.rest = t.rest := by
  unfold createLogEventsPartition at hc
  split at hc
  · cases hc
    exact ⟨h, rfl⟩
  · refine ⟨⟨h.routed.create hc, ?_⟩, by rw [Table.create_eq hc]⟩
    rw [Table.create_eq hc]
    intro p hp
    rcases List.mem_append.mp hp with hp | hp
    · exact h.part p hp
    · rw [List.mem_singleton] at hp
      subst hp
      exact ⟨day, hn, rfl, rfl, rfl⟩

theorem Daily.createAll : ∀ {days : List Nat} {t t' : HotTable}, Daily t →
    (∀ i ∈ days, Nameable (today + (i : Int))) →
    days.foldlM (fun t (i : Nat) => createLogEventsPartition t (today + (i : Int))) t = some t' → Daily t' ∧
      t'.rest = t.rest
  | [], t, t', h, _, hf => by
    cases hf
    exact ⟨h, rfl⟩
  | i :: days, t, t', h, hn, hf => by
    rw [List.foldlM_cons] at hf
    obtain ⟨u, hu, hf⟩ := Option.bind_eq_some_iff.mp hf
    obtain ⟨hd, hr⟩ := h.create (hn i List.mem_cons_self) hu
    obtain ⟨hd', hr'⟩ := hd.createAll (fun j hj => hn j (List.mem_cons_of_mem _ hj)) hf
    exact ⟨hd', hr'.trans hr⟩

theorem Daily.ensure {daysAhead : Nat} (h : Daily t)
    (hn : ∀ i ≤ daysAhead, Nameable (today + (i : Int)))
    (he : ensureLogEventsPartitions today daysAhead t = some t') : Daily t' ∧ t'.rest = t.rest :=
  h.createAll (fun i hi => hn i (by rw [List.mem_range] at hi; omega)) he

theorem drop_eq {d : Int} {n : Nat}
    (h : dropLogEventsPartitionsOlderThan today d t = some (t', n)) : t' = t.dropNamed (isExpired (today - d)) := by
  unfold dropLogEventsPartitionsOlderThan at h
  split at h
  · cases h
  · cases h
    rfl

theorem Daily.drop {d : Int} {n : Nat} (h : Daily t)
    (hd : dropLogEventsPartitionsOlderThan today d t = some (t', n)) : Daily t' ∧ t'.rest = t.rest := by
  rw [drop_eq hd]
  exact ⟨⟨h.routed.dropNamed _, fun p hp => h.part p (List.mem_filter.mp hp).1⟩, rfl⟩

theorem Daily.kept_iff {d : Int} {n : Nat} (h : Daily t)
    (hd : dropLogEventsPartitionsOlderThan today d t = some (t', n)) :
    Kept today d t' ↔ ∀ r ∈ t.rest, (today - d) * dayMicros ≤ r.ts := by
  rw [drop_eq hd]
  refine ⟨fun hk r hr => hk r (Table.mem_rows_dropNamed.mpr (Or.inr hr)), fun hk r hr => ?_⟩
  rcases Table.mem_rows_dropNamed.mp hr with ⟨p, hp, hs, hr⟩ | hr
  · obtain ⟨day, hday⟩ := h.part p hp
    have hc := (h.routed p hp r hr).1
    rw [hday.name, isExpired_partitionName hday.nameable, decide_eq_false_iff_not] at hs
    rw [hday.lo] at hc
    unfold dayMicros at *
    omega
  · exact hk r hr

/-! ## Histories -/

variable {dec : Decoder}

theorem daily_step {s s' : Hot} {a : HotAction} (h : Daily s.table) (hn : NamedEnsures s a)
    (hs : HotStep dec s a s') : Daily s'.table ∧ (CoveredAppends s a → s'.table.rest = s.table.rest) := by
  cases hs with
  | append _ _ => exact ⟨h.insert _, fun hc => Table.rest_insert hc⟩
  | tick _ => exact ⟨h, fun _ => rfl⟩
  | ensure he => exact ⟨(h.ensure hn he).1, fun _ => (h.ensure hn he).2⟩
  | drop hd => exact ⟨(h.drop hd).1, fun _ => (h.drop hd).2⟩

theorem daily_reachable {s : Hot} (hr : (hotSystem dec NamedEnsures).Reachable s) : Daily s.table := by
  refine hr.invariant (P := fun s => Daily s.table) (fun s hi => ?_) fun s t _ h hs => ?_
  · exact (show s.table = _ from hi) ▸ Daily.empty
  · obtain ⟨a, hn, ha⟩ := hs
    exact (daily_step h hn ha).1

theorem covered_reachable {s : Hot}
    (hr : (hotSystem dec fun s a => NamedEnsures s a ∧ CoveredAppends s a).Reachable s) :
    Daily s.table ∧ s.table.rest = [] := by
  refine hr.invariant (P := fun s => Daily s.table ∧ s.table.rest = []) (fun s hi => ?_) fun s t _ h hs => ?_
  · rw [show s.table = _ from hi]
    exact ⟨Daily.empty, rfl⟩
  · obtain ⟨a, ⟨hn, hc⟩, ha⟩ := hs
    obtain ⟨hd, hrest⟩ := daily_step h.1 hn ha
    exact ⟨hd, (hrest hc).trans h.2⟩

/-- **Retention of the hot store.** A drop leaves no row before the cutoff exactly when the default
partition has none; it never has one while rows are only appended on days that have a partition. -/
theorem drop_keeps_recent (dec : Decoder) :
    (∀ s, (hotSystem dec NamedEnsures).Reachable s → ∀ d t n,
      dropLogEventsPartitionsOlderThan s.today d s.table = some (t, n) →
      (Kept s.today d t ↔ ∀ r ∈ s.table.rest, (s.today - d) * dayMicros ≤ r.ts)) ∧
    (∀ s, (hotSystem dec fun s a => NamedEnsures s a ∧ CoveredAppends s a).Reachable s → ∀ d t n,
      dropLogEventsPartitionsOlderThan s.today d s.table = some (t, n) → Kept s.today d t) := by
  refine ⟨fun s hr d t n hd => (daily_reachable hr).kept_iff hd, fun s hr d t n hd => ?_⟩
  obtain ⟨hdaily, hrest⟩ := covered_reachable hr
  rw [hdaily.kept_iff hd, hrest]
  intro r h
  cases h

/-! ### Two histories -/

section
open Pipeline

def januaryFirst : Time := 1767225600000000000

def juneFirst : Time := 1780272000000000000

def emptyPart (day : Int) : Partition Bytes Int Row :=
  { name := partitionName day, lo := day * dayMicros, hi := (day + 1) * dayMicros, rows := [] }

def weekAhead (now : Time) : List (Partition Bytes Int Row) :=
  (List.range 8).map fun i => emptyPart (unixDay now + (i : Int))

theorem sample_normalized :
    normalize sampleDecoder (messageContext sampleEnvelope) sampleEnvelope 0 = .ok sampleEvent := rfl

theorem sample_inserted (now : Time) :
    insertRow (messageContext sampleEnvelope) sampleEvent now sampleRow.id = some sampleRow := by
  have h : ∀ a b : Time, insertRow (messageContext sampleEnvelope) sampleEvent a sampleRow.id =
      insertRow (messageContext sampleEnvelope) sampleEvent b sampleRow.id := fun a b => by
    simp [insertRow, show isZero sampleEvent.ts = false by decide]
  exact (h now 0).trans sample_row

/-- An event of January that arrives in June is in no daily partition, and no drop removes it. -/
theorem late_event_survives_drop :
    ∃ s, (hotSystem sampleDecoder fun _ _ => True).Reachable s ∧
      ∃ t n, dropLogEventsPartitionsOlderThan s.today 30 s.table = some (t, n) ∧ ¬ Kept s.today 30 t := by
  let s : Hot := ⟨juneFirst, { parts := weekAhead juneFirst, rest := [sampleRow] }⟩
  have he : ensureLogEventsPartitions (unixDay juneFirst) 7 { parts := [], rest := [] } =
      some { parts := weekAhead juneFirst, rest := [] } := by decide
  have hi : Table.insert Row.ts { parts := weekAhead juneFirst, rest := [] } sampleRow = s.table := by
    decide
  have hd : dropLogEventsPartitionsOlderThan s.today 30 s.table = some (s.table, 0) := by decide
  have h0 : (hotSystem sampleDecoder fun _ _ => True).Reachable ⟨juneFirst, { parts := [], rest := [] }⟩ := .init rfl
  have h1 := h0.step ⟨_, trivial, .ensure he⟩
  have h2 := h1.step ⟨_, trivial, .append sample_normalized (sample_inserted _)⟩
  rw [show Table.insert Row.ts _ sampleRow = _ from hi] at h2
  refine ⟨s, h2, _, _, hd, fun hk => ?_⟩
  have := hk sampleRow (List.mem_append_right _ List.mem_cons_self)
  exact absurd this (by decide)

/-- The same event, appended in January, is dropped with its partition. -/
theorem january_event_dropped :
    ∃ s, (hotSystem sampleDecoder fun s a => NamedEnsures s a ∧ CoveredAppends s a).Reachable s ∧
      sampleRow ∈ s.table.rows ∧ ∃ t n, dropLogEventsPartitionsOlderThan s.today 30 s.table = some (t, n) ∧
        Kept s.today 30 t ∧ sampleRow ∉ t.rows := by
  let full : HotTable := { parts := { emptyPart (unixDay januaryFirst) with rows := [sampleRow] } ::
    (weekAhead januaryFirst).tail, rest := [] }
  have he : ensureLogEventsPartitions (unixDay januaryFirst) 7 { parts := [], rest := [] } =
      some { parts := weekAhead januaryFirst, rest := [] } := by decide
  have hi : Table.insert Row.ts { parts := weekAhead januaryFirst, rest := [] } sampleRow = full := by
    decide
  have hd : dropLogEventsPartitionsOlderThan (unixDay juneFirst) 30 full = some ({ parts := [], rest := [] }, 8) := by
    decide
  have h0 : (hotSystem sampleDecoder fun s a => NamedEnsures s a ∧ CoveredAppends s a).Reachable
      ⟨januaryFirst, { parts := [], rest := [] }⟩ := .init rfl
  have hn : ∀ i : Nat, i ≤ 7 → Nameable (unixDay januaryFirst + (i : Int)) := by decide
  have hc : Table.Covers { parts := weekAhead januaryFirst, rest := [] } sampleRow.ts := by decide
  have h1 := h0.step ⟨.ensure 7, ⟨hn, trivial⟩, .ensure he⟩
  have h2 := h1.step ⟨.append sampleRow, ⟨trivial, hc⟩, .append sample_normalized (sample_inserted _)⟩
  have h3 := h2.step ⟨.tick juneFirst, ⟨trivial, trivial⟩, .tick (show januaryFirst ≤ juneFirst by decide)⟩
  rw [show Table.insert Row.ts _ sampleRow = _ from hi] at h3
  refine ⟨_, h3, by decide, _, _, hd, (drop_keeps_recent sampleDecoder).2 _ h3 30 _ _ hd, ?_⟩
  intro h
  cases h

end

end Logalot
