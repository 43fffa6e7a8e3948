import Logalot.Ingest
import Logalot.PartitionRuns
import Logalot.PartitionsSound

/-!
# When partitions can be created ahead

A row appended on a day that a later call covers, and no earlier one did, is in the
default partition, and stays there.
-/

namespace Logalot

open Go Pg Ranges

/-! ## Names -/

theorem toChar_inj {d e : Int} (hd : 1 ≤ (civil d).year) (he : 1 ≤ (civil e).year) (h : toChar d = toChar e) :
    d = e := by
  obtain ⟨hm, hday⟩ := civil_lt_hundred d
  obtain ⟨hm', hday'⟩ := civil_lt_hundred e
  have hlen : ∀ n : Int, 0 ≤ n ∧ n < 10 ^ 2 → (padInt n 2).length = 2 := fun n hn => length_padInt hn.1 hn.2 (by decide)
  simp only [toChar, if_neg (show ¬ (civil d).year ≤ 0 by omega), if_neg (show ¬ (civil e).year ≤ 0 by omega)] at h
  obtain ⟨h, h3⟩ := List.append_inj' h ((hlen _ hday).trans (hlen _ hday').symm)
  obtain ⟨h1, h2⟩ := List.append_inj' h ((hlen _ hm).trans (hlen _ hm').symm)
  rw [← dayNumber_civil d, ← dayNumber_civil e]
  unfold dayNumber
  rw [padInt_inj h1, padInt_inj h2, padInt_inj h3]

theorem partitionName_inj {d e : Int} (hd : 1 ≤ (civil d).year) (he : 1 ≤ (civil e).year)
    (h : partitionName d = partitionName e) : d = e :=
  toChar_inj hd he (List.append_cancel_left h)

/-! ## Days -/

def ByDay (t : HotTable) : Prop := ∀ p ∈ t.parts, ∃ day, 1 ≤ (civil day).year ∧ p.name = partitionName day ∧
  p.lo = day * dayMicros ∧ p.hi = (day + 1) * dayMicros

theorem rowDay_eq_iff {r : Row} {day : Int} :
    rowDay r = day ↔ day * dayMicros ≤ r.ts ∧ r.ts < (day + 1) * dayMicros := by
  unfold rowDay dayMicros
  omega

variable {t : HotTable}

theorem ByDay.covers_iff (ht : ByDay t) (r : Row) : t.Covers r.ts ↔ HasDay t (rowDay r) := by
  constructor
  · rintro ⟨p, hp, hc⟩
    obtain ⟨day, -, -, hlo, hhi⟩ := ht p hp
    have hday : rowDay r = day := by
      rw [rowDay_eq_iff, ← hlo, ← hhi]
      exact hc
    rw [hday]
    exact ⟨p, hp, hlo, hhi⟩
  · rintro ⟨p, hp, hlo, hhi⟩
    refine ⟨p, hp, ?_⟩
    unfold Partition.Covers
    rw [hlo, hhi]
    exact rowDay_eq_iff.mp rfl

/-! ## Creating partitions -/

structure Created (t t' : HotTable) (days : Int → Prop) : Prop where
  rest : t'.rest = t.rest
  byDay : ByDay t'
  hasDay : ∀ d, HasDay t' d ↔ HasDay t d ∨ days d

def Blocked (t : HotTable) (days : Int → Prop) : Prop := ∃ d, days d ∧ ¬ HasDay t d ∧ ∃ r ∈ t.rest, rowDay r = d

theorem Created.trans {u v : HotTable} {P Q : Int → Prop} (h : Created t u P) (h' : Created u v Q) :
    Created t v fun d => P d ∨ Q d :=
  ⟨h'.rest.trans h.rest, h'.byDay, fun d => by rw [h'.hasDay, h.hasDay, or_assoc]⟩

theorem ByDay.create_of_hasDay (ht : ByDay t) {day : Int} (hday : HasDay t day) :
    createLogEventsPartition t day = some t := by
  obtain ⟨p, hp, hlo, hhi⟩ := hday
  obtain ⟨day', -, hn, hlo', -⟩ := ht p hp
  obtain rfl : day' = day := by
    rw [hlo] at hlo'
    unfold dayMicros at hlo'
    omega
  exact if_pos ⟨p, hp, hn⟩

theorem ByDay.create_cases (ht : ByDay t) {day : Int} (hy : 1 ≤ (civil day).year) :
    (createLogEventsPartition t day = none ∧ Blocked t (· = day)) ∨
      (∃ t', createLogEventsPartition t day = some t' ∧ Created t t' (· = day) ∧ ¬ Blocked t (· = day)) := by
  by_cases hn : HasDay t day
  · refine .inr ⟨t, ht.create_of_hasDay hn, ⟨rfl, ht, fun d => ⟨.inl, ?_⟩⟩, ?_⟩
    · rintro (h | rfl)
      · exact h
      · exact hn
    · rintro ⟨d, rfl, hd, -⟩
      exact hd hn
  have hname : ¬ ∃ p ∈ t.parts, p.name = partitionName day := by
    rintro ⟨p, hp, he⟩
    obtain ⟨day', hy', hn', hlo, hhi⟩ := ht p hp
    obtain rfl := partitionName_inj hy hy' (he.symm.trans hn')
    exact hn ⟨p, hp, hlo, hhi⟩
  have hparts : ¬ ∃ p ∈ t.parts, p.lo < (day + 1) * dayMicros ∧ day * dayMicros < p.hi := by
    rintro ⟨p, hp, hlt, hgt⟩
    obtain ⟨day', -, -, hlo, hhi⟩ := ht p hp
    rw [hlo] at hlt
    rw [hhi] at hgt
    obtain rfl : day' = day := by
      unfold dayMicros at hlt hgt
      omega
    exact hn ⟨p, hp, hlo, hhi⟩
  unfold createLogEventsPartition Table.create
  rw [if_neg hname]
  by_cases hrow : ∃ r ∈ t.rest, day * dayMicros ≤ r.ts ∧ r.ts < (day + 1) * dayMicros
  · rw [if_pos (.inr hrow)]
    obtain ⟨r, hr, hc⟩ := hrow
    exact .inl ⟨rfl, day, rfl, hn, r, hr, rowDay_eq_iff.mpr hc⟩
  · rw [if_neg (not_or.mpr ⟨hparts, hrow⟩)]
    refine .inr ⟨_, rfl, ⟨rfl, fun p hp => ?_, fun d => ⟨?_, ?_⟩⟩, ?_⟩
    · rcases List.mem_append.mp hp with hp | hp
      · exact ht p hp
      · rw [List.mem_singleton.mp hp]
        exact ⟨day, hy, rfl, rfl, rfl⟩
    · rintro ⟨p, hp, hlo, hhi⟩
      rcases List.mem_append.mp hp with hp | hp
      · exact .inl ⟨p, hp, hlo, hhi⟩
      · rw [List.mem_singleton.mp hp] at hlo
        unfold dayMicros at hlo
        exact .inr (by dsimp only at hlo; omega)
    · rintro (⟨p, hp, h⟩ | rfl)
      · exact ⟨p, List.mem_append_left _ hp, h⟩
      · exact ⟨_, List.mem_append_right _ List.mem_cons_self, rfl, rfl⟩
    · rintro ⟨d, rfl, -, r, hr, he⟩
      exact hrow ⟨r, hr, rowDay_eq_iff.mp he⟩

theorem ByDay.createAll_cases {today : Int} : ∀ {days : List Nat} {t : HotTable}, ByDay t →
    (∀ i ∈ days, 1 ≤ (civil (today + (i : Int))).year) →
    (days.foldlM (fun t (i : Nat) => createLogEventsPartition t (today + (i : Int))) t = none ∧
        Blocked t fun d => ∃ i ∈ days, d = today + (i : Int)) ∨
      ∃ t', days.foldlM (fun t (i : Nat) => createLogEventsPartition t (today + (i : Int))) t = some t' ∧
        Created t t' (fun d => ∃ i ∈ days, d = today + (i : Int)) ∧
        ¬ Blocked t fun d => ∃ i ∈ days, d = today + (i : Int)
  | [], t, ht, _ => by
    refine .inr ⟨t, rfl, ⟨rfl, ht, fun d => by simp⟩, ?_⟩
    rintro ⟨d, ⟨i, hi, -⟩, -⟩
    cases hi
  | i :: days, t, ht, hy => by
    have hcons : (fun d => ∃ j ∈ i :: days, d = today + (j : Int)) =
        fun d => d = today + (i : Int) ∨ ∃ j ∈ days, d = today + (j : Int) := by
      funext d
      simp
    rw [List.foldlM_cons, hcons]
    rcases ht.create_cases (hy i List.mem_cons_self) with ⟨he, d, hd, h⟩ | ⟨u, he, hu, hfree⟩
    · rw [he]
      exact .inl ⟨rfl, d, .inl hd, h⟩
    · rw [he, Option.bind_eq_bind, Option.bind_some]
      rcases hu.byDay.createAll_cases (fun j hj => hy j (List.mem_cons_of_mem _ hj)) with
        ⟨he', d, hd, hn, r, hr, hrow⟩ | ⟨t', he', ht', hfree'⟩
      · rw [hu.rest] at hr
        exact .inl ⟨he', d, .inr hd, fun h => hn ((hu.hasDay d).mpr (.inl h)), r, hr, hrow⟩
      · refine .inr ⟨t', he', hu.trans ht', ?_⟩
        rintro ⟨d, hd, hn, r, hr, hrow⟩
        by_cases hi : d = today + (i : Int)
        · exact hfree ⟨d, hi, hn, r, hr, hrow⟩
        · refine hfree' ⟨d, hd.resolve_left hi, fun h => ?_, r, by rw [hu.rest]; exact hr, hrow⟩
          exact ((hu.hasDay d).mp h).elim hn hi

def Ahead (today : Int) (daysAhead : Nat) (d : Int) : Prop := today ≤ d ∧ d ≤ today + daysAhead

theorem ByDay.ensure_cases (ht : ByDay t) {today : Int} (hy : 1 ≤ (civil today).year) (daysAhead : Nat) :
    (ensureLogEventsPartitions today daysAhead t = none ∧ Blocked t (Ahead today daysAhead)) ∨
      ∃ t', ensureLogEventsPartitions today daysAhead t = some t' ∧ Created t t' (Ahead today daysAhead) ∧
        ¬ Blocked t (Ahead today daysAhead) := by
  have hdays : (fun d => ∃ i ∈ List.range (daysAhead + 1), d = today + (i : Int)) = Ahead today daysAhead := by
    funext d
    refine propext ⟨?_, fun h => ⟨(d - today).toNat, ?_⟩⟩
    · rintro ⟨i, hi, rfl⟩
      have := List.mem_range.mp hi
      unfold Ahead
      omega
    · unfold Ahead at h
      rw [List.mem_range]
      omega
  have hyears : ∀ i ∈ List.range (daysAhead + 1), 1 ≤ (civil (today + (i : Int))).year := fun i _ =>
    hy.trans (civil_year_mono (by omega))
  have h := ht.createAll_cases hyears
  rw [hdays] at h
  exact h

/-! ## Appending -/

theorem hasDay_iff_head {d : Int} :
    HasDay t d ↔ ∃ h ∈ t.parts.map Partition.head, h.2.1 = d * dayMicros ∧ h.2.2 = (d + 1) * dayMicros := by
  simp [HasDay, Partition.head]

theorem byDay_iff_head : ByDay t ↔ ∀ h ∈ t.parts.map Partition.head, ∃ day, 1 ≤ (civil day).year ∧
    h.1 = partitionName day ∧ h.2.1 = day * dayMicros ∧ h.2.2 = (day + 1) * dayMicros := by
  simp [ByDay, Partition.head]

theorem hasDay_insert (t : HotTable) (r : Row) (d : Int) : HasDay (t.insert Row.ts r) d ↔ HasDay t d := by
  rw [hasDay_iff_head, Table.map_head_insert, ← hasDay_iff_head]

theorem ByDay.insert (ht : ByDay t) (r : Row) : ByDay (t.insert Row.ts r) := by
  rw [byDay_iff_head, Table.map_head_insert, ← byDay_iff_head]
  exact ht

theorem ByDay.rest_insert (ht : ByDay t) (r : Row) :
    (HasDay t (rowDay r) ∧ (t.insert Row.ts r).rest = t.rest) ∨
      (¬ HasDay t (rowDay r) ∧ (t.insert Row.ts r).rest = t.rest ++ [r]) := by
  by_cases hc : t.Covers r.ts
  · exact .inl ⟨(ht.covers_iff r).mp hc, Table.rest_insert hc⟩
  · refine .inr ⟨fun h => hc ((ht.covers_iff r).mpr h), ?_⟩
    rw [Table.insert_of_not_covers hc]

/-! ## Histories -/

section
variable {s : Hot} {es : List HotAction} {i j : Nat} {dec : Decoder}

theorem before_succ {a : HotAction} (h : es[i]? = some a) : s.before es (i + 1) = (s.before es i).apply a := by
  unfold Hot.before
  rw [List.take_add_one, h, List.foldl_append]
  rfl

theorem before_succ_of_none (h : es[i]? = none) : s.before es (i + 1) = s.before es i := by
  unfold Hot.before
  rw [List.take_add_one, h, Option.toList_none, List.append_nil]

/-- What is known before an action: the partitions were asked for, and the rows of the default partition
were appended when there was no partition for them, and there still is none. -/
structure PartInv (s : Hot) (es : List HotAction) (i : Nat) : Prop where
  today : s.today ≤ (s.before es i).today
  byDay : ByDay (s.before es i).table
  asked : ∀ d, HasDay (s.before es i).table d → ∃ l < i, EnsuredAt s es l d
  strays : ∀ r ∈ (s.before es i).table.rest, ¬ HasDay (s.before es i).table (rowDay r) ∧
    ∃ l < i, es[l]? = some (.append r) ∧ ¬ HasDay (s.before es l).table (rowDay r)

theorem PartInv.year (hh : 1 ≤ (civil s.today).year) (h : PartInv s es i) : 1 ≤ (civil (s.before es i).today).year :=
  hh.trans (civil_year_mono h.today)

structure Grown (t t' : HotTable) : Prop where
  rest : ∀ r ∈ t.rest, r ∈ t'.rest
  days : ∀ d, HasDay t d → HasDay t' d

theorem Grown.refl (t : HotTable) : Grown t t := ⟨fun _ h => h, fun _ h => h⟩

theorem Grown.trans {t u v : HotTable} (h : Grown t u) (h' : Grown u v) : Grown t v :=
  ⟨fun r hr => h'.rest r (h.rest r hr), fun d hd => h'.days d (h.days d hd)⟩

theorem PartInv.idle (h : PartInv s es i) (htoday : s.today ≤ (s.before es (i + 1)).today)
    (ht : (s.before es (i + 1)).table = (s.before es i).table) :
    PartInv s es (i + 1) ∧ Grown (s.before es i).table (s.before es (i + 1)).table := by
  refine ⟨⟨htoday, by rw [ht]; exact h.byDay, fun d hd => ?_, fun r hr => ?_⟩, by rw [ht]; exact .refl _⟩
  · rw [ht] at hd
    obtain ⟨l, hl, he⟩ := h.asked d hd
    exact ⟨l, Nat.lt_succ_of_lt hl, he⟩
  · rw [ht] at hr ⊢
    obtain ⟨hn, l, hl, he⟩ := h.strays r hr
    exact ⟨hn, l, Nat.lt_succ_of_lt hl, he⟩

theorem PartInv.append {r : Row} (h : PartInv s es i) (ha : es[i]? = some (.append r)) :
    PartInv s es (i + 1) ∧ Grown (s.before es i).table (s.before es (i + 1)).table := by
  have hb : s.before es (i + 1) = (s.before es i).apply (.append r) := before_succ ha
  have ht : (s.before es (i + 1)).table = (s.before es i).table.insert Row.ts r := congrArg Hot.table hb
  have hlater : ∀ {r'}, (∃ l < i, es[l]? = some (.append r') ∧ ¬ HasDay (s.before es l).table (rowDay r')) →
      ∃ l < i + 1, es[l]? = some (.append r') ∧ ¬ HasDay (s.before es l).table (rowDay r') := by
    rintro r' ⟨l, hl, he⟩
    exact ⟨l, Nat.lt_succ_of_lt hl, he⟩
  refine ⟨⟨?_, ?_, fun d hd => ?_, fun r' hr => ?_⟩, fun r' hr => ?_, fun d hd => ?_⟩
  · rw [hb]
    exact h.today
  · rw [ht]
    exact h.byDay.insert r
  · rw [ht, hasDay_insert] at hd
    obtain ⟨l, hl, he⟩ := h.asked d hd
    exact ⟨l, Nat.lt_succ_of_lt hl, he⟩
  · rw [ht] at hr
    rw [ht, hasDay_insert]
    rcases h.byDay.rest_insert r with ⟨-, he⟩ | ⟨hn, he⟩
    · rw [he] at hr
      exact ⟨(h.strays r' hr).1, hlater (h.strays r' hr).2⟩
    · rw [he] at hr
      rcases List.mem_append.mp hr with hr | hr
      · exact ⟨(h.strays r' hr).1, hlater (h.strays r' hr).2⟩
      · rw [List.mem_singleton.mp hr]
        exact ⟨hn, i, Nat.lt_succ_self i, ha, hn⟩
  · rw [ht]
    rcases h.byDay.rest_insert r with ⟨-, he⟩ | ⟨-, he⟩
    · rw [he]
      exact hr
    · rw [he]
      exact List.mem_append_left _ hr
  · rw [ht, hasDay_insert]
    exact hd

theorem PartInv.ensure {daysAhead : Nat} (hy : 1 ≤ (civil s.today).year) (h : PartInv s es i)
    (ha : es[i]? = some (.ensure daysAhead)) :
    PartInv s es (i + 1) ∧ Grown (s.before es i).table (s.before es (i + 1)).table := by
  have hb : s.before es (i + 1) = (s.before es i).apply (.ensure daysAhead) := before_succ ha
  have ht : (s.before es (i + 1)).table =
      (ensureLogEventsPartitions (s.before es i).today daysAhead (s.before es i).table).getD (s.before es i).table :=
    congrArg Hot.table hb
  have htoday : s.today ≤ (s.before es (i + 1)).today := by
    rw [hb]
    exact h.today
  rcases h.byDay.ensure_cases (h.year hy) daysAhead with ⟨he, -⟩ | ⟨t', he, hc, hfree⟩
  · rw [he, Option.getD_none] at ht
    exact h.idle htoday ht
  · rw [he, Option.getD_some] at ht
    refine ⟨⟨htoday, by rw [ht]; exact hc.byDay, fun d hd => ?_, fun r hr => ?_⟩, fun r hr => ?_, fun d hd => ?_⟩
    · rw [ht, hc.hasDay] at hd
      rcases hd with hd | hd
      · obtain ⟨l, hl, he⟩ := h.asked d hd
        exact ⟨l, Nat.lt_succ_of_lt hl, he⟩
      · exact ⟨i, Nat.lt_succ_self i, daysAhead, ha, hd⟩
    · rw [ht, hc.rest] at hr
      obtain ⟨hn, l, hl, hl'⟩ := h.strays r hr
      refine ⟨?_, l, Nat.lt_succ_of_lt hl, hl'⟩
      rw [ht, hc.hasDay]
      rintro (hd | hd)
      · exact hn hd
      · exact hfree ⟨rowDay r, hd, hn, r, hr, rfl⟩
    · rw [ht, hc.rest]
      exact hr
    · rw [ht, hc.hasDay]
      exact .inl hd

theorem PartInv.succ (hh : PartitionHistory dec s es) (h : PartInv s es i) :
    PartInv s es (i + 1) ∧ Grown (s.before es i).table (s.before es (i + 1)).table := by
  cases ha : es[i]? with
  | none =>
    have hb : s.before es (i + 1) = s.before es i := before_succ_of_none ha
    exact h.idle (by rw [hb]; exact h.today) (congrArg Hot.table hb)
  | some a =>
    cases a with
    | append r => exact h.append ha
    | tick now =>
      have hb : s.before es (i + 1) = (s.before es i).apply (.tick now) := before_succ ha
      have hle : (s.before es i).today ≤ unixDay now := Int.ediv_le_ediv (by decide) (hh.forward i now ha)
      refine h.idle ?_ ?_
      · rw [hb]
        exact h.today.trans hle
      · rw [hb]
        rfl
    | ensure daysAhead => exact h.ensure hh.era ha
    | drop d => exact absurd ha (hh.kept i d)

theorem partInv (hh : PartitionHistory dec s es) (i : Nat) : PartInv s es i := by
  induction i with
  | zero =>
    have hb : s.before es 0 = s := rfl
    have hn : ∀ d, ¬ HasDay s.table d := by
      rintro d ⟨p, hp, -⟩
      rw [hh.empty] at hp
      cases hp
    refine ⟨le_refl _, fun p hp => ?_, fun d hd => absurd hd (hn d), fun r hr => ?_⟩
    · rw [hb, hh.empty] at hp
      cases hp
    · rw [hb, hh.empty] at hr
      cases hr
  | succ i ih => exact (ih.succ hh).1

theorem grown (hh : PartitionHistory dec s es) (hij : i ≤ j) :
    Grown (s.before es i).table (s.before es j).table := by
  induction hij with
  | refl => exact .refl _
  | step _ ih => exact ih.trans ((partInv hh _).succ hh).2

theorem blocked_of_stray (hh : PartitionHistory dec s es) (hij : i < j) {r : Row}
    (ha : es[i]? = some (.append r)) (hn : ¬ HasDay (s.before es i).table (rowDay r)) {daysAhead : Nat}
    (hd : Ahead (s.before es j).today daysAhead (rowDay r)) :
    Blocked (s.before es j).table (Ahead (s.before es j).today daysAhead) := by
  have hrest : r ∈ (s.before es (i + 1)).table.rest := by
    have hb : s.before es (i + 1) = (s.before es i).apply (.append r) := before_succ ha
    rw [hb]
    rcases (partInv hh i).byDay.rest_insert r with ⟨hday, -⟩ | ⟨-, he⟩
    · exact absurd hday hn
    · show r ∈ ((s.before es i).table.insert Row.ts r).rest
      rw [he]
      exact List.mem_append_right _ List.mem_cons_self
  have hr := (grown hh hij).rest r hrest
  exact ⟨rowDay r, hd, ((partInv hh j).strays r hr).1, r, hr, rfl⟩

theorem ensureSucceeds_iff (hh : PartitionHistory dec s es) (i daysAhead : Nat) :
    EnsureSucceeds (s.before es i) daysAhead ↔
      ¬ Blocked (s.before es i).table (Ahead (s.before es i).today daysAhead) := by
  have h := partInv hh i
  rcases h.byDay.ensure_cases (h.year hh.era) daysAhead with ⟨he, hb⟩ | ⟨t', he, hc, hfree⟩
  · refine iff_of_false ?_ (not_not_intro hb)
    rintro ⟨t, he', -⟩
    rw [he] at he'
    cases he'
  · exact iff_of_true ⟨t', he, fun d h1 h2 => (hc.hasDay d).mpr (.inr ⟨h1, h2⟩)⟩ hfree

/-- **Partitions ahead of ingestion.** Every call succeeds and leaves the partitions it is for exactly when no
row is appended on a day that a later call is for and no earlier one was. -/
theorem partitions_ensured_iff (hh : PartitionHistory dec s es) :
    (∀ i daysAhead : Nat, es[i]? = some (.ensure daysAhead) → EnsureSucceeds (s.before es i) daysAhead) ↔
      ∀ (i j : Nat) (r : Row), i < j → es[i]? = some (.append r) → EnsuredAt s es j (rowDay r) →
        ∃ l < i, EnsuredAt s es l (rowDay r) := by
  constructor
  · rintro hall i j r hij ha ⟨daysAhead, he, hd⟩
    refine (partInv hh i).asked _ (Classical.byContradiction fun hn => ?_)
    exact (ensureSucceeds_iff hh j daysAhead).mp (hall j daysAhead he) (blocked_of_stray hh hij ha hn hd)
  · intro hcond i
    induction i using Nat.strong_induction_on with
    | _ i ih =>
      intro daysAhead he
      rw [ensureSucceeds_iff hh]
      rintro ⟨d, hd, hn, r, hr, rfl⟩
      -- the row was appended before the day was asked for, against the condition
      obtain ⟨-, l, hl, ha, hnl⟩ := (partInv hh i).strays r hr
      obtain ⟨m, hm, k, hk, hmk⟩ := hcond l i r hl ha ⟨daysAhead, he, hd⟩
      obtain ⟨t, ht, hdays⟩ := ih m (hm.trans hl) k hk
      have hb : s.before es (m + 1) = (s.before es m).apply (.ensure k) := before_succ hk
      have htable : (s.before es (m + 1)).table = t := by
        rw [hb]
        show (ensureLogEventsPartitions _ _ _).getD _ = t
        rw [ht]
        rfl
      refine hnl ((grown hh hm).days _ ?_)
      rw [htable]
      exact hdays _ hmk.1 hmk.2

end

/-! ### Two histories -/

section
open Pipeline

def januaryThird : Time := 1767398400000000000

def futurePayload : Bytes := bs "\x7b\"ts\":\"2026-01-10T00:00:00Z\"\x7d"

def futureRow : Row :=
  { sampleRow with ts := 1768003200000000, message := [], raw := futurePayload }

def migrated (now : Time) : Hot := ⟨now, { parts := [], rest := [] }⟩

def futureEvent : LogEvent :=
  { sampleEvent with ts := 1768003200000000000, message := [], raw := futurePayload }

theorem futureRow_appendable : Appendable (goDecoder fun _ => none) januaryFirst futureRow := by
  have hn : normalize (goDecoder fun _ => none) sampleContext ⟨sampleContext.tenantId, januaryFirst, futurePayload⟩ 0 =
      .ok futureEvent := by decide
  have hr : insertRow sampleContext futureEvent januaryFirst futureRow.id = some futureRow := by decide
  exact ⟨_, _, _, _, _, hn, hr⟩

/-- The migration on the first of January, a row, and the call of the third. -/
def firstDays (r : Row) : List HotAction := [.ensure 7, .append r, .tick januaryThird, .ensure 7]

theorem firstDays_history {dec : Decoder} {r : Row} (hr : Appendable dec januaryFirst r) :
    PartitionHistory dec (migrated januaryFirst) (firstDays r) := by
  refine ⟨rfl, by decide, rfl, fun i r' h => ?_, fun i now h => ?_, fun i d h => ?_⟩
  · rcases i with _ | _ | _ | _ | i
    all_goals cases h
    exact hr
  · rcases i with _ | _ | _ | _ | i
    all_goals cases h
    exact show januaryFirst ≤ januaryThird by decide
  · rcases i with _ | _ | _ | _ | i
    all_goals cases h

/-- A row of the tenth that came on the first: the call for the next week fails. -/
theorem future_event_blocks : PartitionHistory (goDecoder fun _ => none) (migrated januaryFirst) (firstDays futureRow) ∧
    ¬ EnsureSucceeds ((migrated januaryFirst).before (firstDays futureRow) 3) 7 := by
  refine ⟨firstDays_history futureRow_appendable, ?_⟩
  rintro ⟨t, ht, -⟩
  have hnone : ensureLogEventsPartitions ((migrated januaryFirst).before (firstDays futureRow) 3).today 7
      ((migrated januaryFirst).before (firstDays futureRow) 3).table = none := by decide
  rw [hnone] at ht
  cases ht

/-- A row of the first is not in the way. -/
theorem january_event_passes : PartitionHistory sampleDecoder (migrated januaryFirst) (firstDays sampleRow) ∧
    EnsureSucceeds ((migrated januaryFirst).before (firstDays sampleRow) 3) 7 := by
  have hh : PartitionHistory sampleDecoder (migrated januaryFirst) (firstDays sampleRow) :=
    firstDays_history ⟨_, _, _, _, _, sample_normalized, sample_inserted _⟩
  refine ⟨hh, (partitions_ensured_iff hh).mpr ?_ 3 7 rfl⟩
  intro i j r hij ha _
  have hi : i = 1 ∧ r = sampleRow := by
    rcases i with _ | _ | _ | _ | i
    all_goals cases ha
    exact ⟨rfl, rfl⟩
  obtain ⟨rfl, rfl⟩ := hi
  exact ⟨0, Nat.zero_lt_one, 7, rfl, by decide, by decide⟩

end

end Logalot
