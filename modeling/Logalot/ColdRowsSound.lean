import Logalot.Lib.Groups
import Logalot.RetentionSound

/-!
# Rows of the archive

The hour of a key is that of the clock when the events are grouped. A row without a
time of its own takes that of the clock when it is encoded, which may be a later
hour.
-/

namespace Logalot

open Go Groups

/-! ## Hours in keys -/

def unixHour (t : Time) : Int := t / 3600000000000

def SameHour (t u : Time) : Prop := unixHour t = unixHour u

instance (t u : Time) : Decidable (SameHour t u) := inferInstanceAs (Decidable (_ = _))

def hourPrefix (tenantID : Bytes) (t : Time) : Bytes :=
  bs "logs/tenant_id=" ++ tenantID ++ bs "/dt=" ++ formatDate t ++ bs "/hour=" ++ padInt (hour t) 2 ++ bs "/"

theorem coldKey_eq (tenantID batchID : Bytes) (t : Time) :
    coldKey tenantID batchID t = hourPrefix tenantID t ++ (batchID ++ bs ".parquet") := by
  simp only [coldKey, hourPrefix, List.append_assoc]

variable {t u : Time}

theorem sameHour_iff : SameHour t u ↔ unixDay t = unixDay u ∧ hour t = hour u := by
  unfold SameHour unixHour unixDay hour
  omega

theorem partitionKey_congr (h : SameHour t u) : partitionKey t = partitionKey u := by
  obtain ⟨hd, hh⟩ := sameHour_iff.mp h
  unfold partitionKey formatDate
  rw [hd, hh]

theorem hourPrefix_congr (tenantID : Bytes) (h : SameHour t u) : hourPrefix tenantID t = hourPrefix tenantID u := by
  obtain ⟨hd, hh⟩ := sameHour_iff.mp h
  unfold hourPrefix formatDate
  rw [hd, hh]

theorem prefix_of_separated {α : Type*} {c : α} :
    ∀ {a b s t : List α}, c ∉ a → c ∉ b → (a ++ c :: s) <+: (b ++ c :: t) → a = b ∧ s <+: t
  | [], [], _, _, _, _, h => ⟨rfl, (List.cons_prefix_cons.mp h).2⟩
  | [], _ :: _, _, _, _, hb, h => absurd ((List.cons_prefix_cons.mp h).1 ▸ List.mem_cons_self) hb
  | _ :: _, [], _, _, ha, _, h => absurd ((List.cons_prefix_cons.mp h).1 ▸ List.mem_cons_self) ha
  | _ :: _, _ :: _, _, _, ha, hb, h => by
    obtain ⟨rfl, h'⟩ := List.cons_prefix_cons.mp h
    obtain ⟨rfl, hs⟩ := prefix_of_separated (fun hm => ha (List.mem_cons_of_mem _ hm))
      (fun hm => hb (List.mem_cons_of_mem _ hm)) h'
    exact ⟨rfl, hs⟩

theorem hourPrefix_prefix_iff (tenantID batchID : Bytes) :
    hourPrefix tenantID u <+: coldKey tenantID batchID t ↔ SameHour t u := by
  constructor
  · intro h
    have hhour : bs "/hour=" = 47 :: bs "hour=" := by decide
    simp only [coldKey, hourPrefix, hhour, List.append_assoc, List.cons_append] at h
    rw [List.prefix_append_right_inj, List.prefix_append_right_inj, List.prefix_append_right_inj] at h
    obtain ⟨hdate, h⟩ := prefix_of_separated (slash_not_mem_formatDate u) (slash_not_mem_formatDate t) h
    rw [List.prefix_append_right_inj] at h
    have hlen : ∀ t, (padInt (hour t) 2).length = 2 := fun t =>
      length_padInt (hour_bounds t).1 (hour_bounds t).2 (by decide)
    have htake := List.prefix_iff_eq_take.mp ((List.prefix_append _ _).trans h)
    rw [hlen u, List.take_left' (hlen t)] at htake
    exact sameHour_iff.mpr ⟨(unixDay_of_formatDate hdate).symm, (padInt_inj htake).symm⟩
  · intro h
    rw [coldKey_eq, hourPrefix_congr tenantID h]
    exact List.prefix_append _ _

/-! ## Milliseconds -/

def FitsMillis (t : Int) : Prop := -(2 ^ 63) ≤ t / 1000000 ∧ t / 1000000 < 2 ^ 63

instance (t : Time) : Decidable (FitsMillis t) := inferInstanceAs (Decidable (_ ∧ _))

theorem sameHour_unixMilli_iff {t : Int} : SameHour t (unixMilli t * 1000000) ↔ FitsMillis t := by
  unfold SameHour unixHour unixMilli FitsMillis
  rw [Int.bmod_def]
  norm_num
  split <;> omega

/-! ## Groups of a batch -/

section
variable (filed : Nat → Time)

def filedAt (x : LogEvent × Nat) : Time := resolveTS (filed x.2) x.1

def toGroup (g : Bytes × List (LogEvent × Nat)) : EventGroup :=
  ⟨g.1, (g.2.head?.map (filedAt filed)).getD zeroTime, g.2.map Prod.fst⟩

variable {filed}

theorem addToGroup_toGroup {groups : List (Bytes × List (LogEvent × Nat))} (h : ∀ g ∈ groups, g.2 ≠ [])
    (x : LogEvent × Nat) : addToGroup (groups.map (toGroup filed)) (filedAt filed x) x.1 =
      (fileInto (fun x => partitionKey (filedAt filed x)) groups x).map (toGroup filed) := by
  unfold addToGroup fileInto
  have hmem : (∃ g ∈ groups.map (toGroup filed), g.pk = partitionKey (filedAt filed x)) ↔
      partitionKey (filedAt filed x) ∈ groups.map Prod.fst := by
    simp only [List.mem_map, exists_exists_and_eq_and]
    exact Iff.rfl
  by_cases hk : partitionKey (filedAt filed x) ∈ groups.map Prod.fst
  · rw [if_pos (hmem.mpr hk), if_pos hk, List.map_map, List.map_map]
    apply List.map_congr_left
    intro g hg
    obtain ⟨y, ys, hy⟩ := List.exists_cons_of_ne_nil (h g hg)
    by_cases hpk : g.1 = partitionKey (filedAt filed x)
    · simp [toGroup, hpk, hy]
    · simp [toGroup, hpk]
  · rw [if_neg fun he => hk (hmem.mp he), if_neg hk, List.map_append]
    rfl

theorem foldl_addToGroup (l : List (LogEvent × Nat)) : ∀ {groups : List (Bytes × List (LogEvent × Nat))}
    {done : List (LogEvent × Nat)}, Grouped (fun x => partitionKey (filedAt filed x)) groups done →
      l.foldl (fun groups x => addToGroup groups (resolveTS (filed x.2) x.1) x.1) (groups.map (toGroup filed)) =
        (l.foldl (fileInto fun x => partitionKey (filedAt filed x)) groups).map (toGroup filed) := by
  induction l with
  | nil =>
    intro groups done _
    rfl
  | cons x l ih =>
    intro groups done h
    rw [List.foldl_cons, List.foldl_cons, ← ih (h.fileInto x)]
    congr 1
    exact addToGroup_toGroup h.nonempty x

def filing (filed : Nat → Time) (events : List LogEvent) : List (Bytes × List (LogEvent × Nat)) :=
  (groupsBy (fun x => partitionKey (filedAt filed x)) events.zipIdx).insertionSort fun a b => textLe a.1 b.1 = true

theorem partitionEvents_eq (events : List LogEvent) :
    partitionEvents filed events = (filing filed events).map (toGroup filed) := by
  have hfold := foldl_addToGroup events.zipIdx (grouped_nil fun x => partitionKey (filedAt filed x))
  unfold partitionEvents filing groupsBy
  rw [List.map_insertionSort (fun a b => textLe a.1 b.1 = true) (fun a b => textLe a.pk b.pk = true) (toGroup filed) _
    fun a _ b _ => Iff.rfl, ← hfold]
  rfl

theorem grouped_filing (filed : Nat → Time) (events : List LogEvent) :
    Grouped (fun x => partitionKey (filedAt filed x)) (filing filed events) events.zipIdx :=
  (grouped_groupsBy _ _).of_perm (List.perm_insertionSort _ _)

end

/-! ## Objects of a batch -/

theorem putObjects_of_ok {puts : Nat → Bool} : ∀ {i : Nat} {os : List ColdObject}, (putObjects puts i os).2 = true →
    (putObjects puts i os).1 = os
  | _, [], _ => rfl
  | i, o :: os, h => by
    rw [putObjects] at h ⊢
    split at h
    · rename_i hput
      rw [if_pos hput]
      exact congrArg (o :: ·) (putObjects_of_ok h)
    · cases h

section
variable {tc : TenantContext} {filed : Nat → Time} {encoded : Nat → Nat → Time} {ids : Nat → Bytes}
variable {x : (Bytes × List (LogEvent × Nat)) × Nat}
  {puts : Nat → Bool} {events : List LogEvent}

def objectOf (tc : TenantContext) (filed : Nat → Time) (encoded : Nat → Nat → Time) (ids : Nat → Bytes)
    (x : (Bytes × List (LogEvent × Nat)) × Nat) : ColdObject :=
  coldObject tc (encoded x.2) (ids x.2) (toGroup filed x.1)

theorem archive_of_ok (h : (archive tc filed encoded ids puts events).2 = true) :
    (archive tc filed encoded ids puts events).1 =
      (filing filed events).zipIdx.map (objectOf tc filed encoded ids) := by
  unfold archive at h ⊢
  split at h
  · cases h
  · rw [putObjects_of_ok h, partitionEvents_eq, coldObjects, List.zipIdx_map, List.map_map]
    rfl

theorem records_objectOf (x : (Bytes × List (LogEvent × Nat)) × Nat) :
    (objectOf tc filed encoded ids x).records =
      x.1.2.zipIdx.map fun (y, j) => coldRecord tc (resolveTS (encoded x.2 j) y.1) y.1 := by
  unfold objectOf coldObject encodeParquet toGroup
  simp only
  rw [List.zipIdx_map, List.map_map]
  rfl

theorem key_objectOf (hx : x ∈ (filing filed events).zipIdx)
    {y : LogEvent × Nat} (hy : y ∈ x.1.2) :
    (objectOf tc filed encoded ids x).key = coldKey tc.tenantId (ids x.2) (filedAt filed y) := by
  have hg := grouped_filing filed events
  have hmem : x.1 ∈ filing filed events := List.fst_mem_of_mem_zipIdx hx
  obtain ⟨z, zs, hz⟩ := List.exists_cons_of_ne_nil (hg.nonempty x.1 hmem)
  have hsame : partitionKey (filedAt filed z) = partitionKey (filedAt filed y) :=
    (hg.keyed x.1 hmem z (hz ▸ List.mem_cons_self)).trans (hg.keyed x.1 hmem y hy).symm
  obtain ⟨hdate, hhour⟩ := partitionKey_inj hsame
  have ht : (toGroup filed x.1).t = filedAt filed z := by
    unfold toGroup
    rw [hz]
    rfl
  unfold objectOf coldObject coldKey
  simp only
  rw [ht, hdate, hhour]

/-- An event with a time is stored to the millisecond. One without is stored with the time of the clock when it
is encoded, which is to be in the hour in which it was filed. -/
def KeepsHour (filed encoded : Time) (ev : LogEvent) : Prop :=
  (isZero ev.ts = false → FitsMillis ev.ts) ∧ (isZero ev.ts = true → SameHour filed (unixMilli encoded * 1000000))

theorem keepsHour_iff {now : Time} {y : LogEvent × Nat} : KeepsHour (filed y.2) now y.1 ↔
    SameHour (filedAt filed y) (unixMilli (resolveTS now y.1) * 1000000) := by
  unfold KeepsHour filedAt resolveTS
  cases hz : isZero y.1.ts with
  | false => simpa using sameHour_unixMilli_iff.symm
  | true => simp

theorem row_names_hour_iff (hx : x ∈ (filing filed events).zipIdx)
    {y : (LogEvent × Nat) × Nat} (hy : y ∈ x.1.2.zipIdx) :
    hourPrefix tc.tenantId ((coldRecord tc (resolveTS (encoded x.2 y.2) y.1.1) y.1.1).ts * 1000000) <+:
        (objectOf tc filed encoded ids x).key ↔
      KeepsHour (filed y.1.2) (encoded x.2 y.2) y.1.1 := by
  rw [key_objectOf hx (List.fst_mem_of_mem_zipIdx hy), hourPrefix_prefix_iff, keepsHour_iff]
  exact Iff.rfl

theorem nodup_keys : ((filing filed events).zipIdx.map fun x => (objectOf tc filed encoded ids x).key).Nodup := by
  have hg := grouped_filing filed events
  have hpk := hg.nodup
  rw [← List.zipIdx_map_fst 0 (filing filed events), List.map_map, List.Nodup, List.pairwise_map] at hpk
  rw [List.Nodup, List.pairwise_map]
  refine hpk.imp_of_mem fun {x x'} hx hx' hne he => hne ?_
  have hmem := List.fst_mem_of_mem_zipIdx hx
  have hmem' := List.fst_mem_of_mem_zipIdx hx'
  obtain ⟨y, hy⟩ := List.exists_mem_of_ne_nil _ (hg.nonempty x.1 hmem)
  obtain ⟨y', hy'⟩ := List.exists_mem_of_ne_nil _ (hg.nonempty x'.1 hmem')
  rw [key_objectOf hx hy, key_objectOf hx' hy'] at he
  have hsame : SameHour (filedAt filed y) (filedAt filed y') := by
    rw [← hourPrefix_prefix_iff tc.tenantId (ids x.2), he, coldKey_eq]
    exact List.prefix_append _ _
  calc x.1.1 = partitionKey (filedAt filed y) := (hg.keyed x.1 hmem y hy).symm
    _ = partitionKey (filedAt filed y') := partitionKey_congr hsame
    _ = x'.1.1 := hg.keyed x'.1 hmem' y' hy'

/-- The rows of the objects: those of the `k`-th object are of the events in the `k`-th group, each of which is
filed under its hour. -/
structure Placed (tc : TenantContext) (filed : Nat → Time) (encoded : Nat → Nat → Time) (ids : Nat → Bytes)
    (groups : List (List (LogEvent × Nat))) (objects : List ColdObject) : Prop where
  records : objects.map ColdObject.records = groups.zipIdx.map fun (g, k) => g.zipIdx.map fun (y, j) =>
    coldRecord tc (resolveTS (encoded k j) y.1) y.1
  keys : ∀ x ∈ groups.zipIdx, ∀ y ∈ x.1,
    (objects.map ColdObject.key)[x.2]? = some (coldKey tc.tenantId (ids x.2) (filedAt filed y))

/-- **Rows of a batch.** A call that succeeds writes each event of the batch in one row, under the tenant of the
context. The rows are of the hour their key names exactly when each event keeps its hour. -/
theorem archive_rows (h : (archive tc filed encoded ids puts events).2 = true) :
    ∃ groups : List (List (LogEvent × Nat)), groups.flatten.Perm events.zipIdx ∧
      Placed tc filed encoded ids groups (archive tc filed encoded ids puts events).1 ∧
      ((archive tc filed encoded ids puts events).1.map ColdObject.key).Nodup ∧
      (∀ o ∈ (archive tc filed encoded ids puts events).1, tenantColdPrefix tc.tenantId <+: o.key ∧
        ∀ r ∈ o.records, r.tenantId = tc.tenantId) ∧
      ((∀ o ∈ (archive tc filed encoded ids puts events).1, ∀ r ∈ o.records,
          hourPrefix tc.tenantId (r.ts * 1000000) <+: o.key) ↔
        ∀ x ∈ groups.zipIdx, ∀ y ∈ x.1.zipIdx, KeepsHour (filed y.1.2) (encoded x.2 y.2) y.1.1) := by
  have hg := grouped_filing filed events
  rw [archive_of_ok h]
  refine ⟨(filing filed events).map Prod.snd, ?_, ⟨?_, ?_⟩, ?_, ?_, ?_⟩
  · rw [← List.flatMap_def]
    exact hg.perm
  · rw [List.zipIdx_map, List.map_map, List.map_map]
    apply List.map_congr_left
    intro x hx
    exact records_objectOf x
  · intro x hx y hy
    rw [List.zipIdx_map] at hx
    obtain ⟨⟨g, k⟩, hmem, rfl⟩ := List.mem_map.mp hx
    have hget := List.mem_zipIdx_iff_getElem?.mp hmem
    simp only at hget
    simp only [List.getElem?_map, List.getElem?_zipIdx, Prod.map, id]
    rw [hget, Nat.zero_add]
    exact congrArg some (key_objectOf hmem hy)
  · rw [List.map_map]
    exact nodup_keys
  · intro o ho
    obtain ⟨x, hx, rfl⟩ := List.mem_map.mp ho
    refine ⟨tenantColdPrefix_coldKey _ _ _, fun r hr => ?_⟩
    rw [records_objectOf] at hr
    obtain ⟨y, -, rfl⟩ := List.mem_map.mp hr
    rfl
  · constructor
    · intro hrows x hx y hy
      rw [List.zipIdx_map] at hx
      obtain ⟨x, hmem, rfl⟩ := List.mem_map.mp hx
      refine (row_names_hour_iff hmem hy).mp (hrows _ (List.mem_map_of_mem hmem) _ ?_)
      rw [records_objectOf]
      exact List.mem_map_of_mem hy
    · intro hkeep o ho r hr
      obtain ⟨x, hx, rfl⟩ := List.mem_map.mp ho
      rw [records_objectOf] at hr
      obtain ⟨y, hy, rfl⟩ := List.mem_map.mp hr
      refine (row_names_hour_iff hx hy).mpr (hkeep (x.1.2, x.2) ?_ y hy)
      rw [List.zipIdx_map]
      exact List.mem_map.mpr ⟨x, hx, rfl⟩

end

/-! ### An hour passes -/

section
open Pipeline

def archiveUntimed (filed encoded : Time) : List ColdObject × Bool :=
  archive sampleContext (fun _ => filed) (fun _ _ => encoded) (fun _ => bs "batch") (fun _ => true)
    [{ sampleEvent with ts := zeroTime }]

/-- A nanosecond later the event is encoded with the time of the next hour. -/
theorem row_in_next_hour :
    (archiveUntimed (juneFirst + 3599999999999) (juneFirst + 3600000000000)).2 = true ∧
    ∃ o ∈ (archiveUntimed (juneFirst + 3599999999999) (juneFirst + 3600000000000)).1, ∃ r ∈ o.records,
      ¬ hourPrefix sampleContext.tenantId (r.ts * 1000000) <+: o.key := by
  decide

theorem row_in_its_hour :
    (archiveUntimed juneFirst (juneFirst + 3599999999999)).1.length = 1 ∧
    ∀ o ∈ (archiveUntimed juneFirst (juneFirst + 3599999999999)).1, ∀ r ∈ o.records,
      hourPrefix sampleContext.tenantId (r.ts * 1000000) <+: o.key := by
  have hok : (archiveUntimed juneFirst (juneFirst + 3599999999999)).2 = true := by decide
  obtain ⟨groups, hperm, -, -, -, hiff⟩ := archive_rows hok
  refine ⟨by decide, hiff.mpr fun x hx y hy => ?_⟩
  have hmem : y.1 ∈ groups.flatten :=
    List.mem_flatten.mpr ⟨x.1, List.fst_mem_of_mem_zipIdx hx, List.fst_mem_of_mem_zipIdx hy⟩
  rw [List.mem_singleton.mp (hperm.mem_iff.mp hmem)]
  exact ⟨by decide, by decide⟩

end

end Logalot
