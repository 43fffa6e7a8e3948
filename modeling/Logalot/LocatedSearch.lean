import Logalot.UnionSearchSound

/-!
# Times with a location

A `time.Time` is an instant and a location, and a Go map compares both. The hot
store returns local times and the cold archive times in UTC, so that the merge
of the tiers takes the two forms of one event for two events.
-/

namespace Logalot

open Go Ordered FirstOf

/-! ## The merge -/

/-- The location pointer of a `time.Time`: UTC is nil. -/
inductive Location where
  | utc
  | localLoc
  | loaded (address : Nat)
  deriving Repr, DecidableEq

/-- An event whose `ts` is the instant of its time. -/
structure LocatedEvent where
  event : LogEvent Bytes
  loc : Location
  deriving Repr, DecidableEq

/-- The key of an event in the map `seen`, where only events with an id are. -/
def LocatedEvent.seenKey (ev : LocatedEvent) : Option ((Time × Location) × Bytes) :=
  if ev.event.id = [] then none else some ((ev.event.ts, ev.loc), ev.event.id)

def dedupeLocated (all : List LocatedEvent) : List LocatedEvent := firstOf LocatedEvent.seenKey [] all

/-- `sort.Slice`, whose order does not see locations. -/
structure LocatedSlice where
  sort : List LocatedEvent → List LocatedEvent
  perm : ∀ l, (sort l).Perm l
  sorted : ∀ l, (sort l).Pairwise fun a b => newer b.event a.event = false

abbrev LocatedAnswer := List LocatedEvent × Option Bytes

abbrev LocatedStore := TenantContext → SearchQuery → LocatedAnswer

def mergeLocated (slice : LocatedSlice) (limit : Int) (hot cold : LocatedAnswer) : LocatedAnswer :=
  match hot.2, cold.2 with
  | some e, some e' => ([], some (bs "tiered search: both tiers failed: " ++ e ++ bs "\n" ++ e'))
  | _, _ =>
    let deduped := slice.sort (dedupeLocated (hot.1 ++ cold.1))
    (if limit > 0 ∧ deduped.length > limit then deduped.take limit.toNat else deduped, none)

/-- `unionSearch`, of which only the answer is of interest here. -/
def TieredSearcher.unionLocated (ts : TieredSearcher) (slice : LocatedSlice) (hot cold : LocatedStore) (now : Time)
    (tc : TenantContext) (q : SearchQuery) : LocatedAnswer :=
  mergeLocated slice q.limit (hot tc (ts.split now q).1) (cold tc (ts.split now q).2)

/-! ## Without locations -/

def LocatedAnswer.forget (a : LocatedAnswer) : Answer Bytes := (⟨a.1.map LocatedEvent.event, none⟩, a.2)

/-- Two events with one time and id, at two locations. -/
def TwoForms (a b : LocatedEvent) : Prop := a.event.id ≠ [] ∧ a.event.tsID = b.event.tsID ∧ a.loc ≠ b.loc

theorem LocatedEvent.seenKey_eq_some {ev : LocatedEvent} {k : (Time × Location) × Bytes} :
    ev.seenKey = some k ↔ ev.event.id ≠ [] ∧ ((ev.event.ts, ev.loc), ev.event.id) = k := by
  unfold LocatedEvent.seenKey
  split <;> simp_all

theorem LocatedEvent.seenKey_event (ev : LocatedEvent) :
    ev.event.seenKey = ev.seenKey.map fun k => (k.1.1, k.2) := by
  unfold LogEvent.seenKey LocatedEvent.seenKey
  split <;> rfl

theorem map_dedupeLocated {all : List LocatedEvent} (h : ∀ a ∈ all, ∀ b ∈ all, ¬ TwoForms a b) :
    (dedupeLocated all).map LocatedEvent.event = dedupe [] (all.map LocatedEvent.event) := by
  rw [dedupe_eq_firstOf]
  refine map_firstOf LocatedEvent.event (fun k => (k.1.1, k.2)) (fun a _ => a.seenKey_event) fun k hk k' hk' he => ?_
  rw [List.nil_append] at hk hk'
  obtain ⟨a, ha, hka⟩ := List.mem_filterMap.mp hk
  obtain ⟨b, hb, hkb⟩ := List.mem_filterMap.mp hk'
  obtain ⟨hid, rfl⟩ := LocatedEvent.seenKey_eq_some.mp hka
  obtain ⟨-, rfl⟩ := LocatedEvent.seenKey_eq_some.mp hkb
  obtain ⟨hts, hids⟩ := Prod.mk.inj he
  have hloc : a.loc = b.loc := by
    by_contra hne
    exact h a ha b hb ⟨hid, Prod.ext hts hids, hne⟩
  simp only at hts hids
  rw [hts, hids, hloc]

/-- Sorting as given on one list, and by insertion on others. -/
def sliceOn (l s : List (LogEvent Bytes)) (hp : s.Perm l) (hs : s.Pairwise NotAfter) : SortSlice Bytes where
  sort l' := if l' = l then s else insertionSlice.sort l'
  perm l' := by
    split
    · rename_i h
      exact h ▸ hp
    · exact insertionSlice.perm l'
  sorted l' := by
    split
    · exact hs
    · exact insertionSlice.sorted l'

theorem mergePages_of_page {slice : SortSlice Bytes} {limit : Int} {hot cold : Answer Bytes}
    (h : hot.2 = none ∨ cold.2 = none) :
    mergePages slice limit hot cold =
      let deduped := slice.sort (dedupe [] (hot.1.events ++ cold.1.events))
      (⟨if limit > 0 ∧ deduped.length > limit then deduped.take limit.toNat else deduped, none⟩, none) := by
  unfold mergePages
  split
  · rename_i he he'
    rcases h with h | h
    · rw [h] at he
      cases he
    · rw [h] at he'
      cases he'
  · rfl

variable {hot cold : LocatedAnswer}

theorem mergeLocated_of_page {slice : LocatedSlice} {limit : Int}
    (h : hot.2 = none ∨ cold.2 = none) : mergeLocated slice limit hot cold =
      let deduped := slice.sort (dedupeLocated (hot.1 ++ cold.1))
      (if limit > 0 ∧ deduped.length > limit then deduped.take limit.toNat else deduped, none) := by
  unfold mergeLocated
  split
  · rename_i he he'
    rcases h with h | h
    · rw [h] at he
      cases he
    · rw [h] at he'
      cases he'
  · rfl

theorem mergeLocated_of_failed {slice : LocatedSlice} {limit : Int} {e e' : Bytes}
    (h : hot.2 = some e) (h' : cold.2 = some e') : mergeLocated slice limit hot cold =
      ([], some (bs "tiered search: both tiers failed: " ++ e ++ bs "\n" ++ e')) := by
  unfold mergeLocated
  rw [h, h']

/-- Where no event has two forms, the merge is the one of instants. -/
theorem forget_mergeLocated (slice : LocatedSlice) (limit : Int)
    (h : ∀ a ∈ hot.1 ++ cold.1, ∀ b ∈ hot.1 ++ cold.1, ¬ TwoForms a b) :
    ∃ slice', mergePages slice' limit hot.forget cold.forget = (mergeLocated slice limit hot cold).forget := by
  by_cases hok : hot.2 = none ∨ cold.2 = none
  · have hmap := map_dedupeLocated h
    rw [List.map_append] at hmap
    have hp := (slice.perm (dedupeLocated (hot.1 ++ cold.1))).map LocatedEvent.event
    rw [hmap] at hp
    refine ⟨sliceOn _ _ hp (List.pairwise_map.mpr (slice.sorted _)), ?_⟩
    rw [mergePages_of_page (show hot.forget.2 = none ∨ cold.forget.2 = none from hok), mergeLocated_of_page hok]
    simp only [LocatedAnswer.forget, sliceOn, if_true, List.length_map]
    split
    · rw [List.map_take]
    · rfl
  · rw [not_or] at hok
    obtain ⟨e, he⟩ := Option.ne_none_iff_exists'.mp hok.1
    obtain ⟨e', he'⟩ := Option.ne_none_iff_exists'.mp hok.2
    refine ⟨insertionSlice, ?_⟩
    rw [mergeLocated_of_failed he he']
    unfold mergePages LocatedAnswer.forget
    simp only [he, he', List.map_nil]

/-! ## Events that stay twice -/

theorem distinct_iff_countP {l : List (LogEvent Bytes)} :
    Distinct l ↔ ∀ k : Time × Bytes, k.2 ≠ [] → (l.countP fun ev => ev.tsID = k) ≤ 1 := by
  rw [distinct_iff, List.nodup_iff_count_le_one]
  have hcount : ∀ k : Time × Bytes, k.2 ≠ [] →
      (l.filterMap LogEvent.seenKey).count k = l.countP fun ev => ev.tsID = k := by
    intro k hk
    rw [List.count, List.countP_filterMap]
    congr 1
    funext ev
    by_cases hid : ev.id = []
    · have hne : ev.tsID ≠ k := fun he => hk (he ▸ hid)
      simp [LogEvent.seenKey, hid, hne]
    · simp [LogEvent.seenKey, hid, beq_eq_decide]
  constructor
  · intro h k hk
    rw [← hcount k hk]
    exact h k
  · intro h k
    by_cases hk : k.2 = []
    · -- no key has an empty id
      rw [List.count_eq_zero.mpr]
      · exact Nat.zero_le 1
      · intro hmem
        obtain ⟨ev, -, hev⟩ := List.mem_filterMap.mp hmem
        obtain ⟨hid, rfl⟩ := seenKey_eq_some.mp hev
        exact hid hk
    · rw [hcount k hk]
      exact h k hk

theorem length_dedup_le_one {κ : Type*} [DecidableEq κ] {l : List κ} :
    l.dedup.length ≤ 1 ↔ ∀ a ∈ l, ∀ b ∈ l, a = b := by
  constructor
  · intro h a ha b hb
    by_contra hne
    have hsub : [a, b].Subperm l.dedup := List.subperm_of_subset (by simp [hne]) (by simp [ha, hb])
    have := hsub.length_le
    simp only [List.length_cons, List.length_nil] at this
    omega
  · intro h
    match hd : l.dedup with
    | [] => simp
    | [_] => simp
    | a :: b :: m =>
      have hn := List.nodup_dedup l
      have hmem : ∀ c ∈ l.dedup, c ∈ l := fun c => List.mem_dedup.mp
      rw [hd] at hn hmem
      have hab : a = b := h a (hmem a (by simp)) b (hmem b (by simp))
      simp [hab] at hn

/-- The events that stand before an event when the pages are merged: those that are newer, each form once. -/
def ahead (all : List LocatedEvent) (ev : LocatedEvent) : Nat :=
  (all.filter fun e => e.event.id = []).countP (fun e => newer e.event ev.event) +
    ((all.filter fun e => newer e.event ev.event).filterMap LocatedEvent.seenKey).dedup.length

section
variable {all : List LocatedEvent} {x : LocatedEvent}

theorem isNone_seenKey (ev : LocatedEvent) : ev.seenKey.isNone = decide (ev.event.id = []) := by
  unfold LocatedEvent.seenKey
  split <;> simp_all

theorem tsID_of_seenKey {a b : LocatedEvent} {k : (Time × Location) × Bytes} (ha : a.seenKey = some k)
    (hb : b.seenKey = some k) : a.event.tsID = b.event.tsID := by
  obtain ⟨-, rfl⟩ := LocatedEvent.seenKey_eq_some.mp ha
  have h := (LocatedEvent.seenKey_eq_some.mp hb).2
  simp only [Prod.mk.injEq] at h
  exact Prod.ext h.1.1.symm h.2.symm

theorem newer_of_tsID {a b c : LogEvent Bytes} (h : a.tsID = b.tsID) : newer a c = newer b c := by
  obtain ⟨hts, hid⟩ := Prod.mk.inj h
  unfold newer
  rw [hts, hid]

theorem countP_newer_dedupeLocated (all : List LocatedEvent) (x : LocatedEvent) :
    ((dedupeLocated all).countP fun e => newer e.event x.event) = ahead all x := by
  unfold dedupeLocated ahead
  rw [countP_firstOf fun a b k ha hb => newer_of_tsID (tsID_of_seenKey ha hb)]
  simp only [isNone_seenKey]

theorem countP_forms_le_one (hx : x ∈ all) (hid : x.event.id ≠ []) :
    ((dedupeLocated all).countP fun e => e.event.tsID = x.event.tsID) ≤ 1 ↔ ∀ b ∈ all, ¬ TwoForms x b := by
  have hnone : (all.filter fun e => e.seenKey.isNone).countP (fun e => e.event.tsID = x.event.tsID) = 0 := by
    rw [List.countP_eq_zero]
    intro e he hte
    have hide : e.event.id = [] := by simpa [isNone_seenKey] using (List.mem_filter.mp he).2
    have hids : e.event.id = x.event.id := congrArg Prod.snd (of_decide_eq_true hte)
    exact hid (hids ▸ hide)
  unfold dedupeLocated
  rw [countP_firstOf fun a b k ha hb => by rw [tsID_of_seenKey ha hb], hnone, Nat.zero_add, length_dedup_le_one]
  have hkey : ∀ b ∈ all, b.event.tsID = x.event.tsID → ((b.event.ts, b.loc), b.event.id) ∈
      (all.filter fun e => decide (e.event.tsID = x.event.tsID)).filterMap LocatedEvent.seenKey := by
    intro b hb htb
    refine List.mem_filterMap.mpr ⟨b, List.mem_filter.mpr ⟨hb, decide_eq_true htb⟩, ?_⟩
    have hids : b.event.id = x.event.id := congrArg Prod.snd htb
    exact LocatedEvent.seenKey_eq_some.mpr ⟨by rwa [hids], rfl⟩
  constructor
  · rintro h b hb ⟨-, hte, hloc⟩
    have he := h _ (hkey x hx rfl) _ (hkey b hb hte.symm)
    simp only [Prod.mk.injEq] at he
    exact hloc he.1.2
  · intro h
    -- every key of the event is that of `x`
    have hone : ∀ k ∈ (all.filter fun e => decide (e.event.tsID = x.event.tsID)).filterMap LocatedEvent.seenKey,
        k = ((x.event.ts, x.loc), x.event.id) := by
      intro k hk
      obtain ⟨b, hb, hkb⟩ := List.mem_filterMap.mp hk
      obtain ⟨hb, htb⟩ := List.mem_filter.mp hb
      obtain ⟨-, rfl⟩ := LocatedEvent.seenKey_eq_some.mp hkb
      have hte : b.event.tsID = x.event.tsID := of_decide_eq_true htb
      obtain ⟨hts, hids⟩ := Prod.mk.inj hte
      have hloc : b.loc = x.loc := by
        by_contra hne
        exact h b hb ⟨hid, hte.symm, fun he => hne he.symm⟩
      rw [hts, hids, hloc]
    exact fun a ha b hb => (hone a ha).trans (hone b hb).symm

theorem tsID_eq_iff {a b : LogEvent Bytes} : a.tsID = b.tsID ↔ newer b a = false ∧ newer a b = false :=
  ⟨fun h => ⟨notAfter_of_tsID h, notAfter_of_tsID h.symm⟩, fun h => tsID_eq_of_notAfter h.1 h.2⟩

theorem countP_take_sort (slice : LocatedSlice) (all : List LocatedEvent) (x : LocatedEvent) (n : Nat) :
    (((slice.sort (dedupeLocated all)).take n).countP fun e => e.event.tsID = x.event.tsID) =
      min ((dedupeLocated all).countP fun e => e.event.tsID = x.event.tsID) (n - ahead all x) := by
  have hperm := slice.perm (dedupeLocated all)
  have hsorted := slice.sorted (dedupeLocated all)
  have hsame : (fun e : LocatedEvent => decide (e.event.tsID = x.event.tsID)) =
      fun e => (!newer x.event e.event) && !newer e.event x.event := by
    funext e
    rw [Bool.eq_iff_iff, decide_eq_true_eq, tsID_eq_iff]
    simp
  have hbefore : (slice.sort (dedupeLocated all)).Pairwise
      fun a b => newer b.event x.event = true → newer a.event x.event = true := by
    refine hsorted.imp fun {a b} hab hb => ?_
    by_contra ha
    have hxa : NotAfter x.event a.event := by simpa [NotAfter] using ha
    have hxb : NotAfter x.event b.event := IsTrans.trans _ _ _ hxa hab
    rw [show newer b.event x.event = false from hxb] at hb
    cases hb
  have hnotAfter : (slice.sort (dedupeLocated all)).Pairwise
      fun a b => (!newer x.event b.event) = true → (!newer x.event a.event) = true := by
    refine hsorted.imp fun {a b} hab hb => ?_
    have hbx : NotAfter b.event x.event := by simpa [NotAfter] using hb
    have hax : NotAfter a.event x.event := IsTrans.trans _ _ _ hab hbx
    simpa [NotAfter] using hax
  rw [hsame, countP_take_between hbefore hnotAfter, hperm.countP_eq, hperm.countP_eq, countP_newer_dedupeLocated]

theorem distinct_take_iff (slice : LocatedSlice) (all : List LocatedEvent) (n : Nat) :
    Distinct (((slice.sort (dedupeLocated all)).take n).map LocatedEvent.event) ↔
      ∀ x ∈ all, ∀ b ∈ all, TwoForms x b → n ≤ ahead all x + 1 := by
  rw [distinct_iff_countP]
  constructor
  · intro h x hx b hb hform
    have hle := h x.event.tsID hform.1
    rw [List.countP_map] at hle
    have htwo := mt (countP_forms_le_one hx hform.1).mp fun hone => hone b hb hform
    have hcount := countP_take_sort slice all x n
    simp only [Function.comp_def] at hle
    omega
  · intro h k hk
    rw [List.countP_map]
    simp only [Function.comp_def]
    by_cases hx : ∃ x ∈ all, x.event.tsID = k
    · obtain ⟨x, hx, rfl⟩ := hx
      have hcount := countP_take_sort slice all x n
      by_cases hform : ∃ b ∈ all, TwoForms x b
      · obtain ⟨b, hb, hform⟩ := hform
        have := h x hx b hb hform
        omega
      · have := (countP_forms_le_one hx hk).mpr fun b hb hf => hform ⟨b, hb, hf⟩
        omega
    · rw [List.countP_eq_zero.mpr]
      · exact Nat.zero_le 1
      · intro e he hte
        have hmem := (slice.perm _).mem_iff.mp (List.mem_of_mem_take he)
        exact hx ⟨e, firstOf_sublist.subset hmem, of_decide_eq_true hte⟩

theorem length_ge_ahead (slice : LocatedSlice) (hx : x ∈ all) {b : LocatedEvent} (hb : b ∈ all) (h : TwoForms x b) :
    ahead all x + 2 ≤ (slice.sort (dedupeLocated all)).length := by
  have htwo := mt (countP_forms_le_one hx h.1).mp fun hone => hone b hb h
  have hcount := countP_take_sort slice all x (slice.sort (dedupeLocated all)).length
  rw [List.take_length, (slice.perm _).countP_eq] at hcount
  omega

end

def TieredSearcher.allLocated (ts : TieredSearcher) (hot cold : LocatedStore) (now : Time) (tc : TenantContext)
    (q : SearchQuery) : List LocatedEvent :=
  (hot tc (ts.split now q).1).1 ++ (cold tc (ts.split now q).2).1

/-- **Merged locations.** Events without an id all go through the deduplication. The result has no event twice
exactly when both tiers failed or each event with two forms has too many before it for both to be returned. -/
theorem unionLocated_distinct_iff (ts : TieredSearcher) (slice : LocatedSlice) (hot cold : LocatedStore) (now : Time)
    (tc : TenantContext) (q : SearchQuery) :
    ((dedupeLocated (ts.allLocated hot cold now tc q)).filter fun ev => ev.event.id = []) =
        (ts.allLocated hot cold now tc q).filter (fun ev => ev.event.id = []) ∧
    (Distinct ((ts.unionLocated slice hot cold now tc q).1.map LocatedEvent.event) ↔
      ((hot tc (ts.split now q).1).2 ≠ none ∧ (cold tc (ts.split now q).2).2 ≠ none) ∨
      ∀ a ∈ ts.allLocated hot cold now tc q, ∀ b ∈ ts.allLocated hot cold now tc q, TwoForms a b →
        0 < q.limit ∧ q.limit < ahead (ts.allLocated hot cold now tc q) a + 2) := by
  constructor
  · simp only [← isNone_seenKey]
    exact filter_none_firstOf
  unfold TieredSearcher.unionLocated
  by_cases hok : (hot tc (ts.split now q).1).2 = none ∨ (cold tc (ts.split now q).2).2 = none
  · have hfail : ¬ ((hot tc (ts.split now q).1).2 ≠ none ∧ (cold tc (ts.split now q).2).2 ≠ none) := by
      rintro ⟨h, h'⟩
      exact hok.elim h h'
    rw [mergeLocated_of_page hok, or_iff_right hfail]
    simp only [← TieredSearcher.allLocated.eq_def]
    split
    · rename_i hcut
      rw [distinct_take_iff]
      refine forall₅_congr fun a ha b hb hform => ?_
      omega
    · -- nothing is cut off
      rename_i hcut
      have htake := distinct_take_iff slice (ts.allLocated hot cold now tc q)
        (slice.sort (dedupeLocated (ts.allLocated hot cold now tc q))).length
      rw [List.take_length] at htake
      rw [htake]
      refine forall₅_congr fun a ha b hb hform => ?_
      have hlen := length_ge_ahead slice ha hb hform
      omega
  · rw [not_or] at hok
    obtain ⟨e, he⟩ := Option.ne_none_iff_exists'.mp hok.1
    obtain ⟨e', he'⟩ := Option.ne_none_iff_exists'.mp hok.2
    rw [mergeLocated_of_failed he he']
    exact ⟨fun _ => Or.inl hok, fun _ => List.Pairwise.nil⟩

def locatedInsertion : LocatedSlice where
  sort l := l.insertionSort fun a b => newer b.event a.event = false
  perm l := List.perm_insertionSort _ l
  sorted l := by
    have htotal : Std.Total fun a b : LocatedEvent => newer b.event a.event = false :=
      ⟨fun a b => Std.Total.total (r := NotAfter) a.event b.event⟩
    have htrans : IsTrans LocatedEvent fun a b => newer b.event a.event = false :=
      ⟨fun a b c hab hbc => IsTrans.trans (r := NotAfter) a.event b.event c.event hab hbc⟩
    exact List.pairwise_insertionSort _ l

def storeAt (loc : Location) (ev : LogEvent Bytes) : LocatedStore := fun _ _ => ([⟨ev, loc⟩], none)

/-- One event in both stores, in local time and in UTC, is returned twice. -/
theorem shared_event_twice :
    ¬ Distinct
      (((newTieredSearcher true 30 true).unionLocated locatedInsertion (storeAt .localLoc (bareEvent 2 (bs "a")))
      (storeAt .utc (bareEvent 2 (bs "a"))) 0 { tenantId := bs "t" } { limit := 50 }).1.map LocatedEvent.event) := by
  unfold Distinct
  decide

def sharedPage : LocatedAnswer := ([⟨bareEvent 2 (bs "a"), .utc⟩], none)

theorem sharedPage_merged : ∃ slice', mergePages slice' 50 sharedPage.forget sharedPage.forget =
    (mergeLocated locatedInsertion 50 sharedPage sharedPage).forget :=
  forget_mergeLocated locatedInsertion 50 (by simp [sharedPage, TwoForms])

end Logalot
