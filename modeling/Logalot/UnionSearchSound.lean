import Logalot.Lib.FirstOf
import Logalot.Lib.Ordered
import Logalot.TieredSearch

/-!
# Merged pages

An event that was cut off has as many before it on its own page as are returned,
and a copy of a hot event that was cut off stands behind all of the hot page.
-/

namespace Logalot

open Go Ordered FirstOf

/-! ## The order of events -/

variable {α : Type} {a b : LogEvent α} {l : List (LogEvent α)}

def NotAfter (a b : LogEvent α) : Prop := newer b a = false

instance : DecidableRel (NotAfter (α := α)) := fun a b => inferInstanceAs (Decidable (newer b a = false))

theorem notAfter_iff : NotAfter a b ↔ b.ts < a.ts ∨ (b.ts = a.ts ∧ textLe b.id a.id = true) := by
  unfold NotAfter newer
  split
  · rename_i h
    simp [h]
  · rename_i h
    simp only [decide_eq_false_iff_not, not_lt]
    constructor
    · exact fun hle => Or.inl (lt_of_le_of_ne hle h)
    · rintro (hlt | ⟨he, -⟩)
      · exact hlt.le
      · exact absurd he h

instance : Std.Total (NotAfter (α := α)) := ⟨fun a b => by
  rw [notAfter_iff, notAfter_iff]
  rcases lt_trichotomy a.ts b.ts with h | h | h
  · exact Or.inr (Or.inl h)
  · exact (textLe_total b.id a.id).imp (fun hle => Or.inr ⟨h.symm, hle⟩) fun hle => Or.inr ⟨h, hle⟩
  · exact Or.inl (Or.inl h)⟩

instance : IsTrans (LogEvent α) NotAfter := ⟨fun a b c h h' => by
  rw [notAfter_iff] at h h' ⊢
  rcases h with h | ⟨h, hid⟩ <;> rcases h' with h' | ⟨h', hid'⟩
  · exact Or.inl (lt_trans h' h)
  · exact Or.inl (h' ▸ h)
  · exact Or.inl (h ▸ h')
  · exact Or.inr ⟨h'.trans h, textLe_trans hid' hid⟩⟩

theorem notAfter_of_tsID (h : (a.ts, a.id) = (b.ts, b.id)) : NotAfter a b := by
  obtain ⟨hts, hid⟩ := Prod.mk.inj h
  rw [notAfter_iff, hts, hid]
  exact Or.inr ⟨rfl, textLe_refl _⟩

def insertionSlice : SortSlice α where
  sort l := l.insertionSort fun a b => newer b a = false
  perm l := List.perm_insertionSort _ l
  sorted l := List.pairwise_insertionSort NotAfter l

/-! ## Events that are one -/

def LogEvent.tsID (ev : LogEvent α) : Time × Bytes := (ev.ts, ev.id)

def Distinct (l : List (LogEvent α)) : Prop := l.Pairwise fun a b => a.id ≠ [] → a.tsID ≠ b.tsID

def copyIn (l : List (LogEvent α)) (ev : LogEvent α) : Bool := ev.id ≠ [] && l.any fun e => e.tsID = ev.tsID

/-- The events of both tiers, where one that is in both counts once. -/
def unionEvents (hot cold : List (LogEvent α)) : List (LogEvent α) := hot ++ cold.filter fun ev => !copyIn hot ev

theorem tsID_eq_of_notAfter (h : NotAfter a b) (h' : NotAfter b a) : a.tsID = b.tsID := by
  rw [notAfter_iff] at h h'
  have hts : a.ts = b.ts := by
    rcases h with h1 | ⟨h1, -⟩ <;> rcases h' with h2 | ⟨h2, -⟩
    · exact absurd h1 (lt_asymm h2)
    · exact h2
    · exact h1.symm
    · exact h2
  rw [hts] at h h'
  have h1 := (h.resolve_left (lt_irrefl _)).2
  have h2 := (h'.resolve_left (lt_irrefl _)).2
  exact Prod.ext hts (textLe_antisymm h2 h1)

theorem Distinct.perm {l' : List (LogEvent α)} (h : Distinct l) (hp : l.Perm l') : Distinct l' := by
  refine hp.pairwise h fun {a b} hab hid he => ?_
  have hid' : a.id = b.id := congrArg Prod.snd he.symm
  exact hab (by rwa [hid']) he.symm

def LogEvent.seenKey (ev : LogEvent α) : Option (Time × Bytes) := if ev.id = [] then none else some ev.tsID

theorem seenKey_eq_some {ev : LogEvent α} {k : Time × Bytes} : ev.seenKey = some k ↔ ev.id ≠ [] ∧ ev.tsID = k := by
  unfold LogEvent.seenKey
  split <;> simp_all

theorem distinct_iff : Distinct l ↔ (l.filterMap LogEvent.seenKey).Nodup := by
  rw [List.Nodup, List.pairwise_filterMap]
  apply List.pairwise_iff_getElem.trans
  rw [List.pairwise_iff_getElem]
  refine forall₅_congr fun i j hi hj _ => ?_
  constructor
  · intro h k hk k' hk' he
    obtain ⟨hid, rfl⟩ := seenKey_eq_some.mp hk
    exact h hid (he.trans (seenKey_eq_some.mp hk').2.symm)
  · intro h hid he
    have hid' : l[j].id ≠ [] := by rwa [← show l[i].id = l[j].id from congrArg Prod.snd he]
    exact h _ (seenKey_eq_some.mpr ⟨hid, rfl⟩) _ (seenKey_eq_some.mpr ⟨hid', rfl⟩) he

/-! ## Deduplication -/

theorem dedupe_eq_firstOf (l : List (LogEvent α)) : ∀ seen, dedupe seen l = firstOf LogEvent.seenKey seen l := by
  induction l with
  | nil =>
    intro seen
    rfl
  | cons ev l ih =>
    intro seen
    rw [dedupe]
    by_cases hid : ev.id = []
    · have hkey : ev.seenKey = none := if_pos hid
      rw [if_pos hid, firstOf_cons_none hkey, ih]
    have hkey : ev.seenKey = some (ev.ts, ev.id) := if_neg hid
    rw [if_neg hid]
    by_cases hs : (ev.ts, ev.id) ∈ seen
    · rw [if_pos hs, firstOf_cons_seen hkey hs, ih]
    · rw [if_neg hs, firstOf_cons_new hkey hs, ih]

theorem mem_copyIn {ev : LogEvent α} : copyIn l ev = true ↔ ev.id ≠ [] ∧ ∃ e ∈ l, e.tsID = ev.tsID := by
  simp [copyIn]

theorem dedupe_pages {hot cold : List (LogEvent α)} (hh : Distinct hot) (hc : Distinct cold) :
    dedupe [] (hot ++ cold) = hot ++ cold.filter fun ev => !copyIn hot ev := by
  rw [dedupe_eq_firstOf, firstOf_append, firstOf_of_nodup (distinct_iff.mp hh), firstOf_of_nodup (distinct_iff.mp hc)]
  congr 1
  · rw [List.filter_eq_self]
    intro ev _
    cases ev.seenKey <;> rfl
  · apply List.filter_congr
    intro ev _
    rw [Bool.eq_iff_iff, List.append_nil]
    rw [Bool.not_eq_true', ← Bool.not_eq_true, mem_copyIn]
    simp only [Option.all_eq_true, decide_eq_true_eq, not_and, List.mem_filterMap, seenKey_eq_some]
    constructor
    · rintro h hid ⟨e, he, heq⟩
      have hide : e.id ≠ [] := by rwa [show e.id = ev.id from congrArg Prod.snd heq]
      exact h _ ⟨hid, rfl⟩ ⟨e, he, hide, heq⟩
    · rintro h _ ⟨hid, rfl⟩ ⟨e, he, -, heq⟩
      exact h hid ⟨e, he, heq⟩

/-! ## The first events of both tiers -/

theorem copyIn_append (l l' : List (LogEvent α)) (ev : LogEvent α) :
    copyIn (l ++ l') ev = (copyIn l ev || copyIn l' ev) := by
  rw [Bool.eq_iff_iff, Bool.or_eq_true, mem_copyIn, mem_copyIn, mem_copyIn]
  simp only [List.mem_append, or_and_right, exists_or]
  exact and_or_left

theorem copyIn_perm {l' : List (LogEvent α)} (h : l.Perm l') (ev : LogEvent α) : copyIn l ev = copyIn l' ev := by
  rw [Bool.eq_iff_iff, mem_copyIn, mem_copyIn]
  simp only [h.mem_iff]

theorem length_copies_le (page : List (LogEvent α)) (hl : Distinct l) {x : LogEvent α} (hx : ∀ ev ∈ l, NotAfter ev x) :
    (l.filter (copyIn page)).length ≤ page.countP fun ev => NotAfter ev x := by
  have hnodup : ((l.filter (copyIn page)).map LogEvent.tsID).Nodup := by
    rw [List.Nodup, List.pairwise_map, List.pairwise_filter]
    exact hl.imp fun {a b} hab ha _ => hab (mem_copyIn.mp ha).1
  have hsub : (l.filter (copyIn page)).map LogEvent.tsID ⊆ (page.filter fun ev => NotAfter ev x).map LogEvent.tsID := by
    intro key hkey
    obtain ⟨ev, hev, rfl⟩ := List.mem_map.mp hkey
    obtain ⟨hmem, hcopy⟩ := List.mem_filter.mp hev
    obtain ⟨-, e, he, heq⟩ := mem_copyIn.mp hcopy
    refine List.mem_map.mpr ⟨e, List.mem_filter.mpr ⟨he, ?_⟩, heq⟩
    exact decide_eq_true (IsTrans.trans _ _ _ (notAfter_of_tsID heq) (hx ev hmem))
  have h := (List.subperm_of_subset hnodup hsub).length_le
  rw [List.length_map, List.length_map] at h
  rwa [List.countP_eq_length_filter]

section
variable {k : Nat} {H C P Q H' : List (LogEvent α)}

theorem not_notAfter_of_copy (hd : Distinct (P ++ H')) (hcut : ∀ a ∈ P, ∀ b ∈ H', NotAfter a b) {x : LogEvent α}
    (hx : copyIn H' x = true) {p : LogEvent α} (hp : p ∈ P) : NotAfter p x ∧ ¬ NotAfter x p := by
  obtain ⟨hid, h, hh, heq⟩ := mem_copyIn.mp hx
  have hph : NotAfter p h := hcut p hp h hh
  refine ⟨IsTrans.trans _ _ _ hph (notAfter_of_tsID heq), fun hxp => ?_⟩
  have hhp : NotAfter h p := IsTrans.trans _ _ _ (notAfter_of_tsID heq) hxp
  have hkey : p.tsID = h.tsID := tsID_eq_of_notAfter hph hhp
  have hpid : p.id ≠ [] := by
    have : p.id = x.id := congrArg Prod.snd (hkey.trans heq)
    rwa [this]
  exact (List.pairwise_append.mp hd).2.2 p hp h hh hpid hkey

theorem top_merge (hH : Distinct H) (hC : Distinct C) (hP : Top NotAfter k H P) (hQ : Top NotAfter k C Q)
    {s : List (LogEvent α)} (hs : s.Perm (dedupe [] (P ++ Q))) (hsorted : s.Pairwise NotAfter) :
    Top NotAfter k (unionEvents H C) (s.take k) := by
  obtain ⟨H', hHP, hcutP, hfullP⟩ := hP.split
  obtain ⟨C', hCQ, hcutQ, hfullQ⟩ := hQ.split
  have hdP := hH.perm hHP
  have hdQ := hC.perm hCQ
  rw [dedupe_pages (List.pairwise_append.mp hdP).1 (List.pairwise_append.mp hdQ).1] at hs
  have hcopy : ∀ ev, copyIn H ev = (copyIn P ev || copyIn H' ev) := fun ev => by
    rw [copyIn_perm hHP, copyIn_append]
  -- the strays are copies of hot events that were cut off
  have hgood : (s.filter fun ev => !copyIn H' ev).Perm (P ++ Q.filter fun ev => !copyIn H ev) := by
    refine (hs.filter _).trans ?_
    rw [List.filter_append, List.filter_filter, List.filter_eq_self.mpr]
    · refine List.Perm.append_left _ (List.Perm.of_eq (List.filter_congr fun ev _ => ?_))
      rw [hcopy, Bool.not_or, Bool.and_comm]
    · intro p hp
      rw [Bool.not_eq_true', ← Bool.not_eq_true]
      intro hx
      exact (not_notAfter_of_copy hdP hcutP hx hp).2 (notAfter_of_tsID rfl)
  have hrows : (unionEvents H C).Perm ((s.filter fun ev => !copyIn H' ev) ++
      (H' ++ C'.filter fun ev => !copyIn H ev)) := by
    refine List.Perm.trans ?_ (hgood.symm.append_right _)
    have h1 := hHP.append (hCQ.filter fun ev => !copyIn H ev)
    rw [List.filter_append] at h1
    refine h1.trans ?_
    rw [List.append_assoc, List.append_assoc]
    refine List.Perm.append_left _ ?_
    rw [← List.append_assoc, ← List.append_assoc]
    exact List.Perm.append_right _ List.perm_append_comm
  have hfull : ∀ x : LogEvent α, (∀ p ∈ P, NotAfter p x) → P.length = k →
      k ≤ (s.filter fun ev => !copyIn H' ev).countP fun y => NotAfter y x := by
    intro x hx hk
    rw [hgood.countP_eq, List.countP_append, List.countP_eq_length.mpr fun p hp => decide_eq_true (hx p hp)]
    omega
  refine top_of_strays (fun ev => !copyIn H' ev) hsorted hrows ?_ ?_
  · intro x hx
    rcases List.mem_append.mp hx with hx | hx
    · exact hfull x (fun p hp => hcutP p hp x hx) (hfullP (List.ne_nil_of_mem hx))
    · have hxC := (List.mem_filter.mp hx).1
      have hQx : ∀ e ∈ Q, NotAfter e x := fun e he => hcutQ e he x hxC
      by_cases hstray : ∃ b ∈ Q, copyIn H' b = true
      · obtain ⟨b, hb, hbH⟩ := hstray
        obtain ⟨-, h, hh, -⟩ := mem_copyIn.mp hbH
        refine hfull x (fun p hp => ?_) (hfullP (List.ne_nil_of_mem hh))
        exact IsTrans.trans _ _ _ (not_notAfter_of_copy hdP hcutP hbH hp).1 (hQx b hb)
      · -- each event of the cold page is there itself or has its copy on the hot page
        have hnone : ∀ e ∈ Q, copyIn H e = copyIn P e := fun e he => by
          rw [hcopy, Bool.eq_false_iff.mpr fun h => hstray ⟨e, he, h⟩, Bool.or_false]
        have hlen := List.length_eq_length_filter_add (l := Q) (copyIn P)
        have hcop := length_copies_le P (List.pairwise_append.mp hdQ).1 hQx
        have hrest : (Q.filter fun ev => !copyIn H ev).countP (fun y => NotAfter y x) =
            (Q.filter fun ev => !copyIn P ev).length := by
          rw [List.filter_congr fun e he => by rw [hnone e he]]
          exact List.countP_eq_length.mpr fun e he => decide_eq_true (hQx e (List.mem_filter.mp he).1)
        rw [hgood.countP_eq, List.countP_append, hrest]
        have := hfullQ (List.ne_nil_of_mem hxC)
        omega
  · intro x hx hbad
    have hxH : copyIn H' x = true := by simpa using hbad
    obtain ⟨-, h, hh, -⟩ := mem_copyIn.mp hxH
    rw [hs.countP_eq, List.countP_append, List.countP_eq_length.mpr]
    · rw [hfullP (List.ne_nil_of_mem hh)]
      omega
    · intro p hp
      simpa using (not_notAfter_of_copy hdP hcutP hxH hp).2

end

/-- **Union of the tiers.** If each store answers with the first events of its own, the merged page has the first
events of both, in order. -/
theorem unionSearch_first (ts : TieredSearcher) (slice : SortSlice α) {hot cold : StoreSearch α} {now : Time}
    {tc : TenantContext} {q : SearchQuery} (hlimit : 1 ≤ q.limit) {hotEvents coldEvents : List (LogEvent α)}
    (hdh : Distinct hotEvents) (hdc : Distinct coldEvents) {hotPage coldPage : SearchPage α}
    (hh : hot tc (ts.split now q).1 = (hotPage, none)) (hc : cold tc (ts.split now q).2 = (coldPage, none))
    (hth : Top NotAfter q.limit.toNat hotEvents hotPage.events)
    (htc : Top NotAfter q.limit.toNat coldEvents coldPage.events) :
    ∃ page, (ts.unionSearch slice hot cold now tc q).2 = (⟨page, none⟩, none) ∧
      Top NotAfter q.limit.toNat (unionEvents hotEvents coldEvents) page := by
  have htop := top_merge hdh hdc hth htc (slice.perm _) (slice.sorted _)
  refine ⟨_, ?_, htop⟩
  simp only [TieredSearcher.unionSearch, hh, hc, mergePages]
  split
  · rfl
  · rename_i hle
    rw [List.take_of_length_le (by omega)]

def bareEvent (ts : Time) (id : Bytes) : LogEvent Bytes := ⟨[], ts, id, [], bs "info", [], [], [], [], []⟩

def answering (events : List (LogEvent Bytes)) : StoreSearch Bytes := fun _ _ => (⟨events, none⟩, none)

/-- Two pages of two share an event, and one event has no id. -/
theorem shared_event_once :
    ∃ page, ((newTieredSearcher true 30 true).unionSearch insertionSlice
        (answering [bareEvent 3 (bs "b"), bareEvent 2 (bs "a")]) (answering [bareEvent 2 (bs "a"), bareEvent 1 []])
        0 { tenantId := bs "t" } { limit := 2 }).2 = (⟨page, none⟩, none) ∧
      Top NotAfter 2
        (unionEvents [bareEvent 3 (bs "b"), bareEvent 2 (bs "a")] [bareEvent 2 (bs "a"), bareEvent 1 []]) page := by
  have hdh : Distinct [bareEvent 3 (bs "b"), bareEvent 2 (bs "a")] := by unfold Distinct; decide
  have hdc : Distinct [bareEvent 2 (bs "a"), bareEvent 1 []] := by unfold Distinct; decide
  exact unionSearch_first _ insertionSlice (by decide) hdh hdc rfl rfl ⟨_, .refl _, by decide, rfl⟩
    ⟨_, .refl _, by decide, rfl⟩

end Logalot
