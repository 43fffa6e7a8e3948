import Logalot.Accounts

/-!
# The rows of invites, users and identities

What statements keep of the tables, whichever transactions are open: unique
indexes, foreign keys, and how a row may change.
-/

namespace Logalot

open Go Pg Mvcc

/-! ## Versions of a row -/

def AccountRow.Evolves : AccountRow → AccountRow → Prop
  | .invite v, .invite w =>
    v.status = .pending ∧ w.status ≠ .pending ∧ w.id = v.id ∧ w.tokenHash = v.tokenHash
  | .identity d, .identity e =>
    e.id = d.id ∧ e.tenantId = d.tenantId ∧ e.userId = d.userId ∧ e.provider = d.provider ∧
      e.providerSub = d.providerSub
  | _, _ => False

namespace AccountRow

variable {r r' r'' : AccountRow}

theorem Evolves.key (h : r.Evolves r') : r'.key = r.key := by
  cases r <;> cases r' <;> try exact h.elim
  · exact congrArg AccountKey.invite h.2.2.1
  · exact congrArg AccountKey.identity h.1

theorem Evolves.entries (h : r.Evolves r') {e : IndexEntry} (he : e ∈ r'.entries) : e ∈ r.entries := by
  cases r <;> cases r' <;> try exact h.elim
  · rename_i v w
    obtain ⟨-, hw, -, ht⟩ := h
    rw [AccountRow.entries, if_neg hw, List.mem_singleton] at he
    rw [he, ht]
    exact List.mem_cons_self
  · rename_i d e'
    obtain ⟨-, h1, h2, h3, h4⟩ := h
    rw [AccountRow.entries, h1, h2, h3, h4] at he
    exact he

theorem clashes_of_entry {e : IndexEntry} (h : e ∈ r.entries) (h' : e ∈ r'.entries) : r.clashes r' = true :=
  List.any_eq_true.mpr ⟨e, h, decide_eq_true h'⟩

end AccountRow

/-- The update evolves the rows it chooses, and goes on from what it has made of them. -/
structure RowUpdate.Lawful (u : RowUpdate) : Prop where
  evolves : ∀ r, u.cond r = true → r.Evolves (u.set r)
  again : ∀ r r' : AccountRow, r.Evolves r' → u.cond r' = true → r.Evolves (u.set r')

theorem lawful_consume (t : Uuid) (n : InviteProvisionInput) : (consumeWithClient t n).Lawful := by
  constructor
  · intro r hc
    cases r with
    | invite v =>
      have hv : v.consumable t n := of_decide_eq_true hc
      exact ⟨hv.2.2.2.1, (fun h => by cases h), rfl, rfl⟩
    | _ => cases hc
  · intro r r' he hc
    cases r' with
    | invite w =>
      cases r with
      | invite v =>
        have hw : w.consumable t n := of_decide_eq_true hc
        exact absurd hw.2.2.2.1 he.2.1
      | _ => exact he.elim
    | _ => cases hc

theorem lawful_edit (t : Uuid) (e : Edit) : (e.update t).Lawful := by
  cases e with
  | revoke id =>
    constructor
    · intro r hc
      cases r with
      | invite v =>
        have hv : v.tenantId = t ∧ v.id = id ∧ v.status = .pending := of_decide_eq_true hc
        exact ⟨hv.2.2, (fun h => by cases h), rfl, rfl⟩
      | _ => cases hc
    · intro r r' he hc
      cases r' with
      | invite w =>
        cases r with
        | invite v =>
          have hw : w.tenantId = t ∧ w.id = id ∧ w.status = .pending := of_decide_eq_true hc
          exact absurd hw.2.2 he.2.1
        | _ => exact he.elim
      | _ => cases hc
  | touchLastLogin id now =>
    constructor
    · intro r hc
      cases r with
      | identity d => exact ⟨rfl, rfl, rfl, rfl, rfl⟩
      | _ => cases hc
    · intro r r' he hc
      cases r' with
      | identity d' =>
        cases r with
        | identity d => exact he
        | _ => exact he.elim
      | _ => cases hc

/-! ## The heap -/

namespace AccountHeap

structure Sound (h : AccountHeap) : Prop where
  keys : (h.map Slot.key).Nodup
  keyed : ∀ s ∈ h, ∀ r, s.HasVersion r → r.key = s.key
  evolves : ∀ s ∈ h, ∀ r j r', s.committed = some r → s.pending = some (j, r') → r.Evolves r'
  unique : ∀ a ∈ h, ∀ b ∈ h, ∀ r r' e, a.HasVersion r → b.HasVersion r' → e ∈ r.entries → e ∈ r'.entries → a = b
  references : ∀ s ∈ h, ∀ d, s.HasVersion (.identity d) → ∃ a ∈ h, a.key = .user d.userId

def Unlinked (u : Uuid) (h : AccountHeap) : Prop := ∀ s ∈ h, ∀ d, s.HasVersion (.identity d) → d.userId ≠ u

def Linked (t : Uuid) (p : OAuthProvider) (sub : Bytes) (u : Uuid) (h : AccountHeap) : Prop :=
  ∃ id d, h.read (.identity id) = some (.identity d) ∧ d.tenantId = t ∧ d.provider = p ∧ d.providerSub = sub ∧
    d.userId = u

variable {h h' : AccountHeap} {i j : Nat} {k : AccountKey} {row : AccountRow} {u : Uuid}
variable {g : Slot AccountKey AccountRow → Slot AccountKey AccountRow}

theorem nodup_map (hg : ∀ s, (g s).key = s.key)
    (hn : (h.map Slot.key).Nodup) : ((h.map g).map Slot.key).Nodup := by
  have he : Slot.key ∘ g = Slot.key := funext hg
  rw [List.map_map, he]
  exact hn

theorem Sound.map (hs : Sound h)
    (hg : ∀ s, (g s).key = s.key)
    (hv : ∀ s ∈ h, ∀ r, (g s).HasVersion r → ∃ r₀, s.HasVersion r₀ ∧ (r = r₀ ∨ r₀.Evolves r))
    (he : ∀ s ∈ h, ∀ r j r', (g s).committed = some r → (g s).pending = some (j, r') → r.Evolves r') :
    Sound (h.map g) := by
  have hent : ∀ s ∈ h, ∀ r e, (g s).HasVersion r → e ∈ r.entries → ∃ r₀, s.HasVersion r₀ ∧ e ∈ r₀.entries := by
    intro s hm r e hr hmem
    obtain ⟨r₀, hr₀, rfl | hev⟩ := hv s hm r hr
    · exact ⟨r, hr₀, hmem⟩
    · exact ⟨r₀, hr₀, hev.entries hmem⟩
  refine ⟨nodup_map hg hs.keys, ?_, ?_, ?_, ?_⟩
  · intro s' hs' r hr
    obtain ⟨s, hm, rfl⟩ := List.mem_map.mp hs'
    rw [hg]
    obtain ⟨r₀, hr₀, rfl | hev⟩ := hv s hm r hr
    · exact hs.keyed s hm r hr₀
    · rw [hev.key]
      exact hs.keyed s hm r₀ hr₀
  · intro s' hs' r j r' hc hp
    obtain ⟨s, hm, rfl⟩ := List.mem_map.mp hs'
    exact he s hm r j r' hc hp
  · intro a' ha' b' hb' r r' e hr hr' hme hme'
    obtain ⟨a, ha, rfl⟩ := List.mem_map.mp ha'
    obtain ⟨b, hb, rfl⟩ := List.mem_map.mp hb'
    obtain ⟨q, hq, hqe⟩ := hent a ha r e hr hme
    obtain ⟨q', hq', hqe'⟩ := hent b hb r' e hr' hme'
    rw [hs.unique a ha b hb q q' e hq hq' hqe hqe']
  · intro s' hs' d hd
    obtain ⟨s, hm, rfl⟩ := List.mem_map.mp hs'
    have hex : ∃ d₀ : OAuthIdentity, s.HasVersion (.identity d₀) ∧ d₀.userId = d.userId := by
      obtain ⟨r₀, hr₀, rfl | hev⟩ := hv s hm _ hd
      · exact ⟨d, hr₀, rfl⟩
      · cases r₀ with
        | identity d₀ => exact ⟨d₀, hr₀, hev.2.2.1.symm⟩
        | _ => exact hev.elim
    obtain ⟨d₀, hd₀, hu⟩ := hex
    obtain ⟨a, ha, hk⟩ := hs.references s hm d₀ hd₀
    refine ⟨g a, List.mem_map_of_mem ha, ?_⟩
    rw [hg, hk, hu]

theorem Sound.commit (hs : Sound h) : Sound (h.commit i) := by
  refine hs.map (fun s => s.key_commit) ?_ ?_
  · intro s _ r hr
    exact ⟨r, Slot.hasVersion_commit hr, Or.inl rfl⟩
  · intro s hm r j r' hc hp
    rcases s.commit_cases (i := i) with ⟨he, -⟩ | ⟨v, -, he⟩
    · rw [he] at hc hp
      exact hs.evolves s hm r j r' hc hp
    · rw [he] at hp
      cases hp

theorem Sound.abort (hs : Sound h) : Sound (h.abort i) := by
  refine hs.map (fun s => s.key_abort) ?_ ?_
  · intro s _ r hr
    exact ⟨r, Slot.hasVersion_abort hr, Or.inl rfl⟩
  · intro s hm r j r' hc hp
    rcases s.abort_cases (i := i) with ⟨he, -⟩ | ⟨v, -, he⟩
    · rw [he] at hc hp
      exact hs.evolves s hm r j r' hc hp
    · rw [he] at hp
      cases hp

theorem Sound.update (hs : Sound h) {u : RowUpdate} (hu : u.Lawful) (hf : h.Free i k) :
    Sound (h.update i k (fun r => u.cond r = true) u.set) := by
  refine hs.map Heap.key_updateSlot ?_ ?_
  · intro s _ r hr
    rcases Heap.updateSlot_cases (i := i) (k := k) (p := fun r => u.cond r = true) (f := u.set) (s := s) with
      he | ⟨v, -, hv, hp, he⟩
    · rw [he] at hr
      exact ⟨r, hr, Or.inl rfl⟩
    · rw [he] at hr
      rcases hr with hr | ⟨j, hr⟩
      · exact ⟨r, Or.inl hr, Or.inl rfl⟩
      · obtain ⟨-, rfl⟩ := Prod.mk.inj (Option.some.inj hr)
        exact ⟨v, Slot.hasVersion_of_visible hv, Or.inr (hu.evolves v hp)⟩
  · intro s hm r j r' hc hpd
    rcases Heap.updateSlot_cases (i := i) (k := k) (p := fun r => u.cond r = true) (f := u.set) (s := s) with
      he | ⟨v, hk, hv, hp, he⟩
    · rw [he] at hc hpd
      exact hs.evolves s hm r j r' hc hpd
    · rw [he] at hc hpd
      obtain ⟨-, rfl⟩ := Prod.mk.inj (Option.some.inj hpd)
      -- the version there is the committed one, or one the transaction has made of it
      rcases Slot.visible_of_free (hf s hm hk) with ⟨-, hvis⟩ | ⟨v', hp', hvis⟩
      · rw [hvis] at hv
        obtain rfl := Option.some.inj (hc.symm.trans hv)
        exact hu.evolves r hp
      · obtain rfl := Option.some.inj (hvis.symm.trans hv)
        exact hu.again r v' (hs.evolves s hm r i v' hc hp') hp

theorem Sound.insert (hs : Sound h) (hk : row.key = k) (hfresh : Fresh k h) (ha : Admits row h)
    (hr : Refers i h row) : Sound (h.insert i k row) := by
  have hnew : ∀ {s : Slot AccountKey AccountRow}, s ∈ h.insert i k row → s ∈ h ∨ s = ⟨k, none, some (i, row)⟩ := by
    intro s hm
    rcases List.mem_append.mp hm with hm | hm
    · exact Or.inl hm
    · exact Or.inr (List.mem_singleton.mp hm)
  have hver : ∀ {r : AccountRow}, Slot.HasVersion (⟨k, none, some (i, row)⟩ : Slot AccountKey AccountRow) r →
      r = row := by
    intro r hv
    rcases hv with hv | ⟨j, hv⟩
    · cases hv
    · exact (Prod.mk.inj (Option.some.inj hv)).2.symm
  have hno : ∀ {s : Slot AccountKey AccountRow} {r : AccountRow} {e : IndexEntry}, s ∈ h → s.HasVersion r →
      e ∈ row.entries → e ∉ r.entries := by
    intro s r e hm hv he he'
    have hc := ha s hm r hv
    rw [AccountRow.clashes_of_entry he he'] at hc
    cases hc
  refine ⟨?_, ?_, ?_, ?_, ?_⟩
  · unfold Heap.insert
    rw [List.map_append, List.nodup_append]
    refine ⟨hs.keys, List.nodup_singleton _, ?_⟩
    intro a hm b hb he
    obtain ⟨s, hsm, rfl⟩ := List.mem_map.mp hm
    exact hfresh s hsm (he.trans (List.mem_singleton.mp hb))
  · intro s hm r hv
    rcases hnew hm with hm | rfl
    · exact hs.keyed s hm r hv
    · rw [hver hv]
      exact hk
  · intro s hm r j r' hc hp
    rcases hnew hm with hm | rfl
    · exact hs.evolves s hm r j r' hc hp
    · cases hc
  · intro a ham b hbm r r' e hv hv' he he'
    rcases hnew ham with ham | rfl
    · rcases hnew hbm with hbm | rfl
      · exact hs.unique a ham b hbm r r' e hv hv' he he'
      · rw [hver hv'] at he'
        exact absurd he (hno ham hv he')
    · rcases hnew hbm with hbm | rfl
      · rw [hver hv] at he
        exact absurd he' (hno hbm hv' he)
      · rfl
  · intro s hm d hv
    rcases hnew hm with hm | rfl
    · obtain ⟨a, ham, hka⟩ := hs.references s hm d hv
      exact ⟨a, List.mem_append_left _ ham, hka⟩
    · rw [← hver hv] at hr
      obtain ⟨a, ham, u, hvis, -, hu⟩ := hr
      refine ⟨a, List.mem_append_left _ ham, ?_⟩
      rw [← hs.keyed a ham _ (Slot.hasVersion_of_visible hvis), ← hu]
      rfl

theorem Linked.read_mono {t : Uuid} {p : OAuthProvider} {sub : Bytes} (hl : Linked t p sub u h)
    (hr : ∀ k r, h.read k = some r → ∃ r', h'.read k = some r' ∧ (r' = r ∨ r.Evolves r')) : Linked t p sub u h' := by
  obtain ⟨id, d, hd, ht, hp, hsub, hu⟩ := hl
  obtain ⟨r', hr', rfl | he⟩ := hr _ _ hd
  · exact ⟨id, d, hr', ht, hp, hsub, hu⟩
  · cases r' with
    | identity d' =>
      obtain ⟨-, e1, e2, e3, e4⟩ := he
      exact ⟨id, d', hr', e1.trans ht, e3.trans hp, e4.trans hsub, e2.trans hu⟩
    | _ => exact he.elim

/-! ## What the transactions see of one another -/

structure Frame (i : Nat) (h h' : AccountHeap) : Prop where
  keeps : Heap.Keeps i h h'
  grows : ∀ k r, h.read k = some r → ∃ r', h'.read k = some r' ∧ (r' = r ∨ r.Evolves r')
  unlinked : ∀ j ≠ i, ∀ u, h.written j (.user u) ≠ none → h.read (.user u) = none → Unlinked u h → Unlinked u h'

theorem frame_refl : Frame i h h :=
  ⟨Heap.keeps_refl, fun _ r hr => ⟨r, hr, Or.inl rfl⟩, fun _ _ _ _ _ hu => hu⟩

theorem unlinked_of_versions (hu : Unlinked u h)
    (hv : ∀ s' ∈ h', ∀ d, s'.HasVersion (.identity d) → ∃ s ∈ h, ∃ d₀ : OAuthIdentity,
      s.HasVersion (.identity d₀) ∧ d₀.userId = d.userId) : Unlinked u h' := by
  intro s' hm d hd
  obtain ⟨s, hs, d₀, hd₀, he⟩ := hv s' hm d hd
  rw [← he]
  exact hu s hs d₀ hd₀

theorem frame_abort : Frame i h (h.abort i) := by
  refine ⟨Heap.keeps_abort, ?_, ?_⟩
  · intro k r hr
    rw [Heap.read_abort]
    exact ⟨r, hr, Or.inl rfl⟩
  · intro j _ u _ _ hu
    refine unlinked_of_versions hu ?_
    intro s' hm d hd
    obtain ⟨s, hs, rfl⟩ := List.mem_map.mp hm
    exact ⟨s, hs, d, Slot.hasVersion_abort hd, rfl⟩

theorem frame_update {u : RowUpdate} (hu : u.Lawful) (hf : h.Free i k) :
    Frame i h (h.update i k (fun r => u.cond r = true) u.set) := by
  refine ⟨Heap.keeps_update hf, ?_, ?_⟩
  · intro k' r hr
    rw [Heap.read_update]
    exact ⟨r, hr, Or.inl rfl⟩
  · intro j _ uid _ _ hun
    refine unlinked_of_versions hun ?_
    intro s' hm d hd
    obtain ⟨s, hs, rfl⟩ := List.mem_map.mp hm
    rcases Heap.updateSlot_cases (i := i) (k := k) (p := fun r => u.cond r = true) (f := u.set) (s := s) with
      he | ⟨v, -, hv, hp, he⟩
    · rw [he] at hd
      exact ⟨s, hs, d, hd, rfl⟩
    · rw [he] at hd
      rcases hd with hd | ⟨j, hd⟩
      · exact ⟨s, hs, d, Or.inl hd, rfl⟩
      · have hset := (Prod.mk.inj (Option.some.inj hd)).2
        have hev := hu.evolves v hp
        rw [hset] at hev
        cases v with
        | identity d₀ => exact ⟨s, hs, d₀, Slot.hasVersion_of_visible hv, hev.2.2.1.symm⟩
        | _ => exact hev.elim

theorem Sound.read_commit (hs : Sound h) {r : AccountRow} (hr : h.read k = some r) :
    ∃ r', (h.commit i).read k = some r' ∧ (r' = r ∨ r.Evolves r') := by
  rw [Heap.read_commit]
  cases hw : h.written i k with
  | none => exact ⟨r, hr, Or.inl rfl⟩
  | some w =>
    refine ⟨w, rfl, Or.inr ?_⟩
    obtain ⟨s, hsl, hsw⟩ := Option.bind_eq_some_iff.mp hw
    have hc : s.committed = some r := by
      rw [Heap.read, hsl] at hr
      exact hr
    exact hs.evolves s (Heap.slot?_some hsl).1 r i w hc (Slot.written_eq_some.mp hsw)

theorem frame_commit (hs : Sound h) : Frame i h (h.commit i) := by
  refine ⟨Heap.keeps_commit, fun k r hr => hs.read_commit hr, ?_⟩
  intro j _ u _ _ hu
  refine unlinked_of_versions hu ?_
  intro s' hm d hd
  obtain ⟨s, hsm, rfl⟩ := List.mem_map.mp hm
  exact ⟨s, hsm, d, Slot.hasVersion_commit hd, rfl⟩

theorem Sound.not_visible (hs : Sound h) (hij : j ≠ i) (hw : h.written j k ≠ none) (hr : h.read k = none)
    {s : Slot AccountKey AccountRow} (hm : s ∈ h) (hk : s.key = k) : s.visible i = none := by
  have hsl : h.slot? k = some s := by
    rw [← hk]
    exact Heap.slot?_of_mem hs.keys hm
  have hc : s.committed = none := by
    rw [Heap.read, hsl] at hr
    exact hr
  have hn : s.written i = none := by
    rw [Heap.written, hsl] at hw
    obtain ⟨v, hv⟩ := Option.ne_none_iff_exists'.mp hw
    exact Slot.written_of_ne hv (Ne.symm hij)
  rw [Slot.visible_of_not_pending (Slot.written_eq_none.mp hn)]
  exact hc

theorem frame_insert (hs : Sound h) (hfresh : Fresh k h) (hr : Refers i h row) :
    Frame i h (h.insert i k row) := by
  refine ⟨Heap.keeps_insert hfresh, ?_, ?_⟩
  · intro k' r hk'
    rw [Heap.read_insert hfresh]
    exact ⟨r, hk', Or.inl rfl⟩
  · intro j hj u hw hread hun s hm d hd
    rcases List.mem_append.mp hm with hm | hm
    · exact hun s hm d hd
    · rw [List.mem_singleton.mp hm] at hd
      have he : row = .identity d := by
        rcases hd with hd | ⟨j', hd⟩
        · cases hd
        · exact (Prod.mk.inj (Option.some.inj hd)).2
      rw [he] at hr
      obtain ⟨a, ham, v, hvis, -, hv⟩ := hr
      intro hc
      -- the user of the link is visible, and that of the other transaction is not
      have hk : a.key = .user u := by
        rw [← hs.keyed a ham _ (Slot.hasVersion_of_visible hvis), ← hc, ← hv]
        rfl
      rw [hs.not_visible hj hw hread ham hk] at hvis
      cases hvis

theorem Sound.unlinked_of_fresh (hs : Sound h) (hf : Fresh (.user u) h) : Unlinked u h := by
  intro s hm d hd hc
  obtain ⟨a, ha, hk⟩ := hs.references s hm d hd
  rw [hc] at hk
  exact hf a ha hk

theorem unlinked_insert (hu : Unlinked u h) (hrow : ∀ d, row ≠ .identity d) :
    Unlinked u (h.insert i k row) := by
  intro s hm d hd
  rcases List.mem_append.mp hm with hm | hm
  · exact hu s hm d hd
  · rw [List.mem_singleton.mp hm] at hd
    rcases hd with hd | ⟨j, hd⟩
    · cases hd
    · exact absurd (Prod.mk.inj (Option.some.inj hd)).2 (hrow d)

theorem findByProviderSub_eq_some {view : Slot AccountKey AccountRow → Option AccountRow} {t : Uuid}
    {p : OAuthProvider} {sub : Bytes} {d : OAuthIdentity} (hf : findByProviderSub view t p sub h = some d) :
    (∃ s ∈ h, view s = some (.identity d)) ∧ d.tenantId = t ∧ d.provider = p ∧ d.providerSub = sub := by
  obtain ⟨s, hm, hs⟩ := List.exists_of_findSome?_eq_some hf
  split at hs
  · rename_i d' hv
    split at hs
    · rename_i hc
      obtain rfl := Option.some.inj hs
      exact ⟨⟨s, hm, hv⟩, hc⟩
    · cases hs
  · cases hs

end AccountHeap

theorem Accounts.valid_of_rows {h : AccountHeap} (hk : (h.map Slot.key).Nodup)
    (hrows : ∀ s ∈ h, s.pending = none ∧ s.committed.map AccountRow.key = some s.key)
    (hu : ∀ a ∈ h, ∀ b ∈ h, a = b ∨ (a.committed.bind fun r => b.committed.map r.clashes) = some false)
    (hd : ∀ s ∈ h, ∀ d, s.committed = some (.identity d) → ∃ a ∈ h, a.key = .user d.userId) : Accounts.Valid h := by
  refine ⟨hk, fun s hs r hr => ?_, fun a ha b hb r r' hr hr' hc => ?_, hd⟩
  · obtain ⟨h1, h2⟩ := hrows s hs
    rcases hr with hr | ⟨j, hr⟩
    · rw [hr] at h2
      exact Option.some.inj h2
    · rw [h1] at hr
      cases hr
  · rcases hu a ha b hb with he | he
    · exact he
    · rw [hr, hr', Option.bind_some, Option.map_some, hc] at he
      cases he

end Logalot
