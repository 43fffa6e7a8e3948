import Logalot.TokenTx

/-!
# When a revoked family stays revoked

A rotation that commits while a `revokeFamily` executes its `UPDATE` leaves a
successor the `UPDATE` did not see.
-/

namespace Logalot

open Go Pg Mvcc

namespace TokenDb

variable {tenantId familyId k id : Uuid} {h : Heap Uuid RefreshToken} {i j : Nat} {s : TokenDb} {x : Tx}
variable {slot : Slot Uuid RefreshToken} {n : NewRefreshToken} {now : Int}

/-! ## What a transaction holds -/

def Owns (r : RefreshToken) : Tx → Prop
  | .rotate _ _ _ (.updating _ count) => 0 < count
  | .rotate _ _ _ .consumed => True
  | .rotate _ _ _ (.inserted _) => True
  | .revoke _ (.updating _) => r.revokedAt ≠ none
  | .revoke _ .updated => r.revokedAt ≠ none
  | _ => False

def Holds : Tx → Prop
  | .rotate _ _ _ (.updating _ count) => 0 < count
  | .rotate _ _ _ .consumed => True
  | .rotate _ _ _ (.inserted _) => True
  | _ => False

/-- The rows a revoking `UPDATE` has yet to act on; none are left when it has ended. -/
def todo : Tx → Option (List Uuid)
  | .revoke _ (.updating l) => some l
  | .revoke _ .updated => some []
  | _ => none

def Holder (familyId : Uuid) (h : Heap Uuid RefreshToken) (i : Nat) : Prop :=
  ∃ slot ∈ h, ∃ c r, slot.committed = some c ∧ c.live ∧ c.familyId = familyId ∧ slot.pending = some (i, r)

def Covers (familyId : Uuid) (h : Heap Uuid RefreshToken) (i : Nat) (l : List Uuid) : Prop :=
  ∀ slot ∈ h, ∀ c, slot.committed = some c → c.familyId = familyId → c.revokedAt = none →
    slot.key ∈ l ∨ ∃ r, slot.pending = some (i, r)

def AllRevoked (familyId : Uuid) (h : Heap Uuid RefreshToken) : Prop :=
  ∀ slot ∈ h, ∀ c, slot.committed = some c → c.familyId = familyId → c.revokedAt ≠ none

theorem not_covers_of_holder (hh : Holder familyId h i) (hij : j ≠ i) :
    ¬ Covers familyId h j [] := by
  intro hc
  obtain ⟨slot, hs, c, r, hcom, hl, hf, hp⟩ := hh
  rcases hc slot hs c hcom hf hl.2 with hk | ⟨r', hp'⟩
  · exact absurd hk List.not_mem_nil
  · rw [hp] at hp'
    exact hij (Prod.mk.inj (Option.some.inj hp')).1.symm

theorem not_allRevoked_of_holder (hh : Holder familyId h i) :
    ¬ AllRevoked familyId h := by
  intro ha
  obtain ⟨slot, hs, c, -, hcom, hl, hf, -⟩ := hh
  exact ha slot hs c hcom hf hl.2

/-! ## The invariant -/

structure Inv (tenantId familyId : Uuid) (s : TokenDb) : Prop where
  tenants : s.heap.All fun r => r.familyId = familyId → r.tenantId = tenantId
  found : ∀ i k now n ph, s.txs i = some (.rotate k now n ph) →
    n.familyId = familyId ∧ s.heap.All fun r => r.id = k → r.familyId = familyId
  owners : ∀ slot ∈ s.heap, ∀ i r, slot.pending = some (i, r) → ∃ x, s.txs i = some x ∧ Owns r x
  holders : ∀ i x, s.txs i = some x → Holds x → Holder familyId s.heap i
  covers : ∀ i x l, s.txs i = some x → todo x = some l → Covers familyId s.heap i l
  returned : ∀ i now, s.txs i = some (.revoke now .returned) → AllRevoked familyId s.heap

theorem setTx_cases {y : Tx} (h : (s.setTx i x).txs j = some y) :
    (j = i ∧ y = x) ∨ (j ≠ i ∧ s.txs j = some y) :=
  Runs.update_cases h

structure Others (tenantId familyId : Uuid) (s : TokenDb) (i : Nat) (h : Heap Uuid RefreshToken) : Prop where
  all : ∀ P : RefreshToken → Prop, (∀ r r', r.SameToken r' → P r → P r') →
    (∀ (n : NewRefreshToken) id k, n.familyId = familyId → P (n.row tenantId id (some k))) →
    s.heap.All P → h.All P
  pending : ∀ slot ∈ h, ∀ j r, j ≠ i → slot.pending = some (j, r) → ∃ slot ∈ s.heap, slot.pending = some (j, r)
  holders : ∀ j, j ≠ i → Holder familyId s.heap j → Holder familyId h j
  covers : ∀ j x l, j ≠ i → s.txs j = some x → todo x = some l → Covers familyId s.heap j l → Covers familyId h j l
  returned : (∃ j now, s.txs j = some (.revoke now .returned)) → AllRevoked familyId s.heap → AllRevoked familyId h

theorem Inv.replace (h : Inv tenantId familyId s) {hp : Heap Uuid RefreshToken}
    (ho : Others tenantId familyId s i hp)
    (hfound : ∀ k now n ph, x = .rotate k now n ph →
      n.familyId = familyId ∧ s.heap.All fun r => r.id = k → r.familyId = familyId)
    (hown : ∀ slot ∈ hp, ∀ r, slot.pending = some (i, r) → Owns r x)
    (hhold : Holds x → Holder familyId hp i) (hcov : ∀ l, todo x = some l → Covers familyId hp i l)
    (hret : ∀ now, x = .revoke now .returned → AllRevoked familyId hp) :
    Inv tenantId familyId ({ s with heap := hp }.setTx i x) := by
  have hall : ∀ k, (s.heap.All fun r => r.id = k → r.familyId = familyId) →
      hp.All fun r => r.id = k → r.familyId = familyId := by
    intro k
    apply ho.all
    · intro r r' he hr hk
      rw [he.2.2.2.1]
      exact hr (he.1.symm.trans hk)
    · intro n id k' hn _
      exact hn
  constructor
  · apply ho.all _ _ _ h.tenants
    · intro r r' he hr hf
      rw [he.2.1]
      exact hr (he.2.2.2.1.symm.trans hf)
    · intro n id k _ _
      rfl
  · intro j k now n ph hj
    rcases setTx_cases hj with ⟨rfl, hx⟩ | ⟨-, hj⟩
    · obtain ⟨hn, ha⟩ := hfound k now n ph hx.symm
      exact ⟨hn, hall k ha⟩
    · obtain ⟨hn, ha⟩ := h.found j k now n ph hj
      exact ⟨hn, hall k ha⟩
  · intro slot hs j r hpend
    by_cases e : j = i
    · subst e
      exact ⟨x, Function.update_self .., hown slot hs r hpend⟩
    · obtain ⟨slot', hs', hpend'⟩ := ho.pending slot hs j r e hpend
      obtain ⟨y, hy, hoy⟩ := h.owners slot' hs' j r hpend'
      exact ⟨y, by simpa [setTx, Function.update_of_ne e] using hy, hoy⟩
  · intro j y hj hh
    rcases setTx_cases hj with ⟨rfl, rfl⟩ | ⟨hne, hj⟩
    · exact hhold hh
    · exact ho.holders j hne (h.holders j y hj hh)
  · intro j y l hj hl
    rcases setTx_cases hj with ⟨rfl, rfl⟩ | ⟨hne, hj⟩
    · exact hcov l hl
    · exact ho.covers j y l hne hj hl (h.covers j y l hj hl)
  · intro j now hj
    rcases setTx_cases hj with ⟨rfl, hx⟩ | ⟨-, hj⟩
    · exact hret now hx.symm
    · exact ho.returned ⟨j, now, hj⟩ (h.returned j now hj)

/-! ## What statements leave to the others -/

theorem Others.refl (s : TokenDb) (i : Nat) : Others tenantId familyId s i s.heap :=
  { all := fun _ _ _ h => h
    pending := fun slot hs _ _ _ hp => ⟨slot, hs, hp⟩
    holders := fun _ _ h => h
    covers := fun _ _ _ _ _ _ h => h
    returned := fun _ h => h }

theorem Others.map {g : Slot Uuid RefreshToken → Slot Uuid RefreshToken}
    (hall : ∀ P : RefreshToken → Prop, (∀ r r', r.SameToken r' → P r → P r') → s.heap.All P → Heap.All P (s.heap.map g))
    (hg : ∀ slot ∈ s.heap, g slot = slot ∨ slot.Free i ∧ (g slot).Free i ∧ (g slot).key = slot.key)
    (hc : (∀ slot ∈ s.heap, ∀ c, (g slot).committed = some c → slot.committed = some c ∨ c.revokedAt ≠ none) ∨
      ((∀ j x l, j ≠ i → s.txs j = some x → todo x ≠ some l) ∧ ¬ ∃ j now, s.txs j = some (.revoke now .returned))) :
    Others tenantId familyId s i (s.heap.map g) := by
  constructor
  · intro P hP _ ha
    exact hall P hP ha
  · intro _ hm j r hne hpend
    obtain ⟨slot, hs, rfl⟩ := List.mem_map.mp hm
    rcases hg slot hs with he | ⟨-, hfree, -⟩
    · exact ⟨slot, hs, by rwa [he] at hpend⟩
    · exact absurd (hfree j r hpend) hne
  · rintro j hne ⟨slot, hs, c, r, hcom, hl, hfam, hpend⟩
    refine ⟨_, List.mem_map_of_mem hs, c, r, ?_⟩
    rcases hg slot hs with he | ⟨hfree, -⟩
    · rw [he]
      exact ⟨hcom, hl, hfam, hpend⟩
    · exact absurd (hfree j r hpend) hne
  · intro j x l hne hx hl hcov _ hm c hcom hfam hrev
    obtain ⟨slot, hs, rfl⟩ := List.mem_map.mp hm
    rcases hc with hc | hc
    · rcases hc slot hs c hcom with hcom | hv
      · rcases hg slot hs with he | ⟨hfree, -, hk⟩
        · rw [he]
          exact hcov slot hs c hcom hfam hrev
        · rcases hcov slot hs c hcom hfam hrev with hkey | ⟨r, hpend⟩
          · exact Or.inl (hk ▸ hkey)
          · exact absurd (hfree j r hpend) hne
      · exact absurd hrev hv
    · exact absurd hl (hc.1 j x l hne hx)
  · intro hret ha _ hm c hcom hfam
    obtain ⟨slot, hs, rfl⟩ := List.mem_map.mp hm
    rcases hc with hc | hc
    · rcases hc slot hs c hcom with hcom | hv
      · exact ha slot hs c hcom hfam
      · exact hv
    · exact absurd hret hc.2

theorem free_of_pending {r : RefreshToken}
    (h : slot.pending = some (i, r)) : slot.Free i := by
  intro j r' h'
  rw [h] at h'
  exact (Prod.mk.inj (Option.some.inj h')).1.symm

theorem Others.update (hfree : s.heap.Free i k) {p : RefreshToken → Prop}
    [DecidablePred p] {f : RefreshToken → RefreshToken} (hf : ∀ r : RefreshToken, r.SameToken (f r)) :
    Others tenantId familyId s i (s.heap.update i k p f) := by
  apply Others.map
  · intro P hP ha
    exact ha.update fun r hr => hP r (f r) (hf r) hr
  · intro slot hs
    rcases Heap.updateSlot_cases (i := i) (k := k) (p := p) (f := f) (s := slot) with he | ⟨r, hk, -, -, he⟩
    · exact Or.inl he
    · rw [he]
      exact Or.inr ⟨hfree slot hs hk, free_of_pending rfl, rfl⟩
  · refine Or.inl fun slot hs c hc => Or.inl ?_
    rcases Heap.updateSlot_cases (i := i) (k := k) (p := p) (f := f) (s := slot) with he | ⟨r, -, -, -, he⟩
    · rwa [he] at hc
    · rwa [he] at hc

theorem Others.insert (hn : n.familyId = familyId) :
    Others tenantId familyId s i (s.heap.insert i id (n.row tenantId id (some k))) := by
  have hmem : ∀ {slot}, slot ∈ s.heap.insert i id (n.row tenantId id (some k)) →
      slot ∈ s.heap ∨ slot = ⟨id, none, some (i, n.row tenantId id (some k))⟩ := by
    intro slot hs
    simpa [Heap.insert] using hs
  constructor
  · intro P _ hrow ha
    exact ha.insert (hrow n id k hn)
  · intro slot hs j r hne hpend
    rcases hmem hs with hs | rfl
    · exact ⟨slot, hs, hpend⟩
    · exact absurd (Prod.mk.inj (Option.some.inj hpend)).1.symm hne
  · rintro j - ⟨slot, hs, h⟩
    exact ⟨slot, List.mem_append_left _ hs, h⟩
  · intro j _ l _ _ _ hcov slot hs c hc
    rcases hmem hs with hs | rfl
    · exact hcov slot hs c hc
    · cases hc
  · intro _ ha slot hs c hc
    rcases hmem hs with hs | rfl
    · exact ha slot hs c hc
    · cases hc

theorem Others.abort (s : TokenDb) (i : Nat) : Others tenantId familyId s i (s.heap.abort i) := by
  apply Others.map
  · intro P _ ha
    exact ha.abort
  · intro slot hs
    rcases slot.abort_cases (i := i) with ⟨he, -⟩ | ⟨r, hr, he⟩
    · exact Or.inl he
    · rw [he]
      exact Or.inr ⟨free_of_pending hr, fun j r h => (by cases h), rfl⟩
  · refine Or.inl fun slot hs c hc => Or.inl ?_
    rcases slot.abort_cases (i := i) with ⟨he, -⟩ | ⟨r, -, he⟩
    · rwa [he] at hc
    · rwa [he] at hc

theorem Others.commit
    (hc : (∀ slot ∈ s.heap, ∀ r, slot.pending = some (i, r) → r.revokedAt ≠ none) ∨
      ((∀ j x l, j ≠ i → s.txs j = some x → todo x ≠ some l) ∧ ¬ ∃ j now, s.txs j = some (.revoke now .returned))) :
    Others tenantId familyId s i (s.heap.commit i) := by
  apply Others.map
  · intro P _ ha
    exact ha.commit
  · intro slot hs
    rcases slot.commit_cases (i := i) with ⟨he, -⟩ | ⟨r, hr, he⟩
    · exact Or.inl he
    · rw [he]
      exact Or.inr ⟨free_of_pending hr, fun j r h => (by cases h), rfl⟩
  · refine hc.imp_left fun hc slot hs c hcom => ?_
    rcases slot.commit_cases (i := i) with ⟨he, -⟩ | ⟨r, hr, he⟩
    · rw [he] at hcom
      exact Or.inl hcom
    · rw [he] at hcom
      obtain rfl := Option.some.inj hcom
      exact Or.inr (hc slot hs r hr)

/-! ## Steps -/

theorem Inv.owns (h : Inv tenantId familyId s) (hi : s.txs i = some x) (hs : slot ∈ s.heap) {r : RefreshToken}
    (hp : slot.pending = some (i, r)) : Owns r x := by
  obtain ⟨y, hy, ho⟩ := h.owners slot hs i r hp
  obtain rfl := Option.some.inj (hi.symm.trans hy)
  exact ho

theorem inv_rotateRow (h : Inv tenantId familyId s) {l : List Uuid} {count : Nat}
    (hi : s.txs i = some (.rotate k now n (.updating l count))) (hfree : s.heap.Free i id) :
    Inv tenantId familyId
      ({ s with heap := s.heap.update i id (TokenTable.consumable tenantId k) (consumeAt now) }.setTx i
        (.rotate k now n (.updating (l.filter (· ≠ id))
          (count + if s.heap.qualifies i id (TokenTable.consumable tenantId k) then 1 else 0)))) := by
  obtain ⟨hn, hk⟩ := h.found i k now n _ hi
  have ho : Others tenantId familyId s i (s.heap.update i id (TokenTable.consumable tenantId k) (consumeAt now)) :=
    Others.update hfree fun r => ⟨rfl, rfl, rfl, rfl, rfl, rfl, rfl⟩
  refine h.replace ho ?_ ?_ ?_ ?_ ?_
  · rintro k' now' n' ph' ⟨⟩
    exact ⟨hn, hk⟩
  · intro _ hm r hpend
    obtain ⟨slot, hs, rfl⟩ := List.mem_map.mp hm
    rcases Heap.updateSlot_cases (i := i) (k := id) (p := TokenTable.consumable tenantId k) (f := consumeAt now)
      (s := slot) with he | ⟨v, hkey, hv, hp, -⟩
    · rw [he] at hpend
      exact Nat.add_pos_left (h.owns hi hs hpend) _
    · have hq := Heap.qualifies_iff.mpr ⟨slot, hs, hkey, v, hv, hp⟩
      show 0 < count + if _ then 1 else 0
      rw [if_pos hq]
      exact Nat.succ_pos count
  · intro hpos
    by_cases hc : 0 < count
    · -- the token it has consumed before
      obtain ⟨slot, hs, c, r, hcom, hl, hfam, hpend⟩ := h.holders i _ hi hc
      refine ⟨_, List.mem_map_of_mem hs, c, ?_⟩
      rcases Heap.updateSlot_cases (i := i) (k := id) (p := TokenTable.consumable tenantId k) (f := consumeAt now)
        (s := slot) with he | ⟨v, -, -, -, he⟩
      · exact ⟨r, by rw [he]; exact ⟨hcom, hl, hfam, hpend⟩⟩
      · exact ⟨_, by rw [he]; exact ⟨hcom, hl, hfam, rfl⟩⟩
    · have hq : s.heap.qualifies i id (TokenTable.consumable tenantId k) = true := by
        by_contra hq
        simp only [Holds, if_neg hq] at hpos
        exact hc hpos
      obtain ⟨slot, hs, hkey, r, hv, hp⟩ := Heap.qualifies_iff.mp hq
      have hnp : ∀ r, slot.pending ≠ some (i, r) := fun r hr => hc (h.owns hi hs hr)
      have hcom : slot.committed = some r := (Slot.visible_of_not_pending hnp).symm.trans hv
      refine ⟨_, List.mem_map_of_mem hs, r, consumeAt now r, ?_⟩
      rw [Heap.updateSlot_of_visible hkey hv hp]
      exact ⟨hcom, hp.2.2, hk slot hs r (Or.inl hcom) hp.2.1, rfl⟩
  · intro l' hl'
    cases hl'
  · intro now' hx
    cases hx

theorem inv_rotateCommit (h : Inv tenantId familyId s) (hap : ¬ s.Revoking)
    (hi : s.txs i = some (.rotate k now n (.inserted id))) :
    Inv tenantId familyId ({ s with heap := s.heap.commit i }.setTx i (.rotate k now n (.returned (some id)))) := by
  have hh : Holder familyId s.heap i := h.holders i _ hi trivial
  have hno : (∀ j x l, j ≠ i → s.txs j = some x → todo x ≠ some l) ∧
      ¬ ∃ j now, s.txs j = some (.revoke now .returned) := by
    constructor
    · intro j x l hne hx hl
      cases x with
      | rotate k' now' n' ph => cases hl
      | revoke now' ph =>
        cases ph with
        | updating l' => exact hap ⟨j, now', l', hx⟩
        | updated => exact not_covers_of_holder hh hne (h.covers j _ [] hx rfl)
        | begun => cases hl
        | returned => cases hl
        | aborted => cases hl
    · rintro ⟨j, now', hj⟩
      exact not_allRevoked_of_holder hh (h.returned j now' hj)
  refine h.replace (Others.commit (Or.inr hno)) ?_ ?_ ?_ ?_ ?_
  · rintro k' now' n' ph' ⟨⟩
    exact h.found i k now n _ hi
  · intro slot hs r hp
    exact absurd hp (Heap.not_pending_commit hs r)
  · exact fun hf => hf.elim
  · intro l hl
    cases hl
  · intro now' hx
    cases hx

theorem inv_revokeStart (h : Inv tenantId familyId s)
    (hi : s.txs i = some (.revoke now .begun)) :
    Inv tenantId familyId (s.setTx i
      (.revoke now (.updating (s.heap.candidates i (TokenTable.revocable tenantId familyId))))) := by
  have hnp : ∀ slot ∈ s.heap, ∀ r, slot.pending ≠ some (i, r) := fun slot hs r hr => h.owns hi hs hr
  refine h.replace (Others.refl s i) ?_ ?_ ?_ ?_ ?_
  · intro k now n ph hx
    cases hx
  · intro slot hs r hp
    exact absurd hp (hnp slot hs r)
  · exact fun hf => hf.elim
  · rintro l ⟨⟩ slot hs c hcom hfam hrev
    have hv : slot.visible i = some c := (Slot.visible_of_not_pending (hnp slot hs)).trans hcom
    exact Or.inl (Heap.mem_candidates hs hv ⟨h.tenants slot hs c (Or.inl hcom) hfam, hfam, hrev⟩)
  · intro now' hx
    cases hx

theorem inv_revokeRow (h : Inv tenantId familyId s) {l : List Uuid}
    (hi : s.txs i = some (.revoke now (.updating l))) (hfree : s.heap.Free i id) :
    Inv tenantId familyId
      ({ s with heap := s.heap.update i id (TokenTable.revocable tenantId familyId) (revokeAt now) }.setTx i
        (.revoke now (.updating (l.filter (· ≠ id))))) := by
  have ho : Others tenantId familyId s i (s.heap.update i id (TokenTable.revocable tenantId familyId) (revokeAt now)) :=
    Others.update hfree fun r => ⟨rfl, rfl, rfl, rfl, rfl, rfl, rfl⟩
  refine h.replace ho ?_ ?_ ?_ ?_ ?_
  · intro k now' n ph hx
    cases hx
  · intro _ hm r hpend
    obtain ⟨slot, hs, rfl⟩ := List.mem_map.mp hm
    rcases Heap.updateSlot_cases (i := i) (k := id) (p := TokenTable.revocable tenantId familyId) (f := revokeAt now)
      (s := slot) with he | ⟨v, -, -, -, he⟩
    · rw [he] at hpend
      exact h.owns hi hs hpend
    · rw [he] at hpend
      obtain ⟨-, rfl⟩ := Prod.mk.inj (Option.some.inj hpend)
      exact Option.some_ne_none now
  · exact fun hf => hf.elim
  · rintro l' ⟨⟩ _ hm c hcom hfam hrev
    obtain ⟨slot, hs, rfl⟩ := List.mem_map.mp hm
    by_cases hkey : slot.key = id
    · rcases Slot.visible_of_free (hfree slot hs hkey) with ⟨hnone, hv⟩ | ⟨r, hpend, -⟩
      · -- free and unrevoked: the statement acts on it
        have hcom' : slot.committed = some c := by
          rcases Heap.updateSlot_cases (i := i) (k := id) (p := TokenTable.revocable tenantId familyId)
            (f := revokeAt now) (s := slot) with he | ⟨v, -, -, -, he⟩
          · rwa [he] at hcom
          · rwa [he] at hcom
        have hp : TokenTable.revocable tenantId familyId c :=
          ⟨h.tenants slot hs c (Or.inl hcom') hfam, hfam, hrev⟩
        rw [Heap.updateSlot_of_visible hkey (hv.trans hcom') hp]
        exact Or.inr ⟨_, rfl⟩
      · rcases Heap.updateSlot_cases (i := i) (k := id) (p := TokenTable.revocable tenantId familyId)
          (f := revokeAt now) (s := slot) with he | ⟨v, -, -, -, he⟩
        · exact Or.inr ⟨r, by rw [he]; exact hpend⟩
        · exact Or.inr ⟨_, by rw [he]⟩
    · have he : Heap.updateSlot i id (TokenTable.revocable tenantId familyId) (revokeAt now) slot = slot := if_neg hkey
      rw [he] at hcom ⊢
      rcases h.covers i _ l hi rfl slot hs c hcom hfam hrev with hk | hk
      · exact Or.inl (List.mem_filter.mpr ⟨hk, decide_eq_true hkey⟩)
      · exact Or.inr hk
  · intro now' hx
    cases hx

theorem inv_revokeCommit (h : Inv tenantId familyId s)
    (hi : s.txs i = some (.revoke now .updated)) :
    Inv tenantId familyId ({ s with heap := s.heap.commit i }.setTx i (.revoke now .returned)) := by
  have hown : ∀ slot ∈ s.heap, ∀ r, slot.pending = some (i, r) → r.revokedAt ≠ none :=
    fun slot hs r hp => h.owns hi hs hp
  refine h.replace (Others.commit (Or.inl hown)) ?_ ?_ ?_ ?_ ?_
  · intro k now' n ph hx
    cases hx
  · intro slot hs r hp
    exact absurd hp (Heap.not_pending_commit hs r)
  · exact fun hf => hf.elim
  · intro l hl
    cases hl
  · intro now' _ _ hm c hcom hfam hrev
    obtain ⟨slot, hs, rfl⟩ := List.mem_map.mp hm
    rcases slot.commit_cases (i := i) with ⟨he, hn⟩ | ⟨r, hr, he⟩
    · rw [he] at hcom
      rcases h.covers i _ [] hi rfl slot hs c hcom hfam hrev with hk | ⟨r, hr⟩
      · exact absurd hk List.not_mem_nil
      · exact hn r hr
    · rw [he] at hcom
      obtain rfl := Option.some.inj hcom
      exact hown slot hs r hr hrev

theorem Inv.setPhase (h : Inv tenantId familyId s)
    (hfound : ∀ k now n ph, x = .rotate k now n ph →
      n.familyId = familyId ∧ s.heap.All fun r => r.id = k → r.familyId = familyId)
    (hown : ∀ slot ∈ s.heap, ∀ r, slot.pending = some (i, r) → Owns r x)
    (hhold : Holds x → Holder familyId s.heap i) (hcov : ∀ l, todo x = some l → Covers familyId s.heap i l)
    (hret : ∀ now, x ≠ .revoke now .returned) : Inv tenantId familyId (s.setTx i x) :=
  h.replace (Others.refl s i) hfound hown hhold hcov fun now hx => absurd hx (hret now)

theorem inv_rotateEnd (h : Inv tenantId familyId s) {count : Nat}
    (hi : s.txs i = some (.rotate k now n (.updating [] count))) :
    Inv tenantId familyId (s.setTx i (.rotate k now n (if count = 0 then .returned none else .consumed))) := by
  by_cases hc : count = 0
  · subst hc
    refine h.setPhase ?_ ?_ (fun hf => hf.elim) (fun l hl => by cases hl) (fun now' hx => by cases hx)
    · rintro k' now' n' ph' ⟨⟩
      exact h.found i k now n _ hi
    · intro slot hs r hp
      exact absurd (h.owns hi hs hp) (Nat.lt_irrefl 0)
  · rw [if_neg hc]
    refine h.setPhase ?_ (fun _ _ _ _ => trivial) ?_ (fun l hl => by cases hl) (fun now' hx => by cases hx)
    · rintro k' now' n' ph' ⟨⟩
      exact h.found i k now n _ hi
    · intro _
      exact h.holders i _ hi (Nat.pos_of_ne_zero hc)

theorem inv_rotateInsert (h : Inv tenantId familyId s) (id : Uuid) (hi : s.txs i = some (.rotate k now n .consumed)) :
    Inv tenantId familyId ({ s with heap := s.heap.insert i id (n.row tenantId id (some k)) }.setTx i
      (.rotate k now n (.inserted id))) := by
  obtain ⟨hn, hk⟩ := h.found i k now n _ hi
  refine h.replace (Others.insert hn) ?_ (fun _ _ _ _ => trivial) ?_ (fun l hl => by cases hl)
    (fun now' hx => by cases hx)
  · rintro k' now' n' ph' ⟨⟩
    exact ⟨hn, hk⟩
  · intro _
    obtain ⟨slot, hs, hh⟩ := h.holders i _ hi trivial
    exact ⟨slot, List.mem_append_left _ hs, hh⟩

theorem inv_abort (h : Inv tenantId familyId s) (hi : s.txs i = some x) :
    Inv tenantId familyId ({ s with heap := s.heap.abort i }.setTx i (aborted x)) := by
  refine h.replace (Others.abort s i) ?_ ?_ ?_ ?_ ?_
  · intro k now n ph hx
    cases x with
    | rotate k' now' n' ph' =>
      cases hx
      exact h.found i k now n ph' hi
    | revoke now' ph' => cases hx
  · intro slot hs r hp
    exact absurd hp (Heap.not_pending_abort hs r)
  · intro hh
    cases x <;> exact hh.elim
  · intro l hl
    cases x <;> cases hl
  · intro now hx
    cases x <;> cases hx

theorem inv_step {t : TokenDb} (h : Inv tenantId familyId s) (hs : Step tenantId familyId s t)
    (hap : CommitsApart s t) : Inv tenantId familyId t := by
  cases hs with
  | @beginRotate i k now n hi hn hk =>
    refine h.setPhase ?_ ?_ (fun hf => hf.elim) (fun l hl => by cases hl) (fun now' hx => by cases hx)
    · rintro k' now' n' ph' ⟨⟩
      exact ⟨hn, hk⟩
    · intro slot hs r hp
      obtain ⟨x, hx, -⟩ := h.owners slot hs i r hp
      rw [hi] at hx
      cases hx
  | @beginRevoke i now hi =>
    refine h.setPhase ?_ ?_ (fun hf => hf.elim) (fun l hl => by cases hl) (fun now' hx => by cases hx)
    · intro k now' n ph hx
      cases hx
    · intro slot hs r hp
      obtain ⟨x, hx, -⟩ := h.owners slot hs i r hp
      rw [hi] at hx
      cases hx
  | @rotateStart i k now n hi =>
    refine h.setPhase ?_ ?_ ?_ (fun l hl => by cases hl) (fun now' hx => by cases hx)
    · rintro k' now' n' ph' ⟨⟩
      exact h.found i k now n _ hi
    · intro slot hs r hp
      exact (h.owns hi hs hp).elim
    · intro hh
      exact absurd hh (Nat.lt_irrefl 0)
  | rotateRow hi hm hfree => exact inv_rotateRow h hi hfree
  | rotateEnd hi => exact inv_rotateEnd h hi
  | rotateInsert id hi hnew => exact inv_rotateInsert h id hi
  | @rotateCommit i k now n id hi =>
    exact inv_rotateCommit h (hap i k now n id hi (Function.update_self ..)) hi
  | revokeStart hi => exact inv_revokeStart h hi
  | revokeRow hi hm hfree => exact inv_revokeRow h hi hfree
  | @revokeEnd i now hi =>
    refine h.setPhase ?_ ?_ (fun hf => hf.elim) ?_ (fun now' hx => by cases hx)
    · intro k now' n ph hx
      cases hx
    · intro slot hs r hp
      exact h.owns hi hs hp
    · rintro l ⟨⟩
      exact h.covers i _ [] hi rfl
  | revokeCommit hi => exact inv_revokeCommit h hi
  | abort hi ho => exact inv_abort h hi

theorem inv_init (h : (system tenantId familyId).init s) : Inv tenantId familyId s := by
  obtain ⟨hp, ht, hx⟩ := h
  have hno : ∀ i x, s.txs i ≠ some x := by
    intro i x hi
    rw [hx] at hi
    cases hi
  refine ⟨ht, fun i k now n ph hi => absurd hi (hno i _), ?_, fun i x hi => absurd hi (hno i x),
    fun i x l hi => absurd hi (hno i x), fun i now hi => absurd hi (hno i _)⟩
  intro slot hs i r hr
  rw [hp slot hs] at hr
  cases hr

/-! ## Main result -/

/-- **Revocation.** In every run in which rotations commit apart from the `UPDATE`s of `revokeFamily`. -/
theorem family_stays_revoked
    (hr : ((system tenantId familyId).restrict CommitsApart).Reachable s)
    (hi : s.txs i = some (.revoke now .returned)) :
    ∀ slot ∈ s.heap, ∀ r, slot.committed = some r → r.familyId = familyId → ¬ r.live := by
  have h : Inv tenantId familyId s := by
    apply hr.invariant
    · intro s hs
      exact inv_init hs
    · intro s t _ h hst
      exact inv_step h hst.1 hst.2
  intro slot hs r hc hf hl
  exact h.returned i now hi slot hs r hc hf hl.2

/-! ## A successor the revocation does not see -/

def sampleRow : RefreshToken :=
  { id := .rep 4, tenantId := .rep 1, userId := .rep 2, familyId := .rep 3, tokenHash := [], expiresAt := 604800000
    rotatedAt := none, revokedAt := none, parent := none }

def sampleStart : TokenDb := ⟨[⟨.rep 4, some sampleRow, none⟩], fun _ => none⟩

def sampleSuccessor : NewRefreshToken := ⟨.rep 3, .rep 2, [], 604801000⟩

def sampleConsumed : Heap Uuid RefreshToken :=
  Heap.update 0 (.rep 4) (TokenTable.consumable (.rep 1) (.rep 4)) (consumeAt 1) sampleStart.heap

def sampleInserted : Heap Uuid RefreshToken :=
  sampleConsumed.insert 0 (.rep 5) (sampleSuccessor.row (.rep 1) (.rep 5) (some (.rep 4)))

theorem sample_rotate :
    (.rep 4 ∈ Heap.candidates 0 (TokenTable.consumable (.rep 1) (.rep 4)) sampleStart.heap) ∧
    RotatePhase.updating
      ((Heap.candidates 0 (TokenTable.consumable (.rep 1) (.rep 4)) sampleStart.heap).filter (· ≠ .rep 4))
      (0 + if Heap.qualifies 0 (.rep 4) (TokenTable.consumable (.rep 1) (.rep 4)) sampleStart.heap then 1 else 0) =
        .updating [] 1 ∧
    ∀ slot ∈ sampleConsumed, slot.key ≠ .rep 5 := by decide

theorem sample_revoke :
    (.rep 4 ∈ Heap.candidates 1 (TokenTable.revocable (.rep 1) (.rep 3)) sampleConsumed) ∧
    RevokePhase.updating
      ((Heap.candidates 1 (TokenTable.revocable (.rep 1) (.rep 3)) sampleConsumed).filter (· ≠ .rep 4)) =
        .updating [] ∧
    ∀ slot ∈ sampleInserted.commit 0, slot.pending = none := by decide

theorem sample_successor :
    ⟨.rep 5, some (sampleSuccessor.row (.rep 1) (.rep 5) (some (.rep 4))), none⟩ ∈
      (Heap.update 1 (.rep 4) (TokenTable.revocable (.rep 1) (.rep 3)) (revokeAt 2)
        (sampleInserted.commit 0)).commit 1 := by decide

theorem free_of_key
    (hn : ∀ slot ∈ h, slot.key = k → slot.pending = none) : h.Free i k := by
  intro slot hs hk j r hp
  rw [hn slot hs hk] at hp
  cases hp

theorem free_of_none (hn : ∀ slot ∈ h, slot.pending = none) :
    h.Free i k :=
  free_of_key fun slot hs _ => hn slot hs

theorem sample_init : (system (.rep 1) (.rep 3)).init sampleStart ∧
    sampleStart.heap.All fun r => r.id = .rep 4 → r.familyId = .rep 3 := by
  have hall : ∀ P : RefreshToken → Prop, P sampleRow → sampleStart.heap.All P := by
    intro P hP slot hs r hr
    obtain rfl := List.mem_singleton.mp hs
    rcases hr with hr | ⟨i, hr⟩
    · exact Option.some.inj hr ▸ hP
    · cases hr
  refine ⟨⟨?_, hall _ fun _ => rfl, rfl⟩, hall _ fun _ => rfl⟩
  intro slot hs
  obtain rfl := List.mem_singleton.mp hs
  rfl

theorem successor_survives_revocation :
    ∃ s : TokenDb, (system (.rep 1) (.rep 3)).Reachable s ∧ s.txs 1 = some (.revoke 2 .returned) ∧
      ∃ slot ∈ s.heap, ∃ r, slot.committed = some r ∧ r.familyId = .rep 3 ∧ r.live := by
  have h0 : (system (.rep 1) (.rep 3)).Reachable sampleStart := .init sample_init.1
  have h1 := h0.step (.beginRotate (i := 0) (.rep 4) 1 sampleSuccessor rfl rfl sample_init.2)
  have h2 := h1.step (.rotateStart (i := 0) rfl)
  have h3 := h2.step (.rotateRow (i := 0) rfl sample_rotate.1 (free_of_none sample_init.1.1))
  have h4 := h3.step (.rotateEnd (i := 0)
    (congrArg (fun p => some (Tx.rotate (.rep 4) 1 sampleSuccessor p)) sample_rotate.2.1))
  have h5 := h4.step (.beginRevoke (i := 1) 2 rfl)
  have h6 := h5.step (.revokeStart (i := 1) rfl)
  have h7 := h6.step (.rotateInsert (i := 0) (.rep 5) rfl sample_rotate.2.2)
  have h8 := h7.step (.rotateCommit (i := 0) rfl)
  have h9 := h8.step (.revokeRow (i := 1) rfl sample_revoke.1 (free_of_none sample_revoke.2.2))
  have h10 := h9.step (.revokeEnd (i := 1) (congrArg (fun p => some (Tx.revoke 2 p)) sample_revoke.2.1))
  have h11 := h10.step (.revokeCommit (i := 1) rfl)
  exact ⟨_, h11, rfl, _, sample_successor, _, rfl, rfl, rfl, rfl⟩

/-! ## A rotation that commits before the revocation starts -/

theorem commitsApart_setTx {s' : TokenDb} (he : s'.txs = s.txs) {y : Tx}
    (hy : ∀ k now n id, y ≠ .rotate k now n (.returned (some id))) : CommitsApart s (s'.setTx j y) := by
  intro i k now n id hi ht
  rcases setTx_cases ht with ⟨-, hx⟩ | ⟨-, hx⟩
  · exact absurd hx.symm (hy k now n id)
  · rw [he, hi] at hx
    cases hx

def Quiet (s : TokenDb) : Prop := ((system (.rep 1) (.rep 3)).restrict CommitsApart).Reachable s ∧ ¬ s.Revoking

theorem Quiet.step {s' : TokenDb} (h : Quiet s) {y : Tx} (hst : Step (.rep 1) (.rep 3) s (s'.setTx j y))
    (he : s'.txs = s.txs) (hy : ∀ now todo, y ≠ .revoke now (.updating todo)) : Quiet (s'.setTx j y) := by
  refine ⟨h.1.step ⟨hst, fun i k now n id _ _ => h.2⟩, ?_⟩
  rintro ⟨i, now, todo, hi⟩
  rcases setTx_cases hi with ⟨-, hx⟩ | ⟨-, hx⟩
  · exact hy now todo hx.symm
  · exact h.2 ⟨i, now, todo, he ▸ hx⟩

def sampleSeen : List Uuid := Heap.candidates 1 (TokenTable.revocable (.rep 1) (.rep 3)) (sampleInserted.commit 0)

def sampleRevoked : Heap Uuid RefreshToken :=
  Heap.update 1 (.rep 4) (TokenTable.revocable (.rep 1) (.rep 3)) (revokeAt 2) (sampleInserted.commit 0)

theorem sample_apart :
    .rep 4 ∈ sampleSeen ∧ .rep 5 ∈ sampleSeen.filter (· ≠ .rep 4) ∧
    RevokePhase.updating ((sampleSeen.filter (· ≠ .rep 4)).filter (· ≠ .rep 5)) = .updating [] ∧
    (∀ slot ∈ sampleRevoked, slot.key = .rep 5 → slot.pending = none) ∧
    ∃ slot ∈ (Heap.update 1 (.rep 5) (TokenTable.revocable (.rep 1) (.rep 3)) (revokeAt 2) sampleRevoked).commit 1,
      slot.key = .rep 5 ∧ slot.committed.map (·.familyId) = some (.rep 3) := by decide

/-- The revocation has begun when the rotation commits, and revokes the token and its successor. -/
theorem rotation_then_revocation_holds :
    ∃ s : TokenDb, ((system (.rep 1) (.rep 3)).restrict CommitsApart).Reachable s ∧
      s.txs 0 = some (.rotate (.rep 4) 1 sampleSuccessor (.returned (some (.rep 5)))) ∧
      s.txs 1 = some (.revoke 2 .returned) ∧
      (∃ slot ∈ s.heap, slot.key = .rep 5 ∧ slot.committed.map (·.familyId) = some (.rep 3)) ∧
      ∀ slot ∈ s.heap, ∀ r, slot.committed = some r → r.familyId = .rep 3 → ¬ r.live := by
  have h0 : Quiet sampleStart := by
    refine ⟨.init sample_init.1, ?_⟩
    rintro ⟨i, now, todo, hi⟩
    cases hi
  have h1 := h0.step (.beginRotate (i := 0) (.rep 4) 1 sampleSuccessor rfl rfl sample_init.2) rfl (by simp)
  have h2 := h1.step (.beginRevoke (i := 1) 2 rfl) rfl (by simp)
  have h3 := h2.step (.rotateStart (i := 0) rfl) rfl (by simp)
  have h4 := h3.step (.rotateRow (i := 0) rfl sample_rotate.1 (free_of_none sample_init.1.1)) rfl (by simp)
  have h5 := h4.step (.rotateEnd (i := 0)
    (congrArg (fun p => some (Tx.rotate (.rep 4) 1 sampleSuccessor p)) sample_rotate.2.1)) rfl (by simp)
  have h6 := h5.step (.rotateInsert (i := 0) (.rep 5) rfl sample_rotate.2.2) rfl (by simp)
  have h7 := (h6.step (.rotateCommit (i := 0) rfl) rfl (by simp)).1
  have h8 := h7.step ⟨.revokeStart (i := 1) rfl, commitsApart_setTx rfl (by simp)⟩
  have h9 := h8.step ⟨.revokeRow (i := 1) rfl sample_apart.1 (free_of_none sample_revoke.2.2),
    commitsApart_setTx rfl (by simp)⟩
  have h10 := h9.step ⟨.revokeRow (i := 1) rfl sample_apart.2.1 (free_of_key sample_apart.2.2.2.1),
    commitsApart_setTx rfl (by simp)⟩
  have h11 := h10.step ⟨.revokeEnd (i := 1) (congrArg (fun p => some (Tx.revoke 2 p)) sample_apart.2.2.1),
    commitsApart_setTx rfl (by simp)⟩
  have h12 := h11.step ⟨.revokeCommit (i := 1) rfl, commitsApart_setTx rfl (by simp)⟩
  exact ⟨_, h12, rfl, rfl, sample_apart.2.2.2.2, family_stays_revoked h12 (i := 1) rfl⟩

end TokenDb

end Logalot
