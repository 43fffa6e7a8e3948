import Logalot.AccountRowsSound

/-!
# Provisioning is all or nothing

A call that returns a user has consumed one invite and committed one user with
its membership and its link; any other call has committed nothing.
-/

namespace Logalot

open Go Pg Mvcc

/-! ## Transactions -/

def Writes (h : AccountHeap) (i : Nat) (rows : List (AccountKey × AccountRow)) : Prop :=
  ∀ k, h.written i k = rows.lookup k

section Writes

variable {h h' : AccountHeap} {i j : Nat} {k : AccountKey} {row : AccountRow} {rows : List (AccountKey × AccountRow)}

theorem lookup_cons_ite {k' : AccountKey} :
    ((k, row) :: rows).lookup k' = if k' = k then some row else rows.lookup k' := by
  rw [List.lookup_cons]
  by_cases e : k' = k
  · rw [if_pos e, beq_iff_eq.mpr e]
  · rw [if_neg e, beq_eq_false_iff_ne.mpr e]

theorem Writes.keeps (hw : Writes h i rows) (hj : i ≠ j) (hk : Heap.Keeps j h h') : Writes h' i rows := by
  intro k
  rw [hk.written i hj k]
  exact hw k

theorem Writes.insert (hw : Writes h i rows) (hf : AccountHeap.Fresh k h) :
    Writes (h.insert i k row) i ((k, row) :: rows) := by
  intro k'
  rw [Heap.written_insert hf, lookup_cons_ite]
  by_cases e : k' = k
  · rw [if_pos ⟨rfl, e⟩, if_pos e]
  · rw [if_neg fun hc => e hc.2, if_neg e]
    exact hw k'

theorem Writes.commit (hw : Writes h i rows) : (h.commit i).read k = (rows.lookup k).or (h.read k) := by
  rw [Heap.read_commit, hw k]

theorem Writes.ne_none (hw : Writes h i rows) (hk : (rows.lookup k).isSome = true) : h.written i k ≠ none := by
  rw [hw k]
  exact Option.isSome_iff_ne_none.mp hk

theorem Writes.read (hw : Writes h i rows) (hj : i ≠ j) (hk : Heap.Keeps j h h')
    (hm : (rows.lookup k).isSome = true) : h'.read k = h.read k :=
  hk.read i hj k (hw.ne_none hm)

end Writes

section Provision

variable (t : Uuid) (n : InviteProvisionInput) (v : Invite) (userId identityId : Uuid)

def inviteRows : List (AccountKey × AccountRow) :=
  [(.invite v.id, .invite { v with status := .consumed, consumedAt := some n.now })]

def userRows : List (AccountKey × AccountRow) :=
  (.user userId, .user
    { id := userId, tenantId := t, email := n.email, passwordHash := bs "!disabled", displayName := none
      status := bs "active", isPlatformOperator := false }) :: inviteRows n v

def memberRows : List (AccountKey × AccountRow) :=
  (.membership t userId, .membership
    { tenantId := t, userId, role := if v.role = .admin then .tenantAdmin else .member }) :: userRows t n v userId

def provisionRows : List (AccountKey × AccountRow) :=
  (.identity identityId, .identity
    { id := identityId, tenantId := t, userId, provider := .google, providerSub := n.providerSub, email := n.email
      lastLoginAt := none }) :: memberRows t n v userId

end Provision

structure Claims (h : AccountHeap) (t : Uuid) (n : InviteProvisionInput) (v : Invite) : Prop where
  consumable : v.consumable t n
  read : h.read (.invite v.id) = some (.invite v)

open AccountHeap

def ProvisionSound (h : AccountHeap) (i : Nat) (t : Uuid) (n : InviteProvisionInput) : ProvisionPhase → Prop
  | .begun => Writes h i []
  | .consuming _ none => Writes h i []
  | .consuming _ (some v) => Writes h i (inviteRows n v) ∧ Claims h t n v
  | .consumed v => Writes h i (inviteRows n v) ∧ Claims h t n v
  | .userInserted v u => Writes h i (userRows t n v u) ∧ Claims h t n v ∧ h.read (.user u) = none ∧ Unlinked u h
  | .memberInserted v u =>
    Writes h i (memberRows t n v u) ∧ Claims h t n v ∧ h.read (.user u) = none ∧ h.read (.membership t u) = none ∧
      Unlinked u h
  | .relinking v u =>
    Writes h i (memberRows t n v u) ∧ Claims h t n v ∧ h.read (.user u) = none ∧ h.read (.membership t u) = none ∧
      Unlinked u h
  | .linked v u d =>
    Writes h i (provisionRows t n v u d) ∧ Claims h t n v ∧ h.read (.user u) = none ∧
      h.read (.membership t u) = none ∧ h.read (.identity d) = none
  | .provisioned k u =>
    (∃ v, h.read (.invite k) = some (.invite v) ∧ v.status = .consumed) ∧ Linked t .google n.providerSub u h
  | _ => True

def LinkSound (h : AccountHeap) (i : Nat) (t : Uuid) (n : NewOAuthIdentity) : LinkPhase → Prop
  | .begun => Writes h i []
  | .relinking => Writes h i []
  | .linked ref =>
    (h.written i (.identity ref.id) = some (.identity (n.row t ref.id)) ∧ ref.userId = n.userId) ∨
      Linked t n.provider n.providerSub ref.userId h
  | .returned ref => Linked t n.provider n.providerSub ref.userId h
  | _ => True

def TxSound (h : AccountHeap) (i : Nat) : Option AccountTx → Prop
  | none => Writes h i []
  | some (.provision t n ph) => ProvisionSound h i t n ph
  | some (.link t n ph) => LinkSound h i t n ph
  | _ => True

/-! ### Steps of other transactions -/

section Frame

variable {h h' : AccountHeap} {i j : Nat} {t : Uuid} {rows : List (AccountKey × AccountRow)}

theorem Claims.keeps {n : InviteProvisionInput} {v : Invite}
    (hc : Claims h t n v) (hw : Writes h i rows) (hj : i ≠ j) (hk : Heap.Keeps j h h')
    (hm : (rows.lookup (.invite v.id)).isSome = true) : Claims h' t n v := by
  refine ⟨hc.consumable, ?_⟩
  rw [hw.read hj hk hm]
  exact hc.read

theorem isSome_lookup_of_mem {k : AccountKey} (hm : k ∈ rows.map Prod.fst) :
    (rows.lookup k).isSome = true := by
  induction rows with
  | nil => cases hm
  | cons a rows ih =>
    rw [lookup_cons_ite]
    by_cases e : k = a.1
    · rw [if_pos e]
      rfl
    · rw [if_neg e]
      exact ih ((List.mem_cons.mp hm).resolve_left e)

theorem ProvisionSound.frame {n : InviteProvisionInput} {ph : ProvisionPhase} (hs : ProvisionSound h i t n ph)
    (hj : i ≠ j) (hf : Frame j h h') : ProvisionSound h' i t n ph := by
  have hread : ∀ {rows : List (AccountKey × AccountRow)} {k : AccountKey}, Writes h i rows →
      k ∈ rows.map Prod.fst → h.read k = none → h'.read k = none := by
    intro rows k hw hm hr
    rw [hw.read hj hf.keeps (isSome_lookup_of_mem hm)]
    exact hr
  have hclaims : ∀ {rows : List (AccountKey × AccountRow)} {v : Invite}, Claims h t n v → Writes h i rows →
      .invite v.id ∈ rows.map Prod.fst → Claims h' t n v := by
    intro rows v hc hw hm
    exact hc.keeps hw hj hf.keeps (isSome_lookup_of_mem hm)
  have hmember : ∀ {v : Invite} {u : Uuid}, ProvisionSound h i t n (.memberInserted v u) →
      ProvisionSound h' i t n (.memberInserted v u) := by
    intro v u ⟨hw, hc, hu, hm, hl⟩
    have hmu : AccountKey.user u ∈ (memberRows t n v u).map Prod.fst := by simp [memberRows, userRows]
    exact ⟨hw.keeps hj hf.keeps, hclaims hc hw (by simp [memberRows, userRows, inviteRows]), hread hw hmu hu,
      hread hw (by simp [memberRows]) hm, hf.unlinked i hj u (hw.ne_none (isSome_lookup_of_mem hmu)) hu hl⟩
  cases ph with
  | begun => exact Writes.keeps hs hj hf.keeps
  | consuming todo got =>
    cases got with
    | none => exact Writes.keeps hs hj hf.keeps
    | some v =>
      obtain ⟨hw, hc⟩ := hs
      exact ⟨hw.keeps hj hf.keeps, hclaims hc hw (by simp [inviteRows])⟩
  | consumed v =>
    obtain ⟨hw, hc⟩ := hs
    exact ⟨hw.keeps hj hf.keeps, hclaims hc hw (by simp [inviteRows])⟩
  | userInserted v u =>
    obtain ⟨hw, hc, hu, hl⟩ := hs
    have hmu : AccountKey.user u ∈ (userRows t n v u).map Prod.fst := by simp [userRows]
    exact ⟨hw.keeps hj hf.keeps, hclaims hc hw (by simp [userRows, inviteRows]), hread hw hmu hu,
      hf.unlinked i hj u (hw.ne_none (isSome_lookup_of_mem hmu)) hu hl⟩
  | memberInserted v u => exact hmember hs
  | relinking v u => exact hmember hs
  | linked v u d =>
    obtain ⟨hw, hc, hu, hm, hd⟩ := hs
    exact ⟨hw.keeps hj hf.keeps, hclaims hc hw (by simp [provisionRows, memberRows, userRows, inviteRows]),
      hread hw (by simp [provisionRows, memberRows, userRows]) hu, hread hw (by simp [provisionRows, memberRows]) hm,
      hread hw (by simp [provisionRows]) hd⟩
  | provisioned k u =>
    obtain ⟨⟨v, hv, hc⟩, hl⟩ := hs
    refine ⟨?_, hl.read_mono hf.grows⟩
    obtain ⟨r', hr', rfl | he⟩ := hf.grows _ _ hv
    · exact ⟨v, hr', hc⟩
    · cases r' with
      | invite w =>
        have hp := he.1
        rw [hc] at hp
        cases hp
      | _ => exact he.elim
  | _ => trivial

theorem LinkSound.frame {n : NewOAuthIdentity} {ph : LinkPhase} (hs : LinkSound h i t n ph) (hj : i ≠ j)
    (hf : Frame j h h') : LinkSound h' i t n ph := by
  cases ph with
  | begun => exact Writes.keeps hs hj hf.keeps
  | relinking => exact Writes.keeps hs hj hf.keeps
  | linked ref =>
    rcases hs with ⟨hw, hu⟩ | hl
    · refine Or.inl ⟨?_, hu⟩
      rw [hf.keeps.written i hj]
      exact hw
    · exact Or.inr (hl.read_mono hf.grows)
  | returned ref => exact Linked.read_mono hs hf.grows
  | _ => trivial

theorem TxSound.frame {x : Option AccountTx} (hs : TxSound h i x) (hj : i ≠ j) (hf : Frame j h h') :
    TxSound h' i x := by
  cases x with
  | none => exact Writes.keeps hs hj hf.keeps
  | some x =>
    cases x with
    | provision t n ph => exact ProvisionSound.frame hs hj hf
    | link t n ph => exact LinkSound.frame hs hj hf
    | _ => trivial

end Frame

/-! ### Steps of a transaction -/

section Own

variable {h : AccountHeap} {i : Nat} {t u : Uuid} {n : InviteProvisionInput} {k : AccountKey} {v : Invite}
  {slot : Slot AccountKey AccountRow}

theorem returning_eq_some {r : Option AccountRow} (hr : Accounts.returning t n r = some v) :
    r = some (.invite v) ∧ v.consumable t n := by
  unfold Accounts.returning at hr
  split at hr
  · split at hr
    · rename_i hc
      obtain rfl := Option.some.inj hr
      exact ⟨rfl, hc⟩
    · cases hr
  · cases hr

theorem any_cond_of_returning {r : Option AccountRow} (hr : Accounts.returning t n r = none) :
    r.any (consumeWithClient t n).cond = false := by
  cases r with
  | none => rfl
  | some r =>
    cases r with
    | invite v =>
      have hc : ¬ v.consumable t n := by
        intro hc
        rw [Accounts.returning, if_pos hc] at hr
        cases hr
      exact decide_eq_false hc
    | _ => rfl

theorem Writes.update_none {rows : List (AccountKey × AccountRow)} {u : RowUpdate} (hw : Writes h i rows)
    (hs : h.slot? k = some slot) (hn : (slot.visible i).any u.cond = false) :
    Writes (h.update i k (fun r => u.cond r = true) u.set) i rows := by
  intro k'
  by_cases e : k' = k
  · rw [e, Heap.written_update_self hs]
    simp only [Bool.decide_eq_true, hn]
    rw [← hw k, Heap.written, hs]
    rfl
  · rw [Heap.written_update_of_ne e]
    exact hw k'

theorem Writes.update_some {u : RowUpdate} {r : AccountRow} (hw : Writes h i []) (hs : h.slot? k = some slot)
    (hv : slot.visible i = some r) (hc : u.cond r = true) :
    Writes (h.update i k (fun r => u.cond r = true) u.set) i [(k, u.set r)] := by
  intro k'
  rw [lookup_cons_ite]
  by_cases e : k' = k
  · rw [if_pos e, e, Heap.written_update_self hs, hv]
    simp [hc]
  · rw [if_neg e, Heap.written_update_of_ne e]
    exact hw k'

theorem visible_of_writes_nil (hw : Writes h i []) (hs : h.slot? k = some slot) : slot.visible i = slot.committed := by
  apply Slot.visible_of_not_pending
  rw [← Slot.written_eq_none]
  have hn := hw k
  rw [Heap.written, hs] at hn
  exact hn

theorem ProvisionSound.consumeRow (hs : Sound h) {todo todo' : List AccountKey} {got : Option Invite}
    (hp : ProvisionSound h i t n (.consuming todo got)) (hsl : h.slot? k = some slot) :
    ProvisionSound (h.update i k (fun r => (consumeWithClient t n).cond r = true) (consumeWithClient t n).set) i t n
      (.consuming todo' (got.or (Accounts.returning t n (slot.visible i)))) := by
  obtain ⟨hm, hk⟩ := Heap.slot?_some hsl
  cases hr : Accounts.returning t n (slot.visible i) with
  | none =>
    rw [Option.or_none]
    have hn := any_cond_of_returning hr
    cases got with
    | none => exact Writes.update_none hp hsl hn
    | some v =>
      obtain ⟨hw, hc⟩ := hp
      refine ⟨hw.update_none hsl hn, hc.consumable, ?_⟩
      rw [Heap.read_update]
      exact hc.read
  | some w =>
    obtain ⟨hv, hcw⟩ := returning_eq_some hr
    have hkw : k = .invite w.id := by
      rw [← hk, ← hs.keyed slot hm _ (Slot.hasVersion_of_visible hv)]
      rfl
    cases got with
    | none =>
      rw [Option.none_or]
      have hcond : (consumeWithClient t n).cond (.invite w) = true := decide_eq_true hcw
      have hwr := Writes.update_some hp hsl hv hcond
      have hread : h.read k = some (.invite w) := by
        rw [Heap.read, hsl, Option.bind_some, ← visible_of_writes_nil hp hsl]
        exact hv
      refine ⟨?_, hcw, ?_⟩
      · rw [hkw] at hwr ⊢
        exact hwr
      · rw [Heap.read_update, ← hkw]
        exact hread
    | some v =>
      -- the token of an invite is its own: this is the row that was consumed
      exfalso
      obtain ⟨hw, hc⟩ := hp
      obtain ⟨a, ha, hac⟩ := Option.bind_eq_some_iff.mp hc.read
      have hat : IndexEntry.inviteToken n.inviteTokenHash ∈ (AccountRow.invite v).entries := by
        rw [← hc.consumable.2.1]
        exact List.mem_cons_self
      have hwt : IndexEntry.inviteToken n.inviteTokenHash ∈ (AccountRow.invite w).entries := by
        rw [← hcw.2.1]
        exact List.mem_cons_self
      obtain rfl := hs.unique a (Heap.slot?_some ha).1 slot hm _ _ _ (Or.inl hac)
        (Slot.hasVersion_of_visible hv) hat hwt
      have hwk := hw (.invite v.id)
      rw [Heap.written, ha, inviteRows, lookup_cons_ite, if_pos rfl, Option.bind_some, Slot.written_eq_some] at hwk
      have hvis : a.visible i = some (.invite (v.consume n.now)) := by
        rw [Slot.visible, hwk]
        exact if_pos rfl
      rw [hvis] at hv
      obtain rfl := AccountRow.invite.inj (Option.some.inj hv)
      cases hcw.2.2.2.1

theorem read_none_of_fresh (hf : Fresh k h) : h.read k = none := by
  rw [Heap.read, Heap.slot?_eq_none hf]
  rfl

theorem Claims.insert {row : AccountRow} (hc : Claims h t n v) (hf : Fresh k h) :
    Claims (h.insert i k row) t n v := by
  refine ⟨hc.consumable, ?_⟩
  rw [Heap.read_insert hf]
  exact hc.read

theorem ProvisionSound.insertUser (hs : Sound h) (hp : ProvisionSound h i t n (.consumed v))
    (hf : Fresh (.user u) h) :
    ProvisionSound (h.insert i (.user u) (.user (provisionedUser t n.email u))) i t n (.userInserted v u) := by
  obtain ⟨hw, hc⟩ := hp
  refine ⟨hw.insert hf, hc.insert hf, ?_, ?_⟩
  · rw [Heap.read_insert hf]
    exact read_none_of_fresh hf
  · exact unlinked_insert (hs.unlinked_of_fresh hf) fun d hd => by cases hd

theorem ProvisionSound.insertMembership (hp : ProvisionSound h i t n (.userInserted v u))
    (hf : Fresh (.membership t u) h) :
    ProvisionSound (h.insert i (.membership t u) (.membership ⟨t, u, translateRole v.role⟩)) i t n
      (.memberInserted v u) := by
  obtain ⟨hw, hc, hu, hl⟩ := hp
  refine ⟨hw.insert hf, hc.insert hf, ?_, ?_, ?_⟩
  · rw [Heap.read_insert hf]
    exact hu
  · rw [Heap.read_insert hf]
    exact read_none_of_fresh hf
  · exact unlinked_insert hl fun d hd => by cases hd

theorem ProvisionSound.insertIdentity {d : Uuid} (hp : ProvisionSound h i t n (.memberInserted v u))
    (hf : Fresh (.identity d) h) :
    ProvisionSound (h.insert i (.identity d) (.identity ((n.link u).row t d))) i t n (.linked v u d) := by
  obtain ⟨hw, hc, hu, hm, -⟩ := hp
  refine ⟨hw.insert hf, hc.insert hf, ?_, ?_, ?_⟩
  · rw [Heap.read_insert hf]
    exact hu
  · rw [Heap.read_insert hf]
    exact hm
  · rw [Heap.read_insert hf]
    exact read_none_of_fresh hf

theorem ProvisionSound.relink (hp : ProvisionSound h i t n (.relinking v u)) :
    ProvisionSound h i t n
      (Accounts.afterRelink v u (findByProviderSub (Slot.visible i) t .google n.providerSub h)) := by
  cases hf : findByProviderSub (Slot.visible i) t .google n.providerSub h with
  | none => trivial
  | some d =>
    obtain ⟨⟨s, hs, hv⟩, -⟩ := findByProviderSub_eq_some hf
    have hne : d.userId ≠ u := hp.2.2.2.2 s hs d (Slot.hasVersion_of_visible hv)
    rw [Accounts.afterRelink, if_pos hne]
    trivial

theorem lookup_provisionRows {d : Uuid} :
    (provisionRows t n v u d).lookup (.identity d) = some (.identity ((n.link u).row t d)) ∧
      (provisionRows t n v u d).lookup (.invite v.id) = some (.invite (v.consume n.now)) := by
  simp only [provisionRows, memberRows, userRows, inviteRows, lookup_cons_ite]
  exact ⟨rfl, rfl⟩

theorem ProvisionSound.commit {d : Uuid} (hp : ProvisionSound h i t n (.linked v u d)) :
    ProvisionSound (h.commit i) i t n (.provisioned v.id u) := by
  obtain ⟨hw, -⟩ := hp
  refine ⟨⟨v.consume n.now, ?_, rfl⟩, d, (n.link u).row t d, ?_, rfl, rfl, rfl, rfl⟩
  · rw [hw.commit, lookup_provisionRows.2]
    rfl
  · rw [hw.commit, lookup_provisionRows.1]
    rfl

theorem LinkSound.relink (hs : Sound h) {n : NewOAuthIdentity} (hp : LinkSound h i t n .relinking) :
    LinkSound h i t n (Accounts.afterLinkRelink (findByProviderSub (Slot.visible i) t n.provider n.providerSub h)) := by
  cases hf : findByProviderSub (Slot.visible i) t n.provider n.providerSub h with
  | none => trivial
  | some d =>
    obtain ⟨⟨s, hm, hv⟩, ht, hpr, hsub⟩ := findByProviderSub_eq_some hf
    have hsl := Heap.slot?_of_mem hs.keys hm
    refine Or.inr ⟨d.id, d, ?_, ht, hpr, hsub, rfl⟩
    have hk : s.key = .identity d.id := (hs.keyed s hm _ (Slot.hasVersion_of_visible hv)).symm
    rw [← hk, Heap.read, hsl, Option.bind_some, ← visible_of_writes_nil hp hsl]
    exact hv

theorem LinkSound.commit (hs : Sound h) {n : NewOAuthIdentity} {ref : OAuthIdentityRef}
    (hp : LinkSound h i t n (.linked ref)) : LinkSound (h.commit i) i t n (.returned ref) := by
  rcases hp with ⟨hw, hu⟩ | hl
  · refine ⟨ref.id, n.row t ref.id, ?_, rfl, rfl, rfl, hu.symm⟩
    rw [Heap.read_commit, hw]
    rfl
  · exact hl.read_mono fun k r hr => hs.read_commit hr

end Own

/-! ## Steps -/

namespace Accounts

/-- What a call that returns a user has done to the tables. -/
def Provisions (t : Uuid) (n : InviteProvisionInput) (inviteId userId : Uuid)
    (before after : AccountKey → Option AccountRow) : Prop :=
  ∃ v identityId, v.id = inviteId ∧ before (.invite inviteId) = some (.invite v) ∧ v.consumable t n ∧
    before (.user userId) = none ∧ before (.membership t userId) = none ∧ before (.identity identityId) = none ∧
    ∀ k, after k = ((provisionRows t n v userId identityId).lookup k).or (before k)

inductive Effect (s t : Accounts) (i : Nat) (x : AccountTx) : Prop where
  | quiet : (∀ k, t.table k = s.table k) → (∀ a n k u, x ≠ .provision a n (.provisioned k u)) → Effect s t i x
  | provisions {a : Uuid} {n : InviteProvisionInput} {v : Invite} {u d : Uuid} :
    s.txs i = some (.provision a n (.linked v u d)) → x = .provision a n (.provisioned v.id u) →
    Provisions a n v.id u s.table t.table → Effect s t i x
  | other : (∀ a n ph, s.txs i ≠ some (.provision a n ph)) → (∀ a n ph, x ≠ .provision a n ph) → Effect s t i x

structure Moves (s t : Accounts) (i : Nat) (x : AccountTx) : Prop where
  txs : t.txs = Function.update s.txs i (some x)
  frame : Frame i s.heap t.heap
  sound : Sound t.heap
  tx : TxSound t.heap i (some x)
  effect : Effect s t i x

structure Inv (s : Accounts) : Prop where
  heap : Sound s.heap
  txs : ∀ i, TxSound s.heap i (s.txs i)
  once : ∀ i j a a' n n' k u u', s.txs i = some (.provision a n (.provisioned k u)) →
    s.txs j = some (.provision a' n' (.provisioned k u')) → i = j

variable {s t : Accounts} {i : Nat} {x : AccountTx} {k : AccountKey} {h : AccountHeap}

theorem Inv.tx (h : s.Inv) (hi : s.txs i = some x) : TxSound s.heap i (some x) := by
  rw [← hi]
  exact h.txs i

theorem Inv.stays (h : s.Inv) (hx : TxSound s.heap i (some x))
    (hn : ∀ a n k u, x ≠ .provision a n (.provisioned k u)) : Moves s (s.setTx i x) i x :=
  ⟨rfl, frame_refl, h.heap, hx, .quiet (fun _ => rfl) hn⟩

theorem Inv.inserts (h : s.Inv) {row : AccountRow} (hk : row.key = k) (hf : Fresh k s.heap)
    (ha : Admits row s.heap) (hr : Refers i s.heap row) (hx : TxSound (s.heap.insert i k row) i (some x))
    (hn : ∀ a n k u, x ≠ .provision a n (.provisioned k u)) :
    Moves s ((s.setHeap (s.heap.insert i k row)).setTx i x) i x :=
  ⟨rfl, frame_insert h.heap hf hr, h.heap.insert hk hf ha hr, hx, .quiet (fun _ => Heap.read_insert hf) hn⟩

theorem Inv.updates (h : s.Inv) {u : RowUpdate} (hu : u.Lawful) (hf : s.heap.Free i k)
    (hx : TxSound (s.heap.update i k (fun r => u.cond r = true) u.set) i (some x))
    (hn : ∀ a n k u, x ≠ .provision a n (.provisioned k u)) :
    Moves s ((s.setHeap (s.heap.update i k (fun r => u.cond r = true) u.set)).setTx i x) i x :=
  ⟨rfl, frame_update hu hf, h.heap.update hu hf, hx, .quiet (fun _ => Heap.read_update) hn⟩

theorem Inv.aborts (h : s.Inv) (hx : TxSound (s.heap.abort i) i (some x))
    (hn : ∀ a n k u, x ≠ .provision a n (.provisioned k u)) :
    Moves s ((s.setHeap (s.heap.abort i)).setTx i x) i x :=
  ⟨rfl, frame_abort, h.heap.abort, hx, .quiet (fun _ => Heap.read_abort) hn⟩

theorem Inv.commits (h : s.Inv) (hx : TxSound (s.heap.commit i) i (some x))
    (he : Effect s ((s.setHeap (s.heap.commit i)).setTx i x) i x) :
    Moves s ((s.setHeap (s.heap.commit i)).setTx i x) i x :=
  ⟨rfl, frame_commit h.heap, h.heap.commit, hx, he⟩

theorem Inv.provisionCommits (h : s.Inv) {a : Uuid} {n : InviteProvisionInput} {v : Invite} {u d : Uuid}
    (hi : s.txs i = some (.provision a n (.linked v u d))) :
    Moves s ((s.setHeap (s.heap.commit i)).setTx i (.provision a n (.provisioned v.id u))) i
      (.provision a n (.provisioned v.id u)) := by
  have hx : ProvisionSound s.heap i a n (.linked v u d) := h.tx hi
  refine h.commits (ProvisionSound.commit hx) (.provisions hi rfl ?_)
  obtain ⟨hw, hc, hu, hm, hd⟩ := hx
  exact ⟨v, d, rfl, hc.read, hc.consumable, hu, hm, hd, fun k => hw.commit⟩

theorem step_moves (h : s.Inv) (hst : Step s t) : ∃ i x, Moves s t i x := by
  cases hst with
  | @begin i x hn hb =>
    refine ⟨i, x, h.stays ?_ ?_⟩
    · have hw : Writes s.heap i [] := by
        have hx := h.txs i
        rw [hn] at hx
        exact hx
      cases x with
      | provision a n ph =>
        obtain rfl : ph = .begun := of_decide_eq_true hb
        exact hw
      | link a n ph =>
        obtain rfl : ph = .begun := of_decide_eq_true hb
        exact hw
      | _ => trivial
    · intro a n k u he
      rw [he] at hb
      cases hb
  | @consumeStart i a n hi =>
    have hx : ProvisionSound s.heap i a n .begun := h.tx hi
    exact ⟨_, _, h.stays hx fun _ _ _ _ he => by cases he⟩
  | consumeRow hi hk hsl hf =>
    have hx : ProvisionSound s.heap _ _ _ (.consuming _ _) := h.tx hi
    exact ⟨_, _, h.updates (lawful_consume _ _) hf (hx.consumeRow h.heap hsl) fun _ _ _ _ he => by cases he⟩
  | @consumeNone i a n hi =>
    have hw : Writes s.heap i [] := h.tx hi
    have hx : TxSound (s.heap.commit i) i (some (.provision a n .refused)) := trivial
    refine ⟨_, _, h.commits hx (.quiet ?_ fun _ _ _ _ he => by cases he)⟩
    intro k
    exact hw.commit
  | consumeOne hi =>
    have hx : ProvisionSound s.heap _ _ _ (.consuming [] (some _)) := h.tx hi
    exact ⟨_, _, h.stays hx fun _ _ _ _ he => by cases he⟩
  | insertUser id hi hf ha =>
    have hx : ProvisionSound s.heap _ _ _ (.consumed _) := h.tx hi
    exact ⟨_, _, h.inserts rfl hf ha trivial (hx.insertUser h.heap hf) fun _ _ _ _ he => by cases he⟩
  | @insertUserClash i a n v id hi hc =>
    have hx : TxSound s.heap i (some (.provision a n .conflicted)) := trivial
    exact ⟨_, _, h.stays hx fun _ _ _ _ he => by cases he⟩
  | insertMembership hi hf ha hr =>
    have hx : ProvisionSound s.heap _ _ _ (.userInserted _ _) := h.tx hi
    exact ⟨_, _, h.inserts rfl hf ha hr (hx.insertMembership hf) fun _ _ _ _ he => by cases he⟩
  | @insertMembershipClash i a n v u hi hc =>
    have hx : TxSound s.heap i (some (.provision a n .conflicted)) := trivial
    exact ⟨_, _, h.stays hx fun _ _ _ _ he => by cases he⟩
  | insertIdentity id hi hf ha hr =>
    have hx : ProvisionSound s.heap _ _ _ (.memberInserted _ _) := h.tx hi
    exact ⟨_, _, h.inserts rfl hf ha hr (hx.insertIdentity hf) fun _ _ _ _ he => by cases he⟩
  | insertIdentityClash id hi hc =>
    have hx : ProvisionSound s.heap _ _ _ (.memberInserted _ _) := h.tx hi
    exact ⟨_, _, h.stays hx fun _ _ _ _ he => by cases he⟩
  | @relink i a n v u hi =>
    have hx : ProvisionSound s.heap i a n (.relinking v u) := h.tx hi
    refine ⟨_, _, h.stays hx.relink ?_⟩
    intro a' n' k' u' he
    have hph := (AccountTx.provision.inj he).2.2
    unfold afterRelink at hph
    split at hph
    · cases hph
    · split at hph <;> cases hph
  | provisionCommit hi => exact ⟨_, _, h.provisionCommits hi⟩
  | @provisionRollback i a n hi =>
    have hx : TxSound (s.heap.abort i) i (some (.provision a n .refused)) := trivial
    exact ⟨_, _, h.aborts hx fun _ _ _ _ he => by cases he⟩
  | @linkInsert i a n id hi hf ha hr =>
    have hx : LinkSound (s.heap.insert i (.identity id) (.identity (n.row a id))) i a n (.linked ⟨id, n.userId⟩) := by
      refine Or.inl ⟨?_, rfl⟩
      rw [Heap.written_insert hf]
      exact if_pos ⟨rfl, rfl⟩
    exact ⟨_, _, h.inserts rfl hf ha hr hx fun _ _ _ _ he => by cases he⟩
  | @linkClash i a n id hi hc =>
    have hx : LinkSound s.heap i a n .begun := h.tx hi
    exact ⟨_, _, h.stays hx fun _ _ _ _ he => by cases he⟩
  | @linkRelink i a n hi =>
    have hx : LinkSound s.heap i a n .relinking := h.tx hi
    exact ⟨_, _, h.stays (hx.relink h.heap) fun _ _ _ _ he => by cases he⟩
  | @linkCommit i a n ref hi =>
    have hx : LinkSound s.heap i a n (.linked ref) := h.tx hi
    refine ⟨_, _, h.commits (hx.commit h.heap) (.other ?_ fun _ _ _ he => by cases he)⟩
    intro a' n' ph he
    rw [hi] at he
    cases he
  | @linkRollback i a n hi =>
    have hx : TxSound (s.heap.abort i) i (some (.link a n .refused)) := trivial
    exact ⟨_, _, h.aborts hx fun _ _ _ _ he => by cases he⟩
  | @editStart i a e hi =>
    refine ⟨_, _, h.stays ?_ fun _ _ _ _ he => by cases he⟩
    trivial
  | @editRow i a e todo count k slot hi hk hsl hf =>
    refine ⟨_, _, h.updates (lawful_edit a e) hf ?_ fun _ _ _ _ he => by cases he⟩
    trivial
  | @editCommit i a e count hi =>
    have hx : TxSound (s.heap.commit i) i (some (.edit a e (.returned count))) := trivial
    refine ⟨_, _, h.commits hx (.other ?_ fun _ _ _ he => by cases he)⟩
    intro a' n' ph he
    rw [hi] at he
    cases he
  | @createInsert i a n id hi hf ha hr =>
    refine ⟨_, _, h.inserts rfl hf ha hr ?_ fun _ _ _ _ he => by cases he⟩
    trivial
  | @createCommit i a n v hi =>
    have hx : TxSound (s.heap.commit i) i (some (.create a n (.returned v))) := trivial
    refine ⟨_, _, h.commits hx (.other ?_ fun _ _ _ he => by cases he)⟩
    intro a' n' ph he
    rw [hi] at he
    cases he
  | @abort i x hi ho =>
    refine ⟨i, x.threw, h.aborts ?_ ?_⟩
    · cases x <;> trivial
    · intro a n k u he
      cases x <;> cases he

theorem Inv.moves (h : s.Inv) (hm : Moves s t i x) : t.Inv := by
  -- the invite of a call that returned is consumed, and so is not there to be consumed
  have hnew : ∀ a n k u, x = .provision a n (.provisioned k u) →
      ∀ j a' n' u', s.txs j ≠ some (.provision a' n' (.provisioned k u')) := by
    intro a n k u hx j a' n' u' hj
    cases hm.effect with
    | quiet _ hn => exact hn a n k u hx
    | other _ hn => exact hn a n _ hx
    | provisions hi hx' hp =>
      rw [hx] at hx'
      obtain ⟨-, -, hk⟩ := AccountTx.provision.inj hx'
      obtain ⟨rfl, -⟩ := ProvisionPhase.provisioned.inj hk
      obtain ⟨v', d, hid, hread, hc, -⟩ := hp
      obtain ⟨⟨w, hw, hws⟩, -⟩ : ProvisionSound s.heap j a' n' (.provisioned _ u') := h.tx hj
      obtain rfl := AccountRow.invite.inj (Option.some.inj (hread.symm.trans hw))
      rw [hc.2.2.2.1] at hws
      cases hws
  refine ⟨hm.sound, ?_, ?_⟩
  · intro j
    rw [hm.txs]
    by_cases e : j = i
    · rw [e, Function.update_self]
      exact hm.tx
    · rw [Function.update_of_ne e]
      exact (h.txs j).frame e hm.frame
  · intro j j' a a' n n' k u u' hj hj'
    rw [hm.txs] at hj hj'
    rcases Runs.update_cases hj with ⟨rfl, hx⟩ | ⟨-, hold⟩
    · rcases Runs.update_cases hj' with ⟨rfl, -⟩ | ⟨-, hold'⟩
      · rfl
      · exact absurd hold' (hnew a n k u hx.symm j' a' n' u')
    · rcases Runs.update_cases hj' with ⟨rfl, hx⟩ | ⟨-, hold'⟩
      · exact absurd hold (hnew a' n' k u' hx.symm j a n u)
      · exact h.once j j' a a' n n' k u u' hold hold'

theorem Inv.step (h : s.Inv) (hst : Step s t) : t.Inv := by
  obtain ⟨i, x, hm⟩ := step_moves h hst
  exact h.moves hm

theorem inv_init (h : system.init s) : s.Inv := by
  obtain ⟨hv, hp, ht⟩ := h
  have hver : ∀ {a : Slot AccountKey AccountRow} {r : AccountRow}, a ∈ s.heap → a.HasVersion r →
      a.committed = some r := by
    intro a r ha hr
    rcases hr with hr | ⟨j, hr⟩
    · exact hr
    · rw [hp a ha] at hr
      cases hr
  refine ⟨⟨hv.keys, hv.keyed, ?_, ?_, ?_⟩, ?_, ?_⟩
  · intro a ha r j r' _ hpd
    rw [hp a ha] at hpd
    cases hpd
  · intro a ha b hb r r' e hr hr' he he'
    exact hv.unique a ha b hb r r' (hver ha hr) (hver hb hr') (AccountRow.clashes_of_entry he he')
  · intro a ha d hd
    exact hv.references a ha d (hver ha hd)
  · intro i
    rw [ht]
    intro k
    rw [Heap.written]
    cases hs : s.heap.slot? k with
    | none => rfl
    | some slot =>
      rw [Option.bind_some, Slot.written, hp slot (Heap.slot?_some hs).1]
      rfl
  · intro i j a a' n n' k u u' hi
    rw [ht] at hi
    cases hi

theorem inv_reachable (hr : system.Reachable s) : s.Inv := by
  apply hr.invariant (P := Inv)
  · intro s hs
    exact inv_init hs
  · intro s t _ hs h
    exact hs.step h

/-! ## Runs -/

theorem provision_step (h : s.Inv) (hst : Step s t) {a : Uuid} {n : InviteProvisionInput} {ph ph' : ProvisionPhase}
    (hi : s.txs i = some (.provision a n ph)) (hi' : t.txs i = some (.provision a n ph')) (hne : ph' ≠ ph) :
    (∃ k u, ph' = .provisioned k u ∧ Provisions a n k u s.table t.table) ∨
      ((∀ k u, ph' ≠ .provisioned k u) ∧ ∀ k, t.table k = s.table k) := by
  obtain ⟨j, x, hm⟩ := step_moves h hst
  rw [hm.txs] at hi'
  rcases Runs.update_cases hi' with ⟨rfl, hx⟩ | ⟨-, hj⟩
  · cases hm.effect with
    | quiet hq hn =>
      refine Or.inr ⟨?_, hq⟩
      intro k u hp
      rw [hp] at hx
      exact hn a n k u hx.symm
    | provisions hl hx' hp =>
      obtain ⟨rfl, rfl, -⟩ := AccountTx.provision.inj (Option.some.inj (hi.symm.trans hl))
      obtain ⟨-, -, rfl⟩ := AccountTx.provision.inj (hx.trans hx')
      exact Or.inl ⟨_, _, rfl, hp⟩
    | other hn _ => exact absurd hi (hn a n ph)
  · obtain ⟨-, -, he⟩ := AccountTx.provision.inj (Option.some.inj (hi.symm.trans hj))
    exact absurd he.symm hne

theorem table_steps (h : s.Inv) (hrun : Relation.ReflTransGen Step s t) {r : AccountRow}
    (hr : s.table k = some r) (hfix : ∀ r', ¬ r.Evolves r') : t.table k = some r := by
  have hboth : t.Inv ∧ t.table k = some r := by
    induction hrun with
    | refl => exact ⟨h, hr⟩
    | tail _ hst ih =>
      obtain ⟨hI, hk⟩ := ih
      refine ⟨hI.step hst, ?_⟩
      obtain ⟨i, x, hm⟩ := step_moves hI hst
      obtain ⟨r', hr', rfl | he⟩ := hm.frame.grows k r hk
      · exact hr'
      · exact absurd he (hfix r')
  exact hboth.2

theorem not_evolves_of_settled {v : Invite} (hv : v.status ≠ .pending) (r : AccountRow) :
    ¬ (AccountRow.invite v).Evolves r := by
  intro he
  cases r with
  | invite w => exact hv he.1
  | _ => exact he.elim

/-- **All or nothing.** An invite is consumed by one call at most. A step in which a call comes to return a user is the
one that shows its invite consumed and its user, membership and link, and no other step of a call shows at all. An
invite that is consumed or revoked stays as it is. -/
theorem provisioning_all_or_nothing (hr : system.Reachable s) :
    (∀ i j a a' n n' k u u', s.txs i = some (.provision a n (.provisioned k u)) →
        s.txs j = some (.provision a' n' (.provisioned k u')) → i = j) ∧
      (∀ t, Step s t → ∀ i a n ph ph', s.txs i = some (.provision a n ph) → t.txs i = some (.provision a n ph') →
        ph' ≠ ph → (∃ k u, ph' = .provisioned k u ∧ Provisions a n k u s.table t.table) ∨
          ((∀ k u, ph' ≠ .provisioned k u) ∧ ∀ k, t.table k = s.table k)) ∧
      ∀ t, Relation.ReflTransGen Step s t → ∀ k v, s.table (.invite k) = some (.invite v) → v.status ≠ .pending →
        t.table (.invite k) = some (.invite v) := by
  have h := inv_reachable hr
  refine ⟨h.once, ?_, ?_⟩
  · intro t hst i a n ph ph' hi hi' hne
    exact provision_step h hst hi hi' hne
  · intro t hrun k v hk hv
    exact table_steps h hrun hk (not_evolves_of_settled hv)

/-! ## A run -/

def solo (h : AccountHeap) (x : AccountTx) : Accounts := ⟨h, fun i => if i = 0 then some x else none⟩

theorem solo_setTx {x y : AccountTx} : (solo h x).setTx 0 y = solo h y := by
  unfold setTx solo
  rw [Runs.update_lone fun i e => if_neg e]

theorem setTx_idle (h : AccountHeap) (x : AccountTx) : (⟨h, fun _ => none⟩ : Accounts).setTx 0 x = solo h x := by
  unfold setTx solo
  rw [Runs.update_lone fun _ _ => rfl]

theorem step_solo {h' : AccountHeap} {x y : AccountTx} (hst : Step (solo h x) ((solo h' x).setTx 0 y)) :
    Step (solo h x) (solo h' y) := by
  rw [solo_setTx] at hst
  exact hst

def sampleInvite : Invite :=
  { id := .rep 1
    tenantId := .rep 17
    email := bs "ada@acme.test"
    role := .admin
    tokenHash := bs "digest"
    status := .pending
    createdBy := none
    expiresAt := 100
    consumedAt := none }

def sampleInput : InviteProvisionInput :=
  { email := bs "ada@acme.test", inviteTokenHash := bs "digest", providerSub := bs "1001", now := 50 }

def sampleHeap : AccountHeap := [⟨.invite (.rep 1), some (.invite sampleInvite), none⟩]

def sampleClaimed : AccountHeap :=
  [⟨.invite (.rep 1), some (.invite sampleInvite), some (0, .invite (sampleInvite.consume 50))⟩]

def sampleUserRow : AccountRow := .user (provisionedUser (.rep 17) sampleInput.email (.rep 2))

def sampleMemberRow : AccountRow := .membership ⟨.rep 17, .rep 2, translateRole sampleInvite.role⟩

def sampleLinkRow : AccountRow := .identity ((sampleInput.link (.rep 2)).row (.rep 17) (.rep 3))

def sampleWithUser : AccountHeap := Heap.insert 0 (.user (.rep 2)) sampleUserRow sampleClaimed

def sampleWithMember : AccountHeap := Heap.insert 0 (.membership (.rep 17) (.rep 2)) sampleMemberRow sampleWithUser

def sampleWithLink : AccountHeap := Heap.insert 0 (.identity (.rep 3)) sampleLinkRow sampleWithMember

def sampleCall (ph : ProvisionPhase) : AccountTx := .provision (.rep 17) sampleInput ph

theorem sampleHeap_valid : Valid sampleHeap := by
  refine ⟨by decide, ?_, ?_, ?_⟩
  · intro s hs r hr
    obtain rfl := List.mem_singleton.mp hs
    rcases hr with hr | ⟨j, hr⟩
    · obtain rfl := Option.some.inj hr
      rfl
    · cases hr
  · intro a ha b hb r r' _ _ _
    rw [List.mem_singleton.mp ha, List.mem_singleton.mp hb]
  · intro s hs d hd
    rw [List.mem_singleton.mp hs] at hd
    cases hd

theorem admits_of_versions {row : AccountRow}
    (hc : ∀ s ∈ h, s.committed.all (fun r => !row.clashes r) ∧ s.pending.all (fun q => !row.clashes q.2)) :
    Admits row h := by
  intro s hs r hr
  obtain ⟨h1, h2⟩ := hc s hs
  rcases hr with hr | ⟨j, hr⟩
  · rw [hr] at h1
    simpa using h1
  · rw [hr] at h2
    simpa using h2

theorem sampleConsumed_run : Relation.ReflTransGen Step ⟨sampleHeap, fun _ => none⟩
    (solo sampleClaimed (sampleCall (.consumed sampleInvite))) := by
  have h1 : Step ⟨sampleHeap, fun _ => none⟩ (solo sampleHeap (sampleCall .begun)) := by
    have h : Step ⟨sampleHeap, fun _ => none⟩ ((⟨sampleHeap, fun _ => none⟩ : Accounts).setTx 0 (sampleCall .begun)) :=
      .begin rfl rfl
    rw [setTx_idle] at h
    exact h
  have h2 : Step (solo sampleHeap (sampleCall .begun))
      (solo sampleHeap (sampleCall (.consuming [.invite (.rep 1)] none))) := step_solo (.consumeStart rfl)
  have h3 : Step (solo sampleHeap (sampleCall (.consuming [.invite (.rep 1)] none)))
      (solo sampleClaimed (sampleCall (.consuming [] (some sampleInvite)))) := by
    have hf : sampleHeap.Free 0 (.invite (.rep 1)) := by
      intro s hs _ j r hp
      rw [List.mem_singleton.mp hs] at hp
      cases hp
    have h := Step.consumeRow (s := solo sampleHeap (sampleCall (.consuming [.invite (.rep 1)] none))) (i := 0) rfl
      List.mem_cons_self rfl hf
    exact step_solo h
  have h4 : Step (solo sampleClaimed (sampleCall (.consuming [] (some sampleInvite))))
      (solo sampleClaimed (sampleCall (.consumed sampleInvite))) := step_solo (.consumeOne rfl)
  exact .tail (.tail (.tail (.single h1) h2) h3) h4

def sampleLinked : Accounts := solo sampleWithLink (sampleCall (.linked sampleInvite (.rep 2) (.rep 3)))

theorem sampleLinked_reachable : system.Reachable sampleLinked := by
  have hfu : Fresh (.user (.rep 2)) sampleClaimed := by decide
  have hau : Admits sampleUserRow sampleClaimed := admits_of_versions (by decide)
  have h5 : Step (solo sampleClaimed (sampleCall (.consumed sampleInvite)))
      (solo sampleWithUser (sampleCall (.userInserted sampleInvite (.rep 2)))) :=
    step_solo (.insertUser (.rep 2) rfl hfu hau)
  have hfm : Fresh (.membership (.rep 17) (.rep 2)) sampleWithUser := by decide
  have ham : Admits sampleMemberRow sampleWithUser := admits_of_versions (by decide)
  have hrm : Refers 0 sampleWithUser sampleMemberRow :=
    ⟨_, List.mem_append_right _ List.mem_cons_self, _, rfl, rfl, rfl⟩
  have h6 : Step (solo sampleWithUser (sampleCall (.userInserted sampleInvite (.rep 2))))
      (solo sampleWithMember (sampleCall (.memberInserted sampleInvite (.rep 2)))) :=
    step_solo (.insertMembership rfl hfm ham hrm)
  have hfl : Fresh (.identity (.rep 3)) sampleWithMember := by decide
  have hal : Admits sampleLinkRow sampleWithMember := admits_of_versions (by decide)
  have hrl : Refers 0 sampleWithMember sampleLinkRow :=
    ⟨_, List.mem_append_left _ (List.mem_append_right _ List.mem_cons_self), _, rfl, rfl, rfl⟩
  have h7 : Step (solo sampleWithMember (sampleCall (.memberInserted sampleInvite (.rep 2)))) sampleLinked :=
    step_solo (.insertIdentity (.rep 3) rfl hfl hal hrl)
  have hi : system.init ⟨sampleHeap, fun _ => none⟩ := by
    refine ⟨sampleHeap_valid, ?_, rfl⟩
    intro s hs
    rw [List.mem_singleton.mp hs]
  exact (Runs.System.Reachable.init hi).steps (.tail (.tail (.tail sampleConsumed_run h5) h6) h7)

/-- The call of the sample commits, and the tables show it. -/
theorem sample_provisions : ∃ t, system.Reachable sampleLinked ∧ Step sampleLinked t ∧
    Provisions (.rep 17) sampleInput sampleInvite.id (.rep 2) sampleLinked.table t.table := by
  have hst : Step sampleLinked (solo (sampleWithLink.commit 0) (sampleCall (.provisioned sampleInvite.id (.rep 2)))) :=
    step_solo (.provisionCommit rfl)
  refine ⟨_, sampleLinked_reachable, hst, ?_⟩
  rcases (provisioning_all_or_nothing sampleLinked_reachable).2.1 _ hst 0 _ _ _ _ rfl rfl (by decide) with
    ⟨k, u, he, hp⟩ | ⟨hn, -⟩
  · obtain ⟨rfl, rfl⟩ := ProvisionPhase.provisioned.inj he
    exact hp
  · exact absurd rfl (hn _ _)

end Accounts

end Logalot
