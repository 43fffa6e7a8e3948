import Logalot.AccountRowsSound
import Logalot.CallbackAlone

/-!
# What a rejected callback leaves behind

The first link of an identity is committed before the account is checked.
-/

namespace Logalot

open Go Pg Mvcc AccountHeap

/-! ## Transactions and the committed rows -/

def SameRows (h h' : AccountHeap) : Prop := ∀ k, h'.read k = h.read k

variable {h : AccountHeap} {s : Slot AccountKey AccountRow} {t : Uuid}

theorem SameRows.trans {h' h'' : AccountHeap} (h1 : SameRows h h') (h2 : SameRows h' h'') : SameRows h h'' :=
  fun k => (h2 k).trans (h1 k)

theorem sameRows_abort (h : AccountHeap) : SameRows h (h.abort 0) := fun _ => Heap.read_abort

theorem not_violates {row : AccountRow} (hv : violates row h = false)
    (hs : s ∈ h) : s.key ≠ row.key ∧ ∀ r, s.visible 0 = some r → row.clashes r = false := by
  have hs := List.any_eq_false.mp hv s hs
  simp only [Bool.or_eq_true, decide_eq_true_eq, not_or] at hs
  refine ⟨hs.1, fun r hr => ?_⟩
  rw [hr] at hs
  simpa using hs.2

theorem sameRows_insert (row : AccountRow) (hv : violates row h = false) :
    SameRows h (h.insert 0 row.key row) :=
  fun _ => Heap.read_insert fun _ hs => (not_violates hv hs).1

theorem commit_of_idle (hi : ∀ s ∈ h, s.pending = none) : h.commit 0 = h := by
  unfold Heap.commit
  refine (List.map_congr_left fun s hs => ?_).trans (List.map_id h)
  unfold Slot.commit
  rw [hi s hs]
  rfl

theorem commit_insert (hi : ∀ s ∈ h, s.pending = none) (k : AccountKey) (row : AccountRow) :
    (h.insert 0 k row).commit 0 = h ++ [⟨k, some row, none⟩] := by
  unfold Heap.insert
  have happ : Heap.commit 0 (h ++ [⟨k, none, some (0, row)⟩]) = Heap.commit 0 h ++ [⟨k, some row, none⟩] :=
    List.map_append
  rw [happ, commit_of_idle hi]

section
variable (t : Uuid) (n : NewOAuthIdentity) (id : Uuid)

theorem sameRows_link (h : AccountHeap) : SameRows h (linkFirstWithClient t n id h).2 := by
  unfold linkFirstWithClient
  split
  · split
    · exact fun _ => rfl
    · exact fun _ => rfl
  · rename_i hv
    split
    · exact sameRows_insert (.identity (n.row t id)) (Bool.eq_false_of_not_eq_true hv)
    · exact fun _ => rfl

end

section
variable (t : Uuid) (n : InviteProvisionInput)

def consumeSlot : Slot AccountKey AccountRow → Slot AccountKey AccountRow :=
  Slot.update 0 (fun r => (consumeWithClient t n).cond r = true) (consumeWithClient t n).set

theorem consumeSlot_cases (s : Slot AccountKey AccountRow) :
    (consumeSlot t n s = s ∧ ∀ v, s.visible 0 = some (.invite v) → ¬ v.consumable t n) ∨
      ∃ v, s.visible 0 = some (.invite v) ∧ v.consumable t n ∧
        consumeSlot t n s = { s with pending := some (0, .invite (v.consume n.now)) } := by
  rcases s.update_cases (i := 0) (p := fun r => (consumeWithClient t n).cond r = true)
    (f := (consumeWithClient t n).set) with ⟨he, hn⟩ | ⟨r, hv, hc, he⟩
  · exact .inl ⟨he, fun v hv hc => hn _ hv (decide_eq_true hc)⟩
  · cases r with
    | invite v => exact .inr ⟨v, hv, of_decide_eq_true hc, he⟩
    | _ => cases hc

theorem key_consumeSlot (s : Slot AccountKey AccountRow) : (consumeSlot t n s).key = s.key := by
  rcases consumeSlot_cases t n s with ⟨he, -⟩ | ⟨v, -, -, he⟩
  · rw [he]
  · rw [he]

theorem committed_consumeSlot (s : Slot AccountKey AccountRow) : (consumeSlot t n s).committed = s.committed := by
  rcases consumeSlot_cases t n s with ⟨he, -⟩ | ⟨v, -, -, he⟩
  · rw [he]
  · rw [he]

theorem sameRows_consume (h : AccountHeap) : SameRows h (consumeInvite t n h).2 := by
  intro k
  show ((Heap.slot? k (h.map (consumeSlot t n))).bind Slot.committed) = (h.slot? k).bind Slot.committed
  rw [Heap.slot?_map (key_consumeSlot t n)]
  cases h.slot? k with
  | none => rfl
  | some s => exact committed_consumeSlot t n s

theorem consumeInvite_none {h h' : AccountHeap} (hc : consumeInvite t n h = (none, h')) : h' = h := by
  obtain ⟨hn, rfl⟩ := Prod.mk.inj hc
  refine (List.map_congr_left fun s hs => ?_).trans (List.map_id h)
  rcases consumeSlot_cases t n s with ⟨he, -⟩ | ⟨v, hv, hcons, -⟩
  · exact he
  · have hret := List.findSome?_eq_none_iff.mp hn s hs
    rw [hv] at hret
    simp [Accounts.returning, hcons] at hret

theorem sameRows_insertUser (email : Bytes) (role : MembershipRole) (id : Uuid) (h : AccountHeap) :
    SameRows h (insertUserWithMembership t email role id h).2 := by
  unfold insertUserWithMembership
  split
  · exact fun _ => rfl
  · rename_i hu
    have huser := sameRows_insert (.user (provisionedUser t email id)) (Bool.eq_false_of_not_eq_true hu)
    dsimp only
    split
    · exact huser
    · rename_i hm
      exact huser.trans (sameRows_insert (.membership ⟨t, id, role⟩) (Bool.eq_false_of_not_eq_true hm))

theorem sameRows_linkProvisioned (userId identityId : Uuid) (h : AccountHeap) :
    SameRows h (linkProvisioned t n userId identityId h).2 := by
  unfold linkProvisioned
  have h1 := sameRows_link t (n.link userId) identityId h
  generalize linkFirstWithClient t (n.link userId) identityId h = l at h1
  obtain ⟨link | _ | _, h'⟩ := l
  · dsimp only
    split
    · exact h1
    · exact h1
  · exact h1
  · exact h1

theorem sameRows_provisionInvited (v : Invite) (userId identityId : Uuid) (h : AccountHeap) :
    SameRows h (provisionInvited t n v userId identityId h).2 := by
  unfold provisionInvited
  have h1 := sameRows_insertUser t n.email (translateRole v.role) userId h
  generalize insertUserWithMembership t n.email (translateRole v.role) userId h = i at h1
  obtain ⟨_ | _ | _, h'⟩ := i
  · exact h1.trans (sameRows_linkProvisioned t n userId identityId h')
  · exact h1
  · exact h1

theorem sameRows_provision (userId identityId : Uuid) (h : AccountHeap) :
    SameRows h (provisionWithClient t n userId identityId h).2 := by
  unfold provisionWithClient
  have h1 := sameRows_consume t n h
  generalize consumeInvite t n h = c at h1
  obtain ⟨_ | v, h'⟩ := c
  · exact h1
  · exact h1.trans (sameRows_provisionInvited t n v userId identityId h')

end

/-! ## Accounts -/

def ActiveAccount (t u : Uuid) (h : AccountHeap) : Prop :=
  ∃ record role, findCredentialsById t u h = some record ∧ record.status = userActive ∧ record.role = some role

theorem activeAccount_iff {u : Uuid} {record : AuthRecord}
    (hf : findCredentialsById t u h = some record) :
    ActiveAccount t u h ↔ record.status = userActive ∧ record.role ≠ none := by
  constructor
  · rintro ⟨record', role, hf', hs, hrole⟩
    obtain rfl : record = record' := Option.some.inj (hf.symm.trans hf')
    exact ⟨hs, fun hn => by rw [hrole] at hn; cases hn⟩
  · rintro ⟨hs, hrole⟩
    obtain ⟨role, hrole⟩ := Option.ne_none_iff_exists'.mp hrole
    exact ⟨record, role, hf, hs, hrole⟩

theorem membershipRole_isSome {u : Uuid} {m : Membership}
    (hs : s ∈ h) (hc : s.committed = some (.membership m)) (ht : m.tenantId = t) (hu : m.userId = u) :
    ∃ role, membershipRole t u h = some role := by
  refine Option.isSome_iff_exists.mp (List.findSome?_isSome_iff.mpr ⟨s, hs, ?_⟩)
  rw [hc]
  simp [ht, hu]

def User.record (t : Uuid) (h : AccountHeap) (u : User) : AuthRecord :=
  { id := u.id
    passwordHash := u.passwordHash
    status := u.status
    role := if u.isPlatformOperator then some .platformOperator else (membershipRole t u.id h).map MembershipRole.role }

theorem findCredentials_eq_some {p : User → Bool} {record : AuthRecord}
    (hf : findCredentials t p h = some record) :
    ∃ s ∈ h, ∃ u, s.committed = some (.user u) ∧ u.tenantId = t ∧ p u = true ∧ record = u.record t h := by
  obtain ⟨s, hs, hrow⟩ := List.exists_of_findSome?_eq_some hf
  split at hrow
  · rename_i u hc
    split at hrow
    · rename_i hcond
      exact ⟨s, hs, u, hc, hcond.1, hcond.2, (Option.some.inj hrow).symm⟩
    · cases hrow
  · cases hrow

theorem findCredentials_isSome {p : User → Bool} {u : User}
    (hs : s ∈ h) (hc : s.committed = some (.user u)) (ht : u.tenantId = t) (hp : p u = true) :
    ∃ record, findCredentials t p h = some record := by
  refine Option.isSome_iff_exists.mp (List.findSome?_isSome_iff.mpr ⟨s, hs, ?_⟩)
  rw [hc]
  simp [ht, hp]

theorem activeAccount_of_rows {u : Uuid} {s' : Slot AccountKey AccountRow} {w : User}
    {m : Membership} (hs : s ∈ h) (hc : s.committed = some (.user w)) (ht : w.tenantId = t) (hu : w.id = u)
    (hs' : s' ∈ h) (hm : s'.committed = some (.membership m)) (ht' : m.tenantId = t) (hu' : m.userId = u)
    (hall : ∀ s ∈ h, ∀ w, s.committed = some (.user w) → w.id = u → w.status = userActive) : ActiveAccount t u h := by
  obtain ⟨role, hrole⟩ := membershipRole_isSome hs' hm ht' hu'
  obtain ⟨record, hrec⟩ := findCredentials_isSome (p := fun w => w.id = u) hs hc ht (decide_eq_true hu)
  obtain ⟨s₁, hs₁, w₁, hc₁, -, hid, rfl⟩ := findCredentials_eq_some hrec
  have hid : w₁.id = u := of_decide_eq_true hid
  have hstatus := hall s₁ hs₁ w₁ hc₁ hid
  by_cases hop : w₁.isPlatformOperator = true
  · exact ⟨_, .platformOperator, hrec, hstatus, if_pos hop⟩
  · refine ⟨_, role.role, hrec, hstatus, (if_neg hop).trans ?_⟩
    rw [hid, hrole]
    rfl

theorem findCredentialsById_eq {p : User → Bool} (hv : Accounts.Valid h) {record : AuthRecord}
    (hf : findCredentials t p h = some record) : findCredentialsById t record.id h = some record := by
  obtain ⟨s, hs, u, hc, ht, -, rfl⟩ := findCredentials_eq_some hf
  obtain ⟨record', hf'⟩ := findCredentials_isSome (p := fun w => w.id = u.id) hs hc ht (decide_eq_true rfl)
  obtain ⟨s', hs', u', hc', -, hid, rfl⟩ := findCredentials_eq_some hf'
  have hk : s.key = s'.key := by
    rw [← hv.keyed s hs _ (.inl hc), ← hv.keyed s' hs' _ (.inl hc')]
    exact congrArg AccountKey.user (of_decide_eq_true hid).symm
  obtain rfl := List.inj_on_of_nodup_map hv.keys hs hs' hk
  obtain rfl : u = u' := by
    rw [hc] at hc'
    exact AccountRow.user.inj (Option.some.inj hc')
  exact hf'

theorem findCredentialsById_append (t u : Uuid) (h : AccountHeap) (k : AccountKey) (d : OAuthIdentity) :
    findCredentialsById t u (h ++ [⟨k, some (.identity d), none⟩]) = findCredentialsById t u h := by
  have hrole : ∀ w, membershipRole t w (h ++ [⟨k, some (.identity d), none⟩]) = membershipRole t w h := by
    intro w
    unfold membershipRole
    rw [List.findSome?_append]
    exact Option.or_none
  unfold findCredentialsById findCredentials
  rw [List.findSome?_append]
  simp only [hrole]
  exact Option.or_none

/-! ## The two that write -/

def newSlot (row : AccountRow) : Slot AccountKey AccountRow := ⟨row.key, none, some (0, row)⟩

theorem insertUser_ok {email : Bytes} {role : MembershipRole} {id : Uuid} {h' : AccountHeap}
    (hins : insertUserWithMembership t email role id h = (.ok (), h')) :
    violates (.user (provisionedUser t email id)) h = false ∧
      h' = h ++ [newSlot (.user (provisionedUser t email id))] ++ [newSlot (.membership ⟨t, id, role⟩)] := by
  unfold insertUserWithMembership at hins
  split at hins
  · cases hins
  · rename_i hu
    dsimp only at hins
    split at hins
    · cases hins
    · exact ⟨Bool.eq_false_of_not_eq_true hu, (Prod.mk.inj hins).2.symm⟩

theorem link_ok {n : NewOAuthIdentity} {id : Uuid} {h' : AccountHeap} {ref : OAuthIdentityRef}
    (hlink : linkFirstWithClient t n id h = (.ok ref, h')) :
    h' = h ∨ h' = h ++ [newSlot (.identity (n.row t id))] := by
  unfold linkFirstWithClient at hlink
  split at hlink
  · split at hlink
    · exact .inl (Prod.mk.inj hlink).2.symm
    · cases hlink
  · split at hlink
    · exact .inr (Prod.mk.inj hlink).2.symm
    · cases hlink

theorem provisionWithClient_ok {n : InviteProvisionInput} {userId identityId : Uuid} {h' : AccountHeap}
    {r : Option Uuid} (hp : provisionWithClient t n userId identityId h = (.ok r, h')) :
    (r = none ∧ h' = h) ∨ (r = some userId ∧ ∃ role, ∃ rest : List AccountRow,
      violates (.user (provisionedUser t n.email userId)) (h.map (consumeSlot t n)) = false ∧
      h' = h.map (consumeSlot t n) ++ [newSlot (.user (provisionedUser t n.email userId))] ++
        [newSlot (.membership ⟨t, userId, role⟩)] ++ rest.map newSlot ∧ ∀ row ∈ rest, ∀ w, row ≠ .user w) := by
  unfold provisionWithClient at hp
  split at hp
  · rename_i hc
    obtain ⟨hr, rfl⟩ := Prod.mk.inj hp
    exact .inl ⟨(TxResult.ok.inj hr).symm, consumeInvite_none t n hc⟩
  · rename_i v h₁ hc
    obtain ⟨-, rfl⟩ := Prod.mk.inj hc
    unfold provisionInvited at hp
    split at hp
    · cases hp
    · cases hp
    · rename_i h₂ hins
      obtain ⟨hviol, rfl⟩ := insertUser_ok hins
      unfold linkProvisioned at hp
      split at hp
      · cases hp
      · cases hp
      · rename_i link h₃ hlink
        split at hp
        · cases hp
        · obtain ⟨hr, rfl⟩ := Prod.mk.inj hp
          refine .inr ⟨(TxResult.ok.inj hr).symm, translateRole v.role, ?_⟩
          rcases link_ok hlink with rfl | rfl
          · exact ⟨[], hviol, (List.append_nil _).symm, fun _ hm => absurd hm List.not_mem_nil⟩
          · refine ⟨[.identity ((n.link userId).row t identityId)], hviol, rfl, fun row hm w => ?_⟩
            rw [List.mem_singleton.mp hm]
            exact AccountRow.noConfusion

section
variable {t : Uuid} {h : AccountHeap} (hi : ∀ s ∈ h, s.pending = none)
include hi

theorem visible_of_idle {s : Slot AccountKey AccountRow} (hs : s ∈ h) : s.visible 0 = s.committed := by
  unfold Slot.visible
  rw [hi s hs]

theorem linkFirst_cases {n : NewOAuthIdentity} (id : Uuid) {p : User → Bool} {record : AuthRecord}
    (hfind : findByProviderSub Slot.committed t n.provider n.providerSub h = none)
    (hf : findCredentials t p h = some record) (hn : n.userId = record.id) :
    (violates (.identity (n.row t id)) h = true ∧ linkFirst t n id h = (.conflict, h.abort 0)) ∨
      (violates (.identity (n.row t id)) h = false ∧
        linkFirst t n id h = (.ok ⟨id, n.userId⟩, h ++ [⟨.identity id, some (.identity (n.row t id)), none⟩])) := by
  unfold linkFirst linkFirstWithClient
  cases hviol : violates (.identity (n.row t id)) h with
  | true =>
    have hvis : findByProviderSub (Slot.visible 0) t n.provider n.providerSub h = none := by
      unfold findByProviderSub at hfind ⊢
      rw [List.findSome?_eq_none_iff] at hfind ⊢
      intro s hs
      rw [visible_of_idle hi hs]
      exact hfind s hs
    rw [if_pos rfl, hvis]
    exact .inl ⟨rfl, rfl⟩
  | false =>
    have huser : hasUser t n.userId h = true := by
      obtain ⟨s, hs, u, hc, ht, -, rfl⟩ := findCredentials_eq_some hf
      refine List.any_eq_true.mpr ⟨s, hs, ?_⟩
      rw [visible_of_idle hi hs, hc]
      exact decide_eq_true ⟨ht, hn.symm⟩
    rw [if_neg (by decide), if_pos huser]
    exact .inr ⟨rfl, congrArg _ (commit_insert hi _ _)⟩

theorem committed_consumed {n : InviteProvisionInput} {s : Slot AccountKey AccountRow} (hs : s ∈ h) {w : User}
    (hw : ((consumeSlot t n s).commit 0).committed = some (.user w)) : s.committed = some (.user w) := by
  rcases consumeSlot_cases t n s with ⟨he, -⟩ | ⟨v, -, -, he⟩
  · rw [he, Slot.commit, hi s hs] at hw
    exact hw
  · rw [he] at hw
    cases hw

theorem active_of_inserted (hv : Accounts.Valid h) {n : InviteProvisionInput} {role : MembershipRole} {userId : Uuid}
    (hviol : violates (.user (provisionedUser t n.email userId)) (h.map (consumeSlot t n)) = false)
    {rest : List AccountRow} (hrest : ∀ row ∈ rest, ∀ w, row ≠ .user w) :
    ActiveAccount t userId
      (Heap.commit 0 (h.map (consumeSlot t n) ++ [newSlot (.user (provisionedUser t n.email userId))] ++
        [newSlot (.membership ⟨t, userId, role⟩)] ++ rest.map newSlot)) := by
  have hcommit : ∀ row, newSlot row ∈ _ → (⟨row.key, some row, none⟩ : Slot AccountKey AccountRow) ∈
      Heap.commit 0 (h.map (consumeSlot t n) ++ [newSlot (.user (provisionedUser t n.email userId))] ++
        [newSlot (.membership ⟨t, userId, role⟩)] ++ rest.map newSlot) :=
    fun _ hrow => List.mem_map_of_mem hrow
  have huser := hcommit (.user (provisionedUser t n.email userId))
    (List.mem_append_left _ (List.mem_append_left _ (List.mem_append_right _ List.mem_cons_self)))
  have hmember := hcommit (.membership ⟨t, userId, role⟩)
    (List.mem_append_left _ (List.mem_append_right _ List.mem_cons_self))
  refine activeAccount_of_rows huser rfl rfl rfl hmember rfl rfl rfl ?_
  intro s' hs' w hw hid
  obtain ⟨s, hs, rfl⟩ := List.mem_map.mp hs'
  simp only [List.mem_append, List.mem_singleton, List.mem_map] at hs
  rcases hs with ((⟨s₀, hs₀, rfl⟩ | rfl) | rfl) | ⟨row, hrow, rfl⟩
  · -- another user has another id
    have hk := hv.keyed s₀ hs₀ _ (.inl (committed_consumed hi hs₀ hw))
    have hne := (not_violates hviol (List.mem_map_of_mem hs₀)).1
    rw [key_consumeSlot, ← hk] at hne
    exact absurd (congrArg AccountKey.user hid) hne
  · obtain rfl := AccountRow.user.inj (Option.some.inj hw)
    rfl
  · cases hw
  · exact absurd (Option.some.inj hw) (hrest row hrow w)

theorem provision_ok (hv : Accounts.Valid h) {n : InviteProvisionInput} {userId identityId : Uuid} {r : Option Uuid}
    {h' : AccountHeap} (hp : provisionFromInvite t n userId identityId h = (.ok r, h')) :
    (r = none ∧ SameRows h h') ∨ (r = some userId ∧ ActiveAccount t userId h') := by
  have hsame := sameRows_provision t n userId identityId h
  unfold provisionFromInvite at hp
  cases hb : provisionWithClient t n userId identityId h with
  | mk res hbody =>
    rw [hb] at hp hsame
    cases res with
    | ok r' =>
      obtain ⟨hr, rfl⟩ := Prod.mk.inj hp
      obtain rfl := TxResult.ok.inj hr
      rcases provisionWithClient_ok hb with ⟨rfl, rfl⟩ | ⟨rfl, role, rest, hviol, rfl, hrest⟩
      · rw [commit_of_idle hi]
        exact .inl ⟨rfl, fun _ => rfl⟩
      · exact .inr ⟨rfl, active_of_inserted hi hv hviol hrest⟩
    | conflict =>
      obtain ⟨hr, rfl⟩ := Prod.mk.inj hp
      obtain rfl := TxResult.ok.inj hr
      exact .inl ⟨rfl, hsame.trans (sameRows_abort _)⟩
    | threw => cases hp

end

/-! ## The call -/

theorem openSession_cases (deps : OidcDeps) (x : CallbackInput) (f : OAuthFlow) (userId : Uuid) (existing : Option Uuid)
    (db : CallbackDb) :
    (¬ ActiveAccount f.tenantId userId db.accounts ∧
        openSession deps x f userId existing db = (.unauthorized inactiveMessage, db)) ∨
      (ActiveAccount f.tenantId userId db.accounts ∧
        ∃ tokens, (openSession deps x f userId existing db).1 = .session tokens f.returnTo) := by
  unfold openSession
  cases hfind : findCredentialsById f.tenantId userId db.accounts with
  | none =>
    refine .inl ⟨fun ⟨record, _, hr, _⟩ => ?_, rfl⟩
    rw [hfind] at hr
    cases hr
  | some record =>
    have hactive := activeAccount_iff hfind
    dsimp only
    by_cases hs : record.status = userActive
    · rw [if_neg (not_not.mpr hs)]
      cases hrole : record.role with
      | none => exact .inl ⟨fun ha => (hactive.mp ha).2 hrole, rfl⟩
      | some role => exact .inr ⟨⟨record, role, hfind, hs, hrole⟩, _, rfl⟩
    · rw [if_pos hs]
      exact .inl ⟨fun ha => hs (hactive.mp ha).1, rfl⟩

def CallbackDb.Same (db db' : CallbackDb) : Prop := SameRows db.accounts db'.accounts ∧ db'.tokens = db.tokens

def LinksAccount (deps : OidcDeps) (x : CallbackInput) (f : OAuthFlow) (claims : GoogleClaims) (db : CallbackDb) :
    Prop :=
  ∃ record, findCredentialsByEmail f.tenantId (deps.normalizeEmail claims.email) db.accounts = some record ∧
    (record.status ≠ userActive ∨ record.role = none) ∧
    violates (.identity ((Callbacks.linkInput deps claims record.id).row f.tenantId x.identityId)) db.accounts = false

/-- The call gets to the first link of an identity that no user has, and it is such a link. -/
def LinksInactive (deps : OidcDeps) (x : CallbackInput) (db : CallbackDb) : Prop :=
  ∃ f idToken claims, x.flow = .ok f ∧ x.exchanged = .ok idToken ∧ x.verified = .ok claims ∧
    findByProviderSub Slot.committed f.tenantId .google claims.sub db.accounts = none ∧ LinksAccount deps x f claims db

theorem linksInactive_iff {deps : OidcDeps} {x : CallbackInput} {db : CallbackDb} {f : OAuthFlow} {idToken : Bytes}
    {claims : GoogleClaims} (hf : x.flow = .ok f) (he : x.exchanged = .ok idToken) (hv : x.verified = .ok claims) :
    LinksInactive deps x db ↔
      findByProviderSub Slot.committed f.tenantId .google claims.sub db.accounts = none ∧
        LinksAccount deps x f claims db := by
  constructor
  · rintro ⟨f', idToken', claims', hf', -, hv', h⟩
    obtain rfl := Except.ok.inj (hf.symm.trans hf')
    obtain rfl := Upstream.ok.inj (hv.symm.trans hv')
    exact h
  · exact fun h => ⟨f, idToken, claims, hf, he, hv, h⟩

theorem same_refl (db : CallbackDb) : db.Same db := ⟨fun _ => rfl, rfl⟩

section
variable {deps : OidcDeps} {x : CallbackInput} {f : OAuthFlow} {db : CallbackDb} {message : Bytes}

theorem openSession_rejected {userId : Uuid} {existing : Option Uuid}
    (hr : (openSession deps x f userId existing db).1 = .unauthorized message) :
    ¬ ActiveAccount f.tenantId userId db.accounts ∧ (openSession deps x f userId existing db).2 = db := by
  rcases openSession_cases deps x f userId existing db with ⟨hna, he⟩ | ⟨-, tokens, he⟩
  · exact ⟨hna, congrArg Prod.snd he⟩
  · rw [he] at hr
    cases hr

theorem not_active_iff {record : AuthRecord} :
    ¬ (record.status = userActive ∧ record.role ≠ none) ↔ record.status ≠ userActive ∨ record.role = none := by
  rw [not_and_or, not_not]

theorem read_linked {h : AccountHeap} (hi : ∀ s ∈ h, s.pending = none) {d : OAuthIdentity}
    (hviol : violates (.identity d) h = false) :
    Heap.read (.identity d.id) (h ++ [⟨.identity d.id, some (.identity d), none⟩]) ≠ h.read (.identity d.id) := by
  have hfresh : ∀ s ∈ h, s.key ≠ .identity d.id := fun s hs => (not_violates hviol hs).1
  have hnone : h.read (.identity d.id) = none := by
    rw [Heap.read, Heap.slot?_eq_none hfresh]
    rfl
  rw [← commit_insert hi, Heap.read_commit, Heap.written_insert hfresh, if_pos ⟨rfl, rfl⟩, hnone]
  exact Option.some_ne_none _

theorem linkAccount_rejected (hdb : db.Idle) {claims : GoogleClaims} {record : AuthRecord}
    (hfind : findByProviderSub Slot.committed f.tenantId .google claims.sub db.accounts = none)
    (hemail : findCredentialsByEmail f.tenantId (deps.normalizeEmail claims.email) db.accounts = some record)
    (hr : (linkAccount deps x f claims record db).1 = .unauthorized message) :
    db.Same (linkAccount deps x f claims record db).2 ↔ ¬ ((record.status ≠ userActive ∨ record.role = none) ∧
      violates (.identity ((Callbacks.linkInput deps claims record.id).row f.tenantId x.identityId)) db.accounts =
        false) := by
  have hlink := linkFirst_cases hdb.idle x.identityId (n := Callbacks.linkInput deps claims record.id) hfind hemail rfl
  unfold linkAccount at hr ⊢
  rcases hlink with ⟨hviol, he⟩ | ⟨hviol, he⟩
  · rw [he]
    refine iff_of_true ⟨sameRows_abort _, rfl⟩ fun h => ?_
    rw [hviol] at h
    cases h.2
  · rw [he] at hr ⊢
    obtain ⟨hna, hsame⟩ := openSession_rejected hr
    have hrec := findCredentialsById_eq hdb.valid hemail
    rw [← findCredentialsById_append] at hrec
    refine iff_of_false (fun hs => ?_) (not_not.mpr ⟨?_, hviol⟩)
    · rw [hsame] at hs
      exact read_linked hdb.idle hviol (hs.1 _)
    · exact not_active_iff.mp fun ha => hna ((activeAccount_iff hrec).mpr ha)

theorem acceptInvite_rejected (hdb : db.Idle) {claims : GoogleClaims} {hash : Bytes}
    (hr : (acceptInvite deps x f claims hash db).1 = .unauthorized message) :
    db.Same (acceptInvite deps x f claims hash db).2 := by
  unfold acceptInvite at hr ⊢
  cases hp : provisionFromInvite f.tenantId (Callbacks.provisionInput deps claims hash x.now) x.userId x.identityId
      db.accounts with
  | mk res h =>
    rw [hp] at hr
    cases res with
    | ok r =>
      rcases provision_ok hdb.idle hdb.valid hp with ⟨rfl, hsame⟩ | ⟨rfl, hactive⟩
      · exact ⟨hsame, rfl⟩
      · exact absurd hactive (openSession_rejected hr).1
    | conflict => cases hr
    | threw => cases hr

theorem firstLogin_rejected (hdb : db.Idle) {claims : GoogleClaims}
    (hfind : findByProviderSub Slot.committed f.tenantId .google claims.sub db.accounts = none)
    (hr : (firstLogin deps x f claims db).1 = .unauthorized message) :
    db.Same (firstLogin deps x f claims db).2 ↔ ¬ LinksAccount deps x f claims db := by
  unfold firstLogin at hr ⊢
  unfold LinksAccount
  cases hemail : findCredentialsByEmail f.tenantId (deps.normalizeEmail claims.email) db.accounts with
  | some record =>
    rw [hemail] at hr
    refine (linkAccount_rejected hdb hfind hemail hr).trans (not_congr ⟨fun h => ⟨record, rfl, h⟩, ?_⟩)
    rintro ⟨record', hrec, h⟩
    obtain rfl := Option.some.inj hrec
    exact h
  | none =>
    refine iff_of_true ?_ fun ⟨_, h, _⟩ => by cases h
    rw [hemail] at hr
    dsimp only at hr ⊢
    split
    · exact same_refl db
    · rename_i hash hhash
      rw [hhash] at hr
      dsimp only at hr
      split
      · rename_i hinv
        rw [if_pos hinv] at hr
        exact acceptInvite_rejected hdb hr
      · exact same_refl db

end

/-- **Frame of rejected callbacks.** In every state of the database, whatever the identity provider answers and
whichever invite is presented: a call that is rejected leaves all tables as they were exactly when it has not linked
the identity to an account that is not active. -/
theorem rejected_unchanged_iff {deps : OidcDeps} {x : CallbackInput} {db : CallbackDb} {message : Bytes} (hdb : db.Idle)
    (hr : (handleCallback deps x db).1 = .unauthorized message) :
    db.Same (handleCallback deps x db).2 ↔ ¬ LinksInactive deps x db := by
  unfold handleCallback at hr ⊢
  cases hflow : x.flow with
  | error message' => exact iff_of_true (same_refl db) fun ⟨_, _, _, h, _⟩ => by rw [hflow] at h; cases h
  | ok f =>
    rw [hflow] at hr
    dsimp only at hr ⊢
    cases hex : x.exchanged with
    | unavailable => rw [hex] at hr; cases hr
    | rejected => exact iff_of_true (same_refl db) fun ⟨_, _, _, _, h, _⟩ => by rw [hex] at h; cases h
    | ok idToken =>
      rw [hex] at hr
      dsimp only at hr ⊢
      cases hver : x.verified with
      | unavailable => rw [hver] at hr; cases hr
      | rejected => exact iff_of_true (same_refl db) fun ⟨_, _, _, _, _, h, _⟩ => by rw [hver] at h; cases h
      | ok claims =>
        rw [hver] at hr
        dsimp only at hr ⊢
        rw [linksInactive_iff hflow hex hver]
        cases hfind : findByProviderSub Slot.committed f.tenantId .google claims.sub db.accounts with
        | some d =>
          rw [hfind] at hr
          dsimp only at hr ⊢
          rw [(openSession_rejected hr).2]
          exact iff_of_true (same_refl db) fun h => by cases h.1
        | none =>
          rw [hfind] at hr
          exact (firstLogin_rejected hdb hfind hr).trans (not_congr (and_iff_right rfl).symm)

/-! ## A suspended account -/

def suspendedUser : User :=
  { provisionedUser (.rep 17) (bs "ada@acme.test") (.rep 2) with status := bs "suspended" }

def suspendedDb : CallbackDb :=
  ⟨[⟨.user (.rep 2), some (.user suspendedUser), none⟩,
    ⟨.membership (.rep 17) (.rep 2), some (.membership ⟨.rep 17, .rep 2, .member⟩), none⟩], []⟩

def suspendedDeps : OidcDeps :=
  { sha256 := fun b => b, normalizeEmail := fun b => b, refreshTtlSeconds := 3600, inviteProvisioner := true }

def suspendedLogin : CallbackInput :=
  { cmd := ⟨bs "code", bs "xyz", none⟩
    stateRecord := some ⟨bs "xyz", .rep 17, some (bs "verifier"), some (bs "nonce"), none⟩
    exchanged := .ok (bs "token")
    verified := .ok ⟨bs "1001", bs "ada@acme.test"⟩
    now := 0, userId := .rep 4, identityId := .rep 3, familyId := .rep 5, tokenId := .rep 6, secret := bs "secret" }

theorem suspendedDb_idle : suspendedDb.Idle := by
  refine ⟨Accounts.valid_of_rows (by decide) (by decide) (by decide) fun s hs d hd => ?_, by decide⟩
  rcases List.mem_cons.mp hs with rfl | hs
  · cases hd
  · obtain rfl := List.mem_singleton.mp hs
    cases hd

theorem suspendedLogin_rejected :
    (handleCallback suspendedDeps suspendedLogin suspendedDb).1 = .unauthorized inactiveMessage := by decide

/-- The first login of a suspended user is rejected, and the identity stays linked. -/
theorem suspended_user_linked :
    suspendedDb.Idle ∧
      (handleCallback suspendedDeps suspendedLogin suspendedDb).1 = .unauthorized inactiveMessage ∧
      suspendedDb.accounts.read (.identity (.rep 3)) = none ∧
      (handleCallback suspendedDeps suspendedLogin suspendedDb).2.accounts.read (.identity (.rep 3)) =
        some (.identity ⟨.rep 3, .rep 17, .rep 2, .google, bs "1001", bs "ada@acme.test", none⟩) :=
  ⟨suspendedDb_idle, suspendedLogin_rejected, by decide, by decide⟩

def strangerLogin : CallbackInput := { suspendedLogin with verified := .ok ⟨bs "1002", bs "eve@acme.test"⟩ }

theorem strangerLogin_rejected :
    (handleCallback suspendedDeps strangerLogin suspendedDb).1 = .unauthorized noAccountMessage := by decide

theorem strangerLogin_links_none : ¬ LinksInactive suspendedDeps strangerLogin suspendedDb := by
  intro h
  obtain ⟨-, record, hr, -⟩ := (linksInactive_iff rfl rfl rfl).mp h
  have hnone : findCredentialsByEmail (.rep 17) (bs "eve@acme.test") suspendedDb.accounts = none := by decide
  cases hnone.symm.trans hr

theorem suspendedLogin_links : LinksInactive suspendedDeps suspendedLogin suspendedDb :=
  (linksInactive_iff rfl rfl rfl).mpr ⟨by decide, _, rfl, .inl (by decide), by decide⟩

/-- A stranger's login changes nothing, a suspended user's does. -/
theorem stranger_unchanged :
    suspendedDb.Same (handleCallback suspendedDeps strangerLogin suspendedDb).2 ∧
      ¬ suspendedDb.Same (handleCallback suspendedDeps suspendedLogin suspendedDb).2 :=
  ⟨(rejected_unchanged_iff suspendedDb_idle strangerLogin_rejected).mpr strangerLogin_links_none,
    fun h => (rejected_unchanged_iff suspendedDb_idle suspendedLogin_rejected).mp h suspendedLogin_links⟩

end Logalot
