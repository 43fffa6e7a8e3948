import Logalot.AccountsSound
import Logalot.Callbacks

/-!
# A session belongs to the user of the link

In each tenant a subject is linked to one user and a user to one subject, for
good, and a callback mints a session only for the user its subject is linked to.
-/

namespace Logalot

open Go Pg Mvcc AccountHeap

/-! ## Transactions of a call -/

def AccountTx.sameCall : AccountTx → AccountTx → Prop
  | .provision t n _, .provision t' n' _ => t' = t ∧ n' = n
  | .link t n _, .link t' n' _ => t' = t ∧ n' = n
  | .edit t e _, .edit t' e' _ => t' = t ∧ e' = e
  | .create t n _, .create t' n' _ => t' = t ∧ n' = n
  | _, _ => False

namespace Accounts

variable {s t : Accounts} {j : Nat} {x : AccountTx}

theorem sameCall_refl (x : AccountTx) : x.sameCall x := by
  cases x <;> exact ⟨rfl, rfl⟩

theorem step_txs (h : Step s t) :
    ∃ i x, t.txs = Function.update s.txs i (some x) ∧ ∀ y, s.txs i = some y → y.sameCall x := by
  cases h with
  | begin hn hb =>
    refine ⟨_, _, rfl, ?_⟩
    intro y hy
    rw [hn] at hy
    cases hy
  | @abort i x hi ho =>
    refine ⟨_, _, rfl, ?_⟩
    intro y hy
    rw [← Option.some.inj (hi.symm.trans hy)]
    cases x <;> exact ⟨rfl, rfl⟩
  | _ =>
    have hi := ‹s.txs _ = some _›
    refine ⟨_, _, rfl, ?_⟩
    intro y hy
    obtain rfl := Option.some.inj (hi.symm.trans hy)
    exact ⟨rfl, rfl⟩

theorem step_sameCall (h : Step s t) (hj : s.txs j = some x) : ∃ y, t.txs j = some y ∧ x.sameCall y := by
  obtain ⟨i, y, he, hy⟩ := step_txs h
  rw [he]
  by_cases e : j = i
  · subst e
    exact ⟨y, Function.update_self .., hy x hj⟩
  · rw [Function.update_of_ne e]
    exact ⟨x, hj, sameCall_refl x⟩

end Accounts

/-! ## Links -/

def Accounts.Links (a : Accounts) (t : Uuid) (sub : Bytes) (u : Uuid) : Prop := Linked t .google sub u a.heap

theorem Accounts.Links.step {a b : Accounts} (h : a.Inv) (hst : Accounts.Step a b) {t : Uuid} {sub : Bytes} {u : Uuid}
    (hl : a.Links t sub u) : b.Links t sub u := by
  obtain ⟨i, x, hm⟩ := Accounts.step_moves h hst
  exact hl.read_mono hm.frame.grows

theorem links_of_find {a : Accounts} (h : a.Inv) {t : Uuid} {sub : Bytes} {d : OAuthIdentity}
    (hf : findByProviderSub Slot.committed t .google sub a.heap = some d) : a.Links t sub d.userId := by
  obtain ⟨⟨s, hm, hc⟩, ht, hp, hsub⟩ := findByProviderSub_eq_some hf
  refine ⟨d.id, d, ?_, ht, hp, hsub, rfl⟩
  have hk : s.key = .identity d.id := (h.heap.keyed s hm _ (Or.inl hc)).symm
  rw [← hk, Heap.read, Heap.slot?_of_mem h.heap.keys hm]
  exact hc

theorem id_of_findCredentialsById {t u : Uuid} {h : AccountHeap} {r : AuthRecord}
    (hf : findCredentialsById t u h = some r) : r.id = u := by
  obtain ⟨s, -, hs⟩ := List.exists_of_findSome?_eq_some hf
  split at hs
  · split at hs
    · rename_i hc
      obtain rfl := Option.some.inj hs
      exact of_decide_eq_true hc.2
    · cases hs
  · cases hs

theorem identity_unique {h : AccountHeap} (hs : Sound h) {id id' : Uuid} {d d' : OAuthIdentity}
    (hd : h.read (.identity id) = some (.identity d)) (hd' : h.read (.identity id') = some (.identity d'))
    (ht : d.tenantId = d'.tenantId) (hp : d.provider = d'.provider)
    (he : d.providerSub = d'.providerSub ∨ d.userId = d'.userId) : id = id' ∧ d = d' := by
  obtain ⟨a, ha, hac⟩ := Option.bind_eq_some_iff.mp hd
  obtain ⟨b, hb, hbc⟩ := Option.bind_eq_some_iff.mp hd'
  obtain ⟨ham, hak⟩ := Heap.slot?_some ha
  obtain ⟨hbm, hbk⟩ := Heap.slot?_some hb
  have hab : a = b := by
    rcases he with he | he
    · refine hs.unique a ham b hbm _ _ (.identitySub d.tenantId d.provider d.providerSub) (Or.inl hac) (Or.inl hbc)
        List.mem_cons_self ?_
      rw [ht, hp, he]
      exact List.mem_cons_self
    · refine hs.unique a ham b hbm _ _ (.identityUser d.tenantId d.userId d.provider) (Or.inl hac) (Or.inl hbc)
        (List.mem_cons_of_mem _ List.mem_cons_self) ?_
      rw [ht, hp, he]
      exact List.mem_cons_of_mem _ List.mem_cons_self
  subst hab
  exact ⟨AccountKey.identity.inj (hak.symm.trans hbk),
    AccountRow.identity.inj (Option.some.inj (hac.symm.trans hbc))⟩

/-! ## Calls -/

namespace Callbacks

def PhaseSound (a : Accounts) (c : CallbackCall) : CallbackPhase → Prop
  | .findIdentity _ claims => c.sub = some claims.sub ∧ c.tx = none
  | .findByEmail _ claims => c.sub = some claims.sub ∧ c.tx = none
  | .provision f claims _ =>
    c.sub = some claims.sub ∧ ∀ j, c.tx = some j → ∃ n ph, a.txs j = some (.provision f.tenantId n ph) ∧
      n.providerSub = claims.sub
  | .link f claims _ =>
    c.sub = some claims.sub ∧ ∀ j, c.tx = some j → ∃ n ph, a.txs j = some (.link f.tenantId n ph) ∧
      n.provider = .google ∧ n.providerSub = claims.sub
  | .findUser f claims u => c.sub = some claims.sub ∧ a.Links f.tenantId claims.sub u
  | .mint f claims record _ => c.sub = some claims.sub ∧ a.Links f.tenantId claims.sub record.id
  | .done (.session tokens _) => ∃ sub, c.sub = some sub ∧ a.Links tokens.tenantId sub tokens.userId
  | .done _ => True
  | _ => c.tx = none

def CallSound (a : Accounts) (c : CallbackCall) : Prop := PhaseSound a c c.phase

structure Inv (s : Callbacks) : Prop where
  accounts : s.accounts.Inv
  calls : ∀ i c, s.calls i = some c → CallSound s.accounts c

theorem CallSound.mono {a b : Accounts} {c : CallbackCall} (h : CallSound a c)
    (hl : ∀ t sub u, a.Links t sub u → b.Links t sub u)
    (ht : ∀ j x, a.txs j = some x → ∃ y, b.txs j = some y ∧ x.sameCall y) : CallSound b c := by
  unfold CallSound at h ⊢
  cases hp : c.phase with
  | provision f claims hash =>
    rw [hp] at h
    refine ⟨h.1, ?_⟩
    intro j hj
    obtain ⟨n, ph, hx, hn⟩ := h.2 j hj
    obtain ⟨y, hy, hsame⟩ := ht j _ hx
    cases y with
    | provision t' n' ph' =>
      obtain ⟨rfl, rfl⟩ := hsame
      exact ⟨n', ph', hy, hn⟩
    | _ => exact hsame.elim
  | link f claims userId =>
    rw [hp] at h
    refine ⟨h.1, ?_⟩
    intro j hj
    obtain ⟨n, ph, hx, hn⟩ := h.2 j hj
    obtain ⟨y, hy, hsame⟩ := ht j _ hx
    cases y with
    | link t' n' ph' =>
      obtain ⟨rfl, rfl⟩ := hsame
      exact ⟨n', ph', hy, hn⟩
    | _ => exact hsame.elim
  | findUser f claims u =>
    rw [hp] at h
    exact ⟨h.1, hl _ _ _ h.2⟩
  | mint f claims record role =>
    rw [hp] at h
    exact ⟨h.1, hl _ _ _ h.2⟩
  | done o =>
    rw [hp] at h
    cases o with
    | session tokens returnTo =>
      obtain ⟨sub, hs, hk⟩ := h
      exact ⟨sub, hs, hl _ _ _ hk⟩
    | _ => trivial
  | _ =>
    rw [hp] at h
    exact h

variable {deps : OidcDeps} {s t : Callbacks} {i j : Nat} {c : CallbackCall}

theorem Inv.setCall (h : s.Inv) (hc : CallSound s.accounts c) : (s.setCall i c).Inv := by
  refine ⟨h.accounts, ?_⟩
  intro k d hd
  rcases Runs.update_cases hd with ⟨-, rfl⟩ | ⟨-, hd⟩
  · exact hc
  · exact h.calls k d hd

theorem Inv.phase (h : s.Inv) (hc : s.calls i = some c) {ph : CallbackPhase} (hp : c.phase = ph) :
    PhaseSound s.accounts c ph := by
  rw [← hp]
  exact h.calls i c hc

theorem Inv.account (h : s.Inv) {a : Accounts} (hst : Accounts.Step s.accounts a) :
    ({ s with accounts := a } : Callbacks).Inv := by
  refine ⟨h.accounts.step hst, ?_⟩
  intro k d hd
  refine (h.calls k d hd).mono ?_ ?_
  · intro t sub u hl
    exact hl.step h.accounts hst
  · intro j x hj
    exact Accounts.step_sameCall hst hj

theorem Inv.await (h : s.Inv) {x : AccountTx} (hj : s.accounts.txs j = none) (hx : x.isBegun = true)
    (hc : CallSound (s.accounts.setTx j x) { c with tx := some j }) : (s.await i c j x).Inv :=
  (h.account (.begin hj hx)).setCall hc

theorem phaseSound_afterConsumeState {a : Accounts} (hc : c.tx = none) (r : Option OAuthStateRecord) :
    PhaseSound a { c with phase := .afterConsumeState r } (.afterConsumeState r) := by
  cases r with
  | none => trivial
  | some r =>
    unfold CallbackPhase.afterConsumeState
    simp only
    split
    · trivial
    · exact hc

theorem phaseSound_afterFindUser {a : Accounts} {f : OAuthFlow} {claims : GoogleClaims} {u : Uuid}
    (hs : c.sub = some claims.sub) (hl : a.Links f.tenantId claims.sub u) {r : Option AuthRecord}
    (hr : ∀ x, r = some x → x.id = u) : PhaseSound a c (.afterFindUser f claims r) := by
  cases r with
  | none => trivial
  | some x =>
    unfold CallbackPhase.afterFindUser
    simp only
    split
    · trivial
    · split
      · trivial
      · refine ⟨hs, ?_⟩
        rw [hr x rfl]
        exact hl

theorem Inv.step (h : s.Inv) (hst : Step deps s t) : t.Inv := by
  cases hst with
  | account ha => exact h.account ha
  | putState r => exact ⟨h.accounts, h.calls⟩
  | expireState r => exact ⟨h.accounts, h.calls⟩
  | callback cmd hn =>
    have hc : CallSound s.accounts ⟨cmd, .consumeState, none, none⟩ := rfl
    exact h.setCall hc
  | consumeState hi hp =>
    have hc := h.phase hi hp
    exact Inv.setCall (s := { s with states := _ }) ⟨h.accounts, h.calls⟩ (phaseSound_afterConsumeState hc _)
  | exchange r hi hp =>
    have hc := h.phase hi hp
    refine h.setCall ?_
    cases r with
    | ok idToken => exact hc
    | _ => trivial
  | verify r hi hp =>
    have hc := h.phase hi hp
    refine h.setCall ?_
    cases r with
    | ok claims => exact ⟨rfl, hc⟩
    | _ => trivial
  | @findIdentity i c f claims hi hp =>
    have hc : c.sub = some claims.sub ∧ c.tx = none := h.phase hi hp
    refine h.setCall ?_
    cases hf : findByProviderSub Slot.committed f.tenantId .google claims.sub s.accounts.heap with
    | none => exact hc
    | some d => exact ⟨hc.1, links_of_find h.accounts hf⟩
  | @findByEmail i c f claims hi hp =>
    have hc : c.sub = some claims.sub ∧ c.tx = none := h.phase hi hp
    have hno : ∀ j, c.tx ≠ some j := by
      intro j hj
      rw [hc.2] at hj
      cases hj
    refine h.setCall ?_
    cases hf : findCredentialsByEmail f.tenantId (deps.normalizeEmail claims.email) s.accounts.heap with
    | some record => exact ⟨hc.1, fun j hj => absurd hj (hno j)⟩
    | none =>
      unfold CallSound CallbackPhase.afterFindByEmail
      simp only
      split
      · split
        · exact ⟨hc.1, fun j hj => absurd hj (hno j)⟩
        · trivial
      · trivial
  | @provision i j c f claims hash now hi hp htx hj =>
    have hc := h.phase hi hp
    refine h.await hj rfl ?_
    unfold CallSound
    rw [hp]
    refine ⟨hc.1, ?_⟩
    intro k hk
    obtain rfl := Option.some.inj hk
    exact ⟨provisionInput deps claims hash now, .begun, Function.update_self .., rfl⟩
  | @provisioned i j c f claims hash t n inviteId userId hi hp htx hj =>
    have hc := h.phase hi hp
    obtain ⟨n', ph, hx, hn⟩ := hc.2 _ htx
    obtain ⟨rfl, rfl, rfl⟩ := AccountTx.provision.inj (Option.some.inj (hj.symm.trans hx))
    refine h.setCall ⟨hc.1, ?_⟩
    have hs : ProvisionSound s.accounts.heap j f.tenantId n (.provisioned inviteId userId) := h.accounts.tx hj
    rw [← hn]
    exact hs.2
  | provisionRefused hi hp htx hj => exact h.setCall trivial
  | @link i j c f claims userId hi hp htx hj =>
    have hc := h.phase hi hp
    refine h.await hj rfl ?_
    unfold CallSound
    rw [hp]
    refine ⟨hc.1, ?_⟩
    intro k hk
    obtain rfl := Option.some.inj hk
    exact ⟨linkInput deps claims userId, .begun, Function.update_self .., rfl, rfl⟩
  | @linked i j c f claims userId t n ref hi hp htx hj =>
    have hc := h.phase hi hp
    obtain ⟨n', ph, hx, hpr, hn⟩ := hc.2 _ htx
    obtain ⟨rfl, rfl, rfl⟩ := AccountTx.link.inj (Option.some.inj (hj.symm.trans hx))
    refine h.setCall ⟨hc.1, ?_⟩
    have hs : LinkSound s.accounts.heap j f.tenantId n (.returned ref) := h.accounts.tx hj
    have hl : Linked f.tenantId n.provider n.providerSub ref.userId s.accounts.heap := hs
    rw [hpr, hn] at hl
    exact hl
  | linkRefused hi hp htx hj => exact h.setCall trivial
  | findUser hi hp =>
    have hc := h.phase hi hp
    exact h.setCall (phaseSound_afterFindUser hc.1 hc.2 fun x hx => id_of_findCredentialsById hx)
  | mint tokenId secret hi hp =>
    have hc := h.phase hi hp
    exact h.setCall ⟨_, hc.1, hc.2⟩
  | fail hi hd => exact h.setCall trivial

theorem inv_reachable (hr : (system deps).Reachable s) : s.Inv := by
  apply hr.invariant (P := Inv)
  · intro s hs
    refine ⟨Accounts.inv_init hs.1, ?_⟩
    intro i c hc
    rw [hs.2] at hc
    cases hc
  · intro s t _ hs h
    exact hs.step h

theorem step_accounts (hst : Step deps s t) :
    t.accounts = s.accounts ∨ Accounts.Step s.accounts t.accounts := by
  cases hst with
  | account ha => exact Or.inr ha
  | provision now hi hp htx hj => exact Or.inr (.begin hj rfl)
  | link hi hp htx hj => exact Or.inr (.begin hj rfl)
  | _ => exact Or.inl rfl

theorem identity_steps (h : s.Inv) (hrun : Relation.ReflTransGen (Step deps) s t) {id : Uuid} {d : OAuthIdentity}
    (hd : s.accounts.table (.identity id) = some (.identity d)) :
    ∃ d', t.accounts.table (.identity id) = some (.identity d') ∧ d'.tenantId = d.tenantId ∧ d'.userId = d.userId ∧
      d'.provider = d.provider ∧ d'.providerSub = d.providerSub := by
  have hboth : t.Inv ∧ ∃ d', t.accounts.table (.identity id) = some (.identity d') ∧ d'.tenantId = d.tenantId ∧
      d'.userId = d.userId ∧ d'.provider = d.provider ∧ d'.providerSub = d.providerSub := by
    induction hrun with
    | refl => exact ⟨h, d, hd, rfl, rfl, rfl, rfl⟩
    | tail _ hst ih =>
      obtain ⟨hI, d', hd', e1, e2, e3, e4⟩ := ih
      refine ⟨hI.step hst, ?_⟩
      rcases step_accounts hst with he | ha
      · rw [he]
        exact ⟨d', hd', e1, e2, e3, e4⟩
      · obtain ⟨i, x, hm⟩ := Accounts.step_moves hI.accounts ha
        obtain ⟨r', hr', rfl | hev⟩ := hm.frame.grows _ _ hd'
        · exact ⟨d', hr', e1, e2, e3, e4⟩
        · cases r' with
          | identity d'' =>
            obtain ⟨-, f1, f2, f3, f4⟩ := hev
            exact ⟨d'', hr', f1.trans e1, f2.trans e2, f3.trans e3, f4.trans e4⟩
          | _ => exact hev.elim
  exact hboth.2

/-- **Links.** In a tenant a subject is linked to one user at most and a user to one subject; a link stays; and a
session that a callback minted is one of the user that its verified subject is linked to in that tenant. -/
theorem sessions_follow_links (hr : (system deps).Reachable s) :
    (∀ id id' d d', s.accounts.table (.identity id) = some (.identity d) →
        s.accounts.table (.identity id') = some (.identity d') → d.tenantId = d'.tenantId → d.provider = d'.provider →
        (d.providerSub = d'.providerSub ↔ d.userId = d'.userId)) ∧
      (∀ t, Relation.ReflTransGen (Step deps) s t → ∀ id d, s.accounts.table (.identity id) = some (.identity d) →
        ∃ d', t.accounts.table (.identity id) = some (.identity d') ∧ d'.tenantId = d.tenantId ∧
          d'.userId = d.userId ∧ d'.provider = d.provider ∧ d'.providerSub = d.providerSub) ∧
      ∀ i c tokens returnTo, s.calls i = some c → c.phase = .done (.session tokens returnTo) →
        ∃ sub id d, c.sub = some sub ∧ s.accounts.table (.identity id) = some (.identity d) ∧
          d.tenantId = tokens.tenantId ∧ d.provider = .google ∧ d.providerSub = sub ∧ d.userId = tokens.userId := by
  have h := inv_reachable hr
  refine ⟨?_, ?_, ?_⟩
  · intro id id' d d' hd hd' ht hp
    constructor
    · intro he
      rw [(identity_unique h.accounts.heap hd hd' ht hp (Or.inl he)).2]
    · intro he
      rw [(identity_unique h.accounts.heap hd hd' ht hp (Or.inr he)).2]
  · intro t hrun id d hd
    exact identity_steps h hrun hd
  · intro i c tokens returnTo hc hp
    obtain ⟨sub, hs, id, d, hd, ht, hpr, hsub, hu⟩ := h.phase hc hp
    exact ⟨sub, id, d, hs, hd, ht, hpr, hsub, hu⟩

/-! ## A run -/

def sampleDeps : OidcDeps :=
  { sha256 := fun b => b, normalizeEmail := fun b => b, refreshTtlSeconds := 3600, inviteProvisioner := true }

def sampleAccounts : Accounts :=
  ⟨[⟨.user (.rep 2), some (.user (provisionedUser (.rep 17) (bs "ada@acme.test") (.rep 2))), none⟩,
    ⟨.membership (.rep 17) (.rep 2), some (.membership ⟨.rep 17, .rep 2, .member⟩), none⟩,
    ⟨.identity (.rep 3), some (.identity ⟨.rep 3, .rep 17, .rep 2, .google, bs "1001", bs "ada@acme.test", none⟩),
      none⟩],
    fun _ => none⟩

def sampleRecord : OAuthStateRecord := ⟨bs "xyz", .rep 17, some (bs "verifier"), some (bs "nonce"), none⟩

def sampleFlow : OAuthFlow := ⟨.rep 17, bs "verifier", bs "nonce", bs "/"⟩

def sampleClaims : GoogleClaims := ⟨bs "1001", bs "ada@acme.test"⟩

def sampleStart : Callbacks := ⟨sampleAccounts, [sampleRecord], fun _ => none⟩

def sampleCall (ph : CallbackPhase) (sub : Option Bytes) : CallbackCall := ⟨⟨bs "code", bs "xyz", none⟩, ph, sub, none⟩

def sampleAuth : AuthRecord := ⟨.rep 2, disabledPassword, userActive, some .member⟩

def sampleTokens : SessionTokens :=
  ⟨assembleRefreshToken (uuidOut (.rep 17)) (uuidOut (.rep 9)) (bs "secret"), .member, .rep 17, .rep 2⟩

def lone (rs : List OAuthStateRecord) (c : CallbackCall) : Callbacks :=
  ⟨sampleAccounts, rs, fun i => if i = 0 then some c else none⟩

theorem reachable_lone {rs rs' : List OAuthStateRecord} {b c : CallbackCall}
    (hr : (system sampleDeps).Reachable (lone rs b)) (h : Step sampleDeps (lone rs b) ((lone rs' b).setCall 0 c)) :
    (system sampleDeps).Reachable (lone rs' c) := by
  unfold setCall lone at h
  rw [Runs.update_lone fun i e => if_neg e] at h
  exact hr.step h

theorem sampleAccounts_init : Accounts.system.init sampleAccounts := by
  refine ⟨Accounts.valid_of_rows (by decide) (by decide) (by decide) fun s hs d hd => ⟨_, List.mem_cons_self, ?_⟩,
    by decide, rfl⟩
  rcases List.mem_cons.mp hs with rfl | hs
  · cases hd
  · rcases List.mem_cons.mp hs with rfl | hs
    · cases hd
    · obtain rfl := List.mem_singleton.mp hs
      obtain rfl := AccountRow.identity.inj (Option.some.inj hd)
      rfl

def sampleEnd : Callbacks := lone [] (sampleCall (.done (.session sampleTokens (bs "/"))) (some (bs "1001")))

theorem sampleEnd_reachable : (system sampleDeps).Reachable sampleEnd := by
  have h0 : (system sampleDeps).Reachable sampleStart := .init ⟨sampleAccounts_init, rfl⟩
  have h1 : (system sampleDeps).Reachable (lone [sampleRecord] (sampleCall .consumeState none)) := by
    have h : Step sampleDeps sampleStart (sampleStart.setCall 0 (sampleCall .consumeState none)) :=
      .callback ⟨bs "code", bs "xyz", none⟩ rfl
    unfold setCall sampleStart at h
    rw [Runs.update_lone fun i _ => rfl] at h
    exact h0.step h
  have h2 : (system sampleDeps).Reachable (lone [] (sampleCall (.exchange sampleFlow) none)) :=
    reachable_lone h1 (.consumeState (c := sampleCall .consumeState none) rfl rfl)
  have h3 : (system sampleDeps).Reachable (lone [] (sampleCall (.verify sampleFlow (bs "token")) none)) :=
    reachable_lone h2 (.exchange (c := sampleCall (.exchange sampleFlow) none) (.ok (bs "token")) rfl rfl)
  have h4 : (system sampleDeps).Reachable
      (lone [] (sampleCall (.findIdentity sampleFlow sampleClaims) (some (bs "1001")))) :=
    reachable_lone h3 (.verify (c := sampleCall (.verify sampleFlow (bs "token")) none) (.ok sampleClaims) rfl rfl)
  have h5 : (system sampleDeps).Reachable
      (lone [] (sampleCall (.findUser sampleFlow sampleClaims (.rep 2)) (some (bs "1001")))) :=
    reachable_lone h4
      (.findIdentity (c := sampleCall (.findIdentity sampleFlow sampleClaims) (some (bs "1001"))) rfl rfl)
  have h6 : (system sampleDeps).Reachable
      (lone [] (sampleCall (.mint sampleFlow sampleClaims sampleAuth .member) (some (bs "1001")))) :=
    reachable_lone h5
      (.findUser (c := sampleCall (.findUser sampleFlow sampleClaims (.rep 2)) (some (bs "1001"))) rfl rfl)
  have hm : CallbackPhase.minted sampleFlow sampleAuth .member (.rep 9) (bs "secret") =
      .done (.session sampleTokens (bs "/")) := by
    simp only [CallbackPhase.minted, sampleTokens, sampleFlow, sampleAuth]
  rw [sampleEnd, ← hm]
  exact reachable_lone h6 (.mint (c := sampleCall (.mint sampleFlow sampleClaims sampleAuth .member) (some (bs "1001")))
    (.rep 9) (bs "secret") rfl rfl)

theorem returning_user_linked : (system sampleDeps).Reachable sampleEnd ∧
    ∃ sub id d, (some (bs "1001") : Option Bytes) = some sub ∧
      sampleEnd.accounts.table (.identity id) = some (.identity d) ∧ d.tenantId = sampleTokens.tenantId ∧
      d.provider = .google ∧ d.providerSub = sub ∧ d.userId = sampleTokens.userId :=
  ⟨sampleEnd_reachable, (sessions_follow_links sampleEnd_reachable).2.2 0 _ _ _ rfl rfl⟩

end Callbacks

end Logalot
