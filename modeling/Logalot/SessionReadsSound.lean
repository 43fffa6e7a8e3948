import Logalot.SessionReads

/-!
# Which reads stand before a session

A login and a refresh have read the tenant as active; a callback has not, and so a
tenant that was suspended since the flow began gets its session.
-/

namespace Logalot

open Go Pg

def TenantRead (l : List CallEvent) (tenantId : Uuid) : Prop := ∃ e ∈ l, e.tenantActive tenantId = true

def UserRead (l : List CallEvent) (tenantId userId : Uuid) : Prop := ∃ e ∈ l, e.userActive tenantId userId = true

def MintedAfter (P : List CallEvent → Prop) (l : List CallEvent) (t : SessionTokens) : Prop :=
  ∃ l₁ l₂, l = l₁ ++ .mint t :: l₂ ∧ UserRead l₁ t.tenantId t.userId ∧ P l₁

section Append

variable {l l' : List CallEvent} {tenantId userId : Uuid}

theorem TenantRead.append (h : TenantRead l tenantId) : TenantRead (l ++ l') tenantId := by
  obtain ⟨e, he, ha⟩ := h
  exact ⟨e, List.mem_append_left _ he, ha⟩

theorem UserRead.append (h : UserRead l tenantId userId) : UserRead (l ++ l') tenantId userId := by
  obtain ⟨e, he, ha⟩ := h
  exact ⟨e, List.mem_append_left _ he, ha⟩

theorem MintedAfter.append {P : List CallEvent → Prop} {t : SessionTokens} (h : MintedAfter P l t) :
    MintedAfter P (l ++ l') t := by
  obtain ⟨l₁, l₂, rfl, hu, hp⟩ := h
  refine ⟨l₁, l₂ ++ l', ?_, hu, hp⟩
  rw [List.append_assoc, List.cons_append]

theorem tenantRead_of_mem {e : CallEvent} (he : e ∈ l') (ha : e.tenantActive tenantId = true) :
    TenantRead (l ++ l') tenantId :=
  ⟨e, List.mem_append_right _ he, ha⟩

theorem userRead_of_mem {e : CallEvent} (he : e ∈ l') (ha : e.userActive tenantId userId = true) :
    UserRead (l ++ l') tenantId userId :=
  ⟨e, List.mem_append_right _ he, ha⟩

end Append

/-! ## Logins -/

def LoginSound (l : List CallEvent) : LoginPhase → Prop
  | .findCredentials tenant => TenantRead l tenant.id
  | .mint tenant record _ => TenantRead l tenant.id ∧ UserRead l tenant.id record.id
  | .done (.session t) => MintedAfter (fun l₁ => TenantRead l₁ t.tenantId) l t
  | _ => True

variable {l : List CallEvent} {d : Directory}

theorem LoginSound.append {l' : List CallEvent} {ph : LoginPhase} (h : LoginSound l ph) :
    LoginSound (l ++ l') ph := by
  cases ph with
  | findTenant => trivial
  | findCredentials tenant => exact TenantRead.append h
  | mint tenant record role => exact ⟨h.1.append, h.2.append⟩
  | done o =>
    cases o with
    | session t => exact MintedAfter.append h
    | _ => trivial

inductive LoginMove (deps : AuthDeps) (d : Directory) : LoginCall → LoginCall → Prop where
  | tenant {c : LoginCall} : c.phase = .findTenant →
    LoginMove deps d c { c with phase := afterFindTenant (d.findByPublicId c.cmd.tenantSlug) }
  | credentials {c : LoginCall} {tenant : Tenant} : c.phase = .findCredentials tenant →
    LoginMove deps d c { c with
      phase := afterFindCredentials deps c.cmd tenant
        (d.findCredentialsByEmail tenant.id (deps.normalizeEmail c.cmd.email)) }
  | mint {c : LoginCall} {tenant : Tenant} {record : AuthRecord} {role : Role} (token : Bytes) :
    c.phase = .mint tenant record role →
    LoginMove deps d c { c with phase := .done (.session ⟨token, role, tenant.id, record.id⟩) }

variable {deps : AuthDeps}

theorem afterFindTenant_cases (r : Option Tenant) :
    (∃ t, r = some t ∧ t.status = .active ∧ afterFindTenant r = .findCredentials t) ∨
      afterFindTenant r = .done .unauthorized := by
  cases r with
  | none => exact Or.inr rfl
  | some t =>
    by_cases h : t.status = .active
    · exact Or.inl ⟨t, rfl, h, if_pos h⟩
    · exact Or.inr (if_neg h)

theorem afterFindCredentials_cases (deps : AuthDeps) (cmd : LoginCommand) (tenant : Tenant) (r : Option AuthRecord) :
    (∃ x role, r = some x ∧ x.status = userActive ∧ x.role = some role ∧
        afterFindCredentials deps cmd tenant r = .mint tenant x role) ∨
      afterFindCredentials deps cmd tenant r = .done .unauthorized := by
  cases r with
  | none => exact Or.inr rfl
  | some x =>
    unfold afterFindCredentials
    simp only
    split
    · exact Or.inr rfl
    · split
      · exact Or.inr rfl
      · rename_i hs
        cases hr : x.role with
        | none => exact Or.inr rfl
        | some role => exact Or.inl ⟨x, role, rfl, not_not.mp hs, hr, rfl⟩

theorem userActive_of_email {x : AuthRecord} {role : Role} (hs : x.status = userActive) (hr : x.role = some role)
    (t : Uuid) (email : Bytes) : (CallEvent.findCredentialsByEmail t email (some x)).userActive t x.id = true := by
  have hne : x.role ≠ none := by
    rw [hr]
    exact Option.some_ne_none role
  exact decide_eq_true ⟨rfl, rfl, hs, hne⟩

theorem userActive_of_id {x : AuthRecord} {role : Role} (hs : x.status = userActive) (hr : x.role = some role)
    (t id : Uuid) : (CallEvent.findCredentialsById t id (some x)).userActive t x.id = true := by
  have hne : x.role ≠ none := by
    rw [hr]
    exact Option.some_ne_none role
  exact decide_eq_true ⟨rfl, rfl, hs, hne⟩

theorem loginEvents_eq {c c' : LoginCall} (h : c'.phase ≠ c.phase) :
    loginEvents deps d (some c) (some c') = c.reads deps d ++ c'.phase.mints := if_neg h

theorem LoginMove.sound {c c' : LoginCall} (hm : LoginMove deps d c c')
    (h : LoginSound l c.phase) : LoginSound (l ++ loginEvents deps d (some c) (some c')) c'.phase := by
  cases hm with
  | tenant hp =>
    rcases afterFindTenant_cases (d.findByPublicId c.cmd.tenantSlug) with ⟨t, ht, ha, he⟩ | he
    · have hr : c.reads deps d = [.findByPublicId c.cmd.tenantSlug (some t)] := by
        rw [LoginCall.reads, hp, ht]
      have hne : afterFindTenant (d.findByPublicId c.cmd.tenantSlug) ≠ c.phase := by
        rw [he, hp]
        exact fun hc => by cases hc
      rw [loginEvents_eq hne, hr]
      simp only [he]
      exact tenantRead_of_mem (List.mem_append_left _ List.mem_cons_self) (decide_eq_true ⟨rfl, ha⟩)
    · simp only [he]
      trivial
  | @credentials tenant hp =>
    rw [hp] at h
    rcases afterFindCredentials_cases deps c.cmd tenant
      (d.findCredentialsByEmail tenant.id (deps.normalizeEmail c.cmd.email)) with ⟨x, role, hx, hs, hro, he⟩ | he
    · have hr : c.reads deps d = [.findCredentialsByEmail tenant.id (deps.normalizeEmail c.cmd.email) (some x)] := by
        rw [LoginCall.reads, hp]
        simp only [hx]
      have hne : afterFindCredentials deps c.cmd tenant
          (d.findCredentialsByEmail tenant.id (deps.normalizeEmail c.cmd.email)) ≠ c.phase := by
        rw [he, hp]
        exact fun hc => by cases hc
      rw [loginEvents_eq hne, hr]
      simp only [he]
      exact ⟨TenantRead.append h,
        userRead_of_mem (List.mem_append_left _ List.mem_cons_self) (userActive_of_email hs hro _ _)⟩
    · simp only [he]
      trivial
  | @mint tenant record role token hp =>
    rw [hp] at h
    have hr : c.reads deps d = [] := by rw [LoginCall.reads, hp]
    have hne : LoginPhase.done (.session ⟨token, role, tenant.id, record.id⟩) ≠ c.phase := by
      rw [hp]
      exact fun hc => by cases hc
    rw [loginEvents_eq hne, hr]
    exact ⟨l, [], rfl, h.2, h.1⟩

/-! ## Refreshes -/

def RefreshSound (l : List CallEvent) (token : Option Presented) : RefreshPhase → Prop
  | .findUser _ _ => ∀ p, token = some p → TenantRead l p.tenantId
  | .rotate _ _ record _ => ∀ p, token = some p → TenantRead l p.tenantId ∧ UserRead l p.tenantId record.id
  | .done (.session t) => MintedAfter (fun l₁ => TenantRead l₁ t.tenantId) l t
  | _ => True

theorem RefreshSound.append {l' : List CallEvent} {token : Option Presented} {ph : RefreshPhase}
    (h : RefreshSound l token ph) : RefreshSound (l ++ l') token ph := by
  cases ph with
  | findUser row now => exact fun p hp => (h p hp).append
  | rotate row now record role => exact fun p hp => ⟨(h p hp).1.append, (h p hp).2.append⟩
  | done o =>
    cases o with
    | session t => exact MintedAfter.append h
    | _ => trivial
  | _ => trivial

inductive RefreshMove (d : Directory) : RefreshCall → RefreshCall → Prop where
  | tenant {c : RefreshCall} {p : Presented} {row : RefreshToken} {now : Int} : c.token = some p →
    c.phase = .findTenant row now →
    RefreshMove d c { c with phase := afterTenant row now (d.findById p.tenantId) }
  | user {c : RefreshCall} {p : Presented} {row : RefreshToken} {now : Int} : c.token = some p →
    c.phase = .findUser row now →
    RefreshMove d c { c with phase := afterUser row now (d.findCredentialsById p.tenantId row.userId) }
  | rotate {c : RefreshCall} {p : Presented} {row : RefreshToken} {now : Int} {record : AuthRecord} {role : Role}
      (token : Bytes) : c.token = some p → c.phase = .rotate row now record role →
    RefreshMove d c { c with phase := .done (.session ⟨token, role, p.tenantId, record.id⟩) }
  | other {c c' : RefreshCall} : (∀ l, RefreshSound l c'.token c'.phase) → RefreshMove d c c'

theorem refreshEvents_eq {c c' : RefreshCall} (h : c'.phase ≠ c.phase) :
    refreshEvents d (some c) (some c') = c.reads d ++ c'.phase.mints := if_neg h

theorem afterTenant_cases (row : RefreshToken) (now : Int) (r : Option Tenant) :
    (∃ t, r = some t ∧ t.status = .active ∧ afterTenant row now r = .findUser row now) ∨
      afterTenant row now r = .revoke row.familyId now := by
  by_cases h : r.map Tenant.status = some .active
  · obtain ⟨t, ht, ha⟩ := Option.map_eq_some_iff.mp h
    exact Or.inl ⟨t, ht, ha, if_pos h⟩
  · exact Or.inr (if_neg h)

theorem afterUser_cases (row : RefreshToken) (now : Int) (r : Option AuthRecord) :
    (∃ x role, r = some x ∧ x.status = userActive ∧ x.role = some role ∧
        afterUser row now r = .rotate row now x role) ∨
      afterUser row now r = .revoke row.familyId now := by
  cases r with
  | none => exact Or.inr rfl
  | some x =>
    unfold afterUser
    simp only
    split
    · exact Or.inr rfl
    · rename_i hs
      cases hr : x.role with
      | none => exact Or.inr rfl
      | some role => exact Or.inl ⟨x, role, rfl, not_not.mp hs, hr, rfl⟩

theorem RefreshMove.sound {c c' : RefreshCall} (hm : RefreshMove d c c')
    (h : RefreshSound l c.token c.phase) :
    RefreshSound (l ++ refreshEvents d (some c) (some c')) c'.token c'.phase := by
  cases hm with
  | @tenant p row now ht hp =>
    rcases afterTenant_cases row now (d.findById p.tenantId) with ⟨t, hf, ha, he⟩ | he
    · have hr : c.reads d = [.findById p.tenantId (some t)] := by
        rw [RefreshCall.reads, ht, hp]
        simp only [hf]
      have hne : afterTenant row now (d.findById p.tenantId) ≠ c.phase := by
        rw [he, hp]
        exact fun hc => by cases hc
      rw [refreshEvents_eq hne, hr]
      simp only [he]
      intro q hq
      obtain rfl := Option.some.inj (ht.symm.trans hq)
      exact tenantRead_of_mem (List.mem_append_left _ List.mem_cons_self) (decide_eq_true ⟨rfl, ha⟩)
    · simp only [he]
      trivial
  | @user p row now ht hp =>
    rw [hp] at h
    rcases afterUser_cases row now (d.findCredentialsById p.tenantId row.userId) with ⟨x, role, hx, hs, hro, he⟩ | he
    · have hr : c.reads d = [.findCredentialsById p.tenantId row.userId (some x)] := by
        rw [RefreshCall.reads, ht, hp]
        simp only [hx]
      have hne : afterUser row now (d.findCredentialsById p.tenantId row.userId) ≠ c.phase := by
        rw [he, hp]
        exact fun hc => by cases hc
      rw [refreshEvents_eq hne, hr]
      simp only [he]
      intro q hq
      obtain rfl := Option.some.inj (ht.symm.trans hq)
      exact ⟨TenantRead.append (h p ht),
        userRead_of_mem (List.mem_append_left _ List.mem_cons_self) (userActive_of_id hs hro _ _)⟩
    · simp only [he]
      trivial
  | @rotate p row now record role token ht hp =>
    rw [hp] at h
    have hr : c.reads d = [] := by rw [RefreshCall.reads, ht, hp]
    have hne : RefreshPhase.done (.session ⟨token, role, p.tenantId, record.id⟩) ≠ c.phase := by
      rw [hp]
      exact fun hc => by cases hc
    rw [refreshEvents_eq hne, hr]
    exact ⟨l, [], rfl, (h p ht).2, (h p ht).1⟩
  | other ho => exact ho _

/-! ## Steps of logins and refreshes -/

theorem login_step {s t : Sessions} (h : Sessions.Step deps s t) (i : Nat) :
    t.logins i = s.logins i ∨ (∃ cmd, s.logins i = none ∧ t.logins i = some ⟨cmd, .findTenant⟩) ∨
      ∃ c c', s.logins i = some c ∧ t.logins i = some c' ∧ LoginMove deps s.directory c c' := by
  have hmove : ∀ {j : Nat} {c c' : LoginCall}, s.logins j = some c → t.logins = Function.update s.logins j (some c') →
      LoginMove deps s.directory c c' → t.logins i = s.logins i ∨
        ∃ c c', s.logins i = some c ∧ t.logins i = some c' ∧ LoginMove deps s.directory c c' := by
    intro j c c' hc ht hm
    rw [ht]
    rcases Runs.update_apply_cases s.logins j i (some c') with he | ⟨rfl, he⟩
    · exact Or.inl he
    · exact Or.inr ⟨c, c', hc, he, hm⟩
  cases h with
  | @login j cmd hn =>
    rcases Runs.update_apply_cases s.logins j i _ with he | ⟨rfl, he⟩
    · exact Or.inl he
    · exact Or.inr (Or.inl ⟨cmd, hn, he⟩)
  | loginTenant hc hp => exact (hmove hc rfl (.tenant hp)).imp_right Or.inr
  | loginCredentials hc hp => exact (hmove hc rfl (.credentials hp)).imp_right Or.inr
  | @loginMint j c tenant record role familyId id secret now hc hp hf hid =>
    exact (hmove hc rfl (.mint _ hp)).imp_right Or.inr
  | _ => exact Or.inl rfl

theorem refreshSound_afterFind (l : List CallEvent) (token : Option Presented) (p : Presented)
    (row : Option RefreshToken) (now : Int) : RefreshSound l token (afterFind deps p row now) := by
  unfold afterFind
  split
  · trivial
  · split
    · trivial
    · split
      · trivial
      · split <;> trivial

theorem refreshSound_new (l : List CallEvent) (tokens : TokenTable) (raw : Bytes) :
    RefreshSound l (Sessions.refreshCall deps tokens raw).token (Sessions.refreshCall deps tokens raw).phase := by
  unfold Sessions.refreshCall
  split
  · trivial
  · split <;> trivial

theorem refresh_step {s t : Sessions} (h : Sessions.Step deps s t) (i : Nat) :
    t.refreshes i = s.refreshes i ∨ (s.refreshes i = none ∧ ∃ c', t.refreshes i = some c' ∧
        ∀ l, RefreshSound l c'.token c'.phase) ∨
      ∃ c c', s.refreshes i = some c ∧ t.refreshes i = some c' ∧ RefreshMove s.directory c c' := by
  have hmove : ∀ {j : Nat} {c c' : RefreshCall}, s.refreshes j = some c →
      t.refreshes = Function.update s.refreshes j (some c') → RefreshMove s.directory c c' →
      t.refreshes i = s.refreshes i ∨
        ∃ c c', s.refreshes i = some c ∧ t.refreshes i = some c' ∧ RefreshMove s.directory c c' := by
    intro j c c' hc ht hm
    rw [ht]
    rcases Runs.update_apply_cases s.refreshes j i (some c') with he | ⟨rfl, he⟩
    · exact Or.inl he
    · exact Or.inr ⟨c, c', hc, he, hm⟩
  cases h with
  | @refresh j raw hn =>
    rcases Runs.update_apply_cases s.refreshes j i _ with he | ⟨rfl, he⟩
    · exact Or.inl he
    · exact Or.inr (Or.inl ⟨hn, _, he, fun l => refreshSound_new l s.tokens raw⟩)
  | @refreshFind j c p now hc ht hp =>
    exact (hmove hc rfl (.other fun l => refreshSound_afterFind l _ p _ now)).imp_right Or.inr
  | refreshTenant hc ht hp => exact (hmove hc rfl (.tenant ht hp)).imp_right Or.inr
  | refreshUser hc ht hp => exact (hmove hc rfl (.user ht hp)).imp_right Or.inr
  | @refreshRotate j c p row now record role tokens secret id hc ht hp hf hr =>
    exact (hmove hc rfl (.rotate _ ht hp)).imp_right Or.inr
  | @refreshLost j c p row now record role secret id hc ht hp hr =>
    exact (hmove hc rfl (.other fun l => trivial)).imp_right Or.inr
  | refreshRevoke hc ht hp => exact (hmove hc rfl (.other fun l => trivial)).imp_right Or.inr
  | _ => exact Or.inl rfl

/-! ## Callbacks -/

def CallbackSound (l : List CallEvent) : CallbackPhase → Prop
  | .mint f _ record _ => UserRead l f.tenantId record.id
  | .done (.session t _) => MintedAfter (fun _ => True) l t
  | _ => True

theorem callbackSound_afterConsumeState (l : List CallEvent) (r : Option OAuthStateRecord) :
    CallbackSound l (.afterConsumeState r) := by
  cases r with
  | none => trivial
  | some r =>
    unfold CallbackPhase.afterConsumeState
    simp only
    split <;> trivial

theorem callbackSound_afterFindByEmail (l : List CallEvent) (oidc : OidcDeps) (cmd : OidcCallbackCommand)
    (f : OAuthFlow) (claims : GoogleClaims) (r : Option AuthRecord) :
    CallbackSound l (.afterFindByEmail oidc cmd f claims r) := by
  cases r with
  | some record => trivial
  | none =>
    unfold CallbackPhase.afterFindByEmail
    simp only
    split
    · split <;> trivial
    · trivial

theorem callbackSound_afterFindUser (l : List CallEvent) (f : OAuthFlow) (claims : GoogleClaims) (userId : Uuid)
    (r : Option AuthRecord) :
    CallbackSound (l ++ [.findCredentialsById f.tenantId userId r]) (.afterFindUser f claims r) := by
  cases r with
  | none => trivial
  | some x =>
    unfold CallbackPhase.afterFindUser
    simp only
    split
    · trivial
    · rename_i hs
      cases hr : x.role with
      | none => trivial
      | some role =>
        exact userRead_of_mem List.mem_cons_self (userActive_of_id (not_not.mp hs) hr _ _)

namespace SessionReads

def NoTenantRead (l : List CallEvent) : Prop := ∀ e ∈ l, ∀ tenantId, e.tenantActive tenantId = false

structure Inv (s : SessionReads) : Prop where
  logins : ∀ i c, s.sessions.logins i = some c → LoginSound (s.log (.login i)) c.phase
  refreshes : ∀ i c, s.sessions.refreshes i = some c → RefreshSound (s.log (.refresh i)) c.token c.phase
  callbacks : ∀ i c, s.callbacks i = some c → CallbackSound (s.log (.callback i)) c.phase
  tenants : ∀ i, NoTenantRead (s.log (.callback i))

variable {oidc : OidcDeps} {s t : SessionReads} {i : Nat}

theorem Inv.session (h : s.Inv) {x : Sessions} (hst : Sessions.Step deps s.sessions x) :
    Inv { s with sessions := x, log := fun id => s.log id ++ Sessions.events deps s.sessions x id } := by
  refine ⟨?_, ?_, ?_, ?_⟩
  · intro i c' hc'
    rcases login_step hst i with he | ⟨cmd, -, hn⟩ | ⟨c, c'', hc, he, hm⟩
    · exact (h.logins i c' (he.symm.trans hc')).append
    · obtain rfl := Option.some.inj (hc'.symm.trans hn)
      trivial
    · obtain rfl := Option.some.inj (hc'.symm.trans he)
      have hs := hm.sound (h.logins i c hc)
      rw [← hc, ← hc'] at hs
      exact hs
  · intro i c' hc'
    rcases refresh_step hst i with he | ⟨-, c'', hn, hall⟩ | ⟨c, c'', hc, he, hm⟩
    · exact (h.refreshes i c' (he.symm.trans hc')).append
    · obtain rfl := Option.some.inj (hc'.symm.trans hn)
      exact hall _
    · obtain rfl := Option.some.inj (hc'.symm.trans he)
      have hs := hm.sound (h.refreshes i c hc)
      rw [← hc, ← hc'] at hs
      exact hs
  · intro i c hc
    have he : s.log (.callback i) ++ Sessions.events deps s.sessions x (.callback i) = s.log (.callback i) :=
      List.append_nil _
    simp only [he]
    exact h.callbacks i c hc
  · intro i e he
    exact h.tenants i e (by simpa [Sessions.events] using he)

theorem Inv.moveCallback (h : s.Inv) {c : CallbackCall} {events : List CallEvent} (hn : NoTenantRead events)
    (hc : CallbackSound (s.log (.callback i) ++ events) c.phase) : (s.moveCallback i c events).Inv := by
  refine ⟨h.logins, h.refreshes, ?_, ?_⟩
  · intro j d hd
    rcases Runs.update_cases hd with ⟨rfl, rfl⟩ | ⟨e, hd⟩
    · have he : (s.moveCallback j d events).log (.callback j) = s.log (.callback j) ++ events := Function.update_self ..
      rw [he]
      exact hc
    · have he : (s.moveCallback i c events).log (.callback j) = s.log (.callback j) :=
        Function.update_of_ne (fun hk => e (CallId.callback.inj hk)) ..
      rw [he]
      exact h.callbacks j d hd
  · intro j
    by_cases e : j = i
    · have he : (s.moveCallback i c events).log (.callback j) = s.log (.callback i) ++ events := by
        rw [e]
        exact Function.update_self ..
      rw [he]
      intro x hx
      rcases List.mem_append.mp hx with hx | hx
      · exact h.tenants i x hx
      · exact hn x hx
    · have he : (s.moveCallback i c events).log (.callback j) = s.log (.callback j) :=
        Function.update_of_ne (fun hk => e (CallId.callback.inj hk)) ..
      rw [he]
      exact h.tenants j

theorem noTenantRead_nil : NoTenantRead [] := by
  intro e he
  cases he

theorem noTenantRead_singleton {e : CallEvent} (he : ∀ tenantId, e.tenantActive tenantId = false) :
    NoTenantRead [e] := by
  intro x hx
  rw [List.mem_singleton.mp hx]
  exact he

theorem Inv.step (h : s.Inv) (hst : Step deps oidc s t) : t.Inv := by
  cases hst with
  | session hs => exact h.session hs
  | beginAuthorize slug state codeVerifier nonce returnTo hf ha => exact ⟨h.logins, h.refreshes, h.callbacks, h.tenants⟩
  | expireState r => exact ⟨h.logins, h.refreshes, h.callbacks, h.tenants⟩
  | callback cmd hn => exact h.moveCallback noTenantRead_nil trivial
  | consumeState hc hp =>
    refine Inv.moveCallback ?_ noTenantRead_nil (callbackSound_afterConsumeState _ _)
    exact ⟨h.logins, h.refreshes, h.callbacks, h.tenants⟩
  | exchange r hc hp =>
    refine h.moveCallback noTenantRead_nil ?_
    cases r <;> trivial
  | verify r hc hp =>
    refine h.moveCallback noTenantRead_nil ?_
    cases r <;> trivial
  | findIdentity r hc hp =>
    refine h.moveCallback noTenantRead_nil ?_
    cases r <;> trivial
  | findByEmail hc hp =>
    exact h.moveCallback (noTenantRead_singleton fun _ => rfl) (callbackSound_afterFindByEmail _ oidc _ _ _ _)
  | provision r hc hp =>
    refine h.moveCallback noTenantRead_nil ?_
    cases r <;> trivial
  | link r hc hp =>
    refine h.moveCallback noTenantRead_nil ?_
    cases r <;> trivial
  | findUser hc hp =>
    exact h.moveCallback (noTenantRead_singleton fun _ => rfl) (callbackSound_afterFindUser _ _ _ _ _)
  | @mint i c f claims record role familyId tokenId secret now hc hp hf hid =>
    have hu := h.callbacks i c hc
    rw [hp] at hu
    refine Inv.moveCallback ?_ ?_ ?_
    · exact ⟨h.logins, h.refreshes, h.callbacks, h.tenants⟩
    · exact noTenantRead_singleton fun _ => rfl
    · exact ⟨_, [], rfl, hu, trivial⟩
  | fail hc hd => exact h.moveCallback noTenantRead_nil trivial

theorem inv_reachable (hr : (system deps oidc).Reachable s) : s.Inv := by
  apply hr.invariant (P := Inv)
  · intro s hs
    obtain ⟨⟨-, hl, hre, -⟩, -, hcb, hlog⟩ := hs
    refine ⟨?_, ?_, ?_, ?_⟩
    · intro i c hc
      rw [hl] at hc
      cases hc
    · intro i c hc
      rw [hre] at hc
      cases hc
    · intro i c hc
      rw [hcb] at hc
      cases hc
    · intro i
      rw [hlog]
      exact noTenantRead_nil
  · intro s t _ hs h
    exact hs.step h

/-- **Reads before sessions.** A call that returns a session has, before it minted it, read the user as active and with
a role. It has read the tenant as active exactly if it is not a callback. -/
theorem session_reads (hr : (system deps oidc).Reachable s) {id : CallId} {tokens : SessionTokens}
    (h : s.Returns tokens id) :
    ∃ l₁ l₂, s.log id = l₁ ++ .mint tokens :: l₂ ∧
      (∃ e ∈ l₁, e.userActive tokens.tenantId tokens.userId = true) ∧
      ((∃ e ∈ l₁, e.tenantActive tokens.tenantId = true) ↔ id.isCallback = false) := by
  have hI := inv_reachable hr
  cases id with
  | login i =>
    obtain ⟨c, hc, hp⟩ := h
    have hs := hI.logins i c hc
    rw [hp] at hs
    obtain ⟨l₁, l₂, hl, hu, ht⟩ := hs
    exact ⟨l₁, l₂, hl, hu, fun _ => rfl, fun _ => ht⟩
  | refresh i =>
    obtain ⟨c, hc, hp⟩ := h
    have hs := hI.refreshes i c hc
    rw [hp] at hs
    obtain ⟨l₁, l₂, hl, hu, ht⟩ := hs
    exact ⟨l₁, l₂, hl, hu, fun _ => rfl, fun _ => ht⟩
  | callback i =>
    obtain ⟨c, returnTo, hc, hp⟩ := h
    have hs := hI.callbacks i c hc
    rw [hp] at hs
    obtain ⟨l₁, l₂, hl, hu, -⟩ := hs
    refine ⟨l₁, l₂, hl, hu, ?_, fun hn => by cases hn⟩
    intro ht
    obtain ⟨e, he, ha⟩ := ht
    have hno := hI.tenants i e (by rw [hl]; exact List.mem_append_left _ he) tokens.tenantId
    rw [hno] at ha
    cases ha

/-! ## Runs -/

def sampleDeps : AuthDeps :=
  { sha256 := fun b => b
    verify := fun password hash => password = hash
    dummyHash := bs "none"
    normalizeEmail := fun b => b
    refreshTtlSeconds := 3600 }

def sampleOidc : OidcDeps :=
  { sha256 := fun b => b, normalizeEmail := fun b => b, refreshTtlSeconds := 3600, inviteProvisioner := false }

def sampleRecord : AuthRecord := ⟨.rep 2, bs "secret", userActive, some .member⟩

def sampleDirectory (status : TenantStatus) : Directory :=
  { findByPublicId := fun slug => if slug = bs "acme" then some ⟨.rep 17, status⟩ else none
    findById := fun id => if id = .rep 17 then some ⟨.rep 17, status⟩ else none
    findCredentialsByEmail := fun t email =>
      if t = .rep 17 ∧ email = bs "ada@acme.test" then some sampleRecord else none
    findCredentialsById := fun t id => if t = .rep 17 ∧ id = .rep 2 then some sampleRecord else none }

def sampleSessions (status : TenantStatus) (tokens : TokenTable) : Sessions :=
  ⟨tokens, sampleDirectory status, fun _ => none, fun _ => none, fun _ => none⟩

def sampleFlow : OAuthFlow := ⟨.rep 17, bs "verifier", bs "nonce", bs "/"⟩

def sampleClaims : GoogleClaims := ⟨bs "1001", bs "ada@acme.test"⟩

def sampleState : OAuthStateRecord := ⟨bs "xyz", .rep 17, some (bs "verifier"), some (bs "nonce"), some (bs "/")⟩

def sampleCall (ph : CallbackPhase) : CallbackCall := ⟨⟨bs "code", bs "xyz", none⟩, ph, none, none⟩

def sampleTokens : SessionTokens :=
  ⟨assembleRefreshToken (uuidOut (.rep 17)) (uuidOut (.rep 9)) (bs "fresh"), .member, .rep 17, .rep 2⟩

def quiet (ss : Sessions) (rs : List OAuthStateRecord) : SessionReads := ⟨ss, rs, fun _ => none, fun _ => []⟩

def lone (ss : Sessions) (rs : List OAuthStateRecord) (c : CallbackCall) (l : List CallEvent) : SessionReads :=
  ⟨ss, rs, fun i => if i = 0 then some c else none, fun id => if id = .callback 0 then l else []⟩

theorem reachable_lone {ss ss' : Sessions} {rs rs' : List OAuthStateRecord} {b c : CallbackCall} {l l' : List CallEvent}
    (hr : (system sampleDeps sampleOidc).Reachable (lone ss rs b l))
    (h : Step sampleDeps sampleOidc (lone ss rs b l) ((lone ss' rs' b l).moveCallback 0 c l')) :
    (system sampleDeps sampleOidc).Reachable (lone ss' rs' c (l ++ l')) := by
  unfold SessionReads.moveCallback lone at h
  rw [Runs.update_lone fun i e => if_neg e, Runs.update_lone fun id e => if_neg e] at h
  simp only [if_true] at h
  exact hr.step h

theorem suspended_reachable :
    (system sampleDeps sampleOidc).Reachable (quiet (sampleSessions .suspended []) [sampleState]) := by
  have hf : (quiet (sampleSessions .active []) []).sessions.directory.findByPublicId (bs "acme") =
      some ⟨.rep 17, .active⟩ := rfl
  have h1 : Step sampleDeps sampleOidc (quiet (sampleSessions .active []) [])
      (quiet (sampleSessions .active []) [sampleState]) :=
    .beginAuthorize (bs "acme") (bs "xyz") (bs "verifier") (bs "nonce") (bs "/") hf rfl
  have h2 : Step sampleDeps sampleOidc (quiet (sampleSessions .active []) [sampleState])
      (quiet (sampleSessions .suspended []) [sampleState]) := by
    have he : quiet (sampleSessions .suspended []) [sampleState] =
        { quiet (sampleSessions .active []) [sampleState] with
          sessions := sampleSessions .suspended []
          log := fun id => (quiet (sampleSessions .active []) [sampleState]).log id ++
            Sessions.events sampleDeps (sampleSessions .active []) (sampleSessions .suspended []) id } := by
      unfold quiet
      congr 1
      funext id
      cases id <;> rfl
    rw [he]
    exact .session (.administer (sampleDirectory .suspended))
  exact .step (.step (.init ⟨⟨rfl, rfl, rfl, rfl⟩, rfl, rfl, rfl⟩) h1) h2

def sampleLog : List CallEvent :=
  [.findCredentialsById (.rep 17) (.rep 2) (some sampleRecord), .mint sampleTokens]

def sampleMinted : TokenTable :=
  TokenTable.create [] (.rep 17) ⟨.rep 8, .rep 2, bs "fresh", 3600000⟩ (.rep 9)

theorem freshFamily_nil : Sessions.FreshFamily [] (.rep 8) := by
  intro r hr
  cases hr

theorem fresh_nil : Sessions.Fresh [] (.rep 9) := by
  intro r hr
  cases hr

def sampleEnd : SessionReads :=
  lone (sampleSessions .suspended sampleMinted) [] (sampleCall (.done (.session sampleTokens (bs "/")))) sampleLog

theorem sampleEnd_reachable : (system sampleDeps sampleOidc).Reachable sampleEnd := by
  have h1 : (system sampleDeps sampleOidc).Reachable
      (lone (sampleSessions .suspended []) [sampleState] (sampleCall .consumeState) []) := by
    have h : Step sampleDeps sampleOidc (quiet (sampleSessions .suspended []) [sampleState])
        ((quiet (sampleSessions .suspended []) [sampleState]).moveCallback 0 (sampleCall .consumeState) []) :=
      .callback ⟨bs "code", bs "xyz", none⟩ rfl
    unfold SessionReads.moveCallback quiet at h
    rw [Runs.update_lone fun i _ => rfl, Runs.update_lone fun id _ => rfl] at h
    exact suspended_reachable.step h
  have h2 : (system sampleDeps sampleOidc).Reachable
      (lone (sampleSessions .suspended []) [] (sampleCall (.exchange sampleFlow)) []) :=
    reachable_lone h1 (.consumeState (c := sampleCall .consumeState) rfl rfl)
  have h3 : (system sampleDeps sampleOidc).Reachable
      (lone (sampleSessions .suspended []) [] (sampleCall (.verify sampleFlow (bs "token"))) []) :=
    reachable_lone h2 (.exchange (c := sampleCall (.exchange sampleFlow)) (.ok (bs "token")) rfl rfl)
  have h4 : (system sampleDeps sampleOidc).Reachable
      (lone (sampleSessions .suspended []) [] (sampleCall (.findIdentity sampleFlow sampleClaims)) []) :=
    reachable_lone h3 (.verify (c := sampleCall (.verify sampleFlow (bs "token"))) (.ok sampleClaims) rfl rfl)
  have h5 : (system sampleDeps sampleOidc).Reachable
      (lone (sampleSessions .suspended []) [] (sampleCall (.findUser sampleFlow sampleClaims (.rep 2))) []) :=
    reachable_lone h4
      (.findIdentity (c := sampleCall (.findIdentity sampleFlow sampleClaims)) (some ⟨.rep 3, .rep 2⟩) rfl rfl)
  have h6 : (system sampleDeps sampleOidc).Reachable
      (lone (sampleSessions .suspended []) [] (sampleCall (.mint sampleFlow sampleClaims sampleRecord .member))
        [.findCredentialsById (.rep 17) (.rep 2) (some sampleRecord)]) :=
    reachable_lone h5 (.findUser (c := sampleCall (.findUser sampleFlow sampleClaims (.rep 2))) rfl rfl)
  exact reachable_lone h6 (.mint (c := sampleCall (.mint sampleFlow sampleClaims sampleRecord .member)) (.rep 8)
    (.rep 9) (bs "fresh") 0 rfl rfl freshFamily_nil fresh_nil)

/-- A callback returns a session for a tenant that is suspended while it runs, and has not read the tenant. -/
theorem suspended_tenant_signed_in : (system sampleDeps sampleOidc).Reachable sampleEnd ∧
    sampleEnd.Returns sampleTokens (.callback 0) ∧
    sampleEnd.sessions.directory.findById sampleTokens.tenantId = some ⟨.rep 17, .suspended⟩ ∧
    ∀ e ∈ sampleEnd.log (.callback 0), e.tenantActive sampleTokens.tenantId = false :=
  ⟨sampleEnd_reachable, ⟨_, _, rfl, rfl⟩, rfl, by decide⟩

/-- A login that returns a session has read the tenant and the user. -/
theorem login_reads_tenant : ∃ (s : SessionReads) (tokens : SessionTokens) (l₁ l₂ : List CallEvent),
    (system sampleDeps sampleOidc).Reachable s ∧ s.Returns tokens (.login 0) ∧
    s.log (.login 0) = l₁ ++ .mint tokens :: l₂ ∧ (∃ e ∈ l₁, e.userActive tokens.tenantId tokens.userId = true) ∧
    ∃ e ∈ l₁, e.tenantActive tokens.tenantId = true := by
  let cmd : LoginCommand := ⟨bs "acme", bs "ada@acme.test", bs "secret"⟩
  have h0 : (system sampleDeps sampleOidc).Reachable (quiet (sampleSessions .active []) []) :=
    .init ⟨⟨rfl, rfl, rfl, rfl⟩, rfl, rfl, rfl⟩
  have h1 := Runs.System.Reachable.step h0 (.session (.login (i := 0) cmd rfl))
  have h2 := Runs.System.Reachable.step h1 (.session (.loginTenant (i := 0) (c := ⟨cmd, .findTenant⟩) rfl rfl))
  have h3 := Runs.System.Reachable.step h2
    (.session (.loginCredentials (i := 0) (c := ⟨cmd, .findCredentials ⟨.rep 17, .active⟩⟩) rfl rfl))
  have h4 := Runs.System.Reachable.step h3
    (.session (.loginMint (i := 0) (c := ⟨cmd, .mint ⟨.rep 17, .active⟩ sampleRecord .member⟩) (.rep 8) (.rep 9)
      (bs "fresh") 0 rfl rfl freshFamily_nil fresh_nil))
  obtain ⟨l₁, l₂, hl, hu, ht⟩ := session_reads h4 (show Returns _ sampleTokens (.login 0) from ⟨_, rfl, rfl⟩)
  exact ⟨_, sampleTokens, l₁, l₂, h4, ⟨_, rfl, rfl⟩, hl, hu, ht.mpr rfl⟩

end SessionReads

end Logalot
