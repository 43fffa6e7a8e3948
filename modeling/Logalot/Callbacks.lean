import Logalot.Accounts
import Logalot.Sessions

/-!
# The callback of the identity provider

`handleCallback` of `oidc-authenticator.ts`: a step of a call is one call of a
port with the decision taken on its result. The two that write, provisioning and
the first link, are transactions of which the call awaits the end.
-/

namespace Logalot

open Go Pg Mvcc

/-! ## Decisions -/

structure OAuthStateRecord where
  state : Bytes
  tenantId : Uuid
  codeVerifier : Option Bytes
  nonce : Option Bytes
  returnTo : Option Bytes
  deriving DecidableEq

structure OidcCallbackCommand where
  code : Bytes
  state : Bytes
  inviteTokenHash : Option Bytes
  deriving DecidableEq

structure OAuthFlow where
  tenantId : Uuid
  codeVerifier : Bytes
  nonce : Bytes
  returnTo : Bytes
  deriving DecidableEq

structure GoogleClaims where
  sub : Bytes
  email : Bytes
  deriving DecidableEq

inductive Upstream (α : Type) where
  | ok (a : α)
  | unavailable
  | rejected
  deriving DecidableEq

/-- `failed` is an error of the database or of a store. -/
inductive OidcOutcome where
  | session (tokens : SessionTokens) (returnTo : Bytes)
  | unauthorized (message : Bytes)
  | unavailable
  | failed
  deriving DecidableEq

inductive CallbackPhase where
  | consumeState
  | exchange (f : OAuthFlow)
  | verify (f : OAuthFlow) (idToken : Bytes)
  | findIdentity (f : OAuthFlow) (claims : GoogleClaims)
  | findByEmail (f : OAuthFlow) (claims : GoogleClaims)
  | provision (f : OAuthFlow) (claims : GoogleClaims) (inviteTokenHash : Bytes)
  | link (f : OAuthFlow) (claims : GoogleClaims) (userId : Uuid)
  | findUser (f : OAuthFlow) (claims : GoogleClaims) (userId : Uuid)
  | mint (f : OAuthFlow) (claims : GoogleClaims) (record : AuthRecord) (role : Role)
  | done (o : OidcOutcome)
  deriving DecidableEq

structure OidcDeps where
  sha256 : Bytes → Bytes
  normalizeEmail : Bytes → Bytes
  refreshTtlSeconds : Int
  /-- Invites can be accepted. -/
  inviteProvisioner : Bool

namespace CallbackPhase

def reject (message : Bytes) : CallbackPhase := .done (.unauthorized message)

def noAccount : CallbackPhase := reject (bs "no provisioned account for this Google identity")

/-- An empty text counts as missing. -/
def afterConsumeState : Option OAuthStateRecord → CallbackPhase
  | none => reject (bs "invalid or expired OAuth state")
  | some r =>
    let codeVerifier := r.codeVerifier.getD []
    let nonce := r.nonce.getD []
    if codeVerifier = [] ∨ nonce = [] then reject (bs "malformed OAuth state record")
    else .exchange ⟨r.tenantId, codeVerifier, nonce, r.returnTo.getD (bs "/")⟩

def afterExchange (f : OAuthFlow) : Upstream Bytes → CallbackPhase
  | .ok idToken => .verify f idToken
  | .unavailable => .done .unavailable
  | .rejected => reject (bs "token exchange failed")

def afterVerify (f : OAuthFlow) : Upstream GoogleClaims → CallbackPhase
  | .ok claims => .findIdentity f claims
  | .unavailable => .done .unavailable
  | .rejected => reject (bs "id_token verification failed")

def afterFindIdentity (f : OAuthFlow) (claims : GoogleClaims) : Option OAuthIdentityRef → CallbackPhase
  | some ref => .findUser f claims ref.userId
  | none => .findByEmail f claims

def afterFindByEmail (deps : OidcDeps) (cmd : OidcCallbackCommand) (f : OAuthFlow) (claims : GoogleClaims) :
    Option AuthRecord → CallbackPhase
  | some record => .link f claims record.id
  | none =>
    match cmd.inviteTokenHash with
    | some hash => if deps.inviteProvisioner then .provision f claims hash else noAccount
    | none => noAccount

def afterProvision (f : OAuthFlow) (claims : GoogleClaims) : Option Uuid → CallbackPhase
  | some userId => .findUser f claims userId
  | none => noAccount

/-- `none` is a `ConflictError`. -/
def afterLink (f : OAuthFlow) (claims : GoogleClaims) : Option OAuthIdentityRef → CallbackPhase
  | some ref => .findUser f claims ref.userId
  | none => noAccount

def afterFindUser (f : OAuthFlow) (claims : GoogleClaims) : Option AuthRecord → CallbackPhase
  | none => reject (bs "account is not active")
  | some record =>
    if record.status ≠ userActive then reject (bs "account is not active")
    else
      match record.role with
      | none => reject (bs "account is not active")
      | some role => .mint f claims record role

/-- `mintSession` with the id and the secret of the new refresh token. -/
def minted (f : OAuthFlow) (record : AuthRecord) (role : Role) (tokenId : Uuid) (secret : Bytes) : CallbackPhase :=
  .done (.session
    ⟨assembleRefreshToken (uuidOut f.tenantId) (uuidOut tokenId) secret, role, f.tenantId, record.id⟩ f.returnTo)

def isDone : CallbackPhase → Bool
  | .done _ => true
  | _ => false

end CallbackPhase

/-! ## Queries -/

def MembershipRole.role : MembershipRole → Role
  | .tenantAdmin => .tenantAdmin
  | .member => .member

namespace AccountHeap

def membershipRole (tenantId userId : Uuid) (h : AccountHeap) : Option MembershipRole :=
  h.findSome? fun s =>
    match s.committed with
    | some (.membership m) => if m.tenantId = tenantId ∧ m.userId = userId then some m.role else none
    | _ => none

/-- `SELECT_AUTH` for the users of a tenant that meet a condition. -/
def findCredentials (tenantId : Uuid) (p : User → Bool) (h : AccountHeap) : Option AuthRecord :=
  h.findSome? fun s =>
    match s.committed with
    | some (.user u) =>
      if u.tenantId = tenantId ∧ p u = true then
        some
          { id := u.id
            passwordHash := u.passwordHash
            status := u.status
            role :=
              if u.isPlatformOperator then some .platformOperator
              else (membershipRole tenantId u.id h).map MembershipRole.role }
      else none
    | _ => none

def findCredentialsByEmail (tenantId : Uuid) (email : Bytes) (h : AccountHeap) : Option AuthRecord :=
  findCredentials tenantId (fun u => u.email = email) h

def findCredentialsById (tenantId id : Uuid) (h : AccountHeap) : Option AuthRecord :=
  findCredentials tenantId (fun u => u.id = id) h

end AccountHeap

/-! ## Calls -/

/-- `sub` is the one that was verified, `tx` the transaction the call awaits. -/
structure CallbackCall where
  cmd : OidcCallbackCommand
  phase : CallbackPhase
  sub : Option Bytes
  tx : Option Nat
  deriving DecidableEq

structure Callbacks where
  accounts : Accounts
  states : List OAuthStateRecord
  calls : Nat → Option CallbackCall

namespace Callbacks

def setCall (s : Callbacks) (i : Nat) (c : CallbackCall) : Callbacks :=
  { s with calls := Function.update s.calls i (some c) }

def await (s : Callbacks) (i : Nat) (c : CallbackCall) (j : Nat) (x : AccountTx) : Callbacks :=
  { s with accounts := s.accounts.setTx j x }.setCall i { c with tx := some j }

def provisionInput (deps : OidcDeps) (claims : GoogleClaims) (inviteTokenHash : Bytes) (now : Int) :
    InviteProvisionInput :=
  { email := deps.normalizeEmail claims.email, inviteTokenHash, providerSub := claims.sub, now }

def linkInput (deps : OidcDeps) (claims : GoogleClaims) (userId : Uuid) : NewOAuthIdentity :=
  { userId, provider := .google, providerSub := claims.sub, email := deps.normalizeEmail claims.email }

inductive Step (deps : OidcDeps) : Callbacks → Callbacks → Prop where
  /-- A statement of a transaction, or a new one: an update of `last_login_at` is not awaited. -/
  | account {s : Callbacks} {a : Accounts} : Accounts.Step s.accounts a → Step deps s { s with accounts := a }
  | putState {s : Callbacks} (r : OAuthStateRecord) : Step deps s { s with states := r :: s.states }
  | expireState {s : Callbacks} (r : OAuthStateRecord) : Step deps s { s with states := s.states.erase r }
  | callback {s : Callbacks} {i : Nat} (cmd : OidcCallbackCommand) :
    s.calls i = none → Step deps s (s.setCall i ⟨cmd, .consumeState, none, none⟩)
  | consumeState {s : Callbacks} {i : Nat} {c : CallbackCall} :
    s.calls i = some c → c.phase = .consumeState →
    Step deps s ({ s with states := s.states.filter fun r => r.state ≠ c.cmd.state }.setCall i { c with
      phase := .afterConsumeState (s.states.find? fun r => r.state = c.cmd.state) })
  | exchange {s : Callbacks} {i : Nat} {c : CallbackCall} {f : OAuthFlow} (r : Upstream Bytes) :
    s.calls i = some c → c.phase = .exchange f →
    Step deps s (s.setCall i { c with phase := .afterExchange f r })
  | verify {s : Callbacks} {i : Nat} {c : CallbackCall} {f : OAuthFlow} {idToken : Bytes}
      (r : Upstream GoogleClaims) :
    s.calls i = some c → c.phase = .verify f idToken →
    Step deps s (s.setCall i { c with
      phase := .afterVerify f r
      sub := match r with | .ok claims => some claims.sub | _ => none })
  | findIdentity {s : Callbacks} {i : Nat} {c : CallbackCall} {f : OAuthFlow} {claims : GoogleClaims} :
    s.calls i = some c → c.phase = .findIdentity f claims →
    Step deps s (s.setCall i { c with
      phase := .afterFindIdentity f claims
        ((AccountHeap.findByProviderSub Slot.committed f.tenantId .google claims.sub s.accounts.heap).map
          OAuthIdentity.ref) })
  | findByEmail {s : Callbacks} {i : Nat} {c : CallbackCall} {f : OAuthFlow} {claims : GoogleClaims} :
    s.calls i = some c → c.phase = .findByEmail f claims →
    Step deps s (s.setCall i { c with
      phase := .afterFindByEmail deps c.cmd f claims
        (AccountHeap.findCredentialsByEmail f.tenantId (deps.normalizeEmail claims.email) s.accounts.heap) })
  | provision {s : Callbacks} {i j : Nat} {c : CallbackCall} {f : OAuthFlow} {claims : GoogleClaims} {hash : Bytes}
      (now : Int) :
    s.calls i = some c → c.phase = .provision f claims hash → c.tx = none → s.accounts.txs j = none →
    Step deps s (s.await i c j (.provision f.tenantId (provisionInput deps claims hash now) .begun))
  | provisioned {s : Callbacks} {i j : Nat} {c : CallbackCall} {f : OAuthFlow} {claims : GoogleClaims} {hash : Bytes}
      {t : Uuid} {n : InviteProvisionInput} {inviteId userId : Uuid} :
    s.calls i = some c → c.phase = .provision f claims hash → c.tx = some j →
    s.accounts.txs j = some (.provision t n (.provisioned inviteId userId)) →
    Step deps s (s.setCall i { c with phase := .afterProvision f claims (some userId) })
  | provisionRefused {s : Callbacks} {i j : Nat} {c : CallbackCall} {f : OAuthFlow} {claims : GoogleClaims}
      {hash : Bytes} {t : Uuid} {n : InviteProvisionInput} :
    s.calls i = some c → c.phase = .provision f claims hash → c.tx = some j →
    s.accounts.txs j = some (.provision t n .refused) →
    Step deps s (s.setCall i { c with phase := .afterProvision f claims none })
  | link {s : Callbacks} {i j : Nat} {c : CallbackCall} {f : OAuthFlow} {claims : GoogleClaims} {userId : Uuid} :
    s.calls i = some c → c.phase = .link f claims userId → c.tx = none → s.accounts.txs j = none →
    Step deps s (s.await i c j (.link f.tenantId (linkInput deps claims userId) .begun))
  | linked {s : Callbacks} {i j : Nat} {c : CallbackCall} {f : OAuthFlow} {claims : GoogleClaims} {userId t : Uuid}
      {n : NewOAuthIdentity} {ref : OAuthIdentityRef} :
    s.calls i = some c → c.phase = .link f claims userId → c.tx = some j →
    s.accounts.txs j = some (.link t n (.returned ref)) →
    Step deps s (s.setCall i { c with phase := .afterLink f claims (some ref) })
  | linkRefused {s : Callbacks} {i j : Nat} {c : CallbackCall} {f : OAuthFlow} {claims : GoogleClaims}
      {userId t : Uuid} {n : NewOAuthIdentity} :
    s.calls i = some c → c.phase = .link f claims userId → c.tx = some j →
    s.accounts.txs j = some (.link t n .refused) →
    Step deps s (s.setCall i { c with phase := .afterLink f claims none })
  | findUser {s : Callbacks} {i : Nat} {c : CallbackCall} {f : OAuthFlow} {claims : GoogleClaims} {userId : Uuid} :
    s.calls i = some c → c.phase = .findUser f claims userId →
    Step deps s (s.setCall i { c with
      phase := .afterFindUser f claims (AccountHeap.findCredentialsById f.tenantId userId s.accounts.heap) })
  | mint {s : Callbacks} {i : Nat} {c : CallbackCall} {f : OAuthFlow} {claims : GoogleClaims} {record : AuthRecord}
      {role : Role} (tokenId : Uuid) (secret : Bytes) :
    s.calls i = some c → c.phase = .mint f claims record role →
    Step deps s (s.setCall i { c with phase := .minted f record role tokenId secret })
  /-- A port throws something that is not handled. -/
  | fail {s : Callbacks} {i : Nat} {c : CallbackCall} :
    s.calls i = some c → c.phase.isDone = false →
    Step deps s (s.setCall i { c with phase := .done .failed })

def system (deps : OidcDeps) : Runs.System Callbacks :=
  { init := fun s => Accounts.system.init s.accounts ∧ s.calls = fun _ => none
    step := Step deps }

end Callbacks

end Logalot
