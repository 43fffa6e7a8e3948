import Logalot.Callbacks

/-!
# What the calls that mint sessions have read

Logins, refreshes and callbacks beside one another and beside administration.
Each call has a record of what it read of tenants and users and of the session
it minted. What the identity tables answer to a callback is left open.
-/

namespace Logalot

open Go Pg

inductive CallId where
  | login (i : Nat)
  | refresh (i : Nat)
  | callback (i : Nat)
  deriving DecidableEq

def CallId.isCallback : CallId → Bool
  | .callback _ => true
  | _ => false

inductive CallEvent where
  | findByPublicId (slug : Bytes) (r : Option Tenant)
  | findById (id : Uuid) (r : Option Tenant)
  | findCredentialsByEmail (tenantId : Uuid) (email : Bytes) (r : Option AuthRecord)
  | findCredentialsById (tenantId id : Uuid) (r : Option AuthRecord)
  | mint (tokens : SessionTokens)
  deriving DecidableEq

def CallEvent.tenantActive (tenantId : Uuid) : CallEvent → Bool
  | .findByPublicId _ (some t) => t.id = tenantId ∧ t.status = .active
  | .findById id (some t) => id = tenantId ∧ t.status = .active
  | _ => false

def AuthRecord.activeWithRole (r : AuthRecord) : Prop := r.status = userActive ∧ r.role ≠ none

instance (r : AuthRecord) : Decidable r.activeWithRole := inferInstanceAs (Decidable (_ ∧ _))

def CallEvent.userActive (tenantId userId : Uuid) : CallEvent → Bool
  | .findCredentialsByEmail t _ (some r) => t = tenantId ∧ r.id = userId ∧ r.activeWithRole
  | .findCredentialsById t _ (some r) => t = tenantId ∧ r.id = userId ∧ r.activeWithRole
  | _ => false

/-! ## Logins and refreshes -/

def LoginPhase.mints : LoginPhase → List CallEvent
  | .done (.session t) => [.mint t]
  | _ => []

def RefreshPhase.mints : RefreshPhase → List CallEvent
  | .done (.session t) => [.mint t]
  | _ => []

def LoginCall.reads (deps : AuthDeps) (d : Directory) (c : LoginCall) : List CallEvent :=
  match c.phase with
  | .findTenant => [.findByPublicId c.cmd.tenantSlug (d.findByPublicId c.cmd.tenantSlug)]
  | .findCredentials tenant =>
    [.findCredentialsByEmail tenant.id (deps.normalizeEmail c.cmd.email)
      (d.findCredentialsByEmail tenant.id (deps.normalizeEmail c.cmd.email))]
  | _ => []

def RefreshCall.reads (d : Directory) (c : RefreshCall) : List CallEvent :=
  match c.token, c.phase with
  | some p, .findTenant _ _ => [.findById p.tenantId (d.findById p.tenantId)]
  | some p, .findUser row _ =>
    [.findCredentialsById p.tenantId row.userId (d.findCredentialsById p.tenantId row.userId)]
  | _, _ => []

def loginEvents (deps : AuthDeps) (d : Directory) : Option LoginCall → Option LoginCall → List CallEvent
  | some c, some c' => if c'.phase = c.phase then [] else c.reads deps d ++ c'.phase.mints
  | _, _ => []

def refreshEvents (d : Directory) : Option RefreshCall → Option RefreshCall → List CallEvent
  | some c, some c' => if c'.phase = c.phase then [] else c.reads d ++ c'.phase.mints
  | _, _ => []

/-- What a call does in a step, as its phase before and after tells. -/
def Sessions.events (deps : AuthDeps) (s t : Sessions) : CallId → List CallEvent
  | .login i => loginEvents deps s.directory (s.logins i) (t.logins i)
  | .refresh i => refreshEvents s.directory (s.refreshes i) (t.refreshes i)
  | .callback _ => []

/-! ## Callbacks -/

structure SessionReads where
  sessions : Sessions
  states : List OAuthStateRecord
  callbacks : Nat → Option CallbackCall
  log : CallId → List CallEvent

namespace SessionReads

def moveCallback (s : SessionReads) (i : Nat) (c : CallbackCall) (events : List CallEvent) : SessionReads :=
  { s with
    callbacks := Function.update s.callbacks i (some c)
    log := Function.update s.log (.callback i) (s.log (.callback i) ++ events) }

inductive Step (deps : AuthDeps) (oidc : OidcDeps) : SessionReads → SessionReads → Prop where
  | session {s : SessionReads} {x : Sessions} :
    Sessions.Step deps s.sessions x →
    Step deps oidc s { s with sessions := x, log := fun id => s.log id ++ Sessions.events deps s.sessions x id }
  /-- `beginAuthorize`: the tenant is active. -/
  | beginAuthorize {s : SessionReads} {tenant : Tenant} (slug state codeVerifier nonce returnTo : Bytes) :
    s.sessions.directory.findByPublicId slug = some tenant → tenant.status = .active →
    Step deps oidc s { s with
      states := ⟨state, tenant.id, some codeVerifier, some nonce, some returnTo⟩ :: s.states }
  | expireState {s : SessionReads} (r : OAuthStateRecord) : Step deps oidc s { s with states := s.states.erase r }
  | callback {s : SessionReads} {i : Nat} (cmd : OidcCallbackCommand) :
    s.callbacks i = none → Step deps oidc s (s.moveCallback i ⟨cmd, .consumeState, none, none⟩ [])
  | consumeState {s : SessionReads} {i : Nat} {c : CallbackCall} :
    s.callbacks i = some c → c.phase = .consumeState →
    Step deps oidc s ({ s with states := s.states.filter fun r => r.state ≠ c.cmd.state }.moveCallback i { c with
      phase := .afterConsumeState (s.states.find? fun r => r.state = c.cmd.state) } [])
  | exchange {s : SessionReads} {i : Nat} {c : CallbackCall} {f : OAuthFlow} (r : Upstream Bytes) :
    s.callbacks i = some c → c.phase = .exchange f →
    Step deps oidc s (s.moveCallback i { c with phase := .afterExchange f r } [])
  | verify {s : SessionReads} {i : Nat} {c : CallbackCall} {f : OAuthFlow} {idToken : Bytes}
      (r : Upstream GoogleClaims) :
    s.callbacks i = some c → c.phase = .verify f idToken →
    Step deps oidc s (s.moveCallback i { c with phase := .afterVerify f r } [])
  | findIdentity {s : SessionReads} {i : Nat} {c : CallbackCall} {f : OAuthFlow} {claims : GoogleClaims}
      (r : Option OAuthIdentityRef) :
    s.callbacks i = some c → c.phase = .findIdentity f claims →
    Step deps oidc s (s.moveCallback i { c with phase := .afterFindIdentity f claims r } [])
  | findByEmail {s : SessionReads} {i : Nat} {c : CallbackCall} {f : OAuthFlow} {claims : GoogleClaims} :
    s.callbacks i = some c → c.phase = .findByEmail f claims →
    Step deps oidc s (s.moveCallback i { c with
      phase := .afterFindByEmail oidc c.cmd f claims
        (s.sessions.directory.findCredentialsByEmail f.tenantId (oidc.normalizeEmail claims.email)) }
      [.findCredentialsByEmail f.tenantId (oidc.normalizeEmail claims.email)
        (s.sessions.directory.findCredentialsByEmail f.tenantId (oidc.normalizeEmail claims.email))])
  | provision {s : SessionReads} {i : Nat} {c : CallbackCall} {f : OAuthFlow} {claims : GoogleClaims} {hash : Bytes}
      (r : Option Uuid) :
    s.callbacks i = some c → c.phase = .provision f claims hash →
    Step deps oidc s (s.moveCallback i { c with phase := .afterProvision f claims r } [])
  | link {s : SessionReads} {i : Nat} {c : CallbackCall} {f : OAuthFlow} {claims : GoogleClaims} {userId : Uuid}
      (r : Option OAuthIdentityRef) :
    s.callbacks i = some c → c.phase = .link f claims userId →
    Step deps oidc s (s.moveCallback i { c with phase := .afterLink f claims r } [])
  | findUser {s : SessionReads} {i : Nat} {c : CallbackCall} {f : OAuthFlow} {claims : GoogleClaims} {userId : Uuid} :
    s.callbacks i = some c → c.phase = .findUser f claims userId →
    Step deps oidc s (s.moveCallback i { c with
      phase := .afterFindUser f claims (s.sessions.directory.findCredentialsById f.tenantId userId) }
      [.findCredentialsById f.tenantId userId (s.sessions.directory.findCredentialsById f.tenantId userId)])
  | mint {s : SessionReads} {i : Nat} {c : CallbackCall} {f : OAuthFlow} {claims : GoogleClaims} {record : AuthRecord}
      {role : Role} (familyId tokenId : Uuid) (secret : Bytes) (now : Int) :
    s.callbacks i = some c → c.phase = .mint f claims record role →
    Sessions.FreshFamily s.sessions.tokens familyId → Sessions.Fresh s.sessions.tokens tokenId →
    Step deps oidc s ({ s with
      sessions := { s.sessions with
        tokens := s.sessions.tokens.create f.tenantId
          ⟨familyId, record.id, oidc.sha256 secret, now + oidc.refreshTtlSeconds * 1000⟩ tokenId } }.moveCallback i
        { c with phase := .minted f record role tokenId secret }
        [.mint ⟨assembleRefreshToken (uuidOut f.tenantId) (uuidOut tokenId) secret, role, f.tenantId, record.id⟩])
  | fail {s : SessionReads} {i : Nat} {c : CallbackCall} :
    s.callbacks i = some c → c.phase.isDone = false →
    Step deps oidc s (s.moveCallback i { c with phase := .done .failed } [])

def system (deps : AuthDeps) (oidc : OidcDeps) : Runs.System SessionReads :=
  { init := fun s => (Sessions.system deps).init s.sessions ∧ s.states = [] ∧ s.callbacks = (fun _ => none) ∧
      s.log = fun _ => []
    step := Step deps oidc }

def Returns (s : SessionReads) (tokens : SessionTokens) : CallId → Prop
  | .login i => ∃ c, s.sessions.logins i = some c ∧ c.phase = .done (.session tokens)
  | .refresh i => ∃ c, s.sessions.refreshes i = some c ∧ c.phase = .done (.session tokens)
  | .callback i => ∃ c returnTo, s.callbacks i = some c ∧ c.phase = .done (.session tokens returnTo)

end SessionReads

end Logalot
