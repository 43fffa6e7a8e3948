import Logalot.RefreshTokens
import Logalot.Lib.Runs

/-!
# Login, refresh and logout

`services/control-plane/src/app/auth-service.ts`. Any number of calls run at
once; a step of a call is one repository method, which is one transaction, with
the decision the call takes on its result. Tenants and users may change between
any two steps.
-/

namespace Logalot

open Go Pg

/-! ## Tenants and users -/

structure Tenant where
  id : Uuid
  status : TenantStatus
  deriving DecidableEq

structure AuthRecord where
  id : Uuid
  passwordHash : Bytes
  status : Bytes
  role : Option Role
  deriving DecidableEq

structure Directory where
  findByPublicId : Bytes → Option Tenant
  findById : Uuid → Option Tenant
  findCredentialsByEmail : Uuid → Bytes → Option AuthRecord
  findCredentialsById : Uuid → Uuid → Option AuthRecord

def userActive : Bytes := bs "active"

/-- What the service is given: a digest, a password check, and the canonical form of emails. -/
structure AuthDeps where
  sha256 : Bytes → Bytes
  verify : Bytes → Bytes → Bool
  dummyHash : Bytes
  normalizeEmail : Bytes → Bytes
  refreshTtlSeconds : Int

structure SessionTokens where
  refreshToken : Bytes
  role : Role
  tenantId : Uuid
  userId : Uuid
  deriving DecidableEq

/-- How a call ends: `failed` is an error of the database. -/
inductive Outcome where
  | session (t : SessionTokens)
  | unauthorized
  | failed
  | loggedOut
  deriving DecidableEq

/-! ## Login -/

structure LoginCommand where
  tenantSlug : Bytes
  email : Bytes
  password : Bytes
  deriving DecidableEq

inductive LoginPhase where
  | findTenant
  | findCredentials (tenant : Tenant)
  | mint (tenant : Tenant) (record : AuthRecord) (role : Role)
  | done (o : Outcome)
  deriving DecidableEq

structure LoginCall where
  cmd : LoginCommand
  phase : LoginPhase

/-- Without an active tenant no credentials are looked up, and the check of the password fails. -/
def afterFindTenant : Option Tenant → LoginPhase
  | some tenant => if tenant.status = .active then .findCredentials tenant else .done .unauthorized
  | none => .done .unauthorized

def afterFindCredentials (deps : AuthDeps) (cmd : LoginCommand) (tenant : Tenant) (record : Option AuthRecord) :
    LoginPhase :=
  let passwordHash := (record.map AuthRecord.passwordHash).getD deps.dummyHash
  match record with
  | none => .done .unauthorized
  | some record =>
    if !deps.verify cmd.password passwordHash then .done .unauthorized
    else if record.status ≠ userActive then .done .unauthorized
    else
      match record.role with
      | none => .done .unauthorized
      | some role => .mint tenant record role

/-! ## Refresh -/

structure Presented where
  tenantId : Uuid
  tokenId : Uuid
  secret : Bytes
  deriving DecidableEq

def ParsedRefreshToken.presented (p : ParsedRefreshToken) : Option Presented :=
  match uuidIn p.tenantId, uuidIn p.tokenId with
  | some tenantId, some tokenId => some { tenantId, tokenId, secret := p.secret }
  | _, _ => none

inductive RefreshPhase where
  | find
  | findTenant (row : RefreshToken) (now : Int)
  | findUser (row : RefreshToken) (now : Int)
  | rotate (row : RefreshToken) (now : Int) (record : AuthRecord) (role : Role)
  | revoke (familyId : Uuid) (now : Int)
  | done (o : Outcome)
  deriving DecidableEq

/-- `spent` records that the call began with the secret of a token that was rotated or revoked; `swept`
the family that it revoked, with the tokens the family then had. -/
structure RefreshCall where
  token : Option Presented
  phase : RefreshPhase
  spent : Bool
  swept : Option (Uuid × List Uuid)
  deriving DecidableEq

def afterFind (deps : AuthDeps) (p : Presented) (row : Option RefreshToken) (now : Int) : RefreshPhase :=
  match row with
  | none => .done .unauthorized
  | some row =>
    if deps.sha256 p.secret ≠ row.tokenHash then .done .unauthorized
    else if row.revokedAt ≠ none ∨ row.rotatedAt ≠ none then .revoke row.familyId now
    else if row.expiresAt ≤ now then .done .unauthorized
    else .findTenant row now

def afterTenant (row : RefreshToken) (now : Int) (tenant : Option Tenant) : RefreshPhase :=
  if tenant.map Tenant.status = some .active then .findUser row now else .revoke row.familyId now

def afterUser (row : RefreshToken) (now : Int) (record : Option AuthRecord) : RefreshPhase :=
  match record with
  | none => .revoke row.familyId now
  | some record =>
    if record.status ≠ userActive then .revoke row.familyId now
    else
      match record.role with
      | none => .revoke row.familyId now
      | some role => .rotate row now record role

def successor (deps : AuthDeps) (row : RefreshToken) (now : Int) (secret : Bytes) : NewRefreshToken :=
  { familyId := row.familyId
    userId := row.userId
    tokenHash := deps.sha256 secret
    expiresAt := now + deps.refreshTtlSeconds * 1000 }

/-! ## Logout -/

inductive LogoutPhase where
  | find
  | revoke (familyId : Uuid)
  | done (o : Outcome)

structure LogoutCall where
  token : Option Presented
  now : Int
  phase : LogoutPhase

def afterLogoutFind (deps : AuthDeps) (p : Presented) : Option RefreshToken → LogoutPhase
  | some row => if deps.sha256 p.secret = row.tokenHash then .revoke row.familyId else .done .loggedOut
  | none => .done .loggedOut

/-! ## States -/

structure Sessions where
  tokens : TokenTable
  directory : Directory
  logins : Nat → Option LoginCall
  refreshes : Nat → Option RefreshCall
  logouts : Nat → Option LogoutCall

namespace Sessions

def setLogin (s : Sessions) (i : Nat) (c : LoginCall) : Sessions :=
  { s with logins := Function.update s.logins i (some c) }

def setRefresh (s : Sessions) (i : Nat) (c : RefreshCall) : Sessions :=
  { s with refreshes := Function.update s.refreshes i (some c) }

def setLogout (s : Sessions) (i : Nat) (c : LogoutCall) : Sessions :=
  { s with logouts := Function.update s.logouts i (some c) }

def Spent (deps : AuthDeps) (tokens : TokenTable) (p : Presented) : Prop :=
  ∃ r ∈ tokens, r.tenantId = p.tenantId ∧ r.id = p.tokenId ∧ r.tokenHash = deps.sha256 p.secret ∧ ¬ r.live

instance (deps : AuthDeps) (tokens : TokenTable) (p : Presented) : Decidable (Spent deps tokens p) :=
  inferInstanceAs (Decidable (∃ r ∈ tokens, _))

/-- A call begins with any text. The database fails on an id that is no UUID. -/
def refreshCall (deps : AuthDeps) (tokens : TokenTable) (raw : Bytes) : RefreshCall :=
  match parseRefreshToken raw with
  | none => { token := none, phase := .done .unauthorized, spent := false, swept := none }
  | some q =>
    match q.presented with
    | none => { token := none, phase := .done .failed, spent := false, swept := none }
    | some p => { token := some p, phase := .find, spent := decide (Spent deps tokens p), swept := none }

def logoutCall (now : Int) (raw : Bytes) : LogoutCall :=
  match parseRefreshToken raw with
  | none => { token := none, now, phase := .done .loggedOut }
  | some q =>
    match q.presented with
    | none => { token := none, now, phase := .done .failed }
    | some p => { token := some p, now, phase := .find }

def familyIds (tokens : TokenTable) (familyId : Uuid) : List Uuid :=
  (tokens.filter fun r => r.familyId = familyId).map RefreshToken.id

/-- No token has the id or the family yet. -/
def Fresh (tokens : TokenTable) (id : Uuid) : Prop := ∀ r ∈ tokens, r.id ≠ id

def FreshFamily (tokens : TokenTable) (familyId : Uuid) : Prop := ∀ r ∈ tokens, r.familyId ≠ familyId

/-! ## Steps -/

inductive Step (deps : AuthDeps) : Sessions → Sessions → Prop where
  /-- Administration changes tenants and users. -/
  | administer {s : Sessions} (d : Directory) : Step deps s { s with directory := d }
  | login {s : Sessions} {i : Nat} (cmd : LoginCommand) :
    s.logins i = none → Step deps s (s.setLogin i ⟨cmd, .findTenant⟩)
  | loginTenant {s : Sessions} {i : Nat} {c : LoginCall} :
    s.logins i = some c → c.phase = .findTenant →
    Step deps s (s.setLogin i { c with phase := afterFindTenant (s.directory.findByPublicId c.cmd.tenantSlug) })
  | loginCredentials {s : Sessions} {i : Nat} {c : LoginCall} {tenant : Tenant} :
    s.logins i = some c → c.phase = .findCredentials tenant →
    Step deps s (s.setLogin i { c with
      phase := afterFindCredentials deps c.cmd tenant
        (s.directory.findCredentialsByEmail tenant.id (deps.normalizeEmail c.cmd.email)) })
  | loginMint {s : Sessions} {i : Nat} {c : LoginCall} {tenant : Tenant} {record : AuthRecord} {role : Role}
      (familyId id : Uuid) (secret : Bytes) (now : Int) :
    s.logins i = some c → c.phase = .mint tenant record role →
    FreshFamily s.tokens familyId → Fresh s.tokens id →
    Step deps s ({ s with
      tokens := s.tokens.create tenant.id
        ⟨familyId, record.id, deps.sha256 secret, now + deps.refreshTtlSeconds * 1000⟩ id }.setLogin i
          { c with phase := .done (.session
            ⟨assembleRefreshToken (uuidOut tenant.id) (uuidOut id) secret, role, tenant.id, record.id⟩) })
  | refresh {s : Sessions} {i : Nat} (raw : Bytes) :
    s.refreshes i = none → Step deps s (s.setRefresh i (refreshCall deps s.tokens raw))
  | refreshFind {s : Sessions} {i : Nat} {c : RefreshCall} {p : Presented} (now : Int) :
    s.refreshes i = some c → c.token = some p → c.phase = .find →
    Step deps s (s.setRefresh i { c with
      phase := afterFind deps p (s.tokens.findById p.tenantId p.tokenId) now })
  | refreshTenant {s : Sessions} {i : Nat} {c : RefreshCall} {p : Presented} {row : RefreshToken} {now : Int} :
    s.refreshes i = some c → c.token = some p → c.phase = .findTenant row now →
    Step deps s (s.setRefresh i { c with
      phase := afterTenant row now (s.directory.findById p.tenantId) })
  | refreshUser {s : Sessions} {i : Nat} {c : RefreshCall} {p : Presented} {row : RefreshToken} {now : Int} :
    s.refreshes i = some c → c.token = some p → c.phase = .findUser row now →
    Step deps s (s.setRefresh i { c with
      phase := afterUser row now (s.directory.findCredentialsById p.tenantId row.userId) })
  | refreshRotate {s : Sessions} {i : Nat} {c : RefreshCall} {p : Presented} {row : RefreshToken} {now : Int}
      {record : AuthRecord} {role : Role} {tokens : TokenTable} (secret : Bytes) (id : Uuid) :
    s.refreshes i = some c → c.token = some p → c.phase = .rotate row now record role → Fresh s.tokens id →
    s.tokens.rotate p.tenantId row.id now (successor deps row now secret) id = some tokens →
    Step deps s ({ s with tokens }.setRefresh i { c with
      phase := .done (.session ⟨assembleRefreshToken (uuidOut p.tenantId) (uuidOut id) secret, role,
        p.tenantId, record.id⟩) })
  /-- The token was consumed or revoked since it was found. -/
  | refreshLost {s : Sessions} {i : Nat} {c : RefreshCall} {p : Presented} {row : RefreshToken} {now : Int}
      {record : AuthRecord} {role : Role} (secret : Bytes) (id : Uuid) :
    s.refreshes i = some c → c.token = some p → c.phase = .rotate row now record role →
    s.tokens.rotate p.tenantId row.id now (successor deps row now secret) id = none →
    Step deps s (s.setRefresh i { c with phase := .revoke row.familyId now })
  | refreshRevoke {s : Sessions} {i : Nat} {c : RefreshCall} {p : Presented} {familyId : Uuid} {now : Int} :
    s.refreshes i = some c → c.token = some p → c.phase = .revoke familyId now →
    Step deps s ({ s with tokens := s.tokens.revokeFamily p.tenantId familyId now }.setRefresh i { c with
      phase := .done .unauthorized
      swept := some (familyId, familyIds s.tokens familyId) })
  | logout {s : Sessions} {i : Nat} (raw : Bytes) (now : Int) :
    s.logouts i = none → Step deps s (s.setLogout i (logoutCall now raw))
  | logoutFind {s : Sessions} {i : Nat} {c : LogoutCall} {p : Presented} :
    s.logouts i = some c → c.token = some p → c.phase = .find →
    Step deps s (s.setLogout i { c with
      phase := afterLogoutFind deps p (s.tokens.findById p.tenantId p.tokenId) })
  | logoutRevoke {s : Sessions} {i : Nat} {c : LogoutCall} {p : Presented} {familyId : Uuid} :
    s.logouts i = some c → c.token = some p → c.phase = .revoke familyId →
    Step deps s ({ s with tokens := s.tokens.revokeFamily p.tenantId familyId c.now }.setLogout i
      { c with phase := .done .loggedOut })

def system (deps : AuthDeps) : Runs.System Sessions :=
  { init := fun s => s.tokens = [] ∧ s.logins = (fun _ => none) ∧ s.refreshes = (fun _ => none) ∧
      s.logouts = fun _ => none
    step := Step deps }

end Sessions

end Logalot
