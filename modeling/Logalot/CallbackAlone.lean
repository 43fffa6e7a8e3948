import Logalot.Callbacks

/-!
# A callback on its own

`handleCallback` of `oidc-authenticator.ts` from its first call of a port to its
last, while nothing else is going on, with the transactions of
`oauth-identity-repository.ts` and `pg-invite-provisioner.ts` from `BEGIN` to
`COMMIT` or `ROLLBACK`. The one transaction at a time has the number 0.
-/

namespace Logalot

open Go Pg Mvcc

/-- The tables `users`, `memberships`, `oauth_identities` and `invites`, and `refresh_tokens`. -/
structure CallbackDb where
  accounts : AccountHeap
  tokens : TokenTable

/-- A state of the database with no transaction open. -/
structure CallbackDb.Idle (db : CallbackDb) : Prop where
  valid : Accounts.Valid db.accounts
  idle : ∀ s ∈ db.accounts, s.pending = none

/-- What a call is given, and what comes to it from outside: the state record it consumes, the answers of the
identity provider, the time, and generated ids and secrets. -/
structure CallbackInput where
  cmd : OidcCallbackCommand
  stateRecord : Option OAuthStateRecord
  exchanged : Upstream Bytes
  verified : Upstream GoogleClaims
  now : Int
  userId : Uuid
  identityId : Uuid
  familyId : Uuid
  tokenId : Uuid
  secret : Bytes

/-! ## Transactions -/

/-- `conflict` is a `ConflictError`. -/
inductive TxResult (α : Type) where
  | ok (a : α)
  | conflict
  | threw
  deriving DecidableEq

def withTenantTx {α : Type} : TxResult α × AccountHeap → TxResult α × AccountHeap
  | (.ok a, h) => (.ok a, h.commit 0)
  | (.conflict, h) => (.conflict, h.abort 0)
  | (.threw, h) => (.threw, h.abort 0)

/-- An `INSERT` of the row is a unique violation. -/
def violates (row : AccountRow) (h : AccountHeap) : Bool :=
  h.any fun s => s.key = row.key || (s.visible 0).any row.clashes

def hasUser (tenantId userId : Uuid) (h : AccountHeap) : Bool :=
  h.any fun s =>
    match s.visible 0 with
    | some (.user u) => u.tenantId = tenantId ∧ u.id = userId
    | _ => false

/-- A violation is a `ConflictError` of `linkFirstWithClient` unless the identity is there already; without the
user the foreign key is violated. -/
def linkFirstWithClient (tenantId : Uuid) (n : NewOAuthIdentity) (id : Uuid) (h : AccountHeap) :
    TxResult OAuthIdentityRef × AccountHeap :=
  if violates (.identity (n.row tenantId id)) h then
    match AccountHeap.findByProviderSub (Slot.visible 0) tenantId n.provider n.providerSub h with
    | some d => (.ok d.ref, h)
    | none => (.conflict, h)
  else if hasUser tenantId n.userId h then
    (.ok ⟨id, n.userId⟩, h.insert 0 (.identity id) (.identity (n.row tenantId id)))
  else (.threw, h)

def linkFirst (tenantId : Uuid) (n : NewOAuthIdentity) (id : Uuid) (h : AccountHeap) :
    TxResult OAuthIdentityRef × AccountHeap :=
  withTenantTx (linkFirstWithClient tenantId n id h)

/-- An `UPDATE` acts on every row that meets its condition. -/
def updateRows (u : RowUpdate) (h : AccountHeap) : AccountHeap := h.map (Slot.update 0 (fun r => u.cond r = true) u.set)

/-- `consumeWithClient` with the first row of its `RETURNING`, as it was before. -/
def consumeInvite (tenantId : Uuid) (n : InviteProvisionInput) (h : AccountHeap) : Option Invite × AccountHeap :=
  (h.findSome? fun s => Accounts.returning tenantId n (s.visible 0), updateRows (consumeWithClient tenantId n) h)

def insertUserWithMembership (tenantId : Uuid) (email : Bytes) (role : MembershipRole) (id : Uuid) (h : AccountHeap) :
    TxResult Unit × AccountHeap :=
  if violates (.user (provisionedUser tenantId email id)) h then (.conflict, h)
  else
    let h := h.insert 0 (.user id) (.user (provisionedUser tenantId email id))
    if violates (.membership ⟨tenantId, id, role⟩) h then (.conflict, h)
    else (.ok (), h.insert 0 (.membership tenantId id) (.membership ⟨tenantId, id, role⟩))

/-- Step 3 of `provisionFromInvite`. -/
def linkProvisioned (tenantId : Uuid) (n : InviteProvisionInput) (userId identityId : Uuid) (h : AccountHeap) :
    TxResult (Option Uuid) × AccountHeap :=
  match linkFirstWithClient tenantId (n.link userId) identityId h with
  | (.conflict, h) => (.conflict, h)
  | (.threw, h) => (.threw, h)
  | (.ok link, h) => if link.userId ≠ userId then (.conflict, h) else (.ok (some userId), h)

/-- Steps 2 and 3 of `provisionFromInvite`, for the invite that was consumed. -/
def provisionInvited (tenantId : Uuid) (n : InviteProvisionInput) (v : Invite) (userId identityId : Uuid)
    (h : AccountHeap) : TxResult (Option Uuid) × AccountHeap :=
  match insertUserWithMembership tenantId n.email (translateRole v.role) userId h with
  | (.conflict, h) => (.conflict, h)
  | (.threw, h) => (.threw, h)
  | (.ok (), h) => linkProvisioned tenantId n userId identityId h

/-- What `provisionFromInvite` does inside of its transaction. -/
def provisionWithClient (tenantId : Uuid) (n : InviteProvisionInput) (userId identityId : Uuid) (h : AccountHeap) :
    TxResult (Option Uuid) × AccountHeap :=
  match consumeInvite tenantId n h with
  | (none, h) => (.ok none, h)
  | (some v, h) => provisionInvited tenantId n v userId identityId h

/-- A `ConflictError` is null to the caller. -/
def nullOnConflict : TxResult (Option Uuid) × AccountHeap → TxResult (Option Uuid) × AccountHeap
  | (.conflict, h) => (.ok none, h)
  | r => r

def provisionFromInvite (tenantId : Uuid) (n : InviteProvisionInput) (userId identityId : Uuid) (h : AccountHeap) :
    TxResult (Option Uuid) × AccountHeap :=
  nullOnConflict (withTenantTx (provisionWithClient tenantId n userId identityId h))

def touchLastLogin (tenantId id : Uuid) (now : Int) (h : AccountHeap) : AccountHeap :=
  (updateRows (Edit.update tenantId (.touchLastLogin id now)) h).commit 0

/-! ## The call -/

/-- What the state record gives; an empty text counts as missing. -/
def CallbackInput.flow (x : CallbackInput) : Except Bytes OAuthFlow :=
  match x.stateRecord with
  | none => .error (bs "invalid or expired OAuth state")
  | some r =>
    let codeVerifier := r.codeVerifier.getD []
    let nonce := r.nonce.getD []
    if codeVerifier = [] ∨ nonce = [] then .error (bs "malformed OAuth state record")
    else .ok ⟨r.tenantId, codeVerifier, nonce, r.returnTo.getD (bs "/")⟩

def noAccountMessage : Bytes := bs "no provisioned account for this Google identity"

def inactiveMessage : Bytes := bs "account is not active"

/-- From step 5 on; `existing` is the identity of a returning user. -/
def openSession (deps : OidcDeps) (x : CallbackInput) (f : OAuthFlow) (userId : Uuid) (existing : Option Uuid)
    (db : CallbackDb) : OidcOutcome × CallbackDb :=
  match AccountHeap.findCredentialsById f.tenantId userId db.accounts with
  | none => (.unauthorized inactiveMessage, db)
  | some record =>
    if record.status ≠ userActive then (.unauthorized inactiveMessage, db)
    else
      match record.role with
      | none => (.unauthorized inactiveMessage, db)
      | some role =>
        (.session
          ⟨assembleRefreshToken (uuidOut f.tenantId) (uuidOut x.tokenId) x.secret, role, f.tenantId, record.id⟩
          f.returnTo,
          { accounts := existing.elim db.accounts fun id => touchLastLogin f.tenantId id x.now db.accounts
            tokens := db.tokens.create f.tenantId
              ⟨x.familyId, record.id, deps.sha256 x.secret, x.now + deps.refreshTtlSeconds * 1000⟩ x.tokenId })

/-- Step 4 for the account that has the email. -/
def linkAccount (deps : OidcDeps) (x : CallbackInput) (f : OAuthFlow) (claims : GoogleClaims) (record : AuthRecord)
    (db : CallbackDb) : OidcOutcome × CallbackDb :=
  match linkFirst f.tenantId (Callbacks.linkInput deps claims record.id) x.identityId db.accounts with
  | (.ok linked, h) => openSession deps x f linked.userId none { db with accounts := h }
  | (.conflict, h) => (.unauthorized noAccountMessage, { db with accounts := h })
  | (.threw, h) => (.failed, { db with accounts := h })

def acceptInvite (deps : OidcDeps) (x : CallbackInput) (f : OAuthFlow) (claims : GoogleClaims) (inviteTokenHash : Bytes)
    (db : CallbackDb) : OidcOutcome × CallbackDb :=
  match provisionFromInvite f.tenantId (Callbacks.provisionInput deps claims inviteTokenHash x.now) x.userId
      x.identityId db.accounts with
  | (.ok (some userId), h) => openSession deps x f userId none { db with accounts := h }
  | (.ok none, h) => (.unauthorized noAccountMessage, { db with accounts := h })
  | (_, h) => (.failed, { db with accounts := h })

def firstLogin (deps : OidcDeps) (x : CallbackInput) (f : OAuthFlow) (claims : GoogleClaims) (db : CallbackDb) :
    OidcOutcome × CallbackDb :=
  match AccountHeap.findCredentialsByEmail f.tenantId (deps.normalizeEmail claims.email) db.accounts with
  | some record => linkAccount deps x f claims record db
  | none =>
    match x.cmd.inviteTokenHash with
    | none => (.unauthorized noAccountMessage, db)
    | some hash =>
      if deps.inviteProvisioner then acceptInvite deps x f claims hash db else (.unauthorized noAccountMessage, db)

def handleCallback (deps : OidcDeps) (x : CallbackInput) (db : CallbackDb) : OidcOutcome × CallbackDb :=
  match x.flow with
  | .error message => (.unauthorized message, db)
  | .ok f =>
    match x.exchanged with
    | .unavailable => (.unavailable, db)
    | .rejected => (.unauthorized (bs "token exchange failed"), db)
    | .ok _ =>
      match x.verified with
      | .unavailable => (.unavailable, db)
      | .rejected => (.unauthorized (bs "id_token verification failed"), db)
      | .ok claims =>
        match AccountHeap.findByProviderSub Slot.committed f.tenantId .google claims.sub db.accounts with
        | some d => openSession deps x f d.userId (some d.id) db
        | none => firstLogin deps x f claims db

end Logalot
