import Logalot.Accounts

/-!
# Creating invites

`InviteService` (`services/control-plane/src/app/invite-service.ts`) over the
methods of `invite-repository.ts`, each of which is one transaction: any number
of calls of `create` run at once, with revocations and consumptions between
their steps. The audit record and the email of an invite are left out.
-/

namespace Logalot.Invites

open Go Pg

structure InviteConfig where
  inviteTtlSeconds : Int
  inviteMaxOutstandingPerTenant : Nat
  inviteAcceptBaseUrl : Bytes

structure InviteDeps where
  normalizeEmail : Bytes → Bytes
  hashInviteSecret : Bytes → Bytes

structure CreateInviteCommand where
  email : Bytes
  role : InviteRole
  deriving DecidableEq

def inviteSecretHexLength : Nat := 64

def assembleInviteToken (publicId secret : Bytes) : Bytes := bs "lginv_" ++ publicId ++ bs "_" ++ secret

/-- How a call ends: `failed` is an error of the database, a clash of pending emails among them. -/
inductive CreateOutcome where
  | issued (invite : Invite) (inviteUrl : Bytes)
  | forbidden
  | notFound
  | capReached (max : Nat)
  | badSecret (length : Nat)
  | failed
  deriving DecidableEq

inductive CreatePhase where
  | findTenant
  | countPending (publicId : Bytes)
  | insert (publicId : Bytes)
  | done (o : CreateOutcome)
  deriving DecidableEq

structure CreateCall where
  tenantId : Uuid
  principalId : Uuid
  cmd : CreateInviteCommand
  phase : CreatePhase
  deriving DecidableEq

def begin : Role → CreatePhase
  | .tenantAdmin => .findTenant
  | _ => .done .forbidden

def afterFindTenant : Option Bytes → CreatePhase
  | none => .done .notFound
  | some publicId => .countPending publicId

def afterCount (config : InviteConfig) (publicId : Bytes) (pendingCount : Nat) : CreatePhase :=
  if config.inviteMaxOutstandingPerTenant ≤ pendingCount then .done (.capReached config.inviteMaxOutstandingPerTenant)
  else .insert publicId

/-! ## The table -/

def isPending (tenantId : Uuid) (v : Invite) : Bool := v.tenantId = tenantId ∧ v.status = .pending

def countPending (invites : List Invite) (tenantId : Uuid) : Nat := invites.countP (isPending tenantId)

/-- The keys of the table: ids, secrets, and pending emails of a tenant. -/
def Insertable (invites : List Invite) (row : Invite) : Prop :=
  ∀ v ∈ invites, v.id ≠ row.id ∧ v.tokenHash ≠ row.tokenHash ∧
    ¬ (v.tenantId = row.tenantId ∧ v.email = row.email ∧ v.status = .pending)

instance (invites : List Invite) (row : Invite) : Decidable (Insertable invites row) :=
  inferInstanceAs (Decidable (∀ v ∈ invites, _))

def revoke (tenantId id : Uuid) (v : Invite) : Invite :=
  if v.tenantId = tenantId ∧ v.id = id ∧ v.status = .pending then { v with status := .revoked } else v

def consume (tenantId : Uuid) (n : InviteProvisionInput) (v : Invite) : Invite :=
  if v.consumable tenantId n then v.consume n.now else v

def CreateCall.row (config : InviteConfig) (deps : InviteDeps) (c : CreateCall) (rawSecret : Bytes) (now : Int)
    (id : Uuid) : Invite :=
  NewInvite.row c.tenantId
    ⟨deps.normalizeEmail c.cmd.email, c.cmd.role, deps.hashInviteSecret rawSecret, some c.principalId,
      now + config.inviteTtlSeconds * 1000⟩ id

def inviteUrl (config : InviteConfig) (publicId rawSecret : Bytes) : Bytes :=
  config.inviteAcceptBaseUrl ++ bs "/invite/accept?token=" ++ assembleInviteToken publicId rawSecret

/-! ## States and steps -/

structure State where
  tenants : Uuid → Option Bytes
  invites : List Invite
  calls : List CreateCall

def State.setCall (s : State) (i : Nat) (c : CreateCall) : State := { s with calls := s.calls.set i c }

inductive Step (config : InviteConfig) (deps : InviteDeps) : State → State → Prop where
  | administer {s : State} (tenants : Uuid → Option Bytes) : Step config deps s { s with tenants }
  | create {s : State} (role : Role) (tenantId principalId : Uuid) (cmd : CreateInviteCommand) :
    Step config deps s { s with calls := s.calls ++ [⟨tenantId, principalId, cmd, begin role⟩] }
  | findTenant {s : State} {i : Nat} {c : CreateCall} :
    s.calls[i]? = some c → c.phase = .findTenant →
    Step config deps s (s.setCall i { c with phase := afterFindTenant (s.tenants c.tenantId) })
  | countPending {s : State} {i : Nat} {c : CreateCall} {publicId : Bytes} :
    s.calls[i]? = some c → c.phase = .countPending publicId →
    Step config deps s (s.setCall i { c with
      phase := afterCount config publicId (Invites.countPending s.invites c.tenantId) })
  | badSecret {s : State} {i : Nat} {c : CreateCall} {publicId : Bytes} (rawSecret : Bytes) :
    s.calls[i]? = some c → c.phase = .insert publicId → rawSecret.length ≠ inviteSecretHexLength →
    Step config deps s (s.setCall i { c with phase := .done (.badSecret rawSecret.length) })
  | insert {s : State} {i : Nat} {c : CreateCall} {publicId : Bytes} (rawSecret : Bytes) (now : Int) (id : Uuid) :
    s.calls[i]? = some c → c.phase = .insert publicId → rawSecret.length = inviteSecretHexLength →
    Insertable s.invites (c.row config deps rawSecret now id) →
    Step config deps s ({ s with invites := s.invites ++ [c.row config deps rawSecret now id] }.setCall i { c with
      phase := .done (.issued (c.row config deps rawSecret now id) (inviteUrl config publicId rawSecret)) })
  | insertFails {s : State} {i : Nat} {c : CreateCall} {publicId : Bytes} :
    s.calls[i]? = some c → c.phase = .insert publicId →
    Step config deps s (s.setCall i { c with phase := .done .failed })
  | revoke {s : State} (tenantId id : Uuid) :
    Step config deps s { s with invites := s.invites.map (Invites.revoke tenantId id) }
  | consume {s : State} (tenantId : Uuid) (n : InviteProvisionInput) :
    Step config deps s { s with invites := s.invites.map (Invites.consume tenantId n) }

def system (config : InviteConfig) (deps : InviteDeps) : Runs.System State :=
  { init := fun s => s.invites = [] ∧ s.calls = []
    step := Step config deps }

end Logalot.Invites
