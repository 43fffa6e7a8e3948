import Logalot.Accounts
import Logalot.ApiKeys
import Logalot.Sessions

/-!
# Administration of tenants

`TenantService`, `UserService`, `ApiKeyService` and `RetentionService` of the
control-plane with their repositories, for requests that pass their schemas, one
after the other. Row level security arms a transaction for one tenant, while keys
and foreign keys are checked against the rows of all. Left out are times, and who
has created a row, but for the check that this user is there.
-/

namespace Logalot.Admin

open Go Pg

/-! ## Permissions -/

inductive Resource where
  | tenant | user | apikey | retention | alert | savedquery | dashboard | invite
  deriving DecidableEq

inductive Verb where
  | create | read | list | update | delete | provisionAdmin | revoke
  deriving DecidableEq

abbrev Operation := Resource × Verb

def crud (r : Resource) : List Operation := [(r, .create), (r, .read), (r, .list), (r, .update), (r, .delete)]

def issuing (r : Resource) : List Operation := [(r, .create), (r, .list), (r, .revoke)]

/-- `MATRIX` of `domain/rbac.ts`. -/
def matrix : Role → List Operation
  | .platformOperator => crud .tenant ++ [(.tenant, .provisionAdmin)]
  | .tenantAdmin =>
    [(.tenant, .read)] ++ crud .user ++ issuing .apikey ++ [(.retention, .read), (.retention, .update)] ++
      crud .alert ++ crud .savedquery ++ crud .dashboard ++ issuing .invite
  | .member =>
    [(.tenant, .read), (.retention, .read), (.alert, .read), (.alert, .list), (.savedquery, .read),
      (.savedquery, .list), (.dashboard, .read), (.dashboard, .list)]
  | .unset => []

def can (role : Role) (operation : Operation) : Bool := operation ∈ matrix role

/-! ## Tables -/

structure Tenant extends TenantRow where
  name : Bytes

structure Key extends ApiKey where
  name : Bytes

structure Policy where
  tenantId : Uuid
  hotDays : Nat
  coldDays : Nat

inductive Row where
  | user (u : User)
  | membership (m : Membership)
  | key (k : Key)
  | policy (p : Policy)

inductive Id where
  | user (id : Uuid)
  | key (id : Bytes)
  deriving DecidableEq

namespace Row

def tenantId : Row → Uuid
  | user u => u.tenantId
  | membership m => m.tenantId
  | key k => k.tenantId
  | policy p => p.tenantId

/-- The primary key, where it is a generated id. -/
def id? : Row → Option Id
  | user u => some (.user u.id)
  | key k => some (.key k.id)
  | _ => none

def user? : Row → Option User
  | user u => some u
  | _ => none

def membership? : Row → Option Membership
  | membership m => some m
  | _ => none

def key? : Row → Option Key
  | key k => some k
  | _ => none

def policy? : Row → Option Policy
  | policy p => some p
  | _ => none

end Row

structure Tables where
  tenants : List Tenant
  rows : List Row

/-- What the statements of a transaction change. -/
inductive Edit where
  | keep
  | insert (rs : List Row)
  | update (f : Row → Row)
  | delete (gone : Row → Bool)

def Edit.apply (tenantId : Uuid) : Edit → List Row → List Row
  | .keep, rows => rows
  | .insert rs, rows => rs ++ rows
  | .update f, rows => rows.map fun r => if r.tenantId = tenantId then f r else r
  | .delete gone, rows => rows.filter fun r => !(r.tenantId = tenantId && gone r)

/-! ## Services -/

structure Context where
  tenantId : Uuid
  principalId : Uuid
  role : Role

structure Deps where
  hash : Bytes → Bytes
  sha256 : Bytes → Bytes
  normalizeEmail : Bytes → Bytes

inductive Failure where
  | forbidden (role : Role) (operation : Operation)
  | notFound (message : Bytes)
  | conflict (message : Bytes)
  | validation (message : Bytes)
  | database

structure UserView where
  id : Uuid
  tenantId : Uuid
  email : Bytes
  displayName : Option Bytes
  status : Bytes
  isPlatformOperator : Bool
  role : Option MembershipRole

structure ApiKeyRecord where
  id : Bytes
  tenantId : Uuid
  name : Bytes
  scopes : List Bytes
  expiresAt : Option Time
  revokedAt : Option Time

inductive Answer where
  | done
  | tenant (t : Tenant)
  | tenants (l : List Tenant)
  | user (u : UserView)
  | users (l : List UserView)
  | issued (plaintext : Bytes) (record : ApiKeyRecord)
  | keys (l : List ApiKeyRecord)
  | policy (p : Policy)
  | error (e : Failure)

/-- What a transaction has to go by: the registry, the rows of its tenant, and whether the generated id is in use and
the acting user still there. -/
structure Scope where
  tenants : List Tenant
  own : List Row
  taken : Bool
  known : Bool

def Scope.hasTenant (c : Scope) (id : Uuid) : Bool := c.tenants.any fun t => t.id = id

def Scope.users (c : Scope) : List User := c.own.filterMap Row.user?

def toUser (u : User) (role : Option MembershipRole) : UserView :=
  ⟨u.id, u.tenantId, u.email, u.displayName, u.status, u.isPlatformOperator, role⟩

/-- `SELECT_USER`. -/
def Scope.selectUser (c : Scope) (u : User) : UserView :=
  toUser u (((c.own.filterMap Row.membership?).find? fun m => m.userId = u.id).map Membership.role)

structure CreateUserCommand where
  newId : Uuid
  email : Bytes
  password : Bytes
  displayName : Option Bytes
  role : MembershipRole

structure UpdateUserCommand where
  displayName : Option Bytes
  status : Option Bytes
  role : Option MembershipRole
  password : Option Bytes

namespace UserService

def created (deps : Deps) (tenantId : Uuid) (cmd : CreateUserCommand) : User :=
  { id := cmd.newId, tenantId, email := deps.normalizeEmail cmd.email, passwordHash := deps.hash cmd.password
    displayName := cmd.displayName, status := userActive, isPlatformOperator := false }

def create (deps : Deps) (tenantId : Uuid) (cmd : CreateUserCommand) (c : Scope) : Answer × Edit :=
  let u := created deps tenantId cmd
  if c.taken || c.users.any (fun u' => u'.email = u.email) then
    (.error (.conflict (bs "a user with email '" ++ u.email ++ bs "' already exists")), .keep)
  else if !c.hasTenant tenantId then (.error .database, .keep)
  else (.user (toUser u (some cmd.role)), .insert [.user u, .membership ⟨tenantId, u.id, cmd.role⟩])

def missing : Answer := .error (.notFound (bs "user not found"))

def get (id : Uuid) (c : Scope) : Answer :=
  ((c.users.find? fun u => u.id = id).map fun u => .user (c.selectUser u)).getD missing

/-- The two `UPDATE`s; a password that is empty is not set. -/
def patch (deps : Deps) (id : Uuid) (cmd : UpdateUserCommand) : Row → Row
  | .user u =>
    if u.id = id then
      .user { u with
        displayName := cmd.displayName.or u.displayName
        status := cmd.status.getD u.status
        passwordHash := ((cmd.password.filter (· ≠ [])).map deps.hash).getD u.passwordHash }
    else .user u
  | .membership m => if m.userId = id then .membership { m with role := cmd.role.getD m.role } else .membership m
  | r => r

def update (deps : Deps) (id : Uuid) (cmd : UpdateUserCommand) (c : Scope) : Answer × Edit :=
  if c.users.any (fun u => u.id = id) then
    (get id { c with own := c.own.map (patch deps id cmd) }, .update (patch deps id cmd))
  else (missing, .keep)

/-- The user, and its membership by the foreign key. -/
def isOf (id : Uuid) : Row → Bool
  | .user u => u.id = id
  | .membership m => m.userId = id
  | _ => false

def remove (id : Uuid) (c : Scope) : Answer × Edit :=
  if c.users.any (fun u => u.id = id) then (.done, .delete (isOf id)) else (missing, .keep)

end UserService

structure IssueApiKeyCommand where
  keyId : Bytes
  secret : Bytes
  name : Bytes
  scopes : List Bytes
  expiresAt : Option Time

namespace ApiKeyService

def toRecord (k : Key) : ApiKeyRecord := ⟨k.id, k.tenantId, k.name, k.scopes, k.expiresAt, k.revokedAt⟩

def minted (deps : Deps) (ctx : Context) (cmd : IssueApiKeyCommand) : Key :=
  { id := cmd.keyId, tenantId := ctx.tenantId, keyHash := deps.sha256 cmd.secret
    scopes := if cmd.scopes = [] then [scopeIngestWrite] else cmd.scopes
    revokedAt := none, expiresAt := cmd.expiresAt, name := cmd.name }

def issue (deps : Deps) (ctx : Context) (cmd : IssueApiKeyCommand) (c : Scope) : Answer × Edit :=
  match c.tenants.find? fun t => t.id = ctx.tenantId with
  | none => (.error (.notFound (bs "tenant not found")), .keep)
  | some t =>
    if c.taken || !c.known then (.error .database, .keep)
    else
      (.issued (keySeparator.intercalate [keyPrefix, t.publicId, cmd.keyId, cmd.secret])
        (toRecord (minted deps ctx cmd)), .insert [.key (minted deps ctx cmd)])

def revokeRow (keyId : Bytes) (now : Time) : Row → Row
  | .key k => if k.id = keyId ∧ k.revokedAt = none then .key { k with revokedAt := some now } else .key k
  | r => r

def revoke (keyId : Bytes) (now : Time) (c : Scope) : Answer × Edit :=
  if keyId = [] then (.error (.validation (bs "key id is required")), .keep)
  else if (c.own.filterMap Row.key?).any fun k => k.id = keyId ∧ k.revokedAt = none then
    (.done, .update (revokeRow keyId now))
  else (.error (.notFound (bs "api key not found")), .keep)

end ApiKeyService

namespace RetentionService

def setDays (hotDays coldDays : Nat) : Row → Row
  | .policy p => .policy { p with hotDays, coldDays }
  | r => r

def upsert (ctx : Context) (hotDays coldDays : Nat) (c : Scope) : Answer × Edit :=
  if ¬ (1 ≤ hotDays ∧ hotDays ≤ 90 ∧ hotDays ≤ coldDays) ∨ !c.hasTenant ctx.tenantId ∨ !c.known then
    (.error .database, .keep)
  else
    (.policy ⟨ctx.tenantId, hotDays, coldDays⟩,
      if (c.own.filterMap Row.policy?).isEmpty then .insert [.policy ⟨ctx.tenantId, hotDays, coldDays⟩]
      else .update (setDays hotDays coldDays))

end RetentionService

/-! ## Requests -/

/-- Requests on the rows of the tenant of the context. -/
inductive Scoped where
  | userCreate (cmd : CreateUserCommand)
  | userList
  | userGet (id : Uuid)
  | userUpdate (id : Uuid) (cmd : UpdateUserCommand)
  | userRemove (id : Uuid)
  | keyIssue (cmd : IssueApiKeyCommand)
  | keyList
  | keyRevoke (keyId : Bytes) (now : Time)
  | retentionGet
  | retentionUpsert (hotDays coldDays : Nat)

inductive Request where
  | inTenant (r : Scoped)
  | tenantCreate (newId : Uuid) (publicId name : Bytes)
  | tenantList
  | tenantGet (id : Uuid)
  | tenantUpdate (id : Uuid) (name : Option Bytes) (status : Option TenantStatus)
  | tenantRemove (id : Uuid)
  | provisionAdmin (tenantId : Uuid) (cmd : CreateUserCommand)

/-- What a service asserts first, and the route before it. -/
def Scoped.operation : Scoped → Operation
  | .userCreate _ => (.user, .create)
  | .userList => (.user, .list)
  | .userGet _ => (.user, .read)
  | .userUpdate _ _ => (.user, .update)
  | .userRemove _ => (.user, .delete)
  | .keyIssue _ => (.apikey, .create)
  | .keyList => (.apikey, .list)
  | .keyRevoke _ _ => (.apikey, .revoke)
  | .retentionGet => (.retention, .read)
  | .retentionUpsert _ _ => (.retention, .update)

def Request.operation : Request → Operation
  | .inTenant r => r.operation
  | .tenantCreate _ _ _ => (.tenant, .create)
  | .tenantList => (.tenant, .list)
  | .tenantGet _ => (.tenant, .read)
  | .tenantUpdate _ _ _ => (.tenant, .update)
  | .tenantRemove _ => (.tenant, .delete)
  | .provisionAdmin _ _ => (.tenant, .provisionAdmin)

def Scoped.newId : Scoped → Option Id
  | .userCreate cmd => some (.user cmd.newId)
  | .keyIssue cmd => some (.key cmd.keyId)
  | _ => none

def Scoped.perform (deps : Deps) (ctx : Context) (c : Scope) : Scoped → Answer × Edit
  | .userCreate cmd => UserService.create deps ctx.tenantId cmd c
  | .userList => (.users (c.users.map c.selectUser), .keep)
  | .userGet id => (UserService.get id c, .keep)
  | .userUpdate id cmd => UserService.update deps id cmd c
  | .userRemove id => UserService.remove id c
  | .keyIssue cmd => ApiKeyService.issue deps ctx cmd c
  | .keyList => (.keys ((c.own.filterMap Row.key?).map ApiKeyService.toRecord), .keep)
  | .keyRevoke keyId now => ApiKeyService.revoke keyId now c
  | .retentionGet =>
    (((c.own.filterMap Row.policy?).head?.map .policy).getD (.error (.notFound (bs "retention policy not found"))),
      .keep)
  | .retentionUpsert hotDays coldDays => RetentionService.upsert ctx hotDays coldDays c

structure Event where
  ctx : Context
  request : Request

namespace Tables

def holds (s : Tables) (i : Option Id) : Bool := s.rows.any fun r => r.id?.isSome && r.id? = i

def scope (s : Tables) (tenantId : Uuid) (newId principal : Option Id) : Scope :=
  ⟨s.tenants, s.rows.filter fun r => r.tenantId = tenantId, s.holds newId, s.holds principal⟩

def withTenantTx (s : Tables) (tenantId : Uuid) (newId principal : Option Id) (work : Scope → Answer × Edit) :
    Answer × Tables :=
  let r := work (s.scope tenantId newId principal)
  (r.1, { s with rows := r.2.apply tenantId s.rows })

end Tables

def tenantMissing : Answer := .error (.notFound (bs "tenant not found"))

/-- The methods of `TenantService` but `provisionAdmin`. -/
def registry (ctx : Context) (s : Tables) : Request → Answer × Tables
  | .tenantCreate newId publicId name =>
    if s.tenants.any fun t => t.id = newId ∨ t.publicId = publicId then
      (.error (.conflict (bs "tenant slug '" ++ publicId ++ bs "' already exists")), s)
    else
      (.tenant ⟨⟨newId, publicId, .active⟩, name⟩,
        { s with tenants := ⟨⟨newId, publicId, .active⟩, name⟩ :: s.tenants })
  | .tenantList => (.tenants s.tenants, s)
  | .tenantGet id =>
    if ctx.role ≠ .platformOperator ∧ id ≠ ctx.tenantId then (tenantMissing, s)
    else (((s.tenants.find? fun t => t.id = id).map .tenant).getD tenantMissing, s)
  | .tenantUpdate id name status =>
    let tenants := s.tenants.map fun t =>
      if t.id = id then { t with name := name.getD t.name, status := status.getD t.status } else t
    (((tenants.find? fun t => t.id = id).map .tenant).getD tenantMissing, { s with tenants })
  | .tenantRemove id =>
    if s.tenants.any fun t => t.id = id then
      (.done, ⟨s.tenants.filter fun t => t.id ≠ id, s.rows.filter fun r => r.tenantId ≠ id⟩)
    else (tenantMissing, s)
  | _ => (tenantMissing, s)

def handle (deps : Deps) (ctx : Context) (s : Tables) : Request → Answer × Tables
  | .inTenant r => s.withTenantTx ctx.tenantId r.newId (some (.user ctx.principalId)) fun c => r.perform deps ctx c
  | .provisionAdmin tenantId cmd =>
    if s.tenants.any fun t => t.id = tenantId then
      s.withTenantTx tenantId (some (.user cmd.newId)) none
        (UserService.create deps tenantId { cmd with role := .tenantAdmin })
    else (tenantMissing, s)
  | r => registry ctx s r

def step (deps : Deps) (s : Tables) (e : Event) : Answer × Tables :=
  if can e.ctx.role e.request.operation then handle deps e.ctx s e.request
  else (.error (.forbidden e.ctx.role e.request.operation), s)

end Logalot.Admin
