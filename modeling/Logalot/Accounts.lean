import Logalot.Kernel
import Logalot.Lib.Mvcc
import Logalot.Lib.Runs
import Logalot.Lib.Uuid

/-!
# Invites, users and identities

The transactions of `pg-invite-provisioner.ts`, `invite-repository.ts` and
`oauth-identity-repository.ts`, statement by statement under READ COMMITTED, over
the tables of the migrations 000004, 000017 and 000018.
-/

namespace Logalot

open Go Pg Mvcc

/-! ## Rows -/

inductive InviteRole where
  | member
  | admin
  deriving Repr, DecidableEq

inductive InviteStatus where
  | pending
  | consumed
  | revoked
  deriving Repr, DecidableEq

inductive MembershipRole where
  | tenantAdmin
  | member
  deriving Repr, DecidableEq

inductive OAuthProvider where
  | google
  deriving Repr, DecidableEq

structure Invite where
  id : Uuid
  tenantId : Uuid
  email : Bytes
  role : InviteRole
  tokenHash : Bytes
  status : InviteStatus
  createdBy : Option Uuid
  expiresAt : Int
  consumedAt : Option Int
  deriving DecidableEq

structure User where
  id : Uuid
  tenantId : Uuid
  email : Bytes
  passwordHash : Bytes
  displayName : Option Bytes
  status : Bytes
  isPlatformOperator : Bool
  deriving DecidableEq

structure Membership where
  tenantId : Uuid
  userId : Uuid
  role : MembershipRole
  deriving DecidableEq

structure OAuthIdentity where
  id : Uuid
  tenantId : Uuid
  userId : Uuid
  provider : OAuthProvider
  providerSub : Bytes
  email : Bytes
  lastLoginAt : Option Int
  deriving DecidableEq

inductive AccountKey where
  | invite (id : Uuid)
  | user (id : Uuid)
  | membership (tenantId userId : Uuid)
  | identity (id : Uuid)
  deriving DecidableEq

inductive AccountRow where
  | invite (v : Invite)
  | user (u : User)
  | membership (m : Membership)
  | identity (d : OAuthIdentity)
  deriving DecidableEq

/-- An entry of a unique index; `pendingEmail` is that of the partial one. -/
inductive IndexEntry where
  | inviteToken (tokenHash : Bytes)
  | pendingEmail (tenantId : Uuid) (email : Bytes)
  | userEmail (tenantId : Uuid) (email : Bytes)
  | membershipUser (tenantId userId : Uuid)
  | identitySub (tenantId : Uuid) (provider : OAuthProvider) (providerSub : Bytes)
  | identityUser (tenantId userId : Uuid) (provider : OAuthProvider)
  deriving DecidableEq

namespace AccountRow

def key : AccountRow → AccountKey
  | .invite v => .invite v.id
  | .user u => .user u.id
  | .membership m => .membership m.tenantId m.userId
  | .identity d => .identity d.id

def entries : AccountRow → List IndexEntry
  | .invite v => .inviteToken v.tokenHash :: if v.status = .pending then [.pendingEmail v.tenantId v.email] else []
  | .user u => [.userEmail u.tenantId u.email]
  | .membership m => [.membershipUser m.tenantId m.userId]
  | .identity d => [.identitySub d.tenantId d.provider d.providerSub, .identityUser d.tenantId d.userId d.provider]

def clashes (r r' : AccountRow) : Bool := r.entries.any fun e => e ∈ r'.entries

end AccountRow

abbrev AccountHeap := Heap AccountKey AccountRow

namespace AccountHeap

/-- A generated id, or one that depends on such an id, is not in use. -/
def Fresh (k : AccountKey) (h : AccountHeap) : Prop := ∀ s ∈ h, s.key ≠ k

instance (k : AccountKey) (h : AccountHeap) : Decidable (Fresh k h) := inferInstanceAs (Decidable (∀ s ∈ h, _))

/-- An `INSERT` goes through: no row there, be it of a transaction that has not ended, stands against it. The
transactions here never change a row of the table they insert into. -/
def Admits (row : AccountRow) (h : AccountHeap) : Prop := ∀ s ∈ h, ∀ r, s.HasVersion r → row.clashes r = false

/-- An `INSERT` of transaction `i` is a unique violation: a row that no other transaction holds stands against it. -/
def Clash (i : Nat) (row : AccountRow) (h : AccountHeap) : Prop :=
  ∃ s ∈ h, s.Free i ∧ ∃ r, s.visible i = some r ∧ row.clashes r = true

/-- The foreign keys of a row that transaction `i` inserts. -/
def Refers (i : Nat) (h : AccountHeap) : AccountRow → Prop
  | .invite v => ∀ c, v.createdBy = some c → ∃ s ∈ h, ∃ u, s.visible i = some (.user u) ∧ u.id = c
  | .user _ => True
  | .membership m => ∃ s ∈ h, ∃ u, s.visible i = some (.user u) ∧ u.tenantId = m.tenantId ∧ u.id = m.userId
  | .identity d => ∃ s ∈ h, ∃ u, s.visible i = some (.user u) ∧ u.tenantId = d.tenantId ∧ u.id = d.userId

/-- `SELECT … WHERE provider = $1 AND provider_sub = $2` in a tenant, over the rows of a snapshot. -/
def findByProviderSub (view : Slot AccountKey AccountRow → Option AccountRow) (tenantId : Uuid)
    (provider : OAuthProvider) (providerSub : Bytes) (h : AccountHeap) : Option OAuthIdentity :=
  h.findSome? fun s =>
    match view s with
    | some (.identity d) =>
      if d.tenantId = tenantId ∧ d.provider = provider ∧ d.providerSub = providerSub then some d else none
    | _ => none

end AccountHeap

/-! ## Statements -/

structure InviteProvisionInput where
  email : Bytes
  inviteTokenHash : Bytes
  providerSub : Bytes
  now : Int
  deriving DecidableEq

structure NewOAuthIdentity where
  userId : Uuid
  provider : OAuthProvider
  providerSub : Bytes
  email : Bytes
  deriving DecidableEq

structure OAuthIdentityRef where
  id : Uuid
  userId : Uuid
  deriving DecidableEq

structure NewInvite where
  email : Bytes
  role : InviteRole
  secretHash : Bytes
  invitedBy : Option Uuid
  expiresAt : Int
  deriving DecidableEq

def OAuthIdentity.ref (d : OAuthIdentity) : OAuthIdentityRef := ⟨d.id, d.userId⟩

def translateRole (inviteRole : InviteRole) : MembershipRole := if inviteRole = .admin then .tenantAdmin else .member

/-- Not the hash of any password. -/
def disabledPassword : Bytes := bs "!disabled"

/-- The condition of `consumeWithClient`. -/
def Invite.consumable (tenantId : Uuid) (n : InviteProvisionInput) (v : Invite) : Prop :=
  v.tenantId = tenantId ∧ v.tokenHash = n.inviteTokenHash ∧ v.email = n.email ∧ v.status = .pending ∧
    n.now < v.expiresAt

instance (tenantId : Uuid) (n : InviteProvisionInput) : DecidablePred (Invite.consumable tenantId n) :=
  fun _ => inferInstanceAs (Decidable (_ ∧ _))

def Invite.consume (now : Int) (v : Invite) : Invite := { v with status := .consumed, consumedAt := some now }

/-- An `UPDATE` of rows of one table that meet a condition. -/
structure RowUpdate where
  cond : AccountRow → Bool
  set : AccountRow → AccountRow

def consumeWithClient (tenantId : Uuid) (n : InviteProvisionInput) : RowUpdate :=
  { cond := fun
      | .invite v => v.consumable tenantId n
      | _ => false
    set := fun
      | .invite v => .invite (v.consume n.now)
      | r => r }

/-- The transactions of a single `UPDATE`. -/
inductive Edit where
  | revoke (id : Uuid)
  | touchLastLogin (id : Uuid) (now : Int)
  deriving DecidableEq

def Edit.update (tenantId : Uuid) : Edit → RowUpdate
  | .revoke id =>
    { cond := fun
        | .invite v => v.tenantId = tenantId ∧ v.id = id ∧ v.status = .pending
        | _ => false
      set := fun
        | .invite v => .invite { v with status := .revoked }
        | r => r }
  | .touchLastLogin id now =>
    { cond := fun
        | .identity d => d.tenantId = tenantId ∧ d.id = id
        | _ => false
      set := fun
        | .identity d => .identity { d with lastLoginAt := some now }
        | r => r }

/-- The user of `insertUserWithMembership`, as `provisionFromInvite` calls it; the rest are column defaults. -/
def provisionedUser (tenantId : Uuid) (email : Bytes) (id : Uuid) : User :=
  { id
    tenantId
    email
    passwordHash := disabledPassword
    displayName := none
    status := bs "active"
    isPlatformOperator := false }

def NewOAuthIdentity.row (tenantId : Uuid) (n : NewOAuthIdentity) (id : Uuid) : OAuthIdentity :=
  { id
    tenantId
    userId := n.userId
    provider := n.provider
    providerSub := n.providerSub
    email := n.email
    lastLoginAt := none }

def NewInvite.row (tenantId : Uuid) (n : NewInvite) (id : Uuid) : Invite :=
  { id
    tenantId
    email := n.email
    role := n.role
    tokenHash := n.secretHash
    status := .pending
    createdBy := n.invitedBy
    expiresAt := n.expiresAt
    consumedAt := none }

def InviteProvisionInput.link (n : InviteProvisionInput) (userId : Uuid) : NewOAuthIdentity :=
  { userId, provider := .google, providerSub := n.providerSub, email := n.email }

/-! ## Transactions -/

/-- `conflicted` is a `ConflictError` before the transaction is rolled back. -/
inductive ProvisionPhase where
  | begun
  | consuming (todo : List AccountKey) (got : Option Invite)
  | consumed (invite : Invite)
  | userInserted (invite : Invite) (userId : Uuid)
  | memberInserted (invite : Invite) (userId : Uuid)
  | relinking (invite : Invite) (userId : Uuid)
  | linked (invite : Invite) (userId identityId : Uuid)
  | conflicted
  /-- The call returns the user; the invite is kept for the record. -/
  | provisioned (inviteId userId : Uuid)
  /-- The call returns null. -/
  | refused
  | threw
  deriving DecidableEq

inductive LinkPhase where
  | begun
  | relinking
  | linked (ref : OAuthIdentityRef)
  | conflicted
  | returned (ref : OAuthIdentityRef)
  /-- The call throws a `ConflictError`. -/
  | refused
  | threw
  deriving DecidableEq

inductive EditPhase where
  | begun
  | updating (todo : List AccountKey) (count : Nat)
  | returned (count : Nat)
  | threw
  deriving DecidableEq

inductive CreatePhase where
  | begun
  | inserted (v : Invite)
  | returned (v : Invite)
  | threw
  deriving DecidableEq

inductive AccountTx where
  | provision (tenantId : Uuid) (n : InviteProvisionInput) (phase : ProvisionPhase)
  | link (tenantId : Uuid) (n : NewOAuthIdentity) (phase : LinkPhase)
  | edit (tenantId : Uuid) (e : Edit) (phase : EditPhase)
  | create (tenantId : Uuid) (n : NewInvite) (phase : CreatePhase)
  deriving DecidableEq

namespace AccountTx

def isBegun : AccountTx → Bool
  | .provision _ _ ph => ph = .begun
  | .link _ _ ph => ph = .begun
  | .edit _ _ ph => ph = .begun
  | .create _ _ ph => ph = .begun

def isOpen : AccountTx → Bool
  | .provision _ _ (.provisioned _ _) => false
  | .provision _ _ .refused => false
  | .provision _ _ .threw => false
  | .link _ _ (.returned _) => false
  | .link _ _ .refused => false
  | .link _ _ .threw => false
  | .edit _ _ (.returned _) => false
  | .edit _ _ .threw => false
  | .create _ _ (.returned _) => false
  | .create _ _ .threw => false
  | _ => true

/-- The call throws what the database said. -/
def threw : AccountTx → AccountTx
  | .provision t n _ => .provision t n .threw
  | .link t n _ => .link t n .threw
  | .edit t e _ => .edit t e .threw
  | .create t n _ => .create t n .threw

end AccountTx

structure Accounts where
  heap : AccountHeap
  txs : Nat → Option AccountTx

namespace Accounts

def setTx (s : Accounts) (i : Nat) (x : AccountTx) : Accounts := { s with txs := Function.update s.txs i (some x) }

def setHeap (s : Accounts) (h : AccountHeap) : Accounts := { s with heap := h }

def table (s : Accounts) (k : AccountKey) : Option AccountRow := s.heap.read k

/-- The row of `RETURNING`, as it was before. -/
def returning (tenantId : Uuid) (n : InviteProvisionInput) : Option AccountRow → Option Invite
  | some (.invite v) => if v.consumable tenantId n then some v else none
  | _ => none

/-- The rest of `linkFirstWithClient` after the savepoint, and what `provisionFromInvite` makes of it. -/
def afterRelink (invite : Invite) (userId : Uuid) : Option OAuthIdentity → ProvisionPhase
  | none => .conflicted
  | some d => if d.userId ≠ userId then .conflicted else .linked invite userId d.id

def afterLinkRelink : Option OAuthIdentity → LinkPhase
  | none => .conflicted
  | some d => .linked d.ref

inductive Step : Accounts → Accounts → Prop where
  | begin {s : Accounts} {i : Nat} {x : AccountTx} :
    s.txs i = none → x.isBegun = true → Step s (s.setTx i x)
  | consumeStart {s : Accounts} {i : Nat} {t : Uuid} {n : InviteProvisionInput} :
    s.txs i = some (.provision t n .begun) →
    Step s (s.setTx i (.provision t n
      (.consuming (s.heap.candidates i (fun r => (consumeWithClient t n).cond r = true)) none)))
  /-- The row is not held by another transaction: its condition is checked on the version there. -/
  | consumeRow {s : Accounts} {i : Nat} {t : Uuid} {n : InviteProvisionInput} {todo : List AccountKey}
      {got : Option Invite} {k : AccountKey} {slot : Slot AccountKey AccountRow} :
    s.txs i = some (.provision t n (.consuming todo got)) → k ∈ todo → s.heap.slot? k = some slot → s.heap.Free i k →
    Step s ((s.setHeap (s.heap.update i k (fun r => (consumeWithClient t n).cond r = true)
      (consumeWithClient t n).set)).setTx i
        (.provision t n (.consuming (todo.filter (· ≠ k)) (got.or (returning t n (slot.visible i))))))
  | consumeNone {s : Accounts} {i : Nat} {t : Uuid} {n : InviteProvisionInput} :
    s.txs i = some (.provision t n (.consuming [] none)) →
    Step s ((s.setHeap (s.heap.commit i)).setTx i (.provision t n .refused))
  | consumeOne {s : Accounts} {i : Nat} {t : Uuid} {n : InviteProvisionInput} {v : Invite} :
    s.txs i = some (.provision t n (.consuming [] (some v))) →
    Step s (s.setTx i (.provision t n (.consumed v)))
  | insertUser {s : Accounts} {i : Nat} {t : Uuid} {n : InviteProvisionInput} {v : Invite} (id : Uuid) :
    s.txs i = some (.provision t n (.consumed v)) → AccountHeap.Fresh (.user id) s.heap →
    AccountHeap.Admits (.user (provisionedUser t n.email id)) s.heap →
    Step s ((s.setHeap (s.heap.insert i (.user id) (.user (provisionedUser t n.email id)))).setTx i
      (.provision t n (.userInserted v id)))
  | insertUserClash {s : Accounts} {i : Nat} {t : Uuid} {n : InviteProvisionInput} {v : Invite} (id : Uuid) :
    s.txs i = some (.provision t n (.consumed v)) →
    AccountHeap.Clash i (.user (provisionedUser t n.email id)) s.heap →
    Step s (s.setTx i (.provision t n .conflicted))
  | insertMembership {s : Accounts} {i : Nat} {t : Uuid} {n : InviteProvisionInput} {v : Invite} {userId : Uuid} :
    s.txs i = some (.provision t n (.userInserted v userId)) → AccountHeap.Fresh (.membership t userId) s.heap →
    AccountHeap.Admits (.membership ⟨t, userId, translateRole v.role⟩) s.heap →
    AccountHeap.Refers i s.heap (.membership ⟨t, userId, translateRole v.role⟩) →
    Step s ((s.setHeap (s.heap.insert i (.membership t userId)
      (.membership ⟨t, userId, translateRole v.role⟩))).setTx i (.provision t n (.memberInserted v userId)))
  | insertMembershipClash {s : Accounts} {i : Nat} {t : Uuid} {n : InviteProvisionInput} {v : Invite} {userId : Uuid} :
    s.txs i = some (.provision t n (.userInserted v userId)) →
    AccountHeap.Clash i (.membership ⟨t, userId, translateRole v.role⟩) s.heap →
    Step s (s.setTx i (.provision t n .conflicted))
  | insertIdentity {s : Accounts} {i : Nat} {t : Uuid} {n : InviteProvisionInput} {v : Invite} {userId : Uuid}
      (id : Uuid) :
    s.txs i = some (.provision t n (.memberInserted v userId)) → AccountHeap.Fresh (.identity id) s.heap →
    AccountHeap.Admits (.identity ((n.link userId).row t id)) s.heap →
    AccountHeap.Refers i s.heap (.identity ((n.link userId).row t id)) →
    Step s ((s.setHeap (s.heap.insert i (.identity id) (.identity ((n.link userId).row t id)))).setTx i
      (.provision t n (.linked v userId id)))
  /-- The `INSERT` is undone by the rollback to the savepoint. -/
  | insertIdentityClash {s : Accounts} {i : Nat} {t : Uuid} {n : InviteProvisionInput} {v : Invite} {userId : Uuid}
      (id : Uuid) :
    s.txs i = some (.provision t n (.memberInserted v userId)) →
    AccountHeap.Clash i (.identity ((n.link userId).row t id)) s.heap →
    Step s (s.setTx i (.provision t n (.relinking v userId)))
  | relink {s : Accounts} {i : Nat} {t : Uuid} {n : InviteProvisionInput} {v : Invite} {userId : Uuid} :
    s.txs i = some (.provision t n (.relinking v userId)) →
    Step s (s.setTx i (.provision t n
      (afterRelink v userId (AccountHeap.findByProviderSub (Slot.visible i) t .google n.providerSub s.heap))))
  | provisionCommit {s : Accounts} {i : Nat} {t : Uuid} {n : InviteProvisionInput} {v : Invite} {userId id : Uuid} :
    s.txs i = some (.provision t n (.linked v userId id)) →
    Step s ((s.setHeap (s.heap.commit i)).setTx i (.provision t n (.provisioned v.id userId)))
  | provisionRollback {s : Accounts} {i : Nat} {t : Uuid} {n : InviteProvisionInput} :
    s.txs i = some (.provision t n .conflicted) →
    Step s ((s.setHeap (s.heap.abort i)).setTx i (.provision t n .refused))
  | linkInsert {s : Accounts} {i : Nat} {t : Uuid} {n : NewOAuthIdentity} (id : Uuid) :
    s.txs i = some (.link t n .begun) → AccountHeap.Fresh (.identity id) s.heap →
    AccountHeap.Admits (.identity (n.row t id)) s.heap → AccountHeap.Refers i s.heap (.identity (n.row t id)) →
    Step s ((s.setHeap (s.heap.insert i (.identity id) (.identity (n.row t id)))).setTx i
      (.link t n (.linked ⟨id, n.userId⟩)))
  | linkClash {s : Accounts} {i : Nat} {t : Uuid} {n : NewOAuthIdentity} (id : Uuid) :
    s.txs i = some (.link t n .begun) → AccountHeap.Clash i (.identity (n.row t id)) s.heap →
    Step s (s.setTx i (.link t n .relinking))
  | linkRelink {s : Accounts} {i : Nat} {t : Uuid} {n : NewOAuthIdentity} :
    s.txs i = some (.link t n .relinking) →
    Step s (s.setTx i (.link t n
      (afterLinkRelink (AccountHeap.findByProviderSub (Slot.visible i) t n.provider n.providerSub s.heap))))
  | linkCommit {s : Accounts} {i : Nat} {t : Uuid} {n : NewOAuthIdentity} {ref : OAuthIdentityRef} :
    s.txs i = some (.link t n (.linked ref)) →
    Step s ((s.setHeap (s.heap.commit i)).setTx i (.link t n (.returned ref)))
  | linkRollback {s : Accounts} {i : Nat} {t : Uuid} {n : NewOAuthIdentity} :
    s.txs i = some (.link t n .conflicted) →
    Step s ((s.setHeap (s.heap.abort i)).setTx i (.link t n .refused))
  | editStart {s : Accounts} {i : Nat} {t : Uuid} {e : Edit} :
    s.txs i = some (.edit t e .begun) →
    Step s (s.setTx i (.edit t e (.updating (s.heap.candidates i (fun r => (e.update t).cond r = true)) 0)))
  | editRow {s : Accounts} {i : Nat} {t : Uuid} {e : Edit} {todo : List AccountKey} {count : Nat} {k : AccountKey}
      {slot : Slot AccountKey AccountRow} :
    s.txs i = some (.edit t e (.updating todo count)) → k ∈ todo → s.heap.slot? k = some slot → s.heap.Free i k →
    Step s ((s.setHeap (s.heap.update i k (fun r => (e.update t).cond r = true) (e.update t).set)).setTx i
      (.edit t e (.updating (todo.filter (· ≠ k))
        (count + if (slot.visible i).any (e.update t).cond then 1 else 0))))
  | editCommit {s : Accounts} {i : Nat} {t : Uuid} {e : Edit} {count : Nat} :
    s.txs i = some (.edit t e (.updating [] count)) →
    Step s ((s.setHeap (s.heap.commit i)).setTx i (.edit t e (.returned count)))
  | createInsert {s : Accounts} {i : Nat} {t : Uuid} {n : NewInvite} (id : Uuid) :
    s.txs i = some (.create t n .begun) → AccountHeap.Fresh (.invite id) s.heap →
    AccountHeap.Admits (.invite (n.row t id)) s.heap → AccountHeap.Refers i s.heap (.invite (n.row t id)) →
    Step s ((s.setHeap (s.heap.insert i (.invite id) (.invite (n.row t id)))).setTx i
      (.create t n (.inserted (n.row t id))))
  | createCommit {s : Accounts} {i : Nat} {t : Uuid} {n : NewInvite} {v : Invite} :
    s.txs i = some (.create t n (.inserted v)) →
    Step s ((s.setHeap (s.heap.commit i)).setTx i (.create t n (.returned v)))
  /-- An error that is not handled, a lost connection, a deadlock. -/
  | abort {s : Accounts} {i : Nat} {x : AccountTx} :
    s.txs i = some x → x.isOpen = true →
    Step s ((s.setHeap (s.heap.abort i)).setTx i x.threw)

/-- The rows meet the constraints of the tables. -/
structure Valid (h : AccountHeap) : Prop where
  keys : (h.map Slot.key).Nodup
  keyed : ∀ s ∈ h, ∀ r, s.HasVersion r → r.key = s.key
  unique : ∀ a ∈ h, ∀ b ∈ h, ∀ r r', a.committed = some r → b.committed = some r' → r.clashes r' = true → a = b
  references : ∀ s ∈ h, ∀ d, s.committed = some (.identity d) → ∃ a ∈ h, a.key = .user d.userId

def system : Runs.System Accounts :=
  { init := fun s => Valid s.heap ∧ (∀ slot ∈ s.heap, slot.pending = none) ∧ s.txs = fun _ => none
    step := Step }

end Accounts

end Logalot
