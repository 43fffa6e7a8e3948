import Logalot.RefreshTokens
import Logalot.Lib.Mvcc
import Logalot.Lib.Runs

/-!
# Rotation and revocation, statement by statement

The transactions of `rotate` and `revokeFamily` on one family of a tenant
(`refresh-token-repository.ts`, `tenant-tx.ts`) under READ COMMITTED, with their
statements and the rows of an `UPDATE` interleaved in any order.
-/

namespace Logalot

open Go Pg Mvcc

/-- `updating` has the rows the `UPDATE` has yet to act on, and the number it has changed. -/
inductive RotatePhase where
  | begun
  | updating (todo : List Uuid) (count : Nat)
  | consumed
  | inserted (id : Uuid)
  | returned (id : Option Uuid)
  | aborted
  deriving DecidableEq

inductive RevokePhase where
  | begun
  | updating (todo : List Uuid)
  | updated
  | returned
  | aborted
  deriving DecidableEq

inductive Tx where
  | rotate (presentedId : Uuid) (now : Int) (successor : NewRefreshToken) (phase : RotatePhase)
  | revoke (now : Int) (phase : RevokePhase)

structure TokenDb where
  heap : Heap Uuid RefreshToken
  txs : Nat → Option Tx

namespace TokenDb

def setTx (s : TokenDb) (i : Nat) (x : Tx) : TokenDb := { s with txs := Function.update s.txs i (some x) }

def consumeAt (now : Int) (r : RefreshToken) : RefreshToken := { r with rotatedAt := some now }

def revokeAt (now : Int) (r : RefreshToken) : RefreshToken := { r with revokedAt := some now }

/-- What `ROLLBACK` leaves of an open transaction. -/
def aborted : Tx → Tx
  | .rotate k now n _ => .rotate k now n .aborted
  | .revoke now _ => .revoke now .aborted

def isOpen : Tx → Bool
  | .rotate _ _ _ (.returned _) => false
  | .rotate _ _ _ .aborted => false
  | .revoke _ .returned => false
  | .revoke _ .aborted => false
  | _ => true

section Family

variable (tenantId familyId : Uuid)

inductive Step : TokenDb → TokenDb → Prop where
  /-- The token to rotate was found before, in the family its successor is minted for. -/
  | beginRotate {s : TokenDb} {i : Nat} (k : Uuid) (now : Int) (n : NewRefreshToken) :
    s.txs i = none → n.familyId = familyId → s.heap.All (fun r => r.id = k → r.familyId = familyId) →
    Step s (s.setTx i (.rotate k now n .begun))
  | beginRevoke {s : TokenDb} {i : Nat} (now : Int) :
    s.txs i = none → Step s (s.setTx i (.revoke now .begun))
  | rotateStart {s : TokenDb} {i : Nat} {k : Uuid} {now : Int} {n : NewRefreshToken} :
    s.txs i = some (.rotate k now n .begun) →
    Step s (s.setTx i (.rotate k now n
      (.updating (s.heap.candidates i (TokenTable.consumable tenantId k)) 0)))
  /-- The row is not held by another transaction: its condition is checked on the version there. -/
  | rotateRow {s : TokenDb} {i : Nat} {k : Uuid} {now : Int} {n : NewRefreshToken} {todo : List Uuid} {count : Nat}
      {id : Uuid} :
    s.txs i = some (.rotate k now n (.updating todo count)) → id ∈ todo → s.heap.Free i id →
    Step s ({ s with heap := s.heap.update i id (TokenTable.consumable tenantId k) (consumeAt now) }.setTx i
      (.rotate k now n (.updating (todo.filter (· ≠ id))
        (count + if s.heap.qualifies i id (TokenTable.consumable tenantId k) then 1 else 0))))
  /-- Without a consumed row the transaction ends. -/
  | rotateEnd {s : TokenDb} {i : Nat} {k : Uuid} {now : Int} {n : NewRefreshToken} {count : Nat} :
    s.txs i = some (.rotate k now n (.updating [] count)) →
    Step s (s.setTx i (.rotate k now n (if count = 0 then .returned none else .consumed)))
  | rotateInsert {s : TokenDb} {i : Nat} {k : Uuid} {now : Int} {n : NewRefreshToken} (id : Uuid) :
    s.txs i = some (.rotate k now n .consumed) → (∀ slot ∈ s.heap, slot.key ≠ id) →
    Step s ({ s with heap := s.heap.insert i id (n.row tenantId id (some k)) }.setTx i
      (.rotate k now n (.inserted id)))
  | rotateCommit {s : TokenDb} {i : Nat} {k : Uuid} {now : Int} {n : NewRefreshToken} {id : Uuid} :
    s.txs i = some (.rotate k now n (.inserted id)) →
    Step s ({ s with heap := s.heap.commit i }.setTx i (.rotate k now n (.returned (some id))))
  | revokeStart {s : TokenDb} {i : Nat} {now : Int} :
    s.txs i = some (.revoke now .begun) →
    Step s (s.setTx i (.revoke now (.updating (s.heap.candidates i (TokenTable.revocable tenantId familyId)))))
  | revokeRow {s : TokenDb} {i : Nat} {now : Int} {todo : List Uuid} {id : Uuid} :
    s.txs i = some (.revoke now (.updating todo)) → id ∈ todo → s.heap.Free i id →
    Step s ({ s with heap := s.heap.update i id (TokenTable.revocable tenantId familyId) (revokeAt now) }.setTx i
      (.revoke now (.updating (todo.filter (· ≠ id)))))
  | revokeEnd {s : TokenDb} {i : Nat} {now : Int} :
    s.txs i = some (.revoke now (.updating [])) → Step s (s.setTx i (.revoke now .updated))
  | revokeCommit {s : TokenDb} {i : Nat} {now : Int} :
    s.txs i = some (.revoke now .updated) →
    Step s ({ s with heap := s.heap.commit i }.setTx i (.revoke now .returned))
  /-- An error, a lost connection, a deadlock. -/
  | abort {s : TokenDb} {i : Nat} {x : Tx} :
    s.txs i = some x → isOpen x = true →
    Step s ({ s with heap := s.heap.abort i }.setTx i (aborted x))

/-- At first every row is committed, and the family belongs to the tenant. -/
def system : Runs.System TokenDb :=
  { init := fun s => (∀ slot ∈ s.heap, slot.pending = none) ∧
      s.heap.All (fun r => r.familyId = familyId → r.tenantId = tenantId) ∧ s.txs = fun _ => none
    step := Step tenantId familyId }

end Family

def Revoking (s : TokenDb) : Prop := ∃ i now todo, s.txs i = some (.revoke now (.updating todo))

/-- No rotation commits while a `revokeFamily` is executing its `UPDATE`. -/
def CommitsApart (s t : TokenDb) : Prop :=
  ∀ i k now n id, s.txs i = some (.rotate k now n (.inserted id)) →
    t.txs i = some (.rotate k now n (.returned (some id))) → ¬ s.Revoking

end TokenDb

end Logalot
