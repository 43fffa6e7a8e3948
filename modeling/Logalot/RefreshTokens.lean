import Mathlib.Order.Basic
import Logalot.Kernel
import Logalot.Lib.Uuid

/-!
# Refresh tokens

The table `refresh_tokens` (`migrations/000012_refresh_tokens.up.sql`), its
repository (`services/control-plane/src/adapters/postgres/refresh-token-repository.ts`)
and the text form of a token (`services/control-plane/src/domain/refresh-token.ts`).
Row level security confines every statement to the tenant it is armed for.
-/

namespace Logalot

open Go Pg

/-! ## Rows -/

/-- `parent` is no column: it records which token a successor was minted for. -/
structure RefreshToken where
  id : Uuid
  tenantId : Uuid
  userId : Uuid
  familyId : Uuid
  tokenHash : Bytes
  expiresAt : Int
  rotatedAt : Option Int
  revokedAt : Option Int
  parent : Option Uuid
  deriving DecidableEq

def RefreshToken.live (r : RefreshToken) : Prop := r.rotatedAt = none ∧ r.revokedAt = none

instance (r : RefreshToken) : Decidable r.live := inferInstanceAs (Decidable (_ ∧ _))

def RefreshToken.SameToken (r r' : RefreshToken) : Prop :=
  r'.id = r.id ∧ r'.tenantId = r.tenantId ∧ r'.userId = r.userId ∧ r'.familyId = r.familyId ∧
    r'.tokenHash = r.tokenHash ∧ r'.expiresAt = r.expiresAt ∧ r'.parent = r.parent

/-- Later versions of a row: the marks are set and stay set. -/
instance : Preorder RefreshToken where
  le r r' := r.SameToken r' ∧ (r.rotatedAt ≠ none → r'.rotatedAt ≠ none) ∧
    (r.revokedAt ≠ none → r'.revokedAt ≠ none)
  le_refl r := ⟨⟨rfl, rfl, rfl, rfl, rfl, rfl, rfl⟩, id, id⟩
  le_trans a b c := by
    rintro ⟨⟨h1, h2, h3, h4, h5, h6, h7⟩, hr, hv⟩ ⟨⟨k1, k2, k3, k4, k5, k6, k7⟩, kr, kv⟩
    exact ⟨⟨k1.trans h1, k2.trans h2, k3.trans h3, k4.trans h4, k5.trans h5, k6.trans h6, k7.trans h7⟩,
      kr ∘ hr, kv ∘ hv⟩

structure NewRefreshToken where
  familyId : Uuid
  userId : Uuid
  tokenHash : Bytes
  expiresAt : Int

def NewRefreshToken.row (n : NewRefreshToken) (tenantId id : Uuid) (parent : Option Uuid) : RefreshToken :=
  { id, tenantId, userId := n.userId, familyId := n.familyId, tokenHash := n.tokenHash
    expiresAt := n.expiresAt, rotatedAt := none, revokedAt := none, parent }

/-! ## The repository -/

abbrev TokenTable := List RefreshToken

namespace TokenTable

def create (db : TokenTable) (tenantId : Uuid) (input : NewRefreshToken) (id : Uuid) : TokenTable :=
  db ++ [input.row tenantId id none]

def findById (db : TokenTable) (tenantId id : Uuid) : Option RefreshToken :=
  db.find? fun r => r.tenantId = tenantId ∧ r.id = id

/-- The condition of the consuming `UPDATE`. -/
def consumable (tenantId presentedId : Uuid) (r : RefreshToken) : Prop :=
  r.tenantId = tenantId ∧ r.id = presentedId ∧ r.live

instance (tenantId presentedId : Uuid) (r : RefreshToken) : Decidable (consumable tenantId presentedId r) :=
  inferInstanceAs (Decidable (_ ∧ _))

def consume (tenantId presentedId : Uuid) (now : Int) (r : RefreshToken) : RefreshToken :=
  if consumable tenantId presentedId r then { r with rotatedAt := some now } else r

/-- The database chooses the id of the successor. -/
def rotate (db : TokenTable) (tenantId presentedId : Uuid) (now : Int) (successor : NewRefreshToken) (id : Uuid) :
    Option TokenTable :=
  if db.any fun r => consumable tenantId presentedId r then
    some (db.map (consume tenantId presentedId now) ++ [successor.row tenantId id (some presentedId)])
  else none

/-- The condition of the revoking `UPDATE`. -/
def revocable (tenantId familyId : Uuid) (r : RefreshToken) : Prop :=
  r.tenantId = tenantId ∧ r.familyId = familyId ∧ r.revokedAt = none

instance (tenantId familyId : Uuid) (r : RefreshToken) : Decidable (revocable tenantId familyId r) :=
  inferInstanceAs (Decidable (_ ∧ _))

def revoke (tenantId familyId : Uuid) (now : Int) (r : RefreshToken) : RefreshToken :=
  if revocable tenantId familyId r then { r with revokedAt := some now } else r

def revokeFamily (db : TokenTable) (tenantId familyId : Uuid) (now : Int) : TokenTable :=
  db.map (revoke tenantId familyId now)

end TokenTable

/-! ## Text form -/

def refreshPrefix : Bytes := bs "lgr"

def refreshSeparator : Bytes := bs "_"

structure ParsedRefreshToken where
  tenantId : Bytes
  tokenId : Bytes
  secret : Bytes
  deriving Repr, DecidableEq

def assembleRefreshToken (tenantId tokenId secret : Bytes) : Bytes :=
  refreshPrefix ++ refreshSeparator ++ tenantId ++ refreshSeparator ++ tokenId ++ refreshSeparator ++ secret

def parseRefreshToken (raw : Bytes) : Option ParsedRefreshToken :=
  match splitN refreshSeparator 4 raw with
  | [pre, tenantId, tokenId, secret] =>
    if pre ≠ refreshPrefix ∨ tenantId = [] ∨ tokenId = [] ∨ secret = [] then none
    else some { tenantId, tokenId, secret }
  | _ => none

theorem splitN_assemble (tenantId tokenId : Uuid) (secret : Bytes) :
    splitN refreshSeparator 4 (assembleRefreshToken (uuidOut tenantId) (uuidOut tokenId) secret) =
      [refreshPrefix, uuidOut tenantId, uuidOut tokenId, secret] := by
  have hs : refreshSeparator = [95] := by decide
  have hp : 95 ∉ refreshPrefix := by decide
  have hcut : ∀ {a : Bytes} (s : Bytes), 95 ∉ a → cut refreshSeparator (a ++ (refreshSeparator ++ s)) =
      some (a, s) := by
    intro a s ha
    rw [hs, cut_append_of_not_mem [] ha, cut_self_append]
    simp
  simp only [assembleRefreshToken, List.append_assoc, splitN, hcut _ hp,
    hcut _ (underscore_not_mem_uuidOut tenantId), hcut _ (underscore_not_mem_uuidOut tokenId)]

theorem parseRefreshToken_assemble (tenantId tokenId : Uuid) {secret : Bytes} (h : secret ≠ []) :
    parseRefreshToken (assembleRefreshToken (uuidOut tenantId) (uuidOut tokenId) secret) =
      some ⟨uuidOut tenantId, uuidOut tokenId, secret⟩ := by
  simp [parseRefreshToken, splitN_assemble, h, uuidOut_ne_nil]

theorem parseRefreshToken_assemble_nil (tenantId tokenId : Uuid) :
    parseRefreshToken (assembleRefreshToken (uuidOut tenantId) (uuidOut tokenId) []) = none := by
  simp [parseRefreshToken, splitN_assemble]

/-! ## Later versions -/

theorem le_consume (tenantId presentedId : Uuid) (now : Int) (r : RefreshToken) :
    r ≤ TokenTable.consume tenantId presentedId now r := by
  unfold TokenTable.consume
  split
  · exact ⟨⟨rfl, rfl, rfl, rfl, rfl, rfl, rfl⟩, fun _ h => (by cases h), id⟩
  · exact le_refl r

theorem le_revoke (tenantId familyId : Uuid) (now : Int) (r : RefreshToken) :
    r ≤ TokenTable.revoke tenantId familyId now r := by
  unfold TokenTable.revoke
  split
  · exact ⟨⟨rfl, rfl, rfl, rfl, rfl, rfl, rfl⟩, id, fun _ h => (by cases h)⟩
  · exact le_refl r

theorem live_of_le {r r' : RefreshToken} (h : r ≤ r') (hl : r'.live) : r.live :=
  ⟨not_ne_iff.mp fun hn => h.2.1 hn hl.1, not_ne_iff.mp fun hn => h.2.2 hn hl.2⟩

end Logalot
