import Logalot.AccountsSound
import Logalot.CallbackAloneSound

/-!
# A callback on its own as a run

Of the system of callbacks, in a run in which nothing but this call takes steps.
Each transaction takes its statements one after the other and ends.
-/

namespace Logalot

open Go Pg Mvcc AccountHeap Accounts

/-! ## Statements -/

def OwnWrites (h : AccountHeap) : Prop :=
  ∀ s ∈ h, s.Free 0 ∧ ∀ r, s.committed = some r → s.visible 0 = some r ∨ ∃ v, r = .invite v

variable {h : AccountHeap} {states : List OAuthStateRecord}

theorem OwnWrites.insert (ho : OwnWrites h) (k : AccountKey) (row : AccountRow) :
    OwnWrites (h.insert 0 k row) := by
  intro s hs
  rcases List.mem_append.mp hs with hs | hs
  · exact ho s hs
  · obtain rfl := List.mem_singleton.mp hs
    exact ⟨fun j r hp => (Prod.mk.inj (Option.some.inj hp)).1.symm, fun r hr => by cases hr⟩

section
variable {row : AccountRow} {h : AccountHeap} (ho : OwnWrites h)
include ho

end

section
variable {t userId identityId : Uuid} {n : InviteProvisionInput} {h : AccountHeap}
variable {r : TxResult (Option Uuid) × AccountHeap}

def ProvisionEnds : TxResult (Option Uuid) → ProvisionPhase → Prop
  | .ok none, ph => ph = .refused
  | .ok (some userId), ph => ∃ inviteId, ph = .provisioned inviteId userId
  | .conflict, _ => False
  | .threw, ph => ph = .threw

def EndsAs (t : Uuid) (n : InviteProvisionInput) (h : AccountHeap) (ph : ProvisionPhase)
    (r : TxResult (Option Uuid) × AccountHeap) : Prop :=
  ∃ ph', Relation.ReflTransGen Accounts.Step (solo h (.provision t n ph))
      (solo (nullOnConflict (withTenantTx r)).2 (.provision t n ph')) ∧
    ProvisionEnds (nullOnConflict (withTenantTx r)).1 ph'

theorem EndsAs.head {h' : AccountHeap} {ph ph' : ProvisionPhase}
    (hst : Accounts.Step (solo h (.provision t n ph)) ((solo h' (.provision t n ph)).setTx 0 (.provision t n ph')))
    (he : EndsAs t n h' ph' r) : EndsAs t n h ph r := by
  obtain ⟨ph'', hrun, hend⟩ := he
  exact ⟨ph'', hrun.head (step_solo hst), hend⟩

end

/-! ## A returning user -/

section
variable {t id : Uuid} {now : Int}

end

/-! ## The call -/

def oneCall (a : Accounts) (states : List OAuthStateRecord) (c : CallbackCall) : Callbacks :=
  ⟨a, states, fun i => if i = 0 then some c else none⟩

def CallEnds (deps : OidcDeps) (s : Callbacks) (r : OidcOutcome × CallbackDb) : Prop :=
  ∃ s' c, Relation.ReflTransGen (Callbacks.Step deps) s s' ∧ s'.calls 0 = some c ∧ c.phase = .done r.1 ∧
    s'.accounts.heap = r.2.accounts

section
variable {deps : OidcDeps} {a : Accounts} {states : List OAuthStateRecord} {c : CallbackCall}
variable {r : OidcOutcome × CallbackDb}

theorem CallEnds.head {a' : Accounts} {states' : List OAuthStateRecord} {c' : CallbackCall}
    (hst : Callbacks.Step deps (oneCall a states c) ((oneCall a' states' c).setCall 0 c'))
    (he : CallEnds deps (oneCall a' states' c') r) : CallEnds deps (oneCall a states c) r := by
  obtain ⟨s', c'', hrun, hend⟩ := he
  have hset : (oneCall a' states' c).setCall 0 c' = oneCall a' states' c' := by
    unfold Callbacks.setCall oneCall
    rw [Runs.update_lone fun i e => if_neg e]
  rw [hset] at hst
  exact ⟨s', c'', hrun.head hst, hend⟩

section
variable {x : CallbackInput} {f : OAuthFlow} {claims : GoogleClaims} {tokens : TokenTable}

variable {h : AccountHeap} (hi : ∀ s ∈ h, s.pending = none)
include hi

end

end

end Logalot
