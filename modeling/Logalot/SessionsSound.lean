import Logalot.Sessions
import Logalot.Lib.Table

/-!
# Refresh families

In every interleaving of logins, refreshes and logouts a family has at most one
live token, a token at most one successor and one session, and a refresh with a
spent token is rejected after its family was revoked.
-/

namespace Logalot

open Go Pg Table

/-! ## The table -/

structure TokensSound (db : TokenTable) : Prop where
  ids : ∀ r ∈ db, ∀ r' ∈ db, r.id = r'.id → r = r'
  tenants : ∀ r ∈ db, ∀ r' ∈ db, r.familyId = r'.familyId → r.tenantId = r'.tenantId
  live : ∀ r ∈ db, ∀ r' ∈ db, r.live → r'.live → r.familyId = r'.familyId → r = r'
  parents : ∀ r ∈ db, ∀ p, r.parent = some p → ∃ q ∈ db, q.id = p ∧ q.rotatedAt ≠ none
  successors : ∀ r ∈ db, ∀ r' ∈ db, ∀ p, r.parent = some p → r'.parent = some p → r = r'

theorem tokensSound_nil : TokensSound [] := by
  constructor <;> intro r hr <;> cases hr

section Rows

variable {r r' : RefreshToken} (h : r ≤ r')
include h

theorem id_of_le : r'.id = r.id := h.1.1

theorem tenantId_of_le : r'.tenantId = r.tenantId := h.1.2.1

theorem familyId_of_le : r'.familyId = r.familyId := h.1.2.2.2.1

theorem tokenHash_of_le : r'.tokenHash = r.tokenHash := h.1.2.2.2.2.1

theorem parent_of_le : r'.parent = r.parent := h.1.2.2.2.2.2.2

end Rows

variable {db : TokenTable} {tenantId : Uuid} {n : NewRefreshToken}

theorem TokensSound.map (h : TokensSound db) {f : RefreshToken → RefreshToken}
    (hf : ∀ r, r ≤ f r) : TokensSound (db.map f) := by
  constructor
  · intro _ ha _ hb he
    obtain ⟨r, hr, rfl⟩ := List.mem_map.mp ha
    obtain ⟨r', hr', rfl⟩ := List.mem_map.mp hb
    rw [id_of_le (hf r), id_of_le (hf r')] at he
    rw [h.ids r hr r' hr' he]
  · intro _ ha _ hb he
    obtain ⟨r, hr, rfl⟩ := List.mem_map.mp ha
    obtain ⟨r', hr', rfl⟩ := List.mem_map.mp hb
    rw [familyId_of_le (hf r), familyId_of_le (hf r')] at he
    rw [tenantId_of_le (hf r), tenantId_of_le (hf r')]
    exact h.tenants r hr r' hr' he
  · intro _ ha _ hb hl hl' he
    obtain ⟨r, hr, rfl⟩ := List.mem_map.mp ha
    obtain ⟨r', hr', rfl⟩ := List.mem_map.mp hb
    rw [familyId_of_le (hf r), familyId_of_le (hf r')] at he
    rw [h.live r hr r' hr' (live_of_le (hf r) hl) (live_of_le (hf r') hl') he]
  · intro _ ha p hp
    obtain ⟨r, hr, rfl⟩ := List.mem_map.mp ha
    rw [parent_of_le (hf r)] at hp
    obtain ⟨q, hq, hid, hrot⟩ := h.parents r hr p hp
    exact ⟨f q, List.mem_map_of_mem hq, (id_of_le (hf q)).trans hid, (hf q).2.1 hrot⟩
  · intro _ ha _ hb p hp hp'
    obtain ⟨r, hr, rfl⟩ := List.mem_map.mp ha
    obtain ⟨r', hr', rfl⟩ := List.mem_map.mp hb
    rw [parent_of_le (hf _)] at hp hp'
    rw [h.successors r hr r' hr' p hp hp']

theorem TokensSound.append (h : TokensSound db) {n : RefreshToken}
    (hid : ∀ r ∈ db, r.id ≠ n.id) (hfam : ∀ r ∈ db, r.familyId = n.familyId → r.tenantId = n.tenantId ∧ ¬ r.live)
    (hpar : ∀ p, n.parent = some p →
      (∃ q ∈ db, q.id = p ∧ q.rotatedAt ≠ none) ∧ ∀ r ∈ db, r.parent ≠ some p) :
    TokensSound (db ++ [n]) := by
  have hm : ∀ {r}, r ∈ db ++ [n] → r ∈ db ∨ r = n := fun hr => by simpa using hr
  constructor
  · intro a ha b hb he
    rcases hm ha with hr | rfl <;> rcases hm hb with hr' | rfl
    · exact h.ids a hr b hr' he
    · exact absurd he (hid a hr)
    · exact absurd he.symm (hid b hr')
    · rfl
  · intro a ha b hb he
    rcases hm ha with hr | rfl <;> rcases hm hb with hr' | rfl
    · exact h.tenants a hr b hr' he
    · exact (hfam a hr he).1
    · exact (hfam b hr' he.symm).1.symm
    · rfl
  · intro a ha b hb hl hl' he
    rcases hm ha with hr | rfl <;> rcases hm hb with hr' | rfl
    · exact h.live a hr b hr' hl hl' he
    · exact absurd hl (hfam a hr he).2
    · exact absurd hl' (hfam b hr' he.symm).2
    · rfl
  · intro a ha p hp
    have hq : ∃ q ∈ db, q.id = p ∧ q.rotatedAt ≠ none := by
      rcases hm ha with hr | rfl
      · exact h.parents a hr p hp
      · exact (hpar p hp).1
    obtain ⟨q, hq, hq'⟩ := hq
    exact ⟨q, List.mem_append_left _ hq, hq'⟩
  · intro a ha b hb p hp hp'
    rcases hm ha with hr | rfl <;> rcases hm hb with hr' | rfl
    · exact h.successors a hr b hr' p hp hp'
    · exact absurd hp ((hpar p hp').2 a hr)
    · exact absurd hp' ((hpar p hp).2 b hr')
    · rfl

theorem TokensSound.create (h : TokensSound db) {id : Uuid}
    (hf : Sessions.FreshFamily db n.familyId) (hid : Sessions.Fresh db id) :
    TokensSound (db.create tenantId n id) := by
  refine h.append (n := n.row tenantId id none) hid ?_ ?_
  · intro r hr he
    exact absurd he (hf r hr)
  · intro p hp
    cases hp

theorem rotate_eq_some {db' : TokenTable} {k id : Uuid} {now : Int}
    (h : db.rotate tenantId k now n id = some db') :
    (∃ r ∈ db, TokenTable.consumable tenantId k r) ∧
      db' = db.map (TokenTable.consume tenantId k now) ++ [n.row tenantId id (some k)] := by
  unfold TokenTable.rotate at h
  split at h
  · rename_i ha
    obtain ⟨r, hr, hc⟩ := List.any_eq_true.mp ha
    exact ⟨⟨r, hr, of_decide_eq_true hc⟩, (Option.some.inj h).symm⟩
  · cases h

theorem not_live_consume {k : Uuid} {now : Int} {r : RefreshToken}
    (hc : TokenTable.consumable tenantId k r) : (TokenTable.consume tenantId k now r).rotatedAt ≠ none := by
  rw [TokenTable.consume, if_pos hc]
  exact Option.some_ne_none now

theorem TokensSound.rotate {db' : TokenTable} (h : TokensSound db) {k id : Uuid} {now : Int}
    (hid : Sessions.Fresh db id) (hfam : ∀ r ∈ db, r.id = k → r.familyId = n.familyId)
    (hrot : db.rotate tenantId k now n id = some db') :
    TokensSound db' := by
  obtain ⟨⟨r, hr, hc⟩, rfl⟩ := rotate_eq_some hrot
  have hle := le_consume tenantId k now
  refine (h.map hle).append (n := n.row tenantId id (some k)) ?_ ?_ ?_
  · intro _ hb
    obtain ⟨a, ha, rfl⟩ := List.mem_map.mp hb
    rw [id_of_le (hle a)]
    exact hid a ha
  · intro _ hb he
    obtain ⟨a, ha, rfl⟩ := List.mem_map.mp hb
    rw [familyId_of_le (hle a)] at he
    have hra : r.familyId = a.familyId := (hfam r hr hc.2.1).trans he.symm
    refine ⟨?_, ?_⟩
    · rw [tenantId_of_le (hle a)]
      exact (h.tenants r hr a ha hra).symm.trans hc.1
    · intro hl
      -- the one live token of the family is the one consumed
      obtain rfl := h.live r hr a ha hc.2.2 (live_of_le (hle a) hl) hra
      exact not_live_consume hc hl.1
  · intro p hp
    obtain rfl : k = p := Option.some.inj hp
    refine ⟨⟨_, List.mem_map_of_mem hr, ?_, not_live_consume hc⟩, ?_⟩
    · rw [id_of_le (hle r)]
      exact hc.2.1
    · intro _ hb hpa
      obtain ⟨a, ha, rfl⟩ := List.mem_map.mp hb
      rw [parent_of_le (hle a)] at hpa
      obtain ⟨q, hq, hqid, hqrot⟩ := h.parents a ha k hpa
      obtain rfl := h.ids q hq r hr (hqid.trans hc.2.1.symm)
      exact hqrot hc.2.2.1

theorem grows_rotate {db' : TokenTable} {k id : Uuid} {now : Int}
    (h : db.rotate tenantId k now n id = some db') : Grows db db' := by
  obtain ⟨-, rfl⟩ := rotate_eq_some h
  exact (grows_map (le_consume tenantId k now) db).trans (grows_append _ _)

theorem grows_revokeFamily (db : TokenTable) (tenantId familyId : Uuid) (now : Int) :
    Grows db (db.revokeFamily tenantId familyId now) := grows_map (le_revoke tenantId familyId now) db

theorem TokensSound.revoked (h : TokensSound db) {familyId : Uuid} (now : Int)
    (hr : ∃ r ∈ db, r.tenantId = tenantId ∧ r.familyId = familyId) {a : RefreshToken} (ha : a ∈ db)
    (hf : a.familyId = familyId) : (TokenTable.revoke tenantId familyId now a).revokedAt ≠ none := by
  obtain ⟨r, hr, rfl, rfl⟩ := hr
  have ht : a.tenantId = r.tenantId := h.tenants a ha r hr hf
  unfold TokenTable.revoke
  by_cases hv : a.revokedAt = none
  · rw [if_pos ⟨ht, hf, hv⟩]
    exact Option.some_ne_none now
  · rw [if_neg fun hn => hv hn.2.2]
    exact hv

/-! ## Refresh calls -/

namespace Sessions

variable {deps : AuthDeps} {db : TokenTable} {p : Presented} {o : Option (Uuid × List Uuid)} {s : Sessions} {i : Nat}
variable {c : RefreshCall}

def Found (db : TokenTable) (p : Presented) (id familyId : Uuid) : Prop :=
  id = p.tokenId ∧ ∃ r ∈ db, r.id = p.tokenId ∧ r.tenantId = p.tenantId ∧ r.familyId = familyId

def Swept (db : TokenTable) (p : Presented) (swept : Option (Uuid × List Uuid)) : Prop :=
  ∃ f ids, swept = some (f, ids) ∧ (∃ r ∈ db, r.id = p.tokenId ∧ r.familyId = f) ∧
    ∀ id ∈ ids, ∃ r ∈ db, r.id = id ∧ r.revokedAt ≠ none

def PhaseSound (deps : AuthDeps) (db : TokenTable) (p : Presented) (spent : Bool)
    (swept : Option (Uuid × List Uuid)) : RefreshPhase → Prop
  | .find => spent = true → Spent deps db p
  | .findTenant row _ => spent = false ∧ Found db p row.id row.familyId
  | .findUser row _ => spent = false ∧ Found db p row.id row.familyId
  | .rotate row _ _ _ => spent = false ∧ Found db p row.id row.familyId
  | .revoke f _ => Found db p p.tokenId f
  | .done (.session _) => spent = false ∧ ∃ r ∈ db, r.id = p.tokenId ∧ r.rotatedAt ≠ none
  | .done o => spent = true → o = .unauthorized ∧ Swept db p swept

def CallSound (deps : AuthDeps) (db : TokenTable) (c : RefreshCall) : Prop :=
  match c.token with
  | some p => PhaseSound deps db p c.spent c.swept c.phase
  | none => c.spent = false ∧ ∀ t, c.phase ≠ .done (.session t)

/-! ## Calls in a growing table -/

section Grows

variable {db db' : TokenTable} (hg : Grows db db')
include hg

theorem Spent.grows {p : Presented} (h : Spent deps db p) : Spent deps db' p := by
  apply hg.exists_mem (P := fun r => r.tenantId = p.tenantId ∧ r.id = p.tokenId ∧
    r.tokenHash = deps.sha256 p.secret ∧ ¬ r.live) _ h
  rintro r r' hle ⟨h1, h2, h3, h4⟩
  exact ⟨(tenantId_of_le hle).trans h1, (id_of_le hle).trans h2, (tokenHash_of_le hle).trans h3,
    fun hl => h4 (live_of_le hle hl)⟩

theorem Found.grows {p : Presented} {id f : Uuid} (h : Found db p id f) : Found db' p id f := by
  refine ⟨h.1, hg.exists_mem ?_ h.2⟩
  rintro r r' hle ⟨h1, h2, h3⟩
  exact ⟨(id_of_le hle).trans h1, (tenantId_of_le hle).trans h2, (familyId_of_le hle).trans h3⟩

theorem Swept.grows {p : Presented} {o : Option (Uuid × List Uuid)} (h : Swept db p o) : Swept db' p o := by
  obtain ⟨f, ids, ho, hr, hids⟩ := h
  refine ⟨f, ids, ho, hg.exists_mem ?_ hr, fun id hid => hg.exists_mem ?_ (hids id hid)⟩
  · rintro r r' hle ⟨h1, h2⟩
    exact ⟨(id_of_le hle).trans h1, (familyId_of_le hle).trans h2⟩
  · rintro r r' hle ⟨h1, h2⟩
    exact ⟨(id_of_le hle).trans h1, hle.2.2 h2⟩

theorem PhaseSound.grows {p : Presented} {spent : Bool} {o : Option (Uuid × List Uuid)} {ph : RefreshPhase}
    (h : PhaseSound deps db p spent o ph) : PhaseSound deps db' p spent o ph := by
  cases ph with
  | find => exact fun hs => (h hs).grows hg
  | findTenant row now => exact ⟨h.1, h.2.grows hg⟩
  | findUser row now => exact ⟨h.1, h.2.grows hg⟩
  | rotate row now record role => exact ⟨h.1, h.2.grows hg⟩
  | revoke f now => exact Found.grows hg h
  | done o =>
    cases o with
    | session t =>
      refine ⟨h.1, hg.exists_mem ?_ h.2⟩
      rintro r r' hle ⟨h1, h2⟩
      exact ⟨(id_of_le hle).trans h1, hle.2.1 h2⟩
    | unauthorized => exact fun hs => ⟨(h hs).1, (h hs).2.grows hg⟩
    | failed => exact fun hs => ⟨(h hs).1, (h hs).2.grows hg⟩
    | loggedOut => exact fun hs => ⟨(h hs).1, (h hs).2.grows hg⟩

theorem CallSound.grows {c : RefreshCall} (h : CallSound deps db c) : CallSound deps db' c := by
  unfold CallSound at h ⊢
  split at h
  · exact h.grows hg
  · exact h

end Grows

/-! ## The steps of a call -/

theorem callSound_new (tokens : TokenTable) (raw : Bytes) :
    CallSound deps tokens (refreshCall deps tokens raw) := by
  unfold refreshCall
  split
  · exact ⟨rfl, fun t h => by cases h⟩
  · split
    · exact ⟨rfl, fun t h => by cases h⟩
    · exact fun h => of_decide_eq_true h

theorem findById_eq_some {tenantId id : Uuid} {r : RefreshToken}
    (h : db.findById tenantId id = some r) : r ∈ db ∧ r.tenantId = tenantId ∧ r.id = id := by
  have hp := List.find?_some h
  simp only [decide_eq_true_eq] at hp
  exact ⟨List.mem_of_find?_eq_some h, hp⟩

theorem exists_findById_of_spent (h : TokensSound db) (hs : Spent deps db p) :
    ∃ row, db.findById p.tenantId p.tokenId = some row ∧ deps.sha256 p.secret = row.tokenHash ∧ ¬ row.live := by
  obtain ⟨r, hr, ht, hid, hh, hl⟩ := hs
  have hsome : (db.findById p.tenantId p.tokenId).isSome := by
    rw [TokenTable.findById, List.find?_isSome]
    exact ⟨r, hr, decide_eq_true ⟨ht, hid⟩⟩
  obtain ⟨row, hrow⟩ := Option.isSome_iff_exists.mp hsome
  obtain ⟨hm, -, hid'⟩ := findById_eq_some hrow
  obtain rfl := h.ids r hr row hm (hid.trans hid'.symm)
  exact ⟨r, hrow, hh.symm, hl⟩

theorem phaseSound_afterFind (h : TokensSound db) {spent : Bool} (hs : spent = true → Spent deps db p) (now : Int) :
    PhaseSound deps db p spent o (afterFind deps p (db.findById p.tenantId p.tokenId) now) := by
  cases hf : db.findById p.tenantId p.tokenId with
  | none =>
    intro hsp
    obtain ⟨row, hrow, -⟩ := exists_findById_of_spent h (hs hsp)
    rw [hf] at hrow
    cases hrow
  | some row =>
    obtain ⟨hm, ht, hid⟩ := findById_eq_some hf
    have hfound : Found db p p.tokenId row.familyId := ⟨rfl, row, hm, hid, ht, rfl⟩
    have hrow : spent = true → deps.sha256 p.secret = row.tokenHash ∧ ¬ row.live := by
      intro hsp
      obtain ⟨row', hrow', hr⟩ := exists_findById_of_spent h (hs hsp)
      rw [hf] at hrow'
      obtain rfl := Option.some.inj hrow'
      exact hr
    simp only [afterFind]
    by_cases hh : deps.sha256 p.secret = row.tokenHash
    · rw [if_neg (not_not.mpr hh)]
      by_cases hl : row.revokedAt ≠ none ∨ row.rotatedAt ≠ none
      · rw [if_pos hl]
        exact hfound
      · rw [if_neg hl]
        have hlive : row.live := by
          rw [not_or, not_ne_iff, not_ne_iff] at hl
          exact ⟨hl.2, hl.1⟩
        have hns : ¬ spent = true := fun hsp => (hrow hsp).2 hlive
        split
        · exact fun hsp => absurd hsp hns
        · exact ⟨Bool.eq_false_iff.mpr hns, hid, hfound.2⟩
    · rw [if_pos hh]
      exact fun hsp => absurd (hrow hsp).1 hh

theorem phaseSound_afterTenant {row : RefreshToken}
    (h : Found db p row.id row.familyId) (now : Int) (tenant : Option Tenant) :
    PhaseSound deps db p false o (afterTenant row now tenant) := by
  unfold afterTenant
  split
  · exact ⟨rfl, h⟩
  · exact ⟨rfl, h.2⟩

theorem phaseSound_afterUser {row : RefreshToken}
    (h : Found db p row.id row.familyId) (now : Int) (record : Option AuthRecord) :
    PhaseSound deps db p false o (afterUser row now record) := by
  unfold afterUser
  split
  · exact ⟨rfl, h.2⟩
  · split
    · exact ⟨rfl, h.2⟩
    · split
      · exact ⟨rfl, h.2⟩
      · exact ⟨rfl, h⟩

theorem swept_revokeFamily (h : TokensSound db) {id f : Uuid} (hf : Found db p id f)
    (now : Int) : Swept (db.revokeFamily p.tenantId f now) p (some (f, familyIds db f)) := by
  obtain ⟨-, r, hr, hid, ht, hfam⟩ := hf
  have hle := le_revoke p.tenantId f now
  refine ⟨f, _, rfl, ⟨_, List.mem_map_of_mem hr, ?_, ?_⟩, ?_⟩
  · exact (id_of_le (hle r)).trans hid
  · exact (familyId_of_le (hle r)).trans hfam
  · intro id' hid'
    obtain ⟨a, ha, rfl⟩ := List.mem_map.mp hid'
    obtain ⟨ha, hfa⟩ := List.mem_filter.mp ha
    exact ⟨_, List.mem_map_of_mem ha, id_of_le (hle a),
      h.revoked now ⟨r, hr, ht, hfam⟩ ha (of_decide_eq_true hfa)⟩

/-! ## The invariant -/

def HasSession (c : RefreshCall) (id : Uuid) : Prop :=
  ∃ p t, c.token = some p ∧ p.tokenId = id ∧ c.phase = .done (.session t)

structure Inv (deps : AuthDeps) (s : Sessions) : Prop where
  tokens : TokensSound s.tokens
  calls : ∀ i c, s.refreshes i = some c → CallSound deps s.tokens c
  sessions : ∀ i j c c' id, s.refreshes i = some c → s.refreshes j = some c' →
    HasSession c id → HasSession c' id → i = j

theorem Inv.rotated (h : Inv deps s) {id : Uuid}
    (hi : s.refreshes i = some c) (hs : HasSession c id) : ∃ r ∈ s.tokens, r.id = id ∧ r.rotatedAt ≠ none := by
  obtain ⟨p, t, hp, rfl, ht⟩ := hs
  have hc := h.calls i c hi
  unfold CallSound at hc
  rw [hp, ht] at hc
  exact hc.2

theorem Inv.phase (h : Inv deps s)
    (hi : s.refreshes i = some c) (hp : c.token = some p) :
    PhaseSound deps s.tokens p c.spent c.swept c.phase := by
  have hc := h.calls i c hi
  unfold CallSound at hc
  rw [hp] at hc
  exact hc

theorem Inv.setTokens {t : Sessions} (h : Inv deps s) (hr : t.refreshes = s.refreshes)
    (ht : TokensSound t.tokens) (hg : Grows s.tokens t.tokens) : Inv deps t := by
  refine ⟨ht, ?_, ?_⟩
  · intro i c hi
    rw [hr] at hi
    exact (h.calls i c hi).grows hg
  · rw [hr]
    exact h.sessions

theorem setRefresh_cases {j : Nat} {c' : RefreshCall}
    (h : (s.setRefresh i c).refreshes j = some c') : (j = i ∧ c' = c) ∨ (j ≠ i ∧ s.refreshes j = some c') :=
  Runs.update_cases h

theorem Inv.setRefresh (h : Inv deps s) (hc : CallSound deps s.tokens c)
    (hs : ∀ id, HasSession c id → ∀ j c', s.refreshes j = some c' → ¬ HasSession c' id) :
    Inv deps (s.setRefresh i c) := by
  refine ⟨h.tokens, ?_, ?_⟩
  · intro j c' hj
    rcases setRefresh_cases hj with ⟨rfl, rfl⟩ | ⟨-, hj⟩
    · exact hc
    · exact h.calls j c' hj
  · intro j k c₁ c₂ id hj hk h₁ h₂
    rcases setRefresh_cases hj with ⟨rfl, rfl⟩ | ⟨-, ho⟩ <;> rcases setRefresh_cases hk with ⟨rfl, rfl⟩ | ⟨-, ho'⟩
    · rfl
    · exact absurd h₂ (hs id h₁ k c₂ ho')
    · exact absurd h₁ (hs id h₂ j c₁ ho)
    · exact h.sessions j k c₁ c₂ id ho ho' h₁ h₂

theorem Inv.setPhase (h : Inv deps s)
    (hp : c.token = some p) {ph : RefreshPhase} (hc : PhaseSound deps s.tokens p c.spent c.swept ph)
    (hn : ∀ t, ph ≠ .done (.session t)) : Inv deps (s.setRefresh i { c with phase := ph }) := by
  apply h.setRefresh
  · unfold CallSound
    simp only [hp]
    exact hc
  · rintro id ⟨_, t, -, -, ht⟩
    exact absurd ht (hn t)

theorem afterFind_ne_session (p : Presented) (row : Option RefreshToken) (now : Int) (t : SessionTokens) :
    afterFind deps p row now ≠ .done (.session t) := by
  unfold afterFind
  split
  · simp
  · repeat' split
    all_goals simp

theorem afterTenant_ne_session (row : RefreshToken) (now : Int) (tenant : Option Tenant) (t : SessionTokens) :
    afterTenant row now tenant ≠ .done (.session t) := by
  unfold afterTenant
  split <;> simp

theorem afterUser_ne_session (row : RefreshToken) (now : Int) (record : Option AuthRecord) (t : SessionTokens) :
    afterUser row now record ≠ .done (.session t) := by
  unfold afterUser
  repeat' split
  all_goals simp

theorem inv_rotate (h : Inv deps s) {row : RefreshToken}
    {now : Int} {record : AuthRecord} {role : Role} {tokens : TokenTable} {n : NewRefreshToken} {id : Uuid}
    {t : SessionTokens} (hi : s.refreshes i = some c) (hp : c.token = some p)
    (hph : c.phase = .rotate row now record role) (hid : Fresh s.tokens id) (hn : n.familyId = row.familyId)
    (hr : s.tokens.rotate p.tenantId row.id now n id = some tokens) :
    Inv deps ({ s with tokens }.setRefresh i { c with phase := .done (.session t) }) := by
  have hc := h.phase hi hp
  rw [hph] at hc
  obtain ⟨hsp, hrow, r, hrm, hrid, -, hrf⟩ := hc
  have hg := grows_rotate hr
  obtain ⟨⟨q, hq, hcons⟩, htok⟩ := rotate_eq_some hr
  have hts : TokensSound tokens := by
    refine h.tokens.rotate hid ?_ hr
    intro a ha hak
    obtain rfl := h.tokens.ids a ha r hrm (by rw [hak, hrid, hrow])
    rw [hrf, hn]
  have hmid : Inv deps { s with tokens } := h.setTokens rfl hts hg
  apply hmid.setRefresh
  · unfold CallSound
    simp only [hp]
    refine ⟨hsp, ?_⟩
    have hmem : TokenTable.consume p.tenantId row.id now q ∈ tokens := by
      rw [htok]
      exact List.mem_append_left _ (List.mem_map_of_mem hq)
    exact ⟨_, hmem, by rw [id_of_le (le_consume _ _ _ q), hcons.2.1, hrow], not_live_consume hcons⟩
  · rintro id' ⟨p', _, hp', rfl, -⟩ j c' hj hs
    obtain ⟨a, ha, hak, hrot⟩ := h.rotated hj hs
    obtain rfl : p = p' := Option.some.inj (hp.symm.trans hp')
    obtain rfl := h.tokens.ids a ha q hq (by rw [hak, hcons.2.1, hrow])
    exact hrot hcons.2.2.1

theorem inv_revoke (h : Inv deps s) {f : Uuid} {now : Int}
    (hi : s.refreshes i = some c) (hp : c.token = some p) (hph : c.phase = .revoke f now) :
    Inv deps ({ s with tokens := s.tokens.revokeFamily p.tenantId f now }.setRefresh i
      { c with phase := .done .unauthorized, swept := some (f, familyIds s.tokens f) }) := by
  have hc := h.phase hi hp
  rw [hph] at hc
  have hmid : Inv deps { s with tokens := s.tokens.revokeFamily p.tenantId f now } :=
    h.setTokens rfl (h.tokens.map (le_revoke _ _ _)) (grows_revokeFamily _ _ _ _)
  apply hmid.setRefresh
  · unfold CallSound
    simp only [hp]
    exact fun _ => ⟨rfl, swept_revokeFamily h.tokens hc now⟩
  · rintro id ⟨_, t, -, -, ht⟩
    cases ht

inductive Moves (deps : AuthDeps) (s : Sessions) (p : Presented) (c : RefreshCall) : TokenTable → RefreshCall → Prop
  | find (now : Int) : c.phase = .find →
      Moves deps s p c s.tokens { c with phase := afterFind deps p (s.tokens.findById p.tenantId p.tokenId) now }
  | tenant {row : RefreshToken} {now : Int} : c.phase = .findTenant row now →
      Moves deps s p c s.tokens { c with phase := afterTenant row now (s.directory.findById p.tenantId) }
  | user {row : RefreshToken} {now : Int} : c.phase = .findUser row now →
      Moves deps s p c s.tokens
        { c with phase := afterUser row now (s.directory.findCredentialsById p.tenantId row.userId) }
  | rotate {row : RefreshToken} {now : Int} {record : AuthRecord} {role : Role} {tokens : TokenTable} (secret : Bytes)
      (id : Uuid) : c.phase = .rotate row now record role →
      s.tokens.rotate p.tenantId row.id now (successor deps row now secret) id = some tokens →
      Moves deps s p c tokens { c with phase := .done (.session
        ⟨assembleRefreshToken (uuidOut p.tenantId) (uuidOut id) secret, role, p.tenantId, record.id⟩) }
  | lost {row : RefreshToken} {now : Int} {record : AuthRecord} {role : Role} (secret : Bytes) (id : Uuid) :
      c.phase = .rotate row now record role →
      s.tokens.rotate p.tenantId row.id now (successor deps row now secret) id = none →
      Moves deps s p c s.tokens { c with phase := .revoke row.familyId now }
  | revoke {familyId : Uuid} {now : Int} : c.phase = .revoke familyId now →
      Moves deps s p c (s.tokens.revokeFamily p.tenantId familyId now)
        { c with phase := .done .unauthorized, swept := some (familyId, familyIds s.tokens familyId) }

theorem refreshes_cases {t : Sessions} (hs : Step deps s t) :
    t.refreshes = s.refreshes ∨
    (∃ i raw, s.refreshes i = none ∧ t = s.setRefresh i (refreshCall deps s.tokens raw)) ∨
    ∃ i c p tokens c', s.refreshes i = some c ∧ c.token = some p ∧ Moves deps s p c tokens c' ∧
      t = { s with tokens }.setRefresh i c' := by
  cases hs with
  | refresh raw hi => exact Or.inr (Or.inl ⟨_, raw, hi, rfl⟩)
  | refreshFind now hi hp hph => exact Or.inr (Or.inr ⟨_, _, _, _, _, hi, hp, .find now hph, rfl⟩)
  | refreshTenant hi hp hph => exact Or.inr (Or.inr ⟨_, _, _, _, _, hi, hp, .tenant hph, rfl⟩)
  | refreshUser hi hp hph => exact Or.inr (Or.inr ⟨_, _, _, _, _, hi, hp, .user hph, rfl⟩)
  | refreshRotate secret id hi hp hph _ hr =>
    exact Or.inr (Or.inr ⟨_, _, _, _, _, hi, hp, .rotate secret id hph hr, rfl⟩)
  | refreshLost secret id hi hp hph hr => exact Or.inr (Or.inr ⟨_, _, _, _, _, hi, hp, .lost secret id hph hr, rfl⟩)
  | refreshRevoke hi hp hph => exact Or.inr (Or.inr ⟨_, _, _, _, _, hi, hp, .revoke hph, rfl⟩)
  | _ => exact Or.inl rfl

theorem inv_step {t : Sessions} (h : Inv deps s) (hs : Step deps s t) : Inv deps t := by
  cases hs with
  | administer d => exact ⟨h.tokens, h.calls, h.sessions⟩
  | login cmd hi => exact ⟨h.tokens, h.calls, h.sessions⟩
  | loginTenant hi hph => exact ⟨h.tokens, h.calls, h.sessions⟩
  | loginCredentials hi hph => exact ⟨h.tokens, h.calls, h.sessions⟩
  | loginMint familyId id secret now hi hph hf hid =>
    exact h.setTokens rfl (h.tokens.create hf hid) (grows_append _ _)
  | refresh raw hi =>
    apply h.setRefresh (callSound_new s.tokens raw)
    rintro id ⟨p, t, hp, -, ht⟩
    unfold refreshCall at ht
    repeat' split at ht
    all_goals cases ht
  | @refreshFind i c p now hi hp hph =>
    have hc := h.phase hi hp
    rw [hph] at hc
    exact h.setPhase hp (phaseSound_afterFind h.tokens hc now) (afterFind_ne_session p _ now)
  | @refreshTenant i c p row now hi hp hph =>
    have hc := h.phase hi hp
    rw [hph] at hc
    apply h.setPhase hp _ (afterTenant_ne_session row now _)
    rw [hc.1]
    exact phaseSound_afterTenant hc.2 now _
  | @refreshUser i c p row now hi hp hph =>
    have hc := h.phase hi hp
    rw [hph] at hc
    apply h.setPhase hp _ (afterUser_ne_session row now _)
    rw [hc.1]
    exact phaseSound_afterUser hc.2 now _
  | refreshRotate secret id hi hp hph hid hr => exact inv_rotate h hi hp hph hid rfl hr
  | @refreshLost i c p row now record role secret id hi hp hph hr =>
    have hc := h.phase hi hp
    rw [hph] at hc
    exact h.setPhase hp ⟨rfl, hc.2.2⟩ (fun t ht => by cases ht)
  | refreshRevoke hi hp hph => exact inv_revoke h hi hp hph
  | logout raw now hi => exact ⟨h.tokens, h.calls, h.sessions⟩
  | logoutFind hi hp hph => exact ⟨h.tokens, h.calls, h.sessions⟩
  | logoutRevoke hi hp hph =>
    exact h.setTokens rfl (h.tokens.map (le_revoke _ _ _)) (grows_revokeFamily _ _ _ _)

theorem inv_reachable (hr : (system deps).Reachable s) : Inv deps s := by
  apply hr.invariant
  · rintro s ⟨ht, -, hc, -⟩
    refine ⟨ht ▸ tokensSound_nil, ?_, ?_⟩
    · intro i c hi
      rw [hc] at hi
      cases hi
    · intro i j c c' id hi
      rw [hc] at hi
      cases hi
  · intro s t _ h hs
    exact inv_step h hs

/-! ## Main result -/

/-- **Families.** `swept` lists the tokens its family had when the call revoked it. -/
theorem families_sound (hr : (system deps).Reachable s) :
    (∀ r ∈ s.tokens, ∀ r' ∈ s.tokens, r.live → r'.live → r.familyId = r'.familyId → r = r') ∧
    (∀ r ∈ s.tokens, ∀ r' ∈ s.tokens, ∀ k, r.parent = some k → r'.parent = some k → r = r') ∧
    (∀ i j c c' id, s.refreshes i = some c → s.refreshes j = some c' →
      HasSession c id → HasSession c' id → i = j) ∧
    (∀ i c o, s.refreshes i = some c → c.spent = true → c.phase = .done o →
      o = .unauthorized ∧ ∃ p f ids, c.token = some p ∧ c.swept = some (f, ids) ∧
        (∃ r ∈ s.tokens, r.id = p.tokenId ∧ r.familyId = f) ∧
        ∀ id ∈ ids, ∀ r ∈ s.tokens, r.id = id → r.revokedAt ≠ none) := by
  have h := inv_reachable hr
  refine ⟨h.tokens.live, h.tokens.successors, h.sessions, ?_⟩
  intro i c o hi hsp hph
  have hc := h.calls i c hi
  unfold CallSound at hc
  cases hp : c.token with
  | none =>
    rw [hp] at hc
    exact absurd (hc.1.symm.trans hsp) Bool.false_ne_true
  | some p =>
    rw [hp, hph] at hc
    have hd : o = .unauthorized ∧ Swept s.tokens p c.swept := by
      cases o with
      | session t => exact absurd (hc.1.symm.trans hsp) Bool.false_ne_true
      | unauthorized => exact hc hsp
      | failed => exact hc hsp
      | loggedOut => exact hc hsp
    obtain ⟨ho, f, ids, hsw, hr', hids⟩ := hd
    refine ⟨ho, p, f, ids, rfl, hsw, hr', ?_⟩
    intro id hid r hrm hrid
    obtain ⟨a, ha, haid, hrev⟩ := hids id hid
    obtain rfl := h.tokens.ids a ha r hrm (haid.trans hrid.symm)
    exact hrev

/-! ## A run with a reused token -/

def sampleDeps : AuthDeps :=
  { sha256 := fun s =>
      if s = bs "first" then
        [167, 147, 123, 100, 184, 202, 165, 143, 3, 114, 27, 182, 186, 207, 92, 120, 203, 35, 95, 235, 224, 231, 11,
         27, 132, 205, 153, 84, 20, 97, 160, 142]
      else
        [22, 54, 122, 172, 182, 122, 74, 1, 124, 141, 168, 171, 149, 104, 44, 203, 57, 8, 99, 120, 15, 113, 20, 221,
         160, 160, 224, 197, 86, 68, 199, 196]
    verify := fun password hash => password = bs "secret" ∧ hash = bs "hash of secret"
    dummyHash := bs "hash of dummy"
    normalizeEmail := id
    refreshTtlSeconds := 604800 }

def sampleTenant : Tenant := ⟨.rep 1, .active⟩

def sampleRecord : AuthRecord := ⟨.rep 2, bs "hash of secret", userActive, some .member⟩

def sampleDirectory : Directory :=
  { findByPublicId := fun slug => if slug = bs "acme" then some sampleTenant else none
    findById := fun id => if id = Uuid.rep 1 then some sampleTenant else none
    findCredentialsByEmail := fun _ email => if email = bs "a@acme" then some sampleRecord else none
    findCredentialsById := fun _ id => if id = Uuid.rep 2 then some sampleRecord else none }

def sampleStart : Sessions := ⟨[], sampleDirectory, fun _ => none, fun _ => none, fun _ => none⟩

def sampleCommand : LoginCommand := ⟨bs "acme", bs "a@acme", bs "secret"⟩

def sampleToken : Bytes := assembleRefreshToken (uuidOut (Uuid.rep 1)) (uuidOut (Uuid.rep 4)) (bs "first")

def samplePresented : Presented := ⟨.rep 1, .rep 4, bs "first"⟩

def sampleTokens : TokenTable :=
  TokenTable.create [] (Uuid.rep 1)
    ⟨.rep 3, .rep 2, sampleDeps.sha256 (bs "first"), 0 + sampleDeps.refreshTtlSeconds * 1000⟩ (Uuid.rep 4)

def sampleRow : RefreshToken :=
  NewRefreshToken.row ⟨.rep 3, .rep 2, sampleDeps.sha256 (bs "first"),
    0 + sampleDeps.refreshTtlSeconds * 1000⟩ (Uuid.rep 1) (Uuid.rep 4) none

def sampleRotated : TokenTable :=
  sampleTokens.map (TokenTable.consume (Uuid.rep 1) (Uuid.rep 4) 1) ++
    [(successor sampleDeps sampleRow 1 (bs "second")).row (Uuid.rep 1) (Uuid.rep 5) (some (Uuid.rep 4))]

theorem sample_first :
    refreshCall sampleDeps sampleTokens sampleToken = ⟨some samplePresented, .find, false, none⟩ ∧
    afterFind sampleDeps samplePresented (sampleTokens.findById (Uuid.rep 1) (Uuid.rep 4)) 1 =
      .findTenant sampleRow 1 ∧
    sampleTokens.rotate (Uuid.rep 1) (Uuid.rep 4) 1 (successor sampleDeps sampleRow 1 (bs "second"))
      (Uuid.rep 5) = some sampleRotated ∧
    ∀ r ∈ sampleTokens, r.id ≠ Uuid.rep 5 := by decide

theorem sample_second :
    refreshCall sampleDeps sampleRotated sampleToken = ⟨some samplePresented, .find, true, none⟩ ∧
    afterFind sampleDeps samplePresented (sampleRotated.findById (Uuid.rep 1) (Uuid.rep 4)) 2 =
      .revoke (Uuid.rep 3) 2 ∧
    familyIds sampleRotated (Uuid.rep 3) = [Uuid.rep 4, Uuid.rep 5] := by decide

theorem sample_login :
    afterFindTenant (sampleDirectory.findByPublicId (bs "acme")) = .findCredentials sampleTenant ∧
    afterFindCredentials sampleDeps sampleCommand sampleTenant
      (sampleDirectory.findCredentialsByEmail (Uuid.rep 1) (sampleDeps.normalizeEmail (bs "a@acme"))) =
        .mint sampleTenant sampleRecord .member ∧
    afterTenant sampleRow 1 (sampleDirectory.findById (Uuid.rep 1)) = .findUser sampleRow 1 ∧
    afterUser sampleRow 1 (sampleDirectory.findCredentialsById (Uuid.rep 1) sampleRow.userId) =
      .rotate sampleRow 1 sampleRecord .member := by decide

theorem reused_token_revokes_family :
    ∃ (s : Sessions) (c : RefreshCall), (system sampleDeps).Reachable s ∧ s.refreshes 1 = some c ∧
      c.spent = true ∧ c.phase = .done .unauthorized ∧
      ∀ id ∈ [Uuid.rep 4, Uuid.rep 5], ∀ r ∈ s.tokens, r.id = id → r.revokedAt ≠ none := by
  have h0 : (system sampleDeps).Reachable sampleStart := .init ⟨rfl, rfl, rfl, rfl⟩
  have h1 := h0.step (.login (i := 0) sampleCommand rfl)
  have h2 := h1.step (.loginTenant (i := 0) rfl rfl)
  have h3 := h2.step (.loginCredentials (i := 0) rfl sample_login.1)
  have h4 := h3.step (.loginMint (i := 0) (Uuid.rep 3) (Uuid.rep 4) (bs "first") 0 rfl sample_login.2.1
    (fun r hr => by cases hr) (fun r hr => by cases hr))
  have h5 := h4.step (.refresh (i := 0) sampleToken rfl)
  have h6 := h5.step (.refreshFind (i := 0) 1 rfl (congrArg RefreshCall.token sample_first.1)
    (congrArg RefreshCall.phase sample_first.1))
  have h7 := h6.step (.refreshTenant (i := 0) rfl (congrArg RefreshCall.token sample_first.1) sample_first.2.1)
  have h8 := h7.step (.refreshUser (i := 0) rfl (congrArg RefreshCall.token sample_first.1) sample_login.2.2.1)
  have h9 := h8.step (.refreshRotate (i := 0) (bs "second") (Uuid.rep 5) rfl
    (congrArg RefreshCall.token sample_first.1) sample_login.2.2.2 sample_first.2.2.2 sample_first.2.2.1)
  have h10 := h9.step (.refresh (i := 1) sampleToken rfl)
  have h11 := h10.step (.refreshFind (i := 1) 2 rfl (congrArg RefreshCall.token sample_second.1)
    (congrArg RefreshCall.phase sample_second.1))
  have h12 := h11.step (.refreshRevoke (i := 1) rfl (congrArg RefreshCall.token sample_second.1) sample_second.2.1)
  obtain ⟨-, p, f, ids, -, hsw, -, hids⟩ :=
    (families_sound h12).2.2.2 1 _ _ rfl (congrArg RefreshCall.spent sample_second.1) rfl
  have he : (Uuid.rep 3, familyIds sampleRotated (Uuid.rep 3)) = (f, ids) := Option.some.inj hsw
  rw [sample_second.2.2] at he
  obtain ⟨rfl, rfl⟩ := Prod.mk.inj he
  exact ⟨_, _, h12, rfl, congrArg RefreshCall.spent sample_second.1, rfl, hids⟩

end Sessions

end Logalot
