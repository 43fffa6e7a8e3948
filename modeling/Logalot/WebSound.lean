import Mathlib.Data.Finset.Card
import Logalot.SessionsSound
import Logalot.Web

/-!
# Requests with one pair of cookies

Requests of one browser carry the same cookies, of which the access token has
expired. One request renews the session. Of two or more, one rotates the refresh
token and the next one is taken for a thief: the family then has no live token.
-/

namespace Logalot

open Go Pg Table

namespace Web

variable {deps : AuthDeps} {readClaims : Bytes → Option AccessClaims}

/-! ## Steps -/

theorem sessions_cases {w w' : Web} {a : Action} (h : Step deps readClaims w a w') :
    w'.sessions = w.sessions ∨ Sessions.Step deps w.sessions w'.sessions := by
  cases h with
  | control h _ => exact Or.inr h
  | startRefresh _ _ _ hc => exact Or.inr (.refresh _ hc)
  | wait => exact Or.inl rfl
  | send => exact Or.inl rfl
  | start => exact Or.inl rfl
  | unreached => exact Or.inl rfl
  | reply => exact Or.inl rfl
  | lost => exact Or.inl rfl
  | connected => exact Or.inl rfl
  | receive => exact Or.inl rfl

theorem reachable_step {w w' : Web} {a : Action} (h : Step deps readClaims w a w')
    (hr : (Sessions.system deps).Reachable w.sessions) : (Sessions.system deps).Reachable w'.sessions := by
  rcases sessions_cases h with he | hs
  · rw [he]
    exact hr
  · exact hr.step hs

/-! ## Tokens of a cookie -/

def Names (deps : AuthDeps) (raw : Bytes) (r : RefreshToken) : Prop :=
  ∃ secret, raw = assembleRefreshToken (uuidOut r.tenantId) (uuidOut r.id) secret ∧ deps.sha256 secret = r.tokenHash

theorem assemble_ne_nil (tenantId tokenId secret : Bytes) : assembleRefreshToken tenantId tokenId secret ≠ [] := by
  have h : refreshPrefix = [108, 103, 114] := by decide
  simp [assembleRefreshToken, h]

theorem present_of_ne_nil {s : Bytes} (h : s ≠ []) : present (some s) = some s := by
  cases s with
  | nil => exact absurd rfl h
  | cons c s => rfl

theorem refreshCall_assemble (deps : AuthDeps) (tokens : TokenTable) (tenantId tokenId : Uuid) {secret : Bytes}
    (h : secret ≠ []) :
    Sessions.refreshCall deps tokens (assembleRefreshToken (uuidOut tenantId) (uuidOut tokenId) secret) =
      ⟨some ⟨tenantId, tokenId, secret⟩, .find,
        decide (Sessions.Spent deps tokens ⟨tenantId, tokenId, secret⟩), none⟩ := by
  simp [Sessions.refreshCall, parseRefreshToken_assemble tenantId tokenId h, ParsedRefreshToken.presented,
    uuidIn_uuidOut]

theorem findById_of_mem {db : TokenTable} (h : TokensSound db) {r : RefreshToken} (hr : r ∈ db) :
    db.findById r.tenantId r.id = some r := by
  cases hf : db.findById r.tenantId r.id with
  | none => exact absurd (decide_eq_true ⟨rfl, rfl⟩) (List.find?_eq_none.mp hf r hr)
  | some r' =>
    obtain ⟨hm, -, hid⟩ := Sessions.findById_eq_some hf
    rw [h.ids r' hm r hr hid]

/-! ## Stages of the family -/

section Race

variable (row : RefreshToken) (I : Finset Nat)

def Unused (tokens : TokenTable) (calls : Nat → Option RefreshCall) : Prop :=
  (∃ r ∈ tokens, row ≤ r ∧ r.live) ∧
    ∀ i ∈ I, ∀ c, calls i = some c →
      c.swept = none ∧ (∀ f now, c.phase ≠ .revoke f now) ∧ ∀ t, c.phase ≠ .done (.session t)

def Rotated (tokens : TokenTable) (calls : Nat → Option RefreshCall) : Prop :=
  (∃ r ∈ tokens, row ≤ r ∧ ¬ r.live) ∧ (∃ r ∈ tokens, r.familyId = row.familyId ∧ r.live) ∧
    (∃ k ∈ I, ∃ c t, calls k = some c ∧ c.phase = .done (.session t)) ∧
    ∀ i ∈ I, ∀ c, calls i = some c → c.swept = none

def Revoked (tokens : TokenTable) : Prop :=
  (∃ r ∈ tokens, row ≤ r ∧ ¬ r.live) ∧ (∀ r ∈ tokens, r.familyId = row.familyId → ¬ r.live) ∧ 2 ≤ I.card

def Staged (tokens : TokenTable) (calls : Nat → Option RefreshCall) : Prop :=
  Unused row I tokens calls ∨ Rotated row I tokens calls ∨ Revoked row I tokens

def Own (p : Presented) (c : RefreshCall) : Prop :=
  c.token = some p ∧
    match c.phase with
    | .find => True
    | .findTenant r _ => row ≤ r
    | .findUser r _ => row ≤ r
    | .rotate r _ _ _ => row ≤ r
    | .revoke f _ => f = row.familyId
    | .done (.session _) => True
    | .done .unauthorized => True
    | .done _ => False

def family (tokens : TokenTable) : List RefreshToken := tokens.filter fun r => r.familyId = row.familyId

variable {row I} {tokens tokens' : TokenTable} {calls calls' : Nat → Option RefreshCall} {r : RefreshToken} {w : Web}
variable {i : Nat} {c : RefreshCall} {t : Sessions} {cookies : Cookies}

theorem mem_family : r ∈ family row tokens ↔ r ∈ tokens ∧ r.familyId = row.familyId := by
  simp [family]

theorem mem_of_family_eq (h : family row tokens' = family row tokens) (hr : r ∈ tokens)
    (hf : r.familyId = row.familyId) : r ∈ tokens' := by
  have hm := mem_family.mpr ⟨hr, hf⟩
  rw [← h] at hm
  exact (mem_family.mp hm).1

theorem Staged.other (h : Staged row I tokens calls) (hc : ∀ i ∈ I, calls' i = calls i)
    (hf : family row tokens' = family row tokens) : Staged row I tokens' calls' := by
  have hlater : ∀ {P : RefreshToken → Prop}, (∃ r ∈ tokens, row ≤ r ∧ P r) → ∃ r ∈ tokens', row ≤ r ∧ P r := by
    rintro P ⟨r, hr, hle, hP⟩
    exact ⟨r, mem_of_family_eq hf hr (familyId_of_le hle), hle, hP⟩
  rcases h with ⟨hr, hall⟩ | ⟨hr, ⟨n, hn, hnf, hnl⟩, ⟨k, hk, c, t, hck, ht⟩, hall⟩ | ⟨hr, hdead, hcard⟩
  · refine Or.inl ⟨hlater hr, fun i hi c hci => hall i hi c ?_⟩
    rw [← hc i hi]
    exact hci
  · refine Or.inr (Or.inl ⟨hlater hr, ⟨n, mem_of_family_eq hf hn hnf, hnf, hnl⟩, ⟨k, hk, c, t, ?_, ht⟩, ?_⟩)
    · rw [hc k hk]
      exact hck
    · intro i hi c hci
      rw [hc i hi] at hci
      exact hall i hi c hci
  · refine Or.inr (Or.inr ⟨hlater hr, fun r hm hrf => hdead r ?_ hrf, hcard⟩)
    exact mem_of_family_eq hf.symm hm hrf

theorem Staged.exists_le (h : Staged row I tokens calls) : ∃ r ∈ tokens, row ≤ r := by
  rcases h with ⟨⟨r, hr, hle, -⟩, -⟩ | ⟨⟨r, hr, hle, -⟩, -⟩ | ⟨⟨r, hr, hle, -⟩, -⟩
  all_goals exact ⟨r, hr, hle⟩

theorem Staged.update (h : Staged row I tokens calls)
    (hold : ∀ c₀ t, calls i = some c₀ → c₀.phase ≠ .done (.session t))
    (hswept : c.swept = none ∨ ∃ c₀, calls i = some c₀ ∧ i ∈ I ∧ c.swept = c₀.swept)
    (hses : ∀ t, c.phase ≠ .done (.session t))
    (hrev : Unused row I tokens calls → ∀ f now, c.phase ≠ .revoke f now) :
    Staged row I tokens (Function.update calls i (some c)) := by
  have hsw : (∀ j ∈ I, ∀ c₀, calls j = some c₀ → c₀.swept = none) → c.swept = none := by
    intro hall
    rcases hswept with h | ⟨c₀, hc₀, hi, he⟩
    · exact h
    · rw [he]
      exact hall i hi c₀ hc₀
  rcases h with hun | ⟨hr, hn, ⟨k, hk, c₁, t, hck, ht⟩, hall⟩ | hdead
  · refine Or.inl ⟨hun.1, fun j hj c₀ hc₀ => ?_⟩
    rcases Runs.update_cases hc₀ with ⟨-, rfl⟩ | ⟨-, hc₀⟩
    · exact ⟨hsw fun j hj c₁ hc₁ => (hun.2 j hj c₁ hc₁).1, hrev hun, hses⟩
    · exact hun.2 j hj c₀ hc₀
  · have hki : k ≠ i := by
      rintro rfl
      exact hold c₁ t hck ht
    refine Or.inr (Or.inl ⟨hr, hn, ⟨k, hk, c₁, t, ?_, ht⟩, fun j hj c₀ hc₀ => ?_⟩)
    · rw [Function.update_of_ne hki]
      exact hck
    · rcases Runs.update_cases hc₀ with ⟨-, rfl⟩ | ⟨-, hc₀⟩
      · exact hsw hall
      · exact hall j hj c₀ hc₀
  · exact Or.inr (Or.inr hdead)

/-! ## The steps of a call -/

def Shows (deps : AuthDeps) (p : Presented) (row : RefreshToken) : Prop :=
  p.tenantId = row.tenantId ∧ p.tokenId = row.id ∧ deps.sha256 p.secret = row.tokenHash

variable {p : Presented}

theorem findById_of_le (hp : Shows deps p row) (ht : TokensSound tokens) (hr : r ∈ tokens) (hle : row ≤ r) :
    tokens.findById p.tenantId p.tokenId = some r := by
  rw [hp.1, hp.2.1, ← tenantId_of_le hle, ← id_of_le hle]
  exact findById_of_mem ht hr

theorem Unused.live (ht : TokensSound tokens) (hun : Unused row I tokens calls) (hr : r ∈ tokens)
    (hle : row ≤ r) : r.live := by
  obtain ⟨⟨r', hr', hle', hl⟩, -⟩ := hun
  obtain rfl := ht.ids r' hr' r hr (by rw [id_of_le hle', id_of_le hle])
  exact hl

theorem Staged.not_live (ht : TokensSound tokens) (h : Staged row I tokens calls)
    (hun : ¬ Unused row I tokens calls) (hr : r ∈ tokens) (hle : row ≤ r) : ¬ r.live := by
  have hsome : ∃ r ∈ tokens, row ≤ r ∧ ¬ r.live := by
    rcases h with h | h | h
    · exact absurd h hun
    · exact h.1
    · exact h.1
  obtain ⟨r', hr', hle', hl⟩ := hsome
  obtain rfl := ht.ids r' hr' r hr (by rw [id_of_le hle', id_of_le hle])
  exact hl

theorem afterFind_of_le (hp : Shows deps p row) (hle : row ≤ r) (now : Int) :
    afterFind deps p (some r) now =
      if r.live then if r.expiresAt ≤ now then .done .unauthorized else .findTenant r now
      else .revoke row.familyId now := by
  have hh : deps.sha256 p.secret = r.tokenHash := hp.2.2.trans (tokenHash_of_le hle).symm
  by_cases hl : r.live
  · simp [afterFind, hh, hl, hl.1, hl.2]
  · have hn : r.revokedAt ≠ none ∨ r.rotatedAt ≠ none := by
      by_contra hc
      push Not at hc
      exact hl ⟨hc.2, hc.1⟩
    simp [afterFind, hh, hl, hn, familyId_of_le hle]

def Active (row : RefreshToken) (d : Directory) : Prop :=
  (d.findById row.tenantId).map Tenant.status = some .active ∧
    ∃ record role, d.findCredentialsById row.tenantId row.userId = some record ∧
      record.status = userActive ∧ record.role = some role

theorem afterUser_of_active {d : Directory} (h : Active row d) (hle : row ≤ r) (now : Int) :
    ∃ record role, afterUser r now (d.findCredentialsById row.tenantId r.userId) = .rotate r now record role := by
  obtain ⟨-, record, role, hf, hs, hr⟩ := h
  refine ⟨record, role, ?_⟩
  rw [show r.userId = row.userId from hle.1.2.2.1, hf]
  simp [afterUser, hs, hr]

/-! ## Steps of the control-plane -/

section Control

variable {s t : Sessions} (hinv : Sessions.Inv deps s)
  (hp : Shows deps p row)
  (hst : Staged row I s.tokens s.refreshes) {i : Nat} {c : RefreshCall} (hi : i ∈ I) (hc : s.refreshes i = some c)

include hst hi hc in
theorem Staged.setPhase {ph : RefreshPhase} (hold : ∀ t, c.phase ≠ .done (.session t))
    (hses : ∀ t, ph ≠ .done (.session t))
    (hrev : Unused row I s.tokens s.refreshes → ∀ f now, ph ≠ .revoke f now) :
    Staged row I s.tokens (s.setRefresh i { c with phase := ph }).refreshes := by
  refine hst.update ?_ (Or.inr ⟨c, hc, hi, rfl⟩) hses hrev
  intro c₀ t hc₀
  obtain rfl := Option.some.inj (hc.symm.trans hc₀)
  exact hold t

include hinv hp hst hi hc in
theorem staged_find (hph : c.phase = .find) (now : Int) :
    let ph := afterFind deps p (s.tokens.findById p.tenantId p.tokenId) now
    (c.token = some p → Own row p { c with phase := ph }) ∧
      Staged row I s.tokens (s.setRefresh i { c with phase := ph }).refreshes := by
  obtain ⟨r, hr, hle⟩ := hst.exists_le
  have hf := findById_of_le hp hinv.tokens hr hle
  have ha := afterFind_of_le hp hle now
  simp only [hf]
  constructor
  · intro hct
    refine ⟨hct, ?_⟩
    simp only [ha]
    by_cases hl : r.live
    · by_cases he : r.expiresAt ≤ now
      · simp [hl, he]
      · simpa [hl, he] using hle
    · simp [hl]
  · apply hst.setPhase hi hc
    · intro t
      rw [hph]
      exact fun h => by cases h
    · exact Sessions.afterFind_ne_session p _ now
    · intro hun f now'
      have hl := hun.live hinv.tokens hr hle
      rw [ha, if_pos hl]
      split
      · exact fun h => by cases h
      · exact fun h => by cases h

include hinv hst hi hc in
theorem staged_rotate {r : RefreshToken} {now : Int} (hle : row ≤ r) {secret : Bytes} {id : Uuid}
    {tokens' : TokenTable} {st : SessionTokens}
    (hr : s.tokens.rotate p.tenantId r.id now (successor deps r now secret) id = some tokens') :
    Staged row I tokens' (({ s with tokens := tokens' } : Sessions).setRefresh i
      { c with phase := .done (.session st) }).refreshes := by
  obtain ⟨⟨q, hq, hcons⟩, rfl⟩ := rotate_eq_some hr
  obtain ⟨r₀, hr₀, hle₀⟩ := hst.exists_le
  obtain rfl : r₀ = q := hinv.tokens.ids r₀ hr₀ q hq (by rw [id_of_le hle₀, hcons.2.1, id_of_le hle])
  have hun : Unused row I s.tokens s.refreshes := by
    by_contra hun
    exact hst.not_live hinv.tokens hun hq hle₀ hcons.2.2
  refine Or.inr (Or.inl ⟨?_, ?_, ⟨i, hi, _, st, Function.update_self .., rfl⟩, ?_⟩)
  · refine ⟨_, List.mem_append_left _ (List.mem_map_of_mem hq), le_trans hle₀ (le_consume _ _ _ _), ?_⟩
    exact fun hl => not_live_consume hcons hl.1
  · exact ⟨_, List.mem_append_right _ (List.mem_singleton_self _), (familyId_of_le hle :), rfl, rfl⟩
  · intro j hj c' hc'
    rcases Sessions.setRefresh_cases hc' with ⟨rfl, rfl⟩ | ⟨-, hc'⟩
    · exact (hun.2 j hi c hc).1
    · exact (hun.2 j hj c' hc').1

include hp hst hi hc in
theorem staged_lost {r : RefreshToken} {now : Int} {record : AuthRecord} {role : Role} (hle : row ≤ r)
    {n : NewRefreshToken} {id : Uuid} (hr : s.tokens.rotate p.tenantId r.id now n id = none)
    (hph : c.phase = .rotate r now record role) :
    Staged row I s.tokens (s.setRefresh i { c with phase := .revoke r.familyId now }).refreshes := by
  apply hst.setPhase hi hc
  · intro t
    rw [hph]
    exact fun h => by cases h
  · exact fun t h => by cases h
  · rintro ⟨⟨r₀, hr₀, hle₀, hl⟩, -⟩
    have hcons : TokenTable.consumable p.tenantId r.id r₀ :=
      ⟨(tenantId_of_le hle₀).trans hp.1.symm, (id_of_le hle₀).trans (id_of_le hle).symm, hl⟩
    have hany : (s.tokens.any fun r' => TokenTable.consumable p.tenantId r.id r') = true :=
      List.any_eq_true.mpr ⟨r₀, hr₀, decide_eq_true hcons⟩
    rw [TokenTable.rotate, if_pos hany] at hr
    cases hr

include hinv hp hst hi hc in
theorem staged_revoke {now : Int} {ids : List Uuid} (hph : c.phase = .revoke row.familyId now) :
    Staged row I (s.tokens.revokeFamily p.tenantId row.familyId now)
      (({ s with tokens := s.tokens.revokeFamily p.tenantId row.familyId now } : Sessions).setRefresh i
        { c with phase := .done .unauthorized, swept := some (row.familyId, ids) }).refreshes := by
  have hcard : 2 ≤ I.card := by
    rcases hst with hun | ⟨-, -, ⟨k, hk, c', t, hck, ht⟩, -⟩ | ⟨-, -, h⟩
    · exact absurd hph ((hun.2 i hi c hc).2.1 _ _)
    · have hne : k ≠ i := by
        rintro rfl
        obtain rfl := Option.some.inj (hc.symm.trans hck)
        rw [hph] at ht
        cases ht
      exact Finset.one_lt_card.mpr ⟨k, hk, i, hi, hne⟩
    · exact h
  obtain ⟨r₀, hr₀, hle₀⟩ := hst.exists_le
  -- the family belongs to the tenant of the token, so the revocation reaches all of it
  have hdead : ∀ r ∈ s.tokens, r.familyId = row.familyId →
      (TokenTable.revoke p.tenantId row.familyId now r).revokedAt ≠ none := fun r hr hf =>
    hinv.tokens.revoked now ⟨r₀, hr₀, (tenantId_of_le hle₀).trans hp.1.symm, familyId_of_le hle₀⟩ hr hf
  refine Or.inr (Or.inr ⟨⟨_, List.mem_map_of_mem hr₀, le_trans hle₀ (le_revoke _ _ _ _), ?_⟩, ?_, hcard⟩)
  · exact fun hl => hdead r₀ hr₀ (familyId_of_le hle₀) hl.2
  · intro r' hr' hf hl
    obtain ⟨r, hr, rfl⟩ := List.mem_map.mp hr'
    rw [familyId_of_le (le_revoke _ _ _ r)] at hf
    exact hdead r hr hf hl.2

end Control

/-- **Steps of the control-plane.** Those of other clients leave the family alone. -/
theorem staged_step {s : Sessions} (hinv : Sessions.Inv deps s) (hs : Sessions.Step deps s t)
    (hp : Shows deps p row)
    (hact : Active row s.directory) (hguard : ∀ i ∈ I, s.refreshes i = none → t.refreshes i = none)
    (hother : (∀ i ∈ I, t.refreshes i = s.refreshes i) → family row t.tokens = family row s.tokens)
    (hown : ∀ i ∈ I, ∀ c, s.refreshes i = some c → Own row p c) (hst : Staged row I s.tokens s.refreshes) :
    (∀ i ∈ I, ∀ c, t.refreshes i = some c → Own row p c) ∧ Staged row I t.tokens t.refreshes := by
  have same : (∀ i ∈ I, t.refreshes i = s.refreshes i) →
      (∀ i ∈ I, ∀ c, t.refreshes i = some c → Own row p c) ∧ Staged row I t.tokens t.refreshes := by
    intro he
    refine ⟨fun i hi c hc => hown i hi c ?_, hst.other he (hother he)⟩
    rw [← he i hi]
    exact hc
  -- a call outside the race moves, or one of the race, of which the new state is given
  have moved : ∀ {i : Nat} {c' : RefreshCall}, t.refreshes = Function.update s.refreshes i (some c') →
      (i ∈ I → Own row p c' ∧ Staged row I t.tokens t.refreshes) →
      (∀ i ∈ I, ∀ c, t.refreshes i = some c → Own row p c) ∧ Staged row I t.tokens t.refreshes := by
    intro i c' he h
    by_cases hi : i ∈ I
    · refine ⟨fun j hj c hc => ?_, (h hi).2⟩
      rw [he] at hc
      rcases Runs.update_cases hc with ⟨-, rfl⟩ | ⟨-, hc⟩
      · exact (h hi).1
      · exact hown j hj c hc
    · apply same
      intro j hj
      rw [he, Function.update_of_ne]
      rintro rfl
      exact hi hj
  rcases Sessions.refreshes_cases hs with he | ⟨i, raw, hn, rfl⟩ | ⟨i, c, p', tokens, c', hc, hct, hm, rfl⟩
  · exact same fun i _ => congrFun he i
  · apply moved rfl
    intro hi
    have hnone := hguard i hi hn
    rw [show (s.setRefresh i _).refreshes i = some _ from Function.update_self ..] at hnone
    cases hnone
  · apply moved rfl
    intro hi
    have ho := hown i hi c hc
    obtain rfl := Option.some.inj (hct.symm.trans ho.1)
    cases hm with
    | find now hph =>
      have h := staged_find hinv hp hst hi hc hph now
      exact ⟨h.1 hct, h.2⟩
    | @tenant r now hph =>
      have ha : afterTenant r now (s.directory.findById p'.tenantId) = .findUser r now := by
        rw [afterTenant, hp.1, if_pos hact.1]
      rw [ha]
      refine ⟨⟨hct, ?_⟩, hst.setPhase hi hc ?_ (fun t h => by cases h) fun _ _ _ h => by cases h⟩
      · simpa only [hph] using ho.2
      · exact fun t h => by rw [hph] at h; cases h
    | @user r now hph =>
      have hle : row ≤ r := by simpa only [hph] using ho.2
      obtain ⟨record, role, ha⟩ := afterUser_of_active hact hle now
      rw [hp.1, ha]
      refine ⟨⟨hct, hle⟩, hst.setPhase hi hc ?_ (fun t h => by cases h) fun _ _ _ h => by cases h⟩
      exact fun t h => by rw [hph] at h; cases h
    | @rotate r now record role tokens secret id hph hr =>
      have hle : row ≤ r := by simpa only [hph] using ho.2
      exact ⟨⟨hct, trivial⟩, staged_rotate hinv hst hi hc hle hr⟩
    | @lost r now record role secret id hph hr =>
      have hle : row ≤ r := by simpa only [hph] using ho.2
      exact ⟨⟨hct, familyId_of_le hle⟩, staged_lost hp hst hi hc hle hr hph⟩
    | @revoke f now hph =>
      obtain rfl : f = row.familyId := by simpa only [hph] using ho.2
      exact ⟨⟨hct, trivial⟩, staged_revoke hinv hp hst hi hc hph⟩

/-! ## Runs of a browser -/

/-- The browser has sent a set of requests that carry the same cookies, and the refresh token is live. -/
structure SameCookies (deps : AuthDeps) (row : RefreshToken) (I : Finset Nat) (cookies : Cookies) (w : Web) :
    Prop where
  history : (Sessions.system deps).Reachable w.sessions
  active : Active row w.sessions.directory
  requests : ∀ i ∈ I, ∃ handler, w.requests i = some ⟨handler, cookies, .arrived⟩
  calls : ∀ i ∈ I, w.calls i = none
  token : ∃ secret, secret ≠ [] ∧ deps.sha256 secret = row.tokenHash ∧
    cookies.refresh = some (assembleRefreshToken (uuidOut row.tenantId) (uuidOut row.id) secret)
  live : row ∈ w.sessions.tokens ∧ row.live

/-- The tenant and the user stay active, and no one but these requests touches the family. -/
def Alone (row : RefreshToken) (I : Finset Nat) (w : Web) (_ : Action) (w' : Web) : Prop :=
  Active row w'.sessions.directory ∧
    ((∀ i ∈ I, w'.calls i = w.calls i) → family row w'.sessions.tokens = family row w.sessions.tokens)

structure Racing (deps : AuthDeps) (row : RefreshToken) (I : Finset Nat) (p : Presented) (cookies : Cookies) (w : Web) :
    Prop where
  history : (Sessions.system deps).Reachable w.sessions
  active : Active row w.sessions.directory
  requests : ∀ i ∈ I, ∃ r, w.requests i = some r ∧ r.cookies = cookies
  own : ∀ i ∈ I, ∀ c, w.calls i = some c → Own row p c
  staged : Staged row I w.sessions.tokens w.calls

theorem tailProxy_of_keep {auth : TailAuth} (h : auth.setCookies = .keep) :
    (∃ token, tailProxy auth = .connecting token .keep) ∨
      ∃ response, tailProxy auth = .answered response ∧ (response.cookies = .keep ∨ response.cookies = .clear) := by
  unfold tailProxy
  split
  · exact Or.inl ⟨_, by rw [h]⟩
  · exact Or.inr ⟨_, rfl, Or.inl rfl⟩

theorem start_cases (readClaims : Bytes → Option AccessClaims) (nowMs : Int) (cookies : Cookies) (h : Handler) :
    (∃ refreshToken, h.start readClaims nowMs cookies = .refresh refreshToken ∧
      present cookies.refresh = some refreshToken) ∨
    ∃ ph, h.start readClaims nowMs cookies = .done ph ∧ ((∃ token, ph = .connecting token .keep) ∨
      ∃ response, ph = .answered response ∧ (response.cookies = .keep ∨ response.cookies = .clear)) := by
  cases hc : current readClaims nowMs cookies.access with
  | some claims =>
    refine Or.inr ?_
    cases h with
    | getSession =>
      refine ⟨.answered (.session (some (sessionFromClaims claims)) .keep), ?_, Or.inr ⟨_, rfl, Or.inl rfl⟩⟩
      simp only [Handler.start, getSession, Ask.map, hc]
    | tailProxy =>
      refine ⟨Web.tailProxy ⟨true, cookies.access, .keep⟩, ?_, tailProxy_of_keep rfl⟩
      simp only [Handler.start, resolveTailAuth, Ask.map, hc]
  | none =>
    cases hp : present cookies.refresh with
    | none =>
      refine Or.inr ?_
      cases h with
      | getSession =>
        refine ⟨.answered (.session none .clear), ?_, Or.inr ⟨_, rfl, Or.inr rfl⟩⟩
        simp only [Handler.start, getSession, Ask.map, hc, hp]
      | tailProxy =>
        refine ⟨Web.tailProxy ⟨false, none, .keep⟩, ?_, tailProxy_of_keep rfl⟩
        simp only [Handler.start, resolveTailAuth, Ask.map, hc, hp]
    | some token =>
      refine Or.inl ⟨token, ?_, rfl⟩
      cases h with
      | getSession => simp only [Handler.start, getSession, Ask.map, hc, hp]
      | tailProxy => simp only [Handler.start, resolveTailAuth, Ask.map, hc, hp]

theorem start_refresh {nowMs : Int} {refreshToken : Bytes} {h : Handler}
    (hs : h.start readClaims nowMs cookies = .refresh refreshToken) : present cookies.refresh = some refreshToken := by
  rcases start_cases readClaims nowMs cookies h with ⟨token, he, hp⟩ | ⟨ph, he, -⟩
  · rw [hs] at he
    cases he
    exact hp
  · rw [hs] at he
    cases he

theorem requests_update (h : ∀ i ∈ I, ∃ r, w.requests i = some r ∧ r.cookies = cookies) {r r' : Request}
    (hr : w.requests i = some r) (hc : r'.cookies = r.cookies) :
    ∀ j ∈ I, ∃ q, Function.update w.requests i (some r') j = some q ∧ q.cookies = cookies := by
  intro j hj
  obtain ⟨q, hq, hqc⟩ := h j hj
  by_cases e : j = i
  · subst e
    obtain rfl := Option.some.inj (hr.symm.trans hq)
    exact ⟨r', Function.update_self .., hc.trans hqc⟩
  · exact ⟨q, (Function.update_of_ne e ..).trans hq, hqc⟩

theorem racing_step {secret : Bytes} (hsec : secret ≠ [])
    (hcook : cookies.refresh = some (assembleRefreshToken (uuidOut row.tenantId) (uuidOut row.id) secret))
    (hp : Shows deps ⟨row.tenantId, row.id, secret⟩ row) {w' : Web} {a : Action}
    (h : Racing deps row I ⟨row.tenantId, row.id, secret⟩ cookies w)
    (hs : Step deps readClaims w a w') (hok : Alone row I w a w') :
    Racing deps row I ⟨row.tenantId, row.id, secret⟩ cookies w' := by
  have hreach := reachable_step hs h.history
  cases hs with
  | wait _ => exact ⟨hreach, hok.1, h.requests, h.own, h.staged⟩
  | @control _ hst hguard =>
    obtain ⟨hown, hstaged⟩ := staged_step (Sessions.inv_reachable h.history) hst hp h.active
      (fun i hi hn => by
        obtain ⟨r, hr, -⟩ := h.requests i hi
        exact hguard i (by rw [hr]; exact Option.some_ne_none r) hn)
      hok.2 h.own h.staged
    exact ⟨hreach, hok.1, h.requests, hown, hstaged⟩
  | @send i handler hn _ =>
    refine ⟨hreach, hok.1, fun j hj => ?_, h.own, h.staged⟩
    obtain ⟨r, hr, hrc⟩ := h.requests j hj
    refine ⟨r, (Function.update_of_ne ?_ ..).trans hr, hrc⟩
    rintro rfl
    rw [hn] at hr
    cases hr
  | start hr _ _ => exact ⟨hreach, hok.1, requests_update h.requests hr rfl, h.own, h.staged⟩
  | @startRefresh i r refreshToken hr _ hst hnone =>
    have hreq : ∀ j ∈ I, ∃ q, Function.update w.requests i (some { r with phase := .refreshing }) j = some q ∧
        q.cookies = cookies := requests_update h.requests hr rfl
    by_cases hi : i ∈ I
    · -- the request presents the token of the shared cookies
      obtain ⟨q, hq, hqc⟩ := h.requests i hi
      obtain rfl := Option.some.inj (hr.symm.trans hq)
      have htok := start_refresh hst
      rw [hqc, hcook, present_of_ne_nil (assemble_ne_nil _ _ _)] at htok
      obtain rfl := Option.some.inj htok
      have hcall := refreshCall_assemble deps w.sessions.tokens row.tenantId row.id hsec
      refine ⟨hreach, hok.1, hreq, fun j hj c hc => ?_, ?_⟩
      · rcases Sessions.setRefresh_cases hc with ⟨-, rfl⟩ | ⟨-, hc⟩
        · rw [hcall]
          exact ⟨rfl, trivial⟩
        · exact h.own j hj c hc
      · refine h.staged.update (fun c₀ t hc₀ => ?_) (Or.inl ?_) (fun t => ?_) (fun _ f now => ?_)
        · rw [hnone] at hc₀
          cases hc₀
        · rw [hcall]
        · rw [hcall]
          exact fun h => by cases h
        · rw [hcall]
          exact fun h => by cases h
    · have he : ∀ j ∈ I,
          (w.sessions.setRefresh i (Sessions.refreshCall deps w.sessions.tokens refreshToken)).refreshes j =
          w.sessions.refreshes j := by
        intro j hj
        refine Function.update_of_ne ?_ ..
        rintro rfl
        exact hi hj
      refine ⟨hreach, hok.1, hreq, fun j hj c hc => h.own j hj c ?_, h.staged.other he rfl⟩
      exact (he j hj).symm.trans hc
  | unreached hr _ _ => exact ⟨hreach, hok.1, requests_update h.requests hr rfl, h.own, h.staged⟩
  | reply _ hr _ _ _ => exact ⟨hreach, hok.1, requests_update h.requests hr rfl, h.own, h.staged⟩
  | lost hr _ => exact ⟨hreach, hok.1, requests_update h.requests hr rfl, h.own, h.staged⟩
  | connected _ hr _ => exact ⟨hreach, hok.1, requests_update h.requests hr rfl, h.own, h.staged⟩
  | receive hr _ => exact ⟨hreach, hok.1, requests_update h.requests hr rfl, h.own, h.staged⟩

/-- The refresh call of a request has ended, and not because the token had expired. -/
def Refreshed (w : Web) (i : Nat) : Prop :=
  ∃ c o, w.calls i = some c ∧ c.phase = .done o ∧ (o = .unauthorized → c.swept ≠ none)

/-! ## Main result -/

/-- **One browser against itself.** -/
theorem browser_race {start : Web} (h0 : SameCookies deps row I cookies start)
    (hr : (system deps readClaims start (Alone row I)).Reachable w) :
    (I.card ≤ 1 → ∃ r ∈ w.sessions.tokens, r.familyId = row.familyId ∧ r.live) ∧
    (2 ≤ I.card → (∀ i ∈ I, w.Refreshed i) → ∀ r ∈ w.sessions.tokens, r.familyId = row.familyId → ¬ r.live) := by
  obtain ⟨secret, hsec, hhash, hcook⟩ := h0.token
  have hp : Shows deps ⟨row.tenantId, row.id, secret⟩ row := ⟨rfl, rfl, hhash⟩
  have h : Racing deps row I ⟨row.tenantId, row.id, secret⟩ cookies w := by
    apply hr.invariant
    · rintro _ rfl
      refine ⟨h0.history, h0.active, fun i hi => ?_, fun i hi c hc => ?_,
        Or.inl ⟨⟨row, h0.live.1, le_refl row, h0.live.2⟩, ?_⟩⟩
      · obtain ⟨handler, hreq⟩ := h0.requests i hi
        exact ⟨_, hreq, rfl⟩
      · rw [h0.calls i hi] at hc
        cases hc
      · intro i hi c hc
        rw [h0.calls i hi] at hc
        cases hc
    · rintro w w' - h ⟨a, hs, hok⟩
      exact racing_step hsec hcook hp h hs hok
  constructor
  · intro hcard
    rcases h.staged with ⟨⟨r, hr, hle, hl⟩, -⟩ | ⟨-, hl, -⟩ | ⟨-, -, h2⟩
    · exact ⟨r, hr, familyId_of_le hle, hl⟩
    · exact hl
    · omega
  · intro hcard hall
    rcases h.staged with ⟨-, hun⟩ | ⟨-, -, ⟨k, hk, c, t, hck, ht⟩, hsw⟩ | ⟨-, hdead, -⟩
    · obtain ⟨i, hi⟩ : I.Nonempty := Finset.card_pos.mp (by omega)
      obtain ⟨c, o, hc, hph, ho⟩ := hall i hi
      obtain ⟨hs, -, hses⟩ := hun i hi c hc
      have hown := (h.own i hi c hc).2
      cases o with
      | session t => exact absurd hph (hses t)
      | unauthorized => exact absurd hs (ho rfl)
      | failed => simp only [hph] at hown
      | loggedOut => simp only [hph] at hown
    · -- another request has ended too; it has no session, so it has revoked the family
      obtain ⟨j, hj, hne⟩ := Finset.exists_mem_ne hcard k
      obtain ⟨c', o, hc', hph, ho⟩ := hall j hj
      have hown := h.own j hj c' hc'
      cases o with
      | session t' =>
        have hs : ∀ {c : RefreshCall} {t : SessionTokens}, Own row ⟨row.tenantId, row.id, secret⟩ c →
            c.phase = .done (.session t) → Sessions.HasSession c row.id :=
          fun ho ht => ⟨_, _, ho.1, rfl, ht⟩
        have hjk := (Sessions.inv_reachable h.history).sessions j k c' c row.id hc' hck (hs hown hph)
          (hs (h.own k hk c hck) ht)
        exact absurd hjk hne
      | unauthorized => exact absurd (hsw j hj c' hc') (ho rfl)
      | failed => simp only [Own, hph, and_false] at hown
      | loggedOut => simp only [Own, hph, and_false] at hown
    · exact hdead

/-! ## Runs with one and with two requests -/

theorem step_call (readClaims : Bytes → Option AccessClaims) (hs : Sessions.Step deps w.sessions t) {c' : RefreshCall}
    (hc : w.calls i = some c) (ht : t.refreshes = Function.update w.sessions.refreshes i (some c'))
    {ph ph' : RefreshPhase} (hph : c.phase = ph) (hph' : c'.phase = ph') (hne : ph' ≠ ph) :
    Step deps readClaims w .control { w with sessions := t } ∧ t.refreshes i ≠ w.calls i := by
  refine ⟨.control hs ?_, fun he => ?_⟩
  · intro j _ hj
    rw [ht, Function.update_of_ne]
    · exact hj
    · rintro rfl
      rw [hc] at hj
      cases hj
  · rw [ht, Function.update_self, hc] at he
    have he' := congrArg RefreshCall.phase (Option.some.inj he)
    rw [hph, hph'] at he'
    exact hne he'

theorem reachable_call {start : Web} (hr : (system deps readClaims start (Alone row I)).Reachable w)
    (hs : Sessions.Step deps w.sessions t) {c' : RefreshCall} (hi : i ∈ I) (hc : w.calls i = some c)
    (ht : t.refreshes = Function.update w.sessions.refreshes i (some c')) {ph ph' : RefreshPhase}
    (hph : c.phase = ph) (hph' : c'.phase = ph') (hne : ph' ≠ ph) (ha : Active row t.directory) :
    (system deps readClaims start (Alone row I)).Reachable { w with sessions := t } := by
  obtain ⟨hstep, hcall⟩ := step_call readClaims hs hc ht hph hph' hne
  exact hr.step ⟨.control, hstep, ha, fun he => absurd (he i hi) hcall⟩

def sampleReadClaims (payload : Bytes) : Option AccessClaims :=
  if payload = bs "claims" then some ⟨bs "user", bs "tenant", .member, 0⟩ else none

def sampleCookies : Cookies := ⟨some (bs "header.claims.signature"), some Sessions.sampleToken⟩

def sampleSession : SessionTokens := ⟨Sessions.sampleToken, .member, .rep 1, .rep 2⟩

def loggedIn : Sessions :=
  ({ Sessions.sampleStart with tokens := Sessions.sampleTokens }).setLogin 0
    ⟨Sessions.sampleCommand, .done (.session sampleSession)⟩

theorem reachable_loggedIn : (Sessions.system Sessions.sampleDeps).Reachable loggedIn := by
  have h0 : (Sessions.system Sessions.sampleDeps).Reachable Sessions.sampleStart := .init ⟨rfl, rfl, rfl, rfl⟩
  have h1 := h0.step (.login (i := 0) Sessions.sampleCommand rfl)
  have h2 := h1.step (.loginTenant (i := 0) rfl rfl)
  have h3 := h2.step (.loginCredentials (i := 0) rfl Sessions.sample_login.1)
  have h4 := h3.step (.loginMint (i := 0) (.rep 3) (.rep 4) (bs "first") 0 rfl Sessions.sample_login.2.1
    (fun r hr => by cases hr) (fun r hr => by cases hr))
  simp only [Sessions.setLogin, Function.update_idem] at h4
  exact h4

def sampleWeb (handlers : List Handler) : Web :=
  { sessions := loggedIn
    requests := fun i => handlers[i]?.map fun h => ⟨h, sampleCookies, .arrived⟩
    jar := sampleCookies
    nowMs := 0 }

theorem active_sample : Active Sessions.sampleRow Sessions.sampleDirectory := by
  refine ⟨by decide, Sessions.sampleRecord, .member, by decide, rfl, rfl⟩

theorem sameCookies_sample (handlers : List Handler) :
    SameCookies Sessions.sampleDeps Sessions.sampleRow (Finset.range handlers.length) sampleCookies
      (sampleWeb handlers) := by
  refine ⟨reachable_loggedIn, active_sample, fun i hi => ?_, fun _ _ => rfl, ?_, ?_⟩
  · have hl := Finset.mem_range.mp hi
    exact ⟨handlers[i], by simp [sampleWeb, hl]⟩
  · exact ⟨bs "first", by decide, rfl, rfl⟩
  · exact ⟨List.mem_singleton_self _, rfl, rfl⟩

theorem start_sample (h : Handler) :
    h.start sampleReadClaims 0 sampleCookies = .refresh Sessions.sampleToken := by
  have hc : current sampleReadClaims 0 sampleCookies.access = none := by decide
  have hp : present sampleCookies.refresh = some Sessions.sampleToken := by decide
  cases h with
  | getSession => simp only [Handler.start, getSession, Ask.map, hc, hp]
  | tailProxy => simp only [Handler.start, resolveTailAuth, Ask.map, hc, hp]

def sampleRenewed : SessionTokens :=
  ⟨assembleRefreshToken (uuidOut (.rep 1)) (uuidOut (.rep 5)) (bs "second"), .member, .rep 1, .rep 2⟩

open Sessions in
theorem first_refreshed (h : Handler) (hs : List Handler) :
    ∃ w, (system sampleDeps sampleReadClaims (sampleWeb (h :: hs))
        (Alone sampleRow (Finset.range (h :: hs).length))).Reachable w ∧
      w.sessions.tokens = sampleRotated ∧ w.sessions.directory = sampleDirectory ∧ w.nowMs = 0 ∧
      w.requests = Function.update (sampleWeb (h :: hs)).requests 0 (some ⟨h, sampleCookies, .refreshing⟩) ∧
      (∃ c, w.calls 0 = some c ∧ c.phase = .done (.session sampleRenewed)) ∧ ∀ i, i ≠ 0 → w.calls i = none := by
  have hi : 0 ∈ Finset.range (h :: hs).length := Finset.mem_range.mpr (Nat.succ_pos _)
  have ht := congrArg RefreshCall.token sample_first.1
  have hf := congrArg RefreshCall.phase sample_first.1
  have h0 : (system sampleDeps sampleReadClaims (sampleWeb (h :: hs))
      (Alone sampleRow (Finset.range (h :: hs).length))).Reachable (sampleWeb (h :: hs)) := .init rfl
  have h1 := h0.step ⟨.start 0, .startRefresh (i := 0) (r := ⟨h, sampleCookies, .arrived⟩) rfl rfl (start_sample h) rfl,
    active_sample, fun _ => rfl⟩
  have h2 := reachable_call h1 (.refreshFind (i := 0) 1 rfl ht hf) hi rfl rfl hf sample_first.2.1
    (fun e => by cases e) active_sample
  have h3 := reachable_call h2 (.refreshTenant (i := 0) rfl ht sample_first.2.1) hi rfl rfl sample_first.2.1
    sample_login.2.2.1 (fun e => by cases e) active_sample
  have h4 := reachable_call h3 (.refreshUser (i := 0) rfl ht sample_login.2.2.1) hi rfl rfl sample_login.2.2.1
    sample_login.2.2.2 (fun e => by cases e) active_sample
  have h5 := reachable_call h4 (.refreshRotate (i := 0) (bs "second") (Uuid.rep 5) rfl ht sample_login.2.2.2
    sample_first.2.2.2 sample_first.2.2.1) hi rfl rfl sample_login.2.2.2 rfl
    (fun e => by cases e) active_sample
  refine ⟨_, h5, rfl, rfl, rfl, rfl, ⟨_, rfl, rfl⟩, fun i hi => ?_⟩
  simp [Web.calls, Web.setRequest, Sessions.setRefresh, sampleWeb, loggedIn, sampleStart, Sessions.setLogin, hi]

open Sessions in
theorem two_requests_end_session :
    ∃ w, SameCookies sampleDeps sampleRow (Finset.range 2) sampleCookies (sampleWeb [.getSession, .tailProxy]) ∧
      current sampleReadClaims 0 sampleCookies.access = none ∧
      (system sampleDeps sampleReadClaims (sampleWeb [.getSession, .tailProxy])
        (Alone sampleRow (Finset.range 2))).Reachable w ∧
      (∀ i ∈ Finset.range 2, ∃ r response, w.requests i = some r ∧ r.phase = .answered response) ∧
      ∀ r ∈ w.sessions.tokens, r.familyId = sampleRow.familyId → ¬ r.live := by
  obtain ⟨w, h, htok, hdir, hnow, hreq, ⟨c, hc, hph⟩, hnone⟩ := first_refreshed .getSession [.tailProxy]
  have hact : Active sampleRow w.sessions.directory := hdir ▸ active_sample
  have hcall : refreshCall sampleDeps w.sessions.tokens sampleToken = ⟨some samplePresented, .find, true, none⟩ := by
    rw [htok]
    exact sample_second.1
  have hfind : afterFind sampleDeps samplePresented (w.sessions.tokens.findById (Uuid.rep 1) (Uuid.rep 4)) 2 =
      .revoke (Uuid.rep 3) 2 := by
    rw [htok]
    exact sample_second.2.1
  have ht := congrArg RefreshCall.token hcall
  have hf := congrArg RefreshCall.phase hcall
  have h1 := h.step ⟨.start 1, .startRefresh (i := 1) (r := ⟨.tailProxy, sampleCookies, .arrived⟩)
    (by rw [hreq]; rfl) rfl (by rw [hnow]; exact start_sample _) (hnone 1 (by decide)), hact, fun _ => rfl⟩
  have h2 := reachable_call h1 (.refreshFind (i := 1) 2 rfl ht hf)
    (by decide : 1 ∈ Finset.range 2) rfl rfl hf hfind (fun e => by cases e) hact
  have h3 := reachable_call h2 (.refreshRevoke (i := 1) rfl ht hfind)
    (by decide : 1 ∈ Finset.range 2) rfl rfl hfind rfl (fun e => by cases e) hact
  have h4 := h3.step ⟨.reply 0 [], .reply (i := 0) [] (r := ⟨.getSession, sampleCookies, .refreshing⟩)
    (by simp [Web.setRequest, hreq]) rfl (by simpa [Web.calls, Web.setRequest, Sessions.setRefresh] using hc) hph,
    hact, fun _ => rfl⟩
  have h5 := h4.step ⟨.reply 1 [], .reply (i := 1) [] (r := ⟨.tailProxy, sampleCookies, .refreshing⟩)
    rfl rfl rfl rfl, hact, fun _ => rfl⟩
  refine ⟨_, sameCookies_sample [.getSession, .tailProxy], by decide, h5, fun i hi => ?_, ?_⟩
  · have hi' : i = 0 ∨ i = 1 := by
      have := Finset.mem_range.mp hi
      omega
    rcases hi' with rfl | rfl
    · exact ⟨_, _, rfl, rfl⟩
    · exact ⟨_, _, rfl, rfl⟩
  · have hdead : ∀ r ∈ sampleRotated.revokeFamily (Uuid.rep 1) (Uuid.rep 3) 2, ¬ r.live := by decide
    intro r hr _
    apply hdead r
    rw [← htok]
    exact hr

theorem one_request_keeps_session :
    ∃ w : Web, (∀ i ∈ Finset.range 1, w.Refreshed i) ∧
      ∃ r ∈ w.sessions.tokens, r.familyId = Sessions.sampleRow.familyId ∧ r.live := by
  obtain ⟨w, h, -, -, -, -, ⟨c, hc, hph⟩, -⟩ := first_refreshed .tailProxy []
  refine ⟨w, fun i hi => ?_, (browser_race (sameCookies_sample [.tailProxy]) h).1 (by decide)⟩
  obtain rfl : i = 0 := by
    have := Finset.mem_range.mp hi
    omega
  exact ⟨c, _, hc, hph, fun e => by cases e⟩

end Race

end Web

end Logalot
