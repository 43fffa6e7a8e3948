import Logalot.SessionsSound

/-!
# How refresh and logout end

Both calls check only the shape of the presented text and hand its ids to the
database.
-/

namespace Logalot

open Go Pg

namespace Sessions

variable {deps : AuthDeps} {c : RefreshCall} {s : Sessions}

/-- A text that has the shape of a token has UUIDs for its ids. -/
def Readable (raw : Bytes) : Prop := ∀ q, parseRefreshToken raw = some q → q.presented ≠ none

/-! ## Calls -/

def refreshLeft (c : RefreshCall) : Nat :=
  match c.phase with
  | .find => 5
  | .findTenant _ _ => 4
  | .findUser _ _ => 3
  | .rotate _ _ _ _ => 2
  | .revoke _ _ => 1
  | .done _ => 0

def logoutLeft (c : LogoutCall) : Nat :=
  match c.phase with
  | .find => 2
  | .revoke _ => 1
  | .done _ => 0

def RefreshProper (c : RefreshCall) : Prop :=
  match c.phase with
  | .done o => o = .unauthorized ∨ ∃ t, o = .session t
  | _ => ∃ p, c.token = some p

def LogoutProper (c : LogoutCall) : Prop :=
  match c.phase with
  | .done o => o = .loggedOut
  | _ => ∃ p, c.token = some p

def Nearer {γ : Type} (proper : γ → Prop) (left : γ → Nat) (c c' : γ) : Prop :=
  proper c' ∧ (c' = c ∨ left c' < left c)

theorem refreshProper_new (tokens : TokenTable) {raw : Bytes} (h : Readable raw) :
    RefreshProper (refreshCall deps tokens raw) := by
  unfold refreshCall
  cases hq : parseRefreshToken raw with
  | none => exact Or.inl rfl
  | some q =>
    cases hp : q.presented with
    | none => exact absurd hp (h q hq)
    | some p =>
      simp only [hp]
      exact ⟨p, rfl⟩

theorem logoutProper_new (now : Int) {raw : Bytes} (h : Readable raw) : LogoutProper (logoutCall now raw) := by
  unfold logoutCall
  cases hq : parseRefreshToken raw with
  | none => exact rfl
  | some q =>
    cases hp : q.presented with
    | none => exact absurd hp (h q hq)
    | some p =>
      simp only [hp]
      exact ⟨p, rfl⟩

/-! ## A step of the call itself -/

def RefreshNext (c c' : RefreshCall) : Prop := RefreshProper c' ∧ refreshLeft c' < refreshLeft c

def LogoutNext (c c' : LogoutCall) : Prop := LogoutProper c' ∧ logoutLeft c' < logoutLeft c

section Refresh

variable {c : RefreshCall} {p : Presented} (hp : c.token = some p)
include hp

theorem next_afterFind (hph : c.phase = .find) (row : Option RefreshToken) (now : Int) :
    RefreshNext c { c with phase := afterFind deps p row now } := by
  unfold afterFind
  repeat' split
  all_goals simp [RefreshNext, RefreshProper, refreshLeft, hp, hph]

theorem next_afterTenant {row : RefreshToken} {now : Int} (hph : c.phase = .findTenant row now)
    (tenant : Option Tenant) : RefreshNext c { c with phase := afterTenant row now tenant } := by
  unfold afterTenant
  split
  all_goals simp [RefreshNext, RefreshProper, refreshLeft, hp, hph]

theorem next_afterUser {row : RefreshToken} {now : Int} (hph : c.phase = .findUser row now)
    (record : Option AuthRecord) : RefreshNext c { c with phase := afterUser row now record } := by
  unfold afterUser
  repeat' split
  all_goals simp [RefreshNext, RefreshProper, refreshLeft, hp, hph]

theorem next_lost {row : RefreshToken} {now : Int} {record : AuthRecord} {role : Role}
    (hph : c.phase = .rotate row now record role) : RefreshNext c { c with phase := .revoke row.familyId now } := by
  simp [RefreshNext, RefreshProper, refreshLeft, hp, hph]

end Refresh

theorem next_rotate {row : RefreshToken} {now : Int} {record : AuthRecord} {role : Role}
    (hph : c.phase = .rotate row now record role) (t : SessionTokens) :
    RefreshNext c { c with phase := .done (.session t) } := by
  simp [RefreshNext, RefreshProper, refreshLeft, hph]

theorem next_revoke {familyId : Uuid} {now : Int} (hph : c.phase = .revoke familyId now)
    (swept : Option (Uuid × List Uuid)) : RefreshNext c { c with phase := .done .unauthorized, swept } := by
  simp [RefreshNext, RefreshProper, refreshLeft, hph]

theorem next_afterLogoutFind {c : LogoutCall} {p : Presented} (hp : c.token = some p) (hph : c.phase = .find)
    (row : Option RefreshToken) : LogoutNext c { c with phase := afterLogoutFind deps p row } := by
  unfold afterLogoutFind
  repeat' split
  all_goals simp [LogoutNext, LogoutProper, logoutLeft, hp, hph]

theorem next_logoutRevoke {c : LogoutCall} {familyId : Uuid} (hph : c.phase = .revoke familyId) :
    LogoutNext c { c with phase := .done .loggedOut } := by
  simp [LogoutNext, LogoutProper, logoutLeft, hph]

/-! ## Any step -/

theorem next_of_moves {c' : RefreshCall} {p : Presented} {tokens : TokenTable} (hp : c.token = some p)
    (hm : Moves deps s p c tokens c') : RefreshNext c c' := by
  cases hm with
  | find now hph => exact next_afterFind hp hph _ now
  | tenant hph => exact next_afterTenant hp hph _
  | user hph => exact next_afterUser hp hph _
  | rotate secret id hph hr => exact next_rotate hph _
  | lost secret id hph hr => exact next_lost hp hph
  | revoke hph => exact next_revoke hph _

theorem refresh_step {t : Sessions} (hs : Step deps s t) {i : Nat} (hi : s.refreshes i = some c)
    (hc : RefreshProper c) : ∃ c', t.refreshes i = some c' ∧ Nearer RefreshProper refreshLeft c c' := by
  have hsame : Nearer RefreshProper refreshLeft c c := ⟨hc, Or.inl rfl⟩
  rcases refreshes_cases hs with he | ⟨j, raw, hj, rfl⟩ | ⟨j, d, p, tokens, d', hj, hp, hm, rfl⟩
  · exact ⟨c, (congrFun he i).trans hi, hsame⟩
  · exact ⟨c, Runs.update_begun hi hj, hsame⟩
  · have hn := next_of_moves hp hm
    exact Runs.update_related hi hsame hj ⟨hn.1, Or.inr hn.2⟩

theorem logout_step {t : Sessions} (hs : Step deps s t) {i : Nat} {c : LogoutCall} (hi : s.logouts i = some c)
    (hc : LogoutProper c) : ∃ c', t.logouts i = some c' ∧ Nearer LogoutProper logoutLeft c c' := by
  have hsame : Nearer LogoutProper logoutLeft c c := ⟨hc, Or.inl rfl⟩
  have hmoved : ∀ {j : Nat} {d d' : LogoutCall}, s.logouts j = some d → LogoutNext d d' →
      ∃ c', Function.update s.logouts j (some d') i = some c' ∧ Nearer LogoutProper logoutLeft c c' :=
    fun hj hd => Runs.update_related hi hsame hj ⟨hd.1, Or.inr hd.2⟩
  cases hs with
  | logout raw now hj => exact ⟨c, Runs.update_begun hi hj, hsame⟩
  | logoutFind hj hp hph => exact hmoved hj (next_afterLogoutFind hp hph _)
  | logoutRevoke hj hp hph => exact hmoved hj (next_logoutRevoke hph)
  | _ => exact ⟨c, hi, hsame⟩

/-! ## The next step -/

theorem refresh_goes_on {i : Nat} (hi : s.refreshes i = some c)
    (hc : RefreshProper c) (hid : ∃ id, Fresh s.tokens id) (hl : 0 < refreshLeft c) :
    ∃ t c', Step deps s t ∧ t.refreshes i = some c' ∧ refreshLeft c' < refreshLeft c := by
  cases hph : c.phase with
  | find =>
    obtain ⟨p, hp⟩ : ∃ p, c.token = some p := by simpa only [RefreshProper, hph] using hc
    exact ⟨_, _, .refreshFind 0 hi hp hph, Function.update_self .., (next_afterFind hp hph _ 0).2⟩
  | findTenant row now =>
    obtain ⟨p, hp⟩ : ∃ p, c.token = some p := by simpa only [RefreshProper, hph] using hc
    exact ⟨_, _, .refreshTenant hi hp hph, Function.update_self .., (next_afterTenant hp hph _).2⟩
  | findUser row now =>
    obtain ⟨p, hp⟩ : ∃ p, c.token = some p := by simpa only [RefreshProper, hph] using hc
    exact ⟨_, _, .refreshUser hi hp hph, Function.update_self .., (next_afterUser hp hph _).2⟩
  | rotate row now record role =>
    obtain ⟨p, hp⟩ : ∃ p, c.token = some p := by simpa only [RefreshProper, hph] using hc
    obtain ⟨id, hid⟩ := hid
    cases hr : s.tokens.rotate p.tenantId row.id now (successor deps row now []) id with
    | none => exact ⟨_, _, .refreshLost [] id hi hp hph hr, Function.update_self .., (next_lost hp hph).2⟩
    | some tokens =>
      exact ⟨_, _, .refreshRotate [] id hi hp hph hid hr, Function.update_self .., (next_rotate hph _).2⟩
  | revoke familyId now =>
    obtain ⟨p, hp⟩ : ∃ p, c.token = some p := by simpa only [RefreshProper, hph] using hc
    exact ⟨_, _, .refreshRevoke hi hp hph, Function.update_self .., (next_revoke hph _).2⟩
  | done o => simp [refreshLeft, hph] at hl

theorem logout_goes_on {i : Nat} {c : LogoutCall} (hi : s.logouts i = some c)
    (hc : LogoutProper c) (hl : 0 < logoutLeft c) :
    ∃ t c', Step deps s t ∧ t.logouts i = some c' ∧ logoutLeft c' < logoutLeft c := by
  cases hph : c.phase with
  | find =>
    obtain ⟨p, hp⟩ : ∃ p, c.token = some p := by simpa only [LogoutProper, hph] using hc
    exact ⟨_, _, .logoutFind hi hp hph, Function.update_self .., (next_afterLogoutFind hp hph _).2⟩
  | revoke familyId =>
    obtain ⟨p, hp⟩ : ∃ p, c.token = some p := by simpa only [LogoutProper, hph] using hc
    exact ⟨_, _, .logoutRevoke hi hp hph, Function.update_self .., (next_logoutRevoke hph).2⟩
  | done o => simp [logoutLeft, hph] at hl

/-! ## Main result -/

def runsFrom (deps : AuthDeps) (start : Sessions) : Runs.System Sessions :=
  { init := fun s => s = start, step := Step deps }

/-- While the database has an id to give, the call can go on until it ends; no step takes it away from its end. -/
def Advances {γ : Type} (deps : AuthDeps) (call : Sessions → Option γ) (left : γ → Nat) (s : Sessions) (c : γ) : Prop :=
  (∀ t, Step deps s t → ∃ c', call t = some c' ∧ (c' = c ∨ left c' < left c)) ∧
  ((∃ id, Fresh s.tokens id) → 0 < left c → ∃ t c', Step deps s t ∧ call t = some c' ∧ left c' < left c)

/-- Of a call that begins as it should, in any run. -/
theorem advances_run {γ : Type} {proper : γ → Prop} {left : γ → Nat} {start : Sessions} {c : γ}
    (call : Sessions → Option γ)
    (hstep : ∀ {s t : Sessions} {c : γ}, Step deps s t → call s = some c → proper c →
      ∃ c', call t = some c' ∧ Nearer proper left c c')
    (hgoes : ∀ {s : Sessions} {c : γ}, call s = some c → proper c → (∃ id, Fresh s.tokens id) → 0 < left c →
      ∃ t c', Step deps s t ∧ call t = some c' ∧ left c' < left c)
    (h : (runsFrom deps start).Reachable s) (hi : call start = some c) (hc : proper c) :
    ∃ c', call s = some c' ∧ Advances deps call left s c' ∧ proper c' := by
  have hproper : ∃ c', call s = some c' ∧ proper c' := by
    apply h.invariant
    · rintro s rfl
      exact ⟨c, hi, hc⟩
    · rintro s t - ⟨d, hd, hdp⟩ hs
      obtain ⟨d', hd', hn⟩ := hstep hs hd hdp
      exact ⟨d', hd', hn.1⟩
  obtain ⟨c', hi', hc'⟩ := hproper
  refine ⟨c', hi', ⟨fun t ht => ?_, hgoes hi' hc'⟩, hc'⟩
  obtain ⟨d, hd, hn⟩ := hstep ht hi' hc'
  exact ⟨d, hd, hn.2⟩

theorem refreshCall_fails (tokens : TokenTable) {raw : Bytes} {q : ParsedRefreshToken}
    (hq : parseRefreshToken raw = some q) (hp : q.presented = none) :
    (refreshCall deps tokens raw).phase = .done .failed := by
  simp only [refreshCall, hq, hp]

theorem logoutCall_fails (now : Int) {raw : Bytes} {q : ParsedRefreshToken} (hq : parseRefreshToken raw = some q)
    (hp : q.presented = none) : (logoutCall now raw).phase = .done .failed := by
  simp only [logoutCall, hq, hp]

/-- **Ends of calls.** Each call begins in any state, with any tokens, tenants and users, among any other calls, and
ends as it should just if the text is readable. -/
theorem refresh_and_logout_end_iff (deps : AuthDeps) (raw : Bytes) (start : Sessions) (i : Nat) :
    ((∀ s, (runsFrom deps (start.setRefresh i (refreshCall deps start.tokens raw))).Reachable s →
      ∃ c, s.refreshes i = some c ∧ Advances deps (fun t => t.refreshes i) refreshLeft s c ∧
        ∀ o, c.phase = .done o → o = .unauthorized ∨ ∃ t, o = .session t) ↔ Readable raw) ∧
    ((∀ now s, (runsFrom deps (start.setLogout i (logoutCall now raw))).Reachable s →
      ∃ c, s.logouts i = some c ∧ Advances deps (fun t => t.logouts i) logoutLeft s c ∧
        ∀ o, c.phase = .done o → o = .loggedOut) ↔ Readable raw) := by
  -- a text that parses and is not readable has failed both calls when they begin
  refine ⟨⟨fun hends q hq hp => ?_, fun h s hs => ?_⟩, ⟨fun hends q hq hp => ?_, fun h now s hs => ?_⟩⟩
  · obtain ⟨c, hc, -, hend⟩ := hends _ (.init rfl)
    have hstart : (start.setRefresh i (refreshCall deps start.tokens raw)).refreshes i = _ := Function.update_self ..
    obtain rfl := Option.some.inj (hstart.symm.trans hc)
    rcases hend .failed (refreshCall_fails start.tokens hq hp) with ho | ⟨t, ho⟩ <;> cases ho
  · obtain ⟨c, hi, hadvances, hc⟩ := advances_run (fun t => t.refreshes i) (fun hs hi hc => refresh_step hs hi hc)
      refresh_goes_on hs (Function.update_self ..) (refreshProper_new start.tokens h)
    refine ⟨c, hi, hadvances, fun o ho => ?_⟩
    simpa only [RefreshProper, ho] using hc
  · obtain ⟨c, hc, -, hend⟩ := hends 0 _ (.init rfl)
    have hstart : (start.setLogout i (logoutCall 0 raw)).logouts i = _ := Function.update_self ..
    obtain rfl := Option.some.inj (hstart.symm.trans hc)
    cases hend .failed (logoutCall_fails 0 hq hp)
  · obtain ⟨c, hi, hadvances, hc⟩ := advances_run (fun t => t.logouts i) (fun hs hi hc => logout_step hs hi hc)
      (fun hi hc _ => logout_goes_on hi hc) hs (Function.update_self ..) (logoutProper_new now h)
    refine ⟨c, hi, hadvances, fun o ho => ?_⟩
    simpa only [LogoutProper, ho] using hc

/-! ## Ids that are no UUIDs -/

def sampleUnreadable : Bytes := bs "lgr_x_y_z"

/-- Whatever is in the database, both calls end with its error. -/
theorem unreadable_token_fails :
    sampleUnreadable ≠ [] ∧
    (∀ (deps : AuthDeps) (s : Sessions), (refreshCall deps s.tokens sampleUnreadable).phase = .done .failed) ∧
    ∀ now, (logoutCall now sampleUnreadable).phase = .done .failed := by
  have hq : parseRefreshToken sampleUnreadable = some ⟨bs "x", bs "y", bs "z"⟩ := by decide
  have hp : ParsedRefreshToken.presented ⟨bs "x", bs "y", bs "z"⟩ = none := by decide
  exact ⟨by decide, fun deps s => refreshCall_fails s.tokens hq hp, fun now => logoutCall_fails now hq hp⟩

theorem readable_sampleToken : Readable sampleToken := by
  intro q hq
  rw [sampleToken, parseRefreshToken_assemble _ _ (by decide)] at hq
  obtain rfl := Option.some.inj hq
  simp [ParsedRefreshToken.presented, uuidIn_uuidOut]

def sampleOpen : Sessions := { sampleStart with tokens := sampleTokens }

theorem sample_logout :
    logoutCall 1 sampleToken = ⟨some samplePresented, 1, .find⟩ ∧
    afterLogoutFind sampleDeps samplePresented (sampleTokens.findById (Uuid.rep 1) (Uuid.rep 4)) =
      .revoke (Uuid.rep 3) := by
  constructor
  · rw [logoutCall, sampleToken, parseRefreshToken_assemble _ _ (by decide)]
    simp [ParsedRefreshToken.presented, uuidIn_uuidOut, samplePresented]
  · rw [show sampleTokens.findById (Uuid.rep 1) (Uuid.rep 4) = some sampleRow by decide, afterLogoutFind]
    exact if_pos rfl

theorem sample_calls_end :
    Readable sampleToken ∧
    (∃ s c t,
      (runsFrom sampleDeps (sampleOpen.setRefresh 0 (refreshCall sampleDeps sampleTokens sampleToken))).Reachable s ∧
      s.refreshes 0 = some c ∧ c.phase = .done (.session t) ∧
      Advances sampleDeps (fun t => t.refreshes 0) refreshLeft s c) ∧
    ∃ s c, (runsFrom sampleDeps (sampleOpen.setLogout 0 (logoutCall 1 sampleToken))).Reachable s ∧
      s.logouts 0 = some c ∧ c.phase = .done .loggedOut ∧
      Advances sampleDeps (fun t => t.logouts 0) logoutLeft s c := by
  have htok := congrArg RefreshCall.token sample_first.1
  have r0 : (runsFrom sampleDeps (sampleOpen.setRefresh 0
    (refreshCall sampleDeps sampleTokens sampleToken))).Reachable _ := .init rfl
  have r1 := r0.step (.refreshFind (i := 0) 1 rfl htok (congrArg RefreshCall.phase sample_first.1))
  have r2 := r1.step (.refreshTenant (i := 0) rfl htok sample_first.2.1)
  have r3 := r2.step (.refreshUser (i := 0) rfl htok sample_login.2.2.1)
  have r4 := r3.step (.refreshRotate (i := 0) (bs "second") (Uuid.rep 5) rfl htok sample_login.2.2.2
    sample_first.2.2.2 sample_first.2.2.1)
  have hout := congrArg LogoutCall.token sample_logout.1
  have l0 : (runsFrom sampleDeps (sampleOpen.setLogout 0 (logoutCall 1 sampleToken))).Reachable _ := .init rfl
  have l1 := l0.step (.logoutFind (i := 0) rfl hout (congrArg LogoutCall.phase sample_logout.1))
  have l2 := l1.step (.logoutRevoke (i := 0) rfl hout sample_logout.2)
  have h := refresh_and_logout_end_iff sampleDeps sampleToken sampleOpen 0
  obtain ⟨c, hc, hca, -⟩ := h.1.mpr readable_sampleToken _ r4
  obtain ⟨d, hd, hda, -⟩ := h.2.mpr readable_sampleToken 1 _ l2
  obtain rfl := Option.some.inj hc
  obtain rfl := Option.some.inj hd
  exact ⟨readable_sampleToken, ⟨_, _, _, r4, rfl, rfl, hca⟩, ⟨_, _, l2, rfl, rfl, hda⟩⟩

end Sessions

end Logalot
