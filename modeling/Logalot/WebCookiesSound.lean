import Logalot.WebSound

/-!
# The cookies of a browser and its family

A browser that sends one request after another and applies every answer has the
live token of its family, or no session cookies, as long as `tailProxy` passes on
the tokens it has renewed: an answer with an error has no cookies.
-/

namespace Logalot

open Go Pg Table

namespace Web

variable {deps : AuthDeps} {readClaims : Bytes → Option AccessClaims} {familyId : Uuid} {tokens tokens' : TokenTable}
variable {t : Sessions} {raw : Bytes} {i : Nat} {row : RefreshToken} {w : Web} {r : Request} {ph : RequestPhase}
variable {call : Option RefreshCall} {jar : Cookies} {response : Response}

/-! ## The token of a cookie -/

def Holds (deps : AuthDeps) (familyId : Uuid) (tokens : TokenTable) : Option Bytes → Prop
  | none => True
  | some raw => ∃ a ∈ tokens, a.familyId = familyId ∧ Names deps raw a ∧
      ∀ r ∈ tokens, r.familyId = familyId → r.live → r.id = a.id

def NoneAdded (familyId : Uuid) (tokens tokens' : TokenTable) : Prop :=
  ∀ r' ∈ tokens', r'.familyId = familyId → r'.live → ∃ r ∈ tokens, r.id = r'.id ∧ r.familyId = familyId ∧ r.live

theorem Holds.noneAdded {cookie : Option Bytes} (h : Holds deps familyId tokens cookie)
    (hg : Grows tokens tokens') (hn : NoneAdded familyId tokens tokens') : Holds deps familyId tokens' cookie := by
  cases cookie with
  | none => trivial
  | some raw =>
    obtain ⟨a, ha, hf, ⟨secret, hraw, hsec⟩, hlive⟩ := h
    obtain ⟨a', ha', hle⟩ := hg a ha
    refine ⟨a', ha', (familyId_of_le hle).trans hf, ⟨secret, ?_, hsec.trans (tokenHash_of_le hle).symm⟩, ?_⟩
    · rw [hraw, tenantId_of_le hle, id_of_le hle]
    · intro r' hr' hf' hl'
      obtain ⟨r, hr, hid, hrf, hrl⟩ := hn r' hr' hf' hl'
      rw [← hid, id_of_le hle]
      exact hlive r hr hrf hrl

theorem noneAdded_refl (tokens : TokenTable) : NoneAdded familyId tokens tokens :=
  fun r hr hf hl => ⟨r, hr, rfl, hf, hl⟩

theorem noneAdded_revokeFamily (tokens : TokenTable) (tenantId f : Uuid) (now : Int) :
    NoneAdded familyId tokens (tokens.revokeFamily tenantId f now) := by
  intro r' hr' hf hl
  obtain ⟨r, hr, rfl⟩ := List.mem_map.mp hr'
  have hle := le_revoke tenantId f now r
  exact ⟨r, hr, (id_of_le hle).symm, (familyId_of_le hle).symm.trans hf, live_of_le hle hl⟩

theorem grows_step {s : Sessions} (h : Sessions.Step deps s t) : Grows s.tokens t.tokens := by
  cases h with
  | loginMint => exact grows_append _ _
  | refreshRotate _ _ _ _ _ _ hr => exact grows_rotate hr
  | refreshRevoke => exact grows_revokeFamily _ _ _ _
  | logoutRevoke => exact grows_revokeFamily _ _ _ _
  | _ => exact Grows.refl _

/-! ## Refresh calls of a cookie -/

def presents (raw : Bytes) : Option Presented := (parseRefreshToken raw).bind ParsedRefreshToken.presented

theorem refreshCall_presents (deps : AuthDeps) (tokens : TokenTable) (raw : Bytes) :
    (Sessions.refreshCall deps tokens raw).token = presents raw ∧
      ∀ t, (Sessions.refreshCall deps tokens raw).phase ≠ .done (.session t) := by
  unfold Sessions.refreshCall presents
  cases hq : parseRefreshToken raw with
  | none => exact ⟨rfl, fun t h => by cases h⟩
  | some q =>
    cases hp : q.presented with
    | none => simp [hp]
    | some p => simp [hp]

theorem ids_of_names {a : RefreshToken} {p : Presented} (h : Names deps raw a)
    (hp : presents raw = some p) : p.tenantId = a.tenantId ∧ p.tokenId = a.id := by
  obtain ⟨secret, rfl, -⟩ := h
  by_cases hs : secret = []
  · subst hs
    have hn : parseRefreshToken (assembleRefreshToken (uuidOut a.tenantId) (uuidOut a.id) []) = none :=
      parseRefreshToken_assemble_nil a.tenantId a.id
    rw [presents, hn] at hp
    cases hp
  · rw [presents, parseRefreshToken_assemble a.tenantId a.id hs] at hp
    simp only [Option.bind_some, ParsedRefreshToken.presented, uuidIn_uuidOut, Option.some.injEq] at hp
    subst hp
    exact ⟨rfl, rfl⟩

theorem holds_rotate {s : Sessions} (hs : Sessions.Inv deps s) (ht : TokensSound t.tokens) {c : RefreshCall}
    {p : Presented} {now : Int} {record : AuthRecord} {role : Role} {secret : Bytes}
    {id : Uuid} (hi : s.refreshes i = some c) (hp : c.token = some p) (hraw : presents raw = some p)
    (hph : c.phase = .rotate row now record role)
    (hr : s.tokens.rotate p.tenantId row.id now (successor deps row now secret) id = some t.tokens)
    (h : Holds deps familyId s.tokens (some raw)) :
    Holds deps familyId t.tokens (some (assembleRefreshToken (uuidOut p.tenantId) (uuidOut id) secret)) := by
  obtain ⟨a, ha, hf, hn, -⟩ := h
  have hc := hs.phase hi hp
  rw [hph] at hc
  obtain ⟨-, hrow, r, hrm, hrid, -, hrf⟩ := hc
  obtain rfl := hs.tokens.ids r hrm a ha (hrid.trans (ids_of_names hn hraw).2)
  obtain ⟨-, htok⟩ := rotate_eq_some hr
  have hmem : (successor deps row now secret).row p.tenantId id (some row.id) ∈ t.tokens := by
    rw [htok]
    exact List.mem_append_right _ (List.mem_singleton_self _)
  have hfam : row.familyId = familyId := hrf.symm.trans hf
  refine ⟨_, hmem, hfam, ⟨secret, rfl, rfl⟩, fun r' hr' hf' hl => ?_⟩
  rw [ht.live r' hr' _ hmem hl ⟨rfl, rfl⟩ (hf'.trans hfam.symm)]

/-! ## Requests one after another -/

def RequestPhase.Open : RequestPhase → Prop
  | .received _ => False
  | _ => True

def Settled (call : Option RefreshCall) : Prop := ∀ c, call = some c → ∃ o, c.phase = .done o

def Fits (deps : AuthDeps) (familyId : Uuid) (jar : Cookies) (tokens : TokenTable) (call : Option RefreshCall) :
    RequestPhase → Prop
  | .arrived => call = none ∧ Holds deps familyId tokens jar.refresh
  | .refreshing => ∃ raw c, jar.refresh = some raw ∧ call = some c ∧ c.token = presents raw ∧
      (∀ t, c.phase = .done (.session t) → Holds deps familyId tokens (some t.refreshToken)) ∧
      ((∀ t, c.phase ≠ .done (.session t)) → Holds deps familyId tokens (some raw))
  | .connecting _ change => Settled call ∧ Holds deps familyId tokens (change.apply jar).refresh ∧
      (change = .keep ∨ ∃ pair raw, change = .write pair ∧ jar.refresh = some raw)
  | .answered response =>
      (Settled call ∨ (response.cookies.apply jar).refresh = none) ∧
      Holds deps familyId tokens (response.cookies.apply jar).refresh ∧
      (jar.refresh = none → (response.cookies.apply jar).refresh = none)
  | .received _ => jar.refresh = none ∨ Settled call

structure InStep (deps : AuthDeps) (familyId : Uuid) (w : Web) : Prop where
  history : (Sessions.system deps).Reachable w.sessions
  lone : ∀ i j r q, w.requests i = some r → w.requests j = some q → r.phase.Open → q.phase.Open → i = j
  cookies : ∀ i r, w.requests i = some r → r.phase.Open → r.cookies = w.jar
  fits : ∀ i r, w.requests i = some r → Fits deps familyId w.jar w.sessions.tokens (w.calls i) r.phase
  idle : (∀ i r, w.requests i = some r → ¬ r.phase.Open) → Holds deps familyId w.sessions.tokens w.jar.refresh
  cleared : w.jar.refresh = none → w.jar = .none

theorem InStep.fits_at (h : InStep deps familyId w)
    (hr : w.requests i = some r) (hph : r.phase = ph) (ho : ph.Open) :
    r.phase.Open ∧ Fits deps familyId w.jar w.sessions.tokens (w.calls i) ph := by
  subst hph
  exact ⟨ho, h.fits i r hr⟩

/-! ## Steps of the control-plane -/

theorem Fits.noneAdded
    (h : Fits deps familyId jar tokens call ph) (hg : Grows tokens tokens') (hn : NoneAdded familyId tokens tokens') :
    Fits deps familyId jar tokens' call ph := by
  cases ph with
  | arrived => exact ⟨h.1, h.2.noneAdded hg hn⟩
  | refreshing =>
    obtain ⟨raw, c, hj, hc, htok, hses, hraw⟩ := h
    exact ⟨raw, c, hj, hc, htok, fun t ht => (hses t ht).noneAdded hg hn, fun ht => (hraw ht).noneAdded hg hn⟩
  | connecting token change => exact ⟨h.1, h.2.1.noneAdded hg hn, h.2.2⟩
  | answered response => exact ⟨h.1, h.2.1.noneAdded hg hn, h.2.2⟩
  | received response => exact h

theorem Fits.of_none
    (h : Fits deps familyId jar tokens call ph) (hj : jar.refresh = none) : Fits deps familyId jar tokens' call ph := by
  cases ph with
  | arrived => exact ⟨h.1, by rw [hj]; trivial⟩
  | refreshing =>
    obtain ⟨raw, c, hr, -⟩ := h
    rw [hj] at hr
    cases hr
  | connecting token change =>
    refine ⟨h.1, ?_, h.2.2⟩
    rcases h.2.2 with rfl | ⟨pair, raw, -, hr⟩
    · change Holds deps familyId tokens' jar.refresh
      rw [hj]
      trivial
    · rw [hj] at hr
      cases hr
  | answered response => exact ⟨h.1, by rw [h.2.2 hj]; trivial, h.2.2⟩
  | received response => exact h

section Control

variable {w : Web} {t : Sessions} (h : InStep deps familyId w) (hs : Sessions.Step deps w.sessions t)
  (hother : (∀ i, w.requests i ≠ none → t.refreshes i = w.calls i) → NoneAdded familyId w.sessions.tokens t.tokens)
include h hs hother

theorem InStep.same (he : ∀ i, w.requests i ≠ none → t.refreshes i = w.calls i) :
    InStep deps familyId { w with sessions := t } := by
  have hg := grows_step hs
  refine ⟨h.history.step hs, h.lone, h.cookies, fun i r hr => ?_, fun hid => ?_, h.cleared⟩
  · have hi : w.requests i ≠ none := by
      rw [hr]
      exact Option.some_ne_none r
    change Fits deps familyId w.jar t.tokens (t.refreshes i) r.phase
    rw [he i hi]
    exact (h.fits i r hr).noneAdded hg (hother he)
  · exact (h.idle hid).noneAdded hg (hother he)

theorem InStep.moved {i : Nat} {c c' : RefreshCall} (hc : w.calls i = some c)
    (ht : t.refreshes = Function.update w.sessions.refreshes i (some c')) (htok : c'.token = c.token)
    {ph : RefreshPhase} (hph : c.phase = ph) (hnd : ∀ o, ph ≠ .done o)
    (hnew : ∀ raw, c.token = presents raw → Holds deps familyId w.sessions.tokens (some raw) →
      (∀ st, c'.phase = .done (.session st) → Holds deps familyId t.tokens (some st.refreshToken)) ∧
      ((∀ st, c'.phase ≠ .done (.session st)) → Holds deps familyId t.tokens (some raw))) :
    InStep deps familyId { w with sessions := t } := by
  have hnot : ¬ Settled (w.calls i) := by
    intro hset
    obtain ⟨o, ho⟩ := hset c hc
    exact hnd o (hph.symm.trans ho)
  have hcall : ∀ j, j ≠ i → t.refreshes j = w.calls j := by
    intro j hj
    rw [ht, Function.update_of_ne hj]
    rfl
  have hself : t.refreshes i = some c' := by
    rw [ht, Function.update_self]
  cases hreq : w.requests i with
  | none =>
    apply h.same hs hother
    intro j hj
    apply hcall
    rintro rfl
    exact hj hreq
  | some r =>
    have hfit := h.fits i r hreq
    -- the other requests have been received, or the browser has no cookie
    have hrest : r.phase.Open → ∀ j q, w.requests j = some q → j ≠ i →
        Fits deps familyId w.jar t.tokens (t.refreshes j) q.phase := by
      intro ho j q hq hj
      have hfj := h.fits j q hq
      rw [hcall j hj]
      cases hqp : q.phase with
      | received response =>
        rw [hqp] at hfj
        exact hfj
      | _ => exact absurd (h.lone j i q r hq hreq (by rw [hqp]; trivial) ho) hj
    have hopen : r.phase.Open → Fits deps familyId w.jar t.tokens (some c') r.phase →
        InStep deps familyId { w with sessions := t } := by
      intro ho hf
      refine ⟨h.history.step hs, h.lone, h.cookies, fun j q hq => ?_, fun hid => absurd ho (hid i r hreq), h.cleared⟩
      change Fits deps familyId w.jar t.tokens (t.refreshes j) q.phase
      by_cases hj : j = i
      · subst hj
        obtain rfl := Option.some.inj (hreq.symm.trans hq)
        rw [hself]
        exact hf
      · exact hrest ho j q hq hj
    cases hrp : r.phase with
    | arrived =>
      rw [hrp] at hfit
      rw [hfit.1] at hc
      cases hc
    | refreshing =>
      rw [hrp] at hfit hopen
      apply hopen trivial
      obtain ⟨raw, c₀, hj, hc₀, hctok, -, hraw⟩ := hfit
      obtain rfl := Option.some.inj (hc.symm.trans hc₀)
      have hn := hnew raw hctok (hraw fun st e => hnd _ (hph.symm.trans e))
      exact ⟨raw, c', hj, rfl, htok.trans hctok, hn.1, hn.2⟩
    | connecting token change =>
      rw [hrp] at hfit
      exact absurd hfit.1 hnot
    | answered response =>
      rw [hrp] at hfit hopen
      apply hopen trivial
      rcases hfit.1 with hset | hnone
      · exact absurd hset hnot
      · exact ⟨Or.inr hnone, by rw [hnone]; trivial, hfit.2.2⟩
    | received response =>
      rw [hrp] at hfit
      rcases hfit with hj | hset
      · refine ⟨h.history.step hs, h.lone, h.cookies, fun j q hq => ?_, fun _ => ?_, h.cleared⟩
        · change Fits deps familyId w.jar t.tokens (t.refreshes j) q.phase
          by_cases hji : j = i
          · subst hji
            obtain rfl := Option.some.inj (hreq.symm.trans hq)
            rw [hrp]
            exact Or.inl hj
          · rw [hcall j hji]
            exact (h.fits j q hq).of_none hj
        · change Holds deps familyId t.tokens w.jar.refresh
          rw [hj]
          trivial
      · exact absurd hset hnot

/-- **Steps of the control-plane.** -/
theorem InStep.control (hguard : ∀ i, w.requests i ≠ none → w.calls i = none → t.refreshes i = none) :
    InStep deps familyId { w with sessions := t } := by
  have hinv := Sessions.inv_reachable h.history
  have htok : TokensSound t.tokens := (Sessions.inv_reachable (h.history.step hs)).tokens
  rcases Sessions.refreshes_cases hs with he | ⟨i, raw, hn, rfl⟩ | ⟨i, c, p, tokens, c', hc, hp, hm, rfl⟩
  · exact h.same hs hother fun i _ => congrFun he i
  · apply h.same hs hother
    intro j hj
    refine Function.update_of_ne ?_ ..
    rintro rfl
    have hnone := hguard j hj hn
    rw [show (w.sessions.setRefresh j _).refreshes j = some _ from Function.update_self ..] at hnone
    cases hnone
  · cases hm with
    | find now hph =>
      refine h.moved hs hother hc rfl rfl hph (fun o e => by cases e) fun raw _ hraw => ⟨fun st e => ?_, fun _ => hraw⟩
      exact absurd e (Sessions.afterFind_ne_session p _ now st)
    | @tenant row now hph =>
      refine h.moved hs hother hc rfl rfl hph (fun o e => by cases e) fun raw _ hraw => ⟨fun st e => ?_, fun _ => hraw⟩
      exact absurd e (Sessions.afterTenant_ne_session row now _ st)
    | @user row now hph =>
      refine h.moved hs hother hc rfl rfl hph (fun o e => by cases e) fun raw _ hraw => ⟨fun st e => ?_, fun _ => hraw⟩
      exact absurd e (Sessions.afterUser_ne_session row now _ st)
    | rotate secret id hph hr =>
      refine h.moved hs hother hc rfl rfl hph (fun o e => by cases e) fun raw hct hraw => ⟨fun st e => ?_, fun e => ?_⟩
      · cases e
        exact holds_rotate hinv htok hc hp (hct.symm.trans hp) hph hr hraw
      · exact absurd rfl (e _)
    | lost secret id hph hr =>
      refine h.moved hs hother hc rfl rfl hph (fun o e => by cases e) fun raw _ hraw => ⟨fun st e => ?_, fun _ => hraw⟩
      cases e
    | revoke hph =>
      refine h.moved hs hother hc rfl rfl hph (fun o e => by cases e) fun raw _ hraw => ⟨fun st e => ?_, fun _ => ?_⟩
      · cases e
      · exact hraw.noneAdded (grows_revokeFamily _ _ _ _) (noneAdded_revokeFamily _ _ _ _)

end Control

/-! ## Steps of a request -/

theorem eq_of_present {cookie : Option Bytes} (h : present cookie = some raw) : cookie = some raw := by
  cases cookie with
  | none => cases h
  | some s =>
    cases s with
    | nil => cases h
    | cons c s => exact h

theorem start_done {nowMs : Int} {cookies : Cookies} {h : Handler}
    (hs : h.start readClaims nowMs cookies = .done ph) :
    (∃ token, ph = .connecting token .keep) ∨
      ∃ response, ph = .answered response ∧ (response.cookies = .keep ∨ response.cookies = .clear) := by
  rcases start_cases readClaims nowMs cookies h with ⟨token, he, -⟩ | ⟨ph', he, hd⟩
  · rw [hs] at he
    cases he
  · rw [hs] at he
    cases he
    exact hd

theorem fits_answered
    (hset : Settled call) (hj : Holds deps familyId tokens jar.refresh)
    (hc : response.cookies = .keep ∨ response.cookies = .clear) :
    Fits deps familyId jar tokens call (.answered response) := by
  rcases hc with hc | hc
  · refine ⟨Or.inl hset, ?_, fun hn => ?_⟩
    · rw [hc]
      exact hj
    · rw [hc]
      exact hn
  · refine ⟨Or.inl hset, ?_, fun _ => ?_⟩
    · rw [hc]
      trivial
    · rw [hc]
      rfl

theorem fits_clear
    (hc : response.cookies = .clear) : Fits deps familyId jar tokens call (.answered response) := by
  refine ⟨Or.inr ?_, ?_, fun _ => ?_⟩
  · rw [hc]
    rfl
  · rw [hc]
    trivial
  · rw [hc]
    rfl

theorem tailProxyConnected_of_streams {change : CookieChange} {u : Upstream} (h : u.streams) :
    tailProxyConnected change u = .stream change := if_pos h

theorem cookies_of_not_streams {change : CookieChange} {u : Upstream} (h : ¬ u.streams) :
    (tailProxyConnected change u).cookies = .keep := by
  unfold tailProxyConnected
  rw [if_neg h]
  split
  · rfl
  · rfl

theorem settled_none : Settled none := fun _ h => by cases h

theorem InStep.advance (h : InStep deps familyId w)
    (hreach : (Sessions.system deps).Reachable t) (htok : t.tokens = w.sessions.tokens)
    (hcalls : ∀ j, j ≠ i → t.refreshes j = w.calls j) (hr : w.requests i = some r) (ho : r.phase.Open)
    {phase : RequestPhase} (ho' : phase.Open)
    (hf : Fits deps familyId w.jar w.sessions.tokens (t.refreshes i) phase) :
    InStep deps familyId ({ w with sessions := t }.setRequest i { r with phase }) := by
  refine ⟨hreach, ?_, ?_, ?_, fun hid => ?_, h.cleared⟩
  · intro j k q q' hj hk hq hq'
    rcases Runs.update_cases hj with ⟨rfl, rfl⟩ | ⟨-, hj'⟩ <;> rcases Runs.update_cases hk with ⟨rfl, rfl⟩ | ⟨-, hk'⟩
    · rfl
    · exact h.lone j k r q' hr hk' ho hq'
    · exact h.lone j k q r hj' hr hq ho
    · exact h.lone j k q q' hj' hk' hq hq'
  · intro j q hj hq
    rcases Runs.update_cases hj with ⟨rfl, rfl⟩ | ⟨-, hj⟩
    · exact h.cookies j r hr ho
    · exact h.cookies j q hj hq
  · intro j q hj
    change Fits deps familyId w.jar t.tokens (t.refreshes j) q.phase
    rw [htok]
    rcases Runs.update_cases hj with ⟨rfl, rfl⟩ | ⟨hne, hj⟩
    · exact hf
    · rw [hcalls j hne]
      exact h.fits j q hj
  · exact absurd ho' (hid i { r with phase } (Function.update_self ..))

theorem InStep.answer (h : InStep deps familyId w) (hr : w.requests i = some r)
    (ho : r.phase.Open)
    (hf : Fits deps familyId w.jar w.sessions.tokens (w.calls i) (.answered response)) :
    InStep deps familyId (w.setRequest i { r with phase := .answered response }) :=
  h.advance h.history rfl (fun _ _ => rfl) hr ho trivial hf

theorem InStep.refreshed_none (h : InStep deps familyId w)
    (hr : w.requests i = some r) (ho : r.phase.Open)
    (ht : r.handler = .tailProxy → Settled (w.calls i) ∧ Holds deps familyId w.sessions.tokens w.jar.refresh) :
    InStep deps familyId (w.setRequest i { r with phase := r.handler.refreshed readClaims none }) := by
  cases hh : r.handler with
  | getSession =>
    have hf : Fits deps familyId w.jar w.sessions.tokens (w.calls i) (.answered (.session none .clear)) :=
      fits_clear rfl
    simp only [Handler.refreshed, getSessionRefreshed]
    exact hh ▸ h.answer hr ho hf
  | tailProxy =>
    have hf : Fits deps familyId w.jar w.sessions.tokens (w.calls i)
        (.answered (.jsonError 401 (bs "unauthorized"))) := fits_answered (ht hh).1 (ht hh).2 (Or.inl rfl)
    simp only [Handler.refreshed, resolveTailAuthRefreshed, tailProxy]
    exact hh ▸ h.answer hr ho hf

theorem InStep.renewed (h : InStep deps familyId w) (hr : w.requests i = some r)
    (ho : r.phase.Open) (hset : Settled (w.calls i)) {accessToken refreshToken : Bytes}
    (hj : w.jar.refresh = some raw) (hheld : Holds deps familyId w.sessions.tokens (some refreshToken))
    (ha : accessToken ≠ []) :
    InStep deps familyId (w.setRequest i
      { r with phase := r.handler.refreshed readClaims (some ⟨accessToken, refreshToken⟩) }) := by
  cases hh : r.handler with
  | getSession =>
    cases hd : decodeAccessClaims readClaims (some accessToken) with
    | none =>
      have hf : Fits deps familyId w.jar w.sessions.tokens (w.calls i) (.answered (.session none .clear)) :=
        fits_clear rfl
      simp only [Handler.refreshed, getSessionRefreshed, hd]
      exact hh ▸ h.answer hr ho hf
    | some fresh =>
      have hf : Fits deps familyId w.jar w.sessions.tokens (w.calls i)
          (.answered (.session (some (sessionFromClaims fresh)) (.write ⟨accessToken, refreshToken⟩))) := by
        refine ⟨Or.inl hset, hheld, fun hn => ?_⟩
        rw [hj] at hn
        cases hn
      simp only [Handler.refreshed, getSessionRefreshed, hd]
      exact hh ▸ h.answer hr ho hf
  | tailProxy =>
    have hf : Fits deps familyId w.jar w.sessions.tokens (w.calls i)
        (.connecting accessToken (.write ⟨accessToken, refreshToken⟩)) :=
      ⟨hset, hheld, Or.inr ⟨_, raw, rfl, hj⟩⟩
    simp only [Handler.refreshed, resolveTailAuthRefreshed, tailProxy, present_of_ne_nil ha]
    exact hh ▸ h.advance h.history rfl (fun _ _ => rfl) hr ho trivial hf

/-- `tailProxy` passes on what it has renewed: the answer to its refresh call arrives, unless the call has ended
without a session, and the query-service gives it a stream. -/
def PassedOn (w : Web) : Action → Prop
  | .lost i => ∀ r, w.requests i = some r → r.handler = .tailProxy →
      ∃ c o, w.calls i = some c ∧ c.phase = .done o ∧ ∀ t, o ≠ .session t
  | .reply _ accessToken => accessToken ≠ []
  | .connected i u => ∀ r token pair, w.requests i = some r → r.phase = .connecting token (.write pair) → u.streams
  | _ => True

/-- The browser sends a request when it has received the answers to all others, and no one else renews its session. -/
def OneByOne (familyId : Uuid) (w : Web) (a : Action) (w' : Web) : Prop :=
  (∀ i, a = .send i → ∀ j r, w.requests j = some r → ¬ r.phase.Open) ∧
    ((∀ i, w.requests i ≠ none → w'.calls i = w.calls i) →
      NoneAdded familyId w.sessions.tokens w'.sessions.tokens)

theorem inStep_step {w' : Web} {a : Action} (h : InStep deps familyId w) (hs : Step deps readClaims w a w')
    (hok : OneByOne familyId w a w') (hpass : w.PassedOn a) : InStep deps familyId w' := by
  cases hs with
  | wait _ => exact ⟨h.history, h.lone, h.cookies, h.fits, h.idle, h.cleared⟩
  | control hs hguard => exact h.control hs hok.2 hguard
  | @send i handler hn hcall =>
    have hidle := hok.1 i rfl
    refine ⟨h.history, ?_, ?_, ?_, fun hid => ?_, h.cleared⟩
    · intro j k q q' hj hk hq hq'
      rcases Runs.update_cases hj with ⟨rfl, rfl⟩ | ⟨-, hj⟩
      · rcases Runs.update_cases hk with ⟨rfl, rfl⟩ | ⟨-, hk⟩
        · rfl
        · exact absurd hq' (hidle k q' hk)
      · exact absurd hq (hidle j q hj)
    · intro j q hj hq
      rcases Runs.update_cases hj with ⟨rfl, rfl⟩ | ⟨-, hj⟩
      · rfl
      · exact absurd hq (hidle j q hj)
    · intro j q hj
      rcases Runs.update_cases hj with ⟨rfl, rfl⟩ | ⟨-, hj⟩
      · exact ⟨hcall, h.idle hidle⟩
      · exact h.fits j q hj
    · exact absurd trivial (hid i ⟨handler, w.jar, .arrived⟩ (Function.update_self ..))
  | @start i r phase hr hph hst =>
    obtain ⟨ho, hf⟩ := h.fits_at hr hph trivial
    have hset : Settled (w.calls i) := by rw [hf.1]; exact settled_none
    rcases start_done hst with ⟨token, rfl⟩ | ⟨response, rfl, hc⟩
    · exact h.advance h.history rfl (fun _ _ => rfl) hr ho trivial ⟨hset, hf.2, Or.inl rfl⟩
    · exact h.advance h.history rfl (fun _ _ => rfl) hr ho trivial (fits_answered hset hf.2 hc)
  | @startRefresh i r refreshToken hr hph hst hcall =>
    obtain ⟨ho, hf⟩ := h.fits_at hr hph trivial
    have hraw : w.jar.refresh = some refreshToken := by
      rw [← h.cookies i r hr ho]
      exact eq_of_present (start_refresh hst)
    have hnew := refreshCall_presents deps w.sessions.tokens refreshToken
    refine h.advance (h.history.step (.refresh _ hcall)) rfl (fun j hj => Function.update_of_ne hj ..) hr ho trivial ?_
    refine ⟨refreshToken, _, hraw, Function.update_self .., hnew.1, fun t e => absurd e (hnew.2 t), fun _ => ?_⟩
    rw [← hraw]
    exact hf.2
  | @unreached i r refreshToken hr hph hst =>
    obtain ⟨ho, hf⟩ := h.fits_at hr hph trivial
    have hset : Settled (w.calls i) := by rw [hf.1]; exact settled_none
    exact h.refreshed_none hr ho fun _ => ⟨hset, hf.2⟩
  | @reply i r c o accessToken hr hph hc ho =>
    obtain ⟨hopen, hf⟩ := h.fits_at hr hph trivial
    obtain ⟨raw, c₀, hj, hc₀, -, hses, hraw⟩ := hf
    obtain rfl := Option.some.inj (hc.symm.trans hc₀)
    have hset : Settled (w.calls i) := by
      intro c₁ hc₁
      obtain rfl := Option.some.inj (hc.symm.trans hc₁)
      exact ⟨o, ho⟩
    cases o with
    | session t =>
      have hheld := hses t ho
      exact h.renewed hr hopen hset hj hheld hpass
    | _ =>
      refine h.refreshed_none hr hopen fun _ => ⟨hset, ?_⟩
      rw [hj]
      exact hraw fun t e => by rw [ho] at e; cases e
  | @lost i r hr hph =>
    obtain ⟨hopen, hf⟩ := h.fits_at hr hph trivial
    refine h.refreshed_none hr hopen fun hh => ?_
    obtain ⟨raw, c, hj, hc, -, -, hraw⟩ := hf
    obtain ⟨c₀, o, hc₀, hco, hno⟩ := hpass r hr hh
    obtain rfl := Option.some.inj (hc.symm.trans hc₀)
    constructor
    · intro c₁ hc₁
      obtain rfl := Option.some.inj (hc.symm.trans hc₁)
      exact ⟨o, hco⟩
    · rw [hj]
      exact hraw fun t e => hno t (RefreshPhase.done.inj (hco.symm.trans e))
  | @connected i r token setCookies u hr hph =>
    obtain ⟨hopen, hf⟩ := h.fits_at hr hph trivial
    apply h.answer hr hopen
    by_cases hu : u.streams
    · rw [tailProxyConnected_of_streams hu]
      refine ⟨Or.inl hf.1, hf.2.1, fun hn => ?_⟩
      rcases hf.2.2 with rfl | ⟨pair, raw, -, hraw⟩
      · exact hn
      · rw [hn] at hraw
        cases hraw
    · -- an error has no cookies, so it was no renewed session
      have hk : setCookies = .keep := by
        rcases hf.2.2 with hk | ⟨pair, raw, rfl, -⟩
        · exact hk
        · exact absurd (hpass r token pair hr hph) hu
      subst hk
      exact fits_answered hf.1 hf.2.1 (Or.inl (cookies_of_not_streams hu))
  | @receive i r response hr hph =>
    obtain ⟨hopen, hf⟩ := h.fits_at hr hph trivial
    have hrest : ∀ j q, j ≠ i → w.requests j = some q → ∃ response, q.phase = .received response := by
      intro j q hj hq
      cases hqp : q.phase with
      | received response => exact ⟨response, rfl⟩
      | _ => exact absurd (h.lone j i q r hq hr (by rw [hqp]; trivial) hopen) hj
    have hclosed : ∀ j q, (({ w with jar := response.cookies.apply w.jar }).setRequest i
        { r with phase := .received response }).requests j = some q → ¬ q.phase.Open := by
      intro j q hj ho
      rcases Runs.update_cases hj with ⟨rfl, rfl⟩ | ⟨hne, hj⟩
      · exact ho
      · obtain ⟨response', he⟩ := hrest j q hne hj
        rw [he] at ho
        exact ho
    refine ⟨h.history, ?_, ?_, ?_, fun _ => hf.2.1, ?_⟩
    · intro j k q q' hj _ hq _
      exact absurd hq (hclosed j q hj)
    · intro j q hj hq
      exact absurd hq (hclosed j q hj)
    · intro j q hj
      rcases Runs.update_cases hj with ⟨rfl, rfl⟩ | ⟨hne, hj⟩
      · exact hf.1.symm
      · obtain ⟨response', he⟩ := hrest j q hne hj
        have hfj := h.fits j q hj
        rw [he] at hfj ⊢
        rcases hfj with hn | hset
        · exact Or.inl (hf.2.2 hn)
        · exact Or.inr hset
    · intro hn
      change (response.cookies.apply w.jar).refresh = none at hn
      change response.cookies.apply w.jar = .none
      cases hc : response.cookies with
      | keep =>
        rw [hc] at hn
        exact h.cleared hn
      | write pair =>
        rw [hc] at hn
        cases hn
      | clear => rfl

/-- What the browser has of its family when it has received all answers. -/
def Current (deps : AuthDeps) (familyId : Uuid) (w : Web) : Prop :=
  ∀ r ∈ w.sessions.tokens, r.familyId = familyId → r.live →
    (∃ raw, w.jar.refresh = some raw ∧ Names deps raw r) ∨ w.jar = .none

/-- The browser has signed in and has sent no request. -/
structure SignedIn (deps : AuthDeps) (row : RefreshToken) (w : Web) : Prop where
  history : (Sessions.system deps).Reachable w.sessions
  requests : ∀ i, w.requests i = none
  cookie : ∃ raw, w.jar.refresh = some raw ∧ Names deps raw row
  live : row ∈ w.sessions.tokens ∧ row.live

theorem inStep_signedIn (h : SignedIn deps row w) : InStep deps row.familyId w := by
  have hnone : ∀ {i : Nat} {r : Request}, w.requests i = some r → False := by
    intro i r hr
    rw [h.requests i] at hr
    cases hr
  obtain ⟨raw, hraw, hn⟩ := h.cookie
  refine ⟨h.history, fun i j r q hr => (hnone hr).elim, fun i r hr => (hnone hr).elim, fun i r hr => (hnone hr).elim,
    fun _ => ?_, fun hj => ?_⟩
  · rw [hraw]
    refine ⟨row, h.live.1, rfl, hn, fun r hr hf hl => ?_⟩
    rw [(Sessions.inv_reachable h.history).tokens.live r hr row h.live.1 hl h.live.2 hf]
  · rw [hraw] at hj
    cases hj

/-! ## Main result -/

/-- **Cookies in step.** -/
theorem cookies_in_step {start : Web} (h0 : SignedIn deps row start)
    (hr : (system deps readClaims start fun w a w' => OneByOne row.familyId w a w' ∧ w.PassedOn a).Reachable w)
    (hidle : ∀ i r, w.requests i = some r → ∃ response, r.phase = .received response) :
    Current deps row.familyId w := by
  have h : InStep deps row.familyId w := by
    apply hr.invariant
    · rintro _ rfl
      exact inStep_signedIn h0
    · rintro w w' - h ⟨a, hs, hok, hpass⟩
      exact inStep_step h hs hok hpass
  have hheld := h.idle fun i r hi ho => by
    obtain ⟨response, he⟩ := hidle i r hi
    rw [he] at ho
    exact ho
  intro r hr hf hl
  cases hj : w.jar.refresh with
  | none => exact Or.inr (h.cleared hj)
  | some raw =>
    rw [hj] at hheld
    obtain ⟨a, ha, -, hn, hlive⟩ := hheld
    obtain rfl := (Sessions.inv_reachable h.history).tokens.ids r hr a ha (hlive r hr hf hl)
    exact Or.inl ⟨raw, rfl, hn⟩

/-! ## Two answers of the query-service -/

theorem signedIn_sample : SignedIn Sessions.sampleDeps Sessions.sampleRow (sampleWeb []) := by
  refine ⟨reachable_loggedIn, fun i => rfl, ⟨Sessions.sampleToken, rfl, bs "first", rfl, rfl⟩, ?_⟩
  exact ⟨List.mem_singleton_self _, rfl, rfl⟩

def sampleRules (w : Web) (a : Action) (w' : Web) : Prop :=
  OneByOne Sessions.sampleRow.familyId w a w' ∧ w.PassedOn a

theorem reachable_own
    (hr : (system deps readClaims (sampleWeb []) sampleRules).Reachable w)
    (hs : Sessions.Step deps w.sessions t) {c c' : RefreshCall} (hi : w.requests i = some r)
    (hc : w.calls i = some c) (ht : t.refreshes = Function.update w.sessions.refreshes i (some c'))
    {ph ph' : RefreshPhase} (hph : c.phase = ph) (hph' : c'.phase = ph') (hne : ph' ≠ ph) :
    (system deps readClaims (sampleWeb []) sampleRules).Reachable { w with sessions := t } := by
  obtain ⟨hstep, hcall⟩ := step_call readClaims hs hc ht hph hph' hne
  refine hr.step ⟨.control, hstep, ⟨fun i e => (by cases e), fun he => absurd (he i ?_) hcall⟩, trivial⟩
  rw [hi]
  exact Option.some_ne_none r

open Sessions in
theorem tail_renewed :
    ∃ w, (system sampleDeps sampleReadClaims (sampleWeb []) sampleRules).Reachable w ∧
      w.sessions.tokens = sampleRotated ∧ w.jar = sampleCookies ∧
      (∀ i, i ≠ 0 → w.requests i = none) ∧ w.requests 0 = some ⟨.tailProxy, sampleCookies,
        .connecting (bs "access") (.write ⟨bs "access", sampleRenewed.refreshToken⟩)⟩ := by
  have ht := congrArg RefreshCall.token sample_first.1
  have hf := congrArg RefreshCall.phase sample_first.1
  have h0 : (system sampleDeps sampleReadClaims (sampleWeb []) sampleRules).Reachable (sampleWeb []) := .init rfl
  have h1 := h0.step ⟨.send 0, .send (i := 0) .tailProxy rfl rfl,
    ⟨fun i _ j r hr => (by cases hr), fun _ => noneAdded_refl _⟩, trivial⟩
  have h2 := h1.step ⟨.start 0, .startRefresh (i := 0) (r := ⟨.tailProxy, sampleCookies, .arrived⟩) rfl rfl
    (start_sample .tailProxy) rfl, ⟨fun i e => (by cases e), fun _ => noneAdded_refl _⟩, trivial⟩
  have h3 := reachable_own h2 (.refreshFind (i := 0) 1 rfl ht hf) (i := 0) rfl rfl rfl hf sample_first.2.1
    (fun e => by cases e)
  have h4 := reachable_own h3 (.refreshTenant (i := 0) rfl ht sample_first.2.1) (i := 0) rfl rfl rfl sample_first.2.1
    sample_login.2.2.1 (fun e => by cases e)
  have h5 := reachable_own h4 (.refreshUser (i := 0) rfl ht sample_login.2.2.1) (i := 0) rfl rfl rfl
    sample_login.2.2.1 sample_login.2.2.2 (fun e => by cases e)
  have h6 := reachable_own h5 (.refreshRotate (i := 0) (bs "second") (Uuid.rep 5) rfl ht sample_login.2.2.2
    sample_first.2.2.2 sample_first.2.2.1) (i := 0) rfl rfl rfl sample_login.2.2.2 rfl (fun e => by cases e)
  have h7 := h6.step ⟨.reply 0 (bs "access"), .reply (i := 0) (bs "access")
    (r := ⟨.tailProxy, sampleCookies, .refreshing⟩) rfl rfl rfl rfl,
    ⟨fun i e => (by cases e), fun _ => noneAdded_refl _⟩, (by decide : bs "access" ≠ [])⟩
  refine ⟨_, h7, rfl, rfl, fun i hi => ?_, rfl⟩
  simp [Web.setRequest, sampleWeb, hi]

theorem ids_of_assemble {tenantId tokenId tenantId' tokenId' : Uuid} {secret secret' : Bytes}
    (h : assembleRefreshToken (uuidOut tenantId) (uuidOut tokenId) secret =
      assembleRefreshToken (uuidOut tenantId') (uuidOut tokenId') secret') : uuidOut tokenId = uuidOut tokenId' := by
  have hs := congrArg (splitN refreshSeparator 4) h
  rw [splitN_assemble, splitN_assemble] at hs
  simp only [List.cons.injEq] at hs
  exact hs.2.2.1

open Sessions in
theorem tail_error_drops_session :
    ∃ w, SignedIn sampleDeps sampleRow (sampleWeb []) ∧
      (system sampleDeps sampleReadClaims (sampleWeb []) (OneByOne sampleRow.familyId)).Reachable w ∧
      (∀ i r, w.requests i = some r → ∃ response, r.phase = .received response) ∧
      ¬ Current sampleDeps sampleRow.familyId w := by
  obtain ⟨w, h, htok, hjar, hnone, hreq⟩ := tail_renewed
  have h0 : (system sampleDeps sampleReadClaims (sampleWeb []) (OneByOne sampleRow.familyId)).Reachable w :=
    h.mono (fun _ hi => hi) fun _ _ hs => by
      obtain ⟨a, hs, hok⟩ := hs
      exact ⟨a, hs, hok.1⟩
  have h1 := h0.step ⟨.connected 0 .unreachable, .connected .unreachable hreq rfl,
    fun i e => (by cases e), fun _ => noneAdded_refl _⟩
  have h2 := h1.step ⟨.receive 0, .receive (i := 0) rfl rfl, fun i e => (by cases e), fun _ => noneAdded_refl _⟩
  refine ⟨_, signedIn_sample, h2, fun i r hr => ?_, fun hcur => ?_⟩
  · rcases Runs.update_cases hr with ⟨-, rfl⟩ | ⟨hne, hr⟩
    · exact ⟨_, rfl⟩
    · have hi : w.requests i = some r := (Function.update_of_ne hne ..).symm.trans hr
      rw [hnone i hne] at hi
      cases hi
  · -- the successor is live, and the browser still has the token before it
    have hlive : ∃ r ∈ sampleRotated, r.id = Uuid.rep 5 ∧ r.familyId = sampleRow.familyId ∧ r.live := by decide
    rw [← htok] at hlive
    obtain ⟨r, hr, hid, hf, hl⟩ := hlive
    rcases hcur r hr hf hl with ⟨raw, hraw, secret, hn, -⟩ | hj
    · change w.jar.refresh = some raw at hraw
      rw [hjar] at hraw
      obtain rfl := Option.some.inj hraw
      have hids := ids_of_assemble hn
      rw [hid] at hids
      exact absurd hids (by decide)
    · change w.jar = .none at hj
      rw [hjar] at hj
      cases hj

theorem tail_stream_keeps_session :
    ∃ w : Web, w.jar.refresh = some sampleRenewed.refreshToken ∧
      Current Sessions.sampleDeps Sessions.sampleRow.familyId w := by
  obtain ⟨w, h, -, -, hnone, hreq⟩ := tail_renewed
  have h1 := h.step ⟨.connected 0 (.response 200 true), .connected (.response 200 true) hreq rfl,
    ⟨fun i e => (by cases e), fun _ => noneAdded_refl _⟩,
    fun _ _ _ _ _ => (by decide : (Upstream.response 200 true).streams)⟩
  have h2 := h1.step ⟨.receive 0, .receive (i := 0) rfl rfl,
    ⟨fun i e => (by cases e), fun _ => noneAdded_refl _⟩, trivial⟩
  refine ⟨_, rfl, cookies_in_step signedIn_sample h2 fun i r hr => ?_⟩
  rcases Runs.update_cases hr with ⟨-, rfl⟩ | ⟨hne, hr⟩
  · exact ⟨_, rfl⟩
  · have hi : w.requests i = some r := (Function.update_of_ne hne ..).symm.trans hr
    rw [hnone i hne] at hi
    cases hi

end Web

end Logalot
