import Logalot.Signin

/-!
# Signing in: whose sign-in it is

A state that is issued to a browser stays with it, so a browser is only signed in
by a sign-in it has begun itself, and once by each.
-/

namespace Logalot

open Go Pg

namespace Signin

variable {deps : Deps} {honest : Nat → Bool} {s : Signin} {gs gs' : List Grant} {b : Nat}

def Given (gs : List Grant) (b : Nat) (c : Cookie) (v : Bytes) : Prop := ∃ g ∈ gs, g.browser = b ∧ (c, v) ∈ g.cookies

/-- The tenant that a callback has of its state record. -/
def Call.tenant (x : Call) : Option Uuid :=
  match x.phase with
  | .exchange f => some f.tenantId
  | .done (.session tokens _) => some tokens.tenantId
  | _ => none

/-- What a call sends for a browser, the browser was given. -/
structure Call.Own (deps : Deps) (gs : List Grant) (x : Call) : Prop where
  state : Given gs x.browser .state x.cmd.state
  returnTo : ∀ v, x.returnTo = some v → Given gs x.browser .returnTo v
  invite : ∀ h, x.cmd.inviteTokenHash = some h →
    ∃ token, deps.inviteTokenHash token = some h ∧ Given gs x.browser .inviteToken token

def Issued (gs : List Grant) (state : Bytes) (tenantId : Uuid) : Prop :=
  ∃ b tenantSlug returnTo r, .signin b tenantSlug returnTo r ∈ gs ∧ r.state = state ∧ r.tenantId = tenantId

structure Inv (deps : Deps) (honest : Nat → Bool) (s : Signin) : Prop where
  replies : ∀ g, .grant g ∈ s.replies → g ∈ s.grants
  jars : ∀ b c v, honest b = true → s.jars b c = some v → Given s.grants b c v
  tenants : ∀ b tenantSlug returnTo r, .signin b tenantSlug returnTo r ∈ s.grants →
    deps.tenantOf tenantSlug = some r.tenantId
  unique : ∀ g ∈ s.grants, ∀ g' ∈ s.grants, ∀ v, (Cookie.state, v) ∈ g.cookies → (Cookie.state, v) ∈ g'.cookies → g = g'
  states : ∀ r ∈ s.states, Issued s.grants r.state r.tenantId
  own : ∀ x ∈ s.calls, honest x.browser = true → x.Own deps s.grants
  issued : ∀ x ∈ s.calls, ∀ tenantId, x.tenant = some tenantId → Issued s.grants x.cmd.state tenantId
  gone : ∀ x ∈ s.calls, x.tenant.isSome → ∀ r ∈ s.states, r.state ≠ x.cmd.state
  once : ∀ (i j : Nat) (x y : Call), s.calls[i]? = some x → s.calls[j]? = some y → x.tenant.isSome → y.tenant.isSome →
    x.cmd.state = y.cmd.state → i = j

theorem state_mem_signin {tenantSlug v : Bytes} {returnTo : Option Bytes} {r : OAuthStateRecord} :
    (Cookie.state, v) ∈ (Grant.signin b tenantSlug returnTo r).cookies ↔ v = r.state := by
  simp [Grant.cookies]

theorem Given.mono {c : Cookie} {v : Bytes} (hs : gs ⊆ gs') : Given gs b c v → Given gs' b c v := by
  rintro ⟨g, hg, h⟩
  exact ⟨g, hs hg, h⟩

theorem Issued.mono {state : Bytes} {tenantId : Uuid} (hs : gs ⊆ gs') :
    Issued gs state tenantId → Issued gs' state tenantId := by
  rintro ⟨b, slug, ret, r, hr, h⟩
  exact ⟨b, slug, ret, r, hs hr, h⟩

theorem Call.Own.mono {x : Call} (hs : gs ⊆ gs') (h : x.Own deps gs) : x.Own deps gs' := by
  refine ⟨h.state.mono hs, fun v hv => (h.returnTo v hv).mono hs, fun k hk => ?_⟩
  obtain ⟨token, ht, hg⟩ := h.invite k hk
  exact ⟨token, ht, hg.mono hs⟩

/-! ## Cookies -/

theorem Inv.setJar (h : Inv deps honest s) {jar : Jar}
    (hj : honest b = true → ∀ c v, jar c = some v → Given s.grants b c v) : Inv deps honest (s.setJar b jar) := by
  refine { h with jars := fun b' c v hb hv => ?_ }
  by_cases e : b' = b
  · subst e
    simp only [Signin.setJar, Function.update_self] at hv
    exact hj hb c v hv
  · simp only [Signin.setJar, Function.update_of_ne e] at hv
    exact h.jars b' c v hb hv

theorem Inv.received (h : Inv deps honest s) {r : Reply} (hr : r ∈ s.replies) :
    Inv deps honest (s.setJar r.browser (r.apply (s.jars r.browser))) := by
  refine h.setJar fun hb c v hv => ?_
  cases r with
  | cleared b => cases hv
  | grant g =>
    rcases Option.or_eq_some_iff.mp hv with hv | ⟨-, hv⟩
    · obtain ⟨l, l', hl, -⟩ := List.lookup_eq_some_iff.mp hv
      exact ⟨g, h.replies g hr, rfl, by simp [hl]⟩
    · exact h.jars _ c v hb hv

/-! ## Grants -/

theorem Inv.give (h : Inv deps honest s) (g : Grant)
    (hg : ∀ b tenantSlug returnTo r, g = .signin b tenantSlug returnTo r →
      s.Fresh r.state ∧ deps.tenantOf tenantSlug = some r.tenantId) : Inv deps honest (s.give g) := by
  have hs : s.grants ⊆ g :: s.grants := List.subset_cons_self g _
  have hnew : ∀ g' ∈ s.grants, ∀ v, (Cookie.state, v) ∈ g.cookies → (Cookie.state, v) ∉ g'.cookies := by
    intro g' hg' v hv
    cases g with
    | invite b token => simp [Grant.cookies] at hv
    | signin b tenantSlug returnTo r =>
      rw [state_mem_signin.mp hv]
      exact (hg b tenantSlug returnTo r rfl).1 g' hg'
  refine { h with
    replies := fun g' hg' => ?_
    jars := fun b c v hb hv => (h.jars b c v hb hv).mono hs
    tenants := fun b tenantSlug returnTo r hmem => ?_
    unique := fun g₁ h₁ g₂ h₂ v hv₁ hv₂ => ?_
    states := fun r hr => (h.states r hr).mono hs
    own := fun x hx hb => (h.own x hx hb).mono hs
    issued := fun x hx tenantId ht => (h.issued x hx tenantId ht).mono hs }
  · simp only [Signin.give, List.mem_cons, Reply.grant.injEq] at hg' ⊢
    exact hg'.imp_right (h.replies g')
  · rcases List.mem_cons.mp hmem with e | hmem
    · exact (hg b tenantSlug returnTo r e.symm).2
    · exact h.tenants b tenantSlug returnTo r hmem
  · rcases List.mem_cons.mp h₁ with e₁ | h₁ <;> rcases List.mem_cons.mp h₂ with e₂ | h₂
    · exact e₁.trans e₂.symm
    · exact absurd hv₂ (hnew g₂ h₂ v (e₁ ▸ hv₁))
    · exact absurd hv₁ (hnew g₁ h₁ v (e₂ ▸ hv₂))
    · exact h.unique g₁ h₁ g₂ h₂ v hv₁ hv₂

theorem Inv.start (h : Inv deps honest s) {tenantSlug : Bytes} {returnTo : Option Bytes}
    {r : OAuthStateRecord} (hr : deps.tenantOf tenantSlug = some r.tenantId) :
    Inv deps honest (s.start b tenantSlug returnTo r) := by
  unfold Signin.start
  by_cases hf : s.Fresh r.state
  · rw [if_pos hf]
    have hg := h.give (.signin b tenantSlug returnTo r) (by rintro _ _ _ _ ⟨⟩; exact ⟨hf, hr⟩)
    refine { hg with states := fun q hq => ?_, gone := fun x hx ht q hq => ?_ }
    · rcases List.mem_cons.mp hq with rfl | hq
      · exact ⟨b, tenantSlug, returnTo, q, List.mem_cons_self, rfl, rfl⟩
      · exact hg.states q hq
    · rcases List.mem_cons.mp hq with rfl | hq
      · -- the state would not be fresh
        rintro he
        obtain ⟨tenantId, ht⟩ := Option.isSome_iff_exists.mp ht
        obtain ⟨b', slug, ret, q', hmem, hq', -⟩ := h.issued x hx tenantId ht
        exact hf _ hmem (state_mem_signin.mpr (he.trans hq'.symm))
      · exact h.gone x hx ht q hq
  · rw [if_neg hf]
    exact h

/-! ## Callbacks -/

theorem Inv.dropState (h : Inv deps honest s) (state : Bytes) : Inv deps honest (s.dropState state) :=
  { h with
    states := fun r hr => h.states r (List.mem_of_mem_filter hr)
    gone := fun x hx ht r hr => h.gone x hx ht r (List.mem_of_mem_filter hr) }

theorem Inv.complete (h : Inv deps honest s) (b : Nat) (code state : Bytes) :
    Inv deps honest (s.complete b (completeGoogleSignin deps (s.jars b) code state)) := by
  have hpresent : ∀ {c v}, honest b = true → Web.present (s.jars b c) = some v → Given s.grants b c v := by
    intro c v hb hv
    refine h.jars b c v hb ?_
    revert hv
    cases s.jars b c with
    | none => exact id
    | some w => cases w <;> simp [Web.present]
  unfold completeGoogleSignin
  by_cases hs : Web.present (s.jars b .state) = some state
  · rw [if_pos hs]
    refine { h with own := ?_, issued := ?_, gone := ?_, once := fun i j x y hi hj hx hy he => ?_ }
    · refine List.forall_mem_append.mpr ⟨h.own, ?_⟩
      simp only [List.forall_mem_singleton]
      refine fun hb => ⟨hpresent hb hs, fun v => h.jars b _ v hb, fun k hk => ?_⟩
      obtain ⟨token, ht, hk⟩ := Option.bind_eq_some_iff.mp hk
      exact ⟨token, hk, hpresent hb ht⟩
    · exact List.forall_mem_append.mpr ⟨h.issued, by simp [Call.tenant]⟩
    · exact List.forall_mem_append.mpr ⟨h.gone, by simp [Call.tenant]⟩
    · have hold : ∀ {cmd} {k : Nat} {z : Call}, (s.complete b (some cmd)).calls[k]? = some z → z.tenant.isSome →
          s.calls[k]? = some z := by
        intro cmd k z hk hz
        rw [Signin.complete, List.getElem?_append] at hk
        split at hk
        · exact hk
        · obtain rfl := List.mem_singleton.mp (List.mem_of_getElem? hk)
          cases hz
      exact h.once i j x y (hold hi hx) (hold hj hy) hx hy he
  · rw [if_neg hs]
    exact { h with replies := fun g hg => h.replies g (by simpa [Signin.complete] using hg) }

/-- A callback keeps its tenant, or gets the one of a record that no other call has and that is not there any more. -/
theorem Inv.move (h : Inv deps honest s) {k : Nat} {x : Call} (hk : s.calls[k]? = some x) {ph : CallbackPhase}
    (htook : ∀ tenantId, Call.tenant { x with phase := ph } = some tenantId → Issued s.grants x.cmd.state tenantId ∧
      (∀ r ∈ s.states, r.state ≠ x.cmd.state) ∧
      ∀ j y, s.calls[j]? = some y → y.tenant.isSome → y.cmd.state = x.cmd.state → j = k) :
    Inv deps honest (s.move k x ph) := by
  have hmem : ∀ {P : Call → Prop}, (∀ y ∈ s.calls, P y) → P { x with phase := ph } →
      ∀ y ∈ s.calls.set k { x with phase := ph }, P y := by
    intro P hall hnew y hy
    rcases List.mem_or_eq_of_mem_set hy with hy | rfl
    · exact hall y hy
    · exact hnew
  have hcases : ∀ {i y}, (s.calls.set k { x with phase := ph })[i]? = some y →
      (i = k ∧ y = { x with phase := ph }) ∨ s.calls[i]? = some y := by
    intro i y hi
    by_cases e : k = i
    · subst e
      rw [List.getElem?_set_self (List.getElem?_eq_some_iff.mp hk).1] at hi
      exact .inl ⟨rfl, (Option.some.inj hi).symm⟩
    · rw [List.getElem?_set_ne e] at hi
      exact .inr hi
  refine { h with
    replies := fun g hg => ?_
    own := hmem h.own fun hb => ?_
    issued := hmem h.issued fun tenantId ht => (htook tenantId ht).1
    gone := hmem h.gone fun ht => ?_
    once := fun i j y z hi hj hy hz he => ?_ }
  · unfold Signin.move at hg
    split at hg
    · exact h.replies g (by simpa using hg)
    · exact h.replies g hg
  · have hown := h.own x (List.mem_of_getElem? hk) hb
    exact ⟨hown.state, hown.returnTo, hown.invite⟩
  · obtain ⟨tenantId, ht⟩ := Option.isSome_iff_exists.mp ht
    exact (htook tenantId ht).2.1
  · have hself : ∀ {j z}, s.calls[j]? = some z → (Call.tenant { x with phase := ph }).isSome → z.tenant.isSome →
        z.cmd.state = x.cmd.state → j = k := by
      intro j z hj hx hz he
      obtain ⟨tenantId, hx⟩ := Option.isSome_iff_exists.mp hx
      exact (htook tenantId hx).2.2 _ _ hj hz he
    rcases hcases hi with ⟨hik, rfl⟩ | hi' <;> rcases hcases hj with ⟨hjk, rfl⟩ | hj'
    · exact hik.trans hjk.symm
    · exact hik.trans (hself hj' hy hz he.symm).symm
    · exact (hself hi' hz hy he).trans hjk.symm
    · exact h.once i j y z hi' hj' hy hz he

theorem Inv.advance (h : Inv deps honest s) {k : Nat} {x : Call} (hk : s.calls[k]? = some x) (m : Option Minting) :
    Inv deps honest (s.advance k x m) := by
  have hx := List.mem_of_getElem? hk
  unfold Signin.advance
  split
  · refine (h.dropState x.cmd.state).move hk fun tenantId ht => ?_
    cases hfind : s.states.find? fun r => r.state = x.cmd.state with
    | none => simp [hfind, CallbackPhase.afterConsumeState, CallbackPhase.reject, Call.tenant] at ht
    | some r =>
      have hr : r.state = x.cmd.state := by simpa using List.find?_some hfind
      have hmem := List.mem_of_find?_eq_some hfind
      have htenant : r.tenantId = tenantId := by
        simp only [hfind, CallbackPhase.afterConsumeState, CallbackPhase.reject] at ht
        split at ht
        · cases ht
        · exact Option.some.inj ht
      refine ⟨hr ▸ htenant ▸ h.states r hmem, fun q hq => by simpa using List.of_mem_filter hq, fun j y hj hy he => ?_⟩
      -- a call with this state would have taken the record
      exact absurd (hr.trans he.symm) (h.gone y (List.mem_of_getElem? hj) hy r hmem)
  · rename_i f hp
    have hxt : x.tenant = some f.tenantId := by simp [Call.tenant, hp]
    have hxs : x.tenant.isSome := by simp [hxt]
    refine h.move hk fun tenantId ht => ?_
    obtain rfl : f.tenantId = tenantId := by
      cases m with
      | none => cases ht
      | some m => exact Option.some.inj ht
    exact ⟨h.issued x hx _ hxt, h.gone x hx hxs, fun j y hj hy he => h.once j k y x hj hk hy hxs he⟩
  · exact h

theorem Inv.step (h : Inv deps honest s) (e : Event) : Inv deps honest (step deps honest s e) := by
  cases e with
  | startGoogleSignin b tenantSlug returnTo state codeVerifier nonce =>
    simp only [Signin.step, beginAuthorize, Option.map_map]
    cases ht : deps.tenantOf tenantSlug with
    | none => exact h
    | some tenantId => exact h.start ht
  | stashInviteToken b token =>
    simp only [Signin.step]
    split
    · exact h.give _ (fun _ _ _ _ e => by cases e)
    · exact h
  | receive k =>
    simp only [Signin.step]
    cases hk : s.replies[k]? with
    | none => exact h
    | some r =>
      exact { h.received (List.mem_of_getElem? hk) with
        replies := fun g hg => h.replies g (List.mem_of_mem_eraseIdx hg) }
  | completeGoogleSignin b code state => exact h.complete b code state
  | advance k minting =>
    simp only [Signin.step]
    cases hk : s.calls[k]? with
    | none => exact h
    | some x => exact h.advance hk minting
  | expireState state => exact h.dropState state
  | expireCookie b c =>
    refine h.setJar fun hb c' v hv => ?_
    by_cases e : c' = c
    · subst e
      simp at hv
    · rw [Function.update_of_ne e] at hv
      exact h.jars b c' v hb hv
  | forge b jar =>
    simp only [Signin.step]
    split
    · exact h
    · exact h.setJar fun hb => absurd hb ‹_›

theorem inv_run (deps : Deps) (honest : Nat → Bool) (es : List Event) : Inv deps honest (run deps honest es) :=
  List.foldlRecOn es _ (by constructor <;> simp) fun _ h e _ => h.step e

/-- Whatever runs beside it, an honest browser is signed in only by a callback with a state that was issued to it, to
the tenant it has asked for there, with an invite it was sent to accept, and goes on only to where it has asked to
return to. And no two callbacks sign in with the same state. -/
theorem signin_own_once (deps : Deps) (honest : Nat → Bool) (es : List Event) :
    (∀ x ∈ (run deps honest es).calls, ∀ tokens ret, x.phase = .done (.session tokens ret) → honest x.browser = true →
      x.Own deps (run deps honest es).grants ∧
      ∃ tenantSlug returnTo r, .signin x.browser tenantSlug returnTo r ∈ (run deps honest es).grants ∧
        r.state = x.cmd.state ∧ deps.tenantOf tenantSlug = some tokens.tenantId) ∧
    ∀ (i j : Nat) (x y : Call), (run deps honest es).calls[i]? = some x → (run deps honest es).calls[j]? = some y →
      ∀ t t' ret ret', x.phase = .done (.session t ret) → y.phase = .done (.session t' ret') →
        x.cmd.state = y.cmd.state → i = j := by
  have h := inv_run deps honest es
  refine ⟨fun x hx tokens ret hp hb => ?_, fun i j x y hi hj t t' ret ret' hx hy he => ?_⟩
  · have hown := h.own x hx hb
    obtain ⟨b', slug, ret', r, hr, hstate, ht⟩ := h.issued x hx tokens.tenantId (by simp [Call.tenant, hp])
    obtain ⟨g, hg, hgb, hgs⟩ := hown.state
    obtain rfl := h.unique g hg _ hr _ hgs (state_mem_signin.mpr hstate.symm)
    obtain rfl : b' = x.browser := hgb
    exact ⟨hown, slug, ret', r, hr, hstate, ht ▸ h.tenants _ _ _ _ hr⟩
  · exact h.once i j x y hi hj (by simp [Call.tenant, hx]) (by simp [Call.tenant, hy]) he

end Signin

end Logalot
