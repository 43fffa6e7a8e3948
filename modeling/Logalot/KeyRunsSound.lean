import Logalot.ApiKeysSound
import Logalot.KeyRuns

/-!
# Revoked keys and transparent caches

Once `Revoke` has deleted the entry of a key that no call was about to cache,
nothing caches it again. While the tables stay as they are, the entries of the
cache stand for rows.
-/

namespace Logalot

open Go Pg TtlCache

namespace KeyState

variable {sha256 : Bytes → Bytes} {ttl : Int} {s t : KeyState} {j i : Nat} {a k : Bytes} {p : AuthPhase} {now : Time}
variable {c : KeyCache} {fails : Bool} {pk : ParsedKey} {tc : TenantContext} {P : Bytes → Option CacheEntry → Prop}

theorem setCall_cases {c : AuthCall} (h : (s.setCall i a p).calls j = some c) :
    (j = i ∧ c = ⟨a, p⟩) ∨ s.calls j = some c :=
  (Runs.update_cases h).imp_right And.right

/-! ## Keys that stay out of the cache -/

structure Settled (keyId : Bytes) (s : KeyState) : Prop where
  revoked : ∀ r ∈ s.db.keys, r.id = keyId → r.revokedAt ≠ none
  absent : s.cache (cacheKey keyId) = none
  quiet : ¬ s.Filling keyId

theorem revoked_revokeRow {guc : Bytes} {r : ApiKey} (h : r.revokedAt ≠ none) :
    (KeyDb.revokeRow guc k now r).revokedAt ≠ none := by
  rw [KeyDb.revokeRow, if_neg fun hc => h hc.2.2]
  exact h

theorem busted_absent {k' : Bytes} (h : c (cacheKey k) = none) :
    c.busted fails k' (cacheKey k) = none := by
  unfold KeyCache.busted
  split
  · exact h
  · exact Store.del_eq_none h

theorem filled_absent {clock ttl : Int} {k' : Bytes} {ent : CacheEntry}
    (h : c (cacheKey k) = none) (hk : k' ≠ k) : c.filled fails clock ttl k' ent (cacheKey k) = none := by
  unfold KeyCache.filled
  split
  · exact h
  · rw [Store.set_of_ne fun e => hk (cacheKey_inj e).symm]
    exact h

/-! ## What a step does to a call -/

inductive Moves (sha256 : Bytes → Bytes) (s : KeyState) (j : Nat) (a : Bytes) (pk : ParsedKey) : AuthPhase → Prop where
  | waits {p : AuthPhase} : p = .started ∨ p = .corrupt ∨ p = .missed ∨ p = .expired → Moves sha256 s j a pk p
  | rejects (e : AuthError) : Moves sha256 s j a pk (.returned (.error e))
  | hits {now : Time} {ent : CacheEntry} :
    s.cache.get s.clock (cacheKey pk.keyId) = some (some ent) →
    Moves sha256 s j a pk (.returned (checkEntry (sha256 pk.secret) now ent))
  | resolves {now : Time} {ent : CacheEntry} :
    s.db.validate sha256 now pk = .ok ent → Moves sha256 s j a pk (.resolved ent)
  | fills {ent : CacheEntry} :
    s.calls j = some ⟨a, .resolved ent⟩ → Moves sha256 s j a pk (.returned (tenantContextFrom ent))

theorem moves_beginAuth : Moves sha256 s j a pk (beginAuth a) := by
  unfold beginAuth
  split
  · exact .rejects _
  · split
    · exact .rejects _
    · exact .waits (Or.inl rfl)

theorem moves_afterGet :
    Moves sha256 s j a pk (afterGet sha256 now pk (s.cache.get s.clock (cacheKey pk.keyId))) := by
  cases hg : s.cache.get s.clock (cacheKey pk.keyId) with
  | none => exact .waits (Or.inr (Or.inr (Or.inl rfl)))
  | some v =>
    cases v with
    | none => exact .waits (Or.inr (Or.inl rfl))
    | some ent =>
      simp only [afterGet]
      split
      · exact .waits (Or.inr (Or.inr (Or.inr rfl)))
      · exact .hits hg

theorem moves_afterValidate :
    Moves sha256 s j a pk (afterValidate (s.db.validate sha256 now pk)) := by
  cases hv : s.db.validate sha256 now pk with
  | error e => exact .rejects e
  | ok ent => exact .resolves hv

theorem step_call (h : Step sha256 ttl s t) (hj : t.calls j = some ⟨a, p⟩) (hp : parseKey a = some pk) :
    s.calls j = some ⟨a, p⟩ ∨ Moves sha256 s j a pk p := by
  -- the steps that move a call set its phase; the others leave all calls as they are
  have hset : ∀ {u : KeyState} {i : Nat} {a' : Bytes} {p' : AuthPhase}, t = u.setCall i a' p' → u.calls = s.calls →
      (a' = a → i = j → Moves sha256 s j a pk p') → s.calls j = some ⟨a, p⟩ ∨ Moves sha256 s j a pk p := by
    intro u i a' p' ht hu hm
    rw [ht] at hj
    rcases setCall_cases hj with ⟨rfl, he⟩ | hj
    · obtain ⟨rfl, rfl⟩ := AuthCall.mk.inj he
      exact Or.inr (hm rfl rfl)
    · rw [hu] at hj
      exact Or.inl hj
  have hpk : ∀ {a' : Bytes} {pk' : ParsedKey}, a' = a → parseKey a' = some pk' → pk' = pk := by
    rintro a' pk' rfl h'
    exact Option.some.inj (h'.symm.trans hp)
  cases h with
  | start a' hn =>
    refine hset rfl rfl ?_
    rintro rfl rfl
    exact moves_beginAuth
  | get now hc hp' =>
    refine hset rfl rfl ?_
    rintro ha rfl
    obtain rfl := hpk ha hp'
    exact moves_afterGet
  | getFails hc => exact hset rfl rfl fun _ _ => .waits (Or.inr (Or.inr (Or.inl rfl)))
  | dropCorrupt fails hc hp' =>
    exact hset rfl rfl fun _ _ => .waits (Or.inr (Or.inr (Or.inl rfl)))
  | dropExpired fails hc hp' => exact hset rfl rfl fun _ _ => .rejects _
  | resolve now hc hp' =>
    refine hset rfl rfl ?_
    rintro ha rfl
    obtain rfl := hpk ha hp'
    exact moves_afterValidate
  | resolveFails hc => exact hset rfl rfl fun _ _ => .rejects _
  | set fails hc hp' =>
    refine hset rfl rfl ?_
    rintro rfl rfl
    exact .fills hc
  | revoke tc k hn => exact Or.inl hj
  | revokeCommit now hr hv => exact Or.inl hj
  | revokeFails hr => exact Or.inl hj
  | revokeBust fails hr => exact Or.inl hj
  | tick d => exact Or.inl hj
  | evict key => exact Or.inl hj

/-! ## Revoked keys -/

theorem step_revoked (h : Step sha256 ttl s t) {P : ApiKey → Prop}
    (hk : ∀ guc k now r, P r → P (KeyDb.revokeRow guc k now r)) (hs : ∀ r ∈ s.db.keys, P r) :
    ∀ r ∈ t.db.keys, P r := by
  cases h with
  | revokeCommit now hr hv =>
    intro _ hm
    obtain ⟨r, hr, rfl⟩ := List.mem_map.mp hm
    exact hk _ _ _ r (hs r hr)
  | _ => exact hs

theorem Settled.step (hs : s.Settled k) (h : Step sha256 ttl s t) : t.Settled k := by
  refine ⟨?_, ?_, ?_⟩
  · refine step_revoked h (P := fun r => r.id = k → r.revokedAt ≠ none) ?_ hs.revoked
    intro guc k' now r hr hid
    rw [KeyDb.revokeRow_id] at hid
    exact revoked_revokeRow (hr hid)
  · cases h with
    | dropCorrupt fails hc hp => exact busted_absent hs.absent
    | dropExpired fails hc hp => exact busted_absent hs.absent
    | set fails hc hp =>
      refine filled_absent hs.absent fun hk => ?_
      exact hs.quiet ⟨_, _, _, _, hc, hp, hk⟩
    | revokeBust fails hr => exact busted_absent hs.absent
    | evict key => exact Store.del_eq_none hs.absent
    | _ => exact hs.absent
  · rintro ⟨j, a, pk, ent, hj, hp, hk⟩
    rcases step_call h hj hp with hj | hm
    · exact hs.quiet ⟨j, a, pk, ent, hj, hp, hk⟩
    · cases hm with
      | waits hw => rcases hw with hw | hw | hw | hw <;> cases hw
      | resolves hv =>
        obtain ⟨r, hr, hid, -, -, -, hrev, -⟩ := validate_eq_ok.mp hv
        exact hs.revoked r hr (hid.trans hk) hrev

def Denies (k : Bytes) (j : Nat) (s : KeyState) : Prop :=
  ∀ a pk tc, s.calls j = some ⟨a, .returned (.ok tc)⟩ → parseKey a = some pk → pk.keyId ≠ k

theorem Settled.denies_step (hs : s.Settled k) (hd : s.Denies k j) (h : Step sha256 ttl s t) :
    t.Denies k j := by
  intro a pk tc hj hp hk
  rcases step_call h hj hp with hj | hm
  · exact hd a pk tc hj hp hk
  · -- only a hit or a fill accepts, and a settled key has neither
    generalize hq : AuthPhase.returned (.ok tc) = p at hm
    cases hm with
    | waits hw => subst hq; rcases hw with hw | hw | hw | hw <;> cases hw
    | rejects e => cases hq
    | hits hg =>
      rw [hk, Store.get_of_none hs.absent] at hg
      cases hg
    | resolves hv => cases hq
    | fills hc => exact hs.quiet ⟨j, a, pk, _, hc, hp, hk⟩

theorem Settled.denies (hs : s.Settled k) (hn : s.calls j = none)
    (hst : Relation.ReflTransGen (Step sha256 ttl) s t) : t.Settled k ∧ t.Denies k j := by
  induction hst with
  | refl =>
    refine ⟨hs, fun a pk tc hj => ?_⟩
    rw [hn] at hj
    cases hj
  | tail _ h ih => exact ⟨ih.1.step h, ih.1.denies_step ih.2 h⟩

def RowsRevoked (tc : TenantContext) (k : Bytes) (s : KeyState) : Prop :=
  ∀ r ∈ s.db.keys, r.Visible tc.tenantId → r.id = k → r.revokedAt ≠ none

theorem visible_revokeRow {guc guc' : Bytes} {r : ApiKey} :
    (KeyDb.revokeRow guc k now r).Visible guc' ↔ r.Visible guc' := by
  unfold KeyDb.revokeRow
  split <;> rfl

theorem RowsRevoked.step (hs : s.RowsRevoked tc k) (h : Step sha256 ttl s t) :
    t.RowsRevoked tc k := by
  refine step_revoked h (P := fun r => r.Visible tc.tenantId → r.id = k → r.revokedAt ≠ none) ?_ hs
  intro guc k' now r hr hv hid
  rw [KeyDb.revokeRow_id] at hid
  exact revoked_revokeRow (hr (visible_revokeRow.mp hv) hid)

theorem rowsRevoked_revoke (hd : t.db = s.db.revoke tc.tenantId k now) :
    t.RowsRevoked tc k := by
  intro _ hm hv hid
  rw [hd] at hm
  obtain ⟨r, hr, rfl⟩ := List.mem_map.mp hm
  rw [KeyDb.revokeRow_id] at hid
  by_cases hrev : r.revokedAt = none
  · rw [KeyDb.revokeRow, if_pos ⟨visible_revokeRow.mp hv, hid, hrev⟩]
    exact fun hc => by cases hc
  · exact revoked_revokeRow hrev

def HasKey (tc : TenantContext) (k : Bytes) (s : KeyState) : Prop :=
  ∃ r ∈ s.db.keys, r.Visible tc.tenantId ∧ r.id = k

theorem hasKey_of_step (h : Step sha256 ttl s t) (hk : t.HasKey tc k) :
    s.HasKey tc k := by
  cases h with
  | revokeCommit now hr hv =>
    obtain ⟨_, hm, hvis, hid⟩ := hk
    obtain ⟨r, hr, rfl⟩ := List.mem_map.mp hm
    exact ⟨r, hr, visible_revokeRow.mp hvis, (KeyDb.revokeRow_id ..).symm.trans hid⟩
  | _ => exact hk

theorem revoked_of_rowsRevoked (hs : s.RowsRevoked tc k) (hk : s.HasKey tc k) :
    ∀ r ∈ s.db.keys, r.id = k → r.revokedAt ≠ none := by
  obtain ⟨r', hr', hv, hid'⟩ := hk
  intro r hr hid
  obtain rfl := KeyDb.eq_of_id hr hr' (hid.trans hid'.symm)
  exact hs r hr hv hid

structure RevokesDone (s : KeyState) : Prop where
  committed : ∀ i tc k p, s.revokes i = some ⟨tc, k, p⟩ → (p = .committed ∨ ∃ b, p = .returned b) → s.RowsRevoked tc k
  deleted : ∀ i tc k, s.revokes i = some ⟨tc, k, .returned true⟩ → s.HasKey tc k → s.Settled k

theorem RevokesDone.step_of {p : KeyRevokePhase} (hs : s.RevokesDone)
    (h : Step sha256 ttl s t) (ht : t.revokes = Function.update s.revokes i (some ⟨tc, k, p⟩))
    (hc : (p = .committed ∨ ∃ b, p = .returned b) → t.RowsRevoked tc k)
    (hd : p = .returned true → t.HasKey tc k → t.Settled k) : t.RevokesDone := by
  constructor
  · intro j tc' k' p' hj hp
    rw [ht] at hj
    rcases Runs.update_cases hj with ⟨-, he⟩ | ⟨-, hj⟩
    · cases he
      exact hc hp
    · exact (hs.committed j tc' k' p' hj hp).step h
  · intro j tc' k' hj hk
    rw [ht] at hj
    rcases Runs.update_cases hj with ⟨-, he⟩ | ⟨-, hj⟩
    · cases he
      exact hd rfl hk
    · exact (hs.deleted j tc' k' hj (hasKey_of_step h hk)).step h

theorem RevokesDone.step (hs : s.RevokesDone) (h : Step sha256 ttl s t) (hok : s.BustsSettled t) : t.RevokesDone := by
  have hsame : t.revokes = s.revokes → t.RevokesDone := by
    intro ht
    constructor
    · intro j tc k p hj hp
      exact (hs.committed j tc k p (ht ▸ hj) hp).step h
    · intro j tc k hj hk
      exact (hs.deleted j tc k (ht ▸ hj) (hasKey_of_step h hk)).step h
  have hnone : ∀ {p : KeyRevokePhase} {Q : Prop}, (p = .begun ∨ p = .failed) →
      (p = .committed ∨ ∃ b, p = .returned b) → Q := by
    rintro p Q (rfl | rfl) (hp | ⟨b, hp⟩) <;> cases hp
  have hstep := h
  cases h with
  | revoke tc k hn =>
    exact hs.step_of hstep rfl (hnone (Or.inl rfl)) fun hp => by cases hp
  | revokeFails hr =>
    exact hs.step_of hstep rfl (hnone (Or.inr rfl)) fun hp => by cases hp
  | revokeCommit now hr hv =>
    exact hs.step_of hstep rfl (fun _ => rowsRevoked_revoke (s := s) rfl) fun hp => by cases hp
  | @revokeBust i tc k fails hr =>
    have hrows : s.RowsRevoked tc k := hs.committed i tc k _ hr (Or.inl rfl)
    refine hs.step_of hstep rfl (fun _ => hrows) ?_
    intro hp hk
    have hf : fails = false := by simpa using hp
    subst hf
    refine ⟨revoked_of_rowsRevoked hrows hk, Store.del_self, ?_⟩
    exact hok i tc k hr (Function.update_self ..)
  | _ => exact hsame rfl

/-! ## A call that nothing interrupts -/

def CallStep (sha256 : Bytes → Bytes) (ttl : Int) (s t : KeyState) : Prop :=
  Step sha256 ttl s t ∧ t.db = s.db ∧ t.revokes = s.revokes

theorem setCall_setCall {q : AuthPhase} :
    (s.setCall i a p).setCall i a q = s.setCall i a q := by
  simp only [setCall, Function.update_idem]

theorem callStep_setCall {q : AuthPhase}
    (h : (s.setCall i a p).calls i = some ⟨a, p⟩ →
      Step sha256 ttl (s.setCall i a p) (({ s with cache := c }.setCall i a p).setCall i a q)) :
    CallStep sha256 ttl (s.setCall i a p) ({ s with cache := c }.setCall i a q) := by
  have h' := h (Function.update_self ..)
  rw [setCall_setCall] at h'
  exact ⟨h', rfl, rfl⟩

section Uninterrupted

variable {i : Nat} {apiKey : Bytes} {pk : ParsedKey} {now : Int} {faults : CacheFaults}

theorem authenticateMiss_run (hp : parseKey apiKey = some pk) :
    Relation.ReflTransGen (CallStep sha256 ttl) (s.setCall i apiKey .missed)
      ({ s with cache := (authenticateMiss sha256 ttl s.db s.cache s.clock now faults pk).2 }.setCall i apiKey
        (.returned (authenticateMiss sha256 ttl s.db s.cache s.clock now faults pk).1)) := by
  have h1 : CallStep sha256 ttl (s.setCall i apiKey .missed)
      (s.setCall i apiKey (afterValidate (s.db.validate sha256 now pk))) :=
    callStep_setCall fun hc => .resolve now hc hp
  unfold authenticateMiss
  cases hv : s.db.validate sha256 now pk with
  | error e =>
    rw [hv] at h1
    exact .single h1
  | ok ent =>
    rw [hv] at h1
    exact .tail (.single h1) (callStep_setCall fun hc => .set faults.set hc hp)

def answered (sha256 : Bytes → Bytes) (ttl : Int) (i : Nat) (now : Int) (faults : CacheFaults) (apiKey : Bytes)
    (s : KeyState) : KeyState :=
  { s with cache := (authenticate sha256 ttl s.db s.cache s.clock now faults apiKey).2 }.setCall i apiKey
    (.returned (authenticate sha256 ttl s.db s.cache s.clock now faults apiKey).1)

theorem calls_answered {apiKey : Bytes} : (s.answered sha256 ttl i now faults apiKey).calls i =
    some ⟨apiKey, .returned (authenticate sha256 ttl s.db s.cache s.clock now faults apiKey).1⟩ :=
  Function.update_self ..

theorem authenticate_run (hn : s.calls i = none) (now : Int) (faults : CacheFaults) (apiKey : Bytes) :
    Relation.ReflTransGen (CallStep sha256 ttl) s (s.answered sha256 ttl i now faults apiKey) := by
  have h1 : CallStep sha256 ttl s (s.setCall i apiKey (beginAuth apiKey)) := ⟨.start apiKey hn, rfl, rfl⟩
  unfold answered authenticate
  unfold beginAuth at h1
  by_cases he : apiKey = []
  · simp only [he, if_true] at h1 ⊢
    exact .single h1
  · simp only [he, if_false] at h1 ⊢
    cases hp : parseKey apiKey with
    | none =>
      simp only [hp] at h1
      exact .single h1
    | some pk =>
      simp only [hp] at h1
      refine .trans (.single h1) ?_
      cases faults.get with
      | true =>
        have h2 : CallStep sha256 ttl (s.setCall i apiKey .started) (s.setCall i apiKey .missed) :=
          callStep_setCall fun hc => .getFails hc
        exact .trans (.single h2) (authenticateMiss_run hp)
      | false =>
        have h2 : CallStep sha256 ttl (s.setCall i apiKey .started)
            (s.setCall i apiKey (afterGet sha256 now pk (s.cache.get s.clock (cacheKey pk.keyId)))) :=
          callStep_setCall fun hc => .get now hc hp
        refine .trans (.single h2) ?_
        simp only [Bool.false_eq_true, if_false]
        cases s.cache.get s.clock (cacheKey pk.keyId) with
        | none => exact authenticateMiss_run hp
        | some v =>
          cases v with
          | none =>
            have h3 : CallStep sha256 ttl (s.setCall i apiKey .corrupt)
                ({ s with cache := s.cache.busted faults.del pk.keyId }.setCall i apiKey .missed) :=
              callStep_setCall fun hc => .dropCorrupt faults.del hc hp
            exact .trans (.single h3) (authenticateMiss_run (s := { s with cache := _ }) hp)
          | some ent =>
            simp only [afterGet]
            cases checkEntry (sha256 pk.secret) now ent with
            | ok tc => exact .refl
            | error e =>
              cases e with
              | errExpiredKey => exact .single (callStep_setCall fun hc => .dropExpired faults.del hc hp)
              | _ => exact .refl

def RevokeStep (sha256 : Bytes → Bytes) (ttl : Int) (s t : KeyState) : Prop := Step sha256 ttl s t ∧ t.calls = s.calls

theorem setRevoke_setRevoke {i : Nat} {tc : TenantContext} {k : Bytes} {p q : KeyRevokePhase} :
    (s.setRevoke i tc k p).setRevoke i tc k q = s.setRevoke i tc k q := by
  simp only [setRevoke, Function.update_idem]

theorem revoke_run {i : Nat} {tc : TenantContext} (hn : s.revokes i = none) (hv : tc.valid = none) (k : Bytes)
    (now : Time) :
    Relation.ReflTransGen (RevokeStep sha256 ttl) s
      ({ s with db := s.db.revoke tc.tenantId k now, cache := s.cache.busted false k }.setRevoke i tc k
        (.returned true)) := by
  have h1 : RevokeStep sha256 ttl s (s.setRevoke i tc k .begun) := ⟨.revoke tc k hn, rfl⟩
  have h2 : RevokeStep sha256 ttl (s.setRevoke i tc k .begun)
      ({ s with db := s.db.revoke tc.tenantId k now }.setRevoke i tc k .committed) := by
    refine ⟨?_, rfl⟩
    rw [← setRevoke_setRevoke (s := { s with db := s.db.revoke tc.tenantId k now }) (p := .begun)]
    exact .revokeCommit now (Function.update_self ..) hv
  refine .tail (.tail (.single h1) h2) ⟨?_, rfl⟩
  rw [← setRevoke_setRevoke (p := .committed) (q := .returned true)]
  exact .revokeBust false (Function.update_self ..)

theorem reachable_of_calls (hr : ((system sha256 ttl).restrict BustsSettled).Reachable s)
    (h : Relation.ReflTransGen (CallStep sha256 ttl) s t) :
    ((system sha256 ttl).restrict BustsSettled).Reachable t := by
  induction h with
  | refl => exact hr
  | tail _ h ih =>
    refine .step ih ⟨h.1, fun i tc k hs ht => ?_⟩
    rw [h.2.2, hs] at ht
    cases ht

theorem reachable_of_revoke (hr : ((system sha256 ttl).restrict BustsSettled).Reachable s) (hq : ∀ k, ¬ s.Filling k)
    (h : Relation.ReflTransGen (RevokeStep sha256 ttl) s t) :
    ((system sha256 ttl).restrict BustsSettled).Reachable t := by
  have hc : ((system sha256 ttl).restrict BustsSettled).Reachable t ∧ t.calls = s.calls := by
    induction h with
    | refl => exact ⟨hr, rfl⟩
    | tail _ h ih =>
      refine ⟨.step ih.1 ⟨h.1, fun i tc k _ _ hf => hq k ?_⟩, h.2.trans ih.2⟩
      unfold Filling at hf ⊢
      rwa [ih.2] at hf
  exact hc.1

end Uninterrupted

/-- **Revoked keys.** In a run in which `Revoke` deletes a cache entry only while no call is about to fill it, a call
that begins after `Revoke` has returned does not accept the key. -/
theorem revoked_key_denied {u : KeyState}
    (hr : ((system sha256 ttl).restrict BustsSettled).Reachable s)
    (hrev : s.revokes i = some ⟨tc, k, .returned true⟩) (hk : s.HasKey tc k) (hn : s.calls j = none)
    (hst : Relation.ReflTransGen (Step sha256 ttl) s u) {apiKey : Bytes} {r : Except AuthError TenantContext}
    (hj : u.calls j = some ⟨apiKey, .returned r⟩) (hp : parseKey apiKey = some pk) (hid : pk.keyId = k) :
    ∃ e, r = .error e := by
  have hd : s.RevokesDone := by
    refine hr.invariant (P := RevokesDone) ?_ ?_
    · rintro s ⟨-, -, hv⟩
      constructor
      · intro i tc k p hi
        rw [hv] at hi
        cases hi
      · intro i tc k hi
        rw [hv] at hi
        cases hi
    · intro s t _ hs h
      exact hs.step h.1 h.2
  have hden := ((hd.deleted i tc k hrev hk).denies hn hst).2
  cases r with
  | error e => exact ⟨e, rfl⟩
  | ok tc' => exact absurd hid (hden apiKey pk tc' hj hp)

/-! ## Two tenants and a key -/

def sampleSecret : Bytes := bs "4f9d2c7a1be0835664af20d9c8e7315bb0c6f1a2d3948576e1f0a9b8c7d6e5f4"

/-- SHA-256 of the one secret in use. -/
def sampleSha256 (b : Bytes) : Bytes :=
  if b = sampleSecret then
    [31, 66, 11, 73, 109, 73, 207, 224, 221, 202, 193, 66, 83, 112, 65, 39, 95, 76, 179, 188, 243, 200, 32, 123, 224,
      177, 144, 90, 147, 4, 214, 232]
  else []

def sampleKeyId : Bytes := bs "00112233445566778899aabbccddeeff"

def sampleRow : ApiKey :=
  { id := sampleKeyId
    tenantId := .rep 17
    keyHash := sampleSha256 sampleSecret
    scopes := [scopeIngestWrite]
    revokedAt := none
    expiresAt := none }

def sampleDb : KeyDb :=
  { tenants := [⟨.rep 17, bs "alpha", .active⟩, ⟨.rep 34, bs "bravo", .active⟩]
    keys := [sampleRow]
    nodup_publicId := by decide +kernel
    nodup_id := by decide +kernel }

def sampleTenant : TenantContext := { tenantId := uuidOut (.rep 17) }

def sampleContext : TenantContext :=
  { tenantId := uuidOut (.rep 17), principalId := sampleKeyId, scopes := [scopeIngestWrite] }

def samplePk (slug : Bytes) : ParsedKey := ⟨slug, sampleKeyId, sampleSecret⟩

def sampleApiKey (slug : Bytes) : Bytes :=
  keyPrefix ++ keySeparator ++ slug ++ keySeparator ++ sampleKeyId ++ keySeparator ++ sampleSecret

def sampleState : KeyState :=
  { db := sampleDb, cache := .empty, clock := 0, calls := fun _ => none, revokes := fun _ => none }

theorem sampleState_init : (system sampleSha256 60).init sampleState :=
  ⟨fun _ _ h => (by cases h), rfl, rfl⟩

theorem parse_alpha : parseKey (sampleApiKey (bs "alpha")) = some (samplePk (bs "alpha")) := by decide

theorem validate_alpha : sampleDb.validate sampleSha256 0 (samplePk (bs "alpha")) = .ok sampleRow.stored.entry := by
  decide

theorem hit_alpha : checkEntry (sampleSha256 sampleSecret) 0 sampleRow.stored.entry = .ok sampleContext := by
  decide

theorem begin_alpha : beginAuth (sampleApiKey (bs "alpha")) = .started := by decide

def sampleFilling : KeyState :=
  sampleState.setCall 0 (sampleApiKey (bs "alpha")) (.resolved sampleRow.stored.entry)

theorem sampleFilling_reachable : (system sampleSha256 60).Reachable sampleFilling := by
  have h1 : Step sampleSha256 60 sampleState (sampleState.setCall 0 (sampleApiKey (bs "alpha")) .started) := by
    have h : Step sampleSha256 60 sampleState (sampleState.setCall 0 _ _) := .start (sampleApiKey (bs "alpha")) rfl
    rwa [begin_alpha] at h
  have h2 : CallStep sampleSha256 60 (sampleState.setCall 0 (sampleApiKey (bs "alpha")) .started)
      (sampleState.setCall 0 (sampleApiKey (bs "alpha")) .missed) :=
    callStep_setCall fun hc => .get 0 hc parse_alpha
  have h3 : CallStep sampleSha256 60 (sampleState.setCall 0 (sampleApiKey (bs "alpha")) .missed)
      (sampleState.setCall 0 (sampleApiKey (bs "alpha"))
        (afterValidate (sampleDb.validate sampleSha256 0 (samplePk (bs "alpha"))))) :=
    callStep_setCall fun hc => .resolve 0 hc parse_alpha
  rw [validate_alpha] at h3
  exact .step (.step (.step (.init sampleState_init) h1) h2.1) h3.1

variable {s : KeyState}

theorem sample_accepted (hk : s.clock = 0)
    (hc : s.cache = c.set 0 60 (cacheKey sampleKeyId) (some sampleRow.stored.entry)) :
    (authenticate sampleSha256 60 s.db s.cache s.clock 0 {} (sampleApiKey (bs "alpha"))).1 = .ok sampleContext := by
  have hg : s.cache.get s.clock (cacheKey sampleKeyId) = some (some sampleRow.stored.entry) := by
    rw [hc, hk]
    exact Store.get_set_self (by decide)
  have hf : s.cache.find {} s.clock sampleKeyId = some sampleRow.stored.entry := congrArg Option.join hg
  rw [authenticate_fst parse_alpha]
  simp only [samplePk, hf]
  exact hit_alpha

def sampleRevoke (s : KeyState) : KeyState :=
  { s with
    db := s.db.revoke sampleTenant.tenantId sampleKeyId 0
    cache := s.cache.busted false sampleKeyId }.setRevoke 0 sampleTenant sampleKeyId (.returned true)

theorem sampleRevoke_run (hn : s.revokes 0 = none) :
    Relation.ReflTransGen (RevokeStep sampleSha256 60) s (sampleRevoke s) :=
  revoke_run hn (by decide) sampleKeyId 0

theorem sampleRevoke_hasKey (hd : s.db = sampleDb) :
    (sampleRevoke s).HasKey sampleTenant sampleKeyId := by
  refine ⟨KeyDb.revokeRow sampleTenant.tenantId sampleKeyId 0 sampleRow, ?_, ?_, KeyDb.revokeRow_id ..⟩
  · have hm : sampleRow ∈ s.db.keys := by
      rw [hd]
      exact List.mem_singleton.mpr rfl
    exact List.mem_map_of_mem hm
  · exact visible_revokeRow.mpr (uuidIn_uuidOut _)

def sampleServed : KeyState :=
  { sampleRevoke sampleFilling with
    cache := (sampleRevoke sampleFilling).cache.filled false 0 60 sampleKeyId sampleRow.stored.entry }.setCall 0
      (sampleApiKey (bs "alpha")) (.returned (tenantContextFrom sampleRow.stored.entry))

/-- `Revoke` runs between the row that a call found and the entry it caches: the next call is served the entry. -/
theorem revoked_key_served : ∃ s u : KeyState, (system sampleSha256 60).Reachable s ∧
    s.revokes 0 = some ⟨sampleTenant, sampleKeyId, .returned true⟩ ∧ s.HasKey sampleTenant sampleKeyId ∧
    s.calls 1 = none ∧ Relation.ReflTransGen (Step sampleSha256 60) s u ∧
    u.calls 1 = some ⟨sampleApiKey (bs "alpha"), .returned (.ok sampleContext)⟩ ∧
    parseKey (sampleApiKey (bs "alpha")) = some ⟨bs "alpha", sampleKeyId, sampleSecret⟩ := by
  have hr : (system sampleSha256 60).Reachable (sampleRevoke sampleFilling) :=
    sampleFilling_reachable.steps (Relation.ReflTransGen.mono (fun _ _ h => h.1) _ _ (sampleRevoke_run rfl))
  -- the first call caches the entry it read before, and the second is served it
  have h1 : Step sampleSha256 60 (sampleRevoke sampleFilling) sampleServed := .set (i := 0) false rfl parse_alpha
  have h2 : Relation.ReflTransGen (CallStep sampleSha256 60) sampleServed _ :=
    authenticate_run (i := 1) rfl 0 {} (sampleApiKey (bs "alpha"))
  have hst := Relation.ReflTransGen.mono (fun _ _ h => h.1) _ _ h2
  have hc : (answered sampleSha256 60 1 0 {} (sampleApiKey (bs "alpha")) sampleServed).calls 1 =
      some ⟨sampleApiKey (bs "alpha"), .returned (.ok sampleContext)⟩ := by
    rw [← sample_accepted (s := sampleServed) rfl rfl]
    exact calls_answered
  exact ⟨_, _, hr, rfl, sampleRevoke_hasKey rfl, rfl, .head h1 hst, hc, parse_alpha⟩

def sampleCached : KeyState := answered sampleSha256 60 0 0 {} (sampleApiKey (bs "alpha")) sampleState

/-- The cached key of the sample is revoked, and the next call rejects it. -/
theorem cached_key_revoked : ∃ s u : KeyState, ∃ r : Except AuthError TenantContext,
    ((system sampleSha256 60).restrict BustsSettled).Reachable s ∧
    s.revokes 0 = some ⟨sampleTenant, sampleKeyId, .returned true⟩ ∧
    u.calls 1 = some ⟨sampleApiKey (bs "alpha"), .returned r⟩ ∧ ∃ e, r = .error e := by
  have h0 : Relation.ReflTransGen (CallStep sampleSha256 60) sampleState sampleCached := authenticate_run rfl ..
  have hr0 := reachable_of_calls (.init sampleState_init) h0
  have hq : ∀ k, ¬ sampleCached.Filling k := by
    rintro k ⟨j, a, pk, ent, hj, -⟩
    rcases setCall_cases hj with ⟨-, he⟩ | hj
    · cases he
    · cases hj
  have hr1 := reachable_of_revoke hr0 hq (sampleRevoke_run rfl)
  have h2 : Relation.ReflTransGen (CallStep sampleSha256 60) (sampleRevoke sampleCached)
      (answered sampleSha256 60 1 0 {} (sampleApiKey (bs "alpha")) (sampleRevoke sampleCached)) :=
    authenticate_run rfl ..
  have hst := Relation.ReflTransGen.mono (fun _ _ h => h.1) _ _ h2
  exact ⟨_, _, _, hr1, rfl, calls_answered,
    revoked_key_denied (i := 0) hr1 rfl (sampleRevoke_hasKey rfl) rfl hst calls_answered parse_alpha rfl⟩

/-! ## Entries that stand for rows -/

structure Backed (s : KeyState) : Prop where
  cache : s.cache.All s.db.Backs
  calls : ∀ i a pk ent, s.calls i = some ⟨a, .resolved ent⟩ → parseKey a = some pk →
    s.db.Backs (cacheKey pk.keyId) (some ent)

theorem all_busted (h : c.All P) :
    (c.busted fails k).All P := by
  unfold KeyCache.busted
  split
  · exact h
  · exact h.del

theorem all_filled {clock ttl : Int} {ent : CacheEntry} (h : c.All P) (he : P (cacheKey k) (some ent)) :
    (c.filled fails clock ttl k ent).All P := by
  unfold KeyCache.filled
  split
  · exact h
  · exact h.set he

theorem Backed.step (hs : s.Backed) (h : Step sha256 ttl s t) (hok : s.SameTables t) : t.Backed := by
  have hdb : t.db = s.db := hok
  constructor
  · rw [hdb]
    cases h with
    | dropCorrupt fails hc hp => exact all_busted hs.cache
    | dropExpired fails hc hp => exact all_busted hs.cache
    | set fails hc hp => exact all_filled hs.cache (hs.calls _ _ _ _ hc hp)
    | revokeBust fails hr => exact all_busted hs.cache
    | evict key => exact hs.cache.del
    | _ => exact hs.cache
  · intro j a pk ent hj hp
    rw [hdb]
    rcases step_call h hj hp with hj | hm
    · exact hs.calls j a pk ent hj hp
    · cases hm with
      | waits hw => rcases hw with hw | hw | hw | hw <;> cases hw
      | resolves hv => exact backs_of_validate hv

theorem backed_reachable (hr : ((system sha256 ttl).restrict SameTables).Reachable s) : s.Backed := by
  refine hr.invariant (P := Backed) ?_ ?_
  · rintro s ⟨hc, hn, -⟩
    constructor
    · intro k i hi ent he
      rw [hc k i hi] at he
      cases he
    · intro i a pk ent hi
      rw [hn] at hi
      cases hi
  · intro s t _ hs h
    exact hs.step h.1 h.2

/-- **Transparent caches.** Over unchanged tables, a call decides with the cache as it would without one exactly when
it names the tenant of the cached key whose secret it presents in time. -/
theorem authenticate_transparent_iff (hr : ((system sha256 ttl).restrict SameTables).Reachable s) (now : Time)
    (faults : CacheFaults) (apiKey : Bytes) :
    (authenticate sha256 ttl s.db s.cache s.clock now faults apiKey).1.toOption =
        (authenticate sha256 ttl s.db .empty s.clock now faults apiKey).1.toOption ↔
      NamesOwner sha256 s.db s.cache s.clock now faults apiKey :=
  authenticate_agrees_iff (backed_reachable hr).cache

theorem reachable_of_sameTables (hr : ((system sha256 ttl).restrict SameTables).Reachable s)
    (h : Relation.ReflTransGen (CallStep sha256 ttl) s t) : ((system sha256 ttl).restrict SameTables).Reachable t := by
  induction h with
  | refl => exact hr
  | tail _ h ih => exact .step ih ⟨h.1, h.2.1⟩

theorem sampleCached_reachable : ((system sampleSha256 60).restrict SameTables).Reachable sampleCached :=
  reachable_of_sameTables (.init sampleState_init) (authenticate_run rfl ..)

/-- The cached key is accepted with the slug of another tenant, which does not have it. -/
theorem foreign_slug_accepted : ((system sampleSha256 60).restrict SameTables).Reachable sampleCached ∧
    (authenticate sampleSha256 60 sampleCached.db sampleCached.cache sampleCached.clock 0 {}
      (sampleApiKey (bs "bravo"))).1.toOption = some sampleContext ∧
    (authenticate sampleSha256 60 sampleCached.db .empty sampleCached.clock 0 {}
      (sampleApiKey (bs "bravo"))).1.toOption = none := by
  refine ⟨sampleCached_reachable, ?_, ?_⟩
  · decide
  · decide

/-- With the slug of its tenant the cached key is accepted as it would be without the cache. -/
theorem own_slug_agrees : ((system sampleSha256 60).restrict SameTables).Reachable sampleCached ∧
    (authenticate sampleSha256 60 sampleCached.db sampleCached.cache sampleCached.clock 0 {}
      (sampleApiKey (bs "alpha"))).1.toOption =
    (authenticate sampleSha256 60 sampleCached.db .empty sampleCached.clock 0 {}
      (sampleApiKey (bs "alpha"))).1.toOption := by
  refine ⟨sampleCached_reachable, (authenticate_transparent_iff sampleCached_reachable 0 {} _).mpr ?_⟩
  intro pk ent hp hf _ _
  obtain rfl := Option.some.inj (hp.symm.trans parse_alpha)
  have he : sampleCached.cache.find {} sampleCached.clock sampleKeyId = some sampleRow.stored.entry := by
    decide
  obtain rfl := Option.some.inj (hf.symm.trans he)
  exact ⟨⟨.rep 17, bs "alpha", .active⟩, List.mem_cons_self, rfl, rfl, rfl⟩

end KeyState

end Logalot
