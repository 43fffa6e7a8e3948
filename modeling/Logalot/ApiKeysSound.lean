import Logalot.ApiKeys

/-!
# The two paths of authentication

What a row must be for a key to be accepted on a cache miss, and what a cached
entry must be on a hit. A miss asks whose key it is; a hit does not.
-/

namespace Logalot

open Go Pg TtlCache

variable {db : KeyDb} {r : ApiKey} {publicId : Bytes} {u : Uuid} {sk : StoredKey} {ent : CacheEntry}

theorem KeyDb.eq_of_id {r' : ApiKey} (h : r ∈ db.keys) (h' : r' ∈ db.keys) (he : r.id = r'.id) :
    r = r' :=
  List.inj_on_of_nodup_map db.nodup_id h h' he

/-! ## Resolution -/

def KeyDb.Names (db : KeyDb) (publicId : Bytes) (u : Uuid) : Prop :=
  ∃ t ∈ db.tenants, t.publicId = publicId ∧ t.status = .active ∧ t.id = u

theorem resolveTenantID_of_names (h : db.Names publicId u) :
    db.resolveTenantID publicId = .ok (uuidOut u) := by
  obtain ⟨t, ht, hp, hs, rfl⟩ := h
  unfold KeyDb.resolveTenantID
  split
  · rename_i t' hf
    have hq := List.find?_some hf
    simp only [decide_eq_true_eq] at hq
    have he : t' = t :=
      List.inj_on_of_nodup_map db.nodup_publicId (List.mem_of_find?_eq_some hf) ht (hq.1.trans hp.symm)
    rw [he]
  · rename_i hf
    exact absurd (decide_eq_true ⟨hp, hs⟩) (List.find?_eq_none.mp hf t ht)

theorem names_of_resolveTenantID {tid : Bytes} (h : db.resolveTenantID publicId = .ok tid) :
    ∃ u, db.Names publicId u ∧ tid = uuidOut u := by
  unfold KeyDb.resolveTenantID at h
  split at h
  · rename_i t hf
    have hq := List.find?_some hf
    simp only [decide_eq_true_eq] at hq
    exact ⟨t.id, ⟨t, List.mem_of_find?_eq_some hf, hq.1, hq.2, rfl⟩, (Except.ok.inj h).symm⟩
  · cases h

theorem selectKey_of_mem (hr : r ∈ db.keys) :
    db.selectKey (uuidOut r.tenantId) r.id = .ok r.stored := by
  unfold KeyDb.selectKey
  split
  · rename_i r' hf
    have hq := List.find?_some hf
    simp only [decide_eq_true_eq] at hq
    rw [KeyDb.eq_of_id (List.mem_of_find?_eq_some hf) hr hq.2]
  · rename_i hf
    exact absurd (decide_eq_true ⟨uuidIn_uuidOut r.tenantId, rfl⟩) (List.find?_eq_none.mp hf r hr)

theorem mem_of_selectKey {keyId : Bytes}
    (h : db.selectKey (uuidOut u) keyId = .ok sk) :
    ∃ r ∈ db.keys, r.id = keyId ∧ r.tenantId = u ∧ sk = r.stored := by
  unfold KeyDb.selectKey at h
  split at h
  · rename_i r hf
    have hq := List.find?_some hf
    simp only [decide_eq_true_eq, ApiKey.Visible, uuidIn_uuidOut] at hq
    exact ⟨r, List.mem_of_find?_eq_some hf, hq.2, (Option.some.inj hq.1).symm, (Except.ok.inj h).symm⟩
  · cases h

def ApiKey.Scoped (r : ApiKey) : Prop := TenantContext.valid { tenantId := uuidOut r.tenantId } = none

theorem resolveKey_eq_ok {keyId : Bytes} :
    db.resolveKey publicId keyId = .ok sk ↔
      ∃ r ∈ db.keys, r.id = keyId ∧ db.Names publicId r.tenantId ∧ r.Scoped ∧ sk = r.stored := by
  constructor
  · intro h
    unfold KeyDb.resolveKey at h
    split at h
    · cases h
    · rename_i tid ht
      obtain ⟨u, hu, rfl⟩ := names_of_resolveTenantID ht
      unfold withTenantScope at h
      split at h
      · cases h
      · rename_i hv
        obtain ⟨r, hr, hid, rfl, hs⟩ := mem_of_selectKey h
        exact ⟨r, hr, hid, hu, hv, hs⟩
  · rintro ⟨r, hr, rfl, hn, hv, rfl⟩
    rw [KeyDb.resolveKey, resolveTenantID_of_names hn]
    simp only [withTenantScope, show TenantContext.valid { tenantId := uuidOut r.tenantId } = none from hv]
    exact selectKey_of_mem hr

/-! ## The checks -/

theorem checkKey_eq_ok {hash : Bytes} {now : Time} :
    checkKey hash now sk = .ok ent ↔
      hash = sk.keyHash ∧ sk.revokedAt = none ∧ ¬ Expired now sk.expiresAt ∧ ent = sk.entry := by
  unfold checkKey
  by_cases h1 : hash = sk.keyHash
  · by_cases h2 : sk.revokedAt = none
    · by_cases h3 : Expired now sk.expiresAt
      · simp [h1, h2, h3]
      · simp [h1, h2, h3, eq_comm]
    · simp [h1, h2]
  · simp [h1]

theorem checkEntry_eq_ok {hash : Bytes} {now : Time} {tc : TenantContext} :
    checkEntry hash now ent = .ok tc ↔
      hash = ent.keyHash ∧ ¬ Expired now ent.expiresAt ∧ tenantContextFrom ent = .ok tc := by
  unfold checkEntry
  by_cases h1 : hash = ent.keyHash
  · by_cases h2 : Expired now ent.expiresAt
    · simp [h1, h2]
    · simp [h1, h2]
  · simp [h1]

theorem validate_eq_ok {sha256 : Bytes → Bytes} {now : Time} {pk : ParsedKey} :
    db.validate sha256 now pk = .ok ent ↔
      ∃ r ∈ db.keys, r.id = pk.keyId ∧ db.Names pk.publicId r.tenantId ∧ r.Scoped ∧
        sha256 pk.secret = r.keyHash ∧ r.revokedAt = none ∧ ¬ Expired now r.expiresAt ∧ ent = r.stored.entry := by
  unfold KeyDb.validate
  constructor
  · intro h
    split at h
    · cases h
    · rename_i sk hk
      obtain ⟨r, hr, hid, hn, hv, rfl⟩ := resolveKey_eq_ok.mp hk
      obtain ⟨hh, hrev, hexp, he⟩ := checkKey_eq_ok.mp h
      exact ⟨r, hr, hid, hn, hv, hh, hrev, hexp, he⟩
  · rintro ⟨r, hr, hid, hn, hv, hh, hrev, hexp, he⟩
    rw [resolveKey_eq_ok.mpr ⟨r, hr, hid, hn, hv, rfl⟩]
    exact checkKey_eq_ok.mpr ⟨hh, hrev, hexp, he⟩

theorem tenantContextFrom_entry (h : r.Scoped) :
    tenantContextFrom r.stored.entry =
      .ok { tenantId := uuidOut r.tenantId, principalId := r.id, scopes := r.scopes } := by
  have hv : TenantContext.valid
      { tenantId := uuidOut r.tenantId, principalId := r.id, scopes := r.scopes } = none := h
  simp only [tenantContextFrom, StoredKey.entry, ApiKey.stored, hv]

/-! ## The outcome of a call -/

def KeyDb.accept (sha256 : Bytes → Bytes) (db : KeyDb) (now : Time) (pk : ParsedKey) : Except AuthError TenantContext :=
  match db.validate sha256 now pk with
  | .error e => .error e
  | .ok ent => tenantContextFrom ent

variable {sha256 : Bytes → Bytes} {ttl : Int} {db : KeyDb} {cache : KeyCache} {clock now : Int} {faults : CacheFaults}
  {apiKey : Bytes} {pk : ParsedKey}

theorem ne_nil_of_parseKey (h : parseKey apiKey = some pk) : apiKey ≠ [] := by
  rintro rfl
  have hn : parseKey [] = none := by decide
  rw [hn] at h
  cases h

theorem authenticateMiss_fst :
    (authenticateMiss sha256 ttl db cache clock now faults pk).1 = db.accept sha256 now pk := by
  unfold authenticateMiss KeyDb.accept
  cases db.validate sha256 now pk with
  | error e => rfl
  | ok ent => rfl

theorem authenticate_fst (h : parseKey apiKey = some pk) :
    (authenticate sha256 ttl db cache clock now faults apiKey).1 =
      match cache.find faults clock pk.keyId with
      | some ent => checkEntry (sha256 pk.secret) now ent
      | none => db.accept sha256 now pk := by
  simp only [authenticate, if_neg (ne_nil_of_parseKey h), h, KeyCache.find]
  cases faults.get with
  | true => exact authenticateMiss_fst
  | false =>
    simp only [Bool.false_eq_true, if_false]
    cases hg : cache.get clock (cacheKey pk.keyId) with
    | none => exact authenticateMiss_fst
    | some v =>
      cases v with
      | none => exact authenticateMiss_fst
      | some ent =>
        simp only [Option.join_some]
        split
        · rename_i he
          exact he.symm
        · rfl

/-! ## Entries that stand for rows -/

def KeyDb.Backs (db : KeyDb) (key : Bytes) (v : Option CacheEntry) : Prop :=
  ∀ ent, v = some ent → ∃ r ∈ db.keys, key = cacheKey r.id ∧ r.Scoped ∧ r.revokedAt = none ∧ ent = r.stored.entry

theorem cacheKey_inj {k k' : Bytes} (h : cacheKey k = cacheKey k') : k = k' := List.append_cancel_left h

theorem backs_of_validate (h : db.validate sha256 now pk = .ok ent) :
    db.Backs (cacheKey pk.keyId) (some ent) := by
  rintro _ ⟨⟩
  obtain ⟨r, hr, hid, -, hv, -, hrev, -, he⟩ := validate_eq_ok.mp h
  exact ⟨r, hr, by rw [hid], hv, hrev, he⟩

theorem find_backs (hc : cache.All db.Backs) (hf : cache.find faults clock pk.keyId = some ent) :
    ∃ r ∈ db.keys, r.id = pk.keyId ∧ r.Scoped ∧ r.revokedAt = none ∧ ent = r.stored.entry := by
  unfold KeyCache.find at hf
  split at hf
  · cases hf
  · have hg := Option.join_eq_some_iff.mp hf
    obtain ⟨r, hr, hk, h⟩ := hc.get hg ent rfl
    exact ⟨r, hr, (cacheKey_inj hk).symm, h⟩

theorem hit_agrees_iff (hr : r ∈ db.keys) (hid : r.id = pk.keyId) (hv : r.Scoped)
    (hrev : r.revokedAt = none) :
    (checkEntry (sha256 pk.secret) now r.stored.entry).toOption = (db.accept sha256 now pk).toOption ↔
      (sha256 pk.secret = r.keyHash → ¬ Expired now r.expiresAt → db.Names pk.publicId r.tenantId) := by
  have hacc : ∀ ent, db.validate sha256 now pk = .ok ent →
      db.Names pk.publicId r.tenantId ∧ sha256 pk.secret = r.keyHash ∧ ¬ Expired now r.expiresAt := by
    intro ent he
    obtain ⟨r', hr', hid', hn, -, hh, -, hexp, -⟩ := validate_eq_ok.mp he
    obtain rfl := KeyDb.eq_of_id hr' hr (hid'.trans hid.symm)
    exact ⟨hn, hh, hexp⟩
  have hmiss : ¬ (db.Names pk.publicId r.tenantId ∧ sha256 pk.secret = r.keyHash ∧ ¬ Expired now r.expiresAt) →
      (db.accept sha256 now pk).toOption = none := by
    intro h
    unfold KeyDb.accept
    cases he : db.validate sha256 now pk with
    | error e => rfl
    | ok ent => exact absurd (hacc ent he) h
  by_cases hok : sha256 pk.secret = r.keyHash ∧ ¬ Expired now r.expiresAt
  · have hc : checkEntry (sha256 pk.secret) now r.stored.entry =
        .ok { tenantId := uuidOut r.tenantId, principalId := r.id, scopes := r.scopes } :=
      checkEntry_eq_ok.mpr ⟨hok.1, hok.2, tenantContextFrom_entry hv⟩
    rw [hc]
    constructor
    · intro h _ _
      by_contra hn
      rw [hmiss fun h => hn h.1] at h
      cases h
    · intro hn
      have he : db.validate sha256 now pk = .ok r.stored.entry :=
        validate_eq_ok.mpr ⟨r, hr, hid, hn hok.1 hok.2, hv, hok.1, hrev, hok.2, rfl⟩
      rw [KeyDb.accept, he]
      exact congrArg Except.toOption (tenantContextFrom_entry hv).symm
  · have hc : (checkEntry (sha256 pk.secret) now r.stored.entry).toOption = none := by
      cases he : checkEntry (sha256 pk.secret) now r.stored.entry with
      | error e => rfl
      | ok tc =>
        obtain ⟨hh, hexp, -⟩ := checkEntry_eq_ok.mp he
        exact absurd ⟨hh, hexp⟩ hok
    rw [hc, hmiss fun h => hok h.2]
    exact ⟨fun _ hh hexp => absurd ⟨hh, hexp⟩ hok, fun _ => rfl⟩

theorem uuidOut_inj {v : Uuid} (h : uuidOut u = uuidOut v) : u = v := by
  have he := congrArg uuidIn h
  rw [uuidIn_uuidOut, uuidIn_uuidOut] at he
  exact Option.some.inj he

/-- Whoever presents the secret of a cached key that has not expired also names the tenant of the key. -/
def NamesOwner (sha256 : Bytes → Bytes) (db : KeyDb) (cache : KeyCache) (clock now : Int) (faults : CacheFaults)
    (apiKey : Bytes) : Prop :=
  ∀ pk ent, parseKey apiKey = some pk → cache.find faults clock pk.keyId = some ent →
    sha256 pk.secret = ent.keyHash → ¬ Expired now ent.expiresAt →
    ∃ t ∈ db.tenants, t.publicId = pk.publicId ∧ t.status = .active ∧ uuidOut t.id = ent.tenantId

theorem names_iff :
    db.Names publicId u ↔ ∃ t ∈ db.tenants, t.publicId = publicId ∧ t.status = .active ∧ uuidOut t.id = uuidOut u := by
  constructor
  · rintro ⟨t, ht, hp, hs, rfl⟩
    exact ⟨t, ht, hp, hs, rfl⟩
  · rintro ⟨t, ht, hp, hs, he⟩
    exact ⟨t, ht, hp, hs, uuidOut_inj he⟩

theorem authenticate_empty (h : parseKey apiKey = some pk) :
    (authenticate sha256 ttl db .empty clock now faults apiKey).1 = db.accept sha256 now pk := by
  have hf : KeyCache.find faults clock pk.keyId .empty = none := by
    unfold KeyCache.find
    split <;> rfl
  rw [authenticate_fst h, hf]

theorem authenticate_agrees_iff (hc : cache.All db.Backs) :
    (authenticate sha256 ttl db cache clock now faults apiKey).1.toOption =
        (authenticate sha256 ttl db .empty clock now faults apiKey).1.toOption ↔
      NamesOwner sha256 db cache clock now faults apiKey := by
  cases hp : parseKey apiKey with
  | none =>
    have he : ∀ c : KeyCache, (authenticate sha256 ttl db c clock now faults apiKey).1.toOption = none := by
      intro c
      unfold authenticate
      split
      · rfl
      · rw [hp]
        rfl
    rw [he, he]
    refine ⟨fun _ pk _ h => ?_, fun _ => rfl⟩
    rw [hp] at h
    cases h
  | some pk =>
    rw [authenticate_empty hp, authenticate_fst hp]
    cases hf : cache.find faults clock pk.keyId with
    | none =>
      refine ⟨fun _ pk' ent h he => ?_, fun _ => rfl⟩
      obtain rfl := Option.some.inj (hp.symm.trans h)
      rw [hf] at he
      cases he
    | some ent =>
      obtain ⟨r, hr, hid, hv, hrev, rfl⟩ := find_backs hc hf
      refine (hit_agrees_iff hr hid hv hrev).trans ⟨fun h pk' ent' h' he hh hexp => ?_, fun h hh hexp => ?_⟩
      · obtain rfl := Option.some.inj (hp.symm.trans h')
        obtain rfl := Option.some.inj (hf.symm.trans he)
        exact names_iff.mp (h hh hexp)
      · exact names_iff.mpr (h pk _ hp hf hh hexp)

end Logalot
