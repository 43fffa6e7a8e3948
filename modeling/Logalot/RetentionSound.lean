import Logalot.ColdArchiveSound
import Logalot.PartitionsSound
import Logalot.Retention

/-!
# What a retention cycle deletes

The date read back from a key is the one it was written with. The tenants are swept
independently of each other.
-/

namespace Logalot

open Go Pg

/-! ## Keys -/

theorem slash_not_mem_of_isUUID {s : Bytes} (h : isUUID s = true) : 47 ∉ s := fun hm => by
  rcases mem_of_isUUID h hm with h | h
  · exact absurd h (by decide)
  · exact absurd h (by decide)

theorem slash_not_mem_formatDate (t : Time) : 47 ∉ formatDate t := fun hm => by
  rcases mem_formatDate hm with h | h
  · exact absurd h (by decide)
  · exact absurd h (by decide)

theorem cut_logs (s : Bytes) : cut (bs "/dt=") (bs "logs/tenant_id=" ++ s) =
    (cut (bs "/dt=") s).map fun p => (bs "logs/tenant_id=" ++ p.1, p.2) := by
  have hl : bs "logs/tenant_id=" = [108, 111, 103, 115, 47, 116, 101, 110, 97, 110, 116, 95, 105, 100, 61] := by
    decide
  have hd : bs "/dt=" = [47, 100, 116, 61] := by decide
  rw [hl, hd]
  simp [cut, List.isPrefixOf, Function.comp_def]

variable {tenantID k : Bytes} {keys : List Bytes} {log : List (Bytes × Option Bytes)} {fuel : Nat}
variable {p : RetentionPolicy} {policies : List RetentionPolicy} {b' : ColdBucket} {rows : List RetentionPolicyRow}
variable {x : Except Bytes (List Bytes)} {r : Retainer} {env : CycleEnv}

/-- **Round trip of keys.** The date read from a key is the one it was written with. -/
theorem parseDtFromKey_coldKey (h : isUUID tenantID = true) (batchID : Bytes) {t : Time}
    (ht : fourDigit (unixDay t)) :
    parseDtFromKey (coldKey tenantID batchID t) = some (unixDay t * 86400000000000) := by
  have hdt : bs "/dt=" = 47 :: bs "dt=" := by decide
  have hslash : bs "/" = [47] := by decide
  have hhour : bs "/hour=" = [47] ++ bs "hour=" := by decide
  have h1 : cut (bs "/dt=") (coldKey tenantID batchID t) =
      some (bs "logs/tenant_id=" ++ tenantID, formatDate t ++ ([47] ++ (bs "hour=" ++ padInt (hour t) 2 ++ bs "/" ++
        batchID ++ bs ".parquet"))) := by
    have hk : coldKey tenantID batchID t = bs "logs/tenant_id=" ++ (tenantID ++ (bs "/dt=" ++ (formatDate t ++
        ([47] ++ (bs "hour=" ++ padInt (hour t) 2 ++ bs "/" ++ batchID ++ bs ".parquet"))))) := by
      simp only [coldKey, hhour, List.append_assoc]
    rw [hk, cut_logs, hdt, cut_append_of_not_mem _ (slash_not_mem_of_isUUID h), cut_self_append]
    simp
  have h2 : cut (bs "/") (formatDate t ++ ([47] ++ (bs "hour=" ++ padInt (hour t) 2 ++ bs "/" ++ batchID ++
      bs ".parquet"))) = some (formatDate t, bs "hour=" ++ padInt (hour t) 2 ++ bs "/" ++ batchID ++
        bs ".parquet") := by
    rw [hslash, cut_append_of_not_mem _ (slash_not_mem_formatDate t), cut_self_append]
    simp
  simp only [parseDtFromKey, h1, h2]
  rw [if_neg (by rw [length_formatDate ht]; simp), parseDate_formatDate ht]

theorem keyExpired_coldKey (h : isUUID tenantID = true) (batchID : Bytes) {t : Time}
    (ht : fourDigit (unixDay t)) (now : Time) (coldDays : Int) :
    keyExpired (coldCutoff now coldDays) (coldKey tenantID batchID t) = true ↔ unixDay t < unixDay now - coldDays := by
  rw [keyExpired, parseDtFromKey_coldKey h batchID ht, Option.any_some, decide_eq_true_iff]
  show (unixDay t * 86400000000000 : Int) < ((unixDay now - coldDays) * 86400000000000 : Int) ↔ _
  omega

theorem tenantColdPrefix_coldKey (tenantID batchID : Bytes) (t : Time) :
    tenantColdPrefix tenantID <+: coldKey tenantID batchID t := by
  have hdt : bs "/dt=" = bs "/" ++ bs "dt=" := by decide
  refine ⟨bs "dt=" ++ formatDate t ++ bs "/hour=" ++ padInt (hour t) 2 ++ bs "/" ++ batchID ++ bs ".parquet", ?_⟩
  simp only [coldKey, tenantColdPrefix, hdt, List.append_assoc]

theorem tenant_of_prefix {a b : Bytes} (hl : a.length = b.length) (ha : tenantColdPrefix a <+: k)
    (hb : tenantColdPrefix b <+: k) : a = b := by
  have hlen : (tenantColdPrefix a).length = (tenantColdPrefix b).length := by simp [tenantColdPrefix, hl]
  have he := (List.prefix_of_prefix_length_le ha hb hlen.le).eq_of_length hlen
  simpa [tenantColdPrefix] using he

theorem length_of_isUUID {s : Bytes} (h : isUUID s = true) : s.length = 36 := by
  simp only [isUUID, Bool.and_eq_true, beq_iff_eq] at h
  exact h.1

theorem length_uuidOut (u : Uuid) : (uuidOut u).length = 36 := by
  obtain ⟨bytes, h⟩ := u
  match bytes, h with
  | [_, _, _, _, _, _, _, _, _, _, _, _, _, _, _, _], _ => rfl

/-! ## Listing -/

variable {client : S3Client} {b : ColdBucket} {tenantID : Bytes} (cutoffDate : Time)

theorem collectExpired_of_pages {tok : Option Bytes}
    (h : client.Pages b (tenantColdPrefix tenantID) tok keys) :
    ∃ N, ∀ fuel ≥ N, ∀ toDelete, collectExpired client b tenantID cutoffDate fuel tok toDelete =
      some (.ok (toDelete ++ keys.filter (keyExpired cutoffDate))) := by
  induction h with
  | last ho ht =>
    refine ⟨1, fun fuel hf toDelete => ?_⟩
    obtain ⟨n, rfl⟩ : ∃ n, fuel = n + 1 := ⟨fuel - 1, by omega⟩
    rw [collectExpired, ho]
    simp [ht]
  | more ho ht hn _ ih =>
    obtain ⟨N, hN⟩ := ih
    refine ⟨N + 1, fun fuel hf toDelete => ?_⟩
    obtain ⟨n, rfl⟩ : ∃ n, fuel = n + 1 := ⟨fuel - 1, by omega⟩
    rw [collectExpired, ho]
    simp only [ht, hn, if_true]
    rw [hN n (by omega), List.filter_append, List.append_assoc]

theorem collectExpired_of_fail {tok : Option Bytes} (h : client.PagesFail b (tenantColdPrefix tenantID) tok) :
    ∃ N e, ∀ fuel ≥ N, ∀ toDelete, collectExpired client b tenantID cutoffDate fuel tok toDelete = some (.error e) := by
  induction h with
  | @now tok e ho =>
    refine ⟨1, bs "coldpurger: list objects (tenant=" ++ tenantID ++ bs "): " ++ e, fun fuel hf toDelete => ?_⟩
    obtain ⟨n, rfl⟩ : ∃ n, fuel = n + 1 := ⟨fuel - 1, by omega⟩
    rw [collectExpired, ho]
  | later ho ht hn _ ih =>
    obtain ⟨N, e, hN⟩ := ih
    refine ⟨N + 1, e, fun fuel hf toDelete => ?_⟩
    obtain ⟨n, rfl⟩ : ∃ n, fuel = n + 1 := ⟨fuel - 1, by omega⟩
    rw [collectExpired, ho]
    simp only [ht, hn, if_true]
    exact hN n (by omega) _

variable {cutoffDate}

/-! ## Deleting -/

def batchAt (keys : List Bytes) (i : Nat) : List Bytes := (keys.take (min (i + maxDeleteBatch) keys.length)).drop i

theorem mem_of_mem_batchAt {i : Nat} (h : k ∈ batchAt keys i) : k ∈ keys :=
  List.mem_of_mem_take (List.mem_of_mem_drop h)

theorem mem_batchAt_or {i : Nat} (h : k ∈ keys.drop i) :
    k ∈ batchAt keys i ∨ k ∈ keys.drop (i + maxDeleteBatch) := by
  obtain ⟨j, hj, rfl⟩ := List.mem_iff_getElem.mp h
  rw [List.length_drop] at hj
  unfold batchAt
  generalize maxDeleteBatch = m
  by_cases hb : j < m
  · refine Or.inl (List.mem_iff_getElem.mpr ⟨j, ?_, ?_⟩)
    · rw [List.length_drop, List.length_take]
      omega
    · simp
  · refine Or.inr (List.mem_iff_getElem.mpr ⟨j - m, ?_, ?_⟩)
    · rw [List.length_drop]
      omega
    · simp only [List.getElem_drop]
      congr 1
      omega

theorem deleteFrom_step (client : S3Client) {i : Nat} (hi : i < keys.length) (deleted : Nat)
    (b : ColdBucket) :
    ((client.deleteObjects b (batchAt keys i)).2 ≠ .ok [] ∧ (deleteFrom client keys i deleted b).err ≠ none ∧
      (deleteFrom client keys i deleted b).bucket = (client.deleteObjects b (batchAt keys i)).1) ∨
    ((client.deleteObjects b (batchAt keys i)).2 = .ok [] ∧
      ∃ n, deleteFrom client keys i deleted b =
        deleteFrom client keys (i + maxDeleteBatch) n (client.deleteObjects b (batchAt keys i)).1) := by
  rw [deleteFrom, if_pos hi]
  unfold batchAt
  rcases h : client.deleteObjects b ((keys.take (min (i + maxDeleteBatch) keys.length)).drop i) with
    ⟨b', e | _ | ⟨e, es⟩⟩
  · exact Or.inl ⟨by simp, by simp only [h]; simp, by simp only [h]⟩
  · exact Or.inr ⟨rfl, _, by simp only [h]; rfl⟩
  · exact Or.inl ⟨by simp, by simp only [h]; simp, by simp only [h]⟩

theorem deleteFrom_spec (hl : client.Lawful) (keys : List Bytes) : ∀ (n i deleted : Nat) (b : ColdBucket),
    keys.length - i = n →
    (∀ k ∈ (deleteFrom client keys i deleted b).bucket, k ∈ b) ∧
    (∀ k ∈ b, k ∉ keys → k ∈ (deleteFrom client keys i deleted b).bucket) ∧
    ((deleteFrom client keys i deleted b).err = none →
      ∀ k ∈ keys.drop i, k ∉ (deleteFrom client keys i deleted b).bucket) := by
  have hothers : ∀ b i, ∀ k ∈ b, k ∉ keys → k ∈ (client.deleteObjects b (batchAt keys i)).1 := fun b i k hk hn =>
    hl.others b _ k hk fun hm => hn (mem_of_mem_batchAt hm)
  intro n
  induction n using Nat.strong_induction_on with
  | _ n ih =>
    intro i deleted b hn
    by_cases hi : i < keys.length
    · rcases deleteFrom_step client hi deleted b with ⟨-, herr, heq⟩ | ⟨hok, m, heq⟩
      · rw [heq]
        exact ⟨fun k hk => hl.sub b _ k hk, hothers b i, fun hnone => absurd hnone herr⟩
      · have hpos : 0 < maxDeleteBatch := by decide
        obtain ⟨hsub, hoth, hdel⟩ := ih (keys.length - (i + maxDeleteBatch)) (by omega) (i + maxDeleteBatch) m
          (client.deleteObjects b (batchAt keys i)).1 rfl
        rw [heq]
        refine ⟨fun k hk => hl.sub b _ k (hsub k hk), fun k hk hnk => hoth k (hothers b i k hk hnk) hnk, ?_⟩
        intro hnone k hk hmem
        rcases mem_batchAt_or hk with hk | hk
        · exact hl.deletes b _ hok k hk (hsub k hmem)
        · exact hdel hnone k hk hmem
    · rw [deleteFrom, if_neg hi]
      refine ⟨fun k hk => hk, fun k hk _ => hk, fun _ k hk => ?_⟩
      rw [List.drop_eq_nil_of_le (by omega)] at hk
      cases hk

theorem deleteBatched_spec (hl : client.Lawful) (b : ColdBucket) (keys : List Bytes) :
    (∀ k ∈ (deleteBatched client b keys).bucket, k ∈ b) ∧
    (∀ k ∈ b, k ∉ keys → k ∈ (deleteBatched client b keys).bucket) ∧
    ((deleteBatched client b keys).err = none → ∀ k ∈ keys, k ∉ (deleteBatched client b keys).bucket) :=
  deleteFrom_spec hl keys _ 0 0 b rfl

/-! ## Sweeps -/

structure Swept (now : Time) (policies : List RetentionPolicy) (log : List (Bytes × Option Bytes))
    (b b' : ColdBucket) : Prop where
  sub : ∀ k ∈ b', k ∈ b
  only : ∀ k ∈ b, k ∉ b' → ∃ p ∈ policies, tenantColdPrefix p.tenantId <+: k ∧
    keyExpired (coldCutoff now p.coldDays) k = true
  all : ∀ p ∈ policies, (∀ e, (p.tenantId, some e) ∉ log) → ∀ k ∈ b', tenantColdPrefix p.tenantId <+: k →
    keyExpired (coldCutoff now p.coldDays) k = false

variable {now : Time}

theorem Swept.nil : Swept now [] [] b b :=
  ⟨fun _ hk => hk, fun _ hk hn => absurd hk hn, fun _ hp => by cases hp⟩

theorem Swept.cons {b'' : ColdBucket} {err : Option Bytes} (h : Swept now [p] [(p.tenantId, err)] b b')
    (h' : Swept now policies log b' b'') : Swept now (p :: policies) ((p.tenantId, err) :: log) b b'' := by
  refine ⟨fun k hk => h.sub k (h'.sub k hk), fun k hk hn => ?_, fun q hq hs k hk => ?_⟩
  · by_cases hm : k ∈ b'
    · obtain ⟨q, hq, hx⟩ := h'.only k hm hn
      exact ⟨q, List.mem_cons_of_mem _ hq, hx⟩
    · obtain ⟨q, hq, hx⟩ := h.only k hk hm
      exact ⟨q, List.mem_cons.mpr (Or.inl (List.mem_singleton.mp hq)), hx⟩
  · rcases List.mem_cons.mp hq with rfl | hq
    · refine h.all q List.mem_cons_self (fun e he => hs e ?_) k (h'.sub k hk)
      exact List.mem_cons.mpr (Or.inl (List.mem_singleton.mp he))
    · exact h'.all q hq (fun e he => hs e (List.mem_cons_of_mem _ he)) k hk

theorem purgeExpiredPrefixes_eq {toDelete : List Bytes}
    (h : collectExpired client b tenantID cutoffDate fuel none [] = some (.ok toDelete)) :
    purgeExpiredPrefixes client fuel b tenantID cutoffDate = some (deleteBatched client b toDelete) := by
  rw [purgeExpiredPrefixes, h]
  by_cases hn : toDelete = []
  · subst hn
    simp [deleteBatched, deleteFrom]
  · simp [hn]

theorem Swept.of_pages (hl : client.Lawful)
    (hk : client.Pages b (tenantColdPrefix p.tenantId) none keys) {r : Purged}
    (hr : r = deleteBatched client b (keys.filter (keyExpired (coldCutoff now p.coldDays)))) :
    Swept now [p] [(p.tenantId, r.err)] b r.bucket := by
  have hx : ∀ k, k ∈ keys.filter (keyExpired (coldCutoff now p.coldDays)) ↔
      (k ∈ b ∧ tenantColdPrefix p.tenantId <+: k) ∧ keyExpired (coldCutoff now p.coldDays) k = true := fun k => by
    rw [List.mem_filter, hl.lists b _ keys hk]
  obtain ⟨hsub, hoth, hdel⟩ := deleteBatched_spec hl b (keys.filter (keyExpired (coldCutoff now p.coldDays)))
  rw [← hr] at hsub hoth hdel
  refine ⟨hsub, fun k hb hn => ?_, fun q hq hs k hb hpre => ?_⟩
  · have hm := (hx k).mp (by_contra fun h => hn (hoth k hb h))
    exact ⟨p, List.mem_cons_self, hm.1.2, hm.2⟩
  · rw [List.mem_singleton.mp hq] at hpre hs ⊢
    have hnone : r.err = none := Option.eq_none_iff_forall_not_mem.mpr fun e he => by
      rw [Option.mem_def] at he
      exact hs e (by rw [he]; exact List.mem_cons_self)
    by_contra he
    rw [Bool.not_eq_false] at he
    exact hdel hnone k ((hx k).mpr ⟨⟨hsub k hb, hpre⟩, he⟩) hb

theorem Swept.of_fail (p : RetentionPolicy) (e : Bytes) : Swept now [p] [(p.tenantId, some e)] b b := by
  refine ⟨fun _ hk => hk, fun _ hk hn => absurd hk hn, fun q hq hs => ?_⟩
  rw [List.mem_singleton.mp hq] at hs
  exact absurd List.mem_cons_self (hs e)

theorem purge_swept (hl : client.Lawful) (b : ColdBucket) (now : Time) (p : RetentionPolicy) :
    ∃ N r, (∀ fuel ≥ N, purgeExpiredPrefixes client fuel b p.tenantId (coldCutoff now p.coldDays) = some r) ∧
      Swept now [p] [(p.tenantId, r.err)] b r.bucket := by
  rcases hl.ends b (tenantColdPrefix p.tenantId) with ⟨keys, hk⟩ | hf
  · obtain ⟨N, hN⟩ := collectExpired_of_pages (coldCutoff now p.coldDays) hk
    exact ⟨N, _, fun fuel hfuel => purgeExpiredPrefixes_eq (hN fuel hfuel []), Swept.of_pages hl hk rfl⟩
  · obtain ⟨N, e, hN⟩ := collectExpired_of_fail (coldCutoff now p.coldDays) hf
    refine ⟨N, { bucket := b, deleted := 0, err := some e }, fun fuel hfuel => ?_, Swept.of_fail p e⟩
    rw [purgeExpiredPrefixes, hN fuel hfuel]

theorem purgeAll_swept (hl : client.Lawful) (now : Time) : ∀ (policies : List RetentionPolicy) (b : ColdBucket),
    ∃ N b' log, (∀ fuel ≥ N, purgeAll client fuel now policies b = some (b', log)) ∧ Swept now policies log b b'
  | [], b => ⟨0, b, [], fun _ _ => rfl, Swept.nil⟩
  | p :: policies, b => by
    obtain ⟨N, r, hr, hs⟩ := purge_swept hl b now p
    obtain ⟨M, b', log, hb', hs'⟩ := purgeAll_swept hl now policies r.bucket
    refine ⟨max N M, b', _, fun fuel hfuel => ?_, hs.cons hs'⟩
    rw [purgeAll, hr fuel (le_trans (le_max_left _ _) hfuel)]
    simp only [hb' fuel (le_trans (le_max_right _ _) hfuel), Option.map_some]

theorem mem_listAll :
    p ∈ listAll rows ↔
      ∃ r ∈ rows, p = { tenantId := uuidOut r.tenantId, hotDays := r.hotDays, coldDays := r.coldDays } := by
  simp only [listAll, List.mem_map, List.mem_insertionSort, eq_comm]

theorem Swept.gone_iff
    (h : Swept now (listAll rows) log b b') (hu : tenantID.length = 36)
    (hs : ∀ e, (tenantID, some e) ∉ log) (hk : k ∈ b) (hpre : tenantColdPrefix tenantID <+: k) :
    k ∉ b' ↔ ∃ p ∈ rows, uuidOut p.tenantId = tenantID ∧ keyExpired (coldCutoff now p.coldDays) k = true := by
  constructor
  · intro hn
    obtain ⟨q, hq, hqpre, hx⟩ := h.only k hk hn
    obtain ⟨p, hp, rfl⟩ := mem_listAll.mp hq
    exact ⟨p, hp, tenant_of_prefix ((length_uuidOut _).trans hu.symm) hqpre hpre, hx⟩
  · rintro ⟨p, hp, rfl, hx⟩ hmem
    have := h.all _ (mem_listAll.mpr ⟨p, hp, rfl⟩) hs k hmem hpre
    rw [hx] at this
    cases this

/-! ## Runs without errors -/

theorem collectExpired_mono : ∀ {fuel fuel' : Nat} {tok : Option Bytes}
    {toDelete : List Bytes}, fuel ≤ fuel' → collectExpired client b tenantID cutoffDate fuel tok toDelete = some x →
    collectExpired client b tenantID cutoffDate fuel' tok toDelete = some x
  | 0, _, _, _, _, h => by cases h
  | fuel + 1, 0, _, _, hf, _ => by omega
  | fuel + 1, fuel' + 1, tok, toDelete, hf, h => by
    rw [collectExpired] at h ⊢
    cases ho : client.listObjectsV2 b (tenantColdPrefix tenantID) tok with
    | error e => rwa [ho] at h
    | ok out =>
      simp only [ho] at h ⊢
      split
      · rename_i ht
        rw [if_pos ht] at h
        exact collectExpired_mono (by omega) h
      · rename_i ht
        rwa [if_neg ht] at h

section
variable {pre : Bytes}

theorem not_pagesFail (hn : client.NeverFails pre) {tok : Option Bytes} : ¬ client.PagesFail b pre tok := by
  intro h
  induction h with
  | @now tok e ho =>
    obtain ⟨out, ho'⟩ := hn.lists b tok
    rw [ho] at ho'
    cases ho'
  | later _ _ _ _ ih => exact ih

theorem deleteFrom_err (hn : client.NeverFails pre) {keys : List Bytes} (hk : ∀ k ∈ keys, pre <+: k) :
    ∀ (n i deleted : Nat) (b : ColdBucket), keys.length - i = n → (deleteFrom client keys i deleted b).err = none := by
  intro n
  induction n using Nat.strong_induction_on with
  | _ n ih =>
    intro i deleted b hlen
    by_cases hi : i < keys.length
    · rcases deleteFrom_step client hi deleted b with ⟨hne, -⟩ | ⟨-, m, heq⟩
      · exact absurd (hn.deletes _ _ fun k hm => hk k (mem_of_mem_batchAt hm)) hne
      · have hpos : 0 < maxDeleteBatch := by decide
        rw [heq]
        exact ih (keys.length - (i + maxDeleteBatch)) (by omega) _ _ _ rfl
    · rw [deleteFrom, if_neg hi]

end

theorem collectExpired_ok (hl : client.Lawful) (hn : client.NeverFails (tenantColdPrefix tenantID))
    (h : collectExpired client b tenantID cutoffDate fuel none [] = some x) :
    ∃ keys, x = .ok keys ∧ ∀ k ∈ keys, tenantColdPrefix tenantID <+: k := by
  obtain ⟨keys, hp⟩ := (hl.ends b (tenantColdPrefix tenantID)).resolve_right (not_pagesFail hn)
  obtain ⟨N, hN⟩ := collectExpired_of_pages cutoffDate hp
  have he := (collectExpired_mono (le_max_left fuel N) h).symm.trans (hN _ (le_max_right fuel N) [])
  refine ⟨_, Option.some.inj he, fun k hk => ?_⟩
  exact ((hl.lists b _ keys hp k).mp (List.mem_of_mem_filter hk)).2

theorem purgeExpiredPrefixes_err {r : Purged} (hl : client.Lawful) (hn : client.NeverFails (tenantColdPrefix tenantID))
    (h : purgeExpiredPrefixes client fuel b tenantID cutoffDate = some r) : r.err = none := by
  cases hc : collectExpired client b tenantID cutoffDate fuel none [] with
  | none => rw [purgeExpiredPrefixes, hc] at h; cases h
  | some y =>
    obtain ⟨keys, rfl, hk⟩ := collectExpired_ok hl hn hc
    rw [purgeExpiredPrefixes_eq hc] at h
    cases h
    exact deleteFrom_err hn hk _ 0 0 b rfl

theorem purgeAll_err (hl : client.Lawful) (hn : client.NeverFails (tenantColdPrefix tenantID)) :
    ∀ {policies : List RetentionPolicy} {b b' : ColdBucket} {log : List (Bytes × Option Bytes)},
      purgeAll client fuel now policies b = some (b', log) → ∀ e, (tenantID, some e) ∉ log
  | [], _, _, _, h => by
    cases h
    exact fun e => List.not_mem_nil
  | p :: policies, b, b', log, h => by
    rw [purgeAll] at h
    cases hr : purgeExpiredPrefixes client fuel b p.tenantId (coldCutoff now p.coldDays) with
    | none => rw [hr] at h; cases h
    | some r =>
      rw [hr] at h
      obtain ⟨⟨b'', log'⟩, hrest, he⟩ := Option.map_eq_some_iff.mp h
      cases he
      intro e hx
      rcases List.mem_cons.mp hx with heq | hx
      · obtain ⟨rfl, herr⟩ := Prod.mk.inj heq
        rw [purgeExpiredPrefixes_err hl hn hr] at herr
        cases herr
      · exact purgeAll_err hl hn hrest e hx

/-! ## Cycles -/

theorem runCycle_swept (he : r.enabled = true) (hd : r.dryRun = false)
    (hl : env.client.Lawful) (hp : env.policies = .ok rows) (s : Tiers) :
    ∃ N rep, (∀ fuel ≥ N, r.runCycle fuel env s = some rep) ∧ rep.err = none ∧
      Swept env.now (listAll rows) rep.purges s.cold rep.tiers.cold ∧
      (∀ tenantID, env.client.NeverFails (tenantColdPrefix tenantID) → ∀ e, (tenantID, some e) ∉ rep.purges) := by
  obtain ⟨N, b', log, hN, hs⟩ := purgeAll_swept hl env.now (listAll rows) s.cold
  refine ⟨N, { tiers := { hot := r.dropOlderThan env s.hot, cold := b' }, purges := log, err := none },
    fun fuel hfuel => ?_, rfl, hs, fun _ hn => purgeAll_err hl hn (hN N le_rfl)⟩
  simp [Retainer.runCycle, he, hd, hp, hN fuel hfuel]

/-- **Cold retention.** A cycle ends, and no purge of a tenant fails if S3 does not for its keys. Of a tenant whose
purge does not fail it deletes an archived object exactly when there is a policy of the tenant that its date is too old
for. It deletes nothing outside the prefixes of tenants with a policy, and what it deletes of a tenant does not depend
on the failures of others. -/
theorem cycle_deletes_expired (he : r.enabled = true) (hd : r.dryRun = false)
    (hl : env.client.Lawful) (hp : env.policies = .ok rows) (s : Tiers) :
    ∃ N rep, (∀ fuel ≥ N, r.runCycle fuel env s = some rep) ∧ rep.err = none ∧
      (∀ tenantID, env.client.NeverFails (tenantColdPrefix tenantID) → ∀ e, (tenantID, some e) ∉ rep.purges) ∧
      (∀ tc filed encoded ids puts events, ∀ o ∈ (archive tc filed encoded ids puts events).1, o.key ∈ s.cold →
        1 ≤ (civil (unixDay o.t)).year → (civil (unixDay o.t)).year ≤ 9999 → (∀ e, (tc.tenantId, some e) ∉ rep.purges) →
        (o.key ∉ rep.tiers.cold ↔ ∃ p ∈ rows, uuidOut p.tenantId = tc.tenantId ∧
          unixDay o.t < unixDay env.now - p.coldDays)) ∧
      (∀ k ∈ s.cold, k ∉ rep.tiers.cold → ∃ p ∈ rows, tenantColdPrefix (uuidOut p.tenantId) <+: k) ∧
      (∀ client' : S3Client, client'.Lawful →
        ∃ N' rep', (∀ fuel ≥ N', r.runCycle fuel { env with client := client' } s = some rep') ∧
          ∀ tenantID, isUUID tenantID = true → (∀ e, (tenantID, some e) ∉ rep.purges) →
            (∀ e, (tenantID, some e) ∉ rep'.purges) → ∀ k ∈ s.cold, tenantColdPrefix tenantID <+: k →
              (k ∈ rep.tiers.cold ↔ k ∈ rep'.tiers.cold)) := by
  obtain ⟨N, rep, hN, herr, hs, hlog⟩ := runCycle_swept he hd hl hp s
  refine ⟨N, rep, hN, herr, hlog, ?_, ?_, ?_⟩
  · intro tc filed encoded ids puts events o ho hk h1 h9999 hlog
    obtain ⟨hu, i, hkey⟩ := key_of_archive ho
    have hpre : tenantColdPrefix tc.tenantId <+: o.key := hkey ▸ tenantColdPrefix_coldKey _ _ _
    rw [hs.gone_iff (length_of_isUUID hu) hlog hk hpre]
    refine exists_congr fun p => and_congr_right fun _ => and_congr_right fun _ => ?_
    rw [hkey]
    exact keyExpired_coldKey hu _ ⟨by omega, h9999⟩ _ _
  · intro k hk hn
    obtain ⟨q, hq, hpre, -⟩ := hs.only k hk hn
    obtain ⟨p, hp, rfl⟩ := mem_listAll.mp hq
    exact ⟨p, hp, hpre⟩
  · intro client' hl'
    obtain ⟨N', rep', hN', -, hs', -⟩ :=
      runCycle_swept he hd (show CycleEnv.client { env with client := client' } |>.Lawful from hl') hp s
    refine ⟨N', rep', hN', fun tenantID hu hlog hlog' k hk hpre => not_iff_not.mp ?_⟩
    rw [hs.gone_iff (length_of_isUUID hu) hlog hk hpre, hs'.gone_iff (length_of_isUUID hu) hlog' hk hpre]

/-! ### A cycle over two objects -/

noncomputable def pagedS3 : S3Client where
  listObjectsV2 b pre tok :=
    match tok with
    | none => .ok { contents := [], isTruncated := true, nextContinuationToken := some [] }
    | some _ => .ok { contents := b.toList.filter pre.isPrefixOf, isTruncated := false, nextContinuationToken := none }
  deleteObjects b batch := (b \ batch.toFinset, .ok [])

theorem pagedS3_pages (b : ColdBucket) (pre : Bytes) : ∃ keys, pagedS3.Pages b pre none keys :=
  ⟨_, .more rfl rfl rfl (show pagedS3.Pages b pre (some []) _ from .last rfl rfl)⟩

theorem pagedS3_pages_eq {b : ColdBucket} {pre : Bytes} (h : pagedS3.Pages b pre none keys) :
    keys = b.toList.filter pre.isPrefixOf := by
  cases h with
  | last ho ht => cases ho; cases ht
  | more ho _ hn h =>
    cases ho
    cases hn
    cases h with
    | last ho _ => cases ho; rfl
    | more ho ht _ _ => cases ho; cases ht

theorem pagedS3_lawful : pagedS3.Lawful where
  ends b pre := Or.inl (pagedS3_pages b pre)
  lists b pre keys h k := by
    rw [pagedS3_pages_eq h, List.mem_filter, Finset.mem_toList, List.isPrefixOf_iff_prefix]
  sub b batch k hk := (Finset.mem_sdiff.mp hk).1
  others b batch k hk hn := Finset.mem_sdiff.mpr ⟨hk, fun h => hn (List.mem_toFinset.mp h)⟩
  deletes b batch _ k hk h := (Finset.mem_sdiff.mp h).2 (List.mem_toFinset.mpr hk)

theorem pagedS3_neverFails (pre : Bytes) : pagedS3.NeverFails pre where
  lists b tok := by cases tok <;> exact ⟨_, rfl⟩
  deletes _ _ _ := rfl

section
open Pipeline

def samplePolicy : RetentionPolicyRow :=
  { tenantId := sampleRow.tenantId
    hotDays := 30
    coldDays := 100
    hotDays_pos := by decide
    hotDays_le := by decide
    hotDays_le_coldDays := by decide }

noncomputable def sampleCycle : CycleEnv :=
  { client := pagedS3, dbDate := unixDay juneFirst, dropError := none, policies := .ok [samplePolicy],
    now := juneFirst }

def objectAt (t : Time) : ColdObject :=
  { key := coldKey sampleContext.tenantId [] t
    t := t
    records := encodeParquet sampleContext (fun _ => 0) [{ sampleEvent with ts := t }] }

def mayFirst : Time := 1777593600000000000

def sampleTiers : Tiers :=
  { hot := { parts := [], rest := [] }, cold := {(objectAt januaryFirst).key, (objectAt mayFirst).key} }

theorem objectAt_archived {t : Time} (h : isZero t = false) : objectAt t ∈
    (archive sampleContext (fun _ => 0) (fun _ _ => 0) (fun _ => []) (fun _ => true)
      [{ sampleEvent with ts := t }]).1 := by
  have hv : sampleContext.valid = none := by decide
  simp [archive, hv, partitionEvents, addToGroup, coldObjects, coldObject, putObjects, resolveTS, h, objectAt]

/-- With a policy of 100 days a cycle on June 1 deletes the object of January and keeps that of May. -/
theorem january_object_deleted :
    ∃ N rep, (∀ fuel ≥ N, Retainer.runCycle ⟨true, false, 30⟩ fuel sampleCycle sampleTiers = some rep) ∧
      (objectAt januaryFirst).key ∉ rep.tiers.cold ∧ (objectAt mayFirst).key ∈ rep.tiers.cold := by
  obtain ⟨N, rep, hN, -, hlog, hiff, -, -⟩ := cycle_deletes_expired (r := ⟨true, false, 30⟩) rfl rfl
    (show sampleCycle.client.Lawful from pagedS3_lawful) (show sampleCycle.policies = .ok [samplePolicy] from rfl)
    sampleTiers
  have hl := hlog sampleContext.tenantId (pagedS3_neverFails _)
  have hjan := hiff _ _ _ _ _ _ _ (objectAt_archived (t := januaryFirst) (by decide)) (by simp [sampleTiers])
    (by decide) (by decide) hl
  have hmay := hiff _ _ _ _ _ _ _ (objectAt_archived (t := mayFirst) (by decide)) (by simp [sampleTiers])
    (by decide) (by decide) hl
  refine ⟨N, rep, hN, hjan.mpr ⟨samplePolicy, List.mem_cons_self, by decide, by decide⟩, ?_⟩
  by_contra hn
  obtain ⟨p, hp, -, hlt⟩ := hmay.mp hn
  rw [List.mem_singleton.mp hp] at hlt
  exact absurd hlt (by decide)

end

/-! ## What a run of cycles keeps -/

theorem purgeExpiredPrefixes_mono {fuel' : Nat} (hf : fuel ≤ fuel') {r : Purged}
    (h : purgeExpiredPrefixes client fuel b tenantID cutoffDate = some r) :
    purgeExpiredPrefixes client fuel' b tenantID cutoffDate = some r := by
  unfold purgeExpiredPrefixes at h ⊢
  cases hc : collectExpired client b tenantID cutoffDate fuel none [] with
  | none => rw [hc] at h; cases h
  | some x =>
    rw [hc] at h
    rwa [collectExpired_mono hf hc]

theorem purgeAll_mono {fuel' : Nat} (hf : fuel ≤ fuel') : ∀ {policies : List RetentionPolicy} {b : ColdBucket}
    {x : ColdBucket × List (Bytes × Option Bytes)}, purgeAll client fuel now policies b = some x →
    purgeAll client fuel' now policies b = some x
  | [], _, _, h => h
  | p :: policies, b, x, h => by
    rw [purgeAll] at h ⊢
    cases hr : purgeExpiredPrefixes client fuel b p.tenantId (coldCutoff now p.coldDays) with
    | none => rw [hr] at h; cases h
    | some r =>
      rw [hr] at h
      obtain ⟨y, hy, rfl⟩ := Option.map_eq_some_iff.mp h
      rw [purgeExpiredPrefixes_mono hf hr]
      exact Option.map_eq_some_iff.mpr ⟨y, purgeAll_mono hf hy, rfl⟩

theorem Swept.of_purgeAll (hl : client.Lawful) {b : ColdBucket}
    (h : purgeAll client fuel now policies b = some (b', log)) : Swept now policies log b b' := by
  obtain ⟨N, c, log', hN, hs⟩ := purgeAll_swept hl now policies b
  have h' := purgeAll_mono (le_max_left fuel N) h
  rw [hN _ (le_max_right fuel N)] at h'
  cases h'
  exact hs

theorem dropOlderThan_cases (r : Retainer) (env : CycleEnv) (t : HotTable) :
    r.dropOlderThan env t = t ∨ r.dropOlderThan env t = t.dropNamed (isExpired (env.dbDate - r.hotDays)) := by
  unfold Retainer.dropOlderThan
  split
  · exact Or.inl rfl
  · split
    · rename_i h
      exact Or.inr (drop_eq h)
    · exact Or.inl rfl

theorem runCycle_cases (hl : env.client.Lawful) {s : Tiers}
    {rep : CycleReport} (h : r.runCycle fuel env s = some rep) :
    (rep.tiers.hot = s.hot ∨ rep.tiers.hot = s.hot.dropNamed (isExpired (env.dbDate - r.hotDays))) ∧
    (rep.tiers.cold = s.cold ∨
      ∃ rows, env.policies = .ok rows ∧ ∃ log, Swept env.now (listAll rows) log s.cold rep.tiers.cold) := by
  unfold Retainer.runCycle at h
  split at h
  · cases h
    exact ⟨Or.inl rfl, Or.inl rfl⟩
  split at h
  · split at h <;> cases h <;> exact ⟨Or.inl rfl, Or.inl rfl⟩
  split at h
  · cases h
    exact ⟨dropOlderThan_cases r env s.hot, Or.inl rfl⟩
  · rename_i rows hp
    split at h
    · cases h
    · rename_i cold purges hc
      cases h
      exact ⟨dropOlderThan_cases r env s.hot, Or.inr ⟨rows, hp, purges, Swept.of_purgeAll hl hc⟩⟩

theorem not_isExpired {day cutoff : Int} (h1 : 1 ≤ (civil day).year) (h : cutoff ≤ day) :
    isExpired cutoff (partitionName day) = false := by
  by_cases h9 : (civil day).year ≤ 9999
  · rw [isExpired_partitionName ⟨h1, h9⟩, decide_eq_false_iff_not]
    omega
  · have hn : (partitionName day).length ≠ 19 := by
      have hl : (bs "log_events_").length = 11 := by decide
      obtain ⟨hm, hd⟩ := civil_lt_hundred day
      have hm2 := length_padInt hm.1 hm.2 (by decide)
      have hd2 := length_padInt hd.1 hd.2 (by decide)
      intro hn
      rw [partitionName, toChar, if_neg (by omega), List.length_append, List.length_append, List.length_append, hl, hm2,
        hd2] at hn
      have := lt_of_length_padInt (by omega) (show (padInt (civil day).year 4).length = 4 by omega)
      omega
    rw [isExpired, isDailyName, beq_eq_false_iff_ne.mpr hn, Bool.and_false, Bool.false_and, Bool.false_and]

variable {r : Retainer} {s t : Tiers} {day coldDays : Int}

def Tiers.HasRow (s : Tiers) (day : Int) (row : Row) : Prop :=
  ∃ p ∈ s.hot.parts, p.name = partitionName day ∧ row ∈ p.rows

theorem Tiers.HasRow.mem_rows {row : Row} (h : s.HasRow day row) : row ∈ s.hot.rows := by
  obtain ⟨p, hp, -, hr⟩ := h
  exact List.mem_append_left _ (List.mem_flatMap.mpr ⟨p, hp, hr⟩)

theorem hasRow_step {ok : CycleEnv → Prop} {row : Row} (h1 : 1 ≤ (civil day).year)
    (hok : ∀ env, ok env → env.client.Lawful ∧ env.dbDate - r.hotDays ≤ day) (h : s.HasRow day row)
    (hs : s.Grows t ∨ ∃ env fuel rep, ok env ∧ r.runCycle fuel env s = some rep ∧ rep.tiers = t) :
    t.HasRow day row := by
  obtain ⟨p, hp, hn, hr⟩ := h
  rcases hs with hg | ⟨env, fuel, rep, he, hrun, rfl⟩
  · obtain ⟨p', hp', hn', hsub⟩ := hg.hot p hp
    exact ⟨p', hp', hn'.trans hn, hsub hr⟩
  · rcases (runCycle_cases (hok env he).1 hrun).1 with heq | heq
    · exact ⟨p, heq ▸ hp, hn, hr⟩
    · refine ⟨p, ?_, hn, hr⟩
      rw [heq]
      refine List.mem_filter.mpr ⟨hp, ?_⟩
      rw [hn, not_isExpired h1 (hok env he).2]
      rfl

theorem key_step {ok : CycleEnv → Prop}
    (hok : ∀ env, ok env → env.client.Lawful ∧ ∀ rows, env.policies = .ok rows → ∀ p ∈ rows,
      tenantColdPrefix (uuidOut p.tenantId) <+: k → keyExpired (coldCutoff env.now p.coldDays) k = false)
    (h : k ∈ s.cold)
    (hs : s.Grows t ∨ ∃ env fuel rep, ok env ∧ r.runCycle fuel env s = some rep ∧ rep.tiers = t) : k ∈ t.cold := by
  rcases hs with hg | ⟨env, fuel, rep, he, hrun, rfl⟩
  · exact hg.cold h
  · rcases (runCycle_cases (hok env he).1 hrun).2 with heq | ⟨rows, hp, log, hsw⟩
    · exact heq ▸ h
    · by_contra hn
      obtain ⟨q, hq, hpre, hx⟩ := hsw.only k h hn
      obtain ⟨p, hp', rfl⟩ := mem_listAll.mp hq
      rw [(hok env he).2 rows hp p hp' hpre] at hx
      cases hx

variable {now : Time} {tenantID : Bytes}

/-- **Survival in the hot store.** Cycles until `now` keep the rows of days that are not before the horizon. -/
theorem hasRow_run (hrun : r.Cycles (CycleEnv.By now tenantID coldDays) s t) {row : Row} (h1 : 1 ≤ (civil day).year)
    (hday : unixDay now - r.hotDays ≤ day) (h : s.HasRow day row) : t.HasRow day row := by
  induction hrun with
  | refl => exact h
  | tail _ hs ih =>
    refine hasRow_step h1 (fun env he => ⟨he.lawful, ?_⟩) ih hs
    have := he.dbDate
    omega

/-- **Survival in the archive.** Cycles until `now` keep the objects of dates that no policy of the tenant
is too short for. -/
theorem key_run (hrun : r.Cycles (CycleEnv.By now tenantID coldDays) s t) (hu : isUUID tenantID = true)
    {batchID : Bytes} {u : Time} (hy : fourDigit (unixDay u)) (hday : unixDay now - coldDays ≤ unixDay u)
    (h : coldKey tenantID batchID u ∈ s.cold) : coldKey tenantID batchID u ∈ t.cold := by
  induction hrun with
  | refl => exact h
  | tail _ hs ih =>
    refine key_step (fun env he => ⟨he.lawful, fun rows hp p hp' hpre => ?_⟩) ih hs
    have heq : uuidOut p.tenantId = tenantID := tenant_of_prefix ((length_uuidOut _).trans (length_of_isUUID hu).symm)
      hpre (tenantColdPrefix_coldKey _ _ _)
    rw [← Bool.not_eq_true, keyExpired_coldKey hu batchID hy]
    have hd := he.policies rows hp p hp' heq
    have hm : unixDay env.now ≤ unixDay now := Int.ediv_le_ediv (by decide) he.clock
    omega

end Logalot
