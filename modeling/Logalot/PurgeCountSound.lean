import Logalot.RetentionSound

/-!
# What a purge counts

Of a batch with errors for a part of it the rest is deleted and not counted.
-/

namespace Logalot

open Go

variable {outcome : Nat → Except Bytes (List S3KeyError)} {keys : List Bytes}

/-! ## One batch -/

theorem batchAt_eq {i : Nat} (hi : i < keys.length) : batchAt keys i = (keys.drop i).take maxDeleteBatch := by
  unfold batchAt
  rw [List.drop_take, List.take_eq_take_iff]
  rw [List.length_drop]
  omega

theorem take_append_batchAt {i : Nat} (hi : i < keys.length) :
    keys.take i ++ batchAt keys i = keys.take (i + maxDeleteBatch) := by
  rw [batchAt_eq hi, List.take_add]

/-! ## The loop -/

/-- The call at this position is made, and it is the first that does not delete its batch. -/
structure EndsAt (outcome : Nat → Except Bytes (List S3KeyError)) (keys : List Bytes) (i : Nat) : Prop where
  start : i % maxDeleteBatch = 0
  lt : i < keys.length
  bad : outcome i ≠ .ok []
  before : ∀ j < i, j % maxDeleteBatch = 0 → outcome j = .ok []

theorem EndsAt.unique {i j : Nat} (hi : EndsAt outcome keys i) (hj : EndsAt outcome keys j) : i = j := by
  rcases Nat.lt_trichotomy i j with h | h | h
  · exact absurd (hj.before i h hi.start) hi.bad
  · exact h
  · exact absurd (hi.before j h hj.start) hj.bad

inductive DeleteEnds (outcome : Nat → Except Bytes (List S3KeyError)) (keys : List Bytes) : DeleteRun → Prop
  | complete : (∀ i, ¬ EndsAt outcome keys i) → DeleteEnds outcome keys ⟨keys, keys.length, none⟩
  | failed {i : Nat} {e text : Bytes} : EndsAt outcome keys i → outcome i = .error e →
      DeleteEnds outcome keys ⟨keys.take i, i, some text⟩
  | reported {i : Nat} {errs : List S3KeyError} {text : Bytes} : EndsAt outcome keys i → outcome i = .ok errs →
      DeleteEnds outcome keys
        ⟨keys.take i ++ (batchAt keys i).filter fun k => k ∉ errs.map S3KeyError.key, i, some text⟩

theorem deleteRunFrom_ends (n : Nat) : ∀ i, keys.length - i = n → i % maxDeleteBatch = 0 →
    (∀ j < i, j % maxDeleteBatch = 0 → outcome j = .ok []) →
    DeleteEnds outcome keys (deleteRunFrom outcome keys i (keys.take i).length (keys.take i)) := by
  induction n using Nat.strong_induction_on with
  | _ n ih =>
    intro i hn hstart hbefore
    rw [deleteRunFrom]
    by_cases hi : i < keys.length
    · have hlen : (keys.take i).length = i := List.length_take_of_le hi.le
      rw [if_pos hi]
      dsimp only
      cases ho : outcome i with
      | error e =>
        rw [hlen]
        exact .failed ⟨hstart, hi, by rw [ho]; simp, hbefore⟩ ho
      | ok errs =>
        cases errs with
        | cons e errs =>
          rw [hlen]
          exact .reported ⟨hstart, hi, by rw [ho]; simp, hbefore⟩ ho
        | nil =>
          -- the invariant holds again at the next position
          have hnext : ∀ j < i + maxDeleteBatch, j % maxDeleteBatch = 0 → outcome j = .ok [] := by
            intro j hj hmod
            by_cases hlt : j < i
            · exact hbefore j hlt hmod
            · unfold maxDeleteBatch at hj hmod hstart
              obtain rfl : j = i := by omega
              exact ho
          have hpos : 0 < maxDeleteBatch := by decide
          have h := ih (keys.length - (i + maxDeleteBatch)) (by omega) (i + maxDeleteBatch) rfl
            (by rw [Nat.add_mod_right]; exact hstart) hnext
          rw [← take_append_batchAt hi, List.length_append] at h
          exact h
    · rw [if_neg hi, List.take_of_length_le (by omega)]
      refine .complete fun j hj => hj.bad (hbefore j ?_ hj.start)
      have := hj.lt
      omega

theorem deleteRun_ends (outcome : Nat → Except Bytes (List S3KeyError)) (keys : List Bytes) :
    DeleteEnds outcome keys (deleteRun outcome keys) :=
  deleteRunFrom_ends _ 0 rfl (Nat.zero_mod _) fun j hj => absurd hj (Nat.not_lt_zero j)

theorem DeleteEnds.sublist {run : DeleteRun} (h : DeleteEnds outcome keys run) : run.removed.Sublist keys := by
  cases h with
  | complete => exact .refl _
  | failed => exact List.take_sublist _ _
  | @reported i errs _ hi _ =>
    have hle : (keys.take i ++ batchAt keys i).Sublist keys := by
      rw [take_append_batchAt hi.lt]
      exact List.take_sublist _ _
    exact (List.Sublist.append_left List.filter_sublist _).trans hle

theorem length_filter_batchAt_lt {errs : List S3KeyError} {i : Nat} {e : S3KeyError} (he : e ∈ errs)
    (hk : e.key ∈ batchAt keys i) :
    ((batchAt keys i).filter fun k => k ∉ errs.map S3KeyError.key).length < (batchAt keys i).length := by
  apply List.length_filter_lt_length_iff_exists.mpr
  exact ⟨e.key, hk, by simpa using ⟨e, he, rfl⟩⟩

/-- **Accounts of a purge.** The count is right and the error nil exactly when every key is deleted, unless
the last call reports errors for a part of its batch only. Of distinct keys each that is deleted is one object. -/
theorem deleted_exact_iff (outcome : Nat → Except Bytes (List S3KeyError)) (keys : List Bytes)
    (hsub : ∀ i errs, EndsAt outcome keys i → outcome i = .ok errs → ∀ e ∈ errs, e.key ∈ batchAt keys i) :
    (((deleteRun outcome keys).deleted = (deleteRun outcome keys).removed.length ∧
        ((deleteRun outcome keys).err = none ↔ (deleteRun outcome keys).removed = keys)) ↔
      ∀ i errs, EndsAt outcome keys i → outcome i = .ok errs →
        ∀ k ∈ batchAt keys i, k ∈ errs.map S3KeyError.key) ∧
    (keys.Nodup → (deleteRun outcome keys).removed.length = (deleteRun outcome keys).removed.toFinset.card) := by
  refine ⟨?_, fun hn => (List.toFinset_card_of_nodup (hn.sublist (deleteRun_ends outcome keys).sublist)).symm⟩
  have hend := deleteRun_ends outcome keys
  generalize deleteRun outcome keys = run at hend
  cases hend with
  | complete hnone =>
    refine iff_of_true ⟨rfl, iff_of_true rfl rfl⟩ fun i errs hi => absurd hi (hnone i)
  | @failed i e text hi ho =>
    have hlen : (keys.take i).length = i := List.length_take_of_le hi.lt.le
    refine iff_of_true ⟨hlen.symm, iff_of_false (by simp) fun hk => ?_⟩ fun j errs hj hoj => ?_
    · have hfull : (keys.take i).length = keys.length := congrArg List.length hk
      have := hi.lt
      omega
    · rw [hi.unique hj, hoj] at ho
      cases ho
  | @reported i errs text hi ho =>
    have hlen : (keys.take i).length = i := List.length_take_of_le hi.lt.le
    have herr : (some text = none ↔ keys.take i ++ ((batchAt keys i).filter fun k => k ∉ errs.map S3KeyError.key) =
        keys) := by
      refine iff_of_false (by simp) fun hk => ?_
      obtain ⟨e, he⟩ := List.exists_mem_of_ne_nil errs fun hn => hi.bad (by rw [ho, hn])
      have hlt := length_filter_batchAt_lt he (hsub i errs hi ho e he)
      have hle : (keys.take i ++ batchAt keys i).length ≤ keys.length := by
        rw [take_append_batchAt hi.lt]
        exact List.length_take_le' _ _
      have := congrArg List.length hk
      rw [List.length_append] at this hle
      omega
    constructor
    · rintro ⟨hcount, -⟩ j errs' hj hoj k hk
      obtain rfl := hi.unique hj
      obtain rfl : errs = errs' := Except.ok.inj (ho.symm.trans hoj)
      dsimp only at hcount
      rw [List.length_append, hlen] at hcount
      have hnil : ((batchAt keys i).filter fun k => k ∉ errs.map S3KeyError.key) = [] :=
        List.length_eq_zero_iff.mp (by omega)
      simpa using List.filter_eq_nil_iff.mp hnil k hk
    · intro hall
      have hnil : ((batchAt keys i).filter fun k => k ∉ errs.map S3KeyError.key) = [] :=
        List.filter_eq_nil_iff.mpr fun k hk => by simpa using hall i errs hi ho k hk
      refine ⟨?_, herr⟩
      dsimp only
      rw [hnil, List.append_nil, hlen]

/-- One of two objects cannot be deleted; the other is, and none is counted. -/
theorem part_of_batch_lost :
    (deleteRun (fun _ => .ok [⟨bs "b", bs "AccessDenied", []⟩]) [bs "a", bs "b"]).removed = [bs "a"] ∧
      (deleteRun (fun _ => .ok [⟨bs "b", bs "AccessDenied", []⟩]) [bs "a", bs "b"]).deleted = 0 := by
  unfold deleteRun
  rw [deleteRunFrom]
  decide

theorem whole_batch_kept :
    (deleteRun (fun _ => .ok [⟨bs "b", bs "AccessDenied", []⟩, ⟨bs "a", bs "AccessDenied", []⟩])
        [bs "a", bs "b"]).deleted =
      (deleteRun (fun _ => .ok [⟨bs "b", bs "AccessDenied", []⟩, ⟨bs "a", bs "AccessDenied", []⟩])
        [bs "a", bs "b"]).removed.toFinset.card := by
  have hbatch : ∀ i, i % maxDeleteBatch = 0 → i < [bs "a", bs "b"].length →
      batchAt [bs "a", bs "b"] i = [bs "a", bs "b"] := by
    intro i hi hlt
    obtain rfl : i = 0 := by
      simp only [maxDeleteBatch, List.length_cons, List.length_nil] at hi hlt
      omega
    rfl
  have h := deleted_exact_iff (fun _ => .ok [⟨bs "b", bs "AccessDenied", []⟩, ⟨bs "a", bs "AccessDenied", []⟩])
    [bs "a", bs "b"] fun i errs hi ho e he => by
      cases ho
      rw [hbatch i hi.start hi.lt]
      decide +revert
  rw [(h.1.mpr fun i errs hi ho k hk => ?_).1, h.2 (by decide)]
  cases ho
  rw [hbatch i hi.start hi.lt] at hk
  decide +revert

/-! ## With S3 -/

structure S3Client.Exact (client : S3Client) : Prop where
  failed : ∀ b batch e, (client.deleteObjects b batch).2 = .error e → (client.deleteObjects b batch).1 = b
  rest : ∀ b batch errs, (client.deleteObjects b batch).2 = .ok errs →
    (client.deleteObjects b batch).1 = b \ (batch.filter fun k => k ∉ errs.map S3KeyError.key).toFinset
  reported : ∀ b batch errs, (client.deleteObjects b batch).2 = .ok errs → ∀ e ∈ errs, e.key ∈ batch

section
variable (client : S3Client) (b : ColdBucket) (keys : List Bytes)

def bucketAt : Nat → ColdBucket
  | 0 => b
  | n + 1 => (client.deleteObjects (bucketAt n) (batchAt keys (n * maxDeleteBatch))).1

def outcomeAt (i : Nat) : Except Bytes (List S3KeyError) :=
  (client.deleteObjects (bucketAt client b keys (i / maxDeleteBatch)) (batchAt keys i)).2

theorem deleteFrom_run (m : Nat) : ∀ n deleted removed, keys.length - n * maxDeleteBatch = m →
    (deleteFrom client keys (n * maxDeleteBatch) deleted (bucketAt client b keys n)).deleted =
        (deleteRunFrom (outcomeAt client b keys) keys (n * maxDeleteBatch) deleted removed).deleted ∧
      (deleteFrom client keys (n * maxDeleteBatch) deleted (bucketAt client b keys n)).err =
        (deleteRunFrom (outcomeAt client b keys) keys (n * maxDeleteBatch) deleted removed).err ∧
      (client.Exact → bucketAt client b keys n = b \ removed.toFinset →
        (deleteFrom client keys (n * maxDeleteBatch) deleted (bucketAt client b keys n)).bucket =
          b \ (deleteRunFrom (outcomeAt client b keys) keys (n * maxDeleteBatch) deleted
            removed).removed.toFinset) := by
  have hpos : 0 < maxDeleteBatch := by decide
  induction m using Nat.strong_induction_on with
  | _ m ih =>
    intro n deleted removed hm
    rw [deleteFrom, deleteRunFrom]
    by_cases hi : n * maxDeleteBatch < keys.length
    · rw [if_pos hi, if_pos hi]
      dsimp only
      have ho : outcomeAt client b keys (n * maxDeleteBatch) =
          (client.deleteObjects (bucketAt client b keys n) (batchAt keys (n * maxDeleteBatch))).2 := by
        rw [outcomeAt, Nat.mul_div_cancel _ hpos]
      have hb : ((keys.take (min (n * maxDeleteBatch + maxDeleteBatch) keys.length)).drop (n * maxDeleteBatch)) =
          batchAt keys (n * maxDeleteBatch) := rfl
      have hnext : bucketAt client b keys (n + 1) =
          (client.deleteObjects (bucketAt client b keys n) (batchAt keys (n * maxDeleteBatch))).1 := rfl
      have hrest := fun hx : client.Exact => hx.rest (bucketAt client b keys n) (batchAt keys (n * maxDeleteBatch))
      have hfail := fun hx : client.Exact => hx.failed (bucketAt client b keys n) (batchAt keys (n * maxDeleteBatch))
      rw [ho, hb]
      cases hd : client.deleteObjects (bucketAt client b keys n) (batchAt keys (n * maxDeleteBatch)) with
      | mk b' res =>
        rw [hd] at hnext hrest hfail
        cases res with
        | error e =>
          refine ⟨rfl, rfl, fun hx hbk => ?_⟩
          rw [← hbk]
          exact hfail hx e rfl
        | ok errs =>
          have hbucket : client.Exact → bucketAt client b keys n = b \ removed.toFinset →
              b' = b \ (removed ++ (batchAt keys (n * maxDeleteBatch)).filter
                fun k => k ∉ errs.map S3KeyError.key).toFinset := by
            intro hx hbk
            have hr : b' = _ := hrest hx errs rfl
            rw [hr, hbk, List.toFinset_append, sdiff_sdiff_left]
            rfl
          cases errs with
          | cons e errs => exact ⟨rfl, rfl, hbucket⟩
          | nil =>
            have h := ih (keys.length - (n + 1) * maxDeleteBatch) (by rw [Nat.add_one_mul]; omega) (n + 1)
              (deleted + (batchAt keys (n * maxDeleteBatch)).length) (removed ++ batchAt keys (n * maxDeleteBatch)) rfl
            rw [Nat.add_one_mul, hnext] at h
            refine ⟨h.1, h.2.1, fun hx hbk => h.2.2 hx ?_⟩
            rw [hbucket hx hbk]
            simp
    · rw [if_neg hi, if_neg hi]
      exact ⟨rfl, rfl, fun _ h => h⟩

theorem deleteBatched_run :
    (deleteBatched client b keys).deleted = (deleteRun (outcomeAt client b keys) keys).deleted ∧
      (deleteBatched client b keys).err = (deleteRun (outcomeAt client b keys) keys).err ∧
      (client.Exact → (deleteBatched client b keys).bucket =
        b \ (deleteRun (outcomeAt client b keys) keys).removed.toFinset) := by
  have h := deleteFrom_run client b keys _ 0 0 [] rfl
  rw [Nat.zero_mul] at h
  exact ⟨h.1, h.2.1, fun hx => h.2.2 hx (by simp [bucketAt])⟩

/-- Of distinct objects that are there, as many are gone as the run has deleted. -/
theorem card_deleted (hx : client.Exact) (hn : keys.Nodup) (hb : ∀ k ∈ keys, k ∈ b) :
    (b \ (deleteBatched client b keys).bucket).card = (deleteRun (outcomeAt client b keys) keys).removed.length := by
  have hsub := (deleteRun_ends (outcomeAt client b keys) keys).sublist
  have hin : (deleteRun (outcomeAt client b keys) keys).removed.toFinset ⊆ b :=
    fun k hk => hb k (hsub.mem (List.mem_toFinset.mp hk))
  rw [(deleteBatched_run client b keys).2.2 hx, Finset.sdiff_sdiff_eq_self hin]
  exact List.toFinset_card_of_nodup (hn.sublist hsub)

end

noncomputable def guardedS3 (kept : Bytes) : S3Client :=
  { pagedS3 with
    deleteObjects := fun b batch =>
      (b \ (batch.filter fun k => k ≠ kept).toFinset,
        .ok (if kept ∈ batch then [⟨kept, bs "AccessDenied", []⟩] else [])) }

theorem guardedS3_exact (kept : Bytes) : (guardedS3 kept).Exact := by
  constructor
  · rintro _ _ _ ⟨⟩
  · rintro b batch _ ⟨⟩
    have hfilter : (batch.filter fun k => k ≠ kept) = batch.filter fun k =>
        k ∉ (if kept ∈ batch then [S3KeyError.mk kept (bs "AccessDenied") []] else []).map S3KeyError.key := by
      refine List.filter_congr fun k hk => ?_
      by_cases hm : kept ∈ batch
      · simp [hm]
      · have hne : k ≠ kept := fun e => hm (e ▸ hk)
        simp [hm, hne]
    exact congrArg (fun l => b \ l.toFinset) hfilter
  · rintro _ batch _ ⟨⟩ e he
    by_cases hm : kept ∈ batch
    · rw [if_pos hm] at he
      rwa [List.mem_singleton.mp he]
    · rw [if_neg hm] at he
      cases he

theorem card_deleted_guardedS3 :
    (({[1], [2], [3], [4]} : ColdBucket) \
        (deleteBatched (guardedS3 [2]) {[1], [2], [3], [4]} [[1], [2], [3]]).bucket).card =
      (deleteRun (outcomeAt (guardedS3 [2]) {[1], [2], [3], [4]} [[1], [2], [3]]) [[1], [2], [3]]).removed.length ∧
    (deleteRun (outcomeAt (guardedS3 [2]) {[1], [2], [3], [4]} [[1], [2], [3]]) [[1], [2], [3]]).removed =
      [[1], [3]] := by
  refine ⟨card_deleted _ _ _ (guardedS3_exact [2]) (by decide) (by simp), ?_⟩
  unfold deleteRun
  rw [deleteRunFrom]
  decide

end Logalot
