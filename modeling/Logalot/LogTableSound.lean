import Logalot.LogTable

/-!
# One tenant's rows decide a tenant's query

Within a tenant the primary key makes `(ts, id)` unique, so the order of the result
is determined as well.
-/

namespace Logalot

open Go Pg

def AgreeOn (u : Uuid) (db db' : LogTable) : Prop := ∀ r : Row, r.tenantId = u → (r ∈ db.rows ↔ r ∈ db'.rows)

theorem LogTable.nodup_rows (db : LogTable) : db.rows.Nodup := List.Nodup.of_map _ db.nodup_pk

theorem LogTable.eq_of_key (db : LogTable) {r r' : Row} (h : r ∈ db.rows) (h' : r' ∈ db.rows)
    (ht : r.tenantId = r'.tenantId) (e : r.key = r'.key) : r = r' := by
  refine List.inj_on_of_nodup_map db.nodup_pk h h' ?_
  have hk : r.ts = r'.ts ∧ r.id = r'.id := by simpa [Row.key] using e
  simp [Row.pk, ht, hk]

section
variable {fts : Fts} {conds : List Cond} {rows : List Row}

theorem mem_matching {r : Row} : r ∈ matching fts conds rows ↔ r ∈ rows ∧ ∀ c ∈ conds, c.holds fts r = true := by
  simp [matching]

theorem tenant_of_mem_matching {u : Uuid} (hu : .tenant u ∈ conds) {r : Row} (hr : r ∈ matching fts conds rows) :
    r.tenantId = u := by
  simpa [Cond.holds] using (mem_matching.mp hr).2 _ hu

theorem perm_matching {db db' : LogTable} {u : Uuid} (hu : .tenant u ∈ conds) (ha : AgreeOn u db db') :
    (matching fts conds db.rows).Perm (matching fts conds db'.rows) := by
  refine (List.perm_ext_iff_of_nodup (db.nodup_rows.filter _) (db'.nodup_rows.filter _)).mpr fun r => ?_
  rw [← matching, ← matching, mem_matching, mem_matching]
  refine and_congr_left fun hc => ha r ?_
  simpa [Cond.holds] using hc _ hu

end

/-! ## Order -/

theorem perm_newestFirst (rows : List Row) : (newestFirst rows).Perm rows := List.perm_insertionSort _ _

theorem mem_newestFirst {rows : List Row} {r : Row} : r ∈ newestFirst rows ↔ r ∈ rows :=
  (perm_newestFirst rows).mem_iff

theorem pairwise_newestFirst (rows : List Row) : (newestFirst rows).Pairwise fun a b => b.key ≤ a.key := by
  have : Std.Total fun a b : Row => b.key ≤ a.key := ⟨fun a b => le_total b.key a.key⟩
  have : IsTrans Row fun a b => b.key ≤ a.key := ⟨fun _ _ _ h h' => le_trans h' h⟩
  exact List.pairwise_insertionSort _ _

theorem newestFirst_congr {rows rows' : List Row} (hp : rows.Perm rows')
    (hk : ∀ r ∈ rows, ∀ r' ∈ rows, r.key = r'.key → r = r') : newestFirst rows = newestFirst rows' := by
  refine List.Perm.eq_of_pairwise (fun a b ha hb h h' => ?_) (pairwise_newestFirst rows) (pairwise_newestFirst rows')
    ((perm_newestFirst rows).trans (hp.trans (perm_newestFirst rows').symm))
  exact hk a (mem_newestFirst.mp ha) b (hp.mem_iff.mpr (mem_newestFirst.mp hb)) (le_antisymm h' h)

theorem bucketCounts_congr {starts starts' : List Int} (hp : starts.Perm starts') :
    bucketCounts starts = bucketCounts starts' := by
  have hs : starts.dedup.insertionSort (· ≤ ·) = starts'.dedup.insertionSort (· ≤ ·) := by
    refine List.Perm.eq_of_pairwise (fun a b _ _ h h' => le_antisymm h h') (List.pairwise_insertionSort _ _)
      (List.pairwise_insertionSort _ _) ?_
    exact (List.perm_insertionSort _ _).trans (hp.dedup.trans (List.perm_insertionSort _ _).symm)
  unfold bucketCounts
  rw [hs]
  exact List.map_congr_left fun b _ => by rw [hp.count_eq]

/-- **Tenant isolation of a query.** A query that fixes its tenant gives the same
result on every two tables with the same rows of that tenant. -/
theorem Query.run_congr (fts : Fts) {q : Query} {u : Uuid} (hu : .tenant u ∈ q.conds) {db db' : LogTable}
    (ha : AgreeOn u db db') : q.run fts db = q.run fts db' := by
  have hp : (matching fts q.conds db.rows).Perm (matching fts q.conds db'.rows) := perm_matching hu ha
  have hn := newestFirst_congr hp fun r hr r' hr' => db.eq_of_key (mem_matching.mp hr).1 (mem_matching.mp hr').1
    ((tenant_of_mem_matching hu hr).trans (tenant_of_mem_matching hu hr').symm)
  unfold Query.run
  cases q.kind with
  | newest limit => simp only [hn]
  | count => simp only [hp.length_eq]
  | buckets start width =>
    have he : matching fts q.conds db.rows ≠ [] ↔ matching fts q.conds db'.rows ≠ [] := by
      rw [Ne, Ne, ← List.length_eq_zero_iff, ← List.length_eq_zero_iff, hp.length_eq]
    simp only [he, bucketCounts_congr (hp.map _)]

end Logalot
