import Logalot.IngestSound

/-!
# Labels of an event

A later alias overwrites an earlier one, where the aliases of every other field are
tried from the first on.
-/

namespace Logalot

open Go Assoc

variable {dec : Decoder} {objects : List Labels} {m : Labels}

/-! ## Maps in any order -/

def labelObjects (dec : Decoder) (m : Labels) : List Labels :=
  (labelsKeys.filterMap fun k => m.lookup k).filterMap dec.object

/-- The loops of `parseLabels`, over objects and a payload that are visited in the order of the lists. -/
def foldLabels (dec : Decoder) (objects : List Labels) (m : Labels) : Labels :=
  m.foldl (fun out p =>
    if p.1 ∈ reservedKeys ∨ (out.lookup p.1).isSome then out else putLabel out p.1 (coerceToString dec p.2))
    (objects.flatten.foldl (fun out p => putLabel out p.1 (coerceToString dec p.2)) [])

theorem parseLabels_eq (m : Labels) : parseLabels dec m = foldLabels dec (labelObjects dec m) m := rfl

def aliasValues (dec : Decoder) (objects : List Labels) (k : Bytes) : List Bytes :=
  (objects.filterMap fun o => o.lookup k).map (coerceToString dec)

theorem lookup_putAll {o : Labels} (h : (o.map Prod.fst).Nodup) (k : Bytes) : ∀ out : Labels,
    (o.foldl (fun out p => putLabel out p.1 (coerceToString dec p.2)) out).lookup k =
      ((o.lookup k).map (coerceToString dec)).or (out.lookup k) := by
  induction o with
  | nil =>
    intro out
    rfl
  | cons p o ih =>
    intro out
    rw [List.map_cons, List.nodup_cons] at h
    obtain ⟨a, b⟩ := p
    rw [List.foldl_cons, ih h.2, lookup_putLabel, List.lookup_cons]
    by_cases hk : k = a
    · subst hk
      rw [lookup_eq_none_iff.mpr h.1]
      simp
    · rw [if_neg hk, beq_eq_false_iff_ne.mpr hk]

theorem lookup_putObjects (h : ∀ o ∈ objects, (o.map Prod.fst).Nodup) (k : Bytes) : ∀ out : Labels,
    (objects.flatten.foldl (fun out p => putLabel out p.1 (coerceToString dec p.2)) out).lookup k =
      (aliasValues dec objects k).getLast?.or (out.lookup k) := by
  induction objects with
  | nil =>
    intro out
    rfl
  | cons o objects ih =>
    intro out
    rw [List.flatten_cons, List.foldl_append, ih (fun o' ho => h o' (List.mem_cons_of_mem _ ho)),
      lookup_putAll (h o List.mem_cons_self)]
    unfold aliasValues
    cases hk : o.lookup k with
    | none => rw [List.filterMap_cons_none hk]; rfl
    | some v =>
      rw [List.filterMap_cons_some hk, List.map_cons, List.getLast?_cons]
      cases ((objects.filterMap fun o => o.lookup k).map (coerceToString dec)).getLast? <;> rfl

theorem lookup_foldTop (h : (m.map Prod.fst).Nodup) (k : Bytes) : ∀ out : Labels,
    (m.foldl (fun out p => if p.1 ∈ reservedKeys ∨ (out.lookup p.1).isSome then out
      else putLabel out p.1 (coerceToString dec p.2)) out).lookup k =
      (out.lookup k).or (if k ∈ reservedKeys then none else (m.lookup k).map (coerceToString dec)) := by
  induction m with
  | nil =>
    intro out
    simp
  | cons p m ih =>
    intro out
    rw [List.map_cons, List.nodup_cons] at h
    obtain ⟨a, b⟩ := p
    rw [List.foldl_cons, ih h.2, List.lookup_cons]
    by_cases hk : k = a
    · subst hk
      rw [lookup_eq_none_iff.mpr h.1]
      by_cases hr : k ∈ reservedKeys
      · simp [hr]
      · cases ho : out.lookup k with
        | none => simp [hr, lookup_putLabel]
        | some w => simp [ho]
    · rw [beq_eq_false_iff_ne.mpr hk]
      split
      · rfl
      · rw [lookup_putLabel, if_neg hk]

theorem lookup_foldLabels (dec : Decoder) (ho : ∀ o ∈ objects, (o.map Prod.fst).Nodup)
    (hm : (m.map Prod.fst).Nodup) (k : Bytes) : (foldLabels dec objects m).lookup k =
      (aliasValues dec objects k).getLast?.or
        (if k ∈ reservedKeys then none else (m.lookup k).map (coerceToString dec)) := by
  unfold foldLabels
  rw [lookup_foldTop hm, lookup_putObjects ho, List.lookup_nil, Option.or_none]

theorem aliasValues_perm {objects' : List Labels} (ho : ∀ o ∈ objects, (o.map Prod.fst).Nodup)
    (h : List.Forall₂ List.Perm objects' objects) (k : Bytes) :
    aliasValues dec objects' k = aliasValues dec objects k := by
  unfold aliasValues
  congr 1
  induction h with
  | nil => rfl
  | cons hp _ ih =>
    rw [List.filterMap_cons, List.filterMap_cons, lookup_perm (ho _ List.mem_cons_self) hp,
      ih fun o h => ho o (List.mem_cons_of_mem _ h)]

theorem nodup_of_forall₂ {objects' : List Labels} (ho : ∀ o ∈ objects, (o.map Prod.fst).Nodup)
    (h : List.Forall₂ List.Perm objects' objects) : ∀ o ∈ objects', (o.map Prod.fst).Nodup := by
  induction h with
  | nil => exact ho
  | cons hp _ ih =>
    rw [List.forall_mem_cons] at ho ⊢
    exact ⟨(hp.map _).nodup_iff.mpr ho.1, ih ho.2⟩

/-! ## Decoded maps -/

theorem nodup_putLabel {out : Labels} (h : (out.map Prod.fst).Nodup) (k v : Bytes) :
    ((putLabel out k v).map Prod.fst).Nodup := by
  unfold putLabel
  split
  · have hkeys : (out.map fun p => if p.1 = k then (k, v) else p).map Prod.fst = out.map Prod.fst := by
      rw [List.map_map]
      apply List.map_congr_left
      intro p _
      by_cases hp : p.1 = k
      · simp [hp]
      · simp [hp]
    rwa [hkeys]
  · rename_i hnone
    have hn : k ∉ out.map Prod.fst := lookup_eq_none_iff.mp (Option.not_isSome_iff_eq_none.mp hnone)
    rw [List.map_append, List.map_singleton]
    exact List.Nodup.append h (List.nodup_singleton k) (by simpa using hn)

theorem nodup_decodeMap (members : List (Bytes × Bytes)) : ((decodeMap members).map Prod.fst).Nodup := by
  induction members using List.reverseRecOn with
  | nil => exact List.nodup_nil
  | append_singleton members m ih =>
    unfold decodeMap at ih ⊢
    rw [List.foldl_append, List.foldl_cons, List.foldl_nil]
    exact nodup_putLabel ih _ _

variable {formatFloat : Bytes → Option Bytes}

theorem nodup_object {raw : Bytes} (h : (goDecoder formatFloat).object raw = some m) :
    (m.map Prod.fst).Nodup := by
  unfold goDecoder at h
  simp only at h
  split at h
  · obtain rfl := Option.some.inj h
    exact List.nodup_nil
  · obtain rfl := Option.some.inj h
    exact nodup_decodeMap _
  · cases h

theorem nodup_labelObjects (formatFloat : Bytes → Option Bytes) (m : Labels) :
    ∀ o ∈ labelObjects (goDecoder formatFloat) m, (o.map Prod.fst).Nodup := by
  intro o ho
  obtain ⟨raw, -, hraw⟩ := List.mem_filterMap.mp ho
  exact nodup_object hraw

theorem aliasValues_ne_nil_iff (dec : Decoder) {k : Bytes} :
    aliasValues dec objects k ≠ [] ↔ ∃ o ∈ objects, k ∈ o.map Prod.fst := by
  unfold aliasValues
  rw [ne_eq, List.map_eq_nil_iff, List.filterMap_eq_nil_iff]
  simp only [lookup_eq_none_iff, not_forall, not_not, exists_prop]

theorem mem_keys_foldLabels (ho : ∀ o ∈ objects, (o.map Prod.fst).Nodup)
    (hm : (m.map Prod.fst).Nodup) {k : Bytes} : k ∈ (foldLabels dec objects m).map Prod.fst ↔
      (k ∉ reservedKeys ∧ k ∈ m.map Prod.fst) ∨ ∃ o ∈ objects, k ∈ o.map Prod.fst := by
  have hmem : ∀ l : Labels, k ∈ l.map Prod.fst ↔ l.lookup k ≠ none := fun l => by
    rw [ne_eq, lookup_eq_none_iff, not_not]
  rw [hmem, lookup_foldLabels dec ho hm, ← aliasValues_ne_nil_iff dec, ne_eq, Option.or_eq_none_iff,
    List.getLast?_eq_none_iff, hmem m]
  by_cases hr : k ∈ reservedKeys
  · simp [hr]
  · rw [if_neg hr, Option.map_eq_none_iff]
    tauto

/-- **Labels.** The labels have the keys of the objects and the unreserved ones of the payload, an object comes before
the payload, and the order in which maps are visited does not matter. Of several objects with a key the first has its
way exactly when the last has the same text for it. -/
theorem normalize_labels_iff (formatFloat : Bytes → Option Bytes) (tc : TenantContext) (now : Time) {env : Envelope}
    (h : (goDecoder formatFloat).object env.raw = some m) :
    ∃ ev, normalize (goDecoder formatFloat) tc env now = .ok ev ∧
      (∀ k, k ∈ ev.labels.map Prod.fst ↔ (k ∉ reservedKeys ∧ k ∈ m.map Prod.fst) ∨
        ∃ o ∈ labelObjects (goDecoder formatFloat) m, k ∈ o.map Prod.fst) ∧
      (∀ k, (∃ o ∈ labelObjects (goDecoder formatFloat) m, k ∈ o.map Prod.fst) →
        ∃ v ∈ aliasValues (goDecoder formatFloat) (labelObjects (goDecoder formatFloat) m) k,
          ev.labels.lookup k = some v) ∧
      (∀ objects' m', List.Forall₂ List.Perm objects' (labelObjects (goDecoder formatFloat) m) → m'.Perm m →
        ∀ k, (foldLabels (goDecoder formatFloat) objects' m').lookup k = ev.labels.lookup k) ∧
      ((∀ k v, (aliasValues (goDecoder formatFloat) (labelObjects (goDecoder formatFloat) m) k).head? = some v →
          ev.labels.lookup k = some v) ↔
        ∀ k, (aliasValues (goDecoder formatFloat) (labelObjects (goDecoder formatFloat) m) k).head? =
          (aliasValues (goDecoder formatFloat) (labelObjects (goDecoder formatFloat) m) k).getLast?) := by
  have hm := nodup_object h
  have ho := nodup_labelObjects formatFloat m
  have hlookup := lookup_foldLabels (goDecoder formatFloat) ho hm
  obtain ⟨ev, hev, -, -, -, -, -, hlabels⟩ := normalize_of_object tc now h
  rw [parseLabels_eq] at hlabels
  rw [← hlabels] at hlookup
  refine ⟨ev, hev, fun k => ?_, fun k hk => ?_, fun objects' m' hp hpm k => ?_, ?_, ?_⟩
  · rw [hlabels]
    exact mem_keys_foldLabels ho hm
  · have hne := (aliasValues_ne_nil_iff (goDecoder formatFloat)).mpr hk
    refine ⟨_, List.getLast_mem hne, ?_⟩
    rw [hlookup, List.getLast?_eq_some_getLast hne]
    rfl
  · have hm' : (m'.map Prod.fst).Nodup := (hpm.map _).nodup_iff.mpr hm
    rw [lookup_foldLabels _ (nodup_of_forall₂ ho hp) hm', aliasValues_perm ho hp, lookup_perm hm hpm, hlookup]
  · intro hfirst k
    cases hv : (aliasValues (goDecoder formatFloat) (labelObjects (goDecoder formatFloat) m) k).head? with
    | none => rw [List.head?_eq_none_iff.mp hv, List.getLast?_nil]
    | some v =>
      have hval := hfirst k v hv
      have hne : aliasValues (goDecoder formatFloat) (labelObjects (goDecoder formatFloat) m) k ≠ [] := fun hnil => by
        rw [hnil] at hv
        cases hv
      rw [hlookup, List.getLast?_eq_some_getLast hne, Option.some_or] at hval
      rw [List.getLast?_eq_some_getLast hne, hval]
  · intro hsame k v hv
    rw [hlookup, ← hsame k, hv]
    rfl

/-! ### Two aliases -/

def twoAliases : Envelope :=
  payloadEnvelope (bs "\x7b\"labels\":\x7b\"a\":\"1\"\x7d,\"fields\":\x7b\"a\":\"2\"\x7d\x7d")

/-- `labels` comes first in the list of aliases, and the label is that of `fields`. -/
theorem later_alias_wins :
    ((goDecoder fun _ => none).object twoAliases.raw).map (fun m =>
      aliasValues (goDecoder fun _ => none) (labelObjects (goDecoder fun _ => none) m) (bs "a")) =
        some [bs "1", bs "2"] ∧
    (payloadEvent twoAliases.raw).map (fun ev => ev.labels.lookup (bs "a")) = some (some (bs "2")) := by
  decide

def oneAlias : Envelope := payloadEnvelope (bs "\x7b\"labels\":\x7b\"a\":\"1\"\x7d,\"a\":\"2\"\x7d")

theorem object_before_payload :
    ∃ ev, normalize (goDecoder fun _ => none) { tenantId := [] } oneAlias 0 = .ok ev ∧
      ∀ k, (∃ o ∈ [[(bs "a", bs "\"1\"")]], k ∈ o.map Prod.fst) →
        ∃ v ∈ aliasValues (goDecoder fun _ => none) [[(bs "a", bs "\"1\"")]] k, ev.labels.lookup k = some v := by
  have h : (goDecoder fun _ => none).object oneAlias.raw =
      some [(bs "labels", bs "\x7b\"a\":\"1\"\x7d"), (bs "a", bs "\"2\"")] := by decide
  have ho : labelObjects (goDecoder fun _ => none) [(bs "labels", bs "\x7b\"a\":\"1\"\x7d"), (bs "a", bs "\"2\"")] =
      [[(bs "a", bs "\"1\"")]] := by decide
  obtain ⟨ev, hev, -, hinner, -⟩ := normalize_labels_iff (fun _ => none) { tenantId := [] } 0 h
  rw [ho] at hinner
  exact ⟨ev, hev, hinner⟩

end Logalot
