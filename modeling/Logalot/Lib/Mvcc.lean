import Mathlib.Data.List.Nodup

/-!
# Row versions under READ COMMITTED

A slot holds the committed version of a row and the version of the transaction
that has written it and not ended, which thereby holds the lock of the row. A
statement chooses its rows by what is visible when it starts; it acts on each of
them once no other transaction holds it, if the version there then qualifies.
-/

namespace Mvcc

structure Slot (κ ρ : Type*) where
  key : κ
  committed : Option ρ
  pending : Option (Nat × ρ)
  deriving DecidableEq

namespace Slot

variable {κ ρ : Type*}

/-- What transaction `i` sees: its own version, or else the committed one. -/
def visible (i : Nat) (s : Slot κ ρ) : Option ρ :=
  match s.pending with
  | some (j, r) => if j = i then some r else s.committed
  | none => s.committed

def Free (i : Nat) (s : Slot κ ρ) : Prop := ∀ j r, s.pending = some (j, r) → j = i

def update (i : Nat) (p : ρ → Prop) [DecidablePred p] (f : ρ → ρ) (s : Slot κ ρ) : Slot κ ρ :=
  match s.visible i with
  | some r => if p r then { s with pending := some (i, f r) } else s
  | none => s

def commit (i : Nat) (s : Slot κ ρ) : Slot κ ρ :=
  match s.pending with
  | some (j, r) => if j = i then ⟨s.key, some r, none⟩ else s
  | none => s

def abort (i : Nat) (s : Slot κ ρ) : Slot κ ρ :=
  match s.pending with
  | some (j, _) => if j = i then { s with pending := none } else s
  | none => s

def HasVersion (s : Slot κ ρ) (r : ρ) : Prop := s.committed = some r ∨ ∃ i, s.pending = some (i, r)

variable {i : Nat} {s : Slot κ ρ}

theorem hasVersion_of_visible {r : ρ} (h : s.visible i = some r) : s.HasVersion r := by
  unfold visible at h
  split at h
  · rename_i j r' hp
    split at h
    · obtain rfl := Option.some.inj h
      exact Or.inr ⟨j, hp⟩
    · exact Or.inl h
  · exact Or.inl h

theorem visible_of_free (hf : s.Free i) :
    (s.pending = none ∧ s.visible i = s.committed) ∨ ∃ r, s.pending = some (i, r) ∧ s.visible i = some r := by
  unfold visible
  cases hp : s.pending with
  | none => exact Or.inl ⟨rfl, rfl⟩
  | some q =>
    obtain ⟨j, r⟩ := q
    obtain rfl := hf j r hp
    exact Or.inr ⟨r, rfl, if_pos rfl⟩

theorem visible_of_not_pending (h : ∀ r, s.pending ≠ some (i, r)) : s.visible i = s.committed := by
  unfold visible
  cases hp : s.pending with
  | none => rfl
  | some q =>
    obtain ⟨j, r⟩ := q
    have hne : j ≠ i := by
      rintro rfl
      exact h r hp
    exact if_neg hne

theorem update_cases {p : ρ → Prop} [DecidablePred p] {f : ρ → ρ} :
    (s.update i p f = s ∧ ∀ r, s.visible i = some r → ¬ p r) ∨
      ∃ r, s.visible i = some r ∧ p r ∧ s.update i p f = { s with pending := some (i, f r) } := by
  unfold update
  cases hv : s.visible i with
  | none => exact Or.inl ⟨rfl, fun r h => by cases h⟩
  | some r =>
    by_cases hp : p r
    · exact Or.inr ⟨r, rfl, hp, if_pos hp⟩
    · exact Or.inl ⟨if_neg hp, fun r' h => Option.some.inj h ▸ hp⟩

theorem commit_cases :
    (s.commit i = s ∧ ∀ r, s.pending ≠ some (i, r)) ∨
      ∃ r, s.pending = some (i, r) ∧ s.commit i = ⟨s.key, some r, none⟩ := by
  unfold commit
  cases hp : s.pending with
  | none => exact Or.inl ⟨rfl, fun r h => by cases h⟩
  | some q =>
    obtain ⟨j, r⟩ := q
    by_cases e : j = i
    · subst e
      exact Or.inr ⟨r, rfl, if_pos rfl⟩
    · refine Or.inl ⟨if_neg e, ?_⟩
      intro r' h
      exact e (Prod.mk.inj (Option.some.inj h)).1

theorem abort_cases :
    (s.abort i = s ∧ ∀ r, s.pending ≠ some (i, r)) ∨
      ∃ r, s.pending = some (i, r) ∧ s.abort i = { s with pending := none } := by
  unfold abort
  cases hp : s.pending with
  | none => exact Or.inl ⟨rfl, fun r h => by cases h⟩
  | some q =>
    obtain ⟨j, r⟩ := q
    by_cases e : j = i
    · subst e
      exact Or.inr ⟨r, rfl, if_pos rfl⟩
    · refine Or.inl ⟨if_neg e, ?_⟩
      intro r' h
      exact e (Prod.mk.inj (Option.some.inj h)).1

end Slot

/-! ## Tables -/

abbrev Heap (κ ρ : Type*) := List (Slot κ ρ)

namespace Heap

variable {κ ρ : Type*} {p : ρ → Prop} {s : Slot κ ρ} {f : ρ → ρ}

/-- The rows a statement of transaction `i` will act on. -/
def candidates (i : Nat) (p : ρ → Prop) [DecidablePred p] (h : Heap κ ρ) : List κ :=
  (h.filter fun s => (s.visible i).any p).map Slot.key

def Free (i : Nat) (k : κ) (h : Heap κ ρ) : Prop := ∀ s ∈ h, s.key = k → s.Free i

def qualifies [DecidableEq κ] (i : Nat) (k : κ) (p : ρ → Prop) [DecidablePred p] (h : Heap κ ρ) : Bool :=
  h.any fun s => s.key = k && (s.visible i).any p

def updateSlot [DecidableEq κ] (i : Nat) (k : κ) (p : ρ → Prop) [DecidablePred p] (f : ρ → ρ) (s : Slot κ ρ) :
    Slot κ ρ :=
  if s.key = k then s.update i p f else s

def update [DecidableEq κ] (i : Nat) (k : κ) (p : ρ → Prop) [DecidablePred p] (f : ρ → ρ) (h : Heap κ ρ) :
    Heap κ ρ :=
  h.map (updateSlot i k p f)

def insert (i : Nat) (k : κ) (r : ρ) (h : Heap κ ρ) : Heap κ ρ := h ++ [⟨k, none, some (i, r)⟩]

def commit (i : Nat) (h : Heap κ ρ) : Heap κ ρ := h.map (Slot.commit i)

def abort (i : Nat) (h : Heap κ ρ) : Heap κ ρ := h.map (Slot.abort i)

def All (P : ρ → Prop) (h : Heap κ ρ) : Prop := ∀ s ∈ h, ∀ r, s.HasVersion r → P r

variable {i : Nat} {k : κ} {P : ρ → Prop} {h : Heap κ ρ}

theorem mem_candidates [DecidablePred p] (hs : s ∈ h) {r : ρ}
    (hv : s.visible i = some r) (hp : p r) : s.key ∈ candidates i p h := by
  apply List.mem_map_of_mem
  rw [List.mem_filter, hv]
  exact ⟨hs, decide_eq_true hp⟩

theorem updateSlot_cases [DecidableEq κ] [DecidablePred p] :
    updateSlot i k p f s = s ∨ ∃ r, s.key = k ∧ s.visible i = some r ∧ p r ∧
      updateSlot i k p f s = { s with pending := some (i, f r) } := by
  unfold updateSlot
  split
  · rename_i hk
    rcases s.update_cases (i := i) (p := p) (f := f) with ⟨h, -⟩ | ⟨r, hv, hp, h⟩
    · exact Or.inl h
    · exact Or.inr ⟨r, hk, hv, hp, h⟩
  · exact Or.inl rfl

theorem updateSlot_of_visible [DecidableEq κ] [DecidablePred p] {r : ρ}
    (hk : s.key = k) (hv : s.visible i = some r) (hp : p r) :
    updateSlot i k p f s = { s with pending := some (i, f r) } := by
  rw [updateSlot, if_pos hk, Slot.update, hv]
  exact if_pos hp

theorem qualifies_iff [DecidableEq κ] [DecidablePred p] :
    qualifies i k p h = true ↔ ∃ s ∈ h, s.key = k ∧ ∃ r, s.visible i = some r ∧ p r := by
  simp [qualifies, Option.any_eq_true]

theorem not_pending_commit (hs : s ∈ commit i h) (r : ρ) : s.pending ≠ some (i, r) := by
  obtain ⟨s, -, rfl⟩ := List.mem_map.mp hs
  rcases s.commit_cases (i := i) with ⟨he, hn⟩ | ⟨v, -, he⟩
  · rw [he]
    exact hn r
  · rw [he]
    exact fun hc => by cases hc

theorem not_pending_abort (hs : s ∈ abort i h) (r : ρ) : s.pending ≠ some (i, r) := by
  obtain ⟨s, -, rfl⟩ := List.mem_map.mp hs
  rcases s.abort_cases (i := i) with ⟨he, hn⟩ | ⟨v, -, he⟩
  · rw [he]
    exact hn r
  · rw [he]
    exact fun hc => by cases hc

theorem All.update [DecidableEq κ] [DecidablePred p] (ha : All P h)
    (hf : ∀ r, P r → P (f r)) : All P (update i k p f h) := by
  intro _ hm r hr
  obtain ⟨s, hs, rfl⟩ := List.mem_map.mp hm
  rcases updateSlot_cases (i := i) (k := k) (p := p) (f := f) (s := s) with he | ⟨v, -, hv, -, he⟩
  · rw [he] at hr
    exact ha s hs r hr
  · rw [he] at hr
    rcases hr with hr | ⟨j, hr⟩
    · exact ha s hs r (Or.inl hr)
    · obtain ⟨-, rfl⟩ := Prod.mk.inj (Option.some.inj hr)
      exact hf v (ha s hs v (Slot.hasVersion_of_visible hv))

theorem All.insert {v : ρ} (ha : All P h) (hv : P v) : All P (insert i k v h) := by
  intro s hs r hr
  rcases List.mem_append.mp hs with hs | hs
  · exact ha s hs r hr
  · obtain rfl := List.mem_singleton.mp hs
    rcases hr with hr | ⟨j, hr⟩
    · cases hr
    · obtain ⟨-, rfl⟩ := Prod.mk.inj (Option.some.inj hr)
      exact hv

theorem All.commit (ha : All P h) : All P (commit i h) := by
  intro _ hm r hr
  obtain ⟨s, hs, rfl⟩ := List.mem_map.mp hm
  rcases s.commit_cases (i := i) with ⟨he, -⟩ | ⟨v, hv, he⟩
  · rw [he] at hr
    exact ha s hs r hr
  · rw [he] at hr
    rcases hr with hr | ⟨j, hr⟩
    · obtain rfl := Option.some.inj hr
      exact ha s hs v (Or.inr ⟨i, hv⟩)
    · cases hr

theorem All.abort (ha : All P h) : All P (abort i h) := by
  intro _ hm r hr
  obtain ⟨s, hs, rfl⟩ := List.mem_map.mp hm
  rcases s.abort_cases (i := i) with ⟨he, -⟩ | ⟨v, hv, he⟩
  · rw [he] at hr
    exact ha s hs r hr
  · rw [he] at hr
    rcases hr with hr | ⟨j, hr⟩
    · exact ha s hs r (Or.inl hr)
    · cases hr

end Heap

/-! ## Rows by key -/

namespace Slot

variable {κ ρ : Type*} {i j : Nat} {s : Slot κ ρ} {r : ρ}

/-- The version that transaction `i` would commit. -/
def written (i : Nat) (s : Slot κ ρ) : Option ρ :=
  match s.pending with
  | some (j, r) => if j = i then some r else none
  | none => none

theorem written_eq_some : s.written i = some r ↔ s.pending = some (i, r) := by
  unfold written
  cases hp : s.pending with
  | none => simp
  | some q =>
    obtain ⟨j, v⟩ := q
    by_cases e : j = i
    · simp [e]
    · simp [e]

theorem written_eq_none : s.written i = none ↔ ∀ r, s.pending ≠ some (i, r) := by
  rw [Option.eq_none_iff_forall_ne_some]
  exact forall_congr' fun r => not_congr written_eq_some

theorem written_of_ne (hi : s.written i = some r) (hj : j ≠ i) : s.written j = none := by
  rw [written_eq_none]
  intro v hv
  rw [written_eq_some] at hi
  rw [hi] at hv
  exact hj (Prod.mk.inj (Option.some.inj hv)).1.symm

theorem committed_commit : (s.commit i).committed = (s.written i).or s.committed := by
  rcases s.commit_cases (i := i) with ⟨he, hn⟩ | ⟨v, hv, he⟩
  · rw [he, written_eq_none.mpr hn, Option.none_or]
  · rw [he, written_eq_some.mpr hv, Option.some_or]

theorem committed_abort : (s.abort i).committed = s.committed := by
  rcases s.abort_cases (i := i) with ⟨he, -⟩ | ⟨v, -, he⟩
  · rw [he]
  · rw [he]

theorem written_commit : (s.commit i).written j = if j = i then none else s.written j := by
  rcases s.commit_cases (i := i) with ⟨he, hn⟩ | ⟨v, hv, he⟩
  · rw [he]
    split
    · rename_i e
      rw [e]
      exact written_eq_none.mpr hn
    · rfl
  · rw [he]
    split
    · rfl
    · rename_i e
      exact (written_of_ne (written_eq_some.mpr hv) e).symm

theorem written_abort : (s.abort i).written j = if j = i then none else s.written j := by
  rcases s.abort_cases (i := i) with ⟨he, hn⟩ | ⟨v, hv, he⟩
  · rw [he]
    split
    · rename_i e
      rw [e]
      exact written_eq_none.mpr hn
    · rfl
  · rw [he]
    split
    · rfl
    · rename_i e
      exact (written_of_ne (written_eq_some.mpr hv) e).symm

theorem hasVersion_commit (h : (s.commit i).HasVersion r) : s.HasVersion r := by
  rcases s.commit_cases (i := i) with ⟨he, -⟩ | ⟨v, hv, he⟩
  · rw [he] at h
    exact h
  · rw [he] at h
    rcases h with h | ⟨j, h⟩
    · obtain rfl := Option.some.inj h
      exact Or.inr ⟨i, hv⟩
    · cases h

theorem hasVersion_abort (h : (s.abort i).HasVersion r) : s.HasVersion r := by
  rcases s.abort_cases (i := i) with ⟨he, -⟩ | ⟨v, -, he⟩
  · rw [he] at h
    exact h
  · rw [he] at h
    rcases h with h | ⟨j, h⟩
    · exact Or.inl h
    · cases h

theorem key_commit : (s.commit i).key = s.key := by
  rcases s.commit_cases (i := i) with ⟨he, -⟩ | ⟨v, -, he⟩
  · rw [he]
  · rw [he]

theorem key_abort : (s.abort i).key = s.key := by
  rcases s.abort_cases (i := i) with ⟨he, -⟩ | ⟨v, -, he⟩
  · rw [he]
  · rw [he]

end Slot

namespace Heap

variable {κ ρ : Type*} [DecidableEq κ] {i j : Nat} {k k' : κ} {h : Heap κ ρ} {r : ρ}

def slot? (k : κ) (h : Heap κ ρ) : Option (Slot κ ρ) := h.find? fun s => s.key = k

/-- The committed row. -/
def read (k : κ) (h : Heap κ ρ) : Option ρ := (h.slot? k).bind Slot.committed

def written (i : Nat) (k : κ) (h : Heap κ ρ) : Option ρ := (h.slot? k).bind (Slot.written i)

variable {s : Slot κ ρ} {p : ρ → Prop} {f : ρ → ρ}

theorem slot?_some (hs : h.slot? k = some s) : s ∈ h ∧ s.key = k := by
  have hk := List.find?_some hs
  exact ⟨List.mem_of_find?_eq_some hs, of_decide_eq_true hk⟩

theorem slot?_of_mem (hn : (h.map Slot.key).Nodup) (hs : s ∈ h) : h.slot? s.key = some s := by
  cases hf : h.slot? s.key with
  | none => exact absurd (decide_eq_true rfl) (List.find?_eq_none.mp hf s hs)
  | some s' =>
    obtain ⟨hm, hk⟩ := slot?_some hf
    rw [List.inj_on_of_nodup_map hn hm hs hk]

theorem slot?_eq_none (hk : ∀ s ∈ h, s.key ≠ k) : h.slot? k = none := by
  apply List.find?_eq_none.mpr
  intro s hs hc
  exact hk s hs (of_decide_eq_true hc)

theorem slot?_map {g : Slot κ ρ → Slot κ ρ} (hg : ∀ s, (g s).key = s.key) :
    slot? k (h.map g) = (h.slot? k).map g := by
  unfold slot?
  rw [List.find?_map]
  congr 2
  funext s
  simp only [Function.comp_apply, hg]

theorem slot?_insert (hk : ∀ s ∈ h, s.key ≠ k) :
    slot? k' (insert i k r h) = if k' = k then some ⟨k, none, some (i, r)⟩ else h.slot? k' := by
  unfold slot? insert
  rw [List.find?_append]
  split
  · rename_i e
    have hn : h.find? (fun s => s.key = k') = none := by
      rw [e]
      exact slot?_eq_none hk
    rw [hn, Option.none_or]
    simp [e]
  · rename_i e
    have hn : [(⟨k, none, some (i, r)⟩ : Slot κ ρ)].find? (fun s => s.key = k') = none := by
      simp [Ne.symm e]
    rw [hn, Option.or_none]

theorem key_updateSlot [DecidablePred p] (s : Slot κ ρ) :
    (updateSlot i k p f s).key = s.key := by
  rcases updateSlot_cases (i := i) (k := k) (p := p) (f := f) (s := s) with he | ⟨v, -, -, -, he⟩
  · rw [he]
  · rw [he]

/-! ### The committed rows -/

theorem read_commit : read k (commit i h) = (written i k h).or (read k h) := by
  unfold read written commit
  rw [slot?_map fun s => s.key_commit]
  cases h.slot? k with
  | none => rfl
  | some s => exact Slot.committed_commit

theorem read_abort : read k (abort i h) = read k h := by
  unfold read abort
  rw [slot?_map fun s => s.key_abort]
  cases h.slot? k with
  | none => rfl
  | some s => exact Slot.committed_abort

theorem read_update [DecidablePred p] : read k' (update i k p f h) = read k' h := by
  unfold read update
  rw [slot?_map key_updateSlot]
  cases h.slot? k' with
  | none => rfl
  | some s =>
    rw [Option.map_some, Option.bind_some, Option.bind_some]
    rcases updateSlot_cases (i := i) (k := k) (p := p) (f := f) (s := s) with he | ⟨v, -, -, -, he⟩
    · rw [he]
    · rw [he]

theorem read_insert (hk : ∀ s ∈ h, s.key ≠ k) : read k' (insert i k r h) = read k' h := by
  unfold read
  rw [slot?_insert hk]
  split
  · rename_i e
    rw [e, slot?_eq_none hk]
    rfl
  · rfl

/-! ### What a transaction has written -/

theorem written_commit : written j k (commit i h) = if j = i then none else written j k h := by
  unfold written commit
  rw [slot?_map fun s => s.key_commit]
  cases h.slot? k with
  | none => exact (ite_self _).symm
  | some s => exact Slot.written_commit

theorem written_abort : written j k (abort i h) = if j = i then none else written j k h := by
  unfold written abort
  rw [slot?_map fun s => s.key_abort]
  cases h.slot? k with
  | none => exact (ite_self _).symm
  | some s => exact Slot.written_abort

theorem written_insert (hk : ∀ s ∈ h, s.key ≠ k) :
    written j k' (insert i k r h) = if j = i ∧ k' = k then some r else written j k' h := by
  unfold written
  rw [slot?_insert hk]
  by_cases e : k' = k
  · rw [if_pos e, e, slot?_eq_none hk]
    by_cases ej : j = i
    · rw [if_pos ⟨ej, rfl⟩, ej, Option.bind_some]
      exact Slot.written_eq_some.mpr rfl
    · rw [if_neg fun hc => ej hc.1, Option.bind_some]
      exact if_neg fun hc => ej hc.symm
  · rw [if_neg e, if_neg fun hc => e hc.2]

theorem written_update_of_ne [DecidablePred p] (hne : k' ≠ k) :
    written j k' (update i k p f h) = written j k' h := by
  unfold written update
  rw [slot?_map key_updateSlot]
  cases hs : h.slot? k' with
  | none => rfl
  | some s =>
    have hk : s.key ≠ k := by
      rw [(slot?_some hs).2]
      exact hne
    exact congrArg (Slot.written j) (if_neg hk)

theorem written_update_self [DecidablePred p] (hs : h.slot? k = some s) :
    written i k (update i k p f h) = if (s.visible i).any p then (s.visible i).map f else s.written i := by
  unfold written update
  rw [slot?_map key_updateSlot, hs]
  have he : updateSlot i k p f s = s.update i p f := if_pos (slot?_some hs).2
  rw [Option.map_some, Option.bind_some, he]
  rcases s.update_cases (i := i) (p := p) (f := f) with ⟨hu, hn⟩ | ⟨v, hv, hp, hu⟩
  · rw [hu]
    cases hv : s.visible i with
    | none => rfl
    | some v =>
      have hd : decide (p v) = false := decide_eq_false (hn v hv)
      simp [hd]
  · rw [hu, hv]
    have hd : decide (p v) = true := decide_eq_true hp
    simp only [Option.any_some, hd, if_true, Option.map_some]
    exact Slot.written_eq_some.mpr rfl

theorem written_update_other [DecidablePred p] (hf : Free i k h) (hj : j ≠ i) :
    written j k' (update i k p f h) = written j k' h := by
  unfold written update
  rw [slot?_map key_updateSlot]
  cases hs : h.slot? k' with
  | none => rfl
  | some s =>
    rcases updateSlot_cases (i := i) (k := k) (p := p) (f := f) (s := s) with he | ⟨v, hk, hv, hp, he⟩
    · exact congrArg (Slot.written j) he
    · have hn : s.written j = none := by
        rw [Slot.written_eq_none]
        intro r hr
        exact hj (hf s (slot?_some hs).1 hk j r hr)
      rw [Option.map_some, Option.bind_some, Option.bind_some, he, hn]
      exact Slot.written_of_ne (Slot.written_eq_some.mpr rfl) hj

/-! ### Other transactions -/

/-- Whatever another transaction has written stays as it is, and so do the committed rows behind it. -/
structure Keeps (i : Nat) (h h' : Heap κ ρ) : Prop where
  written : ∀ j ≠ i, ∀ k, written j k h' = written j k h
  read : ∀ j ≠ i, ∀ k, Heap.written j k h ≠ none → read k h' = read k h

theorem keeps_refl : Keeps i h h := ⟨fun _ _ _ => rfl, fun _ _ _ _ => rfl⟩

theorem keeps_update [DecidablePred p] (hf : Free i k h) : Keeps i h (update i k p f h) :=
  ⟨fun _ hj _ => written_update_other hf hj, fun _ _ _ _ => read_update⟩

theorem keeps_insert (hk : ∀ s ∈ h, s.key ≠ k) : Keeps i h (insert i k r h) := by
  refine ⟨?_, fun _ _ _ _ => read_insert hk⟩
  intro j hj k'
  rw [written_insert hk]
  exact if_neg fun hc => hj hc.1

theorem keeps_abort : Keeps i h (abort i h) := by
  refine ⟨?_, fun _ _ _ _ => read_abort⟩
  intro j hj k'
  rw [written_abort]
  exact if_neg hj

theorem keeps_commit : Keeps i h (commit i h) := by
  constructor
  · intro j hj k'
    rw [written_commit]
    exact if_neg hj
  · intro j hj k' hw
    -- the row is held by one of the two
    have hn : Heap.written i k' h = none := by
      unfold Heap.written at hw ⊢
      cases hs : h.slot? k' with
      | none => rfl
      | some s =>
        rw [hs] at hw
        obtain ⟨v, hv⟩ := Option.ne_none_iff_exists'.mp hw
        exact Slot.written_of_ne hv (Ne.symm hj)
    rw [read_commit, hn, Option.none_or]

end Heap

end Mvcc
