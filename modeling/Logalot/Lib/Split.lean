import Mathlib.Data.List.Infix

/-!
# Splitting at a separator

A text is a list of units. It is split at the first occurrences of a separator,
and the last part keeps the others. In a code whose words start with a unit that
stands nowhere else in a word, the parts of an encoded text are the encoded parts.
-/

namespace Split

section
variable {α : Type} [DecidableEq α]

def indexOf (sep : List α) : List α → Option Nat
  | [] => if sep.isEmpty then some 0 else none
  | c :: s => if sep.isPrefixOf (c :: s) then some 0 else (indexOf sep s).map (· + 1)

def splitN (sep : List α) : Nat → List α → List (List α)
  | 0, _ => []
  | 1, s => [s]
  | n + 2, s =>
    match indexOf sep s with
    | none => [s]
    | some i => s.take i :: splitN sep (n + 1) (s.drop (i + sep.length))

variable {sep s : List α}

theorem indexOf_cons {c : α} :
    indexOf sep (c :: s) = if sep <+: c :: s then some 0 else (indexOf sep s).map (· + 1) := by
  rw [indexOf]
  by_cases h : sep <+: c :: s
  · rw [if_pos h, if_pos (List.isPrefixOf_iff_prefix.mpr h)]
  · rw [if_neg h, if_neg (mt List.isPrefixOf_iff_prefix.mp h)]

theorem prefix_of_indexOf : ∀ {s : List α} {i : Nat}, indexOf sep s = some i → sep <+: s.drop i
  | [], i, h => by
    rw [indexOf] at h
    split at h
    · rename_i hs
      cases h
      exact List.isEmpty_iff.mp hs ▸ List.nil_prefix
    · cases h
  | c :: s, i, h => by
    rw [indexOf_cons] at h
    split at h
    · rename_i hp
      cases h
      exact hp
    · obtain ⟨j, hj, rfl⟩ := Option.map_eq_some_iff.mp h
      rw [List.drop_succ_cons]
      exact prefix_of_indexOf hj

theorem append_of_indexOf {i : Nat} (h : indexOf sep s = some i) :
    s.take i ++ (sep ++ s.drop (i + sep.length)) = s := by
  obtain ⟨t, ht⟩ := prefix_of_indexOf h
  have hd : s.drop (i + sep.length) = t := by rw [← List.drop_drop, ← ht, List.drop_left]
  rw [hd, ht, List.take_append_drop]

theorem splitN_ne_nil (n : Nat) (s : List α) : splitN sep (n + 1) s ≠ [] := by
  cases n with
  | zero => exact List.cons_ne_nil _ _
  | succ n =>
    rw [splitN]
    split
    · exact List.cons_ne_nil _ _
    · exact List.cons_ne_nil _ _

omit [DecidableEq α] in
theorem intercalate_cons {x : List α} {l : List (List α)} (h : l ≠ []) :
    sep.intercalate (x :: l) = x ++ (sep ++ sep.intercalate l) := by
  obtain ⟨y, l, rfl⟩ := List.exists_cons_of_ne_nil h
  simp [List.intercalate]

theorem intercalate_splitN (n : Nat) (s : List α) : sep.intercalate (splitN sep (n + 1) s) = s := by
  induction n generalizing s with
  | zero => simp [splitN, List.intercalate]
  | succ n ih =>
    rw [splitN]
    split
    · simp [List.intercalate]
    · rename_i i hi
      rw [intercalate_cons (splitN_ne_nil _ _), ih, append_of_indexOf hi]

end

/-! ## A separator of one unit -/

section
variable {α : Type} [DecidableEq α] {c : α}

theorem indexOf_append {a : List α} (ha : c ∉ a) (s : List α) : indexOf [c] (a ++ c :: s) = some a.length := by
  induction a with
  | nil => simp [indexOf]
  | cons x a ih =>
    have hx : ¬ [c] <+: x :: (a ++ c :: s) := by
      rintro ⟨r, hr⟩
      exact ha ((List.cons.inj hr).1 ▸ List.mem_cons_self)
    rw [List.cons_append, indexOf_cons, if_neg hx, ih fun h => ha (List.mem_cons_of_mem _ h)]
    rfl

theorem not_mem_take_indexOf : ∀ {s : List α} {i : Nat}, indexOf [c] s = some i → c ∉ s.take i
  | [], i, h => by simp
  | x :: s, i, h => by
    rw [indexOf_cons] at h
    split at h
    · cases h
      simp
    · rename_i hx
      obtain ⟨j, hj, rfl⟩ := Option.map_eq_some_iff.mp h
      rw [List.take_succ_cons, List.mem_cons, not_or]
      exact ⟨fun e => hx (by simp [e]), not_mem_take_indexOf hj⟩

theorem not_mem_dropLast_splitN (n : Nat) (s : List α) : ∀ f ∈ (splitN [c] (n + 1) s).dropLast, c ∉ f := by
  induction n generalizing s with
  | zero => simp [splitN]
  | succ n ih =>
    rw [splitN]
    split
    · simp
    · rename_i i hi
      rw [List.dropLast_cons_of_ne_nil (splitN_ne_nil _ _)]
      exact List.forall_mem_cons.mpr ⟨not_mem_take_indexOf hi, ih _⟩

theorem splitN_intercalate {l : List (List α)} {x : List α} (hl : ∀ f ∈ l, c ∉ f) :
    splitN [c] (l.length + 1) ([c].intercalate (l ++ [x])) = l ++ [x] := by
  induction l with
  | nil => simp [splitN, List.intercalate]
  | cons f l ih =>
    obtain ⟨hf, hl⟩ := List.forall_mem_cons.mp hl
    rw [List.cons_append, intercalate_cons (by simp), List.length_cons, splitN, List.singleton_append,
      indexOf_append hf]
    simp only [List.take_left, List.length_singleton, ← List.drop_drop, List.drop_left, List.drop_one, List.tail_cons]
    rw [ih hl]

end

/-! ## Codes -/

/-- Only the first unit of a word leads one, and no word starts another. -/
structure SyncCode {α β : Type} (e : β → List α) (lead : α → Prop) : Prop where
  shape : ∀ b, ∃ x w, e b = x :: w ∧ lead x ∧ ∀ y ∈ w, ¬ lead y
  free : ∀ b b', e b <+: e b' → b = b'

namespace SyncCode

variable {α β : Type} {e : β → List α} {lead : α → Prop}

theorem prefix_iff (h : SyncCode e lead) {t s : List β} : t.flatMap e <+: s.flatMap e ↔ t <+: s := by
  constructor
  · intro hp
    induction t generalizing s with
    | nil => exact List.nil_prefix
    | cons b t ih =>
      cases s with
      | nil =>
        obtain ⟨x, w, hx, -⟩ := h.shape b
        rw [List.flatMap_cons, hx, List.flatMap_nil, List.prefix_nil] at hp
        cases hp
      | cons b' s =>
        rw [List.flatMap_cons, List.flatMap_cons] at hp
        have hb : e b <+: e b' ++ s.flatMap e := (List.prefix_append _ _).trans hp
        -- of two words at the start of one text one is a prefix of the other
        have heq : b = b' := by
          rcases List.prefix_or_prefix_of_prefix hb (List.prefix_append _ _) with hw | hw
          · exact h.free b b' hw
          · exact (h.free b' b hw).symm
        subst heq
        rw [List.prefix_append_right_inj] at hp
        exact (List.prefix_cons_inj b).mpr (ih hp)
  · rintro ⟨r, rfl⟩
    rw [List.flatMap_append]
    exact List.prefix_append _ _

theorem flatMap_inj (h : SyncCode e lead) {t s : List β} (hts : t.flatMap e = s.flatMap e) : t = s := by
  have h1 : t <+: s := h.prefix_iff.mp (hts ▸ List.prefix_rfl)
  have h2 : s <+: t := h.prefix_iff.mp (hts ▸ List.prefix_rfl)
  exact h1.eq_of_length (le_antisymm h1.length_le h2.length_le)

variable [DecidableEq α]

theorem indexOf_inside {t : List α} {x : α} {w : List α} (hx : lead x) (hw : ∀ y ∈ w, ¬ lead y) (s : List α) :
    indexOf (x :: t) (w ++ s) = (indexOf (x :: t) s).map (· + w.length) := by
  induction w with
  | nil => simp
  | cons y w ih =>
    obtain ⟨hy, hw⟩ := List.forall_mem_cons.mp hw
    have hp : ¬ x :: t <+: y :: (w ++ s) := fun hp => by
      obtain ⟨r, hr⟩ := hp
      exact hy ((List.cons.inj hr).1 ▸ hx)
    rw [List.cons_append, indexOf_cons, if_neg hp, ih hw, Option.map_map]
    rfl

variable [DecidableEq β]

theorem indexOf_flatMap (h : SyncCode e lead) {sep : List β} (hs : sep ≠ []) (s : List β) :
    indexOf (sep.flatMap e) (s.flatMap e) = (indexOf sep s).map fun i => ((s.take i).flatMap e).length := by
  obtain ⟨b, sep, rfl⟩ := List.exists_cons_of_ne_nil hs
  obtain ⟨x, v, hb, hx, -⟩ := h.shape b
  have hcons : (b :: sep).flatMap e = x :: (v ++ sep.flatMap e) := by rw [List.flatMap_cons, hb, List.cons_append]
  induction s with
  | nil =>
    rw [List.flatMap_nil, hcons]
    rfl
  | cons d s ih =>
    obtain ⟨y, w, hd, -, hw⟩ := h.shape d
    have hp := h.prefix_iff (t := b :: sep) (s := d :: s)
    have hword : (d :: s).flatMap e = y :: (w ++ s.flatMap e) := by rw [List.flatMap_cons, hd, List.cons_append]
    rw [hword] at hp ⊢
    rw [indexOf_cons, indexOf_cons]
    by_cases hmatch : b :: sep <+: d :: s
    · rw [if_pos hmatch, if_pos (hp.mpr hmatch)]
      rfl
    · rw [if_neg hmatch, if_neg (mt hp.mp hmatch), hcons, indexOf_inside hx hw, ← hcons, ih, Option.map_map,
        Option.map_map, Option.map_map]
      refine congrArg (fun f => Option.map f (indexOf (b :: sep) s)) (funext fun i => ?_)
      simp only [Function.comp_apply, List.take_succ_cons, List.flatMap_cons, hd, List.length_append, List.length_cons]
      omega

theorem splitN_flatMap (h : SyncCode e lead) {sep : List β} (hs : sep ≠ []) (n : Nat) (s : List β) :
    splitN (sep.flatMap e) (n + 1) (s.flatMap e) = (splitN sep (n + 1) s).map (·.flatMap e) := by
  induction n generalizing s with
  | zero => rfl
  | succ n ih =>
    rw [splitN, splitN, h.indexOf_flatMap hs]
    cases hi : indexOf sep s with
    | none => rfl
    | some i =>
      have happ := congrArg (·.flatMap e) (append_of_indexOf hi)
      simp only [List.flatMap_append] at happ
      have htake : (s.flatMap e).take ((s.take i).flatMap e).length = (s.take i).flatMap e := by
        rw [← happ, List.take_left]
      have hdrop : (s.flatMap e).drop (((s.take i).flatMap e).length + (sep.flatMap e).length) =
          (s.drop (i + sep.length)).flatMap e := by
        rw [← happ, ← List.drop_drop, List.drop_left, List.drop_left]
      simp only [Option.map_some, List.map_cons, htake, hdrop]
      rw [ih]

end SyncCode

end Split
