import Mathlib.Data.List.Basic

/-!
# Lists of tokens

Items with a comma between them, and a text in parentheses, read from the front
of a list of tokens. What reads an item back from its tokens reads a list of
items back.
-/

namespace TokenLists

variable {τ α : Type}

def spellList (comma : τ) (spell : α → List τ) : List α → List τ
  | [] => []
  | [a] => spell a
  | a :: b :: as => spell a ++ comma :: spellList comma spell (b :: as)

theorem spellList_cons (comma : τ) (spell : α → List τ) (a : α) (as : List α) :
    spellList comma spell (a :: as) = spell a ++ as.flatMap fun b => comma :: spell b := by
  induction as generalizing a with
  | nil => simp [spellList]
  | cons b as ih => rw [spellList, ih, List.flatMap_cons, List.cons_append]

theorem filterMap_spellList {κ : Type} {comma : τ} {f : τ → Option κ} (hf : f comma = none) (spell : α → List τ) :
    ∀ as : List α, (spellList comma spell as).filterMap f = as.flatMap fun a => (spell a).filterMap f
  | [] => rfl
  | [a] => by simp [spellList]
  | a :: b :: as => by
    rw [spellList, List.filterMap_append, List.filterMap_cons_none hf, filterMap_spellList hf spell (b :: as)]
    rfl

theorem length_le_spellList (comma : τ) {spell : α → List τ} (h : ∀ a, spell a ≠ []) :
    ∀ as : List α, as.length ≤ (spellList comma spell as).length
  | [] => Nat.le_refl 0
  | [a] => List.length_pos_of_ne_nil (h a)
  | a :: b :: as => by
    have ih := length_le_spellList comma h (b :: as)
    simp only [spellList, List.length_append, List.length_cons] at ih ⊢
    omega

variable [DecidableEq τ]

def sepBy (comma : τ) (item : List τ → Option (α × List τ)) : Nat → List τ → Option (List α × List τ)
  | 0, _ => none
  | n + 1, ts =>
    (item ts).bind fun r =>
      if r.2.head? = some comma then (sepBy comma item n r.2.tail).map fun q => (r.1 :: q.1, q.2)
      else some ([r.1], r.2)

def enclosed (opening closing : τ) (inner : List τ → Option (α × List τ)) (ts : List τ) : Option (α × List τ) :=
  if ts.head? = some opening then
    (inner ts.tail).bind fun r => if r.2.head? = some closing then some (r.1, r.2.tail) else none
  else none

section
variable {ι : Type} {comma : τ} {item : List τ → Option (α × List τ)} {spell : ι → List τ} {value : ι → α}
  {P : List τ → Prop}

theorem sepBy_spellList (hitem : ∀ a rest, P rest → item (spell a ++ rest) = some (value a, rest))
    (hcomma : ∀ rest, P (comma :: rest)) {rest : List τ} (hrest : P rest) (hne : rest.head? ≠ some comma) :
    ∀ (as : List ι) (n : Nat), as ≠ [] → as.length ≤ n →
      sepBy comma item n (spellList comma spell as ++ rest) = some (as.map value, rest)
  | [], _, h, _ => absurd rfl h
  | [a], n + 1, _, _ => by
    rw [spellList, sepBy, hitem a rest hrest, Option.bind_some, if_neg hne]
    rfl
  | a :: b :: as, n + 1, _, hn => by
    have ih := sepBy_spellList hitem hcomma hrest hne (b :: as) n (by simp) (by simpa using hn)
    rw [spellList, sepBy, List.append_assoc, List.cons_append, hitem a _ (hcomma _), Option.bind_some]
    simp only [List.head?_cons, List.tail_cons, if_true, ih, Option.map_some, List.map_cons]

theorem enclosed_spellList (hitem : ∀ a rest, P rest → item (spell a ++ rest) = some (value a, rest))
    (hcomma : ∀ rest, P (comma :: rest)) {opening closing : τ} {rest : List τ} (hrest : P (closing :: rest))
    (hne : closing ≠ comma) {as : List ι} (has : as ≠ []) {n : Nat} (hn : as.length ≤ n) :
    enclosed opening closing (sepBy comma item n) (opening :: (spellList comma spell as ++ closing :: rest)) =
      some (as.map value, rest) := by
  have hlist := sepBy_spellList hitem hcomma hrest (by simpa using hne) as n has hn
  simp [enclosed, hlist]

end

end TokenLists
