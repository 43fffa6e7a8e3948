import Mathlib.Data.List.Chain

/-!
# Journals of transitions

A journal lists the states a machine has moved to, each with its number. It is
numbered when the numbers count from one, every entry is a move, and the state
and the counter of the machine are those of the last entry.
-/

namespace Journal

variable {σ : Type*}

structure Numbered (init : σ) (h : List (Nat × σ)) (state : σ) (seq : Nat) : Prop where
  seqs : h.map Prod.fst = List.range' 1 h.length
  moves : List.IsChain (· ≠ ·) (init :: h.map Prod.snd)
  state_eq : state = (h.map Prod.snd).getLastD init
  seq_eq : seq = h.length

variable {init state : σ} {h : List (Nat × σ)} {seq : Nat}

theorem numbered_nil : Numbered init [] init 0 := ⟨rfl, .singleton _, rfl, rfl⟩

theorem Numbered.append (hn : Numbered init h state seq) {next : σ} (hne : next ≠ state) :
    Numbered init (h ++ [(seq + 1, next)]) next (seq + 1) := by
  obtain ⟨hs, hm, hst, hseq⟩ := hn
  refine ⟨?_, ?_, ?_, ?_⟩
  · rw [List.map_append, hs, List.length_append, hseq, List.range'_append_1.symm]
    simp [Nat.add_comm]
  · rw [List.map_append, ← List.cons_append]
    refine List.isChain_append.mpr ⟨hm, .singleton _, ?_⟩
    intro a ha b hb
    have hb' : b = next := by simpa using hb.symm
    have ha' : a = state := by
      rw [hst, List.getLastD_eq_getLast?]
      rw [List.getLast?_cons] at ha
      simpa using ha.symm
    rw [ha', hb']
    exact hne.symm
  · simp
  · rw [List.length_append, hseq]
    rfl

theorem Numbered.le (hn : Numbered init h state seq) {e : Nat × σ} (he : e ∈ h) : e.1 ≤ seq := by
  have hm : e.1 ∈ h.map Prod.fst := List.mem_map_of_mem he
  rw [hn.seqs, List.mem_range'_1] at hm
  rw [hn.seq_eq]
  omega

end Journal
