import Logalot.Handle
import Logalot.IngestSound
import Logalot.Lib.History

/-!
# What a handled delivery calls

Along every run of `Handle` the record of its calls fits the stage it is at: as many
`Append`s as attempts, all failed but perhaps the last.
-/

namespace Logalot

open Go History

/-! ## Attempts -/

theorem attempts_pos (p : Processor) : 1 ≤ p.attempts := by
  unfold Processor.attempts
  split <;> omega

variable {p : Processor} {cancelled : Bool}

theorem attempts_le (h : -(2 ^ 63) ≤ p.maxRetries ∧ p.maxRetries < 2 ^ 63) :
    (p.attempts : Int) ≤ max p.maxRetries 0 + 1 := by
  unfold Processor.attempts
  rw [Int.bmod_def]
  norm_num at h ⊢
  split <;> split <;> omega

theorem pos_of_stops {a : Nat} (h : p.stops cancelled a) : 0 < a := by
  have hpos := attempts_pos p
  rcases h with hspent | ⟨ha, -⟩
  · omega
  · exact ha

theorem lt_of_not_stops {a : Nat} (h : ¬ p.stops cancelled a) : a < p.attempts := by
  by_contra hspent
  exact h (Or.inl (by omega))

theorem live_of_not_stops {a : Nat} (h : ¬ p.stops cancelled a) (ha : a ≠ 0) :
    ¬ cancelled = true :=
  fun hc => h (Or.inr ⟨by omega, hc⟩)

theorem retry_eq {α : Type} (p : Processor) (cancelled : Bool) (a : Nat) (stop first again : α) :
    (if p.attempts ≤ a then stop else if a = 0 then first else if cancelled then stop else again) =
      if p.stops cancelled a then stop else if a = 0 then first else again := by
  by_cases hstop : p.stops cancelled a
  · have ha := pos_of_stops hstop
    rw [if_pos hstop, if_neg (show a ≠ 0 by omega)]
    rcases hstop with hspent | ⟨-, hc⟩
    · rw [if_pos hspent]
    · rw [if_pos hc, ite_self]
  · have hlt := lt_of_not_stops hstop
    rw [if_neg hstop, if_neg (show ¬ p.attempts ≤ a by omega)]
    by_cases ha : a = 0
    · rw [if_pos ha, if_pos ha]
    · rw [if_neg ha, if_neg ha, if_neg (live_of_not_stops hstop ha)]

/-! ## Records -/

def starts (l : List HandleEvent) : Nat := l.count .appendStarted

def HandleEvent.appended : HandleEvent → Option (Option Bytes)
  | .appendEnded err => some err
  | _ => none

def outcomes (l : List HandleEvent) : List (Option Bytes) := l.filterMap HandleEvent.appended

variable {l : List HandleEvent} {e : HandleEvent}

theorem starts_append_of_ne (h : e ≠ .appendStarted) : starts (l ++ [e]) = starts l := by
  unfold starts
  rw [List.count_append, List.count_singleton, if_neg (by simpa using h), Nat.add_zero]

theorem starts_append_started : starts (l ++ [.appendStarted]) = starts l + 1 := by
  simp [starts]

theorem outcomes_append_of_none (h : e.appended = none) : outcomes (l ++ [e]) = outcomes l := by
  unfold outcomes
  rw [List.filterMap_append, List.filterMap_cons_none h, List.filterMap_nil, List.append_nil]

theorem outcomes_append_ended (err : Option Bytes) : outcomes (l ++ [.appendEnded err]) = outcomes l ++ [err] := by
  simp [outcomes, HandleEvent.appended]

structure Failed (l : List HandleEvent) (a : Nat) (lastErr : Option Bytes) : Prop where
  ended : (outcomes l).length = a
  failed : none ∉ outcomes l
  last : (outcomes l).getLast?.join = lastErr

structure Persisted (c : HandleCall) (l : List HandleEvent) : Prop where
  pos : 1 ≤ starts l
  le : starts l ≤ c.processor.attempts
  last : (outcomes l).getLast? = some none

def InSleep (l : List HandleEvent) : Prop :=
  (.cancelled ∉ l ∧ [.sleepStarted] <:+ l) ∨ [.sleepStarted, .cancelled] <:+ l

def Fits (c : HandleCall) (l : List HandleEvent) : HandleStage → Prop
  | .received => ∀ e ∈ l, e = .cancelled
  | .persist ev a lastErr => c.normalized = .ok ev ∧ starts l = a ∧ Failed l a lastErr ∧ a ≤ c.processor.attempts
  | .backoff ev a lastErr =>
    c.normalized = .ok ev ∧ starts l = a ∧ Failed l a lastErr ∧ a < c.processor.attempts ∧ InSleep l
  | .appending ev a lastErr => c.normalized = .ok ev ∧ starts l = a + 1 ∧ Failed l a lastErr ∧ a < c.processor.attempts
  | .tee ev | .fanOut ev | .publishing ev | .archive ev _ => c.normalized = .ok ev ∧ Persisted c l
  | .archiveBackoff ev a | .archiving ev a => c.normalized = .ok ev ∧ Persisted c l ∧ a < c.processor.attempts
  | .returned (some (.poison p)) => c.normalized = .error p ∧ ∀ e ∈ l, e = .cancelled
  | .returned (some (.append err)) =>
    (∃ ev, c.normalized = .ok ev) ∧ 1 ≤ starts l ∧ starts l ≤ c.processor.attempts ∧ none ∉ outcomes l ∧
      (outcomes l).getLast? = some (some err)
  | .returned none => (∃ ev, c.normalized = .ok ev) ∧ Persisted c l

/-- What was recorded before a call that starts. An `Append` starts within the budget and after none has
succeeded; once the context is cancelled, only the first does, and that of the sleep which the cancellation ended. -/
def Lawful (c : HandleCall) (l : List HandleEvent) : HandleEvent → Prop
  | .appendStarted =>
    starts l < c.processor.attempts ∧ none ∉ outcomes l ∧
      (.cancelled ∈ l → starts l = 0 ∨ [.sleepStarted, .cancelled] <:+ l)
  | .archiveStarted | .publishStarted => none ∈ outcomes l
  | _ => True

structure HandleState.Inv (c : HandleCall) (s : HandleState) : Prop where
  cancelled : .cancelled ∈ s.trace → s.cancelled = true
  fits : Fits c s.trace s.stage
  lawful : Before (Lawful c) s.trace

/-! ## Steps -/

section
variable {c : HandleCall} {l' : List HandleEvent} {a : Nat} {lastErr : Option Bytes} {ev : LogEvent}
variable {st : HandleStage}

theorem Failed.of_outcomes (h : Failed l a lastErr) (ho : outcomes l' = outcomes l) : Failed l' a lastErr :=
  ⟨ho ▸ h.ended, ho ▸ h.failed, ho ▸ h.last⟩

theorem Persisted.of_same (h : Persisted c l) (hs : starts l' = starts l) (ho : outcomes l' = outcomes l) :
    Persisted c l' :=
  ⟨hs ▸ h.pos, hs ▸ h.le, ho ▸ h.last⟩

theorem Persisted.mem (h : Persisted c l) : none ∈ outcomes l := List.mem_of_getLast? h.last

theorem Failed.exists_last (h : Failed l a lastErr) (ha : 0 < a) :
    ∃ err, lastErr = some err ∧ (outcomes l).getLast? = some (some err) := by
  have hne : outcomes l ≠ [] := by
    rw [← List.length_pos_iff, h.ended]
    exact ha
  have hlast := List.getLast?_eq_some_getLast hne
  cases hx : (outcomes l).getLast hne with
  | none => exact absurd (hx ▸ List.getLast_mem hne) h.failed
  | some err =>
    rw [hx] at hlast
    refine ⟨err, ?_, hlast⟩
    rw [← h.last, hlast]
    rfl

theorem fits_afterPersist (h : Fits c l (.persist ev a lastErr)) (ha : 0 < a) :
    Fits c l (afterPersist ev lastErr) := by
  obtain ⟨hev, hs, hf, hle⟩ := h
  obtain ⟨err, rfl, hlast⟩ := hf.exists_last ha
  exact ⟨⟨ev, hev⟩, by omega, by omega, hf.failed, hlast⟩

def Allows (c : HandleCall) (l : List HandleEvent) : Option HandleEvent × HandleStage → Prop
  | (none, st) => Fits c l st
  | (some e, st) => e ≠ .cancelled ∧ Lawful c l e ∧ Fits c (l ++ [e]) st

theorem allows_appendStarted (hev : c.normalized = .ok ev) (hs : starts l = a) (hf : Failed l a lastErr)
    (ha : a < c.processor.attempts) (hc : .cancelled ∈ l → a = 0 ∨ [.sleepStarted, .cancelled] <:+ l) :
    Allows c l (some .appendStarted, .appending ev a lastErr) := by
  refine ⟨by simp, ⟨by omega, hf.failed, by rwa [hs]⟩, hev, ?_, hf.of_outcomes (outcomes_append_of_none rfl), ha⟩
  rw [starts_append_started, hs]

theorem allows_appendEnded (h : Fits c l (.appending ev a lastErr)) (err : Option Bytes) :
    Allows c l
      (some (.appendEnded err), match err with | none => .tee ev | some e => .persist ev (a + 1) (some e)) := by
  obtain ⟨hev, hs, hf, ha⟩ := h
  have hstarts : starts (l ++ [.appendEnded err]) = a + 1 := by rw [starts_append_of_ne (by simp), hs]
  refine ⟨by simp, trivial, ?_⟩
  cases err with
  | none =>
    refine ⟨hev, by omega, by omega, ?_⟩
    rw [outcomes_append_ended, List.getLast?_concat]
  | some e =>
    refine ⟨hev, hstarts, ⟨?_, ?_, ?_⟩, ha⟩
    · rw [outcomes_append_ended, List.length_append, hf.ended]
      rfl
    · rw [outcomes_append_ended, List.mem_append, List.mem_singleton]
      exact fun h => h.elim hf.failed fun he => by cases he
    · rw [outcomes_append_ended, List.getLast?_concat]
      rfl

theorem Persisted.note (h : Persisted c l) (hs : e ≠ .appendStarted) (ho : e.appended = none) :
    Persisted c (l ++ [e]) :=
  h.of_same (starts_append_of_ne hs) (outcomes_append_of_none ho)

theorem allows_next {cancelled : Bool} (h : Fits c l st) (hc : .cancelled ∈ l → cancelled = true)
    (err : Option Bytes) : Allows c l (c.next cancelled err st) := by
  cases st with
  | received =>
    rw [HandleCall.next]
    split
    · rename_i hp
      exact ⟨hp, h⟩
    · rename_i hev
      have hnone : starts l = 0 ∧ outcomes l = [] := by
        constructor
        · exact List.count_eq_zero.mpr fun hm => by cases h _ hm
        · exact List.filterMap_eq_nil_iff.mpr fun e he => by rw [h e he]; rfl
      exact ⟨hev, hnone.1, ⟨by rw [hnone.2]; rfl, by simp [hnone.2], by rw [hnone.2]; rfl⟩, Nat.zero_le _⟩
  | persist ev a lastErr =>
    rw [HandleCall.next, retry_eq]
    split
    · exact fits_afterPersist h (pos_of_stops ‹_›)
    · rename_i hgo
      obtain ⟨hev, hs, hf, -⟩ := h
      split
      · exact allows_appendStarted hev hs hf (lt_of_not_stops hgo) fun _ => Or.inl ‹a = 0›
      · rename_i hne
        -- the context was live at the check, so a cancellation falls into the sleep
        have hlive := live_of_not_stops hgo hne
        refine ⟨by simp, trivial, hev, ?_, hf.of_outcomes (outcomes_append_of_none rfl), lt_of_not_stops hgo,
          Or.inl ⟨?_, List.suffix_append _ _⟩⟩
        · rw [starts_append_of_ne (by simp), hs]
        · rw [List.mem_append, List.mem_singleton]
          rintro (hm | hm)
          · exact hlive (hc hm)
          · cases hm
  | backoff ev a lastErr =>
    obtain ⟨hev, hs, hf, ha, hsleep⟩ := h
    refine allows_appendStarted hev hs hf ha fun hm => Or.inr ?_
    exact hsleep.resolve_left fun hlive => hlive.1 hm
  | appending ev a lastErr => exact allows_appendEnded h err
  | tee ev =>
    rw [HandleCall.next]
    cases c.processor.cold && !cancelled <;> exact h
  | archive ev a =>
    rw [HandleCall.next, retry_eq]
    split
    · exact h
    · rename_i hgo
      split
      · exact ⟨by simp, h.2.mem, h.1, h.2.note (by simp) rfl, lt_of_not_stops hgo⟩
      · exact ⟨h.1, h.2, lt_of_not_stops hgo⟩
  | archiveBackoff ev a => exact ⟨by simp, h.2.1.mem, h.1, h.2.1.note (by simp) rfl, h.2.2⟩
  | archiving ev a =>
    cases err with
    | none => exact ⟨by simp, trivial, h.1, h.2.1.note (by simp) rfl⟩
    | some e => exact ⟨by simp, trivial, h.1, h.2.1.note (by simp) rfl⟩
  | fanOut ev => exact ⟨by simp, h.2.mem, h.1, h.2.note (by simp) rfl⟩
  | publishing ev => exact ⟨by simp, trivial, ⟨ev, h.1⟩, h.2.note (by simp) rfl⟩
  | returned r => exact h

theorem Inv.advance {s : HandleState} (h : s.Inv c) (err : Option Bytes) : (s.act c (.advance err)).Inv c := by
  have hallows := allows_next h.fits h.cancelled err
  obtain ⟨o, st, hnext⟩ : ∃ o st, c.next s.cancelled err s.stage = (o, st) := ⟨_, _, rfl⟩
  have hact : s.act c (.advance err) = { s with stage := st, trace := s.trace ++ o.toList } := by
    simp only [HandleState.act, hnext]
  rw [hnext] at hallows
  rw [hact]
  cases o with
  | none =>
    rw [Option.toList_none, List.append_nil]
    exact ⟨h.cancelled, hallows, h.lawful⟩
  | some e =>
    obtain ⟨he, hlaw, hfit⟩ := hallows
    refine ⟨fun hm => ?_, hfit, h.lawful.append hlaw⟩
    rcases List.mem_append.mp hm with hm | hm
    · exact h.cancelled hm
    · exact absurd (List.mem_singleton.mp hm).symm he

theorem InSleep.cancel (h : InSleep l) (hl : .cancelled ∉ l) : InSleep (l ++ [.cancelled]) := by
  refine Or.inr ?_
  rcases h with ⟨-, pre, rfl⟩ | ⟨pre, rfl⟩
  · exact ⟨pre, by simp⟩
  · exact absurd (by simp) hl

theorem fits_cancel (h : Fits c l st) (hl : .cancelled ∉ l) : Fits c (l ++ [.cancelled]) st := by
  have hs : starts (l ++ [.cancelled]) = starts l := starts_append_of_ne (by simp)
  have ho : outcomes (l ++ [.cancelled]) = outcomes l := outcomes_append_of_none rfl
  have honly : (∀ e ∈ l, e = .cancelled) → ∀ e ∈ l ++ [.cancelled], e = .cancelled := by
    intro hall e he
    rcases List.mem_append.mp he with he | he
    · exact hall e he
    · exact List.mem_singleton.mp he
  cases st with
  | received => exact honly h
  | persist ev a lastErr => exact ⟨h.1, hs.trans h.2.1, h.2.2.1.of_outcomes ho, h.2.2.2⟩
  | backoff ev a lastErr => exact ⟨h.1, hs.trans h.2.1, h.2.2.1.of_outcomes ho, h.2.2.2.1, h.2.2.2.2.cancel hl⟩
  | appending ev a lastErr => exact ⟨h.1, hs.trans h.2.1, h.2.2.1.of_outcomes ho, h.2.2.2⟩
  | tee ev => exact ⟨h.1, h.2.of_same hs ho⟩
  | archive ev a => exact ⟨h.1, h.2.of_same hs ho⟩
  | archiveBackoff ev a => exact ⟨h.1, h.2.1.of_same hs ho, h.2.2⟩
  | archiving ev a => exact ⟨h.1, h.2.1.of_same hs ho, h.2.2⟩
  | fanOut ev => exact ⟨h.1, h.2.of_same hs ho⟩
  | publishing ev => exact ⟨h.1, h.2.of_same hs ho⟩
  | returned r =>
    match r with
    | none => exact ⟨h.1, h.2.of_same hs ho⟩
    | some (.poison p) => exact ⟨h.1, honly h.2⟩
    | some (.append err) => exact ⟨h.1, hs ▸ h.2.1, hs ▸ h.2.2.1, ho ▸ h.2.2.2.1, ho ▸ h.2.2.2.2⟩

theorem Inv.cancel {s : HandleState} (h : s.Inv c) : (s.act c .cancel).Inv c := by
  unfold HandleState.act
  simp only
  split
  · exact h
  · rename_i hlive
    have hl : .cancelled ∉ s.trace := fun hm => hlive (h.cancelled hm)
    exact ⟨fun _ => rfl, fits_cancel h.fits hl, h.lawful.append trivial⟩

theorem inv_run (c : HandleCall) (acts : List HandleAction) : (c.run acts).Inv c := by
  have hrun : ∀ {s : HandleState}, s.Inv c → (acts.foldl (HandleState.act c) s).Inv c := by
    induction acts with
    | nil => exact fun h => h
    | cons act acts ih =>
      intro s h
      cases act with
      | advance err => exact ih (Inv.advance h err)
      | cancel => exact ih (Inv.cancel h)
  exact hrun ⟨fun hm => absurd hm List.not_mem_nil, fun e he => absurd he List.not_mem_nil, before_nil⟩

/-! ## Progress -/

def HandleCall.left (c : HandleCall) : HandleStage → Nat
  | .received => 6 * c.processor.attempts + 9
  | .persist _ a _ => 3 * (c.processor.attempts - a) + 3 * c.processor.attempts + 8
  | .backoff _ a _ => 3 * (c.processor.attempts - a) + 3 * c.processor.attempts + 7
  | .appending _ a _ => 3 * (c.processor.attempts - a) + 3 * c.processor.attempts + 6
  | .tee _ => 3 * c.processor.attempts + 5
  | .archive _ a => 3 * (c.processor.attempts - a) + 3
  | .archiveBackoff _ a => 3 * (c.processor.attempts - a) + 2
  | .archiving _ a => 3 * (c.processor.attempts - a) + 1
  | .fanOut _ => 2
  | .publishing _ => 1
  | .returned _ => 0

theorem left_afterPersist (ev : LogEvent) (lastErr : Option Bytes) :
    c.left (afterPersist ev lastErr) ≤ 3 * c.processor.attempts + 5 := by
  cases lastErr with
  | none => exact le_rfl
  | some err => exact Nat.zero_le _

theorem left_next (h : Fits c l st) (hne : ∀ r, st ≠ .returned r) (cancelled : Bool)
    (err : Option Bytes) : c.left (c.next cancelled err st).2 < c.left st := by
  -- an attempt takes three steps, of which the failed one leaves an attempt less
  cases st with
  | received =>
    rw [HandleCall.next]
    split <;> simp only [HandleCall.left] <;> omega
  | persist ev a lastErr =>
    have hafter := left_afterPersist (c := c) ev lastErr
    rw [HandleCall.next, retry_eq]
    split
    · exact lt_of_le_of_lt hafter (by simp only [HandleCall.left]; omega)
    · split <;> simp only [HandleCall.left] <;> omega
  | backoff ev a lastErr =>
    simp only [HandleCall.next, HandleCall.left]
    omega
  | appending ev a lastErr =>
    have ha := h.2.2.2
    cases err <;> simp only [HandleCall.next, HandleCall.left] <;> omega
  | tee ev =>
    rw [HandleCall.next]
    simp only
    split_ifs <;> simp only [HandleCall.left] <;> omega
  | archive ev a =>
    rw [HandleCall.next, retry_eq]
    split
    · simp only [HandleCall.left]
      omega
    · split <;> simp only [HandleCall.left] <;> omega
  | archiveBackoff ev a =>
    simp only [HandleCall.next, HandleCall.left]
    omega
  | archiving ev a =>
    have ha := h.2.2
    cases err <;> simp only [HandleCall.next, HandleCall.left] <;> omega
  | fanOut ev =>
    simp only [HandleCall.next, HandleCall.left]
    omega
  | publishing ev =>
    simp only [HandleCall.next, HandleCall.left]
    omega
  | returned r => exact absurd rfl (hne r)

def HandleAction.isAdvance : HandleAction → Bool
  | .advance _ => true
  | .cancel => false

theorem run_append (c : HandleCall) (acts : List HandleAction) (act : HandleAction) :
    c.run (acts ++ [act]) = (c.run acts).act c act := by
  unfold HandleCall.run
  rw [List.foldl_append]
  rfl

theorem left_run (c : HandleCall) (acts : List HandleAction) :
    (∃ r, (c.run acts).stage = .returned r) ∨
      c.left (c.run acts).stage + acts.countP HandleAction.isAdvance ≤ c.left .received := by
  -- a run is extended at its end, where the invariant gives what the stage was
  induction acts using List.reverseRecOn with
  | nil => exact Or.inr le_rfl
  | append_singleton acts act ih =>
    rw [run_append, List.countP_append]
    cases act with
    | cancel =>
      have hstage : ((c.run acts).act c .cancel).stage = (c.run acts).stage := by
        simp only [HandleState.act]
        split <;> rfl
      rw [hstage]
      exact ih
    | advance err =>
      have hstage : ((c.run acts).act c (.advance err)).stage =
          (c.next (c.run acts).cancelled err (c.run acts).stage).2 := rfl
      rw [hstage]
      by_cases hr : ∃ r, (c.run acts).stage = .returned r
      · obtain ⟨r, hr⟩ := hr
        rw [hr]
        exact Or.inl ⟨r, rfl⟩
      · have hlt := left_next (inv_run c acts).fits (fun r he => hr ⟨r, he⟩) (c.run acts).cancelled err
        have hle := ih.resolve_left hr
        have hone : [HandleAction.advance err].countP HandleAction.isAdvance = 1 := rfl
        exact Or.inr (by omega)

/-! ## The pipeline's handler -/

theorem abs_next (h : Fits c l st) (hne : st ≠ .received) (cancelled : Bool) (err : Option Bytes) :
    (c.next cancelled err st).2.abs c.tc = c.processor.advance cancelled err.isNone (st.abs c.tc) ∨
      (c.next cancelled err st).2.abs c.tc = st.abs c.tc := by
  cases st with
  | received => exact absurd rfl hne
  | persist ev a lastErr =>
    refine Or.inl ?_
    rw [HandleCall.next, retry_eq, HandleStage.abs, Processor.advance]
    split
    · obtain ⟨err, rfl, -⟩ := h.2.2.1.exists_last (pos_of_stops ‹_›)
      rfl
    · split <;> rfl
  | backoff ev a lastErr => exact Or.inr rfl
  | appending ev a lastErr => cases err <;> exact Or.inl rfl
  | tee ev =>
    refine Or.inl ?_
    simp only [HandleStage.abs, Processor.advance, HandleCall.next]
    cases c.processor.cold && !cancelled <;> rfl
  | archive ev a =>
    refine Or.inl ?_
    rw [HandleCall.next, retry_eq, HandleStage.abs, Processor.advance]
    split
    · rfl
    · split <;> rfl
  | archiveBackoff ev a => exact Or.inr rfl
  | archiving ev a => cases err <;> exact Or.inl rfl
  | fanOut ev => exact Or.inr rfl
  | publishing ev => exact Or.inl rfl
  | returned r => exact Or.inr rfl

theorem abs_received {w : EnvelopeJson} {body : Bytes} (hbody : w.unmarshal body = some c.env)
    (htc : c.tc = messageContext c.env) (hv : c.tc.valid = none) (cancelled : Bool) (err : Option Bytes) :
    (c.next cancelled err .received).2.abs c.tc = receive w c.dec body c.now := by
  have hnorm : c.normalized = normalize c.dec (messageContext c.env) c.env c.now := by rw [HandleCall.normalized, htc]
  unfold receive
  rw [hbody]
  simp only [← htc, hv]
  rw [HandleCall.next, htc, ← hnorm]
  cases c.normalized <;> rfl

/-- In a run, the pipeline's handler is at the stage of the call. -/
theorem abs_run (c : HandleCall) (acts : List HandleAction) (err : Option Bytes) (h : (c.run acts).stage ≠ .received) :
    (c.run (acts ++ [.advance err])).stage.abs c.tc =
        c.processor.advance (c.run acts).cancelled err.isNone ((c.run acts).stage.abs c.tc) ∨
      (c.run (acts ++ [.advance err])).stage.abs c.tc = (c.run acts).stage.abs c.tc := by
  rw [run_append]
  exact abs_next (inv_run c acts).fits h (c.run acts).cancelled err

/-! ## Runs -/

theorem starts_le (h : Fits c l st) : starts l ≤ c.processor.attempts := by
  have honly : (∀ e ∈ l, e = .cancelled) → starts l ≤ c.processor.attempts := fun hall => by
    rw [starts, List.count_eq_zero.mpr fun hm => by cases hall _ hm]
    exact Nat.zero_le _
  cases st with
  | received => exact honly h
  | persist ev a lastErr => exact h.2.1 ▸ h.2.2.2
  | backoff ev a lastErr => exact h.2.1 ▸ h.2.2.2.1.le
  | appending ev a lastErr => exact h.2.1 ▸ h.2.2.2
  | tee ev => exact h.2.le
  | archive ev a => exact h.2.le
  | archiveBackoff ev a => exact h.2.1.le
  | archiving ev a => exact h.2.1.le
  | fanOut ev => exact h.2.le
  | publishing ev => exact h.2.le
  | returned r =>
    match r with
    | none => exact h.2.le
    | some (.poison p) => exact honly h.2
    | some (.append err) => exact h.2.2.1

theorem fits_poison {p : Poison} (h : Fits c l st) (hp : c.normalized = .error p) :
    (∀ e ∈ l, e = .cancelled) ∧ ∀ r, st = .returned r → r = some (.poison p) := by
  have hno : ∀ {ev : LogEvent}, c.normalized ≠ .ok ev := fun hev => by
    rw [hp] at hev
    cases hev
  cases st with
  | received => exact ⟨h, fun r hr => by cases hr⟩
  | returned r =>
    match r with
    | none => exact absurd h.1.choose_spec hno
    | some (.append err) => exact absurd h.1.choose_spec hno
    | some (.poison q) =>
      obtain ⟨hq, hall⟩ := h
      rw [hp] at hq
      cases hq
      exact ⟨hall, fun r hr => by cases hr; rfl⟩
  | _ => exact absurd h.1 hno

theorem fits_returned {r : Option HandleError} (h : Fits c l (.returned r)) (hev : c.normalized = .ok ev) :
    1 ≤ starts l ∧ (r = none ↔ none ∈ outcomes l) ∧ ∃ err, (outcomes l).getLast? = some err ∧ r = err.map .append := by
  match r with
  | none => exact ⟨h.2.pos, iff_of_true rfl h.2.mem, none, h.2.last, rfl⟩
  | some (.append err) =>
    obtain ⟨-, hpos, -, hfailed, hlast⟩ := h
    exact ⟨hpos, iff_of_false (by simp) hfailed, some err, hlast, rfl⟩
  | some (.poison p) =>
    have hp := h.1
    rw [hev] at hp
    cases hp

/-- For every retry budget, all outcomes of the calls and every point of cancellation. On a poison message no
call is made. Otherwise `Append` is called once at least and within the budget, each time lawfully, as are
`Archive` and `Publish`, and the value returned is that of its last call, whatever the other calls return. The
call returns after a bounded number of steps. -/
theorem handle_calls (c : HandleCall) (h : -(2 ^ 63) ≤ c.processor.maxRetries ∧ c.processor.maxRetries < 2 ^ 63)
    (acts : List HandleAction) :
    (∀ p, c.normalized = .error p →
      (∀ e ∈ (c.run acts).trace, e = .cancelled) ∧
        ∀ r, (c.run acts).stage = .returned r → r = some (.poison p)) ∧
    (∀ ev, c.normalized = .ok ev →
      (starts (c.run acts).trace : Int) ≤ max c.processor.maxRetries 0 + 1 ∧
      Before (Lawful c) (c.run acts).trace ∧
      ∀ r, (c.run acts).stage = .returned r →
        1 ≤ starts (c.run acts).trace ∧ (r = none ↔ none ∈ outcomes (c.run acts).trace) ∧
        ∃ err, (outcomes (c.run acts).trace).getLast? = some err ∧ r = err.map .append) ∧
    (c.left .received ≤ acts.countP HandleAction.isAdvance → ∃ r, (c.run acts).stage = .returned r) := by
  have hinv := inv_run c acts
  refine ⟨fun p hp => fits_poison hinv.fits hp, fun ev hev => ⟨?_, hinv.lawful, ?_⟩, fun hsteps => ?_⟩
  · have hle : (starts (c.run acts).trace : Int) ≤ c.processor.attempts := by exact_mod_cast starts_le hinv.fits
    exact hle.trans (attempts_le h)
  · intro r hr
    exact fits_returned (hr ▸ hinv.fits) hev
  · rcases left_run c acts with hr | hleft
    · exact hr
    · have hzero : c.left (c.run acts).stage = 0 := by omega
      cases hst : (c.run acts).stage with
      | returned r => exact ⟨r, rfl⟩
      | _ =>
        rw [hst] at hzero
        simp [HandleCall.left] at hzero

/-! ### A retry -/

/-- The first `Append` fails, the process is told to stop during the sleep, and the second succeeds. -/
def retried : HandleCall :=
  { processor := { maxRetries := 1, cold := true }
    dec := goDecoder fun _ => none
    tc := { tenantId := [] }
    env := payloadEnvelope (bs "\x7b\"message\":\"up\"\x7d")
    now := 0 }

def retriedActs : List HandleAction :=
  [.advance none, .advance none, .advance (some (bs "timeout")), .advance none, .cancel, .advance none, .advance none,
    .advance none, .advance none, .advance (some (bs "closed"))]

theorem retried_once :
    (retried.run retriedActs).trace =
      [.appendStarted, .appendEnded (some (bs "timeout")), .sleepStarted, .cancelled, .appendStarted, .appendEnded none,
        .publishStarted, .publishEnded (some (bs "closed"))] ∧
    (retried.run retriedActs).stage = .returned none ∧ Before (Lawful retried) (retried.run retriedActs).trace := by
  have hok : ∃ ev, retried.normalized = .ok ev := ⟨_, rfl⟩
  obtain ⟨ev, hev⟩ := hok
  refine ⟨by decide, by decide, ?_⟩
  exact ((handle_calls retried ⟨by decide, by decide⟩ retriedActs).2.1 ev hev).2.1

theorem retried_abs :
    (retried.run [.advance none, .advance none]).stage.abs retried.tc =
        retried.processor.advance false true ((retried.run [.advance none]).stage.abs retried.tc) ∨
      (retried.run [.advance none, .advance none]).stage.abs retried.tc =
        (retried.run [.advance none]).stage.abs retried.tc :=
  abs_run retried [.advance none] none (by rintro ⟨⟩)

end

end Logalot
