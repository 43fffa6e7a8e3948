import Logalot.LogTail

/-!
# The live tail: one source at a time

A source is created by the effect, which has closed the one before, by the
timer, which is set when a source is closed, and by `reconnect`, which clears
the timer but closes nothing.
-/

namespace Logalot.LogTail

namespace Link

structure Single (l : Link) : Prop where
  sources_eq : l.sources = l.es.toList
  timers_eq : l.timers = [] ∨ ∃ t d, l.timers = [(t, d)] ∧ l.reconnectTimer = some t
  no_timer : l.es ≠ none → l.timers = []
  ran_stopped : l.ran.1 = true → l.stopped = true
  stopped_idle : l.stopped = true → l.es = none ∧ l.timers = []

variable {l : Link}

theorem Single.oneSource (h : l.Single) : l.OneSource := by
  unfold OneSource
  rw [h.sources_eq]
  cases hes : l.es with
  | none => simp
  | some i => exact ⟨Nat.le_refl 1, fun _ => h.no_timer (by simp [hes])⟩

theorem Single.es_eq_some (h : l.Single) {i : Nat} (hi : i ∈ l.sources) : l.es = some i := by
  rw [h.sources_eq, Option.mem_toList] at hi
  exact hi

theorem Single.not_stopped (h : l.Single) {i : Nat} (hi : l.es = some i) : l.stopped = false := by
  by_cases hs : l.stopped = true
  · have := (h.stopped_idle hs).1
    simp [hi] at this
  · simpa using hs

/-! ## What the operations are for a single source -/

theorem closeSource_eq (h : l.sources = l.es.toList) : l.closeSource = { l with es := none, sources := [] } := by
  unfold closeSource
  cases hes : l.es with
  | none =>
    rw [hes] at h
    cases l
    simp_all
  | some i => simp [h, hes]

theorem clearReconnectTimer_eq (h : l.timers = [] ∨ ∃ t d, l.timers = [(t, d)] ∧ l.reconnectTimer = some t) :
    l.clearReconnectTimer = { l with timers := [], reconnectTimer := none } := by
  unfold clearReconnectTimer
  obtain ht | ⟨t, d, ht, hr⟩ := h
  · cases hr : l.reconnectTimer with
    | none =>
      cases l
      simp_all
    | some t => simp [ht]
  · simp [ht, hr]

theorem connect_of_not_stopped (h : l.stopped = false) :
    l.connect = { l with
      es := some l.created.length
      sources := l.sources ++ [l.created.length]
      created := l.created ++ [l.rendered.2] } := by
  simp [connect, h]

theorem Single.stop_eq (h : l.Single) :
    l.stop = { l with
      stopped := true
      flushTimer := false
      timers := []
      reconnectTimer := none
      es := none
      sources := [] } := by
  unfold stop
  rw [clearReconnectTimer_eq (l := { l with stopped := true }) h.timers_eq]
  exact closeSource_eq h.sources_eq

theorem Single.reconnect_eq (h : l.Single) (hl : l.stopped = false) :
    l.reconnect = { l with
      timers := []
      reconnectTimer := none
      attempt := 0
      wantGapOnOpen := true
      flushTimer := true
      status := .reconnecting
      es := some l.created.length
      sources := l.sources ++ [l.created.length]
      created := l.created ++ [l.rendered.2] } := by
  unfold reconnect
  rw [clearReconnectTimer_eq h.timers_eq, if_neg (by simp [hl])]
  exact connect_of_not_stopped hl

theorem effect_cases (l : Link) :
    (l.rendered.1 = true ∧ l.effect = { l with ran := l.rendered, status := .paused }) ∨
    (l.rendered.1 = false ∧ l.effect = { l with
      ran := l.rendered
      stopped := false
      attempt := 0
      wantGapOnOpen := l.wantGapOnOpen || l.sawOpen
      status := if l.sawOpen then .reconnecting else .connecting
      flushTimer := true
      es := some l.created.length
      sources := l.sources ++ [l.created.length]
      created := l.created ++ [l.rendered.2] }) := by
  by_cases hp : l.rendered.1 = true
  · exact .inl ⟨hp, by simp [effect, hp]⟩
  · refine .inr ⟨by simpa using hp, ?_⟩
    unfold effect
    by_cases ho : l.sawOpen = true
    · simp [hp, ho, connect]
    · simp [hp, ho, connect]

theorem Single.onError_cases (h : l.Single) (hl : l.stopped = false) (backoffMs : List Nat) (max : Nat) :
    (max ≤ l.attempt ∧ l.onError backoffMs max = { l with
      es := none
      sources := []
      wantGapOnOpen := true
      status := .offline
      exhausted := l.exhausted + 1 }) ∨
    (l.attempt < max ∧ l.onError backoffMs max = { l with
      es := none
      sources := []
      wantGapOnOpen := true
      status := .reconnecting
      attempt := l.attempt + 1
      reconnectTimer := some l.scheduled
      scheduled := l.scheduled + 1
      timers := l.timers ++ [(l.scheduled, delay backoffMs l.attempt)] }) := by
  unfold onError
  rw [closeSource_eq h.sources_eq, if_neg (by simp [hl])]
  by_cases hm : max ≤ l.attempt
  · exact .inl ⟨hm, by simp [hm]⟩
  · exact .inr ⟨by omega, by simp [hm]⟩

theorem Single.onTimer_eq (h : l.Single) {t : Nat} (ht : t ∈ l.timers.map Prod.fst) :
    l.onTimer t = { l with
      timers := []
      es := some l.created.length
      sources := [l.created.length]
      created := l.created ++ [l.rendered.2] } ∧ l.es = none ∧ l.stopped = false := by
  have hne : l.timers ≠ [] := by
    intro hnil
    simp [hnil] at ht
  have hes : l.es = none := by
    by_contra hes
    exact hne (h.no_timer hes)
  have hl : l.stopped = false := by
    by_contra hl
    exact hne (h.stopped_idle (by simpa using hl)).2
  refine ⟨?_, hes, hl⟩
  obtain hnil | ⟨t', d, htimers, -⟩ := h.timers_eq
  · exact absurd hnil hne
  · have : t = t' := by simpa [htimers] using ht
    subst this
    have hconnect := connect_of_not_stopped (l := { l with timers := l.timers.filter (·.1 ≠ t) }) hl
    rw [onTimer, hconnect]
    simp [htimers, h.sources_eq, hes]

theorem Single.cleanup (h : l.Single) :
    l.cleanup.Single ∧ l.cleanup.stopped = true ∧ l.cleanup.es = none ∧ l.cleanup.timers = [] := by
  unfold Link.cleanup
  by_cases hr : l.ran.1 = true
  · have hs := h.ran_stopped hr
    rw [if_pos hr]
    exact ⟨h, hs, h.stopped_idle hs⟩
  · rw [if_neg hr, h.stop_eq]
    exact ⟨⟨rfl, .inl rfl, fun _ => rfl, fun _ => rfl, fun _ => ⟨rfl, rfl⟩⟩, rfl, rfl, rfl⟩

theorem Single.effect (h : l.Single) (hl : l.stopped = true) : l.effect.Single := by
  obtain ⟨hes, ht⟩ := h.stopped_idle hl
  obtain ⟨hp, heq⟩ | ⟨hp, heq⟩ := effect_cases l
  · rw [heq]
    exact ⟨h.sources_eq, h.timers_eq, h.no_timer, fun _ => hl, h.stopped_idle⟩
  · rw [heq]
    refine ⟨?_, .inl ht, fun _ => ht, fun h' => ?_, fun h' => ?_⟩
    · simp [h.sources_eq, hes]
    · simp [hp] at h'
    · simp at h'

/-! ## A step -/

section
variable {E D : Type} {o : Options E D}

theorem Single.step (h : l.Single) {e : HookEvent D} (he : l.Enabled e)
    (hr : e = .reconnect → l.stopped = true ∨ l.sources = []) : (l.step o e).Single := by
  cases e with
  | opened i => exact ⟨h.sources_eq, h.timers_eq, h.no_timer, h.ran_stopped, h.stopped_idle⟩
  | message i d => exact h
  | gap i d => exact h
  | error i =>
    have hes := h.es_eq_some he
    have hl := h.not_stopped hes
    have ht : l.timers = [] := h.no_timer (by simp [hes])
    have hran : l.ran.1 = true → False := fun hran => by simp [h.ran_stopped hran] at hl
    obtain ⟨-, heq⟩ | ⟨-, heq⟩ := h.onError_cases hl o.backoffMs o.maxReconnectAttempts
    · rw [Link.step, heq]
      exact ⟨rfl, .inl ht, fun h' => absurd rfl h', fun h' => (hran h').elim, fun _ => ⟨rfl, ht⟩⟩
    · rw [Link.step, heq]
      rw [ht]
      exact ⟨rfl, .inr ⟨_, _, rfl, rfl⟩, fun h' => absurd rfl h', fun h' => (hran h').elim,
        fun h' => by simp [hl] at h'⟩
  | timer t =>
    obtain ⟨heq, -, hl⟩ := h.onTimer_eq he
    rw [Link.step, heq]
    exact ⟨rfl, .inl rfl, fun _ => rfl, h.ran_stopped, fun h' => by simp [hl] at h'⟩
  | flushTick => exact h
  | pause => exact ⟨h.sources_eq, h.timers_eq, h.no_timer, h.ran_stopped, h.stopped_idle⟩
  | resume => exact ⟨h.sources_eq, h.timers_eq, h.no_timer, h.ran_stopped, h.stopped_idle⟩
  | render url => exact ⟨h.sources_eq, h.timers_eq, h.no_timer, h.ran_stopped, h.stopped_idle⟩
  | commit => exact h.cleanup.1.effect h.cleanup.2.1
  | unmount =>
    obtain ⟨h', -⟩ := h.cleanup
    exact ⟨h'.sources_eq, h'.timers_eq, h'.no_timer, h'.ran_stopped, h'.stopped_idle⟩
  | clear => exact h
  | reconnect =>
    by_cases hl : l.stopped = true
    · rw [Link.step, reconnect, if_pos hl]
      exact h
    · obtain hs | hs := hr rfl
      · exact absurd hs hl
      · rw [Link.step, h.reconnect_eq (by simpa using hl)]
        refine ⟨by simp [hs], .inl rfl, fun _ => rfl, h.ran_stopped, fun h' => absurd h' hl⟩

theorem single_mounted (url : Js.JsString) : (LogTail.mounted E url).link.Single :=
  ⟨rfl, .inl rfl, fun _ => rfl, (fun h => by cases h), (fun h => by cases h)⟩

theorem two_le_reconnect (hl : l.stopped = false) (hs : l.sources ≠ []) : 2 ≤ l.reconnect.sources.length := by
  have hclear : l.clearReconnectTimer.sources = l.sources ∧ l.clearReconnectTimer.stopped = false := by
    unfold clearReconnectTimer
    cases l.reconnectTimer with
    | none => exact ⟨rfl, hl⟩
    | some t => exact ⟨rfl, hl⟩
  have hpos := List.length_pos_of_ne_nil hs
  unfold reconnect
  rw [if_neg (by simp [hl])]
  simp only [connect, hclear.1, hclear.2, Bool.false_eq_true, if_false, List.length_append, List.length_singleton]
  omega

end

end Link

/-! ## Every run -/

section
variable {E D : Type} {o : Options E D} {url : Js.JsString} {es : List (HookEvent D)}

theorem single_at (hd : Delivered o url es)
    (hr : ∀ i, es[i]? = some .reconnect →
      (tailAt o url es i).link.stopped = true ∨ (tailAt o url es i).link.sources = []) (i : Nat) :
    (tailAt o url es i).link.Single := by
  refine Trace.stateAt_invariant (P := fun s : Hook E => s.link.Single) (Link.single_mounted url) ?_ i
  intro i e he h
  exact h.step (hd i e he) fun heq => hr i (heq ▸ he)

/-- There is at most one source, and no timer beside it, all along a run just if `reconnect` is only called when no
source is open, or has no effect. -/
theorem one_source_iff (o : Options E D) (url : Js.JsString) (es : List (HookEvent D)) (hd : Delivered o url es) :
    (∀ i, (tailAt o url es i).link.OneSource) ↔
      ∀ i, es[i]? = some .reconnect →
        (tailAt o url es i).link.stopped = true ∨ (tailAt o url es i).link.sources = [] := by
  constructor
  · intro h i hi
    by_cases hl : (tailAt o url es i).link.stopped = true
    · exact .inl hl
    refine .inr ?_
    by_contra hs
    have htwo := Link.two_le_reconnect (by simpa using hl) hs
    have hone := (h (i + 1)).1
    unfold tailAt at hone htwo
    rw [Trace.stateAt_succ hi] at hone
    change (Link.reconnect _).sources.length ≤ 1 at hone
    omega
  · intro hr i
    exact (single_at hd hr i).oneSource

/-- After the last retry the owner calls `reconnect`, and still there is one source. -/
theorem reconnect_when_offline :
    Delivered (⟨10, [], 0, some, id⟩ : Options Nat Nat) [] [.error 0, .reconnect] ∧
      ∀ i, (tailAt (⟨10, [], 0, some, id⟩ : Options Nat Nat) [] [.error 0, .reconnect] i).link.OneSource := by
  have hd : Delivered (⟨10, [], 0, some, id⟩ : Options Nat Nat) [] [.error 0, .reconnect] := by decide
  refine ⟨hd, (one_source_iff _ _ _ hd).mpr ?_⟩
  intro i hi
  obtain _ | _ | i := i
  · cases hi
  · decide
  · cases hi

/-- The owner calls `reconnect` while the stream is open: the source that was open is never closed, not even when the
component is unmounted. -/
theorem reconnect_leaks :
    Delivered (⟨10, [500], 5, some, id⟩ : Options Nat Nat) [] [.opened 0, .reconnect, .unmount] ∧
      (tailAt (⟨10, [500], 5, some, id⟩ : Options Nat Nat) [] [.opened 0, .reconnect, .unmount] 2).link.sources =
        [0, 1] ∧
      (tailAt (⟨10, [500], 5, some, id⟩ : Options Nat Nat) [] [.opened 0, .reconnect, .unmount] 3).link.sources = [0] ∧
      ¬ (tailAt (⟨10, [500], 5, some, id⟩ : Options Nat Nat) [] [.opened 0, .reconnect, .unmount]
        2).link.OneSource := by
  refine ⟨by decide, by decide, by decide, fun h => ?_⟩
  exact absurd h.1 (by decide)

end

end Logalot.LogTail
