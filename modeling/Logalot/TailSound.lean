import Logalot.Tail

/-!
# What a tail delivers

Each matching event that the pump has received is at one place: in a frame, in a
call of the sink, in the buffer, in the hands of the pump, or among those counted
as dropped.
-/

namespace Logalot.LiveTail

open Go

variable {depth : Nat} {f : Filter} {events : List LogEvent} {s t : Stream}

/-! ## Where the events are -/

def Pump.held (f : Filter) : Pump → List LogEvent
  | .holding ev => [ev].filter f.matches
  | _ => []

def Consumer.inCall : Consumer → List LogEvent
  | .sending (.data ev) => [ev]
  | _ => []

def Consumer.counted : Consumer → Nat
  | .gapping n => n
  | .sending (.gap n) => n
  | _ => 0

def Stream.alive (f : Filter) (s : Stream) : List LogEvent :=
  s.sent ++ s.consumer.inCall ++ s.buf ++ s.pump.held f

def Stream.lost (s : Stream) : Nat := s.gaps + s.consumer.counted + s.dropped

structure Accounts (f : Filter) (events : List LogEvent) (s : Stream) : Prop where
  order : (s.alive f).Sublist (s.received.filter f.matches)
  count : (s.alive f).length + s.lost = (s.received.filter f.matches).length
  split : s.received ++ s.upstream = events
  closed : s.pump = .done → s.cancelled = false → s.upstream = []
  returned : s.consumer = .returned .upstreamClosed → s.pump = .done

theorem accounts_start : Accounts f events (Stream.start events) :=
  ⟨.refl _, rfl, rfl, fun h => (by cases h), fun h => (by cases h)⟩

theorem Accounts.of_eq (h : Accounts f events s) (ha : t.alive f = s.alive f) (hl : t.lost = s.lost)
    (hr : t.received = s.received) (hu : t.upstream = s.upstream)
    (hc : t.pump = .done → t.cancelled = false → t.upstream = [])
    (hd : t.consumer = .returned .upstreamClosed → t.pump = .done) : Accounts f events t where
  order := by rw [ha, hr]; exact h.order
  count := by rw [ha, hl, hr]; exact h.count
  split := by rw [hr, hu]; exact h.split
  closed := hc
  returned := hd

theorem Accounts.not_returned (h : Accounts f events s) (hp : s.pump ≠ .done) :
    s.consumer ≠ .returned .upstreamClosed :=
  fun hc => hp (h.returned hc)

theorem Accounts.leave (h : Accounts f events s) (hc : s.consumer = .selecting) {c : Consumer} (hcall : c.inCall = [])
    (hcount : c.counted = 0) (hr : c = .returned .upstreamClosed → s.pump = .done) :
    Accounts f events { s with consumer := c } := by
  have hcall' : s.consumer.inCall = [] := by rw [hc]; rfl
  have hcount' : s.consumer.counted = 0 := by rw [hc]; rfl
  refine h.of_eq ?_ ?_ rfl rfl h.closed hr
  · simp [Stream.alive, Stream.sent, hcall, hcall']
  · simp [Stream.lost, Stream.gaps, hcount, hcount']

/-! ## Steps -/

theorem receive_cases (h : s.receive = some t) : ∃ ev rest, s.pump = .idle ∧ s.upstream = ev :: rest ∧
    t = { s with upstream := rest, received := s.received ++ [ev], pump := .holding ev } := by
  unfold Stream.receive at h
  split at h
  · cases h
    exact ⟨_, _, ‹_›, ‹_›, rfl⟩
  · cases h

theorem offer_cases (h : s.offer depth f = some t) : ∃ ev, s.pump = .holding ev ∧
    ((f.matches ev = false ∧ t = { s with pump := .idle }) ∨
    (f.matches ev = true ∧ t = { s with pump := .idle, buf := s.buf ++ [ev] }) ∨
    (f.matches ev = true ∧ t = { s with pump := .idle, dropped := s.dropped + 1 })) := by
  unfold Stream.offer at h
  split at h
  · rename_i ev hp
    refine ⟨ev, hp, ?_⟩
    cases hm : f.matches ev with
    | false =>
      simp only [hm] at h
      cases h
      exact Or.inl ⟨rfl, rfl⟩
    | true =>
      simp only [hm] at h
      by_cases hb : s.buf.length < depth
      · simp only [hb] at h
        cases h
        exact Or.inr (Or.inl ⟨rfl, rfl⟩)
      · simp only [hb] at h
        cases h
        exact Or.inr (Or.inr ⟨rfl, rfl⟩)
  · cases h

theorem emit_cases (h : s.emit = some t) :
    (∃ n, s.consumer = .gapping n ∧ t = { s with frames := s.frames ++ [.gap n], consumer := .selecting }) ∨
    ∃ frame, s.consumer = .sending frame ∧ t = { s with frames := s.frames ++ [frame], consumer := .head } := by
  unfold Stream.emit at h
  split at h
  · cases h
    exact Or.inl ⟨_, ‹_›, rfl⟩
  · cases h
    exact Or.inr ⟨_, ‹_›, rfl⟩
  · cases h

theorem take_cases (h : s.take = some t) : ∃ ev rest, s.consumer = .selecting ∧ s.buf = ev :: rest ∧
    t = { s with buf := rest, consumer := .sending (.data ev) } := by
  unfold Stream.take at h
  split at h
  · cases h
    exact ⟨_, _, ‹_›, ‹_›, rfl⟩
  · cases h

theorem accounts_receive (h : Accounts f events s) (ht : s.receive = some t) : Accounts f events t := by
  obtain ⟨ev, rest, hp, hu, rfl⟩ := receive_cases ht
  have halive : Stream.alive f { s with upstream := rest, received := s.received ++ [ev], pump := .holding ev } =
      s.alive f ++ [ev].filter f.matches := by
    simp [Stream.alive, Stream.sent, Pump.held, hp]
  refine ⟨?_, ?_, ?_, fun hd => (by cases hd), fun hc => absurd hc (h.not_returned (by simp [hp]))⟩
  · rw [halive, List.filter_append]
    exact h.order.append (.refl _)
  · rw [halive, List.filter_append, List.length_append, List.length_append]
    have := h.count
    simp only [Stream.lost, Stream.gaps] at this ⊢
    omega
  · rw [← h.split, hu, List.append_assoc]
    rfl

theorem accounts_offer (h : Accounts f events s) (ht : s.offer depth f = some t) : Accounts f events t := by
  obtain ⟨ev, hp, hcases⟩ := offer_cases ht
  have hrun := h.not_returned (show s.pump ≠ .done by simp [hp])
  rcases hcases with ⟨hm, rfl⟩ | ⟨hm, rfl⟩ | ⟨hm, rfl⟩
  · refine h.of_eq ?_ rfl rfl rfl (fun hd => (by cases hd)) fun hc => absurd hc hrun
    simp [Stream.alive, Stream.sent, Pump.held, hp, hm]
  · refine h.of_eq ?_ rfl rfl rfl (fun hd => (by cases hd)) fun hc => absurd hc hrun
    simp [Stream.alive, Stream.sent, Pump.held, hp, hm]
  · -- the event in the hands of the pump becomes a count
    have halive : s.alive f = Stream.alive f { s with pump := .idle, dropped := s.dropped + 1 } ++ [ev] := by
      simp [Stream.alive, Stream.sent, Pump.held, hp, hm]
    refine ⟨?_, ?_, h.split, fun hd => (by cases hd), fun hc => absurd hc hrun⟩
    · exact (List.sublist_append_left _ _).trans (halive ▸ h.order)
    · have := h.count
      rw [halive, List.length_append] at this
      simp only [Stream.lost, Stream.gaps, List.length_singleton] at this ⊢
      omega

theorem accounts_swap (h : Accounts f events s) (ht : s.swap = some t) : Accounts f events t := by
  unfold Stream.swap at ht
  split at ht
  · rename_i hc
    cases ht
    refine h.of_eq ?_ ?_ rfl rfl h.closed fun hr => ?_
    · simp only [Stream.alive, Stream.sent, hc]
      split <;> rfl
    · simp only [Stream.lost, Stream.gaps, hc]
      split
      · simp [Consumer.counted]
      · simp only [Consumer.counted]
        omega
    · simp only at hr
      split at hr <;> cases hr
  · cases ht

theorem accounts_emit (h : Accounts f events s) (ht : s.emit = some t) : Accounts f events t := by
  obtain ⟨n, hc, rfl⟩ | ⟨frame, hc, rfl⟩ := emit_cases ht
  · refine h.of_eq ?_ ?_ rfl rfl h.closed fun hr => (by cases hr)
    · simp [Stream.alive, Stream.sent, Consumer.inCall, hc]
    · simp [Stream.lost, Stream.gaps, Consumer.counted, hc]
  · refine h.of_eq ?_ ?_ rfl rfl h.closed fun hr => (by cases hr)
    · cases frame <;> simp [Stream.alive, Stream.sent, Consumer.inCall, hc]
    · cases frame <;> simp [Stream.lost, Stream.gaps, Consumer.counted, hc]

theorem accounts_take (h : Accounts f events s) (ht : s.take = some t) : Accounts f events t := by
  obtain ⟨ev, rest, hc, hb, rfl⟩ := take_cases ht
  refine h.of_eq ?_ ?_ rfl rfl h.closed fun hr => (by cases hr)
  · simp [Stream.alive, Stream.sent, Consumer.inCall, hc, hb]
  · simp [Stream.lost, Stream.gaps, Consumer.counted, hc]

theorem accounts_act (h : Accounts f events s) {a : TailAction} (ht : s.act depth f a = some t) :
    Accounts f events t := by
  cases a with
  | cancel =>
    cases ht
    exact h.of_eq rfl rfl rfl rfl (fun _ hf => (by cases hf)) h.returned
  | receive => exact accounts_receive h ht
  | close =>
    obtain ⟨⟨hp, hu⟩, ht⟩ := Option.ite_none_right_eq_some.mp ht
    cases ht
    exact h.of_eq (by simp [Stream.alive, Stream.sent, Pump.held, hp]) rfl rfl rfl (fun _ _ => hu) fun _ => rfl
  | quit =>
    obtain ⟨⟨hp, hcan⟩, ht⟩ := Option.ite_none_right_eq_some.mp ht
    cases ht
    refine h.of_eq (by simp [Stream.alive, Stream.sent, Pump.held, hp]) rfl rfl rfl (fun _ hf => ?_) fun _ => rfl
    rw [hcan] at hf
    cases hf
  | offer => exact accounts_offer h ht
  | swap => exact accounts_swap h ht
  | emit => exact accounts_emit h ht
  | take => exact accounts_take h ht
  | tick =>
    obtain ⟨hc, ht⟩ := Option.ite_none_right_eq_some.mp ht
    cases ht
    exact h.leave hc rfl rfl fun hr => (by cases hr)
  | done =>
    obtain ⟨⟨hc, -⟩, ht⟩ := Option.ite_none_right_eq_some.mp ht
    cases ht
    exact h.leave hc rfl rfl fun hr => (by cases hr)
  | closed =>
    obtain ⟨⟨hc, hp⟩, ht⟩ := Option.ite_none_right_eq_some.mp ht
    cases ht
    exact h.leave hc rfl rfl fun _ => hp

theorem accounts_of_reachable (h : (tailSystem depth f events).Reachable s) : Accounts f events s :=
  h.invariant (fun _ e => e ▸ accounts_start) fun _ _ _ ha ⟨_, ht⟩ => accounts_act ha ht

/-! ## Streams -/

/-- **Conservation.** In every interleaving the events of the data frames are a subsequence of the matching
events in the order received. When the stream has returned because the bus closed, each matching event of the bus
is in a data frame, counted in a gap, left in the buffer, or counted since the last gap. -/
theorem stream_conserves (buffer : Int) (f : Filter) (events : List LogEvent) {s : Stream}
    (h : (tailSystem (bufferDepth buffer) f events).Reachable s) :
    s.sent.Sublist (s.received.filter f.matches) ∧ s.received <+: events ∧
    (s.consumer = .returned .upstreamClosed → s.cancelled = false → s.received = events ∧
      s.sent.length + s.gaps + s.buf.length + s.dropped = (events.filter f.matches).length) := by
  have ha := accounts_of_reachable h
  have hsub : s.sent.Sublist (s.alive f) := by
    simp [Stream.alive, List.append_assoc]
  refine ⟨hsub.trans ha.order, ⟨s.upstream, ha.split⟩, fun hc hcan => ?_⟩
  have hp := ha.returned hc
  have hr : s.received = events := by
    rw [← ha.split, ha.closed hp hcan, List.append_nil]
  refine ⟨hr, ?_⟩
  have hcount := ha.count
  rw [hr] at hcount
  simp only [Stream.alive, Stream.lost, hc, hp, Consumer.inCall, Consumer.counted, Pump.held, List.length_append,
    List.length_nil] at hcount
  omega

theorem reachable_of_run {actions : List TailAction} : ∀ {s t : Stream}, (tailSystem depth f events).Reachable s →
    s.run depth f actions = some t → (tailSystem depth f events).Reachable t := by
  induction actions with
  | nil =>
    intro s t hs h
    cases h
    exact hs
  | cons a actions ih =>
    intro s t hs h
    rw [Stream.run, List.foldlM_cons, Option.bind_eq_bind, Option.bind_eq_some_iff] at h
    obtain ⟨u, hu, h⟩ := h
    exact ih (hs.step ⟨a, hu⟩) h

/-! ### Two events and a buffer for one -/

def tailEvent (message : Bytes) : LogEvent := ⟨[], 0, [], [], .info, message, [], [], [], []⟩

def twoEvents : List LogEvent := [tailEvent (bs "a"), tailEvent (bs "b")]

def overflow : List TailAction := [.swap, .receive, .offer, .receive, .offer, .close]

/-- The first event is in the buffer and the second counted when the consumer sees that the bus has closed. -/
theorem stream_ends_with_loss : ∃ s, (tailSystem (bufferDepth 1) {} twoEvents).Reachable s ∧
    s.consumer = .returned .upstreamClosed ∧ s.cancelled = false ∧ s.sent.length + s.gaps = 0 ∧
    (s.received.filter (Filter.matches {})).length = 2 := by
  have hrun : ∃ s ∈ (Stream.start twoEvents).run (bufferDepth 1) {} (overflow ++ [.closed]),
      s.consumer = .returned .upstreamClosed ∧ s.cancelled = false ∧ s.sent.length + s.gaps = 0 ∧
      (s.received.filter (Filter.matches {})).length = 2 := by decide
  obtain ⟨s, hs, h⟩ := hrun
  exact ⟨s, reachable_of_run (.init rfl) hs, h⟩

/-- Here the consumer takes the event and reports the gap first. -/
theorem stream_ends_without_loss : ∃ s, (tailSystem (bufferDepth 1) {} twoEvents).Reachable s ∧
    s.sent.length = 1 ∧ s.sent.length + s.gaps + s.buf.length + s.dropped = 2 := by
  have hrun : ∃ s ∈ (Stream.start twoEvents).run (bufferDepth 1) {} (overflow ++ [.take, .emit, .swap, .emit, .closed]),
      s.consumer = .returned .upstreamClosed ∧ s.cancelled = false ∧ s.sent.length = 1 := by decide
  obtain ⟨s, hs, hc, hcan, hsent⟩ := hrun
  have hr := reachable_of_run (.init rfl) hs
  exact ⟨s, hr, hsent, ((stream_conserves 1 {} twoEvents hr).2.2 hc hcan).2⟩

end Logalot.LiveTail
