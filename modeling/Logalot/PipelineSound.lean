import Logalot.Pipeline

/-!
# No confirmed event is lost

In every reachable state each event an answer reports as enqueued is queued, in
flight, stored or dead-lettered; what is acked is stored; and each stored row comes
from a payload that is no poison, under the tenant it was published for.
-/

namespace Logalot

open Go Pg

variable {w : EnvelopeJson} {dec : Decoder} {p : Nat → Processor} {m : Message w}

/-! ## Publishing -/

theorem publish_eq_some {i k : Nat} {tc : TenantContext} {env : Envelope} {now : Time}
    (h : publish w i k tc env now = some m) :
    m.req = i ∧ m.index = k ∧ m.tc = tc ∧ m.env.raw = env.raw := by
  unfold publish at h
  simp only at h
  split at h
  · split at h
    · cases h
    · obtain rfl := Option.some.inj h
      exact ⟨rfl, rfl, rfl, rfl⟩
  · cases h

/-! ## Handling a delivery -/

def Message.Yields (dec : Decoder) (m : Message w) (tc : TenantContext) (ev : LogEvent) : Prop :=
  ∃ env now, w.unmarshal m.body = some env ∧ tc = messageContext env ∧ normalize dec tc env now = .ok ev

theorem receive_cases (dec : Decoder) (m : Message w) (now : Time) :
    receive w dec m.body now = .returned false ∨
      ∃ tc ev, receive w dec m.body now = .persist tc ev 0 ∧ m.Yields dec tc ev := by
  unfold receive
  split
  · exact Or.inl rfl
  · rename_i env he
    split
    · exact Or.inl rfl
    · split
      · exact Or.inl rfl
      · rename_i ev hn
        exact Or.inr ⟨_, ev, rfl, env, now, he, rfl, hn⟩

/-- What is known of a handler's message at a stage: before the append its event is at hand, after it
its row is stored. -/
def Stage.Sound (dec : Decoder) (m : Message w) (stored : Prop) : Stage → Prop
  | .received => True
  | .persist tc ev _ => m.Yields dec tc ev
  | .append tc ev _ => m.Yields dec tc ev
  | .returned ok => ok = true → stored
  | _ => stored

theorem Stage.Sound.mono {a b : Prop} (hab : a → b) {st : Stage} (h : st.Sound dec m a) :
    st.Sound dec m b := by
  cases st with
  | received => trivial
  | persist tc ev k => exact h
  | append tc ev k => exact h
  | returned ok => exact fun hok => hab (h hok)
  | tee tc ev => exact hab h
  | archive tc ev k => exact hab h
  | archiving tc ev k => exact hab h
  | fanOut tc ev => exact hab h

theorem sound_receive (m : Message w) (now : Time) (stored : Prop) :
    (receive w dec m.body now).Sound dec m stored := by
  rcases receive_cases dec m now with h | ⟨tc, ev, h, hy⟩
  · rw [h]; intro hf; cases hf
  · rw [h]; exact hy

theorem sound_advance {q : Processor} {stored : Prop} {cancelled ok : Bool} {st : Stage}
    (h : st.Sound dec m stored) (hok : ¬ (st.isAppend = true ∧ ok = true)) :
    (q.advance cancelled ok st).Sound dec m stored := by
  cases st with
  | received => trivial
  | returned ok => exact h
  | fanOut tc ev => exact fun _ => h
  | append tc ev k =>
    have hf : ok = false := by
      cases ok
      · rfl
      · exact absurd ⟨rfl, rfl⟩ hok
    rw [hf]
    exact h
  | persist tc ev k =>
    simp only [Processor.advance]
    split
    · intro hf; cases hf
    · exact h
  | tee tc ev =>
    simp only [Processor.advance]
    split <;> exact h
  | archive tc ev k =>
    simp only [Processor.advance]
    split <;> exact h
  | archiving tc ev k =>
    simp only [Processor.advance]
    split <;> exact h

/-! ## Rows -/

structure Inserted (tc : TenantContext) (ev : LogEvent) (now : Time) (row : Row) : Prop where
  valid : tc.valid = none
  tenant : uuidIn tc.tenantId = some row.tenantId
  ts : row.ts = micros (if isZero ev.ts then now else ev.ts)
  service : row.service = ev.service
  level : row.level = ev.level
  labels : row.labels = ev.labels
  raw : ev.raw ≠ [] → row.raw = ev.raw

theorem insertRow_eq_some {tc : TenantContext} {ev : LogEvent} {now : Time} {id : Uuid} {row : Row}
    (h : insertRow tc ev now id = some row) : Inserted tc ev now row := by
  unfold insertRow at h
  split at h
  · rename_i hv
    obtain ⟨u, hu, rfl⟩ := Option.map_eq_some_iff.mp h
    exact ⟨hv, hu, rfl, rfl, rfl, rfl, fun hr => if_neg hr⟩
  · cases h

def HotRow.Sound (dec : Decoder) (h : HotRow w) : Prop :=
  ∃ tc ev now id, h.source.Yields dec tc ev ∧ insertRow tc ev now id = some h.row

theorem HotRow.Sound.payload {h : HotRow w} (hs : h.Sound dec) :
    ∃ env, w.unmarshal h.source.body = some env ∧ h.row.raw = env.raw ∧ ¬ IsPoison dec env.raw := by
  obtain ⟨tc, ev, now, id, ⟨env, now', he, rfl, hn⟩, hr⟩ := hs
  obtain ⟨hraw, hp⟩ := raw_of_normalize hn
  refine ⟨env, he, ?_, hp⟩
  rw [← hraw]
  apply (insertRow_eq_some hr).raw
  intro h0
  exact hp (Or.inl (hraw ▸ h0))

theorem HotRow.Sound.tenant {h : HotRow w} (hs : h.Sound dec) (hw : w.KeepsTenant) :
    uuidIn h.source.tc.tenantId = some h.row.tenantId := by
  obtain ⟨tc, ev, now, id, ⟨env, now', he, rfl, -⟩, hr⟩ := hs
  have hu : isUUID h.source.env.tenantId = true := by
    rw [h.source.tenant]
    exact TenantContext.isUUID_of_valid h.source.valid
  rw [← h.source.tenant, ← hw _ _ env hu h.source.encoded he]
  exact (insertRow_eq_some hr).tenant

/-! ## The invariant -/

namespace Pipeline

def Carries (i : Nat) (r : Request w) (k : Nat) (m : Message w) : Prop :=
  m.req = i ∧ m.index = k ∧ m.tc = r.tc ∧ r.raws[k]? = some m.env.raw

structure RequestSound (confirmed : List (Message w)) (i : Nat) (r : Request w) : Prop where
  published : ∀ k < r.published, ∃ m ∈ confirmed, Carries i r k m
  awaiting : ∀ m, r.phase = .awaiting m → Carries i r r.published m
  answered : r.covered ≤ r.published

structure Inv (dec : Decoder) (s : Pipeline w) : Prop where
  requests : ∀ i r, s.requests i = some r → RequestSound s.confirmed i r
  jobs : ∀ c d st, (s.consumers c).current = some (d, st) → st.Sound dec d.msg (s.Stored d.msg)
  rows : ∀ h ∈ s.hot, h.Sound dec
  acked : ∀ m ∈ s.acked, s.Stored m
  kept : ∀ m ∈ s.confirmed, s.Keeps m

theorem inv_empty : Inv dec (empty : Pipeline w) :=
  { requests := fun _ _ h => by cases h
    jobs := fun _ _ _ h => by cases h
    rows := fun _ h => by cases h
    acked := fun _ h => by cases h
    kept := fun _ h => by cases h }

/-! ## Updates -/

variable {s t : Pipeline w} {r : Request w} {d : Delivery w}

theorem setRequest_cases {i j : Nat} {r' : Request w}
    (h : (s.setRequest i r).requests j = some r') : (j = i ∧ r' = r) ∨ s.requests j = some r' :=
  (Runs.update_cases h).imp_right And.right

theorem setConsumer_cases {c c' : Nat} {k : Consumer w} {j : Delivery w × Stage}
    (h : ((s.setConsumer c k).consumers c').current = some j) :
    (c' = c ∧ k.current = some j) ∨ (s.consumers c').current = some j := by
  by_cases e : c' = c
  · subst e
    simp only [setConsumer, Function.update_self] at h
    exact Or.inl ⟨rfl, h⟩
  · simp only [setConsumer, Function.update_of_ne e] at h
    exact Or.inr h

/-! ## Ingest keeps it -/

theorem RequestSound.mono {l l' : List (Message w)} (hl : l ⊆ l') {i : Nat}
    (h : RequestSound l i r) : RequestSound l' i r := by
  refine ⟨?_, h.awaiting, h.answered⟩
  intro k hk
  obtain ⟨m, hm, hc⟩ := h.published k hk
  exact ⟨m, hl hm, hc⟩

theorem Inv.setRequest (h : Inv dec s) {i : Nat}
    (hr : RequestSound s.confirmed i r) : Inv dec (s.setRequest i r) := by
  refine ⟨?_, h.jobs, h.rows, h.acked, h.kept⟩
  intro j r' hj
  rcases setRequest_cases hj with ⟨rfl, rfl⟩ | hj
  · exact hr
  · exact h.requests j r' hj

theorem Inv.setWire (h : Inv dec s) (l : List (Message w)) : Inv dec { s with wire := l } :=
  ⟨h.requests, h.jobs, h.rows, h.acked, h.kept⟩

theorem requestSound_new (l : List (Message w)) (i : Nat) (tc : TenantContext) (raws : List Bytes) (t : Time) :
    RequestSound l i (.new tc raws t) := by
  by_cases hv : tc.valid = none
  · refine ⟨fun k hk => absurd hk (Nat.not_lt_zero k), ?_, ?_⟩
    · intro m hm
      simp [Request.new, hv] at hm
    · simp [Request.covered, Request.new, hv]
  · refine ⟨fun k hk => absurd hk (Nat.not_lt_zero k), ?_, ?_⟩
    · intro m hm
      simp [Request.new, hv] at hm
    · simp [Request.covered, Request.new, hv]

theorem inv_ingest (h : Inv dec s) (hs : IngestStep s t) : Inv dec t := by
  cases hs with
  | arrive i tc raws at' hn => exact h.setRequest (requestSound_new _ i tc raws at')
  | @send i r raw now m hr hp hraw hm =>
    obtain ⟨h1, h2, h3, h4⟩ := publish_eq_some hm
    refine (h.setWire (m :: s.wire)).setRequest ⟨(h.requests i r hr).published, ?_, Nat.zero_le _⟩
    intro m' hm'
    obtain rfl : m = m' := by simpa using hm'
    exact ⟨h1, h2, h3, by rw [h4]; exact hraw⟩
  | @published i r m hr hp hm =>
    have hq := h.requests i r hr
    refine h.setRequest ⟨?_, ?_, Nat.zero_le _⟩
    · intro k hk
      -- the event just confirmed is the one the request waited for
      rcases Nat.lt_succ_iff_lt_or_eq.mp hk with hk | rfl
      · exact hq.published k hk
      · exact ⟨m, hm, hq.awaiting m hp⟩
    · intro m' hm'
      cases hm'
  | @publishFailed i r hr hp =>
    refine h.setRequest ⟨(h.requests i r hr).published, ?_, Nat.le_refl _⟩
    intro m hm
    cases hm
  | @accepted i r hr hp he =>
    refine h.setRequest ⟨(h.requests i r hr).published, ?_, Nat.le_of_eq he.symm⟩
    intro m hm
    cases hm

/-! ## The broker keeps it -/

theorem Inv.of_kept (h : Inv dec s) (hr : t.requests = s.requests) (hh : t.hot = s.hot)
    (ha : t.acked = s.acked) (hc : t.confirmed = s.confirmed)
    (hj : ∀ c j, (t.consumers c).current = some j → (s.consumers c).current = some j)
    (hk : ∀ m ∈ s.confirmed, s.Keeps m → t.Keeps m) : Inv dec t := by
  have hst : ∀ m, t.Stored m ↔ s.Stored m := fun m => by simp only [Stored, hh]
  refine ⟨?_, ?_, ?_, ?_, ?_⟩
  · intro i r hi
    rw [hr] at hi
    rw [hc]
    exact h.requests i r hi
  · intro c d st hd
    exact (h.jobs c d st (hj c _ hd)).mono (hst d.msg).mpr
  · rw [hh]; exact h.rows
  · intro m hm
    rw [ha] at hm
    exact (hst m).mpr (h.acked m hm)
  · intro m hm
    rw [hc] at hm
    exact hk m hm (h.kept m hm)

theorem eq_or_mem_erase {α : Type*} [DecidableEq α] {a b : α} {l : List α} (h : a ∈ l) : a = b ∨ a ∈ l.erase b := by
  by_cases e : a = b
  · exact Or.inl e
  · exact Or.inr ((List.mem_erase_of_ne e).mpr h)

theorem eq_or_inFlight {l : List (Delivery w)} {m : Message w} (h : ∃ d' ∈ l, d'.msg = m) :
    m = d.msg ∨ ∃ d' ∈ l.erase d, d'.msg = m := by
  obtain ⟨d', hd, rfl⟩ := h
  rcases eq_or_mem_erase (b := d) hd with rfl | hd
  · exact Or.inl rfl
  · exact Or.inr ⟨d', hd, rfl⟩

theorem inv_confirm (h : Inv dec s) {m : Message w} (hm : s.Took m) :
    Inv dec { s with confirmed := m :: s.confirmed } := by
  refine ⟨?_, h.jobs, h.rows, h.acked, ?_⟩
  · intro i r hi
    exact (h.requests i r hi).mono (List.subset_cons_self m s.confirmed)
  · intro m' hm'
    rcases List.mem_cons.mp hm' with rfl | hm'
    · rcases hm with hq | hf | hd | ha
      · exact Or.inl hq
      · exact Or.inr (Or.inl hf)
      · exact Or.inr (Or.inr (Or.inr hd))
      · exact Or.inr (Or.inr (Or.inl (h.acked m' ha)))
    · exact h.kept m' hm'

theorem inv_broker (h : Inv dec s) (hs : BrokerStep s t) : Inv dec t := by
  cases hs with
  | @enqueue m hm =>
    refine (h.setWire (s.wire.erase m)).of_kept rfl rfl rfl rfl (fun _ _ hj => hj) ?_
    intro m' _ hk
    exact hk.imp_left fun hq => List.mem_append_left _ hq
  | drop hm => exact h.setWire _
  | confirm hm => exact inv_confirm h hm
  | @lose m hm hn =>
    refine h.of_kept rfl rfl rfl rfl (fun _ _ hj => hj) ?_
    intro m' hc hk
    have hne : m' ≠ m := by
      rintro rfl
      exact hn hc
    exact hk.imp_left (List.mem_erase_of_ne hne).mpr
  | @loseUnacked d hd hn =>
    refine h.of_kept rfl rfl rfl rfl (fun _ _ hj => hj) ?_
    intro m' hc hk
    refine hk.imp_right (Or.imp_left fun hf => ?_)
    rcases eq_or_inFlight (d := d) hf with rfl | hf
    · exact absurd hc hn
    · exact hf
  | @deliver m d c hm hd =>
    refine h.of_kept rfl rfl rfl rfl ?_ ?_
    · intro c' j hj
      rcases setConsumer_cases hj with ⟨rfl, hj⟩ | hj
      · exact hj
      · exact hj
    · intro m' _ hk
      rcases hk with hq | hf | hk
      · rcases eq_or_mem_erase (b := m) hq with rfl | hq
        · exact Or.inr (Or.inl ⟨d, List.mem_cons_self, by rw [hd]⟩)
        · exact Or.inl hq
      · obtain ⟨d', hd', he⟩ := hf
        exact Or.inr (Or.inl ⟨d', List.mem_cons_of_mem _ hd', he⟩)
      · exact Or.inr (Or.inr hk)
  | @requeue d hd =>
    refine h.of_kept rfl rfl rfl rfl (fun _ _ hj => hj) ?_
    intro m' _ hk
    rcases hk with hq | hf | hk
    · exact Or.inl (List.mem_append_left _ hq)
    · rcases eq_or_inFlight (d := d) hf with rfl | hf
      · exact Or.inl (List.mem_append_right _ List.mem_cons_self)
      · exact Or.inr (Or.inl hf)
    · exact Or.inr (Or.inr hk)

/-! ## The processors keep it -/

theorem Inv.setConsumer (h : Inv dec s) {c : Nat} {k : Consumer w}
    (hk : ∀ d st, k.current = some (d, st) → st.Sound dec d.msg (s.Stored d.msg)) :
    Inv dec (s.setConsumer c k) := by
  refine ⟨h.requests, ?_, h.rows, h.acked, h.kept⟩
  intro c' d st hj
  rcases setConsumer_cases hj with ⟨-, hj⟩ | hj
  · exact hk d st hj
  · exact h.jobs c' d st hj

theorem Inv.setCurrent (h : Inv dec s) {c : Nat} {st : Stage}
    (hs : st.Sound dec d.msg (s.Stored d.msg)) : Inv dec (s.setCurrent c (some (d, st))) := by
  apply h.setConsumer
  intro d' st' hj
  obtain ⟨rfl, rfl⟩ : d = d' ∧ st = st' := by simpa using hj
  exact hs

theorem Inv.setIdle (h : Inv dec s) (c : Nat) : Inv dec (s.setCurrent c none) := by
  apply h.setConsumer
  intro d st hj
  cases hj

theorem inv_addRow (h : Inv dec s) {r : HotRow w} (hr : r.Sound dec) :
    Inv dec { s with hot := r :: s.hot } := by
  have hst : ∀ {m}, s.Stored m → ({ s with hot := r :: s.hot } : Pipeline w).Stored m := by
    rintro m ⟨r', hr', he⟩
    exact ⟨r', List.mem_cons_of_mem _ hr', he⟩
  refine ⟨h.requests, ?_, ?_, ?_, ?_⟩
  · intro c d st hd
    exact (h.jobs c d st hd).mono hst
  · intro r' hr'
    rcases List.mem_cons.mp hr' with rfl | hr'
    · exact hr
    · exact h.rows r' hr'
  · intro m hm
    exact hst (h.acked m hm)
  · intro m hm
    exact (h.kept m hm).imp_right (Or.imp_right (Or.imp_left hst))

theorem inv_ack (h : Inv dec s) (hd : s.Stored d.msg) :
    Inv dec { s with unacked := s.unacked.erase d, acked := d.msg :: s.acked } := by
  refine ⟨h.requests, h.jobs, h.rows, ?_, ?_⟩
  · intro m hm
    rcases List.mem_cons.mp hm with rfl | hm
    · exact hd
    · exact h.acked m hm
  · intro m hm
    rcases h.kept m hm with hq | hf | hk
    · exact Or.inl hq
    · rcases eq_or_inFlight (d := d) hf with rfl | hf
      · exact Or.inr (Or.inr (Or.inl hd))
      · exact Or.inr (Or.inl hf)
    · exact Or.inr (Or.inr hk)

theorem inv_nack (h : Inv dec s) (d : Delivery w) :
    Inv dec { s with unacked := s.unacked.erase d, dlq := s.dlq ++ [d.msg] } := by
  refine h.of_kept rfl rfl rfl rfl (fun _ _ hj => hj) ?_
  intro m _ hk
  rcases hk with hq | hf | hs | hl
  · exact Or.inl hq
  · rcases eq_or_inFlight (d := d) hf with rfl | hf
    · exact Or.inr (Or.inr (Or.inr (List.mem_append_right _ List.mem_cons_self)))
    · exact Or.inr (Or.inl hf)
  · exact Or.inr (Or.inr (Or.inl hs))
  · exact Or.inr (Or.inr (Or.inr (List.mem_append_left _ hl)))

theorem inv_processor (h : Inv dec s) (hs : ProcessorStep dec p s t) : Inv dec t := by
  cases hs with
  | @take c d hc hd =>
    apply h.setConsumer
    intro d' st hj
    obtain ⟨rfl, rfl⟩ : d = d' ∧ .received = st := by simpa using hj
    trivial
  | receive now hc => exact h.setCurrent (sound_receive _ now _)
  | advance ok hc hn => exact h.setCurrent (sound_advance (h.jobs _ _ _ hc) hn)
  | @commit c d tc ev a now id row hc hr hpk =>
    have hy : d.msg.Yields dec tc ev := h.jobs c d _ hc
    apply (inv_addRow h (r := ⟨row, d.msg⟩) ⟨tc, ev, now, id, hy, hr⟩).setCurrent
    exact ⟨_, List.mem_cons_self, rfl⟩
  | @ack c d hc hd => exact (inv_ack h (h.jobs c d _ hc rfl)).setIdle c
  | @nack c d hc hd => exact (inv_nack h d).setIdle c
  | @settleFailed c d ok hc => exact h.setIdle c
  | cancel c =>
    apply h.setConsumer
    intro d st hj
    exact h.jobs c d st hj
  | crash c =>
    apply h.setConsumer
    intro d st hj
    cases hj

theorem inv_reachable (hr : (system dec p).Reachable s) : Inv dec s := by
  apply hr.invariant
  · rintro s rfl
    exact inv_empty
  · intro s t _ h hs
    rcases hs with hs | hs | hs
    · exact inv_ingest h hs
    · exact inv_broker h hs
    · exact inv_processor h hs

/-! ## Main result -/

/-- **Conservation.** For every encoding that keeps the tenant of an envelope. -/
theorem confirmed_events_kept (hw : w.KeepsTenant) (hr : (system dec p).Reachable s) :
    (∀ i r, s.requests i = some r → ∀ k < r.covered,
      ∃ m, m.req = i ∧ m.index = k ∧ m.tc = r.tc ∧ r.raws[k]? = some m.env.raw ∧ s.Keeps m) ∧
    (∀ m ∈ s.acked, s.Stored m) ∧
    (∀ h ∈ s.hot, ∃ env, w.unmarshal h.source.body = some env ∧ h.row.raw = env.raw ∧
      ∀ tc now e, normalize dec tc env now ≠ .error e) ∧
    (∀ h ∈ s.hot, uuidIn h.source.tc.tenantId = some h.row.tenantId) := by
  have hi := inv_reachable hr
  refine ⟨?_, hi.acked, ?_, ?_⟩
  · intro i r hir k hk
    obtain ⟨hp, -, hle⟩ := hi.requests i r hir
    obtain ⟨m, hm, h1, h2, h3, h4⟩ := hp k (Nat.lt_of_lt_of_le hk hle)
    exact ⟨m, h1, h2, h3, h4, hi.kept m hm⟩
  · intro h hh
    obtain ⟨env, he, hraw, hp⟩ := (hi.rows h hh).payload
    exact ⟨env, he, hraw, fun tc now e hn => hp (isPoison_of_normalize hn)⟩
  · intro h hh
    exact (hi.rows h hh).tenant hw

/-! ## A run with one event -/

def sampleContext : TenantContext := { tenantId := bs "11111111-1111-4111-8111-111111111111" }

def samplePayload : Bytes := bs "\x7b\"message\":\"up\"\x7d"

/-- The encoder and the decoder at envelopes received at the start of 2026. -/
def sampleJson : EnvelopeJson :=
  { marshal := fun env =>
      if env.receivedAt = 1767225600000000000 then
        some (bs "\x7b\"tenant_id\":\"" ++ (env.tenantId ++ (bs "\",\"received_at\":\"2026-01-01T00:00:00Z\",\"raw\":"
          ++ (env.raw ++ bs "\x7d"))))
      else none
    unmarshal := fun body => some
      { tenantId := (body.drop 14).take 36
        receivedAt := 1767225600000000000
        raw := (body.drop 95).dropLast } }

def sampleDecoder : Decoder :=
  { object := fun raw => if raw = samplePayload then some [(bs "message", bs "\"up\"")] else none
    string := fun raw => if raw = bs "\"up\"" then some (bs "up") else none
    int64 := fun _ => none
    any := fun _ => none
    time := fun _ => none }

def sampleEnvelope : Envelope :=
  { tenantId := sampleContext.tenantId, receivedAt := 1767225600000000000, raw := samplePayload }

example : (sampleJson.marshal sampleEnvelope).bind sampleJson.unmarshal = some sampleEnvelope := by decide

theorem sampleJson_keepsTenant : sampleJson.KeepsTenant := by
  rintro env body env' hu hb ⟨⟩
  have hl : env.tenantId.length = 36 := by
    simp only [isUUID, Bool.and_eq_true, beq_iff_eq] at hu
    exact hu.1
  have hp : (bs "\x7b\"tenant_id\":\"").length = 14 := by decide
  simp only [sampleJson] at hb
  split at hb
  · obtain rfl := Option.some.inj hb
    rw [← hp]
    simp only [List.drop_left]
    rw [← hl]
    exact List.take_left
  · cases hb

def sampleMessage : Message sampleJson :=
  { req := 0
    index := 0
    tc := sampleContext
    env := sampleEnvelope
    body := (sampleJson.marshal sampleEnvelope).getD []
    valid := by decide +kernel
    tenant := rfl
    encoded := by decide +kernel }

theorem sample_published :
    publish sampleJson 0 0 sampleContext sampleEnvelope 0 = some sampleMessage := by decide

def sampleRow : Row :=
  { tenantId := ⟨[17, 17, 17, 17, 17, 17, 65, 17, 129, 17, 17, 17, 17, 17, 17, 17], rfl⟩
    ts := 1767225600000000
    id := ⟨List.replicate 16 0, rfl⟩
    service := []
    level := .info
    message := bs "up"
    labels := []
    traceId := none
    spanId := none
    raw := samplePayload }

def sampleEvent : LogEvent :=
  { tenantId := sampleContext.tenantId
    ts := 1767225600000000000
    id := []
    service := []
    level := .info
    message := bs "up"
    labels := []
    traceId := []
    spanId := []
    raw := samplePayload }

theorem sample_received :
    receive sampleJson sampleDecoder sampleMessage.body 0 = .persist (messageContext sampleEnvelope) sampleEvent 0 := by
  decide

theorem sample_row : insertRow (messageContext sampleEnvelope) sampleEvent 0 sampleRow.id = some sampleRow := by
  decide

theorem one_event_kept :
    ∃ s : Pipeline sampleJson, (system sampleDecoder fun _ => ⟨0, false⟩).Reachable s ∧
      (s.requests 0).map Request.phase = some (.answered (.accepted 1)) ∧ s.queue = [] ∧ s.unacked = [] ∧
      s.acked = [sampleMessage] ∧ ∃ h ∈ s.hot, h.source = sampleMessage ∧
        uuidIn h.source.tc.tenantId = some h.row.tenantId := by
  let S := system (w := sampleJson) sampleDecoder fun _ => ⟨0, false⟩
  let d : Delivery sampleJson := ⟨0, 0, sampleMessage⟩
  have h0 : S.Reachable .empty := .init rfl
  have hp : (Request.new (w := sampleJson) sampleContext [samplePayload] 1767225600000000000).phase = .publishing := by
    decide
  have h1 := h0.step (Or.inl (.arrive 0 sampleContext [samplePayload] 1767225600000000000 rfl))
  have h2 := h1.step (Or.inl (.send (i := 0) rfl hp rfl sample_published))
  have h3 := h2.step (Or.inr (Or.inl (.enqueue List.mem_cons_self)))
  have h4 := h3.step (Or.inr (Or.inl (.confirm (Or.inl List.mem_cons_self))))
  have h5 := h4.step (Or.inl (.published (i := 0) rfl rfl List.mem_cons_self))
  have h6 := h5.step (Or.inl (.accepted (i := 0) rfl rfl rfl))
  have h7 := h6.step (Or.inr (Or.inl (.deliver 0 List.mem_cons_self rfl)))
  have h8 := h7.step (Or.inr (Or.inr (.take (c := 0) (d := d) rfl List.mem_cons_self)))
  have h9 := h8.step (Or.inr (Or.inr (.receive (c := 0) (d := d) 0 rfl)))
  rw [show receive sampleJson sampleDecoder d.msg.body 0 = _ from sample_received] at h9
  have h10 := h9.step (Or.inr (Or.inr (.advance (c := 0) true rfl (by rintro ⟨h, -⟩; cases h))))
  have h11 := h10.step (Or.inr (Or.inr (.commit (c := 0) rfl sample_row List.not_mem_nil)))
  have h12 := h11.step (Or.inr (Or.inr (.advance (c := 0) true rfl (by rintro ⟨h, -⟩; cases h))))
  have h13 := h12.step (Or.inr (Or.inr (.advance (c := 0) true rfl (by rintro ⟨h, -⟩; cases h))))
  have h14 := h13.step (Or.inr (Or.inr (.ack (c := 0) (d := d) rfl List.mem_cons_self)))
  refine ⟨_, h14, rfl, ?_, ?_, rfl, ?_⟩
  · exact List.erase_cons_head sampleMessage []
  · exact List.erase_cons_head d []
  · have hk := confirmed_events_kept sampleJson_keepsTenant h14
    exact (hk.2.1 sampleMessage List.mem_cons_self).imp fun h hh => ⟨hh.1, hh.2, hk.2.2.2 h hh.1⟩

end Pipeline

end Logalot
