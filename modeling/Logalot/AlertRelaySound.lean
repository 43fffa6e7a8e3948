import Logalot.AlertsSound
import Logalot.Lib.History

/-!
# The relay

With one evaluator a row of the outbox is marked only after it was delivered. It
may be delivered after later rows of its rule, but only if it was tried before.
-/

namespace Logalot

open Go Pg History

def OutboxRow.Sent (row : OutboxRow) (n : Notification) : Prop :=
  row.id = n.id ∧ row.ruleId = n.ruleId ∧ row.transitionSeq = n.transitionSeq ∧ row.occurredAt = n.occurredAt

def OutboxRow.Precedes (row : OutboxRow) (n : Notification) : Prop :=
  row.ruleId = n.ruleId ∧ row.transitionSeq < n.transitionSeq ∧ row.occurredAt < n.occurredAt

/-! ## The snapshot of the outbox -/

theorem mapM_cons_some {α β : Type} {f : α → Option β} {a : α} {l : List α} {out : List β}
    (h : (a :: l).mapM f = some out) : ∃ b bs, f a = some b ∧ l.mapM f = some bs ∧ out = b :: bs := by
  simp only [List.mapM_cons, Option.bind_eq_bind, Option.bind_eq_some_iff, Option.pure_def, Option.some.injEq] at h
  obtain ⟨b, hb, bs, hbs, rfl⟩ := h
  exact ⟨b, bs, hb, hbs, rfl⟩

theorem map_eq_of_mapM {α β γ : Type} {f : α → Option β} {g : β → γ} {g' : α → γ}
    (hg : ∀ a b, f a = some b → g b = g' a) :
    ∀ {l : List α} {out : List β}, l.mapM f = some out → out.map g = l.map g'
  | [], out, h => by
    obtain rfl : [] = out := by simpa using h
    rfl
  | a :: l, out, h => by
    obtain ⟨b, bs, hb, hbs, rfl⟩ := mapM_cons_some h
    rw [List.map_cons, List.map_cons, hg a b hb, map_eq_of_mapM hg hbs]

theorem mapM_split {α β : Type} {f : α → Option β} {b : β} {q₂ : List β} :
    ∀ {q₁ : List β} {l : List α}, l.mapM f = some (q₁ ++ b :: q₂) →
      ∃ l₁ a l₂, l = l₁ ++ a :: l₂ ∧ f a = some b ∧ ∀ x ∈ l₁, ∃ y ∈ q₁, f x = some y
  | [], [], h => by simp at h
  | [], a :: l, h => by
    obtain ⟨c, bs, hc, -, he⟩ := mapM_cons_some h
    obtain ⟨rfl, -⟩ := List.cons.inj he
    exact ⟨[], a, l, rfl, hc, fun x hx => by cases hx⟩
  | y :: q₁, [], h => by simp at h
  | y :: q₁, a :: l, h => by
    obtain ⟨c, bs, hc, hbs, he⟩ := mapM_cons_some h
    obtain ⟨rfl, rfl⟩ := List.cons.inj he
    obtain ⟨l₁, x, l₂, rfl, hx, hl₁⟩ := mapM_split hbs
    refine ⟨a :: l₁, x, l₂, rfl, hx, ?_⟩
    intro z hz
    rcases List.mem_cons.mp hz with rfl | hz
    · exact ⟨y, List.mem_cons_self, hc⟩
    · obtain ⟨w, hw, hfw⟩ := hl₁ z hz
      exact ⟨w, List.mem_cons_of_mem _ hw, hfw⟩

theorem mem_pending {db : AlertDb} {p : OutboxRow × AlertRule} :
    p ∈ db.pending ↔ p.1 ∈ db.outbox ∧ p.1.dispatchedAt = none ∧
      db.rules.find? (fun r => r.id = p.1.ruleId) = some p.2 := by
  unfold AlertDb.pending
  rw [List.mem_filterMap]
  constructor
  · intro h
    obtain ⟨n, hn, h⟩ := h
    split at h
    · rename_i hd
      obtain ⟨r, hr, rfl⟩ := Option.map_eq_some_iff.mp h
      exact ⟨hn, hd, hr⟩
    · cases h
  · intro h
    obtain ⟨hn, hd, hr⟩ := h
    refine ⟨p.1, hn, ?_⟩
    rw [if_pos hd, hr]
    rfl

theorem nodup_pending (db : AlertDb) : (db.pending.map fun p => p.1.id).Nodup := by
  have hs : ∀ l : List OutboxRow, ((l.filterMap fun n =>
      if n.dispatchedAt = none then (db.rules.find? fun r => r.id = n.ruleId).map fun r => (n, r) else none).map
        fun p => p.1.id).Sublist (l.map OutboxRow.id) := by
    intro l
    induction l with
    | nil => exact .slnil
    | cons n l ih =>
      rw [List.filterMap_cons, List.map_cons]
      split
      · exact ih.cons _
      · rename_i p hp
        have he : p.1 = n := by
          split at hp
          · obtain ⟨r, -, rfl⟩ := Option.map_eq_some_iff.mp hp
            rfl
          · cases hp
        rw [List.map_cons, he]
        exact ih.cons_cons _
  exact (hs db.outbox).nodup db.nodup_outbox

theorem sent_of_scan {n : OutboxRow} {r : AlertRule} {m : Notification} (h : AlertDb.scanNotification r n = some m) :
    n.Sent m := by
  unfold AlertDb.scanNotification at h
  obtain ⟨c, -, rfl⟩ := Option.map_eq_some_iff.mp h
  exact ⟨rfl, rfl, rfl, rfl⟩

section ListPending

variable {db : AlertDb} {limit : Nat} {out : List Notification}

theorem sent_of_listsPending (h : db.ListsPending limit out) {n : Notification} (hn : n ∈ out) :
    ∃ row ∈ db.outbox, row.Sent n ∧ row.dispatchedAt = none := by
  obtain ⟨rows, ht, hm⟩ := h
  obtain ⟨q₁, q₂, rfl⟩ := List.append_of_mem hn
  obtain ⟨l₁, p, l₂, rfl, hp, -⟩ := mapM_split hm
  have hrow := mem_pending.mp (ht.mem (List.mem_append_right _ List.mem_cons_self))
  exact ⟨p.1, hrow.1, sent_of_scan hp, hrow.2.1⟩

theorem nodup_of_listsPending (h : db.ListsPending limit out) : (out.map Notification.id).Nodup := by
  obtain ⟨rows, ht, hm⟩ := h
  have he : out.map Notification.id = rows.map fun p => p.1.id :=
    map_eq_of_mapM (fun p n hs => (sent_of_scan hs).1.symm) hm
  rw [he]
  exact ht.nodup_map (nodup_pending db)

theorem before_of_listsPending (h : db.ListsPending limit out) {q₁ q₂ : List Notification} {b : Notification}
    (ho : out = q₁ ++ b :: q₂) {a : OutboxRow} (ha : a ∈ db.outbox) (hd : a.dispatchedAt = none)
    (hp : a.Precedes b) : ∃ n ∈ q₁, n.id = a.id := by
  obtain ⟨rows, ht, hm⟩ := h
  rw [ho] at hm
  obtain ⟨l₁, p, l₂, hrows, hs, hl₁⟩ := mapM_split hm
  have hsent := sent_of_scan hs
  have hmem : p ∈ rows := by
    rw [hrows]
    exact List.mem_append_right _ List.mem_cons_self
  obtain ⟨-, -, hrule⟩ := mem_pending.mp (ht.mem hmem)
  -- the rule of the later row is there to be joined with the earlier one too
  have ha' : (a, p.2) ∈ db.pending := by
    apply mem_pending.mpr
    refine ⟨ha, hd, ?_⟩
    rw [hp.1, ← hsent.2.1]
    exact hrule
  have hlt : a.occurredAt < p.1.occurredAt := by
    rw [hsent.2.2.2]
    exact hp.2.2
  have hne : (a, p.2) ≠ p := by
    intro he
    rw [← he] at hlt
    exact lt_irrefl _ hlt
  obtain ⟨n, hn, hsn⟩ := hl₁ (a, p.2) (ht.before hrows ha' hne (not_le_of_gt hlt))
  exact ⟨n, hn, (sent_of_scan hsn).1.symm⟩

end ListPending

/-! ## The state of the relay -/

structure Relay (outbox : List OutboxRow) (log : List AlertEvent) (p : EvalPhase) : Prop where
  known : ∀ n ok, .notified n ok ∈ log → ∃ row ∈ outbox, row.Sent n
  queued : ∀ n ∈ p.queue, ∃ row ∈ outbox, row.Sent n
  nodup : (p.queue.map Notification.id).Nodup
  unmarked : ∀ n ∈ p.queue, ∀ e ∈ log, e.mark n.id = false
  dispatched : ∀ row ∈ outbox, row.dispatchedAt ≠ none ↔ ∃ e ∈ log, e.mark row.id = true
  settled : Before (fun l e => ∀ id, e.attempt id = true → ∀ x ∈ l, x.mark id = false) log
  earned : Before (fun l e => ∀ id, e.mark id = true → ∃ x ∈ l, x.success id = true) log
  inHand : ∀ n, p.inHand = some n → ∃ e ∈ log, e.success n.id = true
  once : ∀ id, log.countP (AlertEvent.mark id) ≤ 1
  counted : ∀ id, log.countP (AlertEvent.success id) ≤ log.countP (AlertEvent.lapse id) +
    log.countP (AlertEvent.mark id) + if p.inHand.map Notification.id = some id then 1 else 0
  tried : Before (fun l e => ∀ b ok, e = .notified b ok → ∀ a ∈ outbox, a.Precedes b →
    ∃ x ∈ l, x.attempt a.id = true) log
  ahead : ∀ q₁ b q₂, p.queue = q₁ ++ b :: q₂ → ∀ a ∈ outbox, a.Precedes b →
    (∃ x ∈ log, x.attempt a.id = true) ∨ ∃ n ∈ q₁, n.id = a.id

namespace Relay

variable {outbox : List OutboxRow} {log : List AlertEvent} {p p' : EvalPhase} {n : Notification}
  {todo : List Notification}

theorem inHand_of_queue (h : p.queue = []) : p.inHand = none := by
  cases p with
  | delivered n todo => cases h
  | _ => rfl

theorem attempt_of_success {id : Uuid} {e : AlertEvent} (h : e.success id = true) : e.attempt id = true := by
  cases e with
  | notified n ok =>
    cases ok with
    | true => exact h
    | false => cases h
  | _ => cases h

theorem retire (h : Relay outbox log p) (hi : p.inHand = none) (hq : p'.queue = []) : Relay outbox log p' := by
  have hn : ∀ n, n ∉ p'.queue := by
    intro n hn
    rw [hq] at hn
    cases hn
  have hi' : p'.inHand = none := inHand_of_queue hq
  refine ⟨h.known, fun n hm => absurd hm (hn n), ?_, fun n hm => absurd hm (hn n), h.dispatched, h.settled, h.earned,
    ?_, h.once, ?_, h.tried, ?_⟩
  · rw [hq]
    exact List.nodup_nil
  · intro n hc
    rw [hi'] at hc
    cases hc
  · intro id
    have hc := h.counted id
    rw [hi] at hc
    rw [hi']
    exact hc
  · intro q₁ b q₂ hs
    refine absurd ?_ (hn b)
    rw [hs]
    exact List.mem_append_right _ List.mem_cons_self

theorem insert (h : Relay outbox log p) (hq : p.queue = []) {row : OutboxRow} (hd : row.dispatchedAt = none)
    (hid : ∀ n ∈ outbox, n.id ≠ row.id)
    (hseq : ∀ n ∈ outbox, n.ruleId = row.ruleId → n.transitionSeq < row.transitionSeq) :
    Relay (outbox ++ [row]) log p := by
  have hn : ∀ n, n ∉ p.queue := by
    intro n hn
    rw [hq] at hn
    cases hn
  have hmark : ∀ e ∈ log, e.mark row.id ≠ true := by
    intro e he hm
    obtain ⟨l₁, l₂, rfl⟩ := List.append_of_mem he
    obtain ⟨x, hx, hs⟩ := h.earned l₁ e l₂ rfl row.id hm
    cases x with
    | notified n ok =>
      obtain ⟨row', hr', hsent⟩ := h.known n ok (List.mem_append_left _ hx)
      have ha : n.id = row.id := by simpa [AlertEvent.attempt] using attempt_of_success hs
      exact hid row' hr' (hsent.1.trans ha)
    | _ => cases hs
  refine ⟨?_, fun n hm => absurd hm (hn n), h.nodup, h.unmarked, ?_, h.settled, h.earned, h.inHand, h.once, h.counted,
    ?_, ?_⟩
  · intro n ok he
    obtain ⟨r, hr, hs⟩ := h.known n ok he
    exact ⟨r, List.mem_append_left _ hr, hs⟩
  · intro r hr
    rcases List.mem_append.mp hr with hr | hr
    · exact h.dispatched r hr
    · obtain rfl := List.mem_singleton.mp hr
      refine ⟨fun hc => absurd hd hc, ?_⟩
      intro hc
      obtain ⟨e, he, hm⟩ := hc
      exact absurd hm (hmark e he)
  · refine h.tried.mono ?_
    intro l₁ e _ hel hP b ok he a ha hp
    rcases List.mem_append.mp ha with ha | ha
    · exact hP b ok he a ha hp
    · -- the new row is behind every row that was tried
      obtain rfl := List.mem_singleton.mp ha
      rw [he] at hel
      obtain ⟨r, hr, hs⟩ := h.known b ok hel
      have hlt := hseq r hr (hs.2.1.trans hp.1.symm)
      have hlt' := hp.2.1
      rw [← hs.2.2.1] at hlt'
      omega
  · intro q₁ b q₂ hs
    refine absurd ?_ (hn b)
    rw [hs]
    exact List.mem_append_right _ List.mem_cons_self

theorem list {db : AlertDb} {limit : Nat} (h : Relay db.outbox log p) (hq : p.queue = [])
    (hl : db.ListsPending limit todo) : Relay db.outbox log (.dispatching todo) := by
  have hi : p.inHand = none := inHand_of_queue hq
  refine ⟨h.known, ?_, nodup_of_listsPending hl, ?_, h.dispatched, h.settled, h.earned, ?_, h.once, ?_, h.tried, ?_⟩
  · intro n hn
    obtain ⟨row, hr, hs, -⟩ := sent_of_listsPending hl hn
    exact ⟨row, hr, hs⟩
  · intro n hn e he
    obtain ⟨row, hr, hs, hd⟩ := sent_of_listsPending hl hn
    by_contra hm
    refine (h.dispatched row hr).mpr ⟨e, he, ?_⟩ hd
    rw [hs.1]
    simpa using hm
  · intro n hc
    cases hc
  · intro id
    have hc := h.counted id
    rw [hi] at hc
    exact hc
  · intro q₁ b q₂ hs a ha hp
    by_cases hd : a.dispatchedAt = none
    · exact Or.inr (before_of_listsPending hl hs ha hd hp)
    · obtain ⟨e, he, hm⟩ := (h.dispatched a ha).mp hd
      obtain ⟨l₁, l₂, rfl⟩ := List.append_of_mem he
      obtain ⟨x, hx, hsx⟩ := h.earned l₁ e l₂ rfl a.id hm
      exact Or.inl ⟨x, List.mem_append_left _ hx, attempt_of_success hsx⟩

theorem exists_mark_append {e : AlertEvent} (he : ∀ id, e.mark id = false) (id : Uuid) :
    (∃ x ∈ log ++ [e], x.mark id = true) ↔ ∃ x ∈ log, x.mark id = true := by
  constructor
  · intro h
    obtain ⟨x, hx, hm⟩ := h
    rcases List.mem_append.mp hx with hx | hx
    · exact ⟨x, hx, hm⟩
    · obtain rfl := List.mem_singleton.mp hx
      rw [he] at hm
      cases hm
  · exact exists_mem_append

theorem inert (h : Relay outbox log p) {e : AlertEvent} (ha : ∀ id, e.attempt id = false)
    (hm : ∀ id, e.mark id = false) : Relay outbox (log ++ [e]) p := by
  have hs : ∀ id, e.success id ≠ true := by
    intro id hc
    have := attempt_of_success hc
    rw [ha] at this
    cases this
  have hne : ∀ b ok, e ≠ .notified b ok := by
    intro b ok he
    have hb := ha b.id
    simp [he, AlertEvent.attempt] at hb
  refine ⟨?_, h.queued, h.nodup, ?_, ?_, ?_, ?_, ?_, ?_, ?_, ?_, ?_⟩
  · intro n ok hx
    rcases List.mem_append.mp hx with hx | hx
    · exact h.known n ok hx
    · exact absurd (List.mem_singleton.mp hx).symm (hne n ok)
  · intro n hn x hx
    rcases List.mem_append.mp hx with hx | hx
    · exact h.unmarked n hn x hx
    · rw [List.mem_singleton.mp hx]
      exact hm n.id
  · intro row hr
    rw [exists_mark_append hm]
    exact h.dispatched row hr
  · refine h.settled.append ?_
    intro id hc
    rw [ha] at hc
    cases hc
  · refine h.earned.append ?_
    intro id hc
    rw [hm] at hc
    cases hc
  · intro n hn
    exact exists_mem_append (h.inHand n hn)
  · intro id
    rw [List.countP_append, List.countP_singleton, hm]
    exact h.once id
  · intro id
    have hsucc : (log ++ [e]).countP (AlertEvent.success id) = log.countP (AlertEvent.success id) := by
      rw [List.countP_append, List.countP_singleton, if_neg (hs id), Nat.add_zero]
    have hmark : (log ++ [e]).countP (AlertEvent.mark id) = log.countP (AlertEvent.mark id) := by
      rw [List.countP_append, List.countP_singleton, hm, if_neg Bool.false_ne_true, Nat.add_zero]
    have hlapse : log.countP (AlertEvent.lapse id) ≤ (log ++ [e]).countP (AlertEvent.lapse id) := by
      rw [List.countP_append]
      exact Nat.le_add_right ..
    rw [hsucc, hmark]
    exact (h.counted id).trans (Nat.add_le_add_right (Nat.add_le_add_right hlapse _) _)
  · refine h.tried.append ?_
    intro b ok he
    exact absurd he (hne b ok)
  · intro q₁ b q₂ hq a ha' hp
    rcases h.ahead q₁ b q₂ hq a ha' hp with hx | hx
    · exact Or.inl (exists_mem_append hx)
    · exact Or.inr hx

theorem notify (h : Relay outbox log (.dispatching (n :: todo))) (ok : Bool) :
    Relay outbox (log ++ [.notified n ok]) (if ok then .delivered n todo else .dispatching todo) := by
  have hsub : ∀ m ∈ (if ok then EvalPhase.delivered n todo else .dispatching todo).queue, m ∈ n :: todo := by
    intro m hm
    cases ok with
    | true => exact hm
    | false => exact List.mem_cons_of_mem _ hm
  have hm : ∀ id, (AlertEvent.notified n ok).mark id = false := fun id => rfl
  refine ⟨?_, fun m hm => h.queued m (hsub m hm), ?_, ?_, ?_, ?_, ?_, ?_, ?_, ?_, ?_, ?_⟩
  · intro m ok' hx
    rcases List.mem_append.mp hx with hx | hx
    · exact h.known m ok' hx
    · obtain ⟨rfl, -⟩ := AlertEvent.notified.inj (List.mem_singleton.mp hx)
      exact h.queued m List.mem_cons_self
  · cases ok with
    | true => exact h.nodup
    | false => exact (List.nodup_cons.mp h.nodup).2
  · intro m hmq x hx
    rcases List.mem_append.mp hx with hx | hx
    · exact h.unmarked m (hsub m hmq) x hx
    · rw [List.mem_singleton.mp hx]
      rfl
  · intro row hr
    rw [exists_mark_append hm]
    exact h.dispatched row hr
  · refine h.settled.append ?_
    intro id ha x hx
    obtain rfl : n.id = id := by simpa [AlertEvent.attempt] using ha
    exact h.unmarked n List.mem_cons_self x hx
  · refine h.earned.append ?_
    intro id hc
    cases hc
  · intro m hi
    cases ok with
    | true =>
      obtain rfl : n = m := Option.some.inj hi
      exact exists_mem_concat (by simp [AlertEvent.success])
    | false => cases hi
  · intro id
    rw [List.countP_append, List.countP_singleton, hm]
    exact h.once id
  · intro id
    have hc := h.counted id
    simp only [EvalPhase.inHand, Option.map_none, reduceCtorEq, if_false, Nat.add_zero] at hc
    simp only [List.countP_append, List.countP_singleton]
    cases ok with
    | true =>
      by_cases e : n.id = id
      · simp [AlertEvent.success, AlertEvent.mark, AlertEvent.lapse, EvalPhase.inHand, e]
        exact hc
      · simp [AlertEvent.success, AlertEvent.mark, AlertEvent.lapse, EvalPhase.inHand, e]
        exact hc
    | false =>
      simp [AlertEvent.success, AlertEvent.mark, AlertEvent.lapse, EvalPhase.inHand]
      exact hc
  · refine h.tried.append ?_
    intro b ok' he a ha hp
    obtain ⟨rfl, -⟩ := AlertEvent.notified.inj he
    rcases h.ahead [] n todo rfl a ha hp with hx | ⟨m, hm, -⟩
    · exact hx
    · cases hm
  · intro q₁ b q₂ hq a ha hp
    have hnew : n.id = a.id → ∃ x ∈ log ++ [AlertEvent.notified n ok], x.attempt a.id = true := by
      intro e
      exact exists_mem_concat (by simp [AlertEvent.attempt, e])
    cases ok with
    | true =>
      rcases h.ahead q₁ b q₂ hq a ha hp with hx | hx
      · exact Or.inl (exists_mem_append hx)
      · exact Or.inr hx
    | false =>
      have hq' : n :: todo = (n :: q₁) ++ b :: q₂ := congrArg (n :: ·) hq
      rcases h.ahead (n :: q₁) b q₂ hq' a ha hp with hx | ⟨m, hm, he⟩
      · exact Or.inl (exists_mem_append hx)
      · rcases List.mem_cons.mp hm with rfl | hm
        · exact Or.inl (hnew he)
        · exact Or.inr ⟨m, hm, he⟩

theorem inHand_delivered {id : Uuid} :
    (EvalPhase.delivered n todo).inHand.map Notification.id = some id ↔ n.id = id := by
  simp [EvalPhase.inHand]

theorem lapse (h : Relay outbox log (.delivered n todo)) {e : AlertEvent}
    (he : e = .markFailed n ∨ e = .crashed (some n)) : Relay outbox (log ++ [e]) (.dispatching todo) := by
  have ha : ∀ id, e.attempt id = false := by
    intro id
    rcases he with rfl | rfl <;> rfl
  have hm : ∀ id, e.mark id = false := by
    intro id
    rcases he with rfl | rfl <;> rfl
  have hl : ∀ id, e.lapse id = decide (n.id = id) := by
    intro id
    rcases he with rfl | rfl <;> rfl
  have h' := h.inert ha hm
  refine ⟨h'.known, fun m hm => h'.queued m (List.mem_cons_of_mem _ hm), (List.nodup_cons.mp h'.nodup).2,
    fun m hm => h'.unmarked m (List.mem_cons_of_mem _ hm), h'.dispatched, h'.settled, h'.earned, ?_, h'.once, ?_,
    h'.tried, ?_⟩
  · intro m hc
    cases hc
  · intro id
    have hc := h.counted id
    have hs : e.success id ≠ true := by
      intro hc
      have := attempt_of_success hc
      rw [ha] at this
      cases this
    simp only [inHand_delivered] at hc
    rw [List.countP_append, List.countP_append, List.countP_append, List.countP_singleton, List.countP_singleton,
      List.countP_singleton, if_neg hs, hm, hl]
    simp only [EvalPhase.inHand, decide_eq_true_eq, Bool.false_eq_true, if_false, Option.map_none, reduceCtorEq]
    omega
  · intro q₁ b q₂ hq a ha' hp
    have hq' : n :: todo = (n :: q₁) ++ b :: q₂ := congrArg (n :: ·) hq
    rcases h'.ahead (n :: q₁) b q₂ hq' a ha' hp with hx | ⟨m, hmq, hid⟩
    · exact Or.inl hx
    · rcases List.mem_cons.mp hmq with hmn | hmq
      · obtain ⟨x, hx, hs⟩ := h'.inHand n rfl
        rw [← hmn, hid] at hs
        exact Or.inl ⟨x, hx, attempt_of_success hs⟩
      · exact Or.inr ⟨m, hmq, hid⟩

def dispatch (n : Notification) (now : Time) (row : OutboxRow) : OutboxRow :=
  if row.id = n.id then { row with dispatchedAt := some now } else row

theorem dispatch_id (n : Notification) (now : Time) (row : OutboxRow) : (dispatch n now row).id = row.id := by
  unfold dispatch
  split <;> rfl

theorem sent_dispatch {now : Time} {row : OutboxRow} {m : Notification} :
    (dispatch n now row).Sent m ↔ row.Sent m := by
  unfold dispatch
  split <;> rfl

theorem precedes_dispatch {now : Time} {row : OutboxRow} {m : Notification} :
    (dispatch n now row).Precedes m ↔ row.Precedes m := by
  unfold dispatch
  split <;> rfl

theorem exists_dispatch {now : Time} {m : Notification} (h : ∃ row ∈ outbox, row.Sent m) :
    ∃ row ∈ outbox.map (dispatch n now), row.Sent m := by
  obtain ⟨row, hr, hs⟩ := h
  exact ⟨_, List.mem_map_of_mem hr, sent_dispatch.mpr hs⟩

theorem marked (h : Relay outbox log (.delivered n todo)) (now : Time) :
    Relay (outbox.map (dispatch n now)) (log ++ [.marked n]) (.dispatching todo) := by
  have hne : ∀ m ∈ todo, n.id ≠ m.id := by
    intro m hm he
    apply (List.nodup_cons.mp h.nodup).1
    rw [he]
    exact List.mem_map_of_mem hm
  have hattempt : ∃ x ∈ log, x.attempt n.id = true := by
    obtain ⟨x, hx, hs⟩ := h.inHand n rfl
    exact ⟨x, hx, attempt_of_success hs⟩
  have hmark : ∀ id, (log ++ [AlertEvent.marked n]).countP (AlertEvent.mark id) =
      log.countP (AlertEvent.mark id) + if n.id = id then 1 else 0 := by
    intro id
    simp [List.countP_append, List.countP_singleton, AlertEvent.mark]
  refine ⟨?_, fun m hm => exists_dispatch (h.queued m (List.mem_cons_of_mem _ hm)), (List.nodup_cons.mp h.nodup).2, ?_,
    ?_, ?_, ?_, ?_, ?_, ?_, ?_, ?_⟩
  · intro m ok hx
    rcases List.mem_append.mp hx with hx | hx
    · exact exists_dispatch (h.known m ok hx)
    · cases List.mem_singleton.mp hx
  · intro m hm x hx
    rcases List.mem_append.mp hx with hx | hx
    · exact h.unmarked m (List.mem_cons_of_mem _ hm) x hx
    · rw [List.mem_singleton.mp hx]
      simp [AlertEvent.mark, hne m hm]
  · intro _ hm
    obtain ⟨row, hr, rfl⟩ := List.mem_map.mp hm
    rw [dispatch_id]
    by_cases e : row.id = n.id
    · constructor
      · intro _
        exact exists_mem_concat (by simp [AlertEvent.mark, e])
      · intro _
        simp [dispatch, e]
    · have hd : dispatch n now row = row := if_neg e
      rw [hd, h.dispatched row hr]
      constructor
      · exact exists_mem_append
      · intro hc
        obtain ⟨x, hx, hm⟩ := hc
        rcases List.mem_append.mp hx with hx | hx
        · exact ⟨x, hx, hm⟩
        · rw [List.mem_singleton.mp hx] at hm
          exact absurd (by simpa [AlertEvent.mark] using hm) (Ne.symm e)
  · refine h.settled.append ?_
    intro id hc
    cases hc
  · refine h.earned.append ?_
    intro id hc
    obtain rfl : n.id = id := by simpa [AlertEvent.mark] using hc
    exact h.inHand n rfl
  · intro m hc
    cases hc
  · intro id
    rw [hmark]
    by_cases e : n.id = id
    · -- the row in hand was not marked before
      have h0 : log.countP (AlertEvent.mark id) = 0 := by
        rw [List.countP_eq_zero]
        intro x hx
        rw [← e, h.unmarked n List.mem_cons_self x hx]
        exact Bool.false_ne_true
      simp [h0, e]
    · simp [e]
      exact h.once id
  · intro id
    have hc := h.counted id
    simp only [inHand_delivered] at hc
    rw [hmark]
    simp only [List.countP_append, List.countP_singleton, AlertEvent.success, AlertEvent.lapse, EvalPhase.inHand,
      Option.map_none, reduceCtorEq, Bool.false_eq_true, if_false]
    omega
  · refine Before.append (h.tried.mono ?_) ?_
    · intro l₁ e _ _ hP b ok he a ha hp
      obtain ⟨row, hr, rfl⟩ := List.mem_map.mp ha
      rw [dispatch_id]
      exact hP b ok he row hr (precedes_dispatch.mp hp)
    · intro b ok he
      cases he
  · intro q₁ b q₂ hq a ha hp
    obtain ⟨row, hr, rfl⟩ := List.mem_map.mp ha
    rw [dispatch_id]
    have hq' : n :: todo = (n :: q₁) ++ b :: q₂ := congrArg (n :: ·) hq
    rcases h.ahead (n :: q₁) b q₂ hq' row hr (precedes_dispatch.mp hp) with hx | ⟨m, hm, he⟩
    · exact Or.inl (exists_mem_append hx)
    · rcases List.mem_cons.mp hm with rfl | hm
      · rw [← he]
        exact Or.inl (exists_mem_append hattempt)
      · exact Or.inr ⟨m, hm, he⟩

theorem unmarked_inHand (h : Relay outbox log p) (hi : p.inHand = some n) : log.countP (AlertEvent.mark n.id) = 0 := by
  rw [List.countP_eq_zero]
  intro e he
  cases p with
  | delivered m todo =>
    obtain rfl := Option.some.inj hi
    simp [h.unmarked m List.mem_cons_self e he]
  | _ => cases hi

theorem success_le (h : Relay outbox log p) (id : Uuid) :
    log.countP (AlertEvent.success id) ≤ 1 + log.countP (AlertEvent.lapse id) := by
  have hc := h.counted id
  have ho := h.once id
  split at hc
  · rename_i hi
    obtain ⟨n, hn, rfl⟩ := Option.map_eq_some_iff.mp hi
    have hz := h.unmarked_inHand hn
    omega
  · omega

end Relay

/-! ## Runs of one evaluator -/

namespace AlertRun

variable {cfg : EvaluatorConfig} {s t : AlertRun}

theorem relay_transition {p : EvalPhase} (hc : s.Consistent) (h : Relay s.db.outbox s.log p) (hq : p.queue = [])
    {i : TransitionInput} {id : Uuid} {clock : Time} {db : AlertDb} (ht : s.db.transition i id clock = some db) :
    Relay db.outbox s.log p := by
  obtain ⟨r, hr, hid, -, hfresh, -, hout⟩ := transition_cases ht
  rw [hout]
  apply h.insert hq
  · rfl
  · exact hfresh
  · intro n hn hrule
    have hm : n.entry ∈ s.db.history r.id := by
      apply List.mem_map_of_mem
      rw [AlertDb.rowsOf, List.mem_filter]
      exact ⟨hn, decide_eq_true (hrule.trans hid.symm)⟩
    have hle := (hc.numbered r hr).le hm
    exact Nat.lt_succ_of_le hle

theorem relay_step (hc : s.Consistent) (hs : Relay s.db.outbox s.log (s.replicas 0)) (h : Step cfg 0 s t) :
    Relay t.db.outbox t.log (t.replicas 0) := by
  -- Before and after the pass nothing is in hand and nothing is queued.
  have hretire : ∀ {p q : EvalPhase}, s.replicas 0 = p → p.inHand = none → q.queue = [] →
      Relay s.db.outbox s.log ((s.setPhase 0 q).replicas 0) := by
    intro p q hp hi hq
    rw [setPhase_self]
    exact hs.retire (hp ▸ hi) hq
  cases h with
  | listDue hp hl => exact hretire hp rfl rfl
  | skip now hp he => exact hretire hp rfl rfl
  | count now n hp he =>
    refine hretire hp rfl ?_
    unfold afterCount
    simp only
    split <;> rfl
  | countFails hp => exact hretire hp rfl rfl
  | markEvaluated hp => exact hretire hp rfl rfl
  | markEvaluatedFails hp => exact hretire hp rfl rfl
  | transition hp ht =>
    rw [setPhase_self]
    rw [hp] at hs
    exact (relay_transition hc hs rfl ht).retire rfl rfl
  | transitionFails hp => exact hretire hp rfl rfl
  | listPending hp hl =>
    rw [setPhase_self]
    rw [hp] at hs
    exact hs.list rfl hl
  | listPendingFails hp => exact hretire hp rfl rfl
  | notify ok hp =>
    rw [setPhase_self]
    rw [hp] at hs
    exact hs.notify ok
  | markDispatched now hp =>
    rw [setPhase_self]
    rw [hp] at hs
    exact hs.marked now
  | markDispatchedFails hp =>
    rw [setPhase_self]
    rw [hp] at hs
    exact hs.lapse (Or.inl rfl)
  | rest hp => exact hretire hp rfl rfl
  | crash =>
    rw [setPhase_self]
    cases hp : s.replicas 0 with
    | delivered n todo =>
      rw [hp] at hs
      have hlog : s.log ++ [.crashed (EvalPhase.delivered n todo).inHand] = s.log ++ [.crashed (some n)] := rfl
      simp only [record, setPhase, hlog]
      exact (hs.lapse (Or.inr rfl)).retire rfl rfl
    | _ =>
      rw [hp] at hs
      simp only [record, setPhase]
      exact (hs.inert (fun _ => rfl) fun _ => rfl).retire rfl rfl

theorem Fresh.relay (h : s.Fresh) : Relay s.db.outbox s.log (s.replicas 0) := by
  obtain ⟨-, ho, hp, hl⟩ := h
  rw [ho, hp, hl]
  refine ⟨?_, ?_, List.nodup_nil, ?_, ?_, before_nil, before_nil, ?_, ?_, ?_, before_nil, ?_⟩
  · intro n ok hx
    cases hx
  · intro n hn
    cases hn
  · intro n hn
    cases hn
  · intro row hr
    cases hr
  · intro n hn
    cases hn
  · intro id
    exact Nat.zero_le _
  · intro id
    exact Nat.zero_le _
  · intro q₁ b q₂ hq a ha
    cases ha

theorem relay_reachable (hr : (single cfg).Reachable s) :
    s.Consistent ∧ Relay s.db.outbox s.log (s.replicas 0) := by
  apply hr.invariant (P := fun s => s.Consistent ∧ Relay s.db.outbox s.log (s.replicas 0))
  · intro s hs
    exact ⟨hs.consistent, hs.relay⟩
  · intro s t _ hs h
    rcases h with h | h
    · exact ⟨hs.1.step h, relay_step hs.1 hs.2 h⟩
    · refine ⟨hs.1.edit h, ?_⟩
      obtain ⟨f, hf, -, rfl⟩ := h
      exact hs.2

theorem exists_pending {db : AlertDb} (h : db.Owned) {row : OutboxRow} (hm : row ∈ db.outbox)
    (hd : row.dispatchedAt = none) : ∃ r, (row, r) ∈ db.pending := by
  cases hf : db.rules.find? fun r => r.id = row.ruleId with
  | some r => exact ⟨r, mem_pending.mpr ⟨hm, hd, hf⟩⟩
  | none =>
    obtain ⟨r, hr, he⟩ := List.mem_map.mp (h row hm)
    have hne := List.find?_eq_none.mp hf r hr
    exact absurd (decide_eq_true he) hne

/-- **At least once.** A row that is no longer pending was delivered before it was marked; once it is marked the
notifier is not called for it; and it is delivered once more at most for each time that a delivery was not followed by
its mark. -/
theorem delivered_then_marked (hr : (single cfg).Reachable s) :
    (∀ row ∈ s.db.outbox, (∃ r, (row, r) ∈ s.db.pending) ∨
        ∃ l₁ n l₂, s.log = l₁ ++ .marked n :: l₂ ∧ n.id = row.id ∧ ∃ e ∈ l₁, e.success row.id = true) ∧
      (∀ l₁ n l₂, s.log = l₁ ++ .marked n :: l₂ → ∀ e ∈ l₂, e.attempt n.id = false) ∧
      ∀ id, s.log.countP (AlertEvent.success id) ≤ 1 + s.log.countP (AlertEvent.lapse id) := by
  obtain ⟨hc, h⟩ := relay_reachable hr
  refine ⟨?_, ?_, ?_⟩
  · intro row hm
    by_cases hd : row.dispatchedAt = none
    · exact Or.inl (exists_pending hc.owned hm hd)
    · obtain ⟨e, he, hmark⟩ := (h.dispatched row hm).mp hd
      obtain ⟨l₁, l₂, hl⟩ := List.append_of_mem he
      have hx := h.earned l₁ e l₂ hl row.id hmark
      cases e with
      | marked n => exact Or.inr ⟨l₁, n, l₂, hl, by simpa [AlertEvent.mark] using hmark, hx⟩
      | _ => cases hmark
  · intro l₁ n l₂ hl e he
    by_contra ha
    obtain ⟨k₁, k₂, rfl⟩ := List.append_of_mem he
    have hb := h.settled (l₁ ++ .marked n :: k₁) e k₂ (by rw [hl]; simp) n.id (by simpa using ha) (.marked n) (by simp)
    simp [AlertEvent.mark] at hb
  · intro id
    exact h.success_le id

/-- **Order of delivery.** A notification is delivered after a later one of its rule only if the notifier had failed
for it before the later one was delivered, or if it was delivered before and not marked. -/
theorem overtaken_after_failure (hr : (single cfg).Reachable s) {l₁ l₂ : List AlertEvent} {a b : Notification}
    (hl : s.log = l₁ ++ .notified b true :: l₂) (ha : .notified a true ∈ l₂) (hrule : a.ruleId = b.ruleId)
    (hseq : a.transitionSeq < b.transitionSeq) (hat : a.occurredAt < b.occurredAt) :
    (∃ n, n.id = a.id ∧ .notified n false ∈ l₁) ∨ ∃ e ∈ s.log, e.lapse a.id = true := by
  obtain ⟨-, h⟩ := relay_reachable hr
  have hmem : .notified a true ∈ s.log := by
    rw [hl]
    exact List.mem_append_right _ (List.mem_cons_of_mem _ ha)
  obtain ⟨row, hrow, hs⟩ := h.known a true hmem
  have hp : row.Precedes b := by
    refine ⟨hs.2.1.trans hrule, ?_, ?_⟩
    · rw [hs.2.2.1]
      exact hseq
    · rw [hs.2.2.2]
      exact hat
  obtain ⟨e, he, hatt⟩ := h.tried l₁ (.notified b true) l₂ hl b true rfl row hrow hp
  rw [hs.1] at hatt
  cases e with
  | notified n ok =>
    have hid : n.id = a.id := by simpa [AlertEvent.attempt] using hatt
    cases ok with
    | false => exact Or.inl ⟨n, hid, he⟩
    | true =>
      -- then it was delivered twice
      right
      have hle := h.success_le a.id
      have h1 : 0 < l₁.countP (AlertEvent.success a.id) :=
        List.countP_pos_iff.mpr ⟨_, he, by simpa [AlertEvent.success] using hid⟩
      have h2 : 0 < l₂.countP (AlertEvent.success a.id) :=
        List.countP_pos_iff.mpr ⟨_, ha, by simp [AlertEvent.success]⟩
      have hn : 0 < s.log.countP (AlertEvent.lapse a.id) := by
        rw [hl, List.countP_append, List.countP_cons] at hle
        rw [hl]
        omega
      exact List.countP_pos_iff.mp hn
  | _ => cases hatt

/-! ## A run -/

theorem sampleResolved_pending :
    sampleResolved.ListsPending sampleConfig.new.batchSize.toNat [sampleOpened, sampleClosed] := by
  refine ⟨[(sampleRow 1 .firing 3 11, sampleQuiet), (sampleRow 2 .ok 0 13, sampleQuiet)], ⟨_, .refl _, ?_, rfl⟩, rfl⟩
  exact List.pairwise_pair.mpr (by decide)

def sampleClosedDb : AlertDb := sampleResolved.markDispatched sampleClosed 14

theorem sampleClosedDb_due : sampleClosedDb.ListsDue (fun _ _ => none) (14 - sampleConfig.new.interval)
    sampleConfig.new.batchSize.toNat [] :=
  ⟨[], [], ⟨[], .refl _, .nil, rfl⟩, rfl, rfl⟩

theorem sampleClosedDb_pending : sampleClosedDb.ListsPending sampleConfig.new.batchSize.toNat [sampleOpened] :=
  ⟨_, ⟨_, .refl _, List.pairwise_singleton _ _, rfl⟩, rfl⟩

/-- The notifier fails twice for the first row and not for the second. -/
def sampleLog : List AlertEvent :=
  [.notified sampleOpened false, .notified sampleOpened false, .notified sampleClosed true, .marked sampleClosed,
    .notified sampleOpened true, .marked sampleOpened]

def sampleEnd : AlertRun := alone (sampleClosedDb.markDispatched sampleOpened 15) (.dispatching []) sampleLog

theorem sampleEnd_reachable : (single sampleConfig).Reachable sampleEnd := by
  have hd : decideState 0 .gt (.fin 0) = .ok := by decide
  have h1 := (sampleFired_run.trans (listPending_run sampleFired_pending)).trans (notifyFails_run.trans rest_run)
  have h2 := (h1.trans (transition_run sampleFired_due rfl hd (by decide) sampleFired_transition)).trans
    (listPending_run sampleResolved_pending)
  have h3 := h2.trans (notifyFails_run.trans ((notify_run 14).trans rest_run))
  have h4 := h3.trans ((idle_run sampleClosedDb_due).trans (listPending_run sampleClosedDb_pending))
  have h5 := h4.trans (notify_run 15)
  refine (Runs.System.Reachable.init sampleStart_fresh).steps ?_
  exact Relation.ReflTransGen.mono (fun _ _ h => Or.inl h) _ _ h5

/-- The notifications of a rule in the order in which they were delivered. -/
def deliveries (s : AlertRun) (ruleId : Uuid) : List Notification :=
  s.log.filterMap fun e =>
    match e with
    | .notified n true => if n.ruleId = ruleId then some n else none
    | _ => none

/-- The rule is said to have resolved, and then to have fired. -/
theorem resolved_delivered_first : ∃ s, (single sampleConfig).Reachable s ∧
    (s.deliveries sampleRule.id).map (fun n => (n.transitionSeq, n.toState)) = [(2, .ok), (1, .firing)] :=
  ⟨sampleEnd, sampleEnd_reachable, by decide⟩

/-- The first row was overtaken after the notifier had failed for it. -/
theorem opened_overtaken : (single sampleConfig).Reachable sampleEnd ∧
    ((∃ n, n.id = sampleOpened.id ∧ .notified n false ∈ sampleLog.take 2) ∨
      ∃ e ∈ sampleEnd.log, e.lapse sampleOpened.id = true) := by
  have hl : sampleEnd.log = sampleLog.take 2 ++ .notified sampleClosed true :: sampleLog.drop 3 := rfl
  exact ⟨sampleEnd_reachable,
    overtaken_after_failure sampleEnd_reachable hl (by decide) rfl (by decide) (by decide)⟩

theorem sample_delivered_then_marked : (single sampleConfig).Reachable sampleEnd ∧
    sampleEnd.log.countP (AlertEvent.success sampleOpened.id) ≤
      1 + sampleEnd.log.countP (AlertEvent.lapse sampleOpened.id) :=
  ⟨sampleEnd_reachable, (delivered_then_marked sampleEnd_reachable).2.2 sampleOpened.id⟩

end AlertRun

end Logalot
