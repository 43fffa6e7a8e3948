import Logalot.Invites

/-!
# The cap on outstanding invites

A call of `create` counts the pending invites in one transaction and inserts its
own in another. `pending_le`: if at most `k` calls of a tenant are between the two
at any time, it has at most `k - 1` pending invites more than the cap.
-/

namespace Logalot.Invites

open Go Pg

variable {config : InviteConfig} {deps : InviteDeps} {tenantId : Uuid} {c : CreateCall} {s : State}

def CreatePhase.isInsert : CreatePhase → Bool
  | .insert _ => true
  | _ => false

def CreateCall.counted (tenantId : Uuid) (c : CreateCall) : Bool := c.tenantId = tenantId && c.phase.isInsert

def counted (tenantId : Uuid) (s : State) : Nat := s.calls.countP (CreateCall.counted tenantId)

/-! ## Counting -/

theorem countP_setCall {α : Type} {p : α → Bool} {l : List α} {i : Nat} {a b : α} (h : l[i]? = some a) :
    (l.set i b).countP p + (if p a then 1 else 0) = l.countP p + if p b then 1 else 0 := by
  obtain ⟨hi, ha⟩ := List.getElem?_eq_some_iff.mp h
  have hpos : p a = true → 0 < l.countP p := by
    intro hp
    exact List.countP_pos_iff.mpr ⟨a, List.mem_of_getElem? h, hp⟩
  rw [List.countP_set hi, ha]
  by_cases hp : p a = true
  · have := hpos hp
    simp only [hp, if_true]
    omega
  · simp only [hp, if_false, Bool.false_eq_true]
    omega

theorem counted_of_insert {publicId : Bytes} (h : c.phase = .insert publicId) :
    c.counted tenantId = decide (c.tenantId = tenantId) := by
  simp [CreateCall.counted, CreatePhase.isInsert, h]

theorem not_counted (h : ∀ publicId, c.phase ≠ .insert publicId) : c.counted tenantId = false := by
  have hi : c.phase.isInsert = false := by
    cases hph : c.phase with
    | insert publicId => exact absurd hph (h publicId)
    | _ => rfl
  simp [CreateCall.counted, hi]

theorem counted_done (tenantId : Uuid) {i : Nat} {publicId : Bytes} (hi : s.calls[i]? = some c)
    (hph : c.phase = .insert publicId) (o : CreateOutcome) :
    (s.calls.set i { c with phase := .done o }).countP (CreateCall.counted tenantId) +
      (if c.tenantId = tenantId then 1 else 0) = counted tenantId s := by
  have h := countP_setCall (p := CreateCall.counted tenantId) (b := { c with phase := .done o }) hi
  rw [counted_of_insert hph, not_counted (c := { c with phase := .done o }) fun _ h => by cases h] at h
  simpa [counted] using h

theorem counted_same {i : Nat} {ph : CreatePhase} (hi : s.calls[i]? = some c)
    (hold : ∀ publicId, c.phase ≠ .insert publicId) (hnew : ∀ publicId, ph ≠ .insert publicId) :
    counted tenantId (s.setCall i { c with phase := ph }) = counted tenantId s := by
  have h := countP_setCall (p := CreateCall.counted tenantId) (b := { c with phase := ph }) hi
  rw [not_counted hold, not_counted (c := { c with phase := ph }) hnew] at h
  simpa [counted, State.setCall] using h

theorem countPending_map_le {invites : List Invite} {f : Invite → Invite}
    (hf : ∀ v, isPending tenantId (f v) = true → isPending tenantId v = true) :
    countPending (invites.map f) tenantId ≤ countPending invites tenantId := by
  unfold countPending
  rw [List.countP_map]
  exact List.countP_mono_left fun v _ => hf v

theorem isPending_revoke {t id : Uuid} {v : Invite} (h : isPending tenantId (revoke t id v) = true) :
    isPending tenantId v = true := by
  unfold revoke at h
  split at h
  · simp [isPending] at h
  · exact h

theorem isPending_consume {t : Uuid} {n : InviteProvisionInput} {v : Invite}
    (h : isPending tenantId (consume t n v) = true) : isPending tenantId v = true := by
  unfold consume at h
  split at h
  · simp [isPending, Invite.consume] at h
  · exact h

theorem isPending_row (c : CreateCall) (rawSecret : Bytes) (now : Int) (id : Uuid) :
    isPending tenantId (c.row config deps rawSecret now id) = decide (c.tenantId = tenantId) := by
  simp [isPending, CreateCall.row, NewInvite.row]

/-! ## Main result -/

def Bounded (cap k : Nat) (tenantId : Uuid) (s : State) : Prop :=
  countPending s.invites tenantId + counted tenantId s ≤ cap + (k - 1)

theorem bounded_step {k : Nat} {t : State} (h : Bounded config.inviteMaxOutstandingPerTenant k tenantId s)
    (hs : Step config deps s t) (hk : counted tenantId t ≤ k) :
    Bounded config.inviteMaxOutstandingPerTenant k tenantId t := by
  unfold Bounded at *
  cases hs with
  | administer tenants => exact h
  | create role t p cmd =>
    have hn : CreateCall.counted tenantId ⟨t, p, cmd, begin role⟩ = false := by
      apply not_counted
      intro publicId
      cases role <;> exact fun e => by cases e
    simpa [counted, hn] using h
  | @findTenant i c hi hph =>
    rw [counted_same hi]
    · exact h
    · intro publicId
      rw [hph]
      exact fun e => by cases e
    · intro publicId
      unfold afterFindTenant
      split <;> exact fun e => by cases e
  | @countPending i c publicId hi hph =>
    have hold : ∀ publicId', c.phase ≠ .insert publicId' := by
      intro publicId'
      rw [hph]
      exact fun e => by cases e
    unfold afterCount at hk ⊢
    split at hk
    · rename_i hcap
      rw [if_pos hcap, counted_same hi hold fun _ e => by cases e]
      exact h
    · rename_i hcap
      rw [if_neg hcap]
      have hset := countP_setCall (p := CreateCall.counted tenantId) (b := { c with phase := .insert publicId }) hi
      rw [not_counted hold, counted_of_insert (c := { c with phase := .insert publicId }) rfl] at hset
      simp only [counted, State.setCall] at h hk ⊢
      by_cases ht : c.tenantId = tenantId
      · -- the count was below the cap, and with this call at most `k` are between count and insert
        subst ht
        simp only [decide_true, if_true, Bool.false_eq_true, if_false] at hset
        omega
      · simp only [ht, decide_false, Bool.false_eq_true, if_false] at hset
        omega
  | @badSecret i c publicId rawSecret hi hph _ =>
    have hc := counted_done tenantId hi hph (.badSecret rawSecret.length)
    simp only [counted, State.setCall] at h ⊢ hc
    omega
  | @insert i c publicId rawSecret now id hi hph _ _ =>
    have hc := counted_done tenantId hi hph
      (.issued (c.row config deps rawSecret now id) (inviteUrl config publicId rawSecret))
    simp only [counted, State.setCall] at h ⊢ hc
    simp only [Invites.countPending, List.countP_append, List.countP_singleton, isPending_row, decide_eq_true_eq] at h ⊢
    omega
  | @insertFails i c publicId hi hph =>
    have hc := counted_done tenantId hi hph .failed
    simp only [counted, State.setCall] at h ⊢ hc
    omega
  | revoke t id =>
    have hle : Invites.countPending (s.invites.map (revoke t id)) tenantId ≤ Invites.countPending s.invites tenantId :=
      countPending_map_le fun v => isPending_revoke
    simp only [counted] at h ⊢
    omega
  | consume t n =>
    have hle : Invites.countPending (s.invites.map (consume t n)) tenantId ≤ Invites.countPending s.invites tenantId :=
      countPending_map_le fun v => isPending_consume
    simp only [counted] at h ⊢
    omega

def Overlap (k : Nat) (tenantId : Uuid) (_ t : State) : Prop := counted tenantId t ≤ k

instance (k : Nat) (tenantId : Uuid) (s t : State) : Decidable (Overlap k tenantId s t) :=
  inferInstanceAs (Decidable (counted tenantId t ≤ k))

/-- **The cap.** -/
theorem pending_le {k : Nat} (hr : ((system config deps).restrict (Overlap k tenantId)).Reachable s) :
    countPending s.invites tenantId ≤ config.inviteMaxOutstandingPerTenant + (k - 1) := by
  have h : Bounded config.inviteMaxOutstandingPerTenant k tenantId s := by
    apply hr.invariant
    · rintro s ⟨hi, hc⟩
      simp [Bounded, countPending, counted, hi, hc]
    · rintro s t - h ⟨hs, hk⟩
      exact bounded_step h hs hk
  unfold Bounded at h
  omega

/-! ## Two calls at once and one after the other -/

def sampleConfig : InviteConfig := ⟨604800, 1, bs "base"⟩

def sampleDeps : InviteDeps := ⟨id, id⟩

def sampleStart : State := ⟨fun _ => some (bs "acme"), [], []⟩

def sampleSecret (c : UInt8) : Bytes := List.replicate 64 c

theorem two_creates_exceed_cap :
    ∃ s, (system sampleConfig sampleDeps).Reachable s ∧
      sampleConfig.inviteMaxOutstandingPerTenant < countPending s.invites (.rep 1) := by
  have h0 : (system sampleConfig sampleDeps).Reachable sampleStart := .init ⟨rfl, rfl⟩
  have h1 := h0.step (.create .tenantAdmin (.rep 1) (.rep 2) ⟨bs "a@acme", .member⟩)
  have h2 := h1.step (.create .tenantAdmin (.rep 1) (.rep 2) ⟨bs "b@acme", .member⟩)
  have h3 := h2.step (.findTenant (i := 0) rfl rfl)
  have h4 := h3.step (.findTenant (i := 1) rfl rfl)
  have h5 := h4.step (.countPending (i := 0) rfl rfl)
  have h6 := h5.step (.countPending (i := 1) rfl rfl)
  have h7 := h6.step (.insert (i := 0) (sampleSecret 97) 0 (.rep 3) rfl rfl rfl (by decide))
  have h8 := h7.step (.insert (i := 1) (sampleSecret 98) 0 (.rep 4) rfl rfl rfl (by decide))
  exact ⟨_, h8, by decide⟩

/-- The second call counts the invite of the first and is refused. -/
theorem second_create_refused :
    ∃ s : State, (s.calls[1]?).map CreateCall.phase = some (.done (.capReached 1)) ∧
      countPending s.invites (.rep 1) = 1 ∧
      countPending s.invites (.rep 1) ≤ sampleConfig.inviteMaxOutstandingPerTenant + (1 - 1) := by
  have h0 : ((system sampleConfig sampleDeps).restrict (Overlap 1 (.rep 1))).Reachable sampleStart := .init ⟨rfl, rfl⟩
  have h1 := h0.step ⟨.create .tenantAdmin (.rep 1) (.rep 2) ⟨bs "a@acme", .member⟩, by decide⟩
  have h2 := h1.step ⟨.create .tenantAdmin (.rep 1) (.rep 2) ⟨bs "b@acme", .member⟩, by decide⟩
  have h3 := h2.step ⟨.findTenant (i := 0) rfl rfl, by decide⟩
  have h4 := h3.step ⟨.findTenant (i := 1) rfl rfl, by decide⟩
  have h5 := h4.step ⟨.countPending (i := 0) rfl rfl, by decide⟩
  have h6 := h5.step ⟨.insert (i := 0) (sampleSecret 97) 0 (.rep 3) rfl rfl rfl (by decide), by decide⟩
  have h7 := h6.step ⟨.countPending (i := 1) rfl rfl, by decide⟩
  exact ⟨_, by decide, by decide, pending_le h7⟩

end Logalot.Invites
