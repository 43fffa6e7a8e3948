import Logalot.LogTailSound

/-!
# The live tail: rows and retries

The numbers of the rows rise, and those after the last gap are all of the open
source, or the next open writes a gap. A retry is paid for by an attempt that is
left; an open gives the attempts back.
-/

namespace Logalot.LogTail

variable {E D : Type} {o : Options E D} {url : Js.JsString} {es : List (HookEvent D)}

/-! ## Offline -/

namespace Link

variable {l : Link}

def OfflineIdle (l : Link) : Prop := l.status = .offline → l.es = none ∧ l.timers = []

theorem effect_status (l : Link) : l.effect.status ≠ .offline := by
  intro hoff
  obtain ⟨-, heq⟩ | ⟨-, heq⟩ := effect_cases l
  · rw [heq] at hoff
    cases hoff
  · rw [heq] at hoff
    by_cases ho : l.sawOpen = true
    · simp [ho] at hoff
    · simp [ho] at hoff

theorem OfflineIdle.step (h : l.OfflineIdle) (hs : l.Single) {e : HookEvent D} (he : l.Enabled e) :
    (l.step o e).OfflineIdle := by
  intro hoff
  cases e with
  | opened i => cases hoff
  | message i d => exact h hoff
  | gap i d => exact h hoff
  | error i =>
    have hes := hs.es_eq_some he
    have ht : l.timers = [] := hs.no_timer (by simp [hes])
    obtain ⟨-, heq⟩ | ⟨-, heq⟩ := hs.onError_cases (hs.not_stopped hes) o.backoffMs o.maxReconnectAttempts
    · rw [Link.step, heq]
      exact ⟨rfl, ht⟩
    · rw [Link.step, heq] at hoff
      cases hoff
  | timer t =>
    obtain ⟨heq, -, -⟩ := hs.onTimer_eq he
    rw [Link.step, heq] at hoff
    have := (h hoff).2
    simp [Link.Enabled, this] at he
  | flushTick => exact h hoff
  | pause => exact h hoff
  | resume => exact h hoff
  | render url => exact h hoff
  | commit => exact absurd hoff (effect_status _)
  | unmount => exact hs.cleanup.2.2
  | clear => exact h hoff
  | reconnect =>
    by_cases hl : l.stopped = true
    · rw [Link.step, reconnect, if_pos hl] at hoff ⊢
      exact h hoff
    · rw [Link.step, hs.reconnect_eq (by simpa using hl)] at hoff
      cases hoff

theorem OfflineIdle.sources (h : l.OfflineIdle) (hs : l.Single) (hoff : l.status = .offline) : l.sources = [] := by
  rw [hs.sources_eq, (h hoff).1]
  rfl

end Link

theorem link_at (hd : Delivered o url es) (hr : ReconnectsOffline o url es) (i : Nat) :
    (tailAt o url es i).link.Single ∧ (tailAt o url es i).link.OfflineIdle := by
  refine Trace.stateAt_invariant (P := fun s : Hook E => s.link.Single ∧ s.link.OfflineIdle)
    ⟨Link.single_mounted url, fun h => by cases h⟩ ?_ i
  intro i e he ⟨hs, hidle⟩
  refine ⟨hs.step (hd i e he) fun heq => ?_, hidle.step hs (hd i e he)⟩
  subst heq
  exact .inr (hidle.sources hs (hr i he))

/-! ## Retries -/

namespace Link

variable {l : Link} {max : Nat}

def credit (max : Nat) (l : Link) : Nat := l.created.length + (max - l.attempt) + l.timers.length

theorem Single.timers_length_le (h : l.Single) : l.timers.length ≤ 1 := by
  obtain ht | ⟨t, d, ht, -⟩ := h.timers_eq
  · simp [ht]
  · simp [ht]

theorem Single.credit_cleanup (h : l.Single) : l.cleanup.credit max ≤ l.credit max := by
  unfold Link.cleanup
  by_cases hr : l.ran.1 = true
  · rw [if_pos hr]
  · rw [if_neg hr, h.stop_eq]
    simp [credit]

theorem Single.credit_step (h : l.Single) {e : HookEvent D} (he : l.Enabled e) (hq : e.retries = true) :
    (l.step o e).credit o.maxReconnectAttempts ≤ l.credit o.maxReconnectAttempts := by
  cases e with
  | opened i => cases hq
  | message i d => exact Nat.le_refl _
  | gap i d => exact Nat.le_refl _
  | error i =>
    have hes := h.es_eq_some he
    obtain ⟨-, heq⟩ | ⟨hlt, heq⟩ := h.onError_cases (h.not_stopped hes) o.backoffMs o.maxReconnectAttempts
    · rw [Link.step, heq]
      exact Nat.le_refl _
    · rw [Link.step, heq]
      simp only [credit, List.length_append, List.length_singleton]
      omega
  | timer t =>
    obtain ⟨heq, -, -⟩ := h.onTimer_eq he
    have hpos : 0 < l.timers.length := by
      simpa using List.length_pos_of_mem he
    rw [Link.step, heq]
    simp only [credit, List.length_append, List.length_singleton, List.length_nil]
    omega
  | flushTick => exact Nat.le_refl _
  | pause => exact Nat.le_refl _
  | resume => exact Nat.le_refl _
  | render url => exact Nat.le_refl _
  | commit => cases hq
  | unmount => exact h.credit_cleanup
  | clear => exact Nat.le_refl _
  | reconnect => cases hq

theorem Single.credit_step_le (h : l.Single) {e : HookEvent D} (he : l.Enabled e) :
    (l.step o e).credit o.maxReconnectAttempts ≤ l.created.length + o.maxReconnectAttempts + 1 := by
  have hle : l.credit o.maxReconnectAttempts ≤ l.created.length + o.maxReconnectAttempts + 1 := by
    have := h.timers_length_le
    unfold credit
    omega
  by_cases hq : e.retries = true
  · exact Nat.le_trans (h.credit_step he hq) hle
  · cases e with
    | opened i =>
      have ht : l.timers = [] := h.no_timer (by simp [h.es_eq_some he])
      simp [Link.step, onOpen, credit, ht]
    | commit =>
      obtain ⟨-, -, -, ht⟩ := h.cleanup
      have hcreated : l.cleanup.created = l.created := by
        unfold Link.cleanup
        by_cases hr : l.ran.1 = true
        · rw [if_pos hr]
        · rw [if_neg hr, h.stop_eq]
      obtain ⟨-, heq⟩ | ⟨-, heq⟩ := effect_cases l.cleanup
      · rw [Link.step, heq]
        simp only [credit, ht, hcreated, List.length_nil]
        omega
      · rw [Link.step, heq]
        simp only [credit, ht, hcreated, List.length_append, List.length_singleton, List.length_nil]
        omega
    | reconnect =>
      by_cases hl : l.stopped = true
      · rw [Link.step, reconnect, if_pos hl]
        exact hle
      · rw [Link.step, h.reconnect_eq (by simpa using hl)]
        simp only [credit, List.length_append, List.length_singleton, List.length_nil]
        omega
    | _ => exact absurd rfl hq

end Link

theorem credit_mounted (url : Js.JsString) (max : Nat) : (mounted E url).link.credit max = max + 1 :=
  Nat.add_comm 1 max

theorem created_le_of_credit {s : Hook E} {n : Nat} (h : s.link.credit o.maxReconnectAttempts ≤ n) :
    s.link.created.length ≤ n := by
  unfold Link.credit at h
  omega

theorem credit_le (hs : ∀ i, (tailAt o url es i).link.Single) (hd : Delivered o url es) {i j : Nat} (hij : i ≤ j)
    (hq : ∀ k e, i ≤ k → k < j → es[k]? = some e → e.retries = true) :
    (tailAt o url es j).link.credit o.maxReconnectAttempts ≤ (tailAt o url es i).link.credit o.maxReconnectAttempts :=
  Trace.stateAt_le (f := fun s : Hook E => s.link.credit o.maxReconnectAttempts) hij fun k e hik hkj he =>
    (hs k).credit_step (hd k e he) (hq k e hik hkj he)

/-! ## Which sources are open -/

def OpenedBefore (es : List (HookEvent D)) (i j : Nat) : Prop := ∃ k < i, es[k]? = some (.opened j)

structure Link.Openings (opened : Nat → Prop) (l : Link) : Prop where
  es_lt : ∀ j, l.es = some j → j < l.created.length
  opened_lt : ∀ j, opened j → j < l.created.length
  sawOpen : ∀ j, opened j → l.sawOpen = true
  no_gap : ∀ j, opened j → l.es = some j → l.wantGapOnOpen = false

namespace Link

variable {l : Link} {opened opened' : Nat → Prop}

theorem Openings.mono (h : l.Openings opened) (hsub : ∀ j, opened' j → opened j) : l.Openings opened' :=
  ⟨h.es_lt, fun j hj => h.opened_lt j (hsub j hj), fun j hj => h.sawOpen j (hsub j hj),
    fun j hj => h.no_gap j (hsub j hj)⟩

theorem Openings.of_new (h : l.Openings opened) {l' : Link} (hes : l'.es = some l.created.length)
    (hcreated : l'.created = l.created ++ [l.rendered.2]) (hsaw : l'.sawOpen = l.sawOpen) : l'.Openings opened := by
  have hlen : l'.created.length = l.created.length + 1 := by simp [hcreated]
  refine ⟨fun j hj => ?_, fun j hj => ?_, fun j hj => hsaw.trans (h.sawOpen j hj), fun j hj hj' => ?_⟩
  · rw [hes] at hj
    cases hj
    omega
  · have := h.opened_lt j hj
    omega
  · rw [hes] at hj'
    cases hj'
    exact absurd (h.opened_lt _ hj) (Nat.lt_irrefl _)

theorem Openings.of_closed (h : l.Openings opened) {l' : Link} (hes : l'.es = none)
    (hcreated : l'.created = l.created) (hsaw : l'.sawOpen = l.sawOpen) : l'.Openings opened := by
  refine ⟨fun j hj => ?_, fun j hj => ?_, fun j hj => hsaw.trans (h.sawOpen j hj), fun j hj hj' => ?_⟩
  · simp [hes] at hj
  · rw [hcreated]
    exact h.opened_lt j hj
  · simp [hes] at hj'

theorem Openings.cleanup (h : l.Openings opened) (hs : l.Single) : l.cleanup.Openings opened := by
  unfold Link.cleanup
  by_cases hr : l.ran.1 = true
  · rw [if_pos hr]
    exact h
  · rw [if_neg hr, hs.stop_eq]
    exact h.of_closed rfl rfl rfl

theorem Openings.step (h : l.Openings opened) (hs : l.Single) {e : HookEvent D} (he : l.Enabled e) :
    (l.step o e).Openings fun j => opened j ∨ e = .opened j := by
  -- an event that opens nothing leaves the opened ones as they are
  have hold : ∀ {l' : Link}, (∀ j, e ≠ .opened j) → l'.Openings opened →
      l'.Openings fun j => opened j ∨ e = .opened j := by
    intro l' hne h'
    exact h'.mono fun j hj => hj.resolve_right (hne j)
  cases e with
  | opened i =>
    have hi := h.es_lt i (hs.es_eq_some he)
    refine ⟨h.es_lt, fun j hj => ?_, fun j _ => rfl, fun j _ _ => rfl⟩
    obtain hj | hj := hj
    · exact h.opened_lt j hj
    · cases hj
      exact hi
  | error i =>
    refine hold (fun j hj => by cases hj) ?_
    obtain ⟨-, heq⟩ | ⟨-, heq⟩ :=
      hs.onError_cases (hs.not_stopped (hs.es_eq_some he)) o.backoffMs o.maxReconnectAttempts
    · rw [Link.step, heq]
      exact h.of_closed rfl rfl rfl
    · rw [Link.step, heq]
      exact h.of_closed rfl rfl rfl
  | timer t =>
    refine hold (fun j hj => by cases hj) ?_
    rw [Link.step, (hs.onTimer_eq he).1]
    exact h.of_new rfl rfl rfl
  | commit =>
    refine hold (fun j hj => by cases hj) ?_
    have h' := h.cleanup hs
    obtain ⟨-, heq⟩ | ⟨-, heq⟩ := effect_cases l.cleanup
    · rw [Link.step, heq]
      exact ⟨h'.es_lt, h'.opened_lt, h'.sawOpen, h'.no_gap⟩
    · rw [Link.step, heq]
      exact h'.of_new rfl rfl rfl
  | unmount =>
    have h' := h.cleanup hs
    exact hold (fun j hj => by cases hj) ⟨h'.es_lt, h'.opened_lt, h'.sawOpen, h'.no_gap⟩
  | reconnect =>
    refine hold (fun j hj => by cases hj) ?_
    by_cases hl : l.stopped = true
    · rw [Link.step, reconnect, if_pos hl]
      exact h
    · rw [Link.step, hs.reconnect_eq (by simpa using hl)]
      exact h.of_new rfl rfl rfl
  | _ => exact hold (fun j hj => by cases hj) ⟨h.es_lt, h.opened_lt, h.sawOpen, h.no_gap⟩

end Link

theorem openings_at (hs : ∀ i, (tailAt o url es i).link.Single) (hd : Delivered o url es) (i : Nat) :
    (tailAt o url es i).link.Openings (OpenedBefore es i) := by
  refine Trace.stateAt_induction (P := fun i (s : Hook E) => s.link.Openings (OpenedBefore es i)) ?_ ?_ ?_ i
  · have hnone : ∀ j, ¬ OpenedBefore es 0 j := fun j ⟨k, hk, _⟩ => Nat.not_lt_zero k hk
    refine ⟨fun j hj => ?_, fun j hj => absurd hj (hnone j), fun j hj => absurd hj (hnone j),
      fun j hj => absurd hj (hnone j)⟩
    cases hj
    exact Nat.zero_lt_one
  · intro i e he h
    refine (h.step (o := o) (hs i) (hd i e he)).mono ?_
    rintro j ⟨k, hk, hkj⟩
    obtain hlt | rfl := Nat.lt_succ_iff_lt_or_eq.mp hk
    · exact .inl ⟨k, hlt, hkj⟩
    · exact .inr (Option.some.inj (he.symm.trans hkj))
  · intro i s hi h
    refine h.mono ?_
    rintro j ⟨k, hk, hkj⟩
    refine ⟨k, ?_, hkj⟩
    obtain hlt | rfl := Nat.lt_succ_iff_lt_or_eq.mp hk
    · exact hlt
    · simp [hi] at hkj

/-! ## Gaps -/

def afterRow (sources : List Nat) : TailItem E → List Nat
  | .log _ _ i => sources ++ [i]
  | .gap _ _ _ => []

def lastSources (rows : List (TailItem E)) : List Nat := rows.foldl afterRow []

section
variable {rows : List (TailItem E)} {x : TailItem E}

theorem lastSources_concat (rows : List (TailItem E)) (x : TailItem E) :
    lastSources (rows ++ [x]) = afterRow (lastSources rows) x := by
  simp [lastSources]

theorem foldl_afterRow_subset {a b : List Nat} (h : a ⊆ b) (rows : List (TailItem E)) :
    rows.foldl afterRow a ⊆ rows.foldl afterRow b := by
  induction rows generalizing a b with
  | nil => exact h
  | cons x rows ih =>
    cases x with
    | log q e i => exact ih (List.append_subset.mpr ⟨fun j hj => List.mem_append_left _ (h hj), by simp [afterRow]⟩)
    | gap q r d => exact ih (List.Subset.refl [])

theorem lastSources_drop (n : Nat) (rows : List (TailItem E)) : lastSources (rows.drop n) ⊆ lastSources rows := by
  have happend : (rows.take n ++ rows.drop n).foldl afterRow [] =
      (rows.drop n).foldl afterRow ((rows.take n).foldl afterRow []) := List.foldl_append
  rw [List.take_append_drop] at happend
  unfold lastSources
  rw [happend]
  exact foldl_afterRow_subset (List.nil_subset _) _

theorem mem_foldl_afterRow {i : Nat} {sources : List Nat} (hi : i ∈ sources) (rows : List (TailItem E)) :
    (∃ x ∈ rows, x.isGap = true) ∨ i ∈ rows.foldl afterRow sources := by
  induction rows generalizing sources with
  | nil => exact .inr hi
  | cons x rows ih =>
    cases x with
    | log q e j =>
      obtain ⟨x, hx, hgap⟩ | h := ih (List.mem_append_left [j] hi)
      · exact .inl ⟨x, List.mem_cons_of_mem _ hx, hgap⟩
      · exact .inr h
    | gap q r d => exact .inl ⟨_, List.mem_cons_self, rfl⟩

theorem gap_or_mem_lastSources {l₁ m : List (TailItem E)} {q : Nat} {event : E} {i : Nat}
    (h : rows = l₁ ++ .log q event i :: m) : (∃ x ∈ m, x.isGap = true) ∨ i ∈ lastSources rows := by
  subst h
  unfold lastSources
  rw [List.foldl_append, List.foldl_cons]
  exact mem_foldl_afterRow (by simp [afterRow]) m

theorem Gapped.append_left {rows' : List (TailItem E)} (h : Gapped (rows ++ rows')) : Gapped rows := by
  intro l₁ m l₂ q₁ e₁ i₁ q₂ e₂ i₂ heq hne
  exact h l₁ m (l₂ ++ rows') q₁ e₁ i₁ q₂ e₂ i₂ (by simp [heq]) hne

theorem Gapped.drop (h : Gapped rows) (n : Nat) : Gapped (rows.drop n) := by
  intro l₁ m l₂ q₁ e₁ i₁ q₂ e₂ i₂ heq hne
  refine h (rows.take n ++ l₁) m l₂ q₁ e₁ i₁ q₂ e₂ i₂ ?_ hne
  rw [List.append_assoc, ← heq, List.take_append_drop]

theorem Gapped.concat (h : Gapped rows) (hx : ∀ q e j, x = .log q e j → ∀ i ∈ lastSources rows, i = j) :
    Gapped (rows ++ [x]) := by
  intro l₁ m l₂ q₁ e₁ i₁ q₂ e₂ i₂ heq hne
  obtain rfl | ⟨l', y, rfl⟩ := List.eq_nil_or_concat' l₂
  · have heq' : rows ++ [x] = (l₁ ++ .log q₁ e₁ i₁ :: m) ++ [.log q₂ e₂ i₂] := by simpa using heq
    obtain ⟨hrows, hlast⟩ := List.append_inj' heq' rfl
    have hxlog : x = .log q₂ e₂ i₂ := by simpa using hlast
    obtain hgap | hmem := gap_or_mem_lastSources hrows
    · exact hgap
    · exact absurd (hx q₂ e₂ i₂ hxlog i₁ hmem) hne
  · have heq' : rows ++ [x] = (l₁ ++ .log q₁ e₁ i₁ :: (m ++ .log q₂ e₂ i₂ :: l')) ++ [y] := by simpa using heq
    obtain ⟨hrows, -⟩ := List.append_inj' heq' rfl
    exact h l₁ m l' q₁ e₁ i₁ q₂ e₂ i₂ hrows hne

end

/-! ## Rows -/

namespace Buffer

variable {b : Buffer E} {e : HookEvent D}

def rows (b : Buffer E) : List (TailItem E) := b.items ++ b.pending

structure Sorted (b : Buffer E) : Prop where
  pairwise : b.rows.Pairwise fun x y => x.seq < y.seq
  lt_seq : ∀ x ∈ b.rows, x.seq < b.seq

/-- What an event makes of the rows: the first ones are dropped, or one row is added, which is a gap or of the source
that sent a message. The open of a source that owes a gap writes it. -/
inductive Rewrite (l : Link) (b b' : Buffer E) (e : HookEvent D) : Prop where
  | drop (n : Nat) (hrows : b'.rows = b.rows.drop n) (hseq : b'.seq = b.seq)
      (hopen : ∀ i, e = .opened i → l.wantGapOnOpen = false)
  | gap (reason : GapReason) (dropped : Nat) (hrows : b'.rows = b.rows ++ [.gap b.seq reason dropped])
      (hseq : b'.seq = b.seq + 1)
  | log (i : Nat) (data : D) (event : E) (he : e = .message i data)
      (hrows : b'.rows = b.rows ++ [.log b.seq event i]) (hseq : b'.seq = b.seq + 1)

theorem rewrite_self (l : Link) (b : Buffer E) (hopen : ∀ i, e ≠ .opened i) : Rewrite l b b e :=
  .drop 0 rfl rfl fun i hi => absurd hi (hopen i)

theorem rewrite_flush (l : Link) (b : Buffer E) (maxItems : Nat) (hopen : ∀ i, e ≠ .opened i) :
    Rewrite l b (b.flush maxItems) e := by
  by_cases hp : b.pending = []
  · refine .drop 0 ?_ rfl fun i hi => absurd hi (hopen i)
    simp [rows, flush, hp]
  · refine .drop (b.rows.length - maxItems) ?_ rfl fun i hi => absurd hi (hopen i)
    simp [rows, flush, hp]

theorem rewrite_step (o : Options E D) (l : Link) (b : Buffer E) (e : HookEvent D) : Rewrite l b (b.step o l e) e := by
  cases e with
  | opened i =>
    by_cases hw : l.wantGapOnOpen = true
    · refine .gap .reconnect 0 ?_ ?_
      · simp [step, onOpen, hw, rows, pushItem]
      · simp [step, onOpen, hw, pushItem]
    · refine .drop 0 ?_ ?_ fun _ _ => by simpa using hw
      · simp [step, onOpen, hw]
      · simp [step, onOpen, hw]
  | message i data =>
    cases hlog : o.parseLogFrame data with
    | none => simpa [step, onMessage, hlog] using rewrite_self l b (by simp)
    | some event =>
      refine .log i data event rfl ?_ ?_
      · simp [step, onMessage, hlog, rows, pushItem]
      · simp [step, onMessage, hlog, pushItem]
  | gap i data => exact .gap .dropped (o.parseGapFrame data) (by simp [step, onGap, rows, pushItem]) rfl
  | flushTick => exact rewrite_flush l b o.maxItems (by simp)
  | commit =>
    by_cases hr : l.ran.1 = true
    · simpa [step, hr] using rewrite_self l b (by simp)
    · simpa [step, hr] using rewrite_flush l b o.maxItems (by simp)
  | unmount =>
    by_cases hr : l.ran.1 = true
    · simpa [step, hr] using rewrite_self l b (by simp)
    · simpa [step, hr] using rewrite_flush l b o.maxItems (by simp)
  | clear => exact .drop b.rows.length (by simp [step, clear, rows]) rfl (by simp)
  | _ => exact rewrite_self l b (by simp)

theorem Sorted.concat {b' : Buffer E} {x : TailItem E} (h : b.Sorted) (hx : x.seq = b.seq)
    (hrows : b'.rows = b.rows ++ [x]) (hseq : b'.seq = b.seq + 1) : b'.Sorted := by
  refine ⟨?_, ?_⟩
  · rw [hrows, List.pairwise_append]
    refine ⟨h.pairwise, List.pairwise_singleton _ _, fun y hy z hz => ?_⟩
    rw [List.mem_singleton.mp hz, hx]
    exact h.lt_seq y hy
  · intro y hy
    rw [hrows] at hy
    obtain hy | hy := List.mem_append.mp hy
    · have := h.lt_seq y hy
      omega
    · rw [List.mem_singleton.mp hy]
      omega

theorem Sorted.rewrite {l : Link} {b' : Buffer E} (h : b.Sorted) (hb : Rewrite l b b' e) : b'.Sorted := by
  cases hb with
  | drop n hrows hseq hopen =>
    refine ⟨?_, fun x hx => ?_⟩
    · rw [hrows]
      exact h.pairwise.drop
    · rw [hrows] at hx
      rw [hseq]
      exact h.lt_seq x (List.mem_of_mem_drop hx)
  | gap reason dropped hrows hseq => exact h.concat rfl hrows hseq
  | log i data event he hrows hseq => exact h.concat rfl hrows hseq

theorem length_items_flush {maxItems : Nat} (h : b.items.length ≤ maxItems) :
    (b.flush maxItems).items.length ≤ maxItems := by
  by_cases hp : b.pending = []
  · simpa [flush, hp] using h
  · simp only [flush, hp, if_false, List.length_drop]
    omega

theorem length_items_step {l : Link} (h : b.items.length ≤ o.maxItems) :
    (b.step o l e).items.length ≤ o.maxItems := by
  cases e with
  | opened i =>
    by_cases hw : l.wantGapOnOpen = true
    · simpa [step, onOpen, hw, pushItem] using h
    · simpa [step, onOpen, hw] using h
  | message i data =>
    cases hlog : o.parseLogFrame data with
    | none => simpa [step, onMessage, hlog] using h
    | some event => simpa [step, onMessage, hlog, pushItem] using h
  | flushTick => exact length_items_flush h
  | commit =>
    by_cases hr : l.ran.1 = true
    · simpa [step, hr] using h
    · simpa [step, hr] using length_items_flush h
  | unmount =>
    by_cases hr : l.ran.1 = true
    · simpa [step, hr] using h
    · simpa [step, hr] using length_items_flush h
  | clear => exact Nat.zero_le _
  | _ => exact h

end Buffer

theorem buffer_at (o : Options E D) (url : Js.JsString) (es : List (HookEvent D)) (i : Nat) :
    (tailAt o url es i).buffer.Sorted ∧ (tailAt o url es i).buffer.items.length ≤ o.maxItems := by
  refine Trace.stateAt_invariant (P := fun s : Hook E => s.buffer.Sorted ∧ s.buffer.items.length ≤ o.maxItems)
    ⟨⟨List.Pairwise.nil, fun x hx => by cases hx⟩, Nat.zero_le _⟩ ?_ i
  intro i e _ ⟨hsorted, hlen⟩
  exact ⟨hsorted.rewrite (Buffer.rewrite_step o _ _ e), Buffer.length_items_step hlen⟩

/-! ## Rows and sources -/

def Link.Covers (l : Link) (rows : List (TailItem E)) : Prop :=
  ∀ i ∈ lastSources rows, l.sawOpen = true ∧ (l.es = some i ∨ l.wantGapOnOpen = true ∨ l.stopped = true)

namespace Link

variable {l : Link} {rows : List (TailItem E)}

theorem Covers.cleanup (h : l.Covers rows) (hs : l.Single) : l.cleanup.Covers rows := by
  have hsaw : l.cleanup.sawOpen = l.sawOpen := by
    unfold Link.cleanup
    by_cases hr : l.ran.1 = true
    · rw [if_pos hr]
    · rw [if_neg hr, hs.stop_eq]
  intro i hi
  exact ⟨hsaw.trans (h i hi).1, .inr (.inr hs.cleanup.2.1)⟩

theorem Covers.step (h : l.Covers rows) (hs : l.Single) {e : HookEvent D} (he : l.Enabled e)
    {rows' : List (TailItem E)} (hsub : lastSources rows' ⊆ lastSources rows)
    (hopen : ∀ j, e = .opened j → l.wantGapOnOpen = true → lastSources rows' = []) : (l.step o e).Covers rows' := by
  intro i hi'
  have hi := hsub hi'
  cases e with
  | opened j =>
    refine ⟨rfl, ?_⟩
    obtain ⟨-, hes | hw | hst⟩ := h i hi
    · exact .inl hes
    · rw [hopen j rfl hw] at hi'
      cases hi'
    · exact .inr (.inr hst)
  | error j =>
    obtain ⟨-, heq⟩ | ⟨-, heq⟩ :=
      hs.onError_cases (hs.not_stopped (hs.es_eq_some he)) o.backoffMs o.maxReconnectAttempts
    · rw [Link.step, heq]
      exact ⟨(h i hi).1, .inr (.inl rfl)⟩
    · rw [Link.step, heq]
      exact ⟨(h i hi).1, .inr (.inl rfl)⟩
  | timer t =>
    obtain ⟨heq, hes, hl⟩ := hs.onTimer_eq he
    rw [Link.step, heq]
    refine ⟨(h i hi).1, .inr ?_⟩
    obtain hes' | hw := (h i hi).2
    · simp [hes] at hes'
    · exact hw
  | commit =>
    have h' := h.cleanup hs i hi
    obtain ⟨-, heq⟩ | ⟨-, heq⟩ := effect_cases l.cleanup
    · rw [Link.step, heq]
      exact h'
    · rw [Link.step, heq]
      exact ⟨h'.1, .inr (.inl (by simp [h'.1]))⟩
  | unmount => exact h.cleanup hs i hi
  | reconnect =>
    by_cases hl : l.stopped = true
    · rw [Link.step, reconnect, if_pos hl]
      exact h i hi
    · rw [Link.step, hs.reconnect_eq (by simpa using hl)]
      exact ⟨(h i hi).1, .inr (.inl rfl)⟩
  | _ => exact h i hi

end Link

structure Hook.Marked (s : Hook E) : Prop where
  gapped : Gapped s.buffer.rows
  covers : s.link.Covers s.buffer.rows

theorem Hook.Marked.step {s : Hook E} (h : s.Marked) (hs : s.link.Single) {e : HookEvent D} (he : s.link.Enabled e)
    (hmsg : ∀ j d, e = .message j d → s.link.sawOpen = true ∧ s.link.wantGapOnOpen = false) : (s.step o e).Marked := by
  cases Buffer.rewrite_step o s.link s.buffer e with
  | drop n hrows hseq hopen =>
    constructor
    · change Gapped (s.buffer.step o s.link e).rows
      rw [hrows]
      exact h.gapped.drop n
    · change (s.link.step o e).Covers (s.buffer.step o s.link e).rows
      rw [hrows]
      refine h.covers.step hs he (lastSources_drop n _) fun j hj hw => ?_
      simp [hopen j hj] at hw
  | gap reason dropped hrows hseq =>
    have hlast : lastSources (s.buffer.rows ++ [.gap s.buffer.seq reason dropped]) = [] := lastSources_concat _ _
    constructor
    · change Gapped (s.buffer.step o s.link e).rows
      rw [hrows]
      exact h.gapped.concat fun q ev j hx => by cases hx
    · change (s.link.step o e).Covers (s.buffer.step o s.link e).rows
      rw [hrows]
      refine h.covers.step hs he ?_ fun _ _ _ => hlast
      rw [hlast]
      exact List.nil_subset _
  | log j data event heq hrows hseq =>
    subst heq
    obtain ⟨hsaw, hwant⟩ := hmsg j data rfl
    have hes := hs.es_eq_some he
    -- no gap is owed and the hook runs, so the rows after the last gap are of the source that sends
    have hsame : ∀ i ∈ lastSources s.buffer.rows, i = j := by
      intro i hi
      obtain ⟨-, hi' | hw | hst⟩ := h.covers i hi
      · exact Option.some.inj (hi'.symm.trans hes)
      · simp [hwant] at hw
      · simp [hs.not_stopped hes] at hst
    constructor
    · change Gapped (s.buffer.step o s.link _).rows
      rw [hrows]
      refine h.gapped.concat fun q ev i hx => ?_
      cases hx
      exact hsame
    · change s.link.Covers (s.buffer.step o s.link _).rows
      rw [hrows]
      intro i hi
      rw [lastSources_concat] at hi
      refine ⟨hsaw, .inl ?_⟩
      obtain hi | hi := List.mem_append.mp hi
      · rw [hsame i hi]
        exact hes
      · rw [List.mem_singleton.mp hi]
        exact hes

theorem marked_at (hs : ∀ i, (tailAt o url es i).link.Single) (hd : Delivered o url es) (ho : OpensFirst es) (i : Nat) :
    (tailAt o url es i).Marked := by
  refine Trace.stateAt_invariant (P := fun s : Hook E => s.Marked) ⟨?_, fun i hi => by cases hi⟩ ?_ i
  · intro l₁ m l₂ q₁ e₁ i₁ q₂ e₂ i₂ heq
    simp [Buffer.rows, mounted] at heq
  · intro i e he h
    refine h.step (hs i) (hd i e he) fun j d hmsg => ?_
    subst hmsg
    have hopened : OpenedBefore es i j := ho i j d he
    have hopenings := openings_at hs hd i
    exact ⟨hopenings.sawOpen j hopened, hopenings.no_gap j hopened ((hs i).es_eq_some (hd i _ he))⟩

/-! ## Every run -/

/-- When `reconnect` is only called offline, and sources open before they send: the rows are at most `maxItems`, their
numbers rise, and rows of two sources have a gap between them. From one open, effect or call of `reconnect` to the
next, and before the first, no more sources are created than there are attempts, and one. -/
theorem tail_rows (o : Options E D) (url : Js.JsString) (es : List (HookEvent D)) (hd : Delivered o url es)
    (hr : ReconnectsOffline o url es) (ho : OpensFirst es) :
    (∀ i, (tailAt o url es i).buffer.items.length ≤ o.maxItems ∧
      (tailAt o url es i).buffer.items.Pairwise (fun x y => x.seq < y.seq) ∧
      Gapped (tailAt o url es i).buffer.items) ∧
    (∀ j, (∀ k e, k < j → es[k]? = some e → e.retries = true) →
      (tailAt o url es j).link.created.length ≤ o.maxReconnectAttempts + 1) ∧
    (∀ i j, i < j → (∀ k e, i < k → k < j → es[k]? = some e → e.retries = true) →
      (tailAt o url es j).link.created.length ≤
        (tailAt o url es i).link.created.length + o.maxReconnectAttempts + 1) := by
  have hs := fun i => (link_at hd hr i).1
  refine ⟨fun i => ⟨(buffer_at o url es i).2, ?_, ?_⟩, fun j hq => ?_, fun i j hij hq => ?_⟩
  · exact (List.pairwise_append.mp (buffer_at o url es i).1.pairwise).1
  · exact (marked_at hs hd ho i).gapped.append_left
  · refine created_le_of_credit (o := o) ?_
    refine Nat.le_trans (credit_le hs hd (Nat.zero_le j) fun k e _ => hq k e) ?_
    exact Nat.le_of_eq (credit_mounted url o.maxReconnectAttempts)
  · refine created_le_of_credit (o := o) ?_
    refine Nat.le_trans (credit_le hs hd (Nat.succ_le_of_lt hij) fun k e hik => hq k e hik) ?_
    cases he : es[i]? with
    | none =>
      have heq : tailAt o url es (i + 1) = tailAt o url es i := Trace.stateAt_succ_of_none he
      rw [heq]
      have := (hs i).timers_length_le
      unfold Link.credit
      omega
    | some e =>
      have heq : tailAt o url es (i + 1) = (tailAt o url es i).step o e := Trace.stateAt_succ he
      rw [heq]
      exact (hs i).credit_step_le (hd i e he)

/-- A stream that breaks off after a row and is opened again. -/
def brokenOff : List (HookEvent Nat) :=
  [.opened 0, .message 0 7, .error 0, .timer 0, .opened 1, .message 1 8, .flushTick]

theorem broken_off_marked :
    (tailAt (⟨10, [500], 5, some, id⟩ : Options Nat Nat) [] brokenOff 7).buffer.items =
        [.log 0 7 0, .gap 1 .reconnect 0, .log 2 8 1] ∧
      Gapped (tailAt (⟨10, [500], 5, some, id⟩ : Options Nat Nat) [] brokenOff 7).buffer.items := by
  refine ⟨by decide, ((tail_rows _ _ _ ?_ ?_ ?_).1 7).2.2⟩
  · decide
  · intro i hi
    obtain _ | _ | _ | _ | _ | _ | _ | i := i <;> cases hi
  · intro i j d hi
    obtain _ | _ | _ | _ | _ | _ | _ | i := i <;> cases hi
    · exact ⟨0, by decide, rfl⟩
    · exact ⟨4, by decide, rfl⟩

end Logalot.LogTail
