import Mathlib.Data.List.Chain
import Logalot.LogSearch

/-!
# Historical search: pages in order

A render commits the updates in the order of the calls, whenever they run. What
depends on when they run is the cursor that `loadMore` reads.
-/

namespace Logalot.LogSearch

open Js

variable {F E : Type}

/-! ## States -/

theorem State.events_ofEvents (events : List E) (nextCursor : Option JsString) (pages : List (Page E)) :
    (State.ofEvents events nextCursor pages).events = events.take maxSearchResults := by
  unfold State.ofEvents
  by_cases h : maxSearchResults ≤ events.length
  · simp [h]
  · simp [h, List.take_of_length_le (Nat.le_of_not_le h)]

theorem State.nextCursor_ofEvents {events : List E} {nextCursor : Option JsString} {pages : List (Page E)}
    {c : JsString} (h : (State.ofEvents events nextCursor pages).nextCursor = some c) : nextCursor = some c := by
  unfold State.ofEvents at h
  by_cases hcap : maxSearchResults ≤ events.length
  · simp [hcap] at h
  · simpa [hcap] using h

theorem take_take_append {α : Type} (n : Nat) (a b : List α) : (a.take n ++ b).take n = (a ++ b).take n := by
  rw [List.take_append, List.take_append, List.take_take, Nat.min_self, List.length_take]
  congr 2
  omega

section
variable {run : Nat} {s : State E} {p : Page E}

theorem ordered_of_empty (hpages : s.pages = []) (hevents : s.events = []) : Ordered run s := by
  refine ⟨?_, ?_, ?_, ?_⟩
  · simp [hpages]
  · simp [hpages]
  · simp [hpages]
  · simp [hpages, hevents]

theorem ordered_first (events : List E) (nextCursor : Option JsString) :
    Ordered run (State.ofEvents events nextCursor [⟨run, none, events, nextCursor⟩]) := by
  refine ⟨?_, ?_, ?_, ?_⟩
  · simp [State.ofEvents]
  · simp [State.ofEvents]
  · simp [State.ofEvents]
  · rw [State.events_ofEvents]
    simp [State.ofEvents]

theorem Ordered.congr {s' : State E} (h : Ordered run s) (hpages : s'.pages = s.pages)
    (hevents : s'.events = s.events) : Ordered run s' :=
  ⟨hpages ▸ h.run_eq, hpages ▸ h.first, hpages ▸ h.linked, by rw [hevents, hpages, h.events_eq]⟩

theorem Ordered.append (h : Ordered run s) (hrun : p.run = run) {c : JsString} (hc : p.cursor = some c)
    (hafter : cursorAfter s.pages = some c) : Ordered run (Update.apply s (.append p)) := by
  have hpages : (Update.apply s (.append p)).pages = s.pages ++ [p] := rfl
  refine ⟨?_, ?_, ?_, ?_⟩
  · intro q hq
    rw [hpages, List.mem_append, List.mem_singleton] at hq
    obtain hq | rfl := hq
    · exact h.run_eq q hq
    · exact hrun
  · intro q hq
    rw [hpages] at hq
    cases hs : s.pages with
    | nil => simp [cursorAfter, hs] at hafter
    | cons a l =>
      rw [hs, List.cons_append, List.head?_cons] at hq
      exact h.first q (by rw [hs, List.head?_cons, hq])
  · rw [hpages, List.isChain_append]
    refine ⟨h.linked, List.isChain_singleton _, fun q hq p' hp' => ?_⟩
    cases hp'
    have hnext : q.nextCursor = some c := by
      unfold cursorAfter at hafter
      rw [hq] at hafter
      exact hafter
    simp [hc, hnext]
  · change (State.ofEvents (s.events ++ p.events) p.nextCursor (s.pages ++ [p])).events = _
    rw [State.events_ofEvents, h.events_eq, take_take_append, hpages, List.flatMap_append]
    simp

end

/-! ## A step -/

namespace Hook

variable {s : Hook F E}

theorem commits_setState (s : Hook F E) (u : Update E) : (s.setState u).commits = u.apply s.commits := by
  simp [commits, setState]

theorem commits_update (s : Hook F E) : s.update.commits = s.commits := by
  unfold update commits
  cases hq : s.queue with
  | nil => simp [hq]
  | cons u queue => cases u <;> rfl

theorem update_frame (s : Hook F E) : s.update.requests = s.requests ∧ s.update.reqId = s.reqId ∧
    s.update.inFlight = s.inFlight ∧ s.update.lastRun = s.lastRun := by
  unfold update
  cases hq : s.queue with
  | nil => exact ⟨rfl, rfl, rfl, rfl⟩
  | cons u queue => cases u <;> exact ⟨rfl, rfl, rfl, rfl⟩

structure RequestsOk (s : Hook F E) : Prop where
  id_le : ∀ r ∈ s.requests, r.id ≤ s.reqId
  last : ∀ r ∈ s.requests, r.id = s.reqId → r.run = s.lastRun
  first : ∀ r ∈ s.requests, r.cursor = none → r.run = r.id

theorem RequestsOk.congr {s' : Hook F E} (h : s.RequestsOk) (hid : s'.reqId = s.reqId) (hrun : s'.lastRun = s.lastRun)
    (hrequests : s'.requests ⊆ s.requests) : s'.RequestsOk := by
  refine ⟨fun r hr => ?_, fun r hr hr' => ?_, fun r hr => h.first r (hrequests hr)⟩
  · rw [hid]
    exact h.id_le r (hrequests hr)
  · rw [hrun]
    exact h.last r (hrequests hr) (hr'.trans hid)

theorem RequestsOk.send {s' : Hook F E} (h : s.RequestsOk) {r : Request F} (hid : s'.reqId = s.reqId + 1)
    (hrequests : s'.requests = s.requests ++ [r]) (hr : r.id = s.reqId + 1) (hrun : r.run = s'.lastRun)
    (hfirst : r.cursor = none → r.run = r.id) : s'.RequestsOk := by
  refine ⟨fun x hx => ?_, fun x hx hx' => ?_, fun x hx => ?_⟩
  · rw [hrequests, List.mem_append, List.mem_singleton] at hx
    obtain hx | rfl := hx
    · have := h.id_le x hx
      omega
    · omega
  · rw [hrequests, List.mem_append, List.mem_singleton] at hx
    obtain hx | rfl := hx
    · have := h.id_le x hx
      omega
    · exact hrun
  · rw [hrequests, List.mem_append, List.mem_singleton] at hx
    obtain hx | rfl := hx
    · exact h.first x hx
    · exact hfirst

theorem RequestsOk.eq_of_last (h : s.RequestsOk) {r new : Request F} (hmem : r ∈ s.requests ++ [new])
    (hid : r.id = s.reqId + 1) : r = new := by
  obtain hmem | hmem := List.mem_append.mp hmem
  · have := h.id_le r hmem
    omega
  · exact List.mem_singleton.mp hmem

theorem loadMore_cases (s : Hook F E) : s.loadMore = s ∨
    ∃ filters c, s.lastFilters = some filters ∧ s.cursorRef = some c ∧ s.inFlight = false ∧
      s.loadMore = { s with
        reqId := s.reqId + 1
        inFlight := true
        requests := s.requests ++ [Request.mk (s.reqId + 1) filters (some c) s.lastRun] }.setState .loadingMore := by
  unfold loadMore
  cases hf : s.lastFilters with
  | none => exact .inl rfl
  | some filters =>
    cases hc : s.cursorRef with
    | none => exact .inl rfl
    | some c =>
      by_cases h : c = [] ∨ s.inFlight = true
      · exact .inl (by simp [h])
      · refine .inr ⟨filters, c, rfl, rfl, ?_, ?_⟩
        · simpa using fun hin => h (.inr hin)
        · simp [h]

theorem answer_cases (s : Hook F E) (id : Nat) (out : Outcome E) :
    (s.requests.find? (·.id = id) = none ∧ s.answer id out = s) ∨
    ∃ r, s.requests.find? (·.id = id) = some r ∧
      ((id ≠ s.reqId ∧ s.answer id out = { s with requests := s.requests.filter (·.id ≠ id) }) ∨
      (id = s.reqId ∧ r.cursor = none ∧ s.answer id out =
        { s with requests := s.requests.filter (·.id ≠ id), inFlight := false }.runDone id out) ∨
      ∃ c, id = s.reqId ∧ r.cursor = some c ∧ s.answer id out =
        { s with requests := s.requests.filter (·.id ≠ id), inFlight := false }.loadMoreDone r out) := by
  unfold answer
  cases hfind : s.requests.find? (·.id = id) with
  | none => exact .inl ⟨rfl, rfl⟩
  | some r =>
    refine .inr ⟨r, rfl, ?_⟩
    by_cases hid : id = s.reqId
    · cases hc : r.cursor with
      | none => exact .inr (.inl ⟨hid, rfl, by simp [hid, hc]⟩)
      | some c => exact .inr (.inr ⟨c, hid, rfl, by simp [hid, hc]⟩)
    · exact .inl ⟨hid, by simp [hid]⟩

theorem RequestsOk.step (h : s.RequestsOk) (e : HookEvent F E) : (s.step e).RequestsOk := by
  cases e with
  | run filters => exact h.send rfl rfl rfl rfl fun _ => rfl
  | loadMore =>
    obtain heq | ⟨filters, c, -, -, -, heq⟩ := loadMore_cases s
    · rw [Hook.step, heq]
      exact h
    · rw [Hook.step, heq]
      exact h.send rfl rfl rfl rfl fun hnone => by cases hnone
  | answer id out =>
    rw [Hook.step]
    obtain ⟨-, heq⟩ | ⟨r, -, ⟨-, heq⟩ | ⟨-, -, heq⟩ | ⟨c, -, -, heq⟩⟩ := answer_cases s id out
    · rw [heq]
      exact h
    · rw [heq]
      exact h.congr rfl rfl (List.filter_subset_self _)
    · rw [heq]
      cases out <;> exact h.congr rfl rfl (List.filter_subset_self _)
    · rw [heq]
      cases out <;> exact h.congr rfl rfl (List.filter_subset_self _)
  | update =>
    obtain ⟨hrequests, hid, -, hrun⟩ := update_frame s
    exact h.congr hid hrun (hrequests ▸ List.Subset.refl _)

theorem ordered_runDone (s : Hook F E) (id : Nat) (out : Outcome E) : Ordered id (s.runDone id out).commits := by
  cases out with
  | ok events nextCursor =>
    rw [runDone, commits_setState]
    exact ordered_first events nextCursor
  | failed message =>
    rw [runDone, commits_setState]
    exact ordered_of_empty rfl rfl

/-! ## The cursor that is read -/

def Searching (s : Hook F E) : Prop := s.inFlight = true ∧ ∀ r ∈ s.requests, r.id = s.reqId → r.cursor = none

def Current (s : Hook F E) : Prop := s.appends = false ∧ s.cursorRef = s.commits.nextCursor

/-- The page that came last waits to be appended, and its cursor to be written. -/
def Appending (s : Hook F E) : Prop :=
  s.inFlight = false ∧ (∃ queue p, s.queue = queue ++ [.append p]) ∧ ∀ r ∈ s.requests, r.id ≠ s.reqId

structure Synced (s : Hook F E) : Prop where
  cursor : s.Searching ∨ s.Current ∨ s.Appending
  after : ∀ c, s.commits.nextCursor = some c → cursorAfter s.commits.pages = some c
  sent : ∀ r ∈ s.requests, r.id = s.reqId → ∀ c, r.cursor = some c → s.commits.nextCursor = some c

theorem cursorAfter_ofEvents {events : List E} {nextCursor : Option JsString} (pages : List (Page E)) {p : Page E}
    (hp : p.nextCursor = nextCursor) (c : JsString)
    (h : (State.ofEvents events nextCursor (pages ++ [p])).nextCursor = some c) :
    cursorAfter (State.ofEvents events nextCursor (pages ++ [p])).pages = some c := by
  have := State.nextCursor_ofEvents h
  simp [cursorAfter, State.ofEvents, hp, this]

theorem appends_setState (s : Hook F E) (u : Update E) : (s.setState u).appends = (s.appends || u.isAppend) := by
  simp [appends, setState]

theorem Current.setState {u : Update E} (hnone : s.appends = false) (hu : u.isAppend = false)
    (hcursor : s.cursorRef = (u.apply s.commits).nextCursor) : (s.setState u).Current := by
  refine ⟨?_, ?_⟩
  · rw [appends_setState, hnone, hu]
    rfl
  · rw [commits_setState]
    exact hcursor

theorem Synced.update (h : s.Synced) : s.update.Synced := by
  have hcommits := commits_update s
  obtain ⟨hrequests, hid, hflight, -⟩ := update_frame s
  refine ⟨?_, by rw [hcommits]; exact h.after, by rw [hcommits, hrequests, hid]; exact h.sent⟩
  obtain hsearching | ⟨hnone, hcursor⟩ | ⟨hf, ⟨queue, p, hq⟩, hgone⟩ := h.cursor
  · left
    unfold Searching
    rw [hrequests, hid, hflight]
    exact hsearching
  · right; left
    unfold Current
    rw [hcommits]
    unfold Hook.update
    cases hq : s.queue with
    | nil => exact ⟨hnone, hcursor⟩
    | cons u queue =>
      rw [appends, hq] at hnone
      cases u with
      | append p => cases hnone
      | _ => exact ⟨hnone, hcursor⟩
  · right
    cases queue with
    | nil =>
      -- the last page is appended now, and its cursor is the one to go on from
      left
      unfold Hook.update
      rw [hq]
      exact ⟨rfl, rfl⟩
    | cons u queue =>
      right
      unfold Appending
      rw [hrequests, hid, hflight]
      refine ⟨hf, ⟨queue, p, ?_⟩, hgone⟩
      unfold Hook.update
      rw [hq]
      cases u <;> rfl

theorem RequestsOk.synced_run (hr : s.RequestsOk) (filters : F) : (s.run filters).Synced := by
  have hcommits : (s.run filters).commits = { status := .loading } := by
    rw [Hook.run, commits_setState]
    rfl
  have hfirst : ∀ r ∈ (s.run filters).requests, r.id = (s.run filters).reqId → r.cursor = none := by
    intro r hmem hid
    rw [hr.eq_of_last hmem hid]
  refine ⟨.inl ⟨rfl, hfirst⟩, ?_, ?_⟩
  · intro c hc
    simp [hcommits] at hc
  · intro r hmem hid c hc
    rw [hfirst r hmem hid] at hc
    cases hc

theorem Synced.loadMore (h : s.Synced) (hr : s.RequestsOk) (hs : s.Settled .loadMore) : s.loadMore.Synced := by
  obtain heq | ⟨filters, c, -, hc, hflight, heq⟩ := loadMore_cases s
  · rw [heq]
    exact h
  have hnone := hs hflight
  have hcursor : s.cursorRef = s.commits.nextCursor := by
    obtain ⟨hf, -⟩ | ⟨-, hcursor⟩ | ⟨-, ⟨queue, p, hq⟩, -⟩ := h.cursor
    · rw [hflight] at hf
      cases hf
    · exact hcursor
    · simp [appends, hq, Update.isAppend] at hnone
  have hcurrent : s.loadMore.Current := by
    rw [heq]
    exact .setState hnone rfl hcursor
  have hcommits : s.loadMore.commits = Update.apply s.commits .loadingMore := by
    rw [heq]
    exact commits_setState ..
  refine ⟨.inr (.inl hcurrent), ?_, ?_⟩
  · rw [hcommits]
    exact h.after
  · rw [hcommits, heq]
    intro r hmem hid c' hc'
    rw [hr.eq_of_last hmem hid] at hc'
    rw [← hc', ← hc, hcursor]
    rfl

theorem synced_of_answered (hcursor : s.Current ∨ s.Appending) (hgone : ∀ r ∈ s.requests, r.id ≠ s.reqId)
    (hafter : ∀ c, s.commits.nextCursor = some c → cursorAfter s.commits.pages = some c) : s.Synced :=
  ⟨.inr hcursor, hafter, fun r hmem hid => absurd hid (hgone r hmem)⟩

theorem synced_runDone {id : Nat} {out : Outcome E} (hnone : s.appends = false)
    (hgone : ∀ r ∈ s.requests, r.id ≠ s.reqId) : (s.runDone id out).Synced := by
  cases out with
  | ok events nextCursor =>
    refine synced_of_answered (.inl (.setState hnone rfl rfl)) hgone ?_
    rw [runDone, commits_setState]
    exact cursorAfter_ofEvents [] rfl
  | failed message =>
    refine synced_of_answered (.inl (.setState hnone rfl rfl)) hgone ?_
    rw [runDone, commits_setState]
    intro c hc
    cases hc

theorem synced_loadMoreDone {r : Request F} {out : Outcome E} (hcurrent : s.Current) (hflight : s.inFlight = false)
    (hgone : ∀ r ∈ s.requests, r.id ≠ s.reqId)
    (hafter : ∀ c, s.commits.nextCursor = some c → cursorAfter s.commits.pages = some c) :
    (s.loadMoreDone r out).Synced := by
  cases out with
  | ok events nextCursor =>
    refine synced_of_answered (.inr ⟨hflight, ⟨s.queue, _, rfl⟩, hgone⟩) hgone ?_
    rw [loadMoreDone, commits_setState]
    exact cursorAfter_ofEvents _ rfl
  | failed message =>
    refine synced_of_answered (.inl (.setState hcurrent.1 rfl hcurrent.2)) hgone ?_
    rw [loadMoreDone, commits_setState]
    exact hafter

theorem Synced.current (h : s.Synced) {r : Request F} (hmem : r ∈ s.requests) (hid : r.id = s.reqId) {c : JsString}
    (hc : r.cursor = some c) : s.Current := by
  obtain ⟨-, hfirst⟩ | hcurrent | ⟨-, -, hgone⟩ := h.cursor
  · rw [hfirst r hmem hid] at hc
    cases hc
  · exact hcurrent
  · exact absurd hid (hgone r hmem)

theorem Synced.answer (h : s.Synced) {id : Nat} {out : Outcome E} (hs : s.Settled (.answer id out)) :
    (s.answer id out).Synced := by
  -- the last request is no longer awaited when it is answered
  have hgone : id = s.reqId → ∀ r ∈ s.requests.filter (·.id ≠ id), r.id ≠ s.reqId := by
    intro hid r hmem
    simpa [hid] using List.of_mem_filter hmem
  obtain ⟨-, heq⟩ | ⟨r, hfind, ⟨-, heq⟩ | ⟨hid, hc, heq⟩ | ⟨c, hid, hc, heq⟩⟩ := answer_cases s id out
  · rw [heq]
    exact h
  · rw [heq]
    refine ⟨?_, h.after, fun r hmem => h.sent r (List.mem_of_mem_filter hmem)⟩
    obtain ⟨hf, hfirst⟩ | hcurrent | ⟨hf, hq, hnew⟩ := h.cursor
    · exact .inl ⟨hf, fun r hmem => hfirst r (List.mem_of_mem_filter hmem)⟩
    · exact .inr (.inl hcurrent)
    · exact .inr (.inr ⟨hf, hq, fun r hmem => hnew r (List.mem_of_mem_filter hmem)⟩)
  · rw [heq]
    exact synced_runDone (hs r hfind hid hc) (hgone hid)
  · have hrid : r.id = s.reqId := by simpa [hid] using List.find?_some hfind
    have hcurrent := h.current (List.mem_of_find?_eq_some hfind) hrid hc
    rw [heq]
    exact synced_loadMoreDone hcurrent rfl (hgone hid) h.after

theorem Synced.step (h : s.Synced) (hr : s.RequestsOk) {e : HookEvent F E} (hs : s.Settled e) : (s.step e).Synced := by
  cases e with
  | run filters => exact hr.synced_run filters
  | loadMore => exact h.loadMore hr hs
  | answer id out => exact h.answer hs
  | update => exact h.update

theorem InOrder.answer (hi : s.InOrder) (h : s.Synced) (hr : s.RequestsOk) (id : Nat) (out : Outcome E) :
    (s.answer id out).InOrder := by
  unfold InOrder at hi ⊢
  obtain ⟨-, heq⟩ | ⟨r, hfind, hcases⟩ := answer_cases s id out
  · rw [heq]
    exact hi
  have hmem := List.mem_of_find?_eq_some hfind
  have hrid : r.id = id := by simpa using List.find?_some hfind
  obtain ⟨-, heq⟩ | ⟨hid, hc, heq⟩ | ⟨c, hid, hc, heq⟩ := hcases
  · rw [heq]
    exact hi
  · have hrun : s.lastRun = id := by rw [← hr.last r hmem (hrid.trans hid), hr.first r hmem hc, hrid]
    have hlast : (s.answer id out).lastRun = id := by
      rw [heq, ← hrun]
      cases out <;> rfl
    rw [hlast, heq]
    exact ordered_runDone _ id out
  · rw [heq]
    cases out with
    | failed message =>
      rw [loadMoreDone, commits_setState]
      exact hi.congr rfl rfl
    | ok events nextCursor =>
      -- the page was asked for with the cursor of the list it is appended to
      have hafter := h.after c (h.sent r hmem (hrid.trans hid) c hc)
      rw [loadMoreDone, commits_setState]
      exact hi.append (p := ⟨r.run, r.cursor, events, nextCursor⟩) (hr.last r hmem (hrid.trans hid)) hc hafter

theorem InOrder.step (hi : s.InOrder) (h : s.Synced) (hr : s.RequestsOk) (e : HookEvent F E) : (s.step e).InOrder := by
  cases e with
  | run filters =>
    rw [InOrder, Hook.step, Hook.run, commits_setState]
    exact ordered_of_empty rfl rfl
  | loadMore =>
    obtain heq | ⟨filters, c, -, -, -, heq⟩ := loadMore_cases s
    · rw [Hook.step, heq]
      exact hi
    · rw [Hook.step, heq, InOrder, commits_setState]
      exact Ordered.congr hi rfl rfl
  | update =>
    rw [InOrder, Hook.step, (update_frame s).2.2.2, commits_update]
    exact hi
  | answer id out => exact hi.answer h hr id out

end Hook

/-! ## Every run -/

theorem requestsOk_at (es : List (HookEvent F E)) (i : Nat) : (searchAt es i).RequestsOk := by
  refine Trace.stateAt_invariant (P := fun s : Hook F E => s.RequestsOk) ⟨?_, ?_, ?_⟩ (fun i e _ h => h.step e) i
  · intro r hr
    cases hr
  · intro r hr
    cases hr
  · intro r hr
    cases hr

theorem synced_at {es : List (HookEvent F E)} (h : ∀ i e, es[i]? = some e → (searchAt es i).Settled e) (i : Nat) :
    (searchAt es i).Synced := by
  refine Trace.stateAt_invariant (P := fun s : Hook F E => s.Synced) ⟨.inr (.inl ⟨rfl, rfl⟩), ?_, ?_⟩ ?_ i
  · intro c hc
    cases hc
  · intro r hr
    cases hr
  · intro i e he hi
    exact hi.step (requestsOk_at es i) (h i e he)

/-- **Pages in order.** What renders commit are, at all times, the first thousand events of pages of the last run, each
asked for with the cursor of the one before. -/
theorem pages_in_order {es : List (HookEvent F E)} (h : ∀ i e, es[i]? = some e → (searchAt es i).Settled e) (i : Nat) :
    (searchAt es i).InOrder := by
  refine Trace.stateAt_invariant (P := fun s : Hook F E => s.InOrder) (ordered_of_empty rfl rfl) ?_ i
  intro i e _ hi
  exact hi.step (synced_at h i) (requestsOk_at es i) e

/-- Three pages, the second asked for twice since the first answer is an error. Updates run late, but the ones that
append a page run before the next call. -/
def pagedThrice : List (HookEvent Unit Nat) :=
  [.run (), .answer 1 (.ok [1] (some (js "a"))), .loadMore, .update, .answer 2 (.failed (js "busy")), .loadMore,
    .answer 3 (.ok [2] (some (js "b"))), .update, .update, .update, .update, .update, .loadMore,
    .answer 4 (.ok [3] none)]

theorem pagedThrice_inOrder :
    (searchAt pagedThrice 14).commits.events = [1, 2, 3] ∧ (searchAt pagedThrice 14).InOrder := by
  have hsettled : ∀ i : Fin pagedThrice.length, (searchAt pagedThrice i).Settled (pagedThrice.get i) := by decide
  refine ⟨by decide, pages_in_order (fun i e he => ?_) 14⟩
  obtain ⟨hi, rfl⟩ := List.getElem?_eq_some_iff.mp he
  exact hsettled ⟨i, hi⟩

/-- The second page is asked for twice, since the update that appends it also has to write its cursor. -/
def clickedTwice : List (HookEvent Unit Nat) :=
  [.run (), .update, .answer 1 (.ok [1] (some (js "a"))), .update,
    .loadMore, .update, .answer 2 (.ok [2] (some (js "b"))),
    .loadMore, .answer 3 (.ok [2] (some (js "b"))), .update, .update, .update]

/-- An update of a run that is over writes its cursor after the first page of the next run: that run is then asked to
go on from the cursor `b` of the one before. -/
def leftOver : List (HookEvent Nat Nat) :=
  [.run 0, .update, .answer 1 (.ok [1] (some (js "a"))), .update,
    .loadMore, .update, .answer 2 (.ok [2] (some (js "b"))),
    .run 5, .answer 3 (.ok [7] (some (js "x"))), .update, .update, .update, .loadMore,
    .answer 4 (.ok [9] none)]

/-- A `loadMore` that is called, and a run that is answered, while a page waits to be appended. -/
theorem pages_out_of_order :
    ((searchAt clickedTwice 12).commits.events = [1, 2, 2] ∧
      (searchAt clickedTwice 12).commits.pages.map Page.cursor = [none, some (js "a"), some (js "a")] ∧
      ¬ (searchAt clickedTwice 12).InOrder) ∧
    (searchAt leftOver 14).commits.pages =
      [⟨3, none, [7], some (js "x")⟩, ⟨3, some (js "b"), [9], none⟩] ∧
    ¬ (searchAt leftOver 14).InOrder := by
  refine ⟨⟨by decide, by decide, fun h => ?_⟩, by decide, fun h => ?_⟩
  · have hlinked := h.linked
    revert hlinked
    decide
  · have hlinked := h.linked
    revert hlinked
    decide

end Logalot.LogSearch
