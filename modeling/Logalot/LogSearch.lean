import Logalot.Lib.JsString
import Logalot.Lib.Trace

/-!
# Historical search in the browser

`useLogSearch` (`apps/web/src/features/log-search/use-log-search.ts`): a first
page from `run`, and further pages appended by `loadMore` with the cursor of the
page before. React queues what is passed to `setState` and applies it in order,
at the latest in the next render; an updater may run earlier or later than the
next call of `loadMore`, and the one that appends a page also writes the cursor.
-/

namespace Logalot.LogSearch

open Js

def maxSearchResults : Nat := 1000

inductive SearchStatus where
  | idle
  | loading
  | success
  | loadingMore
  | error
  deriving Repr, DecidableEq

inductive Outcome (E : Type) where
  | ok (events : List E) (nextCursor : Option JsString)
  | failed (message : JsString)
  deriving Repr, DecidableEq

/-- A page that was answered, with the run whose filters were sent and the cursor that was sent. -/
structure Page (E : Type) where
  run : Nat
  cursor : Option JsString
  events : List E
  nextCursor : Option JsString
  deriving Repr, DecidableEq

/-- The state of the hook. The pages that its events come from are kept for the proofs. -/
structure State (E : Type) where
  status : SearchStatus := .idle
  events : List E := []
  nextCursor : Option JsString := none
  error : Option JsString := none
  hasSearched : Bool := false
  capped : Bool := false
  pages : List (Page E) := []
  deriving Repr, DecidableEq

section
variable {E : Type}

/-- The events that are kept, with the cursor that is then offered. -/
def State.ofEvents (events : List E) (nextCursor : Option JsString) (pages : List (Page E)) : State E :=
  let capped : Bool := maxSearchResults ≤ events.length
  { status := .success
    events := if capped then events.take maxSearchResults else events
    nextCursor := if capped then none else nextCursor
    hasSearched := true
    capped
    pages }

/-- What is passed to `setState`. -/
inductive Update (E : Type) where
  | set (state : State E)
  | loadingMore
  | append (page : Page E)
  | keep (message : JsString)
  deriving Repr, DecidableEq

def Update.apply (s : State E) : Update E → State E
  | .set state => state
  | .loadingMore => { s with status := .loadingMore, error := none }
  | .append page => .ofEvents (s.events ++ page.events) page.nextCursor (s.pages ++ [page])
  | .keep message => { s with status := .success, error := some message }

end

structure Request (F : Type) where
  id : Nat
  filters : F
  cursor : Option JsString
  run : Nat
  deriving Repr, DecidableEq

/-- The references of the hook, the state as far as React has computed it, and the updates that wait. -/
structure Hook (F E : Type) where
  reqId : Nat := 0
  lastFilters : Option F := none
  lastRun : Nat := 0
  cursorRef : Option JsString := none
  inFlight : Bool := false
  state : State E := {}
  queue : List (Update E) := []
  requests : List (Request F) := []
  deriving Repr, DecidableEq

namespace Hook

variable {F E : Type}

def setState (s : Hook F E) (u : Update E) : Hook F E := { s with queue := s.queue ++ [u] }

/-- React runs the oldest update. -/
def update (s : Hook F E) : Hook F E :=
  match s.queue with
  | [] => s
  | .append page :: queue =>
    let state := Update.apply s.state (.append page)
    { s with state, queue, cursorRef := state.nextCursor }
  | u :: queue => { s with state := u.apply s.state, queue }

def run (s : Hook F E) (filters : F) : Hook F E :=
  let id := s.reqId + 1
  { s with
    reqId := id
    lastFilters := some filters
    lastRun := id
    cursorRef := none
    inFlight := true
    requests := s.requests ++ [Request.mk id filters none id] }.setState (.set { status := .loading })

/-- An empty cursor is none. -/
def loadMore (s : Hook F E) : Hook F E :=
  match s.lastFilters, s.cursorRef with
  | some filters, some cursor =>
    if cursor = [] ∨ s.inFlight then s
    else
      let id := s.reqId + 1
      { s with
        reqId := id
        inFlight := true
        requests := s.requests ++ [Request.mk id filters (some cursor) s.lastRun] }.setState .loadingMore
  | _, _ => s

/-- What follows the call of `search` in `run`. -/
def runDone (s : Hook F E) (id : Nat) : Outcome E → Hook F E
  | .ok events nextCursor =>
    let state := State.ofEvents events nextCursor [⟨id, none, events, nextCursor⟩]
    { s with cursorRef := state.nextCursor }.setState (.set state)
  | .failed message =>
    { s with cursorRef := none }.setState (.set { status := .error, error := some message, hasSearched := true })

/-- What follows the call of `search` in `loadMore`. -/
def loadMoreDone (s : Hook F E) (r : Request F) : Outcome E → Hook F E
  | .ok events nextCursor => s.setState (.append ⟨r.run, r.cursor, events, nextCursor⟩)
  | .failed message => s.setState (.keep message)

/-- A request is answered at most once, and the answer is used if no request came after it. -/
def answer (s : Hook F E) (id : Nat) (out : Outcome E) : Hook F E :=
  match s.requests.find? (·.id = id) with
  | none => s
  | some r =>
    let s := { s with requests := s.requests.filter (·.id ≠ id) }
    if id ≠ s.reqId then s
    else
      let s := { s with inFlight := false }
      match r.cursor with
      | none => s.runDone id out
      | some _ => s.loadMoreDone r out

/-- The state that a render commits now, when it has run all updates. -/
def commits (s : Hook F E) : State E := s.queue.foldl Update.apply s.state

end Hook

inductive HookEvent (F E : Type) where
  | run (filters : F)
  | loadMore
  | answer (id : Nat) (out : Outcome E)
  | update
  deriving Repr, DecidableEq

section
variable {F E : Type}

def Hook.step (s : Hook F E) : HookEvent F E → Hook F E
  | .run filters => s.run filters
  | .loadMore => s.loadMore
  | .answer id out => s.answer id out
  | .update => s.update

def searchAt (es : List (HookEvent F E)) (i : Nat) : Hook F E := Trace.stateAt Hook.step {} es i

/-! ## What is promised -/

def cursorAfter (pages : List (Page E)) : Option JsString := pages.getLast?.bind Page.nextCursor

/-- The events are the first ones of pages of a run: the first page, and each further one asked for with the cursor of
the one before. -/
structure Ordered (run : Nat) (s : State E) : Prop where
  run_eq : ∀ p ∈ s.pages, p.run = run
  first : ∀ p, s.pages.head? = some p → p.cursor = none
  linked : s.pages.IsChain fun p q => q.cursor ≠ none ∧ q.cursor = p.nextCursor
  events_eq : s.events = (s.pages.flatMap Page.events).take maxSearchResults

def Hook.InOrder (s : Hook F E) : Prop := Ordered s.lastRun s.commits

def Update.isAppend : Update E → Bool
  | .append _ => true
  | _ => false

def Hook.appends (s : Hook F E) : Bool := s.queue.any Update.isAppend

/-- No page waits to be appended when `loadMore` may send a request, or when a run is answered. -/
def Hook.Settled (s : Hook F E) : HookEvent F E → Prop
  | .loadMore => s.inFlight = false → s.appends = false
  | .answer id _ => ∀ r ∈ s.requests.find? (·.id = id), id = s.reqId → r.cursor = none → s.appends = false
  | _ => True

instance (s : Hook F E) : (e : HookEvent F E) → Decidable (s.Settled e)
  | .loadMore => inferInstanceAs (Decidable (_ → _))
  | .answer id _ => inferInstanceAs
      (Decidable (∀ r ∈ s.requests.find? (·.id = id), id = s.reqId → r.cursor = none → s.appends = false))
  | .run _ | .update => .isTrue trivial

end

end Logalot.LogSearch
