import Logalot.Lib.JsString
import Logalot.Lib.Trace

/-!
# The live tail in the browser

`useLogTail` (`apps/web/src/features/log-explorer/use-log-tail.ts`): an
`EventSource` that is opened again after errors, and a bounded list of rows. A
`Link` is what the hook and the browser know of connections and timers, a
`Buffer` what they know of rows. React applies the updates of a state in the
order in which they were made, so each list it commits is `items` at some time.
-/

namespace Logalot.LogTail

open Js

inductive TailStatus where
  | connecting
  | streaming
  | reconnecting
  | paused
  | offline
  deriving Repr, DecidableEq

inductive GapReason where
  | dropped
  | reconnect
  deriving Repr, DecidableEq

/-- A row. Which source sent an event is not in the row; it is kept for the proofs. -/
inductive TailItem (E : Type) where
  | log (seq : Nat) (event : E) (source : Nat)
  | gap (seq : Nat) (reason : GapReason) (dropped : Nat)
  deriving Repr, DecidableEq

structure Stats where
  received : Nat := 0
  dropped : Nat := 0
  reconnects : Nat := 0
  deriving Repr, DecidableEq

/-- The options, and what the frames of a stream are parsed to. -/
structure Options (E D : Type) where
  maxItems : Nat
  backoffMs : List Nat
  maxReconnectAttempts : Nat
  parseLogFrame : D → Option E
  parseGapFrame : D → Nat

/-! ## Connections -/

/-- `sources` are those created and not closed, and `timers` those pending, with their delays; a source is named
by its place in `created`, the urls of all. `rendered` are the `paused` and the `url` of the last render, and `ran`
those with which the effect last ran. -/
structure Link where
  status : TailStatus := .connecting
  paused : Bool := false
  rendered : Bool × JsString
  ran : Bool × JsString
  mounted : Bool := true
  es : Option Nat := none
  reconnectTimer : Option Nat := none
  flushTimer : Bool := false
  attempt : Nat := 0
  stopped : Bool := false
  sawOpen : Bool := false
  wantGapOnOpen : Bool := false
  created : List JsString := []
  sources : List Nat := []
  scheduled : Nat := 0
  timers : List (Nat × Nat) := []
  exhausted : Nat := 0
  deriving Repr, DecidableEq

namespace Link

def closeSource (l : Link) : Link :=
  match l.es with
  | none => l
  | some i => { l with sources := l.sources.filter (· ≠ i), es := none }

def connect (l : Link) : Link :=
  if l.stopped then l
  else
    { l with
      es := some l.created.length
      sources := l.sources ++ [l.created.length]
      created := l.created ++ [l.rendered.2] }

def clearReconnectTimer (l : Link) : Link :=
  match l.reconnectTimer with
  | none => l
  | some t => { l with timers := l.timers.filter (·.1 ≠ t), reconnectTimer := none }

def onOpen (l : Link) : Link :=
  { l with attempt := 0, wantGapOnOpen := false, sawOpen := true, status := .streaming }

/-- The delay of a retry; the last of the schedule is the steady one. -/
def delay (backoffMs : List Nat) (attempt : Nat) : Nat :=
  backoffMs[min attempt (backoffMs.length - 1)]?.getD (backoffMs[backoffMs.length - 1]?.getD 1000)

def onError (backoffMs : List Nat) (maxReconnectAttempts : Nat) (l : Link) : Link :=
  if l.stopped then l
  else
    let l := { l.closeSource with wantGapOnOpen := true }
    if maxReconnectAttempts ≤ l.attempt then { l with status := .offline, exhausted := l.exhausted + 1 }
    else
      { l with
        status := .reconnecting
        attempt := l.attempt + 1
        reconnectTimer := some l.scheduled
        scheduled := l.scheduled + 1
        timers := l.timers ++ [(l.scheduled, delay backoffMs l.attempt)] }

/-- The timer that expires calls `connect`; its reference is left. -/
def onTimer (t : Nat) (l : Link) : Link := { l with timers := l.timers.filter (·.1 ≠ t) }.connect

def stop (l : Link) : Link :=
  { { l with stopped := true }.clearReconnectTimer with flushTimer := false }.closeSource

def effect (l : Link) : Link :=
  let l := { l with ran := l.rendered }
  if l.rendered.1 then { l with status := .paused }
  else
    let l := { l with stopped := false, attempt := 0 }
    let l :=
      if l.sawOpen then { l with wantGapOnOpen := true, status := .reconnecting } else { l with status := .connecting }
    { l with flushTimer := true }.connect

/-- A run of the effect while paused has no cleanup. -/
def cleanup (l : Link) : Link := if l.ran.1 then l else l.stop

def reconnect (l : Link) : Link :=
  if l.stopped then l
  else
    { l.clearReconnectTimer with
      attempt := 0, wantGapOnOpen := true, flushTimer := true, status := .reconnecting }.connect

end Link

/-! ## Rows -/

structure Buffer (E : Type) where
  items : List (TailItem E) := []
  pending : List (TailItem E) := []
  seq : Nat := 0
  stats : Stats := {}
  statsRef : Stats := {}
  deriving Repr, DecidableEq

namespace Buffer

variable {E : Type}

def pushItem (b : Buffer E) (item : Nat → TailItem E) : Buffer E :=
  { b with pending := b.pending ++ [item b.seq], seq := b.seq + 1 }

def flush (maxItems : Nat) (b : Buffer E) : Buffer E :=
  let merged := b.items ++ b.pending
  { b with
    pending := []
    items := if b.pending = [] then b.items else merged.drop (merged.length - maxItems)
    stats := b.statsRef }

def clear (b : Buffer E) : Buffer E := { b with pending := [], items := [] }

def onOpen (wantGapOnOpen : Bool) (b : Buffer E) : Buffer E :=
  if wantGapOnOpen then
    let b := b.pushItem fun seq => .gap seq .reconnect 0
    { b with statsRef := { b.statsRef with reconnects := b.statsRef.reconnects + 1 } }
  else b

def onMessage (log : Option E) (source : Nat) (b : Buffer E) : Buffer E :=
  match log with
  | none => b
  | some event =>
    let b := b.pushItem fun seq => .log seq event source
    { b with statsRef := { b.statsRef with received := b.statsRef.received + 1 } }

def onGap (dropped : Nat) (b : Buffer E) : Buffer E :=
  let b := b.pushItem fun seq => .gap seq .dropped dropped
  { b with statsRef := { b.statsRef with dropped := b.statsRef.dropped + dropped } }

end Buffer

/-! ## The hook -/

structure Hook (E : Type) where
  link : Link
  buffer : Buffer E := {}
  deriving Repr, DecidableEq

/-- A render has the `url` of the owner; `commit` is the effect, which runs again when its dependencies are new. -/
inductive HookEvent (D : Type) where
  | opened (i : Nat)
  | message (i : Nat) (data : D)
  | gap (i : Nat) (data : D)
  | error (i : Nat)
  | timer (t : Nat)
  | flushTick
  | pause
  | resume
  | render (url : JsString)
  | commit
  | unmount
  | clear
  | reconnect
  deriving Repr, DecidableEq

section
variable {E D : Type}

def Link.step (o : Options E D) (l : Link) : HookEvent D → Link
  | .opened _ => l.onOpen
  | .error _ => l.onError o.backoffMs o.maxReconnectAttempts
  | .timer t => l.onTimer t
  | .pause => { l with paused := true }
  | .resume => { l with paused := false }
  | .render url => { l with rendered := (l.paused, url) }
  | .commit => l.cleanup.effect
  | .unmount => { l.cleanup with mounted := false }
  | .reconnect => l.reconnect
  | .message _ _ | .gap _ _ | .flushTick | .clear => l

def Buffer.step (o : Options E D) (l : Link) (b : Buffer E) : HookEvent D → Buffer E
  | .opened _ => b.onOpen l.wantGapOnOpen
  | .message i data => b.onMessage (o.parseLogFrame data) i
  | .gap _ data => b.onGap (o.parseGapFrame data)
  | .flushTick => b.flush o.maxItems
  | .commit | .unmount => if l.ran.1 then b else b.flush o.maxItems
  | .clear => b.clear
  | .error _ | .timer _ | .pause | .resume | .render _ | .reconnect => b

def Hook.step (o : Options E D) (s : Hook E) (e : HookEvent D) : Hook E :=
  ⟨s.link.step o e, s.buffer.step o s.link e⟩

/-- Only a source that is not closed sends, and only a timer that is pending expires. -/
def Link.Enabled (l : Link) : HookEvent D → Prop
  | .opened i | .message i _ | .gap i _ | .error i => i ∈ l.sources
  | .timer t => t ∈ l.timers.map Prod.fst
  | .flushTick => l.flushTimer = true
  | .commit => l.mounted = true ∧ l.rendered ≠ l.ran
  | .unmount => l.mounted = true
  | .pause | .resume | .render _ | .clear | .reconnect => True

instance (l : Link) : (e : HookEvent D) → Decidable (l.Enabled e)
  | .opened i | .message i _ | .gap i _ | .error i => inferInstanceAs (Decidable (i ∈ l.sources))
  | .timer t => inferInstanceAs (Decidable (t ∈ l.timers.map Prod.fst))
  | .flushTick => inferInstanceAs (Decidable (l.flushTimer = true))
  | .commit => inferInstanceAs (Decidable (l.mounted = true ∧ l.rendered ≠ l.ran))
  | .unmount => inferInstanceAs (Decidable (l.mounted = true))
  | .pause | .resume | .render _ | .clear | .reconnect => inferInstanceAs (Decidable True)

def mounted (E : Type) (url : JsString) : Hook E :=
  { link := { rendered := (false, url), ran := (false, url) : Link }.effect }

def tailAt (o : Options E D) (url : JsString) (es : List (HookEvent D)) (i : Nat) : Hook E :=
  Trace.stateAt (Hook.step o) (mounted E url) es i

/-- Events in an order in which the browser can deliver them. -/
def Delivered (o : Options E D) (url : JsString) (es : List (HookEvent D)) : Prop :=
  ∀ (i : Nat) (e : HookEvent D), es[i]? = some e → (tailAt o url es i).link.Enabled e

theorem delivered_iff {o : Options E D} {url : JsString} {es : List (HookEvent D)} :
    (∀ i : Fin es.length, (tailAt o url es i).link.Enabled es[i]) ↔ Delivered o url es := by
  constructor
  · intro h i e he
    obtain ⟨hi, rfl⟩ := List.getElem?_eq_some_iff.mp he
    exact h ⟨i, hi⟩
  · intro h i
    exact h i es[i] (List.getElem?_eq_getElem i.isLt)

instance (o : Options E D) (url : JsString) (es : List (HookEvent D)) : Decidable (Delivered o url es) :=
  decidable_of_iff _ delivered_iff

end

/-! ## What is promised -/

def Link.OneSource (l : Link) : Prop := l.sources.length ≤ 1 ∧ (l.sources ≠ [] → l.timers = [])

def TailItem.seq {E : Type} : TailItem E → Nat
  | .log seq _ _ => seq
  | .gap seq _ _ => seq

def TailItem.isGap {E : Type} : TailItem E → Bool
  | .log _ _ _ => false
  | .gap _ _ _ => true

/-- Between rows of two sources there is a gap. -/
def Gapped {E : Type} (rows : List (TailItem E)) : Prop :=
  ∀ l₁ m l₂ q₁ e₁ i₁ q₂ e₂ i₂, rows = l₁ ++ .log q₁ e₁ i₁ :: (m ++ .log q₂ e₂ i₂ :: l₂) → i₁ ≠ i₂ →
    ∃ x ∈ m, x.isGap = true

/-- `reconnect` is called in status `offline` only. -/
def ReconnectsOffline {E D : Type} (o : Options E D) (url : JsString) (es : List (HookEvent D)) : Prop :=
  ∀ i : Nat, es[i]? = some .reconnect → (tailAt o url es i).link.status = .offline

/-- A source delivers its open before its messages. -/
def OpensFirst {D : Type} (es : List (HookEvent D)) : Prop :=
  ∀ (i j : Nat) (d : D), es[i]? = some (.message j d) → ∃ k < i, es[k]? = some (.opened j)

/-- Neither an open, nor the effect of a pause, of a resume or of a new url, nor a call of `reconnect`. -/
def HookEvent.retries {D : Type} : HookEvent D → Bool
  | .opened _ | .commit | .reconnect => false
  | .message _ _ | .gap _ _ | .error _ | .timer _ | .flushTick | .pause | .resume | .render _ | .unmount | .clear =>
    true

end Logalot.LogTail
