import Logalot.Kernel
import Logalot.Lib.Runs

/-!
# Live tail

`Streamer.StreamEvents` of `services/query-service/internal/app/tail.go`: a pump
goroutine moves matching events from the bus into a bounded buffer and counts
those that find it full; the consumer loop reports the count as a gap and then
waits for an event, a tick, the end of the bus or that of the context. The sink
never fails. What the goroutines do is cut into atomic actions, in any order.
-/

namespace Logalot.LiveTail

open Go

/-- The zero filter matches everything. -/
structure Filter where
  level : Option Level := none
  service : Bytes := []
  deriving Repr, DecidableEq

def Filter.matches (f : Filter) (ev : LogEvent) : Bool :=
  if f.level.isSome ∧ f.level ≠ some ev.level then false
  else if f.service ≠ [] ∧ ev.service ≠ f.service then false
  else true

def defaultBuffer : Int := 256

/-- The depth of the buffer of a new `Streamer`. -/
def bufferDepth (buffer : Int) : Nat := (if buffer ≤ 0 then defaultBuffer else buffer).toNat

/-! ## States -/

inductive Frame where
  | data (ev : LogEvent)
  | gap (n : Nat)
  | heartbeat
  deriving Repr, DecidableEq

inductive Pump where
  | idle
  /-- Received, and not yet offered to the buffer. -/
  | holding (ev : LogEvent)
  /-- It has returned, and with that closed `upstreamClosed`. -/
  | done
  deriving Repr, DecidableEq

inductive EndOfStream where
  | cancelled
  | upstreamClosed
  deriving Repr, DecidableEq

inductive Consumer where
  /-- At the head of the loop. -/
  | head
  /-- In `sink.Gap`, before the select. -/
  | gapping (n : Nat)
  | selecting
  /-- In `sink.Data` or `sink.Heartbeat`. -/
  | sending (frame : Frame)
  | returned (e : EndOfStream)
  deriving Repr, DecidableEq

/-- `upstream` is what the bus still delivers before it closes, `received` what the pump has had of it. -/
structure Stream where
  upstream : List LogEvent
  received : List LogEvent
  pump : Pump
  buf : List LogEvent
  dropped : Nat
  consumer : Consumer
  frames : List Frame
  cancelled : Bool
  deriving Repr, DecidableEq

def Stream.start (events : List LogEvent) : Stream :=
  { upstream := events, received := [], pump := .idle, buf := [], dropped := 0, consumer := .head, frames := [],
    cancelled := false }

/-! ## Actions -/

inductive TailAction where
  | cancel
  /-- The pump receives an event, sees that the bus is closed, or that the context is done. -/
  | receive
  | close
  | quit
  /-- The pump filters the event and sends it without blocking. -/
  | offer
  /-- The consumer swaps the drop counter, ends a call of the sink, or takes a case of its select. -/
  | swap
  | emit
  | take
  | tick
  | done
  | closed
  deriving Repr, DecidableEq

def Stream.receive (s : Stream) : Option Stream :=
  match s.pump, s.upstream with
  | .idle, ev :: rest => some { s with upstream := rest, received := s.received ++ [ev], pump := .holding ev }
  | _, _ => none

def Stream.offer (depth : Nat) (f : Filter) (s : Stream) : Option Stream :=
  match s.pump with
  | .holding ev =>
    if !f.matches ev then some { s with pump := .idle }
    else if s.buf.length < depth then some { s with pump := .idle, buf := s.buf ++ [ev] }
    else some { s with pump := .idle, dropped := s.dropped + 1 }
  | _ => none

def Stream.swap (s : Stream) : Option Stream :=
  if s.consumer = .head then
    some { s with dropped := 0, consumer := if 0 < s.dropped then .gapping s.dropped else .selecting }
  else none

def Stream.emit (s : Stream) : Option Stream :=
  match s.consumer with
  | .gapping n => some { s with frames := s.frames ++ [.gap n], consumer := .selecting }
  | .sending frame => some { s with frames := s.frames ++ [frame], consumer := .head }
  | _ => none

def Stream.take (s : Stream) : Option Stream :=
  match s.consumer, s.buf with
  | .selecting, ev :: rest => some { s with buf := rest, consumer := .sending (.data ev) }
  | _, _ => none

/-- `none` where the action is not possible. -/
def Stream.act (depth : Nat) (f : Filter) (s : Stream) : TailAction → Option Stream
  | .cancel => some { s with cancelled := true }
  | .receive => s.receive
  | .close => if s.pump = .idle ∧ s.upstream = [] then some { s with pump := .done } else none
  | .quit => if s.pump = .idle ∧ s.cancelled then some { s with pump := .done } else none
  | .offer => s.offer depth f
  | .swap => s.swap
  | .emit => s.emit
  | .take => s.take
  | .tick => if s.consumer = .selecting then some { s with consumer := .sending .heartbeat } else none
  | .done => if s.consumer = .selecting ∧ s.cancelled then some { s with consumer := .returned .cancelled } else none
  | .closed =>
    if s.consumer = .selecting ∧ s.pump = .done then some { s with consumer := .returned .upstreamClosed } else none

def Stream.run (depth : Nat) (f : Filter) (s : Stream) (actions : List TailAction) : Option Stream :=
  actions.foldlM (Stream.act depth f) s

/-- The streams of a bus that delivers `events`, in every interleaving. -/
def tailSystem (depth : Nat) (f : Filter) (events : List LogEvent) : Runs.System Stream :=
  { init := fun s => s = Stream.start events, step := fun s t => ∃ a, s.act depth f a = some t }

/-! ## Counts -/

def Stream.sent (s : Stream) : List LogEvent := s.frames.filterMap fun | .data ev => some ev | _ => none

/-- The counts of the gaps, added up. -/
def Stream.gaps (s : Stream) : Nat := (s.frames.map fun | .gap n => n | _ => 0).sum

end Logalot.LiveTail
