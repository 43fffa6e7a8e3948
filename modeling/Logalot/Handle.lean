import Logalot.Pipeline

/-!
# Handling a delivery

`Handle` with the retry loops of `persist` and `archiveCold`
(`services/processor/internal/app/processor.go`), one program point at a time, so
that the lifecycle context can be cancelled between any two of them. The calls it
makes and how they ended are recorded, and so are the cancellation and the sleeps
of `persist`. The handler of the pipeline takes a sleep and its attempt as one.
-/

namespace Logalot

open Go

inductive HandleError where
  | poison (p : Poison)
  | append (err : Bytes)
  deriving Repr, DecidableEq

/-- Where a call of `Handle` stands: `persist` and `archive` are the heads of the loops, `backoff` and
`archiveBackoff` are in `s.sleep`. -/
inductive HandleStage where
  | received
  | persist (ev : LogEvent) (attempt : Nat) (lastErr : Option Bytes)
  | backoff (ev : LogEvent) (attempt : Nat) (lastErr : Option Bytes)
  | appending (ev : LogEvent) (attempt : Nat) (lastErr : Option Bytes)
  | tee (ev : LogEvent)
  | archive (ev : LogEvent) (attempt : Nat)
  | archiveBackoff (ev : LogEvent) (attempt : Nat)
  | archiving (ev : LogEvent) (attempt : Nat)
  | fanOut (ev : LogEvent)
  | publishing (ev : LogEvent)
  | returned (err : Option HandleError)
  deriving Repr, DecidableEq

inductive HandleEvent where
  | cancelled
  | sleepStarted
  | appendStarted
  | appendEnded (err : Option Bytes)
  | archiveStarted
  | archiveEnded (err : Option Bytes)
  | publishStarted
  | publishEnded (err : Option Bytes)
  deriving Repr, DecidableEq

/-- A service and what it is called with; the clock reads `now` in `Normalize`. -/
structure HandleCall where
  processor : Processor
  dec : Decoder
  tc : TenantContext
  env : Envelope
  now : Time

def HandleCall.normalized (c : HandleCall) : Except Poison LogEvent := normalize c.dec c.tc c.env c.now

/-- What `Handle` does with the result of `persist`. -/
def afterPersist (ev : LogEvent) : Option Bytes → HandleStage
  | none => .tee ev
  | some e => .returned (some (.append e))

/-- What is recorded and where the call goes on; `err` is what the call in progress returns, if one is. -/
def HandleCall.next (c : HandleCall) (cancelled : Bool) (err : Option Bytes) :
    HandleStage → Option HandleEvent × HandleStage
  | .received =>
    match c.normalized with
    | .error p => (none, .returned (some (.poison p)))
    | .ok ev => (none, .persist ev 0 none)
  | .persist ev a lastErr =>
    if c.processor.attempts ≤ a then (none, afterPersist ev lastErr)
    else if a = 0 then (some .appendStarted, .appending ev a lastErr)
    else if cancelled then (none, afterPersist ev lastErr)
    else (some .sleepStarted, .backoff ev a lastErr)
  | .backoff ev a lastErr => (some .appendStarted, .appending ev a lastErr)
  | .appending ev a _ =>
    (some (.appendEnded err), match err with | none => .tee ev | some e => .persist ev (a + 1) (some e))
  | .tee ev => (none, if c.processor.cold && !cancelled then .archive ev 0 else .fanOut ev)
  | .archive ev a =>
    if c.processor.attempts ≤ a then (none, .fanOut ev)
    else if a = 0 then (some .archiveStarted, .archiving ev a)
    else if cancelled then (none, .fanOut ev)
    else (none, .archiveBackoff ev a)
  | .archiveBackoff ev a => (some .archiveStarted, .archiving ev a)
  | .archiving ev a => (some (.archiveEnded err), match err with | none => .fanOut ev | some _ => .archive ev (a + 1))
  | .fanOut ev => (some .publishStarted, .publishing ev)
  | .publishing _ => (some (.publishEnded err), .returned none)
  | .returned r => (none, .returned r)

structure HandleState where
  stage : HandleStage := .received
  cancelled : Bool := false
  trace : List HandleEvent := []
  deriving Repr, DecidableEq

inductive HandleAction where
  | advance (err : Option Bytes)
  | cancel
  deriving Repr, DecidableEq

def HandleState.act (c : HandleCall) (s : HandleState) : HandleAction → HandleState
  | .advance err =>
    { s with
      stage := (c.next s.cancelled err s.stage).2
      trace := s.trace ++ (c.next s.cancelled err s.stage).1.toList }
  | .cancel => if s.cancelled then s else { s with cancelled := true, trace := s.trace ++ [.cancelled] }

/-- The outcomes of the calls and the point of cancellation are those of the actions. -/
def HandleCall.run (c : HandleCall) (acts : List HandleAction) : HandleState := acts.foldl (HandleState.act c) {}

/-! ## In the pipeline -/

def HandleStage.abs (tc : TenantContext) : HandleStage → Stage
  | .received => .received
  | .persist ev a _ => .persist tc ev a
  | .backoff ev a _ | .appending ev a _ => .append tc ev a
  | .tee ev => .tee tc ev
  | .archive ev a => .archive tc ev a
  | .archiveBackoff ev a | .archiving ev a => .archiving tc ev a
  | .fanOut ev | .publishing ev => .fanOut tc ev
  | .returned err => .returned err.isNone

end Logalot
