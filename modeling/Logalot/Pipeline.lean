import Logalot.LogTable
import Logalot.Normalize
import Logalot.Lib.Runs

/-!
# The ingest pipeline

Ingest requests publish envelopes and wait for the broker's confirm
(`services/ingest-service/internal/app/ingest.go`, `pkg/broker/broker.go`);
consumers persist them in the hot store and ack, or nack into the dead-letter queue
(`services/processor/internal/app/processor.go`). Calls fail, processes crash and
connections break at any step.
-/

namespace Logalot

open Go Pg

/-- `json.Marshal` and `json.Unmarshal` at the type of envelopes. -/
structure EnvelopeJson where
  marshal : Envelope → Option Bytes
  unmarshal : Bytes → Option Envelope

/-- An encoded envelope that can be decoded, which one nested too deeply cannot, has its tenant back. The
payload is only kept up to white space and escapes. -/
def EnvelopeJson.KeepsTenant (w : EnvelopeJson) : Prop :=
  ∀ env body env', isUUID env.tenantId = true → w.marshal env = some body → w.unmarshal body = some env' →
    env'.tenantId = env.tenantId

/-! ## Messages -/

/-- What `Publish` sends: the broker handles the body; the rest says where it comes from, the event
at `index` of request `req`. -/
structure Message (w : EnvelopeJson) where
  req : Nat
  index : Nat
  tc : TenantContext
  env : Envelope
  body : Bytes
  valid : tc.valid = none
  tenant : env.tenantId = tc.tenantId
  encoded : w.marshal env = some body
  deriving DecidableEq

/-- A delivery stays unacked under its tag until it is settled or its channel closes. -/
structure Delivery (w : EnvelopeJson) where
  tag : Nat
  consumer : Nat
  msg : Message w
  deriving DecidableEq

variable {w : EnvelopeJson}

/-- `Broker.Publish` up to the send: the tenant is overwritten with that of the context, and a zero
receipt time with the clock. -/
def publish (w : EnvelopeJson) (req index : Nat) (tc : TenantContext) (env : Envelope) (now : Time) :
    Option (Message w) :=
  let env' := { env with
    tenantId := tc.tenantId, receivedAt := if isZero env.receivedAt then now else env.receivedAt }
  if hv : tc.valid = none then
    match hb : w.marshal env' with
    | none => none
    | some body => some ⟨req, index, tc, env', body, hv, rfl, hb⟩
  else none

/-! ## Ingest requests -/

inductive Response where
  /-- Status 202. -/
  | accepted (n : Nat)
  /-- Status 503. -/
  | unavailable (confirmed : Nat)
  deriving Repr, DecidableEq

inductive RequestPhase (w : EnvelopeJson) where
  | publishing
  | awaiting (m : Message w)
  | answered (r : Response)
  deriving DecidableEq

structure Request (w : EnvelopeJson) where
  tc : TenantContext
  raws : List Bytes
  receivedAt : Time
  published : Nat
  phase : RequestPhase w
  deriving DecidableEq

/-- `Ingest` first checks the tenant context. -/
def Request.new (tc : TenantContext) (raws : List Bytes) (receivedAt : Time) : Request w :=
  { tc, raws, receivedAt, published := 0
    phase := if tc.valid = none then .publishing else .answered (.unavailable 0) }

def Request.envelope (r : Request w) (raw : Bytes) : Envelope :=
  { tenantId := r.tc.tenantId, receivedAt := r.receivedAt, raw }

/-- The events of the batch, from the first on, that its answer reports as enqueued. -/
def Request.covered (r : Request w) : Nat :=
  match r.phase with
  | .answered (.accepted _) => r.raws.length
  | .answered (.unavailable k) => k
  | _ => 0

/-! ## The handler -/

structure Processor where
  maxRetries : Int
  cold : Bool

/-- `maxRetries + 1` in 64 bits, but one attempt at least. -/
def Processor.attempts (p : Processor) : Nat :=
  if Int.bmod (p.maxRetries + 1) (2 ^ 64) < 1 then 1 else (Int.bmod (p.maxRetries + 1) (2 ^ 64)).toNat

/-- Where a delivery's handler stands. `persist` and `archive` are the heads of the retry loops. -/
inductive Stage where
  | received
  | persist (tc : TenantContext) (ev : LogEvent) (attempt : Nat)
  | append (tc : TenantContext) (ev : LogEvent) (attempt : Nat)
  | tee (tc : TenantContext) (ev : LogEvent)
  | archive (tc : TenantContext) (ev : LogEvent) (attempt : Nat)
  | archiving (tc : TenantContext) (ev : LogEvent) (attempt : Nat)
  | fanOut (tc : TenantContext) (ev : LogEvent)
  | returned (ok : Bool)
  deriving Repr, DecidableEq

def messageContext (env : Envelope) : TenantContext :=
  { tenantId := env.tenantId, scopes := [scopeIngestWrite] }

/-- `handleDelivery` up to the persist loop of `Handle`. -/
def receive (w : EnvelopeJson) (dec : Decoder) (body : Bytes) (now : Time) : Stage :=
  match w.unmarshal body with
  | none => .returned false
  | some env =>
    match (messageContext env).valid with
    | some _ => .returned false
    | none =>
      match normalize dec (messageContext env) env now with
      | .error _ => .returned false
      | .ok ev => .persist (messageContext env) ev 0

/-- A retry loop stops when its attempts are spent, or after a first one once the process shuts down. -/
def Processor.stops (p : Processor) (cancelled : Bool) (attempt : Nat) : Prop :=
  p.attempts ≤ attempt ∨ (0 < attempt ∧ cancelled = true)

instance (p : Processor) (cancelled : Bool) (attempt : Nat) : Decidable (p.stops cancelled attempt) :=
  inferInstanceAs (Decidable (_ ∨ _))

/-- The next stage; `ok` is the outcome of the call the stage makes, if it makes one. -/
def Processor.advance (p : Processor) (cancelled ok : Bool) : Stage → Stage
  | .persist tc ev a => if p.stops cancelled a then .returned false else .append tc ev a
  | .append tc ev a => if ok then .tee tc ev else .persist tc ev (a + 1)
  | .tee tc ev => if p.cold && !cancelled then .archive tc ev 0 else .fanOut tc ev
  | .archive tc ev a => if p.stops cancelled a then .fanOut tc ev else .archiving tc ev a
  | .archiving tc ev a => if ok then .fanOut tc ev else .archive tc ev (a + 1)
  | .fanOut _ _ => .returned true
  | st => st

def Stage.isAppend : Stage → Bool
  | .append .. => true
  | _ => false

/-! ## The hot store -/

def nullIfEmpty (s : Bytes) : Option Bytes := if s = [] then none else some s

/-- The row `Append` inserts for an event; the database chooses the id. The tenant is that of the
context, not the one the event names. -/
def insertRow (tc : TenantContext) (ev : LogEvent) (now : Time) (id : Uuid) : Option Row :=
  if tc.valid = none then
    (uuidIn tc.tenantId).map fun u =>
      { tenantId := u
        ts := micros (if isZero ev.ts then now else ev.ts)
        id
        service := ev.service
        level := ev.level
        message := ev.message
        labels := ev.labels
        traceId := nullIfEmpty ev.traceId
        spanId := nullIfEmpty ev.spanId
        raw := if ev.raw = [] then bs "\x7b\x7d" else ev.raw }
  else none

structure HotRow (w : EnvelopeJson) where
  row : Row
  source : Message w

/-! ## States -/

/-- A processor: `inbox` holds the deliveries prefetched and not yet taken up. -/
structure Consumer (w : EnvelopeJson) where
  cancelled : Bool := false
  inbox : List (Delivery w) := []
  current : Option (Delivery w × Stage) := none

/-- `wire` holds what was sent and has not reached the broker. `confirmed` and `acked` only grow. -/
structure Pipeline (w : EnvelopeJson) where
  requests : Nat → Option (Request w)
  wire : List (Message w)
  queue : List (Message w)
  unacked : List (Delivery w)
  dlq : List (Message w)
  confirmed : List (Message w)
  acked : List (Message w)
  nextTag : Nat
  consumers : Nat → Consumer w
  hot : List (HotRow w)

def Pipeline.empty : Pipeline w :=
  { requests := fun _ => none
    wire := []
    queue := []
    unacked := []
    dlq := []
    confirmed := []
    acked := []
    nextTag := 0
    consumers := fun _ => {}
    hot := [] }

namespace Pipeline

def setRequest (s : Pipeline w) (i : Nat) (r : Request w) : Pipeline w :=
  { s with requests := Function.update s.requests i (some r) }

def setConsumer (s : Pipeline w) (c : Nat) (k : Consumer w) : Pipeline w :=
  { s with consumers := Function.update s.consumers c k }

def setCurrent (s : Pipeline w) (c : Nat) (j : Option (Delivery w × Stage)) : Pipeline w :=
  s.setConsumer c { s.consumers c with current := j }

def InFlight (s : Pipeline w) (m : Message w) : Prop := ∃ d ∈ s.unacked, d.msg = m

def Stored (s : Pipeline w) (m : Message w) : Prop := ∃ h ∈ s.hot, h.source = m

/-- Nothing of an event is lost while one of these holds of its message. -/
def Keeps (s : Pipeline w) (m : Message w) : Prop := m ∈ s.queue ∨ s.InFlight m ∨ s.Stored m ∨ m ∈ s.dlq

def Took (s : Pipeline w) (m : Message w) : Prop := m ∈ s.queue ∨ s.InFlight m ∨ m ∈ s.dlq ∨ m ∈ s.acked

/-! ## Steps of ingest -/

inductive IngestStep : Pipeline w → Pipeline w → Prop where
  | arrive {s : Pipeline w} (i : Nat) (tc : TenantContext) (raws : List Bytes) (receivedAt : Time) :
    s.requests i = none → IngestStep s (s.setRequest i (.new tc raws receivedAt))
  | send {s : Pipeline w} {i : Nat} {r : Request w} {raw : Bytes} {now : Time} {m : Message w} :
    s.requests i = some r → r.phase = .publishing → r.raws[r.published]? = some raw →
    publish w i r.published r.tc (r.envelope raw) now = some m →
    IngestStep s ({ s with wire := m :: s.wire }.setRequest i { r with phase := .awaiting m })
  /-- The confirm of the message has arrived. -/
  | published {s : Pipeline w} {i : Nat} {r : Request w} {m : Message w} :
    s.requests i = some r → r.phase = .awaiting m → m ∈ s.confirmed →
    IngestStep s (s.setRequest i { r with published := r.published + 1, phase := .publishing })
  /-- `Publish` fails: it cannot encode or send, the broker nacks, or the deadline passes. -/
  | publishFailed {s : Pipeline w} {i : Nat} {r : Request w} :
    s.requests i = some r → (r.phase = .publishing ∧ r.published < r.raws.length ∨ ∃ m, r.phase = .awaiting m) →
    IngestStep s (s.setRequest i { r with phase := .answered (.unavailable r.published) })
  | accepted {s : Pipeline w} {i : Nat} {r : Request w} :
    s.requests i = some r → r.phase = .publishing → r.published = r.raws.length →
    IngestStep s (s.setRequest i { r with phase := .answered (.accepted r.published) })

/-! ## Steps of the broker -/

inductive BrokerStep : Pipeline w → Pipeline w → Prop where
  | enqueue {s : Pipeline w} {m : Message w} :
    m ∈ s.wire → BrokerStep s { s with wire := s.wire.erase m, queue := s.queue ++ [m] }
  | drop {s : Pipeline w} {m : Message w} : m ∈ s.wire → BrokerStep s { s with wire := s.wire.erase m }
  | confirm {s : Pipeline w} {m : Message w} :
    s.Took m → BrokerStep s { s with confirmed := m :: s.confirmed }
  /-- Until it is confirmed, a message may be lost. -/
  | lose {s : Pipeline w} {m : Message w} :
    m ∈ s.queue → m ∉ s.confirmed → BrokerStep s { s with queue := s.queue.erase m }
  | loseUnacked {s : Pipeline w} {d : Delivery w} :
    d ∈ s.unacked → d.msg ∉ s.confirmed → BrokerStep s { s with unacked := s.unacked.erase d }
  | deliver {s : Pipeline w} {m : Message w} {d : Delivery w} (c : Nat) :
    m ∈ s.queue → d = ⟨s.nextTag, c, m⟩ →
    BrokerStep s ({ s with
      queue := s.queue.erase m, unacked := d :: s.unacked, nextTag := s.nextTag + 1 }.setConsumer c
        { s.consumers c with inbox := (s.consumers c).inbox ++ [d] })
  /-- The channel of a delivery is gone: a crash, a shutdown or a broken connection. -/
  | requeue {s : Pipeline w} {d : Delivery w} :
    d ∈ s.unacked → BrokerStep s { s with unacked := s.unacked.erase d, queue := s.queue ++ [d.msg] }

/-! ## Steps of the processors -/

/-- An ack or a nack that fails, or that names a delivery the broker no longer waits for, has no
effect there. -/
inductive ProcessorStep (dec : Decoder) (p : Nat → Processor) : Pipeline w → Pipeline w → Prop where
  | take {s : Pipeline w} {c : Nat} {d : Delivery w} :
    (s.consumers c).current = none → d ∈ (s.consumers c).inbox →
    ProcessorStep dec p s (s.setConsumer c
      { s.consumers c with inbox := (s.consumers c).inbox.erase d, current := some (d, .received) })
  | receive {s : Pipeline w} {c : Nat} {d : Delivery w} (now : Time) :
    (s.consumers c).current = some (d, .received) →
    ProcessorStep dec p s (s.setCurrent c (some (d, receive w dec d.msg.body now)))
  /-- Every step of the handler but a successful `Append`. -/
  | advance {s : Pipeline w} {c : Nat} {d : Delivery w} {st : Stage} (ok : Bool) :
    (s.consumers c).current = some (d, st) → ¬ (st.isAppend = true ∧ ok = true) →
    ProcessorStep dec p s (s.setCurrent c (some (d, (p c).advance (s.consumers c).cancelled ok st)))
  /-- `Append` commits its row and returns nil. -/
  | commit {s : Pipeline w} {c : Nat} {d : Delivery w} {tc : TenantContext} {ev : LogEvent} {a : Nat}
      {now : Time} {id : Uuid} {row : Row} :
    (s.consumers c).current = some (d, .append tc ev a) → insertRow tc ev now id = some row →
    row.pk ∉ s.hot.map (·.row.pk) →
    ProcessorStep dec p s ({ s with hot := ⟨row, d.msg⟩ :: s.hot }.setCurrent c
      (some (d, (p c).advance (s.consumers c).cancelled true (.append tc ev a))))
  | ack {s : Pipeline w} {c : Nat} {d : Delivery w} :
    (s.consumers c).current = some (d, .returned true) → d ∈ s.unacked →
    ProcessorStep dec p s
      ({ s with unacked := s.unacked.erase d, acked := d.msg :: s.acked }.setCurrent c none)
  /-- Without requeue: the message goes to the dead-letter queue. -/
  | nack {s : Pipeline w} {c : Nat} {d : Delivery w} :
    (s.consumers c).current = some (d, .returned false) → d ∈ s.unacked →
    ProcessorStep dec p s ({ s with unacked := s.unacked.erase d, dlq := s.dlq ++ [d.msg] }.setCurrent c none)
  | settleFailed {s : Pipeline w} {c : Nat} {d : Delivery w} {ok : Bool} :
    (s.consumers c).current = some (d, .returned ok) → ProcessorStep dec p s (s.setCurrent c none)
  | cancel {s : Pipeline w} (c : Nat) :
    ProcessorStep dec p s (s.setConsumer c { s.consumers c with cancelled := true })
  /-- The process stops, by a crash or at the end of a shutdown, and one with nothing in hand takes its
  place. The broker has yet to notice. -/
  | crash {s : Pipeline w} (c : Nat) : ProcessorStep dec p s (s.setConsumer c {})

def Step (dec : Decoder) (p : Nat → Processor) (s t : Pipeline w) : Prop :=
  IngestStep s t ∨ BrokerStep s t ∨ ProcessorStep dec p s t

def system (dec : Decoder) (p : Nat → Processor) : Runs.System (Pipeline w) :=
  { init := fun s => s = .empty, step := Step dec p }

end Pipeline

end Logalot
