import Mathlib.Algebra.GroupWithZero.Nat
import Yuzora.EventQueue
import Yuzora.WriteJob
/-!
# InputAudit — one stream's inputs and their audit

A control or full stream of the peer, a step at a time: the reactor's ways to tear it down and its timed flush, the
executor's input jobs, the Host's end, the clock, and the other producers of the admin queue.  The bucket outlives the
stream in the closures of its jobs.  `counted`, `admitted`, `received`, `enqueued` and `discarded` keep what the code
does not.
-/
namespace Yuzora
namespace Writes

structure Input where
  serial : Nat
  bytes : Nat
  «until» : Timestamp

/-- `counted` are the serials of the inputs in it. -/
structure Bucket where
  «until» : Timestamp
  bytes : Nat
  counted : List Nat

/-- An event of the admin queue: this stream's audit of inputs, or any other. -/
inductive AuditEvent
  | input (action : String) (bytes : Nat)
  | other

def AuditEvent.bytes : AuditEvent → Nat
  | .input _ bytes => bytes
  | .other => 0

/-! ## The job -/

inductive InputPlace
  | checking (todo : List Load)
  | locking
  /-- The bucket's lock is held. -/
  | reserving
  | counting
  /-- The lock is free again; `started` is not yet set. -/
  | starting
  | rechecking (todo : List Load)
  | ended

def InputPlace.locked : InputPlace → Bool
  | .reserving | .counting => true
  | _ => false

structure Running where
  input : Input
  started : Bool
  cancelled : Bool
  place : InputPlace

/-! ## The reactor -/

/-- A step of the reactor on the stream. -/
inductive Act
  | close (reason : Code)
  /-- The tick's look at the deadline. -/
  | expire
  | endLife
  /-- The tick's `flush(false)` -/
  | flush
  /-- The forced flush of `WriteStream::drop`. -/
  | drop
  /-- Its queued inputs are cancelled. -/
  | discard
  deriving DecidableEq

/-- The rest of `WriteStream::drop` closes a stream that is still open. -/
def dropStream : List Act := [.drop, .close "peer-closed"]

/-- What the reactor does to the stream. -/
inductive Reactor
  /-- `terminal.release`, `full.close` -/
  | release
  /-- An admitted `full.open` of its session takes its place. -/
  | displaced
  /-- Its own open was refused by the executor. -/
  | refused
  | stalled
  | tick
  /-- A job of the stream ended with an error. -/
  | failed (code : Code)
  | closed
  | cancelWrites (reason : Code)
  | dropReads

structure InputState where
  scope : Scope
  life : Life
  closed : Option Code
  deadline : Timestamp
  clock : Timestamp
  bucket : Option Bucket
  events : EventQueue AuditEvent
  /-- The stream is in the peer's table; the Host's resource is held. -/
  present : Bool
  lease : Bool
  writes : List Input
  /-- What the reactor has still to do. -/
  todo : List Act
  /-- The forced flush has run. -/
  gone : Bool
  running : Option Running
  admitted : Nat
  received : List Input
  enqueued : List AuditEvent
  discarded : List Bucket

inductive InputLabel
  | write (bytes : Nat) («until» : Timestamp)
  | pump
  /-- The executor has no slot. -/
  | busy
  /-- The open's result brings the lease. -/
  | opened
  | reactor (op : Reactor)
  | act
  /-- A step of the job; `contended` if a permit is in another producer's hands for the moment. -/
  | execute (contended : Bool)
  | cancel
  /-- The last owner of the bucket goes. -/
  | forget
  | invalidate
  | shutdown (code : Nat)
  | closeStream (reason : Code)
  | tick (t : Timestamp)
  | elsewhere (move : EventQueue.Move AuditEvent)

namespace InputState

variable (s : InputState)

def job (input : Input) : Job := ⟨.input, input.until, s.deadline, none⟩

def memory (r : Running) : Shared := ⟨r.started, r.cancelled, s.life, s.closed, s.clock⟩

def action : String := if s.scope = .full then "full.input" else "terminal.input"

def shut (reason : Code) : InputState := { s with closed := some (s.closed.getD reason) }

/-- `WriteStream::flush`: the bucket goes out through its reservation. -/
def emitBucket (b : Bucket) : InputState :=
  match s.events.emit .bucket (.input s.action b.bytes) with
  | some events => { s with bucket := none, events, enqueued := s.enqueued ++ [.input s.action b.bytes] }
  | none => { s with bucket := none, discarded := s.discarded ++ [b] }

def flush (force : Bool) : InputState :=
  match s.bucket with
  | some b => if force ∨ b.until ≤ s.clock then s.emitBucket b else s
  | none => s

def locked (s : InputState) : Bool := s.running.any (fun r => r.place.locked)

def perform : Act → InputState
  | .close reason => s.shut reason
  | .expire => if s.deadline ≤ s.clock then s.shut "elevation-expired" else s
  | .endLife => { s with life := { s.life with alive := false } }
  | .flush => s.flush false
  | .drop => { s.flush true with gone := true }
  | .discard => { s with writes := [] }

/-- The steps of an operation, in the source's order, and whether the stream leaves the table. -/
def program : Reactor → Option (List Act × Bool)
  | .release => if s.present then some (.close "client-closed" :: dropStream ++ [.discard], true) else none
  | .displaced =>
    if s.present ∧ s.scope = .control then some (.close "full-opened" :: dropStream ++ [.discard], true) else none
  | .refused => if s.present ∧ s.lease = false then some (dropStream, true) else none
  | .stalled =>
    if s.present then
      if s.lease then some ([.close "stream-stalled"], false)
      else some (.close "stream-stalled" :: dropStream ++ [.discard], true)
    else none
  | .tick => if s.present then some ([.expire, .flush], false) else none
  | .failed code =>
    if s.present then
      if s.lease then some (if code = "stream-stalled" then [.close code] else [], false)
      else some (.close code :: dropStream, true)
    else none
  | .closed =>
    if s.present ∧ s.lease = true ∧ s.closed.isSome then some (dropStream ++ [.discard], true) else none
  | .cancelWrites reason => some (.endLife :: (if s.present then [.close reason] else []) ++ [.discard], false)
  | .dropReads => some (.endLife :: (if s.present then dropStream else []) ++ [.discard], true)

/-! ## The executor -/

def moved (r : Running) (place : InputPlace) : InputState := { s with running := some { r with place } }

/-- `bucket.lock()` to `drop(b)`: a bucket, unless there is one or no permit. -/
def reserve (s : InputState) (contended : Bool) : InputState :=
  match s.bucket with
  | some _ => s
  | none =>
    match if contended then none else s.events.reserve .bucket with
    | some events => { s with events, bucket := some ⟨s.clock.after (seconds 10), 0, []⟩ }
    | none => s

def count (input : Input) (contended : Bool) : Option InputState :=
  match s.bucket with
  | some b => some { s with bucket := some { b with bytes := b.bytes + input.bytes, counted := b.counted ++ [input.serial] } }
  | none =>
    match if contended then none else s.events.tryEmit (.input s.action input.bytes) true with
    | some events => some { s with events, enqueued := s.enqueued ++ [.input s.action input.bytes] }
    | none => none

def execute (r : Running) (contended : Bool) : InputState :=
  match r.place with
  | .checking (load :: todo) =>
    s.moved r (if load.passes (s.job r.input) (s.memory r) then .checking todo else .ended)
  | .checking [] => s.moved r (if s.events.available && !contended then .locking else .ended)
  | .locking => s.moved r .reserving
  | .reserving => (s.reserve contended).moved r .counting
  | .counting =>
    match s.count r.input contended with
    | some s => s.moved r .starting
    | none => s.moved r .ended
  | .starting => s.moved { r with started := true } (.rechecking (s.job r.input).check)
  | .rechecking (load :: todo) =>
    s.moved r (if load.passes (s.job r.input) (s.memory r) then .rechecking todo else .ended)
  | .rechecking [] =>
    -- `port.input`
    { s.moved r .ended with received := s.received ++ [r.input] }
  | .ended => { s with running := none }

/-! ## Steps -/

def elsewhere (move : EventQueue.Move AuditEvent) : Option InputState :=
  match s.events.move move with
  | some events => if s.bucket.isSome → 0 < events.reserved.buckets then some { s with events } else none
  | none => none

def step : InputLabel → Option InputState
  | .write bytes «until» =>
    if s.todo = [] ∧ s.present = true ∧ s.lease = true ∧ bytes ≤ INPUT_BYTES ∧ s.writes.length < WRITE_QUEUE then
      some { s with writes := s.writes ++ [⟨s.admitted, bytes, «until»⟩], admitted := s.admitted + 1 }
    else none
  | .pump =>
    match s.todo, s.running, s.writes with
    | [], none, input :: rest =>
      some { s with writes := rest, running := some ⟨input, false, false, .checking (s.job input).check⟩ }
    | _, _, _ => none
  | .busy =>
    match s.todo, s.running, s.writes with
    | [], none, _ :: rest => some { s with writes := rest }
    | _, _, _ => none
  | .opened => if s.todo = [] ∧ s.present = true then some { s with lease := true } else none
  | .reactor op =>
    match s.todo, s.program op with
    | [], some (todo, leaves) => some { s with todo, present := s.present && !leaves }
    | _, _ => none
  | .act =>
    match s.todo with
    | a :: rest =>
      -- a flush waits for the lock
      if s.locked = true ∧ (a = .flush ∨ a = .drop) then none else some (({ s with todo := rest } : InputState).perform a)
    | [] => none
  | .execute contended => s.running.map (fun r => s.execute r contended)
  | .cancel => s.running.map (fun r => { s with running := some { r with cancelled := true } })
  | .forget =>
    match s.bucket with
    | some b =>
      if s.gone = true ∧ s.todo = [] ∧ s.running.isNone ∧ s.writes = [] then
        some { s with bucket := none, events := s.events.unreserve .bucket, discarded := s.discarded ++ [b] }
      else none
    | none => none
  | .invalidate => some { s with life := { s.life with invalidated := true } }
  | .shutdown code => if code ≠ 0 then some { s with life := { s.life with stop := code } } else none
  | .closeStream reason => some (s.shut reason)
  | .tick t => if s.clock ≤ t then some { s with clock := t } else none
  | .elsewhere move => s.elsewhere move

end InputState

/-- A stream that `full.open` or `terminal.control` has just put in the table. -/
def InputInit (s : InputState) : Prop :=
  s.closed = none ∧ s.bucket = none ∧ s.present = true ∧ s.lease = false ∧ s.writes = [] ∧ s.todo = [] ∧ s.gone = false ∧
    s.running = none ∧ s.received = [] ∧ s.enqueued = [] ∧ s.discarded = []

abbrev InputRun (l : List (Transition InputState InputLabel)) (s : InputState) : Prop :=
  Trace InputInit (fun s label t => s.step label = some t) l s

end Writes
end Yuzora
