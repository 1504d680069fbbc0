import Yuzora.Admin
import Yuzora.Table
/-!
# WriteQueue — one peer's write requests, from admission to answer

The reactor owns the queue: it admits a request, hands one job at a time to the blocking executor, and answers with the
job's result or in its place.  A request is named by a `serial` that the code does not have, since a client may use an
id twice.  What a job does is another module's matter; here it ends with some result.
-/
namespace Yuzora
namespace Writes

def INPUT_BYTES : Nat := 4096
def PROMPT_BYTES : Nat := 16 * 1024
def WRITE_QUEUE : Nat := 16
def MAX_STREAMS : Nat := 8
def INLINE_BYTES : Nat := 48 * 1024

abbrev Code := String

structure Life where
  alive : Bool
  invalidated : Bool
  stop : Nat

def Life.active (life : Life) : Bool := life.alive && !life.invalidated && life.stop == 0

structure WriteStream where
  scope : Scope
  takeover : Bool
  announced : Bool

/-- A stream of the peer: `lease` says whether the Host's resource is held, `write` is there for control and full
streams. -/
structure Stream where
  session : String
  lease : Bool
  closed : Option Code
  deadline : Option Timestamp
  write : Option WriteStream

def Stream.close (s : Stream) (reason : Code) : Stream := { s with closed := some (s.closed.getD reason) }

def Stream.hasScope (s : Stream) (scope : Scope) : Bool := s.write.any (fun w => w.scope = scope)

/-! ## Requests -/

/-- A write request, its JSON parsed; `malformed` keeps what the checks before the parsing read. -/
inductive Request
  | control (session target : String) (takeover confirmResize : Bool)
  | full (session : String) (cols rows : Nat) (confirmResize : Bool)
  | input (scope : Scope) (stream : Nat) (bytes : List UInt8)
  | scroll (stream lines : Nat)
  | resize (stream cols rows : Nat) (confirmResize : Bool)
  | prompt (session target text : String)
  | keys (session target : String) (keys : List String)
  | release (stream : Nat)
  | fullClose (stream : Nat)
  | malformed (stream : Option Nat)

/-- `params["stream"]`, cut to 32 bits. -/
def Request.stream : Request → Option Nat
  | .input _ stream _ | .scroll stream _ | .resize stream _ _ _ | .release stream | .fullClose stream => some stream
  | .malformed stream => stream.map (· % 4294967296)
  | _ => none

/-- `herdr::valid_id`. -/
def validId (value : String) : Bool :=
  !value.isEmpty && decide (value.utf8ByteSize ≤ 128) && !(value.toList.head?.any isWhitespace) &&
    !(value.toList.getLast?.any isWhitespace) && decide (value.toList.head? ≠ some '-') &&
    !value.toList.any isControl

def fullSize (cols rows : Nat) (confirmed : Bool) : Except Code (Nat × Nat) :=
  if ¬ (20 ≤ cols ∧ cols ≤ 400) ∨ ¬ (8 ≤ rows ∧ rows ≤ 200) then .error "invalid-params"
  else if !confirmed then .error "size-confirmation-required"
  else .ok (cols, rows)

def mappedKey : String → Option String
  | "Enter" => some "enter"
  | "Escape" => some "esc"
  | "Tab" => some "tab"
  | "BackTab" => some "shift+tab"
  | "ArrowUp" => some "up"
  | "ArrowDown" => some "down"
  | "ArrowLeft" => some "left"
  | "ArrowRight" => some "right"
  | "Ctrl-C" => some "ctrl+c"
  | "Ctrl-D" => some "ctrl+d"
  | _ => none

def mappedKeys (keys : List String) : Except Code (List String) :=
  if keys.isEmpty ∨ keys.length > 32 then .error "invalid-params"
  else match keys.mapM mappedKey with
    | none => .error "key-not-allowed"
    | some keys => .ok keys

/-! ## The queue -/

/-- A message to the phone: the answers to queued writes carry their serial. -/
inductive Reply
  | result (serial : Option Nat) (id : String)
  | writeError (serial : Nat) (id : String) (stream : Option Nat) (code : Code)
  | error (id : String) (code : Code)
  | streamClosed (stream : Nat) (reason : Code)
  deriving DecidableEq

def Reply.serial : Reply → Option Nat
  | .result serial _ => serial
  | .writeError serial _ _ _ => some serial
  | _ => none

structure Work where
  serial : Nat
  device : String
  id : String
  stream : Option Nat
  input : Bool
  deriving DecidableEq

structure PendingWrite where
  serial : Nat
  id : String
  stream : Option Nat
  input : Bool

def Work.pending (work : Work) : PendingWrite := ⟨work.serial, work.id, work.stream, work.input⟩

/-- The code of a cancelled request: whether its job had started. -/
def cancelCode (input unknown : Bool) : Code :=
  match input, unknown with
  | true, true => "input-outcome-unknown"
  | true, false => "input-dropped"
  | false, true => "write-outcome-unknown"
  | false, false => "write-dropped"

def PendingWrite.cancelled (write : PendingWrite) (unknown : Bool) : Reply :=
  .writeError write.serial write.id write.stream (cancelCode write.input unknown)

structure Watchdog where
  «until» : Timestamp
  serial : Nat
  id : String
  stream : Option Nat

structure Queue where
  receiver : List Work
  active : Bool
  stalled : Bool
  watchdog : Option Watchdog
  stalledStream : Option Nat
  activeWrite : Option PendingWrite
  cancelled : List Reply

namespace Queue

def new : Queue :=
  { receiver := [], active := false, stalled := false, watchdog := none, stalledStream := none, activeWrite := none
    cancelled := [] }

variable (q : Queue)

def finished : Bool × Queue :=
  (q.stalled, { q with active := false, watchdog := none, activeWrite := none, stalled := false })

/-- `Sender::try_send` on the bounded channel. -/
def trySend (work : Work) : Option Queue :=
  if q.receiver.length < WRITE_QUEUE then some { q with receiver := q.receiver ++ [work] } else none

def resend (work : Work) : Queue := (q.trySend work).getD q

/-- `discard_write_stream`; `started` are the flags as the cancellation loads them. -/
def discardStream (stream : Nat) (started : Nat → Bool) : Queue :=
  let (dropped, retained) := q.receiver.partition (fun work => work.stream = some stream)
  retained.foldl resend { q with
    receiver := []
    cancelled := q.cancelled ++ dropped.map (fun work => work.pending.cancelled (started work.serial)) }

end Queue

/-! ## The peer -/

/-- What a job ends with. -/
inductive Output
  | value (size : Nat)
  | snapshot
  | opened
  deriving DecidableEq

/-- A job's result on its way to the reactor; a read's has no serial. -/
structure Completion where
  serial : Option Nat
  id : String
  stream : Option Nat
  result : Except Code Output

/-- The peer of one connection: `submitted` are the write jobs whose results have not come back. -/
structure Reads where
  life : Life
  streams : Table Nat Stream
  nextId : Nat
  writes : Queue
  submitted : List Work
  /-- How many requests the queue has taken. -/
  admitted : Nat

namespace Reads

def new (life : Life) : Reads :=
  { life, streams := Table.empty, nextId := 1, writes := Queue.new, submitted := [], admitted := 0 }

/-- What admission finds outside the peer. -/
structure Admission where
  device : String
  «until» : Timestamp
  /-- A tightening event of the device waits for the admin queue. -/
  deferred : Bool
  /-- The device's one full client is free. -/
  fullFree : Bool
  /-- An executor slot for the resource is free. -/
  reserved : Bool

variable (reads : Reads)

/-- The channel takes the request: what admission answered with `Ok(None)`. -/
def enqueue (device id : String) (stream : Option Nat) (input : Bool) : Option Reads :=
  (reads.writes.trySend ⟨reads.admitted, device, id, stream, input⟩).map (fun writes =>
    { reads with writes, admitted := reads.admitted + 1 })

def discardWriteStream (stream : Nat) (started : Nat → Bool) : Reads :=
  { reads with writes := reads.writes.discardStream stream started }

/-- `terminal.release` and `full.close`. -/
def close (id : String) (scope : Scope) (stream : Nat) (started : Nat → Bool) :
    Except Code (Option Reply) × Reads :=
  match reads.streams.get stream with
  | none => (.error "stream-not-found", reads)
  | some s =>
    if !s.hasScope scope then (.error "invalid-stream-type", reads)
    else (.ok (some (.result none id)),
      { reads with streams := reads.streams.erase stream }.discardWriteStream stream started)

/-- `admit_open`, the request parsed and checked. -/
def openStream (id : String) (scope : Scope) (session : String) (takeover : Bool)
    (admission : Admission) : Except Code (Option Reply) × Reads :=
  if scope = .full ∧ !admission.fullFree then (.error "full-limit", reads)
  else if !admission.reserved then (.error "busy", reads)
  else if reads.nextId + 1 ≥ 4294967296 then (.error "stream-limit", reads)
  else
    let stream := reads.nextId
    let reads := { reads with nextId := reads.nextId + 1 }
    match reads.enqueue admission.device id (some stream) false with
    | none => (.error "busy", reads)
    | some reads =>
      (.ok none, { reads with
        streams := reads.streams.insert stream
          { session, lease := false, closed := none, deadline := some admission.until
            write := some { scope, takeover, announced := false } } })

def admitOpen (id : String) (request : Request) (admission : Admission) :
    Except Code (Option Reply) × Reads :=
  if admission.deferred then (.error "audit-unavailable", reads)
  else if reads.streams.size ≥ MAX_STREAMS then (.error "stream-limit", reads)
  else match request with
    | .control session target takeover confirmResize =>
      if !validId target then (.error "invalid-params", reads)
      else if !confirmResize then (.error "size-confirmation-required", reads)
      else reads.openStream id .control session takeover admission
    | .full session cols rows confirmResize =>
      match fullSize cols rows confirmResize with
      | .error e => (.error e, reads)
      | .ok _ => reads.openStream id .full session false admission
    | _ => (.error "invalid-params", reads)

def admitCall (id target : String) (admission : Admission) : Except Code (Option Reply) × Reads :=
  if !validId target then (.error "invalid-params", reads)
  else match reads.enqueue admission.device id none false with
    | none => (.error "busy", reads)
    | some reads => (.ok none, reads)

def admitOn (id : String) (scope : Scope) (stream : Nat) (input : Bool) (admission : Admission) :
    Except Code (Option Reply) × Reads :=
  match reads.streams.get stream with
  | none => (.error "stream-not-found", reads)
  | some s =>
    if !s.hasScope scope then (.error "invalid-stream-type", reads)
    else if !s.lease then (.error "busy", reads)
    else match reads.enqueue admission.device id (some stream) input with
      | none => (.error "busy", reads)
      | some reads => (.ok none, reads)

def admitWrite (id : String) (request : Request) (admission : Admission) (started : Nat → Bool) :
    Except Code (Option Reply) × Reads :=
  match request with
  | .release stream => reads.close id .control stream started
  | .fullClose stream => reads.close id .full stream started
  | _ =>
    if reads.writes.stalled then
      if request.stream.any (fun s => some s = reads.writes.stalledStream) then (.error "stream-stalled", reads)
      else (.error "busy", reads)
    else if reads.writes.receiver.length ≥ WRITE_QUEUE then (.error "busy", reads)
    else match request with
      | .control .. | .full .. => reads.admitOpen id request admission
      | .prompt _ target text =>
        if text.utf8ByteSize > PROMPT_BYTES then (.error "payload-too-large", reads)
        else reads.admitCall id target admission
      | .keys _ target keys =>
        match mappedKeys keys with
        | .error e => (.error e, reads)
        | .ok _ => reads.admitCall id target admission
      | .input scope stream bytes =>
        if bytes.length > INPUT_BYTES then (.error "payload-too-large", reads)
        else reads.admitOn id scope stream true admission
      | .scroll stream lines =>
        if lines = 0 ∨ lines > 1000 then (.error "invalid-params", reads)
        else reads.admitOn id .control stream false admission
      | .resize stream cols rows confirmResize =>
        match fullSize cols rows confirmResize with
        | .error e => (.error e, reads)
        | .ok _ => reads.admitOn id .full stream false admission
      | _ => (.error "invalid-params", reads)

/-- `closed`: every leased stream that is closed goes, in the order of an iteration. -/
def removeClosed (reads : Reads) (started : Nat → Bool) : List (Nat × Code) → List Reply × Reads
  | [] => ([], reads)
  | (id, reason) :: rest =>
    let (replies, reads) :=
      removeClosed ({ reads with streams := reads.streams.erase id }.discardWriteStream id started) started rest
    (.streamClosed id reason :: replies, reads)

def closed (reads : Reads) (visit : Visit (Nat × Stream)) (started : Nat → Bool) : List Reply × Reads :=
  reads.removeClosed started ((visit.order reads.streams.entries).filterMap (fun (id, s) =>
    if s.lease then s.closed.map (fun reason => (id, reason)) else none))

/-- The control streams of the session that an admitted `full.open` displaces. -/
def displaced (work : Work) (visit : Visit (Nat × Stream)) : List Nat :=
  match work.stream.bind reads.streams.get with
  | none => []
  | some full =>
    if !full.lease && full.hasScope .full then
      ((visit.order reads.streams.entries).filter (fun (_, s) =>
        s.session = full.session && s.hasScope .control)).map Prod.fst
    else []

def displace (reads : Reads) (started : Nat → Bool) : List Nat → List Reply × Reads
  | [] => ([], reads)
  | id :: rest =>
    let (replies, reads) :=
      displace ({ reads with streams := reads.streams.erase id }.discardWriteStream id started) started rest
    (.streamClosed id "full-opened" :: replies, reads)

def pumpWrites (submit : Except Code Unit) (visit : Visit (Nat × Stream)) (started : Nat → Bool)
    (now : Timestamp) : List Reply × Reads :=
  if reads.writes.active then ([], reads)
  else match reads.writes.receiver with
    | [] => ([], reads)
    | work :: receiver =>
      let gone := reads.displaced work visit
      let reads := { reads with writes := { reads.writes with receiver } }
      match submit with
      | .ok () =>
        let (replies, reads) := reads.displace started gone
        (replies, { reads with
          writes := { reads.writes with
            active := true
            watchdog := some ⟨now.after (seconds 10), work.serial, work.id, work.stream⟩
            activeWrite := some work.pending }
          submitted := reads.submitted ++ [work] })
      | .error code =>
        let streams := match work.stream with
          | none => reads.streams
          | some stream =>
            if (reads.streams.get stream).any (fun s => !s.lease) then reads.streams.erase stream else reads.streams
        ([.writeError work.serial work.id work.stream code], { reads with streams })

/-- The code's `failure`: the two kinds of completion have errors of different shapes. -/
def failure (completion : Completion) (code : Code) : Reply :=
  match completion.serial with
  | some serial => .writeError serial completion.id completion.stream code
  | none => .error completion.id code

def failStream (completion : Completion) (code : Code) : Reads :=
  match completion.stream with
  | none => reads
  | some stream =>
    match reads.streams.get stream with
    | none => reads
    | some s =>
      if completion.serial.isNone ∨ !s.lease then { reads with streams := reads.streams.erase stream }
      else if code = "stream-stalled" then { reads with streams := reads.streams.insert stream (s.close code) }
      else reads

def opened (completion : Completion) : List Reply × Reads :=
  match completion.stream with
  | none => ([failure completion "stream-closed"], reads)
  | some stream =>
    match reads.streams.get stream with
    | none => ([failure completion "stream-closed"], reads)
    | some s =>
      match s.closed with
      | some reason =>
        ([failure completion reason], { reads with streams := reads.streams.insert stream { s with lease := true } })
      | none =>
        ([.result completion.serial completion.id], { reads with
          streams := reads.streams.insert stream
            { s with lease := true, write := s.write.map (fun w => { w with announced := true }) } })

def answer (completion : Completion) : List Reply × Reads :=
  match completion.result with
  | .ok .opened => reads.opened completion
  | .ok (.value size) =>
    if size > INLINE_BYTES then ([failure completion "payload-too-large"], reads)
    else ([.result completion.serial completion.id], reads)
  | .ok .snapshot => ([.result completion.serial completion.id], reads)
  | .error code => ([failure completion code], reads.failStream completion code)

/-- The job's end, for a write: whether the watchdog answered in its place. -/
def finished (reads : Reads) (completion : Completion) : Bool × Reads :=
  match completion.serial with
  | none => (false, reads)
  | some serial =>
    (reads.writes.finished.1, { reads with
      writes := reads.writes.finished.2
      submitted := reads.submitted.filter (fun work => work.serial ≠ serial) })

def finish (completion : Completion) : List Reply × Reads :=
  let (late, reads) := reads.finished completion
  if late then ([], reads)
  else if !reads.life.active then ([], reads)
  else reads.answer completion

/-- One stream in the tick's pass: an elevation that ended closes it. -/
def expireStream (id : Nat) (now : Timestamp) : Reads :=
  match reads.streams.get id with
  | some s =>
    if s.write.isSome ∧ s.deadline.any (fun «until» => decide («until» ≤ now)) then
      { reads with streams := reads.streams.insert id (s.close "elevation-expired") }
    else reads
  | none => reads

def expireStreams (clock : Readings) : List Nat → Nat → Reads → Reads
  | [], _, reads => reads
  | id :: ids, n, reads => expireStreams clock ids (n + 1) (reads.expireStream id (clock.now n))

def stallStream (stream : Option Nat) (started : Nat → Bool) : Reads :=
  match stream with
  | none => reads
  | some id =>
    match reads.streams.get id with
    | none => reads
    | some s =>
      if s.lease then { reads with streams := reads.streams.insert id (s.close "stream-stalled") }
      else { reads with streams := reads.streams.erase id }.discardWriteStream id started

def stall (watchdog : Watchdog) (started : Nat → Bool) : Reads :=
  let reads := stallStream { reads with writes := { reads.writes with
    watchdog := none, stalled := true, stalledStream := watchdog.stream } } watchdog.stream started
  let answer := match reads.writes.activeWrite with
    | some write => write.cancelled (started write.serial)
    | none => .writeError watchdog.serial watchdog.id watchdog.stream "stream-stalled"
  { reads with writes := { reads.writes with activeWrite := none, cancelled := reads.writes.cancelled ++ [answer] } }

def writeTick (visits : Visit Nat × Visit (Nat × Stream)) (started : Nat → Bool) (clock : Readings) :
    List Reply × Reads :=
  let reads := match reads.writes.watchdog with
    | some watchdog => if watchdog.until ≤ clock.now 0 then reads.stall watchdog started else reads
    | none => reads
  (expireStreams clock (visits.1.order reads.streams.keys) 1 reads).closed visits.2 started

/-- `cancelled_writes`: what was answered in a request's place goes out. -/
def cancelledWrites : List Reply × Reads :=
  (reads.writes.cancelled, { reads with writes := { reads.writes with cancelled := [] } })

def cancelWrites (reason : Code) (started : Nat → Bool) : List Reply × Reads :=
  let running := if reads.writes.active then
      reads.writes.activeWrite.toList.map (fun write => write.cancelled (started write.serial))
    else []
  (reads.writes.cancelled ++ running ++
      reads.writes.receiver.map (fun work => work.pending.cancelled (started work.serial)),
    { reads with
      life := { reads.life with alive := false }
      streams := reads.streams.mapValues (fun _ s => s.close reason)
      writes := { reads.writes with
        receiver := []
        activeWrite := if reads.writes.active then none else reads.writes.activeWrite
        cancelled := [] } })

end Reads
end Writes
end Yuzora
