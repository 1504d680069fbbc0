import Mathlib.Data.List.Basic
/-!
# HostStream — one run of a host stream

One loop writes the requests of many callers to a peer, one at a time, and reads the peer's frames meanwhile.  Everything
around it is free: what the callers ask and whether they still wait, how much of a write the peer takes, how its bytes
arrive, the clock, and when someone cancels.
-/
namespace Yuzora
namespace HostStream

abbrev Byte : Type := Nat

def newline : Byte := 10
def PROTOCOL_VERSION : Nat := 1
def MAX_FRAME_BYTES : Nat := 16 * 1024 * 1024
def STREAM_QUEUE_CAPACITY : Nat := 8

structure StreamRequest (Owner Op : Type) where
  version : Nat
  owner : Owner
  id : String
  operation : Op

inductive Outcome (Value : Type)
  | ok (value : Value)
  | error (code message : String)

inductive StreamPayload (Value Event : Type)
  | reply (id : String) (outcome : Outcome Value)
  | event (event : Event)

structure StreamFrame (Owner Value Event : Type) where
  version : Nat
  owner : Owner
  payload : StreamPayload Value Event

/-- The owner of the stream, and JSON. -/
structure Session (Owner Op Value Event : Type) where
  owner : Owner
  toVec : StreamRequest Owner Op → Except String (List Byte)
  fromSlice : List Byte → Except String (StreamFrame Owner Value Event)

section

variable {Owner Op Value Event : Type} [DecidableEq Owner]

/-- `reply` is the caller's end of the channel. -/
structure Queued (Op : Type) where
  operation : Op
  reply : Nat

/-! ## Frames -/

variable (session : Session Owner Op Value Event)

def request (id : Nat) (operation : Op) : StreamRequest Owner Op :=
  ⟨PROTOCOL_VERSION, session.owner, toString id, operation⟩

/-- `Writing::new`. -/
def lineOf (id : Nat) (operation : Op) : Except String (List Byte) :=
  match session.toVec (request session id operation) with
  | .error e => .error e
  | .ok bytes => if MAX_FRAME_BYTES ≤ bytes.length then .error "frame-too-large" else .ok (bytes ++ [newline])

def parse (bytes : List Byte) :
    Except String (StreamFrame Owner Value Event) :=
  match session.fromSlice bytes with
  | .error e => .error e
  | .ok frame =>
    if frame.version ≠ PROTOCOL_VERSION ∨ frame.owner ≠ session.owner then .error "stream-identity-mismatch"
    else .ok frame

def result : Outcome Value → Except String Value
  | .ok value => .ok value
  | .error _ message => .error message

/-- `take(limit)` and `read_until`: the frame so far and what is left of the input. -/
def readUntil (limit : Nat) : List Byte → List Byte → List Byte × List Byte
  | frame, [] => (frame, [])
  | frame, c :: rest =>
    if limit ≤ frame.length then (frame, c :: rest)
    else if c = newline then (frame ++ [c], rest)
    else readUntil limit (frame ++ [c]) rest

/-! ## The state of a run -/

structure Writing where
  bytes : List Byte
  written : Nat
  deadline : Nat

structure Pending (Value : Type) where
  id : String
  reply : Nat
  deadline : Option Nat
  /-- A reply that came before the request was flushed. -/
  earlyOutcome : Option (Outcome Value)

/-- A request that was given an id, and its line. -/
structure Asked (Op : Type) where
  request : Queued Op
  id : Nat
  bytes : List Byte

/-- An answer, and what its caller received. -/
structure Answered (Value : Type) where
  reply : Nat
  id : String
  outcome : Outcome Value
  sent : Except String Value

structure State (Op Value Event : Type) where
  now : Nat
  /-- The callers that do not wait any more. -/
  abandoned : Nat → Bool
  sendersGone : Bool
  cancelled : Bool
  hostCancelled : Bool
  /-- What arrived and is not read yet. -/
  input : List Byte
  eof : Bool
  requests : List (Queued Op)
  pending : Option (Pending Value)
  writing : Option Writing
  nextId : Nat
  /-- What is read of the next frame. -/
  frame : List Byte
  ended : Option (Except String Unit)
  /-- All that callers queued. -/
  queued : List (Queued Op)
  arrived : List Byte
  /-- The requests that left the queue, and whether their callers still waited. -/
  dequeued : List (Queued Op × Bool)
  asked : List (Asked Op)
  /-- All the peer took. -/
  written : List Byte
  flushed : Nat
  /-- The frames that were read. -/
  received : List (List Byte)
  delivered : List Event
  answered : List (Answered Value)
  /-- The callers whose channel was closed without an answer. -/
  closed : List Nat

def State.start : State Op Value Event where
  now := 0
  abandoned _ := false
  sendersGone := false
  cancelled := false
  hostCancelled := false
  input := []
  eof := false
  requests := []
  pending := none
  writing := none
  nextId := 0
  frame := []
  ended := none
  queued := []
  arrived := []
  dequeued := []
  asked := []
  written := []
  flushed := 0
  received := []
  delivered := []
  answered := []
  closed := []

/-- `run` returns: what it owned is dropped, and the callers' channels with it. -/
def State.returns (reason : Except String Unit) (s : State Op Value Event) : State Op Value Event :=
  { s with
    ended := some reason
    closed := s.closed ++ s.pending.toList.map Pending.reply ++ s.requests.map Queued.reply
    pending := none, writing := none, requests := [] }

def State.answer (p : Pending Value) (outcome : Outcome Value) (s : State Op Value Event) : State Op Value Event :=
  { s with pending := none, answered := s.answered ++ [⟨p.reply, p.id, outcome, result outcome⟩] }

/-! ## What the loop does -/

/-- The peer's answer to `write` or `flush`. -/
inductive WriteAnswer
  | wrote (n : Nat)
  | flushed
  | failed (message : String)

/-- `Writing::advance`: a chunk, or with all chunks written a flush. -/
def advance (answer : WriteAnswer) (s : State Op Value Event) : Option (State Op Value Event) :=
  match s.writing, s.pending with
  | some w, some p =>
    match answer with
    | .failed message => some (s.returns (.error message))
    | .wrote n =>
      if w.written < w.bytes.length then
        if n = 0 then some (s.returns (.error "write zero"))
        else if w.written + n ≤ w.bytes.length then
          some { s with
            writing := some { w with written := w.written + n }
            written := s.written ++ (w.bytes.drop w.written).take n }
        else none
      else none
    | .flushed =>
      if w.written < w.bytes.length then none
      else
        let s := { s with writing := none, flushed := s.flushed + 1 }
        match p.earlyOutcome with
        | some outcome => some (s.answer p outcome)
        | none => some { s with pending := some { p with deadline := some (s.now + 15000) } }
  | _, _ => none

/-- `requests.recv()`: the next request is written, unless its caller is gone. -/
def recv (s : State Op Value Event) : Option (State Op Value Event) :=
  match s.pending, s.requests with
  | some _, _ => none
  | none, [] => if s.sendersGone then some (s.returns (.ok ())) else none
  | none, q :: requests =>
    if s.abandoned q.reply then
      some { s with requests := requests, dequeued := s.dequeued ++ [(q, false)], closed := s.closed ++ [q.reply] }
    else
      let s := { s with requests := requests, dequeued := s.dequeued ++ [(q, true)], nextId := s.nextId + 1 }
      match lineOf session s.nextId q.operation with
      | .error e => some ({ s with closed := s.closed ++ [q.reply] }.returns (.error e))
      | .ok bytes =>
        some { s with
          writing := some ⟨bytes, 0, s.now + 10000⟩
          pending := some ⟨toString s.nextId, q.reply, none, none⟩
          asked := s.asked ++ [⟨q, s.nextId, bytes⟩] }

variable (s : State Op Value Event)

def top : State Op Value Event :=
  if s.cancelled || s.hostCancelled then s.returns (.error "host-stream-closed") else s

def handleReply (id : String) (outcome : Outcome Value) (s : State Op Value Event) : State Op Value Event :=
  match s.pending with
  | none => s.returns (.error "unexpected-stream-response")
  | some p =>
    if id ≠ p.id then s.returns (.error "stream-response-id-mismatch")
    else if s.writing.isSome then
      if p.earlyOutcome.isSome then s.returns (.error "unexpected-stream-response")
      else top { s with pending := some { p with earlyOutcome := some outcome } }
    else top (s.answer p outcome)

def handle (bytes : List Byte) (onFrame : Except String Unit)
    (s : State Op Value Event) : State Op Value Event :=
  match parse session bytes with
  | .error e => s.returns (.error e)
  | .ok ⟨_, _, .reply id outcome⟩ => handleReply id outcome s
  | .ok ⟨_, _, .event event⟩ =>
    let s := { s with delivered := s.delivered ++ [event] }
    match onFrame with
    | .error e => s.returns (.error e)
    | .ok () => top s

/-- `read_frame_limit` goes on with what arrived. -/
def poll (limit : Nat) (onFrame : Except String Unit)
    (s : State Op Value Event) : State Op Value Event :=
  let (frame, input) := readUntil limit s.frame s.input
  if frame.getLast? = some newline then
    handle session frame onFrame { s with frame := [], input := input, received := s.received ++ [frame] }
  else
    let s := { s with frame := frame, input := input }
    if frame.length = limit ∧ input ≠ [] then s.returns (.error "frame-too-large")
    else if s.eof then s.returns (.error (if frame = [] then "host-stream-ended" else "truncated-frame"))
    else s

def expire : Option (State Op Value Event) :=
  match s.writing, s.pending.bind Pending.deadline with
  | some w, _ => if w.deadline ≤ s.now then some (s.returns (.error "stream-write-timeout")) else none
  | none, some deadline => if deadline ≤ s.now then some (s.returns (.error "stream-request-timeout")) else none
  | none, none => none

inductive Action (Op : Type)
  | tick (elapsed : Nat)
  | request (operation : Op)
  /-- A caller waits no more; one that ran out of time cancels the stream. -/
  | abandon (caller : Nat) (cancels : Bool)
  | dropSenders
  | cancel
  | disconnect
  | arrive (chunk : List Byte)
  | close
  | stop
  | expire
  | advance (answer : WriteAnswer)
  | recv
  | poll (onFrame : Except String Unit)
  | readFails (message : String)

/-- `HostStreamSession::request` queues, if there is a place. -/
def enqueue (operation : Op) (s : State Op Value Event) : Option (State Op Value Event) :=
  if s.ended.isSome || s.sendersGone || STREAM_QUEUE_CAPACITY ≤ s.requests.length then none
  else
    let q := ⟨operation, s.queued.length⟩
    some { s with requests := s.requests ++ [q], queued := s.queued ++ [q] }

def around : Action Op → Option (State Op Value Event)
  | .tick n => some { s with now := s.now + n }
  | .request operation => enqueue operation s
  | .abandon caller cancels =>
    some { s with abandoned := Function.update s.abandoned caller true, cancelled := s.cancelled || cancels }
  | .dropSenders => some { s with sendersGone := true, cancelled := true }
  | .cancel => some { s with cancelled := true }
  | .disconnect => some { s with hostCancelled := true }
  | .arrive chunk => if s.eof then none else some { s with input := s.input ++ chunk, arrived := s.arrived ++ chunk }
  | .close => some { s with eof := true }
  | _ => none

def loop (s : State Op Value Event) : Action Op → Option (State Op Value Event)
  | .stop =>
    if s.cancelled then some (s.returns (.error "host-stream-closed"))
    else if s.hostCancelled then some (s.returns (.error "host-disconnected"))
    else none
  | .expire => expire s
  | .advance answer => advance answer s
  | .recv => recv session s
  | .poll onFrame => some (poll session MAX_FRAME_BYTES onFrame s)
  | .readFails message => some (s.returns (.error message))
  | _ => none

def next (s : State Op Value Event) (a : Action Op) :
    Option (State Op Value Event) :=
  match around s a with
  | some t => some t
  | none => if s.ended.isSome then none else loop session s a

end

end HostStream
end Yuzora
