import Yuzora.CompanionStore
/-!
# CompanionManager — the gateway's supervisor

The supervisor starts the gateway process, takes its events line by line, sends it commands and ends it.  Its fields are
guarded by one lock (`Inner`), the device list by another that is held for a whole event.  Each function here is what
happens under one of these locks.
-/
namespace Yuzora
namespace Companion

/-! ## The supervisor's fields -/

inductive Status
  | disabled
  | starting
  | running (port : Nat)
  | stopping
  | failed (code : String)
  deriving DecidableEq

def Status.isRunning : Status → Bool
  | running _ => true
  | _ => false

def Status.isFailed : Status → Bool
  | failed _ => true
  | _ => false

inductive Want
  | pairing
  /-- Approve, reject or cancel (`kind`) of this pairing. -/
  | decision (id kind : String)
  /-- Resolved by the event that reports this command's own change. -/
  | device (id done : String) (frame : Json)

/-- The command that waits, and the channel its caller waits on. -/
structure Pending where
  want : Want
  reply : Nat

/-- The recorded process: whether its kill handle is still here. -/
structure Process where
  kill : Bool
  deriving DecidableEq

structure Inner where
  status : Status
  generation : Nat
  process : Option Process
  port : Option Nat
  «until» : Option String
  ready : Bool
  expired : Bool
  lastError : Option String
  /-- Set when this side ends the process; the exit applies it as the outcome. -/
  terminal : Option Status
  pending : Option Pending
  /-- The callers that wait for a snapshot of the peers, by request id. -/
  peerWaits : Table Nat Nat
  peerSeq : Nat

def Inner.default : Inner :=
  ⟨.disabled, 0, none, none, none, false, false, none, none, none, .empty, 0⟩

/-- What a spawned task does. -/
inductive Task
  | killAfterClosing (generation : Nat)
  | shutdownAfterClosing (generation : Nat)
  | watchdog (generation : Nat)
  deriving DecidableEq

/-- The supervisor, its device list and its files, and what it did to the processes: `exited` are the generations whose
`exited` channel says so, `killed` those that were sent a kill, `frames` what was written to them.  A channel that
carries one value (`replies`, `answers`) is a slot: empty, sent, or dropped. -/
structure Shared where
  inner : Inner
  store : Option Devices
  /-- The lock of the device list is held. -/
  locked : Bool
  /-- The lock of the admin commands is held. -/
  commands : Bool
  disk : Devices
  push : Subscriptions
  vapid : Bool
  replies : Table Nat (Option (Except String Json))
  answers : Table Nat (Option Json)
  nextSlot : Nat
  exited : List Nat
  killed : List Nat
  frames : List (Nat × Json)
  tasks : List Task

/-! ### Frames and events -/

def frame (kind : String) (fields : List (String × Json)) : Json :=
  .object ([("v", Json.integer 1), ("type", .string kind)] ++ fields)

def SHUTDOWN_FRAME : Json := frame "shutdown" []

def Status.json : Status → Json
  | disabled => .object [("state", .string "disabled")]
  | starting => .object [("state", .string "starting")]
  | running port => .object [("state", .string "running"), ("port", .integer port)]
  | stopping => .object [("state", .string "stopping")]
  | failed code => .object [("state", .string "failed"), ("code", .string code)]

def statusEvent (status : Status) : Json := .object [("type", .string "status"), ("status", status.json)]

/-- `listing`: each device with a subscription, and the ids of its endpoints. -/
def listing (outside : Outside) (push : Subscriptions) : Json :=
  .array (push.entries.map fun entry => .object [("deviceId", .string entry.1),
    ("endpoints", .array (entry.2.map fun s => .string (endpointId outside s.endpoint)))])

variable (state : Shared)

def pushEvent : Json :=
  .object [("type", .string "push"), ("push", .object [("available", .bool state.vapid),
    ("subscribed", .array (state.push.keys.map .string))])]

/-! ### Channels -/

def fill {α : Type} (slot : Nat) (value : α) (slots : Table Nat α) : Table Nat α :=
  match slots.get slot with
  | some _ => slots
  | none => slots.insert slot value

/-- `pending.take()` and the send on its channel. -/
def answer (result : Except String Json) (state : Shared) : Shared :=
  match state.inner.pending with
  | none => state
  | some pending =>
    { state with
      inner := { state.inner with pending := none }
      replies := fill pending.reply (some result) state.replies }

/-- `inner.pending = None`: the channel's sender is dropped. -/
def dropPending : Shared :=
  match state.inner.pending with
  | none => state
  | some pending =>
    { state with
      inner := { state.inner with pending := none }
      replies := fill pending.reply none state.replies }

def resolve (test : Want → Bool) (result : Except String Json) (state : Shared) : Shared :=
  if state.inner.pending.any fun pending => test pending.want then answer result state else state

variable (generation : Nat)

def send (frame : Json) (state : Shared) : Shared :=
  { state with frames := state.frames ++ [(generation, frame)] }

/-- `notify`: only a gateway that runs gets it. -/
def notify (frame : Json) (state : Shared) : Shared :=
  if state.inner.process.isSome && state.inner.status.isRunning then send state.inner.generation frame state else state

variable (code : String)

/-- `halt`: the gateway is marked failed; the answer is its kill handle. -/
def halt (state : Shared) : Option Nat × Shared :=
  let state := answer (.error code) state
  match state.inner.process with
  | none => (none, { state with inner := { state.inner with terminal := some (.failed code), status := .failed code } })
  | some process =>
    (if process.kill then some state.inner.generation else none,
      { state with
        inner := { state.inner with
          terminal := some (.failed code), status := .failed code, process := some { process with kill := false } } })

/-! ### Starting and ending -/

def decideStart : Except String Nat × Shared :=
  if state.inner.process.isSome || state.inner.status = .starting || state.inner.status = .stopping then
    (.error "companion-already-running", state)
  else (.ok state.inner.generation, { state with inner := { state.inner with expired := false, status := .starting } })

def startFailed (expected : Nat) (code : String) (state : Shared) : Bool × Shared :=
  if state.inner.generation = expected ∧ state.inner.status = .starting then
    (true, { state with inner := { state.inner with status := .failed code } })
  else (false, state)

/-- The process is recorded, unless the start was cancelled meanwhile. -/
def record (init : Json) (expected : Nat) (devices : Devices) (state : Shared) : Except String Nat × Shared :=
  if state.inner.generation ≠ expected ∨ state.inner.status ≠ .starting then (.error "companion-cancelled", state)
  else
    (.ok (state.inner.generation + 1),
      { state with
        store := some devices
        inner := { state.inner with
          generation := state.inner.generation + 1
          process := some ⟨true⟩
          port := match (((init.get "listeners").get "loopback").get "port").asU64 with
            | some 0 => none
            | port => port
          «until» := ((init.get "policy").get "enableUntil").asStr
          ready := false
          lastError := none
          terminal := none } })

/-- `halt` on the recorded process, with the status it leaves. -/
def halted (state : Shared) : (Option Nat × Status) × Shared :=
  let (kill, state) := halt code state
  ((kill, state.inner.status), state)

def watchdogFires (state : Shared) : Option (Option Nat × Status) × Shared :=
  if state.inner.generation ≠ generation ∨ state.inner.ready ∨ state.inner.terminal.isSome then (none, state)
  else
    let (done, state) := halted "companion-start-timeout" state
    (some done, state)

def failLive (state : Shared) : Option (Option Nat × Status) × Shared :=
  if state.inner.process.isNone || !(state.inner.status = .starting || state.inner.status.isRunning) then (none, state)
  else
    let (done, state) := halted code state
    (some done, state)

def clearStale : Bool × Shared :=
  if state.inner.process.isNone && state.inner.status.isFailed then
    (true, { state with inner := { state.inner with status := .disabled } })
  else (false, state)

/-- The first step of a stop: none where no process is recorded, else its generation and whether the handle was taken. -/
def beginStop : Option (Nat × Bool) × Shared :=
  match state.inner.process with
  | none =>
    (none, { state with inner := { state.inner with generation := state.inner.generation + 1, status := .disabled } })
  | some process =>
    let state := send state.inner.generation SHUTDOWN_FRAME state
    (some (state.inner.generation, process.kill),
      { state with
        inner := { state.inner with
          process := some { process with kill := false }, terminal := some .disabled, status := .stopping } })

/-- What an exit means: what this side decided, an expiry, a start that failed, or a crash. -/
def exitStatus (inner : Inner) : Status :=
  match inner.terminal with
  | some terminal => terminal
  | none =>
    if inner.expired then .disabled
    else if !inner.ready then .failed (inner.lastError.getD "companion-exited")
    else .failed "companion-crashed"

/-- `inner.peer_waits.clear()`: every sender is dropped. -/
def dropPeerWaits : Shared :=
  { state with
    inner := { state.inner with peerWaits := .empty }
    answers := state.inner.peerWaits.values.foldl (fun answers slot => fill slot none answers) state.answers }

/-- The exit of a process: its status, and whether it was not requested. -/
def handleExit (state : Shared) : Option (Status × Bool) × Shared :=
  if state.inner.generation ≠ generation then (none, state)
  else
    let status := exitStatus state.inner
    let requested := decide (state.inner.terminal = some .disabled)
    let state := dropPeerWaits (answer (.error "companion-exited")
      { state with
        inner := { state.inner with generation := state.inner.generation + 1, process := none, «until» := none } })
    (some (status, !requested), { state with inner := { state.inner with terminal := none, status := status } })

/-! ### Commands and callers -/

def sendRequest (inputOpen : Bool) (request : Json) (want : Want) (state : Shared) :
    Except String (Nat × Nat) × Shared :=
  if !(state.inner.process.isSome && state.inner.status.isRunning && inputOpen) then
    (.error "companion-not-running", state)
  else
    let state := dropPending (send state.inner.generation request state)
    (.ok (state.nextSlot, state.inner.generation),
      { state with
        nextSlot := state.nextSlot + 1
        inner := { state.inner with pending := some ⟨want, state.nextSlot⟩ } })

def timeOut (state : Shared) : Option (Option Nat × Status) × Shared :=
  let state := dropPending state
  if state.inner.generation = generation then
    let (done, state) := halted "companion-timeout" state
    (some done, state)
  else (none, state)

def sendPeers (inputOpen : Bool) (state : Shared) : Except String (Nat × Nat) × Shared :=
  let id := state.inner.peerSeq + 1
  let state := { state with inner := { state.inner with peerSeq := id } }
  if !(state.inner.process.isSome && state.inner.status.isRunning && inputOpen) then
    (.error "companion-not-running", state)
  else
    let state := send state.inner.generation (frame "peers.list" [("requestId", .integer id)]) state
    (.ok (id, state.nextSlot),
      { state with
        nextSlot := state.nextSlot + 1
        inner := { state.inner with peerWaits := state.inner.peerWaits.insert id state.nextSlot } })

/-- The caller is gone from the map; its sender, where it was still there, is dropped. -/
def removePeer (id : Nat) (state : Shared) : Shared :=
  match state.inner.peerWaits.get id with
  | none => state
  | some slot =>
    { state with
      inner := { state.inner with peerWaits := state.inner.peerWaits.erase id }
      answers := fill slot none state.answers }

/-! ### Events -/

def heard (state : Shared) : Bool :=
  !(state.inner.generation ≠ generation || state.inner.terminal.any Status.isFailed)

/-- `ready`: the answer is none where the event is only passed on. -/
def becomeReady (event : Json) (state : Shared) : Option (Option Nat × Status) × Shared :=
  if state.inner.process.isSome && state.inner.terminal.isNone then
    let port := (((event.get "ports").get "loopback").asU64).getD 0
    if state.inner.port.any fun expected => expected ≠ port then
      let (done, state) := halted "companion-port-mismatch" state
      (some done, state)
    else
      let status := Status.running (port % 65536)
      (some (none, status), { state with inner := { state.inner with ready := true, status := status } })
  else (none, state)

def peersSnapshot (outside : Outside) (event : Json) (state : Shared) : Shared :=
  match (event.get "requestId").asU64 with
  | none => state
  | some id =>
    match state.inner.peerWaits.get id with
    | none => state
    | some slot =>
      { state with
        inner := { state.inner with peerWaits := state.inner.peerWaits.erase id }
        answers := fill slot (if outside.isSnapshot event then some event else none) state.answers }

def gatewayError (state : Shared) : Shared :=
  let state := { state with
    inner := { state.inner with expired := state.inner.expired || code = "policy-expired" } }
  let state := answer (.error code) state
  { state with inner := { state.inner with lastError := some code } }

def deferredFrame (event : Json) (state : Shared) : Option Json :=
  match state.inner.pending with
  | some ⟨.device id _ frame, _⟩ =>
    if id = ((event.get "target").asStr).getD "" ∧ (frame.get "type").beq (event.get "command") = true then some frame
    else none
  | _ => none

/-- The device change that a line reports, on the list and its file. -/
def storeChange (change : Devices → Except String Devices) (state : Shared) : Except String Unit × Shared :=
  match state.store with
  | none => (.error "companion-device-invalid", state)
  | some devices =>
    match change devices with
    | .ok next => (.ok (), { state with store := some next, disk := next })
    | .error code => (.error code, state)

def pushChange (change : Subscriptions → Bool × Subscriptions) (state : Shared) : Bool × Shared :=
  ((change state.push).1, { state with push := (change state.push).2 })

def knownDevice (id : String) (state : Shared) : Bool :=
  state.store.any fun devices => devices.any fun d => deviceId d = some id

end Companion
end Yuzora
