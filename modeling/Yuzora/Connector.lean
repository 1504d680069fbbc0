import Mathlib.Tactic.Common
/-!
# Connector — the input of a terminal connector

Any number of `send_control` calls write their lines to one pipe, and its releases take the pipe away from them.  The pipe
answers every write as it likes.  On Windows the write runs on a thread of its own, which keeps the pipe when its caller
gives up.
-/
namespace Yuzora
namespace Connector

abbrev Byte : Type := Nat

def bytes (s : String) : List Byte := s.toList.map Char.toNat

/-- `CONNECTOR_RELEASE_LINE`. -/
def connectorReleaseLine : List Byte := bytes "\x7b\"type\":\"terminal.release\"\x7d\n"

inductive Platform
  | unix
  | windows
  deriving DecidableEq

inductive SendError
  | noSession
  | malformed (message : String)
  | closed
  | busy
  | noStdin
  | write (message : String)
  | released
  | timeout
  deriving DecidableEq

def SendError.message (sessionId : String) : SendError → String
  | noSession => "no herdr terminal session " ++ sessionId
  | malformed message => message
  | closed => "herdr terminal session " ++ sessionId ++ " is closed"
  | busy => "host-call-wait-timeout"
  | noStdin => "herdr terminal session " ++ sessionId ++ " has no stdin"
  | write message => "failed to write control command: " ++ message
  | released => "herdr terminal session was released"
  | timeout => "ioTimeout: herdr terminal connector stopped accepting input"

/-- Where a `send_control` call stands. -/
inductive Phase
  | idle
  /-- It has the session. -/
  | found
  /-- It found the session open and waits for the input. -/
  | queued
  | holding
  | writing
  /-- It moved no byte for the whole limit and let the input go. -/
  | stalled
  | abandoning
  | returned (result : Except SendError Unit)

structure Call where
  line : List Byte
  /-- How much of the line the pipe took. -/
  sent : Nat
  phase : Phase

/-- A release, of its own or of a call that abandons the connector. -/
inductive Releaser
  | outer (n : Nat)
  | abandon (call : Nat)
  deriving DecidableEq

/-- Where a release stands: `begin_connector_release`, then the process and its reader. -/
inductive Release
  | idle
  | begun
  | flagged
  | settled (firstRelease : Bool)
  | locked
  | taken
  | saying
  | terminating
  | joining
  | finished
  deriving DecidableEq

inductive Owner
  | call (c : Nat)
  | release (r : Releaser)
  deriving DecidableEq

/-- Where the pipe's end is. -/
inductive Holder
  | slot
  /-- A write thread has it, which may have its result. -/
  | thread (c : Nat) (result : Option (Except String Unit))
  /-- A release took it and lets the lock go next. -/
  | taken
  | goodbye
  | dropped

inductive Reader
  | running
  /-- It marked the session closed and waits for the input. -/
  | closing
  | gone
  deriving DecidableEq

structure State where
  inMap : Bool
  closed : Bool
  released : Bool
  lock : Option Owner
  stdin : Holder
  reader : Reader
  calls : Nat → Call
  releases : Releaser → Release
  /-- All the pipe took. -/
  pipe : List Byte
  /-- The calls that had the input, in their order. -/
  turns : List Nat
  /-- How much of the release line the pipe took. -/
  farewell : Nat

def State.start : State where
  inMap := true
  closed := false
  released := false
  lock := none
  stdin := .slot
  reader := .running
  calls _ := ⟨[], 0, .idle⟩
  releases _ := .idle
  pipe := []
  turns := []
  farewell := 0

/-- The pipe's answer to a write. -/
inductive Answer
  | wrote (n : Nat)
  | interrupted
  /-- It would block; the limit may have run out. -/
  | refused (late : Bool)
  | failed (message : String)

variable (c : Nat)

def State.setCall (call : Call) (s : State) : State := { s with calls := Function.update s.calls c call }

def State.setRelease (r : Releaser) (phase : Release) (s : State) : State :=
  { s with releases := Function.update s.releases r phase }

def State.goto (phase : Phase) (s : State) : State := s.setCall c { s.calls c with phase := phase }

def State.leave (phase : Phase) (s : State) : State := { s.goto c phase with lock := none }

def State.fails (e : SendError) (s : State) : State := s.leave c (.returned (.error e))

def State.accept (c n : Nat) (s : State) : State :=
  { s.setCall c { s.calls c with sent := (s.calls c).sent + n } with
    pipe := s.pipe ++ ((s.calls c).line.drop (s.calls c).sent).take n }

section Fields

variable {s : State} {c : Nat} {phase : Phase}

@[simp] theorem goto_rest :
    (s.goto c phase).lock = s.lock ∧ (s.goto c phase).stdin = s.stdin ∧ (s.goto c phase).turns = s.turns ∧
    (s.leave c phase).lock = none ∧ (s.leave c phase).stdin = s.stdin ∧ (s.leave c phase).turns = s.turns := ⟨rfl, rfl, rfl, rfl, rfl, rfl⟩

end Fields

def Call.rest (call : Call) : Nat := call.line.length - call.sent

inductive Action
  | call (c : Nat)
  | check (c : Nat) (json : Except String (List Byte))
  | lock (c : Nat)
  | busy (c : Nat)
  | begin (c : Nat) (failure : Option String)
  | write (c : Nat) (answer : Answer)
  | complete (c : Nat)
  | collect (c : Nat)
  | stall (c : Nat)
  | threadEnds (c : Nat)
  | abandon (c : Nat)
  | finish (c : Nat)
  | terminalRelease (n : Nat)
  | releaseAllConnectors (n : Nat)
  | advance (r : Releaser)
  | farewell (answer : Answer)
  | readerEnds
  | readerTakes

variable (s : State)

/-- `send_control` begins. -/
def call : Option State :=
  match (s.calls c).phase with
  | .idle => if s.inMap then some (s.goto c .found) else some (s.goto c (.returned (.error .noSession)))
  | _ => none

def check (json : Except String (List Byte)) (s : State) : Option State :=
  match (s.calls c).phase with
  | .found =>
    if s.closed then some (s.goto c (.returned (.error .closed)))
    else
      match json with
      | .error message => some (s.goto c (.returned (.error (.malformed message))))
      | .ok json => some (s.setCall c ⟨json ++ [10], 0, .queued⟩)
  | _ => none

def lock (c : Nat) (s : State) : Option State :=
  match (s.calls c).phase, s.lock with
  | .queued, none => some { s.goto c .holding with lock := some (.call c), turns := s.turns ++ [c] }
  | _, _ => none

def busy (c : Nat) (s : State) : Option State :=
  match (s.calls c).phase, s.lock with
  | .queued, some _ => some (s.goto c (.returned (.error .busy)))
  | _, _ => none

variable (platform : Platform)

/-- The write begins: non-blocking, or on a thread that takes the pipe. -/
def «begin» (c : Nat) (failure : Option String) (s : State) : Option State :=
  match (s.calls c).phase, s.stdin, platform, failure with
  | .holding, .slot, .unix, none => some (s.goto c .writing)
  | .holding, .slot, .unix, some message => some (s.fails c (.write message))
  | .holding, .slot, .windows, none => some { s.goto c .writing with stdin := .thread c none }
  | .holding, .slot, .windows, some message => some { s.fails c (.write message) with stdin := .dropped }
  | .holding, _, _, _ => some (s.fails c .noStdin)
  | _, _, _, _ => none

/-- One write of `write_connector_input` on a pipe that does not block. -/
def writeUnix (answer : Answer) (s : State) : Option State :=
  match (s.calls c).phase with
  | .writing =>
    if 0 < (s.calls c).rest then
      match answer with
      | .wrote n =>
        if n = 0 then some (s.fails c (.write "write zero"))
        else if n ≤ (s.calls c).rest then some (s.accept c n)
        else none
      | .interrupted => some s
      | .refused late =>
        if s.released then some (s.fails c .released)
        else if late then some (s.leave c .stalled)
        else some s
      | .failed message => some (s.fails c (.write message))
    else none
  | _ => none

def writeThread (answer : Answer) (s : State) : Option State :=
  match s.stdin with
  | .thread owner none =>
    if owner = c ∧ 0 < (s.calls c).rest then
      match answer with
      | .wrote n =>
        if n = 0 then some { s with stdin := .thread c (some (.error "failed to write whole buffer")) }
        else if n ≤ (s.calls c).rest then some (s.accept c n)
        else none
      | .interrupted | .refused _ => some s
      | .failed message => some { s with stdin := .thread c (some (.error message)) }
    else none
  | _ => none

def write (c : Nat) (answer : Answer) (s : State) : Option State :=
  match platform with
  | .unix => writeUnix c answer s
  | .windows => writeThread c answer s

def complete (c : Nat) (s : State) : Option State :=
  match platform, (s.calls c).phase, s.stdin with
  | .unix, .writing, _ => if (s.calls c).rest = 0 then some (s.leave c (.returned (.ok ()))) else none
  | .windows, _, .thread owner none =>
    if owner = c ∧ (s.calls c).rest = 0 then some { s with stdin := .thread c (some (.ok ())) } else none
  | _, _, _ => none

def collect : Option State :=
  match (s.calls c).phase, s.stdin with
  | .writing, .thread owner (some result) =>
    if owner = c then
      some { s.leave c (.returned (result.mapError .write)) with stdin := .slot }
    else none
  | _, _ => none

/-- The caller saw no progress for the whole limit and leaves the pipe to the thread. -/
def stall : Option State :=
  match (s.calls c).phase, s.stdin with
  | .writing, .thread _ _ => some (s.leave c .stalled)
  | _, _ => none

def threadEnds : Option State :=
  match (s.calls c).phase, s.stdin with
  | .writing, _ => none
  | _, .thread owner (some _) => if owner = c then some { s with stdin := .dropped } else none
  | _, _ => none

/-- `abandon_stalled_connector`: out of the map, then a release. -/
def abandon (c : Nat) (s : State) : Option State :=
  match (s.calls c).phase with
  | .stalled => some { (s.goto c .abandoning).setRelease (.abandon c) .begun with inMap := false }
  | _ => none

def finish : Option State :=
  match (s.calls c).phase, s.releases (.abandon c) with
  | .abandoning, .finished => some (s.goto c (.returned (.error .timeout)))
  | _, _ => none

/-- `terminal_release` and `release_all_connectors` take the session out of the map first. -/
def release (n : Nat) (s : State) : Option State :=
  match s.inMap, s.releases (.outer n) with
  | true, .idle => some { s.setRelease (.outer n) .begun with inMap := false }
  | _, _ => none

def advance (r : Releaser) (s : State) : Option State :=
  match s.releases r with
  | .begun => some { s.setRelease r .flagged with released := true }
  | .flagged => some { s.setRelease r (.settled !s.closed) with closed := true }
  | .settled false => some (s.setRelease r .terminating)
  | .settled true =>
    match s.lock with
    | none => some { s.setRelease r .locked with lock := some (.release r) }
    | some _ => some (s.setRelease r .terminating)
  | .locked =>
    match s.stdin with
    | .slot => some { s.setRelease r .taken with stdin := .taken }
    | _ => some { s.setRelease r .terminating with lock := none }
  | .taken =>
    match platform with
    | .unix => some { s.setRelease r .saying with lock := none, stdin := .goodbye }
    | .windows => some { s.setRelease r .terminating with lock := none, stdin := .goodbye }
  | .saying =>
    match s.stdin with
    | .goodbye => none
    | _ => some (s.setRelease r .terminating)
  | .terminating => some (s.setRelease r .joining)
  | .joining => some (s.setRelease r .finished)
  | .idle | .finished => none

def farewell (answer : Answer) (s : State) : Option State :=
  match s.stdin with
  | .goodbye =>
    match answer with
    | .wrote n =>
      if n = 0 then some { s with stdin := .dropped }
      else if s.farewell + n ≤ connectorReleaseLine.length then
        some { s with
          pipe := s.pipe ++ (connectorReleaseLine.drop s.farewell).take n
          farewell := s.farewell + n
          stdin := if s.farewell + n < connectorReleaseLine.length then .goodbye else .dropped }
      else none
    | .interrupted => some s
    | .refused _ | .failed _ => some { s with stdin := .dropped }
  | _ => none

/-- The end of the reader: it closes the session and then waits for the input. -/
def readerEnds : Option State :=
  if s.reader = .running then some { s with reader := .closing, closed := true } else none

def readerTakes : Option State :=
  match s.reader, s.lock, s.stdin with
  | .closing, none, .slot => some { s with reader := .gone, stdin := .dropped }
  | .closing, none, _ => some { s with reader := .gone }
  | _, _, _ => none

def next (s : State) : Action → Option State
  | .call c => call c s
  | .check c json => check c json s
  | .lock c => lock c s
  | .busy c => busy c s
  | .begin c failure => «begin» platform c failure s
  | .write c answer => write platform c answer s
  | .complete c => complete platform c s
  | .collect c => collect c s
  | .stall c => stall c s
  | .threadEnds c => threadEnds c s
  | .abandon c => abandon c s
  | .finish c => finish c s
  | .terminalRelease n => release n s
  | .releaseAllConnectors n => release n s
  | .advance r => advance platform r s
  | .farewell answer => farewell answer s
  | .readerEnds => readerEnds s
  | .readerTakes => readerTakes s

end Connector
end Yuzora
