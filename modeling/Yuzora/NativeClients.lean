import Yuzora.Table
import Yuzora.Trace
/-!
# NativeClients — HERDR clients in pseudo-terminals, and their processes

A manager has up to sixteen clients.  Each is a child process, and a thread that reads its terminal and terminates it
when it ended by itself.  A client is released by itself, because a write to it stalled, or together with the others.

The processes are a table from pids: a pid that was reaped can be anybody's.  A thread's step is what it does up to the
next point where another can see it or come in between.  A child is waited for and signalled under its own lock, which is
held from step to step.
-/
namespace Yuzora
namespace NativeClients

/-! ## Processes and clients -/

/-- A process that has not been reaped: whose child it is, if a client's, and whether it still runs. -/
structure Process where
  client : Option Nat
  running : Bool
  deriving DecidableEq

inductive Thread
  | caller (n : Nat)
  | reader (client : Nat)
  deriving DecidableEq

structure PtySize where
  rows : Nat
  cols : Nat
  pixelWidth : Nat
  pixelHeight : Nat

structure HerdrClientSize where
  cols : Nat
  rows : Nat
  cellWidth : Nat
  cellHeight : Nat

def HerdrClientSize.ptySize (self : HerdrClientSize) : Except String PtySize :=
  if self.cols = 0 ∨ self.rows = 0 ∨ self.cols > 1000 ∨ self.rows > 1000 ∨ self.cellWidth > 128 ∨ self.cellHeight > 256 then
    .error "invalid-herdr-client-size"
  else .ok ⟨self.rows, self.cols, min (self.cols * self.cellWidth) 65535, min (self.rows * self.cellHeight) 65535⟩

structure NativeHerdrClient where
  /-- The child, and whether its status was read. -/
  pid : Nat
  reaped : Bool
  master : Option PtySize
  /-- The writer is in its place. -/
  input : Bool
  closed : Bool
  released : Bool
  childLock : Option Thread
  inputLock : Option Thread

def MAX_NATIVE_CLIENTS : Nat := 16

/-! ## What threads do -/

/-- How far a termination is: portable-pty's `kill` hangs up, looks five times and kills. -/
inductive Phase
  | check | hup
  | grace (left : Nat)
  | wait

/-- What a termination is for. -/
inductive After
  /-- A client that could not be registered. -/
  | refused (error : String)
  /-- One without a reader. -/
  | abandoned (error : String)
  | tail
  /-- A release, of a client that stalled if so. -/
  | release (stalled : Bool)

inductive Task
  /-- `spawn_native_pty`: the first checks were passed. -/
  | opening (size : PtySize) (limitError : String)
  | registering (c : Nat) (limitError : String)
  | starting (c : Nat)
  | unregistering (c : Nat) (error : String)
  | closing (c : Nat) (after : After)
  | locking (c : Nat) (after : After)
  | terminating (c : Nat) (phase : Phase) (after : After)
  /-- `native_reader_loop` -/
  | looping (c : Nat)
  | reading (c : Nat)
  | framing (c : Nat)
  | swapping (c : Nat)
  | removing (c : Nat)
  | checking (c : Nat)
  | delivering (c : Nat)
  /-- `release_native_client`: the client was taken out. -/
  | beginning (c : Nat) (stalled : Bool)
  | begun (c : Nat) (stalled : Bool)
  | mastering (c : Nat) (stalled : Bool)
  | inputs (c : Nat) (stalled : Bool) (error : Option String)
  | joining (stalled : Bool)
  /-- `native_client_input` -/
  | waiting (c : Nat)
  | writing (c : Nat)
  | stalled (c : Nat)
  /-- `release_all_connectors`: the targets are made, one after the other. -/
  | targets (todo : List Nat) (half : Bool) (made : List Nat)
  /-- `release_together`: each target and whether it is known to be gone. -/
  | signalling (kill : Bool) (todo past : List (Nat × Bool))
  | sending (kill : Bool) (c : Nat) (todo past : List (Nat × Bool))
  | settling (kill : Bool) (targets : List (Nat × Bool))
  | letGo (todo : List Nat)
  | returned (error : Option String)

/-- What the outside decides at a step. -/
inductive Choice
  | go
  /-- It did not work. -/
  | fails (error : String)
  /-- A bounded wait is over. -/
  | deadline
  /-- The process that was spawned. -/
  | spawned (pid : Nat)
  /-- A failed write hands its writer back, or not. -/
  | failed (back : Bool) (error : String)
  | stalls
  /-- A target is asked whether it is gone. -/
  | poll (c : Nat)

inductive Event
  /-- A signal is sent for a client: to a pid, and to who has it. -/
  | signal (c pid : Nat) (target : Option Process)
  /-- A client leaves the map. -/
  | left (c : Nat)
  /-- The bounded wait for its child ran out. -/
  | expired (c : Nat)
  | wrote (c : Nat)
  | stalled (c : Nat)
  /-- The guard lets the closing event pass. -/
  | passed (c : Nat)
  /-- The closing event is delivered. -/
  | closed (c : Nat)
  deriving DecidableEq

structure State where
  processes : Table Nat Process
  /-- The clients that were made, whoever refers to them. -/
  clients : Table Nat NativeHerdrClient
  nativeClients : List Nat
  nextSessionId : Nat
  threads : Table Thread Task
  log : List Event

namespace State

variable (s : State)

def go (th : Thread) (task : Task) : State := { s with threads := s.threads.insert th task }

def note (event : Event) : State := { s with log := s.log ++ [event] }

variable (c : Nat)

def put (client : NativeHerdrClient) : State := { s with clients := s.clients.insert c client }

def remove : State :=
  if c ∈ s.nativeClients then { s with nativeClients := s.nativeClients.filter (· ≠ c), log := s.log ++ [.left c] } else s

/-- `try_wait`: a process that exited is reaped. -/
def tryWait (client : NativeHerdrClient) : Bool × State :=
  if client.reaped then (true, s)
  else
    match s.processes.get client.pid with
    | some ⟨_, true⟩ => (false, s)
    | _ => (true, { s with
        processes := s.processes.erase client.pid
        clients := s.clients.insert c { client with reaped := true } })

def signal (s : State) (c : Nat) (client : NativeHerdrClient) : State :=
  s.note (.signal c client.pid (s.processes.get client.pid))

def unlock : State :=
  match s.clients.get c with
  | some client => s.put c { client with childLock := none }
  | none => s

def releaseMaster : State :=
  match s.clients.get c with
  | some client => s.put c { client with master := none }
  | none => s

/-- `release_input`: the writer is dropped elsewhere, unless another thread uses it. -/
def releaseInput : State :=
  match s.clients.get c with
  | some client => if client.inputLock = none then s.put c { client with input := false } else s
  | none => s

end State

def EXIT_TIMEOUT : String := "native-client-exit-timeout"
def CLOSED : String := "herdr-client-closed"
def CONTROL_BUSY_ERROR : String := "host-call-wait-timeout"
def INPUT_TIMEOUT_ERROR : String := "ioTimeout: herdr client stopped accepting input"

namespace State

variable (s : State)

variable (th : Thread)

def terminated (c : Nat) (error : Option String) : After → State
  | .refused limitError => (s.unlock c).go th (.returned (some limitError))
  | .abandoned spawnError => (s.unlock c).go th (.returned (some spawnError))
  | .tail => (s.unlock c).go th (.removing c)
  | .release stalled => (s.unlock c).go th (.inputs c stalled error)

/-- `terminate_native_client`, step by step. -/
def terminate (c : Nat) (client : NativeHerdrClient) (after : After) (choice : Choice) :
    Phase → State
  | .check =>
    let (gone, s) := s.tryWait c client
    if gone then s.terminated th c none after else s.go th (.terminating c .hup after)
  | .hup => (s.signal c client).go th (.terminating c (.grace 5) after)
  | .grace 0 => (s.signal c client).go th (.terminating c .wait after)
  | .grace (left + 1) =>
    let (gone, s) := s.tryWait c client
    s.go th (.terminating c (if gone then .wait else .grace left) after)
  | .wait =>
    let (gone, s) := s.tryWait c client
    if gone then s.terminated th c none after
    else
      match choice with
      | .deadline => (s.note (.expired c)).terminated th c (some EXIT_TIMEOUT) after
      | _ => s.go th (.terminating c .wait after)

def answer (stalled : Bool) (error : Option String) : Option String := if stalled then some INPUT_TIMEOUT_ERROR else error

/-- `release_native_client` -/
def release (c : Nat) (stalled : Bool) : State :=
  if c ∈ s.nativeClients then (s.remove c).go th (.beginning c stalled)
  else s.go th (.returned (answer stalled none))

/-- `signal` of a target that is not known to be gone. -/
def signalTarget (kill : Bool) (c : Nat) (client : NativeHerdrClient)
    (todo past : List (Nat × Bool)) : State :=
  if client.childLock = none then
    let (gone, s) := s.tryWait c client
    if gone then (s.releaseMaster c).go th (.signalling kill todo (past ++ [(c, true)]))
    else (s.put c { client with childLock := some th }).go th (.sending kill c todo past)
  else (s.releaseMaster c).go th (.signalling kill todo (past ++ [(c, false)]))

/-- `gone` of a target. -/
def pollTarget (kill : Bool) (c : Nat) (client : NativeHerdrClient)
    (targets : List (Nat × Bool)) : State :=
  if client.childLock = none then
    let (gone, s) := s.tryWait c client
    if gone then s.go th (.settling kill (targets.map fun target => if target.1 = c then (c, true) else target))
    else s
  else s

def expire (targets : List (Nat × Bool)) : State :=
  { s with log := s.log ++ (targets.filter fun target => !target.2).map fun target => Event.expired target.1 }

def advance (choice : Choice) : Task → Option State
  | .opening size limitError =>
    match choice with
    | .spawned pid =>
      -- A pid is anybody's that was reaped, but 0 and 1.
      if s.processes.contains pid ∨ pid ≤ 1 then none
      else
        let c := s.nextSessionId
        some ({ s with
          processes := s.processes.insert pid ⟨some c, true⟩
          clients := s.clients.insert c ⟨pid, false, some size, true, false, false, none, none⟩
          nextSessionId := c + 1 }.go th (.registering c limitError))
    | .fails error => some (s.go th (.returned (some error)))
    | _ => none
  | .registering c limitError =>
    if s.nativeClients.length ≥ MAX_NATIVE_CLIENTS then some (s.go th (.closing c (.refused limitError)))
    else some ({ s with nativeClients := c :: s.nativeClients }.go th (.starting c))
  | .starting c =>
    match choice with
    | .fails error => some (s.go th (.unregistering c error))
    | _ =>
      if s.threads.contains (.reader c) then none
      else some ((s.go (.reader c) (.looping c)).go th (.returned none))
  | .unregistering c error => some ((s.remove c).go th (.closing c (.abandoned error)))
  | .closing c after =>
    match s.clients.get c with
    | some client =>
      if client.inputLock = none then
        some ((s.put c { client with input := false, master := none }).go th (.locking c after))
      else none
    | none => none
  | .locking c after =>
    match s.clients.get c with
    | some client =>
      if client.childLock = none then
        some ((s.put c { client with childLock := some th }).go th (.terminating c .check after))
      else none
    | none => none
  | .terminating c phase after =>
    match s.clients.get c with
    | some client => some (s.terminate th c client after choice phase)
    | none => none
  | .looping c =>
    match s.clients.get c with
    | some client => some (s.go th (if client.closed then .swapping c else .reading c))
    | none => none
  | .reading c => some (s.go th (match choice with | .fails _ => .swapping c | _ => .framing c))
  | .framing c =>
    match s.clients.get c with
    | some client =>
      if client.released then some (s.go th (.swapping c))
      else some (s.go th (match choice with | .fails _ => .swapping c | _ => .looping c))
    | none => none
  | .swapping c =>
    match s.clients.get c with
    | some client =>
      if client.closed then some (s.go th (.returned none))
      else some ((s.put c { client with closed := true }).go th (.closing c .tail))
    | none => none
  | .removing c => some ((s.remove c).go th (.checking c))
  | .checking c =>
    match s.clients.get c with
    | some client =>
      if client.released then some (s.go th (.returned none)) else some ((s.note (.passed c)).go th (.delivering c))
    | none => none
  | .delivering c => some ((s.note (.closed c)).go th (.returned none))
  | .beginning c stalled =>
    match s.clients.get c with
    | some client => some ((s.put c { client with closed := true }).go th (.begun c stalled))
    | none => none
  | .begun c stalled =>
    match s.clients.get c with
    | some client => some ((s.put c { client with released := true }).go th (.mastering c stalled))
    | none => none
  | .mastering c stalled => some ((s.releaseMaster c).go th (.locking c (.release stalled)))
  | .inputs c stalled error =>
    match error with
    | some error => some ((s.releaseInput c).go th (.returned (answer stalled (some error))))
    | none => some ((s.releaseInput c).go th (.joining stalled))
  | .joining stalled => some (s.go th (.returned (answer stalled none)))
  | .waiting c =>
    match s.clients.get c with
    | some client =>
      match choice with
      | .deadline => some (s.go th (.returned (some CONTROL_BUSY_ERROR)))
      | _ =>
        if client.inputLock = none then
          if client.input then
            some (((s.put c { client with input := false, inputLock := some th }).note (.wrote c)).go th (.writing c))
          else some (s.go th (.returned (some CLOSED)))
        else none
    | none => none
  | .writing c =>
    match s.clients.get c with
    | some client =>
      match choice with
      | .stalls =>
        some (((s.put c { client with inputLock := none }).note (.stalled c)).go th (.stalled c))
      | .failed back error =>
        some ((s.put c { client with input := back, inputLock := none }).go th (.returned (some error)))
      | _ => some ((s.put c { client with input := true, inputLock := none }).go th (.returned none))
    | none => none
  | .stalled c => some (s.release th c true)
  | .targets (c :: todo) false made =>
    match s.clients.get c with
    | some client => some ((s.put c { client with closed := true }).go th (.targets (c :: todo) true made))
    | none => none
  | .targets (c :: todo) true made =>
    match s.clients.get c with
    | some client => some ((s.put c { client with released := true }).go th (.targets todo false (made ++ [c])))
    | none => none
  | .targets [] _ made => some (s.go th (.signalling false (made.map fun c => (c, false)) []))
  | .signalling kill ((c, true) :: todo) past => some (s.go th (.signalling kill todo (past ++ [(c, true)])))
  | .signalling kill ((c, false) :: todo) past =>
    match s.clients.get c with
    | some client => some (s.signalTarget th kill c client todo past)
    | none => none
  | .signalling kill [] past =>
    if kill ∧ past.all (·.2) then some (s.go th (.letGo (past.map Prod.fst))) else some (s.go th (.settling kill past))
  | .sending kill c todo past =>
    match s.clients.get c with
    | some client =>
      let s := if client.pid > 1 then s.signal c client else s
      some (((s.unlock c).releaseMaster c).go th (.signalling kill todo (past ++ [(c, false)])))
    | none => none
  | .settling kill targets =>
    match choice with
    | .poll c =>
      if (c, false) ∈ targets then
        match s.clients.get c with
        | some client => some (s.pollTarget th kill c client targets)
        | none => none
      else none
    | .deadline =>
      if kill then some ((s.expire targets).go th (.letGo (targets.map Prod.fst)))
      else some (s.go th (.signalling true targets []))
    | _ => if targets.all (·.2) then some (s.go th (.letGo (targets.map Prod.fst))) else none
  | .letGo (c :: todo) => some ((s.releaseInput c).go th (.letGo todo))
  | .letGo [] => some (s.go th (.returned none))
  | .returned _ => none

end State

section Next
-- The length of what base64 decodes to.
variable (decode : String → Option Nat)

inductive Action
  /-- A client's process exits. -/
  | exit (pid : Nat)
  /-- Somebody else's process takes a pid, or lets go of it. -/
  | foreign (pid : Nat)
  | gone (pid : Nat)
  | «open» (th : Nat) (size : HerdrClientSize) (limitError : String)
  | input (th : Nat) (id : Nat) (text bytesBase64 : Option String)
  | resize (th : Nat) (id : Nat) (cols rows : Nat)
  | release (th : Nat) (id : Nat)
  | releaseAll (th : Nat)
  /-- A thread goes on. -/
  | step (th : Thread) (choice : Choice)

def inputBytes : Option String → Option String → Except String Nat
  | some text, none => .ok text.utf8ByteSize
  | none, some encoded =>
    match decode encoded with
    | some length => .ok length
    | none => .error "invalid-client-input"
  | _, _ => .error "exactly-one-input-format-required"

/-- The answer of `native_client_resize`, and the master after it. -/
def resized (client : NativeHerdrClient) (cols rows : Nat) : Except String NativeHerdrClient :=
  match client.master with
  | none => .error CLOSED
  | some previous =>
    match (HerdrClientSize.mk cols rows (previous.pixelWidth / previous.cols) (previous.pixelHeight / previous.rows)).ptySize with
    | .ok size => .ok { client with master := some size }
    | .error error => .error error

def next (s : State) : Action → Option State
  | .exit pid =>
    match s.processes.get pid with
    | some process => some { s with processes := s.processes.insert pid { process with running := false } }
    | none => none
  | .foreign pid =>
    if s.processes.contains pid then none else some { s with processes := s.processes.insert pid ⟨none, true⟩ }
  | .gone pid =>
    match s.processes.get pid with
    | some ⟨none, _⟩ => some { s with processes := s.processes.erase pid }
    | _ => none
  | .open th size limitError =>
    if s.threads.contains (.caller th) then none
    else if s.nativeClients.length ≥ MAX_NATIVE_CLIENTS then some (s.go (.caller th) (.returned (some limitError)))
    else
      match size.ptySize with
      | .error error => some (s.go (.caller th) (.returned (some error)))
      | .ok size => some (s.go (.caller th) (.opening size limitError))
  | .input th id text bytesBase64 =>
    if s.threads.contains (.caller th) then none
    else
      match inputBytes decode text bytesBase64 with
      | .error error => some (s.go (.caller th) (.returned (some error)))
      | .ok length =>
        if length > 512 * 1024 then some (s.go (.caller th) (.returned (some "client-input-too-large")))
        else if id ∈ s.nativeClients then some (s.go (.caller th) (.waiting id))
        else some (s.go (.caller th) (.returned (some CLOSED)))
  | .resize th id cols rows =>
    if s.threads.contains (.caller th) then none
    else if id ∈ s.nativeClients then
      match s.clients.get id with
      | some client =>
        match resized client cols rows with
        | .ok client => some ((s.put id client).go (.caller th) (.returned none))
        | .error error => some (s.go (.caller th) (.returned (some error)))
      | none => none
    else some (s.go (.caller th) (.returned (some CLOSED)))
  | .release th id =>
    if s.threads.contains (.caller th) then none else some (s.release (.caller th) id false)
  | .releaseAll th =>
    if s.threads.contains (.caller th) then none
    else
      some ({ s with nativeClients := [], log := s.log ++ s.nativeClients.map Event.left }.go (.caller th)
        (.targets s.nativeClients false []))
  | .step th choice =>
    match s.threads.get th with
    | some task => s.advance th choice task
    | none => none

end Next

def State.new (processes : Table Nat Process) : State := ⟨processes, .empty, [], 1, .empty, []⟩

def Fresh (s : State) : Prop :=
  ∃ processes : Table Nat Process, s = .new processes ∧ ∀ pid process, processes.get pid = some process → process.client = none

abbrev Run (decode : String → Option Nat) : List (Transition State Action) → State → Prop :=
  Trace Fresh fun s a t => next decode s a = some t

end NativeClients
end Yuzora
