import Yuzora.Table
import Yuzora.Trace
/-!
# Askpass — credentials for one operation at a time

A Git operation has a token of its own.  A client that names it is asked for at the desktop and waits for the answer;
the operation's revocation wakes who waits, and an answer after it is none.  Two locks guard this: what is done under
the lock of the operations is one step here, since only the clearing of waiters can fall into it, and that reads no
operation.  Each draw of an identifier or a token is of one that was never drawn.
-/
namespace Yuzora
namespace Askpass

/-! ## Requests -/

inductive AskpassOperationKind
  | fetch | pull | push | probe
  deriving DecidableEq

def AskpassOperationKind.asStr : AskpassOperationKind → String
  | fetch => "fetch"
  | pull => "pull"
  | push => "push"
  | probe => "probe"

structure AskpassOperationContext where
  repositoryDisplay : String
  repositoryCanonical : String
  remoteDisplay : Option String
  remoteFingerprint : Option String
  operation : AskpassOperationKind
  background : Bool
  deriving DecidableEq

/-- What the desktop is asked. -/
structure AskpassRequest where
  id : Nat
  prompt : String
  kind : String
  repositoryDisplay : String
  repositoryCanonical : String
  operation : String
  remoteDisplay : Option String
  background : Bool
  deriving DecidableEq

def startsWith (prompt start : String) : Bool := start.toList.isPrefixOf prompt.toList

def contains (prompt part : String) : Bool := prompt.toList.tails.any part.toList.isPrefixOf

def classify (prompt : String) : String :=
  if startsWith prompt "Username" then "username"
  else if contains prompt "assword" then "password"
  else if startsWith prompt "Enter passphrase" then "passphrase"
  else if contains prompt "continue connecting" then "fingerprint"
  else "other"

/-- What a client sends. -/
structure ClientRequest where
  token : String
  operationId : String
  prompt : String
  deriving DecidableEq

def MAX_PROMPT : Nat := 8192

structure PeerIdentity where
  pid : Option Nat
  uid : Option Nat

def AskpassOperationContext.request (context : AskpassOperationContext) (id : Nat) (prompt : String) : AskpassRequest where
  id := id
  prompt := prompt
  kind := classify prompt
  repositoryDisplay := context.repositoryDisplay
  repositoryCanonical := context.repositoryCanonical
  operation := context.operation.asStr
  remoteDisplay := context.remoteDisplay
  background := context.background

/-! ## Peers -/

/-- The parent of a process, as it is read the `n`-th time. -/
abbrev Parents := Nat → Nat → Option Nat

def ancestry (parentPid : Parents) (ancestor : Nat) : Nat → Nat → Nat → Bool
  | 0, _, _ => false
  | left + 1, n, current =>
    if current = ancestor then true
    else
      match parentPid n current with
      | some parent => if parent ≠ current then ancestry parentPid ancestor left (n + 1) parent else false
      | none => false

def isSelfOrDescendant (parentPid : Parents) (pid ancestor : Nat) : Bool := ancestry parentPid ancestor 32 0 pid

def peerAllowed (ours : Nat) (parentPid : Parents) (peer : PeerIdentity) (rootPid : Option Nat) : Bool :=
  if peer.uid.any fun uid => decide (uid ≠ ours) then false
  else
    match rootPid, peer.pid with
    | some root, some pid => isSelfOrDescendant parentPid pid root
    | none, _ => false
    | some _, none => true

/-! ## The server -/

structure OperationRecord where
  token : String
  context : AskpassOperationContext
  expires : Nat
  rootPid : Option Nat

def OperationRecord.isLive (record : OperationRecord) (now : Nat) : Bool := now < record.expires

/-- Who waits for an answer; the sender is the connection's. -/
structure PendingWaiter where
  operationId : String
  sender : Nat

structure Pending where
  nextId : Nat
  waiters : Table Nat PendingWaiter

/-- `sweep_expired` or a `revoke`: operations still to be removed, and one whose waiters are to be cleared. -/
structure Sweep where
  todo : List String
  clearing : Option String

/-- A connection that was admitted. -/
structure Admitted where
  peer : PeerIdentity
  request : ClientRequest
  event : AskpassRequest

/-- What a thread is at. -/
inductive Task
  | beginOperation (context : AskpassOperationContext) (ttl : Nat) (sweep : Sweep)
  /-- A guard is dropped. -/
  | revoke (sweep : Sweep)
  /-- `resolve`, in its sweep. -/
  | resolve (peer : PeerIdentity) (request : ClientRequest) (sweep : Sweep)
  | admitted (call : Admitted)
  /-- The request was emitted. -/
  | waiting (call : Admitted)
  /-- It takes its waiter out. -/
  | cancelling (call : Admitted)
  | ended
  /-- What the connection received. -/
  | answered (secret : String)

structure State where
  now : Nat
  operations : Table String OperationRecord
  pending : Pending
  tasks : Table Nat Task
  /-- What was sent to a connection and not received. -/
  channels : Nat → List (Option String)
  /-- The operations whose guards are not dropped. -/
  guards : List String
  emitted : List AskpassRequest
  /-- The identifiers and tokens that were drawn. -/
  drawn : List String

namespace State

variable (s : State)

def put (thread : Nat) (task : Task) : State := { s with tasks := s.tasks.insert thread task }

/-- The operations that `sweep_expired` finds. -/
def expired : Sweep := ⟨(s.operations.retain fun _ record => !record.isLive s.now).keys, none⟩

def send (connection : Nat) (message : Option String) : State :=
  { s with channels := fun c => if c = connection then s.channels c ++ [message] else s.channels c }

variable (operationId : String)

def ofOperation : Table Nat PendingWaiter :=
  s.pending.waiters.retain fun _ waiter => decide (waiter.operationId = operationId)

/-- The waiters of an operation are taken out, and each is woken with nothing. -/
def clear : State :=
  { s with
    pending := { s.pending with
      waiters := s.pending.waiters.retain fun _ waiter => !decide (waiter.operationId = operationId) }
    channels := fun c => s.channels c ++
      ((s.ofOperation operationId).values.filter fun waiter => decide (waiter.sender = c)).map fun _ => none }

def sweepStep : Sweep → Option (State × Sweep)
  | ⟨todo, some operationId⟩ => some (s.clear operationId, ⟨todo, none⟩)
  | ⟨operationId :: todo, none⟩ =>
    some ({ s with operations := s.operations.erase operationId }, ⟨todo, some operationId⟩)
  | ⟨[], none⟩ => none

def bindRootPid (pid : Nat) : State :=
  match s.operations.get operationId with
  | none => s
  | some record =>
    if record.isLive s.now then
      { s with operations := s.operations.insert operationId { record with rootPid := some pid } }
    else s

def live : Bool := (s.operations.get operationId).any fun record => record.isLive s.now

/-- `respond`: the answer is authorized under the lock of the operations. -/
def respond (id : Nat) (response : Option String) : State :=
  match s.pending.waiters.get id with
  | none => s
  | some waiter =>
    { s with pending := { s.pending with waiters := s.pending.waiters.erase id } }.send waiter.sender
      (if s.live waiter.operationId then response else none)

/-- Whether a request is of a live operation, and its peer the operation's. -/
def admits (ours : Nat) (parentPid : Parents) (s : State) (peer : PeerIdentity) (request : ClientRequest) :
    Option OperationRecord :=
  (s.operations.get request.operationId).filter fun record =>
    !(decide (record.token ≠ request.token) || !record.isLive s.now) && peerAllowed ours parentPid peer record.rootPid &&
      !record.context.background

def register (thread : Nat) (peer : PeerIdentity) (request : ClientRequest) (record : OperationRecord) : State :=
  let id := s.pending.nextId
  { s with pending := ⟨id + 1, s.pending.waiters.insert id ⟨request.operationId, thread⟩⟩ }.put thread
    (.admitted ⟨peer, request, record.context.request id request.prompt⟩)

end State

/-! ## Steps -/

inductive Action
  /-- Time passes. -/
  | pass (duration : Nat)
  | beginOperation (thread : Nat) (context : AskpassOperationContext) (ttl : Nat)
  /-- The record is inserted. -/
  | «open» (thread : Nat) (operationId token : String)
  | bindRootPid (operationId : String) (pid : Nat)
  /-- A guard is dropped. -/
  | drop (thread : Nat) (operationId : String)
  /-- A sweep or a revocation goes on. -/
  | sweep (thread : Nat)
  | returns (thread : Nat)
  /-- A connection, and the line that was read from it. -/
  | connect (thread : Nat) (peer : PeerIdentity) (line : Option String)
  | admitted (thread : Nat) (parentPid : Parents)
  | emit (thread : Nat)
  | receive (thread : Nat)
  | timeout (thread : Nat)
  | cancel (thread : Nat)
  | respond (id : Nat) (response : Option String)

section Next
-- `parse_request`, and the application's user.
variable (parseRequest : String → Option ClientRequest) (ours : Nat)

def next (s : State) : Action → Option State
  | .pass duration => some { s with now := s.now + duration }
  | .beginOperation thread context ttl =>
    if s.tasks.contains thread then none else some (s.put thread (.beginOperation context ttl s.expired))
  | .open thread operationId token =>
    match s.tasks.get thread with
    | some (.beginOperation context ttl ⟨[], none⟩) =>
      if operationId ∈ s.drawn ∨ token ∈ s.drawn ∨ operationId = token then none
      else
        some ({ s with
          operations := s.operations.insert operationId ⟨token, context, s.now + ttl, none⟩
          guards := operationId :: s.guards
          drawn := operationId :: token :: s.drawn }.put thread .ended)
    | _ => none
  | .bindRootPid operationId pid => if operationId ∈ s.guards then some (s.bindRootPid operationId pid) else none
  | .drop thread operationId =>
    if operationId ∈ s.guards ∧ s.tasks.contains thread = false then
      some ({ s with guards := s.guards.erase operationId }.put thread (.revoke ⟨[operationId], none⟩))
    else none
  | .sweep thread =>
    match s.tasks.get thread with
    | some (.beginOperation context ttl sweep) =>
      (s.sweepStep sweep).map fun (s, sweep) => s.put thread (.beginOperation context ttl sweep)
    | some (.revoke sweep) => (s.sweepStep sweep).map fun (s, sweep) => s.put thread (.revoke sweep)
    | some (.resolve peer request sweep) =>
      (s.sweepStep sweep).map fun (s, sweep) => s.put thread (.resolve peer request sweep)
    | _ => none
  | .returns thread =>
    match s.tasks.get thread with
    | some (.revoke ⟨[], none⟩) => some (s.put thread .ended)
    | _ => none
  | .connect thread peer line =>
    if s.tasks.contains thread then none
    else
      match line.bind parseRequest with
      | none => some (s.put thread (.answered ""))
      | some request =>
        if request.prompt.utf8ByteSize > MAX_PROMPT then some (s.put thread (.answered ""))
        else some (s.put thread (.resolve peer request s.expired))
  | .admitted thread parentPid =>
    match s.tasks.get thread with
    | some (.resolve peer request ⟨[], none⟩) =>
      match s.admits ours parentPid peer request with
      | none => some (s.put thread (.answered ""))
      | some record =>
        -- The last identifier is the last.
        if s.pending.nextId < 18446744073709551615 then some (s.register thread peer request record) else none
    | _ => none
  | .emit thread =>
    match s.tasks.get thread with
    | some (.admitted call) => some ({ s with emitted := s.emitted ++ [call.event] }.put thread (.waiting call))
    | _ => none
  | .receive thread =>
    match s.tasks.get thread, s.channels thread with
    | some (.waiting call), message :: rest =>
      let s := { s with channels := fun c => if c = thread then rest else s.channels c }
      match message with
      | some secret => some (s.put thread (.answered secret))
      | none => some (s.put thread (.cancelling call))
    | _, _ => none
  | .timeout thread =>
    match s.tasks.get thread, s.channels thread with
    | some (.waiting call), [] => some (s.put thread (.cancelling call))
    | _, _ => none
  | .cancel thread =>
    match s.tasks.get thread with
    | some (.cancelling call) =>
      some ({ s with pending := { s.pending with waiters := s.pending.waiters.erase call.event.id } }.put thread
        (.answered ""))
    | _ => none
  | .respond id response => some (s.respond id response)

end Next

def State.new (now : Nat) : State := ⟨now, .empty, ⟨1, .empty⟩, .empty, fun _ => [], [], [], []⟩

def Run (parseRequest : String → Option ClientRequest) (ours : Nat) : List (Transition State Action) → State → Prop :=
  Trace (fun s => ∃ now, s = State.new now) fun s a t => next parseRequest ours s a = some t

end Askpass
end Yuzora
