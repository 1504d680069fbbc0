import Yuzora.WorkspaceTrust
/-!
# GitRegistry — which repositories may be worked on, and by how many

A workspace is bound to the repository that was detected in it.  The entry of a repository holds its gate and its lock;
it leaves the table with the last workspace bound to it, and an operation that took it before still holds it.  An entry
is named by a number, as what was taken of it is shared.
-/
namespace Yuzora
namespace GitRegistry

open Trust (WorkspaceIdentity Disk observeIdentity)

def MAX_GIT_JOBS : Nat := 4

def MAX_WORKSPACES : Nat := 128

/-! ## Gates -/

structure JobGate where
  running : Nat

/-- `acquire_within`, where a slot is free. -/
def JobGate.acquire (gate : JobGate) : Option JobGate :=
  if gate.running < MAX_GIT_JOBS then some ⟨gate.running + 1⟩ else none

/-- `GitJob::drop`. -/
def JobGate.drop (gate : JobGate) : JobGate := ⟨gate.running - 1⟩

/-! ## The registry -/

structure Repository where
  identity : WorkspaceIdentity
  mutationAdmission : JobGate
  /-- The lock is taken. -/
  operation : Bool
  /-- An operation panicked with the lock. -/
  poisoned : Bool
  cancelled : Bool

def Repository.new (identity : WorkspaceIdentity) : Repository := ⟨identity, ⟨0⟩, false, false, false⟩

structure Workspace where
  generation : Nat
  root : Option String
  watcher : Option Nat

inductive GitEnvironment
  | missing (reason : String) (kind minimumVersion : Option String)
  | notARepo
  | ready (root version : String)

inductive Failure
  | frontend (error : Trust.TrustError)
  | message (text : String)

/-- What a call holds: a place in its repository's gate, the repository's lock, a place among the jobs. -/
inductive Slot
  | admission | operation | job
  deriving DecidableEq

inductive Outcome
  | done | failed (failure : Failure) | panicked

inductive Phase
  | waiting
  /-- The entry was not cancelled. -/
  | checked
  /-- And the path led to its repository. -/
  | verified (identity : WorkspaceIdentity)
  | running
  | leaving (outcome : Outcome)
  | returned (outcome : Outcome)

/-- A call of `with_repository` or of `with_repository_read` that found its entry. -/
structure Call where
  requested : String
  exclusive : Bool
  entry : Nat
  phase : Phase
  /-- What it holds, the last first. -/
  held : List Slot
  /-- What it has taken and given back so far. -/
  taken : List Slot
  given : List Slot

def Call.wants (call : Call) : Option Slot :=
  match call.phase with
  | .waiting =>
    if call.exclusive then
      match call.held with
      | [] => some .admission
      | [.admission] => some .operation
      | [.operation, .admission] => some .job
      | _ => none
    else if call.held = [] then some .job
    else none
  | _ => none

structure State where
  generation : Nat
  workspaces : Table String Workspace
  /-- The entry of a root. -/
  repositories : Table String Nat
  /-- Every entry that was made. -/
  entries : Table Nat Repository
  nextEntry : Nat
  jobs : JobGate
  /-- Jobs that a detection holds. -/
  detecting : Nat
  calls : Table Nat Call

namespace State

variable (s : State)

def modify (entry : Nat) (f : Repository → Repository) : State :=
  { s with entries := s.entries.mapValues fun id repo => if id = entry then f repo else repo }

variable (workspace : String)

def begin : Except String (Nat × State) :=
  if s.workspaces.size ≥ MAX_WORKSPACES ∧ s.workspaces.contains workspace = false then .error "git-workspace-limit"
  else if s.generation < 18446744073709551615 then
    let generation := s.generation + 1
    let slot := (s.workspaces.get workspace).getD ⟨generation, none, none⟩
    .ok (generation, { s with generation, workspaces := s.workspaces.insert workspace { slot with generation } })
  else .error "git-generation-exhausted"

def retained (root : String) : Bool := s.workspaces.values.any fun slot => decide (slot.root = some root)

/-- What is bound by no workspace leaves the table, and is cancelled. -/
def removeOrphans : State :=
  { s with
    repositories := s.repositories.retain fun root _ => s.retained root
    entries := s.entries.mapValues fun id repo =>
      if s.repositories.entries.any fun e => decide (e.2 = id) && !s.retained e.1 then { repo with cancelled := true }
      else repo }

def knows (identity : WorkspaceIdentity) : Bool :=
  ((s.repositories.get identity.canonicalPath).bind s.entries.get).any fun repo => decide (repo.identity = identity)

def replace (identity : WorkspaceIdentity) : State :=
  let s := match s.repositories.get identity.canonicalPath with
    | none => s
    | some old => s.modify old fun repo => { repo with cancelled := true }
  { s with
    repositories := s.repositories.insert identity.canonicalPath s.nextEntry
    entries := s.entries.insert s.nextEntry (.new identity)
    nextEntry := s.nextEntry + 1 }

def detected (disk : Disk) : GitEnvironment → Except Failure (Option WorkspaceIdentity)
  | .ready root _ =>
    match observeIdentity disk root with
    | .error error => .error (.frontend error)
    | .ok identity => .ok (some identity)
  | _ => .ok none

def enrolled : Option WorkspaceIdentity → State
  | none => s
  | some identity => if s.knows identity then s else s.replace identity

/-- What `finish` does under the lock. -/
def bound (slot : Workspace) (identity : Option WorkspaceIdentity) (watcher : Option Nat) :
    State :=
  let s := s.enrolled identity
  let slot := { slot with root := identity.map WorkspaceIdentity.canonicalPath, watcher }
  { s with workspaces := s.workspaces.insert workspace slot }.removeOrphans

def finish (generation : Nat) (environment : GitEnvironment) (watcher : Option Nat)
    (disk : Disk) : Except Failure (Bool × State) :=
  match detected disk environment with
  | .error failure => .error failure
  | .ok identity =>
    match s.workspaces.get workspace with
    | none => .ok (false, s)
    | some slot =>
      if slot.generation = generation then .ok (true, s.bound workspace slot identity watcher) else .ok (false, s)

def close (generation : Nat) : State :=
  match s.workspaces.get workspace with
  | none => s
  | some slot =>
    if slot.generation = generation then { s with workspaces := s.workspaces.erase workspace }.removeOrphans else s

/-! ## Operations -/

variable (id : Nat)

def put (call : Call) : State := { s with calls := s.calls.insert id call }

def enter (requested : String) (exclusive : Bool) (disk : Disk) : Except Failure Call :=
  match observeIdentity disk requested with
  | .error error => .error (.frontend error)
  | .ok identity =>
    match s.repositories.get identity.canonicalPath with
    | none => .error (.message "no repository detected for this workspace")
    | some entry => .ok ⟨requested, exclusive, entry, .waiting, [], [], []⟩

def took (call : Call) (slot : Slot) : State :=
  s.put id { call with held := slot :: call.held, taken := call.taken ++ [slot] }

def leave (call : Call) (outcome : Outcome) : State := s.put id { call with phase := .leaving outcome }

/-- A call takes what it waits for, where that is free.  A poisoned lock is taken and let go. -/
def take (call : Call) (repo : Repository) : Slot → Option State
  | .admission =>
    repo.mutationAdmission.acquire.map fun gate =>
      (s.modify call.entry fun repo => { repo with mutationAdmission := gate }).took id call .admission
  | .operation =>
    if repo.operation then none
    else if repo.poisoned then
      some (s.leave id call (.failed (.message "poisoned lock: another task failed inside")))
    else some ((s.modify call.entry fun repo => { repo with operation := true }).took id call .operation)
  | .job => s.jobs.acquire.map fun jobs => { s with jobs }.took id call .job

def busy (s : State) (id : Nat) (call : Call) (repo : Repository) (slot : Slot) : Option State :=
  let full (gate : JobGate) := if gate.running < MAX_GIT_JOBS then none
    else some (s.leave id call (.failed (.message "git-jobs-busy")))
  match slot with
  | .admission => full repo.mutationAdmission
  | .operation => none
  | .job => full s.jobs

def changed : Outcome := .failed (.message "git repository changed before operation")

/-- What an entry or the jobs get back.  The lock of a panicking operation is poisoned. -/
def returnSlot (entry : Nat) (outcome : Outcome) : Slot → State
  | .admission => s.modify entry fun repo => { repo with mutationAdmission := repo.mutationAdmission.drop }
  | .operation => s.modify entry fun repo =>
    { repo with
      operation := false
      poisoned := match outcome with
        | .panicked => true
        | _ => repo.poisoned }
  | .job => { s with jobs := s.jobs.drop }

/-- A call that ends gives back what it holds, the last first, and returns. -/
def release (call : Call) (outcome : Outcome) : State :=
  match call.held with
  | [] => s.put id { call with phase := .returned outcome }
  | slot :: held => (s.returnSlot call.entry outcome slot).put id { call with held, given := call.given ++ [slot] }

end State

/-! ## Steps -/

inductive Action
  | begin (workspace : String)
  | finish (workspace : String) (generation : Nat) (environment : GitEnvironment) (watcher : Option Nat) (disk : Disk)
  | close (workspace : String) (generation : Nat)
  /-- `with_repository_access`, up to the entry. -/
  | enter (id : Nat) (requested : String) (exclusive : Bool) (disk : Disk)
  | take (id : Nat)
  | busy (id : Nat)
  /-- The flag of the entry is read. -/
  | check (id : Nat)
  /-- The path is looked at again. -/
  | observe (id : Nat) (disk : Disk)
  | start (id : Nat)
  | stop (id : Nat) (outcome : Outcome)
  | release (id : Nat)
  /-- `acquire_job`, for a detection. -/
  | acquireJob
  | dropJob

/-- What a step of a call makes of the state, where the call can make it. -/
def State.advance (s : State) (id : Nat) (f : Call → Repository → Option State) : Option State :=
  (s.calls.get id).bind fun call => (s.entries.get call.entry).bind fun repo => f call repo

def next (s : State) : Action → Option State
  | .begin workspace =>
    match s.begin workspace with
    | .error _ => some s
    | .ok (_, t) => some t
  | .finish workspace generation environment watcher disk =>
    match s.finish workspace generation environment watcher disk with
    | .error _ => some s
    | .ok (_, t) => some t
  | .close workspace generation => some (s.close workspace generation)
  | .enter id requested exclusive disk =>
    if s.calls.contains id then none
    else
      match s.enter requested exclusive disk with
      | .error _ => some s
      | .ok call => some (s.put id call)
  | .take id => s.advance id fun call repo => call.wants.bind (s.take id call repo)
  | .busy id => s.advance id fun call repo => call.wants.bind (s.busy id call repo)
  | .check id => s.advance id fun call repo =>
    match call.phase, call.wants with
    | .waiting, none =>
      some (if repo.cancelled then s.leave id call State.changed else s.put id { call with phase := .checked })
    | _, _ => none
  | .observe id disk => s.advance id fun call repo =>
    match call.phase with
    | .checked =>
      match observeIdentity disk call.requested with
      | .error error => some (s.leave id call (.failed (.frontend error)))
      | .ok identity =>
        some (if identity = repo.identity then s.put id { call with phase := .verified identity }
          else s.leave id call State.changed)
    | _ => none
  | .start id => s.advance id fun call _ =>
    match call.phase with
    | .verified _ => some (s.put id { call with phase := .running })
    | _ => none
  | .stop id outcome => s.advance id fun call _ =>
    match call.phase with
    | .running => some (s.leave id call outcome)
    | _ => none
  | .release id => s.advance id fun call _ =>
    match call.phase with
    | .leaving outcome => some (s.release id call outcome)
    | _ => none
  | .acquireJob => s.jobs.acquire.map fun jobs => { s with jobs, detecting := s.detecting + 1 }
  | .dropJob => if 0 < s.detecting then some { s with jobs := s.jobs.drop, detecting := s.detecting - 1 } else none

def State.new : State := ⟨0, .empty, .empty, .empty, 0, ⟨0⟩, 0, .empty⟩

def Run : List (Transition State Action) → State → Prop := Trace (· = State.new) fun s a t => next s a = some t

end GitRegistry
end Yuzora
