import Mathlib.Tactic.Common
/-!
# ConnectionActor — the execution lease of one database connection

`ConnectionActor` with the owners it compares.  Every operation that refuses leaves the actor as it was, so an operation
is a function to an error or to an answer with the next actor; `step` is one call.
-/
namespace Yuzora
namespace Db

/-! ## Owners -/

structure ConnectionIdentity (Id : Type) where
  descriptorId : Id
  connectionId : Id
  connectionGeneration : Id
  deriving DecidableEq

structure QueryRunOwner (Id : Type) where
  descriptorId : Id
  connectionId : Id
  connectionGeneration : Id
  queryRunId : Id
  deriving DecidableEq

structure ResultSessionOwner (Id : Type) where
  descriptorId : Id
  connectionId : Id
  connectionGeneration : Id
  queryRunId : Id
  statementExecutionId : Id
  resultSessionId : Id
  deriving DecidableEq

section Owners
variable {Id : Type} [DecidableEq Id]

def ownerBelongsTo (owner : QueryRunOwner Id) (connection : ConnectionIdentity Id) : Bool :=
  owner.descriptorId = connection.descriptorId && owner.connectionId = connection.connectionId &&
    owner.connectionGeneration = connection.connectionGeneration

def resultOwnerBelongsToRun (owner : ResultSessionOwner Id) (run : QueryRunOwner Id) : Bool :=
  owner.descriptorId = run.descriptorId && owner.connectionId = run.connectionId &&
    owner.connectionGeneration = run.connectionGeneration && owner.queryRunId = run.queryRunId

end Owners

/-! ## The actor -/

structure ExecutionLease (Id : Type) where
  owner : QueryRunOwner Id
  executionId : Nat
  deriving DecidableEq

structure MetadataLease where
  operationId : Nat
  deriving DecidableEq

inductive CancelCapability
  | sqliteInterrupt | postgresProtocolCancel | mssqlConnectionTermination
  deriving DecidableEq

inductive DriverCancelPrimitive
  | sqliteInterrupt | postgresCancelToken
  deriving DecidableEq

inductive CancelRequest
  | driverCancellationRequired (primitive : DriverCancelPrimitive)
  | connectionTerminationRequired
  | alreadyRequested
  deriving DecidableEq

inductive ReleaseRequest
  | requested | alreadyRequested
  deriving DecidableEq

inductive ActorError
  | ownerMismatch | connectionBusy | noActiveExecution | staleLease | executionIdExhausted | closed
  deriving DecidableEq

structure Settlement where
  cancelRequested : Bool
  releaseRequested : Bool
  connectionTerminationRequired : Bool
  deriving DecidableEq

structure TeardownReport where
  unreleasedExecution : Bool
  metadataInFlight : Bool
  unreleasedResultSessions : Nat
  closed : Bool
  deriving DecidableEq

structure LifecycleRequestState (Id : Type) where
  exactOwner : Option (QueryRunOwner Id)
  cancelRequested : Bool
  releaseRequested : Bool
  connectionTerminationRequired : Bool
  busy : Bool
  deriving DecidableEq

structure ActiveExecution (Id : Type) where
  lease : ExecutionLease Id
  cancelCapability : CancelCapability
  cancelRequested : Bool
  releaseRequested : Bool
  connectionTerminationRequired : Bool
  deriving DecidableEq

namespace ActiveExecution
variable {Id : Type}

def settlement (active : ActiveExecution Id) : Settlement :=
  ⟨active.cancelRequested, active.releaseRequested, active.connectionTerminationRequired⟩

/-- What a lifecycle teardown leaves in the occupied execution: SQLite alone keeps its connection. -/
def tornDown (active : ActiveExecution Id) : ActiveExecution Id :=
  { active with
    cancelRequested := true
    releaseRequested := true
    connectionTerminationRequired :=
      match active.cancelCapability with
      | .postgresProtocolCancel | .mssqlConnectionTermination => true
      | .sqliteInterrupt => active.connectionTerminationRequired }

def rolledBack [DecidableEq Id] (owner : QueryRunOwner Id) (active : ActiveExecution Id) : ActiveExecution Id :=
  if active.lease.owner = owner then { active with cancelRequested := false, connectionTerminationRequired := false }
  else active

theorem rolledBack_lease [DecidableEq Id] (owner : QueryRunOwner Id) (active : ActiveExecution Id) :
    (active.rolledBack owner).lease = active.lease := by
  rw [rolledBack]
  split <;> rfl

end ActiveExecution

structure ConnectionActor (Id : Type) where
  identity : ConnectionIdentity Id
  active : Option (ActiveExecution Id)
  pendingCancelDispatch : Option (QueryRunOwner Id)
  metadata : Option MetadataLease
  nextExecutionId : Nat
  closed : Bool
  deriving DecidableEq

/-- `u64::MAX` -/
def u64Max : Nat := 18446744073709551615

/-- `u64::checked_add` -/
def checkedAdd (a b : Nat) : Option Nat := if a + b ≤ u64Max then some (a + b) else none

theorem checkedAdd_some {a b c : Nat} (h : checkedAdd a b = some c) : c = a + b := by
  rw [checkedAdd] at h
  split at h
  · exact (Option.some.inj h).symm
  · cases h

namespace ConnectionActor
variable {Id : Type}

def new (identity : ConnectionIdentity Id) : ConnectionActor Id :=
  { identity, active := none, pendingCancelDispatch := none, metadata := none, nextExecutionId := 1, closed := false }

variable (self : ConnectionActor Id)

def isBusy : Bool :=
  self.active.isSome || self.pendingCancelDispatch.isSome || self.metadata.isSome

theorem isBusy_false {self : ConnectionActor Id} :
    self.isBusy = false ↔ self.active = none ∧ self.pendingCancelDispatch = none ∧ self.metadata = none := by
  simp [isBusy, and_assoc]

def teardownReport : TeardownReport :=
  { unreleasedExecution := self.active.isSome || self.pendingCancelDispatch.isSome
    metadataInFlight := self.metadata.isSome
    unreleasedResultSessions := 0
    closed := self.closed }

def acquireMetadata : Except ActorError (MetadataLease × ConnectionActor Id) :=
  if self.closed then .error .closed
  else if self.isBusy then .error .connectionBusy
  else
    match checkedAdd self.nextExecutionId 1 with
    | none => .error .executionIdExhausted
    | some next =>
      .ok (⟨self.nextExecutionId⟩, { self with nextExecutionId := next, metadata := some ⟨self.nextExecutionId⟩ })

def settleMetadata (lease : MetadataLease) : Except ActorError (ConnectionActor Id) :=
  match self.metadata with
  | some active => if active = lease then .ok { self with metadata := none } else .error .staleLease
  | none => .error .noActiveExecution

def beginTeardown : Except ActorError (TeardownReport × ConnectionActor Id) :=
  if self.isBusy then .error .connectionBusy
  else .ok ({ self.teardownReport with closed := true }, { self with closed := true })

def requestLifecycleTeardown : LifecycleRequestState Id × ConnectionActor Id :=
  match self.active with
  | none =>
    let self := { self with closed := true }
    (⟨none, false, false, false, self.isBusy⟩, self)
  | some active =>
    let active := active.tornDown
    let self := { self with closed := true, active := some active }
    (⟨some active.lease.owner, true, true, active.connectionTerminationRequired, self.isBusy⟩, self)

variable [DecidableEq Id]

def acquireExecution (self : ConnectionActor Id) (owner : QueryRunOwner Id) (cancelCapability : CancelCapability) :
    Except ActorError (ExecutionLease Id × ConnectionActor Id) :=
  if ownerBelongsTo owner self.identity = false then .error .ownerMismatch
  else if self.closed then .error .closed
  else if self.isBusy then .error .connectionBusy
  else
    match checkedAdd self.nextExecutionId 1 with
    | none => .error .executionIdExhausted
    | some next =>
      let lease := ⟨owner, self.nextExecutionId⟩
      .ok (lease, { self with
        nextExecutionId := next
        active := some ⟨lease, cancelCapability, false, false, false⟩ })

/-- `validate_execution_lease` -/
def validateExecutionLease (self : ConnectionActor Id) (lease : ExecutionLease Id) :
    Except ActorError (ActiveExecution Id) :=
  match self.active with
  | none => .error .noActiveExecution
  | some active => if active.lease = lease then .ok active else .error .staleLease

def markConnectionTerminated (self : ConnectionActor Id) (lease : ExecutionLease Id) :
    Except ActorError (ConnectionActor Id) :=
  match self.validateExecutionLease lease with
  | .error e => .error e
  | .ok active =>
    .ok { self with active := some { active with connectionTerminationRequired := true }, closed := true }

def requestCancel (self : ConnectionActor Id) (owner : QueryRunOwner Id) :
    Except ActorError (CancelRequest × ConnectionActor Id) :=
  if ownerBelongsTo owner self.identity = false then .error .ownerMismatch
  else if self.pendingCancelDispatch = some owner then .ok (.alreadyRequested, self)
  else
    match self.active with
    | none => .error .noActiveExecution
    | some active =>
      if active.lease.owner ≠ owner then .error .ownerMismatch
      else if active.cancelRequested then .ok (.alreadyRequested, self)
      else
        let active := { active with cancelRequested := true }
        let self := { self with pendingCancelDispatch := some owner }
        match active.cancelCapability with
        | .sqliteInterrupt =>
          .ok (.driverCancellationRequired .sqliteInterrupt, { self with active := some active })
        | .postgresProtocolCancel =>
          .ok (.driverCancellationRequired .postgresCancelToken, { self with active := some active })
        | .mssqlConnectionTermination =>
          .ok (.connectionTerminationRequired,
            { self with active := some { active with connectionTerminationRequired := true } })

def completeCancelDispatch (self : ConnectionActor Id) (owner : QueryRunOwner Id) :
    Except ActorError (ConnectionActor Id) :=
  if ownerBelongsTo owner self.identity = false then .error .ownerMismatch
  else
    match self.pendingCancelDispatch with
    | some pending =>
      if pending = owner then .ok { self with pendingCancelDispatch := none } else .error .ownerMismatch
    | none => .error .noActiveExecution

def failCancelDispatch (self : ConnectionActor Id) (owner : QueryRunOwner Id) :
    Except ActorError (ConnectionActor Id) :=
  if ownerBelongsTo owner self.identity = false then .error .ownerMismatch
  else
    match self.pendingCancelDispatch with
    | some pending =>
      if pending = owner then
        .ok { self with
          pendingCancelDispatch := none
          active := self.active.map (ActiveExecution.rolledBack owner) }
      else .error .ownerMismatch
    | none => .error .noActiveExecution

def requestRelease (self : ConnectionActor Id) (lease : ExecutionLease Id) :
    Except ActorError (ReleaseRequest × ConnectionActor Id) :=
  match self.validateExecutionLease lease with
  | .error e => .error e
  | .ok active =>
    if active.releaseRequested then .ok (.alreadyRequested, self)
    else .ok (.requested, { self with active := some { active with releaseRequested := true } })

def requestResultRelease (self : ConnectionActor Id) (owner : ResultSessionOwner Id) :
    Except ActorError (ReleaseRequest × ConnectionActor Id) :=
  match self.active with
  | none => .error .noActiveExecution
  | some active =>
    if resultOwnerBelongsToRun owner active.lease.owner = false then .error .ownerMismatch
    else if active.releaseRequested then .ok (.alreadyRequested, self)
    else .ok (.requested, { self with active := some { active with releaseRequested := true } })

def settleExecutionWithPolicy (self : ConnectionActor Id) (lease : ExecutionLease Id) (terminateIfCancelled : Bool) :
    Except ActorError (Settlement × ConnectionActor Id) :=
  match self.validateExecutionLease lease with
  | .error e => .error e
  | .ok active =>
    if terminateIfCancelled && active.cancelRequested then
      .ok ({ active.settlement with connectionTerminationRequired := true },
        { self with active := none, closed := true })
    else .ok (active.settlement, { self with active := none })

end ConnectionActor

/-! ## One call -/

inductive Call (Id : Type)
  | acquireExecution (owner : QueryRunOwner Id) (cancelCapability : CancelCapability)
  | acquireMetadata
  | settleMetadata (lease : MetadataLease)
  | beginTeardown
  | requestLifecycleTeardown
  | requestCancel (owner : QueryRunOwner Id)
  | completeCancelDispatch (owner : QueryRunOwner Id)
  | failCancelDispatch (owner : QueryRunOwner Id)
  | requestRelease (lease : ExecutionLease Id)
  | requestResultRelease (owner : ResultSessionOwner Id)
  | settleExecution (lease : ExecutionLease Id) (terminateIfCancelled : Bool)
  | markConnectionTerminated (lease : ExecutionLease Id)
  deriving DecidableEq

inductive Reply (Id : Type)
  | refused (error : ActorError)
  | done
  | execution (lease : ExecutionLease Id)
  | metadata (lease : MetadataLease)
  | report (report : TeardownReport)
  | lifecycle (state : LifecycleRequestState Id)
  | cancel (request : CancelRequest)
  | release (request : ReleaseRequest)
  | settlement (settlement : Settlement)
  deriving DecidableEq

namespace ConnectionActor
variable {Id : Type}

def answered {α : Type} (self : ConnectionActor Id) (reply : α → Reply Id) :
    Except ActorError (α × ConnectionActor Id) → Reply Id × ConnectionActor Id
  | .error e => (.refused e, self)
  | .ok (a, next) => (reply a, next)

def acknowledged (self : ConnectionActor Id) : Except ActorError (ConnectionActor Id) → Reply Id × ConnectionActor Id
  | .error e => (.refused e, self)
  | .ok next => (.done, next)

variable [DecidableEq Id]

def step (self : ConnectionActor Id) : Call Id → Reply Id × ConnectionActor Id
  | .acquireExecution owner capability => self.answered .execution (self.acquireExecution owner capability)
  | .acquireMetadata => self.answered .metadata self.acquireMetadata
  | .settleMetadata lease => self.acknowledged (self.settleMetadata lease)
  | .beginTeardown => self.answered .report self.beginTeardown
  | .requestLifecycleTeardown => (.lifecycle self.requestLifecycleTeardown.1, self.requestLifecycleTeardown.2)
  | .requestCancel owner => self.answered .cancel (self.requestCancel owner)
  | .completeCancelDispatch owner => self.acknowledged (self.completeCancelDispatch owner)
  | .failCancelDispatch owner => self.acknowledged (self.failCancelDispatch owner)
  | .requestRelease lease => self.answered .release (self.requestRelease lease)
  | .requestResultRelease owner => self.answered .release (self.requestResultRelease owner)
  | .settleExecution lease policy => self.answered .settlement (self.settleExecutionWithPolicy lease policy)
  | .markConnectionTerminated lease => self.acknowledged (self.markConnectionTerminated lease)

end ConnectionActor

end Db
end Yuzora
