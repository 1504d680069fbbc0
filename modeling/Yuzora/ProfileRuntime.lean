import Yuzora.Threads
import Yuzora.ProfileOps
/-!
# ProfileRuntime — opening and closing saved connections

`ProfileRuntimeRegistry` maps a descriptor to what its connection is doing; the actors and the result sessions have
registries and locks of their own.  Every operation is a program whose commands are one lock-protected step each, and
other operations may come between any two of them.  The locks are not poisoned.
-/
namespace Yuzora
namespace Runtime

open Profiles (ProfileDocument ProfileError ProfileErrorCode ProfileDescriptor ProfileTarget DbOpenConfig VaultErrorKind
  ProfileRepositoryErrorKind LifecycleCloseEvidence LifecycleCloseErrorKind findProfile openConfig)

/-! ## The registries -/

inductive LiveDatabaseEngine
  | sqlite | postgres | mssql
  deriving DecidableEq

structure ConnectionIdentity where
  descriptorId : String
  connectionId : String
  connectionGeneration : String
  deriving DecidableEq

structure LiveConnection where
  descriptorId : String
  connectionId : String
  connectionGeneration : String
  engine : LiveDatabaseEngine
  deriving DecidableEq

variable (connection : LiveConnection)

def LiveConnection.identity : ConnectionIdentity :=
  ⟨connection.descriptorId, connection.connectionId, connection.connectionGeneration⟩

/-- The codes of `DatabaseOperationalError` that these operations tell apart. -/
inductive OperationalErrorCode
  | connectionBusy | serverDisconnected | staleConnection | connectionFailed | other (code : String)
  deriving DecidableEq

inductive RuntimeErrorCode
  | profile (code : ProfileErrorCode)
  | operational (code : OperationalErrorCode)
  deriving DecidableEq

structure RuntimeError where
  code : RuntimeErrorCode
  message : String
  deriving DecidableEq

def RuntimeError.ofProfile (error : ProfileError) : RuntimeError := ⟨.profile error.code, error.message⟩

def invalidated : RuntimeError := ⟨.operational .staleConnection, "database connection open was invalidated"⟩
def noLongerActive : RuntimeError := ⟨.operational .staleConnection, "database connection is no longer active"⟩
def openerEnded : RuntimeError :=
  ⟨.operational .staleConnection, "database connection opener ended before completion"⟩
def registryUnavailable : RuntimeError :=
  ⟨.operational .connectionFailed, "database connection registry is unavailable"⟩
def closing : RuntimeError := ⟨.operational .connectionBusy, "database connection is closing"⟩
def terminating : RuntimeError :=
  ⟨.operational .connectionBusy, "database connection termination is waiting for execution settlement"⟩

/-- The reservation of an opener.  Its completion is the slot of its ticket. -/
structure OpeningReservation where
  descriptorId : String
  ticket : Nat
  configGeneration : Nat
  deriving DecidableEq

inductive OpenDecision
  | live (connection : LiveConnection)
  | wait (ticket : Nat)
  | opens (reservation : OpeningReservation)
  | unavailable (error : RuntimeError)
  deriving DecidableEq

inductive ProfileRuntimeEntry
  | opening (reservation : OpeningReservation)
  | live (connection : LiveConnection)
  | closing (connection : LiveConnection)
  deriving DecidableEq

structure Actor where
  identity : ConnectionIdentity
  terminating : Bool
  /-- The handle of a remote SQLite connection may be closed while its actor is still registered. -/
  remoteClosed : Bool
  deriving DecidableEq

structure TeardownReport where
  unreleasedExecution : Bool
  metadataInFlight : Bool
  unreleasedResultSessions : Nat
  deriving DecidableEq

/-- The durable document, the runtime registry, the actors by connection id, and the result sessions with their owners.
`completions` are the results of reservations by their tickets; `asked` remembers whose actor was asked to close. -/
structure Shared where
  durable : ProfileDocument
  entries : Table String ProfileRuntimeEntry
  terminated : Table String ConnectionIdentity
  nextTicket : Nat
  completions : Table Nat (Except RuntimeError LiveConnection)
  actors : Table String Actor
  sessions : List (ConnectionIdentity × String)
  nextConnection : Nat
  asked : List ConnectionIdentity

/-! ### Completions and entries -/

/-- `OpenCompletion::finish`: the first result stays. -/
def finish (ticket : Nat) (result : Except RuntimeError LiveConnection) (state : Shared) : Shared :=
  match state.completions.get ticket with
  | some _ => state
  | none => { state with completions := state.completions.insert ticket result }

variable (descriptorId : String)

def reserveLocked (configGeneration : Nat) (state : Shared) :
    Except LifecycleCloseErrorKind OpenDecision × Shared :=
  let state := { state with terminated := state.terminated.erase descriptorId }
  if state.nextTicket + 1 < 18446744073709551616 then
    let reservation := ⟨descriptorId, state.nextTicket, configGeneration⟩
    (.ok (.opens reservation),
      { state with nextTicket := state.nextTicket + 1, entries := state.entries.insert descriptorId (.opening reservation) })
  else (.error .closeFailed, state)

def beginOpen (configGeneration : Nat) (state : Shared) :
    Except LifecycleCloseErrorKind OpenDecision × Shared :=
  match state.entries.get descriptorId with
  | some (.live connection) => (.ok (.live connection), state)
  | some (.closing _) => (.ok (.unavailable closing), state)
  | some (.opening reservation) =>
    if reservation.configGeneration = configGeneration then (.ok (.wait reservation.ticket), state)
    else
      let state := finish reservation.ticket (.error invalidated) state
      reserveLocked descriptorId configGeneration { state with entries := state.entries.erase descriptorId }
  | none => reserveLocked descriptorId configGeneration state

variable (reservation : OpeningReservation)

def publishOpen (connection : LiveConnection) (state : Shared) : Bool × Shared :=
  match state.entries.get reservation.descriptorId with
  | some (.opening current) =>
    if current.ticket = reservation.ticket ∧ current.configGeneration = reservation.configGeneration then
      (true, finish reservation.ticket (.ok connection)
        { state with entries := state.entries.insert reservation.descriptorId (.live connection) })
    else (false, state)
  | _ => (false, state)

def failOpen (error : RuntimeError) (state : Shared) : Shared :=
  finish reservation.ticket (.error error) <|
    match state.entries.get reservation.descriptorId with
    | some (.opening current) =>
      if current.ticket = reservation.ticket then
        { state with entries := state.entries.erase reservation.descriptorId }
      else state
    | _ => state

def beginClose (state : Shared) :
    Except LifecycleCloseErrorKind (Option LiveConnection) × Shared :=
  match state.entries.get descriptorId with
  | some (.opening reservation) =>
    (.ok none, finish reservation.ticket (.error invalidated)
      { state with entries := state.entries.erase descriptorId })
  | some (.live connection) =>
    (.ok (some connection), { state with entries := state.entries.insert descriptorId (.closing connection) })
  | some (.closing _) => (.error .closeFailed, state)
  | none => (.ok none, state)

def finishClose (closed : Bool) (state : Shared) :
    Except LifecycleCloseErrorKind Unit × Shared :=
  if state.entries.get connection.descriptorId = some (.closing connection) then
    (.ok (), { state with
      entries := if closed then state.entries.erase connection.descriptorId
        else state.entries.insert connection.descriptorId (.live connection) })
  else (.error .closeFailed, state)

def discardExact (state : Shared) : Bool × Shared :=
  match state.entries.get connection.descriptorId with
  | some (.live current) | some (.closing current) =>
    if current = connection then (true, { state with entries := state.entries.erase connection.descriptorId })
    else (false, state)
  | _ => (false, state)

variable (identity : ConnectionIdentity)

def markExactConnectionOffline (state : Shared) : Except RuntimeError Unit × Shared :=
  let offline := { state with
    entries := state.entries.erase identity.descriptorId
    terminated := state.terminated.insert identity.descriptorId identity }
  let tombstone := if state.terminated.get identity.descriptorId = some identity then .ok () else .error noLongerActive
  match state.entries.get identity.descriptorId with
  | some (.live current) | some (.closing current) =>
    if current.identity = identity then (.ok (), offline) else (tombstone, state)
  | _ => (tombstone, state)

/-! ### Actors and sessions -/

variable (state : Shared)

def exactActor (identity : ConnectionIdentity) : Option Actor :=
  (state.actors.get identity.connectionId).filter fun actor => actor.identity = identity

def hasExactActor (identity : ConnectionIdentity) : Bool :=
  (exactActor state identity).any fun actor => !actor.remoteClosed

def exactActorIsTerminating (identity : ConnectionIdentity) : Bool :=
  (exactActor state identity).any (·.terminating)

def registerActor (state : Shared) : Except OperationalErrorCode Unit × Shared :=
  match state.actors.get identity.connectionId with
  | some _ => (.error .staleConnection, state)
  | none => (.ok (), { state with actors := state.actors.insert identity.connectionId ⟨identity, false, false⟩ })

/-- What comes of asking an actor to close: it is torn down, it is busy, or something fails after it was asked. -/
inductive CloseOutcome
  | closed (report : TeardownReport)
  | busy
  | failed (code : OperationalErrorCode)

def closeExactInState (outcome : CloseOutcome) (identity : ConnectionIdentity) (state : Shared) :
    Except OperationalErrorCode TeardownReport × Shared :=
  match exactActor state identity with
  | none => (.error .staleConnection, state)
  | some actor =>
    let asked := { state with asked := identity :: state.asked }
    match outcome with
    | .closed report => (.ok report, { asked with actors := state.actors.erase identity.connectionId })
    | .busy =>
      (.error .connectionBusy, { asked with
        actors := state.actors.insert identity.connectionId { actor with terminating := true } })
    | .failed code => (.error code, asked)

/-- `release_connection` of the result sessions. -/
def releaseConnection (state : Shared) : Shared :=
  { state with sessions := state.sessions.filter fun session => session.1 ≠ identity }

/-! ## Commands -/

inductive Command
  | openable (descriptorId : String)
  | resolve (descriptorId : String)
  | beginOpen (descriptorId : String) (configGeneration : Nat)
  | hasActor (identity : ConnectionIdentity)
  | isTerminating (identity : ConnectionIdentity)
  | release (identity : ConnectionIdentity)
  | discard (connection : LiveConnection)
  | newConnection (descriptorId : String) (engine : LiveDatabaseEngine)
  | openHandle (config : DbOpenConfig) (identity : ConnectionIdentity)
  | register (identity : ConnectionIdentity)
  | publish (reservation : OpeningReservation) (connection : LiveConnection)
  | fail (reservation : OpeningReservation) (error : RuntimeError)
  | close (identity : ConnectionIdentity)
  | get (descriptorId : String)
  | beginClose (descriptorId : String)
  | finishClose (connection : LiveConnection) (closed : Bool)
  | terminatedRun (identity : ConnectionIdentity)
  | otherActor (identity : ConnectionIdentity)
  | markOffline (identity : ConnectionIdentity)

/-- The answer of a step that is awaited: none where the future is dropped there. -/
abbrev Awaited (α : Type) : Type := Option α

def Reply : Command → Type
  | .openable _ => Awaited (Except ProfileError ProfileDescriptor)
  | .resolve _ => Awaited (Except ProfileError (ProfileDescriptor × Option String))
  | .beginOpen _ _ => Except LifecycleCloseErrorKind OpenDecision
  | .hasActor _ => Bool
  | .isTerminating _ => Bool
  | .release _ => Unit
  | .discard _ => Bool
  | .newConnection _ _ => LiveConnection
  | .openHandle _ _ => Awaited (Except RuntimeError Unit)
  | .register _ => Except OperationalErrorCode Unit
  | .publish _ _ => Bool
  | .fail _ _ => Unit
  | .close _ => Except OperationalErrorCode TeardownReport
  | .get _ => Option LiveConnection
  | .beginClose _ => Except LifecycleCloseErrorKind (Option LiveConnection)
  | .finishClose _ _ => Except LifecycleCloseErrorKind Unit
  | .terminatedRun _ => Bool
  | .otherActor _ => Bool
  | .markOffline _ => Except RuntimeError Unit

structure Chance where
  dropped : Bool
  repository : Option ProfileRepositoryErrorKind
  vault : Except VaultErrorKind String
  uuid : String
  opened : Except RuntimeError Unit
  closed : CloseOutcome
  terminates : Bool

variable (chance : Chance)

def openableDescriptor (durable : ProfileDocument) (descriptorId : String) :
    Except ProfileError ProfileDescriptor :=
  match chance.repository with
  | some kind => .error (.ofRepository kind)
  | none => do
    durable.ensureNoPending descriptorId
    let profile ← findProfile durable descriptorId
    pure profile.descriptor

def resolveSavedCredential (durable : ProfileDocument) (descriptorId : String) :
    Except ProfileError (ProfileDescriptor × Option String) :=
  match chance.repository with
  | some kind => .error (.ofRepository kind)
  | none => do
    durable.ensureNoPending descriptorId
    let profile ← findProfile durable descriptorId
    match profile.activeCredentialGeneration with
    | some _ =>
      match chance.vault with
      | .ok secret => pure (profile.descriptor, some secret)
      | .error kind => .error (.ofVault kind)
    | none =>
      if profile.target.isNetwork then .error (Profiles.credentialRequired "database profile requires a credential")
      else pure (profile.descriptor, none)

/-- `next_conn_id`. -/
def connectionId (n : Nat) : String := "db-" ++ toString n

def perform (state : Shared) : (command : Command) → Reply command × Shared
  | .openable descriptorId =>
    (if chance.dropped then none else some (openableDescriptor chance state.durable descriptorId), state)
  | .resolve descriptorId =>
    (if chance.dropped then none else some (resolveSavedCredential chance state.durable descriptorId), state)
  | .beginOpen descriptorId configGeneration => beginOpen descriptorId configGeneration state
  | .hasActor identity => (hasExactActor state identity, state)
  | .isTerminating identity => (exactActorIsTerminating state identity, state)
  | .release identity => ((), releaseConnection identity state)
  | .discard connection => discardExact connection state
  | .newConnection descriptorId engine =>
    (⟨descriptorId, connectionId state.nextConnection, Profiles.newId "connection" chance.uuid, engine⟩,
      { state with nextConnection := state.nextConnection + 1 })
  | .openHandle _ _ => (if chance.dropped then none else some chance.opened, state)
  | .register identity => registerActor identity state
  | .publish reservation connection => publishOpen reservation connection state
  | .fail reservation error => ((), failOpen reservation error state)
  | .close identity => closeExactInState chance.closed identity state
  | .get descriptorId =>
    (match state.entries.get descriptorId with
      | some (.live connection) => some connection
      | _ => none, state)
  | .beginClose descriptorId => beginClose descriptorId state
  | .finishClose connection closed => finishClose connection closed state
  | .terminatedRun identity => ((exactActor state identity).isSome && chance.terminates, state)
  | .otherActor identity => ((state.actors.get identity.connectionId).any fun actor => actor.identity ≠ identity, state)
  | .markOffline identity => markExactConnectionOffline identity state

/-! ## The operations -/

inductive Answer
  | live (connection : LiveConnection)
  /-- The caller waits for the completion of this ticket. -/
  | joined (ticket : Nat)
  | done
  deriving DecidableEq

abbrev M (α : Type) : Type := Prog Command Reply RuntimeError α

def tell (command : Command) : M (Reply command) := Prog.command command

def askOpenable : M (Awaited (Except ProfileError ProfileDescriptor)) := tell (.openable descriptorId)
def askResolve : M (Awaited (Except ProfileError (ProfileDescriptor × Option String))) :=
  tell (.resolve descriptorId)
def askOpen (configGeneration : Nat) : M (Except LifecycleCloseErrorKind OpenDecision) :=
  tell (.beginOpen descriptorId configGeneration)
def hasActor (identity : ConnectionIdentity) : M Bool := tell (.hasActor identity)
def isTerminating (identity : ConnectionIdentity) : M Bool := tell (.isTerminating identity)
def release (identity : ConnectionIdentity) : M Unit := tell (.release identity)
def discard (connection : LiveConnection) : M Bool := tell (.discard connection)
def newConnection (descriptorId : String) (engine : LiveDatabaseEngine) : M LiveConnection :=
  tell (.newConnection descriptorId engine)
def openHandle (config : DbOpenConfig) (identity : ConnectionIdentity) : M (Awaited (Except RuntimeError Unit)) :=
  tell (.openHandle config identity)
def register (identity : ConnectionIdentity) : M (Except OperationalErrorCode Unit) := tell (.register identity)
def publish (reservation : OpeningReservation) (connection : LiveConnection) : M Bool :=
  tell (.publish reservation connection)
def fail (reservation : OpeningReservation) (error : RuntimeError) : M Unit := tell (.fail reservation error)
def close (identity : ConnectionIdentity) : M (Except OperationalErrorCode TeardownReport) := tell (.close identity)
def getLive : M (Option LiveConnection) := tell (.get descriptorId)
def askClose : M (Except LifecycleCloseErrorKind (Option LiveConnection)) :=
  tell (.beginClose descriptorId)
def finishedClose (closed : Bool) : M (Except LifecycleCloseErrorKind Unit) :=
  tell (.finishClose connection closed)
def terminatedRun (identity : ConnectionIdentity) : M Bool := tell (.terminatedRun identity)
def otherActor (identity : ConnectionIdentity) : M Bool := tell (.otherActor identity)
def markOffline (identity : ConnectionIdentity) : M (Except RuntimeError Unit) := tell (.markOffline identity)

/-- The elected opener gives up: its guard fails the reservation. -/
def giveUp (error : RuntimeError) : M Answer := do
  fail reservation error
  Prog.throw error

def engineOf : ProfileTarget → LiveDatabaseEngine
  | .sqlite _ _ => .sqlite
  | .postgres _ => .postgres
  | .mssql _ => .mssql

/-- The handle is open: its actor is registered, and the connection published if the reservation still stands. -/
def publishConnection (connection : LiveConnection) : M Answer := do
  match ← register connection.identity with
  | .error code => giveUp reservation ⟨.operational code, "database connection identity already exists"⟩
  | .ok () =>
    if ← publish reservation connection then pure (.live connection)
    else do
      let _ ← close connection.identity
      Prog.throw invalidated

def openReserved (reservation : OpeningReservation) : M Answer := do
  match ← askResolve descriptorId with
  | none => giveUp reservation openerEnded
  | some (.error error) => giveUp reservation (.ofProfile error)
  | some (.ok (profile, secret)) =>
    if profile.configGeneration ≠ reservation.configGeneration then giveUp reservation invalidated
    else
      match openConfig profile.target secret with
      | .error error => giveUp reservation (.ofProfile error)
      | .ok config => do
        let connection ← newConnection descriptorId (engineOf profile.target)
        match ← openHandle config connection.identity with
        | none => giveUp reservation openerEnded
        | some (.error error) => giveUp reservation error
        | some (.ok ()) => publishConnection reservation connection

def follow (decision : Except LifecycleCloseErrorKind OpenDecision) : M Answer :=
  match decision with
  | .error _ => Prog.throw registryUnavailable
  | .ok (.live existing) => pure (.live existing)
  | .ok (.wait ticket) => pure (.joined ticket)
  | .ok (.opens reservation) => openReserved descriptorId reservation
  | .ok (.unavailable error) => Prog.throw error

def openSaved : M Answer := do
  match ← askOpenable descriptorId with
  | none => Prog.throw openerEnded
  | some (.error error) => Prog.throw (.ofProfile error)
  | some (.ok checked) => do
    match ← askOpen descriptorId checked.configGeneration with
    | .ok (.live existing) =>
      if !(← hasActor existing.identity) then do
        release existing.identity
        let _ ← discard existing
        follow descriptorId (← askOpen descriptorId checked.configGeneration)
      else if ← isTerminating existing.identity then Prog.throw terminating
      else pure (.live existing)
    | decision => follow descriptorId decision

def settleClosed (connection : LiveConnection) : M Answer := do
  release identity
  match ← finishedClose connection true with
  | .ok () => pure .done
  | .error _ => Prog.throw registryUnavailable

/-- `db_profile_disconnect`. -/
def disconnect : M Answer := do
  match ← getLive identity.descriptorId with
  | none => Prog.throw noLongerActive
  | some current =>
    if current.connectionId ≠ identity.connectionId ∨ current.connectionGeneration ≠ identity.connectionGeneration then
      Prog.throw noLongerActive
    else do
      match ← askClose identity.descriptorId with
      | .error _ => Prog.throw closing
      | .ok _ =>
        match ← close identity with
        | .ok _ => settleClosed identity current
        | .error code =>
          if code = .staleConnection ∨ code = .serverDisconnected then settleClosed identity current
          else do
            let _ ← finishedClose current false
            Prog.throw ⟨.operational code, "database connection could not be closed"⟩

def TeardownReport.isClean (report : TeardownReport) : Bool :=
  !report.unreleasedExecution && !report.metadataInFlight && report.unreleasedResultSessions = 0

def accepted : Except OperationalErrorCode TeardownReport → Bool
  | .ok report => report.isClean
  | .error code => code = .staleConnection || code = .serverDisconnected

/-- `RegisteredProfileCloser::cancel_and_close`. -/
def cancelAndClose : M Answer := do
  match ← askClose descriptorId with
  | .error _ => Prog.throw closing
  | .ok none => pure .done
  | .ok (some connection) =>
    if accepted (← close connection.identity) then settleClosed connection.identity connection
    else do
      let _ ← finishedClose connection false
      Prog.throw closing

/-- `finalize_terminated_connection`. -/
def finalizeTerminatedConnection : M Answer := do
  let mark : M Answer := do
    match ← markOffline identity with
    | .error error => Prog.throw error
    | .ok () => do
      release identity
      pure .done
  match ← close identity with
  | .ok _ => mark
  | .error code =>
    if code = .staleConnection ∨ code = .serverDisconnected then
      if ← otherActor identity then Prog.throw noLongerActive else mark
    else Prog.throw ⟨.operational code, "database connection could not be closed"⟩

/-- A run or a cancel on the exact actor that reports its connection terminated. -/
def terminatingRun : M Answer := do
  if ← terminatedRun identity then finalizeTerminatedConnection identity
  else pure .done

inductive Call
  | openSaved (descriptorId : String)
  | disconnect (identity : ConnectionIdentity)
  | cancelAndClose (descriptorId : String)
  | terminatingRun (identity : ConnectionIdentity)
  deriving DecidableEq

def Call.start : Call → M Answer
  | openSaved descriptorId => Runtime.openSaved descriptorId
  | disconnect identity => Runtime.disconnect identity
  | cancelAndClose descriptorId => Runtime.cancelAndClose descriptorId
  | terminatingRun identity => Runtime.terminatingRun identity

/-! ## Runs -/

/-- What else happens: the profile operations rewrite the document, queries leave and drop result sessions, an actor's
remote handle closes, and other paths ask actors to close. -/
inductive Wind
  | document (durable : ProfileDocument)
  | sessions (sessions : List (ConnectionIdentity × String))
  | remoteCloses (identity : ConnectionIdentity)
  | asks (outcome : CloseOutcome) (identity : ConnectionIdentity)

def drift : Wind → Shared → Shared
  | .document durable, state => { state with durable := durable }
  | .sessions sessions, state => { state with sessions := sessions }
  | .remoteCloses identity, state =>
    match exactActor state identity with
    | none => state
    | some actor =>
      { state with actors := state.actors.insert identity.connectionId { actor with remoteClosed := true } }
  | .asks outcome identity, state => (closeExactInState outcome identity state).2

def runtime : Pool Command Reply RuntimeError Answer Shared Call Chance Wind :=
  ⟨Call.start, fun chance _ => perform chance, drift⟩

abbrev Moment : Type := Threads Command Reply RuntimeError Answer Shared Call
abbrev Event : Type := Transition Moment (Move Command Reply Call)

def fresh (durable : ProfileDocument) : Shared := ⟨durable, .empty, .empty, 1, .empty, .empty, [], 1, []⟩

def Runs (l : List Event) (t : Moment) : Prop := ∃ durable, runtime.Runs (fresh durable) l t

end Runtime
end Yuzora
