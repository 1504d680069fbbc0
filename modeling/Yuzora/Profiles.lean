import Yuzora.Table
import Yuzora.GitText
/-!
# Profiles — saved database profiles and their pending operations

The document that `DatabaseProfileRepository` keeps, with what `validate` accepts, and the challenges that authorize a
PostgreSQL target without full verification.  An absent file is read as the default document.
-/
namespace Yuzora
namespace Profiles

def PROFILE_REPOSITORY_VERSION : Nat := 1

def TRANSPORT_CHALLENGE_TTL : Nat := 60000000000

/-! ## Errors -/

inductive ProfileRepositoryErrorKind
  | readFailed | permissionDenied | quotaExceeded | tempWriteFailed | syncFailed | renameFailed | parentSyncFailed
  | corrupt | unsupportedVersion
  deriving DecidableEq

inductive VaultErrorKind
  | missing | denied | unavailable | corrupt | writeFailed | deleteFailed
  deriving DecidableEq

inductive LifecycleCloseEvidence
  | noLiveHandle | cancelledAndClosed | handleClosedAndSettled
  deriving DecidableEq

inductive LifecycleCloseErrorKind
  | cancelFailed | closeFailed
  deriving DecidableEq

inductive ProfileErrorCode
  | repositoryUnavailable | vaultMissing | vaultDenied | vaultUnavailable | vaultCorrupt | vaultWriteFailed
  | vaultDeleteFailed | profileNotFound | pendingOperationConflict | recoveryNotFound | recoveryActionInvalid
  | credentialRequired | lifecycleCancelFailed | lifecycleCloseFailed | invalidRequest | postgresTransportRejected
  | postgresTransportChallengeExpired | postgresTransportChallengeMismatch | postgresTransportChallengeReplay
  deriving DecidableEq

structure ProfileError where
  code : ProfileErrorCode
  message : String
  deriving DecidableEq

def ProfileError.ofRepository (_ : ProfileRepositoryErrorKind) : ProfileError :=
  ⟨.repositoryUnavailable, "database profile storage is unavailable"⟩

def ProfileError.ofVault (kind : VaultErrorKind) : ProfileError :=
  ⟨match kind with
    | .missing => .vaultMissing
    | .denied => .vaultDenied
    | .unavailable => .vaultUnavailable
    | .corrupt => .vaultCorrupt
    | .writeFailed => .vaultWriteFailed
    | .deleteFailed => .vaultDeleteFailed,
    "database credential vault operation failed"⟩

def ProfileError.ofClose : LifecycleCloseErrorKind → ProfileError
  | .cancelFailed => ⟨.lifecycleCancelFailed, "database activity could not be cancelled"⟩
  | .closeFailed => ⟨.lifecycleCloseFailed, "database connection could not be closed"⟩

/-! ## Targets -/

inductive PostgresTransportMode
  | verifyFull | encryptedTrustServerCert | insecurePlaintext
  deriving DecidableEq

structure PostgresInsecureException where
  host : String
  port : Nat
  user : String
  database : String
  deriving DecidableEq

/-- The exception named exactly this server (`matches`). -/
def PostgresInsecureException.covers (exception : PostgresInsecureException) (host : String) (port : Nat)
    (user database : String) : Bool :=
  exception.port ≠ 0 && exception.port = port && exception.host = host && exception.user = user &&
    exception.database = database

structure SqliteWorkspace where
  hostId : String
  canonicalPath : String
  deriving DecidableEq

structure PostgresTarget where
  viaHost : Option String
  host : String
  port : Nat
  database : String
  user : String
  transportMode : PostgresTransportMode
  insecureException : Option PostgresInsecureException
  trustServerCertAcknowledged : Bool
  deriving DecidableEq

structure MssqlTarget where
  viaHost : Option String
  host : String
  port : Nat
  database : String
  user : String
  trustCert : Bool
  deriving DecidableEq

inductive ProfileTarget
  | sqlite (path : String) (workspace : Option SqliteWorkspace)
  | postgres (target : PostgresTarget)
  | mssql (target : MssqlTarget)
  deriving DecidableEq

def ProfileTarget.isNetwork : ProfileTarget → Bool
  | sqlite _ _ => false
  | _ => true

def PostgresTarget.authorized (target : PostgresTarget) : Bool :=
  match target.transportMode with
  | .verifyFull => true
  | .encryptedTrustServerCert => target.trustServerCertAcknowledged
  | .insecurePlaintext =>
    match target.insecureException with
    | some exception => exception.covers target.host target.port target.user target.database
    | none => false

def ProfileTarget.postgresTransportAuthorized : ProfileTarget → Bool
  | postgres target => target.authorized
  | _ => true

def stripPostgresAttestation : ProfileTarget → ProfileTarget
  | .postgres target => .postgres { target with insecureException := none, trustServerCertAcknowledged := false }
  | target => target

/-- What a challenge is issued for, and what a target says of it. -/
structure Transport where
  viaHost : Option String
  host : String
  port : Nat
  user : String
  database : String
  mode : PostgresTransportMode
  deriving DecidableEq

def PostgresTarget.transport (target : PostgresTarget) : Transport :=
  ⟨target.viaHost, target.host, target.port, target.user, target.database, target.transportMode⟩

def samePostgresIdentity : ProfileTarget → ProfileTarget → Bool
  | .postgres left, .postgres right => left.transport = right.transport
  | _, _ => false

def applyBackendPostgresAuthorization : ProfileTarget → ProfileTarget
  | .postgres target =>
    match target.transportMode with
    | .verifyFull => .postgres { target with insecureException := none, trustServerCertAcknowledged := false }
    | .insecurePlaintext =>
      .postgres { target with
        insecureException := some ⟨target.host, target.port, target.user, target.database⟩
        trustServerCertAcknowledged := false }
    | .encryptedTrustServerCert =>
      .postgres { target with insecureException := none, trustServerCertAcknowledged := true }
  | target => target

def transportRejected : ProfileError :=
  ⟨.postgresTransportRejected, "PostgreSQL transport requires an explicit acknowledged exception"⟩

def authorizePostgresTarget (target : ProfileTarget) : Except ProfileError Unit :=
  if target.postgresTransportAuthorized then .ok () else .error transportRejected

/-! ## Challenges -/

structure TransportChallenge where
  id : String
  transport : Transport
  expires : Nat
  deriving DecidableEq

structure PostgresTransportChallengeDto where
  challengeId : String
  transport : Transport
  expiresAt : Nat
  deriving DecidableEq

abbrev Challenges : Type := Table String TransportChallenge

/-- `PostgresTransportChallengeRegistry::issue`: what is expired is swept first. -/
def issueChallenge (nowMs now : Nat) (id : String) (request : Transport) (items : Challenges) :
    Except ProfileError PostgresTransportChallengeDto × Challenges :=
  if request.mode = .verifyFull then
    (.error ⟨.invalidRequest, "verify-full transport does not require a challenge"⟩, items)
  else if (Git.trim request.host).isEmpty || (Git.trim request.user).isEmpty then
    (.error ⟨.invalidRequest, "PostgreSQL transport challenge requires host and user"⟩, items)
  else
    (.ok ⟨id, request, min (nowMs + 60000) 18446744073709551615⟩,
      (items.retain fun _ challenge => now < challenge.expires).insert id
        ⟨id, request, now + TRANSPORT_CHALLENGE_TTL⟩)

def challengeMatchesTarget (challenge : TransportChallenge) : ProfileTarget → Bool
  | .postgres target => challenge.transport = target.transport
  | _ => false

/-- `PostgresTransportChallengeRegistry::consume`: the challenge is gone whatever comes of it. -/
def consumeChallenge (now : Nat) (challengeId : String) (target : ProfileTarget) (items : Challenges) :
    Except ProfileError Unit × Challenges :=
  match items.get challengeId with
  | none => (.error ⟨.postgresTransportChallengeReplay, "PostgreSQL transport challenge was already used"⟩, items)
  | some challenge =>
    (if challenge.expires ≤ now then
        .error ⟨.postgresTransportChallengeExpired, "PostgreSQL transport challenge expired"⟩
      else if !challengeMatchesTarget challenge target then
        .error ⟨.postgresTransportChallengeMismatch, "PostgreSQL transport challenge does not match the target"⟩
      else .ok (),
      items.erase challengeId)

/-! ## The document -/

inductive CredentialState
  | notRequired | stored | required | unavailable
  deriving DecidableEq

structure ProfileDescriptor where
  descriptorId : String
  configGeneration : Nat
  name : String
  target : ProfileTarget
  credentialState : CredentialState
  deriving DecidableEq

structure StoredProfile where
  descriptorId : String
  configGeneration : Nat
  name : String
  target : ProfileTarget
  credentialState : CredentialState
  activeCredentialGeneration : Option String
  deriving DecidableEq

def StoredProfile.descriptor (profile : StoredProfile) : ProfileDescriptor :=
  ⟨profile.descriptorId, profile.configGeneration, profile.name, profile.target, profile.credentialState⟩

inductive PendingOperationKind
  | pendingCreate | pendingReplace | cleanupOld | pendingForget | pendingRemoveCredential
  deriving DecidableEq

inductive PendingOperation
  | pendingCreate (operationId : String) (profile : StoredProfile) (credentialGeneration : String)
  | pendingReplace (operationId descriptorId : String) (replacement : StoredProfile) (oldGeneration : Option String)
    (newGeneration : String)
  | cleanupOld (operationId descriptorId oldGeneration activeGeneration : String)
  | pendingForget (operationId descriptorId : String) (generations : List String)
  | pendingRemoveCredential (operationId descriptorId : String) (generations : List String)
  deriving DecidableEq

namespace PendingOperation

def operationId : PendingOperation → String
  | pendingCreate operationId _ _ => operationId
  | pendingReplace operationId _ _ _ _ => operationId
  | cleanupOld operationId _ _ _ => operationId
  | pendingForget operationId _ _ => operationId
  | pendingRemoveCredential operationId _ _ => operationId

def descriptorId : PendingOperation → String
  | pendingCreate _ profile _ => profile.descriptorId
  | pendingReplace _ descriptorId _ _ _ => descriptorId
  | cleanupOld _ descriptorId _ _ => descriptorId
  | pendingForget _ descriptorId _ => descriptorId
  | pendingRemoveCredential _ descriptorId _ => descriptorId

def kind : PendingOperation → PendingOperationKind
  | pendingCreate _ _ _ => .pendingCreate
  | pendingReplace _ _ _ _ _ => .pendingReplace
  | cleanupOld _ _ _ _ => .cleanupOld
  | pendingForget _ _ _ => .pendingForget
  | pendingRemoveCredential _ _ _ => .pendingRemoveCredential

end PendingOperation

inductive RecoveryAction
  | resume | abort | retryCleanup
  deriving DecidableEq

structure ProfileRecoveryRow where
  operationId : String
  descriptorId : String
  kind : PendingOperationKind
  allowedActions : List RecoveryAction
  deriving DecidableEq

def allowedActions : PendingOperation → List RecoveryAction
  | .pendingCreate _ _ _ | .pendingReplace _ _ _ _ _ => [.resume, .abort]
  | .cleanupOld _ _ _ _ | .pendingForget _ _ _ | .pendingRemoveCredential _ _ _ => [.retryCleanup]

def recoveryRow (operation : PendingOperation) : ProfileRecoveryRow :=
  ⟨operation.operationId, operation.descriptorId, operation.kind, allowedActions operation⟩

structure ProfileLoadResult where
  profiles : List ProfileDescriptor
  recovery : List ProfileRecoveryRow
  deriving DecidableEq

structure ProfileDocument where
  version : Nat
  profiles : List StoredProfile
  pendingOperations : List PendingOperation
  legacyConsumedDescriptorIds : List String
  deriving DecidableEq

namespace ProfileDocument

def default : ProfileDocument := ⟨PROFILE_REPOSITORY_VERSION, [], [], []⟩

variable (document : ProfileDocument)

def consumeLegacyDescriptor (descriptorId : String) : ProfileDocument :=
  if descriptorId ∈ document.legacyConsumedDescriptorIds then document
  else { document with legacyConsumedDescriptorIds := document.legacyConsumedDescriptorIds ++ [descriptorId] }

def profileCredentialIsConsistent (profile : StoredProfile) : Bool :=
  match profile.target, profile.credentialState with
  | .sqlite _ _, state => state = .notRequired && profile.activeCredentialGeneration.isNone
  | _, .stored | _, .unavailable => profile.activeCredentialGeneration.isSome
  | _, .required => profile.activeCredentialGeneration.isNone
  | _, .notRequired => false

def generationsMatchActive (profile : StoredProfile) (generations : List String) : Bool :=
  generations.Nodup && generations = profile.activeCredentialGeneration.toList

def profile? (descriptorId : String) : Option StoredProfile :=
  document.profiles.find? fun profile => profile.descriptorId = descriptorId

/-- What a pending operation says of the profile of its descriptor. -/
def referenceOk (profile : Option StoredProfile) : PendingOperation → Bool
  | .pendingCreate _ created _ =>
    profile.isNone && created.target.isNetwork && created.credentialState = .stored &&
      created.activeCredentialGeneration.isNone
  | .pendingReplace _ descriptorId replacement oldGeneration newGeneration =>
    match profile with
    | none => false
    | some current =>
      replacement.descriptorId = descriptorId && current.activeCredentialGeneration = oldGeneration &&
        replacement.activeCredentialGeneration = some newGeneration && replacement.credentialState = .stored &&
        profileCredentialIsConsistent replacement && oldGeneration ≠ some newGeneration
  | .cleanupOld _ _ oldGeneration activeGeneration =>
    match profile with
    | none => false
    | some current =>
      current.activeCredentialGeneration = some activeGeneration && oldGeneration ≠ activeGeneration
  | .pendingForget _ _ generations =>
    match profile with
    | none => false
    | some current => generationsMatchActive current generations
  | .pendingRemoveCredential _ _ generations =>
    match profile with
    | none => false
    | some current => current.target.isNetwork && generationsMatchActive current generations

/-- The checks of `validate` after the version, which it makes entry by entry and answers alike. -/
structure Valid (document : ProfileDocument) : Prop where
  profiles : (document.profiles.map (·.descriptorId)).Nodup
  credentials : ∀ profile ∈ document.profiles, profileCredentialIsConsistent profile = true
  operations : (document.pendingOperations.map (·.operationId)).Nodup
  descriptors : (document.pendingOperations.map (·.descriptorId)).Nodup
  references : ∀ operation ∈ document.pendingOperations,
    referenceOk (document.profile? operation.descriptorId) operation = true

instance (document : ProfileDocument) : Decidable document.Valid :=
  decidable_of_iff ((document.profiles.map (·.descriptorId)).Nodup ∧
      (∀ profile ∈ document.profiles, profileCredentialIsConsistent profile = true) ∧
      (document.pendingOperations.map (·.operationId)).Nodup ∧
      (document.pendingOperations.map (·.descriptorId)).Nodup ∧
      ∀ operation ∈ document.pendingOperations,
        referenceOk (document.profile? operation.descriptorId) operation = true)
    ⟨fun ⟨h1, h2, h3, h4, h5⟩ => ⟨h1, h2, h3, h4, h5⟩, fun ⟨h1, h2, h3, h4, h5⟩ => ⟨h1, h2, h3, h4, h5⟩⟩

def validate : Except ProfileRepositoryErrorKind Unit :=
  if document.version ≠ PROFILE_REPOSITORY_VERSION then .error .unsupportedVersion
  else if document.Valid then .ok ()
  else .error .corrupt

def view : ProfileLoadResult :=
  ⟨document.profiles.map (·.descriptor), document.pendingOperations.map recoveryRow⟩

def ensureNoPending (descriptorId : String) : Except ProfileError Unit :=
  if document.pendingOperations.any fun operation => operation.descriptorId = descriptorId then
    .error ⟨.pendingOperationConflict, "finish the pending profile recovery first"⟩
  else .ok ()

/-- `document.profiles[index] = profile`, at the first profile of this descriptor. -/
def setProfile (descriptorId : String) (profile : StoredProfile) : ProfileDocument :=
  { document with
    profiles := document.profiles.modify (document.profiles.findIdx fun p => p.descriptorId = descriptorId)
      fun _ => profile }

def pushProfile (profile : StoredProfile) : ProfileDocument :=
  { document with profiles := document.profiles ++ [profile] }

def pushPending (operation : PendingOperation) : ProfileDocument :=
  { document with pendingOperations := document.pendingOperations ++ [operation] }

def dropOperation (operationId : String) : ProfileDocument :=
  { document with
    pendingOperations := document.pendingOperations.filter fun operation => operation.operationId ≠ operationId }

def dropPending (descriptorId : String) : ProfileDocument :=
  { document with
    pendingOperations := document.pendingOperations.filter fun operation => operation.descriptorId ≠ descriptorId }

def dropProfile (descriptorId : String) : ProfileDocument :=
  { document with profiles := document.profiles.filter fun profile => profile.descriptorId ≠ descriptorId }

end ProfileDocument

def profileNotFound : ProfileError := ⟨.profileNotFound, "database profile was not found"⟩
def recoveryNotFound : ProfileError := ⟨.recoveryNotFound, "profile recovery was not found"⟩

def findProfile (document : ProfileDocument) (descriptorId : String) : Except ProfileError StoredProfile :=
  match document.profile? descriptorId with
  | some profile => .ok profile
  | none => .error profileNotFound

end Profiles
end Yuzora
