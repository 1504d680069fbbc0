import Yuzora.Programs
import Yuzora.Profiles
/-!
# ProfileOps — the operations on saved profiles

`DatabaseProfiles`: each operation is a program whose commands are one read or one replacement of the document, one
access to the vault, one lifecycle close, one fresh id, or one step of the challenge registry.  A command that fails may
have taken effect or not.
-/
namespace Yuzora
namespace Profiles

/-! ## Commands -/

inductive Command
  | load
  | replace (document : ProfileDocument)
  | store (descriptorId generation secret : String)
  | resolve (descriptorId generation : String)
  | delete (descriptorId generation : String)
  | close (descriptorId : String)
  | newId (kind : String)
  | issueChallenge (request : Transport)
  | consumeChallenge (challengeId : String) (target : ProfileTarget)

def Reply : Command → Type
  | .load => Except ProfileRepositoryErrorKind ProfileDocument
  | .replace _ => Except ProfileRepositoryErrorKind Unit
  | .store _ _ _ => Except VaultErrorKind Unit
  | .resolve _ _ => Except VaultErrorKind String
  | .delete _ _ => Except VaultErrorKind Unit
  | .close _ => Except LifecycleCloseErrorKind LifecycleCloseEvidence
  | .newId _ => String
  | .issueChallenge _ => Except ProfileError PostgresTransportChallengeDto
  | .consumeChallenge _ _ => Except ProfileError Unit

/-- The durable document and the vault, and the registry in the process's memory.  `now` is the monotonic clock, in
nanoseconds; `issued` remembers every id that was ever made. -/
structure Shared where
  now : Nat
  durable : ProfileDocument
  vault : Table (String × String) String
  challenges : Challenges
  issued : List String

/-- What a command meets: it works, or it fails with the given error, without effect or with it. -/
inductive Fault (ε : Type)
  | none
  | before (error : ε)
  | after (error : ε)

structure Chance where
  repository : Fault ProfileRepositoryErrorKind
  vault : Fault VaultErrorKind
  close : Except LifecycleCloseErrorKind LifecycleCloseEvidence
  /-- The random part of an id. -/
  uuid : String
  nowMs : Nat

/-- The id that `new_id` makes. -/
def newId (kind uuid : String) : String := kind ++ "-" ++ uuid

def vaultWrite (fault : Fault VaultErrorKind) (shared : Shared) (vault : Table (String × String) String) :
    Except VaultErrorKind Unit × Shared :=
  match fault with
  | .none => (.ok (), { shared with vault := vault })
  | .before error => (.error error, shared)
  | .after error => (.error error, { shared with vault := vault })

/-- What a command does and answers.  A document that does not validate is not read and not written. -/
def perform (chance : Chance) (shared : Shared) : (command : Command) → Reply command × Shared
  | .load =>
    match chance.repository with
    | .none => (shared.durable.validate.map fun _ => shared.durable, shared)
    | .before error | .after error => (.error error, shared)
  | .replace document =>
    match document.validate with
    | .error error => (.error error, shared)
    | .ok () =>
      match chance.repository with
      | .none => (.ok (), { shared with durable := document })
      | .before error => (.error error, shared)
      | .after error => (.error error, { shared with durable := document })
  | .store descriptorId generation secret =>
    vaultWrite chance.vault shared (shared.vault.insert (descriptorId, generation) secret)
  | .resolve descriptorId generation =>
    match chance.vault with
    | .none =>
      match shared.vault.get (descriptorId, generation) with
      | some secret => (.ok secret, shared)
      | none => (.error .missing, shared)
    | .before error | .after error => (.error error, shared)
  | .delete descriptorId generation => vaultWrite chance.vault shared (shared.vault.erase (descriptorId, generation))
  | .close _ => (chance.close, shared)
  | .newId kind => (newId kind chance.uuid, { shared with issued := newId kind chance.uuid :: shared.issued })
  | .issueChallenge request =>
    let id := newId "pg-chal" chance.uuid
    let issued := issueChallenge chance.nowMs shared.now id request shared.challenges
    (issued.1, { shared with challenges := issued.2, issued := id :: shared.issued })
  | .consumeChallenge challengeId target =>
    let consumed := consumeChallenge shared.now challengeId target shared.challenges
    (consumed.1, { shared with challenges := consumed.2 })

/-! ## The operations -/

abbrev M (α : Type) : Type := Prog Command Reply ProfileError α

def tell (command : Command) : M (Reply command) := Prog.command command

def ask {ε α : Type} (command : Command) (answer : Reply command → Except ε α) (mapped : ε → ProfileError) : M α := do
  Prog.ofExcept ((answer (← tell command)).mapError mapped)

def load : M ProfileDocument := ask .load id .ofRepository
def replace (document : ProfileDocument) : M Unit := ask (.replace document) id .ofRepository
def store (descriptorId generation secret : String) : M Unit := ask (.store descriptorId generation secret) id .ofVault
def resolve (descriptorId generation : String) : M (Except VaultErrorKind String) :=
  tell (.resolve descriptorId generation)
def delete (descriptorId generation : String) : M Unit := ask (.delete descriptorId generation) id .ofVault
def cancelAndClose (descriptorId : String) : M LifecycleCloseEvidence := ask (.close descriptorId) id .ofClose
def freshId (kind : String) : M String := tell (.newId kind)
def issueTransportChallenge (request : Transport) : M PostgresTransportChallengeDto := ask (.issueChallenge request) id id
def consume (challengeId : String) (target : ProfileTarget) : M Unit := ask (.consumeChallenge challengeId target) id id

/-- An attestation in the request counts for nothing: the target is stripped, and authorized by what is stored for the
same server or by a challenge. -/
def authorizeIncomingPostgresTarget (target : ProfileTarget) (challengeId : Option String)
    (existing : Option ProfileTarget) : M ProfileTarget :=
  let stripped := stripPostgresAttestation target
  if stripped.postgresTransportAuthorized then pure stripped
  else
    match existing.filter fun existing => samePostgresIdentity existing stripped && existing.postgresTransportAuthorized with
    | some existing => pure existing
    | none =>
      match challengeId.filter fun id => !id.isEmpty with
      | none => Prog.throw transportRejected
      | some challengeId => do
        consume challengeId stripped
        let authorized := applyBackendPostgresAuthorization stripped
        Prog.ofExcept (authorizePostgresTarget authorized)
        pure authorized

def importProfile (document : ProfileDocument) (profile : ProfileDescriptor) : ProfileDocument :=
  if profile.descriptorId ∈ document.legacyConsumedDescriptorIds then document
  else
    let consumed := document.consumeLegacyDescriptor profile.descriptorId
    if (consumed.profile? profile.descriptorId).isSome then consumed
    else
      consumed.pushProfile
        ⟨profile.descriptorId, profile.configGeneration, profile.name, stripPostgresAttestation profile.target,
          if profile.target.isNetwork then .required else .notRequired, none⟩

def importLegacy (profiles : List ProfileDescriptor) : M ProfileLoadResult := do
  let loaded ← load
  let document := profiles.foldl importProfile loaded
  replace document
  pure document.view

structure ProfileCreateRequest where
  name : String
  target : ProfileTarget
  credential : Option String
  transportChallengeId : Option String

def create (request : ProfileCreateRequest) : M ProfileDescriptor := do
  let target ← authorizeIncomingPostgresTarget request.target request.transportChallengeId none
  let document ← load
  let descriptorId ← freshId "dbc"
  let stored : StoredProfile := ⟨descriptorId, 1, request.name, target, .notRequired, none⟩
  match target.isNetwork, request.credential with
  | false, some _ => Prog.throw ⟨.invalidRequest, "SQLite profiles do not accept credentials"⟩
  | false, none =>
    replace (document.pushProfile stored)
    pure stored.descriptor
  | true, none =>
    let stored := { stored with credentialState := .required }
    replace (document.pushProfile stored)
    pure stored.descriptor
  | true, some password =>
    let generation ← freshId "credential"
    let operationId ← freshId "profile-op"
    let stored := { stored with credentialState := .stored }
    -- the write-ahead record is durable before the first vault mutation
    let document := document.pushPending (.pendingCreate operationId stored generation)
    replace document
    store descriptorId generation password
    let stored := { stored with activeCredentialGeneration := some generation }
    replace ((document.pushProfile stored).dropPending descriptorId)
    pure stored.descriptor

structure ProfileUpdateRequest where
  descriptorId : String
  name : String
  target : ProfileTarget
  replacementCredential : Option String
  transportChallengeId : Option String

/-- `checked_add` on a 64-bit generation. -/
def nextConfigGeneration (generation : Nat) : Except ProfileError Nat :=
  if generation + 1 < 18446744073709551616 then .ok (generation + 1)
  else .error ⟨.invalidRequest, "database profile generation is exhausted"⟩

def updateTarget (document : ProfileDocument) (current : StoredProfile) (request : ProfileUpdateRequest)
    (target : ProfileTarget) : M ProfileDescriptor := do
  if current.target.isNetwork ≠ target.isNetwork then
    Prog.throw ⟨.invalidRequest, "changing credential mode requires a new profile"⟩
  else do
    if current.target ≠ target then do
      let _ ← cancelAndClose request.descriptorId
    let configGeneration ←
      if target ≠ current.target then Prog.ofExcept (nextConfigGeneration current.configGeneration)
      else pure current.configGeneration
    let updated := { current with name := request.name, target := target, configGeneration := configGeneration }
    replace (document.setProfile request.descriptorId updated)
    pure updated.descriptor

def updateCredential (document : ProfileDocument) (current : StoredProfile) (request : ProfileUpdateRequest)
    (target : ProfileTarget) (password : String) : M ProfileDescriptor := do
  if !target.isNetwork then Prog.throw ⟨.invalidRequest, "SQLite profiles do not accept credentials"⟩
  else do
    let _ ← cancelAndClose request.descriptorId
    let newGeneration ← freshId "credential"
    let configGeneration ← Prog.ofExcept (nextConfigGeneration current.configGeneration)
    let replacement : StoredProfile :=
      ⟨current.descriptorId, configGeneration, request.name, target, .stored, some newGeneration⟩
    let operationId ← freshId "profile-op"
    let pending := document.pushPending
      (.pendingReplace operationId request.descriptorId replacement current.activeCredentialGeneration newGeneration)
    replace pending
    store request.descriptorId newGeneration password
    let switched := (pending.setProfile request.descriptorId replacement).dropOperation operationId
    match current.activeCredentialGeneration with
    | none =>
      replace switched
      pure replacement.descriptor
    | some oldGeneration =>
      -- the switch of the descriptor and the transition to the cleanup are one replacement
      let cleanup := switched.pushPending (.cleanupOld operationId request.descriptorId oldGeneration newGeneration)
      replace cleanup
      delete request.descriptorId oldGeneration
      replace (cleanup.dropOperation operationId)
      pure replacement.descriptor

def update (request : ProfileUpdateRequest) : M ProfileDescriptor := do
  let document ← load
  Prog.ofExcept (document.ensureNoPending request.descriptorId)
  let current ← Prog.ofExcept (findProfile document request.descriptorId)
  let target ← authorizeIncomingPostgresTarget request.target request.transportChallengeId (some current.target)
  match request.replacementCredential with
  | none => updateTarget document current request target
  | some password => updateCredential document current request target password

def deleteAll (descriptorId : String) : List String → M Unit
  | [] => pure ()
  | generation :: rest => do
    delete descriptorId generation
    deleteAll descriptorId rest

def forgetGenerations (document : ProfileDocument) (descriptorId : String) : Option (List String) :=
  document.pendingOperations.findSome? fun
    | .pendingForget _ pendingId generations => if pendingId = descriptorId then some generations else none
    | _ => none

def finishForget (document : ProfileDocument) (descriptorId : String) : M ProfileDocument :=
  match forgetGenerations document descriptorId with
  | none => Prog.throw recoveryNotFound
  | some generations => do
    deleteAll descriptorId generations
    let document := ((document.dropProfile descriptorId).dropPending descriptorId).consumeLegacyDescriptor descriptorId
    replace document
    pure document

def removeGenerations (document : ProfileDocument) (descriptorId : String) : Option (List String) :=
  document.pendingOperations.findSome? fun
    | .pendingRemoveCredential _ pendingId generations => if pendingId = descriptorId then some generations else none
    | _ => none

def finishRemoveCredential (document : ProfileDocument) (descriptorId : String) : M ProfileDocument :=
  match removeGenerations document descriptorId with
  | none => Prog.throw recoveryNotFound
  | some generations => do
    deleteAll descriptorId generations
    let profile ← Prog.ofExcept (findProfile document descriptorId)
    let document := (document.setProfile descriptorId
      { profile with activeCredentialGeneration := none, credentialState := .required }).dropPending descriptorId
    replace document
    pure document

def closeThen (document : ProfileDocument) (operation : PendingOperation) (finish : ProfileDocument → M ProfileDocument) :
    M ProfileLoadResult := do
  let closed ← (cancelAndClose operation.descriptorId).attempt
  let pending := document.pushPending operation
  replace pending
  match closed with
  | .error error => Prog.throw error
  | .ok _ =>
    let finished ← finish pending
    pure finished.view

def forget (descriptorId : String) : M ProfileLoadResult := do
  let document ← load
  Prog.ofExcept (document.ensureNoPending descriptorId)
  let profile ← Prog.ofExcept (findProfile document descriptorId)
  let operationId ← freshId "profile-op"
  closeThen document (.pendingForget operationId descriptorId profile.activeCredentialGeneration.toList)
    fun pending => finishForget pending descriptorId

def removeCredential (descriptorId : String) : M ProfileLoadResult := do
  let document ← load
  Prog.ofExcept (document.ensureNoPending descriptorId)
  let profile ← Prog.ofExcept (findProfile document descriptorId)
  if !profile.target.isNetwork then Prog.throw ⟨.invalidRequest, "SQLite profiles do not have credentials"⟩
  else do
    let operationId ← freshId "profile-op"
    closeThen document (.pendingRemoveCredential operationId descriptorId profile.activeCredentialGeneration.toList)
      fun pending => finishRemoveCredential pending descriptorId

def credentialRequired (message : String) : ProfileError := ⟨.credentialRequired, message⟩

def ensureGeneration (descriptorId generation : String) (credential : Option String) : M Unit := do
  match ← resolve descriptorId generation with
  | .ok _ => pure ()
  | .error kind =>
    if kind = .missing ∨ kind = .corrupt ∨ kind = .denied then
      match credential with
      | none => Prog.throw (credentialRequired "credential input is required to resume this recovery")
      | some password => do
        if kind = .corrupt then delete descriptorId generation
        store descriptorId generation password
    else Prog.throw (.ofVault kind)

structure ProfileRecoveryRequest where
  operationId : String
  action : RecoveryAction
  credential : Option String

def recoverOperation (document : ProfileDocument) (credential : Option String) :
    PendingOperation → RecoveryAction → M ProfileDocument
  | .pendingCreate operationId profile generation, .resume => do
    ensureGeneration profile.descriptorId generation credential
    let profile := { profile with activeCredentialGeneration := some generation, credentialState := .stored }
    let document := ((document.dropProfile profile.descriptorId).pushProfile profile).dropOperation operationId
    replace document
    pure document
  | .pendingReplace operationId descriptorId replacement oldGeneration newGeneration, .resume => do
    ensureGeneration descriptorId newGeneration credential
    let _ ← Prog.ofExcept (findProfile document descriptorId)
    let switched := (document.setProfile descriptorId replacement).dropOperation operationId
    match oldGeneration with
    | none =>
      replace switched
      pure switched
    | some oldGeneration =>
      let cleanup := switched.pushPending (.cleanupOld operationId descriptorId oldGeneration newGeneration)
      replace cleanup
      delete descriptorId oldGeneration
      let document := cleanup.dropOperation operationId
      replace document
      pure document
  | .pendingCreate operationId profile generation, .abort => do
    delete profile.descriptorId generation
    let document := document.dropOperation operationId
    replace document
    pure document
  | .pendingReplace operationId descriptorId _ _ newGeneration, .abort => do
    delete descriptorId newGeneration
    let document := document.dropOperation operationId
    replace document
    pure document
  | .cleanupOld operationId descriptorId oldGeneration _, .retryCleanup => do
    delete descriptorId oldGeneration
    let document := document.dropOperation operationId
    replace document
    pure document
  | .pendingForget _ descriptorId _, .retryCleanup => do
    let _ ← cancelAndClose descriptorId
    finishForget document descriptorId
  | .pendingRemoveCredential _ descriptorId _, .retryCleanup => do
    let _ ← cancelAndClose descriptorId
    finishRemoveCredential document descriptorId
  | _, _ => Prog.throw ⟨.recoveryActionInvalid, "recovery action is not valid for this operation"⟩

def recover (request : ProfileRecoveryRequest) : M ProfileLoadResult := do
  let document ← load
  match document.pendingOperations.find? fun operation => operation.operationId = request.operationId with
  | none => Prog.throw recoveryNotFound
  | some operation =>
    let recovered ← recoverOperation document request.credential operation request.action
    pure recovered.view

def resolveSavedCredential (descriptorId : String) : M (ProfileDescriptor × Option String) := do
  let document ← load
  Prog.ofExcept (document.ensureNoPending descriptorId)
  let profile ← Prog.ofExcept (findProfile document descriptorId)
  match profile.activeCredentialGeneration with
  | some generation =>
    let secret ← ask (.resolve descriptorId generation) id .ofVault
    pure (profile.descriptor, some secret)
  | none =>
    if profile.target.isNetwork then Prog.throw (credentialRequired "database profile requires a credential")
    else pure (profile.descriptor, none)

/-! ## Opening -/

inductive DbOpenConfig
  | sqlite (path : String) (workspace : Option SqliteWorkspace)
  | postgres (target : PostgresTarget) (password : String)
  | mssql (target : MssqlTarget) (password : String)
  deriving DecidableEq

def requiredSecret (secret : Option String) : Except ProfileError String :=
  match secret with
  | some secret => .ok secret
  | none => .error (credentialRequired "database profile requires a credential")

def openConfig (target : ProfileTarget) (secret : Option String) : Except ProfileError DbOpenConfig :=
  match authorizePostgresTarget target with
  | .error error => .error error
  | .ok () =>
    match target with
    | .sqlite path workspace => .ok (.sqlite path workspace)
    | .postgres target => (requiredSecret secret).map (.postgres target)
    | .mssql target => (requiredSecret secret).map (.mssql target)

/-- The configuration that `test_connection` opens for a target in the request. -/
def testEphemeral (target : ProfileTarget) (credential challengeId : Option String) : M DbOpenConfig := do
  let target ← authorizeIncomingPostgresTarget target challengeId none
  Prog.ofExcept (openConfig target credential)

/-- The configuration that `test_connection` and `open_saved` open for a saved profile. -/
def openSaved (descriptorId : String) : M DbOpenConfig := do
  let resolved ← resolveSavedCredential descriptorId
  Prog.ofExcept (openConfig resolved.1.target resolved.2)

inductive Operation
  | issueTransportChallenge (request : Transport)
  | importLegacy (profiles : List ProfileDescriptor)
  | create (request : ProfileCreateRequest)
  | update (request : ProfileUpdateRequest)
  | forget (descriptorId : String)
  | removeCredential (descriptorId : String)
  | recover (request : ProfileRecoveryRequest)
  | testEphemeral (target : ProfileTarget) (credential challengeId : Option String)
  | openSaved (descriptorId : String)

inductive Answer
  | challenge (dto : PostgresTransportChallengeDto)
  | loaded (result : ProfileLoadResult)
  | descriptor (descriptor : ProfileDescriptor)
  | config (config : DbOpenConfig)
  deriving DecidableEq

def Operation.start : Operation → M Answer
  | issueTransportChallenge request => do pure (.challenge (← Profiles.issueTransportChallenge request))
  | importLegacy profiles => do pure (.loaded (← Profiles.importLegacy profiles))
  | create request => do pure (.descriptor (← Profiles.create request))
  | update request => do pure (.descriptor (← Profiles.update request))
  | forget descriptorId => do pure (.loaded (← Profiles.forget descriptorId))
  | removeCredential descriptorId => do pure (.loaded (← Profiles.removeCredential descriptorId))
  | recover request => do pure (.loaded (← Profiles.recover request))
  | testEphemeral target credential challengeId => do
    pure (.config (← Profiles.testEphemeral target credential challengeId))
  | openSaved descriptorId => do pure (.config (← Profiles.openSaved descriptorId))

end Profiles
end Yuzora
