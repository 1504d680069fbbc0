import Yuzora.Table
import Yuzora.Threads
/-!
# WorkspaceTrust — the store that authorizes workspaces

`WorkspaceTrustStore`: challenges and bound git roots live in one process's memory, grants in a document that every
process shares.  Each operation is a program; a command is one access to the disk, one section under the store's lock,
or one change of the document under the file's lock.
-/
namespace Yuzora
namespace Trust

def STORE_VERSION : Nat := 1

def CHALLENGE_TTL : Nat := 60000000000

structure WorkspaceIdentity where
  canonicalPath : String
  fsIdentity : String
  deriving DecidableEq

structure TrustRecord where
  canonicalPath : String
  fsIdentity : String
  grantedAt : String
  deriving DecidableEq

structure TrustDocument where
  version : Nat
  workspaces : List TrustRecord
  deriving DecidableEq

def TrustDocument.default : TrustDocument := ⟨STORE_VERSION, []⟩

inductive ChallengeKind
  | grantWorkspace
  deriving DecidableEq

structure Challenge where
  id : String
  kind : ChallengeKind
  identity : WorkspaceIdentity
  created : Nat
  deriving DecidableEq

def Challenge.expired (now : Nat) (challenge : Challenge) : Bool := CHALLENGE_TTL ≤ now - challenge.created

/-- `saturating_add` on 64 bits. -/
def Challenge.expiresAtMs (nowMs now : Nat) (challenge : Challenge) : Nat :=
  min (nowMs + (CHALLENGE_TTL - (now - challenge.created)) / 1000000) 18446744073709551615

inductive TrustError
  | untrusted (identity : WorkspaceIdentity) (challengeId : String)
  | identityMismatch (identity : WorkspaceIdentity) (challengeId : String)
  | unsupportedPath (reason : String)
  | staleChallenge
  | challengeExpired
  | persistFailed (message : String)
  | storeCorrupt
  | storeLocked
  deriving DecidableEq

def TrustError.code : TrustError → String
  | untrusted _ _ => "untrustedWorkspace"
  | identityMismatch _ _ => "identityMismatch"
  | unsupportedPath _ => "unsupportedPath"
  | staleChallenge => "staleChallenge"
  | challengeExpired => "challengeExpired"
  | persistFailed _ => "persistFailed"
  | storeCorrupt => "storeCorrupt"
  | storeLocked => "storeLocked"

structure WorkspaceTrustStatusDto where
  state : String
  canonicalPath : Option String
  fsIdentity : Option String
  challengeId : Option String
  repoPresent : Option Bool
  reason : Option String
  deriving DecidableEq

structure WorkspaceTrustChallengeDto where
  challengeId : String
  canonicalPath : String
  fsIdentity : String
  repoPresent : Bool
  expiresAt : Nat
  deriving DecidableEq

inductive TrustLookup
  | trusted | replaced | unknown
  deriving DecidableEq

/-- One process's memory.  The bound git roots are keyed by canonical path. -/
structure TrustInner where
  challenges : Table String Challenge
  sessionGitRoots : Table String WorkspaceIdentity

/-! ## The disk -/

/-- What a path leads to at one moment.  A canonical path may not be UTF-8; a directory has a file system identity. -/
structure Disk where
  canonicalize : String → Except String (Option String)
  platformIdentity : String → Except String String
  repoPresent : String → Bool

def observeIdentity (disk : Disk) (path : String) : Except TrustError WorkspaceIdentity :=
  if path.isEmpty then .error (.unsupportedPath "empty path")
  else
    match disk.canonicalize path with
    | .error error => .error (.unsupportedPath ("canonicalize failed: " ++ error))
    | .ok none => .error (.unsupportedPath "non-utf8 path")
    | .ok (some canonical) =>
      match disk.platformIdentity canonical with
      | .error reason => .error (.unsupportedPath reason)
      | .ok identity => .ok ⟨canonical, identity⟩

/-! ## Sections under the lock of one process -/

/-- A challenge that still stands for the same identity is given out again, with its first lifetime. -/
def issueChallenge (now : Nat) (token : String) (visit : Visit Challenge) (kind : ChallengeKind)
    (identity : WorkspaceIdentity) (inner : TrustInner) : String × TrustInner :=
  let live := inner.challenges.retain fun _ challenge => !challenge.expired now
  match (visit.order live.values).find? fun challenge => challenge.identity = identity && challenge.kind = kind with
  | some challenge => (challenge.id, { inner with challenges := live })
  | none => (token, { inner with challenges := live.insert token ⟨token, kind, identity, now⟩ })

def takeChallenge (now : Nat) (challengeId : String) (inner : TrustInner) : Except TrustError Challenge × TrustInner :=
  match inner.challenges.get challengeId with
  | none => (.error .staleChallenge, inner)
  | some challenge =>
    (if challenge.id ≠ challengeId then .error .staleChallenge
      else if challenge.expired now then .error .challengeExpired
      else .ok challenge,
      { inner with challenges := inner.challenges.erase challengeId })

def challengeExpiry (nowMs now : Nat) (challengeId : String) (inner : TrustInner) : Nat :=
  match inner.challenges.get challengeId with
  | some challenge => challenge.expiresAtMs nowMs now
  | none => nowMs

def unbindSessionFor (workspace : WorkspaceIdentity) (inner : TrustInner) : TrustInner :=
  { inner with sessionGitRoots := inner.sessionGitRoots.retain fun _ bound => bound ≠ workspace }

def clearChallengesFor (workspace : WorkspaceIdentity) (inner : TrustInner) : TrustInner :=
  { inner with challenges := inner.challenges.retain fun _ challenge => challenge.identity ≠ workspace }

/-! ## The document -/

def lookupIn (document : TrustDocument) (observed : WorkspaceIdentity) : TrustLookup :=
  match document.workspaces.find? fun record => record.canonicalPath = observed.canonicalPath with
  | some record => if record.fsIdentity = observed.fsIdentity then .trusted else .replaced
  | none => .unknown

def loadDocument : Option TrustDocument → Except TrustError TrustDocument
  | none => .ok .default
  | some document => if document.version ≠ STORE_VERSION then .error .storeCorrupt else .ok document

/-- The first record of the path is updated; without one, a record is added at the end. -/
def grantRecord (identity : WorkspaceIdentity) (grantedAt : String) : List TrustRecord → List TrustRecord
  | [] => [⟨identity.canonicalPath, identity.fsIdentity, grantedAt⟩]
  | record :: rest =>
    if record.canonicalPath = identity.canonicalPath then
      { record with fsIdentity := identity.fsIdentity, grantedAt := grantedAt } :: rest
    else record :: grantRecord identity grantedAt rest

/-- `Vec::retain`: what is dropped joins the stopped paths while the records are visited. -/
def dropRecords (canonicalPath : String) : List TrustRecord → List String → List TrustRecord × List String
  | [], stopped => ([], stopped)
  | record :: rest, stopped =>
    if record.canonicalPath ≠ canonicalPath ∧ record.canonicalPath ∉ stopped then
      (record :: (dropRecords canonicalPath rest stopped).1, (dropRecords canonicalPath rest stopped).2)
    else dropRecords canonicalPath rest (stopped ++ [record.canonicalPath])

/-- What may go wrong around the document: a lock, a read or a write, or the directory sync after the file is already
replaced. -/
inductive Trouble
  | none
  | before (error : TrustError)
  | after (error : TrustError)
  deriving DecidableEq

/-- Load, change and replace under the file's lock.  The change says whether there is anything to write. -/
def mutateDocument {α : Type} (trouble : Trouble) (file : Option TrustDocument)
    (mutate : TrustDocument → α × TrustDocument × Bool) : Except TrustError α × Option TrustDocument :=
  match trouble, loadDocument file with
  | .before error, _ => (.error error, file)
  | _, .error error => (.error error, file)
  | trouble, .ok document =>
    if (mutate document).2.2 then
      match trouble with
      | .after error => (.error error, some (mutate document).2.1)
      | _ => (.ok (mutate document).1, some (mutate document).2.1)
    else (.ok (mutate document).1, file)

def persistGrant (trouble : Trouble) (grantedAt : String) (identity : WorkspaceIdentity) (file : Option TrustDocument) :
    Except TrustError Unit × Option TrustDocument :=
  mutateDocument trouble file fun document =>
    ((), { document with workspaces := grantRecord identity grantedAt document.workspaces }, true)

def revokeRecords (trouble : Trouble) (canonicalPath : String) (stopped : List String) (file : Option TrustDocument) :
    Except TrustError (List String) × Option TrustDocument :=
  mutateDocument trouble file fun document =>
    ((dropRecords canonicalPath document.workspaces stopped).2,
      { document with workspaces := (dropRecords canonicalPath document.workspaces stopped).1 },
      (dropRecords canonicalPath document.workspaces stopped).1.length ≠ document.workspaces.length)

/-! ## Commands -/

inductive Command
  | observeIdentity (path : String)
  | projectRepoPresence (path : String)
  | loadDocument
  | issueChallenge (kind : ChallengeKind) (identity : WorkspaceIdentity)
  | takeChallenge (challengeId : String)
  | challengeExpiry (challengeId : String)
  | insertSessionGitRoot (root : String) (workspace : WorkspaceIdentity)
  | sessionGitRoot (root : String)
  | unbindSessionFor (workspace : WorkspaceIdentity)
  | clearChallengesFor (workspace : WorkspaceIdentity)
  | persistGrant (identity : WorkspaceIdentity)
  | revokeRecords (canonicalPath : String) (stopped : List String)
  deriving DecidableEq

def Reply : Command → Type
  | .observeIdentity _ => Except TrustError WorkspaceIdentity
  | .projectRepoPresence _ => Bool
  | .loadDocument => Except TrustError TrustDocument
  | .issueChallenge _ _ => String
  | .takeChallenge _ => Except TrustError Challenge
  | .challengeExpiry _ => Nat
  | .insertSessionGitRoot _ _ => Unit
  | .sessionGitRoot _ => Option WorkspaceIdentity
  | .unbindSessionFor _ => Unit
  | .clearChallengesFor _ => Unit
  | .persistGrant _ => Except TrustError Unit
  | .revokeRecords _ _ => Except TrustError (List String)

/-- What every process sees, and each process's memory.  `now` is the monotonic clock, in nanoseconds. -/
structure Shared where
  now : Nat
  disk : Disk
  file : Option TrustDocument
  stores : Nat → TrustInner

/-- What the program does not decide: the random token, the order of a hash map, what goes wrong, the wall clock. -/
structure Chance where
  token : String
  visit : Visit Challenge
  trouble : Trouble
  nowMs : Nat
  grantedAt : String

def Shared.update (shared : Shared) (store : Nat) (inner : TrustInner) : Shared :=
  { shared with stores := Function.update shared.stores store inner }

def perform (chance : Chance) (store : Nat) (shared : Shared) : (command : Command) → Reply command × Shared
  | .observeIdentity path => (observeIdentity shared.disk path, shared)
  | .projectRepoPresence path => (shared.disk.repoPresent path, shared)
  | .loadDocument =>
    match chance.trouble with
    | .none => (loadDocument shared.file, shared)
    | .before error | .after error => (.error error, shared)
  | .issueChallenge kind identity =>
    let issued := issueChallenge shared.now chance.token chance.visit kind identity (shared.stores store)
    (issued.1, shared.update store issued.2)
  | .takeChallenge challengeId =>
    let taken := takeChallenge shared.now challengeId (shared.stores store)
    (taken.1, shared.update store taken.2)
  | .challengeExpiry challengeId => (challengeExpiry chance.nowMs shared.now challengeId (shared.stores store), shared)
  | .insertSessionGitRoot root workspace =>
    ((), shared.update store
      { shared.stores store with sessionGitRoots := (shared.stores store).sessionGitRoots.insert root workspace })
  | .sessionGitRoot root => ((shared.stores store).sessionGitRoots.get root, shared)
  | .unbindSessionFor workspace => ((), shared.update store (unbindSessionFor workspace (shared.stores store)))
  | .clearChallengesFor workspace => ((), shared.update store (clearChallengesFor workspace (shared.stores store)))
  | .persistGrant identity =>
    let persisted := persistGrant chance.trouble chance.grantedAt identity shared.file
    (persisted.1, { shared with file := persisted.2 })
  | .revokeRecords canonicalPath stopped =>
    let revoked := revokeRecords chance.trouble canonicalPath stopped shared.file
    (revoked.1, { shared with file := revoked.2 })

/-! ## The operations -/

abbrev M (α : Type) : Type := Prog Command Reply TrustError α

def tell (command : Command) : M (Reply command) := Prog.command command

def ask {α : Type} (command : Command) (answer : Reply command → Except TrustError α) : M α := do
  Prog.ofExcept (answer (← tell command))

def observe (path : String) : M WorkspaceIdentity := ask (.observeIdentity path) id
def projectRepoPresence (path : String) : M Bool := tell (.projectRepoPresence path)
def issue (identity : WorkspaceIdentity) : M String := tell (.issueChallenge .grantWorkspace identity)
def expiry (challengeId : String) : M Nat := tell (.challengeExpiry challengeId)
def insertRoot (root : String) (workspace : WorkspaceIdentity) : M Unit := tell (.insertSessionGitRoot root workspace)
def boundWorkspace (root : String) : M (Option WorkspaceIdentity) := tell (.sessionGitRoot root)

def lookup (observed : WorkspaceIdentity) : M TrustLookup := do
  let document ← ask .loadDocument id
  pure (lookupIn document observed)

def requireTrusted (path : String) : M WorkspaceIdentity := do
  let observed ← observe path
  match ← lookup observed with
  | .trusted => pure observed
  | .replaced =>
    let challengeId ← issue observed
    Prog.throw (.identityMismatch observed challengeId)
  | .unknown =>
    let challengeId ← issue observed
    Prog.throw (.untrusted observed challengeId)

/-- A bound root is allowed while the document trusts the workspace that was bound to it. -/
def sessionGitRootAllowed (observed : WorkspaceIdentity) : M Bool := do
  match ← boundWorkspace observed.canonicalPath with
  | none => pure false
  | some workspace =>
    let found ← lookup workspace
    pure (decide (found = .trusted))

def requireTrustedGit (path : String) : M WorkspaceIdentity := do
  match ← (requireTrusted path).attempt with
  | .ok identity => pure identity
  | .error original =>
    match ← (observe path).attempt with
    | .error _ => Prog.throw original
    | .ok observed =>
      if ← sessionGitRootAllowed observed then pure observed else Prog.throw original

def bindSessionGitRoot (workspace : WorkspaceIdentity) (gitRoot : String) : M Unit := do
  match ← (observe gitRoot).attempt with
  | .error _ => pure ()
  | .ok root =>
    if root.canonicalPath = workspace.canonicalPath then pure ()
    else insertRoot root.canonicalPath workspace

def status (path : String) : M WorkspaceTrustStatusDto := do
  match ← (observe path).attempt with
  | .error error => pure ⟨"invalid", none, none, none, none, some error.code⟩
  | .ok observed =>
    match ← lookup observed with
    | .trusted =>
      let repoPresent ← projectRepoPresence path
      pure ⟨"trusted", some observed.canonicalPath, some observed.fsIdentity, none, some repoPresent, none⟩
    | .replaced =>
      let challengeId ← issue observed
      let repoPresent ← projectRepoPresence path
      pure ⟨"invalid", some observed.canonicalPath, some observed.fsIdentity, some challengeId, some repoPresent,
        some "identityMismatch"⟩
    | .unknown =>
      let challengeId ← issue observed
      let repoPresent ← projectRepoPresence path
      pure ⟨"untrusted", some observed.canonicalPath, some observed.fsIdentity, some challengeId, some repoPresent, none⟩

def issueWorkspaceChallenge (path : String) : M WorkspaceTrustChallengeDto := do
  let observed ← observe path
  let challengeId ← issue observed
  let expiresAt ← expiry challengeId
  let repoPresent ← projectRepoPresence path
  pure ⟨challengeId, observed.canonicalPath, observed.fsIdentity, repoPresent, expiresAt⟩

def grant (challengeId : String) : M WorkspaceTrustStatusDto := do
  let challenge ← ask (.takeChallenge challengeId) id
  if challenge.kind ≠ .grantWorkspace then Prog.throw .staleChallenge
  else do
    let observed ← observe challenge.identity.canonicalPath
    if observed ≠ challenge.identity then Prog.throw (.identityMismatch observed challengeId)
    else do
      ask (.persistGrant observed) id
      status observed.canonicalPath

/-- `Vec::dedup` drops what equals the element before it. -/
def dedup : List String → List String
  | a :: b :: rest => if a = b then dedup (b :: rest) else a :: dedup (b :: rest)
  | l => l

def revoke (canonicalPath : String) : M (List String) := do
  let stopped ← (do
    match ← (observe canonicalPath).attempt with
    | .error _ => pure [canonicalPath]
    | .ok observed =>
      let _ ← tell (.unbindSessionFor observed)
      let _ ← tell (.clearChallengesFor observed)
      pure [canonicalPath, observed.canonicalPath])
  let stopped ← ask (.revokeRecords canonicalPath stopped) id
  pure (dedup (stopped.mergeSort fun a b => decide (a ≤ b)))

inductive Operation
  | status (path : String)
  | issueWorkspaceChallenge (path : String)
  | requireTrusted (path : String)
  | requireTrustedGit (path : String)
  | bindSessionGitRoot (workspace : WorkspaceIdentity) (gitRoot : String)
  | grant (challengeId : String)
  | revoke (canonicalPath : String)
  deriving DecidableEq

inductive Answer
  | status (dto : WorkspaceTrustStatusDto)
  | challenge (dto : WorkspaceTrustChallengeDto)
  | trusted (identity : WorkspaceIdentity)
  | bound
  | stopped (paths : List String)
  deriving DecidableEq

def Operation.start : Operation → M Answer
  | status path => do pure (.status (← Trust.status path))
  | issueWorkspaceChallenge path => do pure (.challenge (← Trust.issueWorkspaceChallenge path))
  | requireTrusted path => do pure (.trusted (← Trust.requireTrusted path))
  | requireTrustedGit path => do pure (.trusted (← Trust.requireTrustedGit path))
  | bindSessionGitRoot workspace gitRoot => do
    Trust.bindSessionGitRoot workspace gitRoot
    pure .bound
  | grant challengeId => do pure (.status (← Trust.grant challengeId))
  | revoke canonicalPath => do pure (.stopped (← Trust.revoke canonicalPath))

/-- A call of an operation in one process. -/
structure Call where
  store : Nat
  operation : Operation
  deriving DecidableEq

/-- Between the commands time passes and directories are replaced. -/
inductive Surroundings
  | wait (nanoseconds : Nat)
  | replace (disk : Disk)

def surround : Surroundings → Shared → Shared
  | .wait nanoseconds, shared => { shared with now := shared.now + nanoseconds }
  | .replace disk, shared => { shared with disk := disk }

def stores : Pool Command Reply TrustError Answer Shared Call Chance Surroundings where
  start call := call.operation.start
  exec chance call := perform chance call.store
  drift := surround

def fresh (now : Nat) (disk : Disk) : Shared := ⟨now, disk, none, fun _ => ⟨.empty, .empty⟩⟩

end Trust
end Yuzora
