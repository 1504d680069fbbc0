import Mathlib.Data.List.Infix
import Yuzora.LiveMap
import Yuzora.Trace
/-!
# RemoteFiles — documents on a host and the revisions they were read at

`remoteFiles`: a table of revisions, one for each document, each bound to the connection it came from.  Every call waits
for the host, and anything may happen while it does.
-/
namespace Yuzora
namespace RemoteFiles

/-! ## Documents -/

/-- A document: its host, its workspace and its path in segments. -/
structure Uri where
  hostId : String
  windows : Bool
  workspaceRoot : List String
  path : List String
  deriving DecidableEq

namespace Uri

def workspace (u : Uri) : Uri := { u with path := u.workspaceRoot }

/-- `u === from || u.startsWith(from + "/")`. -/
def under («from» u : Uri) : Bool := decide (u.workspace = «from».workspace ∧ «from».path <+: u.path)

/-- `to + u.slice(from.length)`. -/
def reroot («from» «to» u : Uri) : Uri := { «to» with path := «to».path ++ u.path.drop «from».path.length }

end Uri

/-- `relativeRemoteHostPath`, where `lower` is `toLowerCase`. -/
def relative (lower : String → String) (windows : Bool) (root path : List String) : Option (List String) :=
  let base := if 1 < root.length ∧ root.getLast? = some "" then root.dropLast else root
  let same (left right : String) : Bool := if windows then lower left = lower right else left = right
  if path.length < base.length || !(base.zip path).all (fun pair => same pair.1 pair.2) then none
  else some (path.drop base.length)

/-! ## The host -/

/-- A file.  Every change gives it a revision that no file had before. -/
structure File where
  content : String
  revision : Nat
  deriving DecidableEq

/-! ## Connections -/

structure Owner where
  hostId : String
  generation : Nat
  deriving DecidableEq

/-- `guard` is the `isCurrent` that the connection was made with. -/
inductive Kind
  | sftp (sessionId : String)
  | runtime (owner : Owner) (guard : Nat)
  deriving DecidableEq

/-- A backend is the object it is, not what it says. -/
structure Backend where
  id : Nat
  kind : Kind
  deriving DecidableEq

structure Workspace where
  uri : Uri
  backend : Backend

/-- An entry of the revisions, an object of its own. -/
structure Opened where
  id : Nat
  backend : Backend
  revision : Nat
  deriving DecidableEq

/-! ## Calls -/

inductive Stage
  | queued
  | sent (opened : Opened) (on : Backend)
  | answered (opened : Opened) (on : Backend) (revision : Option Nat)

/-- What is left of a reconnect. -/
structure Reconnect where
  owner : Owner
  guard : Nat
  rest : List (Uri × Nat)

/-- A workspace object whose revisions are compared on its new backend. -/
structure Rebind where
  key : Uri
  object : Nat
  before : Backend
  new : Backend

/-- A call that waits. -/
inductive Call
  | reading (uri : Uri) (backend : Backend) (answer : Option (String × Option Nat))
  /-- A snapshot that its reader may accept. -/
  | snapshot (uri : Uri) (backend : Backend) (content : String) (revision : Option Nat)
  | saving (uri : Uri) (content : String) (backend : Backend) (stage : Stage)
  | renaming («from» «to» : Uri) (backend : Backend) (answered : Bool)
  | moving (workspace : Uri) (sources : List Uri) (backend : Backend) (answer : Option (List Uri))
  /-- Over SFTP the parent is listed first. -/
  | deleting (uri : Uri) (backend : Backend) (listed answered : Bool)
  | reconnecting (left : Reconnect)
  | opening (left : Reconnect) (key : Uri) (object : Nat) (before : Backend) (canonical : Option Uri)
  | listing (hostId sessionId : String) (canonical : Option Uri)
  | rebinding (r : Rebind) (todo : List (Uri × Opened)) (left : Option Reconnect)
  | comparing (r : Rebind) (uri : Uri) (opened : Opened) (todo : List (Uri × Opened)) (left : Option Reconnect)
      (answer : Option (Option Nat))

/-- What happened.  No call reads it. -/
inductive Event
  | accepted (uri : Uri) (backend : Backend) (revision : Nat) (content : String)
  /-- The host replaced a file that had the revision sent. -/
  | replaced (uri : Uri) (requested on : Backend) (sent : Nat) (old new : File)
  /-- A save was fulfilled, and whether its revision was recorded. -/
  | saved (uri : Uri) (backend : Backend) (revision : Option Nat) (recorded : Bool)
  | renamed («from» «to» : Uri)
  | deleted (uri : Uri)
  | forgot (uri : Uri)
  | disposed (backend : Backend)
  /-- The host told a file's revision to a reconnect. -/
  | compared (uri : Uri) (backend : Backend) (revision : Nat)
  | rebound (uri : Uri) (before new : Backend) (revision : Nat)

/-! ## The state -/

variable (Place : Type)

structure State where
  workspaces : Table Uri Nat
  objects : Table Nat Workspace
  revisions : Table Uri Opened
  sessions : String → Option String
  current : Nat → Bool
  calls : Table Nat Call
  nextId : Nat
  files : Place → Option File
  /-- The contents that got a revision, by revision. -/
  issued : List String
  /-- The save that changed a file last, by its revision; none where something else did. -/
  written : Place → Option Nat
  journal : List Event

variable {Place}

namespace State

def log (s : State Place) (e : Event) : State Place := { s with journal := s.journal ++ [e] }

def become (s : State Place) (id : Nat) (call : Call) : State Place := { s with calls := s.calls.set id call }

def finish (s : State Place) (id : Nat) : State Place := { s with calls := s.calls.erase id }

def open_ (s : State Place) (call : Call) : State Place :=
  { s with calls := s.calls.set s.nextId call, nextId := s.nextId + 1 }

/-- A revision is recorded for a document, in an object of its own. -/
def record (s : State Place) (uri : Uri) (backend : Backend) (revision : Nat) : State Place :=
  { s with revisions := s.revisions.set uri ⟨s.nextId, backend, revision⟩, nextId := s.nextId + 1 }

end State

variable (lower : String → String)

variable (s : State Place)

def live (hostId : String) (backend : Backend) : Bool :=
  match backend.kind with
  | .sftp sessionId => s.sessions hostId = some sessionId
  | .runtime _ guard => s.current guard

def resolve (uri : Uri) : Option (Nat × Workspace × List String) :=
  if uri.path.any (fun part => part = "." || part = "..") then none
  else
    match s.workspaces.get uri.workspace with
    | none => none
    | some object =>
      match s.objects.get object with
      | none => none
      | some workspace =>
        match relative lower uri.windows workspace.uri.workspaceRoot uri.path with
        | none => none
        | some path => if live s workspace.uri.hostId workspace.backend then some (object, workspace, path) else none

def assertBackend (uri : Uri) (backend : Backend) : Bool :=
  (resolve lower s uri).any fun found => found.2.1.backend = backend

def mutationPath (workspace uri : Uri) : Option Backend :=
  match resolve lower s workspace, resolve lower s uri with
  | some (object, found, _), some (object', _, path) => if object = object' ∧ path ≠ [] then some found.backend else none
  | _, _ => none

/-- `resolveWorkspace`. -/
def workspaceBackend (workspace : Uri) : Option Backend :=
  ((s.workspaces.get workspace.workspace).bind s.objects.get).map Workspace.backend

variable (backend : Backend)

def Backend.isRuntime : Bool :=
  match backend.kind with
  | .runtime _ _ => true
  | .sftp _ => false

/-! ## The loops over the revisions -/

variable («from» «to» : Uri)

/-- One turn of `renameRemotePath`'s loop over the live map. -/
def renameTurn (backend : Backend) (uri : Uri) (opened : Opened) (walk : Walk Uri Opened) :
    Walk Uri Opened :=
  if «from».under uri then
    if opened.backend = backend then (walk.delete uri).set («from».reroot «to» uri) opened else walk.delete uri
  else walk

def renameRevisions (backend : Backend) (fuel : Nat) (revisions : Table Uri Opened) :
    Option (Table Uri Opened) :=
  Walk.run (renameTurn «from» «to» backend) fuel (.start revisions)

/-- One turn of `moveRevisions`' loop over a copy. -/
def moveTurn (backend : Backend) (revisions : Table Uri Opened) (e : Uri × Opened) : Table Uri Opened :=
  if «from».under e.1 then
    if e.2.backend = backend then (revisions.erase e.1).set («from».reroot «to» e.1) e.2 else revisions.erase e.1
  else revisions

def moveRevisions (revisions : Table Uri Opened) (pair : Uri × Uri) : Table Uri Opened :=
  if pair.2 = pair.1 then revisions else revisions.entries.foldl (moveTurn pair.1 pair.2 backend) revisions

/-- One turn of `deleteRemotePath`'s loop over the live keys. -/
def deleteTurn (uri path : Uri) (_ : Opened) (walk : Walk Uri Opened) : Walk Uri Opened :=
  if uri.under path then walk.delete path else walk

def deleteRevisions (uri : Uri) (fuel : Nat) (revisions : Table Uri Opened) : Option (Table Uri Opened) :=
  Walk.run (deleteTurn uri) fuel (.start revisions)

/-- One turn of `disposeWorkspace`'s loop. -/
def disposeTurn (path : Uri) (opened : Opened) (walk : Walk Uri Opened) : Walk Uri Opened :=
  if opened.backend = backend then walk.delete path else walk

def disposeRevisions (fuel : Nat) (revisions : Table Uri Opened) : Option (Table Uri Opened) :=
  Walk.run (disposeTurn backend) fuel (.start revisions)

/-! ## What the host answers -/

/-- What the host may decide when it answers. -/
structure Chance (Place : Type) where
  /-- It does not tell the revision. -/
  silent : Bool
  /-- Where each file comes from, after files were moved or deleted. -/
  moves : Place → Option Place
  created : List Uri
  canonical : Uri

variable [DecidableEq Place] (locate : Uri → Place)

def State.shuffle (s : State Place) (moves : Place → Option Place) : State Place :=
  { s with
    files := fun p => (moves p).bind s.files
    written := fun p => if moves p = some p then s.written p else none }

def State.write (s : State Place) (p : Place) (content : String) (writer : Option Nat) : State Place :=
  { s with
    files := fun q => if q = p then some ⟨content, s.issued.length⟩ else s.files q
    issued := s.issued ++ [content]
    written := fun q => if q = p then writer else s.written q }

def told (chance : Chance Place) (revision : Nat) : Option Nat := if chance.silent then none else some revision

/-- The host answers a call; none where it has nothing to answer or refuses. -/
def serve (s : State Place) (id : Nat) (chance : Chance Place) : Call → Option (State Place)
  | .reading uri backend none =>
    (s.files (locate uri)).map fun file =>
      s.become id (.reading uri backend (some (file.content, told chance file.revision)))
  | .saving uri content backend (.sent opened on) =>
    match s.files (locate uri) with
    | none => none
    | some file =>
      if file.revision = opened.revision then
        let new : File := ⟨content, s.issued.length⟩
        some (((s.write (locate uri) content (some new.revision)).become id
          (.saving uri content backend (.answered opened on (told chance new.revision)))).log
            (.replaced uri backend on opened.revision file new))
      else none
  | .renaming «from» «to» backend false => some ((s.shuffle chance.moves).become id (.renaming «from» «to» backend true))
  | .moving workspace sources backend none =>
    some ((s.shuffle chance.moves).become id (.moving workspace sources backend (some chance.created)))
  | .deleting uri backend true false => some ((s.shuffle chance.moves).become id (.deleting uri backend true true))
  | .opening left key object before none => some (s.become id (.opening left key object before (some chance.canonical)))
  | .listing hostId sessionId none => some (s.become id (.listing hostId sessionId (some chance.canonical)))
  | .comparing r uri opened todo left none =>
    match s.files (locate uri) with
    | none => some (s.become id (.comparing r uri opened todo left (some none)))
    | some file =>
      if chance.silent then some (s.become id (.comparing r uri opened todo left (some none)))
      else some ((s.become id (.comparing r uri opened todo left (some (some file.revision)))).log
        (.compared uri r.new file.revision))
  | _ => none

/-! ## How a call goes on -/

def afterRename (id : Nat) («from» «to» : Uri) (backend : Backend) (fuel : Nat) :
    Option (State Place) :=
  if assertBackend lower s «to» backend then
    (renameRevisions «from» «to» backend fuel s.revisions).map fun revisions =>
      ({ s with revisions }.finish id).log (.renamed «from» «to»)
  else some (s.finish id)

def afterDelete (id : Nat) (uri : Uri) (backend : Backend) (fuel : Nat) : Option (State Place) :=
  if assertBackend lower s uri backend then
    (deleteRevisions uri fuel s.revisions).map fun revisions => ({ s with revisions }.finish id).log (.deleted uri)
  else some (s.finish id)

def afterMove (id : Nat) (workspace : Uri) (sources created : List Uri) (backend : Backend) :
    State Place :=
  if assertBackend lower s workspace backend then
    let pairs := sources.zip created
    { s.finish id with
      revisions := pairs.foldl (moveRevisions backend) s.revisions
      journal := s.journal ++ pairs.map fun pair => .renamed pair.1 pair.2 }
  else s.finish id

def afterSave (id : Nat) (uri : Uri) (opened : Opened) (on : Backend) (revision : Option Nat) :
    State Place :=
  if assertBackend lower s uri on then
    match revision with
    | none => (s.finish id).log (.saved uri on none false)
    | some revision =>
      if s.revisions.get uri = some opened then
        ((s.record uri on revision).finish id).log (.saved uri on (some revision) true)
      else (s.finish id).log (.saved uri on (some revision) false)
  else s.finish id

/-- A queued save begins: it belongs to the connection on which it was requested. -/
def beginSave (id : Nat) (uri : Uri) (content : String) (backend : Backend) : State Place :=
  match resolve lower s uri with
  | none => s.finish id
  | some (_, workspace, _) =>
    if workspace.backend = backend then
      match s.revisions.get uri with
      | none => s.finish id
      | some opened =>
        if opened.backend = workspace.backend then
          s.become id (.saving uri content backend (.sent opened workspace.backend))
        else s.finish id
    else s.finish id

/-- After the comparison of a workspace: the reconnect's next one, or the end. -/
def leave (id : Nat) : Option Reconnect → State Place
  | none => s.finish id
  | some left => if s.current left.guard then s.become id (.reconnecting left) else s.finish id

/-- The workspace still is the object, and its new connection is there. -/
def bound (r : Rebind) : Bool := decide (s.workspaces.get r.key = some r.object) && live s r.key.hostId r.new

def rebindTurn (id : Nat) (r : Rebind) (uri : Uri) (opened : Opened) (todo : List (Uri × Opened))
    (left : Option Reconnect) : State Place :=
  if opened.backend ≠ r.before ∨ s.revisions.get uri ≠ some opened ∨
      left.isSome ∧ relative lower uri.windows r.key.workspaceRoot uri.path = none then
    s.become id (.rebinding r todo left)
  else s.become id (.comparing r uri opened todo left none)

def afterCompare (id : Nat) (r : Rebind) (uri : Uri) (opened : Opened) (todo : List (Uri × Opened))
    (left : Option Reconnect) (revision : Option Nat) : State Place :=
  if bound s r then
    if s.revisions.get uri = some opened ∧ revision = some opened.revision then
      ((s.record uri r.new opened.revision).become id (.rebinding r todo left)).log
        (.rebound uri opened.backend r.new opened.revision)
    else s.become id (.rebinding r todo left)
  else s.finish id

def reconnectTurn (id : Nat) (left : Reconnect) : State Place :=
  match left.rest with
  | [] => s.finish id
  | (key, object) :: rest =>
    let left := { left with rest }
    match s.objects.get object with
    | none => s.become id (.reconnecting left)
    | some previous =>
      match previous.backend.kind with
      | .sftp _ => s.become id (.reconnecting left)
      | .runtime owner _ =>
        if previous.uri.hostId ≠ left.owner.hostId ∨ owner = left.owner then s.become id (.reconnecting left)
        else s.become id (.opening left key object previous.backend none)

def afterOpen (id : Nat) (left : Reconnect) (key : Uri) (object : Nat) (before : Backend)
    (canonical : Uri) : State Place :=
  if s.current left.guard ∧ s.workspaces.get key = some object ∧ canonical = key then
    let new : Backend := ⟨s.nextId, .runtime left.owner left.guard⟩
    { s.become id (.rebinding ⟨key, object, before, new⟩ s.revisions.entries (some left)) with
      objects := s.objects.set object ⟨key, new⟩
      nextId := s.nextId + 1 }
  else s.become id (.reconnecting left)

def afterListing (id : Nat) (hostId sessionId : String) (canonical : Uri) : State Place :=
  let key : Uri := { canonical with hostId, path := canonical.workspaceRoot }
  let previous := (s.workspaces.get key).bind s.objects.get
  if s.sessions hostId ≠ some sessionId ∨ previous.any (fun previous => previous.backend.kind = .sftp sessionId) then
    s.finish id
  else
    let object := s.nextId
    let new : Backend := ⟨object, .sftp sessionId⟩
    let registered := { s with
      workspaces := s.workspaces.set key object
      objects := s.objects.set object ⟨key, new⟩
      nextId := object + 1 }
    match previous with
    | none => registered.finish id
    | some previous => registered.become id (.rebinding ⟨key, object, previous.backend, new⟩ s.revisions.entries none)

def resume (id fuel : Nat) : Call → Option (State Place)
  | .reading uri backend (some (content, revision)) =>
    if assertBackend lower s uri backend then some (s.become id (.snapshot uri backend content revision))
    else some (s.finish id)
  | .saving uri content backend .queued => some (beginSave lower s id uri content backend)
  | .saving uri _ _ (.answered opened on revision) => some (afterSave lower s id uri opened on revision)
  | .renaming «from» «to» backend true => afterRename lower s id «from» «to» backend fuel
  | .moving workspace sources backend (some created) => some (afterMove lower s id workspace sources created backend)
  | .deleting uri backend false _ =>
    if assertBackend lower s uri backend then some (s.become id (.deleting uri backend true false)) else some (s.finish id)
  | .deleting uri backend true true => afterDelete lower s id uri backend fuel
  | .reconnecting left => some (reconnectTurn s id left)
  | .opening left key object before (some canonical) => some (afterOpen s id left key object before canonical)
  | .listing hostId sessionId (some canonical) => some (afterListing s id hostId sessionId canonical)
  | .rebinding _ [] left => some (leave s id left)
  | .rebinding r ((uri, opened) :: todo) left => some (rebindTurn lower s id r uri opened todo left)
  | .comparing r uri opened todo left (some revision) => some (afterCompare s id r uri opened todo left revision)
  | _ => none

/-! ## Steps -/

def firstSave (id : Nat) (uri : Uri) : Bool :=
  s.calls.entries.all fun e =>
    match e.2 with
    | .saving uri' _ _ _ => decide (uri' = uri → id ≤ e.1)
    | _ => true

def mayResume (id : Nat) : Call → Bool
  | .saving uri _ _ .queued => firstSave s id uri
  | _ => true

def accept (uri : Uri) (backend : Backend) (content : String) (revision : Option Nat) : State Place :=
  if assertBackend lower s uri backend then
    match revision with
    | none => s
    | some revision => (s.record uri backend revision).log (.accepted uri backend revision content)
  else s

inductive Action (Place : Type)
  | readRemoteFileSnapshot (uri : Uri)
  | accept (id : Nat)
  | saveRemoteFile (uri : Uri) (content : String)
  | renameRemotePath (workspace «from» «to» : Uri)
  | moveRemotePaths (workspace : Uri) (sources : List Uri) (targetDir : Uri)
  | deleteRemotePath (workspace uri : Uri)
  | reconnectRemoteWorkspaces (owner : Owner) (guard : Nat)
  | registerSftpWorkspace (hostId : String)
  | forgetRemoteFileRevision (uri : Uri)
  | serve (id : Nat) (chance : Chance Place)
  | resume (id fuel : Nat)
  /-- A call fails; its answer, if there was one, is lost. -/
  | fail (id : Nat)
  /-- Someone else changes a file, or moves and deletes files. -/
  | overwrite (p : Place) (content : String)
  | shuffle (moves : Place → Option Place)
  | connection (guard : Nat) (current : Bool)
  | session (hostId : String) (sessionId : Option String)
  /-- A workspace is registered with a connection of its own. -/
  | register (uri : Uri) (kind : Kind)
  | disposeWorkspace (object fuel : Nat)

/-- A failed comparison tells nothing; any other call that fails ends. -/
def failed (id : Nat) : Call → Option (State Place)
  | .snapshot _ _ _ _ => none
  | .comparing r uri opened todo left none => some (s.become id (.comparing r uri opened todo left (some none)))
  | _ => some (s.finish id)

def dispose (object fuel : Nat) : Option (State Place) :=
  match s.objects.get object with
  | none => none
  | some workspace =>
    (disposeRevisions workspace.backend fuel s.revisions).map fun revisions =>
      { s with workspaces := s.workspaces.retain fun _ o => decide (o ≠ object), revisions }.log
        (.disposed workspace.backend)

def next (s : State Place) : Action Place → Option (State Place)
  | .readRemoteFileSnapshot uri => (resolve lower s uri).map fun found => s.open_ (.reading uri found.2.1.backend none)
  | .accept id =>
    match s.calls.get id with
    | some (.snapshot uri backend content revision) => some (accept lower s uri backend content revision)
    | _ => none
  | .saveRemoteFile uri content =>
    (resolve lower s uri).map fun found => s.open_ (.saving uri content found.2.1.backend .queued)
  | .renameRemotePath workspace «from» «to» =>
    match mutationPath lower s workspace «from», mutationPath lower s workspace «to» with
    | some backend, some _ => some (s.open_ (.renaming «from» «to» backend false))
    | _, _ => none
  | .moveRemotePaths workspace sources targetDir =>
    let target := if targetDir = workspace then workspaceBackend s workspace else mutationPath lower s workspace targetDir
    target.bind fun backend =>
      if (sources.all fun source => (mutationPath lower s workspace source).isSome) && backend.isRuntime then
        some (s.open_ (.moving workspace sources backend none))
      else none
  | .deleteRemotePath workspace uri =>
    (mutationPath lower s workspace uri).map fun backend => s.open_ (.deleting uri backend backend.isRuntime false)
  | .reconnectRemoteWorkspaces owner guard => some (s.open_ (.reconnecting ⟨owner, guard, s.workspaces.entries⟩))
  | .registerSftpWorkspace hostId =>
    (s.sessions hostId).map fun sessionId => s.open_ (.listing hostId sessionId none)
  | .forgetRemoteFileRevision uri => some ({ s with revisions := s.revisions.erase uri }.log (.forgot uri))
  | .serve id chance => (s.calls.get id).bind (serve locate s id chance)
  | .resume id fuel =>
    (s.calls.get id).bind fun call => if mayResume s id call then resume lower s id fuel call else none
  | .fail id => (s.calls.get id).bind (failed s id)
  | .overwrite p content => some (s.write p content none)
  | .shuffle moves => some (s.shuffle moves)
  | .connection guard current =>
    some { s with current := fun g => if g = guard then current else s.current g }
  | .session hostId sessionId =>
    some { s with sessions := fun h => if h = hostId then sessionId else s.sessions h }
  | .register uri kind =>
    some { s with
      workspaces := s.workspaces.set uri.workspace s.nextId
      objects := s.objects.set s.nextId ⟨uri.workspace, ⟨s.nextId, kind⟩⟩
      nextId := s.nextId + 1 }
  | .disposeWorkspace object fuel => dispose s object fuel

/-- Nothing is open yet, and the host has its files. -/
structure Start (s : State Place) : Prop where
  revisions : s.revisions = .empty
  calls : s.calls = .empty
  journal : s.journal = []
  written : ∀ p, s.written p = none
  issued : ∀ p file, s.files p = some file → s.issued[file.revision]? = some file.content

/-- The runs, whatever is called and answered, and in whatever order. -/
def Run : List (Transition (State Place) (Action Place)) → State Place → Prop :=
  Trace Start fun s a t => next lower locate s a = some t

end RemoteFiles
end Yuzora
