import Yuzora.GitCommits
import Yuzora.Programs
/-!
# SftpSave — a remote file saved over SFTP

The content goes into a scratch file, which one request then puts in the target's place.  Any request may fail without
effect, or take effect while its answer is lost; between two of them other clients change every file but the scratch.
-/
namespace Yuzora
namespace SftpSave

def MAX_FILE_BYTES : Nat := 8 * 1024 * 1024
def CHUNK : Nat := 32 * 1024

/-! ## Requests -/

structure Metadata where
  regular : Bool
  size : Option Nat
  permissions : Option Nat

/-- What a save asks of its two sessions and of the manager that holds them.  A `read` carries the bytes read so far, of
which the server is told the number. -/
inductive Request
  | ensureSftp
  | canonicalize (path : String)
  | reserveRemoteWrite (path : String)
  | symlinkMetadata (path : String)
  | openFile (path : String)
  | read (handle : String) (bytes : List UInt8)
  | openSftpRaw
  | init
  | create (path : String) (permissions : Option Nat)
  | write (handle : String) (offset : Nat) (chunk : List UInt8)
  | fsync (handle : String)
  | close (handle : String)
  | posixRename (source target : String)
  | removeFile (path : String)
  | closeSession

/-- The answer to a request that succeeds; of a rename, whether its status is that of a success. -/
def Request.Answer : Request → Type
  | .canonicalize _ | .openFile _ | .create _ _ => String
  | .symlinkMetadata _ => Metadata
  | .read _ _ => List UInt8
  | .init => String → Option String
  | .posixRename _ _ => Bool
  | _ => Unit

abbrev Reply (c : Request) : Type := Except String c.Answer

abbrev Script (α : Type) : Type := Prog Request Reply String α

def request (c : Request) : Script c.Answer := Prog.command c >>= Prog.ofExcept

/-! ## The save -/

variable (path : String)

def validatePath : Except String Unit :=
  if path.toList.head? ≠ some '/' ∨ '\x00' ∈ path.toList ∨
      (Pieces.pieces '/' path.toList).any fun p => p = ['.'] ∨ p = ['.', '.'] then
    .error "invalid-sftp-path"
  else .ok ()

/-- Reads until an empty answer, or until `limit` more bytes are there. -/
def readToEnd (handle : String) (limit : Nat) (bytes : List UInt8) : Script (List UInt8) :=
  if limit = 0 then pure bytes
  else do
    let chunk : List UInt8 ← request (.read handle bytes)
    if chunk = [] then pure bytes else readToEnd handle (limit - chunk.length) (bytes ++ chunk)
termination_by limit
decreasing_by
  have := List.length_pos_of_ne_nil ‹chunk ≠ []›
  omega

def readRegular : Script (List UInt8) := do
  let metadata : Metadata ← request (.symlinkMetadata path)
  if !metadata.regular then Prog.throw "sftp-not-regular-file"
  else if metadata.size.any (· > MAX_FILE_BYTES) then Prog.throw "file-too-large"
  else do
    let file : String ← request (.openFile path)
    let bytes ← readToEnd file (MAX_FILE_BYTES + 1) []
    if bytes.length > MAX_FILE_BYTES then Prog.throw "file-too-large" else pure bytes

def atomicReplace (source target : String) : Script Unit := do
  let status : Bool ← request (.posixRename source target)
  if status then pure () else Prog.throw "sftp-atomic-replace-failed"

/-- The chunks of what is left, the first of them with this index. -/
def writeChunks (handle : String) (index : Nat) (rest : List UInt8) : Script Unit :=
  if rest = [] then pure ()
  else do
    let _ ← request (.write handle (index * CHUNK) (rest.take CHUNK))
    writeChunks handle (index + 1) (rest.drop CHUNK)
termination_by rest.length
decreasing_by
  have := List.length_pos_of_ne_nil ‹rest ≠ []›
  simp only [List.length_drop, CHUNK]
  omega

def parentOf : Option String := (Git.splitLast '/' path.toList).map fun parts => String.ofList parts.1

def scratchPath (path uuid : String) : String := (parentOf path).getD "" ++ "/.yuzora-save-" ++ uuid

/-- A save: what it is called with, the hash, and a random name for the scratch file, which is not the target's. -/
structure Save where
  revision : List UInt8 → String
  uuid : String
  path : String
  content : List UInt8
  expected : String
  fresh : path ≠ scratchPath path uuid

namespace Save

variable (S : Save)

def scratch : String := scratchPath S.path S.uuid

/-- The check made before the save and again before the replacement. -/
def checkRevision : Script Unit := do
  let bytes ← readRegular S.path
  if S.revision bytes ≠ S.expected then Prog.throw "file-conflict" else pure ()

def writeContent (handle : String) (extensions : String → Option String) : Script Unit := do
  writeChunks handle 0 S.content
  if extensions "fsync@openssh.com" = some "1" then do
    let _ ← request (.fsync handle)
    pure ()
  else pure ()

def writeScratch (handle : String) (extensions : String → Option String) : Script Unit := do
  let written ← (S.writeContent handle extensions).attempt
  let closed ← (request (.close handle)).attempt
  Prog.ofExcept written
  Prog.ofExcept closed

def replaceContent (extensions : String → Option String) (canonical : String) : Script String := do
  let metadata : Metadata ← request (.symlinkMetadata S.path)
  let handle : String ← request (.create S.scratch (metadata.permissions.map (· &&& 0o777)))
  S.writeScratch handle extensions
  S.checkRevision
  let again : String ← request (.canonicalize S.path)
  if again ≠ canonical then Prog.throw "sftp-path-changed"
  else do
    atomicReplace S.scratch S.path
    pure (S.revision S.content)

/-- The part of a save that has a raw session. -/
def saveRaw (canonical : String) : Script String := do
  let extensions : String → Option String ← request .init
  if extensions "posix-rename@openssh.com" ≠ some "1" then do
    let _ ← (request .closeSession).attempt
    Prog.throw "sftp-atomic-replace-unavailable"
  else if (parentOf S.path).isNone then Prog.throw "invalid-sftp-path"
  else do
    let result ← (S.replaceContent extensions canonical).attempt
    let _ ← match result with
      | .error _ => (request (.removeFile S.scratch)).attempt
      | .ok _ => pure (.ok ())
    let _ ← (request .closeSession).attempt
    Prog.ofExcept result

def saveRemote : Script String := do
  Prog.ofExcept (validatePath S.path)
  if S.content.length > MAX_FILE_BYTES then Prog.throw "file-too-large"
  else do
    request .ensureSftp
    let canonical : String ← request (.canonicalize S.path)
    if canonical ≠ S.path then Prog.throw "sftp-path-changed"
    else do
      request (.reserveRemoteWrite canonical)
      S.checkRevision
      request .openSftpRaw
      let result ← (S.saveRaw canonical).attempt
      -- A raw session that is dropped is closed.
      let _ ← (request .closeSession).attempt
      Prog.ofExcept result

end Save

/-! ## The server -/

structure Server where
  files : String → Option (List UInt8)
  /-- The file that each handle for writing was given out for. -/
  handles : String → Option String
  /-- The raw session of the save is open. -/
  raw : Bool
  /-- The contents that reads saw to their end.  No request looks at these last three. -/
  seen : List (List UInt8)
  /-- A request to replace a file was sent. -/
  sent : Bool
  /-- A file that was there was not removed on request, or an open session not closed. -/
  unclean : Bool

def overwrite (bytes : List UInt8) (offset : Nat) (chunk : List UInt8) : List UInt8 :=
  bytes.take offset ++ List.replicate (offset - bytes.length) 0 ++ chunk ++ bytes.drop (offset + chunk.length)

/-- A request that changes nothing, whatever it is answered.  So is `close`: its handle is not used again. -/
def Request.asks : Request → Bool
  | .ensureSftp | .canonicalize _ | .reserveRemoteWrite _ | .symlinkMetadata _ | .openFile _ | .init | .fsync _
  | .close _ => true
  | _ => false

def Server.failing (s : Server) : Request → Server
  | .posixRename _ _ => { s with sent := true }
  | .removeFile path => { s with unclean := s.unclean || (s.files path).isSome }
  | .closeSession => { s with unclean := s.unclean || s.raw }
  | _ => s

/-- **What a request does and answers.**  Where `r` is any answer, it may be lost.  What is read may be any mixture of
what the others wrote. -/
inductive Exec : Server → (c : Request) → Reply c → Server → Prop
  | failed (s : Server) (c : Request) (error : String) : Exec s c (.error error) (s.failing c)
  | told (s : Server) (c : Request) (answer : c.Answer) : c.asks = true → Exec s c (.ok answer) s
  | read (s : Server) (handle : String) (bytes chunk : List UInt8) :
      Exec s (.read handle bytes) (.ok chunk) (if chunk = [] then { s with seen := bytes :: s.seen } else s)
  | openedRaw (s : Server) : Exec s .openSftpRaw (.ok ()) { s with raw := true }
  | created (s : Server) (path handle : String) (permissions : Option Nat) (r : Except String String) :
      s.files path = none → (∀ answer, r = .ok answer → answer = handle) →
      Exec s (.create path permissions) r
        { s with
          files := Function.update s.files path (some [])
          handles := Function.update s.handles handle (some path) }
  | wrote (s : Server) (handle path : String) (offset : Nat) (chunk bytes : List UInt8) (r : Except String Unit) :
      s.handles handle = some path → s.files path = some bytes →
      Exec s (.write handle offset chunk) r
        { s with files := Function.update s.files path (some (overwrite bytes offset chunk)) }
  | refused (s : Server) (source target : String) :
      Exec s (.posixRename source target) (.ok false) { s with sent := true }
  | renamed (s : Server) (source target : String) (bytes : List UInt8) (r : Except String Bool) :
      s.files source = some bytes →
      Exec s (.posixRename source target) r
        { s with files := Function.update (Function.update s.files source none) target (some bytes), sent := true }
  | removed (s : Server) (path : String) (r : Except String Unit) :
      Exec s (.removeFile path) r { s with files := Function.update s.files path none }
  | closedSession (s : Server) (r : Except String Unit) : Exec s .closeSession r { s with raw := false }

/-- Another client changes files, none of them the scratch file, whose name it does not know. -/
def Other (scratch : String) (s t : Server) : Prop :=
  ∃ files : String → Option (List UInt8), files scratch = s.files scratch ∧ t = { s with files := files }

/-- Closing a session is no request to the server: nobody comes in between a successful replacement and the return. -/
def last : (c : Request) → Reply c → Bool
  | .posixRename _ _, .ok status => status
  | .closeSession, _ => true
  | _, _ => false

def sftpWorld (scratch : String) : World Request Reply Server where
  exec := Exec
  other := Other scratch
  calm := last

end SftpSave
end Yuzora
