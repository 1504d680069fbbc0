import Yuzora.Crew
import Yuzora.GitText
import Yuzora.Table
/-!
# KnownHosts — host keys pinned on first use

`ssh_service`: the check of a presented host key against the `known_hosts` file, the challenge put to the user on first
contact, and the durable pin.  Every connect and every answer is a program; a command is one access to the file, one
section under a lock, or one step on a channel.  All processes share the file and the lock file beside it.
-/
namespace Yuzora
namespace KnownHosts

/-! ## Endpoints -/

def isOctet (piece : List Char) : Bool :=
  !piece.isEmpty && decide (piece.length ≤ 3) && piece.all Char.isDigit &&
    (decide (piece.length = 1) || decide (piece.head? ≠ some '0')) &&
      decide (piece.foldl (fun n c => 10 * n + (c.toNat - '0'.toNat)) 0 ≤ 255)

/-- `host.parse::<Ipv4Addr>()` succeeds. -/
def isIpv4 (host : List Char) : Bool :=
  decide ((Git.split '.' host).length = 4) && (Git.split '.' host).all isOctet

def unbracket (host : List Char) : List Char :=
  match host with
  | '[' :: inner => if inner.getLast? = some ']' then inner.dropLast else host
  | _ => host

def trimEndDots (host : List Char) : List Char := (host.reverse.dropWhile (· = '.')).reverse

/-- The key of the file for a host and its port.  Whatever parses as an `Ipv6Addr` holds a colon, so the colon decides. -/
def canonicalEndpoint (host : String) (port : UInt16) : String :=
  let host := unbracket (Git.trim host).toList
  if host.contains ':' then "[" ++ String.ofList (host.map Char.toLower) ++ "]:" ++ toString port
  else if isIpv4 host then String.ofList host ++ ":" ++ toString port
  else String.ofList ((trimEndDots host).map Char.toLower) ++ ":" ++ toString port

example : canonicalEndpoint " Build.Example. " 22 = "build.example:22" := by decide
example : canonicalEndpoint "[::1]" 22 = "[::1]:22" := by decide
example : canonicalEndpoint "10.0.0.7" 2222 = "10.0.0.7:2222" := by decide

/-! ## The store -/

abbrev Hosts := Table String String

/-- `serde_json` on a map of strings. -/
structure Serde where
  fromStr : String → Except String Hosts
  toStringPretty : Hosts → Except String String

/-- The file: absent, text, or bytes that are not UTF-8. -/
inductive Store
  | missing
  | text (content : String)
  | binary
  deriving DecidableEq

/-- How `read_to_string` fails. -/
inductive ReadError
  | notFound
  | other (message : String)
  deriving DecidableEq

def Store.Reads : Store → Except ReadError String → Prop
  | text content, .ok read => read = content
  | missing, .error .notFound => True
  | _, .error (.other _) => True
  | _, _ => False

variable (J : Serde)

def parseKnownHosts (content : String) : Except String Hosts :=
  if Git.trim content = "" then .ok .empty
  else (J.fromStr content).mapError fun e => "known_hosts 內容無法解析：" ++ e

def serializeKnownHosts (hosts : Hosts) : Except String String :=
  (J.toStringPretty hosts).mapError fun e => "無法序列化 known_hosts：" ++ e

structure Config where
  path : String
  parent : Option String
  challengeTimeout : Nat

/-- `read_known_hosts`, given what the read returned: a missing file is an empty store, anything else that is no map is
corrupt. -/
def readKnownHosts (config : Config) : Except ReadError String → Except String Hosts
  | .ok content => parseKnownHosts J content
  | .error .notFound => .ok .empty
  | .error (.other e) => .error ("無法讀取 known_hosts 檔案 " ++ config.path ++ "：" ++ e)

inductive HostKeyDecision
  | new
  | matched
  | changed
  deriving DecidableEq

def decideHostKey (pinned : Option String) (presented : String) : HostKeyDecision :=
  match pinned with
  | none => .new
  | some fp => if fp = presented then .matched else .changed

inductive HostKeyEval
  | matched
  | new
  | changed (previous : String)
  | corrupt (reason : String)
  deriving DecidableEq

def evaluateHostKey (read : Except String Hosts) (endpoint presented : String) : HostKeyEval :=
  match read with
  | .error reason => .corrupt reason
  | .ok hosts =>
    match decideHostKey (hosts.get endpoint) presented with
    | .changed => .changed ((hosts.get endpoint).getD "")
    | .matched => .matched
    | .new => .new

/-! ## Commands -/

/-- A server's key, by its algorithm and its SHA256 fingerprint. -/
structure PublicKey where
  algorithm : String
  fingerprint : String
  deriving DecidableEq

inductive SshHostKeyPrompt
  | new (challengeId host : String) (port : UInt16) (endpoint algorithm fingerprint : String)
  | changed (host : String) (port : UInt16) (endpoint algorithm fingerprint previousFingerprint : String)

inductive HostKeyAnswer
  | accept
  | reject
  deriving DecidableEq

/-- A challenge that waits for its answer.  `tx` is the sending end of a connection's oneshot channel, named by the
connection. -/
structure PendingHostKeyChallenge where
  connectionId : String
  endpoint : String
  algorithm : String
  fingerprint : String
  expiresAt : Nat
  tx : Nat
  deriving DecidableEq

/-- What `client::connect` returned: the endpoint it dialled, and the key its server presented. -/
structure Session where
  endpoint : String
  fingerprint : String
  deriving DecidableEq

/-- Which branch of `connect`'s select ends it. -/
inductive Selected
  | connectFut (transport : Option String)
  | connectDeadline
  | challengeDeadline

/-- Steps on files that nothing else depends on. -/
inductive IoOp
  | createDirAll | openLockFile | setRestrictivePermissions | syncFile | syncDir | removeFile

inductive Cmd
  | presented
  | readKnownHosts
  | emit (prompt : SshHostKeyPrompt)
  | newUuid
  | now
  | oneshot
  | insertPending (challengeId : String) (challenge : PendingHostKeyChallenge)
  | takePending (challengeId : String)
  | drainPending
  /-- `tokio::time::timeout(challenge_timeout, rx)`: the answer, or none when time is out or the sender is gone. -/
  | receive
  /-- `readAt` is the instant that the sender compared with the deadline, if it did. -/
  | send (challengeId : String) (challenge : PendingHostKeyChallenge) (readAt : Option Nat) (answer : HostKeyAnswer)
  | lockPersist
  | unlockPersist
  | lockFile
  | unlockFile
  /-- The lock file's handle is dropped. -/
  | closeLockFile
  | createTemp (contents : String)
  | rename
  | io (op : IoOp)
  | select
  | authenticate (session : Session)

def Reply : Cmd → Type
  | .presented => Option PublicKey
  | .readKnownHosts => Except ReadError String
  | .newUuid => String
  | .now | .oneshot => Nat
  | .takePending _ => Option PendingHostKeyChallenge
  | .drainPending => List (String × PendingHostKeyChallenge)
  | .receive => Option HostKeyAnswer
  | .send _ _ _ _ | .lockPersist | .lockFile | .unlockFile | .createTemp _ | .rename | .io _ => Except String Unit
  | .select => Selected
  | .authenticate _ => Except String Bool
  | _ => Unit

/-- What came of a job. -/
structure SshConnectResult where
  fingerprint : String
  knownHost : Bool

/-! ## Programs -/

abbrev Run (α : Type) := Prog Cmd Reply String α

def tell (c : Cmd) : Run (Reply c) := Prog.command c

def attempted (step : Run (Except String Unit)) (context : String) : Run Unit := do
  let result ← step
  Prog.ofExcept (result.mapError (context ++ ·))

def io (op : IoOp) (context : String) : Run Unit := attempted (tell (.io op)) context

def orElseError {α : Type} (value : Option α) (error : String) : Run α :=
  match value with
  | some a => pure a
  | none => Prog.throw error

/-- Temporary file in the same directory, permissions, sync, rename, sync of the directory. -/
def persistTemp : Run Unit := do
  io .setRestrictivePermissions "無法設定 known_hosts 權限："
  io .syncFile "無法同步 known_hosts 暫存檔："
  attempted (tell .rename) "無法寫入 known_hosts："
  io .syncDir "無法同步 known_hosts 目錄："

def removeTempOnError : Except String Unit → Run Unit
  | .ok () => pure ()
  | .error e => do
    let _ ← tell (.io .removeFile)
    Prog.throw e

def persistKnownHosts (config : Config) (hosts : Hosts) : Run Unit := do
  let _ ← orElseError config.parent "known_hosts 路徑沒有父目錄"
  io .createDirAll "無法建立 known_hosts 目錄："
  let body ← Prog.ofExcept (serializeKnownHosts J hosts)
  attempted (tell (.createTemp body)) "無法寫入 known_hosts 暫存檔："
  let persistResult ← persistTemp.attempt
  removeTempOnError persistResult

def acquireKnownHostsFileLock (config : Config) : Run Unit := do
  let _ ← orElseError config.parent "known_hosts 路徑沒有父目錄"
  io .createDirAll "無法建立 known_hosts 目錄："
  io .openLockFile "無法開啟 known_hosts 鎖定檔："
  attempted (tell .lockFile) "無法鎖定 known_hosts："

def mergePin (config : Config) (endpoint fingerprint : String) (hosts : Hosts) : Run Unit :=
  match hosts.get endpoint with
  | some existing =>
    if existing ≠ fingerprint then Prog.throw ("主機 " ++ endpoint ++ " 已釘選不同的 fingerprint，拒絕覆寫")
    else pure ()
  | none => persistKnownHosts J config (hosts.insert endpoint fingerprint)

def pinTransaction (config : Config) (endpoint fingerprint : String) : Run Unit := do
  let read ← tell .readKnownHosts
  let hosts ← Prog.ofExcept (readKnownHosts J config read)
  mergePin J config endpoint fingerprint hosts

/-- `KnownHostsFileLock::release`, with the drop that follows it. -/
def releaseFileLock : Run Unit := do
  let released ← (attempted (tell .unlockFile) "無法解除 known_hosts 鎖定：").attempt
  let _ ← tell .closeLockFile
  Prog.ofExcept released

def joinResults : Except String Unit → Except String Unit → Except String Unit
  | .ok (), .ok () => .ok ()
  | .error error, .ok () => .error error
  | .ok (), .error error => .error error
  | .error error, .error releaseError => .error (error ++ "; " ++ releaseError)

/-- What `persist_accepted_pin` does under the process's own lock. -/
def persistGuarded (config : Config) (endpoint fingerprint : String) : Run Unit := do
  acquireKnownHostsFileLock config
  let transaction ← (pinTransaction J config endpoint fingerprint).attempt
  let release ← releaseFileLock.attempt
  Prog.ofExcept (joinResults transaction release)

def persistAcceptedPin (config : Config) (endpoint fingerprint : String) : Run Unit := do
  let locked : Except String Unit ← tell .lockPersist
  Prog.ofExcept (locked.mapError fun _ => "known_hosts 寫入鎖已損壞")
  let result ← (persistGuarded J config endpoint fingerprint).attempt
  let _ ← tell .unlockPersist
  Prog.ofExcept result

variable (challengeId : String)

def answered : Option HostKeyAnswer → Run Bool
  | some .accept => pure true
  | _ => do
    let _ ← tell (.takePending challengeId)
    pure false

def challengeAndWait (config : Config) (connectionId host : String) (port : UInt16) (endpoint : String)
    (key : PublicKey) : Run Bool := do
  let challengeId ← tell .newUuid
  let tx ← tell .oneshot
  let now : Nat ← tell .now
  let _ ← tell (.insertPending challengeId
    ⟨connectionId, endpoint, key.algorithm, key.fingerprint, now + config.challengeTimeout, tx⟩)
  let _ ← tell (.emit (.new challengeId host port endpoint key.algorithm key.fingerprint))
  let decision ← tell .receive
  answered challengeId decision

/-- What `check_server_key` records for the connect around it. -/
structure CheckOutcome where
  fingerprint : Option String := none
  known : Bool := false
  changed : Bool := false
  previousFingerprint : Option String := none
  challengeDenied : Bool := false
  persistFailed : Option String := none
  corrupt : Option String := none

def pinned (fp : String) : Except String Unit → Bool × CheckOutcome
  | .ok () => (true, { fingerprint := some fp })
  | .error reason => (false, { fingerprint := some fp, persistFailed := some reason })

def pinIfAccepted (config : Config) (endpoint fp : String) : Bool → Run (Bool × CheckOutcome)
  | false => pure (false, { fingerprint := some fp, challengeDenied := true })
  | true => do
    let result ← (persistAcceptedPin J config endpoint fp).attempt
    pure (pinned fp result)

def actOn (config : Config) (connectionId host : String) (port : UInt16) (endpoint : String)
    (key : PublicKey) : HostKeyEval → Run (Bool × CheckOutcome)
  | .corrupt reason => pure (false, { fingerprint := some key.fingerprint, corrupt := some reason })
  | .changed previous => do
    let _ ← tell (.emit (.changed host port endpoint key.algorithm key.fingerprint previous))
    pure (false,
      { fingerprint := some key.fingerprint, previousFingerprint := some previous, changed := true })
  | .matched => pure (true, { fingerprint := some key.fingerprint, known := true })
  | .new => do
    let accepted ← challengeAndWait config connectionId host port endpoint key
    pinIfAccepted J config endpoint key.fingerprint accepted

def checkServerKey (config : Config) (connectionId host : String) (port : UInt16) (key : PublicKey) :
    Run (Bool × CheckOutcome) := do
  let read ← tell .readKnownHosts
  actOn J config connectionId host port (canonicalEndpoint host port) key
    (evaluateHostKey (readKnownHosts J config read) (canonicalEndpoint host port) key.fingerprint)

def hostKeyFailureMessage (host : String) (port : UInt16) (outcome : CheckOutcome) (transport : String) : String :=
  let endpoint := canonicalEndpoint host port
  match outcome.corrupt with
  | some reason => "known_hosts 檔案損毀，連線已中止（" ++ reason ++ "）；請修復或重設 ~/.yuzora/known_hosts.json 後再試"
  | none =>
    if outcome.changed then
      "主機金鑰驗證失敗：" ++ endpoint ++ " 的 fingerprint 已變更。已記錄：" ++ outcome.previousFingerprint.getD "（未知）"
        ++ "；目前：" ++ outcome.fingerprint.getD "（未知）" ++ "。連線已中止（伺服器金鑰可能已更換，或遭到中間人攻擊）"
    else
      match outcome.persistFailed with
      | some reason => "無法保存主機金鑰，連線已中止（" ++ reason ++ "）"
      | none =>
        if outcome.challengeDenied then "使用者拒絕或逾時未確認主機金鑰，連線已中止（" ++ endpoint ++ "）"
        else "無法連線到 " ++ endpoint ++ "：" ++ transport

/-- The handshake: `client::connect` runs `check_server_key` on the key that the server presents. -/
def handshake (config : Config) (connectionId host : String) (port : UInt16) :
    Option PublicKey → Run (Bool × CheckOutcome)
  | none => pure (false, {})
  | some key => checkServerKey J config connectionId host port key

def authenticated (fingerprint : String) (outcome : CheckOutcome) : Except String Bool → Run SshConnectResult
  | .error e => Prog.throw e
  | .ok false => Prog.throw "SSH 認證失敗：帳號、密碼或金鑰不正確"
  | .ok true => pure ⟨outcome.fingerprint.getD fingerprint, outcome.known⟩

/-- The connect after its select.  `client::connect` returns a session only if the key was there and checked. -/
def afterSelect (host : String) (port : UInt16) (key : Option PublicKey) (checked : Bool × CheckOutcome) :
    Selected → Run SshConnectResult
  | .connectDeadline => Prog.throw ("連線逾時：" ++ canonicalEndpoint host port ++ " 在 10 秒內沒有回應")
  | .challengeDeadline =>
    Prog.throw ("使用者拒絕或逾時未確認主機金鑰，連線已中止（" ++ canonicalEndpoint host port ++ "）")
  | .connectFut (some transport) => Prog.throw (hostKeyFailureMessage host port checked.2 transport)
  | .connectFut none =>
    match key, checked.1 with
    | some key, true => do
      let result ← tell (.authenticate ⟨canonicalEndpoint host port, key.fingerprint⟩)
      authenticated key.fingerprint checked.2 result
    | _, _ => Prog.throw (hostKeyFailureMessage host port checked.2 "Unknown server key")

/-- The handler runs on beside the select, so what a deadline cuts off is only seen after it: the select may still end
either way. -/
def connect (config : Config) (host : String) (port : UInt16) : Run SshConnectResult := do
  let connectionId ← tell .newUuid
  let key ← tell .presented
  let checked ← handshake J config connectionId host port key
  let selected ← tell .select
  afterSelect host port key checked selected

/-- `respond` with the challenge it took. -/
def answer (accept : Bool) (endpoint fingerprint : String) (pending : PendingHostKeyChallenge) :
    Run Unit := do
  let now : Nat ← tell .now
  if now > pending.expiresAt then do
    let _ ← tell (.send challengeId pending (some now) .reject)
    Prog.throw "主機金鑰確認已過期"
  else if pending.endpoint ≠ endpoint ∨ pending.fingerprint ≠ fingerprint then do
    let _ ← tell (.send challengeId pending (some now) .reject)
    Prog.throw "主機金鑰確認與連線不符"
  else do
    let sent : Except String Unit ← tell (.send challengeId pending (some now) (if accept then .accept else .reject))
    Prog.ofExcept (sent.mapError fun _ => "主機金鑰確認已結束")

def respond (accept : Bool) (endpoint fingerprint : String) : Run Unit := do
  let taken : Option PendingHostKeyChallenge ← tell (.takePending challengeId)
  let pending ← orElseError taken "主機金鑰確認已失效、過期或重複送出"
  answer challengeId accept endpoint fingerprint pending

def rejectEach : List (String × PendingHostKeyChallenge) → Run Unit
  | [] => pure ()
  | (challengeId, pending) :: rest => do
    let _ ← tell (.send challengeId pending none .reject)
    rejectEach rest

def rejectAllPending : Run Unit := do
  let drained ← tell .drainPending
  rejectEach drained

/-! ## The processes -/

/-- A oneshot channel, seen from its receiver. -/
inductive Channel
  | unused
  | waiting
  | filled (answer : HostKeyAnswer)
  | closed
  deriving DecidableEq

/-- What happened.  No command reads it. -/
inductive Event
  | presented (id : Nat) (fingerprint : String)
  | read (id : Nat) (store : Store) (reply : Except ReadError String)
  | clock (id : Nat) (at_ : Nat)
  | issued (id : Nat) (challengeId : String) (challenge : PendingHostKeyChallenge)
  | accepted (id : Nat) (challengeId : String) (challenge : PendingHostKeyChallenge) (at_ : Nat)

def Event.actor : Event → Nat
  | presented id _ | read id _ _ | clock id _ | issued id _ _ | accepted id _ _ _ => id

/-- The shared file and its lock, each process's mutex and pending challenges, each connection's channel and temporary
file (under a name that only it knows), and the clock. -/
structure State where
  store : Store
  fileLock : Option Nat
  persistLock : Nat → Option Nat
  pending : Nat → Table String PendingHostKeyChallenge
  channel : Nat → Channel
  temp : Nat → Option String
  now : Nat
  journal : List Event

def State.start (store : Store) (now : Nat) : State :=
  ⟨store, none, fun _ => none, fun _ => .empty, fun _ => .unused, fun _ => none, now, []⟩

namespace State

variable (s : State)

def log (e : Event) : State := { s with journal := s.journal ++ [e] }

variable (id : Nat)

def setChannel (c : Channel) : State := { s with channel := Function.update s.channel id c }

def setPending (process : Nat) (table : Table String PendingHostKeyChallenge) : State :=
  { s with pending := Function.update s.pending process table }

def setPersistLock (process : Nat) (owner : Option Nat) : State :=
  { s with persistLock := Function.update s.persistLock process owner }

def setTemp (contents : Option String) : State :=
  { s with temp := Function.update s.temp id contents }

def releaseFile : State :=
  { s with fileLock := if s.fileLock = some id then none else s.fileLock }

def replace (contents : String) : State :=
  { s with store := .text contents, temp := Function.update s.temp id none }

end State

inductive Job
  | connect (process : Nat) (host : String) (port : UInt16)
  | respond (process : Nat) (challengeId : String) (accept : Bool) (endpoint fingerprint : String)
  | rejectAllPending (process : Nat)

def Job.process : Job → Nat
  | connect process _ _ | respond process _ _ _ _ | rejectAllPending process => process

inductive Outcome
  | connected (result : SshConnectResult)
  | responded

def Exec (id process : Nat) (s : State) : (c : Cmd) → Reply c → State → Prop
  | .presented, none, t => t = s
  | .presented, some key, t => t = s.log (.presented id key.fingerprint)
  | .readKnownHosts, r, t => s.store.Reads r ∧ t = s.log (.read id s.store r)
  | .emit _, _, t => t = s
  | .newUuid, _, t => t = s
  | .now, r, t => r = s.now ∧ t = s.log (.clock id s.now)
  | .oneshot, r, t => r = id ∧ t = s.setChannel id .waiting
  | .insertPending challengeId challenge, _, t =>
    t = (s.setPending process ((s.pending process).insert challengeId challenge)).log (.issued id challengeId challenge)
  | .takePending challengeId, r, t =>
    r = (s.pending process).get challengeId ∧ t = s.setPending process ((s.pending process).erase challengeId)
  | .drainPending, r, t => r.Perm (s.pending process).entries ∧ t = s.setPending process .empty
  | .receive, none, t => t = s.setChannel id .closed
  | .receive, some a, t => s.channel id = .filled a ∧ t = s.setChannel id .closed
  | .send challengeId challenge readAt a, .ok _, t => s.channel challenge.tx = .waiting ∧
    t = match readAt, a with
      | some at_, .accept => (s.setChannel challenge.tx (.filled a)).log (.accepted id challengeId challenge at_)
      | _, _ => s.setChannel challenge.tx (.filled a)
  | .send _ challenge _ _, .error _, t => s.channel challenge.tx ≠ .waiting ∧ t = s
  | .lockPersist, .ok _, t => s.persistLock process = none ∧ t = s.setPersistLock process (some id)
  | .lockPersist, .error _, t => t = s
  | .unlockPersist, _, t => t = s.setPersistLock process none
  | .lockFile, .ok _, t => s.fileLock = none ∧ t = { s with fileLock := some id }
  | .lockFile, .error _, t => t = s
  | .unlockFile, .ok _, t => t = s.releaseFile id
  | .unlockFile, .error _, t => t = s ∨ t = s.releaseFile id
  | .closeLockFile, _, t => t = s.releaseFile id
  | .createTemp contents, .ok _, t => t = s.setTemp id (some contents)
  -- some of it may have been written
  | .createTemp _, .error _, t => ∃ part, t = s.setTemp id part
  | .rename, .ok _, t => ∃ contents, s.temp id = some contents ∧ t = s.replace id contents
  -- a failed rename is not known to have left the store as it was
  | .rename, .error _, t => t = s ∨ ∃ contents, s.temp id = some contents ∧ t = s.replace id contents
  | .io _, _, t => t = s
  | .select, _, t => t = s
  | .authenticate _, _, t => t = s

/-- The guards and the receiver of a thread that is gone are dropped. -/
def dropThread (id process : Nat) (s : State) : State :=
  let s := s.releaseFile id
  let s := if s.persistLock process = some id then s.setPersistLock process none else s
  s.setChannel id .closed

/-- Every process's connects and answers, at any time, in any order. -/
def crew (config : Config) : Crew Cmd Reply String Outcome State Job where
  start
    | .connect _ host port => Outcome.connected <$> connect J config host port
    | .respond _ challengeId accept endpoint fingerprint =>
      (fun _ => Outcome.responded) <$> respond challengeId accept endpoint fingerprint
    | .rejectAllPending _ => (fun _ => Outcome.responded) <$> rejectAllPending
  exec id job := Exec id job.process
  drift s t := ∃ now, s.now ≤ now ∧ t = { s with now }
  drop id job := dropThread id job.process
  gone := ""

end KnownHosts
end Yuzora
