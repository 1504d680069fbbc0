import Yuzora.Threads
import Yuzora.CompanionManager
/-!
# CompanionPrograms — what the supervisor's callers do

Every operation is a program whose commands are one lock-protected step each; a task that is spawned is a program of its
own.  Lines and exits come from any generation at any time.
-/
namespace Yuzora
namespace Companion

/-! ## Commands -/

inductive Command
  | decideStart
  | spawnChild
  | startFailed (expected : Nat) (code : String)
  | record (init : Json) (expected : Nat) (devices : Devices)
  | beginTask (task : Task)
  | spawnTask (task : Task)
  | watchdogFires (generation : Nat)
  | closing
  | kill (generation : Nat)
  | sendShutdown (generation : Nat)
  | lockStore
  | unlockStore
  | heard (generation : Nat)
  | storeDevice (device : Json)
  | removeDevice (id : String)
  | applyFrame (frame : Json)
  | forget (id : String)
  | known (id : String)
  | unsubscribe (device endpoint : String)
  | subscribe (device : String) (value : Json)
  | halt (code : String)
  | resolve (test : Want → Bool) (event : Json)
  | deferred (event : Json)
  | ready (event : Json)
  | snapshot (event : Json)
  | failure (code : String)
  | write (generation : Nat) (frame : Json)
  | notify (frame : Json)
  | notifyDevices
  | overview
  | emit (event : Json)
  | markExited (generation : Nat)
  | handleExit (generation : Nat)
  | stopped
  | beginStop
  | waitExited (generation : Nat)
  | failLive (code : String)
  | clearStale
  | lockCommands
  | unlockCommands
  | sendRequest (request : Json) (want : Want)
  | waitReply (slot : Nat)
  | timeOut (generation : Nat)
  | sendPeers
  | waitPeers (slot : Nat)
  | removePeer (id : Nat)
  | idle
  | editFile (frame : Json)

abbrev Halted : Type := Option Nat × Status

def Reply : Command → Type
  | .decideStart => Except String Nat
  | .spawnChild => Except String Devices
  | .startFailed _ _ => Bool
  | .record _ _ _ => Except String Nat
  | .watchdogFires _ => Option Halted
  | .heard _ => Bool
  | .storeDevice _ => Except String Unit
  | .removeDevice _ => Except String Unit
  | .applyFrame _ => Except String Unit
  | .forget _ => Bool
  | .known _ => Bool
  | .unsubscribe _ _ => Bool
  | .subscribe _ _ => Bool
  | .halt _ => Halted
  | .deferred _ => Option Json
  | .ready _ => Option Halted
  | .overview => Json
  | .handleExit _ => Option (Status × Bool)
  | .beginStop => Option (Nat × Bool)
  | .waitExited _ => Bool
  | .failLive _ => Option Halted
  | .clearStale => Bool
  | .sendRequest _ _ => Except String (Nat × Nat)
  | .waitReply _ => Option (Option (Except String Json))
  | .timeOut _ => Option Halted
  | .sendPeers => Except String (Nat × Nat)
  | .waitPeers _ => Option (Option Json)
  | .idle => Bool
  | .editFile _ => Except String Unit
  | _ => Unit

/-- What is not decided here: whether a file can be read and written, a process be created and written to, and the time. -/
structure Chance where
  load : Except String Unit
  spawns : Except String Unit
  write : Except String Unit
  inputOpen : Bool
  now : String

variable (outside : Outside)

def perform (chance : Chance) (state : Shared) : (command : Command) → Reply command × Shared
  | .decideStart => decideStart state
  | .spawnChild =>
    (match chance.load, chance.spawns with
      | .error code, _ => .error code
      | .ok (), .error code => .error code
      | .ok (), .ok () => .ok state.disk, state)
  | .startFailed expected code => startFailed expected code state
  | .record init expected devices => record init expected devices state
  | .beginTask task => ((), { state with tasks := state.tasks.erase task })
  | .spawnTask task => ((), { state with tasks := state.tasks ++ [task] })
  | .watchdogFires generation => watchdogFires generation state
  | .closing => ((), state)
  | .kill generation => ((), { state with killed := generation :: state.killed })
  | .sendShutdown generation =>
    ((), if state.inner.process.isSome && state.inner.generation = generation then send generation SHUTDOWN_FRAME state
      else state)
  | .lockStore => ((), { state with locked := true })
  | .unlockStore => ((), { state with locked := false })
  | .heard generation => (heard generation state, state)
  | .storeDevice device => storeChange (upsert chance.write device) state
  | .removeDevice id => storeChange (remove chance.write id) state
  | .applyFrame frame => storeChange (apply outside chance.write frame) state
  | .forget id => pushChange (forget chance.write id) state
  | .known id => (knownDevice id state, state)
  | .unsubscribe device endpoint => pushChange (unsubscribe outside chance.write device endpoint) state
  | .subscribe device value => pushChange (subscribe outside chance.write chance.now device value) state
  | .halt code => halted code state
  | .resolve test event => ((), resolve test (.ok event) state)
  | .deferred event => (deferredFrame event state, state)
  | .ready event => becomeReady event state
  | .snapshot event => ((), peersSnapshot outside event state)
  | .failure code => ((), gatewayError code state)
  | .write generation frame => ((), send generation frame state)
  | .notify frame => ((), notify frame state)
  | .notifyDevices => ((), notify (frame "push.devices" [("devices", listing outside state.push)]) state)
  | .overview => (pushEvent state, state)
  | .emit _ => ((), state)
  | .markExited generation => ((), { state with exited := generation :: state.exited })
  | .handleExit generation => handleExit generation state
  | .stopped => ((), state)
  | .beginStop => beginStop state
  | .waitExited generation => (decide (generation ∈ state.exited), state)
  | .failLive code => failLive code state
  | .clearStale => clearStale state
  | .lockCommands => ((), { state with commands := true })
  | .unlockCommands => ((), { state with commands := false })
  | .sendRequest request want => sendRequest chance.inputOpen request want state
  | .waitReply slot => (state.replies.get slot, state)
  | .timeOut generation => timeOut generation state
  | .sendPeers => sendPeers chance.inputOpen state
  | .waitPeers slot => (state.answers.get slot, state)
  | .removePeer id => ((), removePeer id state)
  | .idle =>
    (state.inner.process.isNone && (state.inner.status = .disabled || state.inner.status.isFailed), state)
  | .editFile frame =>
    match chance.load with
    | .error code => (.error code, state)
    | .ok () =>
      match apply outside chance.write frame state.disk with
      | .error code => (.error code, state)
      | .ok devices => (.ok (), { state with disk := devices })

abbrev M (α : Type) : Type := Prog Command Reply String α

def tell (command : Command) : M (Reply command) := Prog.command command

def startDecided : M (Except String Nat) := tell .decideStart
def spawnChild : M (Except String Devices) := tell .spawnChild
def startHasFailed (expected : Nat) (code : String) : M Bool := tell (.startFailed expected code)
def recorded (init : Json) (expected : Nat) (devices : Devices) : M (Except String Nat) :=
  tell (.record init expected devices)

variable (generation : Nat)

def watchdogFired : M (Option Halted) := tell (.watchdogFires generation)
def isHeard : M Bool := tell (.heard generation)
def storeDevice (device : Json) : M (Except String Unit) := tell (.storeDevice device)
def removeDevice (id : String) : M (Except String Unit) := tell (.removeDevice id)
def applyFrame (frame : Json) : M (Except String Unit) := tell (.applyFrame frame)
def forgotten (id : String) : M Bool := tell (.forget id)
def isKnown (id : String) : M Bool := tell (.known id)
def unsubscribed (device endpoint : String) : M Bool := tell (.unsubscribe device endpoint)
def subscribed (device : String) (value : Json) : M Bool := tell (.subscribe device value)

variable (code : String)

def haltWith : M Halted := tell (.halt code)

variable (event : Json)

def askDeferred : M (Option Json) := tell (.deferred event)
def makeReady : M (Option Halted) := tell (.ready event)
def askOverview : M Json := tell .overview
def exitHandled : M (Option (Status × Bool)) := tell (.handleExit generation)
def stopBegun : M (Option (Nat × Bool)) := tell .beginStop
def hasExited : M Bool := tell (.waitExited generation)
def failedLive : M (Option Halted) := tell (.failLive code)
def clearedStale : M Bool := tell .clearStale
def requestSent (request : Json) (want : Want) : M (Except String (Nat × Nat)) := tell (.sendRequest request want)
def awaitReply (slot : Nat) : M (Option (Option (Except String Json))) := tell (.waitReply slot)
def timedOut : M (Option Halted) := tell (.timeOut generation)
def peersSent : M (Except String (Nat × Nat)) := tell .sendPeers
def awaitPeers (slot : Nat) : M (Option (Option Json)) := tell (.waitPeers slot)
def isIdle : M Bool := tell .idle
def editFile (frame : Json) : M (Except String Unit) := tell (.editFile frame)

/-! ## Programs -/

structure Launch where
  init : Json

/-- `kill_after_closing`. -/
def killAfterClosing (kill : Option Nat) : M Unit :=
  match kill with
  | none => pure ()
  | some generation => tell (.spawnTask (.killAfterClosing generation))

/-- What follows a halt: its status is published, and its handle handed on. -/
def publishHalt (halted : Halted) : M Unit := do
  tell (.emit (statusEvent halted.2))
  killAfterClosing halted.1

def publishHalted (halted : Option Halted) : M Unit :=
  match halted with
  | none => pure ()
  | some halted => publishHalt halted

/-- `start` and `spawn`. -/
def start (launch : Launch) : M Json := do
  match ← startDecided with
  | .error code => Prog.throw code
  | .ok expected => do
    tell (.emit (statusEvent .starting))
    match ← spawnChild with
    | .error code => do
      if ← startHasFailed expected code then
        tell (.emit (statusEvent (.failed code)))
        Prog.throw code
      else Prog.throw code
    | .ok devices =>
      match ← recorded launch.init expected devices with
      | .error code => Prog.throw code
      | .ok generation => do
        tell (.spawnTask (.watchdog generation))
        tell (.write generation (launch.init.set "devices" (.array devices)))
        pure .null

def runTask : Task → M Json
  | .killAfterClosing generation => do
    tell (.beginTask (.killAfterClosing generation))
    tell .closing
    tell (.kill generation)
    pure .null
  | .shutdownAfterClosing generation => do
    tell (.beginTask (.shutdownAfterClosing generation))
    tell .closing
    tell (.sendShutdown generation)
    pure .null
  | .watchdog generation => do
    tell (.beginTask (.watchdog generation))
    publishHalted (← watchdogFired generation)
    pure .null

/-! ### Events -/

/-- What an event leaves to do once the device list is free: what to emit, a handle to kill with, an expiry. -/
structure Leaves where
  outgoing : List Json
  kill : Option Nat
  expiring : Bool

def Leaves.tells : Leaves := ⟨[event], none, false⟩
def Leaves.halts (halted : Halted) : Leaves := ⟨[statusEvent halted.2], halted.1, false⟩
def Leaves.nothing : Leaves := ⟨[], none, false⟩

def kindOf : String := ((event.get "type").asStr).getD ""

def reports (kind id : String) (event : Json) : Want → Bool
  | .device wanted done frame =>
    wanted = id && done = kind && (kind ≠ "device.updated" || reflects outside frame (event.get "device"))
  | _ => false

def defersDevice : Want → Bool
  | .device id _ frame => id = ((event.get "target").asStr).getD "" && (frame.get "type").beq (event.get "command")
  | _ => false

def defersDecision : Want → Bool
  | .decision id kind => id = ((event.get "target").asStr).getD "" && (event.get "command").beq (.string kind)
  | _ => false

def createsPairing : Want → Bool
  | .pairing => true
  | _ => false

variable (kind : String)

/-- A `pairing.state` is this decision's outcome. -/
def decided (event : Json) : Bool :=
  if kind = "pairing.approve" then (event.get "state").beq (.string "approved")
  else if kind = "pairing.reject" then
    (event.get "state").beq (.string "rejected") && (event.get "reason").beq (.string "rejected")
  else if kind = "pairing.cancel" then
    (event.get "state").beq (.string "rejected") && (event.get "reason").beq (.string "cancelled")
  else false

def decides : Want → Bool
  | .decision wanted kind => wanted = ((event.get "pairingId").asStr).getD "" && decided kind event
  | _ => false

/-- A device change that is not on disk would come back at the next start: the gateway is halted. -/
def settle (id : Option String) (event : Json) (saved : Except String Unit)
    (unsubscribed : Bool) : M Leaves :=
  match saved with
  | .error code => do
    let halted ← haltWith code
    pure (.halts halted)
  | .ok () => do
    tell (.resolve (reports outside kind (id.getD "") event) event)
    let report := if kind = "device.revoked" then event
      else .object [("type", .string kind), ("device", deviceSummary (event.get "device"))]
    if unsubscribed then
      let overview ← askOverview
      pure ⟨[report, overview], none, false⟩
    else pure (.tells report)

/-- `device.registered`, `device.updated` and `device.revoked`. -/
def handleDevice (event : Json) : M Leaves :=
  if kind = "device.revoked" then
    match (event.get "deviceId").asStr with
    | none => settle outside kind none event (.error "companion-device-invalid") false
    | some id => do
      match ← removeDevice id with
      | .error code => settle outside kind (some id) event (.error code) false
      | .ok () => do
        let unsubscribed ← forgotten id
        settle outside kind (some id) event (.ok ()) unsubscribed
  else
    match deviceId (event.get "device") with
    | none => settle outside kind none event (.error "companion-device-invalid") false
    | some id => do
      let saved ← storeDevice (event.get "device")
      settle outside kind (some id) event saved false

/-- The gateway already applied a change but could not report it yet: it is persisted now. -/
def handleDeferred : M Leaves := do
  match ← askDeferred event with
  | some frame => do
    match ← applyFrame frame with
    | .error code => do
      let halted ← haltWith code
      pure ⟨[statusEvent halted.2, event], halted.1, false⟩
    | .ok () => do
      tell (.resolve (defersDevice event) event)
      pure (.tells event)
  | none => do
    tell (.resolve (defersDecision event) event)
    pure (.tells event)

/-- Where a change of subscriptions is told, and the gateway's question answered. -/
def acknowledge (changed : Bool) (outgoing : List Json) : M Leaves :=
  match (event.get "requestId").asU64 with
  | none => pure ⟨outgoing, none, false⟩
  | some id => do
    tell (.notify (frame "push.ack" [("requestId", .integer id), ("stored", .bool changed)]))
    pure ⟨outgoing, none, false⟩

def settleSubscription (changed : Bool) : M Leaves :=
  if changed then do
    tell .notifyDevices
    let overview ← askOverview
    acknowledge event changed [overview]
  else acknowledge event changed []

/-- `push.subscription`: kept here, never forwarded. -/
def handleSubscription : M Leaves := do
  let id := ((event.get "deviceId").asStr).getD ""
  if ← isKnown id then
    if (event.get "subscription").isNull then
      match (event.get "endpointId").asStr with
      | none => settleSubscription event false
      | some endpoint => do settleSubscription event (← unsubscribed id endpoint)
    else do settleSubscription event (← subscribed id (event.get "subscription"))
  else settleSubscription event false

/-- The events that one lock of `Inner` handles. -/
def handleOther (event : Json) : M Leaves :=
  if kind = "ready" then do
    match ← makeReady event with
    | some halted => pure (.halts halted)
    | none => pure (.tells event)
  else if kind = "peers.snapshot" then do
    tell (.snapshot event)
    pure .nothing
  else if kind = "pairing.created" then do
    tell (.resolve createsPairing event)
    pure .nothing
  else if kind = "pairing.state" then do
    tell (.resolve (decides event) event)
    pure (.tells event)
  else if kind = "error" then do
    let code := ((event.get "code").asStr).getD "companion-error"
    tell (.failure code)
    pure ⟨[.object [("type", .string "error"), ("code", .string code)]], none, code = "policy-expired"⟩
  else pure (.tells event)

/-- The event under the lock of the device list; the senders that `push.request` starts are not of this process. -/
def handleEvent (event : Json) : M Leaves :=
  let kind := kindOf event
  if kind = "device.registered" ∨ kind = "device.updated" ∨ kind = "device.revoked" then handleDevice outside kind event
  else if kind = "command.deferred" then handleDeferred event
  else if kind = "push.subscription" then handleSubscription event
  else if kind = "push.request" then pure .nothing
  else handleOther kind event

def emitAll : List Json → M Unit
  | [] => pure ()
  | event :: rest => do
    tell (.emit event)
    emitAll rest

/-- `on_event`. -/
def onEvent (generation : Nat) (event : Json) : M Json := do
  tell .lockStore
  if ← isHeard generation then
    let leaves ← handleEvent outside event
    tell .unlockStore
    emitAll leaves.outgoing
    killAfterClosing leaves.kill
    if leaves.expiring then
      tell (.spawnTask (.shutdownAfterClosing generation))
      pure .null
    else pure .null
  else
    tell .unlockStore
    pure .null

/-! ### The other callers -/

/-- The end of the task that waits for the process, and `on_exit`. -/
def onExit : M Json := do
  tell (.markExited generation)
  match ← exitHandled generation with
  | none => pure .null
  | some (status, stopped) => do
    tell (.emit (statusEvent status))
    if stopped then
      tell .stopped
      pure .null
    else pure .null

/-- `stop`: shutdown frame, bounded wait, then kill. -/
def stop : M Json := do
  match ← stopBegun with
  | none => do
    tell (.emit (statusEvent .disabled))
    pure .null
  | some (generation, kill) => do
    tell (.emit (statusEvent .stopping))
    if ← hasExited generation then pure .null
    else if kill then
      tell (.kill generation)
      let _ ← hasExited generation
      pure .null
    else
      let _ ← hasExited generation
      pure .null

/-- `fail`. -/
def fail : M Json := do
  publishHalted (← failedLive code)
  pure .null

def clearFailure : M Json := do
  if ← clearedStale then
    tell (.emit (statusEvent .disabled))
    pure .null
  else pure .null

def finishTurn (result : Except String Json) : M Json := do
  tell .unlockCommands
  Prog.ofExcept result

/-- `request`: one at a time, the answer matched by its event, or the next error. -/
def request (command : Json) (want : Want) : M Json := do
  tell .lockCommands
  match ← requestSent command want with
  | .error code => finishTurn (.error code)
  | .ok (slot, generation) =>
    match ← awaitReply slot with
    | some (some result) => finishTurn result
    | some none => finishTurn (.error "companion-exited")
    | none => do
      publishHalted (← timedOut generation)
      finishTurn (.error "companion-timeout")

/-- `peers`. -/
def peers : M Json := do
  match ← peersSent with
  | .error code => Prog.throw code
  | .ok (id, slot) => do
    let answer ← awaitPeers slot
    tell (.removePeer id)
    match answer with
    | some (some snapshot) => pure snapshot
    | some none => Prog.throw "companion-exited"
    | none => Prog.throw "companion-timeout"

/-- `edit_stopped`. -/
def editStopped (command : Json) : M Json := do
  tell .lockStore
  if ← isIdle then
    match ← editFile command with
    | .error code => do
      tell .unlockStore
      Prog.throw code
    | .ok () =>
      if (command.get "type").asStr = some "device.revoke" then
        if ← forgotten (((command.get "deviceId").asStr).getD "") then
          tell (.emit (← askOverview))
          tell .unlockStore
          pure .null
        else
          tell .unlockStore
          pure .null
      else
        tell .unlockStore
        pure .null
  else
    tell .unlockStore
    Prog.throw "companion-busy"

inductive Call
  | start (launch : Launch)
  | task (task : Task)
  | line (generation : Nat) (event : Json)
  | exit (generation : Nat)
  | stop
  | fail (code : String)
  | clearFailure
  | request (command : Json) (want : Want)
  | peers
  | notify (frame : Json)
  | editStopped (command : Json)

def Call.program : Call → M Json
  | start launch => Companion.start launch
  | task t => runTask t
  | line generation event => onEvent outside generation event
  | exit generation => onExit generation
  | stop => Companion.stop
  | fail code => Companion.fail code
  | clearFailure => Companion.clearFailure
  | request command want => Companion.request command want
  | peers => Companion.peers
  | notify frame => do
    tell (.notify frame)
    pure .null
  | editStopped command => Companion.editStopped command

/-! ## Runs -/

/-- What else happens: the subscriptions change by their own senders, and the key for them is loaded. -/
inductive Wind
  | push (subscriptions : Subscriptions)
  | vapid

def drift : Wind → Shared → Shared
  | .push subscriptions, state => { state with push := subscriptions }
  | .vapid, state => { state with vapid := true }

def supervisor : Pool Command Reply String Json Shared Call Chance Wind :=
  ⟨Call.program outside, fun chance _ => perform outside chance, drift⟩

abbrev Moment : Type := Threads Command Reply String Json Shared Call
abbrev Event : Type := Transition Moment (Move Command Reply Call)

/-- A command that waits for a lock, or for its task to be spawned, is taken when it can be. -/
def ready (state : Shared) : Command → Bool
  | .lockStore => !state.locked
  | .record _ _ _ => !state.locked
  | .lockCommands => !state.commands
  | .beginTask task => task ∈ state.tasks
  | _ => true

def fresh (disk : Devices) (push : Subscriptions) : Shared :=
  ⟨.default, none, false, false, disk, push, false, .empty, .empty, 0, [], [], [], []⟩

/-- **The runs of the supervisor.** -/
structure Runs (outside : Outside) (l : List Event) (t : Moment) : Prop where
  run : ∃ disk push, (supervisor outside).Runs (fresh disk push) l t
  unblocked : ∀ x ∈ l, ∀ id call a, x.label = .own id call a → ready x.src.shared a.command = true

end Companion
end Yuzora
