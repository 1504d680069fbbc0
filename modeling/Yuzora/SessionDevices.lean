import Yuzora.Session
/-!
# SessionDevices — the operations that change a device

A desktop command, a verified registration, a verified or failed assertion.  A tightening is committed before its event,
which may be deferred; a widening is announced before it is committed, and refused while an older snapshot waits.
-/
namespace Yuzora

open Pairing (Registration)

namespace Identity

def INVALID_COMMAND : Failure := ⟨400, "Invalid device command"⟩

/-- `None < Some(until)`, shorter before longer. -/
def grantBefore : Option Timestamp → Option Timestamp → Bool
  | none, some _ => true
  | some a, some b => decide (a < b)
  | _, none => false

/-- What a command makes of a device: the snapshot, whether it widens, and the command's name. -/
structure Decision where
  snapshot : Option Device
  widening : Bool
  name : String

/-- A label alone is neutral; grants that tighten and widen at once are refused. -/
def decision (device : Device) : DeviceCommand → Except Failure Decision
  | .update _ label grants =>
    if label.isNone && grants.isNone then .error INVALID_COMMAND
    else if label.any (fun label => !validLabel label) then .error INVALID_COMMAND
    else
      let device := { device with label := label.getD device.label }
      match grants with
      | none => .ok ⟨some device, false, "device.update"⟩
      | some grants =>
        let old := device.grants.control.map ControlGrant.until
        let new := grants.control.map ControlGrant.until
        let tightening := grantBefore new old || (!grants.full && device.grants.full)
        let widening := grantBefore old new || (grants.full && !device.grants.full)
        if tightening && widening then .error INVALID_COMMAND
        else .ok ⟨some { device with grants }, widening, "device.update"⟩
  | .unlock _ => .ok ⟨some { device with locked := false }, true, "device.unlock"⟩
  | .revoke _ => .ok ⟨none, false, "device.revoke"⟩

variable (self : Identity)

def store (id : String) (snapshot : Option Device) : Identity :=
  { self with devices := match snapshot with
      | some device => self.devices.insert id device
      | none => self.devices.erase id }

/-- The commit of a decision: the record, the failures it forgives, and the device's sessions dropped. -/
def commit (id : String) (command : DeviceCommand) (snapshot : Option Device) : Identity :=
  let self := { self with dirtyDevices := self.dirtyDevices.erase id }
  let self := match command with
    | .unlock _ | .revoke _ => { self with failures := self.failures.erase id }
    | .update _ _ _ => self
  (self.store id snapshot).invalidateDevice id

def command (self : Identity) (command : DeviceCommand) (events : EventSender) :
    Except Failure AdminResult × Identity × EventSender :=
  let id := command.deviceId
  if (decode 16 id).isNone then (.error INVALID_COMMAND, self, events)
  else match self.devices.get id with
    | none => (.error INVALID_COMMAND, self, events)
    | some device =>
      match decision device command with
      | .error e => (.error e, self, events)
      | .ok ⟨snapshot, true, _⟩ =>
        if self.notifications.contains id then (.error QUEUE_UNAVAILABLE, self, events)
        else match tryEmitEvent events (notification id snapshot) with
          | (.error e, events) => (.error e, self, events)
          | (.ok (), events) => (.ok .applied, self.commit id command snapshot, events)
      | .ok ⟨snapshot, false, name⟩ =>
        let self := self.commit id command snapshot
        let self := { self with notifications := self.notifications.insert id snapshot }
        match events.tryEmit (notification id snapshot) with
        | (true, events) => (.ok .applied, { self with notifications := self.notifications.erase id }, events)
        | (false, events) => (.ok (.notificationDeferred name id), self, events)

/-! ## Registration -/

def registrationTarget (id : String) : Except Failure Device :=
  match self.devices.get id with
  | none => .error REJECTED
  | some d => if !d.locked && decide (d.credentials.length < 8) then .ok d else .error REJECTED

/-- `webauthn::VerifiedRegistration`: only the verifier makes one. -/
structure VerifiedRegistration where
  deviceId : String
  record : CredentialRecord

/-- The device before the new passkey: the target, or a new one.  No new identity while any snapshot waits. -/
def enrolled (pairing : Registration) (id : String) (now : Timestamp) : Except Failure Device :=
  match pairing.addToDevice with
  | some target =>
    if target ≠ id then .error REJECTED
    else if self.notifications.contains target then .error QUEUE_UNAVAILABLE
    else self.registrationTarget target
  | none =>
    if self.notifications.size ≠ 0 then .error QUEUE_UNAVAILABLE
    else if self.devices.size ≥ self.policy.maxDevices ∨ self.devices.contains id then .error REJECTED
    else
      .ok { deviceId := id, label := pairing.deviceLabel, credentials := [], grants := ⟨none, false⟩, locked := false
            createdAt := now, lastSeen := now }

variable (ext : External)

def registerVerified (self : Identity) (pairing : Registration) (verified : VerifiedRegistration)
    (events : EventSender) (clock : Readings) : Except Failure String × Identity × EventSender :=
  let id := verified.deviceId
  let record := verified.record
  if self.policy.enableUntil ≤ clock.now 0 ∨ pairing.deadline ≤ clock.now 1 then (.error REJECTED, self, events)
  else if self.devices.values.any (fun d =>
      d.credentials.any (fun c => decide (c.id = record.id ∧ c.rpId = record.rpId))) then
    (.error REJECTED, self, events)
  else match self.enrolled pairing id (clock.now 2) with
    | .error e => (.error e, self, events)
    | .ok device =>
      let device := { device with credentials := device.credentials ++ [record] }
      if !device.valid ext then (.error REJECTED, self, events)
      else
        let event := if pairing.addToDevice.isSome then Event.deviceUpdated device else Event.deviceRegistered device
        match tryEmitEvent events event with
        | (.error e, events) => (.error e, self, events)
        | (.ok (), events) => (.ok id, (self.store id (some device)).invalidateDevice id, events)

/-! ## Assertions -/

/-- What the handlers read of a browser's assertion. -/
structure AssertionResponse where
  rawId : Option String
  userHandle : Option String

inductive AssertionFailure
  | invalid | policy | rollback
  deriving DecidableEq

structure VerifiedAssertion where
  signCount : UInt32
  backupState : Bool

inductive AssertionResult
  | loggedIn (session : Bytes 32) (binding deviceId : String)
  | elevated («until» : Timestamp)
  deriving DecidableEq

/-- What a login draws at random. -/
structure SessionDraw where
  binding : Option (Bytes 32)
  id : Option (Bytes 32)

def assertionOwner (response : AssertionResponse) (rpId : String) (visit : Visit Device) :
    Option String :=
  response.rawId.bind (fun id =>
    ((visit.order self.devices.values).find? (fun d =>
      d.credentials.any (fun c => decide (c.id = id ∧ c.rpId = rpId)))).map Device.deviceId)

def assertionFailed (id : String) (rollback : Bool) (events : EventSender) : Identity × EventSender :=
  match self.devices.get id with
  | none => (self, events)
  | some device =>
    if device.locked then (self, events)
    else
      let count := min ((self.failures.get id).getD 0 + 1) 255
      let self := { self with failures := self.failures.insert id count }
      if rollback ∨ count ≥ 5 then
        ((self.store id (some { device with locked := true })).invalidateDevice id).notifySnapshot id events
      else (self, events)

/-- The first credential that matches takes the verified counter and backup state. -/
def updateCredential (credentialId rpId : String) (verified : VerifiedAssertion) :
    List CredentialRecord → Option (List CredentialRecord)
  | [] => none
  | c :: cs =>
    if c.id = credentialId ∧ c.rpId = rpId then
      some ({ c with signCount := verified.signCount, backupState := verified.backupState } :: cs)
    else (updateCredential credentialId rpId verified cs).map (c :: ·)

def assertionVerified (id credentialId rpId : String) (verified : VerifiedAssertion)
    (events : EventSender) (now : Timestamp) : Except Panic (Identity × EventSender) :=
  match self.devices.get id with
  | none => .error (.expect "verified device under lock")
  | some device =>
    match updateCredential credentialId rpId verified device.credentials with
    | none => .error (.expect "verified credential under lock")
    | some credentials =>
      let self := { self with
        devices := self.devices.insert id { device with credentials, lastSeen := now }
        failures := self.failures.erase id }
      .ok (self.notifySnapshot id events)

def SESSION_LIMIT : Failure := ⟨503, "Session limit reached"⟩

def evictOldest (deviceId : String) (visit : Visit (Bytes 32 × Session)) : Except Panic Identity :=
  if self.sessions.count (fun _ s => decide (s.deviceId = deviceId)) ≥ 4 then
    match minByKey (fun e => e.2.createdAt)
        ((visit.order self.sessions.entries).filter (fun e => decide (e.2.deviceId = deviceId))) with
    | none => .error (.expect "four sessions")
    | some e => .ok (self.invalidateSession e.1)
  else .ok self

def opened (deviceId rpId : String) (bindingHash : Bytes 32) (now : Timestamp) : Session :=
  { deviceId, rpId, createdAt := now, lastSeen := now, controlUntil := none, fullUntil := none, controlAt := none
    fullAt := none, bindingHash }

def issueSession (self : Identity) (deviceId rpId : String) (draw : SessionDraw)
    (visit : Visit (Bytes 32 × Session)) (clock : Readings) :
    Except Panic (Except Failure (Bytes 32 × String) × Identity) :=
  let self := self.purgeExpired (clock.now 0)
  if self.policy.enableUntil ≤ clock.now 1 then .ok (.error REJECTED, self)
  else match draw.binding, draw.id with
    | none, _ | _, none => .ok (.error UNAVAILABLE, self)
    | some binding, some id =>
      match self.evictOldest deviceId visit with
      | .error p => .error p
      | .ok self =>
        if self.sessions.size ≥ self.sessionLimit then .ok (.error SESSION_LIMIT, self)
        else
          let session := opened deviceId rpId (hash ext binding.1) (clock.now 2)
          .ok (.ok (id, encode binding.1), { self with sessions := self.sessions.insert id session })

def assertionCredential (id host : String) (response : AssertionResponse) : Option CredentialRecord :=
  match self.devices.get id with
  | none => none
  | some d =>
    if d.locked then none
    else d.credentials.find? (fun c => decide (c.rpId = host ∧ some c.id = response.rawId))

/-- The verifier's answer for a credential; `Invalid` before it is asked when there is none. -/
def verification (id host : String) (response : AssertionResponse)
    (verify : CredentialRecord → Except AssertionFailure VerifiedAssertion) :
    Except AssertionFailure VerifiedAssertion :=
  match self.assertionCredential id host response with
  | none => .error .invalid
  | some record => verify record

/-- The device an assertion speaks for: the context's, or the owner the response names twice. -/
def assertionDevice (host : String) (response : AssertionResponse) (ctx : Option (AuthContext × Scope))
    (owners : Visit Device) : Option String :=
  match ctx with
  | some (ctx, _) => some ctx.deviceId
  | none => (self.assertionOwner response host owners).filter (fun owner => decide (response.userHandle = some owner))

/-- The login or the elevation that a verified assertion leads to. -/
def concludeAssertion (self : Identity) (id host : String) (ctx : Option (AuthContext × Scope))
    (draw : SessionDraw) (sessions : Visit (Bytes 32 × Session)) (events : EventSender) (clock : Readings) :
    Except Panic (Except Failure AssertionResult × Identity × EventSender) :=
  match ctx with
  | some (ctx, scope) =>
    match self.elevate ctx scope clock with
    | .error p => .error p
    | .ok (none, self) => .ok (.error SCOPE_NOT_GRANTED, self, events)
    | .ok (some «until», self) => .ok (.ok (.elevated «until»), self, events)
  | none =>
    match self.issueSession ext id host draw sessions clock with
    | .error p => .error p
    | .ok (.error e, self) => .ok (.error e, self, events)
    | .ok (.ok (session, binding), self) => .ok (.ok (.loggedIn session binding id), self, events)

def finishAssertion (self : Identity) (host : String) (response : AssertionResponse)
    (verify : CredentialRecord → Except AssertionFailure VerifiedAssertion) (ctx : Option (AuthContext × Scope))
    (draw : SessionDraw) (owners : Visit Device) (sessions : Visit (Bytes 32 × Session)) (events : EventSender)
    (clock : Readings) : Except Panic (Except Failure AssertionResult × Identity × EventSender) :=
  match self.assertionDevice host response ctx owners with
  | none => .ok (.error REJECTED, self, events)
  | some id =>
    match self.verification id host response verify with
    | .error .invalid => .ok (.error REJECTED, self, events)
    | .error .policy =>
      let (self, events) := self.assertionFailed id false events
      .ok (.error REJECTED, self, events)
    | .error .rollback =>
      let (self, events) := self.assertionFailed id true events
      .ok (.error REJECTED, self, events)
    | .ok verified =>
      match response.rawId with
      | none => .ok (.error REJECTED, self, events)
      | some rawId =>
        match self.assertionVerified id rawId host verified events (clock.now 0) with
        | .error p => .error p
        | .ok (self, events) => self.concludeAssertion ext id host ctx draw sessions events clock.tail

end Identity
end Yuzora
