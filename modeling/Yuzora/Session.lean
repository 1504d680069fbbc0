import Yuzora.Pairing
/-!
# Session — devices, sessions, peers and their desktop notifications under one lock

`Identity` holds everything an authorization is decided on: the device table, the sessions, the connected peers, and the
snapshots the desktop has not taken yet.  Every operation runs under the identity lock and is one function here.
-/
namespace Yuzora

open Pairing (Registration)

/-! ## The session cookie -/

abbrev HeaderMap := List (String × List UInt8)

def HeaderMap.getAll (headers : HeaderMap) (name : String) : List (List UInt8) :=
  (headers.filter (fun h => decide (h.1 = name))).map Prod.snd

def asciiWhitespace (b : UInt8) : Bool := b == 32 || b == 9 || b == 10 || b == 12 || b == 13

def trimAscii (bytes : List UInt8) : List UInt8 :=
  ((bytes.dropWhile asciiWhitespace).reverse.dropWhile asciiWhitespace).reverse

def splitPairs : List UInt8 → List (List UInt8)
  | [] => [[]]
  | b :: rest =>
    if b = 59 then [] :: splitPairs rest
    else match splitPairs rest with
      | [] => [[b]]
      | pair :: pairs => (b :: pair) :: pairs

def COOKIE_NAME : List UInt8 := [0x5f, 0x5f, 0x48, 0x6f, 0x73, 0x74, 0x2d, 0x79, 0x7a, 0x63]

/-- The cookie's value in one pair: `none` when the pair is another cookie, `some none` when it cannot be read. -/
def cookiePair (pair : List UInt8) : Option (Option (Bytes 32)) :=
  let pair := trimAscii pair
  let split := pair.findIdx? (· == 61)
  let name := match split with
    | none => pair
    | some i => pair.take i
  if name ≠ COOKIE_NAME then none
  else some (split.bind (fun i => (String.fromUTF8? ⟨(pair.drop (i + 1)).toArray⟩).bind (decode 32)))

/-- The pairs in order; a second session cookie or an unreadable one makes the request anonymous. -/
def cookieIds : List (List UInt8) → Option (Bytes 32) → Option (Bytes 32)
  | [], result => result
  | pair :: pairs, result =>
    match cookiePair pair with
    | none => cookieIds pairs result
    | some value =>
      if result.isSome then none
      else match value with
        | none => none
        | some id => cookieIds pairs (some id)

def cookieId (headers : HeaderMap) : Option (Bytes 32) :=
  cookieIds ((headers.getAll "cookie").flatMap splitPairs) none

/-! ## The state -/

/-- Opaque proof of transport authentication, not an enduring write authorization. -/
structure AuthContext where
  sessionId : Bytes 32
  deviceId : String
  rpId : String
  deriving DecidableEq

structure Peer where
  session : Bytes 32
  device : String
  invalidated : Bool
  deriving DecidableEq

structure Session where
  deviceId : String
  rpId : String
  createdAt : Timestamp
  lastSeen : Timestamp
  controlUntil : Option Timestamp
  fullUntil : Option Timestamp
  controlAt : Option Timestamp
  fullAt : Option Timestamp
  bindingHash : Bytes 32
  deriving DecidableEq

variable (session : Session)

def Session.until : Scope → Option Timestamp
  | .view => none
  | .control => session.controlUntil
  | .full => session.fullUntil

def Session.at : Scope → Option Timestamp
  | .view => none
  | .control => session.controlAt
  | .full => session.fullAt

def Session.elevated (scope : Scope) («until» now : Timestamp) : Option Session :=
  match scope with
  | .control => some { session with controlUntil := some «until», controlAt := some now }
  | .full => some { session with fullUntil := some «until», fullAt := some now }
  | .view => none

structure Identity where
  devices : Table String Device
  /-- Latest snapshot per device; revoke supersedes all earlier snapshots. -/
  notifications : Table String (Option Device)
  sessions : Table (Bytes 32) Session
  peers : Table Nat Peer
  nextPeer : Nat
  failures : Table String Nat
  dirtyDevices : Table String Unit
  policy : Policy

def MAX_PEERS : Nat := 16
def U64_MAX : Nat := 18446744073709551615

def deviceTable (devices : List Device) : Table String Device :=
  devices.foldl (fun table d => table.insert d.deviceId d) Table.empty

namespace Identity

def new (ext : External) (devices : List Device) (policy : Policy) : Except String Identity :=
  if !policy.valid ∨ devices.length > policy.maxDevices ∨ !devices.all (Device.valid ext) then .error "invalid-policy"
  else if (deviceTable devices).size ≠ devices.length then .error "invalid-devices"
  else
    .ok { devices := deviceTable devices, notifications := Table.empty, sessions := Table.empty, peers := Table.empty
          nextPeer := 0, failures := Table.empty, dirtyDevices := Table.empty, policy }

variable (self : Identity)

def device (id : String) : Option Device := self.devices.get id

def hasSessionCookie (headers : HeaderMap) : Bool :=
  (cookieId headers).any (fun id => self.sessions.contains id)

def sessionLimit : Nat := self.policy.maxDevices * 4

/-- The peer's number; `none` when the gateway, or the device, has no room for another. -/
def registerPeer (ctx : AuthContext) : Option Nat × Identity :=
  if self.peers.size ≥ MAX_PEERS ∨ self.peers.count (fun _ p => decide (p.device = ctx.deviceId)) ≥ 2 then (none, self)
  else if self.nextPeer = U64_MAX then (none, self)
  else
    (some self.nextPeer,
      { self with
        nextPeer := self.nextPeer + 1
        peers := self.peers.insert self.nextPeer ⟨ctx.sessionId, ctx.deviceId, false⟩ })

def unregisterPeer (id : Nat) : Identity := { self with peers := self.peers.erase id }

def invalidateSession (id : Bytes 32) : Identity :=
  { self with
    sessions := self.sessions.erase id
    peers := self.peers.mapValues (fun _ p => if p.session = id then { p with invalidated := true } else p) }

def sessionIds (p : Session → Bool) : List (Bytes 32) :=
  self.sessions.entries.filterMap (fun e => if p e.2 then some e.1 else none)

def invalidateDevice (device : String) : Identity :=
  (self.sessionIds (fun s => decide (s.deviceId = device))).foldl invalidateSession self

def active (session : Session) (now : Timestamp) : Bool :=
  decide (now < self.policy.enableUntil) && decide (now < session.createdAt.after (hours self.policy.viewAbsoluteHours)) &&
    decide (now < session.lastSeen.after (minutes self.policy.viewIdleMin)) &&
    (self.devices.get session.deviceId).any (fun d => !d.locked && d.hasCredential session.rpId)

def purgeExpired (now : Timestamp) : Identity :=
  (self.sessionIds (fun s => !self.active s now)).foldl invalidateSession self

def notification (id : String) : Option Device → Event
  | some device => .deviceUpdated device
  | none => .deviceRevoked id

def notifySnapshot (id : String) (events : EventSender) : Identity × EventSender :=
  let self := { self with dirtyDevices := self.dirtyDevices.erase id }
  match self.devices.get id with
  | none => (self, events)
  | some device =>
    let self := { self with notifications := self.notifications.insert id (some device) }
    match events.tryEmit (notification id (some device)) with
    | (true, events) => ({ self with notifications := self.notifications.erase id }, events)
    | (false, events) => (self, events)

/-- One deferred snapshot of the maintenance pass: it leaves the table once the queue takes it. -/
def retryNotification (id : String) (device : Option Device) (events : EventSender) :
    Identity × EventSender :=
  match events.tryEmit (notification id device) with
  | (true, events) => ({ self with notifications := self.notifications.erase id }, events)
  | (false, events) => (self, events)

def notifyDirty : List String → Identity → EventSender → Identity × EventSender
  | [], self, events => (self, events)
  | id :: ids, self, events =>
    let (self, events) := self.notifySnapshot id events
    notifyDirty ids self events

def retryNotifications : List (String × Option Device) → Identity → EventSender → Identity × EventSender
  | [], self, events => (self, events)
  | e :: es, self, events =>
    let (self, events) := self.retryNotification e.1 e.2 events
    retryNotifications es self events

/-- The dirty devices and the deferred snapshots are visited in the maps' own orders. -/
def maintenance (events : EventSender) (dirty : Visit String)
    (deferred : Visit (String × Option Device)) (clock : Readings) : Identity × EventSender :=
  let self := self.purgeExpired (clock.now 0)
  let ids := dirty.order self.dirtyDevices.keys
  let (self, events) := notifyDirty ids { self with dirtyDevices := Table.empty } events
  retryNotifications (deferred.order self.notifications.entries) self events

/-! ## Authorization -/

def granted (device : Device) (scope : Scope) (now : Timestamp) : Bool :=
  match scope with
  | .view => true
  | .control => device.grants.control.any (fun g => decide (now < g.until))
  | .full => self.policy.fullSessionEnabled && device.grants.full

def validate (id : Bytes 32) (rpId : String) (scope : Scope) (now : Timestamp) :
    Except Panic (Bool × Identity) :=
  match self.sessions.get id with
  | none => .ok (false, self)
  | some session =>
    if !self.active session now then .ok (false, self.invalidateSession id)
    else if session.rpId ≠ rpId then .ok (false, self)
    else match self.devices.get session.deviceId with
      | none => .error .index
      | some device =>
        if !self.granted device scope now ∨
            (scope ≠ .view ∧ (session.until scope).all (fun «until» => decide («until» ≤ now))) then .ok (false, self)
        else match self.sessions.get id with
          | none => .error (.expect "validated session")
          | some session =>
            let self := { self with sessions := self.sessions.insert id { session with lastSeen := now } }
            match self.devices.get session.deviceId with
            | none => .error (.expect "validated device")
            | some device =>
              .ok (true, { self with
                devices := self.devices.insert session.deviceId { device with lastSeen := now }
                dirtyDevices := self.dirtyDevices.insert session.deviceId () })

/-- `HeaderValue::to_str`: visible ASCII and tabs. -/
def headerText (value : List UInt8) : Option String :=
  if value.all (fun b => decide ((32 ≤ b.toNat ∧ b.toNat < 127) ∨ b.toNat = 9)) then
    some (String.ofList (value.map (fun b => Char.ofNat b.toNat)))
  else none

def authenticate (ext : External) (self : Identity) (headers : HeaderMap) (rpId : String) (_requestedScope : Scope)
    (clock : Readings) : Except Panic (Option AuthContext × Identity) :=
  match cookieId headers with
  | none => .ok (none, self)
  | some id =>
    match headers.getAll "x-yzc-binding" with
    | [binding] =>
      match (headerText binding).bind (decode 32), self.sessions.get id with
      | none, _ | _, none => .ok (none, self)
      | some token, some session =>
        if !matchesHash ext session.bindingHash token.1 then .ok (none, self)
        else match self.validate id rpId .view (clock.now 0) with
          | .error p => .error p
          | .ok (false, self) => .ok (none, self)
          | .ok (true, self) => .ok ((self.sessions.get id).map (fun s => ⟨id, s.deviceId, rpId⟩), self)
    | _ => .ok (none, self)

def revalidate (ctx : AuthContext) (scope : Scope) (now : Timestamp) : Except Panic (Bool × Identity) :=
  if (self.sessions.get ctx.sessionId).any (fun s => decide (s.deviceId = ctx.deviceId)) then
    self.validate ctx.sessionId ctx.rpId scope now
  else .ok (false, self)

/-- The latest end of an elevation that the device's grant allows. -/
def elevationCap (device : Device) (scope : Scope) (now : Timestamp) : Option Timestamp :=
  match scope with
  | .view => none
  | .control => device.grants.control.map ControlGrant.until
  | .full => if self.policy.fullSessionEnabled && device.grants.full then some (now.after (seconds 900)) else none

def elevate (ctx : AuthContext) (scope : Scope) (clock : Readings) :
    Except Panic (Option Timestamp × Identity) :=
  match self.revalidate ctx .view (clock.now 0) with
  | .error p => .error p
  | .ok (false, self) => .ok (none, self)
  | .ok (true, self) =>
    let now := clock.now 1
    match self.sessions.get ctx.sessionId with
    | none => .ok (none, self)
    | some session =>
      if session.rpId ≠ ctx.rpId ∨ !self.active session now then .ok (none, self)
      else match (self.devices.get session.deviceId).bind (fun device => self.elevationCap device scope now) with
        | none => .ok (none, self)
        | some cap =>
          let «until» := min (min (min (now.after (minutes self.policy.elevationMaxMin)) cap) self.policy.enableUntil)
            (session.createdAt.after (hours self.policy.viewAbsoluteHours))
          if «until» ≤ now then .ok (none, self)
          else match session.elevated scope «until» now with
            | none => .error .unreachable
            | some session =>
              .ok (some «until», { self with sessions := self.sessions.insert ctx.sessionId session })

def writeDeadline (ctx : AuthContext) (scope : Scope) (fresh : Bool) (now : Timestamp) :
    Option Timestamp :=
  match self.sessions.get ctx.sessionId with
  | none => none
  | some session =>
    match session.at scope, session.until scope with
    | some elevatedAt, some «until» =>
      if fresh && decide (elevatedAt.after (seconds 120) < now) then none else some «until»
    | _, _ => none

def freshnessDeadline (ctx : AuthContext) (scope : Scope) : Option Timestamp :=
  match self.sessions.get ctx.sessionId with
  | none => none
  | some session => (session.at scope).map (fun elevatedAt => elevatedAt.after (seconds 120))

def logout (id : Bytes 32) : Identity := self.invalidateSession id

def canElevate (ctx : AuthContext) (scope : Scope) (now : Timestamp) : Bool :=
  (self.devices.get ctx.deviceId).any (fun d => !d.locked &&
    match scope with
    | .view => false
    | .control => d.grants.control.any (fun g => decide (now < g.until))
    | .full => self.policy.fullSessionEnabled && d.grants.full)

def activeSessionIds (now : Timestamp) : List (Bytes 32) × Identity :=
  let self := self.purgeExpired now
  (self.sessions.keys, self)

end Identity
end Yuzora
