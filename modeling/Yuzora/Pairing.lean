import Yuzora.Admin
import Yuzora.Table
/-!
# Pairing — a phone's way from the QR code to a registration

The desktop creates a pairing, the phone claims it with the secret, the desktop approves it, the phone polls a ticket and
trades it for a registration, which the commit of a verified ceremony finishes.  Every operation works under one lock;
`status` releases it while it waits and `command` after its maintenance pass, so each is two operations.
-/
namespace Yuzora
namespace Pairing

def INVALID : Failure := ⟨403, "Pairing request rejected"⟩
def BUSY : Failure := ⟨429, "Pairing limit reached"⟩
def ENTROPY : Failure := ⟨503, "Pairing unavailable"⟩
def TTL : Nat := seconds 300
def TICKET_TTL : Nat := seconds 120
def REGISTRATION_WINDOW : Nat := seconds 600
def MAX_LIVE : Nat := 4
def MAX_RECORDS : Nat := 16

structure ClaimRequest where
  pairingId : String
  secret : String
  deviceLabel : String
  deviceNonce : String

structure StatusRequest where
  pairingId : String
  claimToken : String
  deriving DecidableEq

structure ClaimResponse where
  gatewayNonce : String
  sas : String
  claimToken : String
  deriving DecidableEq

inductive State
  | pending | approved | rejected | expired | registering | registered
  deriving DecidableEq

structure StatusResponse where
  state : State
  registrationTicket : Option String
  deriving DecidableEq

structure Registration where
  pairingId : String
  deviceLabel : String
  addToDevice : Option String
  startedAt : Timestamp
  deadline : Timestamp
  deriving DecidableEq

structure Ticket where
  hash : Bytes 32
  «until» : Timestamp
  deriving DecidableEq

structure Entry where
  addToDevice : Option String
  secret : Option (Bytes 32)
  secretHash : Bytes 32
  claimHash : Option (Bytes 32)
  label : Option String
  failures : Nat
  state : State
  «until» : Timestamp
  polls : Nat
  ticket : Option Ticket
  registration : Option Registration
  notification : Option String

namespace Entry

variable (entry : Entry)

def live : Bool :=
  match entry.state with
  | .pending | .approved | .registering => true
  | _ => false

def transition (state : State) : Entry :=
  { entry with
    state
    registration := if state ≠ .registering then none else entry.registration
    ticket := if state ≠ .approved then none else entry.ticket
    secret := if state ≠ .pending then none else entry.secret }

def deadline (entry : Entry) : Timestamp := (entry.registration.map Registration.deadline).getD entry.until

def expire (now : Timestamp) : Entry :=
  if entry.live && decide (entry.deadline ≤ now) then { entry.transition .expired with notification := some "ttl" }
  else entry

/-- A refused event leaves the notification for the next attempt. -/
def notify (id : String) (events : EventSender) : Except Failure Unit × Entry × EventSender :=
  match entry.notification with
  | none => (.ok (), entry, events)
  | some reason =>
    let state := if entry.state = .expired then "expired" else "rejected"
    match tryEmitEvent events (.pairingState id state reason) with
    | (.error e, events) => (.error e, entry, events)
    | (.ok (), events) => (.ok (), { entry with notification := none }, events)

/-- Always an error, `INVALID` unless the queue refused the announcement.  `failures` is a saturating byte. -/
def fail (id : String) (events : EventSender) (secondClaim : Bool) : Failure × Entry × EventSender :=
  let entry := { entry with failures := min (entry.failures + 1) 255 }
  if entry.failures ≥ 5 ∨ secondClaim then
    let entry := { entry.transition .rejected with
      notification := some (if secondClaim then "second-claim" else "attempt-limit") }
    match entry.notify id events with
    | (.error e, entry, events) => (e, entry, events)
    | (.ok (), entry, events) => (INVALID, entry, events)
  else (INVALID, entry, events)

end Entry

/-- A status call that waits: the entry's and the store's permit go back when it ends. -/
structure Poll where
  request : StatusRequest
  deriving DecidableEq

structure Pairings where
  entries : Table String Entry
  polls : Nat
  waiting : List Poll
  origin : String
  login : String

namespace Pairings

def new (publicHost login : String) : Pairings :=
  { entries := Table.empty, polls := 8, waiting := [], origin := "https://" ++ publicHost, login }

/-- What one operation leaves: its answer, the store and the queue. -/
abbrev Result (α : Type) := Except Failure α × Pairings × EventSender

variable (store : Pairings)

def put (id : String) (entry : Entry) : Pairings :=
  { store with entries := store.entries.insert id entry }

variable (events : EventSender)

def maintain (id : String) (now : Timestamp) : Pairings × EventSender :=
  match store.entries.get id with
  | none => (store, events)
  | some entry =>
    let (_, entry, events) := (entry.expire now).notify id events
    (store.put id entry, events)

def maintainAll : List String → Nat → Readings → Pairings → EventSender → Pairings × EventSender
  | [], _, _, store, events => (store, events)
  | id :: ids, n, clock, store, events =>
    let (store, events) := store.maintain events id (clock.now n)
    maintainAll ids (n + 1) clock store events

def maintenance (visit : Visit String) (clock : Readings) :
    Pairings × EventSender :=
  maintainAll (visit.order store.entries.keys) 0 clock store events

/-- What `pairing.create` draws at random. -/
structure Draw where
  id : Option (Bytes 16)
  secret : Option (Bytes 32)

/-- The entry to evict for a new one: the oldest that is neither live nor waiting to be announced. -/
def evictable (visit : Visit (String × Entry)) : Option String :=
  (minByKey (fun e => e.2.until)
    ((visit.order store.entries.entries).filter (fun e => !e.2.live && e.2.notification.isNone))).map Prod.fst

variable (ext : External)

def fresh (addToDevice : Option String) (secret : Bytes 32) («until» : Timestamp) : Entry :=
  { addToDevice, secret := some secret, secretHash := hash ext secret.1, claimHash := none, label := none, failures := 0
    state := .pending, «until», polls := 1, ticket := none, registration := none, notification := none }

/-- The `pairing.create` arm, after the maintenance pass. -/
def create (store : Pairings) (events : EventSender) (path : String) (addToDevice : Option String)
    (draw : Draw) (visit : Visit (String × Entry)) (now : Timestamp) : Result AdminResult :=
  if addToDevice.any (fun id => (decode 16 id).isNone) then (.error INVALID, store, events)
  else if path = "lan" then (.error ⟨400, "LAN pairing not supported"⟩, store, events)
  else if path ≠ "tailscale" then (.error ⟨400, "Invalid pairing path"⟩, store, events)
  else if store.entries.count (fun _ p => p.live) ≥ MAX_LIVE then (.error BUSY, store, events)
  else
    let room := if store.entries.size ≥ MAX_RECORDS then
        (store.evictable visit).map (fun oldest => { store with entries := store.entries.erase oldest })
      else some store
    match room, draw.id, draw.secret with
    | none, _, _ => (.error BUSY, store, events)
    | some store, none, _ | some store, _, none => (.error ENTROPY, store, events)
    | some store, some id, some secret =>
      let id := encode id.1
      let «until» := now.after TTL
      let url := store.origin ++ "/pair#p=" ++ id ++ "." ++ encode secret.1
      match tryEmitEvent events (.pairingCreated id url «until») with
      | (.error e, events) => (.error e, store, events)
      | (.ok (), events) => (.ok .applied, store.put id (fresh ext addToDevice secret «until»), events)

variable (entry : Entry)

def decide (id : String) (state : State) (reason : String) (now : Timestamp) (events : EventSender) :
    Except Failure AdminResult × Entry × EventSender :=
  let entry := entry.expire now
  if !entry.live ∨ (state = .approved ∧ (entry.state ≠ .pending ∨ entry.claimHash.isNone)) then
    (.error INVALID, entry, events)
  else if state = .approved then
    match tryEmitEvent events (.pairingState id "approved" reason) with
    | (.error e, events) => (.error e, entry, events)
    | (.ok (), events) => (.ok .applied, { entry with «until» := now.after REGISTRATION_WINDOW }.transition state, events)
  else
    match { entry.transition state with notification := some reason }.notify id events with
    | (.error _, entry, events) =>
      (.ok (.notificationDeferred (if reason = "cancelled" then "pairing.cancel" else "pairing.reject") id), entry, events)
    | (.ok (), entry, events) => (.ok .applied, entry, events)

def decideOn (id : String) (state : State) (reason : String)
    (now : Timestamp) : Result AdminResult :=
  if (decode 16 id).isNone then (.error INVALID, store, events)
  else match store.entries.get id with
    | none => (.error INVALID, store, events)
    | some entry =>
      let (result, entry, events) := decide entry id state reason now events
      (result, store.put id entry, events)

/-- `command` after its maintenance pass: the lock was released in between. -/
def command (ext : External) (store : Pairings) (events : EventSender) (command : PairingCommand) (draw : Draw)
    (visit : Visit (String × Entry)) (now : Timestamp) : Result AdminResult :=
  match command with
  | .create path addToDevice => create ext store events path addToDevice draw visit now
  | .approve id => store.decideOn events id .approved "approved" now
  | .reject id => store.decideOn events id .rejected "rejected" now
  | .cancel id => store.decideOn events id .rejected "cancelled" now

/-! ## The short authentication string -/

/-- Digits of one digest, left to right: bytes from 250 on are discarded. -/
def sasDigits : List UInt8 → List Char → List Char
  | [], result => result
  | byte :: bytes, result =>
    if result.length = 6 then result
    else sasDigits bytes (if byte.toNat < 250 then result ++ [Char.ofNat (48 + byte.toNat % 10)] else result)

def bigEndian32 (n : Nat) : List UInt8 :=
  [UInt8.ofNat (n / 16777216), UInt8.ofNat (n / 65536), UInt8.ofNat (n / 256), UInt8.ofNat n]

def SAS_DOMAIN : List UInt8 := [0x79, 0x7a, 0x2d, 0x73, 0x61, 0x73, 0x2d, 0x76, 0x31]

/-- Extends with the counter until six digits are found; the counter is a `u32`. -/
def sasFrom (ext : External) (secret deviceNonce gatewayNonce : List UInt8) :
    Nat → Nat → List Char → Except Panic String
  | 0, _, _ => .error .unreachable
  | rounds + 1, counter, result =>
    let message := SAS_DOMAIN ++ deviceNonce ++ gatewayNonce ++ if counter ≠ 0 then bigEndian32 counter else []
    let result := sasDigits (ext.hmacSha256 secret message).1 result
    if result.length = 6 then .ok (String.ofList result)
    else sasFrom ext secret deviceNonce gatewayNonce rounds (counter + 1) result

def deriveSas (secret deviceNonce gatewayNonce : List UInt8) : Except Panic String :=
  sasFrom ext secret deviceNonce gatewayNonce 4294967296 0 []

/-! ## The phone's requests -/

/-- What `claim` draws at random. -/
structure ClaimDraw where
  gatewayNonce : Option (Bytes 32)
  token : Option (Bytes 32)

def claimEntry (request : ClaimRequest) (userAgent login : String)
    (deviceNonce : Bytes 32) (draw : ClaimDraw) (now : Timestamp) (events : EventSender) :
    Except Panic (Except Failure ClaimResponse × Entry × EventSender) :=
  match (entry.expire now).notify request.pairingId events with
  | (.error e, entry, events) => .ok (.error e, entry, events)
  | (.ok (), entry, events) =>
    if !entry.live then .ok (.error INVALID, entry, events)
    else
      let supplied := decode 32 request.secret
      let equal := matchesHash ext entry.secretHash (supplied.getD (Bytes.zero 32)).1
      if entry.claimHash.isSome then
        let (e, entry, events) := entry.fail request.pairingId events true
        .ok (.error e, entry, events)
      else if !equal ∨ supplied.isNone then
        let (e, entry, events) := entry.fail request.pairingId events false
        .ok (.error e, entry, events)
      else match draw.gatewayNonce, draw.token, entry.secret with
        | none, _, _ | _, none, _ => .ok (.error ENTROPY, entry, events)
        | _, _, none => .ok (.error INVALID, entry, events)
        | some gatewayNonce, some token, some secret =>
          match deriveSas ext secret.1 deviceNonce.1 gatewayNonce.1 with
          | .error p => .error p
          | .ok sas =>
            match tryEmitEvent events
                (.pairingClaimed request.pairingId request.deviceLabel sas login userAgent) with
            | (.error e, events) => .ok (.error e, entry, events)
            | (.ok (), events) =>
              .ok (.ok ⟨encode gatewayNonce.1, sas, encode token.1⟩,
                { entry with claimHash := some (hash ext token.1), label := some request.deviceLabel, secret := none },
                events)

def claim (store : Pairings) (events : EventSender) (request : ClaimRequest) (userAgent : String)
    (draw : ClaimDraw) (clock : Readings) : Except Panic (Result ClaimResponse) :=
  if (decode 16 request.pairingId).isNone ∨ !validLabel request.deviceLabel ∨ userAgent.utf8ByteSize > 256 ∨
      !userAgent.toList.all (fun c => Decidable.decide (32 ≤ c.toNat ∧ c.toNat ≤ 126)) then
    .ok (.error INVALID, store, events)
  else match decode 32 request.deviceNonce, store.entries.get request.pairingId with
    | none, _ | _, none => .ok (.error INVALID, store, events)
    | some deviceNonce, some entry =>
      match claimEntry ext entry request userAgent store.login deviceNonce draw (clock.now 0) events with
      | .error p => .error p
      | .ok (result, entry, events) => .ok (result, store.put request.pairingId entry, events)

def authenticate (request : StatusRequest) (events : EventSender) :
    Except Failure Unit × Entry × EventSender :=
  let token := decode 32 request.claimToken
  let valid := matchesHash ext (entry.claimHash.getD (Bytes.zero 32)) (token.getD (Bytes.zero 32)).1
  if !valid ∨ token.isNone ∨ entry.claimHash.isNone then
    if entry.live then
      let (e, entry, events) := entry.fail request.pairingId events false
      (.error e, entry, events)
    else (.error INVALID, entry, events)
  else (.ok (), entry, events)

/-- `status` up to its wait. -/
def statusBegin (store : Pairings) (events : EventSender) (request : StatusRequest)
    (clock : Readings) : Result Unit :=
  if (decode 16 request.pairingId).isNone then (.error INVALID, store, events)
  else match store.entries.get request.pairingId with
    | none => (.error INVALID, store, events)
    | some entry =>
      match authenticate ext (entry.expire (clock.now 0)) request events with
      | (.error e, entry, events) => (.error e, store.put request.pairingId entry, events)
      | (.ok (), entry, events) =>
        if entry.polls = 0 ∨ store.polls = 0 then (.error BUSY, store.put request.pairingId entry, events)
        else
          (.ok (), { store.put request.pairingId { entry with polls := entry.polls - 1 } with
            polls := store.polls - 1, waiting := store.waiting ++ [⟨request⟩] }, events)

/-- The permits of a status call that ended, or whose caller went away. -/
def release (poll : Poll) : Pairings :=
  let store := { store with polls := store.polls + 1, waiting := store.waiting.erase poll }
  match store.entries.get poll.request.pairingId with
  | none => store
  | some entry => store.put poll.request.pairingId { entry with polls := entry.polls + 1 }

/-- The answer for one entry after the wait: an approved pairing gets a new ticket, which replaces the last one. -/
def statusEntry (request : StatusRequest) (ticket : Option (Bytes 32))
    (clock : Readings) (events : EventSender) : Except Failure StatusResponse × Entry × EventSender :=
  match authenticate ext (entry.expire (clock.now 0)) request events with
  | (.error e, entry, events) => (.error e, entry, events)
  | (.ok (), entry, events) =>
    match entry.notify request.pairingId events with
    | (.error e, entry, events) => (.error e, entry, events)
    | (.ok (), entry, events) =>
      if entry.state = .approved then
        match ticket with
        | none => (.error ENTROPY, entry, events)
        | some ticket =>
          (.ok ⟨entry.state, some (encode ticket.1)⟩,
            { entry with ticket := some ⟨hash ext ticket.1, min ((clock.now 1).after TICKET_TTL) entry.until⟩ }, events)
      else (.ok ⟨entry.state, none⟩, entry, events)

/-- `status` after its wait. -/
def statusEnd (store : Pairings) (events : EventSender) (poll : Poll) (ticket : Option (Bytes 32))
    (clock : Readings) : Result StatusResponse :=
  match store.entries.get poll.request.pairingId with
  | none => (.error INVALID, store.release poll, events)
  | some entry =>
    let (result, entry, events) := statusEntry ext entry poll.request ticket clock events
    (result, (store.put poll.request.pairingId entry).release poll, events)

/-- The ticket check on one entry; an expiry found on the way stays. -/
def consumeEntry (pairingId : String) (supplied : Bytes 32) (clock : Readings) :
    Except Failure Registration × Entry :=
  let entry := entry.expire (clock.now 0)
  match entry.ticket with
  | none => (.error INVALID, entry)
  | some current =>
    let equal := matchesHash ext current.hash supplied.1
    if !equal ∨ current.until ≤ clock.now 1 ∨ entry.state ≠ .approved then (.error INVALID, entry)
    else match entry.label with
      | none => (.error INVALID, entry)
      | some label =>
        let startedAt := clock.now 2
        let registration : Registration :=
          { pairingId, deviceLabel := label, addToDevice := entry.addToDevice, startedAt
            deadline := min (startedAt.after TICKET_TTL) entry.until }
        (.ok registration, { entry with registration := some registration }.transition .registering)

def consumeTicket (store : Pairings) (pairingId ticket : String) (clock : Readings) :
    Except Failure Registration × Pairings :=
  match decode 32 ticket, store.entries.get pairingId with
  | none, _ | _, none => (.error INVALID, store)
  | some supplied, some entry =>
    let (result, entry) := consumeEntry ext entry pairingId supplied clock
    (result, store.put pairingId entry)

/-- Back to approved, for the very registration that is under way. -/
def retryRegistration (registration : Registration) (clock : Readings) :
    Except Failure Unit × Pairings :=
  match store.entries.get registration.pairingId with
  | none => (.error INVALID, store)
  | some entry =>
    let entry := entry.expire (clock.now 0)
    let entry := if entry.state = .registering ∧ entry.registration = some registration then entry.transition .approved
      else entry
    (.ok (), store.put registration.pairingId entry)

/-- The commit runs under the lock, after the last check of the entry. -/
def finish {α : Type} (store : Pairings) (registration : Registration) (commit : Unit → Except Failure α)
    (clock : Readings) : Except Failure α × Pairings :=
  match store.entries.get registration.pairingId with
  | none => (.error INVALID, store)
  | some entry =>
    let entry := entry.expire (clock.now 0)
    match entry.registration with
    | none => (.error INVALID, store.put registration.pairingId entry)
    | some current =>
      if entry.state ≠ .registering ∨ current.startedAt ≠ registration.startedAt ∨
          current.deadline ≠ registration.deadline ∨ current.deviceLabel ≠ registration.deviceLabel ∨
          current.addToDevice ≠ registration.addToDevice then
        (.error INVALID, store.put registration.pairingId entry)
      else match commit () with
        | .error e => (.error e, store.put registration.pairingId entry)
        | .ok result => (.ok result, store.put registration.pairingId (entry.transition .registered))

end Pairings
end Pairing
end Yuzora
