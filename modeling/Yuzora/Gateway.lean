import Yuzora.Ceremonies
import Yuzora.Trace
/-!
# Gateway — the identity machine and its runs

The identity, the ceremonies and the event queue behind their locks, and one step for each operation.  A step carries
the operation, its clock readings and its answer; a run never turns the clock back.
-/
namespace Yuzora

open Pairing (Registration)

structure Gateway where
  rpId : String
  identity : Identity
  ceremonies : Ceremonies
  events : EventSender
  /-- No reading of the run so far is later. -/
  clock : Timestamp

namespace Gateway

def AUTHENTICATION_REQUIRED : Failure := ⟨401, "Authentication required"⟩
def ELEVATION_REQUIRED : Failure := ⟨403, "Elevation required"⟩

/-- Revalidate and make the synchronous write decision under the identity lock.  `write` runs at the last reading. -/
def withAuthorized {α : Type} (gateway : Gateway) (ctx : AuthContext) (scope : Scope) (write : Identity → α × Identity)
    (clock : Readings) : Except Panic (Except Failure α × Identity) :=
  if ctx.rpId ≠ gateway.rpId then .ok (.error AUTHENTICATION_REQUIRED, gateway.identity)
  else match gateway.identity.revalidate ctx .view (clock.now 0) with
    | .error p => .error p
    | .ok (false, identity) => .ok (.error AUTHENTICATION_REQUIRED, identity)
    | .ok (true, identity) =>
      if scope ≠ .view ∧ !identity.canElevate ctx scope (clock.now 1) then .ok (.error SCOPE_NOT_GRANTED, identity)
      else match identity.revalidate ctx scope (clock.now 2) with
        | .error p => .error p
        | .ok (false, identity) => .ok (.error ELEVATION_REQUIRED, identity)
        | .ok (true, identity) =>
          let (result, identity) := write identity
          .ok (.ok result, identity)

variable (gateway : Gateway)

def elevationCeremony (identity : Identity) (ctx : AuthContext) (scope : Scope)
    (state : SentChallenge) (clock : Readings) : Except Failure SentChallenge × Identity × Ceremonies :=
  let (active, identity) := identity.activeSessionIds (clock.now 2)
  let ceremonies := gateway.ceremonies.retainSessions active
  let «until» := min ((clock.now 3).after (seconds 120)) identity.policy.enableUntil
  match ceremonies.insert ⟨«until», .elevation ctx.sessionId scope state⟩ (clock.now 4) with
  | (.error e, ceremonies) => (.error e, identity, ceremonies)
  | (.ok (), ceremonies) => (.ok state, identity, ceremonies)

def elevationOptions (ctx : AuthContext) (scope : Scope)
    (start : List CredentialRecord → Except StartRefusal SentChallenge) (clock : Readings) :
    Except Panic (Except Failure SentChallenge × Identity × Ceremonies) :=
  if ctx.rpId ≠ gateway.rpId then .ok (.error AUTHENTICATION_REQUIRED, gateway.identity, gateway.ceremonies)
  else match gateway.identity.revalidate ctx .view (clock.now 0) with
    | .error p => .error p
    | .ok (false, identity) => .ok (.error AUTHENTICATION_REQUIRED, identity, gateway.ceremonies)
    | .ok (true, identity) =>
      if !identity.canElevate ctx scope (clock.now 1) then .ok (.error SCOPE_NOT_GRANTED, identity, gateway.ceremonies)
      else match identity.device ctx.deviceId with
        | none => .ok (.error REJECTED, identity, gateway.ceremonies)
        | some device =>
          match elevationStart gateway.rpId device.credentials identity.policy.passkeyBinding scope start with
          | .error refusal => .ok (.error refusal.failure, identity, gateway.ceremonies)
          | .ok state => .ok (gateway.elevationCeremony identity ctx scope state clock)

/-! ## Steps -/

inductive Op
  | authenticate (headers : HeaderMap) (scope : Scope)
  | revalidate (ctx : AuthContext) (scope : Scope)
  | validate (id : Bytes 32) (rpId : String) (scope : Scope)
  | withAuthorized (ctx : AuthContext) (scope : Scope)
  | elevate (ctx : AuthContext) (scope : Scope)
  | command (command : DeviceCommand)
  | registerVerified (pairing : Registration) (verified : Identity.VerifiedRegistration)
  | finishAssertion (response : Identity.AssertionResponse)
      (verify : CredentialRecord → Except Identity.AssertionFailure Identity.VerifiedAssertion)
      (ctx : Option (AuthContext × Scope)) (draw : Identity.SessionDraw) (owners : Visit Device)
      (sessions : Visit (Bytes 32 × Session))
  | assertionFailed (id : String) (rollback : Bool)
  | logout (id : Bytes 32)
  | purgeExpired
  | maintenance (dirty : Visit String) (deferred : Visit (String × Option Device))
  | registerPeer (ctx : AuthContext)
  | unregisterPeer (id : Nat)
  | elevationOptions (ctx : AuthContext) (scope : Scope)
      (start : List CredentialRecord → Except StartRefusal SentChallenge)
  | insertCeremony (ceremony : Ceremony)
  | takeRegistration (pairingId : String) (challenge : Option SentChallenge)
  | takeAssertion (challenge : Option SentChallenge) (session : Option (Bytes 32 × Scope))
  | purgeCeremonies

inductive Outcome
  | done
  | context (ctx : Option AuthContext)
  | valid (answer : Bool)
  | authorized (answer : Except Failure Unit)
  | elevation («until» : Option Timestamp)
  | command (answer : Except Failure AdminResult)
  | registration (answer : Except Failure String)
  | assertion (answer : Except Failure Identity.AssertionResult)
  | peer (answer : Except Failure (Option Nat))
  | options (answer : Except Failure SentChallenge)
  | inserted (answer : Except Failure Unit)
  | ceremony (answer : Except Failure Ceremony)

variable (ext : External)

def identityStep (gateway : Gateway) (op : Op) (clock : Readings) :
    Except Panic (Outcome × Identity × EventSender) :=
  let self := gateway.identity
  let events := gateway.events
  match op with
  | .authenticate headers scope =>
    match self.authenticate ext headers gateway.rpId scope clock with
    | .error p => .error p
    | .ok (ctx, self) => .ok (.context ctx, self, events)
  | .revalidate ctx scope =>
    match self.revalidate ctx scope (clock.now 0) with
    | .error p => .error p
    | .ok (answer, self) => .ok (.valid answer, self, events)
  | .validate id rpId scope =>
    match self.validate id rpId scope (clock.now 0) with
    | .error p => .error p
    | .ok (answer, self) => .ok (.valid answer, self, events)
  | .withAuthorized ctx scope =>
    match gateway.withAuthorized ctx scope (fun self => ((), self)) clock with
    | .error p => .error p
    | .ok (answer, self) => .ok (.authorized answer, self, events)
  | .elevate ctx scope =>
    match self.elevate ctx scope clock with
    | .error p => .error p
    | .ok («until», self) => .ok (.elevation «until», self, events)
  | .command command =>
    let (answer, self, events) := self.command command events
    .ok (.command answer, self, events)
  | .registerVerified pairing verified =>
    let (answer, self, events) := self.registerVerified ext pairing verified events clock
    .ok (.registration answer, self, events)
  | .finishAssertion response verify ctx draw owners sessions =>
    match self.finishAssertion ext gateway.rpId response verify ctx draw owners sessions events clock with
    | .error p => .error p
    | .ok (answer, self, events) => .ok (.assertion answer, self, events)
  | .assertionFailed id rollback => .ok (.done, self.assertionFailed id rollback events)
  | .logout id => .ok (.done, self.logout id, events)
  | .purgeExpired => .ok (.done, self.purgeExpired (clock.now 0), events)
  | .maintenance dirty deferred => .ok (.done, self.maintenance events dirty deferred clock)
  | .registerPeer ctx =>
    match gateway.withAuthorized ctx .view (fun self => self.registerPeer ctx) clock with
    | .error p => .error p
    | .ok (answer, self) => .ok (.peer answer, self, events)
  | .unregisterPeer id => .ok (.done, self.unregisterPeer id, events)
  | .elevationOptions ctx scope start =>
    match gateway.elevationOptions ctx scope start clock with
    | .error p => .error p
    | .ok (answer, self, _) => .ok (.options answer, self, events)
  | .insertCeremony ceremony => .ok (.inserted (gateway.ceremonies.insert ceremony (clock.now 0)).1, self, events)
  | .takeRegistration pairingId challenge =>
    .ok (.ceremony (gateway.ceremonies.takeRegistration pairingId challenge (clock.now 0)).1, self, events)
  | .takeAssertion challenge session =>
    .ok (.ceremony (gateway.ceremonies.takeAssertion challenge session (clock.now 0)).1, self, events)
  | .purgeCeremonies => .ok (.done, self, events)

/-- What one operation does to the ceremonies.  A login or a registration inserts a ceremony on its own; an elevation
only through its options. -/
def ceremonyStep (op : Op) (clock : Readings) : Ceremonies :=
  match op with
  | .elevationOptions ctx scope start =>
    match gateway.elevationOptions ctx scope start clock with
    | .error _ => gateway.ceremonies
    | .ok (_, _, ceremonies) => ceremonies
  | .insertCeremony ceremony => (gateway.ceremonies.insert ceremony (clock.now 0)).2
  | .takeRegistration pairingId challenge =>
    (gateway.ceremonies.takeRegistration pairingId challenge (clock.now 0)).2
  | .takeAssertion challenge session => (gateway.ceremonies.takeAssertion challenge session (clock.now 0)).2
  | .purgeCeremonies => gateway.ceremonies.purge (clock.now 0)
  | _ => gateway.ceremonies

def step (gateway : Gateway) (op : Op) (clock : Readings) : Except Panic (Outcome × Gateway) :=
  match gateway.identityStep ext op clock with
  | .error p => .error p
  | .ok (outcome, identity, events) =>
    .ok (outcome, { gateway with identity, events, ceremonies := gateway.ceremonyStep op clock, clock := clock.done })

structure Label where
  op : Op
  clock : Readings
  outcome : Outcome

/-- Elevation ceremonies come from `elevationOptions` alone. -/
def Op.proper : Op → Prop
  | .insertCeremony ceremony => ceremony.kind.elevationSession = none
  | _ => True

def Step (s : Gateway) (label : Label) (t : Gateway) : Prop :=
  label.op.proper ∧ s.clock ≤ label.clock.now 0 ∧ s.step ext label.op label.clock = .ok (label.outcome, t)

/-- A gateway as it starts: an accepted device list, no ceremonies, nothing sent. -/
def Init (devices : List Device) (policy : Policy) (s : Gateway) : Prop :=
  Identity.new ext devices policy = .ok s.identity ∧ s.ceremonies = Ceremonies.new policy.maxDevices ∧
    s.events.accepted = []

abbrev Run (devices : List Device) (policy : Policy) (l : List (Transition Gateway Label)) (s : Gateway) : Prop :=
  Trace (Init ext devices policy) (Step ext) l s

end Gateway
end Yuzora
