import Yuzora.Devices
/-!
# Admin — the desktop channel: policy, commands, events

The desktop sends commands and reads one queue of events.  Whether the queue takes an event is not the gateway's to
decide: an `EventSender` carries the outcome of every attempt, and keeps what was accepted, in queue order.
-/
namespace Yuzora

/-- A refusal: the HTTP status and its message. -/
structure Failure where
  status : Nat
  message : String
  deriving DecidableEq

/-- A failed `expect`, index or `unreachable!`. -/
inductive Panic
  | index
  | expect (message : String)
  | unreachable
  deriving DecidableEq

inductive Scope
  | view | control | full
  deriving DecidableEq

inductive PasskeyBinding
  | o1 | o2 | o3
  deriving DecidableEq

structure Policy where
  enableUntil : Timestamp
  viewIdleMin : Nat
  viewAbsoluteHours : Nat
  elevationMaxMin : Nat
  fullSessionEnabled : Bool
  maxDevices : Nat
  passkeyBinding : PasskeyBinding
  deriving DecidableEq

def Policy.valid (policy : Policy) : Bool :=
  decide (1 ≤ policy.viewIdleMin ∧ policy.viewIdleMin ≤ 30) &&
    decide (1 ≤ policy.viewAbsoluteHours ∧ policy.viewAbsoluteHours ≤ 12) &&
    decide (1 ≤ policy.elevationMaxMin ∧ policy.elevationMaxMin ≤ 15) &&
    decide (1 ≤ policy.maxDevices ∧ policy.maxDevices ≤ 64)

inductive PairingCommand
  | create (path : String) (addToDevice : Option String)
  | approve (pairingId : String)
  | reject (pairingId : String)
  | cancel (pairingId : String)
  deriving DecidableEq

inductive DeviceCommand
  | update (deviceId : String) (label : Option String) (grants : Option Grants)
  | revoke (deviceId : String)
  | unlock (deviceId : String)

def DeviceCommand.deviceId : DeviceCommand → String
  | .update id _ _ | .revoke id | .unlock id => id

/-- A deferred result means the decision is committed, not failed. -/
inductive AdminResult
  | applied
  | notificationDeferred (command target : String)
  deriving DecidableEq

inductive Event
  | deviceRegistered (device : Device)
  | deviceUpdated (device : Device)
  | deviceRevoked (deviceId : String)
  | pairingCreated (pairingId url : String) (expiresAt : Timestamp)
  | pairingClaimed (pairingId deviceLabel sas tailscaleLogin userAgent : String)
  | pairingState (pairingId state reason : String)
  deriving DecidableEq

structure EventSender where
  outcomes : Nat → Bool
  attempts : Nat
  accepted : List Event

namespace EventSender

variable (events : EventSender)

variable (event : Event)

def tryEmit : Bool × EventSender :=
  if events.outcomes events.attempts then
    (true, { events with attempts := events.attempts + 1, accepted := events.accepted ++ [event] })
  else (false, { events with attempts := events.attempts + 1 })

def took : EventSender :=
  { events with attempts := events.attempts + 1, accepted := events.accepted ++ [event] }

def refused : EventSender := { events with attempts := events.attempts + 1 }

theorem tryEmit_cases :
    events.tryEmit event = (true, events.took event) ∨ events.tryEmit event = (false, events.refused) := by
  unfold tryEmit
  split
  · exact .inl rfl
  · exact .inr rfl

@[simp] theorem took_accepted :
    (events.took event).accepted = events.accepted ++ [event] := rfl

end EventSender

def QUEUE_UNAVAILABLE : Failure := ⟨503, "Admin event queue unavailable"⟩

/-- `http::try_emit_event`. -/
def tryEmitEvent (events : EventSender) (event : Event) : Except Failure Unit × EventSender :=
  match events.tryEmit event with
  | (true, events) => (.ok (), events)
  | (false, events) => (.error QUEUE_UNAVAILABLE, events)

theorem tryEmitEvent_cases (events : EventSender) (event : Event) :
    tryEmitEvent events event = (.ok (), events.took event) ∨
      tryEmitEvent events event = (.error QUEUE_UNAVAILABLE, events.refused) := by
  unfold tryEmitEvent
  rcases events.tryEmit_cases event with h | h <;> simp [h]

/-! ## WebAuthn answers shared by every handler -/

def REJECTED : Failure := ⟨403, "WebAuthn request rejected"⟩
def UNAVAILABLE : Failure := ⟨503, "Authentication unavailable"⟩
def SCOPE_NOT_GRANTED : Failure := ⟨403, "Scope not granted"⟩

end Yuzora
