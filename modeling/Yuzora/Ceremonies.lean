import Yuzora.SessionDevices
/-!
# Ceremonies — the WebAuthn challenges under way

Challenges are kept by value until their deadline, in three independent pools: logins (first in, first out), elevations
(one for each session) and registrations (one for each pairing).
-/
namespace Yuzora

open Pairing (Registration)

abbrev SentChallenge := Nat

/-- A ceremony's server state is known by its challenge. -/
inductive CeremonyKind
  | registration (pairing : Registration) (deviceId : String) (state : SentChallenge)
  | login (state : SentChallenge)
  | elevation (session : Bytes 32) (scope : Scope) (state : SentChallenge)
  deriving DecidableEq

namespace CeremonyKind

def state : CeremonyKind → SentChallenge
  | .registration _ _ state | .login state | .elevation _ _ state => state

def elevationSession : CeremonyKind → Option (Bytes 32)
  | .elevation session _ _ => some session
  | _ => none

def pairingId : CeremonyKind → Option String
  | .registration pairing _ _ => some pairing.pairingId
  | _ => none

end CeremonyKind

structure Ceremony where
  «until» : Timestamp
  kind : CeremonyKind
  deriving DecidableEq

structure Ceremonies where
  entries : Table SentChallenge Ceremony
  elevationLimit : Nat
  loginOrder : List SentChallenge

def LOGIN_LIMIT : Nat := 48
def REGISTRATION_LIMIT : Nat := 16
def CHALLENGE_LIMIT : Failure := ⟨429, "Challenge limit reached"⟩

namespace Ceremonies

def new (maxDevices : Nat) : Ceremonies :=
  { entries := Table.empty, elevationLimit := maxDevices * 4, loginOrder := [] }

variable (self : Ceremonies)

def retainSessions (active : List (Bytes 32)) : Ceremonies :=
  { self with entries := self.entries.retain (fun _ c =>
      match c.kind with
      | .elevation session _ _ => decide (session ∈ active)
      | _ => true) }

def purge (now : Timestamp) : Ceremonies :=
  let entries := self.entries.retain (fun _ c => decide (now < c.until))
  { self with entries, loginOrder := self.loginOrder.filter entries.contains }

/-- Room for the new ceremony in its pool: the oldest login gives way, a session's last elevation is replaced. -/
def makeRoom (kind : CeremonyKind) : Except Failure Ceremonies :=
  match kind with
  | .login _ =>
    match self.loginOrder with
    | [] => .ok self
    | oldest :: rest =>
      if rest.length + 1 ≥ LOGIN_LIMIT then
        .ok { self with entries := self.entries.erase oldest, loginOrder := rest }
      else .ok self
  | .elevation session _ _ =>
    let self := { self with entries := self.entries.retain (fun _ c => decide (c.kind.elevationSession ≠ some session)) }
    if self.entries.count (fun _ c => c.kind.elevationSession.isSome) ≥ self.elevationLimit then .error CHALLENGE_LIMIT
    else .ok self
  | .registration pairing _ _ =>
    if self.entries.count (fun _ c => c.kind.pairingId.isSome) ≥ REGISTRATION_LIMIT ∨
        self.entries.values.any (fun c => decide (c.kind.pairingId = some pairing.pairingId)) then
      .error CHALLENGE_LIMIT
    else .ok self

/-- The ceremonies a refused insertion leaves: the purge and a replaced elevation stay. -/
def refusedRoom (kind : CeremonyKind) : Ceremonies :=
  match kind with
  | .elevation session _ _ =>
    { self with entries := self.entries.retain (fun _ c => decide (c.kind.elevationSession ≠ some session)) }
  | _ => self

def insert (self : Ceremonies) (ceremony : Ceremony) (now : Timestamp) : Except Failure Unit × Ceremonies :=
  let self := self.purge now
  match self.makeRoom ceremony.kind with
  | .error e => (.error e, self.refusedRoom ceremony.kind)
  | .ok self =>
    let key := ceremony.kind.state
    let loginOrder := match ceremony.kind with
      | .login _ => self.loginOrder ++ [key]
      | _ => self.loginOrder
    (.ok (), { self with entries := self.entries.insert key ceremony, loginOrder })

/-- The challenge is the one a browser's answer names, `none` when the answer cannot be read. -/
def takeRegistration (pairingId : String) (challenge : Option SentChallenge) (now : Timestamp) :
    Except Failure Ceremony × Ceremonies :=
  let self := self.purge now
  match challenge with
  | none => (.error REJECTED, self)
  | some key =>
    match self.entries.get key with
    | none => (.error REJECTED, self)
    | some ceremony =>
      if ceremony.kind.pairingId = some pairingId then (.ok ceremony, { self with entries := self.entries.erase key })
      else (.error REJECTED, self)

/-- A login answers to no session, an elevation to its own session and scope. -/
def bound : CeremonyKind → Option (Bytes 32 × Scope) → Bool
  | .login _, none => true
  | .elevation session scope _, some (id, requested) => decide (session = id ∧ scope = requested)
  | _, _ => false

def takeAssertion (challenge : Option SentChallenge) (session : Option (Bytes 32 × Scope))
    (now : Timestamp) : Except Failure Ceremony × Ceremonies :=
  let self := self.purge now
  match challenge with
  | none => (.error REJECTED, self)
  | some key =>
    match self.entries.get key with
    | none => (.error REJECTED, self)
    | some ceremony =>
      if bound ceremony.kind session then (.ok ceremony, { self with entries := self.entries.erase key })
      else (.error REJECTED, self)

end Ceremonies

/-! ## Which credentials may authorize a scope -/

def requiresUnbacked (policy : PasskeyBinding) (scope : Scope) : Bool :=
  decide (policy = .o1 ∨ (policy = .o2 ∧ scope = .full))

def policyAccepts (policy : PasskeyBinding) (scope : Scope) (be bs : Bool) : Bool :=
  (!bs || be) && (!requiresUnbacked policy scope || !be)

/-- Why the verifier library starts no ceremony. -/
inductive StartRefusal
  | rejected | unavailable
  deriving DecidableEq

def StartRefusal.failure : StartRefusal → Failure
  | .rejected => REJECTED
  | .unavailable => UNAVAILABLE

/-- `RelyingParty::elevation`: the library is asked with the credentials of this host that the policy accepts. -/
def elevationStart (host : String) (records : List CredentialRecord) (policy : PasskeyBinding) (scope : Scope)
    (start : List CredentialRecord → Except StartRefusal SentChallenge) : Except StartRefusal SentChallenge :=
  start (records.filter (fun c => decide (c.rpId = host) && policyAccepts policy scope c.backupEligible c.backupState))

end Yuzora
