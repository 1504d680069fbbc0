import Yuzora.Secrets
/-!
# Devices — the paired phones' records

A device carries its passkeys, its grants and its lock.  `Device.valid` is what the program checks of every record it
accepts, from the desktop or from a registration.
-/
namespace Yuzora

/-! ## Texts -/

/-- `char::is_whitespace`. -/
def isWhitespace (c : Char) : Bool :=
  let n := c.toNat
  decide ((9 ≤ n ∧ n ≤ 13) ∨ n = 0x20 ∨ n = 0x85 ∨ n = 0xa0 ∨ n = 0x1680 ∨ (0x2000 ≤ n ∧ n ≤ 0x200a) ∨ n = 0x2028 ∨
    n = 0x2029 ∨ n = 0x202f ∨ n = 0x205f ∨ n = 0x3000)

/-- `char::is_control`. -/
def isControl (c : Char) : Bool := decide (c.toNat < 0x20 ∨ (0x7f ≤ c.toNat ∧ c.toNat ≤ 0x9f))

/-- Unicode format characters and line separators: labels must not hide or reorder approval text. -/
def labelFormat (c : Char) : Bool :=
  let n := c.toNat
  decide (n = 0x00ad ∨ (0x0600 ≤ n ∧ n ≤ 0x0605) ∨ n = 0x061c ∨ n = 0x06dd ∨ n = 0x070f ∨ (0x0890 ≤ n ∧ n ≤ 0x0891) ∨
    n = 0x08e2 ∨ n = 0x180e ∨ (0x200b ≤ n ∧ n ≤ 0x200f) ∨ (0x2028 ≤ n ∧ n ≤ 0x202e) ∨ (0x2060 ≤ n ∧ n ≤ 0x2064) ∨
    (0x2066 ≤ n ∧ n ≤ 0x206f) ∨ n = 0xfeff ∨ (0xfff9 ≤ n ∧ n ≤ 0xfffb) ∨ n = 0x110bd ∨ n = 0x110cd ∨
    (0x13430 ≤ n ∧ n ≤ 0x1343f) ∨ (0x1bca0 ≤ n ∧ n ≤ 0x1bca3) ∨ (0x1d173 ≤ n ∧ n ≤ 0x1d17a) ∨ n = 0xe0001 ∨
    (0xe0020 ≤ n ∧ n ≤ 0xe007f))

variable (value : String)

def validLabel : Bool :=
  decide (value.utf8ByteSize ≠ 0 ∧ value.utf8ByteSize ≤ 80) &&
    !(value.toList.head?.any isWhitespace) && !(value.toList.getLast?.any isWhitespace) &&
    value.toList.all (fun c => !isControl c && !labelFormat c)

def splitDots : List Char → List (List Char)
  | [] => [[]]
  | c :: rest =>
    if c = '.' then [] :: splitDots rest
    else match splitDots rest with
      | [] => [[c]]
      | part :: parts => (c :: part) :: parts

/-- A part of a dotted IPv4 address: a decimal byte without leading zeros. -/
def ipv4Part (part : List Char) : Bool :=
  part.all Char.isDigit && decide (part ≠ []) && decide (part.length ≤ 3) && (decide (part.length = 1) || decide (part.head? ≠ some '0')) &&
    decide (part.foldl (fun n c => n * 10 + (c.toNat - 48)) 0 ≤ 255)

/-- A host name and no address.  An IPv6 address has a colon, which the labels exclude: only IPv4 is left to refuse. -/
def validRpId : Bool :=
  let parts := splitDots value.toList
  decide (value.utf8ByteSize ≠ 0 ∧ value.utf8ByteSize ≤ 253) && !(decide (parts.length = 4) && parts.all ipv4Part) &&
    parts.all (fun part => decide (part ≠ [] ∧ part.length ≤ 63) && decide (part.head? ≠ some '-') &&
      decide (part.getLast? ≠ some '-') && part.all (fun c => c.isLower || c.isDigit || c == '-'))

/-! ## Records -/

structure ControlGrant where
  «until» : Timestamp
  deriving DecidableEq

structure Grants where
  control : Option ControlGrant
  full : Bool
  deriving DecidableEq

inductive Transport
  | usb | nfc | ble | internal | hybrid | smartCard
  deriving DecidableEq

structure CredentialRecord where
  id : String
  rpId : String
  publicKeyState : String
  stateFormat : String
  signCount : UInt32
  backupEligible : Bool
  backupState : Bool
  transports : List Transport
  deriving DecidableEq

def STATE_FORMAT : String := "webauthn_rp-0.3.0-static"
def MAX_KEY_STATE_BYTES : Nat := 2058

/-- `webauthn::key_state(value).is_some()`. -/
def keyState (ext : External) (value : String) : Bool :=
  decide (value.utf8ByteSize ≤ (MAX_KEY_STATE_BYTES + 2) / 3 * 4) &&
    (decodeBase64 value).any (fun bytes => decide (bytes.length ≤ MAX_KEY_STATE_BYTES) && ext.acceptsKey bytes)

def binary (max : Nat) : Bool :=
  decide (value.utf8ByteSize ≠ 0 ∧ value.utf8ByteSize ≤ (max + 2) / 3 * 4) &&
    (decodeBase64 value).any (fun v => decide (v ≠ [] ∧ v.length ≤ max))

def CredentialRecord.valid (ext : External) (record : CredentialRecord) : Bool :=
  binary record.id 1024 && decide (record.stateFormat = STATE_FORMAT) && keyState ext record.publicKeyState &&
    validRpId record.rpId && (!record.backupState || record.backupEligible) && decide (record.transports.length ≤ 6) &&
    decide record.transports.Nodup

structure Device where
  deviceId : String
  label : String
  credentials : List CredentialRecord
  grants : Grants
  locked : Bool
  createdAt : Timestamp
  lastSeen : Timestamp
  deriving DecidableEq

namespace Device

def valid (ext : External) (device : Device) : Bool :=
  (decode 16 device.deviceId).isSome && validLabel device.label && decide (device.credentials ≠ []) &&
    decide (device.credentials.length ≤ 8) && device.credentials.all (CredentialRecord.valid ext) &&
    decide (device.credentials.map (fun c => (c.rpId, c.id))).Nodup && decide (device.createdAt ≤ device.lastSeen)

def hasCredential (device : Device) (rpId : String) : Bool := device.credentials.any (fun c => decide (c.rpId = rpId))

end Device

end Yuzora
