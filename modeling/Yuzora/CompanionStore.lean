import Yuzora.Json
import Yuzora.Table
/-!
# CompanionStore — the desktop's devices and subscriptions

The desktop keeps each device as the gateway reported it, and the phones' push subscriptions.  Both are files: memory
follows a write only after it worked.
-/
namespace Yuzora
namespace Companion

/-- What the code takes from elsewhere: instants of RFC 3339 texts, the parts of an URL, curve points, digests, and
which values deserialize as a snapshot of the peers. -/
structure Outside where
  instant : String → Option Int
  url : String → Option (String × String × Bool × Bool × Bool)
  point : List UInt8 → Bool
  sha256 : String → List UInt8
  isSnapshot : Json → Bool

/-! ## devices.json -/

abbrev Devices : Type := List Json

/-- `device_id`. -/
def deviceId (device : Json) : Option String :=
  match (device.field? "deviceId").bind Json.asStr with
  | some id => if id = "" then none else some id
  | none => none

/-- The list with the device in the place of the one with its id, or at the end. -/
def replaced (id : String) (device : Json) : Devices → Devices
  | [] => [device]
  | d :: rest => if deviceId d = some id then device :: rest else d :: replaced id device rest

variable (write : Except String Unit)

/-- What `Devices::commit` leaves: the new list, unless the write failed. -/
def commit (next : Devices) : Except String Devices :=
  match write with
  | .ok () => .ok next
  | .error code => .error code

def upsert (device : Json) (devices : Devices) : Except String Devices :=
  match deviceId device with
  | none => .error "companion-device-invalid"
  | some id => commit write (replaced id device devices)

def remove (id : String) (devices : Devices) : Except String Devices :=
  commit write (devices.filter fun d => deviceId d ≠ some id)

def sooner : Option Int → Option Int → Bool
  | none, some _ => true
  | some a, some b => a < b
  | _, none => false

variable (outside : Outside)

def mixed (old new : Json) : Bool :=
  let «until» (grants : Json) : Option Int := (((grants.get "control").get "until").asStr).bind outside.instant
  let full (grants : Json) : Bool := ((grants.get "full").asBool).getD false
  let tightening := sooner («until» new) («until» old) || (!full new && full old)
  let widening := sooner («until» old) («until» new) || (full new && !full old)
  tightening && widening

def carried (frame : Json) (field : String) : Option Json :=
  match frame.field? field with
  | some .null => none
  | value => value

def edited (frame device : Json) : Except String Json :=
  match (frame.get "type").asStr with
  | some "device.update" =>
    let label := carried frame "label"
    let grants := carried frame "grants"
    if label.isNone && grants.isNone then .error "companion-device-invalid"
    else if grants.any (mixed outside (device.get "grants")) then .error "companion-grants-mixed"
    else
      let device := (label.map (device.set "label")).getD device
      .ok ((grants.map (device.set "grants")).getD device)
  | some "device.unlock" => .ok (device.set "locked" (.bool false))
  | _ => .error "companion-device-invalid"

def apply (write : Except String Unit) (frame : Json) (devices : Devices) :
    Except String Devices :=
  match (frame.get "deviceId").asStr with
  | none => .error "companion-device-invalid"
  | some id =>
    if (frame.get "type").asStr = some "device.revoke" then remove write id devices
    else
      match devices.find? fun d => deviceId d = some id with
      | none => .error "companion-device-unknown"
      | some device =>
        match edited outside frame device with
        | .error code => .error code
        | .ok device => upsert write device devices

def reflects (frame device : Json) : Bool :=
  let «until» (grants : Json) : Option (Option Int) := ((grants.get "control").get "until").asStr.map outside.instant
  match (frame.get "type").asStr with
  | some "device.unlock" => (device.get "locked").beq (.bool false)
  | some "device.update" =>
    let label := frame.get "label"
    let grants := frame.get "grants"
    (label.isNull || (device.get "label").beq label) &&
      (grants.isNull || (((device.get "grants").get "full").beq (grants.get "full") &&
        decide («until» (device.get "grants") = «until» grants)))
  | _ => false

def deviceSummary (device : Json) : Json :=
  .object (["deviceId", "label", "grants", "locked", "createdAt", "lastSeen"].map fun f => (f, device.get f))

/-! ## push.json -/

structure Subscription where
  endpoint : String
  p256dh : String
  auth : String
  createdAt : String
  deriving DecidableEq

abbrev Subscriptions : Type := Table String (List Subscription)

def PUSH_HOSTS : List String :=
  ["push.apple.com", "fcm.googleapis.com", "updates.push.services.mozilla.com", "notify.windows.com"]
def ENDPOINT_BYTES : Nat := 2048
def ENDPOINTS_PER_DEVICE : Nat := 4

def allowedHost (host : String) : Bool :=
  PUSH_HOSTS.any fun allowed => host = allowed || ("." ++ allowed).toList.isSuffixOf host.toList

/-- `Subscription::keys` finds keys: the URL's scheme, host, and whether it has a user, a password or a fragment. -/
def hasKeys (subscription : Subscription) : Bool :=
  match outside.url subscription.endpoint with
  | none => false
  | some (scheme, host, user, password, fragment) =>
    decide (subscription.endpoint.utf8ByteSize ≤ ENDPOINT_BYTES) &&
      subscription.endpoint.toList.all (fun c => decide (0x21 ≤ c.toNat ∧ c.toNat ≤ 0x7e)) && scheme = "https" &&
      !user && !password && !fragment && allowedHost host &&
      match decodeBase64 subscription.p256dh, decodeBase64 subscription.auth with
      | some «public», some auth =>
        decide («public».length = 65) && «public».head? = some 4 && decide (auth.length = 16) && outside.point «public»
      | _, _ => false

def endpointId (endpoint : String) : String := encode (outside.sha256 endpoint)

/-- Valid subscriptions, each endpoint once (the later one wins), the newest four. -/
def tidy (list : List Subscription) : List Subscription :=
  let kept := list.foldl (fun kept s =>
    if hasKeys outside s then kept.filter (fun other => other.endpoint ≠ s.endpoint) ++ [s] else kept) []
  kept.drop (kept.length - ENDPOINTS_PER_DEVICE)

/-- The `subscription` of an event: exactly these fields, or their values in order. -/
def reported (value : Json) (createdAt : String) : Option Subscription :=
  match value with
  | .array [.string endpoint, .string p256dh, .string auth] => some ⟨endpoint, p256dh, auth, createdAt⟩
  | .object fields =>
    match (value.get "endpoint").asStr, (value.get "p256dh").asStr, (value.get "auth").asStr with
    | some endpoint, some p256dh, some auth =>
      if fields.all fun f => f.1 ∈ ["endpoint", "p256dh", "auth"] then some ⟨endpoint, p256dh, auth, createdAt⟩ else none
    | _, _, _ => none
  | _ => none

/-- `Push::saved`: whether the write worked, and the subscriptions after it. -/
def saved (next subscriptions : Subscriptions) : Bool × Subscriptions :=
  match write with
  | .ok () => (true, next)
  | .error _ => (false, subscriptions)

/-- `Push::subscription`. -/
def subscribe (write : Except String Unit) (createdAt device : String) (value : Json)
    (subscriptions : Subscriptions) : Bool × Subscriptions :=
  match reported value createdAt with
  | none => (false, subscriptions)
  | some subscription =>
    if hasKeys outside subscription then
      saved write (subscriptions.insert device (tidy outside ((subscriptions.get device).getD [] ++ [subscription])))
        subscriptions
    else (false, subscriptions)

/-- `Push::unsubscribe`. -/
def unsubscribe (write : Except String Unit) (device endpoint : String)
    (subscriptions : Subscriptions) : Bool × Subscriptions :=
  match subscriptions.get device with
  | none => (false, subscriptions)
  | some list =>
    let kept := list.filter fun s => endpointId outside s.endpoint ≠ endpoint
    if kept.length = list.length then (false, subscriptions)
    else saved write (if kept.isEmpty then subscriptions.erase device else subscriptions.insert device kept) subscriptions

/-- `Push::forget`. -/
def forget (device : String) (subscriptions : Subscriptions) : Bool × Subscriptions :=
  match subscriptions.get device with
  | none => (false, subscriptions)
  | some _ => saved write (subscriptions.erase device) subscriptions

end Companion
end Yuzora
