import Yuzora.Admin
import Yuzora.Allocations
import Yuzora.Trace
/-!
# WriteAudit — the write audit of the companion

A stream that opened tells the desktop when it is torn down.  What the queue does not take then is kept for the next
maintenance pass, a bundle for each stream; what is not kept is counted, and the count is told as soon as the queue
takes it.  Whether it takes an event is not the gateway's to decide.
-/
namespace Yuzora
namespace WriteAudit

/-! ## Events -/

/-- The summary of an audit event. -/
inductive Summary
  | reason (reason : String)
  | stalled (phase reason : String)
  | outcome (outcome : String)
  | method (method : String)
  | count (count : Nat)
  deriving DecidableEq

inductive Body
  | audit (deviceId : String) (peerId : Nat) (scope : Scope) (action session : String) (target : Option String)
      (summary : Summary) («at» : Timestamp)
  | controlState (deviceId : String) (peerId : Nat) (stream : String) (seq : Nat) (session target : String)
      (takeover «open» : Bool)
  | fullState (deviceId : String) (peerId : Nat) (stream : String) (seq : Nat) (session : String) («open» : Bool)
  | dropped (lost lostTightening rejectedOmitted : Nat) (since : Timestamp)
  /-- What others tell the desktop. -/
  | other (text : String)
  deriving DecidableEq

/-- An event, and the stream whose teardown made it; the queue does not read that. -/
structure Event where
  body : Body
  teardown : Option Nat
  deriving DecidableEq

/-! ## What the queue did not take -/

structure Dropped where
  lost : Nat
  lostTightening : Nat
  rejectedOmitted : Nat
  since : Timestamp

structure Deferred where
  pending : Table Nat (String × List Event)
  dropped : Option Dropped

namespace Deferred

def new : Deferred := ⟨.empty, none⟩

variable (d : Deferred)

def pendingFor (device : String) : Bool := d.pending.values.any fun bundle => decide (bundle.1 = device)

def counts (now : Timestamp) : Dropped := d.dropped.getD ⟨0, 0, 0, now⟩

def lost (d : Deferred) (count : Nat) (now : Timestamp) : Deferred :=
  { d with dropped := some { d.counts now with lost := satAdd (d.counts now).lost count } }

def lostTightening (d : Deferred) (count : Nat) (now : Timestamp) : Deferred :=
  let d := d.lost count now
  { d with dropped := some { d.counts now with lostTightening := satAdd (d.counts now).lostTightening count } }

def rejectedOmitted (d : Deferred) (now : Timestamp) : Deferred :=
  { d with dropped := some { d.counts now with rejectedOmitted := satAdd (d.counts now).rejectedOmitted 1 } }

def MAX_PENDING : Nat := 64

/-- Keeps a bundle, and the events that this loses: a bundle it takes the place of, or its own. -/
def retain (key : Nat) (device : String) (events : List Event) (now : Timestamp) : Deferred × List Event :=
  if d.pending.size < MAX_PENDING ∨ d.pending.contains key = true then
    let kept := { d with pending := d.pending.insert key (device, events) }
    match d.pending.get key with
    | none => (kept, [])
    | some (_, old) => (kept.lostTightening old.length now, old)
  else (d.lostTightening events.length now, events)

end Deferred

/-! ## Telling -/

/-- What a loop of attempts comes to. -/
structure Told where
  sent : List Event
  rest : List Event
  attempts : Nat

/-- Tells events in order until the queue refuses one; `takes` answers each attempt. -/
def tell (takes : Nat → Bool) : Nat → List Event → Told
  | n, [] => ⟨[], [], n⟩
  | n, event :: events =>
    if takes n then
      let told := tell takes (n + 1) events
      ⟨event :: told.sent, told.rest, told.attempts⟩
    else ⟨[], event :: events, n + 1⟩

/-- What a pass over the pending bundles comes to. -/
structure Pass where
  pending : Table Nat (String × List Event)
  sent : List Event
  attempts : Nat

/-- `pending.retain`: each bundle in turn, and none is kept that is told. -/
def flushBundles (takes : Nat → Bool) : List Nat → Pass → Pass
  | [], pass => pass
  | key :: keys, pass =>
    match pass.pending.get key with
    | none => flushBundles takes keys pass
    | some (device, events) =>
      let told := tell takes pass.attempts events
      flushBundles takes keys
        { pending := if told.rest.isEmpty then pass.pending.erase key else pass.pending.insert key (device, told.rest)
          sent := pass.sent ++ told.sent
          attempts := told.attempts }

/-! ## Streams -/

/-- `Audit`: who writes, where, and the key of the stream. -/
structure Audit where
  device : String
  peerId : Nat
  session : String
  target : Option String
  scope : Scope
  key : Nat

variable (self : Audit)

def Audit.event (action : String) (summary : Summary) («at» : Timestamp) : Body :=
  .audit self.device self.peerId self.scope action self.session self.target summary «at»

/-- `Audit::state`. -/
def Audit.state («open» takeover : Bool) : Body :=
  let seq := if «open» then 1 else 2
  if self.scope = .full then .fullState self.device self.peerId (toString self.key) seq self.session «open»
  else .controlState self.device self.peerId (toString self.key) seq self.session (self.target.getD "") takeover «open»

def Audit.teardown (reason : String) (announced : Bool) («at» : Timestamp) : List Event :=
  let action :=
    if reason = "elevation-expired" then "expiry"
    else if reason = "session-invalid" then "revoke"
    else if self.scope = .full then "full.close"
    else "terminal.release"
  ⟨self.event action (.reason reason) «at», some self.key⟩ ::
    if announced then [⟨self.state false false, some self.key⟩] else []

structure LiveStream where
  device : String
  peerId : Nat
  session : String
  target : Option String
  scope : Scope

/-- `WriteStream`, with the reservation that its work holds. -/
structure Stream where
  audit : Audit
  announced : Bool
  leased : Bool
  takeover : Bool
  reserved : Bool

/-- The rejections of one peer. -/
structure Rejections where
  count : Nat
  next : Option Timestamp

structure State where
  /-- `NEXT`: the key of the next stream. -/
  next : Nat
  streams : Table Nat Stream
  deferred : Deferred
  live : Table Nat LiveStream
  rejections : Nat → Rejections
  /-- What the queue took, in order. -/
  sent : List Event
  /-- What the teardowns made. -/
  made : List Event
  /-- What was counted in `lost_tightening`. -/
  counted : List Event

namespace State

variable (s : State)

def send (body : Body) : State := { s with sent := s.sent ++ [⟨body, none⟩] }

def updated (stream : Stream) : State := { s with streams := s.streams.insert stream.audit.key stream }

/-- An ordinary event that found the queue full is counted, never retried. -/
def ordinary (body : Body) (takes : Bool) (now : Timestamp) : State :=
  if takes then s.send body else { s with deferred := s.deferred.lost 1 now }

def stalled (s : State) (audit : Audit) (phase : String) (takes : Bool) (now : Timestamp) : State :=
  s.ordinary (audit.event "herdr-io-stalled" (.stalled phase "stream-stalled") now) takes now

def cancelled (s : State) (audit : Audit) (input : Bool) (outcome : String) (takes : Bool) (now : Timestamp) : State :=
  s.ordinary (audit.event (if input then "input.cancelled" else "write.cancelled") (.outcome outcome) now) takes now

def openFailed (audit : Audit) (reason : String) (takes : Bool) (now : Timestamp) : State :=
  s.ordinary (audit.event "open.failed" (.reason reason) now) takes now

def gitRead (device : String) (peerId : Nat) (session workspaceId method : String) (takes : Bool)
    (now : Timestamp) : State :=
  s.ordinary (.audit device peerId .view "git.read" session (some workspaceId) (.method method) now) takes now

/-- `Audit::rejected`: counted, and one summary for each peer every ten seconds at most. -/
def rejected (s : State) (audit : Audit) (takes : Bool) (now : Timestamp) : State :=
  let s := { s with deferred := s.deferred.rejectedOmitted now }
  let current := s.rejections audit.peerId
  let count := satAdd current.count 1
  let put (rejections : Rejections) (s : State) : State :=
    { s with rejections := fun peer => if peer = audit.peerId then rejections else s.rejections peer }
  if current.next.all fun next => decide (next ≤ now) then
    if takes then put ⟨0, some (now.after (seconds 10))⟩ (s.send (audit.event "write.rejected" (.count count) now))
    else put ⟨count, some (now.after (seconds 10))⟩ s
  else put ⟨count, current.next⟩ s

/-- `Audit::tightened`: told as far as the queue takes it, and the rest kept. -/
def tightened (audit : Audit) (reason : String) (announced : Bool) (takes : Nat → Bool) (now : Timestamp) :
    State :=
  let events := audit.teardown reason announced now
  let s := if announced then { s with live := s.live.erase audit.key } else s
  let told := tell takes 0 events
  let s := { s with sent := s.sent ++ told.sent, made := s.made ++ events }
  if told.rest.isEmpty then s
  else
    let (deferred, counted) := s.deferred.retain audit.key audit.device told.rest now
    { s with deferred, counted := s.counted ++ counted }

/-- `Deferred::flush`: the bundles in the map's order, and then the record. -/
def flush (visit : Visit Nat) (takes : Nat → Bool) : State :=
  let pass := flushBundles takes (visit.order s.deferred.pending.keys) ⟨s.deferred.pending, s.sent, 0⟩
  match s.deferred.dropped with
  | none => { s with deferred := { s.deferred with pending := pass.pending }, sent := pass.sent }
  | some record =>
    if takes pass.attempts then
      { s with
        deferred := ⟨pass.pending, none⟩
        sent := pass.sent ++ [⟨.dropped record.lost record.lostTightening record.rejectedOmitted record.since, none⟩] }
    else { s with deferred := { s.deferred with pending := pass.pending }, sent := pass.sent }

/-- `Audit::announce`: the reserved place takes it. -/
def announce (stream : Stream) : State :=
  let audit := stream.audit
  { s.send (audit.state true stream.takeover) with
    live := s.live.insert audit.key ⟨audit.device, audit.peerId, audit.session, audit.target, audit.scope⟩ }

end State

/-! ## Steps -/

inductive Action
  /-- A key for an audit that tears nothing down. -/
  | audit
  | admitOpen (device : String) (peerId : Nat) (scope : Scope) (session : String) (target : Option String)
      (takeover : Bool)
  | reserveAnnouncement (key : Nat) (takes : Bool)
  /-- The work of an open ends without it. -/
  | unreserve (key : Nat)
  | lease (key : Nat) (leased : Bool)
  | announce (key : Nat) (target : Option String)
  /-- A write stream is dropped, for the reason it was closed for. -/
  | drop (key : Nat) (reason : String) (takes : Nat → Bool) (now : Timestamp)
  | flush (visit : Visit Nat) (takes : Nat → Bool)
  | stalled (audit : Audit) (phase : String) (takes : Bool) (now : Timestamp)
  | cancelled (audit : Audit) (input : Bool) (outcome : String) (takes : Bool) (now : Timestamp)
  | gitRead (device : String) (peerId : Nat) (session workspaceId method : String) (takes : Bool) (now : Timestamp)
  | rejected (audit : Audit) (takes : Bool) (now : Timestamp)
  /-- An event of others, which the queue took, or which is counted where it did not. -/
  | other (text : String)
  | eventLost (now : Timestamp)

/-- The key of a new audit; `checked_add` on the last one panics. -/
def State.taken (s : State) : Option State := if s.next < usizeMax then some { s with next := s.next + 1 } else none

def next (s : State) : Action → Option State
  | .audit => s.taken
  | .admitOpen device peerId scope session target takeover =>
    if s.deferred.pendingFor device then none
    else s.taken.map fun t => t.updated ⟨⟨device, peerId, session, target, scope, s.next⟩, false, false, takeover, false⟩
  | .reserveAnnouncement key takes =>
    (s.streams.get key).bind fun stream =>
      if stream.announced || stream.reserved then none
      else if s.deferred.pendingFor stream.audit.device then some s
      else some (if takes then s.updated { stream with reserved := true } else s)
  | .unreserve key => (s.streams.get key).map fun stream => s.updated { stream with reserved := false }
  | .lease key leased => (s.streams.get key).map fun stream => s.updated { stream with leased }
  | .announce key target =>
    (s.streams.get key).bind fun stream =>
      if stream.reserved then
        let stream := { stream with audit := { stream.audit with target }, announced := true, reserved := false }
        some ((s.announce stream).updated stream)
      else none
  | .drop key reason takes now =>
    (s.streams.get key).map fun stream =>
      let s := { s with streams := s.streams.erase key }
      if stream.announced || stream.leased then s.tightened stream.audit reason stream.announced takes now
      else s.openFailed stream.audit reason (takes 0) now
  | .flush visit takes => some (s.flush visit takes)
  | .stalled audit phase takes now => some (s.stalled audit phase takes now)
  | .cancelled audit input outcome takes now => some (s.cancelled audit input outcome takes now)
  | .gitRead device peerId session workspaceId method takes now =>
    some (s.gitRead device peerId session workspaceId method takes now)
  | .rejected audit takes now => some (s.rejected audit takes now)
  | .other text => some (s.send (.other text))
  | .eventLost now => some { s with deferred := s.deferred.lost 1 now }

def State.new : State := ⟨1, .empty, .new, .empty, fun _ => ⟨0, none⟩, [], [], []⟩

def Run : List (Transition State Action) → State → Prop := Trace (· = State.new) fun s a t => next s a = some t

end WriteAudit
end Yuzora
