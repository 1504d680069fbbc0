import Yuzora.Pairing
import Yuzora.Trace
/-!
# PairingRun — the pairing store taking step after step

Every operation of the store in any order, the readings of a clock that does not go back, any outcome of the event queue.
An operation changes the entry of one pairing in one of a few ways (`Effect`).
-/
namespace Yuzora
namespace Pairing

open Pairings (Draw ClaimDraw)

/-- The store and what runs beside it: the desktop's queue, the commands between their two locks, the clock so far. -/
structure Desk where
  store : Pairings
  commands : List PairingCommand
  events : EventSender
  clock : Timestamp

inductive Op
  | commandBegin (command : PairingCommand) (visit : Visit String)
  | commandEnd (command : PairingCommand) (draw : Draw) (visit : Visit (String × Entry))
  | claim (request : ClaimRequest) (userAgent : String) (draw : ClaimDraw)
  | statusBegin (request : StatusRequest)
  | statusEnd (poll : Poll) (ticket : Option (Bytes 32))
  | statusDropped (poll : Poll)
  | consumeTicket (pairingId ticket : String)
  | retryRegistration (registration : Registration)
  | finish (registration : Registration) (commit : Except Failure Unit)
  | maintenance (visit : Visit String)

inductive Outcome
  | command (answer : Except Failure AdminResult)
  | claim (answer : Except Failure ClaimResponse)
  | waiting (answer : Except Failure Unit)
  | status (answer : Except Failure StatusResponse)
  | registration (answer : Except Failure Registration)
  | retried (answer : Except Failure Unit)
  | finished (answer : Except Failure Unit)
  | done

structure Label where
  op : Op
  clock : Readings
  outcome : Outcome

/-- The second half of a command or of a status call belongs to one that is under way. -/
def Op.enabled (desk : Desk) : Op → Prop
  | .commandEnd command _ _ => command ∈ desk.commands
  | .statusEnd poll _ | .statusDropped poll => poll ∈ desk.store.waiting
  | _ => True

section Machine
variable (ext : External)

/-- What one operation answers, and the store and the queue it leaves. -/
def Pairings.step (store : Pairings) (events : EventSender) (op : Op) (clock : Readings) :
    Except Panic (Outcome × Pairings × EventSender) :=
  match op with
  | .commandBegin _ visit | .maintenance visit => .ok (.done, store.maintenance events visit clock)
  | .commandEnd command draw visit =>
    let result := store.command ext events command draw visit (clock.now 0)
    .ok (.command result.1, result.2)
  | .claim request userAgent draw =>
    match store.claim ext events request userAgent draw clock with
    | .error p => .error p
    | .ok result => .ok (.claim result.1, result.2)
  | .statusBegin request =>
    let result := store.statusBegin ext events request clock
    .ok (.waiting result.1, result.2)
  | .statusEnd poll ticket =>
    let result := store.statusEnd ext events poll ticket clock
    .ok (.status result.1, result.2)
  | .statusDropped poll => .ok (.done, store.release poll, events)
  | .consumeTicket pairingId ticket =>
    let result := store.consumeTicket ext pairingId ticket clock
    .ok (.registration result.1, result.2, events)
  | .retryRegistration registration =>
    let result := store.retryRegistration registration clock
    .ok (.retried result.1, result.2, events)
  | .finish registration commit =>
    let result := store.finish registration (fun _ => commit) clock
    .ok (.finished result.1, result.2, events)

def Desk.underWay (desk : Desk) : Op → List PairingCommand
  | .commandBegin command _ => desk.commands ++ [command]
  | .commandEnd command _ _ => desk.commands.erase command
  | _ => desk.commands

def Desk.step (desk : Desk) (op : Op) (clock : Readings) : Except Panic (Outcome × Desk) :=
  match desk.store.step ext desk.events op clock with
  | .error p => .error p
  | .ok (outcome, store, events) =>
    .ok (outcome, { store, events, commands := desk.underWay op, clock := clock.done })

def Step (s : Desk) (label : Label) (t : Desk) : Prop :=
  label.op.enabled s ∧ s.clock ≤ label.clock.now 0 ∧ s.step ext label.op label.clock = .ok (label.outcome, t)

def Init (s : Desk) : Prop :=
  ∃ publicHost login, s.store = Pairings.new publicHost login ∧ s.commands = []

abbrev Run (l : List (Transition Desk Label)) (s : Desk) : Prop := Trace Init (Step ext) l s

end Machine

/-! ## What a transition was -/

section Facts
variable (ext : External)

def Carries (text : String) (digest : Bytes 32) : Prop :=
  ∃ supplied, decode 32 text = some supplied ∧ hash ext supplied.1 = digest

variable (id : String)

/-- `pairing.create` made the pairing, with this secret. -/
def Created (secret : Bytes 32) (x : Transition Desk Label) : Prop :=
  ∃ path addToDevice key visit, x.label.op = .commandEnd (.create path addToDevice) ⟨some key, some secret⟩ visit ∧
    encode key.1 = id ∧ x.label.outcome = .command (.ok .applied)

/-- A claim with the secret of that digest succeeded while the pairing was pending, and answered the token. -/
def Claimed (digest token : Bytes 32) (x : Transition Desk Label) : Prop :=
  ∃ request userAgent draw nonce sas entry, x.label.op = .claim request userAgent draw ∧ request.pairingId = id ∧
    Carries ext request.secret digest ∧ x.label.outcome = .claim (.ok ⟨nonce, sas, encode token.1⟩) ∧
    x.src.store.entries.get id = some entry ∧ entry.state = .pending

/-- An approve command succeeded, at the reading `a`. -/
def Approved (a : Timestamp) (x : Transition Desk Label) : Prop :=
  ∃ draw visit, x.label.op = .commandEnd (.approve id) draw visit ∧ x.label.outcome = .command (.ok .applied) ∧
    x.label.clock.now 0 = a

/-- A status call with the claim token of that digest was answered with the ticket, dated by the reading `c`. -/
def Issued (digest ticket : Bytes 32) (c : Timestamp) (x : Transition Desk Label) : Prop :=
  ∃ poll, x.label.op = .statusEnd poll (some ticket) ∧ poll.request.pairingId = id ∧
    Carries ext poll.request.claimToken digest ∧
    x.label.outcome = .status (.ok ⟨.approved, some (encode ticket.1)⟩) ∧ x.label.clock.now 1 = c

/-- The ticket of that digest was traded for the registration; its age was checked at the reading `c`. -/
def Consumed (digest : Bytes 32) (c : Timestamp) (registration : Registration)
    (x : Transition Desk Label) : Prop :=
  ∃ text, x.label.op = .consumeTicket id text ∧ Carries ext text digest ∧
    x.label.outcome = .registration (.ok registration) ∧ registration.pairingId = id ∧ x.label.clock.now 1 = c ∧
    x.label.clock.now 2 = registration.startedAt

/-- The commit of a registration succeeded, after the checks at the reading `t`. -/
def Finished (registration : Registration) (t : Timestamp) (x : Transition Desk Label) : Prop :=
  ∃ commit, x.label.op = .finish registration commit ∧ registration.pairingId = id ∧
    x.label.outcome = .finished (.ok ()) ∧ x.label.clock.now 0 = t

/-- A claim that passes the checks made before its pairing is looked at. -/
def ClaimRequest.WellFormed (request : ClaimRequest) (userAgent : String) : Prop :=
  (decode 16 request.pairingId).isSome ∧ validLabel request.deviceLabel ∧ userAgent.utf8ByteSize ≤ 256 ∧
    userAgent.toList.all (fun c => Decidable.decide (32 ≤ c.toNat ∧ c.toNat ≤ 126)) ∧
    (decode 32 request.deviceNonce).isSome

/-- An attempt with a wrong secret or a wrong claim token on a live pairing. -/
def Failed (x : Transition Desk Label) : Prop :=
  ∃ entry, x.src.store.entries.get id = some entry ∧ (entry.expire (x.label.clock.now 0)).live ∧
    match x.label.op with
    | .claim request userAgent _ =>
      request.pairingId = id ∧ request.WellFormed userAgent ∧ entry.claimHash = none ∧
        ¬ Carries ext request.secret entry.secretHash
    | .statusBegin request =>
      request.pairingId = id ∧ (decode 16 id).isSome ∧ ¬ ∃ digest ∈ entry.claimHash, Carries ext request.claimToken digest
    | .statusEnd poll _ =>
      poll.request.pairingId = id ∧ ¬ ∃ digest ∈ entry.claimHash, Carries ext poll.request.claimToken digest
    | _ => False

/-- What ends a pairing for good. -/
inductive Killed (id : String) (x : Transition Desk Label) : Prop
  | rejected {draw visit answer} : x.label.op = .commandEnd (.reject id) draw visit →
      x.label.outcome = .command (.ok answer) → Killed id x
  | cancelled {draw visit answer} : x.label.op = .commandEnd (.cancel id) draw visit →
      x.label.outcome = .command (.ok answer) → Killed id x
  | secondClaim {request userAgent draw entry} : x.label.op = .claim request userAgent draw → request.pairingId = id →
      request.WellFormed userAgent → x.src.store.entries.get id = some entry → entry.claimHash ≠ none → Killed id x
  | expired {entry} : x.dst.store.entries.get id = some entry → entry.state = .expired → Killed id x

/-- What one operation does to the entry of one pairing. -/
inductive Effect (x : Transition Desk Label) (id : String) : Option Entry → Option Entry → Prop
  | absent : Effect x id none none
  | ended {src dst : Entry} : dst.live = false → Effect x id (some src) (some dst)
  | evicted {src : Entry} : src.live = false → Effect x id (some src) none
  | created {src secret} (addToDevice «until») : Created id secret x →
      Effect x id src (some (Pairings.fresh ext addToDevice secret «until»))
  | kept {src : Entry} (failures polls) : src.failures ≤ failures → failures < 5 ∨ failures = src.failures →
      Effect x id (some src) (some { src with failures, polls })
  | claimed {src : Entry} (token label) : src.state = .pending → src.claimHash = none →
      Claimed ext id src.secretHash token x →
      Effect x id (some src) (some { src with claimHash := some (hash ext token.1), label, secret := none })
  | approved {src : Entry} (a : Timestamp) : src.state = .pending → src.claimHash ≠ none → Approved id a x →
      Effect x id (some src)
        (some ({ src with «until» := a.after Pairing.REGISTRATION_WINDOW }.transition .approved))
  | issued {src : Entry} {digest} (ticket : Bytes 32) (c : Timestamp) (polls) : src.state = .approved →
      src.claimHash = some digest → Issued ext id digest ticket c x →
      Effect x id (some src)
        (some { src with ticket := some ⟨hash ext ticket.1, min (c.after TICKET_TTL) src.until⟩, polls })
  | consumed {src : Entry} {current : Ticket} {registration : Registration} (c : Timestamp) : src.state = .approved →
      src.ticket = some current → c < current.until → Consumed ext id current.hash c registration x →
      registration.deadline = min (registration.startedAt.after TICKET_TTL) src.until →
      Effect x id (some src) (some ({ src with registration := some registration }.transition .registering))
  | retried {src : Entry} : src.state = .registering → Effect x id (some src) (some (src.transition .approved))

end Facts

end Pairing
end Yuzora
