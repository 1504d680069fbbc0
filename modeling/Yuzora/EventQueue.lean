import Mathlib.Data.List.Basic
/-!
# EventQueue — the admin queue's places and permits

`EventSender` with its channel.  A place or a permit is out with its holder, a queued event or a reservation, and free is
what nobody holds; the bounds are fields, so no operation can oversubscribe the channel.
-/
namespace Yuzora
namespace Writes

def EVENT_QUEUE_CAPACITY : Nat := 64
def AUDIT_SLOTS : Nat := EVENT_QUEUE_CAPACITY - 16
def BUCKET_RESERVATIONS : Nat := 12
def ANNOUNCEMENT_RESERVATIONS : Nat := 4

inductive Reservation
  | bucket | announcement
  deriving DecidableEq

def Reservation.limit : Reservation → Nat
  | .bucket => BUCKET_RESERVATIONS
  | .announcement => ANNOUNCEMENT_RESERVATIONS

/-- `audit`: the event holds an audit slot until it is written. -/
structure QueuedEvent (E : Type) where
  event : E
  audit : Bool

/-- How many reservations of each kind are out; each holds a place of the channel and an audit slot. -/
structure Reserved where
  buckets : Nat
  announcements : Nat

namespace Reserved

variable (r : Reserved)

def count : Reservation → Nat
  | .bucket => r.buckets
  | .announcement => r.announcements

def total : Nat := r.buckets + r.announcements

def taken : Reservation → Reserved
  | .bucket => { r with buckets := r.buckets + 1 }
  | .announcement => { r with announcements := r.announcements + 1 }

def freed : Reservation → Reserved
  | .bucket => { r with buckets := r.buckets - 1 }
  | .announcement => { r with announcements := r.announcements - 1 }

@[simp] theorem total_taken (kind : Reservation) : (r.taken kind).total = r.total + 1 := by
  cases kind <;> simp only [taken, total] <;> omega

theorem total_freed_le (kind : Reservation) : (r.freed kind).total ≤ r.total := by
  cases kind <;> simp only [freed, total] <;> omega

variable {kind : Reservation}

variable {r : Reserved}

theorem total_freed (h : 0 < r.count kind) : (r.freed kind).total + 1 = r.total := by
  cases kind <;> simp only [freed, total, count] at h ⊢ <;> omega

theorem taken_le (h : r.count kind < kind.limit)
    (hle : ∀ kind, r.count kind ≤ kind.limit) : ∀ other, (r.taken kind).count other ≤ other.limit := by
  intro other
  have := hle other
  cases kind <;> cases other <;> simp only [taken, count] at h this ⊢ <;> omega

theorem freed_le (kind : Reservation) (hle : ∀ kind, r.count kind ≤ kind.limit) :
    ∀ other, (r.freed kind).count other ≤ other.limit := by
  intro other
  have := hle other
  cases kind <;> cases other <;> simp only [freed, count] at this ⊢ <;> omega

end Reserved

structure EventQueue (E : Type) where
  queue : List (QueuedEvent E)
  writing : Option (QueuedEvent E)
  closed : Bool
  reserved : Reserved
  reserved_le : ∀ kind, reserved.count kind ≤ kind.limit
  room : queue.length + reserved.total ≤ EVENT_QUEUE_CAPACITY
  slots : queue.countP QueuedEvent.audit + (writing.any QueuedEvent.audit).toNat + reserved.total ≤ AUDIT_SLOTS

namespace EventQueue
variable {E : Type} {kind : Reservation} {q : EventQueue E}

def new : EventQueue E :=
  { queue := [], writing := none, closed := false, reserved := ⟨0, 0⟩
    reserved_le := fun kind => by cases kind <;> exact Nat.zero_le _
    room := Nat.zero_le _
    slots := Nat.zero_le _ }

def capacity (q : EventQueue E) : Nat := EVENT_QUEUE_CAPACITY - (q.queue.length + q.reserved.total)

/-- `audit_slots.available_permits` -/
def auditSlots (q : EventQueue E) : Nat :=
  AUDIT_SLOTS - (q.queue.countP QueuedEvent.audit + (q.writing.any QueuedEvent.audit).toNat + q.reserved.total)

def available (q : EventQueue E) : Bool := !q.closed && decide (0 < q.capacity) && decide (0 < q.auditSlots)

theorem available_iff : q.available = true ↔ q.closed = false ∧ 0 < q.capacity ∧ 0 < q.auditSlots := by
  simp [available, and_assoc]

/-- `EventSender::reserve`: a permit of its kind, an audit slot and a place. -/
def reserve (q : EventQueue E) (kind : Reservation) : Option (EventQueue E) :=
  if h : q.reserved.count kind < kind.limit ∧ q.available = true then
    some { q with
      reserved := q.reserved.taken kind
      reserved_le := Reserved.taken_le h.1 q.reserved_le
      room := by
        have := (available_iff.1 h.2).2.1
        rw [capacity] at this
        rw [Reserved.total_taken]
        omega
      slots := by
        have := (available_iff.1 h.2).2.2
        rw [auditSlots] at this
        rw [Reserved.total_taken]
        omega }
  else none

/-- `EventReservation::emit`: the event takes over the reservation's place and slot. -/
def emit (q : EventQueue E) (kind : Reservation) (event : E) : Option (EventQueue E) :=
  if h : 0 < q.reserved.count kind then
    some { q with
      queue := q.queue ++ [⟨event, true⟩]
      reserved := q.reserved.freed kind
      reserved_le := Reserved.freed_le kind q.reserved_le
      room := by
        have := q.room
        have := Reserved.total_freed h
        rw [List.length_append, List.length_singleton]
        omega
      slots := by
        have := q.slots
        have := Reserved.total_freed h
        rw [List.countP_append, List.countP_singleton, if_pos rfl]
        omega }
  else none

def unreserve (q : EventQueue E) (kind : Reservation) : EventQueue E :=
  { q with
    reserved := q.reserved.freed kind
    reserved_le := Reserved.freed_le kind q.reserved_le
    room := Nat.le_trans (Nat.add_le_add_left (Reserved.total_freed_le _ kind) _) q.room
    slots := Nat.le_trans (Nat.add_le_add_left (Reserved.total_freed_le _ kind) _) q.slots }

/-- `try_emit`: an ordinary event needs an audit slot, a lifecycle event only a place. -/
def tryEmit (q : EventQueue E) (event : E) (ordinary : Bool) : Option (EventQueue E) :=
  if h : q.closed = false ∧ 0 < q.capacity ∧ (ordinary = true → 0 < q.auditSlots) then
    some { q with
      queue := q.queue ++ [⟨event, ordinary⟩]
      room := by
        have := h.2.1
        rw [capacity] at this
        rw [List.length_append, List.length_singleton]
        omega
      slots := by
        have := q.slots
        rw [List.countP_append, List.countP_singleton]
        cases ordinary with
        | false => simpa using this
        | true =>
          have := h.2.2 rfl
          rw [auditSlots] at this
          rw [if_pos rfl]
          omega }
  else none

def recv (q : EventQueue E) : Option (EventQueue E) :=
  match hw : q.writing, hq : q.queue with
  | none, next :: rest =>
    some { q with
      queue := rest
      writing := some next
      room := by
        have := q.room
        rw [hq, List.length_cons] at this
        omega
      slots := by
        have := q.slots
        rw [hq, hw, List.countP_cons] at this
        cases hn : next.audit <;> simp [hn] at this ⊢ <;> omega }
  | _, _ => none

def written (q : EventQueue E) : EventQueue E :=
  { q with
    writing := none
    slots := by
      have := q.slots
      rw [Option.any_none, Bool.toNat_false]
      omega }

def close (q : EventQueue E) : EventQueue E :=
  { q with
    queue := []
    writing := none
    closed := true
    room := by
      have := q.room
      rw [List.length_nil]
      omega
    slots := by
      have := q.slots
      rw [List.countP_nil, Option.any_none, Bool.toNat_false]
      omega }

/-- What the other producers and the writer do with the queue. -/
inductive Move (E : Type)
  | reserve (kind : Reservation)
  | emit (kind : Reservation) (event : E)
  | unreserve (kind : Reservation)
  | tryEmit (event : E) (ordinary : Bool)
  | recv
  | written
  | close

def move (q : EventQueue E) : Move E → Option (EventQueue E)
  | .reserve kind => q.reserve kind
  | .emit kind event => q.emit kind event
  | .unreserve kind => if 0 < q.reserved.count kind then some (q.unreserve kind) else none
  | .tryEmit event ordinary => q.tryEmit event ordinary
  | .recv => q.recv
  | .written => some q.written
  | .close => some q.close

theorem emit_of_reserved (h : 0 < q.reserved.count kind) (event : E) :
    ∃ q', q.emit kind event = some q' ∧ q'.queue = q.queue ++ [⟨event, true⟩] ∧ q'.reserved = q.reserved.freed kind := by
  rw [emit, dif_pos h]
  exact ⟨_, rfl, rfl, rfl⟩

theorem reserve_reserved {q q' : EventQueue E} (h : q.reserve kind = some q') :
    q'.reserved = q.reserved.taken kind := by
  unfold reserve at h
  split at h
  · cases h
    rfl
  · cases h

end EventQueue
end Writes
end Yuzora
