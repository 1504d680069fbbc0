import Yuzora.NativeClientsSteps
/-!
# NativeClientsWork — where a thread stands

A task says which locks its thread holds, and for which clients it still has a signal to send or a child to reap.
`Local` is what the thread knows by itself, and the steps of the others leave it (`Local.stable`).
-/
namespace Yuzora
namespace NativeClients

variable {s t u : State} {th k : Thread} {task task' : Task}

/-! ## What a task stands for -/

def Expired (s : State) (c : Nat) : Prop := .expired c ∈ s.log

def Released (s : State) (c : Nat) : Prop := ∃ client, s.clients.get c = some client ∧ client.released = true

def Closed (s : State) (c : Nat) : Prop := ∃ client, s.clients.get c = some client ∧ client.closed = true

namespace Task

variable (c : Nat)

@[simp] def lock : Task → Option Nat
  | .terminating c _ _ => some c
  | .sending _ c _ _ => some c
  | _ => none

@[simp] def inputLock : Task → Option Nat
  | .writing c => some c
  | _ => none

@[simp] def targeted : Task → List (Nat × Bool)
  | .signalling _ todo past => todo ++ past
  | .sending _ c todo past => (c, false) :: (todo ++ past)
  | .settling _ rest => rest
  | _ => []

/-- The child was found running, and nobody else can have reaped it. -/
@[simp] def due : Task → Prop
  | .terminating k .hup _ => k = c
  | .terminating k (.grace _) _ => k = c
  | .sending _ k _ _ => k = c
  | _ => False

@[simp] def past : Task → Prop
  | .terminating k (.grace _) _ => k = c
  | .terminating k .wait _ => k = c
  | .removing k => k = c
  | _ => False

@[simp] def ended : Task → Prop
  | .removing k => k = c
  | _ => False

@[simp] def owes : Task → Prop
  | .closing k _ => k = c
  | .locking k _ => k = c
  | .terminating k .check _ => k = c
  | .terminating k .hup _ => k = c
  | .beginning k _ => k = c
  | .begun k _ => k = c
  | .mastering k _ => k = c
  | .targets todo _ made => c ∈ todo ∨ c ∈ made
  | .signalling false todo _ => (c, false) ∈ todo
  | .sending kill k todo _ => k = c ∨ (kill = false ∧ (c, false) ∈ todo)
  | _ => False

@[simp] def works : Task → Prop
  | .closing k _ => k = c
  | .locking k _ => k = c
  | .terminating k _ _ => k = c
  | .beginning k _ => k = c
  | .begun k _ => k = c
  | .mastering k _ => k = c
  | .targets todo _ made => c ∈ todo ∨ c ∈ made
  | .signalling _ todo past => (c, false) ∈ todo ∨ (c, false) ∈ past
  | .sending _ k todo past => k = c ∨ (c, false) ∈ todo ∨ (c, false) ∈ past
  | .settling _ rest => (c, false) ∈ rest
  | _ => False

@[simp] def begins : Task → Prop
  | .begun k _ => k = c
  | .targets (k :: _) true _ => k = c
  | _ => False

@[simp] def reader : Task → Option Nat
  | .looping c => some c
  | .reading c => some c
  | .framing c => some c
  | .swapping c => some c
  | .closing c .tail => some c
  | .locking c .tail => some c
  | .terminating c _ .tail => some c
  | .removing c => some c
  | .checking c => some c
  | .delivering c => some c
  | _ => none

/-- A reader that did not take `closed` yet. -/
@[simp] def unswapped : Task → Bool
  | .looping _ => true
  | .reading _ => true
  | .framing _ => true
  | .swapping _ => true
  | _ => false

theorem lock_of_due {c : Nat} (h : task.due c) : task.lock = some c := by
  cases task with
  | terminating k phase after => cases phase <;> simp_all [due, lock]
  | sending kill k todo past => simpa [due, lock] using h
  | _ => cases h

variable {after : After}

variable {phase : Phase}

theorem eq_of_owes_terminating {c k : Nat} (h : (terminating c phase after).owes k) : k = c := by
  cases phase <;> simp_all

theorem eq_of_past_terminating {c k : Nat} (h : (terminating c phase after).past k) : k = c := by
  cases phase <;> simp_all

/-- **Who holds the lock of a child** has a signal to send, or is past it. -/
theorem owes_or_past_of_lock {c : Nat} (h : task.lock = some c) : task.owes c ∨ task.past c := by
  cases task with
  | terminating k phase after => cases phase <;> simp_all [owes, past, lock]
  | sending kill k todo past => exact .inl (.inl (by simpa [lock] using h))
  | _ => cases h

end Task

/-! ## What a thread knows -/

structure Local (s : State) (th : Thread) (task : Task) : Prop where
  lock : ∀ c, Holds s th c ↔ task.lock = some c
  inputLock : ∀ c, HoldsInput s th c ↔ task.inputLock = some c
  /-- The writer was taken. -/
  taken : ∀ c client, task.inputLock = some c → s.clients.get c = some client → client.input = false
  due : ∀ c client, task.due c → s.clients.get c = some client → client.reaped = false
  past : ∀ c, task.past c → Attended s c
  ended : ∀ c, task.ended c → Reaped s c ∨ Expired s c
  gone : ∀ c, (c, true) ∈ task.targeted → Reaped s c

section
variable (h : Guarantee th s t) {c : Nat}
include h

theorem Guarantee.reaped (hr : Reaped s c) : Reaped t c := by
  obtain ⟨client, hc, hr⟩ := hr
  obtain ⟨client', hc', hkeeps⟩ := h.clients c client hc
  exact ⟨client', hc', hkeeps.reaped hr⟩

theorem Guarantee.released (hr : Released s c) : Released t c := by
  obtain ⟨client, hc, hr⟩ := hr
  obtain ⟨client', hc', hkeeps⟩ := h.clients c client hc
  exact ⟨client', hc', hkeeps.released hr⟩

theorem Guarantee.mem_log {event : Event} (he : event ∈ s.log) : event ∈ t.log := by
  obtain ⟨extra, hlog⟩ := h.log
  simp [hlog, he]

theorem Guarantee.expired (he : Expired s c) : Expired t c := h.mem_log he

theorem Guarantee.attended (ha : Attended s c) : Attended t c := by
  rcases ha with ⟨pid, target, hs⟩ | he
  · exact .inl ⟨pid, target, h.mem_log hs⟩
  · exact .inr (h.exited c he)

theorem Guarantee.holds (hk : k ≠ th) (c : Nat) : Holds t k c ↔ Holds s k c := by
  constructor
  · rintro ⟨client', hc', hlock⟩
    cases hc : s.clients.get c with
    | none => exact absurd hlock (h.fresh c client' hc' hc k hk).1
    | some client =>
      obtain ⟨last, hlast, hkeeps⟩ := h.clients c client hc
      cases hlast.symm.trans hc'
      exact ⟨client, hc, (hkeeps.child k hk).1.1 hlock⟩
  · rintro ⟨client, hc, hlock⟩
    obtain ⟨last, hlast, hkeeps⟩ := h.clients c client hc
    exact ⟨last, hlast, (hkeeps.child k hk).1.2 hlock⟩

theorem Guarantee.holdsInput (hk : k ≠ th) (c : Nat) : HoldsInput t k c ↔ HoldsInput s k c := by
  constructor
  · rintro ⟨client', hc', hlock⟩
    cases hc : s.clients.get c with
    | none => exact absurd hlock (h.fresh c client' hc' hc k hk).2
    | some client =>
      obtain ⟨last, hlast, hkeeps⟩ := h.clients c client hc
      cases hlast.symm.trans hc'
      exact ⟨client, hc, (hkeeps.input k hk).1.1 hlock⟩
  · rintro ⟨client, hc, hlock⟩
    obtain ⟨last, hlast, hkeeps⟩ := h.clients c client hc
    exact ⟨last, hlast, (hkeeps.input k hk).1.2 hlock⟩

end

/-- **What a thread knows stays so while another is at work.** -/
theorem Local.stable (h : Local s k task) (hg : Guarantee th s t) (hk : k ≠ th) : Local t k task where
  lock c := (hg.holds hk c).trans (h.lock c)
  inputLock c := (hg.holdsInput hk c).trans (h.inputLock c)
  taken c client' hlock hc' := by
    obtain ⟨client, hc, hheld⟩ := (h.inputLock c).2 hlock
    obtain ⟨last, hlast, hkeeps⟩ := hg.clients c client hc
    cases hlast.symm.trans hc'
    exact ((hkeeps.input k hk).2 hheld).trans (h.taken c client hlock hc)
  due c client' hdue hc' := by
    obtain ⟨client, hc, hheld⟩ := (h.lock c).2 (Task.lock_of_due hdue)
    obtain ⟨last, hlast, hkeeps⟩ := hg.clients c client hc
    cases hlast.symm.trans hc'
    exact ((hkeeps.child k hk).2 hheld).trans (h.due c client hdue hc)
  past c hp := hg.attended (h.past c hp)
  ended c he := (h.ended c he).imp hg.reaped hg.expired
  gone c hg' := hg.reaped (h.gone c hg')

end NativeClients
end Yuzora
