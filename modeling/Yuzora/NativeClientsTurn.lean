import Yuzora.NativeClientsWork
/-!
# NativeClientsTurn — one step of a thread

`Turn` says what a thread's step can do, once for all tasks: which client's record changes, what is logged, and what the
thread still has to do afterwards.  The invariants are read from it.
-/
namespace Yuzora
namespace NativeClients

variable {s t u : State} {th k : Thread} {task task' : Task} {c : Nat} {a b : NativeHerdrClient}

def HasInput (s : State) (c : Nat) : Prop := ∃ client, s.clients.get c = some client ∧ client.input = true

/-! ## One record changes -/

/-- **The record of one client changes**, and of no other. -/
structure Changes (th : Thread) (s t : State) (c : Nat) (a b : NativeHerdrClient) : Prop where
  guarantee : Guarantee th s t
  before : s.clients.get c = some a
  after : t.clients.get c = some b
  others : ∀ k, k ≠ c → t.clients.get k = s.clients.get k

theorem changes_put (h : Records s) (hc : s.clients.get c = some a) (hkeeps : Keeps th a b) (hr : b.reaped = a.reaped)
    (hclients : t.clients = s.clients.insert c b) (hprocesses : t.processes = s.processes)
    (hnext : t.nextSessionId = s.nextSessionId) (hlog : ∃ extra, t.log = s.log ++ extra) : Changes th s t c a b where
  guarantee := by
    have hput := guarantee_put h hc hkeeps hr
    exact hput.trans (guarantee_same hput.records hclients hprocesses hnext hlog)
  before := hc
  after := by simp [hclients]
  others k hk := by simp [hclients, Table.get_insert, hk]

theorem Changes.then {d : NativeHerdrClient} (h : Changes th s t c a b) (h' : Changes th t u c b d) :
    Changes th s u c a d :=
  ⟨h.guarantee.trans h'.guarantee, h.before, h'.after, fun k hk => (h'.others k hk).trans (h.others k hk)⟩

/-- What a thread may do to a record: it takes and leaves locks for itself, and uses the writer under its lock. -/
theorem keeps_of (hpid : b.pid = a.pid) (hreaped : b.reaped = a.reaped) (hreleased : a.released = true → b.released = true)
    (hchild : b.childLock = a.childLock ∨
      ((a.childLock = none ∨ a.childLock = some th) ∧ (b.childLock = none ∨ b.childLock = some th)))
    (hinput : (b.inputLock = a.inputLock ∧ b.input = a.input) ∨
      ((a.inputLock = none ∨ a.inputLock = some th) ∧ (b.inputLock = none ∨ b.inputLock = some th))) : Keeps th a b where
  pid := hpid
  reaped hr := hreaped.trans hr
  released := hreleased
  child k hk := by
    refine ⟨?_, fun _ => hreaped⟩
    rcases hchild with hsame | ⟨ha | ha, hb | hb⟩
    · rw [hsame]
    all_goals simp [ha, hb, hk.symm]
  input k hk := by
    rcases hinput with ⟨hsame, hin⟩ | ⟨ha, hb⟩
    · exact ⟨by rw [hsame], fun _ => hin⟩
    · refine ⟨?_, fun held => ?_⟩
      · rcases ha with ha | ha <;> rcases hb with hb | hb <;> simp [ha, hb, hk.symm]
      · rcases ha with ha | ha
        · cases ha.symm.trans held
        · exact absurd (Option.some.inj (held.symm.trans ha)) hk

theorem State.unlock_eq (h : s.clients.get c = some a) : s.unlock c = s.put c { a with childLock := none } := by
  simp only [State.unlock, h]

theorem State.releaseMaster_eq (h : s.clients.get c = some a) : s.releaseMaster c = s.put c { a with master := none } := by
  simp only [State.releaseMaster, h]

theorem State.releaseInput_cases (s : State) (c : Nat) :
    s.releaseInput c = s ∨
      ∃ a, s.clients.get c = some a ∧ a.inputLock = none ∧ s.releaseInput c = s.put c { a with input := false } := by
  cases h : s.clients.get c with
  | none => simp [State.releaseInput, h]
  | some a =>
    by_cases hlock : a.inputLock = none
    · exact .inr ⟨a, rfl, hlock, by simp [State.releaseInput, h, hlock]⟩
    · simp [State.releaseInput, h, hlock]

/-! ## What a step logs -/

def Aside (s t : State) (task task' : Task) : Event → Prop
  | .signal c pid target =>
    ∃ client running, s.clients.get c = some client ∧ pid = client.pid ∧ target = some ⟨some c, running⟩
  | .left c =>
    c ∈ s.nativeClients ∧ ((task'.owes c ∧ task'.works c) ∨ (Attended t c ∧ (Reaped t c ∨ Expired t c)))
  | .expired _ => True
  | .wrote c => task = .waiting c ∧ HasInput s c
  | .stalled c => task = .writing c ∧ task' = .stalled c ∧ ¬HasInput t c
  | .passed _ => False
  | .closed _ => False

inductive Told (s t : State) (task task' : Task) : List Event → Prop
  | passed (c : Nat) (hcheck : task = .checking c) (hnext : task' = .delivering c) (hreleased : ¬Released s c) :
      Told s t task task' [.passed c]
  | closed (c : Nat) (hdeliver : task = .delivering c) (hnext : task' = .returned none) : Told s t task task' [.closed c]
  | aside {events : List Event} (hfrom : ∀ c, task ≠ .delivering c) (hto : ∀ c, task' ≠ .delivering c)
      (hall : ∀ event ∈ events, Aside s t task task' event) : Told s t task task' events

/-- How the map changes. -/
inductive Maps (s t : State) (task task' : Task) (events : List Event) : Prop
  | fewer (hmem : ∀ c ∈ t.nativeClients, c ∈ s.nativeClients ∧ .left c ∉ events)
      (hlength : t.nativeClients.length ≤ s.nativeClients.length)
  | more (c : Nat) (limitError : String) (hfrom : task = .registering c limitError) (hto : task' = .starting c)
      (hlength : s.nativeClients.length < MAX_NATIVE_CLIENTS) (hmap : t.nativeClients = c :: s.nativeClients)
      (hevents : events = [])

/-- **What a thread's step can do.** -/
structure Turn (s t : State) (th : Thread) (task task' : Task) : Prop where
  guarantee : Guarantee th s t
  own : t.threads.get th = some task'
  others : ∀ k, k ≠ th → t.threads.get k = s.threads.get k ∨
    ∃ c, k = .reader c ∧ s.threads.get k = none ∧ t.threads.get k = some (.looping c)
  knows : Local t th task'
  logs : ∃ events, t.log = s.log ++ events ∧ Told s t task task' events ∧ Maps s t task task' events
  owes : ∀ c, task.owes c → task'.owes c ∨ Attended t c ∨ ∃ k, k ≠ th ∧ Holds s k c
  works : ∀ c, task.works c → task'.works c ∨ Reaped t c ∨ Expired t c
  /-- A reader goes on reading, or it returned. -/
  reader : ∀ c, task.reader = some c → task'.reader = some c ∨ task' = .returned none
  reads : ∀ c, task'.reader = some c → task.reader = some c
  unswapped : task'.unswapped = true → task.unswapped = true
  silent : ∀ c, task.reader = some c → task' = .returned none →
    task = .delivering c ∨ (task = .swapping c ∧ Closed s c) ∨ Released s c
  begins : ∀ c, task.begins c → task'.begins c ∨ Released t c
  closes : ∀ c, Closed t c → Closed s c ∨ task'.begins c ∨ (task.reader = some c ∧ task'.unswapped = false)
  releases : ∀ c, Released t c → Released s c ∨ task.begins c
  input : ∀ c, HasInput t c → HasInput s c ∨ task.inputLock = some c ∨ s.clients.get c = none
  writes : ∀ c, task'.inputLock = some c → task.inputLock = some c ∨ HasInput s c
  registers : ∀ c limitError, task' = .registering c limitError → s.nextSessionId = c ∧ t.nextSessionId = c + 1

/-! ## What the thread knows afterwards -/

theorem Local.same (h : Local s th task) (hclients : t.clients = s.clients)
    (hlock : task'.lock = task.lock) (hinput : task'.inputLock = task.inputLock) (hdue : ∀ c, task'.due c → task.due c)
    (hpast : ∀ c, task'.past c → Attended t c) (hended : ∀ c, task'.ended c → Reaped t c ∨ Expired t c)
    (hgone : ∀ c, (c, true) ∈ task'.targeted → Reaped t c) : Local t th task' where
  lock c := by
    rw [hlock, ← h.lock c, Holds, Holds, hclients]
  inputLock c := by
    rw [hinput, ← h.inputLock c, HoldsInput, HoldsInput, hclients]
  taken c client hl hc := h.taken c client (hinput ▸ hl) (hclients ▸ hc)
  due c client hd hc := h.due c client (hdue c hd) (hclients ▸ hc)
  past := hpast
  ended := hended
  gone := hgone

theorem Local.changes (h : Local s th task) (hch : Changes th s t c a b)
    (hfrom : task.lock = none ∨ task.lock = some c) (hto : task'.lock = if b.childLock = some th then some c else none)
    (hfrom' : task.inputLock = none ∨ task.inputLock = some c)
    (hto' : task'.inputLock = if b.inputLock = some th then some c else none)
    (htaken : b.inputLock = some th → b.input = false) (hdue : ∀ c, task'.due c → b.reaped = false)
    (hpast : ∀ c, task'.past c → Attended t c) (hended : ∀ c, task'.ended c → Reaped t c ∨ Expired t c)
    (hgone : ∀ c, (c, true) ∈ task'.targeted → Reaped t c) : Local t th task' where
  lock k := by
    by_cases hk : k = c
    · subst hk
      simp only [Holds, hch.after, hto, Option.some.injEq, exists_eq_left']
      by_cases hb : b.childLock = some th <;> simp [hb]
    · have hs := h.lock k
      simp only [Holds, ← hch.others k hk] at hs
      rw [Holds, hs, hto]
      rcases hfrom with hf | hf <;> rw [hf] <;> split <;> simp [Ne.symm hk]
  inputLock k := by
    by_cases hk : k = c
    · subst hk
      simp only [HoldsInput, hch.after, hto', Option.some.injEq, exists_eq_left']
      by_cases hb : b.inputLock = some th <;> simp [hb]
    · have hs := h.inputLock k
      simp only [HoldsInput, ← hch.others k hk] at hs
      rw [HoldsInput, hs, hto']
      rcases hfrom' with hf | hf <;> rw [hf] <;> split <;> simp [Ne.symm hk]
  taken k client hl hk := by
    rw [hto'] at hl
    split at hl
    · rename_i hb
      cases hl
      cases hch.after.symm.trans hk
      exact htaken hb
    · cases hl
  due k client hd hk := by
    have hlock := Task.lock_of_due hd
    rw [hto] at hlock
    split at hlock
    · cases hlock
      cases hch.after.symm.trans hk
      exact hdue _ hd
    · cases hlock
  past := hpast
  ended := hended
  gone := hgone

section Changes
variable (h : Changes th s t c a b)
include h

theorem Changes.closes {k : Nat} (hk : Closed t k) : Closed s k ∨ (k = c ∧ b.closed = true) := by
  obtain ⟨client, hget, hclosed⟩ := hk
  by_cases heq : k = c
  · subst heq
    cases h.after.symm.trans hget
    exact .inr ⟨rfl, hclosed⟩
  · exact .inl ⟨client, h.others k heq ▸ hget, hclosed⟩

theorem Changes.closed_same (hb : b.closed = a.closed) {k : Nat} (hk : Closed t k) : Closed s k := by
  rcases h.closes hk with hs | ⟨rfl, hclosed⟩
  · exact hs
  · exact ⟨a, h.before, hb.symm.trans hclosed⟩

theorem Changes.releases {k : Nat} (hk : Released t k) : Released s k ∨ (k = c ∧ b.released = true) := by
  obtain ⟨client, hget, hreleased⟩ := hk
  by_cases heq : k = c
  · subst heq
    cases h.after.symm.trans hget
    exact .inr ⟨rfl, hreleased⟩
  · exact .inl ⟨client, h.others k heq ▸ hget, hreleased⟩

theorem Changes.released_same (hb : b.released = a.released) {k : Nat} (hk : Released t k) : Released s k := by
  rcases h.releases hk with hs | ⟨rfl, hreleased⟩
  · exact hs
  · exact ⟨a, h.before, hb.symm.trans hreleased⟩

theorem Changes.input {k : Nat} (hk : HasInput t k) : HasInput s k ∨ (k = c ∧ b.input = true) := by
  obtain ⟨client, hget, hinput⟩ := hk
  by_cases heq : k = c
  · subst heq
    cases h.after.symm.trans hget
    exact .inr ⟨rfl, hinput⟩
  · exact .inl ⟨client, h.others k heq ▸ hget, hinput⟩

theorem Changes.input_same (hb : b.input = a.input ∨ b.input = false) {k : Nat} (hk : HasInput t k) : HasInput s k := by
  rcases h.input hk with hs | ⟨rfl, hinput⟩
  · exact hs
  · rcases hb with hb | hb
    · exact ⟨a, h.before, hb.symm.trans hinput⟩
    · cases hb.symm.trans hinput

end Changes

end NativeClients
end Yuzora
