import Yuzora.NativeClientsTurn
/-!
# NativeClientsAdvance — every step is a turn

Task by task: what its step does is a `Turn` (`turn_advance`).
-/
namespace Yuzora
namespace NativeClients

open List Table

variable {s t u : State} {th k : Thread} {task task' : Task} {c : Nat} {a b : NativeHerdrClient} {events : List Event}

theorem own_go (s : State) (th : Thread) (task : Task) : (s.go th task).threads.get th = some task := by
  simp [State.go]

theorem others_go (hu : u.threads = s.threads) (k : Thread) (hk : k ≠ th) :
    (u.go th task).threads.get k = s.threads.get k ∨
      ∃ c, k = .reader c ∧ s.threads.get k = none ∧ (u.go th task).threads.get k = some (.looping c) :=
  .inl (by simp [State.go, hu, get_insert, hk])

/-- **The thread goes on, and no client changes.** -/
@[mk_iff]
structure Quiet (s : State) (th : Thread) (task task' : Task) : Prop where
  lock : task'.lock = task.lock
  inputLock : task'.inputLock = task.inputLock
  due : ∀ c, task'.due c → task.due c
  past : ∀ c, task'.past c → task.past c
  ended : ∀ c, task'.ended c → task.ended c
  gone : ∀ c, (c, true) ∈ task'.targeted → (c, true) ∈ task.targeted
  owes : ∀ c, task.owes c → task'.owes c ∨ ∃ k, k ≠ th ∧ Holds s k c
  works : ∀ c, task.works c → task'.works c ∨ Reaped s c
  reader : ∀ c, task.reader = some c → task'.reader = some c ∨ task' = .returned none
  reads : ∀ c, task'.reader = some c → task.reader = some c
  unswapped : task'.unswapped = true → task.unswapped = true
  silent : ∀ c, task.reader = some c → task' = .returned none →
    task = .delivering c ∨ (task = .swapping c ∧ Closed s c) ∨ Released s c
  registers : ∀ c limitError, task' ≠ .registering c limitError

theorem turn_same (hrec : Records s) (h : Local s th task) (hclients : u.clients = s.clients)
    (hprocesses : u.processes = s.processes) (hnext : u.nextSessionId = s.nextSessionId)
    (hthreads : u.threads = s.threads) (hq : Quiet s th task task') (hlog : u.log = s.log ++ events)
    (htold : Told s (u.go th task') task task' events) (hmaps : Maps s (u.go th task') task task' events)
    (hbegins : ∀ c, task.begins c → task'.begins c) : Turn s (u.go th task') th task task' := by
  have hg : Guarantee th s (u.go th task') := guarantee_same hrec hclients hprocesses hnext ⟨events, hlog⟩
  exact {
    guarantee := hg
    own := own_go u th task'
    others := others_go hthreads
    knows := h.same hclients hq.lock hq.inputLock hq.due (fun c hp => hg.attended (h.past c (hq.past c hp)))
      (fun c he => (h.ended c (hq.ended c he)).imp hg.reaped hg.expired) (fun c hm => hg.reaped (h.gone c (hq.gone c hm)))
    logs := ⟨events, hlog, htold, hmaps⟩
    owes := fun c ho => (hq.owes c ho).imp_right .inr
    works := fun c hw => (hq.works c hw).imp_right fun hr => .inl (hg.reaped hr)
    reader := hq.reader
    reads := hq.reads
    unswapped := hq.unswapped
    silent := hq.silent
    begins := fun c hb => .inl (hbegins c hb)
    closes := fun c hc => .inl (by simpa [Closed, State.go, hclients] using hc)
    releases := fun c hc => .inl (by simpa [Released, State.go, hclients] using hc)
    input := fun c hc => .inl (by simpa [HasInput, State.go, hclients] using hc)
    writes := fun c hw => .inl (hq.inputLock ▸ hw)
    registers := fun c limitError hr => absurd hr (hq.registers c limitError) }

theorem turn_quiet (hrec : Records s) (h : Local s th task) (hq : Quiet s th task task')
    (hbefore : ∀ c, task ≠ .delivering c) (hafter : ∀ c, task' ≠ .delivering c)
    (hbegins : ∀ c, task.begins c → task'.begins c) : Turn s (s.go th task') th task task' :=
  turn_same hrec h rfl rfl rfl rfl hq (append_nil _).symm (.aside hbefore hafter (by simp))
    (.fewer (by simp [State.go]) (Nat.le_refl _)) hbegins

/-- The thread goes on aside of any delivery. -/
def Calm (s : State) (th : Thread) (task task' : Task) : Prop :=
  Quiet s th task task' ∧ (∀ c, task ≠ .delivering c) ∧ (∀ c, task' ≠ .delivering c) ∧ ∀ c, task.begins c → task'.begins c

section
variable (hrec : Records s) (h : Local s th task)
include hrec h

theorem turn_calm (hq : Calm s th task task') : ∃ task'', Turn s (s.go th task') th task task'' :=
  ⟨_, turn_quiet hrec h hq.1 hq.2.1 hq.2.2.1 hq.2.2.2⟩

theorem turn_record (hq : Quiet s th task task') (hc : s.clients.get c = some a)
    (hpid : b.pid = a.pid) (hr : b.reaped = a.reaped) (hreleased : a.released = true → b.released = true)
    (hchild : b.childLock = a.childLock) (hwriter : b.inputLock = a.inputLock)
    (hin : b.input = a.input ∨ (b.input = false ∧ a.inputLock = none))
    (hcloses : b.closed = true → a.closed = true ∨ task'.begins c ∨ (task.reader = some c ∧ task'.unswapped = false))
    (hreleases : b.released = true → a.released = true ∨ task.begins c)
    (hbegins : ∀ k, task.begins k → task'.begins k ∨ (k = c ∧ b.released = true))
    (hlock : task.lock = none) (hinput : task.inputLock = none)
    (hbefore : ∀ c, task ≠ .delivering c) (hafter : ∀ c, task' ≠ .delivering c) :
    Turn s ((s.put c b).go th task') th task task' := by
  have hkeeps : Keeps th a b := by
    refine keeps_of hpid hr hreleased (.inl hchild) ?_
    rcases hin with hin | ⟨-, hfree⟩
    · exact .inl ⟨hwriter, hin⟩
    · exact .inr ⟨.inl hfree, .inl (hwriter.trans hfree)⟩
  have hch : Changes th s ((s.put c b).go th task') c a b :=
    changes_put hrec hc hkeeps hr rfl rfl rfl ⟨[], (append_nil _).symm⟩
  have hheld : b.childLock ≠ some th := by
    intro hl
    have := (h.lock c).1 ⟨a, hc, hchild.symm.trans hl⟩
    rw [hlock] at this
    cases this
  have hheld' : b.inputLock ≠ some th := by
    intro hl
    have := (h.inputLock c).1 ⟨a, hc, hwriter.symm.trans hl⟩
    rw [hinput] at this
    cases this
  have hg := hch.guarantee
  exact {
    guarantee := hg
    own := own_go ..
    others := others_go rfl
    knows := h.changes hch (.inl hlock) (by rw [hq.lock, hlock, if_neg hheld]) (.inl hinput)
      (by rw [hq.inputLock, hinput, if_neg hheld']) (fun hl => absurd hl hheld')
      (fun k hd => by
        have := Task.lock_of_due (hq.due k hd)
        rw [hlock] at this
        cases this)
      (fun k hp => hg.attended (h.past k (hq.past k hp)))
      (fun k he => (h.ended k (hq.ended k he)).imp hg.reaped hg.expired) (fun k hm => hg.reaped (h.gone k (hq.gone k hm)))
    logs := ⟨[], (append_nil _).symm, .aside hbefore hafter (by simp),
      .fewer (by simp [State.go, State.put]) (Nat.le_refl _)⟩
    owes := fun k ho => (hq.owes k ho).imp_right .inr
    works := fun k hw => (hq.works k hw).imp_right fun hr => .inl (hg.reaped hr)
    reader := hq.reader
    reads := hq.reads
    unswapped := hq.unswapped
    silent := hq.silent
    begins := fun k hb => (hbegins k hb).imp_right fun ⟨hk, hr⟩ => ⟨b, hk ▸ hch.after, hr⟩
    closes := fun k hk => by
      rcases hch.closes hk with hs | ⟨rfl, hb⟩
      · exact .inl hs
      · exact (hcloses hb).imp_left fun ha => ⟨a, hc, ha⟩
    releases := fun k hk => by
      rcases hch.releases hk with hs | ⟨rfl, hb⟩
      · exact .inl hs
      · exact (hreleases hb).imp_left fun ha => ⟨a, hc, ha⟩
    input := fun k hk => .inl (hch.input_same (hin.imp_right And.left) hk)
    writes := fun k hw => .inl (hq.inputLock ▸ hw)
    registers := fun k limitError hr => absurd hr (hq.registers k limitError) }

theorem turn_remove (hq : Quiet s th task task')
    (hleft : (task'.owes c ∧ task'.works c) ∨ (Attended s c ∧ (Reaped s c ∨ Expired s c)))
    (hbefore : ∀ c, task ≠ .delivering c) (hafter : ∀ c, task' ≠ .delivering c)
    (hbegins : ∀ c, ¬task.begins c) :
    Turn s ((s.remove c).go th task') th task task' := by
  by_cases hc : c ∈ s.nativeClients
  · simp only [State.remove, if_pos hc]
    have hg : Guarantee th s ({ s with
        nativeClients := s.nativeClients.filter (· ≠ c), log := s.log ++ [Event.left c] }.go th task') :=
      guarantee_same hrec rfl rfl rfl ⟨[Event.left c], rfl⟩
    refine turn_same hrec h rfl rfl rfl rfl hq (rfl : _ = s.log ++ [Event.left c]) (.aside hbefore hafter ?_)
      (.fewer ?_ (length_filter_le ..)) (fun k hk => absurd hk (hbegins k))
    · intro event he
      obtain rfl := mem_singleton.1 he
      exact ⟨hc, hleft.imp_right fun ⟨ha, hr⟩ => ⟨hg.attended ha, hr.imp hg.reaped hg.expired⟩⟩
    · simp [State.go]
  · simp only [State.remove, if_neg hc]
    exact turn_quiet hrec h hq hbefore hafter fun k hk => absurd hk (hbegins k)

end

/-- A task that goes on where the other was, and registers nothing. -/
structure Steady (task task' : Task) : Prop where
  reader : ∀ c, task.reader = some c → task'.reader = some c
  reads : ∀ c, task'.reader = some c → task.reader = some c
  unswapped : task'.unswapped = true → task.unswapped = true
  begins : ∀ c, task.begins c → task'.begins c
  registers : ∀ c limitError, task' ≠ .registering c limitError

/-- **The thread goes on, and one client's locks, master or input change.** -/
theorem turn_changed (hch : Changes th s (u.go th task') c a b) (hthreads : u.threads = s.threads)
    (hclosed : b.closed = a.closed) (hreleased : b.released = a.released) (hs : Steady task task')
    (hinput : ∀ k, HasInput (u.go th task') k → HasInput s k ∨ task.inputLock = some k ∨ s.clients.get k = none)
    (hwrites : ∀ k, task'.inputLock = some k → task.inputLock = some k ∨ HasInput s k)
    (hknows : Local (u.go th task') th task') (hlog : u.log = s.log ++ events)
    (htold : Told s (u.go th task') task task' events) (hmaps : Maps s (u.go th task') task task' events)
    (howes : ∀ k, task.owes k → task'.owes k ∨ Attended (u.go th task') k ∨ ∃ l, l ≠ th ∧ Holds s l k)
    (hworks : ∀ k, task.works k → task'.works k ∨ Reaped (u.go th task') k ∨ Expired (u.go th task') k) :
    Turn s (u.go th task') th task task' where
  guarantee := hch.guarantee
  own := own_go ..
  others := others_go hthreads
  knows := hknows
  logs := ⟨events, hlog, htold, hmaps⟩
  owes := howes
  works := hworks
  reader k hk := .inl (hs.reader k hk)
  reads := hs.reads
  unswapped := hs.unswapped
  silent k hk hr := by
    have hnone := hs.reader k hk
    rw [hr] at hnone
    cases hnone
  begins k hk := .inl (hs.begins k hk)
  closes k hk := .inl (hch.closed_same hclosed hk)
  releases k hk := .inl (hch.released_same hreleased hk)
  input := hinput
  writes := hwrites
  registers k limitError hr := absurd hr (hs.registers k limitError)

section
variable (hrec : Records s) {limitError : String}
include hrec

/-! ## An opening -/

theorem guarantee_spawn {pid : Nat} (hpnone : s.processes.get pid = none) (hpid : 1 < pid)
    (hpids : a.pid = pid) (hchild : a.childLock = none) (hinput : a.inputLock = none)
    (hclients : t.clients = s.clients.insert s.nextSessionId a)
    (hprocesses : t.processes = s.processes.insert pid ⟨some s.nextSessionId, true⟩)
    (hnext : t.nextSessionId = s.nextSessionId + 1) (hlog : t.log = s.log) : Guarantee th s t := by
  have hne : ∀ {c client}, s.clients.get c = some client → c ≠ s.nextSessionId :=
    fun {c client} hc => Nat.ne_of_lt (hrec.known c client hc)
  have hold : ∀ {c client}, s.clients.get c = some client → t.clients.get c = some client := by
    intro c client hc
    simpa [hclients, get_insert, hne hc] using hc
  have hproc : ∀ {p process}, s.processes.get p = some process → t.processes.get p = some process := by
    intro p process hp
    have hpp : p ≠ pid := by
      rintro rfl
      cases hpnone.symm.trans hp
    simpa [hprocesses, get_insert, hpp] using hp
  have hnew : ∀ {c client}, t.clients.get c = some client → (c = s.nextSessionId ∧ client = a) ∨ s.clients.get c = some client := by
    intro c client hc
    rw [hclients, get_insert] at hc
    by_cases hcn : c = s.nextSessionId
    · rw [if_pos hcn] at hc
      exact .inl ⟨hcn, (Option.some.inj hc).symm⟩
    · rw [if_neg hcn] at hc
      exact .inr hc
  refine ⟨⟨fun c client hc => ?_, fun c client hc hr => ?_⟩, fun c client hc => ⟨client, hold hc, .refl client⟩,
    fun c client hc hn k _ => ?_, fun c he => ?_, ⟨[], by simp [hlog]⟩, by omega⟩
  · rcases hnew hc with ⟨rfl, -⟩ | hc
    · omega
    · have := hrec.known c client hc
      omega
  · rcases hnew hc with ⟨rfl, rfl⟩ | hc
    · refine ⟨by omega, true, ?_⟩
      simp [hprocesses, hpids]
    · obtain ⟨hlt, running, hp⟩ := hrec.process c client hc hr
      exact ⟨hlt, running, hproc hp⟩
  · rcases hnew hc with ⟨rfl, rfl⟩ | hc
    · simp [hchild, hinput]
    · cases hn.symm.trans hc
  · rcases he with ⟨client, hc, hr⟩ | ⟨client, owner, hc, hp⟩
    · exact .inl ⟨client, hold hc, hr⟩
    · exact .inr ⟨client, owner, hold hc, hproc hp⟩

theorem turn_spawned {size : PtySize} {pid : Nat}
    (h : Local s th (.opening size limitError)) (hpnone : s.processes.get pid = none) (hpid : 1 < pid)
    (ht : t = { s with
      processes := s.processes.insert pid ⟨some s.nextSessionId, true⟩
      clients := s.clients.insert s.nextSessionId ⟨pid, false, some size, true, false, false, none, none⟩
      nextSessionId := s.nextSessionId + 1 }.go th (.registering s.nextSessionId limitError)) :
    Turn s t th (.opening size limitError) (.registering s.nextSessionId limitError) := by
  have hg : Guarantee th s t :=
    guarantee_spawn (a := ⟨pid, false, some size, true, false, false, none, none⟩) hrec hpnone hpid rfl rfl rfl (by rw [ht]; rfl) (by rw [ht]; rfl) (by rw [ht]; rfl) (by rw [ht]; rfl)
  -- The new client is like the others, but for what it starts with.
  have hget : ∀ c client, t.clients.get c = some client →
      (c = s.nextSessionId ∧ client = ⟨pid, false, some size, true, false, false, none, none⟩) ∨
        s.clients.get c = some client := by
    intro c client hc
    rw [ht] at hc
    simp only [State.go, get_insert] at hc
    split at hc
    · exact .inl ⟨‹_›, (Option.some.inj hc).symm⟩
    · exact .inr hc
  have hnone : s.clients.get s.nextSessionId = none := by
    cases hn : s.clients.get s.nextSessionId with
    | none => rfl
    | some client => exact absurd (hrec.known _ client hn) (Nat.lt_irrefl _)
  have hold : ∀ {c lock}, (∃ client, t.clients.get c = some client ∧ client.childLock = some lock) → Holds s lock c := by
    rintro c lock ⟨client, hc, hlock⟩
    rcases hget c client hc with ⟨-, rfl⟩ | hc
    · cases hlock
    · exact ⟨client, hc, hlock⟩
  have hold' : ∀ {c lock}, (∃ client, t.clients.get c = some client ∧ client.inputLock = some lock) → HoldsInput s lock c := by
    rintro c lock ⟨client, hc, hlock⟩
    rcases hget c client hc with ⟨-, rfl⟩ | hc
    · cases hlock
    · exact ⟨client, hc, hlock⟩
  exact {
    owes := by simp
    works := by simp
    reader := by simp
    reads := by simp
    unswapped := by simp
    silent := by simp
    begins := by simp
    writes := by simp
    guarantee := hg
    own := by
      rw [ht]
      exact own_go ..
    others := by
      rw [ht]
      exact others_go rfl
    knows := ⟨fun c => ⟨fun hl => absurd ((h.lock c).1 (hold hl)) (by simp), by simp⟩,
      fun c => ⟨fun hl => absurd ((h.inputLock c).1 (hold' hl)) (by simp), by simp⟩,
      by simp, by simp, by simp, by simp, by simp⟩
    logs := ⟨[], by simp [ht, State.go], .aside (by simp) (by simp) (by simp),
      .fewer (by simp [ht, State.go]) (by simp [ht, State.go])⟩
    closes := fun c hclosed => by
      obtain ⟨client, hc, hclosed⟩ := hclosed
      rcases hget c client hc with ⟨-, rfl⟩ | hc
      · cases hclosed
      · exact .inl ⟨client, hc, hclosed⟩
    releases := fun c hreleased => by
      obtain ⟨client, hc, hreleased⟩ := hreleased
      rcases hget c client hc with ⟨-, rfl⟩ | hc
      · cases hreleased
      · exact .inl ⟨client, hc, hreleased⟩
    input := fun c hinput => by
      obtain ⟨client, hc, hinput⟩ := hinput
      rcases hget c client hc with ⟨rfl, -⟩ | hc
      · exact .inr (.inr hnone)
      · exact .inl ⟨client, hc, hinput⟩
    registers := fun c error hr => by
      obtain ⟨rfl, -⟩ := Task.registering.inj hr
      simp [ht, State.go] }

theorem turn_registered (h : Local s th (.registering c limitError))
    (hlength : s.nativeClients.length < MAX_NATIVE_CLIENTS) :
    Turn s ({ s with nativeClients := c :: s.nativeClients }.go th (.starting c)) th (.registering c limitError)
      (.starting c) :=
  turn_same hrec h rfl rfl rfl rfl (by constructor <;> simp) (append_nil _).symm
    (.aside (by simp) (by simp) (by simp)) (.more c limitError rfl rfl hlength rfl rfl) (by simp)

theorem turn_started (h : Local s th (.starting c)) (hfree : s.threads.get (.reader c) = none) :
    Turn s ((s.go (.reader c) (.looping c)).go th (.returned none)) th (.starting c) (.returned none) where
  owes := by simp
  works := by simp
  reader := by simp
  reads := by simp
  unswapped := by simp
  silent := by simp
  begins := by simp
  writes := by simp
  registers := by simp
  guarantee := guarantee_same hrec rfl rfl rfl ⟨[], (append_nil _).symm⟩
  own := own_go ..
  others k hk := by
    by_cases hr : k = .reader c
    · have hne : Thread.reader c ≠ th := hr ▸ hk
      exact .inr ⟨c, hr, hr ▸ hfree, by simp [State.go, get_insert, hr, hne]⟩
    · exact .inl (by simp [State.go, get_insert, hk, hr])
  knows := h.same rfl rfl rfl (by simp) (by simp)
    (by simp) (by simp)
  logs := ⟨[], (append_nil _).symm, .aside (by simp) (by simp) (by simp), .fewer (by simp [State.go]) (Nat.le_refl _)⟩
  closes _ := .inl
  releases _ := .inl
  input _ := .inl

theorem turn_unregistering {error : String} (h : Local s th (.unregistering c error)) :
    Turn s ((s.remove c).go th (.closing c (.abandoned error))) th (.unregistering c error)
      (.closing c (.abandoned error)) :=
  turn_remove hrec h (by constructor <;> simp) (.inl (by simp)) (by simp) (by simp) (by simp)

theorem turn_release {stalled : Bool} (h : Local s th task) (hq : Quiet s th task (.beginning c stalled))
    (hq' : ∀ error, Quiet s th task (.returned error)) (hbefore : ∀ c, task ≠ .delivering c)
    (hbegins : ∀ c, ¬task.begins c) :
    ∃ task', Turn s (s.release th c stalled) th task task' := by
  unfold State.release
  split
  · exact ⟨_, turn_remove hrec h hq (.inl (by simp)) hbefore (by simp) hbegins⟩
  · exact ⟨_, turn_quiet hrec h (hq' _) hbefore (by simp) fun k hk => absurd hk (hbegins k)⟩

end

/-! ## A termination -/

theorem Changes.go (h : Changes th s t c a b) (k : Thread) (task : Task) : Changes th s (t.go k task) c a b :=
  ⟨h.guarantee.trans (guarantee_go h.guarantee.records k task), h.before, h.after, h.others⟩

theorem Changes.note (h : Changes th s t c a b) (event : Event) : Changes th s (t.note event) c a b :=
  ⟨h.guarantee.trans (guarantee_note h.guarantee.records event), h.before, h.after, h.others⟩

variable {after : After}

theorem turn_closing (hrec : Records s) (h : Local s th (.closing c after)) (hc : s.clients.get c = some a)
    (hlock : a.inputLock = none) :
    Turn s ((s.put c { a with input := false, master := none }).go th (.locking c after)) th (.closing c after)
      (.locking c after) :=
  turn_record hrec h (by constructor <;> cases after <;> simp) hc rfl rfl id rfl rfl (.inr ⟨rfl, hlock⟩) .inl .inl
    (by simp) (by simp) (by simp) (by simp) (by simp)

theorem turn_locking (hrec : Records s) (h : Local s th (.locking c after)) (hc : s.clients.get c = some a)
    (hlock : a.childLock = none) :
    Turn s ((s.put c { a with childLock := some th }).go th (.terminating c .check after)) th (.locking c after)
      (.terminating c .check after) := by
  have hch : Changes th s ((s.put c { a with childLock := some th }).go th (.terminating c .check after)) c a
      { a with childLock := some th } :=
    changes_put hrec hc (keeps_of rfl rfl id (.inr ⟨.inl hlock, .inr rfl⟩) (.inl ⟨rfl, rfl⟩)) rfl rfl rfl rfl ⟨[], (append_nil _).symm⟩
  have hheld : a.inputLock ≠ some th := fun hheld => absurd ((h.inputLock c).1 ⟨a, hc, hheld⟩) (by simp)
  exact turn_changed hch rfl rfl rfl (by constructor <;> cases after <;> simp)
    (fun k hk => .inl (hch.input_same (.inl rfl) hk)) (by simp)
    (h.changes hch (.inl rfl) (by simp) (.inl rfl) (by simp [hheld]) (by simp [hheld]) (by simp) (by simp) (by simp)
      (by simp)) (append_nil _).symm (.aside (by simp) (by simp) (by simp))
    (.fewer (by simp [State.go, State.put]) (Nat.le_refl _)) (by simp) (by simp)

section
variable (h : Local s th (.terminating c phase after)) (hch : Changes th s u c a b)
include h hch

theorem turn_unlocked
 (hb : b = { a with reaped := b.reaped }) (hthreads : u.threads = s.threads)
    (hnative : u.nativeClients = s.nativeClients) (hlog : u.log = s.log ++ events)
    (hevents : ∀ event ∈ events, ∃ k, event = .expired k) (hattended : Attended u c) (hended : Reaped u c ∨ Expired u c)
    (hlock : task'.lock = none) (hinput : task'.inputLock = none)
    (hdue : ∀ k, ¬task'.due k) (hpast : ∀ k, task'.past k → k = c)
    (hends : ∀ k, task'.ended k → k = c) (hgone : task'.targeted = [])
    (hreader : ∀ k, (Task.terminating c phase after).reader = some k → task'.reader = some k)
    (hreads : ∀ k, task'.reader = some k → (Task.terminating c phase after).reader = some k)
    (hswapped : task'.unswapped = false) (hto : ∀ k, task' ≠ .delivering k)
    (hregisters : ∀ k limitError, task' ≠ .registering k limitError) :
    Turn s ((u.unlock c).go th task') th (.terminating c phase after) task' := by
  obtain ⟨held, hheld, hchild⟩ := (h.lock c).2 (by simp)
  cases hch.before.symm.trans hheld
  have hbchild : b.childLock = some th := by
    rw [hb]
    exact hchild
  have hbinput : a.inputLock ≠ some th := fun hl => absurd ((h.inputLock c).1 ⟨a, hch.before, hl⟩) (by simp)
  have hbinput' : b.inputLock ≠ some th := by
    rw [hb]
    exact hbinput
  rw [State.unlock_eq hch.after]
  have hleft : Changes th u ((u.put c { b with childLock := none }).go th task') c b { b with childLock := none } :=
    changes_put hch.guarantee.records hch.after (keeps_of rfl rfl id (.inr ⟨.inr hbchild, .inl rfl⟩) (.inl ⟨rfl, rfl⟩))
      rfl rfl rfl rfl ⟨[], (append_nil _).symm⟩
  have hfinal := hch.then hleft
  have hkept := hleft.guarantee
  exact {
    begins := by simp
    guarantee := hfinal.guarantee
    own := own_go ..
    others := others_go hthreads
    knows := h.changes hfinal (.inr rfl) (hlock.trans (by simp)) (.inl rfl) (hinput.trans (by simp [hbinput']))
      (fun hl => absurd hl hbinput') (fun k hd => absurd hd (hdue k)) (fun k hp => hpast k hp ▸ hkept.attended hattended)
      (fun k he => by
        rw [hends k he]
        exact hended.imp hkept.reaped hkept.expired) (fun k hk => by rw [hgone] at hk; cases hk)
    logs := by
      refine ⟨events, hlog, .aside (by simp) hto fun event he => ?_, .fewer (fun k hk => ⟨hnative ▸ hk, fun he => ?_⟩) ?_⟩
      · obtain ⟨k, rfl⟩ := hevents event he
        trivial
      · obtain ⟨j, hj⟩ := hevents _ he
        cases hj
      · simp [State.go, State.put, hnative]
    owes := fun k hk => .inr (.inl (Task.eq_of_owes_terminating hk ▸ hkept.attended hattended))
    works := fun k hk => .inr ((show c = k from hk) ▸ hended.imp hkept.reaped hkept.expired)
    reader := fun k hk => .inl (hreader k hk)
    reads := hreads
    unswapped := fun hu => by rw [hswapped] at hu; cases hu
    silent := fun k hk hr => by
      have := hreader k hk
      simp [hr] at this
    closes := fun k hk => .inl (hfinal.closed_same (by rw [hb]) hk)
    releases := fun k hk => .inl (hfinal.released_same (by rw [hb]) hk)
    input := fun k hk => .inl (hfinal.input_same (.inl (by rw [hb])) hk)
    writes := fun k hk => by rw [hinput] at hk; cases hk
    registers := fun k limitError hr => absurd hr (hregisters k limitError) }

theorem turn_terminated {error : Option String}
 (hb : b = { a with reaped := b.reaped })
    (hthreads : u.threads = s.threads) (hnative : u.nativeClients = s.nativeClients) (hlog : u.log = s.log ++ events)
    (hevents : ∀ event ∈ events, ∃ k, event = .expired k) (hattended : Attended u c) (hended : Reaped u c ∨ Expired u c) :
    ∃ task', Turn s (u.terminated th c error after) th (.terminating c phase after) task' := by
  cases after <;>
    refine ⟨_, turn_unlocked h hch hb hthreads hnative hlog hevents hattended hended ?_ ?_ ?_ ?_ ?_ ?_ ?_ ?_ ?_ ?_ ?_⟩ <;> simp

theorem turn_terminating {phase' : Phase}
 (hb : b = { a with reaped := b.reaped })
    (hthreads : u.threads = s.threads) (hnative : u.nativeClients = s.nativeClients) (hlog : u.log = s.log ++ events)
    (hevents : ∀ event ∈ events, ∃ target, event = .signal c a.pid target ∧ ∃ running, target = some ⟨some c, running⟩)
    (hdue : ∀ k, (Task.terminating c phase' after).due k → b.reaped = false)
    (hpast : ∀ k, (Task.terminating c phase' after).past k → Attended u c)
    (howes : ∀ k, (Task.terminating c phase after).owes k →
      (Task.terminating c phase' after).owes k ∨ Attended u c) :
    Turn s (u.go th (.terminating c phase' after)) th (.terminating c phase after) (.terminating c phase' after) := by
  obtain ⟨held, hheld, hchild⟩ := (h.lock c).2 (by simp)
  cases hch.before.symm.trans hheld
  have hbchild : b.childLock = some th := by
    rw [hb]
    exact hchild
  have hbinput : a.inputLock ≠ some th := fun hl => absurd ((h.inputLock c).1 ⟨a, hch.before, hl⟩) (by simp)
  have hbinput' : b.inputLock ≠ some th := by
    rw [hb]
    exact hbinput
  have hfinal := hch.go th (.terminating c phase' after)
  have hkept : Guarantee th u (u.go th (.terminating c phase' after)) := guarantee_go hch.guarantee.records ..
  refine turn_changed hfinal hthreads (by rw [hb]) (by rw [hb]) (by constructor <;> cases after <;> simp)
    (fun k hk => .inl (hfinal.input_same (.inl (by rw [hb])) hk)) (by simp) ?_ hlog
    (.aside (by simp) (by simp) fun event he => ?_) (.fewer (fun k hk => ⟨hnative ▸ hk, fun he => ?_⟩) ?_)
    (fun k hk => ?_) (by simp)
  · refine h.changes hfinal (.inr rfl) (by simp [hbchild]) (.inl rfl) (by simp [hbinput']) (fun hl => absurd hl hbinput')
      hdue (fun k hp => ?_) (by simp) (by simp)
    rw [Task.eq_of_past_terminating hp]
    exact hkept.attended (hpast k hp)
  · obtain ⟨target, rfl, running, rfl⟩ := hevents event he
    exact ⟨a, running, hch.before, rfl, rfl⟩
  · obtain ⟨target, hj, -⟩ := hevents _ he
    cases hj
  · simp [State.go, hnative]
  · refine (howes k hk).imp_right fun ha => .inl ?_
    rw [Task.eq_of_owes_terminating hk]
    exact hkept.attended ha

end

section
variable (hrec : Records s)
include hrec

/-- **A termination**, from the locked child to the lock's end. -/
theorem turn_terminate (h : Local s th (.terminating c phase after)) (hc : s.clients.get c = some a) :
    ∃ task', Turn s (s.terminate th c a after choice phase) th (.terminating c phase after) task' := by
  have hheld : a.childLock = some th := by
    obtain ⟨held, hheld, hchild⟩ := (h.lock c).2 (by simp)
    cases hc.symm.trans hheld
    exact hchild
  have hlock : ∀ k, k ≠ th → a.childLock ≠ some k := fun k hk hl => hk (Option.some.inj (hl.symm.trans hheld))
  have hsame : Changes th s s c a a := ⟨.refl hrec, hc, hc, fun _ _ => rfl⟩
  have hnote : ∀ event, Guarantee th s (s.note event) := guarantee_note hrec
  -- What a look at the child comes to.
  have hlook : (a.reaped = false ∧ s.tryWait c a = (false, s)) ∨
      ∃ v, s.tryWait c a = (true, v) ∧ Changes th s v c a { a with reaped := true } ∧ v.log = s.log ∧
        v.nativeClients = s.nativeClients ∧ v.threads = s.threads ∧ Reaped v c := by
    rcases guarantee_tryWait hrec hc hlock with hrun | ⟨v, client', hv, hg, hget, rfl, hothers, hlog, hnative, hthreads⟩
    · exact .inl hrun
    · exact .inr ⟨v, hv, ⟨hg, hc, hget, hothers⟩, hlog, hnative, hthreads, _, hget, rfl⟩
  have hsignal : a.reaped = false → ∃ running,
      s.signal c a = s.note (.signal c a.pid (some ⟨some c, running⟩)) := by
    intro hr
    obtain ⟨-, running, hp⟩ := hrec.process c a hc hr
    exact ⟨running, by rw [State.signal, hp]⟩
  cases phase with
  | check =>
    rcases hlook with ⟨hr, hw⟩ | ⟨v, hw, hch, hlog, hnative, hthreads, hreaped⟩
    · simp only [State.terminate, hw, Bool.false_eq_true, if_false]
      exact ⟨_, turn_terminating h hsame rfl rfl rfl (append_nil _).symm (by simp) (fun _ _ => hr) (by simp) (by simp)⟩
    · simp only [State.terminate, hw, if_true]
      exact turn_terminated h hch rfl hthreads hnative (hlog.trans (append_nil _).symm) (by simp) (.inr (.inl hreaped))
        (.inl hreaped)
  | hup =>
    have hr := h.due c a (by simp) hc
    obtain ⟨running, hs⟩ := hsignal hr
    have hatt : Attended (s.note (.signal c a.pid (some ⟨some c, running⟩))) c :=
      .inl ⟨a.pid, some ⟨some c, running⟩, by simp [State.note]⟩
    simp only [State.terminate, hs]
    exact ⟨_, turn_terminating h (hsame.note _) rfl rfl rfl rfl (by simp) (fun _ _ => hr) (fun _ _ => hatt)
      (fun _ _ => .inr hatt)⟩
  | grace left =>
    have hr := h.due c a (by simp) hc
    have hatt : Attended s c := h.past c (by simp)
    cases left with
    | zero =>
      obtain ⟨running, hs⟩ := hsignal hr
      simp only [State.terminate, hs]
      exact ⟨_, turn_terminating h (hsame.note _) rfl rfl rfl rfl (by simp) (by simp)
        (fun _ _ => (hnote _).attended hatt) (by simp)⟩
    | succ left =>
      rcases hlook with ⟨hr, hw⟩ | ⟨v, hw, hch, hlog, hnative, hthreads, hreaped⟩
      · simp only [State.terminate, hw, Bool.false_eq_true, if_false]
        exact ⟨_, turn_terminating h hsame rfl rfl rfl (append_nil _).symm (by simp) (fun _ _ => hr) (fun _ _ => hatt)
          (by simp)⟩
      · simp only [State.terminate, hw, if_true]
        exact ⟨_, turn_terminating h hch rfl hthreads hnative (hlog.trans (append_nil _).symm) (by simp) (by simp)
          (fun _ _ => .inr (.inl hreaped)) (by simp)⟩
  | wait =>
    have hatt : Attended s c := h.past c (by simp)
    rcases hlook with ⟨hr, hw⟩ | ⟨v, hw, hch, hlog, hnative, hthreads, hreaped⟩
    · simp only [State.terminate, hw, Bool.false_eq_true, if_false]
      cases choice with
      | deadline =>
        exact turn_terminated h (hsame.note (.expired c)) rfl rfl rfl rfl (by simp)
          ((hnote _).attended hatt) (.inr (by simp [Expired, State.note]))
      | _ =>
        exact ⟨_, turn_terminating h hsame rfl rfl rfl (append_nil _).symm (by simp) (by simp) (fun _ _ => hatt)
          (by simp)⟩
    · simp only [State.terminate, hw, if_true]
      exact turn_terminated h hch rfl hthreads hnative (hlog.trans (append_nil _).symm) (by simp) (.inr (.inl hreaped))
        (.inl hreaped)

/-! ## A reader -/

/-- **A step of a reader.** -/
theorem turn_reader (h : Local s th task)
    (htask : task = .looping c ∨ task = .reading c ∨ task = .framing c ∨ task = .swapping c ∨ task = .removing c ∨
      task = .checking c ∨ task = .delivering c) (hstep : s.advance th choice task = some t) :
    ∃ task', Turn s t th task task' := by
  rcases htask with rfl | rfl | rfl | rfl | rfl | rfl | rfl
  · simp only [State.advance] at hstep
    split at hstep
    · cases hstep
      split
      · exact turn_calm hrec h (by simp [Calm, quiet_iff])
      · exact turn_calm hrec h (by simp [Calm, quiet_iff])
    · cases hstep
  · simp only [State.advance] at hstep
    cases hstep
    split
    · exact turn_calm hrec h (by simp [Calm, quiet_iff])
    · exact turn_calm hrec h (by simp [Calm, quiet_iff])
  · simp only [State.advance] at hstep
    split at hstep
    · split at hstep
      · cases hstep
        exact turn_calm hrec h (by simp [Calm, quiet_iff])
      · cases hstep
        split
        · exact turn_calm hrec h (by simp [Calm, quiet_iff])
        · exact turn_calm hrec h (by simp [Calm, quiet_iff])
    · cases hstep
  · simp only [State.advance] at hstep
    split at hstep
    · rename_i client hc
      split at hstep
      · rename_i hclosed
        cases hstep
        have hsilent : ∀ k, (Task.swapping c).reader = some k → Closed s k := by
          intro k hk
          obtain rfl : c = k := by simpa using hk
          exact ⟨client, hc, hclosed⟩
        exact ⟨_, turn_quiet hrec h (by
          constructor
          case silent => exact fun k hk _ => .inr (.inl ⟨by simpa using hk, hsilent k hk⟩)
          all_goals simp) (by simp) (by simp) (by simp)⟩
      · cases hstep
        exact ⟨_, turn_record hrec h (by constructor <;> simp) hc rfl rfl id rfl rfl (.inl rfl)
            (fun _ => .inr (.inr (by simp))) .inl (by simp) (by simp) (by simp) (by simp) (by simp)⟩
    · cases hstep
  · simp only [State.advance] at hstep
    cases hstep
    exact ⟨_, turn_remove hrec h (by constructor <;> simp) (.inr ⟨h.past c (by simp), h.ended c (by simp)⟩) (by simp)
      (by simp) (by simp)⟩
  · simp only [State.advance] at hstep
    split at hstep
    · rename_i client hc
      split at hstep
      · rename_i hreleased
        cases hstep
        have hsilent : ∀ k, (Task.checking c).reader = some k → Released s k := by
          intro k hk
          obtain rfl : c = k := by simpa using hk
          exact ⟨client, hc, hreleased⟩
        exact ⟨_, turn_quiet hrec h (by
          constructor
          case silent => exact fun k hk _ => .inr (.inr (hsilent k hk))
          all_goals simp) (by simp) (by simp) (by simp)⟩
      · rename_i hreleased
        cases hstep
        refine ⟨_, turn_same hrec h rfl rfl rfl rfl (by constructor <;> simp) rfl (.passed c rfl rfl ?_)
          (.fewer (by simp [State.go, State.note]) ?_) (by simp)⟩
        · rintro ⟨other, hother, hr⟩
          cases hc.symm.trans hother
          exact hreleased hr
        · exact Nat.le_refl _
    · cases hstep
  · simp only [State.advance] at hstep
    cases hstep
    exact ⟨_, turn_same hrec h rfl rfl rfl rfl (by constructor <;> simp) rfl (.closed c rfl rfl)
      (.fewer (by simp [State.go, State.note]) (Nat.le_refl _)) (by simp)⟩

/-! ## A release -/

theorem turn_releaseInput (h : Local s th task) (hq : Calm s th task task') (hlock : task.lock = none)
    (hinput : task.inputLock = none) (c : Nat) : ∃ task'', Turn s ((s.releaseInput c).go th task') th task task'' := by
  rcases s.releaseInput_cases c with heq | ⟨client, hc, hfree, heq⟩
  · rw [heq]
    exact turn_calm hrec h hq
  · rw [heq]
    exact ⟨_, turn_record hrec h hq.1 hc rfl rfl id rfl rfl (.inr ⟨rfl, hfree⟩) .inl .inl
      (fun k hk => .inl (hq.2.2.2 k hk)) hlock hinput hq.2.1 hq.2.2.1⟩

/-- **A step of a release.** -/
theorem turn_releasing (h : Local s th task)
    (htask : ∃ stalled, task = .beginning c stalled ∨ task = .begun c stalled ∨ task = .mastering c stalled ∨
      ∃ error, task = .inputs c stalled error)
    (hstep : s.advance th choice task = some t) : ∃ task', Turn s t th task task' := by
  obtain ⟨stalled, rfl | rfl | rfl | ⟨error, rfl⟩⟩ := htask
  · simp only [State.advance] at hstep
    split at hstep
    · rename_i client hc
      cases hstep
      exact ⟨_, turn_record hrec h (by constructor <;> simp) hc rfl rfl id rfl rfl (.inl rfl)
        (fun _ => .inr (.inl (by simp))) .inl (by simp) (by simp) (by simp) (by simp) (by simp)⟩
    · cases hstep
  · simp only [State.advance] at hstep
    split at hstep
    · rename_i client hc
      cases hstep
      exact ⟨_, turn_record hrec h (by constructor <;> simp) hc rfl rfl (fun _ => rfl) rfl rfl (.inl rfl) .inl
        (fun _ => .inr (by simp)) (fun k hk => .inr ⟨(show c = k from hk).symm, rfl⟩) (by simp) (by simp) (by simp) (by simp)⟩
    · cases hstep
  · simp only [State.advance] at hstep
    cases hstep
    cases hc : s.clients.get c with
    | none =>
      simp only [State.releaseMaster, hc]
      exact turn_calm hrec h (by simp [Calm, quiet_iff])
    | some client =>
      rw [State.releaseMaster_eq hc]
      exact ⟨_, turn_record hrec h (by constructor <;> simp) hc rfl rfl id rfl rfl (.inl rfl) .inl .inl
          (by simp) (by simp) (by simp) (by simp) (by simp)⟩
  · cases error with
    | some | none =>
      cases hstep
      exact turn_releaseInput hrec h (by simp [Calm, quiet_iff]) rfl rfl c

/-! ## An input -/

theorem turn_taken (h : Local s th (.waiting c)) (hc : s.clients.get c = some a)
    (hlock : a.inputLock = none) (hinput : a.input = true) :
    Turn s (((s.put c { a with input := false, inputLock := some th }).note (.wrote c)).go th (.writing c)) th (.waiting c)
      (.writing c) := by
  have hch : Changes th s (((s.put c { a with input := false, inputLock := some th }).note (.wrote c)).go th (.writing c)) c
      a { a with input := false, inputLock := some th } :=
    changes_put hrec hc (keeps_of rfl rfl id (.inl rfl) (.inr ⟨.inl hlock, .inr rfl⟩)) rfl rfl rfl rfl ⟨[.wrote c], rfl⟩
  have hheld : a.childLock ≠ some th := fun hl => absurd ((h.lock c).1 ⟨a, hc, hl⟩) (by simp)
  refine turn_changed hch rfl rfl rfl (by constructor <;> simp) (fun k hk => .inl (hch.input_same (.inr rfl) hk))
    (fun k hk => ?_) (h.changes hch (.inl rfl) (by simp [hheld]) (.inl rfl) (by simp) (by simp) (by simp) (by simp) (by simp)
      (by simp)) rfl (.aside (by simp) (by simp) fun event he => ?_)
    (.fewer (by simp [State.go, State.put, State.note]) (Nat.le_refl _)) (by simp) (by simp)
  · obtain rfl : c = k := by simpa using hk
    exact .inr ⟨a, hc, hinput⟩
  · obtain rfl := mem_singleton.1 he
    exact ⟨rfl, a, hc, hinput⟩

theorem turn_written {input : Bool} {events : List Event} (h : Local s th (.writing c))
    (hc : s.clients.get c = some a) (hclients : u.clients = s.clients.insert c { a with input := input, inputLock := none })
    (hprocesses : u.processes = s.processes) (hnext : u.nextSessionId = s.nextSessionId) (hthreads : u.threads = s.threads)
    (hnative : u.nativeClients = s.nativeClients) (hlog : u.log = s.log ++ events)
    (hto : (task' = .stalled c ∧ events = [.stalled c] ∧ input = false) ∨ (events = [] ∧ ∃ error, task' = .returned error)) :
    Turn s (u.go th task') th (.writing c) task' := by
  obtain ⟨held, hheld, hlock⟩ := (h.inputLock c).2 (by simp)
  cases hc.symm.trans hheld
  have hch : Changes th s (u.go th task') c a { a with input := input, inputLock := none } :=
    changes_put hrec hc (keeps_of rfl rfl id (.inl rfl) (.inr ⟨.inr hlock, .inl rfl⟩)) rfl hclients hprocesses hnext
      ⟨events, hlog⟩
  have hchild : a.childLock ≠ some th := fun hl => absurd ((h.lock c).1 ⟨a, hc, hl⟩) (by simp)
  have hmaps : (∀ event ∈ events, event = .stalled c) → Maps s (u.go th task') (.writing c) task' events := by
    refine fun hall => .fewer (fun k hk => ⟨hnative ▸ hk, fun he => ?_⟩) (Nat.le_of_eq (congrArg List.length hnative))
    cases hall _ he
  have hin : ∀ k, HasInput (u.go th task') k → HasInput s k ∨ (Task.writing c).inputLock = some k ∨ s.clients.get k = none := by
    intro k hk
    rcases hch.input hk with hs | ⟨rfl, -⟩
    · exact .inl hs
    · exact .inr (.inl rfl)
  rcases hto with ⟨rfl, rfl, rfl⟩ | ⟨rfl, error, rfl⟩
  · refine turn_changed hch hthreads rfl rfl (by constructor <;> simp) hin (by simp)
      (h.changes hch (.inl rfl) (by simp [hchild]) (.inr rfl) (by simp) (by simp) (by simp) (by simp) (by simp) (by simp))
      hlog (.aside (by simp) (by simp) fun event he => ?_) (hmaps (by simp)) (by simp) (by simp)
    obtain rfl := mem_singleton.1 he
    refine ⟨rfl, rfl, ?_⟩
    rintro ⟨client, hget, hinput⟩
    cases hch.after.symm.trans hget
    cases hinput
  · exact turn_changed hch hthreads rfl rfl (by constructor <;> simp) hin (by simp)
      (h.changes hch (.inl rfl) (by simp [hchild]) (.inr rfl) (by simp) (by simp) (by simp) (by simp) (by simp) (by simp))
      hlog (.aside (by simp) (by simp) (by simp)) (hmaps (by simp)) (by simp) (by simp)

/-- **A step of an input.** -/
theorem turn_input (h : Local s th task)
    (htask : task = .waiting c ∨ task = .writing c ∨ task = .stalled c) (hstep : s.advance th choice task = some t) :
    ∃ task', Turn s t th task task' := by
  rcases htask with rfl | rfl | rfl
  · simp only [State.advance] at hstep
    split at hstep
    · rename_i client hc
      split at hstep
      · cases hstep
        exact turn_calm hrec h (by simp [Calm, quiet_iff])
      · split at hstep
        · rename_i hlock
          split at hstep
          · rename_i hinput
            cases hstep
            exact ⟨_, turn_taken hrec h hc hlock hinput⟩
          · cases hstep
            exact turn_calm hrec h (by simp [Calm, quiet_iff])
        · cases hstep
    · cases hstep
  · simp only [State.advance] at hstep
    split at hstep
    · rename_i client hc
      split at hstep
      · cases hstep
        have hinput := h.taken c client (by simp) hc
        exact ⟨_, turn_written hrec h hc (by rw [← hinput]; rfl) rfl rfl rfl rfl rfl (.inl ⟨rfl, rfl, rfl⟩)⟩
      · cases hstep
        exact ⟨_, turn_written hrec h hc rfl rfl rfl rfl rfl (append_nil _).symm (.inr ⟨rfl, _, rfl⟩)⟩
      · cases hstep
        exact ⟨_, turn_written hrec h hc rfl rfl rfl rfl rfl (append_nil _).symm (.inr ⟨rfl, _, rfl⟩)⟩
    · cases hstep
  · simp only [State.advance] at hstep
    cases hstep
    exact turn_release hrec h (by constructor <;> simp) (fun _ => by constructor <;> simp) (by simp) (by simp)

/-! ## A common release -/

theorem turn_targets {todo made : List Nat} {half : Bool}
    (h : Local s th (.targets todo half made)) (hstep : s.advance th choice (.targets todo half made) = some t) :
    ∃ task', Turn s t th (.targets todo half made) task' := by
  cases todo with
  | nil =>
    cases hstep
    exact ⟨_, turn_quiet hrec h (by
      constructor
      case owes | works => exact fun k hk => .inl (by simpa using hk)
      all_goals simp) (by simp) (by simp) (by simp)⟩
  | cons c todo =>
    cases half with
    | false =>
      simp only [State.advance] at hstep
      split at hstep
      · rename_i client hc
        cases hstep
        exact ⟨_, turn_record hrec h (by
            constructor
            case owes | works => exact fun k hk => .inl hk
            all_goals simp) hc rfl rfl id rfl rfl
          (.inl rfl) (fun _ => .inr (.inl (by simp))) .inl (by simp) (by simp) (by simp) (by simp) (by simp)⟩
      · cases hstep
    | true =>
      simp only [State.advance] at hstep
      split at hstep
      · rename_i client hc
        cases hstep
        have hmoved : ∀ k, k ∈ c :: todo ∨ k ∈ made → k ∈ todo ∨ k ∈ made ++ [c] := by
          intro k hk
          simp only [mem_cons, mem_append, mem_nil_iff, or_false] at hk ⊢
          tauto
        exact ⟨_, turn_record hrec h (by
            constructor
            case owes | works => exact fun k hk => .inl (hmoved k hk)
            all_goals simp) hc
          rfl rfl (fun _ => rfl) rfl rfl (.inl rfl) .inl (fun _ => .inr (by simp))
          (fun k hk => .inr ⟨(show c = k from hk).symm, rfl⟩) (by simp) (by simp) (by simp) (by simp)⟩
      · cases hstep

theorem turn_stay (h : Local s th task) (hth : s.threads.get th = some task)
    (hreader : task.reader = none) (hbefore : ∀ c, task ≠ .delivering c)
    (hregisters : ∀ c limitError, task ≠ .registering c limitError) : Turn s s th task task where
  guarantee := .refl hrec
  own := hth
  others _ _ := .inl rfl
  knows := h
  logs := ⟨[], (append_nil _).symm, .aside hbefore hbefore (by simp), .fewer (by simp) (Nat.le_refl _)⟩
  owes _ := .inl
  works _ := .inl
  reader _ := .inl
  reads _ hr := hr
  unswapped hu := hu
  silent c hr := by
    rw [hreader] at hr
    cases hr
  begins _ := .inl
  closes _ := .inl
  releases _ := .inl
  input _ := .inl
  writes _ := .inl
  registers c limitError hr := absurd hr (hregisters c limitError)

end

variable {kill : Bool}

theorem turn_settling {rest : List (Nat × Bool)} (hrec : Records s)
    (h : Local s th (.settling kill rest)) (hth : s.threads.get th = some (.settling kill rest))
    (hstep : s.advance th choice (.settling kill rest) = some t) : ∃ task', Turn s t th (.settling kill rest) task' := by
  have hstay := turn_stay hrec h hth rfl (by simp) (by simp)
  have hall : rest.all (·.2) = true → ∀ k, (k, false) ∉ rest := by
    intro hall k hk
    simpa using all_eq_true.1 hall _ hk
  cases choice with
  | poll c =>
    simp only [State.advance] at hstep
    split at hstep
    · split at hstep
      · rename_i client hc
        cases hstep
        unfold State.pollTarget
        split
        · rename_i hlock
          have hfree : ∀ k, k ≠ th → client.childLock ≠ some k := by simp [hlock]
          rcases guarantee_tryWait hrec hc hfree with ⟨-, hw⟩ | ⟨v, other, hw, hg, hget, rfl, hothers, hlog, hnative, hthreads⟩
          · simp only [hw, Bool.false_eq_true, if_false]
            exact ⟨_, hstay⟩
          · simp only [hw, if_true]
            have hch : Changes th s v c client { client with reaped := true } := ⟨hg, hc, hget, hothers⟩
            have hfinal := hch.go th (.settling kill (rest.map fun target => if target.1 = c then (c, true) else target))
            have hreaped : Reaped (v.go th (.settling kill (rest.map fun target => if target.1 = c then (c, true) else target))) c :=
              ⟨_, hfinal.after, rfl⟩
            have hwriter : client.inputLock ≠ some th := fun hl => absurd ((h.inputLock c).1 ⟨client, hc, hl⟩) (by simp)
            refine ⟨_, turn_changed hfinal hthreads rfl rfl (by constructor <;> simp)
              (fun k hk => .inl (hfinal.input_same (.inl rfl) hk)) (by simp)
              (h.changes hfinal (.inl rfl) (by simp [hlock]) (.inl rfl) (by simp [hwriter]) (fun hl => absurd hl hwriter)
                (by simp) (by simp) (by simp) fun k hk => ?_) (hlog.trans (append_nil _).symm)
              (.aside (by simp) (by simp) (by simp)) (.fewer (by simp [State.go, hnative]) (by simp [State.go, hnative]))
              (by simp) fun k hk => ?_⟩
            · obtain ⟨target, htarget, heq⟩ := mem_map.1 hk
              by_cases hkc : target.1 = c
              · rw [if_pos hkc] at heq
                obtain rfl : c = k := congrArg Prod.fst heq
                exact hreaped
              · rw [if_neg hkc] at heq
                subst heq
                exact hfinal.guarantee.reaped (h.gone k htarget)
            · by_cases hkc : k = c
              · exact .inr (.inl (hkc ▸ hreaped))
              · exact .inl (mem_map.2 ⟨(k, false), hk, by simp [hkc]⟩)
        · exact ⟨_, hstay⟩
      · cases hstep
    · cases hstep
  | deadline =>
    simp only [State.advance] at hstep
    split at hstep
    · cases hstep
      have hg : Guarantee th s ((s.expire rest).go th (.letGo (rest.map Prod.fst))) := guarantee_same hrec rfl rfl rfl ⟨_, rfl⟩
      refine ⟨_, {
        owes := by simp
        reader := by simp
        reads := by simp
        unswapped := by simp
        silent := by simp
        begins := by simp
        writes := by simp
        registers := by simp
        guarantee := hg
        own := own_go ..
        others := others_go rfl
        knows := h.same rfl rfl rfl (by simp) (by simp) (by simp) (by simp)
        logs := ⟨_, rfl, .aside (by simp) (by simp) fun event he => ?_, .fewer (fun k hk => ⟨hk, by simp⟩) (Nat.le_refl _)⟩
        works := fun k hk => .inr (.inr ?_)
        closes := fun _ => .inl
        releases := fun _ => .inl
        input := fun _ => .inl }⟩
      · obtain ⟨target, -, rfl⟩ := mem_map.1 he
        trivial
      · have hk : (k, false) ∈ rest := hk
        simp only [Expired, State.go, State.expire, mem_append]
        exact .inr (mem_map.2 ⟨(k, false), mem_filter.2 ⟨hk, rfl⟩, rfl⟩)
    · cases hstep
      exact ⟨_, turn_quiet hrec h (by
          constructor
          case works => exact fun k hk => .inl (.inl hk)
          all_goals simp) (by simp) (by simp) (by simp)⟩
  | _ =>
    simp only [State.advance] at hstep
    split at hstep
    · rename_i hgone
      cases hstep
      exact ⟨_, turn_quiet hrec h (by
          constructor
          case works => exact fun k hk => absurd hk (hall hgone k)
          all_goals simp) (by simp) (by simp) (by simp)⟩
    · cases hstep

variable {past : List (Nat × Bool)}

variable {todo : List (Nat × Bool)} {decode : String → Option Nat} {action : Action}

section
variable (hrec : Records s)
include hrec

theorem turn_signalTarget
    (h : Local s th (.signalling kill ((c, false) :: todo) past)) (hc : s.clients.get c = some a) :
    ∃ task', Turn s (s.signalTarget th kill c a todo past) th (.signalling kill ((c, false) :: todo) past) task' := by
  have hwriter : a.inputLock ≠ some th := fun hl => absurd ((h.inputLock c).1 ⟨a, hc, hl⟩) (by simp)
  have hchild : a.childLock ≠ some th := fun hl => absurd ((h.lock c).1 ⟨a, hc, hl⟩) (by simp)
  unfold State.signalTarget
  by_cases hlock : a.childLock = none
  · rw [if_pos hlock]
    have hfree : ∀ k, k ≠ th → a.childLock ≠ some k := by simp [hlock]
    rcases guarantee_tryWait hrec hc hfree with ⟨hr, hw⟩ | ⟨v, other, hw, hg, hget, rfl, hothers, hlog, hnative, hthreads⟩
    · simp only [hw, Bool.false_eq_true, if_false]
      have hch : Changes th s ((s.put c { a with childLock := some th }).go th (.sending kill c todo past)) c a
          { a with childLock := some th } :=
        changes_put hrec hc (keeps_of rfl rfl id (.inr ⟨.inl hlock, .inr rfl⟩) (.inl ⟨rfl, rfl⟩)) rfl rfl rfl rfl
          ⟨[], (append_nil _).symm⟩
      refine ⟨_, turn_changed hch rfl rfl rfl (by constructor <;> simp)
        (fun k hk => .inl (hch.input_same (.inl rfl) hk)) (by simp)
        (h.changes hch (.inl rfl) (by simp) (.inl rfl) (by simp [hwriter]) (fun hl => absurd hl hwriter)
          (fun _ _ => hr) (by simp) (by simp) fun k hk => hch.guarantee.reaped (h.gone k (by simpa using hk)))
        (append_nil _).symm (.aside (by simp) (by simp) (by simp))
        (.fewer (by simp [State.go, State.put]) (Nat.le_refl _)) (fun k hk => .inl ?_) fun k hk => .inl ?_⟩
      · cases kill with
        | true => cases hk
        | false =>
          simp only [Task.owes, mem_cons, Prod.mk.injEq, and_true, true_and] at hk ⊢
          exact hk.imp_left Eq.symm
      · simp only [Task.works, mem_cons, Prod.mk.injEq, and_true] at hk ⊢
        rw [or_assoc] at hk
        exact hk.imp_left Eq.symm
    · simp only [hw, if_true]
      rw [State.releaseMaster_eq hget]
      have hlook : Changes th s v c a { a with reaped := true } := ⟨hg, hc, hget, hothers⟩
      have hch : Changes th s ((v.put c { a with reaped := true, master := none }).go th
          (.signalling kill todo (past ++ [(c, true)]))) c a { a with reaped := true, master := none } :=
        hlook.then (changes_put hg.records hget (keeps_of rfl rfl id (.inl rfl) (.inl ⟨rfl, rfl⟩)) rfl rfl rfl rfl
          ⟨[], (append_nil _).symm⟩)
      have hreaped : Reaped ((v.put c { a with reaped := true, master := none }).go th
          (.signalling kill todo (past ++ [(c, true)]))) c := ⟨_, hch.after, rfl⟩
      refine ⟨_, turn_changed hch hthreads rfl rfl (by constructor <;> simp)
        (fun k hk => .inl (hch.input_same (.inl rfl) hk)) (by simp)
        (h.changes hch (.inl rfl) (by simp [hlock]) (.inl rfl) (by simp [hwriter]) (fun hl => absurd hl hwriter)
          (by simp) (by simp) (by simp) fun k hk => ?_) (hlog.trans (append_nil _).symm)
        (.aside (by simp) (by simp) (by simp))
        (.fewer (by simp [State.go, State.put, hnative]) (by simp [State.go, State.put, hnative]))
        (fun k hk => ?_) fun k hk => ?_⟩
      · by_cases hkc : k = c
        · exact hkc ▸ hreaped
        · exact hch.guarantee.reaped (h.gone k (by simpa [hkc] using hk))
      · cases kill with
        | true => cases hk
        | false =>
          by_cases hkc : k = c
          · exact .inr (.inl (.inr (.inl (hkc ▸ hreaped))))
          · exact .inl (by simpa [hkc] using hk)
      · by_cases hkc : k = c
        · exact .inr (.inl (hkc ▸ hreaped))
        · exact .inl (by simpa [hkc] using hk)
  · rw [if_neg hlock, State.releaseMaster_eq hc]
    refine ⟨_, turn_record hrec h ⟨rfl, rfl, by simp, by simp, by simp, by simp, fun k hk => ?_, fun k hk => .inl ?_,
      by simp, by simp, by simp, by simp, by simp⟩ hc rfl rfl id rfl rfl (.inl rfl) .inl .inl (by simp) (by simp) (by simp)
      (by simp) (by simp)⟩
    · cases kill with
      | true => cases hk
      | false =>
        by_cases hkc : k = c
        · obtain ⟨holder, hholder⟩ := Option.ne_none_iff_exists'.1 hlock
          refine .inr ⟨holder, ?_, a, hkc ▸ hc, hholder⟩
          rintro rfl
          exact hchild hholder
        · exact .inl (by simpa [hkc] using hk)
    · simp only [Task.works, mem_cons, mem_append, Prod.mk.injEq, and_true, mem_nil_iff, or_false] at hk ⊢
      tauto

theorem turn_signalling
    (h : Local s th (.signalling kill todo past)) (hstep : s.advance th choice (.signalling kill todo past) = some t) :
    ∃ task', Turn s t th (.signalling kill todo past) task' := by
  rcases todo with _ | ⟨⟨c, flag⟩, todo⟩
  · simp only [State.advance] at hstep
    split at hstep
    · rename_i hall
      cases hstep
      refine ⟨_, turn_quiet hrec h ⟨rfl, rfl, by simp, by simp, by simp, by simp, ?_, fun k hk => ?_, by simp, by simp,
        by simp, by simp, by simp⟩ (by simp) (by simp) (by simp)⟩
      · rw [hall.1]
        simp
      · have hk : (k, false) ∈ past := by simpa using hk
        simpa using all_eq_true.1 hall.2 _ hk
    · cases hstep
      refine ⟨_, turn_quiet hrec h (by
        constructor
        case owes => cases kill <;> simp
        case works => exact fun k hk => .inl (by simpa using hk)
        all_goals simp) (by simp) (by simp) (by simp)⟩
  · cases flag with
    | true =>
      cases hstep
      refine ⟨_, turn_quiet hrec h ⟨rfl, rfl, by simp, by simp, by simp, fun k hk => ?_, ?_,
        fun k hk => .inl (by simpa using hk), by simp, by simp, by simp, by simp, by simp⟩ (by simp) (by simp) (by simp)⟩
      · simp only [Task.targeted, mem_append, mem_cons, mem_nil_iff, or_false] at hk ⊢
        tauto
      · cases kill
        · exact fun k hk => .inl (by simpa using hk)
        · simp
    | false =>
      simp only [State.advance] at hstep
      split at hstep
      · rename_i client hc
        cases hstep
        exact turn_signalTarget hrec h hc
      · cases hstep

theorem turn_sending
    (h : Local s th (.sending kill c todo past)) (hstep : s.advance th choice (.sending kill c todo past) = some t) :
    ∃ task', Turn s t th (.sending kill c todo past) task' := by
  obtain ⟨client, hc, hheld⟩ := (h.lock c).2 (by simp)
  have hr := h.due c client (by simp) hc
  obtain ⟨hpid, running, hp⟩ := hrec.process c client hc hr
  have hwriter : client.inputLock ≠ some th := fun hl => absurd ((h.inputLock c).1 ⟨client, hc, hl⟩) (by simp)
  simp only [State.advance, hc, if_pos hpid, State.signal, hp] at hstep
  cases hstep
  have hnoted : (s.note (.signal c client.pid (some ⟨some c, running⟩))).clients.get c = some client := hc
  rw [State.unlock_eq hnoted, State.releaseMaster_eq (get_insert_self ..)]
  have hleft : Changes th s ((s.note (.signal c client.pid (some ⟨some c, running⟩))).put c { client with childLock := none })
      c client { client with childLock := none } :=
    changes_put hrec hc (keeps_of rfl rfl id (.inr ⟨.inr hheld, .inl rfl⟩) (.inl ⟨rfl, rfl⟩)) rfl rfl rfl rfl ⟨[_], rfl⟩
  have hch : Changes th s ((((s.note (.signal c client.pid (some ⟨some c, running⟩))).put c
      { client with childLock := none }).put c { client with childLock := none, master := none }).go th
        (.signalling kill todo (past ++ [(c, false)]))) c client { client with childLock := none, master := none } :=
    hleft.then (changes_put hleft.guarantee.records hleft.after (keeps_of rfl rfl id (.inl rfl) (.inl ⟨rfl, rfl⟩)) rfl rfl
      rfl rfl ⟨[], (append_nil _).symm⟩)
  refine ⟨_, turn_changed hch rfl rfl rfl (by constructor <;> simp) (fun k hk => .inl (hch.input_same (.inl rfl) hk))
    (by simp) (h.changes hch (.inr rfl) (by simp) (.inl rfl) (by simp [hwriter]) (fun hl => absurd hl hwriter) (by simp)
      (by simp) (by simp) fun k hk => hch.guarantee.reaped (h.gone k (by simpa using hk))) rfl
    (.aside (by simp) (by simp) fun event he => ?_)
    (.fewer (by simp [State.go, State.put, State.note]) (Nat.le_refl _)) (fun k hk => ?_) fun k hk => .inl ?_⟩
  · obtain rfl := mem_singleton.1 he
    exact ⟨client, running, hc, rfl, rfl⟩
  · rcases hk with rfl | ⟨rfl, hk⟩
    · exact .inr (.inl (.inl ⟨client.pid, some ⟨some c, running⟩, by simp [State.go, State.put, State.note]⟩))
    · exact .inl hk
  · simp only [Task.works, mem_append, mem_cons, Prod.mk.injEq, and_true, mem_nil_iff, or_false] at hk ⊢
    rcases hk with rfl | hk | hk
    · exact .inr (.inr rfl)
    · exact .inl hk
    · exact .inr (.inl hk)

theorem turn_letGo {todo : List Nat} (h : Local s th (.letGo todo))
    (hstep : s.advance th choice (.letGo todo) = some t) : ∃ task', Turn s t th (.letGo todo) task' := by
  cases todo with
  | nil =>
    cases hstep
    exact turn_calm hrec h (by simp [Calm, quiet_iff])
  | cons c todo =>
    cases hstep
    exact turn_releaseInput hrec h (by simp [Calm, quiet_iff]) rfl rfl c

/-! ## Every task -/

/-- **A step of a thread is a turn.** -/
theorem turn_advance (h : Local s th task) (hth : s.threads.get th = some task)
    (hstep : s.advance th choice task = some t) : ∃ task', Turn s t th task task' := by
  cases task with
  | «opening» size limitError =>
    simp only [State.advance] at hstep
    split at hstep
    · rename_i pid
      split at hstep
      · cases hstep
      · rename_i hpid
        cases hstep
        simp only [not_or, Bool.not_eq_true, contains_eq_false, Nat.not_le] at hpid
        exact ⟨_, turn_spawned hrec h hpid.1 hpid.2 rfl⟩
    · cases hstep
      exact turn_calm hrec h (by simp [Calm, quiet_iff])
    · cases hstep
  | registering c limitError =>
    simp only [State.advance] at hstep
    split at hstep
    · cases hstep
      exact turn_calm hrec h (by simp [Calm, quiet_iff])
    · rename_i hlength
      cases hstep
      exact ⟨_, turn_registered hrec h (Nat.not_le.1 hlength)⟩
  | starting c =>
    simp only [State.advance] at hstep
    split at hstep
    · cases hstep
      exact turn_calm hrec h (by simp [Calm, quiet_iff])
    · split at hstep
      · cases hstep
      · rename_i hfree
        cases hstep
        exact ⟨_, turn_started hrec h (contains_eq_false.1 (Bool.not_eq_true _ ▸ hfree))⟩
  | unregistering c error =>
    cases hstep
    exact ⟨_, turn_unregistering hrec h⟩
  | closing c after =>
    simp only [State.advance] at hstep
    split at hstep
    · rename_i client hc
      split at hstep
      · rename_i hlock
        cases hstep
        exact ⟨_, turn_closing hrec h hc hlock⟩
      · cases hstep
    · cases hstep
  | locking c after =>
    simp only [State.advance] at hstep
    split at hstep
    · rename_i client hc
      split at hstep
      · rename_i hlock
        cases hstep
        exact ⟨_, turn_locking hrec h hc hlock⟩
      · cases hstep
    · cases hstep
  | terminating c phase after =>
    simp only [State.advance] at hstep
    split at hstep
    · rename_i client hc
      cases hstep
      exact turn_terminate hrec h hc
    · cases hstep
  | looping c | reading c | framing c | swapping c | removing c | checking c | delivering c =>
    exact turn_reader (c := c) hrec h (by simp) hstep
  | beginning c stalled | begun c stalled | mastering c stalled | inputs c stalled error =>
    exact turn_releasing (c := c) hrec h (by simp) hstep
  | joining stalled =>
    cases hstep
    exact turn_calm hrec h (by simp [Calm, quiet_iff])
  | waiting c | writing c | stalled c => exact turn_input (c := c) hrec h (by simp) hstep
  | targets todo half made => exact turn_targets hrec h hstep
  | signalling kill todo past => exact turn_signalling hrec h hstep
  | sending kill c todo past => exact turn_sending hrec h hstep
  | settling kill rest => exact turn_settling hrec h hth hstep
  | letGo todo => exact turn_letGo hrec h hstep
  | returned error => cases hstep

end

/-! ## Calls -/

def Action.caller : Action → Option Nat
  | .open th _ _ => some th
  | .input th _ _ _ => some th
  | .resize th _ _ _ => some th
  | .release th _ => some th
  | .releaseAll th => some th
  | _ => none

theorem resized_ok {cols rows : Nat} (h : resized a cols rows = .ok b) : ∃ size, b = { a with master := some size } := by
  unfold resized at h
  split at h
  · cases h
  · split at h
    · rename_i size _
      exact ⟨size, (Except.ok.inj h).symm⟩
    · cases h

theorem free_of_call {n : Nat} (hcaller : action.caller = some n)
    (hstep : next decode s action = some t) : s.threads.get (.caller n) = none := by
  rw [← contains_eq_false, ← Bool.not_eq_true]
  intro hbusy
  cases action with
  | «open» | input | resize | release | releaseAll =>
    cases hcaller
    simp [next, hbusy] at hstep
  | _ => cases hcaller

/-- **A call is a turn** of a thread that did nothing yet. -/
theorem turn_call {n : Nat} (hrec : Records s)
    (h : Local s (.caller n) (.returned none)) (hcaller : action.caller = some n) (hstep : next decode s action = some t) :
    ∃ task', Turn s t (.caller n) (.returned none) task' := by
  have hfree : ¬s.threads.contains (.caller n) = true :=
    Bool.not_eq_true _ ▸ contains_eq_false.2 (free_of_call hcaller hstep)
  cases action with
  | «open» th size limitError =>
    cases hcaller
    simp only [next, if_neg hfree] at hstep
    split at hstep
    · cases hstep
      exact turn_calm hrec h (by simp [Calm, quiet_iff])
    · split at hstep
      · cases hstep
        exact turn_calm hrec h (by simp [Calm, quiet_iff])
      · cases hstep
        exact turn_calm hrec h (by simp [Calm, quiet_iff])
  | input th id text bytesBase64 =>
    cases hcaller
    simp only [next, if_neg hfree] at hstep
    split at hstep
    · cases hstep
      exact turn_calm hrec h (by simp [Calm, quiet_iff])
    · split at hstep
      · cases hstep
        exact turn_calm hrec h (by simp [Calm, quiet_iff])
      · split at hstep
        · cases hstep
          exact turn_calm hrec h (by simp [Calm, quiet_iff])
        · cases hstep
          exact turn_calm hrec h (by simp [Calm, quiet_iff])
  | resize th id cols rows =>
    cases hcaller
    simp only [next, if_neg hfree] at hstep
    split at hstep
    · split at hstep
      · rename_i client hc
        split at hstep
        · rename_i client' hsize
          cases hstep
          obtain ⟨size, rfl⟩ := resized_ok hsize
          exact ⟨_, turn_record hrec h (by constructor <;> simp) hc rfl rfl (fun hr => hr) rfl rfl (.inl rfl) .inl .inl
              (by simp) (by simp) (by simp) (by simp) (by simp)⟩
        · cases hstep
          exact turn_calm hrec h (by simp [Calm, quiet_iff])
      · cases hstep
    · cases hstep
      exact turn_calm hrec h (by simp [Calm, quiet_iff])
  | release th id =>
    cases hcaller
    simp only [next, if_neg hfree] at hstep
    cases hstep
    exact turn_release hrec h (by constructor <;> simp) (fun _ => by constructor <;> simp) (by simp) (by simp)
  | releaseAll th =>
    cases hcaller
    simp only [next, if_neg hfree] at hstep
    cases hstep
    refine ⟨_, turn_same hrec h rfl rfl rfl rfl (by constructor <;> simp) rfl
      (.aside (by simp) (by simp) fun event he => ?_) (.fewer (by simp [State.go]) (Nat.zero_le _)) (by simp)⟩
    obtain ⟨c, hc, rfl⟩ := mem_map.1 he
    exact ⟨hc, .inl (by simp [hc])⟩
  | _ => cases hcaller

end NativeClients
end Yuzora
