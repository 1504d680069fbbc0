import Yuzora.Askpass
/-!
# AskpassSound — who waits, and for what

A waiter is of a connection that was admitted and has nothing in its channel (`Matched`); what is asked is asked once
(`Asked`); and an operation that was removed stays so (`Opened`).
-/
namespace Yuzora

namespace Table

variable {K V : Type} [DecidableEq K]

theorem count_le_one {t : Table K V} {p : K → V → Bool}
    (h : ∀ k v k' v', t.get k = some v → p k v = true → t.get k' = some v' → p k' v' = true → k = k') : t.count p ≤ 1 := by
  by_cases hzero : t.count p = 0
  · omega
  · obtain ⟨⟨k, v⟩, hmem, hp⟩ := List.countP_pos_iff.1 (Nat.pos_of_ne_zero hzero)
    have hg := get_eq_some.2 hmem
    have herase := count_erase_of_get p hg hp
    have hrest : (t.erase k).count p = 0 := by
      refine List.countP_eq_zero.2 fun e he hpe => ?_
      have hget := get_eq_some.2 he
      rw [get_erase] at hget
      split at hget
      · cases hget
      · rename_i hne
        exact hne (h k v e.1 e.2 hg hp hget hpe).symm
    omega

theorem length_filter_values (t : Table K V) (p : V → Bool) : (t.values.filter p).length = t.count fun _ v => p v := by
  rw [← List.countP_eq_length_filter, values, List.countP_map]
  rfl

end Table

namespace Askpass

open Table

variable {s t : State}

/-! ## Tasks -/

def Task.call : Task → Option Admitted
  | .admitted call | .waiting call | .cancelling call => some call
  | _ => none

def Task.asks : Task → Bool
  | .admitted _ | .waiting _ => true
  | _ => false

def Task.resolves : Task → Bool
  | .resolve _ _ _ => true
  | _ => false

def Task.sweep : Task → Option Sweep
  | .beginOperation _ _ sweep | .revoke sweep | .resolve _ _ sweep => some sweep
  | _ => none

def State.call (s : State) (c : Nat) : Option Admitted := (s.tasks.get c).bind Task.call

def State.asks (s : State) (c : Nat) : Bool := (s.tasks.get c).any Task.asks

def State.idle (s : State) (c : Nat) : Bool := (s.tasks.get c).all Task.resolves

theorem get_put (s : State) (thread : Nat) (task : Task) (c : Nat) :
    (s.put thread task).tasks.get c = if c = thread then some task else s.tasks.get c :=
  get_insert s.tasks _ _ _

@[simp] theorem call_put (s : State) (thread : Nat) (task : Task) (c : Nat) :
    (s.put thread task).call c = if c = thread then task.call else s.call c := by
  unfold State.call
  rw [get_put]
  split <;> rfl

@[simp] theorem asks_put (s : State) (thread : Nat) (task : Task) (c : Nat) :
    (s.put thread task).asks c = if c = thread then task.asks else s.asks c := by
  unfold State.asks
  rw [get_put]
  split <;> rfl

@[simp] theorem idle_put (s : State) (thread : Nat) (task : Task) (c : Nat) :
    (s.put thread task).idle c = if c = thread then task.resolves else s.idle c := by
  unfold State.idle
  rw [get_put]
  split <;> rfl

variable {task : Task}

theorem call_of_get {c : Nat} (h : s.tasks.get c = some task) : s.call c = task.call := by
  rw [State.call, h, Option.bind_some]

theorem idle_of_none {c : Nat} (h : s.tasks.contains c = false) : s.idle c = true ∧ s.call c = none := by
  rw [contains_eq_false] at h
  rw [State.idle, State.call, h]
  exact ⟨rfl, rfl⟩

/-! ## Waiters -/

structure Matched (s : State) : Prop where
  ids : ∀ c call, s.call c = some call → call.event.id < s.pending.nextId
  distinct : ∀ c c' call call', s.call c = some call → s.call c' = some call' → call.event.id = call'.event.id → c = c'
  waiters : ∀ id waiter, s.pending.waiters.get id = some waiter → ∃ call, s.call waiter.sender = some call ∧
    call.event.id = id ∧ call.request.operationId = waiter.operationId ∧ s.channels waiter.sender = []
  /-- Who asks and was sent nothing is waited for. -/
  heard : ∀ c call, s.call c = some call → s.asks c = true → s.channels c = [] →
    s.pending.waiters.get call.event.id = some ⟨call.request.operationId, c⟩
  quiet : ∀ c, s.idle c = true → s.channels c = []
  single : ∀ c, (s.channels c).length ≤ 1

theorem matched_new (now : Nat) : Matched (.new now) where
  ids c call h := by cases h
  distinct c c' call call' h := by cases h
  waiters id waiter h := by cases h
  heard c call h := by cases h
  quiet _ _ := rfl
  single _ := Nat.zero_le _

/-- A step beside the waiters: none is admitted, and nothing is sent. -/
structure Beside (s t : State) : Prop where
  pending : t.pending = s.pending
  channels : t.channels = s.channels
  emitted : t.emitted = s.emitted
  call : ∀ c, t.call c = s.call c
  asks : ∀ c, t.asks c = s.asks c
  idle : ∀ c, t.idle c = true → s.idle c = true

theorem Matched.beside (h : Matched s) (hb : Beside s t) : Matched t where
  ids c call hc := hb.pending ▸ h.ids c call (hb.call c ▸ hc)
  distinct c c' call call' hc hc' := h.distinct c c' call call' (hb.call c ▸ hc) (hb.call c' ▸ hc')
  waiters id waiter hw := by
    rw [hb.pending] at hw
    rw [hb.call, hb.channels]
    exact h.waiters id waiter hw
  heard c call hc ha hn := by
    rw [hb.pending]
    exact h.heard c call (hb.call c ▸ hc) (hb.asks c ▸ ha) (hb.channels ▸ hn)
  quiet c hi := by
    rw [hb.channels]
    exact h.quiet c (hb.idle c hi)
  single c := by
    rw [hb.channels]
    exact h.single c

variable {thread : Nat}

theorem beside_put (hold : s.call thread = none) (hasks : s.asks thread = false)
    (hcall : task.call = none) (hasks' : task.asks = false) (hidle : task.resolves = true → s.idle thread = true) :
    Beside s (s.put thread task) where
  pending := rfl
  channels := rfl
  emitted := rfl
  call c := by
    rw [call_put]
    by_cases hc : c = thread
    · rw [if_pos hc, hc, hold, hcall]
    · rw [if_neg hc]
  asks c := by
    rw [asks_put]
    by_cases hc : c = thread
    · rw [if_pos hc, hc, hasks, hasks']
    · rw [if_neg hc]
  idle c hi := by
    rw [idle_put] at hi
    by_cases hc : c = thread
    · rw [if_pos hc] at hi
      exact hc ▸ hidle hi
    · rw [if_neg hc] at hi
      exact hi

theorem matched_register (h : Matched s) {peer : PeerIdentity} {request : ClientRequest}
    {record : OperationRecord} (hidle : s.idle thread = true) (hcall : s.call thread = none) :
    Matched (s.register thread peer request record) := by
  have hasks : ∀ c, c ≠ thread → (s.register thread peer request record).asks c = s.asks c := by
    intro c hc
    rw [State.register, asks_put, if_neg hc]
    rfl
  have hidles : ∀ c, c ≠ thread → (s.register thread peer request record).idle c = s.idle c := by
    intro c hc
    rw [State.register, idle_put, if_neg hc]
    rfl
  have hcalls : ∀ c, c ≠ thread → (s.register thread peer request record).call c = s.call c := by
    intro c hc
    rw [State.register, call_put, if_neg hc]
    rfl
  have hget : ∀ c call, (s.register thread peer request record).call c = some call →
      (c = thread ∧ call = ⟨peer, request, record.context.request s.pending.nextId request.prompt⟩) ∨
        (c ≠ thread ∧ s.call c = some call) := by
    intro c call hc
    by_cases hcc : c = thread
    · rw [State.register, call_put, if_pos hcc] at hc
      exact .inl ⟨hcc, (Option.some.inj hc).symm⟩
    · rw [hcalls c hcc] at hc
      exact .inr ⟨hcc, hc⟩
  have hwaiters : ∀ id, (s.register thread peer request record).pending.waiters.get id =
      if id = s.pending.nextId then some ⟨request.operationId, thread⟩ else s.pending.waiters.get id :=
    fun id => get_insert s.pending.waiters _ _ _
  have hchannels : (s.register thread peer request record).channels = s.channels := rfl
  constructor
  case ids =>
    intro c call hc
    rcases hget c call hc with ⟨-, rfl⟩ | ⟨-, hc⟩
    · exact Nat.lt_succ_self _
    · exact Nat.lt_succ_of_lt (h.ids c call hc)
  case distinct =>
    intro c c' call call' hc hc' hid
    rcases hget c call hc with ⟨rfl, rfl⟩ | ⟨hne, hold⟩
    · rcases hget c' call' hc' with ⟨rfl, rfl⟩ | ⟨hne', hc'⟩
      · rfl
      · have hlt := h.ids c' call' hc'
        have hself : call'.event.id = s.pending.nextId := hid.symm
        omega
    · rcases hget c' call' hc' with ⟨rfl, rfl⟩ | ⟨hne', hc'⟩
      · have hlt := h.ids c call hold
        have hself : call.event.id = s.pending.nextId := hid
        omega
      · exact h.distinct c c' call call' hold hc' hid
  case waiters =>
    intro id waiter hw
    rw [hwaiters] at hw
    by_cases hid : id = s.pending.nextId
    · rw [if_pos hid] at hw
      cases hw
      refine ⟨⟨peer, request, record.context.request s.pending.nextId request.prompt⟩, ?_, hid.symm, rfl, h.quiet thread hidle⟩
      simp [State.register, Task.call]
    · rw [if_neg hid] at hw
      obtain ⟨call, hc, hrest⟩ := h.waiters id waiter hw
      have hne : waiter.sender ≠ thread := by
        intro heq
        rw [heq, hcall] at hc
        cases hc
      exact ⟨call, (hcalls _ hne).trans hc, hrest⟩
  case heard =>
    intro c call hc ha hn
    rw [hwaiters]
    rcases hget c call hc with ⟨rfl, rfl⟩ | ⟨hne, hc⟩
    · exact if_pos rfl
    · have hlt := h.ids c call hc
      rw [if_neg (by omega)]
      exact h.heard c call hc ((hasks c hne).symm.trans ha) hn
  case quiet =>
    intro c hi
    by_cases hc : c = thread
    · rw [hc, hchannels]
      exact h.quiet thread hidle
    · exact h.quiet c ((hidles c hc).symm.trans hi)
  case single => exact h.single

variable {call : Admitted}

theorem matched_phase (h : Matched s) (hcall : s.call thread = some call)
    (htask : task.call = some call) (hasks : task.asks = true → s.asks thread = true) (emitted : List AskpassRequest) :
    Matched ({ s with emitted }.put thread task) := by
  have hsame : ∀ c, ({ s with emitted }.put thread task).call c = s.call c := by
    intro c
    rw [call_put]
    by_cases hc : c = thread
    · rw [if_pos hc, hc, htask, hcall]
    · rw [if_neg hc]
      rfl
  have hresolves : task.resolves = false := by
    cases task with
    | resolve peer request sweep => cases htask
    | _ => rfl
  constructor
  case ids => exact fun c call hc => h.ids c call (hsame c ▸ hc)
  case distinct => exact fun c c' call call' hc hc' => h.distinct c c' call call' (hsame c ▸ hc) (hsame c' ▸ hc')
  case waiters =>
    intro id waiter hw
    rw [hsame]
    exact h.waiters id waiter hw
  case heard =>
    intro c call' hc ha hn
    refine h.heard c call' (hsame c ▸ hc) ?_ hn
    rw [asks_put] at ha
    by_cases hcc : c = thread
    · rw [if_pos hcc] at ha
      exact hcc ▸ hasks ha
    · rw [if_neg hcc] at ha
      exact ha
  case quiet =>
    intro c hi
    rw [idle_put] at hi
    by_cases hcc : c = thread
    · rw [if_pos hcc, hresolves] at hi
      cases hi
    · rw [if_neg hcc] at hi
      exact h.quiet c hi
  case single => exact h.single

variable {id : Nat} {waiter : PendingWaiter}

theorem Matched.waiter_of_sender (h : Matched s) {id' : Nat} {waiter' : PendingWaiter}
    (hw : s.pending.waiters.get id = some waiter) (hw' : s.pending.waiters.get id' = some waiter')
    (hs : waiter.sender = waiter'.sender) : id = id' := by
  obtain ⟨call, hc, hid, -, -⟩ := h.waiters id waiter hw
  obtain ⟨call', hc', hid', -, -⟩ := h.waiters id' waiter' hw'
  rw [hs] at hc
  cases hc.symm.trans hc'
  exact hid.symm.trans hid'

theorem Matched.woken (h : Matched s) (gone : Nat → Bool) (message : Option String) (hp : t.pending.nextId = s.pending.nextId)
    (htasks : t.tasks = s.tasks)
    (hw : ∀ id, t.pending.waiters.get id = if gone id then none else s.pending.waiters.get id)
    (hchannels : ∀ c, (∃ id waiter, s.pending.waiters.get id = some waiter ∧ gone id = true ∧ waiter.sender = c ∧
      t.channels c = s.channels c ++ [message]) ∨
      (t.channels c = s.channels c ∧ ∀ id waiter, s.pending.waiters.get id = some waiter → waiter.sender = c → gone id = false)) :
    Matched t := by
  have hcall : ∀ c, t.call c = s.call c := fun c => by rw [State.call, State.call, htasks]
  have hasks : ∀ c, t.asks c = s.asks c := fun c => by rw [State.asks, State.asks, htasks]
  have hidle : ∀ c, t.idle c = s.idle c := fun c => by rw [State.idle, State.idle, htasks]
  have hget : ∀ id waiter, t.pending.waiters.get id = some waiter → gone id = false ∧ s.pending.waiters.get id = some waiter := by
    intro id waiter hg
    rw [hw] at hg
    cases hgone : gone id with
    | true =>
      rw [hgone] at hg
      cases hg
    | false =>
      rw [hgone] at hg
      exact ⟨rfl, hg⟩
  constructor
  case ids =>
    rw [hp]
    exact fun c call hc => h.ids c call (hcall c ▸ hc)
  case distinct => exact fun c c' call call' hc hc' => h.distinct c c' call call' (hcall c ▸ hc) (hcall c' ▸ hc')
  case waiters =>
    intro id waiter hg
    obtain ⟨hstays, hg⟩ := hget id waiter hg
    obtain ⟨call, hc, hid, hop, hnil⟩ := h.waiters id waiter hg
    refine ⟨call, (hcall _).trans hc, hid, hop, ?_⟩
    rcases hchannels waiter.sender with ⟨id', waiter', hg', hgone, hs, -⟩ | ⟨hsame, -⟩
    · obtain rfl := h.waiter_of_sender hg hg' hs.symm
      rw [hgone] at hstays
      cases hstays
    · exact hsame.trans hnil
  case heard =>
    intro c call hc ha hn
    rw [hcall] at hc
    rw [hasks] at ha
    rcases hchannels c with ⟨id, waiter, -, -, -, hmore⟩ | ⟨hsame, hstays⟩
    · rw [hmore] at hn
      exact absurd hn (by simp)
    · have hold := h.heard c call hc ha (hsame ▸ hn)
      rw [hw, hstays _ _ hold rfl]
      exact hold
  case quiet =>
    intro c hi
    rw [hidle] at hi
    rcases hchannels c with ⟨id, waiter, hg, -, hs, -⟩ | ⟨hsame, -⟩
    · obtain ⟨call, hc, -⟩ := h.waiters id waiter hg
      rw [hs] at hc
      obtain ⟨task, htask, htc⟩ := Option.bind_eq_some_iff.1 hc
      rw [State.idle, htask] at hi
      cases task with
      | resolve peer request sweep => cases htc
      | _ => cases hi
    · exact hsame.trans (h.quiet c hi)
  case single =>
    intro c
    rcases hchannels c with ⟨id, waiter, hg, -, hs, hmore⟩ | ⟨hsame, -⟩
    · obtain ⟨call, -, -, -, hnil⟩ := h.waiters id waiter hg
      rw [hs] at hnil
      rw [hmore, hnil]
      exact Nat.le_refl _
    · rw [hsame]
      exact h.single c

def State.waits (s : State) (operationId : String) (id : Nat) : Bool :=
  (s.pending.waiters.get id).any fun waiter => decide (waiter.operationId = operationId)

theorem get_clear (s : State) (operationId : String) (id : Nat) :
    (s.clear operationId).pending.waiters.get id = if s.waits operationId id then none else s.pending.waiters.get id := by
  have hget : (s.clear operationId).pending.waiters.get id =
      (s.pending.waiters.get id).filter fun waiter => !decide (waiter.operationId = operationId) := get_retain _ _ _
  rw [hget, State.waits]
  cases s.pending.waiters.get id with
  | none => rfl
  | some waiter => by_cases hop : waiter.operationId = operationId <;> simp [hop]

theorem get_ofOperation {operationId : String} : (s.ofOperation operationId).get id = some waiter ↔
      s.pending.waiters.get id = some waiter ∧ waiter.operationId = operationId := by
  rw [State.ofOperation, get_retain, Option.filter_eq_some_iff, decide_eq_true_eq]

theorem matched_clear (h : Matched s) (operationId : String) : Matched (s.clear operationId) := by
  refine h.woken (s.waits operationId) none rfl rfl (get_clear s operationId) fun c => ?_
  have hcount : ((s.ofOperation operationId).count fun _ waiter => decide (waiter.sender = c)) ≤ 1 := by
    refine count_le_one fun id waiter id' waiter' hg hs hg' hs' => ?_
    rw [decide_eq_true_eq] at hs hs'
    exact h.waiter_of_sender (get_ofOperation.1 hg).1 (get_ofOperation.1 hg').1 (hs.trans hs'.symm)
  have hlength := length_filter_values (s.ofOperation operationId) fun waiter => decide (waiter.sender = c)
  have hchannel : (s.clear operationId).channels c = s.channels c ++
      (((s.ofOperation operationId).values.filter fun waiter => decide (waiter.sender = c)).map fun _ => none) := rfl
  rw [hchannel]
  cases hfilter : (s.ofOperation operationId).values.filter fun waiter => decide (waiter.sender = c) with
  | nil =>
    refine .inr ⟨by simp, fun id waiter hg hs => ?_⟩
    cases hwaits : s.waits operationId id with
    | false => rfl
    | true =>
      rw [State.waits, hg] at hwaits
      have hop : waiter.operationId = operationId := by simpa using hwaits
      have hmem : waiter ∈ (s.ofOperation operationId).values :=
        List.mem_map.2 ⟨(id, waiter), get_eq_some.1 (get_ofOperation.2 ⟨hg, hop⟩), rfl⟩
      have hin : waiter ∈ (s.ofOperation operationId).values.filter fun waiter => decide (waiter.sender = c) :=
        List.mem_filter.2 ⟨hmem, decide_eq_true hs⟩
      rw [hfilter] at hin
      cases hin
  | cons waiter rest =>
    have hin : waiter ∈ (s.ofOperation operationId).values.filter fun waiter => decide (waiter.sender = c) := by
      rw [hfilter]
      exact List.mem_cons_self
    obtain ⟨hmem, hs⟩ := List.mem_filter.1 hin
    obtain ⟨⟨id, waiter'⟩, hentry, rfl⟩ := List.mem_map.1 hmem
    obtain ⟨hg, hop⟩ := get_ofOperation.1 (get_eq_some.2 hentry)
    rw [hfilter, List.length_cons] at hlength
    have hrest : rest = [] := List.eq_nil_of_length_eq_zero (by omega)
    refine .inl ⟨id, waiter', hg, ?_, of_decide_eq_true hs, by rw [hrest]; rfl⟩
    rw [State.waits, hg]
    simpa using hop

theorem respond_eq (hg : s.pending.waiters.get id = some waiter) (response : Option String) :
    s.respond id response = { s with pending := { s.pending with waiters := s.pending.waiters.erase id } }.send waiter.sender
      (if s.live waiter.operationId then response else none) := by
  simp only [State.respond, hg]

theorem matched_respond (h : Matched s) (id : Nat) (response : Option String) : Matched (s.respond id response) := by
  cases hg : s.pending.waiters.get id with
  | none => simpa only [State.respond, hg] using h
  | some waiter =>
    rw [respond_eq hg]
    refine h.woken (fun id' => decide (id' = id))
      (if s.live waiter.operationId then response else none)
      rfl rfl (fun id' => ?_) fun c => ?_
    · have hget : (s.pending.waiters.erase id).get id' = if id' = id then none else s.pending.waiters.get id' :=
        get_erase _ _ _
      refine Eq.trans hget ?_
      by_cases hid : id' = id
      · simp [hid]
      · simp [hid]
    · by_cases hc : c = waiter.sender
      · refine .inl ⟨id, waiter, hg, decide_eq_true rfl, hc.symm, ?_⟩
        simp [State.send, hc]
      · refine .inr ⟨by simp [State.send, hc], fun id' waiter' hg' hs => ?_⟩
        by_cases hid : id' = id
        · subst hid
          cases hg.symm.trans hg'
          exact absurd hs.symm hc
        · exact decide_eq_false hid

theorem matched_take (h : Matched s) (hcall : s.call thread = some call) (htask : task.call = none ∨ task.call = some call) (hasks : task.asks = false)
    (hresolves : task.resolves = false) (channels : List (Option String)) (hlen : channels.length ≤ 1)
    (hwaiter : ∀ id waiter, s.pending.waiters.get id = some waiter → waiter.sender = thread → task.call = some call ∧ channels = []) :
    Matched ({ s with channels := fun c => if c = thread then channels else s.channels c }.put thread task) := by
  have hback : ∀ c call', ({ s with channels := fun c => if c = thread then channels else s.channels c }.put thread task).call c =
      some call' → s.call c = some call' := by
    intro c call' hc
    rw [call_put] at hc
    by_cases hcc : c = thread
    · rw [if_pos hcc] at hc
      rcases htask with hnone | hsame
      · rw [hnone] at hc
        cases hc
      · rw [hcc, hcall, ← hsame, hc]
    · rw [if_neg hcc] at hc
      exact hc
  constructor
  case ids => exact fun c call' hc => h.ids c call' (hback c call' hc)
  case distinct => exact fun c c' _ _ hc hc' => h.distinct c c' _ _ (hback c _ hc) (hback c' _ hc')
  case waiters =>
    intro id waiter hw
    obtain ⟨call', hc, hid, hop, hnil⟩ := h.waiters id waiter hw
    by_cases hs : waiter.sender = thread
    · obtain ⟨hsame, hempty⟩ := hwaiter id waiter hw hs
      rw [hs, hcall] at hc
      cases hc
      exact ⟨call, by rw [call_put, if_pos hs, hsame], hid, hop, by simp [State.put, hs, hempty]⟩
    · refine ⟨call', ?_, hid, hop, by simpa [State.put, hs] using hnil⟩
      rw [call_put, if_neg hs]
      exact hc
  case heard =>
    intro c call' hc ha hn
    rw [asks_put] at ha
    by_cases hcc : c = thread
    · rw [if_pos hcc, hasks] at ha
      cases ha
    · rw [if_neg hcc] at ha
      exact h.heard c call' (hback c call' hc) ha (by simpa [State.put, hcc] using hn)
  case quiet =>
    intro c hi
    rw [idle_put] at hi
    by_cases hcc : c = thread
    · rw [if_pos hcc, hresolves] at hi
      cases hi
    · rw [if_neg hcc] at hi
      have hquiet := h.quiet c hi
      simpa [State.put, hcc] using hquiet
  case single =>
    intro c
    by_cases hcc : c = thread
    · simpa [State.put, hcc] using hlen
    · simpa [State.put, hcc] using h.single c

theorem matched_cancel (h : Matched s) (hcall : s.call thread = some call) (htask : task.call = none) (hresolves : task.resolves = false) :
    Matched ({ s with pending := { s.pending with waiters := s.pending.waiters.erase call.event.id } }.put thread task) := by
  have hback : ∀ c call', ({ s with pending := { s.pending with waiters := s.pending.waiters.erase call.event.id } }.put
      thread task).call c = some call' → c ≠ thread ∧ s.call c = some call' := by
    intro c call' hc
    rw [call_put] at hc
    by_cases hcc : c = thread
    · rw [if_pos hcc, htask] at hc
      cases hc
    · rw [if_neg hcc] at hc
      exact ⟨hcc, hc⟩
  have hget : ∀ id, (s.pending.waiters.erase call.event.id).get id =
      if id = call.event.id then none else s.pending.waiters.get id := fun id => get_erase _ _ _
  constructor
  case ids => exact fun c call' hc => h.ids c call' (hback c call' hc).2
  case distinct => exact fun c c' _ _ hc hc' => h.distinct c c' _ _ (hback c _ hc).2 (hback c' _ hc').2
  case waiters =>
    intro id waiter hw
    have hw' := (hget id).symm.trans hw
    split at hw'
    · cases hw'
    · rename_i hid
      obtain ⟨call', hc, hid', hop, hnil⟩ := h.waiters id waiter hw'
      have hs : waiter.sender ≠ thread := by
        intro hs
        rw [hs, hcall] at hc
        cases hc
        exact hid hid'.symm
      refine ⟨call', ?_, hid', hop, hnil⟩
      rw [call_put, if_neg hs]
      exact hc
  case heard =>
    intro c call' hc ha hn
    obtain ⟨hcc, hc⟩ := hback c call' hc
    rw [asks_put, if_neg hcc] at ha
    have hne : ¬call'.event.id = call.event.id := fun hid => hcc (h.distinct c thread call' call hc hcall hid)
    have hold := h.heard c call' hc ha hn
    exact (hget _).trans ((if_neg hne).trans hold)
  case quiet =>
    intro c hi
    rw [idle_put] at hi
    by_cases hcc : c = thread
    · rw [if_pos hcc, hresolves] at hi
      cases hi
    · rw [if_neg hcc] at hi
      exact h.quiet c hi
  case single => exact h.single

/-! ## Steps -/

def Task.swept (task : Task) (sweep : Sweep) : Task :=
  match task with
  | .beginOperation context ttl _ => .beginOperation context ttl sweep
  | .revoke _ => .revoke sweep
  | .resolve peer request _ => .resolve peer request sweep
  | task => task

section Step
variable (parseRequest : String → Option ClientRequest) (ours : Nat)

/-- What each action is, where it can be made. -/
inductive Step (s : State) : Action → State → Prop
  | pass (duration : Nat) : Step s (.pass duration) { s with now := s.now + duration }
  | beginOperation {thread : Nat} (context : AskpassOperationContext) (ttl : Nat) (hnew : s.tasks.contains thread = false) :
      Step s (.beginOperation thread context ttl) (s.put thread (.beginOperation context ttl s.expired))
  | opened {thread : Nat} {context : AskpassOperationContext} {ttl : Nat} {operationId token : String}
      (hg : s.tasks.get thread = some (.beginOperation context ttl ⟨[], none⟩)) (hop : operationId ∉ s.drawn) :
      Step s (.open thread operationId token) ({ s with
        operations := s.operations.insert operationId ⟨token, context, s.now + ttl, none⟩
        guards := operationId :: s.guards
        drawn := operationId :: token :: s.drawn }.put thread .ended)
  | bindRootPid (operationId : String) (pid : Nat) : Step s (.bindRootPid operationId pid) (s.bindRootPid operationId pid)
  | drop {thread : Nat} {operationId : String} (hg : operationId ∈ s.guards) (hnew : s.tasks.contains thread = false) :
      Step s (.drop thread operationId)
        ({ s with guards := s.guards.erase operationId }.put thread (.revoke ⟨[operationId], none⟩))
  | remove {thread : Nat} {task : Task} {operationId : String} {todo : List String} (hg : s.tasks.get thread = some task)
      (hs : task.sweep = some ⟨operationId :: todo, none⟩) : Step s (.sweep thread)
        ({ s with operations := s.operations.erase operationId }.put thread (task.swept ⟨todo, some operationId⟩))
  | clear {thread : Nat} {task : Task} {operationId : String} {todo : List String} (hg : s.tasks.get thread = some task)
      (hs : task.sweep = some ⟨todo, some operationId⟩) :
      Step s (.sweep thread) ((s.clear operationId).put thread (task.swept ⟨todo, none⟩))
  | returns {thread : Nat} (hg : s.tasks.get thread = some (.revoke ⟨[], none⟩)) : Step s (.returns thread) (s.put thread .ended)
  | rejected {thread : Nat} (peer : PeerIdentity) (line : Option String) (hnew : s.tasks.contains thread = false) :
      Step s (.connect thread peer line) (s.put thread (.answered ""))
  | connect {thread : Nat} {peer : PeerIdentity} {line : String} {request : ClientRequest}
      (hnew : s.tasks.contains thread = false) (hp : parseRequest line = some request) :
      Step s (.connect thread peer (some line)) (s.put thread (.resolve peer request s.expired))
  | refused {thread : Nat} {peer : PeerIdentity} {request : ClientRequest} (parentPid : Parents)
      (hg : s.tasks.get thread = some (.resolve peer request ⟨[], none⟩)) :
      Step s (.admitted thread parentPid) (s.put thread (.answered ""))
  | admitted {thread : Nat} {peer : PeerIdentity} {request : ClientRequest} {parentPid : Parents} {record : OperationRecord}
      (hg : s.tasks.get thread = some (.resolve peer request ⟨[], none⟩))
      (hr : s.admits ours parentPid peer request = some record) :
      Step s (.admitted thread parentPid) (s.register thread peer request record)
  | emit {thread : Nat} {call : Admitted} (hg : s.tasks.get thread = some (.admitted call)) :
      Step s (.emit thread) ({ s with emitted := s.emitted ++ [call.event] }.put thread (.waiting call))
  | receive {thread : Nat} {call : Admitted} {secret : String} {rest : List (Option String)}
      (hg : s.tasks.get thread = some (.waiting call)) (hc : s.channels thread = some secret :: rest) :
      Step s (.receive thread)
        ({ s with channels := fun c => if c = thread then rest else s.channels c }.put thread (.answered secret))
  | woken {thread : Nat} {call : Admitted} {rest : List (Option String)}
      (hg : s.tasks.get thread = some (.waiting call)) (hc : s.channels thread = none :: rest) :
      Step s (.receive thread)
        ({ s with channels := fun c => if c = thread then rest else s.channels c }.put thread (.cancelling call))
  | timeout {thread : Nat} {call : Admitted} (hg : s.tasks.get thread = some (.waiting call)) (hc : s.channels thread = []) :
      Step s (.timeout thread) (s.put thread (.cancelling call))
  | cancel {thread : Nat} {call : Admitted} (hg : s.tasks.get thread = some (.cancelling call)) :
      Step s (.cancel thread)
        ({ s with pending := { s.pending with waiters := s.pending.waiters.erase call.event.id } }.put thread (.answered ""))
  | respond (id : Nat) (response : Option String) : Step s (.respond id response) (s.respond id response)

variable {parseRequest ours}

theorem sweep_cases {sweep : Sweep} (hg : s.tasks.get thread = some task)
    (hs : task.sweep = some sweep) (ht : (s.sweepStep sweep).map (fun x => x.1.put thread (task.swept x.2)) = some t) :
    Step parseRequest ours s (.sweep thread) t := by
  obtain ⟨todo, clearing⟩ := sweep
  cases clearing with
  | some operationId =>
    cases ht
    exact .clear hg hs
  | none =>
    cases todo with
    | nil => cases ht
    | cons operationId todo =>
      cases ht
      exact .remove hg hs

theorem step_of_next {a : Action} (hn : next parseRequest ours s a = some t) : Step parseRequest ours s a t := by
  cases a with
  | pass duration =>
    cases hn
    exact .pass duration
  | beginOperation thread context ttl =>
    simp only [next] at hn
    split at hn
    · cases hn
    · rename_i hnew
      cases hn
      exact .beginOperation context ttl (Bool.eq_false_iff.2 hnew)
  | «open» thread operationId token =>
    simp only [next] at hn
    split at hn
    · rename_i hg
      split at hn
      · cases hn
      · rename_i hdrawn
        cases hn
        exact .opened hg fun hop => hdrawn (.inl hop)
    · cases hn
  | bindRootPid operationId pid =>
    simp only [next] at hn
    split at hn
    · cases hn
      exact .bindRootPid operationId pid
    · cases hn
  | drop thread operationId =>
    simp only [next] at hn
    split at hn
    · rename_i hg
      cases hn
      exact .drop hg.1 hg.2
    · cases hn
  | sweep thread =>
    simp only [next] at hn
    split at hn
    · rename_i hg
      exact sweep_cases hg rfl hn
    · rename_i hg
      exact sweep_cases hg rfl hn
    · rename_i hg
      exact sweep_cases hg rfl hn
    · cases hn
  | returns thread =>
    simp only [next] at hn
    split at hn
    · rename_i hg
      cases hn
      exact .returns hg
    · cases hn
  | connect thread peer line =>
    simp only [next] at hn
    split at hn
    · cases hn
    · rename_i hnew
      have hnew := Bool.eq_false_iff.2 hnew
      split at hn
      · cases hn
        exact .rejected peer line hnew
      · rename_i request hp
        obtain ⟨text, rfl, hp⟩ := Option.bind_eq_some_iff.1 hp
        split at hn
        · cases hn
          exact .rejected peer _ hnew
        · cases hn
          exact .connect hnew hp
  | admitted thread parentPid =>
    simp only [next] at hn
    split at hn
    · rename_i hg
      split at hn
      · cases hn
        exact .refused parentPid hg
      · rename_i record hr
        split at hn
        · cases hn
          exact .admitted hg hr
        · cases hn
    · cases hn
  | emit thread =>
    simp only [next] at hn
    split at hn
    · rename_i hg
      cases hn
      exact .emit hg
    · cases hn
  | receive thread =>
    simp only [next] at hn
    split at hn
    · rename_i call message rest hg hc
      split at hn
      · cases hn
        exact .receive hg hc
      · cases hn
        exact .woken hg hc
    · cases hn
  | timeout thread =>
    simp only [next] at hn
    split at hn
    · rename_i hg hc
      cases hn
      exact .timeout hg hc
    · cases hn
  | cancel thread =>
    simp only [next] at hn
    split at hn
    · rename_i hg
      cases hn
      exact .cancel hg
    · cases hn
  | respond id response =>
    cases hn
    exact .respond id response

end Step

end Askpass
end Yuzora
