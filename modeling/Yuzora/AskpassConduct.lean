import Yuzora.AskpassSound
/-!
# AskpassConduct — whose secret a client gets

Every step keeps who waits for what; so what a connection receives was answered to its own request, while the operation
that it named was live (`askpass_conduct`).
-/
namespace Yuzora
namespace Askpass

open List Table

variable {s t base : State} {parseRequest : String → Option ClientRequest} {ours : Nat}

/-! ## Steps of sweeps -/

variable {task : Task} {sweep : Sweep}

theorem call_of_sweep (h : task.sweep = some sweep) : task.call = none ∧ task.asks = false := by
  cases task with
  | admitted | waiting | cancelling => cases h
  | _ => exact ⟨rfl, rfl⟩

theorem call_swept (h : task.sweep = some sweep) (rest : Sweep) :
    (task.swept rest).call = none ∧ (task.swept rest).asks = false ∧ (task.swept rest).resolves = task.resolves ∧
      (task.swept rest).sweep = some rest := by
  cases task with
  | beginOperation | revoke | resolve => exact ⟨rfl, rfl, rfl, rfl⟩
  | _ => cases h

variable {thread : Nat}

theorem beside_task (hp : base.pending = s.pending) (hch : base.channels = s.channels)
    (he : base.emitted = s.emitted) (ht : base.tasks = s.tasks) (hold : s.call thread = none) (hasks : s.asks thread = false)
    (hcall : task.call = none) (hasks' : task.asks = false) (hidle : task.resolves = true → s.idle thread = true) :
    Beside s (base.put thread task) := by
  have hcalls : ∀ c, base.call c = s.call c := fun c => by rw [State.call, State.call, ht]
  have hallasks : ∀ c, base.asks c = s.asks c := fun c => by rw [State.asks, State.asks, ht]
  have hidles : ∀ c, base.idle c = s.idle c := fun c => by rw [State.idle, State.idle, ht]
  have hput : Beside base (base.put thread task) := by
    refine beside_put ((hcalls _).trans hold) ((hallasks _).trans hasks) hcall hasks' fun hr => ?_
    exact (hidles _).trans (hidle hr)
  exact ⟨hp, hch, he, fun c => (hput.call c).trans (hcalls c), fun c => (hput.asks c).trans (hallasks c),
    fun c hi => (hidles c).symm.trans (hput.idle c hi)⟩

variable {c : Nat}

theorem asks_of_get (h : s.tasks.get c = some task) : s.asks c = task.asks := by
  rw [State.asks, h]
  rfl

theorem idle_of_get (h : s.tasks.get c = some task) : s.idle c = task.resolves := by
  rw [State.idle, h]
  rfl

theorem asks_of_none (h : s.tasks.contains c = false) : s.asks c = false := by
  rw [contains_eq_false] at h
  rw [State.asks, h]
  rfl

theorem bindRootPid_fields (s : State) (operationId : String) (pid : Nat) :
    (s.bindRootPid operationId pid).pending = s.pending ∧ (s.bindRootPid operationId pid).channels = s.channels ∧
      (s.bindRootPid operationId pid).emitted = s.emitted ∧ (s.bindRootPid operationId pid).tasks = s.tasks ∧
      (s.bindRootPid operationId pid).drawn = s.drawn ∧ (s.bindRootPid operationId pid).guards = s.guards ∧
      (s.bindRootPid operationId pid).now = s.now := by
  unfold State.bindRootPid
  split
  · exact ⟨rfl, rfl, rfl, rfl, rfl, rfl, rfl⟩
  · split
    · exact ⟨rfl, rfl, rfl, rfl, rfl, rfl, rfl⟩
    · exact ⟨rfl, rfl, rfl, rfl, rfl, rfl, rfl⟩

variable {a : Action}

theorem matched_step (h : Matched s) (hst : Step parseRequest ours s a t) : Matched t := by
  cases hst with
  | pass duration => exact h.beside ⟨rfl, rfl, rfl, fun _ => rfl, fun _ => rfl, fun _ hi => hi⟩
  | beginOperation _ _ hnew | drop _ hnew | rejected _ _ hnew =>
    obtain ⟨hidle, hcall⟩ := idle_of_none hnew
    exact h.beside (beside_task rfl rfl rfl rfl hcall (asks_of_none hnew) rfl rfl fun hr => by cases hr)
  | opened hg | returns hg | refused _ hg =>
    exact h.beside (beside_task rfl rfl rfl rfl (call_of_get hg) (asks_of_get hg) rfl rfl fun hr => by cases hr)
  | bindRootPid operationId pid =>
    obtain ⟨hp, hch, he, ht, -⟩ := bindRootPid_fields s operationId pid
    refine h.beside ⟨hp, hch, he, fun c => ?_, fun c => ?_, fun c hi => ?_⟩
    · rw [State.call, State.call, ht]
    · rw [State.asks, State.asks, ht]
    · rwa [State.idle, ht] at hi
  | remove hg hs =>
    obtain ⟨hcall, hasks⟩ := call_of_sweep hs
    obtain ⟨hcall', hasks', hresolves, -⟩ := call_swept hs ⟨_, some _⟩
    refine h.beside (beside_task rfl rfl rfl rfl ((call_of_get hg).trans hcall) ((asks_of_get hg).trans hasks) hcall' hasks'
      fun hr => ?_)
    rw [idle_of_get hg, ← hresolves]
    exact hr
  | @clear thread task operationId todo hg hs =>
    obtain ⟨hcall, hasks⟩ := call_of_sweep hs
    obtain ⟨hcall', hasks', hresolves, -⟩ := call_swept hs ⟨todo, none⟩
    have hg' : (s.clear operationId).tasks.get thread = some task := hg
    refine (matched_clear h operationId).beside (beside_task rfl rfl rfl rfl ((call_of_get hg').trans hcall)
      ((asks_of_get hg').trans hasks) hcall' hasks' fun hr => ?_)
    rw [idle_of_get hg', ← hresolves]
    exact hr
  | connect hnew hp =>
    obtain ⟨hidle, hcall⟩ := idle_of_none hnew
    exact h.beside (beside_task rfl rfl rfl rfl hcall (asks_of_none hnew) rfl rfl fun _ => hidle)
  | admitted hg hr => exact matched_register h (idle_of_get hg) (call_of_get hg)
  | emit hg => exact matched_phase h (call_of_get hg) rfl (fun _ => asks_of_get hg) _
  | @receive thread call secret rest hg hc =>
    have hlen := h.single thread
    rw [hc, length_cons] at hlen
    refine matched_take h (call_of_get hg) (.inl rfl) rfl rfl rest (by omega) fun id waiter hw hs => ?_
    obtain ⟨-, -, -, -, hnil⟩ := h.waiters id waiter hw
    rw [hs, hc] at hnil
    cases hnil
  | @woken thread call rest hg hc =>
    have hlen := h.single thread
    rw [hc, length_cons] at hlen
    refine matched_take h (call_of_get hg) (.inr rfl) rfl rfl rest (by omega) fun id waiter hw hs => ?_
    obtain ⟨-, -, -, -, hnil⟩ := h.waiters id waiter hw
    rw [hs, hc] at hnil
    cases hnil
  | timeout hg hc => exact matched_phase h (call_of_get hg) rfl (fun ha => by cases ha) s.emitted
  | cancel hg => exact matched_cancel h (call_of_get hg) rfl rfl
  | respond id response => exact matched_respond h id response

/-! ## Operations -/

/-- What is under way is of operations that were opened, and a removed one stays removed. -/
structure Opened (s : State) : Prop where
  records : ∀ operationId record, s.operations.get operationId = some record → operationId ∈ s.drawn
  guards : ∀ operationId ∈ s.guards, operationId ∈ s.drawn
  sweeps : ∀ thread task sweep, s.tasks.get thread = some task → task.sweep = some sweep →
    (∀ operationId ∈ sweep.todo, operationId ∈ s.drawn) ∧
      ∀ operationId, sweep.clearing = some operationId → operationId ∈ s.drawn ∧ s.operations.get operationId = none
  calls : ∀ c call, s.call c = some call → call.request.operationId ∈ s.drawn ∧
    ∀ record, s.operations.get call.request.operationId = some record →
      record.token = call.request.token ∧ call.event = record.context.request call.event.id call.request.prompt

theorem opened_new (now : Nat) : Opened (.new now) where
  records operationId record h := by cases h
  guards operationId h := by cases h
  sweeps thread task sweep h := by cases h
  calls c call h := by cases h

/-- No operation is opened, and none is replaced. -/
structure Closing (s t : State) : Prop where
  drawn : t.drawn = s.drawn
  operations : ∀ operationId record', t.operations.get operationId = some record' →
    ∃ record, s.operations.get operationId = some record ∧ record'.token = record.token ∧ record'.context = record.context

variable {operationId : String} {parentPid : Parents} {peer : PeerIdentity} {call : Admitted}

theorem Closing.none (h : Closing s t) (hn : s.operations.get operationId = none) :
    t.operations.get operationId = none := by
  cases hg : t.operations.get operationId with
  | none => rfl
  | some record' =>
    obtain ⟨record, hrecord, -⟩ := h.operations operationId record' hg
    rw [hn] at hrecord
    cases hrecord

theorem closing_same (hd : t.drawn = s.drawn) (ho : t.operations = s.operations) : Closing s t :=
  ⟨hd, fun operationId record' hg => ⟨record', ho ▸ hg, rfl, rfl⟩⟩

theorem closing_bindRootPid (s : State) (operationId : String) (pid : Nat) : Closing s (s.bindRootPid operationId pid) := by
  refine ⟨(bindRootPid_fields s operationId pid).2.2.2.2.1, fun k record' hg => ?_⟩
  unfold State.bindRootPid at hg
  split at hg
  · exact ⟨record', hg, rfl, rfl⟩
  · rename_i record hrecord
    split at hg
    · simp only [get_insert s.operations] at hg
      split at hg
      · rename_i hk
        cases hg
        exact ⟨record, hk ▸ hrecord, rfl, rfl⟩
      · exact ⟨record', hg, rfl, rfl⟩
    · exact ⟨record', hg, rfl, rfl⟩

theorem closing_erase (s : State) (operationId : String) :
    Closing s { s with operations := s.operations.erase operationId } := by
  refine ⟨rfl, fun k record' hg => ?_⟩
  simp only [get_erase] at hg
  split at hg
  · cases hg
  · exact ⟨record', hg, rfl, rfl⟩

/-- Where no operation is opened: the guards are fewer, and a new sweep or a new call is of what was opened. -/
theorem Opened.closing (h : Opened s) (hc : Closing s t) (hg : ∀ operationId ∈ t.guards, operationId ∈ s.guards)
    (hs : ∀ thread task sweep, t.tasks.get thread = some task → task.sweep = some sweep →
      (∃ old, s.tasks.get thread = some old ∧ old.sweep = some sweep) ∨
        ((∀ operationId ∈ sweep.todo, operationId ∈ s.drawn) ∧
          ∀ operationId, sweep.clearing = some operationId → operationId ∈ s.drawn ∧ t.operations.get operationId = none))
    (hcalls : ∀ c call, t.call c = some call → s.call c = some call ∨ (∃ record, s.operations.get call.request.operationId = some record ∧
      record.token = call.request.token ∧ call.event = record.context.request call.event.id call.request.prompt)) : Opened t := by
  constructor
  case records =>
    intro operationId record' hr
    obtain ⟨record, hrecord, -⟩ := hc.operations operationId record' hr
    rw [hc.drawn]
    exact h.records operationId record hrecord
  case guards =>
    intro operationId hm
    rw [hc.drawn]
    exact h.guards operationId (hg operationId hm)
  case sweeps =>
    intro thread task sweep ht hsweep
    rw [hc.drawn]
    rcases hs thread task sweep ht hsweep with ⟨old, hold, holds⟩ | hnew
    · obtain ⟨htodo, hclearing⟩ := h.sweeps thread old sweep hold holds
      exact ⟨htodo, fun operationId hcl => ⟨(hclearing operationId hcl).1, hc.none (hclearing operationId hcl).2⟩⟩
    · exact hnew
  case calls =>
    intro c call hcall
    rw [hc.drawn]
    rcases hcalls c call hcall with hold | ⟨record, hrecord, htoken, hevent⟩
    · obtain ⟨hdrawn, hsame⟩ := h.calls c call hold
      refine ⟨hdrawn, fun record' hr => ?_⟩
      obtain ⟨record, hrecord, htoken, hcontext⟩ := hc.operations _ record' hr
      rw [htoken, hcontext]
      exact hsame record hrecord
    · refine ⟨h.records _ record hrecord, fun record' hr => ?_⟩
      obtain ⟨record₂, hrecord₂, htoken₂, hcontext₂⟩ := hc.operations _ record' hr
      cases hrecord.symm.trans hrecord₂
      rw [htoken₂, hcontext₂]
      exact ⟨htoken, hevent⟩

/-- A process and an ancestor of it, as the parents were read. -/
inductive Descends (parentPid : Parents) : Nat → Nat → Nat → Prop
  | self (n pid : Nat) : Descends parentPid n pid pid
  | child {n pid parent ancestor : Nat} : parentPid n pid = some parent → Descends parentPid (n + 1) parent ancestor →
    Descends parentPid n pid ancestor

theorem descends_of_ancestry {ancestor : Nat} : ∀ {left n current : Nat},
    ancestry parentPid ancestor left n current = true → Descends parentPid n current ancestor
  | 0, _, _, h => by cases h
  | left + 1, n, current, h => by
    rw [ancestry] at h
    split at h
    · rename_i heq
      subst heq
      exact .self n current
    · split at h
      · rename_i parent hparent
        split at h
        · exact .child hparent (descends_of_ancestry h)
        · cases h
      · cases h

/-- The peer of an operation: the application's user, and the root process or a descendant of it. -/
structure Trusted (ours : Nat) (parentPid : Parents) (peer : PeerIdentity) (root : Nat) : Prop where
  uid : ∀ uid, peer.uid = some uid → uid = ours
  pid : ∀ pid, peer.pid = some pid → Descends parentPid 0 pid root

theorem trusted_of_peerAllowed {rootPid : Option Nat}
    (h : peerAllowed ours parentPid peer rootPid = true) : ∃ root, rootPid = some root ∧ Trusted ours parentPid peer root := by
  unfold peerAllowed at h
  split at h
  · cases h
  · rename_i huid
    have hours : ∀ uid, peer.uid = some uid → uid = ours := by
      intro uid hu
      by_cases heq : uid = ours
      · exact heq
      · exact absurd (by simp [hu, heq]) huid
    split at h
    · rename_i root pid hpid
      refine ⟨root, rfl, hours, fun pid' hp => ?_⟩
      cases hpid.symm.trans hp
      exact descends_of_ancestry h
    · cases h
    · rename_i root hpid
      refine ⟨root, rfl, hours, fun pid hp => ?_⟩
      rw [hpid] at hp
      cases hp

theorem admits_eq_some {request : ClientRequest} {record : OperationRecord}
    (h : s.admits ours parentPid peer request = some record) : s.operations.get request.operationId = some record ∧
      record.token = request.token ∧ s.now < record.expires ∧ record.context.background = false ∧
      ∃ root, record.rootPid = some root ∧ Trusted ours parentPid peer root := by
  obtain ⟨hg, hall⟩ := Option.filter_eq_some_iff.1 h
  simp only [Bool.and_eq_true, Bool.not_eq_true', Bool.or_eq_false_iff, decide_eq_false_iff_not, not_not,
    Bool.not_eq_false', OperationRecord.isLive, decide_eq_true_eq] at hall
  obtain ⟨⟨⟨htoken, hlive⟩, hpeer⟩, hbackground⟩ := hall
  exact ⟨hg, htoken, hlive, hbackground, trusted_of_peerAllowed hpeer⟩

theorem get_task (ht : base.tasks = s.tasks) {task' : Task}
    (h : (base.put thread task).tasks.get c = some task') : (c = thread ∧ task' = task) ∨ s.tasks.get c = some task' := by
  rw [get_put, ht] at h
  split at h
  · rename_i hc
    exact .inl ⟨hc, (Option.some.inj h).symm⟩
  · exact .inr h

theorem call_task (ht : base.tasks = s.tasks)
    (h : (base.put thread task).call c = some call) : (c = thread ∧ task.call = some call) ∨ s.call c = some call := by
  obtain ⟨task', htask, hcall⟩ := Option.bind_eq_some_iff.1 h
  rcases get_task ht htask with ⟨hc, rfl⟩ | hold
  · exact .inl ⟨hc, hcall⟩
  · exact .inr ((call_of_get hold).trans hcall)

theorem Opened.turns (h : Opened s) (ht : base.tasks = s.tasks) (hc : Closing s base)
    (hg : ∀ operationId ∈ base.guards, operationId ∈ s.guards)
    (hs : ∀ sweep, task.sweep = some sweep → (∀ operationId ∈ sweep.todo, operationId ∈ s.drawn) ∧
      ∀ operationId, sweep.clearing = some operationId → operationId ∈ s.drawn ∧ base.operations.get operationId = none)
    (hcall : ∀ call, task.call = some call → s.call thread = some call) : Opened (base.put thread task) := by
  refine h.closing ⟨hc.drawn, hc.operations⟩ hg (fun c task' sweep hget hsweep => ?_) fun c call hget => ?_
  · rcases get_task ht hget with ⟨-, rfl⟩ | hold
    · exact .inr (hs sweep hsweep)
    · exact .inl ⟨task', hold, hsweep⟩
  · rcases call_task ht hget with ⟨rfl, hnew⟩ | hold
    · exact .inl (hcall call hnew)
    · exact .inl hold

theorem expired_drawn (h : Opened s) : (∀ operationId ∈ s.expired.todo, operationId ∈ s.drawn) ∧
    ∀ operationId, s.expired.clearing = some operationId → operationId ∈ s.drawn ∧ s.operations.get operationId = none := by
  constructor
  · intro operationId hm
    obtain ⟨record, hg⟩ := mem_keys.1 hm
    rw [get_retain, Option.filter_eq_some_iff] at hg
    exact h.records operationId record hg.1
  · intro operationId hcl
    cases hcl

theorem opened_opened (h : Opened s) {thread : Nat} {context : AskpassOperationContext} {ttl : Nat} {token : String}
    (hop : operationId ∉ s.drawn) : Opened ({ s with
      operations := s.operations.insert operationId ⟨token, context, s.now + ttl, none⟩
      guards := operationId :: s.guards
      drawn := operationId :: token :: s.drawn }.put thread .ended) := by
  have hdrawn : ∀ {k : String}, k ∈ s.drawn → k ∈ operationId :: token :: s.drawn := fun hk => by simp [hk]
  have hget : ∀ {k : String}, k ∈ s.drawn →
      (s.operations.insert operationId ⟨token, context, s.now + ttl, none⟩).get k = s.operations.get k := by
    intro k hk
    have hne : k ≠ operationId := fun heq => hop (heq ▸ hk)
    rw [get_insert s.operations, if_neg hne]
  constructor
  case records =>
    intro k record hr
    have hr' : (s.operations.insert operationId ⟨token, context, s.now + ttl, none⟩).get k = some record := hr
    rw [get_insert s.operations] at hr'
    split at hr'
    · rename_i hk
      rw [hk]
      exact mem_cons_self
    · exact hdrawn (h.records k record hr')
  case guards =>
    intro k hk
    rcases mem_cons.1 hk with rfl | hk
    · exact mem_cons_self
    · exact hdrawn (h.guards k hk)
  case sweeps =>
    intro c task sweep hg hs
    rcases get_task rfl hg with ⟨-, rfl⟩ | hold
    · cases hs
    · obtain ⟨htodo, hclearing⟩ := h.sweeps c task sweep hold hs
      refine ⟨fun k hk => hdrawn (htodo k hk), fun k hk => ?_⟩
      obtain ⟨hmem, hnone⟩ := hclearing k hk
      exact ⟨hdrawn hmem, (hget hmem).trans hnone⟩
  case calls =>
    intro c call hg
    rcases call_task rfl hg with ⟨-, hnew⟩ | hold
    · cases hnew
    · obtain ⟨hmem, hsame⟩ := h.calls c call hold
      exact ⟨hdrawn hmem, fun record hr => hsame record ((hget hmem).symm.trans hr)⟩

theorem closing_respond (s : State) (id : Nat) (response : Option String) : Closing s (s.respond id response) ∧
    (s.respond id response).tasks = s.tasks ∧ (s.respond id response).guards = s.guards := by
  unfold State.respond
  split
  · exact ⟨closing_same rfl rfl, rfl, rfl⟩
  · exact ⟨closing_same rfl rfl, rfl, rfl⟩

theorem Opened.same (h : Opened s) (hc : Closing s t) (ht : t.tasks = s.tasks) (hg : t.guards = s.guards) : Opened t := by
  refine h.closing hc (fun k hk => hg ▸ hk) (fun c task sweep hget hs => .inl ⟨task, ht ▸ hget, hs⟩) fun c call hget => .inl ?_
  rwa [State.call, ht] at hget

theorem opened_step (h : Opened s) (hst : Step parseRequest ours s a t) : Opened t := by
  cases hst with
  | pass duration => exact h.same (closing_same rfl rfl) rfl rfl
  | beginOperation | connect =>
    refine h.turns rfl (closing_same rfl rfl) (fun _ hk => hk) (fun sweep hs => ?_) (fun _ hn => by cases hn)
    cases hs
    exact expired_drawn h
  | opened hg hop => exact opened_opened h hop
  | bindRootPid operationId pid =>
    obtain ⟨-, -, -, ht, -, hg, -⟩ := bindRootPid_fields s operationId pid
    exact h.same (closing_bindRootPid s operationId pid) ht hg
  | drop hg hnew =>
    refine h.turns rfl (closing_same rfl rfl) (fun _ hk => mem_of_mem_erase hk) (fun sweep hs => ?_)
      nofun
    cases hs
    refine ⟨fun k hk => ?_, by simp⟩
    rw [mem_singleton.1 hk]
    exact h.guards _ hg
  | @remove thread task operationId todo hg hs =>
    obtain ⟨hcall', -, -, hsweep⟩ := call_swept hs ⟨todo, some operationId⟩
    obtain ⟨htodo, -⟩ := h.sweeps thread task _ hg hs
    refine h.turns rfl (closing_erase s operationId) (fun _ hk => hk) (fun sweep hnew => ?_) fun call hcall => ?_
    · cases hsweep.symm.trans hnew
      refine ⟨fun k hk => htodo k (mem_cons_of_mem _ hk), fun k hk => ?_⟩
      cases hk
      exact ⟨htodo _ mem_cons_self, get_erase_self _ _⟩
    · rw [hcall'] at hcall
      cases hcall
  | @clear thread task operationId todo hg hs =>
    obtain ⟨hcall', -, -, hsweep⟩ := call_swept hs ⟨todo, none⟩
    obtain ⟨htodo, -⟩ := h.sweeps thread task _ hg hs
    refine h.turns rfl (closing_same rfl rfl) (fun _ hk => hk) (fun sweep hnew => ?_) fun call hcall => ?_
    · cases hsweep.symm.trans hnew
      exact ⟨htodo, by simp⟩
    · rw [hcall'] at hcall
      cases hcall
  | returns | rejected | refused | receive | cancel =>
    exact h.turns rfl (closing_same rfl rfl) (fun _ hk => hk) (fun _ hn => by cases hn) fun call hcall => by cases hcall
  | @admitted thread peer request parentPid record hg hr =>
    obtain ⟨hrecord, htoken, -⟩ := admits_eq_some hr
    refine h.closing (closing_same rfl rfl) (fun _ hk => hk) (fun c task sweep hget hs => ?_) fun c call hget => ?_
    · rcases get_task rfl hget with ⟨-, rfl⟩ | hold
      · cases hs
      · exact .inl ⟨task, hold, hs⟩
    · rcases call_task rfl hget with ⟨-, hnew⟩ | hold
      · cases hnew
        exact .inr ⟨record, hrecord, htoken, rfl⟩
      · exact .inl hold
  | emit hg | woken hg | timeout hg =>
    exact h.turns rfl (closing_same rfl rfl) (fun _ hk => hk) (fun _ hn => by cases hn) fun call hcall =>
      (call_of_get hg).trans hcall
  | respond id response =>
    obtain ⟨hc, ht, hg⟩ := closing_respond s id response
    exact h.same hc ht hg

/-! ## Requests -/

/-- Each request is emitted once. -/
structure Asked (s : State) : Prop where
  nodup : (s.emitted.map AskpassRequest.id).Nodup
  below : ∀ e ∈ s.emitted, e.id < s.pending.nextId
  fresh : ∀ c call, s.tasks.get c = some (.admitted call) → ∀ e ∈ s.emitted, e.id ≠ call.event.id

theorem asked_new (now : Nat) : Asked (.new now) where
  nodup := nodup_nil
  below e he := by cases he
  fresh c call h := by cases h

theorem Asked.same (h : Asked s) (he : t.emitted = s.emitted) (hp : t.pending.nextId = s.pending.nextId)
    (ht : ∀ c call, t.tasks.get c = some (.admitted call) → s.tasks.get c = some (.admitted call)) : Asked t := by
  constructor
  case nodup =>
    rw [he]
    exact h.nodup
  case below =>
    rw [he, hp]
    exact h.below
  case fresh =>
    rw [he]
    exact fun c call hg => h.fresh c call (ht c call hg)

theorem admitted_task (ht : base.tasks = s.tasks) (hnew : ∀ call, task ≠ .admitted call) (c : Nat)
    (call : Admitted) (h : (base.put thread task).tasks.get c = some (.admitted call)) :
    s.tasks.get c = some (.admitted call) := by
  rcases get_task ht h with ⟨-, heq⟩ | hold
  · exact absurd heq.symm (hnew call)
  · exact hold

theorem asked_step (h : Asked s) (hm : Matched s) (hst : Step parseRequest ours s a t) : Asked t := by
  cases hst with
  | pass duration => exact h.same rfl rfl fun _ _ hg => hg
  | bindRootPid operationId pid =>
    obtain ⟨hp, -, he, ht, -⟩ := bindRootPid_fields s operationId pid
    exact h.same he (by rw [hp]) fun c call hg => by rwa [ht] at hg
  | @remove thread task operationId todo hg hs =>
    obtain ⟨hcall, -⟩ := call_swept hs ⟨todo, some operationId⟩
    refine h.same rfl rfl (admitted_task rfl fun call heq => ?_)
    rw [heq] at hcall
    cases hcall
  | @clear thread task operationId todo hg hs =>
    obtain ⟨hcall, -⟩ := call_swept hs ⟨todo, none⟩
    refine h.same rfl rfl (admitted_task rfl fun call heq => ?_)
    rw [heq] at hcall
    cases hcall
  | @admitted thread peer request parentPid record hg hr =>
    constructor
    case nodup => exact h.nodup
    case below => exact fun e he => Nat.lt_succ_of_lt (h.below e he)
    case fresh =>
      intro c call hget e he
      rcases get_task rfl hget with ⟨-, heq⟩ | hold
      · cases heq
        exact Nat.ne_of_lt (h.below e he)
      · exact h.fresh c call hold e he
  | @emit thread call hg =>
    have hcall := call_of_get hg
    constructor
    case nodup =>
      show ((s.emitted ++ [call.event]).map AskpassRequest.id).Nodup
      rw [map_append, nodup_append]
      refine ⟨h.nodup, nodup_singleton _, fun id hid id' hid' => ?_⟩
      obtain ⟨e, he, rfl⟩ := mem_map.1 hid
      rw [mem_singleton.1 hid']
      exact h.fresh thread call hg e he
    case below =>
      intro e he
      rcases mem_append.1 he with he | he
      · exact h.below e he
      · rw [mem_singleton.1 he]
        exact hm.ids thread call hcall
    case fresh =>
      intro c call' hget e he
      have hne : c ≠ thread := by
        rintro rfl
        rw [get_put, if_pos rfl] at hget
        cases hget
      have hold := admitted_task rfl (fun _ heq => by cases heq) c call' hget
      rcases mem_append.1 he with he | he
      · exact h.fresh c call' hold e he
      · rw [mem_singleton.1 he]
        exact fun hid => hne (hm.distinct c thread call' call (call_of_get hold) hcall hid.symm)
  | respond id response =>
    have hsame : (s.respond id response).emitted = s.emitted ∧ (s.respond id response).pending.nextId = s.pending.nextId := by
      unfold State.respond
      split
      · exact ⟨rfl, rfl⟩
      · exact ⟨rfl, rfl⟩
    refine h.same hsame.1 hsame.2 fun c call hg => ?_
    rwa [(closing_respond s id response).2.1] at hg
  | _ => exact h.same rfl rfl (admitted_task rfl fun _ heq => by cases heq)

/-- What is always so. -/
structure Sound (s : State) : Prop where
  matched : Matched s
  opened : Opened s
  asked : Asked s

theorem sound_step (h : Sound s) (hn : next parseRequest ours s a = some t) : Sound t :=
  have hst := step_of_next hn
  ⟨matched_step h.matched hst, opened_step h.opened hst, asked_step h.asked h.matched hst⟩

variable {l : List (Transition State Action)}

theorem sound_run (h : Run parseRequest ours l s) : Sound s := by
  refine h.invariant (fun s h0 => ?_) fun _ _ _ hs hst => sound_step hs hst
  obtain ⟨now, rfl⟩ := h0
  exact ⟨matched_new now, opened_new now, asked_new now⟩

/-! ## What came before -/

section Past
variable (parseRequest : String → Option ClientRequest) (ours : Nat)

def Connects (c : Nat) (peer : PeerIdentity) (request : ClientRequest) (x : Transition State Action) : Prop :=
  ∃ line, x.label = .connect c peer (some line) ∧ parseRequest line = some request

/-- A connection is admitted: what it named was live, and it is the operation's. -/
def Admits (c : Nat) (call : Admitted) (x : Transition State Action) : Prop :=
  ∃ parentPid record root, x.label = .admitted c parentPid ∧
    x.src.operations.get call.request.operationId = some record ∧ record.token = call.request.token ∧
    x.src.now < record.expires ∧ record.context.background = false ∧ record.rootPid = some root ∧
    Trusted ours parentPid call.peer root ∧
    call.event = record.context.request x.src.pending.nextId call.request.prompt

end Past

def Emits (c : Nat) (call : Admitted) (x : Transition State Action) : Prop :=
  x.label = .emit c ∧ x.dst.emitted = x.src.emitted ++ [call.event]

/-- An answer to the connection's request, while the operation was live. -/
def Replies (c : Nat) (call : Admitted) (secret : String) (x : Transition State Action) : Prop :=
  x.label = .respond call.event.id (some secret) ∧ x.dst.channels c = [some secret] ∧
    ∃ record, x.src.operations.get call.request.operationId = some record ∧ x.src.now < record.expires ∧
      record.token = call.request.token ∧ call.event = record.context.request call.event.id call.request.prompt

def Receives (c : Nat) (secret : String) (x : Transition State Action) : Prop :=
  x.label = .receive c ∧ x.src.channels c = [some secret]

/-- What the run so far has of each connection. -/
structure Past (parseRequest : String → Option ClientRequest) (ours : Nat) (l : List (Transition State Action)) (s : State) :
    Prop where
  resolves : ∀ c peer request sweep, s.tasks.get c = some (.resolve peer request sweep) →
    Happened [Connects parseRequest c peer request] l
  called : ∀ c call, s.call c = some call →
    Happened [Connects parseRequest c call.peer call.request, Admits ours c call] l
  waiting : ∀ c call, s.tasks.get c = some (.waiting call) →
    Happened [Connects parseRequest c call.peer call.request, Admits ours c call, Emits c call] l
  sent : ∀ c call secret, s.call c = some call → some secret ∈ s.channels c →
    Happened [Connects parseRequest c call.peer call.request, Admits ours c call, Replies c call secret] l
  answered : ∀ c secret, s.tasks.get c = some (.answered secret) → secret ≠ "" → ∃ call,
    Happened [Connects parseRequest c call.peer call.request, Admits ours c call, Emits c call, Receives c secret] l ∧
    Happened [Connects parseRequest c call.peer call.request, Admits ours c call, Replies c call secret, Receives c secret] l

theorem Past.snoc {l : List (Transition State Action)} (h : Past parseRequest ours l s) {x : Transition State Action}
    (hresolves : ∀ c peer request sweep, t.tasks.get c = some (.resolve peer request sweep) →
      (∃ sweep', s.tasks.get c = some (.resolve peer request sweep')) ∨ Connects parseRequest c peer request x)
    (hcalled : ∀ c call, t.call c = some call → s.call c = some call ∨
      ((∃ sweep, s.tasks.get c = some (.resolve call.peer call.request sweep)) ∧ Admits ours c call x))
    (hwaiting : ∀ c call, t.tasks.get c = some (.waiting call) → s.tasks.get c = some (.waiting call) ∨
      (s.call c = some call ∧ Emits c call x))
    (hsent : ∀ c call secret, t.call c = some call → some secret ∈ t.channels c →
      s.call c = some call ∧ (some secret ∈ s.channels c ∨ Replies c call secret x))
    (hanswered : ∀ c secret, t.tasks.get c = some (.answered secret) → secret ≠ "" →
      s.tasks.get c = some (.answered secret) ∨
        ∃ call, s.tasks.get c = some (.waiting call) ∧ some secret ∈ s.channels c ∧ Receives c secret x) :
    Past parseRequest ours (l ++ [x]) t := by
  constructor
  case resolves =>
    intro c peer request sweep hg
    rcases hresolves c peer request sweep hg with ⟨sweep', hold⟩ | hnew
    · exact (h.resolves c peer request sweep' hold).step x
    · exact Happened.nil.snoc hnew
  case called =>
    intro c call hg
    rcases hcalled c call hg with hold | ⟨⟨sweep, hold⟩, hnew⟩
    · exact (h.called c call hold).step x
    · exact (h.resolves c _ _ sweep hold).snoc hnew
  case waiting =>
    intro c call hg
    rcases hwaiting c call hg with hold | ⟨hold, hnew⟩
    · exact (h.waiting c call hold).step x
    · exact (h.called c call hold).snoc hnew
  case sent =>
    intro c call secret hg hm
    obtain ⟨hold, hm | hnew⟩ := hsent c call secret hg hm
    · exact (h.sent c call secret hold hm).step x
    · exact (h.called c call hold).snoc hnew
  case answered =>
    intro c secret hg hne
    rcases hanswered c secret hg hne with hold | ⟨call, hold, hm, hnew⟩
    · obtain ⟨call, hemits, hreplies⟩ := h.answered c secret hold hne
      exact ⟨call, hemits.step x, hreplies.step x⟩
    · exact ⟨call, (h.waiting c call hold).snoc hnew, (h.sent c call secret (call_of_get hold) hm).snoc hnew⟩

variable {x : Transition State Action} {response : Option String}

theorem Past.turns (h : Past parseRequest ours l s) (ht : base.tasks = s.tasks)
    (hsent : ∀ c secret, some secret ∈ base.channels c → some secret ∈ s.channels c)
    (hcall : ∀ call, task.call = some call → s.call thread = some call)
    (hresolves : ∀ peer request sweep, task = .resolve peer request sweep →
      (∃ sweep', s.tasks.get thread = some (.resolve peer request sweep')) ∨ Connects parseRequest thread peer request x)
    (hwaiting : ∀ call, task = .waiting call → Emits thread call x)
    (hanswered : ∀ secret, task = .answered secret → secret ≠ "" →
      ∃ call, s.tasks.get thread = some (.waiting call) ∧ some secret ∈ s.channels thread ∧ Receives thread secret x) :
    Past parseRequest ours (l ++ [x]) (base.put thread task) := by
  have hcalled : ∀ c call, (base.put thread task).call c = some call → s.call c = some call := by
    intro c call hg
    rcases call_task ht hg with ⟨rfl, hnew⟩ | hold
    · exact hcall call hnew
    · exact hold
  refine h.snoc (fun c peer request sweep hg => ?_) (fun c call hg => .inl (hcalled c call hg)) (fun c call hg => ?_)
    (fun c call secret hg hm => ⟨hcalled c call hg, .inl (hsent c secret hm)⟩) fun c secret hg hne => ?_
  · rcases get_task ht hg with ⟨rfl, heq⟩ | hold
    · exact hresolves peer request sweep heq.symm
    · exact .inl ⟨sweep, hold⟩
  · rcases get_task ht hg with ⟨rfl, heq⟩ | hold
    · exact .inr ⟨hcall call (heq ▸ rfl), hwaiting call heq.symm⟩
    · exact .inl hold
  · rcases get_task ht hg with ⟨rfl, heq⟩ | hold
    · exact .inr (hanswered secret heq.symm hne)
    · exact .inl hold

theorem Past.same (h : Past parseRequest ours l s) (ht : t.tasks = s.tasks)
    (hsent : ∀ c call secret, s.call c = some call → some secret ∈ t.channels c →
      some secret ∈ s.channels c ∨ Replies c call secret x) :
    Past parseRequest ours (l ++ [x]) t := by
  have hcall : ∀ c, t.call c = s.call c := fun c => by rw [State.call, State.call, ht]
  refine h.snoc (fun c peer request sweep hg => .inl ⟨sweep, ht ▸ hg⟩) (fun c call hg => .inl (hcall c ▸ hg))
    (fun c call hg => .inl (ht ▸ hg)) (fun c call secret hg hm => ?_) fun c secret hg _ => .inl (ht ▸ hg)
  rw [hcall] at hg
  exact ⟨hg, hsent c call secret hg hm⟩

theorem replies_respond (h : Sound s) {id : Nat} {secret : String}
    (hc : s.call c = some call) (hm : some secret ∈ (s.respond id response).channels c) :
    some secret ∈ s.channels c ∨ Replies c call secret ⟨s, .respond id response, s.respond id response⟩ := by
  cases hg : s.pending.waiters.get id with
  | none =>
    simp only [State.respond, hg] at hm
    exact .inl hm
  | some waiter =>
    obtain ⟨call', hcall', hid, hop, hnil⟩ := h.matched.waiters id waiter hg
    rw [respond_eq hg] at hm
    by_cases hcc : c = waiter.sender
    · subst hcc
      cases hc.symm.trans hcall'
      have hchannel : (s.respond id response).channels waiter.sender =
          [if s.live waiter.operationId then response else none] := by
        rw [respond_eq hg]
        simp [State.send, hnil]
      have hsecret : some secret = if s.live waiter.operationId then response else none := by
        simpa [State.send, hnil] using hm
      cases hlive : s.live waiter.operationId with
      | false =>
        rw [hlive] at hsecret
        cases hsecret
      | true =>
        rw [hlive, if_pos rfl] at hsecret
        rw [hlive, if_pos rfl] at hchannel
        subst hsecret
        obtain ⟨record, hrecord, hnow⟩ := (Option.any_eq_true _ _).1 hlive
        rw [← hop] at hrecord
        obtain ⟨htoken, hevent⟩ := (h.opened.calls _ call hc).2 record hrecord
        exact .inr ⟨by rw [hid], hchannel, record, hrecord, of_decide_eq_true hnow, htoken, hevent⟩
    · exact .inl (by simpa [State.send, hcc] using hm)

theorem past_step (h : Past parseRequest ours l s) (hs : Sound s)
    (hst : Step parseRequest ours s a t) : Past parseRequest ours (l ++ [⟨s, a, t⟩]) t := by
  have hempty : ∀ {secret : String}, Task.answered "" = .answered secret → ¬secret ≠ "" := by
    intro secret heq hne
    cases heq
    exact hne rfl
  cases hst with
  | pass duration => exact h.same rfl fun _ _ _ _ hm => .inl hm
  | bindRootPid operationId pid =>
    obtain ⟨-, hch, -, ht, -⟩ := bindRootPid_fields s operationId pid
    exact h.same ht fun c _ secret _ hm => .inl (hch ▸ hm)
  | respond id response =>
    exact h.same (closing_respond s id response).2.1 fun c call secret hc hm => replies_respond hs hc hm
  | beginOperation | opened | drop | returns =>
    exact h.turns rfl (fun _ _ hm => hm) (fun _ heq => by cases heq) (fun _ _ _ heq => by cases heq)
      (fun _ heq => by cases heq) fun _ heq => by cases heq
  | rejected | refused | cancel =>
    exact h.turns rfl (fun _ _ hm => hm) (fun _ heq => by cases heq) (fun _ _ _ heq => by cases heq)
      (fun _ heq => by cases heq) fun _ heq hne => absurd hne (hempty heq)
  | @remove thread task operationId todo hg hsweep =>
    refine h.turns rfl (fun _ _ hm => hm) (fun call hcall => ?_) (fun peer request sweep heq => ?_) (fun call heq => ?_)
      fun secret heq => ?_
    · rw [(call_swept hsweep _).1] at hcall
      cases hcall
    · cases task <;> cases heq
      exact .inl ⟨_, hg⟩
    · cases task <;> cases heq
      cases hsweep
    · cases task <;> cases heq
      cases hsweep
  | @clear thread task operationId todo hg hsweep =>
    refine h.turns rfl (fun c secret hm => ?_) (fun call hcall => ?_) (fun peer request sweep heq => ?_) (fun call heq => ?_)
      fun secret heq => ?_
    · rcases mem_append.1 hm with hm | hm
      · exact hm
      · obtain ⟨waiter, -, hnone⟩ := mem_map.1 hm
        cases hnone
    · rw [(call_swept hsweep _).1] at hcall
      cases hcall
    · cases task <;> cases heq
      exact .inl ⟨_, hg⟩
    · cases task <;> cases heq
      cases hsweep
    · cases task <;> cases heq
      cases hsweep
  | connect hnew hp =>
    refine h.turns rfl (fun _ _ hm => hm) (fun _ hn => by cases hn) (fun peer request sweep heq => ?_)
      (by simp) (by simp)
    cases heq
    exact .inr ⟨_, rfl, hp⟩
  | @admitted thread peer request parentPid record hg hr =>
    obtain ⟨hrecord, htoken, hlive, hbackground, root, hroot, htrusted⟩ := admits_eq_some hr
    refine h.snoc (fun c peer' request' sweep hget => ?_) (fun c call hget => ?_) (fun c call hget => ?_)
      (fun c call secret hget hm => ?_) fun c secret hget _ => ?_
    · rcases get_task rfl hget with ⟨-, heq⟩ | hold
      · cases heq
      · exact .inl ⟨sweep, hold⟩
    · rcases call_task rfl hget with ⟨rfl, heq⟩ | hold
      · cases heq
        exact .inr ⟨⟨_, hg⟩, parentPid, record, root, rfl, hrecord, htoken, hlive, hbackground, hroot, htrusted, rfl⟩
      · exact .inl hold
    · rcases get_task rfl hget with ⟨-, heq⟩ | hold
      · cases heq
      · exact .inl hold
    · rcases call_task rfl hget with ⟨rfl, -⟩ | hold
      · have hquiet := hs.matched.quiet c (idle_of_get hg)
        have hm : some secret ∈ s.channels c := hm
        rw [hquiet] at hm
        cases hm
      · exact ⟨hold, .inl hm⟩
    · rcases get_task rfl hget with ⟨-, heq⟩ | hold
      · cases heq
      · exact .inl hold
  | @emit thread call hg =>
    refine h.turns rfl (fun _ _ hm => hm) (fun _ hcall => (call_of_get hg).trans hcall) (by simp)
      (fun call' heq => ?_) (by simp)
    cases heq
    exact ⟨rfl, rfl⟩
  | @receive thread call secret rest hg hc =>
    have hlen := hs.matched.single thread
    rw [hc, length_cons] at hlen
    have hrest : rest = [] := eq_nil_of_length_eq_zero (by omega)
    refine h.turns rfl (fun c secret' hm => ?_) (fun _ hn => by cases hn) (by simp)
      (by simp) fun secret' heq _ => ?_
    · dsimp only at hm
      split at hm
      · rw [hrest] at hm
        cases hm
      · exact hm
    · cases heq
      exact ⟨call, hg, by rw [hc]; exact mem_cons_self, rfl, by rw [hc, hrest]⟩
  | @woken thread call rest hg hc =>
    refine h.turns rfl (fun c secret hm => ?_) (fun _ hcall => (call_of_get hg).trans hcall) (by simp)
      (by simp) (by simp)
    dsimp only at hm
    split at hm
    · rename_i hcc
      rw [hcc, hc]
      exact mem_cons_of_mem _ hm
    · exact hm
  | timeout hg hc =>
    exact h.turns rfl (fun _ _ hm => hm) (fun _ hcall => (call_of_get hg).trans hcall) (by simp)
      (by simp) (by simp)

theorem past_run (h : Run parseRequest ours l s) : Past parseRequest ours l s := by
  refine h.history (fun s h0 => ?_) fun l s a t hl hp hst => past_step hp (sound_run hl) (step_of_next hst)
  obtain ⟨now, rfl⟩ := h0
  constructor
  case resolves => exact nofun
  case called | waiting => exact nofun
  case sent => exact nofun
  case answered => exact nofun

/-! ## After a revocation -/

/-- An operation was removed, and none waits for it. -/
structure Removed (operationId : String) (s : State) : Prop where
  drawn : operationId ∈ s.drawn
  operations : s.operations.get operationId = none
  waiters : ∀ id waiter, s.pending.waiters.get id = some waiter → waiter.operationId ≠ operationId

/-- The last step of a `revoke`. -/
def Returns (operationId : String) (x : Transition State Action) : Prop :=
  ∃ thread task todo, x.label = .sweep thread ∧ x.src.tasks.get thread = some task ∧
    task.sweep = some ⟨todo, some operationId⟩

theorem removed_returns (h : Sound x.src)
    (hst : Step parseRequest ours x.src x.label x.dst) (hr : Returns operationId x) : Removed operationId x.dst := by
  obtain ⟨thread, task, todo, hlabel, hg, hs⟩ := hr
  obtain ⟨-, hclearing⟩ := h.opened.sweeps thread task _ hg hs
  obtain ⟨hdrawn, hnone⟩ := hclearing operationId rfl
  obtain ⟨src, label, dst⟩ := x
  dsimp only at *
  subst hlabel
  cases hst with
  | remove hg' hs' =>
    cases hg.symm.trans hg'
    rw [hs] at hs'
    cases hs'
  | clear hg' hs' =>
    cases hg.symm.trans hg'
    rw [hs] at hs'
    cases hs'
    refine ⟨hdrawn, hnone, fun id waiter hw hop => ?_⟩
    have hget := (get_clear src operationId id).symm.trans hw
    split at hget
    · cases hget
    · rename_i hwaits
      exact hwaits (by simp [State.waits, hget, hop])

theorem Removed.closing (h : Removed operationId s) (hc : Closing s t)
    (hw : ∀ id waiter, t.pending.waiters.get id = some waiter → s.pending.waiters.get id = some waiter) :
    Removed operationId t :=
  ⟨hc.drawn ▸ h.drawn, hc.none h.operations, fun id waiter hg => h.waiters id waiter (hw id waiter hg)⟩

theorem removed_step (h : Removed operationId s) (hst : Step parseRequest ours s a t) : Removed operationId t := by
  cases hst with
  | @opened thread context ttl k token hg hop =>
    have hne : operationId ≠ k := fun heq => hop (heq ▸ h.drawn)
    refine ⟨mem_cons_of_mem _ (mem_cons_of_mem _ h.drawn), ?_, h.waiters⟩
    show (s.operations.insert k _).get operationId = none
    rw [get_insert s.operations, if_neg hne]
    exact h.operations
  | bindRootPid k pid =>
    refine h.closing (closing_bindRootPid s k pid) fun id waiter hg => ?_
    rwa [(bindRootPid_fields s k pid).1] at hg
  | @remove thread task k todo hg hs =>
    have herase := closing_erase s k
    exact h.closing ⟨herase.drawn, herase.operations⟩ fun _ _ hw => hw
  | clear hg hs =>
    refine h.closing (closing_same rfl rfl) fun id waiter hw => ?_
    have hget := (get_clear s _ id).symm.trans hw
    split at hget
    · cases hget
    · exact hget
  | @admitted thread peer request parentPid record hg hr =>
    obtain ⟨hrecord, -⟩ := admits_eq_some hr
    refine ⟨h.drawn, h.operations, fun id waiter hw => ?_⟩
    have hget : (s.pending.waiters.insert s.pending.nextId ⟨request.operationId, thread⟩).get id = some waiter := hw
    rw [get_insert s.pending.waiters] at hget
    split at hget
    · cases hget
      rintro rfl
      rw [h.operations] at hrecord
      cases hrecord
    · exact h.waiters id waiter hget
  | @cancel thread call hg =>
    refine h.closing (closing_same rfl rfl) fun id waiter hw => ?_
    have hget : (s.pending.waiters.erase call.event.id).get id = some waiter := hw
    rw [get_erase] at hget
    split at hget
    · cases hget
    · exact hget
  | respond id response =>
    refine h.closing (closing_respond s id response).1 fun id' waiter hw => ?_
    cases hg : s.pending.waiters.get id with
    | none => simpa only [State.respond, hg] using hw
    | some waiter' =>
      rw [respond_eq hg] at hw
      have hget : (s.pending.waiters.erase id).get id' = some waiter := hw
      rw [get_erase] at hget
      split at hget
      · cases hget
      · exact hget
  | _ => exact h.closing (closing_same rfl rfl) fun _ _ hw => hw

/-- **What a `revoke` left stays so.** -/
theorem removed_run {past later : List (Transition State Action)}
    (h : Run parseRequest ours l s) (hl : l = past ++ x :: later) (hr : Returns operationId x) : Removed operationId s := by
  obtain ⟨hpast, hstep⟩ := h.split hl
  exact h.persists hl (removed_returns (sound_run hpast) (step_of_next hstep) hr) fun y _ hy hs =>
    removed_step hs (step_of_next hy)

/-! ## The conduct of the server -/

theorem respond_single {id : Nat} {c' : Nat} (hc : (s.respond id response).channels c ≠ s.channels c)
    (hc' : (s.respond id response).channels c' ≠ s.channels c') : c = c' := by
  cases hg : s.pending.waiters.get id with
  | none => exact absurd (by simp only [State.respond, hg]) hc
  | some waiter =>
    have hsender : ∀ k, (s.respond id response).channels k ≠ s.channels k → k = waiter.sender := by
      intro k hk
      by_cases heq : k = waiter.sender
      · exact heq
      · exact absurd (by rw [respond_eq hg]; simp [State.send, heq]) hk
    exact (hsender c hc).trans (hsender c' hc').symm

/-- What holds after a run. -/
structure Conduct (parseRequest : String → Option ClientRequest) (ours : Nat) (l : List (Transition State Action)) (s : State) :
    Prop where
  /-- A secret was answered to the request that was emitted for the connection, under the operation that it named. -/
  received : ∀ c secret, s.tasks.get c = some (.answered secret) → secret ≠ "" → ∃ call,
    Happened [Connects parseRequest c call.peer call.request, Admits ours c call, Emits c call, Receives c secret] l ∧
    Happened [Connects parseRequest c call.peer call.request, Admits ours c call, Replies c call secret, Receives c secret] l
  /-- An answer is sent to one connection at most. -/
  once : ∀ x ∈ l, ∀ id response, x.label = .respond id response → ∀ c c', x.dst.channels c ≠ x.src.channels c →
    x.dst.channels c' ≠ x.src.channels c' → c = c'
  ids : (s.emitted.map AskpassRequest.id).Nodup
  /-- After a `revoke` the operation is gone, none waits for it, and each connection of it was woken or is not waiting. -/
  revoked : ∀ past x later operationId, l = past ++ x :: later → Returns operationId x →
    s.operations.get operationId = none ∧
    (∀ id waiter, s.pending.waiters.get id = some waiter → waiter.operationId ≠ operationId) ∧
    ∀ c call, s.call c = some call → call.request.operationId = operationId → s.asks c = true → s.channels c ≠ []
  /-- And none is admitted for it or answered. -/
  closed : ∀ past x mid y later operationId, l = past ++ x :: mid ++ y :: later → Returns operationId x →
    ∀ c call, call.request.operationId = operationId → ¬Admits ours c call y ∧ ∀ secret, ¬Replies c call secret y

namespace Sample

def context : AskpassOperationContext := ⟨"repo", "/repo", some "origin", none, .push, false⟩

def parse (line : String) : Option ClientRequest := if line = "line" then some ⟨"token", "op", "Password:"⟩ else none

/-- An operation is begun and bound, its child asks, and the desktop answers. -/
def asked : List Action :=
  [.beginOperation 0 context 180, .open 0 "op" "token", .bindRootPid "op" 42,
    .connect 1 ⟨some 43, some 501⟩ (some "line"), .admitted 1 fun _ pid => if pid = 43 then some 42 else none, .emit 1,
    .respond 1 (some "secret"), .receive 1]

variable (acts : List Action)

def played : Option (List (Transition State Action) × State) :=
  Trace.play (fun s a => (next parse 501 s a).map (Prod.mk a)) acts [] (.new 0)

theorem run_of_played {s : State} (h : played acts = some (l, s)) : Run parse 501 l s :=
  Trace.of_played ⟨0, rfl⟩ h

def ended : List (Transition State Action) × State := (played acts).getD ([], .new 0)

theorem run_asked : Run parse 501 (ended asked).1 (ended asked).2 := run_of_played asked rfl

end Sample

end Askpass
end Yuzora
