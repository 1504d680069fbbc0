import Yuzora.PairingNews
/-!
# PairingTold — what each step tells the desktop

Every step marks every pairing in one of the ways of `Mark`, or it evicts one that is over and announced, or it creates
one (`Tells`).
-/
namespace Yuzora
namespace Pairing

open List

def Op.reason (op : Op) (entry : Entry) : String :=
  match op with
  | .commandEnd (.approve _) _ _ => "approved"
  | .commandEnd (.cancel _) _ _ => "cancelled"
  | .commandEnd _ _ _ => "rejected"
  | .claim _ _ _ => failReason entry.claimHash.isSome
  | _ => "attempt-limit"

/-- What one step does to one pairing, and the events of it that it enqueues. -/
inductive Tells (x : Transition Desk Label) (id : String) : Option Entry → List Event → Option Entry → Prop
  | absent : Tells x id none [] none
  | marked {src dst : Entry} {news : List Event} : Mark (x.label.op.reason src) id src news dst →
      Tells x id (some src) news (some dst)
  | evicted {src : Entry} : src.live = false → src.notification = none → Tells x id (some src) [] none
  | created {src : Option Entry} {dst : Entry} (secret : Bytes 32) : Created id secret x → dst.live = true →
      dst.notification = none → Tells x id src [] (some dst)

section Tells
variable {ext : External} {x : Transition Desk Label} {id : String} {events sent : EventSender} {store : Pairings}
  {visit : Visit (String × Entry)} {s t : Pairings} {label : Label}

theorem Tells.same : ∀ o : Option Entry, Tells x id o [] o
  | none => .absent
  | some _ => .marked (.kept rfl rfl)

def StoreTells (x : Transition Desk Label) (s : Pairings) (events : EventSender) (t : Pairings) (sent : EventSender) :
    Prop :=
  ∃ news, sent.accepted = events.accepted ++ news ∧
    ∀ id, Tells x id (s.entries.get id) (stateEvents id news) (t.entries.get id)

theorem storeTells_silent {news : List Event} (hsent : sent.accepted = events.accepted ++ news)
    (hnews : ∀ id, stateEvents id news = []) (h : ∀ id, Tells x id (s.entries.get id) [] (t.entries.get id)) :
    StoreTells x s events t sent :=
  ⟨news, hsent, fun id => hnews id ▸ h id⟩

theorem storeTells_quiet (hsent : sent.accepted = events.accepted)
    (h : ∀ id, Tells x id (s.entries.get id) [] (t.entries.get id)) : StoreTells x s events t sent :=
  storeTells_silent (hsent.trans (append_nil _).symm) (fun _ => rfl) h

theorem storeTells_same (s : Pairings) (events : EventSender) : StoreTells x s events s events :=
  storeTells_quiet rfl fun _ => .same _

theorem storeTells_put {key : String} {src dst : Entry} (hg : store.entries.get key = some src)
    (h : Marks (x.label.op.reason src) key src events dst sent) : StoreTells x store events (store.put key dst) sent := by
  obtain ⟨news, hsent, hother, hm⟩ := h
  refine ⟨news, hsent, fun id => ?_⟩
  rw [Pairings.put, Table.get_insert]
  by_cases hid : id = key
  · subst hid
    rw [if_pos rfl, hg]
    exact .marked hm
  · rw [if_neg hid, hother id hid]
    exact .same _

theorem StoreTells.release (h : StoreTells x s events t sent) (poll : Poll) :
    StoreTells x s events (t.release poll) sent := by
  obtain ⟨news, hsent, ht⟩ := h
  refine ⟨news, hsent, fun id => ?_⟩
  have hid := ht id
  rw [release_get]
  split
  · cases hg : t.entries.get id with
    | none =>
      rw [hg] at hid
      exact hid
    | some dst =>
      rw [hg] at hid
      generalize s.entries.get id = src at hid ⊢
      generalize stateEvents id news = mine at hid ⊢
      cases hid with
      | created secret hc hl hn => exact .created secret hc hl hn
      | marked hm => exact .marked (hm.congr rfl rfl)
  · exact hid

theorem maintain_tells (store : Pairings) (events : EventSender) (key : String) (now : Timestamp)
    (hs : ∀ entry, store.entries.get key = some entry → entry.Sound) :
    ∃ news, (store.maintain events key now).2.accepted = events.accepted ++ news ∧
      (∀ id, id ≠ key → stateEvents id news = []) ∧
      Tells x key (store.entries.get key) (stateEvents key news) ((store.maintain events key now).1.entries.get key) := by
  unfold Pairings.maintain
  cases hg : store.entries.get key with
  | none =>
    refine ⟨[], (append_nil _).symm, fun _ _ => rfl, ?_⟩
    simp only [hg]
    exact .absent
  | some entry =>
    obtain ⟨news, hsent, hother, hm⟩ :=
      expire_notify_marks (x.label.op.reason entry) key events (hs entry hg) now
    refine ⟨news, hsent, hother, ?_⟩
    simp only [Pairings.put, Table.get_insert_self]
    exact .marked hm

theorem maintainAll_tells (clock : Readings) : ∀ (ids : List String) (n : Nat) (store : Pairings) (events : EventSender),
    ids.Nodup → (∀ id ∈ ids, ∀ entry, store.entries.get id = some entry → entry.Sound) →
      ∃ news, (Pairings.maintainAll ids n clock store events).2.accepted = events.accepted ++ news ∧
        (∀ id, id ∉ ids → stateEvents id news = []) ∧
        ∀ id ∈ ids, Tells x id (store.entries.get id) (stateEvents id news)
          ((Pairings.maintainAll ids n clock store events).1.entries.get id)
  | [], _, _, _, _, _ => ⟨[], (append_nil _).symm, fun _ _ => rfl, nofun⟩
  | key :: ids, n, store, events, hn, hs => by
    rw [nodup_cons] at hn
    rw [Pairings.maintainAll]
    have hkeep : ∀ id, id ≠ key → (store.maintain events key (clock.now n)).1.entries.get id = store.entries.get id :=
      fun id hid => maintain_get store events key (clock.now n) hid
    have hne : ∀ id ∈ ids, id ≠ key := fun id hid heq => hn.1 (heq ▸ hid)
    obtain ⟨first, hsent, hother, hkey⟩ :=
      maintain_tells (x := x) store events key (clock.now n) (hs key mem_cons_self)
    have hsound : ∀ id ∈ ids, ∀ entry,
        (store.maintain events key (clock.now n)).1.entries.get id = some entry → entry.Sound := by
      intro id hid entry hg
      rw [hkeep id (hne id hid)] at hg
      exact hs id (mem_cons_of_mem _ hid) entry hg
    obtain ⟨rest, hsent', hother', hrest⟩ := maintainAll_tells clock ids (n + 1) _
      (store.maintain events key (clock.now n)).2 hn.2 hsound
    refine ⟨first ++ rest, ?_, ?_, ?_⟩
    · rw [hsent', hsent, append_assoc]
    · intro id hid
      rw [mem_cons, not_or] at hid
      rw [stateEvents_append, hother id hid.1, hother' id hid.2, append_nil]
    · intro id hid
      rw [stateEvents_append]
      rcases mem_cons.1 hid with rfl | hid
      · rw [hother' id hn.1, append_nil, maintainAll_get clock ids (n + 1) _ _ hn.1]
        exact hkey
      · rw [hother id (hne id hid), nil_append, ← hkeep id (hne id hid)]
        exact hrest id hid

theorem maintenance_tells (hs : ∀ id entry, store.entries.get id = some entry → entry.Sound)
    (events : EventSender) (visit : Visit String) (clock : Readings) :
    StoreTells x store events (store.maintenance events visit clock).1 (store.maintenance events visit clock).2 := by
  obtain ⟨news, hsent, hother, htells⟩ := maintainAll_tells (x := x) clock (visit.order store.entries.keys) 0 store events
    ((visit.perm _).nodup_iff.2 store.entries.nodup) fun id _ => hs id
  refine ⟨news, hsent, fun id => ?_⟩
  by_cases hid : id ∈ visit.order store.entries.keys
  · exact htells id hid
  · rw [hother id hid, Pairings.maintenance, maintainAll_get clock _ 0 store events hid]
    exact .same _

theorem evictable_over {oldest : String} {entry : Entry}
    (h : store.evictable visit = some oldest) (hg : store.entries.get oldest = some entry) :
    entry.live = false ∧ entry.notification = none := by
  obtain ⟨e, he, rfl⟩ := Option.map_eq_some_iff.1 h
  obtain ⟨hm, hl⟩ := mem_filter.1 (minByKey_mem he)
  rw [Table.get_eq_some.2 ((visit.perm _).mem_iff.1 hm)] at hg
  rw [← Option.some.inj hg]
  simpa using hl

theorem room_tells {store room : Pairings} (h : (if store.entries.size ≥ MAX_RECORDS then
        (store.evictable visit).map (fun oldest => { store with entries := store.entries.erase oldest })
      else some store) = some room) (id : String) : Tells x id (store.entries.get id) [] (room.entries.get id) := by
  split at h
  · obtain ⟨oldest, ho, rfl⟩ := Option.map_eq_some_iff.1 h
    simp only [Table.get_erase]
    split
    · rename_i hid
      subst hid
      cases hg : store.entries.get id with
      | none => exact .absent
      | some entry =>
        obtain ⟨hl, hn⟩ := evictable_over ho hg
        exact .evicted hl hn
    · exact .same _
  · rw [Option.some.inj h]
    exact .same _

theorem create_tells (store : Pairings) (events : EventSender) (path : String) (addToDevice : Option String)
    (draw : Pairings.Draw) (visit : Visit (String × Entry)) (now : Timestamp)
    (hop : x.label.op = .commandEnd (.create path addToDevice) draw visit) :
    x.label.outcome = .command (store.create ext events path addToDevice draw visit now).1 →
      StoreTells x store events (store.create ext events path addToDevice draw visit now).2.1
        (store.create ext events path addToDevice draw visit now).2.2 := by
  unfold Pairings.create
  iterate 4
    split
    · exact fun _ => storeTells_same store events
  simp only
  generalize hroom : (if store.entries.size ≥ MAX_RECORDS then _ else _) = made
  split
  · exact fun _ => storeTells_same store events
  · exact fun _ => storeTells_quiet rfl (room_tells hroom)
  · exact fun _ => storeTells_quiet rfl (room_tells hroom)
  · rename_i room key secret hk hs
    rcases tryEmitEvent_cases events (.pairingCreated (encode key.1)
      (room.origin ++ "/pair#p=" ++ encode key.1 ++ "." ++ encode secret.1) (now.after TTL)) with he | he
    · rw [he]
      intro hout
      refine storeTells_silent rfl (fun _ => rfl) fun id => ?_
      simp only [Pairings.put, Table.get_insert]
      split
      · rename_i hid
        refine .created secret ⟨path, addToDevice, key, visit, ?_, hid.symm, hout⟩ rfl rfl
        rw [hop, ← hk, ← hs]
      · exact room_tells hroom id
    · rw [he]
      exact fun _ => storeTells_quiet rfl (room_tells hroom)

theorem decideOn_tells (store : Pairings) (events : EventSender) (key : String) {state : State} {reason : String}
    {now : Timestamp} (hstate : state = .approved ∨ state = .rejected)
    (hreason : ∀ entry, x.label.op.reason entry = reason) :
    StoreTells x store events (store.decideOn events key state reason now).2.1
      (store.decideOn events key state reason now).2.2 := by
  unfold Pairings.decideOn
  split
  · exact storeTells_same store events
  · split
    · exact storeTells_same store events
    · rename_i entry hg
      refine storeTells_put hg ?_
      rw [hreason entry]
      exact decide_marks entry hstate now

theorem command_tells (store : Pairings) (events : EventSender) (command : PairingCommand) (draw : Pairings.Draw)
    (visit : Visit (String × Entry)) (hop : x.label.op = .commandEnd command draw visit) :
    x.label.outcome = .command (store.command ext events command draw visit (x.label.clock.now 0)).1 →
      StoreTells x store events (store.command ext events command draw visit (x.label.clock.now 0)).2.1
        (store.command ext events command draw visit (x.label.clock.now 0)).2.2 := by
  cases command with
  | create path addToDevice => exact create_tells store events path addToDevice draw visit _ hop
  | approve key => exact fun _ => decideOn_tells store events key (.inl rfl) fun _ => by rw [hop]; rfl
  | reject key | cancel key => exact fun _ => decideOn_tells store events key (.inr rfl) fun _ => by rw [hop]; rfl

theorem claim_tells (hs : ∀ id entry, store.entries.get id = some entry → entry.Sound)
    {request : ClaimRequest} {userAgent : String} {draw : Pairings.ClaimDraw} {clock : Readings}
    {answer : Except Failure ClaimResponse} {dst : Pairings}
    (h : store.claim ext events request userAgent draw clock = .ok (answer, dst, sent))
    (hop : x.label.op = .claim request userAgent draw) : StoreTells x store events dst sent := by
  unfold Pairings.claim at h
  split at h
  · cases h
    exact storeTells_same _ _
  · split at h
    · cases h
      exact storeTells_same _ _
    · cases h
      exact storeTells_same _ _
    · rename_i nonce entry _ hg
      split at h
      · cases h
      · rename_i answer' entry' sent' he
        cases h
        refine storeTells_put hg ?_
        rw [hop]
        exact claimEntry_marks (hs _ _ hg) he

theorem statusBegin_tells (store : Pairings) (events : EventSender) (request : StatusRequest) (clock : Readings)
    (hreason : ∀ entry, x.label.op.reason entry = "attempt-limit") :
    StoreTells x store events (store.statusBegin ext events request clock).2.1
      (store.statusBegin ext events request clock).2.2 := by
  unfold Pairings.statusBegin
  split
  · exact storeTells_same store events
  split
  · exact storeTells_same store events
  rename_i entry hg
  have hauth : Marks "attempt-limit" request.pairingId entry events _ _ :=
    authenticate_marks ext entry request (clock.now 0) events
  rw [← hreason entry] at hauth
  generalize Pairings.authenticate ext (entry.expire (clock.now 0)) request events = answered at hauth ⊢
  obtain ⟨e | _, dst, sent⟩ := answered
  · exact storeTells_put hg hauth
  · simp only
    split
    · exact storeTells_put hg hauth
    · exact storeTells_put hg (hauth.congr rfl rfl)

theorem statusEnd_tells (hs : ∀ id entry, store.entries.get id = some entry → entry.Sound)
    (poll : Poll) (ticket : Option (Bytes 32)) (events : EventSender) (clock : Readings)
    (hreason : ∀ entry, x.label.op.reason entry = "attempt-limit") :
    StoreTells x store events (store.statusEnd ext events poll ticket clock).2.1
      (store.statusEnd ext events poll ticket clock).2.2 := by
  unfold Pairings.statusEnd
  split
  · exact (storeTells_same store events).release poll
  · rename_i entry hg
    have hmarks : Marks "attempt-limit" poll.request.pairingId entry events _ _ :=
      statusEntry_marks ext (hs _ _ hg) poll.request ticket clock
    rw [← hreason entry] at hmarks
    exact (storeTells_put hg hmarks).release poll

theorem consumeTicket_tells (store : Pairings) (events : EventSender) (key text : String) (clock : Readings) :
    StoreTells x store events (store.consumeTicket ext key text clock).2 events := by
  unfold Pairings.consumeTicket
  split
  · exact storeTells_same store events
  · exact storeTells_same store events
  · rename_i supplied entry hd hg
    exact storeTells_put hg (consumeEntry_marks entry supplied clock)

theorem retryRegistration_tells (store : Pairings) (events : EventSender) (registration : Registration)
    (clock : Readings) : StoreTells x store events (store.retryRegistration registration clock).2 events := by
  unfold Pairings.retryRegistration
  split
  · exact storeTells_same store events
  rename_i entry hg
  refine storeTells_put hg ?_
  split
  · rename_i h
    obtain ⟨he, hlive, -⟩ := Entry.expire_live (Entry.live_of_registering h.1)
    rw [he]
    exact Mark.quiet (.moved [] hlive rfl rfl (by simp)) rfl
  · exact expire_marks entry _

theorem finish_tells (store : Pairings) (events : EventSender) (registration : Registration)
    (commit : Unit → Except Failure Unit) (clock : Readings) :
    StoreTells x store events (store.finish registration commit clock).2 events := by
  unfold Pairings.finish
  split
  · exact storeTells_same store events
  rename_i entry hg
  simp only
  split
  · exact storeTells_put hg (expire_marks entry _)
  · split
    · exact storeTells_put hg (expire_marks entry _)
    · rename_i hcheck
      split
      · exact storeTells_put hg (expire_marks entry _)
      · simp only [not_or, not_not] at hcheck
        obtain ⟨he, hlive, -⟩ := Entry.expire_live (Entry.live_of_registering hcheck.1)
        rw [he]
        exact storeTells_put hg (Mark.quiet (.registered hlive rfl rfl) rfl)

theorem Step.result {s t : Desk} (h : Step ext s label t) :
    s.store.step ext s.events label.op label.clock = .ok (label.outcome, t.store, t.events) := by
  obtain ⟨-, -, h⟩ := h
  unfold Desk.step at h
  split at h
  · cases h
  · rename_i outcome store events hstep
    cases h
    exact hstep

/-- **What each step tells the desktop.** -/
theorem step_tells {s t : Desk} (hs : ∀ id entry, s.store.entries.get id = some entry → entry.Sound)
    (h : Step ext s label t) : StoreTells ⟨s, label, t⟩ s.store s.events t.store t.events := by
  have h := h.result
  obtain ⟨op, clock, outcome⟩ := label
  have left : ∀ {r : Pairings × EventSender}, r = (t.store, t.events) →
      StoreTells ⟨s, ⟨op, clock, outcome⟩, t⟩ s.store s.events r.1 r.2 →
        StoreTells ⟨s, ⟨op, clock, outcome⟩, t⟩ s.store s.events t.store t.events := by
    rintro r rfl hr
    exact hr
  have silent : ∀ {store : Pairings}, store = t.store ∧ s.events = t.events →
      StoreTells ⟨s, ⟨op, clock, outcome⟩, t⟩ s.store s.events store s.events →
        StoreTells ⟨s, ⟨op, clock, outcome⟩, t⟩ s.store s.events t.store t.events := by
    rintro store ⟨rfl, he⟩ hr
    exact he ▸ hr
  cases op with
  | claim request userAgent draw =>
    simp only [Pairings.step] at h
    split at h
    · cases h
    · rename_i result hc
      simp only [Except.ok.injEq, Prod.mk.injEq] at h
      have hc : s.store.claim ext s.events request userAgent draw clock = .ok (result.1, t.store, t.events) := by
        rw [hc, ← h.2]
      exact claim_tells hs hc rfl
  | commandBegin _ visit | maintenance visit =>
    simp only [Pairings.step, Except.ok.injEq, Prod.mk.injEq] at h
    exact left h.2 (maintenance_tells hs s.events visit clock)
  | commandEnd command draw visit =>
    simp only [Pairings.step, Except.ok.injEq, Prod.mk.injEq] at h
    exact left h.2 (command_tells s.store s.events command draw visit rfl h.1.symm)
  | statusBegin request =>
    simp only [Pairings.step, Except.ok.injEq, Prod.mk.injEq] at h
    exact left h.2 (statusBegin_tells s.store s.events request clock fun _ => rfl)
  | statusEnd poll ticket =>
    simp only [Pairings.step, Except.ok.injEq, Prod.mk.injEq] at h
    exact left h.2 (statusEnd_tells hs poll ticket s.events clock fun _ => rfl)
  | statusDropped poll =>
    simp only [Pairings.step, Except.ok.injEq, Prod.mk.injEq] at h
    exact silent h.2 ((storeTells_same s.store s.events).release poll)
  | consumeTicket pairingId ticket =>
    simp only [Pairings.step, Except.ok.injEq, Prod.mk.injEq] at h
    exact silent h.2 (consumeTicket_tells s.store s.events pairingId ticket clock)
  | retryRegistration registration =>
    simp only [Pairings.step, Except.ok.injEq, Prod.mk.injEq] at h
    exact silent h.2 (retryRegistration_tells s.store s.events registration clock)
  | finish registration commit =>
    simp only [Pairings.step, Except.ok.injEq, Prod.mk.injEq] at h
    exact silent h.2 (finish_tells s.store s.events registration _ clock)

end Tells

end Pairing
end Yuzora
