import Yuzora.PairingRun
/-!
# PairingEffects — what each operation of the pairing store does to an entry

One lemma for each operation, and from them: every step has one of the effects on every pairing.
-/
namespace Yuzora
namespace Pairing

/-! ## Entries -/

namespace Entry

variable {entry : Entry}

theorem live_of_approved (h : entry.state = .approved) : entry.live = true := by
  rw [live, h]

theorem live_of_registering (h : entry.state = .registering) : entry.live = true := by
  rw [live, h]

/-- **What still lives after the expiry check is the entry as it was, before its deadline.** -/
theorem expire_live {now : Timestamp} (h : (entry.expire now).live = true) :
    entry.expire now = entry ∧ entry.live = true ∧ now < entry.deadline := by
  unfold expire at h ⊢
  split at h
  · cases h
  · rename_i hc
    rw [if_neg hc]
    refine ⟨rfl, h, ?_⟩
    simpa [h] using hc

theorem notify_live (entry : Entry) (id : String) (events : EventSender) :
    (entry.notify id events).2.1.live = entry.live := by
  unfold notify
  cases entry.notification with
  | none => rfl
  | some reason =>
    simp only
    generalize tryEmitEvent events _ = sent
    obtain ⟨e | _, _⟩ := sent <;> rfl

theorem notify_quiet (h : entry.notification = none) (id : String) (events : EventSender) :
    entry.notify id events = (.ok (), entry, events) := by
  simp [notify, h]

/-- **A failed attempt ends the pairing or is counted, and the count stays below five.** -/
theorem fail_cases (entry : Entry) (id : String) (events : EventSender) (secondClaim : Bool) :
    (entry.fail id events secondClaim).2.1.live = false ∨
      (secondClaim = false ∧ entry.failures + 1 < 5 ∧
        (entry.fail id events secondClaim).2.1 = { entry with failures := entry.failures + 1 }) := by
  simp only [fail]
  split
  · left
    generalize hn : notify _ id events = told
    have hl : told.2.1.live = false := by
      rw [← hn, notify_live]
      rfl
    obtain ⟨e | _, _, _⟩ := told <;> exact hl
  · rename_i hf
    have hmin : min (entry.failures + 1) 255 = entry.failures + 1 := by omega
    refine .inr ⟨?_, by omega, ?_⟩
    · cases secondClaim with
      | false => rfl
      | true => exact absurd (.inr rfl) hf
    · simp only [hmin]

/-- What every entry of a run satisfies: a live one has nothing to announce, and one not yet claimed is pending. -/
structure Sound (entry : Entry) : Prop where
  quiet : entry.live = true → entry.notification = none
  unclaimed : entry.live = true → entry.claimHash = none → entry.state = .pending

end Entry

/-! ## The effect of each operation -/

section Effects
variable {ext : External} {x : Transition Desk Label} {id : String}

theorem Effect.same : ∀ o : Option Entry, Effect ext x id o o
  | none => .absent
  | some src => .kept src.failures src.polls (Nat.le_refl _) (.inr rfl)

variable {store : Pairings}

variable {dst : Entry} {entry : Entry} {visit : Visit (String × Entry)}

theorem Effect.put {key : String} {src : Entry} (hs : store.entries.get key = some src)
    (h : Effect ext x key (some src) (some dst)) :
    Effect ext x id (store.entries.get id) ((store.put key dst).entries.get id) := by
  rw [Pairings.put, Table.get_insert]
  by_cases hid : id = key
  · subst hid
    rw [if_pos rfl, hs]
    exact h
  · rw [if_neg hid]
    exact .same _

theorem maintain_effect (hs : entry.Sound) (now : Timestamp) (events : EventSender) :
    Effect ext x id (some entry) (some ((entry.expire now).notify id events).2.1) := by
  cases hl : (entry.expire now).live with
  | false => exact .ended (by rw [Entry.notify_live, hl])
  | true =>
    obtain ⟨he, hl, -⟩ := Entry.expire_live hl
    rw [he, Entry.notify_quiet (hs.quiet hl)]
    exact .same _

theorem authenticate_cases (ext : External) (entry : Entry) (request : StatusRequest) (events : EventSender) :
    (∃ e dst events', Pairings.authenticate ext entry request events = (.error e, dst, events') ∧
      (dst.live = false ∨ entry.failures + 1 < 5 ∧ dst = { entry with failures := entry.failures + 1 })) ∨
    ∃ digest, entry.claimHash = some digest ∧ Carries ext request.claimToken digest ∧
      Pairings.authenticate ext entry request events = (.ok (), entry, events) := by
  unfold Pairings.authenticate
  simp only
  split
  · left
    cases hl : entry.live with
    | false => exact ⟨_, _, _, rfl, .inl hl⟩
    | true =>
      refine ⟨_, _, _, rfl, ?_⟩
      rcases entry.fail_cases request.pairingId events false with h | ⟨-, h5, h⟩
      · exact .inl h
      · exact .inr ⟨h5, h⟩
  · rename_i hv
    right
    obtain ⟨hv, ht, hc⟩ : matchesHash ext (entry.claimHash.getD (Bytes.zero 32))
        ((decode 32 request.claimToken).getD (Bytes.zero 32)).1 = true ∧ decode 32 request.claimToken ≠ none ∧
        entry.claimHash ≠ none := by simpa using hv
    obtain ⟨digest, hd⟩ := Option.ne_none_iff_exists'.1 hc
    obtain ⟨token, htok⟩ := Option.ne_none_iff_exists'.1 ht
    rw [hd, htok] at hv
    exact ⟨digest, hd, ⟨token, htok, matchesHash_iff.1 hv⟩, rfl⟩

theorem maintain_get (store : Pairings) (events : EventSender) (key : String) (now : Timestamp) {id : String}
    (h : id ≠ key) : (store.maintain events key now).1.entries.get id = store.entries.get id := by
  unfold Pairings.maintain
  split
  · rfl
  · simp only [Pairings.put, Table.get_insert, if_neg h]

theorem maintainAll_get (clock : Readings) : ∀ (ids : List String) (n : Nat) (store : Pairings) (events : EventSender)
    {id : String}, id ∉ ids → (Pairings.maintainAll ids n clock store events).1.entries.get id = store.entries.get id
  | [], _, _, _, _, _ => rfl
  | key :: ids, n, store, events, id, h => by
    rw [List.mem_cons, not_or] at h
    rw [Pairings.maintainAll, maintainAll_get clock ids (n + 1) _ _ h.2, maintain_get _ _ _ _ h.1]

theorem maintainAll_effect (clock : Readings) : ∀ (ids : List String) (n : Nat) (store : Pairings)
    (events : EventSender), ids.Nodup → (∀ entry, store.entries.get id = some entry → entry.Sound) →
      Effect ext x id (store.entries.get id) ((Pairings.maintainAll ids n clock store events).1.entries.get id)
  | [], _, _, _, _, _ => .same _
  | key :: ids, n, store, events, hn, hs => by
    rw [List.nodup_cons] at hn
    rw [Pairings.maintainAll]
    by_cases hid : id = key
    · subst hid
      rw [maintainAll_get clock ids (n + 1) _ _ hn.1]
      unfold Pairings.maintain
      cases hg : store.entries.get id with
      | none =>
        simp only [hg]
        exact .absent
      | some entry =>
        simp only [Pairings.put, Table.get_insert_self]
        exact maintain_effect (hs entry hg) _ events
    · rw [← maintain_get store events key (clock.now n) hid]
      refine maintainAll_effect clock ids (n + 1) _ _ hn.2 (fun entry hg => ?_)
      rw [maintain_get _ _ _ _ hid] at hg
      exact hs entry hg

theorem maintenance_effect (hs : ∀ entry, store.entries.get id = some entry → entry.Sound)
    (events : EventSender) (visit : Visit String) (clock : Readings) :
    Effect ext x id (store.entries.get id) ((store.maintenance events visit clock).1.entries.get id) :=
  maintainAll_effect clock _ 0 store events ((visit.perm _).nodup_iff.2 store.entries.nodup) hs

theorem evictable_not_live {oldest : String}
    (h : store.evictable visit = some oldest) (hg : store.entries.get oldest = some entry) : entry.live = false := by
  obtain ⟨e, he, rfl⟩ := Option.map_eq_some_iff.1 h
  obtain ⟨hm, hl⟩ := List.mem_filter.1 (minByKey_mem he)
  rw [Table.get_eq_some.2 ((visit.perm _).mem_iff.1 hm)] at hg
  rw [← Option.some.inj hg]
  exact (by simpa using hl : e.2.live = false ∧ _).1

theorem room_effect {room : Pairings} (h : (if store.entries.size ≥ MAX_RECORDS then
        (store.evictable visit).map (fun oldest => { store with entries := store.entries.erase oldest })
      else some store) = some room) : Effect ext x id (store.entries.get id) (room.entries.get id) := by
  split at h
  · obtain ⟨oldest, ho, rfl⟩ := Option.map_eq_some_iff.1 h
    simp only [Table.get_erase]
    split
    · rename_i hid
      subst hid
      cases hg : store.entries.get id with
      | none => exact .absent
      | some entry => exact .evicted (evictable_not_live ho hg)
    · exact .same _
  · rw [Option.some.inj h]
    exact .same _

theorem create_effect (store : Pairings) (events : EventSender) (path : String) (addToDevice : Option String)
    (draw : Pairings.Draw) (visit : Visit (String × Entry)) (now : Timestamp)
    (hop : x.label.op = .commandEnd (.create path addToDevice) draw visit) :
    x.label.outcome = .command (store.create ext events path addToDevice draw visit now).1 →
      Effect ext x id (store.entries.get id)
        ((store.create ext events path addToDevice draw visit now).2.1.entries.get id) := by
  unfold Pairings.create
  iterate 4
    split
    · exact fun _ => .same _
  simp only
  generalize hroom : (if store.entries.size ≥ MAX_RECORDS then _ else _) = made
  split
  · exact fun _ => .same _
  · exact fun _ => room_effect hroom
  · exact fun _ => room_effect hroom
  · rename_i room key secret hk hs
    rcases tryEmitEvent_cases events (.pairingCreated (encode key.1)
      (room.origin ++ "/pair#p=" ++ encode key.1 ++ "." ++ encode secret.1) (now.after TTL)) with he | he
    · rw [he]
      intro hout
      simp only [Pairings.put, Table.get_insert]
      split
      · rename_i hid
        refine .created _ _ ⟨path, addToDevice, key, visit, ?_, hid.symm, hout⟩
        rw [hop, ← hk, ← hs]
      · exact room_effect hroom
    · rw [he]
      exact fun _ => room_effect hroom

variable {reason : String} {now : Timestamp} {state : State}

/-- **A decision**: an approval of a claimed, pending entry, or the end of a live one. -/
theorem decide_effect (events : EventSender) (hstate : state = .rejected ∨ state = .approved ∧
      (x.label.outcome = .command (.ok .applied) → Approved id now x)) :
    x.label.outcome = .command (Pairings.decide entry id state reason now events).1 →
      Effect ext x id (some entry) (some (Pairings.decide entry id state reason now events).2.1) := by
  cases hl : (entry.expire now).live with
  | false =>
    intro _
    simp only [Pairings.decide, hl, Bool.not_false, true_or, if_true]
    exact .ended hl
  | true =>
    obtain ⟨he, hlive, -⟩ := Entry.expire_live hl
    unfold Pairings.decide
    simp only [he, hlive, Bool.not_true]
    split
    · exact fun _ => .same _
    rename_i hok
    rcases hstate with rfl | ⟨rfl, happ⟩
    · intro _
      generalize hn : Entry.notify _ id events = told
      refine .ended ?_
      have hover : told.2.1.live = false := by
        rw [← hn, Entry.notify_live]
        rfl
      obtain ⟨e | _, _, _⟩ := told <;> exact hover
    · rw [if_pos rfl]
      obtain ⟨hp, hc⟩ : entry.state = .pending ∧ entry.claimHash ≠ none := by simpa using hok
      rcases tryEmitEvent_cases events (.pairingState id "approved" reason) with hsent | hsent
      · rw [hsent]
        exact fun hout => .approved now hp hc (happ hout)
      · rw [hsent]
        exact fun _ => .same _

variable {events : EventSender}

theorem decide_rejected {answer : AdminResult} : (Pairings.decide entry id .rejected reason now events).1 = .ok answer →
      (Pairings.decide entry id .rejected reason now events).2.1.live = false := by
  simp only [Pairings.decide, reduceCtorEq, false_and, or_false, if_false]
  split
  · intro h
    cases h
  · intro _
    generalize hn : Entry.notify _ id events = told
    have hover : told.2.1.live = false := by
      rw [← hn, Entry.notify_live]
      rfl
    obtain ⟨e | _, _, _⟩ := told <;> exact hover

theorem decideOn_effect (store : Pairings) (events : EventSender) (key : String)
    (hstate : state = .rejected ∨ state = .approved ∧
      (x.label.outcome = .command (.ok .applied) → Approved key now x)) :
    x.label.outcome = .command (store.decideOn events key state reason now).1 →
      Effect ext x id (store.entries.get id) ((store.decideOn events key state reason now).2.1.entries.get id) := by
  unfold Pairings.decideOn
  split
  · exact fun _ => .same _
  · split
    · exact fun _ => .same _
    · rename_i entry hg
      exact fun hout => Effect.put hg (decide_effect events hstate hout)

theorem command_effect (store : Pairings) (events : EventSender) (command : PairingCommand) (draw : Pairings.Draw)
    (visit : Visit (String × Entry)) (hop : x.label.op = .commandEnd command draw visit) :
    x.label.outcome = .command (store.command ext events command draw visit (x.label.clock.now 0)).1 →
      Effect ext x id (store.entries.get id)
        ((store.command ext events command draw visit (x.label.clock.now 0)).2.1.entries.get id) := by
  cases command with
  | create path addToDevice => exact create_effect store events path addToDevice draw visit _ hop
  | approve key =>
    exact decideOn_effect store events key (.inr ⟨rfl, fun hout => ⟨draw, visit, hop, hout, rfl⟩⟩)
  | reject key | cancel key => exact decideOn_effect store events key (.inl rfl)

variable {request : ClaimRequest} {userAgent : String} {draw : Pairings.ClaimDraw} {sent : EventSender}

variable {answer : Except Failure ClaimResponse} {nonce : Bytes 32} {login : String}

/-- **A claim**: the end of an entry, a counted failure, or the first claim with the right secret. -/
theorem claimEntry_cases (hs : entry.Sound)

    (h : Pairings.claimEntry ext entry request userAgent login nonce draw now events = .ok (answer, dst, sent)) :
    dst.live = false ∨
      (entry.claimHash = none ∧ entry.failures + 1 < 5 ∧ dst = { entry with failures := entry.failures + 1 }) ∨
      (entry.live = true ∧ entry.claimHash = none ∧ Carries ext request.secret entry.secretHash ∧
        (dst = entry ∨ ∃ gatewayNonce sas, ∃ token : Bytes 32, answer = .ok ⟨gatewayNonce, sas, encode token.1⟩ ∧
          dst = { entry with
            claimHash := some (hash ext token.1), label := some request.deviceLabel, secret := none })) := by
  unfold Pairings.claimEntry at h
  cases hl : (entry.expire now).live with
  | false =>
    left
    have hn := Entry.notify_live (entry.expire now) request.pairingId events
    generalize Entry.notify _ _ _ = told at h hn
    obtain ⟨e | _, noted, _⟩ := told
    · cases h
      exact hn.trans hl
    · have hnoted : noted.live = false := hn.trans hl
      simp only [hnoted] at h
      cases h
      exact hnoted
  | true =>
    obtain ⟨he, hlive, -⟩ := Entry.expire_live hl
    simp only [he, Entry.notify_quiet (hs.quiet hlive), hlive, Bool.not_true] at h
    rw [if_neg (by decide)] at h
    split at h
    · cases h
      rcases entry.fail_cases request.pairingId events true with hf | ⟨hf, -⟩
      · exact .inl hf
      · cases hf
    rename_i hclaim
    have hnone : entry.claimHash = none := by simpa using hclaim
    split at h
    · cases h
      rcases entry.fail_cases request.pairingId events false with hf | ⟨-, h5, hf⟩
      · exact .inl hf
      · exact .inr (.inl ⟨hnone, h5, hf⟩)
    rename_i hmatch
    have hcarries : Carries ext request.secret entry.secretHash := by
      obtain ⟨hm, hsome⟩ : matchesHash ext entry.secretHash ((decode 32 request.secret).getD (Bytes.zero 32)).1 = true ∧
          decode 32 request.secret ≠ none := by simpa using hmatch
      obtain ⟨supplied, hd⟩ := Option.ne_none_iff_exists'.1 hsome
      rw [hd] at hm
      exact ⟨supplied, hd, matchesHash_iff.1 hm⟩
    refine .inr (.inr ⟨hlive, hnone, hcarries, ?_⟩)
    split at h
    iterate 3
      · cases h
        exact .inl rfl
    · rename_i gatewayNonce token secret _ _ _
      split at h
      · cases h
      · rename_i sas _
        rcases tryEmitEvent_cases events
          (.pairingClaimed request.pairingId request.deviceLabel sas login userAgent) with hsent | hsent
        · rw [hsent] at h
          cases h
          exact .inr ⟨_, _, token, rfl, rfl⟩
        · rw [hsent] at h
          cases h
          exact .inl rfl

theorem claimEntry_effect (hs : entry.Sound)

    (h : Pairings.claimEntry ext entry request userAgent login nonce draw now events = .ok (answer, dst, sent))
    (hop : x.label.op = .claim request userAgent draw) (hout : x.label.outcome = .claim answer)
    (hsrc : x.src.store.entries.get request.pairingId = some entry) :
    Effect ext x request.pairingId (some entry) (some dst) := by
  rcases claimEntry_cases hs h with hover | ⟨-, h5, rfl⟩ | ⟨hlive, hnone, hcarries, rfl | ⟨_, _, token, rfl, rfl⟩⟩
  · exact .ended hover
  · exact .kept _ _ (Nat.le_succ _) (.inl h5)
  · exact .same _
  · exact .claimed token _ (hs.unclaimed hlive hnone) hnone ⟨request, userAgent, draw, _, _, entry, hop, rfl, hcarries,
      hout, hsrc, hs.unclaimed hlive hnone⟩

theorem claim_effect (hs : ∀ id entry, store.entries.get id = some entry → entry.Sound) {clock : Readings} {dst : Pairings}
    (h : store.claim ext events request userAgent draw clock = .ok (answer, dst, sent))
    (hop : x.label.op = .claim request userAgent draw) (hout : x.label.outcome = .claim answer)
    (hsrc : x.src.store = store) : Effect ext x id (store.entries.get id) (dst.entries.get id) := by
  unfold Pairings.claim at h
  split at h
  · cases h
    exact .same _
  · split at h
    · cases h
      exact .same _
    · cases h
      exact .same _
    · rename_i nonce entry _ hg
      split at h
      · cases h
      · rename_i answer' entry' sent' he
        cases h
        exact Effect.put hg (claimEntry_effect (hs _ _ hg) he hop hout (hsrc ▸ hg))

/-- **The token check of a status call, after the expiry check.** -/
theorem authenticate_expire (ext : External) (entry : Entry) (request : StatusRequest) (now : Timestamp) (events : EventSender) :
    (∃ e dst sent, Pairings.authenticate ext (entry.expire now) request events = (.error e, dst, sent) ∧
      (dst.live = false ∨ entry.failures + 1 < 5 ∧ dst = { entry with failures := entry.failures + 1 })) ∨
    (Pairings.authenticate ext (entry.expire now) request events = (.ok (), entry.expire now, events) ∧
      ((entry.expire now).live = false ∨ entry.expire now = entry ∧ entry.live = true ∧
        ∃ digest, entry.claimHash = some digest ∧ Carries ext request.claimToken digest)) := by
  rcases authenticate_cases ext (entry.expire now) request events with
    ⟨e, dst, sent, ha, hd⟩ | ⟨digest, hd, hc, ha⟩
  · refine .inl ⟨e, dst, sent, ha, ?_⟩
    rcases hd with hd | ⟨h5, rfl⟩
    · exact .inl hd
    · cases hl : (entry.expire now).live with
      | false => exact .inl hl
      | true =>
        obtain ⟨he, -, -⟩ := Entry.expire_live hl
        rw [he] at h5 ⊢
        exact .inr ⟨h5, rfl⟩
  · refine .inr ⟨ha, ?_⟩
    cases hl : (entry.expire now).live with
    | false => exact .inl rfl
    | true =>
      obtain ⟨he, hlive, -⟩ := Entry.expire_live hl
      exact .inr ⟨he, hlive, digest, he ▸ hd, hc⟩

theorem statusBegin_effect (store : Pairings) (events : EventSender) (request : StatusRequest) (clock : Readings) :
    Effect ext x id (store.entries.get id) ((store.statusBegin ext events request clock).2.1.entries.get id) := by
  unfold Pairings.statusBegin
  split
  · exact .same _
  split
  · exact .same _
  rename_i entry hg
  rcases authenticate_expire ext entry request (clock.now 0) events with
    ⟨e, dst, sent, ha, hd | ⟨h5, rfl⟩⟩ | ⟨ha, hd | ⟨he, -, -⟩⟩ <;> rw [ha]
  · exact Effect.put hg (.ended hd)
  · exact Effect.put hg (.kept _ _ (Nat.le_succ _) (.inl h5))
  · simp only
    split
    · exact Effect.put hg (.ended hd)
    · exact Effect.put hg (.ended hd)
  · simp only [he]
    split
    · exact Effect.put hg (.same _)
    · exact Effect.put hg (.kept entry.failures _ (Nat.le_refl _) (.inr rfl))

theorem release_get (store : Pairings) (poll : Poll) : (store.release poll).entries.get id =
    if id = poll.request.pairingId then
      (store.entries.get id).map (fun entry => { entry with polls := entry.polls + 1 })
    else store.entries.get id := by
  unfold Pairings.release
  simp only
  split
  · rename_i hg
    split
    · rename_i hid
      rw [hid, hg]
      rfl
    · rfl
  · rename_i entry hg
    simp only [Pairings.put, Table.get_insert]
    split
    · rename_i hid
      rw [hid, hg]
      rfl
    · rfl

theorem release_effect (store : Pairings) (poll : Poll) :
    Effect ext x id (store.entries.get id) ((store.release poll).entries.get id) := by
  rw [release_get]
  split
  · cases store.entries.get id with
    | none => exact .absent
    | some entry => exact .kept entry.failures _ (Nat.le_refl _) (.inr rfl)
  · exact .same _

/-- **The answer of a status call**: whatever becomes of its permits. -/
theorem statusEntry_effect (hs : entry.Sound) (poll : Poll) (ticket : Option (Bytes 32))
    (events : EventSender) (polls : Nat) (hop : x.label.op = .statusEnd poll ticket) :
    x.label.outcome = .status (Pairings.statusEntry ext entry poll.request ticket x.label.clock events).1 →
      Effect ext x poll.request.pairingId (some entry)
        (some { (Pairings.statusEntry ext entry poll.request ticket x.label.clock events).2.1 with polls }) := by
  unfold Pairings.statusEntry
  rcases authenticate_expire ext entry poll.request (x.label.clock.now 0) events with
    ⟨e, dst, sent, ha, hd | ⟨h5, rfl⟩⟩ | ⟨ha, hd | ⟨he, hlive, digest, hd, hc⟩⟩ <;> rw [ha]
  · exact fun _ => .ended hd
  · exact fun _ => .kept _ _ (Nat.le_succ _) (.inl h5)
  · intro _
    have hn := Entry.notify_live (entry.expire (x.label.clock.now 0)) poll.request.pairingId events
    simp only
    generalize Entry.notify _ _ _ = told at hn ⊢
    obtain ⟨e | _, dst, sent⟩ := told
    · exact .ended (hn.trans hd)
    · have hover : dst.live = false := hn.trans hd
      simp only
      rw [if_neg (fun hstate => by simp [Entry.live_of_approved hstate] at hover)]
      exact .ended hover
  · simp only [he, Entry.notify_quiet (hs.quiet hlive)]
    split
    · rename_i hstate
      split
      · exact fun _ => .kept entry.failures _ (Nat.le_refl _) (.inr rfl)
      · rename_i ticket
        intro hout
        exact .issued ticket _ polls hstate hd ⟨poll, hop, rfl, hc, hstate ▸ hout, rfl⟩
    · exact fun _ => .kept entry.failures _ (Nat.le_refl _) (.inr rfl)

theorem statusEnd_effect (hs : ∀ id entry, store.entries.get id = some entry → entry.Sound)
    (poll : Poll) (ticket : Option (Bytes 32)) (events : EventSender) (hop : x.label.op = .statusEnd poll ticket) :
    x.label.outcome = .status (store.statusEnd ext events poll ticket x.label.clock).1 →
      Effect ext x id (store.entries.get id)
        ((store.statusEnd ext events poll ticket x.label.clock).2.1.entries.get id) := by
  unfold Pairings.statusEnd
  split
  · exact fun _ => release_effect store poll
  rename_i entry hg
  intro hout
  simp only [release_get]
  simp only [Pairings.put, Table.get_insert]
  split
  · rename_i hid
    rw [hid, hg]
    exact statusEntry_effect (hs _ _ hg) poll ticket events _ hop hout
  · exact .same _

/-- **The trade of a ticket**: the current one, in time, of an approved entry. -/
theorem consumeEntry_effect (entry : Entry) (text : String) (supplied : Bytes 32) (hd : decode 32 text = some supplied)
    (hop : x.label.op = .consumeTicket id text) :
    x.label.outcome = .registration (Pairings.consumeEntry ext entry id supplied x.label.clock).1 →
      Effect ext x id (some entry) (some (Pairings.consumeEntry ext entry id supplied x.label.clock).2) := by
  cases hl : (entry.expire (x.label.clock.now 0)).live with
  | false =>
    intro _
    unfold Pairings.consumeEntry
    simp only
    split
    · exact .ended hl
    · split
      · exact .ended hl
      · rename_i hok
        rw [not_or, not_or] at hok
        rw [Entry.live_of_approved (not_not.1 hok.2.2)] at hl
        cases hl
  | true =>
    obtain ⟨he, hlive, -⟩ := Entry.expire_live hl
    unfold Pairings.consumeEntry
    simp only [he]
    split
    · exact fun _ => .same _
    · rename_i current hcur
      split
      · exact fun _ => .same _
      · rename_i hok
        rw [not_or, not_or] at hok
        obtain ⟨hm, hage, hstate⟩ := hok
        split
        · exact fun _ => .same _
        · rename_i label _
          intro hout
          refine .consumed (x.label.clock.now 1) (not_not.1 hstate) hcur (not_le.1 hage)
            ⟨text, hop, ⟨supplied, hd, ?_⟩, hout, rfl, rfl, rfl⟩ rfl
          exact matchesHash_iff.1 (by simpa using hm)

theorem consumeTicket_effect (store : Pairings) (key text : String) (hop : x.label.op = .consumeTicket key text) :
    x.label.outcome = .registration (store.consumeTicket ext key text x.label.clock).1 →
      Effect ext x id (store.entries.get id) ((store.consumeTicket ext key text x.label.clock).2.entries.get id) := by
  unfold Pairings.consumeTicket
  split
  · exact fun _ => .same _
  · exact fun _ => .same _
  · rename_i supplied entry hd hg
    exact fun hout => Effect.put hg (consumeEntry_effect entry text supplied hd hop hout)

theorem retryRegistration_effect (store : Pairings) (registration : Registration) (clock : Readings) :
    Effect ext x id (store.entries.get id) ((store.retryRegistration registration clock).2.entries.get id) := by
  unfold Pairings.retryRegistration
  split
  · exact .same _
  rename_i entry hg
  refine Effect.put hg ?_
  cases hl : (entry.expire (clock.now 0)).live with
  | false =>
    rw [if_neg (fun h => by simp [Entry.live_of_registering h.1] at hl)]
    exact .ended hl
  | true =>
    obtain ⟨he, -, -⟩ := Entry.expire_live hl
    rw [he]
    split
    · rename_i h
      exact .retried h.1
    · exact .same _

theorem finish_effect (store : Pairings) (registration : Registration) (commit : Unit → Except Failure Unit)
    (clock : Readings) :
    Effect ext x id (store.entries.get id) ((store.finish registration commit clock).2.entries.get id) := by
  unfold Pairings.finish
  split
  · exact .same _
  rename_i entry hg
  have hexp : Effect ext x registration.pairingId (some entry) (some (entry.expire (clock.now 0))) := by
    cases hl : (entry.expire (clock.now 0)).live with
    | false => exact .ended hl
    | true =>
      rw [(Entry.expire_live hl).1]
      exact .same _
  simp only
  split
  · exact Effect.put hg hexp
  · split
    · exact Effect.put hg hexp
    · split
      · exact Effect.put hg hexp
      · exact Effect.put hg (.ended rfl)

end Effects

variable {label : Label}

variable {ext : External}

theorem Step.store {s t : Desk} (h : Step ext s label t) :
    ∃ events, s.store.step ext s.events label.op label.clock = .ok (label.outcome, t.store, events) := by
  obtain ⟨-, -, h⟩ := h
  unfold Desk.step at h
  split at h
  · cases h
  · rename_i outcome store events hstep
    cases h
    exact ⟨events, hstep⟩

/-- **Every step has one of the effects on every pairing.** -/
theorem step_effect {s t : Desk}
    (hs : ∀ id entry, s.store.entries.get id = some entry → entry.Sound) (h : Step ext s label t) (id : String) :
    Effect ext ⟨s, label, t⟩ id (s.store.entries.get id) (t.store.entries.get id) := by
  obtain ⟨events, h⟩ := h.store
  obtain ⟨op, clock, outcome⟩ := label
  have store_eq : ∀ {r : Pairings × EventSender}, r = (t.store, events) → t.store = r.1 := fun h => by rw [h]
  cases op with
  | claim request userAgent draw =>
    simp only [Pairings.step] at h
    split at h
    · cases h
    · rename_i result hc
      simp only [Except.ok.injEq, Prod.mk.injEq] at h
      have hc : s.store.claim ext s.events request userAgent draw clock = .ok (result.1, t.store, events) := by
        rw [hc, ← h.2]
      exact claim_effect hs hc rfl h.1.symm rfl
  | commandBegin _ visit | maintenance visit =>
    simp only [Pairings.step, Except.ok.injEq, Prod.mk.injEq] at h
    rw [store_eq h.2]
    exact maintenance_effect (hs id) s.events visit clock
  | commandEnd command draw visit =>
    simp only [Pairings.step, Except.ok.injEq, Prod.mk.injEq] at h
    rw [store_eq h.2]
    exact command_effect s.store s.events command draw visit rfl h.1.symm
  | statusBegin request =>
    simp only [Pairings.step, Except.ok.injEq, Prod.mk.injEq] at h
    rw [store_eq h.2]
    exact statusBegin_effect s.store s.events request clock
  | statusEnd poll ticket =>
    simp only [Pairings.step, Except.ok.injEq, Prod.mk.injEq] at h
    rw [store_eq h.2]
    exact statusEnd_effect hs poll ticket s.events rfl h.1.symm
  | statusDropped poll =>
    simp only [Pairings.step, Except.ok.injEq, Prod.mk.injEq] at h
    rw [← h.2.1]
    exact release_effect s.store poll
  | consumeTicket pairingId ticket =>
    simp only [Pairings.step, Except.ok.injEq, Prod.mk.injEq] at h
    rw [← h.2.1]
    exact consumeTicket_effect s.store pairingId ticket rfl h.1.symm
  | retryRegistration registration =>
    simp only [Pairings.step, Except.ok.injEq, Prod.mk.injEq] at h
    rw [← h.2.1]
    exact retryRegistration_effect s.store registration clock
  | finish registration commit =>
    simp only [Pairings.step, Except.ok.injEq, Prod.mk.injEq] at h
    rw [← h.2.1]
    exact finish_effect s.store registration _ clock

end Pairing
end Yuzora
