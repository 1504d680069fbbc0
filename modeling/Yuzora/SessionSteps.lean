import Yuzora.SessionLimits
/-!
# SessionSteps — every operation is made of moves

One lemma for each operation: it does not panic, and what it does is a preparation, at most one change, and what settles
it.  `Limits` is assumed where an operation relies on it.
-/
namespace Yuzora

open Pairing (Registration)

namespace Identity

open List Table
open Relation (ReflTransGen)

variable {E : Elevations}

/-! ## Sessions -/

theorem prepares_foldl (events : EventSender) : ∀ (ids : List (Bytes 32)) (self : Identity),
    Prepares (self, events) (ids.foldl invalidateSession self, events)
  | [], _ => .refl
  | id :: ids, self => (prepares_foldl events ids (self.invalidateSession id)).head (.drop self events id)

variable (self : Identity)

theorem purgeExpired_settles (now : Timestamp) (events : EventSender) :
    Settles E (self, events) (self.purgeExpired now, events) :=
  (prepares_foldl events _ self).settles

theorem invalidateSession_settles (id : Bytes 32) (events : EventSender) :
    Settles E (self, events) (self.invalidateSession id, events) :=
  .single (.prepare (.drop self events id))

theorem validate_spec (id : Bytes 32) (rpId : String) (scope : Scope) (now : Timestamp) :
    ∃ answer self', self.validate id rpId scope now = .ok (answer, self') ∧
      ∀ E events, Settles E (self, events) (self', events) := by
  rcases self.validate_cases id rpId scope now with h | h | ⟨session, device, hv, h⟩
  · exact ⟨_, _, h, fun _ _ => .refl⟩
  · exact ⟨_, _, h, fun _ events => self.invalidateSession_settles id events⟩
  · exact ⟨_, _, h, fun _ _ => .single (.touch now hv.hasSession hv.hasDevice)⟩

theorem revalidate_spec (ctx : AuthContext) (scope : Scope) (now : Timestamp) :
    ∃ answer self', self.revalidate ctx scope now = .ok (answer, self') ∧
      ∀ E events, Settles E (self, events) (self', events) := by
  rcases self.revalidate_cases ctx scope now with h | h | ⟨session, device, hv, -, h⟩
  · exact ⟨_, _, h, fun _ _ => .refl⟩
  · exact ⟨_, _, h, fun _ events => self.invalidateSession_settles ctx.sessionId events⟩
  · exact ⟨_, _, h, fun _ _ => .single (.touch now hv.hasSession hv.hasDevice)⟩

theorem authenticate_spec (ext : External) (self : Identity) (headers : HeaderMap) (rpId : String) (scope : Scope)
    (clock : Readings) : ∃ ctx self', self.authenticate ext headers rpId scope clock = .ok (ctx, self') ∧
      ∀ E events, Settles E (self, events) (self', events) := by
  unfold authenticate
  split
  · exact ⟨_, _, rfl, fun _ _ => .refl⟩
  · rename_i id _
    split
    · split
      · exact ⟨_, _, rfl, fun _ _ => .refl⟩
      · exact ⟨_, _, rfl, fun _ _ => .refl⟩
      · split
        · exact ⟨_, _, rfl, fun _ _ => .refl⟩
        · obtain ⟨answer, self', h, hs⟩ := self.validate_spec id rpId .view (clock.now 0)
          rw [h]
          cases answer with
          | false | true => exact ⟨_, _, rfl, hs⟩
    · exact ⟨_, _, rfl, fun _ _ => .refl⟩

/-- **An elevation never panics, and sets a deadline no later than its own maximum.** -/
theorem elevate_spec (ctx : AuthContext) (scope : Scope) (clock : Readings) (events : EventSender)
    (hok : ∀ «until» self', self.elevate ctx scope clock = .ok (some «until», self') →
      E ctx.sessionId scope (clock.now 1) «until») :
    ∃ answer self', self.elevate ctx scope clock = .ok (answer, self') ∧ Settles E (self, events) (self', events) := by
  obtain ⟨answer, self₁, hr, hall⟩ := self.revalidate_spec ctx .view (clock.now 0)
  have hs := hall E events
  unfold elevate at hok ⊢
  rw [hr] at hok ⊢
  cases answer with
  | false => exact ⟨_, _, rfl, hs⟩
  | true =>
    simp only at hok ⊢
    split
    · exact ⟨_, _, rfl, hs⟩
    · rename_i session hsid
      simp only [hsid] at hok
      split
      · exact ⟨_, _, rfl, hs⟩
      · rename_i hact
        rw [if_neg hact] at hok
        split
        · exact ⟨_, _, rfl, hs⟩
        · rename_i cap hcap
          simp only [hcap] at hok
          split
          · exact ⟨_, _, rfl, hs⟩
          · rename_i hle
            rw [if_neg hle] at hok
            split
            · rename_i hnone
              cases scope with
              | view => simp [elevationCap] at hcap
              | control | full => cases hnone
            · rename_i session' he
              simp only [he] at hok
              refine ⟨_, _, rfl, hs.tail (.elevate hsid he ?_ (hok _ _ rfl))⟩
              exact le_trans (min_le_left _ _) (le_trans (min_le_left _ _) (min_le_left _ _))

/-! ## Notifications -/

variable {self : Identity} {id : String} {snapshot : Option Device}

theorem retryNotification_settles (events : EventSender) (h : self.notifications.get id = some snapshot) :
    Settles E (self, events) (self.retryNotification id snapshot events) := by
  unfold retryNotification
  rcases events.tryEmit_cases (notification id snapshot) with he | he
  · rw [he]
    exact .single (.accept h)
  · rw [he]
    exact .single (.refuse self events)

variable {device : Device}

theorem notifySnapshot_of_get (events : EventSender) (h : self.devices.get id = some device) :
    self.notifySnapshot id events =
      { self with
        dirtyDevices := self.dirtyDevices.erase id
        notifications := self.notifications.insert id (some device) }.retryNotification id (some device) events := by
  simp only [notifySnapshot, h, retryNotification]

theorem notifySnapshot_settles (self : Identity) (id : String) (events : EventSender) :
    Settles E (self, events) (self.notifySnapshot id events) := by
  cases h : self.devices.get id with
  | none =>
    have he : self.notifySnapshot id events = ({ self with dirtyDevices := self.dirtyDevices.erase id }, events) := by
      simp only [notifySnapshot, h]
    rw [he]
    exact .single (.forget h)
  | some device =>
    rw [notifySnapshot_of_get events h]
    exact .head (.note h) (retryNotification_settles events (get_insert_self _ _ _))

theorem retryNotification_frame (self : Identity) (id : String) (snapshot : Option Device) (events : EventSender) :
    (self.retryNotification id snapshot events).1.devices = self.devices ∧
      (self.retryNotification id snapshot events).1.sessions = self.sessions ∧
      ∀ j, j ≠ id → (self.retryNotification id snapshot events).1.notifications.get j = self.notifications.get j := by
  unfold retryNotification
  rcases events.tryEmit_cases (notification id snapshot) with he | he
  · rw [he]
    exact ⟨rfl, rfl, fun j hj => by simp [get_erase, hj]⟩
  · rw [he]
    exact ⟨rfl, rfl, fun _ _ => rfl⟩

theorem notifySnapshot_frame (self : Identity) (id : String) (events : EventSender) :
    (self.notifySnapshot id events).1.devices = self.devices ∧
      (self.notifySnapshot id events).1.sessions = self.sessions := by
  cases h : self.devices.get id with
  | none => simp only [notifySnapshot, h, and_self]
  | some device =>
    rw [notifySnapshot_of_get events h]
    obtain ⟨h1, h2, -⟩ := retryNotification_frame _ id (some device) events
    exact ⟨h1, h2⟩

theorem notifyDirty_settles : ∀ (ids : List String) (self : Identity) (events : EventSender),
    Settles E (self, events) (notifyDirty ids self events)
  | [], _, _ => .refl
  | id :: ids, self, events =>
    (self.notifySnapshot_settles id events).trans (notifyDirty_settles ids _ _)

theorem notifyDirty_dirty : ∀ (ids : List String) (self : Identity) (dirty : Table String Unit) (events : EventSender),
    notifyDirty ids { self with dirtyDevices := dirty } events =
      ({ (notifyDirty ids self events).1 with dirtyDevices := ids.foldl Table.erase dirty },
        (notifyDirty ids self events).2)
  | [], _, _, _ => rfl
  | id :: ids, self, dirty, events => by
    have h : { self with dirtyDevices := dirty }.notifySnapshot id events =
        ({ (self.notifySnapshot id events).1 with dirtyDevices := dirty.erase id },
          (self.notifySnapshot id events).2) := by
      unfold notifySnapshot
      cases hd : self.devices.get id with
      | none => simp only [hd]
      | some device =>
        simp only [hd]
        rcases events.tryEmit_cases (notification id (some device)) with he | he <;> rw [he]
    simp only [notifyDirty, h]
    rw [notifyDirty_dirty ids]
    rfl

theorem foldl_erase_entries : ∀ (ids : List String) (dirty : Table String Unit),
    (ids.foldl Table.erase dirty).entries = dirty.entries.filter (fun e => decide (e.1 ∉ ids))
  | [], dirty => by simp
  | id :: ids, dirty => by
    rw [foldl_cons, foldl_erase_entries ids]
    simp only [Table.erase, Table.retain, filter_filter, mem_cons, not_or]
    exact filter_congr (fun e _ => by by_cases h : e.1 = id <;> simp [h])

theorem table_ext {K V : Type} {t u : Table K V} (h : t.entries = u.entries) : t = u := by
  cases t
  cases u
  cases h
  rfl

theorem notifyDirty_taken (ids : List String) (self : Identity) (events : EventSender)
    (h : ∀ id ∈ self.dirtyDevices.keys, id ∈ ids) :
    notifyDirty ids { self with dirtyDevices := Table.empty } events = notifyDirty ids self events := by
  have h1 := notifyDirty_dirty ids self Table.empty events
  have h2 := notifyDirty_dirty ids self self.dirtyDevices events
  have h3 : ids.foldl Table.erase (Table.empty : Table String Unit) = ids.foldl Table.erase self.dirtyDevices := by
    apply table_ext
    rw [foldl_erase_entries, foldl_erase_entries]
    symm
    rw [filter_eq_nil_iff.2 (fun e he => by simpa using h e.1 (mem_map_of_mem he))]
    rfl
  rw [h1, h3]
  exact h2.symm

theorem retryNotifications_settles : ∀ (es : List (String × Option Device)) (self : Identity) (events : EventSender),
    (es.map Prod.fst).Nodup → (∀ e ∈ es, self.notifications.get e.1 = some e.2) →
      Settles E (self, events) (retryNotifications es self events)
  | [], _, _, _, _ => .refl
  | e :: es, self, events, hn, hm => by
    rw [map_cons, nodup_cons] at hn
    have h1 := retryNotification_settles (E := E) events (hm e mem_cons_self)
    obtain ⟨-, -, hf⟩ := retryNotification_frame self e.1 e.2 events
    refine h1.trans (retryNotifications_settles es _ _ hn.2 (fun e' he' => ?_))
    have hne : e'.1 ≠ e.1 := fun h => hn.1 (h ▸ mem_map.2 ⟨e', he', rfl⟩)
    exact (hf e'.1 hne).trans (hm e' (mem_cons_of_mem _ he'))

/-- **The maintenance pass only settles.** -/
theorem maintenance_settles (self : Identity) (events : EventSender) (dirty : Visit String)
    (deferred : Visit (String × Option Device)) (clock : Readings) :
    Settles E (self, events) (self.maintenance events dirty deferred clock) := by
  unfold maintenance
  simp only
  rw [notifyDirty_taken _ _ _ (fun id hid => (dirty.perm _).mem_iff.2 hid)]
  have h1 := self.purgeExpired_settles (E := E) (clock.now 0) events
  have h2 := notifyDirty_settles (E := E) (dirty.order (self.purgeExpired (clock.now 0)).dirtyDevices.keys)
    (self.purgeExpired (clock.now 0)) events
  refine (h1.trans h2).trans ?_
  generalize notifyDirty _ _ events = noted
  obtain ⟨self', events'⟩ := noted
  have hp := deferred.perm self'.notifications.entries
  refine retryNotifications_settles _ self' events' ?_ (fun e he => get_eq_some.2 (hp.mem_iff.1 he))
  exact (hp.map Prod.fst).nodup_iff.2 self'.notifications.nodup

/-! ## Changes of a device -/

theorem store_invalidate (self : Identity) (id : String) (snapshot : Option Device) (dirty : Table String Unit)
    (failures : Table String Nat) (events : EventSender) :
    ∃ m : Identity, Prepares (self, events) (m, events) ∧ m.NoSession id ∧ m.devices = self.devices ∧
      m.notifications = self.notifications ∧ m.dirtyDevices = self.dirtyDevices ∧ m.policy = self.policy ∧
      ({ self with dirtyDevices := dirty, failures }.store id snapshot).invalidateDevice id =
        { m.store id snapshot with dirtyDevices := dirty } := by
  obtain ⟨hd, hn, hq, -, hp⟩ := foldl_invalidate_frame (self.sessionIds (fun s => decide (s.deviceId = id))) self
  refine ⟨{ self.invalidateDevice id with failures }, (prepares_foldl events _ self).tail (.failures _ _ failures),
    fun _ _ h => (invalidateDevice_sessions h).2, hd, hn, hq, hp, ?_⟩
  have h := foldl_invalidate_with (self.store id snapshot).devices dirty failures
    (self.sessionIds (fun s => decide (s.deviceId = id))) self
  simp only [store, invalidateDevice] at h ⊢
  rw [hd]
  exact h

/-- **A tightening is committed, then announced or kept.** -/
theorem tighten_moves (self : Identity) {old : Device}
    {failures : Table String Nat} (events : EventSender) (hold : self.devices.get id = some old)
    (hid : ∀ device, snapshot = some device → device.deviceId = old.deviceId) (self' : Identity)
    (hself : self' = ({ self with dirtyDevices := self.dirtyDevices.erase id, failures }.store id snapshot).invalidateDevice id) :
    Moves E (self, events)
      ({ self' with notifications := self'.notifications.insert id snapshot }.retryNotification id snapshot events) := by
  obtain ⟨m, hm, hn, hd, hno, hq, -, he⟩ :=
    self.store_invalidate id snapshot (self.dirtyDevices.erase id) failures events
  refine ⟨_, _, hm, .inr (.tighten hn (hd ▸ hold) hid), ?_⟩
  rw [hself, he, hq]
  exact retryNotification_settles events (get_insert_self _ _ _)

/-- **A widening is announced, then committed.** -/
theorem publish_moves (self : Identity) {event : Event} {dirty : Table String Unit}
    (failures : Table String Nat) (events : EventSender) (hn : self.notifications.get id = none)
    (hold : ∀ old, self.devices.get id = some old → device.deviceId = old.deviceId)
    (hnew : self.devices.get id = none →
      device.deviceId = id ∧ self.notifications.size = 0 ∧ self.devices.size < self.policy.maxDevices)
    (he : event = .deviceUpdated device ∨ event = .deviceRegistered device)
    (hdirty : dirty = self.dirtyDevices ∨ dirty = self.dirtyDevices.erase id) :
    Moves E (self, events)
      (({ self with dirtyDevices := dirty, failures }.store id (some device)).invalidateDevice id,
        events.took event) := by
  obtain ⟨m, hm, hns, hd, hno, hq, hp, heq⟩ := self.store_invalidate id (some device) dirty failures events
  rw [heq]
  refine ⟨_, _, hm, .inr (.publish hns (hno ▸ hn) (hd ▸ hold) ?_ he (hq ▸ hdirty)), .refl⟩
  rw [hd, hno, hp]
  exact hnew

theorem decision_deviceId {command : DeviceCommand} {d : Decision} (h : decision device command = .ok d) :
    (∀ device', d.snapshot = some device' → device'.deviceId = device.deviceId) ∧
      (d.widening = true → d.snapshot.isSome) := by
  cases command with
  | unlock id | revoke id =>
    cases h
    simp
  | update id label grants =>
    simp only [decision] at h
    split at h
    · cases h
    · split at h
      · cases h
      · split at h
        · cases h
          simp
        · split at h
          · cases h
          · cases h
            simp

/-- **A desktop command is one change**, and one that succeeds leaves the device no session. -/
theorem command_spec (self : Identity) (command : DeviceCommand) (events : EventSender) :
    Moves E (self, events) (self.command command events).2 ∧
      (∀ answer, (self.command command events).1 = .ok answer →
        (self.command command events).2.1.NoSession command.deviceId) := by
  have refl : Moves E (self, events) (self, events) := Settles.moves .refl
  have commit_eq : ∀ snapshot, ∃ failures, self.commit command.deviceId command snapshot =
      ({ self with dirtyDevices := self.dirtyDevices.erase command.deviceId, failures }.store
        command.deviceId snapshot).invalidateDevice command.deviceId := by
    intro snapshot
    cases command with
    | update _ _ _ => exact ⟨self.failures, rfl⟩
    | revoke _ | unlock _ => exact ⟨_, rfl⟩
  have noSession : ∀ snapshot, (self.commit command.deviceId command snapshot).NoSession command.deviceId := by
    intro snapshot sid session hs
    exact (invalidateDevice_sessions hs).2
  unfold Identity.command
  simp only
  split
  · exact ⟨refl, fun _ h => by cases h⟩
  · split
    · exact ⟨refl, fun _ h => by cases h⟩
    · rename_i device hd
      split
      · exact ⟨refl, fun _ h => by cases h⟩
      · rename_i snapshot name hdec
        split
        · exact ⟨refl, fun _ h => by cases h⟩
        · rename_i hn
          obtain ⟨hid, hsome⟩ := decision_deviceId hdec
          obtain ⟨device', rfl⟩ := Option.isSome_iff_exists.1 (hsome rfl)
          rcases tryEmitEvent_cases events (notification command.deviceId (some device')) with he | he
          · rw [he]
            obtain ⟨failures, hc⟩ := commit_eq (some device')
            refine ⟨?_, fun _ _ => noSession _⟩
            simp only [hc]
            refine publish_moves self failures events (contains_eq_false.1 (by simpa using hn)) ?_ ?_ (.inl rfl) (.inr rfl)
            · intro old hold
              rw [hd] at hold
              cases hold
              exact hid device' rfl
            · intro hnone
              rw [hd] at hnone
              cases hnone
          · rw [he]
            exact ⟨Settles.moves (.single (.refuse self events)), fun _ h => by cases h⟩
      · rename_i snapshot name hdec
        obtain ⟨hid, -⟩ := decision_deviceId hdec
        obtain ⟨failures, hc⟩ := commit_eq snapshot
        have hm := tighten_moves (E := E) self events hd hid _ hc
        have hns := noSession snapshot
        unfold retryNotification at hm
        rcases events.tryEmit_cases (notification command.deviceId snapshot) with he | he
        · rw [he] at hm ⊢
          exact ⟨hm, fun _ _ => hns⟩
        · rw [he] at hm ⊢
          exact ⟨hm, fun _ _ => hns⟩

theorem enrolled_ok {pairing : Registration} {now : Timestamp} (h : self.enrolled pairing id now = .ok device) :
    (pairing.addToDevice = some id ∧ self.notifications.get id = none ∧ self.devices.get id = some device) ∨
      (pairing.addToDevice = none ∧ self.notifications.size = 0 ∧ self.devices.size < self.policy.maxDevices ∧
        self.devices.get id = none ∧ device.deviceId = id) := by
  unfold enrolled at h
  split at h
  · rename_i target ht
    split at h
    · cases h
    · rename_i hid
      obtain rfl := not_not.1 hid
      split at h
      · cases h
      · rename_i hn
        refine .inl ⟨ht, contains_eq_false.1 (by simpa using hn), ?_⟩
        unfold registrationTarget at h
        split at h
        · cases h
        · rename_i hd
          split at h
          · rw [hd, Except.ok.inj h]
          · cases h
  · rename_i ht
    split at h
    · cases h
    · rename_i hn
      split at h
      · cases h
      · rename_i hfull
        obtain ⟨hlt, hc⟩ := not_or.1 hfull
        cases h
        exact .inr ⟨ht, not_not.1 hn, by omega, contains_eq_false.1 (by simpa using hc), rfl⟩

theorem get_none_of_size {K V : Type} [DecidableEq K] {t : Table K V} (h : t.size = 0) (k : K) : t.get k = none :=
  get_eq_none.2 (fun v hv => by rw [length_eq_zero_iff.1 h] at hv; cases hv)

/-- **A verified registration is one change**, and one that succeeds leaves the device no session. -/
theorem registerVerified_spec (ext : External) (self : Identity) (pairing : Registration)
    (verified : VerifiedRegistration) (events : EventSender) (clock : Readings) :
    Moves E (self, events) (self.registerVerified ext pairing verified events clock).2 ∧
      (∀ id, (self.registerVerified ext pairing verified events clock).1 = .ok id →
        (self.registerVerified ext pairing verified events clock).2.1.NoSession id) := by
  have refl : Moves E (self, events) (self, events) := Settles.moves .refl
  unfold registerVerified
  simp only
  split
  · exact ⟨refl, nofun⟩
  · split
    · exact ⟨refl, nofun⟩
    · split
      · exact ⟨refl, nofun⟩
      · rename_i device hdev
        split
        · exact ⟨refl, nofun⟩
        · have hevent : ∀ device' : Device, (if pairing.addToDevice.isSome then Event.deviceUpdated device'
              else Event.deviceRegistered device') = .deviceUpdated device' ∨
              (if pairing.addToDevice.isSome then Event.deviceUpdated device'
              else Event.deviceRegistered device') = .deviceRegistered device' := by
            intro device'
            split
            · exact .inl rfl
            · exact .inr rfl
          generalize hdev' : { device with credentials := device.credentials ++ [verified.record] } = device'
          have hid : device'.deviceId = device.deviceId := by rw [← hdev']
          have hev := hevent device'
          generalize (if pairing.addToDevice.isSome then Event.deviceUpdated device'
              else Event.deviceRegistered device') = event at hev ⊢
          rcases tryEmitEvent_cases events event with he | he
          · rw [he]
            refine ⟨publish_moves self self.failures events ?_ ?_ ?_ hev (.inl rfl), fun id h => ?_⟩
            · rcases enrolled_ok hdev with ⟨-, hn, -⟩ | ⟨-, hn, -⟩
              · exact hn
              · exact get_none_of_size hn _
            · intro old hold
              rcases enrolled_ok hdev with ⟨-, -, hg⟩ | ⟨-, -, -, hg, -⟩
              · rw [hg] at hold
                rw [hid, Option.some.inj hold]
              · rw [hg] at hold
                cases hold
            · intro hnone
              rcases enrolled_ok hdev with ⟨-, -, hg⟩ | ⟨-, hn, hlt, -, hdid⟩
              · rw [hg] at hnone
                cases hnone
              · exact ⟨hid.trans hdid, hn, hlt⟩
            · cases h
              exact fun sid session hs => (invalidateDevice_sessions hs).2
          · rw [he]
            exact ⟨Settles.moves (.single (.refuse self events)), nofun⟩

end Identity
end Yuzora
