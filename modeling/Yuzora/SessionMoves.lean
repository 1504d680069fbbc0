import Yuzora.Gateway
/-!
# SessionMoves — what a step can do to the identity

Every operation drops sessions and forgets failures, then commits at most one change of a device, then settles: it
touches, elevates or opens a session, notes a snapshot, or learns what the queue took.  The invariants look at these
moves only.
-/
namespace Yuzora
namespace Identity

open Relation (ReflTransGen)

/-! ## What the operations leave alone -/

theorem foldl_invalidate_with (devices : Table String Device) (dirty : Table String Unit)
    (failures : Table String Nat) : ∀ (ids : List (Bytes 32)) (self : Identity),
      ids.foldl invalidateSession { self with devices, dirtyDevices := dirty, failures } =
        { ids.foldl invalidateSession self with devices, dirtyDevices := dirty, failures }
  | [], _ => rfl
  | id :: ids, self => foldl_invalidate_with devices dirty failures ids (self.invalidateSession id)

theorem foldl_invalidate_frame : ∀ (ids : List (Bytes 32)) (self : Identity),
    (ids.foldl invalidateSession self).devices = self.devices ∧
      (ids.foldl invalidateSession self).notifications = self.notifications ∧
      (ids.foldl invalidateSession self).dirtyDevices = self.dirtyDevices ∧
      (ids.foldl invalidateSession self).failures = self.failures ∧
      (ids.foldl invalidateSession self).policy = self.policy
  | [], _ => ⟨rfl, rfl, rfl, rfl, rfl⟩
  | id :: ids, self => foldl_invalidate_frame ids (self.invalidateSession id)

theorem foldl_invalidate_sessions (id : Bytes 32) : ∀ (ids : List (Bytes 32)) (self : Identity),
    (ids.foldl invalidateSession self).sessions.get id = if id ∈ ids then none else self.sessions.get id
  | [], _ => by simp
  | j :: ids, self => by
    rw [List.foldl_cons, foldl_invalidate_sessions id ids]
    simp only [invalidateSession, Table.get_erase, List.mem_cons]
    by_cases hj : id = j <;> by_cases hm : id ∈ ids <;> simp [hj, hm]

variable {self : Identity} {session : Session} {id : Bytes 32} {now : Timestamp}

theorem mem_sessionIds {p : Session → Bool} :
    id ∈ self.sessionIds p ↔ ∃ session, self.sessions.get id = some session ∧ p session = true := by
  simp only [sessionIds, List.mem_filterMap, Table.get_eq_some]
  constructor
  · rintro ⟨e, he, hp⟩
    split at hp
    · rename_i h
      cases hp
      exact ⟨e.2, he, h⟩
    · cases hp
  · rintro ⟨session, hm, hp⟩
    exact ⟨(id, session), hm, if_pos hp⟩

/-- **Invalidating a device leaves none of its sessions.** -/
theorem invalidateDevice_sessions {self : Identity} {device : String}
    (h : (self.invalidateDevice device).sessions.get id = some session) :
    self.sessions.get id = some session ∧ session.deviceId ≠ device := by
  rw [invalidateDevice, foldl_invalidate_sessions] at h
  split at h
  · cases h
  · rename_i hm
    refine ⟨h, fun hd => hm (mem_sessionIds.2 ⟨session, h, ?_⟩)⟩
    simp [hd]

theorem purgeExpired_sessions (h : (self.purgeExpired now).sessions.get id = some session) :
    self.sessions.get id = some session ∧ self.active session now = true := by
  rw [purgeExpired, foldl_invalidate_sessions] at h
  split at h
  · cases h
  · rename_i hm
    refine ⟨h, ?_⟩
    by_contra hn
    exact hm (mem_sessionIds.2 ⟨session, h, by simp [hn]⟩)

theorem purgeExpired_devices (self : Identity) (now : Timestamp) : (self.purgeExpired now).devices = self.devices :=
  (foldl_invalidate_frame _ _).1

/-! ## Validation -/

def touched (self : Identity) (id : Bytes 32) (session : Session) (device : Device) (now : Timestamp) : Identity :=
  { self with
    sessions := self.sessions.insert id { session with lastSeen := now }
    devices := self.devices.insert session.deviceId { device with lastSeen := now }
    dirtyDevices := self.dirtyDevices.insert session.deviceId () }

theorem touched_session (self : Identity) (id : Bytes 32) (session : Session) (device : Device) (now : Timestamp) :
    (self.touched id session device now).sessions.get id = some { session with lastSeen := now } :=
  Table.get_insert_self _ _ _

/-- What a successful validation checked, at its clock reading. -/
structure Validated (identity : Identity) (id : Bytes 32) (rpId : String) (scope : Scope) (now : Timestamp)
    (session : Session) (device : Device) : Prop where
  hasSession : identity.sessions.get id = some session
  isActive : identity.active session now = true
  sameHost : session.rpId = rpId
  hasDevice : identity.devices.get session.deviceId = some device
  isGranted : identity.granted device scope now = true
  isElevated : scope ≠ .view → ∃ «until», session.until scope = some «until» ∧ now < «until»

theorem active_iff : self.active session now = true ↔ now < self.policy.enableUntil ∧
      now < session.createdAt.after (hours self.policy.viewAbsoluteHours) ∧
      now < session.lastSeen.after (minutes self.policy.viewIdleMin) ∧
      ∃ device, self.devices.get session.deviceId = some device ∧ device.locked = false ∧
        device.hasCredential session.rpId = true := by
  simp [active, and_assoc, Option.any_eq_true]

/-- **A validation never panics**: it drops an expired session, changes nothing, or touches the session it validated. -/
theorem validate_cases (self : Identity) (id : Bytes 32) (rpId : String) (scope : Scope) (now : Timestamp) :
    self.validate id rpId scope now = .ok (false, self) ∨
      self.validate id rpId scope now = .ok (false, self.invalidateSession id) ∨
      ∃ session device, Validated self id rpId scope now session device ∧
        self.validate id rpId scope now = .ok (true, self.touched id session device now) := by
  unfold validate
  cases hs : self.sessions.get id with
  | none => exact .inl rfl
  | some session =>
    cases ha : self.active session now with
    | false => exact .inr (.inl (by simp [ha]))
    | true =>
      obtain ⟨-, -, -, device, hd, -⟩ := active_iff.1 ha
      by_cases hr : session.rpId = rpId
      · by_cases hg : (!self.granted device scope now) = true ∨
            (scope ≠ .view ∧ (session.until scope).all (fun «until» => decide («until» ≤ now)) = true)
        · left
          simp only [ha, hd, Bool.not_true, Bool.false_eq_true, if_false, if_neg (not_not.2 hr)]
          exact if_pos hg
        · right; right
          refine ⟨session, device, ⟨hs, ha, hr, hd, ?_, ?_⟩, ?_⟩
          · cases h : self.granted device scope now with
            | true => rfl
            | false => exact absurd (.inl (by simp [h])) hg
          · intro hv
            cases hu : session.until scope with
            | none => exact absurd (.inr ⟨hv, by simp [hu]⟩) hg
            | some «until» =>
              refine ⟨«until», rfl, ?_⟩
              by_contra hle
              exact hg (.inr ⟨hv, by simpa [hu] using hle⟩)
          · simp only [ha, hr, hd, hg, touched]
            simp
      · left
        simp [ha, hr]

theorem revalidate_cases (self : Identity) (ctx : AuthContext) (scope : Scope) (now : Timestamp) :
    self.revalidate ctx scope now = .ok (false, self) ∨
      self.revalidate ctx scope now = .ok (false, self.invalidateSession ctx.sessionId) ∨
      ∃ session device, Validated self ctx.sessionId ctx.rpId scope now session device ∧
        session.deviceId = ctx.deviceId ∧
        self.revalidate ctx scope now = .ok (true, self.touched ctx.sessionId session device now) := by
  unfold revalidate
  split
  · rename_i h
    rcases self.validate_cases ctx.sessionId ctx.rpId scope now with hv | hv | ⟨session, device, hval, hv⟩
    · exact .inl hv
    · exact .inr (.inl hv)
    · refine .inr (.inr ⟨session, device, hval, ?_, hv⟩)
      rw [hval.hasSession] at h
      simpa using h
  · exact .inl rfl

/-! ## Moves -/

/-- An identity and the event queue it writes to, under one lock. -/
abbrev Held := Identity × EventSender

/-- What happens to sessions and failures before a change is committed. -/
inductive Prepare : Held → Held → Prop
  | drop (self : Identity) (events : EventSender) (id : Bytes 32) :
      Prepare (self, events) (self.invalidateSession id, events)
  | failures (self : Identity) (events : EventSender) (failures : Table String Nat) :
      Prepare (self, events) ({ self with failures }, events)

def NoSession (self : Identity) (id : String) : Prop :=
  ∀ sid session, self.sessions.get sid = some session → session.deviceId ≠ id

/-- One device's record changes.  `publish` announces first, `tighten` and `record` leave a snapshot to announce. -/
inductive Change : Held → Held → Prop
  | publish {self : Identity} {events : EventSender} {id : String} {device : Device} {event : Event}
      {dirty : Table String Unit} :
      self.NoSession id → self.notifications.get id = none →
      (∀ old, self.devices.get id = some old → device.deviceId = old.deviceId) →
      (self.devices.get id = none →
        device.deviceId = id ∧ self.notifications.size = 0 ∧ self.devices.size < self.policy.maxDevices) →
      event = .deviceUpdated device ∨ event = .deviceRegistered device →
      dirty = self.dirtyDevices ∨ dirty = self.dirtyDevices.erase id →
      Change (self, events) ({ self.store id (some device) with dirtyDevices := dirty }, events.took event)
  | tighten {self : Identity} {events : EventSender} {id : String} {old : Device} {snapshot : Option Device} :
      self.NoSession id → self.devices.get id = some old →
      (∀ device, snapshot = some device → device.deviceId = old.deviceId) →
      Change (self, events) ({ self.store id snapshot with
        dirtyDevices := self.dirtyDevices.erase id, notifications := self.notifications.insert id snapshot }, events)
  | record {self : Identity} {events : EventSender} {id : String} {old device : Device} :
      self.devices.get id = some old → device.deviceId = old.deviceId → device.locked = old.locked →
      device.grants = old.grants → (∀ host, device.hasCredential host = old.hasCredential host) →
      Change (self, events) ({ self.store id (some device) with
        dirtyDevices := self.dirtyDevices.erase id
        notifications := self.notifications.insert id (some device) }, events)

/-- What an elevation may be, by session, scope, clock reading and deadline. -/
abbrev Elevations := Bytes 32 → Scope → Timestamp → Timestamp → Prop

/-- What follows a change, or happens without one: no record changes but for its last-seen time. -/
inductive Settle (E : Elevations) : Held → Held → Prop
  | prepare {s t : Held} : Prepare s t → Settle E s t
  | touch {self : Identity} {events : EventSender} {id : Bytes 32} {session : Session} {device : Device}
      (now : Timestamp) :
      self.sessions.get id = some session → self.devices.get session.deviceId = some device →
      Settle E (self, events) (self.touched id session device now, events)
  | elevate {self : Identity} {events : EventSender} {id : Bytes 32} {session session' : Session} {scope : Scope}
      {now «until» : Timestamp} :
      self.sessions.get id = some session → session.elevated scope «until» now = some session' →
      «until» ≤ now.after (minutes self.policy.elevationMaxMin) → E id scope now «until» →
      Settle E (self, events) ({ self with sessions := self.sessions.insert id session' }, events)
  | refuse (self : Identity) (events : EventSender) : Settle E (self, events) (self, events.refused)
  | accept {self : Identity} {events : EventSender} {id : String} {snapshot : Option Device} :
      self.notifications.get id = some snapshot →
      Settle E (self, events)
        ({ self with notifications := self.notifications.erase id }, events.took (notification id snapshot))
  | note {self : Identity} {events : EventSender} {id : String} {device : Device} :
      self.devices.get id = some device →
      Settle E (self, events) ({ self with
        dirtyDevices := self.dirtyDevices.erase id
        notifications := self.notifications.insert id (some device) }, events)
  | forget {self : Identity} {events : EventSender} {id : String} :
      self.devices.get id = none →
      Settle E (self, events) ({ self with dirtyDevices := self.dirtyDevices.erase id }, events)
  | openSession {self : Identity} {events : EventSender} {id : Bytes 32} {session : Session} {device : Device} :
      self.devices.get session.deviceId = some device → device.locked = false →
      device.hasCredential session.rpId = true → (∀ scope, session.until scope = none) →
      self.sessions.count (fun _ s => decide (s.deviceId = session.deviceId)) < 4 →
      Settle E (self, events) ({ self with sessions := self.sessions.insert id session }, events)
  | connect {self : Identity} {events : EventSender} {ctx : AuthContext} {session : Session} :
      self.sessions.get ctx.sessionId = some session →
      self.peers.count (fun _ p => decide (p.device = ctx.deviceId)) < 2 →
      Settle E (self, events) ({ self with
        nextPeer := self.nextPeer + 1
        peers := self.peers.insert self.nextPeer ⟨ctx.sessionId, ctx.deviceId, false⟩ }, events)
  | disconnect (self : Identity) (events : EventSender) (id : Nat) :
      Settle E (self, events) (self.unregisterPeer id, events)

abbrev Prepares : Held → Held → Prop := ReflTransGen Prepare
abbrev Settles (E : Elevations) : Held → Held → Prop := ReflTransGen (Settle E)

/-- **One step**: preparation, at most one change, then what settles it. -/
def Moves (E : Elevations) (s t : Held) : Prop :=
  ∃ m m', Prepares s m ∧ (m' = m ∨ Change m m') ∧ Settles E m' t

variable {E : Elevations} {s t : Held}

theorem Settles.moves (h : Settles E s t) : Moves E s t :=
  ⟨s, s, .refl, .inl rfl, h⟩

theorem Prepares.settles (h : Prepares s t) : Settles E s t :=
  ReflTransGen.mono (fun _ _ => Settle.prepare) s t h

theorem Moves.settle {u : Held} (h : Moves E s t) (hu : Settles E t u) : Moves E s u := by
  obtain ⟨m, m', h1, h2, h3⟩ := h
  exact ⟨m, m', h1, h2, h3.trans hu⟩

/-- **What every move keeps, a step keeps.** -/
theorem Moves.invariant (P : Held → Prop) (h1 : ∀ s t, P s → Change s t → P t)
    (h2 : ∀ s t, P s → Settle E s t → P t) (hs : P s) (h : Moves E s t) : P t := by
  have settles : ∀ {s t : Held}, Settles E s t → P s → P t := by
    intro s t h hs
    induction h with
    | refl => exact hs
    | tail _ hst ih => exact h2 _ _ ih hst
  obtain ⟨m, m', hp, hc, ht⟩ := h
  have hm := settles hp.settles hs
  rcases hc with rfl | hc
  · exact settles ht hm
  · exact settles ht (h1 _ _ hm hc)

end Identity
end Yuzora
