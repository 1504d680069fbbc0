import Yuzora.SessionMoves
/-!
# SessionLimits — whose sessions there may be, and how many

Every session belongs to a paired, unlocked device with a passkey for the session's host; the counts stay inside their
limits; a peer whose session is gone has been told.  Every move of the identity keeps this.
-/
namespace Yuzora
namespace Identity

structure Limits (identity : Identity) : Prop where
  deviceId : ∀ id device, identity.devices.get id = some device → device.deviceId = id
  owner : ∀ sid session, identity.sessions.get sid = some session →
    ∃ device, identity.devices.get session.deviceId = some device ∧ device.locked = false ∧
      device.hasCredential session.rpId = true
  sessions : ∀ device, identity.sessions.count (fun _ s => decide (s.deviceId = device)) ≤ 4
  devices : identity.devices.size ≤ identity.policy.maxDevices
  orphan : ∀ n peer, identity.peers.get n = some peer → identity.sessions.get peer.session = none →
    peer.invalidated = true
  peers : ∀ device, identity.peers.count (fun _ p => decide (p.device = device)) ≤ 2
  peerId : ∀ n peer, identity.peers.get n = some peer → n < identity.nextPeer

namespace Limits

open Table

variable {self : Identity} {session : Session} {id : Bytes 32}

theorem drop (h : self.Limits) (id : Bytes 32) : (self.invalidateSession id).Limits where
  deviceId := h.deviceId
  owner sid session hs := by
    simp only [invalidateSession, get_erase] at hs
    split at hs
    · cases hs
    · exact h.owner sid session hs
  sessions device := le_trans (count_erase_le _ _ _) (h.sessions device)
  devices := h.devices
  orphan n peer hp hs := by
    simp only [invalidateSession, get_mapValues, Option.map_eq_some_iff] at hp
    obtain ⟨old, ho, rfl⟩ := hp
    by_cases hid : old.session = id
    · simp [hid]
    · simp only [invalidateSession, if_neg hid, get_erase] at hs ⊢
      exact h.orphan n old ho hs
  peers device := by
    simp only [invalidateSession]
    rw [count_mapValues _ _ _ (fun n p => by by_cases hp : p.session = id <;> simp [hp])]
    exact h.peers device
  peerId n peer hp := by
    simp only [invalidateSession, get_mapValues, Option.map_eq_some_iff] at hp
    obtain ⟨old, ho, -⟩ := hp
    exact h.peerId n old ho

theorem failures (h : self.Limits) (failures : Table String Nat) : { self with failures }.Limits :=
  ⟨h.deviceId, h.owner, h.sessions, h.devices, h.orphan, h.peers, h.peerId⟩

theorem notices (h : self.Limits) (notifications : Table String (Option Device))
    (dirtyDevices : Table String Unit) : { self with notifications, dirtyDevices }.Limits :=
  ⟨h.deviceId, h.owner, h.sessions, h.devices, h.orphan, h.peers, h.peerId⟩

theorem storeDevice (h : self.Limits) (id : String) (device : Device) (hid : device.deviceId = id)
    (hroom : self.devices.get id = none → self.devices.size < self.policy.maxDevices)
    (hown : ∀ sid session, self.sessions.get sid = some session → session.deviceId = id →
      device.locked = false ∧ device.hasCredential session.rpId = true) : (self.store id (some device)).Limits where
  deviceId j d hd := by
    simp only [store, get_insert] at hd
    split at hd
    · rename_i hj
      rw [← Option.some.inj hd, hid, hj]
    · exact h.deviceId j d hd
  owner sid session hs := by
    by_cases hd : session.deviceId = id
    · obtain ⟨hl, hc⟩ := hown sid session hs hd
      exact ⟨device, by simp [store, hd], hl, hc⟩
    · obtain ⟨d, hg, hl, hc⟩ := h.owner sid session hs
      exact ⟨d, by simpa [store, get_insert, hd] using hg, hl, hc⟩
  sessions := h.sessions
  devices := by
    show (self.devices.insert id device).size ≤ self.policy.maxDevices
    cases hg : self.devices.get id with
    | none => exact le_trans (size_insert_le _ _ _) (hroom hg)
    | some old =>
      rw [size_insert_of_get _ hg]
      exact h.devices
  orphan := h.orphan
  peers := h.peers
  peerId := h.peerId

theorem storeNone (h : self.Limits) {id : String} (hn : self.NoSession id) : (self.store id none).Limits where
  deviceId j d hd := by
    simp only [store, get_erase] at hd
    split at hd
    · cases hd
    · exact h.deviceId j d hd
  owner sid session hs := by
    obtain ⟨d, hg, hl, hc⟩ := h.owner sid session hs
    exact ⟨d, by simpa [store, get_erase, hn sid session hs] using hg, hl, hc⟩
  sessions := h.sessions
  devices := le_trans (size_erase_le _ _) h.devices
  orphan := h.orphan
  peers := h.peers
  peerId := h.peerId

theorem replaceSession (h : self.Limits) (session' : Session)
    (hs : self.sessions.get id = some session) (hd : session'.deviceId = session.deviceId)
    (hr : session'.rpId = session.rpId) : { self with sessions := self.sessions.insert id session' }.Limits where
  deviceId := h.deviceId
  owner sid s hg := by
    simp only [get_insert] at hg
    split at hg
    · cases hg
      rw [hd, hr]
      exact h.owner id session hs
    · exact h.owner sid s hg
  sessions device := by
    rw [count_insert_of_get _ hs (by simp [hd])]
    exact h.sessions device
  devices := h.devices
  orphan n peer hp hg := by
    simp only [get_insert] at hg
    split at hg
    · cases hg
    · exact h.orphan n peer hp hg
  peers := h.peers
  peerId := h.peerId

theorem openSession (h : self.Limits) {device : Device}
    (hg : self.devices.get session.deviceId = some device) (hl : device.locked = false)
    (hc : device.hasCredential session.rpId = true)
    (hn : self.sessions.count (fun _ s => decide (s.deviceId = session.deviceId)) < 4) :
    { self with sessions := self.sessions.insert id session }.Limits where
  deviceId := h.deviceId
  owner sid s hs := by
    simp only [get_insert] at hs
    split at hs
    · cases hs
      exact ⟨device, hg, hl, hc⟩
    · exact h.owner sid s hs
  sessions d := by
    show (self.sessions.insert id session).count _ ≤ 4
    have hle := count_insert_le self.sessions id session (fun _ s => decide (s.deviceId = d))
    have hd := h.sessions d
    by_cases heq : session.deviceId = d
    · subst heq
      simp only [decide_true, if_true] at hle
      omega
    · simp only [heq, decide_false, Bool.false_eq_true, if_false] at hle
      omega
  devices := h.devices
  orphan n peer hp hs := by
    simp only [get_insert] at hs
    split at hs
    · cases hs
    · exact h.orphan n peer hp hs
  peers := h.peers
  peerId := h.peerId

theorem connect (h : self.Limits) {ctx : AuthContext} (hs : self.sessions.get ctx.sessionId = some session)
    (hn : self.peers.count (fun _ p => decide (p.device = ctx.deviceId)) < 2) :
    { self with
      nextPeer := self.nextPeer + 1
      peers := self.peers.insert self.nextPeer ⟨ctx.sessionId, ctx.deviceId, false⟩ }.Limits where
  deviceId := h.deviceId
  owner := h.owner
  sessions := h.sessions
  devices := h.devices
  orphan n peer hp hg := by
    simp only [get_insert] at hp
    split at hp
    · cases hp
      rw [hs] at hg
      cases hg
    · exact h.orphan n peer hp hg
  peers d := by
    show (self.peers.insert self.nextPeer _).count _ ≤ 2
    have hle := count_insert_le self.peers self.nextPeer ⟨ctx.sessionId, ctx.deviceId, false⟩
      (fun _ p => decide (p.device = d))
    have hd := h.peers d
    by_cases heq : ctx.deviceId = d
    · subst heq
      simp only [decide_true, if_true] at hle
      omega
    · simp only [heq, decide_false, Bool.false_eq_true, if_false] at hle
      omega
  peerId n peer hp := by
    simp only [get_insert] at hp
    split at hp
    · rename_i hn
      exact hn ▸ Nat.lt_succ_self _
    · exact Nat.lt_succ_of_lt (h.peerId n peer hp)

theorem disconnect (h : self.Limits) (id : Nat) : (self.unregisterPeer id).Limits where
  deviceId := h.deviceId
  owner := h.owner
  sessions := h.sessions
  devices := h.devices
  orphan n peer hp hs := by
    simp only [unregisterPeer, get_erase] at hp
    split at hp
    · cases hp
    · exact h.orphan n peer hp hs
  peers d := le_trans (count_erase_le _ _ _) (h.peers d)
  peerId n peer hp := by
    simp only [unregisterPeer, get_erase] at hp
    split at hp
    · cases hp
    · exact h.peerId n peer hp

end Limits

theorem elevated_fields {session session' : Session} {scope : Scope} {«until» now : Timestamp}
    (h : session.elevated scope «until» now = some session') :
    session'.deviceId = session.deviceId ∧ session'.rpId = session.rpId ∧ session'.createdAt = session.createdAt := by
  cases scope with
  | view => cases h
  | control | full =>
    cases h
    exact ⟨rfl, rfl, rfl⟩

variable {s t : Held}

theorem Limits.prepare (hs : s.1.Limits) (h : Prepare s t) : t.1.Limits := by
  cases h with
  | drop self events id => exact hs.drop id
  | failures self events failures => exact hs.failures failures

theorem Limits.change (hs : s.1.Limits) (h : Change s t) : t.1.Limits := by
  cases h with
  | @publish self events id device event dirty hn _ hold hnew _ _ =>
    have hid : device.deviceId = id := by
      cases hg : self.devices.get id with
      | none => exact (hnew hg).1
      | some old => exact (hold old hg).trans (hs.deviceId id old hg)
    have := hs.storeDevice id device hid (fun hg => (hnew hg).2.2) (fun sid session hsid hd => absurd hd (hn sid session hsid))
    exact this.notices self.notifications dirty
  | @tighten self events id old snapshot hn hold hsnap =>
    have : (self.store id snapshot).Limits := by
      cases snapshot with
      | none => exact hs.storeNone hn
      | some device =>
        exact hs.storeDevice id device ((hsnap device rfl).trans (hs.deviceId id old hold)) (fun hg => by rw [hold] at hg; cases hg)
          (fun sid session hsid hd => absurd hd (hn sid session hsid))
    exact this.notices _ _
  | @record self events id old device hold hid hlock _ hcred =>
    have : (self.store id (some device)).Limits := by
      refine hs.storeDevice id device (hid.trans (hs.deviceId id old hold)) (fun hg => by rw [hold] at hg; cases hg) ?_
      intro sid session hsid hd
      obtain ⟨d, hg, hl, hc⟩ := hs.owner sid session hsid
      rw [hd, hold] at hg
      cases hg
      exact ⟨hlock.trans hl, (hcred session.rpId).trans hc⟩
    exact this.notices _ _

variable {E : Elevations} {self : Identity}

theorem Limits.settle (hs : s.1.Limits) (h : Settle E s t) : t.1.Limits := by
  cases h with
  | prepare h => exact hs.prepare h
  | @touch self events id session device now hsid hd =>
    have h1 := hs.replaceSession { session with lastSeen := now } hsid rfl rfl
    have h2 := h1.storeDevice session.deviceId { device with lastSeen := now }
      (hs.deviceId _ device hd) (fun hg => by
        rw [hd] at hg
        cases hg)
      (fun sid s hg hdev => by
        obtain ⟨d, hg', hl, hc⟩ := h1.owner sid s hg
        rw [hdev, hd] at hg'
        cases hg'
        exact ⟨hl, hc⟩)
    exact h2.notices self.notifications (self.dirtyDevices.insert session.deviceId ())
  | @elevate self events id session session' scope now «until» hsid he _ _ =>
    obtain ⟨hd, hr, -⟩ := elevated_fields he
    exact hs.replaceSession session' hsid hd hr
  | refuse self events => exact hs
  | accept | note | forget => exact hs.notices _ _
  | openSession hg hl hc _ hn => exact hs.openSession hg hl hc hn
  | connect hsid hn => exact hs.connect hsid hn
  | disconnect self events id => exact hs.disconnect id

/-- **Every step of the identity keeps the limits.** -/
theorem Limits.moves (hs : s.1.Limits) (h : Moves E s t) : t.1.Limits :=
  Moves.invariant (fun s => s.1.Limits) (fun _ _ => Limits.change) (fun _ _ => Limits.settle) hs h

theorem Limits.settles (hs : s.1.Limits) (h : Settles E s t) : t.1.Limits :=
  hs.moves h.moves

/-! ## The session limit -/

def sessionsOf (self : Identity) (device : String) : Nat := self.sessions.count (fun _ s => decide (s.deviceId = device))

theorem Limits.size_le_total (h : self.Limits) : self.sessions.size ≤ total self.sessionsOf self.devices.keys :=
  length_le_total_countP (fun e : Bytes 32 × Session => e.2.deviceId) self.devices.keys self.sessions.entries
    (fun e he => by
      obtain ⟨d, hd, -⟩ := h.owner e.1 e.2 (Table.get_eq_some.2 he)
      exact Table.mem_keys.2 ⟨d, hd⟩)

theorem Limits.size_le (h : self.Limits) : self.sessions.size ≤ self.sessionLimit := by
  have hle := h.size_le_total
  have hsum := total_le self.sessionsOf 4 h.sessions self.devices.keys
  have hsize : self.devices.keys.length = self.devices.size := List.length_map _
  have hmax := h.devices
  show self.sessions.size ≤ self.policy.maxDevices * 4
  omega

/-- **Four sessions for each device, and one missing, leave room.** -/
theorem Limits.size_lt (h : self.Limits) {id : String} {device : Device}
    (hg : self.devices.get id = some device) (hn : self.sessionsOf id < 4) : self.sessions.size < self.sessionLimit := by
  have hle := h.size_le_total
  have hlt := total_lt self.sessionsOf 4 h.sessions hn self.devices.keys (Table.mem_keys.2 ⟨device, hg⟩)
  have hsize : self.devices.keys.length = self.devices.size := List.length_map _
  have hmax := h.devices
  show self.sessions.size < self.policy.maxDevices * 4
  omega

end Identity
end Yuzora
