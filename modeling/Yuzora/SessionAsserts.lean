import Yuzora.SessionSteps
/-!
# SessionAsserts — logins and elevations are made of moves

A verified assertion records the credential's counter, then elevates its session or opens one.  Inside the limits nothing
here panics, and the session limit is never the answer.
-/
namespace Yuzora
namespace Identity

open List Table
open Relation (ReflTransGen)

variable {E : Elevations} {verified : VerifiedAssertion} {credentialId rpId : String}

theorem assertionFailed_moves (self : Identity) (id : String) (rollback : Bool) (events : EventSender) :
    Moves E (self, events) (self.assertionFailed id rollback events) := by
  unfold assertionFailed
  split
  · exact Settles.moves .refl
  · rename_i device hd
    split
    · exact Settles.moves .refl
    · simp only
      split
      · generalize hself : (Identity.invalidateDevice _ id) = self'
        have hget : self'.devices.get id = some { device with locked := true } := by
          rw [← hself, invalidateDevice, (foldl_invalidate_frame _ _).1]
          exact get_insert_self _ _ _
        rw [notifySnapshot_of_get events hget]
        obtain ⟨m, hm, hn, hdm, -, hq, -, he⟩ := self.store_invalidate id (some { device with locked := true })
          self.dirtyDevices (self.failures.insert id (min ((self.failures.get id).getD 0 + 1) 255)) events
        have hself' : self' = { m.store id (some { device with locked := true }) with
            dirtyDevices := self.dirtyDevices } := hself.symm.trans he
        refine ⟨_, _, hm, .inr (@Change.tighten m events id device (some { device with locked := true }) hn (hdm ▸ hd)
          (fun d h => by rw [← Option.some.inj h])), ?_⟩
        rw [hself', ← hq]
        exact retryNotification_settles events (get_insert_self _ _ _)
      · exact Settles.moves (.single (.prepare (.failures _ _ _)))

theorem updateCredential_hosts :
    ∀ {cs cs' : List CredentialRecord}, updateCredential credentialId rpId verified cs = some cs' →
      cs'.map CredentialRecord.rpId = cs.map CredentialRecord.rpId ∧ rpId ∈ cs.map CredentialRecord.rpId
  | [], cs', h => by cases h
  | c :: cs, cs', h => by
    simp only [updateCredential] at h
    split at h
    · rename_i hc
      cases h
      exact ⟨rfl, by simp [hc.2]⟩
    · obtain ⟨ds, hds, rfl⟩ := Option.map_eq_some_iff.1 h
      obtain ⟨h1, h2⟩ := updateCredential_hosts hds
      exact ⟨by simp [h1], by simp only [map_cons, mem_cons]; exact .inr h2⟩

theorem updateCredential_isSome (verified : VerifiedAssertion) :
    ∀ {cs : List CredentialRecord} {c : CredentialRecord}, c ∈ cs → c.id = credentialId → c.rpId = rpId →
      ∃ cs', updateCredential credentialId rpId verified cs = some cs'
  | d :: cs, c, hm, hid, hr => by
    simp only [updateCredential]
    split
    · exact ⟨_, rfl⟩
    · rename_i hd
      rcases mem_cons.1 hm with rfl | hm
      · exact absurd ⟨hid, hr⟩ hd
      · obtain ⟨cs', h⟩ := updateCredential_isSome verified hm hid hr
        exact ⟨d :: cs', by simp [h]⟩

variable {device : Device} {host : String}

theorem hasCredential_iff : device.hasCredential host = true ↔ host ∈ device.credentials.map CredentialRecord.rpId := by
  simp [Device.hasCredential, any_eq_true, mem_map]

/-- **A verified assertion finds its device and credential**, and leaves them unlocked and of the same host. -/
theorem assertionVerified_spec (self : Identity) {id rawId : String} (verified : VerifiedAssertion)
    (events : EventSender) (now : Timestamp) {record : CredentialRecord}
    (hd : self.devices.get id = some device) (hl : device.locked = false) (hm : record ∈ device.credentials)
    (hid : record.id = rawId) (hr : record.rpId = host) :
    ∃ self' events' device', self.assertionVerified id rawId host verified events now = .ok (self', events') ∧
      Moves E (self, events) (self', events') ∧ self'.devices.get id = some device' ∧
      device'.locked = false ∧ device'.hasCredential host = true := by
  obtain ⟨cs, hcs⟩ := updateCredential_isSome verified hm hid hr
  obtain ⟨hmap, hin⟩ := updateCredential_hosts hcs
  generalize hdev : { device with credentials := cs, lastSeen := now } = device'
  have hcred : ∀ h, device'.hasCredential h = device.hasCredential h := by
    intro h
    rw [Bool.eq_iff_iff, hasCredential_iff, hasCredential_iff, ← hdev, hmap]
  generalize hself : { self with devices := self.devices.insert id device', failures := self.failures.erase id } = self₁
  have hget : self₁.devices.get id = some device' := by
    rw [← hself]
    exact get_insert_self _ _ _
  refine ⟨(self₁.notifySnapshot id events).1, (self₁.notifySnapshot id events).2, device', ?_, ?_, ?_, ?_, ?_⟩
  · simp only [assertionVerified, hd, hcs, hdev, hself]
  · show Moves E (self, events) (self₁.notifySnapshot id events)
    rw [notifySnapshot_of_get events hget]
    refine ⟨_, _, .single (.failures self events (self.failures.erase id)),
      .inr (.record hd ?_ ?_ ?_ hcred), ?_⟩
    · rw [← hdev]
    · rw [← hdev]
    · rw [← hdev]
    · rw [← hself]
      exact retryNotification_settles events (get_insert_self _ _ _)
  · rw [(notifySnapshot_frame _ _ _).1]
    exact hget
  · rw [← hdev]
    exact hl
  · rw [hcred, hasCredential_iff]
    exact hin

theorem oldest_of_count (self : Identity) (deviceId : String) (visit : Visit (Bytes 32 × Session))
    (h : 0 < self.sessionsOf deviceId) :
    ∃ e session, minByKey (fun e => e.2.createdAt)
        ((visit.order self.sessions.entries).filter (fun e => decide (e.2.deviceId = deviceId))) = some e ∧
      self.sessions.get e.1 = some session ∧ session.deviceId = deviceId := by
  generalize hl : (visit.order self.sessions.entries).filter (fun e => decide (e.2.deviceId = deviceId)) = l
  cases hmin : minByKey (fun e : Bytes 32 × Session => e.2.createdAt) l with
  | none =>
    rw [minByKey_eq_none] at hmin
    obtain ⟨e, he, hp⟩ := countP_pos_iff.1 h
    have : e ∈ l := by
      rw [← hl, mem_filter]
      exact ⟨(visit.perm _).mem_iff.2 he, hp⟩
    rw [hmin] at this
    cases this
  | some e =>
    have hm := minByKey_mem hmin
    rw [← hl, mem_filter] at hm
    exact ⟨e, e.2, rfl, get_eq_some.2 ((visit.perm _).mem_iff.1 hm.1), by simpa using hm.2⟩

variable {self : Identity}

/-- **A fifth session makes room for itself.** -/
theorem evictOldest_spec (h : self.Limits) (deviceId : String)
    (visit : Visit (Bytes 32 × Session)) (events : EventSender) :
    ∃ self', self.evictOldest deviceId visit = .ok self' ∧ Settles E (self, events) (self', events) ∧
      self'.devices = self.devices ∧ self'.sessionsOf deviceId < 4 := by
  unfold evictOldest
  split
  · rename_i hfour
    obtain ⟨e, session, he, hs, hd⟩ := oldest_of_count self deviceId visit
      (lt_of_lt_of_le (by decide) hfour)
    rw [he]
    refine ⟨_, rfl, self.invalidateSession_settles e.1 events, rfl, ?_⟩
    have hc := count_erase_of_get (fun _ s => decide (s.deviceId = deviceId)) hs (by simp [hd])
    have h4 := h.sessions deviceId
    show (self.sessions.erase e.1).count _ < 4
    omega
  · rename_i hfour
    exact ⟨_, rfl, .refl, rfl, not_le.1 hfour⟩

/-- **Opening a session never panics and never meets the session limit.** -/
theorem issueSession_spec (ext : External) (h : self.Limits) {deviceId rpId : String} (hd : self.devices.get deviceId = some device) (hl : device.locked = false)
    (hc : device.hasCredential rpId = true) (draw : SessionDraw) (visit : Visit (Bytes 32 × Session))
    (clock : Readings) (events : EventSender) :
    ∃ answer self', self.issueSession ext deviceId rpId draw visit clock = .ok (answer, self') ∧
      answer ≠ .error SESSION_LIMIT ∧ Settles E (self, events) (self', events) := by
  have hp := self.purgeExpired_settles (E := E) (clock.now 0) events
  unfold issueSession
  simp only
  generalize hself : self.purgeExpired (clock.now 0) = self₁ at hp ⊢
  have h₁ : self₁.Limits := h.settles hp
  have hd₁ : self₁.devices.get deviceId = some device := by
    rw [← hself, purgeExpired_devices]
    exact hd
  split
  · exact ⟨_, _, rfl, by decide, hp⟩
  · split
    · exact ⟨_, _, rfl, by decide, hp⟩
    · exact ⟨_, _, rfl, by decide, hp⟩
    · rename_i binding id _ _
      obtain ⟨self₂, he, hs, hdev, hlt⟩ := evictOldest_spec (E := E) h₁ deviceId visit events
      rw [he]
      have h₂ : self₂.Limits := h₁.settles hs
      have hd₂ : self₂.devices.get deviceId = some device := by
        rw [hdev]
        exact hd₁
      have hroom := h₂.size_lt hd₂ hlt
      simp only [ge_iff_le, if_neg (not_le.2 hroom)]
      refine ⟨_, _, rfl, nofun, (hp.trans hs).tail (.openSession hd₂ hl hc (fun scope => ?_) hlt)⟩
      cases scope <;> rfl

theorem verification_ok {id : String} {response : AssertionResponse}
    {verify : CredentialRecord → Except AssertionFailure VerifiedAssertion}
    (h : self.verification id host response verify = .ok verified) :
    ∃ device record, self.devices.get id = some device ∧ device.locked = false ∧ record ∈ device.credentials ∧
      record.rpId = host ∧ some record.id = response.rawId := by
  unfold verification assertionCredential at h
  cases hd : self.devices.get id with
  | none => simp [hd] at h
  | some device =>
    cases hl : device.locked with
    | true => simp [hd, hl] at h
    | false =>
      cases hf : device.credentials.find? (fun c => decide (c.rpId = host ∧ some c.id = response.rawId)) with
      | none =>
        simp only [hd, hl, hf] at h
        cases h
      | some record =>
        have hp := find?_some hf
        simp only [decide_eq_true_eq] at hp
        exact ⟨device, record, rfl, hl, mem_of_find?_eq_some hf, hp.1, hp.2⟩

/-- **A finished assertion**: no panic, no session limit, and moves whose elevation is the answer's. -/
theorem finishAssertion_spec (ext : External) (h : self.Limits) (host : String)
    (response : AssertionResponse) (verify : CredentialRecord → Except AssertionFailure VerifiedAssertion)
    (ctx : Option (AuthContext × Scope)) (draw : SessionDraw) (owners : Visit Device)
    (sessions : Visit (Bytes 32 × Session)) (events : EventSender) (clock : Readings)
    (hok : ∀ c scope «until» held, ctx = some (c, scope) →
      self.finishAssertion ext host response verify ctx draw owners sessions events clock =
        .ok (.ok (.elevated «until»), held) → E c.sessionId scope (clock.now 2) «until») :
    ∃ answer self' events', self.finishAssertion ext host response verify ctx draw owners sessions events clock =
      .ok (answer, self', events') ∧ answer ≠ .error SESSION_LIMIT ∧ Moves E (self, events) (self', events') := by
  have refl : Moves E (self, events) (self, events) := Settles.moves .refl
  unfold finishAssertion at hok ⊢
  split
  · exact ⟨_, _, _, rfl, by decide, refl⟩
  · rename_i id hid
    simp only [hid] at hok
    split
    · exact ⟨_, _, _, rfl, by decide, refl⟩
    · exact ⟨_, _, _, rfl, by decide, self.assertionFailed_moves id false events⟩
    · exact ⟨_, _, _, rfl, by decide, self.assertionFailed_moves id true events⟩
    · rename_i verified hv
      simp only [hv] at hok
      obtain ⟨device, record, hd, hl, hm, hr, hraw⟩ := verification_ok hv
      split
      · exact ⟨_, _, _, rfl, by decide, refl⟩
      · rename_i rawId hrawId
        simp only [hrawId] at hok
        obtain ⟨self₁, events₁, device₁, he, hmoves, hd₁, hl₁, hc₁⟩ := assertionVerified_spec (E := E) self verified
          events (clock.now 0) hd hl hm (Option.some.inj (hraw.trans hrawId)) hr
        simp only [he] at hok ⊢
        unfold concludeAssertion at hok ⊢
        cases ctx with
        | some pair =>
          obtain ⟨c, scope⟩ := pair
          simp only at hok ⊢
          obtain ⟨answer, self₂, hel, hs⟩ := elevate_spec (E := E) self₁ c scope clock.tail events₁
            (fun «until» self' hel => hok c scope «until» _ rfl (by rw [hel]))
          rw [hel]
          cases answer with
          | none => exact ⟨_, _, _, rfl, by decide, hmoves.settle hs⟩
          | some «until» => exact ⟨_, _, _, rfl, nofun, hmoves.settle hs⟩
        | none =>
          obtain ⟨answer, self₂, hiss, hne, hs⟩ := issueSession_spec (E := E) ext (h.moves hmoves) hd₁ hl₁ hc₁ draw
            sessions clock.tail events₁
          rw [hiss]
          cases answer with
          | error e => exact ⟨_, _, _, rfl, fun hn => hne (by rw [Except.error.inj hn]), hmoves.settle hs⟩
          | ok pair => exact ⟨_, _, _, rfl, nofun, hmoves.settle hs⟩

end Identity
end Yuzora
