import Yuzora.SessionAsserts
/-!
# SessionRun — the limits over whole runs

No step panics; every state a run reaches is inside the limits; the answers that only a broken limit could give are never
given.
-/
namespace Yuzora
namespace Gateway

open Pairing (Registration)
open Identity (touched_session Held Moves Settles Prepares Elevations Validated)

variable (ext : External) {session : Session} {E : Elevations}

/-- The elevation that an operation's answer reports, at the reading it was decided on. -/
def elevates (op : Op) (clock : Readings) (outcome : Outcome) : Elevations :=
  fun id scope now «until» =>
    match op, outcome with
    | .elevate ctx requested, .elevation (some granted) =>
      id = ctx.sessionId ∧ scope = requested ∧ now = clock.now 1 ∧ «until» = granted
    | .finishAssertion _ _ (some (ctx, requested)) _ _ _, .assertion (.ok (.elevated granted)) =>
      id = ctx.sessionId ∧ scope = requested ∧ now = clock.now 2 ∧ «until» = granted
    | _, _ => False

/-- **What the closure of `with_authorized` may rely on**: it runs on a session validated at the last reading. -/
theorem withAuthorized_cases {α : Type} (s : Gateway) (ctx : AuthContext) (scope : Scope)
    (write : Identity → α × Identity) (clock : Readings) :
    (∃ e self, s.withAuthorized ctx scope write clock = .ok (.error e, self) ∧
      ∀ E events, Settles E (s.identity, events) (self, events)) ∨
    ∃ self session device, Validated self ctx.sessionId ctx.rpId scope (clock.now 2) session device ∧
      session.deviceId = ctx.deviceId ∧ (∀ E events, Settles E (s.identity, events) (self, events)) ∧
      s.withAuthorized ctx scope write clock =
        .ok (.ok (write (self.touched ctx.sessionId session device (clock.now 2))).1,
          (write (self.touched ctx.sessionId session device (clock.now 2))).2) := by
  unfold withAuthorized
  split
  · exact .inl ⟨_, _, rfl, fun _ _ => .refl⟩
  · rcases s.identity.revalidate_cases ctx .view (clock.now 0) with h | h | ⟨session, device, hv, -, h⟩
    · rw [h]
      exact .inl ⟨_, _, rfl, fun _ _ => .refl⟩
    · rw [h]
      exact .inl ⟨_, _, rfl, fun _ events => s.identity.invalidateSession_settles ctx.sessionId events⟩
    · rw [h]
      have h1 : ∀ E events, Settles E (s.identity, events)
          (s.identity.touched ctx.sessionId session device (clock.now 0), events) :=
        fun _ _ => .single (.touch (clock.now 0) hv.hasSession hv.hasDevice)
      simp only
      generalize s.identity.touched ctx.sessionId session device (clock.now 0) = self₁ at h1 ⊢
      split
      · exact .inl ⟨_, _, rfl, h1⟩
      · rcases self₁.revalidate_cases ctx scope (clock.now 2) with h | h | ⟨session', device', hv', hd, h⟩
        · rw [h]
          exact .inl ⟨_, _, rfl, h1⟩
        · rw [h]
          exact .inl ⟨_, _, rfl, fun E events =>
            (h1 E events).trans (self₁.invalidateSession_settles ctx.sessionId events)⟩
        · rw [h]
          exact .inr ⟨self₁, session', device', hv', hd, h1, rfl⟩

theorem validated_touch {self : Identity} {id : Bytes 32} {rpId : String} {scope : Scope}
    {now : Timestamp} {device : Device} (h : Validated self id rpId scope now session device)
    (events : EventSender) : Settles E (self, events) (self.touched id session device now, events) :=
  .single (.touch now h.hasSession h.hasDevice)

theorem registerPeer_settles (self : Identity) (ctx : AuthContext)
    (hs : self.sessions.get ctx.sessionId = some session) (events : EventSender) :
    Settles E (self, events) ((self.registerPeer ctx).2, events) := by
  unfold Identity.registerPeer
  split
  · exact .refl
  · rename_i hfull
    split
    · exact .refl
    · exact .single (.connect hs (not_le.1 (not_or.1 hfull).2))

/-- **Elevation options**: a refusal leaves the ceremonies alone; else the session was there before the purge. -/
theorem elevationOptions_cases (s : Gateway) (ctx : AuthContext) (scope : Scope)
    (start : List CredentialRecord → Except StartRefusal SentChallenge) (clock : Readings) :
    (∃ e self, s.elevationOptions ctx scope start clock = .ok (.error e, self, s.ceremonies) ∧ e ≠ CHALLENGE_LIMIT ∧
      ∀ E events, Settles E (s.identity, events) (self, events)) ∨
    ∃ self session state, self.sessions.get ctx.sessionId = some session ∧
      (∀ E events, Settles E (s.identity, events) (self, events)) ∧
      s.elevationOptions ctx scope start clock = .ok (s.elevationCeremony self ctx scope state clock) := by
  unfold elevationOptions
  split
  · exact .inl ⟨_, _, rfl, by decide, fun _ _ => .refl⟩
  · rcases s.identity.revalidate_cases ctx .view (clock.now 0) with h | h | ⟨session, device, hv, -, h⟩
    · rw [h]
      exact .inl ⟨_, _, rfl, by decide, fun _ _ => .refl⟩
    · rw [h]
      exact .inl ⟨_, _, rfl, by decide, fun _ events => s.identity.invalidateSession_settles ctx.sessionId events⟩
    · rw [h]
      have h1 : ∀ E events, Settles E (s.identity, events)
          (s.identity.touched ctx.sessionId session device (clock.now 0), events) := fun _ => validated_touch hv
      have hs := s.identity.touched_session ctx.sessionId session device (clock.now 0)
      simp only
      generalize s.identity.touched ctx.sessionId session device (clock.now 0) = self₁ at h1 hs ⊢
      split
      · exact .inl ⟨_, _, rfl, by decide, h1⟩
      · split
        · exact .inl ⟨_, _, rfl, by decide, h1⟩
        · split
          · rename_i refusal _
            exact .inl ⟨_, _, rfl, by cases refusal <;> decide, h1⟩
          · exact .inr ⟨self₁, _, _, hs, h1, rfl⟩

theorem elevationCeremony_identity (s : Gateway) (self : Identity) (ctx : AuthContext) (scope : Scope)
    (state : SentChallenge) (clock : Readings) :
    (s.elevationCeremony self ctx scope state clock).2.1 = self.purgeExpired (clock.now 2) := by
  unfold elevationCeremony
  simp only [Identity.activeSessionIds]
  generalize Ceremonies.insert _ _ _ = answer
  obtain ⟨e | _, _⟩ := answer <;> rfl

/-- **No operation panics, and each is made of moves.** -/
theorem identityStep_spec {s : Gateway} (h : s.identity.Limits) (op : Op) (clock : Readings) :
    ∃ outcome self events, s.identityStep ext op clock = .ok (outcome, self, events) ∧
      outcome ≠ .assertion (.error Identity.SESSION_LIMIT) ∧
      Moves (elevates op clock outcome) (s.identity, s.events) (self, events) := by
  have settled : ∀ {E : Elevations} {self events}, Settles E (s.identity, s.events) (self, events) →
      Moves E (s.identity, s.events) (self, events) := fun h => h.moves
  cases op with
  | authenticate headers scope =>
    obtain ⟨ctx, self, he, hs⟩ := s.identity.authenticate_spec ext headers s.rpId scope clock
    exact ⟨.context ctx, self, s.events, by simp only [identityStep, he], nofun, settled (hs _ _)⟩
  | revalidate ctx scope =>
    obtain ⟨answer, self, he, hs⟩ := s.identity.revalidate_spec ctx scope (clock.now 0)
    exact ⟨.valid answer, self, s.events, by simp only [identityStep, he], nofun, settled (hs _ _)⟩
  | validate id rpId scope =>
    obtain ⟨answer, self, he, hs⟩ := s.identity.validate_spec id rpId scope (clock.now 0)
    exact ⟨.valid answer, self, s.events, by simp only [identityStep, he], nofun, settled (hs _ _)⟩
  | withAuthorized ctx scope =>
    rcases s.withAuthorized_cases ctx scope (fun self => ((), self)) clock with ⟨e, self, he, hs⟩ | h
    · exact ⟨.authorized (.error e), self, s.events, by simp only [identityStep, he], nofun, settled (hs _ _)⟩
    · obtain ⟨self, session, device, hv, -, hs, he⟩ := h
      exact ⟨.authorized (.ok ()), _, s.events, by simp only [identityStep, he], nofun,
        settled ((hs _ _).trans (validated_touch hv _))⟩
  | elevate ctx scope =>
    cases hans : s.identity.elevate ctx scope clock with
    | error p =>
      obtain ⟨answer, self, he, -⟩ := s.identity.elevate_spec (E := fun _ _ _ _ => True) ctx scope clock s.events
        (fun _ _ _ => trivial)
      rw [hans] at he
      cases he
    | ok pair =>
      obtain ⟨answer, self⟩ := pair
      obtain ⟨answer', self', he, hs⟩ := s.identity.elevate_spec (E := elevates (.elevate ctx scope) clock
        (.elevation answer)) ctx scope clock s.events (fun «until» self' he => by
          rw [hans] at he
          cases he
          exact ⟨rfl, rfl, rfl, rfl⟩)
      rw [hans] at he
      cases he
      exact ⟨.elevation answer, self, s.events, by simp only [identityStep, hans], nofun, settled hs⟩
  | command command => exact ⟨_, _, _, rfl, nofun, (s.identity.command_spec command s.events).1⟩
  | registerVerified pairing verified =>
    exact ⟨_, _, _, rfl, nofun, (s.identity.registerVerified_spec ext pairing verified s.events clock).1⟩
  | finishAssertion response verify ctx draw owners sessions =>
    cases hans : s.identity.finishAssertion ext s.rpId response verify ctx draw owners sessions s.events clock with
    | error p =>
      obtain ⟨answer, self, events, he, -⟩ := Identity.finishAssertion_spec (E := fun _ _ _ _ => True) ext h s.rpId
        response verify ctx draw owners sessions s.events clock (fun _ _ _ _ _ _ => trivial)
      rw [hans] at he
      cases he
    | ok triple =>
      obtain ⟨answer, self, events⟩ := triple
      obtain ⟨answer', self', events', he, hne, hm⟩ := Identity.finishAssertion_spec
        (E := elevates (.finishAssertion response verify ctx draw owners sessions) clock (.assertion answer)) ext h
        s.rpId response verify ctx draw owners sessions s.events clock (fun c scope «until» held hc he => by
          subst hc
          rw [hans] at he
          cases he
          exact ⟨rfl, rfl, rfl, rfl⟩)
      rw [hans] at he
      cases he
      exact ⟨.assertion answer, self, events, by simp only [identityStep, hans],
        fun h => hne (Outcome.assertion.inj h), hm⟩
  | assertionFailed id rollback =>
    exact ⟨_, _, _, rfl, nofun, s.identity.assertionFailed_moves id rollback s.events⟩
  | logout id => exact ⟨_, _, _, rfl, nofun, settled (s.identity.invalidateSession_settles id s.events)⟩
  | purgeExpired =>
    exact ⟨_, _, _, rfl, nofun, settled (s.identity.purgeExpired_settles (clock.now 0) s.events)⟩
  | maintenance dirty deferred =>
    exact ⟨_, _, _, rfl, nofun, settled (s.identity.maintenance_settles s.events dirty deferred clock)⟩
  | registerPeer ctx =>
    rcases s.withAuthorized_cases ctx .view (fun self => self.registerPeer ctx) clock with ⟨e, self, he, hs⟩ | h
    · exact ⟨.peer (.error e), self, s.events, by simp only [identityStep, he], nofun, settled (hs _ _)⟩
    · obtain ⟨self, session, device, hv, -, hs, he⟩ := h
      exact ⟨.peer (.ok (Identity.registerPeer _ ctx).1), _, s.events, by simp only [identityStep, he]; rfl, nofun,
        settled (((hs _ _).trans (validated_touch hv _)).trans (registerPeer_settles _ ctx (touched_session _ _ _ _ _) _))⟩
  | unregisterPeer id => exact ⟨_, _, _, rfl, nofun, settled (.single (.disconnect _ _ id))⟩
  | elevationOptions ctx scope start =>
    rcases s.elevationOptions_cases ctx scope start clock with ⟨e, self, he, -, hs⟩ | ⟨self, session, state, -, hs, he⟩
    · exact ⟨.options (.error e), self, s.events, by simp only [identityStep, he], nofun, settled (hs _ _)⟩
    · refine ⟨.options (s.elevationCeremony self ctx scope state clock).1,
        (s.elevationCeremony self ctx scope state clock).2.1, s.events, by simp only [identityStep, he], nofun,
        settled ?_⟩
      rw [elevationCeremony_identity]
      exact (hs _ _).trans (self.purgeExpired_settles (clock.now 2) s.events)
  | insertCeremony _ | takeRegistration _ _ | takeAssertion _ _ | purgeCeremonies =>
    exact ⟨_, _, _, rfl, nofun, settled .refl⟩

end Gateway
end Yuzora
