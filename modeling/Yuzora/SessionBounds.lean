import Yuzora.SessionRun
import Mathlib.Data.List.Perm.Subperm
/-!
# SessionBounds — the limits of every state a run reaches, and the answers they rule out

The elevation challenges are one for each session, so they never outnumber the sessions; peers get numbers that only grow.
-/
namespace Yuzora

/-! ## Challenges -/

namespace Ceremonies

def Distinct (self : Ceremonies) : Prop :=
  ∀ k k' c c' session, self.entries.get k = some c → self.entries.get k' = some c' →
    c.kind.elevationSession = some session → c'.kind.elevationSession = some session → k = k'

def elevationSessions (self : Ceremonies) : List (Bytes 32) :=
  self.entries.entries.filterMap (fun e => e.2.kind.elevationSession)

variable {self : Ceremonies}

theorem mem_elevationSessions {session : Bytes 32} :
    session ∈ self.elevationSessions ↔ ∃ k c, self.entries.get k = some c ∧ c.kind.elevationSession = some session := by
  simp only [elevationSessions, List.mem_filterMap, Table.get_eq_some]
  constructor
  · rintro ⟨e, he, hs⟩
    exact ⟨e.1, e.2, he, hs⟩
  · rintro ⟨k, c, hm, hs⟩
    exact ⟨(k, c), hm, hs⟩

theorem Distinct.nodup (h : self.Distinct) : self.elevationSessions.Nodup := by
  have hkeys : self.entries.entries.Pairwise (fun a b => a.1 ≠ b.1) := List.pairwise_map.1 self.entries.nodup
  refine List.pairwise_filterMap.2 (hkeys.imp_of_mem (fun {a b} ha hb hne session hs session' hs' heq => ?_))
  exact hne (h a.1 b.1 a.2 b.2 session (Table.get_eq_some.2 ha) (Table.get_eq_some.2 hb) hs (heq ▸ hs'))

theorem length_elevationSessions (self : Ceremonies) :
    self.elevationSessions.length = self.entries.count (fun _ c => c.kind.elevationSession.isSome) :=
  List.length_filterMap_eq_countP

def Within (self other : Ceremonies) : Prop :=
  (∀ k c, self.entries.get k = some c → other.entries.get k = some c) ∧ self.elevationLimit = other.elevationLimit

theorem Within.distinct {other : Ceremonies} (h : self.Within other) (hd : other.Distinct) : self.Distinct :=
  fun k k' c c' session hk hk' => hd k k' c c' session (h.1 k c hk) (h.1 k' c' hk')

theorem Within.refl (self : Ceremonies) : self.Within self := ⟨fun _ _ h => h, rfl⟩

theorem Within.trans {a b c : Ceremonies} (h : a.Within b) (h' : b.Within c) : a.Within c :=
  ⟨fun k e hk => h'.1 k e (h.1 k e hk), h.2.trans h'.2⟩

theorem within_retain (self : Ceremonies) (p : SentChallenge → Ceremony → Bool) (order : List SentChallenge) :
    { self with entries := self.entries.retain p, loginOrder := order }.Within self := by
  refine ⟨fun k c h => ?_, rfl⟩
  rw [Table.get_retain, Option.filter_eq_some_iff] at h
  exact h.1

theorem retainSessions_within (self : Ceremonies) (active : List (Bytes 32)) : (self.retainSessions active).Within self :=
  self.within_retain _ self.loginOrder

theorem purge_within (self : Ceremonies) (now : Timestamp) : (self.purge now).Within self := self.within_retain _ _

theorem makeRoom_ok {self' : Ceremonies} {kind : CeremonyKind} (h : self.makeRoom kind = .ok self') :
    self'.Within self ∧ ∀ k c, kind.elevationSession.isSome → self'.entries.get k = some c →
      c.kind.elevationSession ≠ kind.elevationSession := by
  cases kind with
  | login state =>
    simp only [makeRoom] at h
    split at h
    · cases h
      exact ⟨.refl _, fun _ _ hs => by cases hs⟩
    · split at h
      · cases h
        exact ⟨self.within_retain _ _, fun _ _ hs => by cases hs⟩
      · cases h
        exact ⟨.refl _, fun _ _ hs => by cases hs⟩
  | registration pairing deviceId state =>
    simp only [makeRoom] at h
    split at h
    · cases h
    · cases h
      exact ⟨.refl _, fun _ _ hs => by cases hs⟩
  | elevation session scope state =>
    simp only [makeRoom] at h
    split at h
    · cases h
    · cases h
      refine ⟨self.within_retain _ _, fun k c _ hk => ?_⟩
      simp only [Table.get_retain, Option.filter_eq_some_iff, decide_eq_true_eq] at hk
      exact hk.2

theorem refusedRoom_within (self : Ceremonies) (kind : CeremonyKind) : (self.refusedRoom kind).Within self := by
  cases kind with
  | elevation session scope state => exact self.within_retain _ _
  | login _ | registration _ _ _ => exact .refl _

/-- **An insertion keeps one challenge for each session.** -/
theorem insert_distinct (h : self.Distinct) (ceremony : Ceremony) (now : Timestamp) :
    (self.insert ceremony now).2.Distinct ∧ (self.insert ceremony now).2.elevationLimit = self.elevationLimit := by
  unfold Ceremonies.insert
  simp only
  have hp := self.purge_within now
  split
  · have hr := ((self.purge now).refusedRoom_within ceremony.kind).trans hp
    exact ⟨hr.distinct h, hr.2⟩
  · rename_i self' hroom
    obtain ⟨hw, hne⟩ := makeRoom_ok hroom
    have hd := (hw.trans hp).distinct h
    refine ⟨fun k k' c c' session hk hk' hs hs' => ?_, (hw.trans hp).2⟩
    simp only [Table.get_insert] at hk hk'
    split at hk <;> split at hk'
    · rename_i h1 h2
      rw [h1, h2]
    · cases hk
      exact absurd (hs'.trans hs.symm) (hne k' c' (by rw [hs]; rfl) hk')
    · cases hk'
      exact absurd (hs.trans hs'.symm) (hne k c (by rw [hs']; rfl) hk)
    · exact hd k k' c c' session hk hk' hs hs'

theorem takeRegistration_within (self : Ceremonies) (pairingId : String) (challenge : Option SentChallenge)
    (now : Timestamp) : (self.takeRegistration pairingId challenge now).2.Within self := by
  have hp := self.purge_within now
  unfold takeRegistration
  simp only
  split
  · exact hp
  · split
    · exact hp
    · split
      · exact ((self.purge now).within_retain _ _).trans hp
      · exact hp

theorem takeAssertion_within (self : Ceremonies) (challenge : Option SentChallenge)
    (session : Option (Bytes 32 × Scope)) (now : Timestamp) :
    (self.takeAssertion challenge session now).2.Within self := by
  have hp := self.purge_within now
  unfold takeAssertion
  simp only
  split
  · exact hp
  · split
    · exact hp
    · split
      · exact ((self.purge now).within_retain _ _).trans hp
      · exact hp

/-- **One challenge for each session, and the sessions it may be for**: there is room for one more. -/
theorem insert_elevation (h : self.Distinct) (ceremony : Ceremony) (now : Timestamp)
    {session : Bytes 32} {scope : Scope} {state : SentChallenge} (hk : ceremony.kind = .elevation session scope state)
    {keys : List (Bytes 32)} (hkeys : session ∈ keys) (hsub : ∀ id ∈ self.elevationSessions, id ∈ keys)
    (hlimit : keys.length ≤ self.elevationLimit) : (self.insert ceremony now).1 = .ok () := by
  unfold Ceremonies.insert
  simp only [hk]
  have hp := self.purge_within now
  generalize self.purge now = purged at hp ⊢
  generalize hroom : { purged with
    entries := purged.entries.retain (fun _ c => decide (c.kind.elevationSession ≠ some session)) } = room
  have hw : room.Within self := by
    rw [← hroom]
    exact (purged.within_retain _ _).trans hp
  have hnot : session ∉ room.elevationSessions := by
    intro hm
    obtain ⟨k, c, hg, hs⟩ := mem_elevationSessions.1 hm
    rw [← hroom] at hg
    simp only [Table.get_retain, Option.filter_eq_some_iff, decide_eq_true_eq] at hg
    exact hg.2 hs
  have hnodup : (session :: room.elevationSessions).Nodup := List.nodup_cons.2 ⟨hnot, (hw.distinct h).nodup⟩
  have hle := (List.subperm_of_subset hnodup (fun id hid => by
    rcases List.mem_cons.1 hid with rfl | hid
    · exact hkeys
    · obtain ⟨k, c, hg, hs⟩ := mem_elevationSessions.1 hid
      exact hsub id (mem_elevationSessions.2 ⟨k, c, hw.1 k c hg, hs⟩))).length_le
  rw [List.length_cons, length_elevationSessions] at hle
  have hlt : ¬ room.entries.count (fun _ c => c.kind.elevationSession.isSome) ≥ room.elevationLimit := by
    rw [hw.2]
    omega
  have hmake : purged.makeRoom (.elevation session scope state) = .ok room := by
    subst hroom
    exact if_neg hlt
  rw [hmake]

end Ceremonies

/-! ## Runs -/

theorem deviceTable_spec (devices : List Device) : (deviceTable devices).size ≤ devices.length ∧
      ∀ id device, (deviceTable devices).get id = some device → device.deviceId = id := by
  unfold deviceTable
  generalize ht : (Table.empty : Table String Device) = t
  have hsize : t.size = 0 := by rw [← ht]; rfl
  have hids : ∀ id device, t.get id = some device → device.deviceId = id := by
    intro id device h
    rw [← ht] at h
    cases h
  have main : ∀ (ds : List Device) (t : Table String Device),
      (∀ id device, t.get id = some device → device.deviceId = id) →
      (ds.foldl (fun table d => table.insert d.deviceId d) t).size ≤ t.size + ds.length ∧
        ∀ id device, (ds.foldl (fun table d => table.insert d.deviceId d) t).get id = some device →
          device.deviceId = id := by
    intro ds
    induction ds with
    | nil => exact fun t h => ⟨Nat.le_refl _, h⟩
    | cons d ds ih =>
      intro t h
      obtain ⟨h1, h2⟩ := ih (t.insert d.deviceId d) (fun id device hg => by
        rw [Table.get_insert] at hg
        split at hg
        · rename_i hid
          rw [← Option.some.inj hg, hid]
        · exact h id device hg)
      have hle := Table.size_insert_le t d.deviceId d
      exact ⟨by rw [List.foldl_cons, List.length_cons]; omega, h2⟩
  obtain ⟨h1, h2⟩ := main devices t hids
  exact ⟨by omega, h2⟩

namespace Identity

theorem new_ok {ext : External} {devices : List Device} {policy : Policy} {self : Identity}
    (h : Identity.new ext devices policy = .ok self) :
    self.Limits ∧ self.policy = policy ∧ self.sessions = Table.empty ∧ self.notifications = Table.empty ∧
      self.dirtyDevices = Table.empty ∧ self.devices = deviceTable devices := by
  unfold Identity.new at h
  split at h
  · cases h
  · rename_i hok
    split at h
    · cases h
    · cases h
      obtain ⟨hsize, hids⟩ := deviceTable_spec devices
      have hmax : devices.length ≤ policy.maxDevices := not_lt.1 (fun hlt => hok (.inr (.inl hlt)))
      have none : ∀ {K V : Type} [DecidableEq K] {k : K} {v : V} {p : Prop}, (Table.empty : Table K V).get k = some v → p :=
        nofun
      exact ⟨⟨hids, fun _ _ => none, fun _ => Nat.zero_le _, le_trans hsize hmax, fun _ _ => none,
        fun _ => Nat.zero_le _, fun _ _ => none⟩, rfl, rfl, rfl, rfl, rfl⟩

variable {E : Elevations}

theorem Moves.policy {s t : Held} (h : Moves E s t) : t.1.policy = s.1.policy :=
  Moves.invariant (fun t => t.1.policy = s.1.policy) (fun a b ha hc => by cases hc <;> exact ha)
    (fun a b ha hs => by
      cases hs with
      | prepare hp => cases hp <;> exact ha
      | _ => exact ha) rfl h

theorem Moves.nextPeer {s t : Held} (h : Moves E s t) : s.1.nextPeer ≤ t.1.nextPeer :=
  Moves.invariant (fun t => s.1.nextPeer ≤ t.1.nextPeer) (fun a b ha hc => by cases hc <;> exact ha)
    (fun a b ha hs => by
      cases hs with
      | prepare hp => cases hp <;> exact ha
      | connect _ _ => exact Nat.le_succ_of_le ha
      | _ => exact ha) (Nat.le_refl _) h

end Identity

namespace Gateway

open Identity (touched_session Held Moves Settles Prepares Elevations Validated)

variable {ext : External} {devices : List Device} {policy : Policy}

variable {s : Gateway} {label : Label}

/-- **One step of a run**: moves of the identity, and the clock. -/
theorem Step.moves {t : Gateway} (h : Step ext s label t) (hl : s.identity.Limits) :
    Moves (elevates label.op label.clock label.outcome) (s.identity, s.events) (t.identity, t.events) ∧
      label.outcome ≠ .assertion (.error Identity.SESSION_LIMIT) ∧ t.rpId = s.rpId ∧
      t.ceremonies = s.ceremonyStep label.op label.clock ∧ t.clock = label.clock.done := by
  obtain ⟨-, -, h⟩ := h
  obtain ⟨outcome, self, events, he, hne, hm⟩ := identityStep_spec ext hl label.op label.clock
  simp only [step, he, Except.ok.injEq, Prod.mk.injEq] at h
  obtain ⟨rfl, rfl⟩ := h
  exact ⟨hm, hne, rfl, rfl, rfl⟩

variable {l : List (Transition Gateway Label)} {self : Identity}

theorem Run.limits (h : Run ext devices policy l s) : s.identity.Limits ∧ s.identity.policy = policy :=
  Trace.invariant (P := fun s => s.identity.Limits ∧ s.identity.policy = policy)
    (fun _ hs => ⟨(Identity.new_ok hs.1).1, (Identity.new_ok hs.1).2.1⟩)
    (fun _ _ _ hs hst => ⟨hs.1.moves (hst.moves hs.1).1, (Moves.policy (hst.moves hs.1).1).trans hs.2⟩) h

theorem elevationCeremony_spec (h : self.Limits) (hd : s.ceremonies.Distinct)
    (hlimit : s.ceremonies.elevationLimit = self.sessionLimit) {ctx : AuthContext} {session : Session}
    (hs : self.sessions.get ctx.sessionId = some session) (scope : Scope) (state : SentChallenge) (clock : Readings) :
    (s.elevationCeremony self ctx scope state clock).1 = .ok state ∧
      (s.elevationCeremony self ctx scope state clock).2.2.Distinct ∧
      (s.elevationCeremony self ctx scope state clock).2.2.elevationLimit = s.ceremonies.elevationLimit := by
  unfold elevationCeremony
  simp only [Identity.activeSessionIds]
  generalize hact : (self.purgeExpired (clock.now 2)).sessions.keys = active
  have hw := s.ceremonies.retainSessions_within active
  have hsub : ∀ id ∈ (s.ceremonies.retainSessions active).elevationSessions, id ∈ self.sessions.keys := by
    intro id hid
    obtain ⟨k, c, hg, hk⟩ := Ceremonies.mem_elevationSessions.1 hid
    simp only [Ceremonies.retainSessions, Table.get_retain, Option.filter_eq_some_iff] at hg
    have hin : id ∈ active := by
      obtain ⟨-, hp⟩ := hg
      cases hkind : c.kind with
      | elevation session scope state =>
        rw [hkind] at hp hk
        rw [← Option.some.inj hk]
        simpa using hp
      | login _ | registration _ _ _ =>
        rw [hkind] at hk
        cases hk
    rw [← hact] at hin
    obtain ⟨session, hg⟩ := Table.mem_keys.1 hin
    exact Table.mem_keys.2 ⟨session, (Identity.purgeExpired_sessions hg).1⟩
  have hkeys : self.sessions.keys.length ≤ (s.ceremonies.retainSessions active).elevationLimit := by
    rw [hw.2, hlimit, Table.keys, List.length_map]
    exact h.size_le
  generalize hc : (⟨min ((clock.now 3).after (seconds 120)) (self.purgeExpired (clock.now 2)).policy.enableUntil,
    .elevation ctx.sessionId scope state⟩ : Ceremony) = ceremony
  have hins := Ceremonies.insert_elevation (hw.distinct hd) ceremony (clock.now 4) (by rw [← hc])
    (Table.mem_keys.2 ⟨session, hs⟩) hsub hkeys
  obtain ⟨hdis, hlim⟩ := Ceremonies.insert_distinct (hw.distinct hd) ceremony (clock.now 4)
  generalize (s.ceremonies.retainSessions active).insert ceremony (clock.now 4) = answer at hins hdis hlim ⊢
  obtain ⟨e | _, ceremonies⟩ := answer
  · cases hins
  · exact ⟨rfl, hdis, hlim.trans hw.2⟩

def Challenges (s : Gateway) : Prop :=
  s.ceremonies.Distinct ∧ s.ceremonies.elevationLimit = s.identity.sessionLimit

theorem challenges_step (h : s.Challenges) (hl : s.identity.Limits) {op : Op} (hop : op.proper)
    (clock : Readings) : (s.ceremonyStep op clock).Distinct ∧
      (s.ceremonyStep op clock).elevationLimit = s.ceremonies.elevationLimit := by
  obtain ⟨hd, hlim⟩ := h
  cases op with
  | elevationOptions ctx scope start =>
    simp only [ceremonyStep]
    rcases s.elevationOptions_cases ctx scope start clock with ⟨e, self, he, -, -⟩ | ⟨self, session, state, hs, hset, he⟩
    · rw [he]
      exact ⟨hd, rfl⟩
    · rw [he]
      have hm := (hset (fun _ _ _ _ => False) s.events).moves
      have hpol : self.sessionLimit = s.identity.sessionLimit := by
        have := Moves.policy hm
        rw [Identity.sessionLimit, this]
        rfl
      have hspec := elevationCeremony_spec (hl.moves hm) hd (hlim.trans hpol.symm) hs scope state clock
      exact hspec.2
  | insertCeremony ceremony => exact Ceremonies.insert_distinct hd ceremony (clock.now 0)
  | takeRegistration pairingId challenge =>
    have hw := s.ceremonies.takeRegistration_within pairingId challenge (clock.now 0)
    exact ⟨hw.distinct hd, hw.2⟩
  | takeAssertion challenge session =>
    have hw := s.ceremonies.takeAssertion_within challenge session (clock.now 0)
    exact ⟨hw.distinct hd, hw.2⟩
  | purgeCeremonies =>
    have hw := s.ceremonies.purge_within (clock.now 0)
    exact ⟨hw.distinct hd, hw.2⟩
  | _ => exact ⟨hd, rfl⟩

theorem Run.challenges (h : Run ext devices policy l s) : s.Challenges := by
  have both : s.Challenges ∧ s.identity.Limits := by
    refine Trace.invariant (P := fun s => s.Challenges ∧ s.identity.Limits) ?_ ?_ h
    · intro s hs
      obtain ⟨hl, hp, -⟩ := Identity.new_ok hs.1
      refine ⟨⟨?_, ?_⟩, hl⟩
      · rw [hs.2.1]
        intro k k' c c' session hk
        cases hk
      · rw [hs.2.1, Identity.sessionLimit, hp]
        rfl
    · intro s label t hs hst
      obtain ⟨hm, -, -, hc, -⟩ := hst.moves hs.2
      obtain ⟨hd, hlim⟩ := challenges_step hs.1 hs.2 hst.1 label.clock
      refine ⟨⟨by rw [hc]; exact hd, ?_⟩, hs.2.moves hm⟩
      have hp : t.identity.policy = s.identity.policy := Moves.policy hm
      rw [hc, hlim, hs.1.2, Identity.sessionLimit, Identity.sessionLimit, hp]
  exact both.1

/-! ## Peer numbers -/

def Outcome.peerId : Outcome → Option Nat
  | .peer (.ok answer) => answer
  | _ => none

def peerIds (l : List (Transition Gateway Label)) : List Nat := l.filterMap (fun x => x.label.outcome.peerId)

theorem identityStep_peer {op : Op} {clock : Readings} {answer : Except Failure (Option Nat)} {events : EventSender}
    (h : s.identityStep ext op clock = .ok (.peer answer, self, events)) : ∃ ctx, op = .registerPeer ctx := by
  cases op with
  | registerPeer ctx => exact ⟨ctx, rfl⟩
  | command _ | registerVerified _ _ | assertionFailed _ _ | logout _ | purgeExpired | maintenance _ _
  | unregisterPeer _ | insertCeremony _ | takeRegistration _ _ | takeAssertion _ _ | purgeCeremonies => cases h
  | authenticate _ _ | revalidate _ _ | validate _ _ _ | withAuthorized _ _ | elevate _ _
  | finishAssertion _ _ _ _ _ _ | elevationOptions _ _ _ =>
    simp only [identityStep] at h
    split at h <;> cases h

/-- **A peer gets a number no peer had.** -/
theorem step_peer {t : Gateway} {n : Nat} (h : Step ext s label t)
    (hn : label.outcome.peerId = some n) : s.identity.nextPeer ≤ n ∧ t.identity.nextPeer = n + 1 := by
  obtain ⟨op, clock, outcome⟩ := label
  obtain ⟨-, -, h⟩ := h
  cases outcome with
  | peer answer =>
    cases answer with
    | error e => cases hn
    | ok answer =>
      obtain rfl : answer = some n := hn
      simp only [step] at h
      split at h
      · cases h
      · rename_i outcome self events he
        obtain ⟨rfl, rfl⟩ : outcome = .peer (.ok (some n)) ∧ _ = t := by
          simpa only [Except.ok.injEq, Prod.mk.injEq] using h
        obtain ⟨ctx, rfl⟩ := identityStep_peer he
        simp only [identityStep] at he
        rcases s.withAuthorized_cases ctx .view (fun self => self.registerPeer ctx) clock with ⟨e, self, hw, -⟩ | hw
        · rw [hw] at he
          cases he
        · obtain ⟨self', session, device, -, -, hs, hw⟩ := hw
          have hmono := Moves.nextPeer (hs (fun _ _ _ _ => False) s.events).moves
          rw [hw] at he
          simp only [Except.ok.injEq, Prod.mk.injEq, Outcome.peer.injEq] at he
          obtain ⟨hsome, rfl, -⟩ := he
          simp only [Identity.registerPeer] at hsome ⊢
          split at hsome
          · cases hsome
          · rename_i h1
            rw [if_neg h1]
            split at hsome
            · cases hsome
            · rename_i h2
              rw [if_neg h2]
              cases hsome
              exact ⟨hmono, rfl⟩
  | _ => cases hn

theorem Run.peerIds (h : Run ext devices policy l s) :
    (Gateway.peerIds l).Pairwise (· < ·) ∧ ∀ n ∈ Gateway.peerIds l, n < s.identity.nextPeer := by
  refine Trace.history (P := fun l s => (Gateway.peerIds l).Pairwise (· < ·) ∧
    ∀ n ∈ Gateway.peerIds l, n < s.identity.nextPeer) ?_ ?_ h
  · exact fun _ _ => ⟨List.Pairwise.nil, nofun⟩
  · intro l s label t hl ⟨hp, hlt⟩ hst
    have hmono : s.identity.nextPeer ≤ t.identity.nextPeer := Moves.nextPeer (hst.moves (Run.limits hl).1).1
    simp only [Gateway.peerIds, List.filterMap_append, List.filterMap_cons, List.filterMap_nil] at hp hlt ⊢
    cases hn : label.outcome.peerId with
    | none =>
      simp only [List.append_nil]
      exact ⟨hp, fun n hm => lt_of_lt_of_le (hlt n hm) hmono⟩
    | some n =>
      obtain ⟨hle, hnext⟩ := step_peer hst hn
      refine ⟨List.pairwise_append.2 ⟨hp, List.pairwise_singleton _ _, fun a ha b hb => ?_⟩, fun a ha => ?_⟩
      · rw [List.mem_singleton.1 hb]
        exact lt_of_lt_of_le (hlt a ha) hle
      · rcases List.mem_append.1 ha with ha | ha
        · exact lt_of_lt_of_le (hlt a ha) hmono
        · rw [List.mem_singleton.1 ha, hnext]
          exact Nat.lt_succ_self n

/-! ## Runs that go on -/

/-- The answer of an operation, and the gateway after it; a panic would leave it where it is. -/
def after (ext : External) (s : Gateway) (op : Op) (clock : Readings) : Outcome × Gateway :=
  match s.step ext op clock with
  | .ok answer => answer
  | .error _ => (.done, s)

/-- **A run can always go on**, with any operation at any later reading. -/
theorem Run.continue (h : Run ext devices policy l s) (op : Op)
    (clock : Readings) (hop : op.proper) (hc : s.clock ≤ clock.now 0) :
    Run ext devices policy (l ++ [⟨s, ⟨op, clock, (s.after ext op clock).1⟩, (s.after ext op clock).2⟩])
      (s.after ext op clock).2 := by
  obtain ⟨outcome, self, events, he, -⟩ := identityStep_spec ext h.limits.1 op clock
  refine .snoc h ⟨hop, hc, ?_⟩
  simp only [after, step, he]

end Gateway

/-! ## One phone -/

namespace Sample

open Gateway (Op Outcome Label Run peerIds)

def digest : Bytes 32 :=
  ⟨[114, 205, 110, 132, 34, 196, 7, 251, 109, 9, 134, 144, 241, 19, 11, 125, 237, 126, 194, 247, 245, 225, 211, 11, 217,
    213, 33, 240, 21, 54, 55, 147], rfl⟩

def binding : Bytes 32 := ⟨List.replicate 32 1, rfl⟩
def sessionId : Bytes 32 := ⟨List.replicate 32 2, rfl⟩

/-- The key of the paired phone: an Ed25519 key in the library's encoding. -/
def key : List UInt8 := [0, 88] ++ List.replicate 31 102 ++ [0, 0]

def ext : External where
  sha256 := fun bytes => if bytes = binding.1 then digest else Bytes.zero 32
  hmacSha256 := fun _ _ => Bytes.zero 32
  acceptsKey := fun bytes => decide (bytes = key)

def newYear : Timestamp := 1893456000000000000

def phone : Device where
  deviceId := "AAAAAAAAAAAAAAAAAAAAAA"
  label := "Test phone"
  credentials := [⟨"AQ", "desktop.tailnet.ts.net", "AFhmZmZmZmZmZmZmZmZmZmZmZmZmZmZmZmZmZmZmZmZmAAA",
    "webauthn_rp-0.3.0-static", 0, false, false, [.internal]⟩]
  grants := ⟨some ⟨newYear.after (hours 24)⟩, true⟩
  locked := false
  createdAt := newYear
  lastSeen := newYear

def policy : Policy := ⟨4070908800000000000, 30, 12, 15, false, 5, .o2⟩

def identity : Identity :=
  { devices := deviceTable [phone], notifications := Table.empty, sessions := Table.empty, peers := Table.empty
    nextPeer := 0, failures := Table.empty, dirtyDevices := Table.empty, policy }

def started : Gateway where
  rpId := "desktop.tailnet.ts.net"
  identity := identity
  ceremonies := Ceremonies.new 5
  events := ⟨fun _ => true, 0, []⟩
  clock := newYear

def clock : Readings := Readings.const newYear

def assertion (counter : UInt32) (ctx : Option (AuthContext × Scope)) : Op :=
  .finishAssertion ⟨some "AQ", some "AAAAAAAAAAAAAAAAAAAAAA"⟩ (fun _ => .ok ⟨counter, false⟩) ctx
    ⟨some binding, some sessionId⟩ Visit.plain Visit.plain

def ctx : AuthContext := ⟨sessionId, "AAAAAAAAAAAAAAAAAAAAAA", "desktop.tailnet.ts.net"⟩

def login : Op := assertion 1 none

def loggedIn : Gateway := (started.after ext login clock).2

theorem run_started : Run ext [phone] policy [] started := .start ⟨rfl, rfl, rfl⟩

theorem run_loggedIn : Run ext [phone] policy
    [⟨started, ⟨login, clock, (started.after ext login clock).1⟩, loggedIn⟩] loggedIn :=
  run_started.continue login clock trivial (le_refl _)

def connected : Gateway := (loggedIn.after ext (.registerPeer ctx) clock).2

theorem run_connected : Run ext [phone] policy [⟨started, ⟨login, clock, (started.after ext login clock).1⟩, loggedIn⟩,
      ⟨loggedIn, ⟨.registerPeer ctx, clock, (loggedIn.after ext (.registerPeer ctx) clock).1⟩, connected⟩] connected :=
  run_loggedIn.continue (.registerPeer ctx) clock trivial (le_refl _)

end Sample

namespace Gateway

variable {ext : External} {devices : List Device} {policy : Policy}

/-- **Every state a run reaches is inside the limits**, and no operation there panics, meets the session limit, or is
refused an elevation challenge for want of room. -/
theorem run_bounds {l : List (Transition Gateway Label)} {s : Gateway} (h : Run ext devices policy l s) :
    (∀ sid session, s.identity.sessions.get sid = some session →
      ∃ device, s.identity.devices.get session.deviceId = some device ∧ device.locked = false ∧
        device.hasCredential session.rpId = true) ∧
    (∀ device, s.identity.sessions.count (fun _ session => decide (session.deviceId = device)) ≤ 4) ∧
    s.identity.devices.size ≤ policy.maxDevices ∧
    (∀ n peer, s.identity.peers.get n = some peer → s.identity.sessions.get peer.session = none →
      peer.invalidated = true) ∧
    (∀ device, s.identity.peers.count (fun _ peer => decide (peer.device = device)) ≤ 2) ∧
    (peerIds l).Pairwise (· < ·) ∧ (∀ n peer, s.identity.peers.get n = some peer → n < s.identity.nextPeer) ∧
    ∀ (op : Op) (clock : Readings), op.proper → ∃ outcome t, s.step ext op clock = .ok (outcome, t) ∧
      (∀ n, outcome.peerId = some n → s.identity.nextPeer ≤ n ∧ n ∉ peerIds l) ∧
      outcome ≠ .assertion (.error Identity.SESSION_LIMIT) ∧
      ∀ ctx scope start, op = .elevationOptions ctx scope start → outcome ≠ .options (.error CHALLENGE_LIMIT) := by
  obtain ⟨hl, hpol⟩ := h.limits
  obtain ⟨hpair, hlt⟩ := Run.peerIds h
  refine ⟨hl.owner, hl.sessions, hpol ▸ hl.devices, hl.orphan, hl.peers, hpair, hl.peerId, fun op clock hop => ?_⟩
  obtain ⟨outcome, self, events, he, hne, -⟩ := identityStep_spec ext hl op clock
  have hstep : s.step ext op clock = .ok (outcome, { s with
      identity := self, events, ceremonies := s.ceremonyStep op clock, clock := clock.done }) := by
    simp only [step, he]
  refine ⟨outcome, _, hstep, ?_, hne, ?_⟩
  · intro n hn
    have hst : Step ext { s with clock := clock.now 0 } ⟨op, clock, outcome⟩ _ := ⟨hop, le_refl _, hstep⟩
    have hle := (step_peer hst hn).1
    exact ⟨hle, fun hm => absurd (hlt n hm) (not_lt.2 hle)⟩
  · rintro ctx scope start rfl hopt
    rcases s.elevationOptions_cases ctx scope start clock with ⟨e, self', hc, hlim, -⟩ | ⟨self', session, state, hs, hset, hc⟩
    · simp only [identityStep, hc, Except.ok.injEq, Prod.mk.injEq] at he
      obtain ⟨rfl, -⟩ := he
      exact hlim (Except.error.inj (Outcome.options.inj hopt))
    · obtain ⟨hd, hel⟩ := h.challenges
      have hm := (hset (fun _ _ _ _ => False) s.events).moves
      have hp : self'.policy = s.identity.policy := Identity.Moves.policy hm
      have hspec := elevationCeremony_spec (hl.moves hm) hd
        (hel.trans (by rw [Identity.sessionLimit, Identity.sessionLimit, hp])) hs scope state clock
      simp only [identityStep, hc, Except.ok.injEq, Prod.mk.injEq] at he
      obtain ⟨rfl, -⟩ := he
      rw [hspec.1] at hopt
      cases hopt

/-- A phone logged in and connected: one session, peer number 0. -/
theorem run_bounds_connected : Sample.connected.identity.sessions.size = 1 ∧ Sample.connected.identity.nextPeer = 1 ∧
      Sample.connected.identity.peers.count (fun _ peer => decide (peer.device = Sample.phone.deviceId)) ≤ 2 ∧
      ∀ device, Sample.connected.identity.sessions.count (fun _ session => decide (session.deviceId = device)) ≤ 4 :=
  have h := run_bounds Sample.run_connected
  ⟨by rfl, by rfl, h.2.2.2.2.1 _, h.2.1⟩

end Gateway
end Yuzora
