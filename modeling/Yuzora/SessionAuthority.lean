import Yuzora.SessionBounds
/-!
# SessionAuthority — what an authorized write rests on

A session's elevation comes from one elevation in the run; everything that changes its device's record drops the session.
So whoever is authorized for control or full was elevated, not long ago, and nothing happened to the device since.
-/
namespace Yuzora

theorem Session.until_elevated {session session' : Session} {scope : Scope} {«until» now : Timestamp}
    (h : session.elevated scope «until» now = some session') :
    session'.until scope = some «until» ∧ ∀ other, other ≠ scope → session'.until other = session.until other := by
  cases scope with
  | view => cases h
  | control =>
    cases h
    refine ⟨rfl, fun other ho => ?_⟩
    cases other with
    | control => exact absurd rfl ho
    | view | full => rfl
  | full =>
    cases h
    refine ⟨rfl, fun other ho => ?_⟩
    cases other with
    | full => exact absurd rfl ho
    | view | control => rfl

namespace Identity

/-- Same device, host and birth: one session through its changes. -/
def SameSession (session session' : Session) : Prop :=
  session.deviceId = session'.deviceId ∧ session.rpId = session'.rpId ∧ session.createdAt = session'.createdAt

theorem SameSession.refl (session : Session) : SameSession session session := ⟨rfl, rfl, rfl⟩

theorem SameSession.trans {a b c : Session} (h : SameSession a b) (h' : SameSession b c) : SameSession a c :=
  ⟨h.1.trans h'.1, h.2.1.trans h'.2.1, h.2.2.trans h'.2.2⟩

/-- Every elevation of `t` was there in `s`, or is one of `E` and inside the policy's maximum. -/
def Carried (E : Elevations) (s t : Held) : Prop :=
  t.1.policy = s.1.policy ∧
  ∀ sid session' scope «until», t.1.sessions.get sid = some session' → session'.until scope = some «until» →
    (∃ session, s.1.sessions.get sid = some session ∧ SameSession session session' ∧
      session.until scope = some «until») ∨
    ∃ now, E sid scope now «until» ∧ «until» ≤ now.after (minutes s.1.policy.elevationMaxMin)

variable {s m t : Held}

variable {E : Elevations}

theorem Carried.shrink (h : Carried E s m) (hp : t.1.policy = m.1.policy)
    (hs : ∀ sid session, t.1.sessions.get sid = some session → m.1.sessions.get sid = some session) : Carried E s t :=
  ⟨hp.trans h.1, fun sid session' scope «until» hg hu => h.2 sid session' scope «until» (hs sid session' hg) hu⟩

theorem Carried.replace {id : Bytes 32} {session session' : Session}
    (h : Carried E s m) (hp : t.1.policy = m.1.policy) (ht : t.1.sessions = m.1.sessions.insert id session')
    (hs : m.1.sessions.get id = some session) (hsame : SameSession session session')
    (hu : ∀ scope «until», session'.until scope = some «until» → session.until scope = some «until» ∨
      ∃ now, E id scope now «until» ∧ «until» ≤ now.after (minutes s.1.policy.elevationMaxMin)) : Carried E s t := by
  refine ⟨hp.trans h.1, fun sid session'' scope «until» hg hun => ?_⟩
  rw [ht, Table.get_insert] at hg
  split at hg
  · rename_i hid
    subst hid
    cases hg
    rcases hu scope «until» hun with hu | hu
    · rcases h.2 sid session scope «until» hs hu with ⟨old, ho, hsame', hu'⟩ | hE
      · exact .inl ⟨old, ho, hsame'.trans hsame, hu'⟩
      · exact .inr hE
    · exact .inr hu
  · exact h.2 sid session'' scope «until» hg hun

theorem Carried.settle (h : Carried E s m) (hst : Settle E m t) : Carried E s t := by
  cases hst with
  | prepare hp =>
    cases hp with
    | drop self events id =>
      refine h.shrink rfl (fun sid session hg => ?_)
      simp only [invalidateSession, Table.get_erase] at hg
      split at hg
      · cases hg
      · exact hg
    | failures self events failures => exact h.shrink rfl (fun _ _ hg => hg)
  | touch now hs hd => exact h.replace rfl rfl hs (.refl _) (fun _ _ hu => .inl hu)
  | @elevate self events id session session' scope now «until» hs he hle hE =>
    obtain ⟨h1, h2⟩ := Session.until_elevated he
    obtain ⟨hd, hr, hc⟩ := elevated_fields he
    refine h.replace rfl rfl hs ⟨hd.symm, hr.symm, hc.symm⟩ (fun other u hu => ?_)
    by_cases ho : other = scope
    · subst ho
      rw [h1] at hu
      cases hu
      have hpol : self.policy = s.1.policy := h.1
      exact .inr ⟨now, hE, hpol ▸ hle⟩
    · exact .inl ((h2 other ho).symm.trans hu)
  | openSession hd hl hc hnone hn =>
    refine ⟨h.1, fun sid session' scope «until» hg hu => ?_⟩
    simp only [Table.get_insert] at hg
    split at hg
    · cases hg
      rw [hnone scope] at hu
      cases hu
    · exact h.2 sid session' scope «until» hg hu
  | refuse | accept | note | forget | connect | disconnect => exact h.shrink rfl (fun _ _ hg => hg)

/-- **A step carries elevations over, and adds only its own.** -/
theorem Moves.carried {s t : Held} (h : Moves E s t) : Carried E s t :=
  Moves.invariant (Carried E s) (fun _ _ hm hc => by cases hc <;> exact hm.shrink rfl (fun _ _ hg => hg))
    (fun _ _ hm hs => hm.settle hs)
    ⟨rfl, fun sid session scope «until» hg hu => .inl ⟨session, hg, .refl session, hu⟩⟩ h

end Identity

namespace Gateway

open Identity (Held Moves Settles Elevations Validated SameSession Carried)

variable {ext : External} {devices : List Device} {policy : Policy}

/-- A transition that elevated the session to the scope, at reading `t₀`. -/
def Elevated (sid : Bytes 32) (scope : Scope) (t₀ : Timestamp) (x : Transition Gateway Label) : Prop :=
  ∃ «until», elevates x.label.op x.label.clock x.label.outcome sid scope t₀ «until»

/-- What happened to a device in a transition: a successful command, a registered credential, or a lock-out. -/
inductive Tightened (device : String) (x : Transition Gateway Label) : Prop
  | command {c : DeviceCommand} {answer : AdminResult} : x.label.op = .command c → c.deviceId = device →
      x.label.outcome = .command (.ok answer) → Tightened device x
  | registration {pairing : Pairing.Registration} {verified : Identity.VerifiedRegistration} :
      x.label.op = .registerVerified pairing verified → x.label.outcome = .registration (.ok device) →
      Tightened device x
  | lockOut {d d' : Device} : x.src.identity.devices.get device = some d → d.locked = false →
      x.dst.identity.devices.get device = some d' → d'.locked = true → Tightened device x

def Holds (sid : Bytes 32) (session : Session) (x : Transition Gateway Label) : Prop :=
  ∃ session', x.dst.identity.sessions.get sid = some session' ∧ SameSession session' session

/-- **Whatever happens to a device leaves it no session.** -/
theorem Tightened.noSession {s t : Gateway} {label : Label} {device : String} (hk : Tightened device ⟨s, label, t⟩)
    (h : Step ext s label t) (hl : t.identity.Limits) : t.identity.NoSession device := by
  obtain ⟨op, clock, outcome⟩ := label
  obtain ⟨-, -, h⟩ := h
  cases hk with
  | @command c answer hop hc hout =>
    subst hop hout
    simp only [step, identityStep, Except.ok.injEq, Prod.mk.injEq, Outcome.command.injEq] at h
    obtain ⟨hans, rfl⟩ := h
    exact hc ▸ (s.identity.command_spec (E := fun _ _ _ _ => False) c s.events).2 answer hans
  | @registration pairing verified hop hout =>
    subst hop hout
    simp only [step, identityStep, Except.ok.injEq, Prod.mk.injEq, Outcome.registration.injEq] at h
    obtain ⟨hans, rfl⟩ := h
    exact (s.identity.registerVerified_spec (E := fun _ _ _ _ => False) ext pairing verified s.events clock).2
      device hans
  | lockOut _ _ hd' hlock =>
    intro sid session hs hdev
    obtain ⟨d, hd, hun, -⟩ := hl.owner sid session hs
    rw [hdev, hd'] at hd
    rw [← Option.some.inj hd, hlock] at hun
    cases hun

/-- What a run knows about the elevation of a session that is still in the table. -/
def Rests (policy : Policy) (l : List (Transition Gateway Label)) (now : Timestamp) (sid : Bytes 32)
    (session : Session) (scope : Scope) («until» : Timestamp) : Prop :=
  ∃ t₀, t₀ ≤ now ∧ «until» ≤ t₀.after (minutes policy.elevationMaxMin) ∧
    Since (fun x => Elevated sid scope t₀ x ∧ Holds sid session x)
      (fun y => ¬ Tightened session.deviceId y ∧ Holds sid session y) l

theorem elevates_le {op : Op} {clock : Readings} {outcome : Outcome} {sid : Bytes 32} {scope : Scope}
    {now «until» : Timestamp} (h : elevates op clock outcome sid scope now «until») : now ≤ clock.done := by
  unfold elevates at h
  split at h
  · rw [h.2.2.1]
    exact clock.le_done 1
  · rw [h.2.2.1]
    exact clock.le_done 2
  · cases h

theorem Readings.start_le_done (clock : Readings) {t : Timestamp} (h : t ≤ clock.now 0) : t ≤ clock.done :=
  le_trans h (clock.le_done 0)

/-- **Every elevation in the table rests on one in the run**, with nothing done to the device since. -/
theorem Run.rests {l : List (Transition Gateway Label)} {s : Gateway} (h : Run ext devices policy l s) :
    ∀ sid session scope «until», s.identity.sessions.get sid = some session → session.until scope = some «until» →
      Rests policy l s.clock sid session scope «until» := by
  refine Trace.history (P := fun l s => ∀ sid session scope «until», s.identity.sessions.get sid = some session →
    session.until scope = some «until» → Rests policy l s.clock sid session scope «until») ?_ ?_ h
  · intro s hs sid session scope «until» hg
    rw [(Identity.new_ok hs.1).2.2.1] at hg
    cases hg
  · intro l s label t hl ih hst sid session' scope «until» hg hu
    obtain ⟨hlim, hpol⟩ := Run.limits hl
    obtain ⟨hm, -, -, -, hclock⟩ := hst.moves hlim
    have hlim' : t.identity.Limits := hlim.moves hm
    have holds : Holds sid session' ⟨s, label, t⟩ := ⟨session', hg, .refl session'⟩
    have hle : s.clock ≤ t.clock := by
      rw [hclock]
      exact Readings.start_le_done _ hst.2.1
    rcases hm.carried.2 sid session' scope «until» hg hu with ⟨session, hs, hsame, hu'⟩ | ⟨now, hE, hmax⟩
    · obtain ⟨t₀, h1, h2, h3⟩ := ih sid session scope «until» hs hu'
      have hcont : ¬ Tightened session'.deviceId ⟨s, label, t⟩ := fun hk => hk.noSession hst hlim' sid session' hg rfl
      have move : ∀ x, Holds sid session x → Holds sid session' x := fun x ⟨session'', hx, hsx⟩ =>
        ⟨session'', hx, hsx.trans hsame⟩
      refine ⟨t₀, le_trans h1 hle, h2, (h3.mono ?_ ?_).snoc ⟨hcont, holds⟩⟩
      · exact fun x _ hx => ⟨hx.1, move x hx.2⟩
      · exact fun x _ hx => ⟨hsame.1 ▸ hx.1, move x hx.2⟩
    · refine ⟨now, ?_, ?_, .now ⟨⟨«until», hE⟩, holds⟩⟩
      · rw [hclock]
        exact elevates_le hE
      · have hp : s.identity.policy = policy := hpol
        exact hp ▸ hmax

/-- **An authorized write rests on an elevation of its session.**  When `with_authorized` runs its closure for control
or full, the session is in the table, its device unlocked and with a passkey for the session's host, and the deadlines
ahead; that session was elevated to the scope no longer ago than the policy's maximum; and since then no command, no
registration and no lock-out happened to the device. -/
theorem authorized_rests {l : List (Transition Gateway Label)} {s : Gateway} (h : Run ext devices policy l s)
    {α : Type} (ctx : AuthContext) (scope : Scope) (write : Identity → α × Identity) (clock : Readings)
    (hscope : scope ≠ .view) (hclock : s.clock ≤ clock.now 0) (result : α) (identity' : Identity)
    (hw : s.withAuthorized ctx scope write clock = .ok (.ok result, identity')) :
    ∃ identity session device, write identity = (result, identity') ∧
      (identity.sessions.get ctx.sessionId = some session ∧ session.deviceId = ctx.deviceId ∧
        identity.devices.get session.deviceId = some device ∧ device.locked = false ∧
        device.hasCredential session.rpId = true ∧ clock.now 2 < policy.enableUntil ∧
        clock.now 2 < session.createdAt.after (hours policy.viewAbsoluteHours)) ∧
      ∃ t₀, t₀ ≤ clock.now 2 ∧ clock.now 2 < t₀.after (minutes policy.elevationMaxMin) ∧
        Since (fun x => Elevated ctx.sessionId scope t₀ x ∧ Holds ctx.sessionId session x)
          (fun y => ¬ Tightened session.deviceId y ∧ Holds ctx.sessionId session y) l := by
  rcases s.withAuthorized_cases ctx scope write clock with ⟨e, self, he, -⟩ | ⟨self, session, device, hv, hd, hset, he⟩
  · rw [hw] at he
    cases he
  · rw [hw] at he
    simp only [Except.ok.injEq, Prod.mk.injEq] at he
    obtain ⟨hres, hid⟩ := he
    have hm := (hset (fun _ _ _ _ => False) s.events).moves
    obtain ⟨-, hpol⟩ := h.limits
    have hp : self.policy = policy := (Identity.Moves.policy hm).trans hpol
    obtain ⟨«until», hu, hlt⟩ := hv.isElevated hscope
    obtain ⟨henable, habs, -, device', hdev, hlock, hcred⟩ := Identity.active_iff.1 hv.isActive
    rcases hm.carried.2 ctx.sessionId session scope «until» hv.hasSession hu with ⟨old, ho, hsame, hu'⟩ | ⟨_, hf, _⟩
    · obtain ⟨t₀, h1, h2, h3⟩ := h.rests ctx.sessionId old scope «until» ho hu'
      refine ⟨_, { session with lastSeen := clock.now 2 }, { device with lastSeen := clock.now 2 },
        Prod.ext hres.symm hid.symm, ⟨Table.get_insert_self _ _ _, hd, Table.get_insert_self _ _ _, ?_, ?_,
          hp ▸ henable, hp ▸ habs⟩, t₀, ?_, lt_of_lt_of_le hlt h2, h3.mono ?_ ?_⟩
      · rw [hv.hasDevice] at hdev
        rw [Option.some.inj hdev, hlock]
      · rw [hv.hasDevice] at hdev
        rw [← Option.some.inj hdev] at hcred
        exact hcred
      · exact le_trans h1 (le_trans hclock (Readings.now_le (Nat.zero_le 2)))
      · exact fun x _ hx => ⟨hx.1, hx.2.imp fun _ hy => ⟨hy.1, hy.2.trans hsame⟩⟩
      · exact fun x _ hx => ⟨hsame.1 ▸ hx.1, hx.2.imp fun _ hy => ⟨hy.1, hy.2.trans hsame⟩⟩
    · cases hf

end Gateway

namespace Sample

open Gateway (Op Outcome Label Run)

def elevation : Op := assertion 2 (some (ctx, .control))

def elevated : Gateway := (loggedIn.after ext elevation clock).2

def elevatedRun : List (Transition Gateway Label) :=
  [⟨started, ⟨login, clock, (started.after ext login clock).1⟩, loggedIn⟩,
    ⟨loggedIn, ⟨elevation, clock, (loggedIn.after ext elevation clock).1⟩, elevated⟩]

theorem run_elevated : Run ext [phone] policy elevatedRun elevated :=
  run_loggedIn.continue elevation clock trivial (le_refl _)

end Sample

namespace Gateway

/-- The phone that was just elevated may write, and its elevation is the run's second step. -/
theorem authorized_rests_elevated : ∃ identity, Sample.elevated.withAuthorized Sample.ctx .control (fun self => ((), self))
      Sample.clock = .ok (.ok (), identity) ∧
    ∃ session t₀, t₀ ≤ Sample.newYear ∧ Sample.newYear < t₀.after (minutes 15) ∧
      Since (fun x => Elevated Sample.sessionId .control t₀ x ∧ Holds Sample.sessionId session x)
        (fun y => ¬ Tightened session.deviceId y ∧ Holds Sample.sessionId session y) Sample.elevatedRun := by
  refine ⟨_, rfl, ?_⟩
  obtain ⟨_, session, _, _, _, t₀, h1, h2, h3⟩ := authorized_rests Sample.run_elevated Sample.ctx .control
    (fun self => ((), self)) Sample.clock (by decide) (le_refl _) () _ rfl
  exact ⟨session, t₀, h1, h2, h3⟩

end Gateway
end Yuzora
