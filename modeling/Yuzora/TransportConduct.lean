import Yuzora.TransportPaste
import Yuzora.TransportSound
/-!
# TransportConduct — a transport over whole runs

Where the sessions go that the Host returns (`Placed`), and what holds of a transport whatever its callers, its
connectors and the Host do, in whatever order (`transport_conduct`).
-/
namespace Yuzora
namespace Transport

open List
open Utf16 (Text utf8Length)

variable {s t : State}

/-! ## Opens -/

/-- The open of the latest generation finds no queue. -/
structure Opens (s : State) : Prop where
  known : ∀ generation call, s.opens.get generation = some call → generation ≤ s.openGeneration
  waits : ∀ call, s.opens.get s.openGeneration = some call → call.pending = true → s.inputQueue = none

/-- A record that is neither of an answered open nor of an acceptance. -/
def Record.plain : Record → Bool
  | .returned _ | .accepted _ _ => false
  | _ => true

/-- **What every action does but an open that is answered and an acceptance**: it lets go of the queue at most. -/
structure Calm (s t : State) : Prop where
  opens : t.opens = s.opens
  generation : t.openGeneration = s.openGeneration
  session : t.sessionId = s.sessionId
  input : t.inputQueue = s.inputQueue ∨ t.inputQueue = none
  log : ∃ extra, t.log = s.log ++ extra ∧ ∀ r ∈ extra, r.plain = true

theorem Calm.refl (s : State) : Calm s s :=
  ⟨rfl, rfl, rfl, .inl rfl, [], (append_nil _).symm, by simp⟩

theorem Calm.trans {u : State} (h : Calm s t) (h' : Calm t u) : Calm s u := by
  obtain ⟨extra, hlog, hplain⟩ := h.log
  obtain ⟨extra', hlog', hplain'⟩ := h'.log
  refine ⟨h'.opens.trans h.opens, h'.generation.trans h.generation, h'.session.trans h.session, ?_, extra ++ extra', ?_, ?_⟩
  · rcases h'.input with hinput | hinput
    · rw [hinput]
      exact h.input
    · exact .inr hinput
  · rw [hlog', hlog, append_assoc]
  · intro r hr
    exact (mem_append.1 hr).elim (hplain r) (hplain' r)

theorem calm_discardInput (s : State) : Calm s s.discardInput := by
  unfold State.discardInput
  split
  · exact .refl s
  · exact ⟨rfl, rfl, rfl, .inr rfl, [], (append_nil _).symm, fun r hr => by cases hr⟩

variable {r : Record}

theorem calm_record (s : State) (hr : r.plain = true) : Calm s { s with log := s.log ++ [r] } := by
  refine ⟨rfl, rfl, rfl, .inl rfl, [r], rfl, fun r' hr' => ?_⟩
  exact mem_singleton.1 hr' ▸ hr

theorem calm_tell (s : State) (event : TerminalTransportEvent) : Calm s (s.tell event) := by
  unfold State.tell
  split
  · exact calm_record s rfl
  · exact .refl s

theorem calm_failInput (s : State) (q : Nat) (message : String) : Calm s (s.failInput q message) := by
  unfold State.failInput
  split
  · exact (calm_discardInput s).trans (calm_tell _ _)
  · exact .refl s

theorem calm_reportStall (s : State) (attached : Nat) : Calm s (s.reportStall attached) := by
  unfold State.reportStall
  split
  · exact (calm_discardInput s).trans (calm_tell _ _)
  · exact .refl s

theorem calm_drains (s : State) (queues : Table Nat InputQueue) (drains : Table Nat Drain) :
    Calm s { s with queues, drains } :=
  ⟨rfl, rfl, rfl, .inl rfl, [], (append_nil _).symm, by simp⟩

theorem calm_drainOn (s : State) (q session : Nat) : Calm s (s.drainOn q session) := by
  unfold State.drainOn
  split
  · split
    · refine ⟨rfl, rfl, rfl, .inl rfl, [_], rfl, fun r hr => ?_⟩
      obtain rfl := mem_singleton.1 hr
      rfl
    · exact calm_drains s s.queues _
  · exact calm_drains s s.queues _

theorem calm_settled (s : State) (q session : Nat) (ok : Bool) : Calm s (s.settled q session ok) := by
  have hrecord := calm_record s (r := Record.settled session ok) rfl
  unfold State.settled
  split
  · exact hrecord.trans (calm_drainOn _ q session)
  · exact (hrecord.trans (calm_failInput _ q _)).trans (calm_drains _ _ _)

/-- **A write or a paste** is accepted for the current session, or changes little. -/
theorem enqueueInput_cases (s : State) (input : Input) : Calm s (s.enqueueInput input) ∨
    ∃ id q, s.sessionId = some id ∧ s.inputQueue = some q ∧ (s.enqueueInput input).log = s.log ++ [Record.accepted id input] ∧
      (s.enqueueInput input).opens = s.opens ∧ (s.enqueueInput input).openGeneration = s.openGeneration ∧
      (s.enqueueInput input).sessionId = s.sessionId ∧ (s.enqueueInput input).inputQueue = s.inputQueue := by
  unfold State.enqueueInput
  split
  · rename_i id q hid hq
    split
    · exact .inl (.refl s)
    · split
      · exact .inl (.refl s)
      · simp only
        split
        · exact .inl ((calm_record s rfl).trans (calm_failInput _ q _))
        · exact .inr ⟨id, q, hid, hq, rfl, rfl, rfl, rfl, rfl⟩
  · exact .inl (.refl s)

theorem Opens.calm (h : Opens s) (hopens : t.opens = s.opens) (hgeneration : t.openGeneration = s.openGeneration)
    (hinput : t.inputQueue = s.inputQueue ∨ t.inputQueue = none) : Opens t where
  known generation call hg := by
    rw [hopens] at hg
    rw [hgeneration]
    exact h.known generation call hg
  waits call hg hp := by
    rw [hopens, hgeneration] at hg
    rcases hinput with hinput | hinput
    · rw [hinput]
      exact h.waits call hg hp
    · exact hinput

theorem Opens.bump (h : Opens s) (hopens : t.opens = s.opens) (hgeneration : t.openGeneration = s.openGeneration + 1) :
    Opens t where
  known generation call hg := by
    rw [hopens] at hg
    have hle := h.known generation call hg
    omega
  waits call hg := by
    rw [hopens, hgeneration] at hg
    have hle := h.known _ call hg
    omega

theorem opens_openConnector (h : Opens s) (mode : HerdrTerminalMode) (takeover : Bool) (cols rows : Nat) :
    Opens (s.openConnector mode takeover cols rows) := by
  have hcalm := calm_discardInput s
  unfold State.openConnector
  split
  · exact h
  · refine ⟨fun generation call hg => ?_, fun _ _ _ => discardInput_inputQueue s⟩
    simp only [hcalm.opens, hcalm.generation] at hg ⊢
    rw [Table.get_insert] at hg
    split at hg
    · omega
    · have hle := h.known generation call hg
      omega

theorem Opens.answered (h : Opens s) {generation : Nat} {call : OpenCall} (hg : s.opens.get generation = some call)
    (hopens : t.opens = s.opens.insert generation { call with pending := false })
    (hgeneration : t.openGeneration = s.openGeneration)
    (hinput : t.inputQueue = s.inputQueue ∨ generation = s.openGeneration) : Opens t where
  known other call' ho := by
    rw [hopens, Table.get_insert] at ho
    rw [hgeneration]
    split at ho
    · rename_i heq
      exact heq ▸ h.known generation call hg
    · exact h.known other call' ho
  waits call' ho hp := by
    rw [hopens, hgeneration, Table.get_insert] at ho
    split at ho
    · cases ho
      cases hp
    · rename_i hne
      rcases hinput with hinput | heq
      · rw [hinput]
        exact h.waits call' ho hp
      · exact absurd heq.symm hne

/-! ## Sessions -/

/-- **Where a session is that the Host returned.** -/
def Placed (s : State) (id : Nat) : Prop :=
  s.sessionId = some id ∨ .handed id ∈ s.log ∨ .ended id ∈ s.log ∨ .release id ∈ s.log ∨
    (∃ result, .attached id result ∈ s.log) ∧ (.detached id ∈ s.log ∨ .replaced id ∈ s.log)

structure Located (s : State) : Prop where
  placed : ∀ id, .returned id ∈ s.log → Placed s id
  attached : ∀ id, s.sessionId = some id → ∃ result, .attached id result ∈ s.log

def Leaves (id : Nat) (extra : List Record) : Prop :=
  .handed id ∈ extra ∨ .ended id ∈ extra ∨ .release id ∈ extra ∨ .detached id ∈ extra ∨ .replaced id ∈ extra

variable {id : Nat} {extra : List Record} {f : Nat → Record}

theorem Located.placed_grow (h : Located s) (extra : List Record) (hlog : t.log = s.log ++ extra)
    (hleft : ∀ id, s.sessionId = some id → t.sessionId = some id ∨ Leaves id extra)
    (hr : .returned id ∈ s.log) : Placed t id := by
  have hmem : ∀ r, r ∈ s.log → r ∈ t.log := fun r hr => hlog ▸ mem_append_left _ hr
  have hextra : ∀ r, r ∈ extra → r ∈ t.log := fun r hr => hlog ▸ mem_append_right _ hr
  rcases h.placed id hr with hcurrent | hhanded | hended | hrelease | ⟨⟨result, hattached⟩, hleave⟩
  · rcases hleft id hcurrent with hstays | hhanded | hended | hrelease | hleave
    · exact .inl hstays
    · exact .inr (.inl (hextra _ hhanded))
    · exact .inr (.inr (.inl (hextra _ hended)))
    · exact .inr (.inr (.inr (.inl (hextra _ hrelease))))
    · obtain ⟨result, hattached⟩ := h.attached id hcurrent
      exact .inr (.inr (.inr (.inr ⟨⟨result, hmem _ hattached⟩, hleave.imp (hextra _) (hextra _)⟩)))
  · exact .inr (.inl (hmem _ hhanded))
  · exact .inr (.inr (.inl (hmem _ hended)))
  · exact .inr (.inr (.inr (.inl (hmem _ hrelease))))
  · exact .inr (.inr (.inr (.inr ⟨⟨result, hmem _ hattached⟩, hleave.imp (hmem _) (hmem _)⟩)))

theorem Located.grow (h : Located s) (extra : List Record) (hlog : t.log = s.log ++ extra)
    (hreturned : ∀ id, .returned id ∉ extra) (hleft : ∀ id, s.sessionId = some id → t.sessionId = some id ∨ Leaves id extra)
    (hsession : ∀ id, t.sessionId = some id → s.sessionId = some id) : Located t where
  placed id hr := by
    rw [hlog] at hr
    rcases mem_append.1 hr with hr | hr
    · exact h.placed_grow extra hlog hleft hr
    · exact absurd hr (hreturned id)
  attached id hs := by
    obtain ⟨result, hattached⟩ := h.attached id (hsession id hs)
    exact ⟨result, hlog ▸ mem_append_left _ hattached⟩

theorem Located.calm (h : Located s) (hc : Calm s t) : Located t := by
  obtain ⟨extra, hlog, hplain⟩ := hc.log
  refine h.grow _ hlog (fun id hr => ?_) (fun id hs => .inl (hc.session.trans hs)) fun id hs => hc.session ▸ hs
  exact absurd (hplain _ hr) (by simp [Record.plain])

theorem Located.leave (h : Located s) (hlog : t.log = s.log ++ (s.sessionId.map f).toList ++ extra)
    (hf : ∀ id, Leaves id [f id]) (hplain : ∀ id, (f id).plain = true) (hextra : ∀ r ∈ extra, r.plain = true)
    (hnone : t.sessionId = none) : Located t := by
  rw [append_assoc] at hlog
  refine h.grow _ hlog (fun id hr => ?_) (fun id hs => .inr ?_) fun id hs => by rw [hnone] at hs; cases hs
  · rcases mem_append.1 hr with hr | hr
    · cases hs : s.sessionId with
      | none => simp [hs] at hr
      | some current =>
        rw [hs] at hr
        obtain heq : Record.returned id = f current := by simpa using hr
        have hp := hplain current
        rw [← heq] at hp
        cases hp
    · exact absurd (hextra _ hr) (by simp [Record.plain])
  · have hmem : ∀ r, r ∈ [f id] → r ∈ (s.sessionId.map f).toList ++ extra := by
      intro r hr
      rw [hs]
      exact mem_append_left _ hr
    rcases hf id with hl | hl | hl | hl | hl
    · exact .inl (hmem _ hl)
    · exact .inr (.inl (hmem _ hl))
    · exact .inr (.inr (.inl (hmem _ hl)))
    · exact .inr (.inr (.inr (.inl (hmem _ hl))))
    · exact .inr (.inr (.inr (.inr (hmem _ hl))))

theorem located_opened (h : Located s) (generation : Nat) (call : OpenCall) (session : Nat) (result : OpenResult) :
    Located (s.opened generation call session result) := by
  unfold State.opened
  simp only
  split
  · -- Too late: it is released at once.
    refine ⟨fun id hr => ?_, fun id hs => ?_⟩
    · simp only [append_assoc, mem_append, Record.returned.injEq, cons_append,
        nil_append, mem_cons, not_mem_nil, or_false, reduceCtorEq] at hr
      rcases hr with hr | rfl
      · refine h.placed_grow ([Record.returned session] ++ [Record.release session]) ?_ ?_ hr
        · exact append_assoc ..
        · exact fun id hs => .inl hs
      · exact .inr (.inr (.inr (.inl (by simp))))
    · obtain ⟨result', hattached⟩ := h.attached id hs
      exact ⟨result', by simp [hattached]⟩
  · refine ⟨fun id hr => ?_, fun id hs => ?_⟩
    · by_cases hid : id = session
      · exact .inl (hid ▸ rfl)
      · have hold : Record.returned id ∈ s.log := by
          simp only [mem_append] at hr
          rcases hr with ((hr | hr) | hr) | hr
          · exact hr
          · exact absurd (Record.returned.inj (mem_singleton.1 hr)) hid
          · cases hs : s.sessionId with
            | none | some => simp [hs] at hr
          · simp at hr
        have hlog := append_assoc (s.log ++ [Record.returned session]) (s.sessionId.map Record.replaced).toList
          [Record.attached session result, Record.told (.control result.mode result.role)]
        refine h.placed_grow _ (hlog.trans (append_assoc ..)) (fun id hs => .inr ?_) hold
        exact .inr (.inr (.inr (.inr (by simp [hs]))))
    · cases hs
      exact ⟨result, by simp⟩

/-! ## Every action -/

structure Good (s : State) : Prop where
  sound : Sound s
  opens : Opens s
  located : Located s

theorem good_new (options : Options) : Good (.new options) where
  sound := sound_new options
  opens := ⟨fun generation call h => (by cases h), fun call h => (by cases h)⟩
  located := ⟨fun id h => (by cases h), fun id h => (by cases h)⟩

theorem Good.aside (h : Good s) (extra : List Record) (hextra : ∀ r ∈ extra, r.plain = true ∧ r.Aside)
    (hqueues : t.queues = s.queues) (hinput : t.inputQueue = s.inputQueue) (hdrains : t.drains = s.drains)
    (hnext : t.nextSession = s.nextSession) (hopens : t.opens = s.opens)
    (hgeneration : t.openGeneration = s.openGeneration) (hsession : t.sessionId = s.sessionId)
    (hlog : t.log = s.log ++ extra) : Good t where
  sound := h.sound.same extra hqueues hinput hdrains hlog (fun r hr => (hextra r hr).2)
    (fun id hi => hsession.trans (h.sound.current id hi).1) (Nat.le_of_eq hnext.symm)
  opens := h.opens.calm hopens hgeneration (.inl hinput)
  located := h.located.calm ⟨hopens, hgeneration, hsession, .inl hinput, extra, hlog, fun r hr => (hextra r hr).1⟩

theorem told_aside (event : TerminalTransportEvent) : ∀ r ∈ [Record.told event], r.plain = true ∧ r.Aside := by
  intro r hr
  obtain rfl := mem_singleton.1 hr
  exact ⟨rfl, fun id => rfl⟩

theorem good_openConnector (h : Good s) (mode : HerdrTerminalMode) (takeover : Bool) (cols rows : Nat) :
    Good (s.openConnector mode takeover cols rows) where
  sound := sound_openConnector h.sound mode takeover cols rows
  opens := opens_openConnector h.opens mode takeover cols rows
  located := by
    unfold State.openConnector
    split
    · exact h.located
    · refine h.located.grow [] ?_ nofun (fun id hs => .inl ?_) fun id hs => ?_
      · simp
      · simpa using hs
      · simpa using hs

theorem good_enqueueInput (h : Good s) (input : Input) : Good (s.enqueueInput input) := by
  have hsound := sound_enqueueInput h.sound input
  rcases enqueueInput_cases s input with hc | ⟨id, q, -, -, hlog, hopens, hgeneration, hsession, hinput⟩
  · exact ⟨hsound, h.opens.calm hc.opens hc.generation hc.input, h.located.calm hc⟩
  · refine ⟨hsound, h.opens.calm hopens hgeneration (.inl hinput), h.located.grow _ hlog ?_ ?_ ?_⟩
    · intro id' hr
      simp at hr
    · exact fun id' hs => .inl (hsession.trans hs)
    · exact fun id' hs => hsession ▸ hs

/-- **The session is left**: the queue is discarded, and a record says where the session goes. -/
theorem good_leave (h : Good s) (f : Nat → Record) (extra : List Record) (hf : ∀ id, Leaves id [f id])
    (hplain : ∀ id, (f id).plain = true) (haside : ∀ id, (f id).Aside) (hextra : ∀ r ∈ extra, r.plain = true ∧ r.Aside)
    (hqueues : t.queues = s.discardInput.queues) (hinput : t.inputQueue = none) (hdrains : t.drains = s.drains)
    (hopens : t.opens = s.opens) (hnext : t.nextSession = s.nextSession) (hsession : t.sessionId = none)
    (hgeneration : t.openGeneration = s.openGeneration ∨ t.openGeneration = s.openGeneration + 1)
    (hlog : t.log = s.log ++ (s.sessionId.map f).toList ++ extra) : Good t where
  sound := by
    refine (sound_discardInput h.sound).discarded (discardInput_inputQueue s)
      ((s.sessionId.map f).toList ++ extra) hqueues hinput ?_ ?_ (aside_append (aside_option haside _) fun r hr => (hextra r hr).2) ?_
    · rw [hdrains, discardInput_drains]
    · rw [hlog, discardInput_log, append_assoc]
    · rw [hnext, discardInput_nextSession]
  opens := by
    rcases hgeneration with hgeneration | hgeneration
    · exact h.opens.calm hopens hgeneration (.inr hinput)
    · exact h.opens.bump hopens hgeneration
  located := h.located.leave hlog hf hplain (fun r hr => (hextra r hr).1) hsession

theorem leaves_release (id : Nat) : Leaves id [.release id] := .inr (.inr (.inl (mem_singleton_self _)))

section
variable (h : Good s)
include h

theorem good_detach : Good s.detach := by
  refine good_leave h .detached [] (fun id => ?_) (fun _ => rfl) (fun _ _ => rfl)
    (fun r hr => (by cases hr)) rfl (discardInput_inputQueue s) (discardInput_drains s) (calm_discardInput s).opens
    (discardInput_nextSession s) rfl (.inr ?_) ?_
  · exact .inr (.inr (.inr (.inl (mem_singleton_self _))))
  · simp only [State.detach, (calm_discardInput s).generation]
  · simp [State.detach]

theorem good_detachSession : Good s.detachSession := by
  refine good_leave h .handed [] (fun id => ?_) (fun _ => rfl) (fun _ _ => rfl)
    (fun r hr => (by cases hr)) rfl (discardInput_inputQueue s) (discardInput_drains s) (calm_discardInput s).opens
    (discardInput_nextSession s) rfl (.inr ?_) ?_
  · exact .inl (mem_singleton_self _)
  · simp only [State.detachSession, (calm_discardInput s).generation]
  · simp [State.detachSession]

/-- **The session is released**, whatever else changes that does not count. -/
theorem good_releaseCurrent {base : State} (hqueues : base.queues = s.discardInput.queues)
    (hinput : base.inputQueue = none) (hdrains : base.drains = s.drains) (hopens : base.opens = s.opens)
    (hnext : base.nextSession = s.nextSession) (hgeneration : base.openGeneration = s.openGeneration + 1)
    (hsession : base.sessionId = s.sessionId) (hlog : base.log = s.log) : Good base.releaseCurrent := by
  unfold State.releaseCurrent
  split
  · rename_i hnone
    refine good_leave h .release [] leaves_release (fun _ => rfl) (fun _ _ => rfl)
      (fun r hr => (by cases hr)) hqueues hinput hdrains hopens hnext hnone (.inr hgeneration) ?_
    simp [hlog, ← hsession, hnone]
  · rename_i id hid
    refine good_leave h .release [] leaves_release (fun _ => rfl) (fun _ _ => rfl)
      (fun r hr => (by cases hr)) hqueues hinput hdrains hopens hnext rfl (.inr hgeneration) ?_
    simp [hlog, ← hsession, hid]

theorem good_release : Good s.release := by
  have hcalm := calm_discardInput s
  refine good_releaseCurrent h rfl (discardInput_inputQueue s) (discardInput_drains s) hcalm.opens
    (discardInput_nextSession s) ?_ hcalm.session (discardInput_log s)
  simp only [hcalm.generation]

theorem good_dispose : Good s.dispose := by
  have hcalm := calm_discardInput s
  refine good_releaseCurrent h rfl (discardInput_inputQueue s) (discardInput_drains s) hcalm.opens
    (discardInput_nextSession s) ?_ hcalm.session (discardInput_log s)
  simp only [hcalm.generation]

theorem good_takeControl (caller : Nat) : Good (s.takeControl caller) := by
  have hcalm := calm_discardInput s
  have hdiscarded : Good s.discardInput :=
    ⟨sound_discardInput h.sound, h.opens.calm hcalm.opens hcalm.generation hcalm.input, h.located.calm hcalm⟩
  unfold State.takeControl
  split
  · exact h
  · split
    · exact h
    · split
      · exact h
      · simp only
        split
        · rename_i previous hprevious
          rw [discardInput_sessionId] at hprevious
          refine good_leave h .release [] leaves_release (fun _ => rfl) (fun _ _ => rfl)
            (fun r hr => (by cases hr)) rfl (discardInput_inputQueue s) (discardInput_drains s) hcalm.opens
            (discardInput_nextSession s) rfl (.inl hcalm.generation) ?_
          simp [hprevious]
        · exact good_openConnector hdiscarded _ _ _ _

theorem good_mapEvent (event : HerdrTerminalEvent) : Good (s.mapEvent event) := by
  cases event with
  | frame seq full width height =>
    simp only [State.mapEvent]
    split
    · refine good_leave h .release [.told State.invalidGeometry] leaves_release (fun _ => rfl) (fun _ _ => rfl) (told_aside _) ?_
        (discardInput_inputQueue _) (discardInput_drains _) (calm_discardInput _).opens (discardInput_nextSession _) ?_
        (.inr ?_) ?_
      · unfold State.discardInput
        simp only
        split <;> rfl
      · exact (discardInput_sessionId _)
      · exact (calm_discardInput _).generation
      · simp only [discardInput_log]
    · split
      · exact h
      · exact h.aside _ (told_aside _) rfl rfl rfl rfl rfl rfl rfl rfl
  | closed | resync | error => exact h.aside _ (told_aside _) rfl rfl rfl rfl rfl rfl rfl rfl

theorem good_onEvent (generation : Nat) (event : HerdrTerminalEvent) : Good (s.onEvent generation event) := by
  have hcalm := calm_discardInput s
  unfold State.onEvent
  split
  · exact h
  · split
    · apply good_mapEvent
      refine good_leave h .ended [] (fun id => ?_) (fun _ => rfl) (fun _ _ => rfl)
        (fun r hr => (by cases hr)) rfl (discardInput_inputQueue s) (discardInput_drains s) hcalm.opens
        (discardInput_nextSession s) rfl (.inr ?_) ?_
      · exact .inr (.inl (mem_singleton_self _))
      · simp only [hcalm.generation]
      · simp
    · exact good_mapEvent h event

/-- **Every action.** -/
theorem good_next {options : Options} {a : Action} (hn : next options s a = some t) : Good t := by
  cases a with
  | «open» cols rows =>
    cases hn
    exact good_openConnector h _ _ _ _
  | opened generation session result =>
    simp only [next] at hn
    split at hn
    · rename_i call hcall
      split at hn
      · rename_i hpending
        cases hn
        refine ⟨sound_opened h.sound generation call result hpending.2 fun heq => ?_, ?_,
          located_opened h.located generation call session result⟩
        · subst heq
          exact h.opens.waits call hcall hpending.1
        · refine h.opens.answered hcall ?_ ?_ ?_
          · simp only [State.opened]
            split <;> rfl
          · simp only [State.opened]
            split <;> rfl
          · simp only [State.opened]
            split
            · exact .inl rfl
            · rename_i hcurrent
              simp only [not_or, not_not] at hcurrent
              exact .inr hcurrent.2
      · cases hn
    · cases hn
  | openFailed generation =>
    simp only [next] at hn
    split at hn
    · rename_i call hcall
      split at hn
      · cases hn
        refine ⟨?_, h.opens.answered hcall rfl rfl (.inl rfl), ?_⟩
        · exact h.sound.same [] rfl rfl rfl (append_nil _).symm (fun r hr => by cases hr)
            (fun id hi => (h.sound.current id hi).1) (Nat.le_refl _)
        · exact h.located.grow [] (append_nil _).symm (fun id hr => by cases hr) (fun id hs => .inl hs) fun id hs => hs
      · cases hn
    · cases hn
  | write data =>
    cases hn
    exact good_enqueueInput h _
  | paste text =>
    cases hn
    unfold State.paste
    split
    · exact h
    · exact good_enqueueInput h _
  | drain q =>
    simp only [next] at hn
    split at hn
    · rename_i session hdrain
      cases hn
      obtain rfl : session = q := (h.sound.drains q _ hdrain).1
      have hc := calm_drainOn s session session
      exact ⟨sound_drainOn h.sound (by rw [hdrain]; rfl), h.opens.calm hc.opens hc.generation hc.input, h.located.calm hc⟩
    · cases hn
  | settled q ok =>
    simp only [next] at hn
    split at hn
    · rename_i session hdrain
      cases hn
      obtain rfl : session = q := (h.sound.drains q _ hdrain).1
      have hc := calm_settled s session session ok
      exact ⟨sound_settled h.sound hdrain ok, h.opens.calm hc.opens hc.generation hc.input, h.located.calm hc⟩
    · cases hn
  | takeControl caller =>
    cases hn
    exact good_takeControl h caller
  | takeover caller =>
    simp only [next] at hn
    split at hn
    · cases hn
      have hbase : Good { s with takeovers := s.takeovers.erase caller } :=
        h.aside [] (fun r hr => by cases hr) rfl rfl rfl rfl rfl rfl rfl (append_nil _).symm
      exact good_openConnector hbase _ _ _ _
    · cases hn
  | resize cols rows =>
    cases hn
    split
    · exact h
    · exact h.aside [] (fun r hr => by cases hr) rfl rfl rfl rfl rfl rfl rfl (append_nil _).symm
  | detachSession =>
    cases hn
    exact good_detachSession h
  | detach =>
    cases hn
    exact good_detach h
  | release =>
    cases hn
    exact good_release h
  | dispose =>
    cases hn
    exact good_dispose h
  | event generation event =>
    simp only [next] at hn
    split at hn
    · cases hn
      exact good_onEvent h generation event
    · cases hn
  | stall session =>
    cases hn
    have hc := calm_reportStall s session
    exact ⟨sound_reportStall h.sound session, h.opens.calm hc.opens hc.generation hc.input, h.located.calm hc⟩

end

theorem good_run {options : Options} {l : List (Transition State Action)} (h : Run options l s) : Good s := by
  refine Trace.invariant (P := Good) ?_ (fun s a t hs hn => good_next hs hn) h
  rintro _ rfl
  exact good_new options

/-! ## Acceptances -/

def Record.accepts : Record → Bool
  | .accepted _ _ => true
  | _ => false

def Refrains (s t : State) : Prop := ∃ extra, t.log = s.log ++ extra ∧ ∀ r ∈ extra, r.accepts = false

theorem Refrains.of_log (hlog : t.log = s.log ++ extra) (h : ∀ r ∈ extra, r.accepts = false) :
    Refrains s t := ⟨extra, hlog, h⟩

theorem refrains_same (hlog : t.log = s.log) : Refrains s t :=
  ⟨[], hlog.trans (append_nil _).symm, by simp⟩

theorem Refrains.trans {u : State} (h : Refrains s t) (h' : Refrains t u) : Refrains s u := by
  obtain ⟨extra, hlog, hextra⟩ := h
  obtain ⟨extra', hlog', hextra'⟩ := h'
  refine ⟨extra ++ extra', by rw [hlog', hlog, append_assoc], fun r hr => ?_⟩
  exact (mem_append.1 hr).elim (hextra r) (hextra' r)

theorem Calm.refrains (h : Calm s t) : Refrains s t := by
  obtain ⟨extra, hlog, hplain⟩ := h.log
  refine ⟨extra, hlog, fun r hr => ?_⟩
  have hp := hplain r hr
  cases r with
  | accepted session given => cases hp
  | _ => rfl

theorem refrains_option (hf : ∀ id, (f id).accepts = false) {o : Option Nat}
    (hlog : t.log = s.log ++ (o.map f).toList) : Refrains s t := by
  refine ⟨_, hlog, fun r hr => ?_⟩
  cases o with
  | none => cases hr
  | some id => exact mem_singleton.1 hr ▸ hf id

theorem refrains_record (hr : r.accepts = false) (hlog : t.log = s.log ++ [r]) : Refrains s t :=
  ⟨[r], hlog, fun r' hr' => mem_singleton.1 hr' ▸ hr⟩

theorem refrains_openConnector (s : State) (mode : HerdrTerminalMode) (takeover : Bool) (cols rows : Nat) :
    Refrains s (s.openConnector mode takeover cols rows) := by
  refine refrains_same ?_
  unfold State.openConnector
  split
  · rfl
  · exact discardInput_log s

theorem refrains_opened (s : State) (generation : Nat) (call : OpenCall) (session : Nat) (result : OpenResult) :
    Refrains s (s.opened generation call session result) := by
  unfold State.opened
  simp only
  split
  · refine .of_log (append_assoc ..) fun r hr => ?_
    simp only [cons_append, nil_append, mem_cons, not_mem_nil, or_false] at hr
    rcases hr with rfl | rfl <;> rfl
  · refine ⟨[Record.returned session] ++ ((s.sessionId.map Record.replaced).toList ++
      [Record.attached session result, .told (.control result.mode result.role)]), by simp only [append_assoc], fun r hr => ?_⟩
    simp only [mem_append, mem_cons, not_mem_nil, or_false] at hr
    rcases hr with rfl | hr | rfl | rfl
    · rfl
    · cases hs : s.sessionId with
      | none => simp [hs] at hr
      | some current =>
        obtain rfl : r = .replaced current := by simpa [hs] using hr
        rfl
    · rfl
    · rfl

theorem refrains_releaseCurrent (s : State) : Refrains s s.releaseCurrent := by
  unfold State.releaseCurrent
  split
  · exact refrains_same rfl
  · exact refrains_record (r := .release _) rfl rfl

theorem refrains_takeControl (s : State) (caller : Nat) : Refrains s (s.takeControl caller) := by
  have hdiscard : Refrains s s.discardInput := (calm_discardInput s).refrains
  unfold State.takeControl
  split
  · exact refrains_same rfl
  · split
    · exact refrains_same rfl
    · split
      · exact refrains_same rfl
      · simp only
        split
        · exact hdiscard.trans (refrains_record (r := .release _) rfl rfl)
        · exact hdiscard.trans (refrains_openConnector _ _ _ _ _)

theorem refrains_mapEvent (s : State) (event : HerdrTerminalEvent) : Refrains s (s.mapEvent event) := by
  cases event with
  | frame seq full width height =>
    simp only [State.mapEvent]
    split
    · refine ⟨(s.sessionId.map Record.release).toList ++ [Record.told State.invalidGeometry], by simp, fun r hr => ?_⟩
      rcases mem_append.1 hr with hr | hr
      · cases hs : s.sessionId with
        | none => simp [hs] at hr
        | some id =>
          obtain rfl : r = .release id := by simpa [hs] using hr
          rfl
      · obtain rfl := mem_singleton.1 hr
        rfl
    · split
      · exact refrains_same rfl
      · exact refrains_record (r := .told _) rfl rfl
  | closed | resync | error => exact refrains_record (r := .told _) rfl rfl

theorem refrains_onEvent (s : State) (generation : Nat) (event : HerdrTerminalEvent) :
    Refrains s (s.onEvent generation event) := by
  unfold State.onEvent
  split
  · exact refrains_same rfl
  · split
    · refine Refrains.trans ?_ (refrains_mapEvent _ event)
      exact refrains_option (f := .ended) (o := s.sessionId) (fun _ => rfl) (by simp)
    · exact refrains_mapEvent s event

def Input.action : Input → Action
  | .write data => .write data
  | .paste text => .paste text

/-- **Who accepts**: a write or a paste, for the session that is attached. -/
theorem next_accepts {options : Options} {a : Action} (hn : next options s a = some t) : Refrains s t ∨
    ∃ id input, a = Input.action input ∧ s.sessionId = some id ∧ t.log = s.log ++ [Record.accepted id input] := by
  have henqueue : ∀ input, Refrains s (s.enqueueInput input) ∨
      ∃ id, s.sessionId = some id ∧ (s.enqueueInput input).log = s.log ++ [Record.accepted id input] := by
    intro input
    rcases enqueueInput_cases s input with hc | ⟨id, q, hid, -, hlog, -⟩
    · exact .inl hc.refrains
    · exact .inr ⟨id, hid, hlog⟩
  cases a with
  | write data =>
    cases hn
    rcases henqueue (.write data) with h | ⟨id, hid, hlog⟩
    · exact .inl h
    · exact .inr ⟨id, .write data, rfl, hid, hlog⟩
  | paste text =>
    cases hn
    unfold State.paste
    split
    · exact .inl (refrains_same rfl)
    · rcases henqueue (.paste text) with h | ⟨id, hid, hlog⟩
      · exact .inl h
      · exact .inr ⟨id, .paste text, rfl, hid, hlog⟩
  | «open» cols rows =>
    cases hn
    exact .inl (refrains_openConnector s _ _ _ _)
  | opened generation session result =>
    simp only [next] at hn
    split at hn
    · split at hn
      · cases hn
        exact .inl (refrains_opened s _ _ _ _)
      · cases hn
    · cases hn
  | openFailed generation =>
    simp only [next] at hn
    split at hn
    · split at hn
      · cases hn
        exact .inl (refrains_same rfl)
      · cases hn
    · cases hn
  | drain q =>
    simp only [next] at hn
    split at hn
    · cases hn
      exact .inl (calm_drainOn s _ _).refrains
    · cases hn
  | settled q ok =>
    simp only [next] at hn
    split at hn
    · cases hn
      exact .inl (calm_settled s _ _ _).refrains
    · cases hn
  | takeControl caller =>
    cases hn
    exact .inl (refrains_takeControl s caller)
  | takeover caller =>
    simp only [next] at hn
    split at hn
    · cases hn
      exact .inl ((refrains_same rfl).trans (refrains_openConnector _ _ _ _ _))
    · cases hn
  | resize cols rows =>
    cases hn
    split
    · exact .inl (refrains_same rfl)
    · exact .inl (refrains_same rfl)
  | detachSession =>
    cases hn
    exact .inl (refrains_option (f := .handed) (o := s.sessionId) (fun _ => rfl) (by simp [State.detachSession]))
  | detach =>
    cases hn
    exact .inl (refrains_option (f := .detached) (o := s.sessionId) (fun _ => rfl) (by simp [State.detach]))
  | release | dispose =>
    cases hn
    exact .inl ((refrains_same (discardInput_log s)).trans (refrains_releaseCurrent _))
  | event generation event =>
    simp only [next] at hn
    split at hn
    · cases hn
      exact .inl (refrains_onEvent s generation event)
    · cases hn
  | stall session =>
    cases hn
    exact .inl (calm_reportStall s session).refrains

/-! ## The requests of a session -/

def Heard.text : Heard → Option Text
  | .send text => some text
  | _ => none

def Heard.input : Heard → Option Input
  | .accept input => some input
  | _ => none

def requests (id : Nat) (log : List Record) : List Text := (heard id log).filterMap Heard.text

/-- The writes and the pastes that were accepted for a session, in order. -/
def accepted (id : Nat) (log : List Record) : List Input := (heard id log).filterMap Heard.input

theorem requests_shown (h : List (Outbox.Event Input)) :
    (h.map shown).filterMap Heard.text = (Outbox.sent h).map batchText := by
  rw [filterMap_map, Outbox.sent, map_filterMap]
  congr 1
  funext e
  cases e <;> rfl

theorem accepted_shown (h : List (Outbox.Event Input)) : (h.map shown).filterMap Heard.input = Outbox.accepted h := by
  rw [filterMap_map, Outbox.accepted]
  congr 1
  funext e
  cases e <;> rfl

/-- **Every session has its outbox**, if only one that nothing happened to. -/
theorem Sound.outbox (h : Sound s) (id : Nat) : ∃ p o, Outbox.Run Input.isPaste p o ∧ heard id s.log = p.map shown := by
  cases hq : s.queues.get id with
  | none => exact ⟨[], _, .start, h.untold id hq⟩
  | some queue =>
    obtain ⟨p, o, htold⟩ := h.told id queue hq
    exact ⟨p, o, htold.run, htold.heard⟩

theorem shown_send {e : Outbox.Event Input} {text : Text} (h : shown e = .send text) : ∃ b, e = .send b := by
  cases e with
  | send b => exact ⟨b, rfl⟩
  | _ => cases h

theorem mem_heard_settled {log : List Record} (h : .settle ∈ heard id log ∨ .fail ∈ heard id log) :
    ∃ ok, .settled id ok ∈ log := by
  have hall : ∀ e, e ∈ heard id log → (e = .settle ∨ e = .fail) → ∃ ok, .settled id ok ∈ log := by
    intro e he hor
    obtain ⟨r, hr, habout⟩ := mem_filterMap.1 he
    cases r with
    | settled session ok =>
      simp only [Record.about] at habout
      split at habout
      · rename_i hid
        exact ⟨ok, hid ▸ hr⟩
      · cases habout
    | accepted | refused | input =>
      simp only [Record.about] at habout
      split at habout
      · cases habout
        rcases hor with hor | hor <;> cases hor
      · cases habout
    | _ => cases habout
  rcases h with h | h
  · exact hall _ h (.inl rfl)
  · exact hall _ h (.inr rfl)

theorem heard_cons {e : Heard} (h : r.about id = some e) (log : List Record) :
    heard id (r :: log) = e :: heard id log := filterMap_cons_some h

/-- **Each request is awaited before the next.** -/
theorem Sound.awaited (h : Sound s) {pre mid post : List Record} {text text' : Text}
    (hlog : s.log = pre ++ Record.input id text :: mid ++ Record.input id text' :: post) : ∃ ok, .settled id ok ∈ mid := by
  obtain ⟨p, o, hrun, hheard⟩ := h.outbox id
  have habout : ∀ t, Record.about id (.input id t) = some (.send t) := fun t => if_pos rfl
  rw [hlog, heard_append, heard_append, heard_cons (habout text), heard_cons (habout text')] at hheard
  obtain ⟨front, back, rfl, hfront, hback⟩ := map_eq_append_iff.1 hheard.symm
  obtain ⟨before, rest, rfl, -, hrest⟩ := map_eq_append_iff.1 hfront
  obtain ⟨e, between, rfl, he, hbetween⟩ := map_eq_cons_iff.1 hrest
  obtain ⟨e', after, rfl, he', -⟩ := map_eq_cons_iff.1 hback
  obtain ⟨b, rfl⟩ := shown_send he
  obtain ⟨b', rfl⟩ := shown_send he'
  apply mem_heard_settled
  rw [← hbetween]
  rcases hrun.paced rfl with hsettle | hfail
  · exact .inl (mem_map.2 ⟨_, hsettle, rfl⟩)
  · exact .inr (mem_map.2 ⟨_, hfail, rfl⟩)

/-- **Nothing is sent to a session once a request of it failed or its queue ran over.** -/
theorem Sound.quiet (h : Sound s) {pre post : List Record} (hlog : s.log = pre ++ r :: post)
    (hr : r = .settled id false ∨ r = .refused id) (text : Text) : .input id text ∉ post := by
  intro hmem
  obtain ⟨p, o, hrun, hheard⟩ := h.outbox id
  obtain ⟨e, habout, he⟩ : ∃ e, r.about id = some e ∧ (e = .fail ∨ e = .refuse) := by
    rcases hr with rfl | rfl
    · exact ⟨.fail, if_pos rfl, .inl rfl⟩
    · exact ⟨.refuse, if_pos rfl, .inr rfl⟩
  rw [hlog, heard_append, heard_cons habout] at hheard
  obtain ⟨before, rest, rfl, -, hrest⟩ := map_eq_append_iff.1 hheard.symm
  obtain ⟨e', after, rfl, he', hafter⟩ := map_eq_cons_iff.1 hrest
  have hends : e' = .fail ∨ e' = .refuse := by
    rcases he with rfl | rfl
    · cases e' with
      | fail => exact .inl rfl
      | _ => cases he'
    · cases e' with
      | refuse => exact .inr rfl
      | _ => cases he'
  have hsend : Heard.send text ∈ heard id post := mem_filterMap.2 ⟨_, hmem, if_pos rfl⟩
  rw [← hafter] at hsend
  obtain ⟨e, he, hshown⟩ := mem_map.1 hsend
  obtain ⟨b, rfl⟩ := shown_send hshown
  exact hrun.quiet rfl hends b he

/-! ## The conduct of a transport -/

/-- What holds after a run. -/
structure Conduct (l : List (Transition State Action)) (s : State) : Prop where
  /-- What is accepted for a session is what is written and pasted while it is the current one. -/
  attached : ∀ x ∈ l, ∀ id input, x.dst.log = x.src.log ++ [Record.accepted id input] →
    x.label = Input.action input ∧ x.src.sessionId = some id
  /-- What was sent to a session is what was accepted for it, from the first on and none twice; a paste is alone. -/
  requests : ∀ id, ∃ batches : List (List Input), requests id s.log = batches.map batchText ∧
    batches.flatten <+: accepted id s.log ∧
    ∀ b ∈ batches, (∃ text, b = [.paste text]) ∨ b ≠ [] ∧ ∀ input ∈ b, ∃ data, input = .write data
  sent : ∀ id, (Transport.requests id s.log).flatten <+: ((accepted id s.log).map Input.text).flatten
  awaited : ∀ id pre mid post text text', s.log = pre ++ Record.input id text :: mid ++ Record.input id text' :: post →
    ∃ ok, .settled id ok ∈ mid
  quiet : ∀ id pre (r : Record) post, s.log = pre ++ r :: post → (r = .settled id false ∨ r = .refused id) →
    ∀ text, .input id text ∉ post
  pasted : ∀ text, (Input.paste text).text = PASTE_START ++ payload text ++ PASTE_END ∧ Clean (payload text) ∧
    Stripped (lineEnds text) (payload text)
  queued : ∀ id queue, s.queues.get id = some queue →
    (queue.frames.map fun frame => utf8Length frame.text).sum ≤ 256 * 1024 ∧ (s.inputQueue ≠ some id → queue.frames = [])
  placed : ∀ id, .returned id ∈ s.log → Placed s id

theorem isPaste_eq_true {input : Input} (h : input.isPaste = true) : ∃ text, input = .paste text := by
  cases input with
  | write data => cases h
  | paste text => exact ⟨text, rfl⟩

theorem isPaste_eq_false {input : Input} (h : input.isPaste = false) : ∃ data, input = .write data := by
  cases input with
  | write data => exact ⟨data, rfl⟩
  | paste text => cases h

theorem flatten_batches (batches : List (List Input)) :
    (batches.map batchText).flatten = (batches.flatten.map Input.text).flatten := by
  induction batches with
  | nil => rfl
  | cons b batches ih => simp [batchText, ih]

theorem encoded_le {frames : List Frame} (h : ∀ frame ∈ frames, utf8Length frame.text ≤ frame.bytes) :
    (frames.map fun frame => utf8Length frame.text).sum ≤ (frames.map Frame.bytes).sum := by
  induction frames with
  | nil => simp
  | cons frame frames ih =>
    have hhead := h frame (mem_cons_self ..)
    have htail := ih fun f hf => h f (mem_cons_of_mem _ hf)
    simp only [map_cons, sum_cons]
    omega

/-- **Whatever the callers, the connectors and the Host do, in whatever order.** -/
theorem transport_conduct {options : Options} {l : List (Transition State Action)} (h : Run options l s) :
    Conduct l s := by
  have hgood := good_run h
  have hbatches : ∀ id, ∃ batches : List (List Input), requests id s.log = batches.map batchText ∧
      batches.flatten <+: accepted id s.log ∧ ∀ b ∈ batches, Outbox.Batch Input.isPaste b := by
    intro id
    obtain ⟨p, o, hrun, hheard⟩ := hgood.sound.outbox id
    refine ⟨Outbox.sent p, ?_, ?_, hrun.batches.1⟩
    · rw [requests, hheard, requests_shown]
    · rw [accepted, hheard, accepted_shown]
      exact hrun.sent_prefix
  constructor
  case attached =>
    intro x hx id input hlog
    obtain ⟨past, later, -, -, hstep⟩ := h.transition x hx
    rcases next_accepts hstep with ⟨extra, hextra, hno⟩ | ⟨id', input', hlabel, hid, hlog'⟩
    · obtain rfl : [Record.accepted id input] = extra := append_cancel_left (hlog.symm.trans hextra)
      cases hno _ (mem_singleton_self _)
    · have heq := append_cancel_left (hlog.symm.trans hlog')
      obtain ⟨rfl, rfl⟩ := heq
      exact ⟨hlabel, hid⟩
  case requests =>
    intro id
    obtain ⟨batches, hrequests, hprefix, hbatch⟩ := hbatches id
    refine ⟨batches, hrequests, hprefix, fun b hb => ?_⟩
    rcases hbatch b hb with ⟨a, ha, rfl⟩ | ⟨hne, hall⟩
    · obtain ⟨text, rfl⟩ := isPaste_eq_true ha
      exact .inl ⟨text, rfl⟩
    · exact .inr ⟨hne, fun input hi => isPaste_eq_false (hall input hi)⟩
  case sent =>
    intro id
    obtain ⟨batches, hrequests, ⟨rest, hrest⟩, -⟩ := hbatches id
    rw [hrequests, flatten_batches, ← hrest, map_append, flatten_append]
    exact prefix_append _ _
  case awaited => exact fun id pre mid post text text' hlog => hgood.sound.awaited hlog
  case quiet => exact fun id pre r post hlog hr text => hgood.sound.quiet hlog hr text
  case pasted => exact fun text => ⟨rfl, payload_clean text, payload_stripped text⟩
  case queued =>
    intro id queue hq
    have hfits := hgood.sound.fits id queue hq
    have hlimit := hfits.limit
    have hle := encoded_le hfits.encoded
    rw [hfits.bytes] at hle
    unfold LIMIT at hlimit
    refine ⟨by omega, fun hother => ?_⟩
    obtain ⟨p, o, htold⟩ := hgood.sound.told id queue hq
    have hclosed := htold.run.closed (by rw [htold.opened]; simp [hother])
    rw [htold.frames, hclosed]
    rfl
  case placed => exact hgood.located.placed

namespace Sample

def options : Options := ⟨.control, true⟩

def result : OpenResult := ⟨"terminal", .control, .controller, true⟩

def left : List Action :=
  [.open 80 24, .opened 1 1 result, .write [0x6c], .paste [0x61, 0x0d, 0x0a], .write [0x73], .write [0x0d], .drain 1,
    .settled 1 true, .settled 1 true, .detach]

variable (acts : List Action)

def played : Option (List (Transition State Action) × State) :=
  Trace.play (fun s a => (next options s a).map (Prod.mk a)) acts [] (.new options)

theorem run_of_played {l : List (Transition State Action)} {s : State}
    (h : played acts = some (l, s)) : Run options l s :=
  Trace.of_played rfl h

def ended : List (Transition State Action) × State := (played acts).getD ([], .new options)

theorem run_left : Run options (ended left).1 (ended left).2 := run_of_played left rfl

end Sample

/-- What was typed and pasted has been sent in its order. -/
theorem transport_conduct_left : requests 1 (Sample.ended Sample.left).2.log =
      [[0x6c], PASTE_START ++ [0x61, 0x0a] ++ PASTE_END, [0x73, 0x0d]] ∧
    Conduct (Sample.ended Sample.left).1 (Sample.ended Sample.left).2 :=
  ⟨rfl, transport_conduct Sample.run_left⟩

/-- The session that a page leaves is not released here: its release is left to whoever was told of it. -/
theorem session_left : ∃ l s, Run Sample.options l s ∧ .returned 1 ∈ s.log ∧ s.sessionId = none ∧
    .handed 1 ∉ s.log ∧ .ended 1 ∉ s.log ∧ .release 1 ∉ s.log := by
  refine ⟨_, _, Sample.run_left, ?_⟩
  have hlog : (Sample.ended Sample.left).2.log = [.returned 1, .attached 1 Sample.result, .told (.control .control .controller),
      .accepted 1 (.write [0x6c]), .accepted 1 (.paste [0x61, 0x0d, 0x0a]), .accepted 1 (.write [0x73]),
      .accepted 1 (.write [0x0d]), .input 1 [0x6c], .settled 1 true, .input 1 (PASTE_START ++ [0x61, 0x0a] ++ PASTE_END),
      .settled 1 true, .input 1 [0x73, 0x0d], .detached 1] := rfl
  rw [hlog]
  refine ⟨by simp, rfl, by simp, by simp, by simp⟩

end Transport
end Yuzora
