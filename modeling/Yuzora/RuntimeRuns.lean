import Yuzora.RuntimeConduct
/-!
# RuntimeRuns — connections over whole runs

What an answer said stays true (`Attests`), whatever happens.  A disconnect looks at an entry before it begins to close
it, and an opener looks at an actor before it discards its connection: `Undisturbed` names the moments at which nothing
must have come between.
-/
namespace Yuzora
namespace Runtime

open List
open Profiles (LifecycleCloseErrorKind ProfileDescriptor ProfileError findProfile)
open Pool (history)

/-! ## Answers -/

/-- **What an answer still says.** -/
structure Attests (s : Shared) (a : Asked Command Reply) : Prop where
  opens : ∀ d g r, a = ⟨.beginOpen d g, (.ok (.opens r) : Except LifecycleCloseErrorKind OpenDecision)⟩ →
    r.descriptorId = d ∧ r.configGeneration = g ∧ r.ticket < s.nextTicket
  live : ∀ d g c, a = ⟨.beginOpen d g, (.ok (.live c) : Except LifecycleCloseErrorKind OpenDecision)⟩ →
    c.descriptorId = d ∧ Ripe s c.identity
  waits : ∀ d g k, a = ⟨.beginOpen d g, (.ok (.wait k) : Except LifecycleCloseErrorKind OpenDecision)⟩ → Settled s k
  named : ∀ d e c, a = ⟨.newConnection d e, c⟩ → c.descriptorId = d
  registered : ∀ i, a = ⟨.register i, (.ok () : Except OperationalErrorCode Unit)⟩ → Ripe s i
  ran : ∀ i, a = ⟨.terminatedRun i, true⟩ → Ripe s i
  got : ∀ d c, a = ⟨.get d, (some c : Option LiveConnection)⟩ → c.descriptorId = d ∧ Ripe s c.identity
  begun : ∀ d c, a = ⟨.beginClose d, (.ok (some c) : Except LifecycleCloseErrorKind (Option LiveConnection))⟩ →
    Ripe s c.identity
  closed : ∀ i r, a = ⟨.close i, r⟩ → i ∈ s.asked

variable {s : Shared}

theorem Attests.mono {t : Shared} {a : Asked Command Reply} (h : Attests s a) (hg : Grows s t) : Attests t a where
  opens d g r ha := by
    obtain ⟨hd, hgen, hk⟩ := h.opens d g r ha
    exact ⟨hd, hgen, hk.trans_le hg.tickets⟩
  live d g c ha := (h.live d g c ha).imp id (hg.ripe _)
  waits d g k ha := hg.settles (h.waits d g k ha)
  named := h.named
  registered i ha := hg.ripe i (h.registered i ha)
  ran i ha := hg.ripe i (h.ran i ha)
  got d c ha := (h.got d c ha).imp id (hg.ripe _)
  begun d c ha := hg.ripe _ (h.begun d c ha)
  closed i r ha := hg.asked i (h.closed i r ha)

/-- What an entry says. -/
structure Entered (s : Shared) (d : String) (e : ProfileRuntimeEntry) : Prop where
  opening : ∀ r, e = .opening r → r.descriptorId = d ∧ r.ticket < s.nextTicket
  held : ∀ c, held (some e) = some c → c.descriptorId = d ∧ Ripe s c.identity

variable {d : String}

theorem Entered.mono {t : Shared} {e : ProfileRuntimeEntry} (h : Entered s d e) (hg : Grows s t) :
    Entered t d e :=
  ⟨fun r hr => (h.opening r hr).imp id fun hk => hk.trans_le hg.tickets, fun c hc => (h.held c hc).imp id (hg.ripe _)⟩

def Kept (s : Shared) : Prop := ∀ d e, s.entries.get d = some e → Entered s d e

variable {past : List (Asked Command Reply)} {i : ConnectionIdentity}

variable {c : LiveConnection}

theorem Checked.identity_eq
    (h : Checked past i c) (hs : ∀ a ∈ past, Attests s a) : c.identity = i ∧ c.descriptorId = i.descriptorId := by
  have hd := ((hs _ h.got).got _ _ rfl).1
  refine ⟨?_, hd⟩
  rw [LiveConnection.identity, hd, h.connectionId, h.connectionGeneration]

theorem Evidence.ripe (h : Evidence past i)
    (hs : ∀ a ∈ past, Attests s a) : Ripe s i := by
  cases h with
  | registered h => exact (hs _ h).registered i rfl
  | ran h => exact (hs _ h).ran i rfl
  | checked c h =>
    rw [← (h.identity_eq hs).1]
    exact ((hs _ h.got).got _ c rfl).2
  | begun d c hi h =>
    rw [← hi]
    exact (hs _ h).begun d c rfl

variable {r : OpeningReservation} {g : Nat}

theorem Elected.descriptorId_eq {profile : ProfileDescriptor} {secret : Option String}
    {before middle after : List (Asked Command Reply)}
    (h : Elected past r c d g profile secret before middle after) (hs : ∀ a ∈ past, Attests s a) :
    r.descriptorId = d ∧ c.descriptorId = d := by
  obtain ⟨engine, hnew⟩ := h.named
  have hmem : ∀ a ∈ after, a ∈ past := fun a ha => by
    rw [h.past_eq]
    exact mem_append_right _ (mem_cons_of_mem _ (mem_append_right _ (mem_cons_of_mem _ ha)))
  have hopen : ⟨.beginOpen d g, (.ok (.opens r) : Except LifecycleCloseErrorKind OpenDecision)⟩ ∈ past := by
    rw [h.past_eq]
    exact mem_append_right _ mem_cons_self
  exact ⟨((hs _ hopen).opens _ _ _ rfl).1, (hs _ (hmem _ hnew)).named _ _ _ rfl⟩

/-! ### Reservations -/

theorem reserveLocked_opens
    (h : (reserveLocked d g s).1 = .ok (.opens r)) :
    r = ⟨d, s.nextTicket, g⟩ ∧ (reserveLocked d g s).2.nextTicket = s.nextTicket + 1 := by
  unfold reserveLocked at h ⊢
  dsimp only at h ⊢
  split at h
  · rename_i hlt
    rw [if_pos hlt]
    cases h
    exact ⟨rfl, rfl⟩
  · cases h

theorem reserveLocked_ne_live :
    (reserveLocked d g s).1 ≠ .ok (.live c) := by
  unfold reserveLocked
  dsimp only
  split <;>
  · intro h
    cases h

theorem reserveLocked_ne_wait {k : Nat} :
    (reserveLocked d g s).1 ≠ .ok (.wait k) := by
  unfold reserveLocked
  dsimp only
  split <;>
  · intro h
    cases h

/-- **A reservation has a ticket of its own.** -/
theorem beginOpen_opens
    (h : (beginOpen d g s).1 = .ok (.opens r)) :
    r = ⟨d, s.nextTicket, g⟩ ∧ (beginOpen d g s).2.nextTicket = s.nextTicket + 1 := by
  unfold beginOpen at h ⊢
  split at h
  · cases h
  · cases h
  · split at h
    · cases h
    · rename_i hg
      rw [if_neg hg]
      obtain ⟨hr, ht⟩ := reserveLocked_opens h
      have hnext : ∀ k v, (finish k v s).nextTicket = s.nextTicket := fun k v => finish_nextTicket k v s
      exact ⟨hr.trans (congrArg (fun k => (⟨d, k, g⟩ : OpeningReservation)) (hnext _ _)),
        ht.trans (congrArg (· + 1) (hnext _ _))⟩
  · exact reserveLocked_opens h

theorem beginOpen_live
    (h : (beginOpen d g s).1 = .ok (.live c)) : s.entries.get d = some (.live c) := by
  unfold beginOpen at h
  split at h
  · rename_i c' hc
    cases h
    exact hc
  · cases h
  · split at h
    · cases h
    · exact absurd h reserveLocked_ne_live
  · exact absurd h reserveLocked_ne_live

theorem beginOpen_wait {k : Nat} (h : (beginOpen d g s).1 = .ok (.wait k)) :
    ∃ r, s.entries.get d = some (.opening r) ∧ r.ticket = k := by
  unfold beginOpen at h
  split at h
  · cases h
  · cases h
  · rename_i r hr
    split at h
    · cases h
      exact ⟨r, hr, rfl⟩
    · exact absurd h reserveLocked_ne_wait
  · exact absurd h reserveLocked_ne_wait

theorem beginClose_found (h : (beginClose d s).1 = .ok (some c)) :
    s.entries.get d = some (.live c) := by
  unfold beginClose at h
  split at h
  · cases h
  · rename_i c' hc
    cases h
    exact hc
  · cases h
  · cases h

theorem perform_get {chance : Chance}
    (h : (perform chance s (.get d)).1 = (some c : Option LiveConnection)) : s.entries.get d = some (.live c) := by
  cases he : s.entries.get d with
  | none =>
    simp only [perform, he] at h
    cases h
  | some e =>
    cases e with
    | live connection =>
      simp only [perform, he] at h
      rw [Option.some.inj h]
    | opening _ | closing _ =>
      simp only [perform, he] at h
      cases h

theorem ripe_of_register (h : (registerActor i s).1 = .ok ()) :
    Ripe (registerActor i s).2 i := by
  unfold registerActor at h ⊢
  split at h
  · cases h
  · refine .inl (Option.isSome_iff_exists.2 ⟨⟨i, false, false⟩, exactActor_eq_some.2 ⟨?_, rfl⟩⟩)
    exact Table.get_insert_self _ _ _

variable {call : Call}

/-- **What a command answers is so.** -/
theorem perform_attests {c : Command} {next : Reply c → M Answer} (chance : Chance) (hk : Kept s) (hc : Conduct call past c next) (hs : ∀ a ∈ past, Attests s a) :
    Attests (perform chance s c).2 ⟨c, (perform chance s c).1⟩ := by
  have hgrows := perform_grows chance c s
  have hlive : ∀ {d c}, s.entries.get d = some (.live c) →
      c.descriptorId = d ∧ Ripe (perform chance s _).2 c.identity := fun {d c} h =>
    ((hk d _ h).held c rfl).imp id (hgrows.ripe _)
  have asked : ∀ {c' : Command} {r : Reply c'} (_ : (⟨c, (perform chance s c).1⟩ : Asked Command Reply) = ⟨c', r⟩),
      c = c' ∧ (perform chance s c').1 = r := fun h => by
    obtain ⟨rfl, h⟩ := Asked.mk.inj h
    exact ⟨rfl, eq_of_heq h⟩
  constructor
  case opens =>
    intro d g r ha
    obtain ⟨rfl, h⟩ := asked ha
    obtain ⟨rfl, ht⟩ := beginOpen_opens h
    refine ⟨rfl, rfl, ?_⟩
    exact Nat.lt_of_lt_of_eq (Nat.lt_succ_self _) ht.symm
  case live =>
    intro d g c' ha
    obtain ⟨rfl, h⟩ := asked ha
    exact hlive (beginOpen_live h)
  case waits =>
    intro d g k ha
    obtain ⟨rfl, h⟩ := asked ha
    obtain ⟨r, hr, hk⟩ := beginOpen_wait h
    exact hgrows.settles (.inr ⟨d, r, hr, hk⟩)
  case named =>
    intro d e c' ha
    obtain ⟨rfl, h⟩ := asked ha
    rw [← h]
    rfl
  case registered =>
    intro i ha
    obtain ⟨rfl, h⟩ := asked ha
    exact ripe_of_register h
  case ran =>
    intro i ha
    obtain ⟨rfl, h⟩ := asked ha
    exact hgrows.ripe i (.inl ((Bool.and_eq_true _ _).mp h).1)
  case got =>
    intro d c' ha
    obtain ⟨rfl, h⟩ := asked ha
    exact hlive (perform_get h)
  case begun =>
    intro d c' ha
    obtain ⟨rfl, h⟩ := asked ha
    exact (hlive (beginClose_found h)).2
  case closed =>
    intro i r ha
    obtain ⟨rfl, -⟩ := asked ha
    cases hc with
    | quiet _ _ hq => cases hq
    | close _ _ he => exact asked_of_close (he.ripe hs)

/-- **The entries stay what they say.** -/
theorem perform_kept {c : Command} {next : Reply c → M Answer} (chance : Chance) (hk : Kept s) (hc : Conduct call past c next) (hs : ∀ a ∈ past, Attests s a) :
    Kept (perform chance s c).2 := by
  intro d e he
  have hgrows := perform_grows chance c s
  have hturn := perform_turns chance c s d
  have hattests := perform_attests chance hk hc hs
  rw [he] at hturn
  generalize hr : (perform chance s c).1 = reply at hturn hattests
  generalize ho : s.entries.get d = old at hturn
  cases hturn with
  | still => exact (hk d e ho).mono hgrows
  | reserved g e' hnone =>
    refine ⟨fun r hr => ?_, fun c hc => ?_⟩
    · cases hr
      exact ⟨rfl, (hattests.opens d g _ rfl).2.2⟩
    · cases hc
  | published r current c' hd hticket =>
    refine ⟨fun r hr => ?_, fun c hc => ?_⟩
    · cases hr
    · cases hc
      cases ‹Conduct call past _ next› with
      | quiet _ _ hq => cases hq
      | publish _ _ _ _ _ _ _ _ _ _ _ he =>
        obtain ⟨hr, hc'⟩ := he.descriptorId_eq hs
        exact ⟨hc'.trans (hr.symm.trans hd), hgrows.ripe _ ((hs _ he.registered).registered _ rfl)⟩
  | closes c' | restored c' hd =>
    refine ⟨fun r hr => ?_, fun c hc => ?_⟩
    · cases hr
    · cases hc
      exact (((hk d _ ho).mono hgrows).held c' rfl)

/-! ## Runs -/

/-- **What holds in every run**: the entries and all answers are so. -/
structure Steady (l : List Event) (t : Moment) : Prop where
  kept : Kept t.shared
  attests : ∀ id, ∀ a ∈ history id l, Attests t.shared a

variable {l : List Event}

theorem runs_conduct {t : Moment} (h : runtime.Runs s l t) {id : Nat}
    {c : Command} {next : Reply c → M Answer} (ht : t.threads id = some ⟨call, .call c next⟩) :
    Conduct call (history id l) c next :=
  (Pool.Runs.throughout h ht (Conduct call) (start_conduct call)).1

theorem Steady.still {u v : Moment} {m : Move Command Reply Call} (h : Steady l u)
    (hm : ∀ id, m.asked? id = none) (hg : Grows u.shared v.shared) (he : v.shared.entries = u.shared.entries) :
    Steady (l ++ [⟨u, m, v⟩]) v := by
  refine ⟨fun d e hd => (h.kept d e (he ▸ hd)).mono hg, fun id a ha => ?_⟩
  rw [Pool.history_snoc, hm id, Option.toList_none, append_nil] at ha
  exact (h.attests id a ha).mono hg

/-- **The entries and all answers are so, whatever happens.** -/
theorem runs_steady {t : Moment} (hs : Kept s) (h : runtime.Runs s l t) : Steady l t := by
  refine Trace.history (P := Steady) ?_ (fun l u m v hrun ih hst => ?_) h
  · rintro _ rfl
    refine ⟨hs, fun id a ha => ?_⟩
    cases ha
  cases hst with
  | start id job hn => exact ih.still (fun _ => rfl) (.refl _) rfl
  | drift wind => exact ih.still (fun _ => rfl) (drift_grows wind _) (drift_entries wind _)
  | own chance id job c next hn =>
    have hc := runs_conduct hrun hn
    refine ⟨perform_kept chance ih.kept hc (ih.attests id), fun id' a ha => ?_⟩
    rw [Pool.history_snoc, mem_append] at ha
    rcases ha with ha | ha
    · exact (ih.attests id' a ha).mono (perform_grows chance c _)
    · obtain ⟨job', hown⟩ := Move.asked?_eq_some.1 (Option.mem_toList.1 ha)
      cases hown
      exact perform_attests chance ih.kept hc (ih.attests id)

theorem fresh_kept (durable : Profiles.ProfileDocument) : Kept (fresh durable) := by
  intro d e he
  cases he

end Runtime
end Yuzora
