import Yuzora.RuntimeDuties
/-!
# RuntimeConnections — what holds of saved connections

Openers publish what their reservation was given for, an operation on one connection leaves the others, and when the
openers and the closes are over no entry waits.
-/
namespace Yuzora
namespace Runtime

open List Table
open Profiles (LifecycleCloseErrorKind ProfileDescriptor ProfileError ProfileDocument findProfile)
open Pool (history)

/-! ## One connection -/

/-- **Only what belongs to the connection changed**: its entry, and its result sessions. -/
structure Exact (i : ConnectionIdentity) (s t : Shared) : Prop where
  entries : ∀ d, t.entries.get d ≠ s.entries.get d → ∃ c, c.identity = i ∧ held (s.entries.get d) = some c ∧
    (t.entries.get d = none ∨ held (t.entries.get d) = some c)
  completions : t.completions = s.completions
  tickets : t.nextTicket = s.nextTicket
  sessions : ∀ j session, j ≠ i → ((j, session) ∈ t.sessions ↔ (j, session) ∈ s.sessions)

variable {i : ConnectionIdentity} {s t : Shared}

theorem Exact.of_same (he : t.entries = s.entries) (hc : t.completions = s.completions)
    (ht : t.nextTicket = s.nextTicket) (hs : t.sessions = s.sessions) : Exact i s t :=
  ⟨fun d hd => absurd (by rw [he]) hd, hc, ht, fun j session _ => by rw [hs]⟩

variable {d : String}

variable {c : LiveConnection}

theorem Exact.of_held (hc : held (s.entries.get d) = some c) (hi : c.identity = i)
    {entries : Table String ProfileRuntimeEntry} (terminated : Table String ConnectionIdentity)
    (hother : ∀ d', d' ≠ d → entries.get d' = s.entries.get d')
    (hd : entries.get d = none ∨ held (entries.get d) = some c) :
    Exact i s { s with entries := entries, terminated := terminated } := by
  refine ⟨fun d' hd' => ?_, rfl, rfl, fun _ _ _ => Iff.rfl⟩
  by_cases h : d' = d
  · subst h
    exact ⟨c, hi, hc, hd⟩
  · exact absurd (hother d' h) hd'

theorem exact_beginClose (ho : ∀ r, s.entries.get d ≠ some (.opening r))
    (hl : ∀ c, s.entries.get d = some (.live c) → c.identity = i) : Exact i s (beginClose d s).2 := by
  unfold beginClose
  split
  · rename_i r hr
    exact absurd hr (ho r)
  · rename_i c hc
    refine .of_held (held_eq_some.2 (.inl hc)) (hl c hc) s.terminated
      (fun d' hd => (get_insert _ _ _ _).trans (if_neg hd)) (.inr ?_)
    rw [get_insert_self]
    rfl
  · exact .of_same rfl rfl rfl rfl
  · exact .of_same rfl rfl rfl rfl

theorem exact_finishClose {closed : Bool} (hi : c.identity = i) : Exact i s (finishClose c closed s).2 := by
  unfold finishClose
  split
  · rename_i hc
    have hheld := held_eq_some.2 (.inr hc)
    cases closed with
    | true =>
      exact .of_held hheld hi s.terminated (fun d' hd => (get_erase _ _ _).trans (if_neg hd))
        (.inl (get_erase_self _ _))
    | false =>
      refine .of_held hheld hi s.terminated (fun d' hd => (get_insert _ _ _ _).trans (if_neg hd)) (.inr ?_)
      rw [if_neg Bool.false_ne_true, get_insert_self]
      rfl
  · exact .of_same rfl rfl rfl rfl

theorem exact_erase (hc : held (s.entries.get d) = some c) (hi : c.identity = i)
    (terminated : Table String ConnectionIdentity) :
    Exact i s { s with entries := s.entries.erase d, terminated := terminated } :=
  .of_held hc hi terminated (fun _ hd => (get_erase _ _ _).trans (if_neg hd)) (.inl (get_erase_self _ _))

theorem exact_discardExact (hi : c.identity = i) : Exact i s (discardExact c s).2 := by
  unfold discardExact
  split
  · rename_i current hr
    split
    · rename_i hc
      exact exact_erase (held_eq_some.2 (.inl hr)) (by rw [hc, hi]) s.terminated
    · exact .of_same rfl rfl rfl rfl
  · rename_i current hr
    split
    · rename_i hc
      exact exact_erase (held_eq_some.2 (.inr hr)) (by rw [hc, hi]) s.terminated
    · exact .of_same rfl rfl rfl rfl
  · exact .of_same rfl rfl rfl rfl

theorem exact_markOffline : Exact i s (markExactConnectionOffline i s).2 := by
  unfold markExactConnectionOffline
  dsimp only
  split
  · rename_i current hr
    split
    · rename_i hc
      exact exact_erase (held_eq_some.2 (.inl hr)) hc _
    · exact .of_same rfl rfl rfl rfl
  · rename_i current hr
    split
    · rename_i hc
      exact exact_erase (held_eq_some.2 (.inr hr)) hc _
    · exact .of_same rfl rfl rfl rfl
  · exact .of_same rfl rfl rfl rfl

theorem exact_release : Exact i s (releaseConnection i s) := by
  refine ⟨fun _ hd => absurd rfl hd, rfl, rfl, fun j session hj => ?_⟩
  simp only [releaseConnection, mem_filter, ne_eq, decide_eq_true_eq, hj, not_false_eq_true, and_true]

theorem exact_close (outcome : CloseOutcome) (j : ConnectionIdentity) :
    Exact i s (closeExactInState outcome j s).2 := by
  unfold closeExactInState
  split
  · exact .of_same rfl rfl rfl rfl
  · cases outcome <;> exact .of_same rfl rfl rfl rfl

theorem exact_register (j : ConnectionIdentity) : Exact i s (registerActor j s).2 := by
  unfold registerActor
  split <;> exact .of_same rfl rfl rfl rfl

theorem exact_quiet {chance : Chance} {c : Command} (hq : c.quiet = true) : Exact i s (perform chance s c).2 := by
  cases c with
  | openable | resolve | hasActor | isTerminating | newConnection | openHandle | get | terminatedRun | otherActor =>
    exact .of_same rfl rfl rfl rfl
  | _ => cases hq

/-- The step is part of a disconnect of this connection, of what an opener does to discard it, or of marking it
offline. -/
inductive About (i : ConnectionIdentity) (x : Event) : Prop
  | operation (id : Nat) (call : Call) (a : Asked Command Reply) : x.label = .own id call a →
      call.identity? = some i → About i x
  | release (id : Nat) (call : Call) (answer : Unit) : x.label = .own id call ⟨.release i, answer⟩ → About i x
  | discard (id : Nat) (call : Call) (c : LiveConnection) (answer : Bool) : c.identity = i →
      x.label = .own id call ⟨.discard c, answer⟩ → About i x

variable {l : List Event} {u v : Moment} {id : Nat} {call : Call} {a : Asked Command Reply}
  {next : Reply a.command → M Answer}

theorem Own.shared_eq {chance : Chance} (h : Own l u id call a v chance next) :
    v.shared = (perform chance u.shared a.command).2 := (congrArg Prod.snd h.exec).symm

/-- **A step that is about one connection leaves the others.** -/
theorem Own.exact {chance : Chance} (h : Own l u id call a v chance next)
    (hx : Undisturbed l ⟨u, .own id call a, v⟩) (hi : About i ⟨u, .own id call a, v⟩) : Exact i u.shared v.shared := by
  have hcheck := fun {j c} (hj : Checked (history id l) j c) => (hj.identity_eq (h.steady.attests id)).1
  rw [h.shared_eq]
  cases hi with
  | release _ _ _ heq =>
    cases heq
    exact exact_release
  | discard _ _ c _ hc heq =>
    cases heq
    exact exact_discardExact hc
  | operation _ _ _ heq hcall =>
    cases heq
    obtain ⟨c, reply⟩ := a
    cases h.conduct with
    | quiet _ _ hq _ => exact exact_quiet hq
    | beginOpen _ _ _ hcall' | lifecycle _ _ hcall' | finished _ _ _ _ hcall' | discard _ _ _ _ hcall' =>
      subst hcall'
      cases hcall
    | register j _ _ _ => exact exact_register j
    | publish _ _ _ _ _ _ _ _ _ _ hcall' | fail _ _ _ hcall' =>
      rw [hcall'] at hcall
      cases hcall
    | close j _ _ _ => exact exact_close chance.closed j
    | disconnects j c' _ hcall' hchk _ _ =>
      subst hcall'
      obtain rfl := Option.some.inj hcall
      have hstands := hx.disconnect id j _ _ c' rfl hchk.got
      refine exact_beginClose (fun r hr => ?_) fun c hc => ?_
      · rw [hr] at hstands
        cases hstands
      · rw [hc] at hstands
        obtain rfl : c = c' := of_decide_eq_true hstands
        exact hcheck hchk
    | disconnected j c' closed _ hcall' hchk _ _ =>
      subst hcall'
      cases hcall
      exact exact_finishClose (hcheck hchk)
    | markOffline j _ hcall' _ _ =>
      subst hcall'
      cases hcall
      exact exact_markOffline
    | release j _ hj _ =>
      obtain rfl := hj i hcall
      exact exact_release

/-! ## What is published -/

/-- The reservation is not, and will not be, the one that the entry waits for. -/
structure Gone (r : OpeningReservation) (s : Shared) : Prop where
  ticket : r.ticket < s.nextTicket
  entry : ∀ current, s.entries.get r.descriptorId = some (.opening current) → current.ticket ≠ r.ticket

variable {r : OpeningReservation} {m : Move Command Reply Call} {profile : ProfileDescriptor} {secret : Option String}

theorem gone_step (hst : runtime.Step u m v) (h : Gone r u.shared) : Gone r v.shared := by
  cases hst with
  | start id job hn => exact h
  | drift wind =>
    refine ⟨h.ticket.trans_le (drift_grows wind _).tickets, fun current hc => h.entry current ?_⟩
    rw [← hc]
    exact congrArg (fun entries => entries.get r.descriptorId) (drift_entries wind _).symm
  | own chance id job c next hn =>
    refine ⟨h.ticket.trans_le (perform_grows chance c _).tickets, fun current hc => ?_⟩
    have hturn := perform_turns chance c u.shared r.descriptorId
    dsimp only [runtime] at hc
    rw [hc] at hturn
    generalize (perform chance u.shared c).1 = reply at hturn
    generalize ho : u.shared.entries.get r.descriptorId = old at hturn
    cases hturn with
    | still => exact h.entry current ho
    | reserved g _ _ => exact h.ticket.ne'

theorem gone_of_beginClose (hr : r.ticket < s.nextTicket) : Gone r (beginClose r.descriptorId s).2 := by
  unfold beginClose
  split
  · refine ⟨by rwa [finish_nextTicket], fun current hc => ?_⟩
    rw [finish_entries] at hc
    rw [get_erase_self] at hc
    cases hc
  · refine ⟨hr, fun current hc => ?_⟩
    rw [get_insert_self] at hc
    cases hc
  · rename_i hclosing
    refine ⟨hr, fun current hc => ?_⟩
    rw [hclosing] at hc
    cases hc
  · rename_i hnone
    refine ⟨hr, fun current hc => ?_⟩
    rw [hnone] at hc
    cases hc

theorem publishOpen_true (h : (publishOpen r c s).1 = true) : ¬ Gone r s := by
  intro hgone
  unfold publishOpen at h
  split at h
  · rename_i current hr
    split at h
    · rename_i hc
      exact hgone.entry current hr hc.1
    · cases h
  · cases h

/-- The opener's thread publishes the connection for the reservation. -/
def Publishes (id : Nat) (call : Call) (r : OpeningReservation) (c : LiveConnection) (x : Event) : Prop :=
  x.label = .own id call ⟨.publish r c, true⟩

def BeginsClose (d : String) (x : Event) : Prop := ∃ id call answer, x.label = .own id call ⟨.beginClose d, answer⟩

/-- **What is published was resolved for its reservation's configuration**, and no close of the descriptor began since
the reservation. -/
structure Justified (past : List Event) (id : Nat) (r : OpeningReservation) (c : LiveConnection) (d : String)
    (before : List Event) (reserve : Event) (between : List Event) (resolve : Event) (after : List Event) : Prop where
  past_eq : past = before ++ reserve :: (between ++ resolve :: after)
  reserved : ∃ call g, reserve.label =
    .own id call ⟨.beginOpen d g, (.ok (.opens r) : Except LifecycleCloseErrorKind OpenDecision)⟩
  resolved : ∃ call profile secret, resolve.label = .own id call
    ⟨.resolve d, (some (.ok (profile, secret)) : Awaited (Except ProfileError (ProfileDescriptor × Option String)))⟩
  generation : ∃ profile, findProfile resolve.src.shared.durable d = .ok profile ∧
    profile.configGeneration = r.configGeneration
  descriptor : r.descriptorId = d ∧ c.descriptorId = d
  kept : ∀ x ∈ between ++ resolve :: after, ¬ BeginsClose d x

theorem resolveSavedCredential_found {chance : Chance} {durable : ProfileDocument}

    (h : resolveSavedCredential chance durable d = .ok (profile, secret)) :
    ∃ stored, findProfile durable d = .ok stored ∧ stored.configGeneration = profile.configGeneration := by
  unfold resolveSavedCredential at h
  split at h
  · cases h
  · cases hp : durable.ensureNoPending d with
    | error error =>
      rw [hp] at h
      cases h
    | ok _ =>
      rw [hp] at h
      cases hf : findProfile durable d with
      | error error =>
        rw [hf] at h
        cases h
      | ok stored =>
        rw [hf] at h
        refine ⟨stored, rfl, ?_⟩
        dsimp only [Bind.bind, Except.bind] at h
        split at h
        · split at h
          · cases h
            rfl
          · cases h
        · split at h
          · cases h
          · cases h
            rfl

theorem found_of_resolve (hst : runtime.Step u m v) (hm : m = .own id call
      ⟨.resolve d, (some (.ok (profile, secret)) : Awaited (Except ProfileError (ProfileDescriptor × Option String)))⟩) :
    ∃ stored, findProfile u.shared.durable d = .ok stored ∧ stored.configGeneration = profile.configGeneration := by
  subst hm
  obtain ⟨chance, next, -, hexec, -⟩ := hst.own_inv
  have hanswer : (if chance.dropped then none else some (resolveSavedCredential chance u.shared.durable d)) =
      some (.ok (profile, secret)) := congrArg Prod.fst hexec
  split at hanswer
  · cases hanswer
  · exact resolveSavedCredential_found (Option.some.inj hanswer)

/-- **Every published connection is justified.** -/
theorem published_justified {t : Moment} (hs : Kept s) (h : runtime.Runs s l t) {past later : List Event}
    {x : Event} (hl : l = past ++ x :: later)
    (hx : Publishes id call r c x) :
    ∃ d before reserve between resolve after, Justified past id r c d before reserve between resolve after := by
  obtain ⟨hpast, hst⟩ := h.split hl
  rw [hx] at hst
  obtain ⟨chance, next, hown⟩ := exists_own hs hpast hst
  cases hown.conduct with
  | quiet _ _ hq _ => cases hq
  | publish _ _ _ d g profile secret before middle after _ he _ _ =>
    obtain ⟨hrd, hcd⟩ := he.descriptorId_eq (hown.steady.attests id)
    obtain ⟨first, reserve, rest, rfl, hreserve, -, hrest⟩ := Pool.exists_of_history he.past_eq
    obtain ⟨between, resolve, last, rfl, ⟨call', hresolve⟩, -, -⟩ := Pool.exists_of_history hrest
    refine ⟨d, first, reserve, between, resolve, last, rfl, ?_, ?_, ?_, ⟨hrd, hcd⟩, ?_⟩
    · obtain ⟨call, hlab⟩ := hreserve
      exact ⟨call, g, hlab⟩
    · exact ⟨call', profile, secret, hresolve⟩
    · obtain ⟨stored, hfound, hgen⟩ := found_of_resolve (hpast.split (append_assoc _ (reserve :: between) _).symm).2
        hresolve
      exact ⟨stored, hfound, hgen.trans he.configGeneration⟩
    · intro w hw hbegins
      obtain ⟨call, hreserve⟩ := hreserve
      obtain ⟨m1, m2, hm⟩ := append_of_mem hw
      rw [hm] at hpast
      have hsplit : first ++ reserve :: (m1 ++ w :: m2) = (first ++ reserve :: m1) ++ w :: m2 := by simp
      have hat := (hpast.split hsplit).1
      have hmem : ⟨.beginOpen d g, (.ok (.opens r) : Except LifecycleCloseErrorKind OpenDecision)⟩ ∈
          history id (first ++ reserve :: m1) :=
        Pool.mem_history.2 ⟨reserve, mem_append_right _ mem_cons_self, call, hreserve⟩
      have hticket := (((runs_steady hs hat).attests id _ hmem).opens _ _ _ rfl).2.2
      have hgone : Gone r w.dst.shared := by
        have hw := (hpast.split hsplit).2
        obtain ⟨id', call', answer, hlab⟩ := hbegins
        rw [hlab] at hw
        obtain ⟨chance', next', -, hexec, -⟩ := hw.own_inv
        rw [show w.dst.shared = (beginClose d w.src.shared).2 from (congrArg Prod.snd hexec).symm, ← hrd]
        exact gone_of_beginClose hticket
      refine publishOpen_true (congrArg Prod.fst hown.exec) ?_
      exact hpast.persists (P := fun u => Gone r u.shared) hsplit hgone fun y _ hy hgone => gone_step hy hgone

/-! ## Saved connections -/

def Idle (t : Moment) : Prop := ∀ id call rest, t.threads id = some ⟨call, rest⟩ → call.settles → ¬ rest.Goes

def Joins (k : Nat) (x : Event) : Prop := ∃ id call d g,
  x.label = .own id call ⟨.beginOpen d g, (.ok (.wait k) : Except LifecycleCloseErrorKind OpenDecision)⟩

def Registers (id : Nat) (i : ConnectionIdentity) (x : Event) : Prop :=
  ∃ call, x.label = .own id call ⟨.register i, (.ok () : Except OperationalErrorCode Unit)⟩

/-- **Saved connections are accounted for.** -/
structure Accounted (l : List Event) (t : Moment) : Prop where
  published : ∀ past x later id call r c, l = past ++ x :: later → Publishes id call r c x →
    ∃ d before reserve between resolve after, Justified past id r c d before reserve between resolve after
  entries : ∀ d c, held (t.shared.entries.get d) = some c → c.descriptorId = d
  actors : ∀ x ∈ l, ∀ id i, Registers id i x →
    Named t.shared i ∨ i ∈ t.shared.asked ∨ ∃ call rest, t.threads id = some ⟨call, rest⟩ ∧ rest.Goes
  exact : ∀ x ∈ l, ∀ i, About i x → Exact i x.src.shared x.dst.shared
  settled : Idle t → ∀ d e, t.shared.entries.get d = some e → ∃ c, e = .live c
  answered : Idle t → ∀ x ∈ l, ∀ k, Joins k x → ∃ v, t.shared.completions.get k = some v

theorem not_owed {p : Command → Prop} {t : Moment} (h : Idle t) : ¬ Pool.Owed Call.settles p t := by
  rintro ⟨id, call, rest, hrest, hcall, howes⟩
  exact h id call rest hrest hcall howes.goes

/-- **In every run that is not disturbed, saved connections are accounted for.** -/
theorem connections_accounted {l : List Event} {t : Moment} (h : Runs l t) (hl : AllUndisturbed l) : Accounted l t := by
  obtain ⟨durable, hrun⟩ := h
  have hkept := fresh_kept durable
  have hsteady := runs_steady hkept hrun
  have hduties := runs_duties (fun _ => rfl) hrun hl
  refine ⟨fun past x later id call r c hp hx => published_justified hkept hrun hp hx, fun d c hc => ?_,
    fun x hx id i hi => ?_, fun x hx i hi => ?_, fun hidle d e he => ?_, fun hidle x hx k hk => ?_⟩
  · cases hd : t.shared.entries.get d with
    | none =>
      rw [hd] at hc
      cases hc
    | some e =>
      rw [hd] at hc
      exact ((hsteady.kept d e hd).held c hc).1
  · obtain ⟨call, hlab⟩ := hi
    exact hduties.registered id i (Pool.mem_history.2 ⟨x, hx, call, hlab⟩)
  · obtain ⟨past, later, rfl, hpast, hst⟩ := hrun.transition x hx
    have hund := hl past x later rfl
    obtain ⟨u, m, v⟩ := x
    obtain ⟨id, call, a, rfl⟩ : ∃ id call a, m = .own id call a := by
      cases hi with
      | operation id call a heq _ => exact ⟨id, call, a, heq⟩
      | release id call answer heq => exact ⟨id, call, _, heq⟩
      | discard id call c answer _ heq => exact ⟨id, call, _, heq⟩
    obtain ⟨chance, next, hown⟩ := exists_own hkept hpast hst
    exact hown.exact hund hi
  · cases e with
    | opening r => exact absurd (hduties.opening d r he) (not_owed hidle)
    | closing c => exact absurd (hduties.closing d c he) (not_owed hidle)
    | live c => exact ⟨c, rfl⟩
  · obtain ⟨id, call, d, g, hlab⟩ := hk
    rcases (hsteady.attests id _ (Pool.mem_history.2 ⟨x, hx, call, hlab⟩)).waits d g k rfl with hv | ⟨d', r, hr, -⟩
    · exact hv
    · exact absurd (hduties.opening d' r hr) (not_owed hidle)

namespace Sample

def chance : Chance := ⟨false, none, .ok "secret", "a", .ok (), .closed ⟨false, false, 0⟩, false⟩
def durable : ProfileDocument := ⟨1, [⟨"d", 1, "notes", .sqlite "/notes.db" none, .notRequired, none⟩], [], []⟩

def first : ConnectionIdentity := ⟨"d", "db-1", "connection-a"⟩

def outcome (turns : List (Turn Call Chance Wind)) : Option (List Event × Moment) :=
  Trace.play runtime.next turns [] ⟨fresh durable, fun _ => none⟩

theorem runs_outcome {turns : List (Turn Call Chance Wind)} {t : Moment}
    (h : outcome turns = some (l, t)) : Runs l t := ⟨durable, Trace.of_play Pool.step_of_next (.start rfl) h⟩

def running (id : Nat) (call : Call) (steps : Nat) : List (Turn Call Chance Wind) :=
  .start id call :: List.replicate steps (.run id chance)

/-- The first steps of an opener, up to the one that registers its actor. -/
def registering : List (Turn Call Chance Wind) := running 0 (.openSaved "d") 6

def disconnecting : List (Turn Call Chance Wind) := running 0 (.openSaved "d") 7 ++ running 1 (.disconnect first) 5

/-- The same disconnect is overtaken by a close and another opener, after it has looked at the entry. -/
def overtaken : List (Turn Call Chance Wind) :=
  running 0 (.openSaved "d") 7 ++ running 1 (.disconnect first) 1 ++ running 2 (.cancelAndClose "d") 4 ++
    running 3 (.openSaved "d") 7 ++ List.replicate 4 (Turn.run 1 chance)

/-- `Undisturbed`, as a computation. -/
def calm (past : List Event) (x : Event) : Bool :=
  match x.label with
  | .own _ _ ⟨.discard _, _⟩ => false
  | .own id _ ⟨.beginClose d, _⟩ =>
    (history id past).all fun a =>
      match a with
      | ⟨.get _, some c⟩ => stands c (x.src.shared.entries.get d)
      | _ => true
  | _ => true

def calmFrom : List Event → List Event → Bool
  | _, [] => true
  | past, x :: later => calm past x && calmFrom (past ++ [x]) later

theorem calm_sound {past : List Event} {x : Event} (h : calm past x = true) : Undisturbed past x := by
  refine ⟨fun id i d answer c hx hmem => ?_, fun id call c answer hx => ?_⟩
  · rw [calm, hx] at h
    exact all_eq_true.1 h _ hmem
  · rw [calm, hx] at h
    cases h

theorem calmFrom_sound : ∀ {later past : List Event}, calmFrom past later = true → ∀ before x after,
    later = before ++ x :: after → Undisturbed (past ++ before) x
  | [], _, _, before, x, after, hl => by simp at hl
  | y :: later, past, h, before, x, after, hl => by
    rw [calmFrom, Bool.and_eq_true] at h
    cases before with
    | nil =>
      cases hl
      rw [append_nil]
      exact calm_sound h.1
    | cons z before =>
      obtain ⟨rfl, htail⟩ := List.cons.inj hl
      have := calmFrom_sound h.2 before x after htail
      rwa [append_assoc] at this

theorem undisturbed_of_calm (h : calmFrom [] l = true) : AllUndisturbed l :=
  fun past x later hl => calmFrom_sound h past x later hl

def ended (r : List Event × Moment) : Bool :=
  r.1.all fun x =>
    match x.label with
    | .start id _ =>
      match r.2.threads id with
      | some ⟨_, .done _⟩ => true
      | _ => false
    | _ => true

theorem idle_of_ended {t : Moment} (hr : Runs l t) (h : ended (l, t) = true) : Idle t := by
  intro id call rest hrest _ hgoes
  obtain ⟨durable, hrun⟩ := hr
  obtain ⟨x, hx, job, hlab⟩ := hrun.started hrest
  have := all_eq_true.1 h x hx
  rw [hlab] at this
  dsimp only at this
  rw [hrest] at this
  cases rest with
  | done r => exact hgoes
  | call c next => cases this

def publishes (x : Event) : Bool :=
  match x.label with
  | .own _ _ ⟨.publish _ c, true⟩ => c.identity = first
  | _ => false

def registers (x : Event) : Bool :=
  match x.label with
  | .own _ _ ⟨.register i, .ok ()⟩ => i = first
  | _ => false

/-- The run publishes the first connection, and disconnects it undisturbed. -/
def disconnects (r : List Event × Moment) : Bool :=
  calmFrom [] r.1 && r.1.any publishes && ended r && (r.2.shared.entries.get "d").isNone

/-- The run has registered the first actor, which no entry names. -/
def unnamed (r : List Event × Moment) : Bool :=
  r.1.any registers && r.2.shared.entries.keys = ["d"] && (held (r.2.shared.entries.get "d")).isNone &&
    r.2.shared.asked.isEmpty

def stranded (r : List Event × Moment) : Bool :=
  ended r &&
    match r.2.shared.entries.get "d" with
    | some (.closing _) => true
    | _ => false

theorem exists_outcome (turns : List (Turn Call Chance Wind)) (p : List Event × Moment → Bool)
    (h : (outcome turns).any p = true) : ∃ l t, Runs l t ∧ p (l, t) = true := by
  obtain ⟨⟨l, t⟩, hr, hp⟩ := (Option.any_eq_true _ _).1 h
  exact ⟨l, t, runs_outcome hr, hp⟩

theorem not_named {t : Shared} (hk : t.entries.keys = ["d"]) (hd : (held (t.entries.get "d")).isNone = true)
    (i : ConnectionIdentity) : ¬ Named t i := by
  rintro ⟨d, c, hc, -⟩
  have hmem : d ∈ t.entries.keys := by
    cases he : t.entries.get d with
    | none =>
      rw [he] at hc
      cases hc
    | some e => exact mem_keys.2 ⟨e, he⟩
  rw [hk, mem_singleton] at hmem
  subst hmem
  rw [hc] at hd
  cases hd

end Sample

/-- A connection that is opened and disconnected is accounted for. -/
theorem connections_accounted_disconnected : ∃ l t, Runs l t ∧ l.any Sample.publishes = true ∧ Idle t ∧
    t.shared.entries.get "d" = none ∧ Accounted l t := by
  obtain ⟨l, t, hr, hp⟩ := Sample.exists_outcome Sample.disconnecting Sample.disconnects rfl
  simp only [Sample.disconnects, Bool.and_eq_true, Option.isNone_iff_eq_none] at hp
  obtain ⟨⟨⟨hcalm, hpublishes⟩, hended⟩, hnone⟩ := hp
  exact ⟨l, t, hr, hpublishes, Sample.idle_of_ended hr hended, hnone,
    connections_accounted hr (Sample.undisturbed_of_calm hcalm)⟩

/-- **An actor is registered before an entry names it, and a disconnect that is overtaken leaves another connection
closing**, with nobody left who would finish it. -/
theorem connections_stranded : (∃ l t, Runs l t ∧ ∃ x ∈ l, ∃ id i, Registers id i x ∧ ¬ Named t.shared i ∧
    i ∉ t.shared.asked) ∧ ∃ l t, Runs l t ∧ Idle t ∧ ∃ d c, t.shared.entries.get d = some (.closing c) := by
  constructor
  · obtain ⟨l, t, hr, hp⟩ := Sample.exists_outcome Sample.registering Sample.unnamed rfl
    simp only [Sample.unnamed, Bool.and_eq_true, decide_eq_true_eq, List.isEmpty_iff] at hp
    obtain ⟨⟨⟨hregisters, hkeys⟩, hheld⟩, hasked⟩ := hp
    obtain ⟨x, hx, hreg⟩ := any_eq_true.1 hregisters
    rw [Sample.registers] at hreg
    split at hreg
    · rename_i id call i hlab
      exact ⟨l, t, hr, x, hx, id, i, ⟨call, hlab⟩, Sample.not_named hkeys hheld i, by rw [hasked]; exact List.not_mem_nil⟩
    · cases hreg
  · obtain ⟨l, t, hr, hp⟩ := Sample.exists_outcome Sample.overtaken Sample.stranded rfl
    rw [Sample.stranded, Bool.and_eq_true] at hp
    obtain ⟨hended, hclosing⟩ := hp
    split at hclosing
    · rename_i c hc
      exact ⟨l, t, hr, Sample.idle_of_ended hr hended, "d", c, hc⟩
    · cases hclosing

end Runtime
end Yuzora
