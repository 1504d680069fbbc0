import Yuzora.ProfileRuntime
/-!
# RuntimeSteps — what one command does

`Turns` says what a command does to the entry of a descriptor, `Grows` what no command takes back, and `Conduct` what
stands behind each command an operation issues and what the operation still owes after it.
-/
namespace Yuzora
namespace Runtime

open Option
open Table
open Profiles (LifecycleCloseErrorKind ProfileDescriptor ProfileError openConfig)

/-! ## Entries -/

def held : Option ProfileRuntimeEntry → Option LiveConnection
  | some (.live c) | some (.closing c) => some c
  | _ => none

variable {c : LiveConnection}

variable {e : Option ProfileRuntimeEntry}

theorem held_eq_some : held e = some c ↔ e = some (.live c) ∨ e = some (.closing c) := by
  unfold held
  split <;> simp_all

/-- **What a command does to the entry of a descriptor**, with its answer; `ticket` is the next one before it. -/
inductive Turns (ticket : Nat) (d : String) :
    Asked Command Reply → Option ProfileRuntimeEntry → Option ProfileRuntimeEntry → Prop
  | still (a : Asked Command Reply) (e : Option ProfileRuntimeEntry) : Turns ticket d a e e
  | reserved (g : Nat) (e : Option ProfileRuntimeEntry) : held e = none →
      Turns ticket d ⟨.beginOpen d g, (.ok (.opens ⟨d, ticket, g⟩) : Except LifecycleCloseErrorKind OpenDecision)⟩ e
        (some (.opening ⟨d, ticket, g⟩))
  | exhausted (g : Nat) (r : OpeningReservation) :
      Turns ticket d ⟨.beginOpen d g, (.error .closeFailed : Except LifecycleCloseErrorKind OpenDecision)⟩
        (some (.opening r)) none
  | published (r current : OpeningReservation) (c : LiveConnection) : r.descriptorId = d →
      current.ticket = r.ticket → Turns ticket d ⟨.publish r c, true⟩ (some (.opening current)) (some (.live c))
  | failed (r current : OpeningReservation) (error : RuntimeError) : r.descriptorId = d → current.ticket = r.ticket →
      Turns ticket d ⟨.fail r error, ()⟩ (some (.opening current)) none
  | invalidated (r : OpeningReservation) :
      Turns ticket d ⟨.beginClose d, (.ok none : Except LifecycleCloseErrorKind (Option LiveConnection))⟩
        (some (.opening r)) none
  | closes (c : LiveConnection) :
      Turns ticket d ⟨.beginClose d, (.ok (some c) : Except LifecycleCloseErrorKind (Option LiveConnection))⟩
        (some (.live c)) (some (.closing c))
  | closed (c : LiveConnection) : c.descriptorId = d →
      Turns ticket d ⟨.finishClose c true, (.ok () : Except LifecycleCloseErrorKind Unit)⟩ (some (.closing c)) none
  | restored (c : LiveConnection) : c.descriptorId = d →
      Turns ticket d ⟨.finishClose c false, (.ok () : Except LifecycleCloseErrorKind Unit)⟩ (some (.closing c))
        (some (.live c))
  | discarded (c : LiveConnection) (e : Option ProfileRuntimeEntry) : c.descriptorId = d → held e = some c →
      Turns ticket d ⟨.discard c, true⟩ e none
  | offline (i : ConnectionIdentity) (c : LiveConnection) (e : Option ProfileRuntimeEntry) : i.descriptorId = d →
      c.identity = i → held e = some c → Turns ticket d ⟨.markOffline i, (.ok () : Except RuntimeError Unit)⟩ e none

variable (k : Nat)

@[simp] theorem finish_entries (v : Except RuntimeError LiveConnection) (s : Shared) :
    (finish k v s).entries = s.entries := by
  rw [finish]
  split <;> rfl

@[simp] theorem finish_nextTicket (v : Except RuntimeError LiveConnection) (s : Shared) :
    (finish k v s).nextTicket = s.nextTicket := by
  rw [finish]
  split <;> rfl

variable {d : String} {s : Shared}

variable {g : Nat}

theorem reserveLocked_other {d' : String} (h : d' ≠ d) : (reserveLocked d' g s).2.entries.get d = s.entries.get d := by
  unfold reserveLocked
  dsimp only
  split
  · exact (get_insert _ _ _ _).trans (if_neg (Ne.symm h))
  · rfl

theorem reserveLocked_turns (hs : s.entries.get d = none) (he : e = none ∨ ∃ r, e = some (.opening r)) :
    Turns s.nextTicket d ⟨.beginOpen d g, (reserveLocked d g s).1⟩ e ((reserveLocked d g s).2.entries.get d) := by
  unfold reserveLocked
  dsimp only
  split
  · dsimp only
    rw [get_insert_self]
    refine .reserved g e ?_
    rcases he with rfl | ⟨r, rfl⟩ <;> rfl
  · dsimp only
    rw [hs]
    rcases he with rfl | ⟨r, rfl⟩
    · exact .still _ _
    · exact .exhausted g r

theorem beginOpen_turns (d' : String) (g : Nat) :
    Turns s.nextTicket d ⟨.beginOpen d' g, (beginOpen d' g s).1⟩ (s.entries.get d) ((beginOpen d' g s).2.entries.get d) := by
  by_cases hd : d' = d
  · subst hd
    unfold beginOpen
    split
    · exact .still _ _
    · exact .still _ _
    · rename_i r hr
      split
      · exact .still _ _
      · have hnext := finish_nextTicket r.ticket (.error invalidated) s
        have := reserveLocked_turns (d := d') (g := g) (e := s.entries.get d')
          (s := { finish r.ticket (.error invalidated) s with
            entries := (finish r.ticket (.error invalidated) s).entries.erase d' })
          (get_erase_self _ _) (.inr ⟨r, hr⟩)
        rwa [show ({ finish r.ticket (.error invalidated) s with
            entries := (finish r.ticket (.error invalidated) s).entries.erase d' } : Shared).nextTicket = s.nextTicket
          from hnext] at this
    · rename_i hr
      exact reserveLocked_turns hr (.inl hr)
  · have hother : (beginOpen d' g s).2.entries.get d = s.entries.get d := by
      unfold beginOpen
      split
      · rfl
      · rfl
      · split
        · rfl
        · rw [reserveLocked_other hd]
          rw [get_erase, if_neg (Ne.symm hd), finish_entries]
      · exact reserveLocked_other hd
    rw [hother]
    exact .still _ _

variable (r : OpeningReservation)

theorem publishOpen_turns (c : LiveConnection) :
    Turns s.nextTicket d ⟨.publish r c, (publishOpen r c s).1⟩ (s.entries.get d) ((publishOpen r c s).2.entries.get d) := by
  unfold publishOpen
  split
  · rename_i current hr
    split
    · rename_i hc
      rw [finish_entries, get_insert]
      split
      · rename_i hd
        subst hd
        rw [hr]
        exact .published r current c rfl hc.1
      · exact .still _ _
    · exact .still _ _
  · exact .still _ _

theorem failOpen_turns (error : RuntimeError) :
    Turns s.nextTicket d ⟨.fail r error, ()⟩ (s.entries.get d) ((failOpen r error s).entries.get d) := by
  rw [failOpen, finish_entries]
  split
  · rename_i current hr
    split
    · rename_i hc
      rw [get_erase]
      split
      · rename_i hd
        subst hd
        rw [hr]
        exact .failed r current error rfl hc
      · exact .still _ _
    · exact .still _ _
  · exact .still _ _

theorem beginClose_turns (d' : String) :
    Turns s.nextTicket d ⟨.beginClose d', (beginClose d' s).1⟩ (s.entries.get d) ((beginClose d' s).2.entries.get d) := by
  unfold beginClose
  split
  · rename_i r hr
    rw [finish_entries, get_erase]
    split
    · rename_i hd
      subst hd
      rw [hr]
      exact .invalidated r
    · exact .still _ _
  · rename_i c hc
    rw [get_insert]
    split
    · rename_i hd
      subst hd
      rw [hc]
      exact .closes c
    · exact .still _ _
  · exact .still _ _
  · exact .still _ _

theorem finishClose_turns (c : LiveConnection) (closed : Bool) :
    Turns s.nextTicket d ⟨.finishClose c closed, (finishClose c closed s).1⟩ (s.entries.get d)
      ((finishClose c closed s).2.entries.get d) := by
  unfold finishClose
  split
  · rename_i hc
    cases closed with
    | true =>
      rw [if_pos rfl, get_erase]
      split
      · rename_i hd
        subst hd
        rw [hc]
        exact .closed c rfl
      · exact .still _ _
    | false =>
      rw [if_neg Bool.false_ne_true, get_insert]
      split
      · rename_i hd
        subst hd
        rw [hc]
        exact .restored c rfl
      · exact .still _ _
  · exact .still _ _

theorem discardExact_turns (c : LiveConnection) :
    Turns s.nextTicket d ⟨.discard c, (discardExact c s).1⟩ (s.entries.get d) ((discardExact c s).2.entries.get d) := by
  have hgone : ∀ current, held (s.entries.get c.descriptorId) = some current → current = c →
      Turns s.nextTicket d ⟨.discard c, true⟩ (s.entries.get d) ((s.entries.erase c.descriptorId).get d) := by
    intro current hheld hc
    subst hc
    rw [get_erase]
    split
    · rename_i hd
      subst hd
      exact .discarded _ _ rfl hheld
    · exact .still _ _
  unfold discardExact
  split
  · rename_i current hr
    split
    · rename_i hc
      exact hgone current (held_eq_some.2 (.inl hr)) hc
    · exact .still _ _
  · rename_i current hr
    split
    · rename_i hc
      exact hgone current (held_eq_some.2 (.inr hr)) hc
    · exact .still _ _
  · exact .still _ _

variable (i : ConnectionIdentity)

theorem markExactConnectionOffline_turns :
    Turns s.nextTicket d ⟨.markOffline i, (markExactConnectionOffline i s).1⟩ (s.entries.get d)
      ((markExactConnectionOffline i s).2.entries.get d) := by
  have hgone : ∀ current, held (s.entries.get i.descriptorId) = some current → current.identity = i →
      Turns s.nextTicket d ⟨.markOffline i, (.ok () : Except RuntimeError Unit)⟩ (s.entries.get d)
        ((s.entries.erase i.descriptorId).get d) := by
    intro current hheld hc
    rw [get_erase]
    split
    · rename_i hd
      subst hd
      exact .offline i current _ rfl hc hheld
    · exact .still _ _
  unfold markExactConnectionOffline
  dsimp only
  split
  · rename_i current hr
    split
    · rename_i hc
      exact hgone current (held_eq_some.2 (.inl hr)) hc
    · exact .still _ _
  · rename_i current hr
    split
    · rename_i hc
      exact hgone current (held_eq_some.2 (.inr hr)) hc
    · exact .still _ _
  · exact .still _ _

@[simp] theorem closeExactInState_entries (outcome : CloseOutcome) (i : ConnectionIdentity) (s : Shared) :
    (closeExactInState outcome i s).2.entries = s.entries := by
  unfold closeExactInState
  split
  · rfl
  · cases outcome <;> rfl

@[simp] theorem registerActor_entries (s : Shared) :
    (registerActor i s).2.entries = s.entries := by
  unfold registerActor
  split <;> rfl

/-- **Every command turns an entry in one of these ways.** -/
theorem perform_turns (chance : Chance) (c : Command) (s : Shared) (d : String) :
    Turns s.nextTicket d ⟨c, (perform chance s c).1⟩ (s.entries.get d) ((perform chance s c).2.entries.get d) := by
  cases c with
  | beginOpen d' g => exact beginOpen_turns d' g
  | publish r c => exact publishOpen_turns r c
  | fail r error => exact failOpen_turns r error
  | beginClose d' => exact beginClose_turns d'
  | finishClose c closed => exact finishClose_turns c closed
  | discard c => exact discardExact_turns c
  | markOffline i => exact markExactConnectionOffline_turns i
  | register i =>
    rw [show (perform chance s (.register i)).2.entries = s.entries from registerActor_entries i s]
    exact .still _ _
  | close i =>
    rw [show (perform chance s (.close i)).2.entries = s.entries from closeExactInState_entries chance.closed i s]
    exact .still _ _
  | _ => exact .still _ _

/-! ## What no command takes back -/

def Ripe (s : Shared) (i : ConnectionIdentity) : Prop := (exactActor s i).isSome = true ∨ i ∈ s.asked

def Settled (s : Shared) (k : Nat) : Prop :=
  (∃ v, s.completions.get k = some v) ∨ ∃ d r, s.entries.get d = some (.opening r) ∧ r.ticket = k

/-- **What no command takes back**: tickets, results of reservations, actors' last words. -/
structure Grows (s t : Shared) : Prop where
  tickets : s.nextTicket ≤ t.nextTicket
  completions : ∀ k v, s.completions.get k = some v → t.completions.get k = some v
  asked : ∀ i ∈ s.asked, i ∈ t.asked
  ripe : ∀ i, Ripe s i → Ripe t i
  settled : ∀ d r, s.entries.get d = some (.opening r) →
    t.entries.get d = some (.opening r) ∨ ∃ v, t.completions.get r.ticket = some v

theorem Grows.refl (s : Shared) : Grows s s := ⟨le_rfl, fun _ _ => id, fun _ => id, fun _ => id, fun _ _ => .inl⟩

variable {t : Shared}

theorem Grows.settles (h : Grows s t) {k : Nat} (hk : Settled s k) : Settled t k := by
  rcases hk with ⟨v, hv⟩ | ⟨d, r, hr, rfl⟩
  · exact .inl ⟨v, h.completions k v hv⟩
  · rcases h.settled d r hr with ht | hv
    · exact .inr ⟨d, r, ht, rfl⟩
    · exact .inl hv

theorem Grows.of_same (htickets : s.nextTicket ≤ t.nextTicket) (hactors : t.actors = s.actors)
    (hasked : t.asked = s.asked) (hcompletions : ∀ k v, s.completions.get k = some v → t.completions.get k = some v)
    (hsettled : ∀ d r, s.entries.get d = some (.opening r) →
      t.entries.get d = some (.opening r) ∨ ∃ v, t.completions.get r.ticket = some v) : Grows s t := by
  refine ⟨htickets, hcompletions, fun i hi => hasked ▸ hi, fun i hi => ?_, hsettled⟩
  rw [Ripe, exactActor, hactors, hasked]
  exact hi

theorem finish_completed (v : Except RuntimeError LiveConnection) (s : Shared) :
    ∃ v', (finish k v s).completions.get k = some v' := by
  rw [finish]
  split
  · rename_i v' hv
    exact ⟨v', hv⟩
  · exact ⟨v, get_insert_self _ _ _⟩

theorem finish_completions {k j : Nat} {v v' : Except RuntimeError LiveConnection}
    (h : s.completions.get j = some v') : (finish k v s).completions.get j = some v' := by
  rw [finish]
  split
  · exact h
  · rename_i hk
    rw [get_insert, if_neg, h]
    rintro rfl
    rw [hk] at h
    cases h

@[simp] theorem finish_actors (v : Except RuntimeError LiveConnection) (s : Shared) :
    (finish k v s).actors = s.actors := by
  rw [finish]
  split <;> rfl

@[simp] theorem finish_asked (v : Except RuntimeError LiveConnection) (s : Shared) :
    (finish k v s).asked = s.asked := by
  rw [finish]
  split <;> rfl

theorem finish_with_entries (v : Except RuntimeError LiveConnection) (s : Shared)
    (entries : Table String ProfileRuntimeEntry) :
    finish k v { s with entries := entries } = { finish k v s with entries := entries } := by
  rw [finish, finish]
  dsimp only
  split <;> rfl

theorem grows_finish {r : OpeningReservation} (hr : s.entries.get d = some (.opening r))
    (v : Except RuntimeError LiveConnection) (entries : Table String ProfileRuntimeEntry)
    (he : ∀ d', d' ≠ d → entries.get d' = s.entries.get d') : Grows s { finish r.ticket v s with entries := entries } := by
  refine .of_same (finish_nextTicket _ _ _).ge (finish_actors _ _ _) (finish_asked _ _ _) (fun _ _ => finish_completions)
    fun d' r' hr' => ?_
  by_cases hd : d' = d
  · subst hd
    rw [hr] at hr'
    cases hr'
    exact .inr (finish_completed _ _ _)
  · exact .inl ((he d' hd).trans hr')

theorem grows_reserveLocked (hs : s.entries.get d = none) : Grows s (reserveLocked d g s).2 := by
  unfold reserveLocked
  dsimp only
  split
  · refine .of_same (Nat.le_succ _) rfl rfl (fun _ _ => id) fun d' r hr => .inl ?_
    rw [get_insert, if_neg, hr]
    rintro rfl
    rw [hs] at hr
    cases hr
  · exact .of_same le_rfl rfl rfl (fun _ _ => id) fun _ _ => .inl

theorem Grows.trans {s u : Shared} (h : Grows s t) (h' : Grows t u) : Grows s u := by
  refine ⟨h.tickets.trans h'.tickets, fun k v hv => h'.completions k v (h.completions k v hv),
    fun i hi => h'.asked i (h.asked i hi), fun i hi => h'.ripe i (h.ripe i hi), fun d r hr => ?_⟩
  rcases h.settled d r hr with ht | ⟨v, hv⟩
  · exact h'.settled d r ht
  · exact .inr ⟨v, h'.completions _ v hv⟩

theorem grows_beginOpen (d : String) (g : Nat) (s : Shared) : Grows s (beginOpen d g s).2 := by
  unfold beginOpen
  split
  · exact .refl s
  · exact .refl s
  · rename_i r hr
    split
    · exact .refl s
    · dsimp only
      refine (grows_finish hr _ _ fun d' hd => ?_).trans (grows_reserveLocked (get_erase_self _ _))
      rw [finish_entries, get_erase, if_neg hd]
  · rename_i hr
    exact grows_reserveLocked hr

theorem grows_publishOpen (c : LiveConnection) (s : Shared) :
    Grows s (publishOpen r c s).2 := by
  unfold publishOpen
  split
  · rename_i current hr
    split
    · rename_i hc
      rw [← hc.1, finish_with_entries]
      refine grows_finish hr _ _ fun d' hd => ?_
      rw [get_insert, if_neg hd]
    · exact .refl s
  · exact .refl s

theorem grows_failOpen (error : RuntimeError) (s : Shared) : Grows s (failOpen r error s) := by
  have hfinish : Grows s (finish r.ticket (.error error) s) :=
    .of_same (finish_nextTicket _ _ _).ge (finish_actors _ _ _) (finish_asked _ _ _) (fun _ _ => finish_completions)
      fun d r' hr => .inl (by rw [finish_entries, hr])
  unfold failOpen
  split
  · rename_i current hr
    split
    · rename_i hc
      rw [← hc, finish_with_entries]
      refine grows_finish hr _ _ fun d' hd => ?_
      rw [get_erase, if_neg hd]
    · exact hfinish
  · exact hfinish

theorem grows_beginClose (d : String) (s : Shared) : Grows s (beginClose d s).2 := by
  unfold beginClose
  split
  · rename_i r hr
    rw [finish_with_entries]
    refine grows_finish hr _ _ fun d' hd => ?_
    rw [get_erase, if_neg hd]
  · rename_i c hc
    refine .of_same le_rfl rfl rfl (fun _ _ => id) fun d' r hr => .inl ?_
    rw [get_insert, if_neg, hr]
    rintro rfl
    rw [hc] at hr
    cases hr
  · exact .refl s
  · exact .refl s

theorem grows_held (hc : held (s.entries.get d) = some c)
    {entries : Table String ProfileRuntimeEntry} (terminated : Table String ConnectionIdentity)
    (he : ∀ d', d' ≠ d → entries.get d' = s.entries.get d') :
    Grows s { s with entries := entries, terminated := terminated } := by
  refine .of_same le_rfl rfl rfl (fun _ _ => id) fun d' r hr => .inl ?_
  rw [← hr]
  refine he d' fun hd => ?_
  rw [← hd, hr] at hc
  cases hc

theorem grows_finishClose (c : LiveConnection) (closed : Bool) (s : Shared) : Grows s (finishClose c closed s).2 := by
  unfold finishClose
  split
  · rename_i hc
    refine grows_held (held_eq_some.2 (.inr hc)) s.terminated fun d' hd => ?_
    cases closed with
    | true => exact (get_erase _ _ _).trans (if_neg hd)
    | false => exact (get_insert _ _ _ _).trans (if_neg hd)
  · exact .refl s

theorem grows_discardExact (c : LiveConnection) (s : Shared) : Grows s (discardExact c s).2 := by
  have hgone : ∀ current, held (s.entries.get c.descriptorId) = some current →
      Grows s { s with entries := s.entries.erase c.descriptorId } := fun current hheld =>
    grows_held hheld s.terminated fun d' hd => (get_erase _ _ _).trans (if_neg hd)
  unfold discardExact
  split
  · rename_i current hr
    split
    · exact hgone current (held_eq_some.2 (.inl hr))
    · exact .refl s
  · rename_i current hr
    split
    · exact hgone current (held_eq_some.2 (.inr hr))
    · exact .refl s
  · exact .refl s

theorem grows_markOffline (s : Shared) : Grows s (markExactConnectionOffline i s).2 := by
  have hgone : ∀ current, held (s.entries.get i.descriptorId) = some current → Grows s { s with
      entries := s.entries.erase i.descriptorId, terminated := s.terminated.insert i.descriptorId i } :=
    fun current hheld => grows_held hheld _ fun d' hd => (get_erase _ _ _).trans (if_neg hd)
  unfold markExactConnectionOffline
  dsimp only
  split
  · rename_i current hr
    split
    · exact hgone current (held_eq_some.2 (.inl hr))
    · exact .refl s
  · rename_i current hr
    split
    · exact hgone current (held_eq_some.2 (.inr hr))
    · exact .refl s
  · exact .refl s

/-! ### Actors -/

variable {i : ConnectionIdentity} {actor : Actor}

theorem exactActor_eq_some :
    exactActor s i = some actor ↔ s.actors.get i.connectionId = some actor ∧ actor.identity = i := by
  rw [exactActor, filter_eq_some_iff, decide_eq_true_iff]

theorem grows_registerActor (i : ConnectionIdentity) (s : Shared) : Grows s (registerActor i s).2 := by
  unfold registerActor
  split
  · exact .refl s
  · rename_i hnone
    refine ⟨le_rfl, fun _ _ => id, fun _ => id, fun j hj => ?_, fun _ _ => .inl⟩
    refine hj.imp (fun hactor => ?_) id
    obtain ⟨actor, ha⟩ := isSome_iff_exists.1 hactor
    obtain ⟨hget, hid⟩ := exactActor_eq_some.1 ha
    refine isSome_iff_exists.2 ⟨actor, exactActor_eq_some.2 ⟨?_, hid⟩⟩
    rw [get_insert, if_neg, hget]
    intro heq
    rw [← heq, hget] at hnone
    cases hnone

/-- The actors change at one connection, whose actor has the identity `i` before, and keeps it or was asked to close. -/
theorem grows_actor (ha : exactActor s i = some actor)
    (hother : ∀ k, k ≠ i.connectionId → t.actors.get k = s.actors.get k)
    (hi : (∃ actor', t.actors.get i.connectionId = some actor' ∧ actor'.identity = i) ∨ i ∈ t.asked)
    (hasked : ∀ j ∈ s.asked, j ∈ t.asked) (hentries : t.entries = s.entries)
    (hcompletions : t.completions = s.completions) (htickets : t.nextTicket = s.nextTicket) : Grows s t := by
  refine ⟨htickets.ge, fun k v hv => hcompletions ▸ hv, hasked, fun j hj => ?_, fun d r hr => .inl (hentries ▸ hr)⟩
  rcases hj with hactor | hj
  · obtain ⟨actor', ha'⟩ := isSome_iff_exists.1 hactor
    by_cases hk : j.connectionId = i.connectionId
    · have hji : j = i := by
        rw [exactActor_eq_some] at ha ha'
        rw [hk, ha.1] at ha'
        rw [← ha'.2, ← ha.2, Option.some.inj ha'.1]
      subst hji
      refine hi.imp (fun ⟨actor'', hget, hid⟩ => ?_) id
      exact isSome_iff_exists.2 ⟨actor'', exactActor_eq_some.2 ⟨hget, hid⟩⟩
    · refine .inl (isSome_iff_exists.2 ⟨actor', exactActor_eq_some.2 ?_⟩)
      rw [hother _ hk]
      exact exactActor_eq_some.1 ha'
  · exact .inr (hasked j hj)

theorem grows_closeExactInState (outcome : CloseOutcome) (i : ConnectionIdentity) (s : Shared) :
    Grows s (closeExactInState outcome i s).2 := by
  unfold closeExactInState
  split
  · exact .refl s
  · rename_i actor ha
    have hmem : i ∈ i :: s.asked := List.mem_cons_self
    have hsub : ∀ j ∈ s.asked, j ∈ i :: s.asked := fun j => List.mem_cons_of_mem i
    cases outcome with
    | closed report =>
      exact grows_actor ha (fun k hk => (get_erase _ _ _).trans (if_neg hk)) (.inr hmem) hsub rfl rfl rfl
    | busy =>
      exact grows_actor ha (fun k hk => (get_insert _ _ _ _).trans (if_neg hk)) (.inr hmem) hsub rfl rfl rfl
    | failed code => exact grows_actor ha (fun _ _ => rfl) (.inr hmem) hsub rfl rfl rfl

/-- **An actor that was registered, or asked to close, was asked to close by this command.** -/
theorem asked_of_close {outcome : CloseOutcome} (h : Ripe s i) : i ∈ (closeExactInState outcome i s).2.asked := by
  unfold closeExactInState
  split
  · rename_i hnone
    refine h.resolve_left fun hactor => ?_
    rw [hnone] at hactor
    cases hactor
  · have hmem : i ∈ i :: s.asked := List.mem_cons_self
    cases outcome <;> exact hmem

/-- **No command takes these back.** -/
theorem perform_grows (chance : Chance) (c : Command) (s : Shared) : Grows s (perform chance s c).2 := by
  cases c with
  | beginOpen d g => exact grows_beginOpen d g s
  | publish r c => exact grows_publishOpen r c s
  | fail r error => exact grows_failOpen r error s
  | beginClose d => exact grows_beginClose d s
  | finishClose c closed => exact grows_finishClose c closed s
  | discard c => exact grows_discardExact c s
  | markOffline i => exact grows_markOffline i s
  | register i => exact grows_registerActor i s
  | close i => exact grows_closeExactInState chance.closed i s
  | newConnection d engine | release i =>
    exact .of_same le_rfl rfl rfl (fun _ _ => id) fun _ _ => .inl
  | _ => exact .refl s

theorem drift_grows (wind : Wind) (s : Shared) : Grows s (drift wind s) := by
  cases wind with
  | document durable | sessions sessions => exact .of_same le_rfl rfl rfl (fun _ _ => id) fun _ _ => .inl
  | remoteCloses i =>
    rw [drift]
    split
    · exact .refl s
    · rename_i actor ha
      exact grows_actor ha (fun k hk => (get_insert _ _ _ _).trans (if_neg hk))
        (.inl ⟨_, get_insert_self _ _ _, (exactActor_eq_some.1 ha).2⟩) (fun _ => id) rfl rfl rfl
  | asks outcome i => exact grows_closeExactInState outcome i s

@[simp] theorem drift_entries (wind : Wind) (s : Shared) : (drift wind s).entries = s.entries := by
  cases wind with
  | document durable | sessions sessions => rfl
  | remoteCloses i =>
    rw [drift]
    split <;> rfl
  | asks outcome i => exact closeExactInState_entries outcome i s

end Runtime
end Yuzora
