import Yuzora.RuntimeRuns
/-!
# RuntimeDuties — who settles an entry

As long as nothing comes between a check and what relies on it, an opening entry has an opener that will settle it, a
closing entry a close that will finish it, and a registered actor an entry that names it, unless it was asked to close.
-/
namespace Yuzora
namespace Runtime

open Profiles (LifecycleCloseErrorKind ProfileDescriptor ProfileError)
open Pool (history Owed)

/-- The entry does not hold an opener's reservation, nor a live connection other than this one. -/
def stands (c : LiveConnection) : Option ProfileRuntimeEntry → Bool
  | some (.opening _) => false
  | some (.live current) => current = c
  | some (.closing _) | none => true

/-- **Nothing came between a check and the step that relies on it**: a disconnect closes the connection that it looked
at, and an opener discards a connection whose actor is not registered, or was asked to close. -/
structure Undisturbed (past : List Event) (x : Event) : Prop where
  disconnect : ∀ id i d answer c, x.label = .own id (.disconnect i) ⟨.beginClose d, answer⟩ →
    ⟨.get d, (some c : Option LiveConnection)⟩ ∈ history id past → stands c (x.src.shared.entries.get d) = true
  discard : ∀ id call c answer, x.label = .own id call ⟨.discard c, answer⟩ →
    exactActor x.src.shared c.identity = none ∨ c.identity ∈ x.src.shared.asked

def AllUndisturbed (l : List Event) : Prop := ∀ past x later, l = past ++ x :: later → Undisturbed past x

def Call.settles : Call → Prop
  | .openSaved _ | .disconnect _ | .cancelAndClose _ => True
  | .terminatingRun _ => False

def Named (s : Shared) (i : ConnectionIdentity) : Prop := ∃ d c, held (s.entries.get d) = some c ∧ c.identity = i

/-- **Every entry that waits has somebody who settles it, every actor an entry.** -/
structure Duties (l : List Event) (t : Moment) : Prop where
  opening : ∀ d r, t.shared.entries.get d = some (.opening r) → Owed Call.settles (Command.answers r) t
  closing : ∀ d c, t.shared.entries.get d = some (.closing c) → Owed Call.settles (Command.finishes c) t
  registered : ∀ id i, ⟨.register i, (.ok () : Except OperationalErrorCode Unit)⟩ ∈ history id l →
    Named t.shared i ∨ i ∈ t.shared.asked ∨ ∃ call rest, t.threads id = some ⟨call, rest⟩ ∧ rest.Goes

/-! ## Steps -/

variable {s : Shared} {chance : Chance} {l : List Event} {r : OpeningReservation} {u v : Moment}

theorem answers_gone (chance : Chance) {c : Command} (ha : Command.answers r c)
    (hr : s.entries.get r.descriptorId = some (.opening r)) :
    (perform chance s c).2.entries.get r.descriptorId ≠ some (.opening r) := by
  cases c with
  | publish r' c' =>
    obtain rfl : r' = r := ha
    change (publishOpen r' c' s).2.entries.get r'.descriptorId ≠ _
    unfold publishOpen
    rw [hr]
    dsimp only
    rw [if_pos ⟨rfl, rfl⟩, finish_entries, Table.get_insert_self]
    intro h
    cases h
  | fail r' error =>
    obtain rfl : r' = r := ha
    change (failOpen r' error s).entries.get r'.descriptorId ≠ _
    unfold failOpen
    rw [hr]
    dsimp only
    rw [if_pos rfl, finish_entries, Table.get_erase_self]
    intro h
    cases h
  | _ => exact absurd ha id

theorem finishes_gone (chance : Chance) {c' : LiveConnection} {c : Command} (ha : Command.finishes c' c)
    (hc : s.entries.get c'.descriptorId = some (.closing c')) :
    (perform chance s c).2.entries.get c'.descriptorId ≠ some (.closing c') := by
  cases c with
  | finishClose c closed =>
    obtain rfl : c = c' := ha
    change (finishClose c closed s).2.entries.get c.descriptorId ≠ _
    unfold finishClose
    rw [if_pos hc]
    cases closed with
    | true =>
      rw [if_pos rfl, Table.get_erase_self]
      intro h
      cases h
    | false =>
      rw [if_neg Bool.false_ne_true, Table.get_insert_self]
      intro h
      cases h
  | _ => exact absurd ha id

theorem publishOpen_named {c : LiveConnection} (h : (publishOpen r c s).1 = true) :
    Named (publishOpen r c s).2 c.identity := by
  unfold publishOpen at h ⊢
  split at h
  · split at h
    · rename_i hc
      rw [if_pos hc]
      refine ⟨r.descriptorId, c, ?_, rfl⟩
      rw [finish_entries, Table.get_insert_self]
      rfl
    · cases h
  · cases h

/-! ## One thread's command -/

/-- A thread's command in a run, with all that is known of it. -/
structure Own (l : List Event) (u : Moment) (id : Nat) (call : Call) (a : Asked Command Reply) (v : Moment)
    (chance : Chance) (next : Reply a.command → M Answer) : Prop where
  step : runtime.Step u (.own id call a) v
  exec : perform chance u.shared a.command = (a.reply, v.shared)
  after : v.threads id = some ⟨call, next a.reply⟩
  conduct : Conduct call (history id l) a.command next
  steady : Steady l u

theorem exists_own {s : Shared} {id : Nat} {call : Call} {a : Asked Command Reply}
    (hs : Kept s) (hrun : runtime.Runs s l u) (hst : runtime.Step u (.own id call a) v) :
    ∃ chance next, Own l u id call a v chance next := by
  obtain ⟨chance, next, hu, hexec, hv⟩ := hst.own_inv
  exact ⟨chance, next, hst, hexec, hv, runs_conduct hrun hu, runs_steady hs hrun⟩

section Own

variable {id : Nat} {call : Call} {a : Asked Command Reply} {next : Reply a.command → M Answer}

section
variable (h : Own l u id call a v chance next) {i : ConnectionIdentity} {p : Command → Prop}
include h

theorem Own.turns (d : String) : Turns u.shared.nextTicket d a (u.shared.entries.get d) (v.shared.entries.get d) := by
  have := perform_turns chance a.command u.shared d
  rwa [h.exec] at this

theorem Own.grows : Grows u.shared v.shared := by
  have := perform_grows chance a.command u.shared
  rwa [h.exec] at this

theorem Own.attests : Attests v.shared a := by
  have := perform_attests chance h.steady.kept h.conduct (h.steady.attests id)
  rwa [h.exec] at this

theorem Own.owed (ho : Owed Call.settles p u) (hp : ¬ p a.command) : Owed Call.settles p v := by
  refine h.step.owed ho fun id' call' a' heq => ?_
  cases heq
  exact hp

theorem Own.owes (hc : call.settles)
    (ho : (next a.reply).Owes p) : Owed Call.settles p v := ⟨id, call, _, h.after, hc, ho⟩

theorem Own.opening
    (ih : ∀ d r, u.shared.entries.get d = some (.opening r) → Owed Call.settles (Command.answers r) u) (d : String)
    (r : OpeningReservation) (hv : v.shared.entries.get d = some (.opening r)) :
    Owed Call.settles (Command.answers r) v := by
  have hturn := h.turns d
  rw [hv] at hturn
  generalize ho : u.shared.entries.get d = old at hturn
  cases hturn with
  | still =>
    refine h.owed (ih d r ho) fun hanswers => ?_
    have hd := ((h.steady.kept d _ ho).opening r rfl).1
    subst hd
    have hgone := answers_gone chance hanswers ho
    rw [h.exec] at hgone
    exact hgone hv
  | reserved g _ _ =>
    cases h.conduct with
    | quiet _ _ hq _ => cases hq
    | beginOpen _ _ _ hcall _ hnext =>
      subst hcall
      exact h.owes trivial (hnext _)

theorem Own.closing (hx : Undisturbed l ⟨u, .own id call a, v⟩)
    (ih : ∀ d c, u.shared.entries.get d = some (.closing c) → Owed Call.settles (Command.finishes c) u) (d : String)
    (c : LiveConnection) (hv : v.shared.entries.get d = some (.closing c)) :
    Owed Call.settles (Command.finishes c) v := by
  have hturn := h.turns d
  rw [hv] at hturn
  generalize ho : u.shared.entries.get d = old at hturn
  cases hturn with
  | still =>
    refine h.owed (ih d c ho) fun hfinishes => ?_
    have hd := ((h.steady.kept d _ ho).held c rfl).1
    subst hd
    have hgone := finishes_gone chance hfinishes ho
    rw [h.exec] at hgone
    exact hgone hv
  | closes _ =>
    cases h.conduct with
    | quiet _ _ hq _ => cases hq
    | disconnects i c' _ hcall hcheck _ hnext =>
      subst hcall
      have hstands := hx.disconnect id i _ _ c' rfl hcheck.got
      rw [ho] at hstands
      obtain rfl : c = c' := of_decide_eq_true hstands
      exact h.owes trivial (hnext _)
    | lifecycle _ _ hcall _ hnext =>
      subst hcall
      exact h.owes trivial (hnext c)

theorem Own.named (hx : Undisturbed l ⟨u, .own id call a, v⟩)
    (hn : Named u.shared i) : Named v.shared i ∨ i ∈ v.shared.asked := by
  obtain ⟨d, c, hheld, rfl⟩ := hn
  have hturn := h.turns d
  have hknown := fun {j r} (hj : (⟨.close j, r⟩ : Asked Command Reply) ∈ history id l) =>
    h.grows.asked j ((h.steady.attests id _ hj).closed j r rfl)
  have hcheck := fun {j c} (hj : Checked (history id l) j c) => (hj.identity_eq (h.steady.attests id)).1
  generalize ho : u.shared.entries.get d = old at hturn hheld
  generalize hw : v.shared.entries.get d = new at hturn
  cases hturn with
  | still => exact .inl ⟨d, c, by rw [hw, hheld], rfl⟩
  | reserved g _ hnone =>
    rw [hnone] at hheld
    cases hheld
  | exhausted | published | failed | invalidated => cases hheld
  | closes | restored =>
    cases hheld
    exact .inl ⟨d, _, by rw [hw]; rfl, rfl⟩
  | closed =>
    obtain rfl := Option.some.inj hheld
    cases h.conduct with
    | quiet _ _ hq _ => cases hq
    | disconnected i c' _ _ hcall hchk _ hclose =>
      obtain ⟨r, hr⟩ := hclose
      rw [hcheck hchk]
      exact .inr (hknown hr)
    | finished _ _ _ _ _ _ hclose =>
      obtain ⟨r, hr⟩ := hclose
      exact .inr (hknown hr)
  | discarded c' _ hd hc' =>
    rw [hc'] at hheld
    obtain rfl := Option.some.inj hheld
    refine .inr (h.grows.asked _ ?_)
    rcases hx.discard id call _ _ rfl with hnone | hasked
    · obtain ⟨e, he, hheld'⟩ : ∃ e, old = some e ∧ held (some e) = some c' := by
        cases old with
        | none => cases hc'
        | some e => exact ⟨e, rfl, hc'⟩
      refine ((h.steady.kept d e (ho.trans he)).held c' hheld').2.resolve_left fun hactor => ?_
      rw [hnone] at hactor
      cases hactor
    · exact hasked
  | offline i c' _ hd hi hc' =>
    rw [hc'] at hheld
    cases hheld
    cases h.conduct with
    | quiet _ _ hq _ => cases hq
    | markOffline _ _ _ _ hclose =>
      obtain ⟨r, hr⟩ := hclose
      rw [hi]
      exact .inr (hknown hr)

theorem Own.settled (hi : ⟨.register i, (.ok () : Except OperationalErrorCode Unit)⟩ ∈ history id l) :
    Named v.shared i ∨ i ∈ v.shared.asked ∨ (next a.reply).Goes := by
  have hno : ¬ Unregistered (history id l) := fun hn => by cases hn _ hi
  obtain ⟨c, reply⟩ := a
  cases h.conduct with
  | publish r c' _ _ _ _ _ _ _ _ _ _ hown hgoes =>
    obtain rfl : i = c'.identity := hown _ hi i rfl
    cases reply with
    | true =>
      have hnamed := publishOpen_named (congrArg Prod.fst h.exec)
      rw [show (publishOpen r c' u.shared).2 = v.shared from congrArg Prod.snd h.exec] at hnamed
      exact .inl hnamed
    | false => exact .inr (.inr hgoes)
  | close j _ _ hown =>
    obtain rfl := hown _ hi i rfl
    exact .inr (.inl (h.attests.closed i reply rfl))
  | quiet _ _ _ hn | register _ _ hn | fail _ _ _ _ hn | release _ _ _ hn | beginOpen _ _ _ _ hn
  | lifecycle _ _ _ hn | markOffline _ _ _ hn | disconnects _ _ _ _ _ hn | disconnected _ _ _ _ _ _ hn
  | finished _ _ _ _ _ hn | discard _ _ _ _ _ _ hn => exact absurd hn hno

theorem Own.registered (hx : Undisturbed l ⟨u, .own id call a, v⟩)
    (ih : Duties l u) (id' : Nat) (i : ConnectionIdentity)
    (hi : ⟨.register i, (.ok () : Except OperationalErrorCode Unit)⟩ ∈ history id' (l ++ [⟨u, .own id call a, v⟩])) :
    Named v.shared i ∨ i ∈ v.shared.asked ∨ ∃ call rest, v.threads id' = some ⟨call, rest⟩ ∧ rest.Goes := by
  rw [Pool.history_snoc, List.mem_append] at hi
  rcases hi with hi | hi
  · rcases ih.registered id' i hi with hnamed | hasked | ⟨call', rest, hrest, hgoes⟩
    · exact (h.named hx hnamed).imp_right .inl
    · exact .inr (.inl (h.grows.asked i hasked))
    · by_cases hid : id' = id
      · subst hid
        exact (h.settled hi).imp_right (Or.imp_right fun hg => ⟨call, _, h.after, hg⟩)
      · refine .inr (.inr ⟨call', rest, ?_, hgoes⟩)
        cases h.step with
        | own chance _ _ _ _ _ => exact (Function.update_of_ne hid _ _).trans hrest
  · obtain ⟨call', hown⟩ := Move.asked?_eq_some.1 (Option.mem_toList.1 hi)
    cases hown
    refine .inr (.inr ⟨call, _, h.after, ?_⟩)
    cases h.conduct with
    | quiet _ _ hq _ => cases hq
    | register _ _ _ hgoes => exact hgoes

end

end Own

/-! ## Runs -/

theorem Duties.still {m : Move Command Reply Call} (h : Duties l u)
    (hst : runtime.Step u m v) (hm : ∀ id call a, m ≠ .own id call a) (hg : Grows u.shared v.shared)
    (he : v.shared.entries = u.shared.entries) : Duties (l ++ [⟨u, m, v⟩]) v := by
  have howed : ∀ {p}, Owed Call.settles p u → Owed Call.settles p v := fun ho =>
    hst.owed ho fun id call a heq => absurd heq (hm id call a)
  refine ⟨fun d r hr => howed (h.opening d r (he ▸ hr)), fun d c hc => howed (h.closing d c (he ▸ hc)),
    fun id i hi => ?_⟩
  have hnone : m.asked? id = none := by
    refine Option.eq_none_iff_forall_not_mem.2 fun a ha => ?_
    obtain ⟨call, heq⟩ := Move.asked?_eq_some.1 ha
    exact hm id call a heq
  rw [Pool.history_snoc, hnone, Option.toList_none, List.append_nil] at hi
  rcases h.registered id i hi with ⟨d, c, hc, hid⟩ | hasked | ⟨call, rest, hrest, hgoes⟩
  · exact .inl ⟨d, c, by rw [he, hc], hid⟩
  · exact .inr (.inl (hg.asked i hasked))
  · refine .inr (.inr ⟨call, rest, ?_, hgoes⟩)
    cases hst with
    | start id' job hn =>
      refine (Function.update_of_ne ?_ _ _).trans hrest
      rintro rfl
      rw [hn] at hrest
      cases hrest
    | own chance id' job c next hn => exact absurd rfl (hm id' job _)
    | drift wind => exact hrest

/-- **Every duty is somebody's, in every run that is not disturbed.** -/
theorem runs_duties {s : Shared} {t : Moment} (hs : ∀ d, s.entries.get d = none)
    (h : runtime.Runs s l t) (hl : AllUndisturbed l) : Duties l t := by
  have hkept : Kept s := fun d e he => by
    rw [hs d] at he
    cases he
  refine Trace.history (P := fun l t => AllUndisturbed l → Duties l t) ?_ (fun l u m v hrun ih hst hl => ?_) h hl
  · rintro _ rfl -
    refine ⟨fun d r hr => ?_, fun d c hc => ?_, fun id i hi => ?_⟩
    · rw [hs d] at hr
      cases hr
    · rw [hs d] at hc
      cases hc
    · cases hi
  have hd := ih fun past x later hp => hl past x (later ++ [⟨u, m, v⟩]) (by rw [hp]; simp)
  have hx := hl l ⟨u, m, v⟩ [] rfl
  cases hst with
  | start id job hn => exact hd.still (.start id job hn) (fun _ _ _ h => by cases h) (.refl _) rfl
  | drift wind =>
    exact hd.still (.drift wind) (fun _ _ _ h => by cases h) (drift_grows wind _) (drift_entries wind _)
  | own chance id job c next hn =>
    obtain ⟨chance', next', hown⟩ := exists_own hkept hrun (.own chance id job c next hn)
    exact ⟨hown.opening hd.opening, hown.closing hx hd.closing, hown.registered hx hd⟩

end Runtime
end Yuzora
