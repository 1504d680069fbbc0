import Yuzora.CompanionAnswers
/-!
# CompanionRuns — what the supervisor keeps to

A process that was ended is not heard again, as long as no stop comes upon one that is marked failed already, and
nobody ends a process between the check of one of its lines and the end of that line.
-/
namespace Yuzora
namespace Companion

open Pool (history Owed)

/-! ## The end of a process -/

def Control.failed (c : Control) : Bool := c.terminal.any Status.isFailed

/-- The step marks the recorded process of this generation failed. -/
structure Halts (g : Nat) (x : Event) : Prop where
  generation : x.src.shared.control.generation = g
  recorded : x.src.shared.control.recorded = true
  before : x.src.shared.control.failed = false
  after : x.dst.shared.control.failed = true

def Exits (g : Nat) (x : Event) : Prop :=
  x.src.shared.control.generation = g ∧ ∃ id call r, x.label = .own id call ⟨.handleExit g, r⟩

def Ended (g : Nat) (past : List Event) : Prop := ∃ x ∈ past, Halts g x ∨ Exits g x

/-- In this state the command halts the process that is recorded, or handles its exit. -/
def interrupts (s : Shared) : Command → Bool
  | .halt _ => true
  | .ready event =>
    s.inner.process.isSome && s.inner.terminal.isNone &&
      s.inner.port.any fun expected => expected ≠ (((event.get "ports").get "loopback").asU64).getD 0
  | .watchdogFires g => !(s.inner.generation ≠ g || s.inner.ready || s.inner.terminal.isSome)
  | .failLive _ => !(s.inner.process.isNone || !(s.inner.status = .starting || s.inner.status.isRunning))
  | .timeOut g => s.inner.generation = g
  | .handleExit g => s.inner.generation = g
  | _ => false

/-- **The step finds things in order**: a stop does not come upon a process that is marked failed, and while a line of
the process is handled no other thread halts it or handles its exit. -/
structure Undisturbed (past : List Event) (x : Event) : Prop where
  stops : ∀ id call r, x.label = .own id call ⟨.beginStop, r⟩ → x.src.shared.inner.process.isSome = true →
    x.src.shared.control.failed = false
  lines : ∀ id, Acting (history id past) x.src.shared.inner.generation → ∀ id' call a, x.label = .own id' call a →
    id' ≠ id → interrupts x.src.shared a.command = false

def AllUndisturbed (l : List Event) : Prop := ∀ past x later, l = past ++ x :: later → Undisturbed past x

/-! ## Single commands -/

section Steps

variable (s : Shared) {c : Command}

theorem watchdogFires_still {g : Nat} (h : interrupts s (.watchdogFires g) = false) : (watchdogFires g s).2 = s := by
  unfold watchdogFires
  rw [if_pos]
  simp only [interrupts, Bool.not_eq_eq_eq_not, Bool.not_false, Bool.or_eq_true, decide_eq_true_eq] at h
  exact or_assoc.1 h

theorem failLive_still {code : String} (h : interrupts s (.failLive code) = false) : (failLive code s).2 = s := by
  unfold failLive
  rw [if_pos]
  simpa only [interrupts, Bool.not_eq_eq_eq_not, Bool.not_false] using h

theorem timeOut_still {g : Nat} (h : interrupts s (.timeOut g) = false) : (timeOut g s).2.control = s.control := by
  have hc := dropPending_control s
  have hg : (dropPending s).inner.generation = s.inner.generation := congrArg Control.generation hc
  unfold timeOut
  dsimp only
  rw [hg, if_neg (of_decide_eq_false h)]
  exact hc

theorem becomeReady_terminal {event : Json} (h : interrupts s (.ready event) = false) :
    (becomeReady event s).2.control.terminal = s.control.terminal := by
  unfold becomeReady
  split
  · rename_i hc
    rw [interrupts, hc, Bool.true_and] at h
    dsimp only
    rw [h, if_neg Bool.false_ne_true]
    rfl
  · rfl

theorem Moves.failed {a : Asked Command Reply} {c d : Control} (h : Moves a c d) (ha : a.command.halts = false)
    (hc : c.failed = false) : d.failed = false := by
  cases h with
  | halted _ _ _ hh =>
    rw [ha] at hh
    cases hh
  | still | decided | startFailed | readied | absent | cleared => exact hc
  | recorded | stopped | exited => rfl

/-- **A process is marked failed only where it is interrupted.** -/
theorem interrupts_of_failed {outside : Outside} {chance : Chance} (hb : s.control.failed = false)
    (ha : (perform outside chance s c).2.control.failed = true) : interrupts s c = true := by
  have of_terminal : (perform outside chance s c).2.control.terminal ≠ s.control.terminal := fun he => by
    rw [Control.failed, he] at ha
    rw [Control.failed, ha] at hb
    cases hb
  by_cases hi : interrupts s c = true
  · exact hi
  rw [Bool.not_eq_true] at hi
  by_cases hh : c.halts = true
  · refine absurd ?_ of_terminal
    cases c with
    | watchdogFires g => exact congrArg (fun s : Shared => s.control.terminal) (watchdogFires_still s hi)
    | failLive code => exact congrArg (fun s : Shared => s.control.terminal) (failLive_still s hi)
    | timeOut g => exact congrArg Control.terminal (timeOut_still s hi)
    | ready event => exact becomeReady_terminal s hi
    | halt code => cases hi
    | _ => cases hh
  · rw [Bool.not_eq_true] at hh
    rw [(perform_moves s outside chance c).failed hh hb] at ha
    cases ha

theorem plain_interrupts (h : c.plain = true) : interrupts s c = false := by
  cases c <;> first | rfl | cases h

theorem acts_interrupts (h : c.acts = true) (hgoes : c.ends = false) : interrupts s c = false := by
  cases c <;> first | rfl | exact absurd h Bool.false_ne_true | exact absurd hgoes.symm Bool.false_ne_true

end Steps

/-! ## A step of a run -/

variable {u v : Moment} {m : Move Command Reply Call} {outside : Outside}

theorem control_still (hst : (supervisor outside).Step u m v) (hm : ∀ id call a, m ≠ .own id call a) :
    v.shared.control = u.shared.control := by
  rcases hst.shared_cases with ⟨id, call, a, _, rfl, _⟩ | ⟨-, hv | ⟨wind, hv⟩⟩
  · exact absurd rfl (hm id call a)
  · rw [hv]
  · rw [hv]
    cases wind <;> rfl

theorem step_control (hst : (supervisor outside).Step u m v) : v.shared.control = u.shared.control ∨
      ∃ id call a, m = .own id call a ∧ Moves a u.shared.control v.shared.control := by
  rcases hst.shared_cases with ⟨id, call, a, chance, rfl, hexec⟩ | ⟨hm, -⟩
  · refine .inr ⟨id, call, a, rfl, ?_⟩
    have := perform_moves u.shared outside chance a.command
    rw [show perform outside chance u.shared a.command = _ from hexec] at this
    exact this
  · exact .inl (control_still hst hm)

variable {l : List Event} {t : Moment} {id : Nat} {call : Call} {g : Nat} {s : Shared} {a : Asked Command Reply}

theorem runs_conduct (h : (supervisor outside).Runs s l t) {c : Command} {next : Reply c → M Json}
    (ht : t.threads id = some ⟨call, .call c next⟩) : Conduct call (history id l) c next :=
  (Pool.Runs.throughout h ht (Conduct call) (program_conduct outside call)).1

theorem own_conduct (h : (supervisor outside).Runs s l u) (hst : (supervisor outside).Step u (.own id call a) v) :
    ∃ next, v.threads id = some ⟨call, next a.reply⟩ ∧ Conduct call (history id l) a.command next := by
  obtain ⟨_, next, hu, -, hv⟩ := hst.own_inv
  exact ⟨next, hv, runs_conduct h hu⟩

theorem acting_line (h : (supervisor outside).Runs s l t) (ha : Acting (history id l) g) {rest : M Json}
    (ht : t.threads id = some ⟨call, rest⟩) : ∃ event, call = .line g event := by
  obtain ⟨x, hx, call', hlab⟩ := Pool.mem_history.1 ha.heard
  obtain ⟨rest', hrest⟩ := (h.follows id).jobs x hx call' _ hlab
  rw [ht] at hrest
  cases hrest
  obtain ⟨past, later, hl⟩ := List.append_of_mem hx
  obtain ⟨hpast, hst⟩ := Trace.split h hl
  rw [hlab] at hst
  obtain ⟨next, -, hc⟩ := own_conduct hpast hst
  cases hc with
  | hears _ event _ hcall => exact ⟨event, hcall⟩
  | plain _ _ hp | acts _ _ _ _ _ hp | called _ _ hp => cases hp

/-! ## What was ended is over -/

/-- The process of this generation is not heard any more. -/
structure Over (g : Nat) (c : Control) : Prop where
  gone : g < c.generation ∨ g = c.generation ∧ c.recorded = true ∧ c.failed = true

theorem Over.step {c d : Control} (h : Over g c) (hm : Moves a c d)
    (hs : ∀ r, a = ⟨.beginStop, r⟩ → c.recorded = true → c.failed = false) : Over g d := by
  obtain hlt | ⟨rfl, hr, hf⟩ := h.gone
  · refine ⟨.inl ?_⟩
    cases hm with
    | still | decided | startFailed | halted | readied | stopped | cleared => exact hlt
    | recorded | absent | exited => exact Nat.lt_succ_of_lt hlt
  · cases hm with
    | still => exact h
    | startFailed => exact ⟨.inr ⟨rfl, hr, hf⟩⟩
    | decided _ hn | cleared _ hn =>
      rw [hr] at hn
      cases hn
    | recorded | absent | exited => exact ⟨.inl (Nat.lt_succ_self _)⟩
    | halted => exact ⟨.inr ⟨rfl, hr, rfl⟩⟩
    | readied _ _ _ _ hn =>
      rw [Control.failed, hn] at hf
      cases hf
    | stopped _ _ =>
      rw [hs _ rfl hr] at hf
      cases hf

theorem not_over_of_heard (h : heard g s = true) : ¬ Over g s.control := by
  rw [heard, Bool.not_eq_true', Bool.or_eq_false_iff, decide_eq_false_iff_not, not_not] at h
  rintro ⟨hlt | ⟨-, -, hf⟩⟩
  · exact absurd h.1 hlt.ne'
  · rw [show s.control.failed = s.inner.terminal.any Status.isFailed from rfl, h.2] at hf
    cases hf

theorem Ended.of_snoc {x : Event} (h : Ended g (l ++ [x])) : Ended g l ∨ Halts g x ∨ Exits g x := by
  obtain ⟨y, hy, he⟩ := h
  rcases List.mem_append.1 hy with hy | hy
  · exact .inl ⟨y, hy, he⟩
  · rw [List.mem_singleton.1 hy] at he
    exact .inr he

theorem interrupts_of_ends (hst : (supervisor outside).Step u m v) (h : Halts g ⟨u, m, v⟩ ∨ Exits g ⟨u, m, v⟩) :
    g = u.shared.inner.generation ∧
      ∃ id call a, m = .own id call a ∧ interrupts u.shared a.command = true := by
  rcases h with h | ⟨hg, id, call, r, hm⟩
  · refine ⟨h.generation.symm, ?_⟩
    rcases hst.shared_cases with ⟨id, call, a, chance, rfl, hexec⟩ | ⟨hm, -⟩
    · have hv : (perform outside chance u.shared a.command).2 = v.shared := congrArg Prod.snd hexec
      exact ⟨id, call, a, rfl, interrupts_of_failed u.shared h.before (hv ▸ h.after)⟩
    · have hb := h.before
      rw [← control_still hst hm, h.after] at hb
      cases hb
  · refine ⟨hg.symm, id, call, _, hm, ?_⟩
    exact decide_eq_true hg

theorem over_of_ends
    (hst : (supervisor outside).Step u m v) (h : Halts g ⟨u, m, v⟩ ∨ Exits g ⟨u, m, v⟩) : Over g v.shared.control := by
  rcases h with h | ⟨hg, id, call, r, rfl⟩
  · rcases step_control hst with hv | ⟨id, call, a, rfl, hmoves⟩
    · have hb := h.before
      rw [← hv, h.after] at hb
      cases hb
    · have hg := h.generation
      have hr := h.recorded
      have hb := h.before
      have ha := h.after
      subst hg
      generalize v.shared.control = d at hmoves ha
      cases hmoves with
      | halted => exact ⟨.inr ⟨rfl, hr, rfl⟩⟩
      | still | decided | startFailed | readied | absent | cleared => exact absurd (hb.symm.trans ha) Bool.false_ne_true
      | recorded | stopped | exited => cases ha
  · obtain ⟨chance, next, -, hexec, -⟩ := hst.own_inv
    have hv : (handleExit g u.shared).2 = v.shared := congrArg Prod.snd hexec
    rw [← hv, handleExit_control u.shared hg]
    exact ⟨.inl (Nat.lt_succ_self g)⟩

/-- **Who was ended is over**, where no stop comes upon a process that is marked failed. -/
theorem runs_over (h : Runs outside l t) (hl : AllUndisturbed l)
    (g : Nat) (he : Ended g l) : Over g t.shared.control := by
  obtain ⟨disk, push, hrun⟩ := h.run
  refine Trace.history (P := fun l t => AllUndisturbed l → Ended g l → Over g t.shared.control) ?_
    (fun l u m v hrun ih hst hl he => ?_) hrun hl he
  · rintro _ rfl - ⟨x, hx, -⟩
    cases hx
  · rcases he.of_snoc with he | he
    · have hover := ih (fun past x later hp => hl past x (later ++ [⟨u, m, v⟩]) (by rw [hp]; simp)) he
      rcases step_control hst with hv | ⟨id, call, a, rfl, hmoves⟩
      · rw [hv]
        exact hover
      · refine hover.step hmoves fun r ha hr => ?_
        subst ha
        exact (hl l _ [] rfl).stops id call r rfl hr
    · exact over_of_ends hst he

/-- **Who acts was not ended**, in a run that is not disturbed. -/
theorem runs_acting (h : Runs outside l t) (hl : AllUndisturbed l) (ha : Acting (history id l) g) : ¬ Ended g l := by
  obtain ⟨disk, push, hrun⟩ := h.run
  have hunblocked := h.unblocked
  refine Trace.history (P := fun l t => (∀ x ∈ l, ∀ id call a, x.label = .own id call a →
    ready x.src.shared a.command = true) → AllUndisturbed l → Acting (history id l) g → ¬ Ended g l) ?_
    (fun l u m v hrun ih hst hunblocked hl ha he => ?_) hrun hunblocked hl ha
  · rintro _ rfl - - ha
    exact absurd ha.heard List.not_mem_nil
  · have hbefore : AllUndisturbed l := fun past x later hp => hl past x (later ++ [⟨u, m, v⟩]) (by rw [hp]; simp)
    have hub : ∀ x ∈ l, ∀ id call a, x.label = .own id call a → ready x.src.shared a.command = true :=
      fun x hx => hunblocked x (List.mem_append_left _ hx)
    have hends := fun h => interrupts_of_ends (g := g) hst h
    rw [Pool.history_snoc] at ha
    cases hm : m.asked? id with
    | none =>
      rw [hm, Option.toList_none, List.append_nil] at ha
      refine he.of_snoc.elim (ih hub hbefore ha) fun he => ?_
      obtain ⟨rfl, id', call, a, rfl, hi⟩ := hends he
      have hne : id' ≠ id := by
        rintro rfl
        rw [Move.asked?, if_pos rfl] at hm
        cases hm
      have hcalm := (hl l _ [] rfl).lines id ha id' call a rfl hne
      rw [hi] at hcalm
      cases hcalm
    | some a =>
      obtain ⟨call, rfl⟩ := Move.asked?_eq_some.1 hm
      rw [hm, Option.toList_some] at ha
      rcases ha.of_snoc with ⟨ha, hgoes⟩ | rfl
      · refine he.of_snoc.elim (ih hub hbefore ha) fun he => ?_
        obtain ⟨rfl, id', call', a', heq, hi⟩ := hends he
        cases heq
        obtain ⟨chance, next, hu, -, -⟩ := hst.own_inv
        obtain ⟨event, rfl⟩ := acting_line hrun ha hu
        have hc := runs_conduct hrun hu
        obtain ⟨c, r⟩ := a
        cases hc with
        | plain _ _ hp => exact absurd hi (Bool.eq_false_iff.1 (plain_interrupts u.shared hp))
        | acts _ _ _ _ _ hp => exact absurd hi (Bool.eq_false_iff.1 (acts_interrupts u.shared hp hgoes))
        | called _ _ _ hline => exact hline _ _ rfl
        | records | hears | turns | kills => cases hi
        | decides _ _ hcall | shuts _ _ hcall | exits _ _ hcall => cases hcall
      · obtain ⟨chance, next, -, hexec, -⟩ := hst.own_inv
        have hheard : heard g u.shared = true := congrArg Prod.fst hexec
        refine he.of_snoc.elim (fun he => ?_) fun he => ?_
        · exact not_over_of_heard hheard (runs_over ⟨⟨disk, push, hrun⟩, hub⟩ hbefore g he)
        · obtain ⟨-, id', call', a', heq, hi⟩ := hends he
          cases heq
          cases hi

end Companion
end Yuzora
