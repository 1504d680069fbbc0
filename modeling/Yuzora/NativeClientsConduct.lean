import Yuzora.NativeClientsSound
/-!
# NativeClientsConduct — how HERDR clients are released

Signals go to the manager's own children, no client is left behind, and a closing event is delivered at most once.  It can
be delivered after a release began: the guard looks at `released` before the delivery, and a release that comes in between
is not seen (`closed_late`).
-/
namespace Yuzora
namespace NativeClients

variable {decode : String → Option Nat} {s t : State} {action : Action} {th k : Thread} {c : Nat}

/-- **No release sets `released` while the reader is between its look at it and the delivery of the closing event.** -/
def Clear (x : Transition State Action) : Prop :=
  ∀ th choice c, x.label = .step th choice → (x.src.doing th).begins c →
    x.src.threads.get (.reader c) ≠ some (.delivering c)

/-- The client that a release is about to set `released` of. -/
def Task.begunFor : Task → Option Nat
  | .begun c _ => some c
  | .targets (c :: _) true _ => some c
  | _ => none

def Task.deliveringFor : Task → Option Nat
  | .delivering c => some c
  | _ => none

theorem Task.begins_iff {task : Task} {c : Nat} : task.begins c ↔ task.begunFor = some c := by
  cases task with
  | targets todo half made => cases todo <;> cases half <;> simp [Task.begunFor]
  | _ => simp [Task.begunFor]

theorem Task.deliveringFor_eq {task : Task} {c : Nat} : task.deliveringFor = some c ↔ task = .delivering c := by
  cases task <;> simp [Task.deliveringFor]

def isClear (x : Transition State Action) : Bool :=
  match x.label with
  | .step th _ => (x.src.doing th).begunFor.all fun c => (x.src.threads.get (.reader c)).bind Task.deliveringFor != some c
  | _ => true

theorem isClear_iff {x : Transition State Action} : isClear x = true ↔ Clear x := by
  have hdelivering : ∀ c, (x.src.threads.get (.reader c)).bind Task.deliveringFor = some c ↔
      x.src.threads.get (.reader c) = some (.delivering c) := by
    intro c
    simp [Option.bind_eq_some_iff, Task.deliveringFor_eq]
  unfold isClear Clear
  split
  · rename_i th choice hlabel
    simp only [Option.all_eq_true, bne_iff_ne, ne_eq, hdelivering]
    constructor
    · intro h k choice' c hk hbegins
      obtain ⟨rfl, -⟩ := Action.step.inj (hlabel.symm.trans hk)
      exact h c (Task.begins_iff.1 hbegins)
    · intro h c hc
      exact h th choice c hlabel (Task.begins_iff.2 hc)
  · rename_i hnot
    exact iff_of_true rfl fun th choice c hlabel => absurd hlabel (hnot th choice)

instance : DecidablePred Clear := fun _ => decidable_of_iff _ isClear_iff

/-- **What is true of every run**, after its last step and of each step. -/
structure Conduct (l : List (Transition State Action)) (s : State) : Prop where
  /-- A signal goes to a pid that this client's own child has, which was not reaped. -/
  signals : ∀ c pid target, .signal c pid target ∈ s.log →
    ∃ client running, s.clients.get c = some client ∧ pid = client.pid ∧ target = some ⟨some c, running⟩
  few : s.nativeClients.length ≤ MAX_NATIVE_CLIENTS
  /-- Who left the map was signalled or had exited, unless somebody is about to look. -/
  attended : ∀ c, .left c ∈ s.log → Attended s c ∨ ∃ th, (s.doing th).owes c
  /-- It is reaped, or its wait ran out, unless somebody is at work on it. -/
  reaped : ∀ c, .left c ∈ s.log → Reaped s c ∨ Expired s c ∨ ∃ th, (s.doing th).works c
  once : ∀ c, s.log.count (.closed c) ≤ 1
  /-- A reader that returned delivered what the guard let pass. -/
  delivered : ∀ c, s.threads.get (.reader c) = some (.returned none) → s.log.count (.closed c) = s.log.count (.passed c)
  /-- It delivered nothing only where a release of its client began. -/
  yields : ∀ c, s.threads.get (.reader c) = some (.returned none) → s.log.count (.closed c) = 0 → Begun s c
  /-- The guard lets pass exactly what comes before a release. -/
  guards : ∀ x ∈ l, ∀ c choice, x.label = .step (.reader c) choice → x.src.doing (.reader c) = .checking c →
    (x.dst.log = x.src.log ++ [Event.passed c] ∧ ¬Released x.src c) ∨ (x.dst.log = x.src.log ∧ Released x.src c)
  /-- Nothing is delivered after a release began. -/
  silent : ∀ x ∈ l, ∀ c, .closed c ∉ x.src.log → .closed c ∈ x.dst.log → ¬Released x.src c
  stalled : ∀ c earlier later, s.log = earlier ++ Event.stalled c :: later → .wrote c ∉ later
  /-- A client that left is not released again. -/
  again : ∀ c th stalled, .left c ∈ s.log → s.release th c stalled = s.go th (.returned (State.answer stalled none))

/-! ## Nothing after a release -/

def Unreleased (s : State) : Prop := ∀ c, s.threads.get (.reader c) = some (.delivering c) → ¬Released s c

theorem unreleased_step (hsound : Sound s) (h : Unreleased s) (hstep : Step s action t) (hclear : Clear ⟨s, action, t⟩) :
    Unreleased t := by
  intro c hget hreleased
  cases hstep with
  | aside hguarantee hclients hthreads hnative hnext hlog =>
    exact h c (hthreads ▸ hget) (by simpa [Released, hclients] using hreleased)
  | turn th task' hfrom hturn =>
    rcases hturn.releases c hreleased with hbefore | hbegins
    · -- It was released already: then the guard lets nothing pass.
      by_cases hth : Thread.reader c = th
      · subst hth
        cases hturn.own.symm.trans hget
        obtain ⟨events, -, htold, -⟩ := hturn.logs
        cases htold with
        | passed j hcheck hnext hnot =>
          obtain rfl := Task.delivering.inj hnext
          exact hnot hbefore
        | closed j hdeliver hnext => cases hnext
        | aside hfrom' hto hall => exact absurd rfl (hto c)
      · rcases hturn.others _ hth with hsame | ⟨j, -, -, hlooping⟩
        · exact h c (hsame ▸ hget) hbefore
        · cases hlooping.symm.trans hget
    · -- It is released now, by another thread.
      have hne : Thread.reader c ≠ th := by
        rintro rfl
        rcases hfrom with ⟨task, hbefore, hnot, -⟩ | ⟨n, hn, -⟩
        · rw [State.doing_of_get hbefore] at hbegins
          have hreader := (hsound.base.reader c task hbefore).resolve_right (hnot none)
          cases task <;> simp_all
        · cases hn
      rcases hfrom with ⟨task, hbefore, -, choice, rfl⟩ | ⟨n, rfl, hnone⟩
      · rcases hturn.others _ hne with hsame | ⟨j, -, -, hlooping⟩
        · exact hclear th choice c rfl hbegins (hsame ▸ hget)
        · cases hlooping.symm.trans hget
      · rw [State.doing_of_none hnone] at hbegins
        cases hbegins

theorem closed_of_step (hsound : Sound s) (hstep : Step s action t) (hbefore : .closed c ∉ s.log) (hafter : .closed c ∈ t.log) :
    s.threads.get (.reader c) = some (.delivering c) := by
  cases hstep with
  | aside hguarantee hclients hthreads hnative hnext hlog => exact absurd (hlog ▸ hafter) hbefore
  | turn th task' hfrom hturn =>
    obtain ⟨events, hlog, htold, -⟩ := hturn.logs
    rw [hlog, List.mem_append] at hafter
    have hmem := hafter.resolve_left hbefore
    generalize hdoing : s.doing th = task at htold
    cases htold with
    | passed j => cases List.mem_singleton.1 hmem
    | closed j hdeliver =>
      obtain rfl := Event.closed.inj (List.mem_singleton.1 hmem)
      obtain rfl := hsound.base.own th c (by rw [hdoing, hdeliver]; rfl)
      exact State.get_of_doing (hdoing.trans hdeliver) (by simp)
    | aside hfrom' hto hall => exact absurd (hall _ hmem) (fun hf => hf)

theorem unreleased_run {l : List (Transition State Action)} (hrun : Run decode l s) : (∀ x ∈ l, Clear x) → Unreleased s := by
  refine hrun.history (P := fun l s => (∀ x ∈ l, Clear x) → Unreleased s) ?_ ?_
  · rintro s ⟨processes, rfl, -⟩ - c hget
    cases hget
  · intro l s action t hrun ih hnext hclear
    have hsound := sound_run hrun
    have hstep := step_of_next hsound.base.records hsound.base.knows hnext
    exact unreleased_step hsound (ih fun x hx => hclear x (by simp [hx])) hstep (hclear _ (by simp))

/-! ## The conduct -/

theorem guards_next {choice : Choice} (hdoing : s.doing (.reader c) = .checking c)
    (hnext : next decode s (.step (.reader c) choice) = some t) :
    (t.log = s.log ++ [Event.passed c] ∧ ¬Released s c) ∨ (t.log = s.log ∧ Released s c) := by
  have hget := State.get_of_doing hdoing (by simp)
  simp only [next, hget, State.advance] at hnext
  split at hnext
  · rename_i client hc
    split at hnext
    · rename_i hreleased
      cases hnext
      exact .inr ⟨rfl, client, hc, hreleased⟩
    · rename_i hreleased
      cases hnext
      refine .inl ⟨rfl, ?_⟩
      rintro ⟨other, hother, hr⟩
      cases hc.symm.trans hother
      exact hreleased hr
  · cases hnext

theorem once_of_sound (h : Sound s) (c : Nat) : s.log.count (.closed c) ≤ 1 := by
  cases hget : s.threads.get (.reader c) with
  | none =>
    have := h.heard.early c (by simp [hget])
    omega
  | some task =>
    rcases h.base.reader c task hget with hreader | rfl
    · by_cases hdelivering : task = .delivering c
      · have := h.heard.delivering c (hdelivering ▸ hget)
        omega
      · have := h.heard.early c fun other hother => by
          cases hget.symm.trans hother
          exact ⟨hreader, hdelivering⟩
        omega
    · exact (h.heard.returned c hget).2

/-- **How native clients end, in every run** whose releases stay clear of a delivery. -/
theorem clients_conduct {l : List (Transition State Action)} (hrun : Run decode l s) (hclear : ∀ x ∈ l, Clear x) :
    Conduct l s := by
  have hsound := sound_run hrun
  exact {
    signals := hsound.aimed
    few := hsound.mapped.few
    attended := hsound.left.attended
    reaped := hsound.left.reaped
    once := once_of_sound hsound
    delivered := fun c hget => (hsound.heard.returned c hget).1.symm
    yields := hsound.yields.silent
    guards := fun x hx c choice hlabel hdoing => by
      obtain ⟨past, later, -, -, hnext⟩ := hrun.transition x hx
      rw [hlabel] at hnext
      exact guards_next hdoing hnext
    silent := fun x hx c hbefore hafter => by
      obtain ⟨past, later, hl, hpast, hnext⟩ := hrun.transition x hx
      have hsrc := sound_run hpast
      have hget := closed_of_step hsrc (step_of_next hsrc.base.records hsrc.base.knows hnext) hbefore hafter
      exact unreleased_run hpast (fun y hy => hclear y (by simp [hl, hy])) c hget
    stalled := hsound.quenched.order
    again := fun c th stalled hleft => if_neg (hsound.mapped.out c hleft) }

/-! ### Runs -/

namespace Sample

def noBytes (_ : String) : Option Nat := none

def ended (acts : List Action) : List (Transition State Action) × State :=
  (Trace.play (fun s a => (next noBytes s a).map (Prod.mk a)) acts [] (.new .empty)).getD ([], .new .empty)

theorem run_ended (acts : List Action) {l : List (Transition State Action)} {s : State}
    (h : Trace.play (fun s a => (next noBytes s a).map (Prod.mk a)) acts [] (.new .empty) = some (l, s)) :
    Run noBytes l s :=
  Trace.of_played ⟨.empty, rfl, nofun⟩ h

def opened (th pid : Nat) : List Action :=
  [.open th ⟨80, 24, 8, 16⟩ "too-many-native-herdr-clients", .step (.caller th) (.spawned pid), .step (.caller th) .go,
    .step (.caller th) .go]

/-- Its process exits and its terminal ends: the reader terminates it, up to its removal from the map. -/
def exited (c pid : Nat) : List Action :=
  [.exit pid, .step (.reader c) .go, .step (.reader c) (.fails "eof"), .step (.reader c) .go, .step (.reader c) .go,
    .step (.reader c) .go, .step (.reader c) .go]

/-- One client ends by itself; a release takes it out of the map, and sets `released` when the guard has looked. -/
def late : List Action :=
  opened 0 7 ++ exited 1 7 ++ [Action.release 1 1, .step (.reader 1) .go, .step (.reader 1) .go, .step (.caller 1) .go,
    .step (.caller 1) .go, .step (.reader 1) .go]

/-- One client ends by itself, another is released, and released again. -/
def calm : List Action :=
  opened 0 7 ++ exited 1 7 ++ [Action.step (.reader 1) .go, .step (.reader 1) .go, .step (.reader 1) .go] ++ opened 1 7 ++
    [Action.release 2 2] ++ List.replicate 6 (Action.step (.caller 2) .go) ++ [Action.exit 7] ++
    List.replicate 4 (Action.step (.caller 2) .go) ++ [Action.release 3 2]

theorem run_late : Run noBytes (ended late).1 (ended late).2 := run_ended late rfl

theorem run_calm : Run noBytes (ended calm).1 (ended calm).2 := run_ended calm rfl

end Sample

/-- One client ends by itself, and another is released: each leaves the map, and one closing event is delivered. -/
theorem clients_conduct_calm : (Sample.ended Sample.calm).2.log =
      [.left 1, .passed 1, .closed 1, .left 2, .signal 2 7 (some ⟨some 2, true⟩)] ∧
    Conduct (Sample.ended Sample.calm).1 (Sample.ended Sample.calm).2 :=
  ⟨rfl, clients_conduct Sample.run_calm (by decide)⟩

/-- **A closing event is delivered after a release began**: it came between the guard and the delivery. -/
theorem closed_late : ∃ l s, Run Sample.noBytes l s ∧
    ∃ x ∈ l, .closed 1 ∉ x.src.log ∧ .closed 1 ∈ x.dst.log ∧ Released x.src 1 := by
  have hlast : ∃ x ∈ (Sample.ended Sample.late).1, .closed 1 ∉ x.src.log ∧ .closed 1 ∈ x.dst.log ∧
      (x.src.clients.get 1).any (·.released) = true := by decide
  obtain ⟨x, hx, hbefore, hafter, hreleased⟩ := hlast
  obtain ⟨client, hc, hr⟩ := (Option.any_eq_true ..).1 hreleased
  exact ⟨_, _, Sample.run_late, x, hx, hbefore, hafter, client, hc, hr⟩

end NativeClients
end Yuzora
