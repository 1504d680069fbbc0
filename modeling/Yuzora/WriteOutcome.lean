import Yuzora.WriteJob
/-!
# WriteOutcome — what a write's answer says about the Host

The handshake of a job's start with its cancellation: the job stores `started` and then loads `cancelled`, the
cancellation stores `cancelled` and then loads `started`.  An answer that reads as dropped found `started` unset, so the
job's last check is still to come, and it will find `cancelled` set.
-/
namespace Yuzora
namespace Writes

/-! ## What each place goes with -/

def Instr.plain : Instr → Bool
  | .call errors => errors.all (fun code => code ∉ dropCodes)
  | _ => true

theorem preparation_plain (job : Job) : job.preparation.all Instr.plain = true := by
  unfold Job.preparation Job.check
  generalize job.kind = kind
  cases kind <;> rfl

def Place.Fits (s : JobState) : Place → Prop
  | .queued => s.shared.started = false ∧ s.reply = none ∧ s.answering = false
  | .preparing todo => s.shared.started = false ∧ todo.all Instr.plain = true
  | .discarded => s.shared.started = false
  | .checking _ => s.shared.started = true ∧ s.calls = []
  | .leasing _ => s.shared.started = true
  | .failed code => code = "input-dropped" ∨ code ∉ dropCodes
  | .ended (.error code) => code ∈ dropCodes → s.calls = []
  | .ended (.ok _) => True

def Place.Quiet (job : Job) (m : Shared) : Place → Prop
  | .queued | .leasing _ => False
  | .preparing _ => m.cancelled = true
  | .checking todo => m.cancelled = true ∧ todo = job.check
  | _ => True

namespace JobState

def Dropped (s : JobState) : Prop := ∃ code ∈ dropCodes, s.reply = some (.error code)

structure Sound (job : Job) (s : JobState) : Prop where
  fits : s.place.Fits s
  uncalled : s.shared.started = false → s.calls = []
  answering : s.answering = true → s.shared.cancelled = true ∧ s.reply = none
  quiet : s.Dropped → s.calls = [] ∧ s.place.Quiet job s.shared
  closed : ∀ reason ∈ s.shared.closed, reason ∉ dropCodes

theorem cancelCode_dropped {input unknown : Bool} (h : cancelCode input unknown ∈ dropCodes) : unknown = false := by
  cases input <;> cases unknown <;> simp [cancelCode, dropCodes] at h ⊢

variable {job : Job} {s t : JobState} {label : JobLabel}

theorem Sound.moved {place : Place} (h : s.Sound job) (hfits : place.Fits s)
    (hquiet : s.Dropped → s.place.Quiet job s.shared → place.Quiet job s.shared) : Sound job { s with place } := by
  refine ⟨?_, h.uncalled, h.answering, fun hd => ⟨(h.quiet hd).1, hquiet hd (h.quiet hd).2⟩, h.closed⟩
  cases place with
  | ended result => cases result <;> exact hfits
  | _ => exact hfits

theorem Sound.tested {passed : Bool} {code : Code} {next : Place} (h : s.Sound job)
    (hcode : code = "input-dropped" ∨ code ∉ dropCodes) (hfits : next.Fits s)
    (hquiet : passed = true → s.place.Quiet job s.shared → next.Quiet job s.shared) : Sound job (s.test passed code next) := by
  cases passed with
  | true => exact h.moved hfits fun _ => hquiet rfl
  | false => exact h.moved hcode fun _ _ => trivial

theorem execute_sound {result : Except Code Unit} (h : s.Sound job) (hx : s.execute job result = some t) : t.Sound job := by
  have hfits := h.fits
  cases hp : s.place with
  | queued | discarded | ended => simp [execute, hp] at hx
  | preparing todo =>
    rw [hp] at hfits
    obtain ⟨hstarted, hplain⟩ := hfits
    have hcalls := h.uncalled hstarted
    cases todo with
    | nil =>
      obtain rfl : _ = t := by simpa only [execute, hp, Option.some.injEq] using hx
      refine ⟨⟨rfl, hcalls⟩, fun _ => hcalls, h.answering, fun hd => ⟨hcalls, ?_⟩, h.closed⟩
      have hq := (h.quiet hd).2
      rw [hp] at hq
      exact ⟨hq, rfl⟩
    | cons instr todo =>
      rw [List.all_cons, Bool.and_eq_true] at hplain
      have hnext : (Place.preparing todo).Fits s := ⟨hstarted, hplain.2⟩
      have hquiet : s.place.Quiet job s.shared → (Place.preparing todo).Quiet job s.shared := fun hq => by
        rw [hp] at hq
        exact hq
      cases instr with
      | load load =>
        obtain rfl : _ = t := by simpa only [execute, hp, Option.some.injEq] using hx
        exact h.tested (.inl rfl) hnext fun _ => hquiet
      | fresh =>
        obtain rfl : _ = t := by simpa only [execute, hp, Option.some.injEq] using hx
        exact h.tested (.inr (by decide)) hnext fun _ => hquiet
      | call errors =>
        simp only [execute, hp] at hx
        cases result with
        | ok _ =>
          cases hx
          exact h.moved hnext fun _ => hquiet
        | error code =>
          simp only at hx
          split at hx
          · rename_i hcode
            cases hx
            have := List.all_eq_true.1 hplain.1 code hcode
            exact h.moved (.inr (by simpa using this)) fun _ _ => trivial
          · cases hx
  | checking todo =>
    rw [hp] at hfits
    obtain ⟨hstarted, hcalls⟩ := hfits
    cases todo with
    | nil =>
      have hloud : ¬ s.Dropped := fun hd => by
        have hq := (h.quiet hd).2
        rw [hp] at hq
        simp [Place.Quiet, Job.check] at hq
      simp only [execute, hp] at hx
      cases result with
      | ok _ =>
        cases hx
        exact ⟨hstarted, fun hno => by simp [hstarted] at hno, h.answering, fun hd => absurd hd hloud, h.closed⟩
      | error code =>
        simp only at hx
        split at hx
        · rename_i hcode
          cases hx
          refine ⟨.inr ?_, fun hno => by simp [hstarted] at hno, h.answering, fun hd => absurd hd hloud, h.closed⟩
          have : portErrors.all (fun code => code ∉ dropCodes) = true := by decide
          simpa using List.all_eq_true.1 this code hcode
        · cases hx
    | cons load todo =>
      obtain rfl : _ = t := by simpa only [execute, hp, Option.some.injEq] using hx
      refine h.tested (.inl rfl) ⟨hstarted, hcalls⟩ fun hpass hq => ?_
      -- the first load of the check is the one of the cancellation
      rw [hp] at hq
      obtain ⟨hcancelled, hcheck⟩ := hq
      cases hcheck
      simp [Load.passes, hcancelled] at hpass
  | leasing todo =>
    rw [hp] at hfits
    have hstarted : s.shared.started = true := hfits
    have hloud : ¬ s.place.Quiet job s.shared := by
      rw [hp]
      exact id
    cases todo with
    | nil =>
      obtain rfl : _ = t := by simpa only [execute, hp, Option.some.injEq] using hx
      exact h.moved trivial fun _ hq => absurd hq hloud
    | cons load todo =>
      obtain rfl : _ = t := by simpa only [execute, hp, Option.some.injEq] using hx
      exact h.tested (.inl rfl) hstarted fun _ hq => absurd hq hloud
  | failed code =>
    rw [hp] at hfits
    have hcode : code = "input-dropped" ∨ code ∉ dropCodes := hfits
    obtain rfl : _ = t := by simpa only [execute, hp, Option.some.injEq] using hx
    refine h.moved (fun hdrop => ?_) fun _ _ => trivial
    split at hdrop
    · exact h.uncalled (cancelCode_dropped hdrop)
    · rename_i hne
      exact absurd hdrop (hcode.resolve_left hne)

theorem Sound.remembered {m : Shared} (h : s.Sound job) (hm : s.shared ≤ m) (hstarted : m.started = s.shared.started)
    (hclosed : ∀ reason ∈ m.closed, reason ∉ dropCodes) : Sound job { s with shared := m } := by
  have hcancelled : s.shared.cancelled = true → m.cancelled = true := hm.cancelled
  have huncalled : m.started = false → s.calls = [] := fun hno => h.uncalled (hstarted ▸ hno)
  refine ⟨?_, huncalled, fun ha => ⟨hcancelled (h.answering ha).1, (h.answering ha).2⟩,
    fun hd => ⟨(h.quiet hd).1, ?_⟩, hclosed⟩
  · have hfits := h.fits
    cases hp : s.place with
    | ended result => cases result <;> simpa only [hp, Place.Fits] using hfits
    | _ => simpa only [hp, Place.Fits, hstarted] using hfits
  · have hquiet := (h.quiet hd).2
    cases hp : s.place with
    | preparing todo =>
      rw [hp] at hquiet
      exact hcancelled hquiet
    | checking todo =>
      rw [hp] at hquiet
      exact ⟨hcancelled hquiet.1, hquiet.2⟩
    | _ => simpa only [hp, Place.Quiet] using hquiet

theorem step_grows (hx : s.step job label = some t) : s.shared ≤ t.shared := by
  have hrefl : s.shared ≤ s.shared := le_refl _
  cases label with
  | execute result =>
    simp only [step, execute, test] at hx
    split at hx
    case h_4 =>
      cases hx
      exact { hrefl with started := fun _ => rfl }
    all_goals
      repeat' split at hx
      all_goals first
        | cases hx; done
        | (obtain rfl := Option.some.inj hx; exact hrefl)
  | submit | refuse | answer | finish =>
    simp only [step] at hx
    repeat' split at hx
    all_goals first
      | cases hx; done
      | (obtain rfl := Option.some.inj hx; exact hrefl)
  | cancel =>
    simp only [step] at hx
    split at hx
    · cases hx
      exact { hrefl with cancelled := fun _ => rfl }
    · cases hx
  | endLife =>
    cases hx
    exact { hrefl with alive := fun ha => by cases ha }
  | invalidate =>
    cases hx
    exact { hrefl with invalidated := fun _ => rfl }
  | shutdown code =>
    simp only [step] at hx
    split at hx
    · rename_i hne
      cases hx
      exact { hrefl with stop := fun h0 => absurd h0 hne }
    · cases hx
  | closeStream reason =>
    simp only [step] at hx
    split at hx
    · cases hx
      exact { hrefl with closed := fun hn => by simp at hn }
    · cases hx
  | tick now =>
    simp only [step] at hx
    split at hx
    · rename_i hle
      cases hx
      exact { hrefl with clock := hle }
    · cases hx

theorem submit_sound (h : s.Sound job) (hx : s.step job .submit = some t) : t.Sound job := by
  have hfits := h.fits
  simp only [step] at hx
  split at hx
  · rename_i hq
    cases hx
    rw [hq] at hfits
    obtain ⟨hstarted, hreply, -⟩ := hfits
    refine h.moved ⟨hstarted, preparation_plain job⟩ fun ⟨_, _, hd⟩ => ?_
    rw [hreply] at hd
    cases hd
  · cases hx

theorem refuse_sound (h : s.Sound job) (hx : s.step job .refuse = some t) : t.Sound job := by
  have hfits := h.fits
  simp only [step] at hx
  split at hx
  · rename_i hq
    cases hx
    rw [hq.1] at hfits
    obtain ⟨hstarted, -, hanswering⟩ := hfits
    refine ⟨hstarted, h.uncalled, fun ha => ?_, fun _ => ⟨h.uncalled hstarted, trivial⟩, h.closed⟩
    rw [hanswering] at ha
    cases ha
  · cases hx

theorem cancel_sound (h : s.Sound job) (hx : s.step job .cancel = some t) : t.Sound job := by
  have hfits := h.fits
  simp only [step] at hx
  split at hx
  · rename_i hq
    cases hx
    refine ⟨?_, h.uncalled, fun _ => ⟨rfl, hq.1⟩, fun ⟨_, _, hd⟩ => ?_, h.closed⟩
    · cases hp : s.place with
      | queued =>
        rw [hp] at hfits
        exact hfits.1
      | ended result => cases result <;> simpa [hp, Place.Fits] using hfits
      | _ => simpa [hp, Place.Fits] using hfits
    · rw [hq.1] at hd
      cases hd
  · cases hx

/-- The answer reads as dropped when the job has not started; the cancellation is then there before its last check. -/
theorem answer_sound (h : s.Sound job) (hx : s.step job .answer = some t) : t.Sound job := by
  have hfits := h.fits
  simp only [step] at hx
  split at hx
  · rename_i ha
    cases hx
    have hcancelled := (h.answering ha).1
    have hqueued : s.place ≠ .queued := fun hp => by
      rw [hp] at hfits
      simp [ha, Place.Fits] at hfits
    refine ⟨?_, h.uncalled, fun ha => (by cases ha), fun ⟨code, hcode, hd⟩ => ?_, h.closed⟩
    · cases hp : s.place with
      | queued => exact absurd hp hqueued
      | ended result => cases result <;> simpa only [hp, Place.Fits] using hfits
      | _ => simpa only [hp, Place.Fits] using hfits
    · have hstarted : s.shared.started = false := by
        cases Option.some.inj hd
        exact cancelCode_dropped hcode
      refine ⟨h.uncalled hstarted, ?_⟩
      cases hp : s.place with
      | queued => exact absurd hp hqueued
      | preparing todo => exact hcancelled
      | checking | leasing => simp [hp, hstarted, Place.Fits] at hfits
      | _ => trivial
  · cases hx

theorem finish_sound {gone : Bool} (h : s.Sound job) (hx : s.step job (.finish gone) = some t) : t.Sound job := by
  have hfits := h.fits
  simp only [step] at hx
  split at hx
  · rename_i result hp
    rw [hp] at hfits
    split at hx
    · rename_i hnone
      cases hx
      refine ⟨?_, h.uncalled, fun ha => ?_, fun ⟨code, hcode, hd⟩ => ⟨?_, ?_⟩, h.closed⟩
      · rw [show s.place = .ended result from hp]
        cases result <;> exact hfits
      · rw [hnone.2] at ha
        cases ha
      · have hfinish : s.finish job gone result = .error code := Option.some.inj hd
        cases result with
        | error code' =>
          cases hfinish
          exact hfits hcode
        | ok _ =>
          -- an open that finds its stream gone or closed has no drop code
          exfalso
          simp only [finish] at hfinish
          split at hfinish
          · split at hfinish
            · cases hfinish
              exact absurd hcode (by decide)
            · split at hfinish
              · rename_i reason hclosed
                obtain rfl := Except.error.inj hfinish
                exact h.closed reason hclosed hcode
              · cases hfinish
          · cases hfinish
      · rw [show s.place = .ended result from hp]
        trivial
    · cases hx
  · cases hx

theorem step_sound (h : s.Sound job) (hx : s.step job label = some t) : t.Sound job := by
  have hle := step_grows hx
  cases label with
  | execute result => exact execute_sound h hx
  | submit => exact submit_sound h hx
  | refuse => exact refuse_sound h hx
  | cancel => exact cancel_sound h hx
  | answer => exact answer_sound h hx
  | finish gone => exact finish_sound h hx
  | endLife | invalidate =>
    cases hx
    exact h.remembered hle rfl h.closed
  | shutdown | tick =>
    simp only [step] at hx
    split at hx
    · cases hx
      exact h.remembered hle rfl h.closed
    · cases hx
  | closeStream reason =>
    simp only [step] at hx
    split at hx
    · rename_i hreason
      cases hx
      refine h.remembered hle rfl fun code hcode => ?_
      cases hcode
      cases hc : s.shared.closed with
      | none => exact hreason
      | some first => exact h.closed first hc
    · cases hx

theorem init_sound (h : JobInit s) : s.Sound job := by
  obtain ⟨hstarted, -, hclosed, hplace, hanswering, hreply, hcalls⟩ := h
  refine ⟨?_, fun _ => hcalls, fun ha => ?_, fun ⟨_, _, hd⟩ => ?_, hclosed⟩
  · rw [hplace]
    exact ⟨hstarted, hreply, hanswering⟩
  · rw [hanswering] at ha
    cases ha
  · rw [hreply] at hd
    cases hd

end JobState

theorem JobRun.sound {job : Job} {l : List (Transition JobState JobLabel)} {s : JobState} (h : JobRun job l s) :
    s.Sound job :=
  Trace.invariant (P := fun s => s.Sound job) (fun _ => JobState.init_sound) (fun _ _ _ => JobState.step_sound) h

/-! ## The final check -/

/-- What the check asks of the memory. -/
structure Job.Valid (job : Job) (m : Shared) : Prop where
  uncancelled : m.cancelled = false
  alive : m.life.active = true
  «until» : m.clock < job.until
  «open» : job.kind ≠ .call → m.closed = none ∧ m.clock < job.deadline

theorem Job.valid_of_passes {job : Job} {m : Shared} (h : ∀ load ∈ job.check, load.passes job m = true) : job.Valid m := by
  have hcancelled := h .cancelled (by simp [check])
  have halive := h .alive (by simp [check, activeLoads])
  have hinvalidated := h .invalidated (by simp [check, activeLoads])
  have hstop := h .stop (by simp [check, activeLoads])
  have huntil := h .until (by simp [check])
  simp only [Load.passes] at hcancelled halive hinvalidated hstop huntil
  refine ⟨by simpa using hcancelled, by simp_all [Life.active], by simpa using huntil, fun hk => ?_⟩
  have hclosed := h .closed (by simp [check, hk])
  have hdeadline := h .deadline (by simp [check, hk])
  simp only [Load.passes] at hclosed hdeadline
  exact ⟨by simpa using hclosed, by simpa using hdeadline⟩

def Executes (place : Place) (x : Transition JobState JobLabel) : Prop :=
  x.src.place = place ∧ ∃ result, x.label = .execute result

/-- `started.store(true)` -/
def Starts : Transition JobState JobLabel → Prop := Executes (.preparing [])

def Rechecks (job : Job) : Transition JobState JobLabel → Prop := Executes (.checking job.check)

def Calls : Transition JobState JobLabel → Prop := Executes (.checking [])

def Replies (code : Code) (x : Transition JobState JobLabel) : Prop :=
  x.src.reply = none ∧ x.dst.reply = some (.error code)

namespace JobState
variable {job : Job} {s t : JobState} {label : JobLabel}

theorem step_checking {todo : List Load} (hx : s.step job label = some t) (ht : t.place = .checking todo) :
    s.place = .checking todo ∨ (∃ result, label = .execute result) ∧
      (s.place = .preparing [] ∧ todo = job.check ∨
        ∃ load, s.place = .checking (load :: todo) ∧ load.passes job s.shared = true) := by
  cases label with
  | execute result =>
    right
    refine ⟨⟨result, rfl⟩, ?_⟩
    simp only [step, execute, test] at hx
    repeat' split at hx
    all_goals grind
  | cancel =>
    left
    simp only [step] at hx
    split at hx
    · cases hx
      split at ht
      · cases ht
      · exact ht
    · cases hx
  | submit | refuse | answer | finish | endLife | invalidate | shutdown | closeStream | tick =>
    left
    simp only [step] at hx
    repeat' split at hx
    all_goals first
      | cases hx; done
      | (obtain rfl := Option.some.inj hx; first | exact ht | cases ht)

theorem step_calls (hx : s.step job label = some t) :
    s.calls.length ≤ t.calls.length ∧ (Calls ⟨s, label, t⟩ → t.calls ≠ []) := by
  cases label with
  | execute result =>
    simp only [step, execute, test] at hx
    repeat' split at hx
    all_goals first
      | cases hx; done
      | (obtain rfl := Option.some.inj hx
         simp [Calls, Executes, *])
  | submit | refuse | cancel | answer | finish | endLife | invalidate | shutdown | closeStream | tick =>
    simp only [step] at hx
    repeat' split at hx
    all_goals first
      | cases hx; done
      | (obtain rfl := Option.some.inj hx
         simp [Calls, Executes])

theorem step_reply {reply : Except Code Unit} (hx : s.step job label = some t) (h : s.Sound job)
    (hs : s.reply = some reply) : t.reply = some reply := by
  have hanswering := h.answering
  cases label with
  | answer =>
    simp only [step] at hx
    split at hx
    · rename_i ha
      rw [(hanswering ha).2] at hs
      cases hs
    · cases hx
  | execute result =>
    simp only [step, execute, test] at hx
    repeat' split at hx
    all_goals first
      | cases hx; done
      | (obtain rfl := Option.some.inj hx; exact hs)
  | submit | refuse | cancel | finish | endLife | invalidate | shutdown | closeStream | tick =>
    simp only [step] at hx
    repeat' split at hx
    all_goals first
      | cases hx; done
      | (obtain rfl := Option.some.inj hx; first | exact hs | simp_all)

end JobState

section Run
variable {job : Job} {l : List (Transition JobState JobLabel)} {s : JobState}

/-- The first load of the check, in memory that passes the loads done. -/
def Passing (job : Job) (done : List Load) (x : Transition JobState JobLabel) : Prop :=
  Rechecks job x ∧ ∀ load ∈ done, load.passes job x.src.shared = true

/-- **The check so far**: what has passed since would have passed when it began. -/
theorem JobRun.checked (h : JobRun job l s) : ∀ todo, s.place = .checking todo → Happened [Starts] l ∧
    ∃ done, done ++ todo = job.check ∧ (done ≠ [] → Happened [Starts, Passing job done] l) := by
  refine Trace.history (P := fun l (s : JobState) => ∀ todo, s.place = .checking todo → Happened [Starts] l ∧
    ∃ done, done ++ todo = job.check ∧ (done ≠ [] → Happened [Starts, Passing job done] l)) ?_ ?_ h
  · rintro s ⟨-, -, -, hplace, -⟩ todo ht
    rw [hplace] at ht
    cases ht
  · intro l s label t hl ih hx todo ht
    obtain hp | ⟨hlabel, ⟨hp, rfl⟩ | ⟨load, hp, hpass⟩⟩ := JobState.step_checking hx ht
    · obtain ⟨hstarts, done, hdone, hpassing⟩ := ih todo hp
      exact ⟨hstarts.step _, done, hdone, fun hne => (hpassing hne).step _⟩
    · exact ⟨Happened.nil.snoc (p := Starts) ⟨hp, hlabel⟩, [], rfl, fun hne => absurd rfl hne⟩
    · obtain ⟨hstarts, done, hdone, hpassing⟩ := ih _ hp
      refine ⟨hstarts.step _, done ++ [load], by simpa using hdone, fun _ => ?_⟩
      by_cases hne : done = []
      · subst hne
        refine hstarts.snoc (p := Passing job [load]) ⟨⟨?_, hlabel⟩, by simpa using hpass⟩
        rw [← hdone]
        exact hp
      · refine ((hpassing hne).mono (.cons (fun _ _ => id) (.cons (fun x hmem hx => ⟨hx.1, fun old hold => ?_⟩) .nil))).step _
        rcases List.mem_append.1 hold with hold | hold
        · exact hx.2 old hold
        · have hgrown := (Trace.grows (f := JobState.shared) (fun _ _ _ => JobState.step_grows) hl x hmem).1
          rw [List.mem_singleton.1 hold]
          exact Load.passes_of_le hgrown hpass

theorem JobRun.called (h : JobRun job l s) {y : Transition JobState JobLabel} (hy : y ∈ l) (hc : Calls y) :
    s.calls ≠ [] := by
  obtain ⟨_, _, _, _, hstep⟩ := h.transition y hy
  have hgrown := (Trace.grows (f := fun s : JobState => s.calls.length)
    (fun _ _ _ hx => (JobState.step_calls hx).1) h y hy).2
  have hcalled := List.length_pos_iff.2 ((JobState.step_calls hstep).2 hc)
  exact List.length_pos_iff.1 (hcalled.trans_le hgrown)

theorem JobRun.replied (h : JobRun job l s) {reply : Except Code Unit} :
    ∀ x ∈ l, x.dst.reply = some reply → s.reply = some reply := by
  refine Trace.history (P := fun l (s : JobState) => ∀ x ∈ l, x.dst.reply = some reply → s.reply = some reply) ?_ ?_ h
  · exact fun _ _ x hx => by cases hx
  · intro l s label t hl ih hx x hmem hr
    rcases List.mem_append.1 hmem with hmem | hmem
    · exact JobState.step_reply hx (JobRun.sound hl) (ih x hmem hr)
    · rw [List.mem_singleton.1 hmem] at hr
      exact hr

end Run

/-! ## A write that is sent, and one that is dropped -/

namespace Sample

def typed : Job := ⟨.input, seconds 600, seconds 600, none⟩

def taken : JobState := ⟨⟨false, false, ⟨true, false, 0⟩, none, 0⟩, .queued, false, none, []⟩

def moves (s : JobState) (label : JobLabel) : Option (JobLabel × JobState) := (s.step typed label).map (fun t => (label, t))

theorem moves_step (s : JobState) (act label : JobLabel) (t : JobState) (h : moves s act = some (label, t)) :
    s.step typed label = some t := by
  unfold moves at h
  cases hs : s.step typed act with
  | none => simp [hs] at h
  | some u =>
    simp only [hs, Option.map_some, Option.some.injEq, Prod.mk.injEq] at h
    obtain ⟨rfl, rfl⟩ := h
    exact hs

def go : JobLabel := .execute (.ok ())

def upToCall : List JobLabel := .submit :: List.replicate 22 go

def sent : List JobLabel := upToCall ++ [go, go, .cancel, .answer]

def dropped : List JobLabel := .submit :: List.replicate 11 go ++ [.cancel, .answer, go, go, go]

def moved (acts : List JobLabel) : List (Transition JobState JobLabel) × JobState :=
  (Trace.play moves acts [] taken).getD ([], taken)

theorem run_taken : JobRun typed [] taken := .start ⟨rfl, rfl, fun _ hr => (by cases hr), rfl, rfl, rfl, rfl⟩

theorem run_sent : JobRun typed (moved sent).1 (moved sent).2 :=
  Trace.of_play moves_step run_taken (show Trace.play moves sent [] taken = some (moved sent) by rfl)

theorem run_dropped : JobRun typed (moved dropped).1 (moved dropped).2 :=
  Trace.of_play moves_step run_taken (show Trace.play moves dropped [] taken = some (moved dropped) by rfl)

end Sample

/-- **A dropped write has not reached the Host and will not**: no transition of a run that answers with a drop code, be
it before or after, calls the Host.  **And a call has passed the check**: the job had set `started` and then begun its
last check in memory where the request was not cancelled, the peer alive, the deadline ahead and the stream open. -/
theorem dropped_uncalled {job : Job} {l : List (Transition JobState JobLabel)} {s : JobState} (h : JobRun job l s) :
    (∀ x ∈ l, ∀ code ∈ dropCodes, Replies code x → ∀ y ∈ l, ¬ Calls y) ∧
      ∀ past x later, l = past ++ x :: later → Calls x →
        Happened [Starts, fun y => Rechecks job y ∧ job.Valid y.src.shared] past := by
  constructor
  · intro x hx code hcode hr y hy hc
    have hreply := h.replied x hx hr.2
    exact h.called hy hc (h.sound.quiet ⟨code, hcode, hreply⟩).1
  · intro past x later hl hc
    obtain ⟨-, done, hdone, hpassing⟩ := JobRun.checked (h.split hl).1 [] hc.1
    rw [List.append_nil] at hdone
    subst hdone
    refine (hpassing (by simp [Job.check])).mono (.cons (fun _ _ => id) (.cons (fun y _ hy => ?_) .nil))
    exact ⟨hy.1, Job.valid_of_passes hy.2⟩

/-- An input that reaches the Host after its check, and one that was cancelled before its start. -/
theorem dropped_uncalled_typed : Happened [Starts, fun y => Rechecks Sample.typed y ∧ Sample.typed.Valid y.src.shared]
        ((Sample.moved Sample.sent).1.take 23) ∧
      ¬ ∃ y ∈ (Sample.moved Sample.dropped).1, Calls y := by
  constructor
  · exact (dropped_uncalled Sample.run_sent).2 _ ((Sample.moved Sample.sent).1.get ⟨23, by decide⟩)
      ((Sample.moved Sample.sent).1.drop 24) (by rfl) ⟨by rfl, _, rfl⟩
  · rintro ⟨y, hy, hc⟩
    exact (dropped_uncalled Sample.run_dropped).1 ((Sample.moved Sample.dropped).1.get ⟨13, by decide⟩)
      (List.get_mem _ _) "input-dropped" (by decide) ⟨by rfl, by rfl⟩ y hy hc

end Writes
end Yuzora
