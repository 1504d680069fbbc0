import Yuzora.GitRegistrySound
/-!
# GitRegistryHeld — what the calls hold

A step of a call changes the call and what one slot of it counts (`Moves`); what `begin`, `finish` and `close` change
is no gate and no lock (`Kept`).
-/
namespace Yuzora
namespace GitRegistry

open List Table Option
open Trust (WorkspaceIdentity Disk observeIdentity)

variable {s t u : State}

/-! ## The order of the slots -/

def slots (exclusive : Bool) : List Slot := if exclusive then [.job, .operation, .admission] else [.job]

def Phase.active : Phase → Bool
  | .checked | .verified _ | .running => true
  | _ => false

def Phase.early : Phase → Bool
  | .leaving _ | .returned _ => false
  | _ => true

/-- A call takes its slots in their order, and gives back the last first. -/
structure Call.Shaped (call : Call) : Prop where
  order : call.taken.reverse = call.given ++ call.held
  slots : call.taken.reverse <:+ slots call.exclusive
  early : call.phase.early = true → call.given = []
  active : call.phase.active = true → call.held = GitRegistry.slots call.exclusive
  returned : ∀ outcome, call.phase = .returned outcome → call.held = []

theorem nodup_slots (exclusive : Bool) : (slots exclusive).Nodup := by
  cases exclusive with
  | false => decide
  | true => decide

theorem Call.Shaped.nodup {call : Call} (h : call.Shaped) : call.taken.Nodup :=
  nodup_reverse.1 ((nodup_slots call.exclusive).sublist h.slots.sublist)

theorem Call.Shaped.held_nodup {call : Call} (h : call.Shaped) : call.held.Nodup := by
  have hn := nodup_reverse.2 h.nodup
  rw [h.order] at hn
  exact (nodup_append.1 hn).2.1

theorem Call.Shaped.held_suffix {call : Call} (h : call.Shaped) (he : call.phase.early = true) :
    call.held <:+ GitRegistry.slots call.exclusive := by
  have horder := h.order
  rw [h.early he, nil_append] at horder
  exact horder ▸ h.slots

variable {slot : Slot} {workspace : String} {generation : Nat}

theorem wants_some {call : Call} (h : call.Shaped) (hw : call.wants = some slot) :
    call.phase = .waiting ∧ (slot :: call.held) <:+ slots call.exclusive := by
  cases hp : call.phase with
  | waiting =>
    have hsuffix := h.held_suffix (by rw [hp]; rfl)
    refine ⟨rfl, ?_⟩
    unfold Call.wants at hw
    rw [hp] at hw
    cases he : call.exclusive with
    | true =>
      rw [he] at hw hsuffix
      simp only [slots, if_true, suffix_cons_iff, suffix_nil] at hsuffix hw ⊢
      rcases hsuffix with hheld | hheld | hheld | hheld <;> rw [hheld] at hw ⊢ <;> cases hw <;> simp
    | false =>
      rw [he] at hw hsuffix
      simp only [slots, Bool.false_eq_true, if_false, suffix_cons_iff, suffix_nil] at hsuffix hw ⊢
      rcases hsuffix with hheld | hheld <;> rw [hheld] at hw ⊢ <;> cases hw <;> simp
  | checked | verified | running | leaving | returned => simp [Call.wants, hp] at hw

theorem wants_none {call : Call} (h : call.Shaped) (hp : call.phase = .waiting) (hw : call.wants = none) :
    call.held = slots call.exclusive := by
  have hsuffix := h.held_suffix (by rw [hp]; rfl)
  unfold Call.wants at hw
  rw [hp] at hw
  cases he : call.exclusive with
  | true =>
    rw [he] at hw hsuffix
    simp only [slots, if_true, suffix_cons_iff, suffix_nil] at hsuffix hw ⊢
    rcases hsuffix with hheld | hheld | hheld | hheld <;> rw [hheld] at hw ⊢ <;> cases hw
  | false =>
    rw [he] at hw hsuffix
    simp only [slots, Bool.false_eq_true, if_false, suffix_cons_iff, suffix_nil] at hsuffix hw ⊢
    rcases hsuffix with hheld | hheld <;> rw [hheld] at hw ⊢ <;> cases hw

/-! ## The gates -/

def Call.has (call : Call) (slot : Slot) (e : Nat) : Bool := decide (call.entry = e) && decide (slot ∈ call.held)

/-- The gates and locks show what the calls hold. -/
structure Held (s : State) : Prop where
  entry : ∀ id call, s.calls.get id = some call → ∃ repo, s.entries.get call.entry = some repo
  shaped : ∀ id call, s.calls.get id = some call → call.Shaped
  verified : ∀ id call identity, s.calls.get id = some call → call.phase = .verified identity →
    ∀ repo, s.entries.get call.entry = some repo → repo.identity = identity
  admission : ∀ e repo, s.entries.get e = some repo →
    repo.mutationAdmission.running = s.calls.count (fun _ call => call.has .admission e) ∧
      repo.mutationAdmission.running ≤ MAX_GIT_JOBS
  operation : ∀ e repo, s.entries.get e = some repo →
    repo.operation.toNat = s.calls.count fun _ call => call.has .operation e
  jobs : s.jobs.running = (s.calls.count fun _ call => decide (Slot.job ∈ call.held)) + s.detecting
  jobsMax : s.jobs.running ≤ MAX_GIT_JOBS

theorem held_new : Held State.new where
  entry id call h := by cases h
  shaped id call h := by cases h
  verified id call identity h := by cases h
  admission e repo h := by cases h
  operation e repo h := by cases h
  jobs := rfl
  jobsMax := Nat.zero_le _

/-! ### Steps of the registry -/

/-- The calls and what they hold are kept; a new entry is free. -/
structure Kept (s t : State) : Prop where
  calls : t.calls = s.calls
  jobs : t.jobs = s.jobs
  detecting : t.detecting = s.detecting
  old : ∀ e repo, s.entries.get e = some repo → ∃ repo', t.entries.get e = some repo' ∧ repo'.identity = repo.identity ∧
    repo'.mutationAdmission = repo.mutationAdmission ∧ repo'.operation = repo.operation
  new : ∀ e repo', t.entries.get e = some repo' → s.entries.get e = none →
    repo'.mutationAdmission = ⟨0⟩ ∧ repo'.operation = false

theorem Kept.refl (s : State) : Kept s s := by
  refine ⟨rfl, rfl, rfl, fun e repo h => ⟨repo, h, rfl, rfl, rfl⟩, fun e repo' h h' => ?_⟩
  rw [h] at h'
  cases h'

theorem Kept.trans (h : Kept s t) (h' : Kept t u) : Kept s u := by
  constructor
  case calls => exact h'.calls.trans h.calls
  case jobs => exact h'.jobs.trans h.jobs
  case detecting => exact h'.detecting.trans h.detecting
  case old =>
    intro e repo hrepo
    obtain ⟨repo', hrepo', hi, ha, ho⟩ := h.old e repo hrepo
    obtain ⟨repo'', hrepo'', hi', ha', ho'⟩ := h'.old e repo' hrepo'
    exact ⟨repo'', hrepo'', hi'.trans hi, ha'.trans ha, ho'.trans ho⟩
  case new =>
    intro e repo'' hrepo'' hnone
    cases hmid : t.entries.get e with
    | none => exact h'.new e repo'' hrepo'' hmid
    | some repo' =>
      obtain ⟨ha, ho⟩ := h.new e repo' hmid hnone
      obtain ⟨repo₂, hrepo₂, -, ha', ho'⟩ := h'.old e repo' hmid
      cases hrepo''.symm.trans hrepo₂
      exact ⟨ha'.trans ha, ho'.trans ho⟩

theorem kept_removeOrphans (s : State) : Kept s s.removeOrphans := by
  have hget : ∀ e, s.removeOrphans.entries.get e = (s.entries.get e).map fun repo =>
      if s.repositories.entries.any fun x => decide (x.2 = e) && !s.retained x.1 then { repo with cancelled := true }
      else repo := fun e => get_mapValues _ _ _
  refine ⟨rfl, rfl, rfl, fun e repo h => ?_, fun e repo' h h' => ?_⟩
  · rw [hget, h]
    refine ⟨_, rfl, ?_⟩
    split
    · exact ⟨rfl, rfl, rfl⟩
    · exact ⟨rfl, rfl, rfl⟩
  · rw [hget, h'] at h
    cases h

theorem kept_replace (h : Bound s) (identity : WorkspaceIdentity) : Kept s (s.replace identity) := by
  have hsame : (s.replace identity).calls = s.calls ∧ (s.replace identity).jobs = s.jobs ∧
      (s.replace identity).detecting = s.detecting := by
    unfold State.replace
    cases s.repositories.get identity.canonicalPath with
    | none | some => exact ⟨rfl, rfl, rfl⟩
  obtain ⟨hcalls, hjobs, hdetecting⟩ := hsame
  refine ⟨hcalls, hjobs, hdetecting, fun e repo hrepo => ?_, fun e repo' hrepo' hnone => ?_⟩
  · have hne : ¬e = s.nextEntry := by
      rintro rfl
      rw [h.fresh _ (Nat.le_refl _)] at hrepo
      cases hrepo
    rw [get_replace, if_neg hne, hrepo]
    refine ⟨_, rfl, ?_⟩
    split
    · exact ⟨rfl, rfl, rfl⟩
    · exact ⟨rfl, rfl, rfl⟩
  · rw [get_replace, hnone] at hrepo'
    split at hrepo'
    · cases hrepo'
      exact ⟨rfl, rfl⟩
    · cases hrepo'

theorem kept_enrolled (h : Bound s) (identity : Option WorkspaceIdentity) : Kept s (s.enrolled identity) := by
  cases identity with
  | none => exact .refl s
  | some identity =>
    simp only [State.enrolled]
    split
    · exact .refl s
    · exact kept_replace h identity

theorem Kept.workspaces (h : Kept s t) (workspaces : Table String Workspace) (generation : Nat) :
    Kept s { t with workspaces, generation } :=
  ⟨h.calls, h.jobs, h.detecting, h.old, h.new⟩

theorem kept_bound (h : Bound s) (workspace : String) (slot : Workspace) (identity : Option WorkspaceIdentity)
    (watcher : Option Nat) : Kept s (s.bound workspace slot identity watcher) :=
  ((kept_enrolled h identity).workspaces _ _).trans (kept_removeOrphans _)

theorem kept_begin (hb : s.begin workspace = .ok (generation, t)) : Kept s t := by
  unfold State.begin at hb
  split at hb
  · cases hb
  · split at hb
    · cases hb
      exact (Kept.refl s).workspaces _ _
    · cases hb

theorem kept_finish (h : Bound s) {environment : GitEnvironment} {watcher : Option Nat} {disk : Disk} {done : Bool}
    (hf : s.finish workspace generation environment watcher disk = .ok (done, t)) : Kept s t := by
  unfold State.finish at hf
  split at hf
  · cases hf
  · split at hf
    · cases hf
      exact .refl s
    · split at hf
      · cases hf
        exact kept_bound h _ _ _ _
      · cases hf
        exact .refl s

theorem kept_close (s : State) (workspace : String) (generation : Nat) : Kept s (s.close workspace generation) := by
  unfold State.close
  split
  · exact .refl s
  · split
    · exact ((Kept.refl s).workspaces _ s.generation).trans (kept_removeOrphans _)
    · exact .refl s

theorem Held.kept (h : Held s) (hk : Kept s t) : Held t := by
  -- An entry that is new is held by no call.
  have hnone : ∀ e slot, s.entries.get e = none → (s.calls.count fun _ call => call.has slot e) = 0 := by
    intro e slot hnone
    refine count_eq_zero fun id call hg => ?_
    obtain ⟨repo, hrepo⟩ := h.entry id call hg
    have hne : call.entry ≠ e := by
      rintro rfl
      rw [hnone] at hrepo
      cases hrepo
    simp [Call.has, hne]
  constructor
  case entry =>
    rw [hk.calls]
    intro id call hg
    obtain ⟨repo, hrepo⟩ := h.entry id call hg
    obtain ⟨repo', hrepo', -⟩ := hk.old _ repo hrepo
    exact ⟨repo', hrepo'⟩
  case shaped =>
    rw [hk.calls]
    exact h.shaped
  case verified =>
    rw [hk.calls]
    intro id call identity hg hp repo' hrepo'
    obtain ⟨repo, hrepo⟩ := h.entry id call hg
    obtain ⟨repo₂, hrepo₂, hi, -⟩ := hk.old _ repo hrepo
    cases hrepo'.symm.trans hrepo₂
    exact hi.trans (h.verified id call identity hg hp repo hrepo)
  case admission =>
    rw [hk.calls]
    intro e repo' hrepo'
    cases hs : s.entries.get e with
    | none =>
      obtain ⟨ha, -⟩ := hk.new e repo' hrepo' hs
      rw [ha, hnone e .admission hs]
      exact ⟨rfl, Nat.zero_le _⟩
    | some repo =>
      obtain ⟨repo₂, hrepo₂, -, ha, -⟩ := hk.old e repo hs
      cases hrepo'.symm.trans hrepo₂
      rw [ha]
      exact h.admission e repo hs
  case operation =>
    rw [hk.calls]
    intro e repo' hrepo'
    cases hs : s.entries.get e with
    | none =>
      obtain ⟨-, ho⟩ := hk.new e repo' hrepo' hs
      rw [ho, hnone e .operation hs]
      rfl
    | some repo =>
      obtain ⟨repo₂, hrepo₂, -, -, ho⟩ := hk.old e repo hs
      cases hrepo'.symm.trans hrepo₂
      rw [ho]
      exact h.operation e repo hs
  case jobs =>
    rw [hk.calls, hk.jobs, hk.detecting]
    exact h.jobs
  case jobsMax =>
    rw [hk.jobs]
    exact h.jobsMax

/-! ### Steps of a call -/

def Call.num (call : Call) (slot : Slot) : Nat := if slot ∈ call.held then 1 else 0

/-- One call changes, and one slot with it. -/
structure Moves (s t : State) (id : Nat) (call call' : Call) : Prop where
  before : s.calls.get id = some call
  calls : t.calls = s.calls.insert id call'
  entry : call'.entry = call.entry
  exclusive : call'.exclusive = call.exclusive
  requested : call'.requested = call.requested
  shaped : call'.Shaped
  verified : ∀ identity, call'.phase = .verified identity →
    ∀ repo, s.entries.get call.entry = some repo → repo.identity = identity
  others : ∀ e, e ≠ call.entry → t.entries.get e = s.entries.get e
  own : ∀ repo, s.entries.get call.entry = some repo → ∃ repo', t.entries.get call.entry = some repo' ∧ repo'.tag = repo.tag ∧
    repo'.mutationAdmission.running + call.num .admission = repo.mutationAdmission.running + call'.num .admission ∧
    (repo.mutationAdmission.running ≤ MAX_GIT_JOBS → repo'.mutationAdmission.running ≤ MAX_GIT_JOBS) ∧
    repo'.operation.toNat + call.num .operation = repo.operation.toNat + call'.num .operation
  jobs : t.jobs.running + call.num .job = s.jobs.running + call'.num .job
  jobsMax : s.jobs.running ≤ MAX_GIT_JOBS → t.jobs.running ≤ MAX_GIT_JOBS
  detecting : t.detecting = s.detecting
  workspaces : t.workspaces = s.workspaces
  repositories : t.repositories = s.repositories
  nextEntry : t.nextEntry = s.nextEntry
  generation : t.generation = s.generation

section Moves
variable {id : Nat} {call call' : Call} {outcome : Outcome} {held : List Slot} {phase : Phase}

theorem Moves.tag (h : Held s) (hm : Moves s t id call call') (e : Nat) :
    (t.entries.get e).map Repository.tag = (s.entries.get e).map Repository.tag := by
  by_cases he : e = call.entry
  · subst he
    obtain ⟨repo, hrepo⟩ := h.entry id call hm.before
    obtain ⟨repo', hrepo', htag, -⟩ := hm.own repo hrepo
    rw [hrepo, hrepo', map_some, map_some, htag]
  · rw [hm.others e he]

theorem Bound.moves (h : Bound s) (hh : Held s) (hm : Moves s t id call call') : Bound t :=
  h.same hm.workspaces hm.repositories hm.nextEntry hm.generation (hm.tag hh)

theorem Moves.count (hm : Moves s t id call call') (slot : Slot) (e : Nat) :
    (t.calls.count fun _ call => call.has slot e) + (if call.entry = e then call.num slot else 0) =
      (s.calls.count fun _ call => call.has slot e) + if call.entry = e then call'.num slot else 0 := by
  have hadd := count_insert_add (fun _ call => call.has slot e) hm.before call'
  rw [← hm.calls] at hadd
  by_cases he : call.entry = e
  · simpa [Call.has, hm.entry, he, Call.num] using hadd
  · simpa [Call.has, hm.entry, he] using hadd

theorem Held.moves (h : Held s) (hm : Moves s t id call call') : Held t := by
  have hget : ∀ id' c, t.calls.get id' = some c → (id' = id ∧ c = call') ∨ s.calls.get id' = some c := by
    intro id' c hg
    rw [hm.calls, get_insert s.calls] at hg
    split at hg
    · rename_i hid
      cases hg
      exact .inl ⟨hid, rfl⟩
    · exact .inr hg
  have hback : ∀ e repo', t.entries.get e = some repo' → ∃ repo, s.entries.get e = some repo ∧ repo.identity = repo'.identity := by
    intro e repo' hrepo'
    have htag := hm.tag h e
    rw [hrepo', map_some] at htag
    obtain ⟨repo, hrepo, heq⟩ := map_eq_some_iff.1 htag.symm
    exact ⟨repo, hrepo, (Prod.mk.inj heq).1⟩
  constructor
  case entry =>
    intro id' c hg
    have hold : ∃ repo, s.entries.get c.entry = some repo := by
      rcases hget id' c hg with ⟨-, rfl⟩ | hg
      · rw [hm.entry]
        exact h.entry id call hm.before
      · exact h.entry id' c hg
    obtain ⟨repo, hrepo⟩ := hold
    have htag := hm.tag h c.entry
    rw [hrepo, map_some] at htag
    obtain ⟨repo', hrepo', -⟩ := map_eq_some_iff.1 htag
    exact ⟨repo', hrepo'⟩
  case shaped =>
    intro id' c hg
    rcases hget id' c hg with ⟨-, rfl⟩ | hg
    · exact hm.shaped
    · exact h.shaped id' c hg
  case verified =>
    intro id' c identity hg hp repo' hrepo'
    obtain ⟨repo, hrepo, hi⟩ := hback _ repo' hrepo'
    rcases hget id' c hg with ⟨-, rfl⟩ | hg
    · rw [hm.entry] at hrepo
      exact hi ▸ hm.verified identity hp repo hrepo
    · exact hi ▸ h.verified id' c identity hg hp repo hrepo
  case admission =>
    intro e repo' hrepo'
    have hcount := hm.count .admission e
    by_cases he : call.entry = e
    · subst he
      obtain ⟨repo, hrepo, -⟩ := hback _ repo' hrepo'
      obtain ⟨repo₂, hrepo₂, -, hadd, hle, -⟩ := hm.own repo hrepo
      cases hrepo'.symm.trans hrepo₂
      obtain ⟨hrunning, hmax⟩ := h.admission _ repo hrepo
      rw [if_pos rfl, if_pos rfl] at hcount
      exact ⟨by omega, hle hmax⟩
    · rw [if_neg he, if_neg he] at hcount
      rw [hm.others e (Ne.symm he)] at hrepo'
      obtain ⟨hrunning, hmax⟩ := h.admission e repo' hrepo'
      exact ⟨by omega, hmax⟩
  case operation =>
    intro e repo' hrepo'
    have hcount := hm.count .operation e
    by_cases he : call.entry = e
    · subst he
      obtain ⟨repo, hrepo, -⟩ := hback _ repo' hrepo'
      obtain ⟨repo₂, hrepo₂, -, -, -, hadd⟩ := hm.own repo hrepo
      cases hrepo'.symm.trans hrepo₂
      have hlock := h.operation _ repo hrepo
      rw [if_pos rfl, if_pos rfl] at hcount
      omega
    · rw [if_neg he, if_neg he] at hcount
      rw [hm.others e (Ne.symm he)] at hrepo'
      have hlock := h.operation e repo' hrepo'
      omega
  case jobs =>
    have hadd := count_insert_add (fun _ call => decide (Slot.job ∈ call.held)) hm.before call'
    have hjobs := h.jobs
    have hmoved := hm.jobs
    rw [← hm.calls] at hadd
    simp only [Call.num, decide_eq_true_eq] at hadd hmoved
    rw [hm.detecting]
    omega
  case jobsMax => exact hm.jobsMax h.jobsMax

theorem moves_phase (hg : s.calls.get id = some call) (hs : ({ call with phase } : Call).Shaped)
    (hv : ∀ identity, phase = .verified identity → ∀ repo, s.entries.get call.entry = some repo → repo.identity = identity) :
    Moves s (s.put id { call with phase }) id call { call with phase } where
  before := hg
  calls := rfl
  entry := rfl
  exclusive := rfl
  requested := rfl
  shaped := hs
  verified := hv
  others _ _ := rfl
  own repo hrepo := ⟨repo, hrepo, rfl, rfl, fun h => h, rfl⟩
  jobs := rfl
  jobsMax h := h
  detecting := rfl
  workspaces := rfl
  repositories := rfl
  nextEntry := rfl
  generation := rfl

theorem Call.Shaped.leave (h : call.Shaped) (outcome : Outcome) : ({ call with phase := .leaving outcome } : Call).Shaped where
  order := h.order
  slots := h.slots
  early he := by cases he
  active ha := by cases ha
  returned o ho := by cases ho

theorem moves_leave (h : Held s) (hg : s.calls.get id = some call) (outcome : Outcome) :
    Moves s (s.leave id call outcome) id call { call with phase := .leaving outcome } :=
  moves_phase hg ((h.shaped id call hg).leave outcome) nofun

theorem Call.Shaped.advance (h : call.Shaped) (hearly : call.phase.early = true)
    (hheld : call.held = GitRegistry.slots call.exclusive) (hp : phase.active = true) : ({ call with phase } : Call).Shaped where
  order := h.order
  slots := h.slots
  early _ := h.early hearly
  active _ := hheld
  returned o ho := by
    subst ho
    cases hp

theorem Call.Shaped.took (h : call.Shaped) (hp : call.phase = .waiting)
    (hs : slot :: call.held <:+ GitRegistry.slots call.exclusive) :
    ({ call with held := slot :: call.held, taken := call.taken ++ [slot] } : Call).Shaped := by
  have hgiven := h.early (by rw [hp]; rfl)
  have horder := h.order
  rw [hgiven, nil_append] at horder
  constructor
  case order => simp [hgiven, horder]
  case slots => simpa [horder] using hs
  case early => exact fun _ => hgiven
  case active =>
    intro ha
    rw [hp] at ha
    cases ha
  case returned =>
    intro o ho
    rw [hp] at ho
    cases ho

theorem Call.Shaped.gave (h : call.Shaped) (hp : call.phase = .leaving outcome) (hheld : call.held = slot :: held) :
    ({ call with held, given := call.given ++ [slot] } : Call).Shaped := by
  have horder := h.order
  rw [hheld] at horder
  constructor
  case order => simp [horder]
  case slots => exact h.slots
  case early =>
    intro he
    rw [hp] at he
    cases he
  case active =>
    intro ha
    rw [hp] at ha
    cases ha
  case returned =>
    intro o ho
    rw [hp] at ho
    cases ho

theorem not_mem_of_suffix {exclusive : Bool} (h : slot :: held <:+ slots exclusive) : slot ∉ held :=
  (nodup_cons.1 ((nodup_slots exclusive).sublist h.sublist)).1

theorem moves_entry (h : Held s) (hg : s.calls.get id = some call) {f : Repository → Repository}
    (htag : ∀ repo, (f repo).tag = repo.tag) (hentry : call'.entry = call.entry) (hexclusive : call'.exclusive = call.exclusive)
    (hrequested : call'.requested = call.requested) (hs : call'.Shaped) (hp : call'.phase = call.phase) (hjob : call'.num .job = call.num .job)
    (hadmission : ∀ repo, s.entries.get call.entry = some repo →
      (f repo).mutationAdmission.running + call.num .admission = repo.mutationAdmission.running + call'.num .admission ∧
      (repo.mutationAdmission.running ≤ MAX_GIT_JOBS → (f repo).mutationAdmission.running ≤ MAX_GIT_JOBS))
    (hoperation : ∀ repo, s.entries.get call.entry = some repo →
      (f repo).operation.toNat + call.num .operation = repo.operation.toNat + call'.num .operation) :
    Moves s ((s.modify call.entry f).put id call') id call call' where
  before := hg
  calls := rfl
  entry := hentry
  exclusive := hexclusive
  requested := hrequested
  shaped := hs
  verified identity hv repo hrepo := h.verified id call identity hg (hp ▸ hv) repo hrepo
  others e he := get_modify_other f he
  own repo hrepo :=
    ⟨f repo, get_modify_self f hrepo, htag repo, (hadmission repo hrepo).1, (hadmission repo hrepo).2, hoperation repo hrepo⟩
  jobs := by rw [hjob]; rfl
  jobsMax hmax := hmax
  detecting := rfl
  workspaces := rfl
  repositories := rfl
  nextEntry := rfl
  generation := rfl

theorem moves_jobs (h : Held s) (hg : s.calls.get id = some call) {jobs : JobGate} (hentry : call'.entry = call.entry)
    (hexclusive : call'.exclusive = call.exclusive) (hrequested : call'.requested = call.requested) (hs : call'.Shaped)
    (hp : call'.phase = call.phase) (hadmission : call'.num .admission = call.num .admission) (hoperation : call'.num .operation = call.num .operation)
    (hjobs : jobs.running + call.num .job = s.jobs.running + call'.num .job)
    (hmax : s.jobs.running ≤ MAX_GIT_JOBS → jobs.running ≤ MAX_GIT_JOBS) :
    Moves s ({ s with jobs }.put id call') id call call' where
  before := hg
  calls := rfl
  entry := hentry
  exclusive := hexclusive
  requested := hrequested
  shaped := hs
  verified identity hv repo hrepo := h.verified id call identity hg (hp ▸ hv) repo hrepo
  others _ _ := rfl
  own repo hrepo := ⟨repo, hrepo, rfl, by rw [hadmission], fun h => h, by rw [hoperation]⟩
  jobs := hjobs
  jobsMax := hmax
  detecting := rfl
  workspaces := rfl
  repositories := rfl
  nextEntry := rfl
  generation := rfl

theorem acquire_eq_some {gate gate' : JobGate} (h : gate.acquire = some gate') :
    gate'.running = gate.running + 1 ∧ gate'.running ≤ MAX_GIT_JOBS := by
  unfold JobGate.acquire at h
  split at h
  · rename_i hlt
    cases h
    exact ⟨rfl, hlt⟩
  · cases h

theorem moves_take (h : Held s) (hg : s.calls.get id = some call) {repo : Repository}
    (hrepo : s.entries.get call.entry = some repo) (hw : call.wants = some slot)
    (ht : s.take id call repo slot = some t) :
    ∃ call', Moves s t id call call' ∧ (call'.phase = call.phase ∨ ∃ outcome, call'.phase = .leaving outcome) := by
  have hshaped := h.shaped id call hg
  obtain ⟨hp, hs⟩ := wants_some hshaped hw
  have hnew := not_mem_of_suffix hs
  have htook := hshaped.took hp hs
  cases slot with
  | admission =>
    obtain ⟨gate, hgate, rfl⟩ := map_eq_some_iff.1 ht
    obtain ⟨hrunning, hmax⟩ := acquire_eq_some hgate
    refine ⟨_, moves_entry h hg (fun _ => rfl) rfl rfl rfl htook rfl ?_ ?_ ?_, .inl rfl⟩
    · simp [Call.num]
    · intro repo' hrepo'
      cases hrepo.symm.trans hrepo'
      have hold : call.num .admission = 0 := if_neg hnew
      have hnum : Call.num { call with held := .admission :: call.held, taken := call.taken ++ [.admission] } .admission = 1 :=
        if_pos mem_cons_self
      simp only [hold, hnum, hrunning]
      exact ⟨trivial, fun _ => by omega⟩
    · intro repo' hrepo'
      simp [Call.num]
  | operation =>
    simp only [State.take] at ht
    split at ht
    · cases ht
    · rename_i hfree
      split at ht
      · cases ht
        exact ⟨_, moves_leave h hg _, .inr ⟨_, rfl⟩⟩
      · cases ht
        refine ⟨_, moves_entry h hg (fun _ => rfl) rfl rfl rfl htook rfl ?_ ?_ ?_, .inl rfl⟩
        · simp [Call.num]
        · intro repo' hrepo'
          simp [Call.num]
        · intro repo' hrepo'
          cases hrepo.symm.trans hrepo'
          simp [Call.num, hnew, hfree]
  | job =>
    obtain ⟨jobs, hjobs, rfl⟩ := map_eq_some_iff.1 ht
    obtain ⟨hrunning, hmax⟩ := acquire_eq_some hjobs
    refine ⟨_, moves_jobs h hg rfl rfl rfl htook rfl ?_ ?_ ?_ fun _ => hmax, .inl rfl⟩
    · simp [Call.num]
    · simp [Call.num]
    · simp [Call.num, hnew, hrunning]

theorem count_pos (hg : s.calls.get id = some call) (hm : slot ∈ call.held) :
    0 < s.calls.count fun _ c => c.has slot call.entry :=
  count_pos_of_get hg (by simp [Call.has, hm])

theorem moves_release (h : Held s) (hg : s.calls.get id = some call) (hp : call.phase = .leaving outcome) :
    ∃ call', Moves s (s.release id call outcome) id call call' ∧
      (call'.phase = call.phase ∨ ∃ outcome, call'.phase = .returned outcome) := by
  have hshaped := h.shaped id call hg
  obtain ⟨repo, hrepo⟩ := h.entry id call hg
  unfold State.release
  split
  · rename_i hheld
    refine ⟨_, moves_phase hg ⟨hshaped.order, hshaped.slots, ?_, ?_, fun _ _ => hheld⟩ ?_, .inr ⟨_, rfl⟩⟩
    · intro he
      cases he
    · intro ha
      cases ha
    · intro identity hv
      cases hv
  · rename_i slot held hheld
    have hgave := hshaped.gave hp hheld
    have hnodup := hshaped.held_nodup
    rw [hheld] at hnodup
    have hnew : slot ∉ held := (nodup_cons.1 hnodup).1
    have hmem : slot ∈ call.held := by simp [hheld]
    have hpos := count_pos hg hmem
    cases slot with
    | admission =>
      obtain ⟨hrunning, hmax⟩ := h.admission _ repo hrepo
      refine ⟨_, moves_entry h hg (fun _ => rfl) rfl rfl rfl hgave rfl ?_ ?_ ?_, .inl rfl⟩
      · simp [Call.num, hheld]
      · intro repo' hrepo'
        cases hrepo.symm.trans hrepo'
        simp only [Call.num, hheld, JobGate.drop, mem_cons_self, if_true, hnew, if_false]
        exact ⟨by omega, fun _ => by omega⟩
      · intro repo' hrepo'
        simp [Call.num, hheld]
    | operation =>
      have hlock := h.operation _ repo hrepo
      have htrue : repo.operation = true := by
        cases hb : repo.operation with
        | true => rfl
        | false =>
          rw [hb] at hlock
          simp only [Bool.toNat_false] at hlock
          omega
      refine ⟨_, moves_entry h hg (fun _ => rfl) rfl rfl rfl hgave rfl ?_ ?_ ?_, .inl rfl⟩
      · simp [Call.num, hheld]
      · intro repo' hrepo'
        simp [Call.num, hheld]
      · intro repo' hrepo'
        cases hrepo.symm.trans hrepo'
        simp [Call.num, hheld, hnew, htrue]
    | job =>
      have hjobs := h.jobs
      have hjob : 0 < s.calls.count fun _ call => decide (Slot.job ∈ call.held) :=
        count_pos_of_get hg (by simp [hheld])
      refine ⟨_, moves_jobs h hg rfl rfl rfl hgave rfl ?_ ?_ ?_ fun _ => ?_, .inl rfl⟩
      · simp [Call.num, hheld]
      · simp [Call.num, hheld]
      · simp only [Call.num, hheld, JobGate.drop, mem_cons_self, if_true, hnew, if_false]
        omega
      · simp only [JobGate.drop]
        omega

end Moves

/-! ## Steps -/

/-- What a step of a call does to its phase. -/
inductive Advances (s : State) (a : Action) (call : Call) : Phase → Prop
  | same : Advances s a call call.phase
  /-- The entry was not cancelled. -/
  | checked (hp : call.phase = .waiting) (repo : Repository) (hrepo : s.entries.get call.entry = some repo)
      (hc : repo.cancelled = false) : Advances s a call .checked
  /-- The path leads to this identity. -/
  | verified (hp : call.phase = .checked) (id : Nat) (disk : Disk) (ha : a = .observe id disk) (identity : WorkspaceIdentity)
      (hi : observeIdentity disk call.requested = .ok identity) : Advances s a call (.verified identity)
  | running (identity : WorkspaceIdentity) (hp : call.phase = .verified identity) : Advances s a call .running
  | leaving (outcome : Outcome) : call.phase.early = true → Advances s a call (.leaving outcome)
  | returned (outcome : Outcome) (o : Outcome) (hp : call.phase = .leaving o) : Advances s a call (.returned outcome)

def Action.call : Action → Option Nat
  | .take id | .busy id | .check id | .observe id _ | .start id | .stop id _ | .release id => some id
  | _ => none

/-- **A step of a call changes the call and one slot.** -/
theorem moves_step {a : Action} (h : Held s) {id : Nat} (ha : a.call = some id) (hn : next s a = some t) :
    ∃ call call', Moves s t id call call' ∧ Advances s a call call'.phase := by
  have hadvance : ∀ {f : Call → Repository → Option State}, s.advance id f = some t →
      ∃ call repo, s.calls.get id = some call ∧ s.entries.get call.entry = some repo ∧ f call repo = some t := by
    intro f hf
    obtain ⟨call, hg, hf⟩ := bind_eq_some_iff.1 hf
    obtain ⟨repo, hrepo, hf⟩ := bind_eq_some_iff.1 hf
    exact ⟨call, repo, hg, hrepo, hf⟩
  cases a with
  | begin | finish | close | enter | acquireJob | dropJob => cases ha
  | take id' =>
    cases ha
    obtain ⟨call, repo, hg, hrepo, hf⟩ := hadvance hn
    obtain ⟨slot, hw, ht⟩ := bind_eq_some_iff.1 hf
    obtain ⟨hp, -⟩ := wants_some (h.shaped id call hg) hw
    obtain ⟨call', hm, hphase | ⟨outcome, hphase⟩⟩ := moves_take h hg hrepo hw ht
    · exact ⟨call, call', hm, hphase ▸ .same⟩
    · exact ⟨call, call', hm, hphase ▸ .leaving outcome (by rw [hp]; rfl)⟩
  | busy id' =>
    cases ha
    obtain ⟨call, repo, hg, hrepo, hf⟩ := hadvance hn
    obtain ⟨slot, hw, ht⟩ := bind_eq_some_iff.1 hf
    obtain ⟨hp, -⟩ := wants_some (h.shaped id call hg) hw
    have hearly : call.phase.early = true := by rw [hp]; rfl
    cases slot with
    | admission | job =>
      simp only [State.busy] at ht
      split at ht
      · cases ht
      · cases ht
        exact ⟨call, _, moves_leave h hg _, .leaving _ hearly⟩
    | operation => cases ht
  | check id' =>
    cases ha
    obtain ⟨call, repo, hg, hrepo, hf⟩ := hadvance hn
    split at hf
    · rename_i hp hw
      have hshaped := h.shaped id call hg
      have hearly : call.phase.early = true := by rw [hp]; rfl
      cases hf
      split
      · exact ⟨call, _, moves_leave h hg _, .leaving _ hearly⟩
      · rename_i hc
        refine ⟨call, _, moves_phase hg (hshaped.advance hearly (wants_none hshaped hp hw) rfl) ?_,
          .checked hp repo hrepo (Bool.eq_false_iff.2 hc)⟩
        intro identity hv
        cases hv
    · cases hf
  | observe id' disk =>
    cases ha
    obtain ⟨call, repo, hg, hrepo, hf⟩ := hadvance hn
    split at hf
    · rename_i hp
      have hshaped := h.shaped id call hg
      have hearly : call.phase.early = true := by rw [hp]; rfl
      split at hf
      · cases hf
        exact ⟨call, _, moves_leave h hg _, .leaving _ hearly⟩
      · rename_i identity hidentity
        cases hf
        split
        · rename_i hsame
          refine ⟨call, _, moves_phase hg (hshaped.advance hearly (hshaped.active (by rw [hp]; rfl)) rfl) ?_,
            .verified hp id disk rfl identity hidentity⟩
          intro identity' hv repo' hrepo'
          cases hrepo.symm.trans hrepo'
          cases hv
          exact hsame.symm
        · exact ⟨call, _, moves_leave h hg _, .leaving _ hearly⟩
    · cases hf
  | start id' =>
    cases ha
    obtain ⟨call, repo, hg, hrepo, hf⟩ := hadvance hn
    split at hf
    · rename_i identity hp
      have hshaped := h.shaped id call hg
      have hearly : call.phase.early = true := by rw [hp]; rfl
      cases hf
      refine ⟨call, _, moves_phase hg (hshaped.advance hearly (hshaped.active (by rw [hp]; rfl)) rfl) ?_, .running _ hp⟩
      intro identity' hv
      cases hv
    · cases hf
  | stop id' outcome =>
    cases ha
    obtain ⟨call, repo, hg, hrepo, hf⟩ := hadvance hn
    split at hf
    · rename_i hp
      cases hf
      exact ⟨call, _, moves_leave h hg _, .leaving _ (by rw [hp]; rfl)⟩
    · cases hf
  | release id' =>
    cases ha
    obtain ⟨call, repo, hg, hrepo, hf⟩ := hadvance hn
    split at hf
    · rename_i outcome hp
      cases hf
      obtain ⟨call', hm, hphase | ⟨outcome', hphase⟩⟩ := moves_release h hg hp
      · exact ⟨call, call', hm, hphase ▸ .same⟩
      · exact ⟨call, call', hm, hphase ▸ .returned outcome' outcome hp⟩
    · cases hf

theorem held_enter (h : Held s) (hb : Bound s) {id : Nat} {requested : String} {exclusive : Bool} {disk : Disk} {call : Call}
    (hnew : s.calls.get id = none) (he : s.enter requested exclusive disk = .ok call) : Held (s.put id call) := by
  have hspec : call.phase = .waiting ∧ call.held = [] ∧ call.taken = [] ∧ call.given = [] ∧
      ∃ repo, s.entries.get call.entry = some repo := by
    unfold State.enter at he
    split at he
    · cases he
    · split at he
      · cases he
      · rename_i entry hentry
        cases he
        obtain ⟨repo, hrepo, -⟩ := hb.table _ _ hentry
        exact ⟨rfl, rfl, rfl, rfl, repo, hrepo⟩
  obtain ⟨hp, hheld, htaken, hgiven, hrepo⟩ := hspec
  have hget : ∀ id' c, (s.put id call).calls.get id' = some c → c = call ∨ s.calls.get id' = some c := by
    intro id' c hg
    simp only [State.put, get_insert s.calls] at hg
    split at hg
    · cases hg
      exact .inl rfl
    · exact .inr hg
  have hcount : ∀ p : Call → Bool, p call = false →
      ((s.put id call).calls.count fun _ c => p c) = s.calls.count fun _ c => p c := by
    intro p hpc
    have hadd := count_insert_of_none (fun _ c => p c) hnew call
    simp only [hpc, Bool.false_eq_true, if_false, Nat.add_zero] at hadd
    exact hadd
  constructor
  case entry =>
    intro id' c hg
    rcases hget id' c hg with rfl | hg
    · exact hrepo
    · exact h.entry id' c hg
  case shaped =>
    intro id' c hg
    rcases hget id' c hg with rfl | hg
    · constructor
      case order => simp [hheld, htaken, hgiven]
      case slots => simp [htaken]
      case early => exact fun _ => hgiven
      case active =>
        intro ha
        rw [hp] at ha
        cases ha
      case returned => exact fun _ _ => hheld
    · exact h.shaped id' c hg
  case verified =>
    intro id' c identity hg hv
    rcases hget id' c hg with rfl | hg
    · rw [hp] at hv
      cases hv
    · exact h.verified id' c identity hg hv
  case admission =>
    intro e repo hrepo
    rw [hcount (fun c => c.has .admission e) (by simp [Call.has, hheld])]
    exact h.admission e repo hrepo
  case operation =>
    intro e repo hrepo
    rw [hcount (fun c => c.has .operation e) (by simp [Call.has, hheld])]
    exact h.operation e repo hrepo
  case jobs =>
    rw [hcount (fun c => decide (Slot.job ∈ c.held)) (by simp [hheld])]
    exact h.jobs
  case jobsMax => exact h.jobsMax

/-- The tables agree, and the gates show what is held. -/
structure Sound (s : State) : Prop where
  bound : Bound s
  held : Held s

theorem sound_new : Sound State.new := by
  refine ⟨⟨⟨fun _ _ => rfl, fun root e h => ?_, fun e repo h => ?_⟩, fun _ => rfl, fun ws slot h => ?_⟩, held_new⟩
  · cases h
  · cases h
  · cases h

/-- **Every step keeps the tables and the gates.** -/
theorem sound_step {a : Action} (h : Sound s) (hn : next s a = some t) : Sound t := by
  by_cases hcall : ∃ id, a.call = some id
  · obtain ⟨id, ha⟩ := hcall
    obtain ⟨call, call', hm, -⟩ := moves_step h.held ha hn
    exact ⟨h.bound.moves h.held hm, h.held.moves hm⟩
  · cases a with
    | begin workspace =>
      simp only [next] at hn
      split at hn
      · cases hn
        exact h
      · rename_i generation u hb
        cases hn
        exact ⟨bound_begin h.bound hb, h.held.kept (kept_begin hb)⟩
    | finish workspace generation environment watcher disk =>
      simp only [next] at hn
      split at hn
      · cases hn
        exact h
      · rename_i done u hf
        cases hn
        exact ⟨bound_finish h.bound hf, h.held.kept (kept_finish h.bound hf)⟩
    | close workspace generation =>
      cases hn
      exact ⟨bound_close h.bound _ _, h.held.kept (kept_close s _ _)⟩
    | enter id requested exclusive disk =>
      simp only [next] at hn
      split at hn
      · cases hn
      · rename_i hnew
        split at hn
        · cases hn
          exact h
        · rename_i call he
          cases hn
          have hnone := contains_eq_false.1 (Bool.eq_false_iff.2 hnew)
          exact ⟨h.bound.same rfl rfl rfl rfl fun _ => rfl, held_enter h.held h.bound hnone he⟩
    | acquireJob =>
      obtain ⟨jobs, hjobs, rfl⟩ := map_eq_some_iff.1 hn
      obtain ⟨hrunning, hmax⟩ := acquire_eq_some hjobs
      refine ⟨h.bound.same rfl rfl rfl rfl fun _ => rfl, ?_⟩
      refine ⟨h.held.entry, h.held.shaped, h.held.verified, h.held.admission, h.held.operation, ?_, hmax⟩
      have hsum := h.held.jobs
      simp only [hrunning]
      omega
    | dropJob =>
      simp only [next] at hn
      split at hn
      · rename_i hpos
        cases hn
        refine ⟨h.bound.same rfl rfl rfl rfl fun _ => rfl, ?_⟩
        have hsum := h.held.jobs
        have hmax := h.held.jobsMax
        refine ⟨h.held.entry, h.held.shaped, h.held.verified, h.held.admission, h.held.operation, ?_, ?_⟩
        · simp only [JobGate.drop]
          omega
        · simp only [JobGate.drop]
          omega
      · cases hn
    | take id | busy id | check id | observe id | start id | stop id | release id => exact absurd ⟨id, rfl⟩ hcall

theorem sound_run {l : List (Transition State Action)} (h : Run l s) : Sound s :=
  h.invariant (fun _ h0 => h0 ▸ sound_new) fun _ _ _ hs hst => sound_step hs hst

end GitRegistry
end Yuzora
