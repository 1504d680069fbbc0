import Yuzora.Watcher
/-!
# WatcherSteps — what one step of the watcher does

`Moves` says once what the callback, the thread and the surroundings can do.  From it the facts on the flag, the
deadline and the sizes.
-/
namespace Yuzora
namespace Watcher

variable {root : Path} {s t : State}

/-- **What a step can do.** -/
inductive Moves (root : Path) (s : State) : Action → State → Prop
  | refuse (n : Notification) : s.callback = .idle → Moves root s (.notify n)
      { s.notice (asks root n) with callback := .refused (asks root n) }
  | skip (n : Notification) : s.callback = .idle → sends root n = some [] → Moves root s (.notify n)
      ((s.notice (asks root n)).log (.reported (asks root n)))
  | send (n : Notification) (paths : List Path) : s.callback = .idle → sends root n = some paths → paths ≠ [] →
      s.queue.length < CHANNEL →
      Moves root s (.notify n) (((s.notice (asks root n)).push paths).log (.reported (asks root n)))
  | swap (paths : List Path) : s.callback = .refused paths → Moves root s .swap (raise s paths)
  | hint : s.callback = .hinting → Moves root s .hint { s.trySend [] with callback := .idle }
  | tick (now : Nat) : s.now ≤ now → Moves root s (.tick now) { s with now }
  | drop : Moves root s .drop { s with stopped := true }
  | wake : s.stopped = true → Moves root s .wake (s.trySend [])
  | finish (chance : Chance) : s.phase = .top → s.stopped = true → Moves root s (.work chance) (s.goto .ended)
  | rest (chance : Chance) : s.phase = .top → s.pending.isEmpty = true →
      Moves root s (.work chance) ((s.log .turn).goto .idle)
  | turn (chance : Chance) : s.phase = .top → s.pending.isEmpty = false →
      Moves root s (.work chance) ((s.log .turn).goto .timed)
  | recv (chance : Chance) (batch : Batch) (queue : List Batch) : s.phase = .idle → s.queue = batch :: queue →
      Moves root s (.work chance) { s with queue, phase := .woken batch }
  | woken (chance : Chance) (batch : Batch) : s.phase = .woken batch → Moves root s (.work chance)
      { s with deadline := advanceIdleDeadline s.deadline s.now, phase := .received (some batch) }
  | park (chance : Chance) : s.phase = .timed → s.queue = [] → Moves root s (.work chance) (s.goto .parked)
  | take (chance : Chance) (batch : Batch) (queue : List Batch) : s.phase = .timed ∨ s.phase = .parked →
      s.queue = batch :: queue → Moves root s (.work chance) { s with queue, phase := .received (some batch) }
  | timeout (chance : Chance) : s.phase = .parked → s.deadline ≤ s.now →
      Moves root s (.work chance) (s.goto (.received none))
  | stopping (chance : Chance) (batch : Option Batch) : s.phase = .received batch → s.stopped = true →
      Moves root s (.work chance) (s.goto .ended)
  | extending (chance : Chance) (batch : Option Batch) : s.phase = .received batch →
      Moves root s (.work chance) (s.goto (.extending batch))
  | nothing (chance : Chance) : s.phase = .extending none → Moves root s (.work chance) (s.goto .checking)
  | absorb (chance : Chance) (batch : Batch) : s.phase = .extending (some batch) →
      Moves root s (.work chance) (absorb root chance batch s)
  | check (chance : Chance) : s.phase = .checking → Moves root s (.work chance)
      { s with pending := if s.overflow then s.pending.invalidateRoot else s.pending, phase := .timing }
  | early (chance : Chance) : s.phase = .timing → Moves root s (.work chance) (s.goto .top)
  | due (chance : Chance) : s.phase = .timing → Moves root s (.work chance) (s.goto .swapping)
  | clear (chance : Chance) : s.phase = .swapping → s.overflow = false → Moves root s (.work chance) (s.goto .gate)
  | cleared (chance : Chance) : s.phase = .swapping → s.overflow = true →
      Moves root s (.work chance) { s with overflow := false, phase := .reloading }
  | reload (chance : Chance) : s.phase = .reloading → Moves root s (.work chance)
      { s.load chance.rules with pending := s.pending.invalidateRoot, phase := .gate }
  | shut (chance : Chance) : s.phase = .gate → s.stopped = true → Moves root s (.work chance) (s.goto .resetting)
  | open_ (chance : Chance) : s.phase = .gate → Moves root s (.work chance) (s.goto .classifying)
  | none (chance : Chance) : s.phase = .classifying → s.pending.isEmpty = true →
      Moves root s (.work chance) (s.goto .resetting)
  | some (chance : Chance) (changes : List Path) (gitRelevant : Bool) : s.phase = .classifying →
      takeClassified root chance.visit s.stopped chance.gitAllowed chance.git s.pending = .some (changes, gitRelevant) →
      Moves root s (.work chance) { s.log (.took chance.gitAllowed chance.git) with
        pending := s.pending.taken, phase := .handing changes gitRelevant }
  | withheld (chance : Chance) (changes : List Path) (gitRelevant : Bool) : s.phase = .handing changes gitRelevant →
      s.stopped = true → Moves root s (.work chance) (s.goto .resetting)
  | hand (chance : Chance) (changes : List Path) (gitRelevant : Bool) : s.phase = .handing changes gitRelevant →
      Moves root s (.work chance) (s.goto (.calling changes gitRelevant))
  | call (chance : Chance) (changes : List Path) (gitRelevant : Bool) : s.phase = .calling changes gitRelevant →
      Moves root s (.work chance) ((s.log (.delivered changes gitRelevant)).goto .resetting)
  | reset (chance : Chance) : s.phase = .resetting → Moves root s (.work chance)
      { s.log .window with deadline := s.now + COALESCE_INTERVAL, phase := .top }

variable {pending : PendingChanges}

theorem takeClassified_none {visit : Visit (Path × Bool)} {cancel gitAllowed : Bool} {git : Git} (h : takeClassified root visit cancel gitAllowed git pending = none) :
    pending.isEmpty = true := by
  unfold takeClassified at h
  split at h
  · assumption
  · split at h
    · cases h
    · cases h

theorem moves_of_work {chance : Chance} (h : work root chance s = some t) : Moves root s (.work chance) t := by
  unfold work at h
  split at h
  case h_1 hp =>
    split at h
    · cases h
      exact .finish chance hp ‹_›
    · cases h
      cases he : s.pending.isEmpty with
      | true => exact .rest chance hp he
      | false => exact .turn chance hp he
  case h_2 hp =>
    split at h
    · cases h
    · cases h
      exact .recv chance _ _ hp ‹_›
  case h_3 batch hp =>
    cases h
    exact .woken chance batch hp
  case h_4 hp =>
    split at h
    · cases h
      exact .park chance hp ‹_›
    · cases h
      exact .take chance _ _ (.inl hp) ‹_›
  case h_5 hp =>
    split at h
    · cases h
      exact .take chance _ _ (.inr hp) ‹_›
    · obtain ⟨hd, he⟩ := Option.ite_none_right_eq_some.1 h
      cases he
      exact .timeout chance hp hd
  case h_6 batch hp =>
    cases h
    cases hs : s.stopped with
    | true => exact .stopping chance batch hp hs
    | false => exact .extending chance batch hp
  case h_7 hp =>
    cases h
    exact .nothing chance hp
  case h_8 batch hp =>
    cases h
    exact .absorb chance batch hp
  case h_9 hp =>
    cases h
    exact .check chance hp
  case h_10 hp =>
    cases h
    split
    · exact .early chance hp
    · exact .due chance hp
  case h_11 hp =>
    cases h
    cases ho : s.overflow with
    | true => exact .cleared chance hp ho
    | false =>
      have heq : { s with overflow := false, phase := Phase.gate } = s.goto .gate := by
        rw [← ho]
        rfl
      rw [if_neg Bool.false_ne_true, heq]
      exact .clear chance hp ho
  case h_12 hp =>
    cases h
    exact .reload chance hp
  case h_13 hp =>
    cases h
    cases hs : s.stopped with
    | true => exact .shut chance hp hs
    | false => exact .open_ chance hp
  case h_14 hp =>
    split at h
    · cases h
      exact .none chance hp (takeClassified_none ‹_›)
    · cases h
      exact .some chance _ _ hp ‹_›
  case h_15 changes gitRelevant hp =>
    cases h
    cases hs : s.stopped with
    | true => exact .withheld chance changes gitRelevant hp hs
    | false => exact .hand chance changes gitRelevant hp
  case h_16 changes gitRelevant hp =>
    cases h
    exact .call chance changes gitRelevant hp
  case h_17 hp =>
    cases h
    exact .reset chance hp
  case h_18 => cases h

variable {a : Action} {isDir : Path → Bool}

theorem moves_of_next (h : next root s a = some t) : Moves root s a t := by
  cases a with
  | notify n =>
    obtain ⟨hc, he⟩ := Option.ite_none_right_eq_some.1 h
    cases he
    unfold notify
    dsimp only
    split
    · exact .refuse n hc
    · exact .skip n hc ‹_›
    · rename_i paths hne hs
      split
      · rename_i hq
        exact .send n paths hc hs hne hq
      · exact .refuse n hc
  | swap =>
    dsimp only [next] at h
    split at h
    · cases h
      exact .swap _ ‹_›
    · cases h
  | hint =>
    obtain ⟨hc, he⟩ := Option.ite_none_right_eq_some.1 h
    cases he
    exact .hint hc
  | work chance => exact moves_of_work h
  | tick now =>
    obtain ⟨hn, he⟩ := Option.ite_none_right_eq_some.1 h
    cases he
    exact .tick now hn
  | drop =>
    cases h
    exact .drop
  | wake =>
    obtain ⟨hs, he⟩ := Option.ite_none_right_eq_some.1 h
    cases he
    exact .wake hs

/-! ## Fields -/

section Fields
variable (root : Path) (chance : Chance) (batch : Batch) (s : State) (paths : List Path)

@[simp] theorem absorb_phase : (absorb root chance batch s).phase = .checking := rfl

@[simp] theorem absorb_journal :
    (absorb root chance batch s).journal = s.journal ++ (classifies root chance batch s).map .classified := rfl

@[simp] theorem absorb_pending : (absorb root chance batch s).pending =
    (extend root chance.rules chance.isDir batch.paths s.rules s.pending).2 := rfl

@[simp] theorem absorb_queue : (absorb root chance batch s).queue = s.queue := by
  unfold absorb
  split <;> rfl

@[simp] theorem absorb_overflow : (absorb root chance batch s).overflow = s.overflow := by
  unfold absorb
  split <;> rfl

@[simp] theorem absorb_rest :
    (absorb root chance batch s).stopped = s.stopped ∧ (absorb root chance batch s).callback = s.callback ∧
    (absorb root chance batch s).now = s.now ∧ (absorb root chance batch s).deadline = s.deadline := by
  unfold absorb
  split <;> exact ⟨rfl, rfl, rfl, rfl⟩

@[simp] theorem absorb_notices : (absorb root chance batch s).notices = s.notices := by
  unfold absorb
  split <;> rfl

theorem absorb_loads : (absorb root chance batch s).loads =
    if batch.paths.any (changesRules root) then s.loads ++ [chance.rules] else s.loads := by
  unfold absorb
  split <;> rfl

theorem absorb_loadedAt : (absorb root chance batch s).loadedAt =
    if batch.paths.any (changesRules root) then s.notices.length else s.loadedAt := by
  unfold absorb
  split <;> rfl

theorem trySend_cases : s.trySend paths = s ∨ s.queue.length < CHANNEL ∧ s.trySend paths = s.push paths := by
  unfold State.trySend
  split
  · exact .inr ⟨‹_›, rfl⟩
  · exact .inl rfl

@[simp] theorem trySend_rest : (s.trySend paths).pending = s.pending ∧ (s.trySend paths).phase = s.phase ∧
    (s.trySend paths).stopped = s.stopped ∧ (s.trySend paths).overflow = s.overflow ∧
    (s.trySend paths).now = s.now ∧ (s.trySend paths).deadline = s.deadline ∧ (s.trySend paths).loads = s.loads ∧
    (s.trySend paths).loadedAt = s.loadedAt ∧ (s.trySend paths).notices = s.notices ∧
    (s.trySend paths).journal = s.journal ∧ (s.trySend paths).callback = s.callback := by
  unfold State.trySend
  split <;> exact ⟨rfl, rfl, rfl, rfl, rfl, rfl, rfl, rfl, rfl, rfl, rfl⟩

theorem trySend_queue_ne_nil : (s.trySend paths).queue ≠ [] := by
  unfold State.trySend
  split
  · simp [State.push]
  · rename_i hfull
    intro hnil
    rw [hnil] at hfull
    exact hfull (by decide)

end Fields

/-! ## The flag, the deadline and the sizes -/

def Phase.popped : Phase → Bool
  | .woken _ | .received _ | .extending _ | .checking => true
  | _ => false

def Phase.late : Phase → Bool
  | .reloading | .gate | .classifying | .handing _ _ | .calling _ _ | .resetting => true
  | _ => false

def Phase.spent : Phase → Bool
  | .handing _ _ | .calling _ _ | .resetting => true
  | _ => false

structure Facts (s : State) : Prop where
  calm : s.phase = .idle → s.pending.isEmpty = true
  flag : s.overflow = true → s.phase ≠ .ended → s.queue ≠ [] ∨ s.callback = .hinting ∨ s.phase.popped = true ∨
    s.pending.rescan = true ∧ s.phase.late = false
  spent : s.phase.spent = true → s.stopped = true ∨ s.pending.isEmpty = true
  clean : s.pending.rescan = true → s.pending.paths.entries = []
  deadline : s.deadline ≤ s.now + COALESCE_INTERVAL
  buffered : s.pending.paths.size ≤ CAPACITY
  queued : s.queue.length ≤ CHANNEL

theorem advanceIdleDeadline_le {deadline now : Nat} (h : deadline ≤ now + COALESCE_INTERVAL) :
    advanceIdleDeadline deadline now ≤ now + COALESCE_INTERVAL := by
  unfold advanceIdleDeadline
  split
  · exact h
  · split
    · exact Nat.le_add_right _ _
    · exact Nat.sub_le _ _

theorem addPaths_facts {rules : Rules} : ∀ {batch : List Path} {pending : PendingChanges},
    pending.paths.size ≤ CAPACITY → (pending.rescan = true → pending.paths.entries = []) → pending.rescan = false →
      (addPaths root rules isDir batch pending).paths.size ≤ CAPACITY ∧
        ((addPaths root rules isDir batch pending).rescan = true →
          (addPaths root rules isDir batch pending).paths.entries = [])
  | [], _, hs, hc, _ => ⟨hs, hc⟩
  | path :: batch, pending, hs, hc, hr => by
    rw [addPaths]
    split
    · exact ⟨Nat.zero_le _, fun _ => rfl⟩
    · rename_i hle
      refine addPaths_facts (Nat.le_of_not_lt hle) (fun h => ?_) hr
      rw [show ({ pending with paths := enter pending.paths (pendingAs root rules isDir path) } :
        PendingChanges).rescan = pending.rescan from rfl, hr] at h
      cases h

theorem extend_facts {reloaded rules : Rules} {batch : List Path}
    (hs : pending.paths.size ≤ CAPACITY) (hc : pending.rescan = true → pending.paths.entries = []) :
    (extend root reloaded isDir batch rules pending).2.paths.size ≤ CAPACITY ∧
      ((extend root reloaded isDir batch rules pending).2.rescan = true →
        (extend root reloaded isDir batch rules pending).2.paths.entries = []) := by
  unfold extend
  cases hr : pending.rescan with
  | true => exact ⟨hs, hc⟩
  | false => exact addPaths_facts hs hc hr

theorem facts_start (rules : Rules) (now : Nat) : Facts (.start rules now) where
  calm h := by cases h
  flag h _ := by cases h
  spent h := by cases h
  clean h := by cases h
  deadline := le_refl _
  buffered := Nat.zero_le _
  queued := Nat.zero_le _

theorem flag_step (h : Facts s) (hm : Moves root s a t) (ho : t.overflow = true) (he : t.phase ≠ .ended) :
    t.queue ≠ [] ∨ t.callback = .hinting ∨ t.phase.popped = true ∨ t.pending.rescan = true ∧ t.phase.late = false := by
  have hf := h.flag
  cases hm
  case swap paths hc =>
    by_cases hs : s.overflow = true
    · have hset := hf hs he
      simp_all [raise, State.log]
    · simp [raise, hs]
  case hint | wake => exact .inl (trySend_queue_ne_nil s [])
  case reset chance hp =>
    have hne : s.phase ≠ .ended := by simp [hp]
    rcases hf ho hne with hq | hc | hpop | ⟨-, hlate⟩
    · exact .inl hq
    · exact .inr (.inl hc)
    · simp [hp, Phase.popped] at hpop
    · simp [hp, Phase.late] at hlate
  all_goals simp_all [State.goto, State.log, State.push, State.notice, State.load, Phase.popped, Phase.late,
    PendingChanges.isEmpty, PendingChanges.invalidateRoot]

theorem taken_isEmpty (h : pending.rescan = true → pending.paths.entries = []) : pending.taken.isEmpty = true := by
  unfold PendingChanges.taken PendingChanges.isEmpty
  cases hr : pending.rescan with
  | true => simp [h hr]
  | false => simp [Table.empty]

theorem facts_step (h : Facts s) (hm : Moves root s a t) : Facts t where
  flag := flag_step h hm
  calm := by
    have hcalm := h.calm
    cases hm
    all_goals simp_all [State.goto, State.log, State.push, State.notice, raise]
  spent := by
    have hspent := h.spent
    have htaken := taken_isEmpty h.clean
    cases hm
    all_goals simp_all [State.goto, State.log, State.push, State.notice, State.load, raise, Phase.spent]
  clean := by
    have hclean := h.clean
    cases hm
    case hint | wake => simpa using hclean
    case absorb chance batch hp => exact (extend_facts h.buffered hclean).2
    case check chance hp =>
      split
      · exact fun _ => rfl
      · exact hclean
    case reload chance hp => exact fun _ => rfl
    case some chance changes gitRelevant hp htake => exact nofun
    all_goals exact hclean
  deadline := by
    have hd := h.deadline
    cases hm
    case hint | wake | absorb => simpa using hd
    case tick now hn => exact hd.trans (Nat.add_le_add_right hn _)
    case woken chance batch hp => exact advanceIdleDeadline_le hd
    case reset chance hp => exact le_refl _
    all_goals exact hd
  buffered := by
    have hb := h.buffered
    cases hm
    case hint | wake => simpa using hb
    case absorb chance batch hp => exact (extend_facts hb h.clean).1
    case check chance hp =>
      split
      · exact Nat.zero_le _
      · exact hb
    case reload chance hp => exact Nat.zero_le _
    case some chance changes gitRelevant hp htake =>
      unfold PendingChanges.taken
      split
      · exact hb
      · exact Nat.zero_le _
    all_goals exact hb
  queued := by
    have hq := h.queued
    have hsend : (s.trySend []).queue.length ≤ CHANNEL := by
      rcases trySend_cases s [] with he | ⟨hlt, he⟩
      · rwa [he]
      · rw [he]
        exact (List.length_append).trans_le (Nat.succ_le_of_lt hlt)
    cases hm
    case send n paths hc hs hne hlt => exact (List.length_append).trans_le (Nat.succ_le_of_lt hlt)
    case hint | wake => exact hsend
    case recv _ _ _ _ he | take _ _ _ _ he =>
      rw [he] at hq
      exact (Nat.le_succ _).trans hq
    case absorb chance batch hp => simpa using hq
    all_goals exact hq

end Watcher
end Yuzora
