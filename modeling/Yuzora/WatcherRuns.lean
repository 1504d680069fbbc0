import Yuzora.WatcherSteps
/-!
# WatcherRuns — what is reported is handed over

What a notification asks for is on its way (`Way`) until a delivery covers it: in the channel, in the thread's hand,
pending, or under the flag.  A count of windows bounds how long that lasts.
-/
namespace Yuzora
namespace Watcher

open List

variable {root : Path} {s t : State}

/-! ## What is to hold -/

/-- The entry stands for the path: it is the root, what the path is pending as, or a directory above that which rules
ignored. -/
def Stands (root : Path) (loads : List Rules) (path entry : Path) : Prop :=
  entry = root ∨ entry = (excludeDirectory root path).getD path ∨
    entry ∈ directories root ((excludeDirectory root path).getD path) ∧ ∃ rules ∈ loads, rules.ignores entry true = true

def Covers (root : Path) (loads : List Rules) (path : Path) (changes : List Path) : Prop :=
  ∃ entry ∈ changes, Stands root loads path entry

def Delivered (root : Path) (loads : List Rules) (path : Path) (later : List Event) : Prop :=
  ∃ changes gitRelevant, .delivered changes gitRelevant ∈ later ∧ Covers root loads path changes

def Event.isTurn : Event → Bool
  | turn => true
  | _ => false

def Event.isWindow : Event → Bool
  | window => true
  | _ => false

def turns (l : List Event) : Nat := l.countP Event.isTurn

def windows (l : List Event) : Nat := l.countP Event.isWindow

def Event.reported? : Event → Option (List Path)
  | reported paths => some paths
  | _ => none

def Callback.waiting : Callback → List (List Path)
  | .refused paths => [paths]
  | _ => []

def Pends (root : Path) (loads : List Rules) (path : Path) (pending : PendingChanges) : Prop :=
  pending.rescan = true ∨ ∃ e ∈ pending.paths.entries, Stands root loads path e.1

/-! ## Coalescing -/

variable {loads : List Rules} {path : Path} {isDir : Path → Bool} {rules : Rules}

theorem stands_of_pendingAs (hr : rules ∈ loads) : Stands root loads path (pendingAs root rules isDir path).1 := by
  unfold pendingAs coalescePath
  generalize hq : (excludeDirectory root path).getD path = q
  split
  · rename_i directory hf
    refine .inr (.inr ?_)
    rw [hq]
    exact ⟨mem_of_find?_eq_some hf, rules, hr, by simpa using find?_some hf⟩
  · refine .inr (.inl ?_)
    rw [hq]
    split <;> rfl

variable {loads' : List Rules}

theorem Stands.mono {path entry : Path} (h : Stands root loads path entry)
    (hl : ∀ r ∈ loads, r ∈ loads') : Stands root loads' path entry :=
  h.imp id (·.imp id fun ⟨hd, rules, hr, hi⟩ => ⟨hd, rules, hl rules hr, hi⟩)

variable {changes : List Path}

theorem Covers.mono (h : Covers root loads path changes)
    (hl : ∀ r ∈ loads, r ∈ loads') : Covers root loads' path changes := by
  obtain ⟨entry, he, hs⟩ := h
  exact ⟨entry, he, hs.mono hl⟩

theorem Delivered.mono {later : List Event} (h : Delivered root loads path later)
    (hl : ∀ r ∈ loads, r ∈ loads') (more : List Event) : Delivered root loads' path (later ++ more) := by
  obtain ⟨changes, gitRelevant, hd, hc⟩ := h
  exact ⟨changes, gitRelevant, mem_append_left _ hd, hc.mono hl⟩

variable {pending : PendingChanges}

theorem Pends.mono
    (h : Pends root loads path pending) (hl : ∀ r ∈ loads, r ∈ loads') : Pends root loads' path pending :=
  h.imp id fun ⟨e, he, hs⟩ => ⟨e, he, hs.mono hl⟩

theorem not_pends_of_isEmpty (h : pending.isEmpty = true) : ¬ Pends root loads path pending := by
  unfold PendingChanges.isEmpty at h
  rw [Bool.and_eq_true, Bool.not_eq_true', List.isEmpty_iff] at h
  rintro (hr | ⟨e, he, -⟩)
  · rw [h.1] at hr
    cases hr
  · rw [h.2] at he
    cases he

theorem mem_enter {paths : Table Path Bool} {entry : Path × Bool} {key : Path} :
    (∃ e ∈ (enter paths entry).entries, e.1 = key) ↔ key = entry.1 ∨ ∃ e ∈ paths.entries, e.1 = key := by
  have hkeys : ∀ table : Table Path Bool, (∃ e ∈ table.entries, e.1 = key) ↔ ∃ v, table.get key = some v := by
    intro table
    constructor
    · rintro ⟨e, he, rfl⟩
      exact ⟨e.2, Table.get_eq_some.2 he⟩
    · rintro ⟨v, hv⟩
      exact ⟨(key, v), Table.get_eq_some.1 hv, rfl⟩
  rw [hkeys, hkeys, enter]
  by_cases h : key = entry.1
  · subst h
    simp
  · simp [Table.get_insert, h]

theorem pends_addPaths : ∀ {batch : List Path} {pending : PendingChanges}, Pends root loads path pending →
      Pends root loads path (addPaths root rules isDir batch pending)
  | [], _, h => h
  | next :: batch, pending, h => by
    rw [addPaths]
    split
    · exact .inl rfl
    · refine pends_addPaths ?_
      rcases h with hr | ⟨e, he, hs⟩
      · exact .inl hr
      · obtain ⟨e', he', hkey⟩ := mem_enter.2 (.inr ⟨e, he, rfl⟩)
        exact .inr ⟨e', he', hkey.symm ▸ hs⟩

theorem pends_of_mem (hr : rules ∈ loads) : ∀ {batch : List Path} {pending : PendingChanges}, path ∈ batch →
      Pends root loads path (addPaths root rules isDir batch pending)
  | next :: batch, pending, h => by
    rw [addPaths]
    split
    · exact .inl rfl
    · rcases mem_cons.1 h with rfl | h
      · refine pends_addPaths (.inr ?_)
        obtain ⟨e, he, hkey⟩ := mem_enter.2 (.inl rfl)
        exact ⟨e, he, hkey.symm ▸ stands_of_pendingAs hr⟩
      · exact pends_of_mem hr h

variable {gitRelevant : Bool}

theorem covers_of_take {visit : Visit (Path × Bool)} {cancel gitAllowed : Bool} {git : Git}
    (h : takeClassified root visit cancel gitAllowed git pending = some (changes, gitRelevant))
    (hp : Pends root loads path pending) : Covers root loads path changes := by
  unfold takeClassified at h
  split at h
  · cases h
  · split at h
    · cases h
      exact ⟨root, mem_singleton_self _, .inl rfl⟩
    · rename_i hr
      cases h
      obtain ⟨e, he, hs⟩ := hp.resolve_left hr
      exact ⟨e.1, mem_map.2 ⟨e, (visit.perm _).mem_iff.2 he, rfl⟩, hs⟩

/-! ## On the way -/

def Phase.held : Phase → Option Batch
  | .woken batch | .received (.some batch) | .extending (.some batch) => some batch
  | _ => none

def Phase.debt : Phase → Nat
  | .idle | .timed => 1
  | _ => 0

def Phase.lateness (phase : Phase) : Nat := if phase.late then 1 else 0

def Phase.slack : Phase → Nat
  | .top | .ended => 1
  | _ => 0

def Phase.inHand : Phase → Option (List Path)
  | .handing changes _ | .calling changes _ => some changes
  | _ => none

/-- Where a reported path is, after so many turns and windows. -/
inductive Stage (root path : Path) (turns windows : Nat) (s : State) : Prop
  | queued (before : List Batch) (batch : Batch) (after : List Batch) : s.queue = before ++ batch :: after →
      path ∈ batch.paths → turns + before.length < CHANNEL + s.phase.debt → (s.phase = .parked → turns = 0) →
      Stage root path turns windows s
  | held (batch : Batch) : s.phase.held = some batch → path ∈ batch.paths → windows ≤ CHANNEL →
      Stage root path turns windows s
  | pending : Pends root s.loads path s.pending → windows ≤ CHANNEL → Stage root path turns windows s
  | flagged : s.overflow = true → windows + s.phase.lateness ≤ 1 → Stage root path turns windows s
  | reloading : s.phase = .reloading → windows ≤ 1 → Stage root path turns windows s
  | inHand (changes : List Path) : s.phase.inHand = some changes → Covers root s.loads path changes →
      windows ≤ CHANNEL → Stage root path turns windows s

/-- A reported path was covered since, or the watcher is to stop, or the path is on its way. -/
def Way (root : Path) (path : Path) (later : List Event) (s : State) : Prop :=
  Delivered root s.loads path later ∨ s.stopped = true ∨ Stage root path (turns later) (windows later) s

def Ways (root : Path) (s : State) : Prop :=
  ∀ earlier paths later, s.journal = earlier ++ .reported paths :: later →
    windows later ≤ turns later + s.phase.slack ∧ ∀ path ∈ paths, Way root path later s

section Stages
variable {k w : Nat}

theorem turns_append (l m : List Event) : turns (l ++ m) = turns l + turns m := countP_append

theorem windows_append (l m : List Event) : windows (l ++ m) = windows l + windows m := countP_append

theorem split_append {l es earlier later : List Event} {e : Event} (he : e ∉ es)
    (h : l ++ es = earlier ++ e :: later) : ∃ mid, later = mid ++ es ∧ l = earlier ++ e :: mid := by
  rcases append_eq_append_iff.1 h with ⟨m, rfl, hes⟩ | ⟨m, hl, hes⟩
  · exact absurd (hes ▸ mem_append_right _ mem_cons_self) he
  · cases m with
    | nil =>
      rw [nil_append] at hes
      exact absurd (hes ▸ mem_cons_self) he
    | cons x m =>
      cases hes
      exact ⟨m, rfl, hl⟩

theorem Ways.step (h : Ways root s) (es : List Event) (hj : t.journal = s.journal ++ es)
    (hno : ∀ paths, .reported paths ∉ es) (hl : ∀ r ∈ s.loads, r ∈ t.loads) (hst : s.stopped = true → t.stopped = true)
    (hpace : s.phase.slack + windows es ≤ turns es + t.phase.slack)
    (hstage : ∀ path k w, w ≤ k + s.phase.slack → Stage root path k w s → Delivered root t.loads path es ∨
      t.stopped = true ∨ Stage root path (k + turns es) (w + windows es) t) : Ways root t := by
  intro earlier paths later he
  rw [hj] at he
  obtain ⟨mid, rfl, hs⟩ := split_append (hno paths) he
  obtain ⟨hp, hw⟩ := h earlier paths mid hs
  rw [turns_append, windows_append]
  refine ⟨by omega, fun path hmem => ?_⟩
  rcases hw path hmem with hd | hstop | hstg
  · exact .inl (hd.mono hl es)
  · exact .inr (.inl (hst hstop))
  · rcases hstage path _ _ hp hstg with ⟨changes, gitRelevant, hd, hc⟩ | hrest
    · exact .inl ⟨changes, gitRelevant, mem_append_right _ hd, hc⟩
    · rw [Way, turns_append, windows_append]
      exact .inr hrest

theorem Ways.report (h : Ways root s) {paths : List Path} (hj : t.journal = s.journal ++ [Event.reported paths])
    (hl : t.loads = s.loads) (hst : t.stopped = s.stopped) (hph : t.phase = s.phase)
    (hnew : ∀ path ∈ paths, Stage root path 0 0 t) (hstage : ∀ path k w, Stage root path k w s → Stage root path k w t) :
    Ways root t := by
  intro earlier paths' later he
  rw [hj] at he
  rcases eq_nil_or_concat later with rfl | ⟨later', x, rfl⟩
  · obtain ⟨-, hlast⟩ := append_inj' he rfl
    obtain rfl := Event.reported.inj (head_eq_of_cons_eq hlast)
    exact ⟨Nat.zero_le _, fun path hp => .inr (.inr (hnew path hp))⟩
  · rw [concat_eq_append, ← cons_append, ← append_assoc] at he
    obtain ⟨hs, hlast⟩ := append_inj' he rfl
    obtain rfl := head_eq_of_cons_eq hlast
    obtain ⟨hp, hw⟩ := h earlier paths' later' hs
    have hturns : turns (later' ++ [Event.reported paths]) = turns later' := turns_append _ _
    have hwindows : windows (later' ++ [Event.reported paths]) = windows later' := windows_append _ _
    rw [concat_eq_append, hturns, hwindows, hph]
    refine ⟨hp, fun path hmem => ?_⟩
    rw [Way, hturns, hwindows]
    rcases hw path hmem with hd | hstop | hstg
    · exact .inl (hd.mono (fun r hr => hl ▸ hr) _)
    · exact .inr (.inl (hst.trans hstop))
    · exact .inr (.inr (hstage path _ _ hstg))

section
variable (h : Stage root path k w s)
include h

theorem Stage.keep (hq : s.queue <+: t.queue) (hl : ∀ r ∈ s.loads, r ∈ t.loads)
    (hpend : Pends root s.loads path s.pending → Pends root t.loads path t.pending)
    (ho : s.overflow = true → t.overflow = true ∧ t.phase.lateness ≤ s.phase.lateness)
    (hd : s.phase.debt ≤ t.phase.debt) (hpark : t.phase = .parked → s.phase = .parked)
    (hheld : ∀ batch, s.phase.held = some batch → t.phase.held = some batch)
    (hreload : s.phase = .reloading → t.phase = .reloading)
    (hhand : ∀ changes, s.phase.inHand = some changes → t.phase.inHand = some changes) : Stage root path k w t := by
  cases h with
  | queued before batch after hsq hp hk hz =>
    obtain ⟨more, hmore⟩ := hq
    refine .queued before batch (after ++ more) ?_ hp (by omega) fun h => hz (hpark h)
    rw [← hmore, hsq, append_assoc]
    rfl
  | held batch hb hp hw => exact .held batch (hheld batch hb) hp hw
  | pending hp hw => exact .pending (hpend hp) hw
  | flagged hof hw =>
    obtain ⟨hto, hlate⟩ := ho hof
    exact .flagged hto (by omega)
  | reloading hr hw => exact .reloading (hreload hr) hw
  | inHand changes hc hcov hw => exact .inHand changes (hhand changes hc) (hcov.mono hl) hw

theorem Stage.aside (hq : s.queue <+: t.queue) (hl : t.loads = s.loads)
    (hpend : t.pending = s.pending) (ho : s.overflow = true → t.overflow = true) (hph : t.phase = s.phase) :
    Stage root path k w t := by
  refine h.keep hq (fun r hr => hl ▸ hr) (fun hp => ?_) (fun h => ⟨ho h, ?_⟩) ?_ ?_ ?_ ?_ ?_
  · rw [hl, hpend]
    exact hp
  all_goals simp [hph]

theorem Stage.goto (phase : Phase) (ho : s.overflow = true → phase.lateness ≤ s.phase.lateness)
    (hd : s.phase.debt ≤ phase.debt) (hpark : phase = .parked → s.phase = .parked)
    (hheld : ∀ batch, s.phase.held = some batch → phase.held = some batch)
    (hreload : s.phase ≠ .reloading)
    (hhand : ∀ changes, s.phase.inHand = some changes → phase.inHand = some changes) :
    Stage root path k w (s.goto phase) :=
  h.keep prefix_rfl (fun _ hr => hr) (fun hp => hp) (fun h => ⟨h, ho h⟩) hd hpark hheld
    (fun h => absurd h hreload) hhand

theorem Stage.pop {batch : Batch} {queue : List Batch} {phase : Phase}
    (hq : s.queue = batch :: queue) (hsph : s.phase = .idle ∨ s.phase = .timed ∨ s.phase = .parked)
    (hph : phase.held = some batch) (hlate : phase.lateness = 0) (hpark : phase ≠ .parked)
    (hw : w ≤ k) : Stage root path k w { s with queue, phase } := by
  have hdebt' : s.phase.debt ≤ 1 := by
    rcases hsph with h | h | h <;> simp [h, Phase.debt]
  cases h with
  | queued before batch' after hsq hp hk hz =>
    rw [hq] at hsq
    have hk1 : k ≤ CHANNEL := by
      rcases Nat.eq_zero_or_pos k with h0 | hpos
      · omega
      · omega
    cases before with
    | nil =>
      cases hsq
      exact .held batch hph hp (hw.trans hk1)
    | cons first before =>
      cases hsq
      refine .queued before batch' after rfl hp ?_ fun h => absurd h hpark
      rw [length_cons] at hk
      omega
  | held batch' hb hp hw => rcases hsph with h | h | h <;> simp [h, Phase.held] at hb
  | pending hp hw => exact .pending hp hw
  | flagged hof hlw =>
    refine .flagged hof ?_
    dsimp only
    omega
  | reloading hr hw => rcases hsph with h | h | h <;> simp [h] at hr
  | inHand changes hc hcov hw => rcases hsph with h | h | h <;> simp [h, Phase.inHand] at hc

end

end Stages

/-! ## One step -/

theorem asks_of_sends {n : Notification} {paths : List Path} (h : sends root n = some paths) : asks root n = paths := by
  unfold sends at h
  split at h
  · cases h
  · cases h
  · cases h
    rfl
  · unfold asks
    split at h
    · cases h
    · rename_i hle
      cases h
      exact if_neg hle

variable {chance : Chance} {batch : Batch}

theorem rules_mem_absorb (h : s.rules ∈ s.loads) :
    (absorb root chance batch s).rules ∈ (absorb root chance batch s).loads := by
  rw [absorb_loads]
  change (extend root chance.rules chance.isDir batch.paths s.rules s.pending).1 ∈ _
  unfold extend
  split
  · exact mem_concat_self
  · exact h

theorem loads_subset_absorb : ∀ r ∈ s.loads, r ∈ (absorb root chance batch s).loads := by
  intro r hr
  rw [absorb_loads]
  split
  · exact mem_append_left _ hr
  · exact hr

theorem rules_mem_step {a : Action} (h : s.rules ∈ s.loads) (hm : Moves root s a t) : t.rules ∈ t.loads := by
  cases hm
  case hint | wake =>
    rcases trySend_cases s [] with he | ⟨-, he⟩
    · simpa [he] using h
    · rw [he]
      exact h
  case absorb chance batch hp => exact rules_mem_absorb h
  case reload chance hp => exact mem_concat_self
  all_goals exact h

theorem turns_classified (cs : List Classified) : turns (cs.map .classified) = 0 :=
  countP_eq_zero.2 fun e he => by
    obtain ⟨c, -, rfl⟩ := mem_map.1 he
    simp [Event.isTurn]

theorem windows_classified (cs : List Classified) : windows (cs.map .classified) = 0 :=
  countP_eq_zero.2 fun e he => by
    obtain ⟨c, -, rfl⟩ := mem_map.1 he
    simp [Event.isWindow]

section Step
variable {k w : Nat}

section
variable (h : Stage root path k w s)
include h

theorem Stage.absorb {batch : Batch} (hr : s.rules ∈ s.loads)
    (hp : s.phase = .extending (some batch)) : Stage root path k w (Watcher.absorb root chance batch s) := by
  cases h with
  | queued before batch' after hsq hmem hk hz =>
    refine .queued before batch' after (by simpa using hsq) hmem ?_ (by simp)
    simpa [hp, Phase.debt] using hk
  | held batch' hb hmem hw =>
    rw [hp] at hb
    cases hb
    refine .pending ?_ hw
    rw [absorb_pending]
    unfold extend
    dsimp only
    split
    · rename_i hrescan
      exact .inl hrescan
    · exact pends_of_mem (rules_mem_absorb hr) hmem
  | pending hpend hw =>
    refine .pending ?_ hw
    rw [absorb_pending]
    unfold extend
    dsimp only
    split
    · exact hpend.mono loads_subset_absorb
    · exact pends_addPaths (hpend.mono loads_subset_absorb)
  | flagged hof hw =>
    refine .flagged (by simpa using hof) ?_
    simpa [hp, Phase.lateness, Phase.late] using hw
  | reloading hrl hw => simp [hp] at hrl
  | inHand changes hc hcov hw => simp [hp, Phase.inHand] at hc

theorem Stage.take (hp : s.phase = .classifying)
    (htake : takeClassified root chance.visit s.stopped chance.gitAllowed chance.git s.pending = some (changes, gitRelevant)) :
    Stage root path k w
      { s.log (.took chance.gitAllowed chance.git) with
        pending := s.pending.taken, phase := .handing changes gitRelevant } := by
  cases h with
  | queued before batch after hsq hmem hk hz =>
    refine .queued before batch after hsq hmem ?_ nofun
    simpa [hp, Phase.debt] using hk
  | held batch hb hmem hw => simp [hp, Phase.held] at hb
  | pending hpend hw => exact .inHand changes rfl (covers_of_take htake hpend) hw
  | flagged hof hw =>
    refine .flagged hof ?_
    simpa [hp, Phase.lateness, Phase.late] using hw
  | reloading hrl hw => simp [hp] at hrl
  | inHand changes' hc hcov hw => simp [hp, Phase.inHand] at hc

theorem Stage.call (hp : s.phase = .calling changes gitRelevant) :
    Delivered root s.loads path [.delivered changes gitRelevant] ∨
      Stage root path k w ((s.log (.delivered changes gitRelevant)).goto .resetting) := by
  cases h with
  | queued before batch after hsq hmem hk hz =>
    refine .inr (.queued before batch after hsq hmem ?_ nofun)
    simpa [hp, State.goto, Phase.debt] using hk
  | held batch hb hmem hw => simp [hp, Phase.held] at hb
  | pending hpend hw => exact .inr (.pending hpend hw)
  | flagged hof hw =>
    refine .inr (.flagged hof ?_)
    simpa [hp, State.goto, Phase.lateness, Phase.late] using hw
  | reloading hrl hw => simp [hp] at hrl
  | inHand changes' hc hcov hw =>
    rw [hp] at hc
    cases hc
    exact .inl ⟨changes, gitRelevant, mem_singleton_self _, hcov⟩

theorem Stage.reset (hf : Facts s) (hp : s.phase = .resetting) : s.stopped = true ∨ Stage root path k (w + 1)
      { s.log .window with deadline := s.now + COALESCE_INTERVAL, phase := .top } := by
  cases h with
  | queued before batch after hsq hmem hk hz =>
    refine .inr (.queued before batch after hsq hmem ?_ nofun)
    simpa [hp, Phase.debt] using hk
  | held batch hb hmem hw => simp [hp, Phase.held] at hb
  | pending hpend hw =>
    rcases hf.spent (by simp [hp, Phase.spent]) with hstop | hempty
    · exact .inl hstop
    · exact absurd hpend (not_pends_of_isEmpty hempty)
  | flagged hof hw =>
    refine .inr (.flagged hof ?_)
    simpa [hp, Phase.lateness, Phase.late] using hw
  | reloading hrl hw => simp [hp] at hrl
  | inHand changes' hc hcov hw => simp [hp, Phase.inHand] at hc

theorem Stage.turn {phase : Phase} (hp : s.phase = .top)
    (hph : phase = .idle ∨ phase = .timed) : Stage root path (k + 1) w ((s.log .turn).goto phase) := by
  have hdebt : phase.debt = 1 := by rcases hph with rfl | rfl <;> rfl
  have hlate : phase.lateness = 0 := by rcases hph with rfl | rfl <;> rfl
  cases h with
  | queued before batch after hsq hmem hk hz =>
    refine .queued before batch after hsq hmem ?_ fun hpark => ?_
    · change _ < CHANNEL + phase.debt
      have hzero : s.phase.debt = 0 := by rw [hp]; rfl
      omega
    · have hpark' : phase = .parked := hpark
      rcases hph with rfl | rfl <;> cases hpark'
  | held batch hb hmem hw => simp [hp, Phase.held] at hb
  | pending hpend hw => exact .pending hpend hw
  | flagged hof hw =>
    refine .flagged hof ?_
    change w + phase.lateness ≤ 1
    omega
  | reloading hrl hw => simp [hp] at hrl
  | inHand changes hc hcov hw => simp [hp, Phase.inHand] at hc

end

end Step

theorem prefix_trySend (s : State) (paths : List Path) : s.queue <+: (s.trySend paths).queue := by
  rcases trySend_cases s paths with he | ⟨-, he⟩
  · simp only [he, prefix_rfl]
  · simp only [he, State.push, prefix_append]

theorem Ways.onward (h : Ways root s) (hj : t.journal = s.journal) (hl : t.loads = s.loads)
    (hst : s.stopped = true → t.stopped = true) (hpace : s.phase.slack ≤ t.phase.slack)
    (hstage : ∀ path k w, w ≤ k + s.phase.slack → Stage root path k w s →
      t.stopped = true ∨ Stage root path k w t) : Ways root t :=
  h.step [] (by rw [hj, append_nil]) (by simp) (fun r hr => hl ▸ hr) hst (by simpa [turns, windows] using hpace)
    fun path k w hw hs => .inr (hstage path k w hw hs)

/-- **Every step keeps what is reported on its way.** -/
theorem ways_step {a : Action} (h : Ways root s) (hf : Facts s) (hr : s.rules ∈ s.loads) (hm : Moves root s a t) :
    Ways root t := by
  have goes : ∀ phase, s.phase.slack ≤ phase.slack → (s.overflow = true → phase.lateness ≤ s.phase.lateness) →
      s.phase.debt ≤ phase.debt → phase ≠ .parked → (∀ batch, s.phase.held = some batch → phase.held = some batch) →
      s.phase ≠ .reloading → (∀ changes, s.phase.inHand = some changes → phase.inHand = some changes) →
      Ways root (s.goto phase) := fun phase h1 h2 h3 h4 h5 h6 h7 =>
    h.onward rfl rfl id h1 fun path k w _ hs => .inr (hs.goto phase h2 h3 (fun hp => absurd hp h4) h5 h6 h7)
  have stops : ∀ phase, s.phase.slack ≤ phase.slack → s.stopped = true → Ways root (s.goto phase) :=
    fun phase h1 hs => h.onward rfl rfl id h1 fun _ _ _ _ _ => .inl hs
  cases hm
  case refuse n hc | tick now hn =>
    exact h.onward rfl rfl id (le_refl _) fun path k w _ hs =>
      .inr (hs.aside prefix_rfl rfl rfl id rfl)
  case skip n hc hn =>
    refine h.report rfl rfl rfl rfl (fun path hp => ?_) fun path k w hs => hs.aside prefix_rfl rfl rfl id rfl
    rw [asks_of_sends hn] at hp
    cases hp
  case send n paths hc hn hne hlt =>
    refine h.report rfl rfl rfl rfl (fun path hp => ?_) fun path k w hs =>
      hs.aside (prefix_append _ _) rfl rfl id rfl
    rw [asks_of_sends hn] at hp
    exact .queued s.queue _ [] rfl hp (by simpa using Nat.lt_add_right _ hlt) fun _ => rfl
  case swap paths hc =>
    refine h.report rfl rfl rfl rfl (fun path hp => .flagged rfl ?_) fun path k w hs =>
      hs.aside prefix_rfl rfl rfl (fun _ => rfl) rfl
    unfold Phase.lateness
    split <;> omega
  case hint hc | wake hs =>
    exact h.onward (by simp) (by simp) (by simp) (by simp) fun path k w _ hs =>
      .inr (hs.aside (prefix_trySend s []) (by simp) (by simp) (by simp) (by simp))
  case drop => exact h.onward rfl rfl (fun _ => rfl) (le_refl _) fun _ _ _ _ _ => .inl rfl
  case finish chance hp hs => exact stops _ (by simp [hp, Phase.slack]) hs
  case rest chance hp he =>
    refine h.step [.turn] rfl (by simp) (fun _ hr => hr) id (by simp [hp, Phase.slack, State.goto, turns, windows,
      Event.isTurn, Event.isWindow]) fun path k w _ hs => .inr (.inr (hs.turn hp (.inl rfl)))
  case turn chance hp he =>
    refine h.step [.turn] rfl (by simp) (fun _ hr => hr) id (by simp [hp, Phase.slack, State.goto, turns, windows,
      Event.isTurn, Event.isWindow]) fun path k w _ hs => .inr (.inr (hs.turn hp (.inr rfl)))
  case recv chance batch queue hp hq =>
    refine h.onward rfl rfl id (by simp [hp, Phase.slack]) fun path k w hw hs => .inr (hs.pop hq (.inl hp) rfl rfl ?_ ?_)
    · simp
    · simpa [hp, Phase.slack] using hw
  case take chance batch queue hp hq =>
    have hslack : s.phase.slack = 0 := by rcases hp with hp | hp <;> simp [hp, Phase.slack]
    refine h.onward rfl rfl id (by rw [hslack]; exact Nat.zero_le _) fun path k w hw hs =>
      .inr (hs.pop hq (.inr hp) rfl rfl ?_ ?_)
    · simp
    · rwa [hslack] at hw
  case woken chance batch hp =>
    refine h.onward rfl rfl id (by simp [hp, Phase.slack]) fun path k w _ hs => .inr ?_
    exact hs.keep prefix_rfl (fun _ hr => hr) (fun hp => hp) (fun ho => ⟨ho, by simp [hp, Phase.lateness, Phase.late]⟩)
      (by simp [hp, Phase.debt]) (by simp) (by simp [hp, Phase.held]) (by simp [hp]) (by simp [hp, Phase.inHand])
  case park chance hp hq =>
    refine h.onward rfl rfl id (by simp [hp, Phase.slack]) fun path k w _ hs => .inr ?_
    cases hs with
    | queued before batch after hsq hmem hk hz => simp [hq] at hsq
    | held batch hb hmem hw => simp [hp, Phase.held] at hb
    | pending hpend hw => exact .pending hpend hw
    | flagged hof hw => exact .flagged hof (by simpa [hp, State.goto, Phase.lateness, Phase.late] using hw)
    | reloading hrl hw => simp [hp] at hrl
    | inHand changes hc hcov hw => simp [hp, Phase.inHand] at hc
  case absorb chance batch hp =>
    refine h.step ((classifies root chance batch s).map .classified) rfl (by simp) loads_subset_absorb (by simp) ?_ ?_
    · rw [turns_classified, windows_classified]
      simp [hp, Phase.slack]
    · intro path k w _ hs
      rw [turns_classified, windows_classified]
      exact .inr (.inr (hs.absorb hr hp))
  case check chance hp =>
    refine h.onward rfl rfl id (by simp [hp, Phase.slack]) fun path k w _ hs => .inr ?_
    refine hs.keep prefix_rfl (fun _ hr => hr) (fun hpend => ?_)
      (fun ho => ⟨ho, by simp [hp, Phase.lateness, Phase.late]⟩) (by simp [hp, Phase.debt]) (by simp)
        (by simp [hp, Phase.held]) (by simp [hp]) (by simp [hp, Phase.inHand])
    split
    · exact .inl rfl
    · exact hpend
  case cleared chance hp ho =>
    refine h.onward rfl rfl id (by simp [hp, Phase.slack]) fun path k w _ hs => .inr ?_
    cases hs with
    | queued before batch after hsq hmem hk hz =>
      exact .queued before batch after hsq hmem (by simpa [hp, Phase.debt] using hk) (by simp)
    | held batch hb hmem hw => simp [hp, Phase.held] at hb
    | pending hpend hw => exact .pending hpend hw
    | flagged hof hw => exact .reloading rfl (by simpa [hp, Phase.lateness, Phase.late] using hw)
    | reloading hrl hw => simp [hp] at hrl
    | inHand changes hc hcov hw => simp [hp, Phase.inHand] at hc
  case reload chance hp =>
    refine h.step [] (append_nil _).symm (by simp) (fun r hr => mem_append_left _ hr) id
      (by simp [hp, Phase.slack, windows]) fun path k w _ hs => .inr (.inr ?_)
    cases hs with
    | queued before batch after hsq hmem hk hz =>
      exact .queued before batch after hsq hmem (by simpa [hp, Phase.debt, turns] using hk) (by simp)
    | held batch hb hmem hw => simp [hp, Phase.held] at hb
    | pending hpend hw => exact .pending (.inl rfl) hw
    | flagged hof hw => exact .flagged hof (by simpa [hp, Phase.lateness, Phase.late, windows] using hw)
    | reloading hrl hw => exact .pending (.inl rfl) (hw.trans (by decide))
    | inHand changes hc hcov hw => simp [hp, Phase.inHand] at hc
  case some chance changes gitRelevant hp htake =>
    exact h.step [.took chance.gitAllowed chance.git] rfl (by simp) (fun _ hr => hr) id (by simp [hp, Phase.slack, turns, windows, Event.isTurn,
      Event.isWindow]) fun path k w _ hs => .inr (.inr (hs.take hp htake))
  case call chance changes gitRelevant hp =>
    exact h.step [.delivered changes gitRelevant] rfl (by simp) (fun _ hr => hr) id (by simp [hp, State.goto, Phase.slack,
      turns, windows, Event.isTurn, Event.isWindow]) fun path k w _ hs => (hs.call hp).imp id .inr
  case reset chance hp =>
    exact h.step [.window] rfl (by simp) (fun _ hr => hr) id (by simp [hp, Phase.slack, turns, windows, Event.isTurn,
      Event.isWindow]) fun path k w _ hs => .inr (hs.reset hf hp)
  case stopping chance batch hp hs => exact stops _ (by simp [hp, Phase.slack]) hs
  case shut chance hp hs => exact stops _ (by simp [hp, Phase.slack]) hs
  case withheld chance changes gitRelevant hp hs => exact stops _ (by simp [hp, Phase.slack]) hs
  case clear chance hp ho =>
    exact goes _ (by simp [hp, Phase.slack]) (by simp [ho]) (by simp [hp, Phase.debt]) (by simp) (by simp [hp, Phase.held])
      (by simp [hp]) (by simp [hp, Phase.inHand])
  case timeout chance hp hd | nothing chance hp | early chance hp | due chance hp | open_ chance hp
    | none chance hp he | hand chance changes gitRelevant hp =>
    exact goes _ (by simp [hp, Phase.slack]) (by simp [hp, Phase.lateness, Phase.late]) (by simp [hp, Phase.debt]) (by simp)
      (by simp [hp, Phase.held]) (by simp [hp]) (by simp [hp, Phase.inHand])
  case extending chance batch hp =>
    refine goes _ (by simp [hp, Phase.slack]) (by simp [hp, Phase.lateness, Phase.late]) (by simp [hp, Phase.debt]) (by simp)
      (fun batch' hb => ?_) (by simp [hp]) (by simp [hp, Phase.inHand])
    rw [hp] at hb
    cases batch with
    | none => cases hb
    | some batch => exact hb

theorem ways_start (rules : Rules) (now : Nat) : Ways root (.start rules now) := by
  intro earlier paths later he
  cases earlier <;> cases he

end Watcher
end Yuzora
