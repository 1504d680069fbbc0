import Mathlib.Data.List.Perm.Basic
import Yuzora.WatcherRules
/-!
# WatcherConduct — what the watcher tells

A delivery tells the root, or what every path classified since the last take is pending as (`Told`).  With that the
conduct of whole runs.
-/
namespace Yuzora
namespace Watcher

open List

variable {root : Path} {s t : State}

/-! ## What was classified between two takes -/

structure Taken where
  classified : List Classified
  gitAllowed : Bool
  git : Git

/-- What was classified since the last take, and the last take. -/
structure Tally where
  current : List Classified
  taken : Option Taken

def Tally.add (tally : Tally) : Event → Tally
  | .classified c => { tally with current := tally.current ++ [c] }
  | .took gitAllowed git => ⟨[], some ⟨tally.current, gitAllowed, git⟩⟩
  | _ => tally

def tally (journal : List Event) : Tally := journal.foldl Tally.add ⟨[], none⟩

theorem tally_append (l m : List Event) : tally (l ++ m) = m.foldl Tally.add (tally l) := foldl_append

theorem foldl_classified (cs : List Classified) : ∀ tally : Tally,
    (cs.map Event.classified).foldl Tally.add tally = { tally with current := tally.current ++ cs } := by
  induction cs with
  | nil =>
    intro tally
    simp
  | cons c cs ih =>
    intro tally
    rw [map_cons, foldl_cons, ih]
    simp [Tally.add]

/-! ## What stays pending -/

/-- Something is pending under the key, and as ignored only where this is. -/
def Under (paths : Table Path Bool) (key : Path) (ignored : Bool) : Prop :=
  ∃ e ∈ paths.entries, e.1 = key ∧ (e.2 = true → ignored = true)

theorem Under.enter {paths : Table Path Bool} {key : Path} {ignored : Bool} (h : Under paths key ignored)
    (entry : Path × Bool) : Under (enter paths entry) key ignored := by
  obtain ⟨e, he, rfl, hi⟩ := h
  have hget : paths.get e.1 = some e.2 := Table.get_eq_some.2 he
  by_cases hkey : e.1 = entry.1
  · refine ⟨(entry.1, e.2 && entry.2), Table.get_eq_some.1 ?_, hkey.symm, fun hb => hi (Bool.and_eq_true_iff.1 hb).1⟩
    rw [hkey] at hget
    simp [Watcher.enter, hget]
  · refine ⟨e, Table.get_eq_some.1 ?_, rfl, hi⟩
    simp [Watcher.enter, Table.get_insert, hkey, hget]

theorem under_enter (paths : Table Path Bool) (entry : Path × Bool) : Under (enter paths entry) entry.1 entry.2 := by
  refine ⟨(entry.1, (paths.get entry.1).getD entry.2 && entry.2), Table.get_eq_some.1 ?_, rfl,
    fun hb => (Bool.and_eq_true_iff.1 hb).2⟩
  simp [enter]

theorem under_addPaths {rules : Rules} {isDir : Path → Bool} : ∀ {batch : List Path} {pending : PendingChanges},
    pending.rescan = false → (addPaths root rules isDir batch pending).rescan = false →
      (∀ key ignored, Under pending.paths key ignored →
        Under (addPaths root rules isDir batch pending).paths key ignored) ∧
      ∀ path ∈ batch, Under (addPaths root rules isDir batch pending).paths (pendingAs root rules isDir path).1
        (pendingAs root rules isDir path).2
  | [], pending, _, _ => ⟨fun _ _ h => h, nofun⟩
  | path :: batch, pending, hr, h => by
    rw [addPaths] at h ⊢
    split at h
    · cases h
    · rename_i hle
      rw [if_neg hle]
      have hr' : ({ pending with paths := enter pending.paths (pendingAs root rules isDir path) } :
        PendingChanges).rescan = false := hr
      obtain ⟨hold, hnew⟩ := under_addPaths hr' h
      refine ⟨fun key ignored hu => hold key ignored (hu.enter _), fun path' hp => ?_⟩
      rcases mem_cons.1 hp with rfl | hp
      · exact hold _ _ (under_enter _ _)
      · exact hnew path' hp

/-! ## What a delivery tells -/

/-- A delivery tells the root, or all that was classified since the take before: by fresh rules, and as nothing that
matters to git only where every path was ignored and git confirmed it. -/
def Told (root : Path) (notices : List (List Path)) (changes : List Path) (gitRelevant : Bool) (taken : Taken) : Prop :=
  changes = [root] ∧ gitRelevant = true ∨
    (∀ c ∈ taken.classified, c.entry ∈ changes ∧ Fresh root notices c) ∧
      (gitRelevant = false → (∀ c ∈ taken.classified, c.ignored = true) ∧
        (∀ path ∈ changes, fileName path ≠ some (.text ".gitignore")) ∧ taken.gitAllowed = true ∧
          allUntracked root changes false taken.git = true)

variable {changes : List Path} {gitRelevant : Bool} {notices : List (List Path)} {cancel gitAllowed : Bool}

theorem Told.mono {taken : Taken} (h : Told root notices changes gitRelevant taken) (more : List (List Path)) :
    Told root (notices ++ more) changes gitRelevant taken :=
  h.imp id fun ⟨hc, hq⟩ => ⟨fun c hm => ⟨(hc c hm).1, (hc c hm).2.mono more⟩, hq⟩

/-- **Nothing matters to git only where all is ignored and git confirms it.** -/
theorem quiet_of_relevant {drained : List (Path × Bool)} {git : Git}
    (h : relevant root drained cancel gitAllowed git = false) :
    (∀ e ∈ drained, e.2 = true) ∧ (∀ path ∈ drained.map Prod.fst, fileName path ≠ some (.text ".gitignore")) ∧
      gitAllowed = true ∧ allUntracked root (drained.map Prod.fst) false git = true := by
  unfold relevant at h
  simp only [Bool.or_eq_false_iff, Bool.not_eq_false', decide_eq_false_iff_not, not_not, length_map] at h
  obtain ⟨⟨⟨hno, hlen⟩, hallowed⟩, huntracked⟩ := h
  have hall : drained.filter Prod.snd = drained := filter_sublist.eq_of_length hlen
  rw [hall] at huntracked
  refine ⟨filter_eq_self.1 hall, fun path hp => ?_, hallowed, ?_⟩
  · obtain ⟨e, he, rfl⟩ := mem_map.1 hp
    simpa using any_eq_false.1 hno e he
  · cases cancel with
    | false => exact huntracked
    | true => simp [allUntracked] at huntracked

theorem told_of_take {visit : Visit (Path × Bool)} {git : Git} {pending : PendingChanges} {current : List Classified}
    (h : takeClassified root visit cancel gitAllowed git pending = some (changes, gitRelevant))
    (hc : pending.rescan = false → ∀ c ∈ current, Under pending.paths c.entry c.ignored ∧ Fresh root notices c) :
    Told root notices changes gitRelevant ⟨current, gitAllowed, git⟩ := by
  unfold takeClassified at h
  split at h
  · cases h
  split at h
  · cases h
    exact .inl ⟨rfl, rfl⟩
  · rename_i hr
    cases h
    have hperm := visit.perm pending.paths.entries
    refine .inr ⟨fun c hm => ?_, fun hq => ?_⟩
    · obtain ⟨⟨e, he, hkey, -⟩, hfresh⟩ := hc (by simpa using hr) c hm
      exact ⟨mem_map.2 ⟨e, hperm.mem_iff.2 he, hkey⟩, hfresh⟩
    · obtain ⟨hall, hno, hallowed, huntracked⟩ := quiet_of_relevant hq
      refine ⟨fun c hm => ?_, hno, hallowed, huntracked⟩
      obtain ⟨⟨e, he, -, hi⟩, -⟩ := hc (by simpa using hr) c hm
      exact hi (hall e (hperm.mem_iff.2 he))

structure Marks (root : Path) (s : State) : Prop where
  current : s.pending.rescan = false → ∀ c ∈ (tally s.journal).current, Under s.pending.paths c.entry c.ignored ∧
    (Fresh root s.notices c ∨ s.overflow = true ∧ s.phase = .checking)
  inHand : ∀ changes gitRelevant, s.phase = .handing changes gitRelevant ∨ s.phase = .calling changes gitRelevant →
    ∃ taken, (tally s.journal).taken = some taken ∧ Told root s.notices changes gitRelevant taken
  told : ∀ earlier changes gitRelevant later, s.journal = earlier ++ Event.delivered changes gitRelevant :: later →
    ∃ taken, (tally earlier).taken = some taken ∧ Told root s.notices changes gitRelevant taken

theorem Marks.keep (h : Marks root s) (es : List Event) (hj : t.journal = s.journal ++ es)
    (htally : ∀ tally, es.foldl Tally.add tally = tally) (hno : ∀ changes gitRelevant, .delivered changes gitRelevant ∉ es)
    (hn : s.notices <+: t.notices) (hp : t.pending.rescan = true ∨ t.pending = s.pending)
    (ho : s.overflow = true ∧ s.phase = .checking → t.pending.rescan = true ∨ t.overflow = true ∧ t.phase = .checking)
    (hhand : ∀ changes gitRelevant, t.phase = .handing changes gitRelevant ∨ t.phase = .calling changes gitRelevant →
      s.phase = .handing changes gitRelevant ∨ s.phase = .calling changes gitRelevant) : Marks root t := by
  obtain ⟨more, hmore⟩ := hn
  have htal : tally t.journal = tally s.journal := by rw [hj, tally_append, htally]
  constructor
  · intro hr c hc
    rw [htal] at hc
    rcases hp with hp | hp
    · rw [hp] at hr
      cases hr
    rw [hp] at hr ⊢
    obtain ⟨hu, hf⟩ := h.current hr c hc
    refine ⟨hu, ?_⟩
    rcases hf with hf | hof
    · exact .inl (hmore ▸ hf.mono more)
    · rcases ho hof with hr' | hof
      · rw [hp, hr] at hr'
        cases hr'
      · exact .inr hof
  · intro changes gitRelevant hph
    obtain ⟨taken, ht, htold⟩ := h.inHand changes gitRelevant (hhand changes gitRelevant hph)
    exact ⟨taken, by rw [htal, ht], hmore ▸ htold.mono more⟩
  · intro earlier changes gitRelevant later he
    rw [hj] at he
    obtain ⟨mid, -, hs⟩ := split_append (hno changes gitRelevant) he
    obtain ⟨taken, ht, htold⟩ := h.told earlier changes gitRelevant mid hs
    exact ⟨taken, ht, hmore ▸ htold.mono more⟩

theorem Marks.absorb (h : Marks root s) (hst : Stamps root s) {chance : Chance} {batch : Batch}
    (hp : s.phase = .extending (some batch)) : Marks root (Watcher.absorb root chance batch s) := by
  have htal : tally (Watcher.absorb root chance batch s).journal =
      { tally s.journal with current := (tally s.journal).current ++ classifies root chance batch s } := by
    rw [absorb_journal, tally_append, foldl_classified]
  constructor
  · intro hr c hc
    rw [htal] at hc
    rw [absorb_notices, absorb_overflow, absorb_phase, absorb_pending]
    rw [absorb_pending] at hr
    have hrescan : s.pending.rescan = false := by
      cases hs : s.pending.rescan with
      | false => rfl
      | true => simp [extend, hs] at hr
    have hpend : (extend root chance.rules chance.isDir batch.paths s.rules s.pending).2 = addPaths root
        (extend root chance.rules chance.isDir batch.paths s.rules s.pending).1 chance.isDir batch.paths s.pending := by
      simp [extend, hrescan]
    rw [hpend] at hr ⊢
    obtain ⟨hold, hnew⟩ := under_addPaths hrescan hr
    have hfresh : ∀ b, s.overflow = b → (b = false → Fresh root s.notices c) →
        Fresh root s.notices c ∨ s.overflow = true ∧ Phase.checking = .checking := by
      intro b hb hf
      cases b with
      | false => exact .inl (hf rfl)
      | true => exact .inr ⟨hb, rfl⟩
    rcases mem_append.1 hc with hc | hc
    · obtain ⟨hu, hf⟩ := h.current hrescan c hc
      refine ⟨hold _ _ hu, .inl (hf.resolve_right fun hof => ?_)⟩
      simp [hp] at hof
    · refine ⟨?_, hfresh _ rfl fun ho => fresh_of_classifies hst hp ho hc⟩
      unfold classifies at hc
      rw [if_neg (by simp [hrescan])] at hc
      obtain ⟨path, hpath, rfl⟩ := mem_map.1 hc
      exact hnew path hpath
  · intro changes gitRelevant hph
    simp at hph
  · intro earlier changes gitRelevant later he
    obtain ⟨mid, -, hs⟩ := split_append (by simp) he
    rw [absorb_notices]
    exact h.told earlier changes gitRelevant mid hs

theorem Marks.take (h : Marks root s) {chance : Chance} (hp : s.phase = .classifying)
    (htake : takeClassified root chance.visit s.stopped chance.gitAllowed chance.git s.pending = some (changes, gitRelevant)) :
    Marks root { s.log (.took chance.gitAllowed chance.git) with
      pending := s.pending.taken, phase := .handing changes gitRelevant } := by
  have htal : tally (s.journal ++ [Event.took chance.gitAllowed chance.git]) =
      ⟨[], some ⟨(tally s.journal).current, chance.gitAllowed, chance.git⟩⟩ := by
    rw [tally_append]
    rfl
  constructor
  · intro hr c hc
    change c ∈ (tally (s.journal ++ [Event.took chance.gitAllowed chance.git])).current at hc
    rw [htal] at hc
    cases hc
  · intro changes' gitRelevant' hph
    obtain ⟨rfl, rfl⟩ : changes = changes' ∧ gitRelevant = gitRelevant' := by simpa using hph
    refine ⟨⟨(tally s.journal).current, chance.gitAllowed, chance.git⟩, ?_, told_of_take htake fun hr c hc => ?_⟩
    · change (tally (s.journal ++ [Event.took chance.gitAllowed chance.git])).taken = _
      rw [htal]
    · obtain ⟨hu, hf⟩ := h.current hr c hc
      refine ⟨hu, hf.resolve_right fun hof => ?_⟩
      simp [hp] at hof
  · intro earlier changes' gitRelevant' later he
    obtain ⟨mid, -, hs⟩ := split_append (by simp) he
    exact h.told earlier changes' gitRelevant' mid hs

theorem Marks.call (h : Marks root s) (hp : s.phase = .calling changes gitRelevant) :
    Marks root ((s.log (.delivered changes gitRelevant)).goto .resetting) := by
  have htal : tally (s.journal ++ [Event.delivered changes gitRelevant]) = tally s.journal := by
    rw [tally_append]
    rfl
  constructor
  · intro hr c hc
    change c ∈ (tally (s.journal ++ [Event.delivered changes gitRelevant])).current at hc
    rw [htal] at hc
    obtain ⟨hu, hf⟩ := h.current hr c hc
    refine ⟨hu, .inl (hf.resolve_right fun hof => ?_)⟩
    simp [hp] at hof
  · intro changes' gitRelevant' hph
    simp [State.goto] at hph
  · intro earlier changes' gitRelevant' later he
    rcases eq_nil_or_concat later with rfl | ⟨later', x, rfl⟩
    · obtain ⟨rfl, hlast⟩ := append_inj' he rfl
      obtain ⟨rfl, rfl⟩ := Event.delivered.inj (head_eq_of_cons_eq hlast)
      exact h.inHand changes gitRelevant (.inr hp)
    · rw [concat_eq_append, ← cons_append, ← append_assoc] at he
      exact h.told earlier changes' gitRelevant' later' (append_inj' he rfl).1

theorem marks_start (rules : Rules) (now : Nat) : Marks root (.start rules now) where
  current _ c hc := by cases hc
  inHand changes gitRelevant hp := by simp [State.start] at hp
  told earlier changes gitRelevant later he := by cases earlier <;> cases he

theorem marks_step {a : Action} (h : Marks root s) (hst : Stamps root s) (hm : Moves root s a t) : Marks root t := by
  cases hm
  case refuse n hc =>
    exact h.keep [] (append_nil _).symm (fun _ => rfl) (by simp) (prefix_append _ _) (.inr rfl) .inr
      fun _ _ hp => hp
  case skip n hc hn | send n paths hc hn hne hlt =>
    exact h.keep _ rfl (fun _ => rfl) (by simp) (prefix_append _ _) (.inr rfl) .inr fun _ _ hp => hp
  case swap paths hc =>
    exact h.keep _ rfl (fun _ => rfl) (by simp) prefix_rfl (.inr rfl) (fun hof => .inr ⟨rfl, hof.2⟩)
      fun _ _ hp => hp
  case hint hc | wake hs =>
    exact h.keep [] (by simp) (fun _ => rfl) (by simp) (by simp) (by simp) (fun hof => .inr (by simpa using hof)) (by simp)
  case absorb chance batch hp => exact h.absorb hst hp
  case check chance hp =>
    refine h.keep [] (append_nil _).symm (fun _ => rfl) (by simp) prefix_rfl ?_ (fun hof => .inl ?_) (by simp)
    · dsimp only
      split
      · exact .inl rfl
      · exact .inr rfl
    · simp [hof.1, PendingChanges.invalidateRoot]
  case reload chance hp =>
    exact h.keep [] (append_nil _).symm (fun _ => rfl) (by simp) prefix_rfl (.inl rfl) (by simp [hp]) (by simp)
  case some chance changes gitRelevant hp htake => exact h.take hp htake
  case call chance changes gitRelevant hp => exact h.call hp
  case rest chance hp he | turn chance hp he =>
    exact h.keep _ rfl (fun _ => rfl) (by simp) prefix_rfl (.inr rfl) (by simp [hp]) (by simp [State.goto])
  case reset chance hp =>
    exact h.keep _ rfl (fun _ => rfl) (by simp) prefix_rfl (.inr rfl) (by simp [hp]) (by simp)
  case take chance batch queue hp hq =>
    refine h.keep [] (append_nil _).symm (fun _ => rfl) (by simp) prefix_rfl (.inr rfl) ?_ (by simp)
    rcases hp with hp | hp <;> simp [hp]
  all_goals
    refine h.keep [] (append_nil _).symm (fun _ => rfl) (by simp) prefix_rfl (.inr rfl) ?_ ?_
    all_goals simp_all [State.goto]

/-! ## Runs -/

/-- What a notification asks for, and nothing for another action. -/
def asked (root : Path) : Action → Option (List Path)
  | .notify n => some (asks root n)
  | _ => none

/-- The thread sleeps without a deadline, and no message would wake it. -/
def Asleep (s : State) : Prop := s.phase = .idle ∧ s.queue = []

theorem heard_step {a : Action} (h : s.notices = s.journal.filterMap Event.reported? ++ s.callback.waiting)
    (hm : Moves root s a t) :
    t.notices = t.journal.filterMap Event.reported? ++ t.callback.waiting ∧
      t.notices = s.notices ++ (asked root a).toList := by
  cases hm
  case swap paths hc =>
    rw [hc] at h
    constructor
    · unfold raise State.log
      rw [h, filterMap_append]
      split <;> simp [Callback.waiting, Event.reported?]
    · simp [raise, State.log, asked]
  all_goals simp_all [State.goto, State.log, State.push, State.notice, State.load, Callback.waiting, Event.reported?, asked]

/-- What holds in every state reached. -/
structure Order (root : Path) (s : State) : Prop where
  facts : Facts s
  rules : s.rules ∈ s.loads
  ways : Ways root s
  stamps : Stamps root s
  marks : Marks root s

variable {l : List (Transition State Action)}

theorem order_of_run (h : Run root l s) : Order root s := by
  refine Trace.invariant (P := Order root) ?_ ?_ h
  · rintro s ⟨rules, now, rfl⟩
    exact ⟨facts_start rules now, mem_singleton_self _, ways_start rules now, stamps_start rules now,
      marks_start rules now⟩
  · intro s a t ho hn
    have hm := moves_of_next hn
    exact ⟨facts_step ho.facts hm, rules_mem_step ho.rules hm, ways_step ho.ways ho.facts ho.rules hm,
      stamps_step ho.stamps hm, marks_step ho.marks ho.stamps hm⟩

theorem heard_of_run (h : Run root l s) : s.notices = s.journal.filterMap Event.reported? ++ s.callback.waiting ∧
      s.notices = l.filterMap fun x => asked root x.label := by
  refine Trace.history (P := fun l s => s.notices = s.journal.filterMap Event.reported? ++ s.callback.waiting ∧
    s.notices = l.filterMap fun x => asked root x.label) ?_ ?_ h
  · rintro s ⟨rules, now, rfl⟩
    exact ⟨rfl, rfl⟩
  · rintro l s a t - ⟨hs, hl⟩ hn
    obtain ⟨ht, hmore⟩ := heard_step hs (moves_of_next hn)
    refine ⟨ht, ?_⟩
    rw [hmore, hl, filterMap_append]
    cases ha : asked root a <;> simp [ha]

theorem Facts.flag_asleep (h : Facts s) (hs : Asleep s) (ho : s.overflow = true) : s.callback = .hinting := by
  obtain ⟨hp, hq⟩ := hs
  have hcalm := h.calm hp
  rcases h.flag ho (by simp [hp]) with hne | hc | hpop | ⟨hr, -⟩
  · exact absurd hq hne
  · exact hc
  · simp [hp, Phase.popped] at hpop
  · simp [PendingChanges.isEmpty, hr] at hcalm

variable {path : Path}

theorem Stage.windows_le {k w : Nat} (h : Stage root path k w s) (hw : w ≤ k + s.phase.slack) : w ≤ CHANNEL := by
  cases h with
  | queued before batch after hsq hp hk hz =>
    have hone : s.phase.debt + s.phase.slack ≤ 1 := by
      cases s.phase <;> simp [Phase.debt, Phase.slack]
    omega
  | held _ _ _ hle | pending _ hle | inHand _ _ _ hle => exact hle
  | flagged ho hle => exact (Nat.le_add_right _ _).trans (hle.trans (by decide))
  | reloading hr hle => exact hle.trans (by decide)

theorem Stage.hinting {k w : Nat} (h : Stage root path k w s) (hf : Facts s) (hs : Asleep s) :
    s.callback = .hinting := by
  have hp := hs.1
  cases h with
  | queued before batch after hsq hmem hk hz => simp [hs.2] at hsq
  | held batch hb hmem hw => simp [hp, Phase.held] at hb
  | pending hpend hw => exact absurd hpend (not_pends_of_isEmpty (hf.calm hp))
  | flagged ho hw => exact hf.flag_asleep hs ho
  | reloading hrl hw => simp [hp] at hrl
  | inHand changes hc hcov hw => simp [hp, Phase.inHand] at hc

theorem work_goes (root : Path) (chance : Chance) (s : State) : (work root chance s).isSome = true ∨ s.phase = .ended ∨
    Asleep s ∨ s.phase = .parked ∧ s.now < s.deadline := by
  unfold work Asleep
  split
  case h_2 hp =>
    cases hq : s.queue with
    | nil => exact .inr (.inr (.inl ⟨hp, rfl⟩))
    | cons batch queue => exact .inl rfl
  case h_5 hp =>
    split
    · exact .inl rfl
    · by_cases hd : s.deadline ≤ s.now
      · rw [if_pos hd]
        exact .inl rfl
      · exact .inr (.inr (.inr ⟨hp, Nat.lt_of_not_le hd⟩))
  case h_18 hp => exact .inr (.inl hp)
  all_goals
    left
    repeat' split
    all_goals rfl

/-- **The conduct of a watcher.** -/
structure Conduct (root : Path) (l : List (Transition State Action)) (s : State) : Prop where
  /-- What a notification reports is asked for, where the ignored paths do not exclude it. -/
  asked : ∀ needRescan paths path, path ∈ paths → root <+: path →
    isIgnoredPath path = false ∨ (excludeDirectory root path).isSome = true → path ∈ asks root (.event needRescan false paths)
  /-- Every notification is reported in its turn, the last one when the callback is through with it. -/
  heard : l.filterMap (fun x => Watcher.asked root x.label) =
    s.journal.filterMap Event.reported? ++ s.callback.waiting
  /-- A path that was reported is delivered since, or the watcher is to stop, or its windows are few and the thread
  does not sleep without a hint to come. -/
  covered : ∀ earlier paths later, s.journal = earlier ++ .reported paths :: later → ∀ path ∈ paths,
    Delivered root s.loads path later ∨ s.stopped = true ∨
      windows later ≤ CHANNEL ∧ (Asleep s → s.callback = .hinting)
  awake : Asleep s → s.pending.isEmpty = true ∧ (s.overflow = true → s.callback = .hinting)
  goes : ∀ chance, (work root chance s).isSome = true ∨ s.phase = .ended ∨ Asleep s ∨
    s.phase = .parked ∧ s.now < s.deadline
  deadline : s.deadline ≤ s.now + COALESCE_INTERVAL
  buffered : s.pending.paths.size ≤ CAPACITY
  told : ∀ earlier changes gitRelevant later, s.journal = earlier ++ Event.delivered changes gitRelevant :: later →
    ∃ taken, (tally earlier).taken = some taken ∧ Told root s.notices changes gitRelevant taken

theorem mem_asks {needRescan : Bool} {paths : List Path} (hm : path ∈ paths) (hr : root <+: path)
    (hi : isIgnoredPath path = false ∨ (excludeDirectory root path).isSome = true) :
    path ∈ asks root (.event needRescan false paths) := by
  have hk : path ∈ kept root paths := by
    refine mem_filter.2 ⟨hm, ?_⟩
    rcases hi with hi | hi <;> simp [hr, hi]
  unfold asks
  cases needRescan with
  | true => exact mem_cons_of_mem _ hk
  | false =>
    dsimp only
    split
    · exact mem_cons_of_mem _ hk
    · exact hk

/-- **Whatever comes and in whatever order, the watcher conducts itself.** -/
theorem watch_conduct (root : Path) (l : List (Transition State Action)) (s : State) (h : Run root l s) :
    Conduct root l s := by
  have ho := order_of_run h
  obtain ⟨hheard, hnotices⟩ := heard_of_run h
  exact
    { asked := fun _ _ _ => mem_asks
      heard := hnotices ▸ hheard
      covered := fun earlier paths later hj path hp => by
        obtain ⟨hpace, hways⟩ := ho.ways earlier paths later hj
        rcases hways path hp with hd | hs | hstg
        · exact .inl hd
        · exact .inr (.inl hs)
        · exact .inr (.inr ⟨hstg.windows_le hpace, hstg.hinting ho.facts⟩)
      awake := fun hs => ⟨ho.facts.calm hs.1, ho.facts.flag_asleep hs⟩
      goes := fun chance => work_goes root chance s
      deadline := ho.facts.deadline
      buffered := ho.facts.buffered
      told := ho.marks.told }

namespace Sample

def place : Path := [.text "work"]
def file : Path := [.text "work", .text "file"]

def chance : Chance where
  rules := ⟨fun _ _ => false⟩
  isDir _ := false
  visit := .plain
  gitAllowed := false
  git := ⟨fun _ => .error "", fun _ _ => .error "", fun _ => false⟩
  late := false

def played (acts : List Action) : Option (List (Transition State Action) × State) :=
  Trace.play (fun s a => (next place s a).map (Prod.mk a)) acts [] (.start ⟨fun _ _ => false⟩ 0)

theorem run_of_played (acts : List Action) {s : State} (h : played acts = some (l, s)) : Run place l s :=
  Trace.of_played ⟨⟨fun _ _ => false⟩, 0, rfl⟩ h

def isDelivered (changes : List Path) : Event → Bool
  | .delivered changes' _ => decide (changes = changes')
  | _ => false

/-- A file changes, the window ends, and the change is delivered. -/
def delivered : List Action :=
  [Action.notify (.event false false [file])] ++ List.replicate 8 (Action.work chance) ++ [Action.tick COALESCE_INTERVAL] ++
    List.replicate 13 (Action.work chance)

def raised : List Action := [.work chance, .notify .error, .swap]

def read : List Action := [.notify (.event false true [file]), .work chance]

/-- A file changes, and the handle is dropped before the window ends. -/
def dropped : List Action :=
  [Action.notify (.event false false [file])] ++ List.replicate 8 (Action.work chance) ++ [Action.drop, .wake] ++
    List.replicate 2 (Action.work chance)

end Sample

theorem watch_conduct_delivered : ∃ l s, Sample.played Sample.delivered = some (l, s) ∧ Asleep s ∧
    s.journal.any (Sample.isDelivered [Sample.file]) = true ∧ Conduct Sample.place l s :=
  ⟨_, _, rfl, ⟨rfl, rfl⟩, rfl, watch_conduct Sample.place _ _ (Sample.run_of_played Sample.delivered rfl)⟩

/-- The flag may be set while the thread sleeps; what was read is not reported; and what is pending when the handle is
dropped is not delivered. -/
theorem watcher_silences : (∃ l s, Run Sample.place l s ∧ Asleep s ∧ s.overflow = true) ∧
    (∃ l s, Run Sample.place l s ∧ (∃ x ∈ l, x.label = .notify (.event false true [Sample.file])) ∧ Asleep s ∧
      s.callback = .idle ∧ s.journal.any (Sample.isDelivered [Sample.file]) = false) ∧
    ∃ l s, Run Sample.place l s ∧ [Sample.file] ∈ s.notices ∧ s.phase = .ended ∧
      s.journal.any (Sample.isDelivered [Sample.file]) = false :=
  ⟨⟨_, _, Sample.run_of_played Sample.raised rfl, ⟨rfl, rfl⟩, rfl⟩,
    ⟨_, _, Sample.run_of_played Sample.read rfl, ⟨_, mem_cons_self, rfl⟩, ⟨rfl, rfl⟩, rfl, rfl⟩,
    ⟨_, _, Sample.run_of_played Sample.dropped rfl, mem_cons_self, rfl, rfl⟩⟩

end Watcher
end Yuzora
