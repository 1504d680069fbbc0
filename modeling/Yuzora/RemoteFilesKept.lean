import Yuzora.RemoteFilesRuns
/-!
# RemoteFilesKept — the revision a save recorded stays

What a save recorded stays in the table until something touches the document, and the loops over the table end, but for
a rename into itself.
-/
namespace Yuzora
namespace RemoteFiles

open List Table

variable {lower : String → String} {«from» «to» : Uri} {backend : Backend} {fuel : Nat}

/-! ## What a loop leaves alone -/

variable {u : Uri} {revisions revisions' : Table Uri Opened} {opened : Opened}

theorem renameRevisions_get (hf : «from».under u = false)
    (ht : «to».under u = false) (hr : renameRevisions «from» «to» backend fuel revisions = some revisions') :
    revisions'.get u = revisions.get u := by
  refine Walk.run_keeps (fun table => table.get u = revisions.get u) ?_ fuel _ hr rfl
  intro table k v todo hg hp
  unfold renameTurn
  split
  · rename_i hk
    have hne : u ≠ k := by
      rintro rfl
      rw [hf] at hk
      cases hk
    have hnew : u ≠ «from».reroot «to» k := by
      rintro rfl
      rw [under_reroot] at ht
      cases ht
    split
    · simp only [Walk.set, Walk.delete, get_set, get_erase]
      rw [if_neg hnew, if_neg hne, hp]
    · simp only [Walk.delete, get_erase]
      rw [if_neg hne, hp]
  · exact hp

theorem moveRevisions_get {pair : Uri × Uri} (hf : pair.1.under u = false) (ht : pair.2.under u = false)
    (revisions : Table Uri Opened) : (moveRevisions backend revisions pair).get u = revisions.get u := by
  have turn : ∀ (table : Table Uri Opened) (e : Uri × Opened),
      (moveTurn pair.1 pair.2 backend table e).get u = table.get u := by
    intro table e
    unfold moveTurn
    split
    · rename_i hk
      have hne : u ≠ e.1 := by
        rintro rfl
        rw [hf] at hk
        cases hk
      have hnew : u ≠ pair.1.reroot pair.2 e.1 := by
        rintro rfl
        rw [under_reroot] at ht
        cases ht
      split
      · rw [get_set, if_neg hnew, get_erase, if_neg hne]
      · rw [get_erase, if_neg hne]
    · rfl
  have turns : ∀ (entries : List (Uri × Opened)) (table : Table Uri Opened),
      (entries.foldl (moveTurn pair.1 pair.2 backend) table).get u = table.get u := by
    intro entries
    induction entries with
    | nil => exact fun _ => rfl
    | cons e entries ih =>
      intro table
      rw [foldl_cons, ih, turn]
  unfold moveRevisions
  split
  · rfl
  · exact turns _ _

theorem movesRevisions_get {u : Uri} : ∀ {pairs : List (Uri × Uri)} {revisions : Table Uri Opened},
    (∀ pair ∈ pairs, pair.1.under u = false ∧ pair.2.under u = false) →
      (pairs.foldl (moveRevisions backend) revisions).get u = revisions.get u
  | [], _, _ => rfl
  | pair :: pairs, revisions, h => by
    obtain ⟨hf, ht⟩ := h pair mem_cons_self
    rw [foldl_cons, movesRevisions_get fun p hp => h p (mem_cons_of_mem _ hp), moveRevisions_get hf ht]

theorem deleteRevisions_get {uri : Uri} (hu : uri.under u = false)
    (hr : deleteRevisions uri fuel revisions = some revisions') : revisions'.get u = revisions.get u := by
  refine Walk.run_keeps (fun table => table.get u = revisions.get u) ?_ fuel _ hr rfl
  intro table k v todo hg hp
  unfold deleteTurn
  split
  · rename_i hk
    have hne : u ≠ k := by
      rintro rfl
      rw [hu] at hk
      cases hk
    simp only [Walk.delete, get_erase]
    rw [if_neg hne, hp]
  · exact hp

theorem disposeRevisions_get (hu : revisions.get u = some opened) (hb : opened.backend ≠ backend)
    (hr : disposeRevisions backend fuel revisions = some revisions') : revisions'.get u = some opened := by
  refine Walk.run_keeps (fun table => table.get u = some opened) ?_ fuel _ hr hu
  intro table k v todo hg hp
  unfold disposeTurn
  split
  · rename_i hk
    have hne : u ≠ k := by
      rintro rfl
      cases hp.symm.trans hg
      exact hb hk
    simp only [Walk.delete, get_erase]
    rw [if_neg hne, hp]
  · exact hp

/-! ## What a save recorded -/

/-- The event changes what is recorded for the document on the connection. -/
def Touches (u : Uri) (b : Backend) : Event → Prop
  | .accepted uri _ _ _ => uri = u
  | .saved uri _ _ recorded => uri = u ∧ recorded = true
  | .renamed «from» «to» => «from».under u = true ∨ «to».under u = true
  | .deleted uri => uri.under u = true
  | .forgot uri => uri = u
  | .disposed backend => backend = b
  | .rebound uri _ _ _ => uri = u
  | _ => False

variable {Place : Type} {s t : State Place} {news : List Call} {revision : Nat}

def Holds (revisions : Table Uri Opened) (u : Uri) (b : Backend) (revision : Nat) : Prop :=
  ∃ opened, revisions.get u = some opened ∧ opened.backend = b ∧ opened.revision = revision

/-- What a save recorded is there where nothing touched it since. -/
def Kept (s : State Place) : Prop :=
  ∀ earlier u b revision later, s.journal = earlier ++ .saved u b (some revision) true :: later →
    (∀ e ∈ later, ¬Touches u b e) → Holds s.revisions u b revision

theorem Kept.grow (h : Kept s) (es : List Event) (hj : t.journal = s.journal ++ es)
    (hkeep : ∀ u b revision, (∀ e ∈ es, ¬Touches u b e) → Holds s.revisions u b revision → Holds t.revisions u b revision)
    (hnew : ∀ mid u b revision later, es = mid ++ .saved u b (some revision) true :: later →
      Holds t.revisions u b revision) : Kept t := by
  intro earlier u b revision later hs hno
  rw [hj] at hs
  rcases split_of_append hs with ⟨mid, hold, rfl⟩ | ⟨mid, -, hes⟩
  · refine hkeep u b revision (fun e he => hno e (mem_append_right _ he)) ?_
    exact h earlier u b revision mid hold fun e he => hno e (mem_append_left _ he)
  · exact hnew mid u b revision later hes

theorem Kept.same (h : Kept s) (hj : t.journal = s.journal) (hr : t.revisions = s.revisions) : Kept t := by
  intro earlier u b revision later hs hno
  rw [hr]
  exact h earlier u b revision later (hj ▸ hs) hno

theorem Kept.aside (h : Kept s) (ha : Aside news s t) : Kept t := h.same ha.journal ha.revisions

theorem Kept.log {after : State Place} (h : Kept s) (e : Event)
    (he : ∀ u b revision, e ≠ .saved u b (some revision) true) (ha : Aside news after t)
    (hj : after.journal = s.journal ++ [e])
    (hkeep : ∀ u b revision, ¬Touches u b e → Holds s.revisions u b revision → Holds after.revisions u b revision) :
    Kept t := by
  refine Kept.aside (h.grow [e] hj (fun u b revision hno => hkeep u b revision (hno e (mem_singleton_self e))) ?_) ha
  intro mid u b revision later hes
  have hmem : Event.saved u b (some revision) true ∈ [e] := by
    rw [hes]
    exact mem_append_right _ mem_cons_self
  exact absurd (mem_singleton.1 hmem).symm (he u b revision)

theorem holds_set {uri : Uri} {b : Backend}
    (hne : uri ≠ u) (h : Holds revisions u b revision) : Holds (revisions.set uri opened) u b revision := by
  obtain ⟨old, hg, hb⟩ := h
  refine ⟨old, ?_, hb⟩
  rw [get_set, if_neg (Ne.symm hne), hg]

theorem holds_of_get {b : Backend}
    (h : Holds revisions u b revision) (hg : revisions'.get u = revisions.get u) : Holds revisions' u b revision := by
  rw [Holds, hg]
  exact h

variable [DecidableEq Place] {locate : Uri → Place}

theorem kept_step (h : Kept s) (hm : Moves locate s t) : Kept t := by
  cases hm with
  | aside _ ha | read _ _ _ _ _ _ ha | snapshot _ _ _ _ _ _ ha | send _ _ _ _ _ _ ha => exact h.aside ha
  | replace id uri content backend on opened file revision hc hf hrev hr ha =>
    exact h.log (.replaced uri backend on opened.revision file ⟨content, s.issued.length⟩) (by simp) ha rfl
      fun _ _ _ _ hh => hh
  | shuffle moves news ha hp => exact (h.same rfl rfl : Kept (s.shuffle moves)).aside ha
  | overwrite p content ha => exact (h.same rfl rfl : Kept (s.write p content none)).aside ha
  | compare r uri opened todo left file hf ha =>
    exact h.log (.compared uri r.new file.revision) (by simp) ha rfl fun _ _ _ _ hh => hh
  | accept id uri backend content revision hc ha =>
    exact h.log (.accepted uri backend revision content) (by simp) ha rfl fun _ _ _ hno hh => holds_set hno hh
  | save id uri content backend on opened revision hc hg ha =>
    refine (h.grow [.saved uri on (some revision) true] rfl (fun u b r hno hh => ?_) ?_).aside ha
    · exact holds_set (fun heq => hno _ (mem_singleton_self _) ⟨heq, rfl⟩) hh
    · intro mid u b r later hes
      cases mid with
      | nil =>
        obtain ⟨he, -⟩ := List.cons.inj hes
        cases he
        exact ⟨_, get_set_self _ _ _, rfl, rfl⟩
      | cons e mid => simp at hes
  | unrecorded uri on revision ha =>
    exact h.log (.saved uri on revision false) (by simp) ha rfl fun _ _ _ _ hh => hh
  | rebind id r uri opened todo left hc hg ha =>
    exact h.log (.rebound uri opened.backend r.new opened.revision) (by simp) ha rfl
      fun _ _ _ hno hh => holds_set hno hh
  | rename «from» «to» backend fuel revisions hr ha =>
    refine h.log (.renamed «from» «to») (by simp) ha rfl fun u _ _ hno hh => holds_of_get hh ?_
    have hpaths : «from».under u = false ∧ «to».under u = false := by simpa [Touches] using hno
    exact renameRevisions_get hpaths.1 hpaths.2 hr
  | move backend pairs ha =>
    refine (h.grow (pairs.map fun pair => .renamed pair.1 pair.2) rfl (fun u b r hno hh => ?_) ?_).aside ha
    · refine holds_of_get hh (movesRevisions_get fun pair hp => ?_)
      simpa [Touches] using hno _ (mem_map.2 ⟨pair, hp, rfl⟩)
    · intro mid u b r later hes
      have hmem : Event.saved u b (some r) true ∈ pairs.map fun pair => Event.renamed pair.1 pair.2 := by
        rw [hes]
        exact mem_append_right _ mem_cons_self
      simp at hmem
  | delete uri fuel revisions hr ha =>
    refine h.log (.deleted uri) (by simp) ha rfl fun _ _ _ hno hh => holds_of_get hh ?_
    exact deleteRevisions_get (by simpa [Touches] using hno) hr
  | forget uri ha =>
    refine h.log (.forgot uri) (by simp) ha rfl fun _ _ _ hno hh => holds_of_get hh ?_
    exact (get_erase _ _ _).trans (if_neg (Ne.symm hno))
  | dispose backend fuel revisions hr ha =>
    refine h.log (.disposed backend) (by simp) ha rfl fun _ _ _ hno hh => ?_
    obtain ⟨opened, hg, hb, hrev⟩ := hh
    exact ⟨opened, disposeRevisions_get hg (fun heq => hno (heq.symm.trans hb)) hr, hb, hrev⟩

theorem kept_of_run {l : List (Transition (State Place) (Action Place))} (h : Run lower locate l s) : Kept s := by
  refine h.invariant (fun s hs => ?_) fun _ _ _ hs hn => kept_step hs (moves_of_next hn)
  intro earlier u b revision later hj
  rw [hs.journal] at hj
  simp at hj

end RemoteFiles
end Yuzora
