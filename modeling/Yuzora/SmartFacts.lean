import Yuzora.SmartSteps
/-!
# SmartFacts — the facts of a smart checkout that no other client can make false

Where the entries that the checkout pushed are, what a push makes of the repository, and how a pushed entry is found
again in the list.
-/
namespace Yuzora
namespace Git

open List

variable {δ : Type} {refs : Refs} {labels : List String}

/-! ## Facts that last -/

variable (e : StashEntry δ)

/-- The entry's changes are in the worktree, merged or as conflicts. -/
def Back (s : Repo δ) : Prop := ∀ c ∈ e.changes, c ∈ s.changes

def Listed (s : Repo δ) : Prop := e ∈ s.pushed ∧ e ∈ s.stash.entries

def Gone (s : Repo δ) : Prop := e ∈ s.stash.commits ∧ e ∉ s.stash.entries

def Under (s : Repo δ) : Prop :=
  e ∈ s.pushed ∧ Placed e (fun _ => True) (fun x => x ∉ s.pushed) s

def OnlyOn (label : String) (es : List (StashEntry δ)) (s : Repo δ) : Prop :=
  ∀ e ∈ s.stash.commits, messageOf e.subject = some label → e ∈ es

variable {s t : Repo δ} {e : StashEntry δ}

section
variable (ho : Other labels s t)
include ho

theorem Other.back (h : Back e s) : Back e t := by
  intro c hc
  rw [ho.frame.2.2.2.1]
  exact h c hc

theorem Other.pushed : t.pushed = s.pushed := ho.frame.2.2.2.2.2

theorem Other.unmerged : t.unmerged = s.unmerged := ho.frame.2.2.2.2.1

theorem Other.listed (h : Listed e s) : Listed e t := by
  refine ⟨by rw [ho.pushed]; exact h.1, ?_⟩
  obtain ⟨newer, older, hsplit⟩ := append_of_mem h.2
  exact (ho.placed h.1 (fun _ _ => trivial)
    ⟨newer, older, hsplit, fun _ _ => trivial, fun _ _ => trivial⟩ : Placed e (fun _ => True) (fun _ => True) t).mem

theorem Other.stillGone (h : Gone e s) : Gone e t :=
  ⟨ho.kept h.1, ho.gone h.1 h.2⟩

theorem Other.under (h : Under e s) : Under e t := by
  unfold Under
  rw [ho.pushed]
  exact ⟨h.1, ho.placed h.1 (fun _ _ => trivial) h.2⟩

end

variable {label : String} {es : List (StashEntry δ)}

theorem Other.onlyOn (ho : Other labels s t) (hl : label ∈ labels)
    (h : OnlyOn label es s) : OnlyOn label es t := by
  intro e he hm
  rcases ho.commits e he with he | ⟨-, hno⟩
  · exact h e he hm
  · exact absurd hm (hno label hl)

theorem Other.made (ho : Other labels s t) (h : Made s) : Made t := by
  intro e he
  rw [ho.pushed] at he
  exact ho.kept (h e he)

theorem Other.clean (ho : Other labels s t) (h : s.trackedChanges refs = []) :
    t.trackedChanges refs = [] := by
  obtain ⟨-, hcommit, hindex, hchanges, -, -⟩ := ho.frame
  unfold Repo.trackedChanges Repo.tracks at *
  rw [hcommit, hindex, hchanges]
  exact h

theorem fixed_back (e : StashEntry δ) : Fixed refs labels (Back e) := fun _ _ h ho => Other.back ho h

theorem fixed_gone (e : StashEntry δ) : Fixed refs labels (Gone e) := fun _ _ h ho => Other.stillGone ho h

theorem fixed_under (e : StashEntry δ) : Fixed refs labels (Under e) := fun _ _ h ho => Other.under ho h

theorem fixed_unmerged (p : List String → Prop) : Fixed (δ := δ) refs labels fun s => p s.unmerged := by
  intro s t hs ho
  rw [Other.unmerged ho]
  exact hs

/-! ## Where a checkout is -/

/-- The entries pushed so far: those of `L` are in the stash, below any other. -/
structure Base (L own : List (StashEntry δ)) (s : Repo δ) : Prop where
  pushed : s.pushed = L ++ own
  made : Made s
  under : ∀ e ∈ L, Under e s

/-- No tracked change is in the worktree, and the label of the untracked files is not in use. -/
structure Ready (refs : Refs) (label : String) (L : List (StashEntry δ)) (s : Repo δ) : Prop where
  base : Base L [] s
  unused : OnlyOn label [] s
  clean : s.trackedChanges refs = []
  merged : s.unmerged = []

/-- The untracked files at the paths are parked. -/
structure Parked (label : String) (paths : List String) (L : List (StashEntry δ)) (B : StashEntry δ) (s : Repo δ) :
    Prop where
  base : Base L [B] s
  new : B ∉ L
  listed : Listed B s
  message : messageOf B.subject = some label
  only : OnlyOn label [B] s
  tracked : B.tracked = []
  within : ∀ c ∈ B.untracked, c.path ∈ paths
  merged : s.unmerged = []

variable {L : List (StashEntry δ)}

theorem Other.base (ho : Other labels s t) {own : List (StashEntry δ)} (h : Base L own s) :
    Base L own t := ⟨ho.pushed.trans h.pushed, ho.made h.made, fun e he => ho.under (h.under e he)⟩

theorem fixed_base (L own : List (StashEntry δ)) : Fixed refs labels (Base L own) := fun _ _ h ho => Other.base ho h

theorem fixed_ready (hl : label ∈ labels) (L : List (StashEntry δ)) :
    Fixed refs labels (Ready refs label L) := by
  intro s t h ho
  exact ⟨Other.base ho h.base, Other.onlyOn ho hl h.unused, Other.clean ho h.clean, (Other.unmerged ho).trans h.merged⟩

variable {B : StashEntry δ} {paths : Option (List String)} {before : Option String}

theorem Other.parked (ho : Other labels s t) (hl : label ∈ labels) {paths : List String} (h : Parked label paths L B s) : Parked label paths L B t :=
  { h with
    base := ho.base h.base
    listed := ho.listed h.listed
    only := ho.onlyOn hl h.only
    merged := ho.unmerged.trans h.merged }

theorem fixed_parked (hl : label ∈ labels) (paths : List String) (L : List (StashEntry δ))
    (B : StashEntry δ) : Fixed refs labels (Parked label paths L B) := fun _ _ h ho => Other.parked ho hl h

/-! ## Pushing -/

theorem Head.label_plain (head : Head) : ':' ∉ head.label.toList := by
  cases head with
  | branch name => exact name.plain
  | detached oid =>
    change ':' ∉ "(no branch)".toList
    decide

theorem messageOf_push (head : Head) (message : String) :
    messageOf ("On " ++ head.label ++ ": " ++ message) = some message := by
  have hplain : ':' ∉ ("On " ++ head.label).toList := by
    rw [String.toList_append, mem_append]
    exact fun h => h.elim (by decide) head.label_plain
  unfold messageOf
  rw [String.toList_append, String.toList_append]
  exact (congrArg _ (splitOnce_append message.toList hplain)).trans (congrArg some String.ofList_toList)

theorem not_mem_entries (fresh : e.oid ∉ s.stash.commits.map (·.oid)) :
    e ∉ s.stash.commits ∧ e ∉ s.stash.entries :=
  ⟨fun h => fresh (mem_map_of_mem h), fun h => fresh (mem_map_of_mem (s.stash.stored e h))⟩

theorem Base.push (h : Base L [] s) (refs : Refs)
    (paths : Option (List String)) (fresh : B.oid ∉ s.stash.commits.map (·.oid)) :
    Base L [B] (s.pushEntry refs paths B fresh) ∧ B ∉ L ∧ Listed B (s.pushEntry refs paths B fresh) := by
  have hpushed : s.pushed = L := by simpa using h.pushed
  obtain ⟨hcommit, hentry⟩ := not_mem_entries fresh
  have hnew : B ∉ L := fun hB => hcommit (h.made B (hpushed ▸ hB))
  have below : ∀ x ∈ s.stash.entries, x ∉ s.pushed → x ∉ s.pushed ++ [B] := by
    intro x hx hno hmem
    rcases mem_append.1 hmem with hmem | hmem
    · exact hno hmem
    · exact hentry (mem_singleton.1 hmem ▸ hx)
  refine ⟨⟨congrArg (· ++ [B]) hpushed, fun e he => ?_, fun e he => ?_⟩, hnew,
    mem_append_right _ (mem_singleton_self B), mem_cons_self⟩
  · rcases mem_append.1 he with he | he
    · exact mem_cons_of_mem _ (h.made e he)
    · rw [mem_singleton.1 he]
      exact mem_cons_self
  · obtain ⟨hmem, newer, older, hs, -, hold⟩ := h.under e he
    refine ⟨mem_append_left _ hmem, B :: newer, older, congrArg (B :: ·) hs, fun _ _ => trivial, fun x hx => ?_⟩
    exact below x (hs ▸ mem_append_right _ (mem_cons_of_mem _ hx)) (hold x hx)

theorem Base.pushFirst {A : StashEntry δ} (h : Base [] [] s)
    (fresh : A.oid ∉ s.stash.commits.map (·.oid)) : Base [A] [] (s.pushEntry refs paths A fresh) := by
  obtain ⟨hb, -, hl⟩ := h.push refs paths fresh
  refine ⟨hb.pushed, hb.made, fun e he => ?_⟩
  rw [mem_singleton.1 he]
  refine ⟨hl.1, [], s.stash.entries, rfl, fun _ _ => trivial, fun x hx hmem => ?_⟩
  rw [hb.pushed, nil_append, mem_singleton] at hmem
  exact (not_mem_entries fresh).2 (hmem ▸ hx)

theorem OnlyOn.push (h : OnlyOn label es s) (fresh : e.oid ∉ s.stash.commits.map (·.oid))
    (he : messageOf e.subject = some label → e ∈ es) : OnlyOn label es (s.pushEntry refs paths e fresh) := by
  intro x hx hm
  rcases mem_cons.1 hx with rfl | hx
  · exact he hm
  · exact h x hx hm

theorem Ready.park {paths : List String}
    (h : Ready refs label L s) (hp : Pushes refs s label (some paths) B)
    (fresh : B.oid ∉ s.stash.commits.map (·.oid)) :
    Parked label paths L B (s.pushEntry refs (some paths) B fresh) := by
  obtain ⟨hb, hnew, hl⟩ := h.base.push refs (some paths) fresh
  refine ⟨hb, hnew, hl, hp.subject ▸ messageOf_push s.head label, ?_, ?_, fun c hc => ?_, h.merged⟩
  · refine OnlyOn.push (fun e he hm => ?_) fresh fun _ => mem_singleton_self B
    cases h.unused e he hm
  · rw [hp.tracked, h.clean, filter_nil]
  · rw [hp.untracked] at hc
    simpa using (mem_filter.1 hc).2

theorem Repo.pushEntry_clean (fresh : e.oid ∉ s.stash.commits.map (·.oid)) :
    (s.pushEntry refs none e fresh).trackedChanges refs = [] := by
  refine filter_eq_nil_iff.2 fun c hc => ?_
  obtain ⟨-, hc⟩ := mem_filter.1 hc
  unfold tracks at hc ⊢
  simp only [Option.all_none, Option.isSome_none, Bool.false_or, Bool.true_and, Bool.not_eq_true', Bool.or_eq_false_iff] at hc
  have hno : c.path ∉ refs.files s.commit := by simpa using hc.2
  simp [pushEntry, hno]

/-! ## Finding what was pushed -/

theorem splitOnce_row (e : StashEntry δ) :
    splitOnce ['\x1f'] (e.oid.text ++ "\x1f" ++ e.subject).toList = some (e.oid.text.toList, e.subject.toList) := by
  rw [String.toList_append, String.toList_append]
  refine splitOnce_append e.subject.toList fun h => ?_
  have hx := e.oid.isHexDigit_of_mem h
  revert hx
  decide

def rows (entries : List (StashEntry δ)) : List String := entries.map fun e => e.oid.text ++ "\x1f" ++ e.subject

theorem findPushed_cons (before : Option String) (message : String) (e : StashEntry δ) (rest : List (StashEntry δ))
    (ours : Option String) :
    findPushed before message (rows (e :: rest)) ours =
      if some e.oid.text = before then .ok ours
      else if messageOf e.subject = some message then
        if ours.isSome then .error ("git stash: more than one new \"" ++ message ++ "\" stash; all are kept")
        else findPushed before message (rows rest) (some e.oid.text)
      else findPushed before message (rows rest) ours := by
  change findPushed before message ((e.oid.text ++ "\x1f" ++ e.subject) :: rows rest) ours = _
  rw [findPushed, splitOnce_row]
  simp only [String.ofList_toList]

theorem findPushed_some {message o : String} : ∀ {entries : List (StashEntry δ)} {ours : Option String},
    findPushed before message (rows entries) ours = .ok (some o) →
      ours = some o ∨ ∃ e ∈ entries, messageOf e.subject = some message ∧ e.oid.text = o
  | [], ours, h => .inl (Except.ok.inj h)
  | e :: rest, ours, h => by
    rw [findPushed_cons] at h
    split at h
    · exact .inl (Except.ok.inj h)
    split at h
    · rename_i hm
      split at h
      · cases h
      · rcases findPushed_some h with h | ⟨x, hx, hx'⟩
        · exact .inr ⟨e, mem_cons_self, hm, Option.some.inj h⟩
        · exact .inr ⟨x, mem_cons_of_mem _ hx, hx'⟩
    · rcases findPushed_some h with h | ⟨x, hx, hx'⟩
      · exact .inl h
      · exact .inr ⟨x, mem_cons_of_mem _ hx, hx'⟩

theorem findPushed_none {message : String} {e : StashEntry δ} :
    ∀ {newer older : List (StashEntry δ)} {ours : Option String},
      findPushed before message (rows (newer ++ e :: older)) ours = .ok none → (∀ x ∈ newer, some x.oid.text ≠ before) →
        some e.oid.text ≠ before → messageOf e.subject ≠ some message
  | [], older, ours, h, _, hne, hm => by
    rw [nil_append, findPushed_cons, if_neg hne, if_pos hm] at h
    split at h
    · cases h
    · have hsome : ∀ (entries : List (StashEntry δ)) (o : String),
          findPushed before message (rows entries) (some o) ≠ .ok none := by
        intro entries
        induction entries with
        | nil => exact fun o hx => by cases Except.ok.inj hx
        | cons x rest ih =>
          intro o hx
          rw [findPushed_cons] at hx
          split at hx
          · cases Except.ok.inj hx
          split at hx
          · cases hx
          · exact ih o hx
      exact hsome _ _ h
  | x :: newer, older, ours, h, hn, hne, hm => by
    rw [cons_append, findPushed_cons, if_neg (hn x mem_cons_self)] at h
    have hrest := fun y hy => hn y (mem_cons_of_mem _ hy)
    split at h
    · split at h
      · cases h
      · exact findPushed_none h hrest hne hm
    · exact findPushed_none h hrest hne hm

end Git
end Yuzora
