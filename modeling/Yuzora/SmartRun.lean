import Yuzora.SmartFacts
/-!
# SmartRun — a switch over untracked files, among other clients

Parking the files, restoring and dropping them: the entry is back in the worktree and gone, or its label is in the
error.
-/
namespace Yuzora
namespace Git

open List

variable {δ : Type} {refs : Refs} {labels : List String} {P : Repo δ → Prop}

/-! ## Parking -/

theorem pushedStash_spec (hP : Fixed refs labels P) (before : Option String) (message : String) :
    Spec refs labels P (pushedStash before message) fun r s => P s ∧
      ((∃ error, r = .error error) ∨ r = findPushed before message (rows s.stash.entries) none) := by
  refine World.Meets.bind (runOk_reads hP rfl) (fun listed => World.Meets.ofExcept fun s hs => ⟨hs.1, .inr ?_⟩)
    fun e s hs => ⟨hs.1, .inl ⟨e, rfl⟩⟩
  obtain ⟨he, hcode⟩ := hs.2 listed rfl
  cases he with
  | failed _ _ hne => exact absurd hcode hne
  | stashList => rfl

/-- How parking untracked files ends. -/
inductive ParkResult (refs : Refs) (label : String) (paths : List String) (L : List (StashEntry δ)) :
    Except String (Option String) → Repo δ → Prop
  | refused {error : String} {s : Repo δ} : Ready refs label L s → ParkResult refs label paths L (.error error) s
  | lost {error : String} {s : Repo δ} (B : StashEntry δ) : Parked label paths L B s → contains error label = true →
      ParkResult refs label paths L (.error error) s
  | nothing {s : Repo δ} : Ready refs label L s → ParkResult refs label paths L (.ok none) s
  | parked {s : Repo δ} (B : StashEntry δ) : Parked label paths L B s →
      ParkResult refs label paths L (.ok (some B.oid.text)) s

/-- Nothing was parked, or the entry was and is above `before`. -/
def JustParked (refs : Refs) (label : String) (paths : List String) (L : List (StashEntry δ)) (before : Option String)
    (s : Repo δ) : Prop :=
  Ready refs label L s ∨ ∃ B, Parked label paths L B s ∧ some B.oid.text ≠ before ∧
    (∀ o, before = some o → ∃ e ∈ s.stash.commits, e.oid.text = o) ∧
    Placed B (fun x => some x.oid.text ≠ before) (fun _ => True) s

variable {label : String}

theorem fixed_justParked (h : label ∈ labels) (paths : List String) (L : List (StashEntry δ))
    (before : Option String) : Fixed refs labels (JustParked refs label paths L before) := by
  intro s t hs ho
  rcases hs with hs | ⟨B, hB, hne, hb, hpl⟩
  · exact .inl (fixed_ready h L s t hs ho)
  · refine .inr ⟨B, Other.parked ho h hB, hne, fun o hbo => ?_, ?_⟩
    · obtain ⟨e, he, heq⟩ := hb o hbo
      exact ⟨e, Other.kept ho he, heq⟩
    · refine Other.placed ho hB.listed.1 (fun x hx heq => ?_) hpl
      obtain ⟨e, he, heo⟩ := hb _ heq.symm
      exact hx (GitOid.ext_text heo ▸ mem_map_of_mem he)

theorem parkUntracked_spec (h : label ∈ labels) (paths : List String) (L : List (StashEntry δ)) :
    Spec refs labels (Ready refs label L) (parkUntracked paths label) (ParkResult refs label paths L) := by
  refine World.Meets.bind (stashTop_spec (fixed_ready h L) none) (fun before => ?_) fun e s hs => .refused hs.1
  have hfixed : Fixed refs labels fun s => Ready refs label L s ∧
      ∀ o, before = some o → ∃ e ∈ s.stash.commits, e.oid.text = o := by
    refine (fixed_ready h L).and fun s t hs ho o hbo => ?_
    obtain ⟨e, he, heq⟩ := hs o hbo
    exact ⟨e, Other.kept ho he, heq⟩
  refine World.Meets.mono (P := fun s => Ready refs label L s ∧
      ∀ o, before = some o → ∃ e ∈ s.stash.commits, e.oid.text = o) ?_
    (fun s hs => ⟨hs.1, fun o hbo => hs.2 o (hbo ▸ rfl)⟩) fun r s hs => hs
  refine World.Meets.bind (R := fun r s => (∀ e, r = .error e → Ready refs label L s) ∧
      ∀ out, r = .ok out → (out.code ≠ 0 → Ready refs label L s) ∧ JustParked refs label paths L before s)
    (runGit_spec hfixed fun s hs _ => ⟨fun e he => ?_, fun r t hx => ?_⟩) (fun out => ?_) fun e s hs => .refused (hs.1 e rfl)
  · cases he
  · obtain ⟨hready, hb⟩ := hs
    have kept : (∀ e, r = .error e → Ready refs label L s) ∧
        ∀ out, r = .ok out → (out.code ≠ 0 → Ready refs label L s) ∧ JustParked refs label paths L before s :=
      ⟨fun _ _ => hready, fun _ _ => ⟨fun _ => hready, .inl hready⟩⟩
    cases hx with
    | unavailable | failed | nothingParked => exact kept
    | parked _ stdout stderr _ B fresh hpush =>
      have hparked := hready.park hpush fresh
      have habove : ∀ o, before = some o → o ≠ B.oid.text := by
        intro o hbo heq
        obtain ⟨e, he, heo⟩ := hb o hbo
        exact fresh (GitOid.ext_text (heo.trans heq) ▸ mem_map_of_mem he)
      refine ⟨fun e he => ?_, fun out ho => ⟨fun hne => ?_, .inr ⟨B, hparked, ?_, fun o hbo => ?_, ?_⟩⟩⟩
      · cases he
      · cases ho
        exact absurd rfl hne
      · exact fun heq => habove _ heq.symm rfl
      · obtain ⟨e, he, heo⟩ := hb o hbo
        exact ⟨e, mem_cons_of_mem _ he, heo⟩
      · exact ⟨[], s.stash.entries, rfl, by simp, fun _ _ => trivial⟩
  · by_cases hcode : out.code ≠ 0
    · rw [if_pos hcode]
      exact World.Meets.throw fun s hs => .refused ((hs.2 out rfl).1 hcode)
    rw [if_neg hcode]
    refine World.Meets.mono (P := JustParked refs label paths L before) (World.Meets.mapError ?_)
      (fun s hs => (hs.2 out rfl).2) fun r s hs => hs
    refine (pushedStash_spec (fixed_justParked h paths L before) before label).mono (fun s hs => hs) fun r s hs => ?_
    obtain ⟨hs, hr⟩ := hs
    have lost : ∀ error, r = .error error → ParkResult refs label paths L (r.mapError fun error =>
        error ++ "\ngit stash: your untracked files may be kept in the stash \"" ++ label ++ "\"") s := by
      rintro error rfl
      rcases hs with hs | ⟨B, hB, -⟩
      · exact .refused hs
      · exact .lost B hB (contains_append_left _ (contains_append_right _ (contains_iff.2 infix_rfl)))
    rcases hr with ⟨error, hr⟩ | hr
    · exact lost error hr
    match r, hr with
    | .error error, _ => exact lost error rfl
    | .ok none, hr =>
      rcases hs with hs | ⟨B, hB, hne, -, newer, older, hs, hn, -⟩
      · exact .nothing hs
      · rw [hs] at hr
        exact absurd hB.message (findPushed_none hr.symm hn hne)
    | .ok (some o), hr =>
      rcases findPushed_some hr.symm with ho | ⟨e, he, hm, rfl⟩
      · cases ho
      rcases hs with hs | ⟨B, hB, -⟩
      · cases hs.unused e (s.stash.stored e he) hm
      · rw [mem_singleton.1 (hB.only e (s.stash.stored e he) hm)]
        exact .parked B hB

/-! ## The check and the next command -/

theorem stashTop_check (hP : Fixed refs labels P) (o : String) (calm : Bool) (s : Repo δ) (hs : P s) :
    (stashWorld refs labels).Ensures SecondPopClear OwnTarget (stashTop (some o)) (fun r calm s => P s ∧
      (r = .ok (some o) → calm = true ∧ ∃ e, s.stash.entries.head? = some e ∧ e.oid.text = o)) calm s := by
  refine World.Ensures.bind (World.Ensures.bind (World.Ensures.command hP hs fun t ht _ =>
    ⟨ownTarget_of_reads t rfl, fun r u he => ?_⟩))
  obtain rfl := he.reads rfl
  cases r with
  | error e =>
    refine ⟨ht, fun ho => ?_⟩
    cases ho
  | ok out =>
    refine ⟨ht, fun ho => ?_⟩
    have ho := Except.ok.inj ho
    split at ho
    · rename_i hcode
      have ho := Option.some.inj ho
      refine ⟨?_, ?_⟩
      · change (decide (out.code = 0) && decide (trim out.stdout = o)) = true
        rw [hcode, ho]
        simp
      · cases he with
        | failed _ _ hne => exact absurd hcode hne
        | revParseStash _ entry stderr htop =>
          refine ⟨entry, htop, ?_⟩
          rw [← ho]
          exact entry.oid.trim_line.symm
    · cases ho

variable {s : Repo δ}

theorem runGit_still {c : Command} {Q : Except String (GitOutput c.Stdout) → Repo δ → Prop}
    (h : SecondPopClear s c → OwnTarget s c ∧ ∀ r t, Exec refs s c r t → Q r t) :
    (stashWorld refs labels).Ensures SecondPopClear OwnTarget (runGit c) (fun r _ t => Q r t) true s := by
  refine World.Ensures.bind (World.Ensures.still fun ha => ⟨(h ha).1, fun r t he => ?_⟩)
  have hQ := (h ha).2 r t he
  cases r with
  | error | ok => exact hQ

theorem runOk_still {c : Command} {Q : Except String (GitOutput c.Stdout) → Repo δ → Prop}
    (h : SecondPopClear s c → OwnTarget s c ∧ ∀ r t, Exec refs s c r t → Q (okOnly c r) t) :
    (stashWorld refs labels).Ensures SecondPopClear OwnTarget (runOk c) (fun r _ t => Q r t) true s := by
  refine World.Ensures.bind ((runGit_still (Q := fun r t => Q (okOnly c r) t) h).mono fun r calm t hQ => ?_)
  cases r with
  | error e => exact hQ
  | ok out =>
    rw [okOnly_ok] at hQ
    dsimp only
    by_cases hcode : out.code ≠ 0
    · rw [if_pos hcode] at hQ
      rw [if_pos hcode]
      exact hQ
    · rw [if_neg hcode] at hQ
      rw [if_neg hcode]
      exact hQ

/-! ## Restoring the untracked files -/

variable {paths : List String}

theorem Exec.restored_inv {t : Repo δ} {source : String} {r : Reply (.restoreWorktree source paths)}
    (h : Exec refs s (.restoreWorktree source paths) r t) :
    t = s ∧ (∀ out, r = .ok out → out.code ≠ 0) ∨ ∃ entry ∈ s.stash.commits, source = entry.oid.text ++ "^3" ∧
      t = { s with
        changes := s.changes.filter (fun c => !paths.contains c.path) ++
          entry.untracked.filter fun c => paths.contains c.path } := by
  cases h with
  | unavailable => exact .inl ⟨rfl, nofun⟩
  | failed _ out hne =>
    refine .inl ⟨rfl, fun out' ho => ?_⟩
    rw [← Except.ok.inj ho]
    exact hne
  | restored entry _ stdout stderr he => exact .inr ⟨entry, he, rfl, rfl⟩

variable {e : StashEntry δ}

theorem Stash.gone_drop (h : s.stash.entries.head? = some e) : Gone e { s with stash := s.stash.drop } := by
  obtain ⟨rest, hs⟩ : ∃ rest, s.stash.entries = e :: rest := by
    cases hl : s.stash.entries with
    | nil => rw [hl] at h; cases h
    | cons x rest =>
      rw [hl] at h
      exact ⟨rest, by rw [Option.some.inj h]⟩
  refine ⟨s.stash.stored e (hs ▸ mem_cons_self), fun hmem => ?_⟩
  have hnd := s.stash.listed
  rw [hs, map_cons, nodup_cons] at hnd
  change e ∈ s.stash.entries.tail at hmem
  rw [hs] at hmem
  exact hnd.1 (mem_map_of_mem hmem)

variable {L : List (StashEntry δ)}

theorem Base.drop {own : List (StashEntry δ)} (h : Base L own s)
    (htop : s.stash.entries.head? = some e) (hne : e ∉ L) : Base L own { s with stash := s.stash.drop } := by
  refine ⟨h.pushed, h.made, fun x hx => ?_⟩
  obtain ⟨hmem, newer, older, hs, -, hold⟩ := h.under x hx
  refine ⟨hmem, newer.tail, older, ?_, fun _ _ => trivial, hold⟩
  change s.stash.entries.tail = _
  rw [hs] at htop ⊢
  cases newer with
  | nil =>
    cases htop
    exact absurd hx hne
  | cons y newer => rfl

/-- What the nested restore promises of the parked entry. -/
structure Restored (label : String) (L : List (StashEntry δ)) (B : StashEntry δ) (G : Head → Prop)
    (r : Except String Unit) (s : Repo δ) : Prop where
  base : Base L [B] s
  new : B ∉ L
  message : messageOf B.subject = some label
  merged : s.unmerged = []
  head : G s.head
  ok : r = .ok () → Back B s ∧ Gone B s
  error : ∀ error, r = .error error → Back B s ∨ Listed B s ∧ contains error label = true

theorem contains_keptUntracked (error label : String) : contains (error ++ "\n" ++ keptUntracked label) label = true :=
  contains_append_right _ (contains_append_left _ (contains_append_right _ (contains_iff.2 infix_rfl)))

theorem contains_restoredUntracked (label : String) : contains (restoredUntracked label) label = true :=
  contains_append_left _ (contains_append_right _ (contains_iff.2 infix_rfl))

variable {B : StashEntry δ} {error : String}

theorem Parked.kept {G : Head → Prop} (h : Parked label paths L B s) (hG : G s.head)
    (he : contains error label = true) : Restored label L B G (.error error) s := by
  refine ⟨h.base, h.new, h.message, h.merged, hG, fun ho => ?_, fun e ho => .inr ⟨h.listed, ?_⟩⟩
  · cases ho
  · rw [← Except.error.inj ho]
    exact he

theorem Parked.restored {entry : StashEntry δ} (h : Parked label paths L B s) (he : entry ∈ s.stash.commits)
    (hsource : B.oid.text ++ "^3" = entry.oid.text ++ "^3") :
    Back B { s with
      changes := s.changes.filter (fun c => !paths.contains c.path) ++
        entry.untracked.filter fun c => paths.contains c.path } := by
  have hB : B ∈ s.stash.commits := s.stash.stored B h.listed.2
  obtain rfl := Stash.eq_of_oid hB he (text_append_inj hsource)
  intro c hc
  unfold StashEntry.changes at hc
  rw [h.tracked, nil_append] at hc
  refine mem_append_right _ (mem_filter.2 ⟨hc, ?_⟩)
  simpa using h.within c hc

theorem restoreUntracked_spec (h : label ∈ labels) (paths : List String) (L : List (StashEntry δ))
    (B : StashEntry δ) (G : Head → Prop) :
    Spec refs labels (fun s => Parked label paths L B s ∧ G s.head) (restoreUntracked paths label B.oid.text)
      (Restored label L B G) := by
  have hfixed : Fixed (δ := δ) refs labels fun s => Parked label paths L B s ∧ G s.head :=
    (fixed_parked h paths L B).and (fixed_head G)
  refine World.Meets.bind (R := fun r s => (Parked label paths L B s ∧ G s.head) ∧
      (∀ error, r = .error error → contains error label = true) ∧ ∀ out, r = .ok out → out.code = 0 → Back B s)
    (World.Meets.mapError (runGit_spec hfixed fun s hs _ => ⟨fun e he => ?_, fun r t hx => ?_⟩)) (fun out => ?_)
    fun e s hs => hs.1.1.kept hs.1.2 (hs.2.1 e rfl)
  · rw [target_restore (hs.1.base.made B (hs.1.base.pushed ▸ mem_append_right _ (mem_singleton_self B))) he]
    exact hs.1.listed.1
  · have hkept : ∀ error, r.mapError (fun error => error ++ "\n" ++ keptUntracked label) = .error error →
        contains error label = true := by
      intro error he
      cases r with
      | error e =>
        rw [← Except.error.inj he]
        exact contains_keptUntracked e label
      | ok out => cases he
    obtain ⟨rfl, hno⟩ | ⟨entry, he, hsource, rfl⟩ := hx.restored_inv
    · refine ⟨hs, hkept, fun out ho hcode => ?_⟩
      cases r with
      | error e => cases ho
      | ok out' => exact absurd hcode (hno out (congrArg _ (Except.ok.inj ho)))
    · obtain ⟨⟨hpushed, hmade, hunder⟩, hnew, hlisted, hmessage, honly, htracked, hwithin, hmerged⟩ := hs.1
      exact ⟨⟨⟨⟨hpushed, hmade, hunder⟩, hnew, hlisted, hmessage, honly, htracked, hwithin, hmerged⟩, hs.2⟩,
        hkept, fun _ _ _ => hs.1.restored he hsource⟩
  by_cases hcode : out.code ≠ 0
  · rw [if_pos hcode]
    exact World.Meets.throw fun s hs => hs.1.1.kept hs.1.2 (contains_keptUntracked _ label)
  rw [if_neg hcode]
  have hback : Fixed (δ := δ) refs labels fun s => (Parked label paths L B s ∧ G s.head) ∧ Back B s :=
    hfixed.and (fixed_back B)
  have copied : ∀ s : Repo δ, (Parked label paths L B s ∧ G s.head) ∧ Back B s →
      Restored label L B G (.error (restoredUntracked label)) s :=
    fun s hs => hs.1.1.kept hs.1.2 (contains_restoredUntracked label)
  refine ⟨fun calm s hs => ?_⟩
  have hs : (Parked label paths L B s ∧ G s.head) ∧ Back B s := ⟨hs.1, hs.2.2 out rfl (not_not.1 hcode)⟩
  refine World.Ensures.bind (World.Ensures.attempt ((stashTop_check hback B.oid.text calm s hs).mono
    fun r calm s hr => ?_))
  obtain ⟨hs, hcheck⟩ := hr
  dsimp only
  by_cases htop : r.toOption.join = some B.oid.text
  · rw [if_pos htop]
    obtain rfl : r = .ok (some B.oid.text) := by
      cases r with
      | error e => cases htop
      | ok top => exact congrArg _ htop
    obtain ⟨rfl, e, he, hoid⟩ := hcheck rfl
    have heB : e = B := Stash.eq_of_oid (s.stash.stored e (mem_of_head? he)) (s.stash.stored B hs.1.1.listed.2)
      (GitOid.ext_text hoid)
    rw [heB] at he
    refine World.Ensures.bind (World.Ensures.attempt ((runOk_still (Q := fun r t =>
      (∀ out, r = .ok out → Restored label L B G (.ok ()) t) ∧
        ∀ error, r = .error error → Restored label L B G (.error (restoredUntracked label)) t)
      fun _ => ⟨fun e' he' => ?_, fun r t hx => ?_⟩).mono fun r calm t hr => ?_))
    · rw [← Option.some.inj (he.symm.trans he')]
      exact hs.1.1.listed.1
    · cases hx with
      | unavailable =>
        refine ⟨fun out ho => ?_, fun _ _ => copied s hs⟩
        cases ho
      | failed _ out hne =>
        refine ⟨fun out' ho => ?_, fun _ _ => copied s hs⟩
        rw [okOnly_ok, if_pos hne] at ho
        cases ho
      | dropped entry stdout stderr htop =>
        refine ⟨fun _ _ => ?_, fun e ho => by cases (okOnly_eq_ok.2 ⟨rfl, rfl⟩).symm.trans ho⟩
        refine ⟨hs.1.1.base.drop he hs.1.1.new, hs.1.1.new, hs.1.1.message, hs.1.1.merged, hs.1.2,
          fun _ => ⟨hs.2, Stash.gone_drop he⟩, fun e ho => ?_⟩
        cases ho
    · cases r with
      | error e => exact hr.2 e rfl
      | ok out => exact hr.1 out rfl
  · rw [if_neg htop]
    exact copied s hs

/-! ## Switching over untracked files -/

def Labelled (error : String) (e : StashEntry δ) : Prop :=
  ∃ label, messageOf e.subject = some label ∧ contains error label = true

/-- What became of an entry: gone from the stash with its changes back, or back or listed with the error that says so. -/
structure Settled (r : Except String Unit) (e : StashEntry δ) (s : Repo δ) : Prop where
  ok : r = .ok () → Back e s ∧ Gone e s
  error : ∀ error, r = .error error → Back e s ∨ Listed e s ∧ Labelled error e

/-- How a switch over untracked files ends: at most one entry was pushed on the way. -/
def Nested (arrived : Head → Prop) (L : List (StashEntry δ)) (r : Except String Unit) (s : Repo δ) : Prop :=
  ∃ own, Base L own s ∧ (∀ B ∈ own, B ∉ L ∧ Settled r B s) ∧ s.unmerged = [] ∧ (r = .ok () → arrived s.head)

theorem Labelled.append_left (h : Labelled error e) (t : String) : Labelled (error ++ t) e := by
  obtain ⟨label, hm, hl⟩ := h
  exact ⟨label, hm, contains_append_left t hl⟩

variable {arrived : Head → Prop}

theorem Ready.nested (h : Ready refs label L s) : Nested arrived L (.error error) s := by
  refine ⟨[], h.base, fun B hB => ?_, h.merged, fun ho => ?_⟩
  · cases hB
  · cases ho

variable {switch : Script Unit}

theorem Switches.ready (h : label ∈ labels) (hsw : Switches δ refs labels arrived switch) (L : List (StashEntry δ)) :
    Spec refs labels (Ready refs label L) switch fun r s =>
      (∀ e, r = .error e → Ready refs label L s) ∧ Nested arrived L r s := by
  have hQ : Fixed (δ := δ) refs labels fun s => Base L [] s ∧ s.unmerged = [] :=
    (fixed_base L []).and (fixed_unmerged (· = []))
  refine (hsw (Ready refs label L) (fun s => Base L [] s ∧ s.unmerged = []) (fixed_ready h L) hQ
    fun s head commit hs => ⟨⟨hs.base.pushed, hs.base.made, hs.base.under⟩, hs.merged⟩).mono (fun s hs => hs) fun r s hs => ?_
  refine ⟨hs.1, ?_⟩
  cases r with
  | error e => exact (hs.1 e rfl).nested
  | ok u =>
    obtain ⟨⟨hbase, hmerged⟩, harrived⟩ := hs.2 rfl
    refine ⟨[], hbase, fun B hB => ?_, hmerged, fun _ => harrived⟩
    cases hB

theorem Restored.nested
    {switched r : Except String Unit} (h : Restored label L B (fun head => switched = .ok () → arrived head) r s) :
    Nested arrived L (joined switched r) s := by
  refine ⟨[B], h.base, fun B' hB' => ?_, h.merged, fun ho => ?_⟩
  · rw [mem_singleton.1 hB']
    refine ⟨h.new, fun ho => ?_, fun error he => ?_⟩
    · match switched, r, ho with
      | .ok (), .ok (), _ => exact h.ok rfl
    · match switched, r, he with
      | .ok (), .error e, he =>
        refine (h.error e rfl).imp id fun hl => ⟨hl.1, label, h.message, ?_⟩
        rw [← Except.error.inj he]
        exact hl.2
      | .error _, .ok (), _ => exact .inl (h.ok rfl).1
      | .error e, .error e', he =>
        refine (h.error e' rfl).imp id fun hl => ⟨hl.1, label, h.message, ?_⟩
        rw [← Except.error.inj he]
        exact contains_append_right _ hl.2
  · match switched, r, ho with
    | .ok (), .ok (), _ => exact h.head rfl

theorem Parked.lost (h : Parked label paths L B s)
    (he : contains error label = true) : Nested arrived L (.error error) s := by
  refine ⟨[B], h.base, fun B' hB' => ?_, h.merged, fun ho => ?_⟩
  · rw [mem_singleton.1 hB']
    refine ⟨h.new, fun ho => ?_, fun e ho => .inr ⟨h.listed, label, h.message, ?_⟩⟩
    · cases ho
    · rw [← Except.error.inj ho]
      exact he
  · cases ho

theorem switchParked_spec (h : label ∈ labels)
    (hsw : Switches δ refs labels arrived switch) (paths : List String) (L : List (StashEntry δ)) (B : StashEntry δ) :
    Spec refs labels (Parked label paths L B) (do
        let switched ← switch.attempt
        let restored ← (restoreUntracked paths label B.oid.text).attempt
        Prog.ofExcept (joined switched restored)) (Nested arrived L) := by
  have hfixed : Fixed refs labels (Parked label paths L B) := fixed_parked h paths L B
  refine World.Meets.bindAttempt (R := fun switched s => Parked label paths L B s ∧ (switched = .ok () → arrived s.head))
    ((hsw _ _ hfixed hfixed fun s head commit hs => ?_).mono (fun s hs => hs) fun r s hs => ⟨?_, fun ho => (hs.2 ho).2⟩)
    fun switched => World.Meets.bindAttempt
      (restoreUntracked_spec h paths L B fun head => switched = .ok () → arrived head)
      fun restored => World.Meets.ofExcept fun s hs => hs.nested
  · obtain ⟨⟨hpushed, hmade, hunder⟩, hnew, hlisted, hmessage, honly, htracked, hwithin, hmerged⟩ := hs
    exact ⟨⟨hpushed, hmade, hunder⟩, hnew, hlisted, hmessage, honly, htracked, hwithin, hmerged⟩
  · cases r with
    | error e => exact hs.1 e rfl
    | ok u => exact (hs.2 rfl).1

theorem switchOverUntracked_spec {nonce : String} (h : stashLabel SMART_CHECKOUT_UNTRACKED_STASH nonce ∈ labels) (hsw : Switches δ refs labels arrived switch) (target : Option String)
    (L : List (StashEntry δ)) :
    Spec refs labels (Ready refs (stashLabel SMART_CHECKOUT_UNTRACKED_STASH nonce) L)
      (switchOverUntracked target switch nonce) (Nested arrived L) := by
  refine World.Meets.bindAttempt (hsw.ready h L) fun first => ?_
  cases first with
  | ok u => exact World.Meets.pure fun s hs => hs.2
  | error blocked =>
    refine World.Meets.mono (P := Ready refs (stashLabel SMART_CHECKOUT_UNTRACKED_STASH nonce) L) ?_
      (fun s hs => hs.1 blocked rfl) fun r s hs => hs
    dsimp only
    by_cases hblocked : contains blocked BLOCKED_BY_UNTRACKED = true
    · rw [if_pos hblocked]
      cases target with
      | none => exact World.Meets.throw fun s hs => hs.nested
      | some target =>
        refine World.Meets.bind (R := fun _ s => Ready refs (stashLabel SMART_CHECKOUT_UNTRACKED_STASH nonce) L s)
          (World.Meets.mapError (untrackedPathsTrackedBy_spec (fixed_ready h L) target)) (fun paths => ?_)
          fun e s hs => hs.nested
        by_cases hpaths : paths = []
        · rw [if_pos hpaths]
          exact World.Meets.throw fun s hs => hs.nested
        rw [if_neg hpaths]
        refine World.Meets.bind (R := fun r s => match r with
            | .error e => Nested arrived L (.error e) s
            | .ok none => Ready refs (stashLabel SMART_CHECKOUT_UNTRACKED_STASH nonce) L s
            | .ok (some parked) => ∃ B, parked = B.oid.text ∧
              Parked (stashLabel SMART_CHECKOUT_UNTRACKED_STASH nonce) paths L B s)
          (World.Meets.mapError ((parkUntracked_spec h paths L).mono (fun s hs => hs) fun r s hs => ?_))
          (fun parked => ?_) fun e s hs => hs
        · cases hs with
          | refused hs => exact hs.nested
          | lost B hB he => exact hB.lost (contains_append_right _ he)
          | nothing hs => exact hs
          | parked B hB => exact ⟨B, rfl, hB⟩
        · cases parked with
          | none => exact (hsw.ready h L).mono (fun s hs => hs) fun r s hs => hs.2
          | some parked =>
            refine World.Meets.exists fun B => ⟨fun calm s hs => ?_⟩
            obtain ⟨rfl, hB⟩ := hs
            exact (switchParked_spec h hsw paths L B).ensures calm s hB
    · rw [if_neg hblocked]
      exact World.Meets.throw fun s hs => hs.nested

end Git
end Yuzora
