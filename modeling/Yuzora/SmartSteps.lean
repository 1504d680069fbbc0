import Mathlib.Data.List.Nodup
import Yuzora.SmartCheckout
/-!
# SmartSteps — the steps of a smart checkout among other clients

What other clients leave alone, and one specification for each piece of the checkout that reads or switches.
-/
namespace Yuzora
namespace Git

open List

variable {δ : Type} {refs : Refs} {labels : List String}

/-! ## Entries that a command names -/

variable (s : Repo δ)

/-- The entry that a command pops, drops or writes to the worktree. -/
def target : Command → Option (StashEntry δ)
  | .stashPop _ | .stashDrop => s.stash.entries.head?
  | .restoreWorktree source _ => s.stash.commits.find? fun e => e.oid.text ++ "^3" = source
  | _ => none

def OwnTarget (c : Command) : Prop := ∀ e, target s c = some e → e ∈ s.pushed

def SecondPopClear (c : Command) : Prop :=
  c = .stashPop false → ∀ e, s.stash.entries.head? = some e → e ∈ s.pushed

/-- Every entry that the checkout pushed is a commit of the repository. -/
def Made : Prop := ∀ e ∈ s.pushed, e ∈ s.stash.commits

variable {e : StashEntry δ}

theorem Stash.eq_of_oid {stash : Stash δ} {e' : StashEntry δ} (he : e ∈ stash.commits) (he' : e' ∈ stash.commits)
    (h : e.oid = e'.oid) : e = e' := inj_on_of_nodup_map stash.distinct he he' h

theorem text_append_inj {a b : GitOid} {s : String} (h : a.text ++ s = b.text ++ s) : a = b := by
  apply GitOid.ext_text
  have hl := congrArg String.toList h
  rw [String.toList_append, String.toList_append] at hl
  exact String.toList_injective (append_cancel_right hl)

variable {s : Repo δ}

theorem target_restore {entry : StashEntry δ} {paths : List String} (he : entry ∈ s.stash.commits)
    (h : target s (.restoreWorktree (entry.oid.text ++ "^3") paths) = some e) : e = entry := by
  have hp := find?_some h
  rw [decide_eq_true_iff] at hp
  exact Stash.eq_of_oid (mem_of_find?_eq_some h) he (text_append_inj hp)

/-! ## What others leave alone -/

variable {t : Repo δ} {above below : StashEntry δ → Prop}

section
variable (h : Other labels s t)
include h

theorem Other.frame :
    t.head = s.head ∧ t.commit = s.commit ∧ t.index = s.index ∧ t.changes = s.changes ∧ t.unmerged = s.unmerged ∧
      t.pushed = s.pushed := by
  cases h with
  | push | drop => exact ⟨rfl, rfl, rfl, rfl, rfl, rfl⟩

theorem Other.commits : ∀ e, e ∈ t.stash.commits → e ∈ s.stash.commits ∨ e.oid ∉ s.stash.commits.map (·.oid) ∧
      ∀ label ∈ labels, messageOf e.subject ≠ some label := by
  intro e he
  cases h with
  | push entry fresh hl =>
    rcases mem_cons.1 he with rfl | he
    · exact .inr ⟨fresh, hl⟩
    · exact .inl he
  | drop => exact .inl he

theorem Other.kept (he : e ∈ s.stash.commits) : e ∈ t.stash.commits := by
  cases h with
  | push => exact mem_cons_of_mem _ he
  | drop => exact he

theorem Other.gone (hm : e ∈ s.stash.commits) (he : e ∉ s.stash.entries) : e ∉ t.stash.entries := by
  cases h with
  | push entry fresh hl =>
    intro hx
    rcases mem_cons.1 hx with rfl | hx
    · exact fresh (mem_map_of_mem hm)
    · exact he hx
  | drop newer older entry hs =>
    intro hx
    refine he (hs ▸ ?_)
    rcases mem_append.1 hx with hx | hx
    · exact mem_append_left _ hx
    · exact mem_append_right _ (mem_cons_of_mem _ hx)

end

theorem split_without {α : Type} {e x : α} (hne : x ≠ e) : ∀ {newer older a b : List α},
    newer ++ e :: older = a ++ x :: b →
      ∃ newer' older', a ++ b = newer' ++ e :: older' ∧ newer'.Sublist newer ∧ older'.Sublist older
  | [], older, [], b, h => absurd (List.cons.inj h).1.symm hne
  | [], older, y :: a, b, h => by
    cases h
    exact ⟨[], a ++ b, rfl, List.Sublist.refl _, List.Sublist.append_left (sublist_cons_self _ _) _⟩
  | y :: newer, older, [], b, h => by
    cases h
    exact ⟨newer, older, rfl, sublist_cons_self _ _, List.Sublist.refl _⟩
  | y :: newer, older, z :: a, b, h => by
    obtain ⟨rfl, hrest⟩ := List.cons.inj h
    obtain ⟨newer', older', heq, hn, ho⟩ := split_without hne hrest
    exact ⟨y :: newer', older', by rw [cons_append, heq, cons_append], hn.cons_cons y, ho⟩

/-- An entry in the stash, with what is known of the entries above it and below it. -/
def Placed (e : StashEntry δ) (above below : StashEntry δ → Prop) (s : Repo δ) : Prop :=
  ∃ newer older, s.stash.entries = newer ++ e :: older ∧ (∀ x ∈ newer, above x) ∧ ∀ x ∈ older, below x

theorem Placed.mem (h : Placed e above below s) : e ∈ s.stash.entries := by
  obtain ⟨newer, older, hs, -, -⟩ := h
  exact hs ▸ mem_append_right _ mem_cons_self

theorem Other.placed (h : Other labels s t)
    (hp : e ∈ s.pushed) (ha : ∀ x, x.oid ∉ s.stash.commits.map (·.oid) → above x) (he : Placed e above below s) :
    Placed e above below t := by
  obtain ⟨newer, older, hs, hn, ho⟩ := he
  cases h with
  | push entry fresh hl =>
    refine ⟨entry :: newer, older, congrArg (entry :: ·) hs, fun x hx => ?_, ho⟩
    rcases mem_cons.1 hx with rfl | hx
    · exact ha _ fresh
    · exact hn x hx
  | drop a b entry hd hx =>
    have hne : entry ≠ e := fun heq => hx (heq ▸ hp)
    obtain ⟨newer', older', heq, hsn, hso⟩ := split_without hne (hs.symm.trans hd)
    exact ⟨newer', older', heq, fun x hx => hn x (hsn.subset hx), fun x hx => ho x (hso.subset hx)⟩

/-! ## Commands that only read -/

def Command.reads : Command → Bool
  | .revParseStash _ | .stashList | .status | .trackedTwins | .revParseGitDir | .revParseCommit _ | .revParseSymbolic _
  | .lsFilesOthers | .catFileKinds _ | .branchSetUpstream _ _ => true
  | _ => false

variable {c : Command}

variable {r : Reply c}

theorem Exec.reads (h : Exec refs s c r t) (hc : c.reads = true) : t = s := by
  cases h <;> first | rfl | cases hc

theorem ownTarget_of_reads (s : Repo δ) (hc : c.reads = true) : OwnTarget s c := by
  intro e he
  cases c <;> first | cases he | cases hc

variable {P : Repo δ → Prop} {out : GitOutput c.Stdout}

/-- The specification of a script from `P`, among the other clients. -/
abbrev Spec (refs : Refs) (labels : List String) {α : Type} (P : Repo δ → Prop) (p : Script α)
    (Q : Except String α → Repo δ → Prop) : Prop :=
  (stashWorld refs labels).Meets SecondPopClear OwnTarget P p Q

abbrev Fixed (refs : Refs) (labels : List String) (P : Repo δ → Prop) : Prop := (stashWorld (δ := δ) refs labels).Stable P

theorem runGit_spec {Q : Except String (GitOutput c.Stdout) → Repo δ → Prop} (hP : Fixed refs labels P)
    (h : ∀ s, P s → SecondPopClear s c → OwnTarget s c ∧ ∀ r t, Exec refs s c r t → Q r t) :
    Spec refs labels P (runGit c) Q := by
  refine World.Meets.bind (World.Meets.command (Q := fun r t => ∃ reply, r = .ok reply ∧ Q reply t) hP
    fun s hs ha => ⟨(h s hs ha).1, fun r t he => ⟨r, rfl, (h s hs ha).2 r t he⟩⟩) (fun reply => ?_) fun e s hs => ?_
  · cases reply with
    | error e =>
      refine World.Meets.throw fun s hs => ?_
      obtain ⟨_, hr, hs⟩ := hs
      rwa [← Except.ok.inj hr] at hs
    | ok out =>
      refine World.Meets.pure fun s hs => ?_
      obtain ⟨_, hr, hs⟩ := hs
      rwa [← Except.ok.inj hr] at hs
  · obtain ⟨_, hr, -⟩ := hs
    cases hr

def okOnly (c : Command) : Reply c → Except String (GitOutput c.Stdout)
  | .error e => .error e
  | .ok out => if out.code ≠ 0 then .error (gitErr c.sub out.stderr) else .ok out

theorem okOnly_ok : okOnly c (.ok out) = if out.code ≠ 0 then .error (gitErr c.sub out.stderr) else .ok out := rfl

theorem okOnly_eq_ok : okOnly c r = .ok out ↔ r = .ok out ∧ out.code = 0 := by
  cases r with
  | error e =>
    constructor
    · exact nofun
    · exact fun h => nomatch h.1
  | ok out' =>
    rw [okOnly_ok]
    constructor
    · intro h
      split at h
      · cases h
      · rename_i hcode
        cases h
        exact ⟨rfl, not_not.1 hcode⟩
    · rintro ⟨h, hcode⟩
      cases h
      exact if_neg (not_not.2 hcode)

section
variable (hP : Fixed refs labels P)
include hP

theorem runOk_spec {Q : Except String (GitOutput c.Stdout) → Repo δ → Prop}
    (h : ∀ s, P s → SecondPopClear s c → OwnTarget s c ∧ ∀ r t, Exec refs s c r t → Q (okOnly c r) t) :
    Spec refs labels P (runOk c) Q := by
  refine World.Meets.bind (runGit_spec (Q := fun r t => Q (okOnly c r) t) hP h) (fun out => ?_) fun e s hs => hs
  by_cases hc : out.code ≠ 0
  · rw [if_pos hc]
    refine World.Meets.throw fun s hs => ?_
    rwa [okOnly_ok, if_pos hc] at hs
  · rw [if_neg hc]
    refine World.Meets.pure fun s hs => ?_
    rwa [okOnly_ok, if_neg hc] at hs

theorem runGit_reads (hc : c.reads = true) : Spec refs labels P (runGit c) fun r s => P s ∧ Exec refs s c r s := by
  refine runGit_spec hP fun s hs _ => ⟨ownTarget_of_reads s hc, fun r t he => ?_⟩
  obtain rfl := he.reads hc
  exact ⟨hs, he⟩

theorem runOk_reads (hc : c.reads = true) :
    Spec refs labels P (runOk c) fun r s => P s ∧ ∀ out, r = .ok out → Exec refs s c (.ok out) s ∧ out.code = 0 := by
  refine runOk_spec hP fun s hs _ => ⟨ownTarget_of_reads s hc, fun r t he => ?_⟩
  obtain rfl := he.reads hc
  refine ⟨hs, fun out hout => ?_⟩
  obtain ⟨rfl, hcode⟩ := okOnly_eq_ok.1 hout
  exact ⟨he, hcode⟩

/-! ## The reads of the checkout -/

theorem stashTop_spec (expected : Option String) : Spec refs labels P (stashTop expected) fun r s =>
      P s ∧ ∀ o, r = .ok (some o) → ∃ e ∈ s.stash.commits, e.oid.text = o := by
  refine World.Meets.bind (runGit_reads hP rfl) (fun out => World.Meets.pure fun s hs => ⟨hs.1, fun o ho => ?_⟩)
    fun e s hs => ⟨hs.1, by simp⟩
  obtain ⟨-, he⟩ := hs
  have ho := Except.ok.inj ho
  split at ho
  · rename_i hcode
    cases he with
    | failed _ _ hne => exact absurd hcode hne
    | revParseStash _ entry stderr htop =>
      refine ⟨entry, s.stash.stored entry (mem_of_head? htop), ?_⟩
      rw [← Option.some.inj ho]
      exact entry.oid.trim_line.symm
  · cases ho

variable (spec : String)

theorem resolveCommitOidOptional_spec : Spec refs labels P (resolveCommitOidOptional spec) fun r s =>
      P s ∧ ∀ oid, r = .ok (some oid) → refs.commit spec = some oid := by
  unfold resolveCommitOidOptional
  by_cases hempty : spec.toList = [] ∨ '\x00' ∈ spec.toList
  · rw [if_pos hempty]
    exact World.Meets.throw fun s hs => ⟨hs, by simp⟩
  rw [if_neg hempty]
  by_cases hoption : looksLikeGitOption spec
  · rw [if_pos hoption]
    exact World.Meets.throw fun s hs => ⟨hs, by simp⟩
  rw [if_neg hoption]
  refine World.Meets.bind (runGit_reads hP rfl) (fun out => ?_) fun e s hs => ⟨hs.1, by simp⟩
  by_cases hcode : out.code ≠ 0
  · rw [if_pos hcode]
    exact World.Meets.pure fun s hs => ⟨hs.1, by simp⟩
  rw [if_neg hcode]
  by_cases hblank : (trim out.stdout).toList = []
  · rw [if_pos hblank]
    exact World.Meets.pure fun s hs => ⟨hs.1, by simp⟩
  rw [if_neg hblank]
  refine World.Meets.bind (R := fun r s => P s ∧ ∀ oid, r = .ok oid → refs.commit spec = some oid)
    (World.Meets.ofExcept fun s hs => ⟨hs.1, fun oid ho => ?_⟩)
    (fun oid => World.Meets.pure fun s hs => ⟨hs.1, fun oid' ho => ?_⟩) fun e s hs => ⟨hs.1, by simp⟩
  · obtain ⟨-, he⟩ := hs
    cases he with
    | failed _ _ hne => exact absurd hne hcode
    | revParseCommit _ stderr oid' hres =>
      rw [GitOid.trim_line, GitOid.parse_text] at ho
      rw [hres, Except.ok.inj ho]
  · rw [← Option.some.inj (Except.ok.inj ho)]
    exact hs.2 oid rfl

theorem resolveCommitOid_spec :
    Spec refs labels P (resolveCommitOid spec) fun r s => P s ∧ ∀ oid, r = .ok oid → refs.commit spec = some oid := by
  refine World.Meets.bind (resolveCommitOidOptional_spec hP spec) (fun found => ?_) fun e s hs => ⟨hs.1, by simp⟩
  cases found with
  | none => exact World.Meets.throw fun s hs => ⟨hs.1, by simp⟩
  | some oid =>
    refine World.Meets.pure fun s hs => ⟨hs.1, fun oid' ho => ?_⟩
    cases ho
    exact hs.2 oid rfl

theorem remoteTrackingStartRef_spec :
    Spec refs labels P (remoteTrackingStartRef spec) fun _ s => P s := by
  unfold remoteTrackingStartRef
  split
  · exact World.Meets.pure fun s hs => hs
  refine World.Meets.bind (runGit_reads hP rfl) (fun out => ?_) fun e s hs => hs.1
  split
  · exact World.Meets.pure fun s hs => hs.1
  dsimp only
  split
  · split
    · exact World.Meets.pure fun s hs => hs.1
    · exact World.Meets.pure fun s hs => hs.1
  · exact World.Meets.pure fun s hs => hs.1

theorem resolveStart_spec (startPoint : Option String) :
    Spec refs labels P (resolveStart startPoint) fun _ s => P s := by
  cases startPoint with
  | none => exact World.Meets.pure fun s hs => hs
  | some spec =>
    refine World.Meets.bind (R := fun _ s => P s) ((resolveCommitOid_spec hP spec).mono (fun s hs => hs) fun r s hs => hs.1)
      (fun oid => ?_) fun e s hs => hs
    exact World.Meets.bind (remoteTrackingStartRef_spec hP spec) (fun upstream => World.Meets.pure fun s hs => hs)
      fun e s hs => hs

theorem untrackedPathsTrackedBy_spec (target : String) :
    Spec refs labels P (untrackedPathsTrackedBy target) fun _ s => P s := by
  refine World.Meets.bind (R := fun _ s => P s)
    ((resolveCommitOid_spec hP target).mono (fun s hs => hs) fun r s hs => hs.1) (fun oid => ?_) fun e s hs => hs
  refine World.Meets.bind (R := fun _ s => P s) ((runOk_reads hP rfl).mono (fun s hs => hs) fun r s hs => hs.1)
    (fun listed => ?_) fun e s hs => hs
  dsimp only
  split
  · exact World.Meets.pure fun s hs => hs
  refine World.Meets.bind (runGit_reads hP rfl) (fun kinds => ?_) fun e s hs => hs.1
  split
  · exact World.Meets.throw fun s hs => hs.1
  · exact World.Meets.pure fun s hs => hs.1

theorem statusConflicts_spec (root : Root) :
    Spec refs labels P (statusConflicts root) fun r s => P s ∧ ∀ paths, r = .ok paths → paths = s.unmerged := by
  have shown : ∀ paths : List String, Fixed refs labels fun s : Repo δ => P s ∧ paths = s.unmerged := by
    refine fun paths => hP.and fun s t hs ho => ?_
    rw [(Other.frame ho).2.2.2.2.1]
    exact hs
  refine World.Meets.bind (runGit_reads hP rfl) (fun out => ?_) fun e s hs => ⟨hs.1, by simp⟩
  by_cases hcode : out.code ≠ 0
  · rw [if_pos hcode]
    exact World.Meets.throw fun s hs => ⟨hs.1, by simp⟩
  rw [if_neg hcode]
  refine World.Meets.mono (P := fun s => P s ∧ out.stdout = s.unmerged) ?_ (fun s hs => ⟨hs.1, ?_⟩) fun r s hs => hs
  · refine World.Meets.bind (R := fun _ s => P s ∧ out.stdout = s.unmerged)
      (World.Meets.attempt ((runOk_reads (shown _) rfl).mono (fun s hs => hs) fun r s hs => hs.1))
      (fun twins => ?_) fun e s hs => ⟨hs.1, by simp⟩
    split
    · refine World.Meets.pure fun s hs => ⟨hs.1, fun paths hp => ?_⟩
      cases hp
      exact hs.2
    · refine World.Meets.bind (runOk_reads (shown _) rfl) (fun dir => World.Meets.pure fun s hs => ⟨hs.1.1, fun paths hp => ?_⟩)
        fun e s hs => ⟨hs.1.1, by simp⟩
      cases hp
      exact hs.1.2
  · obtain ⟨-, he⟩ := hs
    cases he with
    | failed _ _ hne => exact absurd hne hcode
    | status => rfl

end

/-! ## The switch -/

def SwitchRequest.Arrived (refs : Refs) (request : SwitchRequest) (head : Head) : Prop :=
  match request with
  | .createBranch name _ | .checkout name => ∃ branch : BranchName, branch.name = name ∧ head = .branch branch
  | .checkoutDetached rev => ∃ oid, refs.commit rev = some oid ∧ head = .detached oid

/-- A switch that fails has done nothing; one that succeeds has moved HEAD and the index. -/
def Switches (δ : Type) (refs : Refs) (labels : List String) (arrived : Head → Prop) (switch : Script Unit) : Prop :=
  ∀ P Q : Repo δ → Prop, Fixed refs labels P → Fixed refs labels Q →
    (∀ s head commit, P s → Q (s.switchTo refs head commit)) →
    Spec refs labels P switch fun r s => (∀ e, r = .error e → P s) ∧ (r = .ok () → Q s ∧ arrived s.head)

theorem fixed_head (p : Head → Prop) : Fixed (δ := δ) refs labels fun s => p s.head := by
  intro s t hs ho
  rw [(Other.frame ho).1]
  exact hs

def Command.Lands : Command → Head → Prop
  | .switch name, head | .switchCreate name _, head => ∃ branch : BranchName, branch.name = name ∧ head = .branch branch
  | .switchDetach text, head => ∃ oid : GitOid, oid.text = text ∧ head = .detached oid
  | _, _ => False

def Command.switches : Command → Bool
  | .switch _ | .switchCreate _ _ | .switchDetach _ => true
  | _ => false

theorem Exec.switches (h : Exec refs s c r t) (hc : c.switches = true) : t = s ∧ (∀ out, okOnly c r ≠ .ok out) ∨
      ∃ head commit, t = s.switchTo refs head commit ∧ c.Lands head ∧ ∃ out, okOnly c r = .ok out := by
  cases h with
  | unavailable => exact .inl ⟨rfl, fun out ho => by cases (okOnly_eq_ok.1 ho).1⟩
  | failed _ out hne =>
    refine .inl ⟨rfl, fun out' ho => hne ?_⟩
    obtain ⟨heq, hcode⟩ := okOnly_eq_ok.1 ho
    rw [Except.ok.inj heq]
    exact hcode
  | switch name commit | switchCreate name _ commit =>
    exact .inr ⟨.branch name, commit, rfl, ⟨name, rfl, rfl⟩, _, okOnly_eq_ok.2 ⟨rfl, rfl⟩⟩
  | switchDetach commit => exact .inr ⟨.detached commit, commit, rfl, ⟨commit, rfl, rfl⟩, _, okOnly_eq_ok.2 ⟨rfl, rfl⟩⟩
  | _ => cases hc

theorem runOk_switches {P Q : Repo δ → Prop} (hP : Fixed refs labels P) (hc : c.switches = true)
    (hPQ : ∀ s head commit, P s → Q (s.switchTo refs head commit)) :
    Spec refs labels P (runOk c) fun r s =>
      (∀ e, r = .error e → P s) ∧ ∀ out, r = .ok out → Q s ∧ c.Lands s.head := by
  refine runOk_spec hP fun s hs _ => ⟨fun e he => ?_, fun r t hx => ?_⟩
  · cases c <;> first | cases he | cases hc
  · obtain ⟨rfl, hno⟩ | ⟨head, commit, rfl, hl, out, ho⟩ := hx.switches hc
    · exact ⟨fun _ _ => hs, fun out ho => absurd ho (hno out)⟩
    · refine ⟨fun e he => ?_, fun _ _ => ⟨hPQ s head commit hs, hl⟩⟩
      rw [ho] at he
      cases he

theorem checkout_switches (name : String) :
    Switches δ refs labels ((SwitchRequest.checkout name).Arrived refs) (checkout name) := by
  intro P Q hP hQ hPQ
  refine World.Meets.bind (runOk_switches hP rfl hPQ) (fun out => World.Meets.pure fun s hs => ⟨fun e he => ?_, fun _ => ?_⟩)
    fun e s hs => ⟨fun _ _ => hs.1 e rfl, fun ho => ?_⟩
  · cases he
  · exact hs.2 out rfl
  · cases ho

theorem checkoutDetached_switches (rev : String) :
    Switches δ refs labels ((SwitchRequest.checkoutDetached rev).Arrived refs) (checkoutDetached rev) := by
  intro P Q hP hQ hPQ
  refine World.Meets.bind (resolveCommitOid_spec hP rev) (fun oid => ?_) fun e s hs => ⟨fun _ _ => hs.1, fun ho => ?_⟩
  · have hres : Fixed (δ := δ) refs labels fun s => P s ∧ refs.commit rev = some oid :=
      hP.and fun s t hs _ => hs
    refine World.Meets.bind (Q := fun r s => (∀ e, r = .error e → P s) ∧ (r = .ok () → Q s ∧
        (SwitchRequest.checkoutDetached rev).Arrived refs s.head))
      ((runOk_switches (c := .switchDetach oid.text) (Q := fun s => Q s ∧ refs.commit rev = some oid) hres rfl
        fun s head commit hs => ⟨hPQ s head commit hs.1, hs.2⟩).mono
          (fun s hs => ⟨hs.1, hs.2 oid rfl⟩) fun r s hs => hs)
      (fun out => World.Meets.pure fun s hs => ⟨fun e he => ?_, fun _ => ?_⟩)
      fun e s hs => ⟨fun _ _ => (hs.1 e rfl).1, fun ho => ?_⟩
    · cases he
    · obtain ⟨⟨hq, hcommit⟩, oid', htext, hhead⟩ := hs.2 out rfl
      rw [GitOid.ext_text htext] at hhead
      exact ⟨hq, oid, hcommit, hhead⟩
    · cases ho
  · cases ho

theorem createBranch_switches (name : String) (startPoint : Option String) :
    Switches δ refs labels ((SwitchRequest.createBranch name startPoint).Arrived refs) (createBranch name startPoint) := by
  intro P Q hP hQ hPQ
  refine World.Meets.bind (resolveStart_spec hP startPoint) (fun resolved => ?_)
    fun e s hs => ⟨fun _ _ => hs, fun ho => ?_⟩
  · refine World.Meets.bind (runOk_switches (c := .switchCreate name (resolved.map (·.1.text))) hP rfl hPQ)
      (fun out => ?_) fun e s hs => ⟨fun _ _ => hs.1 e rfl, fun ho => ?_⟩
    · have hdone : ∀ s : Repo δ, Q s ∧ (SwitchRequest.createBranch name startPoint).Arrived refs s.head →
          (∀ e, (.ok () : Except String Unit) = .error e → P s) ∧ ((.ok () : Except String Unit) = .ok () → Q s ∧
            (SwitchRequest.createBranch name startPoint).Arrived refs s.head) := by
        refine fun s hs => ⟨fun e he => ?_, fun _ => hs⟩
        cases he
      refine World.Meets.mono (P := fun s => Q s ∧ (SwitchRequest.createBranch name startPoint).Arrived refs s.head) ?_
        (fun s hs => hs.2 out rfl) fun r s hs => hs
      match resolved with
      | none | some (_, none) => exact World.Meets.pure hdone
      | some (_, some upstream) =>
        refine World.Meets.bind
          (R := fun r s => (∃ a, r = .ok a) ∧ Q s ∧ (SwitchRequest.createBranch name startPoint).Arrived refs s.head)
          (World.Meets.attempt ((runOk_reads (hQ.and (fixed_head _)) rfl).mono (fun s hs => hs)
            fun r s hs => ⟨⟨r, rfl⟩, hs.1⟩))
          (fun _ => World.Meets.pure fun s hs => hdone s hs.2) fun e s hs => ?_
        obtain ⟨⟨_, ha⟩, -⟩ := hs
        cases ha
    · cases ho
  · cases ho

end Git
end Yuzora
