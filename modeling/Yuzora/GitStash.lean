import Yuzora.GitText
import Yuzora.Programs
/-!
# GitStash — the commands of a smart checkout, and what git does on them

A repository as a smart checkout sees it: HEAD, the paths git tracks, the local changes, and the stash that its
worktrees share.  Every command may fail without effect.  Between the commands other clients push stash entries and drop
their own.
-/
namespace Yuzora
namespace Git

/-! ## The repository -/

/-- A local change: a file that is not what HEAD says. -/
structure Change (δ : Type) where
  path : String
  data : δ

structure StashEntry (δ : Type) where
  oid : GitOid
  /-- The reflog subject, `On <branch>: <message>`. -/
  subject : String
  tracked : List (Change δ)
  /-- The third parent's files, of a push with `--include-untracked`. -/
  untracked : List (Change δ)

def StashEntry.changes {δ : Type} (entry : StashEntry δ) : List (Change δ) := entry.tracked ++ entry.untracked

/-- The stash, newest first, and every stash commit made so far: dropping an entry leaves its commit. -/
structure Stash (δ : Type) where
  commits : List (StashEntry δ)
  entries : List (StashEntry δ)
  distinct : (commits.map (·.oid)).Nodup
  listed : (entries.map (·.oid)).Nodup
  stored : ∀ entry ∈ entries, entry ∈ commits

/-- A branch name; git allows no `:` in one. -/
structure BranchName where
  name : String
  plain : ':' ∉ name.toList

inductive Head
  | branch (name : BranchName)
  | detached (oid : GitOid)

def Head.label : Head → String
  | .branch name => name.name
  | .detached _ => "(no branch)"

structure Repo (δ : Type) where
  head : Head
  commit : GitOid
  index : List String
  changes : List (Change δ)
  unmerged : List String
  stash : Stash δ
  /-- The entries that the smart checkout pushed.  No command reads it. -/
  pushed : List (StashEntry δ)

/-- What revisions and refs say, none of which a smart checkout moves before it reads it. -/
structure Refs where
  commit : String → Option GitOid
  symbolic : String → Option String
  /-- The files of a commit. -/
  files : GitOid → List String
  /-- The object type that `cat-file` answers a query with. -/
  kind : String → String
  ignored : String → Bool

/-- Where the repository is; `dotGit` says that `.git` names the git directory, so that git need not be asked. -/
structure Root where
  dotGit : Bool

/-! ## Commands -/

/-- The git commands of a smart checkout.  `revParseStash` carries the entry that its caller compares the answer with,
which git does not see. -/
inductive Command
  | revParseStash (expected : Option String)
  | stashPush (message : String)
  | stashPushUntracked (message : String) (paths : List String)
  | stashList
  | stashPop (index : Bool)
  | stashDrop
  | restoreWorktree (source : String) (paths : List String)
  | status
  | trackedTwins
  | revParseGitDir
  | revParseCommit (spec : String)
  | revParseSymbolic (spec : String)
  | lsFilesOthers
  | catFileKinds (queries : List String)
  | switch (name : String)
  | switchCreate (name : String) (start : Option String)
  | switchDetach (oid : String)
  | branchSetUpstream (name upstream : String)

/-- The output of a command as far as its caller reads it: a text, its lines or records, or the unmerged paths. -/
def Command.Stdout : Command → Type
  | .stashList | .status | .lsFilesOthers | .catFileKinds _ => List String
  | _ => String

structure GitOutput (α : Type) where
  code : Int
  stdout : α
  stderr : String

/-- No process, a timeout or an output limit is an error of its own. -/
abbrev Reply (c : Command) : Type := Except String (GitOutput c.Stdout)

abbrev Script (α : Type) : Type := Prog Command Reply String α

/-! ## What a command does -/

variable {δ : Type}

def NO_LOCAL_CHANGES : String := "No local changes to save"

namespace Repo

def tracks (refs : Refs) (s : Repo δ) (path : String) : Bool := s.index.contains path || (refs.files s.commit).contains path

def trackedChanges (refs : Refs) (s : Repo δ) : List (Change δ) := s.changes.filter fun c => s.tracks refs c.path

def untrackedChanges (refs : Refs) (s : Repo δ) : List (Change δ) := s.changes.filter fun c => !s.tracks refs c.path

end Repo

namespace Stash

variable (stash : Stash δ)

def push (entry : StashEntry δ) (fresh : entry.oid ∉ stash.commits.map (·.oid)) : Stash δ where
  commits := entry :: stash.commits
  entries := entry :: stash.entries
  distinct := List.nodup_cons.2 ⟨fresh, stash.distinct⟩
  listed := by
    refine List.nodup_cons.2 ⟨fun h => fresh ?_, stash.listed⟩
    obtain ⟨e, he, heq⟩ := List.mem_map.1 h
    exact List.mem_map.2 ⟨e, stash.stored e he, heq⟩
  stored := by
    intro e he
    rcases List.mem_cons.1 he with rfl | he
    · exact List.mem_cons_self
    · exact List.mem_cons_of_mem _ (stash.stored e he)

def keep (entries : List (StashEntry δ)) (h : entries.Sublist stash.entries) : Stash δ where
  commits := stash.commits
  entries := entries
  distinct := stash.distinct
  listed := stash.listed.sublist (h.map _)
  stored e he := stash.stored e (h.subset he)

def without (newer older : List (StashEntry δ)) (entry : StashEntry δ)
    (h : stash.entries = newer ++ entry :: older) : Stash δ :=
  stash.keep (newer ++ older) (h ▸ List.Sublist.append_left (List.sublist_cons_self _ _) _)

def drop : Stash δ := stash.keep stash.entries.tail (List.tail_sublist _)

end Stash

/-- The entry that a `stash push -m message` makes. -/
structure Pushes (refs : Refs) (s : Repo δ) (message : String) (paths : Option (List String)) (entry : StashEntry δ) :
    Prop where
  merged : s.unmerged = []
  subject : entry.subject = "On " ++ s.head.label ++ ": " ++ message
  tracked : entry.tracked = (s.trackedChanges refs).filter fun c => paths.all (·.contains c.path)
  untracked : entry.untracked = (s.untrackedChanges refs).filter fun c => paths.any (·.contains c.path)
  some : entry.changes ≠ []

variable (refs : Refs)

variable (s : Repo δ)

/-- What is left in the worktree by a push: HEAD's version of what it took. -/
def Repo.pushEntry (paths : Option (List String)) (entry : StashEntry δ)
    (fresh : entry.oid ∉ s.stash.commits.map (·.oid)) : Repo δ :=
  { s with
    index := if paths.isNone then refs.files s.commit else s.index
    changes := s.changes.filter fun c => !(paths.all (·.contains c.path) && (paths.isSome || s.tracks refs c.path))
    stash := s.stash.push entry fresh
    pushed := s.pushed ++ [entry] }

/-- An entry's changes are in the worktree, merged or as conflicts. -/
def Repo.apply (entry : StashEntry δ) (unmerged : List String) : Repo δ :=
  { s with
    index := s.index ++ entry.tracked.map (·.path)
    changes := s.changes ++ entry.changes
    unmerged := unmerged }

def Repo.switchTo (head : Head) (commit : GitOid) : Repo δ :=
  { s with head, commit, index := refs.files commit ++ (s.trackedChanges refs).map (·.path) }

def Repo.Unblocked (commit : GitOid) : Prop :=
  ∀ c ∈ s.untrackedChanges refs, c.path ∉ refs.files commit

/-- **What a command does and answers.**  Any command may fail, and has then done nothing. -/
inductive Exec (refs : Refs) : Repo δ → (c : Command) → Reply c → Repo δ → Prop
  | unavailable (s : Repo δ) (c : Command) (error : String) : Exec refs s c (.error error) s
  | failed (s : Repo δ) (c : Command) (out : GitOutput c.Stdout) : out.code ≠ 0 → Exec refs s c (.ok out) s
  | revParseStash (s : Repo δ) (expected : Option String) (entry : StashEntry δ) (stderr : String) :
      s.stash.entries.head? = some entry →
      Exec refs s (.revParseStash expected) (.ok ⟨0, entry.oid.text ++ "\n", stderr⟩) s
  | saved (s : Repo δ) (message stdout stderr : String) (entry : StashEntry δ)
      (fresh : entry.oid ∉ s.stash.commits.map (·.oid)) :
      Pushes refs s message none entry → contains stdout NO_LOCAL_CHANGES = false →
      Exec refs s (.stashPush message) (.ok ⟨0, stdout, stderr⟩) (s.pushEntry refs none entry fresh)
  | nothingSaved (s : Repo δ) (message stdout stderr : String) :
      s.trackedChanges refs = [] → s.unmerged = [] → contains stdout NO_LOCAL_CHANGES = true →
      Exec refs s (.stashPush message) (.ok ⟨0, stdout, stderr⟩) s
  | parked (s : Repo δ) (message stdout stderr : String) (paths : List String) (entry : StashEntry δ)
      (fresh : entry.oid ∉ s.stash.commits.map (·.oid)) :
      Pushes refs s message (some paths) entry →
      Exec refs s (.stashPushUntracked message paths) (.ok ⟨0, stdout, stderr⟩) (s.pushEntry refs (some paths) entry fresh)
  | nothingParked (s : Repo δ) (message stdout stderr : String) (paths : List String) :
      (∀ c ∈ s.changes, c.path ∉ paths) → s.unmerged = [] →
      Exec refs s (.stashPushUntracked message paths) (.ok ⟨0, stdout, stderr⟩) s
  | stashList (s : Repo δ) (stderr : String) :
      Exec refs s .stashList (.ok ⟨0, s.stash.entries.map fun e => e.oid.text ++ "\x1f" ++ e.subject, stderr⟩) s
  | popped (s : Repo δ) (index : Bool) (entry : StashEntry δ) (stdout stderr : String) :
      s.stash.entries.head? = some entry →
      Exec refs s (.stashPop index) (.ok ⟨0, stdout, stderr⟩) { s.apply entry s.unmerged with stash := s.stash.drop }
  | conflicted (s : Repo δ) (index : Bool) (entry : StashEntry δ) (unmerged : List String)
      (out : GitOutput (Command.stashPop index).Stdout) :
      s.stash.entries.head? = some entry → out.code ≠ 0 → unmerged ≠ [] →
      Exec refs s (.stashPop index) (.ok out) (s.apply entry unmerged)
  | dropped (s : Repo δ) (entry : StashEntry δ) (stdout stderr : String) :
      s.stash.entries.head? = some entry →
      Exec refs s .stashDrop (.ok ⟨0, stdout, stderr⟩) { s with stash := s.stash.drop }
  | restored (s : Repo δ) (entry : StashEntry δ) (paths : List String) (stdout stderr : String) :
      entry ∈ s.stash.commits → (∀ path ∈ paths, ∃ c ∈ entry.untracked, c.path = path) →
      Exec refs s (.restoreWorktree (entry.oid.text ++ "^3") paths) (.ok ⟨0, stdout, stderr⟩)
        { s with
          changes := s.changes.filter (fun c => !paths.contains c.path) ++
            entry.untracked.filter fun c => paths.contains c.path }
  | status (s : Repo δ) (stderr : String) : Exec refs s .status (.ok ⟨0, s.unmerged, stderr⟩) s
  | trackedTwins (s : Repo δ) (stdout stderr : String) : Exec refs s .trackedTwins (.ok ⟨0, stdout, stderr⟩) s
  | revParseGitDir (s : Repo δ) (stdout stderr : String) : Exec refs s .revParseGitDir (.ok ⟨0, stdout, stderr⟩) s
  | revParseCommit (s : Repo δ) (spec stderr : String) (oid : GitOid) :
      refs.commit spec = some oid → Exec refs s (.revParseCommit spec) (.ok ⟨0, oid.text ++ "\n", stderr⟩) s
  | revParseSymbolic (s : Repo δ) (spec stderr name : String) :
      refs.symbolic spec = some name → Exec refs s (.revParseSymbolic spec) (.ok ⟨0, name ++ "\n", stderr⟩) s
  | lsFilesOthers (s : Repo δ) (stderr : String) :
      Exec refs s .lsFilesOthers
        (.ok ⟨0, ((s.untrackedChanges refs).map (·.path)).filter fun path => !refs.ignored path, stderr⟩) s
  | catFileKinds (s : Repo δ) (queries : List String) (stderr : String) :
      Exec refs s (.catFileKinds queries) (.ok ⟨0, queries.map refs.kind, stderr⟩) s
  | switch (s : Repo δ) (name : BranchName) (commit : GitOid) (stdout stderr : String) :
      refs.commit ("refs/heads/" ++ name.name) = some commit → s.Unblocked refs commit →
      Exec refs s (.switch name.name) (.ok ⟨0, stdout, stderr⟩) (s.switchTo refs (.branch name) commit)
  | switchCreate (s : Repo δ) (name : BranchName) (start : Option String) (commit : GitOid) (stdout stderr : String) :
      start = some commit.text ∨ start = none ∧ commit = s.commit → s.Unblocked refs commit →
      Exec refs s (.switchCreate name.name start) (.ok ⟨0, stdout, stderr⟩) (s.switchTo refs (.branch name) commit)
  | switchDetach (s : Repo δ) (commit : GitOid) (stdout stderr : String) :
      s.Unblocked refs commit →
      Exec refs s (.switchDetach commit.text) (.ok ⟨0, stdout, stderr⟩) (s.switchTo refs (.detached commit) commit)
  | branchSetUpstream (s : Repo δ) (name upstream stdout stderr : String) :
      Exec refs s (.branchSetUpstream name upstream) (.ok ⟨0, stdout, stderr⟩) s

/-! ## Other clients -/

/-- The message of an entry, as the list shows it: what follows `On <branch>: `. -/
def messageOf (subject : String) : Option String :=
  (splitOnce [':', ' '] subject.toList).map fun parts => String.ofList parts.2

/-- Another client pushes an entry of its own, or drops one that the smart checkout did not push.  A smart checkout's
labels carry a nonce: nobody else uses them. -/
inductive Other (labels : List String) : Repo δ → Repo δ → Prop
  | push (s : Repo δ) (entry : StashEntry δ) (fresh : entry.oid ∉ s.stash.commits.map (·.oid)) :
      (∀ label ∈ labels, messageOf entry.subject ≠ some label) →
      Other labels s { s with stash := s.stash.push entry fresh }
  | drop (s : Repo δ) (newer older : List (StashEntry δ)) (entry : StashEntry δ)
      (h : s.stash.entries = newer ++ entry :: older) :
      entry ∉ s.pushed →
      Other labels s { s with stash := s.stash.without newer older entry h }

def named : (c : Command) → Reply c → Bool
  | .revParseStash (some expected), .ok out => out.code = 0 && trim out.stdout = expected
  | _, _ => false

/-- The repository among other clients, who hold still only from a check that names an entry to the next command. -/
def stashWorld (labels : List String) : World Command Reply (Repo δ) where
  exec := Exec refs
  other := Other labels
  calm := named

end Git
end Yuzora
