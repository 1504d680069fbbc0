import Yuzora.Table
import Yuzora.Trace
/-!
# Watcher — file system notifications, coalesced

`watcher`: the notify callback puts batches of paths into a bounded channel, and raises a flag where it cannot.  One
thread takes them out, coalesces what the ignore rules of the root cover, and hands over what changed every 300 ms.
-/
namespace Yuzora
namespace Watcher

/-! ## Paths -/

/-- A path's component: text, or bytes that are not UTF-8. -/
inductive Component
  | text (name : String)
  | raw (bytes : List UInt8)
  deriving DecidableEq

def Component.toStr : Component → Option String
  | text name => some name
  | raw _ => none

abbrev Path := List Component

def fileName (path : Path) : Option Component := path.getLast?

def SAVE_SCRATCH_PREFIX : List Char := ".yuzora-save-".toList

def isLowerHex (c : Char) : Bool := ('0' ≤ c && c ≤ '9') || ('a' ≤ c && c ≤ 'f')

def isSaveScratchName (name : String) : Bool :=
  SAVE_SCRATCH_PREFIX.isPrefixOf name.toList &&
    decide ((name.toList.drop SAVE_SCRATCH_PREFIX.length).length = 32) &&
      (name.toList.drop SAVE_SCRATCH_PREFIX.length).all isLowerHex

def isIgnoredPath (path : Path) : Bool :=
  path.any (fun c => decide (c = .text ".git" ∨ c = .text "node_modules")) ||
    ((fileName path).bind Component.toStr).any isSaveScratchName

/-- The repository directory of a path that ends in `.git/info/exclude`. -/
def excludeDirectory (root path : Path) : Option Path :=
  if [.text ".git", .text "info", .text "exclude"] <:+ path then
    let directory := path.take (path.length - 3)
    if root <+: directory ∧ isIgnoredPath directory = false then some directory else none
  else none

def ancestors (path : Path) : List Path := path.inits.reverse

/-- The directories strictly between the root and the path, the outermost first. -/
def directories (root path : Path) : List Path :=
  (((ancestors path).drop 1).takeWhile fun parent => decide (parent ≠ root ∧ root <+: parent)).reverse

/-! ## Rules -/

/-- Root ignore rules: `matched(path, is_dir).is_ignore()`. -/
structure Rules where
  ignores : Path → Bool → Bool

variable (root : Path)

/-- The possibly coalesced path, and whether root rules ignore it. -/
def coalescePath (rules : Rules) (isDir : Path → Bool) (path : Path) : Path × Bool :=
  match (directories root path).find? fun directory => rules.ignores directory true with
  | some directory => (directory, true)
  | none =>
    if path ≠ root ∧ rules.ignores path true = true ∧ isDir path = true then (path, true)
    else (path, decide (path ≠ root) && rules.ignores path false)

/-! ## Git -/

structure GitOut where
  code : Int
  stdout : List UInt8

/-- What git answers while one batch is classified. -/
structure Git where
  runGit : List String → Except String GitOut
  runGitWithStdin : List String → List UInt8 → Except String GitOut
  respells : String → Bool

def TRACKED_CHECK_LIMIT : Nat := 256

def TRACKED_NAMES_AS_STORED : List String := ["-c", "core.precomposeunicode=false"]

def listsNothing (git : Git) (spelling specs : List String) : Bool :=
  match git.runGit (spelling ++ ["ls-files", "-z", "--cached", "--"] ++ specs) with
  | .ok out => decide (out.code = 0) && out.stdout.isEmpty
  | .error _ => false

def nothingTracked (git : Git) (specs : List String) : Bool :=
  let respelled := specs.filter git.respells
  listsNothing git [] specs && (respelled.isEmpty || listsNothing git TRACKED_NAMES_AS_STORED respelled)

def spec (root path : Path) : Option String :=
  if root <+: path then ((path.drop root.length).mapM Component.toStr).map fun names => "/".intercalate names else none

def specBytes (spec : String) : List UInt8 := spec.toUTF8.data.toList ++ [0]

/-- `check-ignore` names every spec. -/
def allIgnored (git : Git) (specs : List String) : Bool :=
  match git.runGitWithStdin ["check-ignore", "-z", "--stdin"] (specs.flatMap specBytes) with
  | .ok out => decide (out.code = 0) && decide (((out.stdout.splitOn 0).filter (· ≠ [])).length = specs.length)
  | .error _ => false

def allUntracked (paths : List Path) (cancel : Bool) (git : Git) : Bool :=
  if paths.isEmpty || decide (TRACKED_CHECK_LIMIT < paths.length) || cancel then false
  else
    match paths.mapM (spec root) with
    | none => false
    | some specs =>
      if specs.any fun spec => spec.isEmpty || decide (spec.toList.head? = some ':') then false
      else nothingTracked git specs && allIgnored git specs

/-! ## What is pending -/

def CAPACITY : Nat := 4096

structure PendingChanges where
  paths : Table Path Bool
  rescan : Bool

namespace PendingChanges

def default : PendingChanges := ⟨.empty, false⟩

def invalidateRoot (_ : PendingChanges) : PendingChanges := ⟨.empty, true⟩

def isEmpty (pending : PendingChanges) : Bool := !pending.rescan && pending.paths.entries.isEmpty

def taken (pending : PendingChanges) : PendingChanges := ⟨if pending.rescan then pending.paths else .empty, false⟩

end PendingChanges

def changesRules (root path : Path) : Bool :=
  decide (fileName path = some (.text ".gitignore")) || (excludeDirectory root path).isSome

def pendingAs (rules : Rules) (isDir : Path → Bool) (path : Path) : Path × Bool :=
  coalescePath root rules isDir ((excludeDirectory root path).getD path)

/-- The entry of one path: ignored as long as every path that came to it was. -/
def enter (paths : Table Path Bool) (entry : Path × Bool) : Table Path Bool :=
  paths.insert entry.1 ((paths.get entry.1).getD entry.2 && entry.2)

def addPaths (root : Path) (rules : Rules) (isDir : Path → Bool) : List Path → PendingChanges → PendingChanges
  | [], pending => pending
  | path :: batch, pending =>
    let paths := enter pending.paths (pendingAs root rules isDir path)
    if CAPACITY < paths.size then pending.invalidateRoot else addPaths root rules isDir batch { pending with paths }

/-- `extend`, where a reload would read `reloaded`. -/
def extend (reloaded : Rules) (isDir : Path → Bool) (batch : List Path) (rules : Rules)
    (pending : PendingChanges) : Rules × PendingChanges :=
  let rules := if batch.any (changesRules root) then reloaded else rules
  (rules, if pending.rescan then pending else addPaths root rules isDir batch pending)

/-- What the drained paths mean for `git status`. -/
def relevant (drained : List (Path × Bool)) (cancel gitAllowed : Bool) (git : Git) : Bool :=
  let ignored := (drained.filter Prod.snd).map Prod.fst
  drained.any (fun e => decide (fileName e.1 = some (.text ".gitignore"))) ||
    decide (ignored.length ≠ drained.length) || !gitAllowed || !allUntracked root ignored cancel git

/-- The changed paths, and whether they can affect `git status`. -/
def takeClassified (visit : Visit (Path × Bool)) (cancel gitAllowed : Bool) (git : Git)
    (pending : PendingChanges) : Option (List Path × Bool) :=
  if pending.isEmpty then none
  else if pending.rescan then some ([root], true)
  else
    let drained := visit.order pending.paths.entries
    some (drained.map Prod.fst, relevant root drained cancel gitAllowed git)

/-! ## The deadline -/

def COALESCE_INTERVAL : Nat := 300000000

def advanceIdleDeadline (deadline now : Nat) : Nat :=
  if now ≤ deadline then deadline
  else if (now - deadline) % COALESCE_INTERVAL = 0 then now
  else now + COALESCE_INTERVAL - (now - deadline) % COALESCE_INTERVAL

/-! ## Notifications -/

inductive Notification
  | error
  | event (needRescan access : Bool) (paths : List Path)

def kept (paths : List Path) : List Path :=
  paths.filter fun p => decide (root <+: p) && (!isIgnoredPath p || (excludeDirectory root p).isSome)

/-- What a notification asks for: its paths, or the root where the paths may not be all. -/
def asks : Notification → List Path
  | .error => [root]
  | .event true _ paths => root :: kept root paths
  | .event false true _ => []
  | .event false false paths => if CAPACITY < paths.length then root :: kept root paths else kept root paths

def sends : Notification → Option (List Path)
  | .error => none
  | .event true _ _ => none
  | .event false true _ => some []
  | .event false false paths => if CAPACITY < paths.length then none else some (kept root paths)

/-! ## The callback and the thread -/

def CHANNEL : Nat := 1024

/-- A message of the channel.  `stamp` counts the notifications up to it. -/
structure Batch where
  paths : List Path
  stamp : Nat

/-- The callback is idle, about to set the flag for what it could not send, or about to send the hint. -/
inductive Callback
  | idle
  | refused (paths : List Path)
  | hinting
  deriving DecidableEq

/-- Where the thread is. -/
inductive Phase
  | top
  /-- In `recv`. -/
  | idle
  | woken (batch : Batch)
  /-- In `recv_timeout`, before it looked into the channel, and after it found nothing there. -/
  | timed
  | parked
  | received (batch : Option Batch)
  | extending (batch : Option Batch)
  | checking
  | timing
  | swapping
  | reloading
  | gate
  | classifying
  | handing (changes : List Path) (gitRelevant : Bool)
  | calling (changes : List Path) (gitRelevant : Bool)
  | resetting
  | ended

/-- A path of a batch, what it is pending as, the batch's stamp, and the notifications before the rules that decided
were loaded. -/
structure Classified where
  path : Path
  entry : Path
  ignored : Bool
  stamp : Nat
  loadedAt : Nat

/-- What happened.  Neither the callback nor the thread reads it. -/
inductive Event
  /-- What a notification asks for is in the channel, or the flag is set for it. -/
  | reported (paths : List Path)
  | turn
  | classified (c : Classified)
  /-- What was pending was taken, and what git could be asked then. -/
  | took (gitAllowed : Bool) (git : Git)
  | delivered (changes : List Path) (gitRelevant : Bool)
  | window

structure State where
  queue : List Batch
  overflow : Bool
  stopped : Bool
  callback : Callback
  phase : Phase
  pending : PendingChanges
  rules : Rules
  deadline : Nat
  now : Nat
  /-- The rules loaded so far, and how many notifications there were at the last load. -/
  loads : List Rules
  loadedAt : Nat
  notices : List (List Path)
  journal : List Event

def State.start (rules : Rules) (now : Nat) : State :=
  ⟨[], false, false, .idle, .top, .default, rules, now + COALESCE_INTERVAL, now, [rules], 0, [], []⟩

namespace State

variable (s : State)

def goto (phase : Phase) : State := { s with phase }

def log (e : Event) : State := { s with journal := s.journal ++ [e] }

def notice (paths : List Path) : State := { s with notices := s.notices ++ [paths] }

def push (paths : List Path) : State := { s with queue := s.queue ++ [⟨paths, s.notices.length⟩] }

/-- `try_send`. -/
def trySend (paths : List Path) : State := if s.queue.length < CHANNEL then s.push paths else s

def load (rules : Rules) : State :=
  { s with rules, loads := s.loads ++ [rules], loadedAt := s.notices.length }

end State

def notify (s : State) (n : Notification) : State :=
  let s := s.notice (asks root n)
  match sends root n with
  | none => { s with callback := .refused (asks root n) }
  | some [] => s.log (.reported (asks root n))
  | some paths =>
    if s.queue.length < CHANNEL then (s.push paths).log (.reported (asks root n))
    else { s with callback := .refused (asks root n) }

/-- `overflow.swap(true)`, and the hint is next when the flag was not set yet. -/
def raise (s : State) (paths : List Path) : State :=
  { s.log (.reported paths) with overflow := true, callback := if s.overflow then .idle else .hinting }

/-- What the surroundings answer to one step of the thread. -/
structure Chance where
  rules : Rules
  isDir : Path → Bool
  visit : Visit (Path × Bool)
  gitAllowed : Bool
  git : Git
  /-- `recv_timeout` returns by its deadline although something came at the last moment. -/
  late : Bool

/-- What a batch is classified as: nothing while a rescan is pending. -/
def classifies (chance : Chance) (batch : Batch) (s : State) : List Classified :=
  let rules := (extend root chance.rules chance.isDir batch.paths s.rules s.pending).1
  let loadedAt := if batch.paths.any (changesRules root) then s.notices.length else s.loadedAt
  let classify := fun p =>
    let entry := pendingAs root rules chance.isDir p
    (⟨p, entry.1, entry.2, batch.stamp, loadedAt⟩ : Classified)
  if s.pending.rescan then [] else batch.paths.map classify

def absorb (chance : Chance) (batch : Batch) (s : State) : State :=
  let extended := extend root chance.rules chance.isDir batch.paths s.rules s.pending
  let loaded := if batch.paths.any (changesRules root) then s.load chance.rules else s
  { loaded with
    rules := extended.1, pending := extended.2, phase := .checking,
    journal := s.journal ++ (classifies root chance batch s).map .classified }

def work (chance : Chance) (s : State) : Option State :=
  match s.phase with
  | .top =>
    if s.stopped then some (s.goto .ended)
    else some ((s.log .turn).goto (if s.pending.isEmpty then .idle else .timed))
  | .idle =>
    match s.queue with
    | [] => none
    | batch :: queue => some { s with queue, phase := .woken batch }
  | .woken batch => some { s with deadline := advanceIdleDeadline s.deadline s.now, phase := .received (some batch) }
  | .timed =>
    match s.queue with
    | [] => some (s.goto .parked)
    | batch :: queue => some { s with queue, phase := .received (some batch) }
  | .parked =>
    match s.queue, chance.late with
    | batch :: queue, false => some { s with queue, phase := .received (some batch) }
    | _, _ => if s.deadline ≤ s.now then some (s.goto (.received none)) else none
  | .received batch => some (s.goto (if s.stopped then .ended else .extending batch))
  | .extending none => some (s.goto .checking)
  | .extending (some batch) => some (absorb root chance batch s)
  | .checking => some { s with pending := if s.overflow then s.pending.invalidateRoot else s.pending, phase := .timing }
  | .timing => some (s.goto (if s.now < s.deadline then .top else .swapping))
  | .swapping => some { s with overflow := false, phase := if s.overflow then .reloading else .gate }
  | .reloading => some { s.load chance.rules with pending := s.pending.invalidateRoot, phase := .gate }
  | .gate => some (s.goto (if s.stopped then .resetting else .classifying))
  | .classifying =>
    match takeClassified root chance.visit s.stopped chance.gitAllowed chance.git s.pending with
    | none => some (s.goto .resetting)
    | some (changes, gitRelevant) =>
      some { s.log (.took chance.gitAllowed chance.git) with
        pending := s.pending.taken, phase := .handing changes gitRelevant }
  | .handing changes gitRelevant => some (s.goto (if s.stopped then .resetting else .calling changes gitRelevant))
  | .calling changes gitRelevant => some ((s.log (.delivered changes gitRelevant)).goto .resetting)
  | .resetting => some { s.log .window with deadline := s.now + COALESCE_INTERVAL, phase := .top }
  | .ended => none

inductive Action
  | notify (n : Notification)
  | swap
  | hint
  | work (chance : Chance)
  | tick (now : Nat)
  /-- The handle is dropped: it says stop, and wakes the thread. -/
  | drop
  | wake

def next (s : State) : Action → Option State
  | .notify n => if s.callback = .idle then some (notify root s n) else none
  | .swap =>
    match s.callback with
    | .refused paths => some (raise s paths)
    | _ => none
  | .hint => if s.callback = .hinting then some { s.trySend [] with callback := .idle } else none
  | .work chance => work root chance s
  | .tick now => if s.now ≤ now then some { s with now } else none
  | .drop => some { s with stopped := true }
  | .wake => if s.stopped then some (s.trySend []) else none

def Run : List (Transition State Action) → State → Prop :=
  Trace (fun s => ∃ rules now, s = .start rules now) fun s a t => next root s a = some t

end Watcher
end Yuzora
