import Yuzora.GitStash
/-!
# SmartCheckout — a branch switch that carries the local changes along

`switch_keeping_changes` stashes the tracked changes, switches, and pops them.  `switch_over_untracked` does the same for
the untracked files that block the switch, with a restore in place of the pop.
-/
namespace Yuzora
namespace Git

def Command.sub : Command → String
  | .revParseStash _ | .revParseGitDir | .revParseCommit _ | .revParseSymbolic _ => "rev-parse"
  | .stashPush _ | .stashPushUntracked _ _ | .stashList | .stashPop _ | .stashDrop => "stash"
  | .restoreWorktree _ _ => "restore"
  | .status => "status"
  | .lsFilesOthers | .trackedTwins => "ls-files"
  | .catFileKinds _ => "cat-file"
  | .switch _ | .switchCreate _ _ | .switchDetach _ => "switch"
  | .branchSetUpstream _ _ => "branch"

def runGit (c : Command) : Script (GitOutput c.Stdout) := do
  match ← Prog.command c with
  | .error e => Prog.throw e
  | .ok out => pure out

def runOk (c : Command) : Script (GitOutput c.Stdout) := do
  let out ← runGit c
  if out.code ≠ 0 then Prog.throw (gitErr c.sub out.stderr) else pure out

/-! ## The switches -/

variable (spec : String)

def resolveCommitOidOptional : Script (Option GitOid) :=
  if spec.toList = [] ∨ '\x00' ∈ spec.toList then Prog.throw "git rejected an empty or NUL-containing revision"
  else if looksLikeGitOption spec then Prog.throw "git rejected an option-like revision"
  else do
    let out ← runGit (.revParseCommit spec)
    if out.code ≠ 0 then pure none
    else if (trim out.stdout).toList = [] then pure none
    else do
      let oid ← Prog.ofExcept (GitOid.parse (trim out.stdout))
      pure (some oid)

def resolveCommitOid : Script GitOid := do
  match ← resolveCommitOidOptional spec with
  | some oid => pure oid
  | none =>
    Prog.throw (if looksLikeGitOption spec then "git rejected an option-like revision"
      else "git could not resolve revision '" ++ spec ++ "'")

def remoteTrackingStartRef : Script (Option String) :=
  if looksLikeGitOption spec then pure none
  else do
    let out ← runGit (.revParseSymbolic spec)
    if out.code ≠ 0 then pure none
    else
      let name := trim out.stdout
      if "refs/remotes/".toList.isPrefixOf name.toList then
        let logical := String.ofList (name.toList.drop "refs/remotes/".toList.length)
        if logical.toList = [] ∨ '\x00' ∈ logical.toList ∨ looksLikeGitOption logical then pure none
        else pure (some name)
      else pure none

/-- The start point of a new branch, and the remote branch it is to track. -/
def resolveStart : Option String → Script (Option (GitOid × Option String))
  | none => pure none
  | some spec => do
    let oid ← resolveCommitOid spec
    let upstream ← remoteTrackingStartRef spec
    pure (some (oid, upstream))

def createBranch (name : String) (startPoint : Option String) : Script Unit := do
  let resolved ← resolveStart startPoint
  let _ ← runOk (.switchCreate name (resolved.map (·.1.text)))
  match resolved with
  | some (_, some upstream) => do
    -- Setting the upstream may fail; the branch is there.
    let _ ← (runOk (.branchSetUpstream name upstream)).attempt
    pure ()
  | _ => pure ()

def checkout (name : String) : Script Unit := do
  let _ ← runOk (.switch name)
  pure ()

def checkoutDetached (rev : String) : Script Unit := do
  let oid ← resolveCommitOid rev
  let _ ← runOk (.switchDetach oid.text)
  pure ()

/-! ## Stash entries -/

def SMART_CHECKOUT_STASH : String := "Yuzora smart checkout"
def SMART_CHECKOUT_UNTRACKED_STASH : String := "Yuzora smart checkout (untracked files)"

def stashLabel (base nonce : String) : String := base ++ " [" ++ nonce ++ "]"

def BLOCKED_BY_UNTRACKED : String := "untracked working tree files would be overwritten by checkout"

def stashTop (expected : Option String) : Script (Option String) := do
  let out ← runGit (.revParseStash expected)
  pure (if out.code = 0 then some (trim out.stdout) else none)

/-- The newest entry above `before` with the message, which no other may have. -/
def findPushed (before : Option String) (message : String) : List String → Option String → Except String (Option String)
  | [], ours => .ok ours
  | line :: rest, ours =>
    match splitOnce ['\x1f'] line.toList with
    | none => findPushed before message rest ours
    | some (oid, subject) =>
      if some (String.ofList oid) = before then .ok ours
      else if messageOf (String.ofList subject) = some message then
        if ours.isSome then
          .error ("git stash: more than one new \"" ++ message ++ "\" stash; all are kept")
        else findPushed before message rest (some (String.ofList oid))
      else findPushed before message rest ours

def pushedStash (before : Option String) (message : String) : Script (Option String) := do
  let listed ← runOk .stashList
  Prog.ofExcept (findPushed before message listed.stdout none)

def parkUntracked (paths : List String) (label : String) : Script (Option String) := do
  let before ← stashTop none
  let out ← runGit (.stashPushUntracked label paths)
  if out.code ≠ 0 then Prog.throw (gitErr "stash" out.stderr)
  else
    (pushedStash before label).mapError fun error =>
      error ++ "\ngit stash: your untracked files may be kept in the stash \"" ++ label ++ "\""

def untrackedPathsTrackedBy (target : String) : Script (List String) := do
  let oid ← resolveCommitOid target
  let listed ← runOk .lsFilesOthers
  let untracked := listed.stdout.filter fun path => path.toList ≠ [] && !path.toList.contains '\n'
  if untracked = [] then pure []
  else do
    let kinds ← runGit (.catFileKinds (untracked.map fun path => oid.text ++ ":" ++ path))
    if kinds.code ≠ 0 then Prog.throw (gitErr "cat-file" kinds.stderr)
    else pure (((untracked.zip kinds.stdout).filter fun pair => pair.2 = "blob").map (·.1))

/-- The unmerged paths.  Untracked files that git tracks under another spelling are looked up on the way, and the git
directory where `.git` does not name it. -/
def statusConflicts (root : Root) : Script (List String) := do
  let out ← runGit .status
  if out.code ≠ 0 then Prog.throw ("git status failed: " ++ trim out.stderr)
  else do
    let _ ← (runOk .trackedTwins).attempt
    if root.dotGit then pure out.stdout
    else do
      let _ ← runOk .revParseGitDir
      pure out.stdout

structure GitOperationOutcome where
  conflicts : Bool
deriving DecidableEq

def operationOutcome {c : Command} (root : Root) (sub : String) (out : GitOutput c.Stdout) :
    Script GitOperationOutcome :=
  if out.code = 0 then pure ⟨false⟩
  else do
    let conflicted ← statusConflicts root
    if conflicted ≠ [] then pure ⟨true⟩ else Prog.throw (gitErr sub out.stderr)

/-! ## The checkout -/

variable (label : String)

def keptChanges : String := "git stash: your local changes are kept in the stash \"" ++ label ++ "\""

def keptUntracked : String := "git stash: your untracked files are kept in the stash \"" ++ label ++ "\""

def restoredUntracked : String :=
  "git stash: your untracked files are restored and a copy stays in the stash \"" ++ label ++ "\""

def popParked (root : Root) (label : String) : Script GitOperationOutcome := do
  let kept (error : String) := error ++ "\n" ++ keptChanges label
  let out ← (runGit (.stashPop true)).mapError kept
  if out.code ≠ 0 then do
    let conflicted ← (statusConflicts root).mapError kept
    if conflicted = [] then do
      -- `--index` refused: once more without the staging.
      let again ← (runGit (.stashPop false)).mapError kept
      (operationOutcome (c := .stashPop false) root "stash" again).mapError kept
    else (operationOutcome (c := .stashPop true) root "stash" out).mapError kept
  else (operationOutcome (c := .stashPop true) root "stash" out).mapError kept

def restoreParkedChanges (root : Root) (parked : Option String) (label : String) : Script GitOperationOutcome :=
  match parked with
  | some parked => do
    let top ← (stashTop (some parked)).mapError fun _ => keptChanges label
    if top ≠ some parked then Prog.throw (keptChanges label) else popParked root label
  | none => popParked root label

/-- The parked copies, written over what the worktree has, and then the entry is dropped if it is still the newest. -/
def restoreUntracked (paths : List String) (label parked : String) : Script Unit := do
  let out ← (runGit (.restoreWorktree (parked ++ "^3") paths)).mapError fun error =>
    error ++ "\n" ++ keptUntracked label
  if out.code ≠ 0 then Prog.throw (gitErr "restore" out.stderr ++ "\n" ++ keptUntracked label)
  else do
    let top ← (stashTop (some parked)).attempt
    if top.toOption.join = some parked then do
      let dropped ← (runOk .stashDrop).attempt
      match dropped with
      | .ok _ => pure ()
      | .error _ => Prog.throw (restoredUntracked label)
    else Prog.throw (restoredUntracked label)

def joined {α : Type} (switched : Except String Unit) (restored : Except String α) : Except String α :=
  match switched, restored with
  | .ok (), restored => restored
  | .error error, .ok _ => .error error
  | .error error, .error restoreError => .error (error ++ "\n" ++ restoreError)

def switchOverUntracked (target : Option String) (switch : Script Unit) (nonce : String) : Script Unit := do
  match ← switch.attempt with
  | .ok () => pure ()
  | .error blocked =>
    if contains blocked BLOCKED_BY_UNTRACKED then
      match target with
      | none => Prog.throw blocked
      | some target => do
        let paths ← (untrackedPathsTrackedBy target).mapError fun error => blocked ++ "\n" ++ error
        if paths = [] then Prog.throw blocked
        else do
          let label := stashLabel SMART_CHECKOUT_UNTRACKED_STASH nonce
          match ← (parkUntracked paths label).mapError fun error => blocked ++ "\n" ++ error with
          -- The files vanished, so nothing is parked.
          | none => switch
          | some parked => do
            let switched ← switch.attempt
            let restored ← (restoreUntracked paths label parked).attempt
            Prog.ofExcept (joined switched restored)
    else Prog.throw blocked

def switchKeepingChanges (root : Root) (smart : Bool) (target : Option String) (switch : Script Unit)
    (nonce untrackedNonce : String) : Script GitOperationOutcome :=
  if smart then do
    let before ← stashTop none
    let label := stashLabel SMART_CHECKOUT_STASH nonce
    let pushed ← runOk (.stashPush label)
    if contains pushed.stdout NO_LOCAL_CHANGES then do
      switchOverUntracked target switch untrackedNonce
      pure ⟨false⟩
    else do
      match (← (pushedStash before label).attempt).toOption.join with
      | none => Prog.throw (keptChanges label)
      | some parked => do
        let switched ← (switchOverUntracked target switch untrackedNonce).attempt
        let restored ← (restoreParkedChanges root (some parked) label).attempt
        Prog.ofExcept (joined switched restored)
  else do
    switch
    pure ⟨false⟩

/-- The requests that switch branches. -/
inductive SwitchRequest
  | createBranch (name : String) (startPoint : Option String)
  | checkoutDetached (rev : String)
  | checkout (name : String)

def SwitchRequest.switch : SwitchRequest → Script Unit
  | .createBranch name startPoint => Git.createBranch name startPoint
  | .checkoutDetached rev => Git.checkoutDetached rev
  | .checkout name => Git.checkout name

def SwitchRequest.target : SwitchRequest → Option String
  | .createBranch _ startPoint => startPoint
  | .checkoutDetached rev => some rev
  | .checkout name => some ("refs/heads/" ++ name)

end Git
end Yuzora
