import Yuzora.TrustSteps
/-!
# TrustRuns — what stands behind an authorization

A record in the document was written by a grant, which consumed a challenge that was issued for this very pair.
Nothing else is checked between the issue and the write, nor about the directory behind a bound root: `Heeded` names
the three moments at which a run must not have gone on without the code.
-/
namespace Yuzora
namespace Trust

open Pool

/-! ## Programs -/

section Along

variable {ε α : Type} {asks : List (Asked Command Reply) → Command → Prop} {past : List (Asked Command Reply)}

theorem along_ask {c : Command} {answer : Reply c → Except TrustError α}
    {ends : List (Asked Command Reply) → Except TrustError α → Prop} :
    (ask c answer).Along asks ends past ↔ asks past c ∧ ∀ r, ends (past ++ [⟨c, r⟩]) (answer r) := Iff.rfl

variable {path : String} {ends : List (Asked Command Reply) → Except TrustError WorkspaceIdentity → Prop}

theorem along_observe : (observe path).Along asks ends past ↔
      asks past (.observeIdentity path) ∧ ∀ r, ends (past ++ [⟨.observeIdentity path, r⟩]) r := Iff.rfl

theorem along_lookup {observed : WorkspaceIdentity}
    {ends : List (Asked Command Reply) → Except TrustError TrustLookup → Prop} (ha : asks past .loadDocument)
    (hok : ∀ document, ends (past ++ [⟨.loadDocument, .ok document⟩]) (.ok (lookupIn document observed)))
    (herr : ∀ error, ends (past ++ [⟨.loadDocument, .error error⟩]) (.error error)) :
    (lookup observed).Along asks ends past := by
  refine Prog.along_bind.2 (along_ask.2 ⟨ha, fun r => ⟨fun document hr => ?_, fun error hr => ?_⟩⟩)
  · obtain rfl : r = .ok document := hr
    exact hok document
  · obtain rfl : r = .error error := hr
    exact herr error

/-- Commands that neither consume a challenge, bind a root, nor touch the document. -/
def Command.quiet : Command → Bool
  | .takeChallenge _ | .insertSessionGitRoot _ _ | .persistGrant _ | .revokeRecords _ _ => false
  | _ => true

theorem along_requireTrusted

    (ha : ∀ past c, c.quiet = true → asks past c)
    (hok : ∀ identity document, lookupIn document identity = .trusted →
      ends (past ++ [⟨.observeIdentity path, .ok identity⟩] ++ [⟨.loadDocument, .ok document⟩]) (.ok identity))
    (herr : ∀ past error, ends past (.error error)) : (requireTrusted path).Along asks ends past := by
  refine Prog.along_bind.2 (along_observe.2 ⟨ha _ _ rfl, fun r => ⟨fun observed hr => ?_, fun error _ => herr _ error⟩⟩)
  obtain rfl : r = .ok observed := hr
  refine Prog.along_bind.2 (along_lookup (ha _ _ rfl) (fun document => ⟨fun found hf => ?_, fun _ hf => Prog.ok_ne_error hf⟩)
    fun error => ⟨fun found hf => Prog.error_ne_ok hf, fun error _ => herr _ error⟩)
  cases found with
  | trusted => exact hok _ _ (Except.ok.inj hf)
  | replaced | unknown => exact ⟨ha _ _ rfl, fun _ => herr _ _⟩

theorem along_status {ends : List (Asked Command Reply) → Except TrustError WorkspaceTrustStatusDto → Prop}
    (ha : ∀ past c, c.quiet = true → asks past c) (he : ∀ past r, ends past r) : (status path).Along asks ends past := by
  refine Prog.along_bind.2 (Prog.along_attempt.2 (along_observe.2 ⟨ha _ _ rfl, fun r => ⟨fun seen _ => ?_, fun _ h => Prog.ok_ne_error h⟩⟩))
  cases seen with
  | error error => exact he _ _
  | ok observed =>
    refine Prog.along_bind.2 (along_lookup (ha _ _ rfl) (fun document => ⟨fun found _ => ?_, fun _ _ => he _ _⟩)
      fun error => ⟨fun found h => Prog.error_ne_ok h, fun _ _ => he _ _⟩)
    cases found with
    | trusted => exact ⟨ha _ _ rfl, fun _ => he _ _⟩
    | replaced | unknown => exact ⟨ha _ _ rfl, fun _ => ⟨ha _ _ rfl, fun _ => he _ _⟩⟩

end Along

/-- **The past with which an operation reaches a command of weight.** -/
structure Operation.Asks (op : Operation) (past : List (Asked Command Reply)) (c : Command) : Prop where
  take : ∀ id, c = .takeChallenge id → op = .grant id
  insert : ∀ root workspace, c = .insertSessionGitRoot root workspace → ∃ path seen,
    op = .bindSessionGitRoot workspace path ∧ past = [⟨.observeIdentity path, .ok seen⟩] ∧ seen.canonicalPath = root
  persist : ∀ pair, c = .persistGrant pair → ∃ id challenge, op = .grant id ∧ challenge.identity = pair ∧
    past = [⟨.takeChallenge id, .ok challenge⟩, ⟨.observeIdentity pair.canonicalPath, .ok pair⟩]

/-- **The past with which an operation authorizes a path.** -/
def Operation.Ends (op : Operation) (past : List (Asked Command Reply)) (r : Except TrustError Answer) : Prop :=
  ∀ identity, r = .ok (.trusted identity) → ∃ path document,
    ((op = .requireTrusted path ∨ op = .requireTrustedGit path) ∧ lookupIn document identity = .trusted ∧
        past = [⟨.observeIdentity path, .ok identity⟩, ⟨.loadDocument, .ok document⟩]) ∨
      op = .requireTrustedGit path ∧ ∃ workspace before, lookupIn document workspace = .trusted ∧
        past = before ++ [⟨.observeIdentity path, .ok identity⟩,
          ⟨.sessionGitRoot identity.canonicalPath, some workspace⟩, ⟨.loadDocument, .ok document⟩]

theorem Operation.asks_quiet (op : Operation) (past : List (Asked Command Reply)) (c : Command) (h : c.quiet = true) :
    op.Asks past c := by
  refine ⟨fun id hc => ?_, fun root workspace hc => ?_, fun pair hc => ?_⟩
  all_goals
    subst hc
    cases h

variable {op : Operation}

variable {past : List (Asked Command Reply)}

theorem ends_error {error : TrustError} : op.Ends past (.error error) := nofun

theorem ends_other {answer : Answer} (h : ∀ identity, answer ≠ .trusted identity) : op.Ends past (.ok answer) :=
  fun identity he => absurd (Except.ok.inj he) (h identity)

theorem along_answer {α : Type} {p : M α} {answer : α → Answer}
    (h : p.Along op.Asks (fun past r => ∀ a, r = .ok a → op.Ends past (.ok (answer a))) past) :
    (do pure (answer (← p)) : M Answer).Along op.Asks op.Ends past :=
  Prog.along_bind.2 (h.mono (fun _ _ => id) fun _ _ hr => ⟨fun a ha => hr a ha, fun _ _ => ends_error⟩)

variable (path : String)

theorem requireTrusted_along :
    (Operation.requireTrusted path).start.Along (Operation.requireTrusted path).Asks (Operation.requireTrusted path).Ends
      [] := by
  refine along_answer (along_requireTrusted (Operation.asks_quiet _) (fun identity document hl a ha => ?_)
    fun _ _ a ha => Prog.error_ne_ok ha)
  cases ha
  intro identity he
  cases he
  exact ⟨path, document, .inl ⟨.inl rfl, hl, rfl⟩⟩

theorem requireTrustedGit_along :
    (Operation.requireTrustedGit path).start.Along (Operation.requireTrustedGit path).Asks
      (Operation.requireTrustedGit path).Ends [] := by
  have quiet := Operation.asks_quiet (.requireTrustedGit path)
  refine along_answer (Prog.along_bind.2 (Prog.along_attempt.2 (along_requireTrusted quiet
    (fun identity document hl => ⟨fun r hr => ?_, fun _ h => Prog.ok_ne_error h⟩)
    fun before error => ⟨fun r hr => ?_, fun _ h => Prog.ok_ne_error h⟩)))
  · cases hr
    intro a ha identity' he
    cases ha
    cases he
    exact ⟨path, document, .inl ⟨.inr rfl, hl, rfl⟩⟩
  cases hr
  refine Prog.along_bind.2 (Prog.along_attempt.2 (along_observe.2
    ⟨quiet _ _ rfl, fun seen => ⟨fun r hr => ?_, fun _ h => Prog.ok_ne_error h⟩⟩))
  obtain rfl : seen = r := Except.ok.inj hr
  cases seen with
  | error _ => exact fun a ha => Prog.error_ne_ok ha
  | ok observed =>
    refine Prog.along_bind.2 (Prog.along_bind.2 ⟨quiet _ _ rfl, fun bound => ⟨fun workspace hw => ?_, fun _ h =>
      Prog.ok_ne_error h⟩⟩)
    cases hw
    cases bound with
    | none =>
      refine ⟨fun allowed ha => ?_, fun _ h => Prog.ok_ne_error h⟩
      cases ha
      exact fun a h => Prog.error_ne_ok h
    | some workspace =>
      refine Prog.along_bind.2 (along_lookup (quiet _ _ rfl) (fun document => ⟨fun found hf => ?_, fun _ h =>
        Prog.ok_ne_error h⟩) fun error => ⟨fun _ h => Prog.error_ne_ok h, fun _ _ => ⟨fun _ h => Prog.error_ne_ok h,
          fun _ _ a ha => Prog.error_ne_ok ha⟩⟩)
      cases hf
      refine ⟨fun allowed ha => ?_, fun _ h => Prog.ok_ne_error h⟩
      cases ha
      by_cases hl : lookupIn document workspace = .trusted
      · rw [if_pos (by simpa using hl)]
        intro a ha' identity he
        cases ha'
        cases he
        exact ⟨path, document, .inr ⟨rfl, workspace, before, hl, by simp⟩⟩
      · rw [if_neg (by simpa using hl)]
        exact fun a ha => Prog.error_ne_ok ha

theorem grant_along (id : String) :
    (Operation.grant id).start.Along (Operation.grant id).Asks (Operation.grant id).Ends [] := by
  have quiet := Operation.asks_quiet (.grant id)
  have ends : ∀ past (r : Except TrustError WorkspaceTrustStatusDto), ∀ a, r = .ok a →
      (Operation.grant id).Ends past (.ok (.status a)) := fun past r a _ => ends_other nofun
  refine along_answer (Prog.along_bind.2 (along_ask.2 ⟨⟨fun tok hc => ?_, fun _ _ hc => ?_, fun _ hc => ?_⟩,
    fun taken => ⟨fun challenge ht => ?_, fun _ _ => ends _ _⟩⟩))
  · cases hc
    rfl
  · cases hc
  · cases hc
  obtain rfl : taken = .ok challenge := ht
  split
  · exact ends _ _
  refine Prog.along_bind.2 (along_observe.2 ⟨quiet _ _ rfl, fun seen => ⟨fun observed hs => ?_, fun _ _ => ends _ _⟩⟩)
  obtain rfl : seen = .ok observed := hs
  split
  · exact ends _ _
  · rename_i hsame
    have hsame : observed = challenge.identity := not_not.1 hsame
    refine Prog.along_bind.2 (along_ask.2 ⟨⟨fun _ hc => ?_, fun _ _ hc => ?_, fun pair hc => ?_⟩,
      fun _ => ⟨fun _ _ => along_status quiet ends, fun _ _ => ends _ _⟩⟩)
    · cases hc
    · cases hc
    · cases hc
      exact ⟨id, challenge, rfl, hsame.symm, by rw [hsame]; rfl⟩

theorem bindSessionGitRoot_along (workspace : WorkspaceIdentity) (gitRoot : String) :
    (Operation.bindSessionGitRoot workspace gitRoot).start.Along (Operation.bindSessionGitRoot workspace gitRoot).Asks
      (Operation.bindSessionGitRoot workspace gitRoot).Ends [] := by
  have ends : ∀ past, (Operation.bindSessionGitRoot workspace gitRoot).Ends past (.ok .bound) :=
    fun past => ends_other nofun
  refine Prog.along_bind.2 (Prog.along_bind.2 (Prog.along_attempt.2 (along_observe.2
    ⟨Operation.asks_quiet _ _ _ rfl, fun seen => ⟨fun r hr => ?_, fun _ h => Prog.ok_ne_error h⟩⟩)))
  cases hr
  cases seen with
  | error _ => exact ⟨fun _ _ => ends _, fun _ h => Prog.ok_ne_error h⟩
  | ok root =>
    dsimp only
    by_cases hsame : root.canonicalPath = workspace.canonicalPath
    · rw [if_pos hsame]
      exact ⟨fun _ _ => ends _, fun _ h => Prog.ok_ne_error h⟩
    · rw [if_neg hsame]
      refine ⟨⟨fun _ hc => ?_, fun _ _ hc => ?_, fun _ hc => ?_⟩, fun _ => ⟨fun _ _ => ends _, fun _ h => Prog.ok_ne_error h⟩⟩
      · cases hc
      · cases hc
        exact ⟨gitRoot, root, rfl, rfl, rfl⟩
      · cases hc

theorem revoke_along :
    (Operation.revoke path).start.Along (Operation.revoke path).Asks (Operation.revoke path).Ends [] := by
  have quiet := Operation.asks_quiet (.revoke path)
  have ends : ∀ past (r : Except TrustError (List String)), ∀ a, r = .ok a →
      (Operation.revoke path).Ends past (.ok (.stopped a)) := fun past r a _ => ends_other nofun
  have rest : ∀ past stopped, (do
      let stopped ← ask (.revokeRecords path stopped) id
      pure (dedup (stopped.mergeSort fun a b => decide (a ≤ b))) : M (List String)).Along (Operation.revoke path).Asks
        (fun past r => ∀ a, r = .ok a → (Operation.revoke path).Ends past (.ok (.stopped a))) past := by
    refine fun past stopped => Prog.along_bind.2 (along_ask.2 ⟨⟨fun _ hc => ?_, fun _ _ hc => ?_, fun _ hc => ?_⟩,
      fun _ => ⟨fun _ _ => ends _ _, fun _ _ => ends _ _⟩⟩)
    all_goals cases hc
  refine along_answer (Prog.along_bind.2 (Prog.along_bind.2 (Prog.along_attempt.2 (along_observe.2
    ⟨quiet _ _ rfl, fun seen => ⟨fun r hr => ?_, fun _ h => Prog.ok_ne_error h⟩⟩))))
  cases hr
  cases seen with
  | error _ => exact ⟨fun _ _ => rest _ _, fun _ _ => ends _ _⟩
  | ok observed =>
    exact ⟨quiet _ _ rfl, fun _ => ⟨quiet _ _ rfl, fun _ => ⟨fun _ _ => rest _ _, fun _ _ => ends _ _⟩⟩⟩

theorem Operation.along (op : Operation) : op.start.Along op.Asks op.Ends [] := by
  cases op with
  | requireTrusted path => exact requireTrusted_along path
  | requireTrustedGit path => exact requireTrustedGit_along path
  | grant id => exact grant_along id
  | bindSessionGitRoot workspace gitRoot => exact bindSessionGitRoot_along workspace gitRoot
  | revoke path => exact revoke_along path
  | status path =>
    exact along_answer (along_status (Operation.asks_quiet _) fun _ _ _ _ => ends_other nofun)
  | issueWorkspaceChallenge path =>
    have quiet := Operation.asks_quiet (.issueWorkspaceChallenge path)
    have ends : ∀ past (r : Except TrustError WorkspaceTrustChallengeDto), ∀ a, r = .ok a →
        (Operation.issueWorkspaceChallenge path).Ends past (.ok (.challenge a)) :=
      fun past r a _ => ends_other nofun
    exact along_answer (Prog.along_bind.2 (along_observe.2 ⟨quiet _ _ rfl, fun _ => ⟨fun _ _ =>
      ⟨quiet _ _ rfl, fun _ => ⟨quiet _ _ rfl, fun _ => ⟨quiet _ _ rfl, fun _ => ends _ _⟩⟩⟩, fun _ _ => ends _ _⟩⟩))

/-! ## Runs -/

abbrev Moment : Type := Threads Command Reply TrustError Answer Shared Call
abbrev Event : Type := Transition Moment (Move Command Reply Call)

/-- The runs of any number of processes that share one document, from a time and a disk on. -/
def Runs : List Event → Moment → Prop := fun l s => ∃ now disk, stores.Runs (fresh now disk) l s

/-- Process `k` issues this challenge now. -/
def Issues (k : Nat) (challenge : Challenge) (x : Event) : Prop :=
  (∃ id op, x.label = .own id ⟨k, op⟩ ⟨.issueChallenge challenge.kind challenge.identity, challenge.id⟩) ∧
    x.src.shared.now = challenge.created

/-- A challenge of this id is used in process `k`, with whatever success. -/
def Uses (k : Nat) (id : String) (x : Event) : Prop := ∃ g op r, x.label = .own g ⟨k, op⟩ ⟨.takeChallenge id, r⟩

/-- The grant `g` in process `k` consumes this challenge before it expires. -/
def Consumes (g k : Nat) (challenge : Challenge) (x : Event) : Prop :=
  x.label = .own g ⟨k, .grant challenge.id⟩ ⟨.takeChallenge challenge.id, .ok challenge⟩ ∧
    challenge.expired x.src.shared.now = false

def Revokes (x : Event) : Prop :=
  ∃ id call canonicalPath stopped result, x.label = .own id call ⟨.revokeRecords canonicalPath stopped, .ok result⟩ ∧
    (path = canonicalPath ∨ path ∈ stopped)

variable (l : List Event)

/-- The grant `g` consumed this challenge, which was never used before; `since` is all that happened after its issue. -/
def Consumption (g k : Nat) (challenge : Challenge) (since : List Event) : Prop :=
  ∃ past issue waiting take later, l = past ++ issue :: since ∧ since = waiting ++ take :: later ∧
    Issues k challenge issue ∧ (∀ y ∈ waiting, ¬ Uses k challenge.id y) ∧ Consumes g k challenge take

/-- **What it takes to be trusted**: a grant consumed a challenge issued for exactly this pair, wrote it down, and no
revoke of the path ran to completion after the issue. -/
def Covered (pair : WorkspaceIdentity) : Prop :=
  ∃ g k challenge since, Consumption l g k challenge since ∧ challenge.identity = pair ∧
    (∃ y ∈ since, ∃ r, y.label = .own g ⟨k, .grant challenge.id⟩ ⟨.persistGrant pair, r⟩) ∧
    ∀ y ∈ since, ¬ Revokes pair.canonicalPath y

/-- Process `k` bound the workspace to a git root at which it had observed this pair. -/
def BoundTo (k : Nat) (root workspace : WorkspaceIdentity) : Prop :=
  ∃ b path, Happened [
    fun x => x.label = .own b ⟨k, .bindSessionGitRoot workspace path⟩ ⟨.observeIdentity path, .ok root⟩,
    fun x => x.label = .own b ⟨k, .bindSessionGitRoot workspace path⟩
      ⟨.insertSessionGitRoot root.canonicalPath workspace, ()⟩] l

/-- With this transition an operation of process `k` authorizes a pair. -/
def Authorizes (id k : Nat) (op : Operation) (identity : WorkspaceIdentity) (x : Event) : Prop :=
  (∃ a, x.label = .own id ⟨k, op⟩ a) ∧ x.dst.threads id = some ⟨⟨k, op⟩, .done (.ok (.trusted identity))⟩

/-- **What the directory found at a path must have behind it.** -/
def Allowed (s : Moment) (k : Nat) (path : String) : Prop :=
  ∃ found, observeIdentity s.shared.disk path = .ok found ∧ (Covered l found ∨
    ∃ workspace, BoundTo l k found workspace ∧ Covered l workspace ∧
      observeIdentity s.shared.disk workspace.canonicalPath = .ok workspace)

def Operation.authorizes (op : Operation) (path : String) : Prop :=
  op = .requireTrusted path ∨ op = .requireTrustedGit path

/-! ## No change is lost -/

def GrantsTo (x : Event) : Prop :=
  ∃ id call pair r, x.label = .own id call ⟨.persistGrant pair, r⟩ ∧ pair.canonicalPath = path

/-- A grant or a revoke that reaches the records of this path, with whatever success. -/
def Touches (x : Event) : Prop :=
  GrantsTo path x ∨ ∃ id call canonicalPath stopped r,
    x.label = .own id call ⟨.revokeRecords canonicalPath stopped, r⟩ ∧ (path = canonicalPath ∨ path ∈ stopped)

/-- **Nothing is lost to a change of another path**: a pair granted since the last change of its path is in the document,
and a path revoked since its last grant is not. -/
structure Kept (l : List Event) (s : Moment) : Prop where
  granted : ∀ pair, Since (fun x => ∃ id call, x.label = .own id call ⟨.persistGrant pair, .ok ()⟩)
    (fun x => ¬ Touches pair.canonicalPath x) l → Holds (records s.shared.file) pair
  revoked : ∀ path, Since (Revokes path) (fun x => ¬ GrantsTo path x) l →
    ∀ record ∈ records s.shared.file, record.canonicalPath ≠ path

/-! ## What a run must not do without the code -/

/-- **The steps after which the code is right.**  A grant writes a pair only while no revoke of it completed since its
challenge was issued, unless the pair is in the document anyway; an answer comes before the directory it is about is
replaced; and a bound root answers only while root and workspace are the directories seen at the bind, unless the root
is in the document itself. -/
structure Heeded (past : List Event) (x : Event) : Prop where
  fresh : ∀ g k pair r challenge since, x.label = .own g ⟨k, .grant challenge.id⟩ ⟨.persistGrant pair, r⟩ →
    challenge.identity = pair → Consumption past g k challenge since →
    Holds (records x.src.shared.file) pair ∨ ∀ y ∈ since, ¬ Revokes pair.canonicalPath y
  still : ∀ id k op path identity, op.authorizes path → Authorizes id k op identity x →
    observeIdentity x.src.shared.disk path = .ok identity
  bound : ∀ id k path identity workspace, Authorizes id k (.requireTrustedGit path) identity x →
    ⟨.sessionGitRoot identity.canonicalPath, some workspace⟩ ∈ history id past →
    Holds (records x.src.shared.file) identity ∨
      observeIdentity x.src.shared.disk workspace.canonicalPath = .ok workspace ∧
        ∀ root, BoundTo past k root workspace → root.canonicalPath = identity.canonicalPath → root = identity

end Trust
end Yuzora
