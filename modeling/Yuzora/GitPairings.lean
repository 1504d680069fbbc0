import Yuzora.GitScope
/-!
# GitPairings — renames that move

Git pairs a deleted path with an added one into one row, and may pair them otherwise after a change somewhere else.  The
rows of a path that was not asked for then change with the pairing.
-/
namespace Yuzora
namespace Git

open List Option

/-! ## The check -/

/-- The requested paths, and both ends of a rename of which one is requested. -/
def allowedPaths (requested : List (List Char)) (before after : ParsedStatus) : List (List Char) :=
  requested ++ [before, after].flatMap fun status => (status.staged ++ status.unstaged).flatMap fun entry =>
    (entry.origPath.filter fun _ => entry.status = ['R']).elim [] fun origPath =>
      if entry.path ∈ requested ∨ origPath ∈ requested then [origPath, entry.path] else []

def untrackedOrAbsent (rows : Fingerprints) (name : List Char) : Bool :=
  (rows.get name).all fun signature => signature = untrackedToken

/-- How git takes the requests it is given: those it respells, and the names it takes them to. -/
structure Spelling where
  respells : List Char → Bool
  spellings : List (List Char) → List (List Char × List Char)

def respelledRequests (git : Spelling) (requested asStored : List (List Char)) (before after : ParsedStatus) :
    List (List Char) :=
  ((git.spellings (requested.filter git.respells)).filter fun spelled =>
    !asStored.contains spelled.1 || (untrackedOrAbsent (statusPathFingerprint before) spelled.2 &&
      untrackedOrAbsent (statusPathFingerprint after) spelled.2)).map Prod.snd

def ensureLiteralPathScope (git : Spelling) (operation : List Char) (requested asStored : List (List Char))
    (before after : ParsedStatus) : Except (List Char) Unit :=
  if before.headOid ≠ after.headOid then
    .error ("git ".toList ++ operation ++ " changed HEAD outside the requested path set".toList)
  else
    let extra := (mutatedStatusPaths before after).filter fun path => path ∉ allowedPaths requested before after
    let extra := if extra = [] then [] else
      extra.filter fun path => path ∉ respelledRequests git requested asStored before after
    if extra = [] then .ok ()
    else .error ("git ".toList ++ operation ++ " changed paths outside the requested set: ".toList ++
      ", ".toList.intercalate extra)

/-! ## What git reports -/

/-- What happened to a path on one side. -/
inductive PathChange
  | none | modified | typeChanged | added | deleted
deriving DecidableEq

def PathChange.letter : PathChange → Char
  | .none => '.'
  | .modified => 'M'
  | .typeChanged => 'T'
  | .added => 'A'
  | .deleted => 'D'

/-- HEAD and the index, or the index and the worktree. -/
inductive Side
  | index | worktree
deriving DecidableEq

structure PathState where
  index : PathChange := .none
  worktree : PathChange := .none
  untracked : Bool := false
  conflicted : Option (Letter × Letter) := none

variable (state : PathState)

def PathState.on : Side → PathChange
  | .index => state.index
  | .worktree => state.worktree

/-- HEAD, and the paths that are not clean. -/
structure GitState where
  head : List Char
  paths : List (List Char)
  states : List Char → PathState
  nodup : paths.Nodup
  named : [] ∉ paths
  clean : ∀ path, path ∉ paths → states path = {}

structure Pair where
  side : Side
  source : List Char
  target : List Char
deriving DecidableEq

/-- A pairing: deleted paths with added ones, each with at most one. -/
structure Pairing (state : GitState) where
  pairs : List Pair
  deleted : ∀ pair ∈ pairs, (state.states pair.source).on pair.side = .deleted
  added : ∀ pair ∈ pairs, (state.states pair.target).on pair.side = .added
  oneTarget : ∀ pair ∈ pairs, ∀ other ∈ pairs, pair.side = other.side → pair.source = other.source → pair = other
  oneSource : ∀ pair ∈ pairs, ∀ other ∈ pairs, pair.target = other.target → pair = other

variable (pairs : List Pair)

def pairTo (path : List Char) : Option Pair := pairs.find? (·.target = path)

def isSource (side : Side) (path : List Char) : Bool :=
  pairs.any fun pair => pair.side = side ∧ pair.source = path

/-- The letter of a path: that of a rename for its destination, and none for its source. -/
def letterOn (side : Side) (path : List Char) : Char :=
  if (pairTo pairs path).any (·.side = side) then 'R'
  else if isSource pairs side path then '.'
  else (state.on side).letter

def entryOn (side : Side) (path : List Char) : Option GitFileEntry :=
  if letterOn state pairs side path = '.' then none
  else some ⟨path, (pairTo pairs path).map Pair.source, [letterOn state pairs side path]⟩

def report (state : GitState) (pairs : List Pair) : ParsedStatus where
  headOid := state.head
  staged := state.paths.filterMap fun path => entryOn (state.states path) pairs .index path
  unstaged := state.paths.filterMap fun path => entryOn (state.states path) pairs .worktree path
  untracked := state.paths.filter fun path => (state.states path).untracked
  conflicted := state.paths.filterMap fun path =>
    (state.states path).conflicted.map fun letters => ⟨path, none, [letters.1.char, letters.2.char]⟩

/-- An operation that changes only what was requested. -/
structure Operation where
  before : GitState
  after : GitState
  requested : List (List Char)
  head : before.head = after.head
  scope : ∀ path, path ∉ requested → before.states path = after.states path

def Repaired (pairs pairs' : List Pair) (path : List Char) : Prop :=
  pairTo pairs path ≠ pairTo pairs' path ∨ ∃ side, isSource pairs side path ≠ isSource pairs' side path

def PairedWith (requested : List (List Char)) (pairs : List Pair) (path : List Char) : Prop :=
  ∃ pair ∈ pairs, pair.source = path ∧ pair.target ∈ requested ∨ pair.target = path ∧ pair.source ∈ requested

/-! ## The rows of a report -/

def rowsAt (path : List Char) : List Row :=
  ((entryOn state pairs .index path).map fun entry => Row.staged entry.status entry.origPath).toList ++
    ((entryOn state pairs .worktree path).map fun entry => Row.unstaged entry.status entry.origPath).toList ++
    (if state.untracked then [Row.untracked] else []) ++
    (state.conflicted.map fun letters => Row.conflicted [letters.1.char, letters.2.char]).toList

theorem filter_filterMap {β : Type} {paths : List (List Char)} (hnodup : paths.Nodup) {f : List Char → Option β}
    (key : β → List Char) (hkey : ∀ path b, f path = some b → key b = path) (path : List Char)
    (hout : path ∉ paths → f path = none) : (paths.filterMap f).filter (key · = path) = (f path).toList := by
  induction paths with
  | nil => rw [hout not_mem_nil]; rfl
  | cons first paths ih =>
    rw [nodup_cons] at hnodup
    by_cases h : first = path
    · subst h
      have hnone : (paths.filterMap f).filter (key · = first) = [] := by
        rw [filter_eq_nil_iff]
        intro b hb
        obtain ⟨other, hother, hf⟩ := mem_filterMap.1 hb
        simp only [decide_eq_true_eq, hkey other b hf]
        exact fun heq => hnodup.1 (heq ▸ hother)
      cases hf : f first with
      | none => rw [filterMap_cons_none hf, hnone]; rfl
      | some b =>
        rw [filterMap_cons_some hf, filter_cons_of_pos (by simp [hkey first b hf]), hnone]
        rfl
    · have hrest := ih hnodup.2 fun hno => hout (by simp [hno, Ne.symm h])
      cases hf : f first with
      | none => rw [filterMap_cons_none hf, hrest]
      | some b => rw [filterMap_cons_some hf, filter_cons_of_neg (by simp [hkey first b hf, h]), hrest]

variable {pairs : List Pair} {path : List Char} {pair : Pair}

theorem pairTo_some (h : pairTo pairs path = some pair) : pair ∈ pairs ∧ pair.target = path := by
  refine ⟨mem_of_find?_eq_some h, ?_⟩
  have hfound := find?_some h
  exact of_decide_eq_true hfound

section

variable {state : GitState} (pairing : Pairing state)

theorem pairTo_target (h : pair ∈ pairing.pairs) : pairTo pairing.pairs pair.target = some pair := by
  cases hfind : pairTo pairing.pairs pair.target with
  | none =>
    have hno := find?_eq_none.1 hfind pair h
    exact absurd (decide_eq_true rfl) hno
  | some other =>
    obtain ⟨hother, htarget⟩ := pairTo_some hfind
    rw [pairing.oneSource other hother pair h htarget]

theorem mem_paths (side : Side) (h : (state.states path).on side ≠ .none) : path ∈ state.paths := by
  by_cases hmem : path ∈ state.paths
  · exact hmem
  · rw [state.clean path hmem] at h
    cases side <;> exact absurd rfl h

theorem entryOn_clean (side : Side) (h : path ∉ state.paths) :
    entryOn (state.states path) pairing.pairs side path = none := by
  have hpair : pairTo pairing.pairs path = none := by
    cases hfind : pairTo pairing.pairs path with
    | none => rfl
    | some pair =>
      obtain ⟨hpair, rfl⟩ := pairTo_some hfind
      exact absurd (mem_paths pair.side (by rw [pairing.added pair hpair]; exact PathChange.noConfusion)) h
  have hletter : letterOn (state.states path) pairing.pairs side path = '.' := by
    rw [letterOn, hpair, state.clean path h]
    by_cases hsource : isSource pairing.pairs side path = true
    · rw [if_pos hsource]
      rfl
    · rw [if_neg hsource]
      cases side <;> rfl
  rw [entryOn, if_pos hletter]

theorem entryOn_path {st : PathState} {side : Side} {entry : GitFileEntry}
    (h : entryOn st pairs side path = some entry) : entry.path = path ∧
      entry.status = [letterOn st pairs side path] ∧ entry.origPath = (pairTo pairs path).map Pair.source ∧
        letterOn st pairs side path ≠ '.' := by
  unfold entryOn at h
  by_cases hletter : letterOn st pairs side path = '.'
  · rw [if_pos hletter] at h
    cases h
  · rw [if_neg hletter] at h
    rw [← Option.some.inj h]
    exact ⟨rfl, rfl, rfl, hletter⟩

/-- **The rows of a report** are those of the states, with the pairing. -/
theorem rowsOf_report (path : List Char) :
    rowsOf (report state pairing.pairs) path = rowsAt (state.states path) pairing.pairs path := by
  have hentries : ∀ side, ((state.paths.filterMap fun path => entryOn (state.states path) pairing.pairs side path).filter
      (·.path = path)) = (entryOn (state.states path) pairing.pairs side path).toList := fun side =>
    filter_filterMap state.nodup GitFileEntry.path (fun _ _ h => (entryOn_path h).1) path
      fun hout => entryOn_clean pairing side hout
  have huntracked : (state.paths.filter fun path => (state.states path).untracked).filter (· = path) =
      if (state.states path).untracked then [path] else [] := by
    have hguard : (state.paths.filter fun path => (state.states path).untracked) =
        state.paths.filterMap (Option.guard fun path => (state.states path).untracked) := by
      rw [filterMap_eq_filter]
    rw [hguard]
    refine (filter_filterMap state.nodup id (fun p b h => ?_) path fun hout => ?_).trans ?_
    · exact (guard_eq_some_iff.1 h).1.symm
    · rw [guard_eq_none_iff, state.clean path hout]
    · by_cases h : (state.states path).untracked = true
      · simp [Option.guard, h]
      · simp [Option.guard, h]
  have hconflicted : (state.paths.filterMap fun path => (state.states path).conflicted.map fun letters =>
      (⟨path, none, [letters.1.char, letters.2.char]⟩ : GitFileEntry)).filter (·.path = path) =
      ((state.states path).conflicted.map fun letters =>
        (⟨path, none, [letters.1.char, letters.2.char]⟩ : GitFileEntry)).toList := by
    refine filter_filterMap state.nodup GitFileEntry.path (fun p b h => ?_) path fun hout => ?_
    · obtain ⟨letters, -, rfl⟩ := map_eq_some_iff.1 h
      rfl
    · rw [state.clean path hout]
      rfl
  unfold rowsOf rowsAt report
  simp only [hentries, huntracked, hconflicted]
  congr 1
  · congr 1
    · congr 1
      · cases entryOn (state.states path) pairing.pairs .index path <;> rfl
      · cases entryOn (state.states path) pairing.pairs .worktree path <;> rfl
    · cases (state.states path).untracked <;> rfl
  · cases (state.states path).conflicted <;> rfl

/-! ## Letters and pairs -/

theorem letter_pathChange (change : PathChange) : change.letter ≠ 'R' ∧ (change.letter = '.' ↔ change = .none) := by
  cases change <;> decide

theorem letterOn_cases (side : Side) (path : List Char) :
    (∃ pair, pairTo pairing.pairs path = some pair ∧ pair.side = side ∧ isSource pairing.pairs side path = false ∧
      letterOn (state.states path) pairing.pairs side path = 'R') ∨
    ((∀ pair, pairTo pairing.pairs path = some pair → pair.side ≠ side) ∧ isSource pairing.pairs side path = true ∧
      (state.states path).on side = .deleted ∧ letterOn (state.states path) pairing.pairs side path = '.') ∨
    ((∀ pair, pairTo pairing.pairs path = some pair → pair.side ≠ side) ∧ isSource pairing.pairs side path = false ∧
      letterOn (state.states path) pairing.pairs side path = ((state.states path).on side).letter) := by
  have hsource : isSource pairing.pairs side path = true → (state.states path).on side = .deleted := by
    intro h
    obtain ⟨pair, hpair, hboth⟩ := any_eq_true.1 h
    obtain ⟨rfl, rfl⟩ := of_decide_eq_true hboth
    exact pairing.deleted pair hpair
  by_cases htarget : (pairTo pairing.pairs path).any (·.side = side) = true
  · obtain ⟨pair, hpair, hside⟩ : ∃ pair, pairTo pairing.pairs path = some pair ∧ pair.side = side := by
      cases hfind : pairTo pairing.pairs path with
      | none =>
        rw [hfind, any_none] at htarget
        cases htarget
      | some pair =>
        rw [hfind, any_some] at htarget
        exact ⟨pair, rfl, of_decide_eq_true htarget⟩
    refine .inl ⟨pair, hpair, hside, ?_, if_pos htarget⟩
    refine Bool.eq_false_iff.2 fun h => ?_
    obtain ⟨hmem, rfl⟩ := pairTo_some hpair
    have hadded := pairing.added pair hmem
    rw [hside, hsource h] at hadded
    cases hadded
  · have hno : ∀ pair, pairTo pairing.pairs path = some pair → pair.side ≠ side := by
      intro pair hpair hside
      refine htarget ?_
      rw [hpair, any_some]
      exact decide_eq_true hside
    by_cases h : isSource pairing.pairs side path = true
    · exact .inr (.inl ⟨hno, h, hsource h, by rw [letterOn, if_neg htarget, if_pos h]⟩)
    · exact .inr (.inr ⟨hno, Bool.eq_false_iff.2 h, by rw [letterOn, if_neg htarget, if_neg h]⟩)

theorem entryOn_told (st : PathState) (pairs : List Pair) (side : Side) (path : List Char) :
    (entryOn st pairs side path).map (fun entry => (entry.status, entry.origPath)) =
      if letterOn st pairs side path = '.' then none
      else some ([letterOn st pairs side path], (pairTo pairs path).map Pair.source) := by
  unfold entryOn
  by_cases h : letterOn st pairs side path = '.'
  · rw [if_pos h, if_pos h]
    rfl
  · rw [if_neg h, if_neg h]
    rfl

theorem entryOn_pair (h : pair ∈ pairing.pairs) :
    entryOn (state.states pair.target) pairing.pairs pair.side pair.target = some ⟨pair.target, some pair.source,
      ['R']⟩ := by
  have hto := pairTo_target pairing h
  have hletter : letterOn (state.states pair.target) pairing.pairs pair.side pair.target = 'R' := by
    rw [letterOn, hto, any_some, if_pos (decide_eq_true rfl)]
  rw [entryOn, hletter, hto, if_neg (by decide)]
  rfl

/-- **The renames of a report** are the pairs. -/
theorem renames_report (path origPath : List Char) :
    (∃ entry ∈ (report state pairing.pairs).staged ++ (report state pairing.pairs).unstaged,
      entry.path = path ∧ entry.origPath = some origPath ∧ entry.status = ['R']) ↔
      ∃ pair ∈ pairing.pairs, pair.target = path ∧ pair.source = origPath := by
  have hback : ∀ side entry, (∃ p ∈ state.paths, entryOn (state.states p) pairing.pairs side p = some entry) →
      entry.path = path → entry.origPath = some origPath → entry.status = ['R'] →
        ∃ pair ∈ pairing.pairs, pair.target = path ∧ pair.source = origPath := by
    intro side entry ⟨p, _, hentry⟩ hpath horig hstatus
    obtain ⟨rfl, hletter, hsource, -⟩ := entryOn_path hentry
    rw [hletter, List.cons.injEq] at hstatus
    rcases letterOn_cases pairing side entry.path with ⟨pair, hpair, -, -, -⟩ | ⟨-, -, -, h⟩ | ⟨-, -, h⟩
    · obtain ⟨hmem, htarget⟩ := pairTo_some hpair
      rw [hsource, hpair] at horig
      exact ⟨pair, hmem, htarget.trans hpath, Option.some.inj horig⟩
    · rw [h] at hstatus
      exact absurd hstatus.1 (by decide)
    · rw [h] at hstatus
      exact absurd hstatus.1 (letter_pathChange _).1
  constructor
  · intro ⟨entry, hentry, hpath, horig, hstatus⟩
    rcases mem_append.1 hentry with h | h
    · exact hback .index entry (mem_filterMap.1 h) hpath horig hstatus
    · exact hback .worktree entry (mem_filterMap.1 h) hpath horig hstatus
  · intro ⟨pair, hpair, htarget, hsource⟩
    have hmem : pair.target ∈ state.paths :=
      mem_paths pair.side (by rw [pairing.added pair hpair]; exact PathChange.noConfusion)
    have hentry := entryOn_pair pairing hpair
    refine ⟨⟨pair.target, some pair.source, ['R']⟩, mem_append.2 ?_, htarget, congrArg some hsource, rfl⟩
    cases hside : pair.side with
    | index =>
      rw [hside] at hentry
      exact .inl (mem_filterMap.2 ⟨_, hmem, hentry⟩)
    | worktree =>
      rw [hside] at hentry
      exact .inr (mem_filterMap.2 ⟨_, hmem, hentry⟩)

theorem letters_length {status : List Char} {c : Char} (h : status = [c]) : status.length = 1 := by rw [h]; rfl

theorem report_carried : Carried (report state pairing.pairs) := by
  have hside : ∀ side entry, (∃ p ∈ state.paths, entryOn (state.states p) pairing.pairs side p = some entry) →
      entry.status.length = 1 ∧ entry.origPath ≠ some [] := by
    intro side entry ⟨p, _, hentry⟩
    obtain ⟨-, hletter, hsource, -⟩ := entryOn_path hentry
    refine ⟨letters_length hletter, fun hnil => ?_⟩
    rw [hsource] at hnil
    obtain ⟨pair, hpair, hempty⟩ := map_eq_some_iff.1 hnil
    have hmem := (pairTo_some hpair).1
    have hpath : pair.source ∈ state.paths :=
      mem_paths pair.side (by rw [pairing.deleted pair hmem]; exact PathChange.noConfusion)
    exact state.named (hempty ▸ hpath)
  refine ⟨fun entry h => hside .index entry (mem_filterMap.1 h),
    fun entry h => hside .worktree entry (mem_filterMap.1 h), fun entry h => ?_⟩
  obtain ⟨p, -, hletters⟩ := mem_filterMap.1 h
  obtain ⟨letters, -, rfl⟩ := map_eq_some_iff.1 hletters
  rfl

end

/-! ## What a new pairing changes -/

def Row.isStaged : Row → Bool
  | .staged .. => true
  | _ => false

def Row.isUnstaged : Row → Bool
  | .unstaged .. => true
  | _ => false

theorem rowsAt_staged (st : PathState) (pairs : List Pair) (path : List Char) :
    (rowsAt st pairs path).filter Row.isStaged =
      ((entryOn st pairs .index path).map fun entry => Row.staged entry.status entry.origPath).toList := by
  unfold rowsAt
  cases entryOn st pairs .index path <;> cases entryOn st pairs .worktree path <;> cases st.untracked <;>
    cases st.conflicted <;> rfl

theorem rowsAt_unstaged (st : PathState) (pairs : List Pair) (path : List Char) :
    (rowsAt st pairs path).filter Row.isUnstaged =
      ((entryOn st pairs .worktree path).map fun entry => Row.unstaged entry.status entry.origPath).toList := by
  unfold rowsAt
  cases entryOn st pairs .index path <;> cases entryOn st pairs .worktree path <;> cases st.untracked <;>
    cases st.conflicted <;> rfl

theorem told_of_rows {st st' : PathState} {pairs' : List Pair}
    (h : rowsAt st pairs path = rowsAt st' pairs' path) (side : Side) :
    (entryOn st pairs side path).map (fun entry => (entry.status, entry.origPath)) =
      (entryOn st' pairs' side path).map fun entry => (entry.status, entry.origPath) := by
  have hrow : ∀ (make : List Char → Option (List Char) → Row), (∀ s o s' o', make s o = make s' o' → s = s' ∧ o = o') →
      ∀ a b : Option GitFileEntry, (a.map fun entry => make entry.status entry.origPath).toList =
        (b.map fun entry => make entry.status entry.origPath).toList →
          a.map (fun entry => (entry.status, entry.origPath)) = b.map fun entry => (entry.status, entry.origPath) := by
    intro make hinj a b heq
    cases a with
    | none =>
      cases b with
      | none => rfl
      | some b => cases heq
    | some a =>
      cases b with
      | none => cases heq
      | some b =>
        obtain ⟨hs, ho⟩ := hinj _ _ _ _ (List.cons.inj heq).1
        rw [map_some, map_some, hs, ho]
  cases side with
  | index =>
    refine hrow Row.staged (fun s o s' o' h => Row.staged.inj h) _ _ ?_
    rw [← rowsAt_staged, ← rowsAt_staged, h]
  | worktree =>
    refine hrow Row.unstaged (fun s o s' o' h => Row.unstaged.inj h) _ _ ?_
    rw [← rowsAt_unstaged, ← rowsAt_unstaged, h]

section

variable {state state' : GitState} (pairing : Pairing state) (pairing' : Pairing state')

theorem side_told (hstate : state.states path = state'.states path) {side : Side}
    (h : (entryOn (state.states path) pairing.pairs side path).map (fun entry => (entry.status, entry.origPath)) =
      (entryOn (state'.states path) pairing'.pairs side path).map fun entry => (entry.status, entry.origPath)) :
    isSource pairing.pairs side path = isSource pairing'.pairs side path ∧
      ∀ pair, pair.side = side → (pairTo pairing.pairs path = some pair ↔ pairTo pairing'.pairs path = some pair) := by
  rw [entryOn_told, entryOn_told] at h
  have hletter : letterOn (state.states path) pairing.pairs side path =
      letterOn (state'.states path) pairing'.pairs side path := by
    by_cases hnone : letterOn (state.states path) pairing.pairs side path = '.'
    · by_cases hnone' : letterOn (state'.states path) pairing'.pairs side path = '.'
      · exact hnone.trans hnone'.symm
      · rw [if_pos hnone, if_neg hnone'] at h
        cases h
    · by_cases hnone' : letterOn (state'.states path) pairing'.pairs side path = '.'
      · rw [if_neg hnone, if_pos hnone'] at h
        cases h
      · rw [if_neg hnone, if_neg hnone', Option.some.injEq, Prod.mk.injEq] at h
        exact (List.cons.inj h.1).1
  have hno : ∀ {pairs : List Pair}, (∀ pair, pairTo pairs path = some pair → pair.side ≠ side) →
      ∀ pair : Pair, pair.side = side → ¬ pairTo pairs path = some pair := fun hne pair hside hto => hne pair hto hside
  rcases letterOn_cases pairing side path with ⟨pair, hpair, hside, hsource, hl⟩ | ⟨hne, hsource, hdel, hl⟩ |
      ⟨hne, hsource, hl⟩ <;>
    rcases letterOn_cases pairing' side path with ⟨pair', hpair', hside', hsource', hl'⟩ | ⟨hne', hsource', hdel', hl'⟩ |
      ⟨hne', hsource', hl'⟩ <;>
    rw [hl, hl'] at hletter
  · refine ⟨hsource.trans hsource'.symm, fun other _ => ?_⟩
    have hdot : ('R' : Char) ≠ '.' := by decide
    rw [hl, hl', if_neg hdot, if_neg hdot, hpair, hpair', Option.some.injEq, Prod.mk.injEq] at h
    have hsame : pair = pair' := by
      have htarget := (pairTo_some hpair).2.trans (pairTo_some hpair').2.symm
      have horigin : pair.source = pair'.source := Option.some.inj h.2
      cases pair
      cases pair'
      simp only [Pair.mk.injEq] at *
      exact ⟨hside.trans hside'.symm, horigin, htarget⟩
    rw [hpair, hpair', hsame]
  · exact absurd hletter (by decide)
  · exact absurd hletter.symm (letter_pathChange _).1
  · exact absurd hletter (by decide)
  · exact ⟨hsource.trans hsource'.symm, fun pair hside => iff_of_false (hno hne pair hside) (hno hne' pair hside)⟩
  · rw [← hstate, hdel] at hletter
    exact absurd hletter (by decide)
  · exact absurd hletter (letter_pathChange _).1
  · rw [hstate, hdel'] at hletter
    exact absurd hletter (by decide)
  · exact ⟨hsource.trans hsource'.symm, fun pair hside => iff_of_false (hno hne pair hside) (hno hne' pair hside)⟩

/-- **The rows of an untouched path change** exactly with its part in the pairing. -/
theorem rowsAt_ne_iff (hstate : state.states path = state'.states path) :
    rowsAt (state.states path) pairing.pairs path ≠ rowsAt (state'.states path) pairing'.pairs path ↔
      Repaired pairing.pairs pairing'.pairs path := by
  rw [← not_iff_not, Decidable.not_not]
  constructor
  · intro hrows
    have hsides := fun side => side_told pairing pairing' hstate (told_of_rows hrows side)
    rintro (hto | ⟨side, hsource⟩)
    · refine hto ?_
      cases hfind : pairTo pairing.pairs path with
      | some pair => exact (((hsides pair.side).2 pair rfl).1 hfind).symm
      | none =>
        cases hfind' : pairTo pairing'.pairs path with
        | none => rfl
        | some pair =>
          rw [((hsides pair.side).2 pair rfl).2 hfind'] at hfind
          cases hfind
    · exact hsource (hsides side).1
  · intro hsame
    have hto : pairTo pairing.pairs path = pairTo pairing'.pairs path := by
      by_cases h : pairTo pairing.pairs path = pairTo pairing'.pairs path
      · exact h
      · exact absurd (.inl h) hsame
    have hsource : ∀ side, isSource pairing.pairs side path = isSource pairing'.pairs side path := by
      intro side
      by_cases h : isSource pairing.pairs side path = isSource pairing'.pairs side path
      · exact h
      · exact absurd (.inr ⟨side, h⟩) hsame
    have hentry : ∀ side, entryOn (state.states path) pairing.pairs side path =
        entryOn (state'.states path) pairing'.pairs side path := by
      intro side
      unfold entryOn letterOn
      rw [hto, hsource side, hstate]
    unfold rowsAt
    rw [hentry, hentry, hstate]

end

/-! ## What the check allows -/

variable {requested : List (List Char)} {before after : ParsedStatus}

theorem mem_allowed : path ∈ allowedPaths requested before after ↔ path ∈ requested ∨ ∃ status ∈ [before, after],
      ∃ target source, (∃ entry ∈ status.staged ++ status.unstaged,
        entry.path = target ∧ entry.origPath = some source ∧ entry.status = ['R']) ∧
          (target ∈ requested ∨ source ∈ requested) ∧ (path = source ∨ path = target) := by
  unfold allowedPaths
  rw [mem_append]
  refine or_congr_right ?_
  rw [mem_flatMap]
  refine exists_congr fun status => and_congr_right fun _ => ?_
  rw [mem_flatMap]
  constructor
  · intro ⟨entry, hentry, hmem⟩
    cases horig : entry.origPath with
    | none =>
      rw [horig] at hmem
      cases hmem
    | some source =>
      by_cases hstatus : entry.status = ['R']
      · rw [horig, filter_some, if_pos (decide_eq_true hstatus), elim_some] at hmem
        by_cases hrequested : entry.path ∈ requested ∨ source ∈ requested
        · rw [if_pos hrequested] at hmem
          simp only [mem_cons, not_mem_nil, or_false] at hmem
          exact ⟨entry.path, source, ⟨entry, hentry, rfl, horig, hstatus⟩, hrequested, hmem⟩
        · rw [if_neg hrequested] at hmem
          cases hmem
      · rw [horig, filter_some, if_neg (by simpa using hstatus)] at hmem
        cases hmem
  · rintro ⟨target, source, ⟨entry, hentry, rfl, horig, hstatus⟩, hrequested, hpath⟩
    refine ⟨entry, hentry, ?_⟩
    rw [horig, filter_some, if_pos (decide_eq_true hstatus), elim_some, if_pos hrequested]
    simp only [mem_cons, not_mem_nil, or_false]
    exact hpath

theorem mem_allowed_report {state state' : GitState} (pairing : Pairing state) (pairing' : Pairing state') (h : path ∉ requested) :
    path ∈ allowedPaths requested (report state pairing.pairs) (report state' pairing'.pairs) ↔
      PairedWith requested pairing.pairs path ∨ PairedWith requested pairing'.pairs path := by
  have hpaired : ∀ {state : GitState} (pairing : Pairing state), (∃ target source,
      (∃ entry ∈ (report state pairing.pairs).staged ++ (report state pairing.pairs).unstaged,
        entry.path = target ∧ entry.origPath = some source ∧ entry.status = ['R']) ∧
          (target ∈ requested ∨ source ∈ requested) ∧ (path = source ∨ path = target)) ↔
      PairedWith requested pairing.pairs path := by
    intro state pairing
    simp only [renames_report]
    constructor
    · rintro ⟨_, _, ⟨pair, hpair, rfl, rfl⟩, hrequested, rfl | rfl⟩
      · exact ⟨pair, hpair, .inl ⟨rfl, hrequested.resolve_right h⟩⟩
      · exact ⟨pair, hpair, .inr ⟨rfl, hrequested.resolve_left h⟩⟩
    · rintro ⟨pair, hpair, ⟨rfl, hrequested⟩ | ⟨rfl, hrequested⟩⟩
      · exact ⟨_, _, ⟨pair, hpair, rfl, rfl⟩, .inl hrequested, .inl rfl⟩
      · exact ⟨_, _, ⟨pair, hpair, rfl, rfl⟩, .inr hrequested, .inr rfl⟩
  rw [mem_allowed]
  constructor
  · rintro (hmem | ⟨status, hstatus, hrename⟩)
    · exact absurd hmem h
    · rcases mem_cons.1 hstatus with rfl | hstatus
      · exact .inl ((hpaired pairing).1 hrename)
      · rw [mem_singleton.1 hstatus] at hrename
        exact .inr ((hpaired pairing').1 hrename)
  · rintro (hpair | hpair)
    · exact .inr ⟨_, mem_cons_self, (hpaired pairing).2 hpair⟩
    · exact .inr ⟨_, mem_cons_of_mem _ mem_cons_self, (hpaired pairing').2 hpair⟩

theorem scope_ok_iff {git : Spelling} {operation : List Char} {asStored : List (List Char)}
    (hhead : before.headOid = after.headOid) :
    ensureLiteralPathScope git operation requested asStored before after = .ok () ↔
      ∀ path ∈ mutatedStatusPaths before after, path ∉ allowedPaths requested before after →
        path ∈ respelledRequests git requested asStored before after := by
  unfold ensureLiteralPathScope
  rw [if_neg fun h => h hhead]
  have hextra : ∀ {a b : List (List Char)}, (if a = [] then [] else a.filter fun path => path ∉ b) = [] ↔
      ∀ path ∈ a, path ∈ b := by
    intro a b
    by_cases ha : a = []
    · rw [if_pos ha, ha]
      exact ⟨fun _ path hpath => absurd hpath not_mem_nil, fun _ => rfl⟩
    · rw [if_neg ha, filter_eq_nil_iff]
      exact forall_congr' fun path => forall_congr' fun _ => by simp
  have hok : ∀ {l : List (List Char)} {e : List Char},
      (if l = [] then .ok () else .error e : Except (List Char) Unit) = .ok () ↔ l = [] := by
    intro l e
    by_cases hl : l = []
    · rw [if_pos hl]
      exact ⟨fun _ => hl, fun _ => rfl⟩
    · rw [if_neg hl]
      exact ⟨fun h => (nomatch h), fun h => absurd h hl⟩
  refine (hok.trans hextra).trans ?_
  constructor
  · exact fun h path hpath hno => h path (mem_filter.2 ⟨hpath, decide_eq_true hno⟩)
  · intro h path hpath
    obtain ⟨hmem, hno⟩ := mem_filter.1 hpath
    exact h path hmem (of_decide_eq_true hno)

/-- **When an operation within its scope passes**: every path that was not asked for and whose part in the pairing is
another one is paired with a requested path, before or after. -/
theorem scope_passes_iff (git : Spelling) (name : List Char) (asStored : List (List Char)) (op : Operation)
    (before : Pairing op.before) (after : Pairing op.after) :
    ensureLiteralPathScope git name op.requested asStored (report op.before before.pairs)
        (report op.after after.pairs) = .ok () ↔
      ∀ path, path ∉ op.requested → Repaired before.pairs after.pairs path →
        ¬ SpellsOut (rowsOf (report op.before before.pairs) path) (rowsOf (report op.after after.pairs) path) →
        ¬ SpellsOut (rowsOf (report op.after after.pairs) path) (rowsOf (report op.before before.pairs) path) →
          PairedWith op.requested before.pairs path ∨ PairedWith op.requested after.pairs path ∨
            path ∈ respelledRequests git op.requested asStored (report op.before before.pairs)
              (report op.after after.pairs) := by
  have hrows : ∀ path, path ∉ op.requested → (rowsOf (report op.before before.pairs) path ≠
      rowsOf (report op.after after.pairs) path ↔ Repaired before.pairs after.pairs path) := by
    intro path hpath
    rw [rowsOf_report, rowsOf_report]
    exact rowsAt_ne_iff before after (op.scope path hpath)
  rw [scope_ok_iff op.head]
  constructor
  · intro h path hpath hrepaired hspells hspells'
    by_cases hallowed : path ∈ allowedPaths op.requested (report op.before before.pairs) (report op.after after.pairs)
    · rcases (mem_allowed_report before after hpath).1 hallowed with hpair | hpair
      · exact .inl hpair
      · exact .inr (.inl hpair)
    · refine .inr (.inr (h path ?_ hallowed))
      exact (mem_mutated_iff (report_carried before) (report_carried after) path).2
        ⟨(hrows path hpath).2 hrepaired, hspells, hspells'⟩
  · intro h path hmutated hno
    have hpath : path ∉ op.requested := fun hmem => hno (mem_append_left _ hmem)
    obtain ⟨hne, hspells, hspells'⟩ :=
      (mem_mutated_iff (report_carried before) (report_carried after) path).1 hmutated
    rcases h path hpath ((hrows path hpath).1 hne) hspells hspells' with hpair | hpair | hrespelled
    · exact absurd ((mem_allowed_report before after hpath).2 (.inl hpair)) hno
    · exact absurd ((mem_allowed_report before after hpath).2 (.inr hpair)) hno
    · exact hrespelled

/-! ## A source that finds another destination -/

/-- `d` is deleted and `a` added; `x` is new, and staged afterwards. -/
def statesWith (x : PathState) (path : List Char) : PathState :=
  if path = ['d'] then { index := .deleted }
  else if path = ['a'] then { index := .added }
  else if path = ['x'] then x
  else {}

def stateWith (x : PathState) : GitState where
  head := ['h']
  paths := [['d'], ['a'], ['x']]
  states := statesWith x
  nodup := by decide
  named := by decide
  clean := by
    intro path h
    simp only [List.mem_cons, List.not_mem_nil, or_false, not_or] at h
    rw [statesWith, if_neg h.1, if_neg h.2.1, if_neg h.2.2]

def stageX : Operation where
  before := stateWith { untracked := true }
  after := stateWith { index := .added }
  requested := [['x']]
  head := rfl
  scope := by
    intro path h
    have hx : path ≠ ['x'] := fun heq => h (List.mem_singleton.2 heq)
    change statesWith _ path = statesWith _ path
    unfold statesWith
    rw [if_neg hx, if_neg hx]

def pairedWithA : Pairing stageX.before where
  pairs := [⟨.index, ['d'], ['a']⟩]
  deleted := by decide
  added := by decide
  oneTarget := by decide
  oneSource := by decide

def pairedWithX : Pairing stageX.after where
  pairs := [⟨.index, ['d'], ['x']⟩]
  deleted := by decide
  added := by decide
  oneTarget := by decide
  oneSource := by decide

/-- Staging `x` takes the source from `a`, which is reported as changed outside the request. -/
theorem stage_reported : ensureLiteralPathScope ⟨fun _ => false, fun _ => []⟩ ['a', 'd', 'd'] stageX.requested []
    (report stageX.before pairedWithA.pairs) (report stageX.after pairedWithX.pairs) ≠ .ok () := by
  decide +kernel

end Git
end Yuzora
