import Mathlib.Data.List.Nodup
import Yuzora.Pieces
import Yuzora.Decimal
/-!
# GitChanges — the files a commit changes

Two answers of git name them: one with what happened to each file, one with its counted lines.  Both are tokens that end
in NUL, and how many of them belong to a file is told by the first.
-/
namespace Yuzora
namespace Git

open List
open Pieces Decimal

/-! ## The answers read -/

variable (raw : List Char)

def tokensZ : List (List Char) := (pieces '\x00' raw).filter (· ≠ [])

def nameStatuses : List (List Char) → List (Char × List Char × Option (List Char))
  | [] => []
  | status :: tokens =>
    let code := status.headD ' '
    if code = 'R' ∨ code = 'C' then
      match tokens with
      | old :: new :: tokens => (code, new, some old) :: nameStatuses tokens
      | _ => []
    else
      match tokens with
      | path :: tokens => (code, path, none) :: nameStatuses tokens
      | [] => []

/-- `--name-status -z`: a status and a path, or two paths for a rename or a copy. -/
def parseNameStatusZ : List (Char × List Char × Option (List Char)) := nameStatuses (tokensZ raw)

structure Stat where
  path : List Char
  additions : Nat
  deletions : Nat
  binary : Bool

def Stat.of (parts : List (List Char)) (path : List Char) : Stat :=
  let a := parts[0]?.getD []
  let d := parts[1]?.getD []
  let binary := decide (a = ['-'] ∨ d = ['-'])
  { path
    additions := if binary then 0 else (parseUnsigned (2 ^ 32 - 1) a).getD 0
    deletions := if binary then 0 else (parseUnsigned (2 ^ 32 - 1) d).getD 0
    binary }

def numstats : List (List Char) → List Stat
  | [] => []
  | token :: tokens =>
    let parts := splitn '\t' 3 token
    let path := parts[2]?.getD []
    if path = [] then
      match tokens with
      | _ :: new :: tokens => Stat.of parts new :: numstats tokens
      | _ => []
    else Stat.of parts path :: numstats tokens

/-- `--numstat -z`: the counts and the path, which for a rename or a copy are two more tokens. -/
def parseNumstatZ : List Stat := numstats (tokensZ raw)

structure CommitFile where
  status : List Char
  path : List Char
  oldPath : Option (List Char)
  additions : Nat
  deletions : Nat
  binary : Bool
deriving DecidableEq

def statOf (stats : List Stat) (path : List Char) : Option Stat := stats.reverse.find? (·.path = path)

def mergeFileChanges (nameStatusRaw numstatRaw : List Char) : List CommitFile :=
  let stats := parseNumstatZ numstatRaw
  (parseNameStatusZ nameStatusRaw).map fun entry =>
    let counts := (statOf stats entry.2.1).map fun stat => (stat.additions, stat.deletions, stat.binary)
    let counts := counts.getD (0, 0, false)
    { status := [entry.1], path := entry.2.1, oldPath := entry.2.2
      additions := counts.1, deletions := counts.2.1, binary := counts.2.2 }

/-! ## The answers written -/

/-- What git can name: some text without a NUL. -/
structure Name where
  text : List Char
  nonempty : text ≠ []
  plain : '\x00' ∉ text

/-- What happened to a file: a letter, or a rename or a copy with its score. -/
inductive Happened
  | letter (code : Char) (plain : code ≠ '\x00') (other : ¬ (code = 'R' ∨ code = 'C'))
  | renamed (score : Nat) (old : Name)
  | copied (score : Nat) (old : Name)

def scoreText (score : Nat) : List Char := List.replicate (3 - (decimal score).length) '0' ++ decimal score

def Happened.token : Happened → List Char
  | .letter code _ _ => [code]
  | .renamed score _ => 'R' :: scoreText score
  | .copied score _ => 'C' :: scoreText score

def Happened.code : Happened → Char
  | .letter code _ _ => code
  | .renamed .. => 'R'
  | .copied .. => 'C'

def Happened.old : Happened → Option Name
  | .letter .. => none
  | .renamed _ old | .copied _ old => some old

/-- A change of a file; a binary one has no counts. -/
structure FileChange where
  path : Name
  happened : Happened
  counts : Option (Fin (2 ^ 32) × Fin (2 ^ 32))

def FileChange.names (change : FileChange) : List (List Char) :=
  change.happened.old.elim [change.path.text] fun old => [old.text, change.path.text]

def FileChange.statusTokens (change : FileChange) : List (List Char) := change.happened.token :: change.names

def FileChange.countFields (change : FileChange) : List (List Char) :=
  change.counts.elim [['-'], ['-']] fun counts => [decimal counts.1, decimal counts.2]

def FileChange.numstatTokens (change : FileChange) : List (List Char) :=
  change.happened.old.elim [glued '\t' change.countFields change.path.text] fun old =>
    [glued '\t' change.countFields [], old.text, change.path.text]

def renderZ (tokens : List (List Char)) : List Char := tokens.flatMap (· ++ ['\x00'])

def renderNameStatus (changes : List FileChange) : List Char := renderZ (changes.flatMap FileChange.statusTokens)

def renderNumstat (changes : List FileChange) : List Char := renderZ (changes.flatMap FileChange.numstatTokens)

def FileChange.commitFile (change : FileChange) : CommitFile where
  status := [change.happened.code]
  path := change.path.text
  oldPath := change.happened.old.map Name.text
  additions := change.counts.elim 0 fun counts => counts.1
  deletions := change.counts.elim 0 fun counts => counts.2
  binary := change.counts.isNone

/-! ## The tokens -/

def Token (token : List Char) : Prop := token ≠ [] ∧ '\x00' ∉ token

/-- **The tokens of an answer** are those it was written from. -/
theorem tokensZ_renderZ {tokens : List (List Char)} (h : ∀ token ∈ tokens, Token token) :
    tokensZ (renderZ tokens) = tokens := by
  rw [tokensZ, renderZ, pieces_terminated fun token ht => (h token ht).2, filter_append,
    filter_eq_self.2 fun token ht => decide_eq_true (h token ht).1]
  exact append_nil tokens

theorem Name.token (name : Name) : Token name.text := ⟨name.nonempty, name.plain⟩

theorem token_cons {c : Char} {s : List Char} (hc : c ≠ '\x00') (hs : '\x00' ∉ s) : Token (c :: s) := by
  refine ⟨cons_ne_nil _ _, fun h => ?_⟩
  rcases mem_cons.1 h with h | h
  · exact hc h.symm
  · exact hs h

theorem nul_notMem_scoreText (score : Nat) : '\x00' ∉ scoreText score := by
  intro h
  rcases mem_append.1 h with h | h
  · exact absurd (eq_of_mem_replicate h) (by decide)
  · exact notMem_decimal (by decide) score h

theorem happened_token (happened : Happened) : Token happened.token := by
  cases happened with
  | letter code plain _ => exact token_cons plain not_mem_nil
  | renamed score | copied score => exact token_cons (by decide) (nul_notMem_scoreText score)

section
variable (change : FileChange)
include change

theorem names_token : ∀ token ∈ change.names, Token token := by
  intro token h
  unfold FileChange.names at h
  cases hold : change.happened.old with
  | none =>
    rw [hold] at h
    rw [mem_singleton.1 h]
    exact change.path.token
  | some old =>
    rw [hold] at h
    rcases mem_cons.1 h with rfl | h
    · exact old.token
    · rw [mem_singleton.1 h]
      exact change.path.token

theorem statusTokens_token : ∀ token ∈ change.statusTokens, Token token := by
  intro token h
  rcases mem_cons.1 h with rfl | h
  · exact happened_token change.happened
  · exact names_token change token h

theorem countFields_plain {c : Char} (hc : c.isDigit = false) (hminus : c ≠ '-') :
    ∀ field ∈ change.countFields, c ∉ field := by
  intro field h
  have hdash : c ∉ (['-'] : List Char) := fun h => hminus (mem_singleton.1 h)
  unfold FileChange.countFields at h
  cases hcounts : change.counts with
  | none =>
    rw [hcounts] at h
    rcases mem_cons.1 h with rfl | h
    · exact hdash
    · rw [mem_singleton.1 h]
      exact hdash
  | some counts =>
    rw [hcounts] at h
    rcases mem_cons.1 h with rfl | h
    · exact notMem_decimal hc _
    · rw [mem_singleton.1 h]
      exact notMem_decimal hc _

theorem glued_token {last : List Char} (hlast : '\x00' ∉ last) : Token (glued '\t' change.countFields last) := by
  refine ⟨fun h => ?_, fun h => ?_⟩
  · obtain ⟨field, fields, hfields⟩ : ∃ field fields, change.countFields = field :: fields := by
      unfold FileChange.countFields
      cases change.counts with
      | none | some => exact ⟨_, _, rfl⟩
    rw [hfields, glued_cons] at h
    exact absurd h (append_ne_nil_of_right_ne_nil _ (cons_ne_nil _ _))
  · rcases mem_append.1 h with h | h
    · obtain ⟨field, hfield, h⟩ := mem_flatMap.1 h
      rcases mem_append.1 h with h | h
      · exact countFields_plain change (by decide) (by decide) field hfield h
      · exact absurd (mem_singleton.1 h) (by decide)
    · exact hlast h

theorem numstatTokens_token : ∀ token ∈ change.numstatTokens, Token token := by
  intro token h
  unfold FileChange.numstatTokens at h
  cases hold : change.happened.old with
  | none =>
    rw [hold] at h
    rw [mem_singleton.1 h]
    exact glued_token change change.path.plain
  | some old =>
    rw [hold] at h
    rcases mem_cons.1 h with rfl | h
    · exact glued_token change not_mem_nil
    · rcases mem_cons.1 h with rfl | h
      · exact old.token
      · rw [mem_singleton.1 h]
        exact change.path.token

/-! ## What is read back -/

theorem nameStatuses_cons (tokens : List (List Char)) : nameStatuses (change.statusTokens ++ tokens) =
      (change.happened.code, change.path.text, change.happened.old.map Name.text) :: nameStatuses tokens := by
  obtain ⟨path, happened, counts⟩ := change
  cases happened with
  | letter code plain other =>
    rw [nameStatuses.eq_def]
    exact if_neg other
  | renamed score old =>
    rw [nameStatuses.eq_def]
    exact if_pos (.inl rfl)
  | copied score old =>
    rw [nameStatuses.eq_def]
    exact if_pos (.inr rfl)

end

theorem parseNameStatusZ_render (changes : List FileChange) : parseNameStatusZ (renderNameStatus changes) =
    changes.map fun change => (change.happened.code, change.path.text, change.happened.old.map Name.text) := by
  rw [parseNameStatusZ, renderNameStatus, tokensZ_renderZ]
  · induction changes with
    | nil => rfl
    | cons change changes ih => rw [flatMap_cons, nameStatuses_cons, ih, map_cons]
  · intro token h
    obtain ⟨change, -, h⟩ := mem_flatMap.1 h
    exact statusTokens_token change token h

def FileChange.stat (change : FileChange) : Stat where
  path := change.path.text
  additions := change.commitFile.additions
  deletions := change.commitFile.deletions
  binary := change.commitFile.binary

theorem decimal_ne_dash (n : Nat) : decimal n ≠ ['-'] := fun h =>
  notMem_decimal (c := '-') (by decide) n (h ▸ mem_singleton_self _)

theorem stat_of_glued (change : FileChange) (last : List Char) :
    (splitn '\t' 3 (glued '\t' change.countFields last))[2]?.getD [] = last ∧
      Stat.of (splitn '\t' 3 (glued '\t' change.countFields last)) change.path.text = change.stat := by
  have hparts : splitn '\t' 3 (glued '\t' change.countFields last) = change.countFields ++ [last] := by
    have hlength : change.countFields.length + 1 = 3 := by
      unfold FileChange.countFields
      cases change.counts with
      | none | some => rfl
    rw [← hlength]
    exact splitn_glued (countFields_plain change (by decide) (by decide)) last
  rw [hparts]
  obtain ⟨path, happened, counts⟩ := change
  cases counts with
  | none => exact ⟨rfl, rfl⟩
  | some counts =>
    refine ⟨rfl, ?_⟩
    have hbinary : decide (decimal counts.1 = ['-'] ∨ decimal counts.2 = ['-']) = false :=
      decide_eq_false (not_or.2 ⟨decimal_ne_dash _, decimal_ne_dash _⟩)
    change Stat.of [decimal counts.1, decimal counts.2, last] path.text = ⟨path.text, counts.1, counts.2, false⟩
    unfold Stat.of
    simp only [getElem?_cons_zero, getElem?_cons_succ, Option.getD_some, hbinary,
      parseUnsigned_decimal (Nat.le_sub_one_of_lt counts.1.isLt),
        parseUnsigned_decimal (Nat.le_sub_one_of_lt counts.2.isLt)]
    rfl

theorem numstats_cons (change : FileChange) (tokens : List (List Char)) :
    numstats (change.numstatTokens ++ tokens) = change.stat :: numstats tokens := by
  unfold FileChange.numstatTokens
  cases hold : change.happened.old with
  | none =>
    obtain ⟨hlast, hstat⟩ := stat_of_glued change change.path.text
    rw [Option.elim_none, singleton_append, numstats.eq_def]
    simp only [hlast, if_neg change.path.nonempty, hstat]
  | some old =>
    obtain ⟨hlast, hstat⟩ := stat_of_glued change []
    rw [Option.elim_some, cons_append, cons_append, singleton_append, numstats.eq_def]
    simp only [hlast, if_true, hstat]

theorem parseNumstatZ_render (changes : List FileChange) :
    parseNumstatZ (renderNumstat changes) = changes.map FileChange.stat := by
  rw [parseNumstatZ, renderNumstat, tokensZ_renderZ]
  · induction changes with
    | nil => rfl
    | cons change changes ih => rw [flatMap_cons, numstats_cons, ih, map_cons]
  · intro token h
    obtain ⟨change, -, h⟩ := mem_flatMap.1 h
    exact numstatTokens_token change token h

theorem statOf_map {changes : List FileChange} (hdistinct : (changes.map fun change => change.path.text).Nodup)
    {change : FileChange} (h : change ∈ changes) :
    statOf (changes.map FileChange.stat) change.path.text = some change.stat := by
  have hfound : ∀ other ∈ changes, other.path.text = change.path.text → other = change := fun other hother heq =>
    inj_on_of_nodup_map hdistinct hother h heq
  unfold statOf
  cases hfind : (changes.map FileChange.stat).reverse.find? (·.path = change.path.text) with
  | none =>
    have hno := find?_eq_none.1 hfind change.stat (mem_reverse.2 (mem_map_of_mem h))
    exact absurd (decide_eq_true rfl) hno
  | some stat =>
    obtain ⟨other, hother, rfl⟩ := mem_map.1 (mem_reverse.1 (mem_of_find?_eq_some hfind))
    have heq := find?_some hfind
    rw [hfound other hother (of_decide_eq_true heq)]

/-- **The changes of a commit are read back**: those of the first answer in its order, each with its own counts. -/
theorem mergeFileChanges_render {names stats : List FileChange} (hsame : names.Perm stats)
    (hdistinct : (names.map fun change => change.path.text).Nodup) :
    mergeFileChanges (renderNameStatus names) (renderNumstat stats) = names.map FileChange.commitFile := by
  have hdistinct' : (stats.map fun change => change.path.text).Nodup := (hsame.map _).nodup_iff.1 hdistinct
  unfold mergeFileChanges
  simp only [parseNameStatusZ_render, parseNumstatZ_render, map_map]
  refine map_congr_left fun change hchange => ?_
  simp only [Function.comp_apply, statOf_map hdistinct' (hsame.mem_iff.1 hchange), Option.map_some, Option.getD_some]
  rfl

def changedTab : FileChange :=
  ⟨⟨['1', '\t', '2'], by decide, by decide⟩, .letter 'M' (by decide) (by decide), some (2, 1)⟩

def renamedDash : FileChange := ⟨⟨['-', 'b'], by decide, by decide⟩, .renamed 100 ⟨['R', '1'], by decide, by decide⟩,
    none⟩

theorem merged_two : mergeFileChanges (renderNameStatus [changedTab, renamedDash]) (renderNumstat [renamedDash,
    changedTab]) =
    [⟨['M'], ['1', '\t', '2'], none, 2, 1, false⟩, ⟨['R'], ['-', 'b'], some ['R', '1'], 0, 0, true⟩] :=
  mergeFileChanges_render (List.Perm.swap _ _ []) (by decide)

end Git
end Yuzora
