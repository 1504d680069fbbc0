import Mathlib.Algebra.GroupWithZero.Nat
import Mathlib.Data.List.Forall2
import Yuzora.GitText
import Yuzora.LogicalNewlines
import Yuzora.Utf8
/-!
# SearchRuns — a text search over the walked files

`run_search` walks the entries below a root, searches every file that is small enough, and tells the matches file by file
and at last whether it has seen everything.  The walk, the clock and the generation are given with each entry; the matcher
and the line searcher are other crates'.
-/
namespace Yuzora
namespace Search

open List Option

def FILE_CAP : Nat := 200
def TOTAL_MATCH_CAP : Nat := 2000
def PER_FILE_MATCH_CAP : Nat := 500
def PREVIEW_LEN : Nat := 200
def SCAN_CAP : Nat := 512 * 1024 * 1024
def MAX_FILE_BYTES : Nat := 8 * 1024 * 1024

/-! ## Lines -/

/-- The lines of a text, each with its line feed, as the searcher hands them on. -/
def linesOf : List Byte → List (List Byte)
  | [] => []
  | b :: bytes =>
    if b = lf then [b] :: linesOf bytes
    else
      match linesOf bytes with
      | [] => [[b]]
      | line :: lines => (b :: line) :: lines

variable (line : List Byte)

/-- The searcher's `without_terminator`. -/
def withoutTerminator : List Byte := if line.getLast? = some lf then line.dropLast else line

/-- **The editor's lines** of a text: they end at a LF, a CRLF or a CR. -/
def logicalLines : List Byte → List (List Byte)
  | [] => []
  | [b] => if b = lf ∨ b = cr then [[]] else [[b]]
  | b :: c :: bytes =>
    if b = cr ∧ c = lf then [] :: logicalLines bytes
    else if b = lf ∨ b = cr then [] :: logicalLines (c :: bytes)
    else
      match logicalLines (c :: bytes) with
      | [] => [[b]]
      | line :: lines => (b :: line) :: lines

example : logicalLines [97, cr, lf, cr, 98] = [[97], [], [98]] := by decide

/-! ## The other crates -/

/-- The matcher of a literal query: the leftmost match of a text.  A line feed behind the text takes no match away. -/
structure Matcher where
  find : List Byte → Option (Nat × Nat)
  findIter : List Byte → List (Nat × Nat)
  within : ∀ text hit, find text = some hit → hit.1 ≤ text.length
  terminated : ∀ text hit, find text = some hit → find (text ++ [lf]) = some hit

/-- The UTF-16 decoder, and how many lines of a text the searcher goes through, whether or not the reading fails behind
it: all of them when it does not and there is no NUL. -/
structure Tools where
  decode16 : List Byte → List Byte
  seen : List Byte → Bool → Nat
  whole : ∀ text, 0 ∉ text → (linesOf text).length ≤ seen text false

/-! ## The matches of a file -/

structure SearchMatch where
  line : Nat
  col : Nat
  preview : List Char
  ranges : List (Nat × Nat)
deriving DecidableEq

inductive SearchEvent
  | «match» (path : String) (found : List SearchMatch)
  | done (truncated : Bool) (fileCount : Nat)
deriving DecidableEq

def makePreview (line : List Char) : List Char := (Git.trimEnd (Git.trimStart line)).take PREVIEW_LEN

/-- `preview.get(..end)`, counted in UTF-16 units. -/
def utf16 (preview : List Byte) («end» : Nat) : Option Nat :=
  (Utf8.decode? (preview.take «end»)).map fun head => (head.map fun c => if c.toNat < 0x10000 then 1 else 2).sum

variable (matcher : Matcher)

def previewRanges (preview : List Char) : List (Nat × Nat) :=
  let bytes := Utf8.toUtf8 preview
  (matcher.findIter bytes).filterMap fun found =>
    if found.1 = found.2 then none
    else (utf16 bytes found.1).bind fun start => (utf16 bytes found.2).map fun «end» => (start, «end»)

/-- The match of a line whose first hit starts there.  A file of at most `MAX_FILE_BYTES` has fewer than 2³² lines and
columns, so that `as u32` cuts nothing off. -/
def searchMatch (number : Nat) (line : List Byte) (start : Nat) : SearchMatch :=
  let preview := makePreview (Utf8.lossy line)
  { line := number, col := (Utf8.lossy (line.take start)).length, preview, ranges := previewRanges matcher preview }

structure MatchCollector where
  found : List SearchMatch
  budget : Nat
  probeOverflow : Bool
  truncated : Bool

/-- `matched`, and whether the searcher goes on.  A literal matcher has no error to tell. -/
def MatchCollector.matched (c : MatchCollector) (number : Nat) (line : List Byte) :
    MatchCollector × Bool :=
  match matcher.find line with
  | none => (c, true)
  | some hit =>
    if c.budget ≤ c.found.length then ({ c with truncated := true }, false)
    else
      let found := c.found ++ [searchMatch matcher number line hit.1]
      ({ c with found }, c.probeOverflow || decide (found.length < c.budget))

/-- The searcher hands on the lines that it finds a match in, until the sink is content. -/
def MatchCollector.search (matcher : Matcher) : MatchCollector → Nat → List (List Byte) → MatchCollector
  | c, _, [] => c
  | c, number, line :: lines =>
    if (matcher.find (withoutTerminator line)).isSome then
      let r := c.matched matcher number line
      if r.2 then r.1.search matcher (number + 1) lines else r.1
    else c.search matcher (number + 1) lines

/-! ## The walk -/

/-- A file that was opened: the length it is said to have, the bytes that it gives, and whether reading fails then. -/
structure File where
  metadata : Option Nat
  content : List Byte
  fails : Bool

inductive Entry
  | error
  | other
  | file (path : String) (opened : Option File)

/-- A walked entry, with what is found at the generation before and after it and at the clock. -/
structure Met where
  superseded : Bool
  late : Bool
  entry : Entry
  supersededAfter : Bool

def File.size (file : File) : Nat := file.metadata.getD (2 ^ 64 - 1)

/-- `file.take(MAX_FILE_BYTES)` -/
def File.read (file : File) : List Byte := file.content.take MAX_FILE_BYTES

/-- Reading fails before the limit is reached. -/
def File.broken (file : File) : Bool := file.fails && decide (file.content.length < MAX_FILE_BYTES)

variable (tools : Tools)

/-- The text behind a byte order mark. -/
def decoded (bytes : List Byte) : List Byte :=
  let marked := bytes.take 2 = [0xff, 0xfe] ∨ bytes.take 2 = [0xfe, 0xff]
  if 3 ≤ bytes.length ∧ marked then tools.decode16 bytes
  else if bytes.take 3 = [0xef, 0xbb, 0xbf] then bytes.drop 3
  else if bytes.length = 2 ∧ marked then bytes.drop 2
  else bytes

/-- What `logical_line_reader` gives of a file. -/
def File.text (file : File) : List Byte := normalize (decoded tools file.read)

/-- The lines that are searched: none when the byte order mark cannot be read. -/
def File.searched (file : File) : List (List Byte) :=
  if file.broken ∧ file.read.length < 3 then []
  else (linesOf (file.text tools)).take (tools.seen (file.text tools) file.broken)

structure Progress where
  fileCount : Nat := 0
  totalMatches : Nat := 0
  scanned : Nat := 0
  incomplete : Bool := false

/-- The search of one file, within what is left of the budgets. -/
def collect (matcher : Matcher) (s : Progress) (file : File) : MatchCollector :=
  let remaining := TOTAL_MATCH_CAP - s.totalMatches
  MatchCollector.search matcher
    { found := [], budget := min remaining PER_FILE_MATCH_CAP,
      probeOverflow := decide (PER_FILE_MATCH_CAP < remaining ∧ s.fileCount + 1 < FILE_CAP), truncated := false }
    1 (file.searched tools)

/-- One round of the walk: what it tells, and the counts unless it is the last. -/
def round (matcher : Matcher) (s : Progress) (met : Met) : List SearchEvent × Option Progress :=
  if met.superseded then ([], none)
  else if met.late ∨ SCAN_CAP ≤ s.scanned then ([.done true s.fileCount], none)
  else
    match met.entry with
    | .error | .other => ([], some s)
    | .file _ none => ([], some { s with incomplete := true })
    | .file path (some file) =>
      if MAX_FILE_BYTES < file.size then ([], some { s with incomplete := true })
      else
        let c := collect tools matcher s file
        if met.supersededAfter then ([], none)
        else
          let s := { s with scanned := s.scanned + file.size, incomplete := s.incomplete || c.truncated }
          if c.found = [] then ([], some s)
          else
            let s := { s with totalMatches := s.totalMatches + c.found.length, fileCount := s.fileCount + 1 }
            if TOTAL_MATCH_CAP ≤ s.totalMatches ∨ FILE_CAP ≤ s.fileCount then
              ([.match path c.found, .done true s.fileCount], none)
            else ([.match path c.found], some s)

def walk (tools : Tools) (matcher : Matcher) : Progress → List Met → List SearchEvent
  | s, [] => [.done s.incomplete s.fileCount]
  | s, met :: rest =>
    let r := round tools matcher s met
    r.1 ++ r.2.elim [] fun s => walk tools matcher s rest

/-- `run_search`: `build` is the matcher of a query, if it has one, and `pinned` that the root can be opened. -/
def runSearch (build : List Char → Bool → Option Matcher) (pinned : Bool) (query : List Char)
    (caseSensitive : Bool) (entries : List Met) : List SearchEvent :=
  if query = [] then [.done false 0]
  else (build query caseSensitive).elim [.done false 0] fun matcher =>
    if pinned then walk tools matcher {} entries else [.done true 0]

/-! ## Lines, with and without their line feed -/

theorem withoutTerminator_append : withoutTerminator (line ++ [lf]) = line := by
  rw [withoutTerminator, if_pos (by simp), dropLast_concat]

theorem withoutTerminator_cons {b : Byte} (hb : b ≠ lf) (line : List Byte) :
    withoutTerminator (b :: line) = b :: withoutTerminator line := by
  cases line with
  | nil =>
    have hlast : [b].getLast? ≠ some lf := fun h => hb (Option.some.inj h)
    rw [withoutTerminator, if_neg hlast]
    rfl
  | cons c line =>
    rw [withoutTerminator, withoutTerminator, getLast?_cons_cons, dropLast_cons_cons]
    by_cases h : (c :: line).getLast? = some lf
    · rw [if_pos h, if_pos h]
    · rw [if_neg h, if_neg h]

theorem withoutTerminator_or :
    line = withoutTerminator line ∨ line = withoutTerminator line ++ [lf] := by
  rw [withoutTerminator]
  by_cases h : line.getLast? = some lf
  · rw [if_pos h]
    exact .inr (dropLast_append_getLast? lf h).symm
  · exact .inl (if_neg h).symm

theorem linesOf_lf (bytes : List Byte) : linesOf (lf :: bytes) = [lf] :: linesOf bytes := by
  rw [linesOf, if_pos rfl]

/-- The first line is one byte longer, where that byte ends no line. -/
def longer (b : Byte) : List (List Byte) → List (List Byte)
  | [] => [[b]]
  | line :: lines => (b :: line) :: lines

theorem linesOf_cons {b : Byte} (hb : b ≠ lf) (bytes : List Byte) :
    (linesOf (b :: bytes)).map withoutTerminator = longer b ((linesOf bytes).map withoutTerminator) := by
  rw [linesOf, if_neg hb]
  cases linesOf bytes with
  | nil => exact congrArg (· :: []) (withoutTerminator_cons hb [])
  | cons line lines => exact congrArg (· :: _) (withoutTerminator_cons hb line)

/-- **The lines of a rewritten text** are the editor's lines of the text. -/
theorem linesOf_normalize (bytes : List Byte) :
    (linesOf (normalize bytes)).map withoutTerminator = logicalLines bytes := by
  have hlf : withoutTerminator [lf] = [] := withoutTerminator_append []
  have hcr : cr ≠ lf := by decide
  fun_induction normalize bytes with
  | case1 => rfl
  | case2 b =>
    rw [logicalLines]
    by_cases hb : b = lf ∨ b = cr
    · have hbyte : (if b = cr then lf else b) = lf := by
        by_cases h : b = cr
        · exact if_pos h
        · rw [if_neg h]
          exact hb.resolve_right h
      rw [hbyte, if_pos hb, linesOf_lf, map_cons, hlf]
      rfl
    · rw [if_neg fun h => hb (.inr h), if_neg hb, linesOf_cons fun h => hb (.inl h)]
      rfl
  | case3 bytes ih =>
    rw [logicalLines, if_pos ⟨rfl, rfl⟩, linesOf_lf, map_cons, hlf, ih]
  | case4 c bytes hc ih =>
    rw [logicalLines, if_neg fun h => hc h.2, if_pos (.inr rfl), linesOf_lf, map_cons, hlf, ih]
  | case5 b c bytes hb ih =>
    by_cases hl : b = lf
    · rw [hl, logicalLines, if_neg fun h => hcr h.1.symm, if_pos (.inl rfl), linesOf_lf, map_cons, hlf, ih]
    · rw [logicalLines, if_neg fun h => hb h.1, if_neg fun h => h.elim hl hb, linesOf_cons hl, ih]
      cases logicalLines (c :: bytes) <;> rfl

/-! ## The matches of some lines -/

variable {hit : Nat × Nat}

variable {line : List Byte}

theorem Matcher.find_line (matcher : Matcher)
    (h : matcher.find (withoutTerminator line) = some hit) : matcher.find line = some hit := by
  rcases withoutTerminator_or line with hline | hline
  · rw [hline]
    exact h
  · rw [hline]
    exact matcher.terminated _ _ h

/-- The matches of some lines, from a line number on. -/
def matchesFrom (matcher : Matcher) : Nat → List (List Byte) → List SearchMatch
  | _, [] => []
  | number, line :: lines =>
    (matcher.find (withoutTerminator line)).elim (matchesFrom matcher (number + 1) lines) fun hit =>
      searchMatch matcher number line hit.1 :: matchesFrom matcher (number + 1) lines

/-- **What a collector finds**: as many of the matches as there is room for, and whether there are more if it looks. -/
theorem search_spec (lines : List (List Byte)) :
    ∀ (c : MatchCollector) (number : Nat), c.found.length ≤ c.budget →
      (c.probeOverflow = false → c.found.length < c.budget) →
      (c.search matcher number lines).found =
          c.found ++ (matchesFrom matcher number lines).take (c.budget - c.found.length) ∧
        (c.search matcher number lines).truncated = (c.truncated ||
          (c.probeOverflow && decide (c.budget - c.found.length < (matchesFrom matcher number lines).length))) := by
  induction lines with
  | nil =>
    intro c number _ _
    simp [MatchCollector.search, matchesFrom]
  | cons line lines ih =>
    intro c number hle hroom
    rw [MatchCollector.search, matchesFrom]
    cases hfind : matcher.find (withoutTerminator line) with
    | none => exact ih c (number + 1) hle hroom
    | some hit =>
      rw [if_pos (show (some hit).isSome = true from rfl), elim_some]
      by_cases hfull : c.budget ≤ c.found.length
      · -- The look-ahead found one more.
        have hprobe : c.probeOverflow = true := by
          cases hp : c.probeOverflow with
          | false => exact absurd (hroom hp) (Nat.not_lt.2 hfull)
          | true => rfl
        have hmatched : c.matched matcher number line = ({ c with truncated := true }, false) := by
          rw [MatchCollector.matched, matcher.find_line hfind]
          exact if_pos hfull
        simp [hmatched, hprobe, Nat.sub_eq_zero_of_le hfull]
      · have hlen : (c.found ++ [searchMatch matcher number line hit.1]).length = c.found.length + 1 := length_append
        have hleft : c.budget - c.found.length = c.budget - (c.found.length + 1) + 1 := by omega
        have hmatched : c.matched matcher number line =
            ({ c with found := c.found ++ [searchMatch matcher number line hit.1] },
              c.probeOverflow || decide ((c.found ++ [searchMatch matcher number line hit.1]).length < c.budget)) := by
          rw [MatchCollector.matched, matcher.find_line hfind]
          exact if_neg hfull
        rw [hmatched, hlen, hleft, take_succ_cons, length_cons]
        by_cases hon : c.probeOverflow = true ∨ c.found.length + 1 < c.budget
        · have hnext := ih { c with found := c.found ++ [searchMatch matcher number line hit.1] } (number + 1)
            (by rw [hlen]; exact Nat.lt_of_not_le hfull) fun hp => by
              rw [hlen]
              exact hon.resolve_left fun h => Bool.false_ne_true (hp.symm.trans h)
          rw [hlen] at hnext
          rw [if_pos (by simpa using hon)]
          refine ⟨hnext.1.trans (by rw [append_assoc]; rfl), hnext.2.trans ?_⟩
          simp only [Nat.succ_lt_succ_iff]
        · have hp : c.probeOverflow = false := Bool.eq_false_iff.2 fun h => hon (.inl h)
          have hzero : c.budget - (c.found.length + 1) = 0 := by
            omega
          rw [if_neg (by simpa using hon), hzero, hp]
          simp

theorem matchesFrom_take (number k : Nat) (lines : List (List Byte)) :
    matchesFrom matcher number (lines.take k) <+: matchesFrom matcher number lines := by
  induction lines generalizing number k with
  | nil => rw [take_nil]
  | cons line lines ih =>
    cases k with
    | zero => exact nil_prefix
    | succ k =>
      rw [take_succ_cons, matchesFrom, matchesFrom]
      cases matcher.find (withoutTerminator line) with
      | none => exact ih (number + 1) k
      | some hit => exact (prefix_cons_inj _).2 (ih (number + 1) k)

/-- The lines that match, with their numbers. -/
def matching (number : Nat) (lines : List (List Byte)) : List (List Byte × Nat) :=
  (lines.zipIdx number).filter fun line => (matcher.find line.1).isSome

/-- **A match shows its line**: the number, and the column of the first hit in it. -/
def Shows (line : List Byte × Nat) (found : SearchMatch) : Prop :=
  found.line = line.2 ∧ ∃ hit, matcher.find line.1 = some hit ∧ found.col = (Utf8.lossy (line.1.take hit.1)).length

theorem searchMatch_shows (matcher : Matcher) (number : Nat) (h : matcher.find (withoutTerminator line) = some hit) :
    Shows matcher (withoutTerminator line, number) (searchMatch matcher number line hit.1) := by
  have htake : line.take hit.1 = (withoutTerminator line).take hit.1 := by
    rcases withoutTerminator_or line with hline | hline
    · rw [← hline]
    · calc line.take hit.1 = (withoutTerminator line ++ [lf]).take hit.1 := by rw [← hline]
        _ = (withoutTerminator line).take hit.1 := take_append_of_le_length (matcher.within _ _ h)
  exact ⟨rfl, hit, h, congrArg (fun s => (Utf8.lossy s).length) htake⟩

theorem matchesFrom_shows (number : Nat) (lines : List (List Byte)) :
    List.Forall₂ (Shows matcher) (matching matcher number (lines.map withoutTerminator))
      (matchesFrom matcher number lines) := by
  induction lines generalizing number with
  | nil => exact .nil
  | cons line lines ih =>
    rw [map_cons, matching, zipIdx_cons, matchesFrom]
    cases hfind : matcher.find (withoutTerminator line) with
    | none =>
      rw [filter_cons_of_neg (by simp [hfind])]
      exact ih (number + 1)
    | some hit =>
      rw [filter_cons_of_pos (by simp [hfind])]
      exact .cons (searchMatch_shows matcher number hfind) (ih (number + 1))

/-! ## One file -/

/-- The editor's lines of what is read of a file. -/
def File.lines (file : File) : List (List Byte) := logicalLines (decoded tools file.read)

/-- Every match of what is read of a file. -/
def File.found (matcher : Matcher) (file : File) : List SearchMatch :=
  matchesFrom matcher 1 (linesOf (file.text tools))

theorem found_shows (matcher : Matcher) (file : File) :
    List.Forall₂ (Shows matcher) (matching matcher 1 (file.lines tools)) (file.found tools matcher) := by
  rw [File.lines, ← linesOf_normalize]
  exact matchesFrom_shows matcher 1 _

theorem searched_found (matcher : Matcher) (file : File) :
    matchesFrom matcher 1 (file.searched tools) <+: file.found tools matcher := by
  rw [File.searched]
  split
  · exact nil_prefix
  · exact matchesFrom_take matcher 1 _ _

variable {file : File}

theorem searched_whole (tools : Tools) (hread : file.broken = false) (htext : 0 ∉ file.text tools) :
    file.searched tools = linesOf (file.text tools) := by
  have hgood : ¬ (file.broken = true ∧ file.read.length < 3) := fun h => Bool.false_ne_true (hread.symm.trans h.1)
  rw [File.searched, if_neg hgood, hread, take_of_length_le (tools.whole _ htext)]

/-- There is room for a match in the file and behind it. -/
def Progress.Within (s : Progress) : Prop := s.fileCount < FILE_CAP ∧ s.totalMatches < TOTAL_MATCH_CAP

variable {tools : Tools} {matcher : Matcher} {s : Progress}

/-- **The search of one file**: its first matches, within the budgets, and all of them when nothing is cut and the search
goes on. -/
theorem collect_spec (hs : s.Within) (file : File) : (collect tools matcher s file).found <+: file.found tools matcher ∧
      (collect tools matcher s file).found.length ≤ PER_FILE_MATCH_CAP ∧
      s.totalMatches + (collect tools matcher s file).found.length ≤ TOTAL_MATCH_CAP ∧
      ((collect tools matcher s file).truncated = false →
        (collect tools matcher s file).found = [] ∨
          s.totalMatches + (collect tools matcher s file).found.length < TOTAL_MATCH_CAP ∧ s.fileCount + 1 < FILE_CAP →
        (collect tools matcher s file).found = matchesFrom matcher 1 (file.searched tools)) := by
  have htotal := hs.2
  have hcaps : FILE_CAP = 200 ∧ TOTAL_MATCH_CAP = 2000 ∧ PER_FILE_MATCH_CAP = 500 := ⟨rfl, rfl, rfl⟩
  obtain ⟨hfound, htruncated⟩ := search_spec matcher (file.searched tools)
    { found := [], budget := min (TOTAL_MATCH_CAP - s.totalMatches) PER_FILE_MATCH_CAP,
      probeOverflow := decide (PER_FILE_MATCH_CAP < TOTAL_MATCH_CAP - s.totalMatches ∧ s.fileCount + 1 < FILE_CAP),
      truncated := false } 1 (Nat.zero_le _) fun _ => by show 0 < min _ _; omega
  change (collect tools matcher s file).found = _ at hfound
  change (collect tools matcher s file).truncated = _ at htruncated
  dsimp only at hfound htruncated
  rw [nil_append, length_nil, Nat.sub_zero] at hfound
  rw [length_nil, Nat.sub_zero, Bool.false_or] at htruncated
  have hlength : (collect tools matcher s file).found.length =
      min (min (TOTAL_MATCH_CAP - s.totalMatches) PER_FILE_MATCH_CAP) (matchesFrom matcher 1 (file.searched tools)).length :=
    hfound ▸ length_take
  refine ⟨?_, by omega, by omega, fun hcut hroom => ?_⟩
  · rw [hfound]
    exact (List.take_prefix _ _).trans (searched_found tools matcher file)
  · have hle : (matchesFrom matcher 1 (file.searched tools)).length ≤
        min (TOTAL_MATCH_CAP - s.totalMatches) PER_FILE_MATCH_CAP := by
      rw [htruncated, Bool.and_eq_false_iff, decide_eq_false_iff_not, decide_eq_false_iff_not] at hcut
      rcases hroom with hnone | hroom
      · rw [hnone, length_nil] at hlength
        omega
      · omega
    rw [hfound, take_of_length_le hle]

/-! ## Rounds -/

/-- An entry that hides nothing: a file is opened and small enough, and a text that is read to its end is told with all
its matches. -/
def Covered (tools : Tools) (matcher : Matcher) (told : List (String × List SearchMatch)) (met : Met) : Prop :=
  ∀ path opened, met.entry = .file path opened → ∃ file, opened = some file ∧
    (file.broken = false → 0 ∉ file.text tools →
      file.found tools matcher = [] ∨ (path, file.found tools matcher) ∈ told)

theorem Covered.mono {told told' : List (String × List SearchMatch)} {met : Met} (h : Covered tools matcher told met)
    (hsub : told ⊆ told') : Covered tools matcher told' met := by
  intro path opened hentry
  obtain ⟨file, hopened, hfile⟩ := h path opened hentry
  exact ⟨file, hopened, fun hread htext => (hfile hread htext).imp_right fun hmem => hsub hmem⟩

/-- The first matches of a file that was met. -/
structure First (tools : Tools) (matcher : Matcher) (met : Met) (told : String × List SearchMatch) : Prop where
  short : told.2.length ≤ PER_FILE_MATCH_CAP
  first : ∃ file, met.entry = .file told.1 (some file) ∧ told.2 <+: file.found tools matcher

/-- **What a round of the walk can do.** -/
inductive Round (tools : Tools) (matcher : Matcher) (s : Progress) (met : Met) :
    List SearchEvent × Option Progress → Prop
  | superseded (h : met.superseded = true ∨ met.supersededAfter = true) : Round tools matcher s met ([], none)
  | late : Round tools matcher s met ([.done true s.fileCount], none)
  | passed (s' : Progress) (hfiles : s'.fileCount = s.fileCount) (htotal : s'.totalMatches = s.totalMatches)
      (hcovered : s'.incomplete = false → s.incomplete = false ∧ Covered tools matcher [] met) :
      Round tools matcher s met ([], some s')
  | found (s' : Progress) (told : String × List SearchMatch) (hfirst : First tools matcher met told) (hs' : s'.Within)
      (hfiles : s'.fileCount = s.fileCount + 1) (htotal : s'.totalMatches = s.totalMatches + told.2.length)
      (hcovered : s'.incomplete = false → s.incomplete = false ∧ Covered tools matcher [told] met) :
      Round tools matcher s met ([.match told.1 told.2], some s')
  | last (told : String × List SearchMatch) (hfirst : First tools matcher met told)
      (htotal : s.totalMatches + told.2.length ≤ TOTAL_MATCH_CAP) :
      Round tools matcher s met ([.match told.1 told.2, .done true (s.fileCount + 1)], none)

theorem round_spec (hs : s.Within) (met : Met) : Round tools matcher s met (round tools matcher s met) := by
  rw [round]
  by_cases hsuper : met.superseded = true
  · rw [if_pos hsuper]
    exact .superseded (.inl hsuper)
  rw [if_neg hsuper]
  by_cases hlate : met.late = true ∨ SCAN_CAP ≤ s.scanned
  · rw [if_pos hlate]
    exact .late
  rw [if_neg hlate]
  have hother (h : ∀ path opened, met.entry ≠ .file path opened) : Covered tools matcher [] met :=
    fun path opened hentry => absurd hentry (h path opened)
  cases hentry : met.entry with
  | error | other => exact .passed s rfl rfl fun h => ⟨h, hother fun _ _ heq => by cases hentry.symm.trans heq⟩
  | file path opened =>
    cases opened with
    | none => exact .passed _ rfl rfl fun h => (Bool.false_ne_true h.symm).elim
    | some file =>
      show Round tools matcher s met (if _ then _ else _)
      by_cases hsize : MAX_FILE_BYTES < file.size
      · rw [if_pos hsize]
        exact .passed _ rfl rfl fun h => (Bool.false_ne_true h.symm).elim
      rw [if_neg hsize]
      obtain ⟨hpre, hshort, htotal, hall⟩ := collect_spec hs file
      by_cases hafter : met.supersededAfter = true
      · rw [if_pos hafter]
        exact .superseded (.inr hafter)
      rw [if_neg hafter]
      generalize collect tools matcher s file = c at hpre hshort htotal hall ⊢
      -- Nothing is cut and the search goes on: the file is told with all its matches.
      have hcovered {told : List (String × List SearchMatch)} (hcut : (s.incomplete || c.truncated) = false)
          (hroom : c.found = [] ∨ s.totalMatches + c.found.length < TOTAL_MATCH_CAP ∧ s.fileCount + 1 < FILE_CAP)
          (htold : c.found = [] ∨ (path, c.found) ∈ told) : s.incomplete = false ∧ Covered tools matcher told met := by
        obtain ⟨hincomplete, hcut⟩ := Bool.or_eq_false_iff.1 hcut
        refine ⟨hincomplete, fun path' opened hopened => ?_⟩
        cases hentry.symm.trans hopened
        refine ⟨file, rfl, fun hread htext => ?_⟩
        rw [File.found, ← searched_whole tools hread htext, ← hall hcut hroom]
        exact htold
      have hfirst : First tools matcher met (path, c.found) := ⟨hshort, file, hentry, hpre⟩
      by_cases hnone : c.found = []
      · rw [if_pos hnone]
        exact .passed _ rfl rfl fun h => hcovered h (.inl hnone) (.inl hnone)
      rw [if_neg hnone]
      by_cases hlast : TOTAL_MATCH_CAP ≤ s.totalMatches + c.found.length ∨ FILE_CAP ≤ s.fileCount + 1
      · rw [if_pos hlast]
        exact .last _ hfirst htotal
      · rw [if_neg hlast]
        have hroom : s.totalMatches + c.found.length < TOTAL_MATCH_CAP ∧ s.fileCount + 1 < FILE_CAP :=
          ⟨Nat.lt_of_not_le fun h => hlast (.inl h), Nat.lt_of_not_le fun h => hlast (.inr h)⟩
        exact .found _ _ hfirst ⟨hroom.2, hroom.1⟩ rfl rfl fun h => hcovered h (.inr hroom) (.inr mem_cons_self)

/-! ## The walk -/

/-- **What a walk accounts for**, from some counts on: the files that are told, and what it makes of the rest. -/
structure Accounts (tools : Tools) (matcher : Matcher) (s : Progress) (entries : List Met)
    (told : List (String × List SearchMatch)) (truncated : Option Bool) : Prop where
  files : s.fileCount + told.length ≤ FILE_CAP
  total : s.totalMatches + (told.map fun t => t.2.length).sum ≤ TOTAL_MATCH_CAP
  first : ∀ t ∈ told, ∃ met ∈ entries, First tools matcher met t
  silent : truncated = none → ∃ met ∈ entries, met.superseded = true ∨ met.supersededAfter = true
  covered : truncated = some false → s.incomplete = false ∧ ∀ met ∈ entries, Covered tools matcher told met

/-- The events of an account. -/
def events (told : List (String × List SearchMatch)) (truncated : Option Bool) (fileCount : Nat) : List SearchEvent :=
  (told.map fun t => SearchEvent.match t.1 t.2) ++
    truncated.toList.map fun truncated => SearchEvent.done truncated fileCount

theorem walk_accounts (hs : s.Within) (entries : List Met) : ∃ told truncated,
    walk tools matcher s entries = events told truncated (s.fileCount + told.length) ∧
      Accounts tools matcher s entries told truncated := by
  induction entries generalizing s with
  | nil =>
    refine ⟨[], some s.incomplete, rfl, Nat.le_of_lt hs.1, Nat.le_of_lt hs.2, fun _ h => absurd h not_mem_nil,
      fun h => absurd h (some_ne_none _), fun h => ⟨Option.some.inj h, fun _ h => absurd h not_mem_nil⟩⟩
  | cons met rest ih =>
    rw [walk]
    have hround := @round_spec tools matcher s hs met
    generalize round tools matcher s met = r at hround
    cases hround with
    | superseded h =>
      exact ⟨[], none, rfl, Nat.le_of_lt hs.1, Nat.le_of_lt hs.2, fun _ h => absurd h not_mem_nil,
        fun _ => ⟨met, mem_cons_self, h⟩, fun h => absurd h.symm (some_ne_none _)⟩
    | late =>
      exact ⟨[], some true, rfl, Nat.le_of_lt hs.1, Nat.le_of_lt hs.2, fun _ h => absurd h not_mem_nil,
        fun h => absurd h (some_ne_none _), fun h => absurd (Option.some.inj h).symm Bool.false_ne_true⟩
    | passed s' hfiles htotal hcovered =>
      have hs' : s'.Within := ⟨hfiles ▸ hs.1, htotal ▸ hs.2⟩
      obtain ⟨told, truncated, hwalk, h⟩ := ih hs'
      refine ⟨told, truncated, hfiles ▸ hwalk, hfiles ▸ h.files, htotal ▸ h.total, ?_, ?_, ?_⟩
      · intro t ht
        obtain ⟨met', hmem, hfirst⟩ := h.first t ht
        exact ⟨met', mem_cons_of_mem _ hmem, hfirst⟩
      · intro hnone
        obtain ⟨met', hmem, hsuper⟩ := h.silent hnone
        exact ⟨met', mem_cons_of_mem _ hmem, hsuper⟩
      · intro hwhole
        obtain ⟨hincomplete, hrest⟩ := h.covered hwhole
        obtain ⟨hincomplete, hmet⟩ := hcovered hincomplete
        exact ⟨hincomplete, forall_mem_cons.2 ⟨hmet.mono (nil_subset _), hrest⟩⟩
    | found s' t hfirst hs' hfiles htotal hcovered =>
      obtain ⟨told, truncated, hwalk, h⟩ := ih hs'
      have hcount : s'.fileCount + told.length = s.fileCount + (t :: told).length := by
        rw [hfiles, length_cons]
        omega
      refine ⟨t :: told, truncated, ?_, hcount ▸ h.files, ?_, ?_, ?_, ?_⟩
      · show .match t.1 t.2 :: walk tools matcher s' rest = _
        rw [hwalk, hcount]
        rfl
      · have := h.total
        rw [map_cons, sum_cons]
        omega
      · intro t' ht'
        rcases mem_cons.1 ht' with rfl | ht'
        · exact ⟨met, mem_cons_self, hfirst⟩
        · obtain ⟨met', hmem, hfirst⟩ := h.first t' ht'
          exact ⟨met', mem_cons_of_mem _ hmem, hfirst⟩
      · intro hnone
        obtain ⟨met', hmem, hsuper⟩ := h.silent hnone
        exact ⟨met', mem_cons_of_mem _ hmem, hsuper⟩
      · intro hwhole
        obtain ⟨hincomplete, hrest⟩ := h.covered hwhole
        obtain ⟨hincomplete, hmet⟩ := hcovered hincomplete
        refine ⟨hincomplete, forall_mem_cons.2 ⟨hmet.mono ?_, fun met' hmem => (hrest met' hmem).mono ?_⟩⟩
        · exact cons_subset_cons t (nil_subset _)
        · exact subset_cons_self t told
    | last t hfirst htotal =>
      refine ⟨[t], some true, rfl, hs.1, ?_, ?_, fun h => absurd h (some_ne_none _),
        fun h => absurd (Option.some.inj h).symm Bool.false_ne_true⟩
      · rw [map_singleton, sum_singleton]
        exact htotal
      · intro t' ht'
        obtain rfl := mem_singleton.1 ht'
        exact ⟨met, mem_cons_self, hfirst⟩

/-! ## What a search tells -/

/-- The files that events tell, with their matches. -/
def told (events : List SearchEvent) : List (String × List SearchMatch) :=
  events.filterMap fun
    | .match path found => some (path, found)
    | .done .. => none

theorem told_events (t : List (String × List SearchMatch)) (truncated : Option Bool) (n : Nat) :
    told (events t truncated n) = t := by
  rw [told, events, filterMap_append, filterMap_map]
  have hdone : (truncated.toList.map fun truncated => SearchEvent.done truncated n).filterMap (fun
      | .match path found => some (path, found)
      | .done .. => none) = ([] : List (String × List SearchMatch)) := by
    cases truncated <;> rfl
  rw [hdone, append_nil]
  exact filterMap_some

/-- **What a search tells, whatever it meets**: the first matches of files, within the three bounds, and a `Done` that is
the last event and counts the files, unless the generation has moved on. -/
structure Reports (tools : Tools) (matcher : Option Matcher) (entries : List Met) (events : List SearchEvent) : Prop where
  files : (told events).length ≤ 200
  perFile : ∀ t ∈ told events, t.2.length ≤ 500
  total : ((told events).map fun t => t.2.length).sum ≤ 2000
  first : ∀ t ∈ told events, ∃ m ∈ matcher, ∃ met ∈ entries, ∃ file, met.entry = .file t.1 (some file) ∧
    List.Forall₂ (Shows m) ((matching m 1 (file.lines tools)).take t.2.length) t.2
  last : ∀ before truncated n after, events = before ++ SearchEvent.done truncated n :: after →
    after = [] ∧ n = (told events).length
  ends : (∀ truncated n, .done truncated n ∉ events) →
    ∃ met ∈ entries, met.superseded = true ∨ met.supersededAfter = true

/-- **A `Done` that says nothing was cut off**: every file was opened and read to its end, and every line of a text that
matches was told. -/
def Complete (tools : Tools) (matcher : Option Matcher) (entries : List Met) (events : List SearchEvent) : Prop :=
  ∀ n, .done false n ∈ events → ∀ m ∈ matcher, ∀ met ∈ entries, ∀ path opened, met.entry = .file path opened →
    ∃ file, opened = some file ∧ file.fails = false ∧ file.read = file.content ∧ (0 ∉ file.text tools →
      ∃ found, List.Forall₂ (Shows m) (matching m 1 (logicalLines (decoded tools file.content))) found ∧
        (found = [] ∨ (path, found) ∈ told events))

/-- The matcher that a query searches with, if any. -/
def matcherOf (build : List Char → Bool → Option Matcher) (query : List Char) (caseSensitive : Bool) : Option Matcher :=
  if query = [] then none else build query caseSensitive

/-- The reading does not fail, and comes to no more than the limit. -/
def File.Readable (file : File) : Prop := file.fails = false ∧ file.content.length ≤ MAX_FILE_BYTES

theorem read_of_readable (h : file.Readable) : file.read = file.content := take_of_length_le h.2

theorem broken_of_readable (h : file.Readable) : file.broken = false := by rw [File.broken, h.1]; rfl

theorem first_shows {met : Met} {t : String × List SearchMatch} (h : First tools matcher met t) : ∃ file,
    met.entry = .file t.1 (some file) ∧
      List.Forall₂ (Shows matcher) ((matching matcher 1 (file.lines tools)).take t.2.length) t.2 := by
  obtain ⟨file, hentry, rest, hrest⟩ := h.first
  have hshows := found_shows tools matcher file
  rw [← hrest] at hshows
  exact ⟨file, hentry, forall₂_take_append _ t.2 rest hshows⟩

/-- A `Done` stands only at the end of an account. -/
theorem events_done {t : List (String × List SearchMatch)} {truncated : Option Bool} {n : Nat}
    {before after : List SearchEvent} {truncated' : Bool} {n' : Nat}
    (h : events t truncated n = before ++ .done truncated' n' :: after) : after = [] ∧ n' = n := by
  induction t generalizing before with
  | nil =>
    cases truncated with
    | none => exact absurd h.symm (append_ne_nil_of_right_ne_nil _ (cons_ne_nil _ _))
    | some truncated =>
      cases before with
      | nil =>
        obtain ⟨hdone, hafter⟩ := List.cons.inj h
        cases hdone
        exact ⟨hafter.symm, rfl⟩
      | cons event before =>
        exact absurd (List.cons.inj h).2.symm (append_ne_nil_of_right_ne_nil _ (cons_ne_nil _ _))
  | cons x t ih =>
    cases before with
    | nil => cases (List.cons.inj h).1
    | cons event before => exact ih (List.cons.inj h).2

variable {truncated : Option Bool}

variable {t : List (String × List SearchMatch)} {entries : List Met}

theorem mem_events_done {n n' : Nat} {b : Bool} : .done b n' ∈ events t truncated n ↔ truncated = some b ∧ n' = n := by
  cases truncated <;> simp [events, eq_comm]

theorem reports_of_accounts (h : Accounts tools matcher {} entries t truncated) :
    Reports tools (some matcher) entries (events t truncated t.length) := by
  have hfiles := h.files
  have htotal := h.total
  rw [Nat.zero_add] at hfiles htotal
  constructor
  · rw [told_events]
    exact hfiles
  · rw [told_events]
    intro x hx
    obtain ⟨met, _, hfirst⟩ := h.first x hx
    exact hfirst.short
  · rw [told_events]
    exact htotal
  · rw [told_events]
    intro x hx
    obtain ⟨met, hmem, hfirst⟩ := h.first x hx
    exact ⟨matcher, rfl, met, hmem, first_shows hfirst⟩
  · rw [told_events]
    intro before truncated' n after hevents
    exact events_done hevents
  · intro hno
    refine h.silent (eq_none_iff_forall_ne_some.2 fun b hb => hno b t.length ?_)
    exact mem_events_done.2 ⟨hb, rfl⟩

theorem complete_of_accounts (h : Accounts tools matcher {} entries t truncated)
    (hread : ∀ met ∈ entries, ∀ path file, met.entry = .file path (some file) → file.Readable) :
    Complete tools (some matcher) entries (events t truncated t.length) := by
  intro n hdone m hm met hmem path opened hentry
  cases hm
  obtain ⟨file, rfl, hfile⟩ := (h.covered (mem_events_done.1 hdone).1).2 met hmem path opened hentry
  have hreadable := hread met hmem path file hentry
  refine ⟨file, rfl, hreadable.1, read_of_readable hreadable, fun htext => ⟨file.found tools matcher, ?_, ?_⟩⟩
  · have hshows := found_shows tools matcher file
    rwa [File.lines, read_of_readable hreadable] at hshows
  · rw [told_events]
    exact hfile (broken_of_readable hreadable) htext

/-- A search that does not walk says one thing. -/
theorem reports_done (entries : List Met) (matcher : Option Matcher) (truncated : Bool) :
    Reports tools matcher entries [.done truncated 0] :=
  ⟨Nat.zero_le _, fun _ h => absurd h not_mem_nil, Nat.zero_le _, fun _ h => absurd h not_mem_nil,
    fun before b n after h => @events_done [] (some truncated) 0 before after b n h,
    fun hno => absurd (mem_singleton.2 rfl) (hno truncated 0)⟩

/-- The matcher of the one-byte query `n`. -/
def exampleMatcher : Matcher where
  find text := (text.findIdx? fun b => b = 110).map fun i => (i, i + 1)
  findIter text := ((text.zipIdx.filter fun b => b.1 = 110).map fun b => (b.2, b.2 + 1))
  within := by
    intro text hit h
    obtain ⟨i, hi, rfl⟩ := Option.map_eq_some_iff.1 h
    exact Nat.le_of_lt (List.findIdx?_eq_some_iff_getElem.1 hi).1
  terminated := by
    intro text hit h
    obtain ⟨i, hi, rfl⟩ := Option.map_eq_some_iff.1 h
    rw [List.findIdx?_append, hi]
    rfl

def exampleTools : Tools where
  decode16 bytes := bytes
  seen text _ := (linesOf text).length
  whole _ _ := Nat.le_refl _

/-- A file whose reading fails behind its first line. -/
def exampleEntries : List Met := [⟨false, false, .file "/w/a" (some ⟨some 4, [97, lf], true⟩), false⟩]

end Search
end Yuzora
