import Yuzora.Utf8
import Yuzora.GitChanges
/-!
# GitStatus — the state of the files, as git reports it

A report is records that end in NUL; the fields of a record are split at a fixed number of blanks, so that the path is the
last of them, and the original path of a rename is the record behind its own.
-/
namespace Yuzora
namespace Git

open List
open Pieces Decimal Utf8

/-! ## The report read -/

structure GitFileEntry where
  path : List Char
  origPath : Option (List Char)
  status : List Char
deriving DecidableEq

structure ParsedStatus where
  branch : Option (List Char) := none
  headOid : List Char := []
  detached : Bool := false
  upstream : Option (List Char) := none
  ahead : Nat := 0
  behind : Nat := 0
  staged : List GitFileEntry := []
  unstaged : List GitFileEntry := []
  untracked : List (List Char) := []
  conflicted : List GitFileEntry := []
deriving DecidableEq

/-- A part of the counts of `branch.ab`. -/
def ParsedStatus.count (s : ParsedStatus) (part : List Char) : ParsedStatus :=
  if part.head? = some '+' then { s with ahead := (parseUnsigned (2 ^ 32 - 1) part.tail).getD 0 }
  else if part.head? = some '-' then { s with behind := (parseUnsigned (2 ^ 32 - 1) part.tail).getD 0 }
  else s

def ParsedStatus.header (s : ParsedStatus) (rest : List Char) : ParsedStatus :=
  let parts := splitn ' ' 2 rest
  let key := parts[0]?.getD []
  let value := parts[1]?.getD []
  if key = "branch.oid".toList then { s with headOid := value }
  else if key = "branch.head".toList then
    if value = "(detached)".toList then { s with detached := true } else { s with branch := some value }
  else if key = "branch.upstream".toList then { s with upstream := some value }
  else if key = "branch.ab".toList then (pieces ' ' value).foldl ParsedStatus.count s
  else s

def changedFields (fieldCount : Nat) (line : List Char) : Except (List Char) (List (List Char)) :=
  let parts := splitn ' ' (fieldCount + 1) line
  if parts.length ≤ fieldCount then .error ("malformed record: ".toList ++ line) else .ok parts

def ParsedStatus.changed (s : ParsedStatus) (fields : List (List Char)) (orig : Option (List Char)) : ParsedStatus :=
  let xy := fields[1]?.getD []
  let path := fields.getLast?.getD []
  let x := xy[0]?.getD '.'
  let y := xy[1]?.getD '.'
  { s with
    staged := if x ≠ '.' then s.staged ++ [⟨path, orig, [x]⟩] else s.staged
    unstaged := if y ≠ '.' then s.unstaged ++ [⟨path, orig, [y]⟩] else s.unstaged }

def conflictedEntry (line : List Char) : Except (List Char) GitFileEntry :=
  let fields := splitn ' ' 11 line
  match fields[1]?.filter (fun code => (toUtf8 code).length = 2), fields[10]? with
  | some code, some path => .ok ⟨path, none, code⟩
  | _, _ => .error ("malformed u record: ".toList ++ line)

def untrackedPath (line : List Char) : Except (List Char) (List Char) :=
  if line.take 2 = ['?', ' '] ∧ line.drop 2 ≠ [] then .ok (line.drop 2)
  else .error ("malformed untracked record: ".toList ++ line)

def parseRecords : ParsedStatus → List (List Char) → Except (List Char) ParsedStatus
  | s, [] => .ok s
  | s, line :: records =>
    if line = [] then parseRecords s records
    else if line.take 2 = ['#', ' '] then parseRecords (s.header (line.drop 2)) records
    else if line.head? = some '1' then
      (changedFields 8 line).bind fun fields => parseRecords (s.changed fields none) records
    else if line.head? = some '2' then
      (changedFields 9 line).bind fun fields =>
        match records with
        | [] => .error "rename record missing orig path".toList
        | orig :: records => parseRecords (s.changed fields (some orig)) records
    else if line.head? = some 'u' then
      (conflictedEntry line).bind fun entry => parseRecords { s with conflicted := s.conflicted ++ [entry] } records
    else if line.head? = some '?' then
      (untrackedPath line).bind fun path => parseRecords { s with untracked := s.untracked ++ [path] } records
    else if line.head? = some '!' then parseRecords s records
    else .error ("unknown record type: ".toList ++ line)

/-- `parse_porcelain_v2` -/
def parsePorcelainV2 (bytes : List UInt8) : Except (List Char) ParsedStatus :=
  parseRecords {} ((pieces 0 bytes).map lossy)

/-! ## The report written -/

/-- The letters of a status. -/
inductive Letter
  | unchanged | modified | typeChanged | added | deleted | renamed | copied | unmerged
deriving DecidableEq

def Letter.char : Letter → Char
  | .unchanged => '.'
  | .modified => 'M'
  | .typeChanged => 'T'
  | .added => 'A'
  | .deleted => 'D'
  | .renamed => 'R'
  | .copied => 'C'
  | .unmerged => 'U'

/-- A field between blanks. -/
structure Field where
  text : List Char
  plain : ' ' ∉ text ∧ '\x00' ∉ text

/-- What a change has between its letters and its path: a submodule's state, three modes and two object names. -/
structure Sides where
  sub : Field
  modeHead : Field
  modeIndex : Field
  modeWorktree : Field
  objectHead : Field
  objectIndex : Field

/-- What a conflict has there: four modes and three object names. -/
structure Stages where
  sub : Field
  mode1 : Field
  mode2 : Field
  mode3 : Field
  modeWorktree : Field
  object1 : Field
  object2 : Field
  object3 : Field

inductive Header
  | oid (value : Name)
  | head (value : Name)
  | upstream (value : Name)
  | ab (ahead behind : Fin (2 ^ 32))
  | other (key : Field) (value : Name) (unknown : key.text ∉
      ["branch.oid".toList, "branch.head".toList, "branch.upstream".toList, "branch.ab".toList])

/-- A rename or a copy: its score, and the path it was before. -/
structure Renamed where
  x : Letter
  y : Letter
  sides : Sides
  score : Field
  path : Name
  orig : Name

inductive Record
  | header (head : Header)
  | ordinary (x y : Letter) (sides : Sides) (path : Name)
  | renamed (change : Renamed)
  | unmerged (x y : Letter) (stages : Stages) (path : Name)
  | untracked (path : Name)
  | ignored (path : Name)

def Header.line : Header → List Char
  | .oid value => glued ' ' ["branch.oid".toList] value.text
  | .head value => glued ' ' ["branch.head".toList] value.text
  | .upstream value => glued ' ' ["branch.upstream".toList] value.text
  | .ab ahead behind => glued ' ' ["branch.ab".toList, '+' :: decimal ahead] ('-' :: decimal behind)
  | .other key value _ => glued ' ' [key.text] value.text

def Sides.fields (sides : Sides) : List (List Char) :=
  [sides.sub.text, sides.modeHead.text, sides.modeIndex.text, sides.modeWorktree.text, sides.objectHead.text,
    sides.objectIndex.text]

def Stages.fields (stages : Stages) : List (List Char) :=
  [stages.sub.text, stages.mode1.text, stages.mode2.text, stages.mode3.text, stages.modeWorktree.text,
    stages.object1.text, stages.object2.text, stages.object3.text]

variable (change : Renamed)

def Renamed.line : List Char :=
  glued ' ' (['2'] :: [change.x.char, change.y.char] :: (change.sides.fields ++ [change.score.text])) change.path.text

def Record.lines : Record → List (List Char)
  | .header head => [['#', ' '] ++ head.line]
  | .ordinary x y sides path => [glued ' ' (['1'] :: [x.char, y.char] :: sides.fields) path.text]
  | .renamed change => [change.line, change.orig.text]
  | .unmerged x y stages path => [glued ' ' (['u'] :: [x.char, y.char] :: stages.fields) path.text]
  | .untracked path => [['?', ' '] ++ path.text]
  | .ignored path => [['!', ' '] ++ path.text]

def renderLines (lines : List (List Char)) : List UInt8 := lines.flatMap fun line => toUtf8 line ++ [0]

/-! ## What a report comes to -/

def Header.apply (s : ParsedStatus) : Header → ParsedStatus
  | .oid value => { s with headOid := value.text }
  | .head value =>
    if value.text = "(detached)".toList then { s with detached := true } else { s with branch := some value.text }
  | .upstream value => { s with upstream := some value.text }
  | .ab ahead behind => { s with ahead := ahead, behind := behind }
  | .other .. => s

def sideEntry (letter : Letter) (path : Name) (orig : Option (List Char)) : Option GitFileEntry :=
  if letter = .unchanged then none else some ⟨path.text, orig, [letter.char]⟩

def Record.header? : Record → Option Header
  | .header head => some head
  | _ => none

def Record.staged? : Record → Option GitFileEntry
  | .ordinary x _ _ path => sideEntry x path none
  | .renamed change => sideEntry change.x change.path (some change.orig.text)
  | _ => none

def Record.unstaged? : Record → Option GitFileEntry
  | .ordinary _ y _ path => sideEntry y path none
  | .renamed change => sideEntry change.y change.path (some change.orig.text)
  | _ => none

def Record.untracked? : Record → Option (List Char)
  | .untracked path => some path.text
  | _ => none

def Record.conflicted? : Record → Option GitFileEntry
  | .unmerged x y _ path => some ⟨path.text, none, [x.char, y.char]⟩
  | _ => none

/-- The state of the files: every entry in its list, in the order of the report. -/
def reported (records : List Record) : ParsedStatus :=
  { (records.filterMap Record.header?).foldl Header.apply {} with
    staged := records.filterMap Record.staged?
    unstaged := records.filterMap Record.unstaged?
    untracked := records.filterMap Record.untracked?
    conflicted := records.filterMap Record.conflicted? }

def ParsedStatus.add (s : ParsedStatus) (record : Record) : ParsedStatus :=
  { record.header?.elim s (Header.apply s) with
    staged := s.staged ++ record.staged?.toList
    unstaged := s.unstaged ++ record.unstaged?.toList
    untracked := s.untracked ++ record.untracked?.toList
    conflicted := s.conflicted ++ record.conflicted?.toList }

theorem header_apply_lists (head : Header) (s : ParsedStatus) (staged unstaged conflicted : List GitFileEntry)
    (untracked : List (List Char)) :
    head.apply { s with
      staged := staged, unstaged := unstaged, untracked := untracked, conflicted := conflicted } =
    { head.apply s with
      staged := staged, unstaged := unstaged, untracked := untracked, conflicted := conflicted } := by
  cases head with
  | head value =>
    unfold Header.apply
    by_cases h : value.text = "(detached)".toList
    · simp only [if_pos h]
    · simp only [if_neg h]
  | _ => rfl

theorem filterMap_cons_toList {α β : Type} (f : α → Option β) (a : α) (l : List α) :
    (a :: l).filterMap f = (f a).toList ++ l.filterMap f := by
  cases h : f a with
  | none => rw [filterMap_cons_none h]; rfl
  | some b => rw [filterMap_cons_some h]; rfl

/-- **Records added one after the other** are the whole report. -/
theorem foldl_add (records : List Record) (s : ParsedStatus) : records.foldl ParsedStatus.add s =
    { (records.filterMap Record.header?).foldl Header.apply s with
      staged := s.staged ++ records.filterMap Record.staged?
      unstaged := s.unstaged ++ records.filterMap Record.unstaged?
      untracked := s.untracked ++ records.filterMap Record.untracked?
      conflicted := s.conflicted ++ records.filterMap Record.conflicted? } := by
  have hheaders : ∀ (heads : List Header) (s : ParsedStatus) (staged unstaged conflicted : List GitFileEntry)
      (untracked : List (List Char)), heads.foldl Header.apply { s with
        staged := staged, unstaged := unstaged, untracked := untracked, conflicted := conflicted } =
      { heads.foldl Header.apply s with
        staged := staged, unstaged := unstaged, untracked := untracked, conflicted := conflicted } := by
    intro heads
    induction heads with
    | nil => intros; rfl
    | cons head heads ih =>
      intro s staged unstaged conflicted untracked
      rw [foldl_cons, header_apply_lists, ih, foldl_cons]
  induction records generalizing s with
  | nil => simp
  | cons record records ih =>
    rw [foldl_cons, ih, ParsedStatus.add, hheaders]
    simp only [filterMap_cons_toList, append_assoc, foldl_append]
    cases record.header? with
    | none | some => rfl

theorem foldl_add_reported (records : List Record) : records.foldl ParsedStatus.add {} = reported records :=
  foldl_add records {}

/-! ## One record -/

theorem line_cons (c : Char) (fields : List (List Char)) (last : List Char) :
    glued ' ' ([c] :: fields) last = c :: ' ' :: glued ' ' fields last := glued_cons ' ' [c] fields last

theorem sides_plain (sides : Sides) : ∀ field ∈ sides.fields, ' ' ∉ field ∧ '\x00' ∉ field := by
  intro field h
  simp only [Sides.fields, mem_cons, not_mem_nil, or_false] at h
  rcases h with rfl | rfl | rfl | rfl | rfl | rfl <;> exact Field.plain _

theorem stages_plain (stages : Stages) : ∀ field ∈ stages.fields, ' ' ∉ field ∧ '\x00' ∉ field := by
  intro field h
  simp only [Stages.fields, mem_cons, not_mem_nil, or_false] at h
  rcases h with rfl | rfl | rfl | rfl | rfl | rfl | rfl | rfl <;> exact Field.plain _

theorem letter_plain (letter : Letter) : letter.char ≠ ' ' ∧ letter.char ≠ '\x00' ∧ letter.char.toNat < 128 := by
  cases letter <;> decide

theorem letters_plain (x y : Letter) : ' ' ∉ [x.char, y.char] ∧ '\x00' ∉ [x.char, y.char] := by
  constructor
  · intro h
    simp only [mem_cons, not_mem_nil, or_false] at h
    rcases h with h | h
    · exact (letter_plain x).1 h.symm
    · exact (letter_plain y).1 h.symm
  · intro h
    simp only [mem_cons, not_mem_nil, or_false] at h
    rcases h with h | h
    · exact (letter_plain x).2.1 h.symm
    · exact (letter_plain y).2.1 h.symm

variable {c : Char} {fields : List (List Char)} {key : List Char}

theorem fields_plain (hc : c ≠ ' ' ∧ c ≠ '\x00') (x y : Letter) (h : ∀ field ∈ fields, ' ' ∉ field ∧ '\x00' ∉ field) :
    ∀ field ∈ [c] :: [x.char, y.char] :: fields, ' ' ∉ field ∧ '\x00' ∉ field := by
  intro field hfield
  rcases mem_cons.1 hfield with rfl | hfield
  · exact ⟨fun hm => hc.1 (mem_singleton.1 hm).symm, fun hm => hc.2 (mem_singleton.1 hm).symm⟩
  · rcases mem_cons.1 hfield with rfl | hfield
    · exact letters_plain x y
    · exact h field hfield

theorem changed_add (s : ParsedStatus) (c : Char) (x y : Letter) (fields : List (List Char)) (path : Name)
    (orig : Option (List Char)) :
    s.changed ([c] :: [x.char, y.char] :: fields ++ [path.text]) orig =
      { s with
        staged := s.staged ++ (sideEntry x path orig).toList
        unstaged := s.unstaged ++ (sideEntry y path orig).toList } := by
  have hside : ∀ (letter : Letter) (entries : List GitFileEntry),
      (if letter.char ≠ '.' then entries ++ [⟨path.text, orig, [letter.char]⟩] else entries) =
        entries ++ (sideEntry letter path orig).toList := by
    intro letter entries
    cases letter with
    | unchanged => exact (append_nil entries).symm
    | _ => rfl
  have hpath : (([c] :: [x.char, y.char] :: fields ++ [path.text]).getLast?).getD [] = path.text := by
    rw [getLast?_append]
    rfl
  rw [← hside, ← hside]
  unfold ParsedStatus.changed
  rw [hpath]
  rfl

theorem header_value (hkey : ' ' ∉ key) (value : List Char) : splitn ' ' 2 (glued ' ' [key] value) = [key, value] := by
  refine @splitn_glued Char _ [key] ' ' (fun field h => ?_) value
  rw [mem_singleton.1 h]
  exact hkey

theorem header_line (s : ParsedStatus) (head : Header) : s.header head.line = head.apply s := by
  cases head with
  | oid | head | upstream => rfl
  | ab ahead behind =>
    have hparts : pieces ' ' (glued ' ' ['+' :: decimal ahead] ('-' :: decimal behind)) =
        ['+' :: decimal ahead, '-' :: decimal behind] := by
      rw [glued_cons, pieces_append, glued, flatMap_nil, nil_append, pieces_of_notMem]
      · intro h
        rcases mem_cons.1 h with h | h
        · exact absurd h (by decide)
        · exact notMem_decimal (by decide) _ h
      · intro h
        rcases mem_cons.1 h with h | h
        · exact absurd h (by decide)
        · exact notMem_decimal (by decide) _ h
    have hline : glued ' ' ["branch.ab".toList, '+' :: decimal ahead] ('-' :: decimal behind) =
        glued ' ' ["branch.ab".toList] (glued ' ' ['+' :: decimal ahead] ('-' :: decimal behind)) := by
      rfl
    have hahead := parseUnsigned_decimal (Nat.le_sub_one_of_lt ahead.isLt)
    have hbehind := parseUnsigned_decimal (Nat.le_sub_one_of_lt behind.isLt)
    change (pieces ' ' (glued ' ' ['+' :: decimal ahead] ('-' :: decimal behind))).foldl ParsedStatus.count s = _
    rw [hparts]
    simp only [foldl_cons, foldl_nil, ParsedStatus.count, head?_cons, tail_cons, if_true, hahead,
      Option.getD_some, hbehind]
    rfl
  | other key value unknown =>
    simp only [mem_cons, not_mem_nil, or_false, not_or] at unknown
    obtain ⟨hoid, hhead, hupstream, hab⟩ := unknown
    unfold ParsedStatus.header
    rw [Header.line, header_value key.plain.1]
    simp only [getElem?_cons_zero, Option.getD_some, if_neg hoid, if_neg hhead, if_neg hupstream, if_neg hab]
    rfl

theorem changedFields_glued (fieldCount : Nat) (hcount : fields.length = fieldCount)
    (h : ∀ field ∈ fields, ' ' ∉ field) (path : List Char) :
    changedFields fieldCount (glued ' ' fields path) = .ok (fields ++ [path]) := by
  subst hcount
  unfold changedFields
  rw [splitn_glued h]
  exact if_neg (by rw [length_append, length_singleton]; omega)

theorem conflictedEntry_line (x y : Letter) (stages : Stages) (path : Name) :
    conflictedEntry (glued ' ' (['u'] :: [x.char, y.char] :: stages.fields) path.text) =
      .ok ⟨path.text, none, [x.char, y.char]⟩ := by
  have hfields : splitn ' ' 11 (glued ' ' (['u'] :: [x.char, y.char] :: stages.fields) path.text) =
      (['u'] :: [x.char, y.char] :: stages.fields) ++ [path.text] :=
    splitn_glued (fun field h => (fields_plain (by decide) x y (stages_plain stages) field h).1) path.text
  have hcode : (toUtf8 [x.char, y.char]).length = 2 := by
    cases x <;> cases y <;> decide
  unfold conflictedEntry
  rw [hfields]
  simp only [Stages.fields, cons_append, nil_append, getElem?_cons_succ, getElem?_cons_zero,
    Option.filter_some, hcode, decide_true, if_true]

theorem take_ne (hc : c ≠ '#') (rest : List Char) : ¬ (c :: rest).take 2 = ['#', ' '] := fun h =>
  hc (List.cons.inj h).1

theorem head_ne {d : Char} (hc : c ≠ d) : ¬ some c = some d := fun h =>
  hc (Option.some.inj h)

theorem parseRecords_cons (s : ParsedStatus) (c : Char) (rest : List Char) (records : List (List Char)) :
    parseRecords s ((c :: rest) :: records) =
      if (c :: rest).take 2 = ['#', ' '] then parseRecords (s.header ((c :: rest).drop 2)) records
      else if some c = some '1' then
        (changedFields 8 (c :: rest)).bind fun fields => parseRecords (s.changed fields none) records
      else if some c = some '2' then
        (changedFields 9 (c :: rest)).bind fun fields =>
          match records with
          | [] => .error "rename record missing orig path".toList
          | orig :: records => parseRecords (s.changed fields (some orig)) records
      else if some c = some 'u' then
        (conflictedEntry (c :: rest)).bind fun entry => parseRecords { s with conflicted := s.conflicted ++ [entry] } records
      else if some c = some '?' then
        (untrackedPath (c :: rest)).bind fun path => parseRecords { s with untracked := s.untracked ++ [path] } records
      else if some c = some '!' then parseRecords s records
      else .error ("unknown record type: ".toList ++ c :: rest) := by
  rw [parseRecords, if_neg (cons_ne_nil c rest)]
  rfl

theorem parseRecords_header (s : ParsedStatus) (rest : List Char) (records : List (List Char)) :
    parseRecords s (('#' :: ' ' :: rest) :: records) = parseRecords (s.header rest) records := by
  rw [parseRecords_cons, if_pos (show ('#' :: ' ' :: rest).take 2 = ['#', ' '] from rfl)]
  rfl

theorem parseRecords_ordinary (s : ParsedStatus) (rest : List Char) (records : List (List Char)) :
    parseRecords s (('1' :: rest) :: records) =
      (changedFields 8 ('1' :: rest)).bind fun fields => parseRecords (s.changed fields none) records := by
  rw [parseRecords_cons, if_neg (take_ne (by decide) _)]
  exact if_pos rfl

section
variable (s : ParsedStatus)
include s

theorem parseRecords_renamed (rest orig : List Char) (records : List (List Char)) :
    parseRecords s (('2' :: rest) :: orig :: records) =
      (changedFields 9 ('2' :: rest)).bind fun fields => parseRecords (s.changed fields (some orig)) records := by
  rw [parseRecords_cons, if_neg (take_ne (by decide) _),
    if_neg (head_ne (by decide))]
  exact if_pos rfl

section
variable (rest : List Char) (records : List (List Char))
include rest records

theorem parseRecords_unmerged :
    parseRecords s (('u' :: rest) :: records) = (conflictedEntry ('u' :: rest)).bind fun entry =>
      parseRecords { s with conflicted := s.conflicted ++ [entry] } records := by
  rw [parseRecords_cons, if_neg (take_ne (by decide) _),
    if_neg (head_ne (by decide)), if_neg (head_ne (by decide))]
  exact if_pos rfl

theorem parseRecords_untracked :
    parseRecords s (('?' :: rest) :: records) = (untrackedPath ('?' :: rest)).bind fun path =>
      parseRecords { s with untracked := s.untracked ++ [path] } records := by
  rw [parseRecords_cons, if_neg (take_ne (by decide) _),
    if_neg (head_ne (by decide)), if_neg (head_ne (by decide)), if_neg (head_ne (by decide))]
  exact if_pos rfl

theorem parseRecords_ignored : parseRecords s (('!' :: rest) :: records) = parseRecords s records := by
  rw [parseRecords_cons, if_neg (take_ne (by decide) _),
    if_neg (head_ne (by decide)), if_neg (head_ne (by decide)), if_neg (head_ne (by decide)),
    if_neg (head_ne (by decide))]
  exact if_pos rfl

end

theorem add_entries {record : Record} (h : record.header? = none) : s.add record = { s with
      staged := s.staged ++ record.staged?.toList
      unstaged := s.unstaged ++ record.unstaged?.toList
      untracked := s.untracked ++ record.untracked?.toList
      conflicted := s.conflicted ++ record.conflicted?.toList } := by
  rw [ParsedStatus.add, h]
  rfl

theorem add_header (head : Header) : s.add (.header head) = head.apply s := by
  have hlists := header_apply_lists head s s.staged s.unstaged s.conflicted s.untracked
  unfold ParsedStatus.add
  simp only [Record.header?, Record.staged?, Record.unstaged?, Record.untracked?, Record.conflicted?, Option.toList_none,
    append_nil, Option.elim_some]
  exact hlists.symm

end

theorem renamed_line : changedFields 9 change.line = .ok
    ((['2'] :: [change.x.char, change.y.char] :: (change.sides.fields ++ [change.score.text])) ++ [change.path.text]) := by
  refine changedFields_glued 9 rfl (fun field h => (fields_plain (by decide) change.x change.y ?_ field h).1) _
  intro field hfield
  rcases mem_append.1 hfield with hfield | hfield
  · exact sides_plain change.sides field hfield
  · rw [mem_singleton.1 hfield]
    exact change.score.plain

theorem parseRecords_change (s : ParsedStatus) (change : Renamed) (orig : List Char) (records : List (List Char)) :
    parseRecords s (change.line :: orig :: records) = parseRecords { s with
      staged := s.staged ++ (sideEntry change.x change.path (some orig)).toList
      unstaged := s.unstaged ++ (sideEntry change.y change.path (some orig)).toList } records := by
  have hfields := renamed_line change
  unfold Renamed.line at hfields ⊢
  rw [line_cons] at hfields ⊢
  rw [parseRecords_renamed, hfields]
  exact congrArg (fun s => parseRecords s records) (changed_add s '2' change.x change.y _ change.path (some orig))

/-- **One record**: it is read whole, and nothing of it is read as a record of its own. -/
theorem parseRecords_lines (s : ParsedStatus) (record : Record) (records : List (List Char)) :
    parseRecords s (record.lines ++ records) = parseRecords (s.add record) records := by
  cases record with
  | header head =>
    rw [add_header, ← header_line]
    exact parseRecords_header s head.line records
  | ordinary x y sides path =>
    have hfields := changedFields_glued 8 rfl
      (fun field h => (fields_plain (c := '1') (by decide) x y (sides_plain sides) field h).1) path.text
    change parseRecords s (glued ' ' (['1'] :: [x.char, y.char] :: sides.fields) path.text :: records) = _
    rw [line_cons] at hfields ⊢
    rw [parseRecords_ordinary, hfields, add_entries s rfl]
    refine congrArg (fun s => parseRecords s records) ((changed_add s '1' x y sides.fields path none).trans ?_)
    simp only [Record.staged?, Record.unstaged?, Record.untracked?, Record.conflicted?, Option.toList_none,
      append_nil]
  | renamed change =>
    change parseRecords s (change.line :: change.orig.text :: records) = _
    rw [parseRecords_change, add_entries s rfl]
    simp only [Record.staged?, Record.unstaged?, Record.untracked?, Record.conflicted?, Option.toList_none,
      append_nil]
  | unmerged x y stages path =>
    have hentry := conflictedEntry_line x y stages path
    change parseRecords s (glued ' ' (['u'] :: [x.char, y.char] :: stages.fields) path.text :: records) = _
    rw [line_cons] at hentry ⊢
    rw [parseRecords_unmerged, hentry, add_entries s rfl]
    simp only [Record.staged?, Record.unstaged?, Record.untracked?, Record.conflicted?, Option.toList_none,
      append_nil,
      Option.toList_some]
    rfl
  | untracked path =>
    have hpath : untrackedPath ('?' :: ' ' :: path.text) = .ok path.text := if_pos ⟨rfl, path.nonempty⟩
    change parseRecords s (('?' :: ' ' :: path.text) :: records) = _
    rw [parseRecords_untracked, hpath, add_entries s rfl]
    simp only [Record.staged?, Record.unstaged?, Record.untracked?, Record.conflicted?, Option.toList_none,
      append_nil,
      Option.toList_some]
    rfl
  | ignored path =>
    rw [add_entries s rfl]
    simp only [Record.staged?, Record.unstaged?, Record.untracked?, Record.conflicted?, Option.toList_none,
      append_nil]
    exact parseRecords_ignored s (' ' :: path.text) records

/-! ## Whole reports, and cut ones -/

/-- The kinds of records with fields. -/
inductive Kind
  | ordinary | renamed | unmerged | untracked

def Kind.char : Kind → Char
  | .ordinary => '1'
  | .renamed => '2'
  | .unmerged => 'u'
  | .untracked => '?'

def Kind.fieldCount : Kind → Nat
  | .ordinary => 9
  | .renamed => 10
  | .unmerged => 11
  | .untracked => 2

/-- The last record of a report that is cut: one without its original path, or one with too few fields. -/
inductive Cut
  | withoutOrig (change : Renamed)
  | short (kind : Kind) (fields : List Field) (few : fields.length + 1 < kind.fieldCount)

def Cut.line : Cut → List Char
  | .withoutOrig change => change.line
  | .short kind fields _ => kind.char :: fields.flatMap fun field => ' ' :: field.text

/-- A report that is whole comes to its entries; one that is cut is an error. -/
def ReportSettled (records : List Record) : Option Cut → Prop
  | none => parsePorcelainV2 (renderLines (records.flatMap Record.lines)) = .ok (reported records)
  | some cut => ∃ e, parsePorcelainV2 (renderLines (records.flatMap Record.lines ++ [cut.line])) = .error e

theorem nul_notMem_glued (h : ∀ field ∈ fields, ' ' ∉ field ∧ '\x00' ∉ field)
    {last : List Char} (hlast : '\x00' ∉ last) : '\x00' ∉ glued ' ' fields last := by
  intro hmem
  rcases mem_append.1 hmem with hmem | hmem
  · obtain ⟨field, hfield, hmem⟩ := mem_flatMap.1 hmem
    rcases mem_append.1 hmem with hmem | hmem
    · exact (h field hfield).2 hmem
    · exact absurd (mem_singleton.1 hmem) (by decide)
  · exact hlast hmem

theorem nul_notMem_cons (hc : c ≠ '\x00') {s : List Char} (hs : '\x00' ∉ s) : '\x00' ∉ c :: s := fun h =>
  (mem_cons.1 h).elim (fun h => hc h.symm) hs

theorem nul_notMem_key (hkey : ' ' ∉ key ∧ '\x00' ∉ key) {value : List Char} (hvalue : '\x00' ∉ value) :
    '\x00' ∉ glued ' ' [key] value := by
  refine nul_notMem_glued (fun field h => ?_) hvalue
  rw [mem_singleton.1 h]
  exact hkey

theorem nul_notMem_header (head : Header) : '\x00' ∉ head.line := by
  cases head with
  | oid value | head value | upstream value => exact nul_notMem_key (by decide) value.plain
  | ab ahead behind =>
    rw [Header.line, glued_cons]
    refine fun h => (mem_append.1 h).elim (by decide) fun h => (mem_cons.1 h).elim (by decide) ?_
    refine nul_notMem_key ⟨?_, nul_notMem_cons (by decide) (notMem_decimal (by decide) _)⟩
      (nul_notMem_cons (by decide) (notMem_decimal (by decide) _))
    intro hblank
    rcases mem_cons.1 hblank with hblank | hblank
    · exact absurd hblank (by decide)
    · exact notMem_decimal (by decide) _ hblank
  | other key value _ => exact nul_notMem_key key.plain value.plain

theorem nul_notMem_change : '\x00' ∉ change.line := by
  refine nul_notMem_glued (fields_plain (by decide) change.x change.y fun field hfield => ?_) change.path.plain
  rcases mem_append.1 hfield with hfield | hfield
  · exact sides_plain change.sides field hfield
  · rw [mem_singleton.1 hfield]
    exact change.score.plain

theorem nul_notMem_lines (record : Record) : ∀ line ∈ record.lines, '\x00' ∉ line := by
  intro line h
  cases record with
  | header head =>
    rw [mem_singleton.1 h]
    exact nul_notMem_cons (by decide) (nul_notMem_cons (by decide) (nul_notMem_header head))
  | ordinary x y sides path =>
    rw [mem_singleton.1 h]
    exact nul_notMem_glued (fields_plain (by decide) x y (sides_plain sides)) path.plain
  | renamed change =>
    rcases mem_cons.1 h with rfl | h
    · exact nul_notMem_change change
    · rw [mem_singleton.1 h]
      exact change.orig.plain
  | unmerged x y stages path =>
    rw [mem_singleton.1 h]
    exact nul_notMem_glued (fields_plain (by decide) x y (stages_plain stages)) path.plain
  | untracked path | ignored path =>
    rw [mem_singleton.1 h]
    exact nul_notMem_cons (by decide) (nul_notMem_cons (by decide) path.plain)

theorem nul_notMem_cut (cut : Cut) : '\x00' ∉ cut.line := by
  cases cut with
  | withoutOrig change => exact nul_notMem_change change
  | short kind fields few =>
    refine nul_notMem_cons (by cases kind <;> decide) fun h => ?_
    obtain ⟨field, -, h⟩ := mem_flatMap.1 h
    exact nul_notMem_cons (by decide) field.plain.2 h

theorem parse_renderLines {lines : List (List Char)} (h : ∀ line ∈ lines, '\x00' ∉ line) :
    parsePorcelainV2 (renderLines lines) = parseRecords {} (lines ++ [[]]) := by
  have hbytes : renderLines lines = (lines.map toUtf8).flatMap (· ++ [0]) := by
    rw [renderLines, flatMap_map]
  have hplain : ∀ field ∈ lines.map toUtf8, (0 : UInt8) ∉ field := by
    intro field hfield
    obtain ⟨line, hline, rfl⟩ := mem_map.1 hfield
    exact notMem_toUtf8 (c := '\x00') (by decide) rfl (h line hline)
  have hlossy : lossy ∘ toUtf8 = id := funext lossy_toUtf8
  rw [parsePorcelainV2, hbytes, pieces_terminated hplain, map_append, map_map, hlossy, map_id]
  rfl

/-- **The records of a report**, read one after the other. -/
theorem parseRecords_run (records : List Record) (s : ParsedStatus) (rest : List (List Char)) :
    parseRecords s (records.flatMap Record.lines ++ rest) = parseRecords (records.foldl ParsedStatus.add s) rest := by
  induction records generalizing s with
  | nil => rfl
  | cons record records ih =>
    rw [flatMap_cons, append_assoc, parseRecords_lines, ih, foldl_cons]

theorem parseRecords_end (s : ParsedStatus) : parseRecords s [[]] = .ok s := if_pos rfl

theorem parse_report (records : List Record) :
    parsePorcelainV2 (renderLines (records.flatMap Record.lines)) = .ok (reported records) := by
  rw [parse_renderLines, parseRecords_run, foldl_add_reported, parseRecords_end]
  intro line h
  obtain ⟨record, -, h⟩ := mem_flatMap.1 h
  exact nul_notMem_lines record line h

theorem parse_cut (records : List Record) (cut : Cut) :
    parsePorcelainV2 (renderLines (records.flatMap Record.lines ++ [cut.line])) =
      parseRecords (reported records) [cut.line, []] := by
  rw [parse_renderLines, append_assoc, parseRecords_run, foldl_add_reported]
  · rfl
  · intro line h
    rcases mem_append.1 h with h | h
    · obtain ⟨record, -, h⟩ := mem_flatMap.1 h
      exact nul_notMem_lines record line h
    · rw [mem_singleton.1 h]
      exact nul_notMem_cut cut

/-- **A rename without its original path** is read as one whose original path is empty. -/
theorem cut_withoutOrig (records : List Record) (change : Renamed) :
    ∃ s, parsePorcelainV2 (renderLines (records.flatMap Record.lines ++ [(Cut.withoutOrig change).line])) = .ok s := by
  rw [parse_cut]
  exact ⟨_, (parseRecords_change (reported records) change [] []).trans rfl⟩

theorem count_short (kind : Kind) (fields : List Field) :
    (kind.char :: fields.flatMap fun field => ' ' :: field.text).count ' ' = fields.length := by
  have hkind : kind.char ≠ ' ' := by cases kind <;> decide
  rw [count_cons_of_ne hkind]
  induction fields with
  | nil => rfl
  | cons field fields ih =>
    rw [flatMap_cons, count_append, count_cons_self, count_eq_zero_of_not_mem field.plain.1, ih,
      length_cons]
    omega

theorem changedFields_short (fieldCount : Nat) {line : List Char} (h : line.count ' ' < fieldCount) :
    ∃ e, changedFields fieldCount line = .error e := by
  have hlength := length_splitn_le ' ' (fieldCount + 1) line
  exact ⟨_, if_pos (by omega)⟩

theorem conflictedEntry_short {line : List Char} (h : line.count ' ' < 10) : ∃ e, conflictedEntry line = .error e := by
  have hlength := length_splitn_le ' ' 11 line
  have hnone : (splitn ' ' 11 line)[10]? = none := getElem?_eq_none (by omega)
  unfold conflictedEntry
  simp only [hnone]
  cases (splitn ' ' 11 line)[1]?.filter fun code => (toUtf8 code).length = 2 with
  | none | some => exact ⟨_, rfl⟩

theorem cut_short (records : List Record) (kind : Kind) (fields : List Field)
    (few : fields.length + 1 < kind.fieldCount) :
    ∃ e, parsePorcelainV2 (renderLines (records.flatMap Record.lines ++ [(Cut.short kind fields few).line])) =
      .error e := by
  rw [parse_cut, Cut.line]
  have hcount := count_short kind fields
  cases kind with
  | ordinary =>
    obtain ⟨e, he⟩ := changedFields_short 8 (hcount ▸ Nat.lt_of_succ_lt_succ few)
    exact ⟨e, (parseRecords_ordinary _ _ _).trans (congrArg (Except.bind · _) he)⟩
  | renamed =>
    obtain ⟨e, he⟩ := changedFields_short 9 (hcount ▸ Nat.lt_of_succ_lt_succ few)
    exact ⟨e, (parseRecords_renamed _ _ _ _).trans (congrArg (Except.bind · _) he)⟩
  | unmerged =>
    obtain ⟨e, he⟩ := conflictedEntry_short (hcount ▸ Nat.lt_of_succ_lt_succ few)
    exact ⟨e, (parseRecords_unmerged _ _ _).trans (congrArg (Except.bind · _) he)⟩
  | untracked =>
    obtain rfl : fields = [] := eq_nil_of_length_eq_zero (by
      have hfew : fields.length + 1 < 2 := few
      omega)
    refine ⟨_, (parseRecords_untracked _ _ _).trans (congrArg (Except.bind · _) (if_neg fun h => ?_))⟩
    exact absurd h.1 (by decide)

/-- **When a report is settled**: always, unless it is cut between the path and the original path of a rename. -/
theorem reportSettled_iff (records : List Record) (cut : Option Cut) :
    ReportSettled records cut ↔ ∀ change, cut ≠ some (.withoutOrig change) := by
  cases cut with
  | none => exact ⟨fun _ change => (Option.some_ne_none _).symm, fun _ => parse_report records⟩
  | some cut =>
    cases cut with
    | withoutOrig change =>
      constructor
      · intro ⟨e, he⟩
        obtain ⟨s, hs⟩ := cut_withoutOrig records change
        rw [hs] at he
        cases he
      · exact fun h => absurd rfl (h change)
    | short kind fields few =>
      refine ⟨fun _ change h => ?_, fun _ => cut_short records kind fields few⟩
      cases h

def exampleRename : Renamed :=
  let field : Field := ⟨['0'], by decide⟩
  ⟨.renamed, .unchanged, ⟨field, field, field, field, field, field⟩, field, ⟨['b'], by decide, by decide⟩,
    ⟨['a'], by decide, by decide⟩⟩

theorem cut_rename_read : ¬ ReportSettled [] (some (.withoutOrig exampleRename)) := by
  intro ⟨e, he⟩
  cases he

end Git
end Yuzora
