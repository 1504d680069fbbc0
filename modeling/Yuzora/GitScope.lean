import Yuzora.Table
import Yuzora.GitStatus
/-!
# GitScope — which files an operation changed

Every path of a report has one text for all its rows, and a path whose text is another one afterwards was changed.  The
texts of the rows stand between separators, and an original path may have one in it.
-/
namespace Yuzora
namespace Git

open List

/-! ## The texts -/

def UNIT_SEPARATOR : Char := '\x1f'

abbrev Fingerprints : Type := Table (List Char) (List Char)

def pushToken (map : Fingerprints) (push : List Char × List Char) : Fingerprints :=
  map.insert push.1 ((map.get push.1).elim push.2 fun existing => existing ++ UNIT_SEPARATOR :: push.2)

variable (status : List Char)

def stagedToken (origPath : Option (List Char)) : List Char :=
  'S' :: ':' :: (status ++ ':' :: origPath.getD [])

def unstagedToken (origPath : Option (List Char)) : List Char :=
  'U' :: ':' :: (status ++ ':' :: origPath.getD [])

def untrackedToken : List Char := ['?', ':']

def conflictedToken : List Char := 'C' :: ':' :: status

variable (parsed : ParsedStatus)

def statusPushes : List (List Char × List Char) :=
  parsed.staged.map (fun entry => (entry.path, stagedToken entry.status entry.origPath)) ++
    parsed.unstaged.map (fun entry => (entry.path, unstagedToken entry.status entry.origPath)) ++
    parsed.untracked.map (fun path => (path, untrackedToken)) ++
    parsed.conflicted.map fun entry => (entry.path, conflictedToken entry.status)

def statusPathFingerprint : Fingerprints := (statusPushes parsed).foldl pushToken Table.empty

def mutatedStatusPaths (before after : ParsedStatus) : List (List Char) :=
  let beforeFp := statusPathFingerprint before
  let afterFp := statusPathFingerprint after
  (beforeFp.keys.filter fun path => afterFp.get path ≠ beforeFp.get path) ++
    afterFp.keys.filter fun path => beforeFp.get path ≠ afterFp.get path

/-! ## The rows -/

/-- A row of a path. -/
inductive Row
  | staged (status : List Char) (origPath : Option (List Char))
  | unstaged (status : List Char) (origPath : Option (List Char))
  | untracked
  | conflicted (status : List Char)
deriving DecidableEq

def Row.token : Row → List Char
  | .staged status origPath => stagedToken status origPath
  | .unstaged status origPath => unstagedToken status origPath
  | .untracked => untrackedToken
  | .conflicted status => conflictedToken status

variable (path : List Char)

def rowsOf : List Row :=
  (parsed.staged.filter (·.path = path)).map (fun entry => Row.staged entry.status entry.origPath) ++
    (parsed.unstaged.filter (·.path = path)).map (fun entry => Row.unstaged entry.status entry.origPath) ++
    (parsed.untracked.filter (· = path)).map (fun _ => Row.untracked) ++
    (parsed.conflicted.filter (·.path = path)).map fun entry => Row.conflicted entry.status

def behind (rows : List Row) : List Char := rows.flatMap fun row => UNIT_SEPARATOR :: row.token

def rowsText : List Row → Option (List Char)
  | [] => none
  | row :: rows => some (row.token ++ behind rows)

/-- What a side's letters are, and that no original path is empty. -/
def Row.Carried : Row → Prop
  | .staged status origPath | .unstaged status origPath => status.length = 1 ∧ origPath ≠ some []
  | .untracked => True
  | .conflicted status => status.length = 2

/-- A status that porcelain can carry. -/
structure Carried (parsed : ParsedStatus) : Prop where
  staged : ∀ entry ∈ parsed.staged, entry.status.length = 1 ∧ entry.origPath ≠ some []
  unstaged : ∀ entry ∈ parsed.unstaged, entry.status.length = 1 ∧ entry.origPath ≠ some []
  conflicted : ∀ entry ∈ parsed.conflicted, entry.status.length = 2

def Row.extended (v : List Char) : Row → Option Row
  | .staged status origPath => some (.staged status (some (origPath.getD [] ++ UNIT_SEPARATOR :: v)))
  | .unstaged status origPath => some (.unstaged status (some (origPath.getD [] ++ UNIT_SEPARATOR :: v)))
  | .untracked | .conflicted _ => none

/-- After some rows in common, the second list has a row whose original path goes on, behind a separator, with the texts
of the rows that the first list has there. -/
def SpellsOut (rows rows' : List Row) : Prop :=
  ∃ common row later row' later' v, rows = common ++ row :: later ∧ rows' = common ++ row' :: later' ∧
    row.extended v = some row' ∧ behind later = UNIT_SEPARATOR :: v ++ behind later'

/-! ## The text of a path -/

theorem get_foldl_push (pushes : List (List Char × List Char)) (map : Fingerprints) (path : List Char) :
    (pushes.foldl pushToken map).get path =
      (((pushes.filter (·.1 = path)).map Prod.snd).foldl
        (fun text token => some (text.elim token fun existing => existing ++ UNIT_SEPARATOR :: token))
        (map.get path)) := by
  induction pushes generalizing map with
  | nil => rfl
  | cons push pushes ih =>
    rw [foldl_cons, ih]
    by_cases h : push.1 = path
    · have hfilter : (push :: pushes).filter (·.1 = path) = push :: pushes.filter (·.1 = path) :=
        filter_cons_of_pos (by simpa using h)
      rw [hfilter, map_cons, foldl_cons, pushToken, h, Table.get_insert_self]
    · have hfilter : (push :: pushes).filter (·.1 = path) = pushes.filter (·.1 = path) :=
        filter_cons_of_neg (by simpa using h)
      rw [hfilter, pushToken, Table.get_insert, if_neg fun heq => h heq.symm]

theorem pushes_rowsOf :
    ((statusPushes parsed).filter (·.1 = path)).map Prod.snd = (rowsOf parsed path).map Row.token := by
  unfold statusPushes rowsOf
  simp only [filter_append, map_append, filter_map, map_map]
  rfl

theorem behind_cons (row : Row) (rows : List Row) :
    behind (row :: rows) = UNIT_SEPARATOR :: (row.token ++ behind rows) := flatMap_cons

theorem behind_append (a b : List Row) : behind (a ++ b) = behind a ++ behind b := flatMap_append

theorem foldl_text (rows : List Row) (text : List Char) : (rows.map Row.token).foldl
      (fun text token => some (text.elim token fun existing => existing ++ UNIT_SEPARATOR :: token)) (some text) =
      some (text ++ behind rows) := by
  induction rows generalizing text with
  | nil => exact congrArg some (append_nil text).symm
  | cons row rows ih =>
    rw [map_cons, foldl_cons, Option.elim_some, ih, behind_cons, append_assoc]
    rfl

/-- **The fingerprint of a path** is the text of its rows. -/
theorem fingerprint_get :
    (statusPathFingerprint parsed).get path = rowsText (rowsOf parsed path) := by
  rw [statusPathFingerprint, get_foldl_push, pushes_rowsOf, Table.get_empty]
  cases rowsOf parsed path with
  | nil => rfl
  | cons row rows =>
    rw [map_cons, foldl_cons, Option.elim_none, foldl_text]
    rfl

variable {before after : ParsedStatus}

theorem mem_mutated {path : List Char} : path ∈ mutatedStatusPaths before after ↔
    rowsText (rowsOf before path) ≠ rowsText (rowsOf after path) := by
  unfold mutatedStatusPaths
  simp only [mem_append, mem_filter, Table.mem_keys, fingerprint_get, decide_eq_true_eq, ne_eq]
  constructor
  · rintro (⟨-, h⟩ | ⟨-, h⟩)
    · exact fun heq => h heq.symm
    · exact h
  · intro h
    by_cases hbefore : rowsText (rowsOf before path) = none
    · refine .inr ⟨Option.ne_none_iff_exists'.1 fun hafter => h (hbefore.trans hafter.symm), h⟩
    · exact .inl ⟨Option.ne_none_iff_exists'.1 hbefore, fun heq => h heq.symm⟩

/-! ## When two texts are the same -/

theorem rowsText_eq_iff (rows rows' : List Row) : rowsText rows = rowsText rows' ↔ behind rows = behind rows' := by
  cases rows with
  | nil =>
    cases rows' with
    | nil => exact ⟨fun _ => rfl, fun _ => rfl⟩
    | cons row' rows' => exact ⟨fun h => absurd h.symm (Option.some_ne_none _), fun h => absurd h (by simp [behind])⟩
  | cons row rows =>
    cases rows' with
    | nil => exact ⟨fun h => absurd h (Option.some_ne_none _), fun h => absurd h (by simp [behind])⟩
    | cons row' rows' =>
      rw [rowsText, rowsText, behind_cons, behind_cons, Option.some.injEq]
      exact ⟨fun h => by rw [h], fun h => (List.cons.inj h).2⟩

theorem side_inj {status status' orig orig' : List Char} (h : status.length = 1) (h' : status'.length = 1)
    (heq : status ++ ':' :: orig = status' ++ ':' :: orig') : status = status' ∧ orig = orig' := by
  obtain ⟨rfl, hrest⟩ := append_inj heq (h.trans h'.symm)
  exact ⟨rfl, (List.cons.inj hrest).2⟩

theorem getD_inj {a b : Option (List Char)} (ha : a ≠ some []) (hb : b ≠ some []) (h : a.getD [] = b.getD []) :
    a = b := by
  cases a with
  | none =>
    cases b with
    | none => rfl
    | some b => exact absurd (congrArg some h.symm) hb
  | some a =>
    cases b with
    | none => exact absurd (congrArg some h) ha
    | some b => exact congrArg some h

theorem getD_some {a : Option (List Char)} {b : List Char} (h : a.getD [] = b) (hb : b ≠ []) : a = some b := by
  cases a with
  | none => exact absurd h.symm hb
  | some a => exact congrArg some h

variable {row row' : Row} {v : List Char}

/-- The first characters of two tokens tell their kinds apart. -/
theorem kinds_of_head (h : row.token.head? = row'.token.head?) :
    (∃ s o s' o', row = .staged s o ∧ row' = .staged s' o') ∨ (∃ s o s' o', row = .unstaged s o ∧ row' = .unstaged s' o') ∨
      (row = .untracked ∧ row' = .untracked) ∨ ∃ s s', row = .conflicted s ∧ row' = .conflicted s' := by
  cases row <;> cases row' <;> first | exact absurd (Option.some.inj h) (by decide) | simp

theorem token_inj (h : row.Carried) (h' : row'.Carried) (heq : row.token = row'.token) : row = row' := by
  rcases kinds_of_head (congrArg List.head? heq) with
    ⟨s, o, s', o', rfl, rfl⟩ | ⟨s, o, s', o', rfl, rfl⟩ | ⟨rfl, rfl⟩ | ⟨s, s', rfl, rfl⟩
  · obtain ⟨rfl, horig⟩ := side_inj h.1 h'.1 (List.cons.inj (List.cons.inj heq).2).2
    rw [getD_inj h.2 h'.2 horig]
  · obtain ⟨rfl, horig⟩ := side_inj h.1 h'.1 (List.cons.inj (List.cons.inj heq).2).2
    rw [getD_inj h.2 h'.2 horig]
  · rfl
  · rw [(List.cons.inj (List.cons.inj heq).2).2]

theorem extended_token (h : row.extended v = some row') : row'.token = row.token ++ UNIT_SEPARATOR :: v := by
  cases row with
  | staged status orig =>
    rw [← Option.some.inj h]
    simp [Row.token, stagedToken]
  | unstaged status orig =>
    rw [← Option.some.inj h]
    simp [Row.token, unstagedToken]
  | untracked | conflicted => cases h

theorem extended_of_token (h : row.Carried) (h' : row'.Carried)
    (heq : row'.token = row.token ++ UNIT_SEPARATOR :: v) : row.extended v = some row' := by
  have hside : ∀ {status status' : List Char} {orig orig' : Option (List Char)}, status.length = 1 →
      status'.length = 1 → status' ++ ':' :: orig'.getD [] = status ++ ':' :: orig.getD [] ++ UNIT_SEPARATOR :: v →
        status = status' ∧ some (orig.getD [] ++ UNIT_SEPARATOR :: v) = orig' := by
    intro status status' orig orig' hs hs' heq
    rw [append_assoc, cons_append] at heq
    obtain ⟨rfl, horig⟩ := side_inj hs' hs heq
    exact ⟨rfl, (getD_some horig (append_ne_nil_of_right_ne_nil _ (cons_ne_nil _ _))).symm⟩
  have hhead : row'.token.head? = row.token.head? := by
    rw [heq]
    cases row <;> rfl
  rcases kinds_of_head hhead with ⟨s', o', s, o, rfl, rfl⟩ | ⟨s', o', s, o, rfl, rfl⟩ | ⟨rfl, rfl⟩ | ⟨s', s, rfl, rfl⟩
  · obtain ⟨rfl, rfl⟩ := hside h.1 h'.1 (List.cons.inj (List.cons.inj heq).2).2
    rfl
  · obtain ⟨rfl, rfl⟩ := hside h.1 h'.1 (List.cons.inj (List.cons.inj heq).2).2
    rfl
  · exact absurd (List.cons.inj (List.cons.inj heq).2).2 (cons_ne_nil _ _).symm
  · have hlength := congrArg List.length heq
    simp only [Row.token, conflictedToken, length_cons, length_append] at hlength
    have h1 : s'.length = 2 := h'
    have h2 : s.length = 2 := h
    omega

variable {rows : List Row}

theorem behind_eq_sep {c : Char} {s : List Char} (h : behind rows = c :: s) : c = UNIT_SEPARATOR := by
  cases rows with
  | nil => cases h
  | cons row rows =>
    exact (List.cons.inj h).1.symm

variable {rows' : List Row}

theorem spellsOut_text (h : SpellsOut rows rows') : rowsText rows = rowsText rows' ∧ rows ≠ rows' := by
  obtain ⟨common, row, later, row', later', v, rfl, rfl, hrow, hlater⟩ := h
  have htoken := extended_token hrow
  constructor
  · rw [rowsText_eq_iff, behind_append, behind_append, behind_cons, behind_cons, htoken, hlater, append_assoc]
  · intro heq
    have hsame : row = row' := (List.cons.inj (append_cancel_left heq)).1
    rw [← hsame] at htoken
    have hlength := congrArg List.length htoken
    rw [length_append, length_cons] at hlength
    omega

theorem spellsOut_cons (row : Row) (h : SpellsOut rows rows') : SpellsOut (row :: rows) (row :: rows') := by
  obtain ⟨common, first, later, first', later', v, rfl, rfl, hrow, hlater⟩ := h
  exact ⟨row :: common, first, later, first', later', v, rfl, rfl, hrow, hlater⟩

/-- **Rows with one text** are the same, or one of them spells the other out. -/
theorem rowsText_eq (h : ∀ row ∈ rows, row.Carried) (h' : ∀ row ∈ rows', row.Carried)
    (heq : rowsText rows = rowsText rows') : rows = rows' ∨ SpellsOut rows rows' ∨ SpellsOut rows' rows := by
  induction rows generalizing rows' with
  | nil =>
    cases rows' with
    | nil => exact .inl rfl
    | cons row' rows' => cases heq
  | cons row rows ih =>
    cases rows' with
    | nil => cases heq
    | cons row' rows' =>
      have hrow := h row mem_cons_self
      have hrow' := h' row' mem_cons_self
      have htext : row.token ++ behind rows = row'.token ++ behind rows' := Option.some.inj heq
      by_cases hsame : row = row'
      · subst hsame
        rcases ih (fun r hr => h r (mem_cons_of_mem _ hr)) (fun r hr => h' r (mem_cons_of_mem _ hr))
          ((rowsText_eq_iff _ _).2 (append_cancel_left htext)) with hrest | hrest | hrest
        · exact .inl (by rw [hrest])
        · exact .inr (.inl (spellsOut_cons row hrest))
        · exact .inr (.inr (spellsOut_cons row hrest))
      · -- the shorter of the first texts goes on with the rows behind it
        rcases append_eq_append_iff.1 htext with ⟨w, hw, hbehind⟩ | ⟨w, hw, hbehind⟩
        · cases w with
          | nil => exact absurd (token_inj hrow hrow' (by rw [hw, append_nil])) hsame
          | cons c v =>
            obtain rfl := behind_eq_sep hbehind
            exact .inr (.inl ⟨[], row, rows, row', rows', v, rfl, rfl, extended_of_token hrow hrow' hw, hbehind⟩)
        · cases w with
          | nil => exact absurd (token_inj hrow hrow' (by rw [hw, append_nil])) hsame
          | cons c v =>
            obtain rfl := behind_eq_sep hbehind
            exact .inr (.inr ⟨[], row', rows', row, rows, v, rfl, rfl, extended_of_token hrow' hrow hw, hbehind⟩)

theorem rowsOf_carried {parsed : ParsedStatus} (h : Carried parsed) (path : List Char) :
    ∀ row ∈ rowsOf parsed path, row.Carried := by
  intro row hrow
  unfold rowsOf at hrow
  simp only [mem_append, mem_map, mem_filter] at hrow
  rcases hrow with ((⟨entry, hentry, rfl⟩ | ⟨entry, hentry, rfl⟩) | ⟨_, _, rfl⟩) | ⟨entry, hentry, rfl⟩
  · exact h.staged entry hentry.1
  · exact h.unstaged entry hentry.1
  · exact True.intro
  · exact h.conflicted entry hentry.1

theorem mem_mutated_iff (hbefore : Carried before) (hafter : Carried after)
    (path : List Char) : path ∈ mutatedStatusPaths before after ↔ rowsOf before path ≠ rowsOf after path ∧
      ¬ SpellsOut (rowsOf before path) (rowsOf after path) ∧ ¬ SpellsOut (rowsOf after path) (rowsOf before path) := by
  rw [mem_mutated]
  constructor
  · intro h
    refine ⟨fun heq => h (by rw [heq]), fun hspells => h (spellsOut_text hspells).1, fun hspells => ?_⟩
    exact h (spellsOut_text hspells).1.symm
  · intro ⟨hne, hone, hother⟩ htext
    rcases rowsText_eq (rowsOf_carried hbefore path) (rowsOf_carried hafter path) htext with h | h | h
    · exact hne h
    · exact hone h
    · exact hother h

/-- **When the changed paths are exact**: unless one of the row sets of a path spells the other out. -/
theorem mutated_exact_iff {before after : ParsedStatus} (hbefore : Carried before) (hafter : Carried after) :
    (∀ path, path ∈ mutatedStatusPaths before after ↔ rowsOf before path ≠ rowsOf after path) ↔
      ∀ path, ¬ SpellsOut (rowsOf before path) (rowsOf after path) ∧
        ¬ SpellsOut (rowsOf after path) (rowsOf before path) := by
  constructor
  · intro h path
    constructor
    · intro hspells
      exact ((mem_mutated_iff hbefore hafter path).1 ((h path).2 (spellsOut_text hspells).2)).2.1 hspells
    · intro hspells
      exact ((mem_mutated_iff hbefore hafter path).1 ((h path).2 (spellsOut_text hspells).2.symm)).2.2 hspells
  · intro h path
    rw [mem_mutated_iff hbefore hafter path]
    exact ⟨fun hm => hm.1, fun hne => ⟨hne, h path⟩⟩

def renamedTwice : ParsedStatus :=
  { staged := [⟨['p'], some ['a'], ['R']⟩], unstaged := [⟨['p'], some ['a'], ['M']⟩] }

/-- A renamed file, whose original path has the row of the other in it. -/
def renamedOnce : ParsedStatus :=
  { staged := [⟨['p'], some ("a\x1fU:M:a".toList), ['R']⟩] }

theorem renamed_carried : Carried renamedTwice ∧ Carried renamedOnce := by
  refine ⟨⟨?_, ?_, ?_⟩, ⟨?_, ?_, ?_⟩⟩ <;> decide

theorem mutated_exact_renamed : (∀ path, path ∈ mutatedStatusPaths renamedTwice renamedOnce ↔
    rowsOf renamedTwice path ≠ rowsOf renamedOnce path) ↔
      ∀ path, ¬ SpellsOut (rowsOf renamedTwice path) (rowsOf renamedOnce path) ∧
        ¬ SpellsOut (rowsOf renamedOnce path) (rowsOf renamedTwice path) :=
  mutated_exact_iff renamed_carried.1 renamed_carried.2

theorem renamed_unnoticed : ¬ ∀ path, path ∈ mutatedStatusPaths renamedTwice renamedOnce ↔
    rowsOf renamedTwice path ≠ rowsOf renamedOnce path := by
  intro h
  have hrows : rowsOf renamedTwice ['p'] ≠ rowsOf renamedOnce ['p'] := by decide
  have htext : rowsText (rowsOf renamedTwice ['p']) = rowsText (rowsOf renamedOnce ['p']) := by decide
  exact mem_mutated.1 ((h ['p']).2 hrows) htext

end Git
end Yuzora
