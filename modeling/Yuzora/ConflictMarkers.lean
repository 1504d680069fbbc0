import Mathlib.Data.List.Forall2
import Yuzora.Utf16
/-!
# ConflictMarkers — conflict blocks in an edited document

The scan walks over the lines of a text.  What it finds depends only on where the lines begin and which of them are markers
(`scanFrom_eq`, `scanRows_filter`), so an edit that touches neither needs no new scan.
-/
namespace Yuzora
namespace ConflictMarkers

open List
open Utf16 (Text)

/-! ## The scan -/

structure ConflictBlock where
  «from» : Nat
  «to» : Nat
  oursFrom : Nat
  oursTo : Nat
  theirsFrom : Nat
  theirsTo : Nat
deriving DecidableEq

/-- `<<<<<<<` -/
def startMark : Text := List.replicate 7 60

/-- `=======` -/
def splitMark : Text := List.replicate 7 61

/-- `>>>>>>>` -/
def endMark : Text := List.replicate 7 62

/-- `|||||||` -/
def baseMark : Text := List.replicate 7 124

variable (docText : Text)

variable (pos : Nat)

/-- Where the line at `pos` ends. -/
def newlineFrom : Option Nat := ((docText.drop pos).idxOf? 10).map (pos + ·)

def nextLineStart : Nat := ((newlineFrom docText pos).getD docText.length) + 1

def lineFrom : Text :=
  (docText.drop pos).take ((newlineFrom docText pos).getD docText.length - pos)

/-- How far a block is read: before its separator, with the end of ours if there is a base section, or behind it. -/
inductive Reading
  | ours (oursTo : Option Nat)
  | theirs (oursTo theirsFrom : Nat)

theorem nextLineStart_gt {pos : Nat} (h : pos ≤ docText.length) : pos < nextLineStart docText pos := by
  rw [nextLineStart, newlineFrom]
  cases (docText.drop pos).idxOf? 10 with
  | none => exact Nat.lt_succ_of_le h
  | some i =>
    show pos < pos + i + 1
    omega

def parseBlock (docText : Text) (startPos oursFrom pos : Nat) (reading : Reading) : Option (ConflictBlock × Nat) :=
  if _h : pos ≤ docText.length then
    match reading with
    | .ours oursTo =>
      if baseMark <+: lineFrom docText pos then
        parseBlock docText startPos oursFrom (nextLineStart docText pos) (.ours (some (oursTo.getD pos)))
      else if splitMark <+: lineFrom docText pos then
        parseBlock docText startPos oursFrom (nextLineStart docText pos)
          (.theirs (oursTo.getD pos) (nextLineStart docText pos))
      else if startMark <+: lineFrom docText pos then none
      else parseBlock docText startPos oursFrom (nextLineStart docText pos) reading
    | .theirs oursTo theirsFrom =>
      if endMark <+: lineFrom docText pos then
        some (⟨startPos, min (nextLineStart docText pos) docText.length, oursFrom, oursTo, theirsFrom, pos⟩,
          nextLineStart docText pos)
      else if startMark <+: lineFrom docText pos then none
      else parseBlock docText startPos oursFrom (nextLineStart docText pos) reading
  else none
termination_by docText.length + 1 - pos
decreasing_by
  all_goals
    have := nextLineStart_gt docText _h
    omega

theorem parseBlock_next {docText : Text} {startPos oursFrom pos : Nat} {reading : Reading} {out : ConflictBlock × Nat}
    (h : parseBlock docText startPos oursFrom pos reading = some out) : pos < out.2 := by
  fun_induction parseBlock docText startPos oursFrom pos reading with
  | case1 _ hpos _ _ ih | case2 _ hpos _ _ _ ih => exact (nextLineStart_gt docText hpos).trans (ih h)
  | case3 | case6 | case8 => cases h
  | case4 _ hpos _ _ _ _ ih | case7 _ hpos _ _ _ _ ih => exact (nextLineStart_gt docText hpos).trans (ih h)
  | case5 pos hpos =>
    cases h
    exact nextLineStart_gt docText hpos

/-- The loop of `scanConflicts`. -/
def scanFrom (docText : Text) (pos : Nat) : List ConflictBlock :=
  if _h : pos ≤ docText.length then
    if startMark <+: lineFrom docText pos then
      match _hparsed : parseBlock docText pos (nextLineStart docText pos) (nextLineStart docText pos) (.ours none) with
      | some (block, next) => block :: scanFrom docText next
      | none => scanFrom docText (nextLineStart docText pos)
    else scanFrom docText (nextLineStart docText pos)
  else []
termination_by docText.length + 1 - pos
decreasing_by
  · have h1 := nextLineStart_gt docText _h
    have h2 : nextLineStart docText pos < next := parseBlock_next _hparsed
    omega
  · have := nextLineStart_gt docText _h
    omega
  · have := nextLineStart_gt docText _h
    omega

def scanConflicts : List ConflictBlock := scanFrom docText 0

/-! ## Lines -/

/-- A line of a document, without its line break. -/
structure Row where
  start : Nat
  line : Text

def Row.stop (row : Row) : Nat := row.start + row.line.length

def Row.next (row : Row) : Nat := row.stop + 1

def rowsOf (base : Nat) : List Text → List Row
  | [] => []
  | line :: lines => ⟨base, line⟩ :: rowsOf (base + line.length + 1) lines

/-- The lines of a text that stands at `base`. -/
def rows (base : Nat) (text : Text) : List Row := rowsOf base (text.splitOn 10)

def rowsFrom : List Row := if pos ≤ docText.length then rows pos (docText.drop pos) else []

section Rows
variable {base : Nat} {text : Text} {row : Row}

theorem rows_single (h : 10 ∉ text) : rows base text = [⟨base, text⟩] := by
  rw [rows, splitOn_eq_singleton h]
  rfl

theorem rowsOf_append (base : Nat) (a b : List Text) :
    rowsOf base (a ++ b) = rowsOf base a ++ rowsOf (base + (a.map (·.length + 1)).sum) b := by
  induction a generalizing base with
  | nil => rfl
  | cons line a ih =>
    rw [cons_append, rowsOf, rowsOf, ih, map_cons, sum_cons]
    simp only [cons_append, Nat.add_assoc]

theorem splitOn_width (text : Text) : ((text.splitOn 10).map (·.length + 1)).sum = text.length + 1 := by
  induction text with
  | nil => rfl
  | cons c text ih =>
    rw [splitOn_cons_eq_if_modifyHead]
    by_cases hc : (c == 10) = true
    · rw [if_pos hc, map_cons, sum_cons, ih]
      simp only [length_nil, length_cons]
      omega
    · rw [if_neg hc]
      cases hs : text.splitOn 10 with
      | nil => exact absurd hs (splitOn_ne_nil 10 text)
      | cons line lines =>
        rw [hs, map_cons, sum_cons] at ih
        rw [modifyHead_cons, map_cons, sum_cons, length_cons, length_cons]
        omega

theorem rows_append (base : Nat) (a b : Text) : rows base (a ++ 10 :: b) = rows base a ++ rows (base + a.length + 1) b := by
  rw [rows, splitOn_append_cons_self, rowsOf_append, splitOn_width, ← Nat.add_assoc]
  rfl

theorem line_cases (text : Text) : 10 ∉ text ∨ ∃ a b, text = a ++ 10 :: b ∧ 10 ∉ a := by
  by_cases h : 10 ∈ text
  · exact .inr (eq_append_cons_of_mem h)
  · exact .inl h

theorem rows_first {a b : Text} (h : 10 ∉ a) : rows base (a ++ 10 :: b) = ⟨base, a⟩ :: rows (base + a.length + 1) b := by
  rw [rows_append, rows_single h]
  rfl

/-- Where a line stands in its text. -/
structure RowOf (base : Nat) (text : Text) (row : Row) (before after : Text) : Prop where
  text_eq : text = before ++ (row.line ++ after)
  start : row.start = base + before.length
  plain : 10 ∉ row.line
  first : before = [] ∨ ∃ more, before = more ++ [10]
  last : after = [] ∨ ∃ more, after = 10 :: more

theorem rowOf (h : row ∈ rows base text) : ∃ before after, RowOf base text row before after := by
  induction hn : text.length using Nat.strongRecOn generalizing text base with
  | _ n ih =>
  subst hn
  rcases line_cases text with hplain | ⟨a, b, rfl, hplain⟩
  · rw [rows_single hplain] at h
    obtain rfl := mem_singleton.1 h
    exact ⟨[], [], (append_nil _).symm, rfl, hplain, .inl rfl, .inl rfl⟩
  · rw [rows_first hplain] at h
    rcases mem_cons.1 h with rfl | h
    · exact ⟨[], 10 :: b, rfl, rfl, hplain, .inl rfl, .inr ⟨b, rfl⟩⟩
    · obtain ⟨before, after, hrow⟩ := ih b.length (by simp; omega) h rfl
      refine ⟨a ++ 10 :: before, after, ?_, ?_, hrow.plain, .inr ?_, hrow.last⟩
      · rw [hrow.text_eq]
        simp
      · rw [hrow.start]
        simp only [length_append, length_cons]
        omega
      · rcases hrow.first with rfl | ⟨more, rfl⟩
        · exact ⟨a, rfl⟩
        · exact ⟨a ++ 10 :: more, by simp⟩

theorem RowOf.stop_le {before after : Text} (h : RowOf base text row before after) :
    row.stop + after.length = base + text.length := by
  rw [Row.stop, h.start, h.text_eq]
  simp only [length_append]
  omega

theorem row_bounds (h : row ∈ rows base text) : base ≤ row.start ∧ row.stop ≤ base + text.length := by
  obtain ⟨before, after, hrow⟩ := rowOf h
  have := hrow.stop_le
  have := hrow.start
  omega

theorem row_plain {i : Nat} (h : row ∈ rows base text) (hi : text[i]? = some 10) :
    base + i < row.start ∨ row.stop ≤ base + i := by
  obtain ⟨before, after, hrow⟩ := rowOf h
  by_contra hin
  have hstart := hrow.start
  rw [Row.stop] at hin
  have hin' : before.length ≤ i ∧ i - before.length < row.line.length := by omega
  rw [hrow.text_eq, getElem?_append_right hin'.1, getElem?_append_left hin'.2] at hi
  exact hrow.plain (mem_of_getElem? hi)

theorem rowsOf_sorted (base : Nat) (lines : List Text) :
    (rowsOf base lines).Pairwise (fun a b => a.next ≤ b.start) ∧ ∀ row ∈ rowsOf base lines, base ≤ row.start := by
  induction lines generalizing base with
  | nil => exact ⟨.nil, nofun⟩
  | cons line lines ih =>
    obtain ⟨hsorted, hge⟩ := ih (base + line.length + 1)
    refine ⟨pairwise_cons.2 ⟨hge, hsorted⟩, fun row h => ?_⟩
    rcases mem_cons.1 h with rfl | h
    · exact Nat.le_refl _
    · have := hge row h
      omega

theorem rows_sorted (base : Nat) (text : Text) : (rows base text).Pairwise (fun a b => a.next ≤ b.start) :=
  (rowsOf_sorted base _).1

theorem rows_order {i j : Nat} (hi : i < (rows base text).length) (hj : j < (rows base text).length) (h : i < j) :
    (rows base text)[i].next ≤ (rows base text)[j].start :=
  pairwise_iff_getElem.1 (rows_sorted base text) i j hi hj h

theorem row_unique {a b : Row} {pos : Nat} (ha : a ∈ rows base text) (hb : b ∈ rows base text)
    (hpa : a.start ≤ pos ∧ pos ≤ a.stop) (hpb : b.start ≤ pos ∧ pos ≤ b.stop) : a = b := by
  obtain ⟨i, hi, rfl⟩ := getElem_of_mem ha
  obtain ⟨j, hj, rfl⟩ := getElem_of_mem hb
  have hnext : ∀ row : Row, row.next = row.stop + 1 := fun _ => rfl
  by_cases hij : i = j
  · subst hij
    rfl
  · by_cases hlt : i < j
    · have := rows_order hi hj hlt
      rw [hnext] at this
      omega
    · have := rows_order hj hi (by omega)
      rw [hnext] at this
      omega

theorem row_at {pos : Nat} (h : base ≤ pos ∧ pos ≤ base + text.length) :
    ∃ row ∈ rows base text, row.start ≤ pos ∧ pos ≤ row.stop := by
  induction hn : text.length using Nat.strongRecOn generalizing text base with
  | _ n ih =>
  subst hn
  rcases line_cases text with hplain | ⟨a, b, rfl, hplain⟩
  · rw [rows_single hplain]
    exact ⟨_, mem_singleton_self _, h⟩
  · rw [rows_first hplain]
    simp only [length_append, length_cons] at h ih
    by_cases hpos : pos ≤ base + a.length
    · exact ⟨_, mem_cons_self, h.1, hpos⟩
    · have hb : base + a.length + 1 ≤ pos ∧ pos ≤ base + a.length + 1 + b.length := by omega
      obtain ⟨row, hmem, hrow⟩ := ih b.length (by omega) hb rfl
      exact ⟨row, mem_cons_of_mem _ hmem, hrow⟩

end Rows

/-! ## The scan goes from line to line -/

section Scan
variable {docText : Text} {pos : Nat} {rest : List Row}

theorem idxOf?_append {a : Text} (h : 10 ∉ a) (b : Text) : (a ++ 10 :: b).idxOf? 10 = some a.length := by
  induction a with
  | nil => rfl
  | cons c a ih =>
    have hc : ¬ (c == 10) = true := by
      intro hc
      exact h (mem_cons.2 (.inl (beq_iff_eq.1 hc).symm))
    rw [cons_append, idxOf?_cons, if_neg hc, ih fun hm => h (mem_cons_of_mem _ hm)]
    rfl

theorem rowsFrom_cons (h : pos ≤ docText.length) :
    rowsFrom docText pos = ⟨pos, lineFrom docText pos⟩ :: rowsFrom docText (nextLineStart docText pos) ∧
      nextLineStart docText pos = pos + (lineFrom docText pos).length + 1 := by
  have hdrop : (docText.drop pos).length = docText.length - pos := length_drop ..
  rw [rowsFrom, if_pos h, lineFrom, nextLineStart, newlineFrom]
  rcases line_cases (docText.drop pos) with hplain | ⟨a, b, heq, hplain⟩
  · rw [idxOf?_eq_none_iff.2 hplain, rows_single hplain]
    simp only [Option.map_none, Option.getD_none]
    rw [take_of_length_le (by omega), rowsFrom, if_neg (by omega), hdrop]
    exact ⟨rfl, by omega⟩
  · have hidx : (docText.drop pos).idxOf? 10 = some a.length := heq ▸ idxOf?_append hplain b
    rw [hidx, heq, rows_first hplain]
    have hb : docText.drop (pos + a.length + 1) = b := by
      rw [Nat.add_assoc, ← drop_drop, heq, ← drop_drop, drop_left]
      rfl
    rw [heq, length_append, length_cons] at hdrop
    simp only [Option.map_some, Option.getD_some]
    rw [Nat.add_sub_cancel_left, take_left, rowsFrom, if_pos (by omega), hb]
    exact ⟨rfl, rfl⟩

theorem rowsFrom_of_lt (h : docText.length < pos) : rowsFrom docText pos = [] := if_neg (by omega)

/-- `parseBlock` on lines, for a document of `len` characters. -/
def parseRows (len startPos oursFrom : Nat) : Reading → List Row → Option (ConflictBlock × List Row)
  | _, [] => none
  | .ours oursTo, row :: rest =>
    if baseMark <+: row.line then parseRows len startPos oursFrom (.ours (some (oursTo.getD row.start))) rest
    else if splitMark <+: row.line then
      parseRows len startPos oursFrom (.theirs (oursTo.getD row.start) row.next) rest
    else if startMark <+: row.line then none
    else parseRows len startPos oursFrom (.ours oursTo) rest
  | .theirs oursTo theirsFrom, row :: rest =>
    if endMark <+: row.line then
      some (⟨startPos, min row.next len, oursFrom, oursTo, theirsFrom, row.start⟩, rest)
    else if startMark <+: row.line then none
    else parseRows len startPos oursFrom (.theirs oursTo theirsFrom) rest

theorem parseRows_length {len startPos oursFrom : Nat} {reading : Reading} {lines : List Row}
    {out : ConflictBlock × List Row} (h : parseRows len startPos oursFrom reading lines = some out) :
    out.2.length < lines.length := by
  fun_induction parseRows len startPos oursFrom reading lines with
  | case1 | case4 | case7 => cases h
  | case2 _ _ _ _ ih | case3 _ _ _ _ _ ih | case5 _ _ _ _ _ _ ih | case8 _ _ _ _ _ _ ih =>
    exact (ih h).trans (Nat.lt_succ_self _)
  | case6 =>
    cases h
    exact Nat.lt_succ_self _

def scanRows (len : Nat) : List Row → List ConflictBlock
  | [] => []
  | row :: rest =>
    if startMark <+: row.line then
      match _hparsed : parseRows len row.start row.next (.ours none) rest with
      | some (block, next) => block :: scanRows len next
      | none => scanRows len rest
    else scanRows len rest
termination_by lines => lines.length
decreasing_by
  · have h : next.length < rest.length := parseRows_length _hparsed
    simp only [List.length_cons]
    omega
  · exact Nat.lt_succ_self _
  · exact Nat.lt_succ_self _

theorem scanRows_nil (len : Nat) : scanRows len [] = [] := by
  rw [scanRows]

theorem scanRows_start {len : Nat} {row : Row} (h : startMark <+: row.line) :
    scanRows len (row :: rest) = (parseRows len row.start row.next (.ours none) rest).elim (scanRows len rest)
      fun out => out.1 :: scanRows len out.2 := by
  rw [scanRows, if_pos h]
  split
  · rename_i heq
    rw [heq]
    rfl
  · rename_i heq
    rw [heq]
    rfl

theorem scanRows_skip {len : Nat} {row : Row} (h : ¬ startMark <+: row.line) :
    scanRows len (row :: rest) = scanRows len rest := by
  rw [scanRows, if_neg h]

theorem parseRows_eq (startPos oursFrom : Nat) (reading : Reading) :
    parseRows docText.length startPos oursFrom reading (rowsFrom docText pos) =
      (parseBlock docText startPos oursFrom pos reading).map fun out => (out.1, rowsFrom docText out.2) := by
  fun_induction parseBlock docText startPos oursFrom pos reading with
  | case1 pos hpos oursTo hb ih =>
    rw [(rowsFrom_cons hpos).1, parseRows, if_pos hb]
    exact ih
  | case2 pos hpos oursTo hb hs ih =>
    rw [(rowsFrom_cons hpos).1, parseRows, if_neg hb, if_pos hs]
    exact (rowsFrom_cons hpos).2 ▸ ih
  | case3 pos hpos oursTo hb hs hm => rw [(rowsFrom_cons hpos).1, parseRows, if_neg hb, if_neg hs, if_pos hm]; rfl
  | case4 pos hpos oursTo hb hs hm ih =>
    rw [(rowsFrom_cons hpos).1, parseRows, if_neg hb, if_neg hs, if_neg hm]
    exact ih
  | case5 pos hpos oursTo theirsFrom he =>
    rw [(rowsFrom_cons hpos).1, parseRows, if_pos he, (rowsFrom_cons hpos).2]
    rfl
  | case6 pos hpos oursTo theirsFrom he hm => rw [(rowsFrom_cons hpos).1, parseRows, if_neg he, if_pos hm]; rfl
  | case7 pos hpos oursTo theirsFrom he hm ih =>
    rw [(rowsFrom_cons hpos).1, parseRows, if_neg he, if_neg hm]
    exact ih
  | case8 pos reading hpos =>
    rw [rowsFrom_of_lt (by omega), parseRows]
    rfl

theorem scanFrom_eq (docText : Text) (pos : Nat) :
    scanFrom docText pos = scanRows docText.length (rowsFrom docText pos) := by
  fun_induction scanFrom docText pos with
  | case1 pos hpos hm _ _ hparsed ih | case2 pos hpos hm hparsed ih =>
    have h := @parseRows_eq docText (nextLineStart docText pos) pos (nextLineStart docText pos) (.ours none)
    rw [hparsed] at h
    rw [(rowsFrom_cons hpos).1, scanRows_start hm]
    show _ = Option.elim (parseRows docText.length pos (pos + (lineFrom docText pos).length + 1) _ _) _ _
    rw [← (rowsFrom_cons hpos).2, h, ih]
    rfl
  | case3 pos hpos hm ih => rw [(rowsFrom_cons hpos).1, scanRows_skip hm, ih]
  | case4 pos hpos => rw [rowsFrom_of_lt (by omega), scanRows_nil]

/-- **The scan reads the lines.** -/
theorem scanConflicts_eq (docText : Text) : scanConflicts docText = scanRows docText.length (rows 0 docText) := by
  rw [scanConflicts, scanFrom_eq]
  rfl

end Scan

/-! ## Only the markers matter -/

def markers : List Text := [startMark, splitMark, endMark, baseMark]

def isMarker (row : Row) : Bool := decide (row.line.take 7 ∈ markers)

def markOf (line : Text) : Option Text := if line.take 7 ∈ markers then some (line.take 7) else none

theorem marker_iff {mark : Text} (h : mark ∈ markers) (line : Text) : mark <+: line ↔ line.take 7 = mark := by
  have hall : ∀ mark ∈ markers, mark.length = 7 := by decide
  have hlen := hall mark h
  rw [prefix_iff_eq_take, hlen]
  exact eq_comm

theorem isMarker_of {mark : Text} {row : Row} (hm : mark ∈ markers) (h : mark <+: row.line) : isMarker row = true := by
  rw [isMarker, (marker_iff hm _).1 h]
  exact decide_eq_true hm

theorem parseRows_filter (len startPos oursFrom : Nat) (reading : Reading) (lines : List Row) :
    parseRows len startPos oursFrom reading (lines.filter isMarker) =
      (parseRows len startPos oursFrom reading lines).map fun out => (out.1, out.2.filter isMarker) := by
  fun_induction parseRows len startPos oursFrom reading lines with
  | case1 => rw [filter_nil, parseRows]; rfl
  | case2 oursTo row rest hb ih =>
    rw [filter_cons_of_pos (isMarker_of (by decide) hb), parseRows, if_pos hb]
    exact ih
  | case3 oursTo row rest hb hs ih =>
    rw [filter_cons_of_pos (isMarker_of (by decide) hs), parseRows, if_neg hb, if_pos hs]
    exact ih
  | case4 oursTo row rest hb hs hm =>
    rw [filter_cons_of_pos (isMarker_of (by decide) hm), parseRows, if_neg hb, if_neg hs, if_pos hm]
    rfl
  | case5 oursTo row rest hb hs hm ih =>
    by_cases hmark : isMarker row = true
    · rw [filter_cons_of_pos hmark, parseRows, if_neg hb, if_neg hs, if_neg hm]
      exact ih
    · rw [filter_cons_of_neg hmark]
      exact ih
  | case6 oursTo theirsFrom row rest he =>
    rw [filter_cons_of_pos (isMarker_of (by decide) he), parseRows, if_pos he]
    rfl
  | case7 oursTo theirsFrom row rest he hm =>
    rw [filter_cons_of_pos (isMarker_of (by decide) hm), parseRows, if_neg he, if_pos hm]
    rfl
  | case8 oursTo theirsFrom row rest he hm ih =>
    by_cases hmark : isMarker row = true
    · rw [filter_cons_of_pos hmark, parseRows, if_neg he, if_neg hm]
      exact ih
    · rw [filter_cons_of_neg hmark]
      exact ih

/-- **Lines that are no markers do not matter to the scan.** -/
theorem scanRows_filter (len : Nat) (lines : List Row) : scanRows len (lines.filter isMarker) = scanRows len lines := by
  induction hn : lines.length using Nat.strongRecOn generalizing lines with
  | _ n ih =>
  subst hn
  cases lines with
  | nil => rfl
  | cons row rest =>
    by_cases hm : startMark <+: row.line
    · have hparsed := parseRows_filter len row.start row.next (.ours none) rest
      rw [filter_cons_of_pos (isMarker_of (by decide) hm), scanRows_start hm, scanRows_start hm, hparsed]
      cases hp : parseRows len row.start row.next (.ours none) rest with
      | none => exact ih rest.length (Nat.lt_succ_self _) rest rfl
      | some out =>
        have := parseRows_length hp
        exact congrArg (out.1 :: ·) (ih out.2.length (by rw [length_cons]; omega) out.2 rfl)
    · rw [scanRows_skip hm, ← ih rest.length (Nat.lt_succ_self _) rest rfl]
      by_cases hmark : isMarker row = true
      · rw [filter_cons_of_pos hmark, scanRows_skip hm]
      · rw [filter_cons_of_neg hmark]

/-! ## The editor's documents -/

/-- A document of the editor at an edit: the characters that are kept and the pieces that are replaced, in order. -/
inductive Edit
  | keep (unit : Nat)
  | change (deleted inserted : Text)

def Edit.before : Edit → Text
  | .keep unit => [unit]
  | .change deleted _ => deleted

def Edit.after : Edit → Text
  | .keep unit => [unit]
  | .change _ inserted => inserted

variable (edits : List Edit)

def startDoc : Text := edits.flatMap Edit.before
def newDoc : Text := edits.flatMap Edit.after

def docChanged : Bool := edits.any fun edit =>
  match edit with
  | .keep _ => false
  | .change _ _ => true

structure ChangedRange where
  fromA : Nat
  toA : Nat
  «from» : Nat
  «to» : Nat

/-- `ChangeSet.iterChangedRanges`: pieces that touch each other are one range. -/
def changedRanges : Option ChangedRange → Nat → Nat → List Edit → List ChangedRange
  | opened, _, _, [] => opened.toList
  | opened, posA, posB, .keep _ :: edits => opened.toList ++ changedRanges none (posA + 1) (posB + 1) edits
  | opened, posA, posB, .change deleted inserted :: edits =>
    changedRanges
      (some ⟨opened.elim posA (·.fromA), posA + deleted.length, opened.elim posB (·.from), posB + inserted.length⟩)
      (posA + deleted.length) (posB + inserted.length) edits

/-- What to do with a position whose surroundings are deleted. -/
inductive MapMode
  | simple
  | trackBefore
deriving DecidableEq

/-- `ChangeSet.mapPos` -/
def mapPosFrom (pos : Nat) (assoc : Int) (mode : MapMode) : Nat → Nat → List Edit → Option Nat
  | _, posB, [] => some posB
  | posA, posB, .keep _ :: edits =>
    if posA + 1 > pos then some (posB + (pos - posA)) else mapPosFrom pos assoc mode (posA + 1) (posB + 1) edits
  | posA, posB, .change deleted inserted :: edits =>
    if mode = .trackBefore ∧ posA + deleted.length ≥ pos ∧ posA < pos then none
    else if posA + deleted.length > pos ∨ (posA + deleted.length = pos ∧ assoc < 0 ∧ deleted.length = 0) then
      some (if pos = posA ∨ assoc < 0 then posB else posB + inserted.length)
    else mapPosFrom pos assoc mode (posA + deleted.length) (posB + inserted.length) edits

def mapPos (pos : Nat) (assoc : Int) (mode : MapMode) : Option Nat :=
  mapPosFrom pos assoc mode 0 0 edits

variable (doc : Text)

/-- `Text.lineAt`, the number of the line; the first line is number 0. -/
def lineNumberAt (pos : Nat) : Nat := ((rows 0 doc).takeWhile fun row => row.next ≤ pos).length

/-- `Text.line` -/
def docLine (number : Nat) : Row := (rows 0 doc).getD number ⟨doc.length, []⟩

def lineAt (pos : Nat) : Row := docLine doc (lineNumberAt doc pos)

/-! ## The field -/

def markerPrefix (start stop : Nat) : Option Text :=
  let found := (doc.drop start).take (min stop (start + 7) - start)
  if found ∈ markers then some found else none

def hasMarker (start stop : Nat) : Bool :=
  let first := lineNumberAt doc start
  let last := lineNumberAt doc stop
  if last - first > 1000 then true
  else (List.range' first (last + 1 - first)).any fun number =>
    (markerPrefix doc (docLine doc number).start (docLine doc number).stop).isSome

def asksScan (startDoc newDoc : Text) (hasDecorations : Bool) (range : ChangedRange) : Bool :=
  if hasDecorations then
    let before := lineAt startDoc range.fromA
    let after := lineAt newDoc range.from
    decide (range.toA > before.stop) || decide (range.to > after.stop) ||
      decide (markerPrefix startDoc before.start before.stop ≠ markerPrefix newDoc after.start after.stop)
  else hasMarker startDoc range.fromA range.toA || hasMarker newDoc range.from range.to

def needsConflictScan (hasDecorations : Bool) : Bool :=
  (changedRanges none 0 0 edits).any (asksScan (startDoc edits) (newDoc edits) hasDecorations)

inductive Decoration
  | widget (index : Nat)
  | marker
  | ours
  | theirs

def decorationOf (block : ConflictBlock) (line : Row) : Decoration :=
  if block.oursFrom ≤ line.start ∧ line.start < block.oursTo then .ours
  else if block.theirsFrom ≤ line.start ∧ line.start < block.theirsTo then .theirs
  else .marker

/-- The widget of a block, and a decoration for each of its lines. -/
def blockDecorations (block : ConflictBlock) (index : Nat) : List (Nat × Decoration) :=
  ((lineAt doc block.from).start, .widget index) ::
    (((rows 0 doc).drop (lineNumberAt doc block.from)).takeWhile (·.start < block.to)).map fun line =>
      (line.start, decorationOf block line)

def buildDecorations : List (Nat × Decoration) :=
  (scanConflicts doc).zipIdx.flatMap fun entry => blockDecorations doc entry.1 entry.2

/-- `DecorationSet.map`, for decorations of lines. -/
def mapDecorations (deco : List (Nat × Decoration)) : List (Nat × Decoration) :=
  deco.filterMap fun entry => (mapPos edits entry.1 (-1) .trackBefore).map (·, entry.2)

/-- `conflictField.update` -/
def update (deco : List (Nat × Decoration)) (edits : List Edit) : List (Nat × Decoration) :=
  if docChanged edits = false then deco
  else if needsConflictScan edits (!deco.isEmpty) = false then
    (if deco.isEmpty then deco else mapDecorations edits deco)
  else buildDecorations (newDoc edits)

end ConflictMarkers
end Yuzora
