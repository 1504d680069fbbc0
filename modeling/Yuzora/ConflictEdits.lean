import Yuzora.ConflictMarkers
/-!
# ConflictEdits — edits that need no new scan

An edit is read line by line, where a line ends at a line break that is kept.  If no new scan is asked for, what stands
between two kept line breaks is a line before and a line after with the same marker, or it has no marker at all
(`LinePair`).  So the markers move with the edit, and the blocks with them.
-/
namespace Yuzora
namespace ConflictMarkers

open List
open Utf16 (Text)

/-! ## What changed ranges cover -/

section Ranges

@[simp] theorem startDoc_append (a b : List Edit) : startDoc (a ++ b) = startDoc a ++ startDoc b := flatMap_append
@[simp] theorem newDoc_append (a b : List Edit) : newDoc (a ++ b) = newDoc a ++ newDoc b := flatMap_append

@[simp] theorem startDoc_nil : startDoc [] = [] := rfl
@[simp] theorem newDoc_nil : newDoc [] = [] := rfl

@[simp] theorem startDoc_keep (c : Nat) (edits : List Edit) : startDoc (.keep c :: edits) = c :: startDoc edits := rfl
@[simp] theorem newDoc_keep (c : Nat) (edits : List Edit) : newDoc (.keep c :: edits) = c :: newDoc edits := rfl

@[simp] theorem startDoc_change (deleted inserted : Text) (edits : List Edit) :
    startDoc (.change deleted inserted :: edits) = deleted ++ startDoc edits := rfl

@[simp] theorem newDoc_change (deleted inserted : Text) (edits : List Edit) :
    newDoc (.change deleted inserted :: edits) = inserted ++ newDoc edits := rfl

theorem changedRanges_opened {opened : ChangedRange} {posA posB : Nat} (hA : opened.toA ≤ posA) (hB : opened.to ≤ posB)
    (edits : List Edit) : ∃ range ∈ changedRanges (some opened) posA posB edits,
      range.fromA = opened.fromA ∧ range.from = opened.from ∧ opened.toA ≤ range.toA ∧ opened.to ≤ range.to := by
  induction edits generalizing opened posA posB with
  | nil => exact ⟨opened, by simp [changedRanges], rfl, rfl, Nat.le_refl _, Nat.le_refl _⟩
  | cons edit edits ih =>
    cases edit with
    | keep c => exact ⟨opened, by simp [changedRanges], rfl, rfl, Nat.le_refl _, Nat.le_refl _⟩
    | change deleted inserted =>
      obtain ⟨range, hmem, h1, h2, h3, h4⟩ := @ih ⟨opened.fromA, posA + deleted.length, opened.from,
        posB + inserted.length⟩ _ _ (Nat.le_refl _) (Nat.le_refl _)
      have h3' : posA + deleted.length ≤ range.toA := h3
      have h4' : posB + inserted.length ≤ range.to := h4
      exact ⟨range, hmem, h1, h2, by omega, by omega⟩

variable {opened : Option ChangedRange}

theorem changedRanges_mem {posA posB : Nat}
    (hopened : ∀ range ∈ opened, range.fromA ≤ posA ∧ range.from ≤ posB) (a : List Edit) (deleted inserted : Text)
    (b : List Edit) : ∃ range ∈ changedRanges opened posA posB (a ++ .change deleted inserted :: b),
      range.fromA ≤ posA + (startDoc a).length ∧ posA + (startDoc a).length + deleted.length ≤ range.toA ∧
      range.from ≤ posB + (newDoc a).length ∧ posB + (newDoc a).length + inserted.length ≤ range.to := by
  have hA : opened.elim posA (·.fromA) ≤ posA := by
    cases opened with
    | none => exact Nat.le_refl _
    | some range => exact (hopened range rfl).1
  have hB : opened.elim posB (·.from) ≤ posB := by
    cases opened with
    | none => exact Nat.le_refl _
    | some range => exact (hopened range rfl).2
  induction a generalizing opened posA posB with
  | nil =>
    obtain ⟨range, hmem, h1, h2, h3, h4⟩ := @changedRanges_opened ⟨opened.elim posA (·.fromA),
      posA + deleted.length, opened.elim posB (·.from), posB + inserted.length⟩ _ _ (Nat.le_refl _) (Nat.le_refl _) b
    refine ⟨range, hmem, ?_, h3, ?_, h4⟩
    · rw [h1]
      exact hA
    · rw [h2]
      exact hB
  | cons edit a ih =>
    cases edit with
    | keep c =>
      have hnone : ∀ range ∈ (none : Option ChangedRange), range.fromA ≤ posA + 1 ∧ range.from ≤ posB + 1 :=
        nofun
      obtain ⟨range, hmem, h1, h2, h3, h4⟩ := ih hnone (Nat.le_refl _) (Nat.le_refl _)
      refine ⟨range, mem_append_right _ hmem, ?_⟩
      simp only [startDoc_keep, newDoc_keep, length_cons]
      omega
    | change d i =>
      have hnext : ∀ range ∈ some (⟨opened.elim posA (·.fromA), posA + d.length, opened.elim posB (·.from),
          posB + i.length⟩ : ChangedRange), range.fromA ≤ posA + d.length ∧ range.from ≤ posB + i.length := by
        intro range h
        cases h
        exact ⟨Nat.le_add_right_of_le hA, Nat.le_add_right_of_le hB⟩
      obtain ⟨range, hmem, h1, h2, h3, h4⟩ := ih hnext (Nat.le_add_right_of_le hA) (Nat.le_add_right_of_le hB)
      refine ⟨range, hmem, ?_⟩
      simp only [startDoc_change, newDoc_change, length_append]
      omega

theorem changedRanges_le {posA posB : Nat}
    (hopened : ∀ range ∈ opened, range.toA ≤ posA ∧ range.to ≤ posB) {edits : List Edit} {range : ChangedRange}
    (h : range ∈ changedRanges opened posA posB edits) :
    range.toA ≤ posA + (startDoc edits).length ∧ range.to ≤ posB + (newDoc edits).length := by
  induction edits generalizing opened posA posB with
  | nil => exact hopened range (Option.mem_toList.1 h)
  | cons edit edits ih =>
    cases edit with
    | keep c =>
      rcases mem_append.1 h with h | h
      · have := hopened range (Option.mem_toList.1 h)
        omega
      · have hnone : ∀ range ∈ (none : Option ChangedRange), range.toA ≤ posA + 1 ∧ range.to ≤ posB + 1 :=
          nofun
        have := ih hnone h
        simp only [startDoc_keep, newDoc_keep, length_cons]
        omega
    | change d i =>
      have hnext : ∀ range ∈ some (⟨opened.elim posA (·.fromA), posA + d.length, opened.elim posB (·.from),
          posB + i.length⟩ : ChangedRange), range.toA ≤ posA + d.length ∧ range.to ≤ posB + i.length := by
        intro range h
        cases h
        exact ⟨Nat.le_refl _, Nat.le_refl _⟩
      have := ih hnext h
      simp only [startDoc_change, newDoc_change, length_append]
      omega

end Ranges

/-! ## Positions -/

section Positions
variable {pos posA posB : Nat} {assoc : Int} {mode : MapMode}

theorem mapPosFrom_keep (c : Nat) (edits : List Edit) : mapPosFrom pos assoc mode posA posB (.keep c :: edits) =
    if posA + 1 > pos then some (posB + (pos - posA)) else mapPosFrom pos assoc mode (posA + 1) (posB + 1) edits :=
  rfl

theorem mapPosFrom_change (d i : Text) (edits : List Edit) : mapPosFrom pos assoc mode posA posB (.change d i :: edits) =
    if mode = .trackBefore ∧ posA + d.length ≥ pos ∧ posA < pos then none
    else if posA + d.length > pos ∨ (posA + d.length = pos ∧ assoc < 0 ∧ d.length = 0) then
      some (if pos = posA ∨ assoc < 0 then posB else posB + i.length)
    else mapPosFrom pos assoc mode (posA + d.length) (posB + i.length) edits :=
  rfl

theorem mapPosFrom_skip (a : List Edit) (c : Nat) (b : List Edit) (h : posA + (startDoc a).length + 1 ≤ pos) :
    mapPosFrom pos assoc mode posA posB (a ++ .keep c :: b) =
      mapPosFrom pos assoc mode (posA + (startDoc a).length + 1) (posB + (newDoc a).length + 1) b := by
  induction a generalizing posA posB with
  | nil => exact if_neg (by rw [show (startDoc []).length = 0 from rfl] at h; omega)
  | cons edit a ih =>
    cases edit with
    | keep d =>
      rw [startDoc_keep, length_cons] at h ⊢
      rw [cons_append, mapPosFrom_keep, if_neg (by omega), ih (by omega), newDoc_keep, length_cons]
      congr 1 <;> omega
    | change d i =>
      rw [startDoc_change, length_append] at h ⊢
      rw [cons_append, mapPosFrom_change, if_neg (by omega), if_neg (by omega), ih (by omega), newDoc_change,
        length_append]
      congr 1 <;> omega

theorem mapPosFrom_here (edits : List Edit) (h : assoc < 0) : mapPosFrom posA assoc mode posA posB edits = some posB := by
  cases edits with
  | nil => rfl
  | cons edit edits =>
    cases edit with
    | keep c =>
      rw [mapPosFrom_keep, if_pos (by omega), Nat.sub_self]
      rfl
    | change d i => rw [mapPosFrom_change, if_neg (by omega), if_pos (by omega), if_pos (.inl rfl)]

theorem mapPosFrom_end (edits : List Edit) (h : 0 ≤ assoc) :
    mapPosFrom (posA + (startDoc edits).length) assoc .simple posA posB edits = some (posB + (newDoc edits).length) := by
  induction edits generalizing posA posB with
  | nil => rfl
  | cons edit edits ih =>
    cases edit with
    | keep c =>
      rw [startDoc_keep, length_cons, mapPosFrom_keep, if_neg (by omega), newDoc_keep, length_cons,
        show posA + ((startDoc edits).length + 1) = posA + 1 + (startDoc edits).length by omega, ih]
      congr 1
      omega
    | change d i =>
      have hmode : ¬ (MapMode.simple = MapMode.trackBefore ∧
        posA + d.length ≥ posA + (startDoc (.change d i :: edits)).length ∧
          posA < posA + (startDoc (.change d i :: edits)).length) := fun h => nomatch h.1
      rw [mapPosFrom_change, if_neg hmode, startDoc_change, length_append, if_neg (by omega), newDoc_change,
        length_append, ← Nat.add_assoc, ih, Nat.add_assoc]

theorem mapPosFrom_side {assoc' : Int} (h : assoc < 0 ↔ assoc' < 0) (edits : List Edit) :
    mapPosFrom pos assoc mode posA posB edits = mapPosFrom pos assoc' mode posA posB edits := by
  induction edits generalizing posA posB with
  | nil => rfl
  | cons edit edits ih =>
    cases edit with
    | keep c => rw [mapPosFrom_keep, mapPosFrom_keep, ih]
    | change d i =>
      rw [mapPosFrom_change, mapPosFrom_change, ih]
      simp only [h]

end Positions

/-! ## What no scan means -/

section Lines
variable {doc : Text} {pos : Nat}

variable {k : Nat} {row : Row}

theorem length_takeWhile {α : Type} {p : α → Bool} {l : List α} (hk : k < l.length)
    (hbefore : ∀ i, (hi : i < k) → p (l.get ⟨i, hi.trans hk⟩) = true) (hat : p l[k] = false) :
    (l.takeWhile p).length = k := by
  induction l generalizing k with
  | nil => exact absurd hk (Nat.not_lt_zero _)
  | cons a l ih =>
    cases k with
    | zero =>
      have ha : ¬ p a = true := by simpa using hat
      rw [takeWhile_cons_of_neg ha]
      rfl
    | succ k =>
      have ha : p a = true := hbefore 0 (Nat.succ_pos _)
      rw [takeWhile_cons_of_pos ha, length_cons]
      exact congrArg (· + 1) (ih (Nat.lt_of_succ_lt_succ hk) (fun i hi => hbefore (i + 1) (Nat.succ_lt_succ hi)) hat)

theorem lineNumberAt_eq (hk : k < (rows 0 doc).length)
    (h : (rows 0 doc)[k].start ≤ pos ∧ pos ≤ (rows 0 doc)[k].stop) : lineNumberAt doc pos = k := by
  refine length_takeWhile hk (fun i hi => ?_) ?_
  · have := rows_order (hi.trans hk) hk hi
    have hle : (rows 0 doc)[i].next ≤ pos := by omega
    exact decide_eq_true hle
  · exact decide_eq_false (by rw [Row.next]; omega)

theorem docLine_eq (hk : k < (rows 0 doc).length) : docLine doc k = (rows 0 doc)[k] := by
  rw [docLine, getD_eq_getElem?_getD, getElem?_eq_getElem hk]
  rfl

theorem lineAt_eq (h : row ∈ rows 0 doc) (hpos : row.start ≤ pos ∧ pos ≤ row.stop) : lineAt doc pos = row := by
  obtain ⟨k, hk, rfl⟩ := getElem_of_mem h
  rw [lineAt, lineNumberAt_eq hk hpos, docLine_eq hk]

theorem lineAt_mem (h : pos ≤ doc.length) :
    lineAt doc pos ∈ rows 0 doc ∧ (lineAt doc pos).start ≤ pos ∧ pos ≤ (lineAt doc pos).stop := by
  obtain ⟨row, hmem, hpos⟩ := @row_at 0 doc pos (by omega)
  rw [lineAt_eq hmem hpos]
  exact ⟨hmem, hpos⟩

theorem markerPrefix_eq (h : row ∈ rows 0 doc) : markerPrefix doc row.start row.stop = markOf row.line := by
  obtain ⟨before, after, hrow⟩ := rowOf h
  have hdrop : doc.drop row.start = row.line ++ after := by
    rw [hrow.text_eq, hrow.start, Nat.zero_add, drop_left]
  have htake : (row.line ++ after).take (min row.stop (row.start + 7) - row.start) = row.line.take 7 := by
    rw [Row.stop, show min (row.start + row.line.length) (row.start + 7) - row.start = min 7 row.line.length by omega,
      take_append_of_le_length (Nat.min_le_right ..), ← take_take, take_length]
  rw [markerPrefix, hdrop, htake]
  rfl

theorem markOf_isSome (row : Row) : (markOf row.line).isSome = isMarker row := by
  rw [markOf, isMarker]
  by_cases h : row.line.take 7 ∈ markers
  · rw [if_pos h, decide_eq_true h]
    rfl
  · rw [if_neg h, decide_eq_false h]
    rfl

theorem hasMarker_false {start stop : Nat} (h : hasMarker doc start stop = false) (hle : start ≤ stop)
    (hstop : stop ≤ doc.length) (hrow : row ∈ rows 0 doc) (hstart : start < row.next) (hrowStop : row.start ≤ stop) :
    isMarker row = false := by
  obtain ⟨first, hfirst, hf⟩ := @row_at 0 doc start (by omega)
  obtain ⟨last, hlast, hl⟩ := @row_at 0 doc stop (by omega)
  obtain ⟨i, hi, rfl⟩ := getElem_of_mem hfirst
  obtain ⟨j, hj, rfl⟩ := getElem_of_mem hlast
  obtain ⟨k, hk, rfl⟩ := getElem_of_mem hrow
  have hik : i ≤ k := by
    by_contra hlt
    have := rows_order hk hi (by omega)
    omega
  have hkj : k ≤ j := by
    by_contra hlt
    have := rows_order hj hk (by omega)
    rw [Row.next] at this
    omega
  rw [hasMarker, lineNumberAt_eq hi hf, lineNumberAt_eq hj hl] at h
  by_cases hmany : j - i > 1000
  · rw [if_pos hmany] at h
    cases h
  · rw [if_neg hmany, any_eq_false] at h
    have hone := h k (mem_range'_1.2 (by omega))
    rw [docLine_eq hk, markerPrefix_eq hrow, markOf_isSome] at hone
    exact Bool.eq_false_iff.2 hone

end Lines

section Quiet
variable {edits a b : List Edit} {deleted inserted : Text}

theorem change_range (hedits : edits = a ++ .change deleted inserted :: b) :
    ∃ range ∈ changedRanges none 0 0 edits, range.fromA ≤ (startDoc a).length ∧
      (startDoc a).length + deleted.length ≤ range.toA ∧ range.from ≤ (newDoc a).length ∧
      (newDoc a).length + inserted.length ≤ range.to ∧ range.toA ≤ (startDoc edits).length ∧
      range.to ≤ (newDoc edits).length := by
  obtain ⟨range, hmem, h⟩ := @changedRanges_mem none 0 0 nofun a deleted inserted b
  have hle := @changedRanges_le none 0 0 nofun _ _ hmem
  rw [← hedits] at hmem hle
  exact ⟨range, hmem, by omega⟩

theorem no_marker_touched (h : needsConflictScan edits false = false)
    (hedits : edits = a ++ .change deleted inserted :: b) :
    (∀ row ∈ rows 0 (startDoc edits), (startDoc a).length < row.next → row.start ≤ (startDoc a).length + deleted.length →
      isMarker row = false) ∧
    ∀ row ∈ rows 0 (newDoc edits), (newDoc a).length < row.next → row.start ≤ (newDoc a).length + inserted.length →
      isMarker row = false := by
  obtain ⟨range, hmem, h1, h2, h3, h4, h5, h6⟩ := change_range hedits
  have hasks : ¬ asksScan (startDoc edits) (newDoc edits) false range = true := any_eq_false.1 h range hmem
  have hboth := Bool.or_eq_false_iff.1 (Bool.eq_false_iff.2 hasks)
  exact ⟨fun row hrow hn hs => hasMarker_false hboth.1 (by omega) h5 hrow (by omega) (by omega),
    fun row hrow hn hs => hasMarker_false hboth.2 (by omega) h6 hrow (by omega) (by omega)⟩

theorem same_line (h : needsConflictScan edits true = false) (hedits : edits = a ++ .change deleted inserted :: b) :
    ∃ row ∈ rows 0 (startDoc edits), ∃ row' ∈ rows 0 (newDoc edits),
      row.start ≤ (startDoc a).length ∧ (startDoc a).length + deleted.length ≤ row.stop ∧
      row'.start ≤ (newDoc a).length ∧ (newDoc a).length + inserted.length ≤ row'.stop ∧
        markOf row.line = markOf row'.line := by
  obtain ⟨range, hmem, h1, h2, h3, h4, h5, h6⟩ := change_range hedits
  have hasks : ¬ asksScan (startDoc edits) (newDoc edits) true range = true := any_eq_false.1 h range hmem
  obtain ⟨hrow, hstart, hstop⟩ := lineAt_mem (show range.fromA ≤ (startDoc edits).length by omega)
  obtain ⟨hrow', hstart', hstop'⟩ := lineAt_mem (show range.from ≤ (newDoc edits).length by omega)
  rw [asksScan, if_pos rfl, Bool.not_eq_true, Bool.or_eq_false_iff, Bool.or_eq_false_iff] at hasks
  obtain ⟨⟨hA, hB⟩, hmark⟩ := hasks
  have hA := of_decide_eq_false hA
  have hB := of_decide_eq_false hB
  have hmark := of_decide_eq_false hmark
  rw [markerPrefix_eq hrow, markerPrefix_eq hrow', not_not] at hmark
  exact ⟨_, hrow, _, hrow', by omega, by omega, by omega, by omega, hmark⟩

end Quiet

/-! ## From line break to line break -/

def Closed (edits : List Edit) : Prop := edits = [] ∨ ∃ a, edits = a ++ [Edit.keep 10]

section Breaks
variable {side : Edit → Text} {edits : List Edit}

section
variable (hside : ∀ c, side (.keep c) = [c])
include hside

theorem break_in_change (hkeep : .keep 10 ∉ edits) {i : Nat}
    (h : (edits.flatMap side)[i]? = some 10) : ∃ (a : List Edit), ∃ deleted inserted b, edits = a ++ Edit.change deleted inserted :: b ∧
      (a.flatMap side).length ≤ i ∧ i < (a.flatMap side).length + (side (.change deleted inserted)).length := by
  induction edits generalizing i with
  | nil => cases h
  | cons edit edits ih =>
    have hrest : .keep 10 ∉ edits := fun hm => hkeep (mem_cons_of_mem _ hm)
    rw [flatMap_cons] at h
    by_cases hi : i < (side edit).length
    · rw [List.getElem?_append_left hi] at h
      cases edit with
      | keep c =>
        rw [hside] at h
        have hc : 10 = c := by simpa using mem_of_getElem? h
        exact absurd (hc ▸ mem_cons_self) hkeep
      | change deleted inserted => exact ⟨[], deleted, inserted, edits, rfl, Nat.zero_le _, by simpa using hi⟩
    · rw [getElem?_append_right (by omega)] at h
      obtain ⟨a, deleted, inserted, b, rfl, hle, hlt⟩ := ih hrest h
      refine ⟨edit :: a, deleted, inserted, b, rfl, ?_, ?_⟩ <;>
        (rw [flatMap_cons, length_append]; omega)

theorem row_touched (hkeep : .keep 10 ∉ edits)
    (hchange : ∃ deleted inserted, .change deleted inserted ∈ edits) {base : Nat} {row : Row}
    (hrow : row ∈ rows base (edits.flatMap side)) : ∃ (a : List Edit), ∃ deleted inserted b, edits = a ++ Edit.change deleted inserted :: b ∧
      base + (a.flatMap side).length < row.next ∧
      row.start ≤ base + (a.flatMap side).length + (side (.change deleted inserted)).length := by
  obtain ⟨before, after, hof⟩ := rowOf hrow
  have hstart := hof.start
  have hnext : row.next = row.start + row.line.length + 1 := rfl
  rcases hof.first with rfl | ⟨more, rfl⟩
  · rcases hof.last with rfl | ⟨more, rfl⟩
    · obtain ⟨deleted, inserted, hmem⟩ := hchange
      obtain ⟨a, b, rfl⟩ := append_of_mem hmem
      have hlen := congrArg List.length hof.text_eq
      simp only [flatMap_append, flatMap_cons, length_append, length_nil] at hlen hstart
      exact ⟨a, deleted, inserted, b, rfl, by omega, by omega⟩
    · have hbreak : (edits.flatMap side)[row.line.length]? = some 10 := by
        rw [hof.text_eq]
        simp
      obtain ⟨a, deleted, inserted, b, rfl, hle, hlt⟩ := break_in_change hside hkeep hbreak
      exact ⟨a, deleted, inserted, b, rfl, by omega, by rw [hstart, length_nil]; omega⟩
  · have hbreak : (edits.flatMap side)[more.length]? = some 10 := by
      rw [hof.text_eq]
      simp
    obtain ⟨a, deleted, inserted, b, rfl, hle, hlt⟩ := break_in_change hside hkeep hbreak
    rw [length_append, length_singleton] at hstart
    exact ⟨a, deleted, inserted, b, rfl, by omega, by omega⟩

theorem rows_done {done : List Edit} (h : Closed done) (text : Text) :
    ∃ earlier, rows 0 (done.flatMap side ++ text) = earlier ++ rows (done.flatMap side).length text := by
  rcases h with rfl | ⟨a, rfl⟩
  · exact ⟨[], rfl⟩
  · refine ⟨rows 0 (a.flatMap side), ?_⟩
    rw [flatMap_append, flatMap_singleton, hside, append_assoc, singleton_append, rows_append]
    simp

end

end Breaks

/-- What stands between two kept line breaks, before and after. -/
inductive LinePair (keepRow : Row → Bool) (posA posB : Nat) (edits : List Edit) : Prop
  | line (hA : 10 ∉ startDoc edits) (hB : 10 ∉ newDoc edits) (hmark : markOf (startDoc edits) = markOf (newDoc edits))
      (hkeep : keepRow ⟨posA, startDoc edits⟩ = keepRow ⟨posB, newDoc edits⟩)
  | left (hA : ∀ row ∈ rows posA (startDoc edits), keepRow row = false)
      (hB : ∀ row ∈ rows posB (newDoc edits), keepRow row = false)

/-- Edits that run from one kept line break to the next. -/
structure Between (edits done part rest : List Edit) : Prop where
  edits_eq : edits = done ++ (part ++ rest)
  closed : Closed done
  plain : .keep 10 ∉ part
  rest : rest = [] ∨ ∃ more, rest = .keep 10 :: more

section Between
variable {edits done part rest : List Edit}

theorem Between.rows_mem {side : Edit → Text} (hside : ∀ c, side (.keep c) = [c]) (h : Between edits done part rest)
    {row : Row} (hrow : row ∈ rows (done.flatMap side).length (part.flatMap side)) :
    row ∈ rows 0 (edits.flatMap side) := by
  obtain ⟨earlier, hearlier⟩ := rows_done hside h.closed ((part ++ rest).flatMap side)
  rw [h.edits_eq, flatMap_append, hearlier]
  refine mem_append_right _ ?_
  rcases h.rest with rfl | ⟨more, rfl⟩
  · rwa [append_nil]
  · rw [flatMap_append, flatMap_cons, hside, singleton_append, rows_append]
    exact mem_append_left _ hrow

theorem Between.split (h : Between edits done part rest) {a b : List Edit} {deleted inserted : Text}
    (hpart : part = a ++ .change deleted inserted :: b) :
    edits = (done ++ a) ++ .change deleted inserted :: (b ++ rest) := by
  rw [h.edits_eq, hpart]
  simp

theorem kept_of_no_change (h : ¬ ∃ deleted inserted, .change deleted inserted ∈ part) : startDoc part = newDoc part := by
  induction part with
  | nil => rfl
  | cons edit part ih =>
    cases edit with
    | keep c =>
      rw [startDoc_keep, newDoc_keep, ih fun ⟨d, i, hm⟩ => h ⟨d, i, mem_cons_of_mem _ hm⟩]
    | change d i => exact absurd ⟨d, i, mem_cons_self⟩ h

theorem no_break_kept (h : ¬ ∃ deleted inserted, .change deleted inserted ∈ part) (hkeep : .keep 10 ∉ part) :
    10 ∉ startDoc part := by
  intro hmem
  obtain ⟨i, hi⟩ := mem_iff_getElem?.1 hmem
  obtain ⟨a, d, ins, b, rfl, -⟩ := break_in_change (fun _ => rfl) hkeep hi
  exact h ⟨d, ins, by simp⟩

theorem isMarker_eq (row row' : Row) (h : markOf row.line = markOf row'.line) : isMarker row = isMarker row' := by
  rw [← markOf_isSome, ← markOf_isSome, h]

theorem linePair_kept (h : Between edits done part rest) (hkept : ¬ ∃ deleted inserted, .change deleted inserted ∈ part)
    (posA posB : Nat) : LinePair isMarker posA posB part := by
  have hsame := kept_of_no_change hkept
  have hplain := no_break_kept hkept h.plain
  refine .line hplain (hsame ▸ hplain) (congrArg markOf hsame) ?_
  exact isMarker_eq _ _ (congrArg markOf hsame)

/-- **Without decorations**: what changes has no marker. -/
theorem linePair_plain (hscan : needsConflictScan edits false = false) (h : Between edits done part rest) :
    LinePair isMarker (startDoc done).length (newDoc done).length part := by
  by_cases hchange : ∃ deleted inserted, .change deleted inserted ∈ part
  · refine .left (fun row hrow => ?_) (fun row hrow => ?_)
    · obtain ⟨a, d, i, b, hpart, hlt, hle⟩ := row_touched (fun _ => rfl) h.plain hchange hrow
      have hquiet := (no_marker_touched hscan (h.split hpart)).1 row (h.rows_mem (fun _ => rfl) hrow)
      rw [startDoc_append, length_append] at hquiet
      exact hquiet hlt hle
    · obtain ⟨a, d, i, b, hpart, hlt, hle⟩ := row_touched (fun _ => rfl) h.plain hchange hrow
      have hquiet := (no_marker_touched hscan (h.split hpart)).2 row (h.rows_mem (fun _ => rfl) hrow)
      rw [newDoc_append, length_append] at hquiet
      exact hquiet hlt hle
  · exact linePair_kept h hchange _ _

/-- **With decorations**: what changes is one line, and its marker stays. -/
theorem linePair_line (hscan : needsConflictScan edits true = false) (h : Between edits done part rest) :
    LinePair (fun _ => true) (startDoc done).length (newDoc done).length part := by
  have hA : 10 ∉ startDoc part := by
    intro hmem
    obtain ⟨i, hi⟩ := mem_iff_getElem?.1 hmem
    obtain ⟨a, d, ins, b, hpart, hle, hlt⟩ := break_in_change (fun _ => rfl) h.plain hi
    obtain ⟨row, hrow, -, -, hs, hstop, -⟩ := same_line hscan (h.split hpart)
    have hbreak : (startDoc edits)[(startDoc done).length + i]? = some 10 := by
      rw [h.edits_eq, startDoc_append, startDoc_append, getElem?_append_right (by omega), Nat.add_sub_cancel_left]
      rw [List.getElem?_append_left (List.getElem?_eq_some_iff.1 hi).1]
      exact hi
    have := row_plain hrow hbreak
    rw [startDoc_append, length_append] at hs hstop
    change (startDoc a).length ≤ i at hle
    change i < (startDoc a).length + d.length at hlt
    omega
  have hB : 10 ∉ newDoc part := by
    intro hmem
    obtain ⟨i, hi⟩ := mem_iff_getElem?.1 hmem
    obtain ⟨a, d, ins, b, hpart, hle, hlt⟩ := break_in_change (fun _ => rfl) h.plain hi
    obtain ⟨-, -, row, hrow, -, -, hs, hstop, -⟩ := same_line hscan (h.split hpart)
    have hbreak : (newDoc edits)[(newDoc done).length + i]? = some 10 := by
      rw [h.edits_eq, newDoc_append, newDoc_append, getElem?_append_right (by omega), Nat.add_sub_cancel_left]
      rw [List.getElem?_append_left (List.getElem?_eq_some_iff.1 hi).1]
      exact hi
    have := row_plain hrow hbreak
    rw [newDoc_append, length_append] at hs hstop
    change (newDoc a).length ≤ i at hle
    change i < (newDoc a).length + ins.length at hlt
    omega
  refine .line hA hB ?_ rfl
  by_cases hchange : ∃ deleted inserted, .change deleted inserted ∈ part
  · obtain ⟨d, ins, hmem⟩ := hchange
    obtain ⟨a, b, hpart⟩ := append_of_mem hmem
    obtain ⟨row, hrow, row', hrow', hs, hstop, hs', hstop', hmark⟩ := same_line hscan (h.split hpart)
    have hmine : ⟨(startDoc done).length, startDoc part⟩ ∈ rows 0 (startDoc edits) := by
      refine h.rows_mem (fun _ => rfl) ?_
      show _ ∈ rows _ (startDoc part)
      rw [rows_single hA]
      exact mem_singleton_self _
    have hmine' : ⟨(newDoc done).length, newDoc part⟩ ∈ rows 0 (newDoc edits) := by
      refine h.rows_mem (fun _ => rfl) ?_
      show _ ∈ rows _ (newDoc part)
      rw [rows_single hB]
      exact mem_singleton_self _
    rw [startDoc_append, length_append] at hs hstop
    rw [newDoc_append, length_append] at hs' hstop'
    have hlen : (startDoc a).length ≤ (startDoc part).length := by
      rw [hpart, startDoc_append, length_append]
      omega
    have hlen' : (newDoc a).length ≤ (newDoc part).length := by
      rw [hpart, newDoc_append, length_append]
      omega
    have heq := row_unique hmine hrow (show _ ∧ (startDoc done).length + (startDoc a).length ≤ _ from
      ⟨Nat.le_add_right .., Nat.add_le_add_left hlen _⟩) ⟨hs, by omega⟩
    have heq' := row_unique hmine' hrow' (show _ ∧ (newDoc done).length + (newDoc a).length ≤ _ from
      ⟨Nat.le_add_right .., Nat.add_le_add_left hlen' _⟩) ⟨hs', by omega⟩
    rwa [← heq, ← heq'] at hmark
  · exact congrArg markOf (kept_of_no_change hchange)

end Between

/-! ## The lines move with the edit -/

/-- A line before and the line after that it became. -/
structure Moved (edits : List Edit) (row row' : Row) : Prop where
  mark : markOf row.line = markOf row'.line
  start : ∀ mode, mapPos edits row.start (-1) mode = some row'.start
  next : row.next ≤ (startDoc edits).length →
    row'.next ≤ (newDoc edits).length ∧ ∀ mode, mapPos edits row.next (-1) mode = some row'.next
  last : (startDoc edits).length < row.next → row'.next = (newDoc edits).length + 1

section Moved
variable {edits done part rest : List Edit} {keepRow : Row → Bool}

theorem mapPos_closed (hedits : edits = done ++ rest) (h : Closed done) (mode : MapMode) :
    mapPos edits (startDoc done).length (-1) mode = some (newDoc done).length := by
  rw [mapPos, hedits]
  rcases h with rfl | ⟨a, rfl⟩
  · exact mapPosFrom_here rest (by decide)
  · rw [append_assoc, singleton_append, mapPosFrom_skip a 10 rest (by simp)]
    simp only [startDoc_append, newDoc_append, startDoc_keep, newDoc_keep, length_append, length_cons,
      Nat.zero_add]
    exact mapPosFrom_here rest (by decide)

theorem moved_line (h : Between edits done part rest) (hmark : markOf (startDoc part) = markOf (newDoc part)) :
    Moved edits ⟨(startDoc done).length, startDoc part⟩ ⟨(newDoc done).length, newDoc part⟩ := by
  have hA : (startDoc edits).length = (startDoc done).length + ((startDoc part).length + (startDoc rest).length) := by
    rw [h.edits_eq, startDoc_append, startDoc_append, length_append, length_append]
  have hB : (newDoc edits).length = (newDoc done).length + ((newDoc part).length + (newDoc rest).length) := by
    rw [h.edits_eq, newDoc_append, newDoc_append, length_append, length_append]
  refine ⟨hmark, mapPos_closed h.edits_eq h.closed, fun hle => ?_, fun hlt => ?_⟩
  · rcases h.rest with rfl | ⟨more, rfl⟩
    · rw [show (startDoc []).length = 0 from rfl] at hA
      simp only [Row.next, Row.stop] at hle
      omega
    · rw [newDoc_keep, length_cons] at hB
      simp only [Row.next, Row.stop] at hle ⊢
      refine ⟨by omega, fun mode => ?_⟩
      have hedits : edits = (done ++ part ++ [Edit.keep 10]) ++ more := by
        rw [h.edits_eq]
        simp
      have hmap := mapPos_closed hedits (.inr ⟨_, rfl⟩) mode
      simpa [Nat.add_assoc] using hmap
  · rcases h.rest with rfl | ⟨more, rfl⟩
    · rw [show (newDoc []).length = 0 from rfl] at hB
      simp only [Row.next, Row.stop]
      omega
    · rw [startDoc_keep, length_cons] at hA
      simp only [Row.next, Row.stop] at hlt
      omega

theorem moved_part (h : Between edits done part rest)
    (hpair : LinePair keepRow (startDoc done).length (newDoc done).length part) :
    List.Forall₂ (Moved edits) ((rows (startDoc done).length (startDoc part)).filter keepRow)
      ((rows (newDoc done).length (newDoc part)).filter keepRow) := by
  cases hpair with
  | line hA hB hmark hkeep =>
    rw [rows_single hA, rows_single hB]
    by_cases hk : keepRow ⟨(newDoc done).length, newDoc part⟩ = true
    · rw [filter_cons_of_pos (hkeep.trans hk), filter_cons_of_pos hk]
      exact .cons (moved_line h hmark) .nil
    · rw [filter_cons_of_neg (hkeep ▸ hk), filter_cons_of_neg hk]
      exact .nil
  | left hA hB =>
    rw [filter_eq_nil_iff.2 fun row hrow => Bool.eq_false_iff.1 (hA row hrow),
      filter_eq_nil_iff.2 fun row hrow => Bool.eq_false_iff.1 (hB row hrow)]
    exact .nil

/-- **The lines that count move**, when each piece between two kept line breaks is a pair of lines or does not count. -/
theorem moved_rows (hpairs : ∀ done part rest, Between edits done part rest →
      LinePair keepRow (startDoc done).length (newDoc done).length part)
    (hedits : edits = done ++ rest) (hclosed : Closed done) :
    List.Forall₂ (Moved edits) ((rows (startDoc done).length (startDoc rest)).filter keepRow)
      ((rows (newDoc done).length (newDoc rest)).filter keepRow) := by
  induction hn : rest.length using Nat.strongRecOn generalizing done rest with
  | _ n ih =>
  subst hn
  by_cases hbreak : .keep 10 ∈ rest
  · obtain ⟨part, more, rfl, hplain⟩ := eq_append_cons_of_mem hbreak
    have hbetween : Between edits done part (.keep 10 :: more) := ⟨hedits, hclosed, hplain, .inr ⟨more, rfl⟩⟩
    have hnext := @ih more.length (by simp; omega) (done ++ part ++ [Edit.keep 10]) more (by rw [hedits]; simp)
      (.inr ⟨_, rfl⟩) rfl
    rw [startDoc_append, newDoc_append, startDoc_keep, newDoc_keep, rows_append, rows_append, filter_append,
      filter_append]
    refine rel_append (moved_part hbetween (hpairs _ _ _ hbetween)) ?_
    simpa [Nat.add_assoc] using hnext
  · have hbetween : Between edits done rest [] := ⟨by rw [hedits, append_nil], hclosed, hbreak, .inl rfl⟩
    exact moved_part hbetween (hpairs _ _ _ hbetween)

end Moved

end ConflictMarkers
end Yuzora
