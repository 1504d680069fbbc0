import Yuzora.ConflictEdits
/-!
# ConflictBlocks — the blocks and decorations after an edit

Moved lines have moved blocks (`scan_moved`).  All offsets of a block but its end are beginnings of
lines, which keep their order; so the mapped decorations are those of a new scan (`conflicts_follow`).
-/
namespace Yuzora
namespace ConflictMarkers

open List
open Utf16 (Text)

/-! ## The blocks move with their lines -/

def LineStart (doc : Text) (pos : Nat) : Prop := pos = 0 ∨ (0 < pos ∧ doc[pos - 1]? = some 10)

section LineStart
variable {doc : Text} {row : Row}

theorem row_lineStart (h : row ∈ rows 0 doc) : LineStart doc row.start := by
  obtain ⟨before, after, hrow⟩ := rowOf h
  rw [hrow.start, Nat.zero_add]
  rcases hrow.first with rfl | ⟨more, rfl⟩
  · exact .inl rfl
  · refine .inr ⟨by simp, ?_⟩
    rw [hrow.text_eq]
    simp

theorem next_lineStart (h : row ∈ rows 0 doc) (hnext : row.next ≤ doc.length) : LineStart doc row.next := by
  obtain ⟨before, after, hrow⟩ := rowOf h
  have hstop := hrow.stop_le
  have hsucc : row.next = row.stop + 1 := rfl
  rcases hrow.last with rfl | ⟨more, rfl⟩
  · rw [length_nil] at hstop
    omega
  · refine .inr ⟨Nat.succ_pos _, ?_⟩
    rw [hsucc, Nat.add_sub_cancel, Row.stop, hrow.start, hrow.text_eq]
    simp

theorem lineStart_row {pos : Nat} (h : LineStart doc pos) (hle : pos ≤ doc.length) :
    ∃ row ∈ rows 0 doc, row.start = pos := by
  obtain ⟨row, hrow, hs, hstop⟩ := @row_at 0 doc pos (by omega)
  refine ⟨row, hrow, ?_⟩
  rcases h with rfl | ⟨hpos, hbreak⟩
  · omega
  · have := row_plain hrow hbreak
    omega

theorem not_break_inside (h : row ∈ rows 0 doc) (hne : row.line ≠ []) : doc[row.stop - 1]? ≠ some 10 := by
  intro hbreak
  have hlen := length_pos_iff.2 hne
  have := row_plain h hbreak
  rw [Row.stop] at this
  omega

end LineStart

def PointMoved (edits : List Edit) (pos pos' : Nat) : Prop :=
  LineStart (startDoc edits) pos ∧ pos ≤ (startDoc edits).length ∧ ∀ mode, mapPos edits pos (-1) mode = some pos'

/-- A block before and after. -/
structure MovedBlock (edits : List Edit) (block block' : ConflictBlock) : Prop where
  «from» : PointMoved edits block.from block'.from
  oursFrom : PointMoved edits block.oursFrom block'.oursFrom
  oursTo : PointMoved edits block.oursTo block'.oursTo
  theirsFrom : PointMoved edits block.theirsFrom block'.theirsFrom
  theirsTo : PointMoved edits block.theirsTo block'.theirsTo
  «to» : ∃ row row', row ∈ rows 0 (startDoc edits) ∧ row' ∈ rows 0 (newDoc edits) ∧ Moved edits row row' ∧ row.line ≠ [] ∧
    row'.line ≠ [] ∧ row.start = block.theirsTo ∧ row'.start = block'.theirsTo ∧
    block.to = min row.next (startDoc edits).length ∧ block'.to = min row'.next (newDoc edits).length

/-- How far both blocks are read, with `lines` to come. -/
inductive ReadingMoved (edits : List Edit) (lines : List Row) : Reading → Reading → Prop
  | oursNone : ReadingMoved edits lines (.ours none) (.ours none)
  | oursSome {pos pos' : Nat} (h : PointMoved edits pos pos') :
      ReadingMoved edits lines (.ours (some pos)) (.ours (some pos'))
  | theirs {pos pos' «from» from' : Nat} (h : PointMoved edits pos pos')
      (hfrom : «from» ≤ (startDoc edits).length → PointMoved edits «from» from')
      (hle : ∀ row ∈ lines, «from» ≤ row.start) :
      ReadingMoved edits lines (.theirs pos «from») (.theirs pos' from')

section Blocks
variable {edits : List Edit} {lines lines' : List Row} {row row' : Row}

theorem prefix_iff_of_mark {line line' mark : Text} (h : markOf line = markOf line') (hm : mark ∈ markers) :
    mark <+: line ↔ mark <+: line' := by
  have hone : ∀ text : Text, text.take 7 = mark ↔ markOf text = some mark := by
    intro text
    rw [markOf]
    by_cases ht : text.take 7 ∈ markers
    · rw [if_pos ht]
      exact (Option.some.injEq ..).symm ▸ Iff.rfl
    · rw [if_neg ht]
      exact ⟨fun heq => absurd (heq ▸ hm) ht, fun heq => absurd heq.symm (Option.some_ne_none mark)⟩
  rw [marker_iff hm, marker_iff hm, hone, hone, h]

theorem Moved.prefix_iff {mark : Text} (h : Moved edits row row') (hm : mark ∈ markers) :
    mark <+: row.line ↔ mark <+: row'.line := prefix_iff_of_mark h.mark hm

theorem Moved.point (h : Moved edits row row') (hrow : row ∈ rows 0 (startDoc edits)) :
    PointMoved edits row.start row'.start := by
  have hb := row_bounds hrow
  have hs : row.start ≤ row.stop := Nat.le_add_right ..
  exact ⟨row_lineStart hrow, by omega, h.start⟩

theorem Moved.nextPoint (h : Moved edits row row') (hrow : row ∈ rows 0 (startDoc edits))
    (hle : row.next ≤ (startDoc edits).length) : PointMoved edits row.next row'.next :=
  ⟨next_lineStart hrow hle, hle, (h.next hle).2⟩

/-- Lines of the documents, in order, that moved. -/
structure MovedLines (edits : List Edit) (lines lines' : List Row) : Prop where
  moved : List.Forall₂ (Moved edits) lines lines'
  mem : ∀ row ∈ lines, row ∈ rows 0 (startDoc edits)
  mem' : ∀ row ∈ lines', row ∈ rows 0 (newDoc edits)
  sorted : lines.Pairwise fun a b => a.next ≤ b.start

theorem MovedLines.tail (h : MovedLines edits (row :: lines) (row' :: lines')) : MovedLines edits lines lines' :=
  ⟨(forall₂_cons.1 h.moved).2, fun q hq => h.mem q (mem_cons_of_mem _ hq),
    fun q hq => h.mem' q (mem_cons_of_mem _ hq), (pairwise_cons.1 h.sorted).2⟩

/-- What reading a block gives, before and after. -/
inductive ParseMoved (edits : List Edit) (size : Nat) :
    Option (ConflictBlock × List Row) → Option (ConflictBlock × List Row) → Prop
  | dangling : ParseMoved edits size none none
  | block {block block' : ConflictBlock} {rest rest' : List Row} (h : MovedBlock edits block block')
      (hrest : MovedLines edits rest rest') (hsize : rest.length ≤ size) :
      ParseMoved edits size (some (block, rest)) (some (block', rest'))

theorem ParseMoved.weaken {size : Nat} {out out' : Option (ConflictBlock × List Row)}
    (h : ParseMoved edits size out out') :
    ParseMoved edits (size + 1) out out' := by
  cases h with
  | dangling => exact .dangling
  | block h hrest hsize => exact .block h hrest (Nat.le_succ_of_le hsize)

theorem parse_moved {startPos startPos' oursFrom oursFrom' : Nat} {reading reading' : Reading}
    (hlines : MovedLines edits lines lines') (hstart : PointMoved edits startPos startPos')
    (hours : oursFrom ≤ (startDoc edits).length → PointMoved edits oursFrom oursFrom')
    (hle : ∀ row ∈ lines, oursFrom ≤ row.start) (hreading : ReadingMoved edits lines reading reading') :
    ParseMoved edits lines.length (parseRows (startDoc edits).length startPos oursFrom reading lines)
      (parseRows (newDoc edits).length startPos' oursFrom' reading' lines') := by
  induction lines generalizing lines' reading reading' with
  | nil =>
    obtain rfl := forall₂_nil_left_iff.1 hlines.moved
    cases hreading <;> exact .dangling
  | cons row lines ih =>
    obtain ⟨row', lines', hmoved, -, rfl⟩ := forall₂_cons_left_iff.1 hlines.moved
    have hrow := hlines.mem row mem_cons_self
    have hpoint := hmoved.point hrow
    have hnext : ∀ q ∈ lines, row.next ≤ q.start := (pairwise_cons.1 hlines.sorted).1
    have htail : ∀ {r r'}, ReadingMoved edits lines r r' → ParseMoved edits (row :: lines).length
        (parseRows (startDoc edits).length startPos oursFrom r lines)
        (parseRows (newDoc edits).length startPos' oursFrom' r' lines') := fun h =>
      (ih hlines.tail (fun q hq => hle q (mem_cons_of_mem _ hq)) h).weaken
    have hbase := hmoved.prefix_iff (show baseMark ∈ markers by decide)
    have hsplit := hmoved.prefix_iff (show splitMark ∈ markers by decide)
    have hend := hmoved.prefix_iff (show endMark ∈ markers by decide)
    have hbegin := hmoved.prefix_iff (show startMark ∈ markers by decide)
    have htheirs : ∀ {pos pos'}, PointMoved edits pos pos' →
        ReadingMoved edits lines (.theirs pos row.next) (.theirs pos' row'.next) := fun h =>
      .theirs h (hmoved.nextPoint hrow) hnext
    cases hreading with
    | oursNone =>
      simp only [parseRows]
      by_cases hb : baseMark <+: row.line
      · rw [if_pos hb, if_pos (hbase.1 hb)]
        exact htail (.oursSome hpoint)
      · rw [if_neg hb, if_neg fun h => hb (hbase.2 h)]
        by_cases hs : splitMark <+: row.line
        · rw [if_pos hs, if_pos (hsplit.1 hs)]
          exact htail (htheirs hpoint)
        · rw [if_neg hs, if_neg fun h => hs (hsplit.2 h)]
          by_cases hm : startMark <+: row.line
          · rw [if_pos hm, if_pos (hbegin.1 hm)]
            exact .dangling
          · rw [if_neg hm, if_neg fun h => hm (hbegin.2 h)]
            exact htail .oursNone
    | oursSome hto =>
      simp only [parseRows]
      by_cases hb : baseMark <+: row.line
      · rw [if_pos hb, if_pos (hbase.1 hb)]
        exact htail (.oursSome hto)
      · rw [if_neg hb, if_neg fun h => hb (hbase.2 h)]
        by_cases hs : splitMark <+: row.line
        · rw [if_pos hs, if_pos (hsplit.1 hs)]
          exact htail (htheirs hto)
        · rw [if_neg hs, if_neg fun h => hs (hsplit.2 h)]
          by_cases hm : startMark <+: row.line
          · rw [if_pos hm, if_pos (hbegin.1 hm)]
            exact .dangling
          · rw [if_neg hm, if_neg fun h => hm (hbegin.2 h)]
            exact htail (.oursSome hto)
    | theirs hto hfrom hfromLe =>
      simp only [parseRows]
      by_cases he : endMark <+: row.line
      · have he' := hend.1 he
        rw [if_pos he, if_pos he']
        have hne : ∀ line : Text, endMark <+: line → line ≠ [] := by
          rintro line h rfl
          exact absurd h.length_le (by decide)
        have hb := hpoint.2.1
        refine .block ⟨hstart, hours ((hle row mem_cons_self).trans hb), hto,
          hfrom ((hfromLe row mem_cons_self).trans hb), hpoint, row, row', hrow, hlines.mem' row' mem_cons_self,
          hmoved, hne _ he, hne _ he', rfl, rfl, rfl, rfl⟩ hlines.tail (Nat.le_succ _)
      · rw [if_neg he, if_neg fun h => he (hend.2 h)]
        by_cases hm : startMark <+: row.line
        · rw [if_pos hm, if_pos (hbegin.1 hm)]
          exact .dangling
        · rw [if_neg hm, if_neg fun h => hm (hbegin.2 h)]
          exact htail (.theirs hto hfrom fun q hq => hfromLe q (mem_cons_of_mem _ hq))

/-- **The blocks of moved lines are moved blocks.** -/
theorem scan_moved (h : MovedLines edits lines lines') :
    List.Forall₂ (MovedBlock edits) (scanRows (startDoc edits).length lines) (scanRows (newDoc edits).length lines') := by
  induction hn : lines.length using Nat.strongRecOn generalizing lines lines' with
  | _ n ih =>
  subst hn
  cases lines with
  | nil =>
    obtain rfl := forall₂_nil_left_iff.1 h.moved
    rw [scanRows_nil, scanRows_nil]
    exact .nil
  | cons row lines =>
    obtain ⟨row', lines', hmoved, -, rfl⟩ := forall₂_cons_left_iff.1 h.moved
    have hrow := h.mem row mem_cons_self
    have hbegin := hmoved.prefix_iff (show startMark ∈ markers by decide)
    have hrest := ih lines.length (Nat.lt_succ_self _) h.tail rfl
    by_cases hm : startMark <+: row.line
    · rw [scanRows_start hm, scanRows_start (hbegin.1 hm)]
      have hnext : ∀ q ∈ lines, row.next ≤ q.start := (pairwise_cons.1 h.sorted).1
      have hparse := parse_moved h.tail (hmoved.point hrow) (hmoved.nextPoint hrow) hnext .oursNone
      generalize parseRows (startDoc edits).length row.start row.next (.ours none) lines = out at hparse
      generalize parseRows (newDoc edits).length row'.start row'.next (.ours none) lines' = out' at hparse
      cases hparse with
      | dangling => exact hrest
      | block hblock hlines hsize => exact .cons hblock (ih _ (Nat.lt_succ_of_le hsize) hlines rfl)
    · rw [scanRows_skip hm, scanRows_skip fun h => hm (hbegin.2 h)]
      exact hrest

/-- **What the scan finds after an edit that asked for no scan is what it found before, moved.** -/
theorem scanConflicts_moved {hasDecorations : Bool} (h : needsConflictScan edits hasDecorations = false) :
    List.Forall₂ (MovedBlock edits) (scanConflicts (startDoc edits)) (scanConflicts (newDoc edits)) := by
  rw [scanConflicts_eq, scanConflicts_eq]
  cases hasDecorations with
  | true =>
    have hmoved := @moved_rows edits [] edits (fun _ => true) (fun _ _ _ hb => linePair_line h hb) rfl (.inl rfl)
    rw [filter_eq_self.2 fun _ _ => rfl, filter_eq_self.2 fun _ _ => rfl] at hmoved
    exact scan_moved ⟨hmoved, fun _ hr => hr, fun _ hr => hr, rows_sorted 0 _⟩
  | false =>
    rw [← scanRows_filter, ← scanRows_filter (newDoc edits).length]
    have hmoved := @moved_rows edits [] edits isMarker (fun _ _ _ hb => linePair_plain h hb) rfl (.inl rfl)
    exact scan_moved ⟨hmoved, fun _ hr => (mem_filter.1 hr).1, fun _ hr => (mem_filter.1 hr).1,
      (rows_sorted 0 _).filter _⟩

end Blocks

/-! ## The offsets -/

/-- The six offsets of a block, mapped.  All but `to` are beginnings of lines; `to` is one if a line follows, else the end of
the document. -/
structure Mapped (edits : List Edit) (block block' : ConflictBlock) : Prop where
  «from» : mapPos edits block.from (-1) .simple = some block'.from
  oursFrom : mapPos edits block.oursFrom (-1) .simple = some block'.oursFrom
  oursTo : mapPos edits block.oursTo (-1) .simple = some block'.oursTo
  theirsFrom : mapPos edits block.theirsFrom (-1) .simple = some block'.theirsFrom
  theirsTo : mapPos edits block.theirsTo (-1) .simple = some block'.theirsTo
  «to» : mapPos edits block.to (if (startDoc edits)[block.to - 1]? = some 10 then -1 else 1) .simple = some block'.to

section Offsets
variable {edits : List Edit}

theorem mapPos_end (edits : List Edit) : mapPos edits (startDoc edits).length 1 .simple = some (newDoc edits).length := by
  have h := @mapPosFrom_end 0 0 1 edits (by decide)
  rwa [Nat.zero_add, Nat.zero_add] at h

theorem MovedBlock.mapped {block block' : ConflictBlock} (h : MovedBlock edits block block') :
    Mapped edits block block' := by
  refine ⟨h.from.2.2 _, h.oursFrom.2.2 _, h.oursTo.2.2 _, h.theirsFrom.2.2 _, h.theirsTo.2.2 _, ?_⟩
  obtain ⟨row, row', hrow, -, hmoved, hne, -, -, -, hto, hto'⟩ := h.to
  rw [hto, hto']
  by_cases hnext : row.next ≤ (startDoc edits).length
  · obtain ⟨hnext', hmap⟩ := hmoved.next hnext
    have hbreak : (startDoc edits)[row.next - 1]? = some 10 :=
      (next_lineStart hrow hnext).elim (fun h => absurd h (Nat.succ_ne_zero _)) (·.2)
    rw [Nat.min_eq_left hnext, Nat.min_eq_left hnext', if_pos hbreak]
    exact hmap _
  · have hstop := (row_bounds hrow).2
    have hsucc : row.next = row.stop + 1 := rfl
    have hlast : row.stop = (startDoc edits).length := by omega
    have hnext' := hmoved.last (by omega)
    have hbreak : ¬ (startDoc edits)[(startDoc edits).length - 1]? = some 10 := by
      have := not_break_inside hrow hne
      rwa [hlast] at this
    rw [Nat.min_eq_right (by omega), Nat.min_eq_right (by omega), if_neg hbreak]
    exact mapPos_end edits

/-- **Without a new scan the blocks of the new document are the old blocks, mapped.** -/
theorem scanConflicts_mapped (hasDecorations : Bool) (h : needsConflictScan edits hasDecorations = false) :
    List.Forall₂ (Mapped edits) (scanConflicts (startDoc edits)) (scanConflicts (newDoc edits)) :=
  (scanConflicts_moved h).imp fun _ _ => MovedBlock.mapped

end Offsets

/-! ## The decorations -/

section Decorations
variable {doc : Text} {edits : List Edit} {block block' : ConflictBlock} {lines : List Row}

theorem start_order {i j : Nat} (hi : i < (rows 0 doc).length) (hj : j < (rows 0 doc).length) :
    (rows 0 doc)[i].start ≤ (rows 0 doc)[j].start ↔ i ≤ j := by
  have hnext : ∀ row : Row, row.next = row.start + row.line.length + 1 := fun _ => rfl
  constructor
  · intro hle
    by_contra hlt
    have := rows_order hj hi (by omega)
    rw [hnext] at this
    omega
  · intro hle
    by_cases hij : i = j
    · subst hij
      exact Nat.le_refl _
    · have := rows_order hi hj (by omega)
      rw [hnext] at this
      omega

theorem order_moved (hmoved : List.Forall₂ (Moved edits) (rows 0 (startDoc edits)) (rows 0 (newDoc edits)))
    {pos pos' : Nat} (hpoint : PointMoved edits pos pos') {row row' : Row} (hrow : row ∈ rows 0 (startDoc edits))
    (hm : Moved edits row row') :
    (pos ≤ row.start ↔ pos' ≤ row'.start) ∧ (row.start ≤ pos ↔ row'.start ≤ pos') := by
  obtain ⟨q, hq, rfl⟩ := lineStart_row hpoint.1 hpoint.2.1
  obtain ⟨hlen, hget⟩ := forall₂_iff_get.1 hmoved
  obtain ⟨i, hi, rfl⟩ := getElem_of_mem hq
  obtain ⟨j, hj, rfl⟩ := getElem_of_mem hrow
  have hi' := hlen ▸ hi
  have hj' := hlen ▸ hj
  have hpos' : pos' = (rows 0 (newDoc edits))[i].start :=
    Option.some.inj ((hpoint.2.2 .simple).symm.trans ((hget i hi hi').start .simple))
  have hrow' : row'.start = (rows 0 (newDoc edits))[j].start :=
    Option.some.inj ((hm.start .simple).symm.trans ((hget j hj hj').start .simple))
  rw [hpos', hrow', start_order, start_order, start_order, start_order]
  exact ⟨Iff.rfl, Iff.rfl⟩

theorem filter_from (hsorted : lines.Pairwise fun a b => a.next ≤ b.start) {k : Nat} (hk : k < lines.length) :
    lines.drop k = lines.filter fun line => lines[k].start ≤ line.start := by
  induction lines generalizing k with
  | nil => exact absurd hk (Nat.not_lt_zero _)
  | cons row lines ih =>
    obtain ⟨hrow, hlines⟩ := pairwise_cons.1 hsorted
    have hnext : row.next = row.start + row.line.length + 1 := rfl
    cases k with
    | zero =>
      refine (filter_eq_self.2 fun q hq => decide_eq_true ?_).symm
      rcases mem_cons.1 hq with rfl | hq
      · exact Nat.le_refl _
      · have := hrow q hq
        show row.start ≤ q.start
        omega
    | succ k =>
      have hk' : k < lines.length := Nat.lt_of_succ_lt_succ hk
      have hge := hrow lines[k] (getElem_mem hk')
      have hneg : ¬ decide (lines[k].start ≤ row.start) = true := by
        rw [decide_eq_true_eq]
        omega
      have hskip := filter_cons_of_neg (p := fun line : Row => lines[k].start ≤ line.start) (l := lines) hneg
      exact (ih hlines hk').trans hskip.symm

theorem takeWhile_lt (hsorted : lines.Pairwise fun a b => a.next ≤ b.start) (stop : Nat) :
    (lines.takeWhile fun line => line.start < stop) = lines.filter fun line => line.start < stop := by
  induction lines with
  | nil => rfl
  | cons row lines ih =>
    obtain ⟨hrow, hlines⟩ := pairwise_cons.1 hsorted
    have hnext : row.next = row.start + row.line.length + 1 := rfl
    rw [takeWhile_cons, filter_cons, ih hlines]
    by_cases hlt : row.start < stop
    · simp only [hlt, decide_true, if_true]
    · simp only [hlt, decide_false, Bool.false_eq_true, if_false]
      refine (filter_eq_nil_iff.2 fun q hq => ?_).symm
      have := hrow q hq
      rw [decide_eq_true_eq]
      omega

def blockLines (doc : Text) (block : ConflictBlock) : List Row :=
  (rows 0 doc).filter fun line => block.from ≤ line.start ∧ line.start ≤ block.theirsTo

theorem blockDecorations_eq {first last : Row} (hfirst : first ∈ rows 0 doc) (hlast : last ∈ rows 0 doc)
    (hfrom : first.start = block.from) (htheirs : last.start = block.theirsTo) (hne : last.line ≠ [])
    (hto : block.to = min last.next doc.length) (index : Nat) :
    blockDecorations doc block index = (block.from, .widget index) ::
      (blockLines doc block).map fun line => (line.start, decorationOf block line) := by
  obtain ⟨k, hk, rfl⟩ := getElem_of_mem hfirst
  have hstop : (rows 0 doc)[k].start ≤ (rows 0 doc)[k].stop := Nat.le_add_right ..
  have hnumber := lineNumberAt_eq hk ⟨Nat.le_refl _, hstop⟩
  have hline : lineAt doc (rows 0 doc)[k].start = (rows 0 doc)[k] := lineAt_eq hfirst ⟨Nat.le_refl _, hstop⟩
  rw [blockDecorations, ← hfrom, hline, hnumber, filter_from (rows_sorted 0 doc) hk,
    takeWhile_lt ((rows_sorted 0 doc).filter _), filter_filter, blockLines, ← hfrom]
  congr 2
  refine filter_congr fun row hrow => ?_
  rw [← Bool.decide_and]
  refine decide_eq_decide.2 ?_
  rw [and_comm]
  refine and_congr_right fun _ => ?_
  -- A line begins before the end of the block exactly when it begins no later than the closing marker.
  obtain ⟨i, hi, rfl⟩ := getElem_of_mem hrow
  obtain ⟨j, hj, rfl⟩ := getElem_of_mem hlast
  have hnext : (rows 0 doc)[j].next = (rows 0 doc)[j].start + (rows 0 doc)[j].line.length + 1 := rfl
  have hlen := length_pos_iff.2 hne
  have hbound := (row_bounds hlast).2
  rw [Row.stop] at hbound
  rw [← htheirs, start_order hi hj, hto]
  constructor
  · intro hlt
    by_contra hij
    have := rows_order hj hi (by omega)
    omega
  · intro hij
    have := (start_order hi hj).2 hij
    omega

def DecorationMoved (edits : List Edit) (entry entry' : Nat × Decoration) : Prop :=
  mapPos edits entry.1 (-1) .trackBefore = some entry'.1 ∧ entry.2 = entry'.2

theorem mapDecorations_eq {deco deco' : List (Nat × Decoration)} (h : List.Forall₂ (DecorationMoved edits) deco deco') :
    mapDecorations edits deco = deco' := by
  induction h with
  | nil => rfl
  | @cons entry entry' deco deco' hentry _ ih =>
    obtain ⟨pos, decoration⟩ := entry
    obtain ⟨pos', decoration'⟩ := entry'
    obtain ⟨hpos, rfl⟩ := hentry
    have hmap : (mapPos edits pos (-1) .trackBefore).map (·, decoration) = some (pos', decoration) := by
      rw [hpos]
      rfl
    have hcons := filterMap_cons_some
      (f := fun entry : Nat × Decoration => (mapPos edits entry.1 (-1) .trackBefore).map (·, entry.2))
      (a := (pos, decoration)) (l := deco) hmap
    exact hcons.trans (congrArg _ ih)

theorem blockDecorations_moved (hmoved : List.Forall₂ (Moved edits) (rows 0 (startDoc edits)) (rows 0 (newDoc edits)))
    (h : MovedBlock edits block block') (index : Nat) :
    List.Forall₂ (DecorationMoved edits) (blockDecorations (startDoc edits) block index)
      (blockDecorations (newDoc edits) block' index) := by
  obtain ⟨last, last', hlast, hlast', hm, hne, hne', hstart, hstart', hto, hto'⟩ := h.to
  obtain ⟨first, hfirst, hfrom⟩ := lineStart_row h.from.1 h.from.2.1
  obtain ⟨hlen, hget⟩ := forall₂_iff_get.1 hmoved
  obtain ⟨k, hk, rfl⟩ := getElem_of_mem hfirst
  have hk' := hlen ▸ hk
  have hfrom' : (rows 0 (newDoc edits))[k].start = block'.from :=
    Option.some.inj (((hget k hk hk').start .simple).symm.trans (hfrom ▸ h.from.2.2 .simple))
  rw [blockDecorations_eq hfirst hlast hfrom hstart hne hto,
    blockDecorations_eq (getElem_mem hk') hlast' hfrom' hstart' hne' hto']
  refine .cons ⟨h.from.2.2 _, rfl⟩ ?_
  rw [forall₂_map_left_iff, forall₂_map_right_iff]
  have hboth : List.Forall₂ (fun row row' => row ∈ rows 0 (startDoc edits) ∧ Moved edits row row')
      (rows 0 (startDoc edits)) (rows 0 (newDoc edits)) := (forall₂_and_left _ _).2 ⟨fun _ hr => hr, hmoved⟩
  have hfilter : List.Forall₂ (fun row row' => row ∈ rows 0 (startDoc edits) ∧ Moved edits row row')
      (blockLines (startDoc edits) block) (blockLines (newDoc edits) block') := by
    refine rel_filter (fun row row' hr => ?_) hboth
    have h1 := (order_moved hmoved h.from hr.1 hr.2).1
    have h2 := (order_moved hmoved h.theirsTo hr.1 hr.2).2
    show decide (block.from ≤ row.start ∧ row.start ≤ block.theirsTo) = true ↔
      decide (block'.from ≤ row'.start ∧ row'.start ≤ block'.theirsTo) = true
    rw [decide_eq_true_eq, decide_eq_true_eq, h1, h2]
  refine hfilter.imp fun row row' hr => ⟨hr.2.start _, ?_⟩
  have h1 := order_moved hmoved h.oursFrom hr.1 hr.2
  have h2 := order_moved hmoved h.oursTo hr.1 hr.2
  have h3 := order_moved hmoved h.theirsFrom hr.1 hr.2
  have h4 := order_moved hmoved h.theirsTo hr.1 hr.2
  simp only [decorationOf, h1.1, h3.1, ← Nat.not_le, h2.1, h4.1]

theorem buildDecorations_moved (hmoved : List.Forall₂ (Moved edits) (rows 0 (startDoc edits)) (rows 0 (newDoc edits)))
    {blocks blocks' : List ConflictBlock} (h : List.Forall₂ (MovedBlock edits) blocks blocks') (index : Nat) :
    List.Forall₂ (DecorationMoved edits)
      ((blocks.zipIdx index).flatMap fun entry => blockDecorations (startDoc edits) entry.1 entry.2)
      ((blocks'.zipIdx index).flatMap fun entry => blockDecorations (newDoc edits) entry.1 entry.2) := by
  induction h generalizing index with
  | nil => exact .nil
  | cons hblock _ ih =>
    exact rel_append (blockDecorations_moved hmoved hblock index) (ih (index + 1))

theorem same_of_unchanged (h : docChanged edits = false) : startDoc edits = newDoc edits := by
  refine kept_of_no_change fun ⟨d, i, hm⟩ => ?_
  exact absurd (any_eq_false.1 h _ hm) (by simp)

theorem no_blocks_of_no_decorations (h : (buildDecorations doc).isEmpty = true) : scanConflicts doc = [] := by
  cases hs : scanConflicts doc with
  | nil => rfl
  | cons block blocks =>
    rw [buildDecorations, hs, zipIdx_cons, flatMap_cons, blockDecorations] at h
    cases h

/-- **The field always holds what a new scan would build.** -/
theorem update_rebuilds (edits : List Edit) :
    update (buildDecorations (startDoc edits)) edits = buildDecorations (newDoc edits) := by
  rw [update]
  by_cases hchanged : docChanged edits = false
  · rw [if_pos hchanged, same_of_unchanged hchanged]
  rw [if_neg hchanged]
  by_cases hscan : needsConflictScan edits (!(buildDecorations (startDoc edits)).isEmpty) = false
  · rw [if_pos hscan]
    have hblocks := scanConflicts_moved hscan
    by_cases hempty : (buildDecorations (startDoc edits)).isEmpty = true
    · rw [if_pos hempty, isEmpty_iff.1 hempty]
      rw [no_blocks_of_no_decorations hempty] at hblocks
      rw [buildDecorations, forall₂_nil_left_iff.1 hblocks]
      rfl
    · rw [if_neg hempty]
      rw [Bool.not_eq_true] at hempty
      rw [hempty] at hscan
      have hmoved := @moved_rows edits [] edits (fun _ => true) (fun _ _ _ hb => linePair_line hscan hb) rfl (.inl rfl)
      rw [filter_eq_self.2 fun _ _ => rfl, filter_eq_self.2 fun _ _ => rfl] at hmoved
      exact mapDecorations_eq (buildDecorations_moved hmoved hblocks 0)
  · rw [if_neg hscan]

/-- **An edit that asks for no scan moves the blocks**, and the field holds what a new scan would build after every edit. -/
theorem conflicts_follow (edits : List Edit) : (∀ hasDecorations, needsConflictScan edits hasDecorations = false →
      List.Forall₂ (Mapped edits) (scanConflicts (startDoc edits)) (scanConflicts (newDoc edits))) ∧
    update (buildDecorations (startDoc edits)) edits = buildDecorations (newDoc edits) :=
  ⟨fun hasDecorations => scanConflicts_mapped hasDecorations, update_rebuilds edits⟩

end Decorations

/-! ## Behind the last line -/

def bareConflict : Text := startMark ++ 10 :: splitMark ++ 10 :: endMark

/-- Text put at the beginning of the line after a conflict, and at the end of a document that ends with one. -/
def bothEnds : List Edit :=
  bareConflict.map .keep ++ Edit.keep 10 :: .change [] [97] :: .keep 98 :: .keep 10 ::
    bareConflict.map .keep ++ [Edit.change [] [99]]

theorem conflicts_follow_bothEnds : needsConflictScan bothEnds true = false ∧
    List.Forall₂ (Mapped bothEnds) (scanConflicts (startDoc bothEnds)) (scanConflicts (newDoc bothEnds)) :=
  ⟨by decide, (conflicts_follow bothEnds).1 true (by decide)⟩

theorem bothEnds_before : scanConflicts (startDoc bothEnds) = [⟨0, 24, 8, 8, 16, 16⟩, ⟨26, 49, 34, 34, 42, 42⟩] := by
  have hrows : rows 0 (startDoc bothEnds) = [⟨0, startMark⟩, ⟨8, splitMark⟩, ⟨16, endMark⟩, ⟨24, [98]⟩, ⟨26, startMark⟩,
      ⟨34, splitMark⟩, ⟨42, endMark⟩] := rfl
  rw [scanConflicts_eq, hrows, scanRows_start (by decide)]
  show _ :: scanRows _ [⟨24, [98]⟩, ⟨26, startMark⟩, ⟨34, splitMark⟩, ⟨42, endMark⟩] = _
  rw [scanRows_skip (by decide), scanRows_start (by decide)]
  show _ :: _ :: scanRows _ [] = _
  rw [scanRows_nil]
  rfl

theorem bothEnds_after : scanConflicts (newDoc bothEnds) = [⟨0, 24, 8, 8, 16, 16⟩, ⟨27, 51, 35, 35, 43, 43⟩] := by
  have hrows : rows 0 (newDoc bothEnds) = [⟨0, startMark⟩, ⟨8, splitMark⟩, ⟨16, endMark⟩, ⟨24, [97, 98]⟩, ⟨27, startMark⟩,
      ⟨35, splitMark⟩, ⟨43, endMark ++ [99]⟩] := rfl
  rw [scanConflicts_eq, hrows, scanRows_start (by decide)]
  show _ :: scanRows _ [⟨24, [97, 98]⟩, ⟨27, startMark⟩, ⟨35, splitMark⟩, ⟨43, endMark ++ [99]⟩] = _
  rw [scanRows_skip (by decide), scanRows_start (by decide)]
  show _ :: _ :: scanRows _ [] = _
  rw [scanRows_nil]
  rfl

/-- Whichever side of an insertion a position stays on, the end of some block is not where the new scan puts it: at the
beginning of the next line it stays before what is inserted, at the end of the document it goes behind. -/
theorem no_side_for_ends : ¬ ∃ assoc : Int, ∀ edits hasDecorations, needsConflictScan edits hasDecorations = false →
    List.Forall₂ (fun block block' => mapPos edits block.to assoc .simple = some block'.to)
      (scanConflicts (startDoc edits)) (scanConflicts (newDoc edits)) := by
  rintro ⟨assoc, h⟩
  have hends := h bothEnds true (by decide)
  rw [bothEnds_before, bothEnds_after, forall₂_cons, forall₂_cons] at hends
  obtain ⟨hfirst, hsecond, -⟩ := hends
  by_cases hside : assoc < 0
  · have hat : mapPos bothEnds 49 assoc .simple = some 50 :=
      (mapPosFrom_side (iff_of_true hside (show (-1 : Int) < 0 by decide)) bothEnds).trans rfl
    cases hat.symm.trans hsecond
  · have hat : mapPos bothEnds 24 assoc .simple = some 25 :=
      (mapPosFrom_side (iff_of_false hside (show ¬ (1 : Int) < 0 by decide)) bothEnds).trans rfl
    cases hat.symm.trans hfirst

end ConflictMarkers
end Yuzora
