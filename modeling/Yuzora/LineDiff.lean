import Mathlib.Algebra.Order.Ring.Int
import Yuzora.Subsequence
import Yuzora.Utf16
/-!
# LineDiff — the counts of a diff header

Lines are counted, the common beginning and end of the two lists are skipped, and what is between them is moved to the
front of its array and handed to the dynamic program.  What is counted is the length of a longest common subsequence of
all the lines (`lineDiffCounts_longest`).
-/
namespace Yuzora
namespace LineDiff

open List
open Utf16 (Text)
open Subsequence (Longest)

structure DiffCounts where
  added : Int
  deleted : Int
  deriving DecidableEq

def LINE_DIFF_CELL_LIMIT : Nat := 200000

def newline : Nat := 10

variable (text : Text)

def countLines : Nat :=
  if text = [] then 0
  else
    let count := text.foldl (fun count unit => if unit = newline then count + 1 else count) 1
    if text.getLast? = some newline then count - 1 else count

def toLines : List Text :=
  if text = [] then []
  else
    let lines := text.splitOn newline
    if lines.getLast? = some [] then lines.dropLast else lines

section Rows
variable {α : Type} [DecidableEq α] (a b : List α)

/-- What the inner loop writes to `curr[j]`. -/
def cell (i j : Nat) (prev curr : List Nat) : Nat :=
  if a[i - 1]? = b[j - 1]? then prev.getD (j - 1) 0 + 1 else max (prev.getD j 0) (curr.getD (j - 1) 0)

def fillRow (i : Nat) (prev curr : List Nat) : List Nat :=
  (List.range' 1 b.length).foldl (fun curr j => curr.set j (cell a b i j prev curr)) curr

def lcsLength : Nat :=
  if a.length = 0 ∨ b.length = 0 then 0
  else
    let row := List.replicate (b.length + 1) 0
    let rows := (List.range' 1 a.length).foldl (fun rows i => (fillRow a b i rows.1 rows.2, rows.1)) (row, row)
    rows.1.getD b.length 0

/-- `while (start < endA && start < endB && a[start] === b[start]) start++` -/
def trimStart (start : Nat) : Nat :=
  if start < a.length ∧ start < b.length ∧ a[start]? = b[start]? then trimStart (start + 1) else start
termination_by a.length - start

/-- `while (endA > start && endB > start && a[endA - 1] === b[endB - 1])` -/
def trimEnd (start endA endB : Nat) : Nat × Nat :=
  if endA > start ∧ endB > start ∧ a[endA - 1]? = b[endB - 1]? then trimEnd start (endA - 1) (endB - 1)
  else (endA, endB)
termination_by endA

/-- `Array.prototype.copyWithin` -/
def copyWithin (l : List α) (target start stop : Nat) : List α :=
  let count := min (stop - start) (l.length - target)
  l.take target ++ (l.drop start).take count ++ l.drop (target + count)

/-- The arrays as the dynamic program gets them: their middles are moved to the front, and the lengths are cut. -/
def compact (common start endA endB : Nat) : List α × List α :=
  if common > 0 then
    let moved := if start > 0 then (copyWithin a 0 start endA, copyWithin b 0 start endB) else (a, b)
    (moved.1.take (endA - start), moved.2.take (endB - start))
  else (a, b)

def commonCount : Nat :=
  let start := trimStart a b 0
  let ends := trimEnd a b start a.length b.length
  let common := start + a.length - ends.1
  if ends.1 > start ∧ ends.2 > start then
    let arrays := compact a b common start ends.1 ends.2
    common + lcsLength arrays.1 arrays.2
  else common

end Rows

def exceedsCellLimit (countA countB : Nat) : Bool :=
  if countA = 0 ∨ countB = 0 then false else decide (countA > LINE_DIFF_CELL_LIMIT / countB)

def lineDiffCounts (original modified : Text) : Option DiffCounts :=
  let countA := countLines original
  let countB := countLines modified
  if countA = 0 then some { added := countB, deleted := 0 }
  else if countB = 0 then some { added := 0, deleted := countA }
  else if exceedsCellLimit countA countB then none
  else
    let common := commonCount (toLines original) (toLines modified)
    some { added := countB - common, deleted := countA - common }

/-! ## Lines -/

theorem count_loop (count : Nat) :
    text.foldl (fun count unit => if unit = newline then count + 1 else count) count = count + text.count newline := by
  induction text generalizing count with
  | nil => rfl
  | cons unit text ih =>
    rw [foldl_cons, ih, count_cons]
    by_cases h : unit = newline
    · simp [h]
      omega
    · simp [h]

theorem length_splitOn : (text.splitOn newline).length = text.count newline + 1 := by
  induction text with
  | nil => simp
  | cons unit text ih =>
    rw [splitOn_cons_eq_if_modifyHead, count_cons]
    by_cases h : unit = newline <;> simp [h, ih]

theorem getLast_splitOn (h : text ≠ []) :
    (text.splitOn newline).getLast? = some [] ↔ text.getLast? = some newline := by
  induction text with
  | nil => exact absurd rfl h
  | cons unit rest ih =>
    rw [splitOn_cons_eq_if_modifyHead]
    by_cases hrest : rest = []
    · subst hrest
      by_cases hunit : unit = newline <;> simp [hunit]
    · have ih := ih hrest
      have hlast : (unit :: rest).getLast? = rest.getLast? := getLast?_cons_of_ne_nil hrest
      have hjoin : [newline].intercalate (rest.splitOn newline) = rest := intercalate_splitOn newline
      rw [hlast, ← ih]
      cases hlines : rest.splitOn newline with
      | nil => exact absurd hlines (splitOn_ne_nil newline rest)
      | cons line lines =>
        rw [hlines] at hjoin
        by_cases hunit : unit = newline
        · simp [hunit]
        · cases lines with
          | nil =>
            have : line ≠ [] := by
              rintro rfl
              exact hrest (by simpa using hjoin.symm)
            simp [hunit, this]
          | cons next lines => simp [hunit]

/-- **The lines that are counted are the lines there are.** -/
theorem countLines_eq : countLines text = (toLines text).length := by
  unfold countLines toLines
  by_cases h : text = []
  · simp [h]
  · simp only [if_neg h, count_loop, getLast_splitOn text h]
    by_cases hlast : text.getLast? = some newline
    · simp only [if_pos hlast, length_dropLast, length_splitOn]
      omega
    · simp only [if_neg hlast, length_splitOn]
      omega

example : toLines [97, 10] = [[97]] := by decide
example : toLines [10, 10] = [[], []] := by decide

/-! ## The dynamic program -/

section Rows
variable {α : Type} [DecidableEq α] {a b : List α} {prev curr : List Nat} {start stop : Nat}

/-- A row that is right up to `k`. -/
structure RowTo (a b : List α) (i k : Nat) (row : List Nat) : Prop where
  length : row.length = b.length + 1
  zero : row.getD 0 0 = 0
  cells : ∀ j ≤ k, Longest (a.take i) (b.take j) (row.getD j 0)

theorem longest_cell {i j : Nat} (hi : i < a.length) (hj : j < b.length)
    (hprev : RowTo a b i b.length prev) (hcurr : Longest (a.take (i + 1)) (b.take j) (curr.getD j 0)) :
    Longest (a.take (i + 1)) (b.take (j + 1)) (cell a b (i + 1) (j + 1) prev curr) := by
  have ha : a.take (i + 1) = a.take i ++ [a[i]] := take_succ_eq_append_getElem hi
  have hb : b.take (j + 1) = b.take j ++ [b[j]] := take_succ_eq_append_getElem hj
  have hdiag := hprev.cells j (by omega)
  have hup := hprev.cells (j + 1) (by omega)
  simp only [cell, Nat.add_sub_cancel, getElem?_eq_getElem hi, getElem?_eq_getElem hj, Option.some.injEq]
  by_cases h : a[i] = b[j]
  · rw [if_pos h, ha, hb, h]
    exact hdiag.snoc _
  · rw [if_neg h, ha, hb]
    rw [hb] at hup
    rw [ha] at hcurr
    exact hup.snoc_ne h hcurr

theorem fillRow_to {i : Nat} (hi : i < a.length) (hprev : RowTo a b i b.length prev)
    (hlength : curr.length = b.length + 1) (hzero : curr.getD 0 0 = 0) : ∀ k ≤ b.length,
    RowTo a b (i + 1) k
      ((List.range' 1 k).foldl (fun curr j => curr.set j (cell a b (i + 1) j prev curr)) curr) := by
  intro k
  induction k with
  | zero =>
    intro _
    refine ⟨hlength, hzero, fun j hj => ?_⟩
    obtain rfl : j = 0 := by omega
    rw [range'_zero, foldl_nil, hzero, take_zero]
    exact Subsequence.longest_nil_right _
  | succ k ih =>
    intro hk
    have ih := ih (by omega)
    rw [range'_1_concat, foldl_concat, Nat.add_comm 1 k]
    generalize (List.range' 1 k).foldl _ curr = row at ih ⊢
    have hrow := ih.length
    refine ⟨by rw [length_set, hrow], ?_, fun j hj => ?_⟩
    · have hz := ih.zero
      simpa [getD_eq_getElem?_getD] using hz
    · by_cases hjk : j = k + 1
      · subst hjk
        have hset : (row.set (k + 1) (cell a b (i + 1) (k + 1) prev row)).getD (k + 1) 0 =
            cell a b (i + 1) (k + 1) prev row := by
          simp [getD_eq_getElem?_getD, show k + 1 < row.length by omega]
        rw [hset]
        exact longest_cell hi (by omega) hprev (ih.cells k (Nat.le_refl _))
      · have hset : (row.set (k + 1) (cell a b (i + 1) (k + 1) prev row)).getD j 0 = row.getD j 0 := by
          simp [getD_eq_getElem?_getD, Ne.symm hjk]
        rw [hset]
        exact ih.cells j (by omega)

theorem rows_to : ∀ i ≤ a.length, ∀ {row : List Nat}, row = List.replicate (b.length + 1) 0 →
    let rows := (List.range' 1 i).foldl (fun rows i => (fillRow a b i rows.1 rows.2, rows.1)) (row, row)
    RowTo a b i b.length rows.1 ∧ rows.2.length = b.length + 1 ∧ rows.2.getD 0 0 = 0 := by
  intro i
  induction i with
  | zero =>
    rintro _ row rfl
    refine ⟨⟨by simp, by simp, fun j hj => ?_⟩, by simp, by simp⟩
    have : (List.replicate (b.length + 1) 0).getD j 0 = 0 := by
      simp [getD_eq_getElem?_getD, getElem?_replicate]
      split <;> rfl
    rw [range'_zero, foldl_nil, this, take_zero]
    exact Subsequence.longest_nil_left _
  | succ i ih =>
    intro hi row hrow
    obtain ⟨hprev, hlength, hzero⟩ := ih (by omega) hrow
    simp only [range'_1_concat, foldl_concat, Nat.add_comm 1 i]
    exact ⟨fillRow_to (by omega) hprev hlength hzero b.length (Nat.le_refl _), hprev.length, hprev.zero⟩

/-- **The dynamic program computes the length of a longest common subsequence.** -/
theorem longest_lcsLength (a b : List α) : Longest a b (lcsLength a b) := by
  unfold lcsLength
  by_cases h : a.length = 0 ∨ b.length = 0
  · rw [if_pos h]
    rcases h with h | h
    · rw [length_eq_zero_iff.1 h]
      exact Subsequence.longest_nil_left _
    · rw [length_eq_zero_iff.1 h]
      exact Subsequence.longest_nil_right _
  · rw [if_neg h]
    have := (rows_to (a := a) (b := b) a.length (Nat.le_refl _) rfl).1.cells b.length (Nat.le_refl _)
    simpa only [take_length] using this

/-! ## Trimming -/

theorem trimStart_spec (start : Nat) (ha : start ≤ a.length) (hb : start ≤ b.length) (h : a.take start = b.take start) :
    trimStart a b start ≤ a.length ∧ trimStart a b start ≤ b.length ∧
      a.take (trimStart a b start) = b.take (trimStart a b start) := by
  fun_induction trimStart a b start with
  | case1 start hmore ih =>
    obtain ⟨hi, hj, heq⟩ := hmore
    refine ih hi hj ?_
    rw [getElem?_eq_getElem hi, getElem?_eq_getElem hj, Option.some.injEq] at heq
    rw [take_succ_eq_append_getElem hi, take_succ_eq_append_getElem hj, h, heq]
  | case2 start hstop => exact ⟨ha, hb, h⟩

/-- The skipped ends are common, and do not reach into the skipped beginning. -/
structure Trimmed (a b : List α) (start : Nat) (ends : Nat × Nat) : Prop where
  startA : start ≤ ends.1
  startB : start ≤ ends.2
  endA : ends.1 ≤ a.length
  endB : ends.2 ≤ b.length
  common : a.drop ends.1 = b.drop ends.2

theorem trimEnd_spec {start endA endB : Nat} (h : Trimmed a b start (endA, endB)) :
    Trimmed a b start (trimEnd a b start endA endB) := by
  fun_induction trimEnd a b start endA endB with
  | case1 endA endB hmore ih =>
    obtain ⟨hi, hj, heq⟩ := hmore
    have hA := h.endA
    have hB := h.endB
    have hcommon := h.common
    have hi' : endA - 1 < a.length := by omega
    have hj' : endB - 1 < b.length := by omega
    rw [getElem?_eq_getElem hi', getElem?_eq_getElem hj', Option.some.injEq] at heq
    refine ih ⟨by simp only; omega, by simp only; omega, by simp only; omega, by simp only; omega, ?_⟩
    rw [drop_eq_getElem_cons hi', drop_eq_getElem_cons hj', heq, show endA - 1 + 1 = endA by omega,
      show endB - 1 + 1 = endB by omega, hcommon]
  | case2 endA endB hstop => exact h

omit [DecidableEq α] in
theorem copyWithin_front (l : List α) (h : start ≤ stop) (hstop : stop ≤ l.length) :
    (copyWithin l 0 start stop).take (stop - start) = (l.take stop).drop start := by
  have hcount : min (stop - start) (l.length - 0) = stop - start := by omega
  simp only [copyWithin, hcount, take_zero, nil_append]
  rw [take_append_of_le_length (by simp; omega), take_take, Nat.min_self, take_drop]
  congr 2
  omega

omit [DecidableEq α] in
/-- **The compacted arrays are the middles.** -/
theorem compact_eq {start : Nat} {ends : Nat × Nat} (h : Trimmed a b start ends) :
    compact a b (start + a.length - ends.1) start ends.1 ends.2 =
      ((a.take ends.1).drop start, (b.take ends.2).drop start) := by
  have hlength := congrArg List.length h.common
  have h1 := h.startA
  have h2 := h.startB
  have h3 := h.endA
  have h4 := h.endB
  simp only [length_drop] at hlength
  unfold compact
  by_cases hcommon : start + a.length - ends.1 > 0
  · rw [if_pos hcommon]
    by_cases hstart : start > 0
    · simp only [if_pos hstart, copyWithin_front a h1 h3, copyWithin_front b h2 h4]
    · obtain rfl : start = 0 := by omega
      simp
  · rw [if_neg hcommon]
    obtain rfl : start = 0 := by omega
    have hA : ends.1 = a.length := by omega
    have hB : ends.2 = b.length := by omega
    simp [hA, hB]

omit [DecidableEq α] in
theorem parts (l : List α) (h : start ≤ stop) : l = l.take start ++ (l.take stop).drop start ++ l.drop stop := by
  have : l.take start = (l.take stop).take start := by rw [take_take, Nat.min_eq_left h]
  rw [this, take_append_drop, take_append_drop]

/-- **Trimming and compacting change nothing.** -/
theorem longest_commonCount (a b : List α) : Longest a b (commonCount a b) := by
  obtain ⟨hA, hB, hstart⟩ := trimStart_spec (a := a) (b := b) 0 (Nat.zero_le _) (Nat.zero_le _) rfl
  have hends : Trimmed a b (trimStart a b 0) (trimEnd a b (trimStart a b 0) a.length b.length) :=
    trimEnd_spec ⟨hA, hB, Nat.le_refl _, Nat.le_refl _, by simp⟩
  unfold commonCount
  dsimp only
  generalize trimStart a b 0 = start at hA hB hstart hends ⊢
  generalize trimEnd a b start a.length b.length = ends at hends ⊢
  -- the middles are between the common ends
  have hwhole : ∀ {n : Nat}, Longest ((a.take ends.1).drop start) ((b.take ends.2).drop start) n →
      Longest a b (start + a.length - ends.1 + n) := by
    intro n hn
    have hall := (hn.append_left (a.take start)).append_right (a.drop ends.1)
    rw [← parts a hends.startA, hends.common, hstart, ← parts b hends.startB] at hall
    have h3 := hends.endA
    have hcount : (b.take start).length + n + (b.drop ends.2).length = start + a.length - ends.1 + n := by
      rw [← hends.common, length_take, length_drop]
      omega
    rwa [hcount] at hall
  by_cases hmiddle : ends.1 > start ∧ ends.2 > start
  · rw [if_pos hmiddle, compact_eq hends]
    exact hwhole (longest_lcsLength _ _)
  · rw [if_neg hmiddle]
    have hempty : Longest ((a.take ends.1).drop start) ((b.take ends.2).drop start) 0 := by
      by_cases h : ends.1 > start
      · have : (b.take ends.2).drop start = [] := drop_eq_nil_of_le (by simp; omega)
        rw [this]
        exact Subsequence.longest_nil_right _
      · have : (a.take ends.1).drop start = [] := drop_eq_nil_of_le (by simp; omega)
        rw [this]
        exact Subsequence.longest_nil_left _
    exact hwhole hempty

end Rows

/-! ## The counts -/

/-- **The counts of a diff header**: the lines on each side that are not in a longest common subsequence of all the lines,
as the dynamic program over the whole lists counts them. -/
theorem lineDiffCounts_longest (original modified : Text)
    (h : exceedsCellLimit (countLines original) (countLines modified) = false) :
    ∃ n : Nat, Longest (toLines original) (toLines modified) n ∧ n = lcsLength (toLines original) (toLines modified) ∧
      lineDiffCounts original modified =
        some { added := (toLines modified).length - n, deleted := (toLines original).length - n } := by
  refine ⟨_, longest_lcsLength _ _, rfl, ?_⟩
  have hcommon := (longest_commonCount (toLines original) (toLines modified)).unique (longest_lcsLength _ _)
  rw [countLines_eq, countLines_eq] at h
  simp only [lineDiffCounts, countLines_eq, h, Bool.false_eq_true, if_false, hcommon]
  by_cases hA : (toLines original).length = 0
  · rw [if_pos hA, lcsLength, if_pos (.inl hA), hA]
    rfl
  · rw [if_neg hA]
    by_cases hB : (toLines modified).length = 0
    · rw [if_pos hB, lcsLength, if_pos (.inr hB), hB]
      rfl
    · rw [if_neg hB]

theorem lineDiffCounts_longest_abc : exceedsCellLimit (countLines [97, 10, 98]) (countLines [97, 10, 99, 10]) = false ∧
    ∃ n : Nat, Longest (toLines [97, 10, 98]) (toLines [97, 10, 99, 10]) n ∧
      n = lcsLength (toLines [97, 10, 98]) (toLines [97, 10, 99, 10]) ∧
      lineDiffCounts [97, 10, 98] [97, 10, 99, 10] =
        some { added := (toLines [97, 10, 99, 10]).length - n, deleted := (toLines [97, 10, 98]).length - n } :=
  ⟨by decide, lineDiffCounts_longest _ _ (by decide)⟩

/-! ## Two and three texts -/

theorem counts_eq (original modified : Text) : ∃ n : Nat, Longest (toLines original) (toLines modified) n ∧
    lineDiffCounts original modified =
      if exceedsCellLimit (toLines original).length (toLines modified).length then none
      else some { added := (toLines modified).length - n, deleted := (toLines original).length - n } := by
  refine ⟨_, longest_commonCount _ _, ?_⟩
  simp only [lineDiffCounts, countLines_eq, exceedsCellLimit]
  have hempty : ∀ {a b : List Text}, a.length = 0 ∨ b.length = 0 → commonCount a b = 0 := by
    intro a b h
    rw [(longest_commonCount a b).unique (longest_lcsLength a b), lcsLength, if_pos h]
  by_cases hA : (toLines original).length = 0
  · simp [hA, hempty (.inl hA)]
  · by_cases hB : (toLines modified).length = 0
    · simp [hA, hB, hempty (.inr hB)]
    · simp [hA, hB]

theorem exceedsCellLimit_swap (countA countB : Nat) : exceedsCellLimit countB countA = exceedsCellLimit countA countB := by
  unfold exceedsCellLimit
  by_cases h : countA = 0 ∨ countB = 0
  · rw [if_pos h, if_pos h.symm]
  · rw [if_neg h, if_neg fun h' => h h'.symm]
    simp only [gt_iff_lt, decide_eq_decide]
    rw [Nat.div_lt_iff_lt_mul (by omega), Nat.div_lt_iff_lt_mul (by omega), Nat.mul_comm]

/-- **The other way round** what was added is deleted and what was deleted is added; a refusal stays one. -/
theorem lineDiffCounts_swap (original modified : Text) :
    lineDiffCounts modified original = (lineDiffCounts original modified).map fun c => ⟨c.deleted, c.added⟩ := by
  obtain ⟨n, hn, heq⟩ := counts_eq original modified
  obtain ⟨m, hm, heq'⟩ := counts_eq modified original
  rw [heq, heq', exceedsCellLimit_swap, hm.symm.unique hn]
  split <;> rfl

/-- **Counts are a distance**: nothing is counted exactly between texts with the same lines, and no more is counted from a
text to a third one than through any text between them. -/
theorem lineDiffCounts_distance (a b c : Text) :
    (∀ ab ∈ lineDiffCounts a b, ab = ⟨0, 0⟩ ↔ toLines a = toLines b) ∧
    ∀ ab ∈ lineDiffCounts a b, ∀ bc ∈ lineDiffCounts b c, ∀ ac ∈ lineDiffCounts a c,
      ac.added ≤ ab.added + bc.added ∧ ac.deleted ≤ ab.deleted + bc.deleted := by
  have hcounts : ∀ {x y : Text} {xy : DiffCounts}, xy ∈ lineDiffCounts x y → ∃ n : Nat,
      Longest (toLines x) (toLines y) n ∧ xy = ⟨(toLines y).length - n, (toLines x).length - n⟩ := by
    intro x y xy hxy
    obtain ⟨n, hn, heq⟩ := counts_eq x y
    rw [heq, Option.mem_def] at hxy
    split at hxy
    · cases hxy
    · exact ⟨n, hn, (Option.some.inj hxy).symm⟩
  refine ⟨fun ab hab => ?_, fun ab hab bc hbc ac hac => ?_⟩
  · obtain ⟨n, hn, rfl⟩ := hcounts hab
    rw [DiffCounts.mk.injEq]
    refine ⟨fun ⟨h1, h2⟩ => hn.eq_of_length (by omega) (by omega), fun h => ?_⟩
    rw [h] at hn ⊢
    rw [hn.unique (Subsequence.longest_self _)]
    omega
  · obtain ⟨m, hm, rfl⟩ := hcounts hab
    obtain ⟨n, hn, rfl⟩ := hcounts hbc
    obtain ⟨k, hk, rfl⟩ := hcounts hac
    have := hm.through hn hk
    dsimp only
    omega

end LineDiff
end Yuzora
