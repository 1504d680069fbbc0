import Mathlib.Order.Basic
import Yuzora.SqlSplit
/-!
# SqlTiling — where the units lie

Units are in the order of the source and do not overlap, and what lies between them is whitespace, comments, terminators
and `GO` lines (`Piece`).  The scan keeps this of what it has passed (`Scanned`).
-/
namespace Yuzora
namespace Sql

open List

/-! ## Between the units -/

variable (source : Text)

def WhitespaceAt (i : Nat) : Prop := ∃ c, source[i]? = some c ∧ isWhitespace c = true

def SolidAt (i : Nat) : Prop := ∃ c, source[i]? = some c ∧ isWhitespace c = false

def LineStart (i : Nat) : Prop :=
  i = 0 ∨ ∃ j, i = j + 1 ∧ (source[j]? = some newline ∨ source[j]? = some carriageReturn)

/-- The text closes so many comments, the last of them at its end. -/
inductive Closes (nested : Bool) : Nat → Text → Prop
  | done : Closes nested 0 []
  | opens {n : Nat} {rest : Text} : nested = true → Closes nested (n + 2) rest → Closes nested (n + 1) (47 :: 42 :: rest)
  | closes {n : Nat} {rest : Text} : Closes nested n rest → Closes nested (n + 1) (42 :: 47 :: rest)
  | skips {n : Nat} (c : Code) {rest : Text} : ¬ (nested = true ∧ (codes "/*").isPrefixOf (c :: rest) = true) →
      (codes "*/").isPrefixOf (c :: rest) = false → Closes nested (n + 1) rest → Closes nested (n + 1) (c :: rest)

/-- Whitespace or a comment, half open. -/
inductive Quiet (source : Text) (dialect : Dialect) : Nat → Nat → Prop
  | space (a : Nat) : WhitespaceAt source a → Quiet source dialect a (a + 1)
  | lineComment (a b : Nat) : startsWith (codes "--") source a = true → a + 2 ≤ b →
      (∀ i, a + 2 ≤ i → i < b → source[i]? ≠ some newline) → (b = source.length ∨ source[b]? = some newline) →
        Quiet source dialect a b
  | blockComment (a : Nat) (body : Text) : Closes (dialect ≠ .sqlite) 1 body →
      (∃ rest, source.drop a = codes "/*" ++ body ++ rest) → Quiet source dialect a (a + 2 + body.length)

/-- A line with nothing but `GO` and maybe a comment, from its word to the next line. -/
structure GoLineAt (source : Text) (lineStart a stop b : Nat) : Prop where
  line : LineStart source lineStart
  le : lineStart ≤ a
  indent : ∀ i, lineStart ≤ i → i < a → WhitespaceAt source i
  word : toUpperCase (slice source a (a + 2)) = codes "GO"
  lt : a + 2 ≤ stop
  one : ∀ i, a + 2 ≤ i → i < stop → source[i]? ≠ some newline
  suffix : isGoSuffix (dropReturn (slice source (a + 2) stop)) = true
  ends : (stop = source.length ∧ b = stop) ∨ (source[stop]? = some newline ∧ b = stop + 1)

/-- **What may lie between units**, half open. -/
inductive Piece (source : Text) (dialect : Dialect) : Nat → Nat → Prop
  | quiet {a b : Nat} : Quiet source dialect a b → Piece source dialect a b
  | terminator (a : Nat) : source[a]? = some 59 → Piece source dialect a (a + 1)
  | goLine {lineStart a stop b : Nat} : dialect = .mssql → GoLineAt source lineStart a stop b → Piece source dialect a b

/-- Pieces one after another. -/
inductive Gap (source : Text) (dialect : Dialect) (a : Nat) : Nat → Prop
  | nil : Gap source dialect a a
  | snoc {b c : Nat} : Gap source dialect a b → Piece source dialect b c → Gap source dialect a c

/-- Whitespace and comments one after another. -/
inductive QuietGap (source : Text) (dialect : Dialect) (a : Nat) : Nat → Prop
  | nil : QuietGap source dialect a a
  | snoc {b c : Nat} : QuietGap source dialect a b → Quiet source dialect b c → QuietGap source dialect a c

/-- A unit is its slice of the source, and begins and ends with something. -/
structure UnitOk (source : Text) (u : SqlUnit) : Prop where
  sql : u.sql = slice source u.start u.stop
  lt : u.start < u.stop
  le : u.stop ≤ source.length
  first : SolidAt source u.start
  last : SolidAt source (u.stop - 1)

/-- Where a unit may begin anew: at the start, after a unit, and after a terminator or a `GO` line outside all of them. -/
inductive Boundary (source : Text) (dialect : Dialect) (units : List SqlUnit) : Nat → Prop
  | start : Boundary source dialect units 0
  | unit (u : SqlUnit) : u ∈ units → Boundary source dialect units u.stop
  | piece {a b c : Nat} : Boundary source dialect units a → QuietGap source dialect a b → Piece source dialect b c →
      Boundary source dialect units c

/-- The position is in whitespace, a comment, a terminator or a `GO` line, and only whitespace and comments lie before that
up to a boundary. -/
def Outside (dialect : Dialect) (units : List SqlUnit) (i : Nat) : Prop :=
  ∃ a b c, Boundary source dialect units a ∧ QuietGap source dialect a b ∧ Piece source dialect b c ∧ b ≤ i ∧ i < c

/-- The units are in order and disjoint, each is its part of the source, and no SQL is lost. -/
structure Splits (source : Text) (dialect : Dialect) (units : List SqlUnit) : Prop where
  ordered : units.Pairwise fun u v => u.stop ≤ v.start
  sound : ∀ u ∈ units, UnitOk source u
  covered : ∀ i < source.length, (∃ u ∈ units, u.start ≤ i ∧ i < u.stop) ∨ Outside source dialect units i

/-- The units, with nothing but pieces between them, up to the end of the last one. -/
inductive Tiled (source : Text) (dialect : Dialect) : List SqlUnit → Nat → Prop
  | nil : Tiled source dialect [] 0
  | snoc {units : List SqlUnit} {e : Nat} (u : SqlUnit) : Tiled source dialect units e → Gap source dialect e u.start →
      UnitOk source u → Tiled source dialect (units ++ [u]) u.stop

section Gaps

variable {source : Text} {dialect : Dialect} {units : List SqlUnit} {a b c : Nat} {units' : List SqlUnit}

theorem Piece.lt (h : Piece source dialect a b) : a < b := by
  cases h with
  | quiet h => cases h <;> omega
  | terminator => omega
  | goLine _ h =>
    have := h.lt
    rcases h.ends with he | he <;> omega

theorem Gap.le (h : Gap source dialect a b) : a ≤ b := by
  induction h with
  | nil => exact Nat.le_refl a
  | snoc _ hp ih =>
    have := hp.lt
    omega

theorem gap_of_whitespace (hab : a ≤ b) (h : ∀ i, a ≤ i → i < b → WhitespaceAt source i) : Gap source dialect a b := by
  induction b with
  | zero =>
    have ha : a = 0 := by omega
    subst ha
    exact .nil
  | succ b ih =>
    by_cases hb : a = b + 1
    · subst hb
      exact .nil
    · have hle : a ≤ b := by omega
      exact (ih hle fun i hi hb => h i hi (by omega)).snoc (.quiet (.space b (h b hle (by omega))))

theorem Gap.boundary (h : Gap source dialect a b) (ha : Boundary source dialect units a) :
    ∃ e, Boundary source dialect units e ∧ QuietGap source dialect e b := by
  induction h with
  | nil => exact ⟨a, ha, .nil⟩
  | snoc _ hp ih =>
    obtain ⟨e, he, hq⟩ := ih
    cases hp with
    | quiet hp => exact ⟨e, he, hq.snoc hp⟩
    | terminator _ hs => exact ⟨_, he.piece hq (.terminator _ hs), .nil⟩
    | goLine hd hg => exact ⟨_, he.piece hq (.goLine hd hg), .nil⟩

theorem Gap.outside (h : Gap source dialect a b) (ha : Boundary source dialect units a) {i : Nat} (hi : a ≤ i)
    (hib : i < b) : Outside source dialect units i := by
  induction h with
  | nil => omega
  | @snoc b c hg hp ih =>
    by_cases hb : i < b
    · exact ih hb
    · obtain ⟨e, he, hq⟩ := hg.boundary ha
      exact ⟨e, b, c, he, hq, hp, by omega, hib⟩

theorem Boundary.mono (h : Boundary source dialect units a) (hu : units ⊆ units') :
    Boundary source dialect units' a := by
  induction h with
  | start => exact .start
  | unit u hm => exact .unit u (hu hm)
  | piece _ hq hp ih => exact ih.piece hq hp

theorem Outside.mono {i : Nat} (h : Outside source dialect units i) (hu : units ⊆ units') :
    Outside source dialect units' i := by
  obtain ⟨a, b, c, ha, h⟩ := h
  exact ⟨a, b, c, ha.mono hu, h⟩

section
variable (h : Tiled source dialect units a)
include h

theorem Tiled.boundary : Boundary source dialect units a := by
  cases h with
  | nil => exact .start
  | snoc u => exact .unit u (by simp)

theorem Tiled.sound : ∀ u ∈ units, UnitOk source u := by
  induction h with
  | nil => simp
  | snoc u _ _ hok ih =>
    intro v hv
    rcases mem_append.1 hv with hv | hv
    · exact ih v hv
    · simp only [mem_singleton] at hv
      exact hv ▸ hok

theorem Tiled.stop_le : ∀ u ∈ units, u.stop ≤ a := by
  induction h with
  | nil => simp
  | snoc u _ hg hok ih =>
    intro v hv
    have := hg.le
    have := hok.lt
    rcases mem_append.1 hv with hv | hv
    · have := ih v hv
      omega
    · simp only [mem_singleton] at hv
      exact hv ▸ Nat.le_refl v.stop

theorem Tiled.ordered : units.Pairwise fun u v => u.stop ≤ v.start := by
  induction h with
  | nil => exact .nil
  | @snoc units e u ht hg _ ih =>
    rw [pairwise_append]
    refine ⟨ih, pairwise_singleton _ _, fun v hv w hw => ?_⟩
    simp only [mem_singleton] at hw
    have := ht.stop_le v hv
    have := hg.le
    subst hw
    omega

theorem Tiled.covered : ∀ i < a, (∃ u ∈ units, u.start ≤ i ∧ i < u.stop) ∨ Outside source dialect units i := by
  induction h with
  | nil => simp
  | @snoc units e u ht hg _ ih =>
    intro i hi
    by_cases hs : u.start ≤ i
    · exact .inl ⟨u, by simp, hs, hi⟩
    · by_cases he : i < e
      · rcases ih i he with ⟨v, hv, h⟩ | h
        · exact .inl ⟨v, by simp [hv], h⟩
        · exact .inr (h.mono (by simp))
      · exact .inr ((hg.outside ht.boundary (by omega) (by omega)).mono (by simp))

/-- **A source that is tiled to its end is split.** -/
theorem Tiled.splits (hg : Gap source dialect a source.length) : Splits source dialect units where
  ordered := h.ordered
  sound := h.sound
  covered i hi := by
    by_cases ha : i < a
    · exact h.covered i ha
    · exact .inr (hg.outside h.boundary (by omega) hi)

end

end Gaps

/-! ## Texts -/

section Texts

variable {source : Text} {a b i : Nat} {rest : Text} {c : Code}

theorem getElem?_slice : (slice source a b)[i]? = if a + i < b then source[a + i]? else none := by
  rw [slice, getElem?_drop, getElem?_take]

theorem slice_all {p : Code → Bool} (h : (slice source a b).all p = true) :
    ∀ i, a ≤ i → i < b → ∀ c, source[i]? = some c → p c = true := by
  intro i ha hb c hc
  refine all_eq_true.1 h c (mem_of_getElem? (i := i - a) ?_)
  rw [getElem?_slice, Nat.add_sub_cancel' ha, if_pos hb, hc]

theorem lt_length_of_drop (h : source.drop a = c :: rest) : a < source.length := by
  have := congrArg List.length h
  simp only [length_drop, length_cons] at this
  omega

theorem getElem?_of_drop (h : source.drop a = c :: rest) : source[a]? = some c := by
  rw [← Nat.add_zero a, ← getElem?_drop, h]
  rfl

theorem drop_succ_of_drop (h : source.drop a = c :: rest) : source.drop (a + 1) = rest := by
  rw [← drop_drop, h]
  rfl

theorem isWhitespace_of_goIndent (h : isGoIndent c = true) : isWhitespace c = true := by
  simp only [isGoIndent, Bool.or_eq_true, decide_eq_true_eq] at h
  rcases h with (((rfl | rfl) | rfl) | rfl) | rfl <;> rfl

end Texts

end Sql
end Yuzora
