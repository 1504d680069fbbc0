import Mathlib.Logic.Function.Iterate
import Yuzora.SqlUnits
/-!
# PostgresLexer — statements as the server reads them

The server's lexical rules with standard-conforming strings: a `--` comment ends at the next newline or carriage return,
block comments nest, quoted texts double the quote, and a backslash escapes only in a string whose token begins with a
lone `E`.  The lexer goes over identifiers one character at a time (`Lexer.next`).
-/
namespace Yuzora
namespace Sql
namespace Postgres

open List

/-! ## Regions -/

def endsLine (c : Code) : Bool := c = newline || c = carriageReturn

variable (source : Text)

/-- Where a `--` comment ends. -/
def commentEnd (index : Nat) : Nat :=
  runEnd (fun c => !endsLine c) (source.drop (index + 2)) (index + 2)

/-- Past the opening of so many block comments, where the outermost ends. -/
def afterComment : Text → Nat → Nat → Nat
  | [], _, index => index
  | [_], _, index => index + 1
  | c :: c' :: rest, depth, index =>
    if c = 47 && c' = 42 then afterComment rest (depth + 1) (index + 2)
    else if c = 42 && c' = 47 then if depth = 1 then index + 2 else afterComment rest (depth - 1) (index + 2)
    else afterComment (c' :: rest) depth (index + 1)

def afterQuote (quote : Code) (escapes : Bool) : Text → Nat → Nat
  | [], index => index
  | [_], index => index + 1
  | c :: c' :: rest, index =>
    if escapes && c = backslash then afterQuote quote escapes rest (index + 2)
    else if c = quote then if c' = quote then afterQuote quote escapes rest (index + 2) else index + 1
    else afterQuote quote escapes (c' :: rest) (index + 1)

/-- `$tag$`, where no identifier runs up to it. -/
def dollarTag (index : Nat) : Option Text :=
  let tag := (source.drop (index + 1)).takeWhile fun c => c ≠ 36 && isPostgresIdentifierPart c
  if source[index]? = some 36 && !(behind source index 1).any isPostgresIdentifierPart &&
      tag.head?.all isPostgresIdentifierStart && source[index + 1 + tag.length]? = some 36 then
    some (36 :: (tag ++ [36]))
  else none

def afterDollar (source tag : Text) (index : Nat) : Nat :=
  ((indexOf tag source (index + tag.length)).map (· + tag.length)).getD source.length

/-! ## The lexer -/

/-- More than whitespace and comments between two terminators. -/
structure Statement where
  /-- After the terminator before it. -/
  start : Nat
  first : Nat
  terminator : Option Nat

structure Lexer where
  index : Nat
  /-- Where the identifier began that runs up to here. -/
  word : Option Nat
  parentheses : Nat
  start : Nat
  first : Option Nat
  statements : List Statement

def Lexer.start₀ : Lexer := ⟨0, none, 0, 0, none, []⟩

/-- A lone `E` runs up to here. -/
def Lexer.escapes (l : Lexer) : Bool :=
  l.word.any fun begun => begun + 1 = l.index && (source[begun]? = some 101 || source[begun]? = some 69)

def Lexer.statement (l : Lexer) (terminator : Option Nat) : List Statement :=
  (l.first.map fun first => ⟨l.start, first, terminator⟩).toList

def Lexer.comment (stop : Nat) (l : Lexer) : Lexer := { l with index := stop, word := none }

def Lexer.quoted (stop : Nat) (l : Lexer) : Lexer :=
  { l with index := stop, word := none, first := l.first.or (some l.index) }

def Lexer.wordWith (c : Code) (l : Lexer) : Option Nat :=
  if isPostgresIdentifierPart c then l.word.or (if isPostgresIdentifierStart c then some l.index else none) else none

def Lexer.character (c : Code) (l : Lexer) : Lexer :=
  if c = 59 && l.parentheses = 0 then
    ⟨l.index + 1, none, 0, l.index + 1, none, l.statements ++ l.statement (some l.index)⟩
  else
    { l with
      index := l.index + 1
      word := l.wordWith c
      parentheses := if c = 40 then l.parentheses + 1 else if c = 41 then l.parentheses - 1 else l.parentheses
      -- a blank outside ASCII is an identifier to the server, but there is nothing in it to run
      first := if isWhitespace c then l.first else l.first.or (some l.index) }

def Lexer.next (l : Lexer) : Lexer :=
  source[l.index]?.elim l fun c =>
    if startsWith (codes "--") source l.index then l.comment (commentEnd source l.index)
    else if startsWith (codes "/*") source l.index then
      l.comment (afterComment (source.drop (l.index + 2)) 1 (l.index + 2))
    else if c = 39 then l.quoted (afterQuote 39 (l.escapes source) (source.drop (l.index + 1)) (l.index + 1))
    else if c = 34 then l.quoted (afterQuote 34 false (source.drop (l.index + 1)) (l.index + 1))
    else (dollarTag source l.index).elim (l.character c) fun tag => l.quoted (afterDollar source tag l.index)

def lexed (n : Nat) : Lexer := (Lexer.next source)^[n] .start₀

def statements (source : Text) : List Statement :=
  (lexed source source.length).statements ++ (lexed source source.length).statement none

/-- The unit is the statement: from after the terminator before it, with all that is in it, to its terminator or the
end. -/
def Bounds (source : Text) (u : SqlUnit) (s : Statement) : Prop :=
  s.start ≤ u.start ∧ u.start ≤ s.first ∧ s.first < u.stop ∧
    match s.terminator with
    | some t => u.stop = t + 1
    | none => ∀ i, u.stop ≤ i → i < source.length → WhitespaceAt source i

/-! ## What disturbs the scan -/

/-- The scan reads the comment or quoted text here as the server does: what follows a carriage return in the comment's
line is blank, and where the scan sees an escape prefix that is none, the backslashes move no end. -/
def Tame (source : Text) (l : Lexer) : Bool :=
  source[l.index]?.all fun c =>
    if startsWith (codes "--") source l.index then
      (slice source (commentEnd source l.index) (lineEnd source l.index)).all isWhitespace
    else if startsWith (codes "/*") source l.index then true
    else if (c = 39 && !l.escapes source) || c = 34 then
      !usesPostgresEscapePrefix source l.index ||
        afterQuote c true (source.drop (l.index + 1)) (l.index + 1) =
          afterQuote c false (source.drop (l.index + 1)) (l.index + 1)
    else true

def Undisturbed (source : Text) : Prop := ∀ n ≤ source.length, Tame source (lexed source n) = true

instance (source : Text) : Decidable (Undisturbed source) :=
  inferInstanceAs (Decidable (∀ n ≤ source.length, Tame source (lexed source n) = true))

/-! ## The lexer moves on -/

section Reading

variable {source : Text} {l : Lexer} {c : Code} {index : Nat}

theorem runEnd_spec (part : Code → Bool) : ∀ {rest : Text} {index : Nat}, source.drop index = rest →
    index ≤ runEnd part rest index ∧
      (∀ i, index ≤ i → i < runEnd part rest index → ∃ c, source[i]? = some c ∧ part c = true) ∧
        ∀ c, source[runEnd part rest index]? = some c → part c = false
  | [], index, hl => by
    refine ⟨Nat.le_refl _, fun i hi hk => absurd hk (Nat.not_lt.2 hi), fun c hc => ?_⟩
    have := drop_eq_nil_iff.1 hl
    rw [runEnd, getElem?_eq_none this] at hc
    cases hc
  | c :: rest, index, hl => by
    rw [runEnd]
    by_cases hp : part c = true
    · rw [if_pos hp]
      obtain ⟨hle, hall, hend⟩ := runEnd_spec part (drop_succ_of_drop hl)
      refine ⟨by omega, fun i hi hk => ?_, hend⟩
      by_cases hii : i = index
      · exact ⟨c, hii ▸ getElem?_of_drop hl, hp⟩
      · exact hall i (by omega) hk
    · rw [if_neg hp]
      refine ⟨Nat.le_refl _, fun i hi hk => absurd hk (Nat.not_lt.2 hi), fun c' hc' => ?_⟩
      rw [getElem?_of_drop hl] at hc'
      cases hc'
      simpa using hp

theorem runEnd_at (part : Code → Bool) (source : Text) (index : Nat) : index ≤ runEnd part (source.drop index) index ∧
    (∀ i, index ≤ i → i < runEnd part (source.drop index) index → ∃ c, source[i]? = some c ∧ part c = true) ∧
      ∀ c, source[runEnd part (source.drop index) index]? = some c → part c = false :=
  runEnd_spec part rfl

theorem runEnd_takeWhile (part : Code → Bool) : ∀ (rest : Text) (index : Nat),
    runEnd part rest index = index + (rest.takeWhile part).length
  | [], index => rfl
  | c :: rest, index => by
    rw [runEnd, takeWhile_cons]
    by_cases hp : part c = true
    · rw [if_pos hp, if_pos hp, runEnd_takeWhile part rest (index + 1), length_cons]
      omega
    · rw [if_neg hp, if_neg hp]
      rfl

theorem dollarTag_eq (source : Text) (index : Nat) : dollarTag source index = dollarDelimiterAt source index := by
  unfold dollarTag dollarDelimiterAt
  by_cases h0 : source[index]? = some 36 ∧ (behind source index 1).any isPostgresIdentifierPart = false
  · obtain ⟨h36, hb⟩ := h0
    cases hl : source.drop (index + 1) with
    | nil =>
      have h1 : source[index + 1]? = none := getElem?_eq_none (drop_eq_nil_iff.1 hl)
      simp [h36, hb, h1]
    | cons c rest =>
      have h1 := getElem?_of_drop hl
      have h2 := drop_succ_of_drop hl
      by_cases hc : c = 36
      · subst hc
        simp [h36, hb, h1]
      · by_cases hs : isPostgresIdentifierStart c = true
        · have hp : isPostgresIdentifierPart c = true := by simp [isPostgresIdentifierPart, hs]
          rw [takeWhile_cons_of_pos (by simp [hc, hp])]
          simp only [h36, hb, h1, Option.some.injEq, hc, Option.any_some, hs]
          rw [h2, runEnd_takeWhile]
          generalize htag : rest.takeWhile (fun c => decide (c ≠ 36) && isPostgresIdentifierPart c) = tag
          have hstop : index + 1 + (c :: tag).length = index + 2 + tag.length := by
            rw [length_cons]
            omega
          rw [hstop]
          by_cases hend : source[index + 2 + tag.length]? = some 36
          · have hslice : slice source index (index + 2 + tag.length + 1) = 36 :: (c :: tag ++ [36]) := by
              obtain ⟨hlt, he⟩ := List.getElem?_eq_some_iff.1 hend
              obtain ⟨hlt0, he0⟩ := List.getElem?_eq_some_iff.1 h36
              have hrest : rest = tag ++ 36 :: rest.drop (tag.length + 1) := by
                have hd : rest.drop tag.length = 36 :: rest.drop (tag.length + 1) := by
                  rw [← h2, drop_drop, drop_drop, drop_eq_getElem_cons hlt, he]
                  rfl
                have ht : tag = rest.take tag.length :=
                  htag ▸ prefix_iff_eq_take.1 (List.takeWhile_prefix _)
                conv_lhs => rw [← take_append_drop tag.length rest, ← ht, hd]
              have h0 : source.drop index = 36 :: c :: (tag ++ 36 :: rest.drop (tag.length + 1)) := by
                rw [drop_eq_getElem_cons hlt0, he0, hl, ← hrest]
              have hn : index + 2 + tag.length + 1 - index = tag.length + 1 + 1 + 1 := by omega
              rw [slice, drop_take, h0, hn, take_succ_cons, take_succ_cons, take_length_add_append]
              rfl
            simp [hend, hs, hslice]
          · simp [hend]
        · by_cases hp : isPostgresIdentifierPart c = true
          · rw [takeWhile_cons_of_pos (by simp [hc, hp])]
            simp [h1, hc, hs]
          · rw [takeWhile_cons_of_neg (by simp [hc, hp])]
            simp [h1, hc, hs]
  · by_cases h36 : source[index]? = some 36
    · have hb : (behind source index 1).any isPostgresIdentifierPart = true := by
        by_contra hb
        exact h0 ⟨h36, by simpa using hb⟩
      simp [hb]
    · simp [h36]

theorem next_character (hc : source[l.index]? = some c) (hdash : startsWith (codes "--") source l.index = false)
    (hopen : startsWith (codes "/*") source l.index = false) (h39 : c ≠ 39) (h34 : c ≠ 34)
    (hd : dollarTag source l.index = none) : l.next source = l.character c := by
  simp [Lexer.next, hc, hdash, hopen, h39, h34, hd]

end Reading

end Postgres
end Sql
end Yuzora
