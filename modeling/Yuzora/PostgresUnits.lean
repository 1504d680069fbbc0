import Mathlib.Data.List.Forall2
import Yuzora.PostgresLexer
/-!
# PostgresUnits — the units are the server's statements

The lexer reads what the scan takes as one token in some steps (`lexAt_reads`), so the two move on together
(`Follows`); where nothing disturbs the scan, each unit is a statement and each statement a unit
(`splitDatabaseSql_statements`).
-/
namespace Yuzora
namespace Sql
namespace Postgres

open List Option

section Reading

variable {source : Text} {l : Lexer} {c : Code} {stop : Nat} {index : Nat}

/-- The lexer stands there after some steps, with nothing new but the identifier it is in. -/
def Reads (source : Text) (l l' : Lexer) : Prop := ∃ n w, (Lexer.next source)^[n] l = { l' with word := w }

theorem Reads.one {l' : Lexer} (h : l.next source = l') : Reads source l l' := ⟨1, l'.word, h⟩

theorem isPart_of_isStart (h : isPostgresIdentifierStart c = true) : isPostgresIdentifierPart c = true := by
  simp [isPostgresIdentifierPart, h]

theorem startsWith_ne {a : Code} {needle : Text} (hc : source[index]? = some c) (h : c ≠ a) :
    startsWith (a :: needle) source index = false := by
  by_contra hs
  have := startsWith_head (Bool.not_eq_false _ ▸ hs)
  rw [hc] at this
  exact h (Option.some.inj this)

theorem dollarTag_ne (hc : source[index]? = some c) (h : c ≠ 36) : dollarTag source index = none := by
  simp [dollarTag, hc, h]

theorem next_blank (hc : source[l.index]? = some c) (hw : isWhitespace c = true) :
    l.next source = { l with index := l.index + 1, word := l.wordWith c } := by
  have hne (d : Code) (hd : isWhitespace d = false) : c ≠ d := by
    rintro rfl
    rw [hw] at hd
    cases hd
  rw [next_character hc (startsWith_ne hc (hne 45 rfl)) (startsWith_ne hc (hne 47 rfl)) (hne 39 rfl) (hne 34 rfl)
    (dollarTag_ne hc (hne 36 rfl))]
  simp [Lexer.character, hne 59 rfl, hne 40 rfl, hne 41 rfl, hw]

theorem reads_blanks (hle : l.index ≤ stop) (hw : ∀ i, l.index ≤ i → i < stop → WhitespaceAt source i) :
    Reads source l { l with index := stop } := by
  induction hn : stop - l.index generalizing l with
  | zero =>
    have he : l.index = stop := by omega
    exact ⟨0, l.word, by rw [← he]; rfl⟩
  | succ n ih =>
    obtain ⟨c, hc, hcw⟩ := hw l.index (Nat.le_refl _) (by omega)
    obtain ⟨k, w, hk⟩ := @ih { l with index := l.index + 1, word := l.wordWith c } (by dsimp only; omega)
      (fun i hi hi' => hw i (by dsimp only at hi; omega) hi') (by dsimp only; omega)
    refine ⟨k + 1, w, ?_⟩
    rw [Function.iterate_succ_apply, next_blank hc hcw, hk]

theorem next_part (hc : source[l.index]? = some c) (hp : isPostgresIdentifierPart c = true)
    (hb : (behind source l.index 1).any isPostgresIdentifierPart = true) (hf : l.first.isSome = true) :
    l.next source = { l with index := l.index + 1, word := l.wordWith c } := by
  have hne (d : Code) (hd : isPostgresIdentifierPart d = false) : c ≠ d := by
    rintro rfl
    rw [hp] at hd
    cases hd
  have htag : dollarTag source l.index = none := by simp [dollarTag, hb]
  rw [next_character hc (startsWith_ne hc (hne 45 rfl)) (startsWith_ne hc (hne 47 rfl)) (hne 39 rfl) (hne 34 rfl) htag]
  obtain ⟨g, hg⟩ := isSome_iff_exists.1 hf
  simp [Lexer.character, hne 59 rfl, hne 40 rfl, hne 41 rfl, hg]

theorem behind_one : behind source (index + 1) 1 = source[index]? := by simp [behind]

theorem reads_word (hle : l.index ≤ stop) (hf : l.first.isSome = true)
    (hb : (behind source l.index 1).any isPostgresIdentifierPart = true)
    (hw : ∀ i, l.index ≤ i → i < stop → ∃ c, source[i]? = some c ∧ isPostgresIdentifierPart c = true) :
    Reads source l { l with index := stop } := by
  induction hn : stop - l.index generalizing l with
  | zero =>
    have he : l.index = stop := by omega
    exact ⟨0, l.word, by rw [← he]; rfl⟩
  | succ n ih =>
    obtain ⟨c, hc, hp⟩ := hw l.index (Nat.le_refl _) (by omega)
    obtain ⟨k, w, hk⟩ := @ih { l with index := l.index + 1, word := l.wordWith c } (by dsimp only; omega) hf
      (by dsimp only; rw [behind_one, hc]; exact hp)
      (fun i hi hi' => hw i (by dsimp only at hi; omega) hi') (by dsimp only; omega)
    refine ⟨k + 1, w, ?_⟩
    rw [Function.iterate_succ_apply, next_part hc hp hb hf, hk]

/-! ## Where regions end -/

theorem closeComment_after {rest : Text} {depth index lineStart next line : Nat}
    (h : closeComment true rest depth index lineStart = some (next, line)) : afterComment rest depth index = next := by
  fun_induction closeComment true rest depth index lineStart with
  | case1 => cases h
  | case2 => cases h
  | case3 c c' rest depth index lineStart hc ih =>
    rw [afterComment, if_pos (by simpa using hc)]
    exact ih h
  | case4 c c' rest index lineStart hc hcl =>
    rw [afterComment, if_neg (by simpa using hc), if_pos hcl, if_pos rfl]
    cases h
    rfl
  | case5 c c' rest depth index lineStart hc hcl hd ih =>
    rw [afterComment, if_neg (by simpa using hc), if_pos hcl, if_neg hd]
    exact ih h
  | case6 c c' rest depth index lineStart hc hcl ih =>
    rw [afterComment, if_neg (by simpa using hc), if_neg hcl]
    exact ih h

/-- A quoted text that the scan closes ends there, whether or not a backslash escapes if the scan refuses any. -/
theorem closeQuote_after {quote : Code} {escapes : Backslash} {b : Bool} {rest : Text} {index lineStart next line : Nat}
    (hb : escapes = .refuse ∨ b = decide (escapes = .escape))
    (h : closeQuote quote true escapes rest index lineStart = .closed next line) :
    afterQuote quote b rest index = next := by
  have hnot {c : Code} (hr : ¬ (decide (c = backslash) && decide (escapes = .refuse)) = true)
      (he : ¬ (decide (c = backslash) && decide (escapes = .escape)) = true) : (b && decide (c = backslash)) = false := by
    by_cases hc : c = backslash
    · simp only [hc, decide_true, Bool.true_and, decide_eq_true_eq] at hr he
      simp [hb.resolve_left hr, he]
    · simp [hc]
  fun_induction closeQuote quote true escapes rest index lineStart with
  | case1 | case2 | case3 => cases h
  | case4 index lineStart =>
    cases h
    rfl
  | case5 => cases h
  | case6 => cases h
  | case7 c c' rest index lineStart hr he ih =>
    simp only [Bool.and_eq_true, decide_eq_true_eq] at hr he
    obtain ⟨rfl, rfl⟩ := he
    have hbt : b = true := by simpa using hb
    rw [afterQuote, if_pos (by simp [hbt])]
    exact ih h
  | case8 c' rest index lineStart hd hr he ih =>
    simp only [Bool.true_and, decide_eq_true_eq] at hd
    have hq : (b && decide (quote = backslash)) = false := hnot hr he
    rw [afterQuote, if_neg (by simp [hq]), if_pos rfl, if_pos hd]
    exact ih h
  | case9 c' rest index lineStart hd hr he =>
    simp only [Bool.true_and, decide_eq_true_eq] at hd
    have hq : (b && decide (quote = backslash)) = false := hnot hr he
    rw [afterQuote, if_neg (by simp [hq]), if_pos rfl, if_neg hd]
    cases h
    rfl
  | case10 c c' rest index lineStart hr he hc ih =>
    have hq : (b && decide (c = backslash)) = false := hnot hr he
    rw [afterQuote, if_neg (by simp [hq]), if_neg hc]
    exact ih h

end Reading

/-! ## A token of the scan -/

def Lexer.take (t : Lexed) (l : Lexer) : Lexer :=
  match t.item with
  | .space _ | .comment | .go => { l with index := t.next }
  | .quoted | .other | .word _ => { l with index := t.next, first := l.first.or (some l.index) }
  | .opening => { l with index := t.next, parentheses := l.parentheses + 1, first := l.first.or (some l.index) }
  | .closing => { l with index := t.next, parentheses := l.parentheses - 1, first := l.first.or (some l.index) }
  | .semicolon => l.character 59

section Tokens

variable {source : Text} {l : Lexer} {c : Code} {lineStart : Nat} {t : Lexed}

theorem tame_quote (h : Tame source l = true) (hc : source[l.index]? = some c)
    (hdash : ¬ startsWith (codes "--") source l.index = true) (hopen : ¬ startsWith (codes "/*") source l.index = true)
    (hq : (c = 39 ∧ l.escapes source = false) ∨ c = 34) (hu : usesPostgresEscapePrefix source l.index = true) :
    afterQuote c true (source.drop (l.index + 1)) (l.index + 1) =
      afterQuote c false (source.drop (l.index + 1)) (l.index + 1) := by
  have hq' : ((c = 39 && !l.escapes source) || c = 34) = true := by
    rcases hq with ⟨rfl, he⟩ | rfl
    · simp [he]
    · rfl
  rw [Tame, hc, all_some, if_neg hdash, if_neg hopen, if_pos hq', hu] at h
  simpa using h

theorem reads_quoted {stop : Nat} (hi : t.item = .quoted) (hnext : l.next source = l.quoted stop)
    (hstop : stop = t.next) :
    Reads source l (l.take t) := by
  refine ⟨1, none, ?_⟩
  rw [Function.iterate_one, hnext, hstop]
  simp [Lexer.take, hi, Lexer.quoted]

theorem reads_lineComment (hdash : startsWith (codes "--") source l.index = true)
    (hblank : (slice source (commentEnd source l.index) (lineEnd source l.index)).all isWhitespace = true) :
    Reads source l { l with index := lineEnd source l.index } := by
  have hlen : l.index + 2 ≤ source.length := startsWith_length hdash (by simp [codes_dashes])
  have hc : source[l.index]? = some 45 := startsWith_head hdash
  have hnext : l.next source = l.comment (commentEnd source l.index) := by simp [Lexer.next, hc, hdash]
  obtain ⟨-, hall, -⟩ := runEnd_at (fun c => !endsLine c) source (l.index + 2)
  obtain ⟨hle', hstop, -, hlast⟩ := newline_spec hlen rfl
  have hcl : commentEnd source l.index ≤ lineEnd source l.index := by
    by_contra hlt
    obtain ⟨d, hd, hp⟩ := hall (lineEnd source l.index) hle' (Nat.lt_of_not_le hlt)
    rcases hlast with hlast | hlast
    · have := (List.getElem?_eq_some_iff.1 hd).1
      exact absurd hlast (Nat.ne_of_lt this)
    · have hdn : d = newline := Option.some.inj (hd.symm.trans hlast)
      rw [hdn] at hp
      cases hp
  have hw (i : Nat) (hi : commentEnd source l.index ≤ i) (hi' : i < lineEnd source l.index) : WhitespaceAt source i := by
    have hlt : i < source.length := Nat.lt_of_lt_of_le hi' hstop
    exact ⟨source[i], getElem?_eq_getElem hlt, slice_all hblank i hi hi' _ (getElem?_eq_getElem hlt)⟩
  obtain ⟨k, w, hk⟩ := reads_blanks (l := l.comment (commentEnd source l.index)) hcl hw
  exact ⟨k + 1, w, by rw [Function.iterate_succ_apply, hnext, hk]; rfl⟩

theorem character_plain (hw : isWhitespace c = false) (h40 : c ≠ 40) (h41 : c ≠ 41) (h59 : c ≠ 59) :
    l.character c = { l with index := l.index + 1, word := l.wordWith c, first := l.first.or (some l.index) } := by
  simp [Lexer.character, hw, h40, h41, h59]

theorem reads_plain (hc : source[l.index]? = some c) (hw : isWhitespace c = false)
    (hnext : l.next source = l.character c) :
    Reads source l (l.take (plainAt source .postgres c l.index lineStart)) := by
  unfold plainAt
  split
  · rename_i hs
    have hstart : isPostgresIdentifierStart c = true := hs
    have hne (d : Code) (hd : isPostgresIdentifierStart d = false) : c ≠ d := by
      rintro rfl
      rw [hstart] at hd
      cases hd
    have hchar := character_plain (l := l) hw (hne 40 rfl) (hne 41 rfl) (hne 59 rfl)
    obtain ⟨hle, hall, -⟩ := runEnd_at (continuesWord .postgres) source (l.index + 1)
    obtain ⟨k, w, hk⟩ : Reads source (l.character c)
        { l.character c with index := runEnd (continuesWord .postgres) (source.drop (l.index + 1)) (l.index + 1) } := by
      refine reads_word ?_ ?_ ?_ ?_
      · rw [hchar]
        exact hle
      · rw [hchar]
        simp
      · rw [hchar]
        rw [behind_one, hc]
        exact isPart_of_isStart hstart
      · rw [hchar]
        exact hall
    refine ⟨k + 1, w, ?_⟩
    rw [Function.iterate_succ_apply, hnext, hk, hchar]
    rfl
  · split
    · rename_i h40
      exact ⟨1, none, by rw [Function.iterate_one, hnext, h40]; rfl⟩
    · split
      · rename_i h41
        exact ⟨1, none, by rw [Function.iterate_one, hnext, h41]; rfl⟩
      · split
        · rename_i h59
          exact .one (by rw [hnext, h59]; rfl)
        · rename_i h40 h41 h59
          exact ⟨1, l.wordWith c, by rw [Function.iterate_one, hnext, character_plain hw h40 h41 h59]; rfl⟩

theorem lexAt_not_go {index : Nat} (h : lexAt source .postgres c index lineStart = .ok t) : t.item ≠ .go := fun hi => by
  cases lexAt_go h hi

/-- **The lexer reads what the scan takes as one token**, where nothing disturbs the scan. -/
theorem lexAt_reads (hc : source[l.index]? = some c) (htame : Tame source l = true)
    (h : lexAt source .postgres c l.index lineStart = .ok t) : Reads source l (l.take t) := by
  unfold lexAt at h
  rcases ite_eq_iff.1 h with ⟨hw, h⟩ | ⟨hw, h⟩
  · cases h
    exact ⟨1, l.wordWith c, next_blank hc hw⟩
  · have hw' : isWhitespace c = false := by simpa using hw
    rcases ite_eq_iff.1 h with ⟨hdash, h⟩ | ⟨hdash, h⟩
    · cases h
      exact reads_lineComment hdash (by simpa [Tame, hc, hdash] using htame)
    · rcases ite_eq_iff.1 h with ⟨hopen, h⟩ | ⟨hopen, h⟩
      · split at h
        · cases h
        · rename_i next line hcl
          cases h
          have hnext : l.next source = l.comment next := by
            simp [Lexer.next, hc, hdash, hopen, closeComment_after hcl]
          exact ⟨1, none, hnext⟩
      · rcases ite_eq_iff.1 h with ⟨h39, h⟩ | ⟨h39, h⟩
        · subst h39
          obtain ⟨hi, hq⟩ := quotedAt_closed h
          have hnext :
            l.next source = l.quoted (afterQuote 39 (l.escapes source) (source.drop (l.index + 1)) (l.index + 1)) := by
            simp [Lexer.next, hc, hdash, hopen]
          refine reads_quoted hi hnext ?_
          by_cases hu : usesPostgresEscapePrefix source l.index = true
          · rw [if_pos rfl, if_pos hu] at hq
            by_cases hb : l.escapes source = true
            · rw [hb]
              exact closeQuote_after (.inr rfl) hq
            · have hb' : l.escapes source = false := by simpa using hb
              rw [hb', ← tame_quote htame hc hdash hopen (.inl ⟨rfl, hb'⟩) hu]
              exact closeQuote_after (.inr rfl) hq
          · rw [if_pos rfl, if_neg hu] at hq
            exact closeQuote_after (.inl rfl) hq
        · rcases ite_eq_iff.1 h with ⟨h34, h⟩ | ⟨h34, h⟩
          · subst h34
            obtain ⟨hi, hq⟩ := quotedAt_closed h
            have hnext : l.next source = l.quoted (afterQuote 34 false (source.drop (l.index + 1)) (l.index + 1)) := by
              simp [Lexer.next, hc, hdash, hopen]
            refine reads_quoted hi hnext ?_
            by_cases hu : usesPostgresEscapePrefix source l.index = true
            · rw [if_pos (by simp [hu])] at hq
              rw [← tame_quote htame hc hdash hopen (.inr rfl) hu]
              exact closeQuote_after (.inr rfl) hq
            · rw [if_neg (by simp [hu])] at hq
              exact closeQuote_after (.inr rfl) hq
          · have hplain (hd : dollarTag source l.index = none) : l.next source = l.character c :=
              next_character hc (Bool.eq_false_iff.2 hdash) (Bool.eq_false_iff.2 hopen) h39 h34 hd
            rw [if_neg (by simp), if_neg (by simp)] at h
            rcases ite_eq_iff.1 h with ⟨h36, h⟩ | ⟨h36, h⟩
            · rw [← dollarTag_eq] at h
              split at h
              · rename_i tag htag
                unfold dollarQuotedAt at h
                split at h
                · cases h
                · rename_i close hclose
                  cases h
                  have hnext : l.next source = l.quoted (close + tag.length) := by
                    simp [Lexer.next, hc, hdash, hopen, h39, h34, htag, afterDollar, hclose]
                  exact ⟨1, none, hnext⟩
              · rename_i htag
                cases h
                exact reads_plain hc hw' (hplain htag)
            · have hne : c ≠ 36 := by simpa using h36
              cases h
              exact reads_plain hc hw' (hplain (dollarTag_ne hc hne))

end Tokens

/-! ## The scan and the lexer together -/

/-- The scan and the lexer stand at the same place: the units are the statements, and the open unit begins in the open
statement, at or before what is first in it. -/
structure Follows (source : Text) (s : State) (l : Lexer) : Prop where
  index : l.index = s.index
  parentheses : l.parentheses = s.parentheses.length
  units : List.Forall₂ (Bounds source) s.units l.statements
  start : l.start ≤ s.index
  begun : ∀ f, s.firstSource = some f → l.start ≤ f ∧ f < s.index
  quiet : s.hasSql = false → l.first = none
  sql : s.hasSql = true → ∃ f g, s.firstSource = some f ∧ l.first = some g ∧ f ≤ g ∧ g < s.index ∧ SolidAt source g

section Following

variable {source : Text} {s s' : State} {l : Lexer} {t : Lexed}

section
variable (h : Follows source s l) {lineStart : Nat} {next : Nat}
include h

theorem Follows.word (w : Option Nat) : Follows source s { l with word := w } :=
  ⟨h.index, h.parentheses, h.units, h.start, h.begun, h.quiet, h.sql⟩

theorem Follows.quietly (hlt : s.index < next) {trailing : Bool} :
    Follows source { s with index := next, lineStart := lineStart, trailingAfterTerminator := trailing }
      { l with index := next } where
  index := rfl
  parentheses := h.parentheses
  units := h.units
  start := Nat.le_trans h.start (Nat.le_of_lt hlt)
  begun f hf := by
    obtain ⟨h1, h2⟩ := h.begun f hf
    exact ⟨h1, Nat.lt_trans h2 hlt⟩
  quiet := h.quiet
  sql hs := by
    obtain ⟨f, g, h1, h2, h3, h4, h5⟩ := h.sql hs
    exact ⟨f, g, h1, h2, h3, Nat.lt_trans h4 hlt, h5⟩

theorem Follows.begins {next f : Nat} (hlt : s.index < next)
    (hf : s.firstSource.or (some s.index) = some f) : l.start ≤ f ∧ f ≤ s.index ∧ f < next := by
  cases hfirst : s.firstSource with
  | none =>
    rw [hfirst] at hf
    cases hf
    exact ⟨h.start, Nat.le_refl _, hlt⟩
  | some f' =>
    rw [hfirst] at hf
    cases hf
    obtain ⟨h1, h2⟩ := h.begun f hfirst
    exact ⟨h1, Nat.le_of_lt h2, Nat.lt_trans h2 hlt⟩

theorem Follows.marks (hlt : s.index < next) :
    Follows source { mark s.index false s with index := next, lineStart := lineStart } { l with index := next } where
  index := rfl
  parentheses := h.parentheses
  units := h.units
  start := Nat.le_trans h.start (Nat.le_of_lt hlt)
  begun f hf := by
    obtain ⟨h1, -, h3⟩ := h.begins hlt hf
    exact ⟨h1, h3⟩
  quiet hs := h.quiet (by simpa [mark] using hs)
  sql hs := by
    obtain ⟨f, g, h1, h2, h3, h4, h5⟩ := h.sql (by simpa [mark] using hs)
    exact ⟨f, g, by simp [mark, h1], h2, h3, Nat.lt_trans h4 hlt, h5⟩

theorem Follows.marked (hlt : s.index < next) (hs : SolidAt source s.index)
    (hp : SamePlace (mark s.index true s) s') {lineStart n : Nat} (hn : n = s'.parentheses.length) :
    Follows source { s' with index := next, lineStart := lineStart }
      { l with index := next, parentheses := n, first := l.first.or (some l.index) } where
  index := rfl
  parentheses := hn
  units := by
    rw [hp.units]
    exact h.units
  start := Nat.le_trans h.start (Nat.le_of_lt hlt)
  begun f hf := by
    rw [hp.firstSource] at hf
    obtain ⟨h1, -, h3⟩ := h.begins hlt hf
    exact ⟨h1, h3⟩
  quiet hns := by
    rw [hp.hasSql] at hns
    exact absurd hns (by simp [mark])
  sql _ := by
    rw [hp.firstSource]
    by_cases hsql : s.hasSql = true
    · obtain ⟨f, g, h1, h2, h3, h4, h5⟩ := h.sql hsql
      exact ⟨f, g, by simp [mark, h1], by simp [h2], h3, Nat.lt_trans h4 hlt, h5⟩
    · have hnone := h.quiet (by simpa using hsql)
      obtain ⟨f, hf⟩ : ∃ f, s.firstSource.or (some s.index) = some f := by
        cases s.firstSource with
        | none => exact ⟨_, rfl⟩
        | some f => exact ⟨f, rfl⟩
      obtain ⟨-, h2, -⟩ := h.begins hlt hf
      exact ⟨f, s.index, hf, by simp [hnone, h.index], h2, hlt, hs⟩

theorem Follows.ended (hc : source[s.index]? = some 59) (hpar : s.parentheses = []) :
    Follows source { emit source .postgres (s.index + 1) s with
      index := s.index + 1, lineStart := lineStart, trailingAfterTerminator := true } (l.character 59) := by
  have hzero : l.parentheses = 0 := by rw [h.parentheses, hpar, length_nil]
  have hchar : l.character 59 = ⟨s.index + 1, none, 0, s.index + 1, none,
    l.statements ++ l.statement (some s.index)⟩ := by
    rw [Lexer.character, if_pos (by simp [hzero]), h.index]
  rw [hchar]
  refine ⟨rfl, rfl, ?_, Nat.le_refl _, fun f hf => (some_ne_none f hf.symm).elim, fun _ => rfl,
    fun hs => (Bool.false_ne_true hs).elim⟩
  refine rel_append h.units ?_
  by_cases hsql : s.hasSql = true
  · obtain ⟨f, g, h1, h2, h3, h4, h5⟩ := h.sql hsql
    obtain ⟨hb, hfi⟩ := h.begun f h1
    have htrim : trimmedEnd source f (s.index + 1) = s.index + 1 := by
      rw [trimmedEnd, if_neg (by simp [hc]; intro _; rfl)]
    have hunit : unitAt source .postgres (s.index + 1) s =
        [⟨slice source f (s.index + 1), f, s.index + 1, transactionBoundaryFor .postgres s.leadingWords⟩] := by
      simp [unitAt, h1, hsql, htrim, Nat.lt_succ_of_lt hfi]
    rw [hunit, Lexer.statement, h2]
    exact .cons ⟨hb, h3, Nat.lt_succ_of_lt h4, rfl⟩ .nil
  · have hns : s.hasSql = false := by simpa using hsql
    rw [unitAt_quiet hns, Lexer.statement, h.quiet hns]
    exact .nil

theorem Follows.finished (hend : s.index = source.length) (hsolid : ∀ f, s.firstSource = some f → SolidAt source f) :
    List.Forall₂ (Bounds source) (emit source .postgres source.length s).units (l.statements ++ l.statement none) := by
  refine rel_append h.units ?_
  by_cases hsql : s.hasSql = true
  · obtain ⟨f, g, h1, h2, h3, h4, h5⟩ := h.sql hsql
    obtain ⟨hb, hfi⟩ := h.begun f h1
    obtain ⟨t1, t2, -, t4⟩ := trimmedEnd_spec (hsolid f h1) (hend ▸ hfi) (Nat.le_refl _)
    have hunit : unitAt source .postgres source.length s =
        [⟨slice source f (trimmedEnd source f source.length), f, trimmedEnd source f source.length,
          transactionBoundaryFor .postgres s.leadingWords⟩] := by
      simp [unitAt, h1, hsql, t1]
    have hg : g < trimmedEnd source f source.length := by
      by_contra hle
      exact (t4 g (Nat.le_of_not_lt hle) (hend ▸ h4)).not_solid h5
    rw [hunit, Lexer.statement, h2]
    exact .cons ⟨hb, h3, hg, t4⟩ .nil
  · have hns : s.hasSql = false := by simpa using hsql
    rw [unitAt_quiet hns, Lexer.statement, h.quiet hns]
    exact .nil

/-- **A token keeps the two together.** -/
theorem Follows.take (hf : t.Fits source .postgres s.index s.lineStart) (hgo : t.item ≠ .go)
    (ht : take source .postgres s t = .ok s') : Follows source s' (l.take t) := by
  obtain ⟨item, next, lineStart⟩ := t
  have hlt := hf.lt
  have hitem := hf.item
  have hplace : SamePlace (mark s.index true s) (mark s.index true s) := ⟨rfl, rfl, rfl⟩
  cases item with
  | space endsLine =>
    cases ht
    exact h.quietly hlt
  | comment =>
    cases ht
    split
    · exact h.quietly hlt
    · exact h.marks hlt
  | quoted | other =>
    cases ht
    exact h.marked hlt hitem hplace h.parentheses
  | word word =>
    cases ht
    have hp : SamePlace (mark s.index true s) (recordLeading .postgres word (mark s.index true s)) := recordLeading_same
    refine h.marked hlt hitem hp ?_
    rw [h.parentheses]
    unfold recordLeading
    split <;> rfl
  | go => exact absurd rfl hgo
  | opening =>
    cases ht
    have hp : SamePlace (mark s.index true s) { mark s.index true s with parentheses := s.index :: s.parentheses } :=
      ⟨rfl, rfl, rfl⟩
    exact h.marked hlt hitem hp (by rw [h.parentheses]; rfl)
  | closing =>
    dsimp only [Sql.take] at ht
    split at ht
    · cases ht
    · rename_i parentheses hpar
      cases ht
      have hp : SamePlace (mark s.index true s) { mark s.index true s with parentheses := parentheses } :=
        ⟨rfl, rfl, rfl⟩
      exact h.marked hlt hitem hp (by rw [h.parentheses, hpar]; rfl)
  | semicolon =>
    dsimp only [Sql.take] at ht
    obtain ⟨hc, rfl⟩ := hitem
    split at ht
    · cases ht
    · rename_i hpar
      cases ht
      exact h.ended hc hpar

end

end Following

/-! ## Runs -/

section Runs

variable {source : Text} {s s' : State} {units : List SqlUnit}

theorem lexed_iterate {m n : Nat} : (Lexer.next source)^[n] (lexed source m) = lexed source (n + m) :=
  (Function.iterate_add_apply _ n m _).symm

theorem next_end {l : Lexer} (h : source.length ≤ l.index) : l.next source = l := by
  simp [Lexer.next, getElem?_eq_none h]

theorem lexed_end {m n : Nat} (h : source.length ≤ (lexed source m).index) (hle : m ≤ n) :
    lexed source n = lexed source m := by
  induction hle with
  | refl => rfl
  | @step n hle ih =>
    have hstep : lexed source (n + 1) = (lexed source n).next source := Function.iterate_succ_apply' _ n _
    rw [hstep, ih, next_end h]

theorem le_afterComment : ∀ (rest : Text) (depth index : Nat), index ≤ afterComment rest depth index := by
  intro rest depth index
  fun_induction afterComment rest depth index with
  | case1 => exact Nat.le_refl _
  | case2 => exact Nat.le_succ _
  | case3 | case4 | case5 | case6 => omega

theorem le_afterQuote (quote : Code) (escapes : Bool) : ∀ (rest : Text) (index : Nat),
    index ≤ afterQuote quote escapes rest index := by
  intro rest index
  fun_induction afterQuote quote escapes rest index with
  | case1 => exact Nat.le_refl _
  | case2 => exact Nat.le_succ _
  | case3 | case4 | case5 | case6 => omega

theorem lt_next {l : Lexer} (h : l.index < source.length) : l.index < (l.next source).index := by
  have hc : source[l.index]? = some source[l.index] := getElem?_eq_getElem h
  rw [Lexer.next, hc, elim_some]
  split
  · have := (runEnd_le (fun c => !endsLine c) (source.drop (l.index + 2)) (l.index + 2)).1
    dsimp only [Lexer.comment, commentEnd]
    omega
  · split
    · have := le_afterComment (source.drop (l.index + 2)) 1 (l.index + 2)
      dsimp only [Lexer.comment]
      omega
    · split
      · exact le_afterQuote _ _ _ _
      · split
        · exact le_afterQuote _ _ _ _
        · cases htag : dollarTag source l.index with
          | none =>
            dsimp only [elim_none, Lexer.character]
            split <;> exact Nat.lt_succ_self _
          | some tag =>
            have hpos := length_pos_iff.2 (dollarDelimiterAt_pos (dollarTag_eq source l.index ▸ htag))
            dsimp only [elim_some, Lexer.quoted, afterDollar]
            cases hf : indexOf tag source (l.index + tag.length) with
            | none => exact h
            | some close =>
              have := (findFrom_some rfl hf).1
              simp only [map_some, getD_some]
              omega

theorem le_lexed_index (n : Nat) : n ≤ (lexed source n).index ∨ source.length ≤ (lexed source n).index := by
  induction n with
  | zero => exact .inl (Nat.zero_le _)
  | succ n ih =>
    have hstep : lexed source (n + 1) = (lexed source n).next source := Function.iterate_succ_apply' _ n _
    rw [hstep]
    by_cases hend : source.length ≤ (lexed source n).index
    · rw [next_end hend]
      exact .inr hend
    · have := lt_next (Nat.lt_of_not_le hend)
      exact .inl (by omega)

/-- **A step of the scan is some steps of the lexer.** -/
theorem Follows.step {n : Nat} (h : Follows source s (lexed source n)) (hu : Undisturbed source)
    (hsc : Scanned source .postgres s) (hlt : s.index < source.length) (hs : step source .postgres s = .ok s') :
    ∃ m, Follows source s' (lexed source m) := by
  have hc : source[s.index]? = some source[s.index] := getElem?_eq_getElem hlt
  have hline : OnLine source s.lineStart s.index := ⟨hsc.line.1, hsc.line.2.resolve_right (Nat.ne_of_lt hlt)⟩
  have hn : n ≤ source.length := by
    have hle : n ≤ (lexed source n).index ∨ source.length ≤ (lexed source n).index := le_lexed_index n
    rw [h.index] at hle
    omega
  unfold Sql.step at hs
  rw [hc] at hs
  dsimp only at hs
  split at hs
  · cases hs
  · rename_i t hl
    have hfits := lexAt_fits hc hline hl
    obtain ⟨k, w, hk⟩ := lexAt_reads (l := lexed source n) (by rw [h.index]; exact hc) (hu n hn)
      (by rw [h.index]; exact hl)
    refine ⟨k + n, ?_⟩
    rw [← lexed_iterate, hk]
    exact (h.take hfits (lexAt_not_go hl) hs).word w

theorem Follows.scan (hu : Undisturbed source) : ∀ {fuel n : Nat} {s s' : State}, Scanned source .postgres s →
    Follows source s (lexed source n) → scan source .postgres fuel s = .ok s' →
      ∃ m, Follows source s' (lexed source m)
  | 0, n, s, s', _, h, hs => by
    cases hs
    exact ⟨n, h⟩
  | fuel + 1, n, s, s', hsc, h, hs => by
    rw [Sql.scan] at hs
    split at hs
    · rename_i hlt
      split at hs
      · cases hs
      · rename_i s1 hstep
        obtain ⟨m, h1⟩ := h.step hu hsc hlt hstep
        exact Follows.scan hu (hsc.step hlt hstep).1 h1 hs
    · cases hs
      exact ⟨n, h⟩

theorem follows_start : Follows source .start (lexed source 0) where
  index := rfl
  parentheses := rfl
  units := .nil
  start := Nat.le_refl _
  begun _ hf := (some_ne_none _ hf.symm).elim
  quiet _ := rfl
  sql hs := (Bool.false_ne_true hs).elim

/-- **The units are the server's statements**: a source that splits, with nothing in it that disturbs the scan, has one
unit for each statement between the server's terminators, and each unit ends with its statement's terminator. -/
theorem splitDatabaseSql_statements (source : Text) (units : List SqlUnit) (hu : Undisturbed source)
    (h : splitDatabaseSql source .postgres = .ok units) : List.Forall₂ (Bounds source) units (statements source) := by
  unfold splitDatabaseSql at h
  split at h
  · cases h
  · rename_i s hs
    obtain ⟨hsc, hend⟩ := scanned_start.scan (by simp [State.start]) hs
    obtain ⟨m, hm⟩ := Follows.scan hu scanned_start follows_start hs
    have hlast : lexed source source.length = lexed source m := by
      have hle : source.length ≤ (lexed source m).index := Nat.le_of_eq (hm.index.trans hend).symm
      rcases Nat.le_total m source.length with hml | hml
      · exact lexed_end hle hml
      · refine (lexed_end ?_ hml).symm
        exact (le_lexed_index source.length).elim id id
    unfold finish at h
    split at h
    · cases h
    · cases h
    · split at h
      · cases h
      · cases h
        obtain ⟨e, -, he⟩ := hsc.tiled
        rw [statements, hlast]
        exact hm.finished hend fun f hf => (he.first f hf).2.2

/-- Two statements: an escaped quote, a comment with a line end of two characters and a dollar quote hide terminators. -/
theorem splitDatabaseSql_statements_two : List.Forall₂ (Bounds (codes "E'\\';' --;\r\n;$a$;$a$"))
      [⟨codes "E'\\';' --;\r\n;", 0, 13, .none⟩, ⟨codes "$a$;$a$", 13, 20, .none⟩]
      (statements (codes "E'\\';' --;\r\n;$a$;$a$")) :=
  splitDatabaseSql_statements _ _ (by decide +kernel) (by rfl)

/-- A carriage return ends the server's comment but not the scan's; a backslash in a `U&` string escapes the quote after
it for the scan but not for the server. -/
theorem statements_disagree : (splitDatabaseSql (codes "a --\r;b") .postgres = .ok [⟨codes "a --\r;b", 0, 7, .none⟩] ∧
      ¬ List.Forall₂ (Bounds (codes "a --\r;b")) [⟨codes "a --\r;b", 0, 7, .none⟩] (statements (codes "a --\r;b"))) ∧
    (splitDatabaseSql (codes "U&'\\'';' UESCAPE '!' --'") .postgres =
        .ok [⟨codes "U&'\\'';", 0, 7, .none⟩, ⟨codes "' UESCAPE '!' --'", 7, 24, .none⟩] ∧
      ¬ List.Forall₂ (Bounds (codes "U&'\\'';' UESCAPE '!' --'"))
        [⟨codes "U&'\\'';", 0, 7, .none⟩, ⟨codes "' UESCAPE '!' --'", 7, 24, .none⟩]
        (statements (codes "U&'\\'';' UESCAPE '!' --'"))) := by
  refine ⟨⟨by rfl, fun h => ?_⟩, by rfl, fun h => ?_⟩
  · have hlen : 1 = (statements (codes "a --\r;b")).length := h.length_eq
    exact absurd hlen (by decide +kernel)
  · have hlen : 2 = (statements (codes "U&'\\'';' UESCAPE '!' --'")).length := h.length_eq
    exact absurd hlen (by decide +kernel)

end Runs

end Postgres
end Sql
end Yuzora
