import Yuzora.SqlSplit
/-!
# SqlQuote — a name as one token

The name of a table or a column is put between quotes, with the closing ones doubled.  Where it stands in a statement
the scan reads it as one token, whatever is in it (`quoteDbIdentifier_token`).
-/
namespace Yuzora
namespace Sql
open List

/-- `replace(/"/g, '""')` and `replace(/]/g, "]]")`. -/
def doubled (close : Code) (value : Text) : Text := value.flatMap fun c => if c = close then [c, c] else [c]

/-- `none` where the name is refused. -/
def quoteDbIdentifier (kind : Dialect) (value : Text) : Option Text :=
  if value.all isWhitespace || value.contains 0 then none
  else some (if kind = .mssql then 91 :: (doubled 93 value ++ [93]) else 34 :: (doubled 34 value ++ [34]))

variable {close : Code}

theorem doubled_cons (c : Code) (value : Text) :
    doubled close (c :: value) = if c = close then c :: c :: doubled close value else c :: doubled close value := by
  rw [doubled, flatMap_cons]
  split <;> rfl

/-- **The closing quote of a name** is found, and no earlier one is taken for it. -/
theorem closeQuote_doubled (after : Text) (h : after.head? ≠ some close) : ∀ (value : Text) (index lineStart : Nat),
    ∃ line, closeQuote close true .plain (doubled close value ++ close :: after) index lineStart =
      .closed (index + (doubled close value).length + 1) line
  | [], index, lineStart => by
    refine ⟨lineStart, ?_⟩
    cases after with
    | nil => simp [doubled, closeQuote]
    | cons c rest =>
      have hc : c ≠ close := fun he => h (he ▸ rfl)
      simp [doubled, closeQuote, hc]
  | c :: value, index, lineStart => by
    rw [doubled_cons]
    by_cases hc : c = close
    · obtain ⟨line, hline⟩ := closeQuote_doubled after h value (index + 2) lineStart
      refine ⟨line, ?_⟩
      subst hc
      simp [closeQuote, hline]
      omega
    · obtain ⟨line, hline⟩ := closeQuote_doubled after h value (index + 1) (if c = newline then index + 1 else lineStart)
      refine ⟨line, ?_⟩
      obtain ⟨c', rest, hrest⟩ : ∃ c' rest, doubled close value ++ close :: after = c' :: rest :=
        exists_cons_of_ne_nil (by simp)
      rw [if_neg hc, cons_append, hrest, closeQuote]
      rw [hrest] at hline
      simp [hc, hline]
      omega

theorem quotedAt_doubled (before after value : Text) («open» : Code) (h : after.head? ≠ some close) (lineStart : Nat) :
    ∃ line, ∀ code message,
      quotedAt (before ++ «open» :: (doubled close value ++ [close]) ++ after) close true .plain code message
        before.length lineStart = .ok ⟨.quoted, before.length + («open» :: (doubled close value ++ [close])).length, line⟩ := by
  obtain ⟨line, hline⟩ := closeQuote_doubled after h value (before.length + 1) lineStart
  refine ⟨line, fun code message => ?_⟩
  have hdrop : (before ++ «open» :: (doubled close value ++ [close]) ++ after).drop (before.length + 1) =
      doubled close value ++ close :: after := by
    rw [append_assoc, ← drop_drop, drop_left]
    simp
  rw [quotedAt, hdrop, hline]
  simp
  omega

/-- **A name cannot leave its quotes**: the scan reads a quoted name as one token that ends with it, unless it stands right
after an escape prefix or right before another quote. -/
theorem quoteDbIdentifier_token {kind : Dialect} {value quoted : Text} (h : quoteDbIdentifier kind value = some quoted)
    (before after : Text) (hbefore : before.getLast? ∉ [some 101, some 69, some 38])
    (hafter : after.head? ≠ quoted.getLast?) (lineStart : Nat) :
    ∃ c line, quoted.head? = some c ∧ lexAt (before ++ quoted ++ after) kind c before.length lineStart =
      .ok ⟨.quoted, before.length + quoted.length, line⟩ := by
  have hescape : ∀ rest, usesPostgresEscapePrefix (before ++ rest) before.length = false := by
    intro rest
    have hbehind : behind (before ++ rest) before.length 1 = before.getLast? := by
      rw [behind, getLast?_eq_getElem?]
      split
      · rw [getElem?_append_left (by omega)]
      · rw [getElem?_eq_none (by omega)]
    simp only [mem_cons, not_or] at hbefore
    simp [usesPostgresEscapePrefix, hbehind, hbefore]
  have hstarts : ∀ (a c : Code) (rest needle : Text), a ≠ c →
      startsWith (a :: needle) (before ++ c :: rest) before.length = false := by
    intro a c rest needle hne
    rw [startsWith, drop_left, isPrefixOf_cons_cons, beq_false_of_ne hne, Bool.false_and]
  unfold quoteDbIdentifier at h
  split at h
  · cases h
  · rw [Option.some.injEq] at h
    subst h
    by_cases hkind : kind = .mssql
    · rw [if_pos hkind] at hafter ⊢
      obtain ⟨line, hline⟩ := quotedAt_doubled before after value 91 (by simpa [getLast?_cons] using hafter) lineStart
      refine ⟨91, line, rfl, ?_⟩
      rw [← hline .unterminatedIdentifier "Bracket identifier is not closed", append_assoc]
      simp [lexAt, isWhitespace, codes, hstarts, hkind]
    · rw [if_neg hkind] at hafter ⊢
      obtain ⟨line, hline⟩ := quotedAt_doubled before after value 34 (by simpa [getLast?_cons] using hafter) lineStart
      refine ⟨34, line, rfl, ?_⟩
      rw [← hline .unterminatedIdentifier "Quoted identifier is not closed", append_assoc]
      simp [lexAt, isWhitespace, codes, hstarts, hescape]

/-- A name with a quote in it. -/
theorem quoteDbIdentifier_token_quote :
    ∃ c line, (codes "\"a\"\"b\"").head? = some c ∧
      lexAt (codes "FROM " ++ codes "\"a\"\"b\"" ++ []) .postgres c 5 0 = .ok ⟨.quoted, 5 + 6, line⟩ :=
  quoteDbIdentifier_token (show quoteDbIdentifier .postgres (codes "a\"b") = some (codes "\"a\"\"b\"") by decide)
    (codes "FROM ") [] (by decide) (by decide) 0

end Sql
end Yuzora
