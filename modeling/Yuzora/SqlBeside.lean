import Mathlib.Logic.Relation
import Yuzora.SqlSlices
/-!
# SqlBeside — the scan of a part beside the scan of the source

While no unit ends, a token takes both scans on in the same way (`Beside.take`), up to the shift.  A unit begins where
what stands before it is over (`Piece.clear`), and most tokens end with no blank (`lexAt_ends`).
-/
namespace Yuzora
namespace Sql

open List

def BlockFrame.shift (f : Nat) (b : BlockFrame) : BlockFrame := ⟨b.kind, b.position - f⟩

/-- What the two scans have alike. -/
structure Alike (f : Nat) (s r : State) : Prop where
  units : r.units = []
  firstSource : r.firstSource = s.firstSource.map (· - f)
  hasSql : r.hasSql = s.hasSql
  leadingWords : r.leadingWords = s.leadingWords
  mssqlRoutine : r.mssqlRoutine = s.mssqlRoutine
  sqliteTrigger : r.sqliteTrigger = s.sqliteTrigger
  sqliteTriggerBodySeen : r.sqliteTriggerBodySeen = s.sqliteTriggerBodySeen
  sqliteTriggerClosed : r.sqliteTriggerClosed = s.sqliteTriggerClosed
  blocks : r.blocks = s.blocks.map (BlockFrame.shift f)
  parentheses : r.parentheses = s.parentheses.map (· - f)
  trailing : r.trailingAfterTerminator = false

structure Beside (f : Nat) (s r : State) : Prop extends Alike f s r where
  index : r.index = s.index - f
  lineStart : r.lineStart = s.lineStart - f

/-- What a `BEGIN` or an `END` looks ahead for is the same in the slice. -/
structure SameAhead (source slice : Text) (word : Text) (position position' : Nat) : Prop where
  begin : word = codes "BEGIN" → opensMssqlBlock (nextKeyword source (position + word.length)) =
    opensMssqlBlock (nextKeyword slice (position' + word.length))
  «end» : word = codes "END" → (nextKeyword source (position + word.length) = some (codes "CONVERSATION") ↔
    nextKeyword slice (position' + word.length) = some (codes "CONVERSATION"))

section Stepping

variable {source slice : Text} {dialect : Dialect} {f : Nat} {s s' r : State} {word : Text} {position position' : Nat}

section
variable (h : Alike f s r)
include h

theorem Alike.moved (i i' l l' : Nat) (b : Bool) :
    Alike f { s with index := i, lineStart := l, trailingAfterTerminator := b } { r with index := i', lineStart := l' } :=
  ⟨h.units, h.firstSource, h.hasSql, h.leadingWords, h.mssqlRoutine, h.sqliteTrigger, h.sqliteTriggerBodySeen,
    h.sqliteTriggerClosed, h.blocks, h.parentheses, h.trailing⟩

theorem Alike.mark {p p' : Nat} (hp : p' = p - f) (b : Bool) : Alike f (mark p b s) (mark p' b r) where
  units := h.units
  firstSource := by
    dsimp only [Sql.mark]
    rw [h.firstSource, hp]
    cases s.firstSource <;> rfl
  hasSql := by
    dsimp only [Sql.mark]
    rw [h.hasSql]
  leadingWords := h.leadingWords
  mssqlRoutine := h.mssqlRoutine
  sqliteTrigger := h.sqliteTrigger
  sqliteTriggerBodySeen := h.sqliteTriggerBodySeen
  sqliteTriggerClosed := h.sqliteTriggerClosed
  blocks := h.blocks
  parentheses := h.parentheses
  trailing := h.trailing

theorem Alike.recordLeading (dialect : Dialect) (word : Text) :
    Alike f (recordLeading dialect word s) (recordLeading dialect word r) := by
  unfold Sql.recordLeading
  rw [h.leadingWords]
  split
  · exact ⟨h.units, h.firstSource, h.hasSql, rfl, by rw [h.mssqlRoutine], by rw [h.sqliteTrigger],
      h.sqliteTriggerBodySeen, h.sqliteTriggerClosed, h.blocks, h.parentheses, h.trailing⟩
  · exact h

theorem Alike.push (kind : BlockKind) (hp : position' = position - f) :
    Alike f { s with blocks := ⟨kind, position⟩ :: s.blocks } { r with blocks := ⟨kind, position'⟩ :: r.blocks } :=
  ⟨h.units, h.firstSource, h.hasSql, h.leadingWords, h.mssqlRoutine, h.sqliteTrigger, h.sqliteTriggerBodySeen,
    h.sqliteTriggerClosed, by dsimp only; rw [h.blocks, hp]; rfl, h.parentheses, h.trailing⟩

section
variable (hp : position' = position - f)
include hp

theorem Alike.recordMssql
    (ha : SameAhead source slice word position position') (hs : recordMssql source word position s = .ok s') :
    ∃ r', recordMssql slice word position' r = .ok r' ∧ Alike f s' r' := by
  unfold Sql.recordMssql at hs ⊢
  split at hs
  · rename_i hb
    rw [if_pos hb, ← ha.begin hb]
    split at hs
    · rename_i ho
      cases hs
      rw [if_pos ho]
      exact ⟨_, rfl, h.push .begin hp⟩
    · rename_i ho
      cases hs
      rw [if_neg ho]
      exact ⟨_, rfl, h⟩
  · rename_i hb
    rw [if_neg hb]
    split at hs
    · rename_i hc
      cases hs
      rw [if_pos hc]
      exact ⟨_, rfl, h.push .case hp⟩
    · rename_i hc
      rw [if_neg hc]
      split at hs
      · rename_i he
        have he' := he
        simp only [Bool.and_eq_true, decide_eq_true_eq] at he'
        rw [if_pos (by simpa [he'.1] using (not_congr (ha.«end» he'.1)).1 he'.2)]
        split at hs
        · cases hs
        · rename_i b rest hbl
          cases hs
          rw [h.blocks, hbl]
          exact ⟨_, rfl, h.units, h.firstSource, h.hasSql, h.leadingWords, h.mssqlRoutine, h.sqliteTrigger,
            h.sqliteTriggerBodySeen, h.sqliteTriggerClosed, rfl, h.parentheses, h.trailing⟩
      · rename_i he
        cases hs
        refine ⟨r, if_neg fun he' => he ?_, h⟩
        simp only [Bool.and_eq_true, decide_eq_true_eq] at he' ⊢
        exact ⟨he'.1, (not_congr (ha.«end» he'.1)).2 he'.2⟩

theorem Alike.recordTrigger (hs : recordTrigger word position s = .ok s') :
    ∃ r', recordTrigger word position' r = .ok r' ∧ Alike f s' r' := by
  unfold Sql.recordTrigger at hs ⊢
  split at hs
  · rename_i hb
    cases hs
    rw [if_pos hb]
    exact ⟨_, rfl, h.units, h.firstSource, h.hasSql, h.leadingWords, h.mssqlRoutine, h.sqliteTrigger, rfl, rfl,
      by dsimp only; rw [h.blocks, hp]; rfl, h.parentheses, h.trailing⟩
  · rename_i hb
    rw [if_neg hb]
    split at hs
    · rename_i hc
      cases hs
      rw [if_pos hc]
      exact ⟨_, rfl, h.push .case hp⟩
    · rename_i hc
      rw [if_neg hc]
      split at hs
      · rename_i he
        rw [if_pos he]
        split at hs
        · cases hs
        · rename_i b rest hbl
          cases hs
          rw [h.blocks, hbl]
          exact ⟨_, rfl, h.units, h.firstSource, h.hasSql, h.leadingWords, h.mssqlRoutine, h.sqliteTrigger,
            h.sqliteTriggerBodySeen, by dsimp only; rw [h.sqliteTriggerBodySeen, isEmpty_map], rfl, h.parentheses,
            h.trailing⟩
      · rename_i he
        cases hs
        exact ⟨r, if_neg he, h⟩

theorem Alike.recordWord (ha : dialect = .mssql → SameAhead source slice word position position')
    (hs : recordWord source dialect word position s = .ok s') :
    ∃ r', recordWord slice dialect word position' r = .ok r' ∧ Alike f s' r' := by
  unfold Sql.recordWord at hs ⊢
  dsimp only at hs ⊢
  have hl := h.recordLeading dialect word
  split at hs
  · rename_i hd
    rw [if_pos hd]
    exact hl.recordMssql hp (ha hd) hs
  · rename_i hd
    rw [if_neg hd, hl.sqliteTrigger]
    split at hs
    · rename_i ht
      rw [if_pos ht]
      exact hl.recordTrigger hp hs
    · rename_i ht
      rw [if_neg ht]
      cases hs
      exact ⟨_, rfl, hl⟩

end

theorem Alike.terminates : terminates dialect r = terminates dialect s := by
  unfold Sql.terminates
  rw [h.sqliteTrigger, h.sqliteTriggerClosed, h.mssqlRoutine, h.blocks, isEmpty_map]

theorem Alike.comment {p' : Nat} (hp : p' = s.index - f)
    (hmark : s.trailingAfterTerminator = true → s.firstSource.isSome = true) :
    Alike f (if s.trailingAfterTerminator then s else Sql.mark s.index false s) (Sql.mark p' false r) := by
  split
  · rename_i ht
    obtain ⟨g, hg⟩ := Option.isSome_iff_exists.1 (hmark ht)
    have hr : Sql.mark p' false r = r := by
      have hor : r.firstSource.or (some p') = r.firstSource := by
        rw [h.firstSource, hg]
        rfl
      rw [Sql.mark, hor, Bool.or_false]
    rw [hr]
    exact h
  · exact h.mark hp false

end

/-- **A token that ends nothing keeps the scans beside one another.** -/
theorem Beside.take {t : Lexed} (h : Beside f s r) (ht : take source dialect s t = .ok s')
    (hmark : t.item = .comment → s.trailingAfterTerminator = true → s.firstSource.isSome = true)
    (ha : ∀ w, t.item = .word w → dialect = .mssql → SameAhead source slice w s.index (s.index - f))
    (hgo : t.item ≠ .go) (hter : t.item = .semicolon → terminates dialect s = false) :
    ∃ r', take slice dialect r (t.shift f) = .ok r' ∧ Beside f s' r' := by
  obtain ⟨item, next, lineStart⟩ := t
  have hmarked := h.toAlike.mark h.index true
  cases item with
  | space endsLine =>
    cases ht
    refine ⟨_, rfl, ?_, rfl, rfl⟩
    have := h.toAlike.moved next (next - f) lineStart (lineStart - f) (s.trailingAfterTerminator && !endsLine)
    rw [h.trailing] at *
    exact this
  | comment =>
    cases ht
    dsimp only [Sql.take, Lexed.shift]
    rw [h.trailing]
    have hc := h.toAlike.comment h.index (hmark rfl)
    exact ⟨_, rfl, hc.moved next (next - f) lineStart (lineStart - f) _, rfl, rfl⟩
  | quoted | other =>
    cases ht
    exact ⟨_, rfl, hmarked.moved next (next - f) lineStart (lineStart - f) _, rfl, rfl⟩
  | word word =>
    dsimp only [Sql.take, Lexed.shift] at ht ⊢
    cases hr : recordWord source dialect word s.index (Sql.mark s.index true s) with
    | error => simp [hr, Except.map] at ht
    | ok s1 =>
      simp only [hr, Except.map, Except.ok.injEq] at ht
      subst ht
      obtain ⟨r1, hr1, h1⟩ := (h.toAlike.mark rfl true).recordWord rfl (ha word rfl) hr
      rw [h.index, hr1]
      exact ⟨_, rfl, h1.moved next (next - f) lineStart (lineStart - f) _, rfl, rfl⟩
  | go => exact absurd rfl hgo
  | opening =>
    cases ht
    refine ⟨_, rfl, ?_, rfl, rfl⟩
    have hm := hmarked.moved next (next - f) lineStart (lineStart - f) s.trailingAfterTerminator
    exact { hm with parentheses := by dsimp only; rw [h.parentheses, h.index]; rfl }
  | closing =>
    dsimp only [Sql.take, Lexed.shift] at ht ⊢
    split at ht
    · cases ht
    · rename_i p parentheses hpar
      cases ht
      rw [h.parentheses, hpar]
      refine ⟨_, rfl, ?_, rfl, rfl⟩
      have hm := hmarked.moved next (next - f) lineStart (lineStart - f) s.trailingAfterTerminator
      exact { hm with parentheses := rfl }
  | semicolon =>
    dsimp only [Sql.take, Lexed.shift] at ht ⊢
    split at ht
    · cases ht
    · rename_i hpar
      rw [hter rfl] at ht
      cases ht
      rw [h.parentheses, hpar, map_nil]
      rw [h.terminates, hter rfl]
      have hm := h.toAlike.moved next (next - f) lineStart (lineStart - f) s.trailingAfterTerminator
      exact ⟨_, rfl, { hm with parentheses := rfl }, rfl, rfl⟩

end Stepping

/-! ## Runs -/

def Moves (source : Text) (dialect : Dialect) (s s' : State) : Prop :=
  s.index < source.length ∧ step source dialect s = .ok s'

abbrev Reaches (source : Text) (dialect : Dialect) : State → Prop := Relation.ReflTransGen (Moves source dialect) .start

section Reaching

variable {source : Text} {dialect : Dialect} {s s' : State}

theorem Scanned.move (h : Scanned source dialect s) (hm : Moves source dialect s s') :
    Scanned source dialect s' ∧ s.index < s'.index := h.step hm.1 hm.2

theorem Reaches.scanned (h : Reaches source dialect s) : Scanned source dialect s := by
  induction h with
  | refl => exact scanned_start
  | tail _ hm ih => exact (ih.move hm).1

theorem scan_of_moves (h : Relation.ReflTransGen (Moves source dialect) s s') (hend : s'.index = source.length) :
    ∀ fuel, Scanned source dialect s → source.length ≤ s.index + fuel → scan source dialect fuel s = .ok s' := by
  induction h using Relation.ReflTransGen.head_induction_on with
  | refl =>
    intro fuel _ _
    cases fuel with
    | zero => rfl
    | succ fuel => rw [Sql.scan, if_neg (by omega)]
  | @head s s1 hm _ ih =>
    intro fuel hs hfuel
    obtain ⟨hs1, hlt⟩ := hs.move hm
    have hi := hm.1
    cases fuel with
    | zero => omega
    | succ fuel =>
      rw [Sql.scan, if_pos hm.1, hm.2]
      exact ih fuel hs1 (by omega)

theorem scan_of_reaches (h : Reaches source dialect s) (hend : s.index = source.length) :
    scan source dialect source.length .start = .ok s :=
  scan_of_moves h hend _ scanned_start (by simp [State.start])

theorem reaches_of_scan {P : State → Prop}
    (hmove : ∀ s s', Reaches source dialect s → P s → Moves source dialect s s' → P s') :
    ∀ {fuel : Nat} {s s' : State}, Reaches source dialect s → P s → scan source dialect fuel s = .ok s' →
      Reaches source dialect s' ∧ P s'
  | 0, s, s', hr, hp, h => by
    cases h
    exact ⟨hr, hp⟩
  | fuel + 1, s, s', hr, hp, h => by
    rw [Sql.scan] at h
    split at h
    · rename_i hlt
      split at h
      · cases h
      · rename_i s1 hs
        exact reaches_of_scan hmove (hr.tail ⟨hlt, hs⟩) (hmove s s1 hr hp ⟨hlt, hs⟩) h
    · cases h
      exact ⟨hr, hp⟩

end Reaching

/-! ## After a gap -/

section Gaps

variable {source : Text} {dialect : Dialect} {a b i : Nat} {nested : Bool}

theorem not_word_of_whitespace {c : Nat} (h : isWhitespace c = true) : isWordPart c = false ∧ c ≠ 38 := by
  simp only [isWhitespace, Bool.or_eq_true, Bool.and_eq_true, decide_eq_true_eq] at h
  simp only [isWordPart, isWordStart, isLetter, isDigit, Bool.or_eq_false_iff, Bool.and_eq_false_iff,
    decide_eq_false_iff_not]
  unfold Code at *
  omega

/-- What comes next begins anew, or is no more than the end of a line. -/
def Clear (source : Text) (i : Nat) : Prop := Cut source i ∨ source[i]? = some newline ∨ source.length ≤ i

theorem cut_succ {c : Code} (hc : source[i]? = some c) (h : isWordPart c = false ∧ c ≠ 38) : Cut source (i + 1) := by
  intro d hd
  rw [behind, if_pos (by omega), Nat.add_sub_cancel, hc] at hd
  cases hd
  exact h

theorem Clear.cut (h : Clear source i) (hs : SolidAt source i) : Cut source i := by
  obtain ⟨c, hc, hw⟩ := hs
  rcases h with h | h | h
  · exact h
  · rw [hc] at h
    cases h
    cases hw
  · rw [getElem?_eq_none h] at hc
    cases hc

theorem Closes.last {n : Nat} {body : Text} (h : Closes nested n body) (hn : 0 < n) : body.getLast? = some 47 := by
  have snoc (c : Code) {rest : Text} (hr : rest.getLast? = some 47) : (c :: rest).getLast? = some 47 := by
    rw [getLast?_cons, hr]
    rfl
  induction h with
  | done => cases hn
  | opens _ _ ih => exact snoc _ (snoc _ (ih (Nat.succ_pos _)))
  | @closes n rest hrest ih =>
    cases n with
    | zero =>
      cases hrest
      rfl
    | succ n => exact snoc _ (snoc _ (ih (Nat.succ_pos n)))
  | skips c _ _ _ ih => exact snoc c (ih (Nat.succ_pos _))

theorem last_of_blockComment {body : Text} (hb : Closes nested 1 body)
    (hrest : ∃ rest, source.drop a = codes "/*" ++ body ++ rest) : source[a + 2 + body.length - 1]? = some 47 := by
  obtain ⟨rest, hrest⟩ := hrest
  have hlen : 0 < body.length := length_pos_iff.2 hb.ne_nil
  have hsub : a + 2 + body.length - 1 = a + (2 + (body.length - 1)) := by omega
  have hget := hb.last Nat.one_pos
  rw [getLast?_eq_getElem?] at hget
  rw [hsub, ← getElem?_drop, hrest, codes_open, append_assoc, getElem?_append_right (by simp)]
  simp only [length_cons, length_nil, Nat.add_sub_cancel_left]
  rw [getElem?_append_left (by omega), hget]

theorem Piece.clear (h : Piece source dialect a b) : Clear source b := by
  cases h with
  | quiet h =>
    cases h with
    | space h =>
      obtain ⟨c, hc, hw⟩ := h
      exact .inl (cut_succ hc (not_word_of_whitespace hw))
    | lineComment _ _ _ _ hend =>
      rcases hend with rfl | hend
      · exact .inr (.inr (Nat.le_refl _))
      · exact .inr (.inl hend)
    | blockComment body hb hrest =>
      have := cut_succ (last_of_blockComment hb hrest) ⟨rfl, by decide⟩
      rw [Nat.sub_add_cancel (by omega)] at this
      exact .inl this
  | terminator a h => exact .inl (cut_succ h ⟨rfl, by decide⟩)
  | goLine _ h =>
    rcases h.ends with ⟨hs, rfl⟩ | ⟨hs, rfl⟩
    · exact .inr (.inr (Nat.le_of_eq hs.symm))
    · exact .inl (cut_succ hs ⟨rfl, by decide⟩)

end Gaps


/-! ## The end of a token -/

section Ends

variable {source : Text} {dialect : Dialect} {c : Code} {index lineStart : Nat} {t : Lexed} {escapes : Backslash}
  {doubled : Bool} {close : Code}

theorem solidAt_of {c : Code} (hc : source[index]? = some c) (hw : isWhitespace c = false) : SolidAt source index :=
  ⟨c, hc, hw⟩

theorem closeQuote_last {l : Text} {next line : Nat}
    (hl : source.drop index = l) (h : closeQuote close doubled escapes l index lineStart = .closed next line) :
    source[next - 1]? = some close := by
  fun_induction closeQuote close doubled escapes l index lineStart with
  | case1 | case2 | case3 => cases h
  | case4 | case9 =>
    cases h
    exact getElem?_of_drop hl
  | case5 => cases h
  | case6 => cases h
  | case7 _ _ _ _ _ _ _ ih | case8 _ _ _ _ _ _ _ ih => exact ih (drop_succ_of_drop (drop_succ_of_drop hl)) h
  | case10 c c' rest index lineStart _ _ _ ih => exact ih (drop_succ_of_drop hl) h

theorem dollarDelimiterAt_last {d : Text} (h : dollarDelimiterAt source index = some d) : d.getLast? = some 36 := by
  rw [← Postgres.dollarTag_eq] at h
  unfold Postgres.dollarTag at h
  dsimp only at h
  split at h
  · cases h
    rw [getLast?_cons, getLast?_append]
    rfl
  · cases h

/-- What ends a token: only a space, a line comment, a `GO` line and a word of one dialect may end with a blank. -/
def Lexed.Closed (source : Text) (dialect : Dialect) (index : Nat) (t : Lexed) : Prop :=
  match t.item with
  | .space _ | .go => True
  | .word _ => dialect ≠ .postgres → SolidAt source (t.next - 1)
  | .comment => startsWith (codes "--") source index = true ∨ SolidAt source (t.next - 1)
  | .quoted | .opening | .closing | .semicolon | .other => SolidAt source (t.next - 1)

theorem quotedAt_ends {code : ParseErrorCode} {message : String} (hw : isWhitespace close = false)
    (h : quotedAt source close doubled escapes code message index lineStart = .ok t) : t.Closed source dialect index := by
  obtain ⟨hi, hq⟩ := quotedAt_closed h
  rw [Lexed.Closed, hi]
  exact solidAt_of (closeQuote_last rfl hq) hw

theorem dollarQuotedAt_ends {d : Text} (hlast : d.getLast? = some 36)
    (h : dollarQuotedAt source d index lineStart = .ok t) : t.Closed source dialect index := by
  have hd : d ≠ [] := by
    rintro rfl
    cases hlast
  unfold dollarQuotedAt at h
  split at h
  · cases h
  · rename_i close hc
    cases h
    obtain ⟨rest, hrest⟩ := isPrefixOf_iff_prefix.1 ((indexOf_eq_some hd).1 hc).2.1
    have hlen := length_pos_iff.2 hd
    rw [getLast?_eq_getElem?] at hlast
    have hsub : close + d.length - 1 = close + (d.length - 1) := by omega
    refine solidAt_of (c := 36) ?_ rfl
    rw [hsub, ← getElem?_drop, ← hrest, getElem?_append_left (by omega), hlast]

theorem plainAt_ends (hc : source[index]? = some c) (hw : isWhitespace c = false) :
    (plainAt source dialect c index lineStart).Closed source dialect index := by
  have hs := solidAt_of hc hw
  unfold plainAt
  split
  · intro hd
    obtain ⟨hle, hall, -⟩ := Postgres.runEnd_at (continuesWord dialect) source (index + 1)
    by_cases hone : runEnd (continuesWord dialect) (source.drop (index + 1)) (index + 1) = index + 1
    · rw [hone, Nat.add_sub_cancel]
      exact hs
    · obtain ⟨d, hd', hp⟩ := hall (runEnd (continuesWord dialect) (source.drop (index + 1)) (index + 1) - 1)
        (by omega) (by omega)
      refine solidAt_of hd' (Bool.eq_false_iff.2 fun hwd => ?_)
      rw [continuesWord, if_neg hd, (not_word_of_whitespace hwd).1] at hp
      cases hp
  · split
    · exact hs
    · split
      · exact hs
      · split
        · exact hs
        · exact hs

theorem lexAt_ends (hc : source[index]? = some c) (hline : OnLine source lineStart index)
    (h : lexAt source dialect c index lineStart = .ok t) : t.Closed source dialect index := by
  have hfits := lexAt_fits hc hline h
  cases lexAt_cases h with
  | space | go => trivial
  | lineComment _ hdash => exact .inl hdash
  | blockComment _ _ _ hdash =>
    obtain ⟨hs, hq⟩ := hfits.item
    cases hq with
    | space hsp => exact absurd hs hsp.not_solid
    | lineComment _ hd => exact absurd hd hdash
    | blockComment body hb hrest => exact .inr (solidAt_of (last_of_blockComment hb hrest) rfl)
  | quoted _ hclose h => exact quotedAt_ends hclose h
  | dollarQuoted _ hd h => exact dollarQuotedAt_ends (dollarDelimiterAt_last hd) h
  | plain hw => exact plainAt_ends hc hw

end Ends

end Sql
end Yuzora
