import Yuzora.SqlBeside
/-!
# SqlRescan — a unit's text, scanned alone

The scan of a unit's text keeps beside the scan of the source from the unit's beginning on (`Within`), and where the unit
ends it has that unit and nothing else (`Rescans`).
-/
namespace Yuzora
namespace Sql

open List

variable (source : Text)

def TokenAt (dialect : Dialect) (p : Nat) (t : Lexed) : Prop :=
  ∃ s c, Reaches source dialect s ∧ s.index = p ∧ source[p]? = some c ∧ lexAt source dialect c p s.lineStart = .ok t

/-- The slice means alone what it means in the source: it does not begin with a `GO` line or with a dollar quote that is
none in the source, it cuts no identifier, and no block keyword looks beyond it. -/
structure Standalone (source : Text) (dialect : Dialect) (f e : Nat) : Prop where
  go : dialect = .mssql → inspectGoLine (slice source f e) 0 0 = none
  dollar : dialect = .postgres → (behind source f 1).any isPostgresIdentifierPart = true →
    dollarDelimiterAt (slice source f e) 0 = none
  uncut : dialect = .postgres → ∀ p t w, TokenAt source dialect p t → t.item = .word w → f ≤ p → p < e →
    t.next ≤ e
  ahead : dialect = .mssql → ∀ p t w, TokenAt source dialect p t → t.item = .word w → f ≤ p → p < e →
    SameAhead source (slice source f e) w p (p - f)

def Rescans (dialect : Dialect) (u : SqlUnit) : Prop :=
  splitDatabaseSql u.sql dialect = .ok [⟨u.sql, 0, u.stop - u.start, u.transactionBoundary⟩]

/-- Each slice from here to beyond the scan is scanned beside it. -/
def Within (dialect : Dialect) (f : Nat) (s : State) : Prop :=
  ∀ e, s.index < e → e ≤ source.length → Standalone source dialect f e →
    ∃ r, Reaches (slice source f e) dialect r ∧ Beside f s r

/-- The slice from here to the scan, without the blanks at its end, is scanned to its end. -/
def Ended (dialect : Dialect) (f : Nat) (s : State) : Prop :=
  Standalone source dialect f (trimmedEnd source f s.index) →
    ∃ r, Reaches (slice source f (trimmedEnd source f s.index)) dialect r ∧
      r.index = trimmedEnd source f s.index - f ∧ Alike f s r

section Trimming

variable {source : Text} {f a b : Nat}

theorem trimmedEnd_blank (hf : f < a) (hab : a ≤ b) (hw : ∀ i, a ≤ i → i < b → WhitespaceAt source i) :
    trimmedEnd source f b = trimmedEnd source f a := by
  induction b with
  | zero => rw [Nat.le_zero.1 hab]
  | succ b ih =>
    by_cases hb : a = b + 1
    · rw [hb]
    · obtain ⟨c, hc, hcw⟩ := hw b (by omega) (Nat.lt_succ_self b)
      rw [trimmedEnd, if_pos (by simp [hc, hcw]; omega)]
      exact ih (by omega) fun i hi hib => hw i hi (Nat.lt_succ_of_lt hib)

theorem trimmedEnd_solid (hb : 0 < b) (hs : SolidAt source (b - 1)) : trimmedEnd source f b = b := by
  obtain ⟨b, rfl⟩ : ∃ b', b = b' + 1 := ⟨b - 1, by omega⟩
  obtain ⟨c, hc, hw⟩ := hs
  rw [Nat.add_sub_cancel] at hc
  rw [trimmedEnd, if_neg (by simp [hc, hw])]

end Trimming

section Tokens

variable {source : Text} {dialect : Dialect} {f e : Nat} {s s' : State} {c : Code} {t : Lexed}

/-- A token of the scan that ends no unit. -/
structure Passes (source : Text) (dialect : Dialect) (s : State) (c : Code) (t : Lexed) (s' : State) : Prop where
  reaches : Reaches source dialect s
  char : source[s.index]? = some c
  lex : lexAt source dialect c s.index s.lineStart = .ok t
  takes : take source dialect s t = .ok s'
  go : t.item ≠ .go
  semicolon : t.item = .semicolon → terminates dialect s = false

theorem Passes.onLine (h : Passes source dialect s c t s') : OnLine source s.lineStart s.index := by
  have hline := h.reaches.scanned.line
  exact ⟨hline.1, hline.2.resolve_right (Nat.ne_of_lt (List.getElem?_eq_some_iff.1 h.char).1)⟩

theorem Passes.fits (h : Passes source dialect s c t s') : t.Fits source dialect s.index s.lineStart :=
  lexAt_fits h.char h.onLine h.lex

/-- **A token within the slice is taken in both scans.** -/
theorem Within.reaches (hw : Within source dialect f s) (hp : Passes source dialect s c t s') (hf : f ≤ s.index)
    (hcut : Cut source f) (hsolid : SolidAt source f)
    (hmark : t.item = .comment → s.trailingAfterTerminator = true → s.firstSource.isSome = true)
    (hle : t.next ≤ e) (hspace : ∀ b, t.item = .space b → t.next < e) (he : e ≤ source.length)
    (hs : Standalone source dialect f e) : ∃ r, Reaches (slice source f e) dialect r ∧ Beside f s' r := by
  have hlt := hp.fits.lt
  have hie : s.index < e := Nat.lt_of_lt_of_le hlt hle
  obtain ⟨r, hr, hb⟩ := hw e hie he hs
  have ha : Apart source dialect f e := ⟨hcut, hsolid, by omega, he, hs.go, hs.dollar⟩
  have hlex := lexAt_slice ha hf hp.char hp.onLine.le hp.lex hlt hle hspace hp.go
  rw [← hb.index, ← hb.lineStart] at hlex
  have hahead (w : Text) (hi : t.item = .word w) (hd : dialect = .mssql) :
      SameAhead source (slice source f e) w s.index (s.index - f) :=
    hs.ahead hd s.index t w ⟨s, c, hp.reaches, rfl, hp.char, hp.lex⟩ hi hf hie
  obtain ⟨r', htake, hb'⟩ := hb.take hp.takes hmark hahead hp.go hp.semicolon
  refine ⟨r', hr.tail ⟨?_, ?_⟩, hb'⟩
  · rw [slice_length he, hb.index]
    omega
  · have hget : (slice source f e)[r.index]? = some c := by rw [hb.index, slice_get_lt hf hie, hp.char]
    rw [step, hget]
    dsimp only
    rw [hlex]
    exact htake

theorem Within.pass (hw : Within source dialect f s) (hp : Passes source dialect s c t s') (hf : f ≤ s.index)
    (hcut : Cut source f) (hsolid : SolidAt source f)
    (hmark : t.item = .comment → s.trailingAfterTerminator = true → s.firstSource.isSome = true) :
    Within source dialect f s' := by
  intro e hie he hs
  rw [take_index hp.takes] at hie
  exact hw.reaches hp hf hcut hsolid hmark (Nat.le_of_lt hie) (fun _ _ => hie) he hs

theorem lexAt_dash {index lineStart : Nat} (hc : source[index]? = some c)
    (hdash : startsWith (codes "--") source index = true) :
    lexAt source dialect c index lineStart = .ok ⟨.comment, lineEnd source index, lineStart⟩ := by
  have hc' : c = 45 := Option.some.inj (hc.symm.trans (startsWith_head hdash))
  subst hc'
  rw [lexAt, if_neg (by decide), if_pos hdash]

theorem Within.cutComment (hw : Within source dialect f s) (hp : Passes source dialect s c t s') (hf : f ≤ s.index)
    (hsolid : SolidAt source f)
    (hmark : t.item = .comment → s.trailingAfterTerminator = true → s.firstSource.isSome = true)
    (hdash : startsWith (codes "--") source s.index = true)
    (hs : Standalone source dialect f (trimmedEnd source f t.next)) :
    ∃ r, Reaches (slice source f (trimmedEnd source f t.next)) dialect r ∧
      r.index = trimmedEnd source f t.next - f ∧ Alike f s' r := by
  have ht : t = ⟨.comment, lineEnd source s.index, s.lineStart⟩ :=
    Except.ok.inj (hp.lex.symm.trans (lexAt_dash hp.char hdash))
  subst ht
  have hlt := hp.fits.lt
  have hle := hp.fits.le
  dsimp only at hlt hle hs ⊢
  obtain ⟨-, htle, -, hblank⟩ := trimmedEnd_spec hsolid (Nat.lt_of_le_of_lt hf hlt) hle
  have hlen : s.index + 2 ≤ source.length := startsWith_length hdash (by simp [codes_dashes])
  have hge : s.index + 2 ≤ lineEnd source s.index := (newline_spec hlen rfl).1
  have hsecond : source[s.index + 1]? = some 45 := by
    obtain ⟨rest, hrest⟩ := isPrefixOf_iff_prefix.1 hdash
    rw [← getElem?_drop, ← hrest]
    rfl
  generalize he : trimmedEnd source f (lineEnd source s.index) = e at htle hblank hs ⊢
  have hie : s.index + 2 ≤ e := by
    by_contra hlt2
    obtain ⟨d, hd, hdw⟩ := hblank (s.index + 1) (by omega) (by omega)
    rw [hsecond] at hd
    cases hd
    cases hdw
  obtain ⟨r, hr, hb⟩ := hw e (by omega) (Nat.le_trans htle hle) hs
  have hget : (slice source f e)[r.index]? = some c := by rw [hb.index, slice_get_lt hf (by omega), hp.char]
  have hdash' : startsWith (codes "--") (slice source f e) r.index = true := by
    rw [hb.index]
    exact startsWith_slice hf (by rw [codes_dashes]; exact hie) hdash
  have hend : lineEnd (slice source f e) r.index = e - f := by
    rw [hb.index, lineEnd_slice hf hie (Nat.le_trans htle hle), Nat.min_eq_right htle]
  have hstep : step (slice source f e) dialect r =
      take (slice source f e) dialect r ⟨.comment, e - f, r.lineStart⟩ := by
    rw [step, hget]
    dsimp only
    rw [lexAt_dash hget hdash', hend]
  refine ⟨_, hr.tail ⟨?_, hstep⟩, rfl, ?_⟩
  · rw [slice_length (Nat.le_trans htle hle), hb.index]
    omega
  · cases hp.takes
    rw [hb.trailing]
    exact (hb.toAlike.comment hb.index (hmark rfl)).moved _ (e - f) _ r.lineStart _

theorem Within.ended (hw : Within source dialect f s) (hp : Passes source dialect s c t s') (hf : f ≤ s.index)
    (hcut : Cut source f) (hsolid : SolidAt source f)
    (hmark : t.item = .comment → s.trailingAfterTerminator = true → s.firstSource.isSome = true)
    (hspace : ∀ b, t.item = .space b → f < s.index ∧ Ended source dialect f s) : Ended source dialect f s' := by
  have hfits := hp.fits
  have hlt := hfits.lt
  have hle := hfits.le
  -- a token that ends with no blank, or is not cut
  have hwhole (hi : ∀ b, t.item ≠ .space b) (htrim : trimmedEnd source f t.next = t.next)
      (hs : Standalone source dialect f (trimmedEnd source f t.next)) :
      ∃ r, Reaches (slice source f (trimmedEnd source f t.next)) dialect r ∧
        r.index = trimmedEnd source f t.next - f ∧ Alike f s' r := by
    rw [htrim] at hs ⊢
    obtain ⟨r, hr, hb⟩ := hw.reaches hp hf hcut hsolid hmark (Nat.le_refl _) (fun b h => absurd h (hi b)) hle hs
    exact ⟨r, hr, by rw [hb.index, take_index hp.takes], hb.toAlike⟩
  obtain ⟨-, htle, -, hblank⟩ := trimmedEnd_spec hsolid (Nat.lt_of_le_of_lt hf hlt) hle
  have hclosed := lexAt_ends hp.char hp.onLine hp.lex
  have hitem := hfits.item
  obtain ⟨item, next, lineStart⟩ := t
  intro hs
  rw [take_index hp.takes] at hs ⊢
  cases item with
  | space b =>
    obtain ⟨hfi, hend⟩ := hspace b rfl
    obtain ⟨hwh, rfl⟩ := hitem
    have htrim : trimmedEnd source f (s.index + 1) = trimmedEnd source f s.index :=
      trimmedEnd_blank hfi (Nat.le_succ _) fun i hi hi' => by
        have : i = s.index := by omega
        exact this ▸ hwh
    rw [htrim] at hs ⊢
    obtain ⟨r, hr, hi, ha⟩ := hend hs
    refine ⟨r, hr, hi, ?_⟩
    cases hp.takes
    exact ha.moved _ r.index _ r.lineStart _
  | comment =>
    rcases hclosed with hdash | hlast
    · exact hw.cutComment hp hf hsolid hmark hdash hs
    · exact hwhole nofun (trimmedEnd_solid (Nat.zero_lt_of_lt hlt) hlast) hs
  | word word =>
    by_cases hd : dialect = .postgres
    · have hie : s.index < trimmedEnd source f next := by
        by_contra hge
        exact (hblank s.index (Nat.le_of_not_lt hge) hlt).not_solid hitem
      have hnext := hs.uncut hd s.index _ word ⟨s, c, hp.reaches, rfl, hp.char, hp.lex⟩ rfl hf hie
      exact hwhole nofun (Nat.le_antisymm htle hnext) hs
    · exact hwhole nofun (trimmedEnd_solid (Nat.zero_lt_of_lt hlt) (hclosed hd)) hs
  | go => exact absurd rfl hp.go
  | quoted | opening | closing | semicolon | other =>
    exact hwhole nofun (trimmedEnd_solid (Nat.zero_lt_of_lt hlt) hclosed) hs

end Tokens

/-! ## The end of a unit -/

section Units

variable {source : Text} {dialect : Dialect} {f e : Nat} {s r : State}

theorem unitAt_alike (ha : Alike f s r) (hf : s.firstSource = some f) (hsql : s.hasSql = true) (hfe : f < e)
    (hlast : SolidAt source (e - 1)) :
    unitAt (slice source f e) dialect (e - f) r =
      [⟨slice source f e, 0, e - f, transactionBoundaryFor dialect s.leadingWords⟩] := by
  have hfirst : r.firstSource = some 0 := by rw [ha.firstSource, hf, Option.map_some, Nat.sub_self]
  have hlast' : SolidAt (slice source f e) (e - f - 1) := by
    obtain ⟨c, hc, hw⟩ := hlast
    have hsub : e - f - 1 = e - 1 - f := by omega
    exact ⟨c, by rw [hsub, slice_get_lt (by omega) (by omega), hc], hw⟩
  have htrim : trimmedEnd (slice source f e) 0 (e - f) = e - f := trimmedEnd_solid (by omega) hlast'
  have hall : slice (slice source f e) 0 (e - f) = slice source f e := by
    have hsame : slice (slice source f e) (f - f) (e - f) = slice source f e :=
      slice_slice (Nat.le_refl f) (Nat.le_refl e)
    rwa [Nat.sub_self] at hsame
  unfold unitAt
  rw [hfirst, ha.hasSql, hsql, ha.leadingWords]
  dsimp only
  rw [if_pos rfl, htrim, if_pos (by omega), hall]

theorem finish_alike (ha : Alike f s r) (hpar : s.parentheses = []) (hbl : s.blocks = [])
    (htr : (s.sqliteTrigger && (!s.sqliteTriggerBodySeen || !s.sqliteTriggerClosed)) = false) {source : Text} :
    finish source dialect r = .ok (unitAt source dialect source.length r) := by
  unfold finish
  rw [ha.parentheses, ha.blocks, hpar, hbl, ha.sqliteTrigger, ha.sqliteTriggerBodySeen, ha.sqliteTriggerClosed]
  rw [htr]
  simp only [map_nil, Bool.false_eq_true, if_false, emit_units, ha.units, nil_append]

theorem finish_quiet (hpar : r.parentheses = []) (hbl : r.blocks = []) (htr : r.sqliteTrigger = false)
    (hsql : r.hasSql = false) : finish source dialect r = .ok r.units := by
  unfold finish
  rw [hpar, hbl, htr]
  simp only [Bool.false_and, Bool.false_eq_true, if_false, emit_units, unitAt_quiet hsql, append_nil]

/-- **A unit that ends where the text ends**: scanned alone, its text ends there. -/
theorem Ended.rescans (h : Ended source dialect f s) (hf : s.firstSource = some f) (hsql : s.hasSql = true)
    (hfi : f < s.index) (hle : s.index ≤ source.length) (hsolid : SolidAt source f) (hpar : s.parentheses = [])
    (hbl : s.blocks = []) (htr : (s.sqliteTrigger && (!s.sqliteTriggerBodySeen || !s.sqliteTriggerClosed)) = false)
    (hs : Standalone source dialect f (trimmedEnd source f s.index)) :
    Rescans dialect ⟨slice source f (trimmedEnd source f s.index), f, trimmedEnd source f s.index,
      transactionBoundaryFor dialect s.leadingWords⟩ := by
  obtain ⟨r, hr, hi, ha⟩ := h hs
  obtain ⟨h1, h2, h3, -⟩ := trimmedEnd_spec hsolid hfi hle
  generalize trimmedEnd source f s.index = e at hr hi h1 h2 h3 ⊢
  have hlen : (slice source f e).length = e - f := slice_length (Nat.le_trans h2 hle)
  unfold Rescans splitDatabaseSql
  rw [scan_of_reaches hr (hi.trans hlen.symm)]
  dsimp only
  rw [finish_alike ha hpar hbl htr, hlen, unitAt_alike ha hf hsql h1 h3]

/-- **A unit that ends with a terminator**: scanned alone, its text ends with it. -/
theorem Within.rescans {c : Code} {t : Lexed} (hw : Within source dialect f s) (hreach : Reaches source dialect s)
    (hc : source[s.index]? = some c) (hl : lexAt source dialect c s.index s.lineStart = .ok t)
    (ht : t.item = .semicolon) (hf : s.firstSource = some f) (hsql : s.hasSql = true) (hfi : f ≤ s.index)
    (hcut : Cut source f) (hsolid : SolidAt source f) (hpar : s.parentheses = []) (hter : terminates dialect s = true)
    (hs : Standalone source dialect f (s.index + 1)) :
    Rescans dialect ⟨slice source f (s.index + 1), f, s.index + 1, transactionBoundaryFor dialect s.leadingWords⟩ := by
  have hlt : s.index < source.length := (List.getElem?_eq_some_iff.1 hc).1
  have hline : OnLine source s.lineStart s.index :=
    ⟨hreach.scanned.line.1, hreach.scanned.line.2.resolve_right (Nat.ne_of_lt hlt)⟩
  have hfits := lexAt_fits hc hline hl
  obtain ⟨item, next, lineStart⟩ := t
  subst ht
  obtain ⟨h59, hnext⟩ := hfits.item
  subst hnext
  obtain ⟨r, hr, hb⟩ := hw (s.index + 1) (Nat.lt_succ_self _) hlt hs
  have hlen : (slice source f (s.index + 1)).length = s.index + 1 - f := slice_length hlt
  have hapart : Apart source dialect f (s.index + 1) := ⟨hcut, hsolid, Nat.lt_succ_of_le hfi, hlt, hs.go, hs.dollar⟩
  have hlex := lexAt_slice hapart hfi hc hline.le hl hfits.lt (Nat.le_refl _) nofun
    nofun
  have hget : (slice source f (s.index + 1))[r.index]? = some c := by
    rw [hb.index, slice_get_lt hfi (Nat.lt_succ_self _), hc]
  have hrpar : r.parentheses = [] := by rw [hb.parentheses, hpar, map_nil]
  have hrter : terminates dialect r = true := hb.terminates.trans hter
  have hri : r.index + 1 = s.index + 1 - f := by
    rw [hb.index]
    omega
  have hmove : Moves (slice source f (s.index + 1)) dialect r
      { emit (slice source f (s.index + 1)) dialect (s.index + 1 - f) r with
        index := s.index + 1 - f, lineStart := lineStart - f, trailingAfterTerminator := true } := by
    refine ⟨by rw [hlen]; omega, ?_⟩
    rw [← hb.index, ← hb.lineStart] at hlex
    rw [step, hget]
    dsimp only
    rw [hlex]
    dsimp only [take, Lexed.shift]
    rw [hrpar]
    rw [if_pos hrter, hri]
  unfold Rescans splitDatabaseSql
  rw [scan_of_reaches (hr.tail hmove) hlen.symm]
  have hlast : SolidAt source (s.index + 1 - 1) := ⟨59, by rw [Nat.add_sub_cancel]; exact h59, rfl⟩
  have hunits : (emit (slice source f (s.index + 1)) dialect (s.index + 1 - f) r).units =
      [⟨slice source f (s.index + 1), 0, s.index + 1 - f, transactionBoundaryFor dialect s.leadingWords⟩] := by
    rw [emit_units, hb.units, nil_append, unitAt_alike hb.toAlike hf hsql (Nat.lt_succ_of_le hfi) hlast]
  exact (finish_quiet rfl rfl rfl rfl).trans (congrArg Except.ok hunits)

end Units

/-! ## The scan of the source -/

structure Fresh (s : State) : Prop where
  hasSql : s.hasSql = false
  leadingWords : s.leadingWords = []
  mssqlRoutine : s.mssqlRoutine = false
  sqliteTrigger : s.sqliteTrigger = false
  sqliteTriggerBodySeen : s.sqliteTriggerBodySeen = false
  sqliteTriggerClosed : s.sqliteTriggerClosed = false
  blocks : s.blocks = []
  parentheses : s.parentheses = []

/-- The units so far are scanned alone as in the source, and so is the open one up to here. -/
structure Sliced (source : Text) (dialect : Dialect) (s : State) : Prop where
  units : ∀ u ∈ s.units, Standalone source dialect u.start u.stop → Rescans dialect u
  trigger : s.sqliteTrigger = true → dialect = .sqlite
  fresh : s.firstSource = none → Fresh s ∧ Clear source s.index
  begun : ∀ f, s.firstSource = some f → f < s.index ∧ Cut source f ∧ SolidAt source f ∧ Within source dialect f s ∧
    Ended source dialect f s

section Scanning

variable {source : Text} {dialect : Dialect} {f e : Nat} {s s' : State} {c : Code} {t : Lexed} {position : Nat}
  {word : Text}

theorem Fresh.within (h : Fresh s) (hf : s.firstSource = none) (hline : s.lineStart ≤ s.index) :
    Within source dialect s.index s := by
  intro e _ _ _
  refine ⟨.start, .refl, ⟨rfl, ?_, h.hasSql.symm, h.leadingWords.symm, h.mssqlRoutine.symm, h.sqliteTrigger.symm,
    h.sqliteTriggerBodySeen.symm, h.sqliteTriggerClosed.symm, ?_, ?_, rfl⟩, (Nat.sub_self _).symm, ?_⟩
  · rw [hf]
    rfl
  · rw [h.blocks]
    rfl
  · rw [h.parentheses]
    rfl
  · exact (Nat.sub_eq_zero_of_le hline).symm

theorem Fresh.terminates (h : Fresh s) : terminates dialect s = true := by
  simp [Sql.terminates, h.sqliteTrigger, h.mssqlRoutine, h.blocks]

theorem recordMssql_trigger (h : recordMssql source word position s = .ok s') : s'.sqliteTrigger = s.sqliteTrigger := by
  unfold recordMssql at h
  split at h
  · split at h <;> cases h <;> rfl
  · split at h
    · cases h
      rfl
    · split at h
      · split at h
        · cases h
        · cases h
          rfl
      · cases h
        rfl

theorem recordTrigger_trigger (h : recordTrigger word position s = .ok s') : s'.sqliteTrigger = s.sqliteTrigger := by
  unfold recordTrigger at h
  split at h
  · cases h
    rfl
  · split at h
    · cases h
      rfl
    · split at h
      · split at h
        · cases h
        · cases h
          rfl
      · cases h
        rfl

theorem recordWord_trigger (h : recordWord source dialect word position s = .ok s')
    (ht : s'.sqliteTrigger = true) : s.sqliteTrigger = true ∨ dialect = .sqlite := by
  have hl (hl : (recordLeading dialect word s).sqliteTrigger = true) : s.sqliteTrigger = true ∨ dialect = .sqlite := by
    unfold recordLeading at hl
    split at hl
    · simp only [Bool.or_eq_true, Bool.and_eq_true, decide_eq_true_eq] at hl
      exact hl.imp_right And.left
    · exact .inl hl
  unfold recordWord at h
  dsimp only at h
  split at h
  · exact hl ((recordMssql_trigger h).symm.trans ht)
  · split at h
    · exact hl ((recordTrigger_trigger h).symm.trans ht)
    · cases h
      exact hl ht

theorem take_trigger (h : take source dialect s t = .ok s') (ht : s'.sqliteTrigger = true) :
    s.sqliteTrigger = true ∨ dialect = .sqlite := by
  obtain ⟨item, next, lineStart⟩ := t
  cases item with
  | space | quoted | other | opening =>
    cases h
    exact .inl ht
  | comment =>
    cases h
    split at ht
    · exact .inl ht
    · exact .inl ht
  | word word =>
    dsimp only [take] at h
    cases hr : recordWord source dialect word s.index (mark s.index true s) with
    | error => simp [hr, Except.map] at h
    | ok s1 =>
      simp only [hr, Except.map, Except.ok.injEq] at h
      subst h
      have htrigger := recordWord_trigger hr
      exact htrigger ht
  | go =>
    dsimp only [take] at h
    split at h <;> cases h
    cases ht
  | closing =>
    dsimp only [take] at h
    split at h <;> cases h
    exact .inl ht
  | semicolon =>
    dsimp only [take] at h
    split at h
    · cases h
    · split at h <;> cases h
      · cases ht
      · exact .inl ht

/-- **What a token does to the open unit**: it is no part of it, or it begins it if nothing does. -/
theorem Passes.place (hp : Passes source dialect s c t s') : s'.units = s.units ∧
    ((s'.firstSource = s.firstSource ∧ Piece source dialect s.index t.next ∧ (Fresh s → Fresh s')) ∨
      (s'.firstSource = s.firstSource.or (some s.index) ∧ SolidAt source s.index ∧ (∀ b, t.item ≠ .space b) ∧
        (t.item = .comment → s.trailingAfterTerminator = false))) := by
  have hitem := hp.fits.item
  have ht := hp.takes
  have hter := hp.semicolon
  have hfresh (h : Fresh s) (i l : Nat) (b : Bool) :
      Fresh { s with index := i, lineStart := l, trailingAfterTerminator := b } :=
    ⟨h.hasSql, h.leadingWords, h.mssqlRoutine, h.sqliteTrigger, h.sqliteTriggerBodySeen, h.sqliteTriggerClosed,
      h.blocks, h.parentheses⟩
  obtain ⟨item, next, lineStart⟩ := t
  cases item with
  | space b =>
    cases ht
    obtain ⟨hw, hn⟩ := hitem
    exact ⟨rfl, .inl ⟨rfl, .quiet (hn ▸ .space _ hw), fun h => hfresh h _ _ _⟩⟩
  | comment =>
    cases ht
    obtain ⟨hs, hq⟩ := hitem
    split
    · exact ⟨rfl, .inl ⟨rfl, .quiet hq, fun h => hfresh h _ _ _⟩⟩
    · rename_i htr
      exact ⟨rfl, .inr ⟨rfl, hs, nofun, fun _ => by simpa using htr⟩⟩
  | quoted | other | opening =>
    cases ht
    exact ⟨rfl, .inr ⟨rfl, hitem, nofun, nofun⟩⟩
  | word word =>
    dsimp only [take] at ht
    cases hr : recordWord source dialect word s.index (mark s.index true s) with
    | error => simp [hr, Except.map] at ht
    | ok s1 =>
      simp only [hr, Except.map, Except.ok.injEq] at ht
      subst ht
      have hplace := recordWord_same hr
      exact ⟨hplace.units, .inr ⟨hplace.firstSource, hitem, nofun, nofun⟩⟩
  | go => exact absurd rfl hp.go
  | closing =>
    dsimp only [take] at ht
    split at ht <;> cases ht
    exact ⟨rfl, .inr ⟨rfl, hitem, nofun, nofun⟩⟩
  | semicolon =>
    dsimp only [take] at ht
    obtain ⟨hc, hn⟩ := hitem
    split at ht
    · cases ht
    · rw [hter rfl] at ht
      cases ht
      exact ⟨rfl, .inl ⟨rfl, hn ▸ .terminator _ hc, fun h => by rw [h.terminates] at hter; cases hter rfl⟩⟩

theorem Sliced.pass (h : Sliced source dialect s) (hp : Passes source dialect s c t s') : Sliced source dialect s' := by
  obtain ⟨hunits, hplace⟩ := hp.place
  have hindex := take_index hp.takes
  have hlt := hp.fits.lt
  refine ⟨hunits ▸ h.units, fun ht => (take_trigger hp.takes ht).elim h.trigger id, fun hnone => ?_, fun f hf => ?_⟩
  · rcases hplace with ⟨hfirst, hpiece, hfresh⟩ | ⟨hfirst, -⟩
    · rw [hindex]
      exact ⟨hfresh (h.fresh (hfirst ▸ hnone)).1, hpiece.clear⟩
    · rw [hnone] at hfirst
      cases hs : s.firstSource <;> rw [hs] at hfirst <;> cases hfirst
  · rw [hindex]
    by_cases hs : ∃ g, s.firstSource = some g
    · obtain ⟨g, hg⟩ := hs
      obtain ⟨hgi, hcut, hsolid, hw, hend⟩ := h.begun g hg
      have hfg : f = g := by
        rcases hplace with ⟨hfirst, -⟩ | ⟨hfirst, -⟩
        · rw [hfirst, hg] at hf
          exact (Option.some.inj hf).symm
        · rw [hfirst, hg] at hf
          exact (Option.some.inj hf).symm
      subst hfg
      have hmark (_ : t.item = .comment) (_ : s.trailingAfterTerminator = true) : s.firstSource.isSome = true := by
        rw [hg]
        rfl
      exact ⟨Nat.lt_trans hgi hlt, hcut, hsolid, hw.pass hp (Nat.le_of_lt hgi) hcut hsolid hmark,
        hw.ended hp (Nat.le_of_lt hgi) hcut hsolid hmark fun _ _ => ⟨hgi, hend⟩⟩
    · have hnone : s.firstSource = none := by
        cases hs' : s.firstSource with
        | none => rfl
        | some g => exact absurd ⟨g, hs'⟩ hs
      obtain ⟨hfresh, hclear⟩ := h.fresh hnone
      rcases hplace with ⟨hfirst, -⟩ | ⟨hfirst, hsolid, hspace, htrail⟩
      · rw [hfirst, hnone] at hf
        cases hf
      · rw [hfirst, hnone] at hf
        cases hf
        have hcut := hclear.cut hsolid
        have hw : Within source dialect s.index s := hfresh.within hnone hp.onLine.le
        have hmark (hi : t.item = .comment) (ht : s.trailingAfterTerminator = true) :
            s.firstSource.isSome = true := by
          rw [htrail hi] at ht
          cases ht
        exact ⟨hlt, hcut, hsolid, hw.pass hp (Nat.le_refl _) hcut hsolid hmark,
          hw.ended hp (Nat.le_refl _) hcut hsolid hmark fun b hb => absurd hb (hspace b)⟩

theorem sliced_start : Sliced source dialect .start where
  units _ hu := nomatch hu
  trigger h := nomatch h
  fresh _ := ⟨⟨rfl, rfl, rfl, rfl, rfl, rfl, rfl, rfl⟩, .inl nofun⟩
  begun _ hf := nomatch hf

theorem Sliced.join (h : Sliced source dialect s) {stop : Nat}
    (hunit : ∀ f, s.firstSource = some f → s.hasSql = true → f < trimmedEnd source f stop →
      Standalone source dialect f (trimmedEnd source f stop) →
        Rescans dialect ⟨slice source f (trimmedEnd source f stop), f, trimmedEnd source f stop,
          transactionBoundaryFor dialect s.leadingWords⟩) :
    ∀ u ∈ s.units ++ unitAt source dialect stop s, Standalone source dialect u.start u.stop → Rescans dialect u := by
  intro u hu hs
  rcases mem_append.1 hu with hu | hu
  · exact h.units u hu hs
  · unfold unitAt at hu
    cases hf : s.firstSource with
    | none =>
      rw [hf] at hu
      cases hu
    | some f =>
      rw [hf] at hu
      dsimp only at hu
      split at hu
      · rename_i hsql
        split at hu
        · rename_i hlt
          rw [mem_singleton] at hu
          subst hu
          exact hunit f hf hsql hlt hs
        · cases hu
      · cases hu

theorem Sliced.emitted {stop next line : Nat} {trailing : Bool} (hu : ∀ u ∈ s.units ++ unitAt source dialect stop s,
      Standalone source dialect u.start u.stop → Rescans dialect u)
    (hp : Piece source dialect s.index next) :
    Sliced source dialect { emit source dialect stop s with
      index := next, lineStart := line, trailingAfterTerminator := trailing } where
  units := hu
  trigger h := nomatch h
  fresh _ := ⟨⟨rfl, rfl, rfl, rfl, rfl, rfl, rfl, rfl⟩, hp.clear⟩
  begun _ hf := nomatch hf

/-- **A step keeps the invariant.** -/
theorem Sliced.move (h : Sliced source dialect s) (hr : Reaches source dialect s) (hm : Moves source dialect s s') :
    Sliced source dialect s' := by
  obtain ⟨hlt, hstep⟩ := hm
  have hc : source[s.index]? = some source[s.index] := getElem?_eq_getElem hlt
  unfold step at hstep
  rw [hc] at hstep
  dsimp only at hstep
  split at hstep
  · cases hstep
  · rename_i t hl
    have hline : OnLine source s.lineStart s.index :=
      ⟨hr.scanned.line.1, hr.scanned.line.2.resolve_right (Nat.ne_of_lt hlt)⟩
    have hfits := lexAt_fits hc hline hl
    by_cases hgo : t.item = .go
    · have hd := lexAt_go hl hgo
      have hitem := hfits.item
      obtain ⟨item, next, lineStart⟩ := t
      subst hgo
      obtain ⟨hindent, hpiece⟩ := hitem
      dsimp only [take] at hstep
      split at hstep
      · cases hstep
      · cases hstep
      · rename_i hpar hbl
        cases hstep
        have htrigger : s.sqliteTrigger = false := by
          by_contra ht
          have := h.trigger (by simpa using ht)
          rw [hd] at this
          cases this
        refine Sliced.emitted (h.join fun f hf hsql _ hs => ?_) hpiece
        obtain ⟨hfi, -, hsolid, -, hend⟩ := h.begun f hf
        have hfl : f < s.lineStart := by
          by_contra hle
          exact (hindent f (Nat.le_of_not_lt hle) hfi).not_solid hsolid
        have htrim := trimmedEnd_blank hfl hline.le hindent
        rw [← htrim] at hs ⊢
        exact hend.rescans hf hsql hfi (Nat.le_of_lt hlt) hsolid hpar hbl (by rw [htrigger]; rfl) hs
    · by_cases hter : t.item = .semicolon ∧ terminates dialect s = true
      · obtain ⟨hi, hter⟩ := hter
        have hitem := hfits.item
        obtain ⟨item, next, lineStart⟩ := t
        subst hi
        obtain ⟨h59, hnext⟩ := hitem
        subst hnext
        dsimp only [take] at hstep
        split at hstep
        · cases hstep
        · rename_i hpar
          rw [if_pos hter] at hstep
          cases hstep
          refine Sliced.emitted (h.join fun f hf hsql _ hs => ?_) (.terminator _ h59)
          obtain ⟨hfi, hcut, hsolid, hw, -⟩ := h.begun f hf
          have htrim : trimmedEnd source f (s.index + 1) = s.index + 1 :=
            trimmedEnd_solid (Nat.succ_pos _) ⟨59, h59, rfl⟩
          rw [htrim] at hs ⊢
          exact hw.rescans hr hc hl rfl hf hsql (Nat.le_of_lt hfi) hcut hsolid hpar hter hs
      · exact h.pass ⟨hr, hc, hl, hstep, hgo, fun hi => by
          by_contra hne
          exact hter ⟨hi, by simpa using hne⟩⟩

end Scanning

/-- **A unit's text, scanned alone, is that unit**, where it means alone what it means in the source. -/
theorem splitDatabaseSql_rescans {source : Text} {dialect : Dialect} {units : List SqlUnit}
    (h : splitDatabaseSql source dialect = .ok units) :
    ∀ u ∈ units, Standalone source dialect u.start u.stop → Rescans dialect u := by
  unfold splitDatabaseSql at h
  split at h
  · cases h
  · rename_i s hs
    obtain ⟨hr, hsl⟩ := reaches_of_scan (fun s s' hr h hm => Sliced.move h hr hm) .refl sliced_start hs
    obtain ⟨-, hend⟩ := scanned_start.scan (by simp [State.start]) hs
    unfold finish at h
    split at h
    · cases h
    · cases h
    · rename_i hpar hbl
      split at h
      · cases h
      · rename_i htr
        cases h
        rw [emit_units, ← hend]
        refine hsl.join fun f hf hsql _ hs => ?_
        obtain ⟨hfi, -, hsolid, -, hended⟩ := hsl.begun f hf
        exact hended.rescans hf hsql hfi (Nat.le_of_eq hend) hsolid hpar hbl (by simpa using htr) hs

end Sql
end Yuzora
