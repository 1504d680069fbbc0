import Yuzora.SqlTokens
/-!
# SqlUnits — a source that is split loses nothing

The scan keeps where it stands (`Scanned`): what it has passed is tiled by its units, and the open unit begins after a
gap.
-/
namespace Yuzora
namespace Sql

/-- The open unit: while it has no SQL, all since the last unit is a gap; its beginning is one it can be cut at. -/
structure Pending (source : Text) (dialect : Dialect) (firstSource : Option Nat) (hasSql : Bool) (index e : Nat) :
    Prop where
  quiet : hasSql = false → Gap source dialect e index
  first : ∀ f, firstSource = some f → Gap source dialect e f ∧ f < index ∧ SolidAt source f
  marked : hasSql = true → firstSource.isSome = true

structure Scanned (source : Text) (dialect : Dialect) (s : State) : Prop where
  le : s.index ≤ source.length
  line : LineAt source s.lineStart s.index
  tiled : ∃ e, Tiled source dialect s.units e ∧ Pending source dialect s.firstSource s.hasSql s.index e
  engaged : s.mssqlRoutine = true ∨ s.sqliteTrigger = true ∨ s.blocks ≠ [] → s.hasSql = true

section Units

variable {source : Text} {dialect : Dialect} {s s' : State} {e stop : Nat} {word : Text} {position : Nat}
  {first : Option Nat} {index next : Nat}

theorem WhitespaceAt.not_solid {i : Nat} (h : WhitespaceAt source i) : ¬ SolidAt source i := by
  obtain ⟨c, hc, hw⟩ := h
  rintro ⟨c', hc', hw'⟩
  rw [hc] at hc'
  cases hc'
  rw [hw] at hw'
  cases hw'

theorem trimmedEnd_spec {first : Nat} (hs : SolidAt source first) : ∀ {stop : Nat}, first < stop →
    stop ≤ source.length → first < trimmedEnd source first stop ∧ trimmedEnd source first stop ≤ stop ∧
      SolidAt source (trimmedEnd source first stop - 1) ∧
        ∀ i, trimmedEnd source first stop ≤ i → i < stop → WhitespaceAt source i
  | 0, h, _ => absurd h (Nat.not_lt_zero _)
  | stop + 1, hlt, hle => by
    have hst : stop < source.length := hle
    have hget : source[stop]? = some source[stop] := List.getElem?_eq_getElem hst
    rw [trimmedEnd]
    by_cases hw : isWhitespace source[stop] = true
    · rw [if_pos (by simp [hlt, hget, hw])]
      have hne : first ≠ stop := by
        rintro rfl
        exact WhitespaceAt.not_solid ⟨_, hget, hw⟩ hs
      have hlt' : first < stop := by omega
      obtain ⟨h1, h2, h3, h4⟩ := trimmedEnd_spec hs hlt' (by omega)
      refine ⟨h1, by omega, h3, fun i hi hi' => ?_⟩
      by_cases his : i = stop
      · exact his ▸ ⟨_, hget, hw⟩
      · exact h4 i hi (by omega)
    · rw [if_neg (by simp [hget, hw])]
      exact ⟨hlt, Nat.le_refl _, ⟨_, hget, by simpa using hw⟩, fun i hi hi' => by omega⟩

theorem unitAt_tiled {f : Nat} (ht : Tiled source dialect s.units e) (hsql : s.hasSql = true)
    (hf : s.firstSource = some f) (hg : Gap source dialect e f) (hs : SolidAt source f) (hlt : f < stop)
    (hle : stop ≤ source.length) :
    ∃ e', Tiled source dialect (s.units ++ unitAt source dialect stop s) e' ∧ e' ≤ stop ∧
      ∀ i, e' ≤ i → i < stop → WhitespaceAt source i := by
  obtain ⟨h1, h2, h3, h4⟩ := trimmedEnd_spec hs hlt hle
  have hu : unitAt source dialect stop s =
      [⟨slice source f (trimmedEnd source f stop), f, trimmedEnd source f stop,
        transactionBoundaryFor dialect s.leadingWords⟩] := by
    simp [unitAt, hf, hsql, h1]
  rw [hu]
  exact ⟨_, ht.snoc _ hg ⟨rfl, h1, Nat.le_trans h2 hle, hs, h3⟩, h2, h4⟩

theorem unitAt_quiet (hsql : s.hasSql = false) : unitAt source dialect stop s = [] := by
  unfold unitAt
  split
  · simp [hsql]
  · rfl

@[simp] theorem emit_units : (emit source dialect stop s).units = s.units ++ unitAt source dialect stop s := rfl

theorem pending_reset {index : Nat} (h : Gap source dialect e index) : Pending source dialect none false index e :=
  ⟨fun _ => h, fun _ h => (Option.some_ne_none _ h.symm).elim, fun h => (Bool.false_ne_true h).elim⟩

theorem Pending.quietly {sql : Bool}
    (h : Pending source dialect first sql index e) (hp : Quiet source dialect index next) :
    Pending source dialect first sql next e where
  quiet hs := (h.quiet hs).snoc (.quiet hp)
  first f hf := by
    obtain ⟨h1, h2, h3⟩ := h.first f hf
    have := (Piece.quiet hp).lt
    exact ⟨h1, by omega, h3⟩
  marked := h.marked

theorem Pending.mark {sql : Bool} (h : Pending source dialect first sql index e)
    (hs : SolidAt source index) (hlt : index < next) (b : Bool) (hq : b = false → Quiet source dialect index next) :
    Pending source dialect (first.or (some index)) (sql || b) next e where
  quiet hsb := by
    simp only [Bool.or_eq_false_iff] at hsb
    exact (h.quiet hsb.1).snoc (.quiet (hq hsb.2))
  first f hf := by
    cases hfirst : first with
    | none =>
      rw [hfirst] at hf
      cases hf
      have hsql : sql = false := by
        by_contra hc
        have := h.marked (by simpa using hc)
        rw [hfirst] at this
        cases this
      exact ⟨h.quiet hsql, hlt, hs⟩
    | some g =>
      rw [hfirst] at hf
      cases hf
      obtain ⟨h1, h2, h3⟩ := h.first f hfirst
      exact ⟨h1, by omega, h3⟩
  marked _ := by cases first <;> rfl

/-- What a word changes of the open unit is nothing that places it. -/
structure SamePlace (s s' : State) : Prop where
  units : s'.units = s.units
  firstSource : s'.firstSource = s.firstSource
  hasSql : s'.hasSql = s.hasSql

theorem recordLeading_same : SamePlace s (recordLeading dialect word s) := by
  unfold recordLeading
  split
  · exact ⟨rfl, rfl, rfl⟩
  · exact ⟨rfl, rfl, rfl⟩

theorem recordMssql_same (h : recordMssql source word position s = .ok s') : SamePlace s s' := by
  unfold recordMssql at h
  split at h
  · split at h <;> cases h <;> exact ⟨rfl, rfl, rfl⟩
  · split at h
    · cases h
      exact ⟨rfl, rfl, rfl⟩
    · split at h
      · split at h
        · cases h
        · cases h
          exact ⟨rfl, rfl, rfl⟩
      · cases h
        exact ⟨rfl, rfl, rfl⟩

theorem recordTrigger_same (h : recordTrigger word position s = .ok s') : SamePlace s s' := by
  unfold recordTrigger at h
  split at h
  · cases h
    exact ⟨rfl, rfl, rfl⟩
  · split at h
    · cases h
      exact ⟨rfl, rfl, rfl⟩
    · split at h
      · split at h
        · cases h
        · cases h
          exact ⟨rfl, rfl, rfl⟩
      · cases h
        exact ⟨rfl, rfl, rfl⟩

theorem SamePlace.trans {s'' : State} (h : SamePlace s s') (h' : SamePlace s' s'') : SamePlace s s'' :=
  ⟨h'.units.trans h.units, h'.firstSource.trans h.firstSource, h'.hasSql.trans h.hasSql⟩

theorem recordWord_same (h : recordWord source dialect word position s = .ok s') : SamePlace s s' := by
  unfold recordWord at h
  dsimp only at h
  split at h
  · exact recordLeading_same.trans (recordMssql_same h)
  · split at h
    · exact recordLeading_same.trans (recordTrigger_same h)
    · cases h
      exact recordLeading_same

section
variable (h : Scanned source dialect s) {t : Lexed}
include h

theorem Scanned.marked (hf : t.Fits source dialect s.index s.lineStart)
    (hs : SolidAt source s.index) (hp : SamePlace (mark s.index true s) s') :
    Scanned source dialect { s' with index := t.next, lineStart := t.lineStart } where
  le := hf.le
  line := hf.line
  tiled := by
    obtain ⟨e, ht, he⟩ := h.tiled
    rw [hp.units, hp.firstSource, hp.hasSql]
    exact ⟨e, ht, he.mark hs hf.lt true (fun h => (Bool.false_ne_true h.symm).elim)⟩
  engaged _ := by
    rw [hp.hasSql]
    exact Bool.or_true s.hasSql

theorem Scanned.emitted {stop : Nat} {trailing : Bool} (hf : t.Fits source dialect s.index s.lineStart)
    (hstop : ∀ f, f < s.index → SolidAt source f → f < stop) (hle : stop ≤ source.length)
    (hsql : ∀ e, e ≤ stop → (∀ i, e ≤ i → i < stop → WhitespaceAt source i) → Gap source dialect e t.next)
    (hquiet : ∀ e, Gap source dialect e s.index → Gap source dialect e t.next) :
    Scanned source dialect { emit source dialect stop s with
      index := t.next, lineStart := t.lineStart, trailingAfterTerminator := trailing } where
  le := hf.le
  line := hf.line
  tiled := by
    obtain ⟨e, ht, he⟩ := h.tiled
    by_cases hs : s.hasSql = true
    · obtain ⟨f, hfirst⟩ := Option.isSome_iff_exists.1 (he.marked hs)
      obtain ⟨h1, h2, h3⟩ := he.first f hfirst
      obtain ⟨e', ht', hle', hw⟩ := unitAt_tiled ht hs hfirst h1 h3 (hstop f h2 h3) hle
      exact ⟨e', ht', pending_reset (hsql e' hle' hw)⟩
    · have hs' : s.hasSql = false := by simpa using hs
      refine ⟨e, ?_, pending_reset (hquiet e (he.quiet hs'))⟩
      rw [emit_units, unitAt_quiet hs', List.append_nil]
      exact ht
  engaged h := by
    rcases h with h | h | h
    · cases h
    · cases h
    · exact absurd rfl h

/-- **A token keeps the invariant.** -/
theorem Scanned.take (hf : t.Fits source dialect s.index s.lineStart)
    (ht : take source dialect s t = .ok s') : Scanned source dialect s' := by
  obtain ⟨item, next, lineStart⟩ := t
  have hplace : SamePlace (mark s.index true s) (mark s.index true s) := ⟨rfl, rfl, rfl⟩
  have hitem := hf.item
  have hlt := hf.lt
  have hle := hf.le
  cases item with
  | space endsLine =>
    cases ht
    obtain ⟨hw, rfl⟩ := hitem
    obtain ⟨e, ht, he⟩ := h.tiled
    exact ⟨hf.le, hf.line, ⟨e, ht, he.quietly (.space _ hw)⟩, h.engaged⟩
  | comment =>
    cases ht
    obtain ⟨hs, hq⟩ := hitem
    obtain ⟨e, ht, he⟩ := h.tiled
    split
    · exact ⟨hf.le, hf.line, ⟨e, ht, he.quietly hq⟩, h.engaged⟩
    · refine ⟨hf.le, hf.line, ⟨e, ht, he.mark hs hlt false fun _ => hq⟩, fun hen => ?_⟩
      exact (Bool.or_false s.hasSql).trans (h.engaged hen)
  | quoted | other =>
    cases ht
    exact h.marked hf hitem hplace
  | word word =>
    dsimp only [Sql.take] at ht
    cases hr : recordWord source dialect word s.index (Sql.mark s.index true s) with
    | error => simp [hr, Except.map] at ht
    | ok s1 =>
      simp only [hr, Except.map, Except.ok.injEq] at ht
      subst ht
      exact h.marked hf hitem (recordWord_same hr)
  | go =>
    dsimp only [Sql.take] at ht
    split at ht
    · cases ht
    · cases ht
    · cases ht
      obtain ⟨hindent, hp⟩ := hitem
      have hone := h.line.1
      refine h.emitted hf (fun f hfi hsf => ?_) (Nat.le_trans hone h.le) (fun e he hw => ?_) fun e hg => hg.snoc hp
      · by_contra hc
        exact (hindent f (by omega) hfi).not_solid hsf
      · refine (gap_of_whitespace (Nat.le_trans he hone) fun i hi hi' => ?_).snoc hp
        by_cases hil : i < s.lineStart
        · exact hw i hi hil
        · exact hindent i (by omega) hi'
  | opening =>
    cases ht
    have hp : SamePlace (mark s.index true s) { mark s.index true s with parentheses := s.index :: s.parentheses } :=
      ⟨rfl, rfl, rfl⟩
    exact h.marked hf hitem hp
  | closing =>
    dsimp only [Sql.take] at ht
    split at ht
    · cases ht
    · rename_i parentheses _
      cases ht
      have hp : SamePlace (mark s.index true s) { mark s.index true s with parentheses := parentheses } := ⟨rfl, rfl, rfl⟩
      exact h.marked hf hitem hp
  | semicolon =>
    dsimp only [Sql.take] at ht
    obtain ⟨hc, rfl⟩ := hitem
    split at ht
    · cases ht
    · split at ht
      · cases ht
        exact h.emitted hf (fun f hfi _ => by omega) hle (fun e he hw => gap_of_whitespace he hw)
          fun e hg => hg.snoc (.terminator _ hc)
      · rename_i hter
        cases ht
        -- it ends no statement: it is inside a trigger, a routine or a block, and these have SQL
        have hsql : s.hasSql = true := by
          by_contra hns
          have hno (hen : s.mssqlRoutine = true ∨ s.sqliteTrigger = true ∨ s.blocks ≠ []) : False := hns (h.engaged hen)
          by_cases htr : s.sqliteTrigger = true
          · exact hno (.inr (.inl htr))
          · by_cases hro : s.mssqlRoutine = true
            · exact hno (.inl hro)
            · by_cases hbl : s.blocks = []
              · exact hter (by simp [terminates, htr, hro, hbl])
              · exact hno (.inr (.inr hbl))
        obtain ⟨e, ht, he⟩ := h.tiled
        refine ⟨hf.le, hf.line, ⟨e, ht, fun hs => ?_, fun f hfirst => ?_, he.marked⟩, h.engaged⟩
        · exact absurd hsql (by simpa using hs)
        · obtain ⟨h1, h2, h3⟩ := he.first f hfirst
          exact ⟨h1, Nat.lt_succ_of_lt h2, h3⟩

end

theorem take_index {t : Lexed} (h : take source dialect s t = .ok s') : s'.index = t.next := by
  unfold Sql.take at h
  split at h
  · cases h; rfl
  · cases h; rfl
  · cases h; rfl
  · cases h; rfl
  · rename_i word _
    cases hr : recordWord source dialect word s.index (Sql.mark s.index true s) with
    | error => simp [hr, Except.map] at h
    | ok s1 =>
      simp only [hr, Except.map, Except.ok.injEq] at h
      exact h ▸ rfl
  · split at h <;> cases h
    rfl
  · cases h; rfl
  · split at h <;> cases h
    rfl
  · split at h
    · cases h
    · split at h <;> cases h <;> rfl

theorem Scanned.step (h : Scanned source dialect s) (hlt : s.index < source.length)
    (hs : step source dialect s = .ok s') : Scanned source dialect s' ∧ s.index < s'.index := by
  have hc : source[s.index]? = some source[s.index] := List.getElem?_eq_getElem hlt
  have hline : OnLine source s.lineStart s.index := ⟨h.line.1, h.line.2.resolve_right (by omega)⟩
  unfold Sql.step at hs
  rw [hc] at hs
  dsimp only at hs
  split at hs
  · cases hs
  · rename_i t hl
    have hf := lexAt_fits hc hline hl
    refine ⟨h.take hf hs, ?_⟩
    exact take_index hs ▸ hf.lt

/-- **The loop reaches the end of the source**, and the invariant holds there. -/
theorem Scanned.scan : ∀ {fuel : Nat} {s s' : State}, Scanned source dialect s → source.length ≤ s.index + fuel →
    scan source dialect fuel s = .ok s' → Scanned source dialect s' ∧ s'.index = source.length
  | 0, s, s', h, hle, hs => by
    cases hs
    exact ⟨h, Nat.le_antisymm h.le hle⟩
  | fuel + 1, s, s', h, hle, hs => by
    rw [Sql.scan] at hs
    split at hs
    · rename_i hlt
      split at hs
      · cases hs
      · rename_i s1 hstep
        obtain ⟨h1, hadv⟩ := h.step hlt hstep
        exact h1.scan (by omega) hs
    · rename_i hlt
      cases hs
      have := h.le
      exact ⟨h, by omega⟩

theorem scanned_start : Scanned source dialect .start where
  le := Nat.zero_le _
  line := ⟨Nat.le_refl _, .inl (.inl rfl)⟩
  tiled := ⟨0, .nil, pending_reset .nil⟩
  engaged h := by
    rcases h with h | h | h
    · cases h
    · cases h
    · exact absurd rfl h

theorem Scanned.finish {units : List SqlUnit} (h : Scanned source dialect s) (hend : s.index = source.length)
    (hf : finish source dialect s = .ok units) : Splits source dialect units := by
  unfold Sql.finish at hf
  split at hf
  · cases hf
  · cases hf
  · split at hf
    · cases hf
    · cases hf
      obtain ⟨e, ht, he⟩ := h.tiled
      rw [emit_units]
      by_cases hs : s.hasSql = true
      · obtain ⟨f, hfirst⟩ := Option.isSome_iff_exists.1 (he.marked hs)
        obtain ⟨h1, h2, h3⟩ := he.first f hfirst
        obtain ⟨e', ht', hle, hw⟩ := unitAt_tiled ht hs hfirst h1 h3 (hend ▸ h2) (Nat.le_refl _)
        exact ht'.splits (gap_of_whitespace hle hw)
      · have hs' : s.hasSql = false := by simpa using hs
        rw [unitAt_quiet hs', List.append_nil]
        exact ht.splits (hend ▸ he.quiet hs')

end Units

/-- **A source that splits loses no SQL**: its units are slices of it, in order and disjoint, and begin and end with
something; all else is whitespace, comments, empty terminators and `GO` lines. -/
theorem splitDatabaseSql_splits (source : Text) (dialect : Dialect) (units : List SqlUnit)
    (h : splitDatabaseSql source dialect = .ok units) : Splits source dialect units := by
  unfold splitDatabaseSql at h
  split at h
  · cases h
  · rename_i s hs
    obtain ⟨hs, hend⟩ := scanned_start.scan (by simp [State.start]) hs
    exact hs.finish hend h

/-- Two statements, the second after an empty one. -/
theorem splitDatabaseSql_splits_two : Splits (codes "a; ;b") .sqlite
    [⟨codes "a;", 0, 2, .none⟩, ⟨codes "b", 4, 5, .none⟩] :=
  splitDatabaseSql_splits _ _ _ (by rfl)

end Sql
end Yuzora
