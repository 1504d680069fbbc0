import Yuzora.PostgresLexer
/-!
# SqlSlices — a part of the source, scanned alone

A token of the source that ends within a part of it is a token of the part, at the shifted place (`lexAt_slice`): what the
scan looks at before the part's beginning is of no account where the part begins after a gap.
-/
namespace Yuzora
namespace Sql

open List

section Slices

variable {source : Text} {f e i : Nat}

theorem slice_get (hf : f ≤ i) : (slice source f e)[i - f]? = if i < e then source[i]? else none := by
  rw [getElem?_slice, Nat.add_sub_cancel' hf]

theorem slice_get_lt (hf : f ≤ i) (he : i < e) : (slice source f e)[i - f]? = source[i]? := by
  rw [slice_get hf, if_pos he]

theorem slice_drop (hf : f ≤ i) : (slice source f e).drop (i - f) = (source.drop i).take (e - i) := by
  rw [slice, drop_drop, Nat.add_sub_cancel' hf, drop_take]

theorem slice_length (he : e ≤ source.length) : (slice source f e).length = e - f := by
  rw [slice, length_drop, length_take, Nat.min_eq_left he]

theorem slice_slice {a b : Nat} (ha : f ≤ a) (hb : b ≤ e) :
    slice (slice source f e) (a - f) (b - f) = slice source a b := by
  unfold slice
  rw [take_drop, take_take, drop_drop]
  by_cases hfb : f ≤ b
  · rw [Nat.add_sub_cancel' hfb, Nat.min_eq_left hb, Nat.add_sub_cancel' ha]
  · rw [drop_eq_nil_of_le (by rw [length_take]; omega),
    drop_eq_nil_of_le (by rw [length_take]; omega)]

variable {k : Nat}

theorem behind_slice (hk : 0 < k) (hi : f + k ≤ i) (he : i ≤ e) :
    behind (slice source f e) (i - f) k = behind source i k := by
  have hsub : i - f - k = i - k - f := by omega
  rw [behind, behind, if_pos (by omega), if_pos (by omega), hsub, slice_get_lt (by omega) (by omega)]

theorem behind_slice_none (hf : f ≤ i) (hi : i < f + k) : behind (slice source f e) (i - f) k = none := by
  rw [behind, if_neg (by omega)]

variable {needle : Text}

theorem startsWith_of_slice (hf : f ≤ i) (h : startsWith needle (slice source f e) (i - f) = true) :
    startsWith needle source i = true := by
  rw [startsWith, slice_drop hf, isPrefixOf_iff_prefix] at h
  exact isPrefixOf_iff_prefix.2 (h.trans (List.take_prefix _ _))

theorem startsWith_slice (hf : f ≤ i) (he : i + needle.length ≤ e)
    (h : startsWith needle source i = true) : startsWith needle (slice source f e) (i - f) = true := by
  rw [startsWith, isPrefixOf_iff_prefix] at h
  rw [startsWith, slice_drop hf, isPrefixOf_iff_prefix]
  exact prefix_take_iff.2 ⟨h, by omega⟩

theorem takeWhile_take (p : Code → Bool) : ∀ (l : Text) (k : Nat), (l.take k).takeWhile p = (l.takeWhile p).take k
  | [], _ => by simp
  | _ :: _, 0 => by simp
  | c :: rest, k + 1 => by
    rw [take_succ_cons]
    by_cases hp : p c = true
    · rw [takeWhile_cons_of_pos hp, takeWhile_cons_of_pos hp, take_succ_cons, takeWhile_take p rest k]
    · rw [takeWhile_cons_of_neg hp, takeWhile_cons_of_neg hp, take_nil]

theorem runEnd_slice (part : Code → Bool) (hf : f ≤ i) (he : i ≤ e) :
    runEnd part ((slice source f e).drop (i - f)) (i - f) = min (runEnd part (source.drop i) i) e - f := by
  rw [slice_drop hf, Postgres.runEnd_takeWhile, Postgres.runEnd_takeWhile, takeWhile_take, length_take]
  omega

theorem indexOf_eq_some {j : Nat} (hn : needle ≠ []) : indexOf needle source i = some j ↔
    i ≤ j ∧ startsWith needle source j = true ∧ ∀ k, i ≤ k → k < j → startsWith needle source k = false := by
  refine ⟨fun h => findFrom_some rfl h, fun ⟨h1, h2, h3⟩ => ?_⟩
  have hlen := startsWith_length h2 hn
  have hpos := length_pos_iff.2 hn
  cases hf : indexOf needle source i with
  | none =>
    rw [findFrom_none rfl hf j h1 (by omega)] at h2
    cases h2
  | some j' =>
    obtain ⟨g1, g2, g3⟩ := findFrom_some rfl hf
    rcases Nat.lt_trichotomy j j' with hlt | rfl | hlt
    · rw [g3 j h1 hlt] at h2
      cases h2
    · rfl
    · rw [h3 j' g1 hlt] at g2
      cases g2

theorem indexOf_slice {j : Nat} (hn : needle ≠ []) (hf : f ≤ i) (hj : j + needle.length ≤ e)
    (h : indexOf needle source i = some j) : indexOf needle (slice source f e) (i - f) = some (j - f) := by
  obtain ⟨h1, h2, h3⟩ := (indexOf_eq_some hn).1 h
  refine (indexOf_eq_some hn).2 ⟨by omega, startsWith_slice (by omega) hj h2, fun k hk hkj => ?_⟩
  by_contra hs
  have hs' : startsWith needle (slice source f e) (k + f - f) = true := by
    simpa using hs
  have hsrc := startsWith_of_slice (Nat.le_add_left f k) hs'
  rw [h3 (k + f) (by omega) (by omega)] at hsrc
  cases hsrc

theorem lineEnd_slice (hf : f ≤ i) (hi : i + 2 ≤ e) (he : e ≤ source.length) :
    lineEnd (slice source f e) (i - f) = min (lineEnd source i) e - f := by
  have hlen := slice_length (f := f) he
  obtain ⟨h1, h2, h3, h4⟩ := newline_spec (Nat.le_trans hi he) rfl
  have hi' : i - f + 2 ≤ (slice source f e).length := by omega
  obtain ⟨g1, g2, g3, g4⟩ := newline_spec hi' rfl
  change i + 2 ≤ lineEnd source i at h1
  change ∀ j, i + 2 ≤ j → j < lineEnd source i → source[j]? ≠ some newline at h3
  change lineEnd source i = source.length ∨ source[lineEnd source i]? = some newline at h4
  change i - f + 2 ≤ lineEnd (slice source f e) (i - f) at g1
  change lineEnd (slice source f e) (i - f) ≤ _ at g2
  change ∀ j, i - f + 2 ≤ j → j < lineEnd (slice source f e) (i - f) →
    (slice source f e)[j]? ≠ some newline at g3
  change lineEnd (slice source f e) (i - f) = _ ∨ (slice source f e)[lineEnd (slice source f e) (i - f)]? = some newline
    at g4
  generalize lineEnd (slice source f e) (i - f) = b' at g1 g2 g3 g4 ⊢
  generalize lineEnd source i = b at h1 h3 h4 ⊢
  -- a newline of the slice is one of the source
  have hnl (hlt : b' < e - f) (hs : (slice source f e)[b']? = some newline) : b ≤ b' + f := by
    by_contra hb
    refine h3 (b' + f) (by omega) (by omega) ?_
    rw [← slice_get_lt (f := f) (e := e) (Nat.le_add_left f b') (by omega), Nat.add_sub_cancel, hs]
  by_cases hbe : b < e
  · have hnew : source[b]? = some newline := h4.resolve_left (by omega)
    have hle : b' ≤ b - f := by
      by_contra hgt
      refine g3 (b - f) (by omega) (by omega) ?_
      rw [slice_get_lt (by omega) hbe, hnew]
    have hge := hnl (by omega) (g4.resolve_left (by omega))
    omega
  · have hge : e - f ≤ b' := by
      by_contra hlt
      have := hnl (by omega) (g4.resolve_left (by omega))
      omega
    omega

theorem lineStartIn_slice {b lineStart : Nat} (hf : f ≤ i) (hib : i ≤ b) (hb : b ≤ e) :
    lineStartIn (slice source f e) (i - f) (b - f) (lineStart - f) = lineStartIn source i b lineStart - f := by
  unfold lineStartIn
  have hn : b - f - (i - f) = b - i := by omega
  have hr : List.range' i (b - i) = (List.range' (i - f) (b - i)).map (f + ·) := by
    rw [map_add_range', Nat.add_sub_cancel' hf]
  rw [hn, hr, filter_map, getLast?_map]
  have hfilter : (List.range' (i - f) (b - i)).filter (fun j => (slice source f e)[j]? = some newline) =
      (List.range' (i - f) (b - i)).filter ((fun j => decide (source[j]? = some newline)) ∘ (f + ·)) := by
    refine filter_congr fun j hj => ?_
    rw [mem_range'_1] at hj
    have hjf : (slice source f e)[j]? = source[f + j]? := by
      rw [getElem?_slice, if_pos (by omega)]
    simp [hjf]
  rw [hfilter]
  cases ((List.range' (i - f) (b - i)).filter ((fun j => decide (source[j]? = some newline)) ∘ (f + ·))).getLast? with
  | none => rfl
  | some j =>
    simp only [Option.map_some, Option.elim_some]
    omega

variable {l : Text} {index next line : Nat} {nested : Bool} {depth lineStart : Nat}

theorem closeComment_lt (h : closeComment nested l depth index lineStart = some (next, line)) : index + 2 ≤ next := by
  fun_induction closeComment nested l depth index lineStart with
  | case1 => cases h
  | case2 => cases h
  | case3 _ _ _ _ _ _ _ ih | case5 _ _ _ _ _ _ _ _ _ ih | case6 _ _ _ _ _ _ _ _ ih =>
    have := ih h
    omega
  | case4 =>
    cases h
    exact Nat.le_refl _

theorem closeComment_take (hf : f ≤ index)
    (h : closeComment nested l depth index lineStart = some (next, line)) (hk : next ≤ index + k) :
    closeComment nested (l.take k) depth (index - f) (lineStart - f) = some (next - f, line - f) := by
  have hlt := closeComment_lt h
  fun_induction closeComment nested l depth index lineStart generalizing k with
  | case1 => cases h
  | case2 => cases h
  | case3 c c' rest depth index lineStart hc ih =>
    obtain ⟨k, rfl⟩ : ∃ k', k = k' + 2 := ⟨k - 2, by omega⟩
    have hsub : index - f + 2 = index + 2 - f := by omega
    rw [take_succ_cons, take_succ_cons, closeComment, if_pos hc, hsub]
    exact ih (by omega) h (by omega) (closeComment_lt h)
  | case4 c c' rest index lineStart hc hcl =>
    obtain ⟨k, rfl⟩ : ∃ k', k = k' + 2 := ⟨k - 2, by omega⟩
    cases h
    have hsub : index - f + 2 = index + 2 - f := by omega
    rw [take_succ_cons, take_succ_cons, closeComment, if_neg hc, if_pos hcl, if_pos rfl, hsub]
  | case5 c c' rest depth index lineStart hc hcl hd ih =>
    obtain ⟨k, rfl⟩ : ∃ k', k = k' + 2 := ⟨k - 2, by omega⟩
    have hsub : index - f + 2 = index + 2 - f := by omega
    rw [take_succ_cons, take_succ_cons, closeComment, if_neg hc, if_pos hcl, if_neg hd, hsub]
    exact ih (by omega) h (by omega) (closeComment_lt h)
  | case6 c c' rest depth index lineStart hc hcl ih =>
    obtain ⟨k, rfl⟩ : ∃ k', k = k' + 2 := ⟨k - 2, by omega⟩
    have hsub : index - f + 1 = index + 1 - f := by omega
    have hline : (if c = newline then index - f + 1 else lineStart - f) =
        (if c = newline then index + 1 else lineStart) - f := by
      split <;> omega
    rw [take_succ_cons, take_succ_cons, closeComment, if_neg hc, if_neg hcl, hline, hsub]
    exact ih (k := k + 1) (by omega) h (by omega) (closeComment_lt h)

variable {close : Code} {doubled : Bool} {escapes : Backslash}

theorem closeQuote_lt (h : closeQuote close doubled escapes l index lineStart = .closed next line) : index < next := by
  fun_induction closeQuote close doubled escapes l index lineStart with
  | case1 | case2 | case3 => cases h
  | case4 | case9 =>
    cases h
    exact Nat.lt_succ_self _
  | case5 => cases h
  | case6 => cases h
  | case7 _ _ _ _ _ _ _ ih | case8 _ _ _ _ _ _ _ ih | case10 _ _ _ _ _ _ _ _ ih =>
    have := ih h
    omega

theorem closeQuote_take (hf : f ≤ index)
    (h : closeQuote close doubled escapes l index lineStart = .closed next line) (hk : next ≤ index + k) :
    closeQuote close doubled escapes (l.take k) (index - f) (lineStart - f) = .closed (next - f) (line - f) := by
  have hlt := closeQuote_lt h
  fun_induction closeQuote close doubled escapes l index lineStart generalizing k with
  | case1 | case2 | case3 => cases h
  | case4 index lineStart hr he =>
    cases h
    obtain ⟨k, rfl⟩ : ∃ k', k = k' + 1 := ⟨k - 1, by omega⟩
    have hsub : index - f + 1 = index + 1 - f := by omega
    rw [take_succ_cons, take_nil, closeQuote, if_neg hr, if_neg he, if_pos rfl, hsub]
  | case5 => cases h
  | case6 => cases h
  | case7 c c' rest index lineStart hr he ih =>
    have hn := closeQuote_lt h
    obtain ⟨k, rfl⟩ : ∃ k', k = k' + 2 := ⟨k - 2, by omega⟩
    have hsub : index - f + 2 = index + 2 - f := by omega
    rw [take_succ_cons, take_succ_cons, closeQuote, if_neg hr, if_pos he, hsub]
    exact ih (by omega) h (by omega) hn
  | case8 c' rest index lineStart hd hr he ih =>
    have hn := closeQuote_lt h
    obtain ⟨k, rfl⟩ : ∃ k', k = k' + 2 := ⟨k - 2, by omega⟩
    have hsub : index - f + 2 = index + 2 - f := by omega
    rw [take_succ_cons, take_succ_cons, closeQuote, if_neg hr, if_neg he, if_pos rfl, if_pos hd, hsub]
    exact ih (by omega) h (by omega) hn
  | case9 c' rest index lineStart hd hr he =>
    cases h
    have hsub : index - f + 1 = index + 1 - f := by omega
    obtain ⟨k, rfl⟩ : ∃ k', k = k' + 1 := ⟨k - 1, by omega⟩
    rw [take_succ_cons]
    -- the character after the closing quote may lie behind the slice
    cases k with
    | zero => rw [take_zero, closeQuote, if_neg hr, if_neg he, if_pos rfl, hsub]
    | succ k => rw [take_succ_cons, closeQuote, if_neg hr, if_neg he, if_pos rfl, if_neg hd, hsub]
  | case10 c c' rest index lineStart hr he hc ih =>
    have hn := closeQuote_lt h
    obtain ⟨k, rfl⟩ : ∃ k', k = k' + 2 := ⟨k - 2, by omega⟩
    have hsub : index - f + 1 = index + 1 - f := by omega
    have hline : (if c = newline then index - f + 1 else lineStart - f) =
        (if c = newline then index + 1 else lineStart) - f := by
      split <;> omega
    rw [take_succ_cons, take_succ_cons, closeQuote, if_neg hr, if_neg he, if_neg hc, hline, hsub]
    exact ih (k := k + 1) (by omega) h (by omega) hn

/-! ## Looking back -/

/-- What stands before this place belongs to no word and no prefix. -/
def Cut (source : Text) (f : Nat) : Prop := ∀ c, behind source f 1 = some c → isWordPart c = false ∧ c ≠ 38

theorem behind_add (k : Nat) : behind source (f + k) (k + 1) = behind source f 1 := by
  unfold behind
  by_cases hf : 1 ≤ f
  · rw [if_pos (by omega), if_pos hf]
    congr 1
    omega
  · rw [if_neg (by omega), if_neg hf]

theorem Cut.any (h : Cut source f) : (behind source f 1).any isWordPart = false := by
  cases hb : behind source f 1 with
  | none => rfl
  | some c => exact (h c hb).1

theorem Cut.ne (h : Cut source f) {c : Code} (hc : isWordPart c = true ∨ c = 38) : behind source f 1 ≠ some c := by
  intro hb
  obtain ⟨h1, h2⟩ := h c hb
  rcases hc with hc | hc
  · rw [hc] at h1
    cases h1
  · exact h2 hc

theorem usesPostgresEscapePrefix_slice (hcut : Cut source f) (hf : f ≤ i) (he : i ≤ e) :
    usesPostgresEscapePrefix (slice source f e) (i - f) = usesPostgresEscapePrefix source i := by
  unfold usesPostgresEscapePrefix
  obtain rfl | h1 : i = f ∨ f + 1 ≤ i := by omega
  · rw [behind_slice_none hf (by omega), behind_slice_none hf (by omega), behind_slice_none hf (by omega)]
    simp [hcut.ne (c := 101) (.inl rfl), hcut.ne (c := 69) (.inl rfl), hcut.ne (c := 38) (.inr rfl)]
  · rw [behind_slice Nat.one_pos h1 he]
    obtain rfl | h2 : i = f + 1 ∨ f + 2 ≤ i := by omega
    · rw [behind_slice_none hf (by omega), behind_slice_none hf (by omega), behind_add 1, hcut.any]
      simp [hcut.ne (c := 117) (.inl rfl), hcut.ne (c := 85) (.inl rfl)]
    · rw [behind_slice (by omega) h2 he]
      obtain rfl | h3 : i = f + 2 ∨ f + 3 ≤ i := by omega
      · rw [behind_slice_none hf (by omega), behind_add 2, hcut.any]
        simp
      · rw [behind_slice (by omega) h3 he]

/-- A dollar quote that ends within the slice begins in it as in the source; what begins none begins none there, unless
the slice begins with it after a character of an identifier. -/
theorem dollarDelimiterAt_slice (hf : f ≤ i) (hi : i < e)
    (hfirst : i = f → (behind source f 1).any isPostgresIdentifierPart = true →
      dollarDelimiterAt (slice source f e) 0 = none)
    (hsome : ∀ d, dollarDelimiterAt source i = some d → i + d.length ≤ e) :
    dollarDelimiterAt (slice source f e) (i - f) = dollarDelimiterAt source i := by
  by_cases hb : i = f ∧ (behind source f 1).any isPostgresIdentifierPart = true
  · obtain ⟨rfl, hb⟩ := hb
    rw [Nat.sub_self, hfirst rfl hb]
    simp [dollarDelimiterAt, hb]
  · have hbehind : (behind (slice source f e) (i - f) 1).any isPostgresIdentifierPart =
        (behind source i 1).any isPostgresIdentifierPart := by
      obtain rfl | h1 : i = f ∨ f + 1 ≤ i := by omega
      · rw [behind_slice_none hf (by omega)]
        exact (Bool.eq_false_iff.2 fun h => hb ⟨rfl, h⟩).symm
      · rw [behind_slice Nat.one_pos h1 (Nat.le_of_lt hi)]
    rw [← Postgres.dollarTag_eq, ← Postgres.dollarTag_eq]
    rw [← Postgres.dollarTag_eq] at hsome
    unfold Postgres.dollarTag at hsome ⊢
    have hsub : i - f + 1 = i + 1 - f := by omega
    rw [hbehind, slice_get_lt hf hi, hsub, slice_drop (by omega), takeWhile_take]
    generalize (source.drop (i + 1)).takeWhile (fun c => decide (c ≠ 36) && isPostgresIdentifierPart c) = tag
      at hsome ⊢
    dsimp only at hsome ⊢
    by_cases hle : i + 1 + tag.length < e
    · have hsub' : i + 1 - f + tag.length = i + 1 + tag.length - f := by omega
      rw [take_of_length_le (by omega), hsub', slice_get_lt (by omega) hle]
    · -- the tag reaches the end of the slice
      have hlen : (tag.take (e - (i + 1))).length = e - (i + 1) := by
        rw [length_take]
        omega
      have hsub' : i + 1 - f + (e - (i + 1)) = e - f := by omega
      have hnone : (slice source f e)[e - f]? = none := by
        rw [slice_get (by omega), if_neg (Nat.lt_irrefl e)]
      rw [hlen, hsub', hnone]
      split
      · rename_i hc
        simp at hc
      · split
        · rename_i hc
          have hd := hsome _ (if_pos hc)
          simp only [length_cons, length_append, length_nil] at hd
          omega
        · rfl

theorem inspectGoLine_slice (hf : f ≤ i) (he : i < e) (hsolid : SolidAt source f) (hline : lineStart ≤ i)
    (hfirst : i = f → inspectGoLine (slice source f e) 0 0 = none)
    (hpart : toUpperCase (slice source i (i + 2)) = codes "GO" → source[i + 2]?.any isWordPart = true → i + 2 < e)
    (h : inspectGoLine source i lineStart = none) : inspectGoLine (slice source f e) (i - f) (lineStart - f) = none := by
  obtain rfl | hlt : i = f ∨ f < i := by omega
  · have hl : lineStart - i = 0 := by omega
    rw [Nat.sub_self, hl]
    exact hfirst rfl
  · unfold inspectGoLine at h ⊢
    split at h
    · rename_i hword
      rw [if_pos]
      by_cases hi2 : i + 2 ≤ e
      · have hsub : i - f + 2 = i + 2 - f := by omega
        rw [hsub, slice_slice hf hi2]
        exact hword
      · intro hgo
        have h1 := congrArg List.length hgo
        have h2 := slice_length_le (slice source f e) (i - f) (i - f + 2)
        have h3 : (codes "GO").length = 2 := rfl
        have h4 : (slice source f e).length ≤ e - f := by
          rw [slice, length_drop, length_take]
          omega
        rw [toUpperCase, length_map] at h1
        omega
    · rename_i hword
      split at h
      · rename_i hnext
        have hlt2 := hpart (by simpa using hword) hnext
        have hsub : i - f + 2 = i + 2 - f := by omega
        have hnext' : (slice source f e)[i - f + 2]?.any isWordPart = true := by
          rw [hsub, slice_get_lt (by omega) hlt2]
          exact hnext
        split <;> rfl
      · split at h
        · rename_i hindent
          have hindent' : (!(slice (slice source f e) (lineStart - f) (i - f)).all isGoIndent) = true := by
            by_contra hall
            have hall' : (slice (slice source f e) (lineStart - f) (i - f)).all isGoIndent = true := by simpa using hall
            by_cases hl : f ≤ lineStart
            · rw [slice_slice hl (Nat.le_of_lt he)] at hall'
              rw [hall'] at hindent
              cases hindent
            · -- the first character of the slice is no indent
              obtain ⟨c, hc, hw⟩ := hsolid
              have hget : (slice source f e)[f - f]? = some c := by rw [slice_get_lt (Nat.le_refl f) (by omega), hc]
              have := isWhitespace_of_goIndent (slice_all hall' (f - f) (by omega) (by omega) c hget)
              rw [hw] at this
              cases this
          split
          · rfl
          · split <;> rfl
        · cases h

/-! ## Tokens -/

def Lexed.shift (f : Nat) (t : Lexed) : Lexed := ⟨t.item, t.next - f, t.lineStart - f⟩

/-- The slice begins as the source goes on there: the token before is over, a `GO` is no separator, and a dollar begins no
quote in the slice that it does not begin in the source. -/
structure Apart (source : Text) (dialect : Dialect) (f e : Nat) : Prop where
  cut : Cut source f
  solid : SolidAt source f
  lt : f < e
  le : e ≤ source.length
  go : dialect = .mssql → inspectGoLine (slice source f e) 0 0 = none
  dollar : dialect = .postgres → (behind source f 1).any isPostgresIdentifierPart = true →
    dollarDelimiterAt (slice source f e) 0 = none

variable {dialect : Dialect} {c : Code} {t : Lexed}

theorem quotedAt_slice {code : ParseErrorCode} {message : String}
    (hf : f ≤ i) (h : quotedAt source close doubled escapes code message i lineStart = .ok t) (hle : t.next ≤ e) :
    quotedAt (slice source f e) close doubled escapes code message (i - f) (lineStart - f) = .ok (t.shift f) := by
  unfold quotedAt at h ⊢
  split at h
  · rename_i next line hq
    cases h
    have hsub : i - f + 1 = i + 1 - f := by omega
    have hk : next ≤ i + 1 + (e - (i + 1)) := by
      dsimp only at hle
      omega
    rw [hsub, slice_drop (by omega), closeQuote_take (by omega) hq hk]
    rfl
  · cases h
  · cases h

theorem dollarQuotedAt_slice {delimiter : Text} (hd : delimiter ≠ []) (hf : f ≤ i)
    (h : dollarQuotedAt source delimiter i lineStart = .ok t) (hle : t.next ≤ e) :
    dollarQuotedAt (slice source f e) delimiter (i - f) (lineStart - f) = .ok (t.shift f) := by
  unfold dollarQuotedAt at h ⊢
  split at h
  · cases h
  · rename_i close hc
    cases h
    have hle' : close + delimiter.length ≤ e := hle
    have hge := ((indexOf_eq_some hd).1 hc).1
    have hsub : i - f + delimiter.length = i + delimiter.length - f := by omega
    have hsub' : close - f + delimiter.length = close + delimiter.length - f := by omega
    rw [hsub, indexOf_slice hd (by omega) hle' hc]
    dsimp only
    rw [hsub', lineStartIn_slice hf (by omega) hle']
    rfl

theorem plainAt_slice (hf : f ≤ i) (hi : i < e) (hle : (plainAt source dialect c i lineStart).next ≤ e) :
    plainAt (slice source f e) dialect c (i - f) (lineStart - f) = (plainAt source dialect c i lineStart).shift f := by
  have hsub : i - f + 1 = i + 1 - f := by omega
  unfold plainAt at hle ⊢
  split
  · rename_i hs
    rw [if_pos hs] at hle
    dsimp only at hle ⊢
    rw [hsub, runEnd_slice _ (by omega) hi, Nat.min_eq_left hle, slice_slice hf hle]
    rfl
  · split
    · rw [hsub]
      rfl
    · split
      · rw [hsub]
        rfl
      · split
        · rw [hsub]
          rfl
        · rw [hsub]
          rfl

theorem lt_plainAt_of_go (hg : dialect = .mssql ∧ (c = 103 ∨ c = 71))
    (hword : toUpperCase (slice source i (i + 2)) = codes "GO") (hpart : source[i + 2]?.any isWordPart = true) :
    i + 2 < (plainAt source dialect c i lineStart).next := by
  obtain ⟨rfl, hc⟩ := hg
  have hstart : startsWord .mssql c = true := by rcases hc with rfl | rfl <;> rfl
  obtain ⟨o, ho, hpo⟩ : ∃ o, source[i + 1]? = some o ∧ isWordPart o = true := by
    have hget : (toUpperCase (slice source i (i + 2)))[1]? = some 79 := by rw [hword]; rfl
    rw [toUpperCase, getElem?_map, getElem?_slice, if_pos (by omega)] at hget
    obtain ⟨o, ho, hu⟩ := Option.map_eq_some_iff.1 hget
    refine ⟨o, ho, ?_⟩
    have : o = 79 ∨ o = 111 := by
      unfold upper at hu
      split at hu
      · rename_i hlow
        simp only [Bool.and_eq_true, decide_eq_true_eq] at hlow
        exact .inr (Nat.eq_add_of_sub_eq (Nat.le_trans (by decide) hlow.1) hu)
      · exact .inl hu
    rcases this with rfl | rfl <;> rfl
  obtain ⟨h1, -, h3⟩ := Postgres.runEnd_at (continuesWord .mssql) source (i + 1)
  rw [plainAt, if_pos hstart]
  dsimp only
  by_contra hle
  obtain hn | hn : runEnd (continuesWord .mssql) (source.drop (i + 1)) (i + 1) = i + 1 ∨
      runEnd (continuesWord .mssql) (source.drop (i + 1)) (i + 1) = i + 2 := by omega
  · have hno := h3 o (by rw [hn, ho])
    rw [show continuesWord .mssql o = isWordPart o from rfl, hpo] at hno
    cases hno
  · cases hp : source[i + 2]? with
    | none =>
      rw [hp] at hpart
      cases hpart
    | some p =>
      have hno := h3 p (by rw [hn, hp])
      rw [hp] at hpart
      rw [show continuesWord .mssql p = isWordPart p from rfl] at hno
      rw [Option.any_some, hno] at hpart
      cases hpart

/-- **A token within the slice** is the source's, at the shifted place. -/
theorem lexAt_slice (ha : Apart source dialect f e) (hf : f ≤ i) (hc : source[i]? = some c) (hline : lineStart ≤ i)
    (h : lexAt source dialect c i lineStart = .ok t) (hi : i < t.next) (hle : t.next ≤ e)
    (hspace : ∀ b, t.item = .space b → t.next < e) (hgo : t.item ≠ .go) :
    lexAt (slice source f e) dialect c (i - f) (lineStart - f) = .ok (t.shift f) := by
  have hie : i < e := Nat.lt_of_lt_of_le hi hle
  have hsub1 : i - f + 1 = i + 1 - f := by omega
  have hsub2 : i - f + 2 = i + 2 - f := by omega
  have hnot {needle : Text} (hs : ¬ startsWith needle source i = true) :
      ¬ startsWith needle (slice source f e) (i - f) = true := fun hs' => hs (startsWith_of_slice hf hs')
  unfold lexAt at h ⊢
  rcases ite_eq_iff.1 h with ⟨hw, h⟩ | ⟨hw, h⟩
  · cases h
    have hlt : i + 1 < e := hspace _ rfl
    rw [if_pos hw, hsub1, slice_get_lt (by omega) hlt]
    dsimp only [Lexed.shift]
    split <;> rfl
  · rw [if_neg hw]
    rcases ite_eq_iff.1 h with ⟨hdash, h⟩ | ⟨hdash, h⟩
    · cases h
      have hlen : i + 2 ≤ source.length := startsWith_length hdash (by simp [codes_dashes])
      have hi2 : i + 2 ≤ lineEnd source i := (newline_spec hlen rfl).1
      have hle' : lineEnd source i ≤ e := hle
      have hdash' : startsWith (codes "--") (slice source f e) (i - f) = true :=
        startsWith_slice hf (by rw [codes_dashes]; exact Nat.le_trans hi2 hle') hdash
      rw [if_pos hdash', lineEnd_slice hf (Nat.le_trans hi2 hle') ha.le, Nat.min_eq_left hle']
      rfl
    · rw [if_neg (hnot hdash)]
      rcases ite_eq_iff.1 h with ⟨hopen, h⟩ | ⟨hopen, h⟩
      · split at h
        · cases h
        · rename_i next line hcl
          cases h
          have hge := closeComment_lt hcl
          have hle' : next ≤ e := hle
          have hopen' : startsWith (codes "/*") (slice source f e) (i - f) = true :=
            startsWith_slice hf (by rw [codes_open]; dsimp only [length_cons, length_nil]; omega) hopen
          rw [if_pos hopen', hsub2, slice_drop (by omega), closeComment_take (by omega) hcl (by omega)]
          rfl
      · rw [if_neg (hnot hopen)]
        rcases ite_eq_iff.1 h with ⟨h39, h⟩ | ⟨h39, h⟩
        · rw [if_pos h39, usesPostgresEscapePrefix_slice ha.cut hf (Nat.le_of_lt hie)]
          exact quotedAt_slice hf h hle
        · rw [if_neg h39]
          rcases ite_eq_iff.1 h with ⟨h34, h⟩ | ⟨h34, h⟩
          · rw [if_pos h34, usesPostgresEscapePrefix_slice ha.cut hf (Nat.le_of_lt hie)]
            exact quotedAt_slice hf h hle
          · rw [if_neg h34]
            rcases ite_eq_iff.1 h with ⟨h96, h⟩ | ⟨h96, h⟩
            · rw [if_pos h96]
              exact quotedAt_slice hf h hle
            · rw [if_neg h96]
              rcases ite_eq_iff.1 h with ⟨h91, h⟩ | ⟨h91, h⟩
              · rw [if_pos h91]
                exact quotedAt_slice hf h hle
              · rw [if_neg h91]
                rcases ite_eq_iff.1 h with ⟨h36, h⟩ | ⟨h36, h⟩
                · rw [if_pos h36]
                  simp only [Bool.and_eq_true, decide_eq_true_eq] at h36
                  obtain ⟨hd, rfl⟩ := h36
                  have hsome (d : Text) (htag : dollarDelimiterAt source i = some d) : i + d.length ≤ e := by
                    rw [htag] at h
                    dsimp only at h
                    unfold dollarQuotedAt at h
                    split at h
                    · cases h
                    · rename_i close hcl
                      cases h
                      have := ((indexOf_eq_some (dollarDelimiterAt_pos htag)).1 hcl).1
                      dsimp only at hle
                      omega
                  rw [dollarDelimiterAt_slice hf hie (fun _ => ha.dollar hd) hsome]
                  split at h
                  · rename_i d htag
                    exact dollarQuotedAt_slice (dollarDelimiterAt_pos htag) hf h hle
                  · cases h
                    rw [plainAt_slice hf hie hle]
                · rw [if_neg h36]
                  rcases ite_eq_iff.1 h with ⟨hg, h⟩ | ⟨hg, h⟩
                  · rw [if_pos hg]
                    simp only [Bool.and_eq_true, Bool.or_eq_true, decide_eq_true_eq] at hg
                    split at h
                    · cases h
                    · cases h
                      exact absurd rfl hgo
                    · rename_i hnone
                      cases h
                      rw [inspectGoLine_slice hf hie ha.solid hline (fun _ => ha.go hg.1)
                        (fun hword hpart => ?_) hnone, plainAt_slice hf hie hle]
                      exact Nat.lt_of_lt_of_le (lt_plainAt_of_go hg hword hpart) hle
                  · rw [if_neg hg]
                    cases h
                    rw [plainAt_slice hf hie hle]

end Slices

end Sql
end Yuzora
