import Yuzora.SqlTiling
/-!
# SqlTokens — where a token ends

Every token ends after its beginning and within the source, and the line it leaves the scan on is one (`lexAt_fits`).
-/
namespace Yuzora
namespace Sql

open List

/-- The line of the scan begins at or before its index. -/
structure OnLine (source : Text) (lineStart index : Nat) : Prop where
  le : lineStart ≤ index
  line : LineStart source lineStart

section Looking

variable {source : Text} {index lineStart : Nat} {needle : Text} {c : Code}

theorem OnLine.mono (h : OnLine source lineStart index) {next : Nat} (hle : index ≤ next) :
    OnLine source lineStart next := ⟨Nat.le_trans h.le hle, h.line⟩

theorem onLine_newline (h : source[index]? = some c) (hc : c = newline ∨ c = carriageReturn) :
    OnLine source (index + 1) (index + 1) := by
  refine ⟨Nat.le_refl _, .inr ⟨index, rfl, ?_⟩⟩
  rcases hc with rfl | rfl
  · exact .inl h
  · exact .inr h

theorem OnLine.step (h : OnLine source lineStart index) (hc : source[index]? = some c) :
    OnLine source (if c = newline then index + 1 else lineStart) (index + 1) := by
  split
  · rename_i hn
    exact onLine_newline hc (.inl hn)
  · exact h.mono (Nat.le_succ index)

theorem runEnd_le (part : Code → Bool) :
    ∀ (l : Text) (index : Nat), index ≤ runEnd part l index ∧ runEnd part l index ≤ index + l.length
  | [], index => by simp [runEnd]
  | c :: rest, index => by
    have := runEnd_le part rest (index + 1)
    simp only [runEnd, length_cons]
    split <;> omega

theorem runEnd_drop_le (part : Code → Bool) (h : index ≤ source.length) :
    index ≤ runEnd part (source.drop index) index ∧ runEnd part (source.drop index) index ≤ source.length := by
  have := runEnd_le part (source.drop index) index
  rw [length_drop] at this
  omega

theorem findFrom_some : ∀ {l : Text} {index k : Nat}, source.drop index = l → findFrom needle l index = some k →
      index ≤ k ∧ startsWith needle source k = true ∧ ∀ i, index ≤ i → i < k → startsWith needle source i = false
  | [], _, _, _, h => by cases h
  | c :: rest, index, k, hl, h => by
    rw [findFrom] at h
    split at h
    · rename_i hp
      cases h
      refine ⟨Nat.le_refl _, ?_, fun i hi hk => by omega⟩
      rw [startsWith, hl]
      exact hp
    · rename_i hp
      obtain ⟨hle, hs, hn⟩ := findFrom_some (drop_succ_of_drop hl) h
      refine ⟨by omega, hs, fun i hi hk => ?_⟩
      by_cases hik : i = index
      · subst hik
        rw [startsWith, hl]
        exact Bool.eq_false_iff.2 hp
      · exact hn i (by omega) hk

theorem findFrom_none : ∀ {l : Text} {index : Nat}, source.drop index = l →
    findFrom needle l index = none → ∀ i, index ≤ i → i < source.length → startsWith needle source i = false
  | [], index, hl, _ => fun i hi hk => by
    have := congrArg List.length hl
    simp only [length_drop, length_nil] at this
    omega
  | c :: rest, index, hl, h => by
    rw [findFrom] at h
    split at h
    · cases h
    · rename_i hp
      intro i hi hk
      by_cases hik : i = index
      · subst hik
        rw [startsWith, hl]
        exact Bool.eq_false_iff.2 hp
      · exact findFrom_none (drop_succ_of_drop hl) h i (by omega) hk

theorem startsWith_length (h : startsWith needle source index = true) (hn : needle ≠ []) :
    index + needle.length ≤ source.length := by
  have := (List.isPrefixOf_iff_prefix.1 h).length_le
  have := length_pos_iff.2 hn
  rw [length_drop] at *
  omega

theorem startsWith_head (h : startsWith (c :: needle) source index = true) : source[index]? = some c := by
  obtain ⟨rest, hr⟩ := isPrefixOf_iff_prefix.1 h
  exact getElem?_of_drop hr.symm

theorem startsWith_one : startsWith [c] source index = true ↔ source[index]? = some c := by
  refine ⟨startsWith_head, fun h => ?_⟩
  obtain ⟨hlt, rfl⟩ := List.getElem?_eq_some_iff.1 h
  rw [startsWith, drop_eq_getElem_cons hlt]
  simp [List.isPrefixOf]

theorem newline_spec {«from» stop : Nat} (hle : «from» ≤ source.length)
    (h : (indexOf [newline] source «from»).getD source.length = stop) :
    «from» ≤ stop ∧ stop ≤ source.length ∧ (∀ i, «from» ≤ i → i < stop → source[i]? ≠ some newline) ∧
      (stop = source.length ∨ source[stop]? = some newline) := by
  have hno {i : Nat} (hi : startsWith [newline] source i = false) : source[i]? ≠ some newline := by
    intro hc
    rw [startsWith_one.2 hc] at hi
    cases hi
  cases hf : indexOf [newline] source «from» with
  | none =>
    rw [hf] at h
    subst h
    exact ⟨hle, Nat.le_refl _, fun i hi hk => hno (findFrom_none rfl hf i hi hk), .inl rfl⟩
  | some k =>
    rw [hf] at h
    subst h
    obtain ⟨hk, hs, hn⟩ := findFrom_some rfl hf
    have := startsWith_length hs (by simp)
    rw [Option.getD_some]
    exact ⟨hk, by omega, fun i hi hik => hno (hn i hi hik), .inr (startsWith_one.1 hs)⟩

theorem lineStartIn_onLine {stop : Nat} (h : OnLine source lineStart index) (hle : index ≤ stop) :
    OnLine source (lineStartIn source index stop lineStart) stop := by
  unfold lineStartIn
  cases hf : ((List.range' index (stop - index)).filter fun i => source[i]? = some newline).getLast? with
  | none => exact h.mono hle
  | some i =>
    have hm := mem_of_getLast? hf
    simp only [mem_filter, mem_range'_1, decide_eq_true_eq] at hm
    exact (onLine_newline hm.2 (.inl rfl)).mono (by omega)

end Looking

/-! ## Quotes and comments -/

section Closing

variable {source : Text} {nested : Bool}

theorem closeQuote_spec {close : Code} {doubled : Bool} {escapes : Backslash} {l : Text} {index lineStart next line : Nat}
    (hl : source.drop index = l) (hline : OnLine source lineStart index)
    (h : closeQuote close doubled escapes l index lineStart = .closed next line) :
    index < next ∧ next ≤ source.length ∧ OnLine source line next := by
  fun_induction closeQuote close doubled escapes l index lineStart with
  | case1 | case2 | case3 => cases h
  | case4 | case9 =>
    cases h
    have := lt_length_of_drop hl
    exact ⟨by omega, by omega, hline.mono (by omega)⟩
  | case5 => cases h
  | case6 => cases h
  | case7 _ _ _ _ _ _ _ ih | case8 _ _ _ _ _ _ _ ih =>
    obtain ⟨h1, h2⟩ := ih (drop_succ_of_drop (drop_succ_of_drop hl)) (hline.mono (by omega)) h
    exact ⟨by omega, h2⟩
  | case10 c c' rest index lineStart _ _ _ ih =>
    obtain ⟨h1, h2⟩ := ih (drop_succ_of_drop hl) (hline.step (getElem?_of_drop hl)) h
    exact ⟨by omega, h2⟩

theorem codes_open : codes "/*" = [47, 42] := rfl
theorem codes_close : codes "*/" = [42, 47] := rfl
theorem codes_dashes : codes "--" = [45, 45] := rfl

theorem opens_iff {a b c c' : Code} {rest : Text} :
    [a, b].isPrefixOf (c :: c' :: rest) = (decide (c = a) && decide (c' = b)) := by
  have hb (x y : Code) : (x == y) = decide (y = x) := by
    by_cases h : y = x
    · simp [h]
    · have h' : ¬ x = y := fun e => h e.symm
      simp [h, h']
  rw [List.isPrefixOf, List.isPrefixOf, List.isPrefixOf, Bool.and_true, hb, hb]

theorem Closes.ne_nil {n : Nat} {body : Text} (h : Closes nested (n + 1) body) : body ≠ [] := by
  cases h <;> simp

theorem closeComment_spec {l : Text} {depth index lineStart next line : Nat}
    (hl : source.drop index = l) (hline : OnLine source lineStart index)
    (h : closeComment nested l depth index lineStart = some (next, line)) (hd : 0 < depth) :
    OnLine source line next ∧ ∃ body rest, l = body ++ rest ∧ next = index + body.length ∧ Closes nested depth body := by
  fun_induction closeComment nested l depth index lineStart with
  | case1 => cases h
  | case2 => cases h
  | case3 c c' rest depth index lineStart hc ih =>
    simp only [Bool.and_eq_true, decide_eq_true_eq] at hc
    obtain ⟨⟨hn, rfl⟩, rfl⟩ := hc
    obtain ⟨ho, body, tail, rfl, rfl, hb⟩ :=
      ih (drop_succ_of_drop (drop_succ_of_drop hl)) (hline.mono (by omega)) h (by omega)
    obtain ⟨n, rfl⟩ : ∃ n, depth = n + 1 := ⟨depth - 1, by omega⟩
    refine ⟨ho, 47 :: 42 :: body, tail, rfl, ?_, .opens hn hb⟩
    simp only [length_cons]
    omega
  | case4 c c' rest index lineStart hc hcl =>
    simp only [Bool.and_eq_true, decide_eq_true_eq] at hcl
    obtain ⟨rfl, rfl⟩ := hcl
    cases h
    exact ⟨hline.mono (by omega), [42, 47], rest, rfl, rfl, .closes .done⟩
  | case5 c c' rest depth index lineStart hc hcl hd1 ih =>
    simp only [Bool.and_eq_true, decide_eq_true_eq] at hcl
    obtain ⟨rfl, rfl⟩ := hcl
    obtain ⟨ho, body, tail, rfl, rfl, hb⟩ :=
      ih (drop_succ_of_drop (drop_succ_of_drop hl)) (hline.mono (by omega)) h (by omega)
    obtain ⟨n, rfl⟩ : ∃ n, depth = n + 1 := ⟨depth - 1, by omega⟩
    refine ⟨ho, 42 :: 47 :: body, tail, rfl, ?_, .closes hb⟩
    simp only [length_cons]
    omega
  | case6 c c' rest depth index lineStart hc hcl ih =>
    obtain ⟨ho, body, tail, hr, rfl, hb⟩ := ih (drop_succ_of_drop hl) (hline.step (getElem?_of_drop hl)) h hd
    obtain ⟨n, rfl⟩ : ∃ n, depth = n + 1 := ⟨depth - 1, by omega⟩
    obtain _ | ⟨b, body⟩ := body
    · exact absurd rfl hb.ne_nil
    · simp only [cons_append, List.cons.injEq] at hr
      obtain ⟨rfl, rfl⟩ := hr
      refine ⟨ho, c :: c' :: body, tail, rfl, ?_, .skips c ?_ ?_ hb⟩
      · simp only [length_cons]
        omega
      · rw [codes_open, opens_iff]
        simpa using hc
      · rw [codes_close, opens_iff]
        exact Bool.eq_false_iff.2 hcl

end Closing

/-! ## A token -/

/-- What is known of the place of a token, from `index` up to `next`. -/
def Item.Fits (source : Text) (dialect : Dialect) (lineStart index next : Nat) : Item → Prop
  | .space _ => WhitespaceAt source index ∧ next = index + 1
  | .comment => SolidAt source index ∧ Quiet source dialect index next
  | .go => (∀ i, lineStart ≤ i → i < index → WhitespaceAt source i) ∧ Piece source dialect index next
  | .semicolon => source[index]? = some 59 ∧ next = index + 1
  | .quoted | .word _ | .opening | .closing | .other => SolidAt source index

/-- The line after a token, which is one unless the token ends the source. -/
def LineAt (source : Text) (lineStart index : Nat) : Prop :=
  lineStart ≤ index ∧ (LineStart source lineStart ∨ index = source.length)

structure Lexed.Fits (source : Text) (dialect : Dialect) (index lineStart : Nat) (t : Lexed) : Prop where
  lt : index < t.next
  le : t.next ≤ source.length
  line : LineAt source t.lineStart t.next
  item : t.item.Fits source dialect lineStart index t.next

section Lexing

variable {source : Text} {dialect : Dialect} {c : Code} {index lineStart : Nat} {t : Lexed} {code : ParseErrorCode}
  {escapes : Backslash} {message : String} {delimiter : Text} {doubled : Bool} {close : Code}

theorem OnLine.at (h : OnLine source lineStart index) : LineAt source lineStart index := ⟨h.le, .inl h.line⟩

theorem quotedAt_fits (hs : SolidAt source index) (hline : OnLine source lineStart index)
    (h : quotedAt source close doubled escapes code message index lineStart = .ok t) :
    t.Fits source dialect index lineStart := by
  unfold quotedAt at h
  split at h
  · rename_i next line hq
    cases h
    obtain ⟨h1, h2, h3⟩ := closeQuote_spec rfl (hline.mono (Nat.le_succ index)) hq
    exact ⟨Nat.lt_of_succ_lt h1, h2, h3.at, hs⟩
  · cases h
  · cases h

theorem dollarDelimiterAt_pos (h : dollarDelimiterAt source index = some delimiter) : delimiter ≠ [] := by
  unfold dollarDelimiterAt at h
  split at h
  · cases h
  · split at h
    · cases h
      exact cons_ne_nil _ _
    · split at h
      · cases h
      · dsimp only at h
        split at h
        · rename_i hst
          cases h
          have hlt := (List.getElem?_eq_some_iff.1 hst).1
          have hle := (runEnd_le (fun c => c ≠ 36 && isPostgresIdentifierPart c) (source.drop (index + 2))
            (index + 2)).1
          intro he
          have := congrArg List.length he
          simp only [slice, length_drop, length_take, length_nil] at this
          omega
        · cases h

theorem dollarQuotedAt_fits (hs : SolidAt source index) (hline : OnLine source lineStart index)
    (hd : delimiter ≠ []) (h : dollarQuotedAt source delimiter index lineStart = .ok t) :
    t.Fits source dialect index lineStart := by
  unfold dollarQuotedAt at h
  split at h
  · cases h
  · rename_i close hc
    cases h
    obtain ⟨hle, hst, -⟩ := findFrom_some rfl hc
    have := length_pos_iff.2 hd
    have := startsWith_length hst hd
    exact ⟨by dsimp only; omega, by dsimp only; omega, (lineStartIn_onLine hline (by omega)).at, hs⟩

theorem plainAt_fits (hc : source[index]? = some c) (hs : SolidAt source index) (hline : OnLine source lineStart index) :
    (plainAt source dialect c index lineStart).Fits source dialect index lineStart := by
  have hlt := (List.getElem?_eq_some_iff.1 hc).1
  have hone : LineAt source lineStart (index + 1) := (hline.mono (Nat.le_succ index)).at
  unfold plainAt
  split
  · have hsucc : index + 1 ≤ source.length := hlt
    obtain ⟨h1, h2⟩ := runEnd_drop_le (continuesWord dialect) hsucc
    exact ⟨h1, h2, (hline.mono (Nat.le_of_succ_le h1)).at, hs⟩
  · split
    · exact ⟨Nat.lt_succ_self _, hlt, hone, hs⟩
    · split
      · exact ⟨Nat.lt_succ_self _, hlt, hone, hs⟩
      · split
        · rename_i h59
          exact ⟨Nat.lt_succ_self _, hlt, hone, h59 ▸ hc, rfl⟩
        · exact ⟨Nat.lt_succ_self _, hlt, hone, hs⟩

theorem slice_length_le (source : Text) (a b : Nat) : (slice source a b).length ≤ source.length - a := by
  simp only [slice, length_drop, length_take]
  omega

theorem inspectGoLine_fits (hd : dialect = .mssql) (hline : OnLine source lineStart index)
    {next : Nat} (h : inspectGoLine source index lineStart = some ⟨true, next⟩) :
    (Lexed.mk .go next next).Fits source dialect index lineStart := by
  unfold inspectGoLine at h
  split at h
  · cases h
  · rename_i hgo
    split at h
    · cases h
    · split at h
      · cases h
      · rename_i hin
        simp only [Option.some.injEq, GoLine.mk.injEq] at h
        obtain ⟨hsuf, hnext⟩ := h
        have hword : toUpperCase (slice source index (index + 2)) = codes "GO" := by simpa using hgo
        have hlen : index + 2 ≤ source.length := by
          have h1 := congrArg List.length hword
          have h2 : (codes "GO").length = 2 := rfl
          have h3 := slice_length_le source index (index + 2)
          rw [toUpperCase, length_map] at h1
          omega
        have hindent (i : Nat) (h1 : lineStart ≤ i) (h2 : i < index) : WhitespaceAt source i := by
          have hi : i < source.length := by omega
          refine ⟨source[i], getElem?_eq_getElem hi, isWhitespace_of_goIndent ?_⟩
          exact slice_all (by simpa using hin) i h1 h2 _ (getElem?_eq_getElem hi)
        obtain ⟨h1, h2, h3, h4⟩ := newline_spec hlen rfl
        have hends : (indexOf [newline] source (index + 2)).getD source.length = source.length ∧
              next = (indexOf [newline] source (index + 2)).getD source.length ∨
            source[(indexOf [newline] source (index + 2)).getD source.length]? = some newline ∧
              next = (indexOf [newline] source (index + 2)).getD source.length + 1 := by
          cases hf : indexOf [newline] source (index + 2) with
          | none =>
            rw [hf] at hnext
            exact .inl ⟨rfl, hnext.symm⟩
          | some k =>
            rw [hf] at hnext
            exact .inr ⟨startsWith_one.1 (findFrom_some rfl hf).2.1, hnext.symm⟩
        have hle : next ≤ source.length ∧ LineAt source next next := by
          rcases hends with ⟨he, hn⟩ | ⟨hk, hn⟩
          · rw [hn, he]
            exact ⟨Nat.le_refl _, Nat.le_refl _, .inr rfl⟩
          · rw [hn]
            exact ⟨(List.getElem?_eq_some_iff.1 hk).1, (onLine_newline hk (.inl rfl)).at⟩
        have hgl : GoLineAt source lineStart index ((indexOf [newline] source (index + 2)).getD source.length) next :=
          ⟨hline.line, hline.le, hindent, hword, h1, h3, hsuf, hends⟩
        have hp : Piece source dialect index next := .goLine hd hgl
        exact ⟨hp.lt, hle.1, hle.2, hindent, hp⟩

section
variable (source dialect c index lineStart)

/-- How a token is read. -/
inductive LexedAs : Lexed → Prop
  | space (b : Bool) : isWhitespace c = true → (b = true → c = newline ∨ c = carriageReturn) →
      LexedAs ⟨.space b, index + 1, if b then index + 1 else lineStart⟩
  | lineComment : isWhitespace c = false → startsWith (codes "--") source index = true →
      LexedAs ⟨.comment, lineEnd source index, lineStart⟩
  | blockComment (next line : Nat) : isWhitespace c = false → ¬ startsWith (codes "--") source index = true →
      startsWith (codes "/*") source index = true →
      closeComment (dialect ≠ .sqlite) (source.drop (index + 2)) 1 (index + 2) lineStart = some (next, line) →
      LexedAs ⟨.comment, next, line⟩
  | quoted {close : Code} {doubled : Bool} {escapes : Backslash} {code : ParseErrorCode} {message : String} {t : Lexed} :
      isWhitespace c = false → isWhitespace close = false →
      quotedAt source close doubled escapes code message index lineStart = .ok t → LexedAs t
  | dollarQuoted {d : Text} {t : Lexed} : isWhitespace c = false → dollarDelimiterAt source index = some d →
      dollarQuotedAt source d index lineStart = .ok t → LexedAs t
  | go {next : Nat} : dialect = .mssql → inspectGoLine source index lineStart = some ⟨true, next⟩ →
      LexedAs ⟨.go, next, next⟩
  | plain : isWhitespace c = false → LexedAs (plainAt source dialect c index lineStart)

end

theorem lexAt_cases (h : lexAt source dialect c index lineStart = .ok t) : LexedAs source dialect c index lineStart t := by
  unfold lexAt at h
  rcases ite_eq_iff.1 h with ⟨hw, h⟩ | ⟨hw, h⟩
  · cases h
    exact .space _ hw fun hn => by simpa using Or.imp_right And.left (by simpa using hn)
  rw [Bool.not_eq_true] at hw
  rcases ite_eq_iff.1 h with ⟨hdash, h⟩ | ⟨hdash, h⟩
  · cases h
    exact .lineComment hw hdash
  rcases ite_eq_iff.1 h with ⟨hopen, h⟩ | ⟨-, h⟩
  · split at h
    · cases h
    · rename_i next line hcl
      cases h
      exact .blockComment next line hw hdash hopen hcl
  iterate 4
    rcases ite_eq_iff.1 h with ⟨-, h⟩ | ⟨-, h⟩
    · exact .quoted hw rfl h
  rcases ite_eq_iff.1 h with ⟨-, h⟩ | ⟨-, h⟩
  · split at h
    · rename_i hd
      exact .dollarQuoted hw hd h
    · cases h
      exact .plain hw
  rcases ite_eq_iff.1 h with ⟨hms, h⟩ | ⟨-, h⟩
  · simp only [Bool.and_eq_true, decide_eq_true_eq] at hms
    split at h
    · cases h
    · rename_i hgo
      cases h
      exact .go hms.1 hgo
    · cases h
      exact .plain hw
  · cases h
    exact .plain hw

/-- **A token fits into the source.** -/
theorem lexAt_fits (hc : source[index]? = some c) (hline : OnLine source lineStart index)
    (h : lexAt source dialect c index lineStart = .ok t) : t.Fits source dialect index lineStart := by
  have hlt := (List.getElem?_eq_some_iff.1 hc).1
  have hs (hw : isWhitespace c = false) : SolidAt source index := ⟨c, hc, hw⟩
  cases lexAt_cases h with
  | space b hw hn =>
    refine ⟨Nat.lt_succ_self _, hlt, ?_, ⟨c, hc, hw⟩, rfl⟩
    split
    · rename_i hb
      exact (onLine_newline hc (hn hb)).at
    · exact (hline.mono (Nat.le_succ index)).at
  | lineComment hw hdash =>
    have hlen := startsWith_length hdash (by simp [codes_dashes])
    have hlen' : index + 2 ≤ source.length := hlen
    obtain ⟨h1, h2, h3, h4⟩ := newline_spec hlen' rfl
    exact ⟨by dsimp only [lineEnd]; omega, h2, (hline.mono (by dsimp only [lineEnd]; omega)).at, hs hw,
      .lineComment _ _ hdash h1 h3 h4⟩
  | blockComment next line hw _ hopen hcl =>
    obtain ⟨rest, hrest⟩ := isPrefixOf_iff_prefix.1 hopen
    have hdrop : source.drop (index + 2) = rest := by
      rw [← drop_drop, ← hrest, codes_open]
      rfl
    obtain ⟨ho, body, tail, hbody, rfl, hb⟩ := closeComment_spec rfl (hline.mono (by omega)) hcl Nat.one_pos
    have hq : Quiet source dialect index (index + 2 + body.length) :=
      .blockComment index body hb ⟨tail, by rw [append_assoc, ← hbody, hdrop, hrest]⟩
    have hle : index + 2 + body.length ≤ source.length := by
      have h1 := congrArg List.length hbody
      have h2 := startsWith_length hopen (by simp [codes_open])
      have h3 : (codes "/*").length = 2 := rfl
      simp only [length_drop, length_append] at h1
      omega
    exact ⟨(Piece.quiet hq).lt, hle, ho.at, hs hw, hq⟩
  | quoted hw _ h => exact quotedAt_fits (hs hw) hline h
  | dollarQuoted hw hd h => exact dollarQuotedAt_fits (hs hw) hline (dollarDelimiterAt_pos hd) h
  | go hms hgo => exact inspectGoLine_fits hms hline hgo
  | plain hw => exact plainAt_fits hc (hs hw) hline

theorem quotedAt_closed (h : quotedAt source close doubled escapes code message index lineStart = .ok t) :
    t.item = .quoted ∧ closeQuote close doubled escapes (source.drop (index + 1)) (index + 1) lineStart =
      .closed t.next t.lineStart := by
  unfold quotedAt at h
  split at h
  · rename_i hq
    cases h
    exact ⟨rfl, hq⟩
  · cases h
  · cases h

theorem plainAt_not_go : (plainAt source dialect c index lineStart).item ≠ .go := by
  unfold plainAt
  intro hi
  split at hi
  · cases hi
  · split at hi
    · cases hi
    · split at hi
      · cases hi
      · split at hi <;> cases hi

theorem lexAt_go (h : lexAt source dialect c index lineStart = .ok t) (hi : t.item = .go) : dialect = .mssql := by
  cases lexAt_cases h with
  | space | lineComment | blockComment => cases hi
  | quoted _ _ h => cases (quotedAt_closed h).1.symm.trans hi
  | dollarQuoted _ _ h =>
    unfold dollarQuotedAt at h
    split at h
    · cases h
    · cases h
      cases hi
  | go hms _ => exact hms
  | plain => exact absurd hi plainAt_not_go

end Lexing

end Sql
end Yuzora
