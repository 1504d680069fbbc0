import Yuzora.Table
import Yuzora.Pieces
import Yuzora.Decimal
import Yuzora.Utf8
import Yuzora.GitText
/-!
# GitBatch — objects, framed by their sizes

`git cat-file --batch` answers each object with a line that tells its size, and then its bytes.  The sizes are git's own
words: the end of an object is found by adding one to a position.
-/
namespace Yuzora
namespace Git

open List
open Pieces Decimal Utf8

abbrev Bytes : Type := List UInt8

abbrev Objects : Type := Table String Bytes

def USIZE_MAX : Nat := 2 ^ 64 - 1

def cannot (why : String) : List Char := ("git cat-file: " ++ why).toList

def headerWords (line : List Char) : Option (List Char × List Char × List Char) :=
  match pieces ' ' line with
  | [reported, kind, size] => some (reported, kind, size)
  | _ => none

variable (stdout : Bytes)

/-- The header at a position: where it ends, and the size it tells. -/
def batchHeader (pos : Nat) (oid : GitOid) : Except (List Char) (Nat × Nat) :=
  match cut 10 (stdout.drop pos) with
  | (_, none) => .error (cannot "truncated batch header")
  | (line, some _) =>
    match decode? line with
    | none => .error (cannot "non-utf8 batch header")
    | some text =>
      if " missing".toList <:+ text then .error ("git log missing commit object ".toList ++ oid.text.toList)
      else
        match headerWords text with
        | none => .error (cannot "malformed batch header")
        | some (reported, kind, size) =>
          if reported ≠ oid.text.toList then .error (cannot "oid mismatch")
          else if kind ≠ "commit".toList then .error (cannot "expected commit, got " ++ kind)
          else
            match parseUnsigned USIZE_MAX size with
            | none => .error (cannot "invalid object size")
            | some size => .ok (pos + line.length + 1, size)

/-- One object: nothing where the sum of its position and its size is no `usize`. -/
def batchObject (pos : Nat) (oid : GitOid) : Option (Except (List Char) (Bytes × Nat)) :=
  match batchHeader stdout pos oid with
  | .error e => some (.error e)
  | .ok (pos, size) =>
    if USIZE_MAX < pos + size then none
    else if stdout.length < pos + size then some (.error (cannot "truncated object"))
    else if stdout[pos + size]? ≠ some 10 then some (.error (cannot "missing record terminator"))
    else some (.ok ((stdout.drop pos).take size, pos + size + 1))

def batchObjects (stdout : Bytes) : Nat → Objects → List GitOid → Option (Except (List Char) (Nat × Objects))
  | pos, result, [] => some (.ok (pos, result))
  | pos, result, oid :: oids =>
    match batchObject stdout pos oid with
    | none => none
    | some (.error e) => some (.error e)
    | some (.ok (content, pos)) => batchObjects stdout pos (result.insert oid.text content) oids

/-- `parse_cat_file_batch`; nothing where it panics. -/
def parseCatFileBatch (oids : List GitOid) : Option (Except (List Char) Objects) :=
  (batchObjects stdout 0 Table.empty oids).map fun r => r.bind fun (pos, result) =>
    if pos ≠ stdout.length then .error (cannot "unexpected trailing bytes") else .ok result

/-! ## What is framed -/

def headerBytes (oid : GitOid) (size : List Char) : Bytes :=
  toUtf8 (oid.text.toList ++ " commit ".toList ++ size) ++ [10]

/-- An object in the answer, and how its size is written there. -/
structure Framed where
  oid : GitOid
  sizeText : List Char
  content : Bytes
  size : parseUnsigned USIZE_MAX sizeText = some content.length

def Framed.header (framed : Framed) : Bytes := headerBytes framed.oid framed.sizeText

def Framed.bytes (framed : Framed) : Bytes := framed.header ++ framed.content ++ [10]

def Framed.of (oid : GitOid) (content : Bytes) (h : content.length ≤ USIZE_MAX) : Framed :=
  ⟨oid, decimal content.length, content, parseUnsigned_decimal h⟩

/-! ## One object -/

variable {rest : Bytes}

theorem cut_line {sep : UInt8} {bytes line : Bytes} (h : cut sep bytes = (line, some rest)) :
    bytes = line ++ sep :: rest := by
  have hsome := @cut_some UInt8 _ sep bytes rest (by rw [h])
  rw [h] at hsome
  exact hsome

theorem headerWords_some {text reported kind size : List Char} (h : headerWords text = some (reported, kind, size)) :
    text = reported ++ ' ' :: (kind ++ ' ' :: size) := by
  have htext := intercalate_pieces ' ' text
  unfold headerWords at h
  split at h
  · next a b c hpieces =>
    obtain ⟨rfl, rfl, rfl⟩ := h
    rw [hpieces] at htext
    rw [← htext]
    simp [intercalate_cons_cons]
  · cases h

variable {stdout : Bytes} {pos : Nat} {oid : GitOid}

theorem batchHeader_ok {pos' size : Nat} (h : batchHeader stdout pos oid = .ok (pos', size)) : ∃ sizeText rest,
      stdout.drop pos = headerBytes oid sizeText ++ rest ∧ parseUnsigned USIZE_MAX sizeText = some size ∧
        pos' = pos + (headerBytes oid sizeText).length := by
  unfold batchHeader at h
  split at h
  · cases h
  · next line rest hcut =>
    split at h
    · cases h
    · next text htext =>
      split at h
      · cases h
      · split at h
        · cases h
        · next reported kind sizeText hwords =>
          split at h
          · cases h
          · next hreported =>
            split at h
            · cases h
            · next hkind =>
              split at h
              · cases h
              · next n hn =>
                obtain rfl : reported = oid.text.toList := Decidable.not_not.1 hreported
                obtain rfl : kind = "commit".toList := Decidable.not_not.1 hkind
                obtain ⟨rfl, rfl⟩ := h
                have hline : toUtf8 (oid.text.toList ++ " commit ".toList ++ sizeText) = line := by
                  rw [← toUtf8_of_decode htext, headerWords_some hwords, append_assoc]
                  rfl
                refine ⟨sizeText, rest, ?_, hn, ?_⟩
                · rw [cut_line hcut, headerBytes, hline, append_assoc, singleton_append]
                · rw [headerBytes, hline, length_append, length_singleton, Nat.add_assoc]

theorem batchHeader_header {sizeText : List Char} {size : Nat}
    (hsize : parseUnsigned USIZE_MAX sizeText = some size) (h : stdout.drop pos = headerBytes oid sizeText ++ rest) :
    batchHeader stdout pos oid = .ok (pos + (headerBytes oid sizeText).length, size) := by
  obtain ⟨-, hne, hchars⟩ := parseUnsigned_some hsize
  have hplain : ∀ {c : Char}, c.isDigit = false → c ≠ '+' → c ∉ sizeText := by
    intro c hc hplus hmem
    rcases hchars c hmem with h | h
    · rw [hc] at h
      cases h
    · exact hplus h
  have hoid : ∀ {c : Char}, isHexDigit c = false → c ∉ oid.text.toList := by
    intro c hc hmem
    rw [oid.isHexDigit_of_mem hmem] at hc
    cases hc
  have hnewline : (10 : UInt8) ∉ toUtf8 (oid.text.toList ++ " commit ".toList ++ sizeText) := by
    refine notMem_toUtf8 (c := '\n') (by decide) rfl fun hmem => ?_
    rcases mem_append.1 hmem with hmem | hmem
    · rcases mem_append.1 hmem with hmem | hmem
      · exact hoid (by decide) hmem
      · exact absurd hmem (by decide)
    · exact hplain (by decide) (by decide) hmem
  have hmissing : ¬ " missing".toList <:+ oid.text.toList ++ " commit ".toList ++ sizeText := by
    intro ⟨before, hbefore⟩
    have hlast := congrArg List.getLast? hbefore
    rw [getLast?_append_of_ne_nil _ hne, getLast?_append_of_ne_nil _ (by decide)] at hlast
    exact hplain (c := 'g') (by decide) (by decide) (mem_of_getLast? hlast.symm)
  have hwords : headerWords (oid.text.toList ++ " commit ".toList ++ sizeText) =
      some (oid.text.toList, "commit".toList, sizeText) := by
    have htext : oid.text.toList ++ " commit ".toList ++ sizeText =
        oid.text.toList ++ ' ' :: ("commit".toList ++ ' ' :: sizeText) := by
      rw [append_assoc]
      rfl
    have hpieces : pieces ' ' (oid.text.toList ++ ' ' :: ("commit".toList ++ ' ' :: sizeText)) =
        [oid.text.toList, "commit".toList, sizeText] := by
      rw [pieces_append (hoid (by decide)), pieces_append (by decide), pieces_of_notMem (hplain (by decide) (by decide))]
    unfold headerWords
    rw [htext, hpieces]
  unfold batchHeader
  rw [h, headerBytes, append_assoc, singleton_append, cut_append hnewline]
  simp only [decode_toUtf8, if_neg hmissing, hwords, ne_eq, not_true_eq_false, if_false, hsize, length_append,
    length_singleton, Nat.add_assoc]

variable {before : Bytes} {result : Objects} {oids : List GitOid}

theorem drop_append_length {n : Nat} (h : n = before.length) : (before ++ rest).drop n = rest := by
  rw [h, drop_left]

/-- **One object panics** where its header tells a size that does not fit behind it. -/
theorem batchObject_none : batchObject (before ++ rest) before.length oid = none ↔
    ∃ sizeText size rest', rest = headerBytes oid sizeText ++ rest' ∧ parseUnsigned USIZE_MAX sizeText = some size ∧
      USIZE_MAX < before.length + (headerBytes oid sizeText).length + size := by
  constructor
  · intro h
    unfold batchObject at h
    split at h
    · cases h
    · next pos size hheader =>
      obtain ⟨sizeText, rest', hrest, hsize, rfl⟩ := batchHeader_ok hheader
      rw [drop_append_length rfl] at hrest
      refine ⟨sizeText, size, rest', hrest, hsize, ?_⟩
      by_cases hfits : USIZE_MAX < before.length + (headerBytes oid sizeText).length + size
      · exact hfits
      · rw [if_neg hfits] at h
        split at h
        · cases h
        · split at h
          · cases h
          · cases h
  · intro ⟨sizeText, size, rest', hrest, hsize, hover⟩
    unfold batchObject
    rw [batchHeader_header hsize (by rw [drop_append_length rfl, hrest])]
    exact if_pos hover

/-- **One object that is read** is framed by its header and its line end. -/
theorem batchObject_ok {content : Bytes}
    (h : batchObject (before ++ rest) before.length oid = some (.ok (content, pos))) :
    ∃ framed : Framed, framed.oid = oid ∧ framed.content = content ∧ ∃ rest', rest = framed.bytes ++ rest' ∧
      pos = before.length + framed.bytes.length := by
  unfold batchObject at h
  split at h
  · cases h
  · next pos' size hheader =>
    obtain ⟨sizeText, rest', hrest, hsize, rfl⟩ := batchHeader_ok hheader
    rw [drop_append_length rfl] at hrest
    split at h
    · cases h
    · split at h
      · cases h
      · next hlength =>
        split at h
        · cases h
        · next hend =>
          obtain ⟨rfl, rfl⟩ := h
          have hwhole : before ++ rest = (before ++ headerBytes oid sizeText) ++ rest' := by
            rw [hrest, append_assoc]
          rw [hwhole] at hlength hend ⊢
          rw [length_append, length_append] at hlength
          have hcontent : (((before ++ headerBytes oid sizeText) ++ rest').drop
              (before.length + (headerBytes oid sizeText).length)).take size = rest'.take size := by
            rw [drop_append_length (by rw [length_append])]
          have hlen : (rest'.take size).length = size := length_take_of_le (by omega)
          have hbehind : rest'[size]? = some 10 := by
            have hindex := Decidable.not_not.1 hend
            rw [getElem?_append_right (by rw [length_append]; omega)] at hindex
            rw [← hindex, length_append]
            congr 1
            omega
          refine ⟨⟨oid, sizeText, rest'.take size, by rw [hlen]; exact hsize⟩, rfl, hcontent.symm, rest'.drop (size + 1),
            ?_, ?_⟩
          · have hsplit : rest' = rest'.take size ++ 10 :: rest'.drop (size + 1) := by
              conv_lhs => rw [← take_append_drop size rest', drop_eq_getElem?_toList_append, hbehind]
              rfl
            rw [Framed.bytes, Framed.header, hrest, append_assoc, append_assoc]
            conv_lhs => rw [hsplit]
            rfl
          · rw [Framed.bytes, Framed.header, length_append, length_append, length_singleton]
            change _ = before.length + ((headerBytes oid sizeText).length + (rest'.take size).length + 1)
            omega

theorem batchObject_framed (before rest : Bytes) (framed : Framed) :
    batchObject (before ++ (framed.bytes ++ rest)) before.length framed.oid = none ∨
      batchObject (before ++ (framed.bytes ++ rest)) before.length framed.oid =
        some (.ok (framed.content, before.length + framed.bytes.length)) := by
  have hwhole : before ++ (framed.bytes ++ rest) = (before ++ framed.header) ++ (framed.content ++ 10 :: rest) := by
    rw [Framed.bytes, append_assoc, append_assoc, append_assoc]
    rfl
  have hdrop : (before ++ (framed.bytes ++ rest)).drop before.length =
      headerBytes framed.oid framed.sizeText ++ (framed.content ++ 10 :: rest) := by
    rw [drop_append_length rfl, Framed.bytes, append_assoc, append_assoc]
    rfl
  unfold batchObject
  rw [batchHeader_header framed.size hdrop]
  by_cases hover : USIZE_MAX < before.length + (headerBytes framed.oid framed.sizeText).length + framed.content.length
  · exact .inl (if_pos hover)
  · right
    have hpos : before.length + (headerBytes framed.oid framed.sizeText).length = (before ++ framed.header).length := by
      rw [length_append]
      rfl
    have hend : ((before ++ framed.header) ++ (framed.content ++ 10 :: rest))[
        (before ++ framed.header).length + framed.content.length]? = some 10 := by
      rw [getElem?_append_right (Nat.le_add_right _ _), Nat.add_sub_cancel_left,
        getElem?_append_right (Nat.le_refl _), Nat.sub_self]
      rfl
    simp only [if_neg hover]
    rw [hwhole, hpos, if_neg (by simp only [length_append]; omega), if_neg (fun h => h hend), drop_left,
      take_left, Framed.bytes]
    simp only [length_append, length_singleton, Nat.add_assoc]

/-! ## The whole answer -/

def framedBytes (done : List Framed) : Bytes := done.flatMap Framed.bytes

theorem framedBytes_cons (framed : Framed) (done : List Framed) :
    framedBytes (framed :: done) = framed.bytes ++ framedBytes done := flatMap_cons

/-- Behind some objects stands the header of the next one asked for, with a size that reaches past the last `usize`. -/
def OverflowsFrom (start : Nat) (rest : Bytes) (oids : List GitOid) : Prop :=
  ∃ done oid later sizeText size rest', oids = done.map Framed.oid ++ oid :: later ∧
    rest = framedBytes done ++ (headerBytes oid sizeText ++ rest') ∧ parseUnsigned USIZE_MAX sizeText = some size ∧
      USIZE_MAX < start + (framedBytes done).length + (headerBytes oid sizeText).length + size

def Overflows (stdout : Bytes) (oids : List GitOid) : Prop := OverflowsFrom 0 stdout oids

def insertFramed (result : Objects) (framed : Framed) : Objects := result.insert framed.oid.text framed.content

theorem batchObjects_none :
    batchObjects (before ++ rest) before.length result oids = none ↔ OverflowsFrom before.length rest oids := by
  induction oids generalizing before rest result with
  | nil =>
    constructor
    · intro h
      cases h
    · intro ⟨done, oid, later, _, _, _, hoids, _⟩
      exact absurd hoids.symm (append_ne_nil_of_right_ne_nil _ (cons_ne_nil _ _))
  | cons oid oids ih =>
    rw [batchObjects]
    constructor
    · intro h
      split at h
      · next hnone =>
        obtain ⟨sizeText, size, rest', hrest, hsize, hover⟩ := batchObject_none.1 hnone
        exact ⟨[], oid, oids, sizeText, size, rest', rfl, hrest, hsize, hover⟩
      · cases h
      · next content pos hok =>
        obtain ⟨framed, rfl, rfl, rest', hrest, rfl⟩ := batchObject_ok hok
        rw [hrest, ← append_assoc, ← length_append] at h
        obtain ⟨done, oid', later, sizeText, size, rest'', hoids, hrest', hsize, hover⟩ := ih.1 h
        refine ⟨framed :: done, oid', later, sizeText, size, rest'', by rw [hoids]; rfl, ?_, hsize, ?_⟩
        · rw [hrest, hrest', framedBytes_cons, append_assoc]
        · rw [framedBytes_cons, length_append, ← Nat.add_assoc]
          rw [length_append] at hover
          exact hover
    · intro ⟨done, oid', later, sizeText, size, rest', hoids, hrest, hsize, hover⟩
      cases done with
      | nil =>
        cases hoids
        rw [batchObject_none.2 ⟨sizeText, size, rest', hrest, hsize, hover⟩]
      | cons framed done =>
        cases hoids
        rw [framedBytes_cons, append_assoc] at hrest
        subst hrest
        rcases batchObject_framed before (framedBytes done ++ (headerBytes oid' sizeText ++ rest')) framed with h | h
        · rw [h]
        · rw [h]
          rw [← append_assoc, ← length_append]
          refine ih.2 ⟨done, oid', later, sizeText, size, rest', rfl, rfl, hsize, ?_⟩
          rw [framedBytes_cons, length_append, ← Nat.add_assoc] at hover
          rw [length_append]
          exact hover

theorem batchObjects_ok {pos : Nat} {objects : Objects}
    (h : batchObjects (before ++ rest) before.length result oids = some (.ok (pos, objects))) :
    ∃ done : List Framed, done.map Framed.oid = oids ∧ objects = done.foldl insertFramed result ∧
      (∃ rest', rest = framedBytes done ++ rest') ∧ pos = before.length + (framedBytes done).length := by
  induction oids generalizing before rest result with
  | nil =>
    obtain ⟨rfl, rfl⟩ := h
    exact ⟨[], rfl, rfl, ⟨rest, rfl⟩, rfl⟩
  | cons oid oids ih =>
    rw [batchObjects] at h
    split at h
    · cases h
    · cases h
    · next content pos' hok =>
      obtain ⟨framed, rfl, rfl, rest', hrest, rfl⟩ := batchObject_ok hok
      rw [hrest, ← append_assoc, ← length_append] at h
      obtain ⟨done, hoids, hobjects, ⟨rest'', hrest'⟩, hpos⟩ := ih h
      refine ⟨framed :: done, by rw [map_cons, hoids], hobjects, ⟨rest'', ?_⟩, ?_⟩
      · rw [hrest, hrest', framedBytes_cons, append_assoc]
      · rw [hpos, framedBytes_cons, length_append, length_append, Nat.add_assoc]

theorem batchObjects_framed (done : List Framed) (before : Bytes) (result : Objects) :
    batchObjects (before ++ framedBytes done) before.length result (done.map Framed.oid) = none ∨
      batchObjects (before ++ framedBytes done) before.length result (done.map Framed.oid) =
        some (.ok (before.length + (framedBytes done).length, done.foldl insertFramed result)) := by
  induction done generalizing before result with
  | nil => exact .inr rfl
  | cons framed done ih =>
    rw [map_cons, batchObjects, framedBytes_cons]
    rcases batchObject_framed before (framedBytes done) framed with h | h
    · rw [h]
      exact .inl rfl
    · rw [h]
      simp only
      rw [← append_assoc, ← length_append]
      rcases ih (before ++ framed.bytes) (result.insert framed.oid.text framed.content) with h' | h'
      · exact .inl h'
      · right
        rw [h', length_append, length_append, Nat.add_assoc]
        rfl

theorem parse_none : parseCatFileBatch stdout oids = none ↔ Overflows stdout oids := by
  rw [parseCatFileBatch, Option.map_eq_none_iff]
  exact @batchObjects_none stdout [] Table.empty oids

theorem parse_ok {objects : Objects} (h : parseCatFileBatch stdout oids = some (.ok objects)) :
    ∃ done : List Framed, done.map Framed.oid = oids ∧ stdout = framedBytes done ∧
      objects = done.foldl insertFramed Table.empty := by
  obtain ⟨r, hr, h⟩ := Option.map_eq_some_iff.1 h
  cases r with
  | error e => cases h
  | ok r =>
    obtain ⟨pos, result⟩ := r
    obtain ⟨done, hoids, hobjects, ⟨rest, hrest⟩, hpos⟩ := @batchObjects_ok stdout [] Table.empty oids pos result hr
    change (if pos ≠ stdout.length then _ else _) = _ at h
    by_cases hend : pos = stdout.length
    · rw [if_neg fun hne => hne hend, Except.ok.injEq] at h
      have hnil : rest = [] := by
        have hlength := congrArg List.length hrest
        rw [length_append] at hlength
        rw [length_nil] at hpos
        exact eq_nil_of_length_eq_zero (by omega)
      rw [hnil, append_nil] at hrest
      exact ⟨done, hoids, hrest, h ▸ hobjects⟩
    · rw [if_pos hend] at h
      cases h

/-- **The answer for some objects is read back**, or a size in it does not fit. -/
theorem parse_framed (done : List Framed) : parseCatFileBatch (framedBytes done) (done.map Framed.oid) = none ∨
    parseCatFileBatch (framedBytes done) (done.map Framed.oid) = some (.ok (done.foldl insertFramed Table.empty)) := by
  unfold parseCatFileBatch
  rcases batchObjects_framed done [] Table.empty with h | h
  · exact .inl (by rw [nil_append] at h; rw [length_nil] at h; rw [h]; rfl)
  · right
    rw [nil_append, length_nil, Nat.zero_add] at h
    rw [h]
    exact congrArg some (if_neg fun hne => hne rfl)

theorem get_foldl_other (done : List Framed) (result : Objects) (h : oid ∉ done.map Framed.oid) :
    (done.foldl insertFramed result).get oid.text = result.get oid.text := by
  induction done generalizing result with
  | nil => rfl
  | cons other done ih =>
    rw [map_cons, mem_cons, not_or] at h
    rw [foldl_cons, ih _ h.2, insertFramed, Table.get_insert]
    exact if_neg fun heq => h.1 (GitOid.ext_text heq)

theorem get_foldl_framed {done : List Framed} (hdistinct : (done.map Framed.oid).Nodup) {framed : Framed}
    (h : framed ∈ done) (result : Objects) :
    (done.foldl insertFramed result).get framed.oid.text = some framed.content := by
  induction done generalizing result with
  | nil => cases h
  | cons first done ih =>
    rw [map_cons, nodup_cons] at hdistinct
    rw [foldl_cons]
    rcases mem_cons.1 h with rfl | h
    · rw [get_foldl_other done _ hdistinct.1, insertFramed, Table.get_insert_self]
    · exact ih hdistinct.2 h _

/-- An object with its bytes, as many as a `usize` can tell. -/
structure Object where
  oid : GitOid
  content : Bytes
  fits : content.length ≤ USIZE_MAX

def Object.framed (object : Object) : Framed := Framed.of object.oid object.content object.fits

def renderBatch (objects : List Object) : Bytes := framedBytes (objects.map Object.framed)

/-- An answer is read or refused: what is read is framed in it, object by object, and git's own answer is read. -/
def BatchSettled (stdout : Bytes) (oids : List GitOid) : Prop :=
  ∃ answer, parseCatFileBatch stdout oids = some answer ∧
    (∀ result, answer = .ok result → ∃ done : List Framed, done.map Framed.oid = oids ∧ stdout = framedBytes done ∧
      result = done.foldl insertFramed Table.empty) ∧
    ∀ objects : List Object, stdout = renderBatch objects → oids = objects.map Object.oid → oids.Nodup →
      ∃ result, answer = .ok result ∧ ∀ object ∈ objects, result.get object.oid.text = some object.content

/-- **When an answer is settled**: unless a header in it tells a size that reaches past the last `usize`. -/
theorem batchSettled_overflows (stdout : Bytes) (oids : List GitOid) :
    BatchSettled stdout oids ↔ ¬ Overflows stdout oids := by
  constructor
  · intro ⟨answer, hanswer, _⟩ hover
    rw [parse_none.2 hover] at hanswer
    cases hanswer
  · intro hfits
    obtain ⟨answer, hanswer⟩ := Option.ne_none_iff_exists'.1 fun hnone => hfits (parse_none.1 hnone)
    refine ⟨answer, hanswer, ?_, ?_⟩
    · intro result hresult
      rw [hresult] at hanswer
      exact parse_ok hanswer
    · intro objects hstdout hoids hdistinct
      have hmap : (objects.map Object.framed).map Framed.oid = objects.map Object.oid := map_map
      rw [hoids, ← hmap] at hanswer hdistinct
      rw [hstdout, renderBatch] at hanswer
      rcases parse_framed (objects.map Object.framed) with h | h
      · rw [h] at hanswer
        cases hanswer
      · rw [h, Option.some.injEq] at hanswer
        refine ⟨_, hanswer.symm, fun object hobject => ?_⟩
        exact get_foldl_framed hdistinct (mem_map_of_mem hobject) Table.empty

/-- The last `usize`, as a size. -/
def hugeSize : List Char := "18446744073709551615".toList

def zeroOid : GitOid := ⟨"0000000000000000000000000000000000000000", by decide, by decide⟩

theorem huge_size_panics : ¬ BatchSettled (headerBytes zeroOid hugeSize) [zeroOid] := by
  intro ⟨answer, hanswer, _⟩
  have hsize : parseUnsigned USIZE_MAX hugeSize = some USIZE_MAX := by decide +kernel
  have hpos : 0 < (headerBytes zeroOid hugeSize).length := by
    exact Nat.succ_pos _
  have hnone : parseCatFileBatch (headerBytes zeroOid hugeSize) [zeroOid] = none := by
    refine parse_none.2 ⟨[], zeroOid, [], hugeSize, USIZE_MAX, [], rfl, (append_nil _).symm, hsize, ?_⟩
    omega
  cases hanswer

end Git
end Yuzora
