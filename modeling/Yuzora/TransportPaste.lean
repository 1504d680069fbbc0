import Yuzora.Transport
/-!
# TransportPaste — what is left of a pasted text

No paste delimiter is left (`payload_clean`), and what was taken out is delimiters, one at a time: two halves that come
together as one is taken out are a further one (`payload_stripped`).
-/
namespace Yuzora
namespace Transport

open List
open Utf16 (Text points flatten_points points_shape isHigh isLow)

def Delimiter (d : Text) : Prop := d = PASTE_START ∨ d = PASTE_END

/-- The characters of one delimiter are taken out. -/
inductive Removal : Text → Text → Prop
  | one (before d after : Text) : Delimiter d → Removal (before ++ d ++ after) (before ++ after)

/-- **Only delimiters are taken out**, as often as there is one. -/
def Stripped : Text → Text → Prop := Relation.ReflTransGen Removal

variable (text : Text)

def Clean : Prop := ∀ d, Delimiter d → ¬d <:+: text

def Shape (p : Text) : Prop := (∃ c, p = [c]) ∨ ∃ high low, p = [high, low] ∧ isHigh high = true ∧ isLow low = true

section Delimiters

variable {d : Text}

theorem Delimiter.ends (h : Delimiter d) : ∃ d', d = d' ++ [0x7e] := by
  rcases h with rfl | rfl
  · exact ⟨[0x1b, 0x5b, 0x32, 0x30, 0x30], rfl⟩
  · exact ⟨[0x1b, 0x5b, 0x32, 0x30, 0x31], rfl⟩

theorem Delimiter.length (h : Delimiter d) : d.length = 6 := by
  rcases h with rfl | rfl <;> rfl

theorem Delimiter.escape (h : Delimiter d) : 0x1b ∈ d := by
  rcases h with rfl | rfl <;> decide

theorem Delimiter.plain (h : Delimiter d) : ∀ c ∈ d, isHigh c = false ∧ isLow c = false := by
  rcases h with rfl | rfl <;> decide

theorem flatten_singles (l : Text) : (l.map fun c => [c]).flatten = l := by
  induction l with
  | nil => rfl
  | cons c l ih => simp [ih]

end Delimiters

theorem split_of_suffix : ∀ (d : Text) {kept : List Text}, (∀ p ∈ kept, Shape p) →
    (∀ c ∈ d, isHigh c = false ∧ isLow c = false) → d <:+ kept.flatten → ∃ front, kept = front ++ d.map fun c => [c] := by
  intro d
  induction d using List.reverseRecOn with
  | nil => exact fun {kept} _ _ _ => ⟨kept, by simp⟩
  | append_singleton d c ih =>
    intro kept hkept hplain hsuffix
    rcases eq_nil_or_concat kept with rfl | ⟨front, p, rfl⟩
    · have hlen := hsuffix.length_le
      simp at hlen
    · rw [concat_eq_append] at hkept hsuffix ⊢
      rw [flatten_append, flatten_singleton] at hsuffix
      have hc := hplain c (by simp)
      rcases hkept p (by simp) with ⟨x, rfl⟩ | ⟨high, low, rfl, -, hlow⟩
      · obtain ⟨pre, hpre⟩ := hsuffix
        rw [← append_assoc] at hpre
        obtain ⟨hd, hx⟩ := append_inj' hpre rfl
        obtain rfl := head_eq_of_cons_eq hx
        obtain ⟨front', rfl⟩ := ih (fun q hq => hkept q (by simp [hq])) (fun q hq => hplain q (by simp [hq])) ⟨pre, hd⟩
        exact ⟨front', by simp⟩
      · obtain ⟨pre, hpre⟩ := hsuffix
        have hsplit : pre ++ d ++ [c] = front.flatten ++ [high] ++ [low] := by simpa using hpre
        obtain ⟨-, hx⟩ := append_inj' hsplit rfl
        obtain rfl := head_eq_of_cons_eq hx
        rw [hc.2] at hlow
        cases hlow

theorem infix_of_concat {d l : Text} {c : Nat} (hd : Delimiter d) (h : d <:+: l ++ [c]) :
    d <:+: l ∨ c = 0x7e ∧ d <:+ l ++ [c] := by
  rcases infix_concat_iff.1 h with h | h
  · refine .inr ⟨?_, h⟩
    obtain ⟨d', rfl⟩ := hd.ends
    obtain ⟨pre, hpre⟩ := h
    rw [← append_assoc] at hpre
    exact (head_eq_of_cons_eq (append_inj' hpre rfl).2).symm
  · exact .inl h

theorem clean_surrogates {l : Text} {high low : Nat} (h : Clean l) (hhigh : isHigh high = true) (hlow : isLow low = true) :
    Clean (l ++ [high, low]) := by
  intro d hd hin
  rw [show l ++ [high, low] = (l ++ [high]) ++ [low] by simp] at hin
  rcases infix_of_concat hd hin with hin | ⟨rfl, -⟩
  · rcases infix_of_concat hd hin with hin | ⟨rfl, -⟩
    · exact h d hd hin
    · revert hhigh
      decide
  · revert hlow
    decide

/-! ## What is kept -/

/-- **The stack holds no delimiter, and lacks nothing else.** -/
structure Kept (text : Text) (kept : List Text) : Prop where
  stripped : Stripped text kept.flatten
  clean : Clean kept.flatten
  shape : ∀ p ∈ kept, Shape p

theorem Stripped.append {a b : Text} (h : Stripped a b) (c : Text) : Stripped (a ++ c) (b ++ c) := by
  refine h.lift (· ++ c) fun x y hxy => ?_
  obtain ⟨before, d, after, hd⟩ := hxy
  have hremoval := Removal.one before d (after ++ c) hd
  simpa only [Function.onFun, append_assoc] using hremoval

theorem kept_keep {text char : Text} {kept : List Text} (h : Kept text kept) (hc : Shape char) :
    Kept (text ++ char) (keep kept char) := by
  have hstripped : Stripped (text ++ char) (kept ++ [char]).flatten := by
    simpa using h.stripped.append char
  have hshape : ∀ p ∈ kept ++ [char], Shape p := by
    intro p hp
    rcases mem_append.1 hp with hp | hp
    · exact h.shape p hp
    · exact mem_singleton.1 hp ▸ hc
  -- It stays clean unless a delimiter ends with the character.
  have hclean : (∀ d, Delimiter d → ¬d <:+ (kept ++ [char]).flatten) → Clean (kept ++ [char]).flatten := by
    intro hend d hd hin
    rw [flatten_append, flatten_singleton] at hin
    rcases hc with ⟨c, rfl⟩ | ⟨high, low, rfl, hhigh, hlow⟩
    · rcases infix_of_concat hd hin with hin | ⟨-, hin⟩
      · exact h.clean d hd hin
      · exact hend d hd (by simpa using hin)
    · exact clean_surrogates h.clean hhigh hlow d hd hin
  -- A delimiter that ends with the character is the last six.
  have hlast : ∀ d, Delimiter d → d <:+ (kept ++ [char]).flatten →
      char = [0x7e] ∧ ¬(kept ++ [char]).length < 6 ∧ ((kept ++ [char]).drop ((kept ++ [char]).length - 6)).flatten = d := by
    intro d hd hin
    obtain ⟨front, hfront⟩ := split_of_suffix d hshape hd.plain hin
    have hlen : (d.map fun c => [c]).length = 6 := by rw [length_map, hd.length]
    refine ⟨?_, ?_, ?_⟩
    · obtain ⟨d', rfl⟩ := hd.ends
      rw [map_append, ← append_assoc] at hfront
      exact head_eq_of_cons_eq (append_inj' hfront rfl).2
    · rw [hfront, length_append, hlen]
      omega
    · rw [hfront, length_append, hlen, Nat.add_sub_cancel, drop_left, flatten_singles]
  unfold keep
  simp only
  split
  · rename_i hplain
    refine ⟨hstripped, hclean fun d hd hin => ?_, hshape⟩
    obtain ⟨hchar, hlength, -⟩ := hlast d hd hin
    rcases hplain with hplain | hplain
    · exact hplain hchar
    · exact hlength hplain
  · rename_i hlong
    split
    · rename_i htail
      have hsplit : (kept ++ [char]).flatten =
          ((kept ++ [char]).take ((kept ++ [char]).length - 6)).flatten ++
            ((kept ++ [char]).drop ((kept ++ [char]).length - 6)).flatten := by
        rw [← flatten_append, take_append_drop]
      have hle : (kept ++ [char]).length - 6 ≤ kept.length := by
        rw [length_append, length_singleton]
        omega
      have htake : (kept ++ [char]).take ((kept ++ [char]).length - 6) = kept.take ((kept ++ [char]).length - 6) :=
        take_append_of_le_length hle
      have hremoval := Removal.one ((kept ++ [char]).take ((kept ++ [char]).length - 6)).flatten _ [] htail
      rw [← hsplit, append_nil, append_nil] at hremoval
      refine ⟨hstripped.tail hremoval, ?_, fun p hp => hshape p (mem_of_mem_take hp)⟩
      rw [htake]
      intro d hd hin
      refine h.clean d hd (hin.trans ?_)
      refine ⟨[], (kept.drop ((kept ++ [char]).length - 6)).flatten, ?_⟩
      rw [nil_append, ← flatten_append, take_append_drop]
    · rename_i htail
      refine ⟨hstripped, hclean fun d hd hin => htail ?_, hshape⟩
      obtain ⟨-, -, hd'⟩ := hlast d hd hin
      exact hd' ▸ hd

theorem kept_foldl : ∀ (chars : List Text) {text : Text} {kept : List Text}, Kept text kept → (∀ p ∈ chars, Shape p) →
    Kept (text ++ chars.flatten) (chars.foldl keep kept)
  | [], text, kept, h, _ => by simpa using h
  | char :: chars, text, kept, h, hchars => by
    have hstep := kept_keep h (hchars char (mem_cons_self ..))
    have hrest := kept_foldl chars hstep fun p hp => hchars p (mem_cons_of_mem _ hp)
    simpa using hrest

theorem kept_points : Kept text ((points text).foldl keep []) := by
  have hnone : Kept [] [] :=
    ⟨.refl, fun d hd hin => (by rcases hd with rfl | rfl <;> simp [PASTE_START, PASTE_END] at hin), fun p hp => (by cases hp)⟩
  have hall := kept_foldl (points text) hnone (points_shape text)
  rwa [flatten_points, nil_append] at hall

theorem strip_kept : Stripped text (stripPasteDelimiters text) ∧ Clean (stripPasteDelimiters text) := by
  unfold stripPasteDelimiters
  split
  · exact ⟨(kept_points text).stripped, (kept_points text).clean⟩
  · rename_i hno
    refine ⟨.refl, fun d hd hin => hno ?_⟩
    simpa using hin.subset hd.escape

/-- **No delimiter is left in a paste.** -/
theorem payload_clean : Clean (payload text) := (strip_kept _).2

/-- **What a paste lacks of the text is delimiters.** -/
theorem payload_stripped : Stripped (lineEnds text) (payload text) := (strip_kept _).1

example : payload [0x61, 0x1b, 0x5b, 0x32, 0x1b, 0x5b, 0x32, 0x30, 0x31, 0x7e, 0x30, 0x31, 0x7e, 0x0d, 0x0a] = [0x61, 0x0a] := by
  decide

end Transport
end Yuzora
