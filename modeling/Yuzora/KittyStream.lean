import Yuzora.Table
import Yuzora.Utf16
/-!
# KittyStream — graphics sequences in the terminal output

The parser keeps back what may be the beginning of a sequence, and a sequence that is not complete.  How the output is cut
into chunks makes a difference in one place only, the size limit: a chunk that ends between the two characters of a
terminator counts the first of them (`feed_agrees`).
-/
namespace Yuzora
namespace Kitty

open List Option
open Utf16 (Text)

/-! ## Searching -/

/-- `String.prototype.indexOf` -/
def indexOf (pat : Text) : Text → Option Nat
  | [] => if pat = [] then some 0 else none
  | c :: rest => if pat <+: c :: rest then some 0 else (indexOf pat rest).map (· + 1)

/-- `pat` stands at `i`. -/
def At (pat text : Text) (i : Nat) : Prop := pat <+: text.drop i

section Search
variable {pat text : Text} {i : Nat} {before : Text}

theorem indexOf_at (h : indexOf pat text = some i) : At pat text i := by
  induction text generalizing i with
  | nil =>
    by_cases hp : pat = []
    · simp [At, hp]
    · simp [indexOf, hp] at h
  | cons c rest ih =>
    rw [indexOf] at h
    by_cases hp : pat <+: c :: rest
    · rw [if_pos hp] at h
      cases h
      exact hp
    · rw [if_neg hp] at h
      obtain ⟨j, hj, rfl⟩ := map_eq_some_iff.1 h
      exact ih hj

theorem indexOf_least (h : indexOf pat text = some i) : ∀ j < i, ¬ At pat text j := by
  induction text generalizing i with
  | nil =>
    by_cases hp : pat = []
    · simp [indexOf, hp] at h
      omega
    · simp [indexOf, hp] at h
  | cons c rest ih =>
    rw [indexOf] at h
    by_cases hp : pat <+: c :: rest
    · rw [if_pos hp] at h
      cases h
      intro j hj
      omega
    · rw [if_neg hp] at h
      obtain ⟨k, hk, rfl⟩ := map_eq_some_iff.1 h
      intro j hj
      cases j with
      | zero => exact hp
      | succ j => exact ih hk j (by omega)

theorem indexOf_none (h : indexOf pat text = none) : ∀ j, ¬ At pat text j := by
  induction text with
  | nil =>
    intro j hj
    by_cases hp : pat = []
    · simp [indexOf, hp] at h
    · rw [At, drop_nil] at hj
      exact hp (prefix_nil.1 hj)
  | cons c rest ih =>
    rw [indexOf] at h
    by_cases hp : pat <+: c :: rest
    · rw [if_pos hp] at h
      cases h
    · rw [if_neg hp] at h
      intro j hj
      cases j with
      | zero => exact hp hj
      | succ j => exact ih (map_eq_none_iff.1 h) j hj

/-- **The index is the first place.** -/
theorem indexOf_eq_some : indexOf pat text = some i ↔ At pat text i ∧ ∀ j < i, ¬ At pat text j := by
  refine ⟨fun h => ⟨indexOf_at h, indexOf_least h⟩, fun ⟨hat, hleast⟩ => ?_⟩
  cases h : indexOf pat text with
  | none => exact absurd hat (indexOf_none h i)
  | some k =>
    have h1 : ¬ k < i := fun hk => hleast k hk (indexOf_at h)
    have h2 : ¬ i < k := fun hi => indexOf_least h i hi hat
    rw [show k = i by omega]

theorem At.length_le (h : At pat text i) : i + pat.length ≤ text.length ∨ pat = [] := by
  have := List.IsPrefix.length_le (show pat <+: text.drop i from h)
  rw [length_drop] at this
  by_cases hp : pat = []
  · exact .inr hp
  · have := length_pos_iff.2 hp
    exact .inl (by omega)

theorem At.append (h : At pat text i) (more : Text) : At pat (text ++ more) i := by
  by_cases hi : i ≤ text.length
  · rw [At, drop_append_of_le_length hi]
    exact h.trans (prefix_append ..)
  · rw [At, drop_eq_nil_of_le (by omega)] at h
    rw [At, prefix_nil.1 h]
    exact nil_prefix

theorem at_of_append {more : Text} (h : At pat (text ++ more) i) (hi : i + pat.length ≤ text.length) : At pat text i := by
  rw [At, drop_append_of_le_length (by omega)] at h
  exact prefix_of_prefix_length_le h (prefix_append ..) (by rw [length_drop]; omega)

theorem at_append_right : At pat (before ++ text) (before.length + i) ↔ At pat text i := by
  rw [At, At, drop_append, drop_eq_nil_of_le (by omega), nil_append, Nat.add_sub_cancel_left]

theorem indexOf_append (h : indexOf pat text = some i) (hp : pat ≠ []) (more : Text) :
    indexOf pat (text ++ more) = some i := by
  have hlen := (indexOf_at h).length_le.resolve_right hp
  refine indexOf_eq_some.2 ⟨(indexOf_at h).append more,
    fun j hj hat => indexOf_least h j hj (at_of_append hat (by omega))⟩

theorem indexOf_reaches {more : Text} (h : indexOf pat text = none) (h' : indexOf pat (text ++ more) = some i) :
    text.length < i + pat.length := by
  by_contra hi
  exact indexOf_none h i (at_of_append (indexOf_at h') (by omega))

theorem indexOf_shift (h : ∀ j < before.length, ¬ At pat (before ++ text) j) :
    indexOf pat (before ++ text) = (indexOf pat text).map (· + before.length) := by
  cases hi : indexOf pat text with
  | none =>
    cases hj : indexOf pat (before ++ text) with
    | none => rfl
    | some j =>
      have hat := indexOf_at hj
      by_cases hlt : j < before.length
      · exact absurd hat (h j hlt)
      · rw [show j = before.length + (j - before.length) by omega, at_append_right] at hat
        exact absurd hat (indexOf_none hi _)
  | some i =>
    show _ = some (i + before.length)
    refine indexOf_eq_some.2 ⟨?_, fun j hj hat => ?_⟩
    · rw [Nat.add_comm]
      exact at_append_right.2 (indexOf_at hi)
    · by_cases hlt : j < before.length
      · exact h j hlt hat
      · rw [show j = before.length + (j - before.length) by omega, at_append_right] at hat
        exact indexOf_least hi _ (by omega) hat

end Search

/-! ## The parser -/

inductive KittyToken
  | text (text : Text)
  | graphics (control : Table Nat Text) (payload : Text)

def MAX_SEQUENCE : Nat := 64 * 1024

/-- `ESC _ G` -/
def marker : Text := [27, 95, 71]

/-- `ESC \` -/
def terminator : Text := [27, 92]

def isLetter (unit : Nat) : Bool := decide ((65 ≤ unit ∧ unit ≤ 90) ∨ (97 ≤ unit ∧ unit ≤ 122))

/-- The fields of a header, those that are a letter with a value. -/
def controlOf (header : Text) : Table Nat Text :=
  (header.splitOn 44).foldl (fun control field =>
    match field.splitOn 61 with
    | [key] :: value :: _ => if isLetter key then control.insert key value else control
    | _ => control) Table.empty

def graphicsOf (sequence : Text) : KittyToken :=
  match indexOf [59] sequence with
  | none => .graphics (controlOf sequence) []
  | some delimiter => .graphics (controlOf (sequence.take delimiter)) (sequence.drop (delimiter + 1))

def keepOf (pending : Text) : Nat :=
  if [27, 95] <:+ pending then 2 else if [27] <:+ pending then 1 else 0

variable (body : Text)

def textTokens : List KittyToken := if body = [] then [] else [.text body]

def SIZE_ERROR : String := "Kitty sequence exceeds the inline chunk limit"

def endOf (sequence : Text) : Option Nat := (indexOf terminator (sequence.drop 3)).map (· + 3)

/-- The loop of `feed`: the tokens, and what stays pending. -/
def scan (pending : Text) : Except String (List KittyToken × Text) :=
  if _hpending : pending = [] then .ok ([], [])
  else
    match indexOf marker pending with
    | none =>
      let body := pending.length - keepOf pending
      .ok (textTokens (pending.take body), pending.drop body)
    | some start =>
      let rest := pending.drop start
      if (endOf rest).getD rest.length > MAX_SEQUENCE then .error SIZE_ERROR
      else
        match endOf rest with
        | none => .ok (textTokens (pending.take start), rest)
        | some «end» =>
          match scan (rest.drop («end» + 2)) with
          | .error e => .error e
          | .ok (tokens, tail) =>
            .ok (textTokens (pending.take start) ++ graphicsOf ((rest.take «end»).drop 3) :: tokens, tail)
termination_by pending.length
decreasing_by
  have := List.length_pos_iff.2 _hpending
  simp only [List.length_drop]
  omega

structure KittyStreamParser where
  pending : Text

def KittyStreamParser.feed (self : KittyStreamParser) (text : Text) :
    Except String (List KittyToken × KittyStreamParser) :=
  (scan (self.pending ++ text)).map fun out => (out.1, ⟨out.2⟩)

def KittyStreamParser.feedAll (self : KittyStreamParser) : List Text → Except String (List KittyToken × KittyStreamParser)
  | [] => .ok ([], self)
  | chunk :: chunks =>
    match self.feed chunk with
    | .error e => .error e
    | .ok (tokens, next) => (next.feedAll chunks).map fun out => (tokens ++ out.1, out.2)

def KittyStreamParser.new : KittyStreamParser := ⟨[]⟩

/-! ## The characters one by one -/

/-- A character of the text, or what stands between a marker and its terminator. -/
inductive Item
  | unit (unit : Nat)
  | sequence (body : Text)

/-- The text from its beginning, one item after the other, and what may be the beginning of a sequence or is one that does
not end. -/
def lex (text : Text) : List Item × Text :=
  match text with
  | [] => ([], [])
  | c :: rest =>
    if marker <+: c :: rest then
      match endOf (c :: rest) with
      | none => ([], c :: rest)
      | some «end» =>
        let more := lex ((c :: rest).drop («end» + 2))
        (.sequence (((c :: rest).take «end»).drop 3) :: more.1, more.2)
    else if c :: rest <+: marker then ([], c :: rest)
    else
      let more := lex rest
      (.unit c :: more.1, more.2)
termination_by text.length
decreasing_by
  · simp only [List.length_drop, List.length_cons]
    omega
  · simp only [List.length_cons]
    omega

def Item.width : Item → Nat
  | .unit _ => 1
  | .sequence body => body.length + 5

def width (items : List Item) : Nat := (items.map Item.width).sum

def tokenOf : Item → KittyToken
  | .unit c => .text [c]
  | .sequence body => graphicsOf body

def joinCons : KittyToken → List KittyToken → List KittyToken
  | .text a, .text b :: rest => .text (a ++ b) :: rest
  | token, rest => token :: rest

variable (tokens : List KittyToken)

def joinText : List KittyToken := tokens.foldr joinCons []

variable (text : Text)

def TooLong : Prop :=
  (∃ body, .sequence body ∈ (lex text).1 ∧ body.length + 3 > MAX_SEQUENCE) ∨
    (marker <+: (lex text).2 ∧ (lex text).2.length > MAX_SEQUENCE)

section Lex
variable {text : Text} {e : Nat}

theorem lex_nil : lex [] = ([], []) := by
  rw [lex]

theorem lex_unit {c : Nat} {rest : Text} (h : ¬ marker <+: c :: rest) (h' : ¬ c :: rest <+: marker) :
    lex (c :: rest) = (.unit c :: (lex rest).1, (lex rest).2) := by
  rw [lex, if_neg h, if_neg h']

theorem lex_waits (h : text <+: marker) (h' : ¬ marker <+: text) : lex text = ([], text) := by
  cases text with
  | nil => exact lex_nil
  | cons c rest => rw [lex, if_neg h', if_pos h]

theorem lex_open (h : marker <+: text) (hend : endOf text = none) : lex text = ([], text) := by
  cases text with
  | nil => exact lex_nil
  | cons c rest =>
    rw [lex, if_pos h]
    simp only [hend]

theorem lex_sequence (h : marker <+: text) (hend : endOf text = some e) :
    lex text = (.sequence ((text.take e).drop 3) :: (lex (text.drop (e + 2))).1, (lex (text.drop (e + 2))).2) := by
  cases text with
  | nil => exact absurd (List.IsPrefix.length_le h) (by decide)
  | cons c rest =>
    rw [lex, if_pos h]
    simp only [hend]

theorem endOf_bounds (hend : endOf text = some e) : 3 ≤ e ∧ e + 2 ≤ text.length := by
  obtain ⟨i, hi, rfl⟩ := map_eq_some_iff.1 hend
  have := (indexOf_at hi).length_le.resolve_right (by decide)
  rw [length_drop, show terminator.length = 2 from rfl] at this
  omega

theorem endOf_append (hend : endOf text = some e) (more : Text) : endOf (text ++ more) = some e := by
  have hb := endOf_bounds hend
  obtain ⟨i, hi, rfl⟩ := map_eq_some_iff.1 hend
  rw [endOf, drop_append_of_le_length (by omega), indexOf_append hi (by decide)]
  rfl

theorem endOf_reaches {more : Text} (h : endOf text = none) (h' : endOf (text ++ more) = some e)
    (hlen : 3 ≤ text.length) : text.length < e + 2 := by
  obtain ⟨i, hi, rfl⟩ := map_eq_some_iff.1 h'
  rw [drop_append_of_le_length (by omega)] at hi
  have := indexOf_reaches (map_eq_none_iff.1 h) hi
  rw [length_drop, show terminator.length = 2 from rfl] at this
  omega

theorem lex_tail (text : Text) :
    ((lex text).2 <+: marker ∧ ¬ marker <+: (lex text).2) ∨ (marker <+: (lex text).2 ∧ endOf (lex text).2 = none) := by
  fun_induction lex text with
  | case1 => exact .inl ⟨List.nil_prefix, by decide⟩
  | case2 c rest h hend => exact .inr ⟨h, hend⟩
  | case3 _ _ _ _ _ _ ih | case5 _ _ _ _ _ ih => exact ih
  | case4 c rest h h' => exact .inl ⟨h', h⟩

theorem lex_units {before rest : Text}
    (h : ∀ j < before.length, ¬ At marker (before ++ rest) j ∧ ¬ (before ++ rest).drop j <+: marker) :
    lex (before ++ rest) = (before.map .unit ++ (lex rest).1, (lex rest).2) := by
  induction before with
  | nil => rfl
  | cons c before ih =>
    have h0 : ¬ marker <+: c :: (before ++ rest) ∧ ¬ c :: (before ++ rest) <+: marker := h 0 (by simp)
    rw [cons_append, lex_unit h0.1 h0.2, ih]
    · rfl
    · intro j hj
      exact h (j + 1) (by simpa using hj)

/-- **What is read of the beginning of a text is read of the text; the rest goes on from what waits.** -/
theorem lex_append (text more : Text) :
    lex (text ++ more) = ((lex text).1 ++ (lex ((lex text).2 ++ more)).1, (lex ((lex text).2 ++ more)).2) := by
  fun_induction lex text with
  | case1 | case2 => rfl
  | case3 c rest h e hend next ih =>
    have hb := endOf_bounds hend
    rw [lex_sequence (h.trans (prefix_append ..)) (endOf_append hend more),
      take_append_of_le_length (by omega), drop_append_of_le_length hb.2, ih]
    rfl
  | case4 c rest h h' => rfl
  | case5 c rest h h' next ih =>
    have h1 : ¬ marker <+: c :: (rest ++ more) := fun hm =>
      (List.prefix_or_prefix_of_prefix hm (prefix_append (c :: rest) more)).elim h h'
    have h2 : ¬ c :: (rest ++ more) <+: marker := fun hm => h' ((prefix_append (c :: rest) more).trans hm)
    rw [cons_append, lex_unit h1 h2, ih]
    rfl

theorem width_append (a b : List Item) : width (a ++ b) = width a + width b := by
  rw [width, width, width, map_append, sum_append]

theorem lex_width (text : Text) : width (lex text).1 + (lex text).2.length = text.length := by
  fun_induction lex text with
  | case1 => rfl
  | case2 | case4 => exact Nat.zero_add _
  | case3 c rest h e hend next ih =>
    have hb := endOf_bounds hend
    have hwidth : width (.sequence (((c :: rest).take e).drop 3) :: (lex ((c :: rest).drop (e + 2))).1) =
        e - 3 + 5 + width (lex ((c :: rest).drop (e + 2))).1 := by
      rw [width, map_cons, sum_cons, Item.width, length_drop, length_take, Nat.min_eq_left (by omega)]
      rfl
    rw [length_drop] at ih
    show _ + (lex ((c :: rest).drop (e + 2))).2.length = _
    rw [hwidth]
    omega
  | case5 c rest h h' next ih =>
    have hwidth : width (.unit c :: (lex rest).1) = 1 + width (lex rest).1 := rfl
    show _ + (lex rest).2.length = _
    rw [hwidth, length_cons]
    omega

end Lex

/-! ## The parser reads the characters -/

theorem joinCons_append (a b : Text) (tokens : List KittyToken) :
    joinCons (.text (a ++ b)) tokens = joinCons (.text a) (joinCons (.text b) tokens) := by
  cases tokens with
  | nil => rfl
  | cons token rest =>
    cases token with
    | text c => exact congrArg (fun t => KittyToken.text t :: rest) (append_assoc a b c)
    | graphics => rfl

def Same (items : List Item) : Prop :=
  ∀ after, tokens.foldr joinCons after = (items.map tokenOf).foldr joinCons after

theorem Same.nil : Same [] [] := fun _ => rfl

variable {a b : List KittyToken}

theorem Same.append {x y : List Item} (ha : Same a x) (hb : Same b y) : Same (a ++ b) (x ++ y) := by
  intro after
  rw [foldr_append, map_append, foldr_append, hb after, ha]

theorem same_sequence : Same [graphicsOf body] [.sequence body] := fun _ => rfl

theorem same_textTokens : Same (textTokens body) (body.map .unit) := by
  intro after
  induction body with
  | nil => rfl
  | cons c rest ih =>
    by_cases hrest : rest = []
    · subst hrest
      rfl
    · have hne : c :: rest ≠ [] := by simp
      rw [textTokens, if_neg hrest] at ih
      show _ = joinCons (.text [c]) (((rest.map Item.unit).map tokenOf).foldr joinCons after)
      rw [← ih]
      exact joinCons_append [c] rest after

/-- What the loop gives: the error when a sequence is too long, else the items. -/
def Reads : Prop :=
  (TooLong text ∧ scan text = .error SIZE_ERROR) ∨
    (¬ TooLong text ∧ ∃ tokens, scan text = .ok (tokens, (lex text).2) ∧ Same tokens (lex text).1)

section Scan
variable {pending : Text}

theorem kept_waits (pending : Text) : (pending.drop (pending.length - keepOf pending)) <+: marker ∧
    ¬ marker <+: (pending.drop (pending.length - keepOf pending)) := by
  rw [keepOf]
  by_cases h2 : [27, 95] <:+ pending
  · obtain ⟨before, rfl⟩ := h2
    simp [marker]
  · rw [if_neg h2]
    by_cases h1 : [27] <:+ pending
    · obtain ⟨before, rfl⟩ := h1
      simp [marker]
    · rw [if_neg h1]
      simp [marker]

theorem waits_cases {rest : Text} (h : rest <+: marker) (hne : ¬ marker <+: rest) :
    rest = [] ∨ rest = [27] ∨ rest = [27, 95] := by
  obtain ⟨n, hn, hrest⟩ : ∃ n, n ≤ 3 ∧ rest = marker.take n := ⟨rest.length, h.length_le, prefix_iff_eq_take.1 h⟩
  rcases n with _ | _ | _ | _ | n
  · exact .inl hrest
  · exact .inr (.inl hrest)
  · exact .inr (.inr hrest)
  · exact absurd (hrest ▸ prefix_refl _) hne
  · omega

theorem keepOf_reaches {j : Nat} (hj : j < pending.length) (h : pending.drop j <+: marker) (hne : ¬ At marker pending j) :
    pending.length ≤ j + keepOf pending := by
  have hsuffix : pending.drop j <:+ pending := drop_suffix ..
  have hlen : (pending.drop j).length = pending.length - j := length_drop ..
  rw [keepOf]
  rcases waits_cases h hne with h0 | h1 | h2
  · simp [h0] at hlen
    omega
  · rw [h1] at hsuffix hlen
    rw [if_pos hsuffix]
    simp only [length_singleton] at hlen
    by_cases h2 : [27, 95] <:+ pending
    · rw [if_pos h2]
      omega
    · rw [if_neg h2]
      omega
  · rw [h2] at hsuffix hlen
    rw [if_pos hsuffix]
    simp only [length_cons, length_nil] at hlen
    omega

theorem lex_none (h : indexOf marker pending = none) :
    lex pending = ((pending.take (pending.length - keepOf pending)).map .unit,
      pending.drop (pending.length - keepOf pending)) := by
  have hwaits := kept_waits pending
  have hunits := @lex_units (pending.take (pending.length - keepOf pending))
    (pending.drop (pending.length - keepOf pending)) (fun j hj => by
      rw [take_append_drop]
      rw [length_take] at hj
      refine ⟨indexOf_none h j, fun hm => ?_⟩
      have := keepOf_reaches (by omega) hm (indexOf_none h j)
      omega)
  rw [take_append_drop, lex_waits hwaits.1 hwaits.2, append_nil] at hunits
  exact hunits

theorem lex_some {start : Nat} (h : indexOf marker pending = some start) :
    lex pending = ((pending.take start).map .unit ++ (lex (pending.drop start)).1, (lex (pending.drop start)).2) := by
  have hlen := (indexOf_at h).length_le.resolve_right (by decide)
  rw [show marker.length = 3 from rfl] at hlen
  have hunits := @lex_units (pending.take start) (pending.drop start) (fun j hj => by
    rw [take_append_drop]
    rw [length_take] at hj
    refine ⟨indexOf_least h j (by omega), fun hm => ?_⟩
    have := hm.length_le
    rw [length_drop, show marker.length = 3 from rfl] at this
    omega)
  rwa [take_append_drop] at hunits

end Scan

/-! ## The size limit -/

section Limit
variable {text : Text} {units : Text}

theorem units_no_sequence {items : List Item} {body : Text} :
    .sequence body ∈ units.map Item.unit ++ items ↔ .sequence body ∈ items := by
  simp

theorem tooLong_units {rest : Text} (h : lex text = (units.map .unit ++ (lex rest).1, (lex rest).2)) :
    TooLong text ↔ TooLong rest := by
  simp only [TooLong, h, units_no_sequence]

theorem tooLong_waits
    (h : lex text = ((text.take (text.length - keepOf text)).map .unit, text.drop (text.length - keepOf text))) :
    ¬ TooLong text := by
  rintro (⟨body, hmem, -⟩ | ⟨hm, -⟩)
  · rw [h] at hmem
    obtain ⟨_, _, heq⟩ := mem_map.1 hmem
    cases heq
  · rw [h] at hm
    exact (kept_waits text).2 hm

theorem tooLong_open (h : marker <+: text) (hend : endOf text = none) : TooLong text ↔ text.length > MAX_SEQUENCE := by
  rw [TooLong, lex_open h hend]
  simp [h]

theorem tooLong_sequence {e : Nat} (h : marker <+: text) (hend : endOf text = some e) :
    TooLong text ↔ e > MAX_SEQUENCE ∨ TooLong (text.drop (e + 2)) := by
  have hb := endOf_bounds hend
  have hbody : ((text.take e).drop 3).length + 3 = e := by
    rw [length_drop, length_take, Nat.min_eq_left (by omega)]
    omega
  simp only [TooLong, lex_sequence h hend, mem_cons, Item.sequence.injEq]
  constructor
  · rintro (⟨body, rfl | hmem, hlong⟩ | htail)
    · exact .inl (hbody ▸ hlong)
    · exact .inr (.inl ⟨body, hmem, hlong⟩)
    · exact .inr (.inr htail)
  · rintro (hlong | ⟨body, hmem, hlong⟩ | htail)
    · exact .inl ⟨_, .inl rfl, by rw [hbody]; exact hlong⟩
    · exact .inl ⟨body, .inr hmem, hlong⟩
    · exact .inr htail

/-- **The loop reads the items and tests their lengths.** -/
theorem scan_reads (text : Text) : Reads text := by
  induction hn : text.length using Nat.strongRecOn generalizing text with
  | _ n ih =>
  subst hn
  by_cases hnil : text = []
  · subst hnil
    refine .inr ⟨?_, [], ?_, ?_⟩
    · simp [TooLong, lex_nil, marker]
    · rw [scan, lex_nil]
      rfl
    · rw [lex_nil]
      exact Same.nil
  cases hm : indexOf marker text with
  | none =>
    have hlex := lex_none hm
    refine .inr ⟨tooLong_waits hlex, textTokens (text.take (text.length - keepOf text)), ?_, ?_⟩
    · rw [scan, dif_neg hnil, hlex]
      simp only [hm]
    · rw [hlex]
      exact same_textTokens _
  | some start =>
    have hlex := lex_some hm
    have hat : marker <+: text.drop start := indexOf_at hm
    rw [Reads, tooLong_units hlex, scan, dif_neg hnil]
    simp only [hm]
    cases hend : endOf (text.drop start) with
    | none =>
      rw [tooLong_open hat hend, hlex, lex_open hat hend]
      by_cases hlong : (text.drop start).length > MAX_SEQUENCE
      · exact .inl ⟨hlong, if_pos hlong⟩
      · exact .inr ⟨hlong, _, if_neg hlong, by rw [append_nil]; exact same_textTokens _⟩
    | some e =>
      rw [tooLong_sequence hat hend, hlex, lex_sequence hat hend]
      by_cases hlong : e > MAX_SEQUENCE
      · exact .inl ⟨.inl hlong, if_pos hlong⟩
      have hshort : ¬ (some e).getD (text.drop start).length > MAX_SEQUENCE := hlong
      have hless : ((text.drop start).drop (e + 2)).length < text.length := by
        have := length_pos_iff.2 hnil
        rw [length_drop, length_drop]
        omega
      rw [if_neg hshort]
      rcases ih _ hless _ rfl with ⟨hrest, herr⟩ | ⟨hrest, tokens, hok, hsame⟩
      · exact .inl ⟨.inr hrest, by simp only [herr]⟩
      · refine .inr ⟨fun h => h.elim hlong hrest, _, by simp only [hok]; rfl, ?_⟩
        exact (same_textTokens _).append ((same_sequence _).append hsame)

theorem tooLong_append (h : TooLong text) (more : Text) : TooLong (text ++ more) ∨
    ∃ before body after, (lex (text ++ more)).1 = before ++ Item.sequence body :: after ∧ body.length + 3 = MAX_SEQUENCE ∧
      width before + MAX_SEQUENCE + 1 = text.length := by
  rcases h with ⟨body, hmem, hlong⟩ | ⟨hm, hlong⟩
  · refine .inl (.inl ⟨body, ?_, hlong⟩)
    rw [lex_append]
    exact mem_append_left _ hmem
  have hnone := (lex_tail text).resolve_left fun h => h.2 hm
  have hwidth := lex_width text
  have hm' : marker <+: (lex text).2 ++ more := hm.trans (prefix_append ..)
  cases hend : endOf ((lex text).2 ++ more) with
  | none =>
    refine .inl (.inr ?_)
    rw [lex_append, lex_open hm' hend]
    refine ⟨hm', ?_⟩
    rw [length_append]
    omega
  | some e =>
    have hb := endOf_bounds hend
    have hreach := endOf_reaches hnone.2 hend hm.length_le
    have hlex := lex_append text more
    rw [lex_sequence hm' hend] at hlex
    have hbody : ((((lex text).2 ++ more).take e).drop 3).length + 3 = e := by
      rw [length_drop, length_take, Nat.min_eq_left (by omega)]
      omega
    by_cases he : e > MAX_SEQUENCE
    · refine .inl (.inl ⟨(((lex text).2 ++ more).take e).drop 3, ?_, by rw [hbody]; exact he⟩)
      rw [hlex]
      simp
    · refine .inr ⟨(lex text).1, _, _, congrArg Prod.fst hlex, ?_, ?_⟩
      · rw [hbody]
        omega
      · omega

theorem tooLong_goes_on (h : ¬ TooLong text) (more : Text) : TooLong (text ++ more) ↔ TooLong ((lex text).2 ++ more) := by
  simp only [TooLong, lex_append text more, mem_append]
  constructor
  · rintro (⟨body, hmem | hmem, hlong⟩ | htail)
    · exact absurd (.inl ⟨body, hmem, hlong⟩) h
    · exact .inl ⟨body, hmem, hlong⟩
    · exact .inr htail
  · rintro (⟨body, hmem, hlong⟩ | htail)
    · exact .inl ⟨body, .inr hmem, hlong⟩
    · exact .inr htail

theorem tail_le (h : ¬ TooLong text) : (lex text).2.length ≤ MAX_SEQUENCE := by
  rcases lex_tail text with ⟨hw, -⟩ | ⟨hm, -⟩
  · exact hw.length_le.trans (by decide)
  · by_contra hlong
    exact h (.inr ⟨hm, by omega⟩)

end Limit

/-! ## Chunk by chunk -/

def cuts (before : Nat) : List Text → List Nat
  | [] => []
  | chunk :: chunks => (before + chunk.length) :: cuts (before + chunk.length) chunks

/-- A cut falls between the two characters of the terminator of a sequence that is as long as it may be. -/
def CutInTerminator (items : List Item) (places : List Nat) : Prop :=
  ∃ before body after, items = before ++ Item.sequence body :: after ∧ body.length + 3 = MAX_SEQUENCE ∧
    width before + MAX_SEQUENCE + 1 ∈ places

variable (chunks : List Text)

/-- **The condition**: a sequence is over the limit anyway, or no cut falls inside the terminator of one that reaches it. -/
def CutsWell : Prop :=
  TooLong chunks.flatten ∨ ¬ CutInTerminator (lex chunks.flatten).1 (cuts 0 chunks)

/-- What has been fed: the tokens with adjacent texts joined, and the tail. -/
def settled (out : List KittyToken × KittyStreamParser) : List KittyToken × Text := (joinText out.1, out.2.pending)

def Agree : Prop :=
  (KittyStreamParser.new.feedAll chunks).map settled = (KittyStreamParser.new.feed chunks.flatten).map settled

/-- A token written as it stands in the output, with any header that has its fields. -/
def Wraps : KittyToken → Text → Prop
  | .text text, raw => raw = text
  | .graphics control payload, raw =>
    ∃ header, 59 ∉ header ∧ control = controlOf header ∧
      (raw = marker ++ header ++ 59 :: payload ++ terminator ∨ payload = [] ∧ raw = marker ++ header ++ terminator)

def Lossless : Prop :=
  ∀ tokens parser, KittyStreamParser.new.feedAll chunks = .ok (tokens, parser) →
    ∃ raws, List.Forall₂ Wraps tokens raws ∧ raws.flatten ++ parser.pending = chunks.flatten

variable {chunks : List Text} {pending : Text}

theorem cuts_ge {before : Nat} {place : Nat} (h : place ∈ cuts before chunks) : before ≤ place := by
  induction chunks generalizing before with
  | nil => cases h
  | cons chunk chunks ih =>
    rcases mem_cons.1 h with rfl | h
    · omega
    · have := ih h
      omega

theorem cuts_shift {before place : Nat} (shift : Nat) :
    place + shift ∈ cuts (before + shift) chunks ↔ place ∈ cuts before chunks := by
  induction chunks generalizing before with
  | nil => simp [cuts]
  | cons chunk chunks ih =>
    rw [cuts, cuts, mem_cons, mem_cons,
      show before + shift + chunk.length = before + chunk.length + shift by omega, ih]
    exact or_congr (by omega) Iff.rfl

theorem lex_again : lex (lex text).2 = ([], (lex text).2) := by
  rcases lex_tail text with ⟨hw, hn⟩ | ⟨hm, hnone⟩
  · exact lex_waits hw hn
  · exact lex_open hm hnone

theorem cutInTerminator_goes_on {text : Text} {chunks : List Text} (h : ¬ TooLong text) :
    CutInTerminator (lex (text ++ chunks.flatten)).1 (text.length :: cuts text.length chunks) ↔
      CutInTerminator (lex ((lex text).2 ++ chunks.flatten)).1 (cuts (lex text).2.length chunks) := by
  have hwidth := lex_width text
  have htail := tail_le h
  rw [lex_append]
  constructor
  · rintro ⟨before, body, after, heq, hbody, hcut⟩
    have hge : text.length ≤ width before + MAX_SEQUENCE + 1 := by
      rcases mem_cons.1 hcut with heq | hmem
      · exact heq.ge
      · exact cuts_ge hmem
    rcases append_eq_append_iff.1 heq with ⟨mid, hbefore, hrest⟩ | ⟨mid, hitems, hafter⟩
    · have hw : width before = width (lex text).1 + width mid := by rw [hbefore, width_append]
      refine ⟨mid, body, after, hrest, hbody, ?_⟩
      rcases mem_cons.1 hcut with heq | hmem
      · omega
      · have hplace : width before + MAX_SEQUENCE + 1 = width mid + MAX_SEQUENCE + 1 + width (lex text).1 := by omega
        have hlen : text.length = (lex text).2.length + width (lex text).1 := by omega
        rw [hplace, hlen, cuts_shift] at hmem
        exact hmem
    · cases mid with
      | nil =>
        rw [append_nil] at hitems
        refine ⟨[], body, after, hafter.symm, hbody, ?_⟩
        rw [hitems] at hwidth
        rcases mem_cons.1 hcut with heq | hmem
        · omega
        · have hplace : width before + MAX_SEQUENCE + 1 = width [] + MAX_SEQUENCE + 1 + width before := by
            rw [show width [] = 0 from rfl]
            omega
          have hlen : text.length = (lex text).2.length + width before := by omega
          rw [hplace, hlen, cuts_shift] at hmem
          exact hmem
      | cons item mid =>
        -- The sequence is complete in what has been read, and so is its terminator.
        cases hafter
        have hw : width (lex text).1 = width before + (body.length + 5 + width mid) := by
          rw [hitems, width_append]
          rfl
        omega
  · rintro ⟨before, body, after, heq, hbody, hcut⟩
    refine ⟨(lex text).1 ++ before, body, after, by rw [heq, append_assoc], hbody, mem_cons_of_mem _ ?_⟩
    have hlen : text.length = (lex text).2.length + width (lex text).1 := by omega
    rw [width_append, hlen, show width (lex text).1 + width before + MAX_SEQUENCE + 1 =
      width before + MAX_SEQUENCE + 1 + width (lex text).1 by omega, cuts_shift]
    exact hcut

/-- What chunks fed one after the other give. -/
inductive Fed (pending : Text) (chunks : List Text) : Prop
  | limit (h : TooLong (pending ++ chunks.flatten))
      (herr : (KittyStreamParser.mk pending).feedAll chunks = .error SIZE_ERROR)
  | cut (h : ¬ TooLong (pending ++ chunks.flatten))
      (hcut : CutInTerminator (lex (pending ++ chunks.flatten)).1 (cuts pending.length chunks))
      (herr : (KittyStreamParser.mk pending).feedAll chunks = .error SIZE_ERROR)
  | tokens (h : ¬ TooLong (pending ++ chunks.flatten))
      (hcut : ¬ CutInTerminator (lex (pending ++ chunks.flatten)).1 (cuts pending.length chunks))
      (tokens : List KittyToken)
      (hok : (KittyStreamParser.mk pending).feedAll chunks = .ok (tokens, ⟨(lex (pending ++ chunks.flatten)).2⟩))
      (hsame : Same tokens (lex (pending ++ chunks.flatten)).1)

theorem feedAll_cons_error {pending chunk : Text} {e : String} (h : scan (pending ++ chunk) = .error e) :
    (KittyStreamParser.mk pending).feedAll (chunk :: chunks) = .error e := by
  rw [KittyStreamParser.feedAll, KittyStreamParser.feed]
  simp only [h]
  rfl

theorem feedAll_cons_ok {pending chunk tail : Text} {chunks : List Text} {tokens : List KittyToken}
    (h : scan (pending ++ chunk) = .ok (tokens, tail)) :
    (KittyStreamParser.mk pending).feedAll (chunk :: chunks) =
      ((KittyStreamParser.mk tail).feedAll chunks).map fun out => (tokens ++ out.1, out.2) := by
  rw [KittyStreamParser.feedAll, KittyStreamParser.feed]
  simp only [h]
  rfl

theorem tail_not_tooLong {text : Text} (h : ¬ TooLong text) : ¬ TooLong (lex text).2 := by
  rintro (⟨body, hmem, -⟩ | htail)
  · rw [lex_again] at hmem
    cases hmem
  · rw [lex_again] at htail
    exact h (.inr htail)

theorem fed (chunks : List Text) (hstays : lex pending = ([], pending)) (hshort : ¬ TooLong pending) :
    Fed pending chunks := by
  induction chunks generalizing pending with
  | nil =>
    have hflat : pending ++ ([] : List Text).flatten = pending := append_nil _
    refine .tokens (by rwa [hflat]) ?_ [] (by rw [hflat, hstays]; rfl) (by rw [hflat, hstays]; exact Same.nil)
    rintro ⟨_, _, _, _, _, hmem⟩
    cases hmem
  | cons chunk chunks ih =>
    have hflat : pending ++ (chunk :: chunks).flatten = pending ++ chunk ++ chunks.flatten := by
      rw [flatten_cons, append_assoc]
    have hcuts : cuts pending.length (chunk :: chunks) =
        (pending ++ chunk).length :: cuts (pending ++ chunk).length chunks := by
      rw [length_append]
      rfl
    rcases scan_reads (pending ++ chunk) with ⟨hlong, herr⟩ | ⟨hfits, tokens, hok, hsame⟩
    · have herr' : (KittyStreamParser.mk pending).feedAll (chunk :: chunks) = .error SIZE_ERROR := feedAll_cons_error herr
      by_cases hwhole : TooLong (pending ++ (chunk :: chunks).flatten)
      · exact .limit hwhole herr'
      · refine .cut hwhole ?_ herr'
        rw [hflat] at hwhole ⊢
        obtain ⟨before, body, after, heq, hbody, hplace⟩ := (tooLong_append hlong _).resolve_left hwhole
        exact ⟨before, body, after, heq, hbody, by rw [hcuts, hplace]; exact mem_cons_self⟩
    · have hiff := @cutInTerminator_goes_on _ chunks hfits
      have hnext := @feedAll_cons_ok _ _ _ chunks _ hok
      rw [← hcuts, ← hflat] at hiff
      have hlong := tooLong_goes_on hfits chunks.flatten
      rw [← hflat] at hlong
      cases ih (lex_again _) (tail_not_tooLong hfits) with
      | limit h herr => exact .limit (hlong.2 h) (by rw [hnext, herr]; rfl)
      | cut h hcut herr => exact .cut (fun hl => h (hlong.1 hl)) (hiff.2 hcut) (by rw [hnext, herr]; rfl)
      | tokens h hcut more hmore hsame' =>
        have hlex := lex_append (pending ++ chunk) chunks.flatten
        rw [← hflat] at hlex
        refine .tokens (fun hl => h (hlong.1 hl)) (fun hc => hcut (hiff.1 hc)) (tokens ++ more) ?_ ?_
        · rw [hnext, hmore, hlex]
          rfl
        · rw [hlex]
          exact hsame.append hsame'

/-! ## Nothing is lost -/

def Writes (raw : Text) : Prop := ∃ raws, List.Forall₂ Wraps tokens raws ∧ raws.flatten = raw

theorem Writes.append {x y : Text} (ha : Writes a x) (hb : Writes b y) : Writes (a ++ b) (x ++ y) := by
  obtain ⟨rx, hx, rfl⟩ := ha
  obtain ⟨ry, hy, rfl⟩ := hb
  exact ⟨rx ++ ry, rel_append hx hy, flatten_append⟩

theorem writes_textTokens : Writes (textTokens body) body := by
  by_cases h : body = []
  · rw [textTokens, if_pos h, h]
    exact ⟨[], .nil, rfl⟩
  · rw [textTokens, if_neg h]
    exact ⟨[body], .cons rfl .nil, append_nil _⟩

theorem writes_graphics : Writes [graphicsOf body] (marker ++ body ++ terminator) := by
  refine ⟨[marker ++ body ++ terminator], .cons ?_ .nil, append_nil _⟩
  rw [graphicsOf]
  cases h : indexOf [59] body with
  | none =>
    refine ⟨body, fun hmem => ?_, rfl, .inr ⟨rfl, rfl⟩⟩
    obtain ⟨before, after, rfl⟩ := append_of_mem hmem
    exact indexOf_none h before.length ⟨after, by simp⟩
  | some delimiter =>
    have hat := indexOf_at h
    refine ⟨body.take delimiter, fun hmem => ?_, rfl, .inl ?_⟩
    · obtain ⟨j, hj, hget⟩ := getElem_of_mem hmem
      rw [length_take] at hj
      rw [getElem_take] at hget
      refine indexOf_least h j (by omega) ⟨body.drop (j + 1), ?_⟩
      rw [← hget, singleton_append, getElem_cons_drop]
    · obtain ⟨after, hafter⟩ := hat
      have hdrop : body.drop (delimiter + 1) = after := by
        rw [← drop_drop, ← hafter]
        rfl
      have hbody : body = body.take delimiter ++ 59 :: after := by
        rw [show 59 :: after = body.drop delimiter from hafter, take_append_drop]
      rw [hdrop, append_assoc marker (body.take delimiter), ← hbody]

theorem sequence_eq {rest : Text} {e : Nat} (h : marker <+: rest) (hend : endOf rest = some e) :
    marker ++ (rest.take e).drop 3 ++ terminator ++ rest.drop (e + 2) = rest := by
  obtain ⟨i, hi, rfl⟩ := map_eq_some_iff.1 hend
  obtain ⟨after, rfl⟩ := h
  obtain ⟨more, hmore⟩ := indexOf_at hi
  have hafter : after.drop i = terminator ++ more := hmore.symm
  have htake : ((marker ++ after).take (i + 3)).drop 3 = after.take i := by
    rfl
  have hdrop : (marker ++ after).drop (i + 3 + 2) = more := by
    have : (marker ++ after).drop (i + 3 + 2) = (after.drop i).drop 2 := by
      rw [drop_drop, show i + 3 + 2 = 3 + (i + 2) by omega, ← drop_drop]
      rfl
    rw [this, hafter]
    rfl
  rw [htake, hdrop, append_assoc, append_assoc, ← hafter, take_append_drop]

theorem scan_writes {tokens : List KittyToken} {tail : Text} (h : scan text = .ok (tokens, tail)) :
    ∃ raw, Writes tokens raw ∧ raw ++ tail = text := by
  induction hn : text.length using Nat.strongRecOn generalizing text tokens tail with
  | _ n ih =>
  subst hn
  by_cases hnil : text = []
  · rw [hnil, scan] at h
    cases h
    exact ⟨[], ⟨[], .nil, rfl⟩, hnil.symm⟩
  rw [scan, dif_neg hnil] at h
  cases hm : indexOf marker text with
  | none =>
    simp only [hm] at h
    cases h
    exact ⟨_, writes_textTokens _, take_append_drop ..⟩
  | some start =>
    simp only [hm] at h
    by_cases hlong : (endOf (text.drop start)).getD (text.drop start).length > MAX_SEQUENCE
    · rw [if_pos hlong] at h
      cases h
    rw [if_neg hlong] at h
    cases hend : endOf (text.drop start) with
    | none =>
      simp only [hend] at h
      cases h
      exact ⟨_, writes_textTokens _, take_append_drop ..⟩
    | some e =>
      simp only [hend] at h
      have hless : ((text.drop start).drop (e + 2)).length < text.length := by
        have := length_pos_iff.2 hnil
        rw [length_drop, length_drop]
        omega
      cases hrest : scan ((text.drop start).drop (e + 2)) with
      | error =>
        simp only [hrest] at h
        cases h
      | ok out =>
        simp only [hrest] at h
        cases h
        obtain ⟨raw, hwrites, hraw⟩ := ih _ hless _ hrest rfl
        refine ⟨_, (writes_textTokens _).append ((writes_graphics _).append hwrites), ?_⟩
        rw [append_assoc, append_assoc, hraw, sequence_eq (indexOf_at hm) hend, take_append_drop]

theorem feedAll_writes (chunks : List Text) {tokens : List KittyToken} {parser : KittyStreamParser}
    (h : (KittyStreamParser.mk pending).feedAll chunks = .ok (tokens, parser)) :
    ∃ raw, Writes tokens raw ∧ raw ++ parser.pending = pending ++ chunks.flatten := by
  induction chunks generalizing pending tokens with
  | nil =>
    cases h
    exact ⟨[], ⟨[], .nil, rfl⟩, (append_nil _).symm⟩
  | cons chunk chunks ih =>
    cases hscan : scan (pending ++ chunk) with
    | error => simp [feedAll_cons_error hscan] at h
    | ok out =>
      obtain ⟨first, tail⟩ := out
      rw [feedAll_cons_ok hscan] at h
      cases hrest : (KittyStreamParser.mk tail).feedAll chunks with
      | error => simp [hrest, Except.map] at h
      | ok out =>
        rw [hrest] at h
        cases h
        obtain ⟨raw, hwrites, hraw⟩ := scan_writes _ hscan
        obtain ⟨raw', hwrites', hraw'⟩ := ih hrest
        refine ⟨raw ++ raw', hwrites.append hwrites', ?_⟩
        rw [append_assoc, hraw', ← append_assoc, hraw, flatten_cons, append_assoc]

theorem lossless (chunks : List Text) : Lossless chunks := by
  intro tokens parser h
  obtain ⟨_, ⟨raws, hwraps, rfl⟩, hraw⟩ := feedAll_writes chunks h
  exact ⟨raws, hwraps, hraw⟩

theorem agree_iff (chunks : List Text) : Agree chunks ↔ CutsWell chunks := by
  have hfed := fed chunks lex_nil (fun h => by simp [TooLong, lex_nil, marker] at h)
  show _ = Except.map settled (Except.map _ (scan chunks.flatten)) ↔ _
  cases hfed with
  | limit h herr =>
    rcases scan_reads chunks.flatten with ⟨-, hscan⟩ | ⟨hfits, -⟩
    · rw [hscan]
      exact iff_of_true (congrArg _ herr) (.inl h)
    · exact absurd h hfits
  | cut h hcut herr =>
    rcases scan_reads chunks.flatten with ⟨hlong, -⟩ | ⟨-, tokens, hscan, -⟩
    · exact absurd hlong h
    · rw [hscan]
      refine iff_of_false (fun hagree => ?_) (fun hwell => hwell.elim h (· hcut))
      have := (congrArg _ herr).symm.trans hagree
      cases this
  | tokens h hcut tokens hok hsame =>
    rcases scan_reads chunks.flatten with ⟨hlong, -⟩ | ⟨-, whole, hscan, hwhole⟩
    · exact absurd hlong h
    · rw [hscan]
      refine iff_of_true ((congrArg _ hok).trans ?_) (.inr hcut)
      exact congrArg (fun joined => Except.ok (joined, (lex chunks.flatten).2)) ((hsame []).trans (hwhole []).symm)

/-- **A stream in chunks is the stream**, exactly when no chunk ends inside the terminator of a sequence that reaches the
limit; and nothing of it is lost. -/
theorem feed_agrees (chunks : List Text) : Agree chunks ∧ Lossless chunks ↔ CutsWell chunks := by
  rw [← agree_iff]
  exact and_iff_left (lossless chunks)

section Cut
variable {body : Text}

theorem lex_wrapped (h : 27 ∉ body) : lex (marker ++ (body ++ terminator)) = ([.sequence body], []) := by
  have hfirst : ∀ j < body.length, ¬ At terminator (body ++ terminator) j := by
    rintro j hj ⟨after, hafter⟩
    have hget : body[j] = 27 := by
      rw [drop_append_of_le_length (by omega), ← getElem_cons_drop hj] at hafter
      exact (List.cons.inj hafter).1.symm
    exact h (hget ▸ getElem_mem hj)
  have hend : endOf (marker ++ (body ++ terminator)) = some (body.length + 3) := by
    show (indexOf terminator (body ++ terminator)).map (· + 3) = _
    rw [indexOf_shift hfirst, show indexOf terminator terminator = some 0 from rfl]
    simp
  have htake : ((marker ++ (body ++ terminator)).take (body.length + 3)).drop 3 = body := by
    exact take_left
  have hdrop : (marker ++ (body ++ terminator)).drop (body.length + 3 + 2) = [] := by
    refine drop_eq_nil_of_le ?_
    simp only [length_append, marker, terminator, length_cons, length_nil]
    omega
  rw [lex_sequence (prefix_append ..) hend, htake, hdrop, lex_nil]

theorem cut_disagrees (hlen : body.length + 3 = MAX_SEQUENCE) (h : 27 ∉ body) :
    ¬ Agree [marker ++ body ++ [27], [92]] := by
  intro hagree
  have hflat : [marker ++ body ++ [27], [92]].flatten = marker ++ (body ++ terminator) := by
    simp [terminator]
  have hwell := (agree_iff _).1 hagree
  rw [CutsWell, TooLong, hflat, lex_wrapped h] at hwell
  rcases hwell with (⟨body', hmem, hlong⟩ | ⟨hm, -⟩) | hcut
  · obtain rfl := Item.sequence.inj (mem_singleton.1 hmem)
    omega
  · have hnil : ¬ marker <+: ([] : Text) := by decide
    exact hnil hm
  · refine hcut ⟨[], body, [], rfl, hlen, mem_cons.2 (.inl ?_)⟩
    rw [length_append, length_append, show width [] = 0 from rfl, show marker.length = 3 from rfl]
    show 0 + MAX_SEQUENCE + 1 = 0 + (3 + body.length + 1)
    omega

end Cut

def filler : Text := List.replicate 65533 65

theorem filler_length : filler.length + 3 = MAX_SEQUENCE := by
  rw [filler, length_replicate]
  rfl

theorem filler_plain : 27 ∉ filler := fun h => absurd (eq_of_mem_replicate h) (by decide)

theorem feed_disagrees_filler : ¬ ∀ chunks, Agree chunks ∧ Lossless chunks := fun h =>
  cut_disagrees filler_length filler_plain (h [marker ++ filler ++ [27], [92]]).1

end Kitty
end Yuzora
