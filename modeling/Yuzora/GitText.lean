import Mathlib.Data.List.Infix
/-!
# GitText — the text that git's answers are read as

Rust's string functions as far as the git code uses them, the summary of an error stream, and full object names.
-/
namespace Yuzora
namespace Git

open List

/-! ## Strings -/

/-- Rust's `char::is_whitespace`: Unicode's White_Space. -/
def isWhitespace (c : Char) : Bool :=
  (9 ≤ c.toNat && c.toNat ≤ 13) || (0x2000 ≤ c.toNat && c.toNat ≤ 0x200A) ||
    [0x20, 0x85, 0xA0, 0x1680, 0x2028, 0x2029, 0x202F, 0x205F, 0x3000].contains c.toNat

def trimStart (s : List Char) : List Char := s.dropWhile isWhitespace

def trimEnd (s : List Char) : List Char := (s.reverse.dropWhile isWhitespace).reverse

def trim (s : String) : String := String.ofList (trimEnd (trimStart s.toList))

/-- The text before and after the first `pat`. -/
def splitOnce (pat : List Char) : List Char → Option (List Char × List Char)
  | [] => if pat = [] then some ([], []) else none
  | c :: s =>
    if pat <+: c :: s then some ([], (c :: s).drop pat.length)
    else (splitOnce pat s).map fun parts => (c :: parts.1, parts.2)

theorem splitOnce_append {x : Char} {pat : List Char} : ∀ {s : List Char} (t : List Char), x ∉ s →
    splitOnce (x :: pat) (s ++ x :: pat ++ t) = some (s, t)
  | [], t, _ => by
    rw [nil_append, cons_append, splitOnce, if_pos ⟨t, rfl⟩]
    simp
  | c :: s, t, h => by
    have hne : x ≠ c := fun heq => h (heq ▸ mem_cons_self)
    have hno : ¬ x :: pat <+: c :: (s ++ x :: pat ++ t) := fun hp => hne (cons_prefix_cons.1 hp).1
    rw [cons_append, cons_append, splitOnce, if_neg hno,
      splitOnce_append t fun hs => h (mem_cons_of_mem _ hs)]
    rfl

def contains (s pat : String) : Bool := pat.toList <:+: s.toList

variable {pat s : String}

theorem contains_iff : contains s pat = true ↔ pat.toList <:+: s.toList := decide_eq_true_iff

theorem contains_append_left (t : String) (h : contains s pat = true) : contains (s ++ t) pat = true := by
  rw [contains_iff, String.toList_append] at *
  exact h.trans (prefix_append _ _).isInfix

theorem contains_append_right (t : String) (h : contains s pat = true) : contains (t ++ s) pat = true := by
  rw [contains_iff, String.toList_append] at *
  exact h.trans (suffix_append _ _).isInfix

def split (sep : Char) : List Char → List (List Char)
  | [] => [[]]
  | c :: s =>
    match split sep s with
    | [] => [[c]]
    | piece :: rest => if c = sep then [] :: piece :: rest else (c :: piece) :: rest

/-- Rust's `str::lines`: a final line ending ends the last line, and a line may end in `\r\n`. -/
def lines (s : List Char) : List (List Char) :=
  let pieces := split '\n' s
  let ended := pieces.dropLast.map fun line => if line.getLast? = some '\r' then line.dropLast else line
  match pieces.getLast? with
  | none | some [] => ended
  | some last => ended ++ [last]

/-! ## Errors -/

def GIT_ERROR_SUMMARY_CHARS : Nat := 1200

def isKey (line : List Char) : Bool :=
  let lower := (trimStart line).map Char.toLower
  ["fatal:", "error:", "hint:", "! [", "remote: error", "remote: fatal"].any (fun start => start.toList.isPrefixOf lower)
    || "rejected".toList <:+: lower

/-- A long error stream is cut down to its key lines and its last three. -/
def summarizeStderr (stderr : String) : String :=
  let trimmed := trim stderr
  if trimmed.toList.length ≤ GIT_ERROR_SUMMARY_CHARS then trimmed
  else
    let lines := ((lines trimmed.toList).map fun line => trimEnd ((split '\r' line).getLast?.getD line)).filter (· ≠ [])
    let picked := lines.zipIdx.filter fun (line, index) => isKey line || lines.length - 3 ≤ index
    let summary := ['\n'].intercalate (picked.map (·.1))
    String.ofList (summary.take GIT_ERROR_SUMMARY_CHARS)

def gitErr (sub stderr : String) : String := "git " ++ sub ++ ": " ++ summarizeStderr stderr

/-! ## Object names -/

def isHexDigit (c : Char) : Bool := c.isDigit || ('a' ≤ c && c ≤ 'f') || ('A' ≤ c && c ≤ 'F')

def SHA1_HEX_LEN : Nat := 40
def SHA256_HEX_LEN : Nat := 64

def isFullOid (value : String) : Bool :=
  (value.toList.length = SHA1_HEX_LEN || value.toList.length = SHA256_HEX_LEN) && value.toList.all isHexDigit

def toAsciiLowercase (s : String) : String := String.ofList (s.toList.map Char.toLower)

variable {c : Char}

theorem isHexDigit_lt (h : isHexDigit c = true) : c.toNat < 128 := by
  simp only [isHexDigit, Char.isDigit, Bool.or_eq_true, Bool.and_eq_true, decide_eq_true_eq, Char.le_def,
    UInt32.le_iff_toNat_le, ge_iff_le] at h
  change c.val.toNat < 128
  have h1 : 'f'.val.toNat = 102 := rfl
  have h2 : 'F'.val.toNat = 70 := rfl
  have h3 : '9'.val.toNat = 57 := rfl
  omega

theorem isHexDigit_toLower (h : isHexDigit c = true) : isHexDigit c.toLower = true := by
  have hall : ∀ n < 128, isHexDigit (Char.ofNat n) = true → isHexDigit (Char.ofNat n).toLower = true := by decide
  have hc := hall c.toNat (isHexDigit_lt h)
  rw [Char.ofNat_toNat] at hc
  exact hc h

theorem isWhitespace_of_isHexDigit (h : isHexDigit c = true) : isWhitespace c = false := by
  have hall : ∀ n < 128, isHexDigit (Char.ofNat n) = true → isWhitespace (Char.ofNat n) = false := by decide
  have hc := hall c.toNat (isHexDigit_lt h)
  rw [Char.ofNat_toNat] at hc
  exact hc h

theorem isFullOid_toAsciiLowercase (h : isFullOid s = true) : isFullOid (toAsciiLowercase s) = true := by
  unfold isFullOid toAsciiLowercase at *
  rw [Bool.and_eq_true] at h ⊢
  rw [String.toList_ofList, length_map, all_map]
  exact ⟨h.1, all_eq_true.2 fun c hc => isHexDigit_toLower (all_eq_true.1 h.2 c hc)⟩

theorem toAsciiLowercase_idem (h : isFullOid s = true) :
    toAsciiLowercase (toAsciiLowercase s) = toAsciiLowercase s := by
  have hall : ∀ n < 128, (Char.ofNat n).toLower.toLower = (Char.ofNat n).toLower := by decide
  unfold isFullOid at h
  rw [Bool.and_eq_true] at h
  unfold toAsciiLowercase
  rw [String.toList_ofList, map_map]
  congr 1
  refine map_congr_left fun c hc => ?_
  have hc := hall c.toNat (isHexDigit_lt (all_eq_true.1 h.2 c hc))
  rw [Char.ofNat_toNat] at hc
  exact hc

/-- A full object name, in lower case. -/
structure GitOid where
  text : String
  full : isFullOid text = true
  lower : toAsciiLowercase text = text
deriving DecidableEq

namespace GitOid

theorem isHexDigit_of_mem {oid : GitOid} (h : c ∈ oid.text.toList) : isHexDigit c = true := by
  have hf := oid.full
  unfold isFullOid at hf
  rw [Bool.and_eq_true] at hf
  exact all_eq_true.1 hf.2 c h

theorem dropWhile_isWhitespace : ∀ {l : List Char}, (∀ c ∈ l, isHexDigit c = true) → l.dropWhile isWhitespace = l
  | [], _ => rfl
  | c :: l, h => dropWhile_cons_of_neg (by rw [isWhitespace_of_isHexDigit (h c mem_cons_self)]; decide)

variable (oid : GitOid)

theorem trimEnd_text : trimEnd oid.text.toList = oid.text.toList := by
  unfold trimEnd
  rw [dropWhile_isWhitespace fun c hc => oid.isHexDigit_of_mem (mem_reverse.1 hc), reverse_reverse]

theorem trim_text : trim oid.text = oid.text := by
  unfold trim trimStart
  rw [dropWhile_isWhitespace fun c => oid.isHexDigit_of_mem, trimEnd_text, String.ofList_toList]

theorem text_ne_nil : oid.text.toList ≠ [] := by
  intro h
  have hf := oid.full
  unfold isFullOid at hf
  rw [h] at hf
  revert hf
  decide

theorem trim_line : trim (oid.text ++ "\n") = oid.text := by
  obtain ⟨c, l, hl⟩ := exists_cons_of_ne_nil oid.text_ne_nil
  have hc : isWhitespace c = false := isWhitespace_of_isHexDigit (oid.isHexDigit_of_mem (by simp [hl]))
  have hstart : trimStart (oid.text ++ "\n").toList = oid.text.toList ++ ['\n'] := by
    rw [String.toList_append, hl]
    exact dropWhile_cons_of_neg (by rw [hc]; decide)
  have hend : trimEnd (oid.text.toList ++ ['\n']) = trimEnd oid.text.toList := by
    unfold trimEnd
    rw [reverse_append, reverse_singleton, singleton_append, dropWhile_cons_of_pos (by decide)]
  unfold trim
  rw [hstart, hend, trimEnd_text, String.ofList_toList]

def parse (value : String) : Except String GitOid :=
  if h : isFullOid (trim value) = true then
    .ok ⟨toAsciiLowercase (trim value), isFullOid_toAsciiLowercase h, toAsciiLowercase_idem h⟩
  else .error "git rejected a non-OID object name"

theorem parse_text : parse oid.text = .ok oid := by
  obtain ⟨text, full, lower⟩ := oid
  have ht : trim text = text := trim_text ⟨text, full, lower⟩
  unfold parse
  simp only [ht, full, lower, dite_true]

theorem ext_text {a b : GitOid} (h : a.text = b.text) : a = b := by
  cases a
  cases b
  cases h
  rfl

end GitOid

def looksLikeGitOption (value : String) : Bool := value.toList.head? = some '-'

end Git
end Yuzora
