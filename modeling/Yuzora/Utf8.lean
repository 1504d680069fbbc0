import Mathlib.Data.List.Basic
/-!
# Utf8 — text and its bytes

The bytes of a text, the text of some bytes where they are one, and the text that bytes are read as when they need not be
one: every part that is no character is one replacement character, as in Rust's lossy conversion.
-/
namespace Yuzora
namespace Utf8

open List

variable (s : List Char)

def toUtf8 : List UInt8 := s.flatMap String.utf8EncodeChar

variable (bytes : List UInt8)

def decodeChar? : Option Char := bytes.toByteArray.utf8DecodeChar? 0

def isContinuation (byte : UInt8) : Bool := 0x80 ≤ byte && byte ≤ 0xBF

/-- The bytes that may be second, and the number of bytes, by the first byte. -/
def sequence (first : UInt8) : Option (UInt8 × UInt8 × Nat) :=
  if 0xC2 ≤ first ∧ first ≤ 0xDF then some (0x80, 0xBF, 2)
  else if first = 0xE0 then some (0xA0, 0xBF, 3)
  else if first = 0xED then some (0x80, 0x9F, 3)
  else if 0xE1 ≤ first ∧ first ≤ 0xEF then some (0x80, 0xBF, 3)
  else if first = 0xF0 then some (0x90, 0xBF, 4)
  else if 0xF1 ≤ first ∧ first ≤ 0xF3 then some (0x80, 0xBF, 4)
  else if first = 0xF4 then some (0x80, 0x8F, 4)
  else none

/-- How many of the bytes are replaced as one, where they do not begin with a character. -/
def invalidLength : List UInt8 → Nat
  | first :: second :: bytes =>
    (sequence first).elim 1 fun (low, high, length) =>
      if low ≤ second ∧ second ≤ high then 2 + ((bytes.take (length - 3)).takeWhile isContinuation).length else 1
  | bytes => bytes.length

/-- `from_utf8_lossy`, in as many steps as there are bytes. -/
def lossyFrom : Nat → List UInt8 → List Char
  | 0, _ | _, [] => []
  | steps + 1, bytes =>
    match decodeChar? bytes with
    | some c => c :: lossyFrom steps (bytes.drop c.utf8Size)
    | none => '\uFFFD' :: lossyFrom steps (bytes.drop (invalidLength bytes))

def lossy : List Char := lossyFrom bytes.length bytes

/-- `str::from_utf8` -/
def decode? : Option (List Char) := bytes.toByteArray.utf8Decode?.map Array.toList

theorem toUtf8_cons (c : Char) (s : List Char) : toUtf8
    (c :: s) = String.utf8EncodeChar c ++ toUtf8 s := flatMap_cons

theorem decodeChar_toUtf8 (c : Char) (bytes : List UInt8) :
    decodeChar? (String.utf8EncodeChar c ++ bytes) = some c := by
  rw [decodeChar?, toByteArray_append]
  exact ByteArray.utf8DecodeChar?_utf8EncodeChar_append

/-- **The lossy text of bytes that are one** is that text. -/
theorem lossy_toUtf8 : lossy (toUtf8 s) = s := by
  have hsteps : ∀ (s : List Char) (steps : Nat), (toUtf8 s).length ≤ steps → lossyFrom steps (toUtf8 s) = s := by
    intro s
    induction s with
    | nil =>
      intro steps _
      cases steps <;> rfl
    | cons c s ih =>
      intro steps hlength
      rw [toUtf8_cons, length_append, String.length_utf8EncodeChar] at hlength
      have hpos := Char.utf8Size_pos c
      obtain ⟨steps, rfl⟩ := Nat.exists_eq_add_of_le (show 1 ≤ steps by omega)
      obtain ⟨b, bytes, hbytes⟩ := exists_cons_of_ne_nil (String.utf8EncodeChar_ne_nil (c := c))
      rw [toUtf8_cons, Nat.add_comm, lossyFrom, decodeChar_toUtf8]
      · change c :: lossyFrom steps ((String.utf8EncodeChar c ++ toUtf8 s).drop c.utf8Size) = c :: s
        rw [← String.length_utf8EncodeChar c, drop_left, ih steps (by omega)]
      · rw [hbytes]
        exact cons_ne_nil _ _
  exact hsteps s _ (Nat.le_refl _)

theorem decode_toUtf8 : decode? (toUtf8 s) = some s := by
  have hbytes : (toUtf8 s).toByteArray = s.utf8Encode := by rw [toUtf8, List.utf8Encode]
  rw [decode?, hbytes, utf8Decode?_utf8Encode]
  rfl

variable {s : List Char}

theorem toUtf8_of_decode {bytes : List UInt8} (h : decode? bytes = some s) : toUtf8 s = bytes := by
  obtain ⟨chars, hchars, rfl⟩ := Option.map_eq_some_iff.1 h
  have hbytes : chars.toList.utf8Encode = bytes.toByteArray := by
    have hget := ByteArray.utf8Encode_get_utf8Decode? (b := bytes.toByteArray) (h := by rw [hchars]; rfl)
    simpa only [hchars, Option.get_some] using hget
  exact toByteArray_inj.1 hbytes

variable {b : UInt8}

theorem mem_encodeChar (hb : b < 128) (c : Char) : b ∈ String.utf8EncodeChar c ↔ c.toNat = b.toNat := by
  have hb' : b.toNat < 128 := UInt8.lt_iff_toNat_lt.1 hb
  have hmem : ∀ {n : Nat}, n < 256 → (b = UInt8.ofNat n ↔ b.toNat = n) := by
    intro n hn
    rw [← UInt8.toNat_inj, UInt8.toNat_ofNat', Nat.mod_eq_of_lt hn]
  have hc : c.toNat = c.val.toNat := rfl
  unfold String.utf8EncodeChar
  simp only [apply_ite (b ∈ ·), mem_cons, not_mem_nil, or_false]
  split
  · rw [hmem (by omega)]
    omega
  · split
    · rw [hmem (by omega), hmem (by omega)]
      omega
    · split
      · rw [hmem (by omega), hmem (by omega), hmem (by omega)]
        omega
      · rw [hmem (by omega), hmem (by omega), hmem (by omega), hmem (by omega)]
        omega

theorem mem_toUtf8 (hb : b < 128) (s : List Char) : b ∈ toUtf8 s ↔ ∃ c ∈ s, c.toNat = b.toNat := by
  rw [toUtf8, mem_flatMap]
  exact exists_congr fun c => and_congr_right fun _ => mem_encodeChar hb c

theorem notMem_toUtf8 {c : Char} (hb : b < 128) (hc : c.toNat = b.toNat) (h : c ∉ s) : b ∉ toUtf8 s := by
  intro hmem
  obtain ⟨c', hc', heq⟩ := (mem_toUtf8 hb s).1 hmem
  have hsame : c' = c := Char.toNat_inj.1 (heq.trans hc.symm)
  exact h (hsame ▸ hc')

end Utf8
end Yuzora
