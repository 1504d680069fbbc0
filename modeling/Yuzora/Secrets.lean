import Mathlib.Data.Int.Order.Basic
import Mathlib.Tactic.Common
/-!
# Secrets — byte strings, base64url, digests and the clock's time points

`[u8; N]` is a list of bytes of that length.  The unpadded URL-safe base64 engine is written out; SHA-256, its HMAC and
the WebAuthn key encoding come from crates and are parameters (`External`).  A time point is a number of nanoseconds; an
operation reads the clock several times (`Readings`).
-/
namespace Yuzora

variable (n : Nat)

abbrev Bytes := { l : List UInt8 // l.length = n }

namespace Bytes

def zero (n : Nat) : Bytes n := ⟨List.replicate n 0, List.length_replicate⟩

/-- `try_into` of a byte vector. -/
def ofList? (n : Nat) (l : List UInt8) : Option (Bytes n) := if h : l.length = n then some ⟨l, h⟩ else none

end Bytes

abbrev Timestamp := Int

def seconds : Nat := n * 1000000000
def minutes : Nat := seconds (n * 60)
def hours : Nat := seconds (n * 3600)

def Timestamp.after (t : Timestamp) (duration : Nat) : Timestamp := t + duration

/-- The clock's readings during one operation: they never go back, and the operation ends no earlier. -/
structure Readings where
  now : Nat → Timestamp
  done : Timestamp
  mono : ∀ n, now n ≤ now (n + 1)
  le_done : ∀ n, now n ≤ done

namespace Readings

def const (t : Timestamp) : Readings := ⟨fun _ => t, t, fun _ => le_refl t, fun _ => le_refl t⟩

def tail (r : Readings) : Readings :=
  ⟨fun n => r.now (n + 1), r.done, fun n => r.mono (n + 1), fun n => r.le_done (n + 1)⟩

theorem now_le {r : Readings} : ∀ {m n : Nat}, m ≤ n → r.now m ≤ r.now n
  | m, 0, h => by rw [Nat.le_zero.1 h]
  | m, n + 1, h => by
    rcases Nat.lt_or_eq_of_le h with h | rfl
    · exact le_trans (now_le (Nat.le_of_lt_succ h)) (r.mono n)
    · exact le_refl _

end Readings

/-- What the linked crates decide. -/
structure External where
  sha256 : List UInt8 → Bytes 32
  hmacSha256 : List UInt8 → List UInt8 → Bytes 32
  /-- The bytes decode to a key the verifier library accepts, and the key is not a P-384 key. -/
  acceptsKey : List UInt8 → Bool

/-! ## Unpadded base64url -/

def base64Digit (c : Char) : Option Nat :=
  let n := c.toNat
  if 65 ≤ n ∧ n ≤ 90 then some (n - 65)
  else if 97 ≤ n ∧ n ≤ 122 then some (n - 71)
  else if 48 ≤ n ∧ n ≤ 57 then some (n + 4)
  else if n = 45 then some 62
  else if n = 95 then some 63
  else none

/-- The engine refuses padding, foreign characters, a lone last digit and leftover bits that are not zero. -/
def decodeDigits : List Char → Option (List UInt8)
  | [] => some []
  | [_] => none
  | [a, b] => do
    let x ← base64Digit a
    let y ← base64Digit b
    if y % 16 = 0 then some [UInt8.ofNat (x * 4 + y / 16)] else none
  | [a, b, c] => do
    let x ← base64Digit a
    let y ← base64Digit b
    let z ← base64Digit c
    if z % 4 = 0 then some [UInt8.ofNat (x * 4 + y / 16), UInt8.ofNat (y % 16 * 16 + z / 4)] else none
  | a :: b :: c :: d :: rest => do
    let x ← base64Digit a
    let y ← base64Digit b
    let z ← base64Digit c
    let w ← base64Digit d
    let tail ← decodeDigits rest
    some (UInt8.ofNat (x * 4 + y / 16) :: UInt8.ofNat (y % 16 * 16 + z / 4) :: UInt8.ofNat (z % 4 * 64 + w) :: tail)

def decodeBase64 (value : String) : Option (List UInt8) := decodeDigits value.toList

def base64Char : Char :=
  if n < 26 then Char.ofNat (n + 65)
  else if n < 52 then Char.ofNat (n + 71)
  else if n < 62 then Char.ofNat (n - 4)
  else if n = 62 then '-'
  else '_'

def encodeDigits : List UInt8 → List Char
  | [] => []
  | [a] => [base64Char (a.toNat / 4), base64Char (a.toNat % 4 * 16)]
  | [a, b] => [base64Char (a.toNat / 4), base64Char (a.toNat % 4 * 16 + b.toNat / 16), base64Char (b.toNat % 16 * 4)]
  | a :: b :: c :: rest =>
    base64Char (a.toNat / 4) :: base64Char (a.toNat % 4 * 16 + b.toNat / 16) ::
      base64Char (b.toNat % 16 * 4 + c.toNat / 64) :: base64Char (c.toNat % 64) :: encodeDigits rest

def encode (value : List UInt8) : String := String.ofList (encodeDigits value)

theorem base64Digit_base64Char : ∀ n < 64, base64Digit (base64Char n) = some n := by decide

theorem decodeDigits_encodeDigits : ∀ l : List UInt8, decodeDigits (encodeDigits l) = some l
  | [] => rfl
  | [a] => by
    have ha := a.toNat_lt
    have h : a.toNat / 4 * 4 + a.toNat % 4 * 16 / 16 = a.toNat := by omega
    simp only [encodeDigits, decodeDigits, Option.bind_eq_bind, base64Digit_base64Char _ (by omega : a.toNat / 4 < 64),
      base64Digit_base64Char _ (by omega : a.toNat % 4 * 16 < 64), Option.bind_some, h]
    rw [if_pos (by omega), UInt8.ofNat_toNat]
  | [a, b] => by
    have ha := a.toNat_lt
    have hb := b.toNat_lt
    have h : a.toNat / 4 * 4 + (a.toNat % 4 * 16 + b.toNat / 16) / 16 = a.toNat := by omega
    have h' : (a.toNat % 4 * 16 + b.toNat / 16) % 16 * 16 + b.toNat % 16 * 4 / 4 = b.toNat := by omega
    simp only [encodeDigits, decodeDigits, Option.bind_eq_bind, base64Digit_base64Char _ (by omega : a.toNat / 4 < 64),
      base64Digit_base64Char _ (by omega : a.toNat % 4 * 16 + b.toNat / 16 < 64),
      base64Digit_base64Char _ (by omega : b.toNat % 16 * 4 < 64), Option.bind_some, h, h']
    rw [if_pos (by omega), UInt8.ofNat_toNat, UInt8.ofNat_toNat]
  | a :: b :: c :: rest => by
    have ha := a.toNat_lt
    have hb := b.toNat_lt
    have hc := c.toNat_lt
    have h : a.toNat / 4 * 4 + (a.toNat % 4 * 16 + b.toNat / 16) / 16 = a.toNat := by omega
    have h' : (a.toNat % 4 * 16 + b.toNat / 16) % 16 * 16 + (b.toNat % 16 * 4 + c.toNat / 64) / 4 = b.toNat := by omega
    have h'' : (b.toNat % 16 * 4 + c.toNat / 64) % 4 * 64 + c.toNat % 64 = c.toNat := by omega
    simp only [encodeDigits, decodeDigits, Option.bind_eq_bind, base64Digit_base64Char _ (by omega : a.toNat / 4 < 64),
      base64Digit_base64Char _ (by omega : a.toNat % 4 * 16 + b.toNat / 16 < 64),
      base64Digit_base64Char _ (by omega : b.toNat % 16 * 4 + c.toNat / 64 < 64),
      base64Digit_base64Char _ (by omega : c.toNat % 64 < 64), Option.bind_some, h, h', h'',
      decodeDigits_encodeDigits rest, UInt8.ofNat_toNat]

/-- **What a secret's text decodes to is the secret.** -/
theorem decodeBase64_encode (l : List UInt8) : decodeBase64 (encode l) = some l := by
  rw [decodeBase64, encode, String.toList_ofList, decodeDigits_encodeDigits]

theorem base64Char_base64Digit {c : Char} {n : Nat} (h : base64Digit c = some n) : n < 64 ∧ base64Char n = c := by
  rw [← Char.ofNat_toNat c]
  simp only [base64Digit] at h
  generalize c.toNat = k at h ⊢
  split_ifs at h <;> cases h <;> refine ⟨by omega, ?_⟩
  · rw [base64Char, if_pos (by omega), Nat.sub_add_cancel (by omega)]
  · rw [base64Char, if_neg (by omega), if_pos (by omega), Nat.sub_add_cancel (by omega)]
  · rw [base64Char, if_neg (by omega), if_neg (by omega), if_pos (by omega), Nat.add_sub_cancel]
  · subst k
    rfl
  · subst k
    rfl

theorem encodeDigits_decodeDigits : ∀ {s : List Char} {l : List UInt8}, decodeDigits s = some l → encodeDigits l = s
  | [], l, h => by
    cases h
    rfl
  | [_], _, h => by cases h
  | [a, b], l, h => by
    simp only [decodeDigits, Option.bind_eq_bind, Option.bind_eq_some_iff, Option.ite_none_right_eq_some,
      Option.some.injEq] at h
    obtain ⟨x, hx, y, hy, hz, rfl⟩ := h
    obtain ⟨hx, rfl⟩ := base64Char_base64Digit hx
    obtain ⟨hy, rfl⟩ := base64Char_base64Digit hy
    simp only [encodeDigits, UInt8.toNat_ofNat', List.cons.injEq, and_true]
    refine ⟨congrArg _ ?_, congrArg _ ?_⟩ <;> omega
  | [a, b, c], l, h => by
    simp only [decodeDigits, Option.bind_eq_bind, Option.bind_eq_some_iff, Option.ite_none_right_eq_some,
      Option.some.injEq] at h
    obtain ⟨x, hx, y, hy, z, hz, hw, rfl⟩ := h
    obtain ⟨hx, rfl⟩ := base64Char_base64Digit hx
    obtain ⟨hy, rfl⟩ := base64Char_base64Digit hy
    obtain ⟨hz, rfl⟩ := base64Char_base64Digit hz
    simp only [encodeDigits, UInt8.toNat_ofNat', List.cons.injEq, and_true]
    refine ⟨congrArg _ ?_, congrArg _ ?_, congrArg _ ?_⟩ <;> omega
  | a :: b :: c :: d :: rest, l, h => by
    simp only [decodeDigits, Option.bind_eq_bind, Option.bind_eq_some_iff, Option.some.injEq] at h
    obtain ⟨x, hx, y, hy, z, hz, w, hw, tail, htail, rfl⟩ := h
    obtain ⟨hx, rfl⟩ := base64Char_base64Digit hx
    obtain ⟨hy, rfl⟩ := base64Char_base64Digit hy
    obtain ⟨hz, rfl⟩ := base64Char_base64Digit hz
    obtain ⟨hw, rfl⟩ := base64Char_base64Digit hw
    simp only [encodeDigits, UInt8.toNat_ofNat', encodeDigits_decodeDigits htail, List.cons.injEq, and_true]
    refine ⟨congrArg _ ?_, congrArg _ ?_, congrArg _ ?_, congrArg _ ?_⟩ <;> omega

theorem utf8Size_base64Char : ∀ n < 64, (base64Char n).utf8Size = 1 := by decide

theorem utf8ByteSize_encode : ∀ l : List UInt8, (encode l).utf8ByteSize = (l.length * 8 + 5) / 6
  | [] => rfl
  | [a] => by
    have := a.toNat_lt
    simp (disch := omega) [encode, encodeDigits, String.ofList_cons, utf8Size_base64Char]
  | [a, b] => by
    have := a.toNat_lt
    have := b.toNat_lt
    simp (disch := omega) [encode, encodeDigits, String.ofList_cons, utf8Size_base64Char]
  | a :: b :: c :: rest => by
    have := a.toNat_lt
    have := b.toNat_lt
    have := c.toNat_lt
    have := utf8ByteSize_encode rest
    simp (disch := omega) [encode, encodeDigits, String.ofList_cons, utf8Size_base64Char] at this ⊢
    omega

/-! ## Secrets -/

/-- `devices::decode::<N>`: the exact length first, then the engine. -/
def decode (value : String) : Option (Bytes n) :=
  if value.utf8ByteSize ≠ (n * 8 + 5) / 6 then none else (decodeBase64 value).bind (Bytes.ofList? n)

def hash (ext : External) (value : List UInt8) : Bytes 32 := ext.sha256 value

/-- `secrets::matches`: the expected digest is the supplied secret's. -/
def matchesHash (ext : External) (expected : Bytes 32) (supplied : List UInt8) : Bool := decide (expected = hash ext supplied)

theorem matchesHash_iff {ext : External} {expected : Bytes 32} {supplied : List UInt8} :
    matchesHash ext expected supplied = true ↔ hash ext supplied = expected := by
  rw [matchesHash, decide_eq_true_iff, eq_comm]

end Yuzora
