import Mathlib.Algebra.Order.Ring.Int
/-!
# Decimal — numbers as text

Rust's way to read an integer from text, and the text a number is written as.
-/
namespace Yuzora
namespace Decimal

open List

def digits? (s : List Char) : Option Nat :=
  if s ≠ [] ∧ s.all Char.isDigit then some (Nat.ofDigitChars 10 s 0) else none

/-- `str::parse` of an unsigned integer: a plus sign may stand before the digits. -/
def parseUnsigned (max : Nat) (s : List Char) : Option Nat :=
  (digits? (if s.head? = some '+' then s.tail else s)).filter (· ≤ max)

/-- `str::parse` of a signed integer of 64 bits. -/
def parseI64 (s : List Char) : Option Int :=
  if s.head? = some '-' then ((digits? s.tail).filter (· ≤ 2 ^ 63)).map fun n : Nat => -Int.ofNat n
  else (parseUnsigned (2 ^ 63 - 1) s).map Int.ofNat

def decimal (n : Nat) : List Char := Nat.toDigits 10 n

def decimalInt : Int → List Char
  | .ofNat n => decimal n
  | .negSucc n => '-' :: decimal (n + 1)

theorem decimal_ne_nil (n : Nat) : decimal n ≠ [] := Nat.toDigits_ne_nil

variable {c : Char}

variable {n : Nat} {s : List Char}

theorem isDigit_of_mem (h : c ∈ decimal n) : c.isDigit = true :=
  Nat.isDigit_of_mem_toDigits (by decide) (by decide) h

theorem notMem_decimal (h : c.isDigit = false) (n : Nat) : c ∉ decimal n := by
  intro hc
  rw [isDigit_of_mem hc] at h
  exact Bool.noConfusion h

theorem digits_decimal (n : Nat) : digits? (decimal n) = some n := by
  rw [digits?, if_pos ⟨decimal_ne_nil n, all_eq_true.2 fun c hc => isDigit_of_mem hc⟩]
  exact congrArg some Nat.ofDigitChars_ten_toDigits

theorem head_decimal (h : c.isDigit = false) (n : Nat) : (decimal n).head? ≠ some c := fun hhead =>
  notMem_decimal h n (mem_of_head? hhead)

/-- **A number is read as it is written.** -/
theorem parseUnsigned_decimal {max : Nat} (h : n ≤ max) : parseUnsigned max (decimal n) = some n := by
  rw [parseUnsigned, if_neg (head_decimal (by decide) n), digits_decimal, Option.filter_some, if_pos (decide_eq_true h)]

theorem digits_some (h : digits? s = some n) : s ≠ [] ∧ ∀ c ∈ s, c.isDigit = true := by
  unfold digits? at h
  by_cases hs : s ≠ [] ∧ s.all Char.isDigit = true
  · exact ⟨hs.1, all_eq_true.1 hs.2⟩
  · rw [if_neg hs] at h
    cases h

theorem parseUnsigned_some {max : Nat} (h : parseUnsigned max s = some n) :
    n ≤ max ∧ s ≠ [] ∧ ∀ c ∈ s, c.isDigit = true ∨ c = '+' := by
  rw [parseUnsigned, Option.filter_eq_some_iff] at h
  refine ⟨of_decide_eq_true h.2, ?_⟩
  cases s with
  | nil => exact absurd (digits_some h.1).1 (fun h => h rfl)
  | cons c s =>
    refine ⟨cons_ne_nil _ _, ?_⟩
    by_cases hc : c = '+'
    · subst hc
      intro d hd
      rcases mem_cons.1 hd with rfl | hd
      · exact .inr rfl
      · exact .inl ((digits_some h.1).2 d hd)
    · have hhead : ¬ (c :: s).head? = some '+' := fun h => hc (Option.some.inj h)
      rw [if_neg hhead] at h
      exact fun d hd => .inl ((digits_some h.1).2 d hd)

theorem mem_decimalInt {n : Int} (h : c ∈ decimalInt n) : c.isDigit = true ∨ c = '-' := by
  cases n with
  | ofNat n => exact .inl (isDigit_of_mem h)
  | negSucc n =>
    rcases mem_cons.1 h with h | h
    · exact .inr h
    · exact .inl (isDigit_of_mem h)

theorem decimalInt_ne_nil (n : Int) : decimalInt n ≠ [] := by
  cases n with
  | ofNat n => exact decimal_ne_nil n
  | negSucc n => exact cons_ne_nil _ _

theorem parseI64_decimalInt {n : Int} (hlow : -(2 : Int) ^ 63 ≤ n) (hhigh : n < 2 ^ 63) :
    parseI64 (decimalInt n) = some n := by
  cases n with
  | ofNat n =>
    have hn : n ≤ 2 ^ 63 - 1 := by
      simp only [Int.ofNat_eq_natCast] at hhigh
      omega
    rw [decimalInt, parseI64, if_neg (head_decimal (by decide) n), parseUnsigned_decimal hn]
    rfl
  | negSucc n =>
    have hn : n + 1 ≤ 2 ^ 63 := by
      omega
    rw [decimalInt, parseI64, head?_cons, if_pos rfl, tail_cons, digits_decimal, Option.filter_some,
      if_pos (decide_eq_true hn)]
    rfl

end Decimal
end Yuzora
