import Mathlib.Algebra.GroupWithZero.Nat
import Mathlib.Data.List.Infix
/-!
# Utf16 — strings of code units

A string is its UTF-16 code units.  It is walked by code points (`points`): a surrogate pair is one, and so is any other
unit.  Where it is encoded in UTF-8 a lone surrogate is replaced, which takes three bytes.
-/
namespace Yuzora
namespace Utf16

open List

abbrev Text := List Nat

def isHigh (c : Nat) : Bool := decide (0xd800 ≤ c ∧ c < 0xdc00)
def isLow (c : Nat) : Bool := decide (0xdc00 ≤ c ∧ c < 0xe000)

def points : Text → List Text
  | [] => []
  | [c] => [[c]]
  | high :: low :: rest =>
    if isHigh high && isLow low then [high, low] :: points rest else [high] :: points (low :: rest)

def pointBytes : Text → Nat
  | [c] => if c < 0x80 then 1 else if c < 0x800 then 2 else 3
  | _ => 4

def utf8Length (text : Text) : Nat := ((points text).map pointBytes).sum

theorem points_pair (high low : Nat) (rest : Text) : points (high :: low :: rest) =
    if isHigh high && isLow low then [high, low] :: points rest else [high] :: points (low :: rest) :=
  rfl

variable {c : Nat}

theorem not_high_of_low (h : isLow c = true) : isHigh c = false := by
  simp only [isLow, isHigh, decide_eq_true_eq, decide_eq_false_iff_not] at h ⊢
  omega

theorem pointBytes_surrogate (h : isHigh c = true ∨ isLow c = true) : pointBytes [c] = 3 := by
  simp only [isLow, isHigh, decide_eq_true_eq] at h
  simp only [pointBytes]
  rw [if_neg (by omega), if_neg (by omega)]

theorem points_cons (h : isHigh c = false) (rest : Text) : points (c :: rest) = [c] :: points rest := by
  cases rest with
  | nil => rfl
  | cons d rest => simp [points_pair, h]

theorem flatten_points (text : Text) : (points text).flatten = text := by
  fun_induction points text with
  | case1 => rfl
  | case2 c => rfl
  | case3 _ _ _ _ ih | case4 _ _ _ _ ih => simp [ih]

theorem points_shape (text : Text) : ∀ p ∈ points text, (∃ c, p = [c]) ∨
    ∃ high low, p = [high, low] ∧ isHigh high = true ∧ isLow low = true := by
  fun_induction points text with
  | case1 => simp
  | case2 c => simp
  | case3 high low rest hpair ih =>
    simp only [Bool.and_eq_true] at hpair
    intro p hp
    rcases mem_cons.1 hp with rfl | hp
    · exact .inr ⟨high, low, rfl, hpair.1, hpair.2⟩
    · exact ih p hp
  | case4 high low rest hpair ih =>
    intro p hp
    rcases mem_cons.1 hp with rfl | hp
    · exact .inl ⟨high, rfl⟩
    · exact ih p hp

@[simp] theorem utf8Length_nil : utf8Length [] = 0 := rfl

theorem utf8Length_cons_le (c : Nat) (rest : Text) : utf8Length (c :: rest) ≤ pointBytes [c] + utf8Length rest := by
  unfold utf8Length
  cases rest with
  | nil => rfl
  | cons d rest =>
    by_cases hpair : (isHigh c && isLow d) = true
    · have hboth := hpair
      simp only [Bool.and_eq_true] at hboth
      have hc := pointBytes_surrogate (.inl hboth.1)
      have hd := pointBytes_surrogate (.inr hboth.2)
      rw [points_cons (not_high_of_low hboth.2) rest]
      simp only [points_pair, hpair, if_true, map_cons, sum_cons, hc, hd]
      have h4 : pointBytes [c, d] = 4 := rfl
      omega
    · simp [points_pair, hpair]

/-- **Strings that are joined take no more bytes than apart**: a surrogate that stood alone may find its other half. -/
theorem utf8Length_append_le (a b : Text) : utf8Length (a ++ b) ≤ utf8Length a + utf8Length b := by
  fun_induction points a with
  | case1 => simp
  | case2 c =>
    exact utf8Length_cons_le c b
  | case3 high low rest hpair ih =>
    have h : ∀ tail, utf8Length (high :: low :: tail) = 4 + utf8Length tail := by
      intro tail
      simp [utf8Length, points_pair, hpair, pointBytes]
    rw [cons_append, cons_append, h, h]
    omega
  | case4 high low rest hpair ih =>
    have h : ∀ tail, utf8Length (high :: low :: tail) = pointBytes [high] + utf8Length (low :: tail) := by
      intro tail
      simp [utf8Length, points_pair, hpair]
    rw [cons_append] at ih
    rw [cons_append, cons_append, h, h]
    omega

end Utf16
end Yuzora
