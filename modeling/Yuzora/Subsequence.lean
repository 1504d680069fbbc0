import Mathlib.Data.List.Infix
/-!
# Subsequence — the longest common subsequences

`Longest a b n`: a longest common subsequence of two lists has length `n`.  The rules are those of the dynamic program
(one more element on both sides, or on either), and that a common beginning and a common end belong to a longest one.
-/
namespace Yuzora
namespace Subsequence

open List

variable {α : Type} {a b l : List α} {x y : α} {m n : Nat}

def Common (l a b : List α) : Prop := l.Sublist a ∧ l.Sublist b

structure Longest (a b : List α) (n : Nat) : Prop where
  found : ∃ l, Common l a b ∧ l.length = n
  most : ∀ l, Common l a b → l.length ≤ n

theorem Longest.unique (h : Longest a b m) (h' : Longest a b n) : m = n := by
  obtain ⟨l, hl, rfl⟩ := h.found
  obtain ⟨l', hl', rfl⟩ := h'.found
  have h1 := h'.most l hl
  have h2 := h.most l' hl'
  omega

theorem longest_nil_left (b : List α) : Longest [] b 0 where
  found := ⟨[], ⟨nil_sublist _, nil_sublist _⟩, rfl⟩
  most l hl := by simp [sublist_nil.1 hl.1]

theorem longest_nil_right (a : List α) : Longest a [] 0 where
  found := ⟨[], ⟨nil_sublist _, nil_sublist _⟩, rfl⟩
  most l hl := by simp [sublist_nil.1 hl.2]

/-! ## At the front -/

theorem Longest.cons (h : Longest a b n) (x : α) : Longest (x :: a) (x :: b) (n + 1) where
  found := by
    obtain ⟨l, hl, rfl⟩ := h.found
    exact ⟨x :: l, ⟨hl.1.cons_cons x, hl.2.cons_cons x⟩, rfl⟩
  most l hl := by
    cases l with
    | nil => exact Nat.zero_le _
    | cons z l => exact Nat.succ_le_succ (h.most l ⟨hl.1.of_cons_cons, hl.2.of_cons_cons⟩)

theorem sublist_of_ne {z : α} (h : (z :: l).Sublist (x :: a)) (hne : z ≠ x) : (z :: l).Sublist a := by
  cases h with
  | cons _ h => exact h
  | cons_cons _ h => exact absurd rfl hne

theorem Longest.cons_ne (hne : x ≠ y) (h : Longest a (y :: b) m) (h' : Longest (x :: a) b n) :
    Longest (x :: a) (y :: b) (max m n) where
  found := by
    by_cases hmn : n ≤ m
    · obtain ⟨l, hl, hlen⟩ := h.found
      exact ⟨l, ⟨hl.1.cons x, hl.2⟩, by omega⟩
    · obtain ⟨l, hl, hlen⟩ := h'.found
      exact ⟨l, ⟨hl.1, hl.2.cons y⟩, by omega⟩
  most l hl := by
    cases l with
    | nil => exact Nat.zero_le _
    | cons z l =>
      by_cases hz : z = x
      · have hzy : z ≠ y := fun hy => hne (hz.symm.trans hy)
        have := h'.most (z :: l) ⟨hl.1, sublist_of_ne hl.2 hzy⟩
        omega
      · have := h.most (z :: l) ⟨sublist_of_ne hl.1 hz, hl.2⟩
        omega

/-- **A common beginning belongs to a longest common subsequence.** -/
theorem Longest.append_left (h : Longest a b n) (p : List α) : Longest (p ++ a) (p ++ b) (p.length + n) := by
  induction p with
  | nil => simpa using h
  | cons x p ih =>
    have := ih.cons x
    rwa [show p.length + n + 1 = (x :: p).length + n by simp only [length_cons]; omega] at this

/-! ## At the end -/

theorem Common.reverse (h : Common l a b) : Common l.reverse a.reverse b.reverse := ⟨h.1.reverse, h.2.reverse⟩

theorem Longest.reverse (h : Longest a b n) : Longest a.reverse b.reverse n where
  found := by
    obtain ⟨l, hl, hlen⟩ := h.found
    exact ⟨l.reverse, hl.reverse, by simpa using hlen⟩
  most l hl := by
    have hl' := hl.reverse
    simp only [reverse_reverse] at hl'
    simpa using h.most _ hl'

/-- **A common end belongs to a longest common subsequence.** -/
theorem Longest.append_right (h : Longest a b n) (s : List α) : Longest (a ++ s) (b ++ s) (n + s.length) := by
  have := (h.reverse.append_left s.reverse).reverse
  simp only [reverse_append, reverse_reverse, length_reverse] at this
  rwa [Nat.add_comm] at this

theorem Longest.snoc (h : Longest a b n) (x : α) : Longest (a ++ [x]) (b ++ [x]) (n + 1) := h.append_right [x]

theorem Longest.snoc_ne (hne : x ≠ y) (h : Longest a (b ++ [y]) m) (h' : Longest (a ++ [x]) b n) :
    Longest (a ++ [x]) (b ++ [y]) (max m n) := by
  have h1 := h.reverse
  have h2 := h'.reverse
  simp only [reverse_append, reverse_singleton, singleton_append] at h1 h2
  have := (h1.cons_ne hne h2).reverse
  simpa using this

/-! ## Between three lists -/

theorem Common.symm (h : Common l a b) : Common l b a := ⟨h.2, h.1⟩

theorem Longest.symm (h : Longest a b n) : Longest b a n where
  found := by
    obtain ⟨l, hl, hn⟩ := h.found
    exact ⟨l, hl.symm, hn⟩
  most l hl := h.most l hl.symm

theorem Longest.eq_of_length (h : Longest a b n) (ha : a.length = n) (hb : b.length = n) : a = b := by
  obtain ⟨l, hl, hn⟩ := h.found
  exact (hl.1.eq_of_length (by omega)).symm.trans (hl.2.eq_of_length (by omega))

theorem longest_self (a : List α) : Longest a a a.length where
  found := ⟨a, ⟨.refl a, .refl a⟩, rfl⟩
  most _ hl := hl.1.length_le

/-- **What two parts of one list have in common** is at least what the list is too short to hold apart. -/
theorem exists_common : ∀ {l a b : List α}, a.Sublist l → b.Sublist l →
    ∃ c, Common c a b ∧ a.length + b.length ≤ c.length + l.length
  | [], a, b, ha, hb => ⟨[], ⟨nil_sublist _, nil_sublist _⟩, by simp [sublist_nil.1 ha, sublist_nil.1 hb]⟩
  | x :: l, a, b, ha, hb => by
    cases ha with
    | cons _ ha =>
      cases hb with
      | cons _ hb =>
        obtain ⟨c, hc, hle⟩ := exists_common ha hb
        exact ⟨c, hc, by simp only [length_cons]; omega⟩
      | cons_cons _ hb =>
        obtain ⟨c, hc, hle⟩ := exists_common ha hb
        exact ⟨c, ⟨hc.1, hc.2.cons x⟩, by simp only [length_cons]; omega⟩
    | cons_cons _ ha =>
      cases hb with
      | cons _ hb =>
        obtain ⟨c, hc, hle⟩ := exists_common ha hb
        exact ⟨c, ⟨hc.1.cons x, hc.2⟩, by simp only [length_cons]; omega⟩
      | cons_cons _ hb =>
        obtain ⟨c, hc, hle⟩ := exists_common ha hb
        exact ⟨x :: c, ⟨hc.1.cons_cons x, hc.2.cons_cons x⟩, by simp only [length_cons]; omega⟩

/-- **From one list to a third through a second.** -/
theorem Longest.through {c : List α} {k : Nat} (hab : Longest a b m) (hbc : Longest b c n) (hac : Longest a c k) :
    m + n ≤ k + b.length := by
  obtain ⟨l, hl, rfl⟩ := hab.found
  obtain ⟨l', hl', rfl⟩ := hbc.found
  obtain ⟨c', hc, hle⟩ := exists_common hl.2 hl'.1
  have := hac.most c' ⟨hc.1.trans hl.1, hc.2.trans hl'.2⟩
  omega

end Subsequence
end Yuzora
