import Mathlib.Data.List.Basic
/-!
# Pieces — lists cut at a separator

All the pieces of a list, or the first few of them with the rest of the list as the last one.
-/
namespace Yuzora
namespace Pieces

open List

variable {α : Type} [DecidableEq α]

def pieces (sep : α) : List α → List (List α)
  | [] => [[]]
  | a :: s =>
    if a = sep then [] :: pieces sep s
    else ((pieces sep s).head?.elim [a] (a :: ·)) :: (pieces sep s).tail

def cut (sep : α) : List α → List α × Option (List α)
  | [] => ([], none)
  | a :: s => if a = sep then ([], some s) else (a :: (cut sep s).1, (cut sep s).2)

/-- At most `n` pieces; the last of them is all that is left. -/
def splitn (sep : α) : Nat → List α → List (List α)
  | 0, _ => []
  | 1, s => [s]
  | n + 2, s => (cut sep s).1 :: (cut sep s).2.elim [] (splitn sep (n + 1))

theorem pieces_ite (sep a : α) (s : List α) : pieces sep (a :: s) =
    if a = sep then [] :: pieces sep s else ((pieces sep s).head?.elim [a] (a :: ·)) :: (pieces sep s).tail :=
  rfl

theorem cut_cons (sep a : α) (s : List α) :
    cut sep (a :: s) = if a = sep then ([], some s) else (a :: (cut sep s).1, (cut sep s).2) :=
  rfl

theorem splitn_succ (sep : α) (n : Nat) (s : List α) :
    splitn sep (n + 2) s = (cut sep s).1 :: (cut sep s).2.elim [] (splitn sep (n + 1)) :=
  rfl

theorem pieces_cons_sep (sep : α) (s : List α) : pieces sep (sep :: s) = [] :: pieces sep s := if_pos rfl

theorem pieces_ne_nil (sep : α) (s : List α) : pieces sep s ≠ [] := by
  cases s with
  | nil => exact cons_ne_nil _ _
  | cons a s =>
    rw [pieces_ite]
    by_cases h : a = sep
    · rw [if_pos h]
      exact cons_ne_nil _ _
    · rw [if_neg h]
      exact cons_ne_nil _ _

variable {sep : α}

theorem pieces_cons {a : α} {s piece : List α} {rest : List (List α)} (ha : a ≠ sep)
    (h : pieces sep s = piece :: rest) : pieces sep (a :: s) = (a :: piece) :: rest := by
  rw [pieces_ite, if_neg ha, h]
  rfl

variable {a : List α} {fields : List (List α)}

/-- **The first piece** is what is before the first separator. -/
theorem pieces_append (ha : sep ∉ a) (b : List α) : pieces sep (a ++ sep :: b) = a :: pieces sep b := by
  induction a with
  | nil => exact pieces_cons_sep sep b
  | cons x a ih =>
    have hx : x ≠ sep := fun h => ha (h ▸ mem_cons_self)
    exact pieces_cons hx (ih fun h => ha (mem_cons_of_mem _ h))

theorem pieces_of_notMem (ha : sep ∉ a) : pieces sep a = [a] := by
  induction a with
  | nil => rfl
  | cons x a ih =>
    have hx : x ≠ sep := fun h => ha (h ▸ mem_cons_self)
    exact pieces_cons hx (ih fun h => ha (mem_cons_of_mem _ h))

theorem pieces_terminated (h : ∀ field ∈ fields, sep ∉ field) :
    pieces sep (fields.flatMap (· ++ [sep])) = fields ++ [[]] := by
  induction fields with
  | nil => rfl
  | cons field fields ih =>
    rw [flatMap_cons, append_assoc, singleton_append, pieces_append (h field mem_cons_self),
      ih fun f hf => h f (mem_cons_of_mem _ hf)]
    rfl

/-- **The pieces put together again.** -/
theorem intercalate_pieces (sep : α) (s : List α) : [sep].intercalate (pieces sep s) = s := by
  induction s with
  | nil => rfl
  | cons a s ih =>
    obtain ⟨piece, rest, hs⟩ := exists_cons_of_ne_nil (pieces_ne_nil sep s)
    rw [hs] at ih
    by_cases ha : a = sep
    · rw [ha, pieces_cons_sep, hs, intercalate_cons_cons, ih]
      rfl
    · rw [pieces_cons ha hs]
      cases rest with
      | nil =>
        rw [intercalate_singleton] at ih ⊢
        rw [ih]
      | cons next rest =>
        rw [intercalate_cons_cons] at ih ⊢
        rw [cons_append, cons_append, ih]

theorem pieces_intercalate (hne : fields ≠ []) (h : ∀ field ∈ fields, sep ∉ field) :
    pieces sep ([sep].intercalate fields) = fields := by
  induction fields with
  | nil => exact absurd rfl hne
  | cons field fields ih =>
    cases fields with
    | nil => rw [intercalate_singleton, pieces_of_notMem (h field mem_cons_self)]
    | cons next fields =>
      rw [intercalate_cons_cons, append_assoc, singleton_append,
        pieces_append (h field mem_cons_self),
        ih (cons_ne_nil _ _) fun f hf => h f (mem_cons_of_mem _ hf)]

theorem cut_append (ha : sep ∉ a) (b : List α) : cut sep (a ++ sep :: b) = (a, some b) := by
  induction a with
  | nil => exact if_pos rfl
  | cons x a ih =>
    have hx : x ≠ sep := fun h => ha (h ▸ mem_cons_self)
    rw [cons_append, cut_cons, if_neg hx, ih fun h => ha (mem_cons_of_mem _ h)]

def glued (sep : α) (fields : List (List α)) (last : List α) : List α := fields.flatMap (· ++ [sep]) ++ last

omit [DecidableEq α] in
theorem glued_cons (sep : α) (field : List α) (fields : List (List α)) (last : List α) :
    glued sep (field :: fields) last = field ++ sep :: glued sep fields last := by
  rw [glued, flatMap_cons, append_assoc, append_assoc]
  rfl

/-- **The pieces of glued fields**, whatever the last of them is. -/
theorem splitn_glued {sep : α} (h : ∀ field ∈ fields, sep ∉ field) (last : List α) :
    splitn sep (fields.length + 1) (glued sep fields last) = fields ++ [last] := by
  induction fields with
  | nil => rfl
  | cons field fields ih =>
    rw [glued_cons, length_cons, splitn_succ, cut_append (h field mem_cons_self), Option.elim_some,
      ih fun f hf => h f (mem_cons_of_mem _ hf)]
    rfl

theorem cut_some {sep : α} {s b : List α} (h : (cut sep s).2 = some b) : s = (cut sep s).1 ++ sep :: b := by
  induction s with
  | nil => exact absurd h (Option.some_ne_none b).symm
  | cons a s ih =>
    rw [cut_cons] at h ⊢
    by_cases ha : a = sep
    · rw [if_pos ha] at h ⊢
      rw [ha, Option.some.inj h]
      rfl
    · rw [if_neg ha] at h ⊢
      exact congrArg (a :: ·) (ih h)

theorem length_splitn_le (sep : α) (n : Nat) (s : List α) : (splitn sep n s).length ≤ s.count sep + 1 := by
  induction n generalizing s with
  | zero => exact Nat.zero_le _
  | succ n ih =>
    cases n with
    | zero => exact Nat.succ_le_succ (Nat.zero_le _)
    | succ n =>
      rw [splitn_succ, length_cons]
      cases hcut : (cut sep s).2 with
      | none => exact Nat.succ_le_succ (Nat.zero_le _)
      | some b =>
        have hcount : s.count sep = (cut sep s).1.count sep + (b.count sep + 1) := by
          conv_lhs => rw [cut_some hcut, count_append, count_cons_self]
        have hb := ih b
        rw [Option.elim_some]
        omega

end Pieces
end Yuzora
