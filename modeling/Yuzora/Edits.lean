import Mathlib.Data.List.Basic
/-!
# Edits — lists of hunks between two sequences

A hunk replaces a range of `a` by a range of `b`.  What a list of hunks makes of a stretch of `a` is `inside`; it is cut
and joined like the stretch itself.
-/
namespace Yuzora

open List

structure Hunk where
  aFrom : Nat
  aTo : Nat
  bFrom : Nat
  bTo : Nat
  deriving DecidableEq

section Slice
variable {T U : Type}

/-- The elements from `i` on, before `j`. -/
def slice (l : List T) (i j : Nat) : List T := (l.take j).drop i

@[simp] theorem slice_self (l : List T) (i : Nat) : slice l i i = [] := by
  rw [slice, drop_eq_nil_iff, length_take]
  omega

theorem length_slice {l : List T} {i j : Nat} (hj : j ≤ l.length) : (slice l i j).length = j - i := by
  rw [slice, length_drop, length_take]
  omega

theorem slice_length (l : List T) (i : Nat) : slice l i l.length = l.drop i := by
  rw [slice, take_length]

theorem slice_map (f : T → U) (l : List T) (i j : Nat) : slice (l.map f) i j = (slice l i j).map f := by
  rw [slice, slice, map_drop, map_take]

theorem slice_append_slice {l : List T} {i j k : Nat} (hij : i ≤ j) (hjk : j ≤ k) :
    slice l i j ++ slice l j k = slice l i k := by
  have h : l.take j = (l.take k).take j := by rw [take_take, Nat.min_eq_left hjk]
  rw [slice, slice, slice, h]
  have hd : (l.take k).drop j = ((l.take k).drop i).drop (j - i) := by rw [drop_drop, Nat.add_sub_cancel' hij]
  rw [drop_take, hd, take_append_drop]

theorem slice_of_drop {l x y : List T} {i : Nat} (h : l.drop i = x ++ y) :
    slice l i (i + x.length) = x ∧ l.drop (i + x.length) = y := by
  constructor
  · rw [slice, drop_take, Nat.add_sub_cancel_left, h, take_left]
  · rw [← drop_drop, h, drop_left]

end Slice

/-- In order and apart from each other, all between `lo` and `hi`. -/
def Within (lo hi : Nat) : List Hunk → Prop
  | [] => lo ≤ hi
  | h :: rest => lo ≤ h.aFrom ∧ h.aFrom ≤ h.aTo ∧ Within h.aTo hi rest

/-- What the hunks make of the stretch of `a` from `lo` to `hi`. -/
def inside {T : Type} (a b : List T) (lo hi : Nat) : List Hunk → List T
  | [] => slice a lo hi
  | h :: rest => slice a lo h.aFrom ++ slice b h.bFrom h.bTo ++ inside a b h.aTo hi rest

def growth : List Hunk → Int
  | [] => 0
  | h :: rest => ((h.bTo : Int) - h.bFrom) - (h.aTo - h.aFrom) + growth rest

section Hunks
variable {T U : Type} {a b : List T} {lo mid hi : Nat}

theorem Within.le : ∀ {hs : List Hunk} {lo : Nat}, Within lo hi hs → lo ≤ hi
  | [], _, h => h
  | _ :: _, _, ⟨hlo, hh, hrest⟩ => Nat.le_trans hlo (Nat.le_trans hh hrest.le)

theorem Within.append : ∀ {hs rest : List Hunk} {lo : Nat}, Within lo mid hs → Within mid hi rest → Within lo hi (hs ++ rest)
  | [], [], _, h, hr => Nat.le_trans h hr
  | [], _ :: _, _, h, hr => ⟨Nat.le_trans h hr.1, hr.2⟩
  | _ :: _, _, _, h, hr => ⟨h.1, h.2.1, h.2.2.append hr⟩

theorem inside_skip {hs : List Hunk} (hlo : lo ≤ mid) (h : Within mid hi hs) :
    inside a b lo hi hs = slice a lo mid ++ inside a b mid hi hs := by
  cases hs with
  | nil => exact (slice_append_slice hlo h).symm
  | cons h' rest => rw [inside, inside, ← slice_append_slice hlo h.1, append_assoc, append_assoc, append_assoc]

/-- **A stretch is edited part by part.** -/
theorem inside_append {rest : List Hunk} (hr : Within mid hi rest) : ∀ {hs : List Hunk} {lo : Nat}, Within lo mid hs →
      inside a b lo hi (hs ++ rest) = inside a b lo mid hs ++ inside a b mid hi rest
  | [], _, h => inside_skip h hr
  | h' :: hs, _, h => by
    rw [cons_append, inside, inside, inside_append hr h.2.2, ← append_assoc]

theorem inside_map (f : T → U) (a b : List T) :
    ∀ (hs : List Hunk) (lo hi : Nat), inside (a.map f) (b.map f) lo hi hs = (inside a b lo hi hs).map f
  | [], lo, hi => slice_map f a lo hi
  | h :: rest, lo, hi => by
    rw [inside, inside, inside_map f a b rest, slice_map, slice_map, map_append, map_append]

theorem length_inside (hhi : hi ≤ a.length) : ∀ {hs : List Hunk} {lo : Nat}, Within lo hi hs →
    (∀ h ∈ hs, h.bFrom ≤ h.bTo ∧ h.bTo ≤ b.length) →
      ((inside a b lo hi hs).length : Int) = (hi : Int) - lo + growth hs
  | [], lo, h, _ => by
    have : lo ≤ hi := h
    rw [inside, growth, length_slice hhi]
    omega
  | h' :: hs, lo, ⟨hlo, hh, hrest⟩, hb => by
    have hle := hrest.le
    have hb' := hb h' mem_cons_self
    have ih := length_inside hhi hrest fun x hx => hb x (mem_cons_of_mem _ hx)
    rw [inside, growth, length_append, length_append, length_slice (by omega), length_slice hb'.2]
    omega

end Hunks

/-- The hunks turn `a` into `b`: in order, disjoint and not touching. -/
structure IsDiff {T : Type} (a b : List T) (hs : List Hunk) : Prop where
  apart : hs.Pairwise (fun h h' => h.aTo < h'.aFrom)
  aRange : ∀ h ∈ hs, h.aFrom ≤ h.aTo ∧ h.aTo ≤ a.length
  bRange : ∀ h ∈ hs, h.bFrom ≤ h.bTo ∧ h.bTo ≤ b.length
  applies : inside a b 0 a.length hs = b

theorem IsDiff.sorted {T : Type} {a b : List T} {hs : List Hunk} (h : IsDiff a b hs) :
    hs.Pairwise (fun h h' => h.aFrom < h'.aFrom) := by
  refine h.apart.imp_of_mem fun {x y} hx _ hxy => ?_
  exact Nat.lt_of_le_of_lt (h.aRange x hx).1 hxy

def Tight {T : Type} (a b : List T) (hs : List Hunk) : Prop :=
  ∀ run lo hi, run <:+: hs → run ≠ [] → Within lo hi run → hi ≤ a.length → inside a b lo hi run ≠ slice a lo hi

section Map
variable {T U : Type} {f : T → U} {a b : List T} {hs : List Hunk}

theorem inside_subset : ∀ (hs : List Hunk) (lo hi : Nat), ∀ x ∈ inside a b lo hi hs, x ∈ a ++ b
  | [], lo, hi, x, hx => mem_append_left b (mem_of_mem_take (mem_of_mem_drop hx))
  | h :: rest, lo, hi, x, hx => by
    rw [inside, mem_append, mem_append] at hx
    rcases hx with (hx | hx) | hx
    · exact mem_append_left b (mem_of_mem_take (mem_of_mem_drop hx))
    · exact mem_append_right a (mem_of_mem_take (mem_of_mem_drop hx))
    · exact inside_subset rest _ _ x hx

theorem map_inj {l l' : List T} (hf : ∀ x ∈ a ++ b, ∀ y ∈ a ++ b, f x = f y → x = y) (hl : ∀ x ∈ l, x ∈ a ++ b)
    (hl' : ∀ x ∈ l', x ∈ a ++ b) (h : l.map f = l'.map f) : l = l' := by
  induction l generalizing l' with
  | nil =>
    exact (map_eq_nil_iff.1 h.symm).symm
  | cons x l ih =>
    cases l' with
    | nil => cases h
    | cons y l' =>
      rw [map_cons, map_cons, List.cons.injEq] at h
      rw [hf x (hl x mem_cons_self) y (hl' y mem_cons_self) h.1,
        ih (fun z hz => hl z (mem_cons_of_mem x hz)) (fun z hz => hl' z (mem_cons_of_mem y hz)) h.2]

theorem IsDiff.of_map (hf : ∀ x ∈ a ++ b, ∀ y ∈ a ++ b, f x = f y → x = y) (h : IsDiff (a.map f) (b.map f) hs) :
    IsDiff a b hs where
  apart := h.apart
  aRange := fun x hx => by
    have := h.aRange x hx
    rwa [length_map] at this
  bRange := fun x hx => by
    have := h.bRange x hx
    rwa [length_map] at this
  applies := by
    have := h.applies
    rw [inside_map, length_map] at this
    exact map_inj hf (inside_subset hs _ _) (fun x hx => mem_append_right a hx) this

theorem Tight.of_map (h : Tight (a.map f) (b.map f) hs) : Tight a b hs := by
  intro run lo hi hrun hne hw hhi he
  refine h run lo hi hrun hne hw ?_ ?_
  · rwa [length_map]
  · rw [inside_map, slice_map, he]

end Map

end Yuzora
