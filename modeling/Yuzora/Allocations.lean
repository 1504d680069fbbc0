import Yuzora.Table
/-!
# Allocations — strings, vectors and hash maps with the room they hold

Saturating arithmetic on `usize`, and the collections as far as an account of their memory sees them: a full vector
grows to twice its capacity and at least four, a full hash map to hashbrown's next capacity.
-/
namespace Yuzora

open List Table

/-! ## Saturating arithmetic -/

/-- `usize::MAX` -/
def usizeMax : Nat := 18446744073709551615

variable (n : Nat)

/-- What a `usize` that saturates keeps of a number. -/
def sat : Nat := min n usizeMax

/-- `saturating_add` -/
def satAdd (a b : Nat) : Nat := sat (a + b)

/-- `saturating_mul` -/
def satMul (a b : Nat) : Nat := sat (a * b)

theorem sat_le : sat n ≤ n := Nat.min_le_left _ _

theorem sat_le_max : sat n ≤ usizeMax := Nat.min_le_right _ _

theorem sat_mono {m n : Nat} (h : m ≤ n) : sat m ≤ sat n := by
  unfold sat
  omega

@[simp] theorem sat_sat : sat (sat n) = sat n := by
  unfold sat
  omega

@[simp] theorem sat_sat_add (m n : Nat) : sat (sat m + n) = sat (m + n) := by
  unfold sat
  omega

@[simp] theorem sat_add_sat (m n : Nat) : sat (m + sat n) = sat (m + n) := by
  unfold sat
  omega

theorem satAdd_lt {a b : Nat} (h : a < b) : satAdd n b = usizeMax ∨ satAdd n a < satAdd n b := by
  unfold satAdd sat
  omega

theorem satAdd_sat (m n : Nat) : satAdd (sat m) (sat n) = sat (m + n) := by
  unfold satAdd
  rw [sat_sat_add, sat_add_sat]

/-- **A fold of saturating additions saturates once.** -/
theorem foldl_sat {α : Type} {g : Nat → α → Nat} {f : α → Nat} (h : ∀ n a, g (sat n) a = sat (n + f a)) :
    ∀ (l : List α) (n : Nat), l.foldl g (sat n) = sat (n + total f l)
  | [], _ => rfl
  | a :: l, n => by
    rw [foldl_cons, h, foldl_sat h l, total, Nat.add_assoc]

theorem sat_zero : sat 0 = 0 := rfl

/-! ## Totals -/

section Totals
variable {α : Type} (f : α → Nat)

theorem total_append : ∀ l m : List α, total f (l ++ m) = total f l + total f m
  | [], m => (Nat.zero_add _).symm
  | a :: l, m => by
    rw [cons_append, total, total, total_append l m, Nat.add_assoc]

theorem total_singleton (a : α) : total f [a] = f a := rfl

theorem total_map {β : Type} (g : β → α) : ∀ l : List β, total f (l.map g) = total (f ∘ g) l
  | [] => rfl
  | b :: l => by
    rw [map_cons, total, total, total_map g l]
    rfl

theorem total_filter_add_not (p : α → Bool) : ∀ l : List α,
    total f (l.filter p) + total f (l.filter fun a => !p a) = total f l
  | [] => rfl
  | a :: l => by
    have ih := total_filter_add_not p l
    cases hp : p a with
    | true =>
      rw [filter_cons_of_pos hp, filter_cons_of_neg (by simp [hp]), total, total]
      omega
    | false =>
      rw [filter_cons_of_neg (by simp [hp]), filter_cons_of_pos (by simp [hp]), total, total]
      omega

theorem mul_length_le_total {b : Nat} : ∀ {l : List α}, (∀ a ∈ l, b ≤ f a) → b * l.length ≤ total f l
  | [], _ => Nat.le_refl _
  | a :: l, h => by
    have ih := mul_length_le_total fun x hx => h x (mem_cons_of_mem _ hx)
    have ha := h a mem_cons_self
    rw [total, length_cons, Nat.mul_succ]
    omega

end Totals

/-- **Erasing an entry takes its number from the total.** -/
theorem Table.total_erase_of_get {K V : Type} [DecidableEq K] {t : Table K V} {k : K} {v : V} (f : K × V → Nat)
    (h : t.get k = some v) : total f (t.erase k).entries + f (k, v) = total f t.entries := by
  have hm := get_eq_some.1 h
  have hsplit := total_filter_add_not f (fun e => decide (e.1 ≠ k)) t.entries
  have hkey : t.entries.filter (fun e => !decide (e.1 ≠ k)) = [(k, v)] := by
    obtain ⟨l, r, hs⟩ := append_of_mem hm
    have hn := t.nodup
    rw [hs, map_append, map_cons, nodup_append] at hn
    obtain ⟨-, hr, hlr⟩ := hn
    rw [nodup_cons] at hr
    have none : ∀ es : List (K × V), (∀ e ∈ es, e.1 ≠ k) → es.filter (fun e => !decide (e.1 ≠ k)) = [] :=
      fun es he => filter_eq_nil_iff.2 fun e hmem => by simpa using he e hmem
    rw [hs, filter_append, filter_cons_of_pos (by simp),
      none l fun e he => hlr e.1 (mem_map_of_mem he) k mem_cons_self,
      none r fun e he h => hr.1 (mem_map.2 ⟨e, he, h⟩), nil_append]
  rw [hkey] at hsplit
  exact hsplit

/-! ## Strings and vectors -/

/-- A heap string: the bytes it holds may be more than its text needs. -/
structure HeapString where
  text : String
  capacity : Nat
  fits : text.utf8ByteSize ≤ capacity

/-- `String::clone` allocates what the text needs. -/
def HeapString.clone (s : HeapString) : HeapString := ⟨s.text, s.text.utf8ByteSize, Nat.le_refl _⟩

/-- A vector of small elements with its capacity. -/
structure Vec (α : Type) where
  items : List α
  capacity : Nat
  fits : items.length ≤ capacity

namespace Vec
variable {α : Type}

/-- `Vec::new` -/
def new : Vec α := ⟨[], 0, Nat.le_refl _⟩

/-- `vec![a]` -/
def single (a : α) : Vec α := ⟨[a], 1, Nat.le_refl _⟩

def grown (capacity : Nat) : Nat := max (max (2 * capacity) (capacity + 1)) 4

variable (v : Vec α)

def push (a : α) : Vec α :=
  { items := v.items ++ [a]
    capacity := if v.items.length = v.capacity then grown v.capacity else v.capacity
    fits := by
      have := v.fits
      rw [List.length_append, List.length_singleton, grown]
      split <;> omega }

@[simp] theorem items_push (a : α) : (v.push a).items = v.items ++ [a] := rfl

theorem push_ne (a : α) : (v.push a).items ≠ [] := by
  exact append_ne_nil_of_right_ne_nil _ (cons_ne_nil a [])

theorem capacity_le_push (a : α) : v.capacity ≤ (v.push a).capacity := by
  unfold push grown
  dsimp only
  split <;> omega

/-- `*v.last_mut() = a` -/
def setLast (h : v.items ≠ []) (a : α) : Vec α :=
  { items := v.items.dropLast ++ [a]
    capacity := v.capacity
    fits := by
      have := v.fits
      have := List.length_pos_iff.2 h
      rw [List.length_append, List.length_singleton, List.length_dropLast]
      omega }

@[simp] theorem items_setLast (h : v.items ≠ []) (a : α) :
    (v.setLast h a).items = v.items.dropLast ++ [a] := rfl

end Vec

/-! ## Hash maps -/

def hashCapacity : Nat → Nat
  | 0 => 0
  | 1 => 3
  | 2 => 7
  | k + 3 => 2 * hashCapacity (k + 2)

theorem hashCapacity_succ (k : Nat) : hashCapacity (k + 2 + 1) = 2 * hashCapacity (k + 2) := rfl

theorem three_le_hashCapacity : ∀ k, 3 ≤ hashCapacity (k + 1)
  | 0 => by decide
  | 1 => by decide
  | k + 2 => by
    have h : 3 ≤ hashCapacity (k + 2) := three_le_hashCapacity (k + 1)
    rw [hashCapacity_succ]
    omega

theorem hashCapacity_lt_succ : ∀ k, hashCapacity k < hashCapacity (k + 1)
  | 0 => by decide
  | 1 => by decide
  | k + 2 => by
    have h : 3 ≤ hashCapacity (k + 2) := three_le_hashCapacity (k + 1)
    rw [hashCapacity_succ]
    omega

theorem hashCapacity_mono {j k : Nat} (h : j ≤ k) : hashCapacity j ≤ hashCapacity k := by
  induction h with
  | refl => exact Nat.le_refl _
  | step _ ih => exact Nat.le_trans ih (Nat.le_of_lt (hashCapacity_lt_succ _))

/-- The least level up to `level` whose capacity holds `size` entries, if `level`'s does. -/
def shrunkLevel (size : Nat) : Nat → Nat
  | 0 => 0
  | k + 1 => if size ≤ hashCapacity k then shrunkLevel size k else k + 1

theorem shrunkLevel_le (size : Nat) : ∀ level, shrunkLevel size level ≤ level
  | 0 => Nat.le_refl _
  | k + 1 => by
    unfold shrunkLevel
    split
    · exact Nat.le_succ_of_le (shrunkLevel_le size k)
    · exact Nat.le_refl _

theorem le_shrunkLevel {size : Nat} : ∀ {level : Nat}, size ≤ hashCapacity level →
    size ≤ hashCapacity (shrunkLevel size level)
  | 0, h => h
  | k + 1, h => by
    unfold shrunkLevel
    split
    · rename_i hk
      exact le_shrunkLevel hk
    · exact h

/-- A hash map keyed by strings: its entries, and the level of its capacity. -/
structure HashMap (V : Type) where
  table : Table String V
  level : Nat
  fits : table.size ≤ hashCapacity level

namespace HashMap
variable {V : Type} {m : HashMap V} {key : String} {v : V}

def new : HashMap V := ⟨.empty, 0, Nat.le_refl _⟩

def size (m : HashMap V) : Nat := m.table.size

def capacity (m : HashMap V) : Nat := hashCapacity m.level

def nextCapacity (m : HashMap V) : Nat := hashCapacity (m.level + 1)

theorem capacity_lt_next (m : HashMap V) : m.capacity < m.nextCapacity := hashCapacity_lt_succ m.level

def get (m : HashMap V) (key : String) : Option V := m.table.get key

/-- `insert`, which makes room first. -/
def insert (m : HashMap V) (key : String) (value : V) : HashMap V :=
  { table := m.table.insert key value
    level := if m.table.size < hashCapacity m.level then m.level else m.level + 1
    fits := by
      have h1 := Table.size_insert_le m.table key value
      have h2 := m.fits
      have h3 := hashCapacity_lt_succ m.level
      split <;> omega }

/-- The write through `get_mut`. -/
def set (m : HashMap V) (key : String) (value : V) : HashMap V :=
  { m with
    table := m.table.mapValues fun k v => if k = key then value else v
    fits := by
      have h : (m.table.mapValues fun k v => if k = key then value else v).size = m.table.size := List.length_map _
      rw [h]
      exact m.fits }

def retain (m : HashMap V) (p : V → Bool) : HashMap V :=
  { m with
    table := m.table.retain fun _ v => p v
    fits := Nat.le_trans (List.length_filter_le _ _) m.fits }

def remove (m : HashMap V) (key : String) : HashMap V :=
  { m with table := m.table.erase key, fits := Nat.le_trans (Table.size_erase_le _ _) m.fits }

def shrinkToFit (m : HashMap V) : HashMap V :=
  { m with level := shrunkLevel m.table.size m.level, fits := le_shrunkLevel m.fits }

theorem capacity_shrinkToFit_le (m : HashMap V) : m.shrinkToFit.capacity ≤ m.capacity :=
  hashCapacity_mono (shrunkLevel_le _ _)

theorem get_insert (m : HashMap V) (key k : String) (value : V) :
    (m.insert key value).get k = if k = key then some value else m.get k := Table.get_insert _ _ _ _

theorem get_set (h : m.get key = some v) (value : V) (k : String) :
    (m.set key value).get k = if k = key then some value else m.get k := by
  unfold set get at *
  rw [get_mapValues]
  by_cases hk : k = key
  · subst hk
    rw [h, Option.map_some, if_pos rfl, if_pos rfl]
  · rw [if_neg hk]
    cases m.table.get k <;> simp [hk]

theorem get_retain (m : HashMap V) (p : V → Bool) (k : String) : (m.retain p).get k = (m.get k).filter p :=
  Table.get_retain _ _ _

theorem get_remove (m : HashMap V) (key k : String) : (m.remove key).get k = if k = key then none else m.get k :=
  get_erase _ _ _

@[simp] theorem size_set (m : HashMap V) (key : String) (value : V) : (m.set key value).size = m.size :=
  length_map _

theorem set_self (h : m.get key = some v) : m.set key v = m := by
  have he : m.table.entries.map (fun e => (e.1, if e.1 = key then v else e.2)) = m.table.entries := by
    refine Eq.trans (map_congr_left fun e he => ?_) (map_id _)
    by_cases hk : e.1 = key
    · have hv := h.symm.trans (hk ▸ get_eq_some.2 he)
      exact Prod.ext rfl ((if_pos hk).trans (Option.some.inj hv))
    · exact Prod.ext rfl (if_neg hk)
  have ht : (m.set key v).table = m.table := by
    cases h2 : m.table
    unfold set Table.mapValues
    rw [h2] at he
    simp only [h2, he]
  have hl : (m.set key v).level = m.level := rfl
  cases h1 : m.set key v
  cases h2 : m
  rw [h1] at ht hl
  rw [h2] at ht hl
  congr

theorem set_set (m : HashMap V) (key : String) (v w : V) : (m.set key v).set key w = m.set key w := by
  unfold set Table.mapValues
  congr 2
  rw [map_map]
  apply map_congr_left
  intro e _
  by_cases h : e.1 = key
  · simp [h]
  · simp [h]

theorem remove_set (m : HashMap V) (key : String) (v : V) : (m.set key v).remove key = m.remove key := by
  have he : ((m.set key v).table.erase key).entries = (m.table.erase key).entries := by
    unfold set Table.erase Table.retain Table.mapValues
    dsimp only
    rw [filter_map]
    refine Eq.trans (map_congr_left fun e hm => ?_) (map_id _)
    have hk : e.1 ≠ key := by simpa using (mem_filter.1 hm).2
    exact Prod.ext rfl (if_neg hk)
  have ht : (m.set key v).table.erase key = m.table.erase key := by
    cases h1 : (m.set key v).table.erase key
    cases h2 : m.table.erase key
    rw [h1, h2] at he
    congr
  have hl : (m.set key v).level = m.level := rfl
  unfold remove
  congr

/-! ### Totals over the values -/

variable (f : V → Nat)

def sum (m : HashMap V) : Nat := total (fun e : String × V => f e.2) m.table.entries

theorem sum_eq (m : HashMap V) : m.sum f = total f m.table.values := (total_map f Prod.snd _).symm

theorem sum_retain_add (m : HashMap V) (p : V → Bool) :
    (m.retain p).sum f + (m.retain fun v => !p v).sum f = m.sum f := total_filter_add_not _ _ _

/-- **Taking an entry out takes its number from the sum.** -/
theorem sum_remove (h : m.get key = some v) : (m.remove key).sum f + f v = m.sum f :=
  total_erase_of_get (fun e : String × V => f e.2) h

theorem sum_insert (h : m.get key = none) (value : V) : (m.insert key value).sum f = m.sum f + f value := by
  unfold sum insert Table.insert
  dsimp only
  rw [erase_entries_of_get_none h, total, Nat.add_comm]

theorem sum_set (h : m.get key = some v) (value : V) : (m.set key value).sum f + f v = m.sum f + f value := by
  have h1 := sum_remove f h
  have h2 := sum_remove f (show (m.set key value).get key = some value by rw [get_set h, if_pos rfl])
  rw [remove_set] at h2
  omega

end HashMap

end Yuzora
