import Mathlib.Data.List.Nodup
/-!
# Table — a key-value table with distinct keys

The one model of a hash map: a list of entries that carries the proof that its keys are distinct.  Lookups do not
depend on the order of the entries; an iteration visits them in an order of its own (`Visit`), since a hash map
promises none.
-/
namespace Yuzora

structure Table (K V : Type) where
  entries : List (K × V)
  nodup : (entries.map Prod.fst).Nodup

/-- An iteration order of a hash map: any rearrangement of what is in it. -/
structure Visit (α : Type) where
  order : List α → List α
  perm : ∀ l, (order l).Perm l

def Visit.plain {α : Type} : Visit α := ⟨id, fun _ => List.Perm.refl _⟩

/-- `Iterator::min_by_key`: the first element with the least key. -/
def minByKey {α : Type} (key : α → Int) : List α → Option α
  | [] => none
  | a :: l =>
    match minByKey key l with
    | none => some a
    | some b => if key b < key a then some b else some a

theorem minByKey_eq_none {α : Type} {key : α → Int} {l : List α} : minByKey key l = none ↔ l = [] := by
  cases l with
  | nil => simp [minByKey]
  | cons a l =>
    simp only [minByKey]
    split
    · simp
    · split <;> simp

theorem minByKey_mem {α : Type} {key : α → Int} : ∀ {l : List α} {a : α}, minByKey key l = some a → a ∈ l
  | b :: l, a, h => by
    simp only [minByKey] at h
    split at h
    · rw [Option.some.inj h]
      exact List.mem_cons_self
    · rename_i c hc
      split at h
      · rw [← Option.some.inj h]
        exact List.mem_cons_of_mem _ (minByKey_mem hc)
      · rw [Option.some.inj h]
        exact List.mem_cons_self

namespace Table

open List

variable {K V : Type}

def empty : Table K V := ⟨[], List.nodup_nil⟩

def keys (t : Table K V) : List K := t.entries.map Prod.fst
def values (t : Table K V) : List V := t.entries.map Prod.snd
def size (t : Table K V) : Nat := t.entries.length

def count (t : Table K V) (p : K → V → Bool) : Nat := t.entries.countP (fun e => p e.1 e.2)

theorem nodup_filter {l : List (K × V)} (h : (l.map Prod.fst).Nodup) (p : K × V → Bool) :
    ((l.filter p).map Prod.fst).Nodup :=
  h.sublist (filter_sublist.map _)

def retain (t : Table K V) (p : K → V → Bool) : Table K V :=
  ⟨t.entries.filter (fun e => p e.1 e.2), nodup_filter t.nodup _⟩

def mapValues (t : Table K V) (f : K → V → V) : Table K V :=
  ⟨t.entries.map (fun e => (e.1, f e.1 e.2)), by simpa [Function.comp_def] using t.nodup⟩

theorem count_retain_le (t : Table K V) (p q : K → V → Bool) : (t.retain q).count p ≤ t.count p :=
  List.Sublist.countP_le filter_sublist

theorem count_mapValues (t : Table K V) (f : K → V → V) (p : K → V → Bool) (h : ∀ k v, p k (f k v) = p k v) :
    (t.mapValues f).count p = t.count p := by
  simp [count, mapValues, countP_map, Function.comp_def, h]

theorem size_eq_count (t : Table K V) : t.size = t.count (fun _ _ => true) := by
  simp [size, count]

section Keyed
variable [DecidableEq K] {k : K} {v : V}

def get (t : Table K V) (k : K) : Option V := (t.entries.find? (fun e => decide (e.1 = k))).map Prod.snd

def contains (t : Table K V) (k : K) : Bool := (t.get k).isSome

def erase (t : Table K V) (k : K) : Table K V := t.retain (fun j _ => decide (j ≠ k))

def insert (t : Table K V) (k : K) (v : V) : Table K V :=
  ⟨(k, v) :: (t.erase k).entries, by
    refine List.nodup_cons.2 ⟨fun h => ?_, (t.erase k).nodup⟩
    obtain ⟨e, he, hk⟩ := List.mem_map.1 h
    simpa [hk] using (List.mem_filter.1 he).2⟩

/-! ## Lookups -/

theorem find?_of_mem : ∀ {l : List (K × V)} {k : K} {v : V}, (l.map Prod.fst).Nodup → (k, v) ∈ l →
    l.find? (fun e => decide (e.1 = k)) = some (k, v)
  | [], _, _, _, h => by cases h
  | e :: l, k, v, hn, h => by
    rw [map_cons, nodup_cons] at hn
    rcases List.mem_cons.1 h with rfl | h
    · simp
    · have hne : e.1 ≠ k := fun he => hn.1 (he ▸ mem_map.2 ⟨(k, v), h, rfl⟩)
      simp [hne, find?_of_mem hn.2 h]

/-- **A lookup answers exactly the entries.** -/
theorem get_eq_some {t : Table K V} : t.get k = some v ↔ (k, v) ∈ t.entries := by
  constructor
  · intro h
    obtain ⟨e, he, rfl⟩ := Option.map_eq_some_iff.1 h
    have hk : e.1 = k := by simpa using find?_some he
    exact hk ▸ mem_of_find?_eq_some he
  · intro h
    rw [get, find?_of_mem t.nodup h, Option.map_some]

theorem get_eq_none {t : Table K V} : t.get k = none ↔ ∀ v, (k, v) ∉ t.entries := by
  constructor
  · intro h v hv
    rw [get_eq_some.2 hv] at h
    cases h
  · intro h
    cases hg : t.get k with
    | none => rfl
    | some v => exact absurd (get_eq_some.1 hg) (h v)

theorem mem_keys {t : Table K V} : k ∈ t.keys ↔ ∃ v, t.get k = some v := by
  simp only [keys, mem_map, get_eq_some]
  constructor
  · rintro ⟨e, he, rfl⟩
    exact ⟨e.2, he⟩
  · rintro ⟨v, hv⟩
    exact ⟨(k, v), hv, rfl⟩

theorem contains_eq_true {t : Table K V} : t.contains k = true ↔ ∃ v, t.get k = some v := by
  simp [contains, Option.isSome_iff_exists]

theorem contains_eq_false {t : Table K V} : t.contains k = false ↔ t.get k = none := by
  simp [contains]

@[simp] theorem get_empty (k : K) : (empty : Table K V).get k = none := rfl

section
variable (t : Table K V)
include t

theorem get_retain (p : K → V → Bool) (k : K) : (t.retain p).get k = (t.get k).filter (fun v => p k v) := by
  apply Option.ext
  intro v
  rw [Option.filter_eq_some_iff, get_eq_some, get_eq_some]
  exact mem_filter

theorem get_erase (k j : K) : (t.erase k).get j = if j = k then none else t.get j := by
  rw [erase, get_retain]
  by_cases h : j = k
  · simp [h]
  · cases t.get j <;> simp [h]

@[simp] theorem get_erase_self (k : K) : (t.erase k).get k = none := by simp [get_erase]

@[simp] theorem erase_erase (k : K) : (t.erase k).erase k = t.erase k := by
  simp [erase, retain, filter_filter]

@[simp] theorem insert_erase (k : K) (v : V) : (t.erase k).insert k v = t.insert k v := by
  simp only [insert, erase_erase]

theorem get_insert (k j : K) (v : V) : (t.insert k v).get j = if j = k then some v else t.get j := by
  by_cases h : j = k
  · subst h
    rw [if_pos rfl, get_eq_some]
    exact List.mem_cons_self
  · rw [if_neg h, ← (by simp [get_erase, h] : (t.erase k).get j = t.get j)]
    show Option.map Prod.snd (List.find? _ ((k, v) :: (t.erase k).entries)) = _
    rw [find?_cons_of_neg (by simpa using Ne.symm h)]
    rfl

@[simp] theorem get_insert_self (k : K) (v : V) : (t.insert k v).get k = some v := by
  simp [get_insert]

theorem get_mapValues (f : K → V → V) (k : K) : (t.mapValues f).get k = (t.get k).map (f k) := by
  apply Option.ext
  intro w
  rw [get_eq_some, Option.map_eq_some_iff, mapValues]
  constructor
  · intro h
    obtain ⟨⟨j, v⟩, he, hj⟩ := mem_map.1 h
    obtain ⟨rfl, rfl⟩ := Prod.mk.injEq _ _ _ _ ▸ hj
    exact ⟨v, get_eq_some.2 he, rfl⟩
  · rintro ⟨v, hv, rfl⟩
    exact mem_map.2 ⟨(k, v), get_eq_some.1 hv, rfl⟩

end

/-! ## Counting -/

/-- **Erasing an entry that counts takes one from the count.** -/
theorem count_erase_of_get {t : Table K V} (p : K → V → Bool) (hg : t.get k = some v)
    (hp : p k v = true) : (t.erase k).count p + 1 = t.count p := by
  have hm := get_eq_some.1 hg
  obtain ⟨l, r, hs⟩ := append_of_mem hm
  have hn := t.nodup
  rw [hs, map_append, map_cons, nodup_append] at hn
  obtain ⟨-, hr, hlr⟩ := hn
  rw [nodup_cons] at hr
  have keep : ∀ m : List (K × V), (∀ e ∈ m, e.1 ≠ k) → m.filter (fun e => decide (e.1 ≠ k)) = m :=
    fun m h => filter_eq_self.2 (fun e he => by simpa using h e he)
  have hl : ∀ e ∈ l, e.1 ≠ k := fun e he => hlr e.1 (mem_map_of_mem he) k List.mem_cons_self
  have hr' : ∀ e ∈ r, e.1 ≠ k := fun e he h => hr.1 (mem_map.2 ⟨e, he, h⟩)
  have hf : (t.erase k).entries = l ++ r := by
    show t.entries.filter (fun e => decide (e.1 ≠ k)) = _
    rw [hs, filter_append, filter_cons_of_neg (by simp), keep l hl, keep r hr']
  simp only [count, hf, hs, countP_append, List.countP_cons, hp, if_true]
  omega

theorem count_erase_of_not {t : Table K V} (p : K → V → Bool) (hg : t.get k = some v)
    (hp : p k v = false) : (t.erase k).count p = t.count p := by
  rw [count, count, erase, retain, countP_filter]
  refine countP_congr (fun e he => ?_)
  by_cases hk : e.1 = k
  · have hv : e.2 = v := Option.some.inj ((get_eq_some.2 he).symm.trans (hk ▸ hg))
    simp [hk, hv, hp]
  · simp [hk]

theorem count_insert (t : Table K V) (k : K) (v : V) (p : K → V → Bool) :
    (t.insert k v).count p = (t.erase k).count p + if p k v then 1 else 0 := by
  simp [count, insert, List.countP_cons]

theorem count_erase_le (t : Table K V) (k : K) (p : K → V → Bool) : (t.erase k).count p ≤ t.count p :=
  count_retain_le t p _

theorem count_insert_le (t : Table K V) (k : K) (v : V) (p : K → V → Bool) :
    (t.insert k v).count p ≤ t.count p + if p k v then 1 else 0 := by
  rw [count_insert]
  exact Nat.add_le_add_right (count_erase_le t k p) _

theorem count_insert_of_get {t : Table K V} {v w : V} (p : K → V → Bool) (hg : t.get k = some w)
    (hp : p k v = p k w) : (t.insert k v).count p = t.count p := by
  rw [count_insert, hp]
  cases hw : p k w with
  | true => rw [if_pos rfl, count_erase_of_get p hg hw]
  | false => simp [count_erase_of_not p hg hw]

theorem size_erase_of_get {t : Table K V} (hg : t.get k = some v) : (t.erase k).size + 1 = t.size := by
  rw [size_eq_count, size_eq_count, count_erase_of_get _ hg rfl]

theorem size_erase_le (t : Table K V) (k : K) : (t.erase k).size ≤ t.size := by
  rw [size_eq_count, size_eq_count]
  exact count_erase_le _ _ _

theorem size_insert (t : Table K V) (k : K) (v : V) : (t.insert k v).size = (t.erase k).size + 1 := by
  rw [size_eq_count, count_insert, size_eq_count, if_pos rfl]

theorem size_insert_le (t : Table K V) (k : K) (v : V) : (t.insert k v).size ≤ t.size + 1 := by
  exact Nat.add_le_add_right (size_erase_le t k) 1

theorem size_insert_of_get {t : Table K V} {w : V} (v : V) (hg : t.get k = some w) : (t.insert k v).size = t.size := by
  rw [size_insert, size_erase_of_get hg]

theorem erase_entries_of_get_none {t : Table K V} (h : t.get k = none) : (t.erase k).entries = t.entries :=
  filter_eq_self.2 (fun e he => by
    simpa using fun hk : e.1 = k => get_eq_none.1 h e.2 (hk ▸ he))

theorem count_pos_of_get {t : Table K V} {p : K → V → Bool} (hg : t.get k = some v)
    (hp : p k v = true) : 0 < t.count p :=
  List.countP_pos_iff.2 ⟨(k, v), get_eq_some.1 hg, hp⟩

end Keyed

end Table

/-! ## Counting by classes -/

def total {β : Type} (f : β → Nat) : List β → Nat
  | [] => 0
  | c :: cs => f c + total f cs

theorem total_le {β : Type} (f : β → Nat) (b : Nat) (h : ∀ c, f c ≤ b) : ∀ cs : List β, total f cs ≤ b * cs.length
  | [] => Nat.zero_le _
  | c :: cs => by
    have ih := total_le f b h cs
    have hc := h c
    rw [total, List.length_cons, Nat.mul_succ]
    omega

theorem total_lt {β : Type} (f : β → Nat) (b : Nat) (h : ∀ c, f c ≤ b) {c : β} (hc : f c < b) :
    ∀ cs : List β, c ∈ cs → total f cs < b * cs.length
  | d :: cs, hm => by
    have hd := h d
    have hle := total_le f b h cs
    rw [total, List.length_cons, Nat.mul_succ]
    rcases List.mem_cons.1 hm with rfl | hm
    · omega
    · have ih := total_lt f b h hc cs hm
      omega

variable {α β : Type}

theorem total_countP_cons [DecidableEq β] (f : α → β) (a : α) (l : List α) : ∀ cs : List β,
    total (fun c => (a :: l).countP (fun a => decide (f a = c))) cs =
      total (fun c => l.countP (fun a => decide (f a = c))) cs + cs.countP (fun c => decide (f a = c))
  | [] => rfl
  | c :: cs => by
    rw [total, total, total_countP_cons f a l cs, List.countP_cons, List.countP_cons]
    omega

/-- **A list whose every element falls into a named class is no longer than the classes' counts together.** -/
theorem length_le_total_countP [DecidableEq β] (f : α → β) (classes : List β) : ∀ l : List α, (∀ a ∈ l, f a ∈ classes) →
      l.length ≤ total (fun c => l.countP (fun a => decide (f a = c))) classes
  | [], _ => Nat.zero_le _
  | a :: l, h => by
    have ih := length_le_total_countP f classes l (fun b hb => h b (List.mem_cons_of_mem _ hb))
    have hpos : 0 < classes.countP (fun c => decide (f a = c)) :=
      List.countP_pos_iff.2 ⟨f a, h a List.mem_cons_self, by simp⟩
    rw [total_countP_cons, List.length_cons]
    omega

end Yuzora
