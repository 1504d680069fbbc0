import Yuzora.Table
/-!
# LiveMap — loops over a map that changes under them

A map in the order of insertion, and `for (const [k, v] of map)` with a body that deletes and sets: an entry that is
deleted before its turn is skipped, and one that is appended has its turn later.
-/
namespace Yuzora

namespace Table

variable {K V : Type} [DecidableEq K]

variable (t : Table K V)

/-- `map.set(k, v)`: in the key's place, or at the end. -/
def set (k : K) (v : V) : Table K V :=
  if h : k ∈ t.keys then t.mapValues fun j w => if j = k then v else w
  else ⟨t.entries ++ [(k, v)], by
    rw [List.map_append, List.nodup_append]
    refine ⟨t.nodup, List.nodup_singleton _, fun a ha b hb => ?_⟩
    rw [List.mem_singleton.1 hb]
    rintro rfl
    exact h ha⟩

theorem get_set (k j : K) (v : V) : (t.set k v).get j = if j = k then some v else t.get j := by
  unfold set
  split
  · rename_i h
    obtain ⟨w, hw⟩ := mem_keys.1 h
    rw [get_mapValues]
    by_cases hj : j = k
    · subst hj
      simp [hw]
    · simp [hj]
  · rename_i h
    have hnone : t.get k = none := get_eq_none.2 fun w hw => h (List.mem_map_of_mem hw)
    apply Option.ext
    intro w
    rw [get_eq_some]
    by_cases hj : j = k
    · subst hj
      have hno : (j, w) ∉ t.entries := get_eq_none.1 hnone w
      simp [hno, eq_comm]
    · simp [hj, get_eq_some]

@[simp] theorem get_set_self (k : K) (v : V) : (t.set k v).get k = some v := by
  simp [get_set]

end Table

/-- A loop over a map: the map as it is, and the keys that have their turn yet. -/
structure Walk (K V : Type) where
  table : Table K V
  todo : List K

namespace Walk

variable {K V : Type} [DecidableEq K]

def start (table : Table K V) : Walk K V := ⟨table, table.keys⟩

def delete (w : Walk K V) (k : K) : Walk K V := ⟨w.table.erase k, w.todo.filter (· ≠ k)⟩

def set (w : Walk K V) (k : K) (v : V) : Walk K V :=
  ⟨w.table.set k v, if w.table.contains k then w.todo else w.todo ++ [k]⟩

def run (body : K → V → Walk K V → Walk K V) : Nat → Walk K V → Option (Table K V)
  | _, ⟨table, []⟩ => some table
  | 0, ⟨_, _ :: _⟩ => none
  | fuel + 1, ⟨table, k :: todo⟩ =>
    match table.get k with
    | none => run body fuel ⟨table, todo⟩
    | some v => run body fuel (body k v ⟨table, todo⟩)

variable {body : K → V → Walk K V → Walk K V}

/-- **A loop ends** where each turn lessens a measure. -/
theorem run_ends (measure : Walk K V → Nat) (hskip : ∀ table k todo, measure ⟨table, todo⟩ < measure ⟨table, k :: todo⟩)
    (hturn : ∀ table k v todo, table.get k = some v → measure (body k v ⟨table, todo⟩) < measure ⟨table, k :: todo⟩) :
    ∀ w : Walk K V, ∃ fuel table, run body fuel w = some table := by
  intro w
  generalize hn : measure w = n
  induction n using Nat.strongRecOn generalizing w with
  | ind n ih =>
    obtain ⟨table, todo⟩ := w
    cases todo with
    | nil => exact ⟨0, table, rfl⟩
    | cons k todo =>
      subst hn
      cases hg : table.get k with
      | none =>
        obtain ⟨fuel, t, ht⟩ := ih _ (hskip table k todo) _ rfl
        exact ⟨fuel + 1, t, by rw [run, hg]; exact ht⟩
      | some v =>
        obtain ⟨fuel, t, ht⟩ := ih _ (hturn table k v todo hg) _ rfl
        exact ⟨fuel + 1, t, by rw [run, hg]; exact ht⟩

/-- **A loop never ends** where something is left to do after each turn. -/
theorem run_never (P : Walk K V → Prop) (hleft : ∀ w, P w → w.todo ≠ [])
    (hskip : ∀ table k todo, table.get k = none → P ⟨table, k :: todo⟩ → P ⟨table, todo⟩)
    (hturn : ∀ table k v todo, table.get k = some v → P ⟨table, k :: todo⟩ → P (body k v ⟨table, todo⟩)) :
    ∀ (fuel : Nat) (w : Walk K V), P w → run body fuel w = none
  | fuel, ⟨table, []⟩, h => absurd rfl (hleft _ h)
  | 0, ⟨_, _ :: _⟩, _ => rfl
  | fuel + 1, ⟨table, k :: todo⟩, h => by
    rw [run]
    split
    · rename_i hg
      exact run_never P hleft hskip hturn fuel _ (hskip table k todo hg h)
    · rename_i v hg
      exact run_never P hleft hskip hturn fuel _ (hturn table k v todo hg h)

/-- **What each turn keeps of the map**, the loop keeps. -/
theorem run_keeps (P : Table K V → Prop)
    (hturn : ∀ table k v todo, table.get k = some v → P table → P (body k v ⟨table, todo⟩).table) :
    ∀ (fuel : Nat) (w : Walk K V) {t : Table K V}, run body fuel w = some t → P w.table → P t
  | _, ⟨table, []⟩, t, h, hp => by
    rw [run] at h
    exact Option.some.inj h ▸ hp
  | 0, ⟨_, _ :: _⟩, t, h, _ => by cases h
  | fuel + 1, ⟨table, k :: todo⟩, t, h, hp => by
    rw [run] at h
    split at h
    · exact run_keeps P hturn fuel _ h hp
    · rename_i v hg
      exact run_keeps P hturn fuel _ h (hturn table k v todo hg hp)

end Walk
end Yuzora
