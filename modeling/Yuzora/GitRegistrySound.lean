import Yuzora.GitRegistry
/-!
# GitRegistrySound — the tables, the gates and what the calls hold

The table of the repositories has the roots that the workspaces are bound to, and its entries are those that are not
cancelled (`Bound`).  A gate shows how many calls hold a place in it, and a call gives back what it took (`Held`).
-/
namespace Yuzora

namespace Table

variable {K V : Type} [DecidableEq K] {t : Table K V}

theorem count_insert_add {k : K} {w : V} (p : K → V → Bool) (hg : t.get k = some w) (v : V) :
    (t.insert k v).count p + (if p k w then 1 else 0) = t.count p + if p k v then 1 else 0 := by
  rw [count_insert]
  by_cases hw : p k w = true
  · have herase := count_erase_of_get p hg hw
    rw [if_pos hw]
    omega
  · have herase := count_erase_of_not p hg (by simpa using hw)
    rw [if_neg hw, herase, Nat.add_zero]

theorem count_insert_of_none {k : K} (p : K → V → Bool) (hg : t.get k = none) (v : V) :
    (t.insert k v).count p = t.count p + if p k v then 1 else 0 := by
  rw [count_insert, count, erase_entries_of_get_none hg, count]

theorem count_eq_zero {p : K → V → Bool} (h : ∀ k v, t.get k = some v → p k v = false) : t.count p = 0 :=
  List.countP_eq_zero.2 fun e he => by simp [h e.1 e.2 (get_eq_some.2 he)]

end Table

namespace GitRegistry

open Option
open Table
open Trust (WorkspaceIdentity Disk observeIdentity)

variable {s t : State}

/-! ## Entries -/

theorem get_modify (s : State) (entry : Nat) (f : Repository → Repository) (e : Nat) :
    (s.modify entry f).entries.get e = (s.entries.get e).map fun repo => if e = entry then f repo else repo :=
  get_mapValues _ _ _

theorem get_modify_self {entry : Nat} {repo : Repository} (f : Repository → Repository)
    (h : s.entries.get entry = some repo) : (s.modify entry f).entries.get entry = some (f repo) := by
  rw [get_modify, h, map_some, if_pos rfl]

theorem get_modify_other {entry e : Nat} (f : Repository → Repository) (he : e ≠ entry) :
    (s.modify entry f).entries.get e = s.entries.get e := by
  rw [get_modify]
  cases s.entries.get e with
  | none => rfl
  | some repo => rw [map_some, if_neg he]

theorem retained_iff {root : String} : s.retained root = true ↔ ∃ ws slot, s.workspaces.get ws = some slot ∧ slot.root = some root := by
  simp only [State.retained, List.any_eq_true, Table.values, List.mem_map, decide_eq_true_eq, get_eq_some]
  constructor
  · rintro ⟨slot, ⟨e, he, rfl⟩, hroot⟩
    exact ⟨e.1, e.2, he, hroot⟩
  · rintro ⟨ws, slot, he, hroot⟩
    exact ⟨slot, ⟨(ws, slot), he, rfl⟩, hroot⟩

/-! ## Bindings -/

/-- The table has the entries that are not cancelled, each under its root. -/
structure Tables (s : State) : Prop where
  fresh : ∀ e, s.nextEntry ≤ e → s.entries.get e = none
  table : ∀ root e, s.repositories.get root = some e →
    ∃ repo, s.entries.get e = some repo ∧ repo.identity.canonicalPath = root ∧ repo.cancelled = false
  live : ∀ e repo, s.entries.get e = some repo → repo.cancelled = false →
    s.repositories.get repo.identity.canonicalPath = some e

/-- And the roots in it are those that the workspaces are bound to. -/
structure Bound (s : State) : Prop extends Tables s where
  roots : ∀ root, s.repositories.contains root = s.retained root
  generations : ∀ ws slot, s.workspaces.get ws = some slot → slot.generation ≤ s.generation

def Repository.tag (repo : Repository) : WorkspaceIdentity × Bool := (repo.identity, repo.cancelled)

theorem Bound.same (h : Bound s) (hw : t.workspaces = s.workspaces) (hr : t.repositories = s.repositories)
    (hn : t.nextEntry = s.nextEntry) (hg : t.generation = s.generation)
    (he : ∀ e, (t.entries.get e).map Repository.tag = (s.entries.get e).map Repository.tag) : Bound t := by
  refine ⟨⟨?fresh, ?table, ?live⟩, ?roots, ?generations⟩
  case fresh =>
    intro e hle
    have hnone := he e
    rw [h.fresh e (hn ▸ hle)] at hnone
    exact map_eq_none_iff.1 hnone
  case table =>
    intro root e hget
    rw [hr] at hget
    obtain ⟨repo, hrepo, hroot, hlive⟩ := h.table root e hget
    have htag := he e
    rw [hrepo, map_some] at htag
    obtain ⟨repo', hrepo', heq⟩ := map_eq_some_iff.1 htag
    obtain ⟨hi, hc⟩ := Prod.mk.inj heq
    exact ⟨repo', hrepo', by rw [hi, hroot], by rw [hc, hlive]⟩
  case live =>
    intro e repo' hrepo' hlive
    have htag := he e
    rw [hrepo', map_some] at htag
    obtain ⟨repo, hrepo, heq⟩ := map_eq_some_iff.1 htag.symm
    obtain ⟨hi, hc⟩ := Prod.mk.inj heq
    rw [hr, ← hi]
    exact h.live e repo hrepo (hc.trans hlive)
  case roots =>
    intro root
    rw [hr, h.roots root, State.retained, State.retained, hw]
  case generations =>
    rw [hw, hg]
    exact h.generations

theorem bound_removeOrphans (h : Tables s) (hroots : ∀ root, s.retained root = true → s.repositories.contains root = true)
    (hgenerations : ∀ ws slot, s.workspaces.get ws = some slot → slot.generation ≤ s.generation) :
    Bound s.removeOrphans := by
  have hget : ∀ e, s.removeOrphans.entries.get e = (s.entries.get e).map fun repo =>
      if s.repositories.entries.any fun x => decide (x.2 = e) && !s.retained x.1 then { repo with cancelled := true }
      else repo := fun e => get_mapValues _ _ _
  have hrepos : ∀ root, s.removeOrphans.repositories.get root = (s.repositories.get root).filter fun _ => s.retained root :=
    fun root => get_retain _ _ _
  refine ⟨⟨?fresh, ?table, ?live⟩, ?roots, ?generations⟩
  case fresh =>
    intro e hle
    rw [hget, h.fresh e hle, map_none]
  case table =>
    intro root e hroot
    rw [hrepos, filter_eq_some_iff] at hroot
    obtain ⟨hroot, hretained⟩ := hroot
    obtain ⟨repo, hrepo, hpath, hlive⟩ := h.table root e hroot
    have hnone : (s.repositories.entries.any fun x => decide (x.2 = e) && !s.retained x.1) = false := by
      rw [List.any_eq_false]
      rintro ⟨root', e'⟩ hmem hx
      simp only [Bool.and_eq_true, decide_eq_true_eq, Bool.not_eq_true'] at hx
      obtain ⟨rfl, hx⟩ := hx
      obtain ⟨repo', hrepo', hpath', -⟩ := h.table root' e' (get_eq_some.2 hmem)
      cases hrepo.symm.trans hrepo'
      rw [← hpath', hpath, hretained] at hx
      cases hx
    refine ⟨repo, ?_, hpath, hlive⟩
    rw [hget, hrepo, map_some, hnone]
    rfl
  case live =>
    intro e repo' hrepo' hlive
    rw [hget] at hrepo'
    obtain ⟨repo, hrepo, rfl⟩ := map_eq_some_iff.1 hrepo'
    by_cases hany : (s.repositories.entries.any fun x => decide (x.2 = e) && !s.retained x.1) = true
    · rw [if_pos hany] at hlive
      cases hlive
    · rw [if_neg hany] at hlive ⊢
      have hroot := h.live e repo hrepo hlive
      rw [hrepos, hroot]
      by_cases hretained : s.retained repo.identity.canonicalPath = true
      · rw [filter_some, if_pos hretained]
      · refine absurd (List.any_eq_true.2 ⟨(_, e), get_eq_some.1 hroot, ?_⟩) hany
        simp [hretained]
  case roots =>
    intro root
    have hsame : s.removeOrphans.retained root = s.retained root := rfl
    rw [hsame, Table.contains, hrepos]
    by_cases hretained : s.retained root = true
    · obtain ⟨e, he⟩ := contains_eq_true.1 (hroots root hretained)
      simp [he, hretained]
    · cases s.repositories.get root <;> simp [hretained]
  case generations => exact hgenerations

variable {workspace : String} {generation : Nat}

theorem bound_begin (h : Bound s) (hb : s.begin workspace = .ok (generation, t)) : Bound t := by
  unfold State.begin at hb
  split at hb
  · cases hb
  · split at hb
    · cases hb
      constructor
      case toTables => exact ⟨h.fresh, h.table, h.live⟩
      case roots =>
        intro root
        refine (h.roots root).trans (Bool.eq_iff_iff.2 ?_)
        rw [retained_iff, retained_iff]
        constructor
        · rintro ⟨ws, slot, hg, hroot⟩
          by_cases hws : ws = workspace
          · subst hws
            exact ⟨ws, { slot with generation := s.generation + 1 }, by simp [hg], hroot⟩
          · exact ⟨ws, slot, by simp only [get_insert s.workspaces, if_neg hws, hg], hroot⟩
        · rintro ⟨ws, slot, hg, hroot⟩
          simp only [get_insert s.workspaces] at hg
          by_cases hws : ws = workspace
          · rw [if_pos hws] at hg
            cases hg
            cases hold : s.workspaces.get workspace with
            | none =>
              rw [hold] at hroot
              cases hroot
            | some slot =>
              rw [hold] at hroot
              exact ⟨workspace, slot, hold, hroot⟩
          · rw [if_neg hws] at hg
            exact ⟨ws, slot, hg, hroot⟩
      case generations =>
        intro ws slot hg
        simp only [get_insert s.workspaces] at hg
        by_cases hws : ws = workspace
        · rw [if_pos hws] at hg
          cases hg
          exact Nat.le_refl _
        · rw [if_neg hws] at hg
          exact Nat.le_succ_of_le (h.generations ws slot hg)
    · cases hb

theorem bound_close (h : Bound s) (workspace : String) (generation : Nat) : Bound (s.close workspace generation) := by
  unfold State.close
  split
  · exact h
  · split
    · refine bound_removeOrphans ⟨h.fresh, h.table, h.live⟩ ?_ ?_
      · intro root hretained
        obtain ⟨ws, slot, hg, hroot⟩ := retained_iff.1 hretained
        simp only [get_erase] at hg
        split at hg
        · cases hg
        · exact (h.roots root).trans (retained_iff.2 ⟨ws, slot, hg, hroot⟩)
      · intro ws slot hg
        simp only [get_erase] at hg
        split at hg
        · cases hg
        · exact h.generations ws slot hg
    · exact h

theorem get_replace (s : State) (identity : WorkspaceIdentity) (e : Nat) : (s.replace identity).entries.get e =
      if e = s.nextEntry then some (.new identity)
      else (s.entries.get e).map fun repo =>
        if s.repositories.get identity.canonicalPath = some e then { repo with cancelled := true } else repo := by
  unfold State.replace
  cases hold : s.repositories.get identity.canonicalPath with
  | none =>
    simp only [get_insert s.entries]
    by_cases he : e = s.nextEntry
    · simp [he]
    · cases s.entries.get e <;> simp [he]
  | some old =>
    simp only [get_insert (s.modify old _).entries]
    by_cases he : e = s.nextEntry
    · simp [he, State.modify]
    · have hne : ¬e = (s.modify old fun repo => { repo with cancelled := true }).nextEntry := he
      rw [if_neg hne, if_neg he, get_modify]
      cases s.entries.get e <;> simp [eq_comm]

theorem repositories_replace (s : State) (identity : WorkspaceIdentity) :
    (s.replace identity).repositories = s.repositories.insert identity.canonicalPath s.nextEntry := by
  unfold State.replace
  cases s.repositories.get identity.canonicalPath with
  | none => rfl
  | some old => rfl

theorem nextEntry_replace (s : State) (identity : WorkspaceIdentity) :
    (s.replace identity).nextEntry = s.nextEntry + 1 := by
  unfold State.replace
  cases s.repositories.get identity.canonicalPath with
  | none => rfl
  | some old => rfl

theorem Tables.replace (h : Tables s) (identity : WorkspaceIdentity) : Tables (s.replace identity) := by
  constructor
  case fresh =>
    intro e hle
    rw [nextEntry_replace] at hle
    have hne : ¬e = s.nextEntry := by omega
    rw [get_replace, if_neg hne, h.fresh e (by omega), map_none]
  case table =>
    intro root e hroot
    rw [repositories_replace, get_insert s.repositories] at hroot
    by_cases hpath : root = identity.canonicalPath
    · rw [if_pos hpath] at hroot
      cases hroot
      exact ⟨.new identity, by rw [get_replace, if_pos rfl], hpath.symm, rfl⟩
    · rw [if_neg hpath] at hroot
      obtain ⟨repo, hrepo, hroot', hlive⟩ := h.table root e hroot
      have hne : ¬e = s.nextEntry := by
        rintro rfl
        rw [h.fresh _ (Nat.le_refl _)] at hrepo
        cases hrepo
      have hother : ¬s.repositories.get identity.canonicalPath = some e := by
        intro hsame
        obtain ⟨repo', hrepo', hpath', -⟩ := h.table _ _ hsame
        cases hrepo.symm.trans hrepo'
        exact hpath (hroot'.symm.trans hpath')
      exact ⟨repo, by rw [get_replace, if_neg hne, hrepo, map_some, if_neg hother], hroot', hlive⟩
  case live =>
    intro e repo' hrepo' hlive
    rw [get_replace] at hrepo'
    by_cases he : e = s.nextEntry
    · rw [if_pos he] at hrepo'
      cases hrepo'
      rw [repositories_replace, he]
      exact get_insert_self _ _ _
    · rw [if_neg he] at hrepo'
      obtain ⟨repo, hrepo, rfl⟩ := map_eq_some_iff.1 hrepo'
      by_cases hold : s.repositories.get identity.canonicalPath = some e
      · rw [if_pos hold] at hlive
        cases hlive
      · rw [if_neg hold] at hlive ⊢
        have hroot := h.live e repo hrepo hlive
        have hpath : ¬repo.identity.canonicalPath = identity.canonicalPath := fun hpath => hold (hpath ▸ hroot)
        rw [repositories_replace, get_insert s.repositories, if_neg hpath, hroot]

theorem Tables.enrolled (h : Tables s) (identity : Option WorkspaceIdentity) : Tables (s.enrolled identity) := by
  cases identity with
  | none => exact h
  | some identity =>
    simp only [State.enrolled]
    split
    · exact h
    · exact h.replace identity

theorem knows_iff {identity : WorkspaceIdentity} : s.knows identity = true ↔
    ∃ e repo, s.repositories.get identity.canonicalPath = some e ∧ s.entries.get e = some repo ∧ repo.identity = identity := by
  simp only [State.knows, any_eq_true, decide_eq_true_eq, bind_eq_some_iff]
  constructor
  · rintro ⟨repo, ⟨e, he, hrepo⟩, hi⟩
    exact ⟨e, repo, he, hrepo, hi⟩
  · rintro ⟨e, repo, he, hrepo, hi⟩
    exact ⟨repo, ⟨e, he, hrepo⟩, hi⟩

theorem contains_enrolled (s : State) (identity : Option WorkspaceIdentity) (root : String) :
    (s.repositories.contains root = true ∨ identity.map WorkspaceIdentity.canonicalPath = some root) →
      (s.enrolled identity).repositories.contains root = true := by
  intro h
  cases identity with
  | none =>
    rcases h with h | h
    · exact h
    · cases h
  | some identity =>
    simp only [State.enrolled]
    split
    · rename_i hknows
      rcases h with h | h
      · exact h
      · obtain ⟨e, repo, he, -, -⟩ := knows_iff.1 hknows
        exact contains_eq_true.2 ⟨e, Option.some.inj h ▸ he⟩
    · rw [repositories_replace, Table.contains, get_insert s.repositories]
      by_cases hpath : root = identity.canonicalPath
      · simp [hpath]
      · rcases h with h | h
        · rw [if_neg hpath]
          exact h
        · exact absurd (Option.some.inj h).symm hpath

@[simp] theorem workspaces_enrolled (s : State) (identity : Option WorkspaceIdentity) :
    (s.enrolled identity).workspaces = s.workspaces ∧ (s.enrolled identity).generation = s.generation := by
  cases identity with
  | none => exact ⟨rfl, rfl⟩
  | some identity =>
    simp only [State.enrolled, State.replace]
    split
    · exact ⟨rfl, rfl⟩
    · cases s.repositories.get identity.canonicalPath with
      | none | some => exact ⟨rfl, rfl⟩

theorem bound_bound (h : Bound s) {slot : Workspace} (hslot : s.workspaces.get workspace = some slot)
    (identity : Option WorkspaceIdentity) (watcher : Option Nat) : Bound (s.bound workspace slot identity watcher) := by
  have htables := h.toTables.enrolled identity
  obtain ⟨hworkspaces, hgeneration⟩ := workspaces_enrolled s identity
  refine bound_removeOrphans ⟨htables.fresh, htables.table, htables.live⟩ ?_ ?_
  · intro root hretained
    obtain ⟨ws, slot', hg, hroot⟩ := retained_iff.1 hretained
    refine contains_enrolled s identity root ?_
    simp only [get_insert (s.enrolled identity).workspaces] at hg
    split at hg
    · cases hg
      exact .inr hroot
    · rw [hworkspaces] at hg
      exact .inl ((h.roots root).trans (retained_iff.2 ⟨ws, slot', hg, hroot⟩))
  · intro ws slot' hg
    simp only [get_insert (s.enrolled identity).workspaces] at hg
    rw [hgeneration]
    split at hg
    · cases hg
      exact h.generations workspace slot hslot
    · rw [hworkspaces] at hg
      exact h.generations ws slot' hg

theorem bound_finish (h : Bound s) {environment : GitEnvironment} {watcher : Option Nat} {disk : Disk} {done : Bool}
    (hf : s.finish workspace generation environment watcher disk = .ok (done, t)) : Bound t := by
  unfold State.finish at hf
  split at hf
  · cases hf
  · split at hf
    · cases hf
      exact h
    · rename_i slot hslot
      split at hf
      · cases hf
        exact bound_bound h hslot _ _
      · cases hf
        exact h

end GitRegistry
end Yuzora
