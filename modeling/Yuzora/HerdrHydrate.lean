import Mathlib.Data.List.Find
import Yuzora.HerdrLoops
/-!
# HerdrHydrate — the editor after a snapshot

The pages that were there keep their groups, those outside the Space their places, a page is made for each tab without
one, the Space's pages stand in the order of the snapshot, and the same snapshot changes nothing again.  All of this holds
exactly where the pages that are made are new and recognise their own tabs (`reconciled_iff`).
-/
namespace Yuzora
namespace HerdrPages

open List
open TabReorder (weave weave_outside)

section Hydrate
variable (snapshot : HerdrSnapshot) (defaultSessionName : Option String) (groups : List EditorGroup) (active : Nat)

def hydrated : HydrateResult :=
  (hydrateFocusedSpaceHerdrPages groups snapshot defaultSessionName active).getD ⟨groups, active⟩

def hydratedPage (page : TabInfo) : TabInfo :=
  hydratedBy snapshot defaultSessionName (usableFocusedSpaceTabs snapshot) page

def createdPages : List TabInfo := (missingTabs snapshot defaultSessionName groups).map (createHydratedPage snapshot)

def filled (home : Nat) : List EditorGroup :=
  (mapPages (hydratedPage snapshot defaultSessionName) groups).modify home
    (withTabs (· ++ createdPages snapshot defaultSessionName groups))

def placed (spaceId : String) (home : Nat) : List EditorGroup :=
  (filled snapshot defaultSessionName groups home).map (arranged
    (fun page => isFocusedSpaceHerdrSlot page snapshot spaceId defaultSessionName)
    ((usableFocusedSpaceTabs snapshot).map HerdrTabInfo.id))

/-- The focus is on the page of the focused tab, where it was or where it is made. -/
structure Focus (home : Nat) (focused : Option (String × Nat)) : Prop where
  on : ∀ path g, focused = some (path, g) → ∃ tab ∈ usableFocusedSpaceTabs snapshot, some tab.id = snapshot.focusedTabId ∧
    ((∃ i page, locate (fun page => belongs snapshot defaultSessionName page tab) groups = some (g, i, page) ∧
        page.path = path) ∨
      tab ∈ missingTabs snapshot defaultSessionName groups ∧ path = (createHydratedPage snapshot tab).path ∧ g = home)
  off : focused = none → ∀ tab ∈ usableFocusedSpaceTabs snapshot, some tab.id ≠ snapshot.focusedTabId

/-- Nothing is left to do. -/
structure Unchanged (spaceId : String) (home : Nat) (focused : Option (String × Nat)) : Prop where
  merged : ∀ page ∈ pages groups, hydratedPage snapshot defaultSessionName page = page
  complete : missingTabs snapshot defaultSessionName groups = []
  ordered : placed snapshot defaultSessionName groups spaceId home = filled snapshot defaultSessionName groups home
  activated : (activate (placed snapshot defaultSessionName groups spaceId home) ((focused.map Prod.fst).filter (· ≠ ""))
    ((focused.map Prod.snd).getD active)).2 = false

variable {snapshot defaultSessionName groups active} {session : Option String} {spaceId : String}

/-! ## What the answer is -/

theorem ids_nodup (h : Distinct snapshot) : ((usableFocusedSpaceTabs snapshot).map HerdrTabInfo.id).Nodup :=
  h.ids.sublist (usable_sublist.map _)

theorem hydrate_nothing (h : usableFocusedSpaceTabs snapshot = [] ∨ groups = []) :
    hydrateFocusedSpaceHerdrPages groups snapshot session active = none := by
  unfold hydrateFocusedSpaceHerdrPages
  cases focusedSpace snapshot with
  | none => rfl
  | some spaceId =>
    simp only [Option.bind_some]
    rw [if_pos h]

theorem map_unchanged {T : Type} [DecidableEq T] (f : T → T) (l : List T) :
    (l.any fun x => decide (f x ≠ x)) = false ↔ l.map f = l := by
  induction l with
  | nil => simp
  | cons x l ih => simp only [any_cons, Bool.or_eq_false_iff, ih, decide_eq_false_iff_not, not_not,
      map_cons, List.cons.injEq]

variable (active) in
/-- **The answer**, where each tab has one page at most. -/
theorem hydrate_eq (h : Single snapshot session groups) (hspace : focusedSpace snapshot = some spaceId)
    (htabs : usableFocusedSpaceTabs snapshot ≠ []) (hgroups : groups ≠ []) :
    ∃ home focused, home < groups.length ∧ Focus snapshot session groups home focused ∧ ∃ changed : Bool,
      (changed = false ↔ Unchanged snapshot session groups active spaceId home focused) ∧
      hydrateFocusedSpaceHerdrPages groups snapshot session active =
        if !changed && decide ((focused.map Prod.snd).getD active = active) then none
        else some ⟨if changed then (activate (placed snapshot session groups spaceId home)
            ((focused.map Prod.fst).filter (· ≠ "")) ((focused.map Prod.snd).getD active)).1 else groups,
          (focused.map Prod.snd).getD active⟩ := by
  have hmatched := matchTabs_spec h
  unfold hydrateFocusedSpaceHerdrPages
  rw [hspace, Option.bind_some, if_neg (not_or.2 ⟨htabs, hgroups⟩)]
  generalize (usableFocusedSpaceTabs snapshot).foldl (matchTab snapshot session) ⟨groups, [], false, none,
    []⟩ =
    matched at hmatched ⊢
  have hlength : matched.next.length = groups.length := by rw [hmatched.next, mapPages, length_map]
  have hmissing : matched.missing = missingTabs snapshot session groups := hmatched.missing
  obtain ⟨home, hhome⟩ : ∃ home, home = if (matched.focused.map Prod.snd).getD active < matched.next.length then
    (matched.focused.map Prod.snd).getD active else 0 := ⟨_, rfl⟩
  have hlt : home < groups.length := by
    rw [hhome, hlength]
    split
    · assumption
    · exact length_pos_iff.2 hgroups
  simp only [← hhome]
  obtain ⟨hnext, hchanged, hon, hoff⟩ := createTabs_spec snapshot home matched.missing matched
  generalize matched.missing.foldl (createTab snapshot home) matched = created at hnext hchanged hon hoff ⊢
  have hfilled : created.next = filled snapshot session groups home := by
    rw [hnext, hmatched.next, hmissing]
    rfl
  have hreorder := funext (@reorderGroup_eq
    (fun page => isFocusedSpaceHerdrSlot page snapshot spaceId session) _ (ids_nodup h.distinct))
  simp only [hreorder, hfilled, map_map, any_map, Function.comp_def]
  refine ⟨home, created.focused, hlt, ⟨fun path g hf => ?_, fun hf tab ht hid => ?_⟩, _, ?_, rfl⟩
  · rcases hon path g hf with hf | ⟨tab, ht, hid, hpath, hg⟩
    · obtain ⟨tab, ht, hid, hlocate⟩ := hmatched.focused path g hf
      exact ⟨tab, ht, hid, .inl hlocate⟩
    · rw [hmissing] at ht
      exact ⟨tab, mem_of_mem_filter ht, hid, .inr ⟨ht, hpath, hg⟩⟩
  · obtain ⟨hf, hnot⟩ := hoff hf
    have hno := hmatched.unfocused hf tab ht hid
    refine hnot tab ?_ hid
    rw [hmissing]
    exact mem_filter.2 ⟨ht, by rw [hno]; rfl⟩
  · rw [Bool.or_eq_false_iff, Bool.or_eq_false_iff, hchanged, hmatched.changed, hmissing, map_unchanged]
    constructor
    · rintro ⟨⟨⟨hp, hm⟩, ho⟩, ha⟩
      exact ⟨hp, hm, ho, ha⟩
    · rintro ⟨hp, hm, ho, ha⟩
      exact ⟨⟨⟨hp, hm⟩, ho⟩, ha⟩

variable {g : Nat}

variable {path : Option String}

theorem activate_unchanged {next : List EditorGroup} (h : (activate next path g).2 = false) :
    (activate next path g).1 = next := by
  unfold activate at h ⊢
  split
  · rename_i hc
    rw [if_pos hc] at h
    cases h
  · rfl

theorem filled_unchanged (hpages : ∀ page ∈ pages groups, hydratedPage snapshot session page = page)
    (hmissing : missingTabs snapshot session groups = []) (home : Nat) :
    filled snapshot session groups home = groups := by
  have hsame : withTabs (· ++ createdPages snapshot session groups) = id := by
    funext group
    simp [withTabs, createdPages, hmissing]
  rw [filled, hsame, modify_id, mapPages_self hpages]

variable (active) in
/-- **What the editor holds then**, changed or not. -/
theorem hydrated_eq (h : Single snapshot session groups) (hspace : focusedSpace snapshot = some spaceId)
    (htabs : usableFocusedSpaceTabs snapshot ≠ []) (hgroups : groups ≠ []) :
    ∃ home focused, home < groups.length ∧ Focus snapshot session groups home focused ∧
      hydrated snapshot session groups active =
        ⟨(activate (placed snapshot session groups spaceId home) ((focused.map Prod.fst).filter (· ≠ ""))
          ((focused.map Prod.snd).getD active)).1, (focused.map Prod.snd).getD active⟩ ∧
      (hydrateFocusedSpaceHerdrPages groups snapshot session active = none ↔
        Unchanged snapshot session groups active spaceId home focused ∧
          (focused.map Prod.snd).getD active = active) := by
  obtain ⟨home, focused, hlt, hfocus, changed, hchanged, heq⟩ := hydrate_eq active h hspace htabs hgroups
  refine ⟨home, focused, hlt, hfocus, ?_, ?_⟩
  · have hsame : changed = false → (activate (placed snapshot session groups spaceId home)
        ((focused.map Prod.fst).filter (· ≠ "")) ((focused.map Prod.snd).getD active)).1 = groups := by
      intro hc
      have hu := hchanged.1 hc
      rw [activate_unchanged hu.activated, hu.ordered, filled_unchanged hu.merged hu.complete]
    rw [hydrated, heq]
    cases hc : changed with
    | true => rfl
    | false =>
      rw [hsame hc]
      by_cases ha : (focused.map Prod.snd).getD active = active
      · simp [ha]
      · simp [ha]
  · rw [heq, ← hchanged]
    cases changed with
    | true => simp
    | false => simp

/-! ## The pages after -/

theorem activate_get (next : List EditorGroup) (path : Option String) (i g : Nat) :
    ((activate next path i).1[g]?).map EditorGroup.tabs = (next[g]?).map EditorGroup.tabs := by
  unfold activate
  split
  · rw [getElem?_modify]
    cases next[g]? with
    | none => rfl
    | some group =>
      by_cases hi : i = g
      · simp [hi]
      · simp [hi]
  · rfl

theorem pages_activate (next : List EditorGroup) (path : Option String) (i : Nat) :
    pages (activate next path i).1 = pages next := by
  have htabs : (activate next path i).1.map EditorGroup.tabs = next.map EditorGroup.tabs := by
    apply ext_getElem?
    intro g
    rw [getElem?_map, getElem?_map, activate_get]
  rw [pages, pages, flatMap_def, flatMap_def, htabs]

def appended (snapshot : HerdrSnapshot) (defaultSessionName : Option String) (groups : List EditorGroup) (home g : Nat) :
    List TabInfo :=
  if home = g then createdPages snapshot defaultSessionName groups else []

theorem filled_get (home g : Nat) : (filled snapshot session groups home)[g]? =
    groups[g]?.map (withTabs fun tabs => tabs.map (hydratedPage snapshot session) ++
      appended snapshot session groups home g) := by
  rw [filled, getElem?_modify, mapPages, getElem?_map]
  cases groups[g]? with
  | none => rfl
  | some group =>
    by_cases hg : home = g
    · simp [appended, hg, withTabs]
    · simp [appended, hg, withTabs]

section After
variable {home : Nat} {focused : Option (String × Nat)} {after : List EditorGroup} {group : EditorGroup}
  {tab : HerdrTabInfo} {page : TabInfo}

theorem placed_get (spaceId : String) (home g : Nat) : (placed snapshot session groups spaceId home)[g]? =
    groups[g]?.map fun group => arranged (fun page => isFocusedSpaceHerdrSlot page snapshot spaceId session)
      ((usableFocusedSpaceTabs snapshot).map HerdrTabInfo.id)
      (withTabs (fun tabs => tabs.map (hydratedPage snapshot session) ++
        appended snapshot session groups home g) group) := by
  rw [placed, getElem?_map, filled_get, Option.map_map]
  rfl

theorem filled_perm (hhome : home < groups.length) : (pages (filled snapshot session groups home)).Perm
    ((pages groups).map (hydratedPage snapshot session) ++
      createdPages snapshot session groups) := by
  rw [← pages_mapPages]
  exact pages_append_perm (by rwa [mapPages, length_map]) _

section
variable (h : Distinct snapshot)
include h

theorem placed_perm (hhome : home < groups.length) :
    (pages (placed snapshot session groups spaceId home)).Perm
      ((pages groups).map (hydratedPage snapshot session) ++
        createdPages snapshot session groups) :=
  (pages_map_perm fun group _ => arranged_perm (ids_nodup h) group).trans (filled_perm hhome)

/-! ### Whose the pages are -/

theorem find_owner {page : TabInfo} {tabs : List HerdrTabInfo}
    (hsub : tabs ⊆ snapshot.tabs) (htab : tab ∈ tabs) (hb : belongs snapshot session page tab = true) :
    tabs.find? (belongs snapshot session page) = some tab := by
  cases hf : tabs.find? (belongs snapshot session page) with
  | none => exact absurd hb (find?_eq_none.1 hf tab htab)
  | some other =>
    have hb' : belongs snapshot session page other = true := find?_some hf
    rw [belongs_unique h (hsub (mem_of_find?_eq_some hf)) (hsub htab) hb' hb]

theorem belongs_hydratedPage (hclean : ∀ tab ∈ usableFocusedSpaceTabs snapshot, CleanId tab)
    (htab : tab ∈ snapshot.tabs) (page : TabInfo) :
    belongs snapshot session (hydratedPage snapshot session page) tab =
      belongs snapshot session page tab := by
  unfold hydratedPage hydratedBy
  cases hf : (usableFocusedSpaceTabs snapshot).find? (belongs snapshot session page) with
  | none => rfl
  | some owner =>
    have howner := mem_of_find?_eq_some hf
    have hb : belongs snapshot session page owner = true := find?_some hf
    have hm : belongs snapshot session (mergeHydratedPage page owner snapshot) owner = true :=
      matches_merge (hclean owner howner) hb
    rw [Option.elim_some, Bool.eq_iff_iff]
    constructor
    · intro ht
      rw [belongs_unique h htab (usable_sublist.subset howner) ht hm]
      exact hb
    · intro ht
      rw [belongs_unique h htab (usable_sublist.subset howner) ht hb]
      exact hm

theorem belongs_create {tab other : HerdrTabInfo} (hclean : CleanId tab) (htab : tab ∈ snapshot.tabs)
    (hother : other ∈ snapshot.tabs)
    (hb : belongs snapshot session (createHydratedPage snapshot tab) other = true) : other = tab := by
  obtain ⟨hne, htrim⟩ := hclean
  obtain ⟨-, -, hid⟩ := pageMatchesHydrationTab_iff.1 hb
  have hown : ((createHydratedPage snapshot tab).herdrTabId.map trim).filter (· ≠ "") = some tab.id := by
    simp [createHydratedPage, htrim, hne]
  rcases hid with hid | ⟨hnone, -⟩
  · exact inj_on_of_nodup_map h.ids hother htab (Option.some.inj (hid.symm.trans hown))
  · cases hown.symm.trans hnone

end

theorem mem_missingTabs : tab ∈ missingTabs snapshot session groups ↔
    tab ∈ usableFocusedSpaceTabs snapshot ∧ hasPage snapshot session groups tab = false := by
  simp [missingTabs]

theorem missing_nodup (h : Distinct snapshot) : (missingTabs snapshot session groups).Nodup :=
  ((h.ids.of_map _).sublist usable_sublist).filter _

/-- **After the snapshot each tab still has one page at most.** -/
theorem single_after (h : Single snapshot session groups)
    (hclean : ∀ tab ∈ usableFocusedSpaceTabs snapshot, CleanId tab)
    (hperm : (pages after).Perm ((pages groups).map (hydratedPage snapshot session) ++
      createdPages snapshot session groups))
    (hpaths : ((pages after).map (·.path)).Nodup) : Single snapshot session after := by
  refine ⟨hpaths, h.distinct, fun tab ht => ?_⟩
  have hmem := usable_sublist.subset ht
  have hold : ((pages groups).map (hydratedPage snapshot session)).countP
      (fun page => belongs snapshot session page tab) =
        (pages groups).countP fun page => belongs snapshot session page tab := by
    rw [countP_map]
    exact countP_congr fun page _ => by rw [Function.comp, belongs_hydratedPage h.distinct hclean hmem]
  have hnew :
    (createdPages snapshot session groups).countP (fun page => belongs snapshot session page tab) ≤
      (missingTabs snapshot session groups).count tab := by
    rw [createdPages, countP_map, count_eq_countP]
    refine countP_mono_left fun other ho hb => ?_
    have hother := (mem_missingTabs.1 ho).1
    exact beq_iff_eq.2 (belongs_create h.distinct (hclean other hother) (usable_sublist.subset hother) hmem hb).symm
  rw [hperm.countP_eq, countP_append, hold]
  cases hp : hasPage snapshot session groups tab with
  | true =>
    have hnot : tab ∉ missingTabs snapshot session groups := by
      rw [mem_missingTabs, hp]
      simp
    rw [count_eq_zero_of_not_mem hnot] at hnew
    exact (Nat.add_le_add (h.single tab ht) hnew).trans_eq (Nat.add_zero 1)
  | false =>
    have hzero : (pages groups).countP (fun page => belongs snapshot session page tab) = 0 :=
      countP_eq_zero.2 fun page hpage => by rw [hasPage_eq_false.1 hp page hpage]; exact Bool.false_ne_true
    rw [hzero, Nat.zero_add]
    exact hnew.trans (nodup_iff_count_le_one.1 (missing_nodup h.distinct) tab)

/-! ### The same snapshot again -/

theorem session_of_create {tab other : HerdrTabInfo}
    (hb : belongs snapshot session (createHydratedPage snapshot tab) other = true) :
    herdrPageMatchesSnapshotSession (some snapshot.herdrSessionId) snapshot.herdrSessionId session = true :=
  (pageMatchesHydrationTab_iff.1 hb).2.1

theorem mem_after (hperm : (pages after).Perm ((pages groups).map (hydratedPage snapshot session) ++
      createdPages snapshot session groups)) :
    page ∈ pages after ↔ (∃ before ∈ pages groups, hydratedPage snapshot session before = page) ∨
      ∃ tab ∈ missingTabs snapshot session groups, createHydratedPage snapshot tab = page := by
  rw [hperm.mem_iff, mem_append, mem_map, createdPages, mem_map]

theorem missing_after (h : Distinct snapshot) (hclean : ∀ tab ∈ usableFocusedSpaceTabs snapshot, CleanId tab)

    (hperm : (pages after).Perm ((pages groups).map (hydratedPage snapshot session) ++
      createdPages snapshot session groups)) :
    (missingTabs snapshot session after = [] ↔ (missingTabs snapshot session groups ≠ [] →
      herdrPageMatchesSnapshotSession (some snapshot.herdrSessionId) snapshot.herdrSessionId session =
        true)) := by
  constructor
  · intro hnone hsome
    obtain ⟨tab, ht⟩ := exists_mem_of_ne_nil _ hsome
    obtain ⟨hu, hno⟩ := mem_missingTabs.1 ht
    have hhas : hasPage snapshot session after tab = true := by
      by_contra hnot
      have : tab ∈ missingTabs snapshot session after := mem_missingTabs.2 ⟨hu, by simpa using hnot⟩
      rw [hnone] at this
      cases this
    obtain ⟨page, hp, hb⟩ := any_eq_true.1 hhas
    rcases (mem_after hperm).1 hp with ⟨before, hbefore, rfl⟩ | ⟨other, -, rfl⟩
    · rw [belongs_hydratedPage h hclean (usable_sublist.subset hu), hasPage_eq_false.1 hno before hbefore] at hb
      cases hb
    · exact session_of_create hb
  · intro hsession
    refine eq_nil_iff_forall_not_mem.2 fun tab ht => ?_
    obtain ⟨hu, hno⟩ := mem_missingTabs.1 ht
    have hnone := hasPage_eq_false.1 hno
    cases hp : hasPage snapshot session groups tab with
    | true =>
      obtain ⟨page, hpage, hb⟩ := any_eq_true.1 hp
      have := hnone _ ((mem_after hperm).2 (.inl ⟨page, hpage, rfl⟩))
      rw [belongs_hydratedPage h hclean (usable_sublist.subset hu), hb] at this
      cases this
    | false =>
      have hmissing : tab ∈ missingTabs snapshot session groups := mem_missingTabs.2 ⟨hu, hp⟩
      have hb : belongs snapshot session (createHydratedPage snapshot tab) tab = true :=
        matches_create (hclean tab hu) (hsession (ne_nil_of_mem hmissing))
      have := hnone _ ((mem_after hperm).2 (.inr ⟨tab, hmissing, rfl⟩))
      rw [hb] at this
      cases this

theorem hydratedPage_again (h : Distinct snapshot) (hclean : ∀ tab ∈ usableFocusedSpaceTabs snapshot, CleanId tab)

    (hperm : (pages after).Perm ((pages groups).map (hydratedPage snapshot session) ++
      createdPages snapshot session groups))
    (hp : page ∈ pages after) : hydratedPage snapshot session page = page := by
  rcases (mem_after hperm).1 hp with ⟨before, -, rfl⟩ | ⟨tab, ht, rfl⟩
  · have hsame : (usableFocusedSpaceTabs snapshot).find?
        (belongs snapshot session (hydratedPage snapshot session before)) =
        (usableFocusedSpaceTabs snapshot).find? (belongs snapshot session before) :=
      find?_congr fun tab ht => belongs_hydratedPage h hclean (usable_sublist.subset ht) before
    have hbefore : hydratedPage snapshot session before =
        ((usableFocusedSpaceTabs snapshot).find? (belongs snapshot session before)).elim before fun tab =>
          mergeHydratedPage before tab snapshot := rfl
    rw [hydratedPage, hydratedBy, hsame, hbefore]
    cases (usableFocusedSpaceTabs snapshot).find? (belongs snapshot session before) with
    | none => rfl
    | some tab => simp only [Option.elim_some, merge_merge]
  · have hu := (mem_missingTabs.1 ht).1
    rw [hydratedPage, hydratedBy]
    cases hf : (usableFocusedSpaceTabs snapshot).find?
        (belongs snapshot session (createHydratedPage snapshot tab)) with
    | none => rfl
    | some other =>
      have hother := usable_sublist.subset (mem_of_find?_eq_some hf)
      have hb : belongs snapshot session (createHydratedPage snapshot tab) other = true := find?_some hf
      rw [belongs_create h (hclean tab hu) (usable_sublist.subset hu) hother hb, Option.elim_some]
      exact merge_create

theorem after_get (spaceId : String) (home : Nat) (path : Option String) (index : Nat)
    (hget : groups[g]? = some group) :
    ∃ group', (activate (placed snapshot session groups spaceId home) path index).1[g]? = some group' ∧
      group'.tabs = (arranged (fun page => isFocusedSpaceHerdrSlot page snapshot spaceId session)
        ((usableFocusedSpaceTabs snapshot).map HerdrTabInfo.id)
        (withTabs (fun tabs => tabs.map (hydratedPage snapshot session) ++
          appended snapshot session groups home g) group)).tabs := by
  have h := activate_get (placed snapshot session groups spaceId home) path index g
  rw [placed_get, hget] at h
  obtain ⟨group', hget', htabs⟩ := Option.map_eq_some_iff.1 h
  exact ⟨group', hget', htabs⟩

theorem after_mem {index : Nat} {group' : EditorGroup}
    (hg : group' ∈ (activate (placed snapshot session groups spaceId home) path index).1) :
    ∃ group ∈ filled snapshot session groups home,
      group'.tabs = (arranged (fun page => isFocusedSpaceHerdrSlot page snapshot spaceId session)
        ((usableFocusedSpaceTabs snapshot).map HerdrTabInfo.id) group).tabs := by
  obtain ⟨g, hget⟩ := getElem?_of_mem hg
  have h := activate_get (placed snapshot session groups spaceId home) path index g
  rw [hget, placed, getElem?_map, Option.map_some, eq_comm, Option.map_eq_some_iff] at h
  obtain ⟨after, hafter, htabs⟩ := h
  obtain ⟨group, hgroup, rfl⟩ := Option.map_eq_some_iff.1 hafter
  exact ⟨group, mem_of_getElem? hgroup, htabs.symm⟩

theorem after_perm (h : Distinct snapshot) (spaceId : String) (home : Nat) (path : Option String) (index : Nat)
    (hget : groups[g]? = some group) :
    ∃ group', (activate (placed snapshot session groups spaceId home) path index).1[g]? = some group' ∧
      group'.tabs.Perm (group.tabs.map (hydratedPage snapshot session) ++
        appended snapshot session groups home g) := by
  obtain ⟨group', hget', htabs⟩ := after_get spaceId home path index hget
  exact ⟨group', hget', htabs ▸ arranged_perm (ids_nodup h) _⟩

/-- **The focus is found where it was put.** -/
theorem focus_again (h : Single snapshot session groups)
    (hclean : ∀ tab ∈ usableFocusedSpaceTabs snapshot, CleanId tab) (hhome : home < groups.length)
    {index home' : Nat} {focused' : Option (String × Nat)}
    (hfocus : Focus snapshot session groups home focused)
    (hafter : Single snapshot session
      (activate (placed snapshot session groups spaceId home) path index).1)
    (hcomplete : missingTabs snapshot session
      (activate (placed snapshot session groups spaceId home) path index).1 = [])
    (hsession : missingTabs snapshot session groups ≠ [] →
      herdrPageMatchesSnapshotSession (some snapshot.herdrSessionId) snapshot.herdrSessionId session = true)
    (hfocus' : Focus snapshot session
      (activate (placed snapshot session groups spaceId home) path index).1 home' focused') :
    focused' = focused := by
  cases focused with
  | none =>
    cases focused' with
    | none => rfl
    | some f =>
      obtain ⟨tab, ht, hid, -⟩ := hfocus'.on f.1 f.2 rfl
      exact absurd hid (hfocus.off rfl tab ht)
  | some f =>
    obtain ⟨tab, ht, hid, hwhere⟩ := hfocus.on f.1 f.2 rfl
    -- the page is in its group, and the only one of the tab
    have hfound : ∃ i page, locate (fun page => belongs snapshot session page tab)
        (activate (placed snapshot session groups spaceId home) path index).1 = some (f.2, i, page) ∧
          page.path = f.1 := by
      rcases hwhere with ⟨i, page, hlocate, hpath⟩ | ⟨hmissing, hpath, hg⟩
      · obtain ⟨hb, group, hget, hmem⟩ := locate_eq_some hlocate
        obtain ⟨group', hget', hperm⟩ := after_perm h.distinct spaceId home path index hget
        have hmem' : hydratedPage snapshot session page ∈ group'.tabs :=
          hperm.mem_iff.2 (mem_append_left _ (mem_map_of_mem hmem))
        obtain ⟨j, hj⟩ := locate_of_mem (hafter.single tab ht) hget' hmem'
          ((belongs_hydratedPage h.distinct hclean (usable_sublist.subset ht) page).trans hb)
        exact ⟨j, _, hj, (hydratedBy_path _ page).trans hpath⟩
      · obtain ⟨group, hget⟩ : ∃ group, groups[f.2]? = some group := ⟨_, getElem?_eq_getElem (hg ▸ hhome)⟩
        obtain ⟨group', hget', hperm⟩ := after_perm h.distinct spaceId home path index hget
        have hmem' : createHydratedPage snapshot tab ∈ group'.tabs := by
          rw [hperm.mem_iff, appended, if_pos hg.symm]
          exact mem_append_right _ (mem_map_of_mem hmissing)
        obtain ⟨j, hj⟩ := locate_of_mem (hafter.single tab ht) hget' hmem'
          (matches_create (hclean tab ht) (hsession (ne_nil_of_mem hmissing)))
        exact ⟨j, _, hj, hpath.symm⟩
    obtain ⟨i, page, hlocate, hpath⟩ := hfound
    cases focused' with
    | none => exact absurd hid (hfocus'.off rfl tab ht)
    | some f' =>
      obtain ⟨tab', ht', hid', hwhere'⟩ := hfocus'.on f'.1 f'.2 rfl
      have hsame :
        tab' = tab := inj_on_of_nodup_map h.distinct.ids (usable_sublist.subset ht') (usable_sublist.subset ht)
        (Option.some.inj (hid'.trans hid.symm))
      subst hsame
      rcases hwhere' with ⟨i', page', hlocate', hpath'⟩ | ⟨hmissing, -⟩
      · have heq := Option.some.inj (hlocate'.symm.trans hlocate)
        have hg : f'.2 = f.2 := congrArg Prod.fst heq
        have hp : page' = page := congrArg (fun r => r.2.2) heq
        exact congrArg some (Prod.ext (hpath'.symm.trans ((congrArg (·.path) hp).trans hpath)) hg)
      · rw [hcomplete] at hmissing
        cases hmissing

theorem focus_lt (hhome : home < groups.length) {path : String}
    (hfocus : Focus snapshot session groups home (some (path, g))) : g < groups.length := by
  obtain ⟨tab, -, -, ⟨i, page, hlocate, -⟩ | ⟨-, -, hg⟩⟩ := hfocus.on path g rfl
  · obtain ⟨-, group, hget, -⟩ := locate_eq_some hlocate
    exact (List.getElem?_eq_some_iff.1 hget).1
  · exact hg ▸ hhome

theorem activate_again {next : List EditorGroup} (hg : path.isSome → g < next.length) :
    (activate (activate next path g).1 path g).2 = false := by
  cases path with
  | none => rfl
  | some path =>
    by_cases h : next[g]?.bind EditorGroup.activePath = some path
    · have hstays : activate next (some path) g = (next, false) := by simp [activate, h]
      rw [hstays]
      exact congrArg Prod.snd hstays
    · have hmoves :
      (activate next (some path) g).1 = next.modify g fun group => { group with activePath := some path } := by
        simp [activate, h]
      have hget : (next.modify g fun group => { group with activePath := some path })[g]?.bind EditorGroup.activePath =
          some path := by
        rw [getElem?_modify, getElem?_eq_getElem (hg rfl)]
        simp
      rw [hmoves]
      simp only [activate, hget, ne_eq, not_true_eq_false, decide_false, Bool.and_false, Bool.false_eq_true, if_false]

theorem arranged_again (h : Distinct snapshot) {slot : TabInfo → Bool} {group group' : EditorGroup}
    (htabs : group'.tabs = (arranged slot ((usableFocusedSpaceTabs snapshot).map HerdrTabInfo.id) group).tabs) :
    arranged slot ((usableFocusedSpaceTabs snapshot).map HerdrTabInfo.id) group' = group' := by
  have hslots := @filter_arranged slot _ (ids_nodup h) group
  rw [← htabs] at hslots
  have hagain : orderPages ((usableFocusedSpaceTabs snapshot).map HerdrTabInfo.id) (group'.tabs.filter slot) =
      group'.tabs.filter slot := by
    rw [hslots]
    exact Regroup.regroup_regroup (ids_nodup h) _
  rw [arranged, withTabs, hagain, weave_self]

/-! ### The order -/

theorem tabs_sublist_pages (hg : group ∈ groups) : group.tabs.Sublist (pages groups) := by
  obtain ⟨s, t, rfl⟩ := append_of_mem hg
  rw [pages, flatMap_append, flatMap_cons]
  exact (sublist_append_left _ _).trans (sublist_append_right _ _)

theorem find_id (h : Distinct snapshot) (ht : tab ∈ usableFocusedSpaceTabs snapshot) :
    ((usableFocusedSpaceTabs snapshot).find? fun other => decide (other.id = tab.id)) = some tab := by
  cases hf : (usableFocusedSpaceTabs snapshot).find? fun other => decide (other.id = tab.id) with
  | none => simpa using find?_eq_none.1 hf tab ht
  | some other =>
    have heq : other.id = tab.id := by simpa using find?_some hf
    rw [inj_on_of_nodup_map (ids_nodup h) (mem_of_find?_eq_some hf) ht heq]

theorem filterMap_filter_bind {A B C : Type} (k : A → Option B) (p : B → Bool) (f : B → Option C) (l : List A) :
    (l.filterMap fun x => ((k x).filter p).bind f) = ((l.filterMap k).filter p).filterMap f := by
  induction l with
  | nil => rfl
  | cons x l ih =>
    rw [filterMap_cons, ih]
    cases hk : k x with
    | none => rw [filterMap_cons_none hk, Option.filter_none, Option.bind_none]
    | some y =>
      rw [filterMap_cons_some hk, Option.filter_some]
      by_cases hp : p y = true
      · rw [if_pos hp, filter_cons_of_pos hp, Option.bind_some, filterMap_cons]
      · rw [if_neg hp, filter_cons_of_neg hp, Option.bind_none]

/-- **The Space's pages stand in the order of the snapshot.** -/
theorem ordered_after
    (hafter : Single snapshot session (placed snapshot session groups spaceId home))
    (hhome : home < groups.length) (hclean : ∀ tab ∈ usableFocusedSpaceTabs snapshot, CleanId tab)
    (hslots : ∀ page ∈ pages groups, isFocusedSpaceHerdrSlot page snapshot spaceId session = true →
      ∀ tab ∈ snapshot.tabs, belongs snapshot session page tab = true → tab ∈ usableFocusedSpaceTabs snapshot)
    (hg : group ∈ filled snapshot session groups home) :
    ((orderPages ((usableFocusedSpaceTabs snapshot).map HerdrTabInfo.id)
      (group.tabs.filter fun page => isFocusedSpaceHerdrSlot page snapshot spaceId session)).filterMap
        fun page => snapshot.tabs.find? (belongs snapshot session page)).Sublist snapshot.tabs := by
  have hd := hafter.distinct
  have hids := ids_nodup hd
  generalize hc : group.tabs.filter (fun page => isFocusedSpaceHerdrSlot page snapshot spaceId session) = c
  have hmem : ∀ page ∈ c, page ∈ pages (filled snapshot session groups home) ∧
      isFocusedSpaceHerdrSlot page snapshot spaceId session = true := by
    intro page hp
    rw [← hc] at hp
    obtain ⟨hp, hslot⟩ := mem_filter.1 hp
    exact ⟨mem_pages.2 ⟨group, hg, hp⟩, hslot⟩
  -- a page of a slot is found under the id of its tab
  have hkey : ∀ page ∈ c, ∀ tab ∈ snapshot.tabs, belongs snapshot session page tab = true →
      tab ∈ usableFocusedSpaceTabs snapshot ∧ tabKey page = some tab.id := by
    intro page hp tab ht hb
    obtain ⟨hp, hslot⟩ := hmem page hp
    have hnamed : ∀ {owner : HerdrTabInfo} {p : TabInfo}, owner ∈ usableFocusedSpaceTabs snapshot →
        p.herdrTabId = some owner.id → tabKey p = some owner.id := by
      intro owner p ho hid
      simp [tabKey, hid, (hclean owner ho).1]
    rcases (mem_after (filled_perm hhome)).1 hp with ⟨before, hbefore, rfl⟩ | ⟨other, ho, rfl⟩
    · have hb' := (belongs_hydratedPage hd hclean ht before).symm.trans hb
      have hcase : hydratedPage snapshot session before =
        ((usableFocusedSpaceTabs snapshot).find? (belongs snapshot session before)).elim before fun tab =>
          mergeHydratedPage before tab snapshot := rfl
      cases hf : (usableFocusedSpaceTabs snapshot).find? (belongs snapshot session before) with
      | none =>
        rw [hf, Option.elim_none] at hcase
        rw [hcase] at hslot
        exact absurd hb' (find?_eq_none.1 hf tab (hslots before hbefore hslot tab ht hb'))
      | some owner =>
        have howner := mem_of_find?_eq_some hf
        have hbo : belongs snapshot session before owner = true := find?_some hf
        obtain rfl := belongs_unique hd ht (usable_sublist.subset howner) hb' hbo
        rw [hf, Option.elim_some] at hcase
        refine ⟨howner, hnamed howner ?_⟩
        rw [hcase, mergeHydratedPage_eq]
    · have hu := (mem_missingTabs.1 ho).1
      obtain rfl := belongs_create hd (hclean other hu) (usable_sublist.subset hu) ht hb
      exact ⟨hu, hnamed hu rfl⟩
  have hback : ∀ page ∈ c, ∀ tab ∈ usableFocusedSpaceTabs snapshot, tabKey page = some tab.id →
      belongs snapshot session page tab = true :=
    fun page hp tab ht hk => matches_of_key (hclean tab ht) (hmem page hp).2 hk
  have hone : ∀ id ∈ (usableFocusedSpaceTabs snapshot).map HerdrTabInfo.id, (c.filterMap tabKey).count id ≤ 1 := by
    intro id hid
    obtain ⟨tab, ht, rfl⟩ := mem_map.1 hid
    have hle : (c.filterMap tabKey).count tab.id ≤ c.countP fun page => belongs snapshot session page tab := by
      rw [count_filterMap]
      exact countP_mono_left fun page hp hk => hback page hp tab ht (by simpa using hk)
    have hpages : (pages (filled snapshot session groups home)).countP
        (fun page => belongs snapshot session page tab) ≤ 1 := by
      have := hafter.single tab ht
      rwa [((placed_perm hd hhome).trans (filled_perm hhome).symm).countP_eq] at this
    refine hle.trans (le_trans ?_ hpages)
    rw [← hc]
    exact (filter_sublist.trans (tabs_sublist_pages hg)).countP_le
  have hperm := @Regroup.regroup_perm _ _ _ tabKey _ hids c
  have hfind : ∀ page ∈ orderPages ((usableFocusedSpaceTabs snapshot).map HerdrTabInfo.id) c,
      snapshot.tabs.find? (belongs snapshot session page) =
        ((tabKey page).filter fun id => decide (id ∈ (usableFocusedSpaceTabs snapshot).map HerdrTabInfo.id)).bind
          fun id => (usableFocusedSpaceTabs snapshot).find? fun tab => decide (tab.id = id) := by
    intro page hp
    have hp := hperm.mem_iff.1 hp
    cases hk : (tabKey page).filter fun id => decide (id ∈ (usableFocusedSpaceTabs snapshot).map HerdrTabInfo.id) with
    | none =>
      refine find?_eq_none.2 fun tab ht hb => ?_
      obtain ⟨hu, hid⟩ := hkey page hp tab ht hb
      rw [hid, Option.filter_some, if_pos (decide_eq_true (mem_map_of_mem hu))] at hk
      cases hk
    | some id =>
      obtain ⟨hid, hin⟩ := Option.filter_eq_some_iff.1 hk
      obtain ⟨tab, ht, rfl⟩ := mem_map.1 (of_decide_eq_true hin)
      rw [Option.bind_some, find_id hd ht]
      exact find_owner hd (List.Subset.refl _) (usable_sublist.subset ht) (hback page hp tab ht hid)
  rw [filterMap_congr hfind, filterMap_filter_bind]
  have hkeys := @Regroup.regroup_keys _ _ _ tabKey _ hids c hone
  rw [show (orderPages ((usableFocusedSpaceTabs snapshot).map HerdrTabInfo.id) c).filterMap tabKey =
    (Regroup.regroup tabKey ((usableFocusedSpaceTabs snapshot).map HerdrTabInfo.id) c).filterMap tabKey from rfl, hkeys]
  have hall : (((usableFocusedSpaceTabs snapshot).map HerdrTabInfo.id).filterMap fun id =>
      (usableFocusedSpaceTabs snapshot).find? fun tab => decide (tab.id = id)) = usableFocusedSpaceTabs snapshot := by
    rw [filterMap_map]
    exact (filterMap_congr fun tab ht => find_id hd ht).trans filterMap_some
  have hsub := (filter_sublist (l := (usableFocusedSpaceTabs snapshot).map HerdrTabInfo.id)
    (p := fun id => decide (id ∈ c.filterMap tabKey))).filterMap fun id =>
      (usableFocusedSpaceTabs snapshot).find? fun tab => decide (tab.id = id)
  rw [hall] at hsub
  exact hsub.trans usable_sublist

end After

/-! ## The whole -/

variable (snapshot defaultSessionName groups active)

def inFocusedSpace (page : TabInfo) : Bool :=
  ((focusedSpace snapshot).any fun spaceId => isFocusedSpaceHerdrSlot page snapshot spaceId defaultSessionName) ||
    (usableFocusedSpaceTabs snapshot).any (belongs snapshot defaultSessionName page)

/-- What the snapshot is to do to the editor. -/
structure Reconciled : Prop where
  paths : ((pages (hydrated snapshot defaultSessionName groups active).groups).map (·.path)).Nodup
  kept : ∀ (g : Nat) (group : EditorGroup), groups[g]? = some group → ∃ group' created,
    (hydrated snapshot defaultSessionName groups active).groups[g]? = some group' ∧
      group'.tabs.Perm (group.tabs.map (hydratedPage snapshot defaultSessionName) ++ created)
  added : (pages (hydrated snapshot defaultSessionName groups active).groups).Perm
    ((pages groups).map (hydratedPage snapshot defaultSessionName) ++
      (missingTabs snapshot defaultSessionName groups).map (createHydratedPage snapshot))
  outside : ∀ (g : Nat) (group group' : EditorGroup) (i : Nat) (page : TabInfo), groups[g]? = some group →
    (hydrated snapshot defaultSessionName groups active).groups[g]? = some group' → group.tabs[i]? = some page →
      inFocusedSpace snapshot defaultSessionName page = false → group'.tabs[i]? = some page
  ordered : ∀ spaceId, focusedSpace snapshot = some spaceId →
    ∀ group ∈ (hydrated snapshot defaultSessionName groups active).groups,
      ((group.tabs.filter fun page => isFocusedSpaceHerdrSlot page snapshot spaceId defaultSessionName).filterMap
        fun page => snapshot.tabs.find? (belongs snapshot defaultSessionName page)).Sublist snapshot.tabs
  again : hydrateFocusedSpaceHerdrPages (hydrated snapshot defaultSessionName groups active).groups snapshot
      defaultSessionName (hydrated snapshot defaultSessionName groups active).activeGroupIndex = none
  stays : hydrated snapshot defaultSessionName (hydrated snapshot defaultSessionName groups active).groups active =
    hydrated snapshot defaultSessionName groups active

/-- The pages that are made are new, and recognise their own tabs. -/
structure Ready : Prop where
  opened : usableFocusedSpaceTabs snapshot ≠ [] → groups ≠ []
  session : missingTabs snapshot defaultSessionName groups ≠ [] →
    herdrPageMatchesSnapshotSession (some snapshot.herdrSessionId) snapshot.herdrSessionId defaultSessionName = true
  paths : ∀ tab ∈ missingTabs snapshot defaultSessionName groups, ∀ page ∈ pages groups,
    page.path ≠ herdrPagePath snapshot.herdrSessionId (trimmedTerminal tab)
  terminals : ((missingTabs snapshot defaultSessionName groups).map trimmedTerminal).Nodup

variable {snapshot defaultSessionName groups active}

theorem paths_after_iff (hpaths : ((pages groups).map (·.path)).Nodup) {after : List EditorGroup}
    (hperm : (pages after).Perm ((pages groups).map (hydratedPage snapshot session) ++
      createdPages snapshot session groups)) :
    ((pages after).map (·.path)).Nodup ↔
      (∀ tab ∈ missingTabs snapshot session groups, ∀ page ∈ pages groups,
        page.path ≠ herdrPagePath snapshot.herdrSessionId (trimmedTerminal tab)) ∧
      ((missingTabs snapshot session groups).map trimmedTerminal).Nodup := by
  have hold :
    ((pages groups).map (hydratedPage snapshot session)).map (·.path) = (pages groups).map (·.path) := by
    rw [map_map]
    exact map_congr_left fun page _ => hydratedBy_path _ page
  have hnew : (createdPages snapshot session groups).map (·.path) =
      ((missingTabs snapshot session groups).map trimmedTerminal).map
      (herdrPagePath snapshot.herdrSessionId) := by
    rw [createdPages, map_map, map_map]
    rfl
  have hinj : Function.Injective (herdrPagePath snapshot.herdrSessionId) := fun _ _ => herdrPagePath_inj
  rw [(hperm.map (·.path)).nodup_iff, map_append, hold, hnew, nodup_append, nodup_map_iff hinj]
  constructor
  · rintro ⟨-, hterminals, hne⟩
    refine ⟨fun tab ht page hp => ?_, hterminals⟩
    exact hne _ (mem_map_of_mem hp) _ (mem_map_of_mem (mem_map_of_mem ht))
  · rintro ⟨hne, hterminals⟩
    refine ⟨hpaths, hterminals, fun path hpath path' hpath' => ?_⟩
    obtain ⟨page, hp, rfl⟩ := mem_map.1 hpath
    obtain ⟨terminal, hterminal, rfl⟩ := mem_map.1 hpath'
    obtain ⟨tab, htab, rfl⟩ := mem_map.1 hterminal
    exact hne tab htab page hp

theorem reconciled_nothing (hpaths : ((pages groups).map (·.path)).Nodup) (htabs : usableFocusedSpaceTabs snapshot = [])
    (hslots : ∀ page ∈ pages groups, inFocusedSpace snapshot session page = true → ∀ tab ∈ snapshot.tabs,
      belongs snapshot session page tab = true → tab ∈ usableFocusedSpaceTabs snapshot) :
    Reconciled snapshot session groups active := by
  have hnone : ∀ active, hydrateFocusedSpaceHerdrPages groups snapshot session active = none :=
    fun active => hydrate_nothing (.inl htabs)
  have hsame : ∀ active, hydrated snapshot session groups active = ⟨groups, active⟩ := fun active => by
    rw [hydrated, hnone, Option.getD_none]
  have hpage : ∀ page, hydratedPage snapshot session page = page := fun page => by
    rw [hydratedPage, htabs]
    rfl
  have hmap : ∀ tabs : List TabInfo, tabs.map (hydratedPage snapshot session) = tabs := fun tabs =>
    (map_congr_left fun page _ => hpage page).trans (map_id tabs)
  have hmissing : missingTabs snapshot session groups = [] := by rw [missingTabs, htabs, filter_nil]
  refine ⟨?_, fun g group hget => ⟨group, [], ?_, ?_⟩, ?_, ?_, fun spaceId hspace group hg => ?_, ?_, ?_⟩
  · rw [hsame]
    exact hpaths
  · rw [hsame]
    exact hget
  · rw [hmap, append_nil]
  · rw [hsame, hmap, hmissing, map_nil, append_nil]
  · intro g group group' i page hget hget' hpage _
    rw [hsame] at hget'
    cases hget.symm.trans hget'
    exact hpage
  · rw [hsame] at hg
    rw [filterMap_eq_nil_iff.2 fun page hp => ?_]
    · exact nil_sublist _
    · obtain ⟨hp, hslot⟩ := mem_filter.1 hp
      refine find?_eq_none.2 fun tab ht hb => ?_
      have := hslots page (mem_pages.2 ⟨group, hg, hp⟩) (by simp [inFocusedSpace, hspace, hslot]) tab ht hb
      rw [htabs] at this
      cases this
  · rw [hsame]
    exact hnone active
  · rw [hsame, hsame]

end Hydrate

/-! ## Two snapshots -/

def exampleTab (id terminalId : String) : HerdrTabInfo := ⟨id, id, "space", none, some terminalId⟩

def exampleSnapshot (tabs : List HerdrTabInfo) : HerdrSnapshot := ⟨"work", tabs, some "space", some "t2", none⟩

def exampleGroups (tab : HerdrTabInfo) : List EditorGroup := [⟨none, [createHydratedPage (exampleSnapshot []) tab], none⟩]

end HerdrPages
end Yuzora
