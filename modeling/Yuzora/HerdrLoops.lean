import Mathlib.Data.List.Perm.Subperm
import Yuzora.HerdrPages
/-!
# HerdrLoops — a snapshot, tab by tab

Where each tab has one page at most the tabs do not get in each other's way: the first loop merges into every page the
tab it belongs to (`matchTabs_spec`), the second appends a page for each tab without one (`createTabs_spec`), and the
order of a group's slots is that of the wanted tabs (`reorderGroup_eq`).
-/
namespace Yuzora
namespace HerdrPages

open List
open TabReorder (slotIndices setSlots weave setSlots_eq length_slotIndices filter_weave)

/-! ## The pages of all groups -/

def pages (groups : List EditorGroup) : List TabInfo := groups.flatMap EditorGroup.tabs

def mapPages (f : TabInfo → TabInfo) (groups : List EditorGroup) : List EditorGroup := groups.map (withTabs (List.map f))

section Pages
variable {q : TabInfo → Bool} {groups : List EditorGroup} {page : TabInfo} {tabs : List TabInfo} {r : Nat × TabInfo}

@[simp] theorem withTabs_tabs (f : List TabInfo → List TabInfo) (group : EditorGroup) :
    (withTabs f group).tabs = f group.tabs := rfl

theorem pages_cons (group : EditorGroup) (groups : List EditorGroup) : pages
    (group :: groups) = group.tabs ++ pages groups :=
  flatMap_cons

theorem mem_pages : page ∈ pages groups ↔ ∃ group ∈ groups, page ∈ group.tabs := mem_flatMap

variable (f : TabInfo → TabInfo)

theorem pages_mapPages (groups : List EditorGroup) :
    pages (mapPages f groups) = (pages groups).map f := by
  induction groups with
  | nil => rfl
  | cons group groups ih =>
    rw [pages_cons, map_append, ← ih]
    rfl

theorem mapPages_congr {f g : TabInfo → TabInfo} (h : ∀ page ∈ pages groups, f page = g page) :
    mapPages f groups = mapPages g groups := by
  refine map_congr_left fun group hg => ?_
  have : group.tabs.map f = group.tabs.map g := map_congr_left fun page hp => h page (mem_pages.2 ⟨group, hg, hp⟩)
  rw [withTabs, withTabs, this]

theorem mapPages_self {f : TabInfo → TabInfo} (h : ∀ page ∈ pages groups, f page = page) :
    mapPages f groups = groups := by
  rw [mapPages_congr (g := id) h]
  exact (map_congr_left fun group _ => by rw [withTabs, map_id]; rfl).trans (map_id groups)

theorem mapPages_mapPages (f g : TabInfo → TabInfo) (groups : List EditorGroup) :
    mapPages g (mapPages f groups) = mapPages (fun page => g (f page)) groups := by
  rw [mapPages, mapPages, map_map]
  refine map_congr_left fun group _ => ?_
  rw [Function.comp, withTabs, withTabs, withTabs, map_map]
  rfl

theorem pages_map_perm {f : EditorGroup → EditorGroup} (h : ∀ group ∈ groups, (f group).tabs.Perm group.tabs) :
    (pages (groups.map f)).Perm (pages groups) := by
  induction groups with
  | nil => exact .nil
  | cons group groups ih =>
    exact (h group mem_cons_self).append (ih fun g hg => h g (mem_cons_of_mem _ hg))

theorem pages_append_perm {i : Nat} (hi : i < groups.length) (created : List TabInfo) :
    (pages (groups.modify i (withTabs (· ++ created)))).Perm (pages groups ++ created) := by
  induction groups generalizing i with
  | nil => exact absurd hi (Nat.not_lt_zero i)
  | cons group groups ih =>
    cases i with
    | zero =>
      rw [modify_zero_cons, pages_cons, pages_cons, withTabs_tabs, append_assoc, append_assoc]
      exact perm_append_comm.append_left _
    | succ i =>
      rw [modify_succ_cons, pages_cons, pages_cons, append_assoc]
      exact (ih (Nat.lt_of_succ_lt_succ hi)).append_left _

/-! ## The first page -/

theorem findPage_eq_none : findPage q tabs = none ↔ ∀ page ∈ tabs, q page = false := by
  induction tabs with
  | nil => simp [findPage]
  | cons page tabs ih =>
    rw [findPage]
    by_cases h : q page = true <;> simp [h, ih]

theorem findPage_eq_some (h : findPage q tabs = some r) : r.2 ∈ tabs ∧ q r.2 = true := by
  induction tabs generalizing r with
  | nil => cases h
  | cons page tabs ih =>
    rw [findPage] at h
    by_cases hq : q page = true
    · rw [if_pos hq] at h
      cases h
      exact ⟨mem_cons_self, hq⟩
    · rw [if_neg hq] at h
      obtain ⟨r, hr, rfl⟩ := Option.map_eq_some_iff.1 h
      exact ⟨mem_cons_of_mem _ (ih hr).1, (ih hr).2⟩

theorem findPage_set (h : findPage q tabs = some r)
    (hone : tabs.countP q ≤ 1) : tabs.set r.1 (f r.2) = tabs.map fun page => if q page then f page else page := by
  induction tabs generalizing r with
  | nil => cases h
  | cons page tabs ih =>
    rw [findPage] at h
    by_cases hq : q page = true
    · rw [if_pos hq] at h
      cases h
      rw [countP_cons_of_pos hq] at hone
      have hrest : ∀ x ∈ tabs, q x = false := by
        intro x hx
        by_contra hqx
        have := countP_pos_iff.2 ⟨x, hx, by simpa using hqx⟩
        omega
      have hsame : tabs.map (fun page => if q page then f page else page) = tabs :=
        (map_congr_left fun x hx => by rw [hrest x hx]; rfl).trans (map_id tabs)
      rw [set_cons_zero, map_cons, if_pos hq, hsame]
    · rw [if_neg hq] at h
      obtain ⟨r, hr, rfl⟩ := Option.map_eq_some_iff.1 h
      rw [countP_cons_of_neg hq] at hone
      rw [set_cons_succ, map_cons, if_neg hq, ih hr hone]

theorem locate_eq_none : locate q groups = none ↔ ∀ page ∈ pages groups, q page = false := by
  induction groups with
  | nil => simp [locate, pages]
  | cons group groups ih =>
    rw [locate, pages_cons]
    cases hg : findPage q group.tabs with
    | none =>
      simp only [Option.map_eq_none_iff, ih, mem_append]
      exact ⟨fun h page hp => hp.elim (findPage_eq_none.1 hg page) (h page), fun h page hp => h page (.inr hp)⟩
    | some r =>
      obtain ⟨hmem, hq⟩ := findPage_eq_some hg
      refine ⟨fun h => (by cases h), fun h => ?_⟩
      rw [h r.2 (mem_append_left _ hmem)] at hq
      cases hq

theorem locate_eq_some {g i : Nat} (h : locate q groups = some (g, i, page)) :
    q page = true ∧ ∃ group, groups[g]? = some group ∧ page ∈ group.tabs := by
  induction groups generalizing g with
  | nil => cases h
  | cons group groups ih =>
    rw [locate] at h
    cases hg : findPage q group.tabs with
    | none =>
      rw [hg] at h
      obtain ⟨⟨_, _, _⟩, hr, heq⟩ := Option.map_eq_some_iff.1 h
      cases heq
      obtain ⟨hq, group', hget, hmem⟩ := ih hr
      exact ⟨hq, group', hget, hmem⟩
    | some r =>
      rw [hg] at h
      cases h
      obtain ⟨hmem, hq⟩ := findPage_eq_some hg
      exact ⟨hq, group, rfl, hmem⟩

theorem locate_congr {q' : TabInfo → Bool} (h : ∀ page ∈ pages groups, q page = q' page) :
    locate q groups = locate q' groups := by
  have hfind : ∀ tabs : List TabInfo, (∀ page ∈ tabs, q page = q' page) → findPage q tabs = findPage q' tabs := by
    intro tabs ht
    induction tabs with
    | nil => rfl
    | cons page tabs ih =>
      rw [findPage, findPage, ht page mem_cons_self, ih fun x hx => ht x (mem_cons_of_mem _ hx)]
  induction groups with
  | nil => rfl
  | cons group groups ih =>
    rw [locate, locate, hfind _ fun page hp => h page (mem_append_left _ hp),
      ih fun page hp => h page (mem_append_right _ hp)]

theorem locate_mapPages :
    locate q (mapPages f groups) = (locate (fun page => q (f page)) groups).map fun r => (r.1, r.2.1, f r.2.2) := by
  have hfind : ∀ tabs : List TabInfo, findPage q (tabs.map f) =
      (findPage (fun page => q (f page)) tabs).map fun r => (r.1, f r.2) := by
    intro tabs
    induction tabs with
    | nil => rfl
    | cons page tabs ih =>
      rw [map_cons, findPage, findPage]
      by_cases hq : q (f page) = true
      · rw [if_pos hq, if_pos hq]
        rfl
      · rw [if_neg hq, if_neg hq, ih, Option.map_map, Option.map_map]
        rfl
  induction groups with
  | nil => rfl
  | cons group groups ih =>
    rw [mapPages, map_cons, locate, locate, withTabs_tabs, hfind]
    cases findPage (fun page => q (f page)) group.tabs with
    | some r => rfl
    | none =>
      rw [← mapPages, ih, Option.map_map, Option.map_map]
      rfl

theorem countP_eq_zero_of_tail {l r : List TabInfo} (h : (l ++ r).countP q ≤ 1) (hl : 0 < l.countP q) :
    ∀ page ∈ r, q page = false := by
  intro page hp
  by_contra hq
  have := countP_pos_iff.2 ⟨page, hp, by simpa using hq⟩
  rw [countP_append] at h
  omega

theorem locate_set {g i : Nat} (f : TabInfo → TabInfo) (h : locate q groups = some (g, i, page))
    (hone : (pages groups).countP q ≤ 1) :
    groups.modify g (withTabs fun tabs => tabs.set i (f page)) = mapPages (fun page => if q page then f page else page) groups := by
  induction groups generalizing g with
  | nil => cases h
  | cons group groups ih =>
    rw [locate] at h
    rw [pages_cons] at hone
    have hle : group.tabs.countP q ≤ 1 := by
      rw [countP_append] at hone
      omega
    cases hg : findPage q group.tabs with
    | none =>
      rw [hg] at h
      obtain ⟨⟨_, _, _⟩, hr, heq⟩ := Option.map_eq_some_iff.1 h
      cases heq
      have hnone := findPage_eq_none.1 hg
      have hsame : group.tabs.map (fun page => if q page then f page else page) = group.tabs :=
        (map_congr_left fun x hx => by rw [hnone x hx]; rfl).trans (map_id _)
      rw [modify_succ_cons, ih hr (by rw [countP_append] at hone; omega), mapPages, mapPages, map_cons,
        withTabs, hsame]
    | some r =>
      rw [hg] at h
      cases h
      obtain ⟨hmem, hq⟩ := findPage_eq_some hg
      have hrest := countP_eq_zero_of_tail hone (countP_pos_iff.2 ⟨_, hmem, hq⟩)
      have hsame : mapPages (fun page => if q page then f page else page) groups = groups :=
        mapPages_self fun x hx => by rw [hrest x hx]; rfl
      rw [modify_zero_cons, mapPages, map_cons, ← mapPages, hsame, withTabs, withTabs, findPage_set f hg hle]

theorem eq_of_countP {l : List TabInfo} {a b : TabInfo} (h : l.countP q ≤ 1) (ha : a ∈ l) (hb : b ∈ l) (hqa : q a = true)
    (hqb : q b = true) : a = b := by
  obtain ⟨s, t, rfl⟩ := append_of_mem ha
  rw [countP_append, countP_cons_of_pos hqa] at h
  rcases mem_append.1 hb with hb | hb
  · have := countP_pos_iff.2 ⟨b, hb, hqb⟩
    omega
  · rcases mem_cons.1 hb with rfl | hb
    · rfl
    · have := countP_pos_iff.2 ⟨b, hb, hqb⟩
      omega

theorem locate_of_mem {g : Nat} {group : EditorGroup} (hone : (pages groups).countP q ≤ 1)
    (hget : groups[g]? = some group) (hmem : page ∈ group.tabs) (hq : q page = true) :
    ∃ i, locate q groups = some (g, i, page) := by
  induction groups generalizing g with
  | nil => cases hget
  | cons first groups ih =>
    rw [locate]
    rw [pages_cons] at hone
    cases hf : findPage q first.tabs with
    | some r =>
      obtain ⟨hmem', hq'⟩ := findPage_eq_some hf
      cases g with
      | zero =>
        obtain rfl := Option.some.inj hget
        have hle : first.tabs.countP q ≤ 1 := by
          rw [countP_append] at hone
          omega
        obtain rfl := eq_of_countP hle hmem' hmem hq' hq
        exact ⟨r.1, rfl⟩
      | succ g =>
        have hrest := countP_eq_zero_of_tail hone (countP_pos_iff.2 ⟨_, hmem', hq'⟩)
        have hin : page ∈ pages groups := mem_pages.2 ⟨group, mem_of_getElem? hget, hmem⟩
        rw [hrest page hin] at hq
        cases hq
    | none =>
      cases g with
      | zero =>
        cases hget
        rw [findPage_eq_none.1 hf page hmem] at hq
        cases hq
      | succ g =>
        obtain ⟨i, hi⟩ := ih (by rw [countP_append] at hone; omega) hget
        exact ⟨i, by simp [hi]⟩

end Pages

/-! ## The first loop -/

section Loops
variable (snapshot : HerdrSnapshot) (defaultSessionName : Option String)

def belongs (page : TabInfo) (tab : HerdrTabInfo) : Bool :=
  pageMatchesHydrationTab page tab snapshot.herdrSessionId defaultSessionName

def hydratedBy (tabs : List HerdrTabInfo) (page : TabInfo) : TabInfo :=
  (tabs.find? (belongs snapshot defaultSessionName page)).elim page fun tab => mergeHydratedPage page tab snapshot

def hasPage (groups : List EditorGroup) (tab : HerdrTabInfo) : Bool :=
  (pages groups).any fun page => belongs snapshot defaultSessionName page tab

def missingTabs (groups : List EditorGroup) : List HerdrTabInfo :=
  (usableFocusedSpaceTabs snapshot).filter fun tab => !hasPage snapshot defaultSessionName groups tab

/-- Each tab that is wanted has one page at most. -/
structure Single (groups : List EditorGroup) : Prop where
  paths : ((pages groups).map (·.path)).Nodup
  distinct : Distinct snapshot
  single : ∀ tab ∈ usableFocusedSpaceTabs snapshot,
    (pages groups).countP (fun page => belongs snapshot defaultSessionName page tab) ≤ 1

/-- Some tabs are done. -/
structure Matched (groups : List EditorGroup) (done : List HerdrTabInfo) (state : Hydration) : Prop where
  next : state.next = mapPages (hydratedBy snapshot defaultSessionName done) groups
  claimed : ∀ page ∈ pages groups, page.path ∈ state.claimed ↔ ∃ tab ∈ done,
    belongs snapshot defaultSessionName page tab = true
  missing : state.missing = done.filter fun tab => !hasPage snapshot defaultSessionName groups tab
  changed : state.changed = false ↔ ∀ page ∈ pages groups, hydratedBy snapshot defaultSessionName done page = page
  focused : ∀ path g, state.focused = some (path, g) → ∃ tab ∈ done, some tab.id = snapshot.focusedTabId ∧
    ∃ i page, locate (fun page => belongs snapshot defaultSessionName page tab) groups = some (g, i, page) ∧
      page.path = path
  unfocused : state.focused = none → ∀ tab ∈ done, some tab.id = snapshot.focusedTabId →
    hasPage snapshot defaultSessionName groups tab = false

variable {snapshot defaultSessionName} {session : Option String} {groups : List EditorGroup} {done : List HerdrTabInfo} {state : Hydration}
  {tab : HerdrTabInfo} {page : TabInfo}

theorem belongs_unique {other : HerdrTabInfo} (h : Distinct snapshot) (htab : tab ∈ snapshot.tabs)
    (hother : other ∈ snapshot.tabs)
    (hb : belongs snapshot session page tab = true)
    (hb' : belongs snapshot session page other = true) :
    tab = other :=
  matches_unique h htab hother hb hb'

theorem hydratedBy_path (tabs : List HerdrTabInfo) (page : TabInfo) :
    (hydratedBy snapshot session tabs page).path = page.path := by
  unfold hydratedBy
  cases tabs.find? (belongs snapshot session page) with
  | none => rfl
  | some tab => rw [Option.elim_some, merge_path]

theorem hydratedBy_none (h : ∀ t ∈ done, belongs snapshot session page t = false) :
    hydratedBy snapshot session done page = page := by
  have : done.find? (belongs snapshot session page) = none :=
    find?_eq_none.2 fun t ht => by simp [h t ht]
  rw [hydratedBy, this, Option.elim_none]

theorem hydratedBy_append_not (h : belongs snapshot session page tab = false) :
    hydratedBy snapshot session (done ++ [tab]) page = hydratedBy snapshot session done page := by
  rw [hydratedBy, hydratedBy, find?_append, find?_cons, h, find?_nil, Option.or_none]

theorem hydratedBy_append (h : ∀ t ∈ done, belongs snapshot session page t = false)
    (htab : belongs snapshot session page tab = true) :
    hydratedBy snapshot session (done ++ [tab]) page = mergeHydratedPage page tab snapshot := by
  have : done.find? (belongs snapshot session page) = none :=
    find?_eq_none.2 fun t ht => by simp [h t ht]
  rw [hydratedBy, find?_append, this, find?_cons, htab, Option.none_or, Option.elim_some]

theorem hasPage_eq_false : hasPage snapshot session groups tab = false ↔
    ∀ page ∈ pages groups, belongs snapshot session page tab = false := by
  simp [hasPage]

theorem findMatch_eq (h : Single snapshot session groups)
    (hdone : Matched snapshot session groups done state)
    (hsub : done ⊆ snapshot.tabs) (htab : tab ∈ snapshot.tabs) (hnew : tab ∉ done) :
    (∀ page ∈ pages groups, (!state.claimed.contains (hydratedBy snapshot session done page).path &&
        belongs snapshot session (hydratedBy snapshot session done page) tab) =
          belongs snapshot session page tab) ∧
      ∀ page ∈ pages groups, belongs snapshot session page tab = true →
        ∀ t ∈ done, belongs snapshot session page t = false := by
  have hfree : ∀ page ∈ pages groups, belongs snapshot session page tab = true →
      ∀ t ∈ done, belongs snapshot session page t = false := by
    intro page _ hb t ht
    by_contra hbt
    obtain rfl := belongs_unique h.distinct htab (hsub ht) hb (Bool.eq_true_of_not_eq_false hbt)
    exact hnew ht
  refine ⟨fun page hp => ?_, hfree⟩
  rw [hydratedBy_path]
  by_cases hc : page.path ∈ state.claimed
  · obtain ⟨t, ht, hbt⟩ := (hdone.claimed page hp).1 hc
    have hnot : belongs snapshot session page tab = false := by
      by_contra hb
      rw [hfree page hp (by simpa using hb) t ht] at hbt
      cases hbt
    simp [hc, hnot]
  · rw [hydratedBy_none fun t ht => by
      by_contra hbt
      exact hc ((hdone.claimed page hp).2 ⟨t, ht, by simpa using hbt⟩)]
    simp [hc]

/-- **One tab is matched.** -/
theorem matchTab_matched (h : Single snapshot session groups)
    (hdone : Matched snapshot session groups done state)
    (hsub : done ⊆ snapshot.tabs) (htab : tab ∈ usableFocusedSpaceTabs snapshot) (hnew : tab ∉ done) :
    Matched snapshot session groups (done ++ [tab]) (matchTab snapshot session state tab) := by
  obtain ⟨hsame, hfree⟩ := findMatch_eq h hdone hsub (usable_sublist.subset htab) hnew
  have hone := h.single tab htab
  have hfind : findMatch snapshot session state tab =
      (locate (fun page => belongs snapshot session page tab) groups).map fun r =>
        (r.1, r.2.1, hydratedBy snapshot session done r.2.2) := by
    rw [findMatch, hdone.next, locate_mapPages]
    exact congrArg (Option.map _) (locate_congr hsame)
  unfold matchTab
  cases hlocate : locate (fun page => belongs snapshot session page tab) groups with
  | none =>
    have hnone := locate_eq_none.1 hlocate
    have hno : hasPage snapshot session groups tab = false := hasPage_eq_false.2 hnone
    rw [hlocate, Option.map_none] at hfind
    rw [hfind]
    have hby : ∀ page ∈ pages groups, hydratedBy snapshot session (done ++ [tab]) page =
        hydratedBy snapshot session done page := fun page hp => hydratedBy_append_not (hnone page hp)
    refine ⟨hdone.next.trans (mapPages_congr fun page hp => (hby page hp).symm), fun page hp => ?_, ?_, ?_, ?_, ?_⟩
    · rw [hdone.claimed page hp]
      constructor
      · rintro ⟨t, ht, hb⟩
        exact ⟨t, mem_append_left _ ht, hb⟩
      · rintro ⟨t, ht, hb⟩
        rcases mem_append.1 ht with ht | ht
        · exact ⟨t, ht, hb⟩
        · rw [mem_singleton.1 ht, hnone page hp] at hb
          cases hb
    · simp [hdone.missing, hno]
    · rw [hdone.changed]
      exact forall₂_congr fun page hp => by rw [hby page hp]
    · intro path g hf
      obtain ⟨t, ht, hrest⟩ := hdone.focused path g hf
      exact ⟨t, mem_append_left _ ht, hrest⟩
    · intro hf t ht hid
      rcases mem_append.1 ht with ht | ht
      · exact hdone.unfocused hf t ht hid
      · rw [mem_singleton.1 ht]
        exact hno
  | some r =>
    obtain ⟨g, i, page⟩ := r
    obtain ⟨hb, group, hget, hmem⟩ := locate_eq_some hlocate
    have hp : page ∈ pages groups := mem_pages.2 ⟨group, mem_of_getElem? hget, hmem⟩
    have hpage : hydratedBy snapshot session done page = page := hydratedBy_none (hfree page hp hb)
    have hhas : hasPage snapshot session groups tab = true := any_eq_true.2 ⟨page, hp, hb⟩
    have honly : ∀ other ∈ pages groups, belongs snapshot session other tab = true → other = page :=
      fun other ho hbo => eq_of_countP hone ho hp hbo hb
    have hother : ∀ other ∈ pages groups, other ≠ page → hydratedBy snapshot session (done ++ [tab]) other =
        hydratedBy snapshot session done other := fun other ho hne =>
      hydratedBy_append_not (by simpa using fun hbo => hne (honly other ho hbo))
    have hmine : hydratedBy snapshot session (done ++ [tab]) page = mergeHydratedPage page tab snapshot :=
      hydratedBy_append (hfree page hp hb) hb
    rw [hlocate, Option.map_some, hpage] at hfind
    rw [hfind]
    refine ⟨?_, fun other ho => ?_, ?_, ?_, ?_, ?_⟩
    · have hcount : (pages state.next).countP (fun page => !state.claimed.contains page.path &&
          belongs snapshot session page tab) ≤ 1 := by
        rw [hdone.next, pages_mapPages, countP_map]
        exact (countP_congr fun other ho => by rw [Function.comp, hsame other ho]).trans_le hone
      refine (locate_set (mergeHydratedPage · tab snapshot) hfind hcount).trans ?_
      rw [hdone.next, mapPages_mapPages]
      refine mapPages_congr fun other ho => ?_
      have := hsame other ho
      unfold belongs at this
      rw [this, ← belongs]
      by_cases hbo : belongs snapshot session other tab = true
      · rw [if_pos hbo, honly other ho hbo, hpage, hmine]
      · rw [if_neg hbo, hydratedBy_append_not (by simpa using hbo)]
    · rw [mem_cons, hdone.claimed other ho]
      constructor
      · rintro (heq | ⟨t, ht, hbt⟩)
        · obtain rfl := inj_on_of_nodup_map h.paths ho hp heq
          exact ⟨tab, mem_concat_self, hb⟩
        · exact ⟨t, mem_append_left _ ht, hbt⟩
      · rintro ⟨t, ht, hbt⟩
        rcases mem_append.1 ht with ht | ht
        · exact .inr ⟨t, ht, hbt⟩
        · rw [mem_singleton.1 ht] at hbt
          exact .inl (congrArg (·.path) (honly other ho hbt))
    · simp [hdone.missing, hhas]
    · simp only [Bool.or_eq_false_iff, decide_eq_false_iff_not, not_not, hdone.changed]
      constructor
      · rintro ⟨hall, heq⟩ other ho
        by_cases hne : other = page
        · rw [hne, hmine, heq]
        · rw [hother other ho hne, hall other ho]
      · intro hall
        refine ⟨fun other ho => ?_, hmine ▸ hall page hp⟩
        by_cases hne : other = page
        · rw [hne, hpage]
        · rw [← hother other ho hne, hall other ho]
    · intro path g' hf
      simp only [focusOn] at hf
      by_cases hid : some tab.id = snapshot.focusedTabId
      · rw [if_pos hid] at hf
        obtain ⟨rfl, rfl⟩ := Prod.mk.inj (Option.some.inj hf)
        exact ⟨tab, mem_concat_self, hid, i, page, hlocate, merge_path.symm⟩
      · rw [if_neg hid] at hf
        obtain ⟨t, ht, hrest⟩ := hdone.focused path g' hf
        exact ⟨t, mem_append_left _ ht, hrest⟩
    · intro hf t ht hid
      simp only [focusOn] at hf
      by_cases hthis : some tab.id = snapshot.focusedTabId
      · rw [if_pos hthis] at hf
        cases hf
      · rw [if_neg hthis] at hf
        rcases mem_append.1 ht with ht | ht
        · exact hdone.unfocused hf t ht hid
        · rw [mem_singleton.1 ht] at hid
          exact absurd hid hthis

/-- **The first loop.** -/
theorem matchTabs_spec (h : Single snapshot session groups) :
    Matched snapshot session groups (usableFocusedSpaceTabs snapshot)
      ((usableFocusedSpaceTabs snapshot).foldl (matchTab snapshot session) ⟨groups, [], false, none, []⟩) := by
  have hrun : ∀ (rest done : List HerdrTabInfo) (state : Hydration),
    Matched snapshot session groups done state →
      done ++ rest = usableFocusedSpaceTabs snapshot →
        Matched snapshot session groups (done ++ rest) (rest.foldl (matchTab snapshot session) state) := by
    intro rest
    induction rest with
    | nil =>
      intro done state hdone _
      rwa [append_nil]
    | cons tab rest ih =>
      intro done state hdone heq
      have hnodup : (done ++ tab :: rest).Nodup := heq ▸ (h.distinct.ids.of_map _).sublist usable_sublist
      have hsub : ∀ t ∈ done ++ tab :: rest, t ∈ usableFocusedSpaceTabs snapshot := fun t ht => heq ▸ ht
      have hnew : tab ∉ done := fun hm => (nodup_append.1 hnodup).2.2 tab hm tab mem_cons_self rfl
      have hstep := matchTab_matched h hdone (fun t ht => usable_sublist.subset (hsub t (mem_append_left _ ht)))
        (hsub tab (mem_append_right _ mem_cons_self)) hnew
      have := ih (done ++ [tab]) _ hstep (by rw [← heq, append_assoc, singleton_append])
      rwa [append_assoc, singleton_append] at this
  refine hrun _ [] _ ⟨?_, fun page _ => ?_, rfl, ?_, ?_, ?_⟩ rfl
  · exact (mapPages_self fun page _ => rfl).symm
  · simp
  · exact ⟨fun _ page _ => rfl, fun _ => rfl⟩
  · exact nofun
  · exact nofun

/-! ## The second loop -/

variable (snapshot) in
/-- **The second loop** appends the pages that are missing. -/
theorem createTabs_spec (insertGroupIndex : Nat) (tabs : List HerdrTabInfo) (state : Hydration) :
    let r := tabs.foldl (createTab snapshot insertGroupIndex) state
    r.next = state.next.modify insertGroupIndex (withTabs (· ++ tabs.map (createHydratedPage snapshot))) ∧
      (r.changed = false ↔ state.changed = false ∧ tabs = []) ∧
      (∀ path g, r.focused = some (path, g) → state.focused = some (path, g) ∨
        ∃ tab ∈ tabs, some tab.id = snapshot.focusedTabId ∧ path = (createHydratedPage snapshot tab).path ∧
          g = insertGroupIndex) ∧
      (r.focused = none → state.focused = none ∧ ∀ tab ∈ tabs, some tab.id ≠ snapshot.focusedTabId) := by
  induction tabs generalizing state with
  | nil =>
    have hsame : withTabs (· ++ ([] : List HerdrTabInfo).map (createHydratedPage snapshot)) = id := by
      funext group
      simp [withTabs]
    refine ⟨?_, by simp, fun path g hf => .inl hf, fun hf => ⟨hf, nofun⟩⟩
    rw [hsame, modify_id]
    rfl
  | cons tab tabs ih =>
    obtain ⟨hnext, hchanged, hfocused, hnone⟩ := ih (createTab snapshot insertGroupIndex state tab)
    rw [foldl_cons]
    refine ⟨?_, ?_, fun path g hf => ?_, fun hf => ?_⟩
    · rw [hnext, createTab, modify_modify_eq]
      refine congrArg (List.modify _ _) ?_
      funext group
      simp [withTabs]
    · rw [hchanged]
      simp [createTab]
    · rcases hfocused path g hf with hf | ⟨t, ht, hrest⟩
      · simp only [createTab, focusOn] at hf
        by_cases hid : some tab.id = snapshot.focusedTabId
        · rw [if_pos hid] at hf
          cases hf
          exact .inr ⟨tab, mem_cons_self, hid, rfl, rfl⟩
        · rw [if_neg hid] at hf
          exact .inl hf
      · exact .inr ⟨t, mem_cons_of_mem _ ht, hrest⟩
    · obtain ⟨hf, hrest⟩ := hnone hf
      simp only [createTab, focusOn] at hf
      by_cases hid : some tab.id = snapshot.focusedTabId
      · rw [if_pos hid] at hf
        cases hf
      · rw [if_neg hid] at hf
        refine ⟨hf, fun t ht => ?_⟩
        rcases mem_cons.1 ht with rfl | ht
        · exact hid
        · exact hrest t ht

end Loops

/-! ## The third loop -/

section Order
variable {T : Type} {p : T → Bool}

theorem weave_self (items : List T) : weave p items (items.filter p) = items := by
  induction items with
  | nil => rfl
  | cons x items ih =>
    by_cases hx : p x = true
    · rw [filter_cons_of_pos hx, weave, if_pos hx, ih]
    · rw [filter_cons_of_neg hx, weave.eq_def]
      simp only [hx, Bool.false_eq_true, if_false, ih]

theorem weave_perm (items values : List T) (h : (items.filter p).length = values.length) :
    (weave p items values).Perm (values ++ items.filter fun x => !p x) := by
  fun_induction weave p items values with
  | case1 values =>
    obtain rfl := length_eq_zero_iff.1 h.symm
    exact .nil
  | case2 x items hx ih => simp [hx] at h
  | case3 x items hx y values ih =>
    rw [filter_cons_of_pos hx, length_cons, length_cons] at h
    rw [filter_cons_of_neg (by simpa using hx), cons_append]
    exact (ih (by omega)).cons y
  | case4 x items values hx ih =>
    rw [filter_cons_of_neg hx] at h
    rw [filter_cons_of_pos (by simpa using hx)]
    exact ((ih h).cons x).trans perm_middle.symm

theorem slots_get (items : List T) : ((slotIndices p items).filterMap fun i => items[i]?) = items.filter p := by
  have hget : ∀ e ∈ items.zipIdx.filter (fun e => p e.1), items[e.2]? = some e.1 := fun e he =>
    mem_zipIdx_iff_getElem?.1 (mem_of_mem_filter he)
  have hfirst : (items.zipIdx.filter fun e => p e.1).map Prod.fst = items.filter p := by
    rw [← Function.comp_def p Prod.fst, ← filter_map, zipIdx_map_fst]
  rw [slotIndices, filterMap_map, ← hfirst, ← filterMap_eq_map]
  exact filterMap_congr hget

end Order

def arranged (slot : TabInfo → Bool) (desiredIds : List String) (group : EditorGroup) : EditorGroup :=
  withTabs (fun tabs => weave slot tabs (orderPages desiredIds (tabs.filter slot))) group

section Order
variable {slot : TabInfo → Bool} {desiredIds : List String} (hids : desiredIds.Nodup)
include hids

theorem length_orderPages (current : List TabInfo) : (orderPages desiredIds current).length = current.length :=
  (Regroup.regroup_perm hids current).length_eq

variable (group : EditorGroup)

theorem filter_arranged :
    (arranged slot desiredIds group).tabs.filter slot = orderPages desiredIds (group.tabs.filter slot) := by
  refine filter_weave _ _ (length_orderPages hids _).symm fun page hp => ?_
  exact (mem_filter.1 ((Regroup.regroup_perm hids _).mem_iff.1 hp)).2

theorem arranged_perm : (arranged slot desiredIds group).tabs.Perm group.tabs := by
  refine (weave_perm _ _ (length_orderPages hids _).symm).trans ?_
  refine ((Regroup.regroup_perm hids _).append_right _).trans ?_
  exact filter_append_perm slot group.tabs

/-- **The third loop** puts each group into order, and tells whether it had to. -/
theorem reorderGroup_eq : reorderGroup slot desiredIds group =
    (arranged slot desiredIds group, decide (arranged slot desiredIds group ≠ group)) := by
  have hlength := length_orderPages hids (group.tabs.filter slot)
  have hstays : orderPages desiredIds (group.tabs.filter slot) = group.tabs.filter slot →
    arranged slot desiredIds group = group := by
    intro heq
    rw [arranged, withTabs, heq, weave_self]
  have hmoves : arranged slot desiredIds group = group →
    orderPages desiredIds (group.tabs.filter slot) = group.tabs.filter slot := by
    intro heq
    rw [← filter_arranged hids, heq]
  simp only [reorderGroup, slots_get]
  by_cases h : orderPages desiredIds (group.tabs.filter slot) = group.tabs.filter slot
  · rw [if_pos (.inr (.inr h)), hstays h]
    simp
  · have hne : arranged slot desiredIds group ≠ group := fun heq => h (hmoves heq)
    have hslots : slotIndices slot group.tabs ≠ [] := by
      intro hnil
      have hzero := length_slotIndices (p := slot) group.tabs
      rw [hnil, length_nil] at hzero
      have hempty := length_eq_zero_iff.1 hzero.symm
      rw [hempty] at h hlength
      exact h (length_eq_zero_iff.1 hlength)
    rw [if_neg, decide_eq_true hne]
    · rw [withTabs, setSlots_eq]
      rfl
    · rintro (hnil | hl | heq)
      · exact hslots hnil
      · rw [length_slotIndices] at hl
        exact hl hlength
      · exact h heq

end Order

end HerdrPages
end Yuzora
