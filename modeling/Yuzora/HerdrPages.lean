import Yuzora.Regroup
import Yuzora.TabReorder
/-!
# HerdrPages — the pages of HERDR's tabs in the editor

A snapshot of HERDR is brought into the editor groups.  A page belongs to the tab it names, and to the tab of its terminal
where it names none.  The tabs of the focused Space that have a terminal get a page each, and the pages of the Space are
put into the order of the snapshot.
-/
namespace Yuzora
namespace HerdrPages

open List
open TabReorder (TabKind slotIndices setSlots)

/-! ## The path of a page -/

/-- What `encodeURIComponent` leaves as it is. -/
def isUnreserved (b : UInt8) : Bool :=
  (65 ≤ b.toNat && b.toNat ≤ 90) || (97 ≤ b.toNat && b.toNat ≤ 122) || (48 ≤ b.toNat && b.toNat ≤ 57) ||
    [0x2D, 0x5F, 0x2E, 0x21, 0x7E, 0x2A, 0x27, 0x28, 0x29].contains b.toNat

def hexDigit (n : Nat) : Char := Char.ofNat (if n < 10 then 48 + n else 55 + n)

def encodeByte (b : UInt8) : List Char :=
  if isUnreserved b then [Char.ofNat b.toNat] else ['%', hexDigit (b.toNat / 16), hexDigit (b.toNat % 16)]

def encodeURIComponent (s : String) : String := String.ofList (s.toUTF8.data.toList.flatMap encodeByte)

def herdrPageScheme : String := "yuzora://herdr/"

def herdrPagePath (herdrSessionId terminalId : String) : String :=
  herdrPageScheme ++ encodeURIComponent herdrSessionId ++ "/" ++ encodeURIComponent terminalId

/-- What `trim` takes off. -/
def isWhiteSpace (c : Char) : Bool :=
  (9 ≤ c.toNat && c.toNat ≤ 13) || (0x2000 ≤ c.toNat && c.toNat ≤ 0x200A) ||
    [0x20, 0xA0, 0x1680, 0x2028, 0x2029, 0x202F, 0x205F, 0x3000, 0xFEFF].contains c.toNat

def trim (s : String) : String :=
  String.ofList ((s.toList.dropWhile isWhiteSpace).reverse.dropWhile isWhiteSpace).reverse

/-- `a || b`, for texts. -/
def orElse (a b : String) : String := if a = "" then b else a

/-! ## Pages and tabs -/

structure TabInfo extends TabReorder.TabInfo where
  name : String
  dirty : Bool
  externallyModified : Bool
  herdrSessionId : Option String
  terminalId : Option String
  paneId : Option String
  deriving DecidableEq

structure EditorGroup where
  id : Option String
  tabs : List TabInfo
  activePath : Option String
  deriving DecidableEq

structure HerdrTabInfo where
  id : String
  label : String
  workspaceId : String
  paneId : Option String
  terminalId : Option String
  deriving DecidableEq

structure HerdrSnapshot where
  herdrSessionId : String
  tabs : List HerdrTabInfo
  focusedWorkspaceId : Option String
  focusedTabId : Option String
  focusedPaneId : Option String

/-- A page of the default session may be named `live`. -/
def herdrPageMatchesSnapshotSession (tabSessionId : Option String) (snapshotSessionId : String)
    (defaultSessionName : Option String) : Bool :=
  if tabSessionId = some "live" then
    defaultSessionName.any fun name => decide (name ≠ "") && decide (snapshotSessionId = name)
  else decide (tabSessionId = some snapshotSessionId)

variable (snapshot : HerdrSnapshot)

def focusedSpace : Option String := snapshot.focusedWorkspaceId.filter (· ≠ "")

def usableFocusedSpaceTabs : List HerdrTabInfo :=
  (focusedSpace snapshot).elim [] fun spaceId =>
    snapshot.tabs.filter fun tab =>
      decide (tab.workspaceId = spaceId) && tab.terminalId.any fun terminalId => decide (trim terminalId ≠ "")

variable (page : TabInfo)

variable (tab : HerdrTabInfo)

def pageMatchesHydrationTab (snapshotSessionId : String)
    (defaultSessionName : Option String) : Bool :=
  decide (page.kind = some .herdrTerminal) &&
    herdrPageMatchesSnapshotSession page.herdrSessionId snapshotSessionId defaultSessionName &&
    match (page.herdrTabId.map trim).filter (· ≠ "") with
    | some pageTabId => decide (pageTabId = tab.id)
    | none => tab.terminalId.any (· ≠ "") && decide (page.terminalId = tab.terminalId)

def mergeHydratedPage (snapshot : HerdrSnapshot) : TabInfo :=
  let paneId := tab.paneId.or
    (if some tab.id = snapshot.focusedTabId then snapshot.focusedPaneId.or page.paneId else page.paneId)
  let name := orElse (trim tab.label) page.name
  if page.name = name ∧ page.kind = some .herdrTerminal ∧ page.herdrTabId = some tab.id ∧
      page.herdrWorkspaceId = some tab.workspaceId ∧ page.paneId = paneId then page
  else
    { page with
      name := name, kind := some .herdrTerminal, herdrTabId := some tab.id, herdrWorkspaceId := some tab.workspaceId,
      paneId := paneId }

/-- `tab.terminalId!.trim()`; a tab without a terminal never comes here. -/
def trimmedTerminal : String := trim (tab.terminalId.getD "")

def createHydratedPage : TabInfo :=
  { path := herdrPagePath snapshot.herdrSessionId (trimmedTerminal tab)
    name := orElse (trim tab.label) (trimmedTerminal tab)
    dirty := false
    externallyModified := false
    kind := some .herdrTerminal
    herdrSessionId := some snapshot.herdrSessionId
    terminalId := some (trimmedTerminal tab)
    herdrTabId := some tab.id
    herdrWorkspaceId := some tab.workspaceId
    paneId := tab.paneId.or (if some tab.id = snapshot.focusedTabId then snapshot.focusedPaneId else none) }

/-- `workspaceByTabId.get`: the last tab of that id. -/
def workspaceOfTab (tabId : String) : Option String :=
  (snapshot.tabs.reverse.find? fun tab => tab.id == tabId).map HerdrTabInfo.workspaceId

def isFocusedSpaceHerdrSlot (snapshot : HerdrSnapshot) (spaceId : String)
    (defaultSessionName : Option String) : Bool :=
  decide (page.kind = some .herdrTerminal) &&
    herdrPageMatchesSnapshotSession page.herdrSessionId snapshot.herdrSessionId defaultSessionName &&
    decide (page.herdrWorkspaceId.or ((page.herdrTabId.filter (· ≠ "")).bind (workspaceOfTab snapshot)) = some spaceId)

/-! ## The pages that are there -/

def findPage (q : TabInfo → Bool) : List TabInfo → Option (Nat × TabInfo)
  | [] => none
  | page :: tabs => if q page then some (0, page) else (findPage q tabs).map fun r => (r.1 + 1, r.2)

/-- The first page, group by group, with the group's place and its own. -/
def locate (q : TabInfo → Bool) : List EditorGroup → Option (Nat × Nat × TabInfo)
  | [] => none
  | group :: groups =>
    match findPage q group.tabs with
    | some r => some (0, r)
    | none => (locate q groups).map fun r => (r.1 + 1, r.2)

def withTabs (f : List TabInfo → List TabInfo) (group : EditorGroup) : EditorGroup := { group with tabs := f group.tabs }

/-- The loops' variables. -/
structure Hydration where
  next : List EditorGroup
  claimed : List String
  changed : Bool
  /-- `focusedPath` and `focusedGroupIndex`, which are set together. -/
  focused : Option (String × Nat)
  missing : List HerdrTabInfo

section Loops
variable (snapshot : HerdrSnapshot) (defaultSessionName : Option String)

def findMatch (state : Hydration) (tab : HerdrTabInfo) : Option (Nat × Nat × TabInfo) :=
  locate (fun page => !state.claimed.contains page.path &&
    pageMatchesHydrationTab page tab snapshot.herdrSessionId defaultSessionName) state.next

def focusOn (focused : Option (String × Nat)) (tab : HerdrTabInfo) (path : String) (groupIndex : Nat) :
    Option (String × Nat) :=
  if some tab.id = snapshot.focusedTabId then some (path, groupIndex) else focused

def matchTab (state : Hydration) (tab : HerdrTabInfo) : Hydration :=
  match findMatch snapshot defaultSessionName state tab with
  | none => { state with missing := state.missing ++ [tab] }
  | some (groupIndex, tabIndex, page) =>
    let merged := mergeHydratedPage page tab snapshot
    { state with
      next := state.next.modify groupIndex (withTabs fun tabs => tabs.set tabIndex merged)
      claimed := page.path :: state.claimed
      changed := state.changed || decide (merged ≠ page)
      focused := focusOn snapshot state.focused tab merged.path groupIndex }

def createTab (insertGroupIndex : Nat) (state : Hydration) (tab : HerdrTabInfo) : Hydration :=
  let created := createHydratedPage snapshot tab
  { state with
    next := state.next.modify insertGroupIndex (withTabs fun tabs => tabs ++ [created])
    changed := true
    focused := focusOn snapshot state.focused tab created.path insertGroupIndex }

end Loops

/-! ## The order of a group -/

/-- `page.herdrTabId`, where it is not empty. -/
def tabKey : Option String := page.herdrTabId.filter (· ≠ "")

/-- The pages of the wanted tabs, those left over, and those that match none. -/
def orderPages (desiredIds : List String) (current : List TabInfo) : List TabInfo :=
  Regroup.regroup tabKey desiredIds current

/-- Permutes the slots of one group, and tells whether it changed. -/
def reorderGroup (slot : TabInfo → Bool) (desiredIds : List String) (group : EditorGroup) : EditorGroup × Bool :=
  let indices := slotIndices slot group.tabs
  let current := indices.filterMap fun index => group.tabs[index]?
  let ordered := orderPages desiredIds current
  if indices = [] ∨ ordered.length ≠ indices.length ∨ ordered = current then (group, false)
  else (withTabs (fun tabs => setSlots tabs indices ordered) group, true)

/-! ## One snapshot -/

structure HydrateResult where
  groups : List EditorGroup
  activeGroupIndex : Nat
  deriving DecidableEq

/-- Makes the path the active one of its group, and tells whether it had to. -/
def activate (next : List EditorGroup) (focusedPath : Option String) (groupIndex : Nat) : List EditorGroup × Bool :=
  if focusedPath.isSome && decide (next[groupIndex]?.bind EditorGroup.activePath ≠ focusedPath) then
    (next.modify groupIndex fun group => { group with activePath := focusedPath }, true)
  else (next, false)

def hydrateFocusedSpaceHerdrPages (groups : List EditorGroup) (snapshot : HerdrSnapshot)
    (defaultSessionName : Option String) (activeGroupIndex : Nat) : Option HydrateResult :=
  let desired := usableFocusedSpaceTabs snapshot
  (focusedSpace snapshot).bind fun spaceId =>
    if desired = [] ∨ groups = [] then none
    else
      let matched := desired.foldl (matchTab snapshot defaultSessionName) ⟨groups, [], false, none, []⟩
      let wanted := (matched.focused.map Prod.snd).getD activeGroupIndex
      let insertGroupIndex := if wanted < matched.next.length then wanted else 0
      let created := matched.missing.foldl (createTab snapshot insertGroupIndex) matched
      let reordered := created.next.map (reorderGroup
        (fun page => isFocusedSpaceHerdrSlot page snapshot spaceId defaultSessionName) (desired.map HerdrTabInfo.id))
      let nextActiveGroupIndex := (created.focused.map Prod.snd).getD activeGroupIndex
      let focusedPath := (created.focused.map Prod.fst).filter (· ≠ "")
      let activated := activate (reordered.map Prod.fst) focusedPath nextActiveGroupIndex
      let changed := created.changed || reordered.any Prod.snd || activated.2
      if !changed && decide (nextActiveGroupIndex = activeGroupIndex) then none
      else some ⟨if changed then activated.1 else groups, nextActiveGroupIndex⟩

/-! ## Paths tell terminals apart -/

theorem hexDigit_inj : ∀ n < 16, ∀ m < 16, hexDigit n = hexDigit m → n = m := by decide

theorem isUnreserved_lt {b : UInt8} (h : isUnreserved b = true) : b.toNat < 128 ∧ b.toNat ≠ 37 := by
  simp only [isUnreserved, Bool.or_eq_true, Bool.and_eq_true, decide_eq_true_eq, contains_iff_mem, mem_cons,
    not_mem_nil, or_false] at h
  omega

theorem ofNat_inj {n m : Nat} (hn : n < 128) (hm : m < 128) (h : Char.ofNat n = Char.ofNat m) : n = m := by
  have hvalid : ∀ k < 128, (Char.ofNat k).toNat = k := by decide
  rw [← hvalid n hn, ← hvalid m hm, h]

theorem encodeByte_append {b c : UInt8} {s t : List Char} (h : encodeByte b ++ s = encodeByte c ++ t) : b = c ∧
    s = t := by
  have hpercent : Char.ofNat 37 = '%' := rfl
  have hmixed : ∀ {d e : UInt8} {s t : List Char}, isUnreserved d = true → isUnreserved e = false →
      encodeByte d ++ s ≠ encodeByte e ++ t := by
    intro d e s t hd he heq
    simp only [encodeByte, hd, he, if_true, Bool.false_eq_true, if_false, cons_append, List.cons.injEq] at heq
    obtain ⟨hlt, hne⟩ := isUnreserved_lt hd
    exact hne (ofNat_inj hlt (by decide) (heq.1.trans hpercent.symm))
  by_cases hb : isUnreserved b = true
  · by_cases hc : isUnreserved c = true
    · simp only [encodeByte, hb, hc, if_true, cons_append, nil_append, List.cons.injEq] at h
      have := ofNat_inj (isUnreserved_lt hb).1 (isUnreserved_lt hc).1 h.1
      exact ⟨UInt8.toNat_inj.1 this, h.2⟩
    · exact absurd h (hmixed hb (by simpa using hc))
  · by_cases hc : isUnreserved c = true
    · exact absurd h.symm (hmixed hc (by simpa using hb))
    · simp only [encodeByte, hb, hc, Bool.false_eq_true, if_false, cons_append, nil_append, List.cons.injEq,
        true_and] at h
      have hblt := b.toNat_lt
      have hclt := c.toNat_lt
      have hhigh := hexDigit_inj _ (by omega) _ (by omega) h.1
      have hlow := hexDigit_inj _ (by omega) _ (by omega) h.2.1
      exact ⟨UInt8.toNat_inj.1 (by omega), h.2.2⟩

theorem flatMap_encodeByte_inj : ∀ {s t : List UInt8}, s.flatMap encodeByte = t.flatMap encodeByte → s = t
  | [], [], _ => rfl
  | [], c :: t, h => by
    rw [flatMap_nil, flatMap_cons, encodeByte] at h
    split at h <;> cases h
  | b :: s, [], h => by
    rw [flatMap_nil, flatMap_cons, encodeByte] at h
    split at h <;> cases h
  | b :: s, c :: t, h => by
    rw [flatMap_cons, flatMap_cons] at h
    obtain ⟨rfl, hrest⟩ := encodeByte_append h
    rw [flatMap_encodeByte_inj hrest]

theorem encodeURIComponent_inj {s t : String} (h : encodeURIComponent s = encodeURIComponent t) : s = t := by
  have hbytes := flatMap_encodeByte_inj (String.ofList_injective h)
  exact String.toByteArray_inj.1 (ByteArray.ext (Array.toList_inj.1 hbytes))

/-- **In one session pages of different terminals have different paths.** -/
theorem herdrPagePath_inj {herdrSessionId terminalId terminalId' : String}
    (h : herdrPagePath herdrSessionId terminalId = herdrPagePath herdrSessionId terminalId') :
    terminalId = terminalId' := by
  apply encodeURIComponent_inj
  apply String.toList_injective
  have hlist := congrArg String.toList h
  simp only [herdrPagePath, String.toList_append] at hlist
  exact append_cancel_left hlist

/-! ## Pages and their tabs -/

/-- The tab ids and the terminal ids of the snapshot are distinct. -/
structure Distinct (snapshot : HerdrSnapshot) : Prop where
  ids : (snapshot.tabs.map HerdrTabInfo.id).Nodup
  terminals : (snapshot.tabs.filterMap HerdrTabInfo.terminalId).Nodup

/-- The id is one that `trim` leaves, and not empty. -/
def CleanId : Prop := tab.id ≠ "" ∧ trim tab.id = tab.id

instance (tab : HerdrTabInfo) : Decidable (CleanId tab) := inferInstanceAs (Decidable (_ ∧ _))

section Pages
variable {snapshot : HerdrSnapshot} {session : Option String} {page : TabInfo} {tab other : HerdrTabInfo}
  {spaceId : String} {sessionId : String}

theorem pageMatchesHydrationTab_iff : pageMatchesHydrationTab page tab sessionId session = true ↔
      page.kind = some .herdrTerminal ∧
        herdrPageMatchesSnapshotSession page.herdrSessionId sessionId session = true ∧
        ((page.herdrTabId.map trim).filter (· ≠ "") = some tab.id ∨
          (page.herdrTabId.map trim).filter (· ≠ "") = none ∧
            ∃ terminalId, tab.terminalId = some terminalId ∧ terminalId ≠ "" ∧ page.terminalId = some terminalId) := by
  unfold pageMatchesHydrationTab
  rw [Bool.and_eq_true, Bool.and_eq_true, decide_eq_true_eq, and_assoc]
  refine and_congr_right fun _ => and_congr_right fun _ => ?_
  cases (page.herdrTabId.map trim).filter (· ≠ "") with
  | some id => simp
  | none =>
    cases tab.terminalId with
    | none | some => simp

theorem same_terminal {tabs : List HerdrTabInfo} {terminalId : String}
    (h : (tabs.filterMap HerdrTabInfo.terminalId).Nodup)
    (htab : tab ∈ tabs) (hother : other ∈ tabs) (ht : tab.terminalId = some terminalId)
    (ho : other.terminalId = some terminalId) : tab = other := by
  induction tabs with
  | nil => cases htab
  | cons first tabs ih =>
    have hlater : ∀ {t : HerdrTabInfo}, t ∈ tabs → t.terminalId = some terminalId →
      first.terminalId ≠ some terminalId := by
      intro t hm hs hf
      rw [filterMap_cons_some hf, nodup_cons] at h
      exact h.1 (mem_filterMap.2 ⟨t, hm, hs⟩)
    have hrest : (tabs.filterMap HerdrTabInfo.terminalId).Nodup := h.sublist ((sublist_cons_self ..).filterMap _)
    rcases mem_cons.1 htab with heq | hmem
    · rcases mem_cons.1 hother with heq' | hmem'
      · exact heq.trans heq'.symm
      · exact absurd (heq ▸ ht) (hlater hmem' ho)
    · rcases mem_cons.1 hother with heq' | hmem'
      · exact absurd (heq' ▸ ho) (hlater hmem ht)
      · exact ih hrest hmem hmem'

/-- **A page belongs to one tab at most.** -/
theorem matches_unique (h : Distinct snapshot) (htab : tab ∈ snapshot.tabs) (hother : other ∈ snapshot.tabs)
    (hm : pageMatchesHydrationTab page tab sessionId session = true)
    (hm' : pageMatchesHydrationTab page other sessionId session = true) : tab = other := by
  obtain ⟨-, -, hm⟩ := pageMatchesHydrationTab_iff.1 hm
  obtain ⟨-, -, hm'⟩ := pageMatchesHydrationTab_iff.1 hm'
  rcases hm with hid | ⟨hnone, terminalId, ht, -, hp⟩
  · rcases hm' with hid' | ⟨hnone, -⟩
    · exact inj_on_of_nodup_map h.ids htab hother (Option.some.inj (hid.symm.trans hid'))
    · cases hid.symm.trans hnone
  · rcases hm' with hid' | ⟨-, terminalId', ht', -, hp'⟩
    · cases hid'.symm.trans hnone
    · cases hp.symm.trans hp'
      exact same_terminal h.terminals htab hother ht ht'

theorem mem_usableFocusedSpaceTabs : tab ∈ usableFocusedSpaceTabs snapshot ↔
    tab ∈ snapshot.tabs ∧ focusedSpace snapshot = some tab.workspaceId ∧
      ∃ terminalId, tab.terminalId = some terminalId ∧ trim terminalId ≠ "" := by
  unfold usableFocusedSpaceTabs
  cases focusedSpace snapshot with
  | none => simp
  | some spaceId =>
    rw [Option.elim_some, mem_filter, Bool.and_eq_true, decide_eq_true_eq, Option.any_eq_true, Option.some_inj,
      @eq_comm String spaceId]
    simp only [decide_eq_true_eq]

theorem usable_sublist : (usableFocusedSpaceTabs snapshot).Sublist snapshot.tabs := by
  unfold usableFocusedSpaceTabs
  cases focusedSpace snapshot with
  | none => exact nil_sublist _
  | some spaceId => exact filter_sublist

/-! ### A page that is merged -/

def mergedPane (page : TabInfo) (tab : HerdrTabInfo) (snapshot : HerdrSnapshot) : Option String :=
  tab.paneId.or (if some tab.id = snapshot.focusedTabId then snapshot.focusedPaneId.or page.paneId else page.paneId)

/-- **What is merged into a page**, whether or not it was there. -/
theorem mergeHydratedPage_eq : mergeHydratedPage page tab snapshot = { page with
      name := orElse (trim tab.label) page.name, kind := some .herdrTerminal, herdrTabId := some tab.id
      herdrWorkspaceId := some tab.workspaceId, paneId := mergedPane page tab snapshot } := by
  unfold mergeHydratedPage
  show (if page.name = orElse (trim tab.label) page.name ∧ page.kind = some .herdrTerminal ∧
      page.herdrTabId = some tab.id ∧ page.herdrWorkspaceId = some tab.workspaceId ∧
      page.paneId = mergedPane page tab snapshot then page else _) = _
  by_cases h : page.name = orElse (trim tab.label) page.name ∧ page.kind = some .herdrTerminal ∧
      page.herdrTabId = some tab.id ∧ page.herdrWorkspaceId = some tab.workspaceId ∧
      page.paneId = mergedPane page tab snapshot
  · obtain ⟨hname, hkind, hid, hspace, hpane⟩ := h
    rw [if_pos ⟨hname, hkind, hid, hspace, hpane⟩, ← hname, ← hpane, ← hkind, ← hid, ← hspace]
  · rw [if_neg h]
    rfl

@[simp] theorem merge_path : (mergeHydratedPage page tab snapshot).path = page.path := by rw [mergeHydratedPage_eq]

theorem merge_merge :
    mergeHydratedPage (mergeHydratedPage page tab snapshot) tab snapshot = mergeHydratedPage page tab snapshot := by
  have hname : orElse (trim tab.label) (orElse (trim tab.label) page.name) = orElse (trim tab.label) page.name := by
    unfold orElse
    split <;> rfl
  have hpane : mergedPane { page with
      name := orElse (trim tab.label) page.name, kind := some .herdrTerminal, herdrTabId := some tab.id
      herdrWorkspaceId := some tab.workspaceId, paneId := mergedPane page tab snapshot } tab snapshot =
      mergedPane page tab snapshot := by
    unfold mergedPane
    cases tab.paneId with
    | some paneId => rfl
    | none =>
      split
      · cases snapshot.focusedPaneId <;> rfl
      · rfl
  rw [mergeHydratedPage_eq, mergeHydratedPage_eq]
  simp only [hname, hpane]

theorem merge_create :
    mergeHydratedPage (createHydratedPage snapshot tab) tab snapshot = createHydratedPage snapshot tab := by
  have hname : orElse (trim tab.label) (orElse (trim tab.label) (trimmedTerminal tab)) =
      orElse (trim tab.label) (trimmedTerminal tab) := by
    unfold orElse
    split <;> rfl
  have hpane : mergedPane (createHydratedPage snapshot tab) tab snapshot = (createHydratedPage snapshot tab).paneId := by
    unfold mergedPane createHydratedPage
    cases tab.paneId with
    | some paneId => rfl
    | none =>
      split
      · cases snapshot.focusedPaneId <;> rfl
      · rfl
  rw [mergeHydratedPage_eq, hpane]
  simp only [createHydratedPage, hname]

section
variable (hclean : CleanId tab)
include hclean

theorem matches_of_id (hkind : page.kind = some .herdrTerminal)
    (hsession : herdrPageMatchesSnapshotSession page.herdrSessionId sessionId session = true)
    (hid : page.herdrTabId = some tab.id) : pageMatchesHydrationTab page tab sessionId session = true := by
  obtain ⟨hne, htrim⟩ := hclean
  exact pageMatchesHydrationTab_iff.2 ⟨hkind, hsession, .inl (by simp [hid, htrim, hne])⟩

theorem matches_merge (hm : pageMatchesHydrationTab page tab sessionId session = true) :
    pageMatchesHydrationTab (mergeHydratedPage page tab snapshot) tab sessionId session = true := by
  obtain ⟨-, hsession, -⟩ := pageMatchesHydrationTab_iff.1 hm
  rw [mergeHydratedPage_eq]
  exact matches_of_id hclean rfl hsession rfl

theorem matches_create (hsession : herdrPageMatchesSnapshotSession (some snapshot.herdrSessionId)
      snapshot.herdrSessionId session = true) :
    pageMatchesHydrationTab (createHydratedPage snapshot tab) tab snapshot.herdrSessionId session = true :=
  matches_of_id hclean rfl hsession rfl

theorem matches_of_key
    (hslot : isFocusedSpaceHerdrSlot page snapshot spaceId session = true) (hkey : tabKey page = some tab.id) :
    pageMatchesHydrationTab page tab snapshot.herdrSessionId session = true := by
  simp only [isFocusedSpaceHerdrSlot, Bool.and_eq_true, decide_eq_true_eq] at hslot
  exact matches_of_id hclean hslot.1.1 hslot.1.2 (Option.filter_eq_some_iff.1 hkey).1

end

end Pages

end HerdrPages
end Yuzora
