import Mathlib.Data.List.InsertIdx
import Mathlib.Data.List.Nodup
import Mathlib.Order.Lattice
/-!
# TabReorder — a tab is dropped at another place

Only the visible tabs of a group change places, and the server is told the boundary among its own tabs at which the tab
is put in.  Both orders agree (`drop_agrees`).
-/
namespace Yuzora
namespace TabReorder

open List

/-! ## Moving one item -/

section Items
variable {T : Type}

/-- `Array.prototype.findIndex` -/
def findIndex (p : T → Bool) (items : List T) : Int :=
  match items.findIdx? p with
  | some i => i
  | none => -1

def clamp (length : Nat) (dest : Int) : Int := max 0 (min ((length : Int) - 1) dest)

/-- Takes the item at `source` out and puts it in again. -/
def moveItemToIndex (items : List T) (source dest : Int) : Option (List T) :=
  if source < 0 ∨ source ≥ items.length then none
  else
    let clampedTo := clamp items.length dest
    if source = clampedTo then none
    else
      match items[source.toNat]? with
      | none => none
      | some moved => some ((items.eraseIdx source.toNat).insertIdx clampedTo.toNat moved)

/-- The places of the items that satisfy `p`. -/
def slotIndices (p : T → Bool) (items : List T) : List Nat := (items.zipIdx.filter (fun e => p e.1)).map Prod.snd

def setSlots (items : List T) (slots : List Nat) (values : List T) : List T :=
  (slots.zip values).foldl (fun next e => next.set e.1 e.2) items

def reorderProjectedSlots (path : T → String) (groupTabs projected : List T) (sourcePath : String)
    (destProjectedIndex : Int) : Option (List T) :=
  let sourceProjectedIndex := findIndex (fun tab => path tab == sourcePath) projected
  if sourceProjectedIndex < 0 then none
  else
    (moveItemToIndex projected sourceProjectedIndex destProjectedIndex).bind fun nextProjected =>
      let projectedPaths := projected.map path
      let slots := slotIndices (fun tab => projectedPaths.contains (path tab)) groupTabs
      if slots.length ≠ nextProjected.length then none else some (setSlots groupTabs slots nextProjected)

end Items

/-! ## The tabs of a Space -/

inductive TabKind
  | file | preview | markdownPreview | herdrTerminal
  deriving DecidableEq

structure TabInfo where
  path : String
  kind : Option TabKind
  herdrTabId : Option String
  herdrWorkspaceId : Option String
  deriving DecidableEq

def isProjectedHerdrTab (tab : TabInfo) (spaceId runtimeWorkspaceId : Option String) : Bool :=
  decide (tab.kind = some .herdrTerminal) &&
    (decide (spaceId = none ∨ spaceId = some "") || decide (runtimeWorkspaceId = spaceId))

def isOwnedHerdrTab (spaceId : Option String) (runtimeWorkspaceByTabId : String → Option String) (tab : TabInfo) : Bool :=
  isProjectedHerdrTab tab spaceId (tab.herdrWorkspaceId.or
    ((tab.herdrTabId.filter (· ≠ "")).bind runtimeWorkspaceByTabId))

/-- The boundary among the tabs of the Space, counted before the source is taken out. -/
def herdrInsertIndexForProjectedDrop (projected : List TabInfo) (sourcePath : String) (destProjectedIndex : Int)
    (spaceId : Option String) (runtimeWorkspaceByTabId : String → Option String) : Option Nat :=
  let owned := isOwnedHerdrTab spaceId runtimeWorkspaceByTabId
  let sourceIndex := findIndex (fun tab => tab.path == sourcePath) (projected.filter owned)
  if sourceIndex < 0 then none
  else
    let dest := max 0 destProjectedIndex
    let rightward := decide (dest > findIndex (fun tab => tab.path == sourcePath) projected)
    let boundary := ((projected.take (dest.toNat + rightward.toNat)).filter owned).length
    if boundary = sourceIndex ∨ boundary = sourceIndex + 1 then none else some boundary

/-- `tab.move` of the server: the boundary is one less once the tab left of it is taken out. -/
def tabMove (order : List TabInfo) (sourcePath : String) (insertIndex : Nat) : List TabInfo :=
  match order.findIdx? (fun tab => tab.path == sourcePath) with
  | none => order
  | some i =>
    match order[i]? with
    | none => order
    | some tab => (order.eraseIdx i).insertIdx (if i < insertIndex then insertIndex - 1 else insertIndex) tab

/-! ## Slots -/

section Slots
variable {T : Type} {p : T → Bool}

/-- The items with those that satisfy `p` replaced, one after the other. -/
def weave (p : T → Bool) : List T → List T → List T
  | [], _ => []
  | x :: xs, values =>
    if p x then
      match values with
      | [] => x :: weave p xs []
      | y :: values => y :: weave p xs values
    else x :: weave p xs values

theorem setSlots_from (items : List T) (values done : List T) :
    ((((items.zipIdx done.length).filter (fun e => p e.1)).map Prod.snd).zip values).foldl
      (fun next e => next.set e.1 e.2) (done ++ items) = done ++ weave p items values := by
  induction items generalizing values done with
  | nil => simp [weave]
  | cons x items ih =>
    have hlength : ∀ y : T, done.length + 1 = (done ++ [y]).length := by simp
    rw [zipIdx_cons, filter_cons]
    by_cases hx : p x = true
    · rw [if_pos hx]
      cases values with
      | nil =>
        have := ih [] (done ++ [x])
        simpa [weave, hx] using this
      | cons y values =>
        have := ih values (done ++ [y])
        rw [map_cons, zip_cons_cons, foldl_cons, hlength y]
        have hset : (done ++ x :: items).set done.length y = done ++ [y] ++ items := by simp
        simp only [hset]
        rw [this]
        simp [weave, hx]
    · rw [if_neg hx, hlength x]
      have := ih values (done ++ [x])
      rw [append_assoc, singleton_append] at this
      rw [this]
      simp [weave, hx]

variable (items values : List T)

theorem setSlots_eq : setSlots items (slotIndices p items) values = weave p items values :=
  setSlots_from items values []

theorem length_slotIndices (items : List T) : (slotIndices p items).length = (items.filter p).length := by
  have : ∀ k, ((items.zipIdx k).filter (fun e => p e.1)).length = (items.filter p).length := by
    induction items with
    | nil => simp
    | cons x items ih =>
      intro k
      by_cases hx : p x = true <;> simp [hx, ih]
  rw [slotIndices, length_map]
  exact this 0

theorem length_weave : (weave p items values).length = items.length := by
  fun_induction weave p items values <;> simp_all

/-- **What is not in a slot stays where it is.** -/
theorem weave_outside : ∀ (i : Nat) (x : T), items[i]? = some x → p x = false →
    (weave p items values)[i]? = some x := by
  fun_induction weave p items values with
  | case1 values => simp
  | case2 y items hy ih =>
    intro i x hi hx
    cases i with
    | zero =>
      obtain rfl : y = x := by simpa using hi
      simp
    | succ i => simpa using ih i x (by simpa using hi) hx
  | case3 y items hy z values ih =>
    intro i x hi hx
    cases i with
    | zero =>
      obtain rfl : y = x := by simpa using hi
      rw [hx] at hy
      cases hy
    | succ i => simpa using ih i x (by simpa using hi) hx
  | case4 y items values hy ih =>
    intro i x hi hx
    cases i with
    | zero => simpa using hi
    | succ i => simpa using ih i x (by simpa using hi) hx

theorem filter_weave (hlength : (items.filter p).length = values.length)
    (hvalues : ∀ y ∈ values, p y = true) : (weave p items values).filter p = values := by
  fun_induction weave p items values with
  | case1 values => exact (length_eq_zero_iff.1 hlength.symm).symm
  | case2 y items hy ih => simp [hy] at hlength
  | case3 y items hy z values ih =>
    have hz := hvalues z mem_cons_self
    rw [filter_cons_of_pos hy, length_cons, length_cons] at hlength
    rw [filter_cons_of_pos hz, ih (by omega) fun y h => hvalues y (mem_cons_of_mem _ h)]
  | case4 y items values hy ih =>
    rw [filter_cons_of_neg hy] at hlength ⊢
    exact ih hlength hvalues

end Slots

/-! ## One item taken out and put in -/

section Items
variable {T : Type} {p : T → Bool} {a b : List T} {x : T}

theorem findIndex_split (ha : ∀ y ∈ a, p y = false) (hx : p x = true) : findIndex p (a ++ x :: b) = a.length := by
  have hnone : a.findIdx? p = none := findIdx?_eq_none_iff.2 ha
  simp [findIndex, findIdx?_append, hnone, findIdx?_cons, hx]

theorem eraseIdx_split (a b : List T) (x : T) : (a ++ x :: b).eraseIdx a.length = a ++ b := by
  rw [eraseIdx_append_of_length_le (Nat.le_refl _), Nat.sub_self, eraseIdx_zero, tail_cons]

def place (n : Nat) (dest : Int) : Nat := (clamp (n + 1) dest).toNat

theorem place_le (n : Nat) (dest : Int) : place n dest ≤ n := by
  simp only [place, clamp]
  omega

theorem insertIdx_eq {n : Nat} (items : List T) (h : n ≤ items.length) (x : T) :
    items.insertIdx n x = items.take n ++ x :: items.drop n := by
  induction n generalizing items with
  | zero => simp
  | succ n ih =>
    cases items with
    | nil => simp at h
    | cons y items =>
      rw [insertIdx_succ_cons, ih items (by simpa using h)]
      simp

/-- **The items after the move**: the others in order, the moved one in its place. -/
theorem moveItemToIndex_split (a b : List T) (x : T) (dest : Int) :
    (moveItemToIndex (a ++ x :: b) a.length dest).getD (a ++ x :: b) =
      (a ++ b).take (place (a ++ b).length dest) ++ x :: (a ++ b).drop (place (a ++ b).length dest) := by
  have hlength : (a ++ x :: b).length = (a ++ b).length + 1 := by
    simp only [length_append, length_cons]
    omega
  have hsource : ¬ ((a.length : Int) < 0 ∨ (a.length : Int) ≥ (a ++ x :: b).length) := by
    simp only [length_append, length_cons]
    omega
  have hplace := place_le (a ++ b).length dest
  have hclamp : clamp (a ++ x :: b).length dest = (place (a ++ b).length dest : Int) := by
    rw [hlength, place]
    simp only [clamp]
    omega
  rw [moveItemToIndex, if_neg hsource]
  simp only [hclamp, Int.toNat_natCast, Int.natCast_inj]
  by_cases h : a.length = place (a ++ b).length dest
  · rw [if_pos h, ← h]
    simp
  · rw [if_neg h]
    have hget : (a ++ x :: b)[a.length]? = some x := by simp
    simp only [hget, Option.getD_some, eraseIdx_split, insertIdx_eq _ hplace]

theorem filter_split {f : T → Bool} (hx : f x = true) : (a ++ x :: b).filter f = a.filter f ++ x :: b.filter f := by
  rw [filter_append, filter_cons_of_pos hx]

theorem same_order [DecidableEq T] {c d : List T} (h : c ++ d = a ++ b) (hc : x ∉ c) (ha : x ∉ a) :
    c ++ x :: d = a ++ x :: b ↔ c.length = a.length := by
  constructor
  · intro heq
    have hc' := congrArg (List.idxOf x) heq
    rwa [idxOf_append_of_notMem hc, idxOf_append_of_notMem ha, idxOf_cons_self, idxOf_cons_self] at hc'
  · intro hlength
    obtain ⟨rfl, rfl⟩ := append_inj h hlength
    rfl

end Items

/-! ## A drop -/

section Drop
variable {a b : List TabInfo} {source : TabInfo} {dest : Int} {spaceId : Option String} {runtime : String → Option String}
  {projected : List TabInfo}

def named (sourcePath : String) (tab : TabInfo) : Bool := tab.path == sourcePath

theorem tabMove_split {insertIndex : Nat} (ha : ∀ tab ∈ a, named source.path tab = false)
    (h : insertIndex ≤ (a ++ source :: b).length) :
    tabMove (a ++ source :: b) source.path insertIndex =
      let target := if a.length < insertIndex then insertIndex - 1 else insertIndex
      (a ++ b).take target ++ source :: (a ++ b).drop target := by
  have hfind : (a ++ source :: b).findIdx? (fun tab => tab.path == source.path) = some a.length := by
    have hnone : a.findIdx? (fun tab => tab.path == source.path) = none := findIdx?_eq_none_iff.2 ha
    simp [findIdx?_append, hnone, findIdx?_cons]
  have hget : (a ++ source :: b)[a.length]? = some source := by simp
  have htarget : (if a.length < insertIndex then insertIndex - 1 else insertIndex) ≤ (a ++ b).length := by
    simp only [length_append, length_cons] at h ⊢
    split <;> omega
  simp only [tabMove, hfind, hget, eraseIdx_split, insertIdx_eq _ htarget]

theorem boundary_split (owned : TabInfo → Bool) (ha : ∀ tab ∈ a, named source.path tab = false)
    (howned : owned source = true) (dest : Int) :
    let rightward := decide (max 0 dest > findIndex (named source.path) (a ++ source :: b))
    let boundary := (((a ++ source :: b).take ((max 0 dest).toNat + rightward.toNat)).filter owned).length
    let before := (((a ++ b).take (place (a ++ b).length dest)).filter owned).length
    (boundary = before ∧ before ≤ (a.filter owned).length) ∨
      (boundary = before + 1 ∧ (a.filter owned).length ≤ before) := by
  intro rightward boundary before
  have hfind : findIndex (named source.path) (a ++ source :: b) = a.length :=
    findIndex_split ha (by simp [named])
  have htake : (a ++ b).take (place (a ++ b).length dest) = (a ++ b).take (max 0 dest).toNat := by
    rw [show place (a ++ b).length dest = min (max 0 dest).toNat (a ++ b).length by simp only [place, clamp]; omega,
      ← take_eq_take_min]
  by_cases h : max 0 dest > (a.length : Int)
  · have hr : rightward = true := by simp only [rightward, hfind, h, decide_true]
    -- the source is counted too
    obtain ⟨k, hk⟩ : ∃ k, (max 0 dest).toNat = a.length + k := ⟨(max 0 dest).toNat - a.length, by omega⟩
    have hbefore : (a ++ b).take (place (a ++ b).length dest) = a ++ b.take k := by
      rw [htake, hk, take_append, take_of_length_le (by omega)]
      simp
    have hboundary : (a ++ source :: b).take ((max 0 dest).toNat + rightward.toNat) = a ++ source :: b.take k := by
      rw [hr, hk, take_append, take_of_length_le (by omega)]
      simp [Nat.add_assoc]
    have hb : before = (a.filter owned).length + ((b.take k).filter owned).length := by
      rw [← length_append, ← filter_append, ← hbefore]
    have hc : boundary = (a.filter owned).length + (((b.take k).filter owned).length + 1) := by
      rw [← length_cons (a := source), ← length_append, ← filter_split howned, ← hboundary]
    exact .inr ⟨by omega, by omega⟩
  · have hr : rightward = false := by simp only [rightward, hfind, h, decide_false]
    have hle : (max 0 dest).toNat ≤ a.length := by omega
    have hbefore : (a ++ b).take (place (a ++ b).length dest) = a.take (max 0 dest).toNat := by
      rw [htake, take_append_of_le_length hle]
    have hboundary : (a ++ source :: b).take ((max 0 dest).toNat + rightward.toNat) = a.take (max 0 dest).toNat := by
      rw [hr, Bool.toNat_false, Nat.add_zero, take_append_of_le_length hle]
    refine .inl ⟨?_, ?_⟩
    · simp only [boundary, before, hboundary, hbefore]
    · simp only [before, hbefore]
      exact ((take_sublist ..).filter owned).length_le

theorem split_source (h : source ∈ projected) (hpaths : (projected.map TabInfo.path).Nodup) :
    ∃ a b, projected = a ++ source :: b ∧ (∀ tab ∈ a, named source.path tab = false) ∧
      ∀ tab ∈ b, named source.path tab = false := by
  obtain ⟨a, b, rfl⟩ := append_of_mem h
  rw [map_append, map_cons, nodup_append, nodup_cons] at hpaths
  obtain ⟨-, ⟨hb, -⟩, ha⟩ := hpaths
  refine ⟨a, b, rfl, fun tab ht => ?_, fun tab ht => ?_⟩
  · exact beq_eq_false_iff_ne.2 (ha _ (mem_map_of_mem ht) _ mem_cons_self)
  · exact beq_eq_false_iff_ne.2 fun heq => hb (mem_map.2 ⟨tab, ht, heq⟩)

def reordered (projected : List TabInfo) (sourcePath : String) (destProjectedIndex : Int) : List TabInfo :=
  (moveItemToIndex projected (findIndex (named sourcePath) projected) destProjectedIndex).getD projected

def inProjection (projected : List TabInfo) (tab : TabInfo) : Bool := (projected.map TabInfo.path).contains tab.path

theorem reordered_split (ha : ∀ tab ∈ a, named source.path tab = false) (dest : Int) :
    reordered (a ++ source :: b) source.path dest =
      (a ++ b).take (place (a ++ b).length dest) ++ source :: (a ++ b).drop (place (a ++ b).length dest) := by
  rw [reordered, findIndex_split ha (by simp [named]), moveItemToIndex_split]

def countBefore (owned : TabInfo → Bool) (a b : List TabInfo) (dest : Int) : Nat :=
  (((a ++ b).take (place (a ++ b).length dest)).filter owned).length

theorem filter_reordered {owned : TabInfo → Bool} (ha : ∀ tab ∈ a, named source.path tab = false)
    (howned : owned source = true) (dest : Int) :
    (reordered (a ++ source :: b) source.path dest).filter owned =
      (a.filter owned ++ b.filter owned).take (countBefore owned a b dest) ++
        source :: (a.filter owned ++ b.filter owned).drop (countBefore owned a b dest) := by
  have hall : a.filter owned ++ b.filter owned =
      ((a ++ b).take (place (a ++ b).length dest)).filter owned ++
        ((a ++ b).drop (place (a ++ b).length dest)).filter owned := by
    rw [← filter_append, ← filter_append, take_append_drop]
  rw [reordered_split ha, filter_split howned, hall, countBefore, take_left, drop_left]

/-- **The index that is given.** -/
theorem insertIndex_split (ha : ∀ tab ∈ a, named source.path tab = false)
    (howned : isOwnedHerdrTab spaceId runtime source = true) (dest : Int) :
    let owned := isOwnedHerdrTab spaceId runtime
    let insertIndex := herdrInsertIndexForProjectedDrop (a ++ source :: b) source.path dest spaceId runtime
    let i := (a.filter owned).length
    (countBefore owned a b dest = i ∧ insertIndex = none) ∨
      ∃ boundary, insertIndex = some boundary ∧ countBefore owned a b dest ≠ i ∧
        boundary ≤ ((a ++ source :: b).filter owned).length ∧
        (if i < boundary then boundary - 1 else boundary) = countBefore owned a b dest := by
  intro owned insertIndex i
  have hown : findIndex (fun tab => tab.path == source.path) ((a ++ source :: b).filter owned) = i := by
    rw [filter_split howned]
    exact findIndex_split (fun tab ht => ha tab (mem_of_mem_filter ht)) (by simp)
  have hindex : insertIndex =
      let boundary := (((a ++ source :: b).take ((max 0 dest).toNat +
        (decide (max 0 dest > findIndex (named source.path) (a ++ source :: b))).toNat)).filter owned).length
      if boundary = (i : Int) ∨ boundary = (i : Int) + 1 then none else some boundary := by
    simp only [insertIndex, herdrInsertIndexForProjectedDrop]
    rw [hown, if_neg (by omega)]
    rfl
  have hbound := @boundary_split a b source owned ha howned dest
  have hle : ∀ n, (((a ++ source :: b).take n).filter owned).length ≤ ((a ++ source :: b).filter owned).length :=
    fun n => ((take_sublist ..).filter owned).length_le
  have hle := hle ((max 0 dest).toNat +
    (decide (max 0 dest > findIndex (named source.path) (a ++ source :: b))).toNat)
  rw [hindex]
  simp only [countBefore] at hbound ⊢
  generalize (((a ++ source :: b).take ((max 0 dest).toNat +
    (decide (max 0 dest > findIndex (named source.path) (a ++ source :: b))).toNat)).filter owned).length = boundary
    at hbound hle ⊢
  generalize (((a ++ b).take (place (a ++ b).length dest)).filter owned).length = before at hbound ⊢
  by_cases h : before = i
  · exact .inl ⟨h, if_pos (by omega)⟩
  · refine .inr ⟨boundary, if_neg (by omega), h, hle, ?_⟩
    by_cases hi : i < boundary
    · rw [if_pos hi]
      omega
    · rw [if_neg hi]
      omega

/-- **A local reorder fills the slots of the projected tabs**, and leaves the others. -/
theorem reorderProjectedSlots_spec (hsource : ¬ findIndex (named source.path) projected < 0)
    (hperm : (reordered projected source.path dest).Perm projected) (groupTabs : List TabInfo) :
    (∀ next, reorderProjectedSlots TabInfo.path groupTabs projected source.path dest = some next →
      next.length = groupTabs.length ∧ next.filter (inProjection projected) = reordered projected source.path dest ∧
        ∀ (i : Nat) (tab : TabInfo), groupTabs[i]? = some tab → inProjection projected tab = false → next[i]? = some tab) ∧
    (groupTabs.filter (inProjection projected) = projected →
      reorderProjectedSlots TabInfo.path groupTabs projected source.path dest = none →
        reordered projected source.path dest = projected) := by
  have hinside : ∀ tab ∈ reordered projected source.path dest, inProjection projected tab = true := fun tab ht =>
    contains_iff_mem.2 (mem_map_of_mem (hperm.mem_iff.1 ht))
  have hlength := hperm.length_eq
  have hreorder : reorderProjectedSlots TabInfo.path groupTabs projected source.path dest =
      (moveItemToIndex projected (findIndex (named source.path) projected) dest).bind fun nextProjected =>
        if (slotIndices (inProjection projected) groupTabs).length ≠ nextProjected.length then none
        else some (setSlots groupTabs (slotIndices (inProjection projected) groupTabs) nextProjected) := if_neg hsource
  rw [hreorder]
  unfold reordered at hinside hlength ⊢
  generalize moveItemToIndex projected (findIndex (named source.path) projected) dest = moved at hinside hlength ⊢
  cases moved with
  | none => exact ⟨fun _ h => (by cases h), fun _ _ => rfl⟩
  | some nextProjected =>
    simp only [Option.getD_some, Option.bind_some, length_slotIndices, setSlots_eq] at hinside hlength ⊢
    by_cases hslots : (groupTabs.filter (inProjection projected)).length = nextProjected.length
    · rw [if_neg (not_not.2 hslots)]
      refine ⟨fun next hnext => ?_, nofun⟩
      cases hnext
      exact ⟨length_weave .., filter_weave _ _ hslots hinside, weave_outside _ _⟩
    · rw [if_pos hslots]
      refine ⟨fun _ h => (by cases h), fun hall _ => ?_⟩
      rw [hall] at hslots
      exact absurd hlength.symm hslots

/-- **A drop is the same move on both sides.**  The server's order after `tab.move` is the order of the Space's tabs in
the reordered projection; no index is given where that order stays; and the local reorder of a group puts the reordered
projection into its slots and leaves every other tab where it is. -/
theorem drop_agrees {projected : List TabInfo} (hpaths : (projected.map TabInfo.path).Nodup) (hsource : source ∈ projected)
    (howned : isOwnedHerdrTab spaceId runtime source = true) (dest : Int) :
    let owned := isOwnedHerdrTab spaceId runtime
    let order := projected.filter owned
    let after := reordered projected source.path dest
    let insertIndex := herdrInsertIndexForProjectedDrop projected source.path dest spaceId runtime
    (∀ index, insertIndex = some index → tabMove order source.path index = after.filter owned) ∧
      (insertIndex = none ↔ after.filter owned = order) ∧
      ∀ groupTabs : List TabInfo,
        (∀ next, reorderProjectedSlots TabInfo.path groupTabs projected source.path dest = some next →
          next.length = groupTabs.length ∧ next.filter (inProjection projected) = after ∧
            ∀ (i : Nat) (tab : TabInfo), groupTabs[i]? = some tab → inProjection projected tab = false →
              next[i]? = some tab) ∧
        (groupTabs.filter (inProjection projected) = projected →
          reorderProjectedSlots TabInfo.path groupTabs projected source.path dest = none → after = projected) := by
  intro owned order after insertIndex
  obtain ⟨a, b, rfl, ha, hb⟩ := split_source hsource hpaths
  have hafter := filter_reordered (b := b) ha howned dest
  have hnot : source ∉ a ++ b := by
    intro hm
    rcases mem_append.1 hm with hm | hm
    · simpa [named] using ha source hm
    · simpa [named] using hb source hm
  have hperm : after.Perm (a ++ source :: b) := by
    simp only [after, reordered_split ha]
    refine perm_middle.trans (.trans ?_ perm_middle.symm)
    rw [take_append_drop]
  have horder : order = a.filter owned ++ source :: b.filter owned := filter_split howned
  -- the Space's order stays where as many of its tabs come before the source
  have hsame : after.filter owned = order ↔ countBefore owned a b dest = (a.filter owned).length := by
    have hsub : (a.filter owned ++ b.filter owned) ⊆ a ++ b := by
      rw [← filter_append]
      exact filter_subset_self _
    rw [hafter, horder]
    refine (same_order (take_append_drop ..) (fun hm => hnot (hsub (mem_of_mem_take hm)))
      (fun hm => hnot (hsub (mem_append_left _ hm)))).trans ?_
    have hle : countBefore owned a b dest ≤ (a.filter owned ++ b.filter owned).length := by
      rw [← filter_append]
      exact ((take_sublist ..).filter owned).length_le
    rw [length_take, Nat.min_eq_left hle]
  refine ⟨?_, ?_, ?_⟩
  · intro index hindex
    rcases insertIndex_split (b := b) ha howned dest with ⟨-, hnone⟩ | ⟨boundary, hsome, -, hle, htarget⟩
    · cases hnone.symm.trans hindex
    · cases hsome.symm.trans hindex
      rw [filter_split howned] at hle
      rw [horder, tabMove_split (fun tab ht => ha tab (mem_of_mem_filter ht)) hle, hafter]
      simp only [htarget]
  · rw [hsame]
    rcases insertIndex_split (b := b) ha howned dest with ⟨heq, hnone⟩ | ⟨boundary, hsome, hne, -, -⟩
    · exact ⟨fun _ => heq, fun _ => hnone⟩
    · exact ⟨fun h => (by cases hsome.symm.trans h), fun h => absurd h hne⟩
  · refine fun groupTabs => reorderProjectedSlots_spec ?_ hperm groupTabs
    rw [findIndex_split ha (by simp [named])]
    omega

end Drop

/-- A tab of `space`. -/
def spaceTab (path : String) : TabInfo := ⟨path, some .herdrTerminal, some path, some "space"⟩

/-- The first of two tabs is dropped behind a file and the other. -/
theorem drop_agrees_right :
    tabMove ([spaceTab "a", ⟨"f", none, none, none⟩, spaceTab "b"].filter (isOwnedHerdrTab (some "space") fun _ => none)) "a" 2 =
      [spaceTab "b", spaceTab "a"] :=
  ((@drop_agrees (spaceTab "a") (some "space") (fun _ => none) [spaceTab "a", ⟨"f", none, none, none⟩, spaceTab "b"]
    (by decide) (by decide) (by decide) 2).1 2 (by decide)).trans (by decide)

end TabReorder
end Yuzora
