import Mathlib.Data.List.DropRight
import Mathlib.Data.List.Nodup
/-!
# GraphLayout — the lanes of the commit graph

A lane waits for a commit.  A row takes the lanes that wait for its commit into its node and lets the node's parents wait
in lanes again; every other lane goes straight through (`rowSpec`).  Over a whole list every edge is drawn completely
(`layout_draws`).
-/
namespace Yuzora
namespace Graph

open List

inductive SegmentPhase
  | through | incoming | outgoing
  deriving DecidableEq

structure GraphSegment where
  fromLane : Nat
  toLane : Nat
  colorIdx : Nat
  phase : SegmentPhase
  deriving DecidableEq

structure GraphRow where
  hash : String
  lane : Nat
  colorIdx : Nat
  isMerge : Bool
  segments : List GraphSegment
  deriving DecidableEq

structure GraphLayout where
  rows : List GraphRow
  laneCount : Nat
  deriving DecidableEq

structure GraphInputCommit where
  hash : String
  parents : List String

/-- `parent` is the commit that the lane waits for; a lane without one is free. -/
structure Lane where
  parent : Option String
  colorIdx : Nat
  deriving DecidableEq

def isFree (lane : Lane) : Bool := lane.parent.isNone
def waitsFor (hash : String) (lane : Lane) : Bool := decide (lane.parent = some hash)

variable (lanes : List Lane)

def allocLane (parent : String) (colorIdx : Nat) : Nat × List Lane :=
  match lanes.findIdx? isFree with
  | some i => (i, lanes.set i ⟨some parent, colorIdx⟩)
  | none => (lanes.length, lanes ++ [⟨some parent, colorIdx⟩])

def waiting (hash : String) : List Nat :=
  (lanes.zipIdx.filter (fun e => waitsFor hash e.1)).map Prod.snd

def closeLanes (closed : List Nat) : List Lane :=
  closed.foldl (fun lanes k => lanes.modify k (fun lane => { lane with parent := none })) lanes

/-- What is passed from row to row. -/
structure Lanes where
  lanes : List Lane
  nextColorIdx : Nat

variable (s : Lanes)

/-- The node's lane and colour; the other lanes that wait for the commit are closed. -/
def nodeOf (hash : String) : Nat × Nat × Lanes :=
  match waiting s.lanes hash with
  | nodeLane :: rest =>
    (nodeLane, (s.lanes[nodeLane]?.map (·.colorIdx)).getD 0, { s with lanes := closeLanes s.lanes rest })
  | [] =>
    let opened := allocLane s.lanes hash s.nextColorIdx
    (opened.1, s.nextColorIdx, ⟨opened.2, s.nextColorIdx + 1⟩)

def addParent (parent : String) : Lanes :=
  if s.lanes.any (waitsFor parent) then s
  else ⟨(allocLane s.lanes parent s.nextColorIdx).2, s.nextColorIdx + 1⟩

variable (outgoing : List Lane)

/-- The lane that carries on: straight where it can, else by hash and colour, else by hash. -/
def findOutgoingLane (parent : String) (colorIdx preferIdx : Nat) : Option Nat :=
  if outgoing[preferIdx]? = some ⟨some parent, colorIdx⟩ then some preferIdx
  else
    (outgoing.findIdx? (fun lane => decide (lane = ⟨some parent, colorIdx⟩))).or (outgoing.findIdx? (waitsFor parent))

def throughSegment (commitHash : String) (nodeLane : Nat) (inc : Lane) (i : Nat) :
    Option GraphSegment :=
  match inc.parent with
  | none => none
  | some parent =>
    if parent = commitHash then some ⟨i, nodeLane, inc.colorIdx, .incoming⟩
    else (findOutgoingLane outgoing parent inc.colorIdx i).map fun target => ⟨i, target, inc.colorIdx, .through⟩

def parentSegment (nodeLane : Nat) (parent : String) (p : Nat) : Option GraphSegment :=
  (if p = 0 then some nodeLane else outgoing.findIdx? (waitsFor parent)).bind fun target =>
    outgoing[target]?.map fun lane => ⟨nodeLane, target, lane.colorIdx, .outgoing⟩

def buildSegments (incoming outgoing : List Lane) (commitHash : String) (nodeLane : Nat) (parents : List String) :
    List GraphSegment :=
  incoming.zipIdx.filterMap (fun e => throughSegment outgoing commitHash nodeLane e.1 e.2) ++
    parents.zipIdx.filterMap (fun e => parentSegment outgoing nodeLane e.1 e.2)

def below (commit : GraphInputCommit) : Lanes :=
  let node := nodeOf s commit.hash
  let held := { node.2.2 with lanes := node.2.2.lanes.set node.1 ⟨commit.parents.head?, node.2.1⟩ }
  let opened := commit.parents.tail.foldl addParent held
  { opened with lanes := opened.lanes.rdropWhile isFree }

def rowOf (commit : GraphInputCommit) : GraphRow :=
  let node := nodeOf s commit.hash
  { hash := commit.hash, lane := node.1, colorIdx := node.2.1, isMerge := decide (commit.parents.length > 1),
    segments := buildSegments s.lanes (below s commit).lanes commit.hash node.1 commit.parents }

def widen (widest : Nat) (s : Lanes) (commit : GraphInputCommit) : Nat :=
  max (max (max widest s.lanes.length) (below s commit).lanes.length) ((rowOf s commit).lane + 1)

def layoutRows : Lanes → Nat → List GraphInputCommit → List GraphRow × Nat
  | _, widest, [] => ([], widest)
  | s, widest, commit :: commits =>
    let rest := layoutRows (below s commit) (widen widest s commit) commits
    (rowOf s commit :: rest.1, rest.2)

def computeGraphLayout (commits : List GraphInputCommit) : GraphLayout :=
  let out := layoutRows ⟨[], 0⟩ 0 commits
  { rows := out.1, laneCount := out.2 }

example : (computeGraphLayout [⟨"c", ["a", "b"]⟩, ⟨"b", ["a"]⟩, ⟨"a", []⟩]).rows.map (·.lane) = [0, 1, 0] := by decide

/-! ## Lanes -/

def carries (x : Nat) : Option String := lanes[x]?.bind Lane.parent

variable {lanes : List Lane} {x : Nat} {p : String}

theorem carries_eq : carries lanes x = some p ↔ ∃ color, lanes[x]? = some ⟨some p, color⟩ := by
  rw [carries, Option.bind_eq_some_iff]
  constructor
  · rintro ⟨⟨parent, color⟩, hget, rfl⟩
    exact ⟨color, hget⟩
  · rintro ⟨color, hget⟩
    exact ⟨_, hget, rfl⟩

theorem lt_of_carries (h : carries lanes x ≠ none) : x < lanes.length := by
  by_contra hx
  exact h (by rw [carries, getElem?_eq_none (by omega)]; rfl)

theorem isFree_of_get {color : Nat} (h : lanes[x]? = some ⟨some p, color⟩)
    {i : Nat} (hi : lanes.findIdx? isFree = some i) : x ≠ i := by
  rintro rfl
  obtain ⟨hlt, hfree, -⟩ := findIdx?_eq_some_iff_getElem.1 hi
  rw [getElem?_eq_getElem hlt, Option.some.injEq] at h
  rw [h] at hfree
  cases hfree

theorem allocLane_get (lanes : List Lane) (parent : String) (color : Nat) :
    (allocLane lanes parent color).2[(allocLane lanes parent color).1]? = some ⟨some parent, color⟩ := by
  unfold allocLane
  cases hfind : lanes.findIdx? isFree with
  | none => simp
  | some i =>
    obtain ⟨hlt, -, -⟩ := findIdx?_eq_some_iff_getElem.1 hfind
    simp [hlt]

theorem allocLane_other {parent : String} {color : Nat} (h : x ≠ (allocLane lanes parent color).1) :
    (allocLane lanes parent color).2[x]? = lanes[x]? := by
  unfold allocLane at h ⊢
  cases hfind : lanes.findIdx? isFree with
  | none =>
    rw [hfind] at h
    simp only at h ⊢
    by_cases hx : x < lanes.length
    · rw [getElem?_append_left hx]
    · rw [getElem?_eq_none (by simp; omega), getElem?_eq_none (by omega)]
  | some i =>
    rw [hfind] at h
    rw [getElem?_set_ne (Ne.symm h)]

/-- **A lane that waits is not recycled.** -/
theorem allocLane_keeps {lanes : List Lane} {parent p : String} {color c x : Nat} (h : lanes[x]? = some ⟨some p, c⟩) :
    x ≠ (allocLane lanes parent color).1 := by
  unfold allocLane
  cases hfind : lanes.findIdx? isFree with
  | none =>
    rintro rfl
    simp at h
  | some i => exact isFree_of_get h hfind

theorem mem_waiting {hash : String} : x ∈ waiting lanes hash ↔ carries lanes x = some hash := by
  simp only [waiting, mem_map, mem_filter, waitsFor, decide_eq_true_eq]
  constructor
  · rintro ⟨⟨lane, k⟩, ⟨hmem, hwait⟩, rfl⟩
    have := mem_zipIdx_iff_getElem?.1 hmem
    rw [carries, this, Option.bind_some, hwait]
  · intro h
    obtain ⟨lane, hget, hparent⟩ := Option.bind_eq_some_iff.1 h
    exact ⟨(lane, x), ⟨mem_zipIdx_iff_getElem?.2 hget, hparent⟩, rfl⟩

theorem closeLanes_other {x : Nat} : ∀ {closed : List Nat} (lanes : List Lane), x ∉ closed →
    (closeLanes lanes closed)[x]? = lanes[x]?
  | [], _, _ => rfl
  | k :: closed, lanes, h => by
    have hx : x ≠ k := fun hxk => h (hxk ▸ mem_cons_self)
    rw [closeLanes, foldl_cons]
    refine (closeLanes_other _ fun hm => h (mem_cons_of_mem _ hm)).trans ?_
    simp [Ne.symm hx]

theorem length_closeLanes : ∀ (closed : List Nat) (lanes : List Lane), (closeLanes lanes closed).length = lanes.length
  | [], _ => rfl
  | k :: closed, lanes => by
    rw [closeLanes, foldl_cons]
    exact (length_closeLanes closed _).trans (length_modify ..)

theorem closeLanes_closed {x : Nat} : ∀ {closed : List Nat} (lanes : List Lane), x ∈ closed →
    carries (closeLanes lanes closed) x = none
  | k :: closed, lanes, h => by
    rw [closeLanes, foldl_cons]
    by_cases hx : x ∈ closed
    · exact closeLanes_closed _ hx
    · obtain rfl : x = k := (mem_cons.1 h).resolve_right hx
      rw [carries]
      have := closeLanes_other (lanes.modify x fun lane => { lane with parent := none }) hx
      rw [closeLanes] at this
      rw [this, getElem?_modify]
      cases lanes[x]? <;> simp

/-! ## The lanes below a row -/

theorem nodeOf_spec (hash : String) : (nodeOf s hash).1 < (nodeOf s hash).2.2.lanes.length ∧
      (∀ (x : Nat) (p : String) (c : Nat), s.lanes[x]? = some ⟨some p, c⟩ → p ≠ hash →
        x ≠ (nodeOf s hash).1 ∧ (nodeOf s hash).2.2.lanes[x]? = some ⟨some p, c⟩) ∧
      ∀ x p, carries (nodeOf s hash).2.2.lanes x = some p → x = (nodeOf s hash).1 ∨ (carries s.lanes x = some p ∧ p ≠ hash) := by
  unfold nodeOf
  cases hwait : waiting s.lanes hash with
  | nil =>
    have hget := allocLane_get s.lanes hash s.nextColorIdx
    refine ⟨(List.getElem?_eq_some_iff.1 hget).1, fun x p c hx _ => ?_, fun x p hx => ?_⟩
    · have hne := @allocLane_keeps s.lanes hash p s.nextColorIdx c x hx
      exact ⟨hne, (allocLane_other hne).trans hx⟩
    · by_cases hne : x = (allocLane s.lanes hash s.nextColorIdx).1
      · exact .inl hne
      · rw [carries, allocLane_other hne] at hx
        refine .inr ⟨hx, ?_⟩
        rintro rfl
        have := mem_waiting.2 hx
        rw [hwait] at this
        cases this
  | cons node rest =>
    have hnode : carries s.lanes node = some hash := mem_waiting.1 (hwait ▸ mem_cons_self)
    have hrest : ∀ x ∈ rest, carries s.lanes x = some hash := fun x hx =>
      mem_waiting.1 (hwait ▸ mem_cons_of_mem _ hx)
    refine ⟨?_, fun x p c hx hp => ⟨?_, ?_⟩, fun x p hx => ?_⟩
    · rw [length_closeLanes]
      exact lt_of_carries (by rw [hnode]; simp)
    · rintro rfl
      rw [carries, hx] at hnode
      exact hp (Option.some.inj hnode)
    · refine (closeLanes_other _ fun hm => hp ?_).trans hx
      have := hrest x hm
      rw [carries, hx] at this
      exact Option.some.inj this
    · by_cases hm : x ∈ rest
      · rw [closeLanes_closed _ hm] at hx
        cases hx
      · rw [carries, closeLanes_other _ hm] at hx
        by_cases hp : p = hash
        · have hw := mem_waiting.2 (hx.trans (congrArg some hp))
          rw [hwait] at hw
          exact .inl ((mem_cons.1 hw).resolve_right hm)
        · exact .inr ⟨hx, hp⟩

theorem any_waitsFor : lanes.any (waitsFor p) = true ↔ ∃ x, carries lanes x = some p := by
  rw [any_eq_true]
  constructor
  · rintro ⟨lane, hmem, hwait⟩
    obtain ⟨x, hx⟩ := mem_iff_getElem?.1 hmem
    exact ⟨x, by rw [carries, hx]; exact of_decide_eq_true hwait⟩
  · rintro ⟨x, hx⟩
    obtain ⟨c, hc⟩ := carries_eq.1 hx
    exact ⟨_, mem_of_getElem? hc, decide_eq_true rfl⟩

/-- **The other parents**: what waited still waits, each parent has a lane, and a lane that is new is the only one that waits
for its commit. -/
theorem addParents_spec : ∀ (parents : List String) (s : Lanes),
    (∀ (x : Nat) (p : String) (c : Nat), s.lanes[x]? = some ⟨some p, c⟩ →
      (parents.foldl addParent s).lanes[x]? = some ⟨some p, c⟩) ∧
      (∀ p ∈ parents, ∃ x, carries (parents.foldl addParent s).lanes x = some p) ∧
      ∀ x p, carries (parents.foldl addParent s).lanes x = some p → carries s.lanes x = some p ∨
        (p ∈ parents ∧ (∀ y, carries s.lanes y ≠ some p) ∧
          ∀ y, carries (parents.foldl addParent s).lanes y = some p → y = x)
  | [], s => ⟨fun _ _ _ h => h, fun _ h => (by cases h), fun _ _ h => .inl h⟩
  | parent :: parents, s => by
    obtain ⟨hkeeps, hall, horigin⟩ := addParents_spec parents (addParent s parent)
    rw [foldl_cons]
    generalize (parents.foldl addParent (addParent s parent)).lanes = final at hkeeps hall horigin ⊢
    by_cases hany : s.lanes.any (waitsFor parent) = true
    · have hstep : addParent s parent = s := if_pos hany
      rw [hstep] at hkeeps horigin
      refine ⟨hkeeps, fun p hp => ?_, fun x p hx => ?_⟩
      · rcases mem_cons.1 hp with rfl | hp
        · obtain ⟨x, hx⟩ := any_waitsFor.1 hany
          obtain ⟨c, hc⟩ := carries_eq.1 hx
          exact ⟨x, carries_eq.2 ⟨c, hkeeps x p c hc⟩⟩
        · exact hall p hp
      · exact (horigin x p hx).imp_right fun ⟨hm, hrest⟩ => ⟨mem_cons_of_mem _ hm, hrest⟩
    · have hstep : addParent s parent = ⟨(allocLane s.lanes parent s.nextColorIdx).2, s.nextColorIdx + 1⟩ := if_neg hany
      have hnone : ∀ y, carries s.lanes y ≠ some parent := fun y hy => hany (any_waitsFor.2 ⟨y, hy⟩)
      rw [hstep] at hkeeps horigin
      simp only at hkeeps horigin
      have hnew := allocLane_get s.lanes parent s.nextColorIdx
      have hcarries : ∀ {x p}, carries (allocLane s.lanes parent s.nextColorIdx).2 x = some p →
          (x = (allocLane s.lanes parent s.nextColorIdx).1 ∧ p = parent) ∨ carries s.lanes x = some p := by
        intro x p hx
        by_cases hne : x = (allocLane s.lanes parent s.nextColorIdx).1
        · rw [hne, carries, hnew] at hx
          exact .inl ⟨hne, (Option.some.inj hx).symm⟩
        · rw [carries, allocLane_other hne] at hx
          exact .inr hx
      refine ⟨fun x p c hx => ?_, fun p hp => ?_, fun x p hx => ?_⟩
      · exact hkeeps x p c ((allocLane_other (allocLane_keeps hx)).trans hx)
      · rcases mem_cons.1 hp with rfl | hp
        · exact ⟨_, carries_eq.2 ⟨_, hkeeps _ _ _ hnew⟩⟩
        · exact hall p hp
      · rcases horigin x p hx with hx | ⟨hm, hfree, hunique⟩
        · rcases hcarries hx with ⟨rfl, rfl⟩ | hx
          · refine .inr ⟨mem_cons_self, hnone, fun y hy => ?_⟩
            rcases horigin y p hy with hy | ⟨-, hfree, -⟩
            · exact ((hcarries hy).resolve_right (hnone y)).1
            · exact absurd (carries_eq.2 ⟨_, hnew⟩) (hfree _)
          · exact .inl hx
        · refine .inr ⟨mem_cons_of_mem _ hm, fun y hy => ?_, hunique⟩
          obtain ⟨c, hc⟩ := carries_eq.1 hy
          exact hfree y (carries_eq.2 ⟨c, (allocLane_other (allocLane_keeps hc)).trans hc⟩)

theorem trim_get (lanes : List Lane) {c : Nat} :
    (lanes.rdropWhile isFree)[x]? = some ⟨some p, c⟩ ↔ lanes[x]? = some ⟨some p, c⟩ := by
  induction lanes using List.reverseRecOn with
  | nil => rfl
  | append_singleton lanes lane ih =>
    rw [rdropWhile_concat]
    by_cases hfree : isFree lane = true
    · rw [if_pos hfree, ih]
      rcases Nat.lt_trichotomy x lanes.length with hx | rfl | hx
      · rw [getElem?_append_left hx]
      · have hne : lane ≠ ⟨some p, c⟩ := by
          rintro rfl
          cases hfree
        simp [hne]
      · rw [getElem?_eq_none (by omega), getElem?_eq_none (by simp; omega)]
    · rw [if_neg hfree]

theorem carries_trim (lanes : List Lane) (x : Nat) : carries (lanes.rdropWhile isFree) x = carries lanes x := by
  refine Option.ext fun p => ?_
  simp only [carries_eq, trim_get]

/-- **The lanes below a row**, `node` being the lane of its commit. -/
structure Below (s : Lanes) (commit : GraphInputCommit) (node : Nat) (lanes : List Lane) : Prop where
  keeps : ∀ (x : Nat) (p : String) (c : Nat), s.lanes[x]? = some ⟨some p, c⟩ → p ≠ commit.hash →
    lanes[x]? = some ⟨some p, c⟩
  first : ∀ p, commit.parents.head? = some p → carries lanes node = some p
  more : ∀ p ∈ commit.parents.tail, ∃ x, carries lanes x = some p
  origin : ∀ x p, carries lanes x = some p → (carries s.lanes x = some p ∧ p ≠ commit.hash) ∨
    (x = node ∧ commit.parents.head? = some p) ∨
      (p ∈ commit.parents.tail ∧ ∀ y, carries lanes y = some p → y = x)

theorem below_spec (commit : GraphInputCommit) :
    Below s commit (rowOf s commit).lane (below s commit).lanes := by
  obtain ⟨hlt, hother, horigin⟩ := nodeOf_spec s commit.hash
  simp only [below, rowOf]
  generalize nodeOf s commit.hash = node at hlt hother horigin ⊢
  obtain ⟨n, color, t⟩ := node
  obtain ⟨hkeeps, hmore, hnew⟩ := addParents_spec commit.parents.tail
    { t with lanes := t.lanes.set n ⟨commit.parents.head?, color⟩ }
  have hset : (t.lanes.set n ⟨commit.parents.head?, color⟩)[n]? = some ⟨commit.parents.head?, color⟩ := by simp [hlt]
  have hheld : ∀ {x}, x ≠ n → (t.lanes.set n ⟨commit.parents.head?, color⟩)[x]? = t.lanes[x]? := fun hx => by
    rw [getElem?_set_ne (Ne.symm hx)]
  refine ⟨fun x p c hx hp => ?_, fun p hp => ?_, fun p hp => ?_, fun x p hx => ?_⟩
  · obtain ⟨hne, hget⟩ := hother x p c hx hp
    exact (trim_get _).2 (hkeeps x p c ((hheld hne).trans hget))
  · rw [carries_trim]
    refine carries_eq.2 ⟨color, hkeeps n p color ?_⟩
    rw [hset, hp]
  · obtain ⟨x, hx⟩ := hmore p hp
    exact ⟨x, (carries_trim _ x).trans hx⟩
  · rw [carries_trim] at hx
    rcases hnew x p hx with hx | ⟨hm, -, hunique⟩
    · by_cases hxn : x = n
      · rw [hxn, carries, hset] at hx
        exact .inr (.inl ⟨hxn, hx⟩)
      · rw [carries, hheld hxn] at hx
        exact .inl ((horigin x p hx).resolve_left hxn)
    · exact .inr (.inr ⟨hm, fun y hy => hunique y ((carries_trim _ y).symm.trans hy)⟩)

/-! ## The segments of a row -/

variable (row : GraphRow)

def Has (phase : SegmentPhase) (a b : Nat) : Prop :=
  ∃ seg ∈ row.segments, seg.phase = phase ∧ seg.fromLane = a ∧ seg.toLane = b

/-- A line comes into the row from above in lane `x`. -/
def Top (x : Nat) : Prop := ∃ seg ∈ row.segments, seg.phase ≠ .outgoing ∧ seg.fromLane = x

/-- A line leaves the row below in lane `x`. -/
def Bottom (x : Nat) : Prop := ∃ seg ∈ row.segments, seg.phase ≠ .incoming ∧ seg.toLane = x

/-- What the lines of a segment lead to, from `above` to `under`. -/
def Leads (above under : Nat → Option String) (commit : GraphInputCommit) (row : GraphRow) (seg : GraphSegment) : Prop :=
  match seg.phase with
  | .incoming => seg.toLane = row.lane ∧ above seg.fromLane = some commit.hash
  | .through => seg.fromLane = seg.toLane ∧ ∃ p, p ≠ commit.hash ∧ above seg.fromLane = some p ∧ under seg.toLane = some p
  | .outgoing => seg.fromLane = row.lane ∧ ∃ p ∈ commit.parents, under seg.toLane = some p

/-- **A row**: its lines are those of the lanes above it and below it. -/
structure RowSpec (above under : Nat → Option String) (commit : GraphInputCommit) (row : GraphRow) : Prop where
  top : ∀ x, Top row x ↔ above x ≠ none
  bottom : ∀ x, Bottom row x ↔ under x ≠ none
  leads : ∀ seg ∈ row.segments, Leads above under commit row seg
  through : ∀ x p, above x = some p → p ≠ commit.hash → under x = some p ∧ Has row .through x x
  incoming : ∀ x, above x = some commit.hash → Has row .incoming x row.lane
  outgoing : ∀ p ∈ commit.parents, ∃ x, under x = some p ∧ Has row .outgoing row.lane x

section Row
variable {s : Lanes} {commit : GraphInputCommit}

theorem mem_segments {seg : GraphSegment} : seg ∈ (rowOf s commit).segments ↔ (∃ x inc, s.lanes[x]? = some inc ∧
      throughSegment (below s commit).lanes commit.hash (rowOf s commit).lane inc x = some seg) ∨
    ∃ k p, commit.parents[k]? = some p ∧ parentSegment (below s commit).lanes (rowOf s commit).lane p k = some seg := by
  simp only [rowOf, buildSegments, mem_append, mem_filterMap, Prod.exists, mem_zipIdx_iff_getElem?]
  constructor
  · rintro (⟨inc, x, h⟩ | ⟨p, k, h⟩)
    · exact .inl ⟨x, inc, h⟩
    · exact .inr ⟨k, p, h⟩
  · rintro (⟨x, inc, h⟩ | ⟨k, p, h⟩)
    · exact .inl ⟨inc, x, h⟩
    · exact .inr ⟨p, k, h⟩

/-- **A line that is not the commit's goes straight through.** -/
theorem has_through {c : Nat} (hx : s.lanes[x]? = some ⟨some p, c⟩) (hp : p ≠ commit.hash) :
    throughSegment (below s commit).lanes commit.hash (rowOf s commit).lane ⟨some p, c⟩ x = some ⟨x, x, c, .through⟩ := by
  have hkeeps := (below_spec s commit).keeps x p c hx hp
  simp [throughSegment, hp, findOutgoingLane, hkeeps]

theorem has_parent {k : Nat} (hk : commit.parents[k]? = some p) :
    ∃ x c, carries (below s commit).lanes x = some p ∧ (k = 0 → x = (rowOf s commit).lane) ∧
      parentSegment (below s commit).lanes (rowOf s commit).lane p k = some ⟨(rowOf s commit).lane, x, c, .outgoing⟩ := by
  have hbelow := below_spec s commit
  have hseg : ∀ x, carries (below s commit).lanes x = some p →
      ∃ c, ((below s commit).lanes[x]?.map fun lane => (⟨(rowOf s commit).lane, x, lane.colorIdx, .outgoing⟩ : GraphSegment)) =
        some ⟨(rowOf s commit).lane, x, c, .outgoing⟩ := by
    intro x hx
    obtain ⟨c, hc⟩ := carries_eq.1 hx
    exact ⟨c, by rw [hc]; rfl⟩
  by_cases h0 : k = 0
  · subst h0
    have hx := hbelow.first p (by rw [head?_eq_getElem?, hk])
    obtain ⟨c, hc⟩ := hseg _ hx
    exact ⟨_, c, hx, fun _ => rfl, hc⟩
  · have hm : p ∈ commit.parents.tail := by
      refine mem_of_getElem? (i := k - 1) ?_
      rw [getElem?_tail, Nat.sub_add_cancel (by omega), hk]
    have hany := any_waitsFor.2 (hbelow.more p hm)
    cases hfind : (below s commit).lanes.findIdx? (waitsFor p) with
    | none =>
      rw [findIdx?_eq_none_iff] at hfind
      obtain ⟨lane, hlane, hwait⟩ := any_eq_true.1 hany
      rw [hfind lane hlane] at hwait
      cases hwait
    | some x =>
      obtain ⟨hlt, hwait, -⟩ := findIdx?_eq_some_iff_getElem.1 hfind
      have hx : carries (below s commit).lanes x = some p := by
        rw [carries, getElem?_eq_getElem hlt]
        exact of_decide_eq_true hwait
      obtain ⟨c, hc⟩ := hseg x hx
      refine ⟨x, c, hx, fun h => absurd h h0, ?_⟩
      simpa [parentSegment, h0, hfind] using hc

theorem rowSpec (s : Lanes) (commit : GraphInputCommit) :
    RowSpec (carries s.lanes) (carries (below s commit).lanes) commit (rowOf s commit) := by
  have hbelow := below_spec s commit
  have hthrough : ∀ x p, carries s.lanes x = some p → p ≠ commit.hash →
      carries (below s commit).lanes x = some p ∧ Has (rowOf s commit) .through x x := by
    intro x p hx hp
    obtain ⟨c, hc⟩ := carries_eq.1 hx
    exact ⟨carries_eq.2 ⟨c, hbelow.keeps x p c hc hp⟩, ⟨_, mem_segments.2 (.inl ⟨x, _, hc, has_through hc hp⟩), rfl, rfl, rfl⟩⟩
  have hincoming : ∀ x, carries s.lanes x = some commit.hash → Has (rowOf s commit) .incoming x (rowOf s commit).lane := by
    intro x hx
    obtain ⟨c, hc⟩ := carries_eq.1 hx
    exact ⟨_, mem_segments.2 (.inl ⟨x, _, hc, if_pos rfl⟩), rfl, rfl, rfl⟩
  have houtgoing : ∀ p ∈ commit.parents, ∃ x, carries (below s commit).lanes x = some p ∧
      Has (rowOf s commit) .outgoing (rowOf s commit).lane x := by
    intro p hp
    obtain ⟨k, hk⟩ := mem_iff_getElem?.1 hp
    obtain ⟨x, c, hx, -, hseg⟩ := has_parent (s := s) hk
    exact ⟨x, hx, ⟨_, mem_segments.2 (.inr ⟨k, p, hk, hseg⟩), rfl, rfl, rfl⟩⟩
  have hleads : ∀ seg ∈ (rowOf s commit).segments,
      Leads (carries s.lanes) (carries (below s commit).lanes) commit (rowOf s commit) seg := by
    intro seg hseg
    rcases mem_segments.1 hseg with ⟨x, ⟨parent, c⟩, hx, hseg⟩ | ⟨k, p, hk, hseg⟩
    · cases parent with
      | none => cases hseg
      | some p =>
        by_cases hp : p = commit.hash
        · subst hp
          cases (if_pos rfl : throughSegment _ _ _ ⟨some commit.hash, c⟩ x = _).symm.trans hseg
          exact ⟨rfl, carries_eq.2 ⟨c, hx⟩⟩
        · cases (has_through hx hp).symm.trans hseg
          exact ⟨rfl, p, hp, carries_eq.2 ⟨c, hx⟩, carries_eq.2 ⟨c, hbelow.keeps x p c hx hp⟩⟩
    · obtain ⟨x, c, hx, -, hpar⟩ := has_parent (s := s) hk
      cases hpar.symm.trans hseg
      exact ⟨rfl, p, mem_of_getElem? hk, hx⟩
  refine ⟨fun x => ⟨?_, fun hx => ?_⟩, fun x => ⟨?_, fun hx => ?_⟩, hleads, hthrough, hincoming, houtgoing⟩
  · rintro ⟨seg, hseg, hphase, rfl⟩
    have := hleads seg hseg
    rcases hp : seg.phase with _ | _ | _ <;> simp only [Leads, hp] at this hphase
    · obtain ⟨-, p, -, habove, -⟩ := this
      rw [habove]
      simp
    · rw [this.2]
      simp
    · exact absurd rfl hphase
  · obtain ⟨p, hp⟩ := Option.ne_none_iff_exists'.1 hx
    by_cases hhash : p = commit.hash
    · obtain ⟨seg, hseg, hphase, hfrom, -⟩ := hincoming x (hhash ▸ hp)
      exact ⟨seg, hseg, by simp [hphase], hfrom⟩
    · obtain ⟨-, seg, hseg, hphase, hfrom, -⟩ := hthrough x p hp hhash
      exact ⟨seg, hseg, by simp [hphase], hfrom⟩
  · rintro ⟨seg, hseg, hphase, rfl⟩
    have := hleads seg hseg
    rcases hp : seg.phase with _ | _ | _ <;> simp only [Leads, hp] at this hphase
    · obtain ⟨-, p, -, -, hunder⟩ := this
      rw [hunder]
      simp
    · exact absurd rfl hphase
    · obtain ⟨-, p, -, hunder⟩ := this
      rw [hunder]
      simp
  · obtain ⟨p, hp⟩ := Option.ne_none_iff_exists'.1 hx
    rcases hbelow.origin x p hp with ⟨habove, hhash⟩ | ⟨rfl, hhead⟩ | ⟨hm, hunique⟩
    · obtain ⟨-, seg, hseg, hphase, -, hto⟩ := hthrough x p habove hhash
      exact ⟨seg, hseg, by simp [hphase], hto⟩
    · rw [head?_eq_getElem?] at hhead
      obtain ⟨y, c, -, hy, hseg⟩ := has_parent (s := s) hhead
      exact ⟨_, mem_segments.2 (.inr ⟨0, p, hhead, hseg⟩), by simp, hy rfl⟩
    · obtain ⟨y, hy, seg, hseg, hphase, -, hto⟩ := houtgoing p (mem_of_mem_tail hm)
      exact ⟨seg, hseg, by simp [hphase], hto.trans (hunique y hy)⟩

end Row

/-! ## The whole layout -/

section Layout
variable {commits : List GraphInputCommit} {commit : GraphInputCommit} {k : Nat}

/-- The lanes above row `k`. -/
def lanesAt (s : Lanes) (commits : List GraphInputCommit) (k : Nat) : Lanes := (commits.take k).foldl below s

theorem lanesAt_succ {s : Lanes} (h : commits[k]? = some commit) :
    lanesAt s commits (k + 1) = below (lanesAt s commits k) commit := by
  obtain ⟨hlt, rfl⟩ := List.getElem?_eq_some_iff.1 h
  rw [lanesAt, take_succ_eq_append_getElem hlt, foldl_concat]
  rfl

theorem layoutRows_get : ∀ (commits : List GraphInputCommit) (s : Lanes) (widest k : Nat),
    (layoutRows s widest commits).1[k]? = commits[k]?.map (rowOf (lanesAt s commits k))
  | [], _, _, _ => rfl
  | commit :: commits, s, widest, 0 => rfl
  | commit :: commits, s, widest, k + 1 => by
    rw [layoutRows, getElem?_cons_succ, getElem?_cons_succ, layoutRows_get]
    rfl

theorem le_layoutRows : ∀ (commits : List GraphInputCommit) (s : Lanes) (widest : Nat),
    widest ≤ (layoutRows s widest commits).2
  | [], _, _ => Nat.le_refl _
  | commit :: commits, s, widest => by
    rw [layoutRows]
    refine Nat.le_trans ?_ (le_layoutRows commits _ _)
    simp only [widen]
    omega

theorem widen_le : ∀ (commits : List GraphInputCommit) (s : Lanes) (widest k : Nat) (commit : GraphInputCommit),
    commits[k]? = some commit → widen 0 (lanesAt s commits k) commit ≤ (layoutRows s widest commits).2
  | first :: commits, s, widest, 0, commit, h => by
    cases h
    rw [layoutRows]
    refine Nat.le_trans ?_ (le_layoutRows commits _ _)
    simp only [widen, lanesAt, take_zero, foldl_nil]
    omega
  | first :: commits, s, widest, k + 1, commit, h => by
    rw [layoutRows]
    exact widen_le commits (below s first) _ k commit h

/-- The line of the edge from row `i` to `p` crosses the boundary above row `k`. -/
def Spans (commits : List GraphInputCommit) (i k : Nat) (p : String) : Prop :=
  i < k ∧ ∀ j target, commits[j]? = some target → target.hash = p → j ≠ i → k ≤ j

/-- **A complete drawing**, `lane i p` being the lane of the edge from row `i` to `p`. -/
structure Drawn (commits : List GraphInputCommit) (layout : GraphLayout) (lane : Nat → String → Nat) : Prop where
  rows : layout.rows.map (·.hash) = commits.map (·.hash)
  leaves : ∀ (i : Nat) commit row, commits[i]? = some commit → layout.rows[i]? = some row → ∀ p ∈ commit.parents,
    Has row .outgoing row.lane (lane i p)
  /-- The line goes through every row before that of `p`, or to the bottom. -/
  passes : ∀ (i : Nat) commit, commits[i]? = some commit → ∀ p ∈ commit.parents, ∀ (k : Nat) row, layout.rows[k]? = some row →
    i < k → Spans commits i (k + 1) p → Has row .through (lane i p) (lane i p)
  arrives : ∀ (i : Nat) commit, commits[i]? = some commit → ∀ p ∈ commit.parents, ∀ (j : Nat) target row,
    commits[j]? = some target → layout.rows[j]? = some row → target.hash = p → j ≠ i →
      i < j ∧ Has row .incoming (lane i p) row.lane
  /-- Across a boundary a lane carries the lines of one commit. -/
  single : ∀ (i i' : Nat) commit commit', commits[i]? = some commit → commits[i']? = some commit' → ∀ p ∈ commit.parents,
    ∀ p' ∈ commit'.parents, ∀ k ≤ commits.length, Spans commits i k p → Spans commits i' k p' → lane i p = lane i' p' → p = p'
  /-- There are no other lines. -/
  lines : ∃ carried : Nat → Nat → Option String, (∀ x, carried 0 x = none) ∧
    ∀ (k : Nat) commit row, commits[k]? = some commit → layout.rows[k]? = some row →
      RowSpec (carried k) (carried (k + 1)) commit row
  boundary : ∀ (k : Nat) row next, layout.rows[k]? = some row → layout.rows[k + 1]? = some next →
    ∀ x, Bottom row x ↔ Top next x
  bounds : ∀ row ∈ layout.rows, row.lane < layout.laneCount ∧
    ∀ seg ∈ row.segments, seg.fromLane < layout.laneCount ∧ seg.toLane < layout.laneCount

theorem rows_get {row : GraphRow} (h : (computeGraphLayout commits).rows[k]? = some row) :
    ∃ commit, commits[k]? = some commit ∧ row = rowOf (lanesAt ⟨[], 0⟩ commits k) commit := by
  rw [computeGraphLayout, layoutRows_get, Option.map_eq_some_iff] at h
  obtain ⟨commit, hcommit, rfl⟩ := h
  exact ⟨commit, hcommit, rfl⟩

theorem row_of_get (h : commits[k]? = some commit) :
    RowSpec (carries (lanesAt ⟨[], 0⟩ commits k).lanes) (carries (lanesAt ⟨[], 0⟩ commits (k + 1)).lanes) commit
      (rowOf (lanesAt ⟨[], 0⟩ commits k) commit) := by
  rw [lanesAt_succ h]
  exact rowSpec _ _

/-- **The lane of an edge is kept for it** as far as its line goes. -/
theorem carries_span {i : Nat}
    (hx : carries (lanesAt ⟨[], 0⟩ commits (i + 1)).lanes x = some p) (hk : k ≤ commits.length)
    (hspan : Spans commits i k p) : carries (lanesAt ⟨[], 0⟩ commits k).lanes x = some p := by
  obtain ⟨hik, hbefore⟩ := hspan
  induction k with
  | zero => omega
  | succ k ih =>
    by_cases hki : k = i
    · rw [hki]
      exact hx
    · have ih := ih (by omega) (by omega) fun j target hj hp hne => Nat.le_of_succ_le (hbefore j target hj hp hne)
      obtain ⟨mid, hmid⟩ : ∃ mid, commits[k]? = some mid := ⟨_, getElem?_eq_getElem (by omega)⟩
      have hne : p ≠ mid.hash := by
        rintro rfl
        have := hbefore k mid hmid rfl hki
        omega
      exact ((row_of_get hmid).through x p ih hne).1

/-- **Every edge is drawn completely.**  An edge to a commit that is not listed further down (because it is missing, or is
the row's own) goes to the bottom. -/
theorem layout_draws (hdistinct : (commits.map (·.hash)).Nodup)
    (horder : ∀ (i j : Nat) commit target, commits[i]? = some commit → commits[j]? = some target → j < i →
      target.hash ∉ commit.parents) :
    ∃ lane, Drawn commits (computeGraphLayout commits) lane := by
  -- the lane of an edge is where it leaves its row
  have hlane : ∀ (i : Nat) (p : String), ∃ x, ∀ commit, commits[i]? = some commit → p ∈ commit.parents →
      carries (lanesAt ⟨[], 0⟩ commits (i + 1)).lanes x = some p ∧
        Has (rowOf (lanesAt ⟨[], 0⟩ commits i) commit) .outgoing (rowOf (lanesAt ⟨[], 0⟩ commits i) commit).lane x := by
    intro i p
    cases hi : commits[i]? with
    | none => exact ⟨0, nofun⟩
    | some commit =>
      by_cases hp : p ∈ commit.parents
      · obtain ⟨x, hx, hseg⟩ := (row_of_get hi).outgoing p hp
        refine ⟨x, fun other h _ => ?_⟩
        cases h
        exact ⟨hx, hseg⟩
      · refine ⟨0, fun other h hm => ?_⟩
        cases h
        exact absurd hm hp
  choose lane hlane using hlane
  have hcarries : ∀ {i : Nat} {commit p}, commits[i]? = some commit → p ∈ commit.parents → ∀ {k}, k ≤ commits.length →
      Spans commits i k p → carries (lanesAt ⟨[], 0⟩ commits k).lanes (lane i p) = some p := fun hi hp _ hk hspan =>
    carries_span (hlane _ _ _ hi hp).1 hk hspan
  have hindex : ∀ {j j' : Nat} {target target'}, commits[j]? = some target → commits[j']? = some target' →
      target.hash = target'.hash → j = j' := by
    intro j j' target target' hj hj' heq
    have hlt : j < (commits.map (·.hash)).length := by
      rw [length_map]
      exact (List.getElem?_eq_some_iff.1 hj).1
    refine (getElem?_inj hlt hdistinct).1 ?_
    rw [getElem?_map, getElem?_map, hj, hj', Option.map_some, Option.map_some, heq]
  refine ⟨lane, ?_, ?_, ?_, ?_, ?_, ?_, ?_, ?_⟩
  · refine ext_getElem? fun k => ?_
    rw [getElem?_map, getElem?_map, computeGraphLayout, layoutRows_get]
    cases commits[k]? <;> rfl
  · intro i commit row hi hrow p hp
    obtain ⟨commit', hi', rfl⟩ := rows_get hrow
    cases hi.symm.trans hi'
    exact (hlane i p commit hi hp).2
  · intro i commit hi p hp k row hrow hik hspan
    obtain ⟨mid, hmid, rfl⟩ := rows_get hrow
    have hlt := (List.getElem?_eq_some_iff.1 hmid).1
    have habove := hcarries hi hp (Nat.le_of_lt hlt) ⟨hik, fun j t hj hh hne => Nat.le_of_succ_le (hspan.2 j t hj hh hne)⟩
    refine ((row_of_get hmid).through _ p habove ?_).2
    rintro rfl
    have := hspan.2 k mid hmid rfl (by omega)
    omega
  · intro i commit hi p hp j target row hj hrow hhash hne
    obtain ⟨target', hj', rfl⟩ := rows_get hrow
    cases hj.symm.trans hj'
    have hij : i < j := by
      by_contra hle
      exact horder i j commit target hi hj (by omega) (hhash ▸ hp)
    refine ⟨hij, (row_of_get hj).incoming _ ?_⟩
    rw [hhash]
    refine hcarries hi hp (Nat.le_of_lt (List.getElem?_eq_some_iff.1 hj).1) ⟨hij, fun j' t hj' hh _ => ?_⟩
    exact Nat.le_of_eq (hindex hj hj' (hhash.trans hh.symm))
  · intro i i' commit commit' hi hi' p hp p' hp' k hk hspan hspan' heq
    have h1 := hcarries hi hp hk hspan
    have h2 := hcarries hi' hp' hk hspan'
    rw [← heq, h1] at h2
    exact Option.some.inj h2
  · refine ⟨fun k => carries (lanesAt ⟨[], 0⟩ commits k).lanes, fun x => rfl, ?_⟩
    intro k commit row hk hrow
    obtain ⟨commit', hk', rfl⟩ := rows_get hrow
    cases hk.symm.trans hk'
    exact row_of_get hk
  · intro k row next hrow hnext x
    obtain ⟨commit, hk, rfl⟩ := rows_get hrow
    obtain ⟨commit', hk', rfl⟩ := rows_get hnext
    rw [(row_of_get hk).bottom, (row_of_get hk').top]
  · intro row hrow
    obtain ⟨k, hrow⟩ := mem_iff_getElem?.1 hrow
    obtain ⟨commit, hk, rfl⟩ := rows_get hrow
    have hwide := widen_le commits ⟨[], 0⟩ 0 k commit hk
    have hspec := row_of_get hk
    have habove : ∀ {x}, carries (lanesAt ⟨[], 0⟩ commits k).lanes x ≠ none → x < (computeGraphLayout commits).laneCount := by
      intro x hx
      have := lt_of_carries hx
      simp only [widen] at hwide
      simp only [computeGraphLayout]
      omega
    have hunder : ∀ {x}, carries (lanesAt ⟨[], 0⟩ commits (k + 1)).lanes x ≠ none →
        x < (computeGraphLayout commits).laneCount := by
      intro x hx
      rw [lanesAt_succ hk] at hx
      have := lt_of_carries hx
      simp only [widen] at hwide
      simp only [computeGraphLayout]
      omega
    have hnode : (rowOf (lanesAt ⟨[], 0⟩ commits k) commit).lane < (computeGraphLayout commits).laneCount := by
      simp only [widen] at hwide
      simp only [computeGraphLayout]
      omega
    refine ⟨hnode, fun seg hseg => ?_⟩
    have hleads := hspec.leads seg hseg
    rcases hphase : seg.phase with _ | _ | _ <;> simp only [Leads, hphase] at hleads
    · obtain ⟨-, p, -, h1, h2⟩ := hleads
      exact ⟨habove (by simp [h1]), hunder (by simp [h2])⟩
    · rw [hleads.1]
      exact ⟨habove (by simp [hleads.2]), hnode⟩
    · obtain ⟨hfrom, p, -, h2⟩ := hleads
      rw [hfrom]
      exact ⟨hnode, hunder (by simp [h2])⟩

/-- A merge of a branch into its trunk. -/
theorem layout_draws_merge : ∃ lane, Drawn [⟨"c", ["a", "b"]⟩, ⟨"b", ["a"]⟩, ⟨"a", []⟩]
      (computeGraphLayout [⟨"c", ["a", "b"]⟩, ⟨"b", ["a"]⟩, ⟨"a", []⟩]) lane := by
  refine layout_draws (by decide) ?_
  intro i j commit target hi hj hji
  have hi3 := (List.getElem?_eq_some_iff.1 hi).1
  simp only [length_cons, length_nil] at hi3
  obtain rfl | rfl | rfl : i = 0 ∨ i = 1 ∨ i = 2 := by omega
  · omega
  · obtain rfl : j = 0 := by omega
    cases hi
    cases hj
    decide
  · cases hi
    exact not_mem_nil

end Layout

/-! ## Colours -/

/-- The lanes that wait have different colours, all of them handed out. -/
structure Tinted (s : Lanes) : Prop where
  handedOut : ∀ (x : Nat) (p : String) (c : Nat), s.lanes[x]? = some ⟨some p, c⟩ → c < s.nextColorIdx
  apart : ∀ (x y : Nat) (p q : String) (c : Nat), s.lanes[x]? = some ⟨some p, c⟩ → s.lanes[y]? = some ⟨some q, c⟩ → x = y

section Colours

variable {s : Lanes} {k : Nat}

theorem Tinted.keep (h : Tinted s) {t : Lanes} (hnext : s.nextColorIdx ≤ t.nextColorIdx)
    (hkeep : ∀ (x : Nat) (p : String) (c : Nat), t.lanes[x]? = some ⟨some p, c⟩ → ∃ q, s.lanes[x]? = some ⟨some q, c⟩) :
    Tinted t where
  handedOut x p c hx := by
    obtain ⟨q, hq⟩ := hkeep x p c hx
    exact Nat.lt_of_lt_of_le (h.handedOut x q c hq) hnext
  apart x y p q c hx hy := by
    obtain ⟨p', hp⟩ := hkeep x p c hx
    obtain ⟨q', hq⟩ := hkeep y q c hy
    exact h.apart x y p' q' c hp hq

theorem Tinted.alloc (h : Tinted s) (parent : String) :
    Tinted ⟨(allocLane s.lanes parent s.nextColorIdx).2, s.nextColorIdx + 1⟩ := by
  have hnew := allocLane_get s.lanes parent s.nextColorIdx
  -- a lane is the new one, of the next colour, or was there
  have hcases : ∀ (x : Nat) (p : String) (c : Nat),
      (allocLane s.lanes parent s.nextColorIdx).2[x]? = some ⟨some p, c⟩ →
      (x = (allocLane s.lanes parent s.nextColorIdx).1 ∧ c = s.nextColorIdx) ∨
        (s.lanes[x]? = some ⟨some p, c⟩ ∧ c < s.nextColorIdx) := by
    intro x p c hx
    by_cases hne : x = (allocLane s.lanes parent s.nextColorIdx).1
    · rw [hne, hnew] at hx
      cases hx
      exact .inl ⟨hne, rfl⟩
    · rw [allocLane_other hne] at hx
      exact .inr ⟨hx, h.handedOut x p c hx⟩
  refine ⟨fun x p c hx => ?_, fun x y p q c hx hy => ?_⟩
  · rcases hcases x p c hx with ⟨-, rfl⟩ | ⟨-, hc⟩
    · exact Nat.lt_succ_self _
    · exact Nat.lt_succ_of_lt hc
  · rcases hcases x p c hx with ⟨rfl, hc⟩ | ⟨hx, hc⟩ <;> rcases hcases y q c hy with ⟨rfl, hc'⟩ | ⟨hy, hc'⟩
    · rfl
    · omega
    · omega
    · exact h.apart x y p q c hx hy

theorem Tinted.nodeOf (h : Tinted s) (hash : String) : Tinted (nodeOf s hash).2.2 ∧
    (Graph.nodeOf s hash).2.2.lanes[(Graph.nodeOf s hash).1]? = some ⟨some hash, (Graph.nodeOf s hash).2.1⟩ := by
  unfold Graph.nodeOf
  cases hwait : waiting s.lanes hash with
  | nil => exact ⟨h.alloc hash, allocLane_get ..⟩
  | cons node rest =>
    have hnodup : (node :: rest).Nodup := by
      rw [← hwait, waiting]
      refine Nodup.sublist (filter_sublist.map _) ?_
      rw [zipIdx_map_snd]
      exact nodup_range'
    obtain ⟨c, hc⟩ := carries_eq.1 (mem_waiting.1 (hwait ▸ mem_cons_self : node ∈ waiting s.lanes hash))
    refine ⟨h.keep (Nat.le_refl _) fun x p c hx => ⟨p, ?_⟩, ?_⟩
    · by_cases hm : x ∈ rest
      · have := closeLanes_closed s.lanes hm
        rw [carries_eq.2 ⟨c, hx⟩] at this
        cases this
      · rwa [closeLanes_other _ hm] at hx
    · simp only [closeLanes_other _ (nodup_cons.1 hnodup).1, hc, Option.map_some, Option.getD_some]

theorem Tinted.below (h : Tinted s) (commit : GraphInputCommit) : Tinted (below s commit) := by
  obtain ⟨hnode, hat⟩ := h.nodeOf commit.hash
  have hheld : Tinted { (Graph.nodeOf s commit.hash).2.2 with
      lanes := (Graph.nodeOf s commit.hash).2.2.lanes.set (Graph.nodeOf s commit.hash).1
        ⟨commit.parents.head?, (Graph.nodeOf s commit.hash).2.1⟩ } := by
    refine hnode.keep (Nat.le_refl _) fun x p c hx => ?_
    by_cases hne : (Graph.nodeOf s commit.hash).1 = x
    · subst hne
      rw [getElem?_set_self (List.getElem?_eq_some_iff.1 hat).1, Option.some.injEq, Lane.mk.injEq] at hx
      exact ⟨commit.hash, hx.2 ▸ hat⟩
    · exact ⟨p, by rwa [getElem?_set_ne hne] at hx⟩
  have hopened : ∀ (parents : List String) {t : Lanes}, Tinted t → Tinted (parents.foldl addParent t) := by
    intro parents
    induction parents with
    | nil => exact id
    | cons parent parents ih =>
      intro t ht
      refine ih ?_
      unfold addParent
      split
      · exact ht
      · exact ht.alloc parent
  exact (hopened _ hheld).keep (Nat.le_refl _) fun x p c hx => ⟨p, (trim_get _).1 hx⟩

theorem tinted_lanesAt (commits : List GraphInputCommit) : Tinted (lanesAt ⟨[], 0⟩ commits k) := by
  unfold lanesAt
  induction commits.take k using List.reverseRecOn with
  | nil => exact ⟨by simp, by simp⟩
  | append_singleton commits commit ih =>
    rw [foldl_append]
    exact ih.below commit

/-- A line has the colour of its lane. -/
theorem segment_colour {commit : GraphInputCommit} {seg : GraphSegment} (hseg : seg ∈ (rowOf s commit).segments) :
    (seg.phase ≠ .outgoing → ∃ p, s.lanes[seg.fromLane]? = some ⟨some p, seg.colorIdx⟩) ∧
      (seg.phase ≠ .incoming → ∃ p, (below s commit).lanes[seg.toLane]? = some ⟨some p, seg.colorIdx⟩) := by
  rcases mem_segments.1 hseg with ⟨x, ⟨parent, c⟩, hx, hthrough⟩ | ⟨k, p, hk, hparent⟩
  · cases parent with
    | none => cases hthrough
    | some p =>
      by_cases hp : p = commit.hash
      · rw [throughSegment] at hthrough
        simp only [if_pos hp, Option.some.injEq] at hthrough
        subst hthrough
        exact ⟨fun _ => ⟨p, hx⟩, fun h => absurd rfl h⟩
      · cases (has_through hx hp).symm.trans hthrough
        exact ⟨fun _ => ⟨p, hx⟩, fun _ => ⟨p, (below_spec s commit).keeps x p c hx hp⟩⟩
  · obtain ⟨x, c, hx, -, hsome⟩ := has_parent hk
    obtain ⟨c', hc'⟩ := carries_eq.1 hx
    rw [parentSegment] at hsome hparent
    cases hsome.symm.trans hparent
    obtain ⟨target, -, htarget⟩ := Option.bind_eq_some_iff.1 hsome
    obtain ⟨lane, hlane, heq⟩ := Option.map_eq_some_iff.1 htarget
    cases heq
    cases hc'.symm.trans hlane
    exact ⟨fun h => absurd rfl h, fun _ => ⟨p, hc'⟩⟩


/-- **Lines are told apart by their colours**: at every boundary between two rows each lane with a line has one colour, in
which all its lines above and below are drawn, and no other lane has that colour. -/
theorem layout_colours (commits : List GraphInputCommit) : ∃ colour : Nat → Nat → Option Nat,
    (∀ k x y c, colour k x = some c → colour k y = some c → x = y) ∧
    ∀ (k : Nat) row, (computeGraphLayout commits).rows[k]? = some row → ∀ seg ∈ row.segments,
      (seg.phase ≠ .outgoing → colour k seg.fromLane = some seg.colorIdx) ∧
      (seg.phase ≠ .incoming → colour (k + 1) seg.toLane = some seg.colorIdx) := by
  let colour (k x : Nat) := ((lanesAt ⟨[], 0⟩ commits k).lanes[x]?.filter (·.parent.isSome)).map Lane.colorIdx
  have hcolour : ∀ k x c, colour k x = some c ↔ ∃ p, (lanesAt ⟨[], 0⟩ commits k).lanes[x]? = some ⟨some p, c⟩ := by
    intro k x c
    simp only [colour]
    rcases (lanesAt ⟨[], 0⟩ commits k).lanes[x]? with _ | ⟨_ | q, d⟩ <;> simp [Option.filter]
  refine ⟨colour, fun k x y c hx hy => ?_, fun k row hrow seg hseg => ?_⟩
  · obtain ⟨p, hp⟩ := (hcolour k x c).1 hx
    obtain ⟨q, hq⟩ := (hcolour k y c).1 hy
    exact (tinted_lanesAt commits).apart x y p q c hp hq
  · obtain ⟨commit, hcommit, rfl⟩ := rows_get hrow
    rw [hcolour, hcolour, lanesAt_succ hcommit]
    exact segment_colour hseg

end Colours

/-! ## More commits -/

theorem layoutRows_append (more : List GraphInputCommit) : ∀ (commits : List GraphInputCommit) (s : Lanes) (widest : Nat),
    layoutRows s widest (commits ++ more) =
      let rest := layoutRows (commits.foldl below s) (layoutRows s widest commits).2 more
      ((layoutRows s widest commits).1 ++ rest.1, rest.2)
  | [], _, _ => rfl
  | commit :: commits, s, widest => by
    rw [cons_append, layoutRows, layoutRows_append more commits]
    rfl

end Graph
end Yuzora
