import Yuzora.Table
/-!
# Regroup — a list put into the order of given keys

The first item of each key is taken, those of the wanted keys in the order of these, the others as they come.  Behind them
stand the items without a key and those whose key was there before.  No item is lost (`regroup_perm`), the wanted keys
come in their order (`regroup_keys`), and a list that was regrouped stays (`regroup_regroup`).
-/
namespace Yuzora
namespace Regroup

open List Table

variable {K T : Type} [DecidableEq K] (key : T → Option K)

def collect (current : List T) : Table K T × List T :=
  current.foldl (fun r x =>
    match key x with
    | some k => if r.1.contains k then (r.1, r.2 ++ [x]) else (r.1.insert k x, r.2)
    | none => (r.1, r.2 ++ [x])) (Table.empty, [])

/-- The items of the wanted keys in their order, and what is left over. -/
def takeWanted : List K → Table K T → List T × Table K T
  | [], leftover => ([], leftover)
  | k :: wanted, leftover =>
    match leftover.get k with
    | none => takeWanted wanted leftover
    | some x =>
      let r := takeWanted wanted (leftover.erase k)
      (x :: r.1, r.2)

def takeLeftover : List T → Table K T → List T
  | [], _ => []
  | x :: current, leftover =>
    match key x with
    | some k =>
      if leftover.contains k then x :: takeLeftover current (leftover.erase k) else takeLeftover current leftover
    | none => takeLeftover current leftover

variable (wanted : List K)

def regroup (current : List T) : List T :=
  let collected := collect key current
  let desired := takeWanted wanted collected.1
  desired.1 ++ takeLeftover key current desired.2 ++ collected.2

/-! ## First items -/

def isFirst (seen : List K) (x : T) : Bool := (key x).any fun k => decide (k ∉ seen)

def firsts : List K → List T → List T
  | _, [] => []
  | seen, x :: c =>
    if isFirst key seen x then x :: firsts ((key x).toList ++ seen) c else firsts ((key x).toList ++ seen) c

def others : List K → List T → List T
  | _, [] => []
  | seen, x :: c =>
    if isFirst key seen x then others ((key x).toList ++ seen) c else x :: others ((key x).toList ++ seen) c

def first (c : List T) (k : K) : Option T := c.find? fun x => decide (key x = some k)

variable {key}

variable {seen : List K} {seen' : List K}

theorem isFirst_congr (h : ∀ k, k ∈ seen ↔ k ∈ seen') (x : T) : isFirst key seen x = isFirst key seen' x := by
  simp only [isFirst, h]

omit [DecidableEq K] in
theorem mem_seen_congr (h : ∀ k, k ∈ seen ↔ k ∈ seen') (o : Option K) (k : K) :
    k ∈ o.toList ++ seen ↔ k ∈ o.toList ++ seen' := by
  rw [mem_append, mem_append, h k]

theorem firsts_congr : ∀ (c : List T) {seen seen' : List K}, (∀ k, k ∈ seen ↔ k ∈ seen') →
    firsts key seen c = firsts key seen' c ∧ others key seen c = others key seen' c
  | [], _, _, _ => ⟨rfl, rfl⟩
  | x :: c, seen, seen', h => by
    obtain ⟨hf, ho⟩ := firsts_congr c (mem_seen_congr h (key x))
    rw [firsts, firsts, others, others, isFirst_congr h, hf, ho]
    exact ⟨rfl, rfl⟩

theorem firsts_append (a b : List T) (seen : List K) :
    firsts key seen (a ++ b) = firsts key seen a ++ firsts key (a.filterMap key ++ seen) b ∧
      others key seen (a ++ b) = others key seen a ++ others key (a.filterMap key ++ seen) b := by
  induction a generalizing seen with
  | nil => exact ⟨rfl, rfl⟩
  | cons x a ih =>
    obtain ⟨hf, ho⟩ := ih ((key x).toList ++ seen)
    have hseen : ∀ k, k ∈ a.filterMap key ++ ((key x).toList ++ seen) ↔ k ∈ (x :: a).filterMap key ++ seen := by
      intro k
      cases hx : key x with
      | none => simp [hx]
      | some j =>
        grind
    obtain ⟨hf', ho'⟩ := firsts_congr b hseen
    rw [cons_append, firsts, others, hf, ho, hf', ho', firsts, others]
    by_cases h : isFirst key seen x = true
    · simp only [if_pos h, cons_append, and_self]
    · simp only [if_neg h, cons_append, and_self]

theorem firsts_others_perm (c : List T) (seen : List K) : (firsts key seen c ++ others key seen c).Perm c := by
  induction c generalizing seen with
  | nil => exact .nil
  | cons x c ih =>
    rw [firsts, others]
    by_cases h : isFirst key seen x = true
    · rw [if_pos h, if_pos h]
      exact (ih _).cons x
    · rw [if_neg h, if_neg h]
      exact perm_middle.trans ((ih _).cons x)

variable {c : List T} {x : T}

theorem mem_firsts : x ∈ firsts key seen c ↔ ∃ k, key x = some k ∧ k ∉ seen ∧ first key c k = some x := by
  induction c generalizing seen with
  | nil => simp [firsts, first]
  | cons y c ih =>
    rw [firsts]
    by_cases h : isFirst key seen y = true
    · obtain ⟨j, hj, hnew⟩ := (Option.any_eq_true _ _).1 h
      have hnew : j ∉ seen := of_decide_eq_true hnew
      rw [if_pos h, mem_cons, ih]
      simp only [hj, Option.toList_some, mem_append, mem_singleton, first, find?_cons]
      constructor
      · rintro (rfl | ⟨k, hk, hs, hf⟩)
        · exact ⟨j, hj, hnew, by simp⟩
        · have hne : j ≠ k := fun heq => hs (.inl heq.symm)
          exact ⟨k, hk, fun hm => hs (.inr hm), by simpa [hj, hne] using hf⟩
      · rintro ⟨k, hk, hs, hf⟩
        by_cases heq : j = k
        · subst heq
          exact .inl (by simpa [hj] using hf.symm)
        · exact .inr ⟨k, hk, by simpa [hs] using Ne.symm heq, by simpa [hj, heq] using hf⟩
    · rw [if_neg h, ih]
      have hold : ∀ k, key y = some k → k ∈ seen := by
        intro k hk
        by_contra hnew
        exact h (by simpa [isFirst, hk] using hnew)
      simp only [first, find?_cons, mem_append]
      constructor
      · rintro ⟨k, hk, hs, hf⟩
        have hne : key y ≠ some k := fun heq => hs (.inr (hold k heq))
        exact ⟨k, hk, fun hm => hs (.inr hm), by simpa [hne] using hf⟩
      · rintro ⟨k, hk, hs, hf⟩
        have hne : key y ≠ some k := fun heq => hs (hold k heq)
        refine ⟨k, hk, ?_, by simpa [hne] using hf⟩
        rintro (hm | hm)
        · exact hne (Option.mem_toList.1 hm)
        · exact hs hm

theorem first_key {k : K} (h : first key c k = some x) : key x = some k := by
  simpa using find?_some h

theorem first_isSome {k : K} (h : k ∈ c.filterMap key) : ∃ x, first key c k = some x := by
  obtain ⟨x, hx, hk⟩ := mem_filterMap.1 h
  cases hf : first key c k with
  | some y => exact ⟨y, rfl⟩
  | none => exact absurd (find?_eq_none.1 hf x hx) (by simpa using hk)

theorem keys_firsts_nodup (c : List T) (seen : List K) : ((firsts key seen c).filterMap key).Nodup := by
  induction c generalizing seen with
  | nil => exact nodup_nil
  | cons x c ih =>
    rw [firsts]
    by_cases h : isFirst key seen x = true
    · obtain ⟨j, hj, -⟩ := (Option.any_eq_true _ _).1 h
      rw [if_pos h, filterMap_cons_some hj, nodup_cons]
      refine ⟨fun hm => ?_, ih _⟩
      obtain ⟨y, hy, hk⟩ := mem_filterMap.1 hm
      obtain ⟨k, hk', hs, -⟩ := mem_firsts.1 hy
      cases hk.symm.trans hk'
      exact hs (by simp [hj])
    · rw [if_neg h]
      exact ih _

theorem mem_others (h : x ∈ others key seen c) (k : K) (hk : key x = some k) :
    k ∈ (firsts key seen c).filterMap key ++ seen := by
  induction c generalizing seen with
  | nil => cases h
  | cons y c ih =>
    rw [firsts]
    rw [others] at h
    by_cases hy : isFirst key seen y = true
    · rw [if_pos hy] at h ⊢
      grind
    · rw [if_neg hy] at h ⊢
      have hold : ∀ k, key y = some k → k ∈ seen := by
        intro k hk
        by_contra hnew
        exact hy (by simpa [isFirst, hk] using hnew)
      rcases mem_cons.1 h with rfl | h
      · exact mem_append_right _ (hold k hk)
      · rcases mem_append.1 (ih h) with hm | hm
        · exact mem_append_left _ hm
        · rcases mem_append.1 hm with hm | hm
          · exact mem_append_right _ (hold k (Option.mem_toList.1 hm))
          · exact mem_append_right _ hm

/-! ## The loops -/

theorem collect_from (c : List T) (leftover : Table K T) (unmatched : List T) (seen : List K)
    (hseen : ∀ k, leftover.contains k = true ↔ k ∈ seen) :
    let r := c.foldl (fun r x =>
      match key x with
      | some k => if r.1.contains k then (r.1, r.2 ++ [x]) else (r.1.insert k x, r.2)
      | none => (r.1, r.2 ++ [x])) (leftover, unmatched)
    r.2 = unmatched ++ others key seen c ∧ ∀ k, r.1.get k = (leftover.get k).or (first key c k) := by
  induction c generalizing leftover unmatched seen with
  | nil => simp [others, first]
  | cons x c ih =>
    rw [foldl_cons, others]
    cases hx : key x with
    | none =>
      have hnot : isFirst key seen x = false := by simp [isFirst, hx]
      obtain ⟨h, h'⟩ := ih leftover (unmatched ++ [x]) seen hseen
      simp only [hnot, Bool.false_eq_true, if_false, Option.toList_none, nil_append]
      refine ⟨h.trans (append_assoc ..), fun k => (h' k).trans ?_⟩
      simp [first, hx]
    | some j =>
      by_cases hj : leftover.contains j = true
      · have hold := (hseen j).1 hj
        have hnot : isFirst key seen x = false := by simp [isFirst, hx, hold]
        have hsame : ∀ k, leftover.contains k = true ↔ k ∈ [j] ++ seen := by
          intro k
          rw [hseen k, mem_append, mem_singleton]
          exact ⟨.inr, fun h => h.elim (fun heq => heq ▸ hold) id⟩
        obtain ⟨h, h'⟩ := ih leftover (unmatched ++ [x]) _ hsame
        simp only [hj, if_true, hnot, Bool.false_eq_true, if_false, Option.toList_some]
        refine ⟨h.trans (append_assoc ..), fun k => (h' k).trans ?_⟩
        by_cases hk : j = k
        · subst hk
          obtain ⟨y, hy⟩ := contains_eq_true.1 hj
          simp [hy]
        · simp [first, hx, hk]
      · have hnew : j ∉ seen := fun h => hj ((hseen j).2 h)
        have his : isFirst key seen x = true := by simp [isFirst, hx, hnew]
        have hmore : ∀ k, (leftover.insert j x).contains k = true ↔ k ∈ [j] ++ seen := by
          intro k
          rw [contains_eq_true, mem_append, mem_singleton, ← hseen k, contains_eq_true,
            get_insert]
          by_cases hk : k = j <;> simp [hk]
        obtain ⟨h, h'⟩ := ih (leftover.insert j x) unmatched _ hmore
        simp only [hj, Bool.false_eq_true, if_false, his, if_true, Option.toList_some]
        refine ⟨h, fun k => (h' k).trans ?_⟩
        rw [get_insert]
        by_cases hk : k = j
        · subst hk
          have hnone : leftover.get k = none := by simpa [Table.contains] using hj
          simp [hnone, first, hx]
        · simp [hk, first, hx, Ne.symm hk]

theorem collect_spec (c : List T) :
    (collect key c).2 = others key [] c ∧ ∀ k, (collect key c).1.get k = first key c k := by
  obtain ⟨h, h'⟩ := @collect_from K T _ key c Table.empty [] [] (by simp [Table.contains])
  exact ⟨h, h'⟩

theorem takeWanted_spec (leftover : Table K T) (hwanted : wanted.Nodup) :
    (takeWanted wanted leftover).1 = wanted.filterMap leftover.get ∧
      ∀ k, (takeWanted wanted leftover).2.get k = if k ∈ wanted then none else leftover.get k := by
  induction wanted generalizing leftover with
  | nil => simp [takeWanted]
  | cons j wanted ih =>
    obtain ⟨hj, hwanted⟩ := nodup_cons.1 hwanted
    rw [takeWanted]
    cases hg : leftover.get j with
    | none =>
      obtain ⟨h, h'⟩ := ih leftover hwanted
      refine ⟨by rw [h, filterMap_cons_none hg], fun k => (h' k).trans ?_⟩
      by_cases hk : k = j
      · subst hk
        simp [hg]
      · simp [hk]
    | some x =>
      obtain ⟨h, h'⟩ := ih (leftover.erase j) hwanted
      refine ⟨?_, fun k => (h' k).trans ?_⟩
      · simp only [h, filterMap_cons_some hg, List.cons.injEq, true_and]
        refine filterMap_congr fun k hk => ?_
        have hne : k ≠ j := by
          rintro rfl
          exact hj hk
        rw [get_erase, if_neg hne]
      · rw [get_erase]
        by_cases hk : k = j <;> simp [hk]

theorem takeLeftover_spec (c : List T) (leftover : Table K T) (seen : List K)
    (h : ∀ k ∈ c.filterMap key, leftover.contains k = true ↔ k ∉ wanted ∧ k ∉ seen) :
    takeLeftover key c leftover = (firsts key seen c).filter fun x => (key x).any fun k => decide (k ∉ wanted) := by
  induction c generalizing leftover seen with
  | nil => rfl
  | cons x c ih =>
    rw [takeLeftover, firsts]
    cases hx : key x with
    | none =>
      rw [filterMap_cons_none hx] at h
      simpa [isFirst, hx] using ih leftover seen h
    | some j =>
      rw [filterMap_cons_some hx] at h
      have hj := h j mem_cons_self
      have hrest : ∀ (leftover' : Table K T), (∀ k, leftover'.contains k = true ↔ leftover.contains k = true ∧ k ≠ j) →
          ∀ k ∈ c.filterMap key, leftover'.contains k = true ↔ k ∉ wanted ∧ k ∉ [j] ++ seen := by
        intro leftover' hl k hk
        grind
      by_cases hc : leftover.contains j = true
      · obtain ⟨hw, hs⟩ := hj.1 hc
        have hthis := ih (leftover.erase j) ([j] ++ seen) (hrest _ fun k => by
          rw [contains_eq_true, contains_eq_true, get_erase]
          by_cases hk : k = j <;> simp [hk])
        simp [isFirst, hx, hs, hc, hw, hthis]
      · have hthis := ih leftover ([j] ++ seen) (hrest _ fun k => by
          constructor
          · intro hk
            refine ⟨hk, ?_⟩
            rintro rfl
            exact hc hk
          · exact And.left)
        simp only [hc, Bool.false_eq_true, if_false, Option.toList_some, hthis]
        by_cases hs : isFirst key seen x = true
        · -- then the key is a wanted one
          have hnew : j ∉ seen := by simpa [isFirst, hx] using hs
          have hw : j ∈ wanted := by
            by_contra hw
            exact hc (hj.2 ⟨hw, hnew⟩)
          simp [hs, hx, hw]
        · rw [if_neg hs]

variable {wanted : List K}

/-- **What regrouping comes to.** -/
theorem regroup_eq (hwanted : wanted.Nodup) (c : List T) : regroup key wanted c = wanted.filterMap (first key c) ++
      (firsts key [] c).filter (fun x => (key x).any fun k => decide (k ∉ wanted)) ++ others key [] c := by
  obtain ⟨hu, hl⟩ := @collect_spec K T _ key c
  obtain ⟨hd, hr⟩ := takeWanted_spec wanted (collect key c).1 hwanted
  have hrest := @takeLeftover_spec K T _ key wanted c (takeWanted wanted (collect key c).1).2 [] fun k hk => by
    obtain ⟨x, hx⟩ := first_isSome hk
    rw [contains_eq_true, hr, hl, hx]
    by_cases hw : k ∈ wanted <;> simp [hw]
  rw [regroup, hd, hrest, hu, show (collect key c).1.get = first key c from funext hl]

theorem firsts_nodup (c : List T) (seen : List K) : (firsts key seen c).Nodup := by
  induction c generalizing seen with
  | nil => exact nodup_nil
  | cons x c ih =>
    rw [firsts]
    by_cases h : isFirst key seen x = true
    · rw [if_pos h, nodup_cons]
      refine ⟨fun hm => ?_, ih _⟩
      obtain ⟨k, hk, hs, -⟩ := mem_firsts.1 hm
      exact hs (by simp [hk])
    · rw [if_neg h]
      exact ih _

theorem wanted_perm (hwanted : wanted.Nodup) (c : List T) : (wanted.filterMap (first key c)).Perm
      ((firsts key [] c).filter fun x => (key x).any fun k => decide (k ∈ wanted)) := by
  have hnodup : (wanted.filterMap (first key c)).Nodup := hwanted.filterMap fun k k' x hx hx' =>
    Option.some.inj ((first_key hx).symm.trans (first_key hx'))
  refine (perm_ext_iff_of_nodup hnodup ((firsts_nodup c []).filter _)).2 fun x => ?_
  rw [mem_filterMap, mem_filter, mem_firsts]
  constructor
  · rintro ⟨k, hk, hx⟩
    exact ⟨⟨k, first_key hx, not_mem_nil, hx⟩, by simp [first_key hx, hk]⟩
  · rintro ⟨⟨k, hk, -, hx⟩, hw⟩
    exact ⟨k, by simpa [hk] using hw, hx⟩

theorem first_items_perm (hwanted : wanted.Nodup) (c : List T) : (wanted.filterMap (first key c) ++
      (firsts key [] c).filter fun x => (key x).any fun k => decide (k ∉ wanted)).Perm (firsts key [] c) := by
  have hnot : (firsts key [] c).filter (fun x => (key x).any fun k => decide (k ∉ wanted)) =
      (firsts key [] c).filter fun x => !(key x).any fun k => decide (k ∈ wanted) := by
    refine filter_congr fun x hx => ?_
    obtain ⟨k, hk, -⟩ := mem_firsts.1 hx
    simp [hk]
  rw [hnot]
  exact ((wanted_perm hwanted c).append_right _).trans (filter_append_perm _ _)

/-- **Nothing is lost.** -/
theorem regroup_perm (hwanted : wanted.Nodup) (c : List T) : (regroup key wanted c).Perm c := by
  rw [regroup_eq hwanted]
  exact ((first_items_perm hwanted c).append_right _).trans (firsts_others_perm c [])

/-- **The wanted keys come in their order**, where each is the key of one item at most. -/
theorem regroup_keys (hwanted : wanted.Nodup) (c : List T) (hone : ∀ k ∈ wanted, (c.filterMap key).count k ≤ 1) :
    ((regroup key wanted c).filterMap key).filter (fun k => decide (k ∈ wanted)) =
      wanted.filter fun k => decide (k ∈ c.filterMap key) := by
  have hfirst : ∀ ks : List K, (ks.filterMap (first key c)).filterMap key =
      ks.filter fun k => decide (k ∈ c.filterMap key) := by
    intro ks
    induction ks with
    | nil => rfl
    | cons k ks ih =>
      by_cases hk : k ∈ c.filterMap key
      · obtain ⟨x, hx⟩ := first_isSome hk
        rw [filterMap_cons_some hx, filterMap_cons_some (first_key hx), ih, filter_cons,
          if_pos (by simpa using hk)]
      · have hx : first key c k = none := by
          cases hx : first key c k with
          | none => rfl
          | some x => exact absurd (mem_filterMap.2 ⟨x, mem_of_find?_eq_some hx, first_key hx⟩) hk
        rw [filterMap_cons_none hx, ih, filter_cons_of_neg (by simpa using hk)]
  have hleft : (((firsts key [] c).filter fun x => (key x).any fun k => decide (k ∉ wanted)).filterMap key).filter
      (fun k => decide (k ∈ wanted)) = [] := by
    refine filter_eq_nil_iff.2 fun k hk => ?_
    obtain ⟨x, hx, hk⟩ := mem_filterMap.1 hk
    simpa [hk] using (mem_filter.1 hx).2
  -- a wanted key among the others would be there twice
  have hothers : ((others key [] c).filterMap key).filter (fun k => decide (k ∈ wanted)) = [] := by
    refine filter_eq_nil_iff.2 fun k hk hw => ?_
    obtain ⟨x, hx, hkx⟩ := mem_filterMap.1 hk
    have hfirsts : k ∈ (firsts key [] c).filterMap key := by simpa using mem_others hx k hkx
    have hcount := ((@firsts_others_perm K T _ key c []).filterMap key).count_eq k
    rw [filterMap_append, count_append] at hcount
    have hle := hone k (of_decide_eq_true hw)
    have h₁ := count_pos_iff.2 hfirsts
    have h₂ := count_pos_iff.2 hk
    omega
  rw [regroup_eq hwanted, filterMap_append, filterMap_append, filter_append, filter_append, hleft,
    hothers, hfirst, append_nil, append_nil, filter_eq_self]
  intro k hk
  exact decide_eq_true (mem_of_mem_filter hk)

/-! ## Twice -/

theorem firsts_of_nodup (a : List T) (seen : List K) (hkeys : ∀ x ∈ a, ∃ k, key x = some k ∧ k ∉ seen)
    (hnodup : (a.filterMap key).Nodup) : firsts key seen a = a ∧ others key seen a = [] := by
  induction a generalizing seen with
  | nil => exact ⟨rfl, rfl⟩
  | cons x a ih =>
    obtain ⟨j, hj, hnew⟩ := hkeys x mem_cons_self
    rw [filterMap_cons_some hj, nodup_cons] at hnodup
    have hfirst : isFirst key seen x = true := by simp [isFirst, hj, hnew]
    obtain ⟨hf, ho⟩ := ih ([j] ++ seen) (fun y hy => by
      obtain ⟨k, hk, hs⟩ := hkeys y (mem_cons_of_mem _ hy)
      refine ⟨k, hk, fun hm => ?_⟩
      rcases mem_append.1 hm with hm | hm
      · rw [mem_singleton.1 hm] at hk
        exact hnodup.1 (mem_filterMap.2 ⟨y, hy, hk⟩)
      · exact hs hm) hnodup.2
    rw [firsts, others, if_pos hfirst, if_pos hfirst, hj, Option.toList_some, hf, ho]
    exact ⟨rfl, rfl⟩

theorem others_of_seen (a : List T) (seen : List K) (h : ∀ x ∈ a, ∀ k, key x = some k → k ∈ seen) :
    firsts key seen a = [] ∧ others key seen a = a := by
  induction a generalizing seen with
  | nil => exact ⟨rfl, rfl⟩
  | cons x a ih =>
    have hnot : ¬ isFirst key seen x = true := by
      intro hx
      obtain ⟨k, hk, hnew⟩ := (Option.any_eq_true _ _).1 hx
      exact of_decide_eq_true hnew (h x mem_cons_self k hk)
    obtain ⟨hf, ho⟩ := ih ((key x).toList ++ seen) fun y hy k hk =>
      mem_append_right _ (h y (mem_cons_of_mem _ hy) k hk)
    rw [firsts, others, if_neg hnot, if_neg hnot, hf, ho]
    exact ⟨rfl, rfl⟩

theorem firsts_regroup (hwanted : wanted.Nodup) (c : List T) :
    firsts key [] (regroup key wanted c) = wanted.filterMap (first key c) ++
        (firsts key [] c).filter (fun x => (key x).any fun k => decide (k ∉ wanted)) ∧
      others key [] (regroup key wanted c) = others key [] c := by
  have hperm := @first_items_perm K T _ key wanted hwanted c
  rw [regroup_eq hwanted]
  generalize wanted.filterMap (first key c) ++
    (firsts key [] c).filter (fun x => (key x).any fun k => decide (k ∉ wanted)) = items at hperm ⊢
  obtain ⟨hf, ho⟩ := @firsts_append K T _ key items (others key [] c) []
  obtain ⟨hf', ho'⟩ := @firsts_of_nodup K T _ key items [] (fun x hx => by
    obtain ⟨k, hk, -⟩ := mem_firsts.1 (hperm.mem_iff.1 hx)
    exact ⟨k, hk, not_mem_nil⟩) ((hperm.filterMap key).nodup_iff.2 (keys_firsts_nodup c []))
  obtain ⟨hf'', ho''⟩ := @others_of_seen K T _ key (others key [] c) (items.filterMap key ++ []) fun x hx k hk => by
    rw [append_nil, (hperm.filterMap key).mem_iff, ← append_nil ((firsts key [] c).filterMap key)]
    exact mem_others hx k hk
  rw [hf, ho, hf', ho', hf'', ho'', append_nil]
  exact ⟨rfl, rfl⟩

theorem first_regroup (hwanted : wanted.Nodup) (c : List T) (k : K) :
    first key (regroup key wanted c) k = first key c k := by
  have hmem : ∀ x, x ∈ firsts key [] (regroup key wanted c) ↔ x ∈ firsts key [] c := by
    intro x
    rw [(firsts_regroup hwanted c).1]
    exact (first_items_perm hwanted c).mem_iff
  have hsame : ∀ (a b : List T), (∀ x, x ∈ firsts key [] a → x ∈ firsts key [] b) → ∀ x, first key a k = some x →
      first key b k = some x := by
    intro a b h x hx
    obtain ⟨j, hj, -, hb⟩ := mem_firsts.1 (h x (mem_firsts.2 ⟨k, first_key hx, not_mem_nil, hx⟩))
    cases hj.symm.trans (first_key hx)
    exact hb
  apply Option.ext
  exact fun x => ⟨hsame _ _ (fun y => (hmem y).1) x, hsame _ _ (fun y => (hmem y).2) x⟩

/-- **A list that was regrouped stays as it is.** -/
theorem regroup_regroup (hwanted : wanted.Nodup) (c : List T) :
    regroup key wanted (regroup key wanted c) = regroup key wanted c := by
  obtain ⟨hf, ho⟩ := @firsts_regroup K T _ key wanted hwanted c
  rw [regroup_eq hwanted (regroup key wanted c), hf, ho, funext (@first_regroup K T _ key wanted hwanted c),
    filter_append,
    filter_filter]
  have hnone : (wanted.filterMap (first key c)).filter (fun x => (key x).any fun k => decide (k ∉ wanted)) = [] := by
    refine filter_eq_nil_iff.2 fun x hx => ?_
    obtain ⟨k, hk, hx⟩ := mem_filterMap.1 hx
    simp [first_key hx, hk]
  rw [hnone, nil_append, regroup_eq hwanted]
  simp only [Bool.and_self]

end Regroup
end Yuzora
