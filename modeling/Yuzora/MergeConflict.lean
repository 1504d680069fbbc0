import Yuzora.MergeText
/-!
# MergeConflict — merging a conflict by characters

The order of the two sides does not matter to the regions, and the merged text is what the regions say.
-/
namespace Yuzora
namespace Merge

open List

/-! ## The other order of the sides -/

def MergeRegion.swap (r : MergeRegion) : MergeRegion :=
  { kind := match r.kind with
      | .ours => .theirs
      | .theirs => .ours
      | kind => kind
    base := r.base
    ours := r.theirs
    theirs := r.ours }

section Swap

def Tagged.key (t : Tagged) : Nat × Nat := (t.hunk.aFrom, t.hunk.aTo)

def Cluster.span (c : Cluster) : Nat × Nat := (c.lo, c.hi)

theorem clustersFrom_span : ∀ (l l' : List Tagged) (c c' : Cluster), l.map Tagged.key = l'.map Tagged.key →
    c.span = c'.span → (clustersFrom c l).map Cluster.span = (clustersFrom c' l').map Cluster.span
  | [], [], c, c', _, hc => by
    rw [clustersFrom, clustersFrom, map_singleton, map_singleton, hc]
  | t :: l, t' :: l', c, c', hl, hc => by
    rw [map_cons, map_cons, List.cons.injEq] at hl
    obtain ⟨hfrom, hto⟩ := Prod.mk.inj hl.1
    obtain ⟨hlo, hhi⟩ := Prod.mk.inj hc
    rw [clustersFrom, clustersFrom, hfrom, hto, hhi, hlo]
    split
    · exact clustersFrom_span l l' _ _ hl.2 rfl
    · rw [map_cons, map_cons, hc]
      exact congrArg _ (clustersFrom_span l l' _ _ hl.2 rfl)
  | [], _ :: _, _, _, hl, _ => by cases hl
  | _ :: _, [], _, _, hl, _ => by cases hl

theorem clusters_span : ∀ (l l' : List Tagged), l.map Tagged.key = l'.map Tagged.key →
    (clusters l).map Cluster.span = (clusters l').map Cluster.span
  | [], [], _ => rfl
  | t :: l, t' :: l', hl => by
    rw [map_cons, map_cons, List.cons.injEq] at hl
    obtain ⟨hfrom, hto⟩ := Prod.mk.inj hl.1
    rw [clusters, clusters]
    refine clustersFrom_span l l' _ _ hl.2 ?_
    rw [Cluster.span, Cluster.span, hfrom, hto]
  | [], _ :: _, hl => by cases hl
  | _ :: _, [], hl => by cases hl

theorem tagged_keys (oursHunks theirsHunks : List Hunk) :
    (tagged oursHunks theirsHunks).map Tagged.key = (tagged theirsHunks oursHunks).map Tagged.key := by
  have hsorted : ∀ a b : List Hunk, ((tagged a b).map Tagged.key).Pairwise
      (fun x y => x.1 < y.1 ∨ x.1 = y.1 ∧ x.2 ≤ y.2) := by
    intro a b
    rw [pairwise_map]
    exact tagged_sorted
  have hkeys : ∀ a b : List Hunk, ((tagged a b).map Tagged.key).Perm
      (a.map (fun h => (h.aFrom, h.aTo)) ++ b.map (fun h => (h.aFrom, h.aTo))) := by
    intro a b
    have h := (@tagged_perm a b).map Tagged.key
    rw [map_append, map_map, map_map] at h
    exact h
  refine List.Perm.eq_of_pairwise (fun x y _ _ hxy hyx => Prod.ext ?_ ?_) (hsorted _ _) (hsorted _ _)
    ((hkeys _ _).trans (perm_append_comm.trans (hkeys _ _).symm)) <;> omega

theorem forall₂_of_map {α β γ : Type} {g : α → γ} {g' : β → γ} {R : α → β → Prop} : ∀ {l : List α} {l' : List β},
    l.map g = l'.map g' → (∀ a ∈ l, ∀ b ∈ l', g a = g' b → R a b) → List.Forall₂ R l l'
  | [], [], _, _ => List.Forall₂.nil
  | a :: l, b :: l', h, hR => by
    rw [map_cons, map_cons, List.cons.injEq] at h
    refine List.Forall₂.cons (hR a mem_cons_self b mem_cons_self h.1) (forall₂_of_map h.2 fun x hx y hy => ?_)
    exact hR x (mem_cons_of_mem a hx) y (mem_cons_of_mem b hy)
  | [], _ :: _, h, _ => by cases h
  | _ :: _, [], h, _ => by cases h

/-- The same cluster, seen from the other side. -/
structure Mirrors (c c' : Cluster) : Prop where
  span : c.span = c'.span
  ours : c.sideIn .ours = c'.sideIn .theirs
  theirs : c.sideIn .theirs = c'.sideIn .ours
  some : c.sideIn .ours ≠ [] ∨ c.sideIn .theirs ≠ []

variable {T : Type} [DecidableEq T] {ours theirs : List T}

theorem sameTokens_comm (a b : List T) (r s : Range) : sameTokens a r b s = sameTokens b s a r := by
  rw [Bool.eq_iff_iff, sameTokens, sameTokens, Bool.and_eq_true, Bool.and_eq_true, decide_eq_true_eq, decide_eq_true_eq]
  constructor
  · rintro ⟨h, hall⟩
    refine ⟨h.symm, ?_⟩
    rw [← h, all_eq_true] at *
    exact fun i hi => decide_eq_true (of_decide_eq_true (hall i hi)).symm
  · rintro ⟨h, hall⟩
    refine ⟨h.symm, ?_⟩
    rw [← h, all_eq_true] at *
    exact fun i hi => decide_eq_true (of_decide_eq_true (hall i hi)).symm

theorem regionOf_swap {oursDelta theirsDelta : Int} {c c' : Cluster} (h : Mirrors c c') :
    regionOf theirs ours theirsDelta oursDelta c' = (regionOf ours theirs oursDelta theirsDelta c).swap := by
  obtain ⟨hlo, hhi⟩ := Prod.mk.inj h.span
  unfold regionOf MergeRegion.swap
  simp only [h.ours, h.theirs, hlo, hhi]
  rw [sameTokens_comm theirs ours]
  have hsome := h.some
  rw [h.ours, h.theirs] at hsome
  cases ho : c'.sideIn .theirs with
  | nil =>
    rw [ho] at hsome
    simp [isEmpty_eq_false_iff.2 (hsome.resolve_left (by simp))]
  | cons x xs =>
    cases ht : c'.sideIn .ours with
    | nil => simp
    | cons y ys =>
      simp only [isEmpty_cons, Bool.false_eq_true, if_false]
      split <;> rfl

theorem regionsFrom_swap {cs cs' : List Cluster} (h : List.Forall₂ Mirrors cs cs') :
    ∀ oursDelta theirsDelta, regionsFrom theirs ours theirsDelta oursDelta cs' =
      (regionsFrom ours theirs oursDelta theirsDelta cs).map MergeRegion.swap := by
  induction h with
  | nil => exact fun _ _ => rfl
  | cons hc _ ih =>
    intro oursDelta theirsDelta
    rw [regionsFrom, regionsFrom, map_cons, regionOf_swap hc, ← hc.ours, ← hc.theirs, ih]

/-- **The order of the sides does not matter** to the regions, but for their names. -/
theorem mergeRegions_swap {diff : Diff} (hdiff : DiffSpec diff) {base ours theirs : List T}
    (hcount : (base ++ ours ++ theirs).dedup.length ≤ maxTokens) :
    mergeRegions diff base theirs ours = (mergeRegions diff base ours theirs).map MergeRegion.swap := by
  obtain ⟨oursHunks, theirsHunks, he, hcs, -, -, -, he'⟩ := mergeRegions_clusters hdiff hcount
  rw [he, he']
  refine regionsFrom_swap (forall₂_of_map (clusters_span _ _ (tagged_keys _ _)) fun c hc c' hc' hspan => ?_) 0 0
  have hcs' := clusters_of_diffs hcs.theirsDiff hcs.oursDiff
  have hside := sideOf_tagged hcs.oursDiff.sorted hcs.theirsDiff.sorted
  have hside' := sideOf_tagged hcs.theirsDiff.sorted hcs.oursDiff.sorted
  have heq := hcs.clustered.sideIn_eq (fun t ht => (tagged_range hcs.oursDiff hcs.theirsDiff t ht).1) c hc
  have heq' := hcs'.clustered.sideIn_eq (fun t ht => (tagged_range hcs.theirsDiff hcs.oursDiff t ht).1) c' hc'
  obtain ⟨hlo, hhi⟩ := Prod.mk.inj hspan
  refine ⟨hspan, ?_, ?_, sideIn_some (hcs.clustered.spanned c hc)⟩
  · rw [heq, heq', hside.1, hside'.2, hlo, hhi]
  · rw [heq, heq', hside.2, hside'.1, hlo, hhi]

end Swap

/-! ## The merged text -/

theorem codePoints_flatten (s : List UInt16) : (codePoints s).flatten = s := by
  fun_induction codePoints s with
  | case1 _ _ _ _ ih | case2 _ _ _ _ ih => rw [flatten_cons, ih]; rfl
  | case3 unit => rfl
  | case4 => rfl

section Resolve
variable {T : Type} {base ours theirs : List (List T)}

def chosen (ours theirs : List T) (r : MergeRegion) : List T :=
  if r.kind = .theirs then text theirs r.theirs else text ours r.ours

theorem resolveFrom_eq {side : List (List T)} {pick : MergeRegion → Range} : ∀ (regions : List MergeRegion) («at» : Int),
    (∀ r ∈ regions, chosen ours theirs r = text side (pick r)) →
      resolveFrom base ours theirs «at» regions = (replaced base side pick «at» regions).flatten
  | [], «at», _ => by
    rw [resolveFrom, replaced, text, Int.toNat_natCast, slice_length]
  | r :: rest, «at», h => by
    have hr := h r mem_cons_self
    rw [resolveFrom, replaced, flatten_append, flatten_append,
      resolveFrom_eq rest r.base.2 fun x hx => h x (mem_cons_of_mem r hx), ← hr, chosen]
    split <;> rfl

theorem resolveFrom_swap : ∀ (regions : List MergeRegion) («at» : Int),
    (∀ r ∈ regions, r.kind = .both → text ours r.ours = text theirs r.theirs) →
      (∀ r ∈ regions, r.kind ≠ .conflict) →
        resolveFrom base theirs ours «at» (regions.map MergeRegion.swap) = resolveFrom base ours theirs «at» regions
  | [], _, _, _ => rfl
  | r :: rest, «at», hb, hc => by
    have ih := resolveFrom_swap rest r.base.2 (fun x hx => hb x (mem_cons_of_mem r hx))
      fun x hx => hc x (mem_cons_of_mem r hx)
    have hboth := hb r mem_cons_self
    have hconflict := hc r mem_cons_self
    have hbase : r.swap.base = r.base := rfl
    rw [map_cons, resolveFrom, resolveFrom, hbase, ih]
    cases hk : r.kind with
    | ours | theirs => simp [MergeRegion.swap, hk]
    | both => simp [MergeRegion.swap, hk, hboth hk]
    | conflict => exact absurd hk hconflict

theorem hunks_self {l : List T} {hs : List Hunk} (h : IsDiff l l hs) (ht : Tight l l hs) : hs = [] := by
  refine (changed_iff h ht infix_rfl (Nat.zero_le l.length) (Nat.le_refl _) fun x hx => ?_).1 ?_
  · exact ⟨Nat.zero_le _, (h.aRange x hx).2⟩
  · rw [h.applies]
    exact (slice_length l 0).symm

end Resolve

section Sides
variable {T : Type} [DecidableEq T] {base ours theirs : List T} {oursHunks theirsHunks : List Hunk} {cs : List Cluster}

theorem sideIn_of_none {c : Cluster} {side : Side} (hc : c ∈ cs)
    (h : cs.flatMap (fun c => c.sideIn side) = []) : c.sideIn side = [] :=
  flatMap_eq_nil_iff.1 h c hc

/-- **What each region contributes**, when a side has not changed or both are the same. -/
theorem Shows.chosen {c : Cluster} {r : MergeRegion}
    (hcs : Clusters base ours theirs oursHunks theirsHunks cs) (hc : c ∈ cs) (h : Shows base ours theirs c r) :
    (oursHunks = [] → r.kind = .theirs) ∧ (theirsHunks = [] → r.kind = .ours) ∧
      (c.sideIn .ours = c.sideIn .theirs → ours = theirs → r.kind = .both) ∧
        (r.kind = .both → text ours r.ours = text theirs r.theirs) := by
  have hsome := sideIn_some (hcs.clustered.spanned c hc)
  have hkind := h.kind
  refine ⟨fun ho => ?_, fun ht => ?_, fun heq hot => ?_, fun hb => ?_⟩
  · have ho := sideIn_of_none hc (hcs.oursIn.trans ho)
    have ht := hsome.resolve_left (not_not_intro ho)
    rw [hkind, if_neg (mt List.isEmpty_iff.1 ht), if_pos (List.isEmpty_iff.2 ho)]
  · have ht := sideIn_of_none hc (hcs.theirsIn.trans ht)
    rw [hkind, if_pos (List.isEmpty_iff.2 ht)]
  · have ho : c.sideIn .ours ≠ [] := by
      rw [← heq, or_self] at hsome
      exact hsome
    have htext : text ours r.ours = text theirs r.theirs := by
      rw [h.oursText, h.theirsText, heq, hot]
    rw [hkind, if_neg (mt List.isEmpty_iff.1 (heq ▸ ho)), if_neg (mt List.isEmpty_iff.1 ho), if_pos htext]
  · by_contra hne
    rw [hkind, if_neg hne] at hb
    split at hb
    · cases hb
    · split at hb <;> cases hb

end Sides

theorem resolve_eq {diff : Diff} {base ours theirs side : List UInt16} (pick : MergeRegion → Range)
    (hkind : ∀ r ∈ mergeRegions diff (codePoints base) (codePoints ours) (codePoints theirs), r.kind ≠ .conflict)
    (hchosen : ∀ r ∈ mergeRegions diff (codePoints base) (codePoints ours) (codePoints theirs),
      chosen (codePoints ours) (codePoints theirs) r = text (codePoints side) (pick r))
    (hside : replaced (codePoints base) (codePoints side) pick 0
      (mergeRegions diff (codePoints base) (codePoints ours) (codePoints theirs)) = codePoints side) :
    resolveSimpleConflict diff base ours theirs = some side := by
  have hany : (mergeRegions diff (codePoints base) (codePoints ours) (codePoints theirs)).any
      (fun region => region.kind = .conflict) = false := by
    rw [any_eq_false]
    exact fun r hr => by simpa using hkind r hr
  unfold resolveSimpleConflict
  simp only [hany, Bool.false_eq_true, if_false]
  rw [resolveFrom_eq _ 0 hchosen, hside, codePoints_flatten]

theorem resolve_swap {diff : Diff} {base ours theirs : List UInt16}
    (hswap : mergeRegions diff (codePoints base) (codePoints theirs) (codePoints ours) =
      (mergeRegions diff (codePoints base) (codePoints ours) (codePoints theirs)).map MergeRegion.swap)
    (hboth : ∀ r ∈ mergeRegions diff (codePoints base) (codePoints ours) (codePoints theirs),
      r.kind = .both → text (codePoints ours) r.ours = text (codePoints theirs) r.theirs) :
    resolveSimpleConflict diff base theirs ours = resolveSimpleConflict diff base ours theirs := by
  have hkind : ∀ r : MergeRegion, decide (r.swap.kind = .conflict) = decide (r.kind = .conflict) := by
    intro r
    cases hk : r.kind <;> simp [MergeRegion.swap, hk]
  unfold resolveSimpleConflict
  simp only [hswap, any_map, Function.comp_def, hkind]
  split
  · rfl
  · rename_i hany
    rw [Bool.not_eq_true, any_eq_false] at hany
    rw [resolveFrom_swap _ 0 hboth fun r hr => by simpa using hany r hr]

/-! ## A diff of one change -/

namespace Sample

def commonPrefix : List UInt16 → List UInt16 → Nat
  | x :: a, y :: b => if x = y then commonPrefix a b + 1 else 0
  | _, _ => 0

def tailDiff : Diff := fun a b => if a = b then [] else [⟨commonPrefix a b, a.length, commonPrefix a b, b.length⟩]

theorem commonPrefix_le : ∀ a b : List UInt16, commonPrefix a b ≤ a.length ∧ commonPrefix a b ≤ b.length
  | x :: a, y :: b => by
    have := commonPrefix_le a b
    rw [commonPrefix]
    split <;> simp only [length_cons] <;> omega
  | [], _ => by simp [commonPrefix]
  | _ :: _, [] => by simp [commonPrefix]

theorem take_commonPrefix : ∀ a b : List UInt16, a.take (commonPrefix a b) = b.take (commonPrefix a b)
  | x :: a, y :: b => by
    rw [commonPrefix]
    split
    · rename_i h
      rw [take_succ_cons, take_succ_cons, take_commonPrefix a b, h]
    · rfl
  | [], _ => by simp [commonPrefix]
  | _ :: _, [] => by simp [commonPrefix]

theorem commonPrefix_map {f : UInt16 → UInt16} : ∀ {a b : List UInt16},
    (∀ x ∈ a ++ b, ∀ y ∈ a ++ b, f x = f y → x = y) → commonPrefix (a.map f) (b.map f) = commonPrefix a b
  | x :: a, y :: b, h => by
    have hxy : f x = f y ↔ x = y := ⟨h x (by simp) y (by simp), congrArg f⟩
    rw [map_cons, map_cons, commonPrefix, commonPrefix, commonPrefix_map fun s hs t ht => h s ?_ t ?_]
    · by_cases he : x = y
      · rw [if_pos he, if_pos (hxy.2 he)]
      · rw [if_neg he, if_neg (mt hxy.1 he)]
    · rcases mem_append.1 hs with hs | hs <;> simp [hs]
    · rcases mem_append.1 ht with ht | ht <;> simp [ht]
  | [], _, _ => by simp [commonPrefix]
  | _ :: _, [], _ => by simp [commonPrefix]

theorem tailDiff_spec : DiffSpec tailDiff where
  isDiff a b := by
    unfold tailDiff
    split
    · rename_i h
      subst h
      exact ⟨List.Pairwise.nil, fun _ hx => (by cases hx), fun _ hx => (by cases hx), slice_length a 0⟩
    · have hle := commonPrefix_le a b
      refine ⟨pairwise_singleton _ _, fun x hx => ?_, fun x hx => ?_, ?_⟩
      · rw [mem_singleton.1 hx]
        exact ⟨hle.1, Nat.le_refl _⟩
      · rw [mem_singleton.1 hx]
        exact ⟨hle.2, Nat.le_refl _⟩
      · show slice a 0 (commonPrefix a b) ++ slice b (commonPrefix a b) b.length ++ slice a a.length a.length = b
        rw [slice_self, append_nil, slice_length, slice, drop_zero, take_commonPrefix, take_append_drop]
  tight a b := by
    intro run lo hi hrun hne hw hhi he
    unfold tailDiff at hrun
    split at hrun
    · exact hne (infix_nil.1 hrun)
    · rename_i hab
      obtain rfl : run = [Change.hunk ⟨commonPrefix a b, a.length, commonPrefix a b, b.length⟩] := by
        have hlen := hrun.sublist.length_le
        exact hrun.sublist.eq_of_length (Nat.le_antisymm hlen (length_pos_iff.2 hne))
      obtain ⟨hlo, -, hend⟩ := hw
      obtain rfl : hi = a.length := Nat.le_antisymm hhi hend
      simp only [inside, Change.hunk, slice_self, append_nil, slice_length] at he hlo
      have hdrop : b.drop (commonPrefix a b) = a.drop (commonPrefix a b) := by
        have hjoin := slice_append_slice (l := a) hlo (commonPrefix_le a b).1
        rw [slice_length, slice_length] at hjoin
        rw [← hjoin] at he
        exact append_cancel_left he
      refine hab ?_
      rw [← take_append_drop (commonPrefix a b) a, take_commonPrefix, ← hdrop, take_append_drop]
  renamed f a b h := by
    have hmap : a.map f = b.map f ↔ a = b :=
      ⟨map_inj h (fun x hx => mem_append_left b hx) (fun x hx => mem_append_right a hx), congrArg _⟩
    unfold tailDiff
    rw [commonPrefix_map h, length_map, length_map]
    by_cases he : a = b
    · rw [if_pos he, if_pos (hmap.2 he)]
    · rw [if_neg he, if_neg (mt hmap.1 he)]

end Sample

/-! ## The merge -/

end Merge
end Yuzora
