import Yuzora.MergeRegions
/-!
# MergeText — the merged text

What the aligned regions give the conflict tool: the stretches between them are the same on all three sides, either side
can be put together from the base and its own ranges, and the label of a region is the truth about its three texts.
-/
namespace Yuzora
namespace Merge

open List

section Texts
variable {T : Type}

def stretches (l : List T) (pick : MergeRegion → Range) : Int → List MergeRegion → List (List T)
  | «at», [] => [text l («at», l.length)]
  | «at», region :: rest => text l («at», (pick region).1) :: stretches l pick (pick region).2 rest

def replaced (base side : List T) (pick : MergeRegion → Range) : Int → List MergeRegion → List T
  | «at», [] => text base («at», base.length)
  | «at», region :: rest =>
    text base («at», region.base.1) ++ text side (pick region) ++ replaced base side pick region.base.2 rest

/-- Sorted and disjoint ranges of a sequence of `n` tokens. -/
structure Disjoint (pick : MergeRegion → Range) (n : Nat) (regions : List MergeRegion) : Prop where
  valid : ∀ r ∈ regions, 0 ≤ (pick r).1 ∧ (pick r).1 ≤ (pick r).2 ∧ (pick r).2 ≤ n
  sorted : regions.Pairwise (fun r s => (pick r).2 ≤ (pick s).1)

def Labelled [DecidableEq T] (base ours theirs : List T) (r : MergeRegion) : Prop :=
  match r.kind with
  | .ours => text ours r.ours ≠ text base r.base ∧ text theirs r.theirs = text base r.base
  | .theirs => text ours r.ours = text base r.base ∧ text theirs r.theirs ≠ text base r.base
  | .both => text ours r.ours ≠ text base r.base ∧ text theirs r.theirs ≠ text base r.base ∧
    text ours r.ours = text theirs r.theirs
  | .conflict => text ours r.ours ≠ text base r.base ∧ text theirs r.theirs ≠ text base r.base ∧
    text ours r.ours ≠ text theirs r.theirs

@[simp] theorem text_nat (l : List T) (i j : Nat) : text l ((i : Int), (j : Int)) = slice l i j := by
  rw [text, Int.toNat_natCast, Int.toNat_natCast]

/-! ## From the alignment -/

section Aligned
variable {P : MergeRegion → Prop} {base ours theirs : List T}

theorem Aligned.stretches : ∀ {regions : List MergeRegion} {i j k : Nat}, Aligned P base ours theirs i j k regions →
    stretches ours MergeRegion.ours j regions = stretches base MergeRegion.base i regions ∧
      stretches theirs MergeRegion.theirs k regions = stretches base MergeRegion.base i regions
  | [], i, j, k, ⟨_, ho, ht⟩ => by
    rw [Merge.stretches, Merge.stretches, Merge.stretches, text_nat, text_nat, text_nat, slice_length, slice_length,
      slice_length, ho, ht]
    exact ⟨rfl, rfl⟩
  | region :: rest, i, j, k, ⟨lo, hi, p, q, u, v, hb, ho, ht, _, _, _, hgo, hgt, _, hrest⟩ => by
    have ih := hrest.stretches
    rw [Merge.stretches, Merge.stretches, Merge.stretches, hb, ho, ht, text_nat, text_nat, text_nat, hgo, hgt, ih.1, ih.2]
    exact ⟨rfl, rfl⟩

theorem Aligned.replaced : ∀ {regions : List MergeRegion} {i j k : Nat}, Aligned P base ours theirs i j k regions →
    replaced base ours MergeRegion.ours i regions = ours.drop j ∧
      replaced base theirs MergeRegion.theirs i regions = theirs.drop k
  | [], i, j, k, ⟨_, ho, ht⟩ => by
    rw [Merge.replaced, Merge.replaced, text_nat, slice_length, ho, ht]
    exact ⟨rfl, rfl⟩
  | region :: rest, i, j, k, ⟨lo, hi, p, q, u, v, hb, ho, ht, _, hjp, hku, hgo, hgt, _, hrest⟩ => by
    have ih := hrest.replaced
    have hjoin : ∀ (l : List T) (x y z : Nat), x ≤ y → y ≤ z → z ≤ l.length →
        slice l x y ++ slice l y z ++ l.drop z = l.drop x := by
      intro l x y z hxy hyz hz
      rw [slice_append_slice hxy hyz, ← slice_length, ← slice_length, slice_append_slice (hxy.trans hyz) hz]
    rw [Merge.replaced, Merge.replaced, hb, ho, ht, text_nat, text_nat, text_nat, ih.1, ih.2]
    constructor
    · rw [← hgo]
      exact hjoin ours j p q hjp.1 hjp.2.1 hjp.2.2
    · rw [← hgt]
      exact hjoin theirs k u v hku.1 hku.2.1 hku.2.2

theorem Aligned.all : ∀ {regions : List MergeRegion} {i j k : Nat}, Aligned P base ours theirs i j k regions →
    ∀ r ∈ regions, P r
  | [], _, _, _, _, r, hr => by cases hr
  | region :: rest, _, _, _, ⟨_, _, _, _, _, _, _, _, _, _, _, _, _, _, hP, hrest⟩, r, hr => by
    rcases mem_cons.1 hr with rfl | hr
    · exact hP
    · exact hrest.all r hr

theorem Aligned.disjoint {pick : MergeRegion → Range} {n : Nat} (position : Nat → Nat → Nat → Nat)
    (hpick : ∀ {region : MergeRegion} {rest : List MergeRegion} {i j k : Nat},
      Aligned P base ours theirs i j k (region :: rest) → ∃ (i' j' k' x y : Nat), pick region = ((x : Int), (y : Int)) ∧
        position i j k ≤ x ∧ x ≤ y ∧ y ≤ n ∧ position i' j' k' = y ∧ Aligned P base ours theirs i' j' k' rest) :
    ∀ {regions : List MergeRegion} {i j k : Nat}, Aligned P base ours theirs i j k regions →
      Disjoint pick n regions ∧ ∀ r ∈ regions, (position i j k : Int) ≤ (pick r).1
  | [], _, _, _, _ => ⟨⟨fun r hr => (by cases hr), List.Pairwise.nil⟩, by simp⟩
  | region :: rest, i, j, k, h => by
    obtain ⟨i', j', k', x, y, hxy, hx, hle, hy, hpos, hrest⟩ := hpick h
    obtain ⟨hd, hstart⟩ := Aligned.disjoint position hpick hrest
    rw [hpos] at hstart
    refine ⟨⟨fun r hr => ?_, pairwise_cons.2 ⟨fun r hr => ?_, hd.sorted⟩⟩, fun r hr => ?_⟩
    · rcases mem_cons.1 hr with rfl | hr
      · rw [hxy]
        simp only
        omega
      · exact hd.valid r hr
    · rw [hxy]
      exact hstart r hr
    · rcases mem_cons.1 hr with rfl | hr
      · rw [hxy]
        simp only
        omega
      · have := hstart r hr
        omega

theorem Aligned.disjoint_base {regions : List MergeRegion} {i j k : Nat} (h : Aligned P base ours theirs i j k regions) :
    Disjoint MergeRegion.base base.length regions ∧ Disjoint MergeRegion.ours ours.length regions ∧
      Disjoint MergeRegion.theirs theirs.length regions := by
  refine ⟨(Aligned.disjoint (fun i _ _ => i) ?_ h).1, (Aligned.disjoint (fun _ j _ => j) ?_ h).1,
    (Aligned.disjoint (fun _ _ k => k) ?_ h).1⟩
  · rintro region rest i j k ⟨lo, hi, p, q, u, v, hb, -, -, ⟨h1, h2, h3⟩, -, -, -, -, -, hrest⟩
    exact ⟨hi, q, v, lo, hi, hb, h1, h2, h3, rfl, hrest⟩
  · rintro region rest i j k ⟨lo, hi, p, q, u, v, -, ho, -, -, ⟨h1, h2, h3⟩, -, -, -, -, hrest⟩
    exact ⟨hi, q, v, p, q, ho, h1, h2, h3, rfl, hrest⟩
  · rintro region rest i j k ⟨lo, hi, p, q, u, v, -, -, ht, -, -, ⟨h1, h2, h3⟩, -, -, -, hrest⟩
    exact ⟨hi, q, v, u, v, ht, h1, h2, h3, rfl, hrest⟩

end Aligned

/-! ## Labels -/

section Labels
variable {base ours theirs : List T} {oursHunks theirsHunks : List Hunk} {cs : List Cluster} {c : Cluster}

/-- Both sides' hunks, and the clusters of the two. -/
structure Clusters (base ours theirs : List T) (oursHunks theirsHunks : List Hunk) (cs : List Cluster) : Prop where
  clustered : Clustered base.length (tagged oursHunks theirsHunks) cs
  oursIn : cs.flatMap (fun c => c.sideIn .ours) = oursHunks
  theirsIn : cs.flatMap (fun c => c.sideIn .theirs) = theirsHunks
  oursDiff : IsDiff base ours oursHunks
  theirsDiff : IsDiff base theirs theirsHunks

theorem tagged_range (ho : IsDiff base ours oursHunks) (ht : IsDiff base theirs theirsHunks) :
    ∀ t ∈ tagged oursHunks theirsHunks, t.hunk.aFrom ≤ t.hunk.aTo ∧ t.hunk.aTo ≤ base.length := by
  intro t hmem
  rcases mem_tagged.1 hmem with ⟨-, h⟩ | ⟨-, h⟩
  · exact ho.aRange _ h
  · exact ht.aRange _ h

theorem clusters_of_diffs (ho : IsDiff base ours oursHunks) (ht : IsDiff base theirs theirsHunks) :
    Clusters base ours theirs oursHunks theirsHunks (clusters (tagged oursHunks theirsHunks)) := by
  have hc := clusters_spec tagged_sorted (tagged_range ho ht)
  obtain ⟨hours, htheirs⟩ := sideOf_tagged ho.sorted ht.sorted
  refine ⟨hc, ?_, ?_, ho, ht⟩
  · rw [sideIn_flatMap, hc.hunks, hours]
  · rw [sideIn_flatMap, hc.hunks, htheirs]

theorem sideIn_infix (hc : c ∈ cs) (side : Side) : c.sideIn side <:+: cs.flatMap (fun c => c.sideIn side) := by
  obtain ⟨pre, post, rfl⟩ := append_of_mem hc
  rw [flatMap_append, flatMap_cons, ← append_assoc]
  exact infix_append _ _ _

theorem sideIn_some {n : Nat} (h : Spanned n c) : c.sideIn .ours ≠ [] ∨ c.sideIn .theirs ≠ [] := by
  obtain ⟨t, ht⟩ := exists_mem_of_ne_nil _ h.some
  have hmem : t.hunk ∈ c.sideIn t.side := mem_map_of_mem (mem_filter.2 ⟨ht, decide_eq_true rfl⟩)
  cases hside : t.side with
  | ours =>
    rw [hside] at hmem
    exact .inl (ne_nil_of_mem hmem)
  | theirs =>
    rw [hside] at hmem
    exact .inr (ne_nil_of_mem hmem)

theorem changed_iff {side : List T} {hs : List Hunk} {lo hi : Nat} {run : List Hunk} (h : IsDiff base side hs)
    (ht : Tight base side hs) (hrun : run <:+: hs) (hle : lo ≤ hi) (hhi : hi ≤ base.length)
    (hin : ∀ x ∈ run, lo ≤ x.aFrom ∧ x.aTo ≤ hi) : inside base side lo hi run = slice base lo hi ↔ run = [] := by
  constructor
  · intro he
    by_contra hne
    refine ht run lo hi hrun hne ?_ hhi he
    refine within_of_apart hle (h.apart.sublist hrun.sublist) fun x hx => ?_
    have := h.aRange x (hrun.subset hx)
    exact ⟨(hin x hx).1, this.1, (hin x hx).2⟩
  · rintro rfl
    rfl

variable {diff : Diff} {all a b : List T} {codes : Codes T}

def hunksOf (diff : Diff) (a b : List UInt16) : List Hunk := (diff a b).map Change.hunk

theorem hunksOf_spec {f : T → UInt16} (hdiff : DiffSpec diff)
    (hf : ∀ x ∈ all, ∀ y ∈ all, f x = f y → x = y) (hab : ∀ x ∈ a ++ b, x ∈ all) :
    IsDiff a b (hunksOf diff (a.map f) (b.map f)) ∧ Tight a b (hunksOf diff (a.map f) (b.map f)) :=
  ⟨(hdiff.isDiff _ _).of_map fun x hx y hy => hf x (hab x hx) y (hab y hy), (hdiff.tight _ _).of_map⟩

theorem hunksOf_renamed {f f' : T → UInt16} (hdiff : DiffSpec diff)
    (hf : ∀ x ∈ all, ∀ y ∈ all, f x = f y → x = y) (hf' : ∀ x ∈ all, ∀ y ∈ all, f' x = f' y → x = y)
    (hab : ∀ x ∈ a ++ b, x ∈ all) : hunksOf diff (a.map f') (b.map f') = hunksOf diff (a.map f) (b.map f) := by
  classical
  let g : UInt16 → UInt16 := fun u => if h : ∃ x ∈ all, f x = u then f' h.choose else u
  have hg : ∀ x ∈ all, g (f x) = f' x := by
    intro x hx
    have h : ∃ y ∈ all, f y = f x := ⟨x, hx, rfl⟩
    show (if h : ∃ y ∈ all, f y = f x then f' h.choose else f x) = f' x
    rw [dif_pos h, hf _ h.choose_spec.1 x hx h.choose_spec.2]
  have hmap : ∀ l : List T, (∀ x ∈ l, x ∈ all) → (l.map f).map g = l.map f' := by
    intro l hl
    rw [map_map]
    exact map_congr_left fun x hx => hg x (hl x hx)
  have hren := hdiff.renamed g (a.map f) (b.map f) fun x hx y hy he => by
    rw [← map_append, mem_map] at hx hy
    obtain ⟨s, hs, rfl⟩ := hx
    obtain ⟨t, ht, rfl⟩ := hy
    rw [hg s (hab s hs), hg t (hab t ht)] at he
    rw [hf' s (hab s hs) t (hab t ht) he]
  rw [hmap a fun x hx => hab x (mem_append_left _ hx), hmap b fun x hx => hab x (mem_append_right _ hx)] at hren
  rw [hunksOf, hunksOf, hren]

theorem mem_keys_append (more : Codes T) {x : T} (h : x ∈ codes.keys) : x ∈ Codes.keys (codes ++ more) := by
  rw [Codes.keys, map_append]
  exact mem_append_left _ h

variable [DecidableEq T]

theorem Shows.labelled {r : MergeRegion}
    (hcs : Clusters base ours theirs oursHunks theirsHunks cs) (hto : Tight base ours oursHunks)
    (htt : Tight base theirs theirsHunks) (hc : c ∈ cs) (h : Shows base ours theirs c r) : Labelled base ours theirs r := by
  have hspan := hcs.clustered.spanned c hc
  have hin : ∀ side, ∀ x ∈ c.sideIn side, c.lo ≤ x.aFrom ∧ x.aTo ≤ c.hi := by
    intro side x hx
    rw [Cluster.sideIn, mem_map] at hx
    obtain ⟨t, ht, rfl⟩ := hx
    exact hspan.within t (mem_filter.1 ht).1
  have hours : text ours r.ours = text base r.base ↔ c.sideIn .ours = [] := by
    rw [h.oursText, h.baseText]
    exact changed_iff hcs.oursDiff hto (hcs.oursIn ▸ sideIn_infix hc .ours) hspan.le hspan.hi (hin .ours)
  have htheirs : text theirs r.theirs = text base r.base ↔ c.sideIn .theirs = [] := by
    rw [h.theirsText, h.baseText]
    exact changed_iff hcs.theirsDiff htt (hcs.theirsIn ▸ sideIn_infix hc .theirs) hspan.le hspan.hi (hin .theirs)
  have hsome := sideIn_some hspan
  unfold Labelled
  rw [h.kind]
  by_cases ht : c.sideIn .theirs = []
  · rw [if_pos (List.isEmpty_iff.2 ht)]
    exact ⟨mt hours.1 (hsome.resolve_right (not_not_intro ht)), htheirs.2 ht⟩
  · rw [if_neg (mt List.isEmpty_iff.1 ht)]
    by_cases ho : c.sideIn .ours = []
    · rw [if_pos (List.isEmpty_iff.2 ho)]
      exact ⟨hours.2 ho, mt htheirs.1 ht⟩
    · rw [if_neg (mt List.isEmpty_iff.1 ho)]
      by_cases hsame : text ours r.ours = text theirs r.theirs
      · rw [if_pos hsame]
        exact ⟨mt hours.1 ho, mt htheirs.1 ht, hsame⟩
      · rw [if_neg hsame]
        exact ⟨mt hours.1 ho, mt htheirs.1 ht, hsame⟩

theorem regions_aligned (hcs : Clusters base ours theirs oursHunks theirsHunks cs)
    {P : MergeRegion → Prop} (hP : ∀ c ∈ cs, ∀ r, Shows base ours theirs c r → P r) :
    Aligned P base ours theirs 0 0 0 (regionsFrom ours theirs 0 0 cs) := by
  refine aligned cs 0 0 0 (fun c hc => ⟨hcs.clustered.spanned c hc, Nat.zero_le _⟩) hcs.clustered.apart (Nat.zero_le _) ?_ ?_ hP
  · rw [hcs.oursIn]
    exact left_of_diff hcs.oursDiff
  · rw [hcs.theirsIn]
    exact left_of_diff hcs.theirsDiff

/-! ## The encoded merge -/

theorem map_unitOf {tokens : List T} (more : Codes T) (h : ∀ x ∈ tokens, x ∈ codes.keys) :
    tokens.map (unitOf codes) = tokens.map (unitOf (codes ++ more)) :=
  map_congr_left fun x hx => (unitOf_append more (h x hx)).symm

/-- **The merge works on names**: each token has a unit of its own, and the regions are those of the two diffs. -/
theorem mergeRegions_eq (diff : Diff) (hcount : (base ++ ours ++ theirs).dedup.length ≤ maxTokens) :
    ∃ f : T → UInt16, (∀ x ∈ base ++ ours ++ theirs, ∀ y ∈ base ++ ours ++ theirs, f x = f y → x = y) ∧
      mergeRegions diff base ours theirs = regionsFrom ours theirs 0 0
        (clusters (tagged (hunksOf diff (base.map f) (ours.map f)) (hunksOf diff (base.map f) (theirs.map f)))) := by
  have hempty : WellCoded ([] : Codes T) := ⟨nodup_nil, rfl⟩
  have hb : ∀ x ∈ base, x ∈ base ++ ours ++ theirs := fun x hx => mem_append_left _ (mem_append_left _ hx)
  have ho : ∀ x ∈ ours, x ∈ base ++ ours ++ theirs := fun x hx => mem_append_left _ (mem_append_right _ hx)
  have ht : ∀ x ∈ theirs, x ∈ base ++ ours ++ theirs := fun x hx => mem_append_right _ hx
  obtain ⟨m₁, e₁, w₁, k₁, i₁⟩ := encode_spec hcount base [] hb hempty nofun
  obtain ⟨m₂, e₂, w₂, k₂, i₂⟩ := encode_spec hcount ours _ ho w₁ k₁
  obtain ⟨m₃, e₃, w₃, k₃, i₃⟩ := encode_spec hcount base _ hb w₂ k₂
  obtain ⟨m₄, e₄, w₄, k₄, i₄⟩ := encode_spec hcount theirs _ ht w₃ k₃
  have hlen := length_le_of_tokens hcount w₄.nodup k₄
  rw [Codes.keys, length_map] at hlen
  refine ⟨unitOf ([] ++ m₁ ++ m₂ ++ m₃ ++ m₄), fun x hx y hy he => ?_, ?_⟩
  · have hin : ∀ z ∈ base ++ ours ++ theirs, z ∈ Codes.keys ([] ++ m₁ ++ m₂ ++ m₃ ++ m₄) := by
      intro z hz
      rw [mem_append, mem_append] at hz
      rcases hz with (hz | hz) | hz
      · exact mem_keys_append m₄ (i₃ z hz)
      · exact mem_keys_append m₄ (mem_keys_append m₃ (i₂ z hz))
      · exact i₄ z hz
    exact unitOf_inj w₄ hlen (hin x hx) (hin y hy) he
  · have hours : tokenDiff diff base ours [] = (some (hunksOf diff (base.map (unitOf ([] ++ m₁ ++ m₂ ++ m₃ ++ m₄)))
        (ours.map (unitOf ([] ++ m₁ ++ m₂ ++ m₃ ++ m₄)))), [] ++ m₁ ++ m₂) := by
      have hbase : base.map (unitOf ([] ++ m₁)) = base.map (unitOf ([] ++ m₁ ++ m₂ ++ m₃ ++ m₄)) := by
        rw [map_unitOf m₂ i₁, map_unitOf m₃ fun x hx => mem_keys_append m₂ (i₁ x hx), map_unitOf m₄ i₃]
      rw [tokenDiff, e₁]
      simp only [e₂]
      rw [hbase, map_unitOf m₃ i₂, map_unitOf m₄ fun x hx => mem_keys_append m₃ (i₂ x hx)]
      rfl
    have htheirs : tokenDiff diff base theirs ([] ++ m₁ ++ m₂) = (some (hunksOf diff
        (base.map (unitOf ([] ++ m₁ ++ m₂ ++ m₃ ++ m₄))) (theirs.map (unitOf ([] ++ m₁ ++ m₂ ++ m₃ ++ m₄)))),
          [] ++ m₁ ++ m₂ ++ m₃ ++ m₄) := by
      rw [tokenDiff, e₃]
      simp only [e₄]
      rw [map_unitOf m₄ i₃]
      rfl
    rw [mergeRegions, hours]
    simp only [htheirs]

theorem mergeRegions_clusters (hdiff : DiffSpec diff) (hcount : (base ++ ours ++ theirs).dedup.length ≤ maxTokens) :
    ∃ oursHunks theirsHunks, mergeRegions diff base ours theirs =
        regionsFrom ours theirs 0 0 (clusters (tagged oursHunks theirsHunks)) ∧
      Clusters base ours theirs oursHunks theirsHunks (clusters (tagged oursHunks theirsHunks)) ∧
      Tight base ours oursHunks ∧ Tight base theirs theirsHunks ∧
      (ours = theirs → oursHunks = theirsHunks) ∧
      mergeRegions diff base theirs ours = regionsFrom theirs ours 0 0 (clusters (tagged theirsHunks oursHunks)) := by
  have hmem : ∀ x, x ∈ base ++ theirs ++ ours ↔ x ∈ base ++ ours ++ theirs := fun x => by
    rw [mem_append, mem_append, mem_append, mem_append]
    tauto
  have hcount' : (base ++ theirs ++ ours).dedup.length ≤ maxTokens := by
    have hperm : (base ++ theirs ++ ours).Perm (base ++ ours ++ theirs) := by
      rw [append_assoc, append_assoc]
      exact perm_append_comm.append_left base
    rw [hperm.dedup.length_eq]
    exact hcount
  obtain ⟨f, hf, he⟩ := mergeRegions_eq diff hcount
  obtain ⟨f', hf', he'⟩ := mergeRegions_eq diff hcount'
  have hf' : ∀ x ∈ base ++ ours ++ theirs, ∀ y ∈ base ++ ours ++ theirs, f' x = f' y → x = y :=
    fun x hx y hy => hf' x ((hmem x).2 hx) y ((hmem y).2 hy)
  have ho : ∀ x ∈ base ++ ours, x ∈ base ++ ours ++ theirs := fun x hx => mem_append_left _ hx
  have ht : ∀ x ∈ base ++ theirs, x ∈ base ++ ours ++ theirs := fun x hx => by
    rw [mem_append, mem_append]
    rcases mem_append.1 hx with hx | hx
    · exact .inl (.inl hx)
    · exact .inr hx
  obtain ⟨hod, hot⟩ := hunksOf_spec hdiff hf ho
  obtain ⟨htd, htt⟩ := hunksOf_spec hdiff hf ht
  refine ⟨_, _, he, clusters_of_diffs hod htd, hot, htt, fun heq => by rw [heq], ?_⟩
  rw [he', hunksOf_renamed hdiff hf hf' ho, hunksOf_renamed hdiff hf hf' ht]

end Labels

end Texts

end Merge
end Yuzora
