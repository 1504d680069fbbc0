import Yuzora.MergeModel
/-!
# MergeRegions — what the regions of a merge say

The clusters walk the base and both sides at once: at each of them the three positions, and the hunks still to come, are
aligned.  A cluster's hunks are those of each side that start in its span, so the regions do not depend on which of two
sides comes first.
-/
namespace Yuzora
namespace Merge

open List

/-- What the merge relies on in the library's diff: its changes turn one text into the other, no run of them puts back
what it takes out, and it looks at nothing but which units are equal. -/
structure DiffSpec (diff : Diff) : Prop where
  isDiff : ∀ a b, IsDiff a b ((diff a b).map Change.hunk)
  tight : ∀ a b, Tight a b ((diff a b).map Change.hunk)
  renamed : ∀ (f : UInt16 → UInt16) (a b : List UInt16),
    (∀ x ∈ a ++ b, ∀ y ∈ a ++ b, f x = f y → x = y) → diff (a.map f) (b.map f) = diff a b

def maxTokens : Nat := 0xffff - 0x100 - 0x800

/-! ## Codes -/

section Codes
variable {T : Type} [DecidableEq T] {codes : Codes T} {token : T}

def Codes.keys (codes : Codes T) : List T := codes.map Prod.fst

def unitOf (codes : Codes T) (token : T) : UInt16 := UInt16.ofNat ((codes.get token).getD 0)

structure WellCoded (codes : Codes T) : Prop where
  nodup : codes.keys.Nodup
  codes : codes.map Prod.snd = (List.range codes.length).map nextCode

theorem nextCode_strictMono : StrictMono nextCode := by
  intro i j hij
  unfold nextCode
  split <;> split <;> omega

theorem nextCode_le {size : Nat} (h : size < maxTokens) : nextCode size ≤ 0xffff := by
  unfold nextCode maxTokens FIRST_TOKEN_CODE at *
  split <;> omega

theorem get_isSome : (codes.get token).isSome = true ↔ token ∈ codes.keys := by
  simp [Codes.get, Codes.keys]

theorem get_append (more : Codes T) (h : token ∈ codes.keys) :
    (codes ++ more : Codes T).get token = codes.get token := by
  have := get_isSome.2 h
  rw [Codes.get, Option.isSome_map] at this
  obtain ⟨entry, he⟩ := Option.isSome_iff_exists.1 this
  rw [Codes.get, Codes.get, find?_append, he]
  rfl

theorem unitOf_append (more : Codes T) (h : token ∈ codes.keys) :
    unitOf (codes ++ more) token = unitOf codes token := by
  rw [unitOf, unitOf, get_append more h]

theorem get_mem {code : Nat} (h : codes.get token = some code) : (token, code) ∈ codes := by
  rw [Codes.get, Option.map_eq_some_iff] at h
  obtain ⟨entry, he, rfl⟩ := h
  have := find?_some he
  rw [decide_eq_true_eq] at this
  rw [← this]
  exact mem_of_find?_eq_some he

theorem unitOf_inj (h : WellCoded codes) (hlen : codes.length ≤ maxTokens) {x y : T}
    (hx : x ∈ codes.keys) (hy : y ∈ codes.keys) (he : unitOf codes x = unitOf codes y) : x = y := by
  obtain ⟨c, hc⟩ := Option.isSome_iff_exists.1 (get_isSome.2 hx)
  obtain ⟨d, hd⟩ := Option.isSome_iff_exists.1 (get_isSome.2 hy)
  have hsmall : ∀ e ∈ codes, e.2 ≤ 0xffff := by
    intro e hmem
    have : e.2 ∈ codes.map Prod.snd := mem_map_of_mem hmem
    rw [h.codes, mem_map] at this
    obtain ⟨i, hi, hie⟩ := this
    rw [← hie]
    exact nextCode_le ((mem_range.1 hi).trans_le hlen)
  have hnodup : (codes.map Prod.snd).Nodup := by
    rw [h.codes]
    exact nodup_range.map nextCode_strictMono.injective
  have hcd : c = d := by
    rw [unitOf, unitOf, hc, hd, Option.getD_some, Option.getD_some] at he
    have h1 := hsmall _ (get_mem hc)
    have h2 := hsmall _ (get_mem hd)
    have := congrArg UInt16.toNat he
    rw [UInt16.toNat_ofNat', UInt16.toNat_ofNat', Nat.mod_eq_of_lt (by omega), Nat.mod_eq_of_lt (by omega)] at this
    exact this
  subst hcd
  have := inj_on_of_nodup_map hnodup (get_mem hc) (get_mem hd) rfl
  exact (Prod.mk.inj this).1

theorem length_le_of_tokens {all l : List T} (hall : all.dedup.length ≤ maxTokens) (hl : l.Nodup) (hsub : ∀ x ∈ l, x ∈ all) :
    l.length ≤ maxTokens :=
  (subperm_of_subset hl fun x hx => mem_dedup.2 (hsub x hx)).length_le.trans hall

/-- **Encoding**: while there are units for all the tokens, each gets its own, and keeps it. -/
theorem encode_spec {all : List T} (hall : all.dedup.length ≤ maxTokens) :
    ∀ (tokens : List T) (codes : Codes T), (∀ x ∈ tokens, x ∈ all) → WellCoded codes → (∀ x ∈ codes.keys, x ∈ all) →
      ∃ more : Codes T, encode tokens codes = (some (tokens.map (unitOf (codes ++ more))), codes ++ more) ∧
        WellCoded (codes ++ more) ∧ (∀ x ∈ Codes.keys (codes ++ more), x ∈ all) ∧
        ∀ x ∈ tokens, x ∈ Codes.keys (codes ++ more)
  | [], codes, _, hw, hk => by
    refine ⟨[], ?_, ?_, ?_, nofun⟩
    · rw [encode, append_nil, map_nil]
    · rwa [append_nil]
    · rwa [append_nil]
  | token :: rest, codes, ht, hw, hk => by
    have hrest : ∀ x ∈ rest, x ∈ all := fun x hx => ht x (mem_cons_of_mem _ hx)
    cases hg : codes.get token with
    | some code =>
      obtain ⟨more, he, hw', hk', hin⟩ := encode_spec hall rest codes hrest hw hk
      have htoken : token ∈ codes.keys := get_isSome.1 (by rw [hg]; rfl)
      refine ⟨more, ?_, hw', hk', ?_⟩
      · rw [encode, hg]
        simp only [he, Option.map_some, map_cons]
        rw [unitOf_append more htoken, unitOf, hg]
        rfl
      · intro x hx
        rcases mem_cons.1 hx with rfl | hx
        · rw [Codes.keys, map_append]
          exact mem_append_left _ htoken
        · exact hin x hx
    | none =>
      have htoken : token ∉ codes.keys := fun hin => by
        have := get_isSome.2 hin
        rw [hg] at this
        cases this
      have hnodup : Codes.keys (codes ++ [(token, nextCode codes.length)]) = codes.keys ++ [token] := by
        rw [Codes.keys, map_append]
        rfl
      have hkeys : ∀ x ∈ codes.keys ++ [token], x ∈ all := by
        intro x hx
        rcases mem_append.1 hx with hx | hx
        · exact hk x hx
        · rw [mem_singleton.1 hx]
          exact ht token mem_cons_self
      have hnew : (codes.keys ++ [token]).Nodup := by
        rw [nodup_append]
        refine ⟨hw.nodup, nodup_singleton token, fun x hx y hy he => htoken ?_⟩
        rw [← mem_singleton.1 hy, ← he]
        exact hx
      have hlen : codes.length < maxTokens := by
        have hle := length_le_of_tokens hall hnew hkeys
        rw [length_append, length_singleton, Codes.keys, length_map] at hle
        omega
      have hw₁ : WellCoded (codes ++ [(token, nextCode codes.length)]) := by
        constructor
        · rwa [hnodup]
        · rw [map_append, hw.codes, length_append, length_singleton, range_succ, map_append]
          rfl
      obtain ⟨more, he, hw', hk', hin⟩ := encode_spec hall rest (codes ++ [(token, nextCode codes.length)]) hrest hw₁
        (by rwa [hnodup])
      rw [append_assoc] at he hw' hk' hin
      refine ⟨[(token, nextCode codes.length)] ++ more, ?_, hw', hk', ?_⟩
      · have hunit : unitOf (codes ++ ([(token, nextCode codes.length)] ++ more)) token =
            UInt16.ofNat (nextCode codes.length) := by
          rw [← append_assoc, unitOf_append more (by rw [hnodup]; simp), unitOf, Codes.get, find?_append]
          have : codes.find? (fun entry => entry.1 = token) = none := by
            rw [Codes.get, Option.map_eq_none_iff] at hg
            exact hg
          rw [this]
          simp
        rw [encode, hg]
        rw [if_neg (by have := nextCode_le hlen; omega), he, map_cons, hunit]
        rfl
      · intro x hx
        rcases mem_cons.1 hx with rfl | hx
        · rw [Codes.keys, map_append]
          exact mem_append_right _ (by simp)
        · exact hin x hx

end Codes

/-! ## Clusters -/

section Clusters

theorem Before.trans {x y z : Tagged} (h : Before x y) (h' : Before y z) : Before x z := by
  unfold Before at *
  omega

instance : Std.Total Before := ⟨fun x y => by unfold Before; omega⟩
instance : IsTrans Tagged Before := ⟨fun _ _ _ => Before.trans⟩

/-- The hunks of a cluster fill its span, inside a base of `n` tokens. -/
structure Spanned (n : Nat) (c : Cluster) : Prop where
  le : c.lo ≤ c.hi
  hi : c.hi ≤ n
  some : c.hunks ≠ []
  within : ∀ t ∈ c.hunks, c.lo ≤ t.hunk.aFrom ∧ t.hunk.aTo ≤ c.hi

variable {n : Nat}

theorem clustersFrom_spec : ∀ (l : List Tagged) (c : Cluster), Spanned n c → l.Pairwise Before →
    (∀ t ∈ l, c.lo ≤ t.hunk.aFrom ∧ t.hunk.aFrom ≤ t.hunk.aTo ∧ t.hunk.aTo ≤ n) →
      (∀ c' ∈ clustersFrom c l, Spanned n c' ∧ c.lo ≤ c'.lo) ∧
        (clustersFrom c l).Pairwise (fun c₁ c₂ => c₁.hi < c₂.lo) ∧
          (clustersFrom c l).flatMap Cluster.hunks = c.hunks ++ l
  | [], c, hc, _, _ => by
    rw [clustersFrom]
    refine ⟨fun c' hc' => ?_, pairwise_singleton _ _, ?_⟩
    · rw [mem_singleton.1 hc']
      exact ⟨hc, Nat.le_refl _⟩
    · rw [flatMap_singleton, append_nil]
  | next :: rest, c, hc, hl, hr => by
    have hnext := hr next mem_cons_self
    have hsorted := pairwise_cons.1 hl
    rw [clustersFrom]
    by_cases hle : next.hunk.aFrom ≤ c.hi
    · rw [if_pos hle, Nat.min_eq_left hnext.1]
      have hspan : Spanned n ⟨c.lo, max c.hi next.hunk.aTo, c.hunks ++ [next]⟩ := by
        refine ⟨hc.le.trans (Nat.le_max_left _ _), Nat.max_le.2 ⟨hc.hi, hnext.2.2⟩, by simp, fun t ht => ?_⟩
        rcases mem_append.1 ht with ht | ht
        · exact ⟨(hc.within t ht).1, (hc.within t ht).2.trans (Nat.le_max_left _ _)⟩
        · rw [mem_singleton.1 ht]
          exact ⟨hnext.1, Nat.le_max_right _ _⟩
      obtain ⟨h1, h2, h3⟩ := clustersFrom_spec rest _ hspan hsorted.2 fun t ht => hr t (mem_cons_of_mem _ ht)
      refine ⟨h1, h2, ?_⟩
      rw [h3, append_assoc, singleton_append]
    · rw [if_neg hle]
      have hspan : Spanned n ⟨next.hunk.aFrom, next.hunk.aTo, [next]⟩ := by
        refine ⟨hnext.2.1, hnext.2.2, by simp, fun t ht => ?_⟩
        rw [mem_singleton.1 ht]
        exact ⟨Nat.le_refl _, Nat.le_refl _⟩
      obtain ⟨h1, h2, h3⟩ := clustersFrom_spec rest _ hspan hsorted.2 fun t ht => by
        have hb := hsorted.1 t ht
        have := hr t (mem_cons_of_mem _ ht)
        unfold Before at hb
        refine ⟨?_, this.2⟩
        show next.hunk.aFrom ≤ _
        omega
      refine ⟨fun c' hc' => ?_, pairwise_cons.2 ⟨fun c' hc' => ?_, h2⟩, ?_⟩
      · rcases mem_cons.1 hc' with rfl | hc'
        · exact ⟨hc, Nat.le_refl _⟩
        · exact ⟨(h1 c' hc').1, hnext.1.trans (h1 c' hc').2⟩
      · have : next.hunk.aFrom ≤ c'.lo := (h1 c' hc').2
        omega
      · rw [flatMap_cons, h3]
        rfl

/-- The clusters of a sorted list. -/
structure Clustered (n : Nat) (l : List Tagged) (cs : List Cluster) : Prop where
  spanned : ∀ c ∈ cs, Spanned n c
  apart : cs.Pairwise (fun c c' => c.hi < c'.lo)
  hunks : cs.flatMap Cluster.hunks = l

variable {l : List Tagged}

theorem clusters_spec (hl : l.Pairwise Before)
    (hr : ∀ t ∈ l, t.hunk.aFrom ≤ t.hunk.aTo ∧ t.hunk.aTo ≤ n) : Clustered n l (clusters l) := by
  cases l with
  | nil => exact ⟨fun c hc => (by cases hc), List.Pairwise.nil, rfl⟩
  | cons first rest =>
    have hfirst := hr first mem_cons_self
    have hsorted := pairwise_cons.1 hl
    have hspan : Spanned n ⟨first.hunk.aFrom, first.hunk.aTo, [first]⟩ := by
      refine ⟨hfirst.1, hfirst.2, by simp, fun t ht => ?_⟩
      rw [mem_singleton.1 ht]
      exact ⟨Nat.le_refl _, Nat.le_refl _⟩
    obtain ⟨h1, h2, h3⟩ := clustersFrom_spec rest _ hspan hsorted.2 fun t ht => by
      have hb := hsorted.1 t ht
      have := hr t (mem_cons_of_mem _ ht)
      unfold Before at hb
      refine ⟨?_, this⟩
      show first.hunk.aFrom ≤ _
      omega
    exact ⟨fun c hc => (h1 c hc).1, h2, h3⟩

def sideOf (l : List Tagged) (side : Side) : List Hunk := (l.filter (fun t => t.side = side)).map Tagged.hunk

theorem sideIn_flatMap (cs : List Cluster) (side : Side) :
    cs.flatMap (fun c => c.sideIn side) = sideOf (cs.flatMap Cluster.hunks) side := by
  induction cs with
  | nil => rfl
  | cons c cs ih => rw [flatMap_cons, flatMap_cons, ih, sideOf, sideOf, filter_append, map_append]; rfl

/-- **A cluster's hunks of a side** are those of the side that start in its span. -/
theorem Clustered.sideIn_eq : ∀ {cs : List Cluster}, Clustered n l cs →
    (∀ t ∈ l, t.hunk.aFrom ≤ t.hunk.aTo) → ∀ c ∈ cs, ∀ side,
      c.sideIn side = (sideOf l side).filter (fun h => c.lo ≤ h.aFrom ∧ h.aFrom ≤ c.hi) := by
  intro cs h hr c hc side
  obtain ⟨pre, post, rfl⟩ := append_of_mem hc
  have hin : ∀ c' ∈ pre ++ c :: post, ∀ x ∈ c'.sideIn side, c'.lo ≤ x.aFrom ∧ x.aFrom ≤ c'.hi := by
    intro c' hc' x hx
    rw [Cluster.sideIn, mem_map] at hx
    obtain ⟨t, ht, rfl⟩ := hx
    have htc := (mem_filter.1 ht).1
    have hw := (h.spanned c' hc').within t htc
    have htl : t ∈ l := by
      rw [← h.hunks]
      exact mem_flatMap.2 ⟨c', hc', htc⟩
    exact ⟨hw.1, (hr t htl).trans hw.2⟩
  have hapart := pairwise_append.1 h.apart
  have hbefore : (pre.flatMap (fun c => c.sideIn side)).filter (fun x => c.lo ≤ x.aFrom ∧ x.aFrom ≤ c.hi) = [] := by
    rw [filter_eq_nil_iff]
    intro x hx
    obtain ⟨c', hc', hx⟩ := mem_flatMap.1 hx
    have := hin c' (mem_append_left _ hc') x hx
    have := hapart.2.2 c' hc' c mem_cons_self
    rw [decide_eq_true_eq]
    omega
  have hafter : (post.flatMap (fun c => c.sideIn side)).filter (fun x => c.lo ≤ x.aFrom ∧ x.aFrom ≤ c.hi) = [] := by
    rw [filter_eq_nil_iff]
    intro x hx
    obtain ⟨c', hc', hx⟩ := mem_flatMap.1 hx
    have := hin c' (mem_append_right _ (mem_cons_of_mem c hc')) x hx
    have := (pairwise_cons.1 hapart.2.1).1 c' hc'
    rw [decide_eq_true_eq]
    omega
  have hself : (c.sideIn side).filter (fun x => c.lo ≤ x.aFrom ∧ x.aFrom ≤ c.hi) = c.sideIn side := by
    rw [filter_eq_self]
    intro x hx
    rw [decide_eq_true_eq]
    exact hin c (mem_append_right _ mem_cons_self) x hx
  rw [← h.hunks, ← sideIn_flatMap, flatMap_append, flatMap_cons, filter_append, filter_append, hbefore,
    hafter, hself, nil_append, append_nil]

/-! ### Two sides -/

section Tagging
variable {ours theirs : List Hunk}

theorem tagged_perm : (tagged ours theirs).Perm (ours.map (Tagged.mk · .ours) ++ theirs.map (Tagged.mk · .theirs)) :=
  perm_insertionSort _ _

theorem tagged_sorted : (tagged ours theirs).Pairwise Before := pairwise_insertionSort _ _

theorem mem_tagged {t : Tagged} :
    t ∈ tagged ours theirs ↔ t.side = .ours ∧ t.hunk ∈ ours ∨ t.side = .theirs ∧ t.hunk ∈ theirs := by
  rw [tagged_perm.mem_iff, mem_append, mem_map, mem_map]
  constructor
  · rintro (⟨h, hh, rfl⟩ | ⟨h, hh, rfl⟩)
    · exact .inl ⟨rfl, hh⟩
    · exact .inr ⟨rfl, hh⟩
  · rcases t with ⟨h, side⟩
    rintro (⟨rfl, hh⟩ | ⟨rfl, hh⟩)
    · exact .inl ⟨h, hh, rfl⟩
    · exact .inr ⟨h, hh, rfl⟩

theorem sideOf_sorted {l : List Tagged} {hs : List Hunk} {side : Side}
    (hf : l.filter (fun t => t.side = side) = hs.map (Tagged.mk · side))
    (hs' : hs.Pairwise (fun h h' => h.aFrom < h'.aFrom)) : sideOf (l.insertionSort Before) side = hs := by
  have hsorted : (hs.map (Tagged.mk · side)).Pairwise Before := by
    rw [pairwise_map]
    exact hs'.imp fun h => .inl h
  have hsub : (hs.map (Tagged.mk · side)).Sublist ((l.insertionSort Before).filter (fun t => t.side = side)) := by
    have := (sublist_insertionSort hsorted (hf ▸ filter_sublist)).filter (fun t => decide (t.side = side))
    rwa [filter_eq_self.2 fun t ht => by
      obtain ⟨h, -, rfl⟩ := mem_map.1 ht
      exact decide_eq_true rfl] at this
  have hlen : ((l.insertionSort Before).filter (fun t => t.side = side)).length = (hs.map (Tagged.mk · side)).length := by
    rw [← hf]
    exact ((perm_insertionSort Before l).filter _).length_eq
  rw [sideOf, ← hsub.eq_of_length hlen.symm, map_map]
  exact map_id hs

theorem filter_tags (ours theirs : List Hunk) (side : Side) :
    (ours.map (Tagged.mk · .ours) ++ theirs.map (Tagged.mk · .theirs)).filter (fun t => t.side = side) =
      (if side = .ours then ours else theirs).map (Tagged.mk · side) := by
  rw [filter_append, filter_map, filter_map]
  cases side <;> simp [Function.comp_def]

theorem sideOf_tagged (ho : ours.Pairwise (fun h h' => h.aFrom < h'.aFrom))
    (ht : theirs.Pairwise (fun h h' => h.aFrom < h'.aFrom)) :
    sideOf (tagged ours theirs) .ours = ours ∧ sideOf (tagged ours theirs) .theirs = theirs :=
  ⟨sideOf_sorted (filter_tags ours theirs .ours) ho, sideOf_sorted (filter_tags ours theirs .theirs) ht⟩

end Tagging

end Clusters

/-! ## Alignment -/

section Alignment
variable {T : Type} {base side : List T}

theorem delta_eq (hs : List Hunk) : delta hs = growth hs := by
  have h : ∀ (hs : List Hunk) (sum : Int),
      hs.foldl (fun sum hunk => sum + ((hunk.bTo : Int) - hunk.bFrom) - ((hunk.aTo : Int) - hunk.aFrom)) sum =
        sum + growth hs := by
    intro hs
    induction hs with
    | nil => exact fun sum => (Int.add_zero sum).symm
    | cons h hs ih =>
      intro sum
      rw [foldl_cons, ih, growth]
      omega
  rw [delta, h, Int.zero_add]

theorem within_of_apart {hi : Nat} : ∀ {hs : List Hunk} {lo : Nat}, lo ≤ hi →
    hs.Pairwise (fun h h' => h.aTo < h'.aFrom) → (∀ h ∈ hs, lo ≤ h.aFrom ∧ h.aFrom ≤ h.aTo ∧ h.aTo ≤ hi) → Within lo hi hs
  | [], _, hlo, _, _ => hlo
  | h :: hs, lo, _, hp, hr => by
    have hh := hr h mem_cons_self
    have hp := pairwise_cons.1 hp
    refine ⟨hh.1, hh.2.1, within_of_apart hh.2.2 hp.2 fun x hx => ?_⟩
    have := hr x (mem_cons_of_mem h hx)
    exact ⟨(hp.1 x hx).le, this.2⟩

/-- What is left of a side from position `j`, and of the base from `i`: the hunks still to come make one of the other. -/
structure Left (base side : List T) (i j : Nat) (hs : List Hunk) : Prop where
  apart : hs.Pairwise (fun h h' => h.aTo < h'.aFrom)
  aRange : ∀ h ∈ hs, i ≤ h.aFrom ∧ h.aFrom ≤ h.aTo ∧ h.aTo ≤ base.length
  bRange : ∀ h ∈ hs, h.bFrom ≤ h.bTo ∧ h.bTo ≤ side.length
  le : j ≤ side.length
  drop : side.drop j = inside base side i base.length hs

theorem left_of_diff {hs : List Hunk} (h : IsDiff base side hs) : Left base side 0 0 hs :=
  ⟨h.apart, fun x hx => ⟨Nat.zero_le _, h.aRange x hx⟩, h.bRange, Nat.zero_le _, h.applies.symm⟩

/-- **One side at a cluster**: the text before it is the base's, its own part is what its hunks make of the span, and the
rest goes on after it; its positions are the base's, moved by the hunks so far. -/
theorem Left.step {i j lo hi : Nat} {ins rest : List Hunk} (h : Left base side i j (ins ++ rest))
    (hi' : i ≤ lo) (hlo : lo ≤ hi) (hhi : hi ≤ base.length) (hins : ∀ x ∈ ins, lo ≤ x.aFrom ∧ x.aTo ≤ hi)
    (hrest : ∀ x ∈ rest, hi ≤ x.aFrom) :
    ∃ p q : Nat, (p : Int) = lo + (j - i) ∧ (q : Int) = hi + (j - i) + growth ins ∧ j ≤ p ∧ p ≤ q ∧ q ≤ side.length ∧
      slice side j p = slice base i lo ∧ slice side p q = inside base side lo hi ins ∧ Left base side hi q rest := by
  have hapart := pairwise_append.1 h.apart
  have hwins : Within lo hi ins := within_of_apart hlo hapart.1 fun x hx =>
    ⟨(hins x hx).1, (h.aRange x (mem_append_left _ hx)).2.1, (hins x hx).2⟩
  have hrange : ∀ x ∈ rest, hi ≤ x.aFrom ∧ x.aFrom ≤ x.aTo ∧ x.aTo ≤ base.length := fun x hx =>
    ⟨hrest x hx, (h.aRange x (mem_append_right _ hx)).2⟩
  have hwrest : Within hi base.length rest := within_of_apart hhi hapart.2.1 hrange
  have hsplit : side.drop j = slice base i lo ++ (inside base side lo hi ins ++ inside base side hi base.length rest) := by
    rw [h.drop, ← inside_append hwrest hwins, ← inside_skip hi' (hwins.append hwrest)]
  obtain ⟨hgap, hdrop⟩ := slice_of_drop hsplit
  obtain ⟨hpart, hlast⟩ := slice_of_drop hdrop
  have hlen₁ : (slice base i lo).length = lo - i := length_slice (by omega)
  have hlen₂ := length_inside hhi hwins fun x hx => h.bRange x (mem_append_left _ hx)
  have hle := h.le
  have htotal := congrArg List.length hsplit
  rw [length_drop, length_append, length_append] at htotal
  refine ⟨_, _, ?_, ?_, ?_, ?_, ?_, hgap, hpart, hapart.2.1, hrange, fun x hx => h.bRange x (mem_append_right _ hx), ?_,
    hlast⟩ <;> omega

/-- Regions that follow on from these positions of the base and of both sides. -/
def Aligned (P : MergeRegion → Prop) (base ours theirs : List T) : Nat → Nat → Nat → List MergeRegion → Prop
  | i, j, k, [] => (i ≤ base.length ∧ j ≤ ours.length ∧ k ≤ theirs.length) ∧ ours.drop j = base.drop i ∧
    theirs.drop k = base.drop i
  | i, j, k, region :: rest => ∃ lo hi p q u v : Nat,
    region.base = ((lo : Int), (hi : Int)) ∧ region.ours = ((p : Int), (q : Int)) ∧ region.theirs = ((u : Int), (v : Int)) ∧
      (i ≤ lo ∧ lo ≤ hi ∧ hi ≤ base.length) ∧ (j ≤ p ∧ p ≤ q ∧ q ≤ ours.length) ∧ (k ≤ u ∧ u ≤ v ∧ v ≤ theirs.length) ∧
        slice ours j p = slice base i lo ∧ slice theirs k u = slice base i lo ∧ P region ∧
          Aligned P base ours theirs hi q v rest

variable [DecidableEq T]

theorem sameTokens_iff {a b : List T} {p q u v : Nat} (hpq : p ≤ q) (hq : q ≤ a.length) (huv : u ≤ v) (hv : v ≤ b.length) :
    sameTokens a ((p : Int), (q : Int)) b ((u : Int), (v : Int)) = true ↔ slice a p q = slice b u v := by
  have hlen : ((q : Int) - p = v - u) ↔ (slice a p q).length = (slice b u v).length := by
    rw [length_slice hq, length_slice hv]
    omega
  have hget : ∀ (l : List T) (x y i : Nat), i < y - x → (slice l x y)[i]? = l[x + i]? := by
    intro l x y i h
    rw [slice, getElem?_drop, getElem?_take, if_pos (by omega)]
  rw [sameTokens, Bool.and_eq_true, decide_eq_true_eq, all_eq_true]
  simp only [Int.toNat_natCast, decide_eq_true_eq, mem_range]
  constructor
  · rintro ⟨h, heq⟩
    refine ext_getElem? fun i => ?_
    by_cases hlt : i < q - p
    · rw [hget a p q i hlt, hget b u v i (by omega)]
      exact heq i (by omega)
    · rw [getElem?_eq_none (by rw [length_slice hq]; omega), getElem?_eq_none (by rw [length_slice hv]; omega)]
  · intro h
    have hl := hlen.2 (congrArg List.length h)
    refine ⟨hl, fun i hi => ?_⟩
    rw [← hget a p q i (by omega), ← hget b u v i (by omega), h]

/-- A region shows what its cluster's hunks make of the span. -/
structure Shows (base ours theirs : List T) (c : Cluster) (r : MergeRegion) : Prop where
  baseText : text base r.base = slice base c.lo c.hi
  oursText : text ours r.ours = inside base ours c.lo c.hi (c.sideIn .ours)
  theirsText : text theirs r.theirs = inside base theirs c.lo c.hi (c.sideIn .theirs)
  kind : r.kind = if (c.sideIn .theirs).isEmpty then .ours
    else if (c.sideIn .ours).isEmpty then .theirs
    else if text ours r.ours = text theirs r.theirs then .both else .conflict

/-- **The regions are aligned.** -/
theorem aligned {base ours theirs : List T} {P : MergeRegion → Prop} : ∀ (cs : List Cluster) (i j k : Nat),
    (∀ c ∈ cs, Spanned base.length c ∧ i ≤ c.lo) → cs.Pairwise (fun c c' => c.hi < c'.lo) → i ≤ base.length →
      Left base ours i j (cs.flatMap (fun c => c.sideIn .ours)) →
        Left base theirs i k (cs.flatMap (fun c => c.sideIn .theirs)) →
          (∀ c ∈ cs, ∀ r, Shows base ours theirs c r → P r) →
            Aligned P base ours theirs i j k (regionsFrom ours theirs ((j : Int) - i) ((k : Int) - i) cs)
  | [], i, j, k, _, _, hi, ho, ht, _ => by
    rw [regionsFrom, Aligned]
    refine ⟨⟨hi, ho.le, ht.le⟩, ?_, ?_⟩
    · rw [ho.drop]
      exact slice_length base i
    · rw [ht.drop]
      exact slice_length base i
  | c :: cs, i, j, k, hc, hp, hi, ho, ht, hP => by
    obtain ⟨hspan, hlo⟩ := hc c mem_cons_self
    have hpair := pairwise_cons.1 hp
    have hins : ∀ side, ∀ x ∈ c.sideIn side, c.lo ≤ x.aFrom ∧ x.aTo ≤ c.hi := by
      intro side x hx
      rw [Cluster.sideIn, mem_map] at hx
      obtain ⟨t, ht, rfl⟩ := hx
      exact hspan.within t (mem_filter.1 ht).1
    have hrest : ∀ side, ∀ x ∈ cs.flatMap (fun c => c.sideIn side), c.hi ≤ x.aFrom := by
      intro side x hx
      obtain ⟨c', hc', hx⟩ := mem_flatMap.1 hx
      rw [Cluster.sideIn, mem_map] at hx
      obtain ⟨t, ht, rfl⟩ := hx
      have := ((hc c' (mem_cons_of_mem c hc')).1.within t (mem_filter.1 ht).1).1
      have := hpair.1 c' hc'
      omega
    rw [flatMap_cons] at ho ht
    obtain ⟨p, q, hpo, hqo, hjp, hpq, hq, hgapo, hparto, hlefto⟩ := ho.step hlo hspan.le hspan.hi (hins .ours) (hrest .ours)
    obtain ⟨u, v, hut, hvt, hku, huv, hv, hgapt, hpartt, hleftt⟩ :=
      ht.step hlo hspan.le hspan.hi (hins .theirs) (hrest .theirs)
    have hours : (c.lo + ((j : Int) - i), c.hi + ((j : Int) - i) + delta (c.sideIn .ours)) = ((p : Int), (q : Int)) := by
      rw [delta_eq, ← hpo, ← hqo]
    have htheirs : (c.lo + ((k : Int) - i), c.hi + ((k : Int) - i) + delta (c.sideIn .theirs)) = ((u : Int), (v : Int)) := by
      rw [delta_eq, ← hut, ← hvt]
    have hdo : (j : Int) - i + delta (c.sideIn .ours) = (q : Int) - c.hi := by
      rw [delta_eq]
      omega
    have hdt : (k : Int) - i + delta (c.sideIn .theirs) = (v : Int) - c.hi := by
      rw [delta_eq]
      omega
    rw [regionsFrom, Aligned, hdo, hdt]
    refine ⟨c.lo, c.hi, p, q, u, v, rfl, hours, htheirs, ⟨hlo, hspan.le, hspan.hi⟩, ⟨hjp, hpq, hq⟩, ⟨hku, huv, hv⟩, hgapo,
      hgapt, ?_, ?_⟩
    · rw [show regionOf ours theirs ((j : Int) - i) ((k : Int) - i) c = ⟨if (c.sideIn .theirs).isEmpty then .ours
        else if (c.sideIn .ours).isEmpty then .theirs
        else if sameTokens ours ((p : Int), (q : Int)) theirs ((u : Int), (v : Int)) then .both else .conflict,
          ((c.lo : Int), (c.hi : Int)), ((p : Int), (q : Int)), ((u : Int), (v : Int))⟩ by rw [← hours, ← htheirs]; rfl]
      refine hP c mem_cons_self _ ⟨rfl, hparto, hpartt, ?_⟩
      have hsame := sameTokens_iff hpq hq huv hv
      by_cases heq : slice ours p q = slice theirs u v
      · simp only [hsame.2 heq, text, Int.toNat_natCast, heq, if_true]
      · simp only [Bool.eq_false_iff.2 (mt hsame.1 heq), text, Int.toNat_natCast, heq, if_false, Bool.false_eq_true]
    · refine aligned cs c.hi q v (fun c' hc' => ?_) hpair.2 hspan.hi hlefto hleftt
        fun c' hc' => hP c' (mem_cons_of_mem c hc')
      exact ⟨(hc c' (mem_cons_of_mem c hc')).1, (hpair.1 c' hc').le⟩

end Alignment

end Merge
end Yuzora
