import Mathlib.Data.List.Dedup
import Mathlib.Data.List.Sort
import Yuzora.Edits
/-!
# MergeModel — the three-way merge of the conflict tool

`mergeModel.ts`: two diffs of a common base are clustered into regions, and a conflict is merged again by characters.
`diff` is the diff of the editor's library, on strings of UTF-16 code units; each token is encoded as one unit.
-/
namespace Yuzora
namespace Merge

inductive MergeRegionKind
  | ours | theirs | both | conflict
  deriving DecidableEq

abbrev Range := Int × Int

structure MergeRegion where
  kind : MergeRegionKind
  base : Range
  ours : Range
  theirs : Range
  deriving DecidableEq

/-- `Change` of the library. -/
structure Change where
  fromA : Nat
  toA : Nat
  fromB : Nat
  toB : Nat
  deriving DecidableEq

abbrev Diff := List UInt16 → List UInt16 → List Change

def Change.hunk (change : Change) : Hunk := ⟨change.fromA, change.toA, change.fromB, change.toB⟩

/-! ## Lines and characters -/

/-- Lines with their terminator: `/[^\n]*\n|[^\n]+$/g`. -/
def splitLines : List UInt16 → List (List UInt16)
  | [] => []
  | unit :: rest =>
    if unit = 10 then [unit] :: splitLines rest
    else match splitLines rest with
      | [] => [[unit]]
      | line :: lines => (unit :: line) :: lines

/-- The code points of a string, `[...text]`; a surrogate without its partner is one of its own. -/
def codePoints : List UInt16 → List (List UInt16)
  | high :: low :: rest =>
    if 0xd800 ≤ high ∧ high < 0xdc00 ∧ 0xdc00 ≤ low ∧ low < 0xe000 then [high, low] :: codePoints rest
    else [high] :: codePoints (low :: rest)
  | [unit] => [[unit]]
  | [] => []

/-! ## Tokens as code units -/

def FIRST_TOKEN_CODE : Nat := 0x100

section Tokens
variable {T : Type} [DecidableEq T]

abbrev Codes (T : Type) := List (T × Nat)

def Codes.get (codes : Codes T) (token : T) : Option Nat := (codes.find? (fun entry => entry.1 = token)).map Prod.snd

def nextCode (size : Nat) : Nat :=
  if 0xd800 ≤ FIRST_TOKEN_CODE + size then FIRST_TOKEN_CODE + size + 0x800 else FIRST_TOKEN_CODE + size

def encode : List T → Codes T → Option (List UInt16) × Codes T
  | [], codes => (some [], codes)
  | token :: rest, codes =>
    match codes.get token with
    | some code =>
      let (out, codes) := encode rest codes
      (out.map (UInt16.ofNat code :: ·), codes)
    | none =>
      let code := nextCode codes.length
      if 0xffff < code then (none, codes)
      else
        let (out, codes) := encode rest (codes ++ [(token, code)])
        (out.map (UInt16.ofNat code :: ·), codes)

def tokenDiff (diff : Diff) (a b : List T) (codes : Codes T) : Option (List Hunk) × Codes T :=
  let (encodedA, codes) := encode a codes
  let (encodedB, codes) := encode b codes
  match encodedA, encodedB with
  | some encodedA, some encodedB => (some ((diff encodedA encodedB).map Change.hunk), codes)
  | _, _ => (none, codes)

def sameTokens (a : List T) (range : Range) (b : List T) (bRange : Range) : Bool :=
  decide (range.2 - range.1 = bRange.2 - bRange.1) &&
    (List.range (range.2 - range.1).toNat).all (fun i => a[range.1.toNat + i]? = b[bRange.1.toNat + i]?)

/-! ## Regions -/

inductive Side
  | ours | theirs
  deriving DecidableEq

structure Tagged where
  hunk : Hunk
  side : Side

def Before (x y : Tagged) : Prop :=
  x.hunk.aFrom < y.hunk.aFrom ∨ x.hunk.aFrom = y.hunk.aFrom ∧ x.hunk.aTo ≤ y.hunk.aTo

instance : DecidableRel Before := fun x y => by
  unfold Before
  infer_instance

def tagged (oursHunks theirsHunks : List Hunk) : List Tagged :=
  (oursHunks.map (Tagged.mk · .ours) ++ theirsHunks.map (Tagged.mk · .theirs)).insertionSort Before

/-- A run of hunks whose base ranges overlap or touch. -/
structure Cluster where
  lo : Nat
  hi : Nat
  hunks : List Tagged

/-- The outer loop goes on while a hunk is left, the inner one while it is not beyond `hi`. -/
def clustersFrom (cluster : Cluster) : List Tagged → List Cluster
  | [] => [cluster]
  | next :: rest =>
    if next.hunk.aFrom ≤ cluster.hi then
      clustersFrom ⟨min cluster.lo next.hunk.aFrom, max cluster.hi next.hunk.aTo, cluster.hunks ++ [next]⟩ rest
    else cluster :: clustersFrom ⟨next.hunk.aFrom, next.hunk.aTo, [next]⟩ rest

def clusters : List Tagged → List Cluster
  | [] => []
  | first :: rest => clustersFrom ⟨first.hunk.aFrom, first.hunk.aTo, [first]⟩ rest

def Cluster.sideIn (cluster : Cluster) (side : Side) : List Hunk :=
  (cluster.hunks.filter (fun tagged => tagged.side = side)).map Tagged.hunk

def delta (hunks : List Hunk) : Int :=
  hunks.foldl (fun sum hunk => sum + ((hunk.bTo : Int) - hunk.bFrom) - ((hunk.aTo : Int) - hunk.aFrom)) 0

def regionOf (ours theirs : List T) (oursDelta theirsDelta : Int) (cluster : Cluster) : MergeRegion :=
  let oursIn := cluster.sideIn .ours
  let theirsIn := cluster.sideIn .theirs
  let oursRange : Range := (cluster.lo + oursDelta, cluster.hi + oursDelta + delta oursIn)
  let theirsRange : Range := (cluster.lo + theirsDelta, cluster.hi + theirsDelta + delta theirsIn)
  let kind : MergeRegionKind :=
    if theirsIn.isEmpty then .ours
    else if oursIn.isEmpty then .theirs
    else if sameTokens ours oursRange theirs theirsRange then .both
    else .conflict
  { kind, base := (cluster.lo, cluster.hi), ours := oursRange, theirs := theirsRange }

def regionsFrom (ours theirs : List T) : Int → Int → List Cluster → List MergeRegion
  | _, _, [] => []
  | oursDelta, theirsDelta, cluster :: rest =>
    regionOf ours theirs oursDelta theirsDelta cluster ::
      regionsFrom ours theirs (oursDelta + delta (cluster.sideIn .ours)) (theirsDelta + delta (cluster.sideIn .theirs)) rest

def mergeRegions (diff : Diff) (base ours theirs : List T) : List MergeRegion :=
  let (oursHunks, codes) := tokenDiff diff base ours []
  let (theirsHunks, _) := tokenDiff diff base theirs codes
  match oursHunks, theirsHunks with
  | some oursHunks, some theirsHunks => regionsFrom ours theirs 0 0 (clusters (tagged oursHunks theirsHunks))
  -- too many distinct tokens to encode: one conflict over everything
  | _, _ => [⟨.conflict, (0, base.length), (0, ours.length), (0, theirs.length)⟩]

end Tokens

def text {T : Type} (l : List T) (range : Range) : List T := slice l range.1.toNat range.2.toNat

/-- The loop of `resolveSimpleConflict`. -/
def resolveFrom {T : Type} (base ours theirs : List (List T)) : Int → List MergeRegion → List T
  | «at», [] => (base.drop «at».toNat).flatten
  | «at», region :: rest =>
    (text base («at», region.base.1)).flatten ++
      (if region.kind = .theirs then (text theirs region.theirs).flatten else (text ours region.ours).flatten) ++
      resolveFrom base ours theirs region.base.2 rest

def resolveSimpleConflict (diff : Diff) (base ours theirs : List UInt16) : Option (List UInt16) :=
  let baseChars := codePoints base
  let oursChars := codePoints ours
  let theirsChars := codePoints theirs
  let regions := mergeRegions diff baseChars oursChars theirsChars
  if regions.any (fun region => region.kind = .conflict) then none
  else some (resolveFrom baseChars oursChars theirsChars 0 regions)

end Merge
end Yuzora
