import Yuzora.SmartPop
/-!
# SmartCheckoutRuns — every run of a smart checkout among other clients

A run keeps to the checkout's own entries and loses nothing, as long as its second pop finds no other client's entry on
top; a run in which it does pops that entry and reports success.
-/
namespace Yuzora
namespace Git

/-- What a request to switch branches runs with `smart` set. -/
def SwitchRequest.smartCheckout (request : SwitchRequest) (root : Root) (nonce untrackedNonce : String) :
    Script GitOperationOutcome :=
  switchKeepingChanges root true request.target request.switch nonce untrackedNonce

namespace Sample

def oidA : GitOid := ⟨"aaaaaaaaaaaaaaaaaaaaaaaaaaaaaaaaaaaaaaaa", by decide, by decide⟩
def oidB : GitOid := ⟨"bbbbbbbbbbbbbbbbbbbbbbbbbbbbbbbbbbbbbbbb", by decide, by decide⟩
def oidC : GitOid := ⟨"cccccccccccccccccccccccccccccccccccccccc", by decide, by decide⟩
def oidD : GitOid := ⟨"dddddddddddddddddddddddddddddddddddddddd", by decide, by decide⟩

def main : BranchName := ⟨"main", by decide⟩
def feature : BranchName := ⟨"feature", by decide⟩

/-- Both branches have the file `c.txt`. -/
def refs : Refs where
  commit spec := if spec = "refs/heads/feature" then some oidD else none
  symbolic _ := none
  files _ := ["c.txt"]
  kind _ := "missing"
  ignored _ := false

def repo : Repo Unit where
  head := .branch main
  commit := oidC
  index := ["c.txt"]
  changes := [⟨"c.txt", ()⟩]
  unmerged := []
  stash := ⟨[], [], List.nodup_nil, List.nodup_nil, by simp⟩
  pushed := []

def mine : StashEntry Unit := ⟨oidA, "On main: Yuzora smart checkout [1]", [⟨"c.txt", ()⟩], []⟩

def theirs : StashEntry Unit := ⟨oidB, "On main: work", [⟨"d.txt", ()⟩], []⟩

def request : SwitchRequest := .checkout "feature"

abbrev world : World Command Reply (Repo Unit) := stashWorld refs (checkoutLabels "1" "2")

abbrev script : Script GitOperationOutcome := request.smartCheckout ⟨true⟩ "1" "2"

/-- A run without a second pop that finds another client's entry. -/
def ClearRun (l : List (Transition (Running Command Reply String GitOperationOutcome (Repo Unit)) (Act Command Reply)))
    (x : Running Command Reply String GitOperationOutcome (Repo Unit)) : Prop :=
  world.Runs script repo l x ∧ ∀ y ∈ l, ∀ c r, y.label = .own c r → SecondPopClear y.src.state c

theorem ClearRun.own {l : List (Transition (Running Command Reply String GitOperationOutcome (Repo Unit)) (Act Command Reply))}
    {x y : Running Command Reply String GitOperationOutcome (Repo Unit)} {c : Command} {r : Reply c} (h : ClearRun l x)
    (hst : world.Step x (.own c r) y) (hc : c ≠ .stashPop false) : ClearRun (l ++ [⟨x, .own c r, y⟩]) y := by
  refine ⟨h.1.snoc hst, fun z hz c' r' hl heq => ?_⟩
  rcases List.mem_append.1 hz with hz | hz
  · exact h.2 z hz c' r' hl heq
  · rw [List.mem_singleton.1 hz] at hl
    cases hl
    exact absurd heq hc

theorem mine_ne : mine ≠ theirs := by
  intro h
  have hoid := congrArg (fun e : StashEntry Unit => e.oid.text) h
  revert hoid
  decide

end Sample

theorem smart_checkout_safe {δ : Type} {refs : Refs} {root : Root} {request : SwitchRequest} {nonce untrackedNonce : String}
    {s : Repo δ} (hnew : s.pushed = []) (hunused : Unused (checkoutLabels nonce untrackedNonce) s)
    {l : List (Transition (Running Command Reply String GitOperationOutcome (Repo δ)) (Act Command Reply))}
    {x : Running Command Reply String GitOperationOutcome (Repo δ)}
    (hrun : (stashWorld refs (checkoutLabels nonce untrackedNonce)).Runs
      (request.smartCheckout root nonce untrackedNonce) s l x)
    (hclear : ∀ y ∈ l, ∀ c r, y.label = .own c r → SecondPopClear y.src.state c) :
    (∀ y ∈ l, ∀ c r, y.label = .own c r → OwnTarget y.src.state c) ∧
      ∀ r, x.prog = .done r → Safe (request.Arrived refs) r x.state := by
  have hstart : Untouched (stashLabel SMART_CHECKOUT_STASH nonce)
      (stashLabel SMART_CHECKOUT_UNTRACKED_STASH untrackedNonce) s := by
    refine ⟨⟨hnew, fun e he => ?_, nofun⟩, fun e he hm => ?_, fun e he hm => ?_⟩
    · rw [hnew] at he
      cases he
    · exact absurd hm (hunused _ List.mem_cons_self e he)
    · exact absurd hm (hunused _ (List.mem_cons_of_mem _ List.mem_cons_self) e he)
  have hsw : Switches δ refs (checkoutLabels nonce untrackedNonce) (request.Arrived refs) request.switch := request.switches
  obtain ⟨hown, hend⟩ := ((switchKeepingChanges_spec hsw root request.target).ensures false s hstart).run hrun hclear
  refine ⟨hown, fun r hr => ?_⟩
  rw [hr] at hend
  exact hend

/-- The changes come back with the first pop. -/
theorem smart_checkout_safe_popped : ∃ l x, Sample.world.Runs Sample.script Sample.repo l x ∧
    Safe (Sample.request.Arrived Sample.refs) (.ok ⟨false⟩) x.state := by
  have h0 : Sample.ClearRun [] ⟨_, Sample.repo, false⟩ :=
    ⟨Trace.start rfl, fun _ hy => absurd hy List.not_mem_nil⟩
  have h1 := h0.own (.own _ false (.failed _ (.revParseStash none) ⟨1, "", ""⟩ (by decide))) nofun
  have h2 := h1.own (.own _ _ (.saved _ _ "" "" Sample.mine (by decide) ⟨rfl, rfl, rfl, rfl, nofun⟩ (by decide))) nofun
  have h3 := h2.own (.own _ _ (.stashList _ "")) nofun
  have h4 := h3.own (.own _ _ (.switch _ Sample.feature Sample.oidD "" "" (by decide) nofun)) nofun
  have h5 := h4.own (.own _ _ (.revParseStash _ _ Sample.mine "" rfl)) nofun
  have h6 := h5.own (.own _ _ (.popped _ true Sample.mine "" "" rfl)) nofun
  exact ⟨_, _, h6.1, (smart_checkout_safe rfl (fun _ _ _ he => absurd he List.not_mem_nil) h6.1 h6.2).2 _ rfl⟩

/-- **The second pop takes another client's entry**, when it is pushed after the first pop failed: its owner's work is
popped here, the checkout's own changes stay in the stash, and the answer is a success. -/
theorem second_pop_takes_another : ∃ l x, Sample.world.Runs Sample.script Sample.repo l x ∧
    (∃ y ∈ l, ∃ r, y.label = .own (.stashPop false) r ∧ target y.src.state (.stashPop false) = some Sample.theirs ∧
      Sample.theirs ∉ y.src.state.pushed ∧ Sample.theirs ∉ y.dst.state.stash.entries) ∧
    x.prog = .done (.ok ⟨false⟩) ∧ Sample.mine ∈ x.state.pushed ∧ Sample.mine ∈ x.state.stash.entries ∧
    ¬ Back Sample.mine x.state := by
  have h0 : Sample.world.Runs Sample.script Sample.repo [] ⟨_, Sample.repo, false⟩ := Trace.start rfl
  have h1 := h0.snoc (.own _ false (.failed _ (.revParseStash none) ⟨1, "", ""⟩ (by decide)))
  have h2 := h1.snoc (.own _ _ (.saved _ _ "" "" Sample.mine (by decide) ⟨rfl, rfl, rfl, rfl, nofun⟩ (by decide)))
  have h3 := h2.snoc (.own _ _ (.stashList _ ""))
  have h4 := h3.snoc (.own _ _ (.switch _ Sample.feature Sample.oidD "" "" (by decide) nofun))
  have h5 := h4.snoc (.own _ _ (.revParseStash _ _ Sample.mine "" rfl))
  have h6 := h5.snoc (.own _ _ (.failed _ (.stashPop true) ⟨1, "", ""⟩ (by decide)))
  have h7 := h6.snoc (.own _ _ (.status _ ""))
  have h8 := h7.snoc (.own _ _ (.trackedTwins _ "" ""))
  have h9 := h8.snoc (.other _ _ (.push _ Sample.theirs (by decide) (by decide)))
  have h10 := h9.snoc (.own _ _ (.popped _ false Sample.theirs "" "" rfl))
  refine ⟨_, _, h10, ⟨_, List.mem_concat_self, _, rfl, rfl, ?_, ?_⟩, rfl,
    List.mem_singleton_self _, List.mem_singleton_self _, ?_⟩
  · exact fun h => Sample.mine_ne (List.mem_singleton.1 h).symm
  · exact fun h => Sample.mine_ne (List.mem_singleton.1 h).symm
  · intro h
    have hpath := congrArg Change.path (List.mem_singleton.1 (h ⟨"c.txt", ()⟩ (List.mem_singleton_self _)))
    revert hpath
    decide

end Git
end Yuzora
