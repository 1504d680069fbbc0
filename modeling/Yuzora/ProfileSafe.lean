import Yuzora.ProfileSound
/-!
# ProfileSafe — every operation keeps secrets and records together

Each operation takes its slot through the same few stages: a record is pushed, the vault follows it, and the profile and
the record are settled in one replacement.
-/
namespace Yuzora
namespace Profiles

open List Option
open ProfileDocument

variable {document changed : ProfileDocument} {vault vault' : Vault} {issued : List String} {d : String}
  {p : StoredProfile} {op : PendingOperation}

section
variable (h : Sound document vault issued)
include h

/-! ## Stages -/

theorem Sound.no_secret (hp : document.profile? d = none)
    (ho : document.pending? d = none) (g : String) : ¬ Has vault d g := by
  intro hg
  rcases (h.slots d).secrets g hg with ⟨p, hp', -⟩ | ⟨op, ho', -⟩
  · rw [hp] at hp'
    cases hp'
  · rw [ho] at ho'
    cases ho'

theorem Sound.active_of_has (ho : document.pending? d = none) {g : String}
    (hg : Has vault d g) : ∃ p, document.profile? d = some p ∧ p.activeCredentialGeneration = some g := by
  rcases (h.slots d).secrets g hg with hp | ⟨op, ho', -⟩
  · exact hp
  · rw [ho] at ho'
    cases ho'

theorem Sound.push (op : PendingOperation) (ho : document.pending? op.descriptorId = none)
    (hf : ∀ other ∈ document.pendingOperations, other.operationId ≠ op.operationId)
    (hr : referenceOk (document.profile? op.descriptorId) op = true) (hid : op.operationId ∈ issued)
    (hg : ∀ g ∈ op.generations, g ∈ issued)
    (hd : document.profile? op.descriptorId = none → op.descriptorId ∈ issued) :
    Sound (document.pushPending op) vault issued := by
  refine h.change (h.keyed.pushPending ho hf) (pushPending_frame document op) ?_
  rw [pending?_pushPending op ho]
  have hslot := h.slots op.descriptorId
  rw [ho] at hslot
  exact hslot.push hr hid hg hd

section
variable (ho : document.pending? d = some op)
include ho

theorem Sound.follow (hv : ∀ other g, other ≠ d → vault'.get (other, g) = vault.get (other, g))
    (hs : ∀ g, Has vault' d g → Has vault d g ∨ g ∈ op.generations)
    (hk : op.keeps = true → ∀ p g, document.profile? d = some p → p.activeCredentialGeneration = some g →
      Has vault d g → Has vault' d g) : Sound document vault' issued := by
  refine h.revault hv ?_
  have hslot := h.slots d
  rw [ho] at hslot ⊢
  exact hslot.vault hs hk

theorem Sound.stores {g : String}
    (hg : g ∈ op.generations) (secret : String) : Sound document (vault.insert (d, g) secret) issued := by
  refine h.follow ho (fun _ _ hne => get_insert_of_ne hne) (fun g' hg' => ?_) fun _ _ g' _ _ hhas => ?_
  · rcases has_insert.1 hg' with rfl | hg'
    · exact .inr hg
    · exact .inl hg'
  · exact has_insert.2 (.inr hhas)

theorem Sound.deletes {g : String}
    (hk : op.keeps = true → ∀ p, document.profile? d = some p → p.activeCredentialGeneration ≠ some g) :
    Sound document (vault.erase (d, g)) issued := by
  refine h.follow ho (fun _ _ hne => get_erase_of_ne hne) (fun g' hg' => .inl (has_erase.1 hg').2) ?_
  intro hkeeps p g' hp hact hhas
  refine has_erase.2 ⟨?_, hhas⟩
  rintro rfl
  exact hk hkeeps p hp hact

end

theorem Sound.settle (hk : Keyed changed) (hf : Frame document changed d)
    (hp : changed.profile? d = some p) (ho : changed.pending? d = none) (hd : p.descriptorId = d)
    (hc : profileCredentialIsConsistent p = true) (hi : ∀ g, p.activeCredentialGeneration = some g → g ∈ issued)
    (hs : ∀ g, Has vault d g → p.activeCredentialGeneration = some g)
    (hst : p.credentialState = .stored → ∃ g, p.activeCredentialGeneration = some g ∧ Has vault d g) :
    Sound changed vault issued := by
  refine h.change hk hf ?_
  rw [hp, ho]
  exact slot_idle hd hc hi hs hst

theorem Sound.clear (hk : Keyed changed) (hf : Frame document changed d)
    (hp : changed.profile? d = none) (ho : changed.pending? d = none) (hs : ∀ g, ¬ Has vault d g) :
    Sound changed vault issued := by
  refine h.change hk hf ?_
  rw [hp, ho]
  exact slot_empty hs

section
variable (ho : document.pending? d = some op)
include ho

theorem Sound.reference : referenceOk (document.profile? d) op = true := ((h.slots d).operation op ho).1

theorem Sound.named {g : String} (hg : g ∈ op.generations) : g ∈ issued := ((h.slots d).operation op ho).2.2.1 g hg

theorem Sound.has_pending {g : String} (hg : Has vault d g) :
    (∃ p, document.profile? d = some p ∧ p.activeCredentialGeneration = some g) ∨ g ∈ op.generations := by
  have hslot := h.slots d
  rw [ho] at hslot
  exact hslot.has_pending hg

end

end

/-! ## Consistency of what is written -/

variable {target : ProfileTarget} {operationId g : String}

theorem consistent_required (h : target.isNetwork = true) (descriptorId name : String) (configGeneration : Nat) :
    profileCredentialIsConsistent ⟨descriptorId, configGeneration, name, target, .required, none⟩ = true := by
  cases target with
  | sqlite _ _ => cases h
  | postgres _ => rfl
  | mssql _ => rfl

theorem consistent_notRequired (h : target.isNetwork = false) (descriptorId name : String) (configGeneration : Nat) :
    profileCredentialIsConsistent ⟨descriptorId, configGeneration, name, target, .notRequired, none⟩ = true := by
  cases target with
  | sqlite _ _ => rfl
  | postgres | mssql => cases h

theorem consistent_stored (h : target.isNetwork = true) (descriptorId name generation : String)
    (configGeneration : Nat) :
    profileCredentialIsConsistent ⟨descriptorId, configGeneration, name, target, .stored, some generation⟩ = true := by
  cases target with
  | sqlite _ _ => cases h
  | postgres _ => rfl
  | mssql _ => rfl

theorem consistent_retarget (h : profileCredentialIsConsistent p = true)
    (hn : p.target.isNetwork = target.isNetwork) (name : String) (configGeneration : Nat) :
    profileCredentialIsConsistent
      { p with name := name, target := target, configGeneration := configGeneration } = true := by
  obtain ⟨descriptorId, generation, name', old, state, active⟩ := p
  cases old <;> cases target <;> first | exact h | (cases state <;> exact h) | cases hn

@[simp] theorem isNetwork_strip (target : ProfileTarget) :
    (stripPostgresAttestation target).isNetwork = target.isNetwork := by
  cases target <;> rfl

theorem active_of_stored (h : profileCredentialIsConsistent p = true) (hs : p.credentialState = .stored) :
    ∃ g, p.activeCredentialGeneration = some g := by
  obtain ⟨descriptorId, generation, name, target, state, active⟩ := p
  obtain rfl : state = .stored := hs
  cases target with
  | sqlite _ _ => cases h
  | postgres | mssql => exact isSome_iff_exists.1 h

/-! ## The switch to a new generation -/

section Switch

variable {new : String} {replacement current : StoredProfile} {old : Option String}

theorem reference_replace {profile : Option StoredProfile}
    (h : referenceOk profile (.pendingReplace operationId d replacement old new) = true) : ∃ current,
      profile = some current ∧ replacement.descriptorId = d ∧ current.activeCredentialGeneration = old ∧
        replacement.activeCredentialGeneration = some new ∧ replacement.credentialState = .stored ∧
        profileCredentialIsConsistent replacement = true ∧ old ≠ some new := by
  cases profile with
  | none => cases h
  | some current =>
    simp only [referenceOk, Bool.and_eq_true, decide_eq_true_eq] at h
    obtain ⟨⟨⟨⟨⟨h1, h2⟩, h3⟩, h4⟩, h5⟩, h6⟩ := h
    exact ⟨current, rfl, h1, h2, h3, h4, h5, h6⟩

/-- The document with the replacement in place and without the record. -/
def switched (document : ProfileDocument) (d operationId : String) (replacement : StoredProfile) : ProfileDocument :=
  (document.setProfile d replacement).dropOperation operationId

section Switched

variable (hk : Keyed document) (ho : document.pending? d = some (.pendingReplace operationId d replacement old new))
  (hr : referenceOk (document.profile? d) (.pendingReplace operationId d replacement old new) = true)

include hk ho hr

theorem switched_eq : switched document d operationId replacement = (document.setProfile d replacement).dropPending d := by
  obtain ⟨current, -, hd, -⟩ := reference_replace hr
  exact dropOperation_eq (document.setProfile d replacement) (hk.setProfile hd) ho

theorem switched_keyed : Keyed (switched document d operationId replacement) := by
  obtain ⟨current, -, hd, -⟩ := reference_replace hr
  rw [switched_eq hk ho hr]
  exact (hk.setProfile hd).dropPending d

theorem switched_frame : Frame document (switched document d operationId replacement) d := by
  obtain ⟨current, -, hd, -⟩ := reference_replace hr
  rw [switched_eq hk ho hr]
  exact (setProfile_frame document hd).trans (dropPending_frame _ d)

theorem switched_profile : (switched document d operationId replacement).profile? d = some replacement := by
  obtain ⟨current, hp, hd, -⟩ := reference_replace hr
  exact profile?_setProfile hd (hp ▸ rfl)

theorem switched_pending : (switched document d operationId replacement).pending? d = none := by
  rw [switched_eq hk ho hr]
  exact pending?_dropPending _ d

end Switched

variable (h : Sound document vault issued)
  (ho : document.pending? d = some (.pendingReplace operationId d replacement old new))

include h ho

theorem switch_none (hold : old = none) (hhas : Has vault d new) :
    Sound (switched document d operationId replacement) vault issued := by
  obtain ⟨current, hp, hd, hact, hnew, hst, hc, hne⟩ := reference_replace (h.reference ho)
  have hr := h.reference ho
  refine h.settle (switched_keyed h.keyed ho hr) (switched_frame h.keyed ho hr) (switched_profile h.keyed ho hr)
    (switched_pending h.keyed ho hr) hd hc
    (fun g hg => ?_) (fun g hg => ?_) fun _ => ⟨new, hnew, hhas⟩
  · rw [hnew] at hg
    exact Option.some.inj hg ▸ h.named ho (by simp [PendingOperation.generations])
  · rcases h.has_pending ho hg with ⟨p, hp', hg⟩ | hg
    · rw [hp] at hp'
      cases hp'
      rw [hact, hold] at hg
      cases hg
    · simp only [PendingOperation.generations, hold, toList_none, mem_singleton] at hg
      rw [hg, hnew]

theorem switch_some {oldGeneration : String} (hold : old = some oldGeneration) (hhas : Has vault d new) :
    Sound ((switched document d operationId replacement).pushPending (.cleanupOld operationId d oldGeneration new))
      vault issued := by
  obtain ⟨current, hp, hd, hact, hnew, hst, hc, hne⟩ := reference_replace (h.reference ho)
  have hno := switched_pending h.keyed ho (h.reference ho)
  have hids : ∀ other ∈ (switched document d operationId replacement).pendingOperations,
      other.operationId ≠ operationId := fun other hother => by
    simpa using (mem_filter.1 hother).2
  refine h.change (d := d) ((switched_keyed h.keyed ho (h.reference ho)).pushPending hno hids)
    ((switched_frame h.keyed ho (h.reference ho)).trans (pushPending_frame _ _)) ?_
  have hpending := pending?_pushPending (.cleanupOld operationId d oldGeneration new) hno
  rw [show (PendingOperation.cleanupOld operationId d oldGeneration new).descriptorId = d from rfl] at hpending
  rw [hpending, show ((switched document d operationId replacement).pushPending _).profile? d = some replacement from
    switched_profile h.keyed ho (h.reference ho)]
  have hop := (h.slots d).operation _ ho
  refine ⟨fun q hq => ?_, fun q hq => ?_, fun g hg => ?_, fun q hq _ _ => ?_⟩
  · cases hq
    refine ⟨hd, hc, fun g hg => ?_⟩
    rw [hnew] at hg
    exact Option.some.inj hg ▸ h.named ho (by simp [PendingOperation.generations])
  · cases hq
    refine ⟨?_, hop.2.1, fun g hg => hop.2.2.1 g ?_, nofun⟩
    · have hne' : oldGeneration ≠ new := fun he => hne (by rw [hold, he])
      simp [referenceOk, hnew, hne']
    · simp only [PendingOperation.generations, mem_cons, not_mem_nil, or_false] at hg
      simp only [PendingOperation.generations, hold, toList_some, mem_cons, not_mem_nil, or_false]
      exact hg.symm
  · right
    refine ⟨_, rfl, ?_⟩
    rcases h.has_pending ho hg with ⟨p, hp', hg⟩ | hg
    · rw [hp] at hp'
      cases hp'
      rw [hact, hold] at hg
      simp [PendingOperation.generations, Option.some.inj hg]
    · simp only [PendingOperation.generations, hold, toList_some, mem_cons, not_mem_nil, or_false] at hg
      simp only [PendingOperation.generations, mem_cons, not_mem_nil, or_false]
      exact hg.symm
  · cases hq
    exact ⟨new, hnew, hhas⟩

end Switch

/-! ## The cleanup of an old generation -/

section Cleanup

variable{old active : String}

theorem reference_cleanup {profile : Option StoredProfile}
    (h : referenceOk profile (.cleanupOld operationId d old active) = true) :
    ∃ current, profile = some current ∧ current.activeCredentialGeneration = some active ∧ old ≠ active := by
  cases profile with
  | none => cases h
  | some current =>
    simp only [referenceOk, Bool.and_eq_true, decide_eq_true_eq] at h
    exact ⟨current, rfl, h⟩

section
variable (h : Sound document vault issued)
include h

theorem cleanup_delete (ho : document.pending? d = some (.cleanupOld operationId d old active)) :
    Sound document (vault.erase (d, old)) issued := by
  obtain ⟨current, hp, hact, hne⟩ := reference_cleanup (h.reference ho)
  refine h.deletes ho fun _ p hp' hg => ?_
  rw [hp] at hp'
  cases hp'
  rw [hact] at hg
  exact hne (Option.some.inj hg).symm

theorem Sound.dropOperation (ho : document.pending? d = some op)
    (hp : document.profile? d = some p) (hk : op.keeps = true)
    (hs : ∀ g, Has vault d g → p.activeCredentialGeneration = some g) :
    Sound (document.dropOperation op.operationId) vault issued := by
  rw [dropOperation_eq document h.keyed ho]
  obtain ⟨hd, hc, hi⟩ := (h.slots d).owner p hp
  refine h.settle (h.keyed.dropPending d) (dropPending_frame document d) hp (pending?_dropPending document d) hd hc hi hs
    fun hst => (h.slots d).stored p hp hst fun q hq => ?_
  rw [ho] at hq
  exact Option.some.inj hq ▸ hk

theorem cleanup_done
    (ho : document.pending? d = some (.cleanupOld operationId d old active)) (hgone : ¬ Has vault d old) :
    Sound (document.dropOperation operationId) vault issued := by
  obtain ⟨current, hp, hact, hne⟩ := reference_cleanup (h.reference ho)
  refine h.dropOperation ho hp rfl fun g hg => ?_
  rcases h.has_pending ho hg with ⟨p, hp', hg'⟩ | hg'
  · rw [hp] at hp'
    exact Option.some.inj hp' ▸ hg'
  · simp only [PendingOperation.generations, mem_cons, not_mem_nil, or_false] at hg'
    rcases hg' with rfl | rfl
    · exact absurd hg hgone
    · exact hact

end

end Cleanup

/-! ## Creating -/

theorem Sound.pushProfile (h : Sound document vault issued) (p : StoredProfile) (hp : document.profile? p.descriptorId = none)
    (ho : document.pending? p.descriptorId = none) (hc : profileCredentialIsConsistent p = true)
    (hact : p.activeCredentialGeneration = none) : Sound (document.pushProfile p) vault issued := by
  refine h.settle (h.keyed.pushProfile p hp) (pushProfile_frame document p) (profile?_pushProfile p hp) ho rfl hc
    (fun g hg => ?_) (fun g hg => absurd hg (h.no_secret hp ho g)) fun hst => ?_
  · rw [hact] at hg
    cases hg
  · obtain ⟨g, hg⟩ := active_of_stored hc hst
    rw [hact] at hg
    cases hg

theorem reference_create {profile : Option StoredProfile}
    (h : referenceOk profile (.pendingCreate operationId p g) = true) :
    profile = none ∧ p.target.isNetwork = true ∧ p.credentialState = .stored ∧ p.activeCredentialGeneration = none := by
  simp only [referenceOk, Bool.and_eq_true, decide_eq_true_eq, isNone_iff_eq_none] at h
  obtain ⟨⟨⟨h1, h2⟩, h3⟩, h4⟩ := h
  exact ⟨h1, h2, h3, h4⟩

theorem create_done (h : Sound document vault issued)
    (ho : document.pending? p.descriptorId = some (.pendingCreate operationId p g)) (hhas : Has vault p.descriptorId g) :
    Sound ((document.pushProfile { p with activeCredentialGeneration := some g }).dropPending p.descriptorId) vault
      issued := by
  obtain ⟨hp, hnet, hst, -⟩ := reference_create (h.reference ho)
  have hcreated : (document.pushProfile { p with activeCredentialGeneration := some g }).profile? p.descriptorId =
      some { p with activeCredentialGeneration := some g } :=
    profile?_pushProfile { p with activeCredentialGeneration := some g } hp
  refine h.settle (d := p.descriptorId)
    ((h.keyed.pushProfile { p with activeCredentialGeneration := some g } hp).dropPending _)
    ((pushProfile_frame document { p with activeCredentialGeneration := some g }).trans (dropPending_frame _ _))
    hcreated (pending?_dropPending _ _) rfl ?_ (fun g' hg' => ?_) (fun g' hg' => ?_) fun _ => ⟨g, rfl, hhas⟩
  · obtain ⟨descriptorId, generation, name, target, state, active⟩ := p
    obtain rfl : state = .stored := hst
    exact consistent_stored hnet descriptorId name g generation
  · cases hg'
    exact h.named ho (by simp [PendingOperation.generations])
  · rcases h.has_pending ho hg' with ⟨q, hq, -⟩ | hg'
    · rw [hp] at hq
      cases hq
    · simp only [PendingOperation.generations, mem_singleton] at hg'
      rw [hg']

theorem safe_create (request : ProfileCreateRequest) (h : Sound document vault issued) :
    Safe (create request) document vault issued := by
  refine safe_authorize h fun target => ?_
  refine safe_load h ?_
  refine safe_freshId h fun d hd => ?_
  have hd' := h.issue d
  have hno := hd.pending h
  split
  · exact safe_throw hd'
  · rename_i hnet _
    exact safe_replace_last hd'
      (hd'.pushProfile ⟨d, 1, request.name, target, .notRequired, none⟩ hd.profile hno
        (consistent_notRequired hnet d request.name 1) rfl)
  · rename_i hnet _
    exact safe_replace_last hd'
      (hd'.pushProfile ⟨d, 1, request.name, target, .required, none⟩ hd.profile hno
        (consistent_required hnet d request.name 1) rfl)
  · rename_i password hnet _
    refine safe_freshId hd' fun g hg => ?_
    refine safe_freshId (hd'.issue g) fun operationId hid => ?_
    have hall := (hd'.issue g).issue operationId
    have hpushed := hall.push (.pendingCreate operationId ⟨d, 1, request.name, target, .stored, none⟩ g) hno
      (hid.operation (hd'.issue g)) (by simp [referenceOk, PendingOperation.descriptorId, hd.profile, hnet])
      mem_cons_self (fun g' hg' => by simp_all [PendingOperation.generations])
      (fun _ => by simp [PendingOperation.descriptorId])
    have hop := pending?_pushPending
      (.pendingCreate operationId ⟨d, 1, request.name, target, .stored, none⟩ g) hno
    refine safe_replace hall hpushed ?_
    have hstored := hpushed.stores hop (g := g) (by simp [PendingOperation.generations]) password
    refine safe_store hpushed hstored ?_
    exact safe_replace_last hstored (create_done hstored hop (has_insert.2 (.inl rfl)))

/-! ## Updating -/

theorem Sound.retarget (h : Sound document vault issued) (hp : document.profile? d = some p)
    (ho : document.pending? d = none) (hn : p.target.isNetwork = target.isNetwork) (name : String)
    (configGeneration : Nat) :
    Sound (document.setProfile d { p with name := name, target := target, configGeneration := configGeneration }) vault
      issued := by
  obtain ⟨hd, hc, hi⟩ := (h.slots d).owner p hp
  refine h.settle (h.keyed.setProfile hd) (setProfile_frame document hd) (profile?_setProfile hd (hp ▸ rfl)) ho hd
    (consistent_retarget hc hn name configGeneration) hi (fun g hg => ?_) fun hst => ?_
  · obtain ⟨q, hq, hg⟩ := h.active_of_has ho hg
    rw [hp] at hq
    exact Option.some.inj hq ▸ hg
  · refine (h.slots d).stored p hp hst fun op hop => ?_
    rw [ho] at hop
    cases hop

section
variable (request : ProfileUpdateRequest) {current : StoredProfile}
include request

theorem safe_updateTarget (target : ProfileTarget)
    (h : Sound document vault issued) (hp : document.profile? request.descriptorId = some current)
    (ho : document.pending? request.descriptorId = none) :
    Safe (updateTarget document current request target) document vault issued := by
  unfold updateTarget
  split
  · exact safe_throw h
  · rename_i hn
    have hwrite : ∀ configGeneration, Safe (do
        replace (document.setProfile request.descriptorId
          { current with name := request.name, target := target, configGeneration := configGeneration })
        pure ({ current with
          name := request.name, target := target, configGeneration := configGeneration } : StoredProfile).descriptor)
        document vault issued := fun configGeneration =>
      safe_replace_last h (h.retarget hp ho (not_not.1 hn) request.name configGeneration)
    by_cases he : current.target = target
    · rw [if_neg (not_not.2 he), if_neg (not_not.2 he.symm)]
      exact hwrite _
    · rw [if_pos he, if_pos (Ne.symm he)]
      refine safe_close h fun _ => ?_
      exact safe_ofExcept h fun configGeneration _ => hwrite configGeneration

theorem safe_updateCredential (target : ProfileTarget)
    (password : String) (h : Sound document vault issued) (hp : document.profile? request.descriptorId = some current)
    (ho : document.pending? request.descriptorId = none) :
    Safe (updateCredential document current request target password) document vault issued := by
  unfold updateCredential
  split
  · exact safe_throw h
  rename_i hnet
  have hnet : target.isNetwork = true := by simpa using hnet
  obtain ⟨hd, -, hi⟩ := (h.slots request.descriptorId).owner current hp
  refine safe_close h fun _ => ?_
  refine safe_freshId h fun new hnew => ?_
  refine safe_ofExcept (h.issue new) fun configGeneration _ => ?_
  refine safe_freshId (h.issue new) fun operationId hid => ?_
  have hall := (h.issue new).issue operationId
  have hpushed := hall.push (.pendingReplace operationId request.descriptorId
      ⟨current.descriptorId, configGeneration, request.name, target, .stored, some new⟩
      current.activeCredentialGeneration new) ho (hid.operation (h.issue new))
    (by
      have hne := hnew.active h hp
      simp [referenceOk, PendingOperation.descriptorId, hp, hd, consistent_stored hnet, hne])
    mem_cons_self
    (fun g hg => by
      simp only [PendingOperation.generations, mem_cons, mem_toList] at hg
      rcases hg with rfl | hg
      · simp
      · exact mem_cons_of_mem _ (mem_cons_of_mem _ (hi g hg)))
    (fun hn => by
      rw [show (PendingOperation.pendingReplace _ _ _ _ _).descriptorId = request.descriptorId from rfl, hp] at hn
      cases hn)
  have hop := pending?_pushPending (.pendingReplace operationId request.descriptorId
      ⟨current.descriptorId, configGeneration, request.name, target, .stored, some new⟩
      current.activeCredentialGeneration new) ho
  refine safe_replace hall hpushed ?_
  have hstored := hpushed.stores hop (g := new) (by simp [PendingOperation.generations]) password
  refine safe_store hpushed hstored ?_
  have hhas : Has (vault.insert (request.descriptorId, new) password) request.descriptorId new := has_insert.2 (.inl rfl)
  split
  · rename_i hold
    exact safe_replace_last hstored (switch_none hstored hop hold hhas)
  · rename_i oldGeneration hold
    have hcleanup := switch_some hstored hop hold hhas
    have hcop := pending?_pushPending (.cleanupOld operationId request.descriptorId oldGeneration new)
      (switched_pending hstored.keyed hop (hstored.reference hop))
    refine safe_replace hstored hcleanup ?_
    refine safe_delete hcleanup (cleanup_delete hcleanup hcop) ?_
    exact safe_replace_last (cleanup_delete hcleanup hcop)
      (cleanup_done (cleanup_delete hcleanup hcop) hcop fun hg => (has_erase.1 hg).1 rfl)

theorem safe_update (h : Sound document vault issued) : Safe (update request) document vault issued := by
  refine safe_load h ?_
  refine safe_ofExcept h fun _ hno => ?_
  refine safe_ofExcept h fun current hp => ?_
  refine safe_authorize h fun target => ?_
  split
  · exact safe_updateTarget request target h (findProfile_ok hp) (ensureNoPending_ok hno)
  · exact safe_updateCredential request target _ h (findProfile_ok hp) (ensureNoPending_ok hno)

end

/-! ## Forgetting, and removing a credential -/

section Remove

variable {generations : List String} {profile : Option StoredProfile}

theorem generationsMatchActive_iff :
    generationsMatchActive p generations = true ↔ generations = p.activeCredentialGeneration.toList := by
  simp only [generationsMatchActive, Bool.and_eq_true, decide_eq_true_eq]
  refine ⟨And.right, fun h => ⟨?_, h⟩⟩
  rw [h]
  cases p.activeCredentialGeneration <;> simp

theorem reference_forget (h : referenceOk profile (.pendingForget operationId d generations) = true) :
    ∃ current, profile = some current ∧ generations = current.activeCredentialGeneration.toList := by
  cases profile with
  | none => cases h
  | some current => exact ⟨current, rfl, generationsMatchActive_iff.1 h⟩

theorem reference_remove (h : referenceOk profile (.pendingRemoveCredential operationId d generations) = true) :
    ∃ current, profile = some current ∧ current.target.isNetwork = true ∧
      generations = current.activeCredentialGeneration.toList := by
  cases profile with
  | none => cases h
  | some current =>
    obtain ⟨hnet, hg⟩ := Bool.and_eq_true_iff.1 h
    exact ⟨current, rfl, hnet, generationsMatchActive_iff.1 hg⟩

theorem findSome?_pending {α : Type} {f : PendingOperation → Option α} {a : α}
    (ho : document.pending? d = some op) (hf : f op = some a)
    (hother : ∀ other, other.descriptorId ≠ d → f other = none) :
    document.pendingOperations.findSome? f = some a := by
  rw [pending?, find?_eq_some_iff_append] at ho
  obtain ⟨-, before, after, hl, hbefore⟩ := ho
  rw [hl]
  exact findSome?_eq_some_iff.2 ⟨before, op, after, rfl, hf, fun other hmem =>
    hother other (by simpa using hbefore other hmem)⟩

theorem forgetGenerations_eq (ho : document.pending? d = some (.pendingForget operationId d generations)) :
    forgetGenerations document d = some generations := by
  refine findSome?_pending ho (if_pos rfl) fun other hne => ?_
  cases other with
  | pendingForget _ _ _ => exact if_neg hne
  | _ => rfl

theorem removeGenerations_eq (ho : document.pending? d = some (.pendingRemoveCredential operationId d generations)) :
    removeGenerations document d = some generations := by
  refine findSome?_pending ho (if_pos rfl) fun other hne => ?_
  cases other with
  | pendingRemoveCredential _ _ _ => exact if_neg hne
  | _ => rfl

theorem safe_deleteAll {β : Type} {f : Unit → M β} (ho : document.pending? d = some op) (hk : op.keeps = false) :
    ∀ {generations : List String} {vault : Vault}, Sound document vault issued →
      (∀ vault', Sound document vault' issued → (∀ g, Has vault' d g → Has vault d g ∧ g ∉ generations) →
        Safe (f ()) document vault' issued) →
      Safe (do f (← deleteAll d generations)) document vault issued
  | [], vault, h, hf => hf vault h fun g hg => ⟨hg, not_mem_nil⟩
  | generation :: rest, vault, h, hf => by
    have herased : Sound document (vault.erase (d, generation)) issued := h.deletes ho fun hkeeps => by
      rw [hk] at hkeeps
      cases hkeeps
    rw [deleteAll, Prog.bind_assoc]
    refine safe_delete h herased ?_
    refine safe_deleteAll ho hk herased fun vault' h' hgone => hf vault' h' fun g hg => ?_
    obtain ⟨hleft, hrest⟩ := hgone g hg
    obtain ⟨hne, hhas⟩ := has_erase.1 hleft
    exact ⟨hhas, by simp [hne, hrest]⟩

section
variable (h : Sound document vault issued) {f : ProfileDocument → M ProfileLoadResult} {current : StoredProfile}
include h

theorem Sound.has_known (ho : document.pending? d = some op)
    (hp : document.profile? d = some current) (hg : op.generations = current.activeCredentialGeneration.toList)
    {g : String} (hhas : Has vault d g) : g ∈ op.generations := by
  rcases h.has_pending ho hhas with ⟨p, hp', hact⟩ | hmem
  · rw [hp] at hp'
    cases hp'
    rw [hg, mem_toList]
    exact hact
  · exact hmem

theorem forget_done (hgone : ∀ g, ¬ Has vault d g) :
    Sound (((document.dropProfile d).dropPending d).consumeLegacyDescriptor d) vault issued := by
  have hframe : Frame document (((document.dropProfile d).dropPending d).consumeLegacyDescriptor d) d :=
    ((dropProfile_frame document d).trans (dropPending_frame _ d)).trans
      ⟨fun _ _ => profile?_consumeLegacyDescriptor _ _ _, fun _ _ => pending?_consumeLegacyDescriptor _ _ _⟩
  refine h.clear (((h.keyed.dropProfile d).dropPending d).consumeLegacyDescriptor d) hframe ?_ ?_ hgone
  · rw [profile?_consumeLegacyDescriptor]
    exact profile?_dropProfile document d
  · rw [pending?_consumeLegacyDescriptor]
    exact pending?_dropPending _ d

theorem safe_finishForget (ho : document.pending? d = some (.pendingForget operationId d generations))
    (hf : ∀ changed vault', Sound changed vault' issued → Safe (f changed) changed vault' issued) :
    Safe (do f (← finishForget document d)) document vault issued := by
  obtain ⟨current, hp, hg⟩ := reference_forget (h.reference ho)
  rw [finishForget, forgetGenerations_eq ho]
  rw [Prog.bind_assoc]
  refine safe_deleteAll ho rfl h fun vault' h' hgone => ?_
  have hdone := forget_done (d := d) h' fun g hg' => (hgone g hg').2 (h.has_known ho hp hg (hgone g hg').1)
  rw [Prog.bind_assoc]
  exact safe_replace h' hdone (hf _ _ hdone)

theorem remove_done
    (hp : document.profile? d = some current) (hnet : current.target.isNetwork = true) (hgone : ∀ g, ¬ Has vault d g) :
    Sound ((document.setProfile d
      { current with activeCredentialGeneration := none, credentialState := .required }).dropPending d) vault issued := by
  have hd : ({ current with
      activeCredentialGeneration := none, credentialState := .required } : StoredProfile).descriptorId = d :=
    ((h.slots d).owner current hp).1
  refine h.settle (p := { current with activeCredentialGeneration := none, credentialState := .required })
    ((h.keyed.setProfile hd).dropPending d) ((setProfile_frame document hd).trans (dropPending_frame _ d))
    (profile?_setProfile hd (hp ▸ rfl)) (pending?_dropPending _ d) hd
    (consistent_required hnet _ _ _) (fun g hg => ?_) (fun g hg => absurd hg (hgone g)) fun hst => ?_
  · cases hg
  · cases hst

theorem safe_finishRemoveCredential
    (ho : document.pending? d = some (.pendingRemoveCredential operationId d generations))
    (hf : ∀ changed vault', Sound changed vault' issued → Safe (f changed) changed vault' issued) :
    Safe (do f (← finishRemoveCredential document d)) document vault issued := by
  obtain ⟨current, hp, hnet, hg⟩ := reference_remove (h.reference ho)
  rw [finishRemoveCredential, removeGenerations_eq ho]
  rw [Prog.bind_assoc]
  refine safe_deleteAll ho rfl h fun vault' h' hgone => ?_
  have hdone := remove_done h' hp hnet fun g hg' => (hgone g hg').2 (h.has_known ho hp hg (hgone g hg').1)
  rw [Prog.bind_assoc]
  refine safe_ofExcept h' fun profile hprofile => ?_
  have hprofile := findProfile_ok hprofile
  rw [hp] at hprofile
  cases hprofile
  rw [Prog.bind_assoc]
  exact safe_replace h' hdone (hf _ _ hdone)

theorem safe_closeThen {finish : ProfileDocument → M ProfileDocument}
    (hpushed : Sound (document.pushPending op) vault issued)
    (hf : Safe (do pure (← finish (document.pushPending op)).view) (document.pushPending op) vault issued) :
    Safe (closeThen document op finish) document vault issued := by
  refine safe_close_attempt h fun closed => ?_
  refine safe_replace h hpushed ?_
  cases closed with
  | error e => exact safe_throw hpushed
  | ok evidence => exact hf

end

theorem push_known {current : StoredProfile} (make : String → PendingOperation)
    (h : Sound document vault issued) (hfresh : Fresh document issued operationId)
    (hp : document.profile? d = some current) (ho : document.pending? d = none)
    (hid : (make operationId).operationId = operationId) (hd : (make operationId).descriptorId = d)
    (hg : (make operationId).generations = current.activeCredentialGeneration.toList)
    (hr : referenceOk (some current) (make operationId) = true) :
    Sound (document.pushPending (make operationId)) vault (operationId :: issued) := by
  obtain ⟨-, -, hi⟩ := (h.slots d).owner current hp
  refine (h.issue operationId).push (make operationId) (by rw [hd]; exact ho) (by rw [hid]; exact hfresh.operation h)
    (by rw [hd, hp]; exact hr) (by rw [hid]; exact mem_cons_self) (fun g hmem => ?_) fun hn => ?_
  · rw [hg, mem_toList] at hmem
    exact mem_cons_of_mem _ (hi g hmem)
  · rw [hd, hp] at hn
    cases hn

theorem safe_forget (d : String) (h : Sound document vault issued) : Safe (forget d) document vault issued := by
  refine safe_load h ?_
  refine safe_ofExcept h fun _ hno => ?_
  refine safe_ofExcept h fun current hp => ?_
  refine safe_freshId h fun operationId hfresh => ?_
  have hpushed := push_known (fun id => .pendingForget id d current.activeCredentialGeneration.toList) h hfresh
    (findProfile_ok hp) (ensureNoPending_ok hno) rfl rfl rfl (generationsMatchActive_iff.2 rfl)
  refine safe_closeThen (h.issue operationId) hpushed ?_
  exact safe_finishForget hpushed
    (pending?_pushPending (.pendingForget operationId d current.activeCredentialGeneration.toList)
      (ensureNoPending_ok hno)) fun _ _ hs => safe_pure hs

theorem safe_removeCredential (d : String) (h : Sound document vault issued) :
    Safe (removeCredential d) document vault issued := by
  refine safe_load h ?_
  refine safe_ofExcept h fun _ hno => ?_
  refine safe_ofExcept h fun current hp => ?_
  split
  · exact safe_throw h
  rename_i hnet
  have hnet : current.target.isNetwork = true := by simpa using hnet
  refine safe_freshId h fun operationId hfresh => ?_
  have hpushed := push_known
    (fun id => .pendingRemoveCredential id d current.activeCredentialGeneration.toList) h hfresh
    (findProfile_ok hp) (ensureNoPending_ok hno) rfl rfl rfl
    (Bool.and_eq_true_iff.2 ⟨hnet, generationsMatchActive_iff.2 rfl⟩)
  refine safe_closeThen (h.issue operationId) hpushed ?_
  exact safe_finishRemoveCredential hpushed
    (pending?_pushPending
      (.pendingRemoveCredential operationId d current.activeCredentialGeneration.toList)
      (ensureNoPending_ok hno)) fun _ _ hs => safe_pure hs

end Remove

/-! ## Recovering -/

section Recover

section
variable (h : Sound document vault issued) {credential : Option String}
include h

theorem safe_ensureGeneration {β : Type} {f : Unit → M β} (ho : document.pending? d = some op) (hg : g ∈ op.generations)
    (hk : op.keeps = true → ∀ p, document.profile? d = some p → p.activeCredentialGeneration ≠ some g)
    (hf : ∀ vault', Sound document vault' issued → Has vault' d g → Safe (f ()) document vault' issued) :
    Safe (do f (← ensureGeneration d g credential)) document vault issued := by
  unfold ensureGeneration
  rw [Prog.bind_assoc]
  refine safe_resolve h fun r hr => ?_
  cases r with
  | ok secret => exact hf vault h (hr secret rfl)
  | error kind =>
    dsimp only
    split
    · cases credential with
      | none => exact safe_throw h
      | some password =>
        have hstore : ∀ vault', Sound document vault' issued →
            Safe (do f (← store d g password)) document vault' issued := fun vault' h' =>
          safe_store h' (h'.stores ho hg password) (hf _ (h'.stores ho hg password) (has_insert.2 (.inl rfl)))
        dsimp only
        split
        · rw [Prog.bind_assoc]
          exact safe_delete h (h.deletes ho hk) (hstore _ (h.deletes ho hk))
        · exact hstore vault h
    · exact safe_throw h

theorem safe_recovered (hc : Sound changed vault issued) : Safe (do
      let recovered ← (do
        replace changed
        pure changed : M ProfileDocument)
      pure recovered.view) document vault issued := by
  rw [Prog.bind_assoc]
  exact safe_replace h hc (safe_pure hc)

theorem create_recovered
    (ho : document.pending? p.descriptorId = some (.pendingCreate operationId p g)) (hhas : Has vault p.descriptorId g) :
    Sound (((document.dropProfile p.descriptorId).pushProfile
      { p with activeCredentialGeneration := some g, credentialState := .stored }).dropOperation operationId) vault
      issued := by
  obtain ⟨hp, -, hst, -⟩ := reference_create (h.reference ho)
  have hsame : document.dropProfile p.descriptorId = document := by
    rw [dropProfile, filter_eq_self.2 fun q hq => by simpa using profile?_eq_none.1 hp q hq]
  have hdrop := dropOperation_eq
    (document.pushProfile { p with activeCredentialGeneration := some g, credentialState := .stored })
    (h.keyed.pushProfile { p with activeCredentialGeneration := some g, credentialState := .stored } hp) ho
  rw [show (PendingOperation.pendingCreate operationId p g).operationId = operationId from rfl] at hdrop
  have hstored : ({ p with activeCredentialGeneration := some g, credentialState := .stored } : StoredProfile) =
      { p with activeCredentialGeneration := some g } := by
    rw [← hst]
  rw [hsame, hdrop, hstored]
  exact create_done h ho hhas

theorem create_aborted (ho : document.pending? p.descriptorId = some (.pendingCreate operationId p g)) :
    Sound document (vault.erase (p.descriptorId, g)) issued ∧
      Sound (document.dropOperation operationId) (vault.erase (p.descriptorId, g)) issued := by
  have herased : Sound document (vault.erase (p.descriptorId, g)) issued := h.deletes ho nofun
  refine ⟨herased, ?_⟩
  have hp := (reference_create (h.reference ho)).1
  rw [show operationId = (PendingOperation.pendingCreate operationId p g).operationId from rfl,
    dropOperation_eq document herased.keyed ho]
  refine herased.clear (herased.keyed.dropPending _) (dropPending_frame document _) hp (pending?_dropPending document _)
    fun g' hg' => ?_
  rcases herased.has_pending ho hg' with ⟨q, hq, -⟩ | hmem
  · rw [hp] at hq
    cases hq
  · simp only [PendingOperation.generations, mem_singleton] at hmem
    exact (has_erase.1 hg').1 hmem

theorem replace_aborted {replacement : StoredProfile} {old : Option String}
    (ho : document.pending? d = some (.pendingReplace operationId d replacement old g)) :
    Sound document (vault.erase (d, g)) issued ∧
      Sound (document.dropOperation operationId) (vault.erase (d, g)) issued := by
  obtain ⟨current, hp, -, hact, -, -, -, hne⟩ := reference_replace (h.reference ho)
  have herased : Sound document (vault.erase (d, g)) issued := h.deletes ho fun _ q hq hg => by
    rw [hp] at hq
    cases hq
    exact hne (hact.symm.trans hg)
  refine ⟨herased, herased.dropOperation ho hp rfl fun g' hg' => ?_⟩
  rcases herased.has_pending ho hg' with ⟨q, hq, hg⟩ | hmem
  · rw [hp] at hq
    exact Option.some.inj hq ▸ hg
  · simp only [PendingOperation.generations, mem_cons, mem_toList] at hmem
    rcases hmem with hmem | hmem
    · exact absurd hmem (has_erase.1 hg').1
    · exact hact.trans hmem

theorem safe_recoverOperation {action : RecoveryAction} (ho : document.pending? op.descriptorId = some op) :
    Safe (do pure (← recoverOperation document credential op action).view) document vault issued := by
  cases op with
  | pendingCreate operationId p g =>
    cases action with
    | resume =>
      unfold recoverOperation
      rw [Prog.bind_assoc]
      refine safe_ensureGeneration h ho (by simp [PendingOperation.generations]) nofun ?_
      exact fun vault' h' hhas => safe_recovered h' (create_recovered (p := p) h' ho hhas)
    | abort =>
      unfold recoverOperation
      rw [Prog.bind_assoc]
      obtain ⟨herased, hdone⟩ := create_aborted h ho
      exact safe_delete h herased (safe_recovered herased hdone)
    | retryCleanup => exact safe_throw h
  | pendingReplace operationId d replacement old g =>
    cases action with
    | resume =>
      obtain ⟨current, hp, -, hact, -, -, -, hne⟩ := reference_replace (h.reference ho)
      unfold recoverOperation
      rw [Prog.bind_assoc]
      refine safe_ensureGeneration h ho (by simp [PendingOperation.generations]) (fun _ q hq hg => ?_) ?_
      · cases hp.symm.trans hq
        exact hne (hact.symm.trans hg)
      intro vault' h' hhas
      rw [Prog.bind_assoc]
      refine safe_ofExcept h' fun _ _ => ?_
      split
      · exact safe_recovered h' (switch_none h' ho rfl hhas)
      · rename_i oldGeneration
        have hcleanup := switch_some h' ho rfl hhas
        have hcop := pending?_pushPending (.cleanupOld operationId d oldGeneration g)
          (switched_pending h'.keyed ho (h'.reference ho))
        have herased := cleanup_delete hcleanup hcop
        rw [Prog.bind_assoc]
        refine safe_replace h' hcleanup ?_
        rw [Prog.bind_assoc]
        refine safe_delete hcleanup herased ?_
        exact safe_recovered herased (cleanup_done herased hcop fun hg => (has_erase.1 hg).1 rfl)
    | abort =>
      unfold recoverOperation
      rw [Prog.bind_assoc]
      obtain ⟨herased, hdone⟩ := replace_aborted h ho
      exact safe_delete h herased (safe_recovered herased hdone)
    | retryCleanup => exact safe_throw h
  | cleanupOld operationId d old active =>
    cases action with
    | retryCleanup =>
      unfold recoverOperation
      rw [Prog.bind_assoc]
      have herased := cleanup_delete h ho
      refine safe_delete h herased ?_
      exact safe_recovered herased (cleanup_done herased ho fun hg => (has_erase.1 hg).1 rfl)
    | _ => exact safe_throw h
  | pendingForget operationId d generations =>
    cases action with
    | retryCleanup =>
      unfold recoverOperation
      rw [Prog.bind_assoc]
      exact safe_close h fun _ => safe_finishForget h ho fun _ _ hs => safe_pure hs
    | _ => exact safe_throw h
  | pendingRemoveCredential operationId d generations =>
    cases action with
    | retryCleanup =>
      unfold recoverOperation
      rw [Prog.bind_assoc]
      exact safe_close h fun _ => safe_finishRemoveCredential h ho fun _ _ hs => safe_pure hs
    | _ => exact safe_throw h

end

theorem safe_recover (request : ProfileRecoveryRequest) (h : Sound document vault issued) :
    Safe (recover request) document vault issued := by
  refine safe_load h ?_
  split
  · exact safe_throw h
  · rename_i op hop
    exact safe_recoverOperation h (pending?_of_mem h.keyed.descriptors (mem_of_find?_eq_some hop))

end Recover

/-! ## Importing, and what writes nothing -/

section Import

/-- No profile of the import takes the place of a profile that is still being created. -/
def Welcomes (document : ProfileDocument) (profiles : List ProfileDescriptor) : Prop :=
  ∀ profile ∈ profiles, profile.descriptorId ∉ document.legacyConsumedDescriptorIds →
    ∀ op ∈ document.pendingOperations, op.kind = .pendingCreate → op.descriptorId ≠ profile.descriptorId

theorem kind_of_no_profile (h : referenceOk none op = true) : op.kind = .pendingCreate := by
  cases op with
  | pendingCreate _ _ _ => rfl
  | _ => cases h

theorem Sound.consume (h : Sound document vault issued) (consumed : String) :
    Sound (document.consumeLegacyDescriptor consumed) vault issued := by
  refine ⟨h.keyed.consumeLegacyDescriptor consumed, fun d => ?_⟩
  rw [profile?_consumeLegacyDescriptor, pending?_consumeLegacyDescriptor]
  exact h.slots d

theorem legacyConsumed_mono {id consumed : String} (h : id ∈ document.legacyConsumedDescriptorIds) :
    id ∈ (document.consumeLegacyDescriptor consumed).legacyConsumedDescriptorIds := by
  unfold consumeLegacyDescriptor
  split
  · exact h
  · exact mem_append_left _ h

theorem importProfile_pending (document : ProfileDocument) (profile : ProfileDescriptor) :
    (importProfile document profile).pendingOperations = document.pendingOperations := by
  unfold importProfile
  split
  · rfl
  dsimp only
  split
  · exact pendingOperations_consumeLegacyDescriptor document _
  · exact pendingOperations_consumeLegacyDescriptor document _

theorem importProfile_consumed {id : String} (profile : ProfileDescriptor)
    (h : id ∈ document.legacyConsumedDescriptorIds) : id ∈ (importProfile document profile).legacyConsumedDescriptorIds := by
  unfold importProfile
  split
  · exact h
  dsimp only
  split
  · exact legacyConsumed_mono h
  · exact legacyConsumed_mono h

variable {profile : ProfileDescriptor}

variable {rest : List ProfileDescriptor}

theorem Welcomes.tail (h : Welcomes document (profile :: rest)) : Welcomes (importProfile document profile) rest := by
  intro other hother hnew op ho
  rw [importProfile_pending] at ho
  exact h other (mem_cons_of_mem _ hother) (fun hin => hnew (importProfile_consumed profile hin)) op ho

theorem sound_importProfile (h : Sound document vault issued) (hw : Welcomes document (profile :: rest)) :
    Sound (importProfile document profile) vault issued := by
  unfold importProfile
  split
  · exact h
  rename_i hnew
  have hconsumed := h.consume profile.descriptorId
  dsimp only
  split
  · exact hconsumed
  rename_i hp
  have hp : (document.consumeLegacyDescriptor profile.descriptorId).profile? profile.descriptorId = none := by
    simpa using hp
  have ho : (document.consumeLegacyDescriptor profile.descriptorId).pending? profile.descriptorId = none := by
    cases ho : (document.consumeLegacyDescriptor profile.descriptorId).pending? profile.descriptorId with
    | none => rfl
    | some op =>
      have href := hconsumed.reference ho
      rw [hp] at href
      rw [pending?_consumeLegacyDescriptor] at ho
      obtain ⟨hmem, hd⟩ := pending?_some ho
      exact absurd hd (hw profile mem_cons_self hnew op hmem (kind_of_no_profile href))
  refine hconsumed.pushProfile (⟨profile.descriptorId, profile.configGeneration, profile.name,
    stripPostgresAttestation profile.target, if profile.target.isNetwork then .required else .notRequired, none⟩)
    hp ho ?_ rfl
  cases hnet : profile.target.isNetwork with
  | true => exact consistent_required ((isNetwork_strip _).trans hnet) _ _ _
  | false => exact consistent_notRequired ((isNetwork_strip _).trans hnet) _ _ _

variable {profiles : List ProfileDescriptor}

theorem sound_import : ∀ {document : ProfileDocument}, Sound document vault issued → Welcomes document profiles →
      Sound (profiles.foldl importProfile document) vault issued := by
  induction profiles with
  | nil => exact fun h _ => h
  | cons profile rest ih => exact fun h hw => ih (sound_importProfile h hw) hw.tail

theorem safe_importLegacy (h : Sound document vault issued)
    (hw : Welcomes document profiles) : Safe (importLegacy profiles) document vault issued := by
  refine safe_load h ?_
  exact safe_replace_last h (sound_import h hw)

end Import

theorem safe_issueTransportChallenge (request : Transport) (h : Sound document vault issued) :
    Safe (issueTransportChallenge request) document vault issued := by
  refine safe_command (c := .issueChallenge request) nofun ?_
  rintro s r t rfl rfl rfl ⟨chance, he, -⟩
  cases he
  exact ⟨h.issue _, safe_answer (h.issue _)⟩

theorem safe_resolveSavedCredential {β : Type} {f : ProfileDescriptor × Option String → M β} (d : String)
    (h : Sound document vault issued) (hf : ∀ resolved, Safe (f resolved) document vault issued) :
    Safe (do f (← resolveSavedCredential d)) document vault issued := by
  unfold resolveSavedCredential
  rw [Prog.bind_assoc]
  refine safe_load h ?_
  rw [Prog.bind_assoc]
  refine safe_ofExcept h fun _ _ => ?_
  rw [Prog.bind_assoc]
  refine safe_ofExcept h fun profile _ => ?_
  split
  · rw [Prog.bind_assoc]
    refine safe_quiet h nofun (fun chance s r t he => ?_) fun _ => hf _
    rw [perform] at he
    split at he
    · split at he
      all_goals
        cases he
        exact ⟨rfl, rfl, rfl⟩
    all_goals
      cases he
      exact ⟨rfl, rfl, rfl⟩
  · split
    · exact safe_throw h
    · exact hf _

/-- **Every operation is safe**, an import where it welcomes nobody in place of a profile that is being created. -/
theorem safe_start {operation : Operation} (h : Sound document vault issued)
    (hw : ∀ profiles, operation = .importLegacy profiles → Welcomes document profiles) :
    Safe operation.start document vault issued := by
  cases operation with
  | issueTransportChallenge request => exact (safe_issueTransportChallenge request h).map _
  | importLegacy profiles => exact (safe_importLegacy h (hw profiles rfl)).map _
  | create request => exact (safe_create request h).map _
  | update request => exact (safe_update request h).map _
  | forget d => exact (safe_forget d h).map _
  | removeCredential d => exact (safe_removeCredential d h).map _
  | recover request => exact (safe_recover request h).map _
  | testEphemeral target credential challengeId =>
    refine Safe.map ?_ _
    exact safe_authorize h fun target => safe_answer h
  | openSaved d =>
    refine Safe.map ?_ _
    exact safe_resolveSavedCredential d h fun resolved => safe_answer h

end Profiles
end Yuzora
