import Yuzora.ProfileOps
/-!
# ProfileSlots — a document, descriptor by descriptor

An operation is about one descriptor.  What a document says of it is its slot: the profile and the pending operation that
stand there.  Each change of a document is a change of one slot (`Frame`).
-/
namespace Yuzora
namespace Profiles
namespace ProfileDocument

open List

def pending? (document : ProfileDocument) (descriptorId : String) : Option PendingOperation :=
  document.pendingOperations.find? fun operation => operation.descriptorId = descriptorId

variable {document : ProfileDocument} {d : String} {profile : StoredProfile} {operation : PendingOperation} {α : Type}
  {key : α → String}

theorem profile?_some (h : document.profile? d = some profile) :
    profile ∈ document.profiles ∧ profile.descriptorId = d :=
  ⟨mem_of_find?_eq_some h, by simpa using find?_some h⟩

theorem pending?_some (h : document.pending? d = some operation) :
    operation ∈ document.pendingOperations ∧ operation.descriptorId = d :=
  ⟨mem_of_find?_eq_some h, by simpa using find?_some h⟩

theorem find?_of_nodup {a : α} : ∀ {l : List α}, (l.map key).Nodup → a ∈ l → l.find? (fun b => key b = key a) = some a
  | b :: l, hn, ha => by
    rw [map_cons, nodup_cons] at hn
    by_cases hb : key b = key a
    · rw [find?_cons_of_pos (by simpa using hb)]
      rcases mem_cons.1 ha with rfl | ha
      · rfl
      · exact absurd (hb ▸ mem_map_of_mem ha) hn.1
    · rw [find?_cons_of_neg (by simpa using hb)]
      rcases mem_cons.1 ha with rfl | ha
      · exact absurd rfl hb
      · exact find?_of_nodup hn.2 ha

theorem profile?_of_mem (hn : (document.profiles.map (·.descriptorId)).Nodup) (h : profile ∈ document.profiles) :
    document.profile? profile.descriptorId = some profile := find?_of_nodup hn h

theorem pending?_of_mem (hn : (document.pendingOperations.map (·.descriptorId)).Nodup)
    (h : operation ∈ document.pendingOperations) : document.pending? operation.descriptorId = some operation :=
  find?_of_nodup hn h

theorem profile?_eq_none : document.profile? d = none ↔ ∀ profile ∈ document.profiles, profile.descriptorId ≠ d := by
  simp [profile?, find?_eq_none]

theorem pending?_eq_none :
    document.pending? d = none ↔ ∀ operation ∈ document.pendingOperations, operation.descriptorId ≠ d := by
  simp [pending?, find?_eq_none]

theorem ensureNoPending_ok (h : document.ensureNoPending d = .ok ()) : document.pending? d = none := by
  rw [ensureNoPending] at h
  split at h
  · cases h
  · rename_i hany
    rw [pending?_eq_none]
    simpa using hany

theorem findProfile_ok (h : findProfile document d = .ok profile) : document.profile? d = some profile := by
  rw [findProfile] at h
  split at h
  · rename_i found hf
    cases h
    exact hf
  · cases h

/-! ## Changes of one slot -/

/-- The keys of a document are distinct, and it has the version of this repository. -/
structure Keyed (document : ProfileDocument) : Prop where
  version : document.version = PROFILE_REPOSITORY_VERSION
  profiles : (document.profiles.map (·.descriptorId)).Nodup
  operations : (document.pendingOperations.map (·.operationId)).Nodup
  descriptors : (document.pendingOperations.map (·.descriptorId)).Nodup

/-- A change that leaves every slot but one. -/
structure Frame (document changed : ProfileDocument) (d : String) : Prop where
  profile : ∀ other, other ≠ d → changed.profile? other = document.profile? other
  pending : ∀ other, other ≠ d → changed.pending? other = document.pending? other

theorem Frame.trans {first second third : ProfileDocument} (h : Frame first second d) (h' : Frame second third d) :
    Frame first third d :=
  ⟨fun other ho => (h'.profile other ho).trans (h.profile other ho),
    fun other ho => (h'.pending other ho).trans (h.pending other ho)⟩

theorem find?_filter_ne {a b : String} (hne : b ≠ a) (l : List α) :
    (l.filter fun x => key x ≠ a).find? (fun x => key x = b) = l.find? fun x => key x = b := by
  rw [find?_filter]
  congr 1
  funext x
  by_cases h : key x = b
  · simp [h, hne]
  · simp [h]

theorem find?_filter_self {a : String} (l : List α) :
    (l.filter fun x => key x ≠ a).find? (fun x => key x = a) = none := by
  simp [find?_eq_none]

/-! ### A new profile -/

section PushProfile

theorem profile?_pushProfile (profile : StoredProfile) (h : document.profile? profile.descriptorId = none) :
    (document.pushProfile profile).profile? profile.descriptorId = some profile := by
  rw [profile?] at h
  rw [profile?, pushProfile, find?_append, h]
  simp

theorem pushProfile_frame (document : ProfileDocument) (profile : StoredProfile) :
    Frame document (document.pushProfile profile) profile.descriptorId := by
  refine ⟨fun other ho => ?_, fun _ _ => rfl⟩
  rw [profile?, pushProfile, find?_append, find?_cons_of_neg (by simpa using Ne.symm ho)]
  simp [profile?]

theorem Keyed.pushProfile (h : Keyed document) (profile : StoredProfile) (hp : document.profile? profile.descriptorId = none) :
    Keyed (document.pushProfile profile) := by
  refine ⟨h.version, ?_, h.operations, h.descriptors⟩
  rw [ProfileDocument.pushProfile, map_append, nodup_append]
  refine ⟨h.profiles, by simp, fun a ha b hb => ?_⟩
  obtain ⟨p, hmem, rfl⟩ := mem_map.1 ha
  rw [map_cons, map_nil, mem_singleton] at hb
  rw [hb]
  exact profile?_eq_none.1 hp p hmem

end PushProfile

/-! ### Another profile in the same place -/

section SetProfile

section
variable (h : profile.descriptorId = d) {l : List StoredProfile}
include h

theorem map_modify_findIdx : (l.modify (l.findIdx fun p => p.descriptorId = d) fun _ => profile).map (·.descriptorId) =
      l.map (·.descriptorId) := by
  induction l with
  | nil => rfl
  | cons p l ih =>
    by_cases hp : p.descriptorId = d
    · simp [findIdx_cons, hp, h]
    · simpa [findIdx_cons, hp] using ih

theorem find?_modify_findIdx (other : String) :
    (l.modify (l.findIdx fun p => p.descriptorId = d) fun _ => profile).find? (fun p => p.descriptorId = other) =
      if other = d then (l.find? fun p => p.descriptorId = d).map fun _ => profile
      else l.find? fun p => p.descriptorId = other := by
  induction l with
  | nil => simp
  | cons p l ih =>
    by_cases hp : p.descriptorId = d
    · by_cases ho : other = d
      · simp [findIdx_cons, hp, h, ho]
      · have hd : ¬ d = other := fun hd => ho hd.symm
        simp [findIdx_cons, hp, h, ho, hd]
    · by_cases hpo : p.descriptorId = other
      · have hod : ¬ other = d := fun ho => hp (hpo.trans ho)
        simp [findIdx_cons, hpo, hod]
      · simpa [findIdx_cons, hp, hpo] using ih

theorem profile?_setProfile (hd : (document.profile? d).isSome) :
    (document.setProfile d profile).profile? d = some profile := by
  obtain ⟨current, hc⟩ := Option.isSome_iff_exists.1 hd
  rw [profile?] at hc
  rw [profile?, setProfile, find?_modify_findIdx h, if_pos rfl, hc]
  rfl

end

theorem setProfile_frame (document : ProfileDocument) (h : profile.descriptorId = d) :
    Frame document (document.setProfile d profile) d := by
  refine ⟨fun other ho => ?_, fun _ _ => rfl⟩
  rw [profile?, setProfile, find?_modify_findIdx h, if_neg ho]
  rfl

theorem Keyed.setProfile (h : Keyed document) (hp : profile.descriptorId = d) : Keyed (document.setProfile d profile) :=
  ⟨h.version, by rw [ProfileDocument.setProfile, map_modify_findIdx hp]; exact h.profiles, h.operations, h.descriptors⟩

end SetProfile

/-! ### No profile -/

theorem profile?_dropProfile (document : ProfileDocument) (d : String) : (document.dropProfile d).profile? d = none :=
  find?_filter_self _

theorem dropProfile_frame (document : ProfileDocument) (d : String) : Frame document (document.dropProfile d) d :=
  ⟨fun _ ho => find?_filter_ne ho _, fun _ _ => rfl⟩

theorem Keyed.dropProfile (h : Keyed document) (d : String) : Keyed (document.dropProfile d) :=
  ⟨h.version, h.profiles.sublist (filter_sublist.map _), h.operations, h.descriptors⟩

/-! ### A new pending operation -/

section PushPending

theorem pending?_pushPending (operation : PendingOperation) (h : document.pending? operation.descriptorId = none) :
    (document.pushPending operation).pending? operation.descriptorId = some operation := by
  rw [pending?] at h
  rw [pending?, pushPending, find?_append, h]
  simp

theorem pushPending_frame (document : ProfileDocument) (operation : PendingOperation) :
    Frame document (document.pushPending operation) operation.descriptorId := by
  refine ⟨fun _ _ => rfl, fun other ho => ?_⟩
  rw [pending?, pushPending, find?_append, find?_cons_of_neg (by simpa using Ne.symm ho)]
  simp [pending?]

theorem Keyed.pushPending (h : Keyed document) (hp : document.pending? operation.descriptorId = none)
    (hid : ∀ other ∈ document.pendingOperations, other.operationId ≠ operation.operationId) :
    Keyed (document.pushPending operation) := by
  refine ⟨h.version, h.profiles, ?_, ?_⟩
  · rw [ProfileDocument.pushPending, map_append, nodup_append]
    refine ⟨h.operations, by simp, fun a ha b hb => ?_⟩
    obtain ⟨other, hmem, rfl⟩ := mem_map.1 ha
    rw [map_cons, map_nil, mem_singleton] at hb
    rw [hb]
    exact hid other hmem
  · rw [ProfileDocument.pushPending, map_append, nodup_append]
    refine ⟨h.descriptors, by simp, fun a ha b hb => ?_⟩
    obtain ⟨other, hmem, rfl⟩ := mem_map.1 ha
    rw [map_cons, map_nil, mem_singleton] at hb
    rw [hb]
    exact pending?_eq_none.1 hp other hmem

end PushPending

/-! ### No pending operation -/

theorem pending?_dropPending (document : ProfileDocument) (d : String) : (document.dropPending d).pending? d = none :=
  find?_filter_self _

theorem dropPending_frame (document : ProfileDocument) (d : String) : Frame document (document.dropPending d) d :=
  ⟨fun _ _ => rfl, fun _ ho => find?_filter_ne ho _⟩

theorem Keyed.dropPending (h : Keyed document) (d : String) : Keyed (document.dropPending d) :=
  ⟨h.version, h.profiles, h.operations.sublist (filter_sublist.map _),
    h.descriptors.sublist (filter_sublist.map _)⟩

theorem dropOperation_eq (document : ProfileDocument) (h : Keyed document) (ho : document.pending? d = some operation) :
    document.dropOperation operation.operationId = document.dropPending d := by
  obtain ⟨hmem, hd⟩ := pending?_some ho
  rw [dropOperation, dropPending]
  congr 1
  refine filter_congr fun other hother => ?_
  congr 1
  rw [ne_eq, ne_eq, eq_iff_iff, not_iff_not]
  constructor
  · intro hid
    exact (inj_on_of_nodup_map h.operations hother hmem hid) ▸ hd
  · intro hdesc
    exact (inj_on_of_nodup_map h.descriptors hother hmem (hdesc.trans hd.symm)) ▸ rfl

theorem Keyed.consumeLegacyDescriptor (h : Keyed document) (d : String) : Keyed (document.consumeLegacyDescriptor d) := by
  rw [ProfileDocument.consumeLegacyDescriptor]
  split
  · exact h
  · exact ⟨h.version, h.profiles, h.operations, h.descriptors⟩

@[simp] theorem profile?_consumeLegacyDescriptor (document : ProfileDocument) (consumed d : String) :
    (document.consumeLegacyDescriptor consumed).profile? d = document.profile? d := by
  rw [consumeLegacyDescriptor]
  split <;> rfl

@[simp] theorem pending?_consumeLegacyDescriptor (document : ProfileDocument) (consumed d : String) :
    (document.consumeLegacyDescriptor consumed).pending? d = document.pending? d := by
  rw [consumeLegacyDescriptor]
  split <;> rfl

@[simp] theorem pendingOperations_consumeLegacyDescriptor (document : ProfileDocument) (consumed : String) :
    (document.consumeLegacyDescriptor consumed).pendingOperations = document.pendingOperations := by
  rw [consumeLegacyDescriptor]
  split <;> rfl

end ProfileDocument
end Profiles
end Yuzora
