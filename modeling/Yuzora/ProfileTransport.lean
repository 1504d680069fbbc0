import Yuzora.Threads
import Yuzora.ProfileSafe
/-!
# ProfileTransport — where an authorization may come from

A stored target without full verification that counts as authorized is held; one in the record of a pending operation is
proposed.  Along every operation, each document that it writes holds and proposes only what the document before it did,
or what a challenge was consumed for.
-/
namespace Yuzora
namespace Profiles

open List
open ProfileDocument

/-! ## What is authorized -/

/-- What an authorized target without full verification is authorized for. -/
def ProfileTarget.risk : ProfileTarget → Option Transport
  | postgres target =>
    if target.transportMode ≠ .verifyFull ∧ target.authorized = true then some target.transport else none
  | _ => none

/-- The target that the profile will have when the operation is resumed. -/
def PendingOperation.proposal : PendingOperation → Option ProfileTarget
  | pendingCreate _ profile _ => some profile.target
  | pendingReplace _ _ replacement _ _ => some replacement.target
  | _ => none

def ProfileDocument.held (document : ProfileDocument) (d : String) : Option Transport :=
  (document.profile? d).bind fun profile => profile.target.risk

def ProfileDocument.proposed (document : ProfileDocument) (d : String) : Option Transport :=
  (document.pending? d).bind fun op => op.proposal.bind ProfileTarget.risk

variable {tr : Transport}

theorem risk_postgres {target : PostgresTarget} : (ProfileTarget.postgres target).risk = some tr ↔
      (target.transportMode ≠ .verifyFull ∧ target.authorized = true) ∧ target.transport = tr := by
  rw [ProfileTarget.risk]
  split
  · rename_i h
    simp [h]
  · rename_i h
    simp [h]

@[simp] theorem risk_strip (target : ProfileTarget) : (stripPostgresAttestation target).risk = none := by
  cases target with
  | sqlite _ _ => rfl
  | mssql _ => rfl
  | postgres target =>
    obtain ⟨viaHost, host, port, database, user, mode, exception, acknowledged⟩ := target
    cases mode <;> rfl

variable {target : ProfileTarget}

theorem risk_apply (h : (applyBackendPostgresAuthorization target).risk = some tr) :
    ∃ postgres, target = .postgres postgres ∧ postgres.transport = tr := by
  cases target with
  | sqlite | mssql => cases h
  | postgres target =>
    refine ⟨target, rfl, ?_⟩
    obtain ⟨viaHost, host, port, database, user, mode, exception, acknowledged⟩ := target
    cases mode with
    | _ => exact (risk_postgres.1 h).2

variable {document written : ProfileDocument} {d : String} {p : StoredProfile} {op : PendingOperation}
  {past : List (Asked Command Reply)} {operation : Operation}

theorem held_of_profile (h : document.profile? d = some p) : document.held d = p.target.risk := by
  rw [held, h]
  rfl

theorem held_of_none (h : document.profile? d = none) : document.held d = none := by
  rw [held, h]
  rfl

theorem proposed_of_pending (h : document.pending? d = some op) :
    document.proposed d = op.proposal.bind ProfileTarget.risk := by
  rw [proposed, h]
  rfl

theorem proposed_of_none (h : document.pending? d = none) : document.proposed d = none := by
  rw [proposed, h]
  rfl

section
variable (h : document.validate = .ok ())
include h

/-! ## What validation gives -/

theorem valid_of_validate : document.Valid ∧ document.version = PROFILE_REPOSITORY_VERSION := by
  rw [validate] at h
  split at h
  · cases h
  rename_i hversion
  split at h
  · rename_i hvalid
    exact ⟨hvalid, not_not.1 hversion⟩
  · cases h

theorem keyed_of_validate : Keyed document := by
  obtain ⟨hvalid, hversion⟩ := valid_of_validate h
  exact ⟨hversion, hvalid.profiles, hvalid.operations, hvalid.descriptors⟩

theorem reference_of_validate (ho : document.pending? d = some op) : referenceOk (document.profile? d) op = true := by
  obtain ⟨hmem, hd⟩ := pending?_some ho
  exact hd ▸ (valid_of_validate h).1.references op hmem

theorem slot_of_pushProfile (hw : (document.pushProfile p).validate = .ok ()) :
    document.profile? p.descriptorId = none ∧ document.pending? p.descriptorId = none := by
  have hp : document.profile? p.descriptorId = none := by
    rw [profile?_eq_none]
    intro q hq heq
    have hn := (keyed_of_validate hw).profiles
    rw [pushProfile, map_append, nodup_append] at hn
    exact hn.2.2 _ (mem_map_of_mem hq) _ (by simp) heq
  refine ⟨hp, ?_⟩
  cases ho : document.pending? p.descriptorId with
  | none => rfl
  | some op =>
    have href := reference_of_validate h ho
    rw [hp] at href
    have hkind := kind_of_no_profile href
    have ho' : (document.pushProfile p).pending? p.descriptorId = some op := ho
    have hafter := reference_of_validate hw ho'
    rw [profile?_pushProfile p hp] at hafter
    cases op with
    | pendingCreate operationId created g => cases (reference_create hafter).1
    | _ => cases hkind

end

/-! ## What a program may write -/

def knownStep (known : Option ProfileDocument) : Asked Command Reply → Option ProfileDocument
  | ⟨.load, .ok document⟩ => some document
  | ⟨.replace document, .ok _⟩ => some document
  | ⟨.replace _, .error _⟩ => none
  | _ => known

def known (past : List (Asked Command Reply)) : Option ProfileDocument := past.foldl knownStep none

theorem known_snoc (past : List (Asked Command Reply)) (a : Asked Command Reply) :
    known (past ++ [a]) = knownStep (known past) a := by
  rw [known, foldl_append]
  rfl

def Consumed (past : List (Asked Command Reply)) (tr : Transport) : Prop :=
  ∃ id target, (⟨.consumeChallenge id (.postgres target), .ok ()⟩ : Asked Command Reply) ∈ past ∧ target.transport = tr

/-- The operation is an update of this profile, or the create that made it. -/
def Operation.Concerns (past : List (Asked Command Reply)) (d : String) : Operation → Prop
  | .update request => request.descriptorId = d
  | .create _ => (⟨.newId "dbc", d⟩ : Asked Command Reply) ∈ past
  | _ => False

/-- A challenge for this transport was consumed by a request that is about this profile. -/
def Granted (operation : Operation) (past : List (Asked Command Reply)) (d : String) (tr : Transport) : Prop :=
  ∃ id target before after, past = before ++ ⟨.consumeChallenge id (.postgres target), .ok ()⟩ :: after ∧
    target.transport = tr ∧ operation.Concerns after d

theorem Consumed.granted (h : Consumed past tr)
    (hc : ∀ after, operation.Concerns after d) : Granted operation past d tr := by
  obtain ⟨id, target, hmem, ht⟩ := h
  obtain ⟨before, after, rfl⟩ := append_of_mem hmem
  exact ⟨id, target, before, after, rfl, ht, hc after⟩

theorem Consumed.granted_create {request : ProfileCreateRequest}
    (h : Consumed past tr) (a : Asked Command Reply) : Granted (.create request) (past ++ [a] ++ [⟨.newId "dbc", d⟩]) d tr := by
  obtain ⟨id, target, hmem, ht⟩ := h
  obtain ⟨before, after, rfl⟩ := append_of_mem hmem
  exact ⟨id, target, before, after ++ [a] ++ [⟨.newId "dbc", d⟩], by simp, ht,
    mem_concat_self⟩

theorem Granted.snoc (h : Granted operation past d tr)
    (a : Asked Command Reply) : Granted operation (past ++ [a]) d tr := by
  obtain ⟨id, target, before, after, rfl, ht, hc⟩ := h
  refine ⟨id, target, before, after ++ [a], by simp, ht, ?_⟩
  cases operation with
  | update request => exact hc
  | create request => exact mem_append_left _ hc
  | _ => cases hc

/-- **What may stand in a slot** of the document that is written. -/
structure Justified (operation : Operation) (past : List (Asked Command Reply)) (document written : ProfileDocument)
    (d : String) : Prop where
  held : ∀ tr, written.held d = some tr →
    document.held d = some tr ∨ document.proposed d = some tr ∨ Granted operation past d tr
  proposed : ∀ tr, written.proposed d = some tr →
    (document.proposed d = some tr ∧ written.held d = document.held d) ∨ Granted operation past d tr ∨
      written.held d = some tr

theorem Justified.same (hh : written.held d = document.held d) (hp : written.proposed d = document.proposed d) :
    Justified operation past document written d :=
  ⟨fun _ h => .inl (hh ▸ h), fun _ h => .inl ⟨hp ▸ h, hh⟩⟩

theorem justified_of_frame (hf : Frame document written d) (h : Justified operation past document written d) (other : String) :
    Justified operation past document written other := by
  by_cases ho : other = d
  · exact ho ▸ h
  · refine Justified.same ?_ ?_
    · rw [ProfileDocument.held, ProfileDocument.held, hf.profile other ho]
    · rw [ProfileDocument.proposed, ProfileDocument.proposed, hf.pending other ho]

/-- A slot that proposes nothing any more, and holds what it held, what was proposed, or what was granted. -/
theorem Justified.settled (hp : written.proposed d = none) (hh : ∀ tr, written.held d = some tr →
    document.held d = some tr ∨ document.proposed d = some tr ∨ Granted operation past d tr) :
    Justified operation past document written d := by
  refine ⟨hh, fun tr h => ?_⟩
  rw [hp] at h
  cases h

def asks (operation : Operation) (past : List (Asked Command Reply)) (c : Command) : Prop :=
  ∀ written, c = .replace written → ∃ document, known past = some document ∧
    (document.validate = .ok () → written.validate = .ok () → ∀ d, Justified operation past document written d)

/-- **Along the program, every document that is written is justified**, and it ends well. -/
structure Licensed {α : Type} (operation : Operation) (ends : List (Asked Command Reply) → α → Prop) (p : M α)
    (past : List (Asked Command Reply)) : Prop where
  along : p.Along (asks operation) (fun past r => ∀ a, r = .ok a → ends past a) past

section Rules

variable {α β : Type} {ends : List (Asked Command Reply) → β → Prop} {f : α → M β}

theorem licensed_pure {a : β} (h : ends past a) : Licensed operation ends (pure a) past :=
  ⟨fun _ ha => Except.ok.inj ha ▸ h⟩

theorem licensed_throw {e : ProfileError} : Licensed operation ends (Prog.throw e) past :=
  ⟨fun _ ha => Prog.error_ne_ok ha⟩

theorem licensed_answer {r : Except ProfileError β} (h : ∀ a, r = .ok a → ends past a) :
    Licensed operation ends (Prog.ofExcept r) past := ⟨h⟩

theorem licensed_ofExcept {r : Except ProfileError α} (hf : ∀ a, r = .ok a → Licensed operation ends (f a) past) :
    Licensed operation ends (do f (← (Prog.ofExcept r : M α))) past := by
  cases r with
  | ok a => exact hf a rfl
  | error e => exact licensed_throw

theorem Licensed.map {ends' : List (Asked Command Reply) → α → Prop} {p : M α} {f : α → β}
    (h : Licensed operation ends' p past) (hf : ∀ past a, ends' past a → ends past (f a)) :
    Licensed operation ends (do pure (f (← p))) past := by
  refine ⟨Prog.along_bind.2 (h.along.mono (fun _ _ => id) fun past r hr => ⟨fun a ha => ?_, fun e he => ?_⟩)⟩
  · subst ha
    have hpure : Licensed operation ends (pure (f a)) past := licensed_pure (hf past a (hr a rfl))
    exact hpure.along
  · exact fun _ ha => Prog.error_ne_ok ha

theorem licensed_tell {c : Command} {f : Reply c → M β} (hc : ∀ written, c ≠ .replace written)
    (hf : ∀ r, Licensed operation ends (f r) (past ++ [⟨c, r⟩])) : Licensed operation ends (Prog.call c f) past :=
  ⟨⟨fun written hw => absurd hw (hc written), fun r => (hf r).along⟩⟩

theorem licensed_ask {ε : Type} {c : Command} {answer : Reply c → Except ε α} {mapped : ε → ProfileError}
    (hc : ∀ written, c ≠ .replace written)
    (hf : ∀ r a, answer r = .ok a → Licensed operation ends (f a) (past ++ [⟨c, r⟩])) :
    Licensed operation ends (do f (← ask c answer mapped)) past := by
  refine licensed_tell hc fun r => ?_
  change Licensed operation ends ((Prog.ofExcept ((answer r).mapError mapped) : M α) >>= f) _
  cases hr : answer r with
  | error e => exact licensed_throw
  | ok a => exact hf r a hr

theorem licensed_load {f : ProfileDocument → M β}
    (hf : ∀ document, Licensed operation ends (f document) (past ++ [⟨.load, .ok document⟩])) :
    Licensed operation ends (do f (← load)) past := by
  refine licensed_ask nofun fun r document hr => ?_
  obtain rfl : r = .ok document := hr
  exact hf document

theorem licensed_replace {f : Unit → M β} (hk : known past = some document)
    (hj : document.validate = .ok () → written.validate = .ok () → ∀ d, Justified operation past document written d)
    (hf : Licensed operation ends (f ()) (past ++ [⟨.replace written, .ok ()⟩])) :
    Licensed operation ends (do f (← replace written)) past := by
  refine ⟨⟨fun w hw => ?_, fun r => ?_⟩⟩
  · obtain rfl := Command.replace.inj hw
    exact ⟨document, hk, hj⟩
  · cases r with
    | error e => exact fun _ ha => Prog.error_ne_ok ha
    | ok _ => exact hf.along

theorem licensed_replace_last {a : β} (hk : known past = some document)
    (hj : document.validate = .ok () → written.validate = .ok () → ∀ d, Justified operation past document written d)
    (he : ends (past ++ [⟨.replace written, .ok ()⟩]) a) :
    Licensed operation ends (do
      replace written
      pure a : M β) past :=
  licensed_replace (f := fun _ => pure a) hk hj (licensed_pure he)

theorem licensed_freshId {kind : String} {f : String → M β}
    (hf : ∀ id, Licensed operation ends (f id) (past ++ [⟨.newId kind, id⟩])) :
    Licensed operation ends (do f (← freshId kind)) past := licensed_tell nofun hf

/-- **Where an authorized target comes from**: a challenge that was consumed, or what is stored. -/
theorem licensed_authorize {target : ProfileTarget} {challengeId : Option String} {existing : Option ProfileTarget}
    {f : ProfileTarget → M β}
    (hf : ∀ result later, known (past ++ later) = known past →
      (∀ tr, result.risk = some tr → Consumed (past ++ later) tr ∨ ∃ e, existing = some e ∧ e.risk = some tr) →
        Licensed operation ends (f result) (past ++ later)) :
    Licensed operation ends (do f (← authorizeIncomingPostgresTarget target challengeId existing)) past := by
  have hstill : ∀ result, (∀ tr, result.risk = some tr → ∃ e, existing = some e ∧ e.risk = some tr) →
      Licensed operation ends (f result) past := fun result hr => by
    have h := hf result [] (by rw [append_nil]) fun tr htr => .inr (hr tr htr)
    rwa [append_nil] at h
  rw [authorizeIncomingPostgresTarget]
  split
  · refine hstill _ fun tr htr => ?_
    rw [risk_strip] at htr
    cases htr
  split
  · rename_i e he
    obtain ⟨he, -⟩ := Option.filter_eq_some_iff.1 he
    exact hstill _ fun tr htr => ⟨e, he, htr⟩
  split
  · exact licensed_throw
  · rename_i id _
    rw [Prog.bind_assoc]
    refine licensed_ask (fun _ hc => by cases hc) fun r a hr => ?_
    obtain rfl : r = .ok a := hr
    rw [Prog.bind_assoc]
    refine licensed_ofExcept fun _ _ => hf _ _ ?_ fun tr htr => .inl ?_
    · rw [known_snoc]
      rfl
    · obtain ⟨postgres, hp, ht⟩ := risk_apply htr
      exact ⟨id, postgres, by rw [← hp]; exact mem_concat_self, ht⟩

end Rules

/-! ## The operations -/

def anything {α : Type} (_ : List (Asked Command Reply)) (_ : α) : Prop := True

theorem justified_pushPending (hw : (document.pushPending op).validate = .ok ())
    (hp : ∀ tr, op.proposal.bind ProfileTarget.risk = some tr →
      Granted operation past op.descriptorId tr ∨ document.held op.descriptorId = some tr) (d : String) :
    Justified operation past document (document.pushPending op) d := by
  refine justified_of_frame (pushPending_frame document op) ⟨fun _ h => .inl h, fun tr h => .inr ?_⟩ d
  have hmem : op ∈ (document.pushPending op).pendingOperations := by simp [pushPending]
  rw [proposed_of_pending (pending?_of_mem (keyed_of_validate hw).descriptors hmem)] at h
  exact hp tr h

theorem justified_dropOperation (h : document.validate = .ok ()) (ho : document.pending? d = some op) (other : String) :
    Justified operation past document (document.dropOperation op.operationId) other := by
  rw [dropOperation_eq document (keyed_of_validate h) ho]
  exact justified_of_frame (dropPending_frame document d)
    (.settled (proposed_of_none (pending?_dropPending document d)) fun _ hh => .inl hh) other

theorem justified_pushProfile (h : document.validate = .ok ()) (hw : (document.pushProfile p).validate = .ok ())
    (hp : ∀ tr, p.target.risk = some tr → Granted operation past p.descriptorId tr) (d : String) :
    Justified operation past document (document.pushProfile p) d := by
  obtain ⟨hprofile, hpending⟩ := slot_of_pushProfile h hw
  refine justified_of_frame (pushProfile_frame document p) (.settled ?_ fun tr hh => .inr (.inr (hp tr ?_))) d
  · exact (proposed_of_none hpending : document.proposed p.descriptorId = none)
  · rw [held_of_profile (profile?_pushProfile p hprofile)] at hh
    exact hh

theorem licensed_create (request : ProfileCreateRequest) : Licensed (.create request) anything (create request) [] := by
  refine licensed_authorize fun target later _ hrisk => ?_
  refine licensed_load fun document => ?_
  refine licensed_freshId fun d => ?_
  have hgrant : ∀ tr, target.risk = some tr →
      Granted (.create request) ([] ++ later ++ [⟨.load, .ok document⟩] ++ [⟨.newId "dbc", d⟩]) d tr := fun tr ht => by
    rcases hrisk tr ht with hc | ⟨e, he, -⟩
    · exact hc.granted_create _
    · cases he
  have hknown : known ([] ++ later ++ [⟨.load, .ok document⟩] ++ [⟨.newId "dbc", d⟩]) = some document := by
    rw [known_snoc, known_snoc]
    rfl
  split
  · exact licensed_throw
  · exact licensed_replace_last hknown (fun h hw => justified_pushProfile h hw hgrant) trivial
  · exact licensed_replace_last hknown (fun h hw => justified_pushProfile h hw hgrant) trivial
  · rename_i password _ _
    refine licensed_freshId fun g => ?_
    refine licensed_freshId fun operationId => ?_
    refine licensed_replace (by rw [known_snoc, known_snoc]; exact hknown) (fun _ hw => justified_pushPending hw ?_) ?_
    · exact fun tr ht => .inl (((hgrant tr ht).snoc _).snoc _)
    refine licensed_ask nofun fun _ _ _ => ?_
    refine licensed_replace_last (by rw [known_snoc, known_snoc]; rfl) (fun h hw => ?_) trivial
    have hmem : (⟨d, 1, request.name, target, .stored, some g⟩ : StoredProfile) ∈
      (((document.pushPending (.pendingCreate operationId ⟨d, 1, request.name, target, .stored, none⟩ g)).pushProfile
        ⟨d, 1, request.name, target, .stored, some g⟩).dropPending d).profiles := by simp [dropPending, pushProfile]
    refine justified_of_frame ((pushProfile_frame _ _).trans (dropPending_frame _ d))
      (.settled (proposed_of_none (pending?_dropPending _ d)) fun tr hh => .inr (.inr ?_))
    have hprofile := profile?_of_mem (keyed_of_validate hw).profiles hmem
    rw [held_of_profile hprofile] at hh
    exact ((((hgrant tr hh).snoc _).snoc _).snoc _).snoc _

theorem justified_setProfile {current : StoredProfile} (hc : document.profile? d = some current)
    (hd : p.descriptorId = d) (ho : document.pending? d = none)
    (hp : ∀ tr, p.target.risk = some tr → document.held d = some tr ∨ Granted operation past d tr) (other : String) :
    Justified operation past document (document.setProfile d p) other := by
  refine justified_of_frame (setProfile_frame document hd) (.settled ?_ fun tr hh => ?_) other
  · exact (proposed_of_none ho : document.proposed d = none)
  · rw [held_of_profile (profile?_setProfile hd (hc ▸ rfl))] at hh
    exact (hp tr hh).imp id .inr

section Update

variable {request : ProfileUpdateRequest} {current : StoredProfile} {replacement : StoredProfile} {old : Option String}

theorem licensed_updateTarget (hknown : known past = some document)
    (hc : document.profile? request.descriptorId = some current)
    (ho : document.pending? request.descriptorId = none)
    (hrisk : ∀ tr, target.risk = some tr →
      document.held request.descriptorId = some tr ∨ Granted (.update request) past request.descriptorId tr) :
    Licensed (.update request) anything (updateTarget document current request target) past := by
  have hd : current.descriptorId = request.descriptorId := (profile?_some hc).2
  have hwrite : ∀ configGeneration past, known past = some document → (∀ tr, target.risk = some tr →
      document.held request.descriptorId = some tr ∨ Granted (.update request) past request.descriptorId tr) →
      Licensed (.update request) anything (do
        replace (document.setProfile request.descriptorId
          { current with name := request.name, target := target, configGeneration := configGeneration })
        pure ({ current with
          name := request.name, target := target, configGeneration := configGeneration } : StoredProfile).descriptor)
        past := fun configGeneration past hk hr =>
    licensed_replace_last hk (fun _ _ => justified_setProfile hc hd ho hr) trivial
  unfold updateTarget
  split
  · exact licensed_throw
  by_cases he : current.target = target
  · rw [if_neg (not_not.2 he), if_neg (not_not.2 he.symm)]
    exact hwrite _ past hknown hrisk
  · rw [if_pos he, if_pos (Ne.symm he)]
    refine licensed_ask nofun fun _ _ _ => ?_
    refine licensed_ofExcept fun configGeneration _ => ?_
    exact hwrite configGeneration _ (by rw [known_snoc]; exact hknown) fun tr ht => (hrisk tr ht).imp id (·.snoc _)

theorem justified_switch {operationId new : String} (h : document.validate = .ok ())
    (ho : document.pending? d = some (.pendingReplace operationId d replacement old new)) (other : String) :
    Justified operation past document (switched document d operationId replacement) other := by
  have hk := keyed_of_validate h
  have hr := reference_of_validate h ho
  refine justified_of_frame (switched_frame hk ho hr)
    (.settled (proposed_of_none (switched_pending hk ho hr)) fun tr hh => .inr (.inl ?_)) other
  rw [held_of_profile (switched_profile hk ho hr)] at hh
  rw [proposed_of_pending ho]
  exact hh

theorem justified_cleanup {operationId new oldGeneration : String} (h : document.validate = .ok ())
    (ho : document.pending? d = some (.pendingReplace operationId d replacement old new)) (other : String) :
    Justified operation past document
      ((switched document d operationId replacement).pushPending (.cleanupOld operationId d oldGeneration new)) other := by
  have hk := keyed_of_validate h
  have hr := reference_of_validate h ho
  have hp : ((switched document d operationId replacement).pushPending
      (.cleanupOld operationId d oldGeneration new)).pending? d = some (.cleanupOld operationId d oldGeneration new) :=
    pending?_pushPending (.cleanupOld operationId d oldGeneration new) (switched_pending hk ho hr)
  have hframe : Frame (switched document d operationId replacement) ((switched document d operationId replacement).pushPending
      (.cleanupOld operationId d oldGeneration new)) d := pushPending_frame _ (.cleanupOld operationId d oldGeneration new)
  refine justified_of_frame ((switched_frame hk ho hr).trans hframe)
    (.settled (proposed_of_pending hp) fun tr hh => .inr (.inl ?_)) other
  have hswitched : (switched document d operationId replacement).held d = some tr := hh
  rw [held_of_profile (switched_profile hk ho hr)] at hswitched
  rw [proposed_of_pending ho]
  exact hswitched

theorem licensed_updateCredential {password : String} (hknown : known past = some document)
    (ho : document.pending? request.descriptorId = none)
    (hrisk : ∀ tr, target.risk = some tr →
      document.held request.descriptorId = some tr ∨ Granted (.update request) past request.descriptorId tr) :
    Licensed (.update request) anything (updateCredential document current request target password) past := by
  unfold updateCredential
  split
  · exact licensed_throw
  refine licensed_ask nofun fun _ _ _ => ?_
  refine licensed_freshId fun new => ?_
  refine licensed_ofExcept fun configGeneration _ => ?_
  refine licensed_freshId fun operationId => ?_
  have hop := pending?_pushPending (.pendingReplace operationId request.descriptorId
      ⟨current.descriptorId, configGeneration, request.name, target, .stored, some new⟩
      current.activeCredentialGeneration new) ho
  refine licensed_replace (by rw [known_snoc, known_snoc, known_snoc]; exact hknown)
    (fun _ hw => justified_pushPending hw fun tr ht => ?_) ?_
  · rcases hrisk tr ht with hh | hg
    · exact .inr hh
    · exact .inl (((hg.snoc _).snoc _).snoc _)
  refine licensed_ask nofun fun _ _ _ => ?_
  split
  · exact licensed_replace_last (by rw [known_snoc, known_snoc]; rfl) (fun h _ => justified_switch h hop) trivial
  · rename_i oldGeneration _
    refine licensed_replace (by rw [known_snoc, known_snoc]; rfl) (fun h _ => justified_cleanup h hop) ?_
    refine licensed_ask nofun fun _ _ _ => ?_
    refine licensed_replace_last (by rw [known_snoc, known_snoc]; rfl) (fun h _ => ?_) trivial
    have hmem : (PendingOperation.cleanupOld operationId request.descriptorId oldGeneration new) ∈
      (((document.pushPending (.pendingReplace operationId request.descriptorId
        ⟨current.descriptorId, configGeneration, request.name, target, .stored, some new⟩
        current.activeCredentialGeneration new)).setProfile request.descriptorId
        ⟨current.descriptorId, configGeneration, request.name, target, .stored, some new⟩).dropOperation
          operationId |>.pushPending (.cleanupOld operationId request.descriptorId oldGeneration new)).pendingOperations := by
      simp [pushPending]
    exact justified_dropOperation h (pending?_of_mem (keyed_of_validate h).descriptors hmem)

theorem licensed_update (request : ProfileUpdateRequest) : Licensed (.update request) anything (update request) [] := by
  refine licensed_load fun document => ?_
  refine licensed_ofExcept fun _ hno => ?_
  refine licensed_ofExcept fun current hc => ?_
  have hc := findProfile_ok hc
  refine licensed_authorize fun target later hsame hrisk => ?_
  have hknown := hsame.trans (known_snoc [] ⟨.load, .ok document⟩)
  have hrisk : ∀ tr, target.risk = some tr → document.held request.descriptorId = some tr ∨
      Granted (.update request) ([] ++ [⟨.load, .ok document⟩] ++ later) request.descriptorId tr := fun tr ht => by
    rcases hrisk tr ht with hconsumed | ⟨e, he, hrisk⟩
    · exact .inr (hconsumed.granted fun _ => rfl)
    · cases he
      exact .inl ((held_of_profile hc).trans hrisk)
  split
  · exact licensed_updateTarget hknown hc (ensureNoPending_ok hno) hrisk
  · exact licensed_updateCredential hknown (ensureNoPending_ok hno) hrisk

end Update

section Remove

variable {operationId : String} {generations : List String}

theorem licensed_deleteAll {β : Type} {ends : List (Asked Command Reply) → β → Prop} {f : Unit → M β} (d : String)
    (hf : ∀ past, known past = some document → Licensed operation ends (f ()) past) :
    ∀ (generations : List String) (past : List (Asked Command Reply)), known past = some document →
      Licensed operation ends (do f (← deleteAll d generations)) past
  | [], past, hk => hf past hk
  | generation :: rest, past, hk => by
    rw [deleteAll, Prog.bind_assoc]
    refine licensed_ask (fun _ hc => by cases hc) fun _ _ _ => ?_
    exact licensed_deleteAll d hf rest _ (by rw [known_snoc]; exact hk)

section
variable (hk : known past = some document)
include hk

theorem licensed_finishForget : Licensed operation anything (finishForget document d) past := by
  unfold finishForget
  split
  · exact licensed_throw
  rename_i generations _
  refine licensed_deleteAll d (fun past hk => ?_) generations past hk
  refine licensed_replace_last hk (fun _ _ => ?_) trivial
  refine justified_of_frame (((dropProfile_frame document d).trans (dropPending_frame _ d)).trans
    ⟨fun _ _ => profile?_consumeLegacyDescriptor _ _ _, fun _ _ => pending?_consumeLegacyDescriptor _ _ _⟩)
    (.settled (proposed_of_none ?_) fun tr hh => ?_)
  · rw [pending?_consumeLegacyDescriptor]
    exact pending?_dropPending _ d
  · have hp : (((document.dropProfile d).dropPending d).consumeLegacyDescriptor d).profile? d = none := by
      rw [profile?_consumeLegacyDescriptor]
      exact profile?_dropProfile document d
    rw [held_of_none hp] at hh
    cases hh

theorem licensed_finishRemoveCredential : Licensed operation anything (finishRemoveCredential document d) past := by
  unfold finishRemoveCredential
  split
  · exact licensed_throw
  rename_i generations _
  refine licensed_deleteAll d (fun past hk => ?_) generations past hk
  refine licensed_ofExcept fun current hc => ?_
  have hc := findProfile_ok hc
  have hd : ({ current with
      activeCredentialGeneration := none, credentialState := .required } : StoredProfile).descriptorId = d :=
    (profile?_some hc).2
  refine licensed_replace_last hk (fun _ _ => ?_) trivial
  refine justified_of_frame ((setProfile_frame document hd).trans (dropPending_frame _ d))
    (.settled (proposed_of_none (pending?_dropPending _ d)) fun tr hh => .inl ?_)
  have hset : (document.setProfile d
    { current with activeCredentialGeneration := none, credentialState := .required }).held d = some tr := hh
  rw [held_of_profile (profile?_setProfile hd (hc ▸ rfl))] at hset
  exact (held_of_profile hc).trans hset

theorem licensed_closeThen {finish : ProfileDocument → M ProfileDocument} (hp : op.proposal = none)
    (hf : ∀ past, known past = some (document.pushPending op) →
      Licensed operation anything (finish (document.pushPending op)) past) :
    Licensed operation anything (closeThen document op finish) past := by
  refine licensed_tell (c := .close op.descriptorId) nofun fun r => ?_
  refine licensed_replace (by rw [known_snoc]; exact hk) (fun _ hw => justified_pushPending hw fun tr ht => ?_) ?_
  · rw [hp] at ht
    cases ht
  · cases r with
    | error e => exact licensed_throw
    | ok evidence => exact (hf _ (by rw [known_snoc]; rfl)).map fun _ _ _ => trivial

end

theorem licensed_forget (d : String) : Licensed (.forget d) anything (forget d) [] := by
  refine licensed_load fun document => ?_
  refine licensed_ofExcept fun _ _ => ?_
  refine licensed_ofExcept fun current _ => ?_
  refine licensed_freshId fun operationId => ?_
  exact licensed_closeThen (by rw [known_snoc, known_snoc]; rfl) rfl fun past hk => licensed_finishForget hk

theorem licensed_removeCredential (d : String) : Licensed (.removeCredential d) anything (removeCredential d) [] := by
  refine licensed_load fun document => ?_
  refine licensed_ofExcept fun _ _ => ?_
  refine licensed_ofExcept fun current _ => ?_
  split
  · exact licensed_throw
  refine licensed_freshId fun operationId => ?_
  exact licensed_closeThen (by rw [known_snoc, known_snoc]; rfl) rfl fun past hk => licensed_finishRemoveCredential hk

end Remove

section Recover

variable {credential : Option String} {operationId : String}

theorem licensed_ensureGeneration {β : Type} {ends : List (Asked Command Reply) → β → Prop} {f : Unit → M β}
    {g : String} (hk : known past = some document)
    (hf : ∀ past, known past = some document → Licensed operation ends (f ()) past) :
    Licensed operation ends (do f (← ensureGeneration d g credential)) past := by
  refine licensed_tell (c := .resolve d g) nofun fun r => ?_
  have hk' : ∀ r, known (past ++ [⟨.resolve d g, r⟩]) = some document := fun r => by
    rw [known_snoc]
    exact hk
  have hstore : ∀ past password, known past = some document →
      Licensed operation ends (do f (← store d g password)) past := fun past password hk =>
    licensed_ask nofun fun _ _ _ => hf _ (by rw [known_snoc]; exact hk)
  cases r with
  | ok secret => exact hf _ (hk' (.ok secret))
  | error kind =>
    change Licensed operation ends ((if kind = .missing ∨ kind = .corrupt ∨ kind = .denied then _ else _) >>= f) _
    split
    · cases credential with
      | none => exact licensed_throw
      | some password =>
        dsimp only
        split
        · rw [Prog.bind_assoc]
          refine licensed_ask nofun fun _ _ _ => ?_
          exact hstore _ password (by rw [known_snoc]; exact hk' _)
        · exact hstore _ password (hk' _)
    · exact licensed_throw

theorem pending?_of_find (h : document.validate = .ok ())
    (hf : document.pendingOperations.find? (fun other => other.operationId = operationId) = some op) :
    document.pending? op.descriptorId = some op :=
  pending?_of_mem (keyed_of_validate h).descriptors (mem_of_find?_eq_some hf)

theorem licensed_recoverOperation {action : RecoveryAction} (hk : known past = some document)
    (hf : document.pendingOperations.find? (fun other => other.operationId = operationId) = some op) :
    Licensed operation anything (recoverOperation document credential op action) past := by
  have hdrop : ∀ past, known past = some document → Licensed operation anything (do
      replace (document.dropOperation op.operationId)
      pure (document.dropOperation op.operationId) : M ProfileDocument) past := fun past hk =>
    licensed_replace_last hk (fun h _ => justified_dropOperation h (pending?_of_find h hf)) trivial
  cases op with
  | pendingCreate operationId p g =>
    cases action with
    | resume =>
      refine licensed_ensureGeneration hk fun past hk => ?_
      refine licensed_replace_last hk (fun h _ => ?_) trivial
      have ho := pending?_of_find h hf
      have hkeyed := keyed_of_validate h
      have hpushed : Keyed ((document.dropProfile p.descriptorId).pushProfile
          { p with activeCredentialGeneration := some g, credentialState := .stored }) :=
        (hkeyed.dropProfile p.descriptorId).pushProfile
          { p with activeCredentialGeneration := some g, credentialState := .stored }
          (profile?_dropProfile document p.descriptorId)
      have hdrop := dropOperation_eq _ hpushed ho
      rw [show (PendingOperation.pendingCreate operationId p g).operationId = operationId from rfl] at hdrop
      rw [hdrop]
      refine justified_of_frame (((dropProfile_frame document p.descriptorId).trans
        (pushProfile_frame _ { p with activeCredentialGeneration := some g, credentialState := .stored })).trans
        (dropPending_frame _ _)) (.settled (proposed_of_none (pending?_dropPending _ _)) fun tr hh => .inr (.inl ?_))
      have hheld : ((document.dropProfile p.descriptorId).pushProfile
          { p with activeCredentialGeneration := some g, credentialState := .stored }).held p.descriptorId = some tr := hh
      rw [held_of_profile (profile?_pushProfile
        { p with activeCredentialGeneration := some g, credentialState := .stored }
        (profile?_dropProfile document p.descriptorId))] at hheld
      exact (proposed_of_pending ho).trans hheld
    | abort =>
      exact licensed_ask (fun _ hc => by cases hc) fun _ _ _ => hdrop _ (by rw [known_snoc]; exact hk)
    | retryCleanup => exact licensed_throw
  | pendingReplace operationId d replacement old g =>
    cases action with
    | resume =>
      refine licensed_ensureGeneration hk fun past hk => ?_
      refine licensed_ofExcept fun _ _ => ?_
      split
      · exact licensed_replace_last hk (fun h _ => justified_switch h (pending?_of_find h hf)) trivial
      · rename_i oldGeneration
        refine licensed_replace hk (fun h _ => justified_cleanup h (pending?_of_find h hf)) ?_
        refine licensed_ask (fun _ hc => by cases hc) fun _ _ _ => ?_
        refine licensed_replace_last (by rw [known_snoc, known_snoc]; rfl) (fun h _ => ?_) trivial
        have hmem : (PendingOperation.cleanupOld operationId d oldGeneration g) ∈
            (((document.setProfile d replacement).dropOperation operationId).pushPending
              (.cleanupOld operationId d oldGeneration g)).pendingOperations := by simp [pushPending]
        exact justified_dropOperation h (pending?_of_mem (keyed_of_validate h).descriptors hmem)
    | abort =>
      exact licensed_ask (fun _ hc => by cases hc) fun _ _ _ => hdrop _ (by rw [known_snoc]; exact hk)
    | retryCleanup => exact licensed_throw
  | cleanupOld operationId d old active =>
    cases action with
    | retryCleanup =>
      exact licensed_ask (fun _ hc => by cases hc) fun _ _ _ => hdrop _ (by rw [known_snoc]; exact hk)
    | _ => exact licensed_throw
  | pendingForget operationId d generations =>
    cases action with
    | retryCleanup =>
      exact licensed_ask (fun _ hc => by cases hc) fun _ _ _ => licensed_finishForget (by rw [known_snoc]; exact hk)
    | _ => exact licensed_throw
  | pendingRemoveCredential operationId d generations =>
    cases action with
    | retryCleanup =>
      exact licensed_ask (fun _ hc => by cases hc) fun _ _ _ =>
        licensed_finishRemoveCredential (by rw [known_snoc]; exact hk)
    | _ => exact licensed_throw

theorem licensed_recover (request : ProfileRecoveryRequest) :
    Licensed (.recover request) anything (recover request) [] := by
  refine licensed_load fun document => ?_
  split
  · exact licensed_throw
  · rename_i op hf
    exact (licensed_recoverOperation (known_snoc [] _) hf).map fun _ _ _ => trivial

end Recover

section Import

theorem import_cases (d : String) : ∀ (profiles : List ProfileDescriptor) (document : ProfileDocument),
    (profiles.foldl importProfile document).profile? d = document.profile? d ∨
      document.profile? d = none ∧
        ∃ p, (profiles.foldl importProfile document).profile? d = some p ∧ p.target.risk = none
  | [], _ => .inl rfl
  | profile :: rest, document => by
    have hstep : (importProfile document profile).profile? d = document.profile? d ∨
        document.profile? d = none ∧ ∃ p, (importProfile document profile).profile? d = some p ∧ p.target.risk = none := by
      unfold importProfile
      split
      · exact .inl rfl
      dsimp only
      split
      · exact .inl (profile?_consumeLegacyDescriptor _ _ _)
      rename_i hnone
      by_cases hd : d = profile.descriptorId
      · subst hd
        have hnone := Option.not_isSome_iff_eq_none.1 hnone
        rw [← profile?_consumeLegacyDescriptor document profile.descriptorId profile.descriptorId]
        exact .inr ⟨hnone, _, profile?_pushProfile _ hnone, risk_strip _⟩
      · refine .inl (((pushProfile_frame _ _).profile d hd).trans (profile?_consumeLegacyDescriptor _ _ _))
    rw [foldl_cons]
    rcases import_cases d rest (importProfile document profile) with hrest | ⟨hnone, p, hp, hrisk⟩
    · rw [hrest]
      exact hstep
    · rcases hstep with hsame | ⟨-, p', hp', -⟩
      · exact .inr ⟨hsame ▸ hnone, p, hp, hrisk⟩
      · rw [hnone] at hp'
        cases hp'

theorem import_pending : ∀ (profiles : List ProfileDescriptor) (document : ProfileDocument),
    (profiles.foldl importProfile document).pendingOperations = document.pendingOperations
  | [], _ => rfl
  | profile :: rest, document => by
    rw [foldl_cons, import_pending rest]
    exact importProfile_pending document profile

theorem justified_import {profiles : List ProfileDescriptor} (h : document.validate = .ok ())
    (hw : (profiles.foldl importProfile document).validate = .ok ()) (d : String) :
    Justified operation past document (profiles.foldl importProfile document) d := by
  have hpending : (profiles.foldl importProfile document).pending? d = document.pending? d := by
    rw [pending?, pending?, import_pending]
  rcases import_cases d profiles document with hsame | ⟨hnone, p, hp, hrisk⟩
  · refine .same ?_ ?_
    · rw [ProfileDocument.held, ProfileDocument.held, hsame]
    · rw [ProfileDocument.proposed, ProfileDocument.proposed, hpending]
  · refine .settled ?_ fun tr hh => ?_
    · cases ho : document.pending? d with
      | none => exact proposed_of_none (hpending.trans ho)
      | some op =>
        have href := reference_of_validate h ho
        rw [hnone] at href
        have hkind := kind_of_no_profile href
        have hafter := reference_of_validate hw (hpending.trans ho)
        rw [hp] at hafter
        cases op with
        | pendingCreate operationId created g => cases (reference_create hafter).1
        | _ => cases hkind
    · rw [held_of_profile hp, hrisk] at hh
      cases hh

theorem licensed_importLegacy (profiles : List ProfileDescriptor) :
    Licensed (.importLegacy profiles) anything (importLegacy profiles) [] := by
  refine licensed_load fun document => ?_
  exact licensed_replace_last (known_snoc [] _) (fun h hw => justified_import h hw) trivial

end Import

/-! ## Opening -/

/-- What an accepted PostgreSQL target without full verification is owed. -/
def Operation.Covers (past : List (Asked Command Reply)) (tr : Transport) : Operation → Prop
  | .testEphemeral _ _ _ => Consumed past tr
  | .openSaved d => ∃ document, known past = some document ∧ document.held d = some tr
  | _ => False

def Answered (operation : Operation) (past : List (Asked Command Reply)) (answer : Answer) : Prop :=
  ∀ target password, answer = .config (.postgres target password) → target.transportMode ≠ .verifyFull →
    operation.Covers past target.transport

theorem openConfig_risk {secret : Option String} {opened : PostgresTarget} {password : String}
    (h : openConfig target secret = .ok (.postgres opened password)) (hm : opened.transportMode ≠ .verifyFull) :
    target.risk = some opened.transport := by
  unfold openConfig at h
  split at h
  · cases h
  rename_i ha
  cases target with
  | sqlite _ _ => cases h
  | mssql target =>
    cases secret <;> cases h
  | postgres target =>
    cases secret with
    | none => cases h
    | some secret =>
      obtain ⟨rfl, rfl⟩ := DbOpenConfig.postgres.inj (Except.ok.inj h)
      refine risk_postgres.2 ⟨⟨hm, ?_⟩, rfl⟩
      rw [authorizePostgresTarget] at ha
      split at ha
      · assumption
      · cases ha

theorem licensed_testEphemeral (target : ProfileTarget) (credential challengeId : Option String) :
    Licensed (.testEphemeral target credential challengeId)
      (fun past config => Answered (.testEphemeral target credential challengeId) past (.config config))
      (testEphemeral target credential challengeId) [] := by
  refine licensed_authorize fun result later _ hrisk => licensed_answer fun config ho => ?_
  rintro opened password heq hm
  obtain rfl := Answer.config.inj heq
  rcases hrisk _ (openConfig_risk ho hm) with hc | ⟨e, he, -⟩
  · exact hc
  · cases he

theorem licensed_openSaved (d : String) :
    Licensed (.openSaved d) (fun past config => Answered (.openSaved d) past (.config config)) (openSaved d) [] := by
  have hopen : ∀ (past : List (Asked Command Reply)) (document : ProfileDocument) (profile : StoredProfile)
      (secret : Option String), known past = some document → document.profile? d = some profile →
      Licensed (.openSaved d) (fun past config => Answered (.openSaved d) past (.config config))
        (Prog.ofExcept (openConfig profile.target secret)) past := fun past document profile secret hk hp =>
    licensed_answer fun config ho opened password heq hm => by
      obtain rfl := Answer.config.inj heq
      exact ⟨document, hk, (held_of_profile hp).trans (openConfig_risk ho hm)⟩
  unfold openSaved resolveSavedCredential
  rw [Prog.bind_assoc]
  refine licensed_load fun document => ?_
  rw [Prog.bind_assoc]
  refine licensed_ofExcept fun _ _ => ?_
  rw [Prog.bind_assoc]
  refine licensed_ofExcept fun profile hp => ?_
  have hp := findProfile_ok hp
  split
  · rw [Prog.bind_assoc]
    refine licensed_ask nofun fun _ _ _ => ?_
    exact hopen _ document profile _ (by rw [known_snoc, known_snoc]; rfl) hp
  · split
    · exact licensed_throw
    · exact hopen _ document profile _ (known_snoc [] _) hp

/-- **Along every operation, what is written is justified and what is opened is covered.** -/
theorem licensed_start (operation : Operation) : Licensed operation (Answered operation) operation.start [] := by
  have hother : ∀ {past} {answer : Answer}, (∀ config, answer ≠ .config config) → Answered operation past answer :=
    fun hne target password heq => absurd heq (hne _)
  cases operation with
  | issueTransportChallenge request =>
    have hissue : Licensed (.issueTransportChallenge request) anything (issueTransportChallenge request) [] :=
      licensed_tell (c := .issueChallenge request) nofun fun _ => licensed_answer fun _ _ => trivial
    exact hissue.map fun _ _ _ => hother fun _ hne => by cases hne
  | importLegacy profiles => exact (licensed_importLegacy profiles).map fun _ _ _ => hother fun _ hne => by cases hne
  | create request => exact (licensed_create request).map fun _ _ _ => hother fun _ hne => by cases hne
  | update request => exact (licensed_update request).map fun _ _ _ => hother fun _ hne => by cases hne
  | forget d => exact (licensed_forget d).map fun _ _ _ => hother fun _ hne => by cases hne
  | removeCredential d => exact (licensed_removeCredential d).map fun _ _ _ => hother fun _ hne => by cases hne
  | recover request => exact (licensed_recover request).map fun _ _ _ => hother fun _ hne => by cases hne
  | testEphemeral target credential challengeId =>
    exact (licensed_testEphemeral target credential challengeId).map fun _ _ h => h
  | openSaved d => exact (licensed_openSaved d).map fun _ _ h => h

end Profiles
end Yuzora
