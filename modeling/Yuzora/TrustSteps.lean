import Yuzora.WorkspaceTrust
/-!
# TrustSteps — what one command of the trust store does

A command changes the challenges of its own process, the bound roots of its own process, or the records of the
document; and a program reaches a command of weight only with the past that the source gives it.
-/
namespace Yuzora
namespace Trust

open List Table

/-! ## The document's records -/

def records : Option TrustDocument → List TrustRecord
  | none => []
  | some document => document.workspaces

variable {document : TrustDocument}

theorem loadDocument_records {file : Option TrustDocument}
    (h : loadDocument file = .ok document) : document.workspaces = records file ∧ document.version = STORE_VERSION := by
  cases file with
  | none =>
    cases h
    exact ⟨rfl, rfl⟩
  | some saved =>
    rw [loadDocument] at h
    split at h
    · cases h
    · rename_i hv
      cases h
      exact ⟨rfl, not_not.1 hv⟩

def Holds (records : List TrustRecord) (pair : WorkspaceIdentity) : Prop :=
  ∃ record, records.find? (fun record => record.canonicalPath = pair.canonicalPath) = some record ∧
    record.fsIdentity = pair.fsIdentity

variable {pair : WorkspaceIdentity} {identity : WorkspaceIdentity} {ws : List TrustRecord} {record : TrustRecord}

theorem lookupIn_eq_trusted : lookupIn document pair = .trusted ↔ Holds document.workspaces pair := by
  rw [lookupIn, Holds]
  split
  · rename_i record hf
    rw [hf]
    split
    · rename_i he
      exact ⟨fun _ => ⟨record, rfl, he⟩, fun _ => rfl⟩
    · rename_i hne
      refine ⟨fun h => ?_, fun ⟨found, hfound, he⟩ => ?_⟩
      · cases h
      · cases hfound
        exact absurd he hne
  · rename_i hf
    rw [hf]
    refine ⟨fun h => ?_, fun ⟨found, hfound, _⟩ => ?_⟩
    · cases h
    · cases hfound

theorem Holds.mem (h : Holds ws pair) :
    ∃ record ∈ ws, (⟨record.canonicalPath, record.fsIdentity⟩ : WorkspaceIdentity) = pair := by
  obtain ⟨record, hf, he⟩ := h
  refine ⟨record, mem_of_find?_eq_some hf, ?_⟩
  have hp : record.canonicalPath = pair.canonicalPath := by simpa using find?_some hf
  rw [hp, he]

theorem mem_grantRecord {grantedAt : String} : ∀ {ws : List TrustRecord}, record ∈ grantRecord identity grantedAt ws →
      (⟨record.canonicalPath, record.fsIdentity⟩ : WorkspaceIdentity) = identity ∨ record ∈ ws
  | [], h => by
    rw [grantRecord, mem_singleton] at h
    rw [h]
    exact .inl rfl
  | first :: rest, h => by
    rw [grantRecord] at h
    split at h
    · rename_i hp
      rcases mem_cons.1 h with rfl | h
      · rw [hp]
        exact .inl rfl
      · exact .inr (mem_cons_of_mem _ h)
    · rcases mem_cons.1 h with rfl | h
      · exact .inr mem_cons_self
      · exact (mem_grantRecord h).imp id (mem_cons_of_mem _)

theorem holds_grantRecord (identity : WorkspaceIdentity) (grantedAt : String) :
    ∀ ws : List TrustRecord, Holds (grantRecord identity grantedAt ws) identity
  | [] => ⟨_, find?_cons_of_pos (by simp), rfl⟩
  | first :: rest => by
    rw [grantRecord]
    split
    · rename_i hp
      exact ⟨_, find?_cons_of_pos (by simpa using hp), rfl⟩
    · rename_i hp
      obtain ⟨record, hf, he⟩ := holds_grantRecord identity grantedAt rest
      exact ⟨record, by rw [find?_cons_of_neg (by simpa using hp), hf], he⟩

theorem find?_grantRecord {grantedAt path : String} (hp : path ≠ identity.canonicalPath) : ∀ ws : List TrustRecord,
      (grantRecord identity grantedAt ws).find? (fun record => record.canonicalPath = path) =
        ws.find? fun record => record.canonicalPath = path
  | [] => find?_cons_of_neg (by simpa using Ne.symm hp)
  | first :: rest => by
    rw [grantRecord]
    split
    · rename_i hf
      have hne : ¬ first.canonicalPath = path := fun he => hp (he ▸ hf)
      rw [find?_cons_of_neg (by simpa using hne), find?_cons_of_neg (by simpa using hne)]
    · rw [find?_cons, find?_cons, find?_grantRecord hp rest]

theorem dropRecords_eq (canonicalPath : String) : ∀ (ws : List TrustRecord) (stopped : List String),
    (dropRecords canonicalPath ws stopped).1 =
      ws.filter fun record => decide (record.canonicalPath ≠ canonicalPath ∧ record.canonicalPath ∉ stopped)
  | [], _ => rfl
  | record :: rest, stopped => by
    rw [dropRecords]
    split
    · rename_i hk
      rw [filter_cons_of_pos (by simpa using hk), dropRecords_eq canonicalPath rest stopped]
    · rename_i hk
      rw [filter_cons_of_neg (by simpa using hk), dropRecords_eq canonicalPath rest]
      refine filter_congr fun other _ => ?_
      by_cases hr : record.canonicalPath = canonicalPath
      · simp only [hr, mem_append, mem_singleton]
        grind
      · have hs : record.canonicalPath ∈ stopped := by grind
        simp only [mem_append, mem_singleton]
        grind

variable {stopped : List String}

theorem mem_dropRecords {canonicalPath : String} : record ∈ (dropRecords canonicalPath ws stopped).1 ↔
      record ∈ ws ∧ record.canonicalPath ≠ canonicalPath ∧ record.canonicalPath ∉ stopped := by
  rw [dropRecords_eq, mem_filter, decide_eq_true_eq]

theorem find?_dropRecords {canonicalPath path : String} (hp : path ≠ canonicalPath)
    (hs : path ∉ stopped) (ws : List TrustRecord) :
    (dropRecords canonicalPath ws stopped).1.find? (fun record => record.canonicalPath = path) =
      ws.find? fun record => record.canonicalPath = path := by
  rw [dropRecords_eq, find?_filter]
  congr 1
  funext record
  by_cases h : record.canonicalPath = path
  · simp [h, hp, hs]
  · simp [h]

/-- **A change of the document, as a whole**: the file stays, with an error or with nothing to write; or the changed
document is in its place, whatever the answer. -/
theorem mutateDocument_cases {α : Type} (trouble : Trouble) (file : Option TrustDocument)
    (mutate : TrustDocument → α × TrustDocument × Bool) :
    ((mutateDocument trouble file mutate).2 = file ∧
        ((∃ error, (mutateDocument trouble file mutate).1 = .error error) ∨
          ∃ document, loadDocument file = .ok document ∧ (mutate document).2.2 = false ∧
            (mutateDocument trouble file mutate).1 = .ok (mutate document).1)) ∨
      ∃ document, loadDocument file = .ok document ∧
        (mutateDocument trouble file mutate).2 = some (mutate document).2.1 ∧ (mutate document).2.2 = true := by
  unfold mutateDocument
  cases hl : loadDocument file with
  | error error => cases trouble <;> exact .inl ⟨rfl, .inl ⟨_, rfl⟩⟩
  | ok document =>
    by_cases hw : (mutate document).2.2 = true
    · cases trouble with
      | before error => exact .inl ⟨rfl, .inl ⟨_, rfl⟩⟩
      | none | after => exact .inr ⟨document, rfl, by simp [hw], hw⟩
    · have hf : (mutate document).2.2 = false := by simpa using hw
      cases trouble with
      | before error => exact .inl ⟨rfl, .inl ⟨_, rfl⟩⟩
      | none | after => exact .inl ⟨by simp [hw], .inr ⟨document, rfl, hf, by simp [hw]⟩⟩

/-! ## What a command does -/

section Command
variable {chance : Chance} {k : Nat} {shared shared' : Shared} {a : Asked Command Reply} {challenge : Challenge}
  {inner : TrustInner} {now : Nat}

theorem issueChallenge_get {token : String} {visit : Visit Challenge} {kind : ChallengeKind}
    {identity : WorkspaceIdentity} {id : String}
    (h : (issueChallenge now token visit kind identity inner).2.challenges.get id = some challenge) :
    inner.challenges.get id = some challenge ∨
      challenge = ⟨id, kind, identity, now⟩ ∧ (issueChallenge now token visit kind identity inner).1 = id := by
  have hlive : ∀ id challenge, (inner.challenges.retain fun _ challenge => !challenge.expired now).get id =
      some challenge → inner.challenges.get id = some challenge := by
    intro id challenge hg
    rw [get_retain] at hg
    exact (Option.filter_eq_some_iff.1 hg).1
  rw [issueChallenge] at h ⊢
  split at h
  · exact .inl (hlive _ _ h)
  · dsimp only at h ⊢
    rw [get_insert] at h
    split at h
    · rename_i hid
      exact .inr ⟨(Option.some.inj h).symm.trans (hid ▸ rfl), hid.symm⟩
    · exact .inl (hlive _ _ h)

theorem takeChallenge_get {tok id : String} (h : (takeChallenge now tok inner).2.challenges.get id = some challenge) :
    inner.challenges.get id = some challenge ∧ id ≠ tok := by
  rw [takeChallenge] at h
  split at h
  · rename_i hn
    refine ⟨h, fun hid => ?_⟩
    rw [hid, hn] at h
    cases h
  · dsimp only at h
    rw [get_erase] at h
    split at h
    · cases h
    · rename_i hne
      exact ⟨h, hne⟩

/-- **A challenge taken is one that stands**, has its own id and is not expired. -/
theorem takeChallenge_ok {tok : String} (h : (takeChallenge now tok inner).1 = .ok challenge) :
    inner.challenges.get tok = some challenge ∧ challenge.id = tok ∧ challenge.expired now = false := by
  rw [takeChallenge] at h
  split at h
  · cases h
  · rename_i found hf
    split at h
    · cases h
    · rename_i hid
      split at h
      · cases h
      · rename_i he
        cases h
        exact ⟨hf, not_not.1 hid, Bool.not_eq_true _ ▸ he⟩

section
variable (h : perform chance k shared a.command = (a.reply, shared'))
include h

/-- **Where a challenge in memory comes from**: it was there and was not taken, or it is issued by this command. -/
theorem perform_challenges {j : Nat} {id : String}
    {challenge : Challenge} (hg : (shared'.stores j).challenges.get id = some challenge) :
    (shared.stores j).challenges.get id = some challenge ∧ ¬ (j = k ∧ a.command = .takeChallenge id) ∨
      j = k ∧ a = ⟨.issueChallenge challenge.kind challenge.identity, id⟩ ∧ challenge.id = id ∧
        challenge.created = shared.now := by
  obtain ⟨c, r⟩ := a
  have other : ∀ inner : TrustInner, shared' = shared.update k inner → (∀ tok, c ≠ .takeChallenge tok) →
      (∀ challenge, inner.challenges.get id = some challenge → (shared.stores k).challenges.get id = some challenge) →
      (shared.stores j).challenges.get id = some challenge ∧ ¬ (j = k ∧ c = .takeChallenge id) := by
    rintro inner rfl hc hi
    refine ⟨?_, fun ht => hc id ht.2⟩
    by_cases hj : j = k
    · subst hj
      exact hi _ (by simpa [Shared.update] using hg)
    · simpa [Shared.update, Function.update_of_ne hj] using hg
  have same : shared'.stores = shared.stores → (∀ tok, c ≠ .takeChallenge tok) →
      (shared.stores j).challenges.get id = some challenge ∧ ¬ (j = k ∧ c = .takeChallenge id) :=
    fun hs hc => ⟨hs ▸ hg, fun ht => hc id ht.2⟩
  cases c with
  | issueChallenge kind identity =>
    cases h
    by_cases hj : j = k
    · subst hj
      have hg' := issueChallenge_get (by simpa [Shared.update] using hg)
      rcases hg' with hg' | ⟨rfl, hid⟩
      · exact .inl ⟨hg', fun ht => by cases ht.2⟩
      · refine .inr ⟨rfl, ?_, rfl, rfl⟩
        rw [← hid]
    · refine .inl ⟨?_, fun ht => by cases ht.2⟩
      simpa [Shared.update, Function.update_of_ne hj] using hg
  | takeChallenge tok =>
    cases h
    refine .inl ?_
    by_cases hj : j = k
    · subst hj
      obtain ⟨hg', hne⟩ := takeChallenge_get (by simpa [Shared.update] using hg)
      refine ⟨hg', fun ht => hne ?_⟩
      cases ht.2
      rfl
    · exact ⟨by simpa [Shared.update, Function.update_of_ne hj] using hg, fun ht => hj ht.1⟩
  | observeIdentity | projectRepoPresence | challengeExpiry | sessionGitRoot | persistGrant | revokeRecords =>
    exact .inl (same (by rw [← (Prod.mk.inj h).2]) fun _ hc => by cases hc)
  | loadDocument =>
    refine .inl (same ?_ fun _ hc => by cases hc)
    rw [perform] at h
    split at h <;> rw [← (Prod.mk.inj h).2]
  | insertSessionGitRoot | unbindSessionFor =>
    exact .inl (other _ (Prod.mk.inj h).2.symm (fun _ hc => by cases hc) fun _ hi => hi)
  | clearChallengesFor workspace =>
    refine .inl (other _ (Prod.mk.inj h).2.symm (fun _ hc => by cases hc) fun _ hi => ?_)
    rw [clearChallengesFor, get_retain] at hi
    exact (Option.filter_eq_some_iff.1 hi).1

/-- **Where a bound root in memory comes from.** -/
theorem perform_roots {j : Nat} {root : String}
    {workspace : WorkspaceIdentity} (hg : (shared'.stores j).sessionGitRoots.get root = some workspace) :
    (shared.stores j).sessionGitRoots.get root = some workspace ∨
      j = k ∧ a = ⟨.insertSessionGitRoot root workspace, ()⟩ := by
  obtain ⟨c, r⟩ := a
  have other : ∀ inner : TrustInner, shared' = shared.update k inner →
      (inner.sessionGitRoots.get root = some workspace →
        (shared.stores k).sessionGitRoots.get root = some workspace) →
      (shared.stores j).sessionGitRoots.get root = some workspace := by
    rintro inner rfl hi
    by_cases hj : j = k
    · subst hj
      exact hi (by simpa [Shared.update] using hg)
    · simpa [Shared.update, Function.update_of_ne hj] using hg
  have same : shared'.stores = shared.stores → (shared.stores j).sessionGitRoots.get root = some workspace :=
    fun hs => hs ▸ hg
  cases c with
  | insertSessionGitRoot root' workspace' =>
    obtain ⟨hr, rfl⟩ := Prod.mk.inj h
    by_cases hj : j = k
    · subst hj
      have hg' : ((shared.stores j).sessionGitRoots.insert root' workspace').get root = some workspace := by
        simpa [Shared.update] using hg
      rw [get_insert] at hg'
      split at hg'
      · rename_i hroot
        cases hg'
        subst hroot
        exact .inr ⟨rfl, rfl⟩
      · exact .inl hg'
    · exact .inl (by simpa [Shared.update, Function.update_of_ne hj] using hg)
  | unbindSessionFor bound =>
    refine .inl (other _ (Prod.mk.inj h).2.symm fun hi => ?_)
    rw [unbindSessionFor, get_retain] at hi
    exact (Option.filter_eq_some_iff.1 hi).1
  | clearChallengesFor _ => exact .inl (other _ (Prod.mk.inj h).2.symm id)
  | issueChallenge kind identity =>
    refine .inl (other _ (Prod.mk.inj h).2.symm fun hi => ?_)
    rw [issueChallenge] at hi
    split at hi <;> exact hi
  | takeChallenge tok =>
    refine .inl (other _ (Prod.mk.inj h).2.symm fun hi => ?_)
    rw [takeChallenge] at hi
    split at hi <;> exact hi
  | loadDocument =>
    refine .inl (same ?_)
    rw [perform] at h
    split at h <;> rw [← (Prod.mk.inj h).2]
  | observeIdentity | projectRepoPresence | challengeExpiry | sessionGitRoot | persistGrant | revokeRecords =>
    exact .inl (same (by rw [← (Prod.mk.inj h).2]))

/-- **What a command does to the records**: nothing, a grant of one pair, or a revoke. -/
theorem perform_file : shared'.file = shared.file ∨ (∃ pair result grantedAt, a = ⟨.persistGrant pair, result⟩ ∧
        records shared'.file = grantRecord pair grantedAt (records shared.file)) ∨
      ∃ path stopped result, a = ⟨.revokeRecords path stopped, result⟩ ∧
        records shared'.file = (dropRecords path (records shared.file) stopped).1 := by
  obtain ⟨c, r⟩ := a
  cases c with
  | persistGrant pair =>
    obtain ⟨-, rfl⟩ := Prod.mk.inj h
    rw [persistGrant]
    rcases mutateDocument_cases chance.trouble shared.file _ with hm | ⟨document, hl, hm, -⟩
    · exact .inl hm.1
    · refine .inr (.inl ⟨pair, r, chance.grantedAt, rfl, ?_⟩)
      rw [hm, ← (loadDocument_records hl).1]
      rfl
  | revokeRecords path stopped =>
    obtain ⟨-, rfl⟩ := Prod.mk.inj h
    rw [revokeRecords]
    rcases mutateDocument_cases chance.trouble shared.file _ with hm | ⟨document, hl, hm, -⟩
    · exact .inl hm.1
    · refine .inr (.inr ⟨path, stopped, r, rfl, ?_⟩)
      rw [hm, ← (loadDocument_records hl).1]
      rfl
  | loadDocument =>
    refine .inl ?_
    rw [perform] at h
    split at h <;> rw [← (Prod.mk.inj h).2]
  | observeIdentity | projectRepoPresence | challengeExpiry | sessionGitRoot =>
    exact .inl (by rw [← (Prod.mk.inj h).2])
  | issueChallenge | takeChallenge | insertSessionGitRoot | unbindSessionFor | clearChallengesFor =>
    exact .inl (by rw [← (Prod.mk.inj h).2]; rfl)

end

/-- **A grant that succeeds is in the document.** -/
theorem perform_persistGrant
    (h : perform chance k shared (.persistGrant pair) = (.ok (), shared')) : Holds (records shared'.file) pair := by
  obtain ⟨hr, rfl⟩ := Prod.mk.inj h
  rw [persistGrant] at hr
  rw [persistGrant]
  rcases mutateDocument_cases chance.trouble shared.file _ with hm | ⟨document, hl, hm, -⟩
  · obtain ⟨error, he⟩ | ⟨document, -, hn, -⟩ := hm.2
    · rw [he] at hr
      cases hr
    · cases hn
  · rw [hm]
    exact holds_grantRecord _ _ _

/-- **A revoke that succeeds leaves no record of its paths.** -/
theorem perform_revokeRecords {path : String} {result : List String}
    (h : perform chance k shared (.revokeRecords path stopped) = (.ok result, shared')) :
    ∀ record ∈ records shared'.file, record.canonicalPath ≠ path ∧ record.canonicalPath ∉ stopped := by
  obtain ⟨hr, rfl⟩ := Prod.mk.inj h
  rw [revokeRecords] at hr
  rw [revokeRecords]
  intro record hmem
  rcases mutateDocument_cases chance.trouble shared.file _ with hm | ⟨document, hl, hm, -⟩
  · obtain ⟨error, he⟩ | ⟨document, hl, hn, -⟩ := hm.2
    · rw [he] at hr
      cases hr
    · rw [hm.1] at hmem
      -- nothing was dropped, so every record was kept
      have hlen : (dropRecords path document.workspaces stopped).1.length = document.workspaces.length := by
        simpa using hn
      have hsub : (dropRecords path document.workspaces stopped).1.Sublist document.workspaces := by
        rw [dropRecords_eq]
        exact filter_sublist
      rw [← (loadDocument_records hl).1, ← hsub.eq_of_length hlen] at hmem
      exact (mem_dropRecords.1 hmem).2
  · rw [hm] at hmem
    exact (mem_dropRecords.1 hmem).2

theorem perform_loadDocument (h : perform chance k shared .loadDocument = (.ok document, shared')) :
    document.workspaces = records shared.file ∧ shared' = shared := by
  rw [perform] at h
  split at h
  · obtain ⟨hl, rfl⟩ := Prod.mk.inj h
    exact ⟨(loadDocument_records hl).1, rfl⟩
  · cases (Prod.mk.inj h).1
  · cases (Prod.mk.inj h).1

end Command

end Trust
end Yuzora
