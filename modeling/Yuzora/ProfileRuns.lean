import Yuzora.Serial
import Yuzora.ProfileSafe
/-!
# ProfileRuns — secrets and records over whole runs

The operations run one at a time, as the lock around `DatabaseProfiles` has it, and the process may stop between any two
commands and restart from the durable document.
-/
namespace Yuzora
namespace Profiles

open ProfileDocument

def desk : Desk Command Reply ProfileError Answer Shared Operation :=
  ⟨world, Operation.start, fun shared => { shared with challenges := .empty }⟩

def empty (now : Nat) : Shared := ⟨now, .default, .empty, .empty, []⟩

abbrev Event : Type := Desk.Event desk

abbrev Runs (l : List Event) (t : Serial Command Reply ProfileError Answer Shared Operation) : Prop :=
  ∃ now, desk.Runs (empty now) l t

def Admitted (shared : Shared) (operation : Operation) : Prop :=
  ∀ profiles, operation = .importLegacy profiles → Welcomes shared.durable profiles

theorem sound_empty (now : Nat) : SoundIn (empty now) := by
  refine ⟨⟨rfl, ?_, ?_, ?_⟩, fun d => slot_empty fun g hg => ?_⟩
  · exact List.nodup_nil
  · exact List.nodup_nil
  · exact List.nodup_nil
  · obtain ⟨secret, hs⟩ := hg
    cases hs

/-- **Soundness is kept** by every admitted operation, by time, and by a restart. -/
theorem keeps : desk.Keeps Admitted good SoundIn := by
  refine ⟨fun _ _ => rfl, ?_, fun _ hs => hs, fun s c r t hg he => hg.1 r t he, fun s operation ha hs => ?_⟩
  · rintro s t hs ⟨nanoseconds, rfl⟩
    exact hs
  · exact (safe_start hs ha).ensures false s rfl rfl rfl

/-! ## Recovery when everything works -/

structure Chance.Works (chance : Chance) : Prop where
  repository : chance.repository = .none
  vault : chance.vault = .none
  close : ∃ evidence, chance.close = .ok evidence

section Works

variable {chance : Chance} {s : Shared} {document : ProfileDocument} {d g operationId : String} {op : PendingOperation}
  {issued : List String}

theorem eval_load (hw : chance.Works) (hv : s.durable.validate = .ok ()) :
    load.eval (perform chance) s = (.ok s.durable, s) := by
  have hp : perform chance s .load = (.ok s.durable, s) := by
    rw [perform, hw.repository]
    rw [hv]
    rfl
  change (Prog.ofExcept (((perform chance s .load).1 : Except _ ProfileDocument).mapError _) : M _).eval (perform chance)
    (perform chance s .load).2 = _
  rw [hp]
  rfl

theorem eval_replace (hw : chance.Works) (hv : document.validate = .ok ()) :
    (replace document).eval (perform chance) s = (.ok (), { s with durable := document }) := by
  have hp : perform chance s (.replace document) = (.ok (), { s with durable := document }) := by
    rw [perform, hv]
    rw [hw.repository]
  change (Prog.ofExcept (((perform chance s (.replace document)).1 : Except _ Unit).mapError _) : M _).eval
    (perform chance) (perform chance s (.replace document)).2 = _
  rw [hp]
  rfl

theorem eval_delete (hw : chance.Works) :
    (delete d g).eval (perform chance) s = (.ok (), { s with vault := s.vault.erase (d, g) }) := by
  have hp : perform chance s (.delete d g) = (.ok (), { s with vault := s.vault.erase (d, g) }) := by
    rw [perform, hw.vault]
    rfl
  change (Prog.ofExcept (((perform chance s (.delete d g)).1 : Except _ Unit).mapError _) : M _).eval
    (perform chance) (perform chance s (.delete d g)).2 = _
  rw [hp]
  rfl

theorem eval_close (hw : chance.Works) :
    ∃ evidence, (cancelAndClose d).eval (perform chance) s = (.ok evidence, s) := by
  obtain ⟨evidence, he⟩ := hw.close
  have hp : perform chance s (.close d) = (.ok evidence, s) := by
    rw [perform, he]
  refine ⟨evidence, ?_⟩
  change (Prog.ofExcept (((perform chance s (.close d)).1 : Except _ LifecycleCloseEvidence).mapError _) : M _).eval
    (perform chance) (perform chance s (.close d)).2 = _
  rw [hp]
  rfl

def eraseAll (d : String) (vault : Vault) (generations : List String) : Vault :=
  generations.foldl (fun vault g => vault.erase (d, g)) vault

theorem eval_deleteAll (hw : chance.Works) : ∀ {generations : List String} {s : Shared},
    (deleteAll d generations).eval (perform chance) s = (.ok (), { s with vault := eraseAll d s.vault generations })
  | [], _ => rfl
  | g :: rest, s => by
    rw [deleteAll, Prog.eval_bind_ok (eval_delete hw), eval_deleteAll hw]
    rfl

theorem sound_eraseAll (ho : document.pending? d = some op) (hk : op.keeps = false) :
    ∀ (generations : List String) {vault : Vault}, Sound document vault issued →
      Sound document (eraseAll d vault generations) issued ∧
        ∀ g, Has (eraseAll d vault generations) d g → Has vault d g ∧ g ∉ generations
  | [], vault, h => ⟨h, fun g hg => ⟨hg, List.not_mem_nil⟩⟩
  | generation :: rest, vault, h => by
    have herased : Sound document (vault.erase (d, generation)) issued := h.deletes ho fun hkeeps => by
      rw [hk] at hkeeps
      cases hkeeps
    obtain ⟨hs, hgone⟩ := sound_eraseAll ho hk rest herased
    refine ⟨hs, fun g hg => ?_⟩
    obtain ⟨hleft, hrest⟩ := hgone g hg
    obtain ⟨hne, hhas⟩ := has_erase.1 hleft
    exact ⟨hhas, by simp [hne, hrest]⟩

theorem eval_recovered (hw : chance.Works) (hv : document.validate = .ok ()) : (do
      replace document
      pure document : M ProfileDocument).eval (perform chance) s = (.ok document, { s with durable := document }) :=
  Prog.eval_bind_ok (eval_replace hw hv)

/-- A recovery that ends well is gone from the document that it wrote and answers. -/
def Completes (chance : Chance) (s : Shared) (operationId : String) (action : RecoveryAction)
    (credential : Option String) : Prop :=
  ∃ t, (recover ⟨operationId, action, credential⟩).eval (perform chance) s = (.ok t.durable.view, t) ∧
    ∀ other ∈ t.durable.pendingOperations, other.operationId ≠ operationId

theorem completes_of {action : RecoveryAction} {credential : Option String} (changed : ProfileDocument) (vault : Vault)
    (hw : chance.Works) (h : SoundIn s) (ho : op ∈ s.durable.pendingOperations)
    (he : (recoverOperation s.durable credential op action).eval (perform chance) s =
      (.ok changed, { s with durable := changed, vault := vault }))
    (hgone : ∀ other ∈ changed.pendingOperations, other.operationId ≠ op.operationId) :
    Completes chance s op.operationId action credential := by
  refine ⟨{ s with durable := changed, vault := vault }, ?_, hgone⟩
  have hfind : s.durable.pendingOperations.find? (fun other => other.operationId = op.operationId) = some op :=
    find?_of_nodup h.keyed.operations ho
  unfold recover
  rw [Prog.eval_bind_ok (eval_load hw h.validate)]
  rw [hfind]
  exact Prog.eval_bind_ok he

theorem gone_dropOperation (document : ProfileDocument) (operationId : String) :
    ∀ other ∈ (document.dropOperation operationId).pendingOperations, other.operationId ≠ operationId :=
  fun other hother => by simpa using (List.mem_filter.1 hother).2

theorem gone_dropPending {vault : Vault} (h : Sound document vault issued) (ho : document.pending? d = some op) :
    ∀ other ∈ (document.dropPending d).pendingOperations, other.operationId ≠ op.operationId := by
  rw [← dropOperation_eq document h.keyed ho]
  exact gone_dropOperation document _

/-- **Every pending operation can be completed**: a create or a replacement by an abort, a cleanup by a retry. -/
theorem exists_completes (h : SoundIn s) (hop : op ∈ s.durable.pendingOperations) :
    ∃ action ∈ allowedActions op, ∀ chance credential, chance.Works →
      Completes chance s op.operationId action credential := by
  have ho := pending?_of_mem h.keyed.descriptors hop
  cases op with
  | pendingCreate operationId p g =>
    refine ⟨.abort, by simp [allowedActions], fun chance credential hw => ?_⟩
    obtain ⟨-, hdone⟩ := create_aborted h ho
    refine completes_of _ (s.vault.erase (p.descriptorId, g)) hw h hop ?_ (gone_dropOperation s.durable operationId)
    exact (Prog.eval_bind_ok (eval_delete hw)).trans (eval_recovered hw hdone.validate)
  | pendingReplace operationId d replacement old g =>
    refine ⟨.abort, by simp [allowedActions], fun chance credential hw => ?_⟩
    obtain ⟨-, hdone⟩ := replace_aborted h ho
    refine completes_of _ (s.vault.erase (d, g)) hw h hop ?_ (gone_dropOperation s.durable operationId)
    exact (Prog.eval_bind_ok (eval_delete hw)).trans (eval_recovered hw hdone.validate)
  | cleanupOld operationId d old active =>
    refine ⟨.retryCleanup, by simp [allowedActions], fun chance credential hw => ?_⟩
    have hdone := cleanup_done (cleanup_delete h ho) ho fun hg => (has_erase.1 hg).1 rfl
    refine completes_of _ (s.vault.erase (d, old)) hw h hop ?_ (gone_dropOperation s.durable operationId)
    exact (Prog.eval_bind_ok (eval_delete hw)).trans (eval_recovered hw hdone.validate)
  | pendingForget operationId d generations =>
    change s.durable.pending? d = some _ at ho
    refine ⟨.retryCleanup, by simp [allowedActions], fun chance credential hw => ?_⟩
    obtain ⟨current, hp, hg⟩ := reference_forget (h.reference ho)
    obtain ⟨herased, hgone⟩ := sound_eraseAll ho rfl generations h
    have hdone := forget_done (d := d) herased fun g hg' => (hgone g hg').2 (h.has_known ho hp hg (hgone g hg').1)
    refine completes_of (((s.durable.dropProfile d).dropPending d).consumeLegacyDescriptor d)
      (eraseAll d s.vault generations) hw h hop ?_ fun other hother => ?_
    · obtain ⟨evidence, hclose⟩ := eval_close (s := s) (d := d) hw
      unfold recoverOperation
      rw [Prog.eval_bind_ok hclose, finishForget, forgetGenerations_eq ho]
      exact (Prog.eval_bind_ok (eval_deleteAll hw)).trans (eval_recovered hw hdone.validate)
    · rw [pendingOperations_consumeLegacyDescriptor] at hother
      exact gone_dropPending h ho other hother
  | pendingRemoveCredential operationId d generations =>
    change s.durable.pending? d = some _ at ho
    refine ⟨.retryCleanup, by simp [allowedActions], fun chance credential hw => ?_⟩
    obtain ⟨current, hp, hnet, hg⟩ := reference_remove (h.reference ho)
    obtain ⟨herased, hgone⟩ := sound_eraseAll ho rfl generations h
    have hdone := remove_done herased hp hnet fun g hg' => (hgone g hg').2 (h.has_known ho hp hg (hgone g hg').1)
    refine completes_of ((s.durable.setProfile d
      { current with activeCredentialGeneration := none, credentialState := .required }).dropPending d)
      (eraseAll d s.vault generations) hw h hop ?_
      fun other hother => gone_dropPending h ho other hother
    obtain ⟨evidence, hclose⟩ := eval_close (s := s) (d := d) hw
    have hfind : findProfile s.durable d = .ok current := by
      rw [findProfile, hp]
    unfold recoverOperation
    rw [Prog.eval_bind_ok hclose, finishRemoveCredential, removeGenerations_eq ho]
    rw [Prog.eval_bind_ok (eval_deleteAll hw), hfind]
    exact (Prog.eval_bind_ok rfl).trans (eval_recovered hw hdone.validate)

end Works

/-! ## Runs -/

/-- What holds of the document and the vault in every state. -/
structure Kept (shared : Shared) : Prop where
  named : ∀ d g, Has shared.vault d g →
    (∃ p ∈ shared.durable.profiles, p.descriptorId = d ∧ p.activeCredentialGeneration = some g) ∨
      ∃ op ∈ shared.durable.pendingOperations, op.descriptorId = d ∧ g ∈ op.generations
  stored : ∀ p ∈ shared.durable.profiles, p.credentialState = .stored →
    (∀ op ∈ shared.durable.pendingOperations, op.descriptorId ≠ p.descriptorId) →
      ∃ g, p.activeCredentialGeneration = some g ∧ Has shared.vault p.descriptorId g
  valid : shared.durable.validate = .ok ()
  completes : ∀ op ∈ shared.durable.pendingOperations, ∃ action ∈ allowedActions op,
    ∀ chance credential, chance.Works → Completes chance shared op.operationId action credential

theorem Kept.of_sound {s : Shared} (h : SoundIn s) : Kept s := by
  refine ⟨fun d g hg => ?_, fun p hp hst hno => ?_, h.validate, fun op hop => exists_completes h hop⟩
  · rcases (h.slots d).secrets g hg with ⟨p, hp, hact⟩ | ⟨op, ho, hmem⟩
    · exact .inl ⟨p, (profile?_some hp).1, (profile?_some hp).2, hact⟩
    · exact .inr ⟨op, (pending?_some ho).1, (pending?_some ho).2, hmem⟩
  · refine (h.slots p.descriptorId).stored p (profile?_of_mem h.keyed.profiles hp) hst fun op ho => ?_
    exact absurd (pending?_some ho).2 (hno op (pending?_some ho).1)

def Writes (x : Event) : Prop :=
  ∀ operation written r, x.label = .own operation ⟨.replace written, r⟩ → written.validate = .ok ()

/-- **Secrets and records are kept together, and no document that is built is corrupt**, where no import names a profile
that is still being created. -/
theorem records_kept {l : List Event} {t : Serial Command Reply ProfileError Answer Shared Operation} (h : Runs l t)
    (hw : ∀ x ∈ l, ∀ operation, x.label = .begin operation → Admitted x.src.shared operation) :
    Kept t.shared ∧ ∀ x ∈ l, Writes x := by
  obtain ⟨now, hr⟩ := h
  obtain ⟨hs, hgood⟩ := hr.invariant keeps (sound_empty now) hw
  refine ⟨.of_sound hs, fun x hx operation written r hlab => ?_⟩
  exact (hgood x hx operation _ hlab).2 written rfl

/-! ## Played runs -/

namespace Sample

def smooth (uuid : String) : Chance := ⟨.none, .none, .ok .noLiveHandle, uuid, 0⟩

def isFresh (shared : Shared) (id : String) : Bool :=
  decide (id ∉ shared.issued) && (shared.durable.profile? id).isNone

theorem fresh_of {shared : Shared} {id : String} (h : isFresh shared id = true) : Fresh shared.durable shared.issued id := by
  obtain ⟨h1, h2⟩ := Bool.and_eq_true_iff.1 h
  exact ⟨of_decide_eq_true h1, Option.isNone_iff_eq_none.1 h2⟩

variable (chance : Chance)

def made : Command → Option String
  | .newId kind => some (newId kind chance.uuid)
  | .issueChallenge _ => some (newId "pg-chal" chance.uuid)
  | _ => none

def attempt (shared : Shared) (c : Command) : Option (Reply c × Shared) :=
  if (made chance c).all (isFresh shared) then some (perform chance shared c) else none

theorem attempt_sound (s : Shared) (c : Command) (r : Reply c) (t : Shared)
    (h : attempt chance s c = some (r, t)) : world.exec s c r t := by
  rw [attempt] at h
  split at h
  · rename_i hm
    refine ⟨chance, Option.some.inj h, fun kind hc => ?_, fun request hc => ?_⟩
    · subst hc
      exact fresh_of hm
    · subst hc
      exact fresh_of hm
  · cases h

def wait (nanoseconds : Nat) (shared : Shared) : Shared := { shared with now := shared.now + nanoseconds }

theorem wait_sound (nanoseconds : Nat) (shared : Shared) : world.other shared (wait nanoseconds shared) :=
  ⟨nanoseconds, rfl⟩

def next := desk.next attempt wait

theorem run_of_play {choices : List (Desk.Choice Operation Chance Nat)} {l : List Event}
    {t : Serial Command Reply ProfileError Answer Shared Operation}
    (h : Trace.play next choices [] ⟨empty 0, none⟩ = some (l, t)) : Runs l t :=
  ⟨0, Trace.of_play (Desk.step_of_next attempt_sound wait_sound) (.start rfl) h⟩

theorem exists_of_check (choices : List (Desk.Choice Operation Chance Nat))
    (check : List Event → Serial Command Reply ProfileError Answer Shared Operation → Bool)
    (h : (Trace.play next choices [] ⟨empty 0, none⟩).any (fun x => check x.1 x.2) = true) :
    ∃ l t, Runs l t ∧ check l t = true := by
  obtain ⟨⟨l, t⟩, hp, hc⟩ := Option.any_eq_true _ _ |>.1 h
  exact ⟨l, t, run_of_play hp, hc⟩

def target : ProfileTarget := .mssql ⟨none, "host", 1433, "master", "sa", false⟩

def creating : List (Desk.Choice Operation Chance Nat) :=
  [.begin (.create ⟨"mine", target, some "secret", none⟩), .run (smooth "a"), .run (smooth "a"), .run (smooth "a"),
    .run (smooth "a"), .run (smooth "a")]

/-- The secret is stored, and the process stops before the profile is settled. -/
def stopped : List (Desk.Choice Operation Chance Nat) := creating ++ [Desk.Choice.run (smooth "a"), .stop]

/-- The vault is unavailable; then an import names the profile that is being created. -/
def clashing : List (Desk.Choice Operation Chance Nat) :=
  creating ++ [Desk.Choice.run { smooth "a" with vault := .before .unavailable }, .finish,
    .begin (.importLegacy [⟨"dbc-a", 1, "mine", target, .required⟩]), .run (smooth "b"), .run (smooth "b")]

def imports (x : Event) : Bool :=
  match x.label with
  | .begin (.importLegacy _) => true
  | _ => false

def corrupts (x : Event) : Bool :=
  match x.label with
  | .own _ ⟨.replace written, _⟩ => !decide (written.validate = .ok ())
  | _ => false

theorem admitted_of {x : Event} (h : imports x = false) (operation : Operation) (hx : x.label = .begin operation) :
    Admitted x.src.shared operation := by
  rintro profiles rfl
  rw [imports, hx] at h
  cases h

theorem not_writes_of {x : Event} (h : corrupts x = true) : ¬ Writes x := by
  intro hw
  rw [corrupts] at h
  split at h
  · rename_i operation written r hx
    rw [hw operation written r hx] at h
    cases h
  · cases h

end Sample

/-- A create that stopped after its secret was stored is a run in which nothing is lost. -/
theorem records_kept_stopped : ∃ l t, Runs l t ∧ t.shared.vault.get ("dbc-a", "credential-a") = some "secret" ∧
    t.shared.durable.profiles = [] ∧ Kept t.shared ∧ ∀ x ∈ l, Writes x := by
  obtain ⟨l, t, hr, hc⟩ := Sample.exists_of_check Sample.stopped
    (fun l t => l.all (fun x => !Sample.imports x) &&
      decide (t.shared.vault.get ("dbc-a", "credential-a") = some "secret") && decide (t.shared.durable.profiles = []))
    rfl
  simp only [Bool.and_eq_true, decide_eq_true_eq, List.all_eq_true, Bool.not_eq_true'] at hc
  obtain ⟨⟨himports, hsecret⟩, hprofiles⟩ := hc
  exact ⟨l, t, hr, hsecret, hprofiles,
    records_kept hr fun x hx operation hlab => Sample.admitted_of (himports x hx) operation hlab⟩

/-- **An import that names a profile that is being created builds a corrupt document**, and fails. -/
theorem import_corrupts : ¬ ∀ l t, Runs l t → Kept t.shared ∧ ∀ x ∈ l, Writes x := by
  intro claim
  obtain ⟨l, t, hr, hc⟩ := Sample.exists_of_check Sample.clashing
    (fun l _ => l.any Sample.corrupts) rfl
  obtain ⟨x, hx, hcorrupt⟩ := List.any_eq_true.1 hc
  exact Sample.not_writes_of hcorrupt ((claim l t hr).2 x hx)

end Profiles
end Yuzora
