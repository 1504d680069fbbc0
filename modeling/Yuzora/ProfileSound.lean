import Yuzora.ProfileSlots
/-!
# ProfileSound — secrets and records stay together

`SlotOk` says of one descriptor that its records are consistent, that they name every secret in the vault, and that an
idle stored profile has its secret.  `Safe` follows a program from a document, a vault and the ids made so far: whatever
command it issues, and whatever becomes of it, leaves a sound state.
-/
namespace Yuzora
namespace Profiles

open ProfileDocument

/-! ## One descriptor -/

namespace PendingOperation

def generations : PendingOperation → List String
  | pendingCreate _ _ generation => [generation]
  | pendingReplace _ _ _ oldGeneration newGeneration => newGeneration :: oldGeneration.toList
  | cleanupOld _ _ oldGeneration activeGeneration => [oldGeneration, activeGeneration]
  | pendingForget _ _ generations => generations
  | pendingRemoveCredential _ _ generations => generations

def keeps : PendingOperation → Bool
  | pendingReplace _ _ _ _ _ | cleanupOld _ _ _ _ => true
  | _ => false

end PendingOperation

structure SlotOk (d : String) (profile : Option StoredProfile) (pending : Option PendingOperation)
    (has : String → Prop) (issued : List String) : Prop where
  owner : ∀ p, profile = some p → p.descriptorId = d ∧ profileCredentialIsConsistent p = true ∧
    ∀ g, p.activeCredentialGeneration = some g → g ∈ issued
  operation : ∀ op, pending = some op → referenceOk profile op = true ∧ op.operationId ∈ issued ∧
    (∀ g ∈ op.generations, g ∈ issued) ∧ (profile = none → d ∈ issued)
  secrets : ∀ g, has g → (∃ p, profile = some p ∧ p.activeCredentialGeneration = some g) ∨
    ∃ op, pending = some op ∧ g ∈ op.generations
  stored : ∀ p, profile = some p → p.credentialState = .stored → (∀ op, pending = some op → op.keeps = true) →
    ∃ g, p.activeCredentialGeneration = some g ∧ has g

section Slot

variable {d : String} {profile : Option StoredProfile} {pending : Option PendingOperation} {has has' : String → Prop}
  {issued : List String} {p : StoredProfile} {op : PendingOperation}

theorem SlotOk.issue (h : SlotOk d profile pending has issued) (id : String) :
    SlotOk d profile pending has (id :: issued) := by
  refine ⟨fun p hp => ?_, fun op ho => ?_, h.secrets, h.stored⟩
  · obtain ⟨h1, h2, h3⟩ := h.owner p hp
    exact ⟨h1, h2, fun g hg => List.mem_cons_of_mem _ (h3 g hg)⟩
  · obtain ⟨h1, h2, h3, h4⟩ := h.operation op ho
    exact ⟨h1, List.mem_cons_of_mem _ h2, fun g hg => List.mem_cons_of_mem _ (h3 g hg),
      fun hp => List.mem_cons_of_mem _ (h4 hp)⟩

theorem SlotOk.active_of_has (h : SlotOk d profile none has issued) {g : String} (hg : has g) :
    ∃ p, profile = some p ∧ p.activeCredentialGeneration = some g := by
  rcases h.secrets g hg with hp | ⟨op, ho, -⟩
  · exact hp
  · cases ho

theorem slot_idle (hd : p.descriptorId = d) (hc : profileCredentialIsConsistent p = true)
    (hi : ∀ g, p.activeCredentialGeneration = some g → g ∈ issued)
    (hs : ∀ g, has g → p.activeCredentialGeneration = some g)
    (hst : p.credentialState = .stored → ∃ g, p.activeCredentialGeneration = some g ∧ has g) :
    SlotOk d (some p) none has issued := by
  refine ⟨fun q hq => ?_, fun op ho => ?_, fun g hg => .inl ⟨p, rfl, hs g hg⟩, fun q hq h _ => ?_⟩
  · cases hq
    exact ⟨hd, hc, hi⟩
  · cases ho
  · cases hq
    exact hst h

theorem slot_empty (hs : ∀ g, ¬ has g) : SlotOk d none none has issued := by
  refine ⟨fun p hp => ?_, fun op ho => ?_, fun g hg => absurd hg (hs g), fun p hp => ?_⟩
  · cases hp
  · cases ho
  · cases hp

theorem SlotOk.push (h : SlotOk d profile none has issued) (hr : referenceOk profile op = true)
    (hid : op.operationId ∈ issued) (hg : ∀ g ∈ op.generations, g ∈ issued) (hd : profile = none → d ∈ issued) :
    SlotOk d profile (some op) has issued := by
  refine ⟨h.owner, fun q hq => ?_, fun g hhas => .inl (h.active_of_has hhas), fun p hp hs _ => ?_⟩
  · cases hq
    exact ⟨hr, hid, hg, hd⟩
  · exact h.stored p hp hs fun _ ho => nomatch ho

/-- While an operation is pending, the vault may lose what the profile does not need and gain what the record names. -/
theorem SlotOk.vault (h : SlotOk d profile (some op) has issued) (hs : ∀ g, has' g → has g ∨ g ∈ op.generations)
    (hk : op.keeps = true → ∀ p g, profile = some p → p.activeCredentialGeneration = some g → has g → has' g) :
    SlotOk d profile (some op) has' issued := by
  refine ⟨h.owner, h.operation, fun g hg => ?_, fun p hp hst hkeeps => ?_⟩
  · rcases hs g hg with hg | hg
    · exact h.secrets g hg
    · exact .inr ⟨op, rfl, hg⟩
  · obtain ⟨g, hact, hhas⟩ := h.stored p hp hst hkeeps
    exact ⟨g, hact, hk (hkeeps op rfl) p g hp hact hhas⟩

theorem SlotOk.has_pending (h : SlotOk d profile (some op) has issued) {g : String} (hg : has g) :
    (∃ p, profile = some p ∧ p.activeCredentialGeneration = some g) ∨ g ∈ op.generations := by
  rcases h.secrets g hg with hp | ⟨q, hq, hg⟩
  · exact .inl hp
  · cases hq
    exact .inr hg

end Slot

/-! ## The whole state -/

abbrev Vault : Type := Table (String × String) String

def Has (vault : Vault) (d g : String) : Prop := ∃ secret, vault.get (d, g) = some secret

theorem has_insert {vault : Vault} {d g secret g' : String} :
    Has (vault.insert (d, g) secret) d g' ↔ g' = g ∨ Has vault d g' := by
  rw [Has, Table.get_insert]
  by_cases h : g' = g
  · simp [h]
  · simp [h, Has]

theorem has_erase {vault : Vault} {d g g' : String} : Has (vault.erase (d, g)) d g' ↔ g' ≠ g ∧ Has vault d g' := by
  rw [Has, Table.get_erase]
  by_cases h : g' = g
  · simp [h]
  · simp [h, Has]

/-- **The invariant**: keys are distinct, and every slot is in order. -/
structure Sound (document : ProfileDocument) (vault : Vault) (issued : List String) : Prop where
  keyed : Keyed document
  slots : ∀ d, SlotOk d (document.profile? d) (document.pending? d) (Has vault d) issued

variable {document changed : ProfileDocument} {vault vault' : Vault} {issued : List String} {d : String}

section
variable (h : Sound document vault issued)
include h

theorem Sound.valid : document.Valid := by
  refine ⟨h.keyed.profiles, fun p hp => ?_, h.keyed.operations, h.keyed.descriptors, fun op ho => ?_⟩
  · exact ((h.slots p.descriptorId).owner p (profile?_of_mem h.keyed.profiles hp)).2.1
  · exact ((h.slots op.descriptorId).operation op (pending?_of_mem h.keyed.descriptors ho)).1

/-- **A sound document validates.** -/
theorem Sound.validate : document.validate = .ok () := by
  rw [ProfileDocument.validate, if_neg (not_not.2 h.keyed.version), if_pos h.valid]

theorem Sound.issue (id : String) : Sound document vault (id :: issued) :=
  ⟨h.keyed, fun d => (h.slots d).issue id⟩

theorem Sound.change (hk : Keyed changed) (hf : Frame document changed d)
    (hs : SlotOk d (changed.profile? d) (changed.pending? d) (Has vault d) issued) : Sound changed vault issued := by
  refine ⟨hk, fun other => ?_⟩
  by_cases ho : other = d
  · exact ho ▸ hs
  · rw [hf.profile other ho, hf.pending other ho]
    exact h.slots other

theorem Sound.revault
    (hv : ∀ other g, other ≠ d → vault'.get (other, g) = vault.get (other, g))
    (hs : SlotOk d (document.profile? d) (document.pending? d) (Has vault' d) issued) : Sound document vault' issued := by
  refine ⟨h.keyed, fun other => ?_⟩
  by_cases ho : other = d
  · exact ho ▸ hs
  · have hhas : Has vault' other = Has vault other := by
      funext g
      rw [Has, Has, hv other g ho]
    rw [hhas]
    exact h.slots other

end

theorem get_insert_of_ne {vault : Vault} {d other g g' secret : String} (h : other ≠ d) :
    (vault.insert (d, g) secret).get (other, g') = vault.get (other, g') := by
  rw [Table.get_insert, if_neg (fun he => h (Prod.mk.inj he).1)]

theorem get_erase_of_ne {vault : Vault} {d other g g' : String} (h : other ≠ d) :
    (vault.erase (d, g)).get (other, g') = vault.get (other, g') := by
  rw [Table.get_erase, if_neg (fun he => h (Prod.mk.inj he).1)]

/-- **A fresh id** was never made, and no profile has it. -/
structure Fresh (document : ProfileDocument) (issued : List String) (id : String) : Prop where
  issued : id ∉ issued
  profile : document.profile? id = none

theorem Fresh.operation (h : Fresh document issued d) (hs : Sound document vault issued) :
    ∀ op ∈ document.pendingOperations, op.operationId ≠ d := fun op ho he =>
  h.issued (he ▸ ((hs.slots op.descriptorId).operation op (pending?_of_mem hs.keyed.descriptors ho)).2.1)

theorem Fresh.pending (h : Fresh document issued d) (hs : Sound document vault issued) : document.pending? d = none := by
  cases hp : document.pending? d with
  | none => rfl
  | some op => exact absurd (((hs.slots d).operation op hp).2.2.2 h.profile) h.issued

theorem Fresh.active {id : String} (h : Fresh document issued id) (hs : Sound document vault issued) {p : StoredProfile}
    (hp : document.profile? d = some p) : p.activeCredentialGeneration ≠ some id := fun hg =>
  h.issued (((hs.slots d).owner p hp).2.2 id hg)

/-! ## The world of the operations -/

/-- Fresh ids are distinct from all that are in use; time passes between the commands. -/
def world : World Command Reply Shared where
  exec shared c r after := ∃ chance, perform chance shared c = (r, after) ∧
    (∀ kind, c = .newId kind → Fresh shared.durable shared.issued (newId kind chance.uuid)) ∧
    ∀ request, c = .issueChallenge request → Fresh shared.durable shared.issued (newId "pg-chal" chance.uuid)
  other shared after := ∃ nanoseconds, after = { shared with now := shared.now + nanoseconds }
  calm _ _ := false

def SoundIn (shared : Shared) : Prop := Sound shared.durable shared.vault shared.issued

/-- **A command that is safe**: whatever becomes of it leaves a sound state, and a document to be written validates. -/
def good (shared : Shared) (c : Command) : Prop :=
  (∀ r after, world.exec shared c r after → SoundIn after) ∧ ∀ written, c = .replace written → written.validate = .ok ()

/-- Every command of the program is safe from here on, and it ends soundly. -/
structure Safe {α : Type} (p : M α) (document : ProfileDocument) (vault : Vault) (issued : List String) : Prop where
  ensures : ∀ calm shared, shared.durable = document → shared.vault = vault → shared.issued = issued →
    world.Ensures (fun _ _ => True) good p (fun _ _ after => SoundIn after) calm shared

theorem drift_same {calm : Bool} {s t : Shared} (h : world.Drift calm s t) :
    t.durable = s.durable ∧ t.vault = s.vault ∧ t.issued = s.issued := by
  have hstable : world.Stable fun t => t.durable = s.durable ∧ t.vault = s.vault ∧ t.issued = s.issued := by
    rintro t u ht ⟨nanoseconds, rfl⟩
    exact ht
  exact hstable.drift (P := fun t => t.durable = s.durable ∧ t.vault = s.vault ∧ t.issued = s.issued) ⟨rfl, rfl, rfl⟩ h

section Rules

variable {α β : Type}

section
variable (h : Sound document vault issued)
include h

theorem safe_pure {a : α} : Safe (pure a) document vault issued := by
  refine ⟨fun _ s hd hv hi => ?_⟩
  change SoundIn s
  rw [SoundIn, hd, hv, hi]
  exact h

theorem safe_throw {e : ProfileError} :
    Safe (Prog.throw e : M α) document vault issued := by
  refine ⟨fun _ s hd hv hi => ?_⟩
  change SoundIn s
  rw [SoundIn, hd, hv, hi]
  exact h

theorem safe_answer {r : Except ProfileError α} :
    Safe (Prog.ofExcept r : M α) document vault issued := by
  cases r with
  | ok a => exact safe_pure h
  | error e => exact safe_throw h

end

theorem Safe.map {p : M α} (h : Safe p document vault issued) (f : α → β) :
    Safe (do pure (f (← p))) document vault issued := by
  refine ⟨fun calm s hd hv hi => World.Ensures.bind ((h.ensures calm s hd hv hi).mono fun r _ t ht => ?_)⟩
  cases r with
  | ok | error => exact ht

theorem safe_ofExcept {r : Except ProfileError α} {f : α → M β} (h : Sound document vault issued)
    (hf : ∀ a, r = .ok a → Safe (f a) document vault issued) :
    Safe (do f (← (Prog.ofExcept r : M α))) document vault issued := by
  cases r with
  | ok a => exact hf a rfl
  | error e => exact safe_throw h

variable {c : Command}

/-- **One command.**  From the same document, vault and ids it leaves a sound state, from which what follows is safe. -/
theorem safe_command {f : Reply c → M α}
    (hw : ∀ written, c = .replace written → written.validate = .ok ())
    (h : ∀ s r t, s.durable = document → s.vault = vault → s.issued = issued → world.exec s c r t →
      SoundIn t ∧ Safe (f r) t.durable t.vault t.issued) : Safe (Prog.call c f) document vault issued := by
  refine ⟨fun calm s hd hv hi t hdrift _ => ?_⟩
  obtain ⟨h1, h2, h3⟩ := drift_same hdrift
  have ht := h t
  rw [h1, h2, h3] at ht
  exact ⟨⟨fun r u he => (ht r u hd hv hi he).1, hw⟩, fun r u he => (ht r u hd hv hi he).2.ensures _ u rfl rfl rfl⟩

theorem safe_ask {ε : Type} {answer : Reply c → Except ε α} {mapped : ε → ProfileError} {f : α → M β}
    (hw : ∀ written, c = .replace written → written.validate = .ok ())
    (h : ∀ s r t, s.durable = document → s.vault = vault → s.issued = issued → world.exec s c r t →
      SoundIn t ∧ ∀ a, answer r = .ok a → Safe (f a) t.durable t.vault t.issued) :
    Safe (do f (← ask c answer mapped)) document vault issued := by
  refine safe_command hw fun s r t hd hv hi he => ?_
  obtain ⟨hs, hf⟩ := h s r t hd hv hi he
  refine ⟨hs, ?_⟩
  change Safe ((Prog.ofExcept ((answer r).mapError mapped) : M α) >>= f) t.durable t.vault t.issued
  cases hr : answer r with
  | error e => exact safe_throw hs
  | ok a => exact hf a hr

theorem safe_load {f : ProfileDocument → M β} (h : Sound document vault issued)
    (hf : Safe (f document) document vault issued) : Safe (do f (← load)) document vault issued := by
  refine safe_ask nofun ?_
  rintro s r t rfl rfl rfl ⟨chance, he, -⟩
  rw [perform, h.validate] at he
  split at he
  · cases he
    refine ⟨h, fun a ha => ?_⟩
    cases ha
    exact hf
  all_goals
    cases he
    exact ⟨h, nofun⟩

variable {f : Unit → M β}

section
variable (h : Sound document vault issued) {target : ProfileTarget}
include h

theorem safe_replace (hc : Sound changed vault issued)
    (hf : Safe (f ()) changed vault issued) : Safe (do f (← replace changed)) document vault issued := by
  refine safe_ask (fun _ hw => ?_) ?_
  · obtain rfl := Command.replace.inj hw
    exact hc.validate
  rintro s r t rfl rfl rfl ⟨chance, he, -⟩
  rw [perform, hc.validate] at he
  dsimp only at he
  split at he
  · cases he
    exact ⟨hc, fun _ _ => hf⟩
  · cases he
    exact ⟨h, nofun⟩
  · cases he
    exact ⟨hc, nofun⟩

theorem safe_replace_last {a : β} (hc : Sound changed vault issued) :
    Safe (do
      replace changed
      pure a : M β) document vault issued := safe_replace (f := fun _ => pure a) h hc (safe_pure hc)

theorem safe_vaultWrite {written : Vault}
    {answer : Reply c → Except VaultErrorKind Unit} {mapped : VaultErrorKind → ProfileError}
 (hc : Sound document written issued)
    (hw : ∀ document, c ≠ .replace document)
    (hx : ∀ chance s r t, s.vault = vault → perform chance s c = (r, t) →
      (answer r, t) = vaultWrite chance.vault s written)
    (hf : Safe (f ()) document written issued) : Safe (do f (← ask c answer mapped)) document vault issued := by
  refine safe_ask (fun document hc => absurd hc (hw document)) ?_
  rintro s r t rfl rfl rfl ⟨chance, he, -⟩
  have hwrite := hx chance s r t rfl he
  unfold vaultWrite at hwrite
  split at hwrite
  · obtain ⟨-, rfl⟩ := Prod.mk.inj hwrite
    exact ⟨hc, fun _ _ => hf⟩
  · obtain ⟨hr, rfl⟩ := Prod.mk.inj hwrite
    exact ⟨h, fun a ha => by rw [hr] at ha; cases ha⟩
  · obtain ⟨hr, rfl⟩ := Prod.mk.inj hwrite
    exact ⟨hc, fun a ha => by rw [hr] at ha; cases ha⟩

theorem safe_store {d g secret : String}
    (hc : Sound document (vault.insert (d, g) secret) issued)
    (hf : Safe (f ()) document (vault.insert (d, g) secret) issued) :
    Safe (do f (← store d g secret)) document vault issued := by
  refine safe_vaultWrite h hc nofun ?_ hf
  rintro chance s r t rfl he
  exact he.symm

theorem safe_delete {d g : String}
    (hc : Sound document (vault.erase (d, g)) issued) (hf : Safe (f ()) document (vault.erase (d, g)) issued) :
    Safe (do f (← delete d g)) document vault issued := by
  refine safe_vaultWrite h hc nofun ?_ hf
  rintro chance s r t rfl he
  exact he.symm

theorem safe_freshId {kind : String} {f : String → M β}
    (hf : ∀ id, Fresh document issued id → Safe (f id) document vault (id :: issued)) :
    Safe (do f (← freshId kind)) document vault issued := by
  refine safe_command nofun ?_
  rintro s r t rfl rfl rfl ⟨chance, he, hfresh, -⟩
  cases he
  exact ⟨h.issue _, hf _ (hfresh kind rfl)⟩

theorem safe_quiet {ε : Type} {answer : Reply c → Except ε α} {mapped : ε → ProfileError} {f : α → M β}
 (hw : ∀ document, c ≠ .replace document)
    (hx : ∀ chance s r t, perform chance s c = (r, t) → t.durable = s.durable ∧ t.vault = s.vault ∧ t.issued = s.issued)
    (hf : ∀ a, Safe (f a) document vault issued) : Safe (do f (← ask c answer mapped)) document vault issued := by
  refine safe_ask (fun document hc => absurd hc (hw document)) ?_
  rintro s r t rfl rfl rfl ⟨chance, he, -⟩
  obtain ⟨h1, h2, h3⟩ := hx chance s r t he
  rw [SoundIn, h1, h2, h3]
  exact ⟨h, fun a _ => hf a⟩

theorem safe_close {d : String} {f : LifecycleCloseEvidence → M β}
    (hf : ∀ evidence, Safe (f evidence) document vault issued) :
    Safe (do f (← cancelAndClose d)) document vault issued := by
  refine safe_quiet h nofun ?_ hf
  rintro chance s r t he
  cases he
  exact ⟨rfl, rfl, rfl⟩

theorem safe_close_attempt {d : String} {f : Except ProfileError LifecycleCloseEvidence → M β}
 (hf : ∀ closed, Safe (f closed) document vault issued) :
    Safe (do f (← (cancelAndClose d).attempt)) document vault issued := by
  refine safe_command nofun ?_
  rintro s r t rfl rfl rfl ⟨chance, he, -⟩
  cases he
  exact ⟨h, hf _⟩

theorem safe_resolve {d g : String} {f : Except VaultErrorKind String → M β}
    (hf : ∀ r, (∀ secret, r = .ok secret → Has vault d g) → Safe (f r) document vault issued) :
    Safe (do f (← resolve d g)) document vault issued := by
  refine safe_command nofun ?_
  rintro s r t rfl rfl rfl ⟨chance, he, -⟩
  rw [perform] at he
  have hcase : t = s ∧ ∀ secret, r = .ok secret → Has s.vault d g := by
    split at he
    · split at he
      · rename_i secret hs
        cases he
        exact ⟨rfl, fun _ _ => ⟨secret, hs⟩⟩
      · cases he
        exact ⟨rfl, nofun⟩
    all_goals
      cases he
      exact ⟨rfl, nofun⟩
  obtain ⟨rfl, hr⟩ := hcase
  exact ⟨h, hf r hr⟩

theorem safe_consume {challengeId : String}
    (hf : Safe (f ()) document vault issued) : Safe (do f (← consume challengeId target)) document vault issued := by
  refine safe_quiet h nofun ?_ fun _ => hf
  rintro chance s r t he
  cases he
  exact ⟨rfl, rfl, rfl⟩

theorem safe_authorize {challengeId : Option String} {existing : Option ProfileTarget}
    {f : ProfileTarget → M β} (hf : ∀ target, Safe (f target) document vault issued) :
    Safe (do f (← authorizeIncomingPostgresTarget target challengeId existing)) document vault issued := by
  rw [authorizeIncomingPostgresTarget]
  split
  · exact hf _
  split
  · exact hf _
  split
  · exact safe_throw h
  · rw [Prog.bind_assoc]
    refine safe_consume h ?_
    rw [Prog.bind_assoc]
    exact safe_ofExcept h fun _ _ => hf _

end

end Rules

end Profiles
end Yuzora
