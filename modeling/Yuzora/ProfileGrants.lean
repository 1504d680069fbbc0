import Yuzora.ProfileRuns
import Yuzora.ProfileTransport
/-!
# ProfileGrants — authorizations over whole runs

Where a saved target without full verification is held, the run tells how it came to be: a challenge was issued for its
transport and consumed in time by a request about this profile, and it has stood since.
-/
namespace Yuzora
namespace Profiles

open List Table
open ProfileDocument

abbrev Moment : Type := Serial Command Reply ProfileError Answer Shared Operation

/-! ## What happened -/

def Issues (id : String) (tr : Transport) (x : Event) : Prop :=
  ∃ operation dto, x.label = .own operation ⟨.issueChallenge tr, .ok dto⟩ ∧ dto.challengeId = id

def Accepts (id : String) (x : Event) : Prop :=
  ∃ operation target, x.label = .own operation ⟨.consumeChallenge id target, .ok ()⟩

variable (l : List Event)

/-- A challenge was issued for this transport, and consumed by the operation within its time. -/
def Consumption (operation : Operation) (tr : Transport) (later : List Event) : Prop :=
  ∃ past issue mid take id target, l = past ++ issue :: (mid ++ take :: later) ∧ Issues id tr issue ∧
    take.label = .own operation ⟨.consumeChallenge id (.postgres target), .ok ()⟩ ∧ target.transport = tr ∧
      take.src.shared.now < issue.src.shared.now + TRANSPORT_CHALLENGE_TTL

def Within (operation : Operation) (l : List Event) : Prop :=
  ∀ y ∈ l, (∃ a, y.label = .own operation a) ∨ y.label = .other

/-- The request is an update of this profile, or the create that makes it. -/
def Concerned (d : String) (l : List Event) : Operation → Prop
  | .update request => request.descriptorId = d
  | .create request => ∃ y ∈ l, y.label = .own (.create request) ⟨.newId "dbc", d⟩
  | _ => False

/-- A request about the profile consumed a challenge, and the record of it has been pending since. -/
def Draft (d : String) (tr : Transport) : Prop :=
  ∃ operation request record, Consumption l operation tr (request ++ record) ∧ Within operation request ∧
    Concerned d request operation ∧ ∀ y ∈ record, y.dst.shared.durable.proposed d = some tr

/-- The same, and the profile has held what it was granted since. -/
def Story (d : String) (tr : Transport) : Prop :=
  ∃ operation request record standing, Consumption l operation tr (request ++ record ++ standing) ∧
    Within operation request ∧ Concerned d request operation ∧
      (∀ y ∈ record, y.dst.shared.durable.proposed d = some tr) ∧
        ∀ y ∈ standing, y.dst.shared.durable.held d = some tr

def Authorized (tr : Transport) : Operation → Prop
  | .testEphemeral target credential challengeId =>
    ∃ later, Consumption l (.testEphemeral target credential challengeId) tr later ∧
      Within (.testEphemeral target credential challengeId) later
  | .openSaved d => Story l d tr
  | _ => False

variable {l : List Event} {t u : Moment} {x : Event} {d : String} {tr : Transport} {operation : Operation}
  {s after : Shared} {chance : Chance}

theorem Consumption.snoc {later : List Event} (h : Consumption l operation tr later) (x : Event) :
    Consumption (l ++ [x]) operation tr (later ++ [x]) := by
  obtain ⟨past, issue, mid, take, id, target, rfl, hi, ht, htr, hn⟩ := h
  exact ⟨past, issue, mid, take, id, target, by simp, hi, ht, htr, hn⟩

theorem Story.snoc (h : Story l d tr) (hx : x.dst.shared.durable.held d = some tr) : Story (l ++ [x]) d tr := by
  obtain ⟨operation, request, record, standing, hc, hw, hd, hr, hs⟩ := h
  refine ⟨operation, request, record, standing ++ [x], ?_, hw, hd, hr, fun y hy => ?_⟩
  · rw [← append_assoc]
    exact hc.snoc x
  · rcases mem_append.1 hy with hy | hy
    · exact hs y hy
    · rw [mem_singleton.1 hy]
      exact hx

theorem Draft.snoc (h : Draft l d tr) (hx : x.dst.shared.durable.proposed d = some tr) : Draft (l ++ [x]) d tr := by
  obtain ⟨operation, request, record, hc, hw, hd, hr⟩ := h
  refine ⟨operation, request, record ++ [x], ?_, hw, hd, fun y hy => ?_⟩
  · rw [← append_assoc]
    exact hc.snoc x
  · rcases mem_append.1 hy with hy | hy
    · exact hr y hy
    · rw [mem_singleton.1 hy]
      exact hx

theorem Draft.stands (h : Draft l d tr) (hx : x.dst.shared.durable.held d = some tr) : Story (l ++ [x]) d tr := by
  obtain ⟨operation, request, record, hc, hw, hd, hr⟩ := h
  refine ⟨operation, request, record, [x], hc.snoc x, hw, hd, hr, fun y hy => ?_⟩
  rw [mem_singleton.1 hy]
  exact hx

/-! ## The challenges -/

/-- Challenges in memory were issued, and none of them was accepted. -/
structure Registry (l : List Event) (s : Shared) : Prop where
  issued : ∀ id challenge, s.challenges.get id = some challenge → ∃ past issue later, l = past ++ issue :: later ∧
    Issues id challenge.transport issue ∧ challenge.expires = issue.src.shared.now + TRANSPORT_CHALLENGE_TTL
  known : ∀ id challenge, s.challenges.get id = some challenge → id ∈ s.issued
  gone : ∀ x ∈ l, ∀ id, Accepts id x → id ∈ s.issued ∧ s.challenges.get id = none

theorem Registry.still (h : Registry l t.shared)
    (hc : ∀ id challenge, x.dst.shared.challenges.get id = some challenge → t.shared.challenges.get id = some challenge)
    (hi : ∀ id ∈ t.shared.issued, id ∈ x.dst.shared.issued) (hx : ∀ id, ¬ Accepts id x) :
    Registry (l ++ [x]) x.dst.shared := by
  refine ⟨fun id challenge hg => ?_, fun id challenge hg => hi id (h.known id challenge (hc id challenge hg)), ?_⟩
  · obtain ⟨past, issue, later, rfl, hissue, he⟩ := h.issued id challenge (hc id challenge hg)
    exact ⟨past, issue, later ++ [x], by simp, hissue, he⟩
  · intro y hy id ha
    rcases mem_append.1 hy with hy | hy
    · obtain ⟨hin, hnone⟩ := h.gone y hy id ha
      refine ⟨hi id hin, ?_⟩
      cases hg : x.dst.shared.challenges.get id with
      | none => rfl
      | some challenge =>
        rw [hc id challenge hg] at hnone
        cases hnone
    · rw [mem_singleton.1 hy] at ha
      exact absurd ha (hx id)

theorem perform_challenges {c : Command} {r : Reply c} (h : perform chance s c = (r, after)) :
    (after.challenges = s.challenges ∧ (∀ id ∈ s.issued, id ∈ after.issued) ∧
        ∀ id target, (⟨c, r⟩ : Asked Command Reply) ≠ ⟨.consumeChallenge id target, .ok ()⟩) ∨
      (∃ tr dto, (⟨c, r⟩ : Asked Command Reply) = ⟨.issueChallenge tr, .ok dto⟩ ∧
        dto.challengeId = newId "pg-chal" chance.uuid ∧
        after.issued = newId "pg-chal" chance.uuid :: s.issued ∧
        after.challenges = (s.challenges.retain fun _ challenge => s.now < challenge.expires).insert
          (newId "pg-chal" chance.uuid) ⟨newId "pg-chal" chance.uuid, tr, s.now + TRANSPORT_CHALLENGE_TTL⟩) ∨
      ∃ id target challenge, c = .consumeChallenge id target ∧ s.challenges.get id = some challenge ∧
        after.issued = s.issued ∧ after.challenges = s.challenges.erase id ∧
        ((⟨c, r⟩ : Asked Command Reply) = ⟨.consumeChallenge id target, .ok ()⟩ →
          s.now < challenge.expires ∧ challengeMatchesTarget challenge target = true) := by
  have hquiet : ∀ {after : Shared}, after.challenges = s.challenges → after.issued = s.issued →
      after.challenges = s.challenges ∧ ∀ id ∈ s.issued, id ∈ after.issued :=
    fun hc hi => ⟨hc, fun id hid => hi ▸ hid⟩
  have hwrite : ∀ (vault : Vault), (vaultWrite chance.vault s vault).2.challenges = s.challenges ∧
      (vaultWrite chance.vault s vault).2.issued = s.issued := by
    intro vault
    unfold vaultWrite
    split <;> exact ⟨rfl, rfl⟩
  cases c with
  | load =>
    rw [perform] at h
    split at h
    all_goals
      cases h
      exact .inl ⟨rfl, fun _ => id, fun _ _ he => by cases he⟩
  | replace document =>
    rw [perform] at h
    split at h
    · cases h
      exact .inl ⟨rfl, fun _ => id, fun _ _ he => by cases he⟩
    · split at h
      all_goals
        cases h
        exact .inl ⟨rfl, fun _ => id, fun _ _ he => by cases he⟩
  | store descriptorId generation secret =>
    obtain ⟨hc, hi⟩ := hquiet (hwrite (s.vault.insert (descriptorId, generation) secret)).1 (hwrite _).2
    obtain rfl := congrArg Prod.snd h
    exact .inl ⟨hc, hi, fun _ _ he => by cases he⟩
  | resolve descriptorId generation =>
    rw [perform] at h
    split at h
    · split at h
      all_goals
        cases h
        exact .inl ⟨rfl, fun _ => id, fun _ _ he => by cases he⟩
    all_goals
      cases h
      exact .inl ⟨rfl, fun _ => id, fun _ _ he => by cases he⟩
  | delete descriptorId generation =>
    obtain ⟨hc, hi⟩ := hquiet (hwrite (s.vault.erase (descriptorId, generation))).1 (hwrite _).2
    obtain rfl := congrArg Prod.snd h
    exact .inl ⟨hc, hi, fun _ _ he => by cases he⟩
  | close descriptorId =>
    cases h
    exact .inl ⟨rfl, fun _ => id, fun _ _ he => by cases he⟩
  | newId kind =>
    cases h
    exact .inl ⟨rfl, fun _ => mem_cons_of_mem _, fun _ _ he => by cases he⟩
  | issueChallenge tr =>
    cases h
    unfold issueChallenge
    split
    · exact .inl ⟨rfl, fun _ => mem_cons_of_mem _, fun _ _ he => by cases he⟩
    split
    · exact .inl ⟨rfl, fun _ => mem_cons_of_mem _, fun _ _ he => by cases he⟩
    · exact .inr (.inl ⟨tr, _, rfl, rfl, rfl, rfl⟩)
  | consumeChallenge id target =>
    cases h
    unfold consumeChallenge
    split
    · exact .inl ⟨rfl, fun _ h => h, fun _ _ he => by cases he⟩
    · rename_i challenge hg
      refine .inr (.inr ⟨id, target, challenge, rfl, hg, rfl, rfl, fun he => ?_⟩)
      split at he
      · cases he
      rename_i hexpires
      split at he
      · cases he
      · rename_i hmatch
        exact ⟨Nat.lt_of_not_le hexpires, by simpa using hmatch⟩

/-- **The registry is kept by every step.** -/
theorem Registry.step (h : Registry l t.shared) (hst : desk.Step t x.label u) (hu : x.dst = u) (ht : x.src = t) :
    Registry (l ++ [x]) u.shared := by
  obtain ⟨src, label, dst⟩ := x
  subst hu ht
  cases hst with
  | begin | finish => exact h.still (x := ⟨_, _, _⟩) (fun _ _ => id) (fun _ => id) fun _ ⟨_, _, ha⟩ => by cases ha
  | @other s after running ho =>
    obtain ⟨nanoseconds, rfl⟩ := ho
    exact h.still (x := ⟨_, _, _⟩) (fun _ _ => id) (fun _ => id) fun _ ⟨_, _, ha⟩ => by cases ha
  | stop running =>
    refine h.still (x := ⟨_, _, _⟩) (fun id challenge hg => ?_) (fun _ => id) fun _ ⟨_, _, ha⟩ => by cases ha
    cases hg
  | @own s after c r operation next he =>
    obtain ⟨chance, hp, -, hfresh⟩ := he
    rcases perform_challenges hp with ⟨hc, hi, hne⟩ | ⟨tr, dto, heq, hid, hi, hc⟩ |
      ⟨id, target, challenge, rfl, hg, hi, hc, hok⟩
    · refine h.still (x := ⟨_, _, _⟩) (fun id challenge hg => hc ▸ hg) hi fun id ⟨_, target, ha⟩ => ?_
      exact hne id target (Deed.own.inj ha).2
    · have hcommand : c = .issueChallenge tr := congrArg Asked.command heq
      have hnew := (hfresh tr hcommand).issued
      refine ⟨fun id challenge hget => ?_, fun id challenge hget => ?_, fun y hy id ha => ?_⟩
      · rw [hc, get_insert] at hget
        split at hget
        · rename_i hsame
          cases hget
          exact ⟨l, _, [], rfl, ⟨operation, dto, by rw [heq], hid.trans hsame.symm⟩, rfl⟩
        · rw [get_retain, Option.filter_eq_some_iff] at hget
          obtain ⟨past, issue, later, rfl, hissue, hexp⟩ := h.issued id challenge hget.1
          exact ⟨past, issue, later ++ [_], by rw [append_assoc]; rfl, hissue, hexp⟩
      · rw [hi]
        rw [hc, get_insert] at hget
        split at hget
        · rename_i hsame
          exact hsame ▸ mem_cons_self
        · rw [get_retain, Option.filter_eq_some_iff] at hget
          exact mem_cons_of_mem _ (h.known id challenge hget.1)
      · rcases mem_append.1 hy with hy | hy
        · obtain ⟨hin, hnone⟩ := h.gone y hy id ha
          have hne : id ≠ newId "pg-chal" chance.uuid := fun hsame => hnew (hsame ▸ hin)
          refine ⟨hi ▸ mem_cons_of_mem _ hin, ?_⟩
          rw [hc, get_insert, if_neg hne, get_retain, hnone]
          rfl
        · rw [mem_singleton.1 hy] at ha
          obtain ⟨_, target, ha⟩ := ha
          have hasked := heq.symm.trans (Deed.own.inj ha).2
          cases congrArg Asked.command hasked
    · refine ⟨fun id' challenge' hget => ?_, fun id' challenge' hget => ?_, fun y hy id' ha => ?_⟩
      · rw [hc, get_erase] at hget
        split at hget
        · cases hget
        · obtain ⟨past, issue, later, rfl, hissue, hexp⟩ := h.issued id' challenge' hget
          exact ⟨past, issue, later ++ [_], by rw [append_assoc]; rfl, hissue, hexp⟩
      · rw [hi]
        rw [hc, get_erase] at hget
        split at hget
        · cases hget
        · exact h.known id' challenge' hget
      · rw [hi, hc, get_erase]
        rcases mem_append.1 hy with hy | hy
        · obtain ⟨hin, hnone⟩ := h.gone y hy id' ha
          refine ⟨hin, ?_⟩
          split
          · rfl
          · exact hnone
        · rw [mem_singleton.1 hy] at ha
          obtain ⟨_, target', ha⟩ := ha
          obtain ⟨rfl, -⟩ := Command.consumeChallenge.inj (congrArg Asked.command (Deed.own.inj ha).2)
          exact ⟨h.known id challenge hg, if_pos rfl⟩

section
variable (h : Runs l t) {past later : List Event}
include h

theorem Runs.registry : Registry l t.shared := by
  obtain ⟨now, hr⟩ := h
  refine Trace.history (P := fun l (t : Moment) => Registry l t.shared) ?_
    (fun l t d u _ ih hst => ih.step (x := ⟨t, d, u⟩) hst rfl rfl) hr
  rintro _ rfl
  refine ⟨fun id challenge hg => ?_, fun id challenge hg => ?_, fun x hx => ?_⟩
  · cases hg
  · cases hg
  · cases hx

theorem Runs.split (hl : l = past ++ x :: later) : Runs past x.src ∧ desk.Step x.src x.label x.dst := by
  obtain ⟨now, hr⟩ := h
  obtain ⟨hpast, hst⟩ := Trace.split hr hl
  exact ⟨⟨now, hpast⟩, hst⟩

/-- **A challenge that is accepted was issued for the same transport, and its time is not over.** -/
theorem Runs.consumption {id : String} {target : PostgresTarget}
    (hl : l = past ++ x :: later) (hx : x.label = .own operation ⟨.consumeChallenge id (.postgres target), .ok ()⟩) :
    Consumption l operation target.transport later := by
  obtain ⟨hpast, hst⟩ := h.split hl
  have hreg := hpast.registry
  obtain ⟨src, label, dst⟩ := x
  obtain rfl : label = _ := hx
  cases hst with
  | @own s after _ _ _ next he =>
    obtain ⟨chance, hp, -, -⟩ := he
    rcases perform_challenges hp with ⟨-, -, hne⟩ | ⟨tr, dto, heq, -⟩ | ⟨id', target', challenge, hc, hg, -, -, hok⟩
    · exact absurd rfl (hne id _)
    · cases congrArg Asked.command heq
    · obtain ⟨rfl, rfl⟩ := Command.consumeChallenge.inj hc
      obtain ⟨hin, hmatch⟩ := hok rfl
      have htr : challenge.transport = target.transport := by simpa [challengeMatchesTarget] using hmatch
      obtain ⟨before, issue, mid, hsplit, hissue, hexp⟩ := hreg.issued id challenge hg
      refine ⟨before, issue, mid, _, id, target, by rw [hl, hsplit, append_assoc]; rfl, htr ▸ hissue, rfl, rfl, ?_⟩
      rw [← hexp]
      exact hin

/-- **No challenge is accepted twice.** -/
theorem Runs.accepted_once {before mid later : List Event} {y : Event} {id : String}
    (hl : l = before ++ x :: (mid ++ y :: later)) (hx : Accepts id x) : ¬ Accepts id y := by
  rintro ⟨operation, target, hy⟩
  have hl' : l = (before ++ x :: mid) ++ y :: later := by rw [hl, append_assoc]; rfl
  obtain ⟨hpast, hst⟩ := h.split hl'
  obtain ⟨-, hnone⟩ := hpast.registry.gone x (mem_append_right _ mem_cons_self) id hx
  obtain ⟨src, label, dst⟩ := y
  obtain rfl : label = _ := hy
  cases hst with
  | @own s after _ _ _ next he =>
    obtain ⟨chance, hp, -, -⟩ := he
    rcases perform_challenges hp with ⟨-, -, hne⟩ | ⟨tr, dto, heq, -⟩ | ⟨id', target', challenge, hc, hg, -⟩
    · exact absurd rfl (hne id target)
    · cases congrArg Asked.command heq
    · obtain ⟨rfl, rfl⟩ := Command.consumeChallenge.inj hc
      rw [hnone] at hg
      cases hg

/-! ## What is held and proposed -/

theorem Runs.granted {rest : M Answer} (hrun : t.running = some ⟨operation, rest⟩)
    (hg : Granted operation (Desk.past l) d tr) :
    ∃ later, Consumption l operation tr later ∧ Within operation later ∧ Concerned d later operation := by
  obtain ⟨id, target, before, after, hpast, rfl, hc⟩ := hg
  obtain ⟨now, hr⟩ := h
  obtain ⟨earlier, x, later, hl, hx, hwithin, hafter⟩ := hr.exists_of_past hrun hpast
  refine ⟨later, Runs.consumption ⟨now, hr⟩ hl hx, hwithin, ?_⟩
  cases operation with
  | update request => exact hc
  | create request => exact hafter _ hc
  | _ => cases hc

end

/-- **The ledger**: the document validates, a running program knows it, and what it holds and proposes was granted. -/
structure Ledger (l : List Event) (t : Moment) : Prop where
  valid : t.shared.durable.validate = .ok ()
  known : ∀ operation rest, t.running = some ⟨operation, rest⟩ → ∀ document, known (Desk.past l) = some document →
    t.shared.durable = document
  held : ∀ d tr, t.shared.durable.held d = some tr → Story l d tr
  proposed : ∀ d tr, t.shared.durable.proposed d = some tr → Draft l d tr ∨ t.shared.durable.held d = some tr

theorem Ledger.still (h : Ledger l t) (hd : x.dst.shared.durable = t.shared.durable)
    (hk : ∀ operation rest, x.dst.running = some ⟨operation, rest⟩ → ∀ document,
      Profiles.known (Desk.past (l ++ [x])) = some document → x.dst.shared.durable = document) :
    Ledger (l ++ [x]) x.dst := by
  refine ⟨by rw [hd]; exact h.valid, hk, fun d tr hh => ?_, fun d tr hp => ?_⟩
  · rw [hd] at hh
    exact (h.held d tr hh).snoc (by rw [hd]; exact hh)
  · rw [hd] at hp ⊢
    exact (h.proposed d tr hp).imp (fun hdraft => hdraft.snoc (by rw [hd]; exact hp)) id

theorem perform_durable {c : Command} {r : Reply c} (h : perform chance s c = (r, after)) :
    (after.durable = s.durable ∧ ∀ past, Profiles.known past = some s.durable ∨ Profiles.known past = none →
      ∀ document, knownStep (Profiles.known past) ⟨c, r⟩ = some document → after.durable = document) ∨
      ∃ written, c = .replace written ∧ written.validate = .ok () ∧ after.durable = written ∧
        ∀ past document, knownStep (Profiles.known past) ⟨c, r⟩ = some document → after.durable = document := by
  have hkeep : ∀ past, Profiles.known past = some s.durable ∨ Profiles.known past = none →
      ∀ document, Profiles.known past = some document → s.durable = document := by
    rintro past (hk | hk) document hd
    · exact Option.some.inj (hk.symm.trans hd)
    · rw [hk] at hd
      cases hd
  have hwrite : ∀ (vault : Vault), (vaultWrite chance.vault s vault).2.durable = s.durable := by
    intro vault
    unfold vaultWrite
    split <;> rfl
  cases c with
  | load =>
    rw [perform] at h
    split at h
    · cases hv : s.durable.validate with
      | ok _ =>
        rw [hv] at h
        cases h
        exact .inl ⟨rfl, fun _ _ document hd => Option.some.inj hd⟩
      | error e =>
        rw [hv] at h
        cases h
        exact .inl ⟨rfl, hkeep⟩
    all_goals
      cases h
      exact .inl ⟨rfl, hkeep⟩
  | replace written =>
    rw [perform] at h
    split at h
    · cases h
      exact .inl ⟨rfl, fun _ _ _ hd => by cases hd⟩
    rename_i hv
    split at h
    · cases h
      exact .inr ⟨written, rfl, hv, rfl, fun _ _ hd => Option.some.inj hd⟩
    · cases h
      exact .inl ⟨rfl, fun _ _ _ hd => by cases hd⟩
    · cases h
      exact .inr ⟨written, rfl, hv, rfl, fun _ _ hd => by cases hd⟩
  | store | delete =>
    obtain rfl := congrArg Prod.snd h
    exact .inl ⟨hwrite _, fun past hk document hd => (hwrite _).trans (hkeep past hk document hd)⟩
  | resolve descriptorId generation =>
    rw [perform] at h
    split at h
    · split at h
      all_goals
        cases h
        exact .inl ⟨rfl, hkeep⟩
    all_goals
      cases h
      exact .inl ⟨rfl, hkeep⟩
  | close | newId | issueChallenge | consumeChallenge =>
    cases h
    exact .inl ⟨rfl, hkeep⟩

/-- **A justified write is covered by the run.** -/
theorem Ledger.write {written : ProfileDocument} (h : Ledger l t)
    (hj : ∀ d, Justified operation (Desk.past l) t.shared.durable written d)
    (hgrant : ∀ d tr, Granted operation (Desk.past l) d tr →
      ∃ later, Consumption l operation tr later ∧ Within operation later ∧ Concerned d later operation)
    (hv : written.validate = .ok ()) (hx : ∃ a, x.label = .own operation a) (hw : x.dst.shared.durable = written)
    (hk : ∀ operation rest, x.dst.running = some ⟨operation, rest⟩ → ∀ document,
      Profiles.known (Desk.past (l ++ [x])) = some document → x.dst.shared.durable = document) :
    Ledger (l ++ [x]) x.dst := by
  have hdraft : ∀ d tr, Granted operation (Desk.past l) d tr → Draft (l ++ [x]) d tr := fun d tr hg => by
    obtain ⟨later, hc, hwithin, hconcerned⟩ := hgrant d tr hg
    refine ⟨operation, later ++ [x], [], by rw [append_nil]; exact hc.snoc x, fun y hy => ?_, ?_, fun y hy => ?_⟩
    · rcases mem_append.1 hy with hy | hy
      · exact hwithin y hy
      · rw [mem_singleton.1 hy]
        exact .inl hx
    · cases operation with
      | update request => exact hconcerned
      | create request =>
        obtain ⟨y, hy, hlab⟩ := hconcerned
        exact ⟨y, mem_append_left _ hy, hlab⟩
      | _ => cases hconcerned
    · cases hy
  have hstory : ∀ d tr, Draft (l ++ [x]) d tr → Story (l ++ [x]) d tr := fun d tr hd => by
    obtain ⟨operation, request, record, hc, hwithin, hconcerned, hr⟩ := hd
    exact ⟨operation, request, record, [], by rw [append_nil]; exact hc, hwithin, hconcerned, hr,
      fun y hy => by cases hy⟩
  refine ⟨by rw [hw]; exact hv, hk, fun d tr hh => ?_, fun d tr hp => ?_⟩
  · have hnow := hh
    rw [hw] at hh
    rcases (hj d).held tr hh with hheld | hproposed | hg
    · exact (h.held d tr hheld).snoc hnow
    · rcases h.proposed d tr hproposed with hd | hheld
      · exact hd.stands hnow
      · exact (h.held d tr hheld).snoc hnow
    · exact hstory d tr (hdraft d tr hg)
  · have hnow := hp
    rw [hw] at hp ⊢
    rcases (hj d).proposed tr hp with ⟨hproposed, hsame⟩ | hg | hheld
    · rw [hsame]
      exact (h.proposed d tr hproposed).imp (fun hd => hd.snoc hnow) id
    · exact .inl (hdraft d tr hg)
    · exact .inr hheld

theorem past_of_own {asked : Asked Command Reply} (hx : x.label = .own operation asked) :
    Desk.past (l ++ [x]) = Desk.past l ++ [asked] := by
  rw [Desk.past_snoc, hx]

/-- **The ledger is kept by every step.** -/
theorem Ledger.step (h : Ledger l t) (hr : Runs l t) (hst : desk.Step t x.label u) (hu : x.dst = u) (ht : x.src = t) :
    Ledger (l ++ [x]) u := by
  obtain ⟨src, label, dst⟩ := x
  subst hu ht
  cases hst with
  | begin operation =>
    refine h.still (x := ⟨_, _, _⟩) rfl fun _ _ _ document hd => ?_
    rw [Desk.past_snoc] at hd
    cases hd
  | finish | stop => exact h.still (x := ⟨_, _, _⟩) rfl fun _ _ hrun => by cases hrun
  | @other s after running ho =>
    obtain ⟨nanoseconds, rfl⟩ := ho
    refine h.still (x := ⟨_, _, _⟩) rfl fun operation rest hrun document hd => ?_
    rw [Desk.past_snoc] at hd
    exact h.known operation rest hrun document hd
  | @own s after c r operation next he =>
    obtain ⟨chance, hp, -⟩ := he
    have hasks : asks operation (Desk.past l) c := by
      obtain ⟨now, hrun⟩ := hr
      exact (hrun.along rfl _ _ (licensed_start operation).along).1
    have hknown : Profiles.known (Desk.past l) = some s.durable ∨ Profiles.known (Desk.past l) = none := by
      cases hk : Profiles.known (Desk.past l) with
      | none => exact .inr rfl
      | some document => exact .inl (congrArg some (h.known operation _ rfl document hk).symm)
    rcases perform_durable hp with ⟨hsame, hk⟩ | ⟨written, rfl, hv, hw, hk⟩
    · refine h.still (x := ⟨_, _, _⟩) hsame fun _ _ _ document hd => hk (Desk.past l) hknown document ?_
      rw [past_of_own rfl, known_snoc] at hd
      exact hd
    · obtain ⟨document, hdocument, hj⟩ := hasks written rfl
      obtain rfl : s.durable = document := h.known operation _ rfl document hdocument
      refine h.write (x := ⟨_, _, _⟩) (hj h.valid hv) (fun d tr hg => hr.granted rfl hg) hv ⟨_, rfl⟩ hw
        fun _ _ _ document hd => hk (Desk.past l) document ?_
      rw [past_of_own rfl, known_snoc] at hd
      exact hd

theorem Runs.ledger (h : Runs l t) : Ledger l t := by
  obtain ⟨now, hr⟩ := h
  refine Trace.history (P := fun l (t : Moment) => Ledger l t) ?_
    (fun l t d u hl ih hst => ih.step (x := ⟨t, d, u⟩) ⟨now, hl⟩ hst rfl rfl) hr
  rintro _ rfl
  refine ⟨rfl, fun _ _ hrun => ?_, fun d tr hh => ?_, fun d tr hp => ?_⟩
  · cases hrun
  · cases hh
  · cases hp

/-- **Whatever PostgreSQL target is opened without full verification was authorized**: by a challenge that this request
consumed in time, or by one that a request about the profile did, since when the profile's target stands; and no
challenge is accepted twice. -/
theorem transport_authorized {l : List Event} {t : Moment} (h : Runs l t) :
    (∀ past x later, l = past ++ x :: later → ∀ operation target password,
      x.label = .finish operation (.ok (.config (.postgres target password))) → target.transportMode ≠ .verifyFull →
        Authorized past target.transport operation) ∧
      ∀ before x mid y later, l = before ++ x :: (mid ++ y :: later) → ∀ id, Accepts id x → ¬ Accepts id y := by
  refine ⟨fun past x later hl operation target password hx hm => ?_,
    fun before x mid y later hl id hid => h.accepted_once hl hid⟩
  obtain ⟨hpast, hst⟩ := h.split hl
  obtain ⟨src, label, dst⟩ := x
  obtain rfl : label = _ := hx
  cases hst with
  | @finish s =>
    obtain ⟨now, hr⟩ := id hpast
    have hends := hr.along rfl _ _ (licensed_start operation).along _ rfl target password rfl hm
    cases operation with
    | testEphemeral target' credential challengeId =>
      obtain ⟨id, consumed, hmem, ht⟩ := hends
      obtain ⟨before, after, hsplit⟩ := append_of_mem hmem
      obtain ⟨earlier, take, later, hl, htake, hwithin, -⟩ := hr.exists_of_past rfl hsplit
      exact ⟨later, ht ▸ hpast.consumption hl htake, hwithin⟩
    | openSaved d =>
      obtain ⟨document, hk, hheld⟩ := hends
      obtain rfl := hpast.ledger.known _ _ rfl document hk
      exact hpast.ledger.held d _ hheld
    | _ => cases hends

namespace Sample

def server : PostgresTarget := ⟨none, "db", 5432, "main", "me", .insecurePlaintext, none, false⟩

/-- A challenge for a plain connection is issued, a profile is created with it, and opened. -/
def opening : List (Desk.Choice Operation Chance Nat) :=
  [.begin (.issueTransportChallenge server.transport), .run (smooth "a"), .finish, .other 1000,
    .begin (.create ⟨"mine", .postgres server, some "secret", some "pg-chal-a"⟩), .run (smooth "a"), .run (smooth "a"),
    .run (smooth "a"), .run (smooth "a"), .run (smooth "a"), .run (smooth "a"), .run (smooth "a"), .run (smooth "a"),
    .finish, .begin (.openSaved "dbc-a"), .run (smooth "b"), .run (smooth "b"), .finish]

def opens (x : Event) : Option (Operation × PostgresTarget × String) :=
  match x.label with
  | .finish operation (.ok (.config (.postgres target password))) => some (operation, target, password)
  | _ => none

theorem label_of_opens {x : Event} {operation : Operation} {target : PostgresTarget} {password : String}
    (h : opens x = some (operation, target, password)) :
    x.label = .finish operation (.ok (.config (.postgres target password))) := by
  rw [opens] at h
  split at h
  · rename_i hlab
    cases h
    exact hlab
  · cases h

def plain (x : Event) : Bool :=
  (opens x).any fun opened => decide (opened.2.1.transportMode = PostgresTransportMode.insecurePlaintext)

def endsPlain (l : List Event) (_ : Moment) : Bool := l.getLast?.any plain

end Sample

/-- A plain connection is opened, and authorized. -/
theorem transport_authorized_opened : ∃ l t past x operation target password, Runs l t ∧ l = past ++ [x] ∧
    x.label = .finish operation (.ok (.config (.postgres target password))) ∧
      target.transportMode = .insecurePlaintext ∧ Authorized past target.transport operation := by
  obtain ⟨l, t, hr, hc⟩ := Sample.exists_of_check Sample.opening Sample.endsPlain rfl
  obtain ⟨x, hx, hopens⟩ := (Option.any_eq_true _ _).1 hc
  obtain ⟨⟨operation, target, password⟩, hopened, hmode⟩ := (Option.any_eq_true _ _).1 hopens
  obtain ⟨past, rfl⟩ := getLast?_eq_some_iff.1 hx
  have hmode : target.transportMode = .insecurePlaintext := of_decide_eq_true hmode
  have hlabel := Sample.label_of_opens hopened
  refine ⟨past ++ [x], t, past, x, operation, target, password, hr, rfl, hlabel, hmode, ?_⟩
  refine (transport_authorized hr).1 past x [] rfl operation target password hlabel ?_
  rw [hmode]
  decide

end Profiles
end Yuzora
