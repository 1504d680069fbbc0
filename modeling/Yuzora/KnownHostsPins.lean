import Yuzora.KnownHosts
/-!
# KnownHostsPins — pins only grow, and no connect authenticates without one

What a connect does on its own threads through three things that nobody else touches: its events in the journal, its
temporary file, and the store while it has the file lock (`Rely`).  The rest follows along its program.
-/
namespace Yuzora
namespace KnownHosts

open List

/-! ## What is to hold -/

variable (J : Serde)

/-- The map that the file stands for; a corrupt file stands for none. -/
def Store.hosts : Store → Option Hosts
  | missing => some .empty
  | text content => (parseKnownHosts J content).toOption
  | binary => none

def Pinned (store : Store) (endpoint fp : String) : Prop :=
  ∃ hosts, store.hosts J = some hosts ∧ hosts.get endpoint = some fp

/-- `serde_json` writes maps that it reads back, as text that is not blank. -/
structure Serde.Sound (J : Serde) : Prop where
  blank : ∀ hosts text, J.toStringPretty hosts = .ok text → Git.trim text ≠ ""
  back : ∀ hosts text, J.toStringPretty hosts = .ok text →
    ∃ read, J.fromStr text = .ok read ∧ ∀ endpoint, read.get endpoint = hosts.get endpoint

variable (id : Nat)

def Event.isReadOf : Event → Bool
  | read k _ _ => decide (k = id)
  | _ => false

def Event.isAcceptanceOf : Event → Bool
  | accepted _ _ challenge _ => decide (challenge.tx = id)
  | _ => false

def acceptances (journal : List Event) : Nat := journal.countP (Event.isAcceptanceOf id)

/-- The first read of a connection, which is the one of its check, found the pin. -/
def Held (id : Nat) (endpoint fp : String) (journal : List Event) : Prop :=
  ∃ store reply, (journal.filter (Event.isReadOf id)).head? = some (.read id store reply) ∧ Pinned J store endpoint fp

/-- A challenge was issued to this connection and accepted by someone who had looked at the clock in time. -/
def Consented (endpoint fp : String) (journal : List Event) : Prop :=
  ∃ challengeId challenge k at_, challenge.tx = id ∧ challenge.endpoint = endpoint ∧ challenge.fingerprint = fp ∧
    at_ ≤ challenge.expiresAt ∧
      [Event.issued id challengeId challenge, .clock k at_, .accepted k challengeId challenge at_].Sublist journal

/-- No read of this connection found the store corrupt or unreadable. -/
def ReadWell (config : Config) (id : Nat) (journal : List Event) : Prop :=
  ∀ store reply, .read id store reply ∈ journal → ∃ hosts, readKnownHosts J config reply = .ok hosts

/-- The server presented the key, every read went well, and the key was pinned or accepted. -/
structure Cleared (J : Serde) (config : Config) (id : Nat) (session : Session) (journal : List Event) : Prop where
  presented : .presented id session.fingerprint ∈ journal
  readable : ReadWell J config id journal
  trusted : Held J id session.endpoint session.fingerprint journal ∨
    Consented id session.endpoint session.fingerprint journal

/-- What an authentication needs: besides, the pin is in the store. -/
structure Justified (J : Serde) (config : Config) (id : Nat) (session : Session) (s : State) : Prop where
  cleared : Cleared J config id session s.journal
  stored : Pinned J s.store session.endpoint session.fingerprint

/-! ## The store -/

section Stores
variable {J : Serde} {config : Config} {store : Store} {hosts : Hosts} {endpoint fp : String}

theorem Pinned.unique {fp' : String} (h : Pinned J store endpoint fp) (h' : Pinned J store endpoint fp') : fp = fp' := by
  obtain ⟨hosts, hs, hg⟩ := h
  obtain ⟨hosts', hs', hg'⟩ := h'
  rw [hs] at hs'
  cases hs'
  rw [hg] at hg'
  exact Option.some.inj hg'

theorem hosts_of_read {reply : Except ReadError String} (hr : store.Reads reply)
    (h : readKnownHosts J config reply = .ok hosts) : store.hosts J = some hosts := by
  cases reply with
  | ok content =>
    cases store with
    | text content' =>
      obtain rfl : content = content' := hr
      have hp : parseKnownHosts J content = .ok hosts := h
      simp [Store.hosts, hp, Except.toOption]
    | missing | binary => cases hr
  | error e =>
    cases e with
    | notFound =>
      cases store with
      | missing =>
        cases h
        rfl
      | text | binary => cases hr
    | other message => cases h

theorem pinned_insert (hJ : J.Sound) {body : String} (hs : store.hosts J = some hosts) (hn : hosts.get endpoint = none)
    (hb : serializeKnownHosts J (hosts.insert endpoint fp) = .ok body) :
    Pinned J (.text body) endpoint fp ∧ ∀ e f, Pinned J store e f → Pinned J (.text body) e f := by
  have hw : J.toStringPretty (hosts.insert endpoint fp) = .ok body := by
    unfold serializeKnownHosts at hb
    cases ht : J.toStringPretty (hosts.insert endpoint fp) with
    | error e =>
      rw [ht] at hb
      cases hb
    | ok text =>
      rw [ht] at hb
      exact hb
  obtain ⟨read, hread, hget⟩ := hJ.back _ _ hw
  have hnew : (Store.text body).hosts J = some read := by
    simp [Store.hosts, parseKnownHosts, hJ.blank _ _ hw, hread, Except.mapError, Except.toOption]
  refine ⟨⟨read, hnew, ?_⟩, fun e f hp => ⟨read, hnew, ?_⟩⟩
  · rw [hget, Table.get_insert_self]
  · obtain ⟨hosts', hs', hg⟩ := hp
    rw [hs] at hs'
    cases hs'
    have hne : e ≠ endpoint := by
      rintro rfl
      rw [hn] at hg
      cases hg
    rw [hget, Table.get_insert, if_neg hne, hg]

end Stores

/-! ## What is always true, and what a thread relies on -/

/-- Of the pending challenges, the channels and the acceptances. -/
structure Inv (s : State) : Prop where
  pending : ∀ process challengeId challenge, (s.pending process).get challengeId = some challenge →
    .issued challenge.tx challengeId challenge ∈ s.journal
  filled : ∀ id, s.channel id = .filled .accept → ∃ challengeId challenge k at_, challenge.tx = id ∧
    at_ ≤ challenge.expiresAt ∧
      [Event.issued id challengeId challenge, .clock k at_, .accepted k challengeId challenge at_].Sublist s.journal
  once : ∀ id, acceptances id s.journal ≤ 1
  unanswered : ∀ id, s.channel id = .unused ∨ s.channel id = .waiting → acceptances id s.journal = 0

/-- What the others leave alone. -/
structure Rely (J : Serde) (id : Nat) (s t : State) : Prop where
  grows : ∀ endpoint fp, Pinned J s.store endpoint fp → Pinned J t.store endpoint fp
  locked : s.fileLock = some id → t.fileLock = some id ∧ t.store = s.store
  temp : t.temp id = s.temp id
  journal : ∃ later, t.journal = s.journal ++ later ∧ ∀ e ∈ later, e.actor ≠ id
  channel : s.channel id = .unused → t.channel id = .unused

def Fresh (s : State) : Prop := s.channel id = .unused ∧ ∀ e ∈ s.journal, e.actor ≠ id

def Good (config : Config) (id : Nat) (job : Job) (s : State) : Cmd → Prop
  | .oneshot => s.channel id = .unused
  | .insertPending _ challenge => challenge.tx = id
  | .send _ _ none .accept => False
  | .send challengeId challenge (some at_) .accept => at_ ≤ challenge.expiresAt ∧
    [Event.issued challenge.tx challengeId challenge, .clock id at_].Sublist s.journal
  | .rename => s.fileLock = some id ∧ ∃ contents, s.temp id = some contents ∧
    ∀ endpoint fp, Pinned J s.store endpoint fp → Pinned J (.text contents) endpoint fp
  | .authenticate session => (∃ process host port, job = .connect process host port ∧
    session.endpoint = canonicalEndpoint host port) ∧ Justified J config id session s
  | _ => True

section Moves
variable {J : Serde} {config : Config} {id : Nat} {s t u : State} {k : Nat}

theorem Rely.refl (id : Nat) (s : State) : Rely J id s s :=
  ⟨fun _ _ h => h, fun h => ⟨h, rfl⟩, rfl, ⟨[], by simp, by simp⟩, fun h => h⟩

theorem Rely.trans (h : Rely J id s t) (h' : Rely J id t u) : Rely J id s u where
  grows e f hp := h'.grows e f (h.grows e f hp)
  locked hl := by
    obtain ⟨ht, hst⟩ := h.locked hl
    obtain ⟨hu, htu⟩ := h'.locked ht
    exact ⟨hu, htu.trans hst⟩
  temp := h'.temp.trans h.temp
  journal := by
    obtain ⟨later, ht, hl⟩ := h.journal
    obtain ⟨later', hu, hl'⟩ := h'.journal
    refine ⟨later ++ later', by rw [hu, ht, append_assoc], fun e he => ?_⟩
    rcases mem_append.1 he with he | he
    · exact hl e he
    · exact hl' e he
  channel hc := h'.channel (h.channel hc)

theorem Rely.same (id : Nat) (h1 : t.store = s.store) (h2 : t.fileLock = s.fileLock) (h3 : t.temp = s.temp)
    (h4 : t.journal = s.journal) (h5 : t.channel = s.channel) : Rely J id s t where
  grows e f hp := h1 ▸ hp
  locked hl := ⟨h2.trans hl, h1⟩
  temp := by rw [h3]
  journal := ⟨[], by rw [h4, append_nil], by simp⟩
  channel hc := by rw [h5, hc]

theorem Rely.log {e : Event} (he : e.actor ≠ id) (s : State) : Rely J id s (s.log e) where
  grows _ _ hp := hp
  locked hl := ⟨hl, rfl⟩
  temp := rfl
  journal := ⟨[e], rfl, fun x hx => by rwa [mem_singleton.1 hx]⟩
  channel hc := hc

theorem Rely.setChannel {c : Channel} (h : k = id → s.channel id ≠ .unused) : Rely J id s (s.setChannel k c) where
  grows _ _ hp := hp
  locked hl := ⟨hl, rfl⟩
  temp := rfl
  journal := ⟨[], by simp [State.setChannel], by simp⟩
  channel hc := by
    by_cases hk : id = k
    · exact absurd hc (h hk.symm)
    · exact (Function.update_of_ne hk _ _).trans hc

theorem Rely.setTemp (hk : id ≠ k) (s : State) (contents : Option String) : Rely J id s (s.setTemp k contents) where
  grows _ _ hp := hp
  locked hl := ⟨hl, rfl⟩
  temp := Function.update_of_ne hk _ _
  journal := ⟨[], by simp [State.setTemp], by simp⟩
  channel hc := hc

theorem Rely.releaseFile (hk : id ≠ k) (s : State) : Rely J id s (s.releaseFile k) where
  grows _ _ hp := hp
  locked hl := by
    have hne : s.fileLock ≠ some k := fun h => hk (Option.some.inj (hl.symm.trans h))
    exact ⟨(if_neg hne).trans hl, rfl⟩
  temp := rfl
  journal := ⟨[], by simp [State.releaseFile], by simp⟩
  channel hc := hc

theorem Rely.replace {contents : String} (hk : id ≠ k) (hl : s.fileLock = some k)
    (hp : ∀ e f, Pinned J s.store e f → Pinned J (.text contents) e f) : Rely J id s (s.replace k contents) where
  grows := hp
  locked h := absurd (Option.some.inj (h.symm.trans hl)) hk
  temp := Function.update_of_ne hk _ _
  journal := ⟨[], by simp [State.replace], by simp⟩
  channel hc := hc

theorem Rely.lockFile (id : Nat) (k : Nat) (h : s.fileLock = none) : Rely J id s { s with fileLock := some k } where
  grows _ _ hp := hp
  locked hl := by
    rw [h] at hl
    cases hl
  temp := rfl
  journal := ⟨[], by simp, by simp⟩
  channel hc := hc

/-! The invariant speaks of the pending challenges, the channels and the journal. -/

theorem Inv.same (h : Inv s) (h1 : t.pending = s.pending) (h2 : t.channel = s.channel) (h3 : t.journal = s.journal) :
    Inv t := by
  obtain ⟨store, lock, persist, pending, channel, temp, now, journal⟩ := t
  obtain rfl : pending = s.pending := h1
  obtain rfl : channel = s.channel := h2
  obtain rfl : journal = s.journal := h3
  exact ⟨h.pending, h.filled, h.once, h.unanswered⟩

theorem acceptances_log (id : Nat) (s : State) (e : Event) :
    acceptances id (s.log e).journal = acceptances id s.journal + if e.isAcceptanceOf id then 1 else 0 := by
  simp [acceptances, State.log, countP_append, countP_singleton]

theorem Inv.log {e : Event} (h : Inv s) (he : ∀ id, e.isAcceptanceOf id = false) : Inv (s.log e) where
  pending p cid c hc := mem_append_left _ (h.pending p cid c hc)
  filled id hf := by
    obtain ⟨cid, c, k, at_, hk, hat, hsub⟩ := h.filled id hf
    exact ⟨cid, c, k, at_, hk, hat, hsub.trans (sublist_append_left _ _)⟩
  once id := by
    rw [acceptances_log, he id]
    exact h.once id
  unanswered id hc := by
    rw [acceptances_log, he id]
    exact h.unanswered id hc

theorem Inv.setPending {table : Table String PendingHostKeyChallenge} (h : Inv s) (p : Nat)
    (ht : ∀ cid c, table.get cid = some c → .issued c.tx cid c ∈ s.journal) : Inv (s.setPending p table) where
  pending q cid c hc := by
    by_cases hq : q = p
    · subst hq
      refine ht cid c ?_
      simpa [State.setPending] using hc
    · refine h.pending q cid c ?_
      simpa [State.setPending, Function.update_of_ne hq] using hc
  filled := h.filled
  once := h.once
  unanswered := h.unanswered

theorem Inv.setChannel {c : Channel} (h : Inv s) (id : Nat) (hf : c ≠ .filled .accept)
    (hc : c = .closed ∨ c = .filled .reject ∨ s.channel id = .unused) : Inv (s.setChannel id c) where
  pending := h.pending
  filled k hk := by
    by_cases hid : k = id
    · subst hid
      have : c = .filled .accept := by simpa [State.setChannel] using hk
      exact absurd this hf
    · exact h.filled k (by simpa [State.setChannel, Function.update_of_ne hid] using hk)
  once := h.once
  unanswered k hk := by
    by_cases hid : k = id
    · subst hid
      have hk' : c = .unused ∨ c = .waiting := by simpa [State.setChannel] using hk
      rcases hc with rfl | rfl | hc
      · simp at hk'
      · simp at hk'
      · exact h.unanswered k (.inl hc)
    · exact h.unanswered k (by simpa [State.setChannel, Function.update_of_ne hid] using hk)

theorem Inv.accept {cid : String} {c : PendingHostKeyChallenge} {at_ : Nat} (h : Inv s) (hw : s.channel c.tx = .waiting)
    (hat : at_ ≤ c.expiresAt) (hsub : [Event.issued c.tx cid c, .clock id at_].Sublist s.journal) :
    Inv ((s.setChannel c.tx (.filled .accept)).log (.accepted id cid c at_)) where
  pending p cid c hc := mem_append_left _ (h.pending p cid c hc)
  filled k hk := by
    by_cases hid : k = c.tx
    · refine ⟨cid, c, id, at_, hid.symm, hat, ?_⟩
      rw [hid]
      exact hsub.append (List.Sublist.refl [Event.accepted id cid c at_])
    · have hk' : s.channel k = .filled .accept := by
        simpa [State.setChannel, State.log, Function.update_of_ne hid] using hk
      obtain ⟨cid', c', k', at', h1, h2, h3⟩ := h.filled k hk'
      exact ⟨cid', c', k', at', h1, h2, h3.trans (sublist_append_left _ _)⟩
  once k := by
    rw [acceptances_log]
    by_cases hid : c.tx = k
    · have h0 := h.unanswered c.tx (.inr hw)
      rw [hid] at h0
      simp [State.setChannel, h0, Event.isAcceptanceOf, hid]
    · simpa [Event.isAcceptanceOf, hid, State.setChannel] using h.once k
  unanswered k hk := by
    by_cases hid : k = c.tx
    · subst hid
      simp [State.setChannel, State.log] at hk
    · rw [acceptances_log]
      have hk' : s.channel k = .unused ∨ s.channel k = .waiting := by
        simpa [State.setChannel, State.log, Function.update_of_ne hid] using hk
      have hne : c.tx ≠ k := fun he => hid he.symm
      simpa [Event.isAcceptanceOf, hne, State.setChannel] using h.unanswered k hk'

/-- **A good command keeps the invariant, and within what the others rely on.** -/
theorem exec_kept {job : Job} {process : Nat} {c : Cmd} {r : Reply c} (h : Inv s) (hg : Good J config id job s c)
    (he : Exec id process s c r t) : Inv t ∧ ∀ j, j ≠ id → Rely J j s t := by
  have still : t = s → Inv t ∧ ∀ j, j ≠ id → Rely J j s t := by
    rintro rfl
    exact ⟨h, fun j _ => .refl j t⟩
  have logged : ∀ e : Event, e.actor = id → (∀ k, e.isAcceptanceOf k = false) → t = s.log e →
      Inv t ∧ ∀ j, j ≠ id → Rely J j s t := by
    rintro e ha hn rfl
    exact ⟨h.log hn, fun j hj => .log (fun hej => hj (hej.symm.trans ha)) s⟩
  have released : t = s.releaseFile id → Inv t ∧ ∀ j, j ≠ id → Rely J j s t := by
    rintro rfl
    exact ⟨h.same rfl rfl rfl, fun j hj => .releaseFile hj s⟩
  have temped : ∀ contents, t = s.setTemp id contents → Inv t ∧ ∀ j, j ≠ id → Rely J j s t := by
    rintro contents rfl
    exact ⟨h.same rfl rfl rfl, fun j hj => .setTemp hj s contents⟩
  have replaced : s.fileLock = some id ∧ (∃ contents, s.temp id = some contents ∧
      ∀ e f, Pinned J s.store e f → Pinned J (.text contents) e f) →
      (∃ contents, s.temp id = some contents ∧ t = s.replace id contents) → Inv t ∧ ∀ j, j ≠ id → Rely J j s t := by
    rintro ⟨hl, contents, hc, hp⟩ ⟨contents', hc', rfl⟩
    rw [hc] at hc'
    cases hc'
    exact ⟨h.same rfl rfl rfl, fun j hj => .replace hj hl hp⟩
  cases c with
  | presented =>
    cases r with
    | none => exact still he
    | some key => exact logged _ rfl (fun _ => rfl) he
  | readKnownHosts | now => exact logged _ rfl (fun _ => rfl) he.2
  | emit | newUuid | io | select | authenticate => exact still he
  | oneshot =>
    obtain ⟨-, rfl⟩ := he
    exact ⟨h.setChannel id (by simp) (.inr (.inr hg)), fun j hj => .setChannel fun hk => absurd hk.symm hj⟩
  | insertPending cid c =>
    obtain rfl := he
    obtain rfl : c.tx = id := hg
    have hput : ∀ j, Rely J j s (s.setPending process ((s.pending process).insert cid c)) := fun j =>
      .same j rfl rfl rfl rfl rfl
    refine ⟨?_, fun j hj => (hput j).trans (.log (fun hej => hj hej.symm) _)⟩
    refine Inv.same ((h.log fun _ => rfl : Inv (s.log (.issued c.tx cid c))).setPending process ?_) rfl rfl rfl
    intro cid' c' hc
    rw [Table.get_insert] at hc
    by_cases hcid : cid' = cid
    · rw [if_pos hcid] at hc
      cases hc
      rw [hcid]
      exact mem_concat_self
    · rw [if_neg hcid] at hc
      exact mem_append_left _ (h.pending process cid' c' hc)
  | takePending cid =>
    obtain ⟨-, rfl⟩ := he
    refine ⟨h.setPending process fun cid' c hc => ?_, fun j _ => .same j rfl rfl rfl rfl rfl⟩
    rw [Table.get_erase] at hc
    split at hc
    · cases hc
    · exact h.pending process cid' c hc
  | drainPending =>
    obtain ⟨-, rfl⟩ := he
    exact ⟨h.setPending process fun _ _ hc => (by cases hc), fun j _ => .same j rfl rfl rfl rfl rfl⟩
  | receive =>
    have hclose : t = s.setChannel id .closed → Inv t ∧ ∀ j, j ≠ id → Rely J j s t := by
      rintro rfl
      exact ⟨h.setChannel id (by simp) (.inl rfl), fun j hj => .setChannel fun hk => absurd hk.symm hj⟩
    cases r with
    | none => exact hclose he
    | some a => exact hclose he.2
  | send cid c readAt a =>
    cases r with
    | error e => exact still he.2
    | ok u =>
      obtain ⟨hw, ht⟩ := he
      have hrely : ∀ j a, Rely J j s (s.setChannel c.tx a) := fun j a => .setChannel fun hk hu => by
        rw [← hk, hw] at hu
        cases hu
      cases a with
      | reject =>
        obtain rfl : t = s.setChannel c.tx (.filled .reject) := by
          cases readAt with
          | none | some => exact ht
        exact ⟨h.setChannel _ (by simp) (.inr (.inl rfl)), fun j _ => hrely j _⟩
      | accept =>
        cases readAt with
        | none => exact hg.elim
        | some at_ =>
          obtain ⟨hat, hsub⟩ := hg
          obtain rfl : t = (s.setChannel c.tx (.filled .accept)).log (.accepted id cid c at_) := ht
          exact ⟨h.accept hw hat hsub, fun j hj => (hrely j _).trans (.log (fun hej => hj hej.symm) _)⟩
  | lockPersist =>
    cases r with
    | ok u =>
      obtain ⟨-, rfl⟩ := he
      exact ⟨h.same rfl rfl rfl, fun j _ => .same j rfl rfl rfl rfl rfl⟩
    | error e => exact still he
  | unlockPersist =>
    obtain rfl := he
    exact ⟨h.same rfl rfl rfl, fun j _ => .same j rfl rfl rfl rfl rfl⟩
  | lockFile =>
    cases r with
    | ok u =>
      obtain ⟨hfree, rfl⟩ := he
      exact ⟨h.same rfl rfl rfl, fun j _ => .lockFile j id hfree⟩
    | error e => exact still he
  | unlockFile =>
    cases r with
    | ok u => exact released he
    | error e => exact he.elim still released
  | closeLockFile => exact released he
  | createTemp contents =>
    cases r with
    | ok u => exact temped _ he
    | error e =>
      obtain ⟨part, he⟩ := he
      exact temped part he
  | rename =>
    cases r with
    | ok u => exact replaced hg he
    | error e => exact he.elim still (replaced hg)

theorem drop_kept (process : Nat) (h : Inv s) :
    Inv (dropThread id process s) ∧ ∀ j, j ≠ id → Rely J j s (dropThread id process s) := by
  have hrelease : Inv (s.releaseFile id) := h.same rfl rfl rfl
  unfold dropThread
  dsimp only
  split
  · have hunlock : Inv ((s.releaseFile id).setPersistLock process none) := hrelease.same rfl rfl rfl
    refine ⟨hunlock.setChannel id (by simp) (.inl rfl), fun j hj => ?_⟩
    have hrely : Rely J j (s.releaseFile id) ((s.releaseFile id).setPersistLock process none) :=
      .same j rfl rfl rfl rfl rfl
    exact (Rely.releaseFile hj s).trans (hrely.trans (.setChannel fun hk => absurd hk.symm hj))
  · exact ⟨hrelease.setChannel id (by simp) (.inl rfl), fun j hj =>
      (Rely.releaseFile hj s).trans (.setChannel fun hk => absurd hk.symm hj)⟩

theorem fresh_kept (h : Rely J id s t) (hf : Fresh id s) : Fresh id t := by
  obtain ⟨later, ht, hl⟩ := h.journal
  refine ⟨h.channel hf.1, fun e he => ?_⟩
  rw [ht] at he
  rcases mem_append.1 he with he | he
  · exact hf.2 e he
  · exact hl e he

end Moves

end KnownHosts
end Yuzora
