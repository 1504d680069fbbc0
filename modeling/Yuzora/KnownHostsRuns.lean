import Yuzora.KnownHostsPins
/-!
# KnownHostsRuns — along the programs, and in every run

Each program is read once from top to bottom: what a command leaves is what the next one needs, whatever the others do
between the two.
-/
namespace Yuzora
namespace KnownHosts

open List

section Along
variable {J : Serde} {config : Config} {id : Nat} {job : Job} {α β : Type} {P P' : State → Prop}

def Post (Q : α → State → Prop) : Except String α → State → Prop
  | .ok a, s => Q a s
  | .error _, _ => True

/-- The program issues good commands only, and a result it returns is right. -/
def Along (J : Serde) (config : Config) (id : Nat) (job : Job) (P : State → Prop) (p : Run α) (Q : α → State → Prop) :
    Prop :=
  ((crew J config).world (Rely J) id job).Meets (fun s _ => Inv s) (Good J config id job) P p (Post Q)

def Firm (J : Serde) (id : Nat) (P : State → Prop) : Prop := ∀ s t, P s → Rely J id s t → P t

variable {Q : α → State → Prop} {R : β → State → Prop} {p : Run α}

theorem Along.tell {c : Cmd} {Q : Reply c → State → Prop} (hP : Firm J id P)
    (h : ∀ s, P s → Inv s → Good J config id job s c ∧ ∀ r t, Exec id job.process s c r t → Q r t) :
    Along J config id job P (tell c) Q := World.Meets.command hP h

theorem Along.bind {f : α → Run β} (h : Along J config id job P p Q)
    (hf : ∀ a, Along J config id job (Q a) (f a) R) : Along J config id job P (p >>= f) R :=
  World.Meets.bind h hf fun _ _ _ => trivial

theorem Along.pure {a : α} (h : ∀ s, P s → Q a s) : Along J config id job P (pure a) Q := World.Meets.pure h

theorem Along.throw (e : String) : Along J config id job P (Prog.throw e) Q := World.Meets.throw fun _ _ => trivial

theorem Along.ofExcept {r : Except String α} (h : ∀ a s, r = .ok a → P s → Q a s) :
    Along J config id job P (Prog.ofExcept r) Q := by
  refine World.Meets.ofExcept fun s hs => ?_
  cases r with
  | error e => trivial
  | ok a => exact h a s rfl hs

theorem Along.attempt (h : Along J config id job P p Q) :
    Along J config id job P p.attempt (Post Q) := World.Meets.attempt h

theorem Along.mono {Q' : α → State → Prop} (h : Along J config id job P p Q) (hP : ∀ s, P' s → P s)
    (hQ : ∀ a s, Q a s → Q' a s) : Along J config id job P' p Q' := by
  refine World.Meets.mono h hP fun r s hr => ?_
  cases r with
  | error e => trivial
  | ok a => exact hQ a s hr

theorem Along.attempted {step : Run (Except String Unit)} {Q : Unit → State → Prop} (context : String)
    (h : Along J config id job P step (Post Q)) : Along J config id job P (attempted step context) Q := by
  refine h.bind fun r => .ofExcept fun a s hr hs => ?_
  cases r with
  | error e => cases hr
  | ok u => exact hs

theorem Along.io {op : IoOp} (context : String) (hP : Firm J id P) :
    Along J config id job P (KnownHosts.io op context) fun _ => P := by
  refine .attempted context (.tell hP fun s hs _ => ⟨trivial, fun r t he => ?_⟩)
  obtain rfl : t = s := he
  cases r with
  | error e => trivial
  | ok u => exact hs

theorem Along.orElseError {value : Option α} {error : String} (h : ∀ a s, value = some a → P s → Q a s) :
    Along J config id job P (orElseError value error) Q := by
  cases value with
  | none => exact .throw error
  | some a => exact .pure fun s hs => h a s rfl hs

end Along

/-! ## What the others leave alone -/

section Firmness
variable {J : Serde} {config : Config} {id : Nat} {s t : State} {session : Session}

def own (id : Nat) (journal : List Event) : List Event := journal.filter fun e => decide (e.actor = id)

theorem own_append (id : Nat) (l m : List Event) : own id (l ++ m) = own id l ++ own id m := filter_append _ _

theorem own_of_rely (h : Rely J id s t) : own id t.journal = own id s.journal := by
  obtain ⟨later, ht, hl⟩ := h.journal
  have hnone : own id later = [] := filter_eq_nil_iff.2 fun e he => by simpa using hl e he
  rw [ht, own_append, hnone, append_nil]

variable {journal : List Event} {endpoint fp : String} {e : Event}

theorem mem_own (h : e ∈ journal) (ha : e.actor = id) : e ∈ own id journal :=
  mem_filter.2 ⟨h, by simpa using ha⟩

theorem mem_of_own (h : e ∈ own id journal) : e ∈ journal := (mem_filter.1 h).1

theorem own_log (id : Nat) (ha : e.actor = id) : own id (s.log e).journal = own id s.journal ++ [e] := by
  simp [State.log, own, filter_append, ha]

theorem firm_own (es : List Event) : Firm J id fun s => own id s.journal = es := fun _ _ hs h => (own_of_rely h).trans hs

theorem firm_mem (e : Event) : Firm J id fun s => e ∈ s.journal := fun s t hs h => by
  obtain ⟨later, ht, -⟩ := h.journal
  rw [ht]
  exact mem_append_left _ hs

theorem firm_sublist (es : List Event) : Firm J id fun s => es.Sublist s.journal := fun s t hs h => by
  obtain ⟨later, ht, -⟩ := h.journal
  rw [ht]
  exact hs.trans (sublist_append_left _ _)

theorem Firm.and {P P' : State → Prop} (h : Firm J id P) (h' : Firm J id P') : Firm J id fun s => P s ∧ P' s :=
  fun s t hs hr => ⟨h s t hs.1 hr, h' s t hs.2 hr⟩

theorem firm_const (p : Prop) : Firm J id fun _ => p := fun _ _ hp _ => hp

theorem Consented.append (h : Consented id endpoint fp journal)
    (later : List Event) : Consented id endpoint fp (journal ++ later) := by
  obtain ⟨cid, c, k, at_, h1, h2, h3, h4, h5⟩ := h
  exact ⟨cid, c, k, at_, h1, h2, h3, h4, h5.trans (sublist_append_left _ _)⟩

theorem Held.append (h : Held J id endpoint fp journal)
    (later : List Event) : Held J id endpoint fp (journal ++ later) := by
  obtain ⟨store, reply, hr, hp⟩ := h
  refine ⟨store, reply, ?_, hp⟩
  rw [filter_append, head?_append, hr]
  rfl

theorem Cleared.append (h : Cleared J config id session journal) {later : List Event}
    (hl : ∀ store reply, .read id store reply ∈ later → ∃ hosts, readKnownHosts J config reply = .ok hosts) :
    Cleared J config id session (journal ++ later) where
  presented := mem_append_left _ h.presented
  readable store reply hr := (mem_append.1 hr).elim (h.readable store reply) (hl store reply)
  trusted := h.trusted.imp (·.append later) (·.append later)

theorem firm_cleared : Firm J id fun s => Cleared J config id session s.journal := fun s t hs h => by
  obtain ⟨later, ht, hl⟩ := h.journal
  rw [ht]
  exact hs.append fun store reply hr => absurd rfl (hl _ hr)

theorem firm_justified : Firm J id (Justified J config id session) := fun s t hs h =>
  ⟨firm_cleared s t hs.cleared h, h.grows _ _ hs.stored⟩

end Firmness

/-! ## The pin -/

section Pin
variable {J : Serde} {config : Config} {id : Nat} {job : Job} {session : Session} {hosts : Hosts} {body : String}

/-- The thread has the file lock, and the store is as it read it. -/
def Locked (J : Serde) (config : Config) (id : Nat) (session : Session) (hosts : Hosts) (s : State) : Prop :=
  Cleared J config id session s.journal ∧ s.fileLock = some id ∧ s.store.hosts J = some hosts

theorem firm_locked : Firm J id (Locked J config id session hosts) := fun s t ⟨hc, hl, hs⟩ h => by
  obtain ⟨hl', hst⟩ := h.locked hl
  exact ⟨firm_cleared s t hc h, hl', by rw [hst, hs]⟩

def Written (J : Serde) (config : Config) (id : Nat) (session : Session) (body : String) (s : State) : Prop :=
  Cleared J config id session s.journal ∧ s.fileLock = some id ∧ s.temp id = some body ∧
    Pinned J (.text body) session.endpoint session.fingerprint ∧
      ∀ e f, Pinned J s.store e f → Pinned J (.text body) e f

theorem firm_written : Firm J id (Written J config id session body) := fun s t ⟨hc, hl, htemp, hp, hk⟩ h => by
  obtain ⟨hl', hst⟩ := h.locked hl
  exact ⟨firm_cleared s t hc h, hl', h.temp.trans htemp, hp, by rw [hst]; exact hk⟩

theorem along_persistTemp : Along J config id job (Written J config id session body) persistTemp
    fun _ => Justified J config id session := by
  refine (Along.io _ firm_written).bind fun _ => (Along.io _ firm_written).bind fun _ => ?_
  refine .bind (.attempted _ (.tell firm_written fun s ⟨hc, hl, htemp, hp, hk⟩ _ => ⟨⟨hl, body, htemp, hk⟩, ?_⟩))
    fun _ => .io _ firm_justified
  intro r t he
  cases r with
  | error e => trivial
  | ok u =>
    obtain ⟨contents, hcont, rfl⟩ := he
    rw [htemp] at hcont
    cases hcont
    exact ⟨hc, hp⟩

theorem along_removeTempOnError (result : Except String Unit) : Along J config id job
    (Post (fun _ => Justified J config id session) result) (removeTempOnError result)
      fun _ => Justified J config id session := by
  cases result with
  | ok u => exact .pure fun s hs => hs
  | error e =>
    refine .bind (Q := fun _ _ => True) (.tell (fun _ _ _ _ => trivial) fun s _ _ => ⟨trivial, fun _ _ _ => trivial⟩)
      fun _ => .throw e

theorem along_persistKnownHosts (hJ : J.Sound) (hn : hosts.get session.endpoint = none) :
    Along J config id job (Locked J config id session hosts)
      (persistKnownHosts J config (hosts.insert session.endpoint session.fingerprint))
        fun _ => Justified J config id session := by
  refine (Along.orElseError (Q := fun _ => Locked J config id session hosts) fun _ _ _ hs => hs).bind fun _ => ?_
  refine (Along.io _ firm_locked).bind fun _ => ?_
  refine Along.bind (Q := fun body s => Locked J config id session hosts s ∧
    serializeKnownHosts J (hosts.insert session.endpoint session.fingerprint) = .ok body)
    (.ofExcept fun body s hb hs => ⟨hs, hb⟩) fun body => ?_
  refine Along.bind (Q := fun _ => Written J config id session body) (.attempted _ (.tell ?_ ?_)) fun _ =>
    along_persistTemp.attempt.bind along_removeTempOnError
  · exact firm_locked.and (firm_const _)
  · rintro s ⟨⟨hc, hl, hs⟩, hb⟩ -
    refine ⟨trivial, fun r t he => ?_⟩
    cases r with
    | error e => trivial
    | ok u =>
      obtain rfl := he
      obtain ⟨hp, hk⟩ := pinned_insert hJ hs hn hb
      exact ⟨hc, hl, Function.update_self _ _ _, hp, hk⟩

theorem along_mergePin (hJ : J.Sound) : Along J config id job (Locked J config id session hosts)
    (mergePin J config session.endpoint session.fingerprint hosts) fun _ => Justified J config id session := by
  unfold mergePin
  split
  · rename_i existing hg
    split
    · exact .throw _
    · rename_i he
      obtain rfl := not_not.1 he
      exact .pure fun s ⟨hc, _, hs⟩ => ⟨hc, hosts, hs, hg⟩
  · rename_i hn
    exact along_persistKnownHosts hJ hn

def HasLock (J : Serde) (config : Config) (id : Nat) (session : Session) (s : State) : Prop :=
  Cleared J config id session s.journal ∧ s.fileLock = some id

theorem firm_hasLock : Firm J id (HasLock J config id session) := fun s t ⟨hc, hl⟩ h =>
  ⟨firm_cleared s t hc h, (h.locked hl).1⟩

theorem along_pinTransaction (hJ : J.Sound) : Along J config id job (HasLock J config id session)
    (pinTransaction J config session.endpoint session.fingerprint) fun _ => Justified J config id session := by
  refine Along.bind (Q := fun r s => ∀ hosts, readKnownHosts J config r = .ok hosts → Locked J config id session hosts s)
    (.tell firm_hasLock ?_) fun r => ?_
  · rintro s ⟨hc, hl⟩ -
    refine ⟨trivial, fun r t he hosts hr => ?_⟩
    obtain ⟨hread, rfl⟩ := he
    refine ⟨hc.append fun store reply hm => ?_, hl, hosts_of_read hread hr⟩
    cases mem_singleton.1 hm
    exact ⟨hosts, hr⟩
  · exact Along.bind (Q := fun hosts => Locked J config id session hosts) (.ofExcept fun hosts s hr hs => hs hosts hr)
      fun hosts => along_mergePin hJ

theorem along_acquire : Along J config id job (fun s => Cleared J config id session s.journal)
    (acquireKnownHostsFileLock config) fun _ => HasLock J config id session := by
  refine (Along.orElseError (Q := fun _ s => Cleared J config id session s.journal) fun _ _ _ hs => hs).bind fun _ => ?_
  refine (Along.io _ firm_cleared).bind fun _ => (Along.io _ firm_cleared).bind fun _ => ?_
  refine .attempted _ (.tell firm_cleared fun s hc _ => ⟨trivial, fun r t he => ?_⟩)
  cases r with
  | error e => trivial
  | ok u =>
    obtain ⟨-, rfl⟩ := he
    exact ⟨hc, rfl⟩

theorem along_unlock {result : Except String Unit} {c : Cmd} {Q : Reply c → State → Prop} (hg : ∀ s, Good J config id job s c)
    (hQ : ∀ r s t, Exec id job.process s c r t → t.journal = s.journal ∧ t.store = s.store)
    (hpost : ∀ r s, Post (fun _ => Justified J config id session) result s → Q r s) :
    Along J config id job (Post (fun _ => Justified J config id session) result) (tell c) Q := by
  refine .tell (fun s t hs h => ?_) fun s hs _ => ⟨hg s, fun r t he => hpost r t ?_⟩
  · cases result with
    | error e => trivial
    | ok u => exact firm_justified s t hs h
  · obtain ⟨hj, hst⟩ := hQ r s t he
    cases result with
    | error e => trivial
    | ok u =>
      refine ⟨?_, ?_⟩
      · rw [hj]
        exact hs.cleared
      · rw [hst]
        exact hs.stored

theorem along_releaseFileLock (result : Except String Unit) : Along J config id job
    (Post (fun _ => Justified J config id session) result) releaseFileLock
      fun _ => Post (fun _ => Justified J config id session) result := by
  refine Along.bind (Along.attempt (Q := fun _ => Post (fun _ => Justified J config id session) result)
    (.attempted _ (along_unlock (fun _ => trivial) ?_ ?_))) fun released => ?_
  · intro r s t he
    cases r with
    | ok u =>
      obtain rfl := he
      exact ⟨rfl, rfl⟩
    | error e =>
      rcases he with rfl | rfl
      · exact ⟨rfl, rfl⟩
      · exact ⟨rfl, rfl⟩
  · intro r s hs
    cases r with
    | ok u => exact hs
    | error e => trivial
  · cases released with
    | error e =>
      exact .bind (Q := fun _ _ => True)
        (.tell (fun _ _ _ _ => trivial) fun _ _ _ => ⟨trivial, fun _ _ _ => trivial⟩) fun _ => .throw e
    | ok u =>
      refine .bind (Q := fun _ => Post (fun _ => Justified J config id session) result)
        (along_unlock (fun _ => trivial) ?_ fun _ _ hs => hs) fun _ => .pure fun _ hs => hs
      rintro r s t rfl
      exact ⟨rfl, rfl⟩

theorem joinResults_ok {transaction release : Except String Unit} {u : Unit}
    (h : joinResults transaction release = .ok u) : transaction = .ok () ∧ release = .ok () := by
  cases transaction with
  | ok u =>
    cases release with
    | ok u => exact ⟨rfl, rfl⟩
    | error e => cases h
  | error e =>
    cases release with
    | ok | error => cases h

theorem along_persistGuarded (hJ : J.Sound) : Along J config id job (fun s => Cleared J config id session s.journal)
    (persistGuarded J config session.endpoint session.fingerprint) fun _ => Justified J config id session := by
  refine along_acquire.bind fun _ => (along_pinTransaction hJ).attempt.bind fun transaction => ?_
  refine (along_releaseFileLock transaction).attempt.bind fun release => .ofExcept fun u s hr hs => ?_
  obtain ⟨rfl, rfl⟩ := joinResults_ok hr
  exact hs

/-- **A pin that is reported stored is stored.** -/
theorem along_persistAcceptedPin (hJ : J.Sound) : Along J config id job (fun s => Cleared J config id session s.journal)
    (persistAcceptedPin J config session.endpoint session.fingerprint) fun _ => Justified J config id session := by
  refine Along.bind (Q := fun _ s => Cleared J config id session s.journal) (.tell firm_cleared ?_) fun locked => ?_
  · refine fun s hs _ => ⟨trivial, fun r t he => ?_⟩
    cases r with
    | ok u =>
      obtain ⟨-, rfl⟩ := he
      exact hs
    | error e =>
      obtain rfl := he
      exact hs
  · refine Along.bind (Q := fun _ s => Cleared J config id session s.journal) (.ofExcept fun _ _ _ hs => hs) fun _ => ?_
    refine (along_persistGuarded hJ).attempt.bind fun result => ?_
    refine .bind (Q := fun _ => Post (fun _ => Justified J config id session) result)
      (along_unlock (fun _ => trivial) ?_ fun _ _ hs => hs) fun _ => .ofExcept fun u s hr hs => ?_
    · rintro r s t rfl
      exact ⟨rfl, rfl⟩
    · rw [hr] at hs
      exact hs

end Pin

/-! ## The connect -/

section Connect
variable {J : Serde} {config : Config} {id : Nat} {job : Job} {es : List Event}

def Done (id : Nat) (es : List Event) (s : State) : Prop := own id s.journal = es ∧ s.channel id = .unused

theorem firm_done (es : List Event) : Firm J id (Done id es) := fun s t ⟨ho, hc⟩ h => ⟨firm_own es s t ho h, h.channel hc⟩

theorem Fresh.done {s : State} (h : Fresh id s) : Done id [] s :=
  ⟨filter_eq_nil_iff.2 fun e he => by simpa using h.2 e he, h.1⟩

theorem Done.log {s : State} {e : Event} (h : Done id es s) (ha : e.actor = id) :
    Done id (es ++ [e]) (s.log e) := ⟨by rw [own_log id ha, h.1], h.2⟩

variable {port : UInt16} {connectionId host : String} {read : Except String Hosts} {endpoint fp : String}
  {key : PublicKey} {process : Nat}

/-- **An answer that lets a connect go on** is an acceptance of its own challenge. -/
theorem along_challengeAndWait {endpoint : String} (hes : ∀ cid c, .issued id cid c ∉ es) :
    Along J config id job (Done id es) (challengeAndWait config connectionId host port endpoint key) fun accepted s =>
      accepted = true → Consented id endpoint key.fingerprint s.journal ∧
        ∃ cid c n, own id s.journal = es ++ [Event.clock id n, .issued id cid c] := by
  refine Along.bind (Q := fun _ => Done id es) (.tell (firm_done es) ?_) fun cid => ?_
  · rintro s hs -
    exact ⟨trivial, fun r t he => he ▸ hs⟩
  refine Along.bind (Q := fun (tx : Nat) s => tx = id ∧ own id s.journal = es) (.tell (firm_done es) ?_) fun tx => ?_
  · rintro s ⟨ho, hc⟩ -
    refine ⟨hc, fun r t he => ?_⟩
    obtain ⟨rfl, rfl⟩ := he
    exact ⟨rfl, ho⟩
  refine Along.bind (Q := fun (now : Nat) s => tx = id ∧ own id s.journal = es ++ [Event.clock id now])
    (.tell ((firm_const _).and (firm_own _)) ?_) fun now => ?_
  · rintro s ⟨htx, ho⟩ -
    refine ⟨trivial, fun r t he => ?_⟩
    obtain ⟨rfl, rfl⟩ := he
    exact ⟨htx, by rw [own_log id rfl, ho]⟩
  generalize hc : (⟨connectionId, endpoint, key.algorithm, key.fingerprint, now + config.challengeTimeout, tx⟩ :
    PendingHostKeyChallenge) = c
  refine Along.bind (Q := fun _ s => own id s.journal = es ++ [Event.clock id now, .issued id cid c])
    (.tell ((firm_const _).and (firm_own _)) ?_) fun _ => ?_
  · rintro s ⟨htx, ho⟩ -
    refine ⟨by rw [← hc]; exact htx, fun r t he => ?_⟩
    obtain rfl := he
    rw [own_log id rfl]
    simp [State.setPending, ho]
  refine Along.bind (Q := fun _ s => own id s.journal = es ++ [Event.clock id now, .issued id cid c])
    (.tell (firm_own _) ?_) fun _ => ?_
  · rintro s ho -
    exact ⟨trivial, fun r t he => he ▸ ho⟩
  refine Along.bind (Q := fun (decision : Option HostKeyAnswer) s => decision = some .accept →
    Consented id endpoint key.fingerprint s.journal ∧
      ∃ cid c n, own id s.journal = es ++ [Event.clock id n, .issued id cid c]) (.tell (firm_own _) ?_) fun decision => ?_
  · rintro s ho hi
    refine ⟨trivial, fun r t he hr => ?_⟩
    subst hr
    obtain ⟨hfull, rfl⟩ := he
    refine ⟨?_, cid, c, now, ho⟩
    obtain ⟨cid', c', k, at_, htx, hat, hsub⟩ := hi.filled id hfull
    have hm : .issued id cid' c' ∈ own id s.journal := mem_own (hsub.subset mem_cons_self) rfl
    -- the only challenge that this connection issued is its own
    have heq : c' = c := by
      rw [ho] at hm
      rcases mem_append.1 hm with hm | hm
      · exact absurd hm (hes cid' c')
      · have he : Event.issued id cid' c' = .issued id cid c := by simpa using hm
        cases he
        rfl
    subst heq
    exact ⟨cid', c', k, at_, htx, by rw [← hc], by rw [← hc], hat, hsub⟩
  · have hno : ∀ d : Option HostKeyAnswer, Along J config id job (fun _ => True) (tell (.takePending cid) >>= fun _ => pure false)
        fun accepted s => accepted = true → Consented id endpoint key.fingerprint s.journal ∧
          ∃ cid c n, own id s.journal = es ++ [Event.clock id n, .issued id cid c] := fun _ =>
      .bind (Q := fun _ _ => True) (.tell (fun _ _ _ _ => trivial) fun _ _ _ => ⟨trivial, fun _ _ _ => trivial⟩)
        fun _ => .pure fun _ _ hf => by cases hf
    cases decision with
    | none => exact (hno none).mono (fun _ _ => trivial) fun _ _ h => h
    | some a =>
      cases a with
      | accept => exact .pure fun s hs _ => hs rfl
      | reject => exact (hno none).mono (fun _ _ => trivial) fun _ _ h => h

theorem reads_eq (id : Nat) (journal : List Event) :
    journal.filter (Event.isReadOf id) = (own id journal).filter (Event.isReadOf id) := by
  rw [own, filter_filter]
  refine filter_congr fun e _ => ?_
  cases e <;> simp +contextual [Event.isReadOf, Event.actor]

def Looked (J : Serde) (id : Nat) (fp : String) (reply : Except ReadError String) (s : State) : Prop :=
  ∃ store : Store, store.Reads reply ∧ Done id [.presented id fp, .read id store reply] s ∧
    ∀ e f, Pinned J store e f → Pinned J s.store e f

theorem firm_looked (fp : String) (reply : Except ReadError String) : Firm J id (Looked J id fp reply) :=
  fun s t ⟨store, hr, hd, hp⟩ h =>
    ⟨store, hr, firm_done _ s t hd h, fun e f hpin => h.grows e f (hp e f hpin)⟩

section Looking
variable {reply : Except ReadError String} {s : State} {hosts : Hosts} {later : List Event}

theorem readWell_of_own {store : Store} (h : own id s.journal = [Event.presented id fp, .read id store reply] ++ later)
    (hl : ∀ store reply, .read id store reply ∉ later) (hr : readKnownHosts J config reply = .ok hosts) :
    ReadWell J config id s.journal := by
  intro store' reply' hm
  have ho : .read id store' reply' ∈ own id s.journal := mem_own hm rfl
  rw [h] at ho
  simp only [cons_append, nil_append, mem_cons, reduceCtorEq, false_or, Event.read.injEq, hl, or_false,
    true_and] at ho
  rw [ho.2]
  exact ⟨hosts, hr⟩

theorem Looked.justified (h : Looked J id fp reply s) (hr : readKnownHosts J config reply = .ok hosts)
    (hg : hosts.get endpoint = some fp) : Justified J config id ⟨endpoint, fp⟩ s := by
  obtain ⟨store, hread, ⟨ho, -⟩, hp⟩ := h
  have hpin : Pinned J store endpoint fp := ⟨hosts, hosts_of_read hread hr, hg⟩
  have hreads : ReadWell J config id s.journal := readWell_of_own (ho.trans (append_nil _).symm) (by simp) hr
  refine ⟨⟨mem_of_own (ho ▸ mem_cons_self), hreads, .inl ⟨store, reply, ?_, hpin⟩⟩, hp _ _ hpin⟩
  rw [reads_eq, ho]
  simp [Event.isReadOf]

end Looking

theorem evaluate_matched
    (h : evaluateHostKey read endpoint fp = .matched) : ∃ hosts, read = .ok hosts ∧ hosts.get endpoint = some fp := by
  cases read with
  | error e => cases h
  | ok hosts =>
    refine ⟨hosts, rfl, ?_⟩
    unfold evaluateHostKey decideHostKey at h
    cases hg : hosts.get endpoint with
    | none => simp [hg] at h
    | some pin =>
      by_cases hp : pin = fp
      · rw [hp]
      · simp [hg, hp] at h

theorem evaluate_new (h : evaluateHostKey read endpoint fp = .new) : ∃ hosts, read = .ok hosts := by
  cases read with
  | error e => cases h
  | ok hosts => exact ⟨hosts, rfl⟩

/-- **A key that passes the check is pinned**, and was pinned before or accepted by the user. -/
theorem along_checkServerKey (hJ : J.Sound) : Along J config id job (Done id [.presented id key.fingerprint])
      (checkServerKey J config connectionId host port key) fun checked s =>
        checked.1 = true → Justified J config id ⟨canonicalEndpoint host port, key.fingerprint⟩ s := by
  unfold checkServerKey
  generalize canonicalEndpoint host port = endpoint
  refine Along.bind (Q := Looked J id key.fingerprint) (.tell (firm_done _) ?_) fun reply => ?_
  · rintro s hs -
    refine ⟨trivial, fun r t he => ?_⟩
    obtain ⟨hread, rfl⟩ := he
    exact ⟨s.store, hread, hs.log rfl, fun _ _ hp => hp⟩
  · generalize heval : evaluateHostKey (readKnownHosts J config reply) endpoint key.fingerprint = eval
    cases eval with
    | corrupt reason => exact .pure fun _ _ hf => by cases hf
    | changed previous =>
      exact .bind (Q := fun _ _ => True) (.tell (firm_looked _ _) fun _ _ _ => ⟨trivial, fun _ _ _ => trivial⟩) fun _ =>
        .pure fun _ _ hf => by cases hf
    | matched =>
      obtain ⟨hosts, hr, hg⟩ := evaluate_matched heval
      exact .pure fun s hs _ => hs.justified hr hg
    | new =>
      obtain ⟨hosts, hr⟩ := evaluate_new heval
      refine World.Meets.exists fun store => ?_
      refine Along.bind (Along.mono (along_challengeAndWait (by simp)) (fun s hs => hs.2.1) fun _ _ h => h) fun accepted => ?_
      cases accepted with
      | false => exact .pure fun _ _ hf => by cases hf
      | true =>
        have hpin : Along J config id job (fun s => Cleared J config id ⟨endpoint, key.fingerprint⟩ s.journal)
            (persistAcceptedPin J config endpoint key.fingerprint)
              fun _ => Justified J config id ⟨endpoint, key.fingerprint⟩ := along_persistAcceptedPin hJ
        refine .bind (Along.mono hpin ?_ fun _ _ h => h).attempt fun result => .pure fun s hs hf => ?_
        · rintro s hs
          obtain ⟨hc, cid, c, n, ho⟩ := hs rfl
          have hm : .presented id key.fingerprint ∈ own id s.journal := by
            rw [ho]
            exact mem_cons_self
          exact ⟨mem_of_own hm, readWell_of_own ho (by simp) hr, .inr hc⟩
        · cases result with
          | error e => cases hf
          | ok u => exact hs

theorem along_afterSelect {key : Option PublicKey}
    {checked : Bool × CheckOutcome} (hjob : job = .connect process host port) (selected : Selected) :
    Along J config id job (fun s => checked.1 = true → ∀ k, key = some k →
      Justified J config id ⟨canonicalEndpoint host port, k.fingerprint⟩ s)
        (afterSelect host port key checked selected) fun _ _ => True := by
  unfold afterSelect
  generalize he : canonicalEndpoint host port = endpoint
  cases selected with
  | connectDeadline | challengeDeadline => exact .throw _
  | connectFut transport =>
    cases transport with
    | some transport => exact .throw _
    | none =>
      cases key with
      | none => exact .throw _
      | some key =>
        obtain ⟨passed, outcome⟩ := checked
        cases passed with
        | false => exact .throw _
        | true =>
          refine Along.bind (Q := fun _ _ => True) (.tell (fun s t hs h hp k hk => firm_justified s t (hs hp k hk) h) ?_)
            fun r => ?_
          · intro s hs _
            exact ⟨⟨⟨process, host, port, hjob, he.symm⟩, hs rfl key rfl⟩, fun _ _ _ => trivial⟩
          unfold authenticated
          split
          · exact .throw _
          · exact .throw _
          · exact .pure fun _ _ => trivial

theorem along_connect (hJ : J.Sound) (hjob : job = .connect process host port) :
    Along J config id job (Done id []) (connect J config host port) fun _ _ => True := by
  refine Along.bind (Q := fun _ => Done id []) (.tell (firm_done _) ?_) fun connectionId => ?_
  · rintro s hs -
    exact ⟨trivial, fun r t he => he ▸ hs⟩
  refine Along.bind (Q := fun (key : Option PublicKey) s => ∀ k, key = some k → Done id [.presented id k.fingerprint] s)
    (.tell (firm_done _) ?_) fun key => ?_
  · refine fun s hs _ => ⟨trivial, fun r t he k hk => ?_⟩
    subst hk
    obtain rfl := he
    exact hs.log rfl
  refine Along.bind (Q := fun checked s => checked.1 = true → ∀ k, key = some k →
    Justified J config id ⟨canonicalEndpoint host port, k.fingerprint⟩ s) ?_ fun checked => ?_
  · cases key with
    | none => exact .pure fun _ _ hf => by cases hf
    | some key =>
      refine (along_checkServerKey hJ).mono (fun s hs => hs key rfl) fun checked s hs hp k hk => ?_
      cases hk
      exact hs hp
  · refine .bind (.tell (fun s t hs h hp k hk => firm_justified s t (hs hp k hk) h) ?_) (along_afterSelect hjob)
    rintro s hs -
    exact ⟨trivial, fun r t he => he ▸ hs⟩

end Connect

/-! ## The answers -/

section Answers
variable {J : Serde} {config : Config} {id : Nat} {job : Job}

theorem along_any {c : Cmd} {P : State → Prop} (h : ∀ s, Good J config id job s c) :
    Along J config id job P (tell c) fun _ _ => True :=
  Along.mono (.tell (fun _ _ _ _ => trivial) fun s _ _ => ⟨h s, fun _ _ _ => trivial⟩) (fun _ _ => trivial)
    fun _ _ h => h

theorem along_answer (challengeId : String) (accept : Bool) (endpoint fingerprint : String)
    (pending : PendingHostKeyChallenge) :
    Along J config id job (fun s => .issued pending.tx challengeId pending ∈ s.journal)
      (answer challengeId accept endpoint fingerprint pending) fun _ _ => True := by
  refine Along.bind (Q := fun (now : Nat) s =>
    [Event.issued pending.tx challengeId pending, .clock id now].Sublist s.journal) (.tell (firm_mem _) ?_) fun now => ?_
  · rintro s hs -
    refine ⟨trivial, fun r t he => ?_⟩
    obtain ⟨rfl, rfl⟩ := he
    exact (singleton_sublist.2 hs).append (List.Sublist.refl [Event.clock id s.now])
  · split
    · exact .bind (Q := fun _ _ => True) (along_any fun _ => trivial) fun _ => .throw _
    · rename_i hin
      split
      · exact .bind (Q := fun _ _ => True) (along_any fun _ => trivial) fun _ => .throw _
      · refine Along.bind (Q := fun _ _ => True) (.tell (firm_sublist _) fun s hs _ => ⟨?_, fun _ _ _ => trivial⟩) fun _ =>
          .ofExcept fun _ _ _ _ => trivial
        cases accept with
        | false => trivial
        | true => exact ⟨Nat.le_of_not_lt hin, hs⟩

theorem along_respond (challengeId : String) (accept : Bool) (endpoint fingerprint : String) :
    Along J config id job (fun _ => True) (respond challengeId accept endpoint fingerprint) fun _ _ => True := by
  refine Along.bind (Q := fun (taken : Option PendingHostKeyChallenge) s => ∀ pending, taken = some pending →
    .issued pending.tx challengeId pending ∈ s.journal) (.tell (fun _ _ _ _ => trivial) ?_) fun taken => ?_
  · refine fun s _ hi => ⟨trivial, fun r t he pending hr => ?_⟩
    obtain ⟨rfl, rfl⟩ := he
    exact hi.pending job.process challengeId pending hr
  · exact Along.bind (Q := fun pending s => .issued pending.tx challengeId pending ∈ s.journal)
      (.orElseError fun pending s ht hs => hs pending ht) (along_answer challengeId accept endpoint fingerprint)

theorem along_rejectEach : ∀ drained : List (String × PendingHostKeyChallenge),
    Along J config id job (fun _ => True) (rejectEach drained) fun _ _ => True
  | [] => .pure fun _ _ => trivial
  | (_, _) :: rest => .bind (Q := fun _ _ => True) (along_any fun _ => trivial) fun _ => along_rejectEach rest

end Answers

/-! ## Every run -/

section Runs
variable {J : Serde} {config : Config} {t : Threads Cmd Reply String Outcome State Job} {l : List (crew J config).Event}
  {store : Store}

theorem ensures_of_along {id : Nat} {job : Job} {α : Type} {P : State → Prop} {p : Run α} (h : Along J config id job P p fun _ _ => True)
    (f : α → Outcome) {s : State} (hs : P s) : ((crew J config).world (Rely J) id job).Ensures (fun s _ => Inv s)
      (Good J config id job) (f <$> p) (fun _ _ _ => True) false s := by
  have hmap : Along J config id job P (f <$> p) fun _ _ => True := h.bind fun _ => .pure fun _ _ => trivial
  exact (World.Meets.ensures hmap false s hs).mono fun _ _ _ _ => trivial

theorem crew_keeps (hJ : J.Sound) : (crew J config).Keeps Inv (Rely J) Fresh (Good J config) where
  own _ _ _ _ _ _ h hg he := exec_kept h hg he
  drop _ _ _ h := drop_kept _ h
  drift s t h hd := by
    obtain ⟨now, -, rfl⟩ := hd
    exact ⟨h.same rfl rfl rfl, fun j => .same j rfl rfl rfl rfl rfl⟩
  await _ _ _ h hf := fresh_kept h hf
  start id job s hf := by
    cases job with
    | connect process host port => exact ensures_of_along (along_connect hJ rfl) _ hf.done
    | respond process challengeId accept endpoint fingerprint =>
      exact ensures_of_along (along_respond challengeId accept endpoint fingerprint) _ trivial
    | rejectAllPending process =>
      refine ensures_of_along (P := fun _ => True) ?_ _ trivial
      exact .bind (Q := fun _ _ => True) (along_any fun _ => trivial) along_rejectEach

theorem inv_start (store : Store) (now : Nat) : Inv (.start store now) where
  pending _ _ _ h := by cases h
  filled _ h := by cases h
  once _ := Nat.zero_le _
  unanswered _ _ := rfl

/-- **No step loses a pin**, from any run. -/
theorem pins_grow (hJ : J.Sound) {now : Nat} (h : (crew J config).Runs (.start store now) l t) :
    ∀ x ∈ l, ∀ endpoint fp, Pinned J x.src.shared.store endpoint fp → Pinned J x.dst.shared.store endpoint fp := by
  intro x hx endpoint fp hp
  obtain ⟨-, -, hmoves⟩ := Crew.Runs.kept h (crew_keeps hJ) (inv_start store now) fun _ => ⟨rfl, nofun⟩
  rcases hmoves x hx with heq | ⟨k, hr⟩
  · rw [← heq]
    exact hp
  · exact (hr (k + 1) (Nat.succ_ne_self k)).grows endpoint fp hp

def Authenticates (J : Serde) (config : Config) (x : (crew J config).Event) (id : Nat) (job : Job) (session : Session) :
    Prop := ∃ r, x.label = .own id job ⟨.authenticate session, r⟩

/-- What a run promises. -/
structure Secure (J : Serde) (config : Config) (l : List (crew J config).Event)
    (t : Threads Cmd Reply String Outcome State Job) : Prop where
  /-- Only a connect authenticates, to the endpoint it dialled, and its key was pinned or accepted. -/
  justified : ∀ x ∈ l, ∀ id job session, Authenticates J config x id job session →
    (∃ process host port, job = .connect process host port ∧ session.endpoint = canonicalEndpoint host port) ∧
      Justified J config id session x.src.shared
  /-- No connection's challenge is accepted twice. -/
  once : ∀ id, acceptances id t.shared.journal ≤ 1
  /-- No step removes or changes a pin. -/
  kept : ∀ x ∈ l, ∀ endpoint fp, Pinned J x.src.shared.store endpoint fp → Pinned J x.dst.shared.store endpoint fp
  /-- Connects that authenticate to one endpoint use one fingerprint. -/
  agree : ∀ x ∈ l, ∀ y ∈ l, ∀ id id' job job' session session', Authenticates J config x id job session →
    Authenticates J config y id' job' session' → session.endpoint = session'.endpoint →
      session.fingerprint = session'.fingerprint

theorem pinned_at_end (hJ : J.Sound) {now : Nat}
    (h : (crew J config).Runs (.start store now) l t) {endpoint fp : String} :
    ∀ x ∈ l, Pinned J x.src.shared.store endpoint fp → Pinned J t.shared.store endpoint fp := by
  intro x hx hp
  obtain ⟨past, later, rfl⟩ := append_of_mem hx
  have hgrow := pins_grow hJ h
  refine Trace.persists (P := fun u => Pinned J u.shared.store endpoint fp) h rfl (hgrow x hx endpoint fp hp) ?_
  exact fun y hy _ hq => hgrow y (mem_append_right _ (mem_cons_of_mem _ hy)) endpoint fp hq

/-- **A connect authenticates only with a key that was pinned or accepted**, whatever fails and whoever answers. -/
theorem connects_secure (hJ : J.Sound) {store : Store} {now : Nat} {l : List (crew J config).Event}
    {t : Threads Cmd Reply String Outcome State Job} (h : (crew J config).Runs (.start store now) l t) :
    Secure J config l t := by
  obtain ⟨hinv, hgood, -⟩ := Crew.Runs.kept h (crew_keeps hJ) (inv_start store now) fun _ => ⟨rfl, nofun⟩
  have hjust : ∀ x ∈ l, ∀ id job session, Authenticates J config x id job session →
      (∃ process host port, job = .connect process host port ∧ session.endpoint = canonicalEndpoint host port) ∧
        Justified J config id session x.src.shared := fun x hx id job session ⟨r, hr⟩ => hgood x hx id job _ hr
  refine ⟨hjust, hinv.once, pins_grow hJ h, fun x hx y hy id id' job job' session session' ha ha' he => ?_⟩
  have hp := pinned_at_end hJ h x hx (hjust x hx id job session ha).2.stored
  have hp' := pinned_at_end hJ h y hy (hjust y hy id' job' session' ha').2.stored
  rw [he] at hp
  exact hp.unique hp'

end Runs

namespace Sample

def host : String := "build:22"
def print : String := "SHA256:a"
def text : String := "\x7b\n  \"build:22\": \"SHA256:a\"\n\x7d"

def serde : Serde where
  fromStr content := if content = text then .ok (Table.empty.insert host print) else .error "expected value"
  toStringPretty hosts := if hosts.entries = [(host, print)] then .ok text else .error "io error"

theorem serde_sound : serde.Sound := by
  have hw : ∀ hosts written, serde.toStringPretty hosts = .ok written → hosts.entries = [(host, print)] ∧ written = text := by
    intro hosts written h
    by_cases he : hosts.entries = [(host, print)]
    · simp only [serde, if_pos he] at h
      cases h
      exact ⟨he, rfl⟩
    · simp only [serde, if_neg he] at h
      cases h
  refine ⟨fun hosts written h => ?_, fun hosts written h => ?_⟩
  · rw [(hw hosts written h).2]
    decide
  · obtain ⟨he, rfl⟩ := hw hosts written h
    obtain ⟨entries, hn⟩ := hosts
    obtain rfl : entries = [(host, print)] := he
    exact ⟨Table.empty.insert host print, by simp [serde], fun _ => rfl⟩

def oblige (id : Nat) (job : Job) (s : State) : (c : Cmd) → Option (Reply c × State)
  | .presented => some (some ⟨"ssh-ed25519", print⟩, s.log (.presented id print))
  | .readKnownHosts =>
    match s.store with
    | .text content => some (.ok content, s.log (.read id (.text content) (.ok content)))
    | .missing => some (.error .notFound, s.log (.read id .missing (.error .notFound)))
    | .binary => none
  | .emit _ => some ((), s)
  | .newUuid => some ("c", s)
  | .now => some (s.now, s.log (.clock id s.now))
  | .oneshot => some (id, s.setChannel id .waiting)
  | .insertPending challengeId challenge => some ((),
    (s.setPending job.process ((s.pending job.process).insert challengeId challenge)).log (.issued id challengeId challenge))
  | .takePending challengeId => some ((s.pending job.process).get challengeId,
    s.setPending job.process ((s.pending job.process).erase challengeId))
  | .receive =>
    match s.channel id with
    | .filled a => some (some a, s.setChannel id .closed)
    | _ => none
  | .send challengeId challenge (some at_) .accept => if s.channel challenge.tx = .waiting then
      some (.ok (), (s.setChannel challenge.tx (.filled .accept)).log (.accepted id challengeId challenge at_))
    else none
  | .lockPersist => if s.persistLock job.process = none then some (.ok (), s.setPersistLock job.process (some id)) else none
  | .unlockPersist => some ((), s.setPersistLock job.process none)
  | .lockFile => if s.fileLock = none then some (.ok (), { s with fileLock := some id }) else none
  | .unlockFile => some (.ok (), s.releaseFile id)
  | .closeLockFile => some ((), s.releaseFile id)
  | .createTemp contents => some (.ok (), s.setTemp id (some contents))
  | .rename => (s.temp id).map fun contents => (.ok (), s.replace id contents)
  | .io _ => some (.ok (), s)
  | .select => some (.connectFut none, s)
  | .authenticate _ => some (.ok true, s)
  | _ => none

def config : Config := ⟨"known_hosts.json", some ".yuzora", 60⟩

/-- Two processes dial the same new host; the user accepts the first one's challenge, and the second starts later. -/
def acts : List (Turn Job Unit Unit) :=
  Turn.start 0 (Job.connect 0 "build" 22) :: List.replicate 8 (.run 0 ()) ++
    Turn.start 1 (Job.respond 0 "c" true host print) :: List.replicate 3 (.run 1 ()) ++
    List.replicate 17 (Turn.run 0 ()) ++ Turn.start 2 (Job.connect 1 "Build." 22) :: List.replicate 5 (.run 2 ())

def played : Option (List (crew serde config).Event × Threads Cmd Reply String Outcome State Job) :=
  Trace.play ((crew serde config).next (fun _ => oblige) fun _ s => s) acts [] ⟨.start .missing 0, fun _ => none⟩

theorem exec_of_oblige {id : Nat} {job : Job} {s : State} {c : Cmd} {r : Reply c} {t : State}
    (h : oblige id job s c = some (r, t)) : Exec id job.process s c r t := by
  cases c with
  | presented | emit | newUuid | unlockPersist | closeLockFile | io | select | authenticate | insertPending | unlockFile
  | createTemp =>
    cases h
    rfl
  | now | oneshot | takePending =>
    cases h
    exact ⟨rfl, rfl⟩
  | drainPending => cases h
  | readKnownHosts =>
    dsimp only [oblige] at h
    split at h
    · rename_i content hs
      cases h
      exact ⟨by rw [hs]; rfl, by rw [hs]⟩
    · rename_i hs
      cases h
      exact ⟨by rw [hs]; trivial, by rw [hs]⟩
    · cases h
  | receive =>
    dsimp only [oblige] at h
    split at h
    · rename_i a hs
      cases h
      exact ⟨hs, rfl⟩
    · cases h
  | send challengeId challenge readAt a =>
    cases readAt with
    | none => cases h
    | some at_ =>
      cases a with
      | reject => cases h
      | accept =>
        obtain ⟨hw, he⟩ := Option.ite_none_right_eq_some.1 h
        cases he
        exact ⟨hw, rfl⟩
  | lockPersist | lockFile =>
    obtain ⟨hw, he⟩ := Option.ite_none_right_eq_some.1 h
    cases he
    exact ⟨hw, rfl⟩
  | rename =>
    obtain ⟨contents, hc, he⟩ := Option.map_eq_some_iff.1 h
    cases he
    exact ⟨contents, hc, rfl⟩

theorem run_of_played {l : List (crew serde config).Event} {t : Threads Cmd Reply String Outcome State Job}
    (h : played = some (l, t)) : (crew serde config).Runs (.start .missing 0) l t := by
  refine Trace.of_play (fun s a m u hn => ?_) (.start rfl) h
  have hexec : ∀ (_ : Unit) id job s c r t, oblige id job s c = some (r, t) →
      (crew serde config).exec id job s c r t := fun _ _ _ _ _ _ _ he => exec_of_oblige he
  have hdrift : ∀ (_ : Unit) s, (crew serde config).drift s s := fun _ s => ⟨s.now, le_refl _, rfl⟩
  exact Crew.step_of_next hexec hdrift s a m u hn

end Sample

theorem connects_secure_pinned : ∃ l t, Sample.played = some (l, t) ∧ t.shared.store = .text Sample.text ∧
    (∃ x ∈ l, Authenticates Sample.serde Sample.config x 2 (.connect 1 "Build." 22) ⟨Sample.host, Sample.print⟩) ∧
      Secure Sample.serde Sample.config l t :=
  ⟨_, _, rfl, rfl, ⟨_, mem_of_getLast? rfl, .ok true, rfl⟩,
    connects_secure Sample.serde_sound (Sample.run_of_played rfl)⟩

end KnownHosts
end Yuzora
