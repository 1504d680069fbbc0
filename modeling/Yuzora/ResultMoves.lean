import Yuzora.ResultSessions
import Yuzora.Trace
/-!
# ResultMoves — what one operation does to the registry

An operation keeps the registry, edits one owned session's cursor, flags or lifecycle, stores a row, opens or removes a
session, or drops a descriptor's or a connection's sessions.
-/
namespace Yuzora
namespace Results

open Db (ConnectionIdentity QueryRunOwner)

/-! ## One operation -/

inductive Call
  | beginRun (owner : QueryRunOwner String)
  | beginSession (owner : Owner) (columns : Vec HeapString)
  | markResultLimitReached (owner : Owner)
  | markValueTooLarge (owner : Owner)
  | pushRow (owner : Owner) (row : Row)
  | finishSession (owner : Owner) (effectOutcome : EffectOutcome)
  | finishSessionWithLifecycle (owner : Owner) (effectOutcome : EffectOutcome) (lifecycle : SessionLifecycle)
  | finishSessionState (owner : Owner) (effectOutcome : EffectOutcome) (lifecycle : SessionLifecycle)
  | markPageReady (owner : Owner) (pageIndex : Nat)
  | markNextPageReady (owner : Owner)
  | resultSession (owner : Owner)
  | page (owner : Owner) (pageIndex : Nat)
  | previous (owner : Owner)
  | next (owner : Owner)
  | continuationPageIndex (owner : Owner)
  | completeNext (owner : Owner) (pageIndex : Nat)
  | currentPage (owner : Owner)
  | release (owner : Owner)
  | releaseWithEffect (owner : Owner) (effectOutcome : EffectOutcome)
  | discard (owner : Owner)
  | releaseConnection (identity : ConnectionIdentity String)

def Call.owner : Call → Option Owner
  | .beginRun _ | .releaseConnection _ => none
  | .beginSession owner _ | .markResultLimitReached owner | .markValueTooLarge owner | .pushRow owner _
  | .finishSession owner _ | .finishSessionWithLifecycle owner _ _ | .finishSessionState owner _ _
  | .markPageReady owner _ | .markNextPageReady owner | .resultSession owner | .page owner _ | .previous owner
  | .next owner | .continuationPageIndex owner | .completeNext owner _ | .currentPage owner | .release owner
  | .releaseWithEffect owner _ | .discard owner => some owner

inductive Reply
  | refused (error : SessionError)
  | done
  | pushed (outcome : PushRowOutcome)
  | session (session : ResultSession)
  | page (page : ResultPage)
  | next (next : NextPage)
  | index (pageIndex : Nat)

namespace ResultSessionRegistry

def answer {α : Type} (reply : α → Reply) : Outcome α → Reply × ResultSessionRegistry
  | (.error e, next) => (.refused e, next)
  | (.ok a, next) => (reply a, next)

def step (layout : Layout) (self : ResultSessionRegistry) : Call → Reply × ResultSessionRegistry
  | .beginRun owner => (.done, self.beginRun layout owner)
  | .beginSession owner columns => answer (fun _ => .done) (self.beginSession layout owner columns)
  | .markResultLimitReached owner => answer (fun _ => .done) (self.markResultLimitReached owner)
  | .markValueTooLarge owner => answer (fun _ => .done) (self.markValueTooLarge owner)
  | .pushRow owner row => answer .pushed (self.pushRow layout owner row)
  | .finishSession owner effect => answer .session (self.finishSession owner effect)
  | .finishSessionWithLifecycle owner effect lifecycle =>
    answer .session (self.finishSessionWithLifecycle owner effect lifecycle)
  | .finishSessionState owner effect lifecycle =>
    answer (fun _ => .done) (self.finishSessionState owner effect lifecycle)
  | .markPageReady owner pageIndex => answer (fun _ => .done) (self.markPageReady owner pageIndex)
  | .markNextPageReady owner => answer (fun _ => .done) (self.markNextPageReady owner)
  | .resultSession owner => answer .session (self.resultSession owner, self)
  | .page owner pageIndex => answer .page (self.page owner pageIndex, self)
  | .previous owner => answer .page (self.previous owner)
  | .next owner => answer .next (self.next owner)
  | .continuationPageIndex owner => answer .index (self.continuationPageIndex owner, self)
  | .completeNext owner pageIndex => answer .page (self.completeNext owner pageIndex)
  | .currentPage owner => answer .page (self.currentPage owner, self)
  | .release owner => answer (fun _ => .done) (self.release layout owner)
  | .releaseWithEffect owner effect => answer (fun _ => .done) (self.releaseWithEffect layout owner effect)
  | .discard owner => answer (fun _ => .done) (self.discard layout owner)
  | .releaseConnection identity => (.done, self.releaseConnection layout identity)

/-! ## Owned sessions -/

variable {owner : Owner}

variable {session : StoredSession}

variable {r : ResultSessionRegistry}

theorem owned_eq_ok :
    r.owned owner = .ok session ↔ r.validateActiveRun owner = .ok () ∧ r.sessions.get owner.key = some session ∧
      session.owner.ids = owner.ids := by
  unfold owned
  constructor
  · intro h
    split at h
    · cases h
    rename_i hv
    split at h
    · cases h
    rename_i s hs
    split at h
    · cases h
    rename_i ho
    cases h
    exact ⟨hv, hs, not_not.1 ho⟩
  · rintro ⟨hv, hs, ho⟩
    rw [hv, hs]
    exact if_neg (not_not.2 ho)

theorem get_put (h : r.sessions.get owner.key = some session) (session' : StoredSession) (key : String) :
    (r.put owner session').sessions.get key = if key = owner.key then some session' else r.sessions.get key :=
  HashMap.get_set h session' key

theorem owned_put (session' : StoredSession) (h : r.owned owner = .ok session) (ho : session'.owner = session.owner) :
    (r.put owner session').owned owner = .ok session' := by
  obtain ⟨hv, hs, hi⟩ := owned_eq_ok.1 h
  refine owned_eq_ok.2 ⟨hv, ?_, by rw [ho, hi]⟩
  rw [get_put hs, if_pos rfl]

end ResultSessionRegistry

/-! ## What an operation can do -/

namespace StoredSession

/-- The cursor is on a published page, or at the start; only pages that exist are published. -/
structure Bounded (session : StoredSession) : Prop where
  current : session.currentPage < max 1 session.readyPages
  ready : session.readyPages ≤ session.pages.items.length

def Latched (session : StoredSession) : Prop := session.valueTooLarge = true ∨ session.resultLimitReached = true

end StoredSession

/-- What an operation that stores no row can do to the session it was called for. -/
structure Edited (call : Call) (reply : Reply) (s s' : StoredSession) : Prop where
  owner : s'.owner = s.owner
  mapKeyCapacity : s'.mapKeyCapacity = s.mapKeyCapacity
  columns : s'.columns = s.columns
  pages : s'.pages = s.pages
  bytes : s'.bytes = s.bytes
  bounded : s.Bounded → s'.Bounded
  latched : s.Latched → s'.Latched
  refusal : ∀ owner row outcome, call = .pushRow owner row → reply = .pushed outcome →
    outcome ≠ .stored ∧ s'.Latched
  accepted : s.Bounded → ∀ error, reply ≠ .refused error

def Quiet (r : ResultSessionRegistry) (call : Call) (reply : Reply) : Prop :=
  (∀ owner row outcome, call = .pushRow owner row → reply = .pushed outcome →
    outcome ≠ .stored ∧ ∃ session, r.sessions.get owner.key = some session ∧ session.Latched) ∧
  ∀ owner columns, call = .beginSession owner columns → reply ≠ .done

theorem Quiet.refused (r : ResultSessionRegistry) (call : Call) (error : SessionError) :
    Quiet r call (.refused error) := ⟨nofun, nofun⟩

/-- The row passes every check of `push_row`, at this charge. -/
structure Stores (layout : Layout) (r : ResultSessionRegistry) (owner : Owner) (row : Row) (session : StoredSession)
    (rowBytes : Nat) : Prop where
  owned : r.owned owner = .ok session
  small : session.valueTooLarge = false
  unlimited : session.resultLimitReached = false
  classified : classifyConvertedRow layout row r.fieldLimit r.rowLimit = .ok rowBytes
  fitsSession : estimateSessionAfterPush layout owner.resultSessionId.capacity session.mapKeyCapacity session rowBytes ≤
    r.sessionLimit
  fitsProcess : satAdd (r.totalBytes - session.bytes)
    (estimateSessionAfterPush layout owner.resultSessionId.capacity session.mapKeyCapacity session rowBytes) ≤
      r.processLimit

/-- What the appended row adds to the account, by the capacities before and after. -/
def pushCharge (session : StoredSession) (row : Row) (rowBytes : Nat) : Nat :=
  satAdd (satAdd rowBytes (satMul
    (((session.appended row).items.getLast (session.appended_ne row)).capacity -
      if session.needsNewPage then 0 else session.lastPage.capacity) VEC_BYTES))
    (satMul ((session.appended row).capacity - session.pages.capacity) VEC_BYTES)

def StoredSession.withRow (session : StoredSession) (row : Row) (charge : Nat) : StoredSession :=
  { session with
    pages := session.appended row
    bytes := satAdd session.bytes charge
    paged := session.appended_ne row }

/-- The session passes every check of `begin_session`. -/
structure Opens (layout : Layout) (r : ResultSessionRegistry) (owner : Owner) (columns : Vec HeapString) : Prop where
  active : r.validateActiveRun owner = .ok ()
  fresh : r.sessions.get owner.key = none
  fitsSession : estimateSessionRetainedBytes layout owner.resultSessionId.clone.capacity
    (ResultSessionRegistry.probe owner columns) ≤ r.sessionLimit
  fitsProcess : satAdd (satAdd r.totalBytes (estimateSessionRetainedBytes layout owner.resultSessionId.clone.capacity
    (ResultSessionRegistry.probe owner columns)))
      (mapInsertGrowthBytes layout r.sessions.size r.sessions.capacity) ≤ r.processLimit

/-- The session that a `begin_session` stores. -/
def openedSession (layout : Layout) (owner : Owner) (columns : Vec HeapString) : StoredSession :=
  { ResultSessionRegistry.probe owner columns with
    mapKeyCapacity := owner.key.utf8ByteSize
    bytes := estimateSessionRetainedBytes layout owner.key.utf8ByteSize (ResultSessionRegistry.probe owner columns) }

/-- **What an operation can do to the registry**, with its guards. -/
inductive Moved (layout : Layout) (r : ResultSessionRegistry) : Call → Reply → ResultSessionRegistry → Prop
  | kept (call : Call) (reply : Reply) : Quiet r call reply → Moved layout r call reply r
  | edited (owner : Owner) (call : Call) (reply : Reply) (session session' : StoredSession) :
      r.owned owner = .ok session → call.owner = some owner → (∀ columns, call ≠ .beginSession owner columns) →
      Edited call reply session session' → Moved layout r call reply (r.put owner session')
  | pushed (owner : Owner) (row : Row) (session : StoredSession) (rowBytes : Nat) :
      Stores layout r owner row session rowBytes →
      Moved layout r (.pushRow owner row) (.pushed .stored)
        { r.put owner (session.withRow row (pushCharge session row rowBytes)) with
          totalBytes := satAdd r.totalBytes (pushCharge session row rowBytes) }
  | opened (owner : Owner) (columns : Vec HeapString) :
      Opens layout r owner columns →
      Moved layout r (.beginSession owner columns) .done
        (ResultSessionRegistry.refreshAccounting layout
          { r with sessions := r.sessions.insert owner.key (openedSession layout owner columns) })
  | removed (owner : Owner) (call : Call) (session : StoredSession) :
      r.owned owner = .ok session → call.owner = some owner → (∀ row, call ≠ .pushRow owner row) →
      (∀ columns, call ≠ .beginSession owner columns) →
      Moved layout r call .done (r.removed layout owner.key)
  | begun (owner : QueryRunOwner String) : Moved layout r (.beginRun owner) .done (r.beginRun layout owner)
  | disconnected (identity : ConnectionIdentity String) :
      Moved layout r (.releaseConnection identity) .done (r.releaseConnection layout identity)

namespace ResultSessionRegistry

variable {layout : Layout} {r : ResultSessionRegistry} {call : Call} {α : Type} {reply : α → Reply}

/-- The shape of a move that answers through `answer`. -/
def MovedTo {α : Type} (layout : Layout) (r : ResultSessionRegistry) (call : Call) (reply : α → Reply)
    (outcome : Outcome α) : Prop := Moved layout r call (answer reply outcome).1 (answer reply outcome).2

theorem moved_error (error : SessionError) :
    MovedTo layout r call reply (.error error, r) := .kept call _ (.refused r call error)

theorem moved_onSession {owner : Owner} {f : StoredSession → Outcome α}
    (h : ∀ session, r.owned owner = .ok session → MovedTo layout r call reply (f session)) :
    MovedTo layout r call reply (r.onSession owner f) := by
  unfold onSession
  split
  · exact moved_error _
  · rename_i session hs
    exact h session hs

theorem moved_reading (outcome : Except SessionError α)
    (h : ∀ a, Quiet r call (reply a)) : MovedTo layout r call reply (outcome, r) := by
  cases outcome with
  | error e => exact moved_error e
  | ok a => exact .kept call _ (h a)

theorem moved_put {owner : Owner} {session session' : StoredSession}
    {outcome : Except SessionError α} (ho : r.owned owner = .ok session) (hc : call.owner = some owner)
    (hb : ∀ columns, call ≠ .beginSession owner columns) (hr : ∀ a error, reply a ≠ .refused error)
    (hok : session.Bounded → ∃ a, outcome = .ok a)
    (he : ∀ answered, (session.Bounded → ∀ error, answered ≠ .refused error) → Edited call answered session session') :
    MovedTo layout r call reply (outcome, r.put owner session') := by
  cases outcome with
  | error e =>
    refine .edited owner call _ session session' ho hc hb (he _ fun hs => ?_)
    obtain ⟨a, ha⟩ := hok hs
    cases ha
  | ok a => exact .edited owner call _ session session' ho hc hb (he _ fun _ => hr a)

theorem markResultLimitReached_moved (owner : Owner) :
    MovedTo layout r (.markResultLimitReached owner) (fun _ => .done) (r.markResultLimitReached owner) :=
  moved_onSession fun _ hs => moved_put hs rfl nofun nofun (fun _ => ⟨(), rfl⟩) fun _ hok =>
    ⟨rfl, rfl, rfl, rfl, rfl, fun h => ⟨h.current, h.ready⟩, fun _ => .inr rfl, nofun, hok⟩

theorem markValueTooLarge_moved (owner : Owner) :
    MovedTo layout r (.markValueTooLarge owner) (fun _ => .done) (r.markValueTooLarge owner) :=
  moved_onSession fun _ hs => moved_put hs rfl nofun nofun (fun _ => ⟨(), rfl⟩) fun _ hok =>
    ⟨rfl, rfl, rfl, rfl, rfl, fun h => ⟨h.current, h.ready⟩, fun _ => .inl rfl, nofun, hok⟩

theorem pushRow_moved (owner : Owner) (row : Row) :
    MovedTo layout r (.pushRow owner row) .pushed (r.pushRow layout owner row) := by
  refine moved_onSession fun session hs => ?_
  have hget := (owned_eq_ok.1 hs).2.1
  have latched : ∀ outcome, outcome ≠ .stored → session.Latched →
      MovedTo layout r (.pushRow owner row) .pushed (.ok outcome, r) := by
    intro outcome ho hl
    refine .kept _ _ ⟨fun owner' row' outcome' hc hr => ?_, nofun⟩
    obtain ⟨rfl, rfl⟩ := Call.pushRow.inj hc
    obtain rfl := Reply.pushed.inj hr
    exact ⟨ho, session, hget, hl⟩
  have edited : ∀ outcome session', outcome ≠ .stored → session'.Latched →
      (∀ answered, (∀ owner row outcome', Call.pushRow owner row = Call.pushRow owner row → answered = .pushed outcome' →
        outcome' ≠ .stored ∧ session'.Latched) → (session.Bounded → ∀ error, answered ≠ .refused error) →
          Edited (.pushRow owner row) answered session session') →
      MovedTo layout r (.pushRow owner row) .pushed (.ok outcome, r.put owner session') := by
    intro outcome session' ho hl he
    refine .edited owner _ _ session session' hs rfl nofun (he _ (fun _ _ outcome' _ hr => ?_) nofun)
    obtain rfl := Reply.pushed.inj hr
    exact ⟨ho, hl⟩
  split
  · rename_i hl
    exact latched _ nofun (.inl hl)
  rename_i hsmall
  split
  · rename_i hl
    exact latched _ nofun (.inr hl)
  rename_i hunlimited
  split
  · exact edited _ _ nofun (.inl rfl) fun _ h hok =>
      ⟨rfl, rfl, rfl, rfl, rfl, fun h => ⟨h.current, h.ready⟩, fun _ => .inl rfl,
        fun owner row outcome _ hr => h owner row outcome rfl hr, hok⟩
  · rename_i rowBytes hrow
    dsimp only
    split
    · exact edited _ _ nofun (.inr rfl) fun _ h hok =>
        ⟨rfl, rfl, rfl, rfl, rfl, fun h => ⟨h.current, h.ready⟩, fun _ => .inr rfl,
          fun owner row outcome _ hr => h owner row outcome rfl hr, hok⟩
    · rename_i hfits
      rw [not_or, Nat.not_lt, Nat.not_lt] at hfits
      exact .pushed owner row session rowBytes
        ⟨hs, by simpa using hsmall, by simpa using hunlimited, hrow, hfits.1, hfits.2⟩

/-- An operation on its owner's session that neither opens one nor pushes a row. -/
structure Plain (call : Call) (owner : Owner) : Prop where
  calls : call.owner = some owner
  opens : ∀ columns, call ≠ .beginSession owner columns
  pushes : ∀ row, call ≠ .pushRow owner row

theorem Plain.edited {owner : Owner} (h : Plain call owner) (reply : Reply) {s s' : StoredSession}
    (hok : s.Bounded → ∀ error, reply ≠ .refused error) (ho : s'.owner = s.owner) (hk : s'.mapKeyCapacity = s.mapKeyCapacity) (hc : s'.columns = s.columns)
    (hp : s'.pages = s.pages) (hb : s'.bytes = s.bytes) (hl : s.Latched → s'.Latched) (hbd : s.Bounded → s'.Bounded) :
    Edited call reply s s' := by
  refine ⟨ho, hk, hc, hp, hb, hbd, hl, ?_, hok⟩
  rintro owner' row outcome rfl _
  obtain rfl := Option.some.inj h.calls
  exact (h.pushes row rfl).elim

theorem Plain.cursor {owner : Owner} (h : Plain call owner) (reply : Reply) (session : StoredSession)
    {pageIndex : Nat} (hok : session.Bounded → ∀ error, reply ≠ .refused error)
    (hi : session.Bounded → pageIndex < max 1 session.readyPages) :
    Edited call reply session { session with currentPage := pageIndex } :=
  h.edited reply hok rfl rfl rfl rfl rfl id fun hs => ⟨hi hs, hs.ready⟩

def finished {α : Type} (outcome : StoredSession → Except SessionError α) : Outcome StoredSession → Outcome α
  | (.error e, next) => (.error e, next)
  | (.ok session, next) => (outcome session, next)

theorem finishStoredSession_moved {owner : Owner}
    {effect : EffectOutcome} {lifecycle : SessionLifecycle} {outcome : StoredSession → Except SessionError α}
    (h : Plain call owner) (hr : ∀ a error, reply a ≠ .refused error)
    (hok : ∀ session, session.readyPages = session.pages.items.length → ∃ a, outcome session = .ok a) :
    MovedTo layout r call reply (finished outcome (r.finishStoredSession owner effect lifecycle)) := by
  unfold finishStoredSession onSession
  cases hs : r.owned owner with
  | error e => exact moved_error e
  | ok session =>
    refine moved_put hs h.calls h.opens hr (fun _ => hok _ rfl) fun answered hans =>
      h.edited answered hans rfl rfl rfl rfl rfl id fun hb => ⟨?_, Nat.le_refl _⟩
    have h1 := hb.current
    have h2 := hb.ready
    dsimp only
    omega

theorem finishSessionWithLifecycle_moved {owner : Owner} (effect : EffectOutcome)
    (lifecycle : SessionLifecycle) (h : Plain call owner) :
    MovedTo layout r call .session (r.finishSessionWithLifecycle owner effect lifecycle) := by
  have heq : r.finishSessionWithLifecycle owner effect lifecycle =
      finished (fun session => (pageFromSession session 0).map fun initialPage => ⟨owner, session.columns, initialPage⟩)
        (r.finishStoredSession owner effect lifecycle) := by
    unfold finishSessionWithLifecycle
    rcases r.finishStoredSession owner effect lifecycle with ⟨_ | session, next⟩
    · rfl
    · dsimp only [finished]
      cases pageFromSession session 0 <;> rfl
  rw [heq]
  refine finishStoredSession_moved h (fun _ _ => nofun) fun session hready => ?_
  have hpos : 0 < session.pages.items.length := List.length_pos_iff.2 session.paged
  obtain ⟨page, hp⟩ := pageFromSession_of_lt session (hready ▸ hpos) hpos
  rw [hp]
  exact ⟨_, rfl⟩

theorem finishSessionState_moved (owner : Owner) (effect : EffectOutcome) (lifecycle : SessionLifecycle) :
    MovedTo layout r (.finishSessionState owner effect lifecycle) (fun _ => .done)
      (r.finishSessionState owner effect lifecycle) := by
  have heq : r.finishSessionState owner effect lifecycle =
      finished (fun _ => .ok ()) (r.finishStoredSession owner effect lifecycle) := by
    unfold finishSessionState
    rcases r.finishStoredSession owner effect lifecycle with ⟨_ | _, _⟩ <;> rfl
  rw [heq]
  refine finishStoredSession_moved ?_ (fun _ _ => nofun) fun _ _ => ⟨(), rfl⟩
  exact ⟨rfl, nofun, nofun⟩

theorem markPageReady_moved {owner : Owner} (pageIndex : Nat) (h : Plain call owner) :
    MovedTo layout r call (fun _ => .done) (r.markPageReady owner pageIndex) := by
  refine moved_onSession fun session hs => ?_
  split
  · exact moved_error _
  split
  · exact moved_error _
  · refine moved_put hs h.calls h.opens (fun _ _ => nofun) (fun _ => ⟨(), rfl⟩) fun answered hok =>
      h.edited answered hok rfl rfl rfl rfl rfl id fun hb => ?_
    have h1 := hb.current
    have h2 := hb.ready
    constructor
    · dsimp only
      omega
    · dsimp only
      omega

section
variable (owner : Owner)
include owner

theorem markNextPageReady_moved :
    MovedTo layout r (.markNextPageReady owner) (fun _ => .done) (r.markNextPageReady owner) := by
  unfold markNextPageReady
  split
  · exact moved_error _
  · exact markPageReady_moved _ ⟨rfl, nofun, nofun⟩

theorem previous_moved : MovedTo layout r (.previous owner) .page (r.previous owner) := by
  have plain : Plain (.previous owner) owner := ⟨rfl, nofun, nofun⟩
  refine moved_onSession fun session hs => ?_
  split
  · exact moved_error _
  refine moved_put hs plain.calls plain.opens (fun _ _ => nofun) (fun h => ?_) fun answered hok =>
    plain.cursor answered session hok fun h => Nat.lt_of_le_of_lt (Nat.sub_le _ _) h.current
  have h1 := h.current
  have h2 := h.ready
  apply pageFromSession_of_lt
  · dsimp only
    omega
  · dsimp only
    omega

theorem next_moved : MovedTo layout r (.next owner) .next (r.next owner) := by
  have plain : Plain (.next owner) owner := ⟨rfl, nofun, nofun⟩
  refine moved_onSession fun session hs => ?_
  split
  · exact moved_error _
  dsimp only
  split
  · rename_i hready
    refine moved_put hs plain.calls plain.opens (fun _ _ => nofun) (fun h => ?_) fun answered hok =>
      plain.cursor answered session hok fun _ => Nat.lt_of_lt_of_le hready (Nat.le_max_right _ _)
    obtain ⟨page, hp⟩ := pageFromSession_of_lt { session with currentPage := nextIndex session } hready
      (Nat.lt_of_lt_of_le hready h.ready)
    rw [hp]
    exact ⟨_, rfl⟩
  split
  · exact .kept _ _ ⟨nofun, nofun⟩
  · exact moved_error _

theorem completeNext_moved (pageIndex : Nat) :
    MovedTo layout r (.completeNext owner pageIndex) .page (r.completeNext owner pageIndex) := by
  have plain : Plain (.completeNext owner pageIndex) owner := ⟨rfl, nofun, nofun⟩
  unfold completeNext
  split
  · exact moved_error _
  rename_i hv
  split
  · exact moved_error _
  rename_i session hget
  split
  · exact moved_error _
  · rename_i h
    rw [not_or, not_or, not_not, Nat.not_le] at h
    exact moved_put (owned_eq_ok.2 ⟨hv, hget, h.1⟩) plain.calls plain.opens (fun _ _ => nofun)
      (fun hs => pageFromSession_of_lt _ h.2.2 (Nat.lt_of_lt_of_le h.2.2 hs.ready)) fun answered hok =>
        plain.cursor answered session hok fun _ => Nat.lt_of_lt_of_le h.2.2 (Nat.le_max_right _ _)

theorem release_moved : MovedTo layout r (.release owner) (fun _ => .done) (r.release layout owner) := by
  have plain : Plain (.release owner) owner := ⟨rfl, nofun, nofun⟩
  refine moved_onSession fun session hs => ?_
  split
  · exact .removed owner _ session hs plain.calls plain.pushes plain.opens
  · exact moved_put hs plain.calls plain.opens (fun _ _ => nofun) (fun _ => ⟨(), rfl⟩) fun answered hok =>
      plain.edited answered hok rfl rfl rfl rfl rfl id fun h => ⟨h.current, h.ready⟩

theorem releaseWithEffect_moved (effect : EffectOutcome) :
    MovedTo layout r (.releaseWithEffect owner effect) (fun _ => .done) (r.releaseWithEffect layout owner effect) := by
  have plain : Plain (.releaseWithEffect owner effect) owner := ⟨rfl, nofun, nofun⟩
  refine moved_onSession fun session hs => ?_
  have hown := owned_put { session with effectOutcome := effect } hs rfl
  unfold release onSession
  rw [hown]
  dsimp only
  split
  · have hrem : (r.put owner { session with effectOutcome := effect }).removed layout owner.key =
        r.removed layout owner.key := by
      unfold removed put
      rw [HashMap.remove_set]
    rw [hrem]
    exact .removed owner _ session hs plain.calls plain.pushes plain.opens
  · have hput : (r.put owner { session with effectOutcome := effect }).put owner
        { session with effectOutcome := effect, lifecycle := .released } =
          r.put owner { session with effectOutcome := effect, lifecycle := .released } := by
      unfold put
      rw [HashMap.set_set]
    rw [hput]
    exact moved_put hs plain.calls plain.opens (fun _ _ => nofun) (fun _ => ⟨(), rfl⟩) fun answered hok =>
      plain.edited answered hok rfl rfl rfl rfl rfl id fun h => ⟨h.current, h.ready⟩

theorem discard_moved : MovedTo layout r (.discard owner) (fun _ => .done) (r.discard layout owner) :=
  moved_onSession fun session hs => .removed owner _ session hs rfl nofun nofun

theorem beginSession_moved (columns : Vec HeapString) :
    MovedTo layout r (.beginSession owner columns) (fun _ => .done) (r.beginSession layout owner columns) := by
  unfold beginSession
  split
  · exact moved_error _
  rename_i hv
  dsimp only
  split
  · exact moved_error _
  rename_i hkey
  split
  · exact moved_error _
  · rename_i hfits
    rw [not_or, Nat.not_lt, Nat.not_lt] at hfits
    exact .opened owner columns ⟨hv, Table.contains_eq_false.1 (Bool.not_eq_true _ ▸ hkey), hfits.1, hfits.2⟩

end

/-- **Every operation moves the registry in one of the listed ways.** -/
theorem step_moved (layout : Layout) (r : ResultSessionRegistry) (call : Call) :
    Moved layout r call (r.step layout call).1 (r.step layout call).2 := by
  cases call with
  | beginRun owner => exact .begun owner
  | beginSession owner columns => exact beginSession_moved owner columns
  | markResultLimitReached owner => exact markResultLimitReached_moved owner
  | markValueTooLarge owner => exact markValueTooLarge_moved owner
  | pushRow owner row => exact pushRow_moved owner row
  | finishSession owner effect => exact finishSessionWithLifecycle_moved effect .complete ⟨rfl, nofun, nofun⟩
  | finishSessionWithLifecycle owner effect lifecycle =>
    exact finishSessionWithLifecycle_moved effect lifecycle ⟨rfl, nofun, nofun⟩
  | finishSessionState owner effect lifecycle => exact finishSessionState_moved owner effect lifecycle
  | markPageReady owner pageIndex => exact markPageReady_moved pageIndex ⟨rfl, nofun, nofun⟩
  | markNextPageReady owner => exact markNextPageReady_moved owner
  | resultSession owner | page owner pageIndex | continuationPageIndex owner | currentPage owner =>
    exact moved_reading _ fun _ => ⟨fun _ _ _ => nofun, fun _ _ => nofun⟩
  | previous owner => exact previous_moved owner
  | next owner => exact next_moved owner
  | completeNext owner pageIndex => exact completeNext_moved owner pageIndex
  | release owner => exact release_moved owner
  | releaseWithEffect owner effect => exact releaseWithEffect_moved owner effect
  | discard owner => exact discard_moved owner
  | releaseConnection identity => exact .disconnected identity

end ResultSessionRegistry

end Results
end Yuzora
