import Yuzora.ConnectionActor
import Yuzora.Allocations
/-!
# ResultSessions — the registry of materialized query results

`ResultSessionRegistry` with its account of retained memory.  A session always has a page, so that is a field; the sizes
of two compound types, which the compiler chooses, are a parameter.
-/
namespace Yuzora
namespace Results

open Db (ConnectionIdentity QueryRunOwner)

def RESULT_PAGE_ROWS : Nat := 500

inductive DbValue
  | null
  | boolean (value : Bool)
  | integer (value : HeapString)
  | decimal (value : HeapString)
  | text (value : HeapString)
  | json (value : HeapString)
  | date (value : HeapString)
  | time (value : HeapString)
  | dateTime (value : HeapString)
  | binary (hex : HeapString)

abbrev Row := Vec DbValue

inductive EffectOutcome
  | none | committed | rolledBack | transactionPending | unknown
  deriving DecidableEq

inductive SessionLifecycle
  | streaming | complete | released | cancelled | error
  deriving DecidableEq

inductive ResultLimitKind
  | field | row
  deriving DecidableEq

inductive PushRowOutcome
  | stored | limitReached | valueTooLarge
  deriving DecidableEq

inductive SessionError
  | ownerMismatch | sessionAlreadyExists | sessionNotFound | pageNotFound | budgetExceeded
  deriving DecidableEq

abbrev Owner := Db.ResultSessionOwner HeapString

def Owner.ids (owner : Owner) : Db.ResultSessionOwner String :=
  { descriptorId := owner.descriptorId.text
    connectionId := owner.connectionId.text
    connectionGeneration := owner.connectionGeneration.text
    queryRunId := owner.queryRunId.text
    statementExecutionId := owner.statementExecutionId.text
    resultSessionId := owner.resultSessionId.text }

abbrev Owner.key (owner : Owner) : String := owner.resultSessionId.text

structure StoredSession where
  owner : Owner
  mapKeyCapacity : Nat
  columns : Vec HeapString
  pages : Vec (Vec Row)
  readyPages : Nat
  currentPage : Nat
  bytes : Nat
  effectOutcome : EffectOutcome
  lifecycle : SessionLifecycle
  resultLimitReached : Bool
  valueTooLarge : Bool
  paged : pages.items ≠ []

structure ResultPage where
  owner : Owner
  pageIndex : Nat
  columns : Vec HeapString
  rows : Vec Row
  hasPrevious : Bool
  hasNext : Bool
  effectOutcome : EffectOutcome
  lifecycle : SessionLifecycle
  resultLimitReached : Bool
  valueTooLarge : Bool

structure ResultSession where
  owner : Owner
  columns : Vec HeapString
  initialPage : ResultPage

inductive NextPage
  | cached (page : ResultPage)
  | continue (pageIndex : Nat)

structure ResultSessionRegistry where
  sessions : HashMap StoredSession
  activeRuns : Table String (QueryRunOwner String)
  fieldLimit : Nat
  rowLimit : Nat
  sessionLimit : Nat
  processLimit : Nat
  totalBytes : Nat

/-! ## What memory is charged -/

/-- `size_of::<DbValue>()` and `size_of::<(String, StoredSession)>()` -/
structure Layout where
  dbValue : Nat
  entry : Nat

/-- `size_of` of any vector, and of a string -/
def VEC_BYTES : Nat := 24

/-- `size_of::<usize>()` -/
def WORD_BYTES : Nat := 8

def HASH_MAP_SLOT_MULTIPLIER : Nat := 2

/-- `db_value_retained_bytes` -/
def DbValue.retainedBytes : DbValue → Nat
  | .null | .boolean _ => 0
  | .integer value | .decimal value | .text value | .json value | .date value | .time value | .dateTime value =>
    value.capacity
  | .binary hex => hex.capacity

/-- The bytes that `classify_converted_row` holds against the field limit. -/
def DbValue.rawBytes (value : DbValue) : Nat :=
  match value with
  | .binary hex => hex.text.utf8ByteSize / 2
  | _ => value.retainedBytes

section Estimates
variable (layout : Layout)

def sessionMapSlotBytes : Nat := satAdd layout.entry WORD_BYTES

def estimateResultOwnerHeapBytes (owner : Owner) : Nat :=
  [owner.descriptorId, owner.connectionId, owner.connectionGeneration, owner.queryRunId, owner.statementExecutionId,
    owner.resultSessionId].foldl (fun total value => satAdd total value.capacity) 0

def estimateRowHeapBytes (row : Row) : Nat :=
  row.items.foldl (fun total value => satAdd total value.retainedBytes) (satMul row.capacity layout.dbValue)

def estimatePagesRetainedBytes (pages : Vec (Vec Row)) : Nat :=
  pages.items.foldl
    (fun pageTotal page =>
      page.items.foldl (fun rowTotal row => satAdd rowTotal (estimateRowHeapBytes layout row))
        (satAdd pageTotal (satMul page.capacity VEC_BYTES)))
    (satMul pages.capacity VEC_BYTES)

def estimateColumnsRetainedBytes (columns : Vec HeapString) : Nat :=
  columns.items.foldl (fun total column => satAdd total column.capacity) (satMul columns.capacity VEC_BYTES)

/-- `estimate_session_retained_bytes`, which reads only the key's capacity. -/
def estimateSessionRetainedBytes (keyCapacity : Nat) (session : StoredSession) : Nat :=
  satAdd (satAdd (satAdd (satAdd (sessionMapSlotBytes layout) keyCapacity) (estimateResultOwnerHeapBytes session.owner))
    (estimateColumnsRetainedBytes session.columns)) (estimatePagesRetainedBytes layout session.pages)

def estimateRegistryRetainedBytes (sessions : HashMap StoredSession) : Nat :=
  let occupied := sessions.table.values.foldl (fun total session => satAdd total session.bytes) 0
  let conservativeSlots := satMul sessions.capacity HASH_MAP_SLOT_MULTIPLIER
  let spareSlots := conservativeSlots - sessions.size
  satAdd occupied (satMul spareSlots (sessionMapSlotBytes layout))

def nextVecCapacity : Nat → Nat
  | 0 => 4
  | n => satMul n 2

def mapInsertGrowthBytes (len capacity : Nat) : Nat :=
  if len < capacity then 0
  else satMul (nextVecCapacity capacity - capacity) (sessionMapSlotBytes layout)

def StoredSession.lastPage (session : StoredSession) : Vec Row := session.pages.items.getLast session.paged

def StoredSession.needsNewPage (session : StoredSession) : Bool :=
  session.lastPage.items.length = RESULT_PAGE_ROWS

def estimateSessionAfterPush (keyCapacity storedKeyCapacity : Nat) (session : StoredSession) (rowBytes : Nat) : Nat :=
  let current :=
    if session.bytes = usizeMax then estimateSessionRetainedBytes layout keyCapacity session
    else satAdd (session.bytes - storedKeyCapacity) keyCapacity
  let lastLen := session.lastPage.items.length
  let lastCap := session.lastPage.capacity
  let extraPageSlots :=
    if session.needsNewPage ∧ session.pages.items.length = session.pages.capacity then
      satMul (nextVecCapacity session.pages.capacity - session.pages.capacity) VEC_BYTES
    else 0
  let pageCapNow := if session.needsNewPage then 0 else lastCap
  let pageLenNow := if session.needsNewPage then 0 else lastLen
  let extraRowSlots :=
    if pageLenNow = pageCapNow then satMul (nextVecCapacity pageCapNow - pageCapNow) VEC_BYTES else 0
  satAdd (satAdd (satAdd current extraPageSlots) extraRowSlots) rowBytes

/-- The loop of `classify_converted_row` over the values that are left. -/
def classifyValues (fieldLimit rowLimit : Nat) : Nat → List DbValue → Except ResultLimitKind Nat
  | used, [] => .ok used
  | used, value :: rest =>
    let retained := value.retainedBytes
    if fieldLimit < value.rawBytes then .error .field
    else
      let used := satAdd used retained
      if rowLimit < used then .error .row else classifyValues fieldLimit rowLimit used rest

def classifyConvertedRow (row : Row) (fieldLimit rowLimit : Nat) : Except ResultLimitKind Nat :=
  classifyValues fieldLimit rowLimit (satMul row.capacity layout.dbValue) row.items

end Estimates

/-! ## A session -/

variable (session : StoredSession)

def pageFromSession (pageIndex : Nat) : Except SessionError ResultPage :=
  if session.readyPages ≤ pageIndex then .error .pageNotFound
  else
    match session.pages.items[pageIndex]? with
    | none => .error .pageNotFound
    | some rows =>
      .ok { owner := session.owner
            pageIndex
            columns := session.columns
            rows
            hasPrevious := 0 < pageIndex
            hasNext := session.lifecycle ≠ .released ∧ (pageIndex + 1 < session.readyPages ∨
              session.lifecycle = .streaming ∧ pageIndex + 1 < session.pages.items.length)
            effectOutcome := session.effectOutcome
            lifecycle := session.lifecycle
            resultLimitReached := session.resultLimitReached
            valueTooLarge := session.valueTooLarge }

theorem pageFromSession_of_lt {pageIndex : Nat} (hready : pageIndex < session.readyPages)
    (hlen : pageIndex < session.pages.items.length) : ∃ page, pageFromSession session pageIndex = .ok page := by
  unfold pageFromSession
  rw [if_neg (Nat.not_le.2 hready), List.getElem?_eq_getElem hlen]
  exact ⟨_, rfl⟩

/-- `push_row`'s append: a new page if the last is full, then the row. -/
def StoredSession.appended (row : Row) : Vec (Vec Row) :=
  if session.needsNewPage then
    (session.pages.push .new).setLast (session.pages.push_ne _) (Vec.new.push row)
  else session.pages.setLast session.paged (session.lastPage.push row)

theorem StoredSession.appended_ne (row : Row) : (session.appended row).items ≠ [] := by
  unfold appended
  split
  · rw [Vec.items_setLast]
    exact List.append_ne_nil_of_right_ne_nil _ (List.cons_ne_nil _ _)
  · rw [Vec.items_setLast]
    exact List.append_ne_nil_of_right_ne_nil _ (List.cons_ne_nil _ _)

/-! ## The registry -/

namespace ResultSessionRegistry

def withCeilings (fieldLimit rowLimit sessionLimit processLimit : Nat) : ResultSessionRegistry :=
  { sessions := .new, activeRuns := .empty, fieldLimit, rowLimit, sessionLimit, processLimit, totalBytes := 0 }

variable (self : ResultSessionRegistry)

def validateActiveRun (owner : Owner) : Except SessionError Unit :=
  match self.activeRuns.get owner.descriptorId.text with
  | some active =>
    if active.descriptorId = owner.descriptorId.text ∧ active.connectionId = owner.connectionId.text ∧
        active.connectionGeneration = owner.connectionGeneration.text ∧ active.queryRunId = owner.queryRunId.text then
      .ok ()
    else .error .ownerMismatch
  | none => .error .ownerMismatch

/-- The checks that open nearly every operation: the active run, the session, and its exact owner. -/
def owned (owner : Owner) : Except SessionError StoredSession :=
  match self.validateActiveRun owner with
  | .error e => .error e
  | .ok _ =>
    match self.sessions.get owner.key with
    | none => .error .sessionNotFound
    | some session => if session.owner.ids ≠ owner.ids then .error .ownerMismatch else .ok session

def put (owner : Owner) (session : StoredSession) : ResultSessionRegistry :=
  { self with sessions := self.sessions.set owner.key session }

abbrev Outcome (α : Type) := Except SessionError α × ResultSessionRegistry

def onSession {α : Type} (self : ResultSessionRegistry) (owner : Owner) (f : StoredSession → Outcome α) : Outcome α :=
  match self.owned owner with
  | .error e => (.error e, self)
  | .ok session => f session

def markResultLimitReached (self : ResultSessionRegistry) (owner : Owner) : Outcome Unit :=
  self.onSession owner fun session => (.ok (), self.put owner { session with resultLimitReached := true })

def markValueTooLarge (self : ResultSessionRegistry) (owner : Owner) : Outcome Unit :=
  self.onSession owner fun session => (.ok (), self.put owner { session with valueTooLarge := true })

/-- `finish_stored_session`: the session after it, for the callers that answer with a page of it. -/
def finishStoredSession (self : ResultSessionRegistry) (owner : Owner) (effectOutcome : EffectOutcome)
    (lifecycle : SessionLifecycle) : Outcome StoredSession :=
  self.onSession owner fun session =>
    let session := { session with effectOutcome, lifecycle, readyPages := session.pages.items.length }
    (.ok session, self.put owner session)

def finishSessionWithLifecycle (owner : Owner) (effectOutcome : EffectOutcome)
    (lifecycle : SessionLifecycle) : Outcome ResultSession :=
  match self.finishStoredSession owner effectOutcome lifecycle with
  | (.error e, next) => (.error e, next)
  | (.ok session, next) =>
    match pageFromSession session 0 with
    | .error e => (.error e, next)
    | .ok initialPage => (.ok ⟨owner, session.columns, initialPage⟩, next)

def finishSession (owner : Owner) (effectOutcome : EffectOutcome) :
    Outcome ResultSession :=
  self.finishSessionWithLifecycle owner effectOutcome .complete

def finishSessionState (owner : Owner) (effectOutcome : EffectOutcome)
    (lifecycle : SessionLifecycle) : Outcome Unit :=
  let outcome := self.finishStoredSession owner effectOutcome lifecycle
  (outcome.1.map fun _ => (), outcome.2)

def markPageReady (self : ResultSessionRegistry) (owner : Owner) (pageIndex : Nat) : Outcome Unit :=
  self.onSession owner fun session =>
    if session.pages.items.length ≤ pageIndex then (.error .ownerMismatch, self)
    else if session.readyPages < pageIndex then (.error .pageNotFound, self)
    else (.ok (), self.put owner { session with readyPages := max session.readyPages (pageIndex + 1) })

def markNextPageReady (owner : Owner) : Outcome Unit :=
  match self.sessions.get owner.key with
  | none => (.error .sessionNotFound, self)
  | some session => self.markPageReady owner session.readyPages

/-- The answer of an operation that only reads the owner's session. -/
def reading {α : Type} (self : ResultSessionRegistry) (owner : Owner) (f : StoredSession → Except SessionError α) :
    Except SessionError α :=
  match self.owned owner with
  | .error e => .error e
  | .ok session => f session

def resultSession (self : ResultSessionRegistry) (owner : Owner) : Except SessionError ResultSession :=
  self.reading owner fun session =>
    (pageFromSession session 0).map fun initialPage => ⟨owner, session.columns, initialPage⟩

/-- `page` answers `OwnerMismatch` where the other operations answer `SessionNotFound`. -/
def page (owner : Owner) (pageIndex : Nat) : Except SessionError ResultPage :=
  match self.owned owner with
  | .error _ => .error .ownerMismatch
  | .ok session => pageFromSession session pageIndex

def previous (self : ResultSessionRegistry) (owner : Owner) : Outcome ResultPage :=
  self.onSession owner fun session =>
    if session.currentPage = 0 then (.error .pageNotFound, self)
    else
      let session := { session with currentPage := session.currentPage - 1 }
      (pageFromSession session session.currentPage, self.put owner session)

/-- `current_page.checked_add(1)`, which the index of a page never overflows. -/
def nextIndex (session : StoredSession) : Nat := session.currentPage + 1

def next (self : ResultSessionRegistry) (owner : Owner) : Outcome NextPage :=
  self.onSession owner fun session =>
    if session.lifecycle = .released then (.error .pageNotFound, self)
    else
      let pageIndex := nextIndex session
      if pageIndex < session.readyPages then
        let session := { session with currentPage := pageIndex }
        ((pageFromSession session pageIndex).map .cached, self.put owner session)
      else if session.lifecycle = .streaming ∧ pageIndex < session.pages.items.length then
        (.ok (.continue pageIndex), self)
      else (.error .pageNotFound, self)

def continuationPageIndex (self : ResultSessionRegistry) (owner : Owner) : Except SessionError Nat :=
  self.reading owner fun session =>
    let pageIndex := nextIndex session
    if session.lifecycle = .streaming ∧ pageIndex = session.readyPages ∧ pageIndex < session.pages.items.length then
      .ok pageIndex
    else .error .pageNotFound

/-- `complete_next` answers `PageNotFound` to another owner too. -/
def completeNext (owner : Owner) (pageIndex : Nat) : Outcome ResultPage :=
  match self.validateActiveRun owner with
  | .error e => (.error e, self)
  | .ok _ =>
    match self.sessions.get owner.key with
    | none => (.error .sessionNotFound, self)
    | some session =>
      if session.owner.ids ≠ owner.ids ∨ pageIndex ≠ nextIndex session ∨ session.readyPages ≤ pageIndex then
        (.error .pageNotFound, self)
      else
        let session := { session with currentPage := pageIndex }
        (pageFromSession session pageIndex, self.put owner session)

def currentPage (self : ResultSessionRegistry) (owner : Owner) : Except SessionError ResultPage :=
  self.reading owner fun session => pageFromSession session session.currentPage

section Accounted
variable (layout : Layout)

def refreshAccounting (self : ResultSessionRegistry) : ResultSessionRegistry :=
  { self with totalBytes := estimateRegistryRetainedBytes layout self.sessions }

def releaseDescriptor (self : ResultSessionRegistry) (descriptorId : String) : ResultSessionRegistry :=
  refreshAccounting layout { self with
    sessions := (self.sessions.retain fun session => session.owner.descriptorId.text ≠ descriptorId).shrinkToFit }

def beginRun (self : ResultSessionRegistry) (owner : QueryRunOwner String) : ResultSessionRegistry :=
  let self := self.releaseDescriptor layout owner.descriptorId
  { self with activeRuns := self.activeRuns.insert owner.descriptorId owner }

/-- The session that `begin_session` stores. -/
def probe (owner : Owner) (columns : Vec HeapString) : StoredSession :=
  { owner
    mapKeyCapacity := 0
    columns
    pages := .single .new
    readyPages := 0
    currentPage := 0
    bytes := 0
    effectOutcome := .unknown
    lifecycle := .streaming
    resultLimitReached := false
    valueTooLarge := false
    paged := by simp [Vec.single] }

def beginSession (self : ResultSessionRegistry) (owner : Owner) (columns : Vec HeapString) : Outcome Unit :=
  match self.validateActiveRun owner with
  | .error e => (.error e, self)
  | .ok _ =>
    let key := owner.resultSessionId.clone
    if self.sessions.table.contains key.text then (.error .sessionAlreadyExists, self)
    else
      let sessionBytes := estimateSessionRetainedBytes layout key.capacity (probe owner columns)
      let mapGrowth := mapInsertGrowthBytes layout self.sessions.size self.sessions.capacity
      let projectedProcess := satAdd (satAdd self.totalBytes sessionBytes) mapGrowth
      if self.sessionLimit < sessionBytes ∨ self.processLimit < projectedProcess then (.error .budgetExceeded, self)
      else
        let storedKey := key.clone
        (.ok (), refreshAccounting layout { self with
          sessions := self.sessions.insert storedKey.text
            { probe owner columns with mapKeyCapacity := storedKey.capacity, bytes := sessionBytes } })

def pushRow (self : ResultSessionRegistry) (owner : Owner) (row : Row) : Outcome PushRowOutcome :=
  self.onSession owner fun session =>
    if session.valueTooLarge then (.ok .valueTooLarge, self)
    else if session.resultLimitReached then (.ok .limitReached, self)
    else
      match classifyConvertedRow layout row self.fieldLimit self.rowLimit with
      | .error _ => (.ok .valueTooLarge, self.put owner { session with valueTooLarge := true })
      | .ok rowBytes =>
        let projectedSession :=
          estimateSessionAfterPush layout owner.resultSessionId.capacity session.mapKeyCapacity session rowBytes
        let processWithoutSession := self.totalBytes - session.bytes
        let projectedProcess := satAdd processWithoutSession projectedSession
        if self.sessionLimit < projectedSession ∨ self.processLimit < projectedProcess then
          (.ok .limitReached, self.put owner { session with resultLimitReached := true })
        else
          let pagesCapacityBefore := session.pages.capacity
          let rowsCapacityBefore := if session.needsNewPage then 0 else session.lastPage.capacity
          let pages := session.appended row
          let page := pages.items.getLast (session.appended_ne row)
          let addedBytes := satAdd (satAdd rowBytes (satMul (page.capacity - rowsCapacityBefore) VEC_BYTES))
            (satMul (pages.capacity - pagesCapacityBefore) VEC_BYTES)
          let stored := self.put owner
            { session with pages, bytes := satAdd session.bytes addedBytes, paged := session.appended_ne row }
          (.ok .stored, { stored with totalBytes := satAdd self.totalBytes addedBytes })

/-- `self.sessions.remove(key)`, with the map shrunk and the account refreshed. -/
def removed (self : ResultSessionRegistry) (key : String) : ResultSessionRegistry :=
  refreshAccounting layout { self with sessions := (self.sessions.remove key).shrinkToFit }

def release (self : ResultSessionRegistry) (owner : Owner) : Outcome Unit :=
  self.onSession owner fun session =>
    if session.readyPages = 0 then (.ok (), self.removed layout owner.key)
    else (.ok (), self.put owner { session with lifecycle := .released })

def releaseWithEffect (self : ResultSessionRegistry) (owner : Owner) (effectOutcome : EffectOutcome) : Outcome Unit :=
  self.onSession owner fun session => (self.put owner { session with effectOutcome }).release layout owner

def discard (self : ResultSessionRegistry) (owner : Owner) : Outcome Unit :=
  self.onSession owner fun _ => (.ok (), self.removed layout owner.key)

def ofConnection (identity : ConnectionIdentity String) (session : StoredSession) : Bool :=
  session.owner.descriptorId.text = identity.descriptorId && session.owner.connectionId.text = identity.connectionId &&
    session.owner.connectionGeneration.text = identity.connectionGeneration

def releaseConnection (self : ResultSessionRegistry) (identity : ConnectionIdentity String) : ResultSessionRegistry :=
  let sessions := (self.sessions.retain fun session => !ofConnection identity session).shrinkToFit
  let activeRuns :=
    match self.activeRuns.get identity.descriptorId with
    | some active =>
      if active.connectionId = identity.connectionId ∧
          active.connectionGeneration = identity.connectionGeneration then
        self.activeRuns.erase identity.descriptorId
      else self.activeRuns
    | none => self.activeRuns
  refreshAccounting layout { self with sessions, activeRuns }

end Accounted

end ResultSessionRegistry

end Results
end Yuzora
