import Yuzora.ResultMoves
/-!
# ResultAccounts — the memory account of the registry

What a session is charged is a saturated sum over what it holds, and stays so row by row.  The pre-checks predict less
than the real charge in two places: a full hash map grows further than a vector would, and a vector of one page grows to
four.
-/
namespace Yuzora
namespace Results

open List
open Db (ConnectionIdentity QueryRunOwner)

variable (layout : Layout)

/-! ## The charges as plain sums -/

def rowHeap (row : Row) : Nat := row.capacity * layout.dbValue + total DbValue.retainedBytes row.items

def pageHeap (page : Vec Row) : Nat := page.capacity * VEC_BYTES + total (rowHeap layout) page.items

def pagesHeap (pages : Vec (Vec Row)) : Nat := pages.capacity * VEC_BYTES + total (pageHeap layout) pages.items

def columnsHeap (columns : Vec HeapString) : Nat :=
  columns.capacity * VEC_BYTES + total HeapString.capacity columns.items

def ownerHeap (owner : Owner) : Nat :=
  total HeapString.capacity [owner.descriptorId, owner.connectionId, owner.connectionGeneration, owner.queryRunId,
    owner.statementExecutionId, owner.resultSessionId]

def fixedHeap (session : StoredSession) : Nat :=
  layout.entry + WORD_BYTES + ownerHeap session.owner + columnsHeap session.columns

def sessionHeap (keyCapacity : Nat) (session : StoredSession) : Nat :=
  fixedHeap layout session + keyCapacity + pagesHeap layout session.pages

theorem estimateRowHeapBytes_eq (row : Row) : estimateRowHeapBytes layout row = sat (rowHeap layout row) :=
  foldl_sat (fun n _ => sat_sat_add n _) row.items _

theorem estimatePagesRetainedBytes_eq (pages : Vec (Vec Row)) :
    estimatePagesRetainedBytes layout pages = sat (pagesHeap layout pages) := by
  refine foldl_sat (f := pageHeap layout) (fun n page => ?_) pages.items _
  unfold satMul
  rw [satAdd_sat, foldl_sat (f := rowHeap layout), pageHeap, Nat.add_assoc]
  intro m row
  rw [estimateRowHeapBytes_eq, satAdd_sat]

theorem estimateColumnsRetainedBytes_eq (columns : Vec HeapString) :
    estimateColumnsRetainedBytes columns = sat (columnsHeap columns) :=
  foldl_sat (fun n _ => sat_sat_add n _) columns.items _

theorem estimateResultOwnerHeapBytes_eq (owner : Owner) : estimateResultOwnerHeapBytes owner = sat (ownerHeap owner) := by
  unfold estimateResultOwnerHeapBytes ownerHeap
  rw [← sat_zero, foldl_sat (f := HeapString.capacity) fun n _ => sat_sat_add n _, Nat.zero_add]

theorem estimateSessionRetainedBytes_eq (keyCapacity : Nat) (session : StoredSession) :
    estimateSessionRetainedBytes layout keyCapacity session = sat (sessionHeap layout keyCapacity session) := by
  unfold estimateSessionRetainedBytes sessionMapSlotBytes
  rw [estimateResultOwnerHeapBytes_eq, estimateColumnsRetainedBytes_eq, estimatePagesRetainedBytes_eq]
  unfold satAdd sessionHeap fixedHeap
  simp only [sat_sat_add, sat_add_sat]
  congr 1
  omega

theorem estimateRegistryRetainedBytes_eq (sessions : HashMap StoredSession) :
    estimateRegistryRetainedBytes layout sessions =
      sat (sessions.sum StoredSession.bytes +
        (satMul sessions.capacity HASH_MAP_SLOT_MULTIPLIER - sessions.size) * sessionMapSlotBytes layout) := by
  have hsum : sessions.table.values.foldl (fun sum session => satAdd sum session.bytes) 0 =
      sat (sessions.sum StoredSession.bytes) := by
    rw [← sat_zero, foldl_sat (f := StoredSession.bytes) fun n _ => sat_sat_add n _, Nat.zero_add, HashMap.sum_eq]
  unfold estimateRegistryRetainedBytes
  rw [hsum]
  exact satAdd_sat _ _

theorem classifyValues_ok {fieldLimit rowLimit : Nat} : ∀ {values : List DbValue} {used bytes : Nat},
    classifyValues fieldLimit rowLimit (sat used) values = .ok bytes →
      bytes = sat (used + total DbValue.retainedBytes values)
  | [], _, _, h => (Except.ok.inj h).symm
  | value :: values, used, bytes, h => by
    unfold classifyValues at h
    dsimp only at h
    split at h
    · cases h
    split at h
    · cases h
    · unfold satAdd at h
      rw [sat_sat_add] at h
      rw [classifyValues_ok h, total, Nat.add_assoc]

theorem classifyConvertedRow_ok {row : Row} {fieldLimit rowLimit bytes : Nat}
    (h : classifyConvertedRow layout row fieldLimit rowLimit = .ok bytes) : bytes = sat (rowHeap layout row) :=
  classifyValues_ok h

/-! ## Appending a row -/

namespace StoredSession

variable (session : StoredSession)

def target : Vec Row := if session.needsNewPage then .new else session.lastPage

def others : List (Vec Row) :=
  if session.needsNewPage then session.pages.items else session.pages.items.dropLast

theorem appended_items (row : Row) :
    (session.appended row).items = session.others ++ [session.target.push row] := by
  unfold appended others target
  split
  · rw [Vec.items_setLast, Vec.items_push, dropLast_concat]
  · rfl

theorem pages_items :
    session.pages.items = if session.needsNewPage then session.others else session.others ++ [session.target] := by
  unfold others target
  split
  · rfl
  · exact (dropLast_append_getLast session.paged).symm

theorem appended_capacity (row : Row) : (session.appended row).capacity =
      if session.needsNewPage ∧ session.pages.items.length = session.pages.capacity then Vec.grown session.pages.capacity
      else session.pages.capacity := by
  unfold appended Vec.setLast Vec.push
  by_cases hn : session.needsNewPage = true
  · simp [hn]
  · simp [hn]

/-- No page is over-full, and a page has room for no rows or for at least four. -/
def PagesGrown : Prop :=
  ∀ page ∈ session.pages.items, page.items.length ≤ RESULT_PAGE_ROWS ∧ (page.capacity = 0 ∨ 4 ≤ page.capacity)

variable {session : StoredSession}

theorem PagesGrown.target (h : session.PagesGrown) :
    session.target.items.length < RESULT_PAGE_ROWS ∧ (session.target.capacity = 0 ∨ 4 ≤ session.target.capacity) := by
  by_cases hn : session.needsNewPage = true
  · unfold StoredSession.target
    rw [if_pos hn]
    exact ⟨by decide, .inl rfl⟩
  · have hlast := h session.lastPage (getLast_mem _)
    have hne : session.lastPage.items.length ≠ RESULT_PAGE_ROWS := by simpa [needsNewPage] using hn
    unfold StoredSession.target
    rw [if_neg hn]
    exact ⟨Nat.lt_of_le_of_ne hlast.1 hne, hlast.2⟩

theorem PagesGrown.withRow (h : session.PagesGrown) (row : Row) (charge : Nat) :
    (session.withRow row charge).PagesGrown := by
  intro page hp
  have hp : page ∈ session.others ++ [session.target.push row] := session.appended_items row ▸ hp
  rcases mem_append.1 hp with hp | hp
  · apply h page
    rw [session.pages_items]
    split
    · exact hp
    · exact mem_append_left _ hp
  · obtain ⟨hlen, hcap⟩ := h.target
    rw [mem_singleton.1 hp]
    refine ⟨?_, .inr ?_⟩
    · rw [Vec.items_push, length_append, length_singleton]
      exact hlen
    · have hfits := session.target.fits
      unfold Vec.push Vec.grown
      dsimp only
      split <;> omega

end StoredSession

/-- **What a push adds to the pages is its charge.** -/
theorem pagesHeap_appended (session : StoredSession) (row : Row) :
    pagesHeap layout (session.appended row) = pagesHeap layout session.pages + rowHeap layout row +
      ((session.target.push row).capacity - session.target.capacity) * VEC_BYTES +
      ((session.appended row).capacity - session.pages.capacity) * VEC_BYTES := by
  have htotal : total (pageHeap layout) session.pages.items =
      total (pageHeap layout) session.others + pageHeap layout session.target := by
    rw [session.pages_items]
    by_cases hn : session.needsNewPage = true
    · rw [if_pos hn, StoredSession.target, if_pos hn]
      simp [pageHeap, Vec.new, total]
    · rw [if_neg hn, total_append, total_singleton]
  have hpage : pageHeap layout (session.target.push row) = pageHeap layout session.target + rowHeap layout row +
      ((session.target.push row).capacity - session.target.capacity) * VEC_BYTES := by
    have hle := session.target.capacity_le_push row
    unfold pageHeap
    rw [Vec.items_push, total_append, total_singleton, Nat.sub_mul]
    have := Nat.mul_le_mul_right VEC_BYTES hle
    omega
  have hcap : session.pages.capacity ≤ (session.appended row).capacity := by
    rw [session.appended_capacity]
    unfold Vec.grown
    split <;> omega
  unfold pagesHeap
  rw [session.appended_items, total_append, total_singleton, htotal, hpage, Nat.sub_mul (session.appended row).capacity]
  have := Nat.mul_le_mul_right VEC_BYTES hcap
  omega

theorem pushCharge_eq (session : StoredSession) (row : Row) (rowBytes : Nat) :
    pushCharge session row rowBytes = sat (rowBytes +
      ((session.target.push row).capacity - session.target.capacity) * VEC_BYTES +
      ((session.appended row).capacity - session.pages.capacity) * VEC_BYTES) := by
  have hlast : (session.appended row).items.getLast (session.appended_ne row) = session.target.push row := by
    simp only [session.appended_items, getLast_append_singleton]
  have hbefore : (if session.needsNewPage then 0 else session.lastPage.capacity) = session.target.capacity := by
    unfold StoredSession.target
    split <;> rfl
  unfold pushCharge satAdd satMul
  rw [hlast, hbefore]
  simp only [sat_sat_add, sat_add_sat]

/-! ## The account -/

/-- The stored session of a key is charged for all it holds. -/
structure SessionAccount (key : String) (session : StoredSession) : Prop where
  keyed : session.owner.key = key
  mapKeyCapacity : session.mapKeyCapacity = key.utf8ByteSize
  bytes : session.bytes = estimateSessionRetainedBytes layout key.utf8ByteSize session
  grown : session.PagesGrown

structure Accounted (r : ResultSessionRegistry) : Prop where
  sessions : ∀ key session, r.sessions.get key = some session → SessionAccount layout key session
  totalBytes : r.totalBytes = estimateRegistryRetainedBytes layout r.sessions

variable {key : String} {session : StoredSession} {reply : Reply}

theorem SessionAccount.heap {layout : Layout}
    (h : SessionAccount layout key session) : session.bytes = sat (sessionHeap layout key.utf8ByteSize session) :=
  h.bytes.trans (estimateSessionRetainedBytes_eq layout _ _)

theorem SessionAccount.edited {layout : Layout} {call : Call} {s s' : StoredSession}
    (h : SessionAccount layout key s) (he : Edited call reply s s') : SessionAccount layout key s' := by
  refine ⟨by rw [he.owner, h.keyed], by rw [he.mapKeyCapacity, h.mapKeyCapacity], ?_, ?_⟩
  · rw [he.bytes, h.bytes]
    unfold estimateSessionRetainedBytes
    rw [he.owner, he.columns, he.pages]
  · unfold StoredSession.PagesGrown
    rw [he.pages]
    exact h.grown

theorem SessionAccount.withRow {layout : Layout}
    (h : SessionAccount layout key session) {row : Row} {fieldLimit rowLimit rowBytes : Nat}
    (hrow : classifyConvertedRow layout row fieldLimit rowLimit = .ok rowBytes) :
    SessionAccount layout key (session.withRow row (pushCharge session row rowBytes)) := by
  refine ⟨h.keyed, h.mapKeyCapacity, ?_, h.grown.withRow row _⟩
  have hheap := pagesHeap_appended layout session row
  have hnew : sessionHeap layout key.utf8ByteSize (session.withRow row (pushCharge session row rowBytes)) =
      sessionHeap layout key.utf8ByteSize session + (rowHeap layout row +
        ((session.target.push row).capacity - session.target.capacity) * VEC_BYTES +
        ((session.appended row).capacity - session.pages.capacity) * VEC_BYTES) := by
    unfold sessionHeap fixedHeap StoredSession.withRow
    dsimp only
    omega
  rw [estimateSessionRetainedBytes_eq, hnew]
  change satAdd session.bytes _ = _
  rw [h.heap, pushCharge_eq, classifyConvertedRow_ok layout hrow, satAdd_sat]
  unfold sat
  omega

theorem slot_le_bytes (h : SessionAccount layout key session) : sessionMapSlotBytes layout ≤ session.bytes := by
  rw [h.heap]
  apply sat_mono
  unfold sessionHeap fixedHeap
  omega

variable {r : ResultSessionRegistry} {owner : Owner}{session' : StoredSession}

theorem slots_le_sum (h : Accounted layout r) :
    sessionMapSlotBytes layout * r.sessions.size ≤ r.sessions.sum StoredSession.bytes :=
  mul_length_le_total _ fun e he => slot_le_bytes layout (h.sessions e.1 e.2 (Table.get_eq_some.2 he))

theorem bytes_le_total (h : Accounted layout r)
    (hs : r.sessions.get key = some session) : session.bytes ≤ r.totalBytes := by
  have h1 := HashMap.sum_remove StoredSession.bytes hs
  have h2 : session.bytes ≤ usizeMax := by
    rw [(h.sessions key session hs).heap]
    exact sat_le_max _
  rw [h.totalBytes, estimateRegistryRetainedBytes_eq]
  unfold sat
  omega

theorem total_put (h : Accounted layout r)
    (hs : r.sessions.get owner.key = some session) {charge : Nat} (hb : session'.bytes = satAdd session.bytes charge) :
    satAdd r.totalBytes charge = estimateRegistryRetainedBytes layout (r.put owner session').sessions := by
  have hsum := HashMap.sum_set StoredSession.bytes hs session'
  have hrem := HashMap.sum_remove StoredSession.bytes hs
  have hcap : (r.sessions.set owner.key session').capacity = r.sessions.capacity := rfl
  have hput : (r.put owner session').sessions = r.sessions.set owner.key session' := rfl
  rw [h.totalBytes, estimateRegistryRetainedBytes_eq, estimateRegistryRetainedBytes_eq, hput, hcap, HashMap.size_set]
  unfold satAdd sat at *
  omega

/-! ## Every operation keeps the account -/

theorem Accounted.put {layout : Layout} (h : Accounted layout r) (hs : r.sessions.get owner.key = some session)
    (hacc : SessionAccount layout owner.key session') (key : String) (found : StoredSession)
    (hf : (r.put owner session').sessions.get key = some found) : SessionAccount layout key found := by
  rw [ResultSessionRegistry.get_put hs] at hf
  split at hf
  · rename_i hk
    cases hf
    rw [hk]
    exact hacc
  · exact h.sessions key found hf

theorem accounted_refresh (h : ∀ key session, r.sessions.get key = some session → SessionAccount layout key session) :
    Accounted layout (r.refreshAccounting layout) := ⟨h, rfl⟩

theorem probe_account (owner : Owner) (columns : Vec HeapString) :
    SessionAccount layout owner.key (openedSession layout owner columns) := by
  refine ⟨rfl, rfl, rfl, fun page hp => ?_⟩
  rw [mem_singleton.1 hp]
  exact ⟨by decide, .inl rfl⟩

theorem Accounted.of_moved {layout : Layout} {t : ResultSessionRegistry} {call : Call}
    (h : Accounted layout r) (hm : Moved layout r call reply t) : Accounted layout t := by
  cases hm with
  | kept _ _ _ => exact h
  | edited owner _ _ session session' ho _ _ he =>
    have hs := (ResultSessionRegistry.owned_eq_ok.1 ho).2.1
    refine ⟨h.put hs ((h.sessions _ _ hs).edited he), ?_⟩
    have hb : session'.bytes = satAdd session.bytes 0 := by
      rw [he.bytes, (h.sessions _ _ hs).heap]
      exact (sat_sat _).symm
    have ht := total_put layout h hs hb
    rw [← ht]
    change r.totalBytes = _
    rw [h.totalBytes, estimateRegistryRetainedBytes_eq]
    exact (sat_sat _).symm
  | pushed owner row session rowBytes hst =>
    have hs := (ResultSessionRegistry.owned_eq_ok.1 hst.owned).2.1
    exact ⟨h.put hs ((h.sessions _ _ hs).withRow hst.classified), total_put layout h hs rfl⟩
  | opened owner columns ho =>
    refine accounted_refresh layout fun key session hs => ?_
    rw [HashMap.get_insert] at hs
    split at hs
    · rename_i hk
      cases hs
      rw [hk]
      exact probe_account layout owner columns
    · exact h.sessions key session hs
  | removed owner _ session _ _ _ _ =>
    refine accounted_refresh layout fun key session hs => ?_
    change (r.sessions.remove _).get key = _ at hs
    rw [HashMap.get_remove] at hs
    split at hs
    · cases hs
    · exact h.sessions key session hs
  | begun | disconnected =>
    refine ⟨fun key session hs => ?_, rfl⟩
    change (r.sessions.retain _).get key = _ at hs
    rw [HashMap.get_retain] at hs
    exact h.sessions key session (Option.filter_eq_some_iff.1 hs).1

end Results
end Yuzora
