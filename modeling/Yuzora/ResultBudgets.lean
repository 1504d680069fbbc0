import Yuzora.ResultAccounts
/-!
# ResultBudgets — the limits, and where the pre-checks miss them

Inside the limits, an operation leaves them exactly if neither a hash map's growth nor a second page takes more than the
pre-check allowed for (`Meets`).
-/
namespace Yuzora
namespace Results

open Db (ConnectionIdentity QueryRunOwner)

section Charges
variable (layout : Layout)

/-- What the four assertions after `begin_session` and `push_row` state of the whole registry. -/
structure WithinLimits (r : ResultSessionRegistry) : Prop where
  sessions : ∀ key session, r.sessions.get key = some session → session.bytes ≤ r.sessionLimit
  process : r.totalBytes ≤ r.processLimit

/-! ## Fewer sessions -/

theorem estimate_le_of {m m' : HashMap StoredSession} (lost : Nat) (hcap : m'.capacity ≤ m.capacity)
    (hsize : m.size = m'.size + lost)
    (hsum : m'.sum StoredSession.bytes + sessionMapSlotBytes layout * lost ≤ m.sum StoredSession.bytes) :
    estimateRegistryRetainedBytes layout m' ≤ estimateRegistryRetainedBytes layout m := by
  have hslots : satMul m'.capacity HASH_MAP_SLOT_MULTIPLIER - m'.size ≤
      satMul m.capacity HASH_MAP_SLOT_MULTIPLIER - m.size + lost := by
    have h : satMul m'.capacity HASH_MAP_SLOT_MULTIPLIER ≤ satMul m.capacity HASH_MAP_SLOT_MULTIPLIER :=
      sat_mono (Nat.mul_le_mul_right _ hcap)
    omega
  have hspare := Nat.mul_le_mul_right (sessionMapSlotBytes layout) hslots
  rw [Nat.add_mul, Nat.mul_comm lost] at hspare
  rw [estimateRegistryRetainedBytes_eq, estimateRegistryRetainedBytes_eq]
  apply sat_mono
  omega

variable {r : ResultSessionRegistry}

theorem estimate_retain_le (h : Accounted layout r) (p : StoredSession → Bool) :
    estimateRegistryRetainedBytes layout (r.sessions.retain p).shrinkToFit ≤ r.totalBytes := by
  have hsum := HashMap.sum_retain_add StoredSession.bytes r.sessions p
  have hsize : r.sessions.size = (r.sessions.retain p).size + (r.sessions.retain fun v => !p v).size := by
    have hcount := total_filter_add_not (fun _ : String × StoredSession => 1) (fun e => p e.2) r.sessions.table.entries
    have hlen : ∀ l : List (String × StoredSession), total (fun _ => 1) l = l.length := fun l => by
      induction l with
      | nil => rfl
      | cons e l ih => rw [total, ih, List.length_cons, Nat.add_comm]
    rw [hlen, hlen, hlen] at hcount
    exact hcount.symm
  have hslots : sessionMapSlotBytes layout * (r.sessions.retain fun v => !p v).size ≤
      (r.sessions.retain fun v => !p v).sum StoredSession.bytes := by
    refine mul_length_le_total _ fun e he => ?_
    have hmem := (List.mem_filter.1 he).1
    exact slot_le_bytes layout (h.sessions e.1 e.2 (Table.get_eq_some.2 hmem))
  rw [h.totalBytes]
  refine estimate_le_of layout _ (HashMap.capacity_shrinkToFit_le _) hsize ?_
  change (r.sessions.retain p).sum StoredSession.bytes + _ ≤ _
  omega

variable {key : String} {session : StoredSession}

theorem estimate_remove_le (h : Accounted layout r) (hs : r.sessions.get key = some session) :
    estimateRegistryRetainedBytes layout (r.sessions.remove key).shrinkToFit ≤ r.totalBytes := by
  have hsum := HashMap.sum_remove StoredSession.bytes hs
  have hsize : (r.sessions.remove key).size + 1 = r.sessions.size := Table.size_erase_of_get hs
  have hslot := slot_le_bytes layout (h.sessions key session hs)
  rw [h.totalBytes]
  refine estimate_le_of layout 1 (HashMap.capacity_shrinkToFit_le _) hsize.symm ?_
  change (r.sessions.remove key).sum StoredSession.bytes + _ ≤ _
  omega

/-! ## One session more -/

def mapFull (r : ResultSessionRegistry) : Prop := r.sessions.size = r.sessions.capacity

theorem hashCapacity_succ_le : ∀ k, hashCapacity (k + 1) ≤ 2 * hashCapacity k + 3
  | 0 => by decide
  | 1 => by decide
  | k + 2 => by
    rw [hashCapacity_succ]
    omega

variable {columns : Vec HeapString} {owner : Owner} {t : ResultSessionRegistry} {keyCapacity : Nat}

theorem size_opened (h : r.sessions.get owner.key = none) :
    (r.sessions.insert owner.key (openedSession layout owner columns)).size = r.sessions.size + 1 := by
  have he := congrArg List.length (Table.erase_entries_of_get_none h)
  exact congrArg Nat.succ he

/-- **A session in a map with room** is charged no more than its own bytes. -/
theorem opened_with_room (h : Accounted layout r) (hnew : r.sessions.get owner.key = none) (hroom : ¬ mapFull r) :
    estimateRegistryRetainedBytes layout (r.sessions.insert owner.key (openedSession layout owner columns)) ≤
      satAdd r.totalBytes (openedSession layout owner columns).bytes := by
  have hlt : r.sessions.table.size < hashCapacity r.sessions.level := Nat.lt_of_le_of_ne r.sessions.fits hroom
  have hcap : (r.sessions.insert owner.key (openedSession layout owner columns)).capacity = r.sessions.capacity := by
    unfold HashMap.capacity HashMap.insert
    dsimp only
    rw [if_pos hlt]
  have hsum := HashMap.sum_insert StoredSession.bytes hnew (openedSession layout owner columns)
  have hspare := Nat.mul_le_mul_right (sessionMapSlotBytes layout)
    (Nat.sub_le_sub_left (Nat.le_succ r.sessions.size) (satMul r.sessions.capacity HASH_MAP_SLOT_MULTIPLIER))
  rw [h.totalBytes, estimateRegistryRetainedBytes_eq, estimateRegistryRetainedBytes_eq, hcap, size_opened layout hnew, hsum]
  unfold satAdd
  rw [sat_sat_add]
  apply sat_mono
  rw [Nat.succ_eq_add_one] at hspare
  omega

/-- **A session in a full map** is charged two slots for each one of the growth but its own. -/
theorem opened_full (h : Accounted layout r) (hnew : r.sessions.get owner.key = none) (hfull : mapFull r) :
    estimateRegistryRetainedBytes layout (r.sessions.insert owner.key (openedSession layout owner columns)) =
      satAdd (satAdd r.totalBytes (openedSession layout owner columns).bytes)
        ((2 * (r.sessions.nextCapacity - r.sessions.capacity) - 1) * sessionMapSlotBytes layout) := by
  have hcap : (r.sessions.insert owner.key (openedSession layout owner columns)).capacity =
      r.sessions.nextCapacity := by
    unfold HashMap.capacity HashMap.insert HashMap.nextCapacity
    dsimp only
    have hnot : ¬ r.sessions.table.size < hashCapacity r.sessions.level := Nat.not_lt.2 (Nat.le_of_eq hfull.symm)
    rw [if_neg hnot]
  have hsum := HashMap.sum_insert StoredSession.bytes hnew (openedSession layout owner columns)
  have hslots := slots_le_sum layout h
  have hlt := r.sessions.capacity_lt_next
  have hle : r.sessions.nextCapacity ≤ 2 * r.sessions.capacity + 3 := hashCapacity_succ_le r.sessions.level
  rw [h.totalBytes, estimateRegistryRetainedBytes_eq, estimateRegistryRetainedBytes_eq, hcap, size_opened layout hnew, hsum]
  unfold satAdd
  simp only [sat_sat_add]
  rw [hfull] at hslots ⊢
  by_cases hbig : 2 * r.sessions.nextCapacity ≤ usizeMax
  · have h1 : satMul r.sessions.nextCapacity HASH_MAP_SLOT_MULTIPLIER = 2 * r.sessions.nextCapacity := by
      unfold satMul HASH_MAP_SLOT_MULTIPLIER sat
      omega
    have h2 : satMul r.sessions.capacity HASH_MAP_SLOT_MULTIPLIER = 2 * r.sessions.capacity := by
      unfold satMul HASH_MAP_SLOT_MULTIPLIER sat
      omega
    have h3 : (2 * r.sessions.capacity - r.sessions.capacity) * sessionMapSlotBytes layout +
        (2 * (r.sessions.nextCapacity - r.sessions.capacity) - 1) * sessionMapSlotBytes layout =
          (2 * r.sessions.nextCapacity - (r.sessions.capacity + 1)) * sessionMapSlotBytes layout := by
      rw [← Nat.add_mul]
      exact congrArg (· * _) (by omega)
    rw [h1, h2, ← h3]
    exact congrArg sat (by omega)
  · -- so many sessions that the total has saturated
    have hslot : 8 ≤ sessionMapSlotBytes layout := by
      unfold sessionMapSlotBytes satAdd sat WORD_BYTES usizeMax
      omega
    have hmany := Nat.mul_le_mul_right r.sessions.capacity hslot
    have hmax : usizeMax ≤ r.sessions.sum StoredSession.bytes := by
      have : usizeMax = 18446744073709551615 := rfl
      omega
    unfold sat
    omega

theorem hashCapacity_grows : ∀ k, hashCapacity k = 0 ∧ hashCapacity (k + 1) = 3 ∨
    3 ≤ hashCapacity k ∧ 2 * hashCapacity k ≤ hashCapacity (k + 1)
  | 0 => .inl (by decide)
  | 1 => .inr (by decide)
  | k + 2 => .inr ⟨three_le_hashCapacity (k + 1), Nat.le_of_eq (hashCapacity_succ k).symm⟩

theorem growth_lt (hfull : mapFull r) : mapInsertGrowthBytes layout r.sessions.size r.sessions.capacity <
      (2 * (r.sessions.nextCapacity - r.sessions.capacity) - 1) * sessionMapSlotBytes layout := by
  have hslot : 0 < sessionMapSlotBytes layout := by
    unfold sessionMapSlotBytes satAdd sat WORD_BYTES usizeMax
    omega
  have hgrows : r.sessions.capacity = 0 ∧ r.sessions.nextCapacity = 3 ∨
      3 ≤ r.sessions.capacity ∧ 2 * r.sessions.capacity ≤ r.sessions.nextCapacity :=
    hashCapacity_grows r.sessions.level
  have hslots : nextVecCapacity r.sessions.capacity - r.sessions.capacity <
      2 * (r.sessions.nextCapacity - r.sessions.capacity) - 1 := by
    unfold nextVecCapacity
    split
    · omega
    · have hle : satMul r.sessions.capacity 2 ≤ r.sessions.capacity * 2 := sat_le _
      omega
  unfold mapInsertGrowthBytes
  rw [if_neg (Nat.not_lt.2 (Nat.le_of_eq hfull.symm))]
  exact Nat.lt_of_le_of_lt (sat_le _) (Nat.mul_lt_mul_of_pos_right hslots hslot)

/-! ## One row more -/

/-- The row opens the second page, for which the vector of one page grows to four. -/
def opensSecondPage (session : StoredSession) : Prop :=
  session.needsNewPage = true ∧ session.pages.items.length = 1 ∧ session.pages.capacity = 1

theorem estimate_current_le (h : SessionAccount layout key session) (hkey : key.utf8ByteSize ≤ keyCapacity) :
    session.bytes ≤
      if session.bytes = usizeMax then estimateSessionRetainedBytes layout keyCapacity session
      else satAdd (session.bytes - session.mapKeyCapacity) keyCapacity := by
  have hheap := h.heap
  split
  · rw [hheap, estimateSessionRetainedBytes_eq]
    apply sat_mono
    unfold sessionHeap
    omega
  · have hmax : session.bytes ≤ usizeMax := hheap ▸ sat_le_max _
    rw [h.mapKeyCapacity]
    unfold satAdd sat
    omega

theorem grown_sub {capacity : Nat} (h : capacity ≠ 1) (hsmall : capacity * VEC_BYTES ≤ usizeMax) :
    (Vec.grown capacity - capacity) * VEC_BYTES = satMul (nextVecCapacity capacity - capacity) VEC_BYTES := by
  cases capacity with
  | zero => rfl
  | succ n =>
    have hgrown : Vec.grown (n + 1) = 2 * (n + 1) := by
      unfold Vec.grown
      omega
    have hnext : nextVecCapacity (n + 1) = 2 * (n + 1) := by
      change sat ((n + 1) * 2) = _
      unfold sat VEC_BYTES at *
      omega
    unfold satMul sat VEC_BYTES at *
    omega

/-- **A row that opens no second page is charged no more than the pre-check predicts.** -/
theorem push_covered (h : SessionAccount layout key session)
    (hkey : key.utf8ByteSize ≤ keyCapacity) (hsecond : ¬ opensSecondPage session) (row : Row)
    (rowBytes : Nat) :
    satAdd session.bytes (pushCharge session row rowBytes) ≤
      estimateSessionAfterPush layout keyCapacity session.mapKeyCapacity session rowBytes := by
  have hcur := estimate_current_le layout h hkey
  obtain ⟨hlen, hcap⟩ := h.grown.target
  have hv : VEC_BYTES = 24 := rfl
  have hrows : ((session.target.push row).capacity - session.target.capacity) * VEC_BYTES =
      if session.target.items.length = session.target.capacity then
        satMul (nextVecCapacity session.target.capacity - session.target.capacity) VEC_BYTES else 0 := by
    unfold Vec.push
    dsimp only
    by_cases hf : session.target.items.length = session.target.capacity
    · have hsmall : session.target.capacity < 500 := hf ▸ hlen
      have hmax : usizeMax = 18446744073709551615 := rfl
      have hbytes : session.target.capacity * VEC_BYTES ≤ usizeMax := by
        rw [hv]
        omega
      rw [if_pos hf, if_pos hf, grown_sub (by omega) hbytes]
    · rw [if_neg hf, if_neg hf, Nat.sub_self, Nat.zero_mul]
  have hpages : usizeMax ≤ session.bytes ∨
      ((session.appended row).capacity - session.pages.capacity) * VEC_BYTES =
        if session.needsNewPage ∧ session.pages.items.length = session.pages.capacity then
          satMul (nextVecCapacity session.pages.capacity - session.pages.capacity) VEC_BYTES else 0 := by
    rw [session.appended_capacity]
    by_cases hf : session.needsNewPage ∧ session.pages.items.length = session.pages.capacity
    · rw [if_pos hf, if_pos hf]
      have hone : session.pages.capacity ≠ 1 := fun hc => hsecond ⟨hf.1, hf.2.trans hc, hc⟩
      by_cases hbig : session.pages.capacity * VEC_BYTES ≤ usizeMax
      · exact .inr (grown_sub hone hbig)
      · refine .inl ?_
        rw [h.heap]
        unfold sessionHeap pagesHeap sat
        omega
    · rw [if_neg hf, if_neg hf, Nat.sub_self, Nat.zero_mul]
      exact .inr rfl
  have hlens : (if session.needsNewPage then 0 else session.lastPage.capacity) = session.target.capacity := by
    unfold StoredSession.target
    split <;> rfl
  have hitems : (if session.needsNewPage then 0 else session.lastPage.items.length) = session.target.items.length := by
    unfold StoredSession.target
    split <;> rfl
  unfold estimateSessionAfterPush
  dsimp only
  rw [pushCharge_eq, hlens, hitems, ← hrows]
  unfold satAdd at hcur ⊢
  simp only [sat_sat_add, sat_add_sat]
  generalize (if session.bytes = usizeMax then estimateSessionRetainedBytes layout keyCapacity session
    else sat (session.bytes - session.mapKeyCapacity + keyCapacity)) = current at hcur ⊢
  rcases hpages with hmax | hpages
  · have hcurmax := Nat.le_trans hmax hcur
    unfold sat
    omega
  · rw [← hpages]
    apply sat_mono
    omega

theorem process_covered {bytes charge projected : Nat} (hle : bytes ≤ r.totalBytes)
    (hp : satAdd bytes charge ≤ projected) (hfits : satAdd (r.totalBytes - bytes) projected ≤ r.processLimit) :
    satAdd r.totalBytes charge ≤ r.processLimit := by
  unfold satAdd sat at *
  omega

theorem pushCharge_second (h : opensSecondPage session) (row : Row) (rowBytes : Nat) :
    pushCharge session row rowBytes = sat (rowBytes + 7 * VEC_BYTES) := by
  obtain ⟨hn, hlen, hcap⟩ := h
  have htarget : session.target = Vec.new := by
    unfold StoredSession.target
    rw [if_pos hn]
  have hpages : (session.appended row).capacity = 4 := by
    rw [session.appended_capacity, if_pos ⟨hn, hlen.trans hcap.symm⟩, hcap]
    rfl
  have hrow : ((Vec.new : Vec Row).push row).capacity - (Vec.new : Vec Row).capacity = 4 := rfl
  rw [pushCharge_eq, htarget, hpages, hcap, hrow]
  congr 1

/-- The pre-check of a row that opens the second page falls short, unless the caller's key has room to spare. -/
theorem push_short (h : SessionAccount layout key session)
    (hsecond : opensSecondPage session) (row : Row) (rowBytes : Nat) :
    satAdd session.bytes (pushCharge session row rowBytes) = usizeMax ∨
      estimateSessionAfterPush layout key.utf8ByteSize session.mapKeyCapacity session rowBytes <
        satAdd session.bytes (pushCharge session row rowBytes) := by
  rw [pushCharge_second hsecond]
  obtain ⟨hn, hlen, hcap⟩ := hsecond
  have hheap := h.heap
  have hkey : key.utf8ByteSize ≤ sessionHeap layout key.utf8ByteSize session := by
    unfold sessionHeap
    omega
  unfold estimateSessionAfterPush
  dsimp only
  rw [if_pos (show session.needsNewPage = true ∧ session.pages.items.length = session.pages.capacity from
      ⟨hn, hlen.trans hcap.symm⟩), if_pos hn, if_pos hn, if_pos rfl, hcap, h.mapKeyCapacity]
  have h1 : satMul (nextVecCapacity 1 - 1) VEC_BYTES = 24 := by decide
  have h2 : satMul (nextVecCapacity 0 - 0) VEC_BYTES = 96 := by decide
  have h3 : 7 * VEC_BYTES = 168 := by decide
  unfold satAdd at *
  simp only [sat_sat_add, sat_add_sat, h1, h2, h3]
  unfold sat at *
  generalize usizeMax = limit at *
  split <;> omega

/-! ## The condition -/

/-- **The growth that a step forces is within the limits**: a session in a full map, and a row that opens the second
page. -/
def Meets (r : ResultSessionRegistry) : Call → Prop
  | .beginSession owner columns => Opens layout r owner columns → mapFull r →
      satAdd (satAdd r.totalBytes (openedSession layout owner columns).bytes)
        ((2 * (r.sessions.nextCapacity - r.sessions.capacity) - 1) * sessionMapSlotBytes layout) ≤ r.processLimit
  | .pushRow owner row => ∀ session rowBytes, Stores layout r owner row session rowBytes → opensSecondPage session →
      satAdd session.bytes (rowBytes + 7 * VEC_BYTES) ≤ r.sessionLimit ∧
        satAdd r.totalBytes (rowBytes + 7 * VEC_BYTES) ≤ r.processLimit
  | _ => True

namespace ResultSessionRegistry

variable {layout : Layout}

theorem beginSession_of_opens (h : Opens layout r owner columns) :
    r.step layout (.beginSession owner columns) = (.done, refreshAccounting layout
      { r with sessions := r.sessions.insert owner.key (openedSession layout owner columns) }) := by
  have hkey : r.sessions.table.contains owner.resultSessionId.clone.text = false := Table.contains_eq_false.2 h.fresh
  change answer (fun _ => Reply.done) (r.beginSession layout owner columns) = _
  unfold beginSession
  rw [h.active]
  dsimp only
  rw [hkey, if_neg Bool.false_ne_true,
    if_neg (not_or.2 ⟨Nat.not_lt.2 h.fitsSession, Nat.not_lt.2 h.fitsProcess⟩)]
  rfl

theorem pushRow_of_stores {row : Row} {rowBytes : Nat} (h : Stores layout r owner row session rowBytes) :
    r.step layout (.pushRow owner row) = (.pushed .stored,
      { r.put owner (session.withRow row (pushCharge session row rowBytes)) with
        totalBytes := satAdd r.totalBytes (pushCharge session row rowBytes) }) := by
  change answer Reply.pushed (r.pushRow layout owner row) = _
  unfold pushRow onSession
  rw [h.owned]
  dsimp only
  rw [if_neg (h.small ▸ Bool.false_ne_true), if_neg (h.unlimited ▸ Bool.false_ne_true), h.classified]
  dsimp only
  rw [if_neg (not_or.2 ⟨Nat.not_lt.2 h.fitsSession, Nat.not_lt.2 h.fitsProcess⟩)]
  rfl

end ResultSessionRegistry

theorem WithinLimits.put (h : WithinLimits r) {session' : StoredSession} (hs : r.sessions.get owner.key = some session)
    (hb : session'.bytes ≤ r.sessionLimit) (key : String) (found : StoredSession)
    (hf : (r.put owner session').sessions.get key = some found) : found.bytes ≤ r.sessionLimit := by
  rw [ResultSessionRegistry.get_put hs] at hf
  split at hf
  · cases hf
    exact hb
  · exact h.sessions key found hf

/-- **A step whose growth fits keeps the limits.** -/
theorem WithinLimits.of_moved {layout : Layout} {call : Call} {reply : Reply}
    (h : WithinLimits r) (hacc : Accounted layout r) (hm : Moved layout r call reply t) (hmeets : Meets layout r call) :
    WithinLimits t := by
  cases hm with
  | kept _ _ _ => exact h
  | edited owner _ _ session session' ho _ _ he =>
    have hs := (ResultSessionRegistry.owned_eq_ok.1 ho).2.1
    exact ⟨h.put hs (he.bytes ▸ h.sessions _ _ hs), h.process⟩
  | pushed owner row session rowBytes hst =>
    have hs := (ResultSessionRegistry.owned_eq_ok.1 hst.owned).2.1
    by_cases hsecond : opensSecondPage session
    · obtain ⟨h1, h2⟩ := hmeets session rowBytes hst hsecond
      have hc := pushCharge_second hsecond row rowBytes
      have hadd : ∀ n, satAdd n (pushCharge session row rowBytes) = satAdd n (rowBytes + 7 * VEC_BYTES) := by
        intro n
        rw [hc]
        exact sat_add_sat _ _
      constructor
      · exact h.put hs (Nat.le_trans (Nat.le_of_eq (hadd session.bytes)) h1)
      · exact Nat.le_trans (Nat.le_of_eq (hadd r.totalBytes)) h2
    · have hcover := push_covered layout (hacc.sessions _ _ hs) owner.resultSessionId.fits hsecond row rowBytes
      constructor
      · exact h.put hs (Nat.le_trans hcover hst.fitsSession)
      · exact process_covered (bytes_le_total layout hacc hs) hcover hst.fitsProcess
  | opened owner columns ho =>
    constructor
    · intro key found hf
      change (r.sessions.insert _ _).get key = _ at hf
      rw [HashMap.get_insert] at hf
      split at hf
      · cases hf
        exact ho.fitsSession
      · exact h.sessions key found hf
    · change estimateRegistryRetainedBytes layout (r.sessions.insert _ _) ≤ r.processLimit
      by_cases hfull : mapFull r
      · rw [opened_full layout hacc ho.fresh hfull]
        exact hmeets ho hfull
      · refine Nat.le_trans (opened_with_room layout hacc ho.fresh hfull) (Nat.le_trans ?_ ho.fitsProcess)
        have hle : r.totalBytes + (openedSession layout owner columns).bytes ≤
            r.totalBytes + (openedSession layout owner columns).bytes +
              mapInsertGrowthBytes layout r.sessions.size r.sessions.capacity := Nat.le_add_right _ _
        unfold satAdd
        rw [sat_sat_add]
        exact sat_mono hle
  | removed owner _ session ho _ _ _ =>
    have hs := (ResultSessionRegistry.owned_eq_ok.1 ho).2.1
    constructor
    · intro key found hf
      change (r.sessions.remove _).get key = _ at hf
      rw [HashMap.get_remove] at hf
      split at hf
      · cases hf
      · exact h.sessions key found hf
    · exact Nat.le_trans (estimate_remove_le layout hacc hs) h.process
  | begun | disconnected =>
    constructor
    · intro key found hf
      change (r.sessions.retain _).get key = _ at hf
      rw [HashMap.get_retain] at hf
      exact h.sessions key found (Option.filter_eq_some_iff.1 hf).1
    · exact Nat.le_trans (estimate_retain_le layout hacc _) h.process

/-- **A step keeps the limits exactly if its growth fits.** -/
theorem withinLimits_step {layout : Layout} (hacc : Accounted layout r)
    (h : WithinLimits r) (call : Call) : WithinLimits (r.step layout call).2 ↔ Meets layout r call := by
  refine ⟨fun ht => ?_, h.of_moved hacc (ResultSessionRegistry.step_moved layout r call)⟩
  cases call with
  | beginSession owner columns =>
    intro ho hfull
    rw [ResultSessionRegistry.beginSession_of_opens ho] at ht
    rw [← opened_full layout hacc ho.fresh hfull]
    exact ht.process
  | pushRow owner row =>
    intro session rowBytes hst hsecond
    have hs := (ResultSessionRegistry.owned_eq_ok.1 hst.owned).2.1
    have hadd : ∀ n, satAdd n (pushCharge session row rowBytes) = satAdd n (rowBytes + 7 * VEC_BYTES) := by
      intro n
      rw [pushCharge_second hsecond row rowBytes]
      exact sat_add_sat _ _
    rw [ResultSessionRegistry.pushRow_of_stores hst] at ht
    constructor
    · rw [← hadd]
      exact ht.sessions owner.key (session.withRow row (pushCharge session row rowBytes))
        ((ResultSessionRegistry.get_put hs _ _).trans (if_pos rfl))
    · rw [← hadd]
      exact ht.process
  | _ => exact trivial

/-! ## Runs -/

abbrev ResultEvent := Transition ResultSessionRegistry (Call × Reply)

/-- Any sequence of operations on a registry with these ceilings. -/
abbrev RegistryRun (fieldLimit rowLimit sessionLimit processLimit : Nat) :
    List ResultEvent → ResultSessionRegistry → Prop :=
  Trace (fun s => s = .withCeilings fieldLimit rowLimit sessionLimit processLimit)
    fun s a t => s.step layout a.1 = (a.2, t)

variable {s : ResultSessionRegistry}

theorem Moved.of_step {layout : Layout} {a : Call × Reply}
    (h : s.step layout a.1 = (a.2, t)) : Moved layout s a.1 a.2 t := by
  have hm := ResultSessionRegistry.step_moved layout s a.1
  rw [h] at hm
  exact hm

section Runs
variable {layout : Layout} {fieldLimit rowLimit sessionLimit processLimit : Nat} {l : List ResultEvent}

theorem accounted_run
    (h : RegistryRun layout fieldLimit rowLimit sessionLimit processLimit l s) : Accounted layout s := by
  refine h.invariant (fun s hs => ?_) fun s a t hs hst => hs.of_moved (.of_step hst)
  rw [hs]
  refine ⟨(fun _ _ h => nomatch h), ?_⟩
  rw [estimateRegistryRetainedBytes_eq]
  simp [ResultSessionRegistry.withCeilings, HashMap.new, HashMap.sum, HashMap.size, HashMap.capacity, Table.empty, total,
    hashCapacity, satMul, sat]

theorem withinLimits_run (h : RegistryRun layout fieldLimit rowLimit sessionLimit processLimit l s) :
    (∀ x ∈ l, Meets layout x.src x.label.1) → WithinLimits s := by
  refine h.history (P := fun l s => (∀ x ∈ l, Meets layout x.src x.label.1) → WithinLimits s) (fun s hs _ => ?_) ?_
  · rw [hs]
    exact ⟨(fun _ _ h => nomatch h), Nat.zero_le _⟩
  · intro l s a t hl ih hst hmeets
    have hs := ih fun x hx => hmeets x (List.mem_append_left _ hx)
    exact hs.of_moved (accounted_run hl) (.of_step hst)
      (hmeets ⟨s, a, t⟩ List.mem_concat_self)

theorem limits_run (h : RegistryRun layout fieldLimit rowLimit sessionLimit processLimit l s) :
    s.sessionLimit = sessionLimit ∧ s.processLimit = processLimit := by
  refine h.invariant (P := fun s => s.sessionLimit = sessionLimit ∧ s.processLimit = processLimit) (fun s hs => ?_) ?_
  · rw [hs]
    exact ⟨rfl, rfl⟩
  · intro s a t hs hst
    have hm := Moved.of_step hst
    generalize a.1 = call at hm
    generalize a.2 = reply at hm
    cases hm <;> exact hs

end Runs

end Charges

/-! ## Two runs -/

namespace Sample

def sizes : Layout := ⟨32, 256⟩

def name : HeapString := ⟨"a", 1, by decide⟩

def owner : Owner := ⟨name, name, name, name, name, name⟩

def openSession : List Call := [.beginRun ⟨"a", "a", "a", "a"⟩, .beginSession owner .new]

def played (processLimit : Nat) (calls : List Call) : List ResultEvent × ResultSessionRegistry :=
  Trace.follow (ResultSessionRegistry.step sizes) calls [] (.withCeilings 1024 1024 4096 processLimit)

theorem run_played (processLimit : Nat) (calls : List Call) :
    RegistryRun sizes 1024 1024 4096 processLimit (played processLimit calls).1 (played processLimit calls).2 :=
  Trace.of_follow calls (.start rfl)

end Sample

/-- **The first session overdraws the process limit**: the check allows for four slots of map growth, five are charged. -/
theorem process_limit_exceeded :
    ¬ ∀ (l : List ResultEvent) (s : ResultSessionRegistry), RegistryRun Sample.sizes 1024 1024 4096 1400 l s →
      WithinLimits s := by
  intro h
  have hp := (h _ _ (Sample.run_played 1400 Sample.openSession)).process
  revert hp
  decide

/-- **The account is exact in every run, and the limits hold where the growth fits**: each session's bytes and the total
are what their estimates give on the registry as it stands; a step keeps the limits exactly if it meets the condition.
The pre-checks cover the charge, but where a full map grows or a second page opens they fall short of it. -/
theorem account_exact {layout : Layout} {fieldLimit rowLimit sessionLimit processLimit : Nat} {l : List ResultEvent}
    {s : ResultSessionRegistry} (h : RegistryRun layout fieldLimit rowLimit sessionLimit processLimit l s) :
    (∀ key session, s.sessions.get key = some session →
      session.mapKeyCapacity = key.utf8ByteSize ∧
        session.bytes = estimateSessionRetainedBytes layout key.utf8ByteSize session) ∧
    s.totalBytes = estimateRegistryRetainedBytes layout s.sessions ∧
    (s.sessionLimit = sessionLimit ∧ s.processLimit = processLimit) ∧
    ((∀ x ∈ l, Meets layout x.src x.label.1) → WithinLimits s) ∧
    (WithinLimits s → ∀ call, WithinLimits (s.step layout call).2 ↔ Meets layout s call) ∧
    (∀ owner columns, Opens layout s owner columns →
      let charged := (s.step layout (.beginSession owner columns)).2.totalBytes
      let projected := satAdd (satAdd s.totalBytes (openedSession layout owner columns).bytes)
        (mapInsertGrowthBytes layout s.sessions.size s.sessions.capacity)
      (¬ mapFull s → charged ≤ projected) ∧ (mapFull s → charged = usizeMax ∨ projected < charged)) ∧
    (∀ owner row session rowBytes, Stores layout s owner row session rowBytes →
      let charged := satAdd session.bytes (pushCharge session row rowBytes)
      let projected :=
        estimateSessionAfterPush layout owner.resultSessionId.capacity session.mapKeyCapacity session rowBytes
      (¬ opensSecondPage session → charged ≤ projected) ∧
        (opensSecondPage session → owner.resultSessionId.capacity = owner.key.utf8ByteSize →
          charged = usizeMax ∨ projected < charged)) := by
  have hacc := accounted_run h
  refine ⟨fun key session hs => ?_, hacc.totalBytes, limits_run h, withinLimits_run h, withinLimits_step hacc, ?_, ?_⟩
  · exact ⟨(hacc.sessions key session hs).mapKeyCapacity, (hacc.sessions key session hs).bytes⟩
  · intro owner columns ho
    rw [ResultSessionRegistry.beginSession_of_opens ho]
    constructor
    · intro hfull
      refine Nat.le_trans (opened_with_room layout hacc ho.fresh hfull) ?_
      unfold satAdd
      rw [sat_sat_add]
      exact sat_mono (Nat.le_add_right _ _)
    · intro hfull
      have hlt := growth_lt layout hfull
      change estimateRegistryRetainedBytes layout (s.sessions.insert owner.key _) = usizeMax ∨
        _ < estimateRegistryRetainedBytes layout (s.sessions.insert owner.key _)
      rw [opened_full layout hacc ho.fresh hfull]
      exact satAdd_lt _ hlt
  · intro owner row session rowBytes hst
    have hs := hacc.sessions _ _ (ResultSessionRegistry.owned_eq_ok.1 hst.owned).2.1
    refine ⟨fun hsecond => push_covered layout hs owner.resultSessionId.fits hsecond row rowBytes, fun hsecond hkey => ?_⟩
    rw [hkey]
    exact push_short layout hs hsecond row rowBytes

/-- Where the process limit has room for the growth, the same run stays within it. -/
theorem account_exact_roomy : WithinLimits (Sample.played 2000 Sample.openSession).2 := by
  refine (account_exact (Sample.run_played 2000 Sample.openSession)).2.2.2.1 fun x hx => ?_
  cases hx with
  | head => exact trivial
  | tail _ hx =>
    cases hx with
    | head =>
      intro _ _
      decide
    | tail _ hx => cases hx

end Results
end Yuzora
