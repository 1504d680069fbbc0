import Yuzora.WriteAudit
/-!
# WriteAuditAccounts — where the events of a teardown are

What a stream's teardown made was told, is kept, or is counted as lost, in this order (`parts`), and the records that
were told and the one at hand add up to what was counted (`balance`).
-/
namespace Yuzora
namespace WriteAudit

open List

/-! ## Accounts -/

def ofStream (key : Nat) (events : List Event) : List Event := events.filter fun e => decide (e.teardown = some key)

theorem ofStream_append (key : Nat) (l m : List Event) : ofStream key (l ++ m) = ofStream key l ++ ofStream key m :=
  filter_append l m

def Event.reports (e : Event) : Nat :=
  match e.body with
  | .dropped _ lostTightening _ _ => lostTightening
  | _ => 0

def Bundle (key : Nat) (events : List Event) : Prop := ∀ e ∈ events, e.teardown = some key ∧ e.reports = 0

variable {key : Nat} {events : List Event}

section
variable (h : Bundle key events)
include h

theorem Bundle.ofStream_self : ofStream key events = events :=
  filter_eq_self.2 fun e he => by simp [(h e he).1]

theorem Bundle.ofStream_other {k : Nat} (hk : k ≠ key) : ofStream k events = [] :=
  filter_eq_nil_iff.2 fun e he => by simp [(h e he).1, Ne.symm hk]

theorem Bundle.reports : total Event.reports events = 0 := by
  induction events with
  | nil => rfl
  | cons e events ih =>
    rw [total, (h e mem_cons_self).2, ih fun x hx => h x (mem_cons_of_mem _ hx)]

theorem Bundle.length : events.countP (fun e => e.teardown.isSome) = events.length :=
  countP_eq_length.2 fun e he => by simp [(h e he).1]

end

def heldOf (pending : Table Nat (String × List Event)) (key : Nat) : List Event :=
  ((pending.get key).map Prod.snd).getD []

def heldTotal (pending : Table Nat (String × List Event)) : Nat := total (fun e => e.2.2.length) pending.entries

variable (d : Deferred)

def Deferred.counting : Nat := (d.dropped.map Dropped.lostTightening).getD 0

structure Accounted (s : State) : Prop where
  /-- A stream tells nothing before it is torn down. -/
  streams : ∀ k stream, s.streams.get k = some stream → stream.audit.key = k ∧ k < s.next ∧ ofStream k s.made = []
  fresh : ∀ k, s.next ≤ k → ofStream k s.made = []
  bundles : ∀ k device events, s.deferred.pending.get k = some (device, events) → Bundle k events
  parts : ∀ k, ofStream k s.sent ++ heldOf s.deferred.pending k ++ ofStream k s.counted = ofStream k s.made
  distinct : ∀ k, (ofStream k s.made).Nodup
  owned : ∀ e ∈ s.made, ∃ k, e.teardown = some k
  pending : s.deferred.pending.size ≤ Deferred.MAX_PENDING
  balance : s.counted.length ≤ usizeMax → total Event.reports s.sent + s.deferred.counting = s.counted.length
  sums : s.sent.countP (fun e => e.teardown.isSome) + heldTotal s.deferred.pending + s.counted.length = s.made.length

variable {s t : State}

theorem accounted_new : Accounted State.new where
  streams k stream h := by cases h
  fresh _ _ := rfl
  bundles k device events h := by cases h
  parts _ := rfl
  distinct _ := nodup_nil
  owned e he := by cases he
  pending := Nat.zero_le _
  balance _ := rfl
  sums := rfl

/-! ## Steps that tear nothing down -/

/-- Others' events are told, and streams come and go. -/
structure Aside (s t : State) : Prop where
  streams : ∀ k stream, t.streams.get k = some stream →
    stream.audit.key = k ∧ k < t.next ∧ ((∃ old, s.streams.get k = some old) ∨ s.next ≤ k)
  next : s.next ≤ t.next
  pending : t.deferred.pending = s.deferred.pending
  counting : t.deferred.counting = s.deferred.counting
  sent : ∃ news, t.sent = s.sent ++ news ∧ ∀ e ∈ news, e.teardown = none ∧ e.reports = 0
  made : t.made = s.made
  counted : t.counted = s.counted

theorem Accounted.aside (h : Accounted s) (ha : Aside s t) : Accounted t := by
  obtain ⟨news, hsent, hnews⟩ := ha.sent
  have hnone : ∀ k, ofStream k news = [] := fun k =>
    filter_eq_nil_iff.2 fun e he => by simp [(hnews e he).1]
  constructor
  case streams =>
    intro k stream hg
    obtain ⟨hkey, hlt, hold⟩ := ha.streams k stream hg
    refine ⟨hkey, hlt, ?_⟩
    rw [ha.made]
    rcases hold with ⟨old, hold⟩ | hfresh
    · exact (h.streams k old hold).2.2
    · exact h.fresh k hfresh
  case fresh =>
    intro k hk
    rw [ha.made]
    exact h.fresh k (Nat.le_trans ha.next hk)
  case bundles =>
    rw [ha.pending]
    exact h.bundles
  case parts =>
    intro k
    rw [hsent, ofStream_append, hnone k, append_nil, ha.pending, ha.counted, ha.made]
    exact h.parts k
  case distinct =>
    rw [ha.made]
    exact h.distinct
  case owned =>
    rw [ha.made]
    exact h.owned
  case pending =>
    rw [ha.pending]
    exact h.pending
  case balance =>
    intro hmax
    have hreports : total Event.reports news = 0 := by
      clear hsent hnone
      induction news with
      | nil => rfl
      | cons e news ih =>
        rw [total, (hnews e mem_cons_self).2, ih fun x hx => hnews x (mem_cons_of_mem _ hx)]
    rw [ha.counted] at hmax ⊢
    rw [hsent, total_append, hreports, ha.counting]
    exact h.balance hmax
  case sums =>
    have hcount : news.countP (fun e => e.teardown.isSome) = 0 :=
      countP_eq_zero.2 fun e he => by simp [(hnews e he).1]
    rw [hsent, countP_append, hcount, ha.pending, ha.counted, ha.made]
    exact h.sums

@[simp] theorem counting_lost (count : Nat) (now : Timestamp) :
    (d.lost count now).counting = d.counting := by
  cases hd : d.dropped <;> simp [Deferred.counting, Deferred.lost, Deferred.counts, hd]

@[simp] theorem counting_rejectedOmitted (now : Timestamp) :
    (d.rejectedOmitted now).counting = d.counting := by
  cases hd : d.dropped <;> simp [Deferred.counting, Deferred.rejectedOmitted, Deferred.counts, hd]

@[simp] theorem counting_lostTightening (count : Nat) (now : Timestamp) :
    (d.lostTightening count now).counting = satAdd d.counting count := by
  cases hd : d.dropped <;> simp [Deferred.counting, Deferred.lostTightening, Deferred.lost, Deferred.counts, hd]

theorem streams_same (h : Accounted s) : ∀ k stream, s.streams.get k = some stream →
    stream.audit.key = k ∧ k < s.next ∧ ((∃ old, s.streams.get k = some old) ∨ s.next ≤ k) := by
  intro k stream hg
  obtain ⟨hkey, hlt, -⟩ := h.streams k stream hg
  exact ⟨hkey, hlt, .inl ⟨stream, hg⟩⟩

theorem streams_updated (h : Accounted s) {stream : Stream} {old : Stream}
    (hold : s.streams.get stream.audit.key = some old) : ∀ k stream', (s.updated stream).streams.get k = some stream' →
      stream'.audit.key = k ∧ k < s.next ∧ ((∃ old, s.streams.get k = some old) ∨ s.next ≤ k) := by
  intro k stream' hg
  simp only [State.updated, Table.get_insert] at hg
  split at hg
  · rename_i hk
    cases hg
    obtain ⟨-, hlt, -⟩ := h.streams _ old hold
    exact ⟨hk.symm, hk ▸ hlt, .inl ⟨old, hk ▸ hold⟩⟩
  · exact streams_same h k stream' hg

theorem aside_send (h : Accounted s) {body : Body} (hb : (⟨body, none⟩ : Event).reports = 0) : Aside s (s.send body) where
  streams := have hs := streams_same h; hs
  next := Nat.le_refl _
  pending := rfl
  counting := rfl
  sent := ⟨[⟨body, none⟩], rfl, fun e he => by rw [mem_singleton.1 he]; exact ⟨rfl, hb⟩⟩
  made := rfl
  counted := rfl

theorem aside_counts (h : Accounted s) {deferred : Deferred} (hp : deferred.pending = s.deferred.pending)
    (hc : deferred.counting = s.deferred.counting) : Aside s { s with deferred } where
  streams := have hs := streams_same h; hs
  next := Nat.le_refl _
  pending := hp
  counting := hc
  sent := ⟨[], (append_nil _).symm, by simp⟩
  made := rfl
  counted := rfl

theorem Aside.trans {u : State} (h : Aside s t) (h' : Aside t u) : Aside s u := by
  obtain ⟨news, hsent, hnews⟩ := h.sent
  obtain ⟨news', hsent', hnews'⟩ := h'.sent
  constructor
  case streams =>
    intro k stream hg
    obtain ⟨hkey, hlt, hold⟩ := h'.streams k stream hg
    refine ⟨hkey, hlt, ?_⟩
    rcases hold with ⟨old, hold⟩ | hfresh
    · exact (h.streams k old hold).2.2
    · exact .inr (Nat.le_trans h.next hfresh)
  case next => exact Nat.le_trans h.next h'.next
  case pending => exact h'.pending.trans h.pending
  case counting => exact h'.counting.trans h.counting
  case sent =>
    refine ⟨news ++ news', by rw [hsent', hsent, append_assoc], fun e he => ?_⟩
    rcases mem_append.1 he with he | he
    · exact hnews e he
    · exact hnews' e he
  case made => exact h'.made.trans h.made
  case counted => exact h'.counted.trans h.counted

theorem aside_ordinary (h : Accounted s) {body : Body} (hb : (⟨body, none⟩ : Event).reports = 0) (takes : Bool)
    (now : Timestamp) : Aside s (s.ordinary body takes now) := by
  unfold State.ordinary
  split
  · exact aside_send h hb
  · exact aside_counts h rfl (counting_lost _ _ _)

theorem aside_rejected (h : Accounted s) (audit : Audit) (takes : Bool) (now : Timestamp) :
    Aside s (s.rejected audit takes now) := by
  have hcounts : Aside s { s with deferred := s.deferred.rejectedOmitted now } :=
    aside_counts h rfl (counting_rejectedOmitted _ _)
  have hsend := aside_send (h.aside hcounts)
    (rfl : (⟨audit.event "write.rejected" (.count (satAdd (s.rejections audit.peerId).count 1)) now, none⟩ : Event).reports = 0)
  unfold State.rejected
  dsimp only
  split
  · split
    · have hall := hcounts.trans hsend
      exact ⟨hall.streams, hall.next, hall.pending, hall.counting, hall.sent, hall.made, hall.counted⟩
    · exact ⟨hcounts.streams, hcounts.next, hcounts.pending, hcounts.counting, hcounts.sent, hcounts.made, hcounts.counted⟩
  · exact ⟨hcounts.streams, hcounts.next, hcounts.pending, hcounts.counting, hcounts.sent, hcounts.made, hcounts.counted⟩

theorem aside_updated (h : Accounted s) {stream old : Stream} (hold : s.streams.get stream.audit.key = some old) :
    Aside s (s.updated stream) where
  streams := streams_updated h hold
  next := Nat.le_refl _
  pending := rfl
  counting := rfl
  sent := ⟨[], (append_nil _).symm, by simp⟩
  made := rfl
  counted := rfl

/-! ## A teardown -/

theorem tell_parts (takes : Nat → Bool) : ∀ (n : Nat) (events : List Event),
    (tell takes n events).sent ++ (tell takes n events).rest = events
  | _, [] => rfl
  | n, event :: events => by
    rw [tell]
    split
    · simp only [cons_append, tell_parts takes (n + 1) events]
    · rfl

theorem Bundle.sub {part : List Event} (h : Bundle key events) (hsub : ∀ e ∈ part, e ∈ events) : Bundle key part :=
  fun e he => h e (hsub e he)

theorem Bundle.told {n : Nat} (h : Bundle key events) (takes : Nat → Bool) :
    Bundle key (tell takes n events).sent ∧ Bundle key (tell takes n events).rest := by
  have hparts := tell_parts takes n events
  exact ⟨h.sub fun e he => hparts ▸ mem_append_left _ he, h.sub fun e he => hparts ▸ mem_append_right _ he⟩

variable (audit : Audit)

theorem state_ne_event («open» takeover : Bool) (action : String) (summary : Summary) («at» : Timestamp) :
    audit.event action summary «at» ≠ audit.state «open» takeover := by
  unfold Audit.event Audit.state
  by_cases hfull : audit.scope = .full
  · simp [hfull]
  · simp [hfull]

theorem reports_state («open» takeover : Bool) (teardown : Option Nat) :
    (⟨audit.state «open» takeover, teardown⟩ : Event).reports = 0 := by
  unfold Audit.state
  by_cases hfull : audit.scope = .full
  · simp [hfull, Event.reports]
  · simp [hfull, Event.reports]

theorem bundle_teardown (reason : String) (announced : Bool) («at» : Timestamp) :
    Bundle audit.key (audit.teardown reason announced «at») := by
  intro e he
  rcases mem_cons.1 he with rfl | he
  · exact ⟨rfl, rfl⟩
  · cases announced with
    | false => cases he
    | true =>
      rw [mem_singleton.1 he]
      exact ⟨rfl, reports_state _ _ _ _⟩

theorem nodup_teardown (reason : String) (announced : Bool) («at» : Timestamp) :
    (audit.teardown reason announced «at»).Nodup := by
  cases announced with
  | false => exact nodup_singleton _
  | true =>
    have hne := state_ne_event audit false false
    simp [Audit.teardown, hne]

section
variable (pending : Table Nat (String × List Event))
include pending

/-! ## What is kept -/

theorem heldOf_insert (key k : Nat) (device : String) (events : List Event) :
    heldOf (pending.insert key (device, events)) k = if k = key then events else heldOf pending k := by
  unfold heldOf
  rw [Table.get_insert pending]
  by_cases hk : k = key
  · simp [hk]
  · simp [hk]

theorem heldOf_erase (key k : Nat) : heldOf (pending.erase key) k = if k = key then [] else heldOf pending k := by
  unfold heldOf
  rw [Table.get_erase]
  by_cases hk : k = key
  · simp [hk]
  · simp [hk]

theorem heldTotal_erase (key : Nat) :
    heldTotal (pending.erase key) + (heldOf pending key).length = heldTotal pending := by
  cases hg : pending.get key with
  | none => simp [heldTotal, heldOf, hg, Table.erase_entries_of_get_none hg]
  | some bundle =>
    have hsum := Table.total_erase_of_get (fun e : Nat × String × List Event => e.2.2.length) hg
    rw [heldTotal, heldTotal, heldOf, hg]
    exact hsum

theorem heldTotal_insert (key : Nat) (device : String) (events : List Event) :
    heldTotal (pending.insert key (device, events)) + (heldOf pending key).length = events.length + heldTotal pending := by
  have hold := heldTotal_erase pending key
  have hnew : heldTotal (pending.insert key (device, events)) = events.length + heldTotal (pending.erase key) := rfl
  omega

end

end WriteAudit
end Yuzora
