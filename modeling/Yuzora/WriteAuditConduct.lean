import Yuzora.WriteAuditAccounts
/-!
# WriteAuditConduct — no event of a teardown is lost from sight

A teardown tells, keeps or counts each of its events, and a flush moves what is kept to what was told.  So the accounts
hold in every run (`audit_conduct`).
-/
namespace Yuzora
namespace WriteAudit

open List Table Option

variable {s t : State}

/-! ## A teardown -/

/-- A stream's events are told, kept and counted, in this order. -/
structure Torn (s t : State) (key : Nat) (told kept lost : List Event) : Prop where
  streams : t.streams = s.streams
  next : t.next = s.next
  bundle : Bundle key (told ++ kept ++ lost)
  nodup : (told ++ kept ++ lost).Nodup
  sent : t.sent = s.sent ++ told
  made : t.made = s.made ++ (told ++ kept ++ lost)
  counted : t.counted = s.counted ++ lost
  held : ∀ k, heldOf t.deferred.pending k = if k = key then kept else heldOf s.deferred.pending k
  bundles : ∀ k device events, t.deferred.pending.get k = some (device, events) →
    (k = key ∧ events = kept) ∨ s.deferred.pending.get k = some (device, events)
  size : t.deferred.pending.size ≤ Deferred.MAX_PENDING
  total : heldTotal t.deferred.pending = heldTotal s.deferred.pending + kept.length
  counting : s.deferred.counting + lost.length ≤ usizeMax → t.deferred.counting = s.deferred.counting + lost.length

variable {key : Nat}

theorem parts_nil (h : Accounted s) (hmade : ofStream key s.made = []) :
    ofStream key s.sent = [] ∧ heldOf s.deferred.pending key = [] ∧ ofStream key s.counted = [] := by
  have hparts := h.parts key
  rw [hmade] at hparts
  simpa [and_assoc] using hparts

theorem Accounted.torn {told kept lost : List Event} (h : Accounted s) (hgone : s.streams.get key = none)
    (hmade : ofStream key s.made = []) (hlt : key < s.next) (ht : Torn s t key told kept lost) : Accounted t := by
  have htold : Bundle key told := ht.bundle.sub fun e he => by simp [he]
  have hkept : Bundle key kept := ht.bundle.sub fun e he => by simp [he]
  have hlost : Bundle key lost := ht.bundle.sub fun e he => by simp [he]
  have hof : ∀ k, k ≠ key → ofStream k t.made = ofStream k s.made := by
    intro k hk
    rw [ht.made, ofStream_append, ht.bundle.ofStream_other hk, append_nil]
  have hof' : ofStream key t.made = told ++ kept ++ lost := by
    rw [ht.made, ofStream_append, hmade, ht.bundle.ofStream_self, nil_append]
  constructor
  case streams =>
    intro k stream hg
    rw [ht.streams] at hg
    obtain ⟨hkey, hnext, hnone⟩ := h.streams k stream hg
    have hk : k ≠ key := by
      rintro rfl
      rw [hgone] at hg
      cases hg
    exact ⟨hkey, ht.next ▸ hnext, (hof k hk).trans hnone⟩
  case fresh =>
    intro k hk
    rw [ht.next] at hk
    have hne : k ≠ key := by omega
    exact (hof k hne).trans (h.fresh k hk)
  case bundles =>
    intro k device events hg
    rcases ht.bundles k device events hg with ⟨rfl, rfl⟩ | hg
    · exact hkept
    · exact h.bundles k device events hg
  case parts =>
    intro k
    by_cases hk : k = key
    · subst hk
      obtain ⟨hsent, -, hcounted⟩ := parts_nil h hmade
      rw [hof', ht.sent, ht.counted, ofStream_append, ofStream_append, hsent, hcounted, ht.held, if_pos rfl,
        htold.ofStream_self, hlost.ofStream_self, nil_append, nil_append]
    · rw [hof k hk, ht.sent, ht.counted, ofStream_append, ofStream_append, ht.held, if_neg hk,
        htold.ofStream_other hk, hlost.ofStream_other hk, append_nil, append_nil]
      exact h.parts k
  case distinct =>
    intro k
    by_cases hk : k = key
    · subst hk
      rw [hof']
      exact ht.nodup
    · rw [hof k hk]
      exact h.distinct k
  case owned =>
    intro e he
    rw [ht.made] at he
    rcases mem_append.1 he with he | he
    · exact h.owned e he
    · exact ⟨key, (ht.bundle e he).1⟩
  case pending => exact ht.size
  case balance =>
    intro hmax
    rw [ht.counted, length_append] at hmax ⊢
    have hbalance := h.balance (by omega)
    have hcounting := ht.counting (by omega)
    rw [ht.sent, total_append, htold.reports, hcounting]
    omega
  case sums =>
    have hsums := h.sums
    rw [ht.sent, ht.counted, ht.made, ht.total, countP_append, htold.length]
    simp only [length_append]
    omega

theorem retain_cases (d : Deferred) (key : Nat) (device : String) (events : List Event) (now : Timestamp) :
    ((d.retain key device events now).1.pending = d.pending.insert key (device, events) ∧
        (d.retain key device events now).2 = heldOf d.pending key ∧
        (d.pending.size < Deferred.MAX_PENDING ∨ d.pending.contains key = true)) ∨
      ((d.retain key device events now).1.pending = d.pending ∧ (d.retain key device events now).2 = events) := by
  unfold Deferred.retain
  split
  · rename_i hroom
    cases hg : d.pending.get key with
    | none | some => exact .inl ⟨rfl, by simp [heldOf, hg], hroom⟩
  · exact .inr ⟨rfl, rfl⟩

theorem retain_counting (d : Deferred) (key : Nat) (device : String) (events : List Event) (now : Timestamp)
    (hmax : d.counting + (d.retain key device events now).2.length ≤ usizeMax) :
    (d.retain key device events now).1.counting = d.counting + (d.retain key device events now).2.length := by
  have hsat : ∀ n, d.counting + n ≤ usizeMax → satAdd d.counting n = d.counting + n := fun n hn => Nat.min_eq_left hn
  revert hmax
  unfold Deferred.retain
  split
  · cases hg : d.pending.get key with
    | none => exact fun _ => rfl
    | some bundle =>
      intro hmax
      simp only [counting_lostTightening]
      exact hsat _ hmax
  · intro hmax
    simp only [counting_lostTightening]
    exact hsat _ hmax

variable {device : String} {events : List Event} {d : Deferred}

theorem size_retain (hd : d.pending.size ≤ Deferred.MAX_PENDING)
    (hroom : d.pending.size < Deferred.MAX_PENDING ∨ d.pending.contains key = true) :
    (d.pending.insert key (device, events)).size ≤ Deferred.MAX_PENDING := by
  rcases hroom with hroom | hroom
  · have hle := size_insert_le d.pending key (device, events)
    omega
  · obtain ⟨w, hw⟩ := contains_eq_true.1 hroom
    rw [size_insert_of_get _ hw]
    exact hd

theorem torn_tightened (h : Accounted s) (audit : Audit) (reason : String) (announced : Bool) (takes : Nat → Bool)
    (now : Timestamp) (hmade : ofStream audit.key s.made = []) :
    ∃ told kept lost, Torn s (s.tightened audit reason announced takes now) audit.key told kept lost := by
  have hparts := tell_parts takes 0 (audit.teardown reason announced now)
  have hbundle := bundle_teardown audit reason announced now
  have hnodup := nodup_teardown audit reason announced now
  obtain ⟨-, hheld, -⟩ := parts_nil h hmade
  obtain ⟨base, hbase, hstreams, hnext, hsent, hm, hcounted, hdeferred⟩ :
      ∃ base : State, base = (if announced then { s with live := s.live.erase audit.key } else s) ∧
        base.streams = s.streams ∧ base.next = s.next ∧ base.sent = s.sent ∧ base.made = s.made ∧
        base.counted = s.counted ∧ base.deferred = s.deferred := by
    cases announced with
    | false => exact ⟨s, rfl, rfl, rfl, rfl, rfl, rfl, rfl⟩
    | true => exact ⟨_, rfl, rfl, rfl, rfl, rfl, rfl, rfl⟩
  unfold State.tightened
  dsimp only
  rw [← hbase]
  clear hbase
  generalize htold : tell takes 0 (audit.teardown reason announced now) = told at hparts
  by_cases hrest : told.rest.isEmpty = true
  · have hnil : told.rest = [] := isEmpty_iff.1 hrest
    rw [hnil, append_nil] at hparts
    refine ⟨told.sent, [], [], ?_⟩
    rw [if_pos hrest]
    constructor
    case bundles =>
      intro k device events hg
      simp only [hdeferred] at hg
      exact .inr hg
    all_goals simp [*, h.pending]
  · rw [if_neg hrest, hdeferred]
    have hcount := retain_counting s.deferred audit.key audit.device told.rest now
    rcases retain_cases s.deferred audit.key audit.device told.rest now with ⟨hp, hlost, hroom⟩ | ⟨hp, hlost⟩
    · rw [hlost, hheld] at hcount
      refine ⟨told.sent, told.rest, [], ?_⟩
      constructor
      case held =>
        intro k
        simp only [hp, heldOf_insert]
      case bundles =>
        intro k device events hg
        simp only [hp, get_insert s.deferred.pending] at hg
        split at hg
        · rename_i hk
          cases hg
          exact .inl ⟨hk, rfl⟩
        · exact .inr hg
      case size =>
        simp only [hp]
        exact size_retain h.pending hroom
      case total =>
        have hinsert := heldTotal_insert s.deferred.pending audit.key audit.device told.rest
        rw [hheld] at hinsert
        simp only [hp]
        simpa [Nat.add_comm] using hinsert
      case counting => exact hcount
      all_goals simp [*]
    · rw [hlost] at hcount
      refine ⟨told.sent, [], told.rest, ?_⟩
      constructor
      case bundles =>
        intro k device events hg
        simp only [hp] at hg
        exact .inr hg
      case counting => exact hcount
      all_goals simp [*, h.pending]

/-! ## A flush -/

/-- What a pass told and what it keeps, from what a state told and kept. -/
structure Flushed (s : State) (pass : Pass) : Prop where
  bundles : ∀ k device events, pass.pending.get k = some (device, events) → Bundle k events
  parts : ∀ k, ofStream k pass.sent ++ heldOf pass.pending k = ofStream k s.sent ++ heldOf s.deferred.pending k
  size : pass.pending.size ≤ Deferred.MAX_PENDING
  reports : total Event.reports pass.sent = total Event.reports s.sent
  sums : pass.sent.countP (fun e => e.teardown.isSome) + heldTotal pass.pending =
    s.sent.countP (fun e => e.teardown.isSome) + heldTotal s.deferred.pending

theorem Flushed.bundle {pass : Pass} (h : Flushed s pass)
    (hg : pass.pending.get key = some (device, events)) (takes : Nat → Bool) :
    Flushed s
      { pending := if (tell takes pass.attempts events).rest.isEmpty then pass.pending.erase key
          else pass.pending.insert key (device, (tell takes pass.attempts events).rest)
        sent := pass.sent ++ (tell takes pass.attempts events).sent
        attempts := (tell takes pass.attempts events).attempts } := by
  have hbundle := h.bundles key device events hg
  obtain ⟨htold, hrest⟩ := hbundle.told (n := pass.attempts) takes
  have hparts := tell_parts takes pass.attempts events
  generalize tell takes pass.attempts events = told at *
  have hevents : heldOf pass.pending key = events := by simp [heldOf, hg]
  -- Whether the bundle is gone or replaced, what is held of it is the rest.
  obtain ⟨pending, hpending, hheld, hgets, hsize, htotal⟩ :
      ∃ pending, pending = (if told.rest.isEmpty then pass.pending.erase key
          else pass.pending.insert key (device, told.rest)) ∧
        (∀ k, heldOf pending k = if k = key then told.rest else heldOf pass.pending k) ∧
        (∀ k device' events', pending.get k = some (device', events') →
          (k = key ∧ events' = told.rest) ∨ pass.pending.get k = some (device', events')) ∧
        pending.size ≤ pass.pending.size ∧
        heldTotal pending + events.length = told.rest.length + heldTotal pass.pending := by
    by_cases hempty : told.rest.isEmpty = true
    · have hnil : told.rest = [] := isEmpty_iff.1 hempty
      have hsum := heldTotal_erase pass.pending key
      refine ⟨pass.pending.erase key, by rw [if_pos hempty], fun k => ?_, fun k device' events' hk => ?_,
        size_erase_le _ _, ?_⟩
      · rw [heldOf_erase, hnil]
      · rw [get_erase] at hk
        split at hk
        · cases hk
        · exact .inr hk
      · rw [hevents] at hsum
        simp [hnil, hsum]
    · have hsum := heldTotal_insert pass.pending key device told.rest
      refine ⟨pass.pending.insert key (device, told.rest), by rw [if_neg hempty], fun k => heldOf_insert _ _ _ _ _,
        fun k device' events' hk => ?_, le_of_eq (size_insert_of_get _ hg), ?_⟩
      · rw [get_insert pass.pending] at hk
        split at hk
        · rename_i hkey
          cases hk
          exact .inl ⟨hkey, rfl⟩
        · exact .inr hk
      · rw [hevents] at hsum
        exact hsum
  rw [← hpending]
  constructor
  case bundles =>
    intro k device' events' hk
    rcases hgets k device' events' hk with ⟨rfl, rfl⟩ | hk
    · exact hrest
    · exact h.bundles k device' events' hk
  case parts =>
    intro k
    rw [← h.parts k, ofStream_append, hheld]
    by_cases hk : k = key
    · subst hk
      rw [if_pos rfl, htold.ofStream_self, append_assoc, hparts, hevents]
    · rw [if_neg hk, htold.ofStream_other hk, append_nil]
  case size => exact Nat.le_trans hsize h.size
  case reports => rw [total_append, htold.reports, Nat.add_zero, h.reports]
  case sums =>
    have hlen := congrArg List.length hparts
    have hsums := h.sums
    rw [length_append] at hlen
    simp only [countP_append, htold.length]
    omega

theorem flushed_flushBundles (takes : Nat → Bool) : ∀ (keys : List Nat) {pass : Pass}, Flushed s pass →
    Flushed s (flushBundles takes keys pass)
  | [], _, h => h
  | key :: rest, pass, h => by
    rw [flushBundles]
    cases hg : pass.pending.get key with
    | none => exact flushed_flushBundles takes rest h
    | some bundle => exact flushed_flushBundles takes rest (h.bundle hg takes)

theorem Accounted.flushed {sent : List Event} {pending : Table Nat (String × List Event)} {attempts : Nat}
    (h : Accounted s) (hf : Flushed s ⟨pending, sent, attempts⟩) :
    Accounted { s with deferred := { s.deferred with pending }, sent } := by
  constructor
  case streams => exact h.streams
  case fresh => exact h.fresh
  case bundles => exact hf.bundles
  case parts =>
    intro k
    have hparts := hf.parts k
    simp only [hparts]
    exact h.parts k
  case distinct => exact h.distinct
  case owned => exact h.owned
  case pending => exact hf.size
  case balance =>
    intro hmax
    have hreports := hf.reports
    simp only [hreports]
    exact h.balance hmax
  case sums =>
    have hsums := hf.sums
    simp only [hsums]
    exact h.sums

theorem Accounted.record (h : Accounted s) {record : Dropped} (hd : s.deferred.dropped = some record) :
    Accounted { s with
      deferred := ⟨s.deferred.pending, none⟩
      sent := s.sent ++ [⟨.dropped record.lost record.lostTightening record.rejectedOmitted record.since, none⟩] } := by
  constructor
  case streams => exact h.streams
  case fresh => exact h.fresh
  case bundles => exact h.bundles
  case parts =>
    intro k
    simpa [ofStream] using h.parts k
  case distinct => exact h.distinct
  case owned => exact h.owned
  case pending => exact h.pending
  case balance =>
    intro hmax
    have hbalance := h.balance hmax
    simp only [Deferred.counting, hd, map_some, getD_some] at hbalance
    simp only [total_append, total_singleton, Deferred.counting, Event.reports, map_none, getD_none]
    omega
  case sums =>
    simpa using h.sums

theorem accounted_flush (h : Accounted s) (visit : Visit Nat) (takes : Nat → Bool) : Accounted (s.flush visit takes) := by
  have hself : Flushed s ⟨s.deferred.pending, s.sent, 0⟩ := ⟨h.bundles, fun _ => rfl, h.pending, rfl, rfl⟩
  have hpass := flushed_flushBundles takes (visit.order s.deferred.pending.keys) hself
  unfold State.flush
  dsimp only
  have hflushed := h.flushed hpass
  split
  · exact hflushed
  · rename_i record hd
    split
    · exact hflushed.record hd
    · exact hflushed

/-! ## Steps -/

theorem aside_taken (h : Accounted s) (ht : s.taken = some t) : Aside s t ∧ t.next = s.next + 1 ∧ t.streams = s.streams := by
  unfold State.taken at ht
  split at ht
  · cases ht
    refine ⟨⟨fun k stream hg => ?_, Nat.le_succ _, rfl, rfl, ⟨[], (append_nil _).symm, by simp⟩,
      rfl, rfl⟩, rfl, rfl⟩
    obtain ⟨hkey, hlt, hold⟩ := streams_same h k stream hg
    exact ⟨hkey, Nat.lt_succ_of_lt hlt, hold⟩
  · cases ht

variable {stream : Stream}

section
variable (h : Accounted s)
include h

theorem aside_admitOpen (ht : s.taken = some t) (hkey : stream.audit.key = s.next) : Aside s (t.updated stream) := by
  obtain ⟨ha, hnext, hstreams⟩ := aside_taken h ht
  refine ⟨fun k stream' hg => ?_, ha.next, ha.pending, ha.counting, ha.sent, ha.made, ha.counted⟩
  simp only [State.updated, get_insert t.streams] at hg
  split at hg
  · rename_i hk
    cases hg
    have hlt : k < t.next := by omega
    exact ⟨hk.symm, hlt, .inr (by omega)⟩
  · exact ha.streams k stream' hg

theorem aside_announce {old : Stream} (hold : s.streams.get stream.audit.key = some old) :
    Aside s ((s.announce stream).updated stream) := by
  have hsend := aside_send h (reports_state stream.audit true stream.takeover none)
  have hupdated := hsend.trans (aside_updated (h.aside hsend) hold)
  exact ⟨hupdated.streams, hupdated.next, hupdated.pending, hupdated.counting, hupdated.sent, hupdated.made,
    hupdated.counted⟩

theorem aside_erase (key : Nat) : Aside s { s with streams := s.streams.erase key } := by
  refine ⟨fun k stream hg => ?_, Nat.le_refl _, rfl, rfl, ⟨[], (append_nil _).symm, by simp⟩, rfl,
    rfl⟩
  simp only [get_erase] at hg
  split at hg
  · cases hg
  · exact streams_same h k stream hg

theorem accounted_drop (hg : s.streams.get key = some stream) (reason : String) (takes : Nat → Bool) (now : Timestamp) :
    Accounted (if stream.announced || stream.leased then
      State.tightened { s with streams := s.streams.erase key } stream.audit reason stream.announced takes now
      else State.openFailed { s with streams := s.streams.erase key } stream.audit reason (takes 0) now) := by
  have herase := h.aside (aside_erase h key)
  obtain ⟨hkey, hlt, hmade⟩ := h.streams key stream hg
  split
  · obtain ⟨told, kept, lost, htorn⟩ :=
      torn_tightened herase stream.audit reason stream.announced takes now (by simpa [hkey] using hmade)
    refine herase.torn ?_ ?_ ?_ htorn
    · simp [hkey]
    · simpa [hkey] using hmade
    · simpa [hkey] using hlt
  · exact herase.aside (aside_ordinary herase rfl _ _)

theorem accounted_step {a : Action} (hn : next s a = some t) : Accounted t := by
  cases a with
  | audit => exact h.aside (aside_taken h hn).1
  | admitOpen device peerId scope session target takeover =>
    simp only [next] at hn
    split at hn
    · cases hn
    · obtain ⟨u, hu, rfl⟩ := map_eq_some_iff.1 hn
      exact h.aside (aside_admitOpen h hu rfl)
  | reserveAnnouncement key takes =>
    obtain ⟨stream, hg, hn⟩ := bind_eq_some_iff.1 hn
    obtain ⟨hkey, -, -⟩ := h.streams key stream hg
    split at hn
    · cases hn
    · split at hn
      · cases hn
        exact h
      · cases hn
        split
        · have hold : s.streams.get stream.audit.key = some stream := by simpa only [hkey] using hg
          exact h.aside (aside_updated h hold)
        · exact h
  | unreserve key | lease key =>
    obtain ⟨stream, hg, rfl⟩ := map_eq_some_iff.1 hn
    obtain ⟨hkey, -, -⟩ := h.streams key stream hg
    have hold : s.streams.get stream.audit.key = some stream := by simpa only [hkey] using hg
    exact h.aside (aside_updated h hold)
  | announce key target =>
    obtain ⟨stream, hg, hn⟩ := bind_eq_some_iff.1 hn
    obtain ⟨hkey, -, -⟩ := h.streams key stream hg
    split at hn
    · cases hn
      have hold : s.streams.get stream.audit.key = some stream := by simpa only [hkey] using hg
      exact h.aside (aside_announce h hold)
    · cases hn
  | drop key reason takes now =>
    obtain ⟨stream, hg, rfl⟩ := map_eq_some_iff.1 hn
    exact accounted_drop h hg reason takes now
  | flush visit takes =>
    cases hn
    exact accounted_flush h visit takes
  | stalled | cancelled | gitRead =>
    cases hn
    exact h.aside (aside_ordinary h rfl _ _)
  | rejected audit takes now =>
    cases hn
    exact h.aside (aside_rejected h audit takes now)
  | other text =>
    cases hn
    exact h.aside (aside_send h rfl)
  | eventLost now =>
    cases hn
    exact h.aside (aside_counts h rfl (counting_lost _ _ _))

end

theorem accounted_run {l : List (Transition State Action)} (h : Run l s) : Accounted s :=
  h.invariant (fun _ h0 => h0 ▸ accounted_new) fun _ _ _ hs hst => accounted_step hs hst

/-! ## Reservations -/

def Reserved (s : State) (key : Nat) (device : String) : Prop :=
  ∃ stream, s.streams.get key = some stream ∧ stream.reserved = true ∧ stream.audit.device = device

variable {k : Nat}

theorem reserved_updated (hno : stream.reserved = false)
    (h : Reserved (s.updated stream) k device) : Reserved s k device := by
  obtain ⟨stream', hg, hr, hd⟩ := h
  simp only [State.updated, get_insert s.streams] at hg
  split at hg
  · cases hg
    rw [hno] at hr
    cases hr
  · exact ⟨stream', hg, hr, hd⟩

@[simp] theorem streams_ordinary (s : State) (body : Body) (takes : Bool) (now : Timestamp) :
    (s.ordinary body takes now).streams = s.streams := by
  unfold State.ordinary
  split
  · rfl
  · rfl

@[simp] theorem streams_rejected (s : State) (audit : Audit) (takes : Bool) (now : Timestamp) :
    (s.rejected audit takes now).streams = s.streams := by
  unfold State.rejected
  dsimp only
  split
  · split
    · rfl
    · rfl
  · rfl

@[simp] theorem streams_flush (s : State) (visit : Visit Nat) (takes : Nat → Bool) :
    (s.flush visit takes).streams = s.streams := by
  unfold State.flush
  dsimp only
  split
  · rfl
  · split
    · rfl
    · rfl

@[simp] theorem streams_tightened (s : State) (audit : Audit) (reason : String) (announced : Bool) (takes : Nat → Bool)
    (now : Timestamp) : (s.tightened audit reason announced takes now).streams = s.streams := by
  have hlive : (if announced then { s with live := s.live.erase audit.key } else s).streams = s.streams := by
    cases announced with
    | false => rfl
    | true => rfl
  unfold State.tightened
  dsimp only
  split
  · exact hlive
  · exact hlive

/-- **Only a reservation reserves**, and none is given to a device of which a bundle is kept. -/
theorem reserved_step {a : Action} (hs : Accounted s) (hn : next s a = some t)
    (h : Reserved t k device) : Reserved s k device ∨ s.deferred.pendingFor device = false := by
  cases a with
  | audit =>
    obtain ⟨stream, hg, hr⟩ := h
    rw [(aside_taken hs hn).2.2] at hg
    exact .inl ⟨stream, hg, hr⟩
  | admitOpen device' peerId scope session target takeover =>
    simp only [next] at hn
    split at hn
    · cases hn
    · obtain ⟨u, hu, rfl⟩ := map_eq_some_iff.1 hn
      obtain ⟨stream, hg, hr⟩ := reserved_updated rfl h
      rw [(aside_taken hs hu).2.2] at hg
      exact .inl ⟨stream, hg, hr⟩
  | reserveAnnouncement key takes =>
    obtain ⟨stream, hstream, hn⟩ := bind_eq_some_iff.1 hn
    split at hn
    · cases hn
    · split at hn
      · cases hn
        exact .inl h
      · rename_i hpending
        cases hn
        cases takes with
        | false => exact .inl h
        | true =>
          obtain ⟨stream', hg, hr, hd⟩ := h
          simp only [State.updated, if_true, get_insert s.streams] at hg
          split at hg
          · cases hg
            exact .inr (hd ▸ Bool.eq_false_iff.2 hpending)
          · exact .inl ⟨stream', hg, hr, hd⟩
  | unreserve key =>
    obtain ⟨stream, hg, rfl⟩ := map_eq_some_iff.1 hn
    exact .inl (reserved_updated rfl h)
  | lease key leased =>
    obtain ⟨stream, hstream, rfl⟩ := map_eq_some_iff.1 hn
    obtain ⟨hkey, -, -⟩ := hs.streams key stream hstream
    obtain ⟨stream', hg, hr, hd⟩ := h
    simp only [State.updated, get_insert s.streams] at hg
    split at hg
    · rename_i hk
      cases hg
      rw [hkey] at hk
      exact .inl ⟨stream, by rw [hk, hstream], hr, hd⟩
    · exact .inl ⟨stream', hg, hr, hd⟩
  | announce key target =>
    obtain ⟨stream, hg, hn⟩ := bind_eq_some_iff.1 hn
    split at hn
    · cases hn
      exact .inl (reserved_updated rfl h)
    · cases hn
  | drop key reason takes now =>
    obtain ⟨stream, -, rfl⟩ := map_eq_some_iff.1 hn
    obtain ⟨stream', hg, hr⟩ := h
    have hg : (s.streams.erase key).get k = some stream' := by
      split at hg
      · rwa [streams_tightened] at hg
      · rwa [State.openFailed, streams_ordinary] at hg
    rw [get_erase] at hg
    split at hg
    · cases hg
    · exact .inl ⟨stream', hg, hr⟩
  | flush visit takes =>
    cases hn
    rw [Reserved, streams_flush] at h
    exact .inl h
  | stalled audit phase takes now =>
    cases hn
    rw [Reserved, State.stalled, streams_ordinary] at h
    exact .inl h
  | cancelled audit input outcome takes now =>
    cases hn
    rw [Reserved, State.cancelled, streams_ordinary] at h
    exact .inl h
  | gitRead device' peerId session workspaceId method takes now =>
    cases hn
    rw [Reserved, State.gitRead, streams_ordinary] at h
    exact .inl h
  | rejected audit takes now =>
    cases hn
    rw [Reserved, streams_rejected] at h
    exact .inl h
  | other | eventLost =>
    cases hn
    exact .inl h

theorem pendingFor_eq_false (h : d.pendingFor device = false) :
    ∀ k events, d.pending.get k ≠ some (device, events) := by
  intro k events hg
  have hmem : (device, events) ∈ d.pending.values := mem_map.2 ⟨_, get_eq_some.1 hg, rfl⟩
  have hall := any_eq_false.1 h _ hmem
  simp at hall

/-! ## The conduct of the audit -/

theorem count_ofStream {e : Event} (he : e.teardown = some k) (l : List Event) : (ofStream k l).count e = l.count e :=
  count_filter (by simpa using he)

/-- **Each event of a teardown is in one place**, and once. -/
theorem Accounted.once (h : Accounted s) {e : Event} (he : e ∈ s.made) (hk : e.teardown = some k) :
    s.sent.count e + (heldOf s.deferred.pending k).count e + s.counted.count e = 1 := by
  have hparts := congrArg (List.count e) (h.parts k)
  have hmem : e ∈ ofStream k s.made := mem_filter.2 ⟨he, by simpa using hk⟩
  rw [count_append, count_append, count_ofStream hk, count_ofStream hk,
    count_eq_one_of_mem (h.distinct k) hmem] at hparts
  exact hparts

theorem Accounted.held (h : Accounted s)
    (hg : s.deferred.pending.get k = some (device, events)) : ∀ e ∈ events, e ∈ s.made ∧ e.teardown = some k := by
  intro e he
  have hheld : e ∈ heldOf s.deferred.pending k := by simpa [heldOf, hg] using he
  have hmem : e ∈ ofStream k s.made := by
    rw [← h.parts k]
    simp [hheld]
  obtain ⟨hmade, hk⟩ := mem_filter.1 hmem
  exact ⟨hmade, by simpa using hk⟩

/-- What holds of the audit after a run. -/
structure Conduct (l : List (Transition State Action)) (s : State) : Prop where
  /-- Each event of a teardown was told, is kept under its stream's key or is counted as lost, once. -/
  once : ∀ e ∈ s.made, ∃ k, e.teardown = some k ∧
    s.sent.count e + (heldOf s.deferred.pending k).count e + s.counted.count e = 1
  /-- Nothing else is kept. -/
  held : ∀ k device events, s.deferred.pending.get k = some (device, events) →
    ∀ e ∈ events, e ∈ s.made ∧ e.teardown = some k
  totals : s.sent.countP (fun e => e.teardown.isSome) + heldTotal s.deferred.pending + s.counted.length = s.made.length
  /-- The records that were told and the one at hand add up to what is counted. -/
  balance : s.counted.length ≤ usizeMax → total Event.reports s.sent + s.deferred.counting = s.counted.length
  /-- A stream's events are told in the order in which they were made. -/
  order : ∀ k, (ofStream k s.sent).IsPrefix (ofStream k s.made)
  pending : s.deferred.pending.size ≤ Deferred.MAX_PENDING
  /-- A stream that gets its reservation is of a device of which no bundle is kept. -/
  reserved : ∀ x ∈ l, ∀ k device, Reserved x.dst k device → ¬Reserved x.src k device →
    ∀ key events, x.src.deferred.pending.get key ≠ some (device, events)

/-- **Whatever is torn down, whatever the queue takes and whenever a flush comes.** -/
theorem audit_conduct {l : List (Transition State Action)} (h : Run l s) : Conduct l s := by
  have hs := accounted_run h
  constructor
  case once =>
    intro e he
    obtain ⟨k, hk⟩ := hs.owned e he
    exact ⟨k, hk, hs.once he hk⟩
  case held => exact fun k device events hg => hs.held hg
  case totals => exact hs.sums
  case balance => exact hs.balance
  case order =>
    intro k
    rw [← hs.parts k, append_assoc]
    exact prefix_append _ _
  case pending => exact hs.pending
  case reserved =>
    intro x hx k device hdst hsrc
    obtain ⟨past, later, -, hpast, hstep⟩ := h.transition x hx
    rcases reserved_step (accounted_run hpast) hstep hdst with hold | hnone
    · exact absurd hold hsrc
    · exact pendingFor_eq_false hnone

namespace Sample

/-- A stream opens and is torn down; the queue takes the first of its events, and the flush tells the second. -/
def halved : List Action :=
  [.admitOpen "d" 7 .control "s" (some "w") false, .reserveAnnouncement 1 true, .announce 1 (some "w"),
    .drop 1 "session-invalid" (fun n => decide (n = 0)) 0, .flush Visit.plain fun _ => true]

def played (acts : List Action) : Option (List (Transition State Action) × State) :=
  Trace.play (fun s a => (next s a).map (Prod.mk a)) acts [] State.new

theorem run_of_played (acts : List Action) {l : List (Transition State Action)} {s : State}
    (h : played acts = some (l, s)) : Run l s :=
  Trace.of_played rfl h

def flushed : List (Transition State Action) × State := (played halved).getD ([], State.new)

theorem run_flushed : Run flushed.1 flushed.2 := run_of_played halved rfl

end Sample

/-- Both events of the teardown are told after the opening's. -/
theorem audit_conduct_flushed :
    (Sample.flushed.2.made.length = 2 ∧ Sample.flushed.2.sent.length = 3 ∧ Sample.flushed.2.deferred.pending.size = 0) ∧
      Conduct Sample.flushed.1 Sample.flushed.2 :=
  ⟨by decide, audit_conduct Sample.run_flushed⟩

end WriteAudit
end Yuzora
