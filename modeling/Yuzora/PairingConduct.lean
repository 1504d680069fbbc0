import Mathlib.Data.List.Perm.Subperm
import Yuzora.PairingTold
/-!
# PairingConduct — how pairings end

Four live pairings and sixteen records at most, an end that is final, and one event for it (`pairings_conduct`).  A
pairing is what one `pairing.create` made: it lasts until its record is evicted, or until its identifier is drawn again.
-/
namespace Yuzora

namespace Table

variable {K V : Type} [DecidableEq K] {s t : Table K V}

theorem count_le_of_get {p q : K → V → Bool}
    (h : ∀ k v, t.get k = some v → p k v = true → ∃ w, s.get k = some w ∧ q k w = true) : t.count p ≤ s.count q := by
  have hnodup : ((t.entries.filter fun e => p e.1 e.2).map Prod.fst).Nodup := nodup_filter t.nodup _
  have hsub : (t.entries.filter fun e => p e.1 e.2).map Prod.fst ⊆ (s.entries.filter fun e => q e.1 e.2).map Prod.fst := by
    intro k hk
    obtain ⟨e, he, rfl⟩ := List.mem_map.1 hk
    obtain ⟨hm, hp⟩ := List.mem_filter.1 he
    obtain ⟨w, hw, hq⟩ := h e.1 e.2 (get_eq_some.2 hm) hp
    exact List.mem_map.2 ⟨(e.1, w), List.mem_filter.2 ⟨get_eq_some.1 hw, hq⟩, rfl⟩
  have hlen := (List.subperm_of_subset hnodup hsub).length_le
  simpa [count, List.countP_eq_length_filter] using hlen

theorem size_le_of_get (h : ∀ k v, t.get k = some v → ∃ w, s.get k = some w) : t.size ≤ s.size := by
  rw [size_eq_count, size_eq_count]
  refine count_le_of_get fun k v hv _ => ?_
  obtain ⟨w, hw⟩ := h k v hv
  exact ⟨w, hw, rfl⟩

end Table

namespace Pairing

open List Table

section Limits
variable {ext : External} {s t : Pairings}

/-- How many pairings are live and how many records are kept. -/
structure Limits (store : Pairings) : Prop where
  live : store.entries.count (fun _ entry => entry.live) ≤ MAX_LIVE
  records : store.entries.size ≤ MAX_RECORDS

/-- What the first table has is in the second, and what is live in it is live there. -/
def Shrinks (s t : Pairings) : Prop :=
  ∀ id dst, t.entries.get id = some dst → ∃ src, s.entries.get id = some src ∧ (dst.live = true → src.live = true)

theorem Shrinks.limits (h : Shrinks s t) (hs : Limits s) : Limits t := by
  constructor
  case live =>
    refine le_trans (count_le_of_get fun id dst hg hl => ?_) hs.live
    obtain ⟨src, hsrc, hlive⟩ := h id dst hg
    exact ⟨src, hsrc, hlive hl⟩
  case records =>
    refine le_trans (size_le_of_get fun id dst hg => ?_) hs.records
    obtain ⟨src, hsrc, -⟩ := h id dst hg
    exact ⟨src, hsrc⟩

theorem Mark.live {reason id : String} {src dst : Entry} {news : List Event} (h : Mark reason id src news dst)
    (hl : dst.live = true) : src.live = true := by
  cases h with
  | kept hs _ => rwa [Entry.live, ← hs]
  | moved _ hl | registered hl | ended _ hl | told _ hl => exact hl
  | caughtUp why hsrc _ hs _ =>
    rw [Entry.live, hs] at hl
    rw [Entry.live] at hsrc
    rw [hsrc] at hl
    cases hl

theorem shrinks_of_tells {x : Transition Desk Label} {events sent : EventSender}
    (h : StoreTells x s events t sent) (hno : ∀ id secret, ¬Created id secret x) : Shrinks s t := by
  obtain ⟨news, -, ht⟩ := h
  intro id dst hg
  have hid := ht id
  rw [hg] at hid
  generalize s.entries.get id = src at hid ⊢
  generalize stateEvents id news = mine at hid
  cases hid with
  | marked hm => exact ⟨_, rfl, hm.live⟩
  | created secret hc => exact absurd hc (hno id secret)

theorem create_limits {store : Pairings} (hs : Limits store) (events : EventSender) (path : String)
    (addToDevice : Option String) (draw : Pairings.Draw) (visit : Visit (String × Entry)) (now : Timestamp) :
    Limits (store.create ext events path addToDevice draw visit now).2.1 := by
  have shrink : ∀ oldest, Shrinks store { store with entries := store.entries.erase oldest } := by
    intro oldest id dst hg
    rw [get_erase] at hg
    split at hg
    · cases hg
    · exact ⟨dst, hg, fun h => h⟩
  unfold Pairings.create
  iterate 3
    split
    · exact hs
  split
  · exact hs
  simp only
  generalize hroom : (if store.entries.size ≥ MAX_RECORDS then _ else _) = made
  have hmade : ∀ room, made = some room → Limits room ∧ room.entries.size < MAX_RECORDS ∧
      room.entries.count (fun _ entry => entry.live) < MAX_LIVE := by
    rintro room rfl
    split at hroom
    · obtain ⟨oldest, ho, rfl⟩ := Option.map_eq_some_iff.1 hroom
      have hsmall := (shrink oldest).limits hs
      obtain ⟨e, he, rfl⟩ := Option.map_eq_some_iff.1 ho
      have hmem := (visit.perm _).mem_iff.1 (List.mem_filter.1 (minByKey_mem he)).1
      have hsize := size_erase_of_get (get_eq_some.2 hmem)
      have hrecords := hs.records
      have hcount := count_erase_le store.entries e.1 (fun _ entry => entry.live)
      exact ⟨hsmall, by simp only; omega, by simp only; omega⟩
    · rename_i hsize
      cases hroom
      exact ⟨hs, by omega, by omega⟩
  split
  · exact hs
  · exact (hmade _ rfl).1
  · exact (hmade _ rfl).1
  · rename_i room key secret hk hsecret
    obtain ⟨hlimits, hsize, hcount⟩ := hmade _ rfl
    rcases tryEmitEvent_cases events (.pairingCreated (encode key.1)
      (room.origin ++ "/pair#p=" ++ encode key.1 ++ "." ++ encode secret.1) (now.after TTL)) with he | he
    · rw [he]
      have hinsert := size_insert_le room.entries (encode key.1) (Pairings.fresh ext addToDevice secret (now.after TTL))
      have hadd := count_insert_le room.entries (encode key.1)
        (Pairings.fresh ext addToDevice secret (now.after TTL)) (fun _ entry => entry.live)
      constructor
      case live =>
        simp only [Pairings.put]
        split at hadd <;> omega
      case records =>
        simp only [Pairings.put]
        omega
    · rw [he]
      exact hlimits

theorem step_limits {s t : Desk} {label : Label} (hsound : ∀ id entry, s.store.entries.get id = some entry → entry.Sound)
    (hs : Limits s.store) (h : Step ext s label t) : Limits t.store := by
  by_cases hc : ∃ id secret, Created id secret ⟨s, label, t⟩
  · obtain ⟨id, secret, path, addToDevice, key, visit, hop, -, -⟩ := hc
    have hres := h.result
    rw [hop] at hres
    simp only [Pairings.step, Except.ok.injEq, Prod.mk.injEq] at hres
    have hstore : t.store = (s.store.create ext s.events path addToDevice ⟨some key, some secret⟩ visit
      (label.clock.now 0)).2.1 := by
      have := congrArg Prod.fst hres.2
      exact this.symm
    rw [hstore]
    exact create_limits hs s.events path addToDevice _ visit _
  · exact (shrinks_of_tells (step_tells hsound h) fun id secret hcr => hc ⟨id, secret, hcr⟩).limits hs

theorem run_limits {l : List (Transition Desk Label)} {s : Desk} (h : Run ext l s) : Limits s.store := by
  refine Trace.history (P := fun _ (s : Desk) => Limits s.store) ?_ ?_ h
  · rintro s ⟨publicHost, login, hs, -⟩
    rw [hs]
    exact ⟨Nat.zero_le _, Nat.zero_le _⟩
  · intro l s label t hr ih hstep
    exact step_limits (run_sound hr) ih hstep

end Limits

/-! ## One pairing from its creation on -/

section Account
variable {ext : External} {id : String} {later : List (Transition Desk Label)}

/-- The step ended the live pairing, as expired or as rejected for what it did. -/
def EndedBy (id : String) (state : State) (why : String) (y : Transition Desk Label) : Prop :=
  ∃ src dst, y.src.store.entries.get id = some src ∧ src.live = true ∧ y.dst.store.entries.get id = some dst ∧
    dst.state = state ∧ Ends (y.label.op.reason src) state why

def EndedOnce (id : String) (later : List (Transition Desk Label)) (state : State) (why : String) : Prop :=
  (∃ y ∈ later, EndedBy id state why y) ∧
    ∀ y ∈ later, ∀ state' why', EndedBy id state' why' y → state' = state ∧ why' = why

def Approvals (id : String) (events : List Event) : Prop := ∀ e ∈ events, ∃ reason, e = approval id reason

/-- Where a pairing stands: what its record says, and what was told since it was created. -/
inductive Account (id : String) (later : List (Transition Desk Label)) (told : List Event) : Option Entry → Prop
  | going {entry : Entry} : entry.live = true ∨ entry.state = .registered → entry.notification = none →
      (∀ y ∈ later, ∀ state why, ¬EndedBy id state why y) → Approvals id told → Account id later told (some entry)
  /-- The record of a registered pairing was evicted. -/
  | gone : (∀ y ∈ later, ∀ state why, ¬EndedBy id state why y) → Approvals id told → Account id later told none
  | waiting {entry : Entry} (why : String) : entry.live = false → entry.notification = some why →
      EndedOnce id later entry.state why → Approvals id told → Account id later told (some entry)
  | closed {o : Option Entry} (state : State) (why : String) (before : List Event) :
      (∀ entry, o = some entry → entry.live = false ∧ entry.state = state ∧ entry.notification = none) →
      EndedOnce id later state why → told = before ++ [ending id state why] → Approvals id before →
      Account id later told o

theorem Approvals.append {told news : List Event} (h : Approvals id told) (hn : Approvals id news) :
    Approvals id (told ++ news) := by
  intro e he
  rcases mem_append.1 he with he | he
  · exact h e he
  · exact hn e he

variable {z : Transition Desk Label} {src dst : Entry} {told news : List Event} {why : String}

theorem not_endedBy_of_src (h : z.src.store.entries.get id = some src) (hl : src.live = false) (state : State)
    (why : String) : ¬EndedBy id state why z := by
  rintro ⟨src', -, hsrc, hlive, -⟩
  cases h.symm.trans hsrc
  rw [hl] at hlive
  cases hlive

theorem not_endedBy_of_none (h : z.src.store.entries.get id = none) (state : State) (why : String) :
    ¬EndedBy id state why z := by
  rintro ⟨src, -, hsrc, -⟩
  rw [h] at hsrc
  cases hsrc

theorem not_endedBy_of_dst (h : z.dst.store.entries.get id = some dst) (hl : dst.live = true ∨ dst.state = .registered)
    (state : State) (why : String) : ¬EndedBy id state why z := by
  rintro ⟨src', dst', hsrc, hlive, hdst, rfl, he⟩
  cases h.symm.trans hdst
  rcases he with ⟨hs, -⟩ | ⟨hs, -⟩ <;> simp [Entry.live, hs] at hl

theorem EndedOnce.snoc {state : State} (h : EndedOnce id later state why)
    (hz : ∀ state why, ¬EndedBy id state why z) : EndedOnce id (later ++ [z]) state why := by
  obtain ⟨⟨y, hy, he⟩, honce⟩ := h
  refine ⟨⟨y, mem_append_left _ hy, he⟩, fun y' hy' state' why' he' => ?_⟩
  rcases mem_append.1 hy' with hy' | hy'
  · exact honce y' hy' state' why' he'
  · rw [mem_singleton.1 hy'] at he'
    exact absurd he' (hz state' why')

theorem EndedOnce.now (hno : ∀ y ∈ later, ∀ state why, ¬EndedBy id state why y)
    (hsrc : z.src.store.entries.get id = some src) (hlive : src.live = true)
    (hdst : z.dst.store.entries.get id = some dst) (he : Ends (z.label.op.reason src) dst.state why) :
    EndedOnce id (later ++ [z]) dst.state why := by
  refine ⟨⟨z, mem_append_right _ (mem_singleton_self z), src, dst, hsrc, hlive, hdst, rfl, he⟩, ?_⟩
  intro y hy state' why' he'
  rcases mem_append.1 hy with hy | hy
  · exact absurd he' (hno y hy state' why')
  · obtain rfl := mem_singleton.1 hy
    obtain ⟨src', dst', hsrc', -, hdst', rfl, he'⟩ := he'
    cases hsrc.symm.trans hsrc'
    cases hdst.symm.trans hdst'
    refine ⟨rfl, ?_⟩
    rcases he with ⟨hs, rfl⟩ | ⟨hs, rfl⟩ <;> rcases he' with ⟨hs', rfl⟩ | ⟨hs', rfl⟩
    · rfl
    · rw [hs] at hs'
      cases hs'
    · rw [hs] at hs'
      cases hs'
    · rfl

theorem no_ends_later (hno : ∀ y ∈ later, ∀ state why, ¬EndedBy id state why y)
    (hz : ∀ state why, ¬EndedBy id state why z) : ∀ y ∈ later ++ [z], ∀ state why, ¬EndedBy id state why y := by
  intro y hy
  rcases mem_append.1 hy with hy | hy
  · exact hno y hy
  · rw [mem_singleton.1 hy]
    exact hz

theorem live_of_state (h : dst.state = src.state) : dst.live = src.live := by rw [Entry.live, Entry.live, h]

/-- **A step keeps the account of a pairing.** -/
theorem Account.step {o o' : Option Entry} (h : Account id later told o) (ho : z.src.store.entries.get id = o)
    (ho' : z.dst.store.entries.get id = o') (ht : Tells z id o news o') (hno : ∀ secret, ¬Created id secret z) :
    Account id (later ++ [z]) (told ++ news) o' := by
  cases ht with
  | created secret hc => exact absurd hc (hno secret)
  | absent =>
    rw [append_nil]
    have hz := not_endedBy_of_none ho
    cases h with
    | gone hends happ => exact .gone (no_ends_later hends hz) happ
    | closed state why before hrec honce htold happ => exact .closed state why before hrec (honce.snoc hz) htold happ
  | @evicted src hl hn =>
    rw [append_nil]
    have hz := not_endedBy_of_src ho hl
    cases h with
    | going hstate hnote hends happ => exact .gone (no_ends_later hends hz) happ
    | waiting why hl' hnote =>
      rw [hn] at hnote
      cases hnote
    | closed state why before hrec honce htold happ =>
      exact .closed state why before (fun _ h => by cases h) (honce.snoc hz) htold happ
  | @marked src dst _ hm =>
    cases h with
    | going hstate hnote hends happ =>
      cases hm with
      | kept hs hn =>
        have hgoing : dst.live = true ∨ dst.state = .registered := by rwa [live_of_state hs, hs]
        exact .going hgoing (hn.trans hnote) (no_ends_later hends (not_endedBy_of_dst ho' hgoing))
          (happ.append (by simp [Approvals]))
      | moved _ hl hl' hn hnews =>
        exact .going (.inl hl') (hn.trans hnote) (no_ends_later hends (not_endedBy_of_dst ho' (.inl hl')))
          (happ.append hnews)
      | registered hl hs hn =>
        exact .going (.inr hs) (hn.trans hnote) (no_ends_later hends (not_endedBy_of_dst ho' (.inr hs)))
          (happ.append (by simp [Approvals]))
      | ended why hl he hn =>
        have hover : dst.live = false := by rcases he with ⟨hs, -⟩ | ⟨hs, -⟩ <;> rw [Entry.live, hs]
        rw [append_nil]
        exact .waiting why hover hn (.now hends ho hl ho' he) happ
      | told why hl he hn =>
        have hover : dst.live = false := by rcases he with ⟨hs, -⟩ | ⟨hs, -⟩ <;> rw [Entry.live, hs]
        refine .closed dst.state why told ?_ (.now hends ho hl ho' he) rfl happ
        intro entry hentry
        cases hentry
        exact ⟨hover, rfl, hn⟩
      | caughtUp why hl hsrc hs hn =>
        rw [hnote] at hsrc
        cases hsrc
    | waiting why hl hnote honce happ =>
      have hz := not_endedBy_of_src ho hl
      cases hm with
      | kept hs hn =>
        rw [append_nil]
        exact .waiting why ((live_of_state hs).trans hl) (hn.trans hnote) (hs ▸ honce.snoc hz) happ
      | caughtUp why' hl' hsrc hs hn =>
        cases hnote.symm.trans hsrc
        refine .closed src.state why told ?_ (honce.snoc hz) rfl happ
        intro entry hentry
        cases hentry
        exact ⟨(live_of_state hs).trans hl, hs, hn⟩
      | moved _ hl' | registered hl' | ended _ hl' | told _ hl' =>
        rw [hl] at hl'
        cases hl'
    | closed state why before hrec honce htold happ =>
      obtain ⟨hl, hs', hn'⟩ := hrec src rfl
      have hz := not_endedBy_of_src ho hl
      cases hm with
      | kept hs hn =>
        rw [append_nil]
        refine .closed state why before ?_ (honce.snoc hz) htold happ
        intro entry hentry
        cases hentry
        exact ⟨(live_of_state hs).trans hl, hs.trans hs', hn.trans hn'⟩
      | caughtUp why' hl' hsrc =>
        rw [hn'] at hsrc
        cases hsrc
      | moved _ hl' | registered hl' | ended _ hl' | told _ hl' =>
        rw [hl] at hl'
        cases hl'

/-! ## Runs -/

theorem create_ok {store : Pairings} {events : EventSender} {path : String} {addToDevice : Option String}
    {key : Bytes 16} {secret : Option (Bytes 32)} {visit : Visit (String × Entry)} {now : Timestamp}
    (h : (store.create ext events path addToDevice ⟨some key, secret⟩ visit now).1 = .ok .applied) :
    ∃ entry, (store.create ext events path addToDevice ⟨some key, secret⟩ visit now).2.1.entries.get (encode key.1) =
      some entry ∧ entry.live = true ∧ entry.notification = none := by
  revert h
  unfold Pairings.create
  iterate 4
    split
    · intro h
      cases h
  simp only
  generalize (if store.entries.size ≥ MAX_RECORDS then _ else _) = made
  split
  · intro h
    cases h
  · intro h
    cases h
  · intro h
    cases h
  · rename_i room key' secret' hk
    obtain rfl : key = key' := Option.some.inj hk
    intro h
    split at h
    · cases h
    · exact ⟨_, get_insert_self _ _ _, rfl, rfl⟩

theorem created_record {s t : Desk} {label : Label} {secret : Bytes 32} (h : Step ext s label t)
    (hc : Created id secret ⟨s, label, t⟩) :
    ∃ entry, t.store.entries.get id = some entry ∧ entry.live = true ∧ entry.notification = none := by
  obtain ⟨path, addToDevice, key, visit, hop, rfl, hout⟩ := hc
  have hres := h.result
  rw [hop, hout] at hres
  simp only [Pairings.step, Pairings.command, Except.ok.injEq, Prod.mk.injEq, Outcome.command.injEq] at hres
  obtain ⟨hanswer, hstore⟩ := hres
  obtain ⟨entry, hg, hentry⟩ := create_ok hanswer
  rw [hstore] at hg
  exact ⟨entry, hg, hentry⟩

/-- **The account of a pairing holds from its creation on.** -/
theorem run_account {l : List (Transition Desk Label)} {s : Desk} (h : Run ext l s) :
    ∀ past x later secret, l = past ++ x :: later → Created id secret x → (∀ y ∈ later, ∀ secret, ¬Created id secret y) →
      ∃ told, s.events.accepted = x.dst.events.accepted ++ told ∧
        Account id later (stateEvents id told) (s.store.entries.get id) := by
  refine Trace.history (P := fun l (s : Desk) => ∀ past x later secret, l = past ++ x :: later → Created id secret x →
    (∀ y ∈ later, ∀ secret, ¬Created id secret y) → ∃ told, s.events.accepted = x.dst.events.accepted ++ told ∧
      Account id later (stateEvents id told) (s.store.entries.get id)) ?_ ?_ h
  · intro s hs past x later secret hl
    simp at hl
  · intro l s label t hr ih hstep past x later secret hl hc hno
    rcases eq_nil_or_concat later with rfl | ⟨mid, y, rfl⟩
    · obtain ⟨rfl, hx⟩ := append_inj' hl rfl
      obtain rfl := head_eq_of_cons_eq hx
      obtain ⟨entry, hg, hlive, hnote⟩ := created_record hstep hc
      refine ⟨[], (append_nil _).symm, ?_⟩
      rw [hg]
      exact .going (.inl hlive) hnote (by simp) (by simp [Approvals])
    · rw [concat_eq_append] at hl hno ⊢
      rw [← cons_append, ← append_assoc] at hl
      obtain ⟨rfl, hy⟩ := append_inj' hl rfl
      obtain rfl := head_eq_of_cons_eq hy
      obtain ⟨told, htold, hacc⟩ := ih past x mid secret rfl hc fun y hy => hno y (mem_append_left _ hy)
      obtain ⟨news, hnews, htells⟩ := step_tells (run_sound hr) hstep
      refine ⟨told ++ news, ?_, ?_⟩
      · rw [hnews, htold, append_assoc]
      · rw [stateEvents_append]
        exact hacc.step rfl rfl (htells id) (hno _ mem_concat_self)

/-- **An end is final.** -/
theorem run_final {l past later : List (Transition Desk Label)} {x : Transition Desk Label} {s : Desk} {entry : Entry}
    (h : Run ext l s) (hl : l = past ++ x :: later) (hg : x.dst.store.entries.get id = some entry)
    (hover : entry.live = false) (hno : ∀ y ∈ later, ∀ secret, ¬Created id secret y) :
    ∀ entry', s.store.entries.get id = some entry' → entry'.live = false ∧ entry'.state = entry.state := by
  have hsplit : ∀ mid y rest, later = mid ++ y :: rest → Run ext (past ++ x :: mid) y.src := by
    rintro mid y rest rfl
    exact (h.split (by rw [hl, append_assoc, cons_append] : l = (past ++ x :: mid) ++ y :: rest)).1
  refine Trace.persists (P := fun (s : Desk) => ∀ entry', s.store.entries.get id = some entry' →
    entry'.live = false ∧ entry'.state = entry.state) h hl ?_ ?_
  · intro entry' hg'
    cases hg.symm.trans hg'
    exact ⟨hover, rfl⟩
  · intro y hy hstep hsrc entry' hg'
    obtain ⟨mid, rest, hlater⟩ := append_of_mem hy
    obtain ⟨news, -, htells⟩ := step_tells (run_sound (hsplit mid y rest hlater)) hstep
    have hid := htells id
    rw [hg'] at hid
    generalize ho : y.src.store.entries.get id = o at hid
    generalize stateEvents id news = mine at hid
    cases hid with
    | created secret hc => exact absurd hc (hno y hy secret)
    | marked hm =>
      obtain ⟨hl', hs'⟩ := hsrc _ ho
      cases hm with
      | kept hs | caughtUp _ _ _ hs => exact ⟨(live_of_state hs).trans hl', hs.trans hs'⟩
      | moved _ hl'' | registered hl'' | ended _ hl'' | told _ hl'' =>
        rw [hl'] at hl''
        cases hl''

/-! ## Conduct -/

/-- What the desktop was told of a pairing, from its creation on. -/
structure Reported (id : String) (later : List (Transition Desk Label)) (told : List Event) (record : Option Entry) :
    Prop where
  /-- An end was told once, as it was and as the last word, or it is kept for the next attempt. -/
  ended : ∀ y ∈ later, ∀ state why, EndedBy id state why y →
    (∃ before, told = before ++ [ending id state why] ∧ Approvals id before) ∨
    Approvals id told ∧ ∃ entry, record = some entry ∧ entry.state = state ∧ entry.notification = some why
  /-- Without an end, none was told. -/
  going : (∀ y ∈ later, ∀ state why, ¬EndedBy id state why y) → Approvals id told
  reached : ∀ entry, record = some entry → entry.state = .rejected ∨ entry.state = .expired →
    ∃ y ∈ later, ∃ why, EndedBy id entry.state why y

theorem Account.reported {o : Option Entry} {told : List Event} (h : Account id later told o) :
    Reported id later told o := by
  cases h with
  | going hstate hnote hends happ =>
    constructor
    case ended => exact fun y hy state why he => absurd he (hends y hy state why)
    case going => exact fun _ => happ
    case reached =>
      intro entry hentry hs
      cases hentry
      rcases hs with hs | hs <;> simp [Entry.live, hs] at hstate
  | gone hends happ =>
    constructor
    case ended => exact fun y hy state why he => absurd he (hends y hy state why)
    case going => exact fun _ => happ
    case reached => exact fun entry hentry => by cases hentry
  | @waiting entry why hl hnote honce happ =>
    obtain ⟨⟨y, hy, he⟩, hunique⟩ := honce
    constructor
    case ended =>
      intro y' hy' state why' he'
      obtain ⟨rfl, rfl⟩ := hunique y' hy' state why' he'
      exact .inr ⟨happ, entry, rfl, rfl, hnote⟩
    case going => exact fun hno => absurd he (hno y hy _ _)
    case reached =>
      intro entry' hentry hs
      cases hentry
      exact ⟨y, hy, why, he⟩
  | closed state why before hrec honce htold happ =>
    obtain ⟨⟨y, hy, he⟩, hunique⟩ := honce
    constructor
    case ended =>
      intro y' hy' state' why' he'
      obtain ⟨rfl, rfl⟩ := hunique y' hy' state' why' he'
      exact .inl ⟨before, htold, happ⟩
    case going => exact fun hno => absurd he (hno y hy _ _)
    case reached =>
      intro entry hentry hs
      obtain ⟨-, rfl, -⟩ := hrec entry hentry
      exact ⟨y, hy, why, he⟩

/-- How the pairings of a run conduct themselves. -/
structure Conduct (l : List (Transition Desk Label)) (s : Desk) : Prop where
  live : s.store.entries.count (fun _ entry => entry.live) ≤ 4
  records : s.store.entries.size ≤ 16
  /-- An evicted record is over, and its end was announced. -/
  evicted : ∀ x ∈ l, ∀ id entry, x.src.store.entries.get id = some entry → x.dst.store.entries.get id = none →
    entry.live = false ∧ entry.notification = none
  /-- A pairing that is over does not come back. -/
  final : ∀ past x later id entry, l = past ++ x :: later → x.dst.store.entries.get id = some entry →
    entry.live = false → (∀ y ∈ later, ∀ secret, ¬Created id secret y) →
      ∀ entry', s.store.entries.get id = some entry' → entry'.live = false ∧ entry'.state = entry.state
  reported : ∀ past x later id secret, l = past ++ x :: later → Created id secret x →
    (∀ y ∈ later, ∀ secret, ¬Created id secret y) → ∃ told, s.events.accepted = x.dst.events.accepted ++ told ∧
      Reported id later (stateEvents id told) (s.store.entries.get id)

/-- **Whatever is called and in whatever order, whatever the queue takes.** -/
theorem pairings_conduct {l : List (Transition Desk Label)} {s : Desk} (h : Run ext l s) : Conduct l s := by
  have hlimits := run_limits h
  constructor
  case live => exact hlimits.live
  case records => exact hlimits.records
  case evicted =>
    intro x hx id entry hsrc hdst
    obtain ⟨past, later, -, hpast, hstep⟩ := h.transition x hx
    obtain ⟨news, -, htells⟩ := step_tells (run_sound hpast) hstep
    have hid := htells id
    rw [hsrc, hdst] at hid
    generalize stateEvents id news = mine at hid
    cases hid with
    | evicted hl hn => exact ⟨hl, hn⟩
  case final => exact fun past x later id entry hl hg hover hno => run_final h hl hg hover hno
  case reported =>
    intro past x later id secret hl hc hno
    obtain ⟨told, htold, hacc⟩ := run_account h past x later secret hl hc hno
    exact ⟨told, htold, hacc.reported⟩

end Account

namespace Sample

/-- The queue takes the creation, refuses the rejection, and takes what comes later. -/
def crowded : Desk := { started with events := ⟨fun n => Decidable.decide (n ≠ 1), 0, []⟩ }

/-- A pairing is created and rejected, and the maintenance pass catches up with its event. -/
def rejection : List (Op × Readings) :=
  [(.commandBegin (.create "tailscale" none) Visit.plain, «at» 0),
    (.commandEnd (.create "tailscale" none) ⟨some (filled 16 7), some (filled 32 6)⟩ Visit.plain, «at» 0),
    (.commandBegin (.reject id) Visit.plain, «at» 10),
    (.commandEnd (.reject id) ⟨none, none⟩ Visit.plain, «at» 10),
    (.maintenance Visit.plain, «at» 20)]

def rejected : List (Transition Desk Label) × Desk :=
  (Trace.play (Desk.next ext) rejection [] crowded).getD ([], crowded)

theorem run_rejected : Run ext rejected.1 rejected.2 :=
  Trace.of_play next_step (.start ⟨"desktop.tailnet.ts.net", "user@example.com", rfl, rfl⟩ : Run ext [] crowded)
    (show Trace.play (Desk.next ext) rejection [] crowded = some rejected by rfl)

end Sample

/-- A rejection that the queue refused is told by the maintenance pass. -/
theorem pairings_conduct_rejected :
    stateEvents Sample.id Sample.rejected.2.events.accepted = [ending Sample.id .rejected "rejected"] ∧
      Conduct Sample.rejected.1 Sample.rejected.2 :=
  ⟨by decide, pairings_conduct Sample.run_rejected⟩

end Pairing
end Yuzora
