import Yuzora.PairingStory
/-!
# PairingNews — what the desktop is told of a pairing

One operation adds to the queue what it did to each entry and no more (`Mark`): an approval, an end with its reason, or
an end that an earlier operation could not announce.
-/
namespace Yuzora
namespace Pairing

/-! ## The events of one pairing -/

variable (id : String)

def isStateOf : Event → Bool
  | .pairingState pairing _ _ => Decidable.decide (pairing = id)
  | _ => false

/-- The `pairing.state` events of one pairing. -/
def stateEvents (events : List Event) : List Event := events.filter (isStateOf id)

@[simp] theorem stateEvents_nil : stateEvents id [] = [] := rfl

theorem stateEvents_append (l m : List Event) :
    stateEvents id (l ++ m) = stateEvents id l ++ stateEvents id m := List.filter_append l m

def ending (state : State) (reason : String) : Event :=
  .pairingState id (if state = .expired then "expired" else "rejected") reason

def approval (id reason : String) : Event := .pairingState id "approved" reason

/-- An end of a pairing and why: by its time, or by what the operation did. -/
def Ends (reason : String) (state : State) (why : String) : Prop :=
  state = .expired ∧ why = "ttl" ∨ state = .rejected ∧ why = reason

/-- What an operation did to an entry and what it told of it, where `reason` is why this operation rejects. -/
inductive Mark (reason id : String) : Entry → List Event → Entry → Prop
  | kept {src dst : Entry} : dst.state = src.state → dst.notification = src.notification → Mark reason id src [] dst
  | moved {src dst : Entry} (news : List Event) : src.live = true → dst.live = true →
      dst.notification = src.notification → (∀ e ∈ news, ∃ why, e = approval id why) → Mark reason id src news dst
  | registered {src dst : Entry} : src.live = true → dst.state = .registered → dst.notification = src.notification →
      Mark reason id src [] dst
  /-- The queue refused the announcement, or none was tried. -/
  | ended {src dst : Entry} (why : String) : src.live = true → Ends reason dst.state why →
      dst.notification = some why → Mark reason id src [] dst
  | told {src dst : Entry} (why : String) : src.live = true → Ends reason dst.state why → dst.notification = none →
      Mark reason id src [ending id dst.state why] dst
  | caughtUp {src dst : Entry} (why : String) : src.live = false → src.notification = some why →
      dst.state = src.state → dst.notification = none → Mark reason id src [ending id src.state why] dst

def Marks (reason id : String) (src : Entry) (events : EventSender) (dst : Entry) (sent : EventSender) : Prop :=
  ∃ news, sent.accepted = events.accepted ++ news ∧ (∀ other, other ≠ id → stateEvents other news = []) ∧
    Mark reason id src (stateEvents id news) dst

section Marks
variable {reason id why : String} {src mid dst : Entry} {events sent : EventSender} {dst' : Entry}

theorem Mark.quiet (h : Mark reason id src [] dst) (hsent : sent.accepted = events.accepted) :
    Marks reason id src events dst sent :=
  ⟨[], by rw [hsent, List.append_nil], fun _ _ => rfl, h⟩

theorem marks_kept (hstate : dst.state = src.state) (hnote : dst.notification = src.notification) :
    Marks reason id src events dst events :=
  Mark.quiet (.kept hstate hnote) rfl

theorem marks_same (reason id : String) (entry : Entry) (events : EventSender) :
    Marks reason id entry events entry events :=
  marks_kept rfl rfl

theorem stateEvents_other {other : String} (h : other ≠ id) (state text : String) :
    stateEvents other [.pairingState id state text] = [] := by
  simp [stateEvents, isStateOf, Ne.symm h]

theorem Mark.took {state text : String} (h : Mark reason id src [.pairingState id state text] dst) :
    Marks reason id src events dst (events.took (.pairingState id state text)) := by
  refine ⟨[.pairingState id state text], rfl, fun other ho => stateEvents_other ho state text, ?_⟩
  have hmine : stateEvents id [.pairingState id state text] = [.pairingState id state text] := by
    simp [stateEvents, isStateOf]
  rw [hmine]
  exact h

theorem Entry.notify_none (id : String) (events : EventSender) (h : mid.notification = none) :
    (mid.notify id events).2.1 = mid ∧ (mid.notify id events).2.2 = events := by
  rw [Entry.notify_quiet h]
  exact ⟨rfl, rfl⟩

/-- **An announcement** is enqueued and forgotten, or refused and kept. -/
theorem Entry.notify_some (id : String) (events : EventSender) (h : mid.notification = some why) :
    mid.notify id events = (.ok (), { mid with notification := none }, events.took (ending id mid.state why)) ∨
      mid.notify id events = (.error QUEUE_UNAVAILABLE, mid, events.refused) := by
  unfold Entry.notify
  rw [h]
  dsimp only
  rcases tryEmitEvent_cases events (ending id mid.state why) with ht | ht
  · left
    unfold ending at ht ⊢
    rw [ht]
  · right
    unfold ending at ht
    rw [ht]

theorem notify_ended (id : String) (events : EventSender) (hl : src.live = true) (he : Ends reason mid.state why)
    (hn : mid.notification = some why) :
    Marks reason id src events (mid.notify id events).2.1 (mid.notify id events).2.2 := by
  rcases Entry.notify_some id events hn with h | h
  · rw [h]
    exact (Mark.told why hl he rfl : Mark reason id src _ { mid with notification := none }).took
  · rw [h]
    exact (Mark.ended why hl he hn).quiet rfl

theorem notify_over (hl : src.live = false) :
    Marks reason id src events (src.notify id events).2.1 (src.notify id events).2.2 := by
  cases hn : src.notification with
  | none =>
    obtain ⟨h1, h2⟩ := Entry.notify_none id events hn
    rw [h1, h2]
    exact marks_same reason id src events
  | some why =>
    rcases Entry.notify_some id events hn with h | h
    · rw [h]
      exact (Mark.caughtUp why hl hn rfl rfl : Mark reason id src _ { src with notification := none }).took
    · rw [h]
      exact (Mark.kept rfl rfl).quiet rfl

/-- **The expiry check** leaves an entry as it is, or ends a live one. -/
theorem Entry.expire_cases (entry : Entry) (now : Timestamp) : entry.expire now = entry ∨
      entry.live = true ∧ entry.expire now = { entry.transition .expired with notification := some "ttl" } := by
  unfold Entry.expire
  split
  · rename_i h
    rw [Bool.and_eq_true] at h
    exact .inr ⟨h.1, rfl⟩
  · exact .inl rfl

theorem expire_marks (entry : Entry) (now : Timestamp) : Marks reason id entry events (entry.expire now) events := by
  rcases entry.expire_cases now with h | ⟨hl, h⟩
  · rw [h]
    exact marks_same reason id entry events
  · rw [h]
    exact (Mark.ended "ttl" hl (.inl ⟨rfl, rfl⟩) rfl).quiet rfl

theorem expire_notify_marks (reason id : String) (events : EventSender) (hs : src.Sound) (now : Timestamp) :
    Marks reason id src events
    ((src.expire now).notify id events).2.1 ((src.expire now).notify id events).2.2 := by
  rcases src.expire_cases now with h | ⟨hl, h⟩
  · rw [h]
    cases hl : src.live with
    | false => exact notify_over hl
    | true =>
      obtain ⟨h1, h2⟩ := Entry.notify_none id events (hs.quiet hl)
      rw [h1, h2]
      exact marks_same reason id src events
  · rw [h]
    exact notify_ended id events hl (.inl ⟨rfl, rfl⟩) rfl

def failReason (secondClaim : Bool) : String := if secondClaim then "second-claim" else "attempt-limit"

theorem fail_marks (hl : src.live = true) (secondClaim : Bool) : Marks (failReason secondClaim) id src events
    (src.fail id events secondClaim).2.1 (src.fail id events secondClaim).2.2 := by
  simp only [Entry.fail]
  split
  · generalize hm : ({ Entry.transition { src with failures := min (src.failures + 1) 255 } .rejected with
      notification := some (if secondClaim then "second-claim" else "attempt-limit") } : Entry) = mid
    have hends : Ends (failReason secondClaim) mid.state (failReason secondClaim) := hm ▸ .inr ⟨rfl, rfl⟩
    have hmarks := notify_ended id events hl hends (hm ▸ rfl)
    generalize Entry.notify mid id events = told at hmarks ⊢
    obtain ⟨e | _, _, _⟩ := told <;> exact hmarks
  · exact marks_kept rfl rfl

theorem Mark.congr {news : List Event} (h : Mark reason id src news dst) (hstate : dst'.state = dst.state)
    (hnote : dst'.notification = dst.notification) : Mark reason id src news dst' := by
  have hlive : dst'.live = dst.live := by rw [Entry.live, Entry.live, hstate]
  cases h with
  | kept hs hn => exact .kept (hstate.trans hs) (hnote.trans hn)
  | moved _ hl hl' hn ha => exact .moved _ hl (hlive.trans hl') (hnote.trans hn) ha
  | registered hl hs hn => exact .registered hl (hstate.trans hs) (hnote.trans hn)
  | ended why hl he hn => exact .ended why hl (hstate ▸ he) (hnote.trans hn)
  | told why hl he hn => exact hstate ▸ .told why hl (hstate ▸ he) (hnote.trans hn)
  | caughtUp why hl hsrc hs hn => exact .caughtUp why hl hsrc (hstate.trans hs) (hnote.trans hn)

theorem Marks.congr (h : Marks reason id src events dst sent) (hstate : dst'.state = dst.state)
    (hnote : dst'.notification = dst.notification) : Marks reason id src events dst' sent := by
  obtain ⟨news, hsent, hother, hm⟩ := h
  exact ⟨news, hsent, hother, hm.congr hstate hnote⟩

/-! ## The operations on one entry -/

variable {ext : External}

theorem authenticate_marks (ext : External) (src : Entry) (request : StatusRequest) (now : Timestamp)
    (events : EventSender) :
    Marks "attempt-limit" request.pairingId src events (Pairings.authenticate ext (src.expire now) request events).2.1
      (Pairings.authenticate ext (src.expire now) request events).2.2 := by
  unfold Pairings.authenticate
  simp only
  split
  · cases hl : (src.expire now).live with
    | false => exact expire_marks src now
    | true =>
      obtain ⟨he, hlive, -⟩ := Entry.expire_live hl
      rw [he]
      exact fail_marks hlive false
  · exact expire_marks src now

theorem statusEntry_marks (ext : External) (hs : src.Sound) (request : StatusRequest) (ticket : Option (Bytes 32))
    (clock : Readings) :
    Marks "attempt-limit" request.pairingId src events (Pairings.statusEntry ext src request ticket clock events).2.1
      (Pairings.statusEntry ext src request ticket clock events).2.2 := by
  have hauth : Marks "attempt-limit" request.pairingId src events _ _ :=
    authenticate_marks ext src request (clock.now 0) events
  unfold Pairings.statusEntry
  rcases authenticate_expire ext src request (clock.now 0) events with ⟨e, dst, sent, ha, -⟩ | ⟨ha, -⟩
  · rw [ha] at hauth ⊢
    exact hauth
  · rw [ha]
    have hnote : Marks "attempt-limit" request.pairingId src events _ _ := expire_notify_marks _ _ _ hs (clock.now 0)
    simp only
    generalize Entry.notify _ _ _ = told at hnote ⊢
    obtain ⟨e | _, dst, sent⟩ := told
    · exact hnote
    · simp only
      split
      · split
        · exact hnote
        · exact hnote.congr rfl rfl
      · exact hnote

theorem consumeEntry_marks (src : Entry) (supplied : Bytes 32) (clock : Readings) :
    Marks reason id src events (Pairings.consumeEntry ext src id supplied clock).2 events := by
  unfold Pairings.consumeEntry
  simp only
  split
  · exact expire_marks src _
  · split
    · exact expire_marks src _
    · rename_i hok
      rw [not_or, not_or, not_not] at hok
      split
      · exact expire_marks src _
      · obtain ⟨he, hlive, -⟩ := Entry.expire_live (Entry.live_of_approved hok.2.2)
        rw [he]
        exact Mark.quiet (.moved [] hlive rfl rfl (by simp)) rfl

/-- **A decision**: an approval, an end for the reason given, or nothing. -/
theorem decide_marks (src : Entry) {state : State} (hstate : state = .approved ∨ state = .rejected) (now : Timestamp) :
    Marks reason id src events (Pairings.decide src id state reason now events).2.1
      (Pairings.decide src id state reason now events).2.2 := by
  unfold Pairings.decide
  simp only
  split
  · exact expire_marks src now
  · rename_i hok
    rw [not_or] at hok
    obtain ⟨he, hlive, -⟩ := Entry.expire_live (by simpa using hok.1 : (src.expire now).live = true)
    rw [he]
    split
    · rename_i happ
      subst happ
      rcases tryEmitEvent_cases events (.pairingState id "approved" reason) with ht | ht
      · rw [ht]
        refine Mark.took (.moved _ hlive rfl rfl ?_)
        intro e hm
        exact ⟨reason, List.mem_singleton.1 hm⟩
      · rw [ht]
        exact marks_kept rfl rfl
    · rename_i hnot
      obtain rfl := hstate.resolve_left hnot
      have hends : Ends reason ({ src.transition .rejected with notification := some reason } : Entry).state reason :=
        .inr ⟨rfl, rfl⟩
      have hmarks := notify_ended id events hlive hends rfl
      generalize Entry.notify _ id events = told at hmarks ⊢
      obtain ⟨e | _, _, _⟩ := told <;> exact hmarks

theorem claimEntry_marks (hs : src.Sound) {request : ClaimRequest} {userAgent login : String} {nonce : Bytes 32}
    {draw : Pairings.ClaimDraw} {now : Timestamp} {answer : Except Failure ClaimResponse}
    (h : Pairings.claimEntry ext src request userAgent login nonce draw now events = .ok (answer, dst, sent)) :
    Marks (failReason src.claimHash.isSome) request.pairingId src events dst sent := by
  have hnote : Marks (failReason src.claimHash.isSome) request.pairingId src events _ _ := expire_notify_marks _ _ _ hs now
  unfold Pairings.claimEntry at h
  cases hl : (src.expire now).live with
  | false =>
    have hn := Entry.notify_live (src.expire now) request.pairingId events
    generalize Entry.notify _ _ _ = told at h hn hnote
    obtain ⟨e | _, noted, _⟩ := told
    · cases h
      exact hnote
    · have hnoted : noted.live = false := hn.trans hl
      simp only [hnoted] at h
      cases h
      exact hnote
  | true =>
    obtain ⟨he, hlive, -⟩ := Entry.expire_live hl
    simp only [he, Entry.notify_quiet (hs.quiet hlive), hlive, Bool.not_true] at h
    rw [if_neg (by decide)] at h
    split at h
    · rename_i hclaim
      cases h
      rw [hclaim]
      exact fail_marks hlive true
    rename_i hclaim
    rw [Bool.not_eq_true] at hclaim
    rw [hclaim]
    split at h
    · cases h
      exact fail_marks hlive false
    split at h
    iterate 3
      · cases h
        exact marks_same _ _ _ _
    · split at h
      · cases h
      · rename_i sas _
        rcases tryEmitEvent_cases events
          (.pairingClaimed request.pairingId request.deviceLabel sas login userAgent) with hsent | hsent
        · rw [hsent] at h
          cases h
          exact ⟨[.pairingClaimed request.pairingId request.deviceLabel sas login userAgent], rfl, fun _ _ => rfl,
            .kept rfl rfl⟩
        · rw [hsent] at h
          cases h
          exact marks_kept rfl rfl

end Marks

end Pairing
end Yuzora
