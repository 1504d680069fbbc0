import Yuzora.CompanionChannels
import Yuzora.CompanionConduct
/-!
# CompanionAnswers — what callers get

A caller that was given a slot waits for it until it is filled; what it returns is what the slot holds, or its own
timeout.
-/
namespace Yuzora
namespace Companion

open List
open Pool (history Owed)

/-- **How a request ends**: refused, answered on its own slot, dropped, or too late. -/
inductive Receives (past : List (Asked Command Reply)) : Except String Json → Prop
  | refused (command : Json) (want : Want) (code : String) :
      ⟨.sendRequest command want, (.error code : Except String (Nat × Nat))⟩ ∈ past → Receives past (.error code)
  | replied (command : Json) (want : Want) (slot g : Nat) (result : Except String Json) :
      ⟨.sendRequest command want, (.ok (slot, g) : Except String (Nat × Nat))⟩ ∈ past →
        ⟨.waitReply slot, (some (some result) : Option (Option (Except String Json)))⟩ ∈ past → Receives past result
  | dropped (command : Json) (want : Want) (slot g : Nat) :
      ⟨.sendRequest command want, (.ok (slot, g) : Except String (Nat × Nat))⟩ ∈ past →
        ⟨.waitReply slot, (some none : Option (Option (Except String Json)))⟩ ∈ past →
          Receives past (.error "companion-exited")
  | late (command : Json) (want : Want) (slot g : Nat) (halted : Option Halted) :
      ⟨.sendRequest command want, (.ok (slot, g) : Except String (Nat × Nat))⟩ ∈ past →
        ⟨.waitReply slot, (none : Option (Option (Except String Json)))⟩ ∈ past → ⟨.timeOut g, halted⟩ ∈ past →
          Receives past (.error "companion-timeout")

/-- **How a call for the peers ends.** -/
inductive Learns (past : List (Asked Command Reply)) : Except String Json → Prop
  | refused (code : String) : ⟨.sendPeers, (.error code : Except String (Nat × Nat))⟩ ∈ past →
      Learns past (.error code)
  | replied (i slot : Nat) (snapshot : Json) : ⟨.sendPeers, (.ok (i, slot) : Except String (Nat × Nat))⟩ ∈ past →
      ⟨.waitPeers slot, (some (some snapshot) : Option (Option Json))⟩ ∈ past → Learns past (.ok snapshot)
  | dropped (i slot : Nat) : ⟨.sendPeers, (.ok (i, slot) : Except String (Nat × Nat))⟩ ∈ past →
      ⟨.waitPeers slot, (some none : Option (Option Json))⟩ ∈ past → Learns past (.error "companion-exited")
  | late (i slot : Nat) : ⟨.sendPeers, (.ok (i, slot) : Except String (Nat × Nat))⟩ ∈ past →
      ⟨.waitPeers slot, (none : Option (Option Json))⟩ ∈ past → Learns past (.error "companion-timeout")

/-! ## Programs -/

section Programs

variable {past : List (Asked Command Reply)} {ends : List (Asked Command Reply) → Except String Json → Prop}

theorem along_call {c : Command} {next : Reply c → M Json}
    (h : ∀ r, (next r).Along (fun _ _ => True) ends (past ++ [⟨c, r⟩])) :
    (Prog.call c next).Along (fun _ _ => True) ends past := ⟨trivial, h⟩

theorem mem_last {a : Asked Command Reply} : a ∈ past ++ [a] := mem_concat_self

theorem finishTurn_along {result : Except String Json} (h : ∀ a, Receives (past ++ [a]) result) :
    (finishTurn result).Along (fun _ _ => True) Receives past := along_call fun _ => h _

theorem publishHalted_along {k : Unit → M Json} (halted : Option Halted)
    (h : ∀ more, (k ()).Along (fun _ _ => True) Receives (past ++ more)) :
    (publishHalted halted >>= k).Along (fun _ _ => True) Receives past := by
  cases halted with
  | none =>
    have := h []
    rwa [append_nil] at this
  | some halted =>
    refine along_call fun r => ?_
    obtain ⟨kill, status⟩ := halted
    cases kill with
    | none => exact h _
    | some g =>
      refine along_call fun r' => ?_
      have := h [⟨.emit (statusEvent status), r⟩, ⟨.spawnTask (.killAfterClosing g), r'⟩]
      rw [append_cons] at this
      exact this

theorem request_along (command : Json) (want : Want) : (request command want).Along (fun _ _ => True) Receives [] := by
  refine along_call fun _ => along_call fun sent => ?_
  match sent with
  | .error code => exact finishTurn_along fun _ => .refused command want code (mem_append_left _ mem_last)
  | .ok (slot, g) =>
    refine along_call fun reply => ?_
    match reply with
    | some (some result) =>
      refine finishTurn_along fun _ => .replied command want slot g result ?_ (mem_append_left _ mem_last)
      exact mem_append_left _ (mem_append_left _ mem_last)
    | some none =>
      refine finishTurn_along fun _ => .dropped command want slot g ?_ (mem_append_left _ mem_last)
      exact mem_append_left _ (mem_append_left _ mem_last)
    | none =>
      refine along_call fun halted => publishHalted_along halted fun more => finishTurn_along fun _ =>
        .late command want slot g halted ?_ ?_ ?_
      · exact mem_append_left _ (mem_append_left _ (mem_append_left _ (mem_append_left _ mem_last)))
      · exact mem_append_left _ (mem_append_left _ (mem_append_left _ mem_last))
      · exact mem_append_left _ (mem_append_left _ mem_last)

theorem peers_along : peers.Along (fun _ _ => True) Learns [] := by
  refine along_call fun sent => ?_
  match sent with
  | .error code => exact .refused code mem_last
  | .ok (i, slot) =>
    refine along_call fun answer => along_call fun _ => ?_
    match answer with
    | some (some snapshot) =>
      exact .replied i slot snapshot (mem_append_left _ (mem_append_left _ mem_last))
        (mem_append_left _ mem_last)
    | some none =>
      exact .dropped i slot (mem_append_left _ (mem_append_left _ mem_last)) (mem_append_left _ mem_last)
    | none =>
      exact .late i slot (mem_append_left _ (mem_append_left _ mem_last)) (mem_append_left _ mem_last)

end Programs

/-! ## Runs -/

def handed : (c : Command) → Reply c → Option Nat
  | .sendRequest _ _, .ok (slot, _) => some slot
  | .sendPeers, .ok (_, slot) => some slot
  | _, _ => none

/-- What an answer says of the channels from then on. -/
structure Attests (c : Channels) (a : Asked Command Reply) : Prop where
  handed : ∀ k, handed a.command a.reply = some k → k < c.nextSlot
  sent : ∀ command want slot g, a = ⟨.sendRequest command want, (.ok (slot, g) : Except String (Nat × Nat))⟩ →
    (∃ p, c.pending = some p ∧ p.reply = slot) ∨ ∃ v, c.replies.get slot = some v
  joined : ∀ i slot, a = ⟨.sendPeers, (.ok (i, slot) : Except String (Nat × Nat))⟩ →
    c.peerWaits.get i = some slot ∨ ∃ v, c.answers.get slot = some v
  replied : ∀ slot v, a = ⟨.waitReply slot, (some v : Option (Option (Except String Json)))⟩ →
    c.replies.get slot = some v
  answered : ∀ slot v, a = ⟨.waitPeers slot, (some v : Option (Option Json))⟩ → c.answers.get slot = some v

variable {a : Asked Command Reply} {inputOpen : Bool}

theorem Attests.later {c d : Channels} (h : Attests c a) (hs : Serves c d) : Attests d a := by
  refine ⟨fun k hk => (h.handed k hk).trans_le hs.slots, fun command want slot g ha => ?_, fun i slot ha => ?_,
    fun slot v ha => hs.replies slot v (h.replied slot v ha), fun slot v ha => hs.answers slot v (h.answered slot v ha)⟩
  · rcases h.sent command want slot g ha with ⟨p, hp, rfl⟩ | ⟨v, hv⟩
    · exact (hs.pending p hp).imp_left fun hp => ⟨p, hp, rfl⟩
    · exact .inr ⟨v, hs.replies slot v hv⟩
  · rcases h.joined i slot ha with hk | ⟨v, hv⟩
    · exact hs.peers i slot hk
    · exact .inr ⟨v, hs.answers slot v hv⟩

theorem Attests.of_silent {c : Channels} (h : Companion.handed a.command a.reply = none)
    (hr : ∀ slot v, a ≠ ⟨.waitReply slot, (some v : Option (Option (Except String Json)))⟩)
    (ha : ∀ slot v, a ≠ ⟨.waitPeers slot, (some v : Option (Option Json))⟩) : Attests c a := by
  refine ⟨fun k hk => ?_, fun command want slot g hs => ?_, fun i slot hs => ?_, fun slot v hs => absurd hs (hr slot v),
    fun slot v hs => absurd hs (ha slot v)⟩
  · rw [h] at hk
    cases hk
  · subst hs
    cases h
  · subst hs
    cases h

theorem sendRequest_ok {s : Shared} {command : Json} {want : Want} {slot g : Nat}
    (h : (sendRequest inputOpen command want s).1 = .ok (slot, g)) :
    slot = s.nextSlot ∧ (sendRequest inputOpen command want s).2.inner.pending = some ⟨want, slot⟩ ∧
      (sendRequest inputOpen command want s).2.nextSlot = slot + 1 := by
  unfold sendRequest at h ⊢
  split at h
  · cases h
  · rename_i hc
    rw [if_neg hc]
    have hslot : (dropPending (send s.inner.generation command s)).nextSlot = s.nextSlot := by
      rw [dropPending]
      split <;> rfl
    cases h
    exact ⟨hslot, rfl, rfl⟩

theorem sendPeers_ok {s : Shared} {i slot : Nat} (h : (sendPeers inputOpen s).1 = .ok (i, slot)) :
    slot = s.nextSlot ∧ (sendPeers inputOpen s).2.inner.peerWaits.get i = some slot ∧
      (sendPeers inputOpen s).2.nextSlot = slot + 1 := by
  unfold sendPeers at h ⊢
  dsimp only at h ⊢
  split at h
  · cases h
  · rename_i hc
    rw [if_neg hc]
    cases h
    exact ⟨rfl, Table.get_insert_self _ _ _, rfl⟩

/-- **What a command answers holds after it.** -/
theorem perform_attests (outside : Outside) (chance : Chance) (s : Shared) (c : Command) :
    Attests (perform outside chance s c).2.channels ⟨c, (perform outside chance s c).1⟩ := by
  cases c with
  | sendRequest command want =>
    change Attests (sendRequest chance.inputOpen command want s).2.channels
      ⟨.sendRequest command want, (sendRequest chance.inputOpen command want s).1⟩
    cases hr : (sendRequest chance.inputOpen command want s).1 with
    | error code => exact .of_silent rfl nofun fun _ _ h => by cases h
    | ok r =>
      obtain ⟨slot, g⟩ := r
      obtain ⟨-, hpending, hnext⟩ := sendRequest_ok hr
      refine ⟨fun k hk => ?_, fun _ _ _ _ h => ?_, fun _ _ h => ?_, fun _ _ h => ?_, fun _ _ h => ?_⟩
      · cases hk
        change slot < (sendRequest chance.inputOpen command want s).2.nextSlot
        rw [hnext]
        exact Nat.lt_succ_self slot
      · cases h
        exact .inl ⟨_, hpending, rfl⟩
      all_goals cases h
  | sendPeers =>
    change Attests (sendPeers chance.inputOpen s).2.channels ⟨.sendPeers, (sendPeers chance.inputOpen s).1⟩
    cases hr : (sendPeers chance.inputOpen s).1 with
    | error code => exact .of_silent rfl nofun fun _ _ h => by cases h
    | ok r =>
      obtain ⟨i, slot⟩ := r
      obtain ⟨-, hpeers, hnext⟩ := sendPeers_ok hr
      refine ⟨fun k hk => ?_, fun _ _ _ _ h => ?_, fun _ _ h => ?_, fun _ _ h => ?_, fun _ _ h => ?_⟩
      · cases hk
        change slot < (sendPeers chance.inputOpen s).2.nextSlot
        rw [hnext]
        exact Nat.lt_succ_self slot
      · cases h
      · cases h
        exact .inl hpeers
      all_goals cases h
  | waitReply slot =>
    refine ⟨fun k hk => ?_, fun _ _ _ _ h => ?_, fun _ _ h => ?_, fun slot' v h => ?_, fun _ _ h => ?_⟩
    · cases hk
    · cases h
    · cases h
    · obtain ⟨rfl, hv⟩ : slot = slot' ∧ s.replies.get slot = some v := by
        injection h with h1 h2
        cases h1
        exact ⟨rfl, h2⟩
      exact hv
    · cases h
  | waitPeers slot =>
    refine ⟨fun k hk => ?_, fun _ _ _ _ h => ?_, fun _ _ h => ?_, fun _ _ h => ?_, fun slot' v h => ?_⟩
    · cases hk
    · cases h
    · cases h
    · cases h
    · obtain ⟨rfl, hv⟩ : slot = slot' ∧ s.answers.get slot = some v := by
        injection h with h1 h2
        cases h1
        exact ⟨rfl, h2⟩
      exact hv
  | _ => exact .of_silent rfl nofun nofun

/-- **What holds of the callers in every state of a run.** -/
structure Holds (l : List Event) (t : Moment) : Prop where
  waiting : Waiting t.shared.channels
  attests : ∀ id, ∀ a ∈ history id l, Attests t.shared.channels a

theorem waiting_fresh (disk : Devices) (push : Subscriptions) : Waiting (fresh disk push).channels := by
  refine ⟨fun p hp => ?_, fun i k hk => ?_, fun i j k hi => ?_, fun k _ => ⟨rfl, rfl⟩⟩
  · cases hp
  · cases hk
  · cases hi

theorem drift_channels (wind : Wind) (s : Shared) : (drift wind s).channels = s.channels := by
  cases wind <;> rfl

theorem runs_holds {outside : Outside} {l : List Event} {t : Moment} (h : Runs outside l t) : Holds l t := by
  obtain ⟨disk, push, hrun⟩ := h.run
  refine Trace.history (P := Holds) ?_ (fun l u m v hrun ih hst => ?_) hrun
  · rintro _ rfl
    exact ⟨waiting_fresh disk push, fun _ _ h => nomatch h⟩
  · have still : (∀ id, m.asked? id = none) → v.shared.channels = u.shared.channels → Holds (l ++ [⟨u, m, v⟩]) v := by
      intro hm hv
      refine ⟨hv ▸ ih.waiting, fun id a ha => ?_⟩
      rw [Pool.history_snoc, hm id, Option.toList_none, append_nil] at ha
      exact hv ▸ ih.attests id a ha
    cases hst with
    | start id job hn => exact still (fun _ => rfl) rfl
    | drift wind => exact still (fun _ => rfl) (drift_channels wind u.shared)
    | own chance id job c next hn =>
      obtain ⟨hserves, hwaiting⟩ := Converses.serves (perform_talks u.shared outside chance c) ih.waiting
      refine ⟨hwaiting, fun id' a ha => ?_⟩
      rw [Pool.history_snoc, mem_append] at ha
      rcases ha with ha | ha
      · exact (ih.attests id' a ha).later hserves
      · obtain ⟨job', hown⟩ := Move.asked?_eq_some.1 (Option.mem_toList.1 ha)
        cases hown
        exact perform_attests outside chance u.shared c

theorem perform_handed (outside : Outside) (chance : Chance) (s : Shared) (c : Command) {k : Nat}
    (h : handed c (perform outside chance s c).1 = some k) : k = s.nextSlot := by
  cases c with
  | sendRequest command want =>
    change handed (.sendRequest command want) (sendRequest chance.inputOpen command want s).1 = some k at h
    cases hr : (sendRequest chance.inputOpen command want s).1 with
    | error code =>
      rw [hr] at h
      cases h
    | ok r =>
      rw [hr] at h
      cases h
      exact (sendRequest_ok hr).1
  | sendPeers =>
    change handed .sendPeers (sendPeers chance.inputOpen s).1 = some k at h
    cases hr : (sendPeers chance.inputOpen s).1 with
    | error code =>
      rw [hr] at h
      cases h
    | ok r =>
      rw [hr] at h
      cases h
      exact (sendPeers_ok hr).1
  | _ => cases h

end Companion
end Yuzora
