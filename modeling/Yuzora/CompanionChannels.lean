import Yuzora.CompanionPrograms
/-!
# CompanionChannels — who waits, and for what

A caller waits on a slot of its own, which is filled once.  `Talks` says what happens on the channels; every command is
a sequence of such steps.
-/
namespace Yuzora
namespace Companion

open Table

/-- Who waits for an answer, and what was answered. -/
structure Channels where
  pending : Option Pending
  peerWaits : Table Nat Nat
  peerSeq : Nat
  nextSlot : Nat
  replies : Table Nat (Option (Except String Json))
  answers : Table Nat (Option Json)

def Shared.channels (s : Shared) : Channels :=
  ⟨s.inner.pending, s.inner.peerWaits, s.inner.peerSeq, s.nextSlot, s.replies, s.answers⟩

/-- **What happens on the channels**: a caller joins, or leaves with an answer. -/
inductive Talks : Channels → Channels → Prop
  | answered (c : Channels) (p : Pending) (v : Option (Except String Json)) : c.pending = some p →
      Talks c { c with pending := none, replies := fill p.reply v c.replies }
  | asked (c : Channels) (want : Want) : c.pending = none →
      Talks c { c with pending := some ⟨want, c.nextSlot⟩, nextSlot := c.nextSlot + 1 }
  | numbered (c : Channels) : Talks c { c with peerSeq := c.peerSeq + 1 }
  | joined (c : Channels) :
      Talks c { c with
        peerSeq := c.peerSeq + 1
        peerWaits := c.peerWaits.insert (c.peerSeq + 1) c.nextSlot
        nextSlot := c.nextSlot + 1 }
  | left (c : Channels) (i k : Nat) (v : Option Json) : c.peerWaits.get i = some k →
      Talks c { c with peerWaits := c.peerWaits.erase i, answers := fill k v c.answers }
  | dropped (c : Channels) :
      Talks c { c with
        peerWaits := .empty
        answers := c.peerWaits.values.foldl (fun answers slot => fill slot none answers) c.answers }

abbrev Converses : Channels → Channels → Prop := Relation.ReflTransGen Talks

section Talks

open Relation.ReflTransGen (single)

variable (s : Shared)

theorem answer_talks (result : Except String Json) : Converses s.channels (answer result s).channels := by
  rw [answer]
  split
  · exact .refl
  · rename_i p hp
    exact single (.answered s.channels p (some result) hp)

theorem dropPending_talks : Converses s.channels (dropPending s).channels := by
  rw [dropPending]
  split
  · exact .refl
  · rename_i p hp
    exact single (.answered s.channels p none hp)

theorem dropPending_pending : (dropPending s).inner.pending = none := by
  rw [dropPending]
  split
  · rename_i h
    exact h
  · rfl

theorem resolve_talks (test : Want → Bool) (result : Except String Json) :
    Converses s.channels (resolve test result s).channels := by
  rw [resolve]
  split
  · exact answer_talks s result
  · exact .refl

theorem halt_channels (code : String) : (halt code s).2.channels = (answer (.error code) s).channels := by
  rw [halt]
  split <;> rfl

theorem halted_talks (code : String) : Converses s.channels (halted code s).2.channels := by
  change Converses s.channels (halt code s).2.channels
  rw [halt_channels]
  exact answer_talks s (.error code)

theorem notify_channels (frame : Json) : (notify frame s).channels = s.channels := by
  rw [notify]
  split <;> rfl

theorem storeChange_channels (change : Devices → Except String Devices) :
    (storeChange change s).2.channels = s.channels := by
  rw [storeChange]
  split
  · rfl
  · split <;> rfl

theorem removePeer_talks (i : Nat) : Converses s.channels (removePeer i s).channels := by
  rw [removePeer]
  split
  · exact .refl
  · rename_i slot hslot
    exact single (.left s.channels i slot none hslot)

theorem peersSnapshot_talks (outside : Outside) (event : Json) :
    Converses s.channels (peersSnapshot outside event s).channels := by
  rw [peersSnapshot]
  split
  · exact .refl
  · rename_i i _
    split
    · exact .refl
    · rename_i slot hslot
      exact single (.left s.channels i slot _ hslot)

theorem sendRequest_talks (inputOpen : Bool) (request : Json) (want : Want) :
    Converses s.channels (sendRequest inputOpen request want s).2.channels := by
  unfold sendRequest
  split
  · exact .refl
  · have h := dropPending_talks (send s.inner.generation request s)
    exact h.trans (single (.asked _ want (dropPending_pending _)))

theorem sendPeers_talks (inputOpen : Bool) : Converses s.channels (sendPeers inputOpen s).2.channels := by
  unfold sendPeers
  dsimp only
  split
  · exact single (.numbered s.channels)
  · exact single (.joined s.channels)

theorem timeOut_talks (generation : Nat) : Converses s.channels (timeOut generation s).2.channels := by
  unfold timeOut
  dsimp only
  split
  · exact (dropPending_talks s).trans (halted_talks _ _)
  · exact dropPending_talks s

theorem handleExit_talks (generation : Nat) : Converses s.channels (handleExit generation s).2.channels := by
  unfold handleExit
  split
  · exact .refl
  · have h := answer_talks { s with inner := { s.inner with
      generation := s.inner.generation + 1, process := none, «until» := none } } (.error "companion-exited")
    exact h.trans (single (.dropped _))

theorem becomeReady_talks (event : Json) : Converses s.channels (becomeReady event s).2.channels := by
  unfold becomeReady
  split
  · dsimp only
    by_cases hport : (s.inner.port.any fun expected =>
        decide (expected ≠ (((event.get "ports").get "loopback").asU64).getD 0)) = true
    · rw [if_pos hport]
      exact halted_talks s _
    · rw [if_neg hport]
      exact .refl
  · exact .refl

/-- **What every command does on the channels.** -/
theorem perform_talks (outside : Outside) (chance : Chance) (c : Command) :
    Converses s.channels (perform outside chance s c).2.channels := by
  have of_eq : ∀ {d : Channels}, d = s.channels → Converses s.channels d := fun h => h ▸ .refl
  cases c with
  | decideStart =>
    rw [perform]
    unfold decideStart
    split <;> exact .refl
  | startFailed expected code =>
    rw [perform]
    unfold startFailed
    split <;> exact .refl
  | record init expected devices =>
    rw [perform]
    unfold record
    split <;> exact .refl
  | watchdogFires generation =>
    rw [perform]
    unfold watchdogFires
    split
    · exact .refl
    · exact halted_talks s _
  | failLive code =>
    rw [perform]
    unfold failLive
    split
    · exact .refl
    · exact halted_talks s _
  | clearStale =>
    rw [perform]
    unfold clearStale
    split <;> exact .refl
  | beginStop =>
    rw [perform]
    unfold beginStop
    split <;> exact .refl
  | halt code => exact halted_talks s code
  | ready event => exact becomeReady_talks s event
  | handleExit generation => exact handleExit_talks s generation
  | timeOut generation => exact timeOut_talks s generation
  | sendRequest request want => exact sendRequest_talks s chance.inputOpen request want
  | sendPeers => exact sendPeers_talks s chance.inputOpen
  | storeDevice device | removeDevice id | applyFrame frame => exact of_eq (storeChange_channels s _)
  | resolve test event => exact resolve_talks s test (.ok event)
  | snapshot event => exact peersSnapshot_talks s outside event
  | failure code => exact answer_talks { s with inner := { s.inner with expired := s.inner.expired || code = "policy-expired" } } _
  | notify frame => exact of_eq (notify_channels s frame)
  | notifyDevices => exact of_eq (notify_channels s _)
  | removePeer i => exact removePeer_talks s i
  | sendShutdown generation =>
    refine of_eq ?_
    rw [perform]
    split <;> rfl
  | editFile frame =>
    refine of_eq ?_
    rw [perform]
    split
    · rfl
    · split <;> rfl
  | _ => exact .refl

end Talks

/-! ### Nobody who waits is lost -/

variable {α : Type}

theorem fill_get (k : Nat) (v : α) (slots : Table Nat α) : ∃ w, (fill k v slots).get k = some w := by
  rw [fill]
  split
  · rename_i w hw
    exact ⟨w, hw⟩
  · exact ⟨v, get_insert_self _ _ _⟩

variable {k : Nat} {j : Nat} {slots : Table Nat α} {v : α}

theorem fill_keeps {v w : α} (h : slots.get j = some w) : (fill k v slots).get j = some w := by
  rw [fill]
  split
  · exact h
  · rename_i hk
    rw [get_insert, if_neg, h]
    rintro rfl
    rw [hk] at h
    cases h

theorem fill_other (h : j ≠ k) : (fill k v slots).get j = slots.get j := by
  rw [fill]
  split
  · rfl
  · rw [get_insert, if_neg h]

theorem foldl_fill_keeps {v w : α} : ∀ (ks : List Nat) {slots : Table Nat α},
    slots.get j = some w → (ks.foldl (fun slots k => fill k v slots) slots).get j = some w
  | [], _, h => h
  | _ :: ks, _, h => foldl_fill_keeps ks (fill_keeps h)

theorem foldl_fill_get : ∀ {ks : List Nat} (slots : Table Nat α), j ∈ ks →
    ∃ w, (ks.foldl (fun slots k => fill k v slots) slots).get j = some w
  | k :: ks, slots, h => by
    rcases List.mem_cons.1 h with rfl | h
    · obtain ⟨w, hw⟩ := fill_get j v slots
      exact ⟨w, foldl_fill_keeps ks hw⟩
    · exact foldl_fill_get (fill k v slots) h

theorem foldl_fill_other : ∀ {ks : List Nat} (slots : Table Nat α), j ∉ ks →
    (ks.foldl (fun slots k => fill k v slots) slots).get j = slots.get j
  | [], _, _ => rfl
  | k :: ks, slots, h => by
    rw [List.mem_cons, not_or] at h
    exact (foldl_fill_other _ h.2).trans (fill_other h.1)

theorem mem_values {K V : Type} [DecidableEq K] {t : Table K V} {v : V} : v ∈ t.values ↔ ∃ k, t.get k = some v := by
  simp only [Table.values, List.mem_map, get_eq_some]
  constructor
  · rintro ⟨e, he, rfl⟩
    exact ⟨e.1, he⟩
  · rintro ⟨k, hk⟩
    exact ⟨(k, v), hk, rfl⟩

/-- **Who waits was given a slot of its own, and has no answer yet.** -/
structure Waiting (c : Channels) : Prop where
  pending : ∀ p, c.pending = some p → p.reply < c.nextSlot ∧ c.replies.get p.reply = none
  peers : ∀ i k, c.peerWaits.get i = some k → i ≤ c.peerSeq ∧ k < c.nextSlot ∧ c.answers.get k = none
  apart : ∀ i j k, c.peerWaits.get i = some k → c.peerWaits.get j = some k → i = j
  unused : ∀ k, c.nextSlot ≤ k → c.replies.get k = none ∧ c.answers.get k = none

variable {c : Channels}

theorem Waiting.answered (h : Waiting c) {p : Pending} (hp : c.pending = some p)
    (v : Option (Except String Json)) : Waiting { c with pending := none, replies := fill p.reply v c.replies } := by
  refine ⟨fun p' hp' => ?_, h.peers, h.apart, fun k hk => ⟨?_, (h.unused k hk).2⟩⟩
  · cases hp'
  · have hlt := (h.pending p hp).1
    dsimp only at hk ⊢
    rw [fill_other (by omega)]
    exact (h.unused k hk).1

theorem Waiting.joined {c : Channels} (h : Waiting c) : Waiting { c with
      peerSeq := c.peerSeq + 1
      peerWaits := c.peerWaits.insert (c.peerSeq + 1) c.nextSlot
      nextSlot := c.nextSlot + 1 } := by
  refine ⟨fun p hp => ?_, fun i k hk => ?_, fun i j k hi hj => ?_, fun k hk => h.unused k (Nat.le_of_succ_le hk)⟩
  · exact ⟨Nat.lt_succ_of_lt (h.pending p hp).1, (h.pending p hp).2⟩
  · dsimp only at hk ⊢
    rw [get_insert] at hk
    by_cases hi : i = c.peerSeq + 1
    · rw [if_pos hi] at hk
      cases hk
      exact ⟨hi.le, Nat.lt_succ_self _, (h.unused _ le_rfl).2⟩
    · rw [if_neg hi] at hk
      obtain ⟨h1, h2, h3⟩ := h.peers i k hk
      exact ⟨Nat.le_succ_of_le h1, Nat.lt_succ_of_lt h2, h3⟩
  · dsimp only at hi hj
    rw [get_insert] at hi hj
    by_cases h1 : i = c.peerSeq + 1 <;> by_cases h2 : j = c.peerSeq + 1
    · rw [h1, h2]
    · rw [if_pos h1] at hi
      rw [if_neg h2] at hj
      cases hi
      exact absurd (h.peers j _ hj).2.1 (lt_irrefl _)
    · rw [if_neg h1] at hi
      rw [if_pos h2] at hj
      cases hj
      exact absurd (h.peers i _ hi).2.1 (lt_irrefl _)
    · rw [if_neg h1] at hi
      rw [if_neg h2] at hj
      exact h.apart i j k hi hj

theorem Waiting.left (h : Waiting c) {i : Nat} (hk : c.peerWaits.get i = some k) (v : Option Json) :
    Waiting { c with peerWaits := c.peerWaits.erase i, answers := fill k v c.answers } := by
  have erased : ∀ {j m}, (c.peerWaits.erase i).get j = some m → j ≠ i ∧ c.peerWaits.get j = some m := by
    intro j m hj
    rw [get_erase] at hj
    by_cases hji : j = i
    · rw [if_pos hji] at hj
      cases hj
    · rw [if_neg hji] at hj
      exact ⟨hji, hj⟩
  refine ⟨h.pending, fun j m hj => ?_, fun j j' m hj hj' => h.apart j j' m (erased hj).2 (erased hj').2, fun m hm => ?_⟩
  · obtain ⟨hne, hj'⟩ := erased hj
    obtain ⟨h1, h2, h3⟩ := h.peers j m hj'
    have hmk : m ≠ k := by
      rintro rfl
      exact hne (h.apart j i m hj' hk)
    exact ⟨h1, h2, (fill_other hmk).trans h3⟩
  · have hlt := (h.peers i k hk).2.1
    dsimp only at hm
    exact ⟨(h.unused m hm).1, (fill_other (by omega)).trans (h.unused m hm).2⟩

theorem Talks.waiting {c d : Channels} (h : Talks c d) (hc : Waiting c) : Waiting d := by
  cases h with
  | answered p v hp => exact hc.answered hp v
  | asked want hp =>
    refine ⟨fun p h' => ?_, fun i k hk => ?_, hc.apart, fun k hk => hc.unused k (Nat.le_of_succ_le hk)⟩
    · cases h'
      exact ⟨Nat.lt_succ_self _, (hc.unused _ le_rfl).1⟩
    · obtain ⟨h1, h2, h3⟩ := hc.peers i k hk
      exact ⟨h1, Nat.lt_succ_of_lt h2, h3⟩
  | numbered =>
    refine ⟨hc.pending, fun i k hk => ?_, hc.apart, hc.unused⟩
    exact ⟨Nat.le_succ_of_le (hc.peers i k hk).1, (hc.peers i k hk).2⟩
  | joined => exact hc.joined
  | left i k v hk => exact hc.left hk v
  | dropped =>
    refine ⟨hc.pending, fun i k hk => ?_, fun i j k hi => ?_, fun k hk => ⟨(hc.unused k hk).1, ?_⟩⟩
    · cases hk
    · cases hi
    · refine (foldl_fill_other _ fun hmem => ?_).trans (hc.unused k hk).2
      obtain ⟨i, hi⟩ := mem_values.1 hmem
      exact absurd (hc.peers i k hi).2.1 (Nat.not_lt.2 hk)

/-- **Nobody who waits is lost**: an answer stays, and who waited still waits or has one. -/
structure Serves (c d : Channels) : Prop where
  slots : c.nextSlot ≤ d.nextSlot
  replies : ∀ k v, c.replies.get k = some v → d.replies.get k = some v
  answers : ∀ k v, c.answers.get k = some v → d.answers.get k = some v
  pending : ∀ p, c.pending = some p → d.pending = some p ∨ ∃ v, d.replies.get p.reply = some v
  peers : ∀ i k, c.peerWaits.get i = some k → d.peerWaits.get i = some k ∨ ∃ v, d.answers.get k = some v

theorem Serves.refl (c : Channels) : Serves c c := ⟨le_rfl, fun _ _ => id, fun _ _ => id, fun _ => .inl, fun _ _ => .inl⟩

variable {d : Channels}

theorem Serves.trans {e : Channels} (h : Serves c d) (h' : Serves d e) : Serves c e := by
  refine ⟨h.slots.trans h'.slots, fun k v hv => h'.replies k v (h.replies k v hv),
    fun k v hv => h'.answers k v (h.answers k v hv), fun p hp => ?_, fun i k hk => ?_⟩
  · rcases h.pending p hp with hp | ⟨v, hv⟩
    · exact h'.pending p hp
    · exact .inr ⟨v, h'.replies _ v hv⟩
  · rcases h.peers i k hk with hk | ⟨v, hv⟩
    · exact h'.peers i k hk
    · exact .inr ⟨v, h'.answers _ v hv⟩

theorem Talks.serves (h : Talks c d) (hc : Waiting c) : Serves c d := by
  cases h with
  | answered p v hp =>
    refine ⟨le_rfl, fun _ _ => fill_keeps, fun _ _ => id, fun p' hp' => .inr ?_, fun _ _ => .inl⟩
    rw [hp] at hp'
    cases hp'
    exact fill_get _ _ _
  | asked want hp =>
    refine ⟨Nat.le_succ _, fun _ _ => id, fun _ _ => id, fun p h' => ?_, fun _ _ => .inl⟩
    rw [hp] at h'
    cases h'
  | numbered => exact ⟨le_rfl, fun _ _ => id, fun _ _ => id, fun _ => .inl, fun _ _ => .inl⟩
  | joined =>
    refine ⟨Nat.le_succ _, fun _ _ => id, fun _ _ => id, fun _ => .inl, fun i k hk => .inl ?_⟩
    have hi := (hc.peers i k hk).1
    rw [get_insert, if_neg (by omega), hk]
  | left i k v hk =>
    refine ⟨le_rfl, fun _ _ => id, fun _ _ => fill_keeps, fun _ => .inl, fun j m hj => ?_⟩
    by_cases hji : j = i
    · subst hji
      rw [hk] at hj
      cases hj
      exact .inr (fill_get _ _ _)
    · refine .inl ?_
      rw [get_erase, if_neg hji, hj]
  | dropped =>
    refine ⟨le_rfl, fun _ _ => id, fun _ _ => foldl_fill_keeps _, fun _ => .inl, fun i k hk => .inr ?_⟩
    exact foldl_fill_get _ (mem_values.2 ⟨i, hk⟩)

theorem Converses.serves (h : Converses c d) (hc : Waiting c) : Serves c d ∧ Waiting d := by
  induction h with
  | refl => exact ⟨.refl c, hc⟩
  | tail _ hd ih => exact ⟨ih.1.trans (hd.serves ih.2), hd.waiting ih.2⟩

end Companion
end Yuzora
