import Yuzora.HostStream
import Yuzora.Trace
/-!
# HostStreamRuns — what a run writes, reads and answers

A run keeps an account of what it did (`Account`), which survives its end, and while it goes on where it stands
(`Live`): with no request, or with the newest one written in part or awaiting its reply.
-/
namespace Yuzora
namespace HostStream

open List Option

variable {Owner Op Value Event : Type} [DecidableEq Owner]

/-! ## What is to hold -/

def replyOf (session : Session Owner Op Value Event) (bytes : List Byte) : Option (String × Outcome Value) :=
  match parse session bytes with
  | .ok ⟨_, _, .reply id outcome⟩ => some (id, outcome)
  | _ => none

def eventOf (session : Session Owner Op Value Event) (bytes : List Byte) : Option Event :=
  match parse session bytes with
  | .ok ⟨_, _, .event event⟩ => some event
  | _ => none

def Answered.key (a : Answered Value) : String × Outcome Value := (a.id, a.outcome)

def State.early (s : State Op Value Event) : List (String × Outcome Value) :=
  s.pending.toList.flatMap fun p => p.earlyOutcome.toList.map (Prod.mk p.id)

def IsLine (frame : List Byte) : Prop := ∃ body, frame = body ++ [newline] ∧ newline ∉ body ∧ frame.length ≤ MAX_FRAME_BYTES

/-- An answer belongs to the request of its place: its caller, its id, its reply, and all of its line was flushed. -/
structure Belongs (s : State Op Value Event) (i : Nat) (a : Answered Value) : Prop where
  flushed : i < s.flushed
  written : (s.asked.take (i + 1)).flatMap Asked.bytes <+: s.written
  asked : ∃ q, s.asked[i]? = some q ∧ a.reply = q.request.reply
  id : a.id = toString (i + 1)
  sent : a.sent = result a.outcome

/-- **What a run did**, wherever it stands or ended. -/
structure Conduct (session : Session Owner Op Value Event) (s : State Op Value Event) : Prop where
  /-- Whole lines and the beginning of the newest, nothing else. -/
  written : s.written <+: s.asked.flatMap Asked.bytes
  /-- The lines carry 1, 2, 3 and so on. -/
  lines : ∀ i q, s.asked[i]? = some q → q.id = i + 1 ∧ lineOf session (i + 1) q.request.operation = .ok q.bytes
  /-- They are those of the requests whose callers still waited, in the order of the queue. -/
  asked : s.asked.map Asked.request <+: (s.dequeued.filter Prod.snd).map Prod.fst
  queue : s.dequeued.map Prod.fst <+: s.queued
  answered : ∀ i a, s.answered[i]? = some a → Belongs s i a
  /-- The answers are the replies that were read, in their order. -/
  replies : s.answered.map Answered.key <+: s.received.filterMap (replyOf session)
  /-- Any other reply ends the run. -/
  expected : s.ended = none → s.received.filterMap (replyOf session) = s.answered.map Answered.key ++ s.early
  events : s.delivered = s.received.filterMap (eventOf session)
  frames : ∀ f ∈ s.received, IsLine f
  arrived : s.received.flatten ++ s.frame ++ s.input = s.arrived
  /-- Who is not answered at the end has the channel closed. -/
  closed : s.ended.isSome = true → ∀ q ∈ s.queued, q.reply ∈ s.answered.map Answered.reply ∨ q.reply ∈ s.closed

/-! ## Where a run stands -/

/-- What a run did, without what depends on its end. -/
structure Account (session : Session Owner Op Value Event) (s : State Op Value Event) : Prop where
  written : s.written <+: s.asked.flatMap Asked.bytes
  lines : ∀ i q, s.asked[i]? = some q → q.id = i + 1 ∧ lineOf session (i + 1) q.request.operation = .ok q.bytes
  asked : s.asked.map Asked.request <+: (s.dequeued.filter Prod.snd).map Prod.fst
  queue : s.dequeued.map Prod.fst <+: s.queued
  answered : ∀ i a, s.answered[i]? = some a → Belongs s i a
  replies : s.answered.map Answered.key <+: s.received.filterMap (replyOf session)
  events : s.delivered = s.received.filterMap (eventOf session)
  frames : ∀ f ∈ s.received, IsLine f
  arrived : s.received.flatten ++ s.frame ++ s.input = s.arrived
  accounted : ∀ q ∈ s.queued, q.reply ∈ s.answered.map Answered.reply ∨ q.reply ∈ s.closed ∨
    s.ended = none ∧ (q.reply ∈ s.pending.toList.map Pending.reply ∨ q.reply ∈ s.requests.map Queued.reply)

/-- The newest request is being written, or it is flushed and awaits its reply. -/
inductive Stage (s : State Op Value Event) (init : List (Asked Op)) (last : Asked Op) (p : Pending Value) : Prop
  | writing (w : Writing) : s.writing = some w → w.bytes = last.bytes → w.written ≤ w.bytes.length →
      s.written = init.flatMap Asked.bytes ++ w.bytes.take w.written → s.flushed = init.length → Stage s init last p
  | flushed : s.writing = none → p.earlyOutcome = none → s.written = s.asked.flatMap Asked.bytes →
      s.flushed = s.asked.length → Stage s init last p

/-- There is no request, or one. -/
inductive Turn (s : State Op Value Event) : Prop
  | idle : s.pending = none → s.writing = none → s.written = s.asked.flatMap Asked.bytes →
      s.flushed = s.asked.length → s.answered.length = s.asked.length → Turn s
  | busy (p : Pending Value) (init : List (Asked Op)) (last : Asked Op) : s.pending = some p → s.asked = init ++ [last] →
      p.id = toString s.asked.length → p.reply = last.request.reply → s.answered.length = init.length →
        Stage s init last p → Turn s

def Partly (frame : List Byte) : Prop := newline ∉ frame ∧ frame.length ≤ MAX_FRAME_BYTES

/-- What holds of the queue and the reader while the run goes on. -/
structure Going (s : State Op Value Event) : Prop where
  queue : s.dequeued.map Prod.fst ++ s.requests = s.queued
  asked : s.asked.map Asked.request = (s.dequeued.filter Prod.snd).map Prod.fst
  nextId : s.nextId = s.asked.length
  frame : Partly s.frame

/-- What holds besides while the run goes on. -/
structure Live (s : State Op Value Event) : Prop extends Going s where
  turn : Turn s

structure Sound (session : Session Owner Op Value Event) (s : State Op Value Event) : Prop where
  account : Account session s
  live : s.ended = none → Live s
  expected : s.ended = none → s.received.filterMap (replyOf session) = s.answered.map Answered.key ++ s.early

section Steps

variable {session : Session Owner Op Value Event} {s t : State Op Value Event} {p : Pending Value} {bytes : List Byte}
  {outcome : Outcome Value} {frame input : List Byte} {onFrame : Except String Unit} {requests : List (Queued Op)}
  {w : Option Writing} {version : Nat} {owner : Owner} {q : Queued Op}

theorem partly_nil : Partly [] := ⟨not_mem_nil, Nat.zero_le _⟩

theorem sound_start : Sound session (.start : State Op Value Event) where
  account := by constructor <;> simp [State.start]
  live _ := ⟨⟨rfl, rfl, rfl, partly_nil⟩, .idle rfl rfl rfl rfl rfl⟩
  expected _ := rfl

/-- **A run that returns** leaves its account, and closes the channels of all that wait. -/
theorem Account.returns (h : Account session s) (reason : Except String Unit) : Sound session (s.returns reason) where
  account := {
    written := h.written, lines := h.lines, asked := h.asked, queue := h.queue
    answered := fun i a ha => let b := h.answered i a ha; ⟨b.flushed, b.written, b.asked, b.id, b.sent⟩
    replies := h.replies, events := h.events, frames := h.frames, arrived := h.arrived
    accounted := fun q hq => by
      simp only [State.returns, mem_append]
      rcases h.accounted q hq with h | h | ⟨-, h | h⟩
      · exact .inl h
      · exact .inr (.inl (.inl (.inl h)))
      · exact .inr (.inl (.inl (.inr h)))
      · exact .inr (.inl (.inr h)) }
  live h := by cases h
  expected h := by cases h

theorem Sound.top (h : Sound session s) : Sound session (HostStream.top s) := by
  unfold HostStream.top
  split
  · exact h.account.returns _
  · exact h

theorem Turn.same (h : Turn s) (h1 : t.pending = s.pending) (h2 : t.writing = s.writing) (h3 : t.written = s.written)
    (h4 : t.asked = s.asked) (h5 : t.flushed = s.flushed) (h6 : t.answered = s.answered) : Turn t := by
  cases h with
  | idle g1 g2 g3 g4 g5 => exact .idle (h1.trans g1) (h2.trans g2) (by rw [h3, h4, g3]) (by rw [h5, h4, g4]) (by rw [h6, h4, g5])
  | busy p init last g1 g2 g3 g4 g5 g6 =>
    refine .busy p init last (h1.trans g1) (h4.trans g2) (by rw [h4, g3]) g4 (by rw [h6, g5]) ?_
    cases g6 with
    | writing w k1 k2 k3 k4 k5 => exact .writing w (h2.trans k1) k2 k3 (h3.trans k4) (h5.trans k5)
    | flushed k1 k2 k3 k4 => exact .flushed (h2.trans k1) k2 (by rw [h3, h4, k3]) (by rw [h5, h4, k4])

theorem Live.last (h : Live s) (hp : s.pending = some p) :
    ∃ init last, s.asked = init ++ [last] ∧ p.id = toString s.asked.length ∧ p.reply = last.request.reply ∧
      s.answered.length = init.length ∧ Stage s init last p := by
  cases h.turn with
  | idle hn => simp [hp] at hn
  | busy q init last hq h1 h2 h3 h4 h5 =>
    rw [hp] at hq
    cases hq
    exact ⟨init, last, h1, h2, h3, h4, h5⟩

/-- **The newest request is answered** when its line is flushed and its reply is there. -/
theorem Account.answer {init : List (Asked Op)} {last : Asked Op}
    (h : Account session s) (hl : Going s) (hp : s.pending = some p) (hw : s.writing = none)
    (hbytes : s.written = s.asked.flatMap Asked.bytes) (hf : s.flushed = s.asked.length) (hlast : s.asked = init ++ [last])
    (hid : p.id = toString s.asked.length) (hr : p.reply = last.request.reply) (hans : s.answered.length = init.length)
    (he : s.received.filterMap (replyOf session) = s.answered.map Answered.key ++ [(p.id, outcome)]) :
    Sound session (s.answer p outcome) := by
  have hlen : s.asked.length = s.answered.length + 1 := by simp [hlast, hans]
  have hkeys : (s.answer p outcome).answered.map Answered.key = s.answered.map Answered.key ++ [(p.id, outcome)] := by
    simp [State.answer, Answered.key]
  refine ⟨?_, fun _ => ⟨⟨hl.queue, hl.asked, hl.nextId, hl.frame⟩, .idle rfl hw hbytes hf ?_⟩, fun _ => ?_⟩
  · exact {
      written := h.written, lines := h.lines, asked := h.asked, queue := h.queue
      answered := fun i a ha => by
        simp only [State.answer, getElem?_append] at ha
        split at ha
        · exact let b := h.answered i a ha; ⟨b.flushed, b.written, b.asked, b.id, b.sent⟩
        · rename_i hi
          obtain ⟨hi', rfl⟩ := List.getElem?_eq_some_iff.1 ha
          have hi0 : i = s.answered.length := by
            simp only [length_singleton] at hi'
            omega
          subst hi0
          refine ⟨?_, ?_, ⟨last, ?_, ?_⟩, ?_, ?_⟩
          · simp only [State.answer]
            omega
          · simp only [State.answer, ← hlen, take_length, hbytes]
            exact prefix_rfl
          · simp [State.answer, hlast, hans]
          · simp [hr]
          · simp [hid, hlen]
          · simp
      replies := by
        rw [hkeys, ← he]
        exact prefix_rfl
      events := h.events, frames := h.frames, arrived := h.arrived
      accounted := fun q hq => by
        simp only [State.answer, map_append, mem_append]
        rcases h.accounted q hq with h | h | ⟨hn, h | h⟩
        · exact .inl (.inl h)
        · exact .inr (.inl h)
        · simp only [hp, toList_some, map_cons, map_nil, mem_singleton] at h
          exact .inl (.inr (by simp [h]))
        · exact .inr (.inr ⟨hn, .inr h⟩) }
  · simp [State.answer, hlen]
  · simp [State.answer, State.early, he, Answered.key]

theorem Account.setPending {p p' : Pending Value} (h : Account session s) (hp : s.pending = some p)
    (hr : p'.reply = p.reply) : Account session { s with writing := w, pending := some p' } where
  written := h.written
  lines := h.lines
  asked := h.asked
  queue := h.queue
  answered i a ha := let b := h.answered i a ha; ⟨b.flushed, b.written, b.asked, b.id, b.sent⟩
  replies := h.replies
  events := h.events
  frames := h.frames
  arrived := h.arrived
  accounted q hq := by
    have := h.accounted q hq
    simpa [hp, hr] using this

theorem early_none (hp : s.pending = some p) (he : p.earlyOutcome = none) : s.early = [] := by
  simp [State.early, hp, he]

/-- **A reply** answers the request it names, or waits for the flush, or ends the run. -/
theorem Account.handledReply {id : String} (h : Account session s) (hl : Live s)
    (he : s.received.filterMap (replyOf session) = s.answered.map Answered.key ++ s.early ++ [(id, outcome)]) :
    Sound session (handleReply id outcome s) := by
  unfold handleReply
  cases hp : s.pending with
  | none => exact h.returns _
  | some p =>
    by_cases hid : id = p.id
    · subst hid
      simp only [ne_eq, not_true_eq_false, if_false]
      obtain ⟨init, last, hlast, hpid, hreply, hans, hst⟩ := hl.last hp
      cases hst with
      | writing w hw h1 h2 h3 h4 =>
        simp only [hw, isSome_some, if_true]
        by_cases hearly : p.earlyOutcome.isSome
        · simp only [hearly, if_true]
          exact h.returns _
        · have hnone : p.earlyOutcome = none := by simpa using hearly
          simp only [hnone, isSome_none, Bool.false_eq_true, if_false]
          refine Sound.top ⟨h.setPending hp rfl, fun _ => ⟨⟨hl.queue, hl.asked, hl.nextId, hl.frame⟩, ?_⟩, fun _ => ?_⟩
          · exact .busy _ init last rfl hlast hpid hreply hans (.writing w rfl h1 h2 h3 h4)
          · rw [early_none hp hnone, append_nil] at he
            simpa [State.early] using he
      | flushed hw h1 h2 h3 =>
        simp only [hw, isSome_none, Bool.false_eq_true, if_false]
        rw [early_none hp h1, append_nil] at he
        exact (h.answer hl.toGoing hp hw h2 h3 hlast hpid hreply hans he).top
    · simp only [ne_eq, hid, not_false_eq_true, if_true]
      exact h.returns _

theorem replyOf_of_reply {id : String} (h : parse session bytes = .ok ⟨version, owner, .reply id outcome⟩) :
    replyOf session bytes = some (id, outcome) ∧ eventOf session bytes = none := by
  simp [replyOf, eventOf, h]

theorem replyOf_of_event {event : Event} (h : parse session bytes = .ok ⟨version, owner, .event event⟩) :
    replyOf session bytes = none ∧ eventOf session bytes = some event := by
  simp [replyOf, eventOf, h]

theorem replyOf_of_error {e : String} (h : parse session bytes = .error e) :
    replyOf session bytes = none ∧ eventOf session bytes = none := by
  simp [replyOf, eventOf, h]

theorem Account.receive (h : Account session s) (hf : IsLine frame)
    (ha : s.received.flatten ++ frame ++ input = s.arrived) (delivered : List Event)
    (hd : delivered = s.delivered ++ (eventOf session frame).toList) :
    Account session { s with
      frame := [], input := input, received := s.received ++ [frame], delivered := delivered } where
  written := h.written
  lines := h.lines
  asked := h.asked
  queue := h.queue
  answered i a ha := let b := h.answered i a ha; ⟨b.flushed, b.written, b.asked, b.id, b.sent⟩
  replies := by
    simp only [filterMap_append]
    exact h.replies.trans (prefix_append _ _)
  events := by
    simp only [hd, h.events, filterMap_append]
    cases he : eventOf session frame <;> simp [he]
  frames f hm := by
    rcases mem_append.1 hm with hm | hm
    · exact h.frames f hm
    · simp only [mem_singleton] at hm
      exact hm ▸ hf
  arrived := by simpa using ha
  accounted := h.accounted

/-- **A frame** is a reply or an event that is delivered, or ends the run. -/
theorem Sound.handled (h : Sound session s)
    (hn : s.ended = none) (hf : IsLine frame) (ha : s.received.flatten ++ frame ++ input = s.arrived) :
    Sound session (handle session frame onFrame
      { s with frame := [], input := input, received := s.received ++ [frame] }) := by
  have hl := h.live hn
  have he := h.expected hn
  have hlive : Live { s with frame := [], input := input, received := s.received ++ [frame] } := by
    exact ⟨⟨hl.queue, hl.asked, hl.nextId, partly_nil⟩, hl.turn.same rfl rfl rfl rfl rfl rfl⟩
  unfold handle
  split
  · rename_i hp
    exact (h.account.receive hf ha s.delivered (by simp [(replyOf_of_error hp).2])).returns _
  · rename_i id outcome hp
    refine (h.account.receive hf ha s.delivered (by simp [(replyOf_of_reply hp).2])).handledReply hlive ?_
    simp only [filterMap_append, he]
    simp [(replyOf_of_reply hp).1, State.early]
  · rename_i event hp
    have hacc := h.account.receive hf ha (s.delivered ++ [event]) (by simp [(replyOf_of_event hp).2])
    split
    · exact hacc.returns _
    · refine Sound.top ⟨hacc, fun _ => ?_, fun _ => ?_⟩
      · exact ⟨⟨hl.queue, hl.asked, hl.nextId, partly_nil⟩, hl.turn.same rfl rfl rfl rfl rfl rfl⟩
      · simp only [filterMap_append, he]
        simp [(replyOf_of_event hp).1, State.early]

/-! ### Reading -/

theorem readUntil_spec {limit : Nat} : ∀ (input : List Byte) {frame : List Byte}, newline ∉ frame → frame.length ≤ limit →
    (readUntil limit frame input).1 ++ (readUntil limit frame input).2 = frame ++ input ∧
      (readUntil limit frame input).1.length ≤ limit ∧
        (newline ∉ (readUntil limit frame input).1 ∨
          ∃ body, (readUntil limit frame input).1 = body ++ [newline] ∧ newline ∉ body)
  | [], _, hn, hl => ⟨rfl, hl, .inl hn⟩
  | c :: rest, frame, hn, hl => by
    rw [readUntil]
    by_cases hlim : limit ≤ frame.length
    · rw [if_pos hlim]
      exact ⟨rfl, hl, .inl hn⟩
    · rw [if_neg hlim]
      by_cases hc : c = newline
      · rw [if_pos hc]
        subst hc
        refine ⟨by simp, ?_, .inr ⟨frame, rfl, hn⟩⟩
        simp only [length_append, length_singleton]
        omega
      · rw [if_neg hc]
        have hn' : newline ∉ frame ++ [c] := by simp [hn, Ne.symm hc]
        have hl' : (frame ++ [c]).length ≤ limit := by
          simp only [length_append, length_singleton]
          omega
        obtain ⟨h1, h2, h3⟩ := readUntil_spec rest hn' hl'
        exact ⟨by simp [h1], h2, h3⟩

theorem Account.setFrame (h : Account session s) (ha : frame ++ input = s.frame ++ s.input) :
    Account session { s with frame := frame, input := input } where
  written := h.written
  lines := h.lines
  asked := h.asked
  queue := h.queue
  answered i a ha := let b := h.answered i a ha; ⟨b.flushed, b.written, b.asked, b.id, b.sent⟩
  replies := h.replies
  events := h.events
  frames := h.frames
  arrived := by
    have := h.arrived
    simpa [append_assoc, ha] using this
  accounted := h.accounted

theorem Sound.polled (h : Sound session s) (hn : s.ended = none) :
    Sound session (poll session MAX_FRAME_BYTES onFrame s) := by
  have hl := h.live hn
  obtain ⟨h1, h2, h3⟩ := readUntil_spec s.input hl.frame.1 hl.frame.2
  have ha := h.account.arrived
  rw [append_assoc, ← h1, ← append_assoc] at ha
  unfold poll
  dsimp only
  split
  · rename_i hlast
    refine h.handled hn ?_ ha
    rcases h3 with h3 | ⟨body, hb, hnb⟩
    · exact absurd (mem_of_getLast? hlast) h3
    · exact ⟨body, hb, hnb, h2⟩
  · rename_i hlast
    have hacc := h.account.setFrame h1
    split
    · exact hacc.returns _
    · split
      · exact hacc.returns _
      · refine ⟨hacc, fun _ => ⟨⟨hl.queue, hl.asked, hl.nextId, h3.resolve_right ?_, h2⟩, ?_⟩, h.expected⟩
        · rintro ⟨body, hb, -⟩
          exact hlast (by simp [hb])
        · exact hl.turn.same rfl rfl rfl rfl rfl rfl

/-! ### Writing -/

theorem Account.write {written : List Byte} {flushed : Nat} (h : Account session s)
    (hw : s.written <+: written) (hle : written <+: s.asked.flatMap Asked.bytes) (hf : s.flushed ≤ flushed) :
    Account session { s with writing := w, written := written, flushed := flushed } where
  written := hle
  lines := h.lines
  asked := h.asked
  queue := h.queue
  answered i a ha :=
    let b := h.answered i a ha
    ⟨Nat.lt_of_lt_of_le b.flushed hf, b.written.trans hw, b.asked, b.id, b.sent⟩
  replies := h.replies
  events := h.events
  frames := h.frames
  arrived := h.arrived
  accounted := h.accounted

theorem Sound.advanced {answer : WriteAnswer} (h : Sound session s) (hn : s.ended = none)
    (ht : advance answer s = some t) : Sound session t := by
  have hl := h.live hn
  have he := h.expected hn
  unfold advance at ht
  split at ht
  · rename_i w p hw hp
    obtain ⟨init, last, hlast, hpid, hreply, hans, hst⟩ := hl.last hp
    cases hst with
    | flushed hnone => simp [hw] at hnone
    | writing w' hw' hbytes hbound hwritten hflushed =>
      rw [hw] at hw'
      cases hw'
      have hall : s.asked.flatMap Asked.bytes = init.flatMap Asked.bytes ++ w.bytes := by simp [hlast, hbytes]
      split at ht
      · cases ht
        exact h.account.returns _
      · rename_i n
        split at ht
        · split at ht
          · cases ht
            exact h.account.returns _
          · split at ht <;> cases ht
            rename_i hle
            have hnew : s.written ++ (w.bytes.drop w.written).take n =
                init.flatMap Asked.bytes ++ w.bytes.take (w.written + n) := by
              rw [hwritten, append_assoc, ← take_add]
            have hpre : s.written ++ (w.bytes.drop w.written).take n <+: s.asked.flatMap Asked.bytes := by
              rw [hnew, hall]
              exact (prefix_append_right_inj _).2 (List.take_prefix _ _)
            refine ⟨h.account.write (prefix_append _ _) hpre (Nat.le_refl _), fun _ => ?_, h.expected⟩
            exact ⟨⟨hl.queue, hl.asked, hl.nextId, hl.frame⟩, .busy p init last hp hlast hpid hreply hans
              (.writing _ rfl hbytes hle hnew hflushed)⟩
        · cases ht
      · split at ht
        · cases ht
        · rename_i hdone
          have hend : w.written = w.bytes.length := by omega
          have hdoneall : s.written = s.asked.flatMap Asked.bytes := by rw [hwritten, hall, hend, take_length]
          have hlen : s.flushed + 1 = s.asked.length := by simp [hflushed, hlast]
          have hacc : Account session { s with writing := none, flushed := s.flushed + 1 } :=
            h.account.write prefix_rfl h.account.written (Nat.le_succ _)
          split at ht
          · rename_i outcome hearly
            cases ht
            have hgoing : Going { s with writing := none, flushed := s.flushed + 1 } :=
              ⟨hl.queue, hl.asked, hl.nextId, hl.frame⟩
            have hexp : s.received.filterMap (replyOf session) = s.answered.map Answered.key ++ [(p.id, outcome)] := by
              simpa [State.early, hp, hearly] using he
            exact hacc.answer hgoing hp rfl hdoneall hlen hlast hpid hreply hans hexp
          · rename_i hearly
            cases ht
            refine ⟨hacc.setPending hp rfl, fun _ => ⟨⟨hl.queue, hl.asked, hl.nextId, hl.frame⟩, ?_⟩, fun _ => ?_⟩
            · exact .busy _ init last rfl hlast hpid hreply hans (.flushed rfl hearly hdoneall hlen)
            · simpa [State.early, hp, hearly] using he
  · cases ht

theorem Account.skip {waits : Bool} {nextId : Nat}
    (h : Account session s) (hl : Going s) (hq : s.requests = q :: requests) :
    Account session { s with
      requests := requests, dequeued := s.dequeued ++ [(q, waits)], nextId := nextId, closed := s.closed ++ [q.reply] } where
  written := h.written
  lines := h.lines
  asked := by
    simp only [filter_append, map_append]
    exact h.asked.trans (prefix_append _ _)
  queue := ⟨requests, by simp [← hl.queue, hq]⟩
  answered i a ha := let b := h.answered i a ha; ⟨b.flushed, b.written, b.asked, b.id, b.sent⟩
  replies := h.replies
  events := h.events
  frames := h.frames
  arrived := h.arrived
  accounted q' hq' := by
    have := h.accounted q' hq'
    simp only [hq, map_cons, mem_cons] at this
    simp only [mem_append, mem_singleton]
    tauto

theorem Account.ask {w : Writing}
    (h : Account session s) (hl : Going s) (hq : s.requests = q :: requests) (hp : p.reply = q.reply)
    (hn : s.pending = none) (hans : s.answered.length = s.asked.length)
    (hline : lineOf session (s.asked.length + 1) q.operation = .ok bytes) :
    Account session { s with
      requests := requests, dequeued := s.dequeued ++ [(q, true)], nextId := s.nextId + 1
      writing := some w, pending := some p, asked := s.asked ++ [⟨q, s.nextId + 1, bytes⟩] } where
  written := by
    simp only [flatMap_append]
    exact h.written.trans (prefix_append _ _)
  lines i a ha := by
    rw [getElem?_append] at ha
    split at ha
    · exact h.lines i a ha
    · obtain ⟨hi, rfl⟩ := List.getElem?_eq_some_iff.1 ha
      simp only [length_singleton] at hi
      have hi0 : i = s.asked.length := by omega
      subst hi0
      simp [hl.nextId, hline]
  asked := by
    simp only [filter_append, map_append, hl.asked]
    simp
  queue := ⟨requests, by simp [← hl.queue, hq]⟩
  answered i a ha := by
    have b := h.answered i a ha
    have hi : i < s.asked.length := hans ▸ (List.getElem?_eq_some_iff.1 ha).1
    refine ⟨b.flushed, ?_, ?_, b.id, b.sent⟩
    · rw [take_append_of_le_length hi]
      exact b.written
    · rw [getElem?_append_left hi]
      exact b.asked
  replies := h.replies
  events := h.events
  frames := h.frames
  arrived := h.arrived
  accounted q' hq' := by
    have := h.accounted q' hq'
    simp only [hq, hn, map_cons, mem_cons, toList_none, map_nil, not_mem_nil, false_or] at this
    simp only [toList_some, map_cons, map_nil, mem_singleton, hp]
    tauto

section
variable (h : Sound session s) {a : Action Op}
include h

theorem Sound.recv_one (ht : next session s .recv = some t) : s.answered.length = s.asked.length := by
  unfold next at ht
  dsimp only [HostStream.around] at ht
  split at ht
  · cases ht
  · rename_i hn
    have hl := h.live (by simpa using hn)
    dsimp only [HostStream.loop] at ht
    cases hl.turn with
    | idle _ _ _ _ h5 => exact h5
    | busy p _ _ h1 => simp [recv, h1] at ht

theorem Sound.received {t : State Op Value Event} (hn : s.ended = none)
    (ht : recv session s = some t) : Sound session t := by
  have hl := h.live hn
  have he := h.expected hn
  have hacc := h.account
  unfold recv at ht
  split at ht
  · cases ht
  · split at ht <;> cases ht
    exact h.account.returns _
  · rename_i q requests hp hq
    split at ht
    · cases ht
      refine ⟨hacc.skip hl.toGoing hq, fun _ => ⟨⟨?_, ?_, hl.nextId, hl.frame⟩, ?_⟩, h.expected⟩
      · simp [← hl.queue, hq]
      · simp [hl.asked]
      · exact hl.turn.same rfl rfl rfl rfl rfl rfl
    · dsimp only at ht
      split at ht
      · cases ht
        exact (hacc.skip hl.toGoing hq).returns _
      · rename_i bytes hline
        cases ht
        cases hl.turn with
        | busy p _ _ h1 => simp [hp] at h1
        | idle _ hw hbytes hflushed hans =>
          rw [hl.nextId] at hline
          refine ⟨hacc.ask hl.toGoing hq rfl hp hans hline, fun _ => ⟨⟨?_, ?_, ?_, hl.frame⟩, ?_⟩, fun _ => ?_⟩
          · simp [← hl.queue, hq]
          · simp [hl.asked]
          · simp [hl.nextId]
          · refine .busy _ s.asked _ rfl rfl ?_ rfl hans (.writing _ rfl rfl (Nat.zero_le _) ?_ hflushed)
            · simp [hl.nextId]
            · simp [hbytes]
          · simpa [State.early, hp] using he

/-! ### The surroundings -/

theorem Sound.around (ht : around s a = some t) : Sound session t := by
  have hacc := h.account
  cases a with
  | request operation =>
    dsimp only [HostStream.around] at ht
    unfold enqueue at ht
    split at ht <;> cases ht
    rename_i hopen
    have hn : s.ended = none := by
      simp only [Bool.or_eq_true, not_or] at hopen
      simpa using hopen.1.1
    have hl := h.live hn
    refine ⟨?_, fun _ => ⟨⟨?_, hl.asked, hl.nextId, hl.frame⟩, hl.turn.same rfl rfl rfl rfl rfl rfl⟩, h.expected⟩
    · exact {
        written := hacc.written, lines := hacc.lines, asked := hacc.asked
        queue := hacc.queue.trans (prefix_append _ _)
        answered := fun i a ha => let b := hacc.answered i a ha; ⟨b.flushed, b.written, b.asked, b.id, b.sent⟩
        replies := hacc.replies, events := hacc.events, frames := hacc.frames, arrived := hacc.arrived
        accounted := fun q hq => by
          simp only [map_append, mem_append]
          rcases mem_append.1 hq with hq | hq
          · have := hacc.accounted q hq
            tauto
          · exact .inr (.inr ⟨hn, .inr (.inr (mem_map_of_mem hq))⟩) }
    · rw [← append_assoc, hl.queue]
  | arrive chunk =>
    dsimp only [HostStream.around] at ht
    split at ht <;> cases ht
    refine ⟨?_, fun hn => ⟨?_, (h.live hn).turn.same rfl rfl rfl rfl rfl rfl⟩, h.expected⟩
    rotate_left
    · exact ⟨(h.live hn).queue, (h.live hn).asked, (h.live hn).nextId, (h.live hn).frame⟩
    exact {
      written := hacc.written, lines := hacc.lines, asked := hacc.asked, queue := hacc.queue
      answered := fun i a ha => let b := hacc.answered i a ha; ⟨b.flushed, b.written, b.asked, b.id, b.sent⟩
      replies := hacc.replies, events := hacc.events, frames := hacc.frames
      arrived := by simp [← hacc.arrived]
      accounted := hacc.accounted }
  | tick _ | abandon _ _ | dropSenders | cancel | disconnect | close =>
    cases ht
    refine ⟨?_, fun hn => ⟨?_, (h.live hn).turn.same rfl rfl rfl rfl rfl rfl⟩, h.expected⟩
    · exact ⟨hacc.written, hacc.lines, hacc.asked, hacc.queue,
        fun i a ha => let b := hacc.answered i a ha; ⟨b.flushed, b.written, b.asked, b.id, b.sent⟩, hacc.replies,
        hacc.events, hacc.frames, hacc.arrived, hacc.accounted⟩
    · exact ⟨(h.live hn).queue, (h.live hn).asked, (h.live hn).nextId, (h.live hn).frame⟩
  | stop | expire | advance _ | recv | poll _ | readFails _ => cases ht

theorem Sound.loop (hn : s.ended = none) (ht : loop session s a = some t) : Sound session t := by
  cases a with
  | stop =>
    dsimp only [HostStream.loop] at ht
    split at ht
    · cases ht
      exact h.account.returns _
    · split at ht <;> cases ht
      exact h.account.returns _
  | expire =>
    dsimp only [HostStream.loop] at ht
    unfold expire at ht
    split at ht
    · split at ht <;> cases ht
      exact h.account.returns _
    · split at ht <;> cases ht
      exact h.account.returns _
    · cases ht
  | advance answer => exact h.advanced hn ht
  | recv => exact h.received hn ht
  | poll onFrame =>
    cases ht
    exact h.polled hn
  | readFails message =>
    cases ht
    exact h.account.returns _
  | tick _ | request _ | abandon _ _ | dropSenders | cancel | disconnect | arrive _ | close => cases ht

/-- **A step keeps the account.** -/
theorem Sound.step (ht : next session s a = some t) : Sound session t := by
  unfold next at ht
  split at ht
  · rename_i u hu
    cases ht
    exact h.around hu
  · split at ht
    · cases ht
    · rename_i hn
      exact h.loop (by simpa using hn) ht

end

end Steps

/-! ## Runs -/

abbrev Run (session : Session Owner Op Value Event) :
    List (Transition (State Op Value Event) (Action Op)) → State Op Value Event → Prop :=
  Trace (· = .start) fun s a t => next session s a = some t

theorem Run.sound {session : Session Owner Op Value Event} {l : List (Transition (State Op Value Event) (Action Op))}
    {s : State Op Value Event} (h : Run session l s) : Sound session s :=
  Trace.invariant (fun _ hs => hs ▸ sound_start) (fun _ _ _ ih ht => ih.step ht) h

/-- A request is taken from the queue only when none is unanswered. -/
def OneByOne (x : Transition (State Op Value Event) (Action Op)) : Prop :=
  x.label = .recv → x.src.answered.length = x.src.asked.length

/-- **A run of a host stream** writes whole lines in order, takes a request when none is unanswered, answers each with its
own reply once its line is flushed, delivers every event, and at its end closes the channels of all that wait. -/
theorem run_conduct (session : Session Owner Op Value Event)
    (l : List (Transition (State Op Value Event) (Action Op))) (s : State Op Value Event) (h : Run session l s) :
    Conduct session s ∧ ∀ x ∈ l, OneByOne x := by
  have hs := h.sound
  have ha := hs.account
  refine ⟨?_, fun x hx hrecv => ?_⟩
  · exact {
      written := ha.written, lines := ha.lines, asked := ha.asked, queue := ha.queue, answered := ha.answered
      replies := ha.replies, expected := hs.expected, events := ha.events, frames := ha.frames, arrived := ha.arrived
      closed := fun hend q hq => by
        rcases ha.accounted q hq with h | h | ⟨hn, -⟩
        · exact .inl h
        · exact .inr h
        · simp [hn] at hend }
  · obtain ⟨past, later, -, hrun, hstep⟩ := h.transition x hx
    rw [hrecv] at hstep
    exact (Run.sound hrun).recv_one hstep

namespace Sample

/-- A line is the id; an `r` is a reply to the first request, anything else an event. -/
def session : Session Unit Unit Nat Nat where
  owner := ()
  toVec r := .ok (r.id.toList.map Char.toNat)
  fromSlice
    | 114 :: _ => .ok ⟨PROTOCOL_VERSION, (), .reply "1" (.ok 7)⟩
    | _ => .ok ⟨PROTOCOL_VERSION, (), .event 3⟩

/-- A request is written in two parts, its reply comes in two parts and before the flush, and the callers go. -/
def acts : List (Action Unit) :=
  [.request (), .recv, .advance (.wrote 1), .arrive [101, 10, 114], .poll (.ok ()), .poll (.ok ()), .advance (.wrote 1),
    .arrive [10], .poll (.ok ()), .advance .flushed, .dropSenders, .stop]

def played : Option (List (Transition (State Unit Nat Nat) (Action Unit)) × State Unit Nat Nat) :=
  Trace.play (fun s a => (next session s a).map (Prod.mk a)) acts [] .start

theorem run_of_played {l : List (Transition (State Unit Nat Nat) (Action Unit))} {s : State Unit Nat Nat}
    (h : played = some (l, s)) : Run session l s :=
  Trace.of_played rfl h

end Sample

theorem run_conduct_answered : ∃ l s, Sample.played = some (l, s) ∧ s.written = [49, 10] ∧ s.delivered = [3] ∧
    s.answered.map Answered.sent = [.ok 7] ∧ Conduct Sample.session s ∧ ∀ x ∈ l, OneByOne x :=
  ⟨_, _, rfl, rfl, rfl, rfl, run_conduct Sample.session _ _ (Sample.run_of_played rfl)⟩

end HostStream
end Yuzora
