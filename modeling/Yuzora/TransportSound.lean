import Yuzora.Outbox
import Yuzora.Transport
/-!
# TransportSound — every attachment is an outbox

What is written, sent and answered for one session is a run of an outbox (`Told`): the queue of the session is what waits
there, and it is open while it is the queue of the transport.  Every action keeps it so for all sessions at once.
-/
namespace Yuzora
namespace Transport

open List Table
open Utf16 (Text utf8Length points)

/-! ## One session's part of the log -/

/-- What an outbox shows of what happens to it. -/
inductive Heard
  | accept (input : Input)
  | send (text : Text)
  | settle
  | fail
  | refuse

def batchText (b : List Input) : Text := (b.map Input.text).flatten

def shown : Outbox.Event Input → Heard
  | .accept input => .accept input
  | .send batch => .send (batchText batch)
  | .settle => .settle
  | .fail => .fail
  | .refuse => .refuse

def Record.about (id : Nat) : Record → Option Heard
  | .accepted session given => if session = id then some (.accept given) else none
  | .refused session => if session = id then some .refuse else none
  | .input session text => if session = id then some (.send text) else none
  | .settled session ok => if session = id then some (if ok then .settle else .fail) else none
  | _ => none

def heard (id : Nat) (log : List Record) : List Heard := log.filterMap (Record.about id)

def Record.Aside (r : Record) : Prop := ∀ id, r.about id = none

theorem heard_append (id : Nat) (l l' : List Record) : heard id (l ++ l') = heard id l ++ heard id l' :=
  filterMap_append ..

theorem heard_aside {l : List Record} (h : ∀ r ∈ l, r.Aside) (id : Nat) : heard id l = [] := by
  refine filterMap_eq_nil_iff.2 fun r hr => ?_
  exact h r hr id

def frameOf (b : List Input) : Frame :=
  ⟨batchText b, b.any Input.isPaste, (b.map fun input => inputBytes input.text).sum⟩

def Drain.session : Drain → Nat
  | .starting session | .sending session => session

def Drain.sends : Drain → Bool
  | .starting _ => false
  | .sending _ => true

/-- **The queue of a session is an outbox.** -/
structure Told (s : State) (id : Nat) (queue : InputQueue) (h : List (Outbox.Event Input)) (o : Outbox.State Input) :
    Prop where
  run : Outbox.Run Input.isPaste h o
  heard : heard id s.log = h.map shown
  opened : o.open = decide (s.inputQueue = some id)
  frames : queue.frames = o.waiting.map frameOf
  busy : o.busy = (s.drains.get id).any Drain.sends

/-- What is queued is counted, and not too much. -/
structure Fits (queue : InputQueue) : Prop where
  bytes : (queue.frames.map Frame.bytes).sum = queue.bytes
  limit : queue.bytes ≤ LIMIT
  encoded : ∀ frame ∈ queue.frames, utf8Length frame.text ≤ frame.bytes

structure Sound (s : State) : Prop where
  told : ∀ id queue, s.queues.get id = some queue → ∃ h o, Told s id queue h o
  untold : ∀ id, s.queues.get id = none → heard id s.log = []
  current : ∀ id, s.inputQueue = some id → s.sessionId = some id ∧ ∃ queue, s.queues.get id = some queue
  drains : ∀ id drain, s.drains.get id = some drain → drain.session = id ∧ ∃ queue, s.queues.get id = some queue
  fresh : ∀ id queue, s.queues.get id = some queue → id < s.nextSession
  fits : ∀ id queue, s.queues.get id = some queue → Fits queue

section Frames

variable {s t : State}

theorem sound_new (options : Options) : Sound (.new options) where
  told id queue h := by cases h
  untold _ _ := rfl
  current id h := by cases h
  drains id drain h := by cases h
  fresh id queue h := by cases h
  fits id queue h := by cases h

theorem Sound.same (h : Sound s) (extra : List Record) (hqueues : t.queues = s.queues)
    (hinput : t.inputQueue = s.inputQueue) (hdrains : t.drains = s.drains) (hlog : t.log = s.log ++ extra)
    (hextra : ∀ r ∈ extra, r.Aside) (hcurrent : ∀ id, s.inputQueue = some id → t.sessionId = some id)
    (hnext : s.nextSession ≤ t.nextSession) : Sound t where
  told id queue hq := by
    rw [hqueues] at hq
    obtain ⟨p, o, htold⟩ := h.told id queue hq
    refine ⟨p, o, htold.run, ?_, ?_, htold.frames, ?_⟩
    · rw [hlog, heard_append, heard_aside hextra, append_nil]
      exact htold.heard
    · rw [hinput]
      exact htold.opened
    · rw [hdrains]
      exact htold.busy
  untold id hq := by
    rw [hqueues] at hq
    rw [hlog, heard_append, heard_aside hextra, append_nil]
    exact h.untold id hq
  current id hi := by
    rw [hinput] at hi
    rw [hqueues]
    exact ⟨hcurrent id hi, (h.current id hi).2⟩
  drains id drain hd := by
    rw [hdrains] at hd
    rw [hqueues]
    exact h.drains id drain hd
  fresh id queue hq := by
    rw [hqueues] at hq
    exact Nat.lt_of_lt_of_le (h.fresh id queue hq) hnext
  fits id queue hq := h.fits id queue (hqueues ▸ hq)

/-- Something happens to one queue. -/
structure Touches (s t : State) (id : Nat) (queue : InputQueue) : Prop where
  queues : ∀ k, t.queues.get k = if k = id then some queue else s.queues.get k
  input : ∀ k, k ≠ id → (t.inputQueue = some k ↔ s.inputQueue = some k)
  drains : ∀ k, k ≠ id → t.drains.get k = s.drains.get k
  log : ∀ k, k ≠ id → heard k t.log = heard k s.log
  current : ∀ k, t.inputQueue = some k → t.sessionId = some k
  drain : ∀ drain, t.drains.get id = some drain → drain.session = id
  next : s.nextSession ≤ t.nextSession

theorem Sound.touch (h : Sound s) (id : Nat) (queue : InputQueue) (ht : Touches s t id queue) (hlt : id < t.nextSession)
    (htold : ∃ p o, Told t id queue p o) (hfits : Fits queue) : Sound t := by
  have hget : ∀ k, k ≠ id → t.queues.get k = s.queues.get k := by
    intro k hk
    rw [ht.queues, if_neg hk]
  have hself : t.queues.get id = some queue := by rw [ht.queues, if_pos rfl]
  constructor
  case told =>
    intro k queue' hq
    by_cases hk : k = id
    · subst hk
      cases hself.symm.trans hq
      exact htold
    · rw [hget k hk] at hq
      obtain ⟨p, o, htold⟩ := h.told k queue' hq
      refine ⟨p, o, htold.run, ?_, ?_, htold.frames, ?_⟩
      · rw [ht.log k hk]
        exact htold.heard
      · rw [htold.opened]
        exact decide_eq_decide.2 (ht.input k hk).symm
      · rw [ht.drains k hk]
        exact htold.busy
  case untold =>
    intro k hq
    by_cases hk : k = id
    · subst hk
      rw [hself] at hq
      cases hq
    · rw [hget k hk] at hq
      rw [ht.log k hk]
      exact h.untold k hq
  case current =>
    intro k hi
    refine ⟨ht.current k hi, ?_⟩
    by_cases hk : k = id
    · exact ⟨queue, hk ▸ hself⟩
    · rw [hget k hk]
      exact (h.current k ((ht.input k hk).1 hi)).2
  case drains =>
    intro k drain hd
    by_cases hk : k = id
    · subst hk
      exact ⟨ht.drain drain hd, queue, hself⟩
    · rw [ht.drains k hk] at hd
      rw [hget k hk]
      exact h.drains k drain hd
  case fresh =>
    intro k queue' hq
    by_cases hk : k = id
    · exact hk ▸ hlt
    · rw [hget k hk] at hq
      exact Nat.lt_of_lt_of_le (h.fresh k queue' hq) ht.next
  case fits =>
    intro k queue' hq
    by_cases hk : k = id
    · subst hk
      cases hself.symm.trans hq
      exact hfits
    · rw [hget k hk] at hq
      exact h.fits k queue' hq

end Frames

/-! ## What is pushed -/

theorem utf8Length_single {c : Nat} (h : c < 0x80) : utf8Length [c] = 1 := by
  simp [utf8Length, points, Utf16.pointBytes, h]

theorem inputBytes_eq {data : Text} (h : inputBytes data ≤ LIMIT) : inputBytes data = utf8Length data := by
  unfold inputBytes at h ⊢
  split
  · rename_i hlong
    rw [if_pos hlong] at h
    omega
  · split
    · rename_i hone
      obtain ⟨c, rfl⟩ := length_eq_one_iff.1 hone.1
      exact (utf8Length_single hone.2).symm
    · rfl

theorem fits_empty : Fits ⟨[], 0⟩ := ⟨rfl, Nat.zero_le _, nofun⟩

variable {queue : InputQueue}

theorem fits_push (h : Fits queue) (data : Text) (paste : Bool)
    (hle : queue.bytes + inputBytes data ≤ LIMIT) : Fits (queue.push data paste (inputBytes data)) := by
  have hbytes : utf8Length data ≤ inputBytes data := Nat.le_of_eq (inputBytes_eq (by omega)).symm
  have hsum := h.bytes
  -- A frame of its own.
  have hown : Fits ⟨queue.frames ++ [⟨data, paste, inputBytes data⟩], queue.bytes + inputBytes data⟩ := by
    refine ⟨by simp [hsum], hle, fun frame hf => ?_⟩
    rcases mem_append.1 hf with hf | hf
    · exact h.encoded frame hf
    · obtain rfl := mem_singleton.1 hf
      exact hbytes
  unfold InputQueue.push
  rcases eq_nil_or_concat queue.frames with hnil | ⟨front, previous, hfront⟩
  · simpa [hnil] using hown
  · rw [concat_eq_append] at hfront
    rw [hfront] at hsum hown ⊢
    rw [getLast?_concat]
    simp only
    split
    · rw [dropLast_concat]
      simp only [map_append, map_cons, map_nil, sum_append, sum_cons, sum_nil] at hsum
      refine ⟨?_, hle, fun frame hf => ?_⟩
      · simp only [map_append, map_cons, map_nil, sum_append, sum_cons, sum_nil]
        omega
      · rcases mem_append.1 hf with hf | hf
        · exact h.encoded frame (hfront ▸ mem_append_left _ hf)
        · obtain rfl := mem_singleton.1 hf
          have happend := Utf16.utf8Length_append_le previous.text data
          have hprevious := h.encoded previous (hfront ▸ mem_concat_self)
          simp only
          omega
    · exact hown

theorem frameOf_single (input : Input) : frameOf [input] = ⟨input.text, input.isPaste, inputBytes input.text⟩ := by
  simp [frameOf, batchText]

theorem frameOf_concat {b : List Input} {input : Input} (hb : (frameOf b).paste = false) (hi : input.isPaste = false) :
    frameOf (b ++ [input]) =
      { frameOf b with text := (frameOf b).text ++ input.text, bytes := (frameOf b).bytes + inputBytes input.text } := by
  have hany : b.any Input.isPaste = false := hb
  simp [frameOf, batchText, hany, hi]

/-- **A push is an acceptance.** -/
theorem push_run {h : List (Outbox.Event Input)} {w : List (List Input)} {busy : Bool}
    (hrun : Outbox.Run Input.isPaste h ⟨w, busy, true⟩) (hframes : queue.frames = w.map frameOf) (input : Input) :
    ∃ w', Outbox.Run Input.isPaste (h ++ [Outbox.Event.accept input]) ⟨w', busy, true⟩ ∧
      (queue.push input.text input.isPaste (inputBytes input.text)).frames = w'.map frameOf := by
  have hown : (queue.frames ++ [⟨input.text, input.isPaste, inputBytes input.text⟩]) = (w ++ [[input]]).map frameOf := by
    simp [hframes, frameOf_single]
  unfold InputQueue.push
  rcases eq_nil_or_concat w with rfl | ⟨front, b, rfl⟩
  · refine ⟨_, .alone input hrun, ?_⟩
    rw [← hown, hframes]
    rfl
  · rw [concat_eq_append] at hrun hframes hown
    have hlast : queue.frames.getLast? = some (frameOf b) := by
      rw [hframes, map_append]
      exact getLast?_concat ..
    rw [hlast]
    simp only
    split
    · rename_i hboth
      have hb : ∀ x ∈ b, Input.isPaste x = false := by
        have hany : b.any Input.isPaste = false := hboth.2
        simpa using hany
      refine ⟨_, .joined hrun hboth.1 hb, ?_⟩
      have hdrop : queue.frames.dropLast = front.map frameOf := by
        rw [hframes, map_append]
        exact dropLast_concat ..
      simp only [hdrop, map_append, map_cons, map_nil, frameOf_concat hboth.2 hboth.1]
    · exact ⟨_, .alone input hrun, hown⟩

/-! ## Actions -/

section Actions

variable {s t : State} {q : Nat}

theorem discardInput_frame (s : State) : s.discardInput.sessionId = s.sessionId ∧ s.discardInput.drains = s.drains ∧
    s.discardInput.nextSession = s.nextSession ∧ s.discardInput.log = s.log ∧ s.discardInput.inputQueue = none := by
  unfold State.discardInput
  split
  · rename_i hnone
    exact ⟨rfl, rfl, rfl, rfl, hnone⟩
  · exact ⟨rfl, rfl, rfl, rfl, rfl⟩

@[simp] theorem discardInput_sessionId (s : State) : s.discardInput.sessionId = s.sessionId := (discardInput_frame s).1
@[simp] theorem discardInput_drains (s : State) : s.discardInput.drains = s.drains := (discardInput_frame s).2.1
@[simp] theorem discardInput_nextSession (s : State) : s.discardInput.nextSession = s.nextSession :=
  (discardInput_frame s).2.2.1
@[simp] theorem discardInput_log (s : State) : s.discardInput.log = s.log := (discardInput_frame s).2.2.2.1
@[simp] theorem discardInput_inputQueue (s : State) : s.discardInput.inputQueue = none := (discardInput_frame s).2.2.2.2

theorem sound_discardInput (h : Sound s) : Sound s.discardInput := by
  unfold State.discardInput
  split
  · exact h
  · rename_i q hq
    obtain ⟨-, queue, hget⟩ := h.current q hq
    obtain ⟨p, o, htold⟩ := h.told q queue hget
    have htouch : Touches s { s with queues := s.queues.insert q ⟨[], 0⟩, inputQueue := none } q ⟨[], 0⟩ := by
      refine ⟨fun k => get_insert _ q k _, fun k hk => ?_, fun k hk => rfl, fun k hk => rfl, fun k hk => (by cases hk), ?_,
        Nat.le_refl _⟩
      · constructor
        · intro hnone
          cases hnone
        · intro hsome
          exact absurd (Option.some.inj (hsome.symm.trans hq)) hk
      · exact fun drain hd => (h.drains q drain hd).1
    refine h.touch q _ htouch (h.fresh q queue hget) ⟨p, ⟨[], o.busy, false⟩, ?_⟩ fits_empty
    exact ⟨.close htold.run, htold.heard, by simp, rfl, htold.busy⟩

theorem Sound.discarded (h : Sound s) (hinput : s.inputQueue = none) (extra : List Record)
    (hqueues : t.queues = s.queues)
    (hnone : t.inputQueue = none) (hdrains : t.drains = s.drains) (hlog : t.log = s.log ++ extra)
    (hextra : ∀ r ∈ extra, r.Aside) (hnext : t.nextSession = s.nextSession) : Sound t := by
  refine h.same extra hqueues (hnone.trans hinput.symm) hdrains hlog hextra (fun id hi => ?_) (Nat.le_of_eq hnext.symm)
  rw [hinput] at hi
  cases hi

theorem aside_told (event : TerminalTransportEvent) : ∀ r ∈ [Record.told event], r.Aside := by
  intro r hr id
  obtain rfl := mem_singleton.1 hr
  rfl

theorem sound_tell (h : Sound s) (event : TerminalTransportEvent) : Sound (s.tell event) := by
  unfold State.tell
  split
  · exact h.same _ rfl rfl rfl rfl (aside_told event) (fun id hi => (h.current id hi).1) (Nat.le_refl _)
  · exact h

theorem sound_reportStall (h : Sound s) (attached : Nat) : Sound (s.reportStall attached) := by
  unfold State.reportStall
  split
  · exact sound_tell (sound_discardInput h) _
  · exact h

theorem sound_openConnector (h : Sound s) (mode : HerdrTerminalMode) (takeover : Bool) (cols rows : Nat) :
    Sound (s.openConnector mode takeover cols rows) := by
  unfold State.openConnector
  split
  · exact h
  · exact (sound_discardInput h).discarded (discardInput_inputQueue s) [] rfl (discardInput_inputQueue s) rfl
      (append_nil _).symm nofun rfl

theorem aside_option {f : Nat → Record} (hf : ∀ id, (f id).Aside) (o : Option Nat) : ∀ r ∈ (o.map f).toList, r.Aside := by
  intro r hr
  cases o with
  | none => cases hr
  | some id =>
    obtain rfl := mem_singleton.1 hr
    exact hf id

theorem aside_append {l l' : List Record} (h : ∀ r ∈ l, r.Aside) (h' : ∀ r ∈ l', r.Aside) : ∀ r ∈ l ++ l', r.Aside := by
  intro r hr
  exact (mem_append.1 hr).elim (h r) (h' r)

/-- **The answer of an open**: the attachment gets a queue of its own. -/
theorem sound_opened (h : Sound s) (generation : Nat) (call : OpenCall) {session : Nat} (result : OpenResult)
    (hfresh : s.nextSession ≤ session) (hinput : generation = s.openGeneration → s.inputQueue = none) :
    Sound (s.opened generation call session result) := by
  have hnone : s.queues.get session = none := by
    cases hget : s.queues.get session with
    | none => rfl
    | some queue =>
      have hlt := h.fresh session queue hget
      omega
  have hdrain : s.drains.get session = none := by
    cases hget : s.drains.get session with
    | none => rfl
    | some drain =>
      obtain ⟨-, queue, hq⟩ := h.drains session drain hget
      rw [hnone] at hq
      cases hq
  unfold State.opened
  simp only
  split
  · refine h.same [.returned session, .release session] rfl rfl rfl (by simp) ?_
      (fun id hi => (h.current id hi).1) (Nat.le_succ_of_le hfresh)
    intro r hr id
    simp only [mem_cons, not_mem_nil, or_false] at hr
    rcases hr with rfl | rfl <;> rfl
  · rename_i hcurrent
    simp only [not_or, not_not] at hcurrent
    -- The records of the attachment.
    have haside : ∀ r ∈ [Record.returned session] ++ (s.sessionId.map Record.replaced).toList ++
        [Record.attached session result, Record.told (.control result.mode result.role)], r.Aside := by
      refine aside_append (aside_append ?_ (aside_option (fun _ _ => rfl) _)) ?_
      · intro r hr id
        obtain rfl := mem_singleton.1 hr
        rfl
      · intro r hr id
        simp only [mem_cons, not_mem_nil, or_false] at hr
        rcases hr with rfl | rfl <;> rfl
    have hlog : ∀ k, heard k (s.log ++ [Record.returned session] ++ (s.sessionId.map Record.replaced).toList ++
        [Record.attached session result, Record.told (.control result.mode result.role)]) = heard k s.log := by
      intro k
      rw [append_assoc, append_assoc, ← append_assoc [_], heard_append, heard_aside haside, append_nil]
    refine h.touch session (⟨[], 0⟩) ⟨fun k => get_insert _ session k _, fun k hk => ?_, fun k hk => rfl, fun k hk => hlog k, ?_,
      ?_,
      Nat.le_succ_of_le hfresh⟩ (Nat.lt_succ_self _) ⟨[], ⟨[], false, true⟩, .start, ?_, ?_, rfl, ?_⟩ fits_empty
    · constructor
      · intro heq
        exact absurd (Option.some.inj heq).symm hk
      · intro heq
        rw [hinput hcurrent.2] at heq
        cases heq
    · exact fun k hk => hk
    · intro drain hd
      rw [hdrain] at hd
      cases hd
    · rw [hlog]
      exact h.untold session hnone
    · simp
    · simp [hdrain]

theorem sound_enqueueInput (h : Sound s) (input : Input) : Sound (s.enqueueInput input) := by
  unfold State.enqueueInput
  split
  · rename_i id q hid hq
    obtain ⟨hsession, -⟩ := h.current q hq
    cases hid.symm.trans hsession
    split
    · exact h
    · split
      · exact h
      · rename_i queue hget
        obtain ⟨p, o, htold⟩ := h.told id queue hget
        obtain ⟨waiting, busy, o⟩ := o
        have hopen : o = true := htold.opened.trans (by simp [hq])
        subst hopen
        simp only
        split
        · -- It would be too much: the queue is discarded with a refusal.
          unfold State.failInput
          rw [if_pos hq]
          apply sound_tell
          have hdiscard : State.discardInput { s with log := s.log ++ [Record.refused id] } =
              { s with log := s.log ++ [Record.refused id], queues := s.queues.insert id ⟨[], 0⟩, inputQueue := none } := by
            simp only [State.discardInput, hq]
          rw [hdiscard]
          have hlog : ∀ k, k ≠ id → heard k (s.log ++ [Record.refused id]) = heard k s.log := by
            intro k hk
            have hno : Record.about k (Record.refused id) = none := if_neg fun heq => hk heq.symm
            simp [heard, hno]
          refine h.touch id (⟨[], 0⟩) ⟨fun k => get_insert _ id k _, fun k hk => ?_, fun k hk => rfl, hlog,
            fun k hk => (by cases hk),
            fun drain hd => (h.drains id drain hd).1, Nat.le_refl _⟩ (h.fresh id queue hget)
            ⟨p ++ [Outbox.Event.refuse], ⟨[], busy, false⟩, .refuse htold.run, ?_, by simp, rfl, htold.busy⟩ fits_empty
          · constructor
            · intro hnone
              cases hnone
            · intro hsome
              exact absurd (Option.some.inj (hsome.symm.trans hq)) hk
          · rw [heard_append, htold.heard, map_append]
            simp [heard, Record.about, shown]
        · rename_i hfits
          obtain ⟨waiting', hrun, hframes⟩ := push_run htold.run htold.frames input
          have hlog : ∀ k, k ≠ id → heard k (s.log ++ [Record.accepted id input]) = heard k s.log := by
            intro k hk
            have hno : Record.about k (Record.accepted id input) = none := if_neg fun heq => hk heq.symm
            simp [heard, hno]
          have hdrains : ∀ k, (if s.drains.contains id then s.drains else s.drains.insert id (.starting id)).get k =
              if k = id then some ((s.drains.get id).getD (.starting id)) else s.drains.get k := by
            intro k
            by_cases hk : k = id
            · subst hk
              cases hd : s.drains.get k with
              | none | some => simp [Table.contains, hd]
            · rw [if_neg hk]
              split
              · rfl
              · rw [get_insert, if_neg hk]
          refine h.touch id (queue.push input.text input.isPaste (inputBytes input.text))
            ⟨fun k => get_insert _ id k _, fun k hk => Iff.rfl, fun k hk => ?_, hlog, fun k hk => (h.current k hk).1, fun drain hd => ?_,
              Nat.le_refl _⟩ (h.fresh id queue hget)
            ⟨p ++ [Outbox.Event.accept input], ⟨waiting', busy, true⟩, hrun, ?_, by simp [hq], hframes, ?_⟩
            (fits_push (h.fits id queue hget) _ _ (by omega))
          · rw [hdrains, if_neg hk]
          · rw [hdrains, if_pos rfl] at hd
            cases hd
            cases hold : s.drains.get id with
            | none => rfl
            | some drain => exact (h.drains id drain hold).1
          · rw [heard_append, htold.heard, map_append]
            simp [heard, Record.about, shown]
          · rw [hdrains, if_pos rfl]
            have hbusy := htold.busy
            rw [hbusy]
            cases hold : s.drains.get id with
            | none | some => rfl
  · exact h

theorem sound_drained (h : Sound s) (hquiet : (s.drains.get q).any Drain.sends = false) :
    Sound { s with drains := s.drains.erase q } where
  told id queue hget := by
    obtain ⟨p, o, htold⟩ := h.told id queue hget
    refine ⟨p, o, htold.run, htold.heard, htold.opened, htold.frames, ?_⟩
    rw [htold.busy]
    simp only [get_erase]
    split
    · rename_i heq
      rw [heq, hquiet]
      rfl
    · rfl
  untold := h.untold
  current := h.current
  drains id drain hd := by
    simp only [get_erase] at hd
    split at hd
    · cases hd
    · exact h.drains id drain hd
  fresh := h.fresh
  fits := h.fits

theorem sound_drainOn (h : Sound s) (hquiet : (s.drains.get q).any Drain.sends = false) : Sound (s.drainOn q q) := by
  unfold State.drainOn
  split
  · rename_i frame frames bytes hget
    split
    · rename_i hq
      obtain ⟨p, ⟨waiting, busy, o⟩, htold⟩ := h.told q _ hget
      have hopen : o = true := htold.opened.trans (by simp [hq])
      subst hopen
      have hbusy : busy = false := htold.busy.trans hquiet
      subst hbusy
      obtain ⟨b, rest, rfl⟩ : ∃ b rest, waiting = b :: rest := by
        cases waiting with
        | nil => exact absurd htold.frames (by simp)
        | cons b rest => exact ⟨b, rest, rfl⟩
      have hframes := htold.frames
      simp only [map_cons, List.cons.injEq] at hframes
      obtain ⟨rfl, hrest⟩ := hframes
      have hlog : ∀ k, k ≠ q → heard k (s.log ++ [Record.input q (frameOf b).text]) = heard k s.log := by
        intro k hk
        have hno : Record.about k (Record.input q (frameOf b).text) = none := if_neg fun heq => hk heq.symm
        simp [heard, hno]
      have hfits := h.fits q _ hget
      have hsum := hfits.bytes
      have hlimit := hfits.limit
      simp only [map_cons, sum_cons] at hsum hlimit
      refine h.touch q (⟨frames, bytes - (frameOf b).bytes⟩) ⟨fun k => get_insert _ q k _, fun k hk => Iff.rfl,
        fun k hk => ?_, hlog, fun k hk => (h.current k hk).1, fun drain hd => ?_, Nat.le_refl _⟩ (h.fresh q _ hget)
        ⟨p ++ [Outbox.Event.send b], ⟨rest, true, true⟩, .send htold.run, ?_, by simp [hq], hrest, ?_⟩
        ⟨?_, ?_, fun frame hf => hfits.encoded frame (mem_cons_of_mem _ hf)⟩
      · rw [get_insert, if_neg hk]
      · rw [get_insert_self] at hd
        cases hd
        rfl
      · rw [heard_append, htold.heard, map_append]
        simp [heard, Record.about, shown, frameOf]
      · rw [get_insert_self]
        rfl
      · simp only
        omega
      · simp only
        omega
    · exact sound_drained h hquiet
  · exact sound_drained h hquiet

theorem drainOn_erase (s : State) (q session : Nat) :
    { s with drains := s.drains.erase q }.drainOn q session = s.drainOn q session := by
  unfold State.drainOn
  simp only
  split
  · split
    · simp only [insert_erase]
    · simp only [erase_erase]
  · simp only [erase_erase]

theorem tell_drains (s : State) (event : TerminalTransportEvent) (q : Nat) :
    { s.tell event with drains := (s.tell event).drains.erase q } = { s with drains := s.drains.erase q }.tell event := by
  unfold State.tell
  split <;> rfl

/-- **A request is answered.** -/
theorem sound_settled (h : Sound s) (hsend : s.drains.get q = some (.sending q)) (ok : Bool) :
    Sound (s.settled q q ok) := by
  obtain ⟨-, queue, hget⟩ := h.drains q _ hsend
  obtain ⟨p, ⟨waiting, busy, o⟩, htold⟩ := h.told q queue hget
  have hbusy : busy = true := htold.busy.trans (by simp [hsend, Drain.sends])
  subst hbusy
  have hlog : ∀ k, k ≠ q → heard k (s.log ++ [Record.settled q ok]) = heard k s.log := by
    intro k hk
    have hno : Record.about k (Record.settled q ok) = none := if_neg fun heq => hk heq.symm
    simp [heard, hno]
  have hdrains : ∀ k, k ≠ q → (s.drains.erase q).get k = s.drains.get k := by
    intro k hk
    rw [get_erase, if_neg hk]
  have hgone : ∀ drain, (s.drains.erase q).get q = some drain → drain.session = q := by
    intro drain hd
    rw [get_erase_self] at hd
    cases hd
  have hqueues : ∀ k, s.queues.get k = if k = q then some queue else s.queues.get k := by
    intro k
    split
    · rename_i heq
      rw [heq, hget]
    · rfl
  cases ok with
  | true =>
    have hbase : Sound { s with log := s.log ++ [Record.settled q true], drains := s.drains.erase q } := by
      refine h.touch q (queue) ⟨hqueues, fun k hk => Iff.rfl, hdrains, hlog,
        fun k hk => (h.current k hk).1, hgone, Nat.le_refl _⟩ (h.fresh q queue hget)
        ⟨p ++ [Outbox.Event.settle], ⟨waiting, false, o⟩, .settle htold.run, ?_, htold.opened, htold.frames, ?_⟩ (h.fits q queue hget)
      · rw [heard_append, htold.heard, map_append]
        simp [heard, Record.about, shown]
      · simp
    have heq : s.settled q q true =
        State.drainOn { s with log := s.log ++ [Record.settled q true], drains := s.drains.erase q } q q :=
      (drainOn_erase { s with log := s.log ++ [Record.settled q true] } q q).symm
    rw [heq]
    exact sound_drainOn hbase (by simp)
  | false =>
    have hheard : heard q (s.log ++ [Record.settled q false]) = (p ++ [Outbox.Event.fail]).map shown := by
      rw [heard_append, htold.heard, map_append]
      simp [heard, Record.about, shown]
    simp only [State.settled, Bool.false_eq_true, if_false]
    unfold State.failInput
    by_cases hq : s.inputQueue = some q
    · rw [if_pos hq, tell_drains]
      apply sound_tell
      have hdiscard : State.discardInput { s with log := s.log ++ [Record.settled q false] } =
          { s with log := s.log ++ [Record.settled q false], queues := s.queues.insert q ⟨[], 0⟩, inputQueue := none } := by
        simp only [State.discardInput, hq]
      rw [hdiscard]
      refine h.touch q (⟨[], 0⟩) ⟨fun k => get_insert _ q k _, fun k hk => ?_, hdrains, hlog,
        fun k hk => (by cases hk), hgone, Nat.le_refl _⟩ (h.fresh q queue hget)
        ⟨p ++ [Outbox.Event.fail], ⟨[], false, false⟩, .fail htold.run, hheard, by simp, rfl, ?_⟩ fits_empty
      · constructor
        · intro hnone
          cases hnone
        · intro hsome
          exact absurd (Option.some.inj (hsome.symm.trans hq)) hk
      · simp
    · -- The queue was replaced before: nothing of it waits.
      rw [if_neg hq]
      have hclosed : o = false := htold.opened.trans (by simp [hq])
      have hempty : waiting = [] := htold.run.closed hclosed
      subst hempty
      refine h.touch q (queue) ⟨hqueues, fun k hk => Iff.rfl, hdrains, hlog,
        fun k hk => (h.current k hk).1, hgone, Nat.le_refl _⟩ (h.fresh q queue hget)
        ⟨p ++ [Outbox.Event.fail], ⟨[], false, false⟩, .fail htold.run, hheard, by simp [hq], htold.frames, ?_⟩ (h.fits q queue hget)
      simp

end Actions

end Transport
end Yuzora
