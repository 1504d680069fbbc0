import Yuzora.WriteQueue
import Yuzora.Trace
/-!
# WriteAnswers — every queued write request is answered once

The peer's loop as a machine: the queue's operations in any order, an invalidation, a shutdown or a closed stream between
any two.  What a request is owed is counted: it waits in the queue, it is the active write, or its answer waits to go out.
-/
namespace Yuzora
namespace Writes

open List
open Reads (Admission)

/-- The connection: `ended` once the loop has left and `cancel_writes` has run; the peer is dropped right after. -/
structure Link where
  reads : Reads
  ended : Bool
  clock : Timestamp

inductive Op
  | write (id : String) (request : Request) (admission : Admission)
  | pump (submit : Except Code Unit) (visit : Visit (Nat × Stream))
  | finish (completion : Completion)
  | tick (visits : Visit Nat × Visit (Nat × Stream))
  | closed (visit : Visit (Nat × Stream))
  | cancelled
  | cancelWrites (reason : Code)
  /-- The session ends, elsewhere. -/
  | invalidate
  | shutdown (code : Nat)
  /-- A sink, or the Host's end of a stream, closes it. -/
  | streamEnds (stream : Nat) (reason : Code)
  /-- The reads' own streams come and go. -/
  | readOpened (session : String)
  | readClosed (stream : Nat)

structure Label where
  op : Op
  clock : Readings
  started : Nat → Bool
  replies : List Reply

def Reads.expects (reads : Reads) (completion : Completion) : Bool :=
  completion.serial.all (fun serial => reads.submitted.any (fun work =>
    work.serial = serial && work.id = completion.id && work.stream = completion.stream))

variable (s : Link)

/-- The loop drops the peer after `cancel_writes`; a job's result may still be read. -/
def Op.enabled : Op → Bool
  | .finish completion => s.reads.expects completion
  | .invalidate | .streamEnds _ _ => true
  | .shutdown code => code ≠ 0
  | .readClosed stream => !s.ended && (s.reads.streams.get stream).all (fun st => st.write.isNone)
  | _ => !s.ended

def Reads.step (reads : Reads) (op : Op) (started : Nat → Bool) (clock : Readings) : List Reply × Reads :=
  match op with
  | .write id request admission =>
    match reads.admitWrite id request admission started with
    | (.error code, reads) => ([.error id code], reads)
    | (.ok reply, reads) => (reply.toList, reads)
  | .pump submit visit => reads.pumpWrites submit visit started (clock.now 0)
  | .finish completion => reads.finish completion
  | .tick visits => reads.writeTick visits started clock
  | .closed visit => reads.closed visit started
  | .cancelled => reads.cancelledWrites
  | .cancelWrites reason => reads.cancelWrites reason started
  | .invalidate => ([], { reads with life := { reads.life with invalidated := true } })
  | .shutdown code => ([], { reads with life := { reads.life with stop := code } })
  | .streamEnds stream reason =>
    match reads.streams.get stream with
    | none => ([], reads)
    | some s => ([], { reads with streams := reads.streams.insert stream (s.close reason) })
  | .readOpened session => ([], { reads with
      nextId := reads.nextId + 1
      streams := reads.streams.insert reads.nextId
        { session, lease := false, closed := none, deadline := none, write := none } })
  | .readClosed stream => ([], { reads with streams := reads.streams.erase stream })

def Link.ends : Op → Bool
  | .cancelWrites _ => true
  | _ => s.ended

def Step (label : Label) (t : Link) : Prop :=
  label.op.enabled s = true ∧ s.clock ≤ label.clock.now 0 ∧
    s.reads.step label.op label.started label.clock = (label.replies, t.reads) ∧
    t.ended = s.ends label.op ∧ t.clock = label.clock.done

def Init : Prop := ∃ life : Life, life.alive = true ∧ s.reads = Reads.new life ∧ s.ended = false

variable (l : List (Transition Link Label))

abbrev Run (s : Link) : Prop := Trace Init Step l s

/-! ## Counting -/

def Queue.owed (q : Queue) (n : Nat) : Nat :=
  q.receiver.countP (fun work => work.serial = n) +
    q.activeWrite.toList.countP (fun write => write.serial = n) +
    q.cancelled.countP (fun reply => reply.serial = some n)

def answered (replies : List Reply) (n : Nat) : Nat := replies.countP (fun reply => reply.serial = some n)

@[simp] theorem answered_nil (n : Nat) : answered [] n = 0 := rfl

theorem answered_append (l m : List Reply) (n : Nat) : answered (l ++ m) n = answered l n + answered m n :=
  countP_append

@[simp] theorem answered_streamClosed (stream : Nat) (reason : Code) (l : List Reply) (n : Nat) :
    answered (.streamClosed stream reason :: l) n = answered l n := by
  simp [answered, Reply.serial]

@[simp] theorem cancelled_serial (write : PendingWrite) (unknown : Bool) :
    (write.cancelled unknown).serial = some write.serial := rfl

@[simp] theorem pending_serial (work : Work) : work.pending.serial = work.serial := rfl

theorem answered_map_cancelled (l : List Work) (started : Nat → Bool) (n : Nat) :
    answered (l.map (fun work => work.pending.cancelled (started work.serial))) n =
      l.countP (fun work => work.serial = n) := by
  simp [answered, countP_map, Function.comp_def]

theorem foldl_resend : ∀ (l : List Work) (q : Queue), q.receiver.length + l.length ≤ WRITE_QUEUE →
    l.foldl Queue.resend q = { q with receiver := q.receiver ++ l }
  | [], q, _ => by simp
  | work :: l, q, h => by
    rw [length_cons] at h
    have hone : q.resend work = { q with receiver := q.receiver ++ [work] } := by
      rw [Queue.resend, Queue.trySend, if_pos (by omega), Option.getD_some]
    rw [foldl_cons, hone, foldl_resend l]
    · simp
    · simp only [length_append, length_cons, length_nil]
      omega

/-- **Discarding a stream's requests**: each is answered, the others stay in order. -/
theorem discardStream_eq (q : Queue) (stream : Nat) (started : Nat → Bool) (h : q.receiver.length ≤ WRITE_QUEUE) :
    q.discardStream stream started = { q with
      receiver := q.receiver.filter (fun work => !decide (work.stream = some stream))
      cancelled := q.cancelled ++ (q.receiver.filter (fun work => work.stream = some stream)).map
        (fun work => work.pending.cancelled (started work.serial)) } := by
  unfold Queue.discardStream
  rw [partition_eq_filter_filter]
  simp only
  rw [foldl_resend]
  · simp [Function.comp_def]
  · have := length_filter_le (not ∘ fun work : Work => decide (work.stream = some stream)) q.receiver
    simp only [length_nil]
    omega

theorem discardStream_owed (q : Queue) (stream : Nat) (started : Nat → Bool) (h : q.receiver.length ≤ WRITE_QUEUE)
    (n : Nat) : (q.discardStream stream started).owed n = q.owed n := by
  rw [discardStream_eq q stream started h]
  have hsplit := countP_eq_countP_filter_add q.receiver (fun work => decide (work.serial = n))
    (fun work => decide (work.stream = some stream))
  have hmap := answered_map_cancelled (q.receiver.filter (fun work => decide (work.stream = some stream))) started n
  simp only [answered] at hmap
  simp only [Queue.owed, countP_append, hmap]
  omega

/-! ## What the operations do to the queue -/

/-- An operation that at most closes streams and answers their queued requests. -/
structure Discards (r r' : Reads) : Prop where
  owed : ∀ n, r'.writes.owed n = r.writes.owed n
  shorter : r'.writes.receiver.length ≤ r.writes.receiver.length
  active : r'.writes.active = r.writes.active
  stalled : r'.writes.stalled = r.writes.stalled
  watchdog : r'.writes.watchdog = r.writes.watchdog
  activeWrite : r'.writes.activeWrite = r.writes.activeWrite
  submitted : r'.submitted = r.submitted
  admitted : r'.admitted = r.admitted
  life : r'.life = r.life

namespace Discards

theorem refl (r : Reads) : Discards r r := ⟨fun _ => rfl, Nat.le_refl _, rfl, rfl, rfl, rfl, rfl, rfl, rfl⟩

theorem streams (r : Reads) (t : Table Nat Stream) : Discards r { r with streams := t } :=
  ⟨fun _ => rfl, Nat.le_refl _, rfl, rfl, rfl, rfl, rfl, rfl, rfl⟩

theorem trans {r r' r'' : Reads} (h : Discards r r') (h' : Discards r' r'') : Discards r r'' where
  owed n := (h'.owed n).trans (h.owed n)
  shorter := le_trans h'.shorter h.shorter
  active := h'.active.trans h.active
  stalled := h'.stalled.trans h.stalled
  watchdog := h'.watchdog.trans h.watchdog
  activeWrite := h'.activeWrite.trans h.activeWrite
  submitted := h'.submitted.trans h.submitted
  admitted := h'.admitted.trans h.admitted
  life := h'.life.trans h.life

theorem discard {r : Reads} (h : r.writes.receiver.length ≤ WRITE_QUEUE) (stream : Nat) (started : Nat → Bool) :
    Discards r (r.discardWriteStream stream started) := by
  refine ⟨discardStream_owed _ _ _ h, ?_, ?_, ?_, ?_, ?_, rfl, rfl, rfl⟩ <;>
    simp only [Reads.discardWriteStream, discardStream_eq _ _ _ h]
  exact length_filter_le _ _

theorem remove {r : Reads} (h : r.writes.receiver.length ≤ WRITE_QUEUE) (stream : Nat) (started : Nat → Bool) :
    Discards r ({ r with streams := r.streams.erase stream }.discardWriteStream stream started) :=
  (streams r (r.streams.erase stream)).trans (discard (r := { r with streams := r.streams.erase stream }) h stream started)

theorem removeClosed (started : Nat → Bool) : ∀ (gone : List (Nat × Code)) {r : Reads},
    r.writes.receiver.length ≤ WRITE_QUEUE → Discards r (r.removeClosed started gone).2 ∧
      ∀ n, answered (r.removeClosed started gone).1 n = 0
  | [], r, _ => ⟨refl r, fun _ => rfl⟩
  | (id, reason) :: rest, r, h => by
    have hone := remove h id started
    obtain ⟨hrest, hans⟩ := removeClosed started rest (le_trans hone.shorter h)
    exact ⟨hone.trans hrest, fun n => (answered_streamClosed id reason _ n).trans (hans n)⟩

theorem displace (started : Nat → Bool) : ∀ (gone : List Nat) {r : Reads},
    r.writes.receiver.length ≤ WRITE_QUEUE → Discards r (r.displace started gone).2 ∧
      ∀ n, answered (r.displace started gone).1 n = 0
  | [], r, _ => ⟨refl r, fun _ => rfl⟩
  | id :: rest, r, h => by
    have hone := remove h id started
    obtain ⟨hrest, hans⟩ := displace started rest (le_trans hone.shorter h)
    exact ⟨hone.trans hrest, fun n => (answered_streamClosed id "full-opened" _ n).trans (hans n)⟩

theorem expireStreams (clock : Readings) : ∀ (ids : List Nat) (n : Nat) (r : Reads),
    Discards r (Reads.expireStreams clock ids n r)
  | [], _, r => refl r
  | id :: ids, n, r => by
    refine trans ?_ (expireStreams clock ids (n + 1) (r.expireStream id (clock.now n)))
    unfold Reads.expireStream
    split
    · split
      · exact streams r _
      · exact refl r
    · exact refl r

end Discards

/-- The queue took the request. -/
structure Admits (r r' : Reads) : Prop where
  receiver : ∃ work, work.serial = r.admitted ∧
    r'.writes = { r.writes with receiver := r.writes.receiver ++ [work] }
  room : r.writes.receiver.length < WRITE_QUEUE
  admitted : r'.admitted = r.admitted + 1
  submitted : r'.submitted = r.submitted
  life : r'.life = r.life

variable (r : Reads)

/-- **What an admission answers**: a refusal and an immediate answer take nothing; silence means the queue took it. -/
def Admitted : Except Code (Option Reply) × Reads → Prop
  | (.error _, r') => Discards r r'
  | (.ok (some reply), r') => reply.serial = none ∧ Discards r r'
  | (.ok none, r') => Admits r r'

theorem enqueue_admits {r r' : Reads} {device id : String} {stream : Option Nat} {input : Bool}
    (h : r.enqueue device id stream input = some r') : Admits r r' := by
  obtain ⟨writes, hw, rfl⟩ := Option.map_eq_some_iff.1 h
  unfold Queue.trySend at hw
  split at hw
  · rename_i hroom
    cases hw
    exact ⟨⟨_, rfl, rfl⟩, hroom, rfl, rfl, rfl⟩
  · cases hw

theorem admitCall_admitted (id target : String) (admission : Admission) :
    Admitted r (r.admitCall id target admission) := by
  unfold Reads.admitCall
  split
  · exact .refl r
  · split
    · exact .refl r
    · rename_i h
      exact enqueue_admits h

theorem admitOn_admitted (id : String) (scope : Scope) (stream : Nat) (input : Bool)
    (admission : Admission) : Admitted r (r.admitOn id scope stream input admission) := by
  unfold Reads.admitOn
  split
  · exact .refl r
  split
  · exact .refl r
  split
  · exact .refl r
  split
  · exact .refl r
  · rename_i h
    exact enqueue_admits h

theorem openStream_admitted (id : String) (scope : Scope) (session : String) (takeover : Bool)
    (admission : Admission) : Admitted r (r.openStream id scope session takeover admission) := by
  unfold Reads.openStream
  split
  · exact .refl r
  split
  · exact .refl r
  split
  · exact .refl r
  simp only
  split
  · exact ⟨fun _ => rfl, Nat.le_refl _, rfl, rfl, rfl, rfl, rfl, rfl, rfl⟩
  · rename_i h
    obtain ⟨hr, hroom, ha, hs, hl⟩ := enqueue_admits h
    exact ⟨hr, hroom, ha, hs, hl⟩

theorem admitOpen_admitted (id : String) (request : Request) (admission : Admission) :
    Admitted r (r.admitOpen id request admission) := by
  unfold Reads.admitOpen
  split
  · exact .refl r
  split
  · exact .refl r
  split
  · split
    · exact .refl r
    split
    · exact .refl r
    · exact openStream_admitted r _ _ _ _ _
  · split
    · exact .refl r
    · exact openStream_admitted r _ _ _ _ _
  · exact .refl r

variable {r : Reads}

theorem close_admitted (h : r.writes.receiver.length ≤ WRITE_QUEUE) (id : String) (scope : Scope)
    (stream : Nat) (started : Nat → Bool) : Admitted r (r.close id scope stream started) := by
  unfold Reads.close
  split
  · exact .refl r
  split
  · exact .refl r
  · exact ⟨rfl, .remove h stream started⟩

/-- **Admission, whatever the request.** -/
theorem admitWrite_admitted (h : r.writes.receiver.length ≤ WRITE_QUEUE) (id : String)
    (request : Request) (admission : Admission) (started : Nat → Bool) :
    Admitted r (r.admitWrite id request admission started) := by
  unfold Reads.admitWrite
  split
  · exact close_admitted h _ _ _ _
  · exact close_admitted h _ _ _ _
  split
  · split <;> exact .refl r
  split
  · exact .refl r
  split
  · exact admitOpen_admitted r _ _ _
  · exact admitOpen_admitted r _ _ _
  · split
    · exact .refl r
    · exact admitCall_admitted r _ _ _
  · split
    · exact .refl r
    · exact admitCall_admitted r _ _ _
  · split
    · exact .refl r
    · exact admitOn_admitted r _ _ _ _ _
  · split
    · exact .refl r
    · exact admitOn_admitted r _ _ _ _ _
  · split
    · exact .refl r
    · exact admitOn_admitted r _ _ _ _ _
  · exact .refl r

/-! ## The invariant -/

/-- **The queue and its one job**: the active write is the submitted job, unless it was answered before its result. -/
structure Sound (s : Link) : Prop where
  bounded : s.reads.writes.receiver.length ≤ WRITE_QUEUE
  idle : s.reads.writes.active = false →
    s.reads.writes.activeWrite = none ∧ s.reads.writes.watchdog = none ∧ s.reads.writes.stalled = false ∧
      s.reads.submitted = []
  busy : s.reads.writes.active = true → ∃ work, s.reads.submitted = [work] ∧
    (s.reads.writes.stalled = true → s.reads.writes.activeWrite = none) ∧
    (s.reads.writes.stalled = false → s.ended = false → s.reads.writes.activeWrite = some work.pending)
  watched : s.reads.writes.watchdog ≠ none → s.reads.writes.active = true ∧ s.reads.writes.stalled = false
  drained : s.ended = true → s.reads.life.alive = false ∧ s.reads.writes.receiver = [] ∧
    s.reads.writes.activeWrite = none ∧ s.reads.writes.cancelled = []

variable {s : Link}

theorem Sound.discards (h : Sound s) (hd : Discards s.reads r) (he : s.ended = false)
    (clock : Timestamp) : Sound ⟨r, false, clock⟩ where
  bounded := le_trans hd.shorter h.bounded
  idle hi := by
    rw [hd.active] at hi
    obtain ⟨h1, h2, h3, h4⟩ := h.idle hi
    exact ⟨hd.activeWrite.trans h1, hd.watchdog.trans h2, hd.stalled.trans h3, hd.submitted.trans h4⟩
  busy hb := by
    rw [hd.active] at hb
    obtain ⟨work, h1, h2, h3⟩ := h.busy hb
    refine ⟨work, hd.submitted.trans h1, fun hst => hd.activeWrite.trans (h2 (hd.stalled.symm.trans hst)), ?_⟩
    exact fun hst _ => hd.activeWrite.trans (h3 (hd.stalled.symm.trans hst) he)
  watched hw := by
    rw [hd.watchdog] at hw
    exact ⟨hd.active.trans (h.watched hw).1, hd.stalled.trans (h.watched hw).2⟩
  drained ho := by cases ho

/-! ## Steps -/

/-- The result came when the session had ended elsewhere and nobody had answered in its place. -/
def lost (n : Nat) (x : Transition Link Label) : Bool :=
  match x.label.op with
  | .finish completion =>
    decide (completion.serial = some n) && !x.src.ended && !x.src.reads.writes.stalled && !x.src.reads.life.active
  | _ => false

/-- One step's account: what is owed after it, answered or lost in it, was owed before or is new. -/
structure Accounts (s : Link) (label : Label) (t : Link) : Prop where
  sound : Sound t
  grows : s.reads.admitted ≤ t.reads.admitted
  balance : ∀ n, t.reads.writes.owed n + answered label.replies n + (lost n ⟨s, label, t⟩).toNat =
    s.reads.writes.owed n + if s.reads.admitted ≤ n ∧ n < t.reads.admitted then 1 else 0

variable {label : Label}

theorem Accounts.of_discards (h : Sound s) (he : s.ended = false)
    (hd : Discards s.reads r) (hr : ∀ n, answered label.replies n = 0) (clock : Timestamp)
    (hl : ∀ n, lost n ⟨s, label, ⟨r, false, clock⟩⟩ = false) : Accounts s label ⟨r, false, clock⟩ where
  sound := h.discards hd he clock
  grows := Nat.le_of_eq hd.admitted.symm
  balance n := by
    have hno : ¬ (s.reads.admitted ≤ n ∧ n < r.admitted) := by
      rw [hd.admitted]
      omega
    simp only [hd.owed n, hr n, hl n, if_neg hno, Bool.toNat_false]

theorem Accounts.of_admits (h : Sound s) (he : s.ended = false)
    (ha : Admits s.reads r) (hr : label.replies = []) (clock : Timestamp)
    (hl : ∀ n, lost n ⟨s, label, ⟨r, false, clock⟩⟩ = false) : Accounts s label ⟨r, false, clock⟩ := by
  obtain ⟨⟨work, hserial, hw⟩, hroom, hadm, hsub, hlife⟩ := ha
  refine ⟨⟨?_, ?_, ?_, ?_, ?_⟩, ?_, fun n => ?_⟩
  · simp only [hw, length_append, length_cons, length_nil]
    omega
  · intro hi
    simp only [hw, hsub] at hi ⊢
    exact h.idle hi
  · intro hb
    simp only [hw, hsub] at hb ⊢
    obtain ⟨w, h1, h2, h3⟩ := h.busy hb
    exact ⟨w, h1, h2, fun hst _ => h3 hst he⟩
  · intro hwd
    simp only [hw] at hwd ⊢
    exact h.watched hwd
  · intro ho
    cases ho
  · simp only [hadm]
    omega
  · simp only [Queue.owed, hw, hr, hl n, hadm, countP_append, countP_cons, countP_nil, answered_nil,
      Bool.toNat_false, hserial]
    by_cases hn : s.reads.admitted = n
    · simp only [hn, decide_true, if_true, Nat.le_refl, true_and, Nat.lt_succ_self]
      omega
    · rw [if_neg (by simpa using hn), if_neg (by omega)]
      omega

variable {replies : List Reply}

theorem write_accounts (h : Sound s) (he : s.ended = false) (id : String) (request : Request)
    (admission : Admission) (started : Nat → Bool) (clock : Readings)
    (hstep : s.reads.step (.write id request admission) started clock = (replies, r)) :
    Accounts s ⟨.write id request admission, clock, started, replies⟩ ⟨r, false, clock.done⟩ := by
  have ha := admitWrite_admitted h.bounded id request admission started
  simp only [Reads.step] at hstep
  split at hstep
  · rename_i code r' heq
    rw [heq] at ha
    cases hstep
    exact .of_discards h he ha (fun _ => rfl) _ (fun _ => rfl)
  · rename_i reply r' heq
    rw [heq] at ha
    cases hstep
    cases reply with
    | none => exact .of_admits h he ha rfl _ (fun _ => rfl)
    | some reply =>
      obtain ⟨hs, hd⟩ := ha
      exact .of_discards h he hd (fun n => by simp [answered, hs]) _ (fun _ => rfl)

theorem pump_accounts (h : Sound s) (he : s.ended = false) (submit : Except Code Unit)
    (visit : Visit (Nat × Stream)) (started : Nat → Bool) (clock : Readings)
    (hstep : s.reads.pumpWrites submit visit started (clock.now 0) = (replies, r)) :
    Accounts s ⟨.pump submit visit, clock, started, replies⟩ ⟨r, false, clock.done⟩ := by
  unfold Reads.pumpWrites at hstep
  split at hstep
  · cases hstep
    exact .of_discards h he (.refl _) (fun _ => rfl) _ (fun _ => rfl)
  rename_i hidle
  rw [Bool.not_eq_true] at hidle
  obtain ⟨hnone, hnodog, hnostall, hnojob⟩ := h.idle hidle
  split at hstep
  · cases hstep
    exact .of_discards h he (.refl _) (fun _ => rfl) _ (fun _ => rfl)
  rename_i work receiver hrec
  have hlen : receiver.length ≤ WRITE_QUEUE := by
    have := h.bounded
    rw [hrec, length_cons] at this
    omega
  simp only at hstep
  split at hstep
  · -- the job is under way: the head of the queue is the active write
    obtain ⟨hd, hans⟩ := Discards.displace started (s.reads.displaced work visit)
      (r := { s.reads with writes := { s.reads.writes with receiver } }) hlen
    generalize Reads.displace _ _ _ = gone at hd hans hstep
    cases hstep
    refine ⟨⟨le_trans hd.shorter hlen, ?_, ?_, ?_, ?_⟩, Nat.le_of_eq hd.admitted.symm, fun n => ?_⟩
    · intro hi
      cases hi
    · intro _
      refine ⟨work, by simp only [hd.submitted, hnojob, nil_append], ?_, fun _ _ => rfl⟩
      intro hst
      rw [hd.stalled] at hst
      simp only [hnostall] at hst
      cases hst
    · exact fun _ => ⟨rfl, hd.stalled.trans hnostall⟩
    · intro ho
      cases ho
    · have ho := hd.owed n
      have hw := hd.activeWrite
      have hno : ¬ (s.reads.admitted ≤ n ∧ n < gone.2.admitted) := by
        rw [hd.admitted]
        simp only
        omega
      simp only [Queue.owed, hw, hnone, hrec, Option.toList_none, countP_nil] at ho ⊢
      simp only [hans n, if_neg hno, Option.toList_some, countP_cons, countP_nil, pending_serial, lost,
        Bool.toNat_false] at ho ⊢
      by_cases hn : work.serial = n <;> simp only [hn, decide_true, decide_false, if_true] at ho ⊢ <;> grind
  · -- refused: answered on the spot
    cases hstep
    refine ⟨⟨hlen, fun _ => ⟨hnone, hnodog, hnostall, hnojob⟩, ?_, ?_, ?_⟩, Nat.le_refl _, fun n => ?_⟩
    · intro hb
      simp only [hidle] at hb
      cases hb
    · exact fun hw => absurd hnodog hw
    · intro ho
      cases ho
    · have hno : ¬ (s.reads.admitted ≤ n ∧ n < s.reads.admitted) := by omega
      simp only [Queue.owed, hrec, answered, countP_cons, countP_nil, Reply.serial, lost, Bool.toNat_false,
        if_neg hno, Option.some.injEq]
      omega

theorem answered_failure (completion : Completion) (code : Code) (n : Nat) :
    answered [Reads.failure completion code] n = if completion.serial = some n then 1 else 0 := by
  unfold Reads.failure
  cases h : completion.serial <;> simp [answered, Reply.serial, countP_cons]

theorem answered_result (completion : Completion) (n : Nat) :
    answered [.result completion.serial completion.id] n = if completion.serial = some n then 1 else 0 := by
  by_cases h : completion.serial = some n <;> simp [answered, Reply.serial, h]

/-- **A result that is answered is answered once**, and the queue is left alone. -/
theorem answer_spec (r : Reads) (completion : Completion) : Discards r (r.answer completion).2 ∧
    ∀ n, answered (r.answer completion).1 n = if completion.serial = some n then 1 else 0 := by
  have hfail : ∀ code, Discards r (r.failStream completion code) := by
    intro code
    unfold Reads.failStream
    split
    · exact .refl r
    split
    · exact .refl r
    split
    · exact .streams r _
    split
    · exact .streams r _
    · exact .refl r
  have hopen : Discards r (r.opened completion).2 ∧
      ∀ n, answered (r.opened completion).1 n = if completion.serial = some n then 1 else 0 := by
    unfold Reads.opened
    split
    · exact ⟨.refl r, answered_failure completion _⟩
    split
    · exact ⟨.refl r, answered_failure completion _⟩
    split
    · exact ⟨.streams r _, answered_failure completion _⟩
    · exact ⟨.streams r _, answered_result completion⟩
  unfold Reads.answer
  split
  · exact hopen
  · split
    · exact ⟨.refl r, answered_failure completion _⟩
    · exact ⟨.refl r, answered_result completion⟩
  · exact ⟨.refl r, answered_result completion⟩
  · exact ⟨hfail _, answered_failure completion _⟩

theorem Sound.life (h : Sound s) (ha : s.reads.life.active = true) : s.ended = false := by
  cases he : s.ended with
  | false => rfl
  | true =>
    rw [Life.active, (h.drained he).1] at ha
    cases ha

theorem Sound.finished (h : Sound s) (clock : Timestamp) :
    Sound ⟨{ s.reads with writes := s.reads.writes.finished.2, submitted := [] }, s.ended, clock⟩ where
  bounded := h.bounded
  idle _ := ⟨rfl, rfl, rfl, rfl⟩
  busy hb := by cases hb
  watched hw := absurd rfl hw
  drained ho := ⟨(h.drained ho).1, (h.drained ho).2.1, rfl, (h.drained ho).2.2.2⟩

theorem finish_accounts (h : Sound s) (completion : Completion) (hen : s.reads.expects completion = true)
    (started : Nat → Bool) (clock : Readings)
    (hstep : s.reads.finish completion = (replies, r)) :
    Accounts s ⟨.finish completion, clock, started, replies⟩ ⟨r, s.ended, clock.done⟩ := by
  unfold Reads.finish Reads.finished at hstep
  cases hserial : completion.serial with
  | none =>
    rw [hserial] at hstep
    have hlost : ∀ n, lost n ⟨s, ⟨.finish completion, clock, started, replies⟩, ⟨r, s.ended, clock.done⟩⟩ = false :=
      fun n => by simp [lost, hserial]
    cases ha : s.reads.life.active with
    | true =>
      simp only [ha, Bool.not_true, Bool.false_eq_true, if_false] at hstep
      obtain ⟨hd, hans⟩ := answer_spec s.reads completion
      rw [hstep] at hd hans
      have he := h.life ha
      rw [he] at hlost ⊢
      exact .of_discards h he hd (fun n => by rw [hans n, hserial, if_neg (by simp)]) _ hlost
    | false =>
      simp only [ha, Bool.not_false, if_true] at hstep
      cases hstep
      refine ⟨⟨h.bounded, h.idle, h.busy, h.watched, h.drained⟩, Nat.le_refl _, fun n => ?_⟩
      rw [hlost n, if_neg (by simp only; omega)]
      rfl
  | some serial =>
    rw [Reads.expects, hserial, Option.all_some, any_eq_true] at hen
    obtain ⟨work, hwork, hmatch⟩ := hen
    obtain ⟨⟨rfl, -⟩, -⟩ : (work.serial = serial ∧ work.id = completion.id) ∧ work.stream = completion.stream := by
      simpa using hmatch
    have hactive : s.reads.writes.active = true := by
      cases hi : s.reads.writes.active with
      | true => rfl
      | false =>
        rw [(h.idle hi).2.2.2] at hwork
        cases hwork
    obtain ⟨job, hjob, hstalled, hrunning⟩ := h.busy hactive
    rw [hjob] at hwork
    obtain rfl := mem_singleton.1 hwork
    have hempty : s.reads.submitted.filter (fun w => decide (w.serial ≠ work.serial)) = [] := by simp [hjob]
    rw [hserial] at hstep
    simp only [hempty] at hstep
    have hs1 := h.finished clock.done
    have howed : ∀ n, s.reads.writes.finished.2.owed n + s.reads.writes.activeWrite.toList.countP
        (fun write => write.serial = n) = s.reads.writes.owed n := by
      intro n
      simp only [Queue.owed, Queue.finished, Option.toList_none, countP_nil]
      omega
    have hno : ∀ n, ¬ (s.reads.admitted ≤ n ∧ n < s.reads.admitted) := fun n => by omega
    split at hstep
    · -- late: the watchdog answered
      rename_i hst
      cases hstep
      refine ⟨hs1, Nat.le_refl _, fun n => ?_⟩
      have hst : s.reads.writes.stalled = true := hst
      have := howed n
      rw [hstalled hst, Option.toList_none, countP_nil] at this
      simp only [lost, hst, Bool.not_true, Bool.and_false, Bool.false_and, Bool.toNat_false, answered_nil, if_neg (hno n)]
      exact this
    · rename_i hst
      have hst : s.reads.writes.stalled = false := by simpa [Queue.finished] using hst
      cases ha : s.reads.life.active with
      | false =>
        -- the session has ended: nothing is sent
        simp only [ha, Bool.not_false, if_true] at hstep
        cases hstep
        refine ⟨hs1, Nat.le_refl _, fun n => ?_⟩
        have := howed n
        cases he : s.ended with
        | true =>
          rw [(h.drained he).2.2.1, Option.toList_none, countP_nil] at this
          simp only [lost, he, Bool.not_true, Bool.and_false, Bool.false_and, Bool.toNat_false, answered_nil,
            if_neg (hno n)]
          exact this
        | false =>
          by_cases hn : work.serial = n <;>
            simp_all [lost, answered_nil, Option.toList_some, countP_cons]
      | true =>
        have he := h.life ha
        simp only [ha, Bool.not_true, Bool.false_eq_true, if_false] at hstep
        obtain ⟨hd, hans⟩ := answer_spec { s.reads with writes := s.reads.writes.finished.2, submitted := [] } completion
        rw [hstep] at hd hans
        rw [he] at hs1 ⊢
        refine ⟨hs1.discards hd rfl _, Nat.le_of_eq hd.admitted.symm, fun n => ?_⟩
        have := howed n
        have hod := hd.owed n
        have hadm : r.admitted = s.reads.admitted := hd.admitted
        simp only [hans n, hserial, lost, ha, hadm, if_neg (hno n), Bool.not_true, Bool.and_false, Bool.toNat_false]
        by_cases hn : work.serial = n <;> simp_all [Option.toList_some, countP_cons]

theorem stallStream_discards (h : r.writes.receiver.length ≤ WRITE_QUEUE) (stream : Option Nat)
    (started : Nat → Bool) : Discards r (r.stallStream stream started) := by
  unfold Reads.stallStream
  split
  · exact .refl r
  split
  · exact .refl r
  split
  · exact .streams r _
  · exact .remove h _ started

/-- **The watchdog answers in the place of the job under way.** -/
theorem stall_spec (h : Sound s) (he : s.ended = false) {watchdog : Watchdog}
    (hw : s.reads.writes.watchdog = some watchdog) (started : Nat → Bool) (clock : Timestamp) :
    Sound ⟨s.reads.stall watchdog started, false, clock⟩ ∧
      (s.reads.stall watchdog started).admitted = s.reads.admitted ∧
      ∀ n, (s.reads.stall watchdog started).writes.owed n = s.reads.writes.owed n := by
  obtain ⟨hactive, hnostall⟩ := h.watched (by rw [hw]; simp)
  obtain ⟨work, hsub, -, hrunning⟩ := h.busy hactive
  have hwrite := hrunning hnostall he
  have hgone := stallStream_discards (r := { s.reads with writes := { s.reads.writes with
    watchdog := none, stalled := true, stalledStream := watchdog.stream } }) h.bounded watchdog.stream started
  unfold Reads.stall
  generalize Reads.stallStream _ _ _ = r' at hgone ⊢
  have hpending : r'.writes.activeWrite = some work.pending := hgone.activeWrite.trans hwrite
  refine ⟨⟨le_trans hgone.shorter h.bounded, ?_, ?_, ?_, ?_⟩, hgone.admitted, fun n => ?_⟩
  · intro hi
    have : r'.writes.active = true := hgone.active.trans hactive
    simp only [this] at hi
    cases hi
  · intro _
    refine ⟨work, hgone.submitted.trans hsub, fun _ => rfl, fun hst => ?_⟩
    have : r'.writes.stalled = true := hgone.stalled
    simp only [this] at hst
    cases hst
  · intro hdog
    exact absurd hgone.watchdog hdog
  · intro ho
    cases ho
  · have ho := hgone.owed n
    simp only [Queue.owed, hpending, hwrite, Option.toList_some, Option.toList_none, countP_append,
      countP_cons, countP_nil, cancelled_serial, pending_serial] at ho ⊢
    by_cases hn : work.serial = n <;> simp_all <;> omega

theorem closed_discards (h : r.writes.receiver.length ≤ WRITE_QUEUE) (visit : Visit (Nat × Stream))
    (started : Nat → Bool) : Discards r (r.closed visit started).2 ∧ ∀ n, answered (r.closed visit started).1 n = 0 :=
  Discards.removeClosed started _ h

theorem tick_accounts (h : Sound s) (he : s.ended = false) (visits : Visit Nat × Visit (Nat × Stream))
    (started : Nat → Bool) (clock : Readings)
    (hstep : s.reads.writeTick visits started clock = (replies, r)) :
    Accounts s ⟨.tick visits, clock, started, replies⟩ ⟨r, false, clock.done⟩ := by
  have hfirst : ∃ r', Sound ⟨r', false, clock.done⟩ ∧ r'.admitted = s.reads.admitted ∧
      (∀ n, r'.writes.owed n = s.reads.writes.owed n) ∧
      ((Reads.expireStreams clock (visits.1.order r'.streams.keys) 1 r').closed visits.2 started) = (replies, r) := by
    unfold Reads.writeTick at hstep
    split at hstep
    · rename_i watchdog hw
      split at hstep
      · obtain ⟨h1, h2, h3⟩ := stall_spec h he hw started clock.done
        exact ⟨_, h1, h2, h3, hstep⟩
      · exact ⟨s.reads, h.discards (.refl _) he _, rfl, fun _ => rfl, hstep⟩
    · exact ⟨s.reads, h.discards (.refl _) he _, rfl, fun _ => rfl, hstep⟩
  obtain ⟨r', hs', hadm, howed, hrest⟩ := hfirst
  have hexp := Discards.expireStreams clock (visits.1.order r'.streams.keys) 1 r'
  obtain ⟨hclosed, hans⟩ := closed_discards (le_trans hexp.shorter hs'.bounded) visits.2 started
  rw [hrest] at hclosed hans
  have hd := hexp.trans hclosed
  refine ⟨hs'.discards hd rfl _, Nat.le_of_eq (hadm.symm.trans hd.admitted.symm), fun n => ?_⟩
  have hno : ¬ (s.reads.admitted ≤ n ∧ n < r.admitted) := by
    rw [hd.admitted, hadm]
    omega
  simp only [hd.owed n, howed n, hans n, lost, if_neg hno, Bool.toNat_false]

theorem cancelled_accounts (h : Sound s) (he : s.ended = false) (started : Nat → Bool) (clock : Readings) :
    Accounts s ⟨.cancelled, clock, started, s.reads.writes.cancelled⟩ ⟨s.reads.cancelledWrites.2, false, clock.done⟩ := by
  refine ⟨⟨h.bounded, h.idle, ?_, h.watched, nofun⟩, Nat.le_refl _, fun n => ?_⟩
  · intro hb
    obtain ⟨work, h1, h2, h3⟩ := h.busy hb
    exact ⟨work, h1, h2, fun hst _ => h3 hst he⟩
  · have hno : ¬ (s.reads.admitted ≤ n ∧ n < s.reads.admitted) := by omega
    have hadm : s.reads.cancelledWrites.2.admitted = s.reads.admitted := rfl
    rw [hadm, if_neg hno]
    simp only [Queue.owed, Reads.cancelledWrites, answered, countP_nil, lost, Bool.toNat_false]
    omega

/-- **`cancel_writes` answers everything that is owed.** -/
theorem cancelWrites_accounts (h : Sound s) (reason : Code) (started : Nat → Bool) (clock : Readings) :
    Accounts s ⟨.cancelWrites reason, clock, started, (s.reads.cancelWrites reason started).1⟩
      ⟨(s.reads.cancelWrites reason started).2, true, clock.done⟩ := by
  have hnone : (s.reads.cancelWrites reason started).2.writes.activeWrite = none := by
    simp only [Reads.cancelWrites]
    split
    · rfl
    · rename_i hi
      exact (h.idle (by simpa using hi)).1
  refine ⟨⟨Nat.zero_le _, ?_, ?_, h.watched, fun _ => ⟨rfl, rfl, hnone, rfl⟩⟩, Nat.le_refl _, fun n => ?_⟩
  · exact fun hi => ⟨hnone, (h.idle hi).2⟩
  · intro hb
    obtain ⟨work, h1, -, -⟩ := h.busy hb
    exact ⟨work, h1, fun _ => hnone, nofun⟩
  · have hno : ¬ (s.reads.admitted ≤ n ∧ n < s.reads.admitted) := by omega
    have hlater : (s.reads.cancelWrites reason started).2.writes.owed n = 0 := by
      rw [Queue.owed, hnone]
      rfl
    have hrun : answered (if s.reads.writes.active then
        s.reads.writes.activeWrite.toList.map (fun write => write.cancelled (started write.serial)) else []) n =
        s.reads.writes.activeWrite.toList.countP (fun write => write.serial = n) := by
      split
      · simp [answered, countP_map, Function.comp_def]
      · rename_i hi
        rw [(h.idle (by simpa using hi)).1]
        rfl
    have hadm : (s.reads.cancelWrites reason started).2.admitted = s.reads.admitted := rfl
    rw [hlater, hadm, if_neg hno]
    simp only [Reads.cancelWrites, answered_append, hrun, answered_map_cancelled, lost, Bool.toNat_false, Queue.owed]
    simp only [answered]
    omega

theorem Accounts.of_unchanged (h : Sound s) (hw : r.writes = s.reads.writes)
    (hsub : r.submitted = s.reads.submitted) (hadm : r.admitted = s.reads.admitted)
    (hlife : r.life.alive = s.reads.life.alive) (hr : label.replies = []) (clock : Timestamp)
    (hl : ∀ n, lost n ⟨s, label, ⟨r, s.ended, clock⟩⟩ = false) : Accounts s label ⟨r, s.ended, clock⟩ where
  sound := by
    refine ⟨?_, ?_, ?_, ?_, ?_⟩ <;> simp only [hw, hsub, hlife]
    exacts [h.bounded, h.idle, h.busy, h.watched, h.drained]
  grows := Nat.le_of_eq hadm.symm
  balance n := by
    have hno : ¬ (s.reads.admitted ≤ n ∧ n < r.admitted) := by
      omega
    simp only [hw, hr, hl n, if_neg hno, answered_nil, Bool.toNat_false]

/-- **Every step keeps the account.** -/
theorem step_accounts {t : Link} (h : Sound s) (hstep : Step s label t) : Accounts s label t := by
  obtain ⟨hen, -, hr, hended, hclock⟩ := hstep
  obtain ⟨op, clock, started, replies⟩ := label
  obtain ⟨r, ended, now⟩ := t
  simp only at hr hended hclock hen
  subst hclock
  cases op with
  | write id request admission =>
    have he : s.ended = false := by simpa [Op.enabled] using hen
    obtain rfl : ended = false := hended.trans he
    exact write_accounts h he id request admission started clock hr
  | pump submit visit =>
    have he : s.ended = false := by simpa [Op.enabled] using hen
    obtain rfl : ended = false := hended.trans he
    exact pump_accounts h he submit visit started clock hr
  | finish completion =>
    obtain rfl : ended = s.ended := hended
    exact finish_accounts h completion hen started clock hr
  | tick visits =>
    have he : s.ended = false := by simpa [Op.enabled] using hen
    obtain rfl : ended = false := hended.trans he
    exact tick_accounts h he visits started clock hr
  | closed visit =>
    have he : s.ended = false := by simpa [Op.enabled] using hen
    obtain ⟨hd, hans⟩ := closed_discards h.bounded visit started
    rw [show s.reads.closed visit started = (replies, r) from hr] at hd hans
    obtain rfl : ended = false := hended.trans he
    exact .of_discards h he hd hans _ (fun _ => rfl)
  | cancelled =>
    have he : s.ended = false := by simpa [Op.enabled] using hen
    cases hr
    obtain rfl : ended = false := hended.trans he
    exact cancelled_accounts h he started clock
  | cancelWrites reason =>
    cases hr
    obtain rfl : ended = true := hended
    exact cancelWrites_accounts h reason started clock
  | invalidate | shutdown | readOpened | readClosed =>
    cases hr
    obtain rfl : ended = s.ended := hended
    refine .of_unchanged h ?_ ?_ ?_ ?_ ?_ _ ?_ <;> intros <;> rfl
  | streamEnds stream reason =>
    obtain rfl : ended = s.ended := hended
    simp only [Reads.step] at hr
    split at hr <;> obtain ⟨rfl, rfl⟩ := Prod.mk.inj hr <;>
      refine .of_unchanged h ?_ ?_ ?_ ?_ ?_ _ ?_ <;> intros <;> rfl

/-! ## Runs -/

def answeredIn (n : Nat) : Nat := answered (l.flatMap (fun x => x.label.replies)) n

theorem answeredIn_snoc (x : Transition Link Label) (n : Nat) :
    answeredIn (l ++ [x]) n = answeredIn l n + answered x.label.replies n := by
  simp [answeredIn, flatMap_append, answered_append]

/-- **The account of a run**: each request taken is owed, answered or lost, once. -/
theorem run_accounts {l : List (Transition Link Label)} (h : Run l s) :
    Sound s ∧ ∀ n, s.reads.writes.owed n + answeredIn l n + l.countP (lost n) =
      if n < s.reads.admitted then 1 else 0 := by
  refine Trace.history (P := fun l (s : Link) => Sound s ∧ ∀ n,
    s.reads.writes.owed n + answeredIn l n + l.countP (lost n) = if n < s.reads.admitted then 1 else 0) ?_ ?_ h
  · rintro s ⟨life, -, hr, he⟩
    refine ⟨⟨?_, ?_, ?_, ?_, ?_⟩, fun n => ?_⟩ <;> rw [hr]
    · exact Nat.zero_le _
    · exact fun _ => ⟨rfl, rfl, rfl, rfl⟩
    · exact nofun
    · exact fun hw => absurd rfl hw
    · exact fun ho => by simp [he] at ho
    · rfl
  · rintro l s label t - ⟨hs, hb⟩ hstep
    obtain ⟨hsound, hgrows, hbalance⟩ := step_accounts hs hstep
    refine ⟨hsound, fun n => ?_⟩
    have h1 := hb n
    have h2 := hbalance n
    rw [answeredIn_snoc, countP_append, countP_singleton]
    cases hl : lost n ⟨s, label, t⟩ <;> simp only [hl, Bool.toNat_false, Bool.toNat_true, if_true] at h2 ⊢ <;>
      split at h2 <;> split at h1 <;> split <;> grind

/-! ## A result that nobody reads -/

namespace Sample

def life : Life := ⟨true, false, 0⟩

def connected : Link := ⟨Reads.new life, false, 0⟩

def admission : Reads.Admission := ⟨"AAAAAAAAAAAAAAAAAAAAAA", seconds 600, false, true, true⟩

def prompt : Op := .write "1" (.prompt "work" "pane" "hello") admission

def act (op : Op) : Op × Readings × (Nat → Bool) := (op, Readings.const 0, fun _ => true)

def next (s : Link) (act : Op × Readings × (Nat → Bool)) : Option (Label × Link) :=
  let (op, clock, started) := act
  if op.enabled s = true ∧ s.clock ≤ clock.now 0 then
    let (replies, reads) := s.reads.step op started clock
    some (⟨op, clock, started, replies⟩, ⟨reads, s.ends op, clock.done⟩)
  else none

theorem next_step (s : Link) (act : Op × Readings × (Nat → Bool)) (label : Label) (t : Link)
    (h : next s act = some (label, t)) : Step s label t := by
  unfold next at h
  simp only at h
  split at h
  · rename_i hen
    cases h
    exact ⟨hen.1, hen.2, rfl, rfl, rfl⟩
  · cases h

theorem run_connected : Run [] connected := .start ⟨life, rfl, rfl, rfl⟩

/-- A prompt runs to its end; the session is invalidated before the reactor reads the result. -/
def late : List (Op × Readings × (Nat → Bool)) :=
  [act prompt, act (.pump (.ok ()) Visit.plain), act .invalidate,
    act (.finish ⟨some 0, "1", none, .ok (.value 13)⟩), act (.cancelWrites "session-invalid")]

/-- The same prompt, and a second one still queued when the peer ends. -/
def cut : List (Op × Readings × (Nat → Bool)) :=
  [act prompt, act prompt, act (.pump (.ok ()) Visit.plain), act (.cancelWrites "session-invalid")]

def played (acts : List (Op × Readings × (Nat → Bool))) : List (Transition Link Label) × Link :=
  (Trace.play next acts [] connected).getD ([], connected)

theorem run_late : Run (played late).1 (played late).2 :=
  Trace.of_play next_step run_connected (show Trace.play next late [] connected = some (played late) by rfl)

theorem run_cut : Run (played cut).1 (played cut).2 :=
  Trace.of_play next_step run_connected (show Trace.play next cut [] connected = some (played cut) by rfl)

end Sample

/-- A queued request that no message answers, although `cancel_writes` has run. -/
theorem unanswered_write : ∃ l s, Run l s ∧ s.ended = true ∧ ∃ n < s.reads.admitted, answeredIn l n = 0 :=
  ⟨_, _, Sample.run_late, by rfl, 0, by decide, by decide⟩

/-- **Every write request that the queue took is answered at most once**, in every run.  Once `cancel_writes` has run it
has been answered exactly once, unless its result reached `finish` after an invalidation or a shutdown with nobody having
answered in its place; then it is not answered at all. -/
theorem answered_once {l : List (Transition Link Label)} {s : Link} (h : Run l s) : (∀ n, answeredIn l n ≤ 1) ∧
      (s.ended = true → ∀ n < s.reads.admitted, answeredIn l n = if l.any (lost n) then 0 else 1) := by
  obtain ⟨hs, hb⟩ := run_accounts h
  constructor
  · intro n
    have := hb n
    split at this <;> omega
  · intro he n hn
    obtain ⟨-, hrec, hwrite, hcancelled⟩ := hs.drained he
    have hbn := hb n
    rw [if_pos hn, Queue.owed, hrec, hwrite, hcancelled] at hbn
    simp only [countP_nil, Option.toList_none] at hbn
    by_cases hlost : l.any (lost n) = true
    · rw [if_pos hlost]
      obtain ⟨x, hx, hx'⟩ := any_eq_true.1 hlost
      have : 0 < l.countP (lost n) := countP_pos_iff.2 ⟨x, hx, hx'⟩
      omega
    · rw [if_neg hlost]
      have : l.countP (lost n) = 0 := countP_eq_zero.2 fun x hx hx' => hlost (any_eq_true.2 ⟨x, hx, hx'⟩)
      omega

/-- Two prompts, one under way and one queued when the peer ends: each is answered once. -/
theorem answered_once_cut : answeredIn (Sample.played Sample.cut).1 0 = 1 ∧ answeredIn (Sample.played Sample.cut).1 1 = 1 :=
  have h := (answered_once Sample.run_cut).2 (by rfl)
  ⟨h 0 (by decide), h 1 (by decide)⟩

end Writes
end Yuzora
