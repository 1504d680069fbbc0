import Yuzora.WriteQueue
import Yuzora.Trace
/-!
# WriteJob — a write's job against its cancellation

One write request: its job on the executor's thread and its cancellation on the reactor's, a load or a store at a time,
over memory that both share and that a close, an invalidation, a shutdown or the clock may change in between.  Every
flag only ever goes one way, so a test that passes later would have passed before.
-/
namespace Yuzora
namespace Writes

/-! ## Shared memory -/

structure Shared where
  started : Bool
  cancelled : Bool
  life : Life
  closed : Option Code
  clock : Timestamp

/-- The methods, by what their jobs do. -/
inductive Kind
  /-- `agent.prompt`, `pane.sendKeys` -/
  | call
  /-- `terminal.input`, `full.input` -/
  | input
  /-- `terminal.scroll`, `full.resize` -/
  | control
  /-- `terminal.control`, `full.open` -/
  | «open»
  deriving DecidableEq

structure Job where
  kind : Kind
  «until» : Timestamp
  /-- The stream's own deadline; a call has no stream. -/
  deadline : Timestamp
  freshUntil : Option Timestamp

def Job.input (job : Job) : Bool := job.kind = .input

def Job.isFresh (job : Job) (now : Timestamp) : Bool := job.freshUntil.all (fun fresh => decide (now ≤ fresh))

/-- One load of `Validity::check`. -/
inductive Load
  | cancelled | alive | invalidated | stop | «until» | closed | deadline
  deriving DecidableEq

def Load.passes (job : Job) (m : Shared) : Load → Bool
  | .cancelled => !m.cancelled
  | .alive => m.life.alive
  | .invalidated => !m.life.invalidated
  | .stop => m.life.stop == 0
  | .until => decide (m.clock < job.until)
  | .closed => m.closed.isNone
  | .deadline => decide (m.clock < job.deadline)

/-- `Life::active` -/
def activeLoads : List Load := [.alive, .invalidated, .stop]

/-- `Validity::check`, in its order. -/
def Job.check (job : Job) : List Load :=
  .cancelled :: activeLoads ++ [Load.until] ++ if job.kind = .call then [] else activeLoads ++ [Load.closed, .deadline]

/-! ## The job -/

/-- `HerdrPort`'s errors. -/
def portErrors : List Code :=
  ["herdr-environment", "payload-too-large", "agent-blocked", "stream-stalled", "herdr-unavailable"]

def runningErrors : List Code := ["session-not-allowed", "session-stopped"] ++ portErrors

/-- A step before the start: a load of a check, a call with errors of its own, the freshness test of an open. -/
inductive Instr
  | load (load : Load)
  | call (errors : List Code)
  | fresh
  deriving DecidableEq

/-- The closure of the job up to `validity.start`. -/
def Job.preparation (job : Job) : List Instr :=
  match job.kind with
  | .call => job.check.map .load ++
      [.call runningErrors, .call portErrors, .call ["target-not-found", "no-agent"], .call ["audit-unavailable"]]
  | .input | .control => job.check.map .load ++ [.call ["audit-unavailable"]]
  | .open => job.check.map .load ++
      [.call runningErrors, .call (portErrors ++ ["target-not-found", "geometry-unavailable"]),
        .call ["audit-unavailable"], .call ["audit-unavailable"]] ++ job.check.map .load ++ [.fresh]

def Job.afterwards (job : Job) : List Load := if job.kind = .open then activeLoads ++ [Load.until] else []

/-- Where the job is. -/
inductive Place
  | queued
  | preparing (todo : List Instr)
  /-- `started` is set: the loads left of the final check. -/
  | checking (todo : List Load)
  | leasing (todo : List Load)
  /-- An error on its way through the wrapper. -/
  | failed (code : Code)
  | ended (result : Except Code Unit)
  /-- Taken out of the queue, never run. -/
  | discarded
  deriving DecidableEq

/-- `answering`: the reactor has stored `cancelled` and not yet loaded `started`. -/
structure JobState where
  shared : Shared
  place : Place
  answering : Bool
  reply : Option (Except Code Unit)
  /-- The times of the Host's calls. -/
  calls : List Timestamp

inductive JobLabel
  /-- The executor's next step; calls and the Host end with a result. -/
  | execute (result : Except Code Unit)
  | submit
  | refuse
  /-- `cancelled.store(true)`: a discarded stream, the watchdog, the end of the peer. -/
  | cancel
  /-- `started.load`, and the answer. -/
  | answer
  /-- The result reaches the reactor; an open may find its stream gone. -/
  | finish (gone : Bool)
  | endLife
  | invalidate
  | shutdown (code : Nat)
  | closeStream (reason : Code)
  | tick (t : Timestamp)
  deriving DecidableEq

def dropCodes : List Code := ["input-dropped", "write-dropped"]

namespace JobState

variable (s : JobState)

def test (passed : Bool) (code : Code) (next : Place) : JobState :=
  { s with place := if passed then next else .failed code }

def execute (job : Job) (result : Except Code Unit) : Option JobState :=
  match s.place with
  | .preparing (.load load :: todo) => some (s.test (load.passes job s.shared) "input-dropped" (.preparing todo))
  | .preparing (.call errors :: todo) =>
    match result with
    | .ok () => some { s with place := .preparing todo }
    | .error code => if code ∈ errors then some { s with place := .failed code } else none
  | .preparing (.fresh :: todo) =>
    some (s.test (job.isFresh s.shared.clock) "fresh-elevation-required" (.preparing todo))
  | .preparing [] => some { s with shared := { s.shared with started := true }, place := .checking job.check }
  | .checking (load :: todo) => some (s.test (load.passes job s.shared) "input-dropped" (.checking todo))
  | .checking [] =>
    -- the Host's operation
    match result with
    | .ok () => some { s with calls := s.calls ++ [s.shared.clock], place := .leasing job.afterwards }
    | .error code =>
      if code ∈ portErrors then some { s with calls := s.calls ++ [s.shared.clock], place := .failed code } else none
  | .leasing (load :: todo) => some (s.test (load.passes job s.shared) "input-dropped" (.leasing todo))
  | .leasing [] => some { s with place := .ended (.ok ()) }
  | .failed code =>
    some { s with place := .ended (.error
      (if code = "input-dropped" then cancelCode job.input s.shared.started else code)) }
  | _ => none

def finish (job : Job) (gone : Bool) : Except Code Unit → Except Code Unit
  | .error code => .error code
  | .ok () =>
    if job.kind = .open then
      if gone then .error "stream-closed" else match s.shared.closed with
        | some reason => .error reason
        | none => .ok ()
    else .ok ()

def step (job : Job) : JobLabel → Option JobState
  | .execute result => s.execute job result
  | .submit => if s.place = .queued then some { s with place := .preparing job.preparation } else none
  | .refuse =>
    if s.place = .queued ∧ s.reply = none then some { s with place := .discarded, reply := some (.error "busy") }
    else none
  | .cancel =>
    if s.reply = none ∧ s.answering = false then
      some { s with
        shared := { s.shared with cancelled := true }
        place := if s.place = .queued then .discarded else s.place
        answering := true }
    else none
  | .answer =>
    if s.answering = true then
      some { s with answering := false, reply := some (.error (cancelCode job.input s.shared.started)) }
    else none
  | .finish gone =>
    match s.place with
    | .ended result =>
      if s.reply = none ∧ s.answering = false then some { s with reply := some (s.finish job gone result) } else none
    | _ => none
  | .endLife => some { s with shared := { s.shared with life := { s.shared.life with alive := false } } }
  | .invalidate => some { s with shared := { s.shared with life := { s.shared.life with invalidated := true } } }
  | .shutdown code =>
    if code ≠ 0 then some { s with shared := { s.shared with life := { s.shared.life with stop := code } } } else none
  | .closeStream reason =>
    -- no stream the peer still has is closed with a dropped write's code
    if reason ∉ dropCodes then some { s with shared := { s.shared with closed := some (s.shared.closed.getD reason) } }
    else none
  | .tick t => if s.shared.clock ≤ t then some { s with shared := { s.shared with clock := t } } else none

end JobState

def JobInit (s : JobState) : Prop :=
  s.shared.started = false ∧ s.shared.cancelled = false ∧ (∀ reason ∈ s.shared.closed, reason ∉ dropCodes) ∧
    s.place = .queued ∧ s.answering = false ∧ s.reply = none ∧ s.calls = []

abbrev JobRun (job : Job) (l : List (Transition JobState JobLabel)) (s : JobState) : Prop :=
  Trace JobInit (fun s label t => s.step job label = some t) l s

/-! ## The flags -/

/-- Later memory: a flag that is set stays set, and the clock does not go back. -/
structure Shared.Later (m m' : Shared) : Prop where
  started : m.started = true → m'.started = true
  cancelled : m.cancelled = true → m'.cancelled = true
  alive : m'.life.alive = true → m.life.alive = true
  invalidated : m.life.invalidated = true → m'.life.invalidated = true
  stop : m'.life.stop = 0 → m.life.stop = 0
  closed : m'.closed = none → m.closed = none
  clock : m.clock ≤ m'.clock

instance : Preorder Shared where
  le := Shared.Later
  le_refl _ := ⟨id, id, id, id, id, id, le_refl _⟩
  le_trans _ _ _ h h' :=
    ⟨h'.started ∘ h.started, h'.cancelled ∘ h.cancelled, h.alive ∘ h'.alive, h'.invalidated ∘ h.invalidated,
      h.stop ∘ h'.stop, h.closed ∘ h'.closed, h.clock.trans h'.clock⟩

theorem Load.passes_of_le {job : Job} {m m' : Shared} (h : m ≤ m') {load : Load} (hp : load.passes job m' = true) :
    load.passes job m = true := by
  have hclock : m.clock ≤ m'.clock := h.clock
  cases load with
  | cancelled =>
    have := h.cancelled
    simp only [passes] at hp ⊢
    grind
  | alive => exact h.alive hp
  | invalidated =>
    have := h.invalidated
    simp only [passes] at hp ⊢
    grind
  | stop =>
    simp only [passes, beq_iff_eq] at hp ⊢
    exact h.stop hp
  | «until» | deadline =>
    simp only [passes, decide_eq_true_eq] at hp ⊢
    exact hclock.trans_lt hp
  | closed =>
    simp only [passes, Option.isNone_iff_eq_none] at hp ⊢
    exact h.closed hp

end Writes
end Yuzora
