import Yuzora.CompanionPrograms
/-!
# CompanionSteps — what a command does to the supervisor

`Moves` says what a command does to the fields that decide what the supervisor does next.
-/
namespace Yuzora
namespace Companion

/-- What decides: the status, the generation, whether a process is recorded, and how this side ends it. -/
structure Control where
  status : Status
  generation : Nat
  recorded : Bool
  terminal : Option Status

def Shared.control (state : Shared) : Control :=
  ⟨state.inner.status, state.inner.generation, state.inner.process.isSome, state.inner.terminal⟩

def Command.halts : Command → Bool
  | .halt _ | .ready _ | .watchdogFires _ | .failLive _ | .timeOut _ => true
  | _ => false

/-- **What a command does to the control**, with its answer. -/
inductive Moves : Asked Command Reply → Control → Control → Prop
  | still (a : Asked Command Reply) (c : Control) : Moves a c c
  | decided (c : Control) : c.recorded = false →
      Moves ⟨.decideStart, (.ok c.generation : Except String Nat)⟩ c { c with status := .starting }
  | startFailed (expected : Nat) (code : String) (c : Control) : c.generation = expected → c.status = .starting →
      Moves ⟨.startFailed expected code, true⟩ c { c with status := .failed code }
  | recorded (init : Json) (expected : Nat) (devices : Devices) (c : Control) : c.generation = expected →
      c.status = .starting →
        Moves ⟨.record init expected devices, (.ok (c.generation + 1) : Except String Nat)⟩ c
          ⟨.starting, c.generation + 1, true, none⟩
  | halted (a : Asked Command Reply) (code : String) (c : Control) : a.command.halts = true →
      Moves a c { c with status := .failed code, terminal := some (.failed code) }
  | readied (event : Json) (port : Nat) (c : Control) : c.recorded = true → c.terminal = none →
      Moves ⟨.ready event, (some (none, .running port) : Option Halted)⟩ c { c with status := .running port }
  | absent (c : Control) : c.recorded = false →
      Moves ⟨.beginStop, (none : Option (Nat × Bool))⟩ c
        { c with status := .disabled, generation := c.generation + 1 }
  | stopped (kill : Bool) (c : Control) : c.recorded = true →
      Moves ⟨.beginStop, (some (c.generation, kill) : Option (Nat × Bool))⟩ c
        { c with status := .stopping, terminal := some .disabled }
  | exited (status : Status) (requested : Bool) (c : Control) :
      c.terminal = some status ∨ c.terminal = none ∧ (status = .disabled ∨ status.isFailed = true) →
        Moves ⟨.handleExit c.generation, (some (status, requested) : Option (Status × Bool))⟩ c
          ⟨status, c.generation + 1, false, none⟩
  | cleared (c : Control) : c.recorded = false →
      Moves ⟨.clearStale, true⟩ c { c with status := .disabled }

section Control

variable (state : Shared)

@[simp] theorem answer_control (result : Except String Json) : (answer result state).control = state.control := by
  rw [answer]
  split <;> rfl

@[simp] theorem dropPending_control : (dropPending state).control = state.control := by
  rw [dropPending]
  split <;> rfl

@[simp] theorem resolve_control (test : Want → Bool) (result : Except String Json) :
    (resolve test result state).control = state.control := by
  rw [resolve]
  split
  · exact answer_control state result
  · rfl

@[simp] theorem notify_control (frame : Json) : (notify frame state).control = state.control := by
  rw [notify]
  split <;> rfl

theorem halt_control (code : String) : (halt code state).2.control =
    { state.control with status := .failed code, terminal := some (.failed code) } := by
  have h : (answer (.error code) state).inner.process.isSome = state.inner.process.isSome :=
    congrArg Control.recorded (answer_control state _)
  have hg : (answer (.error code) state).inner.generation = state.inner.generation :=
    congrArg Control.generation (answer_control state _)
  rw [halt]
  split
  · rename_i hp
    simp only [Shared.control, hg, ← h, hp, Option.isSome_none]
  · rename_i process hp
    rw [hp] at h
    simp only [Shared.control, hg, ← h, Option.isSome_some]

@[simp] theorem removePeer_control (id : Nat) : (removePeer id state).control = state.control := by
  rw [removePeer]
  split <;> rfl

@[simp] theorem peersSnapshot_control (outside : Outside) (event : Json) :
    (peersSnapshot outside event state).control = state.control := by
  rw [peersSnapshot]
  split
  · rfl
  · split <;> rfl

@[simp] theorem gatewayError_control (code : String) : (gatewayError code state).control = state.control := by
  change (answer (.error code) { state with inner := { state.inner with
    expired := state.inner.expired || code = "policy-expired" } }).control = _
  rw [answer_control]
  rfl

@[simp] theorem storeChange_control (change : Devices → Except String Devices) :
    (storeChange change state).2.control = state.control := by
  rw [storeChange]
  split
  · rfl
  · split <;> rfl

theorem exitStatus_eq : state.inner.terminal = some (exitStatus state.inner) ∨
    state.inner.terminal = none ∧ (exitStatus state.inner = .disabled ∨ (exitStatus state.inner).isFailed = true) := by
  rw [exitStatus]
  split
  · rename_i terminal ht
    exact .inl ht
  · rename_i ht
    refine .inr ⟨ht, ?_⟩
    split
    · exact .inl rfl
    · split <;> exact .inr rfl

end Control

section Moves

variable (s : Shared)

theorem decideStart_moves : Moves ⟨.decideStart, (decideStart s).1⟩ s.control (decideStart s).2.control := by
  unfold decideStart
  split
  · exact .still _ _
  · rename_i h
    refine .decided s.control ?_
    simp only [Bool.or_eq_true, not_or, Bool.not_eq_true] at h
    exact h.1.1

theorem startFailed_moves (expected : Nat) (code : String) :
    Moves ⟨.startFailed expected code, (startFailed expected code s).1⟩ s.control (startFailed expected code s).2.control := by
  unfold startFailed
  split
  · rename_i h
    exact .startFailed expected code s.control h.1 h.2
  · exact .still _ _

theorem record_moves (init : Json) (expected : Nat) (devices : Devices) :
    Moves ⟨.record init expected devices, (record init expected devices s).1⟩ s.control
      (record init expected devices s).2.control := by
  unfold record
  split
  · exact .still _ _
  · rename_i h
    rw [not_or, not_not, not_not] at h
    have := Moves.recorded init expected devices s.control h.1 h.2
    rw [show Status.starting = s.inner.status from h.2.symm] at this
    exact this

theorem halted_moves {c : Command} {reply : Reply c} (hc : c.halts = true) (code : String) (s' : Shared)
    (hs : s'.control = s.control) : Moves ⟨c, reply⟩ s.control (halted code s').2.control := by
  rw [halted]
  rw [show (halt code s').2.control = _ from halt_control s' code, hs]
  exact .halted _ code _ hc

variable (generation : Nat)

theorem watchdogFires_moves :
    Moves ⟨.watchdogFires generation, (watchdogFires generation s).1⟩ s.control
      (watchdogFires generation s).2.control := by
  unfold watchdogFires
  split
  · exact .still _ _
  · exact halted_moves s rfl _ s rfl

theorem failLive_moves (code : String) :
    Moves ⟨.failLive code, (failLive code s).1⟩ s.control (failLive code s).2.control := by
  unfold failLive
  split
  · exact .still _ _
  · exact halted_moves s rfl code s rfl

theorem clearStale_moves : Moves ⟨.clearStale, (clearStale s).1⟩ s.control (clearStale s).2.control := by
  unfold clearStale
  split
  · rename_i h
    rw [Bool.and_eq_true, Option.isNone_iff_eq_none] at h
    refine .cleared s.control ?_
    rw [Shared.control, h.1]
    rfl
  · exact .still _ _

theorem beginStop_moves : Moves ⟨.beginStop, (beginStop s).1⟩ s.control (beginStop s).2.control := by
  unfold beginStop
  split
  · rename_i hp
    have := Moves.absent s.control (by rw [Shared.control, hp]; rfl)
    exact this
  · rename_i process hp
    have hc : s.control = ⟨s.inner.status, s.inner.generation, true, s.inner.terminal⟩ := by
      rw [Shared.control, hp]
      rfl
    rw [hc]
    exact .stopped process.kill ⟨s.inner.status, s.inner.generation, true, s.inner.terminal⟩ rfl

theorem handleExit_control {generation : Nat} (h : s.inner.generation = generation) :
    (handleExit generation s).2.control = ⟨exitStatus s.inner, generation + 1, false, none⟩ := by
  subst h
  have hcontrol := answer_control { s with inner := { s.inner with
    generation := s.inner.generation + 1, process := none, «until» := none } } (.error "companion-exited")
  unfold handleExit
  rw [if_neg (not_not.2 rfl)]
  change (⟨exitStatus s.inner, Control.generation (answer _ _).control, Control.recorded (answer _ _).control, none⟩ :
    Control) = _
  rw [hcontrol]
  rfl

theorem handleExit_moves :
    Moves ⟨.handleExit generation, (handleExit generation s).1⟩ s.control (handleExit generation s).2.control := by
  by_cases h : s.inner.generation = generation
  · rw [handleExit_control s h]
    subst h
    unfold handleExit
    rw [if_neg (not_not.2 rfl)]
    exact .exited (exitStatus s.inner) (!decide (s.inner.terminal = some .disabled)) s.control (exitStatus_eq s)
  · unfold handleExit
    rw [if_pos h]
    exact .still _ _

theorem becomeReady_moves (event : Json) :
    Moves ⟨.ready event, (becomeReady event s).1⟩ s.control (becomeReady event s).2.control := by
  unfold becomeReady
  split
  · rename_i h
    rw [Bool.and_eq_true, Option.isNone_iff_eq_none] at h
    by_cases hport : (s.inner.port.any fun expected =>
        decide (expected ≠ (((event.get "ports").get "loopback").asU64).getD 0)) = true
    · rw [if_pos hport]
      exact halted_moves (c := .ready event) s rfl _ s rfl
    · rw [if_neg hport]
      exact .readied event _ s.control h.1 h.2
  · exact .still _ _

theorem sendRequest_control (inputOpen : Bool) (request : Json) (want : Want) :
    (sendRequest inputOpen request want s).2.control = s.control := by
  unfold sendRequest
  split
  · rfl
  · have := dropPending_control (send s.inner.generation request s)
    exact this

theorem sendPeers_control (inputOpen : Bool) : (sendPeers inputOpen s).2.control = s.control := by
  unfold sendPeers
  dsimp only
  split <;> rfl

theorem timeOut_moves :
    Moves ⟨.timeOut generation, (timeOut generation s).1⟩ s.control (timeOut generation s).2.control := by
  unfold timeOut
  dsimp only
  split
  · exact halted_moves s rfl _ _ (dropPending_control s)
  · rw [dropPending_control]
    exact .still _ _

theorem Moves.of_eq {a : Asked Command Reply} {c c' : Control} (h : c' = c) : Moves a c c' := by
  rw [h]
  exact .still a c

/-- **Every command moves the control in one of these ways.** -/
theorem perform_moves (outside : Outside) (chance : Chance) (c : Command) :
    Moves ⟨c, (perform outside chance s c).1⟩ s.control (perform outside chance s c).2.control := by
  cases c with
  | decideStart => exact decideStart_moves s
  | startFailed expected code => exact startFailed_moves s expected code
  | record init expected devices => exact record_moves s init expected devices
  | watchdogFires generation => exact watchdogFires_moves s generation
  | halt code => exact halted_moves s rfl code s rfl
  | ready event => exact becomeReady_moves s event
  | handleExit generation => exact handleExit_moves s generation
  | beginStop => exact beginStop_moves s
  | failLive code => exact failLive_moves s code
  | clearStale => exact clearStale_moves s
  | timeOut generation => exact timeOut_moves s generation
  | sendRequest request want => exact .of_eq (sendRequest_control s chance.inputOpen request want)
  | sendPeers => exact .of_eq (sendPeers_control s chance.inputOpen)
  | storeDevice device | removeDevice id | applyFrame frame => exact .of_eq (storeChange_control s _)
  | resolve test event => exact .of_eq (resolve_control s test (.ok event))
  | snapshot event => exact .of_eq (peersSnapshot_control s outside event)
  | failure code => exact .of_eq (gatewayError_control s code)
  | notify frame => exact .of_eq (notify_control s frame)
  | notifyDevices => exact .of_eq (notify_control s _)
  | removePeer id => exact .of_eq (removePeer_control s id)
  | sendShutdown generation =>
    refine .of_eq ?_
    rw [perform]
    split <;> rfl
  | editFile frame =>
    refine .of_eq ?_
    rw [perform]
    split
    · rfl
    · split <;> rfl
  | _ => exact .still _ _

end Moves

end Companion
end Yuzora
