import Yuzora.SessionMoves
/-!
# SessionCommands — a desktop command is applied whole or not at all

What a command asks for (`asked`), whether it gives the device something or takes something from it (`Widens`,
`Tightens`), and what it comes to in each state and with each queue (`command_conduct`).
-/
namespace Yuzora
namespace Identity

/-! ## What a command asks for -/

def LessControl : Option ControlGrant → Option ControlGrant → Prop
  | none, some _ => True
  | some a, some b => a.until < b.until
  | _, none => False

variable (device : Device)

/-- The command gives the device something that it does not have. -/
def Widens : DeviceCommand → Prop
  | .update _ _ (some grants) =>
    LessControl device.grants.control grants.control ∨ device.grants.full = false ∧ grants.full = true
  | .update _ _ none | .revoke _ => False
  | .unlock _ => True

def Tightens : DeviceCommand → Prop
  | .update _ _ (some grants) =>
    LessControl grants.control device.grants.control ∨ device.grants.full = true ∧ grants.full = false
  | .update _ _ none | .unlock _ => False
  | .revoke _ => True

def asked : DeviceCommand → Option Device
  | .update _ label grants =>
    some { device with label := label.getD device.label, grants := grants.getD device.grants }
  | .unlock _ => some { device with locked := false }
  | .revoke _ => none

theorem grantBefore_iff (a b : Option ControlGrant) :
    grantBefore (a.map ControlGrant.until) (b.map ControlGrant.until) = true ↔ LessControl a b := by
  cases a <;> cases b <;> simp [grantBefore, LessControl]

/-- What a decision says of its command. -/
structure Decides (device : Device) (command : DeviceCommand) (d : Decision) : Prop where
  snapshot : d.snapshot = asked device command
  widening : d.widening = true ↔ Widens device command
  split : ¬(Widens device command ∧ Tightens device command)

variable {device : Device}

variable {command : DeviceCommand}

theorem decision_decides {d : Decision} (h : decision device command = .ok d) : Decides device command d := by
  cases command with
  | unlock id =>
    cases h
    exact ⟨rfl, by simp [Widens], fun hb => hb.2⟩
  | revoke id =>
    cases h
    exact ⟨rfl, by simp [Widens], fun hb => hb.1⟩
  | update id label grants =>
    simp only [decision] at h
    split at h
    · cases h
    · split at h
      · cases h
      · split at h
        · cases h
          exact ⟨rfl, by simp [Widens], fun hb => hb.1⟩
        · rename_i grants
          split at h
          · cases h
          · rename_i hmixed
            cases h
            constructor
            case snapshot => rfl
            case widening => simp [Widens, grantBefore_iff, and_comm]
            case split =>
              rintro ⟨hw, ht⟩
              apply hmixed
              simp only [Widens, Tightens, ← grantBefore_iff] at hw ht
              rw [Bool.and_eq_true]
              constructor
              · rcases ht with ht | ht <;> simp [ht]
              · rcases hw with hw | hw <;> simp [hw]

theorem decision_error {e : Failure} (h : decision device command = .error e) : e = INVALID_COMMAND := by
  cases command with
  | unlock id | revoke id => cases h
  | update id label grants =>
    simp only [decision] at h
    split at h
    · cases h
      rfl
    · split at h
      · cases h
        rfl
      · split at h
        · cases h
        · split at h
          · cases h
            rfl
          · cases h

/-! ## What a command comes to -/

theorem commit_devices (self : Identity) (id : String) (command : DeviceCommand) (snapshot : Option Device) :
    (self.commit id command snapshot).devices.get id = snapshot := by
  unfold commit invalidateDevice
  rw [(foldl_invalidate_frame _ _).1]
  cases snapshot with
  | some device => cases command <;> exact Table.get_insert_self self.devices id device
  | none => cases command <;> exact Table.get_erase_self self.devices id

/-- What became of a command. -/
inductive Outcome (self : Identity) (command : DeviceCommand) (events : EventSender) :
    Except Failure AdminResult × Identity × EventSender → Prop
  /-- It was refused for what it says, whatever the queue. -/
  | invalid : (∀ queue, self.command command queue = (.error INVALID_COMMAND, self, queue)) →
      Outcome self command events (.error INVALID_COMMAND, self, events)
  /-- It widens, and an older snapshot waits or the queue takes nothing. -/
  | unannounced (device : Device) (d : Decision) (events' : EventSender) :
      self.devices.get command.deviceId = some device → decision device command = .ok d → d.widening = true →
      events'.accepted = events.accepted → Outcome self command events (.error QUEUE_UNAVAILABLE, self, events')
  | announced (device : Device) (d : Decision) :
      self.devices.get command.deviceId = some device → decision device command = .ok d → d.widening = true →
      Outcome self command events (.ok .applied, self.commit command.deviceId command d.snapshot,
        events.took (notification command.deviceId d.snapshot))
  /-- It does not widen: it is committed, and its event is enqueued or waits. -/
  | committed (device : Device) (d : Decision) (answer : AdminResult) (notifications : Table String (Option Device))
      (events' : EventSender) : self.devices.get command.deviceId = some device → decision device command = .ok d →
      d.widening = false → Outcome self command events
        (.ok answer, { self.commit command.deviceId command d.snapshot with notifications }, events')

/-- **Every command has an outcome.** -/
theorem command_outcome (self : Identity) (command : DeviceCommand) (events : EventSender) :
    Outcome self command events (self.command command events) := by
  unfold Identity.command
  dsimp only
  split
  · rename_i hid
    exact .invalid fun queue => by simp [Identity.command, hid]
  · rename_i hid
    split
    · rename_i hd
      exact .invalid fun queue => by simp [Identity.command, hid, hd]
    · rename_i device hd
      split
      · rename_i e he
        obtain rfl := decision_error he
        exact .invalid fun queue => by simp [Identity.command, hid, hd, he]
      · rename_i snapshot name hok
        split
        · exact .unannounced device _ events hd hok rfl rfl
        · rcases tryEmitEvent_cases events (notification command.deviceId snapshot) with ht | ht
          · rw [ht]
            exact .announced device ⟨snapshot, true, name⟩ hd hok rfl
          · rw [ht]
            exact .unannounced device _ events.refused hd hok rfl rfl
      · rename_i snapshot name hok
        rcases events.tryEmit_cases (notification command.deviceId snapshot) with ht | ht
        · rw [ht]
          exact .committed device ⟨snapshot, false, name⟩ .applied _ _ hd hok rfl
        · rw [ht]
          exact .committed device ⟨snapshot, false, name⟩ _ _ _ hd hok rfl

/-- How a command conducts itself. -/
structure CommandConduct (self : Identity) (command : DeviceCommand) (events : EventSender) : Prop where
  /-- What fails changes nothing. -/
  unchanged : ∀ e, (self.command command events).1 = .error e → (self.command command events).2.1 = self
  /-- What widens is in effect with its event enqueued, or neither. -/
  widening : ∀ device, self.devices.get command.deviceId = some device → Widens device command →
    (self.command command events).1 = .ok .applied ∧
      (self.command command events).2.1.devices.get command.deviceId = asked device command ∧
      (self.command command events).2.2.accepted =
        events.accepted ++ [notification command.deviceId (asked device command)] ∨
    (∃ e, (self.command command events).1 = .error e) ∧ (self.command command events).2.1 = self ∧
      (self.command command events).2.2.accepted = events.accepted
  /-- What tightens fails for what it says alone, and otherwise is in effect. -/
  tightening : ∀ device, self.devices.get command.deviceId = some device → Tightens device command →
    (∃ answer, (self.command command events).1 = .ok answer) ∧
      (self.command command events).2.1.devices.get command.deviceId = asked device command ∨
    ∀ queue, self.command command queue = (.error INVALID_COMMAND, self, queue)
  mixed : ∀ device, self.devices.get command.deviceId = some device → Widens device command → Tightens device command →
    self.command command events = (.error INVALID_COMMAND, self, events)

/-- **Whatever the state, the command and the queue.** -/
theorem command_conduct (self : Identity) (command : DeviceCommand) (events : EventSender) :
    CommandConduct self command events := by
  have ho := command_outcome self command events
  constructor
  case unchanged =>
    intro e he
    generalize self.command command events = r at he ho
    cases ho with
    | invalid | unannounced => rfl
    | announced | committed => cases he
  case widening =>
    intro device hd hw
    generalize self.command command events = r at ho
    cases ho with
    | invalid => exact .inr ⟨⟨_, rfl⟩, rfl, rfl⟩
    | unannounced _ _ _ _ _ _ ha => exact .inr ⟨⟨_, rfl⟩, rfl, ha⟩
    | announced device' d hd' hok hwide =>
      cases hd.symm.trans hd'
      rw [(decision_decides hok).snapshot]
      exact .inl ⟨rfl, commit_devices self _ command _, rfl⟩
    | committed device' d _ _ _ hd' hok hwide =>
      cases hd.symm.trans hd'
      rw [(decision_decides hok).widening.2 hw] at hwide
      cases hwide
  case tightening =>
    intro device hd ht
    generalize self.command command events = r at ho
    cases ho with
    | invalid h => exact .inr h
    | unannounced _ _ _ hd' hok hwide | announced _ _ hd' hok hwide =>
      cases hd.symm.trans hd'
      exact absurd ⟨(decision_decides hok).widening.1 hwide, ht⟩ (decision_decides hok).split
    | committed device' d answer _ _ hd' hok =>
      cases hd.symm.trans hd'
      rw [(decision_decides hok).snapshot]
      exact .inl ⟨⟨answer, rfl⟩, commit_devices self _ command _⟩
  case mixed =>
    intro device hd hw ht
    generalize self.command command events = r at ho
    cases ho with
    | invalid => rfl
    | unannounced _ _ _ hd' hok | announced _ _ hd' hok | committed _ _ _ _ _ hd' hok =>
      cases hd.symm.trans hd'
      exact absurd ⟨hw, ht⟩ (decision_decides hok).split

end Identity
end Yuzora
