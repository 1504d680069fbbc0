import Yuzora.SessionBounds
/-!
# SessionDesktop — what the desktop has been told

The desktop keeps the device list it reads off the event queue.  A snapshot the queue refused waits in `notifications`;
where none waits, the desktop's record is the table's, up to the last-seen time of a device marked dirty.
-/
namespace Yuzora

open Table

def applyEvent (view : Table String Device) : Event → Table String Device
  | .deviceRegistered device | .deviceUpdated device => view.insert device.deviceId device
  | .deviceRevoked id => view.erase id
  | .pairingCreated _ _ _ | .pairingClaimed _ _ _ _ _ | .pairingState _ _ _ => view

/-- The desktop's device list: the initial one, and the accepted events in queue order. -/
def desktopView (devices : List Device) (accepted : List Event) : Table String Device :=
  accepted.foldl applyEvent (deviceTable devices)

theorem desktopView_snoc (devices : List Device) (accepted : List Event) (event : Event) :
    desktopView devices (accepted ++ [event]) = applyEvent (desktopView devices accepted) event := by
  simp [desktopView, List.foldl_append]

def Event.device : Event → Option (String × Option Device)
  | .deviceRegistered device | .deviceUpdated device => some (device.deviceId, some device)
  | .deviceRevoked id => some (id, none)
  | .pairingCreated _ _ _ | .pairingClaimed _ _ _ _ _ | .pairingState _ _ _ => none

theorem applyEvent_get {event : Event} {id : String} {record : Option Device} (h : event.device = some (id, record))
    (view : Table String Device) (j : String) :
    (applyEvent view event).get j = if j = id then record else view.get j := by
  cases event with
  | deviceRegistered device | deviceUpdated device =>
    cases h
    exact get_insert _ _ _ _
  | deviceRevoked id' =>
    cases h
    exact get_erase _ _ _
  | pairingCreated _ _ _ | pairingClaimed _ _ _ _ _ | pairingState _ _ _ => cases h

def Device.timeless (device : Device) : Device := { device with lastSeen := device.createdAt }

/-- Both there or both not, and the same in everything but the last-seen time. -/
def SameRecord (a b : Option Device) : Prop := a.map Device.timeless = b.map Device.timeless

/-- The view grants what the table does not: a record that is gone, an unlocked device, a longer or a full grant. -/
def Widens (view table : Option Device) : Prop :=
  match view, table with
  | none, _ => False
  | some _, none => True
  | some v, some d => (d.locked = true ∧ v.locked = false) ∨
      Identity.grantBefore (d.grants.control.map ControlGrant.until) (v.grants.control.map ControlGrant.until) = true ∨
      (d.grants.full = false ∧ v.grants.full = true)

theorem grantBefore_irrefl (a : Option Timestamp) : Identity.grantBefore a a = false := by
  cases a <;> simp [Identity.grantBefore]

theorem SameRecord.not_widens {a b : Option Device} (h : SameRecord a b) : ¬ Widens a b := by
  cases a with
  | none => exact fun hw => hw
  | some v =>
    cases b with
    | none => cases h
    | some d =>
      have he : v.timeless = d.timeless := Option.some.inj (Eq.mp rfl h)
      have hl : v.timeless.locked = d.timeless.locked := congrArg Device.locked he
      have hg : v.timeless.grants = d.timeless.grants := congrArg Device.grants he
      change v.locked = d.locked at hl
      change v.grants = d.grants at hg
      rintro (⟨h1, h2⟩ | h1 | ⟨h1, h2⟩)
      · rw [hl, h1] at h2
        cases h2
      · rw [hg, grantBefore_irrefl] at h1
        cases h1
      · rw [hg, h1] at h2
        cases h2

namespace Identity

/-- What the desktop knows of a device, or will know when its snapshot is taken. -/
def shown (devices : List Device) (s : Held) (id : String) : Option Device :=
  match s.1.notifications.get id with
  | none => (desktopView devices s.2.accepted).get id
  | some snapshot => snapshot

/-- **The desktop's record is the table's**, to the last-seen time unless the device is dirty. -/
def Shown (devices : List Device) (s : Held) : Prop :=
  s.1.Limits ∧ ∀ id, SameRecord (shown devices s id) (s.1.devices.get id) ∧
    (s.1.dirtyDevices.get id = none → shown devices s id = s.1.devices.get id)

variable {s t : Held}

variable {devices : List Device} {E : Elevations} {accepted : List Event} {events : EventSender} {self : Identity}

theorem Shown.update (h : Shown devices s) (hl : t.1.Limits) (id : String)
    (hid : shown devices t id = t.1.devices.get id)
    (hother : ∀ j, j ≠ id → shown devices t j = shown devices s j ∧ t.1.devices.get j = s.1.devices.get j ∧
      (t.1.dirtyDevices.get j = none → s.1.dirtyDevices.get j = none)) : Shown devices t := by
  refine ⟨hl, fun j => ?_⟩
  by_cases hj : j = id
  · subst hj
    rw [hid]
    exact ⟨rfl, fun _ => rfl⟩
  · obtain ⟨h1, h2, h3⟩ := hother j hj
    rw [h1, h2]
    exact ⟨(h.2 j).1, fun hd => (h.2 j).2 (h3 hd)⟩

theorem Shown.same (h : Shown devices s) (hl : t.1.Limits)
    (hd : t.1.devices = s.1.devices) (hn : t.1.notifications = s.1.notifications)
    (hq : t.1.dirtyDevices = s.1.dirtyDevices) (he : t.2.accepted = s.2.accepted) : Shown devices t := by
  refine ⟨hl, fun id => ?_⟩
  have hs : shown devices t id = shown devices s id := by simp only [shown, hn, he]
  rw [hs, hd, hq]
  exact h.2 id

theorem get_erase_of_ne {K V : Type} [DecidableEq K] {t : Table K V} {k j : K} (h : j ≠ k) :
    (t.erase k).get j = t.get j := by
  rw [get_erase, if_neg h]

theorem get_insert_of_ne {K V : Type} [DecidableEq K] {t : Table K V} {k j : K} {v : V} (h : j ≠ k) :
    (t.insert k v).get j = t.get j := by
  rw [get_insert, if_neg h]

theorem Shown.snapshot (h : Shown devices (self, events))
    {id : String} {snapshot : Option Device} {t : Identity} (hl : t.Limits)
    (hd : ∀ j, t.devices.get j = if j = id then snapshot else self.devices.get j)
    (hn : t.notifications = self.notifications.insert id snapshot)
    (hq : t.dirtyDevices = self.dirtyDevices.erase id) : Shown devices (t, events) := by
  refine h.update hl id ?_ (fun j hj => ⟨?_, ?_, ?_⟩)
  · simp only [shown, hn, get_insert_self, hd, if_pos]
  · simp only [shown, hn, get_insert_of_ne hj]
  · simp only [hd, if_neg hj]
  · rw [hq, get_erase_of_ne hj]
    exact fun h => h

theorem store_get (self : Identity) (id : String) (snapshot : Option Device) (j : String) :
    (self.store id snapshot).devices.get j = if j = id then snapshot else self.devices.get j := by
  cases snapshot with
  | none => exact get_erase _ _ _
  | some device => exact get_insert _ _ _ _

theorem Shown.change (h : Shown devices s) (hc : Change s t) : Shown devices t := by
  have hl := h.1.change hc
  cases hc with
  | @publish self events id device event dirty hn hno hold hnew he hdirty =>
    have hid : device.deviceId = id := by
      cases hg : self.devices.get id with
      | none => exact (hnew hg).1
      | some old => exact (hold old hg).trans (h.1.deviceId id old hg)
    have hev : event.device = some (id, some device) := by
      rcases he with rfl | rfl <;> exact congrArg (fun i => some (i, some device)) hid
    refine h.update hl id ?_ (fun j hj => ⟨?_, ?_, ?_⟩)
    · show shown devices ({ self.store id (some device) with dirtyDevices := dirty }, events.took event) id =
        (self.store id (some device)).devices.get id
      simp only [shown, store, hno, EventSender.took_accepted, desktopView_snoc, applyEvent_get hev,
        get_insert_self, if_pos]
    · simp only [shown, store, EventSender.took_accepted, desktopView_snoc, applyEvent_get hev, if_neg hj]
    · exact get_insert_of_ne hj
    · rcases hdirty with rfl | rfl
      · exact fun h => h
      · exact fun h => by rwa [get_erase_of_ne hj] at h
  | @tighten self events id old snapshot _ _ _ => exact h.snapshot hl (fun j => self.store_get id snapshot j) rfl rfl
  | @record self events id old device _ _ _ _ _ =>
    exact h.snapshot hl (fun j => self.store_get id (some device) j) rfl rfl

theorem SameRecord.deviceId {a b : Device} (h : SameRecord (some a) (some b)) : a.deviceId = b.deviceId :=
  have he : a.timeless = b.timeless := Option.some.inj (Eq.mp rfl h)
  have hid : a.timeless.deviceId = b.timeless.deviceId := congrArg Device.deviceId he
  hid

theorem Shown.waiting (h : Shown devices (self, events)) {id : String} {snapshot : Option Device}
    (hn : self.notifications.get id = some snapshot) :
    (notification id snapshot).device = some (id, snapshot) ∧ SameRecord snapshot (self.devices.get id) := by
  have hs := (h.2 id).1
  simp only [shown, hn] at hs
  refine ⟨?_, hs⟩
  cases snapshot with
  | none => rfl
  | some device =>
    cases hg : self.devices.get id with
    | none =>
      rw [hg] at hs
      cases hs
    | some d =>
      rw [hg] at hs
      have hid : device.deviceId = id := (SameRecord.deviceId hs).trans (h.1.deviceId id d hg)
      exact congrArg (fun i => some (i, some device)) hid

theorem Shown.settle (h : Shown devices s) (hs : Settle E s t) : Shown devices t := by
  have hl := h.1.settle hs
  cases hs with
  | prepare hp => cases hp <;> exact h.same hl rfl rfl rfl rfl
  | @touch self events id session device now hsid hd =>
    refine ⟨hl, fun j => ?_⟩
    by_cases hj : j = session.deviceId
    · subst hj
      have hsame := (h.2 session.deviceId).1
      simp only [touched, get_insert_self]
      refine ⟨?_, fun hn => by cases hn⟩
      rw [hd] at hsame
      exact hsame
    · have h1 : (self.touched id session device now).devices.get j = self.devices.get j := get_insert_of_ne hj
      have h2 : (self.touched id session device now).dirtyDevices.get j = self.dirtyDevices.get j := get_insert_of_ne hj
      simp only [h1, h2]
      exact h.2 j
  | @accept self events id snapshot hn =>
    obtain ⟨hev, -⟩ := h.waiting hn
    have hshown : ∀ j, shown devices
        ({ self with notifications := self.notifications.erase id }, events.took (notification id snapshot)) j =
          shown devices (self, events) j := by
      intro j
      by_cases hj : j = id
      · subst hj
        simp only [shown, get_erase_self, hn, EventSender.took_accepted, desktopView_snoc, applyEvent_get hev, if_pos]
      · simp only [shown, get_erase_of_ne hj, EventSender.took_accepted, desktopView_snoc, applyEvent_get hev, if_neg hj]
    refine ⟨hl, fun j => ?_⟩
    rw [hshown j]
    exact h.2 j
  | @note self events id device hd =>
    refine h.snapshot hl (fun j => ?_) rfl rfl
    split
    · rename_i hj
      rw [hj, hd]
    · rfl
  | @forget self events id hd =>
    have hnone : shown devices (self, events) id = none := by
      have hsame := (h.2 id).1
      rw [hd] at hsame
      exact Option.map_eq_none_iff.1 hsame
    refine h.update hl id (hnone.trans hd.symm) (fun j hj => ⟨rfl, rfl, fun hq => ?_⟩)
    simp only [get_erase_of_ne hj] at hq
    exact hq
  | refuse | elevate | openSession | connect | disconnect => exact h.same hl rfl rfl rfl rfl

/-! ## What one step announces -/

def Truthful (self : Identity) (event : Event) : Prop :=
  ∀ id record, event.device = some (id, record) → SameRecord record (self.devices.get id)

/-- The events accepted since `accepted` say what the table says now. -/
def Announces (devices : List Device) (accepted : List Event) (t : Held) : Prop :=
  Shown devices t ∧ ∃ new, t.2.accepted = accepted ++ new ∧ ∀ event ∈ new, Truthful t.1 event

theorem Announces.settle (h : Announces devices accepted s) (hs : Settle E s t) : Announces devices accepted t := by
  obtain ⟨hshown, new, hnew, htruth⟩ := h
  refine ⟨hshown.settle hs, ?_⟩
  cases hs with
  | prepare hp => cases hp <;> exact ⟨new, hnew, htruth⟩
  | @touch self events id session device now hsid hd =>
    refine ⟨new, hnew, fun event he j record hev => (htruth event he j record hev).trans ?_⟩
    show _ = Option.map Device.timeless ((self.devices.insert session.deviceId { device with lastSeen := now }).get j)
    by_cases hj : j = session.deviceId
    · subst hj
      simp only [get_insert_self, hd]
      rfl
    · rw [get_insert_of_ne hj]
  | @accept self events id snapshot hn =>
    obtain ⟨hev, hsame⟩ := hshown.waiting hn
    refine ⟨new ++ [notification id snapshot], ?_, fun event he j record hd => ?_⟩
    · rw [EventSender.took_accepted, hnew, List.append_assoc]
    · rcases List.mem_append.1 he with he | he
      · exact htruth event he j record hd
      · rw [List.mem_singleton.1 he, hev] at hd
        cases hd
        exact hsame
  | refuse | elevate | openSession | connect | disconnect | note | forget => exact ⟨new, hnew, htruth⟩

theorem Announces.settles (h : Announces devices accepted s) (hs : Settles E s t) : Announces devices accepted t := by
  induction hs with
  | refl => exact h
  | tail _ hst ih => exact ih.settle hst

theorem Prepares.frame (h : Prepares s t) : t.2 = s.2 ∧ t.1.devices = s.1.devices := by
  induction h with
  | refl => exact ⟨rfl, rfl⟩
  | tail _ hst ih =>
    cases hst with
    | drop | failures => exact ih

/-- **A step announces only what it leaves in the table.** -/
theorem Moves.announces (h : Shown devices s) (hm : Moves E s t) : Announces devices s.2.accepted t := by
  obtain ⟨m, m', hp, hc, ht⟩ := hm
  have hmid : Announces devices s.2.accepted m :=
    Announces.settles (E := E) ⟨h, [], by simp, by simp⟩ hp.settles
  rcases hc with rfl | hc
  · exact hmid.settles ht
  · have hshown := hmid.1.change hc
    refine Announces.settles ⟨hshown, ?_⟩ ht
    obtain ⟨hev, -⟩ := hp.frame
    cases hc with
    | @publish self events id device event dirty hn hno hold hnew he hdirty =>
      refine ⟨[event], by rw [EventSender.took_accepted, ← hev], fun event' he' j record hd => ?_⟩
      rw [List.mem_singleton.1 he'] at hd
      have hj : j = id ∧ record = some device := by
        have hid : device.deviceId = id := by
          cases hg : self.devices.get id with
          | none => exact (hnew hg).1
          | some old => exact (hold old hg).trans (hmid.1.1.deviceId id old hg)
        rcases he with rfl | rfl
        · cases hd
          exact ⟨hid, rfl⟩
        · cases hd
          exact ⟨hid, rfl⟩
      obtain ⟨rfl, rfl⟩ := hj
      show _ = Option.map Device.timeless ((self.store j (some device)).devices.get j)
      rw [store_get, if_pos rfl]
    | tighten | record => exact ⟨[], by rw [← hev, List.append_nil], by simp⟩

end Identity

namespace Gateway

open Identity (Shown Announces Truthful)

variable {ext : External} {devices : List Device} {policy : Policy}

theorem Run.shown {l : List (Transition Gateway Label)} {s : Gateway} (h : Run ext devices policy l s) :
    Shown devices (s.identity, s.events) := by
  refine Trace.invariant (P := fun s => Shown devices (s.identity, s.events)) ?_ ?_ h
  · intro s hs
    obtain ⟨hl, -, -, hn, hq, hd⟩ := Identity.new_ok hs.1
    refine ⟨hl, fun id => ?_⟩
    have he : Identity.shown devices (s.identity, s.events) id = s.identity.devices.get id := by
      simp only [Identity.shown, hn, get_empty, hs.2.2, hd, desktopView, List.foldl_nil]
    rw [he]
    exact ⟨rfl, fun _ => rfl⟩
  · intro s label t hs hst
    exact (Identity.Moves.announces hs (hst.moves hs.1).1).1

/-- **The desktop's list is the table**, wherever no snapshot waits; and no event it accepts grants what the table, at the
end of the operation that sent it, does not. -/
theorem desktop_view {l : List (Transition Gateway Label)} {s : Gateway} (h : Run ext devices policy l s) :
    (∀ id, s.identity.notifications.get id = none →
      SameRecord ((desktopView devices s.events.accepted).get id) (s.identity.devices.get id) ∧
      (s.identity.dirtyDevices.get id = none →
        (desktopView devices s.events.accepted).get id = s.identity.devices.get id)) ∧
    ∀ x ∈ l, ∃ new, x.dst.events.accepted = x.src.events.accepted ++ new ∧
      ∀ before event after, new = before ++ event :: after → ∀ id record, event.device = some (id, record) →
        ¬ Widens ((desktopView devices (x.src.events.accepted ++ before ++ [event])).get id)
          (x.dst.identity.devices.get id) := by
  refine ⟨fun id hn => ?_, fun x hx => ?_⟩
  · have hs := h.shown.2 id
    simp only [Identity.shown, hn] at hs
    exact hs
  · obtain ⟨past, later, -, hrun, hstep⟩ := h.transition x hx
    have hshown := Run.shown hrun
    obtain ⟨-, new, hnew, htruth⟩ := Identity.Moves.announces hshown (hstep.moves hshown.1).1
    refine ⟨new, hnew, fun before event after hsplit id record hev => ?_⟩
    have ht := htruth event (by rw [hsplit]; simp) id record hev
    rw [desktopView_snoc, applyEvent_get hev, if_pos rfl]
    exact SameRecord.not_widens ht

/-- A login counts up the phone's credential, and the desktop has read so. -/
theorem desktop_view_loggedIn : (desktopView [Sample.phone] Sample.loggedIn.events.accepted).get Sample.phone.deviceId =
      Sample.loggedIn.identity.devices.get Sample.phone.deviceId ∧
    (Sample.loggedIn.identity.devices.get Sample.phone.deviceId).map
      (fun device => device.credentials.map CredentialRecord.signCount) = some [1] :=
  ⟨((desktop_view Sample.run_loggedIn).1 _ (by rfl)).2 (by rfl), by rfl⟩

end Gateway
end Yuzora
