import Yuzora.CompanionSteps
/-!
# CompanionConduct — what stands behind a command

An event acts only between its check and the release of the device list; a handle that a halt took is handed on to a
task that closes first; a start that was decided is settled; a turn of the admin commands is ended.
-/
namespace Yuzora
namespace Companion

open List

/-- Commands that need no reason: they leave the fields, the files and the callers alone. -/
def Command.plain : Command → Bool
  | .spawnChild | .beginTask _ | .spawnTask _ | .closing | .lockStore | .unlockStore | .known _ | .deferred _ | .write _ _
  | .notify _ | .notifyDevices | .overview | .emit _ | .markExited _ | .stopped | .waitExited _ | .waitReply _
  | .waitPeers _ | .idle => true
  | _ => false

def Command.acts : Command → Bool
  | .storeDevice _ | .removeDevice _ | .applyFrame _ | .forget _ | .unsubscribe _ _ | .subscribe _ _ | .halt _
  | .resolve _ _ | .ready _ | .snapshot _ | .failure _ => true
  | _ => false

def Command.called : Command → Bool
  | .startFailed _ _ | .watchdogFires _ | .failLive _ | .timeOut _ | .beginStop | .clearStale | .unlockCommands
  | .sendRequest _ _ | .sendPeers | .removePeer _ | .editFile _ | .forget _ => true
  | _ => false

def Command.ends : Command → Bool
  | .unlockStore | .halt _ | .ready _ => true
  | _ => false

def Command.settles (expected : Nat) : Command → Prop
  | .startFailed e _ => e = expected
  | .record _ e _ => e = expected
  | _ => False

def taken : (c : Command) → Reply c → Option Nat
  | .halt _, (kill, _) => kill
  | .ready _, some (kill, _) => kill
  | .watchdogFires _, some (kill, _) => kill
  | .failLive _, some (kill, _) => kill
  | .timeOut _, some (kill, _) => kill
  | _, _ => none

/-- Whoever takes a handle spawns the task that closes before it kills. -/
def HandsOn (c : Command) (next : Reply c → M Json) : Prop :=
  ∀ r g, taken c r = some g → (next r).Owes fun c' => c' = .spawnTask (.killAfterClosing g)

/-- **The event stands between its check and its end.** -/
structure Acting (past : List (Asked Command Reply)) (generation : Nat) : Prop where
  heard : ⟨.heard generation, true⟩ ∈ past
  goes : ∀ a ∈ past, a.command.ends = false

variable {a : Asked Command Reply}

variable {past : List (Asked Command Reply)}

theorem Acting.snoc {g : Nat} (h : Acting past g) (ha : a.command.ends = false) : Acting (past ++ [a]) g := by
  refine ⟨mem_append_left _ h.heard, fun b hb => ?_⟩
  rcases mem_append.1 hb with hb | hb
  · exact h.goes b hb
  · rw [mem_singleton.1 hb, ha]

theorem Acting.of_snoc {g : Nat}
    (h : Acting (past ++ [a]) g) : (Acting past g ∧ a.command.ends = false) ∨ a = ⟨.heard g, true⟩ := by
  rcases mem_append.1 h.heard with hh | hh
  · exact .inl ⟨⟨hh, fun b hb => h.goes b (mem_append_left _ hb)⟩,
      h.goes a mem_concat_self⟩
  · exact .inr (mem_singleton.1 hh).symm

/-- **What stands behind a command, and what its caller owes after it.** -/
inductive Conduct (call : Call) (past : List (Asked Command Reply)) : (c : Command) → (Reply c → M Json) → Prop
  | plain (c : Command) (next : Reply c → M Json) : c.plain = true → Conduct call past c next
  | hears (g : Nat) (event : Json) (next : Bool → M Json) : call = .line g event → Conduct call past (.heard g) next
  | acts (c : Command) (next : Reply c → M Json) (g : Nat) (event : Json) : call = .line g event → c.acts = true →
      Acting past g → HandsOn c next → Conduct call past c next
  | decides (launch : Launch) (next : Except String Nat → M Json) : call = .start launch →
      (∀ e, (next (.ok e)).Owes (Command.settles e)) → Conduct call past .decideStart next
  | records (init : Json) (expected : Nat) (devices : Devices) (next : Except String Nat → M Json) :
      (∀ g event, call ≠ .line g event) → ⟨.decideStart, (.ok expected : Except String Nat)⟩ ∈ past →
        Conduct call past (.record init expected devices) next
  | kills (g : Nat) (next : Unit → M Json) :
      call = .task (.killAfterClosing g) ∧ ⟨.closing, ()⟩ ∈ past ∨
        call = .stop ∧ ⟨.beginStop, (some (g, true) : Option (Nat × Bool))⟩ ∈ past → Conduct call past (.kill g) next
  | shuts (g : Nat) (next : Unit → M Json) : call = .task (.shutdownAfterClosing g) → ⟨.closing, ()⟩ ∈ past →
      Conduct call past (.sendShutdown g) next
  | exits (g : Nat) (next : Option (Status × Bool) → M Json) : call = .exit g → Conduct call past (.handleExit g) next
  | turns (command : Json) (want : Want) (next : Unit → M Json) : call = .request command want →
      (next ()).Owes (· = .unlockCommands) → Conduct call past .lockCommands next
  | called (c : Command) (next : Reply c → M Json) : c.called = true → (∀ g event, call ≠ .line g event) →
      HandsOn c next → Conduct call past c next

section Conduct

variable {call : Call} {c : Command} {p : Command → Prop} {next : Reply c → M Json}

theorem plain_conduct (hc : c.plain = true)
    (h : ∀ r past, (next r).Throughout (Conduct call) past) : (Prog.call c next).Throughout (Conduct call) past :=
  Prog.throughout_call (.plain c next hc) fun r => h r _

theorem killAfterClosing_conduct {k : Unit → M Json} (hk : ∀ past, (k ()).Throughout (Conduct call) past)
    (kill : Option Nat) : ∀ past, (killAfterClosing kill >>= k).Throughout (Conduct call) past := by
  intro past
  cases kill with
  | none => exact hk past
  | some g => exact plain_conduct rfl fun _ => hk

theorem killAfterClosing_owes (k : Unit → M Json) (g : Nat) :
    (killAfterClosing (some g) >>= k).Owes fun c => c = .spawnTask (.killAfterClosing g) := .inl rfl

theorem publishHalted_conduct {k : Unit → M Json} (hk : ∀ past, (k ()).Throughout (Conduct call) past)
    (halted : Option Halted) : ∀ past, (publishHalted halted >>= k).Throughout (Conduct call) past := by
  intro past
  cases halted with
  | none => exact hk past
  | some halted => exact plain_conduct rfl fun _ => killAfterClosing_conduct hk halted.1

theorem publishHalted_owes (k : Unit → M Json) {halted : Halted} {g : Nat} (h : halted.1 = some g) :
    (publishHalted (some halted) >>= k).Owes fun c => c = .spawnTask (.killAfterClosing g) := by
  refine .inr fun _ => ?_
  have := killAfterClosing_owes k g
  rw [← h] at this
  exact this

theorem emitAll_conduct {k : Unit → M Json} (hk : ∀ past, (k ()).Throughout (Conduct call) past) :
    ∀ (events : List Json) past, (emitAll events >>= k).Throughout (Conduct call) past
  | [], past => hk past
  | _ :: rest, _ => plain_conduct rfl fun _ => emitAll_conduct hk rest

theorem emitAll_owes {k : Unit → M Json} (hk : (k ()).Owes p) : ∀ events : List Json, (emitAll events >>= k).Owes p
  | [] => hk
  | _ :: rest => .inr fun _ => emitAll_owes hk rest

/-! ## Events -/

/-- What follows an event: nothing that needs a reason, and its handle is handed on. -/
structure Closes (call : Call) (k : Leaves → M Json) : Prop where
  conduct : ∀ leaves past, (k leaves).Throughout (Conduct call) past
  hands : ∀ leaves g, leaves.kill = some g → (k leaves).Owes fun c => c = .spawnTask (.killAfterClosing g)

variable {g : Nat} {line : Json} {k : Leaves → M Json}

theorem acts_conduct (hcall : call = .line g line) (ha : Acting past g)
    (hc : c.acts = true) (hands : HandsOn c next) (h : ∀ r, (next r).Throughout (Conduct call) (past ++ [⟨c, r⟩])) :
    (Prog.call c next).Throughout (Conduct call) past :=
  Prog.throughout_call (.acts c next g line hcall hc ha hands) h

theorem haltWith_conduct {code : String} (hcall : call = .line g line) (ha : Acting past g) (hk : Closes call k)
    (f : Halted → Leaves) (hf : ∀ halted, (f halted).kill = halted.1) :
    (haltWith code >>= fun halted => k (f halted)).Throughout (Conduct call) past := by
  refine acts_conduct hcall ha rfl (fun halted h hh => ?_) fun halted => hk.conduct _ _
  exact hk.hands _ h ((hf halted).trans hh)

theorem handsOn_of_none (h : ∀ r, taken c r = none) : HandsOn c next := by
  intro r g hg
  rw [h r] at hg
  cases hg

variable (outside : Outside)

variable (kind : String)

theorem settle_conduct (id : Option String) (event : Json)
    (saved : Except String Unit) (unsubscribed : Bool) (hcall : call = .line g line) (ha : Acting past g)
    (hk : Closes call k) : (settle outside kind id event saved unsubscribed >>= k).Throughout (Conduct call) past := by
  cases saved with
  | error code => exact haltWith_conduct hcall ha hk Leaves.halts fun _ => rfl
  | ok _ =>
    refine acts_conduct hcall ha rfl (handsOn_of_none fun _ => rfl) fun _ => ?_
    cases unsubscribed with
    | false => exact hk.conduct _ _
    | true => exact plain_conduct rfl fun _ => hk.conduct _

theorem handleDevice_conduct (event : Json) (hcall : call = .line g line)
    (ha : Acting past g) (hk : Closes call k) :
    (handleDevice outside kind event >>= k).Throughout (Conduct call) past := by
  rw [handleDevice]
  by_cases hkind : kind = "device.revoked"
  · rw [if_pos hkind]
    cases (event.get "deviceId").asStr with
    | none => exact settle_conduct outside kind none event _ false hcall ha hk
    | some id =>
      refine acts_conduct hcall ha rfl (handsOn_of_none fun _ => rfl) fun saved => ?_
      have ha := ha.snoc (a := ⟨.removeDevice id, saved⟩) rfl
      match saved with
      | .error code => exact settle_conduct outside kind (some id) event (.error code) false hcall ha hk
      | .ok () =>
        refine acts_conduct hcall ha rfl (handsOn_of_none fun _ => rfl) fun unsubscribed => ?_
        exact settle_conduct outside kind (some id) event (.ok ()) unsubscribed hcall (ha.snoc rfl) hk
  · rw [if_neg hkind]
    cases deviceId (event.get "device") with
    | none => exact settle_conduct outside kind none event _ false hcall ha hk
    | some id =>
      refine acts_conduct hcall ha rfl (handsOn_of_none fun _ => rfl) fun saved => ?_
      exact settle_conduct outside kind (some id) event saved false hcall (ha.snoc rfl) hk

variable (event : Json)

theorem handleDeferred_conduct (hcall : call = .line g line) (ha : Acting past g) (hk : Closes call k) :
    (handleDeferred event >>= k).Throughout (Conduct call) past := by
  refine Prog.throughout_call (.plain _ _ rfl) fun found => ?_
  have ha := ha.snoc (a := ⟨.deferred event, found⟩) rfl
  match found with
  | none =>
    refine acts_conduct hcall ha rfl (handsOn_of_none fun _ => rfl) fun _ => ?_
    exact hk.conduct _ _
  | some frame =>
    refine acts_conduct hcall ha rfl (handsOn_of_none fun _ => rfl) fun saved => ?_
    have ha := ha.snoc (a := ⟨.applyFrame frame, saved⟩) rfl
    match saved with
    | .error code =>
      exact haltWith_conduct hcall ha hk (fun halted => ⟨[statusEvent halted.2, event], halted.1, false⟩) fun _ => rfl
    | .ok () =>
      refine acts_conduct hcall ha rfl (handsOn_of_none fun _ => rfl) fun _ => ?_
      exact hk.conduct _ _

theorem settleSubscription_conduct (changed : Bool) (hk : Closes call k) :
    ∀ past, (settleSubscription event changed >>= k).Throughout (Conduct call) past := by
  have hack : ∀ outgoing past, (acknowledge event changed outgoing >>= k).Throughout (Conduct call) past := by
    intro outgoing past
    rw [acknowledge]
    cases (event.get "requestId").asU64 with
    | none => exact hk.conduct _ _
    | some request => exact plain_conduct rfl fun _ => hk.conduct _
  intro past
  cases changed with
  | false => exact hack _ past
  | true => exact plain_conduct rfl fun _ _ => plain_conduct rfl fun overview => hack [overview]

theorem handleSubscription_conduct (hcall : call = .line g line) (ha : Acting past g)
    (hk : Closes call k) : (handleSubscription event >>= k).Throughout (Conduct call) past := by
  refine Prog.throughout_call (.plain _ _ rfl) fun known => ?_
  have ha := ha.snoc (a := ⟨.known _, known⟩) rfl
  cases known with
  | false => exact settleSubscription_conduct event false hk _
  | true =>
    by_cases hnull : (event.get "subscription").isNull = true
    · rw [if_pos hnull]
      cases (event.get "endpointId").asStr with
      | none => exact settleSubscription_conduct event false hk _
      | some endpoint =>
        refine acts_conduct hcall ha rfl (handsOn_of_none fun _ => rfl) fun changed => ?_
        exact settleSubscription_conduct event changed hk _
    · rw [if_neg hnull]
      refine acts_conduct hcall ha rfl (handsOn_of_none fun _ => rfl) fun changed => ?_
      exact settleSubscription_conduct event changed hk _

theorem handleOther_conduct (event : Json) (hcall : call = .line g line) (ha : Acting past g)
    (hk : Closes call k) : (handleOther kind event >>= k).Throughout (Conduct call) past := by
  rw [handleOther]
  split
  · refine acts_conduct hcall ha rfl (fun halted h hh => ?_) fun halted => ?_
    · match halted with
      | none => cases hh
      | some halted => exact hk.hands _ h hh
    · match halted with
      | none => exact hk.conduct _ _
      | some halted => exact hk.conduct _ _
  · split
    · exact acts_conduct hcall ha rfl (handsOn_of_none fun _ => rfl) fun _ => hk.conduct _ _
    · split
      · exact acts_conduct hcall ha rfl (handsOn_of_none fun _ => rfl) fun _ => hk.conduct _ _
      · split
        · exact acts_conduct hcall ha rfl (handsOn_of_none fun _ => rfl) fun _ => hk.conduct _ _
        · split
          · exact acts_conduct hcall ha rfl (handsOn_of_none fun _ => rfl) fun _ => hk.conduct _ _
          · exact hk.conduct _ _

theorem handleEvent_conduct (event : Json) (hcall : call = .line g line) (ha : Acting past g)
    (hk : Closes call k) : (handleEvent outside event >>= k).Throughout (Conduct call) past := by
  rw [handleEvent]
  split
  · exact handleDevice_conduct outside _ event hcall ha hk
  · split
    · exact handleDeferred_conduct event hcall ha hk
    · split
      · exact handleSubscription_conduct event hcall ha hk
      · split
        · exact hk.conduct _ _
        · exact handleOther_conduct _ event hcall ha hk

theorem closes_onEvent (call : Call) (g : Nat) (k : Leaves → M Json)
    (hk : k = fun leaves => tell .unlockStore >>= fun _ => emitAll leaves.outgoing >>= fun _ =>
      killAfterClosing leaves.kill >>= fun _ =>
        if leaves.expiring then tell (.spawnTask (.shutdownAfterClosing g)) >>= fun _ => pure .null else pure .null) :
    Closes call k := by
  subst hk
  refine ⟨fun leaves past => plain_conduct rfl fun _ => emitAll_conduct (killAfterClosing_conduct (fun past => ?_) _) _,
    fun leaves h hh => .inr fun _ => emitAll_owes ?_ _⟩
  · split
    · exact plain_conduct rfl fun _ _ => trivial
    · trivial
  · have := killAfterClosing_owes (fun _ => if leaves.expiring then
      tell (.spawnTask (.shutdownAfterClosing g)) >>= fun _ => pure .null else pure .null) h
    rw [← hh] at this
    exact this

/-- **An event acts between its check and its end.** -/
theorem onEvent_conduct (event : Json) (hcall : call = .line g line) :
    (onEvent outside g event).Throughout (Conduct call) [] := by
  refine Prog.throughout_call (.plain _ _ rfl) fun _ => Prog.throughout_call (.hears g line _ hcall) fun heard => ?_
  cases heard with
  | false => exact plain_conduct rfl fun _ _ => trivial
  | true =>
    refine handleEvent_conduct outside event hcall ⟨?_, fun a ha => ?_⟩ (closes_onEvent call g _ rfl)
    · exact mem_concat_self
    · rcases mem_append.1 ha with ha | ha
      · rw [mem_singleton.1 ha]
        rfl
      · rw [mem_singleton.1 ha]
        rfl

/-! ## The other callers -/

theorem called_conduct (hc : c.called = true) (hcall : ∀ g event, call ≠ .line g event) (hands : HandsOn c next)
    (h : ∀ r past, (next r).Throughout (Conduct call) past) : (Prog.call c next).Throughout (Conduct call) past :=
  Prog.throughout_call (.called c next hc hcall hands) fun r => h r _

theorem start_conduct (launch : Launch) (hcall : call = .start launch) :
    (start launch).Throughout (Conduct call) [] := by
  have hline : ∀ g event, call ≠ .line g event := fun g event h => by
    rw [hcall] at h
    cases h
  refine Prog.throughout_call (.decides launch _ hcall fun e => ?_) fun decided => ?_
  · refine .inr fun _ => .inr fun spawned => ?_
    cases spawned <;> exact .inl rfl
  · match decided with
    | .error code => trivial
    | .ok expected =>
      refine Prog.throughout_call (.plain _ _ rfl) fun _ => Prog.throughout_call (.plain _ _ rfl) fun spawned => ?_
      match spawned with
      | .error code =>
        refine called_conduct rfl hline (handsOn_of_none fun _ => rfl) fun current past => ?_
        cases current with
        | true => exact plain_conduct rfl fun _ _ => trivial
        | false => trivial
      | .ok devices =>
        refine Prog.throughout_call (.records launch.init expected devices _ hline ?_) fun recorded => ?_
        · exact mem_append_left _ (mem_append_left _ mem_concat_self)
        · match recorded with
          | .error code => trivial
          | .ok generation => exact plain_conduct rfl fun _ _ => plain_conduct rfl fun _ _ => trivial

theorem runTask_conduct (task : Task) (hcall : call = .task task) : (runTask task).Throughout (Conduct call) [] := by
  have hline : ∀ g event, call ≠ .line g event := fun g event h => by
    rw [hcall] at h
    cases h
  cases task with
  | killAfterClosing g =>
    refine Prog.throughout_call (.plain _ _ rfl) fun _ => Prog.throughout_call (.plain _ _ rfl) fun _ => ?_
    refine Prog.throughout_call (.kills g _ (.inl ⟨hcall, ?_⟩)) fun _ => trivial
    exact mem_concat_self
  | shutdownAfterClosing g =>
    refine Prog.throughout_call (.plain _ _ rfl) fun _ => Prog.throughout_call (.plain _ _ rfl) fun _ => ?_
    refine Prog.throughout_call (.shuts g _ hcall ?_) fun _ => trivial
    exact mem_concat_self
  | watchdog g =>
    refine plain_conduct rfl fun _ past => called_conduct rfl hline (fun halted h hh => ?_) fun halted past => ?_
    · match halted with
      | none => cases hh
      | some halted => exact publishHalted_owes _ hh
    · exact publishHalted_conduct (k := fun _ => pure .null) (fun _ => trivial) halted past

theorem onExit_conduct (hcall : call = .exit g) : (onExit g).Throughout (Conduct call) [] := by
  refine plain_conduct rfl fun _ past => Prog.throughout_call (.exits g _ hcall) fun exited => ?_
  match exited with
  | none => trivial
  | some (status, stopped) =>
    refine plain_conduct rfl fun _ past => ?_
    cases stopped with
    | true => exact plain_conduct rfl fun _ _ => trivial
    | false => trivial

theorem stop_conduct (hcall : call = .stop) : stop.Throughout (Conduct call) [] := by
  have hline : ∀ g event, call ≠ .line g event := fun g event h => by
    rw [hcall] at h
    cases h
  refine Prog.throughout_call (.called _ _ rfl hline (handsOn_of_none fun _ => rfl)) fun begun => ?_
  match begun with
  | none => exact plain_conduct rfl fun _ _ => trivial
  | some (g, kill) =>
    refine Prog.throughout_call (.plain _ _ rfl) fun _ => Prog.throughout_call (.plain _ _ rfl) fun exited => ?_
    cases exited with
    | true => trivial
    | false =>
      cases kill with
      | false => exact plain_conduct rfl fun _ _ => trivial
      | true =>
        refine Prog.throughout_call (.kills g _ (.inr ⟨hcall, ?_⟩)) fun _ => plain_conduct rfl fun _ _ => trivial
        exact mem_append_left _ (mem_append_left _ mem_concat_self)

theorem fail_conduct (code : String) (hline : ∀ g event, call ≠ .line g event) :
    (fail code).Throughout (Conduct call) [] := by
  refine called_conduct rfl hline (fun halted h hh => ?_) fun halted past => ?_
  · match halted with
    | none => cases hh
    | some halted => exact publishHalted_owes _ hh
  · exact publishHalted_conduct (k := fun _ => pure .null) (fun _ => trivial) halted past

theorem finishTurn_conduct (result : Except String Json) (hline : ∀ g event, call ≠ .line g event) :
    ∀ past, (finishTurn result).Throughout (Conduct call) past :=
  fun _ => called_conduct rfl hline (handsOn_of_none fun _ => rfl) fun _ _ => trivial

theorem finishTurn_owes (result : Except String Json) : (finishTurn result).Owes (· = .unlockCommands) := .inl rfl

theorem publishHalted_then {k : Unit → M Json} (hk : (k ()).Owes p) (halted : Option Halted) :
    (publishHalted halted >>= k).Owes p := by
  cases halted with
  | none => exact hk
  | some halted =>
    refine .inr fun _ => ?_
    obtain ⟨kill, status⟩ := halted
    cases kill with
    | none => exact hk
    | some g => exact .inr fun _ => hk

theorem request_conduct (command : Json) (want : Want) (hcall : call = .request command want) :
    (request command want).Throughout (Conduct call) [] := by
  have hline : ∀ g event, call ≠ .line g event := fun g event h => by
    rw [hcall] at h
    cases h
  refine Prog.throughout_call (.turns command want _ hcall (.inr fun sent => ?_)) fun _ => ?_
  · match sent with
    | .error code => exact finishTurn_owes _
    | .ok (slot, g) =>
      refine .inr fun reply => ?_
      match reply with
      | some (some result) => exact finishTurn_owes _
      | some none => exact finishTurn_owes _
      | none => exact .inr fun halted => publishHalted_then (finishTurn_owes _) halted
  · refine called_conduct rfl hline (handsOn_of_none fun _ => rfl) fun sent past => ?_
    match sent with
    | .error code => exact finishTurn_conduct _ hline past
    | .ok (slot, g) =>
      refine plain_conduct rfl fun reply past => ?_
      match reply with
      | some (some result) => exact finishTurn_conduct _ hline past
      | some none => exact finishTurn_conduct _ hline past
      | none =>
        refine called_conduct rfl hline (fun halted h hh => ?_) fun halted past => ?_
        · match halted with
          | none => cases hh
          | some halted => exact publishHalted_owes _ hh
        · exact publishHalted_conduct (finishTurn_conduct _ hline) halted past

theorem peers_conduct (hline : ∀ g event, call ≠ .line g event) : peers.Throughout (Conduct call) [] := by
  refine called_conduct rfl hline (handsOn_of_none fun _ => rfl) fun sent past => ?_
  match sent with
  | .error code => trivial
  | .ok (i, slot) =>
    refine plain_conduct rfl fun answer past => ?_
    refine called_conduct rfl hline (handsOn_of_none fun _ => rfl) fun _ past => ?_
    match answer with
    | none => trivial
    | some none => trivial
    | some (some snapshot) => trivial

theorem editStopped_conduct (command : Json) (hline : ∀ g event, call ≠ .line g event) :
    (editStopped command).Throughout (Conduct call) [] := by
  have unlock : ∀ (r : Except String Json) past,
      (tell .unlockStore >>= fun _ => (Prog.done r : M Json)).Throughout (Conduct call) past :=
    fun _ _ => plain_conduct rfl fun _ _ => trivial
  refine plain_conduct rfl fun _ _ => plain_conduct rfl fun free past => ?_
  cases free with
  | false => exact unlock _ past
  | true =>
    refine called_conduct rfl hline (handsOn_of_none fun _ => rfl) fun edited past => ?_
    match edited with
    | .error code => exact unlock _ past
    | .ok () =>
      split
      · refine called_conduct rfl hline (handsOn_of_none fun _ => rfl) fun forgot past => ?_
        cases forgot with
        | false => exact unlock _ past
        | true => exact plain_conduct rfl fun _ _ => plain_conduct rfl fun _ => unlock _
      · exact unlock _ past

/-- **Every caller conducts itself so.** -/
theorem program_conduct (call : Call) : (call.program outside).Throughout (Conduct call) [] := by
  cases call with
  | start launch => exact start_conduct launch rfl
  | task task => exact runTask_conduct task rfl
  | line g event => exact onEvent_conduct outside event rfl
  | exit g => exact onExit_conduct rfl
  | stop => exact stop_conduct rfl
  | fail code => exact fail_conduct code fun _ _ h => by cases h
  | clearFailure =>
    refine called_conduct rfl nofun (handsOn_of_none fun _ => rfl) fun cleared past => ?_
    cases cleared with
    | true => exact plain_conduct rfl fun _ _ => trivial
    | false => trivial
  | request command want => exact request_conduct command want rfl
  | peers => exact peers_conduct fun _ _ h => by cases h
  | notify frame => exact plain_conduct rfl fun _ _ => trivial
  | editStopped command => exact editStopped_conduct command nofun

end Conduct

end Companion
end Yuzora
