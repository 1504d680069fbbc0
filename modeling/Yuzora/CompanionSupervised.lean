import Yuzora.CompanionRuns
/-!
# CompanionSupervised — what holds of the gateway's processes

One process at a time, nothing heard of one that was ended, no kill before the closing, one result for each caller, and
a status that says what there is.
-/
namespace Yuzora
namespace Companion

open List
open Pool (history Owed)

/-! ## Starts -/

/-- Nothing was recorded since this start was decided, or it is cancelled. -/
def Cancelled (e : Nat) (c : Control) : Prop := e < c.generation ∨ e = c.generation ∧ c.recorded = false

variable {a : Asked Command Reply} {e : Nat} {s : Shared}

theorem Moves.cancelled {c d : Control} (h : Moves a c d) (he : Cancelled e c) : Cancelled e d := by
  rcases he with hlt | ⟨rfl, hn⟩
  · refine .inl ?_
    cases h with
    | still | decided | startFailed | halted | readied | stopped | cleared => exact hlt
    | recorded | absent | exited => exact Nat.lt_succ_of_lt hlt
  · cases h with
    | still | decided | startFailed | halted | cleared => exact .inr ⟨rfl, hn⟩
    | recorded | absent | exited => exact .inl (Nat.lt_succ_self _)
    | readied _ _ _ hr | stopped _ _ hr =>
      rw [hn] at hr
      cases hr

theorem decideStart_cancelled (h : (decideStart s).1 = .ok e) : Cancelled e (decideStart s).2.control := by
  unfold decideStart at h ⊢
  split at h
  · cases h
  · rename_i hc
    rw [if_neg hc]
    cases h
    simp only [Bool.or_eq_true, not_or, Bool.not_eq_true] at hc
    exact .inr ⟨rfl, hc.1.1⟩

variable {l : List Event} {t : Moment}

/-- **A start that was decided is cancelled by whatever else is recorded.** -/
theorem runs_cancelled {outside : Outside} (h : (supervisor outside).Runs s l t) {id : Nat}
    (he : ⟨.decideStart, (.ok e : Except String Nat)⟩ ∈ history id l) : Cancelled e t.shared.control := by
  refine Trace.history (P := fun (l : List Event) (t : Moment) =>
    ⟨.decideStart, (.ok e : Except String Nat)⟩ ∈ history id l → Cancelled e t.shared.control) ?_
    (fun l u m v hrun ih hst he => ?_) h he
  · rintro _ rfl he
    cases he
  · rw [Pool.history_snoc, mem_append] at he
    rcases he with he | he
    · rcases step_control hst with hv | ⟨_, _, a, -, hmoves⟩
      · rw [hv]
        exact ih he
      · exact hmoves.cancelled (ih he)
    · obtain ⟨call, rfl⟩ := Move.asked?_eq_some.1 (Option.mem_toList.1 he)
      obtain ⟨chance, next, -, hexec, -⟩ := hst.own_inv
      have hv : (decideStart u.shared).2 = v.shared := congrArg Prod.snd hexec
      rw [← hv]
      exact decideStart_cancelled (congrArg Prod.fst hexec)

variable {g : Nat}

theorem record_ok {init : Json} {expected : Nat} {devices : Devices}
    (h : (record init expected devices s).1 = .ok g) : s.inner.generation = expected := by
  unfold record at h
  split at h
  · cases h
  · rename_i hc
    rw [not_or, not_not] at hc
    exact hc.1

/-! ## The status -/

def Call.starts : Call → Prop
  | .start _ => True
  | _ => False

def Outcomes (c : Control) : Prop :=
  ∀ status, c.terminal = some status → status = .disabled ∨ status.isFailed = true

/-- **Where no process is recorded, the status says so**, or a start will settle it. -/
structure Rests (t : Moment) : Prop where
  outcomes : Outcomes t.shared.control
  rests : t.shared.control.recorded = false → t.shared.control.status = .disabled ∨
    t.shared.control.status.isFailed = true ∨
      t.shared.control.status = .starting ∧ Owed Call.starts (Command.settles t.shared.control.generation) t

variable {c : Command} {u v : Moment}

theorem settles_gone (outside : Outside) (chance : Chance)
    (h : Command.settles s.control.generation c) (hs : s.control.status = .starting) :
    (perform outside chance s c).2.control.recorded = true ∨
      (perform outside chance s c).2.control.status.isFailed = true := by
  cases c with
  | startFailed e code =>
    obtain rfl : e = s.inner.generation := h
    refine .inr ?_
    change (startFailed s.inner.generation code s).2.inner.status.isFailed = true
    unfold startFailed
    rw [if_pos ⟨rfl, hs⟩]
    rfl
  | record init e devices =>
    obtain rfl : e = s.inner.generation := h
    refine .inl ?_
    change (record init s.inner.generation devices s).2.inner.process.isSome = true
    unfold record
    rw [if_neg]
    · rfl
    · rintro (hne | hne)
      · exact hne rfl
      · exact hne hs
  | _ => exact absurd h id

theorem Moves.outcomes {c d : Control} (h : Moves a c d) (hc : Outcomes c) : Outcomes d := by
  intro status hs
  cases h with
  | still | decided | startFailed | readied | absent | cleared => exact hc status hs
  | recorded | exited => cases hs
  | halted =>
    cases hs
    exact .inr rfl
  | stopped =>
    cases hs
    exact .inl rfl

theorem Rests.still {outside : Outside} {m : Move Command Reply Call} (h : Rests u)
    (hst : (supervisor outside).Step u m v) (hv : v.shared.control = u.shared.control) : Rests v := by
  refine ⟨hv ▸ h.outcomes, fun hr => ?_⟩
  rw [hv] at hr ⊢
  refine (h.rests hr).imp_right (Or.imp_right fun ⟨hs, ho⟩ => ⟨hs, ?_⟩)
  by_cases hsettles : ∃ id call a, m = .own id call a ∧ Command.settles u.shared.control.generation a.command
  · obtain ⟨id, call, a, rfl, hset⟩ := hsettles
    obtain ⟨chance, next, -, hexec, -⟩ := hst.own_inv
    have hgone := settles_gone outside chance hset hs
    rw [show (perform outside chance u.shared a.command).2 = v.shared from congrArg Prod.snd hexec, hv] at hgone
    rcases hgone with hgone | hgone
    · rw [hr] at hgone
      cases hgone
    · rw [hs] at hgone
      cases hgone
  · exact hst.owed ho fun id call a hm hset => hsettles ⟨id, call, a, hm, hset⟩

theorem runs_rests {outside : Outside} (h : Runs outside l t) : Rests t := by
  obtain ⟨disk, push, hrun⟩ := h.run
  refine Trace.history (P := fun _ t => Rests t) ?_ (fun l u m v hrun ih hst => ?_) hrun
  · rintro _ rfl
    refine ⟨fun status hs => ?_, fun _ => .inl rfl⟩
    cases hs
  by_cases hv : v.shared.control = u.shared.control
  · exact ih.still hst hv
  obtain ⟨id, call, a, rfl, hmoves⟩ := (step_control hst).resolve_left hv
  refine ⟨hmoves.outcomes ih.outcomes, fun hr => ?_⟩
  have hterminal := ih.outcomes
  generalize hd : v.shared.control = d at hmoves hv hr
  cases hmoves with
  | still => exact absurd rfl hv
  | decided hn =>
    refine .inr (.inr ⟨rfl, ?_⟩)
    obtain ⟨next, hnext, hconduct⟩ := own_conduct hrun hst
    cases hconduct with
    | decides launch _ hcall howes => exact ⟨id, call, _, hnext, hcall ▸ trivial, howes _⟩
    | plain _ _ hp | acts _ _ _ _ _ hp | called _ _ hp => cases hp
  | startFailed | halted => exact .inr (.inl rfl)
  | recorded => cases hr
  | readied _ _ _ hrec | stopped _ _ hrec =>
    rw [hr] at hrec
    cases hrec
  | absent | cleared => exact .inl rfl
  | exited status _ _ hs =>
    rcases hs with hs | ⟨-, hs⟩
    · exact (hterminal status hs).imp_right .inl
    · exact hs.imp_right .inl

/-! ## Turns -/

def Call.requests : Call → Prop
  | .request _ _ => True
  | _ => False

section Commands

variable (s : Shared)

theorem answer_commands (result : Except String Json) : (answer result s).commands = s.commands := by
  rw [answer]
  split <;> rfl

theorem dropPending_commands : (dropPending s).commands = s.commands := by
  rw [dropPending]
  split <;> rfl

theorem halted_commands (code : String) : (halted code s).2.commands = s.commands := by
  refine Eq.trans ?_ (answer_commands s (.error code))
  rw [halted, halt]
  dsimp only
  split <;> rfl

theorem resolve_commands (test : Want → Bool) (result : Except String Json) :
    (resolve test result s).commands = s.commands := by
  rw [resolve]
  split
  · exact answer_commands s result
  · rfl

theorem notify_commands (frame : Json) : (notify frame s).commands = s.commands := by
  rw [notify]
  split <;> rfl

theorem storeChange_commands (change : Devices → Except String Devices) :
    (storeChange change s).2.commands = s.commands := by
  rw [storeChange]
  split
  · rfl
  · split <;> rfl

theorem becomeReady_commands (event : Json) : (becomeReady event s).2.commands = s.commands := by
  unfold becomeReady
  split
  · dsimp only
    by_cases hport : (s.inner.port.any fun expected =>
        decide (expected ≠ (((event.get "ports").get "loopback").asU64).getD 0)) = true
    · rw [if_pos hport]
      exact halted_commands s _
    · rw [if_neg hport]
  · rfl

theorem timeOut_commands (generation : Nat) : (timeOut generation s).2.commands = s.commands := by
  unfold timeOut
  dsimp only
  split
  · exact (halted_commands _ _).trans (dropPending_commands s)
  · exact dropPending_commands s

theorem handleExit_commands (generation : Nat) : (handleExit generation s).2.commands = s.commands := by
  unfold handleExit
  split
  · rfl
  · have := answer_commands { s with inner := { s.inner with
      generation := s.inner.generation + 1, process := none, «until» := none } } (.error "companion-exited")
    exact this

theorem sendRequest_commands (inputOpen : Bool) (request : Json) (want : Want) :
    (sendRequest inputOpen request want s).2.commands = s.commands := by
  unfold sendRequest
  split
  · rfl
  · have := dropPending_commands (send s.inner.generation request s)
    exact this

/-- **Turns begin and end by their own commands.** -/
theorem perform_commands (outside : Outside) (chance : Chance) (hl : c ≠ .lockCommands)
    (hu : c ≠ .unlockCommands) : (perform outside chance s c).2.commands = s.commands := by
  cases c with
  | lockCommands => exact absurd rfl hl
  | unlockCommands => exact absurd rfl hu
  | decideStart =>
    rw [perform]
    unfold decideStart
    split <;> rfl
  | startFailed expected code =>
    rw [perform]
    unfold startFailed
    split <;> rfl
  | record init expected devices =>
    rw [perform]
    unfold record
    split <;> rfl
  | watchdogFires generation =>
    rw [perform]
    unfold watchdogFires
    split
    · rfl
    · exact halted_commands s _
  | failLive code =>
    rw [perform]
    unfold failLive
    split
    · rfl
    · exact halted_commands s code
  | clearStale =>
    rw [perform]
    unfold clearStale
    split <;> rfl
  | beginStop =>
    rw [perform]
    unfold beginStop
    split <;> rfl
  | halt code => exact halted_commands s code
  | ready event => exact becomeReady_commands s event
  | handleExit generation => exact handleExit_commands s generation
  | timeOut generation => exact timeOut_commands s generation
  | sendRequest request want => exact sendRequest_commands s chance.inputOpen request want
  | sendPeers =>
    rw [perform]
    unfold sendPeers
    dsimp only
    split <;> rfl
  | storeDevice device | removeDevice id | applyFrame frame => exact storeChange_commands s _
  | resolve test event => exact resolve_commands s test (.ok event)
  | snapshot event =>
    rw [perform, peersSnapshot]
    split
    · rfl
    · split <;> rfl
  | failure code =>
    have := answer_commands { s with inner := { s.inner with
      expired := s.inner.expired || code = "policy-expired" } } (.error code)
    exact this
  | notify frame => exact notify_commands s frame
  | notifyDevices => exact notify_commands s _
  | removePeer i =>
    rw [perform, removePeer]
    split <;> rfl
  | sendShutdown generation =>
    rw [perform]
    split <;> rfl
  | editFile frame =>
    rw [perform]
    split
    · rfl
    · split <;> rfl
  | _ => rfl

end Commands

/-- **A turn that was taken has a request that ends it.** -/
theorem runs_turns {outside : Outside} (h : Runs outside l t)
    (hc : t.shared.commands = true) : Owed Call.requests (· = .unlockCommands) t := by
  obtain ⟨disk, push, hrun⟩ := h.run
  refine Trace.history (P := fun (_ : List Event) (t : Moment) => t.shared.commands = true →
    Owed Call.requests (· = .unlockCommands) t) ?_ (fun l u m v hrun ih hst hc => ?_) hrun hc
  · rintro _ rfl hc
    cases hc
  · rcases hst.shared_cases with ⟨id, call, a, chance, rfl, hexec⟩ | ⟨hm, hv⟩
    · have hv : (perform outside chance u.shared a.command).2 = v.shared := congrArg Prod.snd hexec
      by_cases hl : a.command = .lockCommands
      · obtain ⟨next, hnext, hconduct⟩ := own_conduct hrun hst
        obtain ⟨c, r⟩ := a
        obtain rfl := hl
        cases hconduct with
        | turns command want _ hcall howes => exact ⟨id, call, _, hnext, hcall ▸ trivial, howes⟩
        | plain _ _ hp | acts _ _ _ _ _ hp | called _ _ hp => cases hp
      · by_cases hu : a.command = .unlockCommands
        · rw [← hv, hu] at hc
          cases hc
        · rw [← hv, perform_commands u.shared outside chance hl hu] at hc
          refine hst.owed (ih hc) fun id' call' a' heq => ?_
          cases heq
          exact hu
    · have hsame : u.shared.commands = true := by
        rcases hv with hv | ⟨wind, hv⟩
        · rw [← hv, hc]
        · rw [hv] at hc
          cases wind <;> exact hc
      exact hst.owed (ih hsame) fun id call a heq => absurd heq (hm id call a)

/-! ## Silence -/

/-- **Nothing that a process may change was changed**: the files, the status, and who waits for what. -/
structure Silent (s t : Shared) : Prop where
  disk : t.disk = s.disk
  store : t.store = s.store
  push : t.push = s.push
  status : t.inner.status = s.inner.status
  channels : t.channels = s.channels

theorem Silent.refl (s : Shared) : Silent s s := ⟨rfl, rfl, rfl, rfl, rfl⟩

theorem notify_silent (frame : Json) (s : Shared) : Silent s (notify frame s) := by
  rw [notify]
  split
  · exact ⟨rfl, rfl, rfl, rfl, rfl⟩
  · exact .refl s

theorem plain_silent (outside : Outside) (chance : Chance) (s : Shared) (h : c.plain = true) :
    Silent s (perform outside chance s c).2 := by
  cases c with
  | notify frame => exact notify_silent frame s
  | notifyDevices => exact notify_silent _ s
  | spawnChild | known | deferred | write | overview | waitExited | waitReply | waitPeers | idle | beginTask | spawnTask
  | closing | lockStore | unlockStore | emit | markExited | stopped => exact ⟨rfl, rfl, rfl, rfl, rfl⟩
  | _ => cases h

/-! ## Runs -/

/-- **One result for each caller.** -/
structure Answered (l : List Event) (t : Moment) : Prop where
  /-- Who waits has a slot of its own, and no answer yet. -/
  waiting : Waiting t.shared.channels
  /-- A slot is handed out once. -/
  once : ∀ past x later, l = past ++ x :: later → ∀ id call a k, x.label = .own id call a →
    handed a.command a.reply = some k → ∀ id', ∀ b ∈ history id' past, handed b.command b.reply ≠ some k
  /-- Whoever was given a slot waits for it, or has its answer in it; what it read there stays. -/
  attests : ∀ id, ∀ a ∈ history id l, Attests t.shared.channels a
  requests : ∀ id command want r, t.threads id = some ⟨.request command want, .done r⟩ → Receives (history id l) r
  peers : ∀ id r, t.threads id = some ⟨.peers, .done r⟩ → Learns (history id l) r
  /-- Requests wait for one that ends. -/
  turns : t.shared.commands = true → Owed Call.requests (· = .unlockCommands) t

/-- **What holds of the gateway's processes.** -/
structure Supervised (l : List Event) (t : Moment) : Prop where
  /-- A process is recorded where there is none. -/
  sole : ∀ past (x : Event) later, l = past ++ x :: later → ∀ id call init expected devices g,
    x.label = .own id call ⟨.record init expected devices, (.ok g : Except String Nat)⟩ →
      x.src.shared.inner.process = none
  /-- A line of a process that was halted, or whose exit was handled, changes nothing. -/
  silent : ∀ past (x : Event) later, l = past ++ x :: later → ∀ g, Ended g past → ∀ id event a,
    x.label = .own id (.line g event) a → Silent x.src.shared x.dst.shared
  /-- A kill comes after the closing, or from the stop that took the handle itself. -/
  kills : ∀ past x later, l = past ++ x :: later → ∀ id call g, x.label = .own id call ⟨.kill g, ()⟩ →
    ⟨.closing, ()⟩ ∈ history id past ∨
      call = .stop ∧ ⟨.beginStop, (some (g, true) : Option (Nat × Bool))⟩ ∈ history id past
  shuts : ∀ past x later, l = past ++ x :: later → ∀ id call g, x.label = .own id call ⟨.sendShutdown g, ()⟩ →
    ⟨.closing, ()⟩ ∈ history id past
  /-- A handle that a halt takes goes to a task that closes first. -/
  hands : ∀ past (x : Event) later, l = past ++ x :: later → ∀ id call a g, x.label = .own id call a →
    taken a.command a.reply = some g → ∃ rest, x.dst.threads id = some ⟨call, rest⟩ ∧
      rest.Owes fun c => c = .spawnTask (.killAfterClosing g)
  answered : Answered l t
  /-- Where no process is recorded and nobody starts one, the status is at rest. -/
  rests : t.shared.inner.process = none →
    (∀ id call rest, t.threads id = some ⟨call, rest⟩ → call.starts → ¬ rest.Goes) →
      t.shared.inner.status = .disabled ∨ t.shared.inner.status.isFailed = true

theorem runs_answered {outside : Outside} (h : Runs outside l t) : Answered l t := by
  obtain ⟨disk, push, hrun⟩ := h.run
  have hholds := runs_holds h
  refine ⟨hholds.waiting, fun past x later hl id call a k hx hk id' b hb hbk => ?_, hholds.attests,
    fun id command want r hr => ?_, fun id r hr => ?_, runs_turns h⟩
  · obtain ⟨hpast, hst⟩ := Trace.split hrun hl
    rw [hx] at hst
    obtain ⟨chance, next, -, hexec, -⟩ := hst.own_inv
    have hreply : (perform outside chance x.src.shared a.command).1 = a.reply := congrArg Prod.fst hexec
    rw [← hreply] at hk
    obtain rfl := perform_handed outside chance x.src.shared a.command hk
    have hbefore := runs_holds ⟨⟨disk, push, hpast⟩, fun y hy => h.unblocked y (hl ▸ mem_append_left _ hy)⟩
    exact absurd ((hbefore.attests id' b hb).handed _ hbk) (lt_irrefl _)
  · exact (hrun.follows id).along _ _ hr _ _ (request_along command want)
  · exact (hrun.follows id).along _ _ hr _ _ peers_along

theorem runs_silent {outside : Outside} (h : Runs outside l u) (hl : AllUndisturbed l)
    {id : Nat} (he : Ended g l) {event : Json}
    (hst : (supervisor outside).Step u (.own id (.line g event) a) v) : Silent u.shared v.shared := by
  obtain ⟨disk, push, hrun⟩ := h.run
  obtain ⟨chance, next, hu, hexec, -⟩ := hst.own_inv
  have hv : (perform outside chance u.shared a.command).2 = v.shared := congrArg Prod.snd hexec
  have hconduct := runs_conduct hrun hu
  rw [← hv]
  generalize a.command = c at next hconduct
  cases hconduct with
  | plain _ _ hp => exact plain_silent outside chance u.shared hp
  | hears => exact .refl _
  | acts _ _ g' event' hcall _ hacting _ =>
    cases hcall
    exact absurd he (runs_acting h hl hacting)
  | decides _ _ hcall | shuts _ _ hcall | exits _ _ hcall | turns _ _ _ hcall => cases hcall
  | records _ _ _ _ hline | called _ _ _ hline => exact absurd rfl (hline _ _)
  | kills _ _ hcall => rcases hcall with ⟨hcall, -⟩ | ⟨hcall, -⟩ <;> cases hcall

/-- **The supervisor keeps to this in every run that is not disturbed.** -/
theorem gateway_supervised {outside : Outside} {l : List Event} {t : Moment} (h : Runs outside l t)
    (hl : AllUndisturbed l) : Supervised l t := by
  obtain ⟨disk, push, hrun⟩ := h.run
  have hbefore : ∀ {past x later}, l = past ++ x :: later → Runs outside past x.src ∧ AllUndisturbed past := by
    intro past x later hp
    refine ⟨⟨⟨disk, push, (Trace.split hrun hp).1⟩, fun y hy => h.unblocked y (hp ▸ mem_append_left _ hy)⟩,
      fun past' y later' hp' => hl past' y (later' ++ x :: later) ?_⟩
    rw [hp, hp', append_assoc, cons_append]
  refine ⟨fun past x later hp id call init expected devices g hx => ?_, fun past x later hp g he id event a hx => ?_,
    fun past x later hp id call g hx => ?_, fun past x later hp id call g hx => ?_,
    fun past x later hp id call a g hx hg => ?_, runs_answered h, fun hnone hidle => ?_⟩
  · obtain ⟨hpast, hst⟩ := Trace.split hrun hp
    rw [hx] at hst
    obtain ⟨chance, next, hu, hexec, -⟩ := hst.own_inv
    have hgen : x.src.shared.inner.generation = expected := record_ok (congrArg Prod.fst hexec)
    have hconduct := runs_conduct hpast hu
    cases hconduct with
    | records _ _ _ _ _ hdecided =>
      rcases runs_cancelled hpast hdecided with hlt | ⟨-, hr⟩
      · exact absurd hgen (Nat.ne_of_gt hlt)
      · exact Option.isNone_iff_eq_none.1 (by rw [← Option.not_isSome, show x.src.shared.inner.process.isSome = false from hr]; rfl)
    | plain _ _ hc | acts _ _ _ _ _ hc | called _ _ hc => cases hc
  · obtain ⟨hrun', hcalm⟩ := hbefore hp
    have hst := (Trace.split hrun hp).2
    rw [hx] at hst
    exact runs_silent hrun' hcalm he hst
  · obtain ⟨hpast, hst⟩ := Trace.split hrun hp
    rw [hx] at hst
    obtain ⟨chance, next, hu, -, -⟩ := hst.own_inv
    have hconduct := runs_conduct hpast hu
    cases hconduct with
    | kills _ _ hcall =>
      rcases hcall with ⟨-, hclosing⟩ | hstop
      · exact .inl hclosing
      · exact .inr hstop
    | plain _ _ hc | acts _ _ _ _ _ hc | called _ _ hc => cases hc
  · obtain ⟨hpast, hst⟩ := Trace.split hrun hp
    rw [hx] at hst
    obtain ⟨chance, next, hu, -, -⟩ := hst.own_inv
    have hconduct := runs_conduct hpast hu
    cases hconduct with
    | shuts _ _ _ hclosing => exact hclosing
    | plain _ _ hc | acts _ _ _ _ _ hc | called _ _ hc => cases hc
  · obtain ⟨hpast, hst⟩ := Trace.split hrun hp
    rw [hx] at hst
    obtain ⟨next, hnext, hconduct⟩ := own_conduct hpast hst
    refine ⟨_, hnext, ?_⟩
    obtain ⟨c, r⟩ := a
    cases hconduct with
    | acts _ _ _ _ _ _ _ hands | called _ _ _ _ hands => exact hands r g hg
    | plain _ _ hc => cases c <;> first | cases hg | cases hc
    | hears | decides | records | kills | shuts | exits | turns => cases hg
  · have hrests := (runs_rests h).rests (by rw [Shared.control, hnone]; rfl)
    rcases hrests with hrest | hrest | ⟨-, id, call, rest, hid, hstart, howes⟩
    · exact .inl hrest
    · exact .inr hrest
    · exact absurd howes.goes (hidle id call rest hid hstart)

/-! ### Two runs -/

namespace Sample

def outside : Outside := ⟨fun _ => none, fun _ => none, fun _ => false, fun _ => [], fun _ => true⟩
def chance : Chance := ⟨.ok (), .ok (), .ok (), true, "2025-01-01T00:00:00Z"⟩

def outcome (turns : List (Turn Call Chance Wind)) : Option (List Event × Moment) :=
  Trace.play (supervisor outside).next turns [] ⟨fresh [] .empty, fun _ => none⟩

def running (id : Nat) (call : Call) (steps : Nat) : List (Turn Call Chance Wind) :=
  .start id call :: List.replicate steps (.run id chance)

def isReady : Json := frame "ready" [("ports", .object [("loopback", .integer 4100)])]
def created : Json := frame "pairing.created" [("pairingId", .string "p")]
def registered : Json := frame "device.registered" [("device", .object [("deviceId", .string "phone")])]

def started : List (Turn Call Chance Wind) := running 0 (.start ⟨.object []⟩) 6 ++ running 1 (.line 1 isReady) 5

/-- A pairing is asked for and created; then the gateway is stopped, and exits. -/
def served : List (Turn Call Chance Wind) :=
  started ++ running 2 (.request (.object []) .pairing) 2 ++ running 3 (.line 1 created) 4 ++
    List.replicate 2 (Turn.run 2 chance) ++ running 4 .stop 2 ++ running 5 (.exit 1) 3 ++ [Turn.run 4 chance]

/-- The gateway is halted and then stopped, and one of its lines is still to be handled. -/
def revived : List (Turn Call Chance Wind) :=
  started ++ running 2 (.fail "companion-node-failed") 3 ++ running 3 .stop 1 ++ running 4 (.line 1 registered) 3

def unblocked (x : Event) : Bool :=
  match x.label with
  | .own _ _ a => ready x.src.shared a.command
  | _ => true

theorem exists_outcome (turns : List (Turn Call Chance Wind)) (p : List Event × Moment → Bool)
    (h : (outcome turns).any (fun r => r.1.all unblocked && p r) = true) :
    ∃ l t, Runs outside l t ∧ p (l, t) = true := by
  obtain ⟨⟨l, t⟩, hr, hp⟩ := (Option.any_eq_true _ _).1 h
  rw [Bool.and_eq_true] at hp
  refine ⟨l, t, ⟨⟨[], .empty, Trace.of_play Pool.step_of_next (.start rfl) hr⟩, fun x hx id call a hlab => ?_⟩, hp.2⟩
  have := all_eq_true.1 hp.1 x hx
  rw [unblocked, hlab] at this
  exact this

/-! The conditions, as computations. -/

def acting (past : List (Asked Command Reply)) (g : Nat) : Bool :=
  (past.any fun a =>
    match a with
    | ⟨.heard h, r⟩ => h = g && r
    | _ => false) && past.all fun a => !a.command.ends

theorem acting_of {past : List (Asked Command Reply)} (h : Acting past g) : acting past g = true := by
  rw [acting, Bool.and_eq_true]
  refine ⟨any_eq_true.2 ⟨_, h.heard, ?_⟩, all_eq_true.2 fun a ha => by rw [h.goes a ha]; rfl⟩
  simp

def calm (past : List Event) (x : Event) : Bool :=
  match x.label with
  | .own id' _ a =>
    (match a.command with
      | .beginStop => !(x.src.shared.inner.process.isSome && x.src.shared.control.failed)
      | _ => true) &&
    (!interrupts x.src.shared a.command || past.all fun y =>
      match y.label with
      | .own id _ _ => id = id' || !acting (history id past) x.src.shared.inner.generation
      | _ => true)
  | _ => true

theorem calm_sound {past : List Event} {x : Event} (h : calm past x = true) : Undisturbed past x := by
  refine ⟨fun id call r hx hp => ?_, fun id ha id' call a hx hne => ?_⟩
  · rw [calm, hx, Bool.and_eq_true] at h
    have h1 := h.1
    rw [hp, Bool.true_and, Bool.not_eq_true'] at h1
    exact h1
  · rw [calm, hx, Bool.and_eq_true, Bool.or_eq_true, Bool.not_eq_true'] at h
    refine h.2.resolve_right fun hall => ?_
    obtain ⟨y, hy, job, hlab⟩ := Pool.mem_history.1 ha.heard
    have := all_eq_true.1 hall y hy
    rw [hlab] at this
    dsimp only at this
    rw [acting_of ha, Bool.not_true, Bool.or_false, decide_eq_true_eq] at this
    exact hne this.symm

def calmFrom : List Event → List Event → Bool
  | _, [] => true
  | past, x :: later => calm past x && calmFrom (past ++ [x]) later

theorem calmFrom_sound : ∀ {later past : List Event}, calmFrom past later = true → ∀ before x after,
    later = before ++ x :: after → Undisturbed (past ++ before) x
  | [], _, _, before, x, after, hl => by simp at hl
  | y :: later, past, h, before, x, after, hl => by
    rw [calmFrom, Bool.and_eq_true] at h
    cases before with
    | nil =>
      cases hl
      rw [append_nil]
      exact calm_sound h.1
    | cons z before =>
      obtain ⟨rfl, htail⟩ := List.cons.inj hl
      have := calmFrom_sound h.2 before x after htail
      rwa [append_assoc] at this

def writes (x : Event) : Bool :=
  (match x.label with
    | .own _ (.line 1 _) _ => true
    | _ => false) && !decide (x.dst.shared.disk.length = x.src.shared.disk.length)

def halts (x : Event) : Bool :=
  x.src.shared.control.generation = 1 && x.src.shared.control.recorded && !x.src.shared.control.failed &&
    x.dst.shared.control.failed

def writesHalted : List Event → List Event → Bool
  | _, [] => false
  | past, x :: later => past.any halts && writes x || writesHalted (past ++ [x]) later

theorem writesHalted_sound : ∀ {later past : List Event}, writesHalted past later = true →
    ∃ before x after, later = before ++ x :: after ∧ (past ++ before).any halts = true ∧ writes x = true
  | y :: later, past, h => by
    rw [writesHalted, Bool.or_eq_true, Bool.and_eq_true] at h
    rcases h with ⟨h1, h2⟩ | h
    · exact ⟨[], y, later, rfl, by rwa [append_nil], h2⟩
    · obtain ⟨before, x, after, rfl, h1, h2⟩ := writesHalted_sound h
      refine ⟨y :: before, x, after, rfl, ?_, h2⟩
      rwa [append_assoc] at h1

def isServed (r : List Event × Moment) : Bool :=
  calmFrom [] r.1 && r.2.shared.inner.process.isNone && r.2.shared.inner.status = .disabled &&
    match r.2.threads 2 with
    | some ⟨.request _ _, .done (.ok _)⟩ => true
    | _ => false

end Sample

/-- A gateway that serves a request, is stopped and exits. -/
theorem gateway_supervised_served : ∃ l t, Runs Sample.outside l t ∧ (∃ command want v,
    t.threads 2 = some ⟨.request command want, .done (.ok v)⟩) ∧ t.shared.inner.process = none ∧
      t.shared.inner.status = .disabled ∧ Supervised l t := by
  obtain ⟨l, t, hr, hp⟩ := Sample.exists_outcome Sample.served Sample.isServed rfl
  rw [Sample.isServed, Bool.and_eq_true, Bool.and_eq_true, Bool.and_eq_true, Option.isNone_iff_eq_none,
    decide_eq_true_eq] at hp
  obtain ⟨⟨⟨hcalm, hnone⟩, hstatus⟩, hserved⟩ := hp
  refine ⟨l, t, hr, ?_, hnone, hstatus, gateway_supervised hr fun past x later hl => Sample.calmFrom_sound hcalm past x later hl⟩
  split at hserved
  · rename_i command want v hthread
    exact ⟨command, want, v, hthread⟩
  · cases hserved

/-- **A stop that comes upon a halted gateway lets it be heard again**: a device that it registers is written to disk. -/
theorem gateway_revived : ∃ l t, Runs Sample.outside l t ∧ ∃ past x later, l = past ++ x :: later ∧ Ended 1 past ∧
    (∃ id event a, x.label = .own id (.line 1 event) a) ∧ x.dst.shared.disk ≠ x.src.shared.disk := by
  obtain ⟨l, t, hr, hp⟩ := Sample.exists_outcome Sample.revived (fun r => Sample.writesHalted [] r.1) rfl
  obtain ⟨past, x, later, hl, hhalts, hwrites⟩ := Sample.writesHalted_sound hp
  obtain ⟨y, hy, hhalt⟩ := any_eq_true.1 hhalts
  simp only [Sample.halts, Bool.and_eq_true, decide_eq_true_eq, Bool.not_eq_true'] at hhalt
  obtain ⟨⟨⟨h1, h2⟩, h3⟩, h4⟩ := hhalt
  rw [Sample.writes, Bool.and_eq_true, Bool.not_eq_true', decide_eq_false_iff_not] at hwrites
  refine ⟨l, t, hr, past, x, later, hl, ⟨y, hy, .inl ⟨h1, h2, h3, h4⟩⟩, ?_, fun he => hwrites.2 (by rw [he])⟩
  have hline := hwrites.1
  split at hline
  · rename_i id event a hlab
    exact ⟨id, event, a, hlab⟩
  · cases hline

end Companion
end Yuzora
