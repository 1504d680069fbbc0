import Yuzora.RuntimeSteps
/-!
# RuntimeConduct — what stands behind a command

An operation issues its commands with reasons, which are answers it got before, and with duties: an opener that holds a
reservation publishes it or gives it up, and a close that was begun is finished.
-/
namespace Yuzora
namespace Runtime

open List
open Profiles (LifecycleCloseErrorKind ProfileDescriptor ProfileError openConfig)

def registered : Asked Command Reply → Option ConnectionIdentity
  | ⟨.register i, .ok ()⟩ => some i
  | _ => none

def Unregistered (past : List (Asked Command Reply)) : Prop := ∀ a ∈ past, registered a = none

theorem unregistered_nil : Unregistered [] := fun _ h => nomatch h

variable {past : List (Asked Command Reply)} {i : ConnectionIdentity} {c : LiveConnection}

theorem Unregistered.snoc {a : Asked Command Reply} (h : Unregistered past)
    (ha : registered a = none) : Unregistered (past ++ [a]) := by
  intro b hb
  rcases mem_append.1 hb with hb | hb
  · exact h b hb
  · rw [mem_singleton.1 hb, ha]

/-- The connection is the one that the identity names, in the entry that was looked at. -/
structure Checked (past : List (Asked Command Reply)) (i : ConnectionIdentity) (c : LiveConnection) : Prop where
  got : ⟨.get i.descriptorId, (some c : Option LiveConnection)⟩ ∈ past
  connectionId : c.connectionId = i.connectionId
  connectionGeneration : c.connectionGeneration = i.connectionGeneration

/-- Why the actor is known to have been there. -/
inductive Evidence (past : List (Asked Command Reply)) (i : ConnectionIdentity) : Prop
  | registered : ⟨.register i, (.ok () : Except OperationalErrorCode Unit)⟩ ∈ past → Evidence past i
  | ran : ⟨.terminatedRun i, true⟩ ∈ past → Evidence past i
  | checked (c : LiveConnection) : Checked past i c → Evidence past i
  | begun (d : String) (c : LiveConnection) : c.identity = i →
      ⟨.beginClose d, (.ok (some c) : Except LifecycleCloseErrorKind (Option LiveConnection))⟩ ∈ past → Evidence past i

variable (r : OpeningReservation)

def Command.answers : Command → Prop
  | .publish r' _ => r' = r
  | .fail r' _ => r' = r
  | _ => False

def Command.finishes (c : LiveConnection) : Command → Prop
  | .finishClose c' _ => c' = c
  | _ => False

def Call.identity? : Call → Option ConnectionIdentity
  | .disconnect i | .terminatingRun i => some i
  | .openSaved _ | .cancelAndClose _ => none

def Command.quiet : Command → Bool
  | .openable _ | .resolve _ | .hasActor _ | .isTerminating _ | .newConnection _ _ | .openHandle _ _ | .get _
  | .terminatedRun _ | .otherActor _ => true
  | _ => false

/-- The reservation was handed out, the credential resolved for its configuration, the connection named after that. -/
structure Elected (past : List (Asked Command Reply)) (r : OpeningReservation) (c : LiveConnection) (d : String)
    (g : Nat) (profile : ProfileDescriptor) (secret : Option String)
    (before middle after : List (Asked Command Reply)) : Prop where
  past_eq : past = before ++ ⟨.beginOpen d g, (.ok (.opens r) : Except LifecycleCloseErrorKind OpenDecision)⟩ ::
    (middle ++ ⟨.resolve d, (some (.ok (profile, secret)) : Awaited (Except ProfileError (ProfileDescriptor × Option String)))⟩
      :: after)
  configGeneration : profile.configGeneration = r.configGeneration
  named : ∃ engine, ⟨.newConnection d engine, c⟩ ∈ after
  registered : ⟨.register c.identity, (.ok () : Except OperationalErrorCode Unit)⟩ ∈ past

/-- **What stands behind a command, and what the operation owes after it.** -/
inductive Conduct (call : Call) (past : List (Asked Command Reply)) : (c : Command) → (Reply c → M Answer) → Prop
  | quiet (c : Command) (next : Reply c → M Answer) : c.quiet = true → Unregistered past → Conduct call past c next
  | beginOpen (d : String) (g : Nat) (next : Except LifecycleCloseErrorKind OpenDecision → M Answer) :
      call = .openSaved d → Unregistered past → (∀ r, (next (.ok (.opens r))).Owes (Command.answers r)) →
        Conduct call past (.beginOpen d g) next
  | register (i : ConnectionIdentity) (next : Except OperationalErrorCode Unit → M Answer) : Unregistered past →
      (next (.ok ())).Goes → Conduct call past (.register i) next
  | publish (r : OpeningReservation) (c : LiveConnection) (next : Bool → M Answer) (d : String) (g : Nat)
      (profile : ProfileDescriptor) (secret : Option String) (before middle after : List (Asked Command Reply)) :
      call.identity? = none → Elected past r c d g profile secret before middle after →
        (∀ a ∈ past, ∀ i, registered a = some i → i = c.identity) → (next false).Goes →
          Conduct call past (.publish r c) next
  | fail (r : OpeningReservation) (error : RuntimeError) (next : Unit → M Answer) : call.identity? = none →
      Unregistered past → Conduct call past (.fail r error) next
  | close (i : ConnectionIdentity) (next : Except OperationalErrorCode TeardownReport → M Answer) : Evidence past i →
      (∀ a ∈ past, ∀ j, registered a = some j → j = i) → Conduct call past (.close i) next
  | disconnects (i : ConnectionIdentity) (c : LiveConnection)
      (next : Except LifecycleCloseErrorKind (Option LiveConnection) → M Answer) : call = .disconnect i →
      Checked past i c → Unregistered past → (∀ found, (next (.ok found)).Owes (Command.finishes c)) →
        Conduct call past (.beginClose i.descriptorId) next
  | lifecycle (d : String) (next : Except LifecycleCloseErrorKind (Option LiveConnection) → M Answer) :
      call = .cancelAndClose d → Unregistered past → (∀ c, (next (.ok (some c))).Owes (Command.finishes c)) →
        Conduct call past (.beginClose d) next
  | disconnected (i : ConnectionIdentity) (c : LiveConnection) (closed : Bool)
      (next : Except LifecycleCloseErrorKind Unit → M Answer) : call = .disconnect i → Checked past i c →
      Unregistered past → (∃ a, ⟨.close i, a⟩ ∈ past) → Conduct call past (.finishClose c closed) next
  | finished (d : String) (c : LiveConnection) (closed : Bool) (next : Except LifecycleCloseErrorKind Unit → M Answer) :
      call = .cancelAndClose d → Unregistered past → (∃ a, ⟨.close c.identity, a⟩ ∈ past) →
        Conduct call past (.finishClose c closed) next
  | markOffline (i : ConnectionIdentity) (next : Except RuntimeError Unit → M Answer) : call = .terminatingRun i →
      Unregistered past → (∃ a, ⟨.close i, a⟩ ∈ past) → Conduct call past (.markOffline i) next
  | discard (d : String) (g : Nat) (c : LiveConnection) (next : Bool → M Answer) : call = .openSaved d →
      ⟨.beginOpen d g, (.ok (.live c) : Except LifecycleCloseErrorKind OpenDecision)⟩ ∈ past → Unregistered past →
        Conduct call past (.discard c) next
  | release (i : ConnectionIdentity) (next : Unit → M Answer) : (∀ j, call.identity? = some j → i = j) →
      Unregistered past → Conduct call past (.release i) next

/-! ## Openers -/

theorem giveUp_owes (error : RuntimeError) : (giveUp r error).Owes (Command.answers r) :=
  .inl rfl

theorem publishConnection_owes (c : LiveConnection) :
    (publishConnection r c).Owes (Command.answers r) := by
  refine .inr fun registration => ?_
  cases registration with
  | error code => exact giveUp_owes r _
  | ok _ => exact .inl rfl

/-- **The holder of a reservation settles it.** -/
theorem openReserved_owes (d : String) (r : OpeningReservation) : (openReserved d r).Owes (Command.answers r) := by
  refine .inr fun resolved => ?_
  match resolved with
  | none => exact giveUp_owes r _
  | some (.error error) => exact giveUp_owes r _
  | some (.ok (profile, secret)) =>
    by_cases hg : profile.configGeneration ≠ r.configGeneration
    · change Prog.Owes _ (ite _ _ _)
      rw [if_pos hg]
      exact giveUp_owes r _
    · change Prog.Owes _ (ite _ _ _)
      rw [if_neg hg]
      cases openConfig profile.target secret with
      | error error => exact giveUp_owes r _
      | ok config =>
        refine .inr fun connection => .inr fun handle => ?_
        match handle with
        | none => exact giveUp_owes r _
        | some (.error error) => exact giveUp_owes r _
        | some (.ok ()) => exact publishConnection_owes r connection

section Openers

variable {call : Call} {r : OpeningReservation} {d : String} {g : Nat}

theorem giveUp_conduct {error : RuntimeError} (hcall : call.identity? = none)
    (h : Unregistered past) : (giveUp r error).Throughout (Conduct call) past :=
  Prog.throughout_call (.fail r error _ hcall h) fun _ => trivial

theorem publishConnection_conduct {c : LiveConnection}
    {profile : ProfileDescriptor} {secret : Option String} {before middle after : List (Asked Command Reply)}
    (hpast : past = before ++ ⟨.beginOpen d g, (.ok (.opens r) : Except LifecycleCloseErrorKind OpenDecision)⟩ ::
      (middle ++ ⟨.resolve d, (some (.ok (profile, secret)) : Awaited (Except ProfileError (ProfileDescriptor × Option String)))⟩
        :: after))
    (hg : profile.configGeneration = r.configGeneration) (hnamed : ∃ engine, ⟨.newConnection d engine, c⟩ ∈ after)
    (hcall : call.identity? = none) (h : Unregistered past) : (publishConnection r c).Throughout (Conduct call) past := by
  refine Prog.throughout_call (.register _ _ h trivial) fun registration => ?_
  match registration with
  | .error code => exact giveUp_conduct hcall (h.snoc rfl)
  | .ok () =>
    have hown : ∀ a ∈ past ++ [⟨.register c.identity, (.ok () : Except OperationalErrorCode Unit)⟩],
        ∀ i, registered a = some i → i = c.identity := by
      intro a ha i hi
      rcases mem_append.1 ha with ha | ha
      · rw [h a ha] at hi
        cases hi
      · rw [mem_singleton.1 ha] at hi
        exact (Option.some.inj hi).symm
    have hmem : ⟨.register c.identity, (.ok () : Except OperationalErrorCode Unit)⟩ ∈
        past ++ [⟨.register c.identity, (.ok () : Except OperationalErrorCode Unit)⟩] :=
      mem_concat_self
    obtain ⟨engine, hnew⟩ := hnamed
    refine Prog.throughout_call (.publish r c _ d g profile secret before middle
      (after ++ [⟨.register c.identity, (.ok () : Except OperationalErrorCode Unit)⟩])
      hcall ⟨?_, hg, ⟨engine, mem_append_left _ hnew⟩, hmem⟩ hown trivial) fun exact => ?_
    · rw [hpast]
      simp only [append_assoc, cons_append]
    cases exact with
    | true => trivial
    | false =>
      refine Prog.throughout_call (.close _ _ (.registered (mem_append_left _ hmem)) fun a ha i hi => ?_)
        fun _ => trivial
      rcases mem_append.1 ha with ha | ha
      · exact hown a ha i hi
      · rw [mem_singleton.1 ha] at hi
        cases hi

theorem openReserved_conduct {before : List (Asked Command Reply)}
    (hpast : past = before ++ [⟨.beginOpen d g, (.ok (.opens r) : Except LifecycleCloseErrorKind OpenDecision)⟩])
    (hcall : call.identity? = none) (h : Unregistered past) : (openReserved d r).Throughout (Conduct call) past := by
  refine Prog.throughout_call (.quiet _ _ rfl h) fun resolved => ?_
  have h1 := h.snoc (a := ⟨.resolve d, resolved⟩) rfl
  match resolved, h1 with
  | none, h1 => exact giveUp_conduct hcall h1
  | some (.error error), h1 => exact giveUp_conduct hcall h1
  | some (.ok (profile, secret)), h1 =>
    by_cases hg : profile.configGeneration ≠ r.configGeneration
    · change Prog.Throughout _ (ite _ _ _) _
      rw [if_pos hg]
      exact giveUp_conduct hcall h1
    change Prog.Throughout _ (ite _ _ _) _
    rw [if_neg hg]
    cases openConfig profile.target secret with
    | error error => exact giveUp_conduct hcall h1
    | ok config =>
      refine Prog.throughout_call (.quiet _ _ rfl h1) fun connection => ?_
      have h2 := h1.snoc (a := ⟨.newConnection d (engineOf profile.target), connection⟩) rfl
      refine Prog.throughout_call (.quiet _ _ rfl h2) fun handle => ?_
      have h3 := h2.snoc (a := ⟨.openHandle config connection.identity, handle⟩) rfl
      match handle, h3 with
      | none, h3 => exact giveUp_conduct hcall h3
      | some (.error error), h3 => exact giveUp_conduct hcall h3
      | some (.ok ()), h3 =>
        have hnow : past ++ [⟨.resolve d, (some (.ok (profile, secret)) :
            Awaited (Except ProfileError (ProfileDescriptor × Option String)))⟩] ++
              [⟨.newConnection d (engineOf profile.target), connection⟩] ++
                [⟨.openHandle config (LiveConnection.identity connection), (some (.ok ()) : Awaited (Except RuntimeError Unit))⟩] =
            before ++ ⟨.beginOpen d g, (.ok (.opens r) : Except LifecycleCloseErrorKind OpenDecision)⟩ ::
              ([] ++ ⟨.resolve d, (some (.ok (profile, secret)) :
                Awaited (Except ProfileError (ProfileDescriptor × Option String)))⟩ ::
                  [⟨.newConnection d (engineOf profile.target), connection⟩,
                    ⟨.openHandle config (LiveConnection.identity connection),
                      (some (.ok ()) : Awaited (Except RuntimeError Unit))⟩]) := by
          rw [hpast, append_assoc, append_assoc, append_assoc]
          rfl
        exact publishConnection_conduct hnow (not_not.1 hg) ⟨_, mem_cons_self⟩ hcall h3

theorem follow_conduct {decision : Except LifecycleCloseErrorKind OpenDecision}
    (hcall : call.identity? = none) (h : Unregistered past) : (follow d decision).Throughout (Conduct call) (past ++ [⟨.beginOpen d g, decision⟩]) := by
  match decision with
  | .error _ | .ok (.live _) | .ok (.wait _) | .ok (.unavailable _) => trivial
  | .ok (.opens r) => exact openReserved_conduct rfl hcall (h.snoc rfl)

theorem openSaved_conduct (d : String) : (Call.openSaved d).start.Throughout (Conduct (.openSaved d)) [] := by
  refine Prog.throughout_call (.quiet _ _ rfl unregistered_nil) fun checked => ?_
  have h1 := unregistered_nil.snoc (a := ⟨.openable d, checked⟩) rfl
  match checked, h1 with
  | none, _ => trivial
  | some (.error error), _ => trivial
  | some (.ok checked), h1 =>
    refine Prog.throughout_call (.beginOpen d _ _ rfl h1 fun r => openReserved_owes d r) fun decision => ?_
    match decision with
    | .error _ | .ok (.wait _) | .ok (.unavailable _) => trivial
    | .ok (.opens r) => exact openReserved_conduct rfl rfl (h1.snoc rfl)
    | .ok (.live c) =>
      have h2 := h1.snoc (a := ⟨.beginOpen d checked.configGeneration,
        (.ok (.live c) : Except LifecycleCloseErrorKind OpenDecision)⟩) rfl
      refine Prog.throughout_call (.quiet _ _ rfl h2) fun there => ?_
      have h3 := h2.snoc (a := ⟨.hasActor c.identity, there⟩) rfl
      cases there with
      | true =>
        refine Prog.throughout_call (.quiet _ _ rfl h3) fun ending => ?_
        cases ending <;> trivial
      | false =>
        refine Prog.throughout_call (.release _ _ nofun h3) fun _ => ?_
        have h4 := h3.snoc (a := ⟨.release c.identity, ()⟩) rfl
        refine Prog.throughout_call (.discard d checked.configGeneration c _ rfl ?_ h4) fun discarded => ?_
        · simp only [nil_append, cons_append, mem_cons, true_or, or_true]
        have h5 := h4.snoc (a := ⟨.discard c, discarded⟩) rfl
        exact Prog.throughout_call (.beginOpen d _ _ rfl h5 fun r => openReserved_owes d r) fun _ => follow_conduct rfl h5

end Openers

/-! ## Closes -/

theorem checked_mono (h : Checked past i c) (a : Asked Command Reply) : Checked (past ++ [a]) i c :=
  ⟨mem_append_left _ h.got, h.connectionId, h.connectionGeneration⟩

theorem settleClosed_owes (i : ConnectionIdentity) (c : LiveConnection) :
    (settleClosed i c).Owes (Command.finishes c) := .inr fun _ => .inl rfl

theorem settleClosed_conduct {call : Call} (hi : ∀ j, call.identity? = some j → i = j) (h : Unregistered past)
    (hfinish : ∀ next, Conduct call (past ++ [⟨.release i, ()⟩]) (.finishClose c true) next) :
    (settleClosed i c).Throughout (Conduct call) past := by
  refine Prog.throughout_call (.release i _ hi h) fun _ => Prog.throughout_call (hfinish _) fun settled => ?_
  match settled with
  | .ok () => trivial
  | .error _ => trivial

theorem disconnect_conduct (i : ConnectionIdentity) :
    (Call.disconnect i).start.Throughout (Conduct (.disconnect i)) [] := by
  refine Prog.throughout_call (.quiet _ _ rfl unregistered_nil) fun found => ?_
  have h1 := unregistered_nil.snoc (a := ⟨.get i.descriptorId, found⟩) rfl
  match found, h1 with
  | none, _ => trivial
  | some c, h1 =>
    by_cases hc : c.connectionId ≠ i.connectionId ∨ c.connectionGeneration ≠ i.connectionGeneration
    · change Prog.Throughout _ (ite _ _ _) _
      rw [if_pos hc]
      trivial
    change Prog.Throughout _ (ite _ _ _) _
    rw [if_neg hc]
    rw [not_or, not_not, not_not] at hc
    have hcheck : Checked ([] ++ [⟨.get i.descriptorId, (some c : Option LiveConnection)⟩]) i c :=
      ⟨mem_singleton_self _, hc.1, hc.2⟩
    refine Prog.throughout_call (.disconnects i c _ rfl hcheck h1 fun begun => .inr fun answer => ?_) fun begun => ?_
    · match answer with
      | .ok _ => exact settleClosed_owes i c
      | .error code =>
        change Prog.Owes _ (ite _ _ _)
        split
        · exact settleClosed_owes i c
        · exact .inl rfl
    have h2 := h1.snoc (a := ⟨.beginClose i.descriptorId, begun⟩) rfl
    have hcheck2 := checked_mono hcheck ⟨.beginClose i.descriptorId, begun⟩
    match begun, h2, hcheck2 with
    | .error _, _, _ => trivial
    | .ok begun, h2, hcheck2 =>
      refine Prog.throughout_call (.close i _ (.checked c hcheck2) fun a ha j hj => ?_) fun answer => ?_
      · rw [h2 a ha] at hj
        cases hj
      have h3 := h2.snoc (a := ⟨.close i, answer⟩) rfl
      have hcheck3 := checked_mono hcheck2 ⟨.close i, answer⟩
      have hfinish : ∀ past b next, Checked past i c → Unregistered past → ⟨.close i, answer⟩ ∈ past →
          Conduct (.disconnect i) past (.finishClose c b) next := fun past b next hc h ha =>
        .disconnected i c b next rfl hc h ⟨answer, ha⟩
      have hmem : ⟨.close i, answer⟩ ∈ [] ++ [⟨.get i.descriptorId, (some c : Option LiveConnection)⟩] ++
          [⟨.beginClose i.descriptorId, (.ok begun : Except LifecycleCloseErrorKind (Option LiveConnection))⟩] ++
            [(⟨.close i, answer⟩ : Asked Command Reply)] := mem_concat_self
      have hsettle : (settleClosed i c).Throughout (Conduct (.disconnect i)) _ :=
        settleClosed_conduct (fun j hj => Option.some.inj hj) h3 fun next =>
          hfinish _ true next (checked_mono hcheck3 _) (h3.snoc rfl) (mem_append_left _ hmem)
      match answer, h3, hcheck3, hsettle, hfinish, hmem with
      | .ok _, _, _, hsettle, _, _ => exact hsettle
      | .error code, h3, hcheck3, hsettle, hfinish, hmem =>
        change Prog.Throughout _ (ite _ _ _) _
        split
        · exact hsettle
        · exact Prog.throughout_call (hfinish _ false _ hcheck3 h3 hmem) fun _ => trivial

theorem cancelAndClose_conduct (d : String) :
    (Call.cancelAndClose d).start.Throughout (Conduct (.cancelAndClose d)) [] := by
  refine Prog.throughout_call (.lifecycle d _ rfl unregistered_nil fun c => .inr fun answer => ?_) fun begun => ?_
  · change Prog.Owes _ (ite _ _ _)
    split
    · exact settleClosed_owes c.identity c
    · exact .inl rfl
  have h1 := unregistered_nil.snoc (a := ⟨.beginClose d, begun⟩) rfl
  match begun, h1 with
  | .error _, _ => trivial
  | .ok none, _ => trivial
  | .ok (some c), h1 =>
    refine Prog.throughout_call (.close c.identity _ (.begun d c rfl (mem_singleton_self _)) fun a ha j hj => ?_)
      fun answer => ?_
    · rw [h1 a ha] at hj
      cases hj
    have h2 := h1.snoc (a := ⟨.close c.identity, answer⟩) rfl
    have hmem : ⟨.close c.identity, answer⟩ ∈
        [] ++ [⟨.beginClose d, (.ok (some c) : Except LifecycleCloseErrorKind (Option LiveConnection))⟩] ++
          [(⟨.close c.identity, answer⟩ : Asked Command Reply)] := mem_concat_self
    change Prog.Throughout _ (ite _ _ _) _
    split
    · exact settleClosed_conduct nofun h2 fun next =>
        .finished d c true next rfl (h2.snoc rfl) ⟨answer, mem_append_left _ hmem⟩
    · exact Prog.throughout_call (.finished d c false _ rfl h2 ⟨answer, hmem⟩) fun _ => trivial

/-! ## Terminated connections -/

theorem terminatingRun_conduct (i : ConnectionIdentity) :
    (Call.terminatingRun i).start.Throughout (Conduct (.terminatingRun i)) [] := by
  refine Prog.throughout_call (.quiet _ _ rfl unregistered_nil) fun there => ?_
  have h1 := unregistered_nil.snoc (a := ⟨.terminatedRun i, there⟩) rfl
  cases there with
  | false => trivial
  | true =>
    refine Prog.throughout_call (.close i _ (.ran (mem_singleton_self _)) fun a ha j hj => ?_) fun answer => ?_
    · rw [h1 a ha] at hj
      cases hj
    have h2 := h1.snoc (a := ⟨.close i, answer⟩) rfl
    have hmem : ⟨.close i, answer⟩ ∈ [] ++ [⟨.terminatedRun i, true⟩] ++ [(⟨.close i, answer⟩ : Asked Command Reply)] :=
      mem_concat_self
    have hmark : ∀ past (after : Except RuntimeError Unit → M Answer), Unregistered past → ⟨.close i, answer⟩ ∈ past →
        (∀ error, after (.error error) = Prog.throw error) →
          after (.ok ()) = Prog.call (.release i) (fun _ => Prog.done (.ok .done)) →
            Prog.Throughout (Conduct (.terminatingRun i)) (Prog.call (.markOffline i) after) past := by
      intro past after h ha herror hok
      refine Prog.throughout_call (.markOffline i _ rfl h ⟨answer, ha⟩) fun r => ?_
      match r with
      | .error error =>
        rw [herror error]
        trivial
      | .ok () =>
        rw [hok]
        exact Prog.throughout_call (.release i _ (fun j hj => Option.some.inj hj) (h.snoc rfl)) fun _ => trivial
    match answer, h2, hmem, hmark with
    | .ok _, h2, hmem, hmark => exact hmark _ _ h2 hmem (fun _ => rfl) rfl
    | .error code, h2, hmem, hmark =>
      change Prog.Throughout _ (ite _ _ _) _
      split
      · refine Prog.throughout_call (.quiet _ _ rfl h2) fun other => ?_
        cases other with
        | true => trivial
        | false => exact hmark _ _ (h2.snoc rfl) (mem_append_left _ hmem) (fun _ => rfl) rfl
      · trivial

/-- **Every operation keeps to its conduct.** -/
theorem start_conduct (call : Call) : call.start.Throughout (Conduct call) [] := by
  cases call with
  | openSaved d => exact openSaved_conduct d
  | disconnect i => exact disconnect_conduct i
  | cancelAndClose d => exact cancelAndClose_conduct d
  | terminatingRun i => exact terminatingRun_conduct i

end Runtime
end Yuzora
