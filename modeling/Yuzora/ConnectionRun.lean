import Yuzora.ConnectionActor
import Yuzora.Trace
/-!
# ConnectionRun — any interleaving of calls on one connection's actor

`Moved` lists what a call can do.  One lease is out at a time and ids only grow, so a lease that was settled is refused
for good; a pending dispatch keeps the connection for its own run.  What a lifecycle teardown demanded survives to the
settlement as long as no failed dispatch is rolled back in a closed actor.
-/
namespace Yuzora
namespace Db

variable {Id : Type} [DecidableEq Id] {s t : ConnectionActor Id}

/-! ## What a call can do -/

/-- **What a call can do to the actor**, with its guards. -/
inductive Moved (s : ConnectionActor Id) : Call Id → Reply Id → ConnectionActor Id → Prop
  | refused (call : Call Id) (error : ActorError) : Moved s call (.refused error) s
  | alreadyCancelled (owner : QueryRunOwner Id) : Moved s (.requestCancel owner) (.cancel .alreadyRequested) s
  | alreadyReleased (call : Call Id) : Moved s call (.release .alreadyRequested) s
  | acquired (owner : QueryRunOwner Id) (capability : CancelCapability) :
      s.closed = false → s.isBusy = false →
      Moved s (.acquireExecution owner capability) (.execution ⟨owner, s.nextExecutionId⟩)
        { s with
          nextExecutionId := s.nextExecutionId + 1
          active := some ⟨⟨owner, s.nextExecutionId⟩, capability, false, false, false⟩ }
  | metadataAcquired :
      s.closed = false → s.isBusy = false →
      Moved s .acquireMetadata (.metadata ⟨s.nextExecutionId⟩)
        { s with nextExecutionId := s.nextExecutionId + 1, metadata := some ⟨s.nextExecutionId⟩ }
  | metadataSettled (lease : MetadataLease) :
      Moved s (.settleMetadata lease) .done { s with metadata := none }
  | tornDown (report : TeardownReport) :
      s.isBusy = false → Moved s .beginTeardown (.report report) { s with closed := true }
  | lifecycle (state : LifecycleRequestState Id) :
      (∀ active, s.active = some active →
        (⟨state.cancelRequested, state.releaseRequested, state.connectionTerminationRequired⟩ : Settlement) =
          active.tornDown.settlement) →
      Moved s .requestLifecycleTeardown (.lifecycle state)
        { s with closed := true, active := s.active.map ActiveExecution.tornDown }
  | cancelled (owner : QueryRunOwner Id) (active : ActiveExecution Id) (request : CancelRequest) (terminated : Bool) :
      s.pendingCancelDispatch ≠ some owner → s.active = some active → active.lease.owner = owner →
      (active.connectionTerminationRequired = true → terminated = true) →
      Moved s (.requestCancel owner) (.cancel request)
        { s with
          pendingCancelDispatch := some owner
          active := some { active with cancelRequested := true, connectionTerminationRequired := terminated } }
  | dispatched (owner : QueryRunOwner Id) :
      s.pendingCancelDispatch = some owner →
      Moved s (.completeCancelDispatch owner) .done { s with pendingCancelDispatch := none }
  | rolledBack (owner : QueryRunOwner Id) :
      ownerBelongsTo owner s.identity = true → s.pendingCancelDispatch = some owner →
      Moved s (.failCancelDispatch owner) .done
        { s with
          pendingCancelDispatch := none
          active := s.active.map (ActiveExecution.rolledBack owner) }
  | released (call : Call Id) (active : ActiveExecution Id) :
      s.active = some active →
      Moved s call (.release .requested) { s with active := some { active with releaseRequested := true } }
  | settled (active : ActiveExecution Id) (policy : Bool) (settlement : Settlement) (closed : Bool) :
      s.active = some active →
      settlement = { active.settlement with
        connectionTerminationRequired :=
          active.connectionTerminationRequired || (policy && active.cancelRequested) } →
      (s.closed = true → closed = true) →
      Moved s (.settleExecution active.lease policy) (.settlement settlement) { s with active := none, closed }
  | terminated (active : ActiveExecution Id) :
      s.active = some active →
      Moved s (.markConnectionTerminated active.lease) .done
        { s with active := some { active with connectionTerminationRequired := true }, closed := true }

namespace ConnectionActor

variable {lease : ExecutionLease Id} {call : Call Id}

theorem validateExecutionLease_ok {active : ActiveExecution Id}
    (h : s.validateExecutionLease lease = .ok active) : s.active = some active ∧ active.lease = lease := by
  rw [validateExecutionLease] at h
  split at h
  · cases h
  · rename_i a ha
    split at h
    · rename_i hl
      cases h
      exact ⟨ha, hl⟩
    · cases h

theorem moved_answered {α : Type} {reply : α → Reply Id} {outcome : Except ActorError (α × ConnectionActor Id)}
    (h : ∀ a t, outcome = .ok (a, t) → Moved s call (reply a) t) :
    Moved s call (s.answered reply outcome).1 (s.answered reply outcome).2 := by
  cases outcome with
  | error e => exact .refused call e
  | ok x => exact h x.1 x.2 rfl

theorem moved_acknowledged
    {outcome : Except ActorError (ConnectionActor Id)} (h : ∀ t, outcome = .ok t → Moved s call .done t) :
    Moved s call (s.acknowledged outcome).1 (s.acknowledged outcome).2 := by
  cases outcome with
  | error e => exact .refused call e
  | ok t => exact h t rfl

variable {owner : QueryRunOwner Id} {request : ReleaseRequest}

theorem acquireExecution_moved {capability : CancelCapability}
    (h : s.acquireExecution owner capability = .ok (lease, t)) :
    Moved s (.acquireExecution owner capability) (.execution lease) t := by
  rw [acquireExecution] at h
  split at h
  · cases h
  split at h
  · cases h
  rename_i hc
  split at h
  · cases h
  rename_i hb
  split at h
  · cases h
  · rename_i next hn
    cases h
    obtain rfl := checkedAdd_some hn
    exact .acquired owner capability (by simpa using hc) (by simpa using hb)

theorem acquireMetadata_moved {lease : MetadataLease}
    (h : s.acquireMetadata = .ok (lease, t)) : Moved s .acquireMetadata (.metadata lease) t := by
  rw [acquireMetadata] at h
  split at h
  · cases h
  rename_i hc
  split at h
  · cases h
  rename_i hb
  split at h
  · cases h
  · rename_i next hn
    cases h
    obtain rfl := checkedAdd_some hn
    exact .metadataAcquired (by simpa using hc) (by simpa using hb)

theorem settleMetadata_moved {lease : MetadataLease}
    (h : s.settleMetadata lease = .ok t) : Moved s (.settleMetadata lease) .done t := by
  rw [settleMetadata] at h
  split at h
  · split at h
    · cases h
      exact .metadataSettled lease
    · cases h
  · cases h

theorem beginTeardown_moved {report : TeardownReport}
    (h : s.beginTeardown = .ok (report, t)) : Moved s .beginTeardown (.report report) t := by
  rw [beginTeardown] at h
  split at h
  · cases h
  · rename_i hb
    cases h
    exact .tornDown _ (by simpa using hb)

theorem requestLifecycleTeardown_moved (s : ConnectionActor Id) :
    Moved s .requestLifecycleTeardown (.lifecycle s.requestLifecycleTeardown.1) s.requestLifecycleTeardown.2 := by
  have hs : s.requestLifecycleTeardown.2 = { s with closed := true, active := s.active.map ActiveExecution.tornDown } := by
    rw [requestLifecycleTeardown]
    split
    · rename_i ha
      rw [ha]
      rfl
    · rename_i a ha
      rw [ha]
      rfl
  rw [hs]
  refine .lifecycle _ fun active ha => ?_
  rw [requestLifecycleTeardown, ha]
  rfl

theorem requestCancel_moved {request : CancelRequest}
    (h : s.requestCancel owner = .ok (request, t)) : Moved s (.requestCancel owner) (.cancel request) t := by
  rw [requestCancel] at h
  split at h
  · cases h
  split at h
  · cases h
    exact .alreadyCancelled owner
  rename_i hp
  split at h
  · cases h
  rename_i active ha
  split at h
  · cases h
  rename_i ho
  rw [ne_eq, Decidable.not_not] at ho
  split at h
  · cases h
    exact .alreadyCancelled owner
  simp only at h
  split at h
  · cases h
    exact .cancelled owner active _ active.connectionTerminationRequired hp ha ho id
  · cases h
    exact .cancelled owner active _ active.connectionTerminationRequired hp ha ho id
  · cases h
    exact .cancelled owner active _ true hp ha ho fun _ => rfl

theorem completeCancelDispatch_moved
    (h : s.completeCancelDispatch owner = .ok t) : Moved s (.completeCancelDispatch owner) .done t := by
  rw [completeCancelDispatch] at h
  split at h
  · cases h
  split at h
  · rename_i pending hp
    split at h
    · rename_i ho
      cases h
      exact .dispatched owner (ho ▸ hp)
    · cases h
  · cases h

theorem failCancelDispatch_moved
    (h : s.failCancelDispatch owner = .ok t) : Moved s (.failCancelDispatch owner) .done t := by
  rw [failCancelDispatch] at h
  split at h
  · cases h
  rename_i hb
  split at h
  · rename_i pending hp
    split at h
    · rename_i ho
      cases h
      exact .rolledBack owner (by simpa using hb) (ho ▸ hp)
    · cases h
  · cases h

theorem requestRelease_moved
    (h : s.requestRelease lease = .ok (request, t)) : Moved s (.requestRelease lease) (.release request) t := by
  rw [requestRelease] at h
  split at h
  · cases h
  rename_i active hv
  split at h
  · cases h
    exact .alreadyReleased _
  · cases h
    exact .released _ active (validateExecutionLease_ok hv).1

theorem requestResultRelease_moved {owner : ResultSessionOwner Id}
    (h : s.requestResultRelease owner = .ok (request, t)) :
    Moved s (.requestResultRelease owner) (.release request) t := by
  rw [requestResultRelease] at h
  split at h
  · cases h
  rename_i active ha
  split at h
  · cases h
  split at h
  · cases h
    exact .alreadyReleased _
  · cases h
    exact .released _ active ha

theorem settleExecution_moved {policy : Bool}
    {settlement : Settlement} (h : s.settleExecutionWithPolicy lease policy = .ok (settlement, t)) :
    Moved s (.settleExecution lease policy) (.settlement settlement) t := by
  rw [settleExecutionWithPolicy] at h
  split at h
  · cases h
  rename_i active hv
  obtain ⟨ha, rfl⟩ := validateExecutionLease_ok hv
  split at h
  · rename_i hp
    cases h
    exact .settled active policy _ true ha (by rw [hp, Bool.or_true]) fun _ => rfl
  · rename_i hp
    cases h
    rw [Bool.not_eq_true] at hp
    exact .settled active policy _ s.closed ha (by rw [hp, Bool.or_false]; rfl) id

theorem markConnectionTerminated_moved
    (h : s.markConnectionTerminated lease = .ok t) : Moved s (.markConnectionTerminated lease) .done t := by
  rw [markConnectionTerminated] at h
  split at h
  · cases h
  rename_i active hv
  obtain ⟨ha, rfl⟩ := validateExecutionLease_ok hv
  cases h
  exact .terminated active ha

/-- **Every call moves the actor in one of the listed ways.** -/
theorem step_moved (s : ConnectionActor Id) (call : Call Id) : Moved s call (s.step call).1 (s.step call).2 := by
  cases call with
  | acquireExecution owner capability => exact moved_answered fun _ _ h => acquireExecution_moved h
  | acquireMetadata => exact moved_answered fun _ _ h => acquireMetadata_moved h
  | settleMetadata lease => exact moved_acknowledged fun _ h => settleMetadata_moved h
  | beginTeardown => exact moved_answered fun _ _ h => beginTeardown_moved h
  | requestLifecycleTeardown => exact requestLifecycleTeardown_moved s
  | requestCancel owner => exact moved_answered fun _ _ h => requestCancel_moved h
  | completeCancelDispatch owner => exact moved_acknowledged fun _ h => completeCancelDispatch_moved h
  | failCancelDispatch owner => exact moved_acknowledged fun _ h => failCancelDispatch_moved h
  | requestRelease lease => exact moved_answered fun _ _ h => requestRelease_moved h
  | requestResultRelease owner => exact moved_answered fun _ _ h => requestResultRelease_moved h
  | settleExecution lease policy => exact moved_answered fun _ _ h => settleExecution_moved h
  | markConnectionTerminated lease => exact moved_acknowledged fun _ h => markConnectionTerminated_moved h

end ConnectionActor

/-! ## Runs -/

/-- A call and what it answered, between two states of the actor. -/
abbrev ActorEvent (Id : Type) := Transition (ConnectionActor Id) (Call Id × Reply Id)

abbrev ActorRun (identity : ConnectionIdentity Id) : List (ActorEvent Id) → ConnectionActor Id → Prop :=
  Trace (fun s => s = ConnectionActor.new identity) fun s a t => s.step a.1 = (a.2, t)

def Acquires (x : ActorEvent Id) : Prop :=
  (∃ lease, x.label.2 = .execution lease) ∨ ∃ lease, x.label.2 = .metadata lease

/-- The event is a cancel of the run that returned a driver action. -/
def StartsCancel (owner : QueryRunOwner Id) (x : ActorEvent Id) : Prop :=
  x.label.1 = .requestCancel owner ∧ ∃ request, x.label.2 = .cancel request ∧ request ≠ .alreadyRequested

def EndsCancel (owner : QueryRunOwner Id) (x : ActorEvent Id) : Prop :=
  (x.label.1 = .completeCancelDispatch owner ∨ x.label.1 = .failCancelDispatch owner) ∧ x.label.2 = .done

variable (lease : ExecutionLease Id)

def Settles (settlement : Settlement) (x : ActorEvent Id) : Prop :=
  ∃ policy, x.label = (.settleExecution lease policy, .settlement settlement)

/-- The calls that act for a lease: settling, releasing and terminating. -/
def Call.ActsFor (call : Call Id) : Prop :=
  (∃ policy, call = .settleExecution lease policy) ∨ call = .requestRelease lease ∨
    call = .markConnectionTerminated lease

/-- The event demanded this of the lease's execution: a lifecycle teardown what it answered, a termination itself. -/
def Demands (demand : Settlement) (x : ActorEvent Id) : Prop :=
  (∃ active state, x.src.active = some active ∧ active.lease = lease ∧
    x.label = (.requestLifecycleTeardown, .lifecycle state) ∧
    demand = ⟨state.cancelRequested, state.releaseRequested, state.connectionTerminationRequired⟩) ∨
  (x.label = (.markConnectionTerminated lease, .done) ∧ demand = ⟨false, false, true⟩)

/-- The settlement reports all that was demanded. -/
structure Settlement.Reports (settlement demand : Settlement) : Prop where
  cancel : demand.cancelRequested = true → settlement.cancelRequested = true
  release : demand.releaseRequested = true → settlement.releaseRequested = true
  termination : demand.connectionTerminationRequired = true → settlement.connectionTerminationRequired = true

/-- The call is no rollback of a failed dispatch in the occupied execution of a closed actor. -/
def Spares (s : ConnectionActor Id) (call : Call Id) : Prop :=
  ∀ owner active, call = .failCancelDispatch owner → ownerBelongsTo owner s.identity = true →
    s.pendingCancelDispatch = some owner → s.active = some active → active.lease.owner = owner → s.closed = false

theorem Moved.of_step {a : Call Id × Reply Id} (h : s.step a.1 = (a.2, t)) : Moved s a.1 a.2 t := by
  have hm := s.step_moved a.1
  rw [h] at hm
  exact hm

/-! ## One lease at a time -/

/-- One lease is out, its id below the next one, and a pending dispatch goes with no metadata. -/
structure Exclusive (s : ConnectionActor Id) : Prop where
  one : s.active = none ∨ s.metadata = none
  fresh : ∀ active, s.active = some active → active.lease.executionId < s.nextExecutionId

variable {reply : Reply Id} {call : Call Id}

theorem Exclusive.of_moved (hs : Exclusive s) (h : Moved s call reply t) : Exclusive t := by
  have kept : ∀ {active active' : ActiveExecution Id} {u : ConnectionActor Id}, s.active = some active →
      u.active = some active' → active'.lease = active.lease → u.metadata = s.metadata →
      u.nextExecutionId = s.nextExecutionId → Exclusive u := by
    intro active active' u ha hu hl hm hn
    refine ⟨.inr ?_, fun a h' => ?_⟩
    · rcases hs.one with h1 | h1
      · rw [ha] at h1
        cases h1
      · rw [hm, h1]
    · rw [hu] at h'
      cases h'
      rw [hl, hn]
      exact hs.fresh _ ha
  cases h with
  | refused _ _ | alreadyCancelled _ | alreadyReleased _ | tornDown _ _ | dispatched _ _ => exact ⟨hs.one, hs.fresh⟩
  | acquired owner capability _ hb =>
    refine ⟨.inr (ConnectionActor.isBusy_false.1 hb).2.2, fun active ha => ?_⟩
    cases ha
    exact Nat.lt_succ_self _
  | metadataAcquired _ hb =>
    have hn := (ConnectionActor.isBusy_false.1 hb).1
    refine ⟨.inl hn, fun active ha => ?_⟩
    rw [hn] at ha
    cases ha
  | metadataSettled _ => exact ⟨.inr rfl, hs.fresh⟩
  | settled _ _ _ _ _ _ _ => exact ⟨.inl rfl, nofun⟩
  | lifecycle _ _ =>
    cases ha : s.active with
    | none => exact ⟨.inl rfl, nofun⟩
    | some active => exact kept ha rfl rfl rfl rfl
  | rolledBack owner _ _ =>
    cases ha : s.active with
    | none => exact ⟨.inl rfl, nofun⟩
    | some active => exact kept ha rfl (ActiveExecution.rolledBack_lease owner active) rfl rfl
  | cancelled _ _ _ _ _ ha | released _ _ ha | terminated _ ha => exact kept ha rfl rfl rfl rfl

variable {identity : ConnectionIdentity Id} {l : List (ActorEvent Id)} {lease : ExecutionLease Id}
  {settlement : Settlement} {demand : Settlement} {x : ActorEvent Id} {policy : Bool}

theorem exclusive_run {s : ConnectionActor Id} (h : ActorRun identity l s) : Exclusive s := by
  refine h.invariant (fun s hs => ?_) fun s a t hs hst => hs.of_moved (.of_step hst)
  rw [hs]
  exact ⟨.inl rfl, nofun⟩

theorem Moved.lease_kept (h : Moved s call reply t)
    (hr : ∀ lease, reply ≠ .execution lease) {active' : ActiveExecution Id} (ha' : t.active = some active') :
    ∃ active, s.active = some active ∧ active.lease = active'.lease := by
  cases h with
  | acquired owner _ _ _ => exact (hr _ rfl).elim
  | settled _ _ _ _ _ _ _ => cases ha'
  | lifecycle _ _ =>
    obtain ⟨active, ha, rfl⟩ := Option.map_eq_some_iff.1 ha'
    exact ⟨active, ha, rfl⟩
  | rolledBack owner _ _ =>
    obtain ⟨active, ha, rfl⟩ := Option.map_eq_some_iff.1 ha'
    exact ⟨active, ha, (ActiveExecution.rolledBack_lease owner active).symm⟩
  | cancelled _ active _ _ _ ha _ _ | released _ active ha | terminated active ha =>
    cases ha'
    exact ⟨active, ha, rfl⟩
  | refused _ _ | alreadyCancelled _ | alreadyReleased _ | metadataAcquired _ _ | metadataSettled _ | tornDown _ _
    | dispatched _ _ => exact ⟨active', ha', rfl⟩

theorem Moved.busy (h : Moved s call reply t) (hs : s.isBusy = true ∨ s.closed = true) :
    (∀ lease, reply ≠ .execution lease) ∧ ∀ lease, reply ≠ .metadata lease := by
  cases h with
  | acquired _ _ hc hb | metadataAcquired hc hb =>
    rcases hs with hs | hs
    · rw [hb] at hs
      cases hs
    · rw [hc] at hs
      cases hs
  | _ => exact ⟨nofun, nofun⟩

theorem Moved.next_le (h : Moved s call reply t) : s.nextExecutionId ≤ t.nextExecutionId := by
  cases h with
  | acquired _ _ _ _ | metadataAcquired _ _ => exact Nat.le_succ _
  | _ => exact Nat.le_refl _

/-! ## A pending dispatch keeps the connection for its run -/

/-- The run's dispatch is pending, and no other execution is in the actor. -/
def Held (lease : ExecutionLease Id) (s : ConnectionActor Id) : Prop :=
  s.pendingCancelDispatch = some lease.owner ∧ ∀ active, s.active = some active → active.lease = lease

omit [DecidableEq Id] in
theorem Held.busy {s : ConnectionActor Id} (h : Held lease s) : s.isBusy = true := by
  rw [ConnectionActor.isBusy, h.1, Option.isSome_some, Bool.or_true, Bool.true_or]

theorem Held.of_moved (hs : Held lease s) (h : Moved s call reply t)
    (hend : ¬ ((call = .completeCancelDispatch lease.owner ∨ call = .failCancelDispatch lease.owner) ∧
      reply = .done)) : Held lease t := by
  refine ⟨?_, fun active' ha' => ?_⟩
  · cases h with
    | cancelled owner active _ _ hp ha ho _ =>
      rw [hs.2 active ha] at ho
      exact (hp (ho ▸ hs.1)).elim
    | dispatched owner hp =>
      cases hp.symm.trans hs.1
      exact (hend ⟨.inl rfl, rfl⟩).elim
    | rolledBack owner _ hp =>
      cases hp.symm.trans hs.1
      exact (hend ⟨.inr rfl, rfl⟩).elim
    | _ => exact hs.1
  · obtain ⟨active, ha, hl⟩ := h.lease_kept (h.busy (.inl hs.busy)).1 ha'
    rw [← hl]
    exact hs.2 active ha

/-! ## A settled lease is dead -/

/-- The lease was handed out and is not the occupied execution's. -/
def Dead (lease : ExecutionLease Id) (s : ConnectionActor Id) : Prop :=
  lease.executionId < s.nextExecutionId ∧
    ∀ active, s.active = some active → active.lease.executionId ≠ lease.executionId

theorem Dead.of_moved (hs : Dead lease s) (h : Moved s call reply t) : Dead lease t := by
  refine ⟨Nat.lt_of_lt_of_le hs.1 h.next_le, fun active' ha' => ?_⟩
  by_cases hr : ∃ l, reply = .execution l
  · obtain ⟨l, rfl⟩ := hr
    cases h with
    | acquired owner _ _ _ =>
      cases ha'
      exact Nat.ne_of_gt hs.1
  · obtain ⟨active, ha, hl⟩ := h.lease_kept (fun l he => hr ⟨l, he⟩) ha'
    rw [← hl]
    exact hs.2 active ha

theorem Dead.refused {s : ConnectionActor Id} (hs : Dead lease s)
    (hc : call.ActsFor lease) : ∃ error, s.step call = (.refused error, s) := by
  have hv : ∃ error, s.validateExecutionLease lease = .error error := by
    rw [ConnectionActor.validateExecutionLease]
    split
    · exact ⟨_, rfl⟩
    · rename_i active ha
      rw [if_neg fun he => hs.2 active ha (congrArg ExecutionLease.executionId he)]
      exact ⟨_, rfl⟩
  obtain ⟨error, hv⟩ := hv
  refine ⟨error, ?_⟩
  rcases hc with ⟨policy, rfl⟩ | rfl | rfl
  · rw [ConnectionActor.step, ConnectionActor.settleExecutionWithPolicy, hv]
    rfl
  · rw [ConnectionActor.step, ConnectionActor.requestRelease, hv]
    rfl
  · rw [ConnectionActor.step, ConnectionActor.markConnectionTerminated, hv]
    rfl

theorem Moved.settles (h : Moved s (.settleExecution lease policy) (.settlement settlement) t) :
    ∃ active, s.active = some active ∧ active.lease = lease ∧ t.active = none ∧
      t.nextExecutionId = s.nextExecutionId ∧ settlement.Reports active.settlement := by
  cases h with
  | settled active _ _ closed ha hst _ =>
    refine ⟨active, ha, rfl, rfl, rfl, ?_⟩
    rw [hst]
    exact ⟨id, id, fun hd => by rw [show active.connectionTerminationRequired = true from hd]; rfl⟩

theorem Dead.of_settled (hs : Exclusive s)
    (h : Moved s (.settleExecution lease policy) (.settlement settlement) t) : Dead lease t := by
  obtain ⟨active, ha, rfl, hn, hid, -⟩ := h.settles
  refine ⟨hid ▸ hs.fresh active ha, fun active' ha' => ?_⟩
  rw [hn] at ha'
  cases ha'

/-! ## Closed for good -/

theorem Moved.closed (h : Moved s call reply t) (hs : s.closed = true) : t.closed = true := by
  cases h with
  | settled _ _ _ _ _ _ hc => exact hc hs
  | tornDown _ _ | lifecycle _ _ | terminated _ _ => rfl
  | _ => exact hs

/-! ## What was demanded -/

theorem Settlement.Reports.refl (d : Settlement) : d.Reports d := ⟨id, id, id⟩

theorem Settlement.Reports.trans {a b c : Settlement} (h1 : a.Reports b) (h2 : b.Reports c) : a.Reports c :=
  ⟨h1.cancel ∘ h2.cancel, h1.release ∘ h2.release, h1.termination ∘ h2.termination⟩

/-- The lease's execution carries the demand, or has settled; the actor is closed. -/
def Carries (lease : ExecutionLease Id) (demand : Settlement) (s : ConnectionActor Id) : Prop :=
  s.closed = true ∧
    (Dead lease s ∨ ∃ active, s.active = some active ∧ active.lease = lease ∧ active.settlement.Reports demand)

theorem Moved.reports (h : Moved s call reply t)
    (hc : s.closed = true) (hsp : Spares s call) {active active' : ActiveExecution Id} (ha : s.active = some active)
    (ha' : t.active = some active') : active'.settlement.Reports active.settlement := by
  cases h with
  | acquired _ _ hc' _ =>
    rw [hc] at hc'
    cases hc'
  | settled _ _ _ _ _ _ _ => cases ha'
  | lifecycle _ _ =>
    obtain rfl : active.tornDown = active' := by
      rw [ha] at ha'
      exact Option.some.inj ha'
    refine ⟨fun _ => rfl, fun _ => rfl, fun hd => ?_⟩
    change active.connectionTerminationRequired = true at hd
    cases hcap : active.cancelCapability <;>
      simp only [ActiveExecution.tornDown, ActiveExecution.settlement, hcap, hd]
  | rolledBack owner hb hp =>
    obtain rfl : active.rolledBack owner = active' := by
      rw [ha] at ha'
      exact Option.some.inj ha'
    have ho : active.lease.owner ≠ owner := by
      intro ho
      have hf := hsp owner active rfl hb hp ha ho
      rw [hc] at hf
      cases hf
    rw [ActiveExecution.rolledBack, if_neg ho]
    exact .refl _
  | cancelled _ a _ _ _ ha2 _ hm =>
    cases ha.symm.trans ha2
    cases ha'
    exact ⟨fun _ => rfl, id, hm⟩
  | released _ a ha2 =>
    cases ha.symm.trans ha2
    cases ha'
    exact ⟨id, fun _ => rfl, id⟩
  | terminated a ha2 =>
    cases ha.symm.trans ha2
    cases ha'
    exact ⟨id, id, fun _ => rfl⟩
  | refused _ _ | alreadyCancelled _ | alreadyReleased _ | metadataAcquired _ _ | metadataSettled _ | tornDown _ _
    | dispatched _ _ =>
    cases ha.symm.trans ha'
    exact .refl _

theorem Carries.of_moved (hs : Carries lease demand s) (hx : Exclusive s) (h : Moved s call reply t)
    (hsp : Spares s call) : Carries lease demand t := by
  refine ⟨h.closed hs.1, ?_⟩
  rcases hs.2 with hd | ⟨active, ha, rfl, hr⟩
  · exact .inl (hd.of_moved h)
  · cases ht : t.active with
    | none =>
      refine .inl ⟨Nat.lt_of_lt_of_le (hx.fresh active ha) h.next_le, fun active' ha' => ?_⟩
      rw [ht] at ha'
      cases ha'
    | some active' =>
      obtain ⟨a, ha2, hl⟩ := h.lease_kept (h.busy (.inr hs.1)).1 ht
      cases ha.symm.trans ha2
      exact .inr ⟨active', rfl, hl.symm, (h.reports hs.1 hsp ha ht).trans hr⟩

theorem Demands.carries
    (h : Demands lease demand x) (hm : Moved x.src x.label.1 x.label.2 x.dst) : Carries lease demand x.dst := by
  obtain ⟨src, ⟨call, reply⟩, dst⟩ := x
  rcases h with ⟨active, state, ha, rfl, hl, rfl⟩ | ⟨hl, rfl⟩
  · cases hl
    change Moved src _ _ dst at hm
    cases hm with
    | lifecycle _ hst =>
      refine ⟨rfl, .inr ⟨active.tornDown, ?_, rfl, ?_⟩⟩
      · rw [ha]
        rfl
      · rw [hst active ha]
        exact .refl _
  · cases hl
    change Moved src _ _ dst at hm
    cases hm with
    | terminated active ha => exact ⟨rfl, .inr ⟨_, rfl, rfl, nofun, nofun, fun _ => rfl⟩⟩

theorem Moved.demanded (h : Moved s call reply t)
    (hs : s.closed = false) (ht : t.closed = true) {active : ActiveExecution Id} (ha : t.active = some active) :
    ∃ demand, Demands active.lease demand ⟨s, (call, reply), t⟩ ∧
      (demand.cancelRequested = true ∨ demand.connectionTerminationRequired = true) := by
  cases h with
  | tornDown _ hb =>
    rw [(ConnectionActor.isBusy_false.1 hb).1] at ha
    cases ha
  | lifecycle state hst =>
    obtain ⟨a, ha', rfl⟩ := Option.map_eq_some_iff.1 ha
    refine ⟨_, .inl ⟨a, state, ha', rfl, rfl, rfl⟩, .inl ?_⟩
    rw [hst a ha']
    rfl
  | settled _ _ _ _ _ _ _ => cases ha
  | terminated a _ =>
    cases ha
    exact ⟨_, .inr ⟨rfl, rfl⟩, .inr rfl⟩
  | _ =>
    rw [show s.closed = true from ht] at hs
    cases hs

theorem closed_demanded {s : ConnectionActor Id}
    (h : ActorRun identity l s) : s.closed = true → ∀ active, s.active = some active →
      ∃ x ∈ l, ∃ demand, Demands active.lease demand x ∧
        (demand.cancelRequested = true ∨ demand.connectionTerminationRequired = true) := by
  refine h.history (P := fun l s => s.closed = true → ∀ active, s.active = some active →
    ∃ x ∈ l, ∃ demand, Demands active.lease demand x ∧
      (demand.cancelRequested = true ∨ demand.connectionTerminationRequired = true)) (fun s hs hc => ?_) ?_
  · rw [hs] at hc
    cases hc
  · intro l s a t _ ih hst hc active ha
    have hm := Moved.of_step hst
    cases hs : s.closed with
    | true =>
      obtain ⟨active', ha', hl⟩ := hm.lease_kept (hm.busy (.inr hs)).1 ha
      obtain ⟨x, hx, hd⟩ := ih hs active' ha'
      rw [hl] at hd
      exact ⟨x, List.mem_append_left _ hx, hd⟩
    | false => exact ⟨_, List.mem_concat_self, hm.demanded hs hc ha⟩

theorem rollback_loses {s : ConnectionActor Id} (h : ActorRun identity l s) (hsp : ¬ Spares s call) :
    ∃ x ∈ l, ∃ active demand, (s.step call).2.active = some active ∧ Demands active.lease demand x ∧
      ¬ active.settlement.Reports demand := by
  simp only [Spares, not_forall] at hsp
  obtain ⟨owner, active, rfl, hb, hp, ha, ho, hc⟩ := hsp
  obtain ⟨x, hx, demand, hd, hflag⟩ := closed_demanded h (by simpa using hc) active ha
  have hstep : (s.step (.failCancelDispatch owner)).2.active = some (active.rolledBack owner) := by
    simp only [ConnectionActor.step, ConnectionActor.failCancelDispatch, hb, hp, ha, if_true, Bool.true_eq_false, if_false,
      ConnectionActor.acknowledged, Option.map_some]
  rw [← ActiveExecution.rolledBack_lease owner active] at hd
  refine ⟨x, hx, _, demand, hstep, hd, fun hr => ?_⟩
  rw [ActiveExecution.rolledBack, if_pos ho] at hr
  rcases hflag with hflag | hflag
  · cases hr.cancel hflag
  · cases hr.termination hflag

theorem StartsCancel.held {owner : QueryRunOwner Id} (h : StartsCancel owner x)
    (hm : Moved x.src x.label.1 x.label.2 x.dst) :
    ∃ lease, lease.owner = owner ∧ x.src.active.map ActiveExecution.lease = some lease ∧ Held lease x.dst := by
  obtain ⟨src, ⟨call, reply⟩, dst⟩ := x
  obtain ⟨rfl, request, rfl, hr⟩ := h
  change Moved src _ _ dst at hm
  cases hm with
  | alreadyCancelled _ => exact (hr rfl).elim
  | cancelled owner active _ terminated hp ha ho _ =>
    refine ⟨active.lease, ho, ?_, congrArg some ho.symm, fun a ha' => ?_⟩
    · rw [ha]
      rfl
    · cases ha'
      rfl

/-! ## The theorem -/

/-- **The discipline of one connection's leases, in every run**: one lease at a time; while a run's dispatch is pending
no lease is handed out and no other execution is in the actor; a settled lease is refused for good; a closed actor hands
out nothing; and a settlement reports what was demanded, if no call rolled a demand back, which each such call does. -/
theorem lease_discipline {identity : ConnectionIdentity Id} {l : List (ActorEvent Id)} {s : ConnectionActor Id}
    (h : ActorRun identity l s) :
    (s.active = none ∨ s.metadata = none) ∧
    (∀ owner past x mid y later, l = past ++ x :: mid ++ y :: later → StartsCancel owner x →
      (∀ z ∈ mid, ¬ EndsCancel owner z) →
      ¬ Acquires y ∧ ∀ active, y.src.active = some active →
        x.src.active.map ActiveExecution.lease = some active.lease) ∧
    (∀ lease settlement past x mid y later, l = past ++ x :: mid ++ y :: later → Settles lease settlement x →
      y.label.1.ActsFor lease → (∃ error, y.label.2 = .refused error) ∧ y.dst = y.src) ∧
    (∀ past x mid y later, l = past ++ x :: mid ++ y :: later → x.dst.closed = true →
      ¬ Acquires y ∧ y.dst.closed = true) ∧
    ((∀ x ∈ l, Spares x.src x.label.1) →
      ∀ lease demand settlement past x mid y later, l = past ++ x :: mid ++ y :: later → Demands lease demand x →
        Settles lease settlement y → settlement.Reports demand) ∧
    (∀ call, ¬ Spares s call → ∃ x ∈ l, ∃ active demand, (s.step call).2.active = some active ∧
      Demands active.lease demand x ∧ ¬ active.settlement.Reports demand) := by
  have moved : ∀ past (x : ActorEvent Id) later, l = past ++ x :: later → Moved x.src x.label.1 x.label.2 x.dst :=
    fun past x later hl => .of_step (h.split hl).2
  have first : ∀ past (x : ActorEvent Id) mid (y : ActorEvent Id) later, l = past ++ x :: mid ++ y :: later →
      Moved x.src x.label.1 x.label.2 x.dst :=
    fun past x mid y later hl => moved past x (mid ++ y :: later) (by rw [hl]; simp)
  refine ⟨(exclusive_run h).one, ?_, ?_, ?_, ?_, fun call => rollback_loses h⟩
  · intro owner past x mid y later hl hx hz
    obtain ⟨lease, rfl, hlease, hheld⟩ := hx.held (first past x mid y later hl)
    have hy : Held lease y.src := h.between hl hheld fun z hzm hst hs => hs.of_moved (.of_step hst) (hz z hzm)
    obtain ⟨he, hm⟩ := (moved _ y later hl).busy (.inl hy.busy)
    refine ⟨?_, fun active ha => ?_⟩
    · rintro (⟨lease, hr⟩ | ⟨lease, hr⟩)
      · exact he lease hr
      · exact hm lease hr
    · rw [hlease, hy.2 active ha]
  · intro lease settlement past x mid y later hl hx hc
    have hxm := first past x mid y later hl
    have hxs : Exclusive x.src := exclusive_run (h.split (by rw [hl, List.append_assoc, List.cons_append])).1
    obtain ⟨policy, hlabel⟩ := hx
    rw [hlabel] at hxm
    have hy : Dead lease y.src :=
      h.between hl (.of_settled hxs hxm) fun z _ hst hs => hs.of_moved (.of_step hst)
    obtain ⟨error, hr⟩ := hy.refused hc
    obtain ⟨h1, h2⟩ := Prod.mk.inj (hr.symm.trans (h.split hl).2)
    exact ⟨⟨error, h1.symm⟩, h2.symm⟩
  · intro past x mid y later hl hx
    have hy : y.src.closed = true :=
      h.between (P := fun s => s.closed = true) hl hx fun z _ hst hs => (Moved.of_step hst).closed hs
    obtain ⟨he, hm⟩ := (moved _ y later hl).busy (.inr hy)
    refine ⟨?_, (moved _ y later hl).closed hy⟩
    rintro (⟨lease, hr⟩ | ⟨lease, hr⟩)
    · exact he lease hr
    · exact hm lease hr
  · intro hsp lease demand settlement past x mid y later hl hx hy
    have hxs : Exclusive x.dst := by
      have hxs : Exclusive x.src := exclusive_run (h.split (by rw [hl, List.append_assoc, List.cons_append])).1
      exact hxs.of_moved (first past x mid y later hl)
    have hc : Exclusive y.src ∧ Carries lease demand y.src :=
      h.between (P := fun s => Exclusive s ∧ Carries lease demand s) hl ⟨hxs, hx.carries (first past x mid y later hl)⟩
        fun z hz hst hs => ⟨hs.1.of_moved (.of_step hst),
          hs.2.of_moved hs.1 (.of_step hst) (hsp z (by rw [hl]; simp [hz]))⟩
    have hym := moved _ y later hl
    obtain ⟨policy, hlabel⟩ := hy
    rw [hlabel] at hym
    obtain ⟨active, ha, rfl, -, -, hr⟩ := hym.settles
    rcases hc.2.2 with hd | ⟨a, ha2, -, hr2⟩
    · exact (hd.2 active ha rfl).elim
    · cases ha.symm.trans ha2
      exact hr.trans hr2

/-! ## The ids of a run -/

def Reply.handedOut : Reply Id → Option Nat
  | .execution lease => some lease.executionId
  | .metadata lease => some lease.operationId
  | _ => none

theorem Moved.handedOut (h : Moved s call reply t) :
    List.range t.nextExecutionId = List.range s.nextExecutionId ++ reply.handedOut.toList := by
  cases h with
  | acquired _ _ _ _ | metadataAcquired _ _ => exact List.range_succ
  | _ => exact (List.append_nil _).symm

/-- **One counter numbers the leases of a connection**: whatever is called, in whatever order, the executions and the
metadata operations that were let in have the ids 1, 2, 3 and so on, in the order in which they were let in. -/
theorem handedOut_consecutive (identity : ConnectionIdentity Id) (calls : List (Call Id)) :
    let run := Trace.follow ConnectionActor.step calls [] (.new identity)
    0 :: run.1.filterMap (fun x => x.label.2.handedOut) = List.range run.2.nextExecutionId := by
  intro run
  have hrun : ActorRun identity run.1 run.2 := Trace.of_follow calls (.start rfl)
  refine hrun.history (P := fun l s => 0 :: l.filterMap (fun x => x.label.2.handedOut) = List.range s.nextExecutionId)
    (fun s hs => ?_) fun l s a t _ ih hst => ?_
  · rw [hs]
    rfl
  · rw [(Moved.of_step hst).handedOut, ← ih, List.filterMap_append, List.cons_append]
    cases h : a.2.handedOut <;> simp [h]

/-! ## Two runs -/

namespace Sample

def connection : ConnectionIdentity String := ⟨"db", "connection-a", "generation-7"⟩

def queryA : QueryRunOwner String := ⟨"db", "connection-a", "generation-7", "query-a"⟩

def leaseA : ExecutionLease String := ⟨queryA, 1⟩

def played (calls : List (Call String)) : List (ActorEvent String) × ConnectionActor String :=
  Trace.follow ConnectionActor.step calls [] (.new connection)

theorem run_played (calls : List (Call String)) : ActorRun connection (played calls).1 (played calls).2 :=
  Trace.of_follow calls (.start rfl)

/-- A cancel whose dispatch fails after a lifecycle teardown of the same execution. -/
def failedDispatch : List (Call String) :=
  [.acquireExecution queryA .postgresProtocolCancel, .requestCancel queryA, .requestLifecycleTeardown,
    .failCancelDispatch queryA, .settleExecution leaseA false]

def completedDispatch : List (Call String) :=
  [.acquireExecution queryA .postgresProtocolCancel, .requestCancel queryA, .requestLifecycleTeardown,
    .completeCancelDispatch queryA, .settleExecution leaseA false]

end Sample

/-- **A failed dispatch takes back what a teardown demanded**: the settlement reports neither the cancellation nor the
termination. -/
theorem teardown_demand_lost :
    ¬ ∀ (l : List (ActorEvent String)) (s : ConnectionActor String), ActorRun Sample.connection l s →
      ∀ lease demand settlement past x mid y later, l = past ++ x :: mid ++ y :: later → Demands lease demand x →
        Settles lease settlement y → settlement.Reports demand := by
  intro h
  have hr := h _ _ (Sample.run_played Sample.failedDispatch) Sample.leaseA ⟨true, true, true⟩ ⟨false, true, false⟩
    ((Sample.played Sample.failedDispatch).1.take 2) _ [_] _ [] (by rfl)
    (.inl ⟨_, ⟨some Sample.queryA, true, true, true, true⟩, rfl, rfl, rfl, rfl⟩) ⟨false, rfl⟩
  cases hr.cancel rfl

/-- Where the dispatch completes, the settlement reports all three. -/
theorem lease_discipline_completed : (∀ x ∈ (Sample.played Sample.completedDispatch).1, Spares x.src x.label.1) ∧
      ((Sample.played Sample.completedDispatch).1.getLast?.map fun x => x.label.2) =
        some (.settlement ⟨true, true, true⟩) ∧
      (⟨true, true, true⟩ : Settlement).Reports ⟨true, true, true⟩ := by
  have hsp : ∀ x ∈ (Sample.played Sample.completedDispatch).1, Spares x.src x.label.1 := by
    have hcall : ∀ x ∈ (Sample.played Sample.completedDispatch).1, x.label.1 ∈ Sample.completedDispatch := by decide
    intro x hx owner active hc
    have hm := hcall x hx
    rw [hc] at hm
    simp [Sample.completedDispatch] at hm
  exact ⟨hsp, by rfl, (lease_discipline (Sample.run_played Sample.completedDispatch)).2.2.2.2.1 hsp Sample.leaseA ⟨true, true, true⟩
    ⟨true, true, true⟩ ((Sample.played Sample.completedDispatch).1.take 2) _ [_] _ [] (by rfl)
    (.inl ⟨_, ⟨some Sample.queryA, true, true, true, true⟩, rfl, rfl, rfl, rfl⟩) ⟨false, rfl⟩⟩

end Db
end Yuzora
