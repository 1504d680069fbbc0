import Yuzora.InputAudit
/-!
# InputCover — the audit covers every input the Host received

Two orders meet.  The reactor closes a stream, or ends the peer's life, before it drops it and with it forces the bucket
out; a job counts its input before its last check.  So an input counted too late for the forced flush fails that check.
-/
namespace Yuzora
namespace Writes

namespace InputState

variable (s : InputState)

def fenced : Bool := s.closed.isSome || !s.life.alive

def sent : Nat := (s.received.map Input.bytes).sum

def audited : Nat := (s.enqueued.map AuditEvent.bytes).sum

def inBucket : Nat := (s.bucket.map Bucket.bytes).getD 0

end InputState

def Running.pending (r : Running) : Nat :=
  match r.place with
  | .starting | .rechecking _ => r.input.bytes
  | _ => 0

def Running.Doomed (s : InputState) (r : Running) : Prop :=
  match r.place with
  | .starting => s.fenced = true
  | .rechecking todo => ∃ load ∈ todo, load.passes (s.job r.input) (s.memory r) = false
  | .ended => True
  | _ => False

def fencedFirst : Bool → List Act → Bool
  | _, [] => true
  | _, .close _ :: rest => fencedFirst true rest
  | _, .endLife :: rest => fencedFirst true rest
  | fenced, .drop :: rest => fenced && fencedFirst fenced rest
  | fenced, _ :: rest => fencedFirst fenced rest

theorem fencedFirst_mono {fenced fenced' : Bool} (h : fenced = true → fenced' = true) :
    ∀ todo : List Act, fencedFirst fenced todo = true → fencedFirst fenced' todo = true
  | [], _ => rfl
  | .close _ :: _, hf => hf
  | .endLife :: _, hf => hf
  | .drop :: rest, hf => by
    rw [fencedFirst, Bool.and_eq_true] at hf ⊢
    exact ⟨h hf.1, fencedFirst_mono h rest hf.2⟩
  | .expire :: rest, hf => fencedFirst_mono h rest hf
  | .flush :: rest, hf => fencedFirst_mono h rest hf
  | .discard :: rest, hf => fencedFirst_mono h rest hf

/-- The inputs in flight are in order: counted before running before queued. -/
structure Serials (s : InputState) : Prop where
  writes : s.writes.Pairwise (fun a b => a.serial < b.serial)
  admitted : ∀ w ∈ s.writes, w.serial < s.admitted
  running : ∀ r ∈ s.running, r.input.serial < s.admitted ∧ ∀ w ∈ s.writes, r.input.serial < w.serial
  received : ∀ x ∈ s.received, x.serial < s.admitted ∧ ∀ w ∈ s.writes, x.serial < w.serial
  unsent : ∀ r ∈ s.running, r.place ≠ .ended → r.input.serial ∉ s.received.map Input.serial
  counted : ∀ b ∈ s.bucket, ∀ n ∈ b.counted, n < s.admitted ∧ ∀ w ∈ s.writes, n < w.serial

structure Covered (s : InputState) : Prop where
  serials : Serials s
  unleased : s.lease = false → s.writes = [] ∧ s.running = none ∧ s.bucket = none ∧ s.received = []
  fences : s.lease = true → fencedFirst s.fenced s.todo = true
  leaves : Act.drop ∈ s.todo → s.present = false
  absent : s.gone = true → s.present = false
  fenced : s.gone = true → s.lease = true → s.fenced = true
  reserved : s.bucket.isSome = true → 0 < s.events.reserved.buckets
  balance : s.gone = false → s.sent + (s.running.map Running.pending).getD 0 ≤ s.audited + s.inBucket
  covered : s.gone = true → s.sent ≤ s.audited ∧ ∀ r ∈ s.running, s.sent + r.pending ≤ s.audited ∨ r.Doomed s
  late : s.gone = true → ∀ b ∈ s.bucket, ∀ n ∈ b.counted,
    n ∉ s.received.map Input.serial ∧ ∀ r ∈ s.running, r.input.serial = n → r.Doomed s
  lost : ∀ b ∈ s.discarded, s.gone = true ∧ s.running = none ∧ s.writes = [] ∧
    ∀ n ∈ b.counted, n ∉ s.received.map Input.serial

/-! ## The memory moves on -/

variable {r r' : Running}

variable {s t : InputState}

theorem fenced_later (hm : s.memory r ≤ t.memory r') (h : s.fenced = true) : t.fenced = true := by
  have hclosed : t.closed = none → s.closed = none := hm.closed
  have halive : t.life.alive = true → s.life.alive = true := hm.alive
  simp only [InputState.fenced, Bool.or_eq_true, Bool.not_eq_true', Option.isSome_iff_ne_none] at h ⊢
  grind

theorem Running.Doomed.later (h : r.Doomed s) (hplace : r'.place = r.place)
    (hinput : r'.input = r.input) (hdeadline : t.deadline = s.deadline) (hm : s.memory r ≤ t.memory r') : r'.Doomed t := by
  unfold Running.Doomed at h ⊢
  rw [hplace]
  cases hp : r.place with
  | starting =>
    simp only [hp] at h
    exact fenced_later hm h
  | rechecking todo =>
    simp only [hp] at h
    obtain ⟨load, hload, hfails⟩ := h
    refine ⟨load, hload, Bool.eq_false_iff.2 fun hpass => ?_⟩
    rw [InputState.job, hdeadline, hinput] at hpass
    have := Load.passes_of_le hm hpass
    rw [InputState.job, this] at hfails
    cases hfails
  | ended => trivial
  | checking | locking | reserving | counting => simp [hp] at h

namespace Covered
section
variable (h : Covered s)
include h

theorem remembered {life : Life} {closed : Option Code} {clock : Timestamp}
    (hm : ∀ r, s.memory r ≤ ({ s with life, closed, clock } : InputState).memory r) :
    Covered { s with life, closed, clock } := by
  have hfenced : s.fenced = true → ({ s with life, closed, clock } : InputState).fenced = true :=
    fenced_later (hm ⟨⟨0, 0, 0⟩, false, false, .ended⟩)
  have hdoomed : ∀ r : Running, r.Doomed s → r.Doomed ({ s with life, closed, clock } : InputState) :=
    fun r hr => hr.later rfl rfl rfl (hm r)
  exact { h with
    serials := { h.serials with }
    fences := fun hl => fencedFirst_mono hfenced s.todo (h.fences hl)
    fenced := fun hg hl => hfenced (h.fenced hg hl)
    balance := h.balance
    covered := fun hg => ⟨(h.covered hg).1, fun r hr => ((h.covered hg).2 r hr).imp_right (hdoomed r)⟩
    late := fun hg b hb n hn =>
      ⟨(h.late hg b hb n hn).1, fun r hr he => hdoomed r ((h.late hg b hb n hn).2 r hr he)⟩ }

theorem leased {r : Running} (hr : s.running = some r) : s.lease = true := by
  by_contra hl
  have := (h.unleased (Bool.eq_false_iff.2 hl)).2.1
  rw [hr] at this
  cases this

theorem moved {r x : Running} (hr : s.running = some r) (hended : x.place ≠ .ended → r.place ≠ .ended)
    (hinput : x.input = r.input) (hpending : x.pending ≤ r.pending) (hdoomed : r.Doomed s → x.Doomed s) :
    Covered { s with running := some x } := by
  have hkeep : ∀ r₁ : Running, r₁.Doomed s → r₁.Doomed { s with running := some x } :=
    fun r₁ h₁ => h₁.later rfl rfl rfl (le_refl _)
  have hlease := h.leased hr
  exact { h with
    serials := { h.serials with
      running := fun y hy => by
        cases hy
        rw [hinput]
        exact h.serials.running r hr
      unsent := fun y hy hne => by
        cases hy
        rw [hinput]
        exact h.serials.unsent r hr (hended hne) }
    unleased := fun hl => by
      rw [hlease] at hl
      cases hl
    fences := h.fences
    balance := fun hg => by
      have := h.balance hg
      rw [hr] at this
      exact (Nat.add_le_add_left hpending _).trans this
    covered := fun hg => by
      refine ⟨(h.covered hg).1, fun y hy => ?_⟩
      cases hy
      rcases (h.covered hg).2 r hr with hc | hd
      · exact .inl ((Nat.add_le_add_left hpending _).trans hc)
      · exact .inr (hkeep _ (hdoomed hd))
    late := fun hg b hb n hn => by
      refine ⟨(h.late hg b hb n hn).1, fun y hy he => ?_⟩
      cases hy
      exact hkeep _ (hdoomed ((h.late hg b hb n hn).2 r hr (hinput ▸ he)))
    lost := fun b hb => by
      have := (h.lost b hb).2.1
      rw [hr] at this
      cases this }

theorem reserved_bucket (contended : Bool) (hlease : s.lease = true) : Covered (s.reserve contended) := by
  unfold InputState.reserve
  cases hb : s.bucket with
  | some b => exact h
  | none =>
    simp only
    split
    · rename_i events hreserve
      have htaken : events.reserved = s.events.reserved.taken .bucket := by
        cases contended with
        | true => cases hreserve
        | false => exact EventQueue.reserve_reserved hreserve
      exact { h with
        serials := { h.serials with
          counted := fun b hb n hn => by
            cases hb
            cases hn }
        unleased := fun hl => by
          rw [hlease] at hl
          cases hl
        fences := h.fences
        reserved := fun _ => by
          rw [htaken]
          exact Nat.succ_pos _
        balance := fun hg => by
          have := h.balance hg
          rw [InputState.inBucket, hb] at this
          exact this
        covered := h.covered
        late := fun _ b hb n hn => by
          cases hb
          cases hn
        lost := h.lost }
    · exact h

theorem counted {r : Running} {contended : Bool} (hr : s.running = some r) (hp : r.place = .counting)
    (ht : s.count r.input contended = some t) : Covered (t.moved r .starting) := by
  have hlease := h.leased hr
  have hunsent := h.serials.unsent r hr (by simp [hp])
  have hpending : r.pending = 0 := by
    unfold Running.pending
    simp only [hp]
  have hfenced : s.gone = true → Running.Doomed (t.moved r .starting) { r with place := .starting } := fun hg => by
    have := h.fenced hg hlease
    unfold InputState.count at ht
    split at ht
    · cases ht
      exact this
    · split at ht
      · cases ht
        exact this
      · cases ht
  unfold InputState.count at ht
  split at ht
  · rename_i b hb
    cases ht
    exact { h with
      serials := { h.serials with
        running := fun x hx => by
          cases hx
          exact h.serials.running r hr
        unsent := fun x hx _ => by
          cases hx
          exact hunsent
        counted := fun b' hb' n hn => by
          cases hb'
          rcases List.mem_append.1 hn with hn | hn
          · exact h.serials.counted b hb n hn
          · rw [List.mem_singleton.1 hn]
            exact h.serials.running r hr }
      unleased := fun hl => by
        rw [hlease] at hl
        cases hl
      fences := h.fences
      reserved := fun _ => h.reserved (by rw [hb]; rfl)
      balance := fun hg => by
        have := h.balance hg
        rw [hr, InputState.inBucket, hb] at this
        simp only [Option.map_some, Option.getD_some, hpending] at this
        show s.sent + r.input.bytes ≤ s.audited + (b.bytes + r.input.bytes)
        omega
      covered := fun hg => by
        refine ⟨(h.covered hg).1, fun x hx => .inr ?_⟩
        cases hx
        exact hfenced hg
      late := fun hg b' hb' n hn => by
        cases hb'
        refine ⟨?_, fun x hx _ => ?_⟩
        · rcases List.mem_append.1 hn with hn | hn
          · exact (h.late hg b hb n hn).1
          · rw [List.mem_singleton.1 hn]
            exact hunsent
        · cases hx
          exact hfenced hg
      lost := fun b' hb' => by
        have := (h.lost b' hb').2.1
        rw [hr] at this
        cases this }
  · rename_i hb
    split at ht
    · rename_i events hemit
      cases ht
      have haudited : ({ s with events, enqueued := s.enqueued ++ [.input s.action r.input.bytes] } : InputState).audited =
          s.audited + r.input.bytes := by
        simp [InputState.audited, AuditEvent.bytes]
      have hsent : s.gone = false → s.sent + r.input.bytes ≤ s.audited + r.input.bytes := fun hg => by
        have := h.balance hg
        rw [hr, InputState.inBucket, hb] at this
        simp only [Option.map_some, Option.map_none, Option.getD_some, Option.getD_none, hpending] at this
        omega
      exact { h with
        serials := { h.serials with
          running := fun x hx => by
            cases hx
            exact h.serials.running r hr
          unsent := fun x hx _ => by
            cases hx
            exact hunsent }
        unleased := fun hl => by
          rw [hlease] at hl
          cases hl
        fences := h.fences
        reserved := fun hs => by
          rw [hb] at hs
          cases hs
        balance := fun hg => by
          have := hsent hg
          exact (haudited ▸ this).trans (Nat.le_add_right _ _)
        covered := fun hg => by
          have hle := (h.covered hg).1
          refine ⟨?_, fun x hx => .inr ?_⟩
          · exact hle.trans (haudited ▸ Nat.le_add_right _ _)
          · cases hx
            exact hfenced hg
        late := fun hg b' hb' => by
          rw [hb] at hb'
          cases hb'
        lost := fun b' hb' => by
          have := (h.lost b' hb').2.1
          rw [hr] at this
          cases this }
    · cases ht

end

theorem check_fails (hf : s.fenced = true) :
    ∃ load ∈ (s.job r.input).check, load.passes (s.job r.input) (s.memory r) = false := by
  rw [InputState.fenced, Bool.or_eq_true, Bool.not_eq_true'] at hf
  rcases hf with hclosed | halive
  · refine ⟨.closed, by simp [Job.check, InputState.job], ?_⟩
    simpa [Load.passes, InputState.memory] using hclosed
  · exact ⟨.alive, by simp [Job.check, activeLoads], halive⟩

theorem called (h : Covered s) (hr : s.running = some r) (hp : r.place = .rechecking []) :
    Covered { s.moved r .ended with received := s.received ++ [r.input] } := by
  have hlease := h.leased hr
  have hpending : r.pending = r.input.bytes := by
    unfold Running.pending
    simp only [hp]
  have hnot : ¬ r.Doomed s := by
    unfold Running.Doomed
    simp [hp]
  have hsent : (({ s.moved r .ended with received := s.received ++ [r.input] } : InputState)).sent =
      s.sent + r.input.bytes := by
    simp [InputState.sent]
  exact { h with
    serials := { h.serials with
      running := fun x hx => by
        cases hx
        exact h.serials.running r hr
      received := fun x hx => by
        rcases List.mem_append.1 hx with hx | hx
        · exact h.serials.received x hx
        · rw [List.mem_singleton.1 hx]
          exact h.serials.running r hr
      unsent := fun x hx hne => by
        cases hx
        exact absurd rfl hne }
    unleased := fun hl => by
      have hl : s.lease = false := hl
      rw [hlease] at hl
      cases hl
    fences := h.fences
    balance := fun hg => by
      have := h.balance hg
      rw [hr] at this
      simp only [Option.map_some, Option.getD_some, hpending] at this
      rw [hsent]
      exact this
    covered := fun hg => by
      have hle := ((h.covered hg).2 r hr).resolve_right hnot
      rw [hpending] at hle
      refine ⟨by rw [hsent]; exact hle, fun x hx => .inr ?_⟩
      cases hx
      trivial
    late := fun hg b hb n hn => by
      obtain ⟨hnew, hdoomed⟩ := h.late hg b hb n hn
      refine ⟨?_, fun x hx _ => ?_⟩
      · rw [List.map_append, List.mem_append, not_or]
        refine ⟨hnew, fun he => ?_⟩
        exact hnot (hdoomed r hr (List.mem_singleton.1 he).symm)
      · cases hx
        trivial
    lost := fun b hb => by
      have := (h.lost b hb).2.1
      rw [hr] at this
      cases this }

theorem finished (h : Covered s) : Covered { s with running := none } := by
  exact { h with
    serials := { h.serials with
      running := nofun
      unsent := fun _ hx => by cases hx }
    unleased := fun hl => ⟨(h.unleased hl).1, rfl, (h.unleased hl).2.2⟩
    fences := h.fences
    balance := fun hg => (Nat.le_add_right _ _).trans (h.balance hg)
    covered := fun hg => ⟨(h.covered hg).1, nofun⟩
    late := fun hg b hb n hn => ⟨(h.late hg b hb n hn).1, nofun⟩
    lost := fun b hb => ⟨(h.lost b hb).1, rfl, (h.lost b hb).2.2⟩ }

/-- **The executor's steps.** -/
theorem executed (h : Covered s) (hr : s.running = some r) (contended : Bool) : Covered (s.execute r contended) := by
  cases hp : r.place with
  | checking todo =>
    have hdoomed : ¬ r.Doomed s := by
      unfold Running.Doomed
      simp [hp]
    cases todo with
    | nil | cons =>
      simp only [InputState.execute, hp]
      refine h.moved hr (fun _ => by simp [hp]) rfl ?_ fun hd => absurd hd hdoomed
      split <;> exact Nat.zero_le _
  | locking =>
    simp only [InputState.execute, hp]
    refine h.moved hr (fun _ => by simp [hp]) rfl (Nat.zero_le _) fun hd => ?_
    unfold Running.Doomed at hd
    simp [hp] at hd
  | reserving =>
    simp only [InputState.execute, hp]
    have hrunning : (s.reserve contended).running = some r := by
      unfold InputState.reserve
      split
      · exact hr
      · split <;> exact hr
    refine (h.reserved_bucket contended (h.leased hr)).moved hrunning (fun _ => by simp [hp]) rfl (Nat.zero_le _) fun hd => ?_
    unfold Running.Doomed at hd
    simp [hp] at hd
  | counting =>
    simp only [InputState.execute, hp]
    split
    · rename_i t ht
      exact h.counted hr hp ht
    · exact h.moved hr (fun _ => by simp [hp]) rfl (Nat.zero_le _) fun _ => trivial
  | starting =>
    simp only [InputState.execute, hp]
    refine h.moved (x := { r with started := true, place := .rechecking (s.job r.input).check }) hr (fun _ => by simp [hp])
      rfl ?_ fun hd => ?_
    · unfold Running.pending
      simp [hp]
    · unfold Running.Doomed at hd
      simp only [hp] at hd
      exact check_fails hd
  | rechecking todo =>
    cases todo with
    | nil =>
      simp only [InputState.execute, hp]
      exact h.called hr hp
    | cons load todo =>
      simp only [InputState.execute, hp]
      refine h.moved hr (fun _ => by simp [hp]) rfl ?_ fun hd => ?_
      · unfold Running.pending
        rw [hp]
        split <;> simp
      · unfold Running.Doomed at hd
        simp only [hp] at hd
        obtain ⟨old, hold, hfails⟩ := hd
        by_cases hpass : load.passes (s.job r.input) (s.memory r) = true
        · rw [if_pos hpass]
          rcases List.mem_cons.1 hold with rfl | hold
          · rw [hpass] at hfails
            cases hfails
          · exact ⟨old, hold, hfails⟩
        · rw [if_neg hpass]
          trivial
  | ended =>
    simp only [InputState.execute, hp]
    exact h.finished

/-! ## The reactor -/

theorem flush_cases (h : Covered s) (force : Bool) :
    s.flush force = s ∧ (force = true → s.bucket = none) ∨ ∃ b events, s.bucket = some b ∧ s.flush force =
      { s with bucket := none, events, enqueued := s.enqueued ++ [.input s.action b.bytes] } := by
  unfold InputState.flush
  cases hb : s.bucket with
  | none => exact .inl ⟨rfl, fun _ => rfl⟩
  | some b =>
    simp only
    split
    · have hreserved : 0 < s.events.reserved.count .bucket := h.reserved (by rw [hb]; rfl)
      obtain ⟨events, he, -, -⟩ := EventQueue.emit_of_reserved hreserved (.input s.action b.bytes)
      exact .inr ⟨b, events, rfl, by rw [InputState.emitBucket, he]⟩
    · rename_i hno
      exact .inl ⟨rfl, fun hf => absurd (.inl hf) hno⟩

theorem flush_audited {b : Bucket} (events : EventQueue AuditEvent) (hb : s.bucket = some b) :
    ({ s with bucket := none, events, enqueued := s.enqueued ++ [.input s.action b.bytes] } : InputState).audited =
      s.audited + s.inBucket := by
  simp [InputState.audited, InputState.inBucket, AuditEvent.bytes, hb]

section
variable (h : Covered s)
include h

theorem emitted {b : Bucket} {events : EventQueue AuditEvent} (hb : s.bucket = some b) :
    Covered { s with bucket := none, events, enqueued := s.enqueued ++ [.input s.action b.bytes] } := by
  have haudited := flush_audited events hb
  exact { h with
    serials := { h.serials with counted := fun _ hb' => by cases hb' }
    unleased := fun hl => ⟨(h.unleased hl).1, (h.unleased hl).2.1, rfl, (h.unleased hl).2.2.2⟩
    fences := h.fences
    reserved := nofun
    balance := fun hg => by
      rw [haudited]
      exact (h.balance hg).trans (Nat.le_add_right _ _)
    covered := fun hg => by
      rw [haudited]
      refine ⟨(h.covered hg).1.trans (Nat.le_add_right _ _), fun r hr => ?_⟩
      rcases (h.covered hg).2 r hr with hc | hd
      · exact .inl (hc.trans (Nat.le_add_right _ _))
      · exact .inr hd
    late := fun _ _ hb' => by cases hb' }

/-- **The forced flush**: with the bucket out, the audit covers what was sent and what is about to be. -/
theorem dropped (habsent : s.present = false) (hfenced : s.lease = true → s.fenced = true)
    (hbucket : s.bucket = none) (hbalance : s.gone = false → s.sent + (s.running.map Running.pending).getD 0 ≤ s.audited) :
    Covered { s with gone := true } := by
  by_cases hg : s.gone = true
  · rw [show ({ s with gone := true } : InputState) = s by rw [← hg]]
    exact h
  · have hle := hbalance (Bool.eq_false_iff.2 hg)
    exact { h with
      serials := { h.serials with }
      fences := h.fences
      absent := fun _ => habsent
      fenced := fun _ => hfenced
      balance := nofun
      covered := fun _ => by
        refine ⟨(Nat.le_add_right _ _).trans hle, fun r hr => .inl ?_⟩
        rw [hr] at hle
        exact hle
      late := fun _ b hb => by
        rw [hbucket] at hb
        cases hb
      lost := fun b hb => ⟨rfl, (h.lost b hb).2⟩ }

theorem turned {todo : List Act} (hfences : s.lease = true → fencedFirst s.fenced todo = true)
    (hleaves : Act.drop ∈ todo → s.present = false) : Covered { s with todo } :=
  { h with
    serials := { h.serials with }
    fences := hfences
    leaves := hleaves
    balance := h.balance }

theorem shut (reason : Code) : Covered (s.shut reason) :=
  h.remembered fun _ => ⟨id, id, id, id, id, fun hn => (by cases hn), le_refl _⟩

theorem discarded : Covered { s with writes := [] } :=
  { h with
    serials := { h.serials with
      writes := List.Pairwise.nil
      admitted := nofun
      running := fun r hr => ⟨(h.serials.running r hr).1, nofun⟩
      received := fun x hx => ⟨(h.serials.received x hx).1, nofun⟩
      counted := fun b hb n hn => ⟨(h.serials.counted b hb n hn).1, nofun⟩ }
    unleased := fun hl => ⟨rfl, (h.unleased hl).2⟩
    fences := h.fences
    balance := h.balance
    lost := fun b hb => ⟨(h.lost b hb).1, (h.lost b hb).2.1, rfl, (h.lost b hb).2.2.2⟩ }

theorem flushed (force : Bool) : Covered (s.flush force) := by
  rcases h.flush_cases force with ⟨he, -⟩ | ⟨b, events, hb, he⟩
  · rw [he]
    exact h
  · rw [he]
    exact h.emitted hb

theorem forced (habsent : s.present = false) (hfenced : s.lease = true → s.fenced = true) :
    Covered { s.flush true with gone := true } := by
  have hflushed := h.flushed true
  rcases h.flush_cases true with ⟨he, hb⟩ | ⟨b, events, hb, he⟩
  · rw [he]
    refine h.dropped habsent hfenced (hb rfl) fun hg => ?_
    have := h.balance hg
    rwa [InputState.inBucket, hb rfl] at this
  · rw [he] at hflushed ⊢
    refine hflushed.dropped habsent hfenced rfl fun hg => ?_
    rw [flush_audited events hb]
    exact h.balance hg

/-- **The reactor's steps**, in the order of its operation. -/
theorem performed {a : Act} {rest : List Act} (htodo : s.todo = a :: rest) :
    Covered (({ s with todo := rest } : InputState).perform a) := by
  have hfences : s.lease = true → fencedFirst s.fenced (a :: rest) = true := htodo ▸ h.fences
  have hleaves : Act.drop ∈ rest → s.present = false := fun hd => h.leaves (htodo ▸ List.mem_cons_of_mem a hd)
  cases a with
  | close reason =>
    refine (h.shut reason).turned (fun hl => ?_) hleaves
    exact fencedFirst_mono (fun _ => rfl) rest (hfences hl)
  | expire =>
    have hturned : Covered { s with todo := rest } := h.turned hfences hleaves
    simp only [InputState.perform]
    split
    · exact hturned.shut "elevation-expired"
    · exact hturned
  | endLife =>
    have hended : Covered { s with life := { s.life with alive := false } } := h.remembered fun _ => ⟨id, id, fun ha => (by cases ha), id, id, id, le_refl _⟩
    refine hended.turned (fun hl => ?_) hleaves
    refine fencedFirst_mono (fun _ => ?_) rest (hfences hl)
    simp [InputState.fenced]
  | flush =>
    have hturned : Covered { s with todo := rest } := h.turned hfences hleaves
    exact hturned.flushed false
  | drop =>
    have hturned : Covered { s with todo := rest } := by
      refine h.turned (fun hl => ?_) hleaves
      have := hfences hl
      rw [fencedFirst, Bool.and_eq_true] at this
      exact this.2
    refine hturned.forced (h.leaves (htodo ▸ List.mem_cons_self)) fun hl => ?_
    have := hfences hl
    rw [fencedFirst, Bool.and_eq_true] at this
    exact this.1
  | discard =>
    have hturned : Covered { s with todo := rest } := h.turned hfences hleaves
    exact hturned.discarded

end

theorem program_fences {op : Reactor} {todo : List Act} {leaves : Bool} (hop : s.program op = some (todo, leaves)) :
    (s.lease = true → fencedFirst s.fenced todo = true) ∧ (Act.drop ∈ todo → (s.present && !leaves) = false) := by
  cases op <;> simp only [InputState.program] at hop <;> repeat' split at hop
  all_goals first
    | cases hop; done
    | (obtain ⟨rfl, rfl⟩ := Prod.mk.inj (Option.some.inj hop)
       constructor <;> simp_all [fencedFirst, dropStream, InputState.fenced])

/-! ## The other steps -/

theorem admitted {bytes : Nat} {«until» : Timestamp} (h : Covered s)
    (ht : s.step (.write bytes «until») = some t) : Covered t := by
  simp only [InputState.step] at ht
  split at ht
  · rename_i hadmit
    obtain ⟨-, hpresent, hlease, -, -⟩ := hadmit
    cases ht
    have hgone : s.gone = false := Bool.eq_false_iff.2 fun hg => by
      rw [h.absent hg] at hpresent
      cases hpresent
    have hserials := h.serials
    exact { h with
      serials := {
        writes := List.pairwise_append.2 ⟨hserials.writes, List.pairwise_singleton _ _, fun w hw x hx => by
          rw [List.mem_singleton.1 hx]
          exact hserials.admitted w hw⟩
        admitted := fun w hw => by
          rcases List.mem_append.1 hw with hw | hw
          · exact (hserials.admitted w hw).trans (Nat.lt_succ_self _)
          · rw [List.mem_singleton.1 hw]
            exact Nat.lt_succ_self _
        running := fun r hr => ⟨(hserials.running r hr).1.trans (Nat.lt_succ_self _), fun w hw => by
          rcases List.mem_append.1 hw with hw | hw
          · exact (hserials.running r hr).2 w hw
          · rw [List.mem_singleton.1 hw]
            exact (hserials.running r hr).1⟩
        received := fun x hx => ⟨(hserials.received x hx).1.trans (Nat.lt_succ_self _), fun w hw => by
          rcases List.mem_append.1 hw with hw | hw
          · exact (hserials.received x hx).2 w hw
          · rw [List.mem_singleton.1 hw]
            exact (hserials.received x hx).1⟩
        unsent := hserials.unsent
        counted := fun b hb n hn => ⟨(hserials.counted b hb n hn).1.trans (Nat.lt_succ_self _), fun w hw => by
          rcases List.mem_append.1 hw with hw | hw
          · exact (hserials.counted b hb n hn).2 w hw
          · rw [List.mem_singleton.1 hw]
            exact (hserials.counted b hb n hn).1⟩ }
      unleased := fun hl => by
        rw [hlease] at hl
        cases hl
      fences := h.fences
      balance := h.balance
      lost := fun b hb => by
        have := (h.lost b hb).1
        rw [hgone] at this
        cases this }
  · cases ht

theorem popped {input : Input} {rest : List Input} (h : Covered s) (hw : s.writes = input :: rest) :
    Covered { s with writes := rest } := by
  have hmem : ∀ w ∈ rest, w ∈ s.writes := fun w hr => hw ▸ List.mem_cons_of_mem input hr
  have hserials := h.serials
  exact { h with
    serials := { hserials with
      writes := by
        have := hserials.writes
        rw [hw] at this
        exact this.of_cons
      admitted := fun w hr => hserials.admitted w (hmem w hr)
      running := fun r hr => ⟨(hserials.running r hr).1, fun w hx => (hserials.running r hr).2 w (hmem w hx)⟩
      received := fun x hx => ⟨(hserials.received x hx).1, fun w hr => (hserials.received x hx).2 w (hmem w hr)⟩
      counted := fun b hb n hn =>
        ⟨(hserials.counted b hb n hn).1, fun w hr => (hserials.counted b hb n hn).2 w (hmem w hr)⟩ }
    unleased := fun hl => by
      have := (h.unleased hl).1
      rw [hw] at this
      cases this
    fences := h.fences
    balance := h.balance
    lost := fun b hb => by
      have := (h.lost b hb).2.2.1
      rw [hw] at this
      cases this }

theorem pumped (h : Covered s) (ht : s.step .pump = some t) : Covered t := by
  simp only [InputState.step] at ht
  split at ht
  · rename_i input rest htodo hrunning hw
    cases ht
    have hpopped := h.popped hw
    have hin : input ∈ s.writes := hw ▸ List.mem_cons_self
    have hserials := h.serials
    exact { hpopped with
      serials := { hpopped.serials with
        running := fun r hr => by
          cases hr
          refine ⟨hserials.admitted input hin, fun w hwr => ?_⟩
          have := hserials.writes
          rw [hw] at this
          exact List.rel_of_pairwise_cons this hwr
        unsent := fun r hr _ hmem => by
          cases hr
          obtain ⟨x, hx, he⟩ := List.mem_map.1 hmem
          exact Nat.ne_of_lt ((hserials.received x hx).2 input hin) he }
      unleased := fun hl => by
        have := (h.unleased hl).1
        rw [hw] at this
        cases this
      fences := h.fences
      balance := fun hg => by
        have := h.balance hg
        rw [hrunning] at this
        exact this
      covered := fun hg => ⟨(h.covered hg).1, fun r hr => .inl (by
        cases hr
        exact (h.covered hg).1)⟩
      late := fun hg b hb n hn => ⟨(h.late hg b hb n hn).1, fun r hr he => by
        cases hr
        exact absurd he (Nat.ne_of_gt ((hserials.counted b hb n hn).2 input hin))⟩
      lost := fun b hb => by
        have := (h.lost b hb).2.2.1
        rw [hw] at this
        cases this }
  · cases ht

theorem forgotten (h : Covered s) (ht : s.step .forget = some t) : Covered t := by
  simp only [InputState.step] at ht
  split at ht
  · rename_i b hb
    split at ht
    · rename_i hidle
      obtain ⟨hgone, -, hrunning, hwrites⟩ := hidle
      rw [Option.isNone_iff_eq_none] at hrunning
      cases ht
      exact { h with
        serials := { h.serials with counted := fun _ hb' => by cases hb' }
        unleased := fun hl => ⟨(h.unleased hl).1, (h.unleased hl).2.1, rfl, (h.unleased hl).2.2.2⟩
        fences := h.fences
        reserved := nofun
        balance := fun hg => by
          rw [hgone] at hg
          cases hg
        late := nofun
        lost := fun b' hb' => by
          rcases List.mem_append.1 hb' with hb' | hb'
          · exact h.lost b' hb'
          · rw [List.mem_singleton.1 hb']
            exact ⟨hgone, hrunning, hwrites, fun n hn => (h.late hgone b hb n hn).1⟩ }
    · cases ht
  · cases ht

theorem aside {move : EventQueue.Move AuditEvent} (h : Covered s) (ht : s.elsewhere move = some t) : Covered t := by
  unfold InputState.elsewhere at ht
  split at ht
  · rename_i events hmove
    split at ht
    · rename_i hreserved
      cases ht
      exact { h with
        serials := { h.serials with }
        fences := h.fences
        reserved := hreserved
        balance := h.balance }
    · cases ht
  · cases ht

/-- **Every step keeps the account.** -/
theorem step {label : InputLabel} (h : Covered s) (ht : s.step label = some t) : Covered t := by
  cases label with
  | write bytes «until» => exact h.admitted ht
  | pump => exact h.pumped ht
  | busy =>
    simp only [InputState.step] at ht
    split at ht
    · rename_i hw
      cases ht
      exact h.popped hw
    · cases ht
  | opened =>
    simp only [InputState.step] at ht
    split at ht
    · rename_i hopen
      cases ht
      exact { h with
        serials := { h.serials with }
        unleased := nofun
        fences := fun _ => by
          rw [hopen.1]
          rfl
        fenced := fun hg => by
          have := h.absent hg
          rw [hopen.2] at this
          cases this
        balance := h.balance }
    · cases ht
  | reactor op =>
    simp only [InputState.step] at ht
    split at ht
    · rename_i todo leaves htodo hop
      cases ht
      obtain ⟨hfences, hleaves⟩ := program_fences hop
      exact { h with
        serials := { h.serials with }
        fences := hfences
        leaves := hleaves
        absent := fun hg => by
          rw [h.absent hg]
          rfl
        balance := h.balance }
    · cases ht
  | act =>
    simp only [InputState.step] at ht
    split at ht
    · rename_i a rest htodo
      split at ht
      · cases ht
      · cases ht
        exact h.performed htodo
    · cases ht
  | execute contended =>
    simp only [InputState.step, Option.map_eq_some_iff] at ht
    obtain ⟨r, hr, rfl⟩ := ht
    exact h.executed hr contended
  | cancel =>
    simp only [InputState.step, Option.map_eq_some_iff] at ht
    obtain ⟨r, hr, rfl⟩ := ht
    exact h.moved hr id rfl (le_refl _) fun hd =>
      hd.later rfl rfl rfl ⟨id, fun _ => rfl, id, id, id, id, le_refl _⟩
  | forget => exact h.forgotten ht
  | invalidate =>
    cases ht
    exact h.remembered fun _ => ⟨id, id, id, fun _ => rfl, id, id, le_refl _⟩
  | shutdown code =>
    simp only [InputState.step] at ht
    split at ht
    · rename_i hne
      cases ht
      exact h.remembered fun _ => ⟨id, id, id, id, fun h0 => absurd h0 hne, id, le_refl _⟩
    · cases ht
  | closeStream reason =>
    cases ht
    exact h.shut reason
  | tick now =>
    simp only [InputState.step] at ht
    split at ht
    · rename_i hle
      cases ht
      exact h.remembered fun _ => ⟨id, id, id, id, id, id, hle⟩
    · cases ht
  | elsewhere move => exact h.aside ht

end Covered

theorem InputInit.covered (h : InputInit s) : Covered s := by
  obtain ⟨-, hbucket, -, -, hwrites, htodo, hgone, hrunning, hreceived, henqueued, hdiscarded⟩ := h
  constructor
  case serials => constructor <;> simp [hwrites, hrunning, hreceived, hbucket]
  case unleased => exact fun _ => ⟨hwrites, hrunning, hbucket, hreceived⟩
  case fences => exact fun _ => by rw [htodo]; rfl
  case balance => exact fun _ => by simp [InputState.sent, hreceived, hrunning]
  all_goals simp [htodo, hgone, hbucket, hdiscarded]

theorem InputRun.covered {l : List (Transition InputState InputLabel)} (h : InputRun l s) : Covered s :=
  Trace.invariant (P := Covered) (fun _ => InputInit.covered) (fun _ _ _ => Covered.step) h

/-! ## Two inputs, and the release that meets the second -/

namespace Sample

def attached : InputState :=
  { scope := .control, life := ⟨true, false, 0⟩, closed := none, deadline := seconds 600, clock := 0, bucket := none
    events := EventQueue.new, present := true, lease := false, writes := [], todo := [], gone := false, running := none
    admitted := 0, received := [], enqueued := [], discarded := [] }

def types (s : InputState) (label : InputLabel) : Option (InputLabel × InputState) := (s.step label).map (fun t => (label, t))

theorem types_step (s : InputState) (move label : InputLabel) (t : InputState) (h : types s move = some (label, t)) :
    s.step label = some t := by
  unfold types at h
  cases hs : s.step move with
  | none => simp [hs] at h
  | some u =>
    simp only [hs, Option.map_some, Option.some.injEq, Prod.mk.injEq] at h
    obtain ⟨rfl, rfl⟩ := h
    exact hs

def run : InputLabel := .execute false

/-- The first input reaches the Host; the second is counted after the release has forced the bucket out. -/
def typing : List InputLabel :=
  [InputLabel.opened, .write 5 (seconds 60), .write 7 (seconds 60), .pump] ++ List.replicate 27 run ++ [InputLabel.pump] ++
    List.replicate 10 run ++ [InputLabel.reactor .release, .act, .act, .act, .act] ++ List.replicate 15 run ++
    [InputLabel.forget]

def account : List (Transition InputState InputLabel) × InputState := (Trace.play types typing [] attached).getD ([], attached)

theorem run_account : InputRun account.1 account.2 :=
  Trace.of_play types_step (.start ⟨rfl, rfl, rfl, rfl, rfl, rfl, rfl, rfl, rfl, rfl, rfl⟩)
    (show Trace.play types typing [] attached = some account by rfl)

end Sample

/-- **The audit covers the inputs**: once the stream is dropped, its events tell of at least the bytes that the Host was
called with, whatever its last job still does.  **And no bucket is lost with a received input in it.** -/
theorem inputs_audited {l : List (Transition InputState InputLabel)} {s : InputState} (h : InputRun l s) :
    (s.gone = true → (s.received.map Input.bytes).sum ≤ (s.enqueued.map AuditEvent.bytes).sum) ∧
      ∀ b ∈ s.discarded, ∀ n ∈ b.counted, n ∉ s.received.map Input.serial :=
  ⟨fun hg => (h.covered.covered hg).1, fun b hb => (h.covered.lost b hb).2.2.2⟩

/-- Five bytes reach the Host and the audit; the bucket of the seven that did not is discarded. -/
theorem inputs_audited_account :
    ((Sample.account.2.received.map Input.bytes).sum ≤ (Sample.account.2.enqueued.map AuditEvent.bytes).sum) ∧
      ∃ b ∈ Sample.account.2.discarded, b.bytes = 7 ∧ 1 ∈ b.counted ∧ 1 ∉ Sample.account.2.received.map Input.serial :=
  have h := inputs_audited Sample.run_account
  have hmem := List.get_mem Sample.account.2.discarded ⟨0, by decide⟩
  ⟨h.1 (by rfl), _, hmem, by rfl, by decide, h.2 _ hmem 1 (by decide)⟩

end Writes
end Yuzora
