import Mathlib.Tactic.Common
/-!
# Clock — wall-clock deadlines with a monotonic floor

A clock is anchored at a wall-clock time, and its clones share the largest lead that the system's time ever had over the
anchored monotonic time.  Times are in nanoseconds.  What `chrono` cannot hold is a panic, which poisons the lead if it
comes while the lead is locked.
-/
namespace Yuzora
namespace Deadlines

/-! ## The code -/

structure Clock where
  wall : Int
  system : Bool

/-- What a clock and its clones have in common. -/
structure Shared where
  skew : Int
  poisoned : Bool

def Shared.fresh : Shared := ⟨0, false⟩

variable (holds : Int → Bool) (bounded : Nat → Bool)

/-- `Timestamp::after`; `holds` are the times and `bounded` the durations that `chrono` can hold. -/
def after (time : Int) (duration : Nat) : Option Int :=
  if bounded duration ∧ holds (time + duration) then some (time + duration) else none

def Clock.observe (clock : Clock) (elapsed : Nat) (system : Option Int) (shared : Shared) : Option Int × Shared :=
  (after holds bounded clock.wall elapsed).elim (none, shared) fun monotonic =>
    if shared.poisoned then (none, shared)
    else
      let skew := system.elim shared.skew fun system => max shared.skew (system - monotonic)
      if holds (monotonic + skew) then (some (monotonic + skew), ⟨skew, false⟩) else (none, ⟨skew, true⟩)

def Clock.now (clock : Clock) (elapsed : Nat) (utcNow : Int) (shared : Shared) : Option Int × Shared :=
  clock.observe holds bounded elapsed (if clock.system then some utcNow else none) shared

/-- What `until` still waits for. -/
def remaining (deadline now : Int) : Nat := (deadline - now).toNat

/-! ## Histories -/

/-- One observation of the clock or of a clone, which has the same anchor. -/
structure Observation where
  elapsed : Nat
  system : Option Int

def Clock.history (clock : Clock) : Shared → List Observation → List (Observation × Option Int)
  | _, [] => []
  | shared, o :: rest =>
    let r := clock.observe holds bounded o.elapsed o.system shared
    (o, r.1) :: clock.history r.2 rest

variable {holds bounded} {clock : Clock} {shared : Shared}

/-- **One observation**: the lead only grows, and only to the system's lead. -/
theorem observe_spec (elapsed : Nat) (system : Option Int) :
    let r := clock.observe holds bounded elapsed system shared
    shared.skew ≤ r.2.skew ∧ (r.2.skew = shared.skew ∨ ∃ s ∈ system, r.2.skew = s - (clock.wall + elapsed)) ∧
      ∀ t ∈ r.1, t = clock.wall + elapsed + r.2.skew := by
  intro r
  by_cases hafter : bounded elapsed ∧ holds (clock.wall + elapsed)
  · have hr : r = if shared.poisoned then (none, shared) else
        let skew := system.elim shared.skew fun system => max shared.skew (system - (clock.wall + elapsed))
        if holds (clock.wall + elapsed + skew) then (some (clock.wall + elapsed + skew), ⟨skew, false⟩)
        else (none, ⟨skew, true⟩) := by
      simp only [r, Clock.observe, after, if_pos hafter, Option.elim_some]
    have hskew : ∀ skew,
        skew = system.elim shared.skew (fun system => max shared.skew (system - (clock.wall + elapsed))) →
        shared.skew ≤ skew ∧ (skew = shared.skew ∨ ∃ s ∈ system, skew = s - (clock.wall + elapsed)) := by
      rintro _ rfl
      cases system with
      | none => exact ⟨Int.le_refl _, .inl rfl⟩
      | some s =>
        refine ⟨Int.le_max_left .., ?_⟩
        rcases Int.le_total shared.skew (s - (clock.wall + elapsed)) with hle | hle
        · exact .inr ⟨s, rfl, Int.max_eq_right hle⟩
        · exact .inl (Int.max_eq_left hle)
    rw [hr]
    split
    · exact ⟨Int.le_refl _, .inl rfl, nofun⟩
    · dsimp only
      have h := hskew _ rfl
      split
      · exact ⟨h.1, h.2, fun t ht => (Option.some.inj ht).symm⟩
      · exact ⟨h.1, h.2, nofun⟩
  · have hr : r = (none, shared) := by simp only [r, Clock.observe, after, if_neg hafter, Option.elim_none]
    rw [hr]
    exact ⟨Int.le_refl _, .inl rfl, nofun⟩

variable {observations : List Observation}

theorem history_ordered (h : observations.Pairwise fun a b => a.elapsed ≤ b.elapsed) (shared : Shared) :
    (clock.history holds bounded shared observations).Pairwise fun a b => a.1.elapsed ≤ b.1.elapsed := by
  have hfst (shared) : (clock.history holds bounded shared observations).map Prod.fst = observations := by
    induction observations generalizing shared with
    | nil => rfl
    | cons o rest ih => exact congrArg (o :: ·) (ih (List.pairwise_cons.1 h).2 _)
  rw [← hfst shared, List.pairwise_map] at h
  exact h

theorem history_ge (shared : Shared) : ∀ p ∈ clock.history holds bounded shared observations, ∀ t ∈ p.2,
    clock.wall + p.1.elapsed + shared.skew ≤ t := by
  induction observations generalizing shared with
  | nil => nofun
  | cons o rest ih =>
    obtain ⟨hle, -, ht⟩ := @observe_spec holds bounded clock shared o.elapsed o.system
    intro p hp t hpt
    rcases List.mem_cons.1 hp with rfl | hp
    · rw [ht t hpt]
      exact Int.add_le_add_left hle _
    · have := ih _ p hp t hpt
      omega

/-- **No freeze**: between two returned times lies what elapsed between them. -/
theorem history_spaced (shared : Shared) : (clock.history holds bounded shared observations).Pairwise fun a b =>
    ∀ t ∈ a.2, ∀ t' ∈ b.2, (b.1.elapsed : Int) - a.1.elapsed ≤ t' - t := by
  induction observations generalizing shared with
  | nil => exact .nil
  | cons o rest ih =>
    obtain ⟨-, -, ht⟩ := @observe_spec holds bounded clock shared o.elapsed o.system
    refine .cons (fun b hb t hat t' hbt => ?_) (ih _)
    have hge := history_ge _ b hb t' hbt
    rw [ht t hat]
    dsimp only
    omega

/-- **No overshoot**: a returned time is the anchored one or an advanced system reading. -/
theorem history_le (shared : Shared) {before later : List (Observation × Option Int)} {p : Observation × Option Int}
    (h : clock.history holds bounded shared observations = before ++ p :: later) {t : Int} (ht : t ∈ p.2) :
    t ≤ clock.wall + p.1.elapsed + shared.skew ∨
      ∃ q ∈ before ++ [p], ∃ s ∈ q.1.system, t ≤ s + ((p.1.elapsed : Int) - q.1.elapsed) := by
  induction observations generalizing shared before with
  | nil => cases before <;> cases h
  | cons o rest ih =>
    obtain ⟨-, hskew, hnow⟩ := @observe_spec holds bounded clock shared o.elapsed o.system
    cases before with
    | nil =>
      obtain ⟨rfl, -⟩ := List.cons.inj h
      have hnow := hnow t ht
      rcases hskew with hskew | ⟨s, hs, hskew⟩
      · exact .inl (Int.le_of_eq (hskew ▸ hnow))
      · exact .inr ⟨_, List.mem_singleton_self _, s, hs, by dsimp only; omega⟩
    | cons q before =>
      obtain ⟨rfl, hrest⟩ := List.cons.inj h
      rcases ih _ hrest with hle | ⟨r, hr, s, hs, hle⟩
      · rcases hskew with hskew | ⟨s, hs, hskew⟩
        · exact .inl (by omega)
        · exact .inr ⟨_, List.mem_cons_self, s, hs, by dsimp only; omega⟩
      · exact .inr ⟨r, List.mem_cons_of_mem _ hr, s, hs, hle⟩

/-- **Observed times** never go back, run at least as fast as the monotonic clock, and overshoot no reading; so a deadline
that is reached stays reached. -/
theorem observed_times (holds : Int → Bool) (bounded : Nat → Bool) (clock : Clock) (observations : List Observation)
    (h : observations.Pairwise (·.elapsed ≤ ·.elapsed)) :
    (clock.history holds bounded .fresh observations).Pairwise (fun a b => ∀ t ∈ a.2, ∀ t' ∈ b.2,
      t ≤ t' ∧ (b.1.elapsed : Int) - a.1.elapsed ≤ t' - t ∧
        ∀ deadline, remaining deadline t = 0 → remaining deadline t' = 0) ∧
    ∀ before p later, clock.history holds bounded .fresh observations = before ++ p :: later → ∀ t ∈ p.2,
      t ≤ clock.wall + p.1.elapsed ∨
        ∃ q ∈ before ++ [p], ∃ s ∈ q.1.system, t ≤ s + ((p.1.elapsed : Int) - q.1.elapsed) := by
  refine ⟨((history_ordered h .fresh).and (history_spaced .fresh)).imp fun {a b} hab t ht t' ht' => ?_,
    fun before p later heq t ht => ?_⟩
  · have hspaced := hab.2 t ht t' ht'
    refine ⟨by omega, hspaced, fun deadline hreached => ?_⟩
    rw [remaining, Int.toNat_eq_zero] at hreached ⊢
    omega
  · rcases history_le .fresh heq ht with hle | hover
    · exact .inl (by simpa [Shared.fresh] using hle)
    · exact .inr hover

/-- A jump forwards that is taken back. -/
theorem observed_times_jump :
    let clock : Clock := ⟨0, true⟩
    let history := clock.history (fun _ => true) (fun _ => true) .fresh [⟨0, some 3600⟩, ⟨10, some 10⟩]
    history.map Prod.snd = [some 3600, some 3610] ∧ history.Pairwise fun a b => ∀ t ∈ a.2, ∀ t' ∈ b.2,
      t ≤ t' ∧ (b.1.elapsed : Int) - a.1.elapsed ≤ t' - t ∧
        ∀ deadline, remaining deadline t = 0 → remaining deadline t' = 0 :=
  ⟨by decide, (observed_times (fun _ => true) (fun _ => true) ⟨0, true⟩ [⟨0, some 3600⟩, ⟨10, some 10⟩] (by simp)).1⟩

end Deadlines
end Yuzora
