import Yuzora.Threads
/-!
# Crew — threads that wait for one another

Any number of programs on one state, where a command may have no answer yet: a lock that another thread holds.  A thread
may be gone between any two of its commands.  What one thread relies on is what every other one guarantees;
`Runs.kept` carries what is proved along each program alone into every interleaving.
-/
namespace Yuzora

/-- What runs: the program of each job, what a thread's command may answer and leave, what the surroundings do, and what
a thread that is gone leaves behind. -/
structure Crew (Cmd : Type) (Reply : Cmd → Type) (ε α S Job : Type) where
  start : Job → Prog Cmd Reply ε α
  exec : Nat → Job → S → (c : Cmd) → Reply c → S → Prop
  drift : S → S → Prop
  drop : Nat → Job → S → S
  gone : ε

/-- What a scheduler does to a thread. -/
inductive Watch (Cmd : Type) (Reply : Cmd → Type) (Job : Type)
  | start (id : Nat) (job : Job)
  | own (id : Nat) (job : Job) (asked : Asked Cmd Reply)
  | drop (id : Nat)
  | drift

namespace Crew

variable {Cmd : Type} {Reply : Cmd → Type} {ε α S Job : Type}

inductive Step (C : Crew Cmd Reply ε α S Job) :
    Threads Cmd Reply ε α S Job → Watch Cmd Reply Job → Threads Cmd Reply ε α S Job → Prop
  | start {s : Threads Cmd Reply ε α S Job} (id : Nat) (job : Job) : s.threads id = none →
      Step C s (.start id job) { s with threads := Function.update s.threads id (some ⟨job, C.start job⟩) }
  | own {s : Threads Cmd Reply ε α S Job} {t : S} {c : Cmd} {r : Reply c} (id : Nat) (job : Job)
      (next : Reply c → Prog Cmd Reply ε α) : s.threads id = some ⟨job, .call c next⟩ → C.exec id job s.shared c r t →
      Step C s (.own id job ⟨c, r⟩) ⟨t, Function.update s.threads id (some ⟨job, next r⟩)⟩
  | drop {s : Threads Cmd Reply ε α S Job} (id : Nat) (job : Job) (rest : Prog Cmd Reply ε α) :
      s.threads id = some ⟨job, rest⟩ →
      Step C s (.drop id)
        ⟨C.drop id job s.shared, Function.update s.threads id (some ⟨job, .done (.error C.gone)⟩)⟩
  | drift {s : Threads Cmd Reply ε α S Job} {t : S} : C.drift s.shared t → Step C s .drift { s with shared := t }

abbrev Event (_ : Crew Cmd Reply ε α S Job) : Type :=
  Transition (Threads Cmd Reply ε α S Job) (Watch Cmd Reply Job)

def Runs (C : Crew Cmd Reply ε α S Job) (s : S) : List C.Event → Threads Cmd Reply ε α S Job → Prop :=
  Trace (fun t => t = ⟨s, fun _ => none⟩) C.Step

/-! ## What threads rely on -/

/-- What one thread sees: its own commands, and moves of the others within what it relies on. -/
def world (C : Crew Cmd Reply ε α S Job) (rely : Nat → S → S → Prop) (id : Nat) (job : Job) : World Cmd Reply S where
  exec := C.exec id job
  other s t := rely id s t
  calm _ _ := false

/-- The conditions of the rule.  Every move keeps `I`, which every state has, and keeps within what the other threads
rely on, given that a thread's own command is good; a thread that starts afresh issues good commands only. -/
structure Keeps (C : Crew Cmd Reply ε α S Job) (I : S → Prop) (rely : Nat → S → S → Prop) (fresh : Nat → S → Prop)
    (good : Nat → Job → S → Cmd → Prop) : Prop where
  own : ∀ id job s c r t, I s → good id job s c → C.exec id job s c r t → I t ∧ ∀ j, j ≠ id → rely j s t
  drop : ∀ id job s, I s → I (C.drop id job s) ∧ ∀ j, j ≠ id → rely j s (C.drop id job s)
  drift : ∀ s t, I s → C.drift s t → I t ∧ ∀ j, rely j s t
  await : ∀ id s t, rely id s t → fresh id s → fresh id t
  start : ∀ id job s, fresh id s →
    (C.world rely id job).Ensures (fun s _ => I s) (good id job) (C.start job) (fun _ _ _ => True) false s

variable {C : Crew Cmd Reply ε α S Job} {I : S → Prop} {rely : Nat → S → S → Prop} {fresh : Nat → S → Prop}
  {good : Nat → Job → S → Cmd → Prop} {s : S} {t u : Threads Cmd Reply ε α S Job} {m : Watch Cmd Reply Job} {id : Nat}

/-- A thread has not begun, or what is left of it issues good commands only. -/
def Ready (C : Crew Cmd Reply ε α S Job) (I : S → Prop) (rely : Nat → S → S → Prop) (fresh : Nat → S → Prop)
    (good : Nat → Job → S → Cmd → Prop) (id : Nat) (s : S) : Option (Thread Cmd Reply ε α Job) → Prop
  | none => fresh id s
  | some ⟨job, rest⟩ =>
    (C.world rely id job).Ensures (fun s _ => I s) (good id job) rest (fun _ _ _ => True) false s

section
variable (h : C.Keeps I rely fresh good)
include h

theorem Keeps.other {s t : S} (hr : rely id s t) :
    ∀ {thread : Option (Thread Cmd Reply ε α Job)}, C.Ready I rely fresh good id s thread →
      C.Ready I rely fresh good id t thread
  | none, hs => h.await id s t hr hs
  | some ⟨_, .done _⟩, _ => trivial
  | some ⟨_, .call _ _⟩, hs => fun _ hd => hs _ (Relation.ReflTransGen.head hr hd)

theorem Keeps.others {s t : S} {threads : Nat → Option (Thread Cmd Reply ε α Job)}
    {thread : Option (Thread Cmd Reply ε α Job)} (hr : ∀ j, j ≠ id → rely j s t)
    (hs : ∀ j, C.Ready I rely fresh good j s (threads j)) (hid : C.Ready I rely fresh good id t thread) :
    ∀ j, C.Ready I rely fresh good j t (Function.update threads id thread j) := by
  intro j
  by_cases hj : j = id
  · subst hj
    rw [Function.update_self]
    exact hid
  · rw [Function.update_of_ne hj]
    exact h.other (hr j hj) (hs j)

/-- **One move**: the invariant, what the others rely on, that every thread is ready, and that the command was good. -/
theorem Keeps.step (hst : C.Step t m u) (hi : I t.shared)
    (ht : ∀ id, C.Ready I rely fresh good id t.shared (t.threads id)) :
    I u.shared ∧ (∀ id, C.Ready I rely fresh good id u.shared (u.threads id)) ∧
      (∀ id job a, m = .own id job a → good id job t.shared a.command) ∧
        (t.shared = u.shared ∨ ∃ k, ∀ j, j ≠ k → rely j t.shared u.shared) := by
  cases hst with
  | start id job hn =>
    have hf : fresh id t.shared := by
      have := ht id
      rwa [hn] at this
    refine ⟨hi, fun j => ?_, fun _ _ _ hm => (by cases hm), .inl rfl⟩
    by_cases hj : j = id
    · subst hj
      dsimp only
      rw [Function.update_self]
      exact h.start j job _ hf
    · dsimp only
      rw [Function.update_of_ne hj]
      exact ht j
  | @own v c r id job next hn he =>
    have hready := ht id
    rw [hn] at hready
    obtain ⟨hg, hnext⟩ := hready t.shared (.refl _ _ _) hi
    obtain ⟨hi', hrely⟩ := h.own id job _ c r v hi hg he
    refine ⟨hi', h.others hrely ht (hnext r v he), fun _ _ _ hm => ?_, .inr ⟨id, hrely⟩⟩
    cases hm
    exact hg
  | drop id job rest hn =>
    obtain ⟨hi', hrely⟩ := h.drop id job t.shared hi
    exact ⟨hi', h.others hrely ht trivial, fun _ _ _ hm => (by cases hm), .inr ⟨id, hrely⟩⟩
  | @drift v hd =>
    obtain ⟨hi', hrely⟩ := h.drift t.shared v hi hd
    exact ⟨hi', fun j => h.other (hrely j) (ht j), fun _ _ _ hm => (by cases hm), .inr ⟨0, fun j _ => hrely j⟩⟩

end

/-- **What each program keeps alone, every interleaving keeps.** -/
theorem Runs.kept {l : List C.Event} (hr : C.Runs s l t) (h : C.Keeps I rely fresh good) (h0 : I s)
    (hf : ∀ id, fresh id s) :
    I t.shared ∧ (∀ x ∈ l, ∀ id job a, x.label = .own id job a → good id job x.src.shared a.command) ∧
      ∀ x ∈ l, x.src.shared = x.dst.shared ∨ ∃ k, ∀ j, j ≠ k → rely j x.src.shared x.dst.shared := by
  refine (Trace.history (P := fun (l : List C.Event) t => (I t.shared ∧
    ∀ id, C.Ready I rely fresh good id t.shared (t.threads id)) ∧
      (∀ x ∈ l, ∀ id job a, x.label = .own id job a → good id job x.src.shared a.command) ∧
        ∀ x ∈ l, x.src.shared = x.dst.shared ∨ ∃ k, ∀ j, j ≠ k → rely j x.src.shared x.dst.shared)
    ?_ ?_ hr).imp And.left fun hx => hx
  · rintro _ rfl
    refine ⟨⟨h0, hf⟩, fun x hx => ?_, fun x hx => ?_⟩
    · cases hx
    · cases hx
  · intro l t m u _ ⟨⟨hi, ht⟩, hgood, hl⟩ hst
    obtain ⟨hi', ht', hown, hrely⟩ := h.step hst hi ht
    refine ⟨⟨hi', ht'⟩, fun x hx => ?_, fun x hx => ?_⟩
    · rcases List.mem_append.1 hx with hx | hx
      · exact hgood x hx
      · rw [List.mem_singleton.1 hx]
        exact hown
    · rcases List.mem_append.1 hx with hx | hx
      · exact hl x hx
      · rw [List.mem_singleton.1 hx]
        exact hrely

/-! ## Playing -/

def next {Chance Wind : Type} (C : Crew Cmd Reply ε α S Job)
    (exec : Chance → Nat → Job → S → (c : Cmd) → Option (Reply c × S)) (drift : Wind → S → S)
    (s : Threads Cmd Reply ε α S Job) :
    Turn Job Chance Wind → Option (Watch Cmd Reply Job × Threads Cmd Reply ε α S Job)
  | .start id job =>
    match s.threads id with
    | some _ => none
    | none => some (.start id job, { s with threads := Function.update s.threads id (some ⟨job, C.start job⟩) })
  | .run id chance =>
    match s.threads id with
    | some ⟨job, .call c next⟩ => (exec chance id job s.shared c).map fun a =>
        (.own id job ⟨c, a.1⟩, ⟨a.2, Function.update s.threads id (some ⟨job, next a.1⟩)⟩)
    | _ => none
  | .drift wind => some (.drift, { s with shared := drift wind s.shared })

theorem step_of_next {Chance Wind : Type} {exec : Chance → Nat → Job → S → (c : Cmd) → Option (Reply c × S)}
    {drift : Wind → S → S} (hexec : ∀ chance id job s c r t, exec chance id job s c = some (r, t) → C.exec id job s c r t)
    (hdrift : ∀ wind s, C.drift s (drift wind s)) (s : Threads Cmd Reply ε α S Job) (a : Turn Job Chance Wind)
    (m : Watch Cmd Reply Job) (t : Threads Cmd Reply ε α S Job) (h : C.next exec drift s a = some (m, t)) :
    C.Step s m t := by
  cases a with
  | start id job =>
    rw [next] at h
    split at h
    · cases h
    · rename_i hn
      cases h
      exact .start id job hn
  | run id chance =>
    rw [next] at h
    split at h
    · rename_i job c nx hn
      obtain ⟨⟨r, v⟩, he, heq⟩ := Option.map_eq_some_iff.1 h
      cases heq
      exact .own id job nx hn (hexec chance id job _ c r v he)
    · cases h
  | drift wind =>
    cases h
    exact .drift (hdrift wind s.shared)

end Crew

end Yuzora
