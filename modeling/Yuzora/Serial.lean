import Yuzora.Threads
/-!
# Serial — one program at a time

A desk is idle or has one job under way.  It may stop between any two commands: the program is gone, and what is in
memory with it.  Two rules carry what is proved along a program into every run: `Runs.invariant` for the state, and
`Runs.along` for what a program's past says.
-/
namespace Yuzora

/-- What runs: the program of each job, what a command may do, and what a restart leaves. -/
structure Desk (Cmd : Type) (Reply : Cmd → Type) (ε α S Job : Type) where
  world : World Cmd Reply S
  start : Job → Prog Cmd Reply ε α
  restart : S → S

structure Serial (Cmd : Type) (Reply : Cmd → Type) (ε α S Job : Type) where
  shared : S
  running : Option (Thread Cmd Reply ε α Job)

inductive Deed (Cmd : Type) (Reply : Cmd → Type) (ε α Job : Type)
  | begin (job : Job)
  | own (job : Job) (asked : Asked Cmd Reply)
  | finish (job : Job) (result : Except ε α)
  | other
  | stop

namespace Desk

open List

variable {Cmd : Type} {Reply : Cmd → Type} {ε α S Job : Type}

inductive Step (D : Desk Cmd Reply ε α S Job) :
    Serial Cmd Reply ε α S Job → Deed Cmd Reply ε α Job → Serial Cmd Reply ε α S Job → Prop
  | begin {s : S} (job : Job) : Step D ⟨s, none⟩ (.begin job) ⟨s, some ⟨job, D.start job⟩⟩
  | own {s t : S} {c : Cmd} {r : Reply c} (job : Job) (next : Reply c → Prog Cmd Reply ε α) :
      D.world.exec s c r t → Step D ⟨s, some ⟨job, .call c next⟩⟩ (.own job ⟨c, r⟩) ⟨t, some ⟨job, next r⟩⟩
  | finish {s : S} (job : Job) (r : Except ε α) : Step D ⟨s, some ⟨job, .done r⟩⟩ (.finish job r) ⟨s, none⟩
  | other {s t : S} (running : Option (Thread Cmd Reply ε α Job)) :
      D.world.other s t → Step D ⟨s, running⟩ .other ⟨t, running⟩
  | stop {s : S} (running : Option (Thread Cmd Reply ε α Job)) : Step D ⟨s, running⟩ .stop ⟨D.restart s, none⟩

abbrev Event (_ : Desk Cmd Reply ε α S Job) : Type :=
  Transition (Serial Cmd Reply ε α S Job) (Deed Cmd Reply ε α Job)

def Runs (D : Desk Cmd Reply ε α S Job) (s : S) : List D.Event → Serial Cmd Reply ε α S Job → Prop :=
  Trace (fun t => t = ⟨s, none⟩) D.Step

variable {D : Desk Cmd Reply ε α S Job} {s : S} {t u : Serial Cmd Reply ε α S Job} {l : List D.Event}
  {d : Deed Cmd Reply ε α Job}

/-! ## The state -/

def Pledge (D : Desk Cmd Reply ε α S Job) (good : S → Cmd → Prop) (I : S → Prop) (t : Serial Cmd Reply ε α S Job) : Prop :=
  ∀ job rest, t.running = some ⟨job, rest⟩ →
    D.world.Ensures (fun _ _ => True) good rest (fun _ _ u => I u) false t.shared

/-- The conditions of the invariant rule: nothing but a command can break `I`, a command that is good keeps it, and an
admitted job issues good commands only. -/
structure Keeps (D : Desk Cmd Reply ε α S Job) (admitted : S → Job → Prop) (good : S → Cmd → Prop) (I : S → Prop) :
    Prop where
  patient : ∀ c r, D.world.calm c r = false
  stable : D.world.Stable I
  restart : ∀ s, I s → I (D.restart s)
  kept : ∀ s c r t, good s c → D.world.exec s c r t → I t
  start : ∀ s job, admitted s job → I s →
    D.world.Ensures (fun _ _ => True) good (D.start job) (fun _ _ t => I t) false s

variable {admitted : S → Job → Prop} {good : S → Cmd → Prop} {I : S → Prop} {rest : Prog Cmd Reply ε α}

theorem Keeps.step (h : D.Keeps admitted good I) (hst : D.Step t d u) (hi : I t.shared) (hp : D.Pledge good I t)
    (ha : ∀ job, d = .begin job → admitted t.shared job) :
    I u.shared ∧ D.Pledge good I u ∧ ∀ job a, d = .own job a → good t.shared a.command := by
  cases hst with
  | @begin s job =>
    refine ⟨hi, fun job' rest hr => ?_, nofun⟩
    obtain ⟨rfl, rfl⟩ := Thread.mk.inj (Option.some.inj hr)
    exact h.start s job (ha job rfl) hi
  | @own s t c r job next he =>
    obtain ⟨hg, hnext⟩ := hp job _ rfl s (.refl _ _ _) trivial
    refine ⟨h.kept s c r t hg he, fun job' rest hr => ?_, fun _ _ hd => ?_⟩
    · obtain ⟨rfl, rfl⟩ := Thread.mk.inj (Option.some.inj hr)
      exact h.patient c r ▸ hnext r t he
    · obtain ⟨rfl, rfl⟩ := Deed.own.inj hd
      exact hg
  | @finish s job r =>
    refine ⟨hi, fun _ _ hr => ?_, fun _ _ hd => ?_⟩
    · cases hr
    · cases hd
  | @other s t running ho =>
    refine ⟨h.stable s t hi ho, fun job rest hr => ?_, nofun⟩
    cases rest with
    | done r =>
      have hdone := hp job _ hr
      exact h.stable s t hdone ho
    | call c next => exact fun v hv => hp job _ hr v (Relation.ReflTransGen.head ho hv)
  | @stop s running =>
    refine ⟨h.restart s hi, fun _ _ hr => ?_, fun _ _ hd => ?_⟩
    · cases hr
    · cases hd

/-- **The invariant rule**: in a run whose jobs are all admitted, `I` holds in every state and every command is good. -/
theorem Runs.invariant (hr : D.Runs s l t) (h : D.Keeps admitted good I) (h0 : I s)
    (ha : ∀ x ∈ l, ∀ job, x.label = .begin job → admitted x.src.shared job) :
    I t.shared ∧ ∀ x ∈ l, ∀ job a, x.label = .own job a → good x.src.shared a.command := by
  refine (Trace.history (P := fun l t => (∀ x ∈ l, ∀ job, x.label = .begin job → admitted x.src.shared job) →
    (I t.shared ∧ D.Pledge good I t) ∧ ∀ x ∈ l, ∀ job a, x.label = .own job a → good x.src.shared a.command)
    ?_ ?_ hr ha).imp And.left id
  · rintro _ rfl _
    refine ⟨⟨h0, fun _ _ hr => ?_⟩, fun x hx => ?_⟩
    · cases hr
    · cases hx
  · intro l t d u _ ih hst ha
    obtain ⟨⟨hi, hp⟩, hgood⟩ := ih fun x hx => ha x (mem_append_left _ hx)
    obtain ⟨hi', hp', hown⟩ := h.step hst hi hp (ha ⟨t, d, u⟩ mem_concat_self)
    refine ⟨⟨hi', hp'⟩, fun x hx => ?_⟩
    rcases mem_append.1 hx with hx | hx
    · exact hgood x hx
    · rw [mem_singleton.1 hx]
      exact hown

/-! ## A program's past -/

def past (l : List D.Event) : List (Asked Cmd Reply) :=
  l.foldl (fun past x =>
    match x.label with
    | .begin _ => []
    | .own _ a => past ++ [a]
    | _ => past) []

theorem past_snoc (l : List D.Event) (x : D.Event) : past (l ++ [x]) = match x.label with
    | .begin _ => []
    | .own _ a => past l ++ [a]
    | _ => past l := by
  rw [past, foldl_append]
  rfl

/-- **What holds along a job's program** holds of the past and of what is left of it. -/
theorem Runs.along (hr : D.Runs s l t) {job : Job} (hrun : t.running = some ⟨job, rest⟩)
    (asks : List (Asked Cmd Reply) → Cmd → Prop) (ends : List (Asked Cmd Reply) → Except ε α → Prop)
    (hp : (D.start job).Along asks ends []) : rest.Along asks ends (past l) := by
  refine Trace.history (P := fun (l : List D.Event) t => ∀ job (rest : Prog Cmd Reply ε α),
    t.running = some ⟨job, rest⟩ → (D.start job).Along asks ends [] → rest.Along asks ends (past l))
    ?_ ?_ hr job rest hrun hp
  · rintro _ rfl _ _ hr
    cases hr
  · intro l t d u _ ih hst job rest hr hp
    rw [past_snoc]
    cases hst with
    | begin job' =>
      obtain ⟨rfl, rfl⟩ := Thread.mk.inj (Option.some.inj hr)
      exact hp
    | own job' next _ =>
      obtain ⟨rfl, rfl⟩ := Thread.mk.inj (Option.some.inj hr)
      exact (ih _ _ rfl hp).2 _
    | finish | stop => cases hr
    | other running _ => exact ih job rest hr hp

/-- The job's command `a`, and then only its own commands, those of `after` among them, and what the others do. -/
def Since (l : List D.Event) (job : Job) (a : Asked Cmd Reply) (after : List (Asked Cmd Reply)) : Prop :=
  ∃ earlier, ∃ (x : D.Event) (later : List D.Event), l = earlier ++ x :: later ∧ x.label = .own job a ∧
    (∀ y ∈ later, (∃ b, y.label = .own job b) ∨ y.label = .other) ∧ ∀ b ∈ after, ∃ y ∈ later, y.label = .own job b

theorem Runs.exists_of_past (hr : D.Runs s l t) {job : Job}
    (hrun : t.running = some ⟨job, rest⟩) {a : Asked Cmd Reply} {before after : List (Asked Cmd Reply)}
    (ha : past l = before ++ a :: after) : Since l job a after := by
  refine Trace.history (P := fun l t => ∀ job rest, t.running = some ⟨job, rest⟩ →
    ∀ a before after, past l = before ++ a :: after → Since l job a after) ?_ ?_ hr job rest hrun a before after ha
  · rintro _ rfl _ _ hr
    cases hr
  · intro l t d u _ ih hst job rest hr a before after ha
    rw [past_snoc] at ha
    cases hst with
    | begin job' => simp at ha
    | @own s t c r job' next _ =>
      obtain ⟨rfl, rfl⟩ := Thread.mk.inj (Option.some.inj hr)
      rcases eq_nil_or_concat after with rfl | ⟨after', b, rfl⟩
      · obtain ⟨-, hb⟩ := append_inj' ha rfl
        obtain rfl := head_eq_of_cons_eq hb
        refine ⟨l, _, [], rfl, rfl, fun y hy => ?_, fun b hb => ?_⟩
        · cases hy
        · cases hb
      · rw [concat_eq_append, ← cons_append, ← append_assoc] at ha
        obtain ⟨hpast, hb⟩ := append_inj' ha rfl
        obtain rfl := head_eq_of_cons_eq hb
        obtain ⟨earlier, x, later, rfl, hx, hl, hafter⟩ := ih _ _ rfl a before after' hpast
        refine ⟨earlier, x, later ++ [_], by rw [append_assoc]; rfl, hx, fun y hy => ?_, fun b hb => ?_⟩
        · rcases mem_append.1 hy with hy | hy
          · exact hl y hy
          · rw [mem_singleton.1 hy]
            exact .inl ⟨_, rfl⟩
        · rw [concat_eq_append] at hb
          rcases mem_append.1 hb with hb | hb
          · obtain ⟨y, hy, hlab⟩ := hafter b hb
            exact ⟨y, mem_append_left _ hy, hlab⟩
          · rw [mem_singleton.1 hb]
            exact ⟨_, mem_concat_self, rfl⟩
    | finish | stop => cases hr
    | other running _ =>
      obtain ⟨earlier, x, later, rfl, hx, hl, hafter⟩ := ih job rest hr a before after ha
      refine ⟨earlier, x, later ++ [_], by rw [append_assoc]; rfl, hx, fun y hy => ?_, fun b hb => ?_⟩
      · rcases mem_append.1 hy with hy | hy
        · exact hl y hy
        · rw [mem_singleton.1 hy]
          exact .inr rfl
      · obtain ⟨y, hy, hlab⟩ := hafter b hb
        exact ⟨y, mem_append_left _ hy, hlab⟩

/-! ## Playing -/

/-- What a player may choose. -/
inductive Choice (Job Chance Wind : Type)
  | begin (job : Job)
  | run (chance : Chance)
  | finish
  | other (wind : Wind)
  | stop

def next {Chance Wind : Type} (D : Desk Cmd Reply ε α S Job) (exec : Chance → S → (c : Cmd) → Option (Reply c × S))
    (other : Wind → S → S) (t : Serial Cmd Reply ε α S Job) :
    Choice Job Chance Wind → Option (Deed Cmd Reply ε α Job × Serial Cmd Reply ε α S Job)
  | .begin job =>
    match t.running with
    | none => some (.begin job, ⟨t.shared, some ⟨job, D.start job⟩⟩)
    | some _ => none
  | .run chance =>
    match t.running with
    | some ⟨job, .call c next⟩ =>
      (exec chance t.shared c).map fun a => (.own job ⟨c, a.1⟩, ⟨a.2, some ⟨job, next a.1⟩⟩)
    | _ => none
  | .finish =>
    match t.running with
    | some ⟨job, .done r⟩ => some (.finish job r, ⟨t.shared, none⟩)
    | _ => none
  | .other wind => some (.other, ⟨other wind t.shared, t.running⟩)
  | .stop => some (.stop, ⟨D.restart t.shared, none⟩)

theorem step_of_next {Chance Wind : Type} {exec : Chance → S → (c : Cmd) → Option (Reply c × S)} {other : Wind → S → S}
    (hexec : ∀ chance s c r t, exec chance s c = some (r, t) → D.world.exec s c r t)
    (hother : ∀ wind s, D.world.other s (other wind s)) (t : Serial Cmd Reply ε α S Job)
    (choice : Choice Job Chance Wind) (d : Deed Cmd Reply ε α Job) (u : Serial Cmd Reply ε α S Job)
    (h : D.next exec other t choice = some (d, u)) : D.Step t d u := by
  obtain ⟨s, running⟩ := t
  cases choice with
  | begin job =>
    rw [next] at h
    split at h
    · rename_i hn
      obtain rfl : running = none := hn
      cases h
      exact .begin job
    · cases h
  | run chance =>
    rw [next] at h
    split at h
    · rename_i job c nx hn
      obtain rfl : running = some ⟨job, .call c nx⟩ := hn
      obtain ⟨⟨r, v⟩, he, heq⟩ := Option.map_eq_some_iff.1 h
      cases heq
      exact .own job nx (hexec chance s c r v he)
    · cases h
  | finish =>
    rw [next] at h
    split at h
    · rename_i job r hn
      obtain rfl : running = some ⟨job, .done r⟩ := hn
      cases h
      exact .finish job r
    · cases h
  | other wind =>
    cases h
    exact .other running (hother wind s)
  | stop =>
    cases h
    exact .stop running

end Desk

end Yuzora
