import Yuzora.Programs
/-!
# Threads — programs side by side

Any number of programs issue their commands on one state, in any order and between whatever the surroundings do to it.
What a program does next depends on its own past alone: on the commands it issued and the answers it got (`Asked`).
`Along` reasons about one program with that past in view; `Runs.along` carries it to every interleaving.
-/
namespace Yuzora

/-- A command with its answer. -/
structure Asked (Cmd : Type) (Reply : Cmd → Type) where
  command : Cmd
  reply : Reply command

namespace Prog

variable {Cmd : Type} {Reply : Cmd → Type} {ε ε' α β : Type}

theorem error_ne_ok {e : ε} {a : α} {P : Prop} (h : (Except.error e : Except ε α) = .ok a) : P := by cases h

theorem ok_ne_error {e : ε} {a : α} {P : Prop} (h : (Except.ok a : Except ε α) = .error e) : P := by cases h

/-! ## One program and its past -/

/-- Every command the program issues is good where it is issued, and it ends well: both may speak of its past. -/
def Along (asks : List (Asked Cmd Reply) → Cmd → Prop) :
    Prog Cmd Reply ε α → (List (Asked Cmd Reply) → Except ε α → Prop) → List (Asked Cmd Reply) → Prop
  | done r, ends, past => ends past r
  | call c next, ends, past => asks past c ∧ ∀ r, Along asks (next r) ends (past ++ [⟨c, r⟩])

variable {asks : List (Asked Cmd Reply) → Cmd → Prop} {past : List (Asked Cmd Reply)} {p : Prog Cmd Reply ε α}

theorem along_bind {f : α → Prog Cmd Reply ε β}
    {ends : List (Asked Cmd Reply) → Except ε β → Prop} :
    ∀ {past : List (Asked Cmd Reply)}, Along asks (p >>= f) ends past ↔
      Along asks p (fun past r => (∀ a, r = .ok a → Along asks (f a) ends past) ∧
        ∀ e, r = .error e → ends past (.error e)) past := by
  induction p with
  | done r =>
    intro past
    cases r with
    | error e =>
      refine ⟨fun h => ⟨fun a ha => ?_, fun e' he => ?_⟩, fun h => h.2 e rfl⟩
      · cases ha
      · cases he
        exact h
    | ok a =>
      refine ⟨fun h => ⟨fun a' ha => ?_, fun e he => ?_⟩, fun h => h.1 a rfl⟩
      · cases ha
        exact h
      · cases he
  | call c next ih =>
    intro past
    exact and_congr_right fun _ => forall_congr' fun r => ih r

theorem along_attempt {ends : List (Asked Cmd Reply) → Except ε' (Except ε α) → Prop} :
    ∀ {past : List (Asked Cmd Reply)}, Along asks (p.attempt : Prog Cmd Reply ε' (Except ε α)) ends past ↔
      Along asks p (fun past r => ends past (.ok r)) past := by
  induction p with
  | done r => exact Iff.rfl
  | call c next ih => exact and_congr_right fun _ => forall_congr' fun r => ih r

theorem Along.mono {asks' : List (Asked Cmd Reply) → Cmd → Prop}
    {ends ends' : List (Asked Cmd Reply) → Except ε α → Prop} (ha : ∀ past c, asks past c → asks' past c)
    (he : ∀ past r, ends past r → ends' past r) :
    ∀ {past : List (Asked Cmd Reply)}, Along asks p ends past → Along asks' p ends' past := by
  induction p with
  | done r => exact fun h => he _ _ h
  | call c next ih => exact fun h => ⟨ha _ _ h.1, fun r => ih r (h.2 r)⟩

end Prog

/-! ## A program and what is left of it -/

namespace Prog

variable {Cmd : Type} {Reply : Cmd → Type} {ε α : Type} {p : Cmd → Prop}

def Goes : Prog Cmd Reply ε α → Prop
  | done _ => False
  | call _ _ => True

/-- Whatever the answers, the program issues such a command before it is over. -/
def Owes (p : Cmd → Prop) : Prog Cmd Reply ε α → Prop
  | done _ => False
  | call c next => p c ∨ ∀ r, Owes p (next r)

theorem Owes.goes {prog : Prog Cmd Reply ε α} (h : prog.Owes p) : prog.Goes := by
  cases prog with
  | done r => exact h
  | call c next => trivial

/-- Wherever the program stands, this holds of its past, its next command and what follows it. -/
def Throughout (P : List (Asked Cmd Reply) → (c : Cmd) → (Reply c → Prog Cmd Reply ε α) → Prop) :
    Prog Cmd Reply ε α → List (Asked Cmd Reply) → Prop
  | done _, _ => True
  | call c next, past => P past c next ∧ ∀ r, Throughout P (next r) (past ++ [⟨c, r⟩])

variable {P : List (Asked Cmd Reply) → (c : Cmd) → (Reply c → Prog Cmd Reply ε α) → Prop}
  {past : List (Asked Cmd Reply)}

theorem throughout_call {c : Cmd} {next : Reply c → Prog Cmd Reply ε α} (h : P past c next)
    (hn : ∀ r, (next r).Throughout P (past ++ [⟨c, r⟩])) : (call c next).Throughout P past := ⟨h, hn⟩

end Prog

/-! ## Many programs -/

/-- What runs: the program of each job, what a command does with what chance decides, and what the surroundings do. -/
structure Pool (Cmd : Type) (Reply : Cmd → Type) (ε α S Job Chance Wind : Type) where
  start : Job → Prog Cmd Reply ε α
  exec : Chance → Job → S → (c : Cmd) → Reply c × S
  drift : Wind → S → S

structure Thread (Cmd : Type) (Reply : Cmd → Type) (ε α Job : Type) where
  job : Job
  rest : Prog Cmd Reply ε α

structure Threads (Cmd : Type) (Reply : Cmd → Type) (ε α S Job : Type) where
  shared : S
  threads : Nat → Option (Thread Cmd Reply ε α Job)

inductive Move (Cmd : Type) (Reply : Cmd → Type) (Job : Type)
  | start (id : Nat) (job : Job)
  | own (id : Nat) (job : Job) (asked : Asked Cmd Reply)
  | drift

/-- What a scheduler may choose. -/
inductive Turn (Job Chance Wind : Type)
  | start (id : Nat) (job : Job)
  | run (id : Nat) (chance : Chance)
  | drift (wind : Wind)

namespace Move
variable {Cmd : Type} {Reply : Cmd → Type} {Job : Type}

def asked? (id : Nat) : Move Cmd Reply Job → Option (Asked Cmd Reply)
  | own id' _ a => if id' = id then some a else none
  | _ => none

theorem asked?_eq_some {id : Nat} {a : Asked Cmd Reply} {m : Move Cmd Reply Job} :
    m.asked? id = some a ↔ ∃ job, m = own id job a := by
  cases m with
  | own id' job a' =>
    rw [asked?]
    by_cases h : id' = id
    · subst h
      simp
    · simp [h]
  | start | drift => simp [asked?]

end Move

namespace Pool

variable {Cmd : Type} {Reply : Cmd → Type} {ε α S Job Chance Wind : Type} {m : Move Cmd Reply Job} {a : Asked Cmd Reply}
  {job : Job}

inductive Step (P : Pool Cmd Reply ε α S Job Chance Wind) :
    Threads Cmd Reply ε α S Job → Move Cmd Reply Job → Threads Cmd Reply ε α S Job → Prop
  | start {s : Threads Cmd Reply ε α S Job} (id : Nat) (job : Job) : s.threads id = none →
      Step P s (.start id job) { s with threads := Function.update s.threads id (some ⟨job, P.start job⟩) }
  | own {s : Threads Cmd Reply ε α S Job} (chance : Chance) (id : Nat) (job : Job) (c : Cmd)
      (next : Reply c → Prog Cmd Reply ε α) : s.threads id = some ⟨job, .call c next⟩ →
      Step P s (.own id job ⟨c, (P.exec chance job s.shared c).1⟩)
        ⟨(P.exec chance job s.shared c).2,
          Function.update s.threads id (some ⟨job, next (P.exec chance job s.shared c).1⟩)⟩
  | drift {s : Threads Cmd Reply ε α S Job} (wind : Wind) :
      Step P s .drift { s with shared := P.drift wind s.shared }

def Runs (P : Pool Cmd Reply ε α S Job Chance Wind) (s : S) :
    List (Transition (Threads Cmd Reply ε α S Job) (Move Cmd Reply Job)) → Threads Cmd Reply ε α S Job → Prop :=
  Trace (fun t => t = ⟨s, fun _ => none⟩) P.Step

def next (P : Pool Cmd Reply ε α S Job Chance Wind) (s : Threads Cmd Reply ε α S Job) :
    Turn Job Chance Wind → Option (Move Cmd Reply Job × Threads Cmd Reply ε α S Job)
  | .start id job =>
    match s.threads id with
    | some _ => none
    | none => some (.start id job, { s with threads := Function.update s.threads id (some ⟨job, P.start job⟩) })
  | .run id chance =>
    match s.threads id with
    | some ⟨job, .call c next⟩ =>
      some (.own id job ⟨c, (P.exec chance job s.shared c).1⟩,
        ⟨(P.exec chance job s.shared c).2,
          Function.update s.threads id (some ⟨job, next (P.exec chance job s.shared c).1⟩)⟩)
    | _ => none
  | .drift wind => some (.drift, { s with shared := P.drift wind s.shared })

theorem step_of_next {P : Pool Cmd Reply ε α S Job Chance Wind} (s : Threads Cmd Reply ε α S Job)
    (a : Turn Job Chance Wind) (m : Move Cmd Reply Job) (t : Threads Cmd Reply ε α S Job)
    (h : P.next s a = some (m, t)) : P.Step s m t := by
  cases a with
  | start id job =>
    rw [next] at h
    split at h
    · cases h
    · rename_i hn
      cases h
      exact .start id job hn
  | run id chance =>
    rw [next] at h
    split at h
    · rename_i job c nx hn
      cases h
      exact .own chance id job c nx hn
    · cases h
  | drift wind =>
    cases h
    exact .drift wind

theorem Step.own_inv {P : Pool Cmd Reply ε α S Job Chance Wind} {s t : Threads Cmd Reply ε α S Job} {id : Nat}
    (h : P.Step s (.own id job a) t) : ∃ chance next,
      s.threads id = some ⟨job, .call a.command next⟩ ∧ P.exec chance job s.shared a.command = (a.reply, t.shared) ∧
        t.threads id = some ⟨job, next a.reply⟩ := by
  cases h with
  | own chance id job c next hn => exact ⟨chance, next, hn, rfl, Function.update_self _ _ _⟩

theorem Step.shared_cases {P : Pool Cmd Reply ε α S Job Chance Wind} {s t : Threads Cmd Reply ε α S Job}
    (h : P.Step s m t) :
    (∃ id job a chance, m = .own id job a ∧ P.exec chance job s.shared a.command = (a.reply, t.shared)) ∨
      (∀ id job a, m ≠ .own id job a) ∧ (t.shared = s.shared ∨ ∃ wind, t.shared = P.drift wind s.shared) := by
  cases h with
  | start id job _ =>
    refine .inr ⟨fun _ _ _ hm => ?_, .inl rfl⟩
    cases hm
  | own chance id job c next _ => exact .inl ⟨id, job, ⟨c, _⟩, chance, rfl, rfl⟩
  | drift wind =>
    refine .inr ⟨fun _ _ _ hm => ?_, .inr ⟨wind, rfl⟩⟩
    cases hm

def Owed (q : Job → Prop) (p : Cmd → Prop) (t : Threads Cmd Reply ε α S Job) : Prop :=
  ∃ id job rest, t.threads id = some ⟨job, rest⟩ ∧ q job ∧ Prog.Owes p rest

theorem Step.owed {P : Pool Cmd Reply ε α S Job Chance Wind} {q : Job → Prop} {p : Cmd → Prop}
    {s t : Threads Cmd Reply ε α S Job} (hst : P.Step s m t) (h : Owed q p s)
    (hp : ∀ id job a, m = .own id job a → ¬ p a.command) : Owed q p t := by
  obtain ⟨id, job, rest, hid, hq, ho⟩ := h
  cases hst with
  | start id' job' hn =>
    have hne : id ≠ id' := by
      rintro rfl
      rw [hn] at hid
      cases hid
    exact ⟨id, job, rest, (Function.update_of_ne hne _ _).trans hid, hq, ho⟩
  | own chance id' job' c next hn =>
    by_cases hne : id = id'
    · subst hne
      rw [hn] at hid
      cases hid
      exact ⟨id, job, _, Function.update_self _ _ _, hq, (ho.resolve_left (hp id job _ rfl)) _⟩
    · exact ⟨id, job, rest, (Function.update_of_ne hne _ _).trans hid, hq, ho⟩
  | drift wind => exact ⟨id, job, rest, hid, hq, ho⟩

/-! ## What a thread's past says -/

/-- The commands that one thread issued in a run, with their answers. -/
def history (id : Nat) (l : List (Transition (Threads Cmd Reply ε α S Job) (Move Cmd Reply Job))) :
    List (Asked Cmd Reply) := l.filterMap fun x => x.label.asked? id

variable {P : Pool Cmd Reply ε α S Job Chance Wind} {id : Nat} {s : S} {t : Threads Cmd Reply ε α S Job}
  {l : List (Transition (Threads Cmd Reply ε α S Job) (Move Cmd Reply Job))} {u v : Threads Cmd Reply ε α S Job}

theorem history_snoc (id : Nat) (l : List (Transition (Threads Cmd Reply ε α S Job) (Move Cmd Reply Job)))
    (x : Transition (Threads Cmd Reply ε α S Job) (Move Cmd Reply Job)) :
    history id (l ++ [x]) = history id l ++ (x.label.asked? id).toList := by
  rw [history, List.filterMap_append]
  congr 1

theorem exists_of_history {before after : List (Asked Cmd Reply)}
    (h : history id l = before ++ a :: after) : ∃ past x later, l = past ++ x :: later ∧
      (∃ job, x.label = .own id job a) ∧ history id past = before ∧ history id later = after := by
  obtain ⟨past, rest, rfl, hpast, hrest⟩ := List.filterMap_eq_append_iff.1 h
  obtain ⟨skip, x, later, rfl, hskip, hx, hlater⟩ := List.filterMap_eq_cons_iff.1 hrest
  refine ⟨past ++ skip, x, later, by simp, Move.asked?_eq_some.1 hx, ?_, hlater⟩
  rw [history, List.filterMap_append, List.filterMap_eq_nil_iff.2 hskip, List.append_nil]
  exact hpast

theorem exists_of_mem_history (h : a ∈ history id l) :
    ∃ past x later, l = past ++ x :: later ∧ ∃ job, x.label = .own id job a := by
  obtain ⟨before, after, hl⟩ := List.append_of_mem h
  obtain ⟨past, x, later, hx, hlab, -, -⟩ := exists_of_history hl
  exact ⟨past, x, later, hx, hlab⟩

theorem mem_history : a ∈ history id l ↔ ∃ x ∈ l, ∃ job, x.label = .own id job a := by
  simp only [history, List.mem_filterMap, Move.asked?_eq_some]

/-- **A thread's commands keep to its program**: the thread is there, its job never changed, and whatever holds along
the program holds of the thread's past, of its next command and of its result. -/
structure Follows (P : Pool Cmd Reply ε α S Job Chance Wind)
    (l : List (Transition (Threads Cmd Reply ε α S Job) (Move Cmd Reply Job))) (t : Threads Cmd Reply ε α S Job)
    (id : Nat) : Prop where
  absent : t.threads id = none → history id l = []
  jobs : ∀ x ∈ l, ∀ job a, x.label = .own id job a → ∃ rest, t.threads id = some ⟨job, rest⟩
  along : ∀ job rest, t.threads id = some ⟨job, rest⟩ →
    ∀ (asks : List (Asked Cmd Reply) → Cmd → Prop) (ends : List (Asked Cmd Reply) → Except ε α → Prop),
      (P.start job).Along asks ends [] → rest.Along asks ends (history id l)

theorem Follows.start (h : Follows P l u id)
    (hn : u.threads id = none) (hm : m.asked? id = none) (hv : v.threads id = some ⟨job, P.start job⟩) :
    Follows P (l ++ [⟨u, m, v⟩]) v id := by
  have hh : history id (l ++ [⟨u, m, v⟩]) = [] := by
    rw [history_snoc, h.absent hn, hm]
    rfl
  refine ⟨fun _ => hh, fun y hy job' a ha => ?_, fun job' rest hr asks ends hp => ?_⟩
  · have hmem : a ∈ history id (l ++ [⟨u, m, v⟩]) := mem_history.2 ⟨y, hy, job', ha⟩
    rw [hh] at hmem
    cases hmem
  · rw [hv] at hr
    cases hr
    rw [hh]
    exact hp

theorem Follows.still (h : Follows P l u id)
    (hm : m.asked? id = none) (hv : v.threads id = u.threads id) : Follows P (l ++ [⟨u, m, v⟩]) v id := by
  have hh : history id (l ++ [⟨u, m, v⟩]) = history id l := by
    rw [history_snoc, hm]
    exact List.append_nil _
  refine ⟨fun hn => by rw [hh, h.absent (hv ▸ hn)], fun y hy job a ha => ?_, fun job rest hr asks ends hp => ?_⟩
  · rcases List.mem_append.1 hy with hy | hy
    · rw [hv]
      exact h.jobs y hy job a ha
    · obtain rfl := List.mem_singleton.1 hy
      rw [Move.asked?_eq_some.2 ⟨job, ha⟩] at hm
      cases hm
  · rw [hh]
    exact h.along job rest (hv ▸ hr) asks ends hp

theorem Follows.own {c : Cmd} {r : Reply c}
    {next : Reply c → Prog Cmd Reply ε α} (h : Follows P l u id) (hu : u.threads id = some ⟨job, .call c next⟩)
    (hv : v.threads id = some ⟨job, next r⟩) : Follows P (l ++ [⟨u, .own id job ⟨c, r⟩, v⟩]) v id := by
  have hh : history id (l ++ [⟨u, .own id job ⟨c, r⟩, v⟩]) = history id l ++ [⟨c, r⟩] := by
    rw [history_snoc, Move.asked?, if_pos rfl]
    rfl
  refine ⟨fun hn => ?_, fun y hy job' a ha => ?_, fun job' rest hr asks ends hp => ?_⟩
  · rw [hv] at hn
    cases hn
  · rcases List.mem_append.1 hy with hy | hy
    · obtain ⟨rest, hrest⟩ := h.jobs y hy job' a ha
      rw [hu] at hrest
      cases hrest
      exact ⟨_, hv⟩
    · obtain rfl := List.mem_singleton.1 hy
      cases ha
      exact ⟨_, hv⟩
  · rw [hv] at hr
    cases hr
    rw [hh]
    exact (h.along job _ hu asks ends hp).2 r

theorem Follows.step (h : Follows P l u id)
    (hst : P.Step u m v) : Follows P (l ++ [⟨u, m, v⟩]) v id := by
  cases hst with
  | start id' job hn =>
    by_cases hid : id' = id
    · subst hid
      exact h.start hn rfl (Function.update_self _ _ _)
    · exact h.still rfl (Function.update_of_ne (Ne.symm hid) _ _)
  | own chance id' job c next hn =>
    by_cases hid : id' = id
    · subst hid
      exact h.own hn (Function.update_self _ _ _)
    · exact h.still (if_neg hid) (Function.update_of_ne (Ne.symm hid) _ _)
  | drift wind => exact h.still rfl rfl

/-- **Every thread of a run keeps to its program.** -/
theorem Runs.follows (h : P.Runs s l t) (id : Nat) : Follows P l t id := by
  refine Trace.history (P := fun l t => Follows P l t id) ?_ (fun l u m v _ ih hst => ih.step hst) h
  rintro _ rfl
  refine ⟨fun _ => rfl, fun x hx => ?_, fun job rest hr => ?_⟩
  · cases hx
  · cases hr

/-- **What holds throughout a job's program** holds of what is left of it. -/
theorem Runs.throughout (h : P.Runs s l t) {rest : Prog Cmd Reply ε α}
    (ht : t.threads id = some ⟨job, rest⟩)
    (I : List (Asked Cmd Reply) → (c : Cmd) → (Reply c → Prog Cmd Reply ε α) → Prop)
    (hp : (P.start job).Throughout I []) : rest.Throughout I (history id l) := by
  refine Trace.history (P := fun (l : List (Transition (Threads Cmd Reply ε α S Job) (Move Cmd Reply Job))) t =>
    (t.threads id = none → history id l = []) ∧ ∀ job (rest : Prog Cmd Reply ε α), t.threads id = some ⟨job, rest⟩ →
      (P.start job).Throughout I [] → rest.Throughout I (history id l)) ?_ ?_ h |>.2 job rest ht hp
  · rintro _ rfl
    refine ⟨fun _ => rfl, fun _ _ hr => ?_⟩
    cases hr
  · intro l u m v _ ⟨hnone, ih⟩ hst
    have hstill : ∀ {v : Threads Cmd Reply ε α S Job}, m.asked? id = none → v.threads id = u.threads id →
        (v.threads id = none → history id (l ++ [⟨u, m, v⟩]) = []) ∧ ∀ job (rest : Prog Cmd Reply ε α),
          v.threads id = some ⟨job, rest⟩ → (P.start job).Throughout I [] →
            rest.Throughout I (history id (l ++ [⟨u, m, v⟩])) := by
      intro v hm hv
      have hh : history id (l ++ [⟨u, m, v⟩]) = history id l := by
        rw [history_snoc, hm]
        exact List.append_nil _
      rw [hv, hh]
      exact ⟨hnone, ih⟩
    cases hst with
    | start id' job hn =>
      by_cases hid : id' = id
      · subst hid
        have hh : history id' (l ++ [⟨u, .start id' job, { u with
            threads := Function.update u.threads id' (some ⟨job, P.start job⟩) }⟩]) = [] := by
          rw [history_snoc, hnone hn]
          rfl
        rw [hh]
        refine ⟨fun _ => rfl, fun job' rest hr hp => ?_⟩
        dsimp only at hr
        rw [Function.update_self] at hr
        cases hr
        exact hp
      · exact hstill rfl (Function.update_of_ne (Ne.symm hid) _ _)
    | own chance id' job c next hn =>
      by_cases hid : id' = id
      · subst hid
        refine ⟨fun hnone => ?_, fun job' rest hr hp => ?_⟩
        · dsimp only at hnone
          rw [Function.update_self] at hnone
          cases hnone
        · dsimp only at hr
          rw [Function.update_self] at hr
          cases hr
          rw [history_snoc, Move.asked?, if_pos rfl]
          exact (ih job _ hn hp).2 _
      · exact hstill (if_neg hid) (Function.update_of_ne (Ne.symm hid) _ _)
    | drift wind => exact hstill rfl rfl

theorem Runs.started (h : P.Runs s l t) {th : Thread Cmd Reply ε α Job} (ht : t.threads id = some th) :
    ∃ x ∈ l, ∃ job, x.label = .start id job := by
  refine Trace.history (P := fun (l : List (Transition (Threads Cmd Reply ε α S Job) (Move Cmd Reply Job))) t =>
    ∀ th, t.threads id = some th → ∃ x ∈ l, ∃ job, x.label = .start id job) ?_ ?_ h th ht
  · rintro _ rfl th hth
    cases hth
  · intro l u m v _ ih hst th hth
    have hold : u.threads id ≠ none → ∃ x ∈ l ++ [Transition.mk u m v], ∃ job, x.label = .start id job := fun hne => by
      obtain ⟨th', hth'⟩ := Option.ne_none_iff_exists'.1 hne
      obtain ⟨x, hx, hlab⟩ := ih th' hth'
      exact ⟨x, List.mem_append_left _ hx, hlab⟩
    by_cases hn : u.threads id = none
    · cases hst with
      | start id' job _ =>
        by_cases hid : id' = id
        · subst hid
          exact ⟨_, List.mem_concat_self, job, rfl⟩
        · have := (Function.update_of_ne (Ne.symm hid) _ u.threads).symm.trans hth
          rw [hn] at this
          cases this
      | own chance id' job c next hn' =>
        have hid : id ≠ id' := by
          rintro rfl
          rw [hn] at hn'
          cases hn'
        have := (Function.update_of_ne hid _ u.threads).symm.trans hth
        rw [hn] at this
        cases this
      | drift wind =>
        cases hn.symm.trans hth
    · exact hold hn

end Pool

end Yuzora
