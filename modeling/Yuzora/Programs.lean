import Yuzora.Trace
/-!
# Programs — one program's commands among everyone else's moves

A program ends with a result, or issues a command and goes on from the answer.  A world says what a command may do and
answer, and what others may do before the next one.  `Ensures` reasons about a program along its own structure; what it
proves holds in every run (`Ensures.run`).
-/
namespace Yuzora

inductive Prog (Cmd : Type) (Reply : Cmd → Type) (ε α : Type)
  | done (result : Except ε α)
  | call (command : Cmd) (next : Reply command → Prog Cmd Reply ε α)

structure World (Cmd : Type) (Reply : Cmd → Type) (S : Type) where
  exec : S → (command : Cmd) → Reply command → S → Prop
  other : S → S → Prop
  /-- After this answer nobody else moves before the next command. -/
  calm : (command : Cmd) → Reply command → Bool

namespace Prog

variable {Cmd : Type} {Reply : Cmd → Type} {ε ε' α β : Type}

def bind : Prog Cmd Reply ε α → (α → Prog Cmd Reply ε β) → Prog Cmd Reply ε β
  | done (.ok a), f => f a
  | done (.error e), _ => done (.error e)
  | call c next, f => call c fun r => (next r).bind f

instance : Monad (Prog Cmd Reply ε) where
  pure a := done (.ok a)
  bind := bind

def throw (e : ε) : Prog Cmd Reply ε α := done (.error e)

def command (c : Cmd) : Prog Cmd Reply ε (Reply c) := call c fun r => done (.ok r)

def attempt : Prog Cmd Reply ε α → Prog Cmd Reply ε' (Except ε α)
  | done r => done (.ok r)
  | call c next => call c fun r => (next r).attempt

def mapError (f : ε → ε') : Prog Cmd Reply ε α → Prog Cmd Reply ε' α
  | done (.ok a) => done (.ok a)
  | done (.error e) => done (.error (f e))
  | call c next => call c fun r => (next r).mapError f

def ofExcept (r : Except ε α) : Prog Cmd Reply ε α := done r

theorem bind_assoc {γ : Type} (p : Prog Cmd Reply ε α) (f : α → Prog Cmd Reply ε β) (g : β → Prog Cmd Reply ε γ) :
    p >>= f >>= g = p >>= fun a => f a >>= g := by
  induction p with
  | done r =>
    cases r with
    | ok a => rfl
    | error e => rfl
  | call c next ih => exact congrArg (call c) (funext ih)

end Prog

/-! ## Evaluation -/

namespace Prog

variable {Cmd : Type} {Reply : Cmd → Type} {ε α β S : Type}

def eval (exec : S → (c : Cmd) → Reply c × S) : Prog Cmd Reply ε α → S → Except ε α × S
  | done r, s => (r, s)
  | call c next, s => (next (exec s c).1).eval exec (exec s c).2

variable {exec : S → (c : Cmd) → Reply c × S}

theorem eval_bind_ok {p : Prog Cmd Reply ε α} {f : α → Prog Cmd Reply ε β} {a : α} {t : S} :
    ∀ {s : S}, p.eval exec s = (.ok a, t) → (p >>= f).eval exec s = (f a).eval exec t := by
  induction p with
  | done r =>
    intro s h
    cases h
    rfl
  | call c next ih => exact fun h => ih _ h

end Prog

/-! ## Runs -/

/-- Where a run is: what is left of the program, the state, and whether the others hold still until the next command. -/
structure Running (Cmd : Type) (Reply : Cmd → Type) (ε α S : Type) where
  prog : Prog Cmd Reply ε α
  state : S
  calm : Bool

inductive Act (Cmd : Type) (Reply : Cmd → Type)
  | own (command : Cmd) (reply : Reply command)
  | other

namespace World

variable {Cmd : Type} {Reply : Cmd → Type} {ε ε' α β S : Type}

inductive Step (W : World Cmd Reply S) :
    Running Cmd Reply ε α S → Act Cmd Reply → Running Cmd Reply ε α S → Prop
  | own {c : Cmd} {r : Reply c} {s t : S} (next : Reply c → Prog Cmd Reply ε α) (calm : Bool) :
      W.exec s c r t → Step W ⟨.call c next, s, calm⟩ (.own c r) ⟨next r, t, W.calm c r⟩
  | other {s t : S} (c : Cmd) (next : Reply c → Prog Cmd Reply ε α) :
      W.other s t → Step W ⟨.call c next, s, false⟩ .other ⟨.call c next, t, false⟩

variable (W : World Cmd Reply S)

def Runs (p : Prog Cmd Reply ε α) (s : S) :
    List (Transition (Running Cmd Reply ε α S) (Act Cmd Reply)) → Running Cmd Reply ε α S → Prop :=
  Trace (fun c => c = ⟨p, s, false⟩) W.Step

def Drift (calm : Bool) (s t : S) : Prop :=
  if calm then t = s else Relation.ReflTransGen W.other s t

def Stable (P : S → Prop) : Prop := ∀ s t, P s → W.other s t → P t

variable {W : World Cmd Reply S} {P P' : S → Prop} {s t : S} {calm : Bool}

theorem Drift.refl (W : World Cmd Reply S) (calm : Bool) (s : S) : W.Drift calm s s := by
  unfold Drift
  split
  · rfl
  · exact .refl

theorem Stable.drift (h : W.Stable P) (hs : P s) (hd : W.Drift calm s t) : P t := by
  unfold Drift at hd
  split at hd
  · exact hd ▸ hs
  · induction hd with
    | refl => exact hs
    | tail _ hst ih => exact h _ _ ih hst

theorem Stable.and (h : W.Stable P) (h' : W.Stable P') : W.Stable fun s => P s ∧ P' s :=
  fun s t hs hst => ⟨h s t hs.1 hst, h' s t hs.2 hst⟩

theorem Stable.or (h : W.Stable P) (h' : W.Stable P') : W.Stable fun s => P s ∨ P' s := fun s t hs hst =>
  hs.imp (h s t · hst) (h' s t · hst)

theorem Stable.imp {q : Prop} (h : q → W.Stable P) : W.Stable fun s => q → P s :=
  fun s t hs hst hq => h hq s t (hs hq) hst

/-! ## Reasoning along a program -/

/-- From this state, every command that is admitted where it is issued is good there, and the program ends in `Q`. -/
def Ensures (W : World Cmd Reply S) (admits good : S → Cmd → Prop) :
    Prog Cmd Reply ε α → (Except ε α → Bool → S → Prop) → Bool → S → Prop
  | .done r, Q, calm, s => Q r calm s
  | .call c next, Q, calm, s => ∀ t, W.Drift calm s t → admits t c →
      good t c ∧ ∀ r u, W.exec t c r u → Ensures W admits good (next r) Q (W.calm c r) u

variable {admits good : S → Cmd → Prop} {p : Prog Cmd Reply ε α}

theorem Ensures.mono {Q Q' : Except ε α → Bool → S → Prop} (hQ : ∀ r calm s, Q r calm s → Q' r calm s) :
    ∀ {calm : Bool} {s : S}, W.Ensures admits good p Q calm s → W.Ensures admits good p Q' calm s := by
  induction p with
  | done r => exact fun h => hQ _ _ _ h
  | call c next ih =>
    intro calm s h t hd ha
    exact ⟨(h t hd ha).1, fun r u he => ih r ((h t hd ha).2 r u he)⟩

theorem Ensures.bind {f : α → Prog Cmd Reply ε β} {Q : Except ε β → Bool → S → Prop} : ∀ {calm : Bool} {s : S},
      W.Ensures admits good p (fun r calm s => match r with
        | .ok a => W.Ensures admits good (f a) Q calm s
        | .error e => Q (.error e) calm s) calm s →
      W.Ensures admits good (p >>= f) Q calm s := by
  induction p with
  | done r =>
    intro calm s h
    cases r with
    | error | ok => exact h
  | call c next ih =>
    intro calm s h t hd ha
    exact ⟨(h t hd ha).1, fun r u he => ih r ((h t hd ha).2 r u he)⟩

theorem Ensures.attempt {Q : Except ε' (Except ε α) → Bool → S → Prop} :
    ∀ {calm : Bool} {s : S}, W.Ensures admits good p (fun r calm s => Q (.ok r) calm s) calm s →
      W.Ensures admits good (p.attempt : Prog Cmd Reply ε' (Except ε α)) Q calm s := by
  induction p with
  | done r => exact fun h => h
  | call c next ih =>
    intro calm s h t hd ha
    exact ⟨(h t hd ha).1, fun r u he => ih r ((h t hd ha).2 r u he)⟩

theorem Ensures.mapError {f : ε → ε'} {Q : Except ε' α → Bool → S → Prop} :
    ∀ {calm : Bool} {s : S}, W.Ensures admits good p (fun r calm s => Q (r.mapError f) calm s) calm s →
      W.Ensures admits good (p.mapError f) Q calm s := by
  induction p with
  | done r =>
    intro calm s h
    cases r with
    | error | ok => exact h
  | call c next ih =>
    intro calm s h t hd ha
    exact ⟨(h t hd ha).1, fun r u he => ih r ((h t hd ha).2 r u he)⟩

theorem Ensures.command {c : Cmd} {Q : Except ε (Reply c) → Bool → S → Prop} (hP : W.Stable P) (hs : P s)
    (h : ∀ t, P t → admits t c → good t c ∧ ∀ r u, W.exec t c r u → Q (.ok r) (W.calm c r) u) :
    W.Ensures admits good (Prog.command c) Q calm s :=
  fun t hd ha => h t (hP.drift hs hd) ha

theorem Ensures.still {c : Cmd} {Q : Except ε (Reply c) → Bool → S → Prop}
    (h : admits s c → good s c ∧ ∀ r u, W.exec s c r u → Q (.ok r) (W.calm c r) u) :
    W.Ensures admits good (Prog.command c) Q true s := by
  intro t hd ha
  obtain rfl : t = s := hd
  exact h ha

/-- The same from every state in `P`, for postconditions that do not care who moves next. -/
structure Meets (W : World Cmd Reply S) (admits good : S → Cmd → Prop) (P : S → Prop) (p : Prog Cmd Reply ε α)
    (Q : Except ε α → S → Prop) : Prop where
  ensures : ∀ calm s, P s → W.Ensures admits good p (fun r _ s => Q r s) calm s

section Meets

variable {f : α → Prog Cmd Reply ε β} {Q : Except ε α → S → Prop} {R : Except ε α → S → Prop}

theorem Meets.mono {P P' : S → Prop} {Q Q' : Except ε α → S → Prop} (h : W.Meets admits good P p Q)
    (hP : ∀ s, P' s → P s) (hQ : ∀ r s, Q r s → Q' r s) : W.Meets admits good P' p Q' :=
  ⟨fun calm s hs => (h.ensures calm s (hP s hs)).mono fun r _ s => hQ r s⟩

theorem Meets.exists {ι : Type} {P : ι → S → Prop}
    (h : ∀ i, W.Meets admits good (P i) p Q) : W.Meets admits good (fun s => ∃ i, P i s) p Q :=
  ⟨fun calm s hs => hs.elim fun i hi => (h i).ensures calm s hi⟩

theorem Meets.pure {a : α} (h : ∀ s, P s → Q (.ok a) s) : W.Meets admits good P (pure a) Q := ⟨fun _ s hs => h s hs⟩

theorem Meets.throw {e : ε} (h : ∀ s, P s → Q (.error e) s) :
    W.Meets admits good P (Prog.throw e) Q := ⟨fun _ s hs => h s hs⟩

theorem Meets.ofExcept {r : Except ε α} (h : ∀ s, P s → Q r s) :
    W.Meets admits good P (Prog.ofExcept r) Q := ⟨fun _ s hs => h s hs⟩

theorem Meets.bind {Q : Except ε β → S → Prop} (h : W.Meets admits good P p R)
    (hok : ∀ a, W.Meets admits good (R (.ok a)) (f a) Q) (herr : ∀ e s, R (.error e) s → Q (.error e) s) :
    W.Meets admits good P (p >>= f) Q := by
  refine ⟨fun calm s hs => Ensures.bind ((h.ensures calm s hs).mono fun r calm s hr => ?_)⟩
  cases r with
  | error e => exact herr e s hr
  | ok a => exact (hok a).ensures calm s hr

theorem Meets.attempt {Q : Except ε' (Except ε α) → S → Prop}
    (h : W.Meets admits good P p fun r s => Q (.ok r) s) : W.Meets admits good P (p.attempt : Prog Cmd Reply ε' (Except ε α)) Q :=
  ⟨fun calm s hs => Ensures.attempt (h.ensures calm s hs)⟩

theorem Meets.bindAttempt {f : Except ε α → Prog Cmd Reply ε' β}
    {Q : Except ε' β → S → Prop} (h : W.Meets admits good P p R) (hf : ∀ r, W.Meets admits good (R r) (f r) Q) :
    W.Meets admits good P (p.attempt >>= f) Q :=
  ⟨fun calm s hs => Ensures.bind (Ensures.attempt ((h.ensures calm s hs).mono fun r calm s hr => (hf r).ensures calm s hr))⟩

theorem Meets.mapError {e : ε → ε'} {Q : Except ε' α → S → Prop}
    (h : W.Meets admits good P p fun r s => Q (r.mapError e) s) : W.Meets admits good P (p.mapError e) Q :=
  ⟨fun calm s hs => Ensures.mapError (h.ensures calm s hs)⟩

theorem Meets.command {c : Cmd} {Q : Except ε (Reply c) → S → Prop} (hP : W.Stable P)
    (h : ∀ s, P s → admits s c → good s c ∧ ∀ r t, W.exec s c r t → Q (.ok r) t) :
    W.Meets admits good P (Prog.command c) Q := ⟨fun _ _ hs => Ensures.command hP hs h⟩

end Meets

theorem Ensures.step {Q : Except ε α → Bool → S → Prop} {x y : Running Cmd Reply ε α S}
    {a : Act Cmd Reply} (h : W.Ensures admits good x.prog Q x.calm x.state) (hst : W.Step x a y)
    (ha : ∀ c r, a = .own c r → admits x.state c) :
    (∀ c r, a = .own c r → good x.state c) ∧ W.Ensures admits good y.prog Q y.calm y.state := by
  cases hst with
  | @own c r s t next calm he =>
    obtain ⟨hg, hn⟩ := h s (.refl W calm s) (ha c r rfl)
    refine ⟨fun c' r' heq => ?_, hn r t he⟩
    cases heq
    exact hg
  | @other s t c next ho =>
    refine ⟨nofun, fun u hd hu => h u ?_ hu⟩
    exact Relation.ReflTransGen.head ho hd

/-- **What `Ensures` promises holds in every run whose commands are all admitted.** -/
theorem Ensures.run {Q : Except ε α → Bool → S → Prop}
    (h : W.Ensures admits good p Q false s) {l : List (Transition (Running Cmd Reply ε α S) (Act Cmd Reply))}
    {x : Running Cmd Reply ε α S} (hr : W.Runs p s l x)
    (ha : ∀ y ∈ l, ∀ c r, y.label = .own c r → admits y.src.state c) :
    (∀ y ∈ l, ∀ c r, y.label = .own c r → good y.src.state c) ∧ W.Ensures admits good x.prog Q x.calm x.state := by
  refine hr.history (P := fun l x => (∀ y ∈ l, ∀ c r, y.label = .own c r → admits y.src.state c) →
    (∀ y ∈ l, ∀ c r, y.label = .own c r → good y.src.state c) ∧ W.Ensures admits good x.prog Q x.calm x.state)
    ?_ ?_ ha
  · rintro x rfl _
    exact ⟨nofun, h⟩
  · intro l x a y _ ih hst ha
    obtain ⟨hgood, hens⟩ := ih fun z hz => ha z (List.mem_append_left _ hz)
    have hlast := hens.step hst (ha ⟨x, a, y⟩ List.mem_concat_self)
    refine ⟨fun z hz => ?_, hlast.2⟩
    rcases List.mem_append.1 hz with hz | hz
    · exact hgood z hz
    · rw [List.mem_singleton.1 hz]
      exact hlast.1

end World

end Yuzora
