import Mathlib.Data.List.Chain
/-!
# Trace — runs of a labelled transition system

A run is the list of transitions it took.  Besides the invariant rule, two shapes of statement about the past: `Since`
(the last time something happened, nothing of a kind came after) and `Happened` (things happened in a given order).
-/
namespace Yuzora

structure Transition (S L : Type) where
  src : S
  label : L
  dst : S

/-- The runs of a transition system, the newest transition last. -/
inductive Trace {S L : Type} (init : S → Prop) (step : S → L → S → Prop) : List (Transition S L) → S → Prop
  | start {s : S} : init s → Trace init step [] s
  | snoc {l : List (Transition S L)} {s t : S} {a : L} :
      Trace init step l s → step s a t → Trace init step (l ++ [⟨s, a, t⟩]) t

namespace Trace

variable {S L : Type} {init : S → Prop} {step : S → L → S → Prop}

/-- **The invariant rule**: what holds at the start and is kept by every step holds in every state reached. -/
theorem invariant {P : S → Prop} (h0 : ∀ s, init s → P s) (h1 : ∀ s a t, P s → step s a t → P t)
    {l : List (Transition S L)} {s : S} (h : Trace init step l s) : P s := by
  induction h with
  | start hs => exact h0 _ hs
  | snoc _ hst ih => exact h1 _ _ _ ih hst

/-- **The invariant rule with the run so far in view.** -/
theorem history {P : List (Transition S L) → S → Prop} (h0 : ∀ s, init s → P [] s)
    (h1 : ∀ l s a t, Trace init step l s → P l s → step s a t → P (l ++ [⟨s, a, t⟩]) t)
    {l : List (Transition S L)} {s : S} (h : Trace init step l s) : P l s := by
  induction h with
  | start hs => exact h0 _ hs
  | snoc hl hst ih => exact h1 _ _ _ _ hl ih hst

theorem split {l past later : List (Transition S L)} {x : Transition S L} {s : S} (h : Trace init step l s)
    (hl : l = past ++ x :: later) : Trace init step past x.src ∧ step x.src x.label x.dst := by
  induction h generalizing later with
  | start _ => simp at hl
  | @snoc l s t a h hst ih =>
    rcases List.eq_nil_or_concat later with rfl | ⟨later', y, rfl⟩
    · obtain ⟨rfl, hx⟩ := List.append_inj' hl rfl
      obtain rfl := List.head_eq_of_cons_eq hx
      exact ⟨h, hst⟩
    · rw [List.concat_eq_append, ← List.cons_append, ← List.append_assoc] at hl
      exact ih (List.append_inj' hl rfl).1

theorem transition {l : List (Transition S L)} {s : S} (h : Trace init step l s) :
    ∀ x ∈ l, ∃ past later, l = past ++ x :: later ∧ Trace init step past x.src ∧ step x.src x.label x.dst := by
  intro x hx
  obtain ⟨past, later, hl⟩ := List.append_of_mem hx
  exact ⟨past, later, hl, h.split hl⟩

theorem grows {α : Type} [Preorder α] {f : S → α} (hf : ∀ s a t, step s a t → f s ≤ f t)
    {l : List (Transition S L)} {s : S} (h : Trace init step l s) : ∀ x ∈ l, f x.src ≤ f s ∧ f x.dst ≤ f s := by
  induction h with
  | start _ => exact fun x hx => by cases hx
  | snoc _ hst ih =>
    intro x hx
    rcases List.mem_append.1 hx with hx | hx
    · exact ⟨(ih x hx).1.trans (hf _ _ _ hst), (ih x hx).2.trans (hf _ _ _ hst)⟩
    · rw [List.mem_singleton.1 hx]
      exact ⟨hf _ _ _ hst, le_refl _⟩

/-- **What holds after a transition and is kept by each later one** holds at the end. -/
theorem persists {P : S → Prop} {l past later : List (Transition S L)} {x : Transition S L} {s : S}
    (h : Trace init step l s) (hl : l = past ++ x :: later) (h0 : P x.dst)
    (h1 : ∀ y ∈ later, step y.src y.label y.dst → P y.src → P y.dst) : P s := by
  induction h generalizing later with
  | start _ => simp at hl
  | @snoc l s t a h hst ih =>
    rcases List.eq_nil_or_concat later with rfl | ⟨later', y, rfl⟩
    · obtain ⟨rfl, hx⟩ := List.append_inj' hl rfl
      obtain rfl := List.head_eq_of_cons_eq hx
      exact h0
    · rw [List.concat_eq_append] at hl h1
      rw [← List.cons_append, ← List.append_assoc] at hl
      obtain ⟨rfl, hy⟩ := List.append_inj' hl rfl
      obtain rfl := List.head_eq_of_cons_eq hy
      have hs := ih rfl fun y hy => h1 y (List.mem_append_left _ hy)
      exact h1 _ List.mem_concat_self hst hs

theorem between {P : S → Prop} {l past mid later : List (Transition S L)} {x y : Transition S L} {s : S}
    (h : Trace init step l s) (hl : l = past ++ x :: mid ++ y :: later) (h0 : P x.dst)
    (h1 : ∀ z ∈ mid, step z.src z.label z.dst → P z.src → P z.dst) : P y.src :=
  (h.split hl).1.persists rfl h0 h1

/-- Plays actions from a state, each answered with a label and the next state, as far as they go. -/
def play {A : Type} (next : S → A → Option (L × S)) :
    List A → List (Transition S L) → S → Option (List (Transition S L) × S)
  | [], l, s => some (l, s)
  | a :: rest, l, s =>
    match next s a with
    | none => none
    | some (label, t) => play next rest (l ++ [⟨s, label, t⟩]) t

/-- **What is played is a run.** -/
theorem of_play {A : Type} {next : S → A → Option (L × S)}
    (hnext : ∀ s a label t, next s a = some (label, t) → step s label t) :
    ∀ {acts : List A} {l l' : List (Transition S L)} {s t : S},
      Trace init step l s → play next acts l s = some (l', t) → Trace init step l' t
  | [], l, l', s, t, h, hp => by
    cases hp
    exact h
  | a :: rest, l, l', s, t, h, hp => by
    rw [play] at hp
    split at hp
    · cases hp
    · rename_i label u hn
      exact of_play hnext (h.snoc (hnext _ _ _ _ hn)) hp

/-- **Actions played from a start are a run** of what each of them does to the state. -/
theorem of_played {next : S → L → Option S} {acts : List L} {s t : S} {l : List (Transition S L)} (hs : init s)
    (hp : play (fun s a => (next s a).map (Prod.mk a)) acts [] s = some (l, t)) :
    Trace init (fun s a t => next s a = some t) l t := by
  refine of_play ?_ (.start hs) hp
  intro s a label t hn
  obtain ⟨u, hu, he⟩ := Option.map_eq_some_iff.1 hn
  cases he
  exact hu

def follow {C R : Type} (call : S → C → R × S) :
    List C → List (Transition S (C × R)) → S → List (Transition S (C × R)) × S
  | [], l, s => (l, s)
  | c :: rest, l, s => follow call rest (l ++ [⟨s, (c, (call s c).1), (call s c).2⟩]) (call s c).2

theorem follow_snoc {C R : Type} (call : S → C → R × S) : ∀ (calls : List C) (c : C) (l : List (Transition S (C × R)))
    (s : S), (follow call (calls ++ [c]) l s).2 = (call (follow call calls l s).2 c).2
  | [], _, _, _ => rfl
  | _ :: rest, c, _, _ => follow_snoc call rest c _ _

/-- **Calls that follow one another are a run.** -/
theorem of_follow {C R : Type} {call : S → C → R × S} :
    ∀ (calls : List C) {l : List (Transition S (C × R))} {s : S},
      Trace init (fun s a t => call s a.1 = (a.2, t)) l s →
        Trace init (fun s a t => call s a.1 = (a.2, t)) (follow call calls l s).1 (follow call calls l s).2
  | [], _, _, h => h
  | _ :: rest, _, _, h => of_follow rest (h.snoc rfl)

end Trace

section Past
variable {α : Type}

/-- Some element satisfies `p`, and every element after it satisfies `q`. -/
def Since (p q : α → Prop) (l : List α) : Prop :=
  ∃ past x later, l = past ++ x :: later ∧ p x ∧ ∀ y ∈ later, q y

theorem Since.now {p q : α → Prop} {l : List α} {x : α} (h : p x) : Since p q (l ++ [x]) :=
  ⟨l, x, [], rfl, h, nofun⟩

theorem Since.snoc {p q : α → Prop} {l : List α} {y : α} (h : Since p q l) (hy : q y) : Since p q (l ++ [y]) := by
  obtain ⟨past, x, later, rfl, hp, hq⟩ := h
  refine ⟨past, x, later ++ [y], by simp, hp, fun z hz => ?_⟩
  rcases List.mem_append.1 hz with hz | hz
  · exact hq z hz
  · rw [List.mem_singleton.1 hz]
    exact hy

theorem Since.of_snoc {p q : α → Prop} {l : List α} {y : α} (h : Since p q (l ++ [y])) : p y ∨ Since p q l ∧ q y := by
  obtain ⟨past, x, later, hl, hp, hq⟩ := h
  rcases List.eq_nil_or_concat later with rfl | ⟨later', z, rfl⟩
  · obtain ⟨-, hx⟩ := List.append_inj' hl rfl
    obtain rfl := List.head_eq_of_cons_eq hx
    exact .inl hp
  · rw [List.concat_eq_append] at hl hq
    rw [← List.cons_append, ← List.append_assoc] at hl
    obtain ⟨rfl, hz⟩ := List.append_inj' hl rfl
    obtain rfl := List.head_eq_of_cons_eq hz
    exact .inr ⟨⟨past, x, later', rfl, hp, fun w hw => hq w (List.mem_append_left _ hw)⟩,
      hq y List.mem_concat_self⟩

/-- `Since` as a computation. -/
def since (p q : α → Bool) (l : List α) : Bool := l.foldl (fun b x => p x || b && q x) false

theorem Since.check {p q : α → Prop} {p' q' : α → Bool} {l : List α} (h : Since p q l) (hp : ∀ x, p x → p' x = true)
    (hq : ∀ x, q x → q' x = true) : since p' q' l = true := by
  obtain ⟨past, x, later, rfl, hx, hl⟩ := h
  rw [since, List.foldl_append, List.foldl_cons, hp x hx, Bool.true_or]
  induction later with
  | nil => rfl
  | cons y later ih =>
    rw [List.foldl_cons, hq y (hl y List.mem_cons_self), Bool.true_and, Bool.or_true]
    exact ih fun z hz => hl z (List.mem_cons_of_mem _ hz)

theorem Since.mono {p p' q q' : α → Prop} {l : List α} (h : Since p q l) (hp : ∀ x ∈ l, p x → p' x)
    (hq : ∀ x ∈ l, q x → q' x) : Since p' q' l := by
  obtain ⟨past, x, later, rfl, h1, h2⟩ := h
  exact ⟨past, x, later, rfl, hp x (by simp) h1, fun y hy => hq y (by simp [hy]) (h2 y hy)⟩

/-- Elements satisfying the predicates occurred in the predicates' order. -/
def Happened (ps : List (α → Prop)) (l : List α) : Prop :=
  ∃ xs : List α, xs.Sublist l ∧ List.Forall₂ (fun p x => p x) ps xs

theorem Happened.nil {l : List α} : Happened [] l := ⟨[], List.nil_sublist l, List.Forall₂.nil⟩

theorem Happened.step {ps : List (α → Prop)} {l : List α} (y : α) (h : Happened ps l) : Happened ps (l ++ [y]) := by
  obtain ⟨xs, hs, hf⟩ := h
  exact ⟨xs, hs.trans (List.sublist_append_left l [y]), hf⟩

theorem Happened.snoc {ps : List (α → Prop)} {l : List α} {p : α → Prop} {y : α} (h : Happened ps l) (hy : p y) :
    Happened (ps ++ [p]) (l ++ [y]) := by
  obtain ⟨xs, hs, hf⟩ := h
  exact ⟨xs ++ [y], hs.append (List.Sublist.refl [y]), List.rel_append hf (List.Forall₂.cons hy List.Forall₂.nil)⟩

theorem Happened.mono {ps qs : List (α → Prop)} {l : List α} (h : Happened ps l)
    (hq : List.Forall₂ (fun p q => ∀ x ∈ l, p x → q x) ps qs) : Happened qs l := by
  obtain ⟨xs, hs, hf⟩ := h
  refine ⟨xs, hs, ?_⟩
  have hl : ∀ x ∈ xs, x ∈ l := fun x hx => hs.subset hx
  clear hs
  induction hf generalizing qs with
  | nil =>
    cases hq
    exact List.Forall₂.nil
  | cons hx _ ih =>
    cases hq with
    | cons hpq hq => exact List.Forall₂.cons (hpq _ (hl _ (by simp)) hx) (ih hq fun x hx => hl x (by simp [hx]))

theorem Happened.before {ps qs : List (α → Prop)} {l : List α} (h : Happened (ps ++ qs) l) : Happened ps l := by
  obtain ⟨xs, hs, hf⟩ := h
  have ht := List.forall₂_take ps.length hf
  rw [List.take_left] at ht
  exact ⟨xs.take ps.length, (List.take_sublist _ _).trans hs, ht⟩

theorem Happened.of_snoc {ps : List (α → Prop)} {p : α → Prop} {l : List α} {y : α}
    (h : Happened (ps ++ [p]) (l ++ [y])) : Happened (ps ++ [p]) l ∨ p y ∧ Happened ps l := by
  obtain ⟨xs, hs, hf⟩ := h
  obtain ⟨as, bs, rfl, has, hbs⟩ := List.sublist_append_iff.1 hs
  rcases List.sublist_singleton.1 hbs with rfl | rfl
  · rw [List.append_nil] at hf
    exact .inl ⟨as, has, hf⟩
  · have hlen : ps.length = as.length := by simpa using hf.length_eq
    have hinit := List.forall₂_take ps.length hf
    have hlast := List.forall₂_drop ps.length hf
    rw [List.take_left, hlen, List.take_left] at hinit
    rw [List.drop_left, hlen, List.drop_left] at hlast
    cases hlast with
    | cons hp _ => exact .inr ⟨hp, as, has, hinit⟩

theorem Happened.exists_of_mem {ps : List (α → Prop)} {p : α → Prop} {l : List α} (h : Happened ps l) (hp : p ∈ ps) :
    ∃ x ∈ l, p x := by
  obtain ⟨xs, hs, hf⟩ := h
  induction hf generalizing l with
  | nil => cases hp
  | cons hx _ ih =>
    rcases List.mem_cons.1 hp with rfl | hp
    · exact ⟨_, hs.subset List.mem_cons_self, hx⟩
    · exact ih hp ((List.sublist_cons_self _ _).trans hs)

end Past

end Yuzora
