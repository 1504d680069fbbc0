import Yuzora.Connector
import Yuzora.Trace
/-!
# ConnectorLines — what a connector reads

A call that gives up may leave the beginning of its line in the pipe, and the pipe in its place.  While the pipe takes
nothing more from there on, all it took are whole lines and at most the beginning of one (`Clean`).
-/
namespace Yuzora
namespace Connector

open List
open Function (update)

/-! ## What is to hold -/

def Call.Half (call : Call) : Prop := 0 < call.sent ∧ call.sent < call.line.length

def Phase.GaveUp : Phase → Prop
  | stalled | abandoning | returned _ => True
  | _ => False

/-- The pipe got whole lines in the order in which their calls had the input, and after a beginning nothing; a call
succeeds exactly with its whole line. -/
structure Clean (s : State) : Prop where
  pipe : s.pipe = s.turns.flatMap (fun c => (s.calls c).line.take (s.calls c).sent) ++
    connectorReleaseLine.take s.farewell
  turns : s.turns.Nodup
  alone : s.turns.Pairwise fun c d => 0 < (s.calls d).sent → ¬ (s.calls c).Half
  last : 0 < s.farewell → ∀ c ∈ s.turns, ¬ (s.calls c).Half
  answered : ∀ c r, (s.calls c).phase = .returned r → (r = .ok () ↔ 0 < (s.calls c).sent ∧ (s.calls c).rest = 0)

def Action.NoProgress : Action → Prop
  | write _ (.refused _) | stall _ => True
  | _ => False

variable (platform : Platform)

variable (s : State)

/-- A release that is not over can go on at once: its next step is possible, or the pipe refuses its release line. -/
def Moves (r : Releaser) : Prop :=
  s.releases r = .idle ∨ s.releases r = .finished ∨ (∃ t, advance platform r s = some t) ∨
    (s.releases r = .saying ∧ ∃ t, farewell (.refused true) s = some t)

def ReaderMoves : Prop := s.reader = .closing → ∃ t, readerTakes s = some t

def Action.Accepts : Action → Prop
  | write _ (.wrote n) | farewell (.wrote n) => 0 < n
  | _ => False

/-- A call has given up in the middle of its line, or with its thread still at it. -/
def Stuck : Prop :=
  ∃ c, (s.calls c).phase.GaveUp ∧ ((s.calls c).Half ∨ ∃ r, s.stdin = .thread c r)

/-- **What the pipe and the schedule must do**: a pipe that is stuck takes nothing more, no whole line is given up, and a
write is not refused while the reader waits for the input. -/
structure Steady (x : Transition State Action) : Prop where
  stuck : x.label.Accepts → ¬ Stuck x.src
  whole : ∀ c, x.label = .stall c → 0 < (x.src.calls c).rest
  reader : x.label.NoProgress → ReaderMoves x.src

/-! ## The control -/

def Phase.Holds : Phase → Prop
  | holding | writing => True
  | _ => False

def Phase.Early : Phase → Prop
  | idle | found | queued => True
  | _ => False

def Release.Locks : Release → Prop
  | locked | taken => True
  | _ => False

/-- One call beside the lock, the pipe's end and the turns. -/
structure CallOk (platform : Platform) (lock : Option Owner) (stdin : Holder) (turns : List Nat) (c : Nat) (call : Call) :
    Prop where
  bound : call.sent ≤ call.line.length
  line : call.phase = .queued ∨ call.phase.Holds → 0 < call.line.length
  early : call.phase.Early ∨ call.phase = .holding → call.sent = 0
  turn : call.phase.Early → c ∉ turns
  sent : 0 < call.sent → c ∈ turns
  lock : lock = some (.call c) ↔ call.phase.Holds
  newest : call.phase.Holds → turns.getLast? = some c
  unix : platform = .unix → call.phase = .writing → stdin = .slot
  windows : platform = .windows → call.phase = .writing → ∃ r, stdin = .thread c r
  thread : ∀ r, stdin = .thread c r →
    platform = .windows ∧ 0 < call.line.length ∧ (call.phase = .writing ∨ call.phase.GaveUp)
  result : ∀ r, stdin = .thread c (some r) → (r = .ok () ↔ 0 < call.sent ∧ call.rest = 0)
  stalled : call.phase = .stalled ∨ call.phase = .abandoning → 0 < call.rest
  answered : ∀ r, call.phase = .returned r → (r = .ok () ↔ 0 < call.sent ∧ call.rest = 0)

/-- The control of the input, apart from what is in the pipe. -/
structure Control (platform : Platform) (s : State) : Prop where
  call : ∀ c, CallOk platform s.lock s.stdin s.turns c (s.calls c)
  release : ∀ r, (s.releases r).Locks → s.lock = some (.release r)
  farewell : 0 < s.farewell → s.stdin = .goodbye ∨ s.stdin = .dropped

section Control

variable {platform : Platform} {s t : State} {lock lock' : Option Owner} {stdin stdin' : Holder} {turns turns' : List Nat}
  {c d : Nat} {call : Call} {phase : Phase} {answer : Answer} {r : Releaser} {e : SendError}

theorem control_start : Control platform .start where
  call c := by constructor <;> simp [State.start, Phase.Holds, Phase.Early]
  release _ h := h.elim
  farewell h := by cases h

theorem CallOk.other (h : CallOk platform lock stdin turns d call) (hh : ¬ call.phase.Holds)
    (hl : lock' ≠ some (.call d)) (hs : stdin' = stdin ∨ ∀ r, stdin' ≠ .thread d r) (ht : d ∈ turns' ↔ d ∈ turns) :
    CallOk platform lock' stdin' turns' d call where
  bound := h.bound
  line := h.line
  early := h.early
  turn he hm := h.turn he (ht.1 hm)
  sent hs := ht.2 (h.sent hs)
  lock := ⟨fun he => absurd he hl, fun he => absurd he hh⟩
  newest he := absurd he hh
  unix _ hw := absurd (hw ▸ trivial) hh
  windows _ hw := absurd (hw ▸ trivial) hh
  thread r hr := by
    rcases hs with rfl | hs
    · exact h.thread r hr
    · exact absurd hr (hs r)
  result r hr := by
    rcases hs with rfl | hs
    · exact h.result r hr
    · exact absurd hr (hs _)
  stalled := h.stalled
  answered := h.answered

/-- What a step of one call does to the control: it speaks of that call, and of the others where something moves. -/
theorem Control.set (h : Control platform s) (ht : t.calls = update s.calls c call) (hf : t.farewell = s.farewell)
    (hown : CallOk platform t.lock t.stdin t.turns c call)
    (hother : ∀ d, d ≠ c → CallOk platform t.lock t.stdin t.turns d (s.calls d))
    (hr : ∀ r, (t.releases r).Locks → t.lock = some (.release r))
    (hgone : 0 < s.farewell → t.stdin = .goodbye ∨ t.stdin = .dropped) : Control platform t where
  call d := by
    rw [ht]
    by_cases hd : d = c
    · subst hd
      rw [Function.update_self]
      exact hown
    · rw [Function.update_of_ne hd]
      exact hother d hd
  release := hr
  farewell hpos := hgone (hf ▸ hpos)

theorem Control.not_holds (h : Control platform s) (hl : s.lock ≠ some (.call c)) : ¬ (s.calls c).phase.Holds :=
  fun hh => hl ((h.call c).lock.2 hh)

theorem Control.goto (h : Control platform s)
    (hown : CallOk platform s.lock s.stdin s.turns c { s.calls c with phase := phase }) :
    Control platform (s.goto c phase) :=
  h.set rfl rfl hown (fun d _ => h.call d) h.release h.farewell

theorem Control.leave (h : Control platform s) (stdin' : Holder) (hh : (s.calls c).phase.Holds)
    (hs : stdin' = s.stdin ∨ ∀ d r, d ≠ c → stdin' ≠ .thread d r)
    (hown : CallOk platform none stdin' s.turns c { s.calls c with phase := phase })
    (hgone : 0 < s.farewell → stdin' = .goodbye ∨ stdin' = .dropped) :
    Control platform { s.leave c phase with stdin := stdin' } := by
  have hl := (h.call c).lock.2 hh
  refine h.set rfl rfl hown (fun d hd => ?_) (fun r hr => ?_) hgone
  rotate_left
  · have := h.release r hr
    rw [hl] at this
    cases this
  have hn : ¬ (s.calls d).phase.Holds := h.not_holds (by simp [hl, Ne.symm hd])
  exact (h.call d).other hn (by simp [State.leave]) (hs.imp id fun h r => h d r hd) Iff.rfl

/-! ### One call -/

/-- A call that has not had the input. -/
structure Fresh (lock : Option Owner) (stdin : Holder) (turns : List Nat) (c : Nat) (call : Call) : Prop where
  sent : call.sent = 0
  turn : c ∉ turns
  lock : lock ≠ some (.call c)
  stdin : ∀ r, stdin ≠ .thread c r

theorem CallOk.fresh (h : CallOk platform lock stdin turns c call) (he : call.phase.Early) :
    Fresh lock stdin turns c call where
  sent := h.early (.inl he)
  turn := h.turn he
  lock hl := by
    have := h.lock.1 hl
    cases hp : call.phase <;> simp [hp, Phase.Early, Phase.Holds] at he this
  stdin r hr := by
    have := (h.thread r hr).2.2
    cases hp : call.phase <;> simp [hp, Phase.Early, Phase.GaveUp] at he this

theorem Fresh.early (h : Fresh lock stdin turns c call) (phase : Phase) (he : phase.Early)
    (hq : phase = .queued → 0 < call.line.length) : CallOk platform lock stdin turns c { call with phase := phase } := by
  obtain ⟨h1, h2, h3, h4⟩ := h
  constructor <;> simp only
  all_goals first | omega | (cases phase <;> simp_all [Phase.Early, Phase.Holds, Phase.GaveUp])

theorem Fresh.failed (h : Fresh lock stdin turns c call) :
    CallOk platform lock stdin turns c { call with phase := .returned (.error e) } := by
  obtain ⟨h1, h2, h3, h4⟩ := h
  constructor <;> simp [Phase.Early, Phase.Holds, Phase.GaveUp, h1, h3, h4]

/-! ### The steps -/

theorem Control.called (h : Control platform s) (ht : Connector.call c s = some t) : Control platform t := by
  unfold Connector.call at ht
  split at ht
  · rename_i hp
    have hf := (h.call c).fresh (hp ▸ trivial)
    split at ht <;> cases ht
    · exact h.goto (hf.early .found trivial nofun)
    · exact h.goto hf.failed
  · cases ht

theorem Control.checked {json : Except String (List Byte)} (h : Control platform s) (ht : check c json s = some t) :
    Control platform t := by
  unfold check at ht
  split at ht
  · rename_i hp
    have hf := (h.call c).fresh (hp ▸ trivial)
    split at ht
    · cases ht
      exact h.goto hf.failed
    · split at ht <;> cases ht
      · exact h.goto hf.failed
      · rename_i json
        have hf' : Fresh s.lock s.stdin s.turns c ⟨json ++ [10], 0, .queued⟩ := ⟨rfl, hf.turn, hf.lock, hf.stdin⟩
        exact h.set rfl rfl (hf'.early .queued trivial fun _ => by simp) (fun d _ => h.call d) h.release
          h.farewell
  · cases ht

theorem Control.busy (h : Control platform s) (ht : Connector.busy c s = some t) : Control platform t := by
  unfold Connector.busy at ht
  split at ht
  · rename_i hp _
    cases ht
    exact h.goto ((h.call c).fresh (hp ▸ trivial)).failed
  · cases ht

theorem Control.locks (h : Control platform s) (ht : Connector.lock c s = some t) : Control platform t := by
  unfold Connector.lock at ht
  split at ht
  · rename_i hp hl
    cases ht
    have hc := h.call c
    have hf := hc.fresh (hp ▸ trivial)
    have hline := hc.line (.inl hp)
    refine h.set rfl rfl ?_ (fun d hd => ?_) (fun r hr => ?_) h.farewell
    · constructor <;> simp [Phase.Early, Phase.Holds, hf.sent, hf.stdin, hline]
    · have hn : ¬ (s.calls d).phase.Holds := h.not_holds (by simp [hl])
      exact (h.call d).other hn (by simp [Ne.symm hd]) (.inl rfl) (by simp [hd])
    · have := h.release r hr
      rw [hl] at this
      cases this
  · cases ht

theorem CallOk.moved (h : CallOk platform lock stdin turns d call) (hw : call.phase ≠ .writing)
    (hs : ∀ r, stdin' ≠ .thread d r) : CallOk platform lock stdin' turns d call where
  bound := h.bound
  line := h.line
  early := h.early
  turn := h.turn
  sent := h.sent
  lock := h.lock
  newest := h.newest
  unix _ hp := absurd hp hw
  windows _ hp := absurd hp hw
  thread r hr := absurd hr (hs r)
  result r hr := absurd hr (hs _)
  stalled := h.stalled
  answered := h.answered

theorem CallOk.left (h : CallOk platform lock stdin turns c call) (hh : call.phase.Holds)
    (hp : phase.GaveUp) (hs : ∀ r, stdin' = .thread c r → platform = .windows ∧ stdin = stdin')
    (hst : phase = .stalled ∨ phase = .abandoning → 0 < call.rest)
    (hans : ∀ r, phase = .returned r → (r = .ok () ↔ 0 < call.sent ∧ call.rest = 0)) :
    CallOk platform none stdin' turns c { call with phase := phase } where
  bound := h.bound
  line hq := by cases phase <;> simp [Phase.GaveUp, Phase.Holds] at hp hq
  early hq := by cases phase <;> simp [Phase.GaveUp, Phase.Early] at hp hq
  turn hq := by cases phase <;> simp [Phase.GaveUp, Phase.Early] at hp hq
  sent := h.sent
  lock := by cases phase <;> simp [Phase.GaveUp, Phase.Holds] at hp ⊢
  newest hq := by cases phase <;> simp [Phase.GaveUp, Phase.Holds] at hp hq
  unix _ hq := by cases phase <;> simp [Phase.GaveUp] at hp hq
  windows _ hq := by cases phase <;> simp [Phase.GaveUp] at hp hq
  thread r hr := ⟨(hs r hr).1, h.line (.inr hh), .inr hp⟩
  result r hr := h.result r ((hs _ hr).2.trans hr)
  stalled := hst
  answered := hans

theorem Control.fails (h : Control platform s) (hh : (s.calls c).phase.Holds)
    (hrest : ¬ (0 < (s.calls c).sent ∧ (s.calls c).rest = 0)) (hs : ∀ r, s.stdin ≠ .thread c r) :
    Control platform (s.fails c e) :=
  h.leave s.stdin hh (.inl rfl)
    ((h.call c).left hh trivial (fun r hr => absurd hr (hs r)) (by simp) (by simpa using hrest)) h.farewell

theorem Control.begun {failure : Option String} (h : Control platform s)
    (ht : Connector.begin platform c failure s = some t) : Control platform t := by
  have hc := h.call c
  have hholds (hp : (s.calls c).phase = .holding) : (s.calls c).phase.Holds := hp ▸ trivial
  have hsent (hp : (s.calls c).phase = .holding) : (s.calls c).sent = 0 := hc.early (.inr hp)
  have hthread (hp : (s.calls c).phase = .holding) (r) : s.stdin ≠ .thread c r := fun hr => by
    have := (hc.thread r hr).2.2
    simp [hp, Phase.GaveUp] at this
  have hrest (hp : (s.calls c).phase = .holding) : ¬ (0 < (s.calls c).sent ∧ (s.calls c).rest = 0) := by
    simp [hsent hp]
  have hfare (hst : s.stdin = .slot) : ¬ 0 < s.farewell := fun hpos => by
    have := h.farewell hpos
    simp [hst] at this
  unfold Connector.begin at ht
  split at ht
  · rename_i hp hst
    cases ht
    refine h.goto ?_
    have hl := hc.lock.2 (hholds hp)
    have hn := hc.newest (hholds hp)
    have hline := hc.line (.inr (hholds hp))
    constructor <;> simp [Phase.Early, Phase.Holds, hsent hp, hst, hl, hn, hline]
  · rename_i hp hst
    cases ht
    exact h.fails (hholds hp) (hrest hp) (hthread hp)
  · rename_i hp hst
    cases ht
    have hl := hc.lock.2 (hholds hp)
    have hn := hc.newest (hholds hp)
    have hline := hc.line (.inr (hholds hp))
    refine h.set rfl rfl ?_ (fun d hd => ?_) h.release (fun hpos => absurd hpos (hfare hst))
    · constructor <;> simp [Phase.Early, Phase.Holds, hsent hp, hl, hn, hline]
    · have hnh : ¬ (s.calls d).phase.Holds := h.not_holds (by simp [hl, Ne.symm hd])
      exact (h.call d).other hnh (by simp [hl, Ne.symm hd]) (.inr (by simp [Ne.symm hd])) Iff.rfl
  · rename_i hp hst
    cases ht
    exact h.leave .dropped (hholds hp) (.inr (by simp)) (hc.left (hholds hp) trivial (by simp) (by simp) (by simpa using hrest hp))
      fun _ => .inr rfl
  · rename_i hp _ _ _ _
    cases ht
    exact h.fails (hholds hp) (hrest hp) (hthread hp)
  · cases ht

theorem Control.accepted {n : Nat} (h : Control platform s) (hw : (s.calls c).phase = .writing)
    (hle : n ≤ (s.calls c).rest) (hs : ∀ r, s.stdin ≠ .thread c (some r)) : Control platform (s.accept c n) := by
  have hc := h.call c
  have hh : (s.calls c).phase.Holds := hw ▸ trivial
  have hb := hc.bound
  rw [Call.rest] at hle
  refine h.set rfl rfl ?_ (fun d _ => h.call d) h.release h.farewell
  exact {
    bound := by simp only; omega
    line := hc.line
    early := fun he => by simp [hw, Phase.Early] at he
    turn := fun he => by simp [hw, Phase.Early] at he
    sent := fun _ => mem_of_getLast? (hc.newest hh)
    lock := hc.lock
    newest := hc.newest
    unix := hc.unix
    windows := hc.windows
    thread := hc.thread
    result := fun r hr => absurd hr (hs r)
    stalled := fun he => by simp [hw] at he
    answered := fun r hr => by simp [hw] at hr }

theorem Control.wroteUnix (h : Control .unix s) (ht : writeUnix c answer s = some t) : Control .unix t := by
  have hc := h.call c
  have hthread (r) : s.stdin ≠ .thread c r := fun hr => by
    have := (hc.thread r hr).1
    cases this
  unfold writeUnix at ht
  split at ht
  · rename_i hw
    have hh : (s.calls c).phase.Holds := hw ▸ trivial
    split at ht
    · rename_i hpos
      have hrest : ¬ (0 < (s.calls c).sent ∧ (s.calls c).rest = 0) := by omega
      split at ht
      · split at ht
        · cases ht
          exact h.fails hh hrest hthread
        · split at ht <;> cases ht
          rename_i hle
          exact h.accepted hw hle fun r => hthread _
      · cases ht
        exact h
      · split at ht
        · cases ht
          exact h.fails hh hrest hthread
        · split at ht <;> cases ht
          · exact h.leave s.stdin hh (.inl rfl) (hc.left hh trivial (fun r hr => absurd hr (hthread r)) (fun _ => hpos) (by simp))
              h.farewell
          · exact h
      · cases ht
        exact h.fails hh hrest hthread
    · cases ht
  · cases ht

theorem Control.threaded {result : Except String Unit} (h : Control platform s) (hs : s.stdin = .thread c none)
    (hr : result = .ok () ↔ 0 < (s.calls c).sent ∧ (s.calls c).rest = 0) :
    Control platform { s with stdin := .thread c (some result) } := by
  have hc := h.call c
  have hw := hc.thread none hs
  refine ⟨fun d => ?_, h.release, fun hpos => ?_⟩
  · by_cases hd : d = c
    · subst hd
      exact { hc with
        unix := fun hu => by rw [hw.1] at hu; cases hu
        windows := fun _ _ => ⟨_, rfl⟩
        thread := fun _ _ => hw
        result := fun r hr' => by cases hr'; exact hr }
    · have hdc := h.call d
      refine hdc.moved (fun hp => ?_) (by simp [Ne.symm hd])
      obtain ⟨r, hr⟩ := hdc.windows hw.1 hp
      rw [hs] at hr
      cases hr
      exact hd rfl
  · have := h.farewell hpos
    simp [hs] at this

theorem Control.wroteThread (h : Control .windows s) (ht : writeThread c answer s = some t)
    (hok : (∃ n, answer = .wrote n ∧ 0 < n) → ¬ Stuck s) : Control .windows t := by
  unfold writeThread at ht
  split at ht
  · rename_i owner hs
    split at ht
    · rename_i ho
      obtain ⟨rfl, hpos⟩ := ho
      have hrest : ¬ (0 < (s.calls owner).sent ∧ (s.calls owner).rest = 0) := by omega
      split at ht
      · rename_i n
        split at ht
        · cases ht
          exact h.threaded hs (by simpa using hrest)
        · rename_i hn
          split at ht <;> cases ht
          rename_i hle
          have hgave := ((h.call owner).thread none hs).2.2
          have hw : (s.calls owner).phase = .writing := hgave.resolve_right fun hg =>
            hok ⟨n, rfl, by omega⟩ ⟨owner, hg, .inr ⟨none, hs⟩⟩
          exact h.accepted hw hle fun r hr => by
            rw [hs] at hr
            cases hr
      · cases ht
        exact h
      · cases ht
        exact h
      · cases ht
        exact h.threaded hs (by simpa using hrest)
    · cases ht
  · cases ht

theorem Control.wrote (h : Control platform s) (ht : write platform c answer s = some t)
    (hok : (∃ n, answer = .wrote n ∧ 0 < n) → ¬ Stuck s) : Control platform t := by
  cases platform with
  | unix => exact h.wroteUnix ht
  | windows => exact h.wroteThread ht hok

theorem Control.completed (h : Control platform s) (ht : complete platform c s = some t) : Control platform t := by
  have hc := h.call c
  have hb := hc.bound
  unfold complete at ht
  split at ht
  · rename_i hw
    split at ht <;> cases ht
    rename_i hrest
    have hh : (s.calls c).phase.Holds := hw ▸ trivial
    have hline := hc.line (.inr hh)
    have hpos : 0 < (s.calls c).sent := by
      rw [Call.rest] at hrest
      omega
    refine h.leave s.stdin hh (.inl rfl) (hc.left hh trivial (fun r hr => ?_) (by simp) (by simp [hpos, hrest])) h.farewell
    have := (hc.thread r hr).1
    cases this
  · rename_i owner hs
    split at ht <;> cases ht
    rename_i ho
    obtain ⟨rfl, hrest⟩ := ho
    have hline := (hc.thread none hs).2.1
    have hpos : 0 < (s.calls owner).sent := by
      rw [Call.rest] at hrest
      omega
    exact h.threaded hs (by simp [hpos, hrest])
  · cases ht

theorem Control.collected (h : Control platform s) (ht : collect c s = some t) : Control platform t := by
  have hc := h.call c
  unfold collect at ht
  split at ht
  · rename_i owner result hw hs
    split at ht <;> cases ht
    rename_i ho
    subst ho
    have hh : (s.calls owner).phase.Holds := hw ▸ trivial
    have hres := hc.result result hs
    refine h.leave .slot hh (.inr (by simp)) (hc.left hh trivial (by simp) (by simp) fun r hr => ?_) fun hpos => ?_
    · cases hr
      rw [← hres]
      cases result <;> simp [Except.mapError]
    · have := h.farewell hpos
      simp [hs] at this
  · cases ht

theorem Control.stalls (h : Control platform s) (ht : stall c s = some t) (hpos : 0 < (s.calls c).rest) :
    Control platform t := by
  have hc := h.call c
  unfold stall at ht
  split at ht
  · rename_i hw hs
    cases ht
    have hh : (s.calls c).phase.Holds := hw ▸ trivial
    exact h.leave s.stdin hh (.inl rfl) (hc.left hh trivial (fun r hr => ⟨(hc.thread r hr).1, rfl⟩) (fun _ => hpos) (by simp))
      h.farewell
  · cases ht

theorem Control.threadEnded (h : Control platform s) (ht : threadEnds c s = some t) : Control platform t := by
  unfold threadEnds at ht
  split at ht
  · cases ht
  · rename_i owner result hs hw
    split at ht <;> cases ht
    rename_i ho
    subst ho
    have hwin := ((h.call owner).thread _ hs).1
    refine ⟨fun d => (h.call d).moved (fun hp => ?_) (by simp), h.release, fun _ => .inr rfl⟩
    obtain ⟨r, hr⟩ := (h.call d).windows hwin hp
    rw [hs] at hr
    cases hr
    exact hw hp
  · cases ht

theorem Phase.GaveUp.not_early (h : phase.GaveUp) : ¬ phase.Early ∧ ¬ phase.Holds := by
  cases phase <;> simp [Phase.GaveUp, Phase.Early, Phase.Holds] at h ⊢

theorem CallOk.gone (h : CallOk platform lock stdin turns c call) (hg : call.phase.GaveUp)
    (hp : phase.GaveUp) (hst : phase = .stalled ∨ phase = .abandoning → 0 < call.rest)
    (hans : ∀ r, phase = .returned r → (r = .ok () ↔ 0 < call.sent ∧ call.rest = 0)) :
    CallOk platform lock stdin turns c { call with phase := phase } where
  bound := h.bound
  line hq := by cases phase <;> simp [Phase.GaveUp, Phase.Holds] at hp hq
  early hq := by cases phase <;> simp [Phase.GaveUp, Phase.Early] at hp hq
  turn hq := absurd hq hp.not_early.1
  sent := h.sent
  lock := ⟨fun hl => absurd (h.lock.1 hl) hg.not_early.2, fun hl => absurd hl hp.not_early.2⟩
  newest hq := absurd hq hp.not_early.2
  unix _ hq := by cases phase <;> simp [Phase.GaveUp] at hp hq
  windows _ hq := by cases phase <;> simp [Phase.GaveUp] at hp hq
  thread r hr := ⟨(h.thread r hr).1, (h.thread r hr).2.1, .inr hp⟩
  result := h.result
  stalled := hst
  answered := hans

theorem Control.setRelease {phase : Release} {inMap closed released : Bool} (h : Control platform s)
    (hr : ¬ (s.releases r).Locks) (hp : ¬ phase.Locks) :
    Control platform { s.setRelease r phase with inMap := inMap, closed := closed, released := released } where
  call := h.call
  release r' hl := by
    simp only [State.setRelease] at hl ⊢
    by_cases hrr : r' = r
    · subst hrr
      rw [Function.update_self] at hl
      exact absurd hl hp
    · rw [Function.update_of_ne hrr] at hl
      exact h.release r' hl
  farewell := h.farewell

theorem Control.abandons (h : Control platform s) (ht : abandon c s = some t) : Control platform t := by
  have hc := h.call c
  unfold abandon at ht
  split at ht
  · rename_i hp
    cases ht
    have hrest := hc.stalled (.inl hp)
    have h1 : Control platform (s.goto c .abandoning) :=
      h.goto (hc.gone (hp ▸ trivial) trivial (fun _ => hrest) (by simp))
    by_cases hl : (s.releases (.abandon c)).Locks
    · refine ⟨h1.call, fun r hr => ?_, h1.farewell⟩
      by_cases hrr : r = .abandon c
      · subst hrr
        exact h.release _ hl
      · simp only [State.setRelease, Function.update_of_ne hrr] at hr
        exact h.release r hr
    · exact h1.setRelease hl not_false
  · cases ht

theorem Control.finished (h : Control platform s) (ht : finish c s = some t) : Control platform t := by
  have hc := h.call c
  unfold finish at ht
  split at ht
  · rename_i hp _
    cases ht
    have hrest := hc.stalled (.inr hp)
    exact h.goto (hc.gone (hp ▸ trivial) trivial (by simp) (by simp; omega))
  · cases ht

theorem Control.releases (h : Control platform s) {n : Nat} (ht : Connector.release n s = some t) : Control platform t := by
  unfold Connector.release at ht
  split at ht
  · rename_i hr
    cases ht
    exact h.setRelease (by simp [hr, Release.Locks]) not_false
  · cases ht

theorem Control.unlocked {phase : Release} {lock : Option Owner} (h : Control platform s)
    (stdin : Holder) (hfree : ∀ c, s.lock ≠ some (.call c)) (hl : ∀ c, lock ≠ some (.call c))
    (hs : stdin = s.stdin ∨ ∀ c r, stdin ≠ .thread c r)
    (hother : ∀ r', r' ≠ r → (s.releases r').Locks → lock = some (.release r'))
    (hown : phase.Locks → lock = some (.release r)) (hgone : 0 < s.farewell → stdin = .goodbye ∨ stdin = .dropped) :
    Control platform { s.setRelease r phase with lock := lock, stdin := stdin } where
  call c := (h.call c).other (h.not_holds (hfree c)) (hl c) (hs.imp id fun hs => hs c) Iff.rfl
  release r' hr' := by
    simp only [State.setRelease] at hr' ⊢
    by_cases hrr : r' = r
    · subst hrr
      rw [Function.update_self] at hr'
      exact hown hr'
    · rw [Function.update_of_ne hrr] at hr'
      exact hother r' hrr hr'
  farewell := hgone

theorem Control.advanced (h : Control platform s) (ht : advance platform r s = some t) : Control platform t := by
  -- what the lock says while this release has it
  have hmine (hr : (s.releases r).Locks) : (∀ c, s.lock ≠ some (.call c)) ∧
      ∀ r', r' ≠ r → ¬ (s.releases r').Locks := by
    have hl := h.release r hr
    refine ⟨fun c => by simp [hl], fun r' hne hr' => ?_⟩
    have := h.release r' hr'
    rw [hl] at this
    cases this
    exact hne rfl
  unfold advance at ht
  split at ht
  · rename_i hr
    cases ht
    exact h.setRelease (by simp [hr, Release.Locks]) not_false
  · rename_i hr
    cases ht
    exact h.setRelease (by simp [hr, Release.Locks]) not_false
  · rename_i hr
    cases ht
    exact h.setRelease (by simp [hr, Release.Locks]) not_false
  · rename_i hr
    split at ht <;> cases ht
    · rename_i hl
      have hno (r') (hr' : (s.releases r').Locks) : False := by
        have := h.release r' hr'
        rw [hl] at this
        cases this
      exact h.unlocked s.stdin (by simp [hl]) (by simp) (.inl rfl) (fun r' _ hr' => (hno r' hr').elim) (fun _ => rfl) h.farewell
    · exact h.setRelease (by simp [hr, Release.Locks]) not_false
  · rename_i hr
    obtain ⟨hfree, hothers⟩ := hmine (hr ▸ trivial)
    have hl := h.release r (hr ▸ trivial)
    split at ht <;> cases ht
    · rename_i hs
      refine h.unlocked .taken hfree hfree (.inr (by simp)) (fun r' hne hr' => (hothers r' hne hr').elim)
        (fun _ => hl) (fun hpos => ?_)
      have := h.farewell hpos
      simp [hs] at this
    · exact h.unlocked s.stdin hfree (by simp) (.inl rfl) (fun r' hne hr' => (hothers r' hne hr').elim) (fun hp => hp.elim)
        h.farewell
  · rename_i hr
    obtain ⟨hfree, hothers⟩ := hmine (hr ▸ trivial)
    split at ht <;> cases ht
    · exact h.unlocked .goodbye hfree (by simp) (.inr (by simp))
        (fun r' hne hr' => (hothers r' hne hr').elim) (fun hp => hp.elim) (fun _ => .inl rfl)
    · exact h.unlocked .goodbye hfree (by simp) (.inr (by simp))
        (fun r' hne hr' => (hothers r' hne hr').elim) (fun hp => hp.elim) (fun _ => .inl rfl)
  · rename_i hr
    split at ht <;> cases ht
    exact h.setRelease (by simp [hr, Release.Locks]) not_false
  · rename_i hr
    cases ht
    exact h.setRelease (by simp [hr, Release.Locks]) not_false
  · rename_i hr
    cases ht
    exact h.setRelease (by simp [hr, Release.Locks]) not_false
  · cases ht
  · cases ht

theorem Control.gone {stdin : Holder} (h : Control platform s) (pipe : List Byte) (farewell : Nat) (reader : Reader)
    (hw : ∀ c, (s.calls c).phase ≠ .writing) (hs : stdin = .goodbye ∨ stdin = .dropped) :
    Control platform { s with pipe := pipe, farewell := farewell, reader := reader, stdin := stdin } where
  call c := (h.call c).moved (hw c) (by rcases hs with rfl | rfl <;> simp)
  release := h.release
  farewell _ := hs

theorem Control.said (h : Control platform s) (ht : Connector.farewell answer s = some t) : Control platform t := by
  unfold Connector.farewell at ht
  split at ht
  · rename_i hs
    have hw (c) : (s.calls c).phase ≠ .writing := fun hp => by
      cases platform with
      | unix => simp [(h.call c).unix rfl hp] at hs
      | windows =>
        obtain ⟨r, hr⟩ := (h.call c).windows rfl hp
        simp [hr] at hs
    split at ht
    · split at ht
      · cases ht
        exact h.gone s.pipe s.farewell s.reader hw (.inr rfl)
      · split at ht <;> cases ht
        refine h.gone _ _ s.reader hw ?_
        split
        · exact .inl rfl
        · exact .inr rfl
    · cases ht
      exact h
    · cases ht
      exact h.gone s.pipe s.farewell s.reader hw (.inr rfl)
    · cases ht
      exact h.gone s.pipe s.farewell s.reader hw (.inr rfl)
  · cases ht

theorem Control.readerEnded (h : Control platform s) (ht : readerEnds s = some t) : Control platform t := by
  unfold readerEnds at ht
  split at ht <;> cases ht
  exact ⟨h.call, h.release, h.farewell⟩

theorem Control.readerTook (h : Control platform s) (ht : readerTakes s = some t) : Control platform t := by
  unfold readerTakes at ht
  split at ht
  · rename_i hl _
    cases ht
    have hw (c) : (s.calls c).phase ≠ .writing := fun hp => by
      have := (h.call c).lock.2 (hp ▸ trivial)
      simp [hl] at this
    exact h.gone s.pipe s.farewell _ hw (.inr rfl)
  · cases ht
    exact ⟨h.call, h.release, h.farewell⟩
  · cases ht

/-- **A step keeps the control**, unless the pipe takes something although it is stuck. -/
theorem Control.step {a : Action} (h : Control platform s) (ht : next platform s a = some t)
    (hx : Steady ⟨s, a, t⟩) : Control platform t := by
  cases a with
  | call c => exact h.called ht
  | check c json => exact h.checked ht
  | lock c => exact h.locks ht
  | busy c => exact h.busy ht
  | «begin» c failure => exact h.begun ht
  | write c answer =>
    refine h.wrote ht fun ⟨n, hn, hpos⟩ => hx.stuck ?_
    subst hn
    exact hpos
  | complete c => exact h.completed ht
  | collect c => exact h.collected ht
  | stall c => exact h.stalls ht (hx.whole c rfl)
  | threadEnds c => exact h.threadEnded ht
  | abandon c => exact h.abandons ht
  | finish c => exact h.finished ht
  | terminalRelease | releaseAllConnectors => exact h.releases ht
  | advance r => exact h.advanced ht
  | farewell answer => exact h.said ht
  | readerEnds => exact h.readerEnded ht
  | readerTakes => exact h.readerTook ht

end Control

/-! ## The pipe -/

/-- What the pipe took, line by line. -/
structure Stream (s : State) : Prop where
  pipe : s.pipe = s.turns.flatMap (fun c => (s.calls c).line.take (s.calls c).sent) ++
    connectorReleaseLine.take s.farewell
  turns : s.turns.Nodup
  alone : s.turns.Pairwise fun c d => 0 < (s.calls d).sent → ¬ (s.calls c).Half
  last : 0 < s.farewell → ∀ c ∈ s.turns, ¬ (s.calls c).Half

/-- The pipe took nothing, and no line of a call that had the input changed. -/
structure SameLines (s t : State) : Prop where
  pipe : t.pipe = s.pipe
  turns : t.turns = s.turns
  farewell : t.farewell = s.farewell
  line : ∀ c ∈ s.turns, (t.calls c).line = (s.calls c).line ∧ (t.calls c).sent = (s.calls c).sent

section Stream

variable {platform : Platform} {s t : State} {c : Nat} {answer : Answer} {phase : Phase}

theorem SameLines.half (h : SameLines s t) (hc : c ∈ s.turns) : (t.calls c).Half ↔ (s.calls c).Half := by
  rw [Call.Half, Call.Half, (h.line c hc).1, (h.line c hc).2]

theorem Stream.same (h : Stream s) (hs : SameLines s t) : Stream t where
  pipe := by
    rw [hs.pipe, hs.turns, hs.farewell, h.pipe]
    congr 1
    refine flatMap_congr fun c hc => ?_
    rw [(hs.line c hc).1, (hs.line c hc).2]
  turns := hs.turns ▸ h.turns
  alone := by
    rw [hs.turns]
    refine h.alone.imp_of_mem fun hc hd hcd => ?_
    rw [hs.half hc, (hs.line _ hd).2]
    exact hcd
  last := by
    rw [hs.turns, hs.farewell]
    intro hpos c hc
    rw [hs.half hc]
    exact h.last hpos c hc

theorem same_goto : SameLines s (s.goto c phase) := by
  refine ⟨rfl, rfl, rfl, fun d _ => ?_⟩
  simp only [State.goto, State.setCall]
  by_cases hd : d = c
  · subst hd
    rw [Function.update_self]
    exact ⟨rfl, rfl⟩
  · rw [Function.update_of_ne hd]
    exact ⟨rfl, rfl⟩

theorem SameLines.frame {u : State} (h : SameLines s t) (hp : u.pipe = t.pipe) (ht : u.turns = t.turns)
    (hf : u.farewell = t.farewell) (hc : u.calls = t.calls) : SameLines s u :=
  ⟨hp.trans h.pipe, ht.trans h.turns, hf.trans h.farewell, fun c hm => hc ▸ h.line c hm⟩

theorem same_refl : SameLines s s := ⟨rfl, rfl, rfl, fun _ _ => ⟨rfl, rfl⟩⟩

theorem same_leave : SameLines s (s.leave c phase) := same_goto.frame rfl rfl rfl rfl

theorem same_check {json : Except String (List Byte)} (h : Control platform s) (ht : check c json s = some t) :
    SameLines s t := by
  unfold check at ht
  split at ht
  · rename_i hp
    split at ht
    · cases ht
      exact same_goto
    · split at ht <;> cases ht
      · exact same_goto
      · refine ⟨rfl, rfl, rfl, fun d hd => ?_⟩
        have hne : d ≠ c := fun he => (h.call c).turn (hp ▸ trivial) (he ▸ hd)
        simp only [State.setCall, Function.update_of_ne hne, and_self]
  · cases ht

theorem same_begin {failure : Option String} (ht : Connector.begin platform c failure s = some t) : SameLines s t := by
  unfold Connector.begin at ht
  split at ht <;> cases ht
  · exact same_goto
  · exact same_leave
  · exact same_goto.frame rfl rfl rfl rfl
  · exact same_leave.frame rfl rfl rfl rfl
  · exact same_leave

theorem same_write (ht : write platform c answer s = some t)
    (hn : ¬ (Action.write c answer).Accepts) : SameLines s t := by
  cases platform with
  | unix =>
    dsimp only [write] at ht
    unfold writeUnix at ht
    split at ht
    · split at ht
      · split at ht
        · rename_i n
          split at ht
          · cases ht
            exact same_leave
          · exact absurd (Nat.pos_of_ne_zero ‹_›) hn
        · cases ht
          exact same_refl
        · split at ht
          · cases ht
            exact same_leave
          · split at ht <;> cases ht
            · exact same_leave
            · exact same_refl
        · cases ht
          exact same_leave
      · cases ht
    · cases ht
  | windows =>
    dsimp only [write] at ht
    unfold writeThread at ht
    split at ht
    · split at ht
      · split at ht
        · rename_i n
          split at ht
          · cases ht
            exact same_refl.frame rfl rfl rfl rfl
          · exact absurd (Nat.pos_of_ne_zero ‹_›) hn
        · cases ht
          exact same_refl
        · cases ht
          exact same_refl
        · cases ht
          exact same_refl.frame rfl rfl rfl rfl
      · cases ht
    · cases ht

theorem same_complete (ht : complete platform c s = some t) : SameLines s t := by
  unfold complete at ht
  split at ht
  · split at ht <;> cases ht
    exact same_leave
  · split at ht <;> cases ht
    exact same_refl.frame rfl rfl rfl rfl
  · cases ht

theorem same_advance {r : Releaser} (ht : advance platform r s = some t) : SameLines s t := by
  unfold advance at ht
  split at ht
  · cases ht; exact same_refl.frame rfl rfl rfl rfl
  · cases ht; exact same_refl.frame rfl rfl rfl rfl
  · cases ht; exact same_refl.frame rfl rfl rfl rfl
  · split at ht <;> cases ht <;> exact same_refl.frame rfl rfl rfl rfl
  · split at ht <;> cases ht <;> exact same_refl.frame rfl rfl rfl rfl
  · split at ht <;> cases ht <;> exact same_refl.frame rfl rfl rfl rfl
  · split at ht <;> cases ht
    exact same_refl.frame rfl rfl rfl rfl
  · cases ht; exact same_refl.frame rfl rfl rfl rfl
  · cases ht; exact same_refl.frame rfl rfl rfl rfl
  · cases ht
  · cases ht

theorem same_farewell (ht : farewell answer s = some t) (hn : ¬ (Action.farewell answer).Accepts) : SameLines s t := by
  unfold farewell at ht
  split at ht
  · split at ht
    · rename_i n
      split at ht
      · cases ht
        exact same_refl.frame rfl rfl rfl rfl
      · exact absurd (Nat.pos_of_ne_zero ‹_›) hn
    · cases ht
      exact same_refl
    · cases ht
      exact same_refl.frame rfl rfl rfl rfl
    · cases ht
      exact same_refl.frame rfl rfl rfl rfl
  · cases ht

theorem Control.half (h : Control platform s) (hc : (s.calls c).Half) :
    (s.calls c).phase = .writing ∨ (s.calls c).phase.GaveUp := by
  have he := (h.call c).early
  have hpos := hc.1
  cases hp : (s.calls c).phase <;> simp [hp, Phase.Early, Phase.GaveUp] at he ⊢ <;> omega

theorem Stream.accepted {n : Nat} (h : Stream s) (hc : Control platform s) (hw : (s.calls c).phase = .writing)
    (hfare : s.farewell = 0) (hstuck : ¬ Stuck s) : Stream (s.accept c n) := by
  have hh : (s.calls c).phase.Holds := hw ▸ trivial
  have hl := (hc.call c).lock.2 hh
  obtain ⟨pre, hpre⟩ := getLast?_eq_some_iff.1 ((hc.call c).newest hh)
  have hnot : c ∉ pre := by
    have := h.turns
    rw [hpre, nodup_append] at this
    exact fun hm => this.2.2 c hm c (by simp) rfl
  have hne (d) (hd : d ∈ pre) : d ≠ c := fun he => hnot (he ▸ hd)
  -- only this call writes, and none has given up in the middle of its line
  have hhalf (d) (hd : d ≠ c) : ¬ (s.calls d).Half := fun hx => by
    rcases hc.half hx with hp | hp
    · have := (hc.call d).lock.2 (hp ▸ trivial)
      rw [hl] at this
      cases this
      exact hd rfl
    · exact hstuck ⟨d, hp, .inl hx⟩
  have hcalls (d) (hd : d ≠ c) : (s.accept c n).calls d = s.calls d := Function.update_of_ne hd _ _
  have hself : (s.accept c n).calls c = { s.calls c with sent := (s.calls c).sent + n } := Function.update_self _ _ _
  have hturns : (s.accept c n).turns = pre ++ [c] := hpre
  refine ⟨?_, h.turns, ?_, fun hpos => ?_⟩
  · have hold : pre.flatMap (fun d => ((s.accept c n).calls d).line.take ((s.accept c n).calls d).sent) =
        pre.flatMap fun d => (s.calls d).line.take (s.calls d).sent :=
      flatMap_congr fun d hd => by rw [hcalls d (hne d hd)]
    have hpipe := h.pipe
    rw [hpre, hfare, take_zero, append_nil, flatMap_append] at hpipe
    rw [hturns, flatMap_append, hold]
    simp only [flatMap_singleton, hself, take_add] at hpipe ⊢
    simp only [State.accept, hpipe, State.setCall, hfare, take_zero, append_nil, append_assoc]
  · have halone := h.alone
    rw [hpre] at halone
    rw [hturns, pairwise_append] at *
    refine ⟨halone.1.imp_of_mem fun hd he hde => ?_, pairwise_singleton _ _, fun d hd e he hpos => ?_⟩
    · rw [hcalls _ (hne _ hd), hcalls _ (hne _ he)]
      exact hde
    · rw [hcalls d (hne d hd)]
      exact hhalf d (hne d hd)
  · exact absurd hpos (by simp [State.accept, State.setCall, hfare])

theorem Stream.said {n : Nat} (h : Stream s) (hc : Control platform s) (ht : farewell (.wrote n) s = some t)
    (hpos : 0 < n) (hstuck : ¬ Stuck s) : Stream t := by
  unfold farewell at ht
  split at ht
  · rename_i hs
    dsimp only at ht
    split at ht
    · omega
    · split at ht <;> cases ht
      refine ⟨?_, h.turns, h.alone, fun _ c _ hx => ?_⟩
      · simp only [h.pipe, take_add, append_assoc]
      · rcases hc.half hx with hp | hp
        · cases platform with
          | unix => simp [(hc.call c).unix rfl hp] at hs
          | windows =>
            obtain ⟨r, hr⟩ := (hc.call c).windows rfl hp
            simp [hr] at hs
        · exact hstuck ⟨c, hp, .inl hx⟩
  · cases ht

theorem Stream.locks (h : Stream s) (hc : Control platform s) (ht : lock c s = some t) : Stream t := by
  unfold lock at ht
  split at ht
  · rename_i hp _
    cases ht
    have hf := (hc.call c).fresh (hp ▸ trivial)
    have hs : Stream (s.goto c .holding) := h.same same_goto
    have hsent : ((s.goto c .holding).calls c).sent = 0 := by
      simp [State.goto, State.setCall, hf.sent]
    refine ⟨?_, ?_, ?_, fun hpos d hd => ?_⟩
    · have hpipe := hs.pipe
      dsimp only at hpipe ⊢
      rw [flatMap_append, flatMap_singleton, hsent, take_zero, append_nil]
      exact hpipe
    · have hn : c ∉ s.turns := hf.turn
      refine nodup_append.2 ⟨h.turns, by simp, fun d hd e he hde => ?_⟩
      rw [mem_singleton] at he
      exact hn (he ▸ hde ▸ hd)
    · dsimp only
      rw [pairwise_append]
      refine ⟨hs.alone, pairwise_singleton _ _, fun d _ e he hpos => ?_⟩
      rw [mem_singleton] at he
      rw [he, hsent] at hpos
      exact absurd hpos (Nat.lt_irrefl 0)
    · rcases mem_append.1 hd with hd | hd
      · exact hs.last hpos d hd
      · rw [mem_singleton] at hd
        intro hx
        have := hx.1
        rw [hd, hsent] at this
        exact Nat.lt_irrefl 0 this
  · cases ht

/-- **A step keeps the stream**, unless the pipe takes something although it is stuck. -/
theorem Stream.step {a : Action} (h : Stream s) (hc : Control platform s) (ht : next platform s a = some t)
    (hx : Steady ⟨s, a, t⟩) : Stream t := by
  cases a with
  | call c =>
    dsimp only [next] at ht
    unfold call at ht
    split at ht
    · split at ht <;> cases ht <;> exact h.same same_goto
    · cases ht
  | check c json => exact h.same (same_check hc ht)
  | lock c => exact h.locks hc ht
  | busy c =>
    dsimp only [next] at ht
    unfold busy at ht
    split at ht <;> cases ht
    exact h.same same_goto
  | «begin» c failure => exact h.same (same_begin ht)
  | write c answer =>
    by_cases hacc : (Action.write c answer).Accepts
    · have hstuck := hx.stuck hacc
      cases answer with
      | wrote n =>
        have hpos : 0 < n := hacc
        cases platform with
        | unix =>
          dsimp only [next, write] at ht
          unfold writeUnix at ht
          split at ht
          · rename_i hw
            split at ht
            · dsimp only at ht
              split at ht
              · omega
              · split at ht <;> cases ht
                refine h.accepted hc hw (Nat.eq_zero_of_not_pos fun hf => ?_) hstuck
                have := hc.farewell hf
                simp [(hc.call c).unix rfl hw] at this
            · cases ht
          · cases ht
        | windows =>
          dsimp only [next, write] at ht
          unfold writeThread at ht
          split at ht
          · rename_i owner hs
            split at ht
            · rename_i ho
              obtain ⟨rfl, -⟩ := ho
              dsimp only at ht
              split at ht
              · omega
              · split at ht <;> cases ht
                have hw := ((hc.call owner).thread none hs).2.2.resolve_right fun hg =>
                  hstuck ⟨owner, hg, .inr ⟨none, hs⟩⟩
                refine h.accepted hc hw (Nat.eq_zero_of_not_pos fun hf => ?_) hstuck
                have := hc.farewell hf
                simp [hs] at this
            · cases ht
          · cases ht
      | interrupted | refused | failed => exact hacc.elim
    · exact h.same (same_write ht hacc)
  | complete c => exact h.same (same_complete ht)
  | collect c =>
    dsimp only [next] at ht
    unfold collect at ht
    split at ht
    · split at ht <;> cases ht
      exact h.same (same_leave.frame rfl rfl rfl rfl)
    · cases ht
  | stall c =>
    dsimp only [next] at ht
    unfold stall at ht
    split at ht <;> cases ht
    exact h.same same_leave
  | threadEnds c =>
    dsimp only [next] at ht
    unfold threadEnds at ht
    split at ht
    · cases ht
    · split at ht <;> cases ht
      exact h.same (same_refl.frame rfl rfl rfl rfl)
    · cases ht
  | abandon c =>
    dsimp only [next] at ht
    unfold abandon at ht
    split at ht <;> cases ht
    exact h.same (same_goto.frame rfl rfl rfl rfl)
  | finish c =>
    dsimp only [next] at ht
    unfold finish at ht
    split at ht <;> cases ht
    exact h.same same_goto
  | terminalRelease n | releaseAllConnectors n =>
    dsimp only [next] at ht
    unfold release at ht
    split at ht <;> cases ht
    exact h.same (same_refl.frame rfl rfl rfl rfl)
  | advance r => exact h.same (same_advance ht)
  | farewell answer =>
    by_cases hacc : (Action.farewell answer).Accepts
    · cases answer with
      | wrote n => exact h.said hc ht hacc (hx.stuck hacc)
      | interrupted | refused | failed => exact hacc.elim
    · exact h.same (same_farewell ht hacc)
  | readerEnds =>
    dsimp only [next] at ht
    unfold readerEnds at ht
    split at ht <;> cases ht
    exact h.same (same_refl.frame rfl rfl rfl rfl)
  | readerTakes =>
    dsimp only [next] at ht
    unfold readerTakes at ht
    split at ht <;> cases ht
    · exact h.same (same_refl.frame rfl rfl rfl rfl)
    · exact h.same (same_refl.frame rfl rfl rfl rfl)

theorem stream_start : Stream .start where
  pipe := rfl
  turns := .nil
  alone := .nil
  last h := by cases h

end Stream

/-! ## Runs -/

/-- The runs of one connector, as the pipe and the schedule will have it. -/
abbrev Run : List (Transition State Action) → State → Prop :=
  Trace (· = .start) fun s a t => next platform s a = some t

theorem Run.kept {platform : Platform} {l : List (Transition State Action)} {s : State} (h : Run platform l s) :
    (∀ x ∈ l, Steady x) → Control platform s ∧ Stream s := by
  induction h with
  | start hs =>
    subst hs
    exact fun _ => ⟨control_start, stream_start⟩
  | @snoc l s t a _ ht ih =>
    intro hx
    obtain ⟨hc, hs⟩ := ih fun x hx' => hx x (by simp [hx'])
    have hst := hx ⟨s, a, t⟩ (by simp)
    exact ⟨hc.step ht hst, hs.step hc ht hst⟩

theorem moves (r : Releaser) : Moves platform s r := by
  unfold Moves advance
  cases hr : s.releases r with
  | idle => exact .inl rfl
  | finished => exact .inr (.inl rfl)
  | settled first =>
    cases first with
    | false => exact .inr (.inr (.inl ⟨_, rfl⟩))
    | true => cases s.lock <;> exact .inr (.inr (.inl ⟨_, rfl⟩))
  | locked => cases s.stdin <;> exact .inr (.inr (.inl ⟨_, rfl⟩))
  | taken => cases platform <;> exact .inr (.inr (.inl ⟨_, rfl⟩))
  | saying =>
    cases hs : s.stdin with
    | goodbye => exact .inr (.inr (.inr ⟨rfl, by simp [farewell, hs]⟩))
    | slot | thread | taken | dropped => exact .inr (.inr (.inl ⟨_, rfl⟩))
  | begun | flagged | terminating | joining => exact .inr (.inr (.inl ⟨_, rfl⟩))

/-- What is claimed of a run: whole lines, and no release waits for a write that moves nothing. -/
structure Orderly (platform : Platform) (l : List (Transition State Action)) (s : State) : Prop where
  clean : Clean s
  patient : ∀ x ∈ l, x.label.NoProgress → (∀ r, Moves platform x.src r) ∧ ReaderMoves x.src

/-- **The pipe takes whole lines in the order of the lock and at most the beginning of one more**, calls succeed with
their whole line, and no release waits, as long as a pipe that is stuck takes nothing more. -/
theorem connector_orderly (platform : Platform) (l : List (Transition State Action)) (s : State)
    (h : Run platform l s) (hx : ∀ x ∈ l, Steady x) : Orderly platform l s := by
  obtain ⟨hc, hs⟩ := h.kept hx
  exact {
    clean := ⟨hs.pipe, hs.turns, hs.alone, hs.last, fun c => (hc.call c).answered⟩
    patient := fun x hm hn => ⟨fun r => moves platform x.src r, (hx x hm).reader hn⟩ }

namespace Sample

def served : List Action :=
  [.call 0, .check 0 (.ok [97]), .lock 0, .begin 0 none, .write 0 (.wrote 1), .write 0 (.wrote 1), .complete 0]

/-- A call writes the beginning of its line and stalls; its release then finds room in the pipe. -/
def halved : List Action :=
  [Action.call 0, .check 0 (.ok [97]), .lock 0, .begin 0 none, .write 0 (.wrote 1), .write 0 (.refused true), .abandon 0] ++
    List.replicate 5 (Action.advance (.abandon 0)) ++ [Action.farewell (.wrote 28)]

def played (acts : List Action) : Option (List (Transition State Action) × State) :=
  Trace.play (fun s a => (next .unix s a).map (Prod.mk a)) acts [] .start

theorem run_of_played (acts : List Action) {l : List (Transition State Action)} {s : State}
    (h : played acts = some (l, s)) : Run .unix l s :=
  Trace.of_played rfl h

theorem not_stuck {s : State} (h : ∀ c, c ≠ 0 → s.calls c = ⟨[], 0, .idle⟩) (hg : ¬ (s.calls 0).phase.GaveUp) :
    ¬ Stuck s := by
  rintro ⟨c, hc, -⟩
  by_cases h0 : c = 0
  · subst h0
    exact hg hc
  · rw [h c h0] at hc
    exact hc

end Sample

/-- A whole line. -/
theorem connector_orderly_served : ∃ l s, Sample.played Sample.served = some (l, s) ∧ s.pipe = [97, 10] ∧
    Orderly .unix l s := by
  refine ⟨_, _, rfl, rfl, connector_orderly .unix _ _ (Sample.run_of_played Sample.served rfl) fun x hx => ?_⟩
  simp only [nil_append, cons_append, mem_cons, not_mem_nil, or_false] at hx
  rcases hx with rfl | rfl | rfl | rfl | rfl | rfl | rfl
  all_goals refine ⟨fun ha => ?_, fun c hc => ?_, fun hn => ?_⟩
  all_goals first | exact ha.elim | exact hn.elim | cases hc | skip
  all_goals
    refine Sample.not_stuck (fun c hc => ?_) not_false
    simp [State.accept, State.goto, State.setCall, State.start, hc]

/-- **A pipe that has room again gets the release line right after the beginning of another.** -/
theorem connector_half : ¬ ∀ platform l s, Run platform l s → Orderly platform l s := by
  intro h
  have hr : ∃ l s, Sample.played Sample.halved = some (l, s) ∧ 0 < s.farewell ∧ s.turns = [0] ∧
      (s.calls 0).sent = 1 ∧ (s.calls 0).line.length = 2 := ⟨_, _, rfl, by decide, rfl, rfl, rfl⟩
  obtain ⟨l, s, hp, hf, ht, h1, h2⟩ := hr
  refine (h .unix l s (Sample.run_of_played _ hp)).clean.last hf 0 (by simp [ht]) ⟨by omega, by omega⟩

end Connector
end Yuzora
