import Yuzora.NativeClients
/-!
# NativeClientsSteps — what one thread does, and what the others may rely on

A child is reaped and signalled under its lock alone, so what a thread found out under it stays so (`Guarantee`,
`Local`).
-/
namespace Yuzora
namespace NativeClients

open Table

variable {s t u : State} {th : Thread}

/-! ## Clients -/

def Reaped (s : State) (c : Nat) : Prop := ∃ client, s.clients.get c = some client ∧ client.reaped = true

def Exited (s : State) (c : Nat) : Prop :=
  Reaped s c ∨ ∃ client owner, s.clients.get c = some client ∧ s.processes.get client.pid = some ⟨owner, false⟩

def Signalled (s : State) (c : Nat) : Prop := ∃ pid target, .signal c pid target ∈ s.log

/-- **The child was signalled, or it exited.** -/
def Attended (s : State) (c : Nat) : Prop := Signalled s c ∨ Exited s c

def Holds (s : State) (th : Thread) (c : Nat) : Prop :=
  ∃ client, s.clients.get c = some client ∧ client.childLock = some th

def HoldsInput (s : State) (th : Thread) (c : Nat) : Prop :=
  ∃ client, s.clients.get c = some client ∧ client.inputLock = some th

/-- **A child that was not reaped has its pid.** -/
structure Records (s : State) : Prop where
  known : ∀ c client, s.clients.get c = some client → c < s.nextSessionId
  process : ∀ c client, s.clients.get c = some client → client.reaped = false →
    1 < client.pid ∧ ∃ running, s.processes.get client.pid = some ⟨some c, running⟩

/-- What becomes of a client while a thread is at work: what the locks of others guard stays. -/
structure Keeps (th : Thread) (a b : NativeHerdrClient) : Prop where
  pid : b.pid = a.pid
  reaped : a.reaped = true → b.reaped = true
  released : a.released = true → b.released = true
  child : ∀ k, k ≠ th → (b.childLock = some k ↔ a.childLock = some k) ∧ (a.childLock = some k → b.reaped = a.reaped)
  input : ∀ k, k ≠ th → (b.inputLock = some k ↔ a.inputLock = some k) ∧ (a.inputLock = some k → b.input = a.input)

theorem Keeps.refl (a : NativeHerdrClient) : Keeps th a a :=
  ⟨rfl, id, id, fun _ _ => ⟨Iff.rfl, fun _ => rfl⟩, fun _ _ => ⟨Iff.rfl, fun _ => rfl⟩⟩

theorem Keeps.trans {a b c : NativeHerdrClient} (h : Keeps th a b) (h' : Keeps th b c) : Keeps th a c where
  pid := h'.pid.trans h.pid
  reaped hr := h'.reaped (h.reaped hr)
  released hr := h'.released (h.released hr)
  child k hk := by
    obtain ⟨hlock, hreaped⟩ := h.child k hk
    obtain ⟨hlock', hreaped'⟩ := h'.child k hk
    exact ⟨hlock'.trans hlock, fun ha => (hreaped' (hlock.2 ha)).trans (hreaped ha)⟩
  input k hk := by
    obtain ⟨hlock, hinput⟩ := h.input k hk
    obtain ⟨hlock', hinput'⟩ := h'.input k hk
    exact ⟨hlock'.trans hlock, fun ha => (hinput' (hlock.2 ha)).trans (hinput ha)⟩

/-- **What a thread guarantees to the others.** -/
structure Guarantee (th : Thread) (s t : State) : Prop where
  records : Records t
  clients : ∀ c client, s.clients.get c = some client → ∃ client', t.clients.get c = some client' ∧ Keeps th client client'
  /-- A new client is nobody's yet. -/
  fresh : ∀ c client, t.clients.get c = some client → s.clients.get c = none →
    ∀ k, k ≠ th → client.childLock ≠ some k ∧ client.inputLock ≠ some k
  exited : ∀ c, Exited s c → Exited t c
  log : ∃ extra, t.log = s.log ++ extra
  nextSessionId : s.nextSessionId ≤ t.nextSessionId

theorem Guarantee.refl (h : Records s) : Guarantee th s s where
  records := h
  clients c client hc := ⟨client, hc, .refl client⟩
  fresh c client hc hn := by
    rw [hn] at hc
    cases hc
  exited c h := h
  log := ⟨[], (List.append_nil _).symm⟩
  nextSessionId := Nat.le_refl _

theorem Guarantee.trans (h : Guarantee th s t) (h' : Guarantee th t u) : Guarantee th s u where
  records := h'.records
  clients c client hc := by
    obtain ⟨mid, hmid, hkeeps⟩ := h.clients c client hc
    obtain ⟨last, hlast, hkeeps'⟩ := h'.clients c mid hmid
    exact ⟨last, hlast, hkeeps.trans hkeeps'⟩
  fresh c client hc hn := by
    cases hmid : t.clients.get c with
    | none => exact h'.fresh c client hc hmid
    | some mid =>
      obtain ⟨last, hlast, hkeeps⟩ := h'.clients c mid hmid
      cases hlast.symm.trans hc
      intro k hk
      obtain ⟨hchild, hinput⟩ := h.fresh c mid hmid hn k hk
      exact ⟨fun hlock => hchild ((hkeeps.child k hk).1.1 hlock), fun hlock => hinput ((hkeeps.input k hk).1.1 hlock)⟩
  exited c hc := h'.exited c (h.exited c hc)
  log := by
    obtain ⟨extra, hlog⟩ := h.log
    obtain ⟨extra', hlog'⟩ := h'.log
    exact ⟨extra ++ extra', by rw [hlog', hlog, List.append_assoc]⟩
  nextSessionId := Nat.le_trans h.nextSessionId h'.nextSessionId

section
variable (h : Records s)
include h

/-! ### What the parts of a step guarantee -/

theorem guarantee_same (hclients : t.clients = s.clients) (hprocesses : t.processes = s.processes)
    (hnext : t.nextSessionId = s.nextSessionId) (hlog : ∃ extra, t.log = s.log ++ extra) : Guarantee th s t where
  records := by
    refine ⟨fun c client hc => ?_, fun c client hc hr => ?_⟩
    · rw [hclients] at hc
      rw [hnext]
      exact h.known c client hc
    · rw [hclients] at hc
      rw [hprocesses]
      exact h.process c client hc hr
  clients c client hc := ⟨client, hclients ▸ hc, .refl client⟩
  fresh c client hc hn := by
    rw [hclients, hn] at hc
    cases hc
  exited c hc := by
    simp only [Exited, Reaped, hclients, hprocesses] at hc ⊢
    exact hc
  log := hlog
  nextSessionId := Nat.le_of_eq hnext.symm

theorem guarantee_go (k : Thread) (task : Task) : Guarantee th s (s.go k task) :=
  guarantee_same h rfl rfl rfl ⟨[], (List.append_nil _).symm⟩

theorem guarantee_note (event : Event) : Guarantee th s (s.note event) :=
  guarantee_same h rfl rfl rfl ⟨[event], rfl⟩

theorem guarantee_put {c : Nat} {client client' : NativeHerdrClient} (hc : s.clients.get c = some client)
    (hkeeps : Keeps th client client') (hreaped : client'.reaped = client.reaped) : Guarantee th s (s.put c client') where
  records := by
    refine ⟨fun k other hk => ?_, fun k other hk hr => ?_⟩
    · simp only [State.put, get_insert] at hk
      split at hk
      · rename_i heq
        exact heq ▸ h.known c client hc
      · exact h.known k other hk
    · simp only [State.put, get_insert] at hk
      split at hk
      · rename_i heq
        cases hk
        rw [hkeeps.pid, heq]
        exact h.process c client hc (hreaped ▸ hr)
      · exact h.process k other hk hr
  clients k other hk := by
    by_cases heq : k = c
    · subst heq
      cases hc.symm.trans hk
      exact ⟨client', by simp [State.put], hkeeps⟩
    · exact ⟨other, by simpa [State.put, get_insert, heq] using hk, .refl other⟩
  fresh k other hk hn := by
    by_cases heq : k = c
    · subst heq
      rw [hn] at hc
      cases hc
    · simp only [State.put, get_insert, if_neg heq, hn] at hk
      cases hk
  exited k hk := by
    rcases hk with ⟨other, hget, hr⟩ | ⟨other, owner, hget, hprocess⟩
    · by_cases heq : k = c
      · subst heq
        cases hc.symm.trans hget
        exact .inl ⟨client', by simp [State.put], hreaped.trans hr⟩
      · exact .inl ⟨other, by simpa [State.put, get_insert, heq] using hget, hr⟩
    · by_cases heq : k = c
      · subst heq
        cases hc.symm.trans hget
        exact .inr ⟨client', owner, by simp [State.put], hkeeps.pid ▸ hprocess⟩
      · exact .inr ⟨other, owner, by simpa [State.put, get_insert, heq] using hget, hprocess⟩
  log := ⟨[], (List.append_nil _).symm⟩
  nextSessionId := Nat.le_refl _

/-- **A look at a child** whose lock is the thread's, or free: it runs, or it is reaped now. -/
theorem guarantee_tryWait {c : Nat} {client : NativeHerdrClient} (hc : s.clients.get c = some client)
    (hlock : ∀ k, k ≠ th → client.childLock ≠ some k) :
    (client.reaped = false ∧ s.tryWait c client = (false, s)) ∨
      ∃ v client', s.tryWait c client = (true, v) ∧ Guarantee th s v ∧ v.clients.get c = some client' ∧
        client' = { client with reaped := true } ∧ (∀ k, k ≠ c → v.clients.get k = s.clients.get k) ∧
        v.log = s.log ∧ v.nativeClients = s.nativeClients ∧ v.threads = s.threads := by
  unfold State.tryWait
  cases hr : client.reaped with
  | true =>
    refine .inr ⟨s, client, rfl, .refl h, hc, ?_, fun _ _ => rfl, rfl, rfl, rfl⟩
    rw [← hr]
  | false =>
    obtain ⟨hpid, running, hprocess⟩ := h.process c client hc hr
    simp only [Bool.false_eq_true, if_false, hprocess]
    cases running with
    | true => exact .inl ⟨trivial, rfl⟩
    | false =>
      -- The pid is this child's alone.
      have hown : ∀ k other, s.clients.get k = some other → other.reaped = false → other.pid = client.pid → k = c := by
        intro k other hk hother heq
        obtain ⟨-, running, hrunning⟩ := h.process k other hk hother
        rw [heq, hprocess] at hrunning
        exact (Option.some.inj (congrArg Process.client (Option.some.inj hrunning))).symm
      refine .inr ⟨_, _, rfl, ⟨⟨fun k other hk => ?_, fun k other hk hother => ?_⟩, fun k other hk => ?_,
        fun k other hk hn => ?_, fun k hk => ?_, ⟨[], (List.append_nil _).symm⟩, Nat.le_refl _⟩, get_insert_self ..,
        rfl, fun k hk => ?_, rfl, rfl, rfl⟩
      · simp only [get_insert] at hk
        split at hk
        · rename_i heq
          exact heq ▸ h.known c client hc
        · exact h.known k other hk
      · simp only [get_insert] at hk
        split at hk
        · cases hk
          cases hother
        · rename_i hne
          obtain ⟨hpid', running, hrunning⟩ := h.process k other hk hother
          refine ⟨hpid', running, ?_⟩
          simp only [get_erase]
          rw [if_neg fun heq => hne (hown k other hk hother heq)]
          exact hrunning
      · by_cases heq : k = c
        · subst heq
          cases hc.symm.trans hk
          refine ⟨_, get_insert_self .., rfl, fun _ => rfl, id, fun k hk => ⟨Iff.rfl, fun hl => ?_⟩,
            fun k hk => ⟨Iff.rfl, fun _ => rfl⟩⟩
          exact absurd hl (hlock k hk)
        · exact ⟨other, by simpa [get_insert, heq] using hk, .refl other⟩
      · by_cases heq : k = c
        · subst heq
          rw [hn] at hc
          cases hc
        · simp only [get_insert, if_neg heq, hn] at hk
          cases hk
      · by_cases heq : k = c
        · exact .inl ⟨{ client with reaped := true }, by simp [heq], rfl⟩
        · rcases hk with ⟨other, hget, hother⟩ | ⟨other, owner, hget, hexited⟩
          · exact .inl ⟨other, by simpa [get_insert, heq] using hget, hother⟩
          · cases hother : other.reaped with
            | true => exact .inl ⟨other, by simpa [get_insert, heq] using hget, hother⟩
            | false =>
              refine .inr ⟨other, owner, by simpa [get_insert, heq] using hget, ?_⟩
              simp only [get_erase]
              rw [if_neg fun hpid => heq (hown k other hget hother hpid)]
              exact hexited
      · simp only [get_insert, if_neg hk]

end

end NativeClients
end Yuzora
