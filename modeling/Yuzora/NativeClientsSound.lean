import Yuzora.NativeClientsAdvance
/-!
# NativeClientsSound — what holds in every state

Each invariant is about one thing a release can do wrong, and each is kept by a turn and by a step of the processes.
-/
namespace Yuzora
namespace NativeClients

open List

variable {decode : String → Option Nat} {s t : State} {action : Action} {th k : Thread} {task task' : Task} {c : Nat}

/-- Where a thread stands: one that was not started has returned, as it were. -/
def State.doing (s : State) (th : Thread) : Task := (s.threads.get th).getD (.returned none)

theorem State.doing_of_get (h : s.threads.get th = some task) : s.doing th = task := by
  simp [State.doing, h]

theorem State.doing_of_none (h : s.threads.get th = none) : s.doing th = .returned none := by
  simp [State.doing, h]

theorem State.get_of_doing (h : s.doing th = task) (hne : ∀ error, task ≠ .returned error) : s.threads.get th = some task := by
  cases hget : s.threads.get th with
  | none => exact absurd (h.symm.trans (State.doing_of_none hget)) (hne none)
  | some other => rw [← h, State.doing_of_get hget]

/-! ## Steps -/

/-- What a step is: the turn of a thread, or something about processes. -/
inductive Step (s : State) (action : Action) (t : State) : Prop
  | turn (th : Thread) (task' : Task)
      (hfrom : (∃ task, s.threads.get th = some task ∧ (∀ error, task ≠ .returned error) ∧ ∃ choice, action = .step th choice) ∨
        ∃ n, th = .caller n ∧ s.threads.get th = none)
      (hturn : Turn s t th (s.doing th) task')
  | aside (hguarantee : ∀ th, Guarantee th s t) (hclients : t.clients = s.clients) (hthreads : t.threads = s.threads)
      (hnative : t.nativeClients = s.nativeClients) (hnext : t.nextSessionId = s.nextSessionId) (hlog : t.log = s.log)

theorem guarantee_processes (h : Records s) (hclients : t.clients = s.clients) (hnext : t.nextSessionId = s.nextSessionId)
    (hlog : t.log = s.log)
    (hown : ∀ pid c running, s.processes.get pid = some ⟨some c, running⟩ →
      ∃ running', t.processes.get pid = some ⟨some c, running'⟩ ∧ (running = false → running' = false)) : Guarantee th s t where
  records := by
    refine ⟨fun c client hc => ?_, fun c client hc hr => ?_⟩
    · rw [hclients] at hc
      rw [hnext]
      exact h.known c client hc
    · rw [hclients] at hc
      obtain ⟨hpid, running, hp⟩ := h.process c client hc hr
      obtain ⟨running', hp', -⟩ := hown _ c running hp
      exact ⟨hpid, running', hp'⟩
  clients c client hc := ⟨client, hclients ▸ hc, .refl client⟩
  fresh c client hc hn := by
    rw [hclients, hn] at hc
    cases hc
  exited c hc := by
    rcases hc with ⟨client, hc, hr⟩ | ⟨client, owner, hc, hp⟩
    · exact .inl ⟨client, hclients ▸ hc, hr⟩
    · cases hr : client.reaped with
      | true => exact .inl ⟨client, hclients ▸ hc, hr⟩
      | false =>
        obtain ⟨-, running, hp'⟩ := h.process c client hc hr
        obtain ⟨running', ht, hdown⟩ := hown _ c running hp'
        have hrun : running = false := congrArg Process.running (Option.some.inj (hp'.symm.trans hp))
        exact .inr ⟨client, some c, hclients ▸ hc, by rw [ht, hdown hrun]⟩
  log := ⟨[], by rw [hlog, append_nil]⟩
  nextSessionId := Nat.le_of_eq hnext.symm

/-- **Every action is a step.** -/
theorem step_of_next (hrec : Records s) (hknows : ∀ th, Local s th (s.doing th))
    (h : next decode s action = some t) : Step s action t := by
  have hcall : ∀ n, action.caller = some n → Step s action t := by
    intro n hn
    have hnone := State.doing_of_none (free_of_call hn h)
    obtain ⟨task', hturn⟩ := turn_call hrec (hnone ▸ hknows (.caller n)) hn h
    exact .turn (.caller n) task' (.inr ⟨n, rfl, free_of_call hn h⟩) (hnone.symm ▸ hturn)
  cases action with
  | exit pid =>
    simp only [next] at h
    split at h
    · rename_i process hget
      cases h
      refine .aside (fun th => guarantee_processes hrec rfl rfl rfl fun p c running hp => ?_) rfl rfl rfl rfl rfl
      by_cases hpp : p = pid
      · subst hpp
        cases hget.symm.trans hp
        exact ⟨false, by simp, fun _ => rfl⟩
      · exact ⟨running, by simpa [Table.get_insert, hpp] using hp, fun hr => hr⟩
    · cases h
  | foreign pid =>
    simp only [next] at h
    split at h
    · cases h
    · rename_i hfree
      cases h
      refine .aside (fun th => guarantee_processes hrec rfl rfl rfl fun p c running hp => ?_) rfl rfl rfl rfl rfl
      have hpp : p ≠ pid := by
        rintro rfl
        exact hfree (Table.contains_eq_true.2 ⟨_, hp⟩)
      exact ⟨running, by simpa [Table.get_insert, hpp] using hp, fun hr => hr⟩
  | gone pid =>
    simp only [next] at h
    split at h
    · rename_i running hget
      cases h
      refine .aside (fun th => guarantee_processes hrec rfl rfl rfl fun p c running hp => ?_) rfl rfl rfl rfl rfl
      have hpp : p ≠ pid := by
        rintro rfl
        cases hget.symm.trans hp
      exact ⟨running, by simpa [Table.get_erase, hpp] using hp, fun hr => hr⟩
    · cases h
  | step th choice =>
    simp only [next] at h
    split at h
    · rename_i task hget
      have hdoing := State.doing_of_get hget
      obtain ⟨task', hturn⟩ := turn_advance hrec (hdoing ▸ hknows th) hget h
      refine .turn th task' (.inl ⟨task, hget, ?_, choice, rfl⟩) (hdoing.symm ▸ hturn)
      rintro error rfl
      cases h
    · cases h
  | «open» n | input n | resize n | release n | releaseAll n => exact hcall n rfl

namespace Turn
variable (h : Turn s t th task task')
include h

theorem doing_self : t.doing th = task' := State.doing_of_get h.own

theorem doing_other (hk : k ≠ th) :
    t.doing k = s.doing k ∨ ∃ c, k = .reader c ∧ s.doing k = .returned none ∧ t.doing k = .looping c := by
  rcases h.others k hk with hsame | ⟨c, hreader, hnone, hget⟩
  · exact .inl (by simp [State.doing, hsame])
  · exact .inr ⟨c, hreader, State.doing_of_none hnone, State.doing_of_get hget⟩

theorem doing_other_eq (hk : k ≠ th) (hnot : ∀ c, t.doing k ≠ .looping c) : t.doing k = s.doing k := by
  rcases h.doing_other hk with hsame | ⟨c, -, -, hlooping⟩
  · exact hsame
  · exact absurd hlooping (hnot c)

theorem doing_kept (hk : k ≠ th) (hnot : s.doing k ≠ .returned none) : t.doing k = s.doing k := by
  rcases h.doing_other hk with hsame | ⟨c, -, hnone, -⟩
  · exact hsame
  · exact absurd hnone hnot

end Turn

/-! ## Records, locks and readers -/

structure Base (s : State) : Prop where
  records : Records s
  knows : ∀ th, Local s th (s.doing th)
  /-- A reader's tasks are its own. -/
  own : ∀ th c, (s.doing th).reader = some c → th = .reader c
  reader : ∀ c task, s.threads.get (.reader c) = some task → task.reader = some c ∨ task = .returned none

theorem base_step (h : Base s) (hstep : Step s action t) : Base t := by
  cases hstep with
  | aside hguarantee hclients hthreads hnative hnext hlog =>
    have hdoing : ∀ th, t.doing th = s.doing th := fun th => by simp [State.doing, hthreads]
    refine ⟨(hguarantee (.caller 0)).records, fun th => ?_, fun th c hr => h.own th c (hdoing th ▸ hr),
      fun c task hget => h.reader c task (hthreads ▸ hget)⟩
    obtain ⟨k, hk⟩ : ∃ k, th ≠ k := by
      by_cases heq : th = .caller 0
      · exact ⟨.caller 1, by simp [heq]⟩
      · exact ⟨.caller 0, heq⟩
    rw [hdoing th]
    exact (h.knows th).stable (hguarantee k) hk
  | turn th task' hfrom hturn =>
    refine ⟨hturn.guarantee.records, fun k => ?_, fun k c hr => ?_, fun c task hget => ?_⟩
    · by_cases hk : k = th
      · subst hk
        rw [hturn.doing_self]
        exact hturn.knows
      · have hstable := (h.knows k).stable hturn.guarantee hk
        rcases hturn.doing_other hk with hsame | ⟨c, -, hnone, hlooping⟩
        · exact hsame ▸ hstable
        · rw [hlooping]
          rw [hnone] at hstable
          exact hstable.same rfl rfl rfl (by simp) (by simp) (by simp) (by simp)
    · by_cases hk : k = th
      · subst hk
        rw [hturn.doing_self] at hr
        exact h.own k c (hturn.reads c hr)
      · rcases hturn.doing_other hk with hsame | ⟨j, hreader, -, hlooping⟩
        · exact h.own k c (hsame ▸ hr)
        · rw [hlooping] at hr
          rw [hreader, Option.some.inj hr]
    · by_cases hk : Thread.reader c = th
      · subst hk
        cases hturn.own.symm.trans hget
        rcases hfrom with ⟨before, hbefore, hnot, -⟩ | ⟨n, hn, -⟩
        · rw [State.doing_of_get hbefore] at hturn
          rcases h.reader c before hbefore with hr | rfl
          · exact hturn.reader c hr
          · exact absurd rfl (hnot none)
        · cases hn
      · rcases hturn.others _ hk with hsame | ⟨j, hreader, -, hlooping⟩
        · exact h.reader c task (hsame ▸ hget)
        · cases hlooping.symm.trans hget
          obtain rfl := Thread.reader.inj hreader
          exact .inl rfl

/-! ## The map -/

structure Mapped (s : State) : Prop where
  few : s.nativeClients.length ≤ MAX_NATIVE_CLIENTS
  known : ∀ c ∈ s.nativeClients, c < s.nextSessionId
  knownLeft : ∀ c, .left c ∈ s.log → c < s.nextSessionId
  out : ∀ c, .left c ∈ s.log → c ∉ s.nativeClients
  /-- A client is entered once. -/
  fresh : ∀ th c limitError, s.doing th = .registering c limitError →
    c < s.nextSessionId ∧ c ∉ s.nativeClients ∧ .left c ∉ s.log
  only : ∀ th k c e e', s.doing th = .registering c e → s.doing k = .registering c e' → th = k

variable {events : List Event}

theorem aside_of_told (h : Told s t task task' events) {event : Event} (he : event ∈ events)
    (hpassed : ∀ c, event ≠ .passed c) (hclosed : ∀ c, event ≠ .closed c) : Aside s t task task' event := by
  cases h with
  | passed j => exact absurd (mem_singleton.1 he) (hpassed j)
  | closed j => exact absurd (mem_singleton.1 he) (hclosed j)
  | aside hfrom hto hall => exact hall _ he

theorem mem_of_told_left (h : Told s t task task' events) (hc : .left c ∈ events) :
    c ∈ s.nativeClients ∧ ((task'.owes c ∧ task'.works c) ∨ (Attended t c ∧ (Reaped t c ∨ Expired t c))) :=
  aside_of_told h hc (by simp) (by simp)

theorem mapped_step (h : Mapped s) (hstep : Step s action t) : Mapped t := by
  cases hstep with
  | aside hguarantee hclients hthreads hnative hnext hlog =>
    have hdoing : ∀ th, t.doing th = s.doing th := fun th => by simp [State.doing, hthreads]
    refine ⟨?_, ?_, ?_, ?_, ?_, ?_⟩
    · rw [hnative]
      exact h.few
    · rw [hnative, hnext]
      exact h.known
    · rw [hlog, hnext]
      exact h.knownLeft
    · rw [hlog, hnative]
      exact h.out
    · simp only [hdoing, hnative, hnext, hlog]
      exact h.fresh
    · simp only [hdoing]
      exact h.only
  | turn th task' hfrom hturn =>
    obtain ⟨events, hlog, htold, hmaps⟩ := hturn.logs
    have hle := hturn.guarantee.nextSessionId
    -- Who enters a client had it before, or made it just now.
    have hentering : ∀ k c e, t.doing k = .registering c e →
        (k ≠ th ∧ s.doing k = .registering c e) ∨ (k = th ∧ s.nextSessionId = c ∧ t.nextSessionId = c + 1 ∧
          task' = .registering c e) := by
      intro k c e hk
      by_cases heq : k = th
      · subst heq
        rw [hturn.doing_self] at hk
        exact .inr ⟨rfl, (hturn.registers c e hk).1, (hturn.registers c e hk).2, hk⟩
      · exact .inl ⟨heq, (hturn.doing_other_eq heq (by simp [hk])) ▸ hk⟩
    have hmem : ∀ c ∈ t.nativeClients, c ∈ s.nativeClients ∨ ∃ e, s.doing th = .registering c e := by
      intro c hc
      cases hmaps with
      | fewer hmem hlength => exact .inl (hmem c hc).1
      | more j e hfrom hto hlength hmap hevents =>
        rw [hmap, mem_cons] at hc
        rcases hc with rfl | hc
        · exact .inr ⟨e, hfrom⟩
        · exact .inl hc
    have hleft : ∀ c, .left c ∈ t.log → .left c ∈ s.log ∨ (.left c ∈ events ∧ c ∈ s.nativeClients) := by
      intro c hc
      rw [hlog, mem_append] at hc
      exact hc.imp_right fun he => ⟨he, (mem_of_told_left htold he).1⟩
    refine ⟨?_, fun c hc => ?_, fun c hc => ?_, fun c hc hmemt => ?_, fun k c e hk => ?_, fun k j c e e' hk hj => ?_⟩
    · cases hmaps with
      | fewer hmem hlength => exact Nat.le_trans hlength h.few
      | more c e hfrom hto hlength hmap hevents =>
        rw [hmap]
        exact hlength
    · rcases hmem c hc with hs | ⟨e, he⟩
      · exact Nat.lt_of_lt_of_le (h.known c hs) hle
      · exact Nat.lt_of_lt_of_le (h.fresh th c e he).1 hle
    · rcases hleft c hc with hs | ⟨-, hs⟩
      · exact Nat.lt_of_lt_of_le (h.knownLeft c hs) hle
      · exact Nat.lt_of_lt_of_le (h.known c hs) hle
    · rw [hlog, mem_append] at hc
      cases hmaps with
      | fewer hmem hlength =>
        rcases hc with hc | hc
        · exact h.out c hc (hmem c hmemt).1
        · exact (hmem c hmemt).2 hc
      | more j e hfrom hto hlength hmap hevents =>
        have hc : .left c ∈ s.log := by simpa [hevents] using hc
        rw [hmap, mem_cons] at hmemt
        rcases hmemt with rfl | hmemt
        · exact (h.fresh th c e hfrom).2.2 hc
        · exact h.out c hc hmemt
    · rcases hentering k c e hk with ⟨hne, hs⟩ | ⟨rfl, hnext, hnext', rfl⟩
      · obtain ⟨hlt, hnot, hnotLeft⟩ := h.fresh k c e hs
        refine ⟨Nat.lt_of_lt_of_le hlt hle, fun hc => ?_, fun hc => ?_⟩
        · rcases hmem c hc with hin | ⟨e', he'⟩
          · exact hnot hin
          · exact hne (h.only k th c e e' hs he')
        · rcases hleft c hc with hin | ⟨-, hin⟩
          · exact hnotLeft hin
          · exact hnot hin
      · refine ⟨by omega, fun hc => ?_, fun hc => ?_⟩
        · cases hmaps with
          | fewer hmem hlength =>
            have := h.known c (hmem c hc).1
            omega
          | more j e' hfrom hto => cases hto
        · rcases hleft c hc with hin | ⟨-, hin⟩
          · have := h.knownLeft c hin
            omega
          · have := h.known c hin
            omega
    · rcases hentering k c e hk with ⟨hne, hs⟩ | ⟨rfl, hnext, -, -⟩
      · rcases hentering j c e' hj with ⟨-, hs'⟩ | ⟨rfl, hnext, -, -⟩
        · exact h.only k j c e e' hs hs'
        · have := (h.fresh k c e hs).1
          omega
      · rcases hentering j c e' hj with ⟨-, hs'⟩ | ⟨rfl, -, -, -⟩
        · have := (h.fresh j c e' hs').1
          omega
        · rfl

/-! ## Signals, and who was left behind -/

/-- **A signal went to the child of this client, that was not reaped.** -/
def Aimed (s : State) : Prop :=
  ∀ c pid target, .signal c pid target ∈ s.log →
    ∃ client running, s.clients.get c = some client ∧ pid = client.pid ∧ target = some ⟨some c, running⟩

theorem aimed_guarantee (h : Guarantee th s t) {c pid : Nat} {target : Option Process}
    (hs : ∃ client running, s.clients.get c = some client ∧ pid = client.pid ∧ target = some ⟨some c, running⟩) :
    ∃ client running, t.clients.get c = some client ∧ pid = client.pid ∧ target = some ⟨some c, running⟩ := by
  obtain ⟨client, running, hc, hpid, htarget⟩ := hs
  obtain ⟨client', hc', hkeeps⟩ := h.clients c client hc
  exact ⟨client', running, hc', hpid.trans hkeeps.pid.symm, htarget⟩

theorem aimed_step (h : Aimed s) (hstep : Step s action t) : Aimed t := by
  intro c pid target hmem
  cases hstep with
  | aside hguarantee hclients hthreads hnative hnext hlog =>
    exact aimed_guarantee (hguarantee (.caller 0)) (h c pid target (hlog ▸ hmem))
  | turn th task' hfrom hturn =>
    obtain ⟨events, hlog, htold, -⟩ := hturn.logs
    rw [hlog, mem_append] at hmem
    rcases hmem with hmem | hmem
    · exact aimed_guarantee hturn.guarantee (h c pid target hmem)
    · exact aimed_guarantee hturn.guarantee (aside_of_told htold hmem (by simp) (by simp))

/-- **Who left the map was looked after, or somebody is about to.** -/
structure Left (s : State) : Prop where
  attended : ∀ c, .left c ∈ s.log → Attended s c ∨ ∃ th, (s.doing th).owes c
  reaped : ∀ c, .left c ∈ s.log → Reaped s c ∨ Expired s c ∨ ∃ th, (s.doing th).works c

theorem left_step (hbase : Base s) (h : Left s) (hstep : Step s action t) : Left t := by
  cases hstep with
  | aside hguarantee hclients hthreads hnative hnext hlog =>
    have hdoing : ∀ th, t.doing th = s.doing th := fun th => by simp [State.doing, hthreads]
    have hg := hguarantee (.caller 0)
    refine ⟨fun c hc => ?_, fun c hc => ?_⟩
    · simp only [hdoing]
      exact (h.attended c (hlog ▸ hc)).imp_left hg.attended
    · simp only [hdoing]
      exact (h.reaped c (hlog ▸ hc)).imp hg.reaped (Or.imp_left hg.expired)
  | turn th task' hfrom hturn =>
    obtain ⟨events, hlog, htold, -⟩ := hturn.logs
    have hg := hturn.guarantee
    have hself := hturn.doing_self
    have howes : ∀ c, Attended s c ∨ (∃ k, (s.doing k).owes c) → Attended t c ∨ ∃ k, (t.doing k).owes c := by
      rintro c (ha | ⟨k, hk⟩)
      · exact .inl (hg.attended ha)
      · have hmoved : ∀ j, j ≠ th → (s.doing j).owes c → Attended t c ∨ ∃ k, (t.doing k).owes c := by
          intro j hj ho
          have hnot : s.doing j ≠ .returned none := by
            intro hr
            rw [hr] at ho
            cases ho
          exact .inr ⟨j, (hturn.doing_kept hj hnot).symm ▸ ho⟩
        by_cases heq : k = th
        · subst heq
          rcases hturn.owes c hk with ho | ha | ⟨j, hj, hholds⟩
          · exact .inr ⟨k, hself.symm ▸ ho⟩
          · exact .inl ha
          · -- The lock was held by another, who signals the child, or did.
            rcases Task.owes_or_past_of_lock (((hbase.knows j).lock c).1 hholds) with ho | hp
            · exact hmoved j hj ho
            · exact .inl (hg.attended ((hbase.knows j).past c hp))
        · exact hmoved k heq hk
    have hworks : ∀ c, Reaped s c ∨ Expired s c ∨ (∃ k, (s.doing k).works c) →
        Reaped t c ∨ Expired t c ∨ ∃ k, (t.doing k).works c := by
      rintro c (hr | he | ⟨k, hk⟩)
      · exact .inl (hg.reaped hr)
      · exact .inr (.inl (hg.expired he))
      · by_cases heq : k = th
        · subst heq
          rcases hturn.works c hk with hw | hr | he
          · exact .inr (.inr ⟨k, hself.symm ▸ hw⟩)
          · exact .inl hr
          · exact .inr (.inl he)
        · have hnot : s.doing k ≠ .returned none := by
            intro hr
            rw [hr] at hk
            cases hk
          exact .inr (.inr ⟨k, (hturn.doing_kept heq hnot).symm ▸ hk⟩)
    refine ⟨fun c hc => ?_, fun c hc => ?_⟩
    · rw [hlog, mem_append] at hc
      rcases hc with hc | hc
      · exact howes c (h.attended c hc)
      · rcases (mem_of_told_left htold hc).2 with ⟨ho, -⟩ | ⟨ha, -⟩
        · exact .inr ⟨th, hself.symm ▸ ho⟩
        · exact .inl ha
    · rw [hlog, mem_append] at hc
      rcases hc with hc | hc
      · exact hworks c (h.reaped c hc)
      · rcases (mem_of_told_left htold hc).2 with ⟨-, hw⟩ | ⟨-, hr | he⟩
        · exact .inr (.inr ⟨th, hself.symm ▸ hw⟩)
        · exact .inl hr
        · exact .inr (.inl he)

/-! ## Writers -/

/-- **A client whose writer stalled is not written to again.** -/
structure Quenched (s : State) : Prop where
  stalled : ∀ c, .stalled c ∈ s.log →
    s.clients.get c ≠ none ∧ ¬HasInput s c ∧ ∀ th, (s.doing th).inputLock ≠ some c
  order : ∀ c earlier later, s.log = earlier ++ Event.stalled c :: later → .wrote c ∉ later

theorem split_append {α : Type} {a : α} {l events earlier later : List α} (h : l ++ events = earlier ++ a :: later) :
    (∃ rest, l = earlier ++ a :: rest ∧ later = rest ++ events) ∨ ∃ front, events = front ++ a :: later := by
  rcases append_eq_append_iff.1 h with ⟨front, -, hfront⟩ | ⟨_ | ⟨b, rest⟩, hl, hrest⟩
  · exact .inr ⟨front, hfront⟩
  · exact .inr ⟨[], hrest.symm⟩
  · obtain ⟨rfl, hlater⟩ := List.cons.inj hrest
    exact .inl ⟨rest, hl, hlater⟩

theorem quenched_step (hbase : Base s) (h : Quenched s) (hstep : Step s action t) : Quenched t := by
  cases hstep with
  | aside hguarantee hclients hthreads hnative hnext hlog =>
    have hdoing : ∀ th, t.doing th = s.doing th := fun th => by simp [State.doing, hthreads]
    refine ⟨fun c hc => ?_, fun c earlier later heq => h.order c earlier later (hlog ▸ heq)⟩
    simp only [HasInput, hclients, hdoing]
    exact h.stalled c (hlog ▸ hc)
  | turn th task' hfrom hturn =>
    obtain ⟨events, hlog, htold, -⟩ := hturn.logs
    have hknown : ∀ c, s.clients.get c ≠ none → t.clients.get c ≠ none := by
      intro c hc
      obtain ⟨client, hc⟩ := Option.ne_none_iff_exists'.1 hc
      obtain ⟨client', hc', -⟩ := hturn.guarantee.clients c client hc
      simp [hc']
    -- Nobody else starts to write.
    have hother : ∀ k c, k ≠ th → (t.doing k).inputLock = some c → (s.doing k).inputLock = some c := by
      intro k c hk hl
      refine hturn.doing_other_eq hk (fun j hj => ?_) ▸ hl
      rw [hj] at hl
      cases hl
    have hkept : ∀ c, .stalled c ∈ s.log →
        t.clients.get c ≠ none ∧ ¬HasInput t c ∧ ∀ k, (t.doing k).inputLock ≠ some c := by
      intro c hc
      obtain ⟨hsome, hnone, hnobody⟩ := h.stalled c hc
      refine ⟨hknown c hsome, fun hin => ?_, fun k hl => ?_⟩
      · rcases hturn.input c hin with hs | hl | hn
        · exact hnone hs
        · exact hnobody th hl
        · exact hsome hn
      · by_cases hk : k = th
        · subst hk
          rw [hturn.doing_self] at hl
          rcases hturn.writes c hl with hs | hs
          · exact hnobody k hs
          · exact hnone hs
        · exact hnobody k (hother k c hk hl)
    have hnew : ∀ c, .stalled c ∈ events →
        t.clients.get c ≠ none ∧ ¬HasInput t c ∧ ∀ k, (t.doing k).inputLock ≠ some c := by
      intro c hc
      obtain ⟨hwriting, hstalled, hnone⟩ := aside_of_told htold hc (by simp) (by simp)
      obtain ⟨client, hget, hheld⟩ := ((hbase.knows th).inputLock c).2 (by rw [hwriting]; rfl)
      refine ⟨hknown c (by simp [hget]), hnone, fun k hl => ?_⟩
      by_cases hk : k = th
      · subst hk
        rw [hturn.doing_self, hstalled] at hl
        cases hl
      · obtain ⟨client', hget', hheld'⟩ := ((hbase.knows k).inputLock c).2 (hother k c hk hl)
        cases hget.symm.trans hget'
        exact hk (Option.some.inj (hheld'.symm.trans hheld))
    refine ⟨fun c hc => ?_, fun c earlier later heq hw => ?_⟩
    · rw [hlog, mem_append] at hc
      exact hc.elim (hkept c) (hnew c)
    · rw [hlog] at heq
      have hwrote : .wrote c ∈ events → s.doing th = .waiting c ∧ HasInput s c :=
        fun hc => aside_of_told htold hc (by simp) (by simp)
      rcases split_append heq with ⟨rest, hs, rfl⟩ | ⟨front, rfl⟩
      · rw [mem_append] at hw
        rcases hw with hw | hw
        · exact h.order c earlier rest hs hw
        · exact (h.stalled c (by simp [hs])).2.1 (hwrote hw).2
      · have hwaiting := (hwrote (by simp [hw])).1
        have hstalled : .stalled c ∈ front ++ .stalled c :: later := by simp
        have hwriting := (aside_of_told htold hstalled (by simp) (by simp)).1
        cases hwaiting.symm.trans hwriting

/-! ## Closing events -/

/-- A release of the client began: it has set `closed`, or `released` too. -/
def Begun (s : State) (c : Nat) : Prop := Released s c ∨ ∃ th, (s.doing th).begins c

/-- **How often a client's closing event passed the guard and was delivered**, by where its reader stands. -/
structure Heard (s : State) : Prop where
  early : ∀ c, (∀ task, s.threads.get (.reader c) = some task → task.reader = some c ∧ task ≠ .delivering c) →
    s.log.count (.passed c) = 0 ∧ s.log.count (.closed c) = 0
  delivering : ∀ c, s.threads.get (.reader c) = some (.delivering c) →
    s.log.count (.passed c) = 1 ∧ s.log.count (.closed c) = 0
  returned : ∀ c, s.threads.get (.reader c) = some (.returned none) →
    s.log.count (.passed c) = s.log.count (.closed c) ∧ s.log.count (.closed c) ≤ 1

theorem count_eq_zero_of_aside (hall : ∀ event ∈ events, Aside s t task task' event) (c : Nat) :
    events.count (.passed c) = 0 ∧ events.count (.closed c) = 0 :=
  ⟨count_eq_zero.2 fun he => hall _ he, count_eq_zero.2 fun he => hall _ he⟩

theorem heard_step (hbase : Base s) (h : Heard s) (hstep : Step s action t) : Heard t := by
  cases hstep with
  | aside hguarantee hclients hthreads hnative hnext hlog =>
    refine ⟨fun c hc => ?_, fun c hc => ?_, fun c hc => ?_⟩
    · rw [hlog]
      exact h.early c (hthreads ▸ hc)
    · rw [hlog]
      exact h.delivering c (hthreads ▸ hc)
    · rw [hlog]
      exact h.returned c (hthreads ▸ hc)
  | turn th task' hfrom hturn =>
    obtain ⟨events, hlog, htold, -⟩ := hturn.logs
    -- A turn of another thread is not heard of here.
    have hother : ∀ c, th ≠ .reader c → events.count (.passed c) = 0 ∧ events.count (.closed c) = 0 := by
      intro c hne
      generalize hdoing : s.doing th = task at htold
      cases htold with
      | passed j hcheck =>
        have hj := hbase.own th j (by rw [hdoing, hcheck]; rfl)
        have hjc : j ≠ c := fun heq => hne (heq ▸ hj)
        simp [hjc]
      | closed j hdeliver =>
        have hj := hbase.own th j (by rw [hdoing, hdeliver]; rfl)
        have hjc : j ≠ c := fun heq => hne (heq ▸ hj)
        simp [hjc]
      | aside hfrom' hto hall => exact count_eq_zero_of_aside hall c
    have hcounts : ∀ c, t.log.count (.passed c) = s.log.count (.passed c) + events.count (.passed c) ∧
        t.log.count (.closed c) = s.log.count (.closed c) + events.count (.closed c) := by
      intro c
      rw [hlog, count_append, count_append]
      exact ⟨rfl, rfl⟩
    -- Where the client's reader stood, if it is not the one that steps.
    have hstood : ∀ c, th ≠ .reader c → t.threads.get (.reader c) = s.threads.get (.reader c) ∨
        (s.threads.get (.reader c) = none ∧ t.threads.get (.reader c) = some (.looping c)) := by
      intro c hne
      rcases hturn.others (.reader c) (Ne.symm hne) with hsame | ⟨j, hj, hnone, hget⟩
      · exact .inl hsame
      · obtain rfl := Thread.reader.inj hj
        exact .inr ⟨hnone, hget⟩
    -- The reader that steps.
    have hself : ∀ c, th = .reader c → ∃ task, s.threads.get (.reader c) = some task ∧ task.reader = some c ∧
        s.doing th = task := by
      rintro c rfl
      rcases hfrom with ⟨task, hget, hnot, -⟩ | ⟨n, hn, -⟩
      · rcases hbase.reader c task hget with hr | rfl
        · exact ⟨task, hget, hr, State.doing_of_get hget⟩
        · exact absurd rfl (hnot none)
      · cases hn
    refine ⟨fun c hc => ?_, fun c hc => ?_, fun c hc => ?_⟩
    · by_cases hth : th = .reader c
      · obtain ⟨task, hget, hreader, hdoing⟩ := hself c hth
        have hown := hc task' (hth ▸ hturn.own)
        rw [hdoing] at htold
        cases htold with
        | passed j hcheck hnext =>
          obtain rfl : j = c := by simpa [hcheck] using hreader
          exact absurd hnext hown.2
        | closed j hdeliver hnext =>
          rw [hnext] at hown
          cases hown.1
        | aside hfrom' hto hall =>
          obtain ⟨hpassed, hclosed⟩ := h.early c fun other hother => by
            cases hget.symm.trans hother
            exact ⟨hreader, hfrom' c⟩
          obtain ⟨hp, hcl⟩ := count_eq_zero_of_aside hall c
          have := hcounts c
          omega
      · have hearly : s.log.count (.passed c) = 0 ∧ s.log.count (.closed c) = 0 := by
          rcases hstood c hth with hsame | ⟨hnone, -⟩
          · exact h.early c fun task hget => hc task (hsame ▸ hget)
          · exact h.early c fun task hget => by
              cases hnone.symm.trans hget
        have := hcounts c
        have := hother c hth
        omega
    · by_cases hth : th = .reader c
      · obtain ⟨task, hget, hreader, hdoing⟩ := hself c hth
        cases (hth ▸ hturn.own).symm.trans hc
        rw [hdoing] at htold
        cases htold with
        | passed j hcheck hnext =>
          obtain rfl := Task.delivering.inj hnext
          obtain ⟨hpassed, hclosed⟩ := h.early c fun other hother => by
            cases hget.symm.trans hother
            exact ⟨hreader, by simp [hcheck]⟩
          have := hcounts c
          simp at this
          omega
        | closed j hdeliver hnext => cases hnext
        | aside hfrom' hto hall => exact absurd rfl (hto c)
      · have hdelivering : s.threads.get (.reader c) = some (.delivering c) := by
          rcases hstood c hth with hsame | ⟨-, hlooping⟩
          · exact hsame ▸ hc
          · cases hlooping.symm.trans hc
        have := hcounts c
        have := hother c hth
        have := h.delivering c hdelivering
        omega
    · by_cases hth : th = .reader c
      · obtain ⟨task, hget, hreader, hdoing⟩ := hself c hth
        cases (hth ▸ hturn.own).symm.trans hc
        rw [hdoing] at htold
        cases htold with
        | passed j hcheck hnext => cases hnext
        | closed j hdeliver hnext =>
          obtain rfl : j = c := by simpa [hdeliver] using hreader
          obtain ⟨hpassed, hclosed⟩ := h.delivering j (by rw [hget, hdeliver])
          have := hcounts j
          simp at this
          omega
        | aside hfrom' hto hall =>
          obtain ⟨hpassed, hclosed⟩ := h.early c fun other hother => by
            cases hget.symm.trans hother
            exact ⟨hreader, hfrom' c⟩
          obtain ⟨hp, hcl⟩ := count_eq_zero_of_aside hall c
          have := hcounts c
          omega
      · have hreturned : s.threads.get (.reader c) = some (.returned none) := by
          rcases hstood c hth with hsame | ⟨-, hlooping⟩
          · exact hsame ▸ hc
          · cases hlooping.symm.trans hc
        have := hcounts c
        have := hother c hth
        have := h.returned c hreturned
        omega

theorem begun_turn (hturn : Turn s t th (s.doing th) task') (h : Begun s c) : Begun t c := by
  rcases h with hr | ⟨k, hk⟩
  · exact .inl (hturn.guarantee.released hr)
  · by_cases heq : k = th
    · subst heq
      rcases hturn.begins c hk with hb | hr
      · exact .inr ⟨k, hturn.doing_self.symm ▸ hb⟩
      · exact .inl hr
    · have hnot : s.doing k ≠ .returned none := by
        intro hr
        rw [hr] at hk
        cases hk
      exact .inr ⟨k, (hturn.doing_kept heq hnot).symm ▸ hk⟩

/-- **A reader is silent about its client only where a release of it began.** -/
structure Yields (s : State) : Prop where
  took : ∀ c, Closed s c → (∀ task, s.threads.get (.reader c) = some task → task.unswapped = true) → Begun s c
  silent : ∀ c, s.threads.get (.reader c) = some (.returned none) → s.log.count (.closed c) = 0 → Begun s c

theorem yields_step (hbase : Base s) (h : Yields s) (hstep : Step s action t) : Yields t := by
  cases hstep with
  | aside hguarantee hclients hthreads hnative hnext hlog =>
    have hbegun : ∀ c, Begun s c → Begun t c := by
      intro c hb
      simpa [Begun, Released, State.doing, hclients, hthreads] using hb
    refine ⟨fun c hc hr => hbegun c (h.took c ?_ (hthreads ▸ hr)), fun c hr hc => hbegun c (h.silent c (hthreads ▸ hr) ?_)⟩
    · simpa [Closed, hclients] using hc
    · rw [← hlog]
      exact hc
  | turn th task' hfrom hturn =>
    obtain ⟨events, hlog, htold, -⟩ := hturn.logs
    refine ⟨fun c hc hun => ?_, fun c hr hc => ?_⟩
    · rcases hturn.closes c hc with hs | hb | ⟨hreader, hswapped⟩
      · refine begun_turn hturn (h.took c hs fun task hget => ?_)
        by_cases hth : Thread.reader c = th
        · subst hth
          exact State.doing_of_get hget ▸ hturn.unswapped (hun task' hturn.own)
        · rcases hturn.others _ hth with hsame | ⟨j, -, hnone, -⟩
          · exact hun task (hsame.trans hget)
          · cases hnone.symm.trans hget
      · exact .inr ⟨th, hturn.doing_self.symm ▸ hb⟩
      · obtain rfl := hbase.own th c hreader
        rw [hun task' hturn.own] at hswapped
        cases hswapped
    · have hless : s.log.count (.closed c) = 0 ∧ events.count (.closed c) = 0 := by
        rw [hlog, count_append] at hc
        omega
      by_cases hth : Thread.reader c = th
      · subst hth
        cases hturn.own.symm.trans hr
        have hreader : (s.doing (.reader c)).reader = some c := by
          rcases hfrom with ⟨task, hget, hnot, -⟩ | ⟨n, hn, -⟩
          · rw [State.doing_of_get hget]
            exact (hbase.reader c task hget).resolve_right (hnot none)
          · cases hn
        rcases hturn.silent c hreader rfl with hdelivering | ⟨hswapping, hclosed⟩ | hreleased
        · rw [hdelivering] at htold
          cases htold with
          | passed j hcheck => cases hcheck
          | closed j hdeliver =>
            obtain rfl := Task.delivering.inj hdeliver
            simp at hless
          | aside hfrom' => exact absurd rfl (hfrom' c)
        · refine begun_turn hturn (h.took c hclosed fun task hget => ?_)
          rw [← State.doing_of_get hget, hswapping]
          rfl
        · exact begun_turn hturn (.inl hreleased)
      · rcases hturn.others _ hth with hsame | ⟨j, -, -, hlooping⟩
        · exact begun_turn hturn (h.silent c (hsame ▸ hr) hless.1)
        · cases hlooping.symm.trans hr

/-! ## Every state -/

structure Sound (s : State) : Prop where
  base : Base s
  mapped : Mapped s
  aimed : Aimed s
  left : Left s
  quenched : Quenched s
  heard : Heard s
  yields : Yields s

theorem sound_step (h : Sound s) (hstep : Step s action t) : Sound t :=
  ⟨base_step h.base hstep, mapped_step h.mapped hstep, aimed_step h.aimed hstep, left_step h.base h.left hstep,
    quenched_step h.base h.quenched hstep, heard_step h.base h.heard hstep, yields_step h.base h.yields hstep⟩

theorem sound_fresh (h : Fresh s) : Sound s := by
  obtain ⟨processes, rfl, -⟩ := h
  have hdoing : ∀ th, (State.new processes).doing th = .returned none := fun th => rfl
  have hlog : ∀ event, event ∉ (State.new processes).log := by simp [State.new]
  exact {
    base := by
      refine ⟨⟨by simp [State.new], by simp [State.new]⟩, fun th => ?_, fun th c hr => ?_, by simp [State.new]⟩
      · rw [hdoing]
        exact ⟨by simp [Holds, State.new], by simp [HoldsInput, State.new], by simp, by simp, by simp, by simp, by simp⟩
      · rw [hdoing] at hr
        cases hr
    mapped := ⟨Nat.zero_le _, by simp [State.new], fun c hc => absurd hc (hlog _), fun c hc => absurd hc (hlog _),
      by simp [hdoing], by simp [hdoing]⟩
    aimed := fun c pid target hc => absurd hc (hlog _)
    left := ⟨fun c hc => absurd hc (hlog _), fun c hc => absurd hc (hlog _)⟩
    quenched := ⟨fun c hc => absurd hc (hlog _), by simp [State.new]⟩
    heard := ⟨by simp [State.new], by simp [State.new], by simp [State.new]⟩
    yields := ⟨by simp [Closed, State.new], by simp [State.new]⟩ }

/-- **Every state of a run is sound.** -/
theorem sound_run {l : List (Transition State Action)} (hrun : Run decode l s) : Sound s :=
  hrun.invariant (fun _ => sound_fresh) fun _ _ _ h hnext =>
    sound_step h (step_of_next h.base.records h.base.knows hnext)

end NativeClients
end Yuzora
