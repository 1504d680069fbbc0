import Yuzora.WatcherRuns
/-!
# WatcherRules — classified by rules that are new enough

Every notification that changes the rules is ahead of the thread (`Ahead`) until the rules are loaded again.  The
messages are in the order of the notifications, so none that comes later is classified before.
-/
namespace Yuzora
namespace Watcher

open List

variable {root : Path} {s t : State} {notices : List (List Path)} {journal : List Event} {paths : List Path}
  {chance : Chance} {c : Classified} {batch : Batch}

/-- What the thread took out last and has not looked at, and what is in the channel. -/
def inbox (s : State) : List Batch := s.phase.held.toList ++ s.queue

/-- The messages follow the notifications; only a hint may have the stamp of another message. -/
def Before (a b : Batch) : Prop := a.stamp ≤ b.stamp ∧ (b.paths ≠ [] → a.stamp < b.stamp)

def Noticed (notices : List (List Path)) (b : Batch) : Prop :=
  b.stamp ≤ notices.length ∧ (b.paths ≠ [] → ∃ k, b.stamp = k + 1 ∧ notices[k]? = some b.paths)

def Ahead (s : State) (k : Nat) (paths : List Path) : Prop :=
  (∃ b ∈ inbox s, b.stamp = k + 1 ∧ b.paths = paths) ∨ s.callback = .refused paths ∧ k + 1 = s.notices.length ∨
    s.overflow = true ∨ s.phase = .reloading ∨ s.phase = .ended

structure Stamps (root : Path) (s : State) : Prop where
  noticed : ∀ b ∈ inbox s, Noticed s.notices b
  order : (inbox s).Pairwise Before
  refused : ∀ paths, s.callback = .refused paths → ∀ b ∈ inbox s, b.paths ≠ [] → b.stamp < s.notices.length
  ahead : ∀ (k : Nat) paths, s.notices[k]? = some paths → paths.any (changesRules root) = true → s.loadedAt ≤ k →
    Ahead s k paths

theorem getElem?_snoc {α : Type} {l : List α} {x y : α} {k : Nat} (h : (l ++ [x])[k]? = some y) :
    l[k]? = some y ∨ k = l.length ∧ x = y := by
  have hlt := (List.getElem?_eq_some_iff.1 h).1
  rw [length_append, length_singleton] at hlt
  rcases Nat.lt_succ_iff_lt_or_eq.1 hlt with hk | rfl
  · exact .inl (by rwa [getElem?_append_left hk] at h)
  · exact .inr ⟨rfl, by simpa using h⟩

theorem Noticed.mono {b : Batch} (h : Noticed notices b) (more : List (List Path)) : Noticed (notices ++ more) b := by
  constructor
  · rw [length_append]
    exact h.1.trans (Nat.le_add_right _ _)
  · intro hne
    obtain ⟨k, hk, hget⟩ := h.2 hne
    have hlt := (List.getElem?_eq_some_iff.1 hget).1
    exact ⟨k, hk, by rw [getElem?_append_left hlt, hget]⟩

theorem Stamps.keep (h : Stamps root s) (hi : inbox t = inbox s) (hn : t.notices = s.notices)
    (hc : ∀ paths, t.callback = .refused paths ↔ s.callback = .refused paths) (hl : t.loadedAt = s.loadedAt)
    (ho : s.overflow = true → t.overflow = true ∨ t.phase = .reloading)
    (hr : s.phase = .reloading → t.phase = .reloading) (he : s.phase = .ended → t.phase = .ended) : Stamps root t where
  noticed := by
    rw [hi, hn]
    exact h.noticed
  order := by
    rw [hi]
    exact h.order
  refused := by
    intro paths hp
    rw [hi, hn]
    exact h.refused paths ((hc paths).1 hp)
  ahead := by
    intro k paths hk hany hle
    rw [hn] at hk
    rw [hl] at hle
    rcases h.ahead k paths hk hany hle with hb | ⟨hcb, hlen⟩ | hof | hrl | hend
    · exact .inl (by rwa [hi])
    · exact .inr (.inl ⟨(hc paths).2 hcb, by rwa [hn]⟩)
    · rcases ho hof with hof | hrl
      · exact .inr (.inr (.inl hof))
      · exact .inr (.inr (.inr (.inl hrl)))
    · exact .inr (.inr (.inr (.inl (hr hrl))))
    · exact .inr (.inr (.inr (.inr (he hend))))

theorem Stamps.stop (h : Stamps root s) (hq : t.queue = s.queue) (hn : t.notices = s.notices)
    (hc : t.callback = s.callback) (he : t.phase = .ended) : Stamps root t := by
  have hi : inbox t = s.queue := by simp [inbox, he, Phase.held, hq]
  have hsub : ∀ b ∈ inbox t, b ∈ inbox s := by
    intro b hb
    rw [hi] at hb
    exact mem_append_right _ hb
  exact
    { noticed := fun b hb => by
        rw [hn]
        exact h.noticed b (hsub b hb)
      order := by
        rw [hi]
        exact h.order.sublist (sublist_append_right _ _)
      refused := fun paths hp b hb => by
        rw [hn]
        exact h.refused paths (hc ▸ hp) b (hsub b hb)
      ahead := fun _ _ _ _ _ => .inr (.inr (.inr (.inr he))) }

theorem Stamps.hint (h : Stamps root s) : Stamps root (s.trySend []) := by
  rcases trySend_cases s [] with he | ⟨-, he⟩
  · rwa [he]
  rw [he]
  have hi : inbox (s.push []) = inbox s ++ [⟨[], s.notices.length⟩] := by
    simp [inbox, State.push]
  constructor
  · intro b hb
    rw [hi] at hb
    rcases mem_append.1 hb with hb | hb
    · exact h.noticed b hb
    · rw [mem_singleton.1 hb]
      exact ⟨le_refl _, fun hne => absurd rfl hne⟩
  · rw [hi, pairwise_append]
    refine ⟨h.order, pairwise_singleton _ _, fun a ha b hb => ?_⟩
    rw [mem_singleton.1 hb]
    exact ⟨(h.noticed a ha).1, fun hne => absurd rfl hne⟩
  · intro paths hp b hb hne
    rw [hi] at hb
    rcases mem_append.1 hb with hb | hb
    · exact h.refused paths hp b hb hne
    · rw [mem_singleton.1 hb] at hne
      exact absurd rfl hne
  · intro k paths hk hany hle
    rcases h.ahead k paths hk hany hle with ⟨b, hb, hbk⟩ | hrest
    · exact .inl ⟨b, hi ▸ mem_append_left _ hb, hbk⟩
    · exact .inr hrest

/-- A notification that is not sent is ahead as long as the callback holds it; one that asks for nothing changes no
rules. -/
theorem Stamps.notice (h : Stamps root s) {callback : Callback}
    (hc : s.callback = .idle) (hnew : callback = .refused paths ∨ callback = .idle ∧ paths = []) :
    Stamps root { s.notice paths with callback, journal } := by
  constructor
  · intro b hb
    exact (h.noticed b hb).mono [paths]
  · exact h.order
  · intro paths' hp b hb hne
    exact Nat.lt_of_le_of_lt (h.noticed b hb).1 (by simp [State.notice])
  · intro k paths' hk hany hle
    rcases getElem?_snoc hk with hk | ⟨rfl, rfl⟩
    · rcases h.ahead k paths' hk hany hle with hb | ⟨hcb, -⟩ | hrest
      · exact .inl hb
      · simp [hc] at hcb
      · exact .inr (.inr hrest)
    · rcases hnew with rfl | ⟨-, rfl⟩
      · exact .inr (.inl ⟨rfl, by simp [State.notice]⟩)
      · cases hany

theorem Stamps.send (h : Stamps root s) (hc : s.callback = .idle) :
    Stamps root { (s.notice paths).push paths with journal } := by
  have hi : inbox { (s.notice paths).push paths with journal } = inbox s ++ [⟨paths, s.notices.length + 1⟩] := by
    simp [inbox, State.push, State.notice]
  constructor
  · intro b hb
    rw [hi] at hb
    rcases mem_append.1 hb with hb | hb
    · exact (h.noticed b hb).mono [paths]
    · rw [mem_singleton.1 hb]
      exact ⟨by simp [State.push, State.notice], fun _ => ⟨_, rfl, by simp [State.push, State.notice]⟩⟩
  · rw [hi, pairwise_append]
    refine ⟨h.order, pairwise_singleton _ _, fun a ha b hb => ?_⟩
    rw [mem_singleton.1 hb]
    have hle := (h.noticed a ha).1
    exact ⟨Nat.le_succ_of_le hle, fun _ => Nat.lt_succ_of_le hle⟩
  · intro paths' hp
    have hp' : s.callback = .refused paths' := hp
    simp [hc] at hp'
  · intro k paths' hk hany hle
    rcases getElem?_snoc hk with hk | ⟨rfl, rfl⟩
    · rcases h.ahead k paths' hk hany hle with ⟨b, hb, hbk⟩ | ⟨hcb, -⟩ | hrest
      · exact .inl ⟨b, hi ▸ mem_append_left _ hb, hbk⟩
      · simp [hc] at hcb
      · exact .inr (.inr hrest)
    · exact .inl ⟨_, hi ▸ mem_concat_self, rfl, rfl⟩

theorem Stamps.load (h : Stamps root s) (hi : (inbox t).Sublist (inbox s)) (hn : t.notices = s.notices)
    (hc : t.callback = s.callback) (hl : t.loadedAt = s.notices.length) : Stamps root t where
  noticed b hb := by
    rw [hn]
    exact h.noticed b (hi.subset hb)
  order := h.order.sublist hi
  refused paths hp b hb := by
    rw [hn]
    exact h.refused paths (hc ▸ hp) b (hi.subset hb)
  ahead k paths hk _ hle := by
    have hlt := (List.getElem?_eq_some_iff.1 hk).1
    rw [hn] at hlt
    omega

theorem Stamps.absorb (h : Stamps root s) (hp : s.phase = .extending (some batch)) :
    Stamps root (Watcher.absorb root chance batch s) := by
  have hi : inbox s = batch :: inbox (Watcher.absorb root chance batch s) := by
    simp [inbox, hp, Phase.held]
  have hsub : (inbox (Watcher.absorb root chance batch s)).Sublist (inbox s) := by
    rw [hi]
    exact sublist_cons_self _ _
  by_cases hany : batch.paths.any (changesRules root) = true
  · exact h.load hsub (by simp) (by simp) (by simp [absorb_loadedAt, hany])
  · constructor
    · intro b hb
      rw [absorb_notices]
      exact h.noticed b (hsub.subset hb)
    · exact h.order.sublist hsub
    · intro paths hc b hb
      rw [absorb_notices]
      exact h.refused paths (by simpa using hc) b (hsub.subset hb)
    · intro k paths hk hany' hle
      rw [absorb_notices] at hk
      rw [absorb_loadedAt, if_neg hany] at hle
      rcases h.ahead k paths hk hany' hle with ⟨b, hb, hstamp, rfl⟩ | hcb | hof | hrl | hend
      · rw [hi] at hb
        rcases mem_cons.1 hb with rfl | hb
        · exact absurd hany' hany
        · exact .inl ⟨b, hb, hstamp, rfl⟩
      · exact .inr (.inl (by simpa using hcb))
      · exact .inr (.inr (.inl (by simpa using hof)))
      · simp [hp] at hrl
      · simp [hp] at hend

theorem stamps_start (rules : Rules) (now : Nat) : Stamps root (.start rules now) where
  noticed b hb := by cases hb
  order := List.Pairwise.nil
  refused paths hp := by cases hp
  ahead k paths hk := by cases hk

theorem stamps_step {a : Action} (h : Stamps root s) (hm : Moves root s a t) : Stamps root t := by
  cases hm
  case refuse n hc => exact h.notice hc (.inl rfl)
  case skip n hc hn =>
    rw [asks_of_sends hn]
    exact h.notice hc (.inr ⟨hc, rfl⟩)
  case send n paths hc hn hne hlt =>
    rw [asks_of_sends hn]
    exact h.send hc
  case swap paths hc =>
    have hset : (raise s paths).overflow = true := rfl
    constructor
    · exact h.noticed
    · exact h.order
    · intro paths' hp
      unfold raise at hp
      split at hp <;> cases hp
    · exact fun _ _ _ _ _ => .inr (.inr (.inl hset))
  case hint hc => exact h.hint.keep rfl rfl (by simp [hc]) rfl .inl id id
  case wake hs => exact h.hint
  case stopping chance batch hp hs => exact h.stop rfl rfl rfl rfl
  case absorb chance batch hp => exact h.absorb hp
  case reload chance hp =>
    refine h.load ?_ rfl rfl rfl
    simp [inbox, hp, Phase.held, State.load]
  case take chance batch queue hp hq =>
    have hi : inbox s = batch :: queue := by
      rcases hp with hp | hp <;> simp [inbox, hp, hq, Phase.held]
    refine h.keep ?_ rfl (by simp) rfl .inl ?_ ?_
    · rw [hi]
      rfl
    · rcases hp with hp | hp <;> simp [hp]
    · rcases hp with hp | hp <;> simp [hp]
  case cleared chance hp ho =>
    exact h.keep (by simp [inbox, hp, Phase.held]) rfl (by simp) rfl (fun _ => .inr rfl) (by simp) (by simp [hp])
  case extending chance batch hp =>
    refine h.keep ?_ rfl (fun _ => Iff.rfl) rfl .inl (by simp [hp]) (by simp [hp])
    cases batch <;> simp [inbox, hp, Phase.held, State.goto]
  all_goals
    refine h.keep ?_ rfl (fun _ => Iff.rfl) rfl .inl ?_ ?_
    all_goals simp_all [inbox, Phase.held, State.goto, State.log]

/-! ## Fresh rules -/

/-- The path was classified by rules loaded after every change of the rules up to its own batch. -/
def Fresh (root : Path) (notices : List (List Path)) (c : Classified) : Prop :=
  (∃ k paths, c.stamp = k + 1 ∧ notices[k]? = some paths ∧ c.path ∈ paths) ∧
    ∀ (k : Nat) paths, notices[k]? = some paths → k < c.stamp → paths.any (changesRules root) = true → k < c.loadedAt

theorem Fresh.mono (h : Fresh root notices c) (more : List (List Path)) : Fresh root (notices ++ more) c := by
  obtain ⟨⟨k, paths, hk, hget, hmem⟩, hlate⟩ := h
  have hlt := (List.getElem?_eq_some_iff.1 hget).1
  refine ⟨⟨k, paths, hk, by rw [getElem?_append_left hlt, hget], hmem⟩, fun j paths' hj hjlt => ?_⟩
  rw [getElem?_append_left (by omega)] at hj
  exact hlate j paths' hj hjlt

/-- **A batch is classified by fresh rules**, unless the flag is set. -/
theorem fresh_of_classifies (h : Stamps root s) (hp : s.phase = .extending (some batch)) (ho : s.overflow = false)
    (hc : c ∈ classifies root chance batch s) : Fresh root s.notices c := by
  have hi : inbox s = batch :: s.queue := by simp [inbox, hp, Phase.held]
  have hin : batch ∈ inbox s := hi ▸ mem_cons_self
  unfold classifies at hc
  dsimp only at hc
  split at hc
  · cases hc
  obtain ⟨path, hpath, rfl⟩ := mem_map.1 hc
  have hne : batch.paths ≠ [] := ne_nil_of_mem hpath
  obtain ⟨k, hk, hget⟩ := (h.noticed batch hin).2 hne
  refine ⟨⟨k, batch.paths, hk, hget, hpath⟩, fun j paths hj hlt hany => ?_⟩
  dsimp only at hlt ⊢
  split
  · exact (List.getElem?_eq_some_iff.1 hj).1
  · rename_i hsame
    by_contra hle
    rcases h.ahead j paths hj hany (Nat.le_of_not_lt hle) with ⟨b, hb, hstamp, rfl⟩ | ⟨hcb, hlen⟩ | hof | hrl | hend
    · rw [hi] at hb
      rcases mem_cons.1 hb with rfl | hb
      · exact hsame hany
      · have horder := h.order
        rw [hi, pairwise_cons] at horder
        have hbne : b.paths ≠ [] := by
          intro hnil
          rw [hnil] at hany
          cases hany
        have := (horder.1 b hb).2 hbne
        omega
    · have := h.refused paths hcb batch hin hne
      omega
    · rw [ho] at hof
      cases hof
    · simp [hp] at hrl
    · simp [hp] at hend

end Watcher
end Yuzora
