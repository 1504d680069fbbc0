import Yuzora.GitRegistryHeld
/-!
# GitRegistryConduct — which operations run together

A gate and a lock are of an entry.  A repository whose entry left the table gets a new one, and who holds the old one
knows nothing of it: two mutations of a repository may run at a time (`registry_overlaps`).  They do not where no entry
is made while a mutation is under an earlier one (`registry_conduct`).
-/
namespace Yuzora

namespace Table

variable {K V : Type} [DecidableEq K] {t : Table K V}

theorem count_mono {p q : K → V → Bool} (h : ∀ k v, t.get k = some v → p k v = true → q k v = true) :
    t.count p ≤ t.count q :=
  List.countP_mono_left fun e he hp => h e.1 e.2 (get_eq_some.2 he) hp

theorem eq_of_count_le_one {p : K → V → Bool} (h : t.count p ≤ 1) {k k' : K} {v v' : V}
    (hk : t.get k = some v) (hp : p k v = true) (hk' : t.get k' = some v') (hp' : p k' v' = true) : k = k' := by
  by_cases heq : k = k'
  · exact heq
  · have herase := count_erase_of_get p hk hp
    have hrest : (t.erase k).get k' = some v' := by
      rw [get_erase, if_neg (Ne.symm heq)]
      exact hk'
    have hpos := count_pos_of_get hrest hp'
    omega

end Table

namespace GitRegistry

open List Table Option
open Trust (WorkspaceIdentity Disk observeIdentity)

variable {s t u : State}

/-! ## What a step makes and drops -/

def State.makes (s : State) : Action → Option WorkspaceIdentity
  | .finish workspace generation environment _ disk =>
    match State.detected disk environment, s.workspaces.get workspace with
    | .ok (some identity), some slot =>
      if slot.generation = generation ∧ s.knows identity = false then some identity else none
    | _, _ => none
  | _ => none

def State.last (s : State) (workspace root : String) : Prop :=
  ∀ ws slot, s.workspaces.get ws = some slot → slot.root = some root → ws = workspace

/-- The entry leaves the table: its last workspace does, or is bound elsewhere, or another takes its root. -/
def Drops (s : State) (a : Action) (entry : Nat) : Prop :=
  ∃ root, s.repositories.get root = some entry ∧
    match a with
    | .close workspace generation =>
      ∃ slot, s.workspaces.get workspace = some slot ∧ slot.generation = generation ∧ s.last workspace root
    | .finish workspace generation environment _ disk =>
      ∃ slot identity, s.workspaces.get workspace = some slot ∧ slot.generation = generation ∧
        State.detected disk environment = .ok identity ∧
        ((s.last workspace root ∧ identity.map WorkspaceIdentity.canonicalPath ≠ some root) ∨
          ∃ made, identity = some made ∧ made.canonicalPath = root ∧ s.knows made = false)
    | _ => False

/-- What a step of the registry does to the table and its entries. -/
structure Turns (s t : State) (a : Action) : Prop where
  calls : t.calls = s.calls
  dropped : ∀ e repo repo', s.entries.get e = some repo → t.entries.get e = some repo' → repo.cancelled = false →
    repo'.cancelled = true → Drops s a e
  table : ∀ root e, t.repositories.get root = some e → s.repositories.get root = some e ∨
    ∃ identity repo, s.makes a = some identity ∧ t.entries.get e = some repo ∧ repo.identity = identity

theorem get_removeOrphans (s : State) (e : Nat) : s.removeOrphans.entries.get e = (s.entries.get e).map fun repo =>
    if s.repositories.entries.any fun x => decide (x.2 = e) && !s.retained x.1 then { repo with cancelled := true }
    else repo :=
  get_mapValues _ _ _

variable {e : Nat}

theorem orphaned {repo repo' : Repository} (hrepo : s.entries.get e = some repo)
    (hrepo' : s.removeOrphans.entries.get e = some repo') (hlive : repo.cancelled = false) (hc : repo'.cancelled = true) :
    ∃ root, s.repositories.get root = some e ∧ s.retained root = false := by
  rw [get_removeOrphans, hrepo] at hrepo'
  cases hrepo'
  split at hc
  · rename_i hany
    obtain ⟨⟨root, e'⟩, hmem, hx⟩ := any_eq_true.1 hany
    simp only [Bool.and_eq_true, decide_eq_true_eq, Bool.not_eq_true'] at hx
    obtain ⟨rfl, hx⟩ := hx
    exact ⟨root, get_eq_some.2 hmem, hx⟩
  · rw [hlive] at hc
    cases hc

theorem removed {root : String} (h : s.removeOrphans.repositories.get root = some e) :
    s.repositories.get root = some e := by
  have hget : s.removeOrphans.repositories.get root = (s.repositories.get root).filter fun _ => s.retained root :=
    get_retain _ _ _
  rw [hget, filter_eq_some_iff] at h
  exact h.1

theorem turns_self (s : State) (a : Action) : Turns s s a := by
  refine ⟨rfl, fun e repo repo' hrepo hrepo' hlive hc => ?_, fun root e h => .inl h⟩
  cases hrepo.symm.trans hrepo'
  rw [hlive] at hc
  cases hc

variable {a : Action} {workspace : String} {generation : Nat} {environment : GitEnvironment} {watcher : Option Nat}

theorem turns_begin (hb : s.begin workspace = .ok (generation, t)) : Turns s t a := by
  unfold State.begin at hb
  split at hb
  · cases hb
  · split at hb
    · cases hb
      have hself := turns_self s a
      exact ⟨hself.calls, hself.dropped, hself.table⟩
    · cases hb

theorem turns_close (workspace : String) (generation : Nat) :
    Turns s (s.close workspace generation) (.close workspace generation) := by
  unfold State.close
  split
  · exact turns_self s _
  · rename_i slot hslot
    split
    · rename_i hgeneration
      obtain ⟨u, hu, hentries, hrepositories, hworkspaces⟩ : ∃ u : State, u = { s with workspaces := s.workspaces.erase workspace } ∧
          u.entries = s.entries ∧ u.repositories = s.repositories ∧ u.workspaces = s.workspaces.erase workspace :=
        ⟨_, rfl, rfl, rfl, rfl⟩
      rw [← hu]
      constructor
      case calls => rw [hu]; rfl
      case table =>
        intro root e hroot
        rw [← hrepositories]
        exact .inl (removed hroot)
      case dropped =>
        intro e repo repo' hrepo hrepo' hlive hc
        obtain ⟨root, hroot, horphan⟩ := orphaned (hentries ▸ hrepo) hrepo' hlive hc
        rw [hrepositories] at hroot
        refine ⟨root, hroot, slot, hslot, hgeneration, fun ws slot' hg hroot' => ?_⟩
        by_cases hws : ws = workspace
        · exact hws
        · refine absurd (retained_iff.2 ⟨ws, slot', ?_, hroot'⟩) (Bool.eq_false_iff.1 horphan)
          rw [hworkspaces, get_erase, if_neg hws, hg]
    · exact turns_self s _

theorem enrolled_old (h : Bound s) (identity : Option WorkspaceIdentity) {repo : Repository}
    (hrepo : s.entries.get e = some repo) : ∃ repo', (s.enrolled identity).entries.get e = some repo' ∧
      (repo'.cancelled = repo.cancelled ∨
        ∃ made, identity = some made ∧ s.repositories.get made.canonicalPath = some e ∧ s.knows made = false) := by
  cases identity with
  | none => exact ⟨repo, hrepo, .inl rfl⟩
  | some made =>
    simp only [State.enrolled]
    split
    · exact ⟨repo, hrepo, .inl rfl⟩
    · rename_i hknows
      have hne : ¬e = s.nextEntry := by
        rintro rfl
        rw [h.fresh _ (Nat.le_refl _)] at hrepo
        cases hrepo
      rw [get_replace, if_neg hne, hrepo, map_some]
      refine ⟨_, rfl, ?_⟩
      by_cases hold : s.repositories.get made.canonicalPath = some e
      · exact .inr ⟨made, rfl, hold, Bool.eq_false_iff.2 hknows⟩
      · rw [if_neg hold]
        exact .inl rfl

theorem enrolled_table (s : State) (identity : Option WorkspaceIdentity) {root : String}
    (h : (s.enrolled identity).repositories.get root = some e) : s.repositories.get root = some e ∨
      ∃ made repo, identity = some made ∧ s.knows made = false ∧ made.canonicalPath = root ∧
        (s.enrolled identity).entries.get e = some repo ∧ repo.identity = made := by
  cases identity with
  | none => exact .inl h
  | some made =>
    simp only [State.enrolled] at h ⊢
    split at h
    · exact .inl h
    · rename_i hknows
      rw [repositories_replace, get_insert s.repositories] at h
      split at h
      · rename_i hroot
        cases h
        refine .inr ⟨made, .new made, rfl, Bool.eq_false_iff.2 hknows, hroot.symm, ?_, rfl⟩
        rw [if_neg hknows, get_replace, if_pos rfl]
      · exact .inl h

theorem turns_bound (h : Bound s) {slot : Workspace} {identity : Option WorkspaceIdentity} {disk : Disk}
    (hslot : s.workspaces.get workspace = some slot) (hd : State.detected disk environment = .ok identity) :
    Turns s (s.bound workspace slot identity watcher) (.finish workspace slot.generation environment watcher disk) := by
  have hkept := kept_enrolled h identity
  obtain ⟨hworkspaces, -⟩ := workspaces_enrolled s identity
  have hmakes : ∀ made, identity = some made → s.knows made = false →
      s.makes (.finish workspace slot.generation environment watcher disk) = some made := by
    rintro made rfl hknows
    simp [State.makes, hd, hslot, hknows]
  obtain ⟨u, hbound, hcalls, hentries, hrepositories, hown, hothers⟩ : ∃ u : State,
      s.bound workspace slot identity watcher = u.removeOrphans ∧ u.calls = s.calls ∧
        u.entries = (s.enrolled identity).entries ∧ u.repositories = (s.enrolled identity).repositories ∧
        (∃ slot', u.workspaces.get workspace = some slot' ∧ slot'.root = identity.map WorkspaceIdentity.canonicalPath) ∧
        ∀ ws, ws ≠ workspace → u.workspaces.get ws = s.workspaces.get ws := by
    refine ⟨_, rfl, hkept.calls, rfl, rfl, ⟨_, get_insert_self _ _ _, rfl⟩, fun ws hws => ?_⟩
    simp only [get_insert, if_neg hws, hworkspaces]
  rw [hbound]
  obtain ⟨slot', hslot', hroot'⟩ := hown
  constructor
  case calls => exact hcalls
  case dropped =>
    intro e repo repo' hrepo hrepo' hlive hc
    obtain ⟨mid, hmid, hsame⟩ := enrolled_old h identity hrepo
    rcases hsame with hsame | ⟨made, hmade, hroot, hknows⟩
    · obtain ⟨root, hroot, horphan⟩ := orphaned (hentries ▸ hmid) hrepo' (hsame.trans hlive) hc
      rw [hrepositories] at hroot
      rcases enrolled_table s identity hroot with hroot | ⟨made, repo₂, rfl, -, rfl, -, -⟩
      · refine ⟨root, hroot, slot, identity, hslot, rfl, hd, .inl ⟨fun ws other hg hother => ?_, fun hpath => ?_⟩⟩
        · by_cases hws : ws = workspace
          · exact hws
          · refine absurd (retained_iff.2 ⟨ws, other, ?_, hother⟩) (Bool.eq_false_iff.1 horphan)
            rw [hothers ws hws, hg]
        · exact absurd (retained_iff.2 ⟨workspace, slot', hslot', hroot'.trans hpath⟩) (Bool.eq_false_iff.1 horphan)
      · exact absurd (retained_iff.2 ⟨workspace, slot', hslot', hroot'⟩) (Bool.eq_false_iff.1 horphan)
    · exact ⟨_, hroot, slot, identity, hslot, rfl, hd, .inr ⟨made, hmade, rfl, hknows⟩⟩
  case table =>
    intro root e hroot
    have hroot := removed hroot
    rw [hrepositories] at hroot
    rcases enrolled_table s identity hroot with hold | ⟨made, repo, hmade, hknows, -, hrepo, hi⟩
    · exact .inl hold
    · obtain ⟨repo', hrepo', hi', -⟩ := (kept_removeOrphans u).old e repo (hentries ▸ hrepo)
      exact .inr ⟨made, repo', hmakes made hmade hknows, hrepo', hi'.trans hi⟩

theorem turns_finish (h : Bound s) {disk : Disk} {done : Bool}
    (hf : s.finish workspace generation environment watcher disk = .ok (done, t)) :
    Turns s t (.finish workspace generation environment watcher disk) := by
  unfold State.finish at hf
  split at hf
  · cases hf
  · rename_i identity hd
    split at hf
    · cases hf
      exact turns_self s _
    · rename_i slot hslot
      split at hf
      · rename_i hgeneration
        cases hf
        exact hgeneration ▸ turns_bound h hslot hd
      · cases hf
        exact turns_self s _

/-! ## One entry for a repository -/

/-- Calls of a kind that share a repository share its entry, and it is the table's. -/
structure Alone (kind : Phase → Bool) (s : State) : Prop where
  single : ∀ id call repo e repo', s.calls.get id = some call → call.exclusive = true → kind call.phase = true →
    s.entries.get call.entry = some repo → s.repositories.get repo.identity.canonicalPath = some e →
    s.entries.get e = some repo' → repo'.identity = repo.identity → e = call.entry
  paired : ∀ id call repo id' call' repo', s.calls.get id = some call → call.exclusive = true → kind call.phase = true →
    s.entries.get call.entry = some repo → s.calls.get id' = some call' → call'.exclusive = true →
    kind call'.phase = true → s.entries.get call'.entry = some repo' → repo.identity = repo'.identity →
    call.entry = call'.entry

theorem alone_new (kind : Phase → Bool) : Alone kind State.new := by
  constructor
  case single =>
    intro id call repo e repo' hg
    cases hg
  case paired =>
    intro id call repo id' call' repo' hg
    cases hg

/-- A step that makes no entry: who comes to be of the kind was so before, or has the entry of the table. -/
theorem Alone.step {kind : Phase → Bool} (h : Alone kind s) (hb : Bound s) (hr : t.repositories = s.repositories)
    (he : ∀ e, (t.entries.get e).map Repository.tag = (s.entries.get e).map Repository.tag)
    (hcalls : ∀ id call, t.calls.get id = some call → call.exclusive = true → kind call.phase = true →
      (∃ id old, s.calls.get id = some old ∧ old.exclusive = true ∧ kind old.phase = true ∧ old.entry = call.entry) ∨
        ∃ repo, s.entries.get call.entry = some repo ∧ repo.cancelled = false) : Alone kind t := by
  have hback : ∀ e repo', t.entries.get e = some repo' → ∃ repo, s.entries.get e = some repo ∧ repo'.identity = repo.identity := by
    intro e repo' hrepo'
    have htag := he e
    rw [hrepo', map_some] at htag
    obtain ⟨repo, hrepo, heq⟩ := map_eq_some_iff.1 htag.symm
    exact ⟨repo, hrepo, (Prod.mk.inj heq).1.symm⟩
  -- A call whose entry is not cancelled has the entry of the table.
  have htable : ∀ {entry repo}, s.entries.get entry = some repo →
      (∃ repo, s.entries.get entry = some repo ∧ repo.cancelled = false) →
      s.repositories.get repo.identity.canonicalPath = some entry := by
    rintro entry repo hrepo ⟨repo', hrepo', hlive⟩
    cases hrepo.symm.trans hrepo'
    exact hb.live _ _ hrepo hlive
  constructor
  case single =>
    intro id call repo' e repo₂' hg hx hk hrepo' hroot hrepo₂' hi
    obtain ⟨repo, hrepo, heq⟩ := hback _ repo' hrepo'
    obtain ⟨repo₂, hrepo₂, heq₂⟩ := hback _ repo₂' hrepo₂'
    rw [hr, heq] at hroot
    rcases hcalls id call hg hx hk with ⟨id₀, old, hold, hx₀, hk₀, hentry⟩ | hlive
    · rw [← hentry] at hrepo ⊢
      exact h.single id₀ old repo e repo₂ hold hx₀ hk₀ hrepo hroot hrepo₂ (heq₂.symm.trans (hi.trans heq))
    · exact Option.some.inj (hroot.symm.trans (htable hrepo hlive))
  case paired =>
    intro id call repo' id₂ call₂ repo₂' hg hx hk hrepo' hg₂ hx₂ hk₂ hrepo₂' hi
    obtain ⟨repo, hrepo, heq⟩ := hback _ repo' hrepo'
    obtain ⟨repo₂, hrepo₂, heq₂⟩ := hback _ repo₂' hrepo₂'
    have hsame : repo.identity = repo₂.identity := heq.symm.trans (hi.trans heq₂)
    rcases hcalls id call hg hx hk with ⟨id₀, old, hold, hx₀, hk₀, hentry⟩ | hlive
    · rcases hcalls id₂ call₂ hg₂ hx₂ hk₂ with ⟨id₁, old₁, hold₁, hx₁, hk₁, hentry₁⟩ | hlive₂
      · rw [← hentry] at hrepo ⊢
        rw [← hentry₁] at hrepo₂ ⊢
        exact h.paired id₀ old repo id₁ old₁ repo₂ hold hx₀ hk₀ hrepo hold₁ hx₁ hk₁ hrepo₂ hsame
      · rw [← hentry] at hrepo ⊢
        have hroot := htable hrepo₂ hlive₂
        rw [← hsame] at hroot
        exact (h.single id₀ old repo _ repo₂ hold hx₀ hk₀ hrepo hroot hrepo₂ hsame.symm).symm
    · have hroot := htable hrepo hlive
      rcases hcalls id₂ call₂ hg₂ hx₂ hk₂ with ⟨id₁, old₁, hold₁, hx₁, hk₁, hentry₁⟩ | hlive₂
      · rw [← hentry₁] at hrepo₂ ⊢
        rw [hsame] at hroot
        exact h.single id₁ old₁ repo₂ _ repo hold₁ hx₁ hk₁ hrepo₂ hroot hrepo hsame
      · have hroot₂ := htable hrepo₂ hlive₂
        rw [hsame] at hroot
        exact Option.some.inj (hroot.symm.trans hroot₂)

/-- No mutation of the kind is under an earlier entry when one is made. -/
def Apart (kind : Phase → Bool) (x : Transition State Action) : Prop :=
  ∀ identity, x.src.makes x.label = some identity → ∀ id call repo, x.src.calls.get id = some call →
    call.exclusive = true → kind call.phase = true → x.src.entries.get call.entry = some repo → repo.identity ≠ identity

variable {kind : Phase → Bool}

theorem Alone.turns (h : Alone kind s) (hs : Sound s) (hk : Kept s t) (ht : Turns s t a)
    (hapart : Apart kind ⟨s, a, t⟩) : Alone kind t := by
  have hback : ∀ id call repo', s.calls.get id = some call → t.entries.get call.entry = some repo' →
      ∃ repo, s.entries.get call.entry = some repo ∧ repo'.identity = repo.identity := by
    intro id call repo' hg hrepo'
    obtain ⟨repo, hrepo⟩ := hs.held.entry id call hg
    obtain ⟨repo₂, hrepo₂, hi, -⟩ := hk.old _ repo hrepo
    cases hrepo'.symm.trans hrepo₂
    exact ⟨repo, hrepo, hi⟩
  constructor
  case single =>
    intro id call repo' e repo₂' hg hx hkind hrepo' hroot hrepo₂' hi
    rw [hk.calls] at hg
    obtain ⟨repo, hrepo, heq⟩ := hback id call repo' hg hrepo'
    rcases ht.table _ e hroot with hroot | ⟨identity, made, hmakes, hmade, hidentity⟩
    · obtain ⟨repo₂, hrepo₂, -⟩ := hs.bound.table _ e hroot
      obtain ⟨repo₃, hrepo₃, heq₃, -⟩ := hk.old e repo₂ hrepo₂
      cases hrepo₂'.symm.trans hrepo₃
      rw [heq] at hroot
      exact h.single id call repo e repo₂ hg hx hkind hrepo hroot hrepo₂ (heq₃.symm.trans (hi.trans heq))
    · cases hmade.symm.trans hrepo₂'
      exact absurd (heq.symm.trans (hi.symm.trans hidentity)) (hapart identity hmakes id call repo hg hx hkind hrepo)
  case paired =>
    intro id call repo' id₂ call₂ repo₂' hg hx hkind hrepo' hg₂ hx₂ hkind₂ hrepo₂' hi
    rw [hk.calls] at hg hg₂
    obtain ⟨repo, hrepo, heq⟩ := hback id call repo' hg hrepo'
    obtain ⟨repo₂, hrepo₂, heq₂⟩ := hback id₂ call₂ repo₂' hg₂ hrepo₂'
    exact h.paired id call repo id₂ call₂ repo₂ hg hx hkind hrepo hg₂ hx₂ hkind₂ hrepo₂ (heq.symm.trans (hi.trans heq₂))

/-! ## What a step can be -/

variable {call : Call}

theorem entered (h : Bound s) {requested : String} {exclusive : Bool} {disk : Disk}
    (he : s.enter requested exclusive disk = .ok call) :
    call.phase = .waiting ∧ ∃ repo, s.entries.get call.entry = some repo ∧ repo.cancelled = false := by
  unfold State.enter at he
  split at he
  · cases he
  · split at he
    · cases he
    · rename_i entry hentry
      cases he
      obtain ⟨repo, hrepo, -, hlive⟩ := h.table _ _ hentry
      exact ⟨rfl, repo, hrepo, hlive⟩

theorem step_cases (h : Sound s) (hn : next s a = some t) :
    (∃ id call call', Moves s t id call call' ∧ Advances s a call call'.phase) ∨ (Kept s t ∧ Turns s t a) ∨
      (∃ id call, t = s.put id call ∧ call.phase = .waiting ∧
        ∃ repo, s.entries.get call.entry = some repo ∧ repo.cancelled = false) ∨
      (t.calls = s.calls ∧ t.entries = s.entries ∧ t.repositories = s.repositories ∧ t.workspaces = s.workspaces ∧
        t.generation = s.generation) := by
  by_cases hcall : ∃ id, a.call = some id
  · obtain ⟨id, ha⟩ := hcall
    obtain ⟨call, call', hm, had⟩ := moves_step h.held ha hn
    exact .inl ⟨id, call, call', hm, had⟩
  · right
    cases a with
    | begin workspace =>
      simp only [next] at hn
      split at hn
      · cases hn
        exact .inl ⟨.refl s, turns_self s _⟩
      · rename_i generation u hb
        cases hn
        exact .inl ⟨kept_begin hb, turns_begin hb⟩
    | finish workspace generation environment watcher disk =>
      simp only [next] at hn
      split at hn
      · cases hn
        exact .inl ⟨.refl s, turns_self s _⟩
      · rename_i done u hf
        cases hn
        exact .inl ⟨kept_finish h.bound hf, turns_finish h.bound hf⟩
    | close workspace generation =>
      cases hn
      exact .inl ⟨kept_close s _ _, turns_close _ _⟩
    | enter id requested exclusive disk =>
      simp only [next] at hn
      split at hn
      · cases hn
      · split at hn
        · cases hn
          exact .inl ⟨.refl s, turns_self s _⟩
        · rename_i call he
          cases hn
          obtain ⟨hp, hlive⟩ := entered h.bound he
          exact .inr (.inl ⟨id, call, rfl, hp, hlive⟩)
    | acquireJob =>
      obtain ⟨jobs, -, rfl⟩ := map_eq_some_iff.1 hn
      exact .inr (.inr ⟨rfl, rfl, rfl, rfl, rfl⟩)
    | dropJob =>
      simp only [next] at hn
      split at hn
      · cases hn
        exact .inr (.inr ⟨rfl, rfl, rfl, rfl, rfl⟩)
      · cases hn
    | take id | busy id | check id | observe id | start id | stop id | release id => exact absurd ⟨id, rfl⟩ hcall

/-- A kind into which a call comes only with the entry of the table. -/
def Entered (kind : Phase → Bool) : Prop :=
  ∀ (s : State) (a : Action) (call : Call) (phase : Phase), Advances s a call phase → kind phase = true →
    kind call.phase = true ∨ ∃ repo, s.entries.get call.entry = some repo ∧ repo.cancelled = false

theorem alone_step (hkind : Entered kind) (hs : Sound s) (h : Alone kind s)
    (hn : next s a = some t) (hapart : Apart kind ⟨s, a, t⟩) : Alone kind t := by
  rcases step_cases hs hn with ⟨id, call, call', hm, had⟩ | ⟨hk, ht⟩ | ⟨id, call, rfl, hp, hlive⟩ | ⟨hc, he, hr, -, -⟩
  · refine h.step hs.bound hm.repositories (hm.tag hs.held) fun id' c hg hx hkc => ?_
    rw [hm.calls, get_insert s.calls] at hg
    split at hg
    · cases hg
      rw [hm.exclusive] at hx
      rw [hm.entry]
      rcases hkind s a call call'.phase had hkc with hold | hlive
      · exact .inl ⟨id, call, hm.before, hx, hold, rfl⟩
      · exact .inr hlive
    · exact .inl ⟨id', c, hg, hx, hkc, rfl⟩
  · exact h.turns hs hk ht hapart
  · refine h.step hs.bound rfl (fun _ => rfl) fun id' c hg hx hkc => ?_
    simp only [State.put, get_insert s.calls] at hg
    split at hg
    · cases hg
      exact .inr hlive
    · exact .inl ⟨id', c, hg, hx, hkc, rfl⟩
  · refine h.step hs.bound hr (fun e => by rw [he]) fun id' c hg hx hkc => ?_
    rw [hc] at hg
    exact .inl ⟨id', c, hg, hx, hkc, rfl⟩

variable {l : List (Transition State Action)}

theorem alone_run (hkind : Entered kind) (h : Run l s) (hapart : ∀ x ∈ l, Apart kind x) : Alone kind s := by
  refine Trace.history (P := fun l s => (∀ x ∈ l, Apart kind x) → Alone kind s) ?_ ?_ h hapart
  · intro s h0 _
    exact h0 ▸ alone_new kind
  · intro l s a t hl ih hst hall
    have hs := ih fun x hx => hall x (mem_append_left _ hx)
    exact alone_step hkind (sound_run hl) hs hst (hall _ mem_concat_self)

theorem entered_active : Entered Phase.active := by
  intro s a call phase had hp
  cases had with
  | same => exact .inl hp
  | checked hw repo hrepo hc => exact .inr ⟨repo, hrepo, hc⟩
  | verified hw | running _ hw => exact .inl (by rw [hw]; rfl)
  | leaving | returned => cases hp

def Phase.underWay : Phase → Bool
  | .returned _ => false
  | _ => true

theorem underWay_of_early {phase : Phase} (h : phase.early = true) : phase.underWay = true := by
  cases phase with
  | returned outcome => cases h
  | _ => rfl

theorem entered_underWay : Entered Phase.underWay := by
  intro s a call phase had hp
  cases had with
  | same => exact .inl hp
  | checked hw repo hrepo hc => exact .inr ⟨repo, hrepo, hc⟩
  | verified hw | running _ hw => exact .inl (by rw [hw]; rfl)
  | leaving outcome he => exact .inl (underWay_of_early he)
  | returned outcome o hw => cases hp

/-! ## Limits -/

def Exclusive (s : State) : Prop :=
  ∀ id call repo id' call' repo', s.calls.get id = some call → call.exclusive = true → call.phase = .running →
    s.entries.get call.entry = some repo → s.calls.get id' = some call' → call'.exclusive = true →
    call'.phase = .running → s.entries.get call'.entry = some repo' → repo.identity = repo'.identity → id = id'

variable {id : Nat} {x : Transition State Action}

theorem Sound.locked (h : Sound s) {id' : Nat} {call' : Call} (hg : s.calls.get id = some call)
    (hx : call.exclusive = true) (hp : call.phase.active = true) (hg' : s.calls.get id' = some call')
    (hx' : call'.exclusive = true) (hp' : call'.phase.active = true) (he : call.entry = call'.entry) : id = id' := by
  obtain ⟨repo, hrepo⟩ := h.held.entry id call hg
  have hcount := h.held.operation _ repo hrepo
  have hone : (s.calls.count fun _ c => c.has .operation call.entry) ≤ 1 := by
    rw [← hcount]
    cases repo.operation with
    | false => exact Nat.zero_le _
    | true => exact Nat.le_refl _
  have hheld := (h.held.shaped id call hg).active hp
  have hheld' := (h.held.shaped id' call' hg').active hp'
  rw [hx] at hheld
  rw [hx'] at hheld'
  exact eq_of_count_le_one hone hg (by simp [Call.has, hheld, slots]) hg' (by simp [Call.has, hheld', slots, he])

theorem exclusive_of_alone (h : Sound s) (ha : Alone Phase.active s) : Exclusive s := by
  intro id call repo id' call' repo' hg hx hp hrepo hg' hx' hp' hrepo' hi
  have hactive : call.phase.active = true := by rw [hp]; rfl
  have hactive' : call'.phase.active = true := by rw [hp']; rfl
  exact h.locked hg hx hactive hg' hx' hactive'
    (ha.paired id call repo id' call' repo' hg hx hactive hrepo hg' hx' hactive' hrepo' hi)

def State.admitted (s : State) (identity : WorkspaceIdentity) : Nat :=
  s.calls.count fun _ call => decide (Slot.admission ∈ call.held) &&
    (s.entries.get call.entry).any fun repo => decide (repo.identity = identity)

theorem admits (h : Sound s) (hg : s.calls.get id = some call) (hm : Slot.admission ∈ call.held) :
    call.exclusive = true ∧ call.phase.underWay = true := by
  have hshaped := h.held.shaped id call hg
  constructor
  · have hmem : Slot.admission ∈ slots call.exclusive := by
      refine hshaped.slots.subset ?_
      rw [hshaped.order]
      exact mem_append_right _ hm
    cases hx : call.exclusive with
    | true => rfl
    | false =>
      rw [hx] at hmem
      simp [slots] at hmem
  · cases hp : call.phase with
    | returned outcome =>
      rw [hshaped.returned outcome hp] at hm
      cases hm
    | _ => rfl

theorem admitted_le (h : Sound s) (ha : Alone Phase.underWay s) (identity : WorkspaceIdentity) :
    s.admitted identity ≤ MAX_GIT_JOBS := by
  by_cases hzero : s.admitted identity = 0
  · rw [hzero]
    exact Nat.zero_le _
  · obtain ⟨⟨id, call⟩, hmem, hcall⟩ := countP_pos_iff.1 (Nat.pos_of_ne_zero hzero)
    have hg := get_eq_some.2 hmem
    simp only [Bool.and_eq_true, decide_eq_true_eq, Option.any_eq_true] at hcall
    obtain ⟨hm, repo, hrepo, hi⟩ := hcall
    obtain ⟨hx, hp⟩ := admits h hg hm
    obtain ⟨hrunning, hmax⟩ := h.held.admission _ repo hrepo
    rw [hrunning] at hmax
    refine Nat.le_trans (count_mono fun id' call' hg' hcall' => ?_) hmax
    simp only [Bool.and_eq_true, decide_eq_true_eq, Option.any_eq_true] at hcall'
    obtain ⟨hm', repo', hrepo', hi'⟩ := hcall'
    obtain ⟨hx', hp'⟩ := admits h hg' hm'
    have hsame := ha.paired id' call' repo' id call repo hg' hx' hp' hrepo' hg hx hp hrepo (hi'.trans hi.symm)
    simp [Call.has, hsame, hm']

theorem running_le (h : Sound s) : (s.calls.count fun _ call => call.phase.active) + s.detecting ≤ MAX_GIT_JOBS := by
  have hle : (s.calls.count fun _ call => call.phase.active) ≤ s.calls.count fun _ call => decide (Slot.job ∈ call.held) := by
    refine count_mono fun id call hg hp => ?_
    have hheld := (h.held.shaped id call hg).active hp
    cases hx : call.exclusive with
    | true | false => simp [hheld, slots, hx]
  have hjobs := h.held.jobs
  have hmax := h.held.jobsMax
  omega

/-! ## Starts -/

def Phase.starting : Phase → Bool
  | .checked | .verified _ => true
  | _ => false

/-- No entry is dropped under an operation that is about to start. -/
def Unhurried (x : Transition State Action) : Prop :=
  ∀ id call, x.src.calls.get id = some call → call.phase.starting = true → ¬Drops x.src x.label call.entry

/-- The entry of an operation that is about to start is not cancelled. -/
def Current (s : State) : Prop :=
  ∀ id call repo, s.calls.get id = some call → call.phase.starting = true → s.entries.get call.entry = some repo →
    repo.cancelled = false

theorem current_step (hs : Sound s) (h : Current s) (hn : next s a = some t) (hu : Unhurried ⟨s, a, t⟩) :
    Current t := by
  intro id' c repo' hg hp hrepo'
  rcases step_cases hs hn with ⟨id, call, call', hm, had⟩ | ⟨hk, ht⟩ | ⟨id, call, rfl, hphase, hlive⟩ | ⟨hc, he, -, -, -⟩
  · have htag := hm.tag hs.held c.entry
    rw [hrepo', map_some] at htag
    obtain ⟨repo, hrepo, heq⟩ := map_eq_some_iff.1 htag.symm
    rw [← (Prod.mk.inj heq).2]
    rw [hm.calls, get_insert s.calls] at hg
    split at hg
    · cases hg
      rw [hm.entry] at hrepo
      have hold : ∀ old, call.phase = old → old.starting = true → repo.cancelled = false := fun old ho hs' =>
        h id call repo hm.before (ho ▸ hs') hrepo
      generalize c.phase = phase at had hp
      cases had with
      | same => exact hold _ rfl hp
      | checked hw repo₂ hrepo₂ hc =>
        cases hrepo.symm.trans hrepo₂
        exact hc
      | verified hw | running _ hw => exact hold _ hw rfl
      | leaving | returned => cases hp
    · exact h id' c repo hg hp hrepo
  · rw [hk.calls] at hg
    obtain ⟨repo, hrepo⟩ := hs.held.entry id' c hg
    have hlive := h id' c repo hg hp hrepo
    cases hc : repo'.cancelled with
    | false => rfl
    | true => exact absurd (ht.dropped c.entry repo repo' hrepo hrepo' hlive hc) (hu id' c hg hp)
  · simp only [State.put, get_insert s.calls] at hg
    split at hg
    · cases hg
      rw [hphase] at hp
      cases hp
    · exact h id' c repo' hg hp hrepo'
  · rw [hc] at hg
    rw [he] at hrepo'
    exact h id' c repo' hg hp hrepo'

theorem current_run (h : Run l s) (hu : ∀ x ∈ l, Unhurried x) : Current s := by
  refine Trace.history (P := fun l s => (∀ x ∈ l, Unhurried x) → Current s) ?_ ?_ h hu
  · intro s h0 _ id call repo hg
    subst h0
    cases hg
  · intro l s a t hl ih hst hall
    have hs := ih fun x hx => hall x (mem_append_left _ hx)
    exact current_step (sound_run hl) hs hst (hall _ mem_concat_self)

def Observed (l : List (Transition State Action)) (s : State) : Prop :=
  ∀ id call identity, s.calls.get id = some call → call.phase = .verified identity →
    ∃ y ∈ l, ∃ id disk, y.label = .observe id disk ∧ observeIdentity disk call.requested = .ok identity

theorem observed_run (h : Run l s) : Observed l s := by
  refine Trace.history (P := Observed) ?_ ?_ h
  · intro s h0 id call identity hg
    subst h0
    cases hg
  · intro l s a t hl ih hst id' c identity hg hp
    have hpast : ∀ {c : Call}, s.calls.get id' = some c → c.phase = .verified identity →
        ∃ y ∈ l ++ [Transition.mk s a t], ∃ id disk, y.label = .observe id disk ∧ observeIdentity disk c.requested = .ok identity := by
      intro c hg hp
      obtain ⟨y, hy, hobserved⟩ := ih id' c identity hg hp
      exact ⟨y, mem_append_left _ hy, hobserved⟩
    rcases step_cases (sound_run hl) hst with ⟨id, call, call', hm, had⟩ | ⟨hk, -⟩ | ⟨id, call, rfl, hphase, -⟩ |
      ⟨hc, -, -, -, -⟩
    · rw [hm.calls, get_insert s.calls] at hg
      split at hg
      · rename_i hid
        cases hg
        rw [hm.requested]
        generalize c.phase = phase at had hp
        subst hp
        generalize hphase : Phase.verified identity = phase at had
        cases had with
        | same => exact hpast (hid ▸ hm.before) hphase.symm
        | checked | running | leaving | returned => cases hphase
        | verified hw id disk ha identity hi =>
          cases hphase
          exact ⟨_, mem_concat_self, id, disk, ha, hi⟩
      · exact hpast hg hp
    · rw [hk.calls] at hg
      exact hpast hg hp
    · simp only [State.put, get_insert s.calls] at hg
      split at hg
      · cases hg
        rw [hphase] at hp
        cases hp
      · exact hpast hg hp
    · rw [hc] at hg
      exact hpast hg hp

/-! ## Generations -/

/-- A workspace's generation is later than this one, if it has any. -/
def Newer (workspace : String) (generation : Nat) (s : State) : Prop :=
  generation < s.generation ∧ ∀ slot, s.workspaces.get workspace = some slot → generation < slot.generation

theorem begin_eq (hb : s.begin workspace = .ok (generation, t)) :
    generation = s.generation + 1 ∧ t.generation = generation ∧
      ∀ ws, t.workspaces.get ws = if ws = workspace then some { (s.workspaces.get workspace).getD ⟨generation, none, none⟩ with generation }
        else s.workspaces.get ws := by
  unfold State.begin at hb
  split at hb
  · cases hb
  · split at hb
    · cases hb
      exact ⟨rfl, rfl, fun ws => get_insert s.workspaces _ _ _⟩
    · cases hb

theorem generation_bound (s : State) (workspace : String) (slot : Workspace) (identity : Option WorkspaceIdentity)
    (watcher : Option Nat) : (s.bound workspace slot identity watcher).generation = s.generation ∧
      ∀ ws, (s.bound workspace slot identity watcher).workspaces.get ws =
        if ws = workspace then some { slot with root := identity.map WorkspaceIdentity.canonicalPath, watcher }
        else s.workspaces.get ws := by
  obtain ⟨hworkspaces, hgeneration⟩ := workspaces_enrolled s identity
  refine ⟨hgeneration, fun ws => ?_⟩
  have hget : (s.bound workspace slot identity watcher).workspaces = (s.enrolled identity).workspaces.insert workspace _ := rfl
  rw [hget, hworkspaces]
  exact get_insert s.workspaces _ _ _

theorem newer_step (hs : Sound s) (hn : next s a = some t)
    (h : Newer workspace generation s) : Newer workspace generation t := by
  cases a with
  | begin ws =>
    simp only [next] at hn
    split at hn
    · cases hn
      exact h
    · rename_i g u hb
      cases hn
      obtain ⟨rfl, hg, hget⟩ := begin_eq hb
      refine ⟨by rw [hg]; exact Nat.lt_succ_of_lt h.1, fun slot hslot => ?_⟩
      rw [hget] at hslot
      split at hslot
      · cases hslot
        exact Nat.lt_succ_of_lt h.1
      · exact h.2 slot hslot
  | finish ws g environment watcher disk =>
    simp only [next] at hn
    split at hn
    · cases hn
      exact h
    · rename_i done u hf
      cases hn
      unfold State.finish at hf
      split at hf
      · cases hf
      · split at hf
        · cases hf
          exact h
        · rename_i slot hslot
          split at hf
          · cases hf
            obtain ⟨hg, hget⟩ := generation_bound s ws slot _ watcher
            refine ⟨hg ▸ h.1, fun slot' hslot' => ?_⟩
            rw [hget] at hslot'
            split at hslot'
            · rename_i hws
              cases hslot'
              exact h.2 slot (hws ▸ hslot)
            · exact h.2 slot' hslot'
          · cases hf
            exact h
  | close ws g =>
    cases hn
    unfold State.close
    split
    · exact h
    · split
      · refine ⟨h.1, fun slot hslot => ?_⟩
        have hget : (s.workspaces.erase ws).get workspace = some slot := hslot
        rw [get_erase] at hget
        split at hget
        · cases hget
        · exact h.2 slot hget
      · exact h
  | enter id requested exclusive disk =>
    simp only [next] at hn
    split at hn
    · cases hn
    · split at hn
      · cases hn
        exact h
      · cases hn
        exact h
  | acquireJob =>
    obtain ⟨jobs, -, rfl⟩ := map_eq_some_iff.1 hn
    exact h
  | dropJob =>
    simp only [next] at hn
    split at hn
    · cases hn
      exact h
    · cases hn
  | _ =>
    obtain ⟨call, call', hm, -⟩ := moves_step hs.held rfl hn
    unfold Newer
    rw [hm.generation, hm.workspaces]
    exact h

/-- A `begin` that was answered with this generation. -/
def Begins (workspace : String) (generation : Nat) (x : Transition State Action) : Prop :=
  x.label = .begin workspace ∧ x.src.begin workspace = .ok (generation, x.dst)

theorem newer_begun (hb : Begins workspace generation x) : Newer workspace x.src.generation x.dst := by
  obtain ⟨rfl, hg, hget⟩ := begin_eq hb.2
  refine ⟨by omega, fun slot hslot => ?_⟩
  rw [hget, if_pos rfl] at hslot
  cases hslot
  exact Nat.lt_succ_self _

theorem outdated {generation' : Nat} (h : Newer workspace generation' s) (hle : generation ≤ generation')
    (ha : (∃ environment watcher disk, a = .finish workspace generation environment watcher disk) ∨ a = .close workspace generation)
    (hn : next s a = some t) : t = s := by
  have hne : ∀ slot, s.workspaces.get workspace = some slot → ¬slot.generation = generation := by
    intro slot hslot heq
    have hlt := h.2 slot hslot
    omega
  rcases ha with ⟨environment, watcher, disk, rfl⟩ | rfl
  · simp only [next] at hn
    split at hn
    · exact (Option.some.inj hn).symm
    · rename_i done u hf
      cases hn
      unfold State.finish at hf
      split at hf
      · cases hf
      · split at hf
        · exact (Prod.mk.inj (Except.ok.inj hf)).2.symm
        · rename_i slot hslot
          rw [if_neg (hne slot hslot)] at hf
          exact (Prod.mk.inj (Except.ok.inj hf)).2.symm
  · cases hn
    unfold State.close
    split
    · rfl
    · rename_i slot hslot
      rw [if_neg (hne slot hslot)]

/-! ## The conduct of the registry -/

/-- What holds after a run. -/
structure Conduct (l : List (Transition State Action)) (s : State) : Prop where
  running : (s.calls.count fun _ call => call.phase.active) + s.detecting ≤ MAX_GIT_JOBS
  /-- The roots in the table are those that the workspaces are bound to. -/
  roots : ∀ root, (∃ e, s.repositories.get root = some e) ↔
    ∃ ws slot, s.workspaces.get ws = some slot ∧ slot.root = some root
  /-- A `finish` or a `close` with a generation that the workspace has left changes nothing. -/
  outdated : ∀ past (x : Transition State Action) mid (y : Transition State Action) later workspace generation generation', l = past ++ x :: mid ++ y :: later →
    (∃ w ∈ past, Begins workspace generation w) → Begins workspace generation' x →
    ((∃ environment watcher disk, y.label = .finish workspace generation environment watcher disk) ∨
      y.label = .close workspace generation) → y.dst = y.src
  /-- The gates and the locks show what the calls hold. -/
  gates : ∀ e repo, s.entries.get e = some repo →
    repo.mutationAdmission.running = (s.calls.count fun _ call => call.has .admission e) ∧
      repo.operation.toNat = s.calls.count fun _ call => call.has .operation e
  jobs : s.jobs.running = (s.calls.count fun _ call => decide (Slot.job ∈ call.held)) + s.detecting
  /-- A call takes a slot once, and has given back what it does not hold; one that returned holds nothing. -/
  slots : ∀ id call, s.calls.get id = some call → call.taken.Nodup ∧ call.taken.reverse = call.given ++ call.held ∧
    ∀ outcome, call.phase = .returned outcome → call.given = call.taken.reverse
  exclusive : (∀ x ∈ l, Apart Phase.active x) → Exclusive s
  admitted : (∀ x ∈ l, Apart Phase.underWay x) → ∀ identity, s.admitted identity ≤ MAX_GIT_JOBS
  /-- An operation starts on what it observed, and under an entry of the table where none is dropped before. -/
  started : ∀ (past : List (Transition State Action)) (x : Transition State Action) later id,
    l = past ++ x :: later → x.label = .start id → ∃ call identity repo,
    x.src.calls.get id = some call ∧ x.src.entries.get call.entry = some repo ∧ repo.identity = identity ∧
      (∃ y ∈ past, ∃ id disk, y.label = .observe id disk ∧ observeIdentity disk call.requested = .ok identity) ∧
      ((∀ y ∈ past, Unhurried y) → x.src.repositories.get identity.canonicalPath = some call.entry ∧
        ∃ ws slot, x.src.workspaces.get ws = some slot ∧ slot.root = some identity.canonicalPath)

theorem Bound.root (h : Bound s) (root : String) : (∃ e, s.repositories.get root = some e) ↔
    ∃ ws slot, s.workspaces.get ws = some slot ∧ slot.root = some root := by
  rw [← contains_eq_true, h.roots root, retained_iff]

theorem started_run {past : List (Transition State Action)} (h : Run past s) (hn : next s (.start id) = some t) :
    ∃ call identity repo, s.calls.get id = some call ∧ s.entries.get call.entry = some repo ∧ repo.identity = identity ∧
      (∃ y ∈ past, ∃ id disk, y.label = .observe id disk ∧ observeIdentity disk call.requested = .ok identity) ∧
      ((∀ y ∈ past, Unhurried y) → s.repositories.get identity.canonicalPath = some call.entry ∧
        ∃ ws slot, s.workspaces.get ws = some slot ∧ slot.root = some identity.canonicalPath) := by
  have hs := sound_run h
  obtain ⟨call, hg, hn⟩ := bind_eq_some_iff.1 hn
  obtain ⟨repo, hrepo, hn⟩ := bind_eq_some_iff.1 hn
  simp only at hn
  split at hn
  · rename_i identity hp
    have hi := hs.held.verified id call identity hg hp repo hrepo
    refine ⟨call, identity, repo, hg, hrepo, hi, observed_run h id call identity hg hp, fun hu => ?_⟩
    have hlive := current_run h hu id call repo hg (by rw [hp]; rfl) hrepo
    have hroot := hs.bound.live _ repo hrepo hlive
    rw [hi] at hroot
    exact ⟨hroot, (hs.bound.root _).1 ⟨_, hroot⟩⟩
  · cases hn

theorem newer_run {past later : List (Transition State Action)} (h : Run l s) (hl : l = past ++ x :: later) (hx : Begins workspace generation x) :
    Newer workspace x.src.generation s := by
  obtain ⟨hpast, hstep⟩ := h.split hl
  have hboth : Sound s ∧ Newer workspace x.src.generation s := by
    refine h.persists (P := fun s => Sound s ∧ Newer workspace x.src.generation s) hl
      ⟨sound_step (sound_run hpast) hstep, newer_begun hx⟩ fun y _ hy hs => ?_
    exact ⟨sound_step hs.1 hy, newer_step hs.1 hy hs.2⟩
  exact hboth.2

namespace Sample

def disk : Disk := ⟨fun path => .ok (some path), fun _ => .ok "1:2", fun _ => true⟩

def bind (generation : Nat) : List Action := [.begin "/w", .finish "/w" generation (.ready "/w" "2.50") none disk]

def mutate (id : Nat) : List Action :=
  [.enter id "/w" true disk, .take id, .take id, .take id, .check id, .observe id disk]

def quiet : List Action :=
  bind 1 ++ mutate 1 ++ [Action.start 1, .stop 1 .done, .release 1, .release 1, .release 1, .release 1, .close "/w" 1]

/-- The workspace is closed and opened again while a mutation runs. -/
def reopened : List Action := bind 1 ++ mutate 1 ++ [Action.start 1, .close "/w" 1] ++ bind 2 ++ mutate 2 ++ [Action.start 2]

/-- The workspace is closed between the check of the flag and the start. -/
def late : List Action := bind 1 ++ mutate 1 ++ [Action.close "/w" 1, .start 1]

variable (acts : List Action)

def played : Option (List (Transition State Action) × State) :=
  Trace.play (fun s a => (next s a).map (Prod.mk a)) acts [] State.new

theorem run_of_played {s : State} (h : played acts = some (l, s)) : Run l s :=
  Trace.of_played rfl h

def ended : List (Transition State Action) × State := (played acts).getD ([], State.new)

theorem run_quiet : Run (ended quiet).1 (ended quiet).2 := run_of_played quiet rfl

theorem run_reopened : Run (ended reopened).1 (ended reopened).2 := run_of_played reopened rfl

theorem run_late : Run (ended late).1 (ended late).2 := run_of_played late rfl

end Sample

end GitRegistry
end Yuzora
