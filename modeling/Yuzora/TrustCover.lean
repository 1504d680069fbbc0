import Yuzora.TrustRuns
/-!
# TrustCover — authorizations are covered

What stands in memory and in the document is traced back to the run: a challenge to its issue, a bound root to its bind,
a record to the grant that wrote it.
-/
namespace Yuzora
namespace Trust

open List
open Pool

variable {l : List Event} {s t : Moment} {m : Move Command Reply Call} {x : Event} {challenge : Challenge}

/-! ## The past grows -/

theorem Consumption.snoc {g k : Nat} {since : List Event}
    (h : Consumption l g k challenge since) (x : Event) : Consumption (l ++ [x]) g k challenge (since ++ [x]) := by
  obtain ⟨past, issue, waiting, take, later, rfl, rfl, hi, hw, ht⟩ := h
  exact ⟨past, issue, waiting, take, later ++ [x], by simp, by simp, hi, hw, ht⟩

theorem Covered.snoc {pair : WorkspaceIdentity} (h : Covered l pair) (hx : ¬ Revokes pair.canonicalPath x) :
    Covered (l ++ [x]) pair := by
  obtain ⟨g, k, challenge, since, hc, hp, ⟨y, hy, hw⟩, hr⟩ := h
  refine ⟨g, k, challenge, since ++ [x], hc.snoc x, hp, ⟨y, mem_append_left _ hy, hw⟩, fun z hz => ?_⟩
  rcases mem_append.1 hz with hz | hz
  · exact hr z hz
  · rw [mem_singleton.1 hz]
    exact hx

theorem BoundTo.snoc {k : Nat} {root workspace : WorkspaceIdentity} (h : BoundTo l k root workspace) (x : Event) :
    BoundTo (l ++ [x]) k root workspace := by
  obtain ⟨b, path, hb⟩ := h
  exact ⟨b, path, hb.step x⟩

variable {k : Nat} {workspace : WorkspaceIdentity} {past later : List Event}

theorem BoundTo.append {root : WorkspaceIdentity} (h : BoundTo l k root workspace) (later : List Event) :
    BoundTo (l ++ later) k root workspace := by
  obtain ⟨b, path, xs, hs, hf⟩ := h
  exact ⟨b, path, xs, hs.trans (sublist_append_left _ _), hf⟩

/-! ## What one step does -/

theorem Runs.follows (h : Runs l s) (id : Nat) : Follows stores l s id := by
  obtain ⟨now, disk, hr⟩ := h
  exact Pool.Runs.follows hr id

theorem Runs.split (h : Runs l s) (hl : l = past ++ x :: later) :
    Runs past x.src ∧ stores.Step x.src x.label x.dst := by
  obtain ⟨now, disk, hr⟩ := h
  obtain ⟨hpast, hst⟩ := Trace.split hr hl
  exact ⟨⟨now, disk, hpast⟩, hst⟩

theorem Runs.history {P : List Event → Moment → Prop} (h0 : ∀ now disk, P [] ⟨fresh now disk, fun _ => none⟩)
    (h1 : ∀ l s m t, Runs l s → P l s → stores.Step s m t → P (l ++ [⟨s, m, t⟩]) t) (h : Runs l s) : P l s := by
  obtain ⟨now, disk, hr⟩ := h
  refine Trace.history (P := P) (fun u hu => ?_) (fun l u m v hl ih hst => h1 l u m v ⟨now, disk, hl⟩ ih hst) hr
  rw [hu]
  exact h0 now disk

variable {path : String}

/-- **After a revoke of a path has completed, no record of it is left.** -/
theorem step_revokes (hst : stores.Step s m t) (hr : Revokes path ⟨s, m, t⟩) :
    ∀ record ∈ records t.shared.file, record.canonicalPath ≠ path := by
  obtain ⟨id, call, canonicalPath, stopped, result, hm, hp⟩ := hr
  obtain rfl : m = _ := hm
  obtain ⟨chance, next, -, he, -⟩ := hst.own_inv
  intro record hmem heq
  have hgone := perform_revokeRecords (k := call.store) he record hmem
  rcases hp with hp | hp
  · exact hgone.1 (heq.trans hp)
  · exact hgone.2 (heq ▸ hp)

/-- **Where a record comes from**: its pair was in the document, or is granted now. -/
theorem record_cases (hst : stores.Step s m t) {record : TrustRecord} (hmem : record ∈ records t.shared.file) :
    (∃ old ∈ records s.shared.file, old.canonicalPath = record.canonicalPath ∧ old.fsIdentity = record.fsIdentity) ∨
      ∃ id call r, m = .own id call ⟨.persistGrant ⟨record.canonicalPath, record.fsIdentity⟩, r⟩ := by
  rcases hst.shared_cases with ⟨id, call, a, chance, rfl, he⟩ | ⟨-, hs⟩
  · rcases perform_file (k := call.store) he with hf | ⟨pair, r, grantedAt, rfl, hf⟩ | ⟨path, stopped, r, rfl, hf⟩
    · exact .inl ⟨record, hf ▸ hmem, rfl, rfl⟩
    · rw [hf] at hmem
      rcases mem_grantRecord hmem with hp | hold
      · exact .inr ⟨id, call, r, by rw [hp]⟩
      · exact .inl ⟨record, hold, rfl, rfl⟩
    · rw [hf] at hmem
      exact .inl ⟨record, (mem_dropRecords.1 hmem).1, rfl, rfl⟩
  · have hf : t.shared.file = s.shared.file := by
      rcases hs with hs | ⟨wind, hs⟩
      · rw [hs]
      · rw [hs]
        cases wind <;> rfl
    exact .inl ⟨record, hf ▸ hmem, rfl, rfl⟩

theorem find?_of_untouched (hst : stores.Step s m t) (hx : ¬ Touches path ⟨s, m, t⟩) :
    (records t.shared.file).find? (fun record => record.canonicalPath = path) =
      (records s.shared.file).find? fun record => record.canonicalPath = path := by
  rcases hst.shared_cases with ⟨id, call, a, chance, rfl, he⟩ | ⟨-, hs⟩
  · rcases perform_file (k := call.store) he with hf | ⟨pair, r, grantedAt, rfl, hf⟩ | ⟨revoked, stopped, r, rfl, hf⟩
    · rw [hf]
    · rw [hf]
      exact find?_grantRecord (fun hp => hx (.inl ⟨id, call, pair, r, rfl, hp.symm⟩)) _
    · rw [hf]
      exact find?_dropRecords (fun hp => hx (.inr ⟨id, call, revoked, stopped, r, rfl, .inl hp⟩))
        (fun hp => hx (.inr ⟨id, call, revoked, stopped, r, rfl, .inr hp⟩)) _
  · rcases hs with hs | ⟨wind, hs⟩
    · rw [hs]
    · rw [hs]
      cases wind <;> rfl

/-! ## What memory goes back to -/

/-- Every challenge was issued and not used since; every bound root was observed when it was bound. -/
structure Backed (l : List Event) (s : Moment) : Prop where
  challenges : ∀ k id challenge, (s.shared.stores k).challenges.get id = some challenge →
    challenge.id = id ∧ Since (Issues k challenge) (fun y => ¬ Uses k id y) l
  roots : ∀ k root workspace, (s.shared.stores k).sessionGitRoots.get root = some workspace →
    ∃ seen, seen.canonicalPath = root ∧ BoundTo l k seen workspace

theorem Backed.idle (h : Backed l s) (hs : t.shared.stores = s.shared.stores) (hm : ∀ id call a, m ≠ .own id call a) :
    Backed (l ++ [⟨s, m, t⟩]) t := by
  refine ⟨fun k id challenge hg => ?_, fun k root workspace hg => ?_⟩
  · obtain ⟨hid, hi⟩ := h.challenges k id challenge (hs ▸ hg)
    exact ⟨hid, hi.snoc fun ⟨g, op, r, hx⟩ => hm _ _ _ hx⟩
  · obtain ⟨seen, hseen, hb⟩ := h.roots k root workspace (hs ▸ hg)
    exact ⟨seen, hseen, hb.snoc _⟩

variable {op : Operation}

variable {id : Nat} {identity : WorkspaceIdentity} {root : String}

theorem boundTo_of_insert (hl : Runs l s)
    (hst : stores.Step s (.own id ⟨k, op⟩ ⟨.insertSessionGitRoot root workspace, ()⟩) t) :
    ∃ seen, seen.canonicalPath = root ∧
      BoundTo (l ++ [⟨s, .own id ⟨k, op⟩ ⟨.insertSessionGitRoot root workspace, ()⟩, t⟩]) k seen workspace := by
  obtain ⟨chance, next, hn, -, -⟩ := hst.own_inv
  have hasks := ((hl.follows id).along _ _ hn _ _ op.along).1
  obtain ⟨path, seen, rfl, hpast, rfl⟩ := hasks.insert root workspace rfl
  obtain ⟨before, y, after, hy, job, hlab⟩ := exists_of_mem_history (hpast ▸ mem_cons_self)
  obtain ⟨rest, hrest⟩ := (hl.follows id).jobs y (by simp [hy]) job _ hlab
  rw [hn] at hrest
  cases hrest
  refine ⟨seen, rfl, id, path, ?_⟩
  have hseen : Happened [fun x => x.label = .own id ⟨k, .bindSessionGitRoot workspace path⟩
      ⟨.observeIdentity path, .ok seen⟩] l :=
    ⟨[y], singleton_sublist.2 (by simp [hy]), List.Forall₂.cons hlab List.Forall₂.nil⟩
  exact hseen.snoc rfl

theorem Backed.step (hl : Runs l s) (h : Backed l s) (hst : stores.Step s m t) : Backed (l ++ [⟨s, m, t⟩]) t := by
  rcases hst.shared_cases with ⟨id, ⟨k, op⟩, a, chance, rfl, he⟩ | ⟨hm, hs⟩
  · refine ⟨fun j tok challenge hg => ?_, fun j root workspace hg => ?_⟩
    · rcases perform_challenges (k := k) he hg with ⟨hold, hne⟩ | ⟨rfl, ha, hid, hnow⟩
      · obtain ⟨hid, hi⟩ := h.challenges j tok challenge hold
        refine ⟨hid, hi.snoc fun ⟨g, op', r, hx⟩ => hne ?_⟩
        cases hx
        exact ⟨rfl, rfl⟩
      · exact ⟨hid, Since.now ⟨⟨id, op, by rw [ha, hid]⟩, hnow.symm⟩⟩
    · rcases perform_roots (k := k) he hg with hold | ⟨rfl, rfl⟩
      · obtain ⟨seen, hseen, hb⟩ := h.roots j root workspace hold
        exact ⟨seen, hseen, hb.snoc _⟩
      · exact boundTo_of_insert hl hst
  · refine h.idle ?_ hm
    rcases hs with hs | ⟨wind, hs⟩
    · rw [hs]
    · rw [hs]
      cases wind <;> rfl

theorem Runs.backed (h : Runs l s) : Backed l s := by
  refine h.history (P := Backed) (fun now disk => ⟨fun k id challenge hg => ?_, fun k root workspace hg => ?_⟩)
    fun l s m t hl ih hst => ih.step hl hst
  · cases hg
  · cases hg

/-- **A challenge that a grant took was issued, and was not used in between.** -/
theorem consumption_of_take {g : Nat} {id : String} (hl : Runs l s) (hsplit : l = past ++ x :: later)
    (hx : x.label = .own g ⟨k, op⟩ ⟨.takeChallenge id, .ok challenge⟩) :
    op = .grant challenge.id ∧ challenge.id = id ∧ ∃ since, Consumption l g k challenge since := by
  obtain ⟨hpast, hst⟩ := hl.split hsplit
  rw [hx] at hst
  obtain ⟨chance, next, hn, he, -⟩ := hst.own_inv
  have hop := ((hpast.follows g).along _ _ hn _ _ op.along).1.take id rfl
  obtain ⟨hget, hid, hexp⟩ := takeChallenge_ok (congrArg Prod.fst he)
  obtain ⟨-, before, issue, waiting, rfl, hissue, hunused⟩ := hpast.backed.challenges k id challenge hget
  subst hid
  refine ⟨hop, rfl, waiting ++ x :: later, before, issue, waiting, x, later, by rw [hsplit]; simp, rfl, hissue, hunused,
    ?_, hexp⟩
  rw [hx, hop]

/-! ## What the document goes back to -/

def AllHeeded (l : List Event) : Prop := ∀ past x later, l = past ++ x :: later → Heeded past x

theorem AllHeeded.init (h : AllHeeded (l ++ [x])) : AllHeeded l := fun past y later hl =>
  h past y (later ++ [x]) (by rw [hl]; simp)

/-- **A grant that heeds is covered.** -/
theorem covered_of_persist (hl : Runs l s) {call : Call} {pair : WorkspaceIdentity}
    {r : Reply (.persistGrant pair)} (hst : stores.Step s (.own id call ⟨.persistGrant pair, r⟩) t)
    (hh : Heeded l ⟨s, .own id call ⟨.persistGrant pair, r⟩, t⟩)
    (hc : ∀ record ∈ records s.shared.file, Covered l ⟨record.canonicalPath, record.fsIdentity⟩) :
    Covered (l ++ [⟨s, .own id call ⟨.persistGrant pair, r⟩, t⟩]) pair := by
  have hquiet : ¬ Revokes pair.canonicalPath ⟨s, .own id call ⟨.persistGrant pair, r⟩, t⟩ := by
    rintro ⟨_, _, _, _, _, hx, -⟩
    cases hx
  obtain ⟨chance, next, hn, -, -⟩ := hst.own_inv
  obtain ⟨k, op⟩ := call
  obtain ⟨tok, challenge, rfl, hpair, hpast⟩ := ((hl.follows id).along _ _ hn _ _ op.along).1.persist pair rfl
  obtain ⟨before, y, after, hy, job, hlab⟩ := exists_of_mem_history (hpast ▸ mem_cons_self)
  obtain ⟨rest, hrest⟩ := (hl.follows id).jobs y (by simp [hy]) job _ hlab
  rw [hn] at hrest
  cases hrest
  obtain ⟨-, rfl, since, hcons⟩ := consumption_of_take hl hy hlab
  rcases hh.fresh id k pair r challenge since rfl hpair hcons with hold | hfresh
  · obtain ⟨record, hmem, heq⟩ := hold.mem
    exact (heq ▸ hc record hmem).snoc hquiet
  · refine ⟨id, k, challenge, _, hcons.snoc _, hpair, ⟨_, mem_concat_self, r, rfl⟩,
      fun z hz => ?_⟩
    rcases mem_append.1 hz with hz | hz
    · exact hfresh z hz
    · rw [mem_singleton.1 hz]
      exact hquiet

theorem Runs.covered (h : Runs l s) : AllHeeded l →
    ∀ record ∈ records s.shared.file, Covered l ⟨record.canonicalPath, record.fsIdentity⟩ := by
  refine h.history (P := fun l s => AllHeeded l →
    ∀ record ∈ records s.shared.file, Covered l ⟨record.canonicalPath, record.fsIdentity⟩) ?_ ?_
  · intro now disk _ record hmem
    cases hmem
  · intro l s m t hl ih hst hh record hmem
    have hc := ih hh.init
    rcases record_cases hst hmem with ⟨old, hold, hp, hf⟩ | ⟨id, call, r, rfl⟩
    · have hcov := hc old hold
      rw [hp, hf] at hcov
      exact hcov.snoc fun hr => step_revokes hst hr record hmem rfl
    · exact covered_of_persist hl hst (hh l _ [] rfl) hc

theorem Runs.kept (h : Runs l s) : Kept l s := by
  refine h.history (P := Kept) ?_ ?_
  · intro now disk
    refine ⟨fun pair hs => ?_, fun path _ record hmem => ?_⟩
    · obtain ⟨past, x, later, hn, -⟩ := hs
      simp at hn
    · cases hmem
  · intro l s m t hl ih hst
    refine ⟨fun pair hs => ?_, fun path hs record hmem => ?_⟩
    · rcases hs.of_snoc with ⟨id, call, hm⟩ | ⟨hs, hx⟩
      · obtain rfl : m = _ := hm
        obtain ⟨chance, next, -, he, -⟩ := hst.own_inv
        exact perform_persistGrant (k := call.store) he
      · obtain ⟨record, hf, he⟩ := ih.granted pair hs
        exact ⟨record, by rw [find?_of_untouched hst hx, hf], he⟩
    · rcases hs.of_snoc with hr | ⟨hs, hx⟩
      · exact step_revokes hst hr record hmem
      · rcases record_cases hst hmem with ⟨old, hold, hp, -⟩ | ⟨id, call, r, rfl⟩
        · exact hp ▸ ih.revoked path hs old hold
        · exact fun hp => hx ⟨id, call, _, r, rfl, hp⟩

/-! ## Authorizations -/

theorem snoc_eq_snoc {α : Type} {as bs : List α} {a x y z : α} (h : as ++ [a] = bs ++ [x, y, z]) :
    as = bs ++ [x, y] ∧ a = z := by
  have h' : as ++ [a] = (bs ++ [x, y]) ++ [z] := by simpa using h
  exact ⟨append_inj_left' h' rfl, head_eq_of_cons_eq (append_inj_right' h' rfl)⟩

theorem snoc_eq_pair {α : Type} {as : List α} {a x y : α} (h : as ++ [a] = [x, y]) : as = [x] ∧ a = y :=
  ⟨append_inj_left' (h.trans (append_cons [] x [y])) rfl,
    head_eq_of_cons_eq (append_inj_right' (h.trans (append_cons [] x [y])) rfl)⟩

/-- **How an authorization came about**: the document trusts the pair, or a workspace that was bound to its path. -/
theorem authorizes_cases (hl : Runs l s)
    (hst : stores.Step s m t) (ha : Authorizes id k op identity ⟨s, m, t⟩) : t.shared = s.shared ∧
      (Holds (records s.shared.file) identity ∨ ∃ path workspace, op = .requireTrustedGit path ∧
        Holds (records s.shared.file) workspace ∧ ∃ before after : List (Asked Command Reply),
          history id l = before ++ ⟨.sessionGitRoot identity.canonicalPath, some workspace⟩ :: after) ∧
      ∀ path, op.authorizes path → ∃ r, m = .own id ⟨k, op⟩ ⟨.loadDocument, r⟩ := by
  obtain ⟨⟨a, hm⟩, hdone⟩ := ha
  obtain rfl : m = _ := hm
  obtain ⟨chance, next, hn, he, -⟩ := hst.own_inv
  have hends := (((hl.follows id).step hst).along _ _ hdone _ _ op.along) identity rfl
  rw [history_snoc, Move.asked?, if_pos rfl, Option.toList_some] at hends
  obtain ⟨path, document, ⟨hop, hlook, hpast⟩ | ⟨hop, workspace, before, hlook, hpast⟩⟩ := hends
  · obtain ⟨-, rfl⟩ := snoc_eq_pair hpast
    obtain ⟨hdoc, hsame⟩ := perform_loadDocument (k := k) he
    exact ⟨hsame, .inl (hdoc ▸ lookupIn_eq_trusted.1 hlook), fun _ _ => ⟨_, rfl⟩⟩
  · obtain ⟨hinit, rfl⟩ := snoc_eq_snoc hpast
    obtain ⟨hdoc, hsame⟩ := perform_loadDocument (k := k) he
    refine ⟨hsame, .inr ⟨path, workspace, hop, hdoc ▸ lookupIn_eq_trusted.1 hlook, before ++ [⟨.observeIdentity path, .ok identity⟩],
      [], ?_⟩, fun _ _ => ⟨_, rfl⟩⟩
    exact hinit.trans (append_cons _ _ _)

theorem boundTo_of_history
    {before after : List (Asked Command Reply)} {rest : Prog Command Reply TrustError Answer} (hl : Runs l s)
    (hn : s.threads id = some ⟨⟨k, op⟩, rest⟩)
    (hh : history id l = before ++ ⟨.sessionGitRoot root, some workspace⟩ :: after) :
    ∃ seen, seen.canonicalPath = root ∧ BoundTo l k seen workspace := by
  obtain ⟨past, y, later, hy, ⟨job, hlab⟩, -, -⟩ := exists_of_history hh
  obtain ⟨rest', hrest⟩ := (hl.follows id).jobs y (by simp [hy]) job _ hlab
  rw [hn] at hrest
  cases hrest
  obtain ⟨hpast, hst⟩ := hl.split hy
  rw [hlab] at hst
  obtain ⟨chance, next, -, he, -⟩ := hst.own_inv
  obtain ⟨seen, hseen, hb⟩ := hpast.backed.roots k root workspace (congrArg Prod.fst he)
  exact ⟨seen, hseen, hy ▸ hb.append _⟩

theorem allowed_of_authorizes (hl : Runs l s)
    (hst : stores.Step s m t) (hh : AllHeeded (l ++ [⟨s, m, t⟩])) (hop : op.authorizes path)
    (ha : Authorizes id k op identity ⟨s, m, t⟩) : Allowed (l ++ [⟨s, m, t⟩]) t k path := by
  have hnow := hh l _ [] rfl
  obtain ⟨hsame, hcase, hload⟩ := authorizes_cases hl hst ha
  obtain ⟨r, rfl⟩ := hload path hop
  have hcov : ∀ pair, Holds (records s.shared.file) pair →
      Covered (l ++ [⟨s, .own id ⟨k, op⟩ ⟨.loadDocument, r⟩, t⟩]) pair := by
    intro pair hp
    obtain ⟨record, hmem, heq⟩ := hp.mem
    refine (heq ▸ hl.covered hh.init record hmem).snoc ?_
    rintro ⟨_, _, _, _, _, hx, -⟩
    cases hx
  refine ⟨identity, by rw [hsame]; exact hnow.still id k op path identity hop ha, ?_⟩
  rcases hcase with hhold | ⟨path', workspace, rfl, hhold, before, after, hhist⟩
  · exact .inl (hcov identity hhold)
  · rcases hnow.bound id k path' identity workspace ha (by rw [hhist]; simp) with hself | ⟨hws, hroot⟩
    · exact .inl (hcov identity hself)
    · obtain ⟨chance, next, hn, -, -⟩ := hst.own_inv
      obtain ⟨seen, hseen, hb⟩ := boundTo_of_history hl hn hhist
      obtain rfl := hroot seen hb hseen
      exact .inr ⟨workspace, hb.snoc _, hcov workspace hhold, by rw [hsame]; exact hws⟩

/-- **Authorizations are covered, and no change is lost**, in every run whose steps all heed. -/
theorem authority_covered (h : Runs l s) (hh : AllHeeded l) :
    (∀ past x later, l = past ++ x :: later → ∀ id k op path identity, op.authorizes path →
      Authorizes id k op identity x → Allowed (past ++ [x]) x.dst k path) ∧ Kept l s := by
  refine ⟨fun past x later hl id k op path identity hop ha => ?_, h.kept⟩
  obtain ⟨hpast, hst⟩ := h.split hl
  refine allowed_of_authorizes hpast hst (fun p y q hp => ?_) hop ha
  exact hh p y (q ++ later) (by rw [hl, append_cons, hp]; simp)

/-! ## Two runs -/

/-- A run without revokes, whose authorizations are direct and come before anything is replaced. -/
structure Calm (x : Event) : Prop where
  revokes : ∀ path, ¬ Revokes path x
  direct : ∀ id k op identity, Authorizes id k op identity x →
    ∃ path, op = .requireTrusted path ∧ observeIdentity x.src.shared.disk path = .ok identity

theorem allHeeded_of_calm (h : ∀ x ∈ l, Calm x) : AllHeeded l := by
  intro past x later hl
  have hx := h x (by simp [hl])
  refine ⟨fun g k pair r challenge since _ _ hc => .inr fun y hy => ?_, fun id k op path identity hop ha => ?_,
    fun id k path identity workspace ha _ => ?_⟩
  · obtain ⟨before, issue, waiting, take, after, hpast, -⟩ := hc
    exact (h y (by simp [hl, hpast, hy])).revokes _
  · obtain ⟨path', hp, ho⟩ := hx.direct id k op identity ha
    rcases hop with rfl | rfl
    · cases hp
      exact ho
    · cases hp
  · obtain ⟨path', hp, -⟩ := hx.direct id k _ identity ha
    cases hp

namespace Sample

def disk : Disk := ⟨fun path => .ok (some path), fun _ => .ok "64:7", fun _ => false⟩
def pair : WorkspaceIdentity := ⟨"/work", "64:7"⟩
def chance : Chance := ⟨"token", Visit.plain, .none, 0, "1970-01-01T00:00:00Z"⟩

def outcome (turns : List (Turn Call Chance Surroundings)) : Option (List Event × Moment) :=
  Trace.play stores.next turns [] ⟨fresh 0 disk, fun _ => none⟩

theorem runs_outcome {turns : List (Turn Call Chance Surroundings)} (h : outcome turns = some (l, s)) : Runs l s :=
  ⟨0, disk, Trace.of_play step_of_next (.start rfl) h⟩

/-- `Calm`, as a computation. -/
def calm (x : Event) : Bool :=
  match x.label with
  | .own id call ⟨c, _⟩ =>
    (match c with
      | .revokeRecords _ _ => false
      | _ => true) &&
    match x.dst.threads id, call.operation with
    | some ⟨_, .done (.ok (.trusted identity))⟩, .requireTrusted path =>
      match observeIdentity x.src.shared.disk path with
      | .ok seen => seen = identity
      | .error _ => false
    | some ⟨_, .done (.ok (.trusted _))⟩, _ => false
    | _, _ => true
  | _ => true

theorem calm_sound (h : calm x = true) : Calm x := by
  refine ⟨fun path ⟨id, call, canonicalPath, stopped, result, hx, _⟩ => ?_, fun id k op identity ⟨⟨a, hx⟩, hd⟩ => ?_⟩
  · rw [calm, hx] at h
    simp at h
  · obtain ⟨c, r⟩ := a
    rw [calm, hx] at h
    dsimp only at h
    rw [hd] at h
    have h2 := (Bool.and_eq_true _ _ ▸ h).2
    cases op with
    | requireTrusted path =>
      refine ⟨path, rfl, ?_⟩
      dsimp only at h2
      split at h2
      · rename_i seen hs
        rw [hs, of_decide_eq_true h2]
      · cases h2
    | _ => cases h2

def granting : List (Turn Call Chance Surroundings) :=
  [.start 0 ⟨0, .issueWorkspaceChallenge "/work"⟩, .run 0 chance, .run 0 chance, .start 1 ⟨0, .grant "token"⟩,
    .run 1 chance, .run 1 chance, .run 1 chance, .start 2 ⟨0, .requireTrusted "/work"⟩, .run 2 chance, .run 2 chance]

/-- A revoke runs from its start to its end between two steps of a grant. -/
def resurrecting : List (Turn Call Chance Surroundings) :=
  [.start 0 ⟨0, .issueWorkspaceChallenge "/work"⟩, .run 0 chance, .run 0 chance, .start 1 ⟨0, .grant "token"⟩,
    .run 1 chance, .run 1 chance, .start 2 ⟨0, .revoke "/work"⟩, .run 2 chance, .run 2 chance, .run 2 chance,
    .run 2 chance, .run 1 chance, .start 3 ⟨0, .requireTrusted "/work"⟩, .run 3 chance, .run 3 chance]

def revokes (x : Event) : Bool :=
  match x.label with
  | .own _ _ ⟨.revokeRecords canonicalPath _, .ok _⟩ => canonicalPath = "/work"
  | _ => false

def issues (x : Event) : Bool :=
  match x.label with
  | .own _ _ ⟨.issueChallenge _ _, _⟩ => true
  | _ => false

def inserts (x : Event) : Bool :=
  match x.label with
  | .own _ _ ⟨.insertSessionGitRoot _ _, _⟩ => true
  | _ => false

theorem since_of_covered (h : Covered l pair) : since issues (fun x => !revokes x) l = true := by
  obtain ⟨g, k, challenge, later, ⟨past, issue, waiting, take, after, hl, -, hi, -⟩, -, -, hr⟩ := h
  refine Since.check (p := fun x => issues x = true) (q := fun x => ¬ Revokes "/work" x) ⟨past, issue, later, hl, ?_, hr⟩
    (fun _ => id) fun x hx => ?_
  · obtain ⟨⟨id, op, hlab⟩, -⟩ := hi
    rw [issues, hlab]
  · rw [revokes]
    split
    · rename_i id call canonicalPath stopped result hlab
      rw [Bool.not_eq_true', decide_eq_false_iff_not]
      exact fun hp => hx ⟨id, call, canonicalPath, stopped, result, hlab, .inl hp.symm⟩
    · rfl

theorem inserts_of_boundTo {root : WorkspaceIdentity} (h : BoundTo l k root workspace) : l.any inserts = true := by
  obtain ⟨b, path, hb⟩ := h
  obtain ⟨x, hx, hlab⟩ := hb.exists_of_mem (mem_cons_of_mem _ (mem_singleton_self _))
  exact any_eq_true.2 ⟨x, hx, by rw [inserts, hlab]⟩

def answers (id : Nat) (x : Event) : Bool :=
  match x.label, x.dst.threads id, observeIdentity x.dst.shared.disk "/work" with
  | .own id' call _, some ⟨job, .done (.ok (.trusted identity))⟩, .ok seen =>
    id' = id && call = ⟨0, .requireTrusted "/work"⟩ && job = call && identity = pair && seen = pair
  | _, _, _ => false

theorem answers_sound (h : answers id x = true) :
    Authorizes id 0 (.requireTrusted "/work") pair x ∧ observeIdentity x.dst.shared.disk "/work" = .ok pair := by
  rw [answers] at h
  split at h
  · rename_i id' call a job identity seen hlab hthread hseen
    simp only [Bool.and_eq_true, decide_eq_true_eq] at h
    obtain ⟨⟨⟨⟨rfl, rfl⟩, rfl⟩, rfl⟩, rfl⟩ := h
    exact ⟨⟨⟨a, hlab⟩, hthread⟩, hseen⟩
  · cases h

theorem exists_last (turns : List (Turn Call Chance Surroundings)) (p : List Event → Bool) (id : Nat)
    (h : ((outcome turns).bind fun r => r.1.getLast?.map fun x => p r.1 && answers id x) = some true) :
    ∃ l s past x, Runs l s ∧ l = past ++ [x] ∧ p l = true ∧ Authorizes id 0 (.requireTrusted "/work") pair x ∧
      observeIdentity x.dst.shared.disk "/work" = .ok pair := by
  obtain ⟨⟨l, s⟩, hrun, hl⟩ := Option.bind_eq_some_iff.1 h
  obtain ⟨x, hx, hp⟩ := Option.map_eq_some_iff.1 hl
  obtain ⟨past, hpast⟩ := getLast?_eq_some_iff.1 hx
  rw [Bool.and_eq_true] at hp
  exact ⟨l, s, past, x, runs_outcome hrun, hpast, hp.1, answers_sound hp.2⟩

end Sample

/-- A pair that is granted and asked about is authorized, and covered. -/
theorem authority_covered_granted : ∃ l s past x, Runs l s ∧ l = past ++ [x] ∧
    Authorizes 2 0 (.requireTrusted "/work") Sample.pair x ∧ Allowed l x.dst 0 "/work" := by
  obtain ⟨l, s, past, x, hr, hl, hp, ha, -⟩ := Sample.exists_last Sample.granting (fun l => l.all Sample.calm) 2 rfl
  have hh : AllHeeded l := allHeeded_of_calm fun y hy => Sample.calm_sound (all_eq_true.1 hp y hy)
  have hallowed := (authority_covered hr hh).1 past x [] hl 2 0 _ "/work" Sample.pair (.inl rfl) ha
  exact ⟨l, s, past, x, hr, hl, ha, hl ▸ hallowed⟩

/-- **A completed revoke is undone by a grant that took its challenge before**: the pair is authorized again, though no
challenge for it was issued since. -/
theorem revoke_undone : ¬ ∀ l s, Runs l s → ∀ past x later, l = past ++ x :: later → ∀ id k op path identity,
    Operation.authorizes op path → Authorizes id k op identity x → Allowed (past ++ [x]) x.dst k path := by
  intro claim
  obtain ⟨l, s, past, x, hr, hl, hp, ha, hseen⟩ := Sample.exists_last Sample.resurrecting
    (fun l => !(since Sample.issues (fun x => !Sample.revokes x) l) && !(l.any Sample.inserts)) 3 rfl
  rw [Bool.and_eq_true, Bool.not_eq_true', Bool.not_eq_true'] at hp
  obtain ⟨found, hfound, hcase⟩ := claim l s hr past x [] hl 3 0 _ "/work" Sample.pair (.inl rfl) ha
  obtain rfl : Sample.pair = found := Except.ok.inj (hseen.symm.trans hfound)
  rw [← hl] at hcase
  rcases hcase with hcov | ⟨workspace, hbound, -, -⟩
  · exact absurd (Sample.since_of_covered hcov) (by rw [hp.1]; exact Bool.false_ne_true)
  · exact absurd (Sample.inserts_of_boundTo hbound) (by rw [hp.2]; exact Bool.false_ne_true)

end Trust
end Yuzora
