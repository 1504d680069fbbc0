import Yuzora.ResultBudgets
/-!
# ResultPages — what a registry shows of the rows it stored

A session's pages hold the rows whose push was answered `Stored`, five hundred to a page.  Published pages are a prefix
of them; the cursor moves among those by one, and a page's two flags say whether it can.
-/
namespace Yuzora
namespace Results

open List
open Db (ConnectionIdentity QueryRunOwner)

/-! ## The rows that were stored -/

def StoredSession.rows (session : StoredSession) : List Row := session.pages.items.flatMap Vec.items

/-- What an event does to the rows stored under a key: a session opened starts over, a row stored is appended. -/
def stored (key : String) (rows : List Row) (x : ResultEvent) : List Row :=
  match x.label with
  | (.beginSession owner _, .done) => if owner.key = key then [] else rows
  | (.pushRow owner row, .pushed .stored) => if owner.key = key then rows ++ [row] else rows
  | _ => rows

/-- The rows whose `push_row` was answered `Stored` since the key's session was opened. -/
def storedRows (key : String) (l : List ResultEvent) : List Row := l.foldl (stored key) []

theorem storedRows_snoc (key : String) (l : List ResultEvent) (x : ResultEvent) :
    storedRows key (l ++ [x]) = stored key (storedRows key l) x := foldl_concat _ _ _ _

variable {key : String} {call : Call}

variable {rows : List Row} {s : ResultSessionRegistry} {reply : Reply} {t : ResultSessionRegistry}

theorem stored_quiet (hp : ∀ owner row, call = .pushRow owner row → reply ≠ .pushed .stored)
    (hb : ∀ owner columns, call = .beginSession owner columns → reply ≠ .done) :
    stored key rows ⟨s, (call, reply), t⟩ = rows := by
  unfold stored
  split
  · rename_i owner columns h
    cases h
    exact (hb owner columns rfl rfl).elim
  · rename_i owner row h
    cases h
    exact (hp owner row rfl rfl).elim
  · rfl

/-! ## The shape of the pages -/

/-- The session's pages hold these rows, and all but the last are full. -/
structure Filled (rows : List Row) (session : StoredSession) : Prop where
  rows : session.rows = rows
  full : ∀ page ∈ session.pages.items.dropLast, page.items.length = RESULT_PAGE_ROWS
  last : session.lastPage.items.length ≤ RESULT_PAGE_ROWS
  bounded : session.Bounded

theorem Filled.edited {s s' : StoredSession} (h : Filled rows s) (he : Edited call reply s s') : Filled rows s' := by
  have hp := he.pages
  refine ⟨?_, ?_, ?_, he.bounded h.bounded⟩
  · unfold StoredSession.rows
    rw [hp]
    exact h.rows
  · rw [hp]
    exact h.full
  · unfold StoredSession.lastPage
    simp only [hp]
    exact h.last

variable {session : StoredSession} {layout : Layout} {x : ResultEvent}

theorem Filled.withRow (h : Filled rows session) (row : Row)
    (charge : Nat) : Filled (rows ++ [row]) (session.withRow row charge) := by
  have hitems : (session.withRow row charge).pages.items = session.others ++ [session.target.push row] :=
    session.appended_items row
  have hrows : session.rows = session.others.flatMap Vec.items ++ session.target.items := by
    unfold StoredSession.rows
    rw [session.pages_items]
    by_cases hn : session.needsNewPage = true
    · rw [if_pos hn, StoredSession.target, if_pos hn]
      exact (append_nil _).symm
    · rw [if_neg hn]
      simp
  refine ⟨?_, ?_, ?_, ⟨h.bounded.current, ?_⟩⟩
  · rw [← h.rows, hrows]
    unfold StoredSession.rows
    rw [hitems]
    simp
  · rw [hitems, dropLast_concat]
    intro page hp
    unfold StoredSession.others at hp
    by_cases hn : session.needsNewPage = true
    · rw [if_pos hn, ← dropLast_append_getLast session.paged] at hp
      rcases mem_append.1 hp with hp | hp
      · exact h.full page hp
      · have hlast : session.lastPage.items.length = RESULT_PAGE_ROWS := by
          simpa [StoredSession.needsNewPage] using hn
        rw [mem_singleton.1 hp]
        exact hlast
    · rw [if_neg hn] at hp
      exact h.full page hp
  · have hlast : (session.withRow row charge).lastPage = session.target.push row := by
      unfold StoredSession.lastPage
      simp only [hitems, getLast_append_singleton]
    rw [hlast, Vec.items_push, length_append, length_singleton]
    unfold StoredSession.target
    by_cases hn : session.needsNewPage = true
    · rw [if_pos hn]
      decide
    · have hne : session.lastPage.items.length ≠ RESULT_PAGE_ROWS := by simpa [StoredSession.needsNewPage] using hn
      rw [if_neg hn]
      exact Nat.lt_of_le_of_ne h.last hne
  · have hlen : session.pages.items.length ≤ (session.withRow row charge).pages.items.length := by
      rw [hitems, session.pages_items]
      by_cases hn : session.needsNewPage = true
      · simp [hn]
      · simp [hn]
    exact Nat.le_trans h.bounded.ready hlen

theorem opened_filled (layout : Layout) (owner : Owner) (columns : Vec HeapString) :
    Filled [] (openedSession layout owner columns) :=
  ⟨rfl, nofun, Nat.zero_le _, ⟨Nat.zero_lt_one, Nat.zero_le _⟩⟩

/-- Every stored session is filled with the rows stored under its key. -/
def AllFilled (l : List ResultEvent) (s : ResultSessionRegistry) : Prop :=
  ∀ key session, s.sessions.get key = some session → Filled (storedRows key l) session

theorem AllFilled.of_moved {l : List ResultEvent} (h : AllFilled l s) (hm : Moved layout s call reply t) :
    AllFilled (l ++ [⟨s, (call, reply), t⟩]) t := by
  intro key session hs
  rw [storedRows_snoc]
  cases hm with
  | kept _ _ hq =>
    rw [stored_quiet (fun owner row hc hr => (hq.1 owner row .stored hc hr).1 rfl) fun owner columns => hq.2 owner columns]
    exact h key session hs
  | edited owner _ _ found found' ho hc hb he =>
    rw [stored_quiet (fun owner row hc hr => (he.refusal owner row .stored hc hr).1 rfl)]
    · rw [ResultSessionRegistry.get_put (ResultSessionRegistry.owned_eq_ok.1 ho).2.1] at hs
      split at hs
      · rename_i hk
        cases hs
        rw [hk]
        exact (h _ found (ResultSessionRegistry.owned_eq_ok.1 ho).2.1).edited he
      · exact h key session hs
    · rintro owner' columns rfl
      cases hc
      exact (hb columns rfl).elim
  | pushed owner row found rowBytes hst =>
    have hfound := (ResultSessionRegistry.owned_eq_ok.1 hst.owned).2.1
    rw [ResultSessionRegistry.get_put hfound] at hs
    unfold stored
    dsimp only
    split at hs
    · rename_i hk
      cases hs
      rw [if_pos hk.symm, hk]
      exact (h _ found hfound).withRow row _
    · rename_i hk
      rw [if_neg (Ne.symm hk)]
      exact h key session hs
  | opened owner columns ho =>
    change (s.sessions.insert _ _).get key = _ at hs
    rw [HashMap.get_insert] at hs
    unfold stored
    dsimp only
    split at hs
    · rename_i hk
      cases hs
      rw [if_pos hk.symm]
      exact opened_filled layout owner columns
    · rename_i hk
      rw [if_neg (Ne.symm hk)]
      exact h key session hs
  | removed owner _ found ho hc hp hb =>
    change (s.sessions.remove _).get key = _ at hs
    rw [HashMap.get_remove] at hs
    rw [stored_quiet]
    · split at hs
      · cases hs
      · exact h key session hs
    · exact nofun
    · rintro owner' columns rfl
      cases hc
      exact (hb columns rfl).elim
  | begun | disconnected =>
    change (s.sessions.retain _).get key = _ at hs
    rw [HashMap.get_retain] at hs
    exact h key session (Option.filter_eq_some_iff.1 hs).1

/-! ## After a refused row -/

def RowRefused (key : String) (x : ResultEvent) : Prop :=
  ∃ owner row outcome, owner.key = key ∧ x.label = (.pushRow owner row, .pushed outcome) ∧ outcome ≠ .stored

def SessionOpened (key : String) (x : ResultEvent) : Prop :=
  ∃ owner columns, owner.key = key ∧ x.label = (.beginSession owner columns, .done)

def RowStored (key : String) (x : ResultEvent) : Prop :=
  ∃ owner row, owner.key = key ∧ x.label = (.pushRow owner row, .pushed .stored)

/-- No row can be stored under the key until a session is opened under it. -/
def Shut (key : String) (s : ResultSessionRegistry) : Prop :=
  ∀ session, s.sessions.get key = some session → session.Latched

theorem RowRefused.shut (h : RowRefused key x)
    (hm : Moved layout x.src x.label.1 x.label.2 x.dst) : Shut key x.dst := by
  obtain ⟨src, ⟨call, reply⟩, dst⟩ := x
  obtain ⟨owner, row, outcome, rfl, hl, ho⟩ := h
  cases hl
  change Moved layout src _ _ dst at hm
  intro session hs
  cases hm with
  | kept _ _ hq =>
    obtain ⟨-, found, hf, hlatched⟩ := hq.1 owner row outcome rfl rfl
    cases hs.symm.trans hf
    exact hlatched
  | edited owner' _ _ found found' hown hc _ he =>
    cases hc
    rw [ResultSessionRegistry.get_put (ResultSessionRegistry.owned_eq_ok.1 hown).2.1, if_pos rfl] at hs
    cases hs
    exact (he.refusal owner row outcome rfl rfl).2
  | pushed _ _ _ _ _ => exact (ho rfl).elim

theorem Shut.of_moved (h : Shut key s) (hm : Moved layout s call reply t)
    (hopen : ∀ owner columns, owner.key = key → call = .beginSession owner columns → reply ≠ .done) :
    Shut key t ∧ ∀ owner row, owner.key = key → call = .pushRow owner row → reply ≠ .pushed .stored := by
  cases hm with
  | kept _ _ hq => exact ⟨h, fun owner row _ hc hr => (hq.1 owner row .stored hc hr).1 rfl⟩
  | edited owner _ _ found found' ho hc _ he =>
    have hfound := (ResultSessionRegistry.owned_eq_ok.1 ho).2.1
    refine ⟨fun session hs => ?_, fun owner' row _ hc' hr => (he.refusal owner' row .stored hc' hr).1 rfl⟩
    rw [ResultSessionRegistry.get_put hfound] at hs
    split at hs
    · rename_i hk
      cases hs
      exact he.latched (h found (hk ▸ hfound))
    · exact h session hs
  | pushed owner row found rowBytes hst =>
    have hfound := (ResultSessionRegistry.owned_eq_ok.1 hst.owned).2.1
    have hne : key ≠ owner.key := by
      rintro rfl
      rcases h found hfound with hl | hl
      · rw [hst.small] at hl
        cases hl
      · rw [hst.unlimited] at hl
        cases hl
    refine ⟨fun session hs => ?_, fun owner' row' hk hc _ => ?_⟩
    · change (s.put owner _).sessions.get key = _ at hs
      rw [ResultSessionRegistry.get_put hfound, if_neg hne] at hs
      exact h session hs
    · obtain ⟨rfl, -⟩ := Call.pushRow.inj hc
      exact hne hk.symm
  | opened owner columns _ =>
    refine ⟨fun session hs => ?_, nofun⟩
    change (s.sessions.insert _ _).get key = _ at hs
    rw [HashMap.get_insert, if_neg fun hk => hopen owner columns hk.symm rfl rfl] at hs
    exact h session hs
  | removed owner _ found _ _ _ _ =>
    refine ⟨fun session hs => ?_, nofun⟩
    change (s.sessions.remove _).get key = _ at hs
    rw [HashMap.get_remove] at hs
    split at hs
    · cases hs
    · exact h session hs
  | begun | disconnected =>
    refine ⟨fun session hs => ?_, nofun⟩
    change (s.sessions.retain _).get key = _ at hs
    rw [HashMap.get_retain] at hs
    exact h session (Option.filter_eq_some_iff.1 hs).1

/-! ## Another owner -/

namespace ResultSessionRegistry
variable {r : ResultSessionRegistry} {owner : Owner} {α : Type}

/-- The owner's run is not the active one, or another owner's session is stored under its key. -/
def Foreign (r : ResultSessionRegistry) (owner : Owner) : Prop :=
  r.validateActiveRun owner ≠ .ok () ∨
    ∃ session, r.sessions.get owner.key = some session ∧ session.owner.ids ≠ owner.ids

/-- **An operation of another owner changes nothing.** -/
theorem Foreign.unchanged (layout : Layout) (h : r.Foreign owner) (hc : call.owner = some owner) :
    (r.step layout call).2 = r := by
  have hown : ∀ session, r.owned owner ≠ .ok session := by
    intro session ho
    obtain ⟨hv, hs, hids⟩ := owned_eq_ok.1 ho
    rcases h with h | ⟨found, hf, hne⟩
    · exact h hv
    · cases hs.symm.trans hf
      exact hne hids
  have hm := step_moved layout r call
  generalize (r.step layout call).1 = reply at hm
  generalize (r.step layout call).2 = t at hm
  cases hm with
  | kept _ _ _ => rfl
  | edited owner' _ _ session _ ho hc' _ _ | removed owner' _ session ho hc' _ _ =>
    cases hc.symm.trans hc'
    exact (hown session ho).elim
  | pushed owner' row session _ hst =>
    cases hc
    exact (hown session hst.owned).elim
  | opened owner' columns ho =>
    cases hc
    rcases h with h | ⟨found, hf, -⟩
    · exact (h ho.active).elim
    · rw [ho.fresh] at hf
      cases hf
  | begun _ | disconnected _ => cases hc

/-! ## Moving the cursor -/

theorem answer_eq {reply : α → Reply} {outcome : Outcome α} {given : Reply} (h : answer reply outcome = (given, t)) :
    (∃ a, outcome = (.ok a, t) ∧ given = reply a) ∨ ∃ error, outcome = (.error error, t) ∧ given = .refused error := by
  rcases outcome with ⟨_ | a, t'⟩
  · cases h
    exact .inr ⟨_, rfl, rfl⟩
  · cases h
    exact .inl ⟨a, rfl, rfl⟩

theorem onSession_ok {f : StoredSession → Outcome α} {a : α}
    (h : r.onSession owner f = (.ok a, t)) : ∃ session, r.owned owner = .ok session ∧ f session = (.ok a, t) := by
  unfold onSession at h
  split at h
  · cases h
  · rename_i session hs
    exact ⟨session, hs, h⟩

theorem reading_ok {f : StoredSession → Except SessionError α} {a : α}
    (h : r.reading owner f = .ok a) : ∃ session, r.owned owner = .ok session ∧ f session = .ok a := by
  unfold reading at h
  split at h
  · cases h
  · rename_i session hs
    exact ⟨session, hs, h⟩

end ResultSessionRegistry

variable {pageIndex : Nat} {page : ResultPage}

theorem pageFromSession_ok (h : pageFromSession session pageIndex = .ok page) :
    pageIndex < session.readyPages ∧ page.pageIndex = pageIndex ∧ (page.hasPrevious = true ↔ 0 < pageIndex) ∧
      (page.hasNext = true ↔ session.lifecycle ≠ .released ∧ (pageIndex + 1 < session.readyPages ∨
        session.lifecycle = .streaming ∧ pageIndex + 1 < session.pages.items.length)) := by
  unfold pageFromSession at h
  split at h
  · cases h
  rename_i hready
  split at h
  · cases h
  · cases h
    exact ⟨Nat.lt_of_not_le hready, rfl, decide_eq_true_iff, decide_eq_true_iff⟩

/-- The cursor of the owner's session moved to a published page, which is the page answered; nothing else changed. -/
def MovesTo (s : ResultSessionRegistry) (owner : Owner) (session : StoredSession) (page : ResultPage)
    (t : ResultSessionRegistry) : Prop :=
  s.owned owner = .ok session ∧ page.pageIndex < session.readyPages ∧
    pageFromSession { session with currentPage := page.pageIndex } page.pageIndex = .ok page ∧
      t = s.put owner { session with currentPage := page.pageIndex }

namespace ResultSessionRegistry
variable {r : ResultSessionRegistry} {owner : Owner}

theorem previous_ok (h : r.previous owner = (.ok page, t)) :
    ∃ session, MovesTo r owner session page t ∧ page.pageIndex + 1 = session.currentPage := by
  obtain ⟨session, hs, h⟩ := onSession_ok h
  split at h
  · cases h
  obtain ⟨hp, rfl⟩ := Prod.mk.inj h
  obtain ⟨hlt, hi, -, -⟩ := pageFromSession_ok hp
  dsimp only at hp hlt hi
  rw [← hi] at hp hlt
  refine ⟨session, ⟨hs, hlt, hp, by rw [hi]⟩, ?_⟩
  omega

theorem next_cached (h : r.next owner = (.ok (.cached page), t)) :
    ∃ session, MovesTo r owner session page t ∧ page.pageIndex = session.currentPage + 1 := by
  obtain ⟨session, hs, h⟩ := onSession_ok h
  split at h
  · cases h
  dsimp only at h
  split at h
  · obtain ⟨hp, rfl⟩ := Prod.mk.inj h
    cases hpage : pageFromSession { session with currentPage := nextIndex session } (nextIndex session) with
    | error e =>
      rw [hpage] at hp
      cases hp
    | ok shown =>
      rw [hpage] at hp
      obtain rfl := NextPage.cached.inj (Except.ok.inj hp)
      obtain ⟨hlt, hi, -, -⟩ := pageFromSession_ok hpage
      rw [← hi] at hpage hlt
      exact ⟨session, ⟨hs, hlt, hpage, by rw [hi]⟩, hi⟩
  split at h
  · cases h
  · cases h

theorem next_continue (h : r.next owner = (.ok (.continue pageIndex), t)) :
    ∃ session, r.owned owner = .ok session ∧ pageIndex = session.currentPage + 1 ∧ session.readyPages ≤ pageIndex ∧
      pageIndex < session.pages.items.length ∧ t = r := by
  obtain ⟨session, hs, h⟩ := onSession_ok h
  split at h
  · cases h
  dsimp only at h
  split at h
  · obtain ⟨hp, -⟩ := Prod.mk.inj h
    cases hpage : pageFromSession { session with currentPage := nextIndex session } (nextIndex session) with
    | error | ok =>
      rw [hpage] at hp
      cases hp
  rename_i hready
  split at h
  · rename_i hstream
    obtain ⟨hp, rfl⟩ := Prod.mk.inj h
    obtain rfl := NextPage.continue.inj (Except.ok.inj hp)
    exact ⟨session, hs, rfl, Nat.le_of_not_lt hready, hstream.2, rfl⟩
  · cases h

theorem continuationPageIndex_ok (h : r.continuationPageIndex owner = .ok pageIndex) :
    ∃ session, r.owned owner = .ok session ∧ pageIndex = session.currentPage + 1 ∧ pageIndex = session.readyPages ∧
      pageIndex < session.pages.items.length := by
  obtain ⟨session, hs, h⟩ := reading_ok h
  dsimp only at h
  split at h
  · rename_i hc
    cases h
    exact ⟨session, hs, rfl, hc.2.1, hc.2.2⟩
  · cases h

theorem completeNext_ok (h : r.completeNext owner pageIndex = (.ok page, t)) :
    ∃ session, MovesTo r owner session page t ∧ page.pageIndex = pageIndex ∧
      page.pageIndex = session.currentPage + 1 := by
  unfold completeNext at h
  split at h
  · cases h
  rename_i hv
  split at h
  · cases h
  rename_i session hget
  split at h
  · cases h
  rename_i hc
  rw [not_or, not_or, not_not, not_not] at hc
  obtain ⟨hp, rfl⟩ := Prod.mk.inj h
  obtain ⟨hlt, hi, -, -⟩ := pageFromSession_ok hp
  obtain rfl := hi.symm
  exact ⟨session, ⟨owned_eq_ok.2 ⟨hv, hget, hc.1⟩, hlt, hp, rfl⟩, rfl, hc.2.1⟩

end ResultSessionRegistry

/-! ## What a page says of its neighbours -/

def Reply.pageShown : Reply → Option ResultPage
  | .page shown | .next (.cached shown) => some shown
  | .session result => some result.initialPage
  | _ => none

/-- The operations that answer with the page they leave the cursor on. -/
def Call.Lands (owner : Owner) (call : Call) : Prop :=
  call = .previous owner ∨ call = .next owner ∨ (∃ pageIndex, call = .completeNext owner pageIndex) ∨
    call = .currentPage owner

namespace ResultSessionRegistry
variable {r : ResultSessionRegistry} {owner : Owner}

/-- The registry as it would be with the owner's cursor on the page. -/
def viewing (r : ResultSessionRegistry) (owner : Owner) (session : StoredSession) (pageIndex : Nat) :
    ResultSessionRegistry := r.put owner { session with currentPage := pageIndex }

theorem viewing_self (h : r.owned owner = .ok session) : r.viewing owner session session.currentPage = r := by
  have hset := HashMap.set_self (owned_eq_ok.1 h).2.1
  unfold viewing put
  rw [hset]

/-- **A page's flags tell whether the moves from it succeed.** -/
theorem page_flags (ho : r.owned owner = .ok session)
    (hb : session.Bounded) (hp : pageFromSession session page.pageIndex = .ok page) :
    (page.hasNext = true ↔ ∃ next, ((r.viewing owner session page.pageIndex).next owner).1 = .ok next) ∧
      (page.hasPrevious = true ↔ ∃ shown, ((r.viewing owner session page.pageIndex).previous owner).1 = .ok shown) := by
  obtain ⟨hlt, -, hprev, hnext⟩ := pageFromSession_ok hp
  have hready := hb.ready
  have hview := owned_put { session with currentPage := page.pageIndex } ho rfl
  constructor
  · rw [hnext]
    unfold viewing next onSession
    rw [hview]
    dsimp only [nextIndex]
    by_cases hrel : session.lifecycle = .released
    · simp [hrel]
    rw [if_neg hrel]
    by_cases h1 : page.pageIndex + 1 < session.readyPages
    · rw [if_pos h1]
      obtain ⟨shown, hs⟩ := pageFromSession_of_lt { session with currentPage := page.pageIndex + 1 } h1
        (Nat.lt_of_lt_of_le h1 hready)
      rw [hs]
      exact ⟨fun _ => ⟨_, rfl⟩, fun _ => ⟨hrel, .inl h1⟩⟩
    · rw [if_neg h1]
      by_cases h2 : session.lifecycle = .streaming ∧ page.pageIndex + 1 < session.pages.items.length
      · rw [if_pos h2]
        exact ⟨fun _ => ⟨_, rfl⟩, fun _ => ⟨hrel, .inr h2⟩⟩
      · rw [if_neg h2]
        exact ⟨fun h => (not_or.2 ⟨h1, h2⟩ h.2).elim, fun h => by obtain ⟨_, h⟩ := h; cases h⟩
  · rw [hprev]
    unfold viewing previous onSession
    rw [hview]
    dsimp only
    by_cases h0 : page.pageIndex = 0
    · rw [if_pos h0]
      exact ⟨fun h => by omega, fun h => by obtain ⟨_, h⟩ := h; cases h⟩
    · rw [if_neg h0]
      have h1 : page.pageIndex - 1 < session.readyPages := by omega
      obtain ⟨shown, hs⟩ := pageFromSession_of_lt { session with currentPage := page.pageIndex - 1 } h1
        (Nat.lt_of_lt_of_le h1 hready)
      exact ⟨fun _ => ⟨shown, hs⟩, fun _ => Nat.pos_of_ne_zero h0⟩

theorem movesTo_shown (h : MovesTo r owner session page t) :
    ∃ found, t.owned owner = .ok found ∧ pageFromSession found page.pageIndex = .ok page ∧
      found.currentPage = page.pageIndex := by
  obtain ⟨ho, -, hp, rfl⟩ := h
  exact ⟨_, owned_put _ ho rfl, hp, rfl⟩

theorem finishSessionWithLifecycle_ok {effect : EffectOutcome} {lifecycle : SessionLifecycle} {result : ResultSession}
    (h : r.finishSessionWithLifecycle owner effect lifecycle = (.ok result, t)) :
    ∃ found, t.owned owner = .ok found ∧ pageFromSession found result.initialPage.pageIndex = .ok result.initialPage := by
  unfold finishSessionWithLifecycle at h
  split at h
  · cases h
  rename_i session next hf
  split at h
  · cases h
  rename_i initialPage hp
  obtain ⟨hr, rfl⟩ := Prod.mk.inj h
  cases hr
  obtain ⟨found, ho, hf⟩ := onSession_ok hf
  obtain ⟨hs, rfl⟩ := Prod.mk.inj hf
  cases hs
  obtain ⟨-, hi, -, -⟩ := pageFromSession_ok hp
  refine ⟨_, owned_put _ ho rfl, ?_⟩
  rw [hi]
  exact hp

/-- **A page that is answered is the session's as it stands after the operation**, and the page the cursor is on where
the operation answers with that. -/
theorem page_shown (h : r.step layout call = (reply, t))
    (hc : call.owner = some owner) (hp : reply.pageShown = some page) :
    ∃ session, t.owned owner = .ok session ∧ pageFromSession session page.pageIndex = .ok page ∧
      (call.Lands owner → session.currentPage = page.pageIndex) := by
  have answered : ∀ {α : Type} {answering : α → Reply} {outcome : Outcome α},
      answer answering outcome = (reply, t) → ∃ a, outcome = (.ok a, t) ∧ (answering a).pageShown = some page := by
    intro α answering outcome ho
    rcases answer_eq ho with ⟨a, rfl, rfl⟩ | ⟨e, rfl, rfl⟩
    · exact ⟨a, rfl, hp⟩
    · cases hp
  have landed : ∀ {session : StoredSession}, MovesTo r owner session page t →
      ∃ found, t.owned owner = .ok found ∧ pageFromSession found page.pageIndex = .ok page ∧
        (call.Lands owner → found.currentPage = page.pageIndex) := by
    intro session hm
    obtain ⟨found, h1, h2, h3⟩ := movesTo_shown hm
    exact ⟨found, h1, h2, fun _ => h3⟩
  have read : ∀ {pageIndex : Nat} {session : StoredSession}, r.owned owner = .ok session → t = r →
      pageFromSession session pageIndex = .ok page → (call.Lands owner → session.currentPage = pageIndex) →
        ∃ found, t.owned owner = .ok found ∧ pageFromSession found page.pageIndex = .ok page ∧
          (call.Lands owner → found.currentPage = page.pageIndex) := by
    intro pageIndex session ho ht hpage hl
    obtain ⟨-, hi, -, -⟩ := pageFromSession_ok hpage
    rw [hi]
    exact ⟨session, ht ▸ ho, hpage, hl⟩
  cases call with
  | beginRun _ | releaseConnection _ => cases hc
  | previous owner' =>
    cases hc
    obtain ⟨shown, ho, hs⟩ := answered h
    cases hs
    obtain ⟨session, hm, -⟩ := previous_ok ho
    exact landed hm
  | next owner' =>
    cases hc
    obtain ⟨next, ho, hs⟩ := answered h
    cases next with
    | cached shown =>
      cases hs
      obtain ⟨session, hm, -⟩ := next_cached ho
      exact landed hm
    | «continue» _ => cases hs
  | completeNext owner' pageIndex =>
    cases hc
    obtain ⟨shown, ho, hs⟩ := answered h
    cases hs
    obtain ⟨session, hm, -⟩ := completeNext_ok ho
    exact landed hm
  | finishSession | finishSessionWithLifecycle =>
    cases hc
    obtain ⟨result, ho, hs⟩ := answered h
    cases hs
    obtain ⟨found, h1, h2⟩ := finishSessionWithLifecycle_ok ho
    exact ⟨found, h1, h2, by simp [Call.Lands]⟩
  | resultSession owner' =>
    cases hc
    obtain ⟨result, ho, hs⟩ := answered h
    obtain ⟨hr, rfl⟩ := Prod.mk.inj ho
    obtain ⟨session, hown, hr⟩ := reading_ok hr
    cases hpage : pageFromSession session 0 with
    | error e =>
      rw [hpage] at hr
      cases hr
    | ok shown =>
      rw [hpage] at hr
      cases hr
      cases hs
      exact read hown rfl hpage (by simp [Call.Lands])
  | page owner' pageIndex =>
    cases hc
    obtain ⟨shown, ho, hs⟩ := answered h
    cases hs
    obtain ⟨hr, rfl⟩ := Prod.mk.inj ho
    unfold ResultSessionRegistry.page at hr
    split at hr
    · cases hr
    · rename_i session hown
      exact read hown rfl hr (by simp [Call.Lands])
  | currentPage owner' =>
    cases hc
    obtain ⟨shown, ho, hs⟩ := answered h
    cases hs
    obtain ⟨hr, rfl⟩ := Prod.mk.inj ho
    obtain ⟨session, hown, hr⟩ := reading_ok hr
    exact read hown rfl hr fun _ => rfl
  | beginSession _ _ | markResultLimitReached _ | markValueTooLarge _ | pushRow _ _ | finishSessionState _ _ _
    | markPageReady _ _ | markNextPageReady _ | continuationPageIndex _ | release _ | releaseWithEffect _ _
    | discard _ =>
    obtain ⟨_, _, hs⟩ := answered h
    cases hs

end ResultSessionRegistry

/-! ## The theorem -/

/-- What an event does to the cursor: the moves go by one among published pages, a continuation names the next page
without moving, and a refusal changes nothing. -/
structure Navigates (x : ResultEvent) : Prop where
  previous : ∀ owner page, x.label = (.previous owner, .page page) →
    ∃ session, MovesTo x.src owner session page x.dst ∧ page.pageIndex + 1 = session.currentPage
  cached : ∀ owner page, x.label = (.next owner, .next (.cached page)) →
    ∃ session, MovesTo x.src owner session page x.dst ∧ page.pageIndex = session.currentPage + 1
  completed : ∀ owner pageIndex page, x.label = (.completeNext owner pageIndex, .page page) →
    ∃ session, MovesTo x.src owner session page x.dst ∧ page.pageIndex = pageIndex ∧
      page.pageIndex = session.currentPage + 1
  continued : ∀ owner pageIndex, x.label = (.next owner, .next (.continue pageIndex)) →
    ∃ session, x.src.owned owner = .ok session ∧ pageIndex = session.currentPage + 1 ∧
      session.readyPages ≤ pageIndex ∧ pageIndex < session.pages.items.length ∧ x.dst = x.src
  continuation : ∀ owner pageIndex, x.label = (.continuationPageIndex owner, .index pageIndex) →
    ∃ session, x.src.owned owner = .ok session ∧ pageIndex = session.currentPage + 1 ∧
      pageIndex = session.readyPages ∧ pageIndex < session.pages.items.length ∧ x.dst = x.src
  refused : ∀ error, x.label.2 = .refused error → x.dst = x.src

theorem outcome_of_step {α : Type} {reply : α → Reply} {outcome : ResultSessionRegistry.Outcome α} {a : α}
    (h : ResultSessionRegistry.answer reply outcome = (reply a, t))
    (hinj : ∀ b, reply a = reply b → a = b) (hr : ∀ error, reply a ≠ .refused error) : outcome = (.ok a, t) := by
  rcases ResultSessionRegistry.answer_eq h with ⟨b, ho, hb⟩ | ⟨e, -, he⟩
  · rw [ho, hinj b hb]
  · exact (hr e he).elim

theorem navigates (h : x.src.step layout x.label.1 = (x.label.2, x.dst))
    (hb : ∀ key session, x.src.sessions.get key = some session → session.Bounded) : Navigates x := by
  obtain ⟨src, ⟨call, reply⟩, dst⟩ := x
  dsimp only at h hb
  constructor
  · intro owner page hl
    cases hl
    exact ResultSessionRegistry.previous_ok (outcome_of_step h (fun _ => Reply.page.inj) nofun)
  · intro owner page hl
    cases hl
    exact ResultSessionRegistry.next_cached (outcome_of_step h (fun _ => Reply.next.inj) nofun)
  · intro owner pageIndex page hl
    cases hl
    exact ResultSessionRegistry.completeNext_ok (outcome_of_step h (fun _ => Reply.page.inj) nofun)
  · intro owner pageIndex hl
    cases hl
    exact ResultSessionRegistry.next_continue (outcome_of_step h (fun _ => Reply.next.inj) nofun)
  · intro owner pageIndex hl
    cases hl
    obtain ⟨hr, rfl⟩ := Prod.mk.inj (outcome_of_step h (fun _ => Reply.index.inj) nofun)
    obtain ⟨session, h1, h2, h3, h4⟩ := ResultSessionRegistry.continuationPageIndex_ok hr
    exact ⟨session, h1, h2, h3, h4, rfl⟩
  · rintro error rfl
    have hm := ResultSessionRegistry.step_moved layout src call
    rw [h] at hm
    cases hm with
    | kept _ _ _ => rfl
    | edited owner _ _ session _ ho _ _ he =>
      exact (he.accepted (hb _ _ (ResultSessionRegistry.owned_eq_ok.1 ho).2.1) error rfl).elim

section Runs
variable {fieldLimit rowLimit sessionLimit processLimit : Nat}

theorem filled_run {l : List ResultEvent}
    (h : RegistryRun layout fieldLimit rowLimit sessionLimit processLimit l s) : AllFilled l s := by
  refine h.history (P := AllFilled) (fun s hs => ?_) fun l s a t _ ih hst => ih.of_moved (.of_step hst)
  rw [hs]
  exact nofun

end Runs

/-! ## A long run -/

namespace Sample

/-- A session with this many empty rows, nothing published, in a registry without a limit. -/
structure Roomy (rows : Nat) (session : StoredSession) (r : ResultSessionRegistry) : Prop where
  owned : r.owned owner = .ok session
  small : session.valueTooLarge = false
  unlimited : session.resultLimitReached = false
  streaming : session.lifecycle = .streaming
  ready : session.readyPages = 0
  current : session.currentPage = 0
  length : session.rows.length = rows
  sessionLimit : usizeMax ≤ r.sessionLimit
  processLimit : usizeMax ≤ r.processLimit

theorem estimateSessionAfterPush_le (layout : Layout) (keyCapacity storedKeyCapacity : Nat) (session : StoredSession)
    (rowBytes : Nat) :
    estimateSessionAfterPush layout keyCapacity storedKeyCapacity session rowBytes ≤ usizeMax := sat_le_max _

variable {r : ResultSessionRegistry}

theorem Roomy.push {rows : Nat} (h : Roomy rows session r) (hf : Filled session.rows session) :
    ∃ session', Roomy (rows + 1) session' (r.step sizes (.pushRow owner .new)).2 := by
  have hst : Stores sizes r owner .new session 0 :=
    ⟨h.owned, h.small, h.unlimited, rfl, Nat.le_trans (estimateSessionAfterPush_le _ _ _ _ _) h.sessionLimit,
      Nat.le_trans (sat_le_max _) h.processLimit⟩
  rw [ResultSessionRegistry.pushRow_of_stores hst]
  refine ⟨session.withRow .new (pushCharge session .new 0), ?_, h.small, h.unlimited, h.streaming, h.ready, h.current,
    ?_, h.sessionLimit, h.processLimit⟩
  · exact ResultSessionRegistry.owned_put (session.withRow .new (pushCharge session .new 0)) h.owned rfl
  · rw [(hf.withRow .new _).rows, length_append, length_singleton, h.length]

def noLimit : ResultSessionRegistry := .withCeilings usizeMax usizeMax usizeMax usizeMax

def stream (rows : Nat) : List ResultEvent × ResultSessionRegistry :=
  Trace.follow (ResultSessionRegistry.step sizes) (openSession ++ List.replicate rows (.pushRow owner .new)) [] noLimit

theorem run_stream (rows : Nat) :
    RegistryRun sizes usizeMax usizeMax usizeMax usizeMax (stream rows).1 (stream rows).2 :=
  Trace.of_follow _ (.start rfl)

theorem stream_succ (rows : Nat) : (stream (rows + 1)).2 = ((stream rows).2.step sizes (.pushRow owner .new)).2 := by
  unfold stream
  rw [replicate_succ', ← append_assoc, Trace.follow_snoc]

theorem stream_roomy : ∀ rows : Nat, ∃ session, Roomy rows session (stream rows).2
  | 0 => ⟨openedSession sizes owner .new, by rfl, rfl, rfl, rfl, rfl, rfl, rfl, Nat.le_refl _, Nat.le_refl _⟩
  | rows + 1 => by
    obtain ⟨session, h⟩ := stream_roomy rows
    have hf := filled_run (run_stream rows) _ session (ResultSessionRegistry.owned_eq_ok.1 h.owned).2.1
    rw [stream_succ]
    exact h.push ⟨rfl, hf.full, hf.last, hf.bounded⟩

theorem Roomy.publish {session : StoredSession} (h : Roomy 501 session r) (hf : Filled session.rows session) :
    ∃ session t, r.step sizes (.markPageReady owner 0) = (.done, t) ∧ t.owned owner = .ok session ∧
      session.currentPage = 0 ∧ session.readyPages = 1 ∧ session.lifecycle = .streaming ∧
        1 < session.pages.items.length := by
  have hpages : 1 < session.pages.items.length := by
    by_contra hle
    have hone : session.pages.items = [session.lastPage] := by
      obtain ⟨page, hp⟩ := length_eq_one_iff.1
        (Nat.le_antisymm (Nat.not_lt.1 hle) (length_pos_iff.2 session.paged))
      unfold StoredSession.lastPage
      simp [hp]
    have hlen := h.length
    have hlast := hf.last
    unfold StoredSession.rows at hlen
    rw [hone, flatMap_singleton] at hlen
    rw [hlen] at hlast
    exact absurd hlast (by decide)
  refine ⟨{ session with readyPages := 1 }, r.put owner { session with readyPages := 1 }, ?_,
    ResultSessionRegistry.owned_put _ h.owned rfl, h.current, rfl, h.streaming, hpages⟩
  change ResultSessionRegistry.answer _ (r.markPageReady owner 0) = _
  unfold ResultSessionRegistry.markPageReady ResultSessionRegistry.onSession
  rw [h.owned]
  dsimp only
  rw [if_neg (Nat.not_le.2 (Nat.lt_trans Nat.zero_lt_one hpages)), if_neg (Nat.not_lt_zero _), h.ready]
  rfl

theorem stream_published : ∃ l r session t, RegistryRun sizes usizeMax usizeMax usizeMax usizeMax l r ∧
    r.step sizes (.markPageReady owner 0) = (.done, t) ∧ t.owned owner = .ok session ∧ session.currentPage = 0 ∧
      session.readyPages = 1 ∧ session.lifecycle = .streaming ∧ 1 < session.pages.items.length := by
  obtain ⟨session, h⟩ := stream_roomy 501
  have hf := filled_run (run_stream 501) _ session (ResultSessionRegistry.owned_eq_ok.1 h.owned).2.1
  obtain ⟨session', t, hp⟩ := h.publish ⟨rfl, hf.full, hf.last, hf.bounded⟩
  exact ⟨_, _, session', t, run_stream 501, hp⟩

end Sample

/-- **A continuation names the next page and does not move to it**: with two pages of which one is published. -/
theorem continuation_stays : ¬ ∀ (l : List ResultEvent) (s : ResultSessionRegistry),
      RegistryRun Sample.sizes usizeMax usizeMax usizeMax usizeMax l s →
        ∀ x ∈ l, ∀ owner pageIndex, x.label = (.continuationPageIndex owner, .index pageIndex) →
          ∀ session session', x.src.owned owner = .ok session → x.dst.owned owner = .ok session' →
            session'.currentPage = session.currentPage + 1 := by
  intro h
  obtain ⟨l, r, session, t, hrun, hst, ho, h0, h1, hstream, hlen⟩ := Sample.stream_published
  have hcont : t.step Sample.sizes (.continuationPageIndex Sample.owner) = (.index 1, t) := by
    change ResultSessionRegistry.answer _ (ResultSessionRegistry.continuationPageIndex _ Sample.owner, t) = _
    unfold ResultSessionRegistry.continuationPageIndex ResultSessionRegistry.reading
    rw [ho]
    dsimp only [ResultSessionRegistry.nextIndex]
    rw [h0, if_pos ⟨hstream, h1.symm, hlen⟩]
    rfl
  have hrun := (hrun.snoc (a := (.markPageReady Sample.owner 0, .done)) hst).snoc
    (a := (.continuationPageIndex Sample.owner, .index 1)) hcont
  have hmoved := h _ _ hrun ⟨t, _, t⟩ mem_concat_self Sample.owner 1 rfl session
    session ho ho
  omega

/-- **What the registry shows of its rows, in every run**: the pages hold the stored rows, five hundred to a page; after
a refused row none is stored; the cursor stays among published pages and moves by one; a page's flags tell whether the
moves from it succeed; and an operation of another owner changes nothing. -/
theorem pages_published {layout : Layout} {fieldLimit rowLimit sessionLimit processLimit : Nat}
    {l : List ResultEvent} {s : ResultSessionRegistry}
    (h : RegistryRun layout fieldLimit rowLimit sessionLimit processLimit l s) :
    (∀ key session, s.sessions.get key = some session →
      session.rows = storedRows key l ∧
        (∀ page ∈ session.pages.items.dropLast, page.items.length = RESULT_PAGE_ROWS) ∧
        session.lastPage.items.length ≤ RESULT_PAGE_ROWS ∧
        session.currentPage < max 1 session.readyPages ∧ session.readyPages ≤ session.pages.items.length) ∧
    (∀ key past x mid y later, l = past ++ x :: mid ++ y :: later → RowRefused key x →
      (∀ z ∈ mid, ¬ SessionOpened key z) → ¬ RowStored key y) ∧
    (∀ x ∈ l, Navigates x) ∧
    (∀ x ∈ l, ∀ owner page, x.label.1.owner = some owner → x.label.2.pageShown = some page →
      ∃ session, x.dst.owned owner = .ok session ∧
        (page.hasNext = true ↔ ∃ next, ((x.dst.viewing owner session page.pageIndex).next owner).1 = .ok next) ∧
        (page.hasPrevious = true ↔
          ∃ shown, ((x.dst.viewing owner session page.pageIndex).previous owner).1 = .ok shown) ∧
        (x.label.1.Lands owner → x.dst.viewing owner session page.pageIndex = x.dst)) ∧
    (∀ x ∈ l, ∀ owner, x.label.1.owner = some owner → x.src.Foreign owner → x.dst = x.src) := by
  refine ⟨fun key session hs => ?_, ?_, fun x hx => ?_, ?_, ?_⟩
  · have hf := filled_run h key session hs
    exact ⟨hf.rows, hf.full, hf.last, hf.bounded.current, hf.bounded.ready⟩
  · rintro key past x mid y later hl hx hz ⟨owner, row, hk, hy⟩
    have hxm : Moved layout x.src x.label.1 x.label.2 x.dst := by
      have hl' : l = past ++ x :: (mid ++ y :: later) := by rw [hl, append_assoc, cons_append]
      exact .of_step (h.split hl').2
    have hshut : Shut key y.src := by
      refine h.between (P := Shut key) hl (hx.shut hxm) fun z hzm hst hs => ?_
      refine (hs.of_moved (.of_step hst) fun owner columns hk hc hr => hz z hzm ?_).1
      exact ⟨owner, columns, hk, Prod.ext hc hr⟩
    have hym := Moved.of_step (h.split hl).2
    rw [hy] at hym
    exact (hshut.of_moved hym nofun).2 owner row hk rfl rfl
  · obtain ⟨past, later, -, hrun, hst⟩ := h.transition x hx
    exact navigates hst fun key session hs => (filled_run hrun key session hs).bounded
  · intro x hx owner page hc hp
    obtain ⟨past, later, hl, hrun, hst⟩ := h.transition x hx
    have hbounded := (filled_run (hrun.snoc hst))
    obtain ⟨session, ho, hpage, hland⟩ := ResultSessionRegistry.page_shown hst hc hp
    have hb := (hbounded _ session (ResultSessionRegistry.owned_eq_ok.1 ho).2.1).bounded
    obtain ⟨h1, h2⟩ := ResultSessionRegistry.page_flags ho hb hpage
    refine ⟨session, ho, h1, h2, fun hl => ?_⟩
    rw [← hland hl]
    exact ResultSessionRegistry.viewing_self ho
  · intro x hx owner hc hf
    obtain ⟨past, later, -, -, hst⟩ := h.transition x hx
    have hu := hf.unchanged layout hc
    rw [hst] at hu
    exact hu

/-- The first row of a stream is what its page holds. -/
theorem pages_published_stream : ∃ session, (Sample.stream 1).2.sessions.get "a" = some session ∧
      session.rows = storedRows "a" (Sample.stream 1).1 ∧ storedRows "a" (Sample.stream 1).1 = [Vec.new] := by
  obtain ⟨session, h⟩ := Sample.stream_roomy 1
  have hs := (ResultSessionRegistry.owned_eq_ok.1 h.owned).2.1
  exact ⟨session, hs, ((pages_published (Sample.run_stream 1)).1 "a" session hs).1, by rfl⟩

end Results
end Yuzora
