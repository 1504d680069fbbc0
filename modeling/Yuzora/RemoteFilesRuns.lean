import Yuzora.RemoteFilesKnown
/-!
# RemoteFilesRuns — no save loses a change

Whatever is called and answered in whatever order, a save replaces what its document had known, on the connection it was
requested on, and a new connection told the revision that is bound to it (`sound_of_run`).
-/
namespace Yuzora
namespace RemoteFiles

open List

variable {Place : Type} {s t : State Place}

/-! ## Growing journals -/

theorem split_of_append {α : Type} {j es earlier later : List α} {e : α} (h : j ++ es = earlier ++ e :: later) :
    (∃ mid, j = earlier ++ e :: mid ∧ later = mid ++ es) ∨ ∃ mid, earlier = j ++ mid ∧ es = mid ++ e :: later := by
  rcases append_eq_append_iff.1 h with ⟨mid, he, hm⟩ | ⟨mid, hj, hm⟩
  · exact .inr ⟨mid, he, hm⟩
  · cases mid with
    | nil => exact .inr ⟨[], by simpa using hj.symm, hm.symm⟩
    | cons e' mid =>
      cases hm
      exact .inl ⟨mid, hj, rfl⟩

/-- A save replaced what its document had known, and a new connection had told what is bound to it. -/
def Fine (earlier : List Event) : Event → Prop
  | .replaced uri requested on sent old _ => on = requested ∧ old.revision = sent ∧ Known earlier uri on sent old.content
  | .rebound uri _ new revision => .compared uri new revision ∈ earlier
  | _ => True

theorem Fine.mono {earlier : List Event} {e : Event} (h : Fine earlier e) (es : List Event) : Fine (earlier ++ es) e := by
  unfold Fine at h ⊢
  split at h
  · exact ⟨h.1, h.2.1, h.2.2.mono fun e he => mem_append_left es he⟩
  · exact mem_append_left es h
  · exact trivial

def AllFine (journal : List Event) : Prop := ∀ earlier e later, journal = earlier ++ e :: later → Fine earlier e

theorem AllFine.append {j es : List Event} (h : AllFine j) (hes : ∀ e ∈ es, Fine j e) : AllFine (j ++ es) := by
  intro earlier e later hj
  rcases split_of_append hj with ⟨mid, hold, -⟩ | ⟨mid, rfl, hnew⟩
  · exact h earlier e mid hold
  · have he : e ∈ es := by
      rw [hnew]
      exact mem_append_right mid mem_cons_self
    exact (hes e he).mono mid

theorem Sound.allFine (h : Sound s) : AllFine s.journal := by
  intro earlier e later hj
  unfold Fine
  split
  · exact h.replaced _ _ _ _ _ _ _ _ hj
  · exact h.rebound _ _ _ _ _ _ hj
  · exact trivial

/-! ## Steps -/

theorem Sound.grow {u : State Place} (h : Sound s) (more : List String) (es : List Event)
    (hi : u.issued = s.issued ++ more) (hj : u.journal = s.journal ++ es) (hc : u.calls = s.calls)
    (hfiles : ∀ p file, u.files p = some file → u.issued[file.revision]? = some file.content)
    (hwritten : ∀ p revision, u.written p = some revision → ∃ file, u.files p = some file ∧ file.revision = revision)
    (hrevisions : AllBound u.issued u.journal u.revisions) (hes : ∀ e ∈ es, Fine s.journal e) : Sound u := by
  have hfine : AllFine u.journal := hj ▸ h.allFine.append hes
  constructor
  case files => exact hfiles
  case written => exact hwritten
  case revisions => exact hrevisions
  case calls =>
    intro id call hg
    rw [hc] at hg
    rw [hi, hj]
    exact (h.calls id call hg).mono more es
  case replaced => exact fun earlier _ _ _ _ _ _ later hj => hfine earlier _ later hj
  case rebound => exact fun earlier _ _ _ _ later hj => hfine earlier _ later hj

theorem Sound.aside {news : List Call} (h : Sound s) (ha : Aside news s t)
    (hn : ∀ call ∈ news, CallSound s.issued s.journal call) : Sound t := by
  constructor
  case files =>
    rw [ha.files, ha.issued]
    exact h.files
  case written =>
    rw [ha.written, ha.files]
    exact h.written
  case revisions =>
    rw [ha.issued, ha.journal, ha.revisions]
    exact h.revisions
  case calls =>
    intro id call hg
    rw [ha.issued, ha.journal]
    rcases ha.calls id call hg with hg | hg
    · exact h.calls id call hg
    · exact hn call hg
  case replaced =>
    rw [ha.journal]
    exact h.replaced
  case rebound =>
    rw [ha.journal]
    exact h.rebound

theorem Sound.allBound_mono (h : Sound s) (more : List String) (es : List Event) :
    AllBound (s.issued ++ more) (s.journal ++ es) s.revisions :=
  fun uri opened hg => (h.revisions uri opened hg).mono more es

theorem sound_start (h : Start s) : Sound s := by
  constructor
  case files => exact h.issued
  case written =>
    intro p revision hp
    rw [h.written p] at hp
    cases hp
  case revisions =>
    intro uri opened hg
    rw [h.revisions] at hg
    cases hg
  case calls =>
    intro id call hg
    rw [h.calls] at hg
    cases hg
  case replaced =>
    intro earlier uri requested on sent old new later hj
    rw [h.journal] at hj
    simp at hj
  case rebound =>
    intro earlier uri before new revision later hj
    rw [h.journal] at hj
    simp at hj

theorem Sound.log (h : Sound s) (e : Event) (he : Fine s.journal e) : Sound (s.log e) := by
  have hb := h.allBound_mono [] [e]
  rw [append_nil] at hb
  exact h.grow [] [e] (append_nil _).symm rfl rfl h.files h.written hb fun e' he' => mem_singleton.1 he' ▸ he

theorem Sound.change (h : Sound s) (revisions : Table Uri Opened) (nextId : Nat) (es : List Event)
    (hb : AllBound s.issued (s.journal ++ es) revisions) (hes : ∀ e ∈ es, Fine s.journal e) :
    Sound { s with revisions, nextId, journal := s.journal ++ es } :=
  h.grow [] es (append_nil _).symm rfl rfl h.files h.written hb hes

theorem Sound.record (h : Sound s) (uri : Uri) (backend : Backend) (revision : Nat) (e : Event)
    (hb : Bound s.issued (s.journal ++ [e]) uri backend revision) (he : Fine s.journal e) :
    Sound ((s.record uri backend revision).log e) := by
  refine h.change _ _ [e] ?_ fun e' he' => mem_singleton.1 he' ▸ he
  intro uri' opened hg
  simp only [State.record, Table.get_set] at hg
  split at hg
  · rename_i heq
    cases hg
    rw [heq]
    exact hb
  · have hold := (h.revisions uri' opened hg).mono [] [e]
    rwa [append_nil] at hold

theorem Sound.drop (h : Sound s) {revisions : Table Uri Opened}
    (hr : ∀ u opened, revisions.get u = some opened → s.revisions.get u = some opened) (e : Event)
    (he : Fine s.journal e) : Sound ({ s with revisions }.log e) := by
  refine h.change _ _ [e] ?_ fun e' he' => mem_singleton.1 he' ▸ he
  intro uri opened hg
  have hold := (h.revisions uri opened (hr uri opened hg)).mono [] [e]
  rwa [append_nil] at hold

variable [DecidableEq Place] {lower : String → String} {locate : Uri → Place}

theorem Sound.write (h : Sound s) (p : Place) (content : String) (writer : Option Nat) (es : List Event)
    (hw : writer = none ∨ writer = some s.issued.length) (hes : ∀ e ∈ es, Fine s.journal e) :
    Sound { s.write p content writer with journal := s.journal ++ es } := by
  refine h.grow [content] es rfl rfl rfl ?_ ?_ (h.allBound_mono [content] es) hes
  · intro q file hf
    dsimp only [State.write] at hf ⊢
    split at hf
    · cases hf
      exact getElem?_concat_length
    · exact getElem?_append_of_some (h.files q file hf) [content]
  · intro q revision hq
    dsimp only [State.write] at hq ⊢
    split at hq
    · rename_i heq
      rw [if_pos heq]
      rcases hw with rfl | rfl
      · cases hq
      · exact ⟨_, rfl, Option.some.inj hq⟩
    · rename_i hne
      rw [if_neg hne]
      exact h.written q revision hq

theorem Sound.shuffle (h : Sound s) (moves : Place → Option Place) : Sound (s.shuffle moves) := by
  have hb := h.allBound_mono [] []
  rw [append_nil, append_nil] at hb
  refine h.grow [] [] (append_nil _).symm (append_nil _).symm rfl ?_ ?_ hb (by simp)
  · intro p file hf
    obtain ⟨q, -, hq⟩ := Option.bind_eq_some_iff.1 hf
    exact h.files q file hq
  · intro p revision hp
    dsimp only [State.shuffle] at hp ⊢
    split at hp
    · rename_i heq
      rw [heq]
      exact h.written p revision hp
    · cases hp

theorem sound_step (h : Sound s) (hm : Moves locate s t) : Sound t := by
  have plain : ∀ {issued : List String} {j : List Event} {news : List Call}, (∀ call ∈ news, call.plain = true) →
      ∀ call ∈ news, CallSound issued j call := fun hp call hc => callSound_of_plain (hp call hc)
  cases hm with
  | aside news ha hp => exact h.aside ha (plain hp)
  | read uri backend file revision hf hr ha =>
    refine h.aside ha fun call hc => ?_
    obtain rfl := mem_singleton.1 hc
    rcases hr with rfl | rfl
    · exact trivial
    · exact h.files _ file hf
  | snapshot id uri backend content revision hc ha =>
    refine h.aside ha fun call hcall => ?_
    obtain rfl := mem_singleton.1 hcall
    have hread := h.calls id _ hc
    cases revision with
    | none => exact trivial
    | some revision => exact hread
  | send uri content backend opened hg hb ha =>
    refine h.aside ha fun call hc => ?_
    obtain rfl := mem_singleton.1 hc
    have hbound := h.revisions uri opened hg
    rw [hb] at hbound
    exact ⟨rfl, hb, hbound⟩
  | replace id uri content backend on opened file revision hc hf hrev hr ha =>
    obtain ⟨hon, -, content', hi, hk⟩ := h.calls id _ hc
    have hold := h.files _ file hf
    rw [hrev, hi] at hold
    cases hold
    refine (h.write (locate uri) content (some s.issued.length)
      [.replaced uri backend on opened.revision file ⟨content, s.issued.length⟩] (.inr rfl) ?_).aside ha ?_
    · intro e he
      obtain rfl := mem_singleton.1 he
      exact ⟨hon, hrev, hk⟩
    · intro call hcall
      obtain rfl := mem_singleton.1 hcall
      rcases hr with rfl | rfl
      · exact trivial
      · exact ⟨hon, getElem?_concat_length, _, _, mem_concat_self⟩
  | shuffle moves news ha hp => exact (h.shuffle moves).aside ha (plain hp)
  | overwrite p content ha =>
    have hw := h.write p content none [] (.inl rfl) (by simp)
    rw [append_nil] at hw
    exact hw.aside ha (by simp)
  | compare r uri opened todo left file hf ha =>
    refine (h.log (.compared uri r.new file.revision) trivial).aside ha fun call hc => ?_
    obtain rfl := mem_singleton.1 hc
    exact mem_concat_self
  | accept id uri backend content revision hc ha =>
    have hi : s.issued[revision]? = some content := h.calls id _ hc
    have hb : Bound s.issued (s.journal ++ [Event.accepted uri backend revision content]) uri backend revision :=
      ⟨content, hi, .accepted mem_concat_self⟩
    exact (h.record uri backend revision _ hb trivial).aside ha (by simp)
  | save id uri content backend on opened revision hc hg ha =>
    obtain ⟨-, hi, sent, old, hr⟩ := h.calls id _ hc
    have hb : Bound s.issued (s.journal ++ [Event.saved uri on (some revision) true]) uri on revision :=
      ⟨content, hi, .saved (mem_append_left _ hr) mem_concat_self⟩
    exact (h.record uri on revision _ hb trivial).aside ha (by simp)
  | unrecorded uri on revision ha => exact (h.log (.saved uri on revision false) trivial).aside ha (by simp)
  | rebind id r uri opened todo left hc hg ha =>
    have hcompared : .compared uri r.new opened.revision ∈ s.journal := h.calls id _ hc
    obtain ⟨content, hi, hk⟩ := h.revisions uri opened hg
    have hb : Bound s.issued (s.journal ++ [Event.rebound uri opened.backend r.new opened.revision]) uri r.new opened.revision :=
      ⟨content, hi, (hk.mono fun e he => mem_append_left _ he).rebound (mem_append_left _ hcompared)
        mem_concat_self⟩
    exact (h.record uri r.new opened.revision _ hb hcompared).aside ha (plain (by simp [Call.plain]))
  | rename «from» «to» backend fuel revisions hr ha =>
    refine (h.change revisions s.nextId [.renamed «from» «to»] ?_ (by simp [Fine])).aside ha (by simp)
    have hb := h.allBound_mono [] [.renamed «from» «to»]
    rw [append_nil] at hb
    exact allBound_rename hb mem_concat_self hr
  | move backend pairs ha =>
    refine (h.change (pairs.foldl (moveRevisions backend) s.revisions) s.nextId
      (pairs.map fun pair => .renamed pair.1 pair.2) ?_ fun e he => ?_).aside ha (by simp)
    case refine_2 =>
      obtain ⟨pair, -, rfl⟩ := mem_map.1 he
      exact trivial
    have hb := h.allBound_mono [] (pairs.map fun pair => .renamed pair.1 pair.2)
    rw [append_nil] at hb
    exact allBound_moves hb fun pair hp => mem_append_right _ (mem_map.2 ⟨pair, hp, rfl⟩)
  | delete uri fuel revisions hr ha => exact (h.drop (deleteRevisions_sub hr) (.deleted uri) trivial).aside ha (by simp)
  | forget uri ha =>
    refine (h.drop (fun u opened hg => ?_) (.forgot uri) trivial).aside ha (by simp)
    rw [Table.get_erase] at hg
    split at hg
    · cases hg
    · exact hg
  | dispose backend fuel revisions hr ha => exact (h.drop (disposeRevisions_sub hr) (.disposed backend) trivial).aside ha (by simp)

theorem sound_of_run {l : List (Transition (State Place) (Action Place))} (h : Run lower locate l s) : Sound s :=
  h.invariant (fun _ => sound_start) fun _ _ _ hs hn => sound_step hs (moves_of_next hn)

end RemoteFiles
end Yuzora
