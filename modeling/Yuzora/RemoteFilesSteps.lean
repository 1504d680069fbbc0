import Yuzora.RemoteFiles
/-!
# RemoteFilesSteps — what one step does to the revisions

`Moves` says once how a step changes the revisions, the files and the journal.  What else it changes is in `Aside`.
-/
namespace Yuzora
namespace RemoteFiles

open Option

variable {Place : Type} [DecidableEq Place] {lower : String → String} {locate : Uri → Place}
variable {s t : State Place} {id fuel : Nat}

def Call.plain : Call → Bool
  | .reading _ _ (some _) | .snapshot _ _ _ _ | .saving _ _ _ (.sent _ _) | .saving _ _ _ (.answered _ _ _) => false
  | .comparing _ _ _ _ _ (some (some _)) => false
  | _ => true

/-- Nothing changes but the workspaces, the connections and the calls; `news` are the calls that are new. -/
structure Aside (news : List Call) (s t : State Place) : Prop where
  revisions : t.revisions = s.revisions
  files : t.files = s.files
  issued : t.issued = s.issued
  written : t.written = s.written
  journal : t.journal = s.journal
  calls : ∀ id call, t.calls.get id = some call → s.calls.get id = some call ∨ call ∈ news

theorem aside_same (s : State Place) : Aside [] s s := ⟨rfl, rfl, rfl, rfl, rfl, fun _ _ h => .inl h⟩

theorem aside_become (s : State Place) (id : Nat) (call : Call) : Aside [call] s (s.become id call) where
  revisions := rfl
  files := rfl
  issued := rfl
  written := rfl
  journal := rfl
  calls id' call' h := by
    simp only [State.become, Table.get_set] at h
    split at h
    · exact .inr (List.mem_singleton.2 (Option.some.inj h).symm)
    · exact .inl h

theorem aside_open (s : State Place) (call : Call) : Aside [call] s (s.open_ call) where
  revisions := rfl
  files := rfl
  issued := rfl
  written := rfl
  journal := rfl
  calls := (aside_become s s.nextId call).calls

theorem aside_finish (s : State Place) (id : Nat) : Aside [] s (s.finish id) where
  revisions := rfl
  files := rfl
  issued := rfl
  written := rfl
  journal := rfl
  calls id' call h := by
    simp only [State.finish, Table.get_erase] at h
    split at h
    · cases h
    · exact .inl h

/-- **What a step can do.** -/
inductive Moves (locate : Uri → Place) (s : State Place) : State Place → Prop
  | aside {t : State Place} (news : List Call) : Aside news s t → (∀ call ∈ news, call.plain = true) → Moves locate s t
  | read {t : State Place} (uri : Uri) (backend : Backend) (file : File) (revision : Option Nat) :
      s.files (locate uri) = some file → revision = none ∨ revision = some file.revision →
      Aside [.reading uri backend (some (file.content, revision))] s t → Moves locate s t
  | snapshot {t : State Place} (id : Nat) (uri : Uri) (backend : Backend) (content : String) (revision : Option Nat) :
      s.calls.get id = some (.reading uri backend (some (content, revision))) →
      Aside [.snapshot uri backend content revision] s t → Moves locate s t
  | send {t : State Place} (uri : Uri) (content : String) (backend : Backend) (opened : Opened) :
      s.revisions.get uri = some opened → opened.backend = backend →
      Aside [.saving uri content backend (.sent opened backend)] s t → Moves locate s t
  | replace {t : State Place} (id : Nat) (uri : Uri) (content : String) (backend on : Backend) (opened : Opened)
      (file : File) (revision : Option Nat) :
      s.calls.get id = some (.saving uri content backend (.sent opened on)) → s.files (locate uri) = some file →
      file.revision = opened.revision → revision = none ∨ revision = some s.issued.length →
      Aside [.saving uri content backend (.answered opened on revision)]
        ((s.write (locate uri) content (some s.issued.length)).log
          (.replaced uri backend on opened.revision file ⟨content, s.issued.length⟩)) t → Moves locate s t
  | shuffle {t : State Place} (moves : Place → Option Place) (news : List Call) : Aside news (s.shuffle moves) t →
      (∀ call ∈ news, call.plain = true) → Moves locate s t
  | overwrite {t : State Place} (p : Place) (content : String) : Aside [] (s.write p content none) t → Moves locate s t
  | compare {t : State Place} (r : Rebind) (uri : Uri) (opened : Opened) (todo : List (Uri × Opened))
      (left : Option Reconnect) (file : File) : s.files (locate uri) = some file →
      Aside [.comparing r uri opened todo left (some (some file.revision))]
        (s.log (.compared uri r.new file.revision)) t → Moves locate s t
  | accept {t : State Place} (id : Nat) (uri : Uri) (backend : Backend) (content : String) (revision : Nat) :
      s.calls.get id = some (.snapshot uri backend content (some revision)) →
      Aside [] ((s.record uri backend revision).log (.accepted uri backend revision content)) t → Moves locate s t
  | save {t : State Place} (id : Nat) (uri : Uri) (content : String) (backend on : Backend) (opened : Opened)
      (revision : Nat) : s.calls.get id = some (.saving uri content backend (.answered opened on (some revision))) →
      s.revisions.get uri = some opened →
      Aside [] ((s.record uri on revision).log (.saved uri on (some revision) true)) t → Moves locate s t
  | unrecorded {t : State Place} (uri : Uri) (on : Backend) (revision : Option Nat) :
      Aside [] (s.log (.saved uri on revision false)) t → Moves locate s t
  | rebind {t : State Place} (id : Nat) (r : Rebind) (uri : Uri) (opened : Opened) (todo : List (Uri × Opened))
      (left : Option Reconnect) : s.calls.get id = some (.comparing r uri opened todo left (some (some opened.revision))) →
      s.revisions.get uri = some opened →
      Aside [.rebinding r todo left] ((s.record uri r.new opened.revision).log
        (.rebound uri opened.backend r.new opened.revision)) t → Moves locate s t
  | rename {t : State Place} («from» «to» : Uri) (backend : Backend) (fuel : Nat) (revisions : Table Uri Opened) :
      renameRevisions «from» «to» backend fuel s.revisions = some revisions →
      Aside [] ({ s with revisions }.log (.renamed «from» «to»)) t → Moves locate s t
  | move {t : State Place} (backend : Backend) (pairs : List (Uri × Uri)) :
      Aside [] { s with
        revisions := pairs.foldl (moveRevisions backend) s.revisions
        journal := s.journal ++ pairs.map fun pair => .renamed pair.1 pair.2 } t → Moves locate s t
  | delete {t : State Place} (uri : Uri) (fuel : Nat) (revisions : Table Uri Opened) :
      deleteRevisions uri fuel s.revisions = some revisions →
      Aside [] ({ s with revisions }.log (.deleted uri)) t → Moves locate s t
  | forget {t : State Place} (uri : Uri) :
      Aside [] ({ s with revisions := s.revisions.erase uri }.log (.forgot uri)) t → Moves locate s t
  | dispose {t : State Place} (backend : Backend) (fuel : Nat) (revisions : Table Uri Opened) :
      disposeRevisions backend fuel s.revisions = some revisions →
      Aside [] ({ s with revisions }.log (.disposed backend)) t → Moves locate s t

theorem moves_finish (s : State Place) (id : Nat) : Moves locate s (s.finish id) := .aside [] (aside_finish s id) (by simp)

variable {call : Call} {revision : Option Nat} {opened : Opened}

theorem moves_become (s : State Place) (id : Nat) (h : call.plain = true) : Moves locate s (s.become id call) :=
  .aside [call] (aside_become s id call) (by simpa using h)

theorem moves_open (s : State Place) (h : call.plain = true) : Moves locate s (s.open_ call) :=
  .aside [call] (aside_open s call) (by simpa using h)

theorem told_cases (chance : Chance Place) (revision : Nat) :
    told chance revision = none ∨ told chance revision = some revision := by
  unfold told
  split
  · exact .inl rfl
  · exact .inr rfl

theorem moves_of_serve {chance : Chance Place} (hc : s.calls.get id = some call)
    (h : serve locate s id chance call = some t) : Moves locate s t := by
  unfold serve at h
  split at h
  · rename_i uri backend
    obtain ⟨file, hf, rfl⟩ := map_eq_some_iff.1 h
    exact .read uri backend file _ hf (told_cases chance file.revision) (aside_become s id _)
  · rename_i uri content backend opened on
    split at h
    · cases h
    · rename_i file hf
      split at h
      · rename_i hrev
        cases h
        exact .replace id uri content backend on opened file _ hc hf hrev (told_cases chance s.issued.length)
          ⟨rfl, rfl, rfl, rfl, rfl, (aside_become s id _).calls⟩
      · cases h
  · cases h
    exact .shuffle chance.moves _ (aside_become (s.shuffle chance.moves) id _) (by simp [Call.plain])
  · cases h
    exact .shuffle chance.moves _ (aside_become (s.shuffle chance.moves) id _) (by simp [Call.plain])
  · cases h
    exact .shuffle chance.moves _ (aside_become (s.shuffle chance.moves) id _) (by simp [Call.plain])
  · cases h
    exact moves_become s id rfl
  · cases h
    exact moves_become s id rfl
  · rename_i r uri opened todo left
    split at h
    · cases h
      exact moves_become s id rfl
    · rename_i file hf
      split at h
      · cases h
        exact moves_become s id rfl
      · cases h
        exact .compare r uri opened todo left file hf ⟨rfl, rfl, rfl, rfl, rfl, (aside_become s id _).calls⟩
  · cases h

theorem moves_beginSave (s : State Place) (id : Nat) (uri : Uri) (content : String) (backend : Backend) :
    Moves locate s (beginSave lower s id uri content backend) := by
  unfold beginSave
  split
  · exact moves_finish s id
  · rename_i object workspace path hr
    split
    · rename_i hb
      split
      · exact moves_finish s id
      · rename_i opened ho
        split
        · rename_i heq
          rw [hb] at heq ⊢
          exact .send uri content backend opened ho heq (aside_become s id _)
        · exact moves_finish s id
    · exact moves_finish s id

theorem moves_afterSave {uri : Uri} {content : String} {backend on : Backend}
    (hc : s.calls.get id = some (.saving uri content backend (.answered opened on revision))) :
    Moves locate s (afterSave lower s id uri opened on revision) := by
  unfold afterSave
  split
  · split
    · exact .unrecorded uri on none ⟨rfl, rfl, rfl, rfl, rfl, (aside_finish s id).calls⟩
    · rename_i revision
      split
      · rename_i hg
        exact .save id uri content backend on opened revision hc hg ⟨rfl, rfl, rfl, rfl, rfl, (aside_finish s id).calls⟩
      · exact .unrecorded uri on (some revision) ⟨rfl, rfl, rfl, rfl, rfl, (aside_finish s id).calls⟩
  · exact moves_finish s id

theorem moves_afterOpen (s : State Place) (id : Nat) (left : Reconnect) (key : Uri) (object : Nat) (before : Backend)
    (canonical : Uri) : Moves locate s (afterOpen s id left key object before canonical) := by
  unfold afterOpen
  split
  · exact .aside [_] ⟨rfl, rfl, rfl, rfl, rfl, (aside_become s id _).calls⟩ (by simp [Call.plain])
  · exact moves_become s id rfl

theorem moves_afterListing (s : State Place) (id : Nat) (hostId sessionId : String) (canonical : Uri) :
    Moves locate s (afterListing s id hostId sessionId canonical) := by
  unfold afterListing
  dsimp only
  split
  · exact moves_finish s id
  · split
    · exact .aside [] ⟨rfl, rfl, rfl, rfl, rfl, (aside_finish s id).calls⟩ (by simp)
    · exact .aside [_] ⟨rfl, rfl, rfl, rfl, rfl, (aside_become s id _).calls⟩ (by simp [Call.plain])

theorem moves_reconnectTurn (s : State Place) (id : Nat) (left : Reconnect) :
    Moves locate s (reconnectTurn s id left) := by
  unfold reconnectTurn
  split
  · exact moves_finish s id
  · dsimp only
    split
    · exact moves_become s id rfl
    · split
      · exact moves_become s id rfl
      · split
        · exact moves_become s id rfl
        · exact moves_become s id rfl

theorem moves_afterCompare {r : Rebind} {uri : Uri} {todo : List (Uri × Opened)} {left : Option Reconnect}
    (hc : s.calls.get id = some (.comparing r uri opened todo left (some revision))) :
    Moves locate s (afterCompare s id r uri opened todo left revision) := by
  unfold afterCompare
  split
  · split
    · rename_i hg
      obtain ⟨hg, rfl⟩ := hg
      exact .rebind id r uri opened todo left hc hg ⟨rfl, rfl, rfl, rfl, rfl, (aside_become s id _).calls⟩
    · exact moves_become s id rfl
  · exact moves_finish s id

theorem moves_of_resume (hc : s.calls.get id = some call) (h : resume lower s id fuel call = some t) :
    Moves locate s t := by
  unfold resume at h
  split at h
  case h_1 uri backend content revision =>
    split at h
    · cases h
      exact .snapshot id uri backend content revision hc (aside_become s id _)
    · cases h
      exact moves_finish s id
  case h_2 uri content backend =>
    cases h
    exact moves_beginSave s id uri content backend
  case h_3 uri content backend opened on revision =>
    cases h
    exact moves_afterSave hc
  case h_4 «from» «to» backend =>
    unfold afterRename at h
    split at h
    · obtain ⟨revisions, hr, rfl⟩ := map_eq_some_iff.1 h
      exact .rename «from» «to» backend fuel revisions hr ⟨rfl, rfl, rfl, rfl, rfl, (aside_finish s id).calls⟩
    · cases h
      exact moves_finish s id
  case h_5 workspace sources backend created =>
    cases h
    unfold afterMove
    split
    · exact .move backend (sources.zip created) ⟨rfl, rfl, rfl, rfl, rfl, (aside_finish s id).calls⟩
    · exact moves_finish s id
  case h_6 uri backend answered =>
    split at h
    · cases h
      exact moves_become s id rfl
    · cases h
      exact moves_finish s id
  case h_7 uri backend =>
    unfold afterDelete at h
    split at h
    · obtain ⟨revisions, hr, rfl⟩ := map_eq_some_iff.1 h
      exact .delete uri fuel revisions hr ⟨rfl, rfl, rfl, rfl, rfl, (aside_finish s id).calls⟩
    · cases h
      exact moves_finish s id
  case h_8 left =>
    cases h
    exact moves_reconnectTurn s id left
  case h_9 left key object before canonical =>
    cases h
    exact moves_afterOpen s id left key object before canonical
  case h_10 hostId sessionId canonical =>
    cases h
    exact moves_afterListing s id hostId sessionId canonical
  case h_11 r left =>
    cases h
    unfold leave
    split
    · exact moves_finish s id
    · split
      · exact moves_become s id rfl
      · exact moves_finish s id
  case h_12 r uri opened todo left =>
    cases h
    unfold rebindTurn
    split
    · exact moves_become s id rfl
    · exact moves_become s id rfl
  case h_13 r uri opened todo left revision =>
    cases h
    exact moves_afterCompare hc
  case h_14 => cases h

theorem moves_around (hr : t.revisions = s.revisions) (hf : t.files = s.files) (hi : t.issued = s.issued)
    (hw : t.written = s.written) (hj : t.journal = s.journal) (hc : t.calls = s.calls) : Moves locate s t :=
  .aside [] ⟨hr, hf, hi, hw, hj, fun id call h => .inl (hc ▸ h)⟩ (by simp)

theorem moves_of_next {a : Action Place} (h : next lower locate s a = some t) : Moves locate s t := by
  cases a with
  | readRemoteFileSnapshot | saveRemoteFile =>
    obtain ⟨found, -, rfl⟩ := map_eq_some_iff.1 h
    exact moves_open s rfl
  | accept id =>
    dsimp only [next] at h
    split at h
    · rename_i uri backend content revision hc
      cases h
      unfold accept
      split
      · split
        · exact moves_around rfl rfl rfl rfl rfl rfl
        · rename_i revision
          exact .accept id uri backend content revision hc (aside_same _)
      · exact moves_around rfl rfl rfl rfl rfl rfl
    · cases h
  | renameRemotePath workspace «from» «to» =>
    dsimp only [next] at h
    split at h
    · cases h
      exact moves_open s rfl
    · cases h
  | moveRemotePaths workspace sources targetDir =>
    obtain ⟨backend, -, h⟩ := bind_eq_some_iff.1 h
    obtain ⟨-, h⟩ := ite_none_right_eq_some.1 h
    cases h
    exact moves_open s rfl
  | deleteRemotePath workspace uri =>
    obtain ⟨backend, -, rfl⟩ := map_eq_some_iff.1 h
    exact moves_open s rfl
  | reconnectRemoteWorkspaces owner guard =>
    cases h
    exact moves_open s rfl
  | registerSftpWorkspace hostId =>
    obtain ⟨sessionId, -, rfl⟩ := map_eq_some_iff.1 h
    exact moves_open s rfl
  | forgetRemoteFileRevision uri =>
    cases h
    exact .forget uri (aside_same _)
  | serve id chance =>
    obtain ⟨call, hc, h⟩ := bind_eq_some_iff.1 h
    exact moves_of_serve hc h
  | resume id fuel =>
    obtain ⟨call, hc, h⟩ := bind_eq_some_iff.1 h
    obtain ⟨-, h⟩ := ite_none_right_eq_some.1 h
    exact moves_of_resume hc h
  | fail id =>
    obtain ⟨call, hc, h⟩ := bind_eq_some_iff.1 h
    unfold failed at h
    split at h
    · cases h
    · cases h
      exact moves_become s id rfl
    · cases h
      exact moves_finish s id
  | overwrite p content =>
    cases h
    exact .overwrite p content (aside_same _)
  | shuffle moves =>
    cases h
    exact .shuffle moves [] (aside_same _) (by simp)
  | connection | session | register =>
    cases h
    exact moves_around rfl rfl rfl rfl rfl rfl
  | disposeWorkspace object fuel =>
    dsimp only [next, dispose] at h
    split at h
    · cases h
    · rename_i workspace hw
      obtain ⟨revisions, hr, rfl⟩ := map_eq_some_iff.1 h
      exact .dispose workspace.backend fuel revisions hr ⟨rfl, rfl, rfl, rfl, rfl, fun _ _ h => .inl h⟩

end RemoteFiles
end Yuzora
