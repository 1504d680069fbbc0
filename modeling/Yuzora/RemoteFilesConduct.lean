import Yuzora.RemoteFilesKept
/-!
# RemoteFilesConduct — how the documents of a host conduct themselves

Which loops over the revisions end, and what holds in every run (`files_conduct`).
-/
namespace Yuzora
namespace RemoteFiles

variable {«from» «to» : Uri} {backend : Backend} {opened : Opened} {u : Uri}

/-! ## Loops that end -/

/-- What a turn of the rename's loop has left to do with a key: one below the source may be set again, further up. -/
def weight («from» k : Uri) : Nat := if «from».under k then k.path.length + 2 else 1

theorem total_filter_le {β : Type} (f : β → Nat) (p : β → Bool) : ∀ l : List β, total f (l.filter p) ≤ total f l
  | [] => Nat.le_refl _
  | a :: l => by
    have ih := total_filter_le f p l
    by_cases ha : p a = true
    · rw [List.filter_cons_of_pos ha, total, total]
      omega
    · rw [List.filter_cons_of_neg ha, total]
      omega

theorem total_concat {β : Type} (f : β → Nat) (a : β) : ∀ l : List β, total f (l ++ [a]) = total f l + f a
  | [] => by simp [total]
  | b :: l => by
    rw [List.cons_append, total, total, total_concat f a l]
    omega

theorem weight_reroot (h : «from».under «to» = false) (hu : «from».under u = true) :
    weight «from» («from».reroot «to» u) < u.path.length + 2 := by
  unfold weight
  split
  · rename_i hnew
    obtain ⟨hw, hp⟩ := of_decide_eq_true hnew
    obtain ⟨-, hup⟩ := of_decide_eq_true hu
    have hws : «to».workspace = «from».workspace := hw
    have hshort : «to».path.length < «from».path.length := by
      by_contra hlong
      have hpre : «from».path <+: «to».path :=
        List.prefix_of_prefix_length_le hp (List.prefix_append _ _) (Nat.le_of_not_lt hlong)
      rw [Uri.under, decide_eq_true ⟨hws, hpre⟩] at h
      cases h
    have hlen := hup.length_le
    have hnewlen : («from».reroot «to» u).path.length = «to».path.length + (u.path.length - «from».path.length) := by
      simp [Uri.reroot]
    omega
  · omega

/-- **A rename's loop ends** where the target is not the source or below it. -/
theorem renameRevisions_ends (h : «from».under «to» = false) (revisions : Table Uri Opened) :
    ∃ fuel revisions', renameRevisions «from» «to» backend fuel revisions = some revisions' := by
  refine Walk.run_ends (fun w => total (weight «from») w.todo) ?_ ?_ (.start revisions)
  · intro table k todo
    have hpos : 0 < weight «from» k := by
      unfold weight
      split <;> omega
    simp only [total]
    omega
  · intro table k v todo hg
    have hless := total_filter_le (weight «from») (fun j => decide (j ≠ k)) todo
    unfold renameTurn
    split
    · rename_i hu
      have hnew := weight_reroot h hu
      have hk : weight «from» k = k.path.length + 2 := if_pos hu
      split
      · by_cases hc : (table.erase k).contains («from».reroot «to» k) = true
        · simp only [Walk.set, Walk.delete, hc, if_true, total]
          omega
        · simp only [Walk.set, Walk.delete, hc, Bool.false_eq_true, if_false, total, total_concat]
          omega
      · simp only [Walk.delete, total]
        omega
    · rename_i hu
      have hk : weight «from» k = 1 := if_neg hu
      simp only [total]
      omega

/-- **A loop that only deletes ends.** -/
theorem deletes_ends {body : Uri → Opened → Walk Uri Opened → Walk Uri Opened}
    (hbody : ∀ k v w, body k v w = w ∨ body k v w = w.delete k) (revisions : Table Uri Opened) :
    ∃ fuel revisions', Walk.run body fuel (.start revisions) = some revisions' := by
  refine Walk.run_ends (fun w => w.todo.length) ?_ ?_ (.start revisions)
  · intro table k todo
    simp
  · intro table k v todo hg
    rcases hbody k v ⟨table, todo⟩ with hb | hb
    · simp [hb]
    · have hle := List.length_filter_le (fun j => decide (j ≠ k)) todo
      simp only [hb, Walk.delete, List.length_cons]
      omega

theorem deleteRevisions_ends (uri : Uri) (revisions : Table Uri Opened) :
    ∃ fuel revisions', deleteRevisions uri fuel revisions = some revisions' := by
  refine deletes_ends (fun k v w => ?_) revisions
  unfold deleteTurn
  split
  · exact .inr rfl
  · exact .inl rfl

theorem disposeRevisions_ends (backend : Backend) (revisions : Table Uri Opened) :
    ∃ fuel revisions', disposeRevisions backend fuel revisions = some revisions' := by
  refine deletes_ends (fun k v w => ?_) revisions
  unfold disposeTurn
  split
  · exact .inr rfl
  · exact .inl rfl

/-- **A rename of a document to itself never ends.** -/
theorem renameRevisions_never (hb : opened.backend = backend) (fuel : Nat)
    (table : Table Uri Opened) (hg : table.get u = some opened) :
    Walk.run (renameTurn u u backend) fuel ⟨table, [u]⟩ = none := by
  have hself : u.under u = true := by simp [Uri.under]
  have hsame : u.reroot u u = u := by simp [Uri.reroot]
  refine Walk.run_never (fun w => w.todo = [u] ∧ w.table.get u = some opened) ?_ ?_ ?_ fuel _ ⟨rfl, hg⟩
  · intro w hw
    simp [hw.1]
  · intro table k todo hnone hw
    obtain ⟨rfl, -⟩ := List.cons.inj hw.1
    simp [hnone] at hw
  · intro table k v todo hk hw
    obtain ⟨rfl, rfl⟩ := List.cons.inj hw.1
    obtain rfl : v = opened := Option.some.inj (hk.symm.trans hw.2)
    rw [renameTurn, if_pos hself, if_pos hb, hsame]
    simp [Walk.set, Walk.delete, Table.contains]

/-! ## The next comparison -/

variable {Place : Type} {lower : String → String} {s : State Place} {t : State Place}

def Call.left : Call → Nat
  | .rebinding _ todo _ => 3 * todo.length + 1
  | .comparing _ _ _ todo _ none => 3 * todo.length + 3
  | .comparing _ _ _ todo _ (some _) => 3 * todo.length + 2
  | _ => 0

def Nearer (t : State Place) (id turns : Nat) : Prop := ∀ call, t.calls.get id = some call → call.left < turns

theorem nearer_of_set {calls : Table Nat Call} {id turns : Nat} {call : Call}
    (hs : t.calls = calls.set id call) (h : call.left < turns) : Nearer t id turns := by
  intro call' hc
  rw [hs] at hc
  cases (Table.get_set_self calls id call).symm.trans hc
  exact h

theorem nearer_finish {id turns : Nat} : Nearer (s.finish id) id turns := by
  intro call hc
  simp [State.finish] at hc

variable [DecidableEq Place] {locate : Uri → Place}

/-- **A comparison of revisions comes to its end**: each of its steps leaves fewer. -/
theorem compare_nearer {id fuel : Nat} {call : Call} (hc : 0 < call.left)
    (h : resume lower s id fuel call = some t ∨ (∃ chance, serve locate s id chance call = some t) ∨
      failed s id call = some t) : Nearer t id call.left := by
  cases call with
  | rebinding r todo left =>
    rcases h with h | ⟨chance, h⟩ | h
    · cases todo with
      | nil =>
        cases h
        unfold leave
        split
        · exact nearer_finish
        · split
          · exact nearer_of_set rfl (by simp [Call.left])
          · exact nearer_finish
      | cons e todo =>
        cases h
        unfold rebindTurn
        split
        · exact nearer_of_set rfl (by simp [Call.left])
        · exact nearer_of_set rfl (by simp [Call.left]; omega)
    · cases h
    · cases h
      exact nearer_finish
  | comparing r uri opened todo left answer =>
    cases answer with
    | none =>
      rcases h with h | ⟨chance, h⟩ | h
      · cases h
      · simp only [serve] at h
        split at h
        · cases h
          exact nearer_of_set rfl (by simp [Call.left])
        · split at h
          · cases h
            exact nearer_of_set rfl (by simp [Call.left])
          · cases h
            exact nearer_of_set rfl (by simp [Call.left])
      · cases h
        exact nearer_of_set rfl (by simp [Call.left])
    | some revision =>
      rcases h with h | ⟨chance, h⟩ | h
      · cases h
        unfold afterCompare
        split
        · split
          · exact nearer_of_set rfl (by simp [Call.left])
          · exact nearer_of_set rfl (by simp [Call.left])
        · exact nearer_finish
      · cases h
      · cases h
        exact nearer_finish
  | _ => cases hc

/-! ## Conduct -/

structure Conduct (lower : String → String) (locate : Uri → Place) (s : State Place) : Prop where
  /-- A save replaced what its document had known, on the connection it was requested on. -/
  replaced : ∀ earlier uri requested on sent old new later,
    s.journal = earlier ++ Event.replaced uri requested on sent old new :: later →
      on = requested ∧ old.revision = sent ∧ Known earlier uri on sent old.content
  /-- What is bound to a new connection, the host told there. -/
  rebound : ∀ earlier uri before new revision later,
    s.journal = earlier ++ Event.rebound uri before new revision :: later → .compared uri new revision ∈ earlier
  /-- What a save recorded is the file's revision, where nothing touched the document since and no one else changed the
  file; the next save is then not refused. -/
  kept : ∀ earlier u b revision later, s.journal = earlier ++ .saved u b (some revision) true :: later →
    (∀ e ∈ later, ¬Touches u b e) → s.written (locate u) = some revision →
      ∃ opened file, s.revisions.get u = some opened ∧ opened.backend = b ∧ s.files (locate u) = some file ∧
        opened.revision = file.revision ∧
        ∀ object workspace path, resolve lower s u = some (object, workspace, path) → workspace.backend = b →
          ∀ id content, beginSave lower s id u content b = s.become id (.saving u content b (.sent opened b)) ∧
            ∀ chance, (serve locate s id chance (.saving u content b (.sent opened b))).isSome = true
  /-- The loops over the revisions end, but for a rename to the source or below it. -/
  renames : ∀ «from» «to» backend, «from».under «to» = false →
    ∃ fuel revisions, renameRevisions «from» «to» backend fuel s.revisions = some revisions
  deletes : ∀ uri, ∃ fuel revisions, deleteRevisions uri fuel s.revisions = some revisions
  disposes : ∀ backend, ∃ fuel revisions, disposeRevisions backend fuel s.revisions = some revisions
  compares : ∀ id fuel call t, 0 < call.left → (resume lower s id fuel call = some t ∨
    (∃ chance, serve locate s id chance call = some t) ∨ failed s id call = some t) → Nearer t id call.left

theorem save_accepted {b : Backend} {file : File} {object : Nat} {workspace : Workspace}
    {path : List String} (hg : s.revisions.get u = some opened) (hb : opened.backend = b)
    (hf : s.files (locate u) = some file) (hrev : opened.revision = file.revision)
    (hr : resolve lower s u = some (object, workspace, path)) (hw : workspace.backend = b) (id : Nat) (content : String) :
    beginSave lower s id u content b = s.become id (.saving u content b (.sent opened b)) ∧
      ∀ chance, (serve locate s id chance (.saving u content b (.sent opened b))).isSome = true := by
  constructor
  · simp [beginSave, hr, hw, hg, hb]
  · intro chance
    simp [serve, hf, hrev]

/-- **Whatever is called and answered and in whatever order, the documents conduct themselves.** -/
theorem files_conduct (lower : String → String) (locate : Uri → Place)
    (l : List (Transition (State Place) (Action Place))) (s : State Place) (h : Run lower locate l s) :
    Conduct lower locate s := by
  have hsound := sound_of_run h
  have hkept := kept_of_run h
  constructor
  case replaced => exact hsound.replaced
  case rebound => exact hsound.rebound
  case kept =>
    intro earlier u b revision later hj hno hw
    obtain ⟨opened, hg, hb, hrev⟩ := hkept earlier u b revision later hj hno
    obtain ⟨file, hf, hfile⟩ := hsound.written _ _ hw
    have hsame : opened.revision = file.revision := hrev.trans hfile.symm
    exact ⟨opened, file, hg, hb, hf, hsame, fun object workspace path hr hwb id content =>
      save_accepted hg hb hf hsame hr hwb id content⟩
  case renames => exact fun _ _ _ hu => renameRevisions_ends hu s.revisions
  case deletes => exact fun uri => deleteRevisions_ends uri s.revisions
  case disposes => exact fun backend => disposeRevisions_ends backend s.revisions
  case compares => exact fun _ _ _ _ hc ht => compare_nearer hc ht

namespace Sample

def place : List String := ["w", "d", "f"]

/-- The document in its workspace, and in one that is open inside of it. -/
def document : Uri := ⟨"host", false, ["w"], place⟩
def inner : Uri := ⟨"host", false, ["w", "d"], place⟩

def host : State (List String) where
  workspaces := .empty
  objects := .empty
  revisions := .empty
  sessions _ := none
  current _ := true
  calls := .empty
  nextId := 0
  files p := if p = place then some ⟨"a", 0⟩ else none
  issued := ["a"]
  written _ := none
  journal := []

theorem start_host : Start host where
  revisions := rfl
  calls := rfl
  journal := rfl
  written _ := rfl
  issued p file h := by
    simp only [host] at h
    split at h
    · cases h
      rfl
    · cases h

def chance : Chance (List String) := ⟨false, some, [], document⟩

def played (acts : List (Action (List String))) :
    Option (List (Transition (State (List String)) (Action (List String))) × State (List String)) :=
  Trace.play (fun s a => (next id Uri.path s a).map (Prod.mk a)) acts [] host

theorem run_of_played (acts : List (Action (List String)))
    {l : List (Transition (State (List String)) (Action (List String)))} {s : State (List String)}
    (h : played acts = some (l, s)) : Run id Uri.path l s :=
  Trace.of_played start_host h

def read (uri : Uri) (id : Nat) : List (Action (List String)) :=
  [.readRemoteFileSnapshot uri, .serve id chance, .resume id 0, .accept id]

def save (uri : Uri) (id : Nat) (content : String) : List (Action (List String)) :=
  [.saveRemoteFile uri content, .resume id 0, .serve id chance, .resume id 0]

def register (uri : Uri) : Action (List String) := .register uri (.runtime ⟨"host", 0⟩ 0)

def saved : List (Action (List String)) := register document :: read document 1 ++ save document 3 "b"

/-- A snapshot is read before a save, and accepted while the save waits for the host. -/
def overtaken : List (Action (List String)) :=
  register document :: read document 1 ++ [Action.readRemoteFileSnapshot document, .serve 3 chance, .resume 3 0,
    .saveRemoteFile document "b", .resume 4 0, .serve 4 chance, .accept 3, .resume 4 0]

/-- The file is saved as a document of the one workspace, and then as a document of the other. -/
def aliased : List (Action (List String)) :=
  register document :: register inner :: read document 2 ++ save document 4 "b" ++ read inner 6 ++ save inner 8 "c"

def isSnapshot : Call → Bool
  | .snapshot _ _ _ _ => true
  | _ => false

def settled (s : State (List String)) : Bool := s.calls.entries.all fun e => isSnapshot e.2

/-- The documents that a save was fulfilled for, with their revisions. -/
def saves (s : State (List String)) : List (Uri × Option Nat) :=
  s.journal.filterMap fun
    | .saved uri _ revision _ => some (uri, revision)
    | _ => none

end Sample

theorem files_conduct_saved : ∃ l s, Sample.played Sample.saved = some (l, s) ∧
    Sample.saves s = [(Sample.document, some 1)] ∧ Conduct id Uri.path s :=
  ⟨_, _, rfl, rfl, files_conduct id Uri.path _ _ (Sample.run_of_played Sample.saved rfl)⟩

/-- A rename of an open document to itself never ends; a snapshot accepted during a save leaves its document behind the
host; and a document that is open in two workspaces falls behind where the other is saved. -/
theorem files_strand : (∃ l s, Run id Uri.path l s ∧ ∃ opened, s.revisions.get Sample.document = some opened ∧
      ∀ fuel, renameRevisions Sample.document Sample.document opened.backend fuel s.revisions = none) ∧
    (∃ l s, Run id Uri.path l s ∧ l.map Transition.label = Sample.overtaken ∧ Sample.settled s = true ∧
      Sample.saves s = [(Sample.document, some 1)] ∧
      (s.revisions.get Sample.document).map Opened.revision = some 0 ∧
      (s.files Sample.place).map File.revision = some 1) ∧
    ∃ l s, Run id Uri.path l s ∧ l.map Transition.label = Sample.aliased ∧ Sample.settled s = true ∧
      Sample.saves s = [(Sample.document, some 1), (Sample.inner, some 2)] ∧
      (s.revisions.get Sample.document).map Opened.revision = some 1 ∧
      (s.files Sample.place).map File.revision = some 2 :=
  ⟨⟨_, _, Sample.run_of_played Sample.saved rfl, _, rfl, fun fuel => renameRevisions_never rfl fuel _ rfl⟩,
    ⟨_, _, Sample.run_of_played Sample.overtaken rfl, rfl, rfl, rfl, rfl, rfl⟩,
    ⟨_, _, Sample.run_of_played Sample.aliased rfl, rfl, rfl, rfl, rfl, rfl⟩⟩

end RemoteFiles
end Yuzora
