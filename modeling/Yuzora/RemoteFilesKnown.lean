import Yuzora.RemoteFilesSteps
/-!
# RemoteFilesKnown — where a recorded revision comes from

A revision is recorded for a document on a connection because a snapshot was accepted there, a save was fulfilled there,
the document was renamed, or a new connection told the same revision (`Known`).
-/
namespace Yuzora
namespace RemoteFiles

open Table

variable {Place : Type} [DecidableEq Place] {lower : String → String} {locate : Uri → Place}
variable {s t : State Place} {id fuel : Nat}

/-- The document has known the content by its revision, on the connection. -/
inductive Known (journal : List Event) : Uri → Backend → Nat → String → Prop
  | accepted {uri : Uri} {backend : Backend} {revision : Nat} {content : String} :
      .accepted uri backend revision content ∈ journal → Known journal uri backend revision content
  | saved {uri : Uri} {backend requested : Backend} {revision sent : Nat} {content : String} {old : File} :
      .replaced uri requested backend sent old ⟨content, revision⟩ ∈ journal →
      .saved uri backend (some revision) true ∈ journal → Known journal uri backend revision content
  | renamed {uri «from» «to» : Uri} {backend : Backend} {revision : Nat} {content : String} :
      Known journal uri backend revision content → .renamed «from» «to» ∈ journal → «from».under uri = true →
      Known journal («from».reroot «to» uri) backend revision content
  | rebound {uri : Uri} {before new : Backend} {revision : Nat} {content : String} :
      Known journal uri before revision content → .compared uri new revision ∈ journal →
      .rebound uri before new revision ∈ journal → Known journal uri new revision content

variable {j : List Event} {uri : Uri} {backend : Backend} {revision : Nat}

theorem Known.mono {j' : List Event} {content : String}
    (h : Known j uri backend revision content) (hj : ∀ e ∈ j, e ∈ j') : Known j' uri backend revision content := by
  induction h with
  | accepted ha => exact .accepted (hj _ ha)
  | saved hr hs => exact .saved (hj _ hr) (hj _ hs)
  | renamed _ hr hu ih => exact ih.renamed (hj _ hr) hu
  | rebound _ hc hr ih => exact ih.rebound (hj _ hc) (hj _ hr)

/-- The revision was issued with a content that the document has known. -/
def Bound (issued : List String) (journal : List Event) (uri : Uri) (backend : Backend) (revision : Nat) : Prop :=
  ∃ content, issued[revision]? = some content ∧ Known journal uri backend revision content

theorem getElem?_append_of_some {α : Type} {l : List α} {k : Nat} {x : α} (h : l[k]? = some x) (more : List α) :
    (l ++ more)[k]? = some x := by
  rw [List.getElem?_append_left (List.getElem?_eq_some_iff.1 h).1, h]

variable {issued : List String}

theorem Bound.mono (h : Bound issued j uri backend revision) (more : List String) (es : List Event) :
    Bound (issued ++ more) (j ++ es) uri backend revision := by
  obtain ⟨content, hi, hk⟩ := h
  exact ⟨content, getElem?_append_of_some hi more, hk.mono fun e he => List.mem_append_left es he⟩

def AllBound (issued : List String) (journal : List Event) (revisions : Table Uri Opened) : Prop :=
  ∀ uri opened, revisions.get uri = some opened → Bound issued journal uri opened.backend opened.revision

def CallSound (issued : List String) (journal : List Event) : Call → Prop
  | .reading _ _ (some (content, some revision)) => issued[revision]? = some content
  | .snapshot _ _ content (some revision) => issued[revision]? = some content
  | .saving uri _ backend (.sent opened on) =>
    on = backend ∧ opened.backend = on ∧ Bound issued journal uri on opened.revision
  | .saving uri content backend (.answered _ on (some revision)) =>
    on = backend ∧ issued[revision]? = some content ∧
      ∃ sent old, .replaced uri backend on sent old ⟨content, revision⟩ ∈ journal
  | .comparing r uri _ _ _ (some (some revision)) => .compared uri r.new revision ∈ journal
  | _ => True

theorem CallSound.mono {call : Call} (h : CallSound issued j call)
    (more : List String) (es : List Event) : CallSound (issued ++ more) (j ++ es) call := by
  unfold CallSound at h ⊢
  split at h
  · exact getElem?_append_of_some h more
  · exact getElem?_append_of_some h more
  · exact ⟨h.1, h.2.1, h.2.2.mono more es⟩
  · obtain ⟨hb, hi, sent, old, hr⟩ := h
    exact ⟨hb, getElem?_append_of_some hi more, sent, old, List.mem_append_left es hr⟩
  · exact List.mem_append_left es h
  · exact trivial

theorem callSound_of_plain {call : Call} (h : call.plain = true) : CallSound issued j call := by
  unfold CallSound
  split <;> first | exact trivial | cases h

structure Sound (s : State Place) : Prop where
  files : ∀ p file, s.files p = some file → s.issued[file.revision]? = some file.content
  written : ∀ p revision, s.written p = some revision → ∃ file, s.files p = some file ∧ file.revision = revision
  revisions : AllBound s.issued s.journal s.revisions
  calls : ∀ id call, s.calls.get id = some call → CallSound s.issued s.journal call
  /-- A save replaced what its document had known, on the connection it was requested on. -/
  replaced : ∀ earlier uri requested on sent old new later,
    s.journal = earlier ++ Event.replaced uri requested on sent old new :: later →
      on = requested ∧ old.revision = sent ∧ Known earlier uri on sent old.content
  /-- A new connection had told the revision that is bound to it. -/
  rebound : ∀ earlier uri before new revision later,
    s.journal = earlier ++ Event.rebound uri before new revision :: later → .compared uri new revision ∈ earlier

/-! ## The loops -/

theorem under_reroot («from» «to» uri : Uri) : «to».under («from».reroot «to» uri) = true := by
  simp [Uri.under, Uri.reroot, Uri.workspace]

variable {revisions revisions' : Table Uri Opened}

theorem allBound_rename {«from» «to» : Uri} (h : AllBound issued j revisions) (hj : .renamed «from» «to» ∈ j)
    (hr : renameRevisions «from» «to» backend fuel revisions = some revisions') : AllBound issued j revisions' := by
  refine Walk.run_keeps (AllBound issued j) ?_ fuel _ hr h
  intro table uri opened todo hg hb uri' opened' hg'
  unfold renameTurn at hg'
  split at hg'
  · rename_i hu
    split at hg'
    · simp only [Walk.set, Walk.delete, get_set, get_erase] at hg'
      split at hg'
      · rename_i heq
        cases hg'
        obtain ⟨content, hi, hk⟩ := hb uri opened hg
        rw [heq]
        exact ⟨content, hi, hk.renamed hj hu⟩
      · split at hg'
        · cases hg'
        · exact hb uri' opened' hg'
    · simp only [Walk.delete, get_erase] at hg'
      split at hg'
      · cases hg'
      · exact hb uri' opened' hg'
  · exact hb uri' opened' hg'

theorem allBound_move {pair : Uri × Uri} (h : AllBound issued j revisions) (hj : .renamed pair.1 pair.2 ∈ j) :
    AllBound issued j (moveRevisions backend revisions pair) := by
  have turn : ∀ (table : Table Uri Opened) (e : Uri × Opened), AllBound issued j table →
      Bound issued j e.1 e.2.backend e.2.revision → AllBound issued j (moveTurn pair.1 pair.2 backend table e) := by
    intro table e hb he uri' opened' hg'
    unfold moveTurn at hg'
    split at hg'
    · rename_i hu
      split at hg'
      · simp only [get_set, get_erase] at hg'
        split at hg'
        · rename_i heq
          cases hg'
          obtain ⟨content, hi, hk⟩ := he
          rw [heq]
          exact ⟨content, hi, hk.renamed hj hu⟩
        · split at hg'
          · cases hg'
          · exact hb uri' opened' hg'
      · simp only [get_erase] at hg'
        split at hg'
        · cases hg'
        · exact hb uri' opened' hg'
    · exact hb uri' opened' hg'
  have turns : ∀ (entries : List (Uri × Opened)) (table : Table Uri Opened), AllBound issued j table →
      (∀ e ∈ entries, Bound issued j e.1 e.2.backend e.2.revision) →
        AllBound issued j (entries.foldl (moveTurn pair.1 pair.2 backend) table) := by
    intro entries
    induction entries with
    | nil => exact fun _ ht _ => ht
    | cons e entries ih =>
      intro table ht he
      exact ih _ (turn table e ht (he e List.mem_cons_self)) fun e' he' => he e' (List.mem_cons_of_mem _ he')
  unfold moveRevisions
  split
  · exact h
  · exact turns _ _ h fun e he => h e.1 e.2 (get_eq_some.2 he)

theorem allBound_moves {issued : List String} {j : List Event} {backend : Backend} :
    ∀ {pairs : List (Uri × Uri)} {revisions : Table Uri Opened}, AllBound issued j revisions →
      (∀ pair ∈ pairs, .renamed pair.1 pair.2 ∈ j) →
        AllBound issued j (pairs.foldl (moveRevisions backend) revisions)
  | [], _, h, _ => h
  | pair :: pairs, revisions, h, hj => by
    rw [List.foldl_cons]
    exact allBound_moves (allBound_move h (hj pair List.mem_cons_self)) fun p hp => hj p (List.mem_cons_of_mem _ hp)

theorem deleteRevisions_sub (hr : deleteRevisions uri fuel revisions = some revisions') :
    ∀ u opened, revisions'.get u = some opened → revisions.get u = some opened := by
  refine Walk.run_keeps (fun table => ∀ u opened, table.get u = some opened → revisions.get u = some opened) ?_ fuel _ hr
    fun _ _ h => h
  intro table k v todo hg hp u opened hu
  unfold deleteTurn at hu
  split at hu
  · simp only [Walk.delete, get_erase] at hu
    split at hu
    · cases hu
    · exact hp u opened hu
  · exact hp u opened hu

theorem disposeRevisions_sub (hr : disposeRevisions backend fuel revisions = some revisions') :
    ∀ u opened, revisions'.get u = some opened → revisions.get u = some opened := by
  refine Walk.run_keeps (fun table => ∀ u opened, table.get u = some opened → revisions.get u = some opened) ?_ fuel _ hr
    fun _ _ h => h
  intro table k v todo hg hp u opened hu
  unfold disposeTurn at hu
  split at hu
  · simp only [Walk.delete, get_erase] at hu
    split at hu
    · cases hu
    · exact hp u opened hu
  · exact hp u opened hu

end RemoteFiles
end Yuzora
