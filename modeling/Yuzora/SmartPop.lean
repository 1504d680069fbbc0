import Yuzora.SmartRun
/-!
# SmartPop — the pop of the parked changes, and the whole smart checkout

The first pop comes right after the check of the newest entry.  The second does not: another client may have pushed
an entry by then.
-/
namespace Yuzora
namespace Git

open List

variable {δ : Type} {refs : Refs} {labels : List String}

/-! ## Popping -/

/-- What stays as it was while the parked changes are popped. -/
structure Outer (A : StashEntry δ) (own : List (StashEntry δ)) (switched : Except String Unit) (G : Head → Prop)
    (s : Repo δ) : Prop where
  pushed : s.pushed = [A] ++ own
  made : Made s
  settled : ∀ B ∈ own, B ≠ A ∧ Settled switched B s
  head : G s.head

variable {s : Repo δ} {r : Except String Unit}

theorem Other.settled {t : Repo δ} (ho : Other labels s t) {e : StashEntry δ} (h : Settled r e s) : Settled r e t := by
  refine ⟨fun hr => ⟨ho.back (h.ok hr).1, ho.stillGone (h.ok hr).2⟩, fun error hr => ?_⟩
  rcases h.error error hr with h | ⟨h, hl⟩
  · exact .inl (ho.back h)
  · exact .inr ⟨ho.listed h, hl⟩

theorem Outer.fixed (A : StashEntry δ) (own : List (StashEntry δ)) (switched : Except String Unit) (G : Head → Prop) :
    Fixed refs labels (Outer A own switched G) := by
  intro s t h ho
  refine ⟨(Other.pushed ho).trans h.pushed, Other.made ho h.made,
    fun B hB => ⟨(h.settled B hB).1, Other.settled ho (h.settled B hB).2⟩, ?_⟩
  rw [(Other.frame ho).1]
  exact h.head

variable {A : StashEntry δ} {own : List (StashEntry δ)} {switched : Except String Unit} {G : Head → Prop}

theorem Outer.apply (h : Outer A own switched G s) (unmerged : List String) :
    Outer A own switched G (s.apply A unmerged) ∧ Back A (s.apply A unmerged) := by
  have hgrows : ∀ c ∈ s.changes, c ∈ (s.apply A unmerged).changes := fun c hc => mem_append_left _ hc
  refine ⟨⟨h.pushed, h.made, fun B hB => ⟨(h.settled B hB).1, fun hr => ?_, fun error hr => ?_⟩, h.head⟩,
    fun c hc => mem_append_right _ hc⟩
  · obtain ⟨hback, hgone⟩ := (h.settled B hB).2.ok hr
    exact ⟨fun c hc => hgrows c (hback c hc), hgone⟩
  · exact ((h.settled B hB).2.error error hr).imp_left fun hback c hc => hgrows c (hback c hc)

theorem Outer.drop (h : Outer A own switched G s) (htop : s.stash.entries.head? = some A) :
    Outer A own switched G { s with stash := s.stash.drop } := by
  obtain ⟨rest, hs⟩ : ∃ rest, s.stash.entries = A :: rest := by
    cases hl : s.stash.entries with
    | nil => rw [hl] at htop; cases htop
    | cons x rest =>
      rw [hl] at htop
      exact ⟨rest, by rw [Option.some.inj htop]⟩
  have hdrop : s.stash.drop.entries = rest := by
    change s.stash.entries.tail = rest
    rw [hs, tail_cons]
  refine ⟨h.pushed, h.made, fun B hB => ⟨(h.settled B hB).1, fun hr => ?_, fun error hr => ?_⟩, h.head⟩
  · obtain ⟨hback, hmade, hgone⟩ := (h.settled B hB).2.ok hr
    exact ⟨hback, hmade, fun hmem => hgone (mem_of_mem_tail hmem)⟩
  · refine ((h.settled B hB).2.error error hr).imp_right fun hl => ⟨⟨hl.1.1, ?_⟩, hl.2⟩
    have hmem := hl.1.2
    rw [hs] at hmem
    rcases mem_cons.1 hmem with heq | hmem
    · exact absurd heq (h.settled B hB).1
    · exact hdrop ▸ hmem

/-- The parked changes are in the stash, alone of the own entries, and nothing conflicts. -/
structure Waiting (A : StashEntry δ) (own : List (StashEntry δ)) (s : Repo δ) : Prop where
  listed : Listed A s
  gone : ∀ B ∈ own, Gone B s
  merged : s.unmerged = []

theorem Waiting.fixed (A : StashEntry δ) (own : List (StashEntry δ)) : Fixed refs labels (Waiting A own) := by
  intro s t h ho
  exact ⟨Other.listed ho h.listed, fun B hB => Other.stillGone ho (h.gone B hB), (Other.unmerged ho).trans h.merged⟩

def Popped (A : StashEntry δ) (own : List (StashEntry δ)) (code : Int) (s : Repo δ) : Prop :=
  (code = 0 → Back A s ∧ Gone A s) ∧ (code ≠ 0 → Waiting A own s ∨ Back A s ∧ s.unmerged ≠ [])

theorem Popped.fixed (A : StashEntry δ) (own : List (StashEntry δ)) (code : Int) : Fixed refs labels (Popped A own code) :=
  (World.Stable.imp fun _ => (fixed_back A).and (fixed_gone A)).and
    (World.Stable.imp fun _ => (Waiting.fixed A own).or ((fixed_back A).and (fixed_unmerged (· ≠ []))))

/-- How the restore of the parked changes ends. -/
structure Reclaimed (label : String) (A : StashEntry δ) (r : Except String GitOperationOutcome) (s : Repo δ) : Prop where
  ok : ∀ outcome, r = .ok outcome → Back A s ∧ (outcome.conflicts = false → Gone A s)
  error : ∀ error, r = .error error → Back A s ∨ Listed A s ∧ contains error label = true

theorem contains_keptChanges (error label : String) : contains (error ++ "\n" ++ keptChanges label) label = true :=
  contains_append_right _ (contains_append_left _ (contains_append_right _ (contains_iff.2 infix_rfl)))

variable {label : String} {error : String}

theorem Popped.reclaimed {code : Int}
    (h : Popped A own code s) : Reclaimed label A (.error (error ++ "\n" ++ keptChanges label)) s := by
  refine ⟨fun o ho => ?_, fun e he => ?_⟩
  · cases ho
  rw [← Except.error.inj he]
  by_cases hcode : code = 0
  · exact .inl (h.1 hcode).1
  · rcases h.2 hcode with h | h
    · exact .inr ⟨h.listed, contains_keptChanges error label⟩
    · exact .inl h.1

theorem popParked_exec
    {t : Repo δ} {index : Bool} {r : Reply (.stashPop index)} (hO : Outer A own switched G s) (hW : Waiting A own s)
    (htop : ∀ e, s.stash.entries.head? = some e → e = A) (h : Exec refs s (.stashPop index) r t) :
    Outer A own switched G t ∧ (∀ error, r = .error error → Waiting A own t) ∧
      ∀ out, r = .ok out → Popped A own out.code t := by
  have kept : Outer A own switched G s ∧ (∀ error, r = .error error → Waiting A own s) ∧
      ∀ out, r = .ok out → out.code ≠ 0 → Popped A own out.code s :=
    ⟨hO, fun _ _ => hW, fun out _ hcode => ⟨fun h0 => absurd h0 hcode, fun _ => .inl hW⟩⟩
  cases h with
  | unavailable =>
    refine ⟨hO, fun _ _ => hW, fun out ho => ?_⟩
    cases ho
  | failed _ out hne =>
    refine ⟨hO, fun _ _ => hW, fun out' ho => kept.2.2 out' ho ?_⟩
    rw [← Except.ok.inj ho]
    exact hne
  | popped _ entry stdout stderr he =>
    obtain rfl := htop entry he
    obtain ⟨hO', hback⟩ := hO.apply s.unmerged
    have hO'' := hO'.drop (s := s.apply entry s.unmerged) he
    refine ⟨hO'', fun e ho => ?_, fun out ho => ⟨fun _ => ⟨hback, Stash.gone_drop (s := s.apply entry s.unmerged) he⟩, fun hne => ?_⟩⟩
    · cases ho
    · cases ho
      exact absurd rfl hne
  | conflicted _ entry unmerged out he hne hu =>
    obtain rfl := htop entry he
    obtain ⟨hO', hback⟩ := hO.apply unmerged
    refine ⟨hO', fun e ho => ?_, fun out' ho => ⟨fun h0 => ?_, fun _ => .inr ⟨hback, hu⟩⟩⟩
    · cases ho
    · rw [← Except.ok.inj ho] at h0
      exact absurd h0 hne

theorem operationOutcome_spec {c : Command} (root : Root) (out : GitOutput c.Stdout) :
    Spec refs labels (fun s => Outer A own switched G s ∧ Popped A own out.code s)
      ((operationOutcome root "stash" out).mapError fun error => error ++ "\n" ++ keptChanges label)
      fun r s => Outer A own switched G s ∧ Reclaimed label A r s := by
  have hfixed : Fixed refs labels fun s => Outer A own switched G s ∧ Popped A own out.code s :=
    (Outer.fixed A own switched G).and (Popped.fixed A own out.code)
  have kept : ∀ (s : Repo δ) (error : String), Outer A own switched G s ∧ Popped A own out.code s →
      Outer A own switched G s ∧ Reclaimed label A (.error (error ++ "\n" ++ keptChanges label)) s :=
    fun s error hs => ⟨hs.1, hs.2.reclaimed⟩
  refine World.Meets.mapError ?_
  unfold operationOutcome
  by_cases hcode : out.code = 0
  · rw [if_pos hcode]
    refine World.Meets.pure fun s hs => ⟨hs.1, fun o ho => ⟨(hs.2.1 hcode).1, fun _ => (hs.2.1 hcode).2⟩, fun e he => ?_⟩
    cases he
  rw [if_neg hcode]
  refine World.Meets.bind (statusConflicts_spec hfixed root) (fun conflicted => ?_) fun e s hs => kept s e hs.1
  by_cases hnone : conflicted ≠ []
  · rw [if_pos hnone]
    refine World.Meets.pure fun s hs => ⟨hs.1.1, fun o ho => ⟨?_, fun hno => ?_⟩, fun e he => ?_⟩
    · rcases hs.1.2.2 hcode with hw | hb
      · exact absurd ((hs.2 conflicted rfl).trans hw.merged) hnone
      · exact hb.1
    · rw [← Except.ok.inj ho] at hno
      cases hno
    · cases he
  · rw [if_neg hnone]
    exact World.Meets.throw fun s hs => kept s _ hs.1

theorem secondPop_spec :
    Spec refs labels (fun s => Outer A own switched G s ∧ Waiting A own s) (runGit (.stashPop false)) fun r s =>
      Outer A own switched G s ∧ (∀ error, r = .error error → Waiting A own s) ∧
        ∀ out, r = .ok out → Popped A own out.code s := by
  refine runGit_spec ((Outer.fixed A own switched G).and (Waiting.fixed A own)) fun s hs hclear => ?_
  have htop : ∀ e, s.stash.entries.head? = some e → e = A := by
    intro e he
    have hmem := hclear rfl e he
    rw [hs.1.pushed, mem_append, mem_singleton] at hmem
    rcases hmem with heq | hmem
    · exact heq
    · exact absurd (mem_of_head? he) (hs.2.gone e hmem).2
  refine ⟨fun e he => ?_, fun r t hx => popParked_exec hs.1 hs.2 htop hx⟩
  rw [htop e he]
  exact hs.2.listed.1

theorem Waiting.popped (h : Waiting A own s) : Popped A own 1 s := ⟨nofun, fun _ => .inl h⟩

theorem afterPop_spec (root : Root) {out : GitOutput (Command.stashPop true).Stdout} (hcode : out.code ≠ 0) :
    Spec refs labels (fun s => Outer A own switched G s ∧ Popped A own out.code s) (do
        let conflicted ← (statusConflicts root).mapError fun error => error ++ "\n" ++ keptChanges label
        if conflicted = [] then do
          let again ← (runGit (.stashPop false)).mapError fun error => error ++ "\n" ++ keptChanges label
          (operationOutcome (c := .stashPop false) root "stash" again).mapError fun error =>
            error ++ "\n" ++ keptChanges label
        else (operationOutcome (c := .stashPop true) root "stash" out).mapError fun error =>
          error ++ "\n" ++ keptChanges label)
      fun r s => Outer A own switched G s ∧ Reclaimed label A r s := by
  have hfixed : Fixed refs labels fun s => Outer A own switched G s ∧ Popped A own out.code s :=
    (Outer.fixed A own switched G).and (Popped.fixed A own out.code)
  refine World.Meets.bind (R := fun r s => match r with
      | .error e => Outer A own switched G s ∧ Reclaimed label A (.error e) s
      | .ok conflicted => (Outer A own switched G s ∧ Popped A own out.code s) ∧ conflicted = s.unmerged)
    (World.Meets.mapError ((statusConflicts_spec hfixed root).mono (fun s hs => hs) fun r s hs => ?_))
    (fun conflicted => ?_) fun e s hs => hs
  · cases r with
    | error e => exact ⟨hs.1.1, hs.1.2.reclaimed⟩
    | ok conflicted => exact ⟨hs.1, hs.2 conflicted rfl⟩
  by_cases hnone : conflicted = []
  · rw [if_pos hnone]
    refine World.Meets.mono (P := fun s => Outer A own switched G s ∧ Waiting A own s) ?_ (fun s hs => ⟨hs.1.1, ?_⟩)
      fun r s hs => hs
    · refine World.Meets.bind (R := fun r s => match r with
          | .error e => Outer A own switched G s ∧ Reclaimed label A (.error e) s
          | .ok again => Outer A own switched G s ∧ Popped A own again.code s)
        (World.Meets.mapError (secondPop_spec.mono (fun s hs => hs) fun r s hs => ?_))
        (fun again => operationOutcome_spec (c := .stashPop false) root again) fun e s hs => hs
      cases r with
      | error e => exact ⟨hs.1, (hs.2.1 e rfl).popped.reclaimed⟩
      | ok again => exact ⟨hs.1, hs.2.2 again rfl⟩
    · rcases hs.1.2.2 hcode with hw | hb
      · exact hw
      · exact absurd (hs.2.symm.trans hnone) hb.2
  · rw [if_neg hnone]
    exact (operationOutcome_spec (c := .stashPop true) root out).mono (fun s hs => hs.1) fun r s hs => hs

theorem popParked_still (root : Root) (hO : Outer A own switched G s) (hW : Waiting A own s)
    (htop : s.stash.entries.head? = some A) :
    (stashWorld refs labels).Ensures SecondPopClear OwnTarget (popParked root label)
      (fun r _ t => Outer A own switched G t ∧ Reclaimed label A r t) true s := by
  have hA : ∀ e, s.stash.entries.head? = some e → e = A := fun e he => Option.some.inj (he.symm.trans htop)
  refine World.Ensures.bind (World.Ensures.mapError ((runGit_still (Q := fun r t => Outer A own switched G t ∧
    (∀ error, r = .error error → Waiting A own t) ∧ ∀ out, r = .ok out → Popped A own out.code t)
    fun _ => ⟨fun e he => hA e he ▸ hW.listed.1, fun r t hx => popParked_exec hO hW hA hx⟩).mono fun r calm t hr => ?_))
  obtain ⟨hO', hr, hp⟩ := hr
  cases r with
  | error e => exact ⟨hO', (hr e rfl).popped.reclaimed⟩
  | ok out =>
    have hpop := hp out rfl
    change (stashWorld refs labels).Ensures _ _ (if out.code ≠ 0 then _ else _) _ _ _
    by_cases hcode : out.code ≠ 0
    · rw [if_pos hcode]
      exact (afterPop_spec root hcode).ensures calm t ⟨hO', hpop⟩
    · rw [if_neg hcode]
      exact (operationOutcome_spec (c := .stashPop true) root out).ensures calm t ⟨hO', hpop⟩

theorem restoreParkedChanges_spec (root : Root) (own : List (StashEntry δ))
    (switched : Except String Unit) (G : Head → Prop) :
    Spec refs labels (fun s => Outer A own switched G s ∧ Under A s ∧ s.unmerged = [])
      (restoreParkedChanges root (some A.oid.text) label)
      fun r s => Outer A own switched G s ∧ Reclaimed label A r s := by
  have hfixed : Fixed refs labels fun s => Outer A own switched G s ∧ Under A s ∧ s.unmerged = [] :=
    (Outer.fixed A own switched G).and ((fixed_under A).and (fixed_unmerged (· = [])))
  have kept : ∀ s : Repo δ, Outer A own switched G s ∧ Under A s ∧ s.unmerged = [] →
      Outer A own switched G s ∧ Reclaimed label A (.error (keptChanges label)) s := by
    refine fun s hs => ⟨hs.1, fun o ho => ?_, fun e he => .inr ⟨⟨hs.2.1.1, hs.2.1.2.mem⟩, ?_⟩⟩
    · cases ho
    · rw [← Except.error.inj he]
      exact contains_append_left _ (contains_append_right _ (contains_iff.2 infix_rfl))
  refine ⟨fun calm s hs => World.Ensures.bind (World.Ensures.mapError ((stashTop_check hfixed A.oid.text calm s hs).mono
    fun r calm s hr => ?_))⟩
  obtain ⟨hs, hcheck⟩ := hr
  cases r with
  | error e => exact kept s hs
  | ok top =>
    change (stashWorld refs labels).Ensures _ _ (if top ≠ some A.oid.text then _ else _) _ _ _
    by_cases htop : top ≠ some A.oid.text
    · rw [if_pos htop]
      exact kept s hs
    rw [if_neg htop]
    obtain ⟨rfl, e, he, hoid⟩ := hcheck (congrArg _ (not_not.1 htop))
    have heA : e = A := Stash.eq_of_oid (s.stash.stored e (mem_of_head? he)) (s.stash.stored A hs.2.1.2.mem)
      (GitOid.ext_text hoid)
    rw [heA] at he
    refine popParked_still root hs.1 ⟨⟨hs.2.1.1, hs.2.1.2.mem⟩, fun B hB => ?_, hs.2.2⟩ he
    -- what is below the newest entry is not the checkout's
    obtain ⟨-, newer, older, hsplit, -, hold⟩ := hs.2.1
    have hmemB : B ∈ s.pushed := hs.1.pushed ▸ mem_append_right _ hB
    refine ⟨hs.1.made B hmemB, fun hmem => ?_⟩
    rw [hsplit] at hmem he
    rcases mem_append.1 hmem with hmem | hmem
    · cases newer with
      | nil => cases hmem
      | cons x newer =>
        cases he
        have hnd := s.stash.listed
        rw [hsplit, cons_append, map_cons, nodup_cons] at hnd
        exact hnd.1 (mem_map_of_mem (mem_append_right _ mem_cons_self))
    · rcases mem_cons.1 hmem with heq | hmem
      · exact (hs.1.settled B hB).1 heq
      · exact hold B hmem hmemB

/-! ## The whole checkout -/

def checkoutLabels (nonce untrackedNonce : String) : List String :=
  [stashLabel SMART_CHECKOUT_STASH nonce, stashLabel SMART_CHECKOUT_UNTRACKED_STASH untrackedNonce]

theorem stashLabel_ne (nonce untrackedNonce : String) :
    stashLabel SMART_CHECKOUT_STASH nonce ≠ stashLabel SMART_CHECKOUT_UNTRACKED_STASH untrackedNonce := by
  intro h
  have h22 := congrArg (fun s : String => s.toList[22]?) h
  have h1 : (stashLabel SMART_CHECKOUT_STASH nonce).toList[22]? = some '[' := by
    simp [stashLabel, SMART_CHECKOUT_STASH, String.toList_append]
  have h2 : (stashLabel SMART_CHECKOUT_UNTRACKED_STASH untrackedNonce).toList[22]? = some '(' := by
    simp [stashLabel, SMART_CHECKOUT_UNTRACKED_STASH, String.toList_append]
  rw [h1, h2] at h22
  revert h22
  decide

def Unused (labels : List String) (s : Repo δ) : Prop :=
  ∀ label ∈ labels, ∀ e ∈ s.stash.commits, messageOf e.subject ≠ some label

/-- What a smart checkout leaves behind: the changes of every entry it pushed are back, or the entry is in the stash and
its label in the error; and after `Ok` HEAD has moved and, unless conflicts are reported, the entries are gone. -/
structure Safe (arrived : Head → Prop) (r : Except String GitOperationOutcome) (s : Repo δ) : Prop where
  changes : ∀ e ∈ s.pushed, Back e s ∨ e ∈ s.stash.entries ∧ ∃ error, r = .error error ∧ Labelled error e
  head : ∀ outcome, r = .ok outcome → arrived s.head
  entries : ∀ outcome, r = .ok outcome → outcome.conflicts = false → ∀ e ∈ s.pushed, e ∉ s.stash.entries

variable {arrived : Head → Prop}

theorem Nested.safe (h : Nested arrived [] r s) : Safe arrived (r.map fun _ => ⟨false⟩) s := by
  obtain ⟨own, hbase, hown, -, harrived⟩ := h
  have hpushed : s.pushed = own := hbase.pushed
  cases r with
  | error error =>
    refine ⟨fun e he => ?_, fun o ho => ?_, fun o ho => ?_⟩
    · exact ((hown e (hpushed ▸ he)).2.error error rfl).imp_right fun hl => ⟨hl.1.2, error, rfl, hl.2⟩
    · cases ho
    · cases ho
  | ok u =>
    exact ⟨fun e he => .inl ((hown e (hpushed ▸ he)).2.ok rfl).1, fun _ _ => harrived rfl,
      fun _ _ _ e he => ((hown e (hpushed ▸ he)).2.ok rfl).2.2⟩

theorem Outer.safe {r : Except String GitOperationOutcome} (hmessage : messageOf A.subject = some label)
    (hO : Outer A own switched (fun head => switched = .ok () → arrived head) s) (hA : Reclaimed label A r s) :
    Safe arrived (joined switched r) s := by
  have hmem : ∀ e ∈ s.pushed, e = A ∨ e ∈ own := by
    intro e he
    rw [hO.pushed, mem_append, mem_singleton] at he
    exact he
  match switched, r with
  | .ok (), .ok o =>
    refine ⟨fun e he => .inl ?_, fun _ _ => hO.head rfl, fun o' ho' hno e he => ?_⟩
    · rcases hmem e he with rfl | he
      · exact (hA.ok o rfl).1
      · exact ((hO.settled e he).2.ok rfl).1
    · cases ho'
      rcases hmem e he with rfl | he
      · exact ((hA.ok _ rfl).2 hno).2
      · exact ((hO.settled e he).2.ok rfl).2.2
  | .ok (), .error error =>
    refine ⟨fun e he => ?_, fun o ho => ?_, fun o ho => ?_⟩
    · rcases hmem e he with rfl | he
      · exact (hA.error error rfl).imp_right fun hl => ⟨hl.1.2, error, rfl, label, hmessage, hl.2⟩
      · exact .inl ((hO.settled e he).2.ok rfl).1
    · cases ho
    · cases ho
  | .error error, .ok o =>
    refine ⟨fun e he => ?_, fun o ho => ?_, fun o ho => ?_⟩
    · rcases hmem e he with rfl | he
      · exact .inl (hA.ok o rfl).1
      · exact ((hO.settled e he).2.error error rfl).imp_right fun hl => ⟨hl.1.2, error, rfl, hl.2⟩
    · cases ho
    · cases ho
  | .error error, .error error' =>
    refine ⟨fun e he => ?_, fun o ho => ?_, fun o ho => ?_⟩
    · rcases hmem e he with rfl | he
      · exact (hA.error error' rfl).imp_right fun hl =>
          ⟨hl.1.2, _, rfl, label, hmessage, contains_append_right _ hl.2⟩
      · refine ((hO.settled e he).2.error error rfl).imp_right fun hl => ⟨hl.1.2, _, rfl, ?_⟩
        exact (hl.2.append_left "\n").append_left error'
    · cases ho
    · cases ho

/-- The tracked changes are stashed, and nothing else yet. -/
structure Stashed (refs : Refs) (label untrackedLabel : String) (A : StashEntry δ) (s : Repo δ) : Prop where
  ready : Ready refs untrackedLabel [A] s
  message : messageOf A.subject = some label
  only : OnlyOn label [A] s

variable {untrackedLabel : String} {nonce untrackedNonce : String} {switch : Script Unit}

theorem Stashed.fixed (h : label ∈ labels) (hu : untrackedLabel ∈ labels) (A : StashEntry δ) :
    Fixed refs labels (Stashed refs label untrackedLabel A) := by
  intro s t hs ho
  exact ⟨fixed_ready hu [A] s t hs.ready ho, hs.message, Other.onlyOn ho h hs.only⟩

/-- Nothing is pushed yet. -/
structure Untouched (label untrackedLabel : String) (s : Repo δ) : Prop where
  base : Base [] [] s
  unused : OnlyOn label [] s
  untracked : OnlyOn untrackedLabel [] s

theorem Untouched.fixed (h : label ∈ labels) (hu : untrackedLabel ∈ labels) :
    Fixed (δ := δ) refs labels (Untouched label untrackedLabel) := by
  intro s t hs ho
  exact ⟨Other.base ho hs.base, Other.onlyOn ho h hs.unused, Other.onlyOn ho hu hs.untracked⟩

theorem Untouched.safe (h : Untouched label untrackedLabel s) : Safe arrived (.error error) s := by
  have hpushed : s.pushed = [] := h.base.pushed
  refine ⟨fun e he => ?_, fun o ho => ?_, fun o ho => ?_⟩
  · rw [hpushed] at he
    cases he
  · cases ho
  · cases ho

theorem Untouched.push
    (h : Untouched label untrackedLabel s) (hne : label ≠ untrackedLabel) (hp : Pushes refs s label none A)
    (fresh : A.oid ∉ s.stash.commits.map (·.oid)) :
    Stashed refs label untrackedLabel A (s.pushEntry refs none A fresh) := by
  have hmessage : messageOf A.subject = some label := hp.subject ▸ messageOf_push s.head label
  refine ⟨⟨h.base.pushFirst fresh, ?_, Repo.pushEntry_clean fresh, hp.merged⟩, hmessage, ?_⟩
  · refine h.untracked.push fresh fun hm => ?_
    exact absurd (Option.some.inj (hmessage.symm.trans hm)) hne
  · refine OnlyOn.push (fun e he hm => ?_) fresh fun _ => mem_singleton_self A
    cases h.unused e he hm

theorem stashPush_spec (h : label ∈ labels) (hu : untrackedLabel ∈ labels) (hne : label ≠ untrackedLabel) :
    Spec refs labels (Untouched (δ := δ) label untrackedLabel) (runOk (.stashPush label)) fun r s => match r with
      | .error _ => Untouched label untrackedLabel s
      | .ok out => (contains out.stdout NO_LOCAL_CHANGES = true → Ready refs untrackedLabel [] s) ∧
        (contains out.stdout NO_LOCAL_CHANGES = false → ∃ A, Stashed refs label untrackedLabel A s) := by
  refine runOk_spec (Untouched.fixed h hu) fun s hs _ => ⟨fun e he => ?_, fun r t hx => ?_⟩
  · cases he
  cases hx with
  | unavailable => exact hs
  | failed _ out hne =>
    rw [okOnly_ok, if_pos hne]
    exact hs
  | saved _ stdout stderr A fresh hp hout =>
    refine ⟨fun hno => ?_, fun _ => ⟨A, hs.push hne hp fresh⟩⟩
    rw [hout] at hno
    cases hno
  | nothingSaved _ stdout stderr hclean hmerged hout =>
    refine ⟨fun _ => ⟨hs.base, hs.untracked, hclean, hmerged⟩, fun hno => ?_⟩
    rw [hout] at hno
    cases hno

theorem Stashed.found {o : String} {before : Option String}
    {r : Except String (Option String)} (h : Stashed refs label untrackedLabel A s)
    (hr : (∃ error, r = .error error) ∨ r = findPushed before label (rows s.stash.entries) none)
    (ho : r.toOption.join = some o) : o = A.oid.text := by
  rcases hr with ⟨error, rfl⟩ | hr
  · cases ho
  match r, ho with
  | .ok found, ho =>
    obtain rfl : found = some o := ho
    rcases findPushed_some hr.symm with hno | ⟨e, he, hm, heo⟩
    · cases hno
    · rw [← heo, mem_singleton.1 (h.only e (s.stash.stored e he) hm)]

theorem Stashed.kept (h : Stashed refs label untrackedLabel A s) : Safe arrived (.error (keptChanges label)) s := by
  have hpushed : s.pushed = [A] := h.ready.base.pushed
  refine ⟨fun e he => .inr ⟨?_, _, rfl, label, ?_, ?_⟩, fun o ho => ?_, fun o ho => ?_⟩
  · rw [hpushed] at he
    exact (h.ready.base.under e he).2.mem
  · rw [hpushed, mem_singleton] at he
    rw [he]
    exact h.message
  · exact contains_append_left _ (contains_append_right _ (contains_iff.2 infix_rfl))
  · cases ho
  · cases ho

theorem switchStashed_spec
    (hsw : Switches δ refs (checkoutLabels nonce untrackedNonce) arrived switch) (root : Root) (target : Option String)
    (A : StashEntry δ) :
    Spec refs (checkoutLabels nonce untrackedNonce)
      (Stashed refs (stashLabel SMART_CHECKOUT_STASH nonce) (stashLabel SMART_CHECKOUT_UNTRACKED_STASH untrackedNonce) A)
      (do
        let switched ← (switchOverUntracked target switch untrackedNonce).attempt
        let restored ← (restoreParkedChanges root (some A.oid.text) (stashLabel SMART_CHECKOUT_STASH nonce)).attempt
        Prog.ofExcept (joined switched restored)) (Safe arrived) := by
  refine ⟨fun calm s hs => ?_⟩
  have hmessage := hs.message
  refine (World.Meets.bindAttempt (switchOverUntracked_spec (mem_cons_of_mem _ mem_cons_self) hsw target [A])
    fun switched => World.Meets.exists fun own => World.Meets.bindAttempt
      ((restoreParkedChanges_spec root own switched fun head => switched = .ok () → arrived head).mono (fun s hs => ?_) fun r s hs => hs)
      fun restored => World.Meets.ofExcept fun s hs => hs.1.safe hmessage hs.2).ensures calm s hs.ready
  obtain ⟨hbase, hown, hmerged, harrived⟩ := hs
  exact ⟨⟨hbase.pushed, hbase.made, fun B hB => ⟨fun heq => (hown B hB).1 (mem_singleton.2 heq), (hown B hB).2⟩,
    harrived⟩, hbase.under A (mem_singleton_self A), hmerged⟩

theorem switchKeepingChanges_spec
    (hsw : Switches δ refs (checkoutLabels nonce untrackedNonce) arrived switch) (root : Root) (target : Option String) :
    Spec refs (checkoutLabels nonce untrackedNonce)
      (Untouched (δ := δ) (stashLabel SMART_CHECKOUT_STASH nonce)
        (stashLabel SMART_CHECKOUT_UNTRACKED_STASH untrackedNonce))
      (switchKeepingChanges root true target switch nonce untrackedNonce) (Safe arrived) := by
  have hl : stashLabel SMART_CHECKOUT_STASH nonce ∈ checkoutLabels nonce untrackedNonce := mem_cons_self
  have hu : stashLabel SMART_CHECKOUT_UNTRACKED_STASH untrackedNonce ∈ checkoutLabels nonce untrackedNonce :=
    mem_cons_of_mem _ mem_cons_self
  refine World.Meets.bind ((stashTop_spec (Untouched.fixed hl hu) none).mono (fun s hs => hs) fun r s hs => hs.1)
    (fun before => ?_) fun e s hs => hs.safe
  refine World.Meets.bind (stashPush_spec hl hu (stashLabel_ne nonce untrackedNonce)) (fun pushed => ?_)
    fun e s hs => hs.safe
  by_cases hno : contains pushed.stdout NO_LOCAL_CHANGES = true
  · rw [if_pos hno]
    refine World.Meets.mono (P := Ready refs (stashLabel SMART_CHECKOUT_UNTRACKED_STASH untrackedNonce) []) ?_
      (fun s hs => hs.1 hno) fun r s hs => hs
    exact World.Meets.bind (switchOverUntracked_spec hu hsw target []) (fun _ => World.Meets.pure fun s hs => hs.safe)
      fun e s hs => hs.safe
  · rw [if_neg hno]
    refine World.Meets.mono (P := fun s => ∃ A, Stashed refs (stashLabel SMART_CHECKOUT_STASH nonce)
      (stashLabel SMART_CHECKOUT_UNTRACKED_STASH untrackedNonce) A s) (World.Meets.exists fun A => ?_)
      (fun s hs => hs.2 (Bool.not_eq_true _ ▸ hno)) fun r s hs => hs
    refine World.Meets.bindAttempt (pushedStash_spec (Stashed.fixed hl hu A) before _) fun found => ?_
    cases hfound : found.toOption.join with
    | none => exact World.Meets.throw fun s hs => hs.1.kept
    | some parked =>
      refine ⟨fun calm s hs => ?_⟩
      obtain rfl := hs.1.found hs.2 hfound
      exact (switchStashed_spec hsw root target A).ensures calm s hs.1

theorem SwitchRequest.switches (request : SwitchRequest) : Switches δ refs labels (request.Arrived refs) request.switch :=
  match request with
  | .createBranch name startPoint => createBranch_switches name startPoint
  | .checkoutDetached rev => checkoutDetached_switches rev
  | .checkout name => checkout_switches name

end Git
end Yuzora
