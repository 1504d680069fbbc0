import Yuzora.SftpSave
/-!
# SftpSaveRuns — what every run of a save does to its target

The target stays as the others leave it, or becomes the new content in one request, which is sent only when all that was
read of it has the expected revision.
-/
namespace Yuzora
namespace SftpSave

open Function (update_self update_of_ne)
open World (Meets Ensures Stable)

namespace Save

open List

variable {S : Save}

/-- A request that leaves the target alone, or replaces it by the content. -/
def Keeps (S : Save) (s : Server) (c : Request) : Prop :=
  ∀ r t, Exec s c r t →
    t.files S.path = s.files S.path ∨ (∃ source, c = .posixRename source S.path) ∧ t.files S.path = some S.content

/-! ## What holds on the way -/

/-- Nothing was sent to replace the target, `A` holds of what was read to its end, and `F` of the scratch file. -/
structure Held (S : Save) (F : Option (List UInt8) → Prop) (raw : Bool) (A : List UInt8 → Prop) (s : Server) : Prop where
  scratch : F (s.files S.scratch)
  raw : s.raw = raw
  unsent : s.sent = false
  seen : ∀ bytes ∈ s.seen, A bytes

/-- What was read to its end had the expected revision. -/
abbrev Before (S : Save) (F : Option (List UInt8) → Prop) (raw : Bool) (s : Server) : Prop :=
  S.Held F raw (S.revision · = S.expected) s

/-- After an error: what was read and was not as expected is that error, and nothing was sent. -/
structure Fails (S : Save) (F : Option (List UInt8) → Prop) (raw : Bool) (error : String) (s : Server) : Prop where
  scratch : F (s.files S.scratch)
  raw : s.raw = raw
  conflict : ∀ bytes ∈ s.seen, S.revision bytes ≠ S.expected → error = "file-conflict" ∧ s.sent = false

def Ends (S : Save) (F : Option (List UInt8) → Prop) (raw : Bool) {α : Type} (R : α → Server → Prop) :
    Except String α → Server → Prop
  | .ok a, s => R a s
  | .error error, s => S.Fails F raw error s

def AnyFile (_ : Option (List UInt8)) : Prop := True

variable {F F' : Option (List UInt8) → Prop} {raw : Bool} {A A' : List UInt8 → Prop} {s t : Server} {α : Type}

theorem Held.mono (h : S.Held F raw A s) (hA : ∀ bytes, A bytes → A' bytes) : S.Held F raw A' s :=
  { h with seen := fun b hb => hA b (h.seen b hb) }

theorem Held.fails {error : String} (h : S.Before F raw s) : S.Fails F raw error s :=
  { h with conflict := fun b hb hne => absurd (h.seen b hb) hne }

theorem Fails.anyFile {error : String} (h : S.Fails F raw error s) : S.Fails AnyFile raw error s :=
  { h with scratch := trivial }

theorem Held.stable : (sftpWorld S.scratch).Stable (S.Held F raw A) := by
  rintro s t h ⟨files, hf, rfl⟩
  exact { h with scratch := (congrArg F hf).mpr h.scratch }

theorem Ends.stable {R : α → Server → Prop} (hR : ∀ a, (sftpWorld S.scratch).Stable (R a)) (r : Except String α) :
    (sftpWorld S.scratch).Stable (S.Ends F raw R r) := by
  cases r with
  | error e =>
    rintro s t h ⟨files, hf, rfl⟩
    exact { h with scratch := (congrArg F hf).mpr h.scratch }
  | ok a => exact hR a

/-! ## One request -/

/-- Every run of the script from `P` ends in `Q`, each of its requests keeping the target or replacing it. -/
abbrev Spec (S : Save) (P : Server → Prop) (p : Script α) (Q : Except String α → Server → Prop) : Prop :=
  (sftpWorld S.scratch).Meets (fun _ _ => True) S.Keeps P p Q

theorem request_spec {c : Request} {P : Server → Prop} {Q : Except String c.Answer → Server → Prop}
    (hP : (sftpWorld S.scratch).Stable P) (hk : ∀ s, P s → S.Keeps s c) (h : ∀ s r t, P s → Exec s c r t → Q r t) :
    S.Spec P (request c) Q :=
  ⟨fun _ _ hs t hd _ => ⟨hk t (hP.drift hs hd), fun r u he => h t r u (hP.drift hs hd) he⟩⟩

theorem asks_exec {c : Request} {r : Reply c} (hc : c.asks = true) (h : Exec s c r t) : t = s := by
  cases h with
  | failed => cases c <;> first | rfl | cases hc
  | told => rfl
  | _ => cases hc

theorem asks_spec {c : Request} {P : Server → Prop} {Q : Except String c.Answer → Server → Prop}
    (hP : (sftpWorld S.scratch).Stable P) (hc : c.asks = true) (h : ∀ s r, P s → Q r s) : S.Spec P (request c) Q :=
  request_spec hP (fun s _ r t he => by rw [asks_exec hc he]; exact .inl rfl)
    fun s r _ hs he => asks_exec hc he ▸ h s r hs

theorem ask_spec {c : Request} (hc : c.asks = true) :
    S.Spec (S.Before F raw) (request c) (S.Ends F raw fun _ => S.Before F raw) := by
  refine asks_spec Held.stable hc fun s r hs => ?_
  cases r with
  | error e => exact hs.fails
  | ok a => exact hs

theorem throw_spec {error : String} {R : α → Server → Prop} :
    S.Spec (S.Before F raw) (Prog.throw error : Script α) (S.Ends F raw R) := Meets.throw fun _ hs => hs.fails

/-! ## The check -/

theorem read_spec {handle : String} {bytes : List UInt8} :
    S.Spec (S.Before F raw) (request (.read handle bytes))
      (S.Ends F raw fun chunk => S.Held F raw fun b => S.revision b = S.expected ∨ chunk = [] ∧ b = bytes) := by
  refine request_spec Held.stable (fun s _ r t he => .inl ?_) fun s r t hs he => ?_
  · cases he with
    | failed | told => rfl
    | read => split <;> rfl
  · cases he with
    | failed => exact hs.fails
    | told _ _ hc => cases hc
    | read _ _ chunk =>
      split
      · rename_i hc
        refine { hs with seen := fun b hb => ?_ }
        rcases mem_cons.1 hb with rfl | hb
        · exact .inr ⟨hc, rfl⟩
        · exact .inl (hs.seen b hb)
      · exact hs.mono fun b hb => .inl hb

/-- A reading that goes to the end of its file is not too large. -/
theorem readToEnd_spec {handle : String} (limit : Nat) : ∀ bytes : List UInt8,
    (limit ≠ 0 → bytes.length + limit = MAX_FILE_BYTES + 1) →
    S.Spec (S.Before F raw) (readToEnd handle limit bytes)
      (S.Ends F raw fun read =>
        S.Held F raw fun b => S.revision b = S.expected ∨ read.length ≤ MAX_FILE_BYTES ∧ b = read) := by
  induction limit using Nat.strongRecOn with
  | ind limit ih =>
    intro bytes hlen
    rw [readToEnd]
    split
    · exact Meets.pure fun s hs => hs.mono fun b hb => .inl hb
    rename_i h0
    have hlen := hlen h0
    refine Meets.bind read_spec (fun chunk => ?_) fun e s hs => hs
    by_cases hc : chunk = []
    · rw [if_pos hc]
      exact Meets.pure fun s hs => hs.mono fun b hb => hb.imp_right fun hb => ⟨by omega, hb.2⟩
    · rw [if_neg hc]
      have hpos := length_pos_of_ne_nil hc
      refine (ih _ (by omega) _ fun h => ?_).mono (fun s hs => hs.mono fun b hb => ?_) fun r s hs => hs
      · rw [length_append]
        omega
      · exact hb.resolve_right fun hb => hc hb.1

theorem checkRevision_spec : S.Spec (S.Before F raw) S.checkRevision (S.Ends F raw fun _ => S.Before F raw) := by
  have hread : S.Spec (S.Before F raw) (readRegular S.path)
      (S.Ends F raw fun read => S.Held F raw fun b => S.revision b = S.expected ∨ b = read) := by
    refine Meets.bind (ask_spec rfl) (fun metadata => ?_) fun e s hs => hs
    split
    · exact throw_spec
    split
    · exact throw_spec
    refine Meets.bind (ask_spec rfl) (fun file => ?_) fun e s hs => hs
    refine Meets.bind (readToEnd_spec _ _ fun _ => by simp) (fun bytes => ?_) fun e s hs => hs
    split
    · rename_i hlong
      exact Meets.throw fun s hs => (hs.mono fun b hb => hb.resolve_right fun hb => absurd hb.1 (by omega)).fails
    · exact Meets.pure fun s hs => hs.mono fun b hb => hb.imp_right (·.2)
  refine Meets.bind hread (fun bytes => ?_) fun e s hs => hs
  split
  · exact Meets.throw fun s hs => { hs with conflict := fun _ _ _ => ⟨rfl, hs.unsent⟩ }
  · rename_i heq
    exact Meets.pure fun s hs => hs.mono fun b hb => hb.elim id fun hb => hb ▸ not_not.1 heq

/-! ## The scratch file -/

/-- The handle stands for the scratch file, which holds these bytes. -/
def Open (S : Save) (handle : String) (bytes : List UInt8) (s : Server) : Prop :=
  S.Before (· = some bytes) true s ∧ s.handles handle = some S.scratch

theorem Open.stable {handle : String} {bytes : List UInt8} : (sftpWorld S.scratch).Stable (S.Open handle bytes) := by
  intro s t h ho
  refine ⟨Held.stable s t h.1 ho, ?_⟩
  obtain ⟨files, _, rfl⟩ := ho
  exact h.2

theorem Held.put {F : Option (List UInt8) → Prop} (h : S.Before F raw s) (bytes : List UInt8)
    (handles : String → Option String) :
    S.Before (· = some bytes) raw
      { s with files := Function.update s.files S.scratch (some bytes), handles := handles } :=
  { h with scratch := update_self _ _ _ }

theorem create_spec {permissions : Option Nat} :
    S.Spec (S.Before (· = none) true) (request (.create S.scratch permissions))
      (S.Ends AnyFile true fun handle => S.Open handle []) := by
  refine request_spec Held.stable (fun s _ r t he => .inl ?_) fun s r t hs he => ?_
  · cases he with
    | failed | told => rfl
    | created => exact update_of_ne S.fresh _ _
  · cases he with
    | failed => exact hs.fails.anyFile
    | told _ _ hc => cases hc
    | created _ handle _ _ _ ha =>
      have hput := hs.put [] (Function.update s.handles handle (some S.scratch))
      cases r with
      | error e => exact hput.fails.anyFile
      | ok answer =>
        obtain rfl := ha answer rfl
        exact ⟨hput, update_self _ _ _⟩

theorem overwrite_end (bytes chunk : List UInt8) : overwrite bytes bytes.length chunk = bytes ++ chunk := by
  simp [overwrite]

theorem write_spec {handle : String} {bytes chunk : List UInt8} {offset : Nat} (ho : offset = bytes.length) :
    S.Spec (S.Open handle bytes) (request (.write handle offset chunk))
      (S.Ends AnyFile true fun _ => S.Open handle (bytes ++ chunk)) := by
  subst ho
  refine request_spec Open.stable (fun s hs r t he => .inl ?_) fun s r t hs he => ?_
  · cases he with
    | failed | told => rfl
    | wrote _ _ _ _ _ _ hf =>
      obtain rfl := Option.some.inj (hs.2.symm.trans hf)
      exact update_of_ne S.fresh _ _
  · cases he with
    | failed => exact hs.1.fails.anyFile
    | told _ _ hc => cases hc
    | wrote _ _ _ _ old _ hf hold =>
      obtain rfl := Option.some.inj (hs.2.symm.trans hf)
      obtain rfl : old = bytes := Option.some.inj (hold.symm.trans hs.1.scratch)
      rw [overwrite_end]
      have hput := hs.1.put (old ++ chunk) s.handles
      cases r with
      | error e => exact hput.fails.anyFile
      | ok _ => exact ⟨hput, hs.2⟩

/-- Every chunk starts where the file ends, because each before it is a full one. -/
theorem writeChunks_spec {handle : String} : ∀ {n : Nat} (index : Nat) (bytes rest : List UInt8),
    rest.length ≤ n → (rest ≠ [] → index * CHUNK = bytes.length) →
    S.Spec (S.Open handle bytes) (writeChunks handle index rest)
      (S.Ends AnyFile true fun _ => S.Open handle (bytes ++ rest)) := by
  intro n
  induction n with
  | zero =>
    intro index bytes rest hn _
    obtain rfl := length_eq_zero_iff.1 (Nat.le_zero.1 hn)
    rw [writeChunks, if_pos rfl, append_nil]
    exact Meets.pure fun s hs => hs
  | succ n ih =>
    intro index bytes rest hn hat
    rw [writeChunks]
    split
    · rename_i h
      rw [h, append_nil]
      exact Meets.pure fun s hs => hs
    rename_i h
    refine Meets.bind (write_spec (hat h)) (fun _ => ?_) fun e s hs => hs
    have hlen := length_drop (i := CHUNK) (l := rest)
    have hrest := ih (index + 1) (bytes ++ rest.take CHUNK) (rest.drop CHUNK) (by simp only [CHUNK] at *; omega)
      fun hrest => by
        have := length_pos_of_ne_nil hrest
        rw [length_append, length_take, ← hat h, Nat.succ_mul, Nat.min_eq_left (by omega)]
    rwa [append_assoc, take_append_drop] at hrest

theorem writeScratch_spec {handle : String} {extensions : String → Option String} :
    S.Spec (S.Open handle []) (S.writeScratch handle extensions)
      (S.Ends AnyFile true fun _ => S.Before (· = some S.content) true) := by
  have hsync : S.Spec (S.Open handle []) (S.writeContent handle extensions)
      (S.Ends AnyFile true fun _ => S.Before (· = some S.content) true) := by
    refine Meets.bind (writeChunks_spec 0 [] S.content le_rfl fun _ => Nat.zero_mul _) (fun _ => ?_) fun e s hs => hs
    split
    · refine Meets.bind (asks_spec (Q := S.Ends AnyFile true fun _ => S.Before (· = some S.content) true) Open.stable rfl
        fun s r hs => ?_) (fun _ => Meets.pure fun s hs => hs) fun e s hs => hs
      cases r with
      | error e => exact hs.1.fails.anyFile
      | ok _ => exact hs.1
    · exact Meets.pure fun s hs => hs.1
  refine Meets.bindAttempt hsync fun written => Meets.bindAttempt
    (asks_spec (Ends.stable (fun _ => Held.stable) written) rfl fun s _ hs => hs) fun closed => ⟨fun _ s hs => ?_⟩
  cases written with
  | error e => exact hs
  | ok _ =>
    cases closed with
    | error e => exact hs.fails.anyFile
    | ok _ => exact hs

/-! ## The end of a save -/

/-- **How a save ends.**  What is left behind is looked at when no removal and no close failed. -/
structure Outcome (S : Save) (closed : Bool) (r : Except String String) (s : Server) : Prop where
  saved : ∀ saved, r = .ok saved → saved = S.revision S.content ∧ s.files S.path = some S.content
  conflict : ∀ bytes ∈ s.seen, S.revision bytes ≠ S.expected → r = .error "file-conflict" ∧ s.sent = false
  tidy : s.unclean = false → s.files S.scratch = none ∧ (closed = true → s.raw = false)

/-- The raw session may still be open, and nobody moves after a success. -/
def Done (S : Save) (r : Except String String) (calm : Bool) (s : Server) : Prop :=
  (∀ saved, r = .ok saved → calm = true) ∧ S.Outcome false r s

/-- Every run of the script from such a state ends in `Q`, which may depend on whether somebody moves after it. -/
abbrev Leads (S : Save) (p : Script α) (Q : Except String α → Bool → Server → Prop) (calm : Bool) (s : Server) : Prop :=
  (sftpWorld S.scratch).Ensures (fun _ _ => True) S.Keeps p Q calm s

variable {β : Type} {Q : Except String β → Bool → Server → Prop} {r : Except String String} {closed calm : Bool}

theorem Leads.after {P : Server → Prop} {p : Script α} {f : α → Script β} {R : Except String α → Server → Prop}
    (hs : P s) (h : S.Spec P p R) (hok : ∀ a calm s, R (.ok a) s → S.Leads (f a) Q calm s)
    (herr : ∀ e calm s, R (.error e) s → Q (.error e) calm s) : S.Leads (p >>= f) Q calm s := by
  refine Ensures.bind ((h.ensures calm s hs).mono fun r calm s hr => ?_)
  cases r with
  | error e => exact herr e calm s hr
  | ok a => exact hok a calm s hr

theorem Fails.outcome {error : String} (h : S.Fails F raw error s)
    (hF : s.unclean = false → s.files S.scratch = none) (hc : closed = true → raw = false) :
    S.Outcome closed (.error error) s :=
  ⟨nofun, fun b hb hne => ⟨congrArg _ (h.conflict b hb hne).1, (h.conflict b hb hne).2⟩,
    fun hu => ⟨hF hu, fun h' => h.raw.trans (hc h')⟩⟩

theorem Outcome.drift (h : S.Outcome closed r s) (hcalm : ∀ saved, r = .ok saved → calm = true)
    (hd : (sftpWorld S.scratch).Drift calm s t) : S.Outcome closed r t := by
  cases r with
  | ok saved =>
    obtain rfl := hcalm saved rfl
    exact (show t = s from hd) ▸ h
  | error e =>
    refine Stable.drift (P := S.Outcome closed (.error e)) ?_ h hd
    rintro s t h ⟨files, hf, rfl⟩
    exact ⟨nofun, h.conflict, fun hu => ⟨hf.trans (h.tidy hu).1, (h.tidy hu).2⟩⟩

theorem close_leads {p : Script β} (h : S.Done r calm s)
    (hp : ∀ t, S.Done r true t → S.Outcome true r t → S.Leads p Q true t) :
    S.Leads ((request .closeSession).attempt >>= fun _ => p) Q calm s := by
  intro t hd _
  have ht := h.2.drift h.1 hd
  refine ⟨fun r' u he => .inl ?_, fun r' u he => ?_⟩
  · cases he with
    | failed | told | closedSession => rfl
  have hu : S.Outcome true r u := by
    cases he with
    | failed =>
      refine ⟨ht.saved, ht.conflict, fun hu => ?_⟩
      obtain ⟨hclean, hraw⟩ := Bool.or_eq_false_iff.1 hu
      exact ⟨(ht.tidy hclean).1, fun _ => hraw⟩
    | told _ _ hc => cases hc
    | closedSession => exact ⟨ht.saved, ht.conflict, fun hu => ⟨(ht.tidy hu).1, fun _ => rfl⟩⟩
  exact hp u ⟨fun _ _ => rfl, hu.saved, hu.conflict, fun h => ⟨(hu.tidy h).1, nofun⟩⟩ hu

theorem remove_leads {error : String} {p : Script β} (h : S.Fails AnyFile true error s)
    (hp : ∀ calm t, S.Done (.error error) calm t → S.Leads p Q calm t) :
    S.Leads ((request (.removeFile S.scratch)).attempt >>= fun _ => p) Q calm s := by
  intro t hd _
  have ht : S.Fails AnyFile true error t :=
    (Ends.stable (R := fun _ _ => True) (fun _ _ _ _ _ => trivial) (.error error : Except String Unit)).drift h hd
  refine ⟨fun r' u he => .inl ?_, fun r' u he => hp _ u ⟨nofun, ?_⟩⟩
  · cases he with
    | failed | told => rfl
    | removed => exact update_of_ne S.fresh _ _
  · cases he with
    | failed =>
      refine Fails.outcome { ht with } (fun hu => ?_) nofun
      exact Option.isNone_iff_eq_none.1 (Option.isSome_eq_false_iff.1 (Bool.or_eq_false_iff.1 hu).2)
    | told _ _ hc => cases hc
    | removed =>
      have hu : S.Fails AnyFile true error { t with files := Function.update t.files S.scratch none } :=
        { ht with scratch := trivial }
      exact hu.outcome (fun _ => update_self _ _ _) nofun

/-! ## The replacement -/

def Replaced (S : Save) : Except String String → Bool → Server → Prop
  | .ok saved, calm, s => S.Done (.ok saved) calm s
  | .error error, _, s => S.Fails AnyFile true error s

theorem atomicReplace_leads (h : S.Before (· = some S.content) true s) :
    S.Leads (atomicReplace S.scratch S.path >>= fun _ => (pure (S.revision S.content) : Script String)) S.Replaced calm
      s := by
  intro t hd _
  have ht := Held.stable.drift h hd
  have hfails : ∀ {error : String} {u : Server}, u.raw = t.raw → u.seen = t.seen → S.Fails AnyFile true error u :=
    fun hraw hseen => ⟨trivial, hraw.trans ht.raw, fun b hb hne => absurd (ht.seen b (hseen ▸ hb)) hne⟩
  refine ⟨fun r u he => ?_, fun r u he => ?_⟩
  · cases he with
    | failed | told | refused => exact .inl rfl
    | renamed _ _ bytes _ hb =>
      obtain rfl : bytes = S.content := Option.some.inj (hb.symm.trans ht.scratch)
      exact .inr ⟨⟨_, rfl⟩, update_self _ _ _⟩
  · cases he with
    | failed | refused => exact hfails rfl rfl
    | told _ _ hc => cases hc
    | renamed _ _ bytes _ hb =>
      obtain rfl : bytes = S.content := Option.some.inj (hb.symm.trans ht.scratch)
      cases r with
      | error e => exact hfails rfl rfl
      | ok status =>
        cases status with
        | false => exact hfails rfl rfl
        | true =>
          refine ⟨fun _ _ => rfl, fun _ hr => ⟨(Except.ok.inj hr).symm, update_self _ _ _⟩,
            fun b hb hne => absurd (ht.seen b hb) hne, fun _ => ⟨?_, nofun⟩⟩
          exact (update_of_ne S.fresh.symm _ _).trans (update_self _ _ _)

theorem replaceContent_leads {extensions : String → Option String} (h : S.Before (· = none) true s) :
    S.Leads (S.replaceContent extensions S.path) S.Replaced calm s := by
  refine Leads.after h (ask_spec rfl) (fun metadata calm s h => ?_) fun e calm s h => h.anyFile
  refine Leads.after h create_spec (fun handle calm s h => ?_) fun e calm s h => h
  refine Leads.after h writeScratch_spec (fun _ calm s h => ?_) fun e calm s h => h
  refine Leads.after h checkRevision_spec (fun _ calm s h => ?_) fun e calm s h => h.anyFile
  refine Leads.after h (ask_spec rfl) (fun again calm s h => ?_) fun e calm s h => h.anyFile
  split
  · exact h.fails.anyFile
  · exact atomicReplace_leads h

theorem saveRaw_leads (h : S.Before (· = none) true s) : S.Leads (S.saveRaw S.path) S.Done calm s := by
  have stop : ∀ {t : Server} {e : String}, S.Fails (· = none) true e t → ∀ calm, S.Done (.error e) calm t :=
    fun h _ => ⟨nofun, h.outcome (fun _ => h.scratch) nofun⟩
  refine Leads.after h (ask_spec rfl) (fun extensions calm s h => ?_) fun e calm s h => stop h calm
  split
  · exact close_leads (stop h.fails calm) fun t ht _ => ht
  split
  · exact stop h.fails calm
  refine Ensures.bind (Ensures.attempt ((replaceContent_leads h).mono fun r calm s hr => ?_))
  cases r with
  | error e => exact remove_leads hr fun calm t ht => close_leads ht fun _ h _ => h
  | ok saved => exact close_leads hr fun _ h _ => h

/-- Where a save starts from. -/
structure Start (S : Save) (s : Server) : Prop where
  scratch : s.files S.scratch = none
  raw : s.raw = false
  unsent : s.sent = false
  seen : s.seen = []

theorem saveRemote_leads (h : S.Start s) :
    S.Leads S.saveRemote (fun r _ s => S.Outcome true r s) calm s := by
  have stop : ∀ {e : String} {t : Server}, S.Fails (· = none) false e t → S.Outcome true (.error e) t :=
    fun h => h.outcome (fun _ => h.scratch) fun _ => rfl
  have h : S.Before (· = none) false s := { h with seen := fun b hb => by rw [h.seen] at hb; cases hb }
  have hpath : S.Spec (S.Before (· = none) false) (Prog.ofExcept (validatePath S.path))
      (S.Ends (· = none) false fun _ => S.Before (· = none) false) := by
    refine Meets.ofExcept fun s hs => ?_
    cases validatePath S.path with
    | error e => exact hs.fails
    | ok _ => exact hs
  refine Leads.after h hpath (fun _ calm s h => ?_) fun e calm s h => stop h
  split
  · exact stop h.fails
  refine Leads.after h (ask_spec rfl) (fun _ calm s h => ?_) fun e calm s h => stop h
  refine Leads.after h (ask_spec rfl) (fun canonical calm s h => ?_) fun e calm s h => stop h
  split
  · exact stop h.fails
  rename_i heq
  obtain rfl := not_not.1 heq
  refine Leads.after h (ask_spec rfl) (fun _ calm s h => ?_) fun e calm s h => stop h
  refine Leads.after h checkRevision_spec (fun _ calm s h => ?_) fun e calm s h => stop h
  have hopen : S.Spec (S.Before (· = none) false) (request .openSftpRaw)
      (S.Ends (· = none) false fun _ => S.Before (· = none) true) := by
    refine request_spec Held.stable (fun s _ r t he => .inl ?_) fun s r t hs he => ?_
    · cases he with
      | failed | told | openedRaw => rfl
    · cases he with
      | failed => exact hs.fails
      | told _ _ hc => cases hc
      | openedRaw => exact { hs with raw := rfl }
  refine Leads.after h hopen (fun _ calm s h => ?_) fun e calm s h => stop h
  refine Ensures.bind (Ensures.attempt ((saveRaw_leads h).mono fun r calm s hr => ?_))
  exact close_leads hr fun _ _ h => h

/-! ## Every run -/

abbrev Moves : Type := List (Transition (Running Request Reply String String Server) (Act Request Reply))

/-- What a save has done by the time that it is at `x`, after these moves from `start`. -/
structure Safe (S : Save) (start : Server) (l : Moves) (x : Running Request Reply String String Server) : Prop where
  /-- Nothing is ever seen at the target but what was there, what another client put there, or the whole content. -/
  target : ∀ bytes, x.state.files S.path = some bytes → bytes = S.content ∨ start.files S.path = some bytes ∨
    ∃ y ∈ l, y.label = .other ∧ y.dst.state.files S.path = some bytes
  unsent : x.state.sent = false → ∀ y ∈ l, ∀ c r, y.label = .own c r →
    y.dst.state.files S.path = y.src.state.files S.path
  outcome : ∀ r, x.prog = .done r → S.Outcome true r x.state

theorem sent_le {c : Request} {r : Reply c} (h : Exec s c r t) : s.sent ≤ t.sent := by
  cases h with
  | failed => cases c <;> first | exact le_rfl | exact Bool.le_true _
  | read => split <;> exact le_rfl
  | refused | renamed => exact Bool.le_true _
  | _ => exact le_rfl

theorem sent_of_rename {source target : String} {r : Reply (.posixRename source target)}
    (h : Exec s (.posixRename source target) r t) : t.sent = true := by
  cases h with
  | told _ _ hc => cases hc
  | failed | refused | renamed => rfl

/-- **A save replaces its target by the whole content or leaves it alone**, among other clients' changes and whatever
requests fail or lose their answer. -/
theorem save_remote_safe {S : Save} {start : Server} (hs : S.Start start) {l : Moves}
    {x : Running Request Reply String String Server} (hrun : (sftpWorld S.scratch).Runs S.saveRemote start l x) :
    S.Safe start l x := by
  obtain ⟨hkeeps, hend⟩ := (saveRemote_leads hs).run hrun fun _ _ _ _ _ => trivial
  have hown : ∀ y ∈ l, ∀ c r, y.label = .own c r → Exec y.src.state c r y.dst.state := by
    rintro ⟨⟨_, _, _⟩, _, ⟨_, _, _⟩⟩ hy c r rfl
    obtain ⟨_, _, _, _, hst⟩ := hrun.transition _ hy
    cases hst with
    | own _ _ he => exact he
  have hgrows := hrun.grows (f := fun x => x.state.sent) fun x a y hst => by
    cases hst with
    | own _ _ he => exact sent_le he
    | other _ _ ho =>
      obtain ⟨files, _, rfl⟩ := ho
      exact le_rfl
  refine ⟨?_, fun hu y hy c r hl => ?_, fun r hr => ?_⟩
  · refine hrun.history (P := fun l x => (∀ y ∈ l, ∀ c r, y.label = .own c r →
        y.dst.state.files S.path = y.src.state.files S.path ∨ y.dst.state.files S.path = some S.content) →
      ∀ bytes, x.state.files S.path = some bytes → bytes = S.content ∨ start.files S.path = some bytes ∨
        ∃ y ∈ l, y.label = .other ∧ y.dst.state.files S.path = some bytes) ?_ ?_
      fun y hy c r hl => (hkeeps y hy c r hl r _ (hown y hy c r hl)).imp_right (·.2)
    · rintro x rfl _ bytes hb
      exact .inr (.inl hb)
    · intro l x a y _ ih _ hk bytes hb
      cases a with
      | other => exact .inr (.inr ⟨_, mem_concat_self, rfl, hb⟩)
      | own c r =>
        rcases hk _ mem_concat_self c r rfl with h | h
        · refine (ih (fun y hy => hk y (mem_append_left _ hy)) bytes (h ▸ hb)).imp_right (Or.imp_right ?_)
          exact fun ⟨y, hy, h⟩ => ⟨y, mem_append_left _ hy, h⟩
        · exact .inl (Option.some.inj (hb.symm.trans h))
  · refine (hkeeps y hy c r hl r _ (hown y hy c r hl)).resolve_right fun h => ?_
    obtain ⟨⟨source, rfl⟩, _⟩ := h
    have hle := (hgrows y hy).2
    rw [sent_of_rename (hown y hy _ r hl), hu] at hle
    exact Bool.false_ne_true (hle rfl)
  · rw [hr] at hend
    exact hend

def sample : Save where
  revision bytes := if bytes = [1] then "old" else "new"
  uuid := "1"
  path := "/a.txt"
  content := [2]
  expected := "old"
  fresh := by decide

def sampleServer (bytes : List UInt8) : Server where
  files path := if path = "/a.txt" then some bytes else none
  handles _ := none
  raw := false
  seen := []
  sent := false
  unclean := false

/-- Another client changes the target, and the session is lost. -/
theorem save_remote_safe_lost : ∃ l x, sample.Safe (sampleServer [1]) l x ∧ x.prog = .done (.error "lost") ∧
    x.state = sampleServer [3] := by
  obtain ⟨next, hcall, hnext⟩ : ∃ next, sample.saveRemote = .call .ensureSftp next ∧
      next (.error "lost") = .done (.error "lost") := ⟨_, rfl, rfl⟩
  have h0 : (sftpWorld sample.scratch).Runs sample.saveRemote (sampleServer [1]) []
      ⟨.call .ensureSftp next, sampleServer [1], false⟩ := .start (by rw [hcall])
  have h1 := h0.snoc (.other (t := sampleServer [3]) _ _ ⟨(sampleServer [3]).files, by decide, rfl⟩)
  exact ⟨_, _, save_remote_safe ⟨by decide, rfl, rfl, rfl⟩ (h1.snoc (.own _ false (.failed _ _ "lost"))), hnext, rfl⟩

end Save
end SftpSave
end Yuzora
