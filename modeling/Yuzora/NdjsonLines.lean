import Yuzora.Trace
import Yuzora.Utf8
/-!
# NdjsonLines — the lines read from a local stream

`read_local_ndjson_line_with` returns one line a call and keeps what it has of the next one in a buffer the calls share.
However the bytes arrive and whenever a call runs out of time, the lines are the stream cut after each newline, up to the
first line that is too long or no text.
-/
namespace Yuzora
namespace Ndjson

open List

/-! ## The code -/

def NEWLINE : UInt8 := 10
def READ_CHUNK_BYTES : Nat := 8 * 1024
def USIZE_MAX : Nat := 18446744073709551615

inductive HerdrProtocolError
  | lineTooLarge
  | unterminatedOverLimit
  | invalidUtf8
  | timedOut
  deriving DecidableEq

abbrev Result := Except HerdrProtocolError (Option (List Char))

def saturatingAdd (a b : Nat) : Nat := min (a + b) USIZE_MAX

def decodeCompletedLine (bytes : List UInt8) (maxBytes : UInt64) : Except HerdrProtocolError (List Char) :=
  let terminated := bytes.getLast? = some NEWLINE
  let contentLen := if terminated then bytes.length - 1 else bytes.length
  if contentLen > maxBytes.toNat then .error (if terminated then .lineTooLarge else .unterminatedOverLimit)
  else (Utf8.decode? bytes).elim (.error .invalidUtf8) .ok

/-- What the stream answers to a read. -/
inductive LocalStreamRead
  | data (read : Nat)
  | pending
  | interrupted
  | closed

/-- The stream's unread bytes, the buffer, the cursor of the call in progress, and what the calls have returned. -/
structure State where
  source : List UInt8
  pending : List UInt8
  scanned : Option Nat
  results : List Result

def State.return (s : State) (result : Result) : State := { s with scanned := none, results := s.results ++ [result] }

variable (maxBytes : UInt64) {a : List UInt8}

/-- One turn of the loop, with whether the deadline is over when it is looked at and what a read answers.  A read has
between one byte and a chunk of what is left, and the stream is closed when nothing is. -/
def turn (late : Bool) (read : LocalStreamRead) (scanned : Nat) (s : State) : Option State :=
  match (s.pending.drop scanned).findIdx? (· = NEWLINE) with
  | some offset =>
    let newline := scanned + offset
    let line := s.pending.take (newline + 1)
    some ({ s with pending := s.pending.drop (newline + 1) }.return ((decodeCompletedLine line maxBytes).map some))
  | none =>
    if s.pending.length > saturatingAdd maxBytes.toNat 1 then
      some ({ s with pending := [] }.return (.error .unterminatedOverLimit))
    else if late then some (s.return (.error .timedOut))
    else
      match read with
      | .data read =>
        if 0 < read ∧ read ≤ READ_CHUNK_BYTES ∧ read ≤ s.source.length then
          some { s with
            source := s.source.drop read, pending := s.pending ++ s.source.take read, scanned := some s.pending.length }
        else none
      | .pending | .interrupted => some { s with scanned := some s.pending.length }
      | .closed =>
        if s.source = [] then
          if s.pending = [] then some (s.return (.ok none))
          else some ({ s with pending := [] }.return ((decodeCompletedLine s.pending maxBytes).map some))
        else none

inductive Action
  | call
  | turn (late : Bool) (read : LocalStreamRead)

def next (s : State) : Action → Option State
  | .call => if s.scanned = none then some { s with scanned := some 0 } else none
  | .turn late read => s.scanned.bind fun scanned => turn maxBytes late read scanned s

def Run (bytes : List UInt8) : List (Transition State Action) → State → Prop :=
  Trace (· = ⟨bytes, [], none, []⟩) fun s a t => next maxBytes s a = some t

/-! ## The lines of the stream -/

/-- The stream cut after each newline. -/
def cutLines : List UInt8 → List (List UInt8)
  | [] => []
  | b :: s =>
    if b = NEWLINE then [b] :: cutLines s
    else ((cutLines s).head?.elim [b] (b :: ·)) :: (cutLines s).tail

variable (line : List UInt8)

def content : List UInt8 := if line.getLast? = some NEWLINE then line.dropLast else line

/-- What a caller sees of the stream. -/
inductive Seen
  | line (text : List Char)
  | ended
  | failed
  deriving DecidableEq

def Seen.of : Result → Seen
  | .ok (some text) => .line text
  | .ok none => .ended
  | .error _ => .failed

/-- What is seen up to the first failure; a call that ran out of time shows nothing. -/
def seen : List Result → List Seen
  | [] => []
  | r :: rest =>
    if r = .error .timedOut then seen rest
    else if Seen.of r = .failed then [.failed]
    else Seen.of r :: seen rest

def verdict : Seen :=
  if (content line).length ≤ maxBytes.toNat then (Utf8.decode? line).elim .failed .line else .failed

/-- What is to be seen at a position: a line's verdict, and the end after the last. -/
def expected (bytes : List UInt8) (i : Nat) : Seen := (cutLines bytes)[i]?.elim .ended (verdict maxBytes)

/-- How many lines were seen. -/
def taken (s : State) : Nat := ((seen s.results).filter (· ≠ .ended)).length

theorem cutLines_cons (b : UInt8) (s : List UInt8) : cutLines (b :: s) =
    if b = NEWLINE then [b] :: cutLines s else ((cutLines s).head?.elim [b] (b :: ·)) :: (cutLines s).tail :=
  rfl

theorem cutLines_append (ha : NEWLINE ∉ a) (b : List UInt8) :
    cutLines (a ++ NEWLINE :: b) = (a ++ [NEWLINE]) :: cutLines b := by
  induction a with
  | nil => rw [nil_append, cutLines_cons, if_pos rfl]; rfl
  | cons x a ih =>
    have hx : x ≠ NEWLINE := fun h => ha (h ▸ mem_cons_self)
    rw [cons_append, cutLines_cons, if_neg hx, ih fun h => ha (mem_cons_of_mem _ h)]
    rfl

theorem cutLines_ne_nil {s : List UInt8} (h : s ≠ []) : cutLines s ≠ [] := by
  cases s with
  | nil => exact absurd rfl h
  | cons b s =>
    rw [cutLines_cons]
    split <;> exact cons_ne_nil _ _

/-- The first line starts with what has no newline, and is all of it at the end. -/
theorem cutLines_open (ha : NEWLINE ∉ a) (hne : a ≠ []) (b : List UInt8) :
    ∃ rest lines, cutLines (a ++ b) = (a ++ rest) :: lines ∧ (b = [] → rest = [] ∧ lines = []) := by
  induction a with
  | nil => exact absurd rfl hne
  | cons x a ih =>
    have hx : x ≠ NEWLINE := fun h => ha (h ▸ mem_cons_self)
    rw [cons_append, cutLines_cons, if_neg hx]
    by_cases hab : a ++ b = []
    · obtain ⟨rfl, rfl⟩ := append_eq_nil_iff.1 hab
      exact ⟨[], [], rfl, fun _ => ⟨rfl, rfl⟩⟩
    · obtain ⟨line, lines, hlines⟩ := exists_cons_of_ne_nil (cutLines_ne_nil hab)
      rw [hlines]
      by_cases hae : a = []
      · subst hae
        exact ⟨line, lines, rfl, fun hb => absurd hb hab⟩
      · obtain ⟨rest, lines', heq, hend⟩ := ih (fun h => ha (mem_cons_of_mem _ h)) hae
        cases hlines.symm.trans heq
        exact ⟨rest, lines, rfl, hend⟩

theorem flatten_cutLines (s : List UInt8) : (cutLines s).flatten = s := by
  induction s with
  | nil => rfl
  | cons b s ih =>
    rw [cutLines_cons]
    split
    · rw [flatten_cons, ih]
      rfl
    · cases hs : cutLines s with
      | nil =>
        rw [hs] at ih
        rw [← ih]
        rfl
      | cons line lines =>
        rw [hs, flatten_cons] at ih
        rw [← ih]
        rfl

variable {maxBytes}

theorem decode_verdict :
    Seen.of ((decodeCompletedLine line maxBytes).map some) = verdict maxBytes line := by
  have hlen : (content line).length = if line.getLast? = some NEWLINE then line.length - 1 else line.length := by
    rw [content]
    split
    · exact length_dropLast
    · rfl
  rw [verdict, hlen, decodeCompletedLine]
  by_cases hle : (if line.getLast? = some NEWLINE then line.length - 1 else line.length) ≤ maxBytes.toNat
  · rw [if_pos hle]
    simp only [if_neg (Nat.not_lt.2 hle)]
    cases Utf8.decode? line <;> rfl
  · rw [if_neg hle]
    simp only [if_pos (Nat.lt_of_not_le hle)]
    rfl

theorem decode_not_timedOut : (decodeCompletedLine line maxBytes).map some ≠ .error .timedOut := by
  unfold decodeCompletedLine
  cases Utf8.decode? line <;> dsimp only <;> split_ifs <;> nofun

theorem find_newline {p : List UInt8} {scanned offset : Nat} (hc : NEWLINE ∉ p.take scanned)
    (hf : (p.drop scanned).findIdx? (· = NEWLINE) = some offset) :
    ∃ a b, p = a ++ NEWLINE :: b ∧ NEWLINE ∉ a ∧ p.take (scanned + offset + 1) = a ++ [NEWLINE] ∧
      p.drop (scanned + offset + 1) = b := by
  obtain ⟨hlt, hat, hbefore⟩ := findIdx?_eq_some_iff_getElem.1 hf
  rw [getElem_drop] at hat
  rw [length_drop] at hlt
  have hlt : scanned + offset < p.length := by omega
  have hat : p[scanned + offset] = NEWLINE := by simpa using hat
  refine ⟨p.take (scanned + offset), p.drop (scanned + offset + 1), ?_, ?_, ?_, rfl⟩
  · rw [← hat, getElem_cons_drop, take_append_drop]
  · rw [take_add, mem_append, not_or]
    refine ⟨hc, fun hm => ?_⟩
    obtain ⟨j, hj, heq⟩ := mem_take_iff_getElem.1 hm
    have hbj := hbefore j (by omega)
    rw [heq] at hbj
    exact hbj (by simp)
  · rw [← hat, take_append_getElem]

theorem seen_snoc (rs : List Result) (r : Result) : seen (rs ++ [r]) =
    if .failed ∈ seen rs then seen rs else seen rs ++ if r = .error .timedOut then [] else [Seen.of r] := by
  induction rs with
  | nil =>
    rw [nil_append, seen, seen, if_neg not_mem_nil]
    split
    · rfl
    · split
      · rename_i hf
        rw [hf]
        rfl
      · rfl
  | cons q rs ih =>
    rw [cons_append, seen, seen]
    by_cases hq : q = .error .timedOut
    · rw [if_pos hq, if_pos hq, ih]
    · rw [if_neg hq, if_neg hq]
      by_cases hf : Seen.of q = .failed
      · rw [if_pos hf, if_pos hf, if_pos mem_cons_self]
      · rw [if_neg hf, if_neg hf, ih]
        have hm : Seen.failed ∈ Seen.of q :: seen rs ↔ Seen.failed ∈ seen rs := by
          rw [mem_cons]
          exact or_iff_right fun h => hf h.symm
        by_cases hrs : Seen.failed ∈ seen rs
        · rw [if_pos hrs, if_pos (hm.2 hrs)]
        · rw [if_neg hrs, if_neg fun h => hrs (hm.1 h), cons_append]

/-! ## What holds of every run -/

variable {bytes : List UInt8} {s t : State} {l : List (Transition State Action)}

/-- The buffer and the unread bytes are the lines not yet taken, and what is seen is what is expected. -/
structure Sound (maxBytes : UInt64) (bytes : List UInt8) (s : State) : Prop where
  bound : s.pending.length ≤ maxBytes.toNat + 1 + READ_CHUNK_BYTES
  cursor : ∀ n, s.scanned = some n → NEWLINE ∉ s.pending.take n
  seen : ∀ i x, (seen s.results)[i]? = some x → x = expected maxBytes bytes i
  kept : .failed ∉ Ndjson.seen s.results → cutLines (s.pending ++ s.source) = (cutLines bytes).drop (taken s) ∧
    (s.pending ++ s.source = [] ∨ (Ndjson.seen s.results).length = taken s)

/-- **A call that returns something else than a timeout** shows what is expected next, and takes the line it shows. -/
theorem Sound.return {result : Result} (h : Sound maxBytes bytes s) (pending source : List UInt8)
    (hresult : result ≠ .error .timedOut) (hbound : pending.length ≤ maxBytes.toNat + 1 + READ_CHUNK_BYTES)
    (hshown : (∃ line, cutLines (s.pending ++ s.source) = line :: cutLines (pending ++ source) ∧
        Seen.of result = verdict maxBytes line) ∨
      (s.pending ++ s.source = [] ∧ pending ++ source = [] ∧ Seen.of result = .ended) ∨
      (Seen.of result = .failed ∧ ∃ line lines, cutLines (s.pending ++ s.source) = line :: lines ∧
        verdict maxBytes line = .failed)) :
    Sound maxBytes bytes ({ s with pending := pending, source := source }.return result) := by
  have hsnoc := seen_snoc s.results result
  rw [if_neg hresult] at hsnoc
  by_cases hfailed : Seen.failed ∈ Ndjson.seen s.results
  · rw [if_pos hfailed] at hsnoc
    exact ⟨hbound, nofun, fun i x hx => h.seen i x (by rw [← hsnoc]; exact hx), fun hn => absurd (hsnoc ▸ hfailed) hn⟩
  · rw [if_neg hfailed] at hsnoc
    obtain ⟨hlines, hcount⟩ := h.kept hfailed
    have hlen : taken s ≤ (Ndjson.seen s.results).length := length_filter_le ..
    have hat : ∀ line lines, cutLines (s.pending ++ s.source) = line :: lines →
        (Ndjson.seen s.results).length = taken s ∧ expected maxBytes bytes (taken s) = verdict maxBytes line := by
      intro line lines hcons
      refine ⟨hcount.resolve_left fun hnil => ?_, ?_⟩
      · rw [hnil] at hcons
        cases hcons
      · rw [expected, ← head?_drop, ← hlines, hcons]
        rfl
    have hnext : expected maxBytes bytes (Ndjson.seen s.results).length = Seen.of result := by
      rcases hshown with ⟨line, hcons, hof⟩ | ⟨hnil, -, hof⟩ | ⟨hof, line, lines, hcons, hv⟩
      · rw [(hat _ _ hcons).1, (hat _ _ hcons).2, hof]
      · rw [hnil] at hlines
        have hend : (cutLines bytes).length ≤ taken s := drop_eq_nil_iff.1 hlines.symm
        rw [expected, getElem?_eq_none (hend.trans hlen), hof]
        rfl
      · rw [(hat _ _ hcons).1, (hat _ _ hcons).2, hof, hv]
    refine ⟨hbound, nofun, fun i x hx => ?_, fun hn => ?_⟩
    · change (Ndjson.seen (s.results ++ [result]))[i]? = some x at hx
      rw [hsnoc] at hx
      rcases Nat.lt_trichotomy i (Ndjson.seen s.results).length with hi | rfl | hi
      · rw [getElem?_append_left hi] at hx
        exact h.seen i x hx
      · rw [getElem?_concat_length] at hx
        rw [hnext]
        exact (Option.some.inj hx).symm
      · rw [getElem?_eq_none (by rw [length_append, length_singleton]; omega)] at hx
        cases hx
    · have hn : Seen.failed ∉ Ndjson.seen s.results ++ [Seen.of result] := hsnoc ▸ hn
      have htaken : taken ({ s with pending := pending, source := source }.return result) =
          taken s + if Seen.of result = .ended then 0 else 1 := by
        change ((Ndjson.seen (s.results ++ [result])).filter _).length = _
        rw [hsnoc, filter_append, length_append, taken]
        congr 1
        cases Seen.of result <;> rfl
      change cutLines (pending ++ source) = _ ∧ (pending ++ source = [] ∨ (Ndjson.seen (s.results ++ [result])).length = _)
      rw [hsnoc, htaken, length_append, length_singleton]
      rcases hshown with ⟨line, hcons, hof⟩ | ⟨hnil, hnil', hof⟩ | ⟨hof, -⟩
      · have hne : Seen.of result ≠ .ended := by
          rw [hof, verdict]
          split
          · cases Utf8.decode? line <;> nofun
          · nofun
        rw [if_neg hne, ← tail_drop, ← hlines, hcons, (hat _ _ hcons).1]
        exact ⟨rfl, .inr rfl⟩
      · rw [if_pos hof, hnil', Nat.add_zero, ← hlines, hnil]
        exact ⟨rfl, .inl rfl⟩
      · exact absurd (mem_append_right _ (hof ▸ mem_cons_self)) hn

theorem length_le_content (ha : NEWLINE ∉ a) (rest : List UInt8) : a.length ≤ (content (a ++ rest)).length := by
  rw [content]
  split
  · rename_i hlast
    have hrest : rest ≠ [] := by
      rintro rfl
      rw [append_nil] at hlast
      exact ha (mem_of_getLast? hlast)
    have := length_pos_iff.2 hrest
    rw [length_dropLast, length_append]
    omega
  · rw [length_append]
    omega

theorem Sound.turn {late : Bool} {read : LocalStreamRead} {scanned : Nat} (h : Sound maxBytes bytes s)
    (hs : s.scanned = some scanned) (ht : turn maxBytes late read scanned s = some t) : Sound maxBytes bytes t := by
  have hcursor := h.cursor scanned hs
  rw [Ndjson.turn.eq_def] at ht
  split at ht
  · rename_i offset hf
    obtain ⟨a, b, hp, ha, htake, hdrop⟩ := find_newline hcursor hf
    cases ht
    have hlines : cutLines (s.pending ++ s.source) = (a ++ [NEWLINE]) :: cutLines (b ++ s.source) := by
      rw [hp, append_assoc, cons_append, cutLines_append ha]
    have hbound : b.length ≤ maxBytes.toNat + 1 + READ_CHUNK_BYTES := by
      have := h.bound
      rw [hp, length_append, length_cons] at this
      omega
    rw [htake, hdrop]
    exact h.return b s.source (decode_not_timedOut _) hbound (.inl ⟨_, hlines, decode_verdict _⟩)
  · rename_i hf
    have hopen : NEWLINE ∉ s.pending := by
      rw [← take_append_drop scanned s.pending, mem_append, not_or]
      refine ⟨hcursor, fun hm => ?_⟩
      have hno := findIdx?_eq_none_iff.1 hf _ hm
      simp at hno
    split at ht
    · rename_i hover
      cases ht
      have hlong : maxBytes.toNat < s.pending.length := by
        have hmax : maxBytes.toNat ≤ USIZE_MAX := Nat.le_of_lt_succ maxBytes.toNat_lt
        exact lt_of_le_of_lt (le_min (Nat.le_succ _) hmax) hover
      have hne : s.pending ≠ [] := fun hnil => by simp [hnil] at hlong
      obtain ⟨rest, lines, hlines, -⟩ := cutLines_open hopen hne s.source
      refine h.return [] s.source nofun (Nat.zero_le _) (.inr (.inr ⟨rfl, _, _, hlines, ?_⟩))
      exact if_neg (Nat.not_le.2 (lt_of_lt_of_le hlong (length_le_content hopen rest)))
    · rename_i hfits
      have hfits : s.pending.length ≤ maxBytes.toNat + 1 := (Nat.not_lt.1 hfits).trans (min_le_left _ _)
      have hstay : Sound maxBytes bytes { s with scanned := some s.pending.length } := by
        refine ⟨h.bound, fun n hn => ?_, h.seen, h.kept⟩
        cases hn
        rw [take_length]
        exact hopen
      split at ht
      · cases ht
        have hsame : Ndjson.seen (s.results ++ [(.error .timedOut : Result)]) = Ndjson.seen s.results := by
          rw [seen_snoc, if_pos rfl, append_nil, ite_self]
        refine ⟨h.bound, nofun, fun i x hx => h.seen i x (by rw [← hsame]; exact hx), fun hn => ?_⟩
        have hkept := h.kept (hsame ▸ hn)
        rw [taken, ← hsame] at hkept
        exact hkept
      · split at ht
        · split at ht
          · rename_i read hread
            cases ht
            refine ⟨?_, fun n hn => ?_, h.seen, ?_⟩
            · simp only [length_append, length_take]
              omega
            · cases hn
              rw [take_left]
              exact hopen
            · change _ → cutLines (s.pending ++ s.source.take read ++ s.source.drop read) = _ ∧ (_ = [] ∨ _)
              rw [append_assoc, take_append_drop]
              exact h.kept
          · cases ht
        · cases ht
          exact hstay
        · cases ht
          exact hstay
        · split at ht
          · rename_i hsource
            have hend : s.pending ++ s.source = s.pending := by rw [hsource, append_nil]
            split at ht
            · rename_i hempty
              cases ht
              exact h.return s.pending s.source nofun h.bound
                (.inr (.inl ⟨by rw [hend, hempty], by rw [hend, hempty], rfl⟩))
            · rename_i hne
              cases ht
              obtain ⟨rest, lines, hlines, hnil⟩ := cutLines_open hopen hne s.source
              obtain ⟨rfl, rfl⟩ := hnil hsource
              rw [append_nil] at hlines
              refine h.return [] s.source (decode_not_timedOut _) (Nat.zero_le _)
                (.inl ⟨s.pending, ?_, decode_verdict _⟩)
              rw [hlines, hsource]
              rfl
          · cases ht

theorem Sound.next {a : Action} (h : Sound maxBytes bytes s) (hn : next maxBytes s a = some t) :
    Sound maxBytes bytes t := by
  cases a with
  | call =>
    rw [Ndjson.next] at hn
    split at hn
    · cases hn
      refine ⟨h.bound, fun n hn => ?_, h.seen, h.kept⟩
      cases hn
      exact not_mem_nil
    · cases hn
  | turn late read =>
    obtain ⟨scanned, hs, ht⟩ := Option.bind_eq_some_iff.1 hn
    exact h.turn hs ht

theorem run_sound (h : Run maxBytes bytes l s) : Sound maxBytes bytes s := by
  refine h.invariant ?_ fun s a t hs hn => hs.next hn
  rintro s rfl
  exact ⟨Nat.zero_le _, nofun, nofun, fun _ => ⟨rfl, .inr rfl⟩⟩

/-- A timeout leaves the bytes where they are. -/
theorem next_timedOut {a : Action} (hn : next maxBytes s a = some t)
    (hr : t.results = s.results ++ [(.error .timedOut : Result)]) : t.pending = s.pending ∧ t.source = s.source := by
  have hgrown : s.results ≠ s.results ++ [(.error .timedOut : Result)] := fun h => by simpa using congrArg List.length h
  have hlast : ∀ r, s.results ++ [r] = s.results ++ [(.error .timedOut : Result)] → r = .error .timedOut :=
    fun r h => singleton_inj.1 (append_cancel_left h)
  cases a with
  | call =>
    rw [next] at hn
    split at hn
    · cases hn
      exact absurd hr hgrown
    · cases hn
  | turn late read =>
    obtain ⟨scanned, -, ht⟩ := Option.bind_eq_some_iff.1 hn
    rw [turn.eq_def] at ht
    split at ht
    · cases ht
      exact absurd (hlast _ hr) (decode_not_timedOut _)
    · split at ht
      · cases ht
        cases hlast _ hr
      · split at ht
        · cases ht
          exact ⟨rfl, rfl⟩
        · split at ht
          · split at ht
            · cases ht
              exact absurd hr hgrown
            · cases ht
          · cases ht
            exact absurd hr hgrown
          · cases ht
            exact absurd hr hgrown
          · split at ht
            · split at ht
              · cases ht
                cases hlast _ hr
              · cases ht
                exact absurd (hlast _ hr) (decode_not_timedOut _)
            · cases ht

/-- **The lines read are the lines of the stream**, however it is read: what is seen at a position depends on the bytes
and the limit alone, up to the first failure; the buffer stays within the limit and a chunk; a timeout moves no byte; and
the lines taken, the buffer and what is unread are the stream. -/
theorem lines_read {l : List (Transition State Action)} (h : Run maxBytes bytes l s) :
    (∀ i x, (seen s.results)[i]? = some x → x = expected maxBytes bytes i) ∧
    s.pending.length ≤ maxBytes.toNat + 1 + READ_CHUNK_BYTES ∧
    (∀ x ∈ l, x.dst.results = x.src.results ++ [.error .timedOut] →
      x.dst.pending = x.src.pending ∧ x.dst.source = x.src.source) ∧
    (.failed ∉ seen s.results → ((cutLines bytes).take (taken s)).flatten ++ (s.pending ++ s.source) = bytes) := by
  have hs := run_sound h
  refine ⟨hs.seen, hs.bound, fun x hx hr => ?_, fun hn => ?_⟩
  · obtain ⟨past, later, -, -, hstep⟩ := h.transition x hx
    exact next_timedOut hstep hr
  · rw [← flatten_cutLines (s.pending ++ s.source), (hs.kept hn).1, ← flatten_append, take_append_drop,
      flatten_cutLines]

theorem run_of_played (acts : List Action)
    (h : Trace.play (fun s a => (next maxBytes s a).map (Prod.mk a)) acts [] ⟨bytes, [], none, []⟩ = some (l, s)) :
    Run maxBytes bytes l s :=
  Trace.of_played rfl h

/-- A line that arrives in two reads with a timeout between them. -/
theorem lines_read_split : ∃ l s, Run 4 [97, 10] l s ∧ seen s.results = [expected 4 [97, 10] 0] ∧
    ∀ i x, (seen s.results)[i]? = some x → x = expected 4 [97, 10] i := by
  have hrun : Run 4 [97, 10] _ _ := run_of_played
    [.call, .turn false (.data 1), .turn true .pending, .call, .turn false (.data 1), .turn false .pending] rfl
  exact ⟨_, _, hrun, rfl, (lines_read hrun).1⟩

end Ndjson
end Yuzora
