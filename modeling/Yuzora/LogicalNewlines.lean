import Mathlib.Data.List.Basic
/-!
# LogicalNewlines — a reader that gives every line one line feed

The inner reader is read in pieces of any size, and its bytes are rewritten in the caller's buffer.  A carriage return at
the end of a piece is kept in mind, since the next piece may begin with the line feed of the pair.
-/
namespace Yuzora
namespace Search

open List Option

abbrev Byte : Type := UInt8

def cr : Byte := 13
def lf : Byte := 10

/-! ## Lines -/

def normalize : List Byte → List Byte
  | [] => []
  | [b] => [if b = cr then lf else b]
  | b :: c :: bytes =>
    if b = cr then (if c = lf then lf :: normalize bytes else lf :: normalize (c :: bytes)) else b :: normalize (c :: bytes)

/-- One piece after the other: what is given for a piece, and whether it ends in a CR. -/
def scan : Bool → List Byte → List Byte × Bool
  | skip, [] => ([], skip)
  | skip, b :: bytes =>
    if skip ∧ b = lf then scan false bytes
    else
      let r := scan (decide (b = cr)) bytes
      ((if b = cr then lf else b) :: r.1, r.2)

example : normalize [97, cr, lf, cr, 98] = [97, lf, lf, 98] := by decide

theorem scan_cons (skip : Bool) (b : Byte) (bytes : List Byte) : scan skip (b :: bytes) =
    if skip ∧ b = lf then scan false bytes
    else ((if b = cr then lf else b) :: (scan (decide (b = cr)) bytes).1, (scan (decide (b = cr)) bytes).2) :=
  rfl

theorem scan_append (skip : Bool) (a b : List Byte) :
    scan skip (a ++ b) = ((scan skip a).1 ++ (scan (scan skip a).2 b).1, (scan (scan skip a).2 b).2) := by
  induction a generalizing skip with
  | nil => rfl
  | cons x a ih =>
    rw [cons_append, scan_cons, scan_cons]
    by_cases h : skip = true ∧ x = lf
    · rw [if_pos h, if_pos h, ih]
    · rw [if_neg h, if_neg h, ih]
      rfl

theorem scan_false_cons (b : Byte) (bytes : List Byte) : scan false (b :: bytes) =
    ((if b = cr then lf else b) :: (scan (decide (b = cr)) bytes).1, (scan (decide (b = cr)) bytes).2) := by
  rw [scan_cons, if_neg fun h => Bool.false_ne_true h.1]

theorem scan_true_cons {b : Byte} (h : b ≠ lf) (bytes : List Byte) : scan true (b :: bytes) = scan false
    (b :: bytes) := by
  rw [scan_false_cons, scan_cons, if_neg fun hb => h hb.2]

theorem scan_true_lf (bytes : List Byte) : scan true (lf :: bytes) = scan false bytes := by
  rw [scan_cons, if_pos ⟨rfl, rfl⟩]

/-- **Scanning the pieces is rewriting the whole.** -/
theorem scan_eq_normalize (bytes : List Byte) : (scan false bytes).1 = normalize bytes := by
  fun_induction normalize bytes with
  | case1 => rfl
  | case2 b => rw [scan_false_cons]; rfl
  | case3 bytes ih =>
    rw [scan_false_cons, decide_eq_true rfl, scan_true_lf, ih, if_pos rfl]
  | case4 c bytes hc ih =>
    rw [scan_false_cons, decide_eq_true rfl, scan_true_cons hc, ih, if_pos rfl]
  | case5 b c bytes hb ih =>
    rw [scan_false_cons, decide_eq_false hb, ih, if_neg hb]

theorem scan_plain {bytes : List Byte} (h : cr ∉ bytes) : scan false bytes = (bytes, false) := by
  induction bytes with
  | nil => rfl
  | cons b bytes ih =>
    have hb : b ≠ cr := fun heq => h (heq ▸ mem_cons_self)
    rw [scan_false_cons, decide_eq_false hb, ih fun hm => h (mem_cons_of_mem _ hm), if_neg hb]

/-! ## The inner reader -/

variable {E : Type}

/-- A reader of some bytes: the sizes of its reads, and the error it has at the end. -/
structure Inner (E : Type) where
  bytes : List Byte
  sizes : Nat → Nat
  failure : Option E
  calls : Nat

variable (inner : Inner E)

/-- How much a read gives; it gives something while there is something. -/
def Inner.amount (capacity : Nat) : Nat :=
  min (max 1 (inner.sizes inner.calls)) (min capacity inner.bytes.length)

def Inner.read (buf : List Byte) : Inner E × List Byte × Except E Nat :=
  let len := inner.amount buf.length
  if inner.bytes = [] ∧ inner.failure.isSome then
    ({ inner with calls := inner.calls + 1 }, buf, (inner.failure.map Except.error).getD (.ok 0))
  else
    ({ inner with bytes := inner.bytes.drop len, calls := inner.calls + 1 },
      inner.bytes.take len ++ buf.drop len, .ok len)

/-! ## `LogicalNewlineReader` -/

structure LogicalNewlineReader (E : Type) where
  inner : Inner E
  skipLf : Bool

/-- The rewriting in place; nothing where an index is outside the buffer. -/
def compact (buf : List Byte) (len read written : Nat) : Option (List Byte × Nat × Bool) :=
  if read < len then
    buf[read]?.bind fun byte =>
      if written < buf.length then
        if byte = cr then
          let buf := buf.set written lf
          if read + 1 = len then some (buf, written + 1, true)
          else
            buf[read + 1]?.bind fun next =>
              if next = lf then compact buf len (read + 2) (written + 1) else compact buf len (read + 1) (written + 1)
        else compact (buf.set written byte) len (read + 1) (written + 1)
      else none
  else some (buf, written, false)
termination_by len - read

variable (buf : List Byte)

/-- `copy_within(start..len, 0)` -/
def copyWithin (start len : Nat) : List Byte :=
  (buf.take len).drop start ++ buf.drop (len - start)

/-- The rounds of `read`, of which one goes on where all it read was the LF of a pair; nothing where it panics. -/
def LogicalNewlineReader.rounds : Nat → LogicalNewlineReader E → List Byte →
    Option (LogicalNewlineReader E × List Byte × Except E Nat)
  | 0, _, _ => none
  | fuel + 1, reader, buf =>
    let r := reader.inner.read buf
    match r.2.2 with
    | .error e => some ({ reader with inner := r.1 }, r.2.1, .error e)
    | .ok len =>
      if len = 0 then some ({ reader with inner := r.1 }, r.2.1, .ok 0)
      else
        let start := if reader.skipLf ∧ r.2.1.head? = some lf then 1 else 0
        if start = len then LogicalNewlineReader.rounds fuel ⟨r.1, false⟩ r.2.1
        else if cr ∉ (r.2.1.take len).drop start then
          some (⟨r.1, false⟩, if start ≠ 0 then copyWithin r.2.1 start len else r.2.1, .ok (len - start))
        else
          (compact r.2.1 len start 0).map fun c => (⟨r.1, c.2.2⟩, c.1, .ok c.2.1)

variable (reader : LogicalNewlineReader E)

/-- `read`; each round reads something, so there are no more of them than bytes. -/
def LogicalNewlineReader.read (buf : List Byte) :
    Option (LogicalNewlineReader E × List Byte × Except E Nat) :=
  if buf = [] then some (reader, buf, .ok 0) else reader.rounds (reader.inner.bytes.length + 1) buf

/-- One call: the buffer it was given, the buffer after it and the answer. -/
structure Call (E : Type) where
  buf : List Byte
  after : List Byte
  result : Except E Nat

/-- A run of calls with the buffers given; nothing where one panics. -/
def LogicalNewlineReader.run : LogicalNewlineReader E → List (List Byte) → Option (List (Call E))
  | _, [] => some []
  | reader, buf :: bufs =>
    (reader.read buf).bind fun r => (LogicalNewlineReader.run r.1 bufs).map fun calls => ⟨buf, r.2.1, r.2.2⟩ :: calls

def Call.given (call : Call E) : List Byte :=
  match call.result with
  | .ok n => call.after.take n
  | .error _ => []

def delivered (calls : List (Call E)) : List Byte := calls.flatMap Call.given

/-! ## One call -/

theorem compact_spec (len read written : Nat) (hwritten : written ≤ read) (hread : read ≤ len)
    (hlen : len ≤ buf.length) : ∃ after n skip, compact buf len read written = some (after, n, skip) ∧
      after.length = buf.length ∧ n ≤ len ∧ written ≤ n ∧
        after.take n = buf.take written ++ (scan false ((buf.take len).drop read)).1 ∧
        skip = (scan false ((buf.take len).drop read)).2 := by
  have hcons : ∀ {l : List Byte} {k : Nat}, k < len → len ≤ l.length → ∃ b, l[k]? = some b ∧
      (l.take len).drop k = b :: (l.take len).drop (k + 1) := by
    intro l k hk hl
    have hlt : k < (l.take len).length := by rw [length_take]; omega
    refine ⟨l.get ⟨k, by omega⟩, by simp, ?_⟩
    rw [drop_eq_getElem_cons hlt, getElem_take]
    rfl
  have hset : ∀ {l : List Byte} {k w : Nat} (b : Byte), w < k → ((l.set w b).take len).drop k = (l.take len).drop k := by
    intro l k w b hw
    rw [take_set, drop_set_of_lt hw]
  have htake : ∀ {l : List Byte} {w : Nat} (b : Byte), w < l.length → (l.set w b).take (w + 1) = l.take w ++ [b] := by
    intro l w b hw
    rw [take_succ_eq_append_getElem (by simpa using hw), take_set_of_le (Nat.le_refl w), getElem_set_self]
  induction hk : len - read using Nat.strongRecOn generalizing buf read written with
  | ind k ih =>
    rw [compact]
    by_cases hlt : read < len
    · obtain ⟨byte, hget, hdrop⟩ := hcons hlt hlen
      have hw : written < buf.length := by omega
      rw [if_pos hlt, hget, bind_some, if_pos hw, hdrop, scan_false_cons]
      by_cases hb : byte = cr
      · simp only [if_pos hb, decide_eq_true hb]
        by_cases hend : read + 1 = len
        · -- the piece ends in a CR
          have hrest : (buf.take len).drop (read + 1) = [] := by
            rw [drop_eq_nil_iff, length_take]
            omega
          rw [if_pos hend, hrest]
          exact ⟨_, _, _, rfl, length_set, by omega, by omega, htake lf hw, rfl⟩
        · obtain ⟨next, hnext, hdrop'⟩ := hcons (l := buf) (k := read + 1) (by omega) hlen
          have hnext' : (buf.set written lf)[read + 1]? = some next := by
            rw [getElem?_set_ne (by omega), hnext]
          rw [if_neg hend, hnext', bind_some, hdrop']
          by_cases hn : next = lf
          · obtain ⟨after, n, skip, heq, hlength, hn', hle, hafter, hskip⟩ :=
              ih (len - (read + 2)) (by omega) (buf.set written lf) (read + 2) (written + 1) (by omega) (by omega)
                (by rwa [length_set]) rfl
            rw [hset lf (by omega)] at hafter hskip
            rw [if_pos hn, hn, scan_true_lf]
            refine ⟨after, n, skip, heq, hlength.trans length_set, hn', by omega, ?_, hskip⟩
            rw [hafter, htake lf hw, append_assoc, singleton_append]
          · obtain ⟨after, n, skip, heq, hlength, hn', hle, hafter, hskip⟩ :=
              ih (len - (read + 1)) (by omega) (buf.set written lf) (read + 1) (written + 1) (by omega) (by omega)
                (by rwa [length_set]) rfl
            rw [hset lf (by omega), hdrop'] at hafter hskip
            rw [if_neg hn, scan_true_cons hn]
            refine ⟨after, n, skip, heq, hlength.trans length_set, hn', by omega, ?_, hskip⟩
            rw [hafter, htake lf hw, append_assoc, singleton_append]
      · obtain ⟨after, n, skip, heq, hlength, hn', hle, hafter, hskip⟩ :=
          ih (len - (read + 1)) (by omega) (buf.set written byte) (read + 1) (written + 1) (by omega) (by omega)
            (by rwa [length_set]) rfl
        rw [hset byte (by omega)] at hafter hskip
        simp only [if_neg hb, decide_eq_false hb]
        refine ⟨after, n, skip, heq, hlength.trans length_set, hn', by omega, ?_, hskip⟩
        rw [hafter, htake byte hw, append_assoc, singleton_append]
    · have hrest : (buf.take len).drop read = [] := by
        rw [drop_eq_nil_iff, length_take]
        omega
      rw [if_neg hlt, hrest]
      exact ⟨buf, written, false, rfl, rfl, by omega, Nat.le_refl _, (append_nil _).symm, rfl⟩

/-- **A read of the inner reader**: an error or nothing at the end, something before it. -/
theorem inner_read (buf : List Byte) (hbuf : buf ≠ []) :
    (inner.bytes = [] ∧ (inner.read buf).1.bytes = [] ∧ (inner.read buf).2.1 = buf ∧
      ((∃ e, inner.failure = some e ∧ (inner.read buf).2.2 = .error e) ∨
        inner.failure = none ∧ (inner.read buf).2.2 = .ok 0)) ∨
    ∃ piece, piece ≠ [] ∧ inner.bytes = piece ++ (inner.read buf).1.bytes ∧ piece.length ≤ buf.length ∧
      (inner.read buf).2.1 = piece ++ buf.drop piece.length ∧ (inner.read buf).2.2 = .ok piece.length := by
  have hcap : 0 < buf.length := length_pos_iff.2 hbuf
  by_cases hend : inner.bytes = []
  · refine .inl ⟨hend, ?_⟩
    have hzero : inner.amount buf.length = 0 := by simp [Inner.amount, hend]
    cases hf : inner.failure with
    | some e =>
      have hread : inner.read buf = ({ inner with calls := inner.calls + 1 }, buf, .error e) := by
        simp [Inner.read, hend, hf]
      rw [hread]
      exact ⟨hend, rfl, .inl ⟨e, rfl, rfl⟩⟩
    | none =>
      have hread : inner.read buf = ({ inner with bytes := [], calls := inner.calls + 1 }, buf, .ok 0) := by
        simp [Inner.read, hend, hf, hzero]
      rw [hread]
      exact ⟨rfl, rfl, .inr ⟨rfl, rfl⟩⟩
  · have hbytes : 0 < inner.bytes.length := length_pos_iff.2 hend
    have hread : inner.read buf = ({ inner with
        bytes := inner.bytes.drop (inner.amount buf.length), calls := inner.calls + 1 },
        inner.bytes.take (inner.amount buf.length) ++ buf.drop (inner.amount buf.length),
        .ok (inner.amount buf.length)) := if_neg fun h => hend h.1
    have hpos : 0 < inner.amount buf.length := by
      unfold Inner.amount
      omega
    have hle : inner.amount buf.length ≤ inner.bytes.length ∧ inner.amount buf.length ≤ buf.length := by
      unfold Inner.amount
      omega
    have hlength : (inner.bytes.take (inner.amount buf.length)).length = inner.amount buf.length :=
      length_take_of_le hle.1
    refine .inr ⟨inner.bytes.take (inner.amount buf.length), ?_, ?_, ?_, ?_, ?_⟩
    · intro hnil
      rw [hnil] at hlength
      exact absurd hlength (Nat.ne_of_lt hpos)
    · rw [hread]
      exact (take_append_drop _ _).symm
    · omega
    · rw [hread, hlength]
    · rw [hread, hlength]

def LogicalNewlineReader.pending : List Byte :=
  (scan reader.skipLf reader.inner.bytes).1

/-- What one call does: it gives what comes next, and nothing only at the end. -/
structure Reads (reader : LogicalNewlineReader E) (buf : List Byte) (reader' : LogicalNewlineReader E)
    (after : List Byte) (result : Except E Nat) : Prop where
  inside : after.length = buf.length
  failure : reader'.inner.failure = reader.inner.failure
  answer : (∃ n, result = .ok n ∧ 0 < n ∧ n ≤ buf.length ∧ after.take n ++ reader'.pending = reader.pending) ∨
    (result = .ok 0 ∧ reader.inner.failure = none ∨ ∃ e, result = .error e ∧ reader.inner.failure = some e) ∧
      reader.pending = [] ∧ reader'.pending = []

theorem copyWithin_spec {start len : Nat} (hstart : start ≤ len) (hlen : len ≤ buf.length) :
    (copyWithin buf start len).length = buf.length ∧
      (copyWithin buf start len).take (len - start) = (buf.take len).drop start := by
  have hlength : ((buf.take len).drop start).length = len - start := by
    rw [length_drop, length_take_of_le hlen]
  constructor
  · rw [copyWithin, length_append, hlength, length_drop]
    omega
  · rw [copyWithin, ← hlength, take_left]

theorem inner_failure (buf : List Byte) : (inner.read buf).1.failure = inner.failure := by
  unfold Inner.read
  split <;> rfl

theorem scan_start (skip : Bool) {piece : List Byte} (hne : piece ≠ []) :
    ∃ start, start = (if skip ∧ piece.head? = some lf then 1 else 0) ∧ scan skip piece = scan false (piece.drop start) ∧
      start ≤ piece.length := by
  obtain ⟨b, rest, rfl⟩ := exists_cons_of_ne_nil hne
  refine ⟨_, rfl, ?_, ?_⟩
  · by_cases h : skip = true ∧ b = lf
    · obtain ⟨rfl, rfl⟩ := h
      exact scan_true_lf rest
    · rw [if_neg fun hb => h ⟨hb.1, Option.some.inj hb.2⟩, drop_zero]
      cases skip with
      | false => rfl
      | true => exact scan_true_cons (fun hb => h ⟨rfl, hb⟩) rest
  · split
    · exact Nat.succ_le_of_lt (length_pos_iff.2 hne)
    · exact Nat.zero_le _

/-- **The rounds of one call.** -/
theorem rounds_spec (fuel : Nat) (reader : LogicalNewlineReader E) (buf : List Byte) (hbuf : buf ≠ [])
    (hfuel : reader.inner.bytes.length < fuel) : ∃ reader' after result,
      reader.rounds fuel buf = some (reader', after, result) ∧ Reads reader buf reader' after result := by
  induction fuel generalizing reader buf with
  | zero => exact absurd hfuel (Nat.not_lt_zero _)
  | succ fuel ih =>
    have hfailure := inner_failure reader.inner buf
    rw [LogicalNewlineReader.rounds]
    rcases inner_read reader.inner buf hbuf with ⟨hend, hend', hafter, hanswer⟩ | ⟨piece, hne, hbytes, hle, hafter, hread⟩
    · have hpending : reader.pending = [] := by rw [LogicalNewlineReader.pending, hend]; rfl
      have hpending' : LogicalNewlineReader.pending ⟨(reader.inner.read buf).1, reader.skipLf⟩ = [] := by
        rw [LogicalNewlineReader.pending, hend']
        rfl
      rcases hanswer with ⟨e, he, hread⟩ | ⟨hnone, hread⟩
      · simp only [hread]
        exact ⟨_, _, _, rfl, congrArg List.length hafter, hfailure, .inr ⟨.inr ⟨e, rfl, he⟩, hpending, hpending'⟩⟩
      · simp only [hread]
        exact ⟨_, _, _, rfl, congrArg List.length hafter, hfailure, .inr ⟨.inl ⟨rfl, hnone⟩, hpending, hpending'⟩⟩
    · have hinside : (reader.inner.read buf).2.1.length = buf.length := by
        rw [hafter, length_append, length_drop]
        omega
      have htake : (reader.inner.read buf).2.1.take piece.length = piece := by rw [hafter, take_left]
      have hlen : piece.length ≠ 0 := fun h => hne (length_eq_zero_iff.1 h)
      obtain ⟨start, hstart, hscan, hle'⟩ := scan_start reader.skipLf hne
      have hhead : (reader.inner.read buf).2.1.head? = piece.head? := by
        rw [hafter, head?_append_of_ne_nil _ hne]
      have hpending : reader.pending = (scan false (piece.drop start)).1 ++
          (scan (scan false (piece.drop start)).2 (reader.inner.read buf).1.bytes).1 := by
        rw [LogicalNewlineReader.pending, hbytes, scan_append, hscan]
      simp only [hread, if_neg hlen, hhead, ← hstart, htake]
      by_cases hall : start = piece.length
      · -- all that was read is the LF of a pair
        have hnil : piece.drop start = [] := drop_eq_nil_of_le (Nat.le_of_eq hall.symm)
        rw [hnil, scan, nil_append] at hpending
        have hbuf' : (reader.inner.read buf).2.1 ≠ [] := by
          rw [← length_pos_iff, hinside]
          exact length_pos_iff.2 hbuf
        have hfewer : (reader.inner.read buf).1.bytes.length < fuel := by
          rw [hbytes, length_append] at hfuel
          omega
        obtain ⟨reader', after, result, hrounds, hreads⟩ := ih ⟨(reader.inner.read buf).1, false⟩ _ hbuf' hfewer
        rw [if_pos hall]
        refine ⟨reader', after, result, hrounds, hreads.inside.trans hinside, hreads.failure.trans hfailure, ?_⟩
        rw [hpending, ← hinside, ← hfailure]
        exact hreads.answer
      · have hsome : 0 < piece.length - start := by omega
        rw [if_neg hall]
        by_cases hplain : cr ∉ piece.drop start
        · rw [scan_plain hplain] at hpending
          obtain ⟨hlength, hcopy⟩ := copyWithin_spec (reader.inner.read buf).2.1 hle' (by rw [hinside]; exact hle)
          rw [htake] at hcopy
          rw [if_pos hplain]
          refine ⟨_, _, _, rfl, ?_, hfailure, .inl ⟨_, rfl, hsome, by omega, ?_⟩⟩
          · by_cases hzero : start = 0
            · rw [if_neg (fun h => h hzero), hinside]
            · rw [if_pos hzero, hlength, hinside]
          · rw [hpending]
            by_cases hzero : start = 0
            · rw [if_neg (fun h => h hzero), hzero, Nat.sub_zero, htake]
              rfl
            · rw [if_pos hzero, hcopy]
              rfl
        · obtain ⟨after, n, skip, hcompact, hlength, hn, -, hgives, hskip⟩ := compact_spec (reader.inner.read buf).2.1
            piece.length start 0 (Nat.zero_le _) hle' (by rw [hinside]; exact hle)
          rw [htake, take_zero, nil_append] at hgives
          rw [htake] at hskip
          have hpos : 0 < n := by
            refine Nat.pos_of_ne_zero fun hzero => ?_
            rw [hzero, take_zero] at hgives
            obtain ⟨b, rest, hb⟩ := exists_cons_of_ne_nil (l := piece.drop start) (by
              intro hnil
              rw [← length_eq_zero_iff, length_drop] at hnil
              omega)
            rw [hb, scan_false_cons] at hgives
            exact absurd hgives (cons_ne_nil _ _).symm
          rw [if_neg hplain, hcompact]
          refine ⟨_, _, _, rfl, hlength.trans hinside, hfailure, .inl ⟨n, rfl, hpos, by omega, ?_⟩⟩
          rw [hgives, hpending, ← hskip]
          rfl

/-! ## Runs -/

theorem read_nil : reader.read [] = some (reader, [], .ok 0) := if_pos rfl

theorem read_spec {buf : List Byte} (hbuf : buf ≠ []) : ∃ reader' after result,
    reader.read buf = some (reader', after, result) ∧ Reads reader buf reader' after result := by
  rw [LogicalNewlineReader.read, if_neg hbuf]
  exact rounds_spec _ reader buf hbuf (Nat.lt_succ_self _)

variable {reader : LogicalNewlineReader E} {bufs : List (List Byte)}

theorem read_pending {reader' : LogicalNewlineReader E} {buf after : List Byte} {result : Except E Nat}
    (h : reader.read buf = some (reader', after, result)) :
    (Call.mk buf after result).given ++ reader'.pending = reader.pending ∧
      reader'.inner.failure = reader.inner.failure := by
  by_cases hbuf : buf = []
  · subst hbuf
    obtain ⟨rfl, rfl, rfl⟩ := h
    exact ⟨rfl, rfl⟩
  · obtain ⟨_, _, _, hread, hreads⟩ := read_spec reader hbuf
    rw [h, Option.some.injEq] at hread
    obtain ⟨rfl, rfl, rfl⟩ := hread
    refine ⟨?_, hreads.failure⟩
    rcases hreads.answer with ⟨n, rfl, -, -, hgives⟩ | ⟨⟨rfl, -⟩ | ⟨e, rfl, -⟩, hend, hend'⟩
    · exact hgives
    · rw [hend, hend']
      rfl
    · rw [hend, hend']
      rfl

theorem run_some (reader : LogicalNewlineReader E) (bufs : List (List Byte)) :
    ∃ calls, reader.run bufs = some calls ∧ calls.map Call.buf = bufs := by
  induction bufs generalizing reader with
  | nil => exact ⟨[], rfl, rfl⟩
  | cons buf bufs ih =>
    have hread : ∃ r, reader.read buf = some r := by
      by_cases hbuf : buf = []
      · exact ⟨_, hbuf ▸ read_nil reader⟩
      · obtain ⟨_, _, _, hread, -⟩ := read_spec reader hbuf
        exact ⟨_, hread⟩
    obtain ⟨r, hr⟩ := hread
    obtain ⟨calls, hcalls, hbufs⟩ := ih r.1
    refine ⟨⟨buf, r.2.1, r.2.2⟩ :: calls, ?_, ?_⟩
    · rw [LogicalNewlineReader.run, hr, bind_some, hcalls, map_some]
    · rw [map_cons, hbufs]

/-- **A call of a run** is one of a reader that has still to give what is not given yet. -/
theorem run_call {calls before later : List (Call E)}
    {call : Call E} (h : reader.run bufs = some calls) (hcalls : calls = before ++ call :: later) :
    ∃ reader₁ reader₂ : LogicalNewlineReader E, reader₁.read call.buf = some (reader₂, call.after, call.result) ∧
      delivered before ++ reader₁.pending = reader.pending ∧ reader₁.inner.failure = reader.inner.failure := by
  induction bufs generalizing reader calls before with
  | nil =>
    obtain rfl : [] = calls := Option.some.inj h
    exact absurd hcalls.symm (append_ne_nil_of_right_ne_nil _ (cons_ne_nil _ _))
  | cons buf bufs ih =>
    obtain ⟨⟨reader', after, result⟩, hread, h⟩ := bind_eq_some_iff.1 h
    obtain ⟨rest, hrest, rfl⟩ := map_eq_some_iff.1 h
    cases before with
    | nil =>
      cases hcalls
      exact ⟨reader, reader', hread, rfl, rfl⟩
    | cons first before =>
      obtain ⟨rfl, htail⟩ := List.cons.inj hcalls
      obtain ⟨hgiven, hfailure⟩ := read_pending hread
      obtain ⟨reader₁, reader₂, hcall, hpending, hsame⟩ := ih hrest htail
      refine ⟨reader₁, reader₂, hcall, ?_, hsame.trans hfailure⟩
      rw [delivered, flatMap_cons, append_assoc]
      exact (congrArg _ hpending).trans hgiven

theorem run_ends {calls : List (Call E)}
    (h : reader.run bufs = some calls) (hmany : reader.pending.length < (bufs.filter (· ≠ [])).length) :
    ∃ call ∈ calls, call.buf ≠ [] ∧ (call.result = .ok 0 ∨ ∃ e, call.result = .error e) := by
  induction bufs generalizing reader calls with
  | nil => exact absurd hmany (Nat.not_lt_zero _)
  | cons buf bufs ih =>
    obtain ⟨⟨reader', after, result⟩, hread, h⟩ := bind_eq_some_iff.1 h
    obtain ⟨rest, hrest, rfl⟩ := map_eq_some_iff.1 h
    have hlater : reader'.pending.length < (bufs.filter (· ≠ [])).length →
        ∃ call ∈ (⟨buf, after, result⟩ :: rest : List (Call E)),
          call.buf ≠ [] ∧ (call.result = .ok 0 ∨ ∃ e, call.result = .error e) := by
      intro hfewer
      obtain ⟨call, hcall, hends⟩ := ih hrest hfewer
      exact ⟨call, mem_cons_of_mem _ hcall, hends⟩
    by_cases hbuf : buf = []
    · subst hbuf
      obtain ⟨rfl, -, -⟩ := hread
      exact hlater hmany
    · obtain ⟨_, _, _, hread', hreads⟩ := read_spec reader hbuf
      rw [hread, Option.some.injEq] at hread'
      obtain ⟨rfl, rfl, rfl⟩ := hread'
      rw [filter_cons_of_pos (by simpa using hbuf), length_cons] at hmany
      rcases hreads.answer with ⟨n, -, hpos, hn, hgives⟩ | ⟨hanswer, -, -⟩
      · refine hlater ?_
        have hlength := congrArg List.length hgives
        rw [length_append, length_take, hreads.inside] at hlength
        omega
      · refine ⟨_, mem_cons_self, hbuf, ?_⟩
        rcases hanswer with ⟨hzero, -⟩ | ⟨e, he, -⟩
        · exact .inl hzero
        · exact .inr ⟨e, he⟩

/-- What a call of a run comes to: what it may write and give, and when it tells of the end or of an error. -/
structure Faithful (input : List Byte) (failure : Option E) (before : List (Call E)) (call : Call E) : Prop where
  inside : call.after.length = call.buf.length
  empty : call.buf = [] → call.result = .ok 0
  gives : ∀ n, call.result = .ok n → n ≤ call.buf.length ∧ delivered (before ++ [call]) <+: normalize input
  ends : call.buf ≠ [] → call.result = .ok 0 → delivered before = normalize input ∧ failure = none
  fails : ∀ e, call.result = .error e → delivered before = normalize input ∧ failure = some e

/-- **The reader gives the text with one line feed for each line end**, however the inner reader splits it and whatever
buffers it is called with. -/
theorem newlines_delivered (input : List Byte) (sizes : Nat → Nat) (failure : Option E) (bufs : List (List Byte)) :
    ∃ calls, LogicalNewlineReader.run ⟨⟨input, sizes, failure, 0⟩, false⟩ bufs = some calls ∧
      calls.map Call.buf = bufs ∧
      (∀ before call later, calls = before ++ call :: later → Faithful input failure before call) ∧
      ((normalize input).length < (bufs.filter (· ≠ [])).length →
        ∃ call ∈ calls, call.buf ≠ [] ∧ (call.result = .ok 0 ∨ ∃ e, call.result = .error e)) := by
  have hstart : LogicalNewlineReader.pending (⟨⟨input, sizes, failure, 0⟩, false⟩ : LogicalNewlineReader E) =
      normalize input := scan_eq_normalize input
  obtain ⟨calls, hrun, hbufs⟩ := run_some (⟨⟨input, sizes, failure, 0⟩, false⟩ : LogicalNewlineReader E) bufs
  refine ⟨calls, hrun, hbufs, ?_, fun hmany => run_ends hrun (by rw [hstart]; exact hmany)⟩
  intro before call later hcalls
  obtain ⟨reader, reader', hread, hpending, hfailure⟩ := run_call hrun hcalls
  rw [hstart] at hpending
  obtain ⟨hgiven, -⟩ := read_pending hread
  have hpart : delivered (before ++ [call]) <+: normalize input := by
    refine ⟨reader'.pending, ?_⟩
    rw [delivered, flatMap_append, flatMap_cons, flatMap_nil, append_nil, append_assoc,
      ← hpending]
    exact congrArg _ hgiven
  by_cases hbuf : call.buf = []
  · rw [hbuf, read_nil, Option.some.injEq] at hread
    obtain ⟨hafter, hresult⟩ := Prod.mk.inj (Prod.mk.inj hread).2
    refine ⟨by rw [hbuf, ← hafter], fun _ => hresult.symm, ?_, fun h => absurd hbuf h, ?_⟩
    · intro n hn
      rw [← hresult] at hn
      cases hn
      exact ⟨Nat.zero_le _, hpart⟩
    · intro e he
      rw [← hresult] at he
      cases he
  · obtain ⟨_, _, _, hread', hreads⟩ := read_spec reader hbuf
    rw [hread, Option.some.injEq] at hread'
    obtain ⟨rfl, rfl, rfl⟩ := hread'
    refine ⟨hreads.inside, fun h => absurd h hbuf, ?_, ?_, ?_⟩
    · intro n hn
      refine ⟨?_, hpart⟩
      rcases hreads.answer with ⟨m, hm, -, hle, -⟩ | ⟨⟨hm, -⟩ | ⟨e, he, -⟩, -⟩
      · rw [hm] at hn
        cases hn
        exact hle
      · rw [hm] at hn
        cases hn
        exact Nat.zero_le _
      · rw [he] at hn
        cases hn
    · intro _ hzero
      rcases hreads.answer with ⟨m, hm, hpos, -⟩ | ⟨⟨-, hnone⟩ | ⟨e, he, -⟩, hend, -⟩
      · rw [hm] at hzero
        cases hzero
        exact absurd hpos (Nat.lt_irrefl 0)
      · rw [hend, append_nil] at hpending
        exact ⟨hpending, hfailure.symm.trans hnone⟩
      · rw [he] at hzero
        cases hzero
    · intro e' he'
      rcases hreads.answer with ⟨m, hm, -⟩ | ⟨⟨hm, -⟩ | ⟨e, he, hsome⟩, hend, -⟩
      · rw [hm] at he'
        cases he'
      · rw [hm] at he'
        cases he'
      · rw [he] at he'
        cases he'
        rw [hend, append_nil] at hpending
        exact ⟨hpending, hfailure.symm.trans hsome⟩

end Search
end Yuzora
