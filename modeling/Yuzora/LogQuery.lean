import Mathlib.Data.List.Infix
import Yuzora.NdjsonLines
/-!
# LogQuery — the newest log records

The retained files are read from the newest on, each from its first line to its last, with as many of its last records
kept as the answer still has room for.  A line that is no record is passed over; a line that is no text ends its file.
-/
namespace Yuzora
namespace Logging

open List Option
open Ndjson (cutLines)

/-! ## The code -/

structure LogRecord (Value : Type) where
  timestamp : String
  runId : Option String
  level : String
  kind : String
  source : String
  workspacePath : Option String
  event : String
  message : String
  metadata : Value

structure LogQueryFilters where
  since : Option String := none
  «until» : Option String := none
  levels : Option (List String) := none
  kinds : Option (List String) := none
  sources : Option (List String) := none
  text : Option String := none
  limit : Option Nat := none

/-- What `serde_json` and `chrono` do; times are instants, and a naive time has no zone. -/
structure Library (Value Naive : Type) where
  fromStr : List Char → Option (LogRecord Value)
  toString : Value → Option String
  parseFromRfc3339 : String → Option Int
  parseFromStr : String → String → Option Naive
  parseDate : String → Option Naive
  localToUtc : Naive → Option Int

variable {Value Naive : Type} (lib : Library Value Naive)

def matchesFilter (value : String) (filters : Option (List String)) : Bool :=
  filters.elim true fun items => decide (value ∈ items)

def parseQueryTime (s : String) : Option Int :=
  (lib.parseFromRfc3339 s).orElse fun _ =>
    match ["%Y-%m-%dT%H:%M:%S%.f", "%Y-%m-%dT%H:%M:%S", "%Y-%m-%dT%H:%M"].findSome? (lib.parseFromStr s) with
    | some naive => lib.localToUtc naive
    | none => (lib.parseDate s).bind lib.localToUtc

structure TimeBounds where
  since : Option Int
  «until» : Option Int

def TimeBounds.from (filters : LogQueryFilters) : TimeBounds :=
  ⟨filters.since.bind (parseQueryTime lib), filters.«until».bind (parseQueryTime lib)⟩

def TimeBounds.contains (bounds : TimeBounds) (timestamp : String) : Bool :=
  if bounds.since.isNone ∧ bounds.«until».isNone then true
  else (lib.parseFromRfc3339 timestamp).elim false fun ts =>
    bounds.since.elim true (· ≤ ts) && bounds.«until».elim true (ts ≤ ·)

def contains (s text : String) : Bool := decide (text.toList <:+: s.toList)

def recordMatches (record : LogRecord Value) (filters : LogQueryFilters) (bounds : TimeBounds) : Bool :=
  matchesFilter record.level filters.levels && matchesFilter record.kind filters.kinds &&
    matchesFilter record.source filters.sources && bounds.contains lib record.timestamp &&
    filters.text.elim true fun text => contains record.event text || contains record.message text ||
      (lib.toString record.metadata).elim false (contains · text)

/-- The answer so far, and the records kept of the file that is being read. -/
structure State (Value : Type) where
  records : List (LogRecord Value)
  newest : List (LogRecord Value)

def State.held (s : State Value) : Nat := s.records.length + s.newest.length

def push (remaining : Nat) (newest : List (LogRecord Value)) (record : LogRecord Value) : List (LogRecord Value) :=
  (if newest.length = remaining then newest.tail else newest) ++ [record]

variable (filters : LogQueryFilters) (limit : Nat)

/-- One line of a file; `none` where the reader's error ends the loop. -/
def readLine (s : State Value) (line : List UInt8) : Option (State Value) :=
  (Utf8.decode? line).map fun line =>
    (lib.fromStr line).elim s fun record =>
      if recordMatches lib record filters (.from lib filters) then
        { s with newest := push (limit - s.records.length) s.newest record }
      else s

/-- The states while a file is read. -/
def readFile (s : State Value) : List (List UInt8) → List (State Value)
  | [] => [s]
  | line :: lines => s :: (readLine lib filters limit s line).elim [] (readFile · lines)

/-- The states while the files are read; a file that is `none` cannot be opened. -/
def readFiles (s : State Value) : List (Option (List UInt8)) → List (State Value)
  | [] => [s]
  | none :: files => readFiles s files
  | some bytes :: files =>
    let visited := readFile lib filters limit s (cutLines bytes)
    let last := visited.getLastD s
    let next : State Value := ⟨last.records ++ last.newest.reverse, []⟩
    visited ++ if limit ≤ next.records.length then [next] else readFiles next files

/-- `query_dir`, with all its states; the answer is what the last one has. -/
def queryDir (files : List (Option (List UInt8))) : List (State Value) :=
  let limit := filters.limit.getD 500
  if limit = 0 then [⟨[], []⟩] else readFiles lib filters limit ⟨[], []⟩ files

/-! ## The records of a file -/

/-- The matching record of a line. -/
def recordOf (line : List UInt8) : Option (LogRecord Value) :=
  ((Utf8.decode? line).bind lib.fromStr).filter (recordMatches lib · filters (.from lib filters))

/-- The matching records of all lines of a file, the last line's first. -/
def fileRecords (bytes : List UInt8) : List (LogRecord Value) := ((cutLines bytes).filterMap (recordOf lib filters)).reverse

/-- Those of the lines that come before the first one that is no text. -/
def readableRecords (bytes : List UInt8) : List (LogRecord Value) :=
  (((cutLines bytes).takeWhile fun line => (Utf8.decode? line).isSome).filterMap (recordOf lib filters)).reverse

variable {lib filters limit}

theorem take_append_take {α : Type} (n : Nat) (a b : List α) : (a ++ b.take n).take n = (a ++ b).take n := by
  rw [take_append, take_append, take_take, Nat.min_eq_left (Nat.sub_le _ _)]

/-- **The ring**, read backwards, has the new record and what there is room for. -/
theorem push_spec {remaining : Nat} (hr : 0 < remaining) {newest : List (LogRecord Value)}
    (h : newest.length ≤ remaining) (record : LogRecord Value) : (push remaining newest record).length ≤ remaining ∧
      (push remaining newest record).reverse = (record :: newest.reverse).take remaining := by
  obtain ⟨n, rfl⟩ := Nat.exists_eq_add_of_lt hr
  rw [push]
  by_cases hfull : newest.length = 0 + n + 1
  · rw [if_pos hfull, length_append, length_tail, reverse_append, take_succ_cons]
    refine ⟨by rw [length_singleton]; omega, congrArg (record :: ·) ?_⟩
    rw [← dropLast_reverse, dropLast_eq_take, length_reverse, hfull]
    rfl
  · rw [if_neg hfull, length_append, reverse_append, length_singleton]
    refine ⟨by omega, (take_of_length_le ?_).symm⟩
    rw [length_append, length_reverse, length_reverse, length_singleton]
    omega

/-- **One line**: its matching record comes first. -/
theorem readLine_spec {s : State Value} (hroom : s.records.length < limit) (hheld : s.held ≤ limit)
    {line : List UInt8} {text : List Char} (h : Utf8.decode? line = some text) :
    ∃ s', readLine lib filters limit s line = some s' ∧ s'.records = s.records ∧ s'.held ≤ limit ∧
      s'.newest.reverse = ((recordOf lib filters line).toList ++ s.newest.reverse).take (limit - s.records.length) := by
  rw [readLine, recordOf, h, map_some, bind_some]
  have hlen : s.newest.length ≤ limit - s.records.length := by
    unfold State.held at hheld
    omega
  have hsame : s.newest.reverse = s.newest.reverse.take (limit - s.records.length) :=
    (take_of_length_le (by rwa [length_reverse])).symm
  refine ⟨_, rfl, ?_⟩
  cases lib.fromStr text with
  | none => exact ⟨rfl, hheld, hsame⟩
  | some record =>
    rw [elim_some]
    by_cases hmatch : recordMatches lib record filters (.from lib filters) = true
    · rw [if_pos hmatch, filter_some, if_pos hmatch]
      have hpush := push_spec (Nat.sub_pos_of_lt hroom) hlen record
      refine ⟨rfl, ?_, hpush.2⟩
      have := hpush.1
      unfold State.held
      dsimp only
      omega
    · rw [if_neg hmatch, filter_some, if_neg hmatch]
      exact ⟨rfl, hheld, hsame⟩

/-- **The lines of a file**: the last records of the readable ones are kept, and never more than there is room for. -/
theorem readFile_spec (lines : List (List UInt8)) {s : State Value} (hroom : s.records.length < limit)
    (hheld : s.held ≤ limit) :
    (∀ t ∈ readFile lib filters limit s lines, t.records = s.records ∧ t.held ≤ limit) ∧
    (∀ d, ((readFile lib filters limit s lines).getLastD d).newest.reverse =
      (((lines.takeWhile fun line => (Utf8.decode? line).isSome).filterMap (recordOf lib filters)).reverse ++
        s.newest.reverse).take (limit - s.records.length)) := by
  induction lines generalizing s with
  | nil =>
    have hlen : s.newest.reverse.length ≤ limit - s.records.length := by
      rw [length_reverse]
      unfold State.held at hheld
      omega
    refine ⟨fun t ht => ?_, fun _ => (take_of_length_le hlen).symm⟩
    rw [mem_singleton.1 ht]
    exact ⟨rfl, hheld⟩
  | cons line lines ih =>
    rw [readFile, takeWhile_cons]
    cases hline : Utf8.decode? line with
    | none =>
      have hend : readLine lib filters limit s line = none := by rw [readLine, hline, map_none]
      rw [hend]
      have hlen : s.newest.reverse.length ≤ limit - s.records.length := by
        rw [length_reverse]
        unfold State.held at hheld
        omega
      refine ⟨fun t ht => ?_, fun _ => (take_of_length_le hlen).symm⟩
      rw [mem_singleton.1 ht]
      exact ⟨rfl, hheld⟩
    | some text =>
      obtain ⟨s', hs', hrecords, hheld', hnewest⟩ := readLine_spec hroom hheld hline
      obtain ⟨hall, hlast⟩ := ih (hrecords ▸ hroom) hheld'
      rw [hs', elim_some]
      refine ⟨fun t ht => ?_, fun d => ?_⟩
      · rcases mem_cons.1 ht with rfl | ht
        · exact ⟨rfl, hheld⟩
        · exact ⟨(hall t ht).1.trans hrecords, (hall t ht).2⟩
      · rw [getLastD_cons, hlast, hrecords, hnewest, take_append_take, isSome_some, if_pos rfl,
          filterMap_cons, ← append_assoc]
        congr 2
        cases recordOf lib filters line <;> simp

theorem getLastD_append {α : Type} (d : α) (a b : List α) : (a ++ b).getLastD d = b.getLastD (a.getLastD d) := by
  induction a generalizing d with
  | nil => rfl
  | cons x a ih => rw [cons_append, getLastD_cons, getLastD_cons, ih]

/-- **The files**, from the newest on. -/
theorem readFiles_spec (files : List (Option (List UInt8))) {s : State Value} (hroom : s.records.length < limit)
    (hnone : s.newest = []) :
    (∀ t ∈ readFiles lib filters limit s files, t.held ≤ limit) ∧
    ∀ d, ((readFiles lib filters limit s files).getLastD d).records =
      (s.records ++ files.flatMap fun file => file.elim [] (readableRecords lib filters)).take limit := by
  induction files generalizing s with
  | nil =>
    refine ⟨fun t ht => ?_, fun _ => ?_⟩
    · rw [mem_singleton.1 ht, State.held, hnone]
      exact hroom.le
    · rw [flatMap_nil, append_nil]
      exact (take_of_length_le hroom.le).symm
  | cons file files ih =>
    cases file with
    | none => exact ih hroom hnone
    | some bytes =>
      have hheld : s.held ≤ limit := by
        rw [State.held, hnone]
        exact hroom.le
      obtain ⟨hall, hlast⟩ := @readFile_spec _ _ lib filters limit (cutLines bytes) s hroom hheld
      have hlast := hlast s
      have hrecords := (mem_cons.1 getLastD_mem_cons).elim (congrArg State.records) fun ht =>
        (hall ((readFile lib filters limit s (cutLines bytes)).getLastD s) ht).1
      rw [hnone, reverse_nil, append_nil] at hlast
      rw [readFiles, flatMap_cons, elim_some, ← append_assoc]
      generalize (readFile lib filters limit s (cutLines bytes)).getLastD s = last at hlast hrecords ⊢
      have hnext : last.records ++ last.newest.reverse = (s.records ++ readableRecords lib filters bytes).take limit := by
        rw [hlast, hrecords, take_append, take_of_length_le hroom.le]
        rfl
      dsimp only
      rw [hnext]
      by_cases hfull : limit ≤ ((s.records ++ readableRecords lib filters bytes).take limit).length
      · rw [if_pos hfull]
        refine ⟨fun t ht => ?_, fun d => ?_⟩
        · rcases mem_append.1 ht with ht | ht
          · exact (hall t ht).2
          · rw [mem_singleton.1 ht]
            exact length_take_le _ _
        · rw [getLastD_append]
          exact (take_append_of_le_length (hfull.trans (length_take_le' _ _))).symm
      · rw [if_neg hfull]
        have hroom' := Nat.lt_of_not_le hfull
        obtain ⟨hlater, hend⟩ := @ih ⟨_, []⟩ hroom' rfl
        refine ⟨fun t ht => (mem_append.1 ht).elim (fun ht => (hall t ht).2) (hlater t), fun d => ?_⟩
        rw [getLastD_append, hend]
        rw [length_take] at hroom'
        dsimp only
        rw [take_of_length_le (show (s.records ++ readableRecords lib filters bytes).length ≤ limit by omega)]

variable (lib filters)

/-- **The answer of a query** is the first `limit` of the files' readable records, the newest first, and no more than
`limit` records are ever held. -/
theorem query_newest_first (files : List (Option (List UInt8))) :
    (∀ d, ((queryDir lib filters files).getLastD d).records =
      (files.flatMap fun file => file.elim [] (readableRecords lib filters)).take (filters.limit.getD 500)) ∧
    ∀ s ∈ queryDir lib filters files, s.held ≤ filters.limit.getD 500 := by
  unfold queryDir
  dsimp only
  by_cases hzero : filters.limit.getD 500 = 0
  · rw [if_pos hzero, hzero]
    exact ⟨fun _ => take_zero.symm, fun s hs => mem_singleton.1 hs ▸ Nat.le_refl 0⟩
  · rw [if_neg hzero]
    obtain ⟨hheld, hlast⟩ := @readFiles_spec _ _ lib filters _ files ⟨[], []⟩ (Nat.pos_of_ne_zero hzero) rfl
    exact ⟨hlast, hheld⟩

/-- **A line that is no text** hides the record of the line after it. -/
theorem record_after_no_text :
    let text := ("\x7b\"timestamp\":\"\",\"level\":\"\",\"kind\":\"\",\"source\":\"\"," ++
      "\"event\":\"\",\"message\":\"\",\"metadata\":null\x7d").toList
    let record : LogRecord Unit := ⟨"", none, "", "", "", none, "", "", ()⟩
    let lib : Library Unit Unit := ⟨fun line => if line = text then some record else none, fun _ => some "null",
      fun _ => none, fun _ _ => none, fun _ => none, fun _ => none⟩
    let file := [255, 10] ++ Utf8.toUtf8 text
    fileRecords lib {} file = [record] ∧ ((queryDir lib {} [some file]).getLastD ⟨[], []⟩).records = [] := by
  intro text record lib file
  have hcut : cutLines file = [[255, 10], Utf8.toUtf8 text] := by decide
  have hno : Utf8.decode? [255, 10] = none := by decide
  have hline : Utf8.decode? (Utf8.toUtf8 text) = some text := Utf8.decode_toUtf8 text
  have hskip : recordOf lib {} [255, 10] = none := by
    rw [recordOf, hno]
    rfl
  have hrecord : recordOf lib {} (Utf8.toUtf8 text) = some record := by
    rw [recordOf, hline]
    rfl
  constructor
  · rw [fileRecords, hcut, filterMap_cons_none hskip, filterMap_cons_some hrecord]
    rfl
  · simp [queryDir, readFiles, hcut, readFile, readLine, hno]

end Logging
end Yuzora
