import Yuzora.SqlRescan
/-!
# SqlTarget — what a run executes

A run takes the selection, the statement at the cursor or the whole buffer.  A selection is split alone: its text is all
that counts (`resolveDatabaseSqlTarget_same`).
-/
namespace Yuzora
namespace Sql

structure Selection where
  «from» : Nat
  «to» : Nat

inductive TargetRequest
  | primary (selection : Selection) (cursor : Nat)
  | all

inductive TargetErrorCode
  | parse (code : ParseErrorCode)
  | noExecutableStatement
  | noCurrentStatement
  deriving DecidableEq

structure TargetError where
  code : TargetErrorCode
  position : Nat
  «from» : Nat
  «to» : Nat
  deriving DecidableEq

structure Target where
  units : List SqlUnit
  nonempty : units ≠ []
  highlight : Selection

variable (source : Text)

def codePointLength (i : Nat) : Nat :=
  if source[i]?.any (fun c => 0xD800 ≤ c && c ≤ 0xDBFF) &&
      source[i + 1]?.any (fun c => 0xDC00 ≤ c && c ≤ 0xDFFF) then 2
  else if source[i]?.isSome then 1
  else 0

def targetError (code : TargetErrorCode) (position : Nat) (source : Text) : Except TargetError Target :=
  let «from» := min position source.length
  .error ⟨code, «from», «from», «from» + codePointLength source «from»⟩

def targetOf (position : Nat) : List SqlUnit → Except TargetError Target
  | [] => targetError .noExecutableStatement position source
  | u :: rest =>
    .ok ⟨u :: rest, List.cons_ne_nil u rest, u.start, ((u :: rest).getLast (List.cons_ne_nil u rest)).stop⟩

def SqlUnit.movedBy (start : Nat) (u : SqlUnit) : SqlUnit := { u with start := start + u.start, stop := start + u.stop }

def unitAtCursor (units : List SqlUnit) (cursor : Nat) : Option SqlUnit :=
  (units.find? fun u => u.start ≤ cursor && cursor < u.stop).or (units.reverse.find? fun u => u.stop = cursor)

def resolveDatabaseSqlTarget (dialect : Dialect) : TargetRequest → Except TargetError Target
  | .primary selection cursor =>
    if selection.from ≠ selection.to then
      let selectionStart := min selection.from selection.to
      let selected := slice source selectionStart (max selection.from selection.to)
      match splitDatabaseSql selected dialect with
      | .error e => targetError (.parse e.code) (selectionStart + e.position) source
      | .ok units => targetOf source selectionStart (units.map (SqlUnit.movedBy selectionStart))
    else
      match splitDatabaseSql source dialect with
      | .error e => targetError (.parse e.code) e.position source
      | .ok [] => targetError .noExecutableStatement 0 source
      | .ok units =>
        let cursor := min cursor source.length
        match unitAtCursor units cursor with
        | none => targetError .noCurrentStatement cursor source
        | some unit => targetOf source 0 [unit]
  | .all =>
    match splitDatabaseSql source dialect with
    | .error e => targetError (.parse e.code) e.position source
    | .ok units => targetOf source 0 units

def Executes (dialect : Dialect) (request : TargetRequest) (units : List SqlUnit) : Prop :=
  ∃ target, resolveDatabaseSqlTarget source dialect request = .ok target ∧ target.units = units

section Targets

variable {source : Text} {dialect : Dialect} {units : List SqlUnit} {u : SqlUnit} {cursor : Nat}

theorem targetOf_units {position : Nat} (h : units ≠ []) :
    ∃ target, targetOf source position units = .ok target ∧ target.units = units := by
  cases units with
  | nil => exact absurd rfl h
  | cons u rest => exact ⟨_, rfl, rfl⟩

theorem find_around (ho : units.Pairwise fun u v => u.stop ≤ v.start) (hu : u ∈ units) (h1 : u.start ≤ cursor)
    (h2 : cursor < u.stop) : units.find? (fun u => u.start ≤ cursor && cursor < u.stop) = some u := by
  induction units with
  | nil => cases hu
  | cons v rest ih =>
    obtain ⟨hv, ho⟩ := List.pairwise_cons.1 ho
    rcases List.mem_cons.1 hu with rfl | hu
    · exact List.find?_cons_of_pos (by simp [h1, h2])
    · have := hv u hu
      rw [List.find?_cons_of_neg (by simp; omega)]
      exact ih ho hu

section
variable (h : splitDatabaseSql source dialect = .ok units)
include h

theorem executes_cursor (hu : u ∈ units) (h1 : u.start ≤ cursor)
    (h2 : cursor < u.stop) (p : Nat) : Executes source dialect (.primary ⟨p, p⟩ cursor) [u] := by
  have hsplits := splitDatabaseSql_splits source dialect units h
  have hmin : min cursor source.length = cursor := by
    have := (hsplits.sound u hu).le
    omega
  have hfind : unitAtCursor units cursor = some u := by
    rw [unitAtCursor, find_around hsplits.ordered hu h1 h2]
    rfl
  unfold Executes resolveDatabaseSqlTarget
  dsimp only
  rw [if_neg (fun h => h rfl), h]
  cases units with
  | nil => cases hu
  | cons v rest =>
    dsimp only
    rw [hmin, hfind]
    exact targetOf_units (List.cons_ne_nil u [])

theorem executes_selection (hu : u ∈ units) (hs : Standalone source dialect u.start u.stop) {selection : Selection}
    (h1 : min selection.from selection.to = u.start) (h2 : max selection.from selection.to = u.stop) (cursor : Nat) :
    Executes source dialect (.primary selection cursor) [u] := by
  have hok := (splitDatabaseSql_splits source dialect units h).sound u hu
  have hlt := hok.lt
  have hre : splitDatabaseSql u.sql dialect = .ok [⟨u.sql, 0, u.stop - u.start, u.transactionBoundary⟩] :=
    splitDatabaseSql_rescans h u hu hs
  have hmoved : SqlUnit.movedBy u.start ⟨u.sql, 0, u.stop - u.start, u.transactionBoundary⟩ = u := by
    obtain ⟨sql, start, stop, boundary⟩ := u
    simp only [SqlUnit.movedBy, SqlUnit.mk.injEq, Nat.add_zero, true_and, and_true]
    exact Nat.add_sub_cancel' (Nat.le_of_lt hlt)
  unfold Executes resolveDatabaseSqlTarget
  dsimp only
  rw [if_pos (by omega)]
  rw [h1, h2, ← hok.sql, hre]
  have hunits : [⟨u.sql, 0, u.stop - u.start, u.transactionBoundary⟩].map (SqlUnit.movedBy u.start) = [u] :=
    congrArg (· :: []) hmoved
  dsimp only
  rw [hunits]
  exact targetOf_units (List.cons_ne_nil u [])

theorem executes_all (hne : units ≠ []) : Executes source dialect .all units := by
  unfold Executes resolveDatabaseSqlTarget
  rw [h]
  exact targetOf_units hne

end

end Targets

/-- **A statement is executed the same way** whether it is run by cursor, with the whole buffer or by selection, the last
where its text means alone what it means in the source. -/
theorem resolveDatabaseSqlTarget_same (source : Text) (dialect : Dialect) (units : List SqlUnit)
    (h : splitDatabaseSql source dialect = .ok units) (u : SqlUnit) (hu : u ∈ units) :
    (∀ p cursor, u.start ≤ cursor → cursor < u.stop → Executes source dialect (.primary ⟨p, p⟩ cursor) [u]) ∧
      Executes source dialect .all units ∧
      (Standalone source dialect u.start u.stop → Rescans dialect u ∧ ∀ selection cursor,
        min selection.from selection.to = u.start → max selection.from selection.to = u.stop →
          Executes source dialect (.primary selection cursor) [u]) :=
  ⟨fun p _ h1 h2 => executes_cursor h hu h1 h2 p, executes_all h (List.ne_nil_of_mem hu), fun hs =>
    ⟨splitDatabaseSql_rescans h u hu hs, fun _ cursor h1 h2 => executes_selection h hu hs h1 h2 cursor⟩⟩

theorem TokenAt.le {source : Text} {dialect : Dialect} {p : Nat} {t : Lexed} (h : TokenAt source dialect p t) :
    t.next ≤ source.length := by
  obtain ⟨s, c, hr, rfl, hc, hl⟩ := h
  have hline := hr.scanned.line
  have hlt := (List.getElem?_eq_some_iff.1 hc).1
  exact (lexAt_fits hc ⟨hline.1, hline.2.resolve_right (Nat.ne_of_lt hlt)⟩ hl).le

/-- The second of two statements, a dollar quote up to the end of the source. -/
theorem resolveDatabaseSqlTarget_same_second : (∀ p cursor, 8 ≤ cursor → cursor < 15 →
      Executes (codes "E'\\';'; $a$;$a$") .postgres (.primary ⟨p, p⟩ cursor) [⟨codes "$a$;$a$", 8, 15, .none⟩]) ∧
    Executes (codes "E'\\';'; $a$;$a$") .postgres .all
      [⟨codes "E'\\';';", 0, 7, .none⟩, ⟨codes "$a$;$a$", 8, 15, .none⟩] ∧
    Rescans .postgres ⟨codes "$a$;$a$", 8, 15, .none⟩ ∧
    ∀ selection cursor, min selection.from selection.to = 8 → max selection.from selection.to = 15 →
      Executes (codes "E'\\';'; $a$;$a$") .postgres (.primary selection cursor) [⟨codes "$a$;$a$", 8, 15, .none⟩] := by
  have hs : Standalone (codes "E'\\';'; $a$;$a$") .postgres 8 15 := by
    refine ⟨nofun, fun _ h => absurd h (by decide +kernel), fun _ p t w ht _ _ _ => ht.le, ?_⟩
    exact nofun
  obtain ⟨h1, h2, h3⟩ := resolveDatabaseSqlTarget_same (codes "E'\\';'; $a$;$a$") .postgres
    [⟨codes "E'\\';';", 0, 7, .none⟩, ⟨codes "$a$;$a$", 8, 15, .none⟩] (by rfl) ⟨codes "$a$;$a$", 8, 15, .none⟩ (by simp)
  exact ⟨h1, h2, h3 hs⟩

/-- A `GO` after a statement is one of its own in the source, and no statement when it is selected; an identifier with a
blank at its end is cut to a keyword. -/
theorem resolveDatabaseSqlTarget_differs : (splitDatabaseSql (codes "SELECT 1; GO") .mssql =
        .ok [⟨codes "SELECT 1;", 0, 9, .none⟩, ⟨codes "GO", 10, 12, .none⟩] ∧
      resolveDatabaseSqlTarget (codes "SELECT 1; GO") .mssql (.primary ⟨10, 10⟩ 10) =
        .ok ⟨[⟨codes "GO", 10, 12, .none⟩], List.cons_ne_nil _ _, ⟨10, 12⟩⟩ ∧
      resolveDatabaseSqlTarget (codes "SELECT 1; GO") .mssql (.primary ⟨10, 12⟩ 12) =
        .error ⟨.noExecutableStatement, 10, 10, 11⟩) ∧
    (splitDatabaseSql (codes "COMMIT" ++ [0xA0]) .postgres = .ok [⟨codes "COMMIT", 0, 6, .none⟩] ∧
      resolveDatabaseSqlTarget (codes "COMMIT" ++ [0xA0]) .postgres (.primary ⟨0, 6⟩ 6) =
        .ok ⟨[⟨codes "COMMIT", 0, 6, .commit⟩], List.cons_ne_nil _ _, ⟨0, 6⟩⟩) := by
  refine ⟨⟨by rfl, by rfl, by rfl⟩, by rfl, by rfl⟩

end Sql
end Yuzora
