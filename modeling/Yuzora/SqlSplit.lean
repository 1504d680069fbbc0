import Mathlib.Data.List.Basic
/-!
# SqlSplit — one editor buffer as statements

The buffer is scanned once, token by token.  A unit begins at the first token or comment after the last one and ends at a
terminator, a `GO` line or the end; a parse that fails gives no unit at all.  Texts are sequences of UTF-16 units, and
offsets count these.
-/
namespace Yuzora
namespace Sql

abbrev Code : Type := Nat
abbrev Text : Type := List Code

def codes (s : String) : Text := s.toList.map Char.toNat

inductive Dialect
  | sqlite
  | postgres
  | mssql
  deriving DecidableEq

inductive TransactionBoundary
  | none
  | begin
  | commit
  | rollback
  deriving DecidableEq

structure SqlUnit where
  sql : Text
  start : Nat
  stop : Nat
  transactionBoundary : TransactionBoundary

inductive ParseErrorCode
  | unterminatedString
  | unterminatedIdentifier
  | unterminatedComment
  | unterminatedDollarQuote
  | ambiguousStringEscape
  | ambiguousBatchSeparator
  | unbalancedBlock
  | unexpectedEnd
  | unbalancedParenthesis
  | unexpectedClosingParenthesis
  deriving DecidableEq

structure ParseError where
  code : ParseErrorCode
  message : Text
  position : Nat

def fail {α : Type} (code : ParseErrorCode) (message : Text) (position : Nat) : Except ParseError α :=
  .error ⟨code, message, position⟩

inductive BlockKind
  | begin
  | case
  deriving DecidableEq

def BlockKind.name : BlockKind → Text
  | begin => codes "BEGIN"
  | case => codes "CASE"

structure BlockFrame where
  kind : BlockKind
  position : Nat

/-! ## Characters -/

def newline : Code := 10
def carriageReturn : Code := 13
def backslash : Code := 92

variable (c : Code)

/-- `\s`. -/
def isWhitespace : Bool :=
  (9 ≤ c && c ≤ 13) || c = 32 || c = 0xA0 || c = 0x1680 || (0x2000 ≤ c && c ≤ 0x200A) || c = 0x2028 || c = 0x2029 ||
    c = 0x202F || c = 0x205F || c = 0x3000 || c = 0xFEFF

def isLetter : Bool := (65 ≤ c && c ≤ 90) || (97 ≤ c && c ≤ 122)
def isDigit : Bool := 48 ≤ c && c ≤ 57

/-- `[A-Za-z_#@]`. -/
def isWordStart : Bool := isLetter c || c = 95 || c = 35 || c = 64

/-- `[A-Za-z0-9_@$#]`. -/
def isWordPart : Bool := isWordStart c || isDigit c || c = 36

/-- `[A-Za-z_\u0080-\uFFFF]`. -/
def isPostgresIdentifierStart : Bool := isLetter c || c = 95 || (0x80 ≤ c && c ≤ 0xFFFF)

/-- `[A-Za-z0-9_$\u0080-\uFFFF]`. -/
def isPostgresIdentifierPart : Bool := isPostgresIdentifierStart c || isDigit c || c = 36

/-- `toUpperCase`, on ASCII. -/
def upper : Code := if 97 ≤ c && c ≤ 122 then c - 32 else c
def toUpperCase (w : Text) : Text := w.map upper

/-! ## Looking at the text -/

variable (source : Text)

/-- `source[index - back]`. -/
def behind (index back : Nat) : Option Code := if back ≤ index then source[index - back]? else none

def slice (start stop : Nat) : Text := (source.take stop).drop start

def startsWith (needle source : Text) (index : Nat) : Bool := needle.isPrefixOf (source.drop index)

/-- Where the text occurs first in the rest, which begins at this index. -/
def findFrom (needle : Text) : Text → Nat → Option Nat
  | [], _ => none
  | c :: rest, index => if needle.isPrefixOf (c :: rest) then some index else findFrom needle rest (index + 1)

def indexOf (needle source : Text) («from» : Nat) : Option Nat := findFrom needle (source.drop «from») «from»

def runEnd (part : Code → Bool) : Text → Nat → Nat
  | [], index => index
  | c :: rest, index => if part c then runEnd part rest (index + 1) else index

/-- Where a `--` comment ends. -/
def lineEnd (index : Nat) : Nat := (indexOf [newline] source (index + 2)).getD source.length

def dollarDelimiterAt (index : Nat) : Option Text :=
  if source[index]? ≠ some 36 || (behind source index 1).any isPostgresIdentifierPart then none
  else if source[index + 1]? = some 36 then some [36, 36]
  else if !(source[index + 1]?.any isPostgresIdentifierStart) then none
  else
    let stop := runEnd (fun c => c ≠ 36 && isPostgresIdentifierPart c) (source.drop (index + 2)) (index + 2)
    if source[stop]? = some 36 then some (slice source index (stop + 1)) else none

def usesPostgresEscapePrefix (quote : Nat) : Bool :=
  ((behind source quote 1 = some 101 || behind source quote 1 = some 69) && !(behind source quote 2).any isWordPart) ||
    (behind source quote 1 = some 38 && (behind source quote 2 = some 117 || behind source quote 2 = some 85) &&
      !(behind source quote 3).any isWordPart)

def nextKeywordFrom (source : Text) : Nat → Nat → Option Text
  | 0, _ => none
  | fuel + 1, index =>
    match source[index]? with
    | none => none
    | some c =>
      if isWhitespace c then nextKeywordFrom source fuel (index + 1)
      else if startsWith (codes "--") source index then
        match indexOf [newline] source (index + 2) with
        | none => none
        | some found => nextKeywordFrom source fuel (found + 1)
      else if startsWith (codes "/*") source index then
        match indexOf (codes "*/") source (index + 2) with
        | none => none
        | some close => nextKeywordFrom source fuel (close + 2)
      else if !isWordStart c then none
      else some (toUpperCase (slice source index (runEnd isWordPart (source.drop (index + 1)) (index + 1))))

def nextKeyword («from» : Nat) : Option Text := nextKeywordFrom source (source.length + 1) «from»

structure GoLine where
  separator : Bool
  next : Nat

/-- `[\t \f\v\r]`. -/
def isGoIndent : Bool := c = 9 || c = 32 || c = 12 || c = 11 || c = 13

/-- `/\r$/` removed. -/
def dropReturn (line : Text) : Text := if line.getLast? = some carriageReturn then line.dropLast else line

/-- `/^[\t ]*(?:--[^\r\n]*)?$/`. -/
def isGoSuffix (suffix : Text) : Bool :=
  let rest := suffix.dropWhile fun c => c = 9 || c = 32
  rest = [] || ((codes "--").isPrefixOf rest && (rest.drop 2).all fun c => c ≠ carriageReturn && c ≠ newline)

def inspectGoLine (index lineStart : Nat) : Option GoLine :=
  if toUpperCase (slice source index (index + 2)) ≠ codes "GO" then none
  else if source[index + 2]?.any isWordPart then none
  else if !(slice source lineStart index).all isGoIndent then none
  else
    let found := indexOf [newline] source (index + 2)
    let stop := found.getD source.length
    some ⟨isGoSuffix (dropReturn (slice source (index + 2) stop)), (found.map (· + 1)).getD source.length⟩

/-! ## Words -/

def isRoutineKind (word : Option Text) : Bool :=
  word = some (codes "PROC") || word = some (codes "PROCEDURE") || word = some (codes "FUNCTION") ||
    word = some (codes "TRIGGER")

variable (words : List Text)

def isMssqlRoutine : Bool :=
  ((words[0]? = some (codes "CREATE") || words[0]? = some (codes "ALTER")) && isRoutineKind words[1]?) ||
    (words[0]? = some (codes "CREATE") && words[1]? = some (codes "OR") && words[2]? = some (codes "ALTER") &&
      isRoutineKind words[3]?)

def isSqliteTrigger : Bool :=
  (words[0]? = some (codes "CREATE") && words[1]? = some (codes "TRIGGER")) ||
    (words[0]? = some (codes "CREATE") &&
      (words[1]? = some (codes "TEMP") || words[1]? = some (codes "TEMPORARY")) && words[2]? = some (codes "TRIGGER"))

/-- `words.indexOf("AND", 1)` is followed by `CHAIN`. -/
def chains : Bool :=
  match words.drop 1 |>.dropWhile (· ≠ codes "AND") with
  | _ :: following :: _ => following = codes "CHAIN"
  | _ => false

variable (dialect : Dialect)

def transactionBoundaryFor (words : List Text) : TransactionBoundary :=
  let commit := words[0]? = some (codes "COMMIT") || (dialect ≠ .mssql && words[0]? = some (codes "END"))
  let rollback := words[0]? = some (codes "ROLLBACK") || (dialect = .postgres && words[0]? = some (codes "ABORT"))
  if commit || rollback then
    if dialect ≠ .mssql && ((words[0]? = some (codes "ROLLBACK") &&
        (words[1]? = some (codes "TO") || words[2]? = some (codes "TO"))) || chains words) then .none
    else if commit then .commit
    else .rollback
  else if words[0]? = some (codes "START") && words[1]? = some (codes "TRANSACTION") then .begin
  else if words[0]? ≠ some (codes "BEGIN") then .none
  else if dialect ≠ .mssql then .begin
  else if words[1]? = some (codes "TRAN") || words[1]? = some (codes "TRANSACTION") ||
      words[1]? = some (codes "DISTRIBUTED") then .begin
  else .none

/-! ## Tokens -/

/-- What a backslash means in a quoted text. -/
inductive Backslash
  | plain
  | escape
  | refuse
  deriving DecidableEq

inductive Scan
  | closed (next lineStart : Nat)
  | unclosed
  | refused (position : Nat)

/-- Past the opening quote, up to the closing one: doubled it stands for itself. -/
def closeQuote (close : Code) (doubled : Bool) (escapes : Backslash) : Text → Nat → Nat → Scan
  | [], _, _ => .unclosed
  | [c], index, lineStart =>
    if c = backslash && escapes = .refuse then .refused index
    else if c = backslash && escapes = .escape then .unclosed
    else if c = close then .closed (index + 1) lineStart
    else .unclosed
  | c :: c' :: rest, index, lineStart =>
    if c = backslash && escapes = .refuse then .refused index
    else if c = backslash && escapes = .escape then closeQuote close doubled escapes rest (index + 2) lineStart
    else if c = close then
      if doubled && c' = close then closeQuote close doubled escapes rest (index + 2) lineStart
      else .closed (index + 1) lineStart
    else closeQuote close doubled escapes (c' :: rest) (index + 1) (if c = newline then index + 1 else lineStart)

def closeComment (nested : Bool) : Text → Nat → Nat → Nat → Option (Nat × Nat)
  | [], _, _, _ => none
  | [_], _, _, _ => none
  | c :: c' :: rest, depth, index, lineStart =>
    if nested && c = 47 && c' = 42 then closeComment nested rest (depth + 1) (index + 2) lineStart
    else if c = 42 && c' = 47 then
      if depth = 1 then some (index + 2, lineStart) else closeComment nested rest (depth - 1) (index + 2) lineStart
    else closeComment nested (c' :: rest) depth (index + 1) (if c = newline then index + 1 else lineStart)

inductive Item
  | space (endsLine : Bool)
  | comment
  | quoted
  | word (word : Text)
  | go
  | opening
  | closing
  | semicolon
  | other

/-- A token, where it ends, and where the line there begins. -/
structure Lexed where
  item : Item
  next : Nat
  lineStart : Nat

def quotedAt (close : Code) (doubled : Bool) (escapes : Backslash) (code : ParseErrorCode)
    (message : String) (index lineStart : Nat) : Except ParseError Lexed :=
  match closeQuote close doubled escapes (source.drop (index + 1)) (index + 1) lineStart with
  | .closed next lineStart => .ok ⟨.quoted, next, lineStart⟩
  | .unclosed => fail code (codes message) index
  | .refused position =>
    fail .ambiguousStringEscape
      (codes "PostgreSQL string backslash semantics depend on server configuration; use an E-prefixed string") position

/-- `lastIndexOf("\n")` moves the line start. -/
def lineStartIn (start stop lineStart : Nat) : Nat :=
  ((List.range' start (stop - start)).filter fun i => source[i]? = some newline).getLast?.elim lineStart (· + 1)

def dollarQuotedAt (source delimiter : Text) (index lineStart : Nat) : Except ParseError Lexed :=
  match indexOf delimiter source (index + delimiter.length) with
  | none => fail .unterminatedDollarQuote (codes "Dollar quote " ++ delimiter ++ codes " is not closed") index
  | some close =>
    .ok ⟨.quoted, close + delimiter.length, lineStartIn source index (close + delimiter.length) lineStart⟩

/-- PostgreSQL keywords are ASCII: a word with other characters is not folded. -/
def wordOf (raw : Text) : Text :=
  if dialect = .postgres && raw.any fun c => 0x80 ≤ c && c ≤ 0xFFFF then raw else toUpperCase raw

def startsWord (c : Code) : Bool :=
  if dialect = .postgres then isPostgresIdentifierStart c else isWordStart c

def continuesWord (c : Code) : Bool :=
  if dialect = .postgres then isPostgresIdentifierPart c else isWordPart c

def plainAt (dialect : Dialect) (c : Code) (index lineStart : Nat) : Lexed :=
  if startsWord dialect c then
    let stop := runEnd (continuesWord dialect) (source.drop (index + 1)) (index + 1)
    ⟨.word (wordOf dialect (slice source index stop)), stop, lineStart⟩
  else if c = 40 then ⟨.opening, index + 1, lineStart⟩
  else if c = 41 then ⟨.closing, index + 1, lineStart⟩
  else if c = 59 then ⟨.semicolon, index + 1, lineStart⟩
  else ⟨.other, index + 1, lineStart⟩

def lexAt (dialect : Dialect) (c : Code) (index lineStart : Nat) : Except ParseError Lexed :=
  if isWhitespace c then
    let endsLine := c = newline || (c = carriageReturn && source[index + 1]? ≠ some newline)
    .ok ⟨.space endsLine, index + 1, if endsLine then index + 1 else lineStart⟩
  else if startsWith (codes "--") source index then .ok ⟨.comment, lineEnd source index, lineStart⟩
  else if startsWith (codes "/*") source index then
    match closeComment (dialect ≠ .sqlite) (source.drop (index + 2)) 1 (index + 2) lineStart with
    | none => fail .unterminatedComment (codes "Block comment is not closed") index
    | some (next, lineStart) => .ok ⟨.comment, next, lineStart⟩
  else if c = 39 then
    quotedAt source 39 true
      (if dialect = .postgres then if usesPostgresEscapePrefix source index then .escape else .refuse else .plain)
      .unterminatedString "Quoted string is not closed" index lineStart
  else if c = 34 then
    quotedAt source 34 true (if dialect = .postgres && usesPostgresEscapePrefix source index then .escape else .plain)
      .unterminatedIdentifier "Quoted identifier is not closed" index lineStart
  else if dialect = .sqlite && c = 96 then
    quotedAt source 96 true .plain .unterminatedIdentifier "Backtick identifier is not closed" index lineStart
  else if dialect ≠ .postgres && c = 91 then
    quotedAt source 93 (dialect = .mssql) .plain .unterminatedIdentifier "Bracket identifier is not closed" index
      lineStart
  else if dialect = .postgres && c = 36 then
    match dollarDelimiterAt source index with
    | some delimiter => dollarQuotedAt source delimiter index lineStart
    | none => .ok (plainAt source dialect c index lineStart)
  else if dialect = .mssql && (c = 103 || c = 71) then
    match inspectGoLine source index lineStart with
    | some ⟨false, _⟩ =>
      fail .ambiguousBatchSeparator
        (codes "GO must appear alone on its line; repeat counts and trailing SQL are not supported") index
    | some ⟨true, next⟩ => .ok ⟨.go, next, next⟩
    | none => .ok (plainAt source dialect c index lineStart)
  else .ok (plainAt source dialect c index lineStart)

/-! ## The scan -/

structure State where
  index : Nat
  units : List SqlUnit
  firstSource : Option Nat
  hasSql : Bool
  lineStart : Nat
  leadingWords : List Text
  mssqlRoutine : Bool
  sqliteTrigger : Bool
  sqliteTriggerBodySeen : Bool
  sqliteTriggerClosed : Bool
  /-- The innermost first. -/
  blocks : List BlockFrame
  /-- The innermost first. -/
  parentheses : List Nat
  /-- From a terminator to the end of its line. -/
  trailingAfterTerminator : Bool

def State.start : State := ⟨0, [], none, false, 0, [], false, false, false, false, [], [], false⟩

def mark (position : Nat) (sql : Bool) (s : State) : State :=
  { s with firstSource := s.firstSource.or (some position), hasSql := s.hasSql || sql }

def resetUnitState (s : State) : State :=
  { s with
    firstSource := none, hasSql := false, leadingWords := [], mssqlRoutine := false, sqliteTrigger := false
    sqliteTriggerBodySeen := false, sqliteTriggerClosed := false, blocks := [], parentheses := [] }

def trimmedEnd (source : Text) (first : Nat) : Nat → Nat
  | 0 => 0
  | stop + 1 => if first < stop + 1 && source[stop]?.any isWhitespace then trimmedEnd source first stop else stop + 1

def unitAt (dialect : Dialect) (stop : Nat) (s : State) : List SqlUnit :=
  match s.firstSource with
  | some first =>
    if s.hasSql then
      let exactEnd := trimmedEnd source first stop
      if first < exactEnd then
        [⟨slice source first exactEnd, first, exactEnd, transactionBoundaryFor dialect s.leadingWords⟩]
      else []
    else []
  | none => []

def emit (dialect : Dialect) (stop : Nat) (s : State) : State :=
  resetUnitState { s with units := s.units ++ unitAt source dialect stop s }

def recordLeading (word : Text) (s : State) : State :=
  if s.leadingWords.length < 4 then
    let leadingWords := s.leadingWords ++ [word]
    { s with
      leadingWords := leadingWords
      mssqlRoutine := s.mssqlRoutine || (dialect = .mssql && isMssqlRoutine leadingWords)
      sqliteTrigger := s.sqliteTrigger || (dialect = .sqlite && isSqliteTrigger leadingWords) }
  else s

def opensMssqlBlock (following : Option Text) : Bool :=
  following ≠ some (codes "TRAN") && following ≠ some (codes "TRANSACTION") && following ≠ some (codes "DISTRIBUTED") &&
    following ≠ some (codes "DIALOG") && following ≠ some (codes "CONVERSATION")

def recordMssql (source word : Text) (position : Nat) (s : State) : Except ParseError State :=
  if word = codes "BEGIN" then
    if opensMssqlBlock (nextKeyword source (position + word.length)) then
      .ok { s with blocks := ⟨.begin, position⟩ :: s.blocks }
    else .ok s
  else if word = codes "CASE" then .ok { s with blocks := ⟨.case, position⟩ :: s.blocks }
  else if word = codes "END" && nextKeyword source (position + word.length) ≠ some (codes "CONVERSATION") then
    match s.blocks with
    | [] => fail .unexpectedEnd (codes "END has no matching BEGIN or CASE") position
    | _ :: blocks => .ok { s with blocks := blocks }
  else .ok s

def recordTrigger (word : Text) (position : Nat) (s : State) : Except ParseError State :=
  if word = codes "BEGIN" then
    .ok { s with
      sqliteTriggerBodySeen := true, sqliteTriggerClosed := false, blocks := ⟨.begin, position⟩ :: s.blocks }
  else if word = codes "CASE" then .ok { s with blocks := ⟨.case, position⟩ :: s.blocks }
  else if word = codes "END" then
    match s.blocks with
    | [] => fail .unexpectedEnd (codes "END has no matching trigger BEGIN or CASE") position
    | _ :: blocks =>
      .ok { s with blocks := blocks, sqliteTriggerClosed := s.sqliteTriggerBodySeen && blocks.isEmpty }
  else .ok s

def recordWord (dialect : Dialect) (word : Text) (position : Nat) (s : State) :
    Except ParseError State :=
  let s := recordLeading dialect word s
  if dialect = .mssql then recordMssql source word position s
  else if dialect = .sqlite && s.sqliteTrigger then recordTrigger word position s
  else .ok s

def terminates (s : State) : Bool :=
  if dialect = .sqlite && s.sqliteTrigger then s.sqliteTriggerClosed
  else dialect ≠ .mssql || (!s.mssqlRoutine && s.blocks.isEmpty)

def take (dialect : Dialect) (s : State) (t : Lexed) : Except ParseError State :=
  let moved (s : State) : State := { s with index := t.next, lineStart := t.lineStart }
  match t.item with
  | .space endsLine => .ok (moved { s with trailingAfterTerminator := s.trailingAfterTerminator && !endsLine })
  | .comment => .ok (moved (if s.trailingAfterTerminator then s else mark s.index false s))
  | .quoted | .other => .ok (moved (mark s.index true s))
  | .word word => (recordWord source dialect word s.index (mark s.index true s)).map moved
  | .go =>
    match s.parentheses, s.blocks with
    | position :: _, _ => fail .unbalancedParenthesis (codes "Parenthesis crosses a GO batch boundary") position
    | [], block :: _ =>
      fail .unbalancedBlock (block.kind.name ++ codes " block crosses a GO batch boundary") block.position
    | [], [] => .ok (moved (emit source dialect s.lineStart s))
  | .opening => .ok (moved { mark s.index true s with parentheses := s.index :: s.parentheses })
  | .closing =>
    match s.parentheses with
    | [] =>
      fail .unexpectedClosingParenthesis (codes "Closing parenthesis has no matching opening parenthesis") s.index
    | _ :: parentheses => .ok (moved { mark s.index true s with parentheses := parentheses })
  | .semicolon =>
    match s.parentheses with
    | position :: _ =>
      fail .unbalancedParenthesis (codes "Opening parenthesis is not closed before the statement boundary") position
    | [] =>
      if terminates dialect s then .ok (moved { emit source dialect (s.index + 1) s with trailingAfterTerminator := true })
      else .ok (moved s)

def step (dialect : Dialect) (s : State) : Except ParseError State :=
  match source[s.index]? with
  | none => .ok s
  | some c =>
    match lexAt source dialect c s.index s.lineStart with
    | .error e => .error e
    | .ok t => take source dialect s t

def scan (source : Text) (dialect : Dialect) : Nat → State → Except ParseError State
  | 0, s => .ok s
  | fuel + 1, s =>
    if s.index < source.length then
      match step source dialect s with
      | .error e => .error e
      | .ok s => scan source dialect fuel s
    else .ok s

def finish (dialect : Dialect) (s : State) : Except ParseError (List SqlUnit) :=
  match s.parentheses, s.blocks with
  | position :: _, _ => fail .unbalancedParenthesis (codes "Opening parenthesis is not closed") position
  | [], block :: _ => fail .unbalancedBlock (block.kind.name ++ codes " block is not closed") block.position
  | [], [] =>
    if s.sqliteTrigger && (!s.sqliteTriggerBodySeen || !s.sqliteTriggerClosed) then
      fail .unbalancedBlock (codes "SQLite trigger body is not a balanced BEGIN/END block") (s.firstSource.getD 0)
    else .ok (emit source dialect source.length s).units

def splitDatabaseSql (dialect : Dialect) : Except ParseError (List SqlUnit) :=
  match scan source dialect source.length .start with
  | .error e => .error e
  | .ok s => finish source dialect s

end Sql
end Yuzora
