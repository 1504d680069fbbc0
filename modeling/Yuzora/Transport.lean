import Yuzora.Table
import Yuzora.Trace
import Yuzora.Utf16
/-!
# Transport — the terminal of a page and its connector sessions

A transport attaches to a connector session at a time.  What is typed waits in the queue of the attachment, which is
replaced and not cleared; what is pasted is a request of its own, and has no paste delimiters inside.  An action runs
until it awaits.  Calls are answered in any order; each connector session that the Host opens is a new one.

The pointer and the wheel send commands of their own and are left out, but for one that finds the connector stalled.
-/
namespace Yuzora
namespace Transport

open Utf16 (Text points utf8Length)

/-! ## Pasted text -/

/-- `ESC[200~` -/
def PASTE_START : Text := [0x1b, 0x5b, 0x32, 0x30, 0x30, 0x7e]

/-- `ESC[201~` -/
def PASTE_END : Text := [0x1b, 0x5b, 0x32, 0x30, 0x31, 0x7e]

/-- A carriage return, and the line feed after it if there is one, becomes a line feed. -/
def lineEnds : Text → Text
  | [] => []
  | 0x0d :: 0x0a :: rest => 0x0a :: lineEnds rest
  | c :: rest => (if c = 0x0d then 0x0a else c) :: lineEnds rest

/-- One more character is kept, and drops the delimiter that it ends. -/
def keep (kept : List Text) (char : Text) : List Text :=
  let kept := kept ++ [char]
  if char ≠ [0x7e] ∨ kept.length < 6 then kept
  else
    let tail := (kept.drop (kept.length - 6)).flatten
    if tail = PASTE_START ∨ tail = PASTE_END then kept.take (kept.length - 6) else kept

def stripPasteDelimiters (text : Text) : Text :=
  if text.contains 0x1b then ((points text).foldl keep []).flatten else text

def payload (text : Text) : Text := stripPasteDelimiters (lineEnds text)

/-- What is handed to the transport. -/
inductive Input
  | write (data : Text)
  | paste (text : Text)

def Input.text : Input → Text
  | write data => data
  | paste text => PASTE_START ++ payload text ++ PASTE_END

def Input.isPaste : Input → Bool
  | write _ => false
  | paste _ => true

/-! ## Queues -/

def LIMIT : Nat := 256 * 1024

structure Frame where
  text : Text
  paste : Bool
  bytes : Nat

structure InputQueue where
  frames : List Frame
  bytes : Nat

def inputBytes (data : Text) : Nat :=
  if data.length > LIMIT then LIMIT + 1
  else if data.length = 1 ∧ data.headD 0 < 0x80 then 1
  else utf8Length data

def InputQueue.push (queue : InputQueue) (data : Text) (paste : Bool) (bytes : Nat) : InputQueue :=
  match queue.frames.getLast? with
  | some previous =>
    if paste = false ∧ previous.paste = false then
      ⟨queue.frames.dropLast ++ [{ previous with text := previous.text ++ data, bytes := previous.bytes + bytes }],
        queue.bytes + bytes⟩
    else ⟨queue.frames ++ [⟨data, paste, bytes⟩], queue.bytes + bytes⟩
  | none => ⟨queue.frames ++ [⟨data, paste, bytes⟩], queue.bytes + bytes⟩

/-- A drain has yielded once, or awaits the request that it sent; it captured the session. -/
inductive Drain
  | starting (session : Nat)
  | sending (session : Nat)

/-! ## The transport -/

inductive HerdrTerminalMode
  | observe | control
  deriving DecidableEq

inductive HerdrTerminalRole
  | observer | controller
  deriving DecidableEq

/-- What the Host answers to an open besides the session. -/
structure OpenResult where
  target : String
  mode : HerdrTerminalMode
  role : HerdrTerminalRole
  takeover : Bool

inductive HerdrTerminalEvent
  | frame (seq : Nat) (full : Bool) (width height : Option Int)
  | closed (reason : Option String)
  | resync (message : String)
  | error (code message : String)

/-- What the page is told. -/
inductive TerminalTransportEvent
  | output (seq : Nat) (full : Bool) (width height : Option Int)
  | exit (reason : Option String)
  | error (message : String) (code : Option String)
  | resync (message : String)
  | control (mode : HerdrTerminalMode) (role : HerdrTerminalRole)

/-- An open that was asked for, and whether it is still to be answered. -/
structure OpenCall where
  mode : HerdrTerminalMode
  takeover : Bool
  cols : Nat
  rows : Nat
  pending : Bool

/-- What happened, in order: calls and answers, and where sessions went. -/
inductive Record
  /-- A write or a paste went into the queue of a session. -/
  | accepted (session : Nat) (input : Input)
  /-- It would have been too much. -/
  | refused (session : Nat)
  /-- `herdrTerminalInput` is called. -/
  | input (session : Nat) (text : Text)
  | settled (session : Nat) (ok : Bool)
  /-- `herdrTerminalOpen` answers. -/
  | returned (session : Nat)
  /-- `onAttachment` -/
  | attached (session : Nat) (result : OpenResult)
  /-- `herdrTerminalRelease` is called. -/
  | release (session : Nat)
  /-- `detachSession` returns the session. -/
  | handed (session : Nat)
  /-- An event ended the attachment while the session was the current one. -/
  | ended (session : Nat)
  /-- `detach` was called while the session was the current one. -/
  | detached (session : Nat)
  /-- A further session was attached while it was. -/
  | replaced (session : Nat)
  | told (event : TerminalTransportEvent)

structure State where
  sessionId : Option Nat
  mode : HerdrTerminalMode
  role : HerdrTerminalRole
  takeover : Bool
  lastSeq : Option Nat
  lastCols : Nat
  lastRows : Nat
  eventHandler : Bool
  openGeneration : Nat
  disposed : Bool
  /-- The queue of the attachment, under the name of the session it was made for. -/
  inputQueue : Option Nat
  queues : Table Nat InputQueue
  /-- The drain of a queue, while it has one. -/
  drains : Table Nat Drain
  opens : Table Nat OpenCall
  /-- Takeovers that await the release. -/
  takeovers : List Nat
  /-- The Host numbers its sessions. -/
  nextSession : Nat
  log : List Record

namespace State

variable (s : State)

def tell (event : TerminalTransportEvent) : State :=
  if s.eventHandler then { s with log := s.log ++ [.told event] } else s

def discardInput : State :=
  match s.inputQueue with
  | none => s
  | some q => { s with queues := s.queues.insert q ⟨[], 0⟩, inputQueue := none }

def failInput (q : Nat) (message : String) : State :=
  if s.inputQueue = some q then s.discardInput.tell (.error message none) else s

/-- A command of the session `attached` was given up by the Host. -/
def reportStall (attached : Nat) : State :=
  if s.sessionId = some attached then s.discardInput.tell (.error "terminal-input-failed" none) else s

def openConnector (mode : HerdrTerminalMode) (takeover : Bool) (cols rows : Nat) : State :=
  if s.disposed then s
  else
    let s := s.discardInput
    { s with
      openGeneration := s.openGeneration + 1
      lastSeq := none
      lastCols := cols
      lastRows := rows
      eventHandler := true
      opens := s.opens.insert (s.openGeneration + 1) ⟨mode, takeover, cols, rows, true⟩ }

/-- The Host answers with a session: the current one from now on, or one that comes too late. -/
def opened (generation : Nat) (call : OpenCall) (session : Nat) (result : OpenResult) : State :=
  let s := { s with
    nextSession := session + 1
    opens := s.opens.insert generation { call with pending := false }
    log := s.log ++ [Record.returned session] }
  if s.disposed ∨ generation ≠ s.openGeneration then { s with log := s.log ++ [Record.release session] }
  else
    { s with
      sessionId := some session
      inputQueue := some session
      queues := s.queues.insert session ⟨[], 0⟩
      mode := result.mode
      role := result.role
      takeover := result.takeover
      log := s.log ++ (s.sessionId.map Record.replaced).toList ++
        [Record.attached session result, Record.told (.control result.mode result.role)] }

def enqueueInput (input : Input) : State :=
  match s.sessionId, s.inputQueue with
  | some id, some q =>
    if s.disposed ∨ s.mode ≠ .control ∨ input.text = [] then s
    else
      match s.queues.get q with
      | none => s
      | some queue =>
        let bytes := inputBytes input.text
        if queue.bytes + bytes > LIMIT then
          { s with log := s.log ++ [Record.refused id] }.failInput q "terminal-input-limit"
        else
          { s with
            queues := s.queues.insert q (queue.push input.text input.isPaste bytes)
            drains := if s.drains.contains q then s.drains else s.drains.insert q (.starting id)
            log := s.log ++ [Record.accepted id input] }
  | _, _ => s

def write (s : State) (data : Text) : State := s.enqueueInput (.write data)

def paste (s : State) (text : Text) : State := if payload text = [] then s else s.enqueueInput (.paste text)

/-- The drain of a queue goes on: the next request is sent, or it is over. -/
def drainOn (q session : Nat) : State :=
  match s.queues.get q with
  | some ⟨frame :: frames, bytes⟩ =>
    if s.inputQueue = some q then
      { s with
        queues := s.queues.insert q ⟨frames, bytes - frame.bytes⟩
        drains := s.drains.insert q (.sending session)
        log := s.log ++ [Record.input session frame.text] }
    else { s with drains := s.drains.erase q }
  | _ => { s with drains := s.drains.erase q }

def settled (s : State) (q session : Nat) (ok : Bool) : State :=
  let s := { s with log := s.log ++ [Record.settled session ok] }
  if ok then s.drainOn q session
  else
    let s := s.failInput q "terminal-input-failed"
    { s with drains := s.drains.erase q }

def detach : State :=
  let s := s.discardInput
  { s with
    disposed := true
    openGeneration := s.openGeneration + 1
    eventHandler := false
    sessionId := none
    lastSeq := none
    log := s.log ++ (s.sessionId.map Record.detached).toList }

def detachSession : State :=
  let s := s.discardInput
  { s with
    openGeneration := s.openGeneration + 1
    sessionId := none
    lastSeq := none
    log := s.log ++ (s.sessionId.map Record.handed).toList }

def releaseCurrent : State :=
  match s.sessionId with
  | none => s
  | some id => { s with sessionId := none, lastSeq := none, log := s.log ++ [Record.release id] }

def release : State :=
  let s := s.discardInput
  { s with openGeneration := s.openGeneration + 1 }.releaseCurrent

def dispose : State :=
  let s := s.discardInput
  { s with disposed := true, openGeneration := s.openGeneration + 1, eventHandler := false }.releaseCurrent

/-- The first part of `takeControl`: it has nothing to do, throws, opens, or releases and awaits that. -/
def takeControl (caller : Nat) : State :=
  if s.disposed then s
  else if s.mode = .control ∧ s.role = .controller ∧ s.inputQueue.isSome then s
  else if s.eventHandler = false then s
  else
    let s := s.discardInput
    match s.sessionId with
    | some previous =>
      { s with sessionId := none, takeovers := caller :: s.takeovers, log := s.log ++ [Record.release previous] }
    | none => s.openConnector .control true s.lastCols s.lastRows

/-! ### Events of the connector -/

def dimension : Option Int → Bool
  | some value => decide (1 ≤ value ∧ value ≤ 1000)
  | none => false

def absent : Option Int → Bool
  | some value => decide (value = 0)
  | none => true

def invalidGeometry : TerminalTransportEvent :=
  .error "Terminal frame dimensions exceed the supported limits" (some "invalid-terminal-geometry")

def mapEvent : HerdrTerminalEvent → State
  | .frame seq full width height =>
    if (dimension width && dimension height) = false ∧ (full = true ∨ (absent width && absent height) = false) then
      let attached := s.sessionId
      let s := { s with sessionId := none, openGeneration := s.openGeneration + 1 }.discardInput
      { s with
        log := s.log ++ (attached.map Record.release).toList ++ [Record.told invalidGeometry] }
    else if s.lastSeq.any fun last => decide (seq ≤ last) then s
    else { s with lastSeq := some seq, log := s.log ++ [Record.told (.output seq full width height)] }
  | .closed reason => { s with log := s.log ++ [Record.told (.exit reason)] }
  | .resync message => { s with log := s.log ++ [Record.told (.resync message)] }
  | .error code message => { s with log := s.log ++ [Record.told (.error message (some code))] }

def retires : HerdrTerminalEvent → Bool
  | .closed _ => true
  | .error code _ => decide (code = "host-stream-closed" ∨ code = "invalid-terminal-geometry")
  | _ => false

def onEvent (generation : Nat) (event : HerdrTerminalEvent) : State :=
  if s.disposed ∨ generation ≠ s.openGeneration then s
  else if retires event then
    let s := s.discardInput
    { s with
      sessionId := none
      lastSeq := none
      openGeneration := s.openGeneration + 1
      log := s.log ++ (s.sessionId.map Record.ended).toList }.mapEvent event
  else s.mapEvent event

end State

/-- How the transport is made. -/
structure Options where
  mode : HerdrTerminalMode
  takeover : Bool

inductive Action
  | «open» (cols rows : Nat)
  /-- An open is answered, or refused. -/
  | opened (generation session : Nat) (result : OpenResult)
  | openFailed (generation : Nat)
  | write (data : Text)
  | paste (text : Text)
  /-- A drain that yielded goes on. -/
  | drain (queue : Nat)
  /-- The request of a drain is answered. -/
  | settled (queue : Nat) (ok : Bool)
  | takeControl (caller : Nat)
  /-- The release that `takeControl` awaits is answered. -/
  | takeover (caller : Nat)
  | resize (cols rows : Nat)
  | detachSession
  | detach
  | release
  | dispose
  /-- A connector that was asked for sends an event. -/
  | event (generation : Nat) (event : HerdrTerminalEvent)
  /-- The Host gave up on a command of the session. -/
  | stall (session : Nat)

variable (options : Options)

def next (s : State) : Action → Option State
  | .open cols rows =>
    let openTakeover := if s.mode = .control then s.takeover || options.takeover else false
    some (s.openConnector s.mode openTakeover cols rows)
  | .opened generation session result =>
    match s.opens.get generation with
    | some call =>
      if call.pending ∧ s.nextSession ≤ session then some (s.opened generation call session result) else none
    | none => none
  | .openFailed generation =>
    match s.opens.get generation with
    | some call =>
      if call.pending then some { s with opens := s.opens.insert generation { call with pending := false } } else none
    | none => none
  | .write data => some (s.write data)
  | .paste text => some (s.paste text)
  | .drain q =>
    match s.drains.get q with
    | some (.starting session) => some (s.drainOn q session)
    | _ => none
  | .settled q ok =>
    match s.drains.get q with
    | some (.sending session) => some (s.settled q session ok)
    | _ => none
  | .takeControl caller => some (s.takeControl caller)
  | .takeover caller =>
    if caller ∈ s.takeovers then
      let s := { s with takeovers := s.takeovers.erase caller }
      some (s.openConnector .control true s.lastCols s.lastRows)
    else none
  | .resize cols rows => some (if s.disposed then s else { s with lastCols := cols, lastRows := rows })
  | .detachSession => some s.detachSession
  | .detach => some s.detach
  | .release => some s.release
  | .dispose => some s.dispose
  | .event generation event => if s.opens.contains generation then some (s.onEvent generation event) else none
  | .stall session => some (s.reportStall session)

/-- `createHerdrTerminalTransport` -/
def State.new : State :=
  { sessionId := none
    mode := options.mode
    role := if options.mode = .control then .controller else .observer
    takeover := if options.mode = .control then options.takeover else false
    lastSeq := none
    lastCols := 80
    lastRows := 24
    eventHandler := false
    openGeneration := 0
    disposed := false
    inputQueue := none
    queues := .empty
    drains := .empty
    opens := .empty
    takeovers := []
    nextSession := 1
    log := [] }

/-- The runs of a transport among its callers, its connectors and the Host. -/
abbrev Run : List (Transition State Action) → State → Prop :=
  Trace (fun s => s = .new options) fun s a t => next options s a = some t

end Transport
end Yuzora
