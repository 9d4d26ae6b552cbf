import Nanna.Lib.Dict
import Nanna.Mcp.Protocol

/-!
# The stdio transport

One transport, a lock at a time (`step`): callers register a slot, write their line and wait; the reader task
routes the server's lines until the output ends or `close` tells it to stop; `close` drops the server's
input. What the server writes, whether a line can be written and when a wait times out are inputs.

A channel is kept with its receiver: `inbox` is what has been sent, and the sender is the slot. The
deliveries and the callers that are cut off are recorded for the statements.
-/

namespace Nanna.Mcp

open Nanna.Lib

inductive McpError
  | connectionClosed
  | timeout
  | io (text : Text)
deriving DecidableEq

inductive CallerPhase
  | registering
  | writing
  /-- The line could not be written, and the slot is to be removed. -/
  | failed (error : McpError)
  | waiting
  /-- The wait has timed out, and the slot is to be removed. -/
  | expired
  | returned (result : Except McpError JsonRpcResponse)
deriving DecidableEq

/-- A call of `request`. -/
structure Caller where
  request : JsonRpcRequest
  phase : CallerPhase := .registering
  inbox : Option JsonRpcResponse := none
  /-- The reader had ended before the call, or it ended before the call was answered. -/
  cutOff : Bool

/-- A call of `close`. -/
inductive Closing
  | signalling
  | taking
  | exiting
  | returned
deriving DecidableEq

inductive Reader
  | running
  | ended
deriving DecidableEq

/-- A line to the server. -/
inductive Outgoing
  | request (request : JsonRpcRequest)
  | reply (value : Json)

structure State where
  callers : List Caller
  closers : List Closing
  /-- The slot of an id has the sender of this caller. -/
  pending : Dict Text Nat
  /-- Not yet dropped by `close`. -/
  stdin : Bool
  /-- The shutdown signal that is in its channel. -/
  shutdown : Bool
  reader : Reader
  listChanged : ListChangedFlags
  /-- Newest first. -/
  sent : List Outgoing
  /-- The caller and what was sent to it, newest first. -/
  deliveries : List (Nat × JsonRpcResponse)

/-- A transport with a fresh process. -/
def spawn : State where
  callers := []
  closers := []
  pending := .empty
  stdin := true
  shutdown := false
  reader := .running
  listChanged := {}
  sent := []
  deliveries := []

/-- The caller waits, or will, and nothing has come. -/
def Caller.unresolved (c : Caller) : Bool :=
  match c.phase with
  | .registering | .writing | .waiting => c.inbox.isNone
  | .failed _ | .expired | .returned _ => false

/-- The receiver still exists. -/
def Caller.listening (c : Caller) : Bool :=
  match c.phase with
  | .registering | .writing | .failed _ | .waiting => true
  | .expired | .returned _ => false

/-- The reader task ends. -/
def State.endReader (s : State) : State :=
  { s with
    reader := .ended
    callers := s.callers.map fun c => { c with cutOff := c.cutOff || c.unresolved } }

/-- `write_line`: a line cannot be written once the input is dropped, or where the pipe fails. -/
def State.writeLine (s : State) (line : Outgoing) (failure : Option Text) : Except McpError State :=
  if s.stdin = true then
    match failure with
    | none => .ok { s with sent := line :: s.sent }
    | some text => .error (.io text)
  else .error .connectionClosed

/-- `tx.send`. -/
def State.send (s : State) (i : Nat) (response : JsonRpcResponse) : State :=
  match s.callers[i]? with
  | some c =>
    if c.listening = true then { s with
      callers := s.callers.set i { c with inbox := some response }
      deliveries := (i, response) :: s.deliveries }
    else s
  | none => s

/-- `route_line`: deliver one line to where its shape says it belongs. -/
def State.routeLine (s : State) (incoming : Incoming) (failure : Option Text) : State :=
  match incoming with
  | .response response =>
    match s.pending.find response.id.display with
    | some i => { s with pending := s.pending.erase response.id.display }.send i response
    | none => s
  | .notification notif => { s with listChanged := handleServerNotification notif s.listChanged }
  | .serverRequest id method =>
    match s.writeLine (.reply (replyToServerRequest id method)) failure with
    | .ok s' => s'
    | .error _ => s
  | .unreadable => s

/-- The caller's sender is in its slot. -/
def State.Slotted (s : State) (i : Nat) (c : Caller) : Prop := s.pending.find c.request.id.display = some i

instance (s : State) (i : Nat) (c : Caller) : Decidable (s.Slotted i c) := inferInstanceAs (Decidable (_ = _))

/-- What a caller does next. -/
inductive Move
  | register
  | write (failure : Option Text)
  | unregister
  | receive
  | expire

def callerStep (s : State) (i : Nat) (c : Caller) : Move → Option (State × Caller)
  | .register =>
    match c.phase with
    | .registering =>
      some ({ s with pending := s.pending.set c.request.id.display i }, { c with phase := .writing })
    | _ => none
  | .write failure =>
    match c.phase with
    | .writing =>
      match s.writeLine (.request c.request) failure with
      | .ok s' => some (s', { c with phase := .waiting })
      | .error error => some (s, { c with phase := .failed error })
    | _ => none
  | .unregister =>
    let s' := { s with pending := s.pending.erase c.request.id.display }
    match c.phase with
    | .failed error => some (s', { c with phase := .returned (.error error) })
    | .expired => some (s', { c with phase := .returned (.error .timeout) })
    | _ => none
  | .receive =>
    match c.phase, c.inbox with
    | .waiting, some response => some (s, { c with phase := .returned (.ok response) })
    | .waiting, none =>
      if s.Slotted i c then none else some (s, { c with phase := .returned (.error .connectionClosed) })
    | _, _ => none
  | .expire =>
    match c.phase, c.inbox with
    | .waiting, none => if s.Slotted i c then some (s, { c with phase := .expired }) else none
    | _, _ => none

inductive Act
  | request (request : JsonRpcRequest)
  | caller (i : Nat) (move : Move)
  /-- A line from the server, and whether a reply can be written. -/
  | line (line : Text) (failure : Option Text)
  /-- The server has closed its output, or it cannot be read. -/
  | outputEnds
  | hearShutdown
  | close
  | closer (j : Nat)

variable (parse : Text → Option Json)

def step (s : State) : Act → Option State
  | .request request =>
    some { s with callers := s.callers ++ [{ request, cutOff := s.reader = .ended }] }
  | .caller i move =>
    match s.callers[i]? with
    | some c => (callerStep s i c move).map fun (s', c') => { s' with callers := s.callers.set i c' }
    | none => none
  | .line line failure =>
    if s.reader = .running then some (s.routeLine (classifyIncoming parse line) failure) else none
  | .outputEnds => if s.reader = .running then some s.endReader else none
  | .hearShutdown =>
    if s.reader = .running ∧ s.shutdown = true then some { s.endReader with shutdown := false } else none
  | .close => some { s with closers := s.closers ++ [.signalling] }
  | .closer j =>
    match s.closers[j]? with
    | some .signalling =>
      -- a receiver that is gone refuses the signal, and a full channel holds it back
      if s.reader = .ended then some { s with closers := s.closers.set j .taking }
      else if s.shutdown = true then none
      else some { s with shutdown := true, closers := s.closers.set j .taking }
    | some .taking => some { s with stdin := false, closers := s.closers.set j .exiting }
    | some .exiting => some { s with closers := s.closers.set j .returned }
    | some .returned | none => none

/-! ## What a caller can do -/

/-- One section of a call of `request`. -/
inductive CallerStep (s : State) (i : Nat) (c : Caller) : Move → State → Caller → Prop
  | register : c.phase = .registering → CallerStep s i c .register
      { s with pending := s.pending.set c.request.id.display i } { c with phase := .writing }
  | write : c.phase = .writing → s.stdin = true → CallerStep s i c (.write none)
      { s with sent := .request c.request :: s.sent } { c with phase := .waiting }
  | fail {text : Text} : c.phase = .writing → s.stdin = true →
      CallerStep s i c (.write (some text)) s { c with phase := .failed (.io text) }
  | refuse {failure : Option Text} : c.phase = .writing → s.stdin = false →
      CallerStep s i c (.write failure) s { c with phase := .failed .connectionClosed }
  | unsent {error : McpError} : c.phase = .failed error → CallerStep s i c .unregister
      { s with pending := s.pending.erase c.request.id.display } { c with phase := .returned (.error error) }
  | late : c.phase = .expired → CallerStep s i c .unregister
      { s with pending := s.pending.erase c.request.id.display } { c with phase := .returned (.error .timeout) }
  | receive {response : JsonRpcResponse} : c.phase = .waiting → c.inbox = some response →
      CallerStep s i c .receive s { c with phase := .returned (.ok response) }
  | dropped : c.phase = .waiting → c.inbox = none → ¬ s.Slotted i c →
      CallerStep s i c .receive s { c with phase := .returned (.error .connectionClosed) }
  | expire : c.phase = .waiting → c.inbox = none → s.Slotted i c →
      CallerStep s i c .expire s { c with phase := .expired }

variable {parse} {s s' t : State} {i : Nat} {c c' : Caller} {move : Move}

theorem callerStep_inv (h : callerStep s i c move = some (s', c')) : CallerStep s i c move s' c' := by
  cases move with
  | register =>
    rw [callerStep] at h
    split at h
    · rename_i hphase
      cases h
      exact .register hphase
    · cases h
  | write failure =>
    rw [callerStep] at h
    split at h
    · rename_i hphase
      unfold State.writeLine at h
      by_cases hstdin : s.stdin = true
      · rw [if_pos hstdin] at h
        cases failure with
        | none =>
          cases h
          exact .write hphase hstdin
        | some text =>
          cases h
          exact .fail hphase hstdin
      · rw [if_neg hstdin] at h
        cases h
        exact .refuse hphase (Bool.eq_false_iff.mpr hstdin)
    · cases h
  | unregister =>
    rw [callerStep] at h
    split at h
    · rename_i hphase
      cases h
      exact .unsent hphase
    · rename_i hphase
      cases h
      exact .late hphase
    · cases h
  | receive =>
    rw [callerStep] at h
    split at h
    · rename_i hphase hinbox
      cases h
      exact .receive hphase hinbox
    · rename_i hphase hinbox
      split at h
      · cases h
      · rename_i hslot
        cases h
        exact .dropped hphase hinbox hslot
    · cases h
  | expire =>
    rw [callerStep] at h
    split at h
    · rename_i hphase hinbox
      split at h
      · rename_i hslot
        cases h
        exact .expire hphase hinbox hslot
      · cases h
    · cases h

end Nanna.Mcp
