import Mathlib.Data.List.Sort
import Nanna.Lib.Json
import Nanna.Lib.Text

/-!
# One session: the cached one and the one in the database

The state of one session and of the operations on it that are under way, from one await point to the
next. An operation of the first half (`setWorkspace`, `rename`, `addMessage`, `clear`, `delete`) changes the
map and keeps its write guard until its storage call is over (`finish`). One of the second half
(`setChatModel`, `setChatTools`, the write-back of a regenerate) changes the map, gives the guard back and
carries a copy of the row to the database afterwards (`persist`). A regenerate takes its snapshot under
the read guard and writes it back when it comes to it.

An instant is a number, a hash map is its members in the order of their keys, and a JSON column is its
value. Fresh identifiers come with the actions.
-/

namespace Nanna.Daemon.Sessions

open Nanna.Lib

/-! ## Messages -/

inductive MessageRole where
  | user
  | assistant
  | system
  | tool
deriving DecidableEq

def MessageRole.asDbStr : MessageRole → String
  | .user => "user"
  | .assistant => "assistant"
  | .system => "system"
  | .tool => "tool"

def MessageRole.fromDbStr (s : String) : MessageRole :=
  if s = "assistant" then .assistant
  else if s = "system" then .system
  else if s = "tool" then .tool
  else .user

/-- A message; its records are kept as the JSON that is written for them. -/
structure SessionMessage where
  id : String
  role : MessageRole
  content : String
  timestamp : Nat
  toolCalls : List Json := []
  attachments : List Json := []
  reasoning : Option String := none
  timeline : List Json := []
  usage : Option Json := none
deriving DecidableEq

def messageToMetadata (m : SessionMessage) : Option Json :=
  if m.toolCalls = [] ∧ m.attachments = [] ∧ m.reasoning = none ∧ m.timeline = [] ∧
      m.usage = none then none
  else
    some <| .obj <|
      (if m.toolCalls = [] then [] else [("tool_calls", .arr m.toolCalls)]) ++
      (if m.attachments = [] then [] else [("attachments", .arr m.attachments)]) ++
      (m.reasoning.map fun reasoning => ("reasoning", Json.str reasoning)).toList ++
      (if m.timeline = [] then [] else [("timeline", .arr m.timeline)]) ++
      (m.usage.map fun usage => ("usage", usage)).toList

/-- A row of the `messages` table; the message's own id is in its `tool_use_id`. -/
structure StoredMessage where
  role : String
  content : String
  toolUseId : String
  createdAt : Nat
  metadata : Option Json
deriving DecidableEq

/-- The values bound by `persist_message`. -/
def StoredMessage.of (m : SessionMessage) : StoredMessage where
  role := m.role.asDbStr
  content := m.content
  toolUseId := m.id
  createdAt := m.timestamp
  metadata := messageToMetadata m

def dbMessageToSessionMessage (row : StoredMessage) : SessionMessage where
  id := row.toolUseId
  role := .fromDbStr row.role
  content := row.content
  timestamp := row.createdAt
  toolCalls := ((row.metadata.bind (·.get "tool_calls")).bind Json.asArray).getD []
  attachments := ((row.metadata.bind (·.get "attachments")).bind Json.asArray).getD []
  reasoning := (row.metadata.bind (·.get "reasoning")).bind Json.asStr
  timeline := ((row.metadata.bind (·.get "timeline")).bind Json.asArray).getD []
  usage := row.metadata.bind (·.get "usage")

/-! ## Sessions -/

/-- A hash map of JSON values: its members in the order of their keys. -/
abbrev Metadata := List (String × Json)

def Metadata.insert (key : String) (value : Json) : Metadata → Metadata
  | [] => [(key, value)]
  | (k, v) :: rest =>
    if key = k then (key, value) :: rest
    else if key < k then (key, value) :: (k, v) :: rest
    else (k, v) :: Metadata.insert key value rest

def Metadata.remove (key : String) (metadata : Metadata) : Metadata := metadata.filter (·.1 ≠ key)

structure Session where
  name : Option String := none
  messages : List SessionMessage := []
  metadata : Metadata := []
  workspaceId : Option String := none
deriving DecidableEq

def CHAT_MODEL_KEY : String := "chat_model"

def CHAT_TOOLS_KEY : String := "chat_tools"

/-- What `apply_chat_model` does to the cached session. -/
def Session.applyChatModel (s : Session) (model : Option Text) : Session :=
  match model.filter (fun spec => Text.trim spec ≠ []) with
  | some spec => { s with metadata := Metadata.insert CHAT_MODEL_KEY (.str (String.ofList spec)) s.metadata }
  | none => { s with metadata := Metadata.remove CHAT_MODEL_KEY s.metadata }

/-- What `apply_chat_tools` does to the cached session. -/
def Session.applyChatTools (s : Session) (tools : List Text) : Session :=
  let tools := (tools.map Text.trim).filter (· ≠ [])
  if tools = [] then { s with metadata := Metadata.remove CHAT_TOOLS_KEY s.metadata }
  else
    let value := Json.arr (tools.map fun t => .str (String.ofList t))
    { s with metadata := Metadata.insert CHAT_TOOLS_KEY value s.metadata }

/-- `Iterator::rposition`. -/
def rposition {α : Type*} (p : α → Bool) : List α → Option Nat
  | [] => none
  | x :: xs =>
    match rposition p xs with
    | some i => some (i + 1)
    | none => if p x then some 0 else none

def Session.takeLastUserTurn (s : Session) : Option (Session × List SessionMessage) :=
  (rposition (·.role = .user) s.messages).map fun idx =>
    ({ s with messages := s.messages.take idx }, s.messages.drop idx)

/-- What `update` puts into the map: the snapshot, with the chat model of the live session. -/
def Session.update (live : Option Session) (session : Session) : Session :=
  match live with
  | none => session
  | some live =>
    match live.metadata.lookup CHAT_MODEL_KEY with
    | some pin => { session with metadata := Metadata.insert CHAT_MODEL_KEY pin session.metadata }
    | none => { session with metadata := Metadata.remove CHAT_MODEL_KEY session.metadata }

/-- The columns of a session that a persist writes. -/
structure SessionRow where
  name : Option String
  workspaceId : Option String
  metadata : Metadata
deriving DecidableEq

def SessionRow.of (s : Session) : SessionRow where
  name := s.name
  workspaceId := s.workspaceId
  metadata := s.metadata

/-! ## The database -/

/-- A row of the `sessions` table. -/
structure StoredRow where
  name : Option String
  workspaceId : Option String
  metadata : Option Metadata
deriving DecidableEq

/-- What the two tables hold of one session, the messages as they were inserted. -/
structure Database where
  row : Option StoredRow := none
  messages : List StoredMessage := []
deriving DecidableEq

/-- `upsert_daemon_session`: a column for which nothing is bound keeps what it has. -/
def Database.upsertDaemonSession (db : Database) (name workspaceId : Option String)
    (metadata : Option Metadata) : Database :=
  match db.row with
  | none => { db with row := some { name, workspaceId, metadata } }
  | some row =>
    { db with
      row := some
        { name := name.or row.name
          workspaceId := workspaceId.or row.workspaceId
          metadata := metadata.or row.metadata } }

def Database.renameDaemonSession (db : Database) (name : String) : Database :=
  { db with row := db.row.map fun row => { row with name := some name } }

def Database.setDaemonSessionWorkspace (db : Database) (workspaceId : Option String) : Database :=
  { db with row := db.row.map fun row => { row with workspaceId } }

def Database.addDaemonMessage (db : Database) (m : StoredMessage) : Database :=
  { db with messages := db.messages ++ [m] }

def Database.clearDaemonSessionMessages (db : Database) : Database := { db with messages := [] }

def Database.deleteDaemonSession (_ : Database) : Database := {}

/-- `persist_row`: the metadata always travels. -/
def Database.persistRow (db : Database) (row : SessionRow) : Database :=
  db.upsertDaemonSession row.name row.workspaceId (some row.metadata)

/-- The database's `ORDER BY created_at ASC`: rows of one instant come in any order. -/
structure Engine where
  orderByCreatedAt : List StoredMessage → List StoredMessage
  perm : ∀ rows, (orderByCreatedAt rows).Perm rows
  ascending : ∀ rows, (orderByCreatedAt rows).Pairwise (·.createdAt ≤ ·.createdAt)

/-- `load_from_db`. -/
def loadFromDb (engine : Engine) (db : Database) : Option Session :=
  db.row.map fun row =>
    { name := row.name
      messages := (engine.orderByCreatedAt db.messages).map dbMessageToSessionMessage
      metadata := row.metadata.getD []
      workspaceId := row.workspaceId }

/-! ## Operations under way -/

/-- An operation that keeps the write guard over its storage call. -/
inductive Guarded where
  | setWorkspace (workspaceId : Option String)
  | rename (name : String)
  | addMessage (m : SessionMessage)
  | clear
  | delete
deriving DecidableEq

/-- The snapshot of a regenerate, and the turn it has dropped from it. -/
structure Snapshot where
  session : Session
  dropped : List SessionMessage
deriving DecidableEq

/-- The session, what holds the write guard, the rows and the snapshots that are on their way; below, what
has happened so far: the identifiers given out, the messages that were added and neither cleared nor
dropped, those that a regenerate has dropped, and whether the session was deleted. -/
structure State where
  cached : Option Session := none
  db : Database := {}
  creating : Option Session := none
  guarded : Option Guarded := none
  carried : List SessionRow := []
  snapshots : List Snapshot := []
  born : Bool := false
  issued : List String := []
  due : List SessionMessage := []
  dropped : List SessionMessage := []
  deleted : Bool := false
deriving DecidableEq

/-- Every operation has returned. -/
def State.Quiet (s : State) : Prop :=
  s.creating = none ∧ s.guarded = none ∧ s.carried = [] ∧ s.snapshots = []

instance (s : State) : Decidable s.Quiet := inferInstanceAs (Decidable (_ ∧ _))

inductive Action where
  /-- `create_in_workspace` up to its storage call. -/
  | create (name workspaceId : Option String)
  | insertCreated
  | setChatModel (model : Option Text)
  | setChatTools (tools : List Text)
  | setWorkspace (workspaceId : Option String)
  | rename (name : String)
  /-- `add_message` or `add_full_message`, with the message it makes. -/
  | addMessage (m : SessionMessage)
  | clear
  | delete
  /-- The storage call under the write guard. -/
  | finish
  /-- A regenerate reads the session and drops the last user turn of its copy. -/
  | snapshot
  /-- A regenerate's `update`, up to its storage call. -/
  | writeBack (index : Nat)
  /-- The storage call of an operation that carries a row. -/
  | persist (index : Nat)
  /-- `load_from_db` on a fresh manager. -/
  | restart
deriving DecidableEq

/-- Under the map's guard, when it is free; without the session there is nothing to do. -/
def State.withSession (s : State) (op : Session → State) : Option State :=
  if s.guarded = none then some ((s.cached.map op).getD s) else none

/-- The storage call of an operation that holds the write guard. -/
def Guarded.store : Guarded → Database → Database
  | .setWorkspace workspaceId, db => db.setDaemonSessionWorkspace workspaceId
  | .rename name, db => db.renameDaemonSession name
  | .addMessage m, db => db.addDaemonMessage (.of m)
  | .clear, db => db.clearDaemonSessionMessages
  | .delete, db => db.deleteDaemonSession

def step (engine : Engine) (s : State) : Action → Option State
  | .create name workspaceId =>
    if s.born then none
    else
      let session : Session := { name, workspaceId }
      some { s with born := true, db := s.db.persistRow (.of session), creating := some session }
  | .insertCreated =>
    if s.guarded = none then
      s.creating.map fun session => { s with creating := none, cached := some session }
    else none
  | .setChatModel model =>
    s.withSession fun live =>
      let session := live.applyChatModel model
      { s with cached := some session, carried := s.carried ++ [.of session] }
  | .setChatTools tools =>
    s.withSession fun live =>
      let session := live.applyChatTools tools
      { s with cached := some session, carried := s.carried ++ [.of session] }
  | .setWorkspace workspaceId =>
    s.withSession fun live =>
      { s with cached := some { live with workspaceId }, guarded := some (.setWorkspace workspaceId) }
  | .rename name =>
    s.withSession fun live =>
      { s with cached := some { live with name := some name }, guarded := some (.rename name) }
  | .addMessage m =>
    if m.id ∈ s.issued then none
    else
      s.withSession fun live =>
        { s with
          cached := some { live with messages := live.messages ++ [m] }
          guarded := some (.addMessage m)
          issued := m.id :: s.issued
          due := s.due ++ [m] }
  | .clear =>
    s.withSession fun live =>
      { s with cached := some { live with messages := [] }, guarded := some .clear, due := [] }
  | .delete =>
    s.withSession fun _ => { s with cached := none, guarded := some .delete, due := [], deleted := true }
  | .finish => s.guarded.map fun op => { s with guarded := none, db := op.store s.db }
  | .snapshot =>
    s.withSession fun live =>
      match live.takeLastUserTurn with
      | some (session, dropped) => { s with snapshots := s.snapshots ++ [{ session, dropped }] }
      | none => s
  | .writeBack index =>
    if s.guarded = none then
      s.snapshots[index]?.map fun snapshot =>
        let session := snapshot.session.update s.cached
        { s with
          cached := some session
          carried := s.carried ++ [.of session]
          snapshots := s.snapshots.eraseIdx index
          due := s.due.filter (· ∉ snapshot.dropped)
          dropped := s.dropped ++ snapshot.dropped }
    else none
  | .persist index =>
    s.carried[index]?.map fun row =>
      { s with db := s.db.persistRow row, carried := s.carried.eraseIdx index }
  | .restart => if s.Quiet then some { s with cached := loadFromDb engine s.db } else none

end Nanna.Daemon.Sessions
