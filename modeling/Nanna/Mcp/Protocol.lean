import Nanna.Lib.Json
import Nanna.Lib.Text

/-!
# JSON-RPC messages from an MCP server

What a line from the server is, by its shape alone (`classifyIncoming`), and what is done with a
notification and with a request of the server's. The parser of a line is a parameter. A struct is read from
an object, or from an array that has exactly its fields.
-/

namespace Nanna.Mcp

open Nanna.Lib

inductive RequestId
  | string (s : String)
  | number (n : Int)
deriving DecidableEq

/-- `{}`. -/
def RequestId.display : RequestId → Text
  | .string s => s.toList
  | .number (.ofNat n) => Nat.toDigits 10 n
  | .number (.negSucc n) => '-' :: Nat.toDigits 10 (n + 1)

structure JsonRpcRequest where
  jsonrpc : String := "2.0"
  id : RequestId
  method : String
  params : Option Json
deriving DecidableEq

structure JsonRpcError where
  code : Int
  message : String
  data : Option Json
deriving DecidableEq

structure JsonRpcResponse where
  jsonrpc : String
  id : RequestId
  result : Option Json
  error : Option JsonRpcError
deriving DecidableEq

structure JsonRpcNotification where
  jsonrpc : String
  method : String
  params : Option Json
deriving DecidableEq

/-! ## Reading a value -/

/-- The fields of a struct. -/
def members (keys : List String) : Json → Option (List (Option Json))
  | .obj kvs => some (keys.map (kvs.lookup ·))
  | .arr xs => if xs.length = keys.length then some (xs.map some) else none
  | _ => none

/-- A field that may be absent, or null. -/
def optional {β : Type} (read : Json → Option β) : Option Json → Option (Option β)
  | none | some .null => some none
  | some value => (read value).map some

/-- An integer of so many bits. -/
def readInt (bits : Nat) : Json → Option Int
  | .num (.int n) => if -2 ^ (bits - 1) ≤ n ∧ n < 2 ^ (bits - 1) then some n else none
  | _ => none

def RequestId.fromValue : Json → Option RequestId
  | .str s => some (.string s)
  | value => (readInt 64 value).map .number

def JsonRpcError.fromValue (value : Json) : Option JsonRpcError :=
  match members ["code", "message", "data"] value with
  | some [code, message, data] => do
    let code ← code.bind (readInt 32)
    let message ← message.bind Json.asStr
    let data ← optional some data
    pure { code, message, data }
  | _ => none

def JsonRpcResponse.fromValue (value : Json) : Option JsonRpcResponse :=
  match members ["jsonrpc", "id", "result", "error"] value with
  | some [jsonrpc, id, result, error] => do
    let jsonrpc ← jsonrpc.bind Json.asStr
    let id ← id.bind RequestId.fromValue
    let result ← optional some result
    let error ← optional JsonRpcError.fromValue error
    pure { jsonrpc, id, result, error }
  | _ => none

def JsonRpcNotification.fromValue (value : Json) : Option JsonRpcNotification :=
  match members ["jsonrpc", "method", "params"] value with
  | some [jsonrpc, method, params] => do
    let jsonrpc ← jsonrpc.bind Json.asStr
    let method ← method.bind Json.asStr
    let params ← optional some params
    pure { jsonrpc, method, params }
  | _ => none

/-! ## One line from the server -/

inductive Incoming
  | response (response : JsonRpcResponse)
  | serverRequest (id : Json) (method : String)
  | notification (notif : JsonRpcNotification)
  | unreadable

/-- Classify one line. A request of the server's would also be read as a response, so the shape is looked
at first. -/
def classifyIncoming (parse : Text → Option Json) (line : Text) : Incoming :=
  match parse line with
  | none => .unreadable
  | some value =>
    let method := (value.get "method").bind Json.asStr
    let id := (value.get "id").filter (· ≠ .null)
    match method, id with
    | some method, some id => .serverRequest id method
    | some _, none => ((JsonRpcNotification.fromValue value).map .notification).getD .unreadable
    | none, _ => ((JsonRpcResponse.fromValue value).map .response).getD .unreadable

/-- The reply to a request of the server's. -/
def replyToServerRequest (id : Json) (method : String) : Json :=
  if method = "ping" then .obj [("jsonrpc", .str "2.0"), ("id", id), ("result", .obj [])]
  else .obj [("jsonrpc", .str "2.0"), ("id", id), ("error", .obj [("code", .num (.int (-32601))),
    ("message", .str ("nanna does not serve `" ++ method ++ "`"))])]

/-! ## Notifications -/

inductive McpList
  | tools
  | resources
  | prompts
deriving DecidableEq

/-- The lists that the server said have changed. -/
structure ListChangedFlags where
  tools : Bool := false
  resources : Bool := false
  prompts : Bool := false
deriving DecidableEq

def ListChangedFlags.mark (flags : ListChangedFlags) : McpList → ListChangedFlags
  | .tools => { flags with tools := true }
  | .resources => { flags with resources := true }
  | .prompts => { flags with prompts := true }

inductive ServerNotification
  | logMessage
  | progress
  | listChanged (list : Option McpList)
  | cancelled
  | other
deriving DecidableEq

def listChangedKind (method : String) : Option McpList :=
  if method = "notifications/tools/list_changed" then some .tools
  else if method = "notifications/resources/list_changed" then some .resources
  else if method = "notifications/prompts/list_changed" then some .prompts
  else none

def classifyServerNotification (method : String) : ServerNotification :=
  if method = "notifications/message" then .logMessage
  else if method = "notifications/progress" then .progress
  else if method = "notifications/cancelled" then .cancelled
  else if "/list_changed".toList.isSuffixOf method.toList then .listChanged (listChangedKind method)
  else .other

def handleServerNotification (notif : JsonRpcNotification) (flags : ListChangedFlags) : ListChangedFlags :=
  match classifyServerNotification notif.method with
  | .listChanged (some list) => flags.mark list
  | .listChanged none | .logMessage | .progress | .cancelled | .other => flags

end Nanna.Mcp
