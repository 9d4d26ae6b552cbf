import Nanna.Llm.ToolNames

/-!
# Messages

The messages of a request and the blocks they are made of, and the reply that a response is read as.
-/

namespace Nanna.Llm

open Nanna.Lib

inductive ImageSource where
  | base64 (mediaType data : Text)
  | url (url : Text)
  deriving DecidableEq

inductive ContentBlock where
  | text (text : Text)
  | image (source : ImageSource)
  | toolUse (id name : Text) (input : Json)
  | toolResult (toolUseId content : Text) (isError : Option Bool)
  | thinking (thinking : Text) (signature : Option Text)
  deriving DecidableEq

namespace ContentBlock

def asText : ContentBlock → Option Text
  | .text t => some t
  | _ => none

def asImage : ContentBlock → Option ImageSource
  | .image source => some source
  | _ => none

def asToolUse : ContentBlock → Option (Text × Text × Json)
  | .toolUse id name input => some (id, name, input)
  | _ => none

/-- The id, the content and whether it is an error. -/
def asToolResult : ContentBlock → Option (Text × Text × Bool)
  | .toolResult id content isError => some (id, content, isError.getD false)
  | _ => none

end ContentBlock

structure AnthropicMessage where
  role : Text
  content : List ContentBlock
  deriving DecidableEq

namespace AnthropicMessage

def texts (msg : AnthropicMessage) : List Text := msg.content.filterMap (·.asText)

def images (msg : AnthropicMessage) : List ImageSource := msg.content.filterMap (·.asImage)

def toolUses (msg : AnthropicMessage) : List (Text × Text × Json) :=
  msg.content.filterMap (·.asToolUse)

def toolResults (msg : AnthropicMessage) : List (Text × Text × Bool) :=
  msg.content.filterMap (·.asToolResult)

end AnthropicMessage

structure AnthropicRequest where
  system : Option Text
  messages : List AnthropicMessage
  tools : Option (List ToolDefinition)

end Nanna.Llm
