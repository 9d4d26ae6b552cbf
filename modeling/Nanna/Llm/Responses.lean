import Nanna.Llm.Heal
import Nanna.Llm.Messages
import Nanna.Llm.Ollama

/-!
# Whole responses

A chat-completions response and an `/api/chat` response as the reply they stand for, where nothing is
streamed. Arguments that are JSON text are healed; reasoning inside the content of an Ollama message
is cut out.
-/

namespace Nanna.Llm

open Nanna.Lib Nanna.Lib.Text

structure Usage where
  inputTokens : Nat
  outputTokens : Nat
  cacheReadInputTokens : Nat
  deriving DecidableEq

structure AnthropicResponse where
  id : Text
  content : List ContentBlock
  model : Text
  stopReason : Option Text
  usage : Usage
  deriving DecidableEq

def textAt (j : Json) (key : String) (default : String) : Text :=
  ((j.field key).asStr.getD default).toList

def countAt (j : Json) (key : String) : Nat := tokenCountU32 ((j.field key).asU64.getD 0)

/-! ## Chat completions -/

variable (parse : Text → Option Json)

def openaiToolUse (tc : Json) : ContentBlock :=
  .toolUse (textAt tc "id" "") (textAt (tc.field "function") "name" "")
    (healToolArgs parse (textAt (tc.field "function") "arguments" "\x7b\x7d"))

def openaiStopReason (finishReason : Text) : Text :=
  if finishReason = "tool_calls".toList then "tool_use".toList
  else if finishReason = "stop".toList then "end_turn".toList
  else if finishReason = "length".toList then "max_tokens".toList
  else finishReason

def openaiContent (message : Json) : List ContentBlock :=
  (match (message.field "content").asStr with
    | some text => if text.toList.isEmpty then [] else [.text text.toList]
    | none => []) ++
  ((message.field "tool_calls").asArray.getD []).map (openaiToolUse parse)

def openaiResponseToAnthropic (model : Text) (response : Json) :
    Except LlmError AnthropicResponse :=
  match (response.field "choices").asArray.bind (·.head?) with
  | none => .error (.api 500 "No choices in response".toList)
  | some choice =>
    let usage := response.field "usage"
    .ok {
      id := textAt response "id" ""
      content := openaiContent parse (choice.field "message")
      model
      stopReason := some (openaiStopReason (textAt choice "finish_reason" "end_turn"))
      usage := ⟨countAt usage "prompt_tokens", countAt usage "completion_tokens",
        countAt (usage.field "prompt_tokens_details") "cached_tokens"⟩ }

/-! ## Ollama -/

/-- What is inside the first pair of think tags. -/
def extractThinkContent (text : Text) : Option Text :=
  match cutFirst InlineThinkSplitter.OPEN text, cutFirst InlineThinkSplitter.CLOSE text with
  | some (before, _), some (upTo, _) =>
    if before.length + 7 < upTo.length then some (trim (upTo.drop (before.length + 7))) else none
  | _, _ => none

theorem length_closed {remaining before after mid rest : Text}
    (hopen : cutFirst InlineThinkSplitter.OPEN remaining = some (before, after))
    (hclose : cutFirst InlineThinkSplitter.CLOSE (InlineThinkSplitter.OPEN ++ after) =
      some (mid, rest)) : rest.length < remaining.length := by
  have hrest := length_lt_of_cutFirst hclose (by decide)
  rw [eq_of_cutFirst hopen, List.append_assoc, List.length_append]
  omega

/-- The text without its think blocks. One that is not closed stays, after the text before it. -/
def stripThinkFrom (remaining : Text) : Text :=
  match _hopen : cutFirst InlineThinkSplitter.OPEN remaining with
  | none => remaining
  | some (before, after) =>
    match _hclose : cutFirst InlineThinkSplitter.CLOSE (InlineThinkSplitter.OPEN ++ after) with
    | some (_, rest) => before ++ stripThinkFrom rest
    | none => before ++ remaining
termination_by remaining.length
decreasing_by exact length_closed _hopen _hclose

def stripThinkTags (text : Text) : Text := trim (stripThinkFrom text)

def thinkingBlocks (thinking : Option Text) : List ContentBlock :=
  match thinking with
  | some thinking => if thinking.isEmpty then [] else [.thinking thinking none]
  | none => []

/-- The blocks of the content, with the reasoning inside it where the message has none of its own. -/
def contentBlocks (thought : Bool) (content : Option Text) : List ContentBlock :=
  match content with
  | none => []
  | some rawText =>
    (if thought then [] else thinkingBlocks (extractThinkContent rawText)) ++
      if (stripThinkTags rawText).isEmpty then [] else [.text (stripThinkTags rawText)]

variable (env : OllamaEnv)

/-- The calls of a message, each under a fresh id. -/
def ollamaToolUses (drawn : Nat) : List Json → List ContentBlock
  | [] => []
  | tc :: calls =>
    .toolUse (env.synthesizedToolUseId drawn) (textAt (tc.field "function") "name" "")
      ((tc.field "function").field "arguments") :: ollamaToolUses (drawn + 1) calls

def ollamaStopReason (called : Bool) (doneReason : Text) : Text :=
  if called then "tool_use".toList
  else if doneReason = "stop".toList then "end_turn".toList
  else if doneReason = "length".toList then "max_tokens".toList
  else doneReason

def ollamaResponseToAnthropic (timestamp model : Text) (response : Json) :
    Except LlmError AnthropicResponse :=
  if (response.field "done").asBool = some false then
    .error (.fromApiResponse env 502 "Ollama aborted generation mid-response (done=false)".toList)
  else
    let thoughts := thinkingBlocks (OllamaStreamState.thinking response)
    let said := contentBlocks (! thoughts.isEmpty) (OllamaStreamState.content response)
    let uses := ollamaToolUses env 0 ((OllamaStreamState.toolCalls response).getD [])
    .ok {
      id := "ollama-".toList ++ timestamp
      content := thoughts ++ said ++ uses
      model
      stopReason := some (ollamaStopReason (! uses.isEmpty) (textAt response "done_reason" "stop"))
      usage := ⟨countAt response "prompt_eval_count", countAt response "eval_count", 0⟩ }

end Nanna.Llm
