import Nanna.Lib.Text

/-!
# Stream events

The events every provider's stream is translated into, and the accumulator that a consumer folds them
into (`StreamAccumulator.process`).
-/

namespace Nanna.Llm

open Nanna.Lib

inductive StreamEvent where
  | messageStart (id model : Text)
      (inputTokens cacheReadTokens cacheCreationTokens cacheCreation1hTokens : Nat)
  | contentBlockStart (index : Nat) (contentType : String) (toolId toolName : Option Text)
  | textDelta (index : Nat) (text : Text)
  | thinkingDelta (index : Nat) (thinking : Text)
  | signatureDelta (index : Nat) (signature : Text)
  | toolUseDelta (index : Nat) (partialJson : Text)
  | contentBlockStop (index : Nat)
  | messageStop (stopReason : Text)
  | messageDelta (stopReason : Option Text) (outputTokens : Nat)
  deriving DecidableEq

/-- A tool call in progress. -/
structure ToolCall where
  index : Nat
  id : Text
  name : Text
  json : Text
  deriving DecidableEq

structure StreamAccumulator where
  text : Text := []
  thinking : Text := []
  thinkingSignature : Text := []
  toolCalls : List ToolCall := []
  deriving DecidableEq

namespace StreamAccumulator

/-- Append to the first call with the index. -/
def appendJson (index : Nat) (json : Text) : List ToolCall → List ToolCall
  | [] => []
  | call :: calls =>
    if call.index = index then { call with json := call.json ++ json } :: calls
    else call :: appendJson index json calls

def process (acc : StreamAccumulator) : StreamEvent → StreamAccumulator
  | .textDelta _ text => { acc with text := acc.text ++ text }
  | .thinkingDelta _ thinking => { acc with thinking := acc.thinking ++ thinking }
  | .signatureDelta _ signature =>
    { acc with thinkingSignature := acc.thinkingSignature ++ signature }
  | .contentBlockStart index contentType (some id) (some name) =>
    if contentType = "tool_use" then
      { acc with toolCalls := acc.toolCalls ++ [⟨index, id, name, []⟩] }
    else acc
  | .toolUseDelta index json => { acc with toolCalls := appendJson index json acc.toolCalls }
  | _ => acc

def processAll (acc : StreamAccumulator) (events : List StreamEvent) : StreamAccumulator :=
  events.foldl process acc

end StreamAccumulator

end Nanna.Llm
