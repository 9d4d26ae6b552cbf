import Mathlib.Data.List.Sort
import Nanna.Lib.Blocks
import Nanna.Lib.Table
import Nanna.Llm.Events

/-!
# OpenAI-compatible streams

`OpenAiStreamState` as it turns the lines of a chat-completions stream into events: text is block 0,
tool call `i` is block `i + 1`. Reading a line as a chunk is `decode`. What a stream brings is its
`reading`: the fragments of text, the announced calls and the fragments of their arguments, up to
the finish reason. The events are the translation of these one by one, the closing of the blocks and
the stop (`stream_eq`).
-/

namespace Nanna.Llm

open Nanna.Lib

structure OpenAiFunctionDelta where
  name : Option Text
  arguments : Option Text
  deriving DecidableEq

structure OpenAiToolCallDelta where
  index : UInt64
  id : Option Text
  function : Option OpenAiFunctionDelta
  deriving DecidableEq

structure OpenAiChunkDelta where
  content : Option Text
  toolCalls : Option (List OpenAiToolCallDelta)
  deriving DecidableEq

structure OpenAiChunkChoice where
  delta : Option OpenAiChunkDelta
  finishReason : Option Text
  deriving DecidableEq

/-- One `data:` chunk. -/
structure OpenAiStreamChunk where
  choices : List OpenAiChunkChoice
  deriving DecidableEq

structure StartedCall where
  index : Nat
  id : Text
  name : Text
  deriving DecidableEq

structure OpenAiStreamState where
  textBlockStarted : Bool := false
  toolCallsStarted : Table StartedCall.index := .empty

namespace OpenAiToolCallDelta

/-- Tool indices are offset by one, text is at 0. -/
def blockIndex (tc : OpenAiToolCallDelta) : Nat := (tc.index + 1).toNat

/-- The id and the name of a new call. -/
def newCall (tc : OpenAiToolCallDelta) : Option (Text × Text) :=
  tc.id.bind fun id => (tc.function.bind (·.name)).map fun name => (id, name)

/-- A fragment of the arguments that is not empty. -/
def args (tc : OpenAiToolCallDelta) : Option Text :=
  (tc.function.bind (·.arguments)).filter (! ·.isEmpty)

end OpenAiToolCallDelta

/-- A finish reason as a stop reason. -/
def streamedStopReason (reason : Text) : Text :=
  if reason = "tool_calls".toList then "tool_use".toList
  else if reason = "stop".toList then "end_turn".toList
  else reason

namespace OpenAiStreamState

/-- Stop the text block, then every tool block in index order. -/
def closeBlocks (state : OpenAiStreamState) : List StreamEvent :=
  (if state.textBlockStarted then [.contentBlockStop 0] else []) ++
    ((state.toolCallsStarted.rows.map (·.index)).insertionSort (· ≤ ·)).map .contentBlockStop

/-- Text opens block 0 where it is not open. -/
def onContent (state : OpenAiStreamState) : Option Text → OpenAiStreamState × List StreamEvent
  | none => (state, [])
  | some text =>
    if text.isEmpty then (state, [])
    else ({ state with textBlockStarted := true },
      (if state.textBlockStarted then [] else [.contentBlockStart 0 "text" none none]) ++
        [.textDelta 0 text])

/-- A call with an id and a name is a new one, and ends the text. -/
def announce (state : OpenAiStreamState) (index : Nat) (id name : Text) :
    OpenAiStreamState × List StreamEvent :=
  (⟨false, state.toolCallsStarted.insert ⟨index, id, name⟩⟩,
    (if state.textBlockStarted then [.contentBlockStop 0] else []) ++
      [.contentBlockStart index "tool_use" (some id) (some name)])

def onToolCall (state : OpenAiStreamState) (tc : OpenAiToolCallDelta) :
    OpenAiStreamState × List StreamEvent :=
  let (state, started) :=
    match tc.newCall with
    | some (id, name) => state.announce tc.blockIndex id name
    | none => (state, [])
  match tc.args with
  | some args => (state, started ++ [.toolUseDelta tc.blockIndex args])
  | none => (state, started)

def onDelta (state : OpenAiStreamState) (delta : OpenAiChunkDelta) :
    OpenAiStreamState × List StreamEvent :=
  let (state, text) := state.onContent delta.content
  let (state, calls) :=
    match delta.toolCalls with
    | some toolCalls => emits onToolCall state toolCalls
    | none => (state, [])
  (state, text ++ calls)

/-- The choices of a chunk, up to one with a finish reason. -/
def onChoices (state : OpenAiStreamState) :
    List OpenAiChunkChoice → OpenAiStreamState × List StreamEvent × Bool
  | [] => (state, [], false)
  | choice :: choices =>
    let (state, events) :=
      match choice.delta with
      | some delta => state.onDelta delta
      | none => (state, [])
    match choice.finishReason with
    | some reason =>
      (state, events ++ state.closeBlocks ++ [.messageStop (streamedStopReason reason)], true)
    | none =>
      let (state, rest, finished) := state.onChoices choices
      (state, events ++ rest, finished)

variable (decode : Text → Option OpenAiStreamChunk)

/-- The events of a line, and whether the message ended. -/
def onLine (state : OpenAiStreamState) (line : Text) :
    OpenAiStreamState × List StreamEvent × Bool :=
  match line.dropPrefix? "data: ".toList with
  | none => (state, [], false)
  | some data =>
    if data = "[DONE]".toList then
      (state, state.closeBlocks ++ [.messageStop "end_turn".toList], true)
    else
      match decode data with
      | none => (state, [], false)
      | some chunk => state.onChoices chunk.choices

/-- The events of a stream, which closes its blocks when it ends without a finish reason. -/
def stream (state : OpenAiStreamState) : List Text → List StreamEvent
  | [] => state.closeBlocks ++ [.messageStop "end_turn".toList]
  | line :: lines =>
    let (state, events, finished) := state.onLine decode line
    if finished then events else events ++ state.stream lines

end OpenAiStreamState

/-! ## What a stream brings -/

inductive Fragment where
  | text (text : Text)
  | call (index : Nat) (id name : Text)
  | args (index : Nat) (json : Text)
  deriving DecidableEq

def contentFragments : Option Text → List Fragment
  | none => []
  | some text => if text.isEmpty then [] else [.text text]

def OpenAiToolCallDelta.fragments (tc : OpenAiToolCallDelta) : List Fragment :=
  (tc.newCall.map fun (id, name) => .call tc.blockIndex id name).toList ++
    (tc.args.map (.args tc.blockIndex)).toList

def OpenAiChunkDelta.fragments (delta : OpenAiChunkDelta) : List Fragment :=
  contentFragments delta.content ++ (delta.toolCalls.getD []).flatMap (·.fragments)

def OpenAiChunkChoice.fragments (choice : OpenAiChunkChoice) : List Fragment :=
  (choice.delta.map (·.fragments)).getD []

/-- The fragments of choices up to a finish reason. -/
def choicesReading : List OpenAiChunkChoice → List Fragment × Option Text
  | [] => ([], none)
  | choice :: choices =>
    match choice.finishReason with
    | some reason => (choice.fragments, some reason)
    | none => (choice.fragments ++ (choicesReading choices).1, (choicesReading choices).2)

/-- The fragments of a line, and the finish reason where the message ends, if it has one. -/
def lineReading (decode : Text → Option OpenAiStreamChunk) (line : Text) :
    List Fragment × Option (Option Text) :=
  match line.dropPrefix? "data: ".toList with
  | none => ([], none)
  | some data =>
    if data = "[DONE]".toList then ([], some none)
    else
      match decode data with
      | none => ([], none)
      | some chunk => ((choicesReading chunk.choices).1, (choicesReading chunk.choices).2.map some)

/-- The fragments of a stream up to its end, and its finish reason. -/
def reading (decode : Text → Option OpenAiStreamChunk) : List Text → List Fragment × Option Text
  | [] => ([], none)
  | line :: lines =>
    match lineReading decode line with
    | (fragments, some reason) => (fragments, reason)
    | (fragments, none) => (fragments ++ (reading decode lines).1, (reading decode lines).2)

/-- The stop reason of a stream. -/
def stopReasonOf (finishReason : Option Text) : Text :=
  (finishReason.map streamedStopReason).getD "end_turn".toList

namespace OpenAiStreamState

/-- The events of one fragment. -/
def onFragment (state : OpenAiStreamState) : Fragment → OpenAiStreamState × List StreamEvent
  | .text text => ({ state with textBlockStarted := true },
      (if state.textBlockStarted then [] else [.contentBlockStart 0 "text" none none]) ++
        [.textDelta 0 text])
  | .call index id name => state.announce index id name
  | .args index json => (state, [.toolUseDelta index json])

variable {state : OpenAiStreamState} {decode : Text → Option OpenAiStreamChunk}

theorem onContent_eq (content : Option Text) :
    state.onContent content = emits onFragment state (contentFragments content) := by
  cases content with
  | none => rfl
  | some text =>
    rw [onContent, contentFragments]
    split
    · rfl
    · rw [emits, emits, List.append_nil]
      rfl

theorem onToolCall_eq (state : OpenAiStreamState) (tc : OpenAiToolCallDelta) :
    state.onToolCall tc = emits onFragment state tc.fragments := by
  rw [OpenAiToolCallDelta.fragments, onToolCall]
  cases tc.newCall with
  | none => cases tc.args with
    | none => rfl
    | some args => rfl
  | some call => cases tc.args with
    | none => exact congrArg (Prod.mk _) (List.append_nil _).symm
    | some args => rfl

theorem onDelta_eq (delta : OpenAiChunkDelta) :
    state.onDelta delta = emits onFragment state delta.fragments := by
  rw [OpenAiChunkDelta.fragments, emits_append, onDelta, onContent_eq]
  cases delta.toolCalls with
  | none => rfl
  | some toolCalls => exact congrArg (fun r => (r.1, _ ++ r.2)) (emits_flatMap onToolCall_eq toolCalls)

/-- The end of a message: close the blocks and stop. -/
def ending (state : OpenAiStreamState) (finishReason : Option Text) : List StreamEvent :=
  state.closeBlocks ++ [.messageStop (stopReasonOf finishReason)]

theorem onChoices_eq (state : OpenAiStreamState) (choices : List OpenAiChunkChoice) :
    let (fragments, reason) := choicesReading choices
    let (after, events) := emits onFragment state fragments
    state.onChoices choices =
      (after, events ++ (reason.map fun reason => after.ending (some reason)).getD [],
        reason.isSome) := by
  induction choices generalizing state with
  | nil => rfl
  | cons choice choices ih =>
    have hdelta : (match choice.delta with
        | some delta => state.onDelta delta
        | none => (state, [])) = emits onFragment state choice.fragments := by
      rw [OpenAiChunkChoice.fragments]
      cases choice.delta with
      | none => rfl
      | some delta => exact onDelta_eq delta
    rw [onChoices, choicesReading, hdelta]
    cases choice.finishReason with
    | some reason => simp [ending, stopReasonOf]
    | none =>
      have hrest := ih (emits onFragment state choice.fragments).1
      simp only [] at hrest ⊢
      rw [hrest, emits_append, List.append_assoc]

theorem onLine_eq (state : OpenAiStreamState) (line : Text) :
    let (fragments, reason) := lineReading decode line
    let (after, events) := emits onFragment state fragments
    state.onLine decode line =
      (after, events ++ (reason.map after.ending).getD [], reason.isSome) := by
  rw [onLine, lineReading]
  cases line.dropPrefix? "data: ".toList with
  | none => rfl
  | some data =>
    simp only []
    split
    · rfl
    · cases decode data with
      | none => rfl
      | some chunk =>
        have hchoices := onChoices_eq state chunk.choices
        simp only [] at hchoices ⊢
        rw [hchoices, Option.isSome_map, Option.map_map]
        rfl

/-- A stream is the translation of its fragments, the closing of the blocks and the stop. -/
theorem stream_eq (lines : List Text) : state.stream decode lines =
    (emits onFragment state (reading decode lines).1).2 ++
      (emits onFragment state (reading decode lines).1).1.ending (reading decode lines).2 := by
  induction lines generalizing state with
  | nil => rfl
  | cons line lines ih =>
    have hline := @onLine_eq decode state line
    rw [stream, reading]
    cases hreading : lineReading decode line with
    | mk fragments reason =>
      rw [hreading] at hline
      simp only [] at hline ⊢
      rw [hline]
      cases reason with
      | some reason => simp
      | none => simp [ih, emits_append]

end OpenAiStreamState

end Nanna.Llm
