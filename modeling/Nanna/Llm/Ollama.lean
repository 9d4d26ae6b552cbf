import Nanna.Lib.Blocks
import Nanna.Lib.Json
import Nanna.Lib.Occurrence
import Nanna.Llm.ToolNames

/-!
# Ollama streams

`OllamaStreamState` as it turns the objects of an `/api/chat` stream into events: one block is open
at a time, under a running index. Reasoning inside the content is routed by `InlineThinkSplitter`, a
stop sentinel ends the turn without being shown, and a runner that repeats one token is cut short
(`RepeatWatch`). Parsing and printing JSON, the case mapping, the retry time in an error message and
fresh call ids are the functions of `OllamaEnv`.
-/

namespace Nanna.Llm

open Nanna.Lib Nanna.Lib.Text

inductive LlmError where
  | api (status : Nat) (message : Text)
  | rateLimit (message : Text) (retryAfter : Option Nat)
  | wedgedRunner (token : Text) (run bytesReceived : Nat)
  deriving DecidableEq

structure OllamaEnv where
  casing : Casing
  /-- `serde_json::from_str` -/
  parse : Text → Option Json
  /-- `Value::to_string` -/
  print : Json → Text
  parseRetryAfter : Text → Option Nat
  /-- The id drawn for a call that sends none, by how many calls the stream has brought. -/
  synthesizedToolUseId : Nat → Text

abbrev StreamItem := Except LlmError StreamEvent

def LlmError.fromApiResponse (env : OllamaEnv) (status : Nat) (message : Text) : LlmError :=
  let lowered := env.casing.lower message
  if status = 429 ∨ contains lowered "rate_limit".toList ∨ contains lowered "rate limit".toList then
    .rateLimit message (env.parseRetryAfter message)
  else .api status message

def tokenCountU32 (n : Nat) : Nat := min n (2 ^ 32 - 1)

/-! ## Repeated tokens -/

structure RepeatWatch where
  last : Option Text := none
  run : Nat := 0
  deriving DecidableEq

def MAX_RUN : Nat := 20

def MAX_FRAGMENT_CHARS : Nat := 4

/-- Record a fragment; the length of the run once it is degenerate. -/
def RepeatWatch.observe (watch : RepeatWatch) (fragment : Text) : RepeatWatch × Option Nat :=
  if (trim fragment).isEmpty ∨ MAX_FRAGMENT_CHARS < fragment.length then (⟨none, 0⟩, none)
  else
    let run := if watch.last = some fragment then watch.run + 1 else 1
    (⟨some fragment, run⟩, if MAX_RUN ≤ run then some run else none)

/-! ## Stop sentinels -/

def isSentinelNumber (digits : Text) : Bool :=
  ! digits.isEmpty && byteLen digits ≤ 2 && digits.all Char.isDigit

/-- The text before a trailing stop sentinel. -/
def stripTrailingStopSentinel (content : Text) : Option Text :=
  (cutLast "<unused".toList (trimEnd content)).bind fun (pre, rest) =>
    if rest.getLast? = some '>' ∧ isSentinelNumber rest.dropLast then some pre else none

def isGemmaStopSentinel (content : Text) : Bool :=
  match (trim content).dropPrefix? "<unused".toList with
  | some rest => rest.getLast? = some '>' && isSentinelNumber rest.dropLast
  | none => false

/-! ## Reasoning inside the content -/

inductive ContentSegment where
  | thinking (thinking : Text)
  | text (text : Text)
  deriving DecidableEq

structure InlineThinkSplitter where
  inside : Bool := false
  /-- At most a partial tag. -/
  pending : Text := []
  trimNextText : Bool := false
  deriving DecidableEq

/-- The length of the longest proper suffix of a text that starts a tag. -/
def partialTagSuffixLen (text tag : Text) : Nat :=
  (((List.range tag.length).drop 1).reverse.find? fun k => (tag.take k).isSuffixOf text).getD 0

namespace InlineThinkSplitter

def OPEN : Text := "<think>".toList

def CLOSE : Text := "</think>".toList

/-- The tag a splitter waits for. -/
def tag (splitter : InlineThinkSplitter) : Text := if splitter.inside then CLOSE else OPEN

theorem tag_ne_nil (splitter : InlineThinkSplitter) : splitter.tag ≠ [] := by
  rw [tag]
  split
  · exact List.cons_ne_nil _ _
  · exact List.cons_ne_nil _ _

def route (splitter : InlineThinkSplitter) (text : Text) :
    InlineThinkSplitter × List ContentSegment :=
  if splitter.inside then (splitter, if text.isEmpty then [] else [.thinking text])
  else if splitter.trimNextText then
    let trimmed := trimStart text
    if trimmed.isEmpty then (splitter, [])
    else ({ splitter with trimNextText := false }, [.text trimmed])
  else (splitter, if text.isEmpty then [] else [.text text])

/-- Route what is pending, up to what could begin a tag. -/
def drain (splitter : InlineThinkSplitter) : InlineThinkSplitter × List ContentSegment :=
  match _h : cutFirst splitter.tag splitter.pending with
  | some (before, rest) =>
    let segments := (splitter.route before).2
    let (splitter, more) := drain ⟨! splitter.inside, rest, splitter.inside⟩
    (splitter, segments ++ more)
  | none =>
    let ready := splitter.pending.length - partialTagSuffixLen splitter.pending splitter.tag
    { splitter with pending := splitter.pending.drop ready }.route (splitter.pending.take ready)
termination_by splitter.pending.length
decreasing_by exact length_lt_of_cutFirst _h splitter.tag_ne_nil

def push (splitter : InlineThinkSplitter) (fragment : Text) :
    InlineThinkSplitter × List ContentSegment :=
  drain { splitter with pending := splitter.pending ++ fragment }

/-- Release what is held back. -/
def finish (splitter : InlineThinkSplitter) : InlineThinkSplitter × List ContentSegment :=
  { splitter with pending := [] }.route splitter.pending

end InlineThinkSplitter

/-! ## Blocks -/

/-- The blocks of a stream, one open at a time at the running index. -/
structure OllamaBlocks where
  thinkingBlockStarted : Bool := false
  textBlockStarted : Bool := false
  toolBlockCount : Nat := 0
  nextBlockIndex : Nat := 0
  deriving DecidableEq

namespace OllamaBlocks

def closeThinking (blocks : OllamaBlocks) : OllamaBlocks × List StreamItem :=
  if blocks.thinkingBlockStarted then
    ({ blocks with thinkingBlockStarted := false, nextBlockIndex := blocks.nextBlockIndex + 1 },
      [.ok (.contentBlockStop blocks.nextBlockIndex)])
  else (blocks, [])

def closeText (blocks : OllamaBlocks) : OllamaBlocks × List StreamItem :=
  if blocks.textBlockStarted then
    ({ blocks with textBlockStarted := false, nextBlockIndex := blocks.nextBlockIndex + 1 },
      [.ok (.contentBlockStop blocks.nextBlockIndex)])
  else (blocks, [])

/-- Reasoning, after the text block is closed. -/
def emitThinking (blocks : OllamaBlocks) (thinking : Text) : OllamaBlocks × List StreamItem :=
  let (blocks, closed) := blocks.closeText
  ({ blocks with thinkingBlockStarted := true },
    closed ++
      (if blocks.thinkingBlockStarted then []
        else [.ok (.contentBlockStart blocks.nextBlockIndex "thinking" none none)]) ++
      [.ok (.thinkingDelta blocks.nextBlockIndex thinking)])

/-- Text, after the thinking block is closed. -/
def emitText (blocks : OllamaBlocks) (text : Text) : OllamaBlocks × List StreamItem :=
  let (blocks, closed) := blocks.closeThinking
  ({ blocks with textBlockStarted := true },
    closed ++
      (if blocks.textBlockStarted then []
        else [.ok (.contentBlockStart blocks.nextBlockIndex "text" none none)]) ++
      [.ok (.textDelta blocks.nextBlockIndex text)])

def emitSegment (blocks : OllamaBlocks) : ContentSegment → OllamaBlocks × List StreamItem
  | .thinking thinking => blocks.emitThinking thinking
  | .text text => blocks.emitText text

variable (env : OllamaEnv)

/-- A whole call under an index of its own. -/
def onToolCall (blocks : OllamaBlocks) (tc : Json) : OllamaBlocks × List StreamItem :=
  let name := (((tc.field "function").field "name").asStr.map (·.toList)).getD []
  let args := env.print ((tc.field "function").field "arguments")
  let id := ((tc.field "id").asStr.map (·.toList)).getD
    (env.synthesizedToolUseId blocks.toolBlockCount)
  ({ blocks with
      toolBlockCount := blocks.toolBlockCount + 1, nextBlockIndex := blocks.nextBlockIndex + 1 },
    [.ok (.contentBlockStart blocks.nextBlockIndex "tool_use" (some id) (some name)),
      .ok (.toolUseDelta blocks.nextBlockIndex args),
      .ok (.contentBlockStop blocks.nextBlockIndex)])

def onToolCalls (blocks : OllamaBlocks) (toolCalls : List Json) : OllamaBlocks × List StreamItem :=
  let (blocks, thinking) := blocks.closeThinking
  let (blocks, text) := blocks.closeText
  let (blocks, calls) := emits (onToolCall env) blocks toolCalls
  (blocks, thinking ++ text ++ calls)

/-- The `thinking` field of a message. -/
def onThinking (blocks : OllamaBlocks) : Option Text → OllamaBlocks × List StreamItem
  | none => (blocks, [])
  | some thinking => if thinking.isEmpty then (blocks, []) else blocks.emitThinking thinking

/-- The `tool_calls` field of a message. -/
def onCalls (blocks : OllamaBlocks) : Option (List Json) → OllamaBlocks × List StreamItem
  | none => (blocks, [])
  | some toolCalls => if toolCalls.isEmpty then (blocks, []) else blocks.onToolCalls env toolCalls

def isOpen (blocks : OllamaBlocks) : Bool :=
  blocks.thinkingBlockStarted || blocks.textBlockStarted

/-- Stop the open block. -/
def closeOpen (blocks : OllamaBlocks) : List StreamItem :=
  if blocks.isOpen then [.ok (.contentBlockStop blocks.nextBlockIndex)] else []

/-- Stop what is open, each block at the running index. -/
def closeBoth (blocks : OllamaBlocks) : List StreamItem :=
  (if blocks.thinkingBlockStarted then [.ok (.contentBlockStop blocks.nextBlockIndex)] else []) ++
    if blocks.textBlockStarted then [.ok (.contentBlockStop blocks.nextBlockIndex)] else []

/-- Stop what is open, the text under the index after the thinking. -/
def closeInTurn (blocks : OllamaBlocks) : OllamaBlocks × List StreamItem :=
  let index :=
    if blocks.thinkingBlockStarted then blocks.nextBlockIndex + 1 else blocks.nextBlockIndex
  ({ blocks with nextBlockIndex := index },
    (if blocks.thinkingBlockStarted then [.ok (.contentBlockStop blocks.nextBlockIndex)] else []) ++
      if blocks.textBlockStarted then [.ok (.contentBlockStop index)] else [])

def stopReason (blocks : OllamaBlocks) : Text :=
  if 0 < blocks.toolBlockCount then "tool_use".toList else "end_turn".toList

end OllamaBlocks

/-! ## Objects -/

structure OllamaStreamState where
  thinkSplitter : InlineThinkSplitter := {}
  sawStopSentinel : Bool := false
  blocks : OllamaBlocks := {}
  repeatWatch : RepeatWatch := {}
  deriving DecidableEq

namespace OllamaStreamState

def emitSegments (state : OllamaStreamState) (segments : List ContentSegment) :
    OllamaStreamState × List StreamItem :=
  let (blocks, items) := emits OllamaBlocks.emitSegment state.blocks segments
  ({ state with blocks }, items)

/-- The content without a stop sentinel, which is remembered. -/
def dropSentinel (state : OllamaStreamState) (content : Text) : OllamaStreamState × Text :=
  if isGemmaStopSentinel content then ({ state with sawStopSentinel := true }, [])
  else
    match stripTrailingStopSentinel content with
    | some pre => ({ state with sawStopSentinel := true }, pre)
    | none => (state, content)

/-- The `content` field of a message. -/
def onContent (state : OllamaStreamState) : Option Text → OllamaStreamState × List StreamItem
  | none => (state, [])
  | some content =>
    let (state, content) := state.dropSentinel content
    let (splitter, segments) := state.thinkSplitter.push content
    { state with thinkSplitter := splitter }.emitSegments segments

def flushContent (state : OllamaStreamState) : OllamaStreamState × List StreamItem :=
  let (splitter, segments) := state.thinkSplitter.finish
  { state with thinkSplitter := splitter }.emitSegments segments

/-- Both token counts come with the last object. -/
def usage (obj : Json) : List StreamItem :=
  (match (obj.field "prompt_eval_count").asU64 with
    | some count =>
      [.ok (.messageStart [] (((obj.field "model").asStr.map (·.toList)).getD [])
        (tokenCountU32 count) 0 0 0)]
    | none => []) ++
  match (obj.field "eval_count").asU64 with
  | some count => [.ok (.messageDelta none (tokenCountU32 count))]
  | none => []

/-- The end of a message: close the open block, report the usage, stop. -/
def onDone (state : OllamaStreamState) (obj : Json) : OllamaStreamState × List StreamItem :=
  let (state, flushed) := state.flushContent
  let (blocks, stops) := state.blocks.closeInTurn
  ({ state with blocks },
    flushed ++ stops ++ usage obj ++ [.ok (.messageStop state.blocks.stopReason)])

def thinking (obj : Json) : Option Text :=
  ((obj.field "message").field "thinking").asStr.map (·.toList)

def content (obj : Json) : Option Text :=
  ((obj.field "message").field "content").asStr.map (·.toList)

def toolCalls (obj : Json) : Option (List Json) :=
  ((obj.field "message").field "tool_calls").asArray

def isDone (obj : Json) : Bool := (obj.field "done").asBool.getD false

/-- The reasoning, the content and the calls of an object, in this order. -/
def onMessage (env : OllamaEnv) (state : OllamaStreamState) (obj : Json) :
    OllamaStreamState × List StreamItem :=
  let (blocks, reasoned) := state.blocks.onThinking (thinking obj)
  let (state, said) := { state with blocks }.onContent (content obj)
  let (blocks, called) := state.blocks.onCalls env (toolCalls obj)
  ({ state with blocks }, reasoned ++ said ++ called)

/-- Observe the fragment of an object. -/
def watch (state : OllamaStreamState) (obj : Json) : RepeatWatch × Option (Text × Nat) :=
  match (thinking obj).or (content obj) with
  | some fragment =>
    let (watch, run) := state.repeatWatch.observe fragment
    (watch, run.map fun run => (fragment, run))
  | none => (state.repeatWatch, none)

/-- The items of an object, and whether the stream is over. -/
def onObject (env : OllamaEnv) (state : OllamaStreamState) (obj : Json) (bytesReceived : Nat) :
    OllamaStreamState × List StreamItem × Bool :=
  match state.watch obj with
  | (watch, some (fragment, run)) =>
    ({ state with repeatWatch := watch },
      state.blocks.closeOpen ++ [.error (.wedgedRunner fragment run bytesReceived)], true)
  | (watch, none) =>
    let (state, items) := { state with repeatWatch := watch }.onMessage env obj
    if isDone obj then
      let (state, ending) := state.onDone obj
      (state, items ++ ending, true)
    else (state, items, false)

/-- Why a stream ended without completion, with the end of what was left unparsed. -/
def abortedMessage (buffer : Text) (lastLine : Option Text) (bytesReceived linesParsed : Nat) :
    Text :=
  let tailNote :=
    match lastLine with
    | none => " No NDJSON line was ever parsed.".toList
    | some line => " Last line before the cut: ".toList ++ line.take 200
  let residue := trim buffer
  let residueNote :=
    if residue.isEmpty then
      "nothing was left unparsed (the stream simply stopped).".toList ++ tailNote
    else s!"{byteLen residue} unparsed bytes remained, ending: ".toList ++
      residue.drop (residue.length - 160)
  ("Ollama stream ended without completion (no done=true) after " ++
    s!"{bytesReceived} bytes / {linesParsed} NDJSON lines — ").toList ++ residueNote

/-- The items that end a stream whose body closed without a `done: true` line. -/
def finish (env : OllamaEnv) (state : OllamaStreamState) (buffer : Text) (lastLine : Option Text)
    (bytesReceived linesParsed : Nat) : List StreamItem :=
  if ((env.parse (trim buffer)).map isDone).getD false then
    let (state, flushed) := state.flushContent
    flushed ++ state.blocks.closeOpen ++ [.ok (.messageStop state.blocks.stopReason)]
  else if state.sawStopSentinel then
    let (state, flushed) := state.flushContent
    flushed ++ state.blocks.closeBoth ++ [.ok (.messageStop state.blocks.stopReason)]
  else
    state.blocks.closeBoth ++
      [.error (.fromApiResponse env 502
        (abortedMessage buffer lastLine bytesReceived linesParsed))]

/-- How the body of a stream ended: what was left in the buffer, and what was read before. -/
structure BodyEnd where
  buffer : Text
  lastLine : Option Text
  bytesReceived : Nat
  linesParsed : Nat

/-- The items of a stream: its objects, with the bytes received so far, and its end. -/
def stream (env : OllamaEnv) (bodyEnd : BodyEnd) (state : OllamaStreamState) :
    List (Json × Nat) → List StreamItem
  | [] =>
    state.finish env bodyEnd.buffer bodyEnd.lastLine bodyEnd.bytesReceived bodyEnd.linesParsed
  | (obj, bytesReceived) :: objs =>
    let (state, items, finished) := state.onObject env obj bytesReceived
    if finished then items else items ++ state.stream env bodyEnd objs

end OllamaStreamState

/-! ## What a stream brings -/

inductive OllamaFragment where
  | segment (segment : ContentSegment)
  | call (tc : Json)
  deriving DecidableEq

namespace OllamaBlocks

variable (env : OllamaEnv)

def onFragment (blocks : OllamaBlocks) : OllamaFragment → OllamaBlocks × List StreamItem
  | .segment segment => blocks.emitSegment segment
  | .call tc =>
    let (blocks, thinking) := blocks.closeThinking
    let (blocks, text) := blocks.closeText
    let (blocks, call) := blocks.onToolCall env tc
    (blocks, thinking ++ text ++ call)

variable {env} {blocks : OllamaBlocks}

theorem onFragment_call (h : blocks.isOpen = false) (tc : Json) :
    blocks.onFragment env (.call tc) = blocks.onToolCall env tc := by
  obtain ⟨thinking, text, count, index⟩ := blocks
  obtain ⟨rfl, rfl⟩ := Bool.or_eq_false_iff.mp h
  rfl

theorem isOpen_closed (blocks : OllamaBlocks) :
    blocks.closeThinking.1.closeText.1.isOpen = false := by
  obtain ⟨_ | _, _ | _, count, index⟩ := blocks <;> rfl

theorem emits_calls (h : blocks.isOpen = false) (toolCalls : List Json) :
    emits (onFragment env) blocks (toolCalls.map .call) = emits (onToolCall env) blocks toolCalls := by
  induction toolCalls generalizing blocks with
  | nil => rfl
  | cons tc toolCalls ih =>
    rw [List.map_cons, emits, emits, onFragment_call h, @ih (blocks.onToolCall env tc).1 h]

/-- Calls come one by one, the first of which closes the open block. -/
theorem onCalls_eq (toolCalls : Option (List Json)) : blocks.onCalls env toolCalls =
    emits (onFragment env) blocks ((toolCalls.getD []).map .call) := by
  obtain _ | _ | ⟨tc, toolCalls⟩ := toolCalls
  · rfl
  · rfl
  · rw [Option.getD_some, List.map_cons, emits, onFragment]
    simp only []
    rw [@emits_calls env (blocks.closeThinking.1.closeText.1.onToolCall env tc).1
      blocks.isOpen_closed]
    simp only [onCalls, List.isEmpty_cons, Bool.false_eq_true, if_false, onToolCalls, emits,
      List.append_assoc]

/-- The fragment of a `thinking` field. -/
def thinkingFragments : Option Text → List OllamaFragment
  | none => []
  | some thinking => if thinking.isEmpty then [] else [.segment (.thinking thinking)]

theorem onThinking_eq (thinking : Option Text) :
    blocks.onThinking thinking = emits (onFragment env) blocks (thinkingFragments thinking) := by
  cases thinking with
  | none => rfl
  | some thinking =>
    rw [onThinking, thinkingFragments]
    split
    · rfl
    · rw [emits, emits, List.append_nil]
      rfl

theorem emits_segments (segments : List ContentSegment) :
    emits emitSegment blocks segments = emits (onFragment env) blocks (segments.map .segment) := by
  induction segments generalizing blocks with
  | nil => rfl
  | cons segment segments ih =>
    rw [List.map_cons, emits, emits, ih]
    rfl

end OllamaBlocks

namespace OllamaStreamState

/-- The fragments of content, and the state they leave besides the blocks. -/
def contentFragments (state : OllamaStreamState) :
    Option Text → OllamaStreamState × List OllamaFragment
  | none => (state, [])
  | some content =>
    let (state, content) := state.dropSentinel content
    let (splitter, segments) := state.thinkSplitter.push content
    ({ state with thinkSplitter := splitter }, segments.map .segment)

/-- The fragments of an object, and the state they leave besides the blocks. -/
def fragments (state : OllamaStreamState) (obj : Json) :
    OllamaStreamState × List OllamaFragment :=
  let (state, said) := state.contentFragments (content obj)
  (state, OllamaBlocks.thinkingFragments (thinking obj) ++ said ++
    ((toolCalls obj).getD []).map .call)

variable {env : OllamaEnv} {state : OllamaStreamState}

theorem dropSentinel_blocks (blocks : OllamaBlocks) (content : Text) :
    { state with blocks }.dropSentinel content =
      ({ (state.dropSentinel content).1 with blocks }, (state.dropSentinel content).2) := by
  rw [dropSentinel, dropSentinel]
  split
  · rfl
  · split
    · rfl
    · rfl

theorem onContent_eq (blocks : OllamaBlocks) (content : Option Text) :
    { state with blocks }.onContent content =
      ({ (state.contentFragments content).1 with
          blocks := (emits (OllamaBlocks.onFragment env) blocks
            (state.contentFragments content).2).1 },
        (emits (OllamaBlocks.onFragment env) blocks (state.contentFragments content).2).2) := by
  cases content with
  | none => rfl
  | some content =>
    simp only [onContent, contentFragments, emitSegments, dropSentinel_blocks,
      @OllamaBlocks.emits_segments env]

/-- What an object brings is translated fragment by fragment. -/
theorem onMessage_eq (obj : Json) : state.onMessage env obj =
    ({ (state.fragments obj).1 with
        blocks := (emits (OllamaBlocks.onFragment env) state.blocks (state.fragments obj).2).1 },
      (emits (OllamaBlocks.onFragment env) state.blocks (state.fragments obj).2).2) := by
  simp only [onMessage, fragments, @OllamaBlocks.onThinking_eq env, @onContent_eq env,
    OllamaBlocks.onCalls_eq, emits_append, List.append_assoc]

/-- The fragments that the end of a message releases. -/
def flushFragments (state : OllamaStreamState) : List OllamaFragment :=
  state.thinkSplitter.finish.2.map .segment

theorem flushContent_eq : state.flushContent =
    ({ state with
        thinkSplitter := state.thinkSplitter.finish.1
        blocks := (emits (OllamaBlocks.onFragment env) state.blocks state.flushFragments).1 },
      (emits (OllamaBlocks.onFragment env) state.blocks state.flushFragments).2) := by
  simp only [flushContent, flushFragments, emitSegments, @OllamaBlocks.emits_segments env]

end OllamaStreamState

end Nanna.Llm
