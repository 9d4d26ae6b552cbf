import Nanna.Agent.Request
import Nanna.Loop.Assembler

/-!
# One run of the agent loop

A run goes from iteration to iteration; within one, a request is made of the context, the reply is
assembled and stored, and its calls are executed, unless the iteration leaves by one of its exits.
`Round` is all that an iteration meets from outside: the readings of the cancel token and of the clocks,
the cuts of the compression ladder, the reply, what the registry makes of calls written as prose, and
what the detectors and the tools say. Which exit is taken, and what is stored before it, is the
code's.

`stored` keeps every message that the run has put into the context, in order. The context itself loses
messages to the cuts.
-/

namespace Nanna.Loop

open Nanna.Lib Nanna.Llm
open Nanna.Agent (AgentContext ContextEnv Message)
open Nanna.Agent.AgentContext (CutOp)

/-- What the loop takes from outside: the JSON parser, the form in which the arguments of a call are
stored under a limit of the context, and the token estimates. -/
structure TurnEnv where
  parse : Text → Option Json
  storedInput : Nat → Text → Json → Text
  context : ContextEnv

/-- The id, the name and the arguments of a call. -/
abbrev ToolUse := Text × Text × Json

/-! ## Replies -/

structure LlmResult where
  text : Text := []
  toolUses : List ToolUse := []
  contentBlocks : List ContentBlock := []
  errorToolResults : List ContentBlock := []

def toolUseOf : ContentBlock → Option ToolUse
  | .toolUse id name input => some (id, name, input)
  | _ => none

/-- What comes of a call of the model. -/
inductive Reply where
  /-- The events up to the end of the stream, the cancellation or an abort, which adds a notice. -/
  | streamed (events : List StreamEvent) (notice : Text)
  | whole (blocks : List ContentBlock)
  /-- The request is dropped because the run is cancelled. -/
  | dropped

/-- `call_llm_streaming`, `call_llm_sync`. -/
def Reply.result (env : TurnEnv) : Reply → LlmResult
  | .streamed events notice =>
    let asm := StreamBlockAssembler.assemble env.parse events
    { text := asm.text ++ notice
      toolUses := asm.toolUses
      contentBlocks := asm.contentBlocks
      errorToolResults := asm.errorToolResults }
  | .whole blocks =>
    { text := (blocks.filterMap ContentBlock.asText).flatten
      toolUses := blocks.filterMap toolUseOf
      contentBlocks := blocks }
  | .dropped => {}

def Reply.streamedText : Reply → Text
  | .streamed events _ => events.flatMap textAt
  | _ => []

/-! ## The run -/

structure WrapUp where
  engaged : Bool := false
  truncated : Bool := false

structure RunState where
  context : AgentContext
  finalText : Text := []
  streamedText : Text := []
  wrapUp : WrapUp := {}
  /-- What the run has put into the context. -/
  stored : List Message := []

inductive RunExit where
  | respond (truncated : Bool)
  | cancelled
  | fail
  /-- On to the next iteration. -/
  | next
deriving DecidableEq

/-- New contents for the tool results of user messages, by position. -/
abbrev Rewrite := Nat → Nat → Text → Text

def rewriteBlock (f : Text → Text) : Agent.ContentBlock → Agent.ContentBlock
  | .toolResult id content isError => .toolResult id (f content) isError
  | block => block

def rewriteMessage (f : Nat → Text → Text) (msg : Message) : Message :=
  if msg.role = "user".toList then
    { msg with content := msg.content.zipIdx.map fun entry => rewriteBlock (f entry.2) entry.1 }
  else msg

/-- How the calls of a round end. -/
inductive Dispatch where
  /-- The token was set before the first call. -/
  | skipped
  /-- It was set before the last one returned. -/
  | interrupted
  /-- Each call has its result, or the notice that stands in for it. -/
  | ran (outcome : Nat → Text × Bool)

/-- What an iteration meets. -/
structure Round where
  cancelledAtStart : Bool := false
  wallClockSpent : Bool := false
  budgetWarning : Option Text := none
  /-- The instruction to report, past the cap of iterations. -/
  pastCap : Option Text := none
  anyRecords : Bool := false
  nudge : Option Text := none
  belowFloor : Bool := false
  ladder : List CutOp := []
  notices : List Text := []
  /-- The cuts after a rejection for the length of the context. -/
  overflow : List CutOp := []
  reply : Option Reply
  spiralNudge : Option Text := none
  budgetSpent : Bool := false
  fence : Text → Text := id
  /-- The calls written as prose that resolve to a tool. -/
  salvaged : List ToolUse := []
  evict : Rewrite := fun _ _ => id
  cancelledAfterReply : Bool := false
  dispatch : Dispatch := .ran fun _ => ([], true)
  salvageNotice : Text := []
  advanced : Bool := false
  /-- A notice for a degenerate reply, and whether the reply is taken back. -/
  steering : Option (Text × Bool) := none
  mission : Option Text := none
  callCapReached : Bool := false
  /-- The instruction to report, after iterations without information. -/
  exhausted : Option Text := none
  nudges : List Text := []
  deduplicate : Rewrite := fun _ _ => id

namespace RunState

variable (env : TurnEnv) (s : RunState)

def push (msg : Message) : RunState :=
  { s with context := s.context.push msg, stored := s.stored ++ [msg] }

def pushTexts (texts : List Text) : RunState := texts.foldl (fun s text => s.push (.userText text)) s

def cut (ops : List CutOp) : RunState :=
  { s with context := ops.foldl (AgentContext.cut env.context) s.context }

/-- `evict_referenced_tool_results`, `deduplicate_tool_results`. -/
def rewriteResults (f : Rewrite) : RunState :=
  { s with
    context :=
      { s.context with
        messages := s.context.messages.zipIdx.map fun entry => rewriteMessage (f entry.2) entry.1 } }

/-- `engage_wrap_up`. -/
def engageWrapUp (message : Text) (truncated : Bool) : RunState :=
  { s with wrapUp := ⟨true, truncated⟩ }.push (.userText message)

/-- `begin_iteration`, with the check of the context floor. -/
def beginIteration (round : Round) : Except (RunState × RunExit) RunState :=
  if round.cancelledAtStart then .error (s, .cancelled)
  else if round.wallClockSpent then .error (s, .respond true)
  else
    let s := s.pushTexts round.budgetWarning.toList
    let begun : Except (RunState × RunExit) RunState :=
      match round.pastCap with
      | none => .ok s
      | some message =>
        if ¬ s.wrapUp.engaged ∧ Text.trim s.finalText = [] ∧ round.anyRecords then
          .ok (s.engageWrapUp message true)
        else .error (s, .respond true)
    begun.bind fun s =>
      let s := s.pushTexts round.nudge.toList
      if round.belowFloor then .error (s, .fail) else .ok s

/-- `fence_fabricated_results` on a block. -/
def fenceBlock (fence : Text → Text) : ContentBlock → ContentBlock
  | .text t => .text (fence t)
  | block => block

/-- `salvage_prose_calls`: the result, and the calls that are added to it. -/
def salvageProseCalls (round : Round) (result : LlmResult) : LlmResult × List ToolUse :=
  if result.toolUses = [] ∧ result.errorToolResults = [] ∧ result.text ≠ [] then
    ({ result with
        text := round.fence result.text
        contentBlocks := result.contentBlocks.map (fenceBlock round.fence) ++
          round.salvaged.map fun use => .toolUse use.1 use.2.1 use.2.2 }, round.salvaged)
  else (result, [])

/-- An iteration up to the result that is stored. -/
def exchange (round : Round) : Except (RunState × RunExit) (RunState × LlmResult × List ToolUse) :=
  (s.beginIteration round).bind fun s =>
    let s := ((s.cut env round.ladder).pushTexts round.notices).cut env round.overflow
    match round.reply with
    | none => .error (s, if s.wrapUp.engaged then .respond s.wrapUp.truncated else .fail)
    | some reply =>
      let result := reply.result env
      let s := { s with streamedText := s.streamedText ++ reply.streamedText }
      if result.toolUses = [] ∧ result.text = [] ∧ round.spiralNudge ≠ none then
        .error (s.pushTexts round.spiralNudge.toList, .next)
      else if round.budgetSpent then .error (s, .respond true)
      else .ok (s, salvageProseCalls round result)

/-- A block as it is stored. -/
def storedBlock : ContentBlock → Agent.ContentBlock
  | .text t => .text t
  | .image _ => .image
  | .toolUse id name input => .toolUse id name (env.storedInput s.context.hardLimit name input)
  | .toolResult id content isError => .toolResult id content isError
  | .thinking thinking _ => .thinking thinking

/-- `store_assistant_response`. -/
def storeAssistantResponse (blocks : List ContentBlock) : RunState :=
  s.push ⟨"assistant".toList, blocks.map (s.storedBlock env)⟩

/-- `store_tool_results`. -/
def storeToolResults (results : List Agent.ContentBlock) : RunState := s.push ⟨"user".toList, results⟩

def skippedNotice : Text :=
  ("[Skipped: the user cancelled the run before this tool started. " ++
    "Nothing was executed.]").toList

def interruptedNotice : Text :=
  ("[Interrupted: the user cancelled the run while this tool was executing. The underlying " ++
    "operation may still have completed in the background; its output was discarded.]").toList

/-- `execute_tools`. -/
def executeTools (dispatch : Dispatch) (uses : List ToolUse) : List Agent.ContentBlock :=
  match dispatch with
  | .skipped => uses.map fun use => .toolResult use.1 skippedNotice (some true)
  | .interrupted => uses.map fun use => .toolResult use.1 interruptedNotice (some true)
  | .ran outcome =>
    uses.zipIdx.map fun entry =>
      .toolResult entry.1.1 (outcome entry.2).1 (if (outcome entry.2).2 then none else some true)

/-- `run_prose_salvage`; the exit, if the round advanced. -/
def runProseSalvage (round : Round) (uses : List ToolUse) : RunState × Option RunExit :=
  if uses = [] then (s, none)
  else
    let s := (s.storeToolResults (executeTools round.dispatch uses)).pushTexts [round.salvageNotice]
    (s, if round.advanced then some .next else none)

/-- `finish_tool_free_round`. -/
def finishToolFreeRound (round : Round) (uses : List ToolUse) : RunState × RunExit :=
  if s.wrapUp.engaged then (s, .respond s.wrapUp.truncated)
  else
    match s.runProseSalvage round uses with
    | (s, some exit) => (s, exit)
    | (s, none) =>
      match round.steering, round.mission with
      | some (notice, takenBack), _ =>
        ({ s with finalText := if takenBack then [] else s.finalText }.pushTexts [notice], .next)
      | none, some prod => (s.pushTexts [prod], .next)
      | none, none => (s, .respond false)

/-- `run_tool_round` and `after_tool_round`. -/
def runToolRound (round : Round) (result : LlmResult) : RunState × Option RunExit :=
  let results := executeTools round.dispatch result.toolUses ++
    result.errorToolResults.map (s.storedBlock env)
  let s := s.storeToolResults results
  if round.callCapReached then (s, some (.respond true))
  else
    match round.exhausted with
    | some reason => (s.engageWrapUp reason false, some .next)
    | none => ((s.pushTexts round.nudges).rewriteResults round.deduplicate, none)

/-- The reply is stored, the results it refers to are evicted, and its text is the run's. -/
def keepReply (round : Round) (result : LlmResult) : RunState :=
  let s := (s.storeAssistantResponse env result.contentBlocks).rewriteResults round.evict
  if result.text = [] then s else { s with finalText := result.text }

/-- An iteration from the result on. -/
def settle (round : Round) (result : LlmResult) (salvaged : List ToolUse) :
    RunState × Option RunExit :=
  let s := s.keepReply env round result
  if round.cancelledAfterReply then (s, some .cancelled)
  else if result.toolUses = [] ∧ result.errorToolResults = [] then
    ((s.finishToolFreeRound round salvaged).1, some (s.finishToolFreeRound round salvaged).2)
  else if s.wrapUp.engaged then (s, some (.respond s.wrapUp.truncated))
  else s.runToolRound env round result

def runIteration (round : Round) : RunState × Option RunExit :=
  match s.exchange env round with
  | .error (s, exit) => (s, some exit)
  | .ok (s, result, salvaged) => s.settle env round result salvaged

def cancelMarker : Text := "[Cancelled by user]".toList

def stopMarker : Text := "[Stopped by user]".toList

def isMarked (t : Text) : Prop := cancelMarker <:+: t ∨ stopMarker <:+: t

instance (t : Text) : Decidable (isMarked t) := inferInstanceAs (Decidable (_ ∨ _))

/-- The marker is in the last message already. -/
def markedLast (messages : List Message) : Bool :=
  match messages.getLast? with
  | some msg =>
    msg.role = "assistant".toList && msg.content.any fun
      | .text t => isMarked t
      | _ => false
  | none => false

/-- What was said so far, with the marker. -/
def cancelledText : Text :=
  let text := if s.finalText.byteLen < s.streamedText.byteLen then s.streamedText else s.finalText
  if isMarked text then text
  else if text ≠ [] ∧ text.getLast? ≠ some '\n' then text ++ "\n\n".toList ++ cancelMarker
  else text ++ cancelMarker

/-- `finish_cancelled`. -/
def finishCancelled : RunState :=
  let s := { s with finalText := s.cancelledText }
  if Text.trim s.finalText = [] ∨ markedLast s.context.messages then s
  else s.push (.assistantText s.finalText)

end RunState

/-- A run between two iterations, or returned. -/
inductive Phase where
  | running (s : RunState)
  | returned (s : RunState) (exit : RunExit)

def Phase.state : Phase → RunState
  | .running s => s
  | .returned s _ => s

/-- `run`: one iteration and what its exit comes to. -/
def runStep (env : TurnEnv) : Phase → Round → Option Phase
  | .running s, round =>
    some (match s.runIteration env round with
      | (s, none) => .running s
      | (s, some .next) => .running s
      | (s, some .cancelled) => .returned s.finishCancelled .cancelled
      | (s, some exit) => .returned s exit)
  | .returned .., _ => none

/-- `prepare_run`: the user's message joins the context. -/
def startRun (context : AgentContext) (message : Message) : Phase :=
  .running (RunState.push { context } message)

end Nanna.Loop
