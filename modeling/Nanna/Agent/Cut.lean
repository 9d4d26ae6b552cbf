import Nanna.Agent.Context

/-!
# The cuts

The operations that make a context smaller: truncation to the hard limit, dropping the oldest,
replacement by a summary, the compression of older tool results and the compression of the whole
older part. What a model answers is an argument.
-/

namespace Nanna.Agent

open Nanna.Lib

namespace AgentContext

variable (env : ContextEnv) (ctx : AgentContext)

/-! ## The room for the preamble -/

/-- The tokens of the pinned message. -/
def stepFrameTokens : Nat :=
  match ctx.live with
  | none => 0
  | some msg => estimateMessageTokens env msg

def preambleRoomTarget : Nat :=
  ctx.hardLimit -
    (env.estimateTokens ctx.systemPrompt + ctx.stepFrameTokens env + ctx.maxObservedGrowth)

def preambleStarved : Bool := decide (ctx.preambleRoomTarget env < ctx.preambleTokens env)

def elisionNotice (elided : Nat) : Text :=
  (s!"[{elided} chars of this summary were elided to make room for the live " ++
    "request. WHY: the summary had grown past the space the conversation " ++
    "itself needs. Everything it described already happened and SUCCEEDED — " ++
    "files on disk are the ground truth.]\n").toList

def elisionMarker : Text := "\n[...elided...]\n".toList

/-- The length of the notice and the marker, with nine digits for the count. -/
def noticeReserve : Nat := (elisionNotice 999999999).byteLen + elisionMarker.byteLen

/-- The head and the tail of the summary, with the notice before them. -/
def elidedSummary (summary : Text) (allowedChars : Nat) : Text :=
  let half := (allowedChars - noticeReserve) / 2
  let head := summary.takeBytes (min half summary.byteLen)
  let tail := summary.dropBytes (summary.byteLen - half)
  -- the two halves may not meet
  let tail := if head.byteLen < summary.byteLen - tail.byteLen then tail else []
  let elided := summary.byteLen - head.byteLen - tail.byteLen
  elisionNotice elided ++ head ++ elisionMarker ++ tail

/-- The context, and whether the summary was changed. -/
def elidePreambleToFit : AgentContext × Bool :=
  if ¬ ctx.preambleStarved env then (ctx, false)
  else
    match ctx.consolidatedSummary with
    | none => (ctx, false)
    | some summary =>
      let overhead := ctx.preambleTokens env - env.estimateTokens summary
      let allowedTokens := ctx.preambleRoomTarget env - overhead
      let allowedChars := env.charsForTokens allowedTokens
      if summary.byteLen ≤ allowedChars then (ctx, false)
      else
        let replacement := elidedSummary summary allowedChars
        if summary.byteLen ≤ replacement.byteLen then (ctx, false)
        else ({ ctx with consolidatedSummary := some replacement }, true)

/-! ## Truncation -/

/-- Drop the oldest while the context is over the limit and has more than `keep` messages; the
second component counts. One of the `rounds` is spent on each message. -/
def dropWhileOver (keepTail keep : Nat) : Nat → AgentContext × Nat → AgentContext × Nat
  | 0, state => state
  | rounds + 1, (ctx, removed) =>
    if ctx.exceedsHardLimit env ∧ keep < ctx.messages.length then
      match ctx.oldestRemovable keepTail with
      | none => (ctx, removed)
      | some victim => dropWhileOver keepTail keep rounds (ctx.removeMessage victim, removed + 1)
    else (ctx, removed)

def minBlockChars : Nat := 100

def truncationNotice (chars : Nat) : Text :=
  s!"\n\n[... truncated {chars} chars to fit context limit ...]".toList

def truncateText (maxBlockChars : Nat) (content : Text) : Text :=
  if maxBlockChars < content.byteLen then
    let truncated := content.takeBytes maxBlockChars
    truncated ++ truncationNotice (content.byteLen - truncated.byteLen)
  else content

def truncateBlock (maxBlockChars : Nat) : ContentBlock → ContentBlock
  | .toolResult id content isError => .toolResult id (truncateText maxBlockChars content) isError
  | .text text => .text (truncateText maxBlockChars text)
  | block => block

def truncateMessage (maxBlockChars : Nat) (msg : Message) : Message :=
  { msg with content := msg.content.map (truncateBlock maxBlockChars) }

def isOversized : ContentBlock → Bool
  | .toolResult _ content _ => decide (minBlockChars < content.byteLen)
  | .text text => decide (minBlockChars < text.byteLen)
  | _ => false

/-- The room for messages, shared by the oversized blocks. -/
def maxBlockChars : Nat :=
  let budgetChars :=
    env.charsForTokens (ctx.messageHardLimit env - env.estimateTokens ctx.systemPrompt)
  let oversized := max ((ctx.messages.flatMap (·.content)).countP isOversized) 1
  max (budgetChars / oversized) minBlockChars

def truncateLargeContentBlocks : AgentContext :=
  { ctx with messages := ctx.messages.map (truncateMessage (ctx.maxBlockChars env)) }

/-- `truncate_to_limit` up to the shrinking in place. -/
def dropToLimit : AgentContext × Nat :=
  let ctx := if ctx.exceedsHardLimit env then (ctx.elidePreambleToFit env).1 else ctx
  let state := dropWhileOver env 1 2 ctx.messages.length (ctx, 0)
  -- still over: the tail goes too, but not the request itself
  dropWhileOver env 0 1 state.1.messages.length state

/-- `truncate_to_limit`: the context and the number of messages removed. -/
def truncateToLimit : AgentContext × Nat :=
  let (ctx, removed) := ctx.dropToLimit env
  if ctx.exceedsHardLimit env ∧ ctx.messages ≠ [] then
    (ctx.truncateLargeContentBlocks env, removed)
  else (ctx, removed)

/-! ## Dropping and replacing -/

/-- Remove the messages at ascending positions, the highest first. -/
def removeAll (victims : List Nat) : AgentContext := victims.reverse.foldl removeMessage ctx

/-- The first text under the existing one. -/
def appendSummary (note : Text) (addition : Text) : Text :=
  match ctx.consolidatedSummary with
  | none => addition
  | some existing => existing ++ note ++ addition

def preview (limit : Nat) (content : Text) : Text :=
  if limit < content.byteLen then content.takeBytes limit ++ "...".toList else content

/-- What the drop note says of a block. -/
def droppedPart (role : Text) : ContentBlock → Option Text
  | .text text => some ("[".toList ++ role ++ "]: ".toList ++ preview 100 text)
  | .toolUse _ name _ =>
    some ("[".toList ++ role ++ "]: [tool call: ".toList ++ name ++ "]".toList)
  | .toolResult _ content _ => some ("[tool result]: ".toList ++ preview 80 content)
  | _ => none

def dropNote (dropped : List Message) : Text :=
  let parts := dropped.flatMap fun msg => msg.content.filterMap (droppedPart msg.role)
  (s!"[{dropped.length} older messages dropped to free context space. " ++
    "Key fragments:\n").toList ++ "\n".toList.intercalate parts ++ "]".toList

/-- The positions before `cutoff` but for the pinned one. -/
def unpinned (cutoff : Nat) : List Nat := (List.range cutoff).filter (· ≠ ctx.pinnedIndex)

/-- `drop_oldest`: the context and the number of messages dropped. -/
def dropOldest (keepRecent : Nat) : AgentContext × Nat :=
  if ctx.messages.length ≤ keepRecent + 1 then (ctx, 0)
  else
    let victims := ctx.unpinned (ctx.messages.length - keepRecent)
    if victims.length = 0 then (ctx, 0)
    else
      let note := dropNote (victims.filterMap fun i => ctx.messages[i]?)
      let ctx :=
        { ctx with consolidatedSummary := some (ctx.appendSummary "\n\n---\n\n".toList note) }
      (ctx.removeAll victims, victims.length)

/-- The positions that `replace_with_summary` removes. -/
def victims (coveredMessages : Nat) : List Nat :=
  let keepCount := min 2 ctx.messages.length
  (ctx.unpinned (ctx.messages.length - keepCount)).take coveredMessages

def additionalContext (count : Nat) : Text :=
  s!"\n\n---\n\n[Additional context from {count} more messages:]\n".toList

/-- The text of a block that is hashed when its message is summarized away. -/
def hashedText : ContentBlock → Option Text
  | .text text => some text
  | .toolResult _ content _ => some content
  | _ => none

/-- The hashes of a block large enough to have meaningful chunks. -/
def blockHashes (block : ContentBlock) : List UInt64 :=
  match hashedText block with
  | none => []
  | some content => if dedupMinSize ≤ content.byteLen then chunkAndHash content else []

/-- The hashes of what is removed, and the summary that stands for it. -/
def recordSummary (victims : List Nat) (summary : Text) : AgentContext :=
  let removed := victims.filterMap fun i => ctx.messages[i]?
  let hashes := (removed.flatMap (·.content)).flatMap blockHashes
  { ctx with
    summarizedContentHashes :=
      hashes.foldl (fun known hash => known.insert hash) ctx.summarizedContentHashes
    consolidatedSummary := some (ctx.appendSummary (additionalContext victims.length) summary) }

/-- `replace_with_summary`: the context and the number of messages removed. -/
def replaceWithSummary (coveredMessages : Nat) (summary : Text) : AgentContext × Nat :=
  let victims := ctx.victims coveredMessages
  if 0 < victims.length then
    ((ctx.recordSummary victims summary).removeAll victims, victims.length)
  else (ctx, 0)

/-- `compress`, with the answer of the model: the context and the number of messages compressed. -/
def compress (keepRecent : Nat) (summary : Text) : AgentContext × Nat :=
  if ctx.messages.length ≤ keepRecent then (ctx, 0)
  else
    let splitPoint := ctx.messages.length - keepRecent
    let pinned := ctx.pinnedIndex
    let oldIndices := ctx.unpinned splitPoint
    let oldMessages := oldIndices.filterMap fun i => ctx.messages[i]?
    let kept := ((ctx.messages.take splitPoint).zipIdx.filter (·.2 = pinned)).map (·.1)
    let ctx :=
      { ctx with
        messages := kept ++ ctx.messages.drop splitPoint
        consolidatedSummary :=
          some (ctx.appendSummary (additionalContext oldMessages.length) summary) }
    (ctx.shiftPinAfterRemoval (oldIndices.countP (· < pinned)), oldMessages.length)

/-! ## Compression of older tool results -/

def compressedResultBanner : Text := "[COMPRESSED SUMMARY of an older tool result".toList

def compressedSlot (originalLen : Nat) (compressed : Text) : Text :=
  compressedResultBanner ++ (s!" ({originalLen} chars " ++
    "original). WHY: your context window is limited, and this older " ++
    "result was shortened to make room for current work — the tool call " ++
    "itself SUCCEEDED in full. The wording below is lossy shorthand, NOT " ++
    "the literal output; trust files on disk over this.]\n").toList ++ compressed

/-- Errors, results already compressed and short ones are left alone. -/
def compressBlock (minChars : Nat) (compressWith : Text → Option Text) :
    ContentBlock → ContentBlock
  | .toolResult id content isError =>
    if isError = some true ∨ compressedResultBanner.isPrefixOf content ∨
        content.byteLen < minChars then
      .toolResult id content isError
    else
      match compressWith content with
      | none => .toolResult id content isError
      | some compressed =>
        if content.byteLen ≤ compressed.byteLen then .toolResult id content isError
        else .toolResult id (compressedSlot content.byteLen compressed) isError
  | block => block

/-- The message at a position, if it is older than the recent ones and not pinned. -/
def compressMessage (minChars pinned cutoff : Nat) (compressWith : Nat → Nat → Text → Option Text)
    (entry : Message × Nat) : Message :=
  if entry.2 < cutoff ∧ entry.2 ≠ pinned then
    { entry.1 with
      content := entry.1.content.zipIdx.map fun (block, i) =>
        compressBlock minChars (compressWith entry.2 i) block }
  else entry.1

/-- `compress_older_tool_results`, where `compressWith` answers for the block at each position. -/
def compressOlderToolResults (keepRecent minChars : Nat)
    (compressWith : Nat → Nat → Text → Option Text) : AgentContext :=
  let cutoff := ctx.messages.length - keepRecent
  if ctx.messages.length ≤ keepRecent + 1 ∨ cutoff ≤ 1 then ctx
  else
    { ctx with
      messages :=
        ctx.messages.zipIdx.map (compressMessage minChars ctx.pinnedIndex cutoff compressWith) }

end AgentContext

end Nanna.Agent
