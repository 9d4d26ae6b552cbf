import Nanna.Lib.Utf8

/-!
# The context of an agent

`AgentContext` as far as it decides what a request carries: the messages with the pin on the live
request, the parts of the preamble (summary, distilled facts, verified outcomes), the limits, and
the hashes of what was summarized away. Token estimates and the share of known chunks are floating
point in the source; they are the functions of `ContextEnv`.

A cut looks for its victims through `oldestRemovable` and takes them with `removeMessage`, so the
pin is looked after in one place.
-/

namespace Nanna.Agent

open Nanna.Lib

/-! ## Messages -/

inductive ContentBlock
  | text (text : Text)
  | image
  /-- The input is its compact JSON. -/
  | toolUse (id name input : Text)
  | toolResult (toolUseId content : Text) (isError : Option Bool)
  | thinking (thinking : Text)
  deriving DecidableEq

structure Message where
  role : Text
  content : List ContentBlock
  deriving DecidableEq

namespace Message

def userText (text : Text) : Message := ⟨"user".toList, [.text text]⟩

def assistantText (text : Text) : Message := ⟨"assistant".toList, [.text text]⟩

end Message

structure VerifiedOutcome where
  subject : Text
  outcome : Text
  verifiedAt : Int
  times : Nat
  deriving DecidableEq

structure AgentContext where
  systemPrompt : Text
  messages : List Message
  maxMessages : Nat
  hardLimit : Nat
  consolidatedSummary : Option Text
  distilledFacts : Option Text
  verifiedOutcomes : List VerifiedOutcome
  maxObservedGrowth : Nat
  pendingLossNotices : List Text
  summarizedContentHashes : List UInt64
  pinnedRequest : Option Nat
  deriving DecidableEq

/-- What the source computes in floating point, and chrono's rendering of a time. -/
structure ContextEnv where
  estimateTokens : Text → Nat
  estimateCodeTokens : Text → Nat
  charsForTokens : Nat → Nat
  rfc3339 : Int → Text
  /-- `known / total ≥ DEDUP_THRESHOLD` -/
  mostlyDuplicate : Nat → Nat → Bool
  /-- `known / total * 100` with no digits after the point -/
  percent : Nat → Nat → Text
  percent_short : ∀ known total, known ≤ total → (percent known total).byteLen ≤ 3

namespace ContextEnv

def isCodeMarker (c : Char) : Bool := "\x7b\x7d[]();:_<>=|&*/\\#@$`".toList.contains c

/-- Four characters to a token, seven to two in code, and one for each wide character. -/
def estimate (code : Bool) (text : Text) : Nat :=
  if text = [] then 0
  else
    let ascii := text.countP (·.val < 128)
    let wide := text.length - ascii
    let asciiTokens := if code then (2 * ascii + 6) / 7 else (ascii + 3) / 4
    max (asciiTokens + wide) 1

/-- Eight code markers in a hundred ASCII characters make code. -/
def looksLikeCode (text : Text) : Bool :=
  let ascii := text.countP (·.val < 128)
  decide (0 < ascii ∧ 8 ≤ text.countP isCodeMarker * 100 / ascii)

/-- A share in percent, rounded to the nearest number. -/
def roundedPercent (known total : Nat) : Nat := (200 * known + total) / (2 * total)

theorem roundedPercent_le {known total : Nat} (h : known ≤ total) :
    roundedPercent known total ≤ 100 := by
  unfold roundedPercent
  rcases Nat.eq_zero_or_pos total with rfl | hpos
  · simp
  · refine Nat.lt_succ_iff.mp ((Nat.div_lt_iff_lt_mul (by omega)).mpr ?_)
    omega

theorem byteLen_repr_le : ∀ n ≤ 100, Text.byteLen (toString n).toList ≤ 3 := by
  decide

/-- The functions of the source in exact arithmetic, which is theirs on texts of fewer than four
million characters. -/
def exact : ContextEnv where
  estimateTokens text := estimate (looksLikeCode text) text
  estimateCodeTokens := estimate true
  charsForTokens tokens := tokens * 7 / 2
  rfc3339 time := (toString time).toList
  mostlyDuplicate known total := decide (7 * total ≤ 10 * known)
  percent known total := (toString (roundedPercent known total)).toList
  percent_short _ _ h := byteLen_repr_le _ (roundedPercent_le h)

end ContextEnv

/-! ## Content-defined chunks -/

namespace Chunk

@[irreducible] def targetChunkSize : Nat := 8192

/-- FNV-1a over the bytes of the content. -/
def hashContent (content : Text) : UInt64 :=
  content.asBytes.foldl (fun hash byte => (hash ^^^ byte.toUInt64) * 1099511628211)
    14695981039346656037

/-- `content.split_terminator(['.', '\n'])`: the piece after the last terminator counts only if
there is something in it. -/
def splitTerminator (content : Text) : List Text :=
  let pieces := content.splitOnP fun c => c == '.' || c == '\n'
  if pieces.getLast? = some [] then pieces.dropLast else pieces

/-- One sentence goes to the current chunk, or closes it. -/
def addSentence (state : List Text × Text) (sentence : Text) : List Text × Text :=
  let sentenceWithTerm :=
    if sentence.getLast? = some '\n' then sentence else sentence ++ ".".toList
  if targetChunkSize < state.2.byteLen + sentenceWithTerm.byteLen ∧ state.2 ≠ [] then
    (state.1 ++ [state.2], sentenceWithTerm)
  else (state.1, state.2 ++ sentenceWithTerm)

def splitOnBoundaries (content : Text) : List Text :=
  let (chunks, current) := (splitTerminator content).foldl addSentence ([], [])
  if current ≠ [] then chunks ++ [current] else chunks

end Chunk

def chunkAndHash (content : Text) : List UInt64 :=
  (Chunk.splitOnBoundaries content).map Chunk.hashContent

@[irreducible] def dedupMinSize : Nat := 4000

/-! ## The preamble -/

namespace AgentContext

def verifiedSubjectPreviewChars : Nat := 120

/-- The first line of a subject, cut for display. -/
def verifiedSubjectPreview (subject : Text) : Text :=
  let firstLine : Text := subject.takeWhile (· ≠ '\n')
  -- a carriage return goes with the line feed after it
  let firstLine : Text :=
    if firstLine ≠ subject ∧ firstLine.getLast? = some '\r' then firstLine.dropLast else firstLine
  let shown : Text := Text.takeBytes (min verifiedSubjectPreviewChars firstLine.byteLen) firstLine
  let hidden := subject.byteLen - shown.byteLen
  if hidden = 0 then shown
  else shown ++ s!" …[+{hidden} chars]".toList

def outcomeLine (env : ContextEnv) (outcome : VerifiedOutcome) : Text :=
  let when_ :=
    if outcome.verifiedAt ≤ 0 then "time not recorded".toList else env.rfc3339 outcome.verifiedAt
  "- ".toList ++ verifiedSubjectPreview outcome.subject ++ " → ".toList ++ outcome.outcome ++
    s!" (×{outcome.times}, last verified ".toList ++ when_ ++ ")\n".toList

variable (env : ContextEnv) (ctx : AgentContext)

def verifiedOutcomesBlock : Option Text :=
  if ctx.verifiedOutcomes.isEmpty then none
  else
    some (("<verified_outcomes>\nFacts proven by EXECUTION during this session — each " ++
      "line is a command that actually ran and the exit status the environment " ++
      "returned. This list is exact (not a summary), is never compressed, and " ++
      "outlives every summarization pass. Trust it over any summary above; do NOT " ++
      "re-do or rewrite work these lines already prove.\n").toList ++
      (ctx.verifiedOutcomes.map (outcomeLine env)).flatten ++ "</verified_outcomes>".toList)

/-- The summary and the distilled facts, which are told apart from what is exact. -/
def lossy : Text :=
  let summary := ctx.consolidatedSummary.getD []
  match ctx.distilledFacts with
  | none => summary
  | some facts =>
    summary ++ (if summary ≠ [] then "\n\n".toList else []) ++ "[DISTILLED FACTS]\n".toList ++ facts

def contextPreamble : Option Text :=
  let previous : List Text :=
    if ctx.lossy ≠ [] then
      [("<previous_context>\nThe following is a COMPRESSED SUMMARY of earlier " ++
        "conversation. WHY: the conversation grew longer than your context window " ++
        "can hold, so older messages were condensed to make room to keep working. " ++
        "Everything it describes already happened and SUCCEEDED unless it explicitly " ++
        "says otherwise — no work was lost. It is lossy shorthand, not literal " ++
        "messages: files on disk and recent tool results are the ground truth over " ++
        "anything here.\n\n").toList ++ ctx.lossy ++ "\n</previous_context>".toList]
    else []
  let sections := previous ++ (ctx.verifiedOutcomesBlock env).toList
  if sections.isEmpty then none else some ("\n\n".toList.intercalate sections)

def preambleAck : Text :=
  "I understand the previous context. How can I help you continue?".toList

/-! ## Loss notices -/

def summarizationFailureNotice (droppedMessages : Nat) (reason : Text) : Text :=
  ("[CONTEXT NOTICE — history shortened WITHOUT summarization]\n" ++
    s!"WHAT: {droppedMessages} older conversation message(s) were dropped " ++
    "from your in-memory context with no summary standing in for them.\nWHY: ").toList ++ reason ++
    (".\nDisk is unaffected: every file write and command in the dropped " ++
    "messages already ran and SUCCEEDED unless it said otherwise at the " ++
    "time. Files on disk are the ground truth — re-read them if unsure; " ++
    "do NOT restart or rewrite work just because history looks short.").toList

/-- Nothing is announced when nothing was dropped. -/
def pushSummarizationFailureNotice (droppedMessages : Nat) (reason : Text) : AgentContext :=
  if droppedMessages = 0 then ctx
  else
    { ctx with
      pendingLossNotices :=
        ctx.pendingLossNotices ++ [summarizationFailureNotice droppedMessages reason] }

/-! ## Token estimates -/

def blockTokens (env : ContextEnv) : ContentBlock → Nat
  | .text text => env.estimateTokens text
  | .toolUse _ _ input => env.estimateCodeTokens input + 50
  | .toolResult _ content _ => env.estimateTokens content + 20
  | .image => 1000
  | .thinking thinking => env.estimateTokens thinking

def estimateMessageTokens (msg : Message) : Nat := (msg.content.map (blockTokens env)).sum

/-- The system prompt and the messages. -/
def estimateTokens : Nat :=
  env.estimateTokens ctx.systemPrompt + (ctx.messages.map (estimateMessageTokens env)).sum

def preambleTokens : Nat :=
  match ctx.contextPreamble env with
  | none => 0
  | some preamble => env.estimateTokens preamble + env.estimateTokens preambleAck

/-- The room for messages once the preamble is paid for. -/
def messageHardLimit : Nat := ctx.hardLimit - ctx.preambleTokens env

def exceedsHardLimit : Bool := decide (ctx.messageHardLimit env < ctx.estimateTokens env)

/-! ## The pin -/

/-- The message just pushed carries the live request. -/
def pinLiveRequest : AgentContext :=
  { ctx with
    pinnedRequest := if ctx.messages.length = 0 then none else some (ctx.messages.length - 1) }

def pinnedIndex : Nat :=
  if ctx.messages.isEmpty then 0
  else min (ctx.pinnedRequest.getD 0) (ctx.messages.length - 1)

def shiftPinAfterRemoval (removedBeforePin : Nat) : AgentContext :=
  { ctx with pinnedRequest := ctx.pinnedRequest.map (· - removedBeforePin) }

/-- The first message that is neither pinned nor among the last `keepTail`. -/
def oldestRemovable (keepTail : Nat) : Option Nat :=
  (List.range (ctx.messages.length - keepTail)).find? (· ≠ ctx.pinnedIndex)

/-- The pin stays on its message. -/
def removeMessage (index : Nat) : AgentContext :=
  if ctx.messages.length ≤ index then ctx
  else
    { ctx with
      messages := ctx.messages.eraseIdx index
      pinnedRequest := ctx.pinnedRequest.map fun pinned =>
        if index < pinned then pinned - 1 else pinned }

/-- The pinned message. -/
def live : Option Message := ctx.messages[ctx.pinnedIndex]?

/-! ## Adding messages -/

/-- `trim_if_needed`, with a round to spare for each message. -/
def trimRounds : Nat → AgentContext → AgentContext
  | 0, ctx => ctx
  | rounds + 1, ctx =>
    if ctx.maxMessages < ctx.messages.length then
      match ctx.oldestRemovable 0 with
      | none => ctx
      | some victim => trimRounds rounds (ctx.removeMessage victim)
    else ctx

def trimIfNeeded : AgentContext := trimRounds ctx.messages.length ctx

/-- `ctx.messages.push(..)`, as the agent loop does. -/
def push (msg : Message) : AgentContext := { ctx with messages := ctx.messages ++ [msg] }

def addUserMessage (content : Text) : AgentContext :=
  (ctx.push (.userText content)).trimIfNeeded

def addAssistantMessage (content : Text) : AgentContext :=
  (ctx.push (.assistantText content)).trimIfNeeded

end AgentContext

end Nanna.Agent
