import Mathlib.Data.List.Sort
import Mathlib.Logic.Function.Basic
import Nanna.Lib.Bytes
import Nanna.Lib.Json
import Nanna.Lib.Streak

/-!
# The repetition breakers

A tool call that has failed three times in a row, or succeeded three times in a row with the same
content, is refused until a successful side-effecting call has changed the world. The streaks of all
call shapes are in one ledger of the run; the calls of a batch are decided on the ledger before it, run in
parallel, and are then noted one after another.
-/

namespace Nanna.Loop

open Nanna.Lib

/-- What the bookkeeping takes from outside: how a JSON string and a number are printed, and the hash of a
result. -/
structure RepeatEnv where
  quote : Text → Text
  showNumber : JsonNumber → Text
  resultContentHash : Text → UInt64

variable (env : RepeatEnv)

/-! ## Call shapes -/

/-- Blank runs collapse and blank lines drop out. -/
def normalizeCallText (text : Text) : Text :=
  let lines := (text.splitOn '\n').map fun line =>
    [' '].intercalate ((line.splitOnP Text.isWhitespace).filter (· ≠ []))
  ['\n'].intercalate (lines.filter (· ≠ []))

def isArtifactField (key : String) : Bool :=
  key ∈ ["content", "old_string", "new_string", "old_str", "new_str"]

mutual

/-- JSON with its keys sorted; what is under an artifact field is not normalized. -/
def canonicalJson (normalize : Bool) : Json → Text
  | .null => "null".toList
  | .bool b => (toString b).toList
  | .num n => env.showNumber n
  | .str s => env.quote (if normalize then normalizeCallText s.toList else s.toList)
  | .arr items => '[' :: [','].intercalate (canonicalItems normalize items) ++ [']']
  | .obj members =>
    let sorted := (canonicalMembers normalize members).insertionSort fun a b => a.1 ≤ b.1
    "\x7b".toList ++ [','].intercalate (sorted.map fun member =>
      env.quote member.1.toList ++ ':' :: member.2) ++ "\x7d".toList

def canonicalItems (normalize : Bool) : List Json → List Text
  | [] => []
  | item :: items => canonicalJson normalize item :: canonicalItems normalize items

def canonicalMembers (normalize : Bool) : List (String × Json) → List (String × Text)
  | [] => []
  | (key, value) :: members =>
    (key, canonicalJson (normalize && !isArtifactField key) value) :: canonicalMembers normalize members

end

def repeatCallKey (name : Text) (input : Json) : Text :=
  name ++ Char.ofNat 0x1f :: canonicalJson env true input

def isWriteTool (name : Text) : Bool :=
  name ∈ ["write_file", "write", "Write", "create_tool", "file_buffer"].map String.toList

/-- The tools whose success changes the world. -/
def isWorkEvidenceTool (name : Text) : Bool :=
  isWriteTool name || decide (name ∈ ["edit_file", "edit", "Edit", "exec", "bash", "Bash"].map String.toList)

/-! ## The ledger -/

structure RepeatCallState where
  failureCount : Nat := 0
  lastError : Text := []
  identicalSuccessCount : Nat := 0
  lastSuccessHash : Option UInt64 := none
  lastSuccessExcerpt : Text := []
  lastSuccessLen : Nat := 0
  lastExecutionEpoch : Nat := 0

structure RepeatLedger where
  inner : Text → Option RepeatCallState := fun _ => none
  /-- How many successful side-effecting calls the run has seen. -/
  epoch : Nat := 0

structure ToolOutcome where
  success : Bool
  content : Text
  error : Option Text
deriving DecidableEq

/-- A call of a batch: the notice of the discovery guard, which is not modelled here, if it stops the call,
and the result that the call has if it is executed. -/
structure ToolCall where
  name : Text
  input : Json
  paused : Option Text := none
  result : ToolOutcome
deriving DecidableEq

def ToolCall.shape (call : ToolCall) : Text := repeatCallKey env call.name call.input

/-- A successful side-effecting call. -/
def ToolCall.changesWorld (call : ToolCall) : Bool :=
  call.result.success && isWorkEvidenceTool call.name

def breakerReplayMaxBytes : Nat := 2000

/-- The entry of a shape after an execution. -/
def RepeatCallState.note (entry : RepeatCallState) (result : ToolOutcome) (epoch : Nat) :
    RepeatCallState :=
  if result.success then
    let hash := env.resultContentHash result.content
    if entry.lastSuccessHash = some hash then
      -- the replay is stored on the first repeat
      let first := entry.lastSuccessExcerpt = []
      { entry with
        failureCount := 0
        lastError := []
        identicalSuccessCount := entry.identicalSuccessCount + 1
        lastSuccessExcerpt :=
          if first then result.content.takeBytes breakerReplayMaxBytes else entry.lastSuccessExcerpt
        lastSuccessLen := if first then result.content.byteLen else entry.lastSuccessLen
        lastExecutionEpoch := epoch }
    else
      { failureCount := 0, identicalSuccessCount := 1, lastSuccessHash := some hash
        lastExecutionEpoch := epoch }
  else
    { failureCount := entry.failureCount + 1
      lastError := result.error.getD "Unknown error".toList
      lastExecutionEpoch := epoch }

/-- `note_repeat_call_outcome`, for a call that was executed. -/
def noteRepeatCallOutcome (ledger : RepeatLedger) (call : ToolCall) : RepeatLedger :=
  let epoch := if call.changesWorld then ledger.epoch + 1 else ledger.epoch
  let key := call.shape env
  let entry := (ledger.inner key).getD {}
  { inner := Function.update ledger.inner key (some (entry.note env call.result epoch)), epoch }

/-! ## The breakers -/

def repeatFailureBreakerAfter : Nat := 3

def zeroInfoBreakerAfter : Nat := 3

/-- Why a call is not executed. -/
inductive Refusal where
  | discoveryPaused (notice : Text)
  | repeatFailure (failures : Nat) (lastError : Text)
  | zeroInformation (repeats : Nat) (excerpt : Text) (fullLen : Nat)
deriving DecidableEq

/-- The entry of `breaker_notices` for one call. -/
def breakerNotice (ledger : RepeatLedger) (call : ToolCall) : Option Refusal :=
  match call.paused with
  | some notice => some (.discoveryPaused notice)
  | none =>
    (ledger.inner (call.shape env)).bind fun entry =>
      -- a changed world grants one execution
      if entry.lastExecutionEpoch ≠ ledger.epoch then none
      else if repeatFailureBreakerAfter ≤ entry.failureCount then
        some (.repeatFailure entry.failureCount entry.lastError)
      else if zeroInfoBreakerAfter ≤ entry.identicalSuccessCount then
        some (.zeroInformation entry.identicalSuccessCount entry.lastSuccessExcerpt
          entry.lastSuccessLen)
      else none

def taskAnchorMaxBytes : Nat := 200

def anchorHeader (taskAnchor : Option Text) : Text :=
  match (taskAnchor.map Text.trim).filter (· ≠ []) with
  | none => []
  | some task =>
    let cut := Text.takeBytes taskAnchorMaxBytes task
    "[HARNESS NOTE — you are mid-task: ".toList ++ cut ++
      (if cut.byteLen < Text.byteLen task then "…".toList else []) ++ "]\n".toList

def steeringContinuation : Text :=
  ("Do not greet or ask for input. Continue the task above now: your next message must be a tool " ++
    "call or the task's final answer.").toList

def repeatFailureBreakerNotice (taskAnchor : Option Text) (name : Text) (failures : Nat)
    (lastError : Text) : Text :=
  let cut := lastError.takeBytes breakerReplayMaxBytes
  let replay := if cut.byteLen < lastError.byteLen then
      cut ++ ("… [error text truncated for replay — the full error was already shown each time the " ++
        "call actually ran]").toList
    else lastError
  anchorHeader taskAnchor ++
    "[REPEAT-FAILURE BREAKER] This call was NOT executed. \x60".toList ++ name ++
    ("\x60 with these arguments (re-spacing or re-indenting them is the same call, not a new one) " ++
      "already failed ").toList ++ (toString failures).toList ++
    " times in a row in this run; the last error was: ".toList ++ replay ++
    ("\nRepeating the identical call cannot succeed while nothing has changed, so this exact call is " ++
      "paused — it now fails instantly instead of re-running a known failure. It re-runs once after " ++
      "any successful write/edit/exec changes the world (fix the cause, then retry). Otherwise change " ++
      "the arguments or use a different tool: \x60").toList ++ name ++
    "\x60 itself still works, and any call with different arguments executes normally.\n".toList ++
    steeringContinuation

def zeroInfoBreakerNotice (taskAnchor : Option Text) (name : Text) (repeats : Nat) (excerpt : Text)
    (fullLen : Nat) : Text :=
  let replay := if excerpt.byteLen < fullLen then
      excerpt ++ ("… [result truncated for replay — the full result was already shown each time the " ++
        "call actually ran; the operation itself SUCCEEDED]").toList
    else excerpt
  anchorHeader taskAnchor ++
    "[ZERO-INFORMATION BREAKER] This call was NOT executed. \x60".toList ++ name ++
    ("\x60 with these arguments (re-spacing or re-indenting them is the same call, not a new one) " ++
      "already succeeded ").toList ++ (toString repeats).toList ++
    (" times in a row in this run with a byte-identical result every time — repeating it yields zero " ++
      "new information. The result is UNCHANGED; if you were polling for a change, this unchanged " ++
      "result IS your answer, delivered without re-running the call. The result you already " ++
      "have:\n").toList ++ replay ++
    ("\nAct on the result you already have, change the arguments (e.g. a cursor, offset, or different " ++
      "target), or use a different tool; this exact call is paused until its arguments change or a " ++
      "successful write/edit/exec changes the world (then it re-runs once). \x60").toList ++ name ++
    "\x60 itself still works, and any call with different arguments executes normally.\n".toList ++
    steeringContinuation

/-- What the model is told instead of a result. -/
def Refusal.notice (taskAnchor : Option Text) (name : Text) : Refusal → Text
  | discoveryPaused notice => notice
  | repeatFailure failures lastError => repeatFailureBreakerNotice taskAnchor name failures lastError
  | zeroInformation repeats excerpt fullLen =>
    zeroInfoBreakerNotice taskAnchor name repeats excerpt fullLen

/-- The calls of a batch that are executed. -/
def executedCalls (ledger : RepeatLedger) (batch : List ToolCall) : List ToolCall :=
  batch.filter fun call => (breakerNotice env ledger call).isNone

/-! ## Runs -/

/-- A run of batches so far: the ledger, and what each batch executed. -/
structure RepeatRun where
  ledger : RepeatLedger := {}
  executed : List (List ToolCall) := []

/-- One batch: decided on the ledger before it, noted in list order. -/
def executeTools (run : RepeatRun) (batch : List ToolCall) : RepeatRun :=
  let calls := executedCalls env run.ledger batch
  ⟨calls.foldl (noteRepeatCallOutcome env) run.ledger, run.executed ++ [calls]⟩

def runBatches (run : RepeatRun) (batches : List (List ToolCall)) : RepeatRun :=
  batches.foldl (executeTools env) run

end Nanna.Loop
