import Nanna.Lib.Moves
import Nanna.Daemon.Mission

/-!
# The retry ladder of a step

A step is attempted up to four times on the model its run is on, and then on the next model of the run's chain, which
the runners of the run share.

The state is that of one run with the steps it has under way. A stretch of a step between two points where another
may come in between is an act. What is done to a model's server before a retry is not looked at: any answer may come.
-/

namespace Nanna.Daemon

open Nanna.Lib Nanna.Lib.Text Nanna.Harness

def stepLlmRetries : Nat := 3

/-- The outcome of an attempt, or the message of its error. -/
abbrev StepAnswer := Except Text StepOutcome

def isEmptyCompletion (outcome : StepOutcome) : Bool :=
  outcome.toolCalls.isEmpty && (trim outcome.text).isEmpty && outcome.outputTokens ≤ 8

def madeNoProgress (outcome : StepOutcome) : Bool := outcome.toolCalls.isEmpty && (trim outcome.text).isEmpty

def warrantsModelFallback (message : Text) : Bool :=
  isTransientLlmError message || message.contains "API error: 4".toList ||
    message.contains "No provider available for model".toList || message.contains "empty completion".toList

/-! ## What a retry is told -/

def noProgressNudge : Text :=
  ("\n\n[SYSTEM: your previous attempt at this step produced only reasoning — no tool call and no answer, so " ++
    "nothing changed. Do not think further about it. Either CALL A TOOL now (that is how work happens), or, if " ++
    "the step is genuinely already satisfied, reply with one short sentence saying so.]").toList

def controlCharTransportNote (character : Text) : Text :=
  ("\n\n[SYSTEM: the provider REJECTED the tool call you were generating — its JSON parser hit an invalid " ++
    "character (").toList ++ character ++
    (") inside a string argument, so that call never reached the tools and nothing from it ran. A raw control " ++
      "character cannot travel inside a tool-call argument. Two legal routes: (1) ESCAPE it in the JSON — write " ++
      "\\t for a tab and \\n for a newline inside the string argument, and the tool receives the real character; " ++
      "or (2) when the file content genuinely needs literal control bytes, call exec and let the shell produce " ++
      "them (printf 'a\\tb' > file, or a quoted heredoc: cat <<'EOF' > file). Re-issue the call one of those two " ++
      "ways.]").toList

structure ToolMarkSnapshot where
  name : Text
  secsAgo : Nat

/-- The lines of the calls that fit, and how many do not. -/
def carriedLines (budgetBytes : Nat) : Nat → List ToolMarkSnapshot → List Text
  | _, [] => []
  | used, mark :: marks =>
    let line : Text := "\n- ".toList ++ mark.name ++ " (".toList ++ natText mark.secsAgo ++ "s ago)".toList
    if budgetBytes < used + line.byteLen then
      let omitted := marks.length + 1
      ["\n- …and ".toList ++ natText omitted ++ " earlier call".toList ++ (if omitted = 1 then [] else ['s'])]
    else line :: carriedLines budgetBytes (used + line.byteLen) marks

def carriedSideEffectNote (marks : List ToolMarkSnapshot) (budgetBytes : Nat) (outputsRecallable : Bool) : Text :=
  if marks.isEmpty then []
  else
    let head : Text := "\n[SYSTEM: that attempt made ".toList ++ natText marks.length ++ " side-effecting tool call".toList ++
      (if marks.length = 1 then [] else ['s']) ++
        (" before it was cut, newest first — each one ran, and whatever it changed is already on disk:").toList
    let tail : Text :=
      if outputsRecallable then
        ("\nMost of what those calls produced was stored as it ran and may be readable out of your memory — reach " ++
          "the memory tools with discover_tools. Do not rely on it: read the artifact back off disk rather than " ++
          "assuming what a file now holds.]").toList
      else
        ("\nWhat those calls produced is not in this conversation any more — read the artifact back off disk before " ++
          "you write over it rather than assuming what it holds.]").toList
    head ++ (carriedLines budgetBytes (head.byteLen + tail.byteLen) marks).flatten ++ tail

/-- The calls on the ledger of the session, if it has one, when a step is sent again. -/
structure Carried where
  marks : List ToolMarkSnapshot
  budgetBytes : Nat
  outputsRecallable : Bool

def Carried.line (carried : Option Carried) : Text :=
  match carried with
  | none => []
  | some carried => carriedSideEffectNote carried.marks carried.budgetBytes carried.outputsRecallable

/-! ## Steps under way -/

structure Attempt where
  /-- Which model of the chain it was made on. -/
  place : Nat
  prompt : Text
  answer : StepAnswer

inductive Stage
  | asking
  | trying
  | failed
  /-- The ladder has returned an error. -/
  | gaveUp (err : Text)
  /-- The chain is to move from one place to another. -/
  | swapping (current next : Nat) (err : Text)
  | ended (result : Except Text StepOutcome)

structure StepCall where
  /-- The prompt that was asked for, and what it is by now. -/
  request : Text
  prompt : Text
  /-- The model of a runner that has no chain. -/
  own : Option Text
  cancelled : Bool
  stage : Stage
  model : Text
  place : Nat
  attempt : Nat
  sent : Text
  lastErr : Text
  nudgePending : Bool
  transientFault : Option Text
  parseFaultChar : Option Text
  attempts : List Attempt

namespace StepCall

def new (prompt : Text) (own : Option Text) : StepCall :=
  { request := prompt, prompt, own, cancelled := false, stage := .asking, model := [], place := 0, attempt := 0,
    sent := [], lastErr := [], nudgePending := false, transientFault := none, parseFaultChar := none, attempts := [] }

/-- `run_step_ladder` up to its first attempt. -/
def ask (call : StepCall) (model : Text) (place : Nat) : StepCall :=
  { call with
    stage := .trying, model, place, attempt := 0, sent := call.prompt, lastErr := [], nudgePending := false
    transientFault := none, parseFaultChar := none }

def failed (call : StepCall) (err : Text) : StepCall :=
  { call with lastErr := err, stage := if call.attempt < stepLlmRetries then .failed else .gaveUp err }

/-- An attempt has come back. -/
def reply (call : StepCall) (answer : StepAnswer) : StepCall :=
  let call := { call with attempts := { place := call.place, prompt := call.sent, answer } :: call.attempts }
  match answer with
  | .ok outcome =>
    if isEmptyCompletion outcome then
      call.failed "empty completion (no text, no tool calls, ~0 tokens) from provider".toList
    else if madeNoProgress outcome then
      { call.failed "no-progress step (reasoning only: no tool call, no answer)".toList with nudgePending := true }
    else { call with stage := .ended (.ok outcome) }
  | .error message =>
    if isTransientLlmError message then
      { call.failed message with
        transientFault := some (transientFaultKind message)
        parseFaultChar := (ollamaGenerationParseError message).or call.parseFaultChar }
    else { call with stage := .gaveUp message }

/-- The prompt of the next attempt. -/
def corrected (call : StepCall) (carried : Option Carried) : Text :=
  call.prompt ++ (if call.nudgePending then noProgressNudge else []) ++
    (match call.transientFault with
      | some fault => transientRetryNote (call.attempt + 2) fault ++ Carried.line carried
      | none => []) ++
      (match call.parseFaultChar with
        | some character => controlCharTransportNote character
        | none => [])

def retry (call : StepCall) (carried : Option Carried) : StepCall :=
  { call with stage := .trying, attempt := call.attempt + 1, sent := call.corrected carried }

/-- `run_step` goes on with the chain. -/
def fallBack (call : StepCall) (err : Text) (carried : Option Carried) : StepCall :=
  { call with
    stage := .asking
    prompt :=
      if isTransientLlmError err then
        call.prompt ++ transientRetryNote 1 (transientFaultKind err) ++ Carried.line carried
      else call.prompt }

def finish (call : StepCall) (err : Text) : StepCall := { call with stage := .ended (.error err) }

end StepCall

/-! ## A run -/

structure StepLadders where
  models : List Text
  active : Nat
  calls : List StepCall

namespace StepLadders

/-- `ModelChain::new` -/
def start (models : List Text) (served : Text → Bool) : StepLadders where
  models
  active := (models.findIdx? served).getD 0
  calls := []

inductive Act
  | call (prompt : Text) (own : Option Text)
  | ask (i : Nat)
  | reply (i : Nat) (answer : StepAnswer)
  | stop (i : Nat)
  /-- The back-off is over. -/
  | retry (i : Nat) (carried : Option Carried)
  | giveUp (i : Nat) (served : Text → Bool) (carried : Option Carried)
  | swap (i : Nat) (carried : Option Carried)

/-- The model that a step is sent to. -/
def modelFor (s : StepLadders) (call : StepCall) : Option (Text × Nat) :=
  match call.own with
  | some model => some (model, 0)
  | none => s.models[s.active]?.map fun model => (model, s.active)

def nextServed (s : StepLadders) (served : Text → Bool) : Option Nat :=
  (List.range' (s.active + 1) (s.models.length - (s.active + 1))).find? fun i => s.models[i]?.any served

def step (s : StepLadders) : Act → Option StepLadders
  | .call prompt own => some { s with calls := .new prompt own :: s.calls }
  | .ask i => do
    let (call, calls) ← pull s.calls i
    match call.stage with
    | .asking =>
      let (model, place) ← s.modelFor call
      some { s with calls := call.ask model place :: calls }
    | _ => none
  | .reply i answer => do
    let (call, calls) ← pull s.calls i
    match call.stage with
    | .trying => some { s with calls := call.reply answer :: calls }
    | _ => none
  | .stop i => do
    let (call, calls) ← pull s.calls i
    some { s with calls := { call with cancelled := true } :: calls }
  | .retry i carried => do
    let (call, calls) ← pull s.calls i
    match call.stage with
    | .failed =>
      if call.cancelled then some { s with calls := { call with stage := .gaveUp call.lastErr } :: calls }
      else some { s with calls := call.retry carried :: calls }
    | _ => none
  | .giveUp i served carried => do
    let (call, calls) ← pull s.calls i
    match call.stage with
    | .gaveUp err =>
      if call.own.isSome || call.cancelled || !warrantsModelFallback err then
        some { s with calls := call.finish err :: calls }
      else
        let current ← s.models[s.active]?
        if current ≠ call.model then some { s with calls := call.fallBack err carried :: calls }
        else
          match s.nextServed served with
          | none => some { s with calls := call.finish err :: calls }
          | some next => some { s with calls := { call with stage := .swapping s.active next err } :: calls }
    | _ => none
  | .swap i carried => do
    let (call, calls) ← pull s.calls i
    match call.stage with
    | .swapping current next err =>
      some { s with
        active := if s.active = current then next else s.active
        calls := call.fallBack err carried :: calls }
    | _ => none

end StepLadders

end Nanna.Daemon
