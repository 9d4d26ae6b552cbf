import Mathlib.Data.Finset.Basic
import Nanna.Lib.Bytes

/-!
# Items, checks and verdicts of the long-horizon harness

The data the loop passes around: acceptance checks and their verdicts, the steps the task source
serves, what a step run brings back, the limits of a run, and the entries of its report. Beside
them stand the pure questions the loop asks of this data. Texts are hashed by `HarnessEnv.hash`,
which nothing constrains.
-/

namespace Nanna.Harness

open Nanna.Lib

/-! ## Acceptance checks -/

inductive AcceptanceCheck
  | command (command : Text) (timeoutSecs : Option UInt64)
  | fileExists (path : Text)
  | regex (pattern : Text) (path command : Option Text) (timeoutSecs : Option UInt64)
  deriving DecidableEq

/-- A verdict; a check that passed is a check that answered. -/
structure AcceptanceVerdict where
  passed : Bool
  detail : Text
  timedOut : Bool
  evidenceChanged : Bool
  answered : passed = true → timedOut = false ∧ evidenceChanged = false

namespace AcceptanceVerdict

def pass (detail : Text) : AcceptanceVerdict := ⟨true, detail, false, false, fun _ => ⟨rfl, rfl⟩⟩

def fail (detail : Text) : AcceptanceVerdict := ⟨false, detail, false, false, by simp⟩

def timeout (detail : Text) : AcceptanceVerdict := ⟨false, detail, true, false, by simp⟩

variable (verdict : AcceptanceVerdict)

/-- Unknown is not failure. -/
def isUnknown : Bool := verdict.timedOut || verdict.evidenceChanged

/-- A pass reached over evidence that moved is demoted to unknown. -/
def withEvidenceDrift (sentence : Text) : AcceptanceVerdict where
  passed := false
  detail := verdict.detail ++ '\n' :: sentence
  timedOut := verdict.timedOut
  evidenceChanged := verdict.passed || verdict.evidenceChanged
  answered := by simp

variable {verdict}

theorem not_unknown_of_passed (h : verdict.passed = true) : verdict.isUnknown = false := by
  obtain ⟨ht, he⟩ := verdict.answered h
  simp [isUnknown, ht, he]

end AcceptanceVerdict

namespace AcceptanceCheck

def slashes (s : Text) : Text := s.map fun c => if c = '\\' then '/' else c

/-- Could a write to this path change the verdict? -/
def referencesPath (touched : Text) (check : AcceptanceCheck) : Bool :=
  match ((slashes touched).splitOn '/').reverse.find? fun c => decide (c ≠ []) with
  | none => false
  | some fileName =>
    let mentions (s : Text) : Bool := (slashes s).contains fileName
    match check with
    | .command text _ => mentions text
    | .fileExists path => mentions path
    | .regex _ path text _ => path.any mentions || text.any mentions

end AcceptanceCheck

/-! ## Steps -/

structure TaskStep where
  id : Int
  title : Text
  acceptance : Option AcceptanceCheck
  deriving DecidableEq

inductive StepKind
  | plan
  | execute
  deriving DecidableEq

structure StepToolCall where
  name : Text
  inputDigest : Text
  outputDigest : Text
  success : Bool
  deriving DecidableEq

structure StepOutcome where
  text : Text
  inputTokens : Nat
  outputTokens : Nat
  toolCalls : List StepToolCall
  touchedPaths : List Text
  degenerateLoop : Bool
  deriving DecidableEq

/-- The standard library's hasher, fed with texts in turn, and the JSON of a check. -/
structure HarnessEnv where
  hash : List Text → UInt64
  checkJson : AcceptanceCheck → Text

/-- A polynomial hash, and the JSON of checks whose texts need no escapes. -/
def HarnessEnv.sample : HarnessEnv where
  hash texts := texts.flatten.foldl (fun h c => h * 31 + UInt64.ofNat c.toNat) 7
  checkJson
    | .command text none =>
      "\x7b\"kind\":\"command\",\"command\":\"".toList ++ text ++ "\"\x7d".toList
    | .command text (some secs) =>
      "\x7b\"kind\":\"command\",\"command\":\"".toList ++ text ++
        "\",\"timeout_secs\":".toList ++ (toString secs).toList ++ "\x7d".toList
    | .fileExists path =>
      "\x7b\"kind\":\"file_exists\",\"path\":\"".toList ++ path ++ "\"\x7d".toList
    | .regex pattern path text timeoutSecs =>
      let field (name : String) (value : Option Text) : Text :=
        match value with
        | none => []
        | some value => ",\"".toList ++ name.toList ++ "\":".toList ++ value
      let quoted (t : Text) : Text := '"' :: t ++ ['"']
      "\x7b\"kind\":\"regex\",\"pattern\":".toList ++ quoted pattern ++
        field "path" (path.map quoted) ++ field "command" (text.map quoted) ++
        field "timeout_secs" (timeoutSecs.map fun secs => (toString secs).toList) ++ "\x7d".toList

def splitWhitespace (t : Text) : List Text :=
  (t.splitOnP Text.isWhitespace).filter fun word => decide (word ≠ [])

def lines (t : Text) : List Text := t.splitOn '\n'

def stepClaimsCompletion (text : Text) : Bool :=
  (lines text).any fun line =>
    decide ((Text.trim line).map Char.toLower = "task complete".toList)

def stepsRepeat (previous current : List StepToolCall) : Bool :=
  !current.isEmpty && decide (previous = current)

def isWriteTool (name : Text) : Bool :=
  decide (name ∈ ["write_file", "write", "Write", "create_tool", "file_buffer"].map String.toList)

def isWorkEvidenceTool (name : Text) : Bool :=
  isWriteTool name ||
    decide (name ∈ ["edit_file", "edit", "Edit", "exec", "bash", "Bash"].map String.toList)

section

variable (env : HarnessEnv)

def toolFreeAnswerFingerprint (outcome : StepOutcome) : Option UInt64 :=
  if !outcome.toolCalls.isEmpty || outcome.degenerateLoop then none
  else
    let words := splitWhitespace outcome.text
    if words.isEmpty then none else some (env.hash words)

/-- The first line of the detail that says something, with its blanks collapsed. -/
def failureSignature (detail : Text) : UInt64 :=
  let firstLine := (((lines detail).map Text.trim).find? fun l => decide (l ≠ [])).getD []
  env.hash [" ".toList.intercalate (splitWhitespace firstLine)]

def checkIdentity (check : AcceptanceCheck) : UInt64 := env.hash [env.checkJson check]

def callDigest (call : StepToolCall) : UInt64 :=
  env.hash [call.name, call.inputDigest, call.outputDigest]

end

def answerConverged (previous current : Option UInt64) : Bool :=
  current.isSome && decide (previous = current)

/-! ## Configuration -/

/-- Times are in nanoseconds. -/
structure LongHorizonConfig where
  maxWallClock : Nat
  maxTotalTokens : Option Nat
  maxStepsPerItem : Nat
  maxReplansPerItem : Nat
  maxConsecutiveErrors : Nat
  precheckAcceptanceItems : Finset Int

/-- `LongHorizonConfig::default()` -/
def LongHorizonConfig.default : LongHorizonConfig where
  maxWallClock := 4 * 3600 * 10 ^ 9
  maxTotalTokens := none
  maxStepsPerItem := 5
  maxReplansPerItem := 2
  maxConsecutiveErrors := 3
  precheckAcceptanceItems := ∅

def itemRunnerErrorsMax : Nat := 2

def narrationLadderSteps : Nat := 3

def stepResultTailMaxBytes : Nat := 2000

inductive StopReason
  | allTasksDone
  | wallClockExhausted
  | tokenBudgetExhausted
  | cancelled
  | sourceError (message : Text)
  | runnerErrors (message : Text)
  deriving DecidableEq

/-! ## Entries of the report -/

structure AbandonedUnmet where
  id : Int
  title : Text
  detail : Text
  deriving DecidableEq

structure AbandonedUnverifiable where
  id : Int
  title : Text
  reason : Text
  deriving DecidableEq

structure VerifiedOutcome where
  id : Int
  title : Text
  detail : Text
  alreadySatisfied : Bool
  deriving DecidableEq

/-- A file a check reads, as it was when the check ran. -/
structure Artifact where
  path : Text
  bytes : Nat
  modified : Text
  deriving DecidableEq

def natText (n : Nat) : Text := (toString n).toList

def Artifact.named (a : Artifact) : Text :=
  if a.modified = [] then a.path ++ " (".toList ++ natText a.bytes ++ " bytes)".toList
  else
    a.path ++ " (".toList ++ natText a.bytes ++ " bytes, modified ".toList ++ a.modified ++ [')']

def verifiedDetail (verdict : AcceptanceVerdict) (artifacts : List Artifact) : Text :=
  let head := Text.takeBytes 240 verdict.detail
  if artifacts.isEmpty then head
  else
    head ++ " — on disk: ".toList ++ ", ".toList.intercalate (artifacts.map Artifact.named)

def verifiedDigestHead : Text :=
  ("These are VERIFIED WORKING right now — each one's done-condition was run by the " ++
    "harness and PASSED, and the verdict names the artifact state the environment " ++
    "confirmed. A rewrite that loses any of these is a regression, not progress: if " ++
    "your change must drop one, say which and why before you make it. Otherwise " ++
    "preserve them — read the file and extend it, do not reconstruct it.\n").toList

def VerifiedOutcome.line (outcome : VerifiedOutcome) : Text :=
  "- #".toList ++ (toString outcome.id).toList ++ [' '] ++ outcome.title ++ ": ".toList ++
    outcome.detail ++ ['\n']

/-- Add the line of an outcome, or count it when the text has no room. -/
def addDigestLine (state : Text × Nat) (outcome : VerifiedOutcome) : Text × Nat :=
  if stepResultTailMaxBytes < Text.byteLen state.1 + Text.byteLen outcome.line then
    (state.1, state.2 + 1)
  else (state.1 ++ outcome.line, state.2)

/-- The do-not-regress digest of a step prompt, newest first. -/
def verifiedDigest (verified : List VerifiedOutcome) : Option Text :=
  if verified.isEmpty then none
  else
    let (text, omitted) := verified.reverse.foldl addDigestLine (verifiedDigestHead, 0)
    some (if omitted = 0 then text
      else
        text ++ "- …and ".toList ++ natText omitted ++
          (" more verified item(s) not shown here — they are equally established; ask the " ++
            "task store for the full list before a wide rewrite.\n").toList)

def abandonmentHeadline (stepsRun fruitlessCharges replans : Nat) : Text :=
  "abandoned after ".toList ++ natText stepsRun ++ " steps (".toList ++ natText replans ++
    " of them replans) made no verifiable progress; ".toList ++ natText fruitlessCharges ++
    " no-progress charges spent (a step repeating the last one is charged twice)".toList

/-! ## Choosing what to check again -/

/-- An item closed with a check: its id, its title and the check. -/
structure Closed where
  id : Int
  title : Text
  check : AcceptanceCheck
  deriving DecidableEq

/-- Asking again may never cost more than asking did. -/
def resweepDue (sweepCostPaid checkCostPaid estimatedSweepCost : Nat) : Bool :=
  decide (sweepCostPaid + estimatedSweepCost ≤ checkCostPaid)

def selectResweepTargets (eligible : List Closed) (fullSweepDue : Bool) (touchedPaths : List Text) :
    List Closed :=
  if fullSweepDue then eligible
  else if touchedPaths.isEmpty then []
  else eligible.filter fun c => touchedPaths.any fun path => c.check.referencesPath path

theorem selectResweepTargets_subset {eligible : List Closed} {fullSweepDue : Bool}
    {touchedPaths : List Text} : selectResweepTargets eligible fullSweepDue touchedPaths ⊆ eligible := by
  unfold selectResweepTargets
  split
  · exact List.Subset.refl _
  · split
    · exact List.nil_subset _
    · exact List.filter_subset_self _

end Nanna.Harness
