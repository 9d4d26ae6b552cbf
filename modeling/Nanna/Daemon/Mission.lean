import Mathlib.Data.Char
import Mathlib.Data.List.Lex
import Mathlib.Data.List.Sort
import Nanna.Harness.Run
import Nanna.Lib.Supersede
import Nanna.Tasks.Repository

/-!
# The continuation loop of a chat turn

After its first run a turn re-plans and runs again as long as there is something left to do. `Mission` is what
the loop carries; one round of it (`pass`) is played against what the store, the planner, the provider and the
harness answer (`RoundAnswer`), and `continueMission` plays rounds until one ends the loop. What a round did is
recorded for the statements (`MissionEvent`).
-/

namespace Nanna.Daemon

open Nanna.Lib Nanna.Lib.Text Nanna.Harness Nanna.Tasks

/-! ## Faults of a provider -/

def isTransientLlmError (message : Text) : Bool :=
  message.contains "API error: 5".toList || message.contains "timed out".toList ||
    message.contains "connection".toList || message.contains "error sending request".toList ||
      message.contains "Stream error:".toList || message.contains "stream watchdog:".toList

def gpuMemoryError (message : Text) : Bool :=
  let m : Text := message.map Char.toLower
  m.contains "illegal memory access".toList || m.contains "out of memory".toList || m.contains "cuda error".toList ||
    m.contains "failed to allocate".toList

def wedgedRunnerError (message : Text) : Bool :=
  message.contains "empty completion".toList || message.contains "same token".toList ||
    message.contains "aborted generation mid-response".toList ||
      message.contains "No NDJSON line was ever parsed".toList ||
        (message.contains "invalid character ".toList && message.contains " in string literal".toList) ||
          message.contains " in string escape code".toList || message.contains "after object key:value pair".toList

/-- What stands after the first occurrence of the needle, and before it. -/
def splitOnce (needle : Text) (t : Text) : Option (Text × Text) :=
  (List.range (t.length + 1)).findSome? fun n =>
    if needle.isPrefixOf (t.drop n) then some (t.take n, t.drop (n + needle.length)) else none

def ollamaGenerationParseError (message : Text) : Option Text :=
  if message.contains "Ollama stream ended without completion".toList ||
      message.contains "aborted generation mid-response".toList || message.contains "empty completion".toList then none
  else do
    let (_, rest) ← splitOnce "invalid character '".toList message
    let (character, tail) ← splitOnce "'".toList rest
    if character = [] then none
    else if " in string literal".toList.isPrefixOf tail || " in string escape code".toList.isPrefixOf tail ||
        " after object key:value pair".toList.isPrefixOf tail then some character
    else none

def transientFaultKind (message : Text) : Text :=
  if gpuMemoryError message then "the model ran out of GPU memory".toList
  else if (ollamaGenerationParseError message).isSome then "the provider could not parse the tool call".toList
  else if message.contains "No NDJSON line was ever parsed".toList then
    "the provider's stream died before any output".toList
  else if wedgedRunnerError message then "the provider's runner wedged mid-generation".toList
  else if message.contains "stream watchdog:".toList then "the stream stalled and the watchdog cut it".toList
  else if message.contains "timed out".toList then "the request timed out".toList
  else "a provider transport fault".toList

def transientRetryNote (attempt : Nat) (fault : Text) : Text :=
  "\n\n[SYSTEM: this same step was interrupted mid-flight by a provider fault (attempt ".toList ++ natText attempt ++
    "; fault: ".toList ++ fault ++
      (") and is being retried. Tool calls the interrupted attempt had already made DID execute — their effects " ++
        "are on disk even though this conversation does not show them. Continue the step, do not restart it: " ++
        "re-read the working artifact before any whole-file write; a rewrite that drops existing functions is " ++
        "destruction, not progress.]").toList

/-! ## Stops and endings -/

/-- The serde tag of a stop. -/
def stopKind : StopReason → Text
  | .allTasksDone => "all_tasks_done".toList
  | .wallClockExhausted => "wall_clock_exhausted".toList
  | .tokenBudgetExhausted => "token_budget_exhausted".toList
  | .cancelled => "cancelled".toList
  | .sourceError _ => "source_error".toList
  | .runnerErrors _ => "runner_errors".toList

/-- The message of an error stop. -/
def stopMessage : StopReason → Option Text
  | .sourceError message | .runnerErrors message => some message
  | _ => none

structure ProviderProbe where
  model : Text
  answered : Bool
  elapsedSecs : Nat
  error : Option Text

inductive MissionEnd
  | singleRun
  | deliberateStop (kind : Text)
  | cancelled
  | dryRoundsExhausted
  | roundsMaxExhausted
  | errorRoundsExhausted
  | plannerStarvation
  | parkedTransient (reason : Text)
  deriving DecidableEq

/-- The fault that a report recorded. -/
def recordedFault (report : LongHorizonReport) : Text :=
  ((stopMessage report.stop).or report.lastRunnerError).getD []

/-- Giving up, or waiting for the provider. -/
def giveupEnd (report : LongHorizonReport) (probe : ProviderProbe) (terminal : MissionEnd) : MissionEnd :=
  let recorded := recordedFault report
  if !isTransientLlmError recorded && probe.answered then terminal
  else
    let detail := probe.error.getD recorded
    .parkedTransient (probe.model ++ " stopped answering".toList ++
      (if detail = [] then [] else " (".toList ++ detail ++ [')']))

/-! ## What the loop carries -/

def continuationRoundsMax : Nat := 60
def continuationDryRounds : Nat := 2
def continuationErrorRounds : Nat := 3

structure RoundBudget where
  errorRounds : Nat
  dryRounds : Nat
  continuations : Nat
  missionEnd : Option MissionEnd
  /-- The stop of the report has been charged. -/
  stopCharged : Bool
  lastProbe : Option ProviderProbe
  transientNote : Option Text
  reseedFingerprint : Option Nat

def RoundBudget.default : RoundBudget :=
  { errorRounds := 0, dryRounds := 0, continuations := 0, missionEnd := none, stopCharged := false,
    lastProbe := none, transientNote := none, reseedFingerprint := none }

/-- What a round did. -/
inductive MissionEvent
  /-- A run that failed was charged. -/
  | charged
  /-- A fallback plan that seeded nothing was charged. -/
  | starved
  /-- An item whose check still fails went back to the board. -/
  | reopened (id : Int)
  /-- There was nothing new to plan. -/
  | dry
  /-- The harness ran; it asked the checks of these items first. -/
  | ran (precheck : List Int) (more : LongHorizonReport)
  | reseeded (fingerprint : Nat)

structure Mission where
  report : LongHorizonReport
  budget : RoundBudget
  /-- The first run acted. -/
  runEvidence : Bool
  /-- The message contradicts a verified pass. -/
  conflicted : Bool
  /-- Stop was pressed. -/
  stopPressed : Bool
  events : List MissionEvent

/-- What one round is told. -/
structure RoundAnswer where
  openItems : Nat
  stopProbe : ProviderProbe
  pressedBefore : Bool
  pressedWhilePlanning : Bool
  /-- The planner fell back. -/
  fallback : Bool
  /-- `seed_continuation` and the count of open work after it. -/
  seeded : List Int
  hasWork : Bool
  planProbe : ProviderProbe
  /-- The store when an unmet item may be reopened. -/
  env : Env
  store : Store
  more : LongHorizonReport

/-! ## Accounting a round -/

def roundMadeProgress (round : LongHorizonReport) : Bool :=
  0 < round.sideEffectToolCalls || round.itemsAlreadySatisfied < round.itemsCompleted

/-- The strikes after a finished round. -/
def accountRound (dryRounds : Nat) (report more : LongHorizonReport) : Nat :=
  if roundMadeProgress more then 0
  else if (stopMessage more.stop).isSome then dryRounds
  else if 0 < more.itemsAlreadySatisfied then dryRounds
  else if more.abandonedUnmet = [] ∧ report.abandonedUnmet = [] then dryRounds + 1
  else dryRounds

/-- Fold the report of a round into the turn's. -/
def foldRound (report more : LongHorizonReport) : LongHorizonReport :=
  { report with
    stop := more.stop
    stepsTaken := report.stepsTaken + more.stepsTaken
    toolCalls := report.toolCalls + more.toolCalls
    sideEffectToolCalls := report.sideEffectToolCalls + more.sideEffectToolCalls
    itemsCompleted := report.itemsCompleted + more.itemsCompleted
    itemsCompletedUnverified := report.itemsCompletedUnverified + more.itemsCompletedUnverified
    itemsRevived := report.itemsRevived + more.itemsRevived
    abandonedUnmet := supersede (·.id) report.abandonedUnmet more.abandonedUnmet
    abandonedUnverifiable := supersede (·.id) report.abandonedUnverifiable more.abandonedUnverifiable
    verifiedOutcomes := supersede (·.id) report.verifiedOutcomes more.verifiedOutcomes
    acceptanceUnknown := report.acceptanceUnknown + more.acceptanceUnknown
    itemsAlreadySatisfied := report.itemsAlreadySatisfied + more.itemsAlreadySatisfied
    itemsAbandoned := report.itemsAbandoned + more.itemsAbandoned
    lastRunnerError := more.lastRunnerError.or report.lastRunnerError
    replans := report.replans + more.replans
    falseSuccessClaims := report.falseSuccessClaims + more.falseSuccessClaims
    interjectedItems := report.interjectedItems + more.interjectedItems }

/-- Fold what ran for late messages into the turn's report. -/
def foldDrainSegment (report extra : LongHorizonReport) (admitted : Nat) : LongHorizonReport :=
  { foldRound report extra with
    abandonedUnmet := report.abandonedUnmet
    interjectedItems := report.interjectedItems + (admitted + extra.interjectedItems) }

/-! ## One round -/

/-- The unmet item that goes back to the board: the first one that is closed and can be reopened. -/
def reopenTopUnmet (env : Env) (store : Store) (unmet : List AbandonedUnmet) : Option Int :=
  unmet.findSome? fun item =>
    match Tasks.get store item.id with
    | .error _ => none
    | .ok task =>
      if task.status.isClosed then (Tasks.reopen env store item.id).toOption.map (·.2.id) else none

/-- The checks that fail and the verdicts, in an order of their own. -/
def verifiedState (report : LongHorizonReport) : List (Int × Text) × List (Int × Text) :=
  let sorted (l : List (Int × Text)) := l.mergeSort fun a b => decide (a.1 < b.1 ∨ a.1 = b.1 ∧ a.2 ≤ b.2)
  (sorted (report.abandonedUnmet.map fun u => (u.id, u.detail)),
    sorted (report.verifiedOutcomes.map fun v => (v.id, v.detail)))

section Round

variable (hash : List (Int × Text) × List (Int × Text) → Nat)

def verifiedStateFingerprint (report : LongHorizonReport) : Nat := hash (verifiedState report)

/-- Another round. -/
def Mission.tick (m : Mission) : Mission :=
  { m with budget := { m.budget with continuations := m.budget.continuations + 1 } }

/-- Record what the round did. -/
def Mission.note (m : Mission) (event : MissionEvent) : Mission := { m with events := m.events ++ [event] }

/-- A strike. -/
def Mission.strike (m : Mission) : Mission :=
  { m with budget := { m.budget with dryRounds := m.budget.dryRounds + 1 } }

def Mission.reseed (m : Mission) (fingerprint : Nat) : Mission :=
  { m with
    budget := { m.budget with reseedFingerprint := some fingerprint, dryRounds := 0 }
    events := m.events ++ [.reseeded fingerprint] }

/-- Charge the failed run. -/
def Mission.charge (m : Mission) (message : Text) (probe : ProviderProbe) : Mission :=
  let errorRounds := m.budget.errorRounds + 1
  { m with
    budget := { m.budget with
      errorRounds := errorRounds
      stopCharged := true
      lastProbe := some probe
      transientNote :=
        if isTransientLlmError message then some (transientRetryNote errorRounds (transientFaultKind message))
        else m.budget.transientNote }
    events := m.events ++ [.charged] }

/-- Charge the fallback plan that seeded nothing. -/
def Mission.starve (m : Mission) (probe : ProviderProbe) : Mission :=
  { m with
    budget := { m.budget with errorRounds := m.budget.errorRounds + 1, lastProbe := some probe }
    events := m.events ++ [.starved] }

def Mission.giveUp (m : Mission) (probe : ProviderProbe) (terminal : MissionEnd) : Mission :=
  { m with budget := { m.budget with missionEnd := some (giveupEnd m.report probe terminal) } }

/-- The last run's stop lets the mission go on; an error stop is charged once. -/
def Mission.stopPermitsRound (m : Mission) (a : RoundAnswer) : Bool × Mission :=
  match stopMessage m.report.stop with
  | some message =>
    if !m.runEvidence && a.openItems = 0 then (false, m)
    else if m.budget.stopCharged then (true, m)
    else
      let m := m.charge message a.stopProbe
      if m.budget.errorRounds ≤ continuationErrorRounds then (true, m)
      else (false, m.giveUp a.stopProbe .errorRoundsExhausted)
  | none => (m.report.stop = .allTasksDone && m.runEvidence, m)

/-- A fresh start in place of a dry ending that leaves failing checks behind. -/
def Mission.reseedBeforeDryEnd (m : Mission) : Bool × Mission :=
  let fingerprint := verifiedStateFingerprint hash m.report
  if m.report.abandonedUnmet = [] ∨ m.budget.reseedFingerprint = some fingerprint then (false, m)
  else (true, m.reseed fingerprint)

/-- An empty round is accounted here; the flag says whether the loop goes on. -/
def Mission.seedRound (m : Mission) (a : RoundAnswer) : Except (Bool × Mission) (List Int) :=
  if a.seeded = [] ∨ a.hasWork = false then
    if a.fallback then
      let m := m.starve a.planProbe
      if continuationErrorRounds < m.budget.errorRounds then .error (false, m.giveUp a.planProbe .plannerStarvation)
      else .error (true, m)
    else
      match reopenTopUnmet a.env a.store m.report.abandonedUnmet with
      | some id => .error (true, m.note (.reopened id))
      | none => .error (true, m.strike.note .dry)
  else .ok a.seeded

def Mission.runRound (m : Mission) (a : RoundAnswer) (seeded : List Int) : Mission :=
  { m with
    report := foldRound m.report a.more
    budget := { m.budget with
      dryRounds := accountRound m.budget.dryRounds m.report a.more
      stopCharged := false
      transientNote := none }
    events := m.events ++ [.ran (if m.conflicted then [] else seeded) a.more] }

def Mission.continuationRound (m : Mission) (a : RoundAnswer) : Bool × Mission :=
  let m := { m with stopPressed := m.stopPressed || a.pressedWhilePlanning }
  if m.stopPressed then (false, m)
  else
    match m.seedRound a with
    | .error flow => flow
    | .ok seeded => (true, m.runRound a seeded)

/-- One turn of the loop; the flag says whether the loop goes on. -/
def Mission.pass (m : Mission) (a : RoundAnswer) : Bool × Mission :=
  let (permitted, m) := m.stopPermitsRound a
  if !permitted then (false, m)
  else
    let (goesOn, m) := if continuationDryRounds ≤ m.budget.dryRounds then m.reseedBeforeDryEnd hash else (true, m)
    if !goesOn then (false, m)
    else
      let m := { m with stopPressed := m.stopPressed || a.pressedBefore }
      if continuationRoundsMax ≤ m.budget.continuations || m.stopPressed then (false, m)
      else m.tick.continuationRound a

/-- The loop, for at most so many turns. -/
def continueMission : Nat → (Nat → RoundAnswer) → Mission → Option Mission
  | 0, _, _ => none
  | fuel + 1, answers, m =>
    match m.pass hash (answers 0) with
    | (true, m) => continueMission fuel (fun n => answers (n + 1)) m
    | (false, m) => some m

end Round

/-- How the mission ended. -/
def Mission.ending (m : Mission) : MissionEnd :=
  m.budget.missionEnd.getD <|
    if m.runEvidence = false then .singleRun
    else if m.stopPressed then .cancelled
    else if continuationDryRounds ≤ m.budget.dryRounds then .dryRoundsExhausted
    else if continuationRoundsMax ≤ m.budget.continuations then .roundsMaxExhausted
    else .deliberateStop (stopKind m.report.stop)

/-- A turn that begins to go on after its first run. -/
def Mission.start (report : LongHorizonReport) (runEvidence conflicted stopPressed : Bool) : Mission :=
  { report, runEvidence, conflicted, stopPressed, budget := .default, events := [] }

/-! ## The first run -/

def postRunDrainMax : Nat := 4

/-- What a look for late messages finds, and the run they get. -/
structure DrainAnswer where
  pressed : Bool
  admitted : Except Text Nat
  extra : LongHorizonReport

/-- The sweeps for late messages after the first run. -/
def drainFrom : Nat → (Nat → DrainAnswer) → LongHorizonReport → LongHorizonReport
  | 0, _, report => report
  | sweeps + 1, answers, report =>
    if (answers 0).pressed then report
    else
      match (answers 0).admitted with
      | .error _ | .ok 0 => report
      | .ok (n + 1) => drainFrom sweeps (fun k => answers (k + 1)) (foldDrainSegment report (answers 0).extra (n + 1))

/-- The report of `first_run`, from that of the run itself. -/
def firstRun (answers : Nat → DrainAnswer) (report : LongHorizonReport) : LongHorizonReport :=
  drainFrom postRunDrainMax answers report

end Nanna.Daemon
