import Mathlib.Data.Finset.Card
import Nanna.Harness.Types
import Nanna.Lib.Phase

/-!
# A run of the long-horizon loop

`HarnessRun` with every ledger a verdict, a completion or an abandonment moves, and one pass of the
loop over it, phase by phase. What the pass hears from outside (the task source, the step runner,
the runs of checks, the clock, the cancel token) is its `PassInput`; what it says and hears that
later claims speak of is put on the list `events`.

A run plays a list of pass inputs until a pass stops it.
-/

namespace Nanna.Harness

open Nanna.Lib

/-! ## The state of a run -/

/-- Per-item bookkeeping. -/
structure ItemProgress where
  stepsWithoutProgress : Nat
  replans : Nat
  dryReplans : Nat
  escalatedAsks : Nat
  tokensSpent : Nat
  lastToolCalls : List StepToolCall
  lastAnswerFingerprint : Option UInt64
  stepsRun : Nat
  runnerErrors : Nat
  consecutiveCheckTimeouts : Nat
  narrationSteps : Nat
  seenSuccessDigests : Finset UInt64
  seenFailureSignatures : Finset UInt64
  acceptancePrechecked : Bool

def ItemProgress.default : ItemProgress where
  stepsWithoutProgress := 0
  replans := 0
  dryReplans := 0
  escalatedAsks := 0
  tokensSpent := 0
  lastToolCalls := []
  lastAnswerFingerprint := none
  stepsRun := 0
  runnerErrors := 0
  consecutiveCheckTimeouts := 0
  narrationSteps := 0
  seenSuccessDigests := ∅
  seenFailureSignatures := ∅
  acceptancePrechecked := false

/-- What a run says to its source and hears from its checks. -/
inductive Event
  /-- A decided verdict of an item's check. -/
  | verdict (id : Int) (passed : Bool)
  /-- A check flipped from failed to passed, and every open item's budget is replenished. -/
  | flipped
  | novelFailure (id : Int)
  | novelSuccess (id : Int)
  | subtasksAdded (id : Int)
  /-- A step prompt was built while these outcomes were listed. -/
  | prompted (kind : StepKind) (listed : List VerifiedOutcome) (digest : Option Text)
  | completed (id : Int)
  | abandoned (id : Int) (check : Option AcceptanceCheck)
  | reopened (id : Int)
  deriving DecidableEq

structure HarnessRun where
  interjectedItems : Nat
  stepsTaken : Nat
  toolCallsTotal : Nat
  sideEffectToolCalls : Nat
  itemsCompleted : Nat
  itemsCompletedUnverified : Nat
  itemsAlreadySatisfied : Nat
  itemsAbandoned : Nat
  itemsRevived : Nat
  itemsRegressedReopened : Nat
  verifiedThisRun : List Closed
  abandonedThisRun : List Closed
  abandonedUnmet : List AbandonedUnmet
  abandonedUnverifiable : List AbandonedUnverifiable
  reopenedOnce : Finset Int
  checkCostPaid : Nat
  checkRuns : Nat
  sweepCostPaid : Nat
  precheckIds : Finset Int
  checkOutcomes : UInt64 → Option Bool
  verifiedOutcomes : List VerifiedOutcome
  acceptanceUnknown : Nat
  replans : Nat
  falseSuccessClaims : Nat
  inputTokens : Nat
  outputTokens : Nat
  consecutiveErrors : Nat
  lastRunnerError : Option Text
  progress : Int → Option ItemProgress
  /-- Newest first. -/
  events : List Event

inductive IterationEnd
  | next
  | stop (reason : StopReason)

abbrev Pass (α : Type) := Phase HarnessRun IterationEnd α

/-! ## What a pass hears -/

/-- A run of a check, with the drift of its evidence since the last one. -/
structure CheckRun where
  verdict : AcceptanceVerdict
  drift : Option Text
  elapsed : Nat

def CheckRun.judged (c : CheckRun) : AcceptanceVerdict :=
  match c.drift with
  | none => c.verdict
  | some sentence => c.verdict.withEvidenceDrift sentence

/-- What a sweep hears about one item. -/
structure SweepAnswer where
  cancelled : Bool
  check : CheckRun
  reopen : Except Text Unit

/-- What one pass hears from outside. A pass asks for part of it only; a sweep asks about the items
on its list in turn. -/
structure PassInput where
  cancelled : Bool
  elapsed : Nat
  interject : Option (Except Text Nat)
  next : Except Text (Option TaskStep)
  drainAbandoned : Nat → SweepAnswer
  drainVerified : Nat → SweepAnswer
  abandon : Except Text Unit
  precheck : CheckRun
  precheckArtifacts : List Artifact
  precheckComplete : Except Text Unit
  subtasksBefore : Except Text (Option Nat)
  runStep : Except Text StepOutcome
  subtasksAfter : Except Text (Option Nat)
  cancelledAfterStep : Bool
  check : CheckRun
  artifacts : List Artifact
  complete : Except Text Unit
  reviveAbandoned : Nat → SweepAnswer
  recheckVerified : Nat → SweepAnswer

def CheckRun.of (verdict : AcceptanceVerdict) : CheckRun := ⟨verdict, none, 1⟩

def SweepAnswer.of (verdict : AcceptanceVerdict) : SweepAnswer := ⟨false, .of verdict, .ok ()⟩

/-- A pass that finds the plan empty; checks pass, requests are granted, nothing is cancelled. -/
def PassInput.drained : PassInput where
  cancelled := false
  elapsed := 0
  interject := none
  next := .ok none
  drainAbandoned _ := .of (.pass [])
  drainVerified _ := .of (.pass [])
  abandon := .ok ()
  precheck := .of (.pass [])
  precheckArtifacts := []
  precheckComplete := .ok ()
  subtasksBefore := .ok none
  runStep := .ok ⟨[], 0, 0, [], [], false⟩
  subtasksAfter := .ok none
  cancelledAfterStep := false
  check := .of (.pass [])
  artifacts := []
  complete := .ok ()
  reviveAbandoned _ := .of (.pass [])
  recheckVerified _ := .of (.pass [])

/-- A pass that is served an item. -/
def PassInput.serving (step : TaskStep) : PassInput := { PassInput.drained with next := .ok (some step) }

/-! ## Ledgers -/

namespace HarnessRun

def new (cfg : LongHorizonConfig) : HarnessRun where
  interjectedItems := 0
  stepsTaken := 0
  toolCallsTotal := 0
  sideEffectToolCalls := 0
  itemsCompleted := 0
  itemsCompletedUnverified := 0
  itemsAlreadySatisfied := 0
  itemsAbandoned := 0
  itemsRevived := 0
  itemsRegressedReopened := 0
  verifiedThisRun := []
  abandonedThisRun := []
  abandonedUnmet := []
  abandonedUnverifiable := []
  reopenedOnce := ∅
  checkCostPaid := 0
  checkRuns := 0
  sweepCostPaid := 0
  precheckIds := cfg.precheckAcceptanceItems
  checkOutcomes := fun _ => none
  verifiedOutcomes := []
  acceptanceUnknown := 0
  replans := 0
  falseSuccessClaims := 0
  inputTokens := 0
  outputTokens := 0
  consecutiveErrors := 0
  lastRunnerError := none
  progress := fun _ => none
  events := []

variable (run : HarnessRun)

def say (event : Event) : HarnessRun := { run with events := event :: run.events }

/-- `progress.entry(id).or_default()` -/
def item (id : Int) : ItemProgress := (run.progress id).getD .default

def setItem (id : Int) (item : ItemProgress) : HarnessRun :=
  { run with progress := fun i => if i = id then some item else run.progress i }

def removeItem (id : Int) : HarnessRun :=
  { run with progress := fun i => if i = id then none else run.progress i }

def replenishAll : HarnessRun :=
  { run with
    progress := fun i => (run.progress i).map fun item => { item with stepsWithoutProgress := 0 } }

/-- Record a decided verdict; was this check last seen failing and does it pass now? -/
def noteCheckOutcome (env : HarnessEnv) (check : AcceptanceCheck) (passed : Bool) :
    HarnessRun × Bool :=
  let identity := checkIdentity env check
  ({ run with checkOutcomes := fun i => if i = identity then some passed else run.checkOutcomes i },
    passed && decide (run.checkOutcomes identity = some false))

/-- Record a decided verdict, and replenish every open item's budget on a flip. -/
def creditCheckOutcome (env : HarnessEnv) (check : AcceptanceCheck) (passed : Bool) : HarnessRun :=
  let (run, flipped) := run.noteCheckOutcome env check passed
  if flipped then run.replenishAll.say .flipped else run

def payCheck (elapsed : Nat) : HarnessRun :=
  { run with checkCostPaid := run.checkCostPaid + elapsed, checkRuns := run.checkRuns + 1 }

/-- A step ran. -/
def paySpend (outcome : StepOutcome) : HarnessRun :=
  { run with
    stepsTaken := run.stepsTaken + 1
    inputTokens := run.inputTokens + outcome.inputTokens
    outputTokens := run.outputTokens + outcome.outputTokens }

def countToolCalls (outcome : StepOutcome) : HarnessRun :=
  { run with
    toolCallsTotal := run.toolCallsTotal + outcome.toolCalls.length
    sideEffectToolCalls := run.sideEffectToolCalls +
      outcome.toolCalls.countP fun call => isWorkEvidenceTool call.name }

def countReplan : HarnessRun := { run with replans := run.replans + 1 }

def countUnknown : HarnessRun := { run with acceptanceUnknown := run.acceptanceUnknown + 1 }

def countError : HarnessRun := { run with consecutiveErrors := run.consecutiveErrors + 1 }

def recordAbandonment (step : TaskStep) (reason : Text) : HarnessRun :=
  match step.acceptance with
  | some check =>
    { run with abandonedThisRun := run.abandonedThisRun ++ [⟨step.id, step.title, check⟩] }
  | none =>
    { run with
      abandonedUnverifiable := run.abandonedUnverifiable ++ [⟨step.id, step.title, reason⟩] }

/-- The source abandoned the item. -/
def abandonItem (step : TaskStep) (reason : Text) : HarnessRun :=
  let run := run.say (.abandoned step.id step.acceptance)
  let run := { run with itemsAbandoned := run.itemsAbandoned + 1 }
  (run.recordAbandonment step reason).removeItem step.id

/-- The source completed the item on the model's word. -/
def completeUnverified (step : TaskStep) : HarnessRun :=
  let run := run.say (.completed step.id)
  let run :=
    { run with
      consecutiveErrors := 0
      itemsCompleted := run.itemsCompleted + 1
      itemsCompletedUnverified := run.itemsCompletedUnverified + 1 }
  run.removeItem step.id

/-- The source completed the item on a passing check. -/
def completeVerified (step : TaskStep) (check : AcceptanceCheck) (outcome : VerifiedOutcome) :
    HarnessRun :=
  let run := run.say (.completed step.id)
  let run :=
    { run with
      consecutiveErrors := 0
      itemsCompleted := run.itemsCompleted + 1
      verifiedThisRun := run.verifiedThisRun ++ [Closed.mk step.id step.title check]
      verifiedOutcomes := run.verifiedOutcomes ++ [outcome] }
  run.removeItem step.id

def pushUnmet (c : Closed) (detail : Text) : HarnessRun :=
  { run with abandonedUnmet := run.abandonedUnmet ++ [⟨c.id, c.title, detail⟩] }

/-- The source reopened an abandoned item whose check passes: the pre-check closes it next. -/
def revive (id : Int) : HarnessRun :=
  let run := run.say (.reopened id)
  let run :=
    { run with
      reopenedOnce := insert id run.reopenedOnce
      precheckIds := insert id run.precheckIds
      itemsRevived := run.itemsRevived + 1
      itemsAbandoned := run.itemsAbandoned - 1 }
  run.removeItem id

/-- The source reopened a verified item whose check fails again. -/
def regress (id : Int) : HarnessRun :=
  let run := run.say (.reopened id)
  let run :=
    { run with
      reopenedOnce := insert id run.reopenedOnce
      itemsCompleted := run.itemsCompleted - 1
      itemsRegressedReopened := run.itemsRegressedReopened + 1 }
  run.removeItem id

end HarnessRun

/-! ## The drain sweep -/

section

variable (env : HarnessEnv) (cfg : LongHorizonConfig)

def drainAbandonedOne (c : Closed) (answer : SweepAnswer) :
    HarnessRun × Bool → HarnessRun × Bool
  | (run, reopenedAny) =>
    if c.id ∈ run.reopenedOnce then (run, reopenedAny)
    else
      let verdict := answer.check.judged
      if verdict.isUnknown then
        let detail := "check produced no verdict — ".toList ++ Text.takeBytes 200 verdict.detail
        (run.countUnknown.pushUnmet c detail, reopenedAny)
      else
        let run := run.say (.verdict c.id verdict.passed)
        let run := (run.noteCheckOutcome env c.check verdict.passed).1
        if verdict.passed then
          match answer.reopen with
          | .ok () => (run.revive c.id, true)
          | .error _ => (run, reopenedAny)
        else (run.pushUnmet c (Text.takeBytes 240 verdict.detail), reopenedAny)

def drainVerifiedOne (c : Closed) (answer : SweepAnswer) :
    HarnessRun × Bool → HarnessRun × Bool
  | (run, reopenedAny) =>
    if c.id ∈ run.reopenedOnce then (run, reopenedAny)
    else
      let verdict := answer.check.judged
      if verdict.isUnknown then
        (run.countUnknown, reopenedAny)
      else
        let run := run.say (.verdict c.id verdict.passed)
        let run := (run.noteCheckOutcome env c.check verdict.passed).1
        if verdict.passed then (run, reopenedAny)
        else
          match answer.reopen with
          | .ok () => (run.regress c.id, true)
          | .error _ => (run, reopenedAny)

/-- The drain sweeps hear no cancellation. -/
def neverHalts (_ : SweepAnswer) : Bool := false

def drainAbandoned (inp : PassInput) (run : HarnessRun) : HarnessRun × Bool :=
  sweep neverHalts (drainAbandonedOne env) run.abandonedThisRun inp.drainAbandoned (run, false)

def drainVerified (inp : PassInput) (run : HarnessRun) : HarnessRun × Bool :=
  sweep neverHalts (drainVerifiedOne env) run.verifiedThisRun inp.drainVerified (run, false)

def drainSweep (inp : PassInput) (run : HarnessRun) : Pass Unit :=
  let (run, revived) := drainAbandoned env inp { run with abandonedUnmet := [] }
  let (run, regressed) := drainVerified env inp run
  if revived || regressed then .ended .next run
  else .ended (.stop .allTasksDone) run

/-! ## Before the step -/

structure Gate where
  isReplan : Bool
  fruitlessSteps : Nat
  itemReplans : Nat
  precheckDue : Bool
  hangTimeouts : Nat

def itemGate (step : TaskStep) (run : HarnessRun) : Gate × HarnessRun :=
  let item := run.item step.id
  ({ isReplan := decide (cfg.maxStepsPerItem ≤ item.stepsWithoutProgress)
     fruitlessSteps := item.stepsWithoutProgress
     itemReplans := item.replans
     precheckDue := !item.acceptancePrechecked
     hangTimeouts := item.consecutiveCheckTimeouts },
    run.setItem step.id { item with acceptancePrechecked := true })

def exhaustedReason (item : ItemProgress) (gate : Gate) : Text :=
  abandonmentHeadline item.stepsRun gate.fruitlessSteps gate.itemReplans ++
    (if 0 < item.dryReplans then
      "; the decomposition ask came back with no subtasks ".toList ++ natText item.dryReplans ++
        " time(s)".toList ++
        (if 0 < item.escalatedAsks then
          (", and the escalated next-action ask that followed never got it past its " ++
            "done-condition — both attempts to unstick it returned nothing").toList
        else [])
    else []) ++
    (if 0 < gate.hangTimeouts then
      "; its acceptance check hung ".toList ++ natText gate.hangTimeouts ++
        (" consecutive time(s) with no verdict — see the hang finding in its notes").toList
    else [])

/-- Close an item that has spent its fruitless steps and its replans. -/
def abandonExhausted (step : TaskStep) (gate : Gate) (inp : PassInput) (run : HarnessRun) :
    Pass Unit :=
  match inp.abandon with
  | .error message => .ended (.stop (.sourceError message)) run
  | .ok () =>
    .ended .next (run.abandonItem step (exhaustedReason (run.item step.id) gate))

def notePrecheckVerdict (step : TaskStep) (check : AcceptanceCheck) (verdict : AcceptanceVerdict)
    (run : HarnessRun) : HarnessRun :=
  if verdict.isUnknown then
    let item := run.item step.id
    let item :=
      if verdict.timedOut then
        { item with consecutiveCheckTimeouts := item.consecutiveCheckTimeouts + 1 }
      else item
    run.countUnknown.setItem step.id item
  else (run.say (.verdict step.id verdict.passed)).creditCheckOutcome env check verdict.passed

/-- The check a pre-check runs. -/
def precheckOf (step : TaskStep) (precheckDue : Bool) (run : HarnessRun) :
    Option AcceptanceCheck :=
  if precheckDue && decide (step.id ∈ run.precheckIds) then step.acceptance else none

def precheck (step : TaskStep) (precheckDue : Bool) (inp : PassInput) (run : HarnessRun) :
    Pass Unit :=
  match precheckOf step precheckDue run with
  | none => .goOn () run
  | some check =>
    let verdict := inp.precheck.judged
    let run := run.payCheck inp.precheck.elapsed
    let run := notePrecheckVerdict env step check verdict run
    if verdict.passed then
      match inp.precheckComplete with
      | .ok () =>
        let run := { run with itemsAlreadySatisfied := run.itemsAlreadySatisfied + 1 }
        .ended .next (run.completeVerified step check
          ⟨step.id, step.title, verifiedDetail verdict inp.precheckArtifacts, true⟩)
      | .error _ => .goOn () run
    else .goOn () run

/-- Build the prompt; the digest rides in an execute prompt. -/
def stepPrompt (isReplan escalate : Bool) (run : HarnessRun) : HarnessRun :=
  if isReplan && !escalate then run.say (.prompted .plan run.verifiedOutcomes none)
  else
    run.say (.prompted .execute run.verifiedOutcomes (verifiedDigest run.verifiedOutcomes))

/-! ## The step -/

def runStep (step : TaskStep) (inp : PassInput) (run : HarnessRun) : Pass StepOutcome :=
  match inp.runStep with
  | .ok outcome => .goOn outcome { run with consecutiveErrors := 0 }
  | .error message =>
    let run := { run.countError with lastRunnerError := some message }
    let item := run.item step.id
    let item := { item with runnerErrors := item.runnerErrors + 1 }
    let run := run.setItem step.id item
    if itemRunnerErrorsMax ≤ item.runnerErrors then
      match inp.abandon with
      | .error message => .ended (.stop (.sourceError message)) run
      | .ok () =>
        .ended .next (run.abandonItem step
          ("abandoned after persistent runner errors: ".toList ++ message))
    else if cfg.maxConsecutiveErrors ≤ run.consecutiveErrors then
      .ended (.stop (.runnerErrors message)) run
    else .ended .next run

/-- Did the replan add subtasks? None where the source cannot tell. -/
def addedSubtasks (before : Option Nat) (after : Except Text (Option Nat)) : Option Bool :=
  match before, after with
  | some before, .ok (some after) => some (decide (before < after))
  | _, _ => none

def recordStep (step : TaskStep) (outcome : StepOutcome) (isReplan escalate : Bool)
    (subtasksBefore : Option Nat) (inp : PassInput) (run : HarnessRun) : Pass Unit :=
  let run := run.paySpend outcome
  let item := run.item step.id
  let item :=
    { item with
      stepsRun := item.stepsRun + 1
      tokensSpent := item.tokensSpent + (outcome.inputTokens + outcome.outputTokens)
      narrationSteps := if outcome.toolCalls.isEmpty then item.narrationSteps else 0 }
  if escalate then
    let item :=
      { item with replans := item.replans + 1, escalatedAsks := item.escalatedAsks + 1 }
    .goOn () (run.countReplan.setItem step.id item)
  else if isReplan then
    let added := addedSubtasks subtasksBefore inp.subtasksAfter
    let item := { item with replans := item.replans + 1 }
    let item :=
      if added.getD true then { item with stepsWithoutProgress := 0, lastToolCalls := [] }
      else { item with dryReplans := item.dryReplans + 1 }
    let run := run.countReplan.setItem step.id item
    .ended .next (if added = some true then run.say (.subtasksAdded step.id) else run)
  else .goOn () (run.setItem step.id item)

def fileStepFindings (step : TaskStep) (outcome : StepOutcome) (inp : PassInput)
    (run : HarnessRun) : Pass Bool :=
  if inp.cancelledAfterStep then .ended (.stop .cancelled) run
  else
    let item := run.item step.id
    let repeated := stepsRepeat item.lastToolCalls outcome.toolCalls
    let run := run.setItem step.id { item with lastToolCalls := outcome.toolCalls }
    .goOn repeated (run.countToolCalls outcome)

/-! ## The verdict -/

/-- Successful side-effectful calls the item has never seen. -/
def novelSuccessEvidence (item : ItemProgress) (calls : List StepToolCall) : ItemProgress × Bool :=
  calls.foldl (fun (item, novel) call =>
    if !call.success || !isWorkEvidenceTool call.name then (item, novel)
    else
      let digest := callDigest env call
      ({ item with seenSuccessDigests := insert digest item.seenSuccessDigests },
        novel || decide (digest ∉ item.seenSuccessDigests))) (item, false)

def degenerate (outcome : StepOutcome) : Bool := outcome.degenerateLoop && outcome.toolCalls.isEmpty

/-- The arms that `judge_unknown`, `judge_failed` and `judge_unchecked` share: replenish the budget,
steer, or charge. -/
def settle (replenish : Bool) (outcome : StepOutcome) (repeated : Bool) (item : ItemProgress) :
    ItemProgress :=
  if replenish then { item with stepsWithoutProgress := 0 }
  else if degenerate outcome && decide (item.narrationSteps < narrationLadderSteps) then
    { item with narrationSteps := item.narrationSteps + 1 }
  else
    { item with stepsWithoutProgress := item.stepsWithoutProgress + if repeated then 2 else 1 }

/-- Say which of the item's evidence was new. -/
def sayNovel (id : Int) (novelFailure novelSuccess : Bool) (run : HarnessRun) : HarnessRun :=
  let run := if novelFailure then run.say (.novelFailure id) else run
  if novelSuccess then run.say (.novelSuccess id) else run

def judgeUnknown (step : TaskStep) (outcome : StepOutcome) (repeated : Bool)
    (verdict : AcceptanceVerdict) (run : HarnessRun) : HarnessRun :=
  let run := run.countUnknown
  let evidence := novelSuccessEvidence env (run.item step.id) outcome.toolCalls
  let item := settle evidence.2 outcome repeated evidence.1
  let item :=
    { item with
      consecutiveCheckTimeouts := if verdict.timedOut then item.consecutiveCheckTimeouts + 1 else 0 }
  sayNovel step.id false evidence.2 (run.setItem step.id item)

/-- The source refused a completion. -/
def completeFailed (message : Text) (run : HarnessRun) : Pass Unit :=
  let run := run.countError
  if cfg.maxConsecutiveErrors ≤ run.consecutiveErrors then
    .ended (.stop (.sourceError message)) run
  else .goOn () run

def judgePassed (step : TaskStep) (check : AcceptanceCheck) (verdict : AcceptanceVerdict)
    (inp : PassInput) (run : HarnessRun) : Pass Unit :=
  let run := run.setItem step.id { run.item step.id with consecutiveCheckTimeouts := 0 }
  let run := (run.say (.verdict step.id true)).creditCheckOutcome env check true
  match inp.complete with
  | .ok () =>
    .goOn () (run.completeVerified step check
      ⟨step.id, step.title, verifiedDetail verdict inp.artifacts, false⟩)
  | .error message => completeFailed cfg message run

def judgeFailed (step : TaskStep) (check : AcceptanceCheck) (outcome : StepOutcome)
    (repeated : Bool) (verdict : AcceptanceVerdict) (run : HarnessRun) : HarnessRun :=
  let run := ((run.say (.verdict step.id false)).noteCheckOutcome env check false).1
  let run : HarnessRun :=
    if stepClaimsCompletion outcome.text then
      { run with falseSuccessClaims := run.falseSuccessClaims + 1 }
    else run
  let item : ItemProgress := { run.item step.id with consecutiveCheckTimeouts := 0 }
  let signature := failureSignature env verdict.detail
  let novel := decide (signature ∉ item.seenFailureSignatures)
  let item := { item with seenFailureSignatures := insert signature item.seenFailureSignatures }
  let evidence := novelSuccessEvidence env item outcome.toolCalls
  -- the first failure of all is the baseline
  let moved := novel && decide (1 < item.seenFailureSignatures.card)
  let item := settle (moved || evidence.2) outcome repeated evidence.1
  sayNovel step.id moved evidence.2 (run.setItem step.id item)

def judgeChecked (step : TaskStep) (check : AcceptanceCheck) (outcome : StepOutcome)
    (repeated : Bool) (inp : PassInput) (run : HarnessRun) : Pass Unit :=
  let verdict := inp.check.judged
  let run := run.payCheck inp.check.elapsed
  if verdict.isUnknown then .goOn () (judgeUnknown env step outcome repeated verdict run)
  else if verdict.passed then judgePassed env cfg step check verdict inp run
  else .goOn () (judgeFailed env step check outcome repeated verdict run)

/-- Close an unchecked item on the model's word. -/
def completeUnchecked (step : TaskStep) (inp : PassInput) (run : HarnessRun) : Pass Unit :=
  match inp.complete with
  | .ok () => .goOn () (run.completeUnverified step)
  | .error message => completeFailed cfg message run

def judgeUnchecked (step : TaskStep) (outcome : StepOutcome) (repeated : Bool) (inp : PassInput)
    (run : HarnessRun) : Pass Unit :=
  let item := run.item step.id
  let answer := toolFreeAnswerFingerprint env outcome
  let converged := answerConverged item.lastAnswerFingerprint answer
  let item := { item with lastAnswerFingerprint := answer }
  if stepClaimsCompletion outcome.text || converged then
    completeUnchecked cfg step inp (run.setItem step.id item)
  else
    let evidence := novelSuccessEvidence env item outcome.toolCalls
    let item := settle evidence.2 outcome repeated evidence.1
    .goOn () (sayNovel step.id false evidence.2 (run.setItem step.id item))

def judgeStep (step : TaskStep) (outcome : StepOutcome) (repeated : Bool) (inp : PassInput)
    (run : HarnessRun) : Pass Unit :=
  match step.acceptance with
  | some check => judgeChecked env cfg step check outcome repeated inp run
  | none => judgeUnchecked env cfg step outcome repeated inp run

/-! ## The sweep at a step boundary -/

def reviveAbandonedOne (c : Closed) (answer : SweepAnswer) (run : HarnessRun) : HarnessRun :=
  let verdict := answer.check.judged
  let run := { run with sweepCostPaid := run.sweepCostPaid + answer.check.elapsed }
  if verdict.isUnknown then run.countUnknown
  else
    let run := (run.say (.verdict c.id verdict.passed)).creditCheckOutcome env c.check verdict.passed
    if verdict.passed then
      match answer.reopen with
      | .ok () => run.revive c.id
      | .error _ => run
    else run

def recheckVerifiedOne (c : Closed) (answer : SweepAnswer) (run : HarnessRun) : HarnessRun :=
  let verdict := answer.check.judged
  let run := { run with sweepCostPaid := run.sweepCostPaid + answer.check.elapsed }
  if verdict.isUnknown then run.countUnknown
  else
    let run := run.say (.verdict c.id verdict.passed)
    let run := (run.noteCheckOutcome env c.check verdict.passed).1
    if verdict.passed then run
    else
      match answer.reopen with
      | .ok () => run.regress c.id
      | .error _ => run

/-- The closed items a step on another item may check again. -/
def eligible (step : TaskStep) (run : HarnessRun) (closed : List Closed) : List Closed :=
  closed.filter fun c => decide (c.id ≠ step.id ∧ c.id ∉ run.reopenedOnce)

def midRunSweep (step : TaskStep) (outcome : StepOutcome) (inp : PassInput) (run : HarnessRun) :
    HarnessRun :=
  let verified := eligible step run run.verifiedThisRun
  let abandoned := eligible step run run.abandonedThisRun
  if verified.isEmpty && abandoned.isEmpty then run
  else
    let estimated :=
      if 0 < run.checkRuns then
        run.checkCostPaid / run.checkRuns * min (verified.length + abandoned.length) (2 ^ 32 - 1)
      else 0
    let fullDue := resweepDue run.sweepCostPaid run.checkCostPaid estimated
    let run := sweep SweepAnswer.cancelled (reviveAbandonedOne env)
      (selectResweepTargets abandoned fullDue outcome.touchedPaths) inp.reviveAbandoned run
    sweep SweepAnswer.cancelled (recheckVerifiedOne env)
      (selectResweepTargets verified fullDue outcome.touchedPaths) inp.recheckVerified run

/-! ## The loop -/

def admitInterjected (inp : PassInput) (run : HarnessRun) : HarnessRun :=
  match inp.interject with
  | some (.ok admitted) => { run with interjectedItems := run.interjectedItems + admitted }
  | _ => run

/-- The pass on an item that the gate lets through. -/
def work (step : TaskStep) (gate : Gate) (inp : PassInput) (run : HarnessRun) : Pass Unit :=
  (precheck env step gate.precheckDue inp run).andThen fun () run =>
    let escalate := gate.isReplan && decide (0 < (run.item step.id).dryReplans)
    let run := stepPrompt gate.isReplan escalate run
    let subtasksBefore :=
      if gate.isReplan && !escalate then inp.subtasksBefore.toOption.join else none
    (runStep cfg step inp run).andThen fun outcome run =>
      (recordStep step outcome gate.isReplan escalate subtasksBefore inp run).andThen fun () run =>
        (fileStepFindings step outcome inp run).andThen fun repeated run =>
          (judgeStep env cfg step outcome repeated inp run).andThen fun () run =>
            .goOn () (midRunSweep env step outcome inp run)

/-- The pass on one item. -/
def serve (step : TaskStep) (inp : PassInput) (run : HarnessRun) : Pass Unit :=
  let gated := itemGate cfg step run
  if gated.1.isReplan && decide (cfg.maxReplansPerItem ≤ gated.1.itemReplans) then
    abandonExhausted step gated.1 inp gated.2
  else work env cfg step gated.1 inp gated.2

/-- One pass of the loop. -/
def iteration (inp : PassInput) (run : HarnessRun) : Pass Unit :=
  if inp.cancelled then .ended (.stop .cancelled) run
  else if cfg.maxWallClock ≤ inp.elapsed then .ended (.stop .wallClockExhausted) run
  else if cfg.maxTotalTokens.any fun max => decide (max ≤ run.inputTokens + run.outputTokens) then
    .ended (.stop .tokenBudgetExhausted) run
  else
    let run := admitInterjected inp run
    match inp.next with
    | .error message => .ended (.stop (.sourceError message)) run
    | .ok none => drainSweep env inp run
    | .ok (some step) => serve env cfg step inp run

/-- Play passes until one of them stops the run. -/
def playFrom : HarnessRun → List PassInput → HarnessRun × Option StopReason
  | run, [] => (run, none)
  | run, inp :: inps =>
    match iteration env cfg inp run with
    | .ended (.stop reason) run => (run, some reason)
    | .ended .next run => playFrom run inps
    | .goOn () run => playFrom run inps

def play (inps : List PassInput) : HarnessRun × Option StopReason :=
  playFrom env cfg (HarnessRun.new cfg) inps

/-- Every pass of a run meets a condition on the state before it and on what it hears. -/
def Along (P : HarnessRun → PassInput → Prop) : HarnessRun → List PassInput → Prop
  | _, [] => True
  | run, inp :: inps =>
    P run inp ∧
      match iteration env cfg inp run with
      | .ended (.stop _) _ => True
      | .ended .next run => Along P run inps
      | .goOn () run => Along P run inps

variable {env cfg} {I : HarnessRun → Prop} {P : HarnessRun → PassInput → Prop}

/-- A pass is cut short, or admits what the user sent and then drains or serves. -/
theorem iteration_invariant {run : HarnessRun} {inp : PassInput} (hrun : I run)
    (hadmitted : I (admitInterjected inp run))
    (hdrain : I (drainSweep env inp (admitInterjected inp run)).state)
    (hserve : ∀ step, inp.next = .ok (some step) →
      I (serve env cfg step inp (admitInterjected inp run)).state) :
    I (iteration env cfg inp run).state := by
  unfold iteration
  split
  · exact hrun
  · split
    · exact hrun
    · split
      · exact hrun
      · dsimp only
        split
        · exact hadmitted
        · exact hdrain
        · rename_i step hnext
          exact hserve step hnext

/-- What every pass keeps, a run keeps. -/
theorem playFrom_invariant {run : HarnessRun} {inps : List PassInput}
    (hstep : ∀ run inp, P run inp → I run → I (iteration env cfg inp run).state)
    (halong : Along env cfg P run inps) (hI : I run) : I (playFrom env cfg run inps).1 := by
  induction inps generalizing run with
  | nil => exact hI
  | cons inp inps ih =>
    obtain ⟨hP, hrest⟩ := halong
    have hnext := hstep run inp hP hI
    rw [playFrom]
    rcases h : iteration env cfg inp run with _ | ⟨_ | _⟩ <;> rw [h] at hrest hnext
    · exact ih hrest hnext
    · exact ih hrest hnext
    · exact hnext

/-- A run that no pass has stopped plays on. -/
theorem playFrom_append {run before : HarnessRun} {inps inps' : List PassInput}
    (h : playFrom env cfg run inps = (before, none)) :
    playFrom env cfg run (inps ++ inps') = playFrom env cfg before inps' := by
  induction inps generalizing run with
  | nil =>
    obtain rfl : run = before := (Prod.mk.inj h).1
    rfl
  | cons inp inps ih =>
    rw [List.cons_append, playFrom]
    rw [playFrom] at h
    rcases hpass : iteration env cfg inp run with _ | ⟨_ | _⟩ <;> rw [hpass] at h
    · exact ih h
    · exact ih h
    · cases (Prod.mk.inj h).2

end

/-! ## The report -/

structure LongHorizonReport where
  stop : StopReason
  stepsTaken : Nat
  toolCalls : Nat
  sideEffectToolCalls : Nat
  itemsCompleted : Nat
  itemsCompletedUnverified : Nat
  itemsRevived : Nat
  itemsRegressedReopened : Nat
  abandonedUnmet : List AbandonedUnmet
  abandonedUnverifiable : List AbandonedUnverifiable
  verifiedOutcomes : List VerifiedOutcome
  acceptanceUnknown : Nat
  itemsAlreadySatisfied : Nat
  itemsAbandoned : Nat
  lastRunnerError : Option Text
  replans : Nat
  falseSuccessClaims : Nat
  inputTokens : Nat
  outputTokens : Nat
  tokensPerCompletedItem : Option Nat
  interjectedItems : Nat

def HarnessRun.intoReport (run : HarnessRun) (stop : StopReason) : LongHorizonReport where
  stop := stop
  stepsTaken := run.stepsTaken
  toolCalls := run.toolCallsTotal
  sideEffectToolCalls := run.sideEffectToolCalls
  itemsCompleted := run.itemsCompleted
  itemsCompletedUnverified := run.itemsCompletedUnverified
  itemsRevived := run.itemsRevived
  itemsRegressedReopened := run.itemsRegressedReopened
  abandonedUnmet := run.abandonedUnmet
  abandonedUnverifiable := run.abandonedUnverifiable
  verifiedOutcomes := run.verifiedOutcomes
  acceptanceUnknown := run.acceptanceUnknown
  itemsAlreadySatisfied := run.itemsAlreadySatisfied
  itemsAbandoned := run.itemsAbandoned
  lastRunnerError := run.lastRunnerError
  replans := run.replans
  falseSuccessClaims := run.falseSuccessClaims
  inputTokens := run.inputTokens
  outputTokens := run.outputTokens
  tokensPerCompletedItem :=
    if 0 < run.itemsCompleted then
      some ((run.inputTokens + run.outputTokens) / run.itemsCompleted)
    else none
  interjectedItems := run.interjectedItems

@[simp] theorem verifiedOutcomes_intoReport (run : HarnessRun) (stop : StopReason) :
    (run.intoReport stop).verifiedOutcomes = run.verifiedOutcomes := rfl

@[simp] theorem abandonedUnmet_intoReport (run : HarnessRun) (stop : StopReason) :
    (run.intoReport stop).abandonedUnmet = run.abandonedUnmet := rfl

@[simp] theorem abandonedUnverifiable_intoReport (run : HarnessRun) (stop : StopReason) :
    (run.intoReport stop).abandonedUnverifiable = run.abandonedUnverifiable := rfl

end Nanna.Harness
