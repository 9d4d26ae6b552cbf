import Nanna.Harness.Run

/-!
# What a pass does to the ledgers

`serve_served`: a pass over an item first only hears verdicts of its check, builds prompts and moves
the item's own counters; then it leaves the item open, or completes it, after a passing verdict or
on the model's word, or abandons it (`Served`). What follows is the sweep at the step boundary, a
turn of which does bookkeeping too or reopens its item (`Rechecked`).

Both are proved for any relation `R` that contains the bookkeeping about one item (`Bookkeeping`):
a property of runs is treated by saying what its own `R` is, and never looks into a phase. `Quiet`
is the relation that keeps every ledger.
-/

namespace Nanna.Harness

open Nanna.Lib

/-! ## What the events say -/

/-- How the run last left an item with its source. -/
inductive Status
  | untouched
  | completed
  | abandoned (check : Option AcceptanceCheck)
  | reopened
  deriving DecidableEq

def Status.isClosed : Status → Bool
  | .completed | .abandoned _ => true
  | .untouched | .reopened => false

def Event.status? (id : Int) : Event → Option Status
  | .completed i => if i = id then some .completed else none
  | .abandoned i check => if i = id then some (.abandoned check) else none
  | .reopened i => if i = id then some .reopened else none
  | _ => none

def Event.verdict? (id : Int) : Event → Option Bool
  | .verdict i passed => if i = id then some passed else none
  | _ => none

def status (events : List Event) (id : Int) : Status :=
  (events.findSome? (·.status? id)).getD .untouched

/-- The most recent decided verdict of an item's check. -/
def lastVerdict (events : List Event) (id : Int) : Option Bool := events.findSome? (·.verdict? id)

variable {env : HarnessEnv} {cfg : LongHorizonConfig} {run run' m : HarnessRun} {step : TaskStep}
  {inp : PassInput} {events : List Event} {event : Event} {id i : Int} {passed : Bool}
  {ok : Int → Bool → Prop} {outcome : StepOutcome} {R : HarnessRun → HarnessRun → Prop}

theorem status_cons_of_none (h : event.status? id = none) :
    status (event :: events) id = status events id := by
  simp [status, h]

theorem status_cons_of_some {s : Status} (h : event.status? id = some s) :
    status (event :: events) id = s := by
  simp [status, h]

theorem lastVerdict_cons_of_none (h : event.verdict? id = none) :
    lastVerdict (event :: events) id = lastVerdict events id := by
  simp [lastVerdict, h]

@[simp] theorem status_completed : status (.completed id :: events) id = .completed :=
  status_cons_of_some (if_pos rfl)

@[simp] theorem status_abandoned {check : Option AcceptanceCheck} :
    status (.abandoned id check :: events) id = .abandoned check :=
  status_cons_of_some (if_pos rfl)

@[simp] theorem status_reopened : status (.reopened id :: events) id = .reopened :=
  status_cons_of_some (if_pos rfl)

@[simp] theorem lastVerdict_verdict : lastVerdict (.verdict id passed :: events) id = some passed := by
  simp [lastVerdict, Event.verdict?]

theorem status_cons_abandoned {check : Option AcceptanceCheck} :
    status (.abandoned id check :: events) i =
      if i = id then .abandoned check else status events i := by
  split
  · rename_i hi
    rw [hi, status_abandoned]
  · rename_i hi
    exact status_cons_of_none (if_neg (Ne.symm hi))

theorem status_cons_completed :
    status (.completed id :: events) i = if i = id then .completed else status events i := by
  split
  · rename_i hi
    rw [hi, status_completed]
  · rename_i hi
    exact status_cons_of_none (if_neg (Ne.symm hi))

theorem status_cons_reopened :
    status (.reopened id :: events) i = if i = id then .reopened else status events i := by
  split
  · rename_i hi
    rw [hi, status_reopened]
  · rename_i hi
    exact status_cons_of_none (if_neg (Ne.symm hi))

/-! ## Bookkeeping -/

/-- The states agree on the events, on the ledgers of closed items, and on the items. -/
structure Booked (run run' : HarnessRun) : Prop where
  events : run'.events = run.events
  verifiedThisRun : run'.verifiedThisRun = run.verifiedThisRun
  verifiedOutcomes : run'.verifiedOutcomes = run.verifiedOutcomes
  abandonedThisRun : run'.abandonedThisRun = run.abandonedThisRun
  abandonedUnverifiable : run'.abandonedUnverifiable = run.abandonedUnverifiable
  reopenedOnce : run'.reopenedOnce = run.reopenedOnce
  progress : run'.progress = run.progress

theorem Booked.rfl' : Booked run run := ⟨rfl, rfl, rfl, rfl, rfl, rfl, rfl⟩

/-- Verdicts and evidence about one item, and prompts over the list as it stands. -/
def Event.AboutItem (id : Int) (listed : List VerifiedOutcome) : Event → Prop
  | .verdict i _ | .novelFailure i | .novelSuccess i | .subtasksAdded i => i = id
  | .prompted _ l _ => l = listed
  | .flipped | .completed _ | .abandoned _ _ | .reopened _ => False

/-- A relation between states that contains hearing about one item. -/
structure Hearing (id : Int) (R : HarnessRun → HarnessRun → Prop) : Prop where
  trans : ∀ {run₁ run₂ run₃}, R run₁ run₂ → R run₂ run₃ → R run₁ run₃
  same : ∀ {run run'}, Booked run run' → R run run'
  say : ∀ {run} (event : Event), event.AboutItem id run.verifiedOutcomes → R run (run.say event)
  flip : ∀ {run : HarnessRun}, R run (run.replenishAll.say .flipped)

/-- A relation between states that contains the bookkeeping about one item. -/
structure Bookkeeping (id : Int) (R : HarnessRun → HarnessRun → Prop) : Prop
    extends Hearing id R where
  setItem : ∀ {run : HarnessRun} (item : ItemProgress), R run (run.setItem id item)

namespace Hearing

variable {R : HarnessRun → HarnessRun → Prop} {check : AcceptanceCheck}

theorem refl (hR : Hearing id R) : R run run := hR.same .rfl'

theorem noteCheckOutcome (hR : Hearing id R) :
    R run (run.noteCheckOutcome env check passed).1 :=
  hR.same ⟨rfl, rfl, rfl, rfl, rfl, rfl, rfl⟩

theorem creditCheckOutcome (hR : Hearing id R) :
    R run (run.creditCheckOutcome env check passed) := by
  simp only [HarnessRun.creditCheckOutcome]
  split
  · exact hR.trans hR.noteCheckOutcome hR.flip
  · exact hR.noteCheckOutcome

theorem payCheck (hR : Hearing id R) {elapsed : Nat} : R run (run.payCheck elapsed) :=
  hR.same ⟨rfl, rfl, rfl, rfl, rfl, rfl, rfl⟩

theorem sayNovel (hR : Hearing id R) {novelFailure novelSuccess : Bool} :
    R run (sayNovel id novelFailure novelSuccess run) := by
  have hfailure : R run (run.say (.novelFailure id)) := hR.say _ rfl
  cases novelFailure <;> cases novelSuccess
  · exact hR.refl
  · exact hR.say (.novelSuccess id) rfl
  · exact hfailure
  · exact hR.trans hfailure (hR.say (.novelSuccess id) rfl)

end Hearing

/-! ## Quiet steps -/

/-- Events that close and reopen nothing, with the verdicts `ok` admits and prompts over `listed`. -/
def Event.Quiet (ok : Int → Bool → Prop) (listed : List VerifiedOutcome) : Event → Prop
  | .verdict id passed => ok id passed
  | .prompted _ l _ => l = listed
  | .completed _ | .abandoned _ _ | .reopened _ => False
  | .flipped | .novelFailure _ | .novelSuccess _ | .subtasksAdded _ => True

theorem Event.Quiet.status? {listed : List VerifiedOutcome} (h : event.Quiet ok listed) :
    event.status? id = none := by
  cases event <;> first | rfl | exact h.elim

/-- The step keeps the ledgers, and its events are quiet. -/
structure Quiet (ok : Int → Bool → Prop) (run run' : HarnessRun) : Prop where
  events : ∃ news, run'.events = news ++ run.events ∧ ∀ e ∈ news, e.Quiet ok run.verifiedOutcomes
  verifiedThisRun : run'.verifiedThisRun = run.verifiedThisRun
  verifiedOutcomes : run'.verifiedOutcomes = run.verifiedOutcomes
  abandonedThisRun : run'.abandonedThisRun = run.abandonedThisRun
  abandonedUnverifiable : run'.abandonedUnverifiable = run.abandonedUnverifiable
  reopenedOnce : run'.reopenedOnce = run.reopenedOnce

/-- The verdicts of one item's check. -/
def About (id : Int) : Int → Bool → Prop := fun i _ => i = id

/-- Passing verdicts only. -/
def Passing : Int → Bool → Prop := fun _ passed => passed = true

namespace Quiet

/-- A step that leaves the ledgers and the events alone. -/
theorem same (hevents : run'.events = run.events)
    (hverified : run'.verifiedThisRun = run.verifiedThisRun)
    (houtcomes : run'.verifiedOutcomes = run.verifiedOutcomes)
    (habandoned : run'.abandonedThisRun = run.abandonedThisRun)
    (hunverifiable : run'.abandonedUnverifiable = run.abandonedUnverifiable)
    (hreopened : run'.reopenedOnce = run.reopenedOnce) : Quiet ok run run' :=
  ⟨⟨[], hevents, by simp⟩, hverified, houtcomes, habandoned, hunverifiable, hreopened⟩

theorem refl : Quiet ok run run := same rfl rfl rfl rfl rfl rfl

theorem say (event : Event) (h : event.Quiet ok run.verifiedOutcomes) :
    Quiet ok run (run.say event) :=
  ⟨⟨[event], rfl, by simpa using h⟩, rfl, rfl, rfl, rfl, rfl⟩

theorem trans (h : Quiet ok run m) (h' : Quiet ok m run') : Quiet ok run run' := by
  obtain ⟨news, hnews, hquiet⟩ := h.events
  obtain ⟨news', hnews', hquiet'⟩ := h'.events
  refine ⟨⟨news' ++ news, by rw [hnews', hnews, List.append_assoc], fun e he => ?_⟩, ?_, ?_, ?_, ?_, ?_⟩
  · rcases List.mem_append.mp he with he | he
    · exact h.verifiedOutcomes ▸ hquiet' e he
    · exact hquiet e he
  · rw [h'.verifiedThisRun, h.verifiedThisRun]
  · rw [h'.verifiedOutcomes, h.verifiedOutcomes]
  · rw [h'.abandonedThisRun, h.abandonedThisRun]
  · rw [h'.abandonedUnverifiable, h.abandonedUnverifiable]
  · rw [h'.reopenedOnce, h.reopenedOnce]

theorem bookkeeping : Bookkeeping id (Quiet (About id)) where
  trans := trans
  same h := .same h.events h.verifiedThisRun h.verifiedOutcomes h.abandonedThisRun
    h.abandonedUnverifiable h.reopenedOnce
  setItem _ := .same rfl rfl rfl rfl rfl rfl
  say event h := .say event <| by
    cases event with
    | flipped | completed | abandoned | reopened => exact h.elim
    | verdict | prompted => exact h
    | novelFailure | novelSuccess | subtasksAdded => trivial
  flip := by
    refine Quiet.trans ?_ (.say .flipped trivial)
    exact .same rfl rfl rfl rfl rfl rfl

theorem hearing : Hearing id (Quiet (About id)) := bookkeeping.toHearing

/-- A quiet step leaves every item as it was with the source. -/
theorem status (h : Quiet ok run run') : status run'.events id = status run.events id := by
  obtain ⟨news, hnews, hquiet⟩ := h.events
  rw [hnews]
  clear hnews
  induction news with
  | nil => rfl
  | cons e news ih =>
    rw [List.cons_append, status_cons_of_none (hquiet e (by simp)).status?]
    exact ih fun e' he' => hquiet e' (by simp [he'])

end Quiet

theorem lastVerdict_creditCheckOutcome {check : AcceptanceCheck} :
    lastVerdict (run.creditCheckOutcome env check passed).events id = lastVerdict run.events id := by
  simp only [HarnessRun.creditCheckOutcome]
  split
  · exact lastVerdict_cons_of_none rfl
  · rfl

/-! ## Abandoning an item -/

section

variable {reason : Text} {check : AcceptanceCheck}

@[simp] theorem events_abandonItem :
    (run.abandonItem step reason).events = .abandoned step.id step.acceptance :: run.events := by
  unfold HarnessRun.abandonItem HarnessRun.recordAbandonment
  dsimp only
  split <;> rfl

@[simp] theorem reopenedOnce_abandonItem :
    (run.abandonItem step reason).reopenedOnce = run.reopenedOnce := by
  unfold HarnessRun.abandonItem HarnessRun.recordAbandonment
  dsimp only
  split <;> rfl

@[simp] theorem verifiedOutcomes_abandonItem :
    (run.abandonItem step reason).verifiedOutcomes = run.verifiedOutcomes := by
  unfold HarnessRun.abandonItem HarnessRun.recordAbandonment
  dsimp only
  split <;> rfl

/-- A checked item goes on the sweep set. -/
theorem mem_abandonItem {c : Closed} :
    c ∈ (run.abandonItem step reason).abandonedThisRun ↔
      c ∈ run.abandonedThisRun ∨ ∃ check, step.acceptance = some check ∧
        c = ⟨step.id, step.title, check⟩ := by
  unfold HarnessRun.abandonItem HarnessRun.recordAbandonment
  dsimp only
  split
  · rename_i check hcheck
    simp [HarnessRun.removeItem, HarnessRun.say, hcheck]
  · rename_i hcheck
    simp [HarnessRun.removeItem, HarnessRun.say, hcheck]

/-- An item without a check is put on record at once. -/
theorem mem_unverifiable_abandonItem :
    i ∈ (run.abandonItem step reason).abandonedUnverifiable.map (·.id) ↔
      i ∈ run.abandonedUnverifiable.map (·.id) ∨ (step.acceptance = none ∧ i = step.id) := by
  unfold HarnessRun.abandonItem HarnessRun.recordAbandonment
  dsimp only
  split
  · rename_i check hcheck
    simp [HarnessRun.removeItem, HarnessRun.say, hcheck]
  · rename_i hcheck
    simp [HarnessRun.removeItem, HarnessRun.say, hcheck]

end

/-! ## One item -/

/-- The pass gives the item up: its steps and replans are spent, or the runner fails on it again. -/
def givesUp (cfg : LongHorizonConfig) (step : TaskStep) (inp : PassInput) (run : HarnessRun) :
    Bool :=
  let item := run.item step.id
  (decide (cfg.maxStepsPerItem ≤ item.stepsWithoutProgress) &&
      decide (cfg.maxReplansPerItem ≤ item.replans)) ||
    (!inp.runStep.toBool && decide (itemRunnerErrorsMax ≤ item.runnerErrors + 1))

/-- What a pass over an item comes to before the sweep. -/
inductive Served (R : HarnessRun → HarnessRun → Prop) (cfg : LongHorizonConfig) (step : TaskStep)
    (inp : PassInput) (run : HarnessRun) : HarnessRun → Prop
  | stays {run' : HarnessRun} (h : R run run') : Served R cfg step inp run run'
  | verified {m : HarnessRun} {check : AcceptanceCheck} {outcome : VerifiedOutcome} (h : R run m)
      (hverdict : lastVerdict m.events step.id = some true) (hid : outcome.id = step.id) :
      Served R cfg step inp run (m.completeVerified step check outcome)
  | unverified {m : HarnessRun} (h : R run m) :
      Served R cfg step inp run (m.completeUnverified step)
  | abandoned {m : HarnessRun} {reason : Text} (h : R run m)
      (hgives : givesUp cfg step inp run = true) :
      Served R cfg step inp run (m.abandonItem step reason)

/-! ## Phase by phase -/

@[simp] theorem item_setItem {item : ItemProgress} : (run.setItem id item).item id = item := by
  simp [HarnessRun.item, HarnessRun.setItem]

@[simp] theorem item_replenishAll :
    run.replenishAll.item id = { run.item id with stepsWithoutProgress := 0 } := by
  simp only [HarnessRun.item, HarnessRun.replenishAll]
  cases run.progress id <;> rfl

theorem runnerErrors_creditCheckOutcome {check : AcceptanceCheck} :
    ((run.creditCheckOutcome env check passed).item id).runnerErrors = (run.item id).runnerErrors := by
  simp only [HarnessRun.creditCheckOutcome]
  split
  · show ((run.noteCheckOutcome env check passed).1.replenishAll.item id).runnerErrors = _
    rw [item_replenishAll]
    rfl
  · rfl

theorem notePrecheckVerdict_booked (hR : Bookkeeping step.id R) {check : AcceptanceCheck}
    {verdict : AcceptanceVerdict} : R run (notePrecheckVerdict env step check verdict run) := by
  unfold notePrecheckVerdict
  split
  · refine hR.trans ?_ (hR.setItem _)
    exact hR.same ⟨rfl, rfl, rfl, rfl, rfl, rfl, rfl⟩
  · exact hR.trans (hR.say (.verdict step.id _) rfl) hR.creditCheckOutcome

theorem runnerErrors_notePrecheckVerdict {check : AcceptanceCheck} {verdict : AcceptanceVerdict} :
    ((notePrecheckVerdict env step check verdict run).item step.id).runnerErrors =
      (run.item step.id).runnerErrors := by
  unfold notePrecheckVerdict
  split
  · simp only [item_setItem]
    split <;> rfl
  · exact runnerErrors_creditCheckOutcome

theorem lastVerdict_notePrecheckVerdict {check : AcceptanceCheck} {verdict : AcceptanceVerdict}
    (h : verdict.passed = true) :
    lastVerdict (notePrecheckVerdict env step check verdict run).events step.id = some true := by
  unfold notePrecheckVerdict
  rw [if_neg (by simp [AcceptanceVerdict.not_unknown_of_passed h]), lastVerdict_creditCheckOutcome, h]
  exact lastVerdict_verdict

theorem precheck_served (hR : Bookkeeping step.id R) {due : Bool} (h : R run m) :
    (precheck env step due inp m).Ensures
      (fun _ r => R run r ∧ (r.item step.id).runnerErrors = (m.item step.id).runnerErrors)
      (fun _ r => Served R cfg step inp run r) := by
  unfold precheck
  split
  · exact ⟨h, rfl⟩
  · rename_i check _
    have hbooked : R run
        (notePrecheckVerdict env step check inp.precheck.judged (m.payCheck inp.precheck.elapsed)) :=
      hR.trans (hR.trans h hR.payCheck) (notePrecheckVerdict_booked hR)
    have herrors : ((notePrecheckVerdict env step check inp.precheck.judged
        (m.payCheck inp.precheck.elapsed)).item step.id).runnerErrors =
        (m.item step.id).runnerErrors := runnerErrors_notePrecheckVerdict
    simp only
    split
    · rename_i hpassed
      split
      · refine .verified (hR.trans hbooked ?_) (lastVerdict_notePrecheckVerdict hpassed) rfl
        exact hR.same ⟨rfl, rfl, rfl, rfl, rfl, rfl, rfl⟩
      · exact ⟨hbooked, herrors⟩
    · exact ⟨hbooked, herrors⟩

theorem stepPrompt_booked (hR : Hearing id R) {isReplan escalate : Bool} :
    R run (stepPrompt isReplan escalate run) := by
  unfold stepPrompt
  split
  · exact hR.say _ rfl
  · exact hR.say _ rfl

theorem runStep_served (hR : Bookkeeping step.id R) (h : R run m)
    (herrors : (m.item step.id).runnerErrors = (run.item step.id).runnerErrors) :
    (runStep cfg step inp m).Ensures (fun _ r => R run r) fun _ r => Served R cfg step inp run r := by
  unfold runStep
  split
  · exact hR.trans h (hR.same ⟨rfl, rfl, rfl, rfl, rfl, rfl, rfl⟩)
  · rename_i message hrun
    dsimp only
    have hbooked : ∀ item, R run
        ({ m.countError with lastRunnerError := some message }.setItem step.id item) := fun item => by
      refine hR.trans (hR.trans h ?_) (hR.setItem item)
      exact hR.same ⟨rfl, rfl, rfl, rfl, rfl, rfl, rfl⟩
    split
    · rename_i hmax
      have hgives : givesUp cfg step inp run = true := by
        have hmax : itemRunnerErrorsMax ≤ (m.item step.id).runnerErrors + 1 := hmax
        rw [herrors] at hmax
        simp [givesUp, hrun, Except.toBool, hmax]
      split
      · exact .stays (hbooked _)
      · exact .abandoned (hbooked _) hgives
    · split
      · exact .stays (hbooked _)
      · exact .stays (hbooked _)

theorem recordStep_served (hR : Bookkeeping step.id R) {isReplan escalate : Bool}
    {before : Option Nat} (h : R run m) :
    (recordStep step outcome isReplan escalate before inp m).Ensures (fun _ r => R run r)
      fun _ r => Served R cfg step inp run r := by
  have hspent : R run (m.paySpend outcome) :=
    hR.trans h (hR.same ⟨rfl, rfl, rfl, rfl, rfl, rfl, rfl⟩)
  have hreplan : R run (m.paySpend outcome).countReplan :=
    hR.trans hspent (hR.same ⟨rfl, rfl, rfl, rfl, rfl, rfl, rfl⟩)
  simp only [recordStep]
  split
  · exact hR.trans hreplan (hR.setItem _)
  · split
    · refine .stays ?_
      split
      · exact hR.trans (hR.trans hreplan (hR.setItem _)) (hR.say (.subtasksAdded step.id) rfl)
      · exact hR.trans hreplan (hR.setItem _)
    · exact hR.trans hspent (hR.setItem _)

theorem fileStepFindings_served (hR : Bookkeeping step.id R) (h : R run m) :
    (fileStepFindings step outcome inp m).Ensures (fun _ r => R run r)
      fun _ r => Served R cfg step inp run r := by
  unfold fileStepFindings
  split
  · exact .stays h
  · exact hR.trans (hR.trans h (hR.setItem _)) (hR.same ⟨rfl, rfl, rfl, rfl, rfl, rfl, rfl⟩)

theorem completeFailed_served (hR : Bookkeeping step.id R) {message : Text} (h : R run m) :
    (completeFailed cfg message m).Ensures (fun _ r => Served R cfg step inp run r)
      fun _ r => Served R cfg step inp run r := by
  have hbooked : R run m.countError := hR.trans h (hR.same ⟨rfl, rfl, rfl, rfl, rfl, rfl, rfl⟩)
  simp only [completeFailed]
  split
  · exact .stays hbooked
  · exact .stays hbooked

theorem judgeUnknown_booked (hR : Bookkeeping step.id R) {repeated : Bool}
    {verdict : AcceptanceVerdict} : R run (judgeUnknown env step outcome repeated verdict run) := by
  refine hR.trans (hR.trans ?_ (hR.setItem _)) hR.sayNovel
  exact hR.same ⟨rfl, rfl, rfl, rfl, rfl, rfl, rfl⟩

theorem judgeFailed_booked (hR : Bookkeeping step.id R) {check : AcceptanceCheck} {repeated : Bool}
    {verdict : AcceptanceVerdict} :
    R run (judgeFailed env step check outcome repeated verdict run) := by
  have hfailed : R run ((run.say (.verdict step.id false)).noteCheckOutcome env check false).1 :=
    hR.trans (hR.say (.verdict step.id false) rfl) hR.noteCheckOutcome
  refine hR.trans (hR.trans (hR.trans hfailed ?_) (hR.setItem _)) hR.sayNovel
  split
  · exact hR.same ⟨rfl, rfl, rfl, rfl, rfl, rfl, rfl⟩
  · exact hR.refl

theorem judgePassed_served (hR : Bookkeeping step.id R) {check : AcceptanceCheck}
    {verdict : AcceptanceVerdict} (h : R run m) :
    (judgePassed env cfg step check verdict inp m).Ensures
      (fun _ r => Served R cfg step inp run r) fun _ r => Served R cfg step inp run r := by
  simp only [judgePassed]
  have hbooked : R run
      (((m.setItem step.id { m.item step.id with consecutiveCheckTimeouts := 0 }).say
        (.verdict step.id true)).creditCheckOutcome env check true) :=
    hR.trans (hR.trans (hR.trans h (hR.setItem _)) (hR.say (.verdict step.id true) rfl))
      hR.creditCheckOutcome
  split
  · refine .verified hbooked ?_ rfl
    rw [lastVerdict_creditCheckOutcome]
    exact lastVerdict_verdict
  · exact completeFailed_served hR hbooked

theorem judgeUnchecked_served (hR : Bookkeeping step.id R) {repeated : Bool} (h : R run m) :
    (judgeUnchecked env cfg step outcome repeated inp m).Ensures
      (fun _ r => Served R cfg step inp run r) fun _ r => Served R cfg step inp run r := by
  simp only [judgeUnchecked]
  split
  · unfold completeUnchecked
    split
    · exact .unverified (hR.trans h (hR.setItem _))
    · exact completeFailed_served hR (hR.trans h (hR.setItem _))
  · exact .stays (hR.trans (hR.trans h (hR.setItem _)) hR.sayNovel)

theorem judgeStep_served (hR : Bookkeeping step.id R) {repeated : Bool} (h : R run m) :
    (judgeStep env cfg step outcome repeated inp m).Ensures
      (fun _ r => Served R cfg step inp run r) fun _ r => Served R cfg step inp run r := by
  unfold judgeStep
  split
  · have hpaid : R run (m.payCheck inp.check.elapsed) := hR.trans h hR.payCheck
    simp only [judgeChecked]
    split
    · exact .stays (hR.trans hpaid (judgeUnknown_booked hR))
    · split
      · exact judgePassed_served hR hpaid
      · exact .stays (hR.trans hpaid (judgeFailed_booked hR))
  · exact judgeUnchecked_served hR h

theorem work_served (hR : Bookkeeping step.id R) {gate : Gate} (h : R run m)
    (herrors : (m.item step.id).runnerErrors = (run.item step.id).runnerErrors) :
    (work env cfg step gate inp m).Ensures
      (fun _ r => ∃ outcome m, Served R cfg step inp run m ∧ r = midRunSweep env step outcome inp m)
      fun _ r => Served R cfg step inp run r := by
  refine (precheck_served hR h).andThen fun _ r₁ ⟨h₁, herrors₁⟩ => ?_
  have hprompt : ∀ isReplan escalate,
      ((stepPrompt isReplan escalate r₁).item step.id).runnerErrors =
        (run.item step.id).runnerErrors := by
    intro isReplan escalate
    rw [← herrors, ← herrors₁]
    unfold stepPrompt
    split <;> rfl
  refine (runStep_served hR (hR.trans h₁ (stepPrompt_booked hR.toHearing)) (hprompt _ _)).andThen
    fun outcome r₂ h₂ => ?_
  refine (recordStep_served hR h₂).andThen fun _ r₃ h₃ => ?_
  refine (fileStepFindings_served hR h₃).andThen fun repeated r₄ h₄ => ?_
  exact (judgeStep_served hR h₄).andThen fun _ r₅ h₅ => ⟨outcome, r₅, h₅, rfl⟩

/-- A pass over an item before the sweep at the step boundary. -/
theorem serve_served (hR : Bookkeeping step.id R) :
    (serve env cfg step inp run).Ensures
      (fun _ r => ∃ outcome m, Served R cfg step inp run m ∧ r = midRunSweep env step outcome inp m)
      fun _ r => Served R cfg step inp run r := by
  simp only [serve]
  split
  · rename_i hspent
    have hgives : givesUp cfg step inp run = true := Bool.or_eq_true_iff.mpr (.inl hspent)
    unfold abandonExhausted
    split
    · exact .stays (hR.setItem _)
    · exact .abandoned (hR.setItem _) hgives
  · refine work_served hR (hR.setItem _) ?_
    rw [itemGate, item_setItem]

theorem admitInterjected_quiet : Quiet ok run (admitInterjected inp run) := by
  unfold admitInterjected
  split
  · exact .same rfl rfl rfl rfl rfl rfl
  · exact .refl

theorem givesUp_admitInterjected :
    givesUp cfg step inp (admitInterjected inp run) = givesUp cfg step inp run := by
  unfold admitInterjected
  split <;> rfl

/-! ## The sweeps -/

/-- What a turn of a sweep comes to. -/
inductive Rechecked (R : HarnessRun → HarnessRun → Prop) (c : Closed) (run : HarnessRun) :
    HarnessRun → Prop
  | stays {run' : HarnessRun} (h : R run run') : Rechecked R c run run'
  | revived {m : HarnessRun} (h : R run m) : Rechecked R c run (m.revive c.id)
  | regressed {m : HarnessRun} (h : R run m) : Rechecked R c run (m.regress c.id)

variable {c : Closed} {answer : SweepAnswer} {flag : Bool}

theorem Rechecked.verifiedOutcomes (h : Rechecked (Quiet ok) c run run') :
    run'.verifiedOutcomes = run.verifiedOutcomes := by
  cases h with
  | stays h => exact h.verifiedOutcomes
  | revived h => exact h.verifiedOutcomes
  | regressed h => exact h.verifiedOutcomes

theorem Rechecked.abandonedThisRun (h : Rechecked (Quiet ok) c run run') :
    run'.abandonedThisRun = run.abandonedThisRun := by
  cases h with
  | stays h => exact h.abandonedThisRun
  | revived h => exact h.abandonedThisRun
  | regressed h => exact h.abandonedThisRun

/-- The targets of the sweep at a step boundary. -/
theorem mem_targets {c : Closed} {closed : List Closed} {fullDue : Bool} {touchedPaths : List Text}
    (h : c ∈ selectResweepTargets (eligible step run closed) fullDue touchedPaths) :
    c ∈ closed ∧ c.id ≠ step.id ∧ c.id ∉ run.reopenedOnce := by
  have hc := selectResweepTargets_subset h
  simpa [eligible] using hc

/-- A decided failure. -/
def SweepAnswer.failsAgain (answer : SweepAnswer) : Bool :=
  !answer.check.judged.isUnknown && !answer.check.judged.passed

theorem reviveAbandonedOne_rechecked (hR : Hearing c.id R) :
    Rechecked R c run (reviveAbandonedOne env c answer run) := by
  have hpaid : R run { run with sweepCostPaid := run.sweepCostPaid + answer.check.elapsed } :=
    hR.same ⟨rfl, rfl, rfl, rfl, rfl, rfl, rfl⟩
  have hheard := hR.trans (hR.trans hpaid (hR.say (.verdict c.id answer.check.judged.passed) rfl))
    (hR.creditCheckOutcome : R _ (HarnessRun.creditCheckOutcome _ env c.check
      answer.check.judged.passed))
  unfold reviveAbandonedOne
  dsimp only
  split
  · exact .stays (hR.trans hpaid (hR.same ⟨rfl, rfl, rfl, rfl, rfl, rfl, rfl⟩))
  · split
    · split
      · exact .revived hheard
      · exact .stays hheard
    · exact .stays hheard

theorem recheckVerifiedOne_rechecked (hR : Hearing c.id R) :
    Rechecked R c run (recheckVerifiedOne env c answer run) := by
  have hpaid : R run { run with sweepCostPaid := run.sweepCostPaid + answer.check.elapsed } :=
    hR.same ⟨rfl, rfl, rfl, rfl, rfl, rfl, rfl⟩
  have hheard := hR.trans (hR.trans hpaid (hR.say (.verdict c.id answer.check.judged.passed) rfl))
    (hR.noteCheckOutcome : R _ (HarnessRun.noteCheckOutcome _ env c.check
      answer.check.judged.passed).1)
  unfold recheckVerifiedOne
  dsimp only
  split
  · exact .stays (hR.trans hpaid (hR.same ⟨rfl, rfl, rfl, rfl, rfl, rfl, rfl⟩))
  · split
    · exact .stays hheard
    · split
      · exact .regressed hheard
      · exact .stays hheard

/-- A verified item whose check does not fail again is left alone. -/
theorem recheckVerifiedOne_passing (h : answer.failsAgain = false) :
    Quiet Passing run (recheckVerifiedOne env c answer run) := by
  unfold recheckVerifiedOne
  dsimp only
  split
  · exact .same rfl rfl rfl rfl rfl rfl
  · rename_i hknown
    have hpassed : answer.check.judged.passed = true := by
      simpa [SweepAnswer.failsAgain, hknown] using h
    rw [if_pos hpassed]
    refine Quiet.trans (m := run.say (.verdict c.id true)) ?_ ?_
    · exact .say (.verdict c.id true) rfl
    · exact .same (by rw [hpassed]; rfl) rfl rfl rfl rfl rfl

theorem drainAbandonedOne_rechecked (hR : Hearing c.id R) (h : c.id ∉ run.reopenedOnce) :
    Rechecked R c run (drainAbandonedOne env c answer (run, flag)).1 := by
  have hheard := hR.trans (hR.say (.verdict c.id answer.check.judged.passed) rfl)
    (hR.noteCheckOutcome : R _ (HarnessRun.noteCheckOutcome (run.say _) env c.check
      answer.check.judged.passed).1)
  unfold drainAbandonedOne
  dsimp only
  rw [if_neg h]
  split
  · exact .stays (hR.same ⟨rfl, rfl, rfl, rfl, rfl, rfl, rfl⟩)
  · split
    · split
      · exact .revived hheard
      · exact .stays hheard
    · exact .stays (hR.trans hheard (hR.same ⟨rfl, rfl, rfl, rfl, rfl, rfl, rfl⟩))

theorem drainVerifiedOne_rechecked (hR : Hearing c.id R) (h : c.id ∉ run.reopenedOnce) :
    Rechecked R c run (drainVerifiedOne env c answer (run, flag)).1 := by
  have hheard := hR.trans (hR.say (.verdict c.id answer.check.judged.passed) rfl)
    (hR.noteCheckOutcome : R _ (HarnessRun.noteCheckOutcome (run.say _) env c.check
      answer.check.judged.passed).1)
  unfold drainVerifiedOne
  dsimp only
  rw [if_neg h]
  split
  · exact .stays (hR.same ⟨rfl, rfl, rfl, rfl, rfl, rfl, rfl⟩)
  · split
    · exact .stays hheard
    · split
      · exact .regressed hheard
      · exact .stays hheard

theorem drainVerifiedOne_passing (h : answer.failsAgain = false) :
    Quiet Passing run (drainVerifiedOne env c answer (run, flag)).1 := by
  unfold drainVerifiedOne
  dsimp only
  split
  · exact .refl
  · split
    · exact .same rfl rfl rfl rfl rfl rfl
    · rename_i hknown
      have hpassed : answer.check.judged.passed = true := by
        simpa [SweepAnswer.failsAgain, hknown] using h
      rw [if_pos hpassed]
      refine Quiet.trans (.say (.verdict c.id _) hpassed) ?_
      exact .same rfl rfl rfl rfl rfl rfl

end Nanna.Harness
