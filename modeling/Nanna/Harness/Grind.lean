import Nanna.Harness.Budget
import Nanna.Harness.Digest

/-!
# How long an item can be ground on

`grinding_bounded`: between two pieces of evidence for an item, the loop takes at most `grindBound`
passes over it, and after the last of them the item is closed. The condition is on the source: what
it closed stays out of its queue, and it grants the completions a step asks for, or one refusal
stops the run.

Without the second half there is no bound (`refusals_unbounded`). The runner's success clears the
error count at the start of every step, so the refusal at its end never counts past one, and it is
charged to no counter of the item.

A pass that goes on pays (`serve_pays`): it spends one of the counters, finds evidence or closes the
item, and `standing` falls in each case.
-/

namespace Nanna.Harness

open Nanna.Lib

variable {env : HarnessEnv} {cfg : LongHorizonConfig} {run run' m : HarnessRun} {step : TaskStep}
  {inp : PassInput} {x : Int} {outcome : StepOutcome} {b b' b₁ b₂ : Budget}
  {B B' : Budget → Budget → Prop} {item : ItemProgress} {repeated : Bool}

/-! ## Spending a counter -/

/-- A pass spends one of the four counters. -/
inductive Spent (cfg : LongHorizonConfig) (b b' : Budget) : Prop
  | replanned (hlt : b.replans < cfg.maxReplansPerItem) (hreplans : b'.replans = b.replans + 1)
      (herrors : b'.errors = b.errors)
  | charged (hlt : b.charges < cfg.maxStepsPerItem) (hcharges : b.charges + 1 ≤ b'.charges)
      (hreplans : b'.replans = b.replans) (herrors : b'.errors = b.errors)
  | narrated (hlt : b.narration < narrationLadderSteps)
      (hnarration : b'.narration = b.narration + 1) (hcharges : b'.charges = b.charges) (hreplans : b'.replans = b.replans)
      (herrors : b'.errors = b.errors)
  | failed (hlt : b.errors < itemRunnerErrorsMax) (herrors : b'.errors = b.errors + 1)
      (hcharges : b'.charges = b.charges) (hreplans : b'.replans = b.replans)
      (hnarration : b'.narration = b.narration)

theorem Spent.potential (h : Spent cfg b b') : potential cfg b' + 1 ≤ potential cfg b := by
  cases h with
  | replanned hlt hreplans herrors => exact potential_replan hlt hreplans herrors
  | charged hlt hcharges hreplans herrors => exact potential_charge hlt hcharges hreplans herrors
  | narrated hlt hnarration hcharges hreplans herrors =>
    exact potential_narrate hlt hnarration hcharges hreplans herrors
  | failed hlt herrors hcharges hreplans hnarration =>
    exact potential_error hlt herrors hcharges hreplans hnarration

/-- What the recording of a step does: it books a replan, or finds the item short of its charges. -/
structure Ran (cfg : LongHorizonConfig) (outcome : StepOutcome) (b b' : Budget) : Prop where
  errors : b'.errors = b.errors
  answer : b'.answer = b.answer
  replanned : (b.replans < cfg.maxReplansPerItem ∧ b'.replans = b.replans + 1) ∨
    (b.charges < cfg.maxStepsPerItem ∧ b'.replans = b.replans ∧ b'.charges = b.charges ∧
      (outcome.toolCalls.isEmpty = true → b'.narration = b.narration))

/-- What a verdict without evidence does: it charges the item, or steers a step that only talked. -/
structure Judged (outcome : StepOutcome) (b b' : Budget) : Prop where
  errors : b'.errors = b.errors
  replans : b'.replans = b.replans
  spent : b.charges + 1 ≤ b'.charges ∨
    (outcome.toolCalls.isEmpty = true ∧ b.narration < narrationLadderSteps ∧
      b'.narration = b.narration + 1 ∧ b'.charges = b.charges)

theorem Judged.of_answered {answer : Option UInt64}
    (h : Judged outcome { b with answer := answer } b') : Judged outcome b b' :=
  ⟨h.errors, h.replans, h.spent⟩

theorem Ran.spent (h : Ran cfg outcome b b₁) (h' : Judged outcome b₁ b₂) : Spent cfg b b₂ := by
  have herrors : b₂.errors = b.errors := h'.errors.trans h.errors
  rcases h.replanned with ⟨hlt, hreplans⟩ | ⟨hlt, hreplans, hcharges, hnarration⟩
  · exact .replanned hlt (h'.replans.trans hreplans) herrors
  · rcases h'.spent with hcharged | ⟨htalk, hrung, hnarrated, hsame⟩
    · exact .charged hlt (hcharges ▸ hcharged) (h'.replans.trans hreplans) herrors
    · have hkept := hnarration htalk
      exact .narrated (hkept ▸ hrung) (hkept ▸ hnarrated) (hsame.trans hcharges)
        (h'.replans.trans hreplans) herrors

/-! ## Paying for a pass -/

/-- The step finds evidence for the item, closes it, or moves its budget as `B` says. -/
structure Pays (B : Budget → Budget → Prop) (x : Int) (run run' : HarnessRun) : Prop where
  marks_le : marks x run ≤ marks x run'
  reopenedOnce : x ∈ run'.reopenedOnce ↔ x ∈ run.reopenedOnce
  paid : marks x run' = marks x run →
    isClosed x run' = true ∨ B (run.item x).budget (run'.item x).budget

theorem Moved.pays (h : Moved B x run run') : Pays B x run run' :=
  ⟨h.marks_le, h.reopenedOnce, fun hmarks => .inr (h.budget hmarks)⟩

theorem Moved.then_pays {B'' : Budget → Budget → Prop} (h : Moved B x run m)
    (h' : Pays B' x m run')
    (hB : B (run.item x).budget (m.item x).budget → B' (m.item x).budget (run'.item x).budget →
      B'' (run.item x).budget (run'.item x).budget) : Pays B'' x run run' := by
  refine ⟨h.marks_le.trans h'.marks_le, h'.reopenedOnce.trans h.reopenedOnce, fun hmarks => ?_⟩
  have h₁ := h.marks_le
  have h₂ := h'.marks_le
  rcases h'.paid (by omega) with hclosed | hpaid
  · exact .inl hclosed
  · exact .inr (hB (h.budget (by omega)) hpaid)

theorem Moved.then_held (h : Moved B x run m) (h' : Held x m run') : Moved B x run run' :=
  h.comp h' fun hB hsame => hsame ▸ hB

theorem Held.then_moved (h : Held x run m) (h' : Moved B x m run') : Moved B x run run' :=
  Moved.comp h h' fun hsame hB => hsame ▸ hB

theorem Held.then_pays (h : Held x run m) (h' : Pays B x m run') : Pays B x run run' :=
  Moved.then_pays h h' fun hsame hB => hsame ▸ hB

theorem Moved.then_closed (h : Moved B x run m) (h' : Pays (fun _ _ => False) x m run') :
    Pays B' x run run' :=
  h.then_pays h' fun _ hfalse => hfalse.elim

/-- A step on the item itself. -/
theorem Moved.setItem (hB : B (run.item x).budget item.budget) :
    Moved B x run (run.setItem x item) := by
  refine ⟨le_rfl, .rfl, rfl, fun _ => ?_⟩
  rwa [item_setItem]

/-- A step on the item itself, after its budget was held. -/
theorem Held.then_setItem (h : Held x run m)
    (hB : (m.item x).budget = (run.item x).budget → B (run.item x).budget item.budget) :
    Moved B x run (m.setItem x item) := by
  have hset : Moved (fun _ b' => b' = item.budget) x m (m.setItem x item) := Moved.setItem rfl
  refine Moved.comp h hset fun hsame hitem => ?_
  rw [hitem]
  exact hB hsame

theorem Pays.of_lt (hlt : marks x run < marks x run')
    (hreopened : x ∈ run'.reopenedOnce ↔ x ∈ run.reopenedOnce) : Pays B x run run' :=
  ⟨hlt.le, hreopened, fun hmarks => absurd hmarks hlt.ne'⟩

theorem Pays.closed (hclosed : isClosed x run' = true) (hmarks : marks x run' = marks x run)
    (hreopened : run'.reopenedOnce = run.reopenedOnce) : Pays B x run run' :=
  ⟨hmarks.ge, by rw [hreopened], fun _ => .inl hclosed⟩

theorem Pays.completeVerified {check : AcceptanceCheck} {o : VerifiedOutcome} :
    Pays B step.id run (run.completeVerified step check o) := by
  refine .closed ?_ (List.countP_cons_of_neg Bool.false_ne_true) rfl
  show (status (.completed step.id :: run.events) step.id).isClosed = true
  rw [status_completed]
  rfl

theorem Pays.completeUnverified : Pays B step.id run (run.completeUnverified step) := by
  refine .closed ?_ (List.countP_cons_of_neg Bool.false_ne_true) rfl
  show (status (.completed step.id :: run.events) step.id).isClosed = true
  rw [status_completed]
  rfl

theorem Pays.abandonItem {reason : Text} : Pays B step.id run (run.abandonItem step reason) := by
  refine .closed ?_ marks_abandonItem reopenedOnce_abandonItem
  unfold isClosed
  rw [events_abandonItem, status_abandoned]
  rfl

/-- A pass over an open item that pays lowers its standing. -/
theorem Pays.descends (h : Pays (Spent cfg) x run run') (hopen : isClosed x run = false) :
    Descends cfg x 1 run run' := by
  refine ⟨h.marks_le, fun hmarks => ?_⟩
  unfold standing
  simp only [h.reopenedOnce, hopen, Bool.false_eq_true, if_false]
  rcases h.paid hmarks with hclosed | hspent
  · rw [if_pos hclosed]
    omega
  · have hpotential := hspent.potential
    split <;> omega

/-! ## Phase by phase -/

/-- What a pass that ends early and goes on with the next owes. -/
abbrev PaysNext (cfg : LongHorizonConfig) (x : Int) (run : HarnessRun) :
    IterationEnd → HarnessRun → Prop :=
  fun e r => e = .next → Pays (Spent cfg) x run r

theorem notePrecheckVerdict_held {check : AcceptanceCheck} {verdict : AcceptanceVerdict} :
    Held step.id run (notePrecheckVerdict env step check verdict run) := by
  have hearing : Hearing step.id (Held step.id) := Held.hearing
  unfold notePrecheckVerdict
  split
  · have hcounted : Held step.id run run.countUnknown :=
      hearing.same ⟨rfl, rfl, rfl, rfl, rfl, rfl, rfl⟩
    refine Held.then_moved hcounted (Moved.setItem ?_)
    split
    · rfl
    · rfl
  · exact hearing.trans (hearing.say (.verdict step.id _) rfl) hearing.creditCheckOutcome

/-- The pre-check finds the item satisfied and closes it. -/
def closesAtPrecheck (step : TaskStep) (due : Bool) (inp : PassInput) (run : HarnessRun) : Bool :=
  (precheckOf step due run).isSome && inp.precheck.judged.passed && inp.precheckComplete.toBool

theorem precheck_held {due : Bool} (h : Held step.id run m) :
    (precheck env step due inp m).Ensures
      (fun _ r => Held step.id run r ∧ closesAtPrecheck step due inp m = false)
      (PaysNext cfg step.id run) := by
  have hpaid : Held step.id run (m.payCheck inp.precheck.elapsed) :=
    h.trans (Held.same ⟨rfl, rfl, rfl, rfl, rfl, rfl, rfl⟩)
  unfold precheck closesAtPrecheck
  split
  · rename_i hnone
    exact ⟨h, by rw [hnone]; rfl⟩
  · rename_i check hsome
    have hnoted : ∀ r, Held step.id r (notePrecheckVerdict env step check inp.precheck.judged r) :=
      fun _ => notePrecheckVerdict_held
    have hheld := hpaid.trans (hnoted _)
    dsimp only
    split
    · split
      · intro _
        refine Moved.then_closed (hheld.trans ?_) .completeVerified
        exact Held.same ⟨rfl, rfl, rfl, rfl, rfl, rfl, rfl⟩
      · rename_i hrefused
        exact ⟨hheld, by simp [hrefused, Except.toBool]⟩
    · rename_i hfailed
      exact ⟨hheld, by simp [hfailed]⟩

theorem runStep_pays (h : Held step.id run m) :
    (runStep cfg step inp m).Ensures
      (fun outcome r => Held step.id run r ∧ marks step.id m ≤ marks step.id r ∧
        inp.runStep = .ok outcome)
      (PaysNext cfg step.id run) := by
  unfold runStep
  split
  · rename_i outcome hrun
    exact ⟨h.trans (Held.same ⟨rfl, rfl, rfl, rfl, rfl, rfl, rfl⟩), le_rfl, hrun⟩
  · rename_i message _
    have hcounted : Held step.id run { m.countError with lastRunnerError := some message } :=
      h.trans (Held.same ⟨rfl, rfl, rfl, rfl, rfl, rfl, rfl⟩)
    dsimp only
    split
    · split
      · rintro ⟨⟩
      · intro _
        have hset : ∀ item, Moved (fun _ _ => True) step.id run
            ({ m.countError with lastRunnerError := some message }.setItem step.id item) := fun _ =>
          hcounted.then_setItem fun _ => trivial
        exact (hset _).then_closed .abandonItem
    · rename_i hmax
      split
      · rintro ⟨⟩
      · refine fun _ => (hcounted.then_setItem fun hsame => ?_).pays
        have herrors := congrArg Budget.errors hsame
        have hlt : (run.item step.id).budget.errors < itemRunnerErrorsMax :=
          herrors ▸ Nat.lt_of_succ_lt (Nat.lt_of_not_le hmax)
        have hcharges := congrArg Budget.charges hsame
        have hreplans := congrArg Budget.replans hsame
        have hnarration := congrArg Budget.narration hsame
        exact .failed hlt (congrArg (· + 1) herrors) hcharges hreplans hnarration

theorem recordStep_ran {isReplan escalate : Bool} {before : Option Nat} (h : Held step.id run m)
    (hescalate : escalate = true → isReplan = true)
    (hgate : isReplan = true → (run.item step.id).replans < cfg.maxReplansPerItem)
    (hlt : isReplan = false → (run.item step.id).stepsWithoutProgress < cfg.maxStepsPerItem) :
    (recordStep step outcome isReplan escalate before inp m).Ensures
      (fun _ r => Moved (Ran cfg outcome) step.id run r ∧ marks step.id m ≤ marks step.id r ∧
        (isReplan = true → escalate = true))
      (PaysNext cfg step.id run) := by
  have hspent : Held step.id run (m.paySpend outcome) :=
    h.trans (Held.same ⟨rfl, rfl, rfl, rfl, rfl, rfl, rfl⟩)
  have hreplan : Held step.id run (m.paySpend outcome).countReplan :=
    hspent.trans (Held.same ⟨rfl, rfl, rfl, rfl, rfl, rfl, rfl⟩)
  simp only [recordStep]
  split
  · rename_i hescalated
    refine ⟨hreplan.then_setItem fun hsame => ?_, le_rfl, fun _ => hescalated⟩
    have herrors := congrArg Budget.errors hsame
    have hanswer := congrArg Budget.answer hsame
    have hreplans := congrArg Budget.replans hsame
    exact ⟨herrors, hanswer, .inl ⟨hgate (hescalate hescalated), congrArg (· + 1) hreplans⟩⟩
  · split
    · rename_i hreplanned
      intro _
      have hmoved : ∀ item, item.replans = (m.item step.id).replans + 1 →
          item.runnerErrors = (m.item step.id).runnerErrors →
          Moved (Spent cfg) step.id run ((m.paySpend outcome).countReplan.setItem step.id item) :=
        fun item hreplans herrors => hreplan.then_setItem fun hsame =>
          .replanned (hgate hreplanned) (hreplans.trans (congrArg (fun b => b.replans + 1) hsame))
            (herrors.trans (congrArg Budget.errors hsame))
      split
      · refine (hmoved _ ?_ ?_).then_pays (Moved.pays (Held.say rfl))
          fun hspent hsame => hsame ▸ hspent
        · split <;> rfl
        · split <;> rfl
      · refine (hmoved _ ?_ ?_).pays
        · split <;> rfl
        · split <;> rfl
    · rename_i hstep
      refine ⟨hspent.then_setItem fun hsame => ?_, le_rfl,
        fun hreplanned => absurd hreplanned hstep⟩
      have herrors := congrArg Budget.errors hsame
      have hanswer := congrArg Budget.answer hsame
      have hreplans := congrArg Budget.replans hsame
      have hcharges := congrArg Budget.charges hsame
      have hnarration := congrArg Budget.narration hsame
      exact ⟨herrors, hanswer, .inr ⟨hlt (Bool.eq_false_iff.mpr hstep), hreplans, hcharges,
        fun htalk => (if_pos htalk).trans hnarration⟩⟩

theorem fileStepFindings_moved (h : Moved B step.id run m) :
    (fileStepFindings step outcome inp m).Ensures
      (fun _ r => Moved B step.id run r ∧ marks step.id m ≤ marks step.id r ∧
        inp.cancelledAfterStep = false)
      (PaysNext cfg step.id run) := by
  unfold fileStepFindings
  split
  · rintro ⟨⟩
  · rename_i hcancelled
    have hset : Held step.id m
        (m.setItem step.id { m.item step.id with lastToolCalls := outcome.toolCalls }) :=
      Held.setItem fun _ => rfl
    refine ⟨h.then_held (hset.trans ?_), le_rfl, Bool.eq_false_iff.mpr hcancelled⟩
    exact Held.same ⟨rfl, rfl, rfl, rfl, rfl, rfl, rfl⟩

/-! ## The verdict -/

theorem budget_novelSuccessEvidence {calls : List StepToolCall} :
    (novelSuccessEvidence env item calls).1.budget = item.budget := by
  unfold novelSuccessEvidence
  refine List.foldlRecOn (motive := fun acc : ItemProgress × Bool => acc.1.budget = item.budget)
    calls _ rfl ?_
  rintro ⟨seen, novel⟩ hseen call _
  dsimp only
  split
  · exact hseen
  · exact hseen

theorem settle_judged : Judged outcome item.budget (settle false outcome repeated item).budget := by
  unfold settle
  rw [if_neg Bool.false_ne_true]
  split
  · rename_i hsteered
    simp only [degenerate, Bool.and_eq_true, decide_eq_true_eq] at hsteered
    exact ⟨rfl, rfl, .inr ⟨hsteered.1.2, hsteered.2, rfl, rfl⟩⟩
  · refine ⟨rfl, rfl, .inl (Nat.add_le_add_left ?_ _)⟩
    split <;> decide

theorem settle_evidence_judged {replenish : Bool} (hnone : replenish = false)
    (hbudget : item.budget = b) :
    Judged outcome b (settle replenish outcome repeated
      (novelSuccessEvidence env item outcome.toolCalls).1).budget := by
  have hsame : (novelSuccessEvidence env item outcome.toolCalls).1.budget = item.budget :=
    budget_novelSuccessEvidence
  rw [hnone, ← hbudget, ← hsame]
  exact settle_judged

theorem marks_lt_sayNovel {novelFailure novelSuccess : Bool}
    (hnovel : (novelFailure || novelSuccess) = true) :
    marks x run < marks x (sayNovel x novelFailure novelSuccess run) := by
  have hfailure : marks x run < marks x (run.say (.novelFailure x)) :=
    marks_lt_say (decide_eq_true rfl)
  have hsuccess : ∀ r : HarnessRun, marks x r < marks x (r.say (.novelSuccess x)) := fun _ =>
    marks_lt_say (decide_eq_true rfl)
  cases novelFailure <;> cases novelSuccess
  · cases hnovel
  · exact hsuccess run
  · exact hfailure
  · exact hfailure.trans (hsuccess _)

/-- A verdict finds new evidence or spends a counter. -/
theorem settled_pays {novelFailure novelSuccess : Bool}
    (hjudged : (novelFailure || novelSuccess) = false →
      Judged outcome (run.item x).budget item.budget) :
    Pays (Judged outcome) x run (sayNovel x novelFailure novelSuccess (run.setItem x item)) := by
  rcases Bool.eq_false_or_eq_true (novelFailure || novelSuccess) with hnovel | hnone
  · have hearing : Hearing x (Held x) := Held.hearing
    have hlt : marks x (run.setItem x item) <
        marks x (sayNovel x novelFailure novelSuccess (run.setItem x item)) :=
      marks_lt_sayNovel hnovel
    exact .of_lt hlt hearing.sayNovel.reopenedOnce
  · obtain ⟨rfl, rfl⟩ := Bool.or_eq_false_iff.mp hnone
    exact Moved.pays (Moved.setItem (hjudged hnone))

theorem judgeUnknown_pays {verdict : AcceptanceVerdict} :
    Pays (Judged outcome) step.id m (judgeUnknown env step outcome repeated verdict m) := by
  have hcounted : Held step.id m m.countUnknown := Held.same ⟨rfl, rfl, rfl, rfl, rfl, rfl, rfl⟩
  refine Held.then_pays hcounted (settled_pays fun hnone => ?_)
  have hjudged : Judged outcome (m.item step.id).budget
      (settle _ outcome repeated
        (novelSuccessEvidence env (m.item step.id) outcome.toolCalls).1).budget :=
    settle_evidence_judged hnone rfl
  exact hjudged

theorem judgeFailed_pays {check : AcceptanceCheck} {verdict : AcceptanceVerdict} :
    Pays (Judged outcome) step.id m (judgeFailed env step check outcome repeated verdict m) := by
  have hearing : Hearing step.id (Held step.id) := Held.hearing
  have hnoted : Held step.id m
      ((m.say (.verdict step.id false)).noteCheckOutcome env check false).1 :=
    hearing.trans (hearing.say (.verdict step.id false) rfl) hearing.noteCheckOutcome
  refine Held.then_pays (hnoted.trans ?_) (settled_pays fun hnone => ?_)
  · split
    · exact Held.same ⟨rfl, rfl, rfl, rfl, rfl, rfl, rfl⟩
    · exact Held.refl
  · exact settle_evidence_judged hnone rfl

/-- The source refuses a completion: an error limit of one stops the run. -/
theorem completeFailed_pays {message : Text} (h : Moved B step.id run m)
    (hmax : marks step.id m = marks step.id run → cfg.maxConsecutiveErrors ≤ 1) :
    (completeFailed cfg message m).Ensures (fun _ r => Pays B' step.id run r)
      (PaysNext cfg step.id run) := by
  have hcounted : Held step.id m m.countError := Held.same ⟨rfl, rfl, rfl, rfl, rfl, rfl, rfl⟩
  simp only [completeFailed]
  split
  · rintro ⟨⟩
  · rename_i hgoes
    have hmoved := h.then_held hcounted
    refine ⟨hmoved.marks_le, hmoved.reopenedOnce, fun hmarks => absurd ?_ hgoes⟩
    exact (hmax hmarks).trans (Nat.le_add_left 1 _)

/-- The judge asks the source to complete the item. -/
def completionAsked (env : HarnessEnv) (step : TaskStep) (outcome : StepOutcome) (inp : PassInput)
    (lastAnswer : Option UInt64) : Bool :=
  match step.acceptance with
  | some _ => inp.check.judged.passed
  | none =>
    stepClaimsCompletion outcome.text ||
      answerConverged lastAnswer (toolFreeAnswerFingerprint env outcome)

theorem judgePassed_pays {check : AcceptanceCheck} {verdict : AcceptanceVerdict}
    (h : Moved B step.id run m)
    (hgranted : marks step.id m = marks step.id run →
      inp.complete = .ok () ∨ cfg.maxConsecutiveErrors ≤ 1) :
    (judgePassed env cfg step check verdict inp m).Ensures (fun _ r => Pays B' step.id run r)
      (PaysNext cfg step.id run) := by
  have hset : Held step.id m
      (m.setItem step.id { m.item step.id with consecutiveCheckTimeouts := 0 }) :=
    Held.setItem fun _ => rfl
  have hsaid : ∀ r : HarnessRun, Held step.id r (r.say (.verdict step.id true)) := fun _ =>
    Held.say rfl
  have hcredited : ∀ r, Held step.id r (r.creditCheckOutcome env check true) := fun _ =>
    Hearing.creditCheckOutcome (Held.hearing : Hearing step.id _)
  have hheard := (hset.trans (hsaid _)).trans (hcredited _)
  simp only [judgePassed]
  split
  · exact (h.then_held hheard).then_closed .completeVerified
  · rename_i hrefused
    refine completeFailed_pays (h.then_held hheard) fun hmarks => (hgranted ?_).resolve_left ?_
    · exact le_antisymm (hheard.marks_le.trans hmarks.le) h.marks_le
    · rw [hrefused]
      rintro ⟨⟩

theorem judgeChecked_pays {check : AcceptanceCheck} (h : Moved (Ran cfg outcome) step.id run m)
    (hgranted : marks step.id m = marks step.id run → inp.check.judged.passed = true →
      inp.complete = .ok () ∨ cfg.maxConsecutiveErrors ≤ 1) :
    (judgeChecked env cfg step check outcome repeated inp m).Ensures
      (fun _ r => Pays (Spent cfg) step.id run r) (PaysNext cfg step.id run) := by
  have hpaid : Moved (Ran cfg outcome) step.id run (m.payCheck inp.check.elapsed) :=
    h.then_held (Held.same ⟨rfl, rfl, rfl, rfl, rfl, rfl, rfl⟩)
  simp only [judgeChecked]
  split
  · exact hpaid.then_pays judgeUnknown_pays fun hran hjudged => hran.spent hjudged
  · split
    · rename_i hpassed
      exact judgePassed_pays hpaid fun hmarks => hgranted hmarks hpassed
    · exact hpaid.then_pays judgeFailed_pays fun hran hjudged => hran.spent hjudged

theorem judgeUnchecked_pays (h : Moved (Ran cfg outcome) step.id run m)
    (hgranted : marks step.id m = marks step.id run →
      (stepClaimsCompletion outcome.text ||
        answerConverged (run.item step.id).lastAnswerFingerprint
          (toolFreeAnswerFingerprint env outcome)) = true →
      inp.complete = .ok () ∨ cfg.maxConsecutiveErrors ≤ 1) :
    (judgeUnchecked env cfg step outcome repeated inp m).Ensures
      (fun _ r => Pays (Spent cfg) step.id run r) (PaysNext cfg step.id run) := by
  have hanswer : marks step.id m = marks step.id run →
      (m.item step.id).lastAnswerFingerprint = (run.item step.id).lastAnswerFingerprint :=
    fun hmarks => (h.budget hmarks).answer
  simp only [judgeUnchecked]
  split
  · rename_i hasked
    have hset : ∀ item, Moved (fun _ _ => True) step.id run (m.setItem step.id item) := fun _ =>
      h.comp (Moved.setItem trivial : Moved (fun _ _ => True) _ _ _) fun _ _ => trivial
    unfold completeUnchecked
    split
    · exact (hset _).then_closed .completeUnverified
    · rename_i hrefused
      refine completeFailed_pays (hset _) fun hmarks => (hgranted hmarks ?_).resolve_left ?_
      · have hmarks : marks step.id m = marks step.id run := hmarks
        rwa [← hanswer hmarks]
      · rw [hrefused]
        rintro ⟨⟩
  · refine h.then_pays (settled_pays fun hnone => ?_) fun hran hjudged => hran.spent hjudged
    exact Judged.of_answered (settle_evidence_judged hnone rfl)

theorem judgeStep_pays (h : Moved (Ran cfg outcome) step.id run m)
    (hgranted : marks step.id m = marks step.id run →
      completionAsked env step outcome inp (run.item step.id).lastAnswerFingerprint = true →
      inp.complete = .ok () ∨ cfg.maxConsecutiveErrors ≤ 1) :
    (judgeStep env cfg step outcome repeated inp m).Ensures
      (fun _ r => Pays (Spent cfg) step.id run r) (PaysNext cfg step.id run) := by
  unfold completionAsked at hgranted
  unfold judgeStep
  split
  · rename_i hcheck
    rw [hcheck] at hgranted
    exact judgeChecked_pays h hgranted
  · rename_i hcheck
    rw [hcheck] at hgranted
    exact judgeUnchecked_pays h hgranted

/-! ## The pass -/

/-- The pass gets to the judge, and the judge asks the source to complete the item. -/
def asksCompletion (env : HarnessEnv) (cfg : LongHorizonConfig) (step : TaskStep) (inp : PassInput)
    (run : HarnessRun) : Bool :=
  let item := run.item step.id
  match inp.runStep with
  | .error _ => false
  | .ok outcome =>
    !closesAtPrecheck step (!item.acceptancePrechecked) inp run && !inp.cancelledAfterStep &&
      (decide (item.stepsWithoutProgress < cfg.maxStepsPerItem) ||
        (decide (item.replans < cfg.maxReplansPerItem) && decide (0 < item.dryReplans))) &&
      completionAsked env step outcome inp item.lastAnswerFingerprint

/-- The source grants what the pass asks it to complete, or one refusal stops the run. -/
def Grants (env : HarnessEnv) (cfg : LongHorizonConfig) (step : TaskStep) (inp : PassInput)
    (run : HarnessRun) : Prop :=
  asksCompletion env cfg step inp run = true →
    inp.complete = .ok () ∨ cfg.maxConsecutiveErrors ≤ 1

theorem work_descends {gate : Gate} (hgrants : Grants env cfg step inp run)
    (hopen : isClosed step.id run = false)
    (hdue : gate.precheckDue = !(run.item step.id).acceptancePrechecked)
    (hreplan : gate.isReplan =
      decide (cfg.maxStepsPerItem ≤ (run.item step.id).stepsWithoutProgress))
    (hlive : gate.isReplan = true → (run.item step.id).replans < cfg.maxReplansPerItem)
    (h : Held step.id run m) (hprecheck : m.precheckIds = run.precheckIds) :
    (work env cfg step gate inp m).Ensures
      (fun _ r => Descends cfg step.id 1 run r) (PaysNext cfg step.id run) := by
  refine (precheck_held h).andThen fun _ r₁ ⟨h₁, hgoes⟩ => ?_
  have hprompt : ∀ isReplan escalate, Held step.id r₁ (stepPrompt isReplan escalate r₁) :=
    fun _ _ => stepPrompt_booked (Held.hearing : Hearing step.id _)
  refine (runStep_pays (h₁.trans (hprompt _ _))).andThen fun outcome r₂ ⟨h₂, hle₂, hran⟩ => ?_
  refine (recordStep_ran h₂ ?_ hlive ?_).andThen fun _ r₃ ⟨h₃, hle₃, hescalated⟩ => ?_
  · exact fun hescalate => (Bool.and_eq_true_iff.mp hescalate).1
  · intro hstep
    rw [hreplan] at hstep
    exact Nat.lt_of_not_le (of_decide_eq_false hstep)
  refine (fileStepFindings_moved h₃).andThen fun repeated r₄ ⟨h₄, hle₄, hcancelled⟩ => ?_
  refine (judgeStep_pays h₄ fun hmarks hasked => hgrants ?_).andThen fun _ r₅ h₅ => ?_
  · have hle : marks step.id r₁ ≤ marks step.id run :=
      ((hprompt _ _).marks_le.trans (hle₂.trans (hle₃.trans hle₄))).trans hmarks.le
    have hsame : (r₁.item step.id).budget = (run.item step.id).budget :=
      h₁.budget (le_antisymm hle h₁.marks_le)
    have hprechecked : closesAtPrecheck step (!(run.item step.id).acceptancePrechecked) inp run =
        false := by
      rw [← hgoes, hdue]
      unfold closesAtPrecheck precheckOf
      rw [hprecheck]
    have hreached : (run.item step.id).stepsWithoutProgress < cfg.maxStepsPerItem ∨
        ((run.item step.id).replans < cfg.maxReplansPerItem ∧
          0 < (run.item step.id).dryReplans) := by
      by_cases hstep : gate.isReplan = true
      · refine .inr ⟨hlive hstep, ?_⟩
        have hdry := of_decide_eq_true (Bool.and_eq_true_iff.mp (hescalated hstep)).2
        have hdries : (r₁.item step.id).dryReplans = (run.item step.id).dryReplans :=
          congrArg Budget.dryReplans hsame
        rwa [hdries] at hdry
      · rw [hreplan] at hstep
        exact .inl (Nat.lt_of_not_le fun hle => hstep (decide_eq_true hle))
    simp only [asksCompletion, hran, hprechecked, hcancelled, hasked]
    simpa using hreached
  · exact (h₅.descends hopen).trans midRunSweep_descends

/-- A pass over an open item lowers its standing. -/
theorem serve_descends (hgrants : Grants env cfg step inp run)
    (hopen : isClosed step.id run = false) :
    (serve env cfg step inp run).Ensures (fun _ r => Descends cfg step.id 1 run r)
      fun e r => e = .next → Descends cfg step.id 1 run r := by
  have hgated : Held step.id run (itemGate cfg step run).2 := Held.setItem fun _ => rfl
  simp only [serve]
  split
  · unfold abandonExhausted
    split
    · rintro ⟨⟩
    · exact fun _ => (Held.then_pays hgated .abandonItem).descends hopen
  · rename_i hlive
    refine (work_descends hgrants hopen rfl rfl (fun hreplan => ?_) hgated rfl).mono
      (fun _ _ h => h) fun _ _ h hnext => (h hnext).descends hopen
    rw [Bool.and_eq_true_iff, not_and] at hlive
    exact Nat.lt_of_not_le fun hle => hlive hreplan (decide_eq_true hle)

/-! ## A run -/

/-- The pass is spent on the item. -/
def serves (x : Int) (inp : PassInput) : Bool :=
  match inp.next with
  | .ok (some step) => decide (step.id = x)
  | _ => false

/-- What the source closed stays out of its queue until it is reopened. -/
def ClosedStaysOut (x : Int) (run : HarnessRun) (inp : PassInput) : Prop :=
  serves x inp = true → isClosed x run = false

/-- The source grants the completions it is asked for. -/
def CompletionsGranted (env : HarnessEnv) (cfg : LongHorizonConfig) (x : Int) (run : HarnessRun)
    (inp : PassInput) : Prop :=
  ∀ step, inp.next = .ok (some step) → step.id = x → Grants env cfg step inp run

theorem admitInterjected_held : Held x run (admitInterjected inp run) := by
  unfold admitInterjected
  split
  · exact Held.same ⟨rfl, rfl, rfl, rfl, rfl, rfl, rfl⟩
  · exact Held.refl

theorem grants_admitInterjected :
    Grants env cfg step inp (admitInterjected inp run) ↔ Grants env cfg step inp run := by
  unfold admitInterjected
  split <;> rfl

/-- A pass over another item does not raise the standing. -/
theorem serve_descends_of_ne (hne : x ≠ step.id) :
    (serve env cfg step inp run).Ensures (fun _ r => Descends cfg x 0 run r)
      fun _ r => Descends cfg x 0 run r := by
  refine (serve_served (Held.bookkeeping hne)).mono ?_ ?_
  · rintro _ _ ⟨outcome, m, hserved, rfl⟩
    exact (hserved.held hne).descends.trans midRunSweep_descends
  · exact fun _ _ hserved => (hserved.held hne).descends

/-- A pass that goes on lowers the standing of the item it served, and raises no other. -/
theorem iteration_descends (hstays : ClosedStaysOut x run inp)
    (hgranted : CompletionsGranted env cfg x run inp) :
    (iteration env cfg inp run).Ensures
      (fun _ r => Descends cfg x (if serves x inp then 1 else 0) run r)
      fun e r => e = .next → Descends cfg x (if serves x inp then 1 else 0) run r := by
  have hadmitted : Held x run (admitInterjected inp run) := admitInterjected_held
  unfold iteration
  split
  · rintro ⟨⟩
  · split
    · rintro ⟨⟩
    · split
      · rintro ⟨⟩
      · dsimp only
        split
        · rintro ⟨⟩
        · rename_i hnext
          have hdrained :
              Descends cfg x 0 run (drainSweep env inp (admitInterjected inp run)).state :=
            hadmitted.descends.trans drainSweep_descends
          rw [serves, hnext]
          cases hpass : drainSweep env inp (admitInterjected inp run) with
          | goOn _ r =>
            rw [hpass] at hdrained
            exact hdrained
          | ended e r =>
            rw [hpass] at hdrained
            exact fun _ => hdrained
        · rename_i step hnext
          rw [ClosedStaysOut, serves, hnext] at hstays
          rw [serves, hnext]
          by_cases hx : step.id = x
          · have hgrants := hgranted step hnext hx
            have hopen := hstays (decide_eq_true hx)
            subst hx
            have hserved := serve_descends (grants_admitInterjected.mpr hgrants)
              (hadmitted.isClosed.trans hopen)
            simp only [decide_true, if_true]
            refine hserved.mono (fun _ _ hd => ?_) fun _ _ hd hnext => ?_
            · exact (Nat.zero_add 1) ▸ hadmitted.descends.trans hd
            · exact (Nat.zero_add 1) ▸ hadmitted.descends.trans (hd hnext)
          · simp only [hx, decide_false, Bool.false_eq_true, if_false]
            refine (serve_descends_of_ne (Ne.symm hx)).mono (fun _ _ hd => ?_) fun _ _ hd _ => ?_
            · exact hadmitted.descends.trans hd
            · exact hadmitted.descends.trans hd

theorem playFrom_descends {inps : List PassInput}
    (hstays : Along env cfg (ClosedStaysOut x) run inps)
    (hgranted : Along env cfg (CompletionsGranted env cfg x) run inps)
    (hplay : playFrom env cfg run inps = (run', none)) :
    Descends cfg x (inps.countP (serves x)) run run' := by
  induction inps generalizing run with
  | nil =>
    obtain rfl : run = run' := (Prod.mk.inj hplay).1
    exact .refl
  | cons inp inps ih =>
    obtain ⟨hstay, hstays⟩ := hstays
    obtain ⟨hgrant, hgranted⟩ := hgranted
    have hpass := iteration_descends hstay hgrant
    rw [playFrom] at hplay
    rw [List.countP_cons, Nat.add_comm]
    rcases h : iteration env cfg inp run with _ | ⟨_ | _⟩ <;> rw [h] at hplay hstays hgranted hpass
    · exact Descent.trans hpass (ih hstays hgranted hplay)
    · exact Descent.trans (hpass rfl) (ih hstays hgranted hplay)
    · cases (Prod.mk.inj hplay).2

theorem playFrom_live {inps : List PassInput} (h : (playFrom env cfg run inps).2 = none) :
    playFrom env cfg run inps = ((playFrom env cfg run inps).1, none) :=
  Prod.ext rfl h

/-- **Main result.** In a stretch of a run that finds no new evidence for an item, the item takes at
most `grindBound` passes, and once it took so many it is closed. -/
theorem grinding_bounded {stretch : List PassInput}
    (hstays : Along env cfg (ClosedStaysOut x) run stretch)
    (hgranted : Along env cfg (CompletionsGranted env cfg x) run stretch)
    (hplay : playFrom env cfg run stretch = (run', none)) (hnone : marks x run' = marks x run) :
    stretch.countP (serves x) ≤ grindBound cfg ∧
      (stretch.countP (serves x) = grindBound cfg → isClosed x run' = true) := by
  have hfalls := (playFrom_descends hstays hgranted hplay).falls hnone
  have hstart : standing cfg x run ≤ grindBound cfg := standing_le
  refine ⟨by omega, fun hfull => ?_⟩
  have hzero : standing cfg x run' = 0 := by omega
  by_contra hopen
  unfold standing at hzero
  rw [if_neg hopen] at hzero
  omega

/-- The check fails, the same way every time. -/
def failing : PassInput :=
  { PassInput.serving fileItem with check := .of (.fail "file does not exist: app.py".toList) }

theorem grinding_bounded_twice :
    [failing, failing].countP (serves 1) ≤ grindBound .default ∧
      ([failing, failing].countP (serves 1) = grindBound .default →
        isClosed 1 (play .sample .default [failing, failing]).1 = true) := by
  have hgranted : ∀ run, CompletionsGranted .sample .default 1 run failing :=
    fun _ _ _ _ _ => .inl rfl
  have hlive :
      (playFrom .sample .default (HarnessRun.new .default) [failing, failing]).2 = none := by
    decide
  have hnone : marks 1 (play .sample .default [failing, failing]).1 =
      marks 1 (HarnessRun.new .default) := by decide +kernel
  refine grinding_bounded ⟨fun _ => ?_, ?_⟩ ⟨hgranted _, ?_⟩ (playFrom_live hlive) hnone
  · decide
  · change Along _ _ _ _ [_]
    exact ⟨fun _ => by decide, trivial⟩
  · change Along _ _ _ _ [_]
    exact ⟨hgranted _, trivial⟩

/-! ## A source that refuses -/

/-- The check passes, and the source refuses to complete the item. -/
def refusing : PassInput :=
  { PassInput.serving fileItem with complete := .error "storage is locked".toList }

/-- Every pass so far was refused. -/
structure Refused (run : HarnessRun) : Prop where
  charges : (run.item 1).stepsWithoutProgress = 0
  precheckIds : run.precheckIds = ∅
  verifiedThisRun : run.verifiedThisRun = []
  abandonedThisRun : run.abandonedThisRun = []
  checkOutcomes : ∀ identity, run.checkOutcomes identity ≠ some false
  marks : marks 1 run = 0
  status : status run.events 1 = .untouched

theorem consecutiveErrors_creditCheckOutcome {env : HarnessEnv} {run : HarnessRun}
    {check : AcceptanceCheck} {passed : Bool} :
    (run.creditCheckOutcome env check passed).consecutiveErrors = run.consecutiveErrors := by
  simp only [HarnessRun.creditCheckOutcome]
  split <;> rfl

namespace Refused

variable {run : HarnessRun} {item : ItemProgress} {event : Event}

theorem setItem (h : Refused run) (hcharges : item.stepsWithoutProgress = 0) :
    Refused (run.setItem 1 item) :=
  ⟨by rwa [item_setItem], h.precheckIds, h.verifiedThisRun, h.abandonedThisRun, h.checkOutcomes,
    h.marks, h.status⟩

theorem say (h : Refused run) (hevidence : event.isEvidence 1 = false)
    (hstatus : event.status? 1 = none) : Refused (run.say event) := by
  refine ⟨h.charges, h.precheckIds, h.verifiedThisRun, h.abandonedThisRun, h.checkOutcomes, ?_, ?_⟩
  · rw [marks_say, hevidence, h.marks]
    rfl
  · exact (status_cons_of_none hstatus).trans h.status

theorem creditCheckOutcome {check : AcceptanceCheck} (h : Refused run) :
    Refused (run.creditCheckOutcome .sample check true) := by
  have hflip : (run.noteCheckOutcome .sample check true).2 = false := by
    simp [HarnessRun.noteCheckOutcome, h.checkOutcomes]
  have hnoted : Refused (run.noteCheckOutcome .sample check true).1 := by
    refine ⟨h.charges, h.precheckIds, h.verifiedThisRun, h.abandonedThisRun, fun i => ?_, h.marks,
      h.status⟩
    simp only [HarnessRun.noteCheckOutcome]
    split
    · simp
    · exact h.checkOutcomes i
  simp only [HarnessRun.creditCheckOutcome]
  rwa [hflip, if_neg Bool.false_ne_true]

theorem runStep (h : Refused run) :
    (Harness.runStep .default fileItem refusing run).Ensures
      (fun outcome r => (Refused r ∧ r.consecutiveErrors = 0) ∧ outcome.toolCalls = [])
      fun _ _ => False :=
  ⟨⟨⟨h.charges, h.precheckIds, h.verifiedThisRun, h.abandonedThisRun, h.checkOutcomes, h.marks,
    h.status⟩, rfl⟩, rfl⟩

theorem record {outcome : StepOutcome} {before : Option Nat} (h : Refused run)
    (herrors : run.consecutiveErrors = 0) :
    (recordStep fileItem outcome false false before refusing run).Ensures
      (fun _ r => Refused r ∧ r.consecutiveErrors = 0) fun _ _ => False := by
  have hspent : Refused (run.paySpend outcome) :=
    ⟨h.charges, h.precheckIds, h.verifiedThisRun, h.abandonedThisRun, h.checkOutcomes, h.marks,
      h.status⟩
  exact ⟨hspent.setItem h.charges, herrors⟩

theorem file {outcome : StepOutcome} (h : Refused run) (herrors : run.consecutiveErrors = 0) :
    (fileStepFindings fileItem outcome refusing run).Ensures
      (fun _ r => Refused r ∧ r.consecutiveErrors = 0) fun _ _ => False := by
  have hset : Refused (run.setItem 1 { run.item 1 with lastToolCalls := outcome.toolCalls }) :=
    h.setItem h.charges
  exact ⟨⟨hset.charges, hset.precheckIds, hset.verifiedThisRun, hset.abandonedThisRun,
    hset.checkOutcomes, hset.marks, hset.status⟩, herrors⟩

/-- The refusal is counted once, and the limit is three. -/
theorem refusal {message : Text} (h : Refused run) (herrors : run.consecutiveErrors = 0) :
    (completeFailed .default message run).Ensures (fun _ r => Refused r) fun _ _ => False := by
  have hlt :
      ¬ LongHorizonConfig.default.maxConsecutiveErrors ≤ run.countError.consecutiveErrors := by
    have hone : run.countError.consecutiveErrors = 1 := congrArg (· + 1) herrors
    rw [hone]
    decide
  rw [completeFailed, if_neg hlt]
  exact ⟨h.charges, h.precheckIds, h.verifiedThisRun, h.abandonedThisRun, h.checkOutcomes, h.marks,
    h.status⟩

theorem judge {outcome : StepOutcome} {repeated : Bool} (h : Refused run)
    (herrors : run.consecutiveErrors = 0) :
    (judgeStep .sample .default fileItem outcome repeated refusing run).Ensures
      (fun _ r => Refused r) fun _ _ => False := by
  have hpaid : Refused (run.payCheck 1) :=
    ⟨h.charges, h.precheckIds, h.verifiedThisRun, h.abandonedThisRun, h.checkOutcomes, h.marks,
      h.status⟩
  have hsaid : ∀ r, Refused r → Refused (r.say (.verdict 1 true)) := fun _ hr => hr.say rfl rfl
  have hset : ∀ item, item.stepsWithoutProgress = 0 → Refused ((run.payCheck 1).setItem 1 item) :=
    fun _ => hpaid.setItem
  refine refusal (hsaid _ (hset _ ?_)).creditCheckOutcome ?_
  · exact h.charges
  · rw [consecutiveErrors_creditCheckOutcome]
    exact herrors

/-- A refused pass goes on, and leaves the item where it was. -/
theorem iteration (h : Refused run) :
    (iteration .sample .default refusing run).Ensures (fun _ r => Refused r) fun _ _ => False := by
  have hgate : (itemGate .default fileItem run).1.isReplan = false := by
    simp [itemGate, fileItem, h.charges, LongHorizonConfig.default]
  have hgated : Refused (itemGate .default fileItem run).2 := h.setItem h.charges
  show (serve .sample .default fileItem refusing run).Ensures _ _
  simp only [serve]
  rw [hgate, Bool.false_and, if_neg Bool.false_ne_true]
  have hprecheck : ∀ due,
      precheck .sample fileItem due refusing (itemGate .default fileItem run).2 =
      .goOn () (itemGate .default fileItem run).2 := by
    intro due
    simp [precheck, precheckOf, hgated.precheckIds]
  rw [work, hprecheck, hgate, Phase.goOn_andThen]
  have hprompted : Refused (stepPrompt false false (itemGate .default fileItem run).2) :=
    hgated.say rfl rfl
  refine hprompted.runStep.andThen fun outcome r₁ hran => ?_
  obtain ⟨⟨h₁, herrors₁⟩, -⟩ := hran
  refine (h₁.record herrors₁).andThen fun _ r₂ hrecorded => ?_
  obtain ⟨h₂, herrors₂⟩ := hrecorded
  refine (h₂.file herrors₂).andThen fun _ r₃ hfiled => ?_
  obtain ⟨h₃, herrors₃⟩ := hfiled
  refine (h₃.judge herrors₃).andThen fun _ r₄ h₄ => ?_
  show Refused (midRunSweep _ _ _ _ _)
  simpa [midRunSweep, eligible, h₄.verifiedThisRun, h₄.abandonedThisRun] using h₄

theorem play {run : HarnessRun} (h : Refused run) (n : Nat) :
    Along .sample .default (ClosedStaysOut 1) run (List.replicate n refusing) ∧
      (playFrom .sample .default run (List.replicate n refusing)).2 = none ∧
      Refused (playFrom .sample .default run (List.replicate n refusing)).1 := by
  induction n generalizing run with
  | zero => exact ⟨trivial, rfl, h⟩
  | succ n ih =>
    have hopen : isClosed 1 run = false := by
      rw [isClosed, h.status]
      rfl
    have hpass := h.iteration
    rw [List.replicate_succ, playFrom, Along]
    rcases hit : Harness.iteration .sample .default refusing run with _ | ⟨_ | _⟩ <;>
      rw [hit] at hpass
    · obtain ⟨halong, hlive, hplayed⟩ := ih hpass
      exact ⟨⟨fun _ => hopen, halong⟩, hlive, hplayed⟩
    · exact hpass.elim
    · exact hpass.elim

end Refused

/-- No number bounds the passes over an item whose completion is refused. -/
theorem refusals_unbounded :
    ¬ ∃ bound, ∀ stretch run,
      Along .sample .default (ClosedStaysOut 1) (HarnessRun.new .default) stretch →
      playFrom .sample .default (HarnessRun.new .default) stretch = (run, none) →
      marks 1 run = marks 1 (HarnessRun.new .default) → stretch.countP (serves 1) ≤ bound := by
  rintro ⟨bound, hbound⟩
  have hnew : Refused (HarnessRun.new .default) :=
    ⟨rfl, rfl, rfl, rfl, fun _ => nofun, rfl, rfl⟩
  obtain ⟨halong, hlive, hplayed⟩ := hnew.play (bound + 1)
  have hle := hbound (List.replicate (bound + 1) refusing) _ halong (playFrom_live hlive)
    (hplayed.marks.trans hnew.marks.symm)
  have hserves : serves 1 refusing = true := rfl
  rw [List.countP_replicate, if_pos hserves] at hle
  omega

end Nanna.Harness
