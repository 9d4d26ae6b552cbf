import Nanna.Harness.Ledger
import Nanna.Lib.Descent

/-!
# The budget of an item

Four counters bound the passes an item can take: charges, replans, narration rungs and runner
errors. `potential` weighs them so that a pass which earns nothing lowers it: a replan may give back
every charge and every rung, and a charge may give back every rung. `standing` is the potential of
an open item and what its one reopening can give back.

A pass over another item holds the budget (`Served.held`), and a sweep does not raise the standing
(`midRunSweep_descends`, `drainSweep_descends`): what a reopening gives back was kept for it.
-/

namespace Nanna.Harness

open Nanna.Lib

/-! ## Evidence -/

/-- New evidence for an item: a failure or a successful effect it had not seen, a subtask, or a
check that flipped. -/
def Event.isEvidence (x : Int) : Event → Bool
  | .flipped => true
  | .novelFailure i | .novelSuccess i | .subtasksAdded i => decide (i = x)
  | _ => false

/-- How often new evidence for an item was found. -/
def marks (x : Int) (run : HarnessRun) : Nat := run.events.countP (Event.isEvidence x)

/-- The item is completed or abandoned, and was not reopened since. -/
def isClosed (x : Int) (run : HarnessRun) : Bool := (status run.events x).isClosed

/-! ## Potential -/

/-- The counters that decide when an item is given up, and its last answer. -/
structure Budget where
  charges : Nat
  replans : Nat
  dryReplans : Nat
  narration : Nat
  errors : Nat
  answer : Option UInt64

def ItemProgress.budget (item : ItemProgress) : Budget where
  charges := item.stepsWithoutProgress
  replans := item.replans
  dryReplans := item.dryReplans
  narration := item.narrationSteps
  errors := item.runnerErrors
  answer := item.lastAnswerFingerprint

section

variable (cfg : LongHorizonConfig)

/-- One more than all a replan can give back. -/
def replanWorth : Nat := cfg.maxStepsPerItem * (narrationLadderSteps + 1) + narrationLadderSteps + 1

def potential (b : Budget) : Nat :=
  (cfg.maxReplansPerItem - b.replans) * replanWorth cfg +
    (cfg.maxStepsPerItem - b.charges) * (narrationLadderSteps + 1) +
    (narrationLadderSteps - b.narration) + (itemRunnerErrorsMax - b.errors)

/-- The potential of an item that no step ran on. -/
def freshPotential : Nat :=
  cfg.maxReplansPerItem * replanWorth cfg +
    cfg.maxStepsPerItem * (narrationLadderSteps + 1) + narrationLadderSteps + itemRunnerErrorsMax

/-- What an open item can still take, and what its reopening can give back. -/
def standing (x : Int) (run : HarnessRun) : Nat :=
  (if isClosed x run then 0 else potential cfg (run.item x).budget + 1) +
    if x ∈ run.reopenedOnce then 0 else freshPotential cfg + 1

/-- The passes an item can take between two pieces of evidence. -/
def grindBound : Nat := 2 * (freshPotential cfg + 1)

end

variable {env : HarnessEnv} {cfg : LongHorizonConfig} {run run' m : HarnessRun} {step : TaskStep}
  {inp : PassInput} {event : Event} {id x : Int} {passed : Bool} {outcome : StepOutcome}
  {b b' : Budget} {k : Nat} {c : Closed} {answer : SweepAnswer} {flag : Bool}

theorem potential_le : potential cfg b ≤ freshPotential cfg := by
  have hreplans : (cfg.maxReplansPerItem - b.replans) * replanWorth cfg ≤
      cfg.maxReplansPerItem * replanWorth cfg := Nat.mul_le_mul_right _ (Nat.sub_le _ _)
  have hcharges : (cfg.maxStepsPerItem - b.charges) * (narrationLadderSteps + 1) ≤
      cfg.maxStepsPerItem * (narrationLadderSteps + 1) := Nat.mul_le_mul_right _ (Nat.sub_le _ _)
  unfold potential freshPotential
  omega

theorem standing_le : standing cfg x run ≤ grindBound cfg := by
  have hle : potential cfg (run.item x).budget ≤ freshPotential cfg := potential_le
  unfold standing grindBound
  split <;> split <;> omega

/-- A replan pays for every charge and every rung it gives back. -/
theorem potential_replan (hlt : b.replans < cfg.maxReplansPerItem)
    (hreplans : b'.replans = b.replans + 1) (herrors : b'.errors = b.errors) :
    potential cfg b' + 1 ≤ potential cfg b := by
  have hsplit : (cfg.maxReplansPerItem - b.replans) * replanWorth cfg =
      (cfg.maxReplansPerItem - b'.replans) * replanWorth cfg + replanWorth cfg := by
    rw [hreplans, ← Nat.succ_mul]
    congr 1
    omega
  have hcharges : (cfg.maxStepsPerItem - b'.charges) * (narrationLadderSteps + 1) ≤
      cfg.maxStepsPerItem * (narrationLadderSteps + 1) := Nat.mul_le_mul_right _ (Nat.sub_le _ _)
  have hworth : replanWorth cfg =
      cfg.maxStepsPerItem * (narrationLadderSteps + 1) + narrationLadderSteps + 1 := rfl
  unfold potential
  rw [hsplit, herrors]
  omega

/-- A charge pays for every rung it gives back. -/
theorem potential_charge (hlt : b.charges < cfg.maxStepsPerItem)
    (hcharges : b.charges + 1 ≤ b'.charges) (hreplans : b'.replans = b.replans)
    (herrors : b'.errors = b.errors) : potential cfg b' + 1 ≤ potential cfg b := by
  have hle : (cfg.maxStepsPerItem - b'.charges) * (narrationLadderSteps + 1) ≤
      (cfg.maxStepsPerItem - b.charges - 1) * (narrationLadderSteps + 1) :=
    Nat.mul_le_mul_right _ (by omega)
  have hsplit : (cfg.maxStepsPerItem - b.charges) * (narrationLadderSteps + 1) =
      (cfg.maxStepsPerItem - b.charges - 1) * (narrationLadderSteps + 1) +
        (narrationLadderSteps + 1) := by
    rw [← Nat.succ_mul]
    congr 1
    omega
  unfold potential
  rw [hreplans, herrors, hsplit]
  omega

theorem potential_narrate (hlt : b.narration < narrationLadderSteps)
    (hnarration : b'.narration = b.narration + 1) (hcharges : b'.charges = b.charges)
    (hreplans : b'.replans = b.replans) (herrors : b'.errors = b.errors) :
    potential cfg b' + 1 ≤ potential cfg b := by
  unfold potential
  rw [hreplans, herrors, hcharges, hnarration]
  omega

theorem potential_error (hlt : b.errors < itemRunnerErrorsMax)
    (herrors : b'.errors = b.errors + 1) (hcharges : b'.charges = b.charges)
    (hreplans : b'.replans = b.replans) (hnarration : b'.narration = b.narration) :
    potential cfg b' + 1 ≤ potential cfg b := by
  unfold potential
  rw [hreplans, herrors, hcharges, hnarration]
  omega

/-! ## Steps that hold the budget -/

/-- The step moves an item's budget as `B` allows, unless it finds evidence, and leaves its place
with the source alone. -/
structure Moved (B : Budget → Budget → Prop) (x : Int) (run run' : HarnessRun) : Prop where
  marks_le : marks x run ≤ marks x run'
  reopenedOnce : x ∈ run'.reopenedOnce ↔ x ∈ run.reopenedOnce
  status : status run'.events x = status run.events x
  budget : marks x run' = marks x run → B (run.item x).budget (run'.item x).budget

/-- The step leaves the budget alone. -/
abbrev Held : Int → HarnessRun → HarnessRun → Prop := Moved fun b b' => b' = b

abbrev Descends (cfg : LongHorizonConfig) (x : Int) : Nat → HarnessRun → HarnessRun → Prop :=
  Descent (marks x) (standing cfg x)

theorem marks_say :
    marks x (run.say event) = marks x run + if event.isEvidence x then 1 else 0 := by
  simp [marks, HarnessRun.say, List.countP_cons]

theorem marks_lt_say (h : event.isEvidence x = true) : marks x run < marks x (run.say event) := by
  rw [marks_say, if_pos h]
  exact Nat.lt_succ_self _

theorem item_setItem_of_ne {item : ItemProgress} (h : x ≠ id) :
    (run.setItem id item).item x = run.item x := by
  simp [HarnessRun.item, HarnessRun.setItem, h]

theorem item_removeItem_of_ne (h : x ≠ id) : (run.removeItem id).item x = run.item x := by
  simp [HarnessRun.item, HarnessRun.removeItem, h]

theorem Event.AboutItem.status? {listed : List VerifiedOutcome} (h : event.AboutItem id listed) :
    event.status? x = none := by
  cases event <;> first | rfl | exact h.elim

theorem Moved.comp {B B' B'' : Budget → Budget → Prop} (h : Moved B x run m)
    (h' : Moved B' x m run')
    (hB : B (run.item x).budget (m.item x).budget → B' (m.item x).budget (run'.item x).budget →
      B'' (run.item x).budget (run'.item x).budget) : Moved B'' x run run' := by
  refine ⟨h.marks_le.trans h'.marks_le, h'.reopenedOnce.trans h.reopenedOnce,
    h'.status.trans h.status, fun hmarks => ?_⟩
  have h₁ := h.marks_le
  have h₂ := h'.marks_le
  exact hB (h.budget (by omega)) (h'.budget (by omega))

namespace Held

theorem refl : Held x run run := ⟨le_rfl, .rfl, rfl, fun _ => rfl⟩

theorem trans (h : Held x run m) (h' : Held x m run') : Held x run run' :=
  h.comp h' fun hsame hsame' => hsame'.trans hsame

theorem isClosed (h : Held x run run') : isClosed x run' = isClosed x run := by
  unfold Nanna.Harness.isClosed
  rw [h.status]

theorem descends (h : Held x run run') : Descends cfg x 0 run run' := by
  refine ⟨h.marks_le, fun hmarks => ?_⟩
  unfold standing
  rw [show (run'.item x).budget = (run.item x).budget from h.budget hmarks, h.isClosed]
  simp only [h.reopenedOnce]
  omega

theorem say (h : event.status? x = none) : Held x run (run.say event) := by
  refine ⟨?_, .rfl, status_cons_of_none h, fun _ => rfl⟩
  rw [marks_say]
  exact Nat.le_add_right _ _

theorem setItem {item : ItemProgress} (h : x = id → item.budget = (run.item id).budget) :
    Held x run (run.setItem id item) := by
  refine ⟨le_rfl, .rfl, rfl, fun _ => ?_⟩
  by_cases hx : x = id
  · rw [hx, item_setItem, h hx]
  · rw [item_setItem_of_ne hx]

theorem removeItem (h : x ≠ id) : Held x run (run.removeItem id) :=
  ⟨le_rfl, .rfl, rfl, fun _ => by rw [item_removeItem_of_ne h]⟩

theorem same (h : Booked run run') : Held x run run' := by
  refine ⟨?_, by rw [h.reopenedOnce], ?_, fun _ => ?_⟩
  · unfold marks
    rw [h.events]
  · rw [h.events]
  · unfold HarnessRun.item
    rw [h.progress]

theorem flip : Held x run (run.replenishAll.say .flipped) := by
  have hlt : marks x run < marks x (run.replenishAll.say .flipped) := marks_lt_say rfl
  exact ⟨hlt.le, .rfl, status_cons_of_none rfl, fun hmarks => absurd hmarks hlt.ne'⟩

theorem hearing : Hearing id (Held x) where
  trans := trans
  same := same
  say _ h := say h.status?
  flip := flip

theorem bookkeeping (h : x ≠ id) : Bookkeeping id (Held x) where
  toHearing := hearing
  setItem _ := setItem fun hx => absurd hx h

end Held

/-! ## A pass over another item -/

theorem Held.completeVerified {check : AcceptanceCheck} {o : VerifiedOutcome} (h : x ≠ step.id) :
    Held x run (run.completeVerified step check o) := by
  have hsaid : Held x run (run.say (.completed step.id)) := say (if_neg h.symm)
  refine Held.trans (hsaid.trans ?_) (Held.removeItem h)
  exact ⟨le_rfl, .rfl, rfl, fun _ => rfl⟩

theorem Held.completeUnverified (h : x ≠ step.id) : Held x run (run.completeUnverified step) := by
  have hsaid : Held x run (run.say (.completed step.id)) := say (if_neg h.symm)
  refine Held.trans (hsaid.trans ?_) (Held.removeItem h)
  exact ⟨le_rfl, .rfl, rfl, fun _ => rfl⟩

theorem progress_abandonItem {reason : Text} :
    (run.abandonItem step reason).progress = (run.removeItem step.id).progress := by
  unfold HarnessRun.abandonItem HarnessRun.recordAbandonment
  dsimp only
  split <;> rfl

theorem marks_abandonItem {reason : Text} :
    marks x (run.abandonItem step reason) = marks x run := by
  unfold marks
  rw [events_abandonItem]
  exact List.countP_cons_of_neg Bool.false_ne_true

theorem Held.abandonItem {reason : Text} (h : x ≠ step.id) :
    Held x run (run.abandonItem step reason) := by
  refine ⟨marks_abandonItem.ge, by rw [reopenedOnce_abandonItem], ?_, fun _ => ?_⟩
  · rw [events_abandonItem, status_cons_abandoned, if_neg h]
  · rw [HarnessRun.item, progress_abandonItem]
    exact congrArg ItemProgress.budget (item_removeItem_of_ne h)

/-- Until the sweep, a pass over another item holds the budget. -/
theorem Served.held (h : Served (Held x) cfg step inp run run') (hne : x ≠ step.id) :
    Held x run run' := by
  cases h with
  | stays h => exact h
  | verified h _ _ => exact h.trans (.completeVerified hne)
  | unverified h => exact h.trans (.completeUnverified hne)
  | abandoned h _ => exact h.trans (.abandonItem hne)

/-! ## The sweeps -/

/-- A stretch of sweep turns holds the budget of an item, or reopens it for the only time. -/
structure Swept (x : Int) (run run' : HarnessRun) : Prop where
  marks_le : marks x run ≤ marks x run'
  held : Held x run run' ∨ (x ∉ run.reopenedOnce ∧ x ∈ run'.reopenedOnce)

namespace Swept

theorem of_held (h : Held x run run') : Swept x run run' := ⟨h.marks_le, .inl h⟩

theorem trans_held (h : Swept x run m) (h' : Held x m run') : Swept x run run' := by
  refine ⟨h.marks_le.trans h'.marks_le, ?_⟩
  rcases h.held with held | ⟨hnot, hmem⟩
  · exact .inl (held.trans h')
  · exact .inr ⟨hnot, h'.reopenedOnce.mpr hmem⟩

/-- What a reopening gives back was kept for it. -/
theorem descends (h : Swept x run run') : Descends cfg x 0 run run' := by
  rcases h.held with held | ⟨hnot, hmem⟩
  · exact held.descends
  · refine ⟨h.marks_le, fun _ => ?_⟩
    unfold standing
    rw [if_neg hnot, if_pos hmem]
    have hle : potential cfg (run'.item x).budget ≤ freshPotential cfg := potential_le
    split <;> split <;> omega

theorem reopen (h : Swept x run m) (hevents : run'.events = .reopened id :: m.events)
    (hprogress : run'.progress = (m.removeItem id).progress)
    (hreopened : run'.reopenedOnce = insert id m.reopenedOnce)
    (hnot : x = id → x ∉ run.reopenedOnce) : Swept x run run' := by
  have hmarks : marks x run' = marks x m := by
    unfold marks
    rw [hevents]
    exact List.countP_cons_of_neg Bool.false_ne_true
  by_cases hx : x = id
  · refine ⟨h.marks_le.trans hmarks.ge, .inr ⟨hnot hx, ?_⟩⟩
    rw [hreopened, hx]
    exact Finset.mem_insert_self _ _
  · refine h.trans_held ⟨hmarks.ge, ?_, ?_, fun _ => ?_⟩
    · simp [hreopened, hx]
    · rw [hevents, status_cons_reopened, if_neg hx]
    · rw [HarnessRun.item, hprogress]
      exact congrArg ItemProgress.budget (item_removeItem_of_ne hx)

/-- A turn of a sweep. -/
theorem rechecked (h : Swept x run m) (hturn : Rechecked (Held x) c m run')
    (hnot : x = c.id → x ∉ run.reopenedOnce) : Swept x run run' := by
  cases hturn with
  | stays hturn => exact h.trans_held hturn
  | revived hturn => exact (h.trans_held hturn).reopen rfl rfl rfl hnot
  | regressed hturn => exact (h.trans_held hturn).reopen rfl rfl rfl hnot

theorem fresh (h : Swept x run m) (hre : x ∉ m.reopenedOnce) : x ∉ run.reopenedOnce := by
  rcases h.held with held | ⟨hnot, _⟩
  · rwa [← held.reopenedOnce]
  · exact hnot

theorem drainAbandonedOne (h : Swept x run m) :
    Swept x run (drainAbandonedOne env c answer (m, flag)).1 := by
  by_cases hre : c.id ∈ m.reopenedOnce
  · simpa only [Nanna.Harness.drainAbandonedOne, if_pos hre] using h
  · exact h.rechecked (drainAbandonedOne_rechecked Held.hearing hre) fun hx => h.fresh (hx ▸ hre)

theorem drainVerifiedOne (h : Swept x run m) :
    Swept x run (drainVerifiedOne env c answer (m, flag)).1 := by
  by_cases hre : c.id ∈ m.reopenedOnce
  · simpa only [Nanna.Harness.drainVerifiedOne, if_pos hre] using h
  · exact h.rechecked (drainVerifiedOne_rechecked Held.hearing hre) fun hx => h.fresh (hx ▸ hre)

end Swept

theorem midRunSweep_descends : Descends cfg x 0 run (midRunSweep env step outcome inp run) := by
  unfold midRunSweep
  dsimp only
  split
  · exact Held.refl.descends
  · refine Swept.descends (sweep_invariant (fun c hc _ r hr => ?_) ?_)
    · exact hr.rechecked (recheckVerifiedOne_rechecked Held.hearing) fun hx =>
        hx ▸ (mem_targets hc).2.2
    · refine sweep_invariant (fun c hc _ r hr => ?_) (Swept.of_held .refl)
      exact hr.rechecked (reviveAbandonedOne_rechecked Held.hearing) fun hx =>
        hx ▸ (mem_targets hc).2.2

theorem drainSweep_descends : Descends cfg x 0 run (drainSweep env inp run).state := by
  have hcleared : Swept x run { run with abandonedUnmet := [] } :=
    .of_held (.same ⟨rfl, rfl, rfl, rfl, rfl, rfl, rfl⟩)
  have habandoned : Swept x run (drainAbandoned env inp { run with abandonedUnmet := [] }).1 :=
    sweep_invariant (I := fun r : HarnessRun × Bool => Swept x run r.1)
      (fun _ _ _ _ hr => hr.drainAbandonedOne) hcleared
  have hverified : Swept x run (drainVerified env inp
      (drainAbandoned env inp { run with abandonedUnmet := [] }).1).1 :=
    sweep_invariant (I := fun r : HarnessRun × Bool => Swept x run r.1)
      (fun _ _ _ _ hr => hr.drainVerifiedOne) habandoned
  unfold drainSweep
  dsimp only
  split
  · exact hverified.descends
  · exact hverified.descends

end Nanna.Harness
