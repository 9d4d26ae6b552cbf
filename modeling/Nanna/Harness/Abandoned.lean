import Nanna.Harness.Digest

/-!
# Naming what was given up

`abandoned_named`: in a run that ends with `AllTasksDone`, and that gives up no checked item which
one of its sweeps reopened before, every item last abandoned by the run is on the report: on
`abandoned_unverifiable` without a check, and on `abandoned_unmet` unless its check passes in the
final sweep. An item that is reopened once and then given up again is skipped by that sweep and is
on no list (`abandonment_unnamed`).

The invariant is `Recorded`: an item abandoned with a check is on the sweep set and not in the
reopened set. The final sweep visits it (`drainAbandoned_visits`), and since it stays abandoned the
visit either named it or heard its check pass.
-/

namespace Nanna.Harness

open Nanna.Lib

variable {env : HarnessEnv} {cfg : LongHorizonConfig} {run run' m before : HarnessRun}
  {step : TaskStep} {inp last : PassInput} {inps : List PassInput} {event : Event} {id : Int}
  {ok : Int → Bool → Prop} {c : Closed} {answer : SweepAnswer} {flag : Bool}

/-- The check of an item on the sweep set passes when the final sweep runs it. -/
def PassesAtEnd (before : HarnessRun) (last : PassInput) (id : Int) (check : AcceptanceCheck) :
    Prop :=
  ∃ (i : Nat) (title : Text), before.abandonedThisRun[i]? = some ⟨id, title, check⟩ ∧
    (last.drainAbandoned i).check.judged.passed = true

/-- The report names an abandoned item. -/
def Named (report : LongHorizonReport) (id : Int) (passes : AcceptanceCheck → Prop) :
    Option AcceptanceCheck → Prop
  | none => id ∈ report.abandonedUnverifiable.map (·.id)
  | some check => ¬ passes check → id ∈ report.abandonedUnmet.map (·.id)

/-- The pass gives up no checked item that a sweep reopened. -/
def GivesUpFresh (cfg : LongHorizonConfig) (run : HarnessRun) (inp : PassInput) : Prop :=
  ∀ step, inp.next = .ok (some step) → givesUp cfg step inp run = true →
    step.acceptance.isSome = true → step.id ∉ run.reopenedOnce

/-! ## The invariant -/

structure Recorded (run : HarnessRun) : Prop where
  checked : ∀ id check, status run.events id = .abandoned (some check) →
    id ∉ run.reopenedOnce ∧ ∃ title, ⟨id, title, check⟩ ∈ run.abandonedThisRun
  unchecked : ∀ id, status run.events id = .abandoned none →
    id ∈ run.abandonedUnverifiable.map (·.id)

namespace Recorded

theorem new : Recorded (HarnessRun.new cfg) := ⟨nofun, nofun⟩

theorem quiet (hI : Recorded run) (h : Quiet ok run run') : Recorded run' := by
  refine ⟨fun id check hstatus => ?_, fun id hstatus => ?_⟩
  · rw [h.status] at hstatus
    rw [h.reopenedOnce, h.abandonedThisRun]
    exact hI.checked id check hstatus
  · rw [h.status] at hstatus
    rw [h.abandonedUnverifiable]
    exact hI.unchecked id hstatus

/-- Completing or reopening an item. -/
theorem other (hI : Recorded run) (hevent : event = .completed id ∨ event = .reopened id)
    (hevents : run'.events = event :: run.events)
    (habandoned : run'.abandonedThisRun = run.abandonedThisRun)
    (hunverifiable : run'.abandonedUnverifiable = run.abandonedUnverifiable)
    (hreopened : ∀ i, i ≠ id → i ∉ run.reopenedOnce → i ∉ run'.reopenedOnce) : Recorded run' := by
  have hold : ∀ i check, status run'.events i = .abandoned check →
      i ≠ id ∧ status run.events i = .abandoned check := by
    intro i check hstatus
    rw [hevents] at hstatus
    rcases hevent with rfl | rfl
    · rw [status_cons_completed] at hstatus
      split at hstatus
      · cases hstatus
      · rename_i hi
        exact ⟨hi, hstatus⟩
    · rw [status_cons_reopened] at hstatus
      split at hstatus
      · cases hstatus
      · rename_i hi
        exact ⟨hi, hstatus⟩
  refine ⟨fun i check hstatus => ?_, fun i hstatus => ?_⟩
  · obtain ⟨hi, hstatus⟩ := hold i _ hstatus
    obtain ⟨hre, hmem⟩ := hI.checked i check hstatus
    exact ⟨hreopened i hi hre, habandoned ▸ hmem⟩
  · rw [hunverifiable]
    exact hI.unchecked i (hold i _ hstatus).2

theorem completeVerified {check : AcceptanceCheck} {outcome : VerifiedOutcome}
    (hI : Recorded run) : Recorded (run.completeVerified step check outcome) :=
  hI.other (.inl rfl) rfl rfl rfl fun _ _ h => h

theorem completeUnverified (hI : Recorded run) : Recorded (run.completeUnverified step) :=
  hI.other (.inl rfl) rfl rfl rfl fun _ _ h => h

theorem reopen (hI : Recorded run) (hevents : run'.events = .reopened id :: run.events)
    (habandoned : run'.abandonedThisRun = run.abandonedThisRun)
    (hunverifiable : run'.abandonedUnverifiable = run.abandonedUnverifiable)
    (hreopened : run'.reopenedOnce = insert id run.reopenedOnce) : Recorded run' := by
  refine hI.other (.inr rfl) hevents habandoned hunverifiable fun i hi hre => ?_
  rw [hreopened, Finset.mem_insert, not_or]
  exact ⟨hi, hre⟩

theorem rechecked (hI : Recorded run) (h : Rechecked (Quiet (About c.id)) c run run') :
    Recorded run' := by
  cases h with
  | stays h => exact hI.quiet h
  | revived h => exact (hI.quiet h).reopen rfl rfl rfl rfl
  | regressed h => exact (hI.quiet h).reopen rfl rfl rfl rfl

theorem abandonItem {reason : Text} (hI : Recorded run)
    (hfresh : step.acceptance.isSome = true → step.id ∉ run.reopenedOnce) :
    Recorded (run.abandonItem step reason) := by
  refine ⟨fun i check hstatus => ?_, fun i hstatus => ?_⟩
  · rw [events_abandonItem, status_cons_abandoned] at hstatus
    rw [reopenedOnce_abandonItem]
    split at hstatus
    · rename_i hi
      have hcheck : step.acceptance = some check := Status.abandoned.inj hstatus
      exact ⟨hi ▸ hfresh (by rw [hcheck]; rfl), step.title,
        mem_abandonItem.mpr (.inr ⟨check, hcheck, by rw [hi]⟩)⟩
    · obtain ⟨hre, title, hmem⟩ := hI.checked i check hstatus
      exact ⟨hre, title, mem_abandonItem.mpr (.inl hmem)⟩
  · rw [events_abandonItem, status_cons_abandoned] at hstatus
    refine mem_unverifiable_abandonItem.mpr ?_
    split at hstatus
    · rename_i hi
      exact .inr ⟨Status.abandoned.inj hstatus, hi⟩
    · exact .inl (hI.unchecked i hstatus)

/-! ## A pass -/

theorem served (hI : Recorded run) (h : Served (Quiet (About step.id)) cfg step inp run run')
    (hfresh : givesUp cfg step inp run = true → step.acceptance.isSome = true →
      step.id ∉ run.reopenedOnce) : Recorded run' := by
  cases h with
  | stays h => exact hI.quiet h
  | verified h _ _ => exact (hI.quiet h).completeVerified
  | unverified h => exact (hI.quiet h).completeUnverified
  | abandoned h hgives =>
    refine (hI.quiet h).abandonItem fun hsome => ?_
    rw [h.reopenedOnce]
    exact hfresh hgives hsome

theorem midRunSweep {outcome : StepOutcome} (hI : Recorded run) :
    Recorded (midRunSweep env step outcome inp run) := by
  unfold Nanna.Harness.midRunSweep
  dsimp only
  split
  · exact hI
  · refine sweep_invariant (fun c _ _ r hr => ?_) (sweep_invariant (fun c _ _ r hr => ?_) hI)
    · exact hr.rechecked (recheckVerifiedOne_rechecked Quiet.hearing)
    · exact hr.rechecked (reviveAbandonedOne_rechecked Quiet.hearing)

theorem drainAbandonedOne (hI : Recorded run) :
    Recorded (drainAbandonedOne env c answer (run, flag)).1 := by
  by_cases hre : c.id ∈ run.reopenedOnce
  · simpa only [Nanna.Harness.drainAbandonedOne, if_pos hre] using hI
  · exact hI.rechecked (drainAbandonedOne_rechecked Quiet.hearing hre)

theorem drainVerifiedOne (hI : Recorded run) :
    Recorded (drainVerifiedOne env c answer (run, flag)).1 := by
  by_cases hre : c.id ∈ run.reopenedOnce
  · simpa only [Nanna.Harness.drainVerifiedOne, if_pos hre] using hI
  · exact hI.rechecked (drainVerifiedOne_rechecked Quiet.hearing hre)

theorem drained (hI : Recorded run) :
    Recorded (drainVerified env inp
      (drainAbandoned env inp { run with abandonedUnmet := [] }).1).1 := by
  have hcleared : Recorded { run with abandonedUnmet := [] } := ⟨hI.checked, hI.unchecked⟩
  have habandoned : Recorded (drainAbandoned env inp { run with abandonedUnmet := [] }).1 :=
    sweep_invariant (I := fun r : HarnessRun × Bool => Recorded r.1)
      (fun _ _ _ _ hr => hr.drainAbandonedOne) hcleared
  exact sweep_invariant (I := fun r : HarnessRun × Bool => Recorded r.1)
    (fun _ _ _ _ hr => hr.drainVerifiedOne) habandoned

theorem drainSweep (hI : Recorded run) : Recorded (drainSweep env inp run).state := by
  unfold Nanna.Harness.drainSweep
  dsimp only
  split
  · exact hI.drained
  · exact hI.drained

theorem serve (hI : Recorded run)
    (hfresh : givesUp cfg step inp run = true → step.acceptance.isSome = true →
      step.id ∉ run.reopenedOnce) : Recorded (serve env cfg step inp run).state := by
  refine ((serve_served Quiet.bookkeeping).mono ?_ ?_ :
    Phase.Ensures _ (fun _ => Recorded) fun _ => Recorded).state
  · rintro _ _ ⟨outcome, m, hm, rfl⟩
    exact (hI.served hm hfresh).midRunSweep
  · exact fun _ _ hm => hI.served hm hfresh

theorem iteration (hI : Recorded run) (h : GivesUpFresh cfg run inp) :
    Recorded (iteration env cfg inp run).state := by
  have hquiet : Quiet Passing run (admitInterjected inp run) := admitInterjected_quiet
  have hadmitted := hI.quiet hquiet
  refine iteration_invariant hI hadmitted hadmitted.drainSweep fun step hnext =>
    hadmitted.serve fun hgives hsome => ?_
  rw [hquiet.reopenedOnce]
  exact h step hnext (givesUp_admitInterjected.symm.trans hgives) hsome

end Recorded

/-! ## The last pass -/

theorem completeFailed_not_done {message : Text} :
    (completeFailed cfg message run).Ensures (fun _ _ => True)
      fun e _ => e ≠ .stop .allTasksDone := by
  unfold completeFailed
  dsimp only
  split
  · exact nofun
  · trivial

theorem judgeStep_not_done {outcome : StepOutcome} {repeated : Bool} :
    (judgeStep env cfg step outcome repeated inp run).Ensures (fun _ _ => True)
      fun e _ => e ≠ .stop .allTasksDone := by
  unfold judgeStep
  split
  · unfold judgeChecked
    dsimp only
    split
    · trivial
    · split
      · unfold judgePassed
        dsimp only
        split
        · trivial
        · exact completeFailed_not_done
      · trivial
  · unfold judgeUnchecked
    dsimp only
    split
    · unfold completeUnchecked
      split
      · trivial
      · exact completeFailed_not_done
    · trivial

theorem work_not_done {gate : Gate} :
    (work env cfg step gate inp run).Ensures (fun _ _ => True)
      fun e _ => e ≠ .stop .allTasksDone := by
  have hprecheck : (precheck env step gate.precheckDue inp run).Ensures (fun _ _ => True)
      fun e _ => e ≠ .stop .allTasksDone := by
    unfold precheck
    dsimp only
    split
    · trivial
    · split
      · split
        · exact nofun
        · trivial
      · trivial
  have hrunStep : ∀ r, (runStep cfg step inp r).Ensures (fun _ _ => True)
      fun e _ => e ≠ .stop .allTasksDone := by
    intro r
    unfold runStep
    dsimp only
    split
    · trivial
    · split
      · split
        · exact nofun
        · exact nofun
      · split
        · exact nofun
        · exact nofun
  have hrecordStep : ∀ outcome isReplan escalate subtasks r,
      (recordStep step outcome isReplan escalate subtasks inp r).Ensures (fun _ _ => True)
        fun e _ => e ≠ .stop .allTasksDone := by
    intro outcome isReplan escalate subtasks r
    unfold recordStep
    dsimp only
    split
    · trivial
    · split
      · exact nofun
      · trivial
  have hfile : ∀ outcome r, (fileStepFindings step outcome inp r).Ensures (fun _ _ => True)
      fun e _ => e ≠ .stop .allTasksDone := by
    intro outcome r
    unfold fileStepFindings
    split
    · exact nofun
    · trivial
  refine hprecheck.andThen fun _ r₁ _ => (hrunStep _).andThen fun outcome r₂ _ => ?_
  refine (hrecordStep _ _ _ _ _).andThen fun _ r₃ _ => (hfile _ _).andThen fun repeated r₄ _ => ?_
  exact judgeStep_not_done.andThen fun _ r₅ _ => trivial

theorem serve_not_done :
    (serve env cfg step inp run).Ensures (fun _ _ => True)
      fun e _ => e ≠ .stop .allTasksDone := by
  unfold serve
  dsimp only
  split
  · unfold abandonExhausted
    split
    · exact nofun
    · exact nofun
  · exact work_not_done

/-- Only a drain sweep that reopens nothing ends a run with `AllTasksDone`. -/
theorem iteration_done (h : iteration env cfg last before = .ended (.stop .allTasksDone) run) :
    run = (drainVerified env last (drainAbandoned env last
      { admitInterjected last before with abandonedUnmet := [] }).1).1 := by
  unfold iteration at h
  dsimp only at h
  split at h
  · cases h
  · split at h
    · cases h
    · split at h
      · cases h
      · split at h
        · cases h
        · unfold drainSweep at h
          dsimp only at h
          split at h
          · cases h
          · cases h
            rfl
        · rename_i step _
          have hnot : (serve env cfg step last (admitInterjected last before)).Ensures
            (fun _ _ => True) fun e _ => e ≠ .stop .allTasksDone := serve_not_done
          rw [h] at hnot
          exact absurd rfl hnot

/-- A visit of the final sweep names the item, unless it is skipped or its check passes. -/
theorem drainAbandonedOne_visits :
    c.id ∈ (drainAbandonedOne env c answer (run, flag)).1.reopenedOnce ∨
      answer.check.judged.passed = true ∨
      c.id ∈ (drainAbandonedOne env c answer (run, flag)).1.abandonedUnmet.map (·.id) := by
  unfold drainAbandonedOne
  dsimp only
  split
  · rename_i hre
    exact .inl hre
  · split
    · exact .inr (.inr (by simp [HarnessRun.pushUnmet]))
    · split
      · rename_i hpassed
        exact .inr (.inl hpassed)
      · exact .inr (.inr (by simp [HarnessRun.pushUnmet]))

theorem drainAbandonedOne_grows :
    run.reopenedOnce ⊆ (drainAbandonedOne env c answer (run, flag)).1.reopenedOnce ∧
      run.abandonedUnmet ⊆ (drainAbandonedOne env c answer (run, flag)).1.abandonedUnmet := by
  unfold drainAbandonedOne
  dsimp only
  split
  · exact ⟨Finset.Subset.refl _, List.Subset.refl _⟩
  · split
    · exact ⟨Finset.Subset.refl _, List.subset_append_left _ _⟩
    · split
      · split
        · exact ⟨Finset.subset_insert _ _, List.Subset.refl _⟩
        · exact ⟨Finset.Subset.refl _, List.Subset.refl _⟩
      · exact ⟨Finset.Subset.refl _, List.subset_append_left _ _⟩

/-- A later visit takes nothing back. -/
theorem drainAbandonedOne_keeps {r : HarnessRun × Bool} {P : Prop}
    (h : id ∈ r.1.reopenedOnce ∨ P ∨ id ∈ r.1.abandonedUnmet.map (·.id)) :
    id ∈ (drainAbandonedOne env c answer r).1.reopenedOnce ∨ P ∨
      id ∈ (drainAbandonedOne env c answer r).1.abandonedUnmet.map (·.id) := by
  obtain ⟨r, flag⟩ := r
  rcases h with hre | hP | hunmet
  · exact .inl (drainAbandonedOne_grows.1 hre)
  · exact .inr (.inl hP)
  · exact .inr (.inr (List.map_subset _ drainAbandonedOne_grows.2 hunmet))

theorem drainVerifiedOne_grows :
    run.reopenedOnce ⊆ (drainVerifiedOne env c answer (run, flag)).1.reopenedOnce ∧
      (drainVerifiedOne env c answer (run, flag)).1.abandonedUnmet = run.abandonedUnmet ∧
      (drainVerifiedOne env c answer (run, flag)).1.abandonedThisRun = run.abandonedThisRun := by
  unfold drainVerifiedOne
  dsimp only
  split
  · exact ⟨Finset.Subset.refl _, rfl, rfl⟩
  · split
    · exact ⟨Finset.Subset.refl _, rfl, rfl⟩
    · split
      · exact ⟨Finset.Subset.refl _, rfl, rfl⟩
      · split
        · exact ⟨Finset.subset_insert _ _, rfl, rfl⟩
        · exact ⟨Finset.Subset.refl _, rfl, rfl⟩

theorem drainVerified_grows :
    run.reopenedOnce ⊆ (drainVerified env inp run).1.reopenedOnce ∧
      (drainVerified env inp run).1.abandonedUnmet = run.abandonedUnmet ∧
      (drainVerified env inp run).1.abandonedThisRun = run.abandonedThisRun := by
  unfold drainVerified
  refine sweep_invariant (I := fun r : HarnessRun × Bool => run.reopenedOnce ⊆ r.1.reopenedOnce ∧
    r.1.abandonedUnmet = run.abandonedUnmet ∧ r.1.abandonedThisRun = run.abandonedThisRun)
    (fun c _ i r hr => ?_) ⟨Finset.Subset.refl _, rfl, rfl⟩
  obtain ⟨r, flag⟩ := r
  obtain ⟨hre, hunmet, habandoned⟩ := hr
  refine ⟨hre.trans ?_, Eq.trans ?_ hunmet, Eq.trans ?_ habandoned⟩
  · exact drainVerifiedOne_grows.1
  · exact drainVerifiedOne_grows.2.1
  · exact drainVerifiedOne_grows.2.2

theorem drainAbandoned_abandonedThisRun :
    (drainAbandoned env inp run).1.abandonedThisRun = run.abandonedThisRun := by
  unfold drainAbandoned
  refine sweep_invariant (I := fun r : HarnessRun × Bool =>
    r.1.abandonedThisRun = run.abandonedThisRun) (fun c _ i r hr => ?_) rfl
  obtain ⟨r, flag⟩ := r
  by_cases hre : c.id ∈ r.reopenedOnce
  · simpa only [drainAbandonedOne, if_pos hre] using hr
  · exact (drainAbandonedOne_rechecked Quiet.hearing hre).abandonedThisRun.trans hr

/-- The drain sweep visits every item on the sweep set, and names what it neither reopens nor hears
pass. -/
theorem drainAbandoned_names {i : Nat} (hc : run.abandonedThisRun[i]? = some c)
    (hstays : c.id ∉ (drainAbandoned env inp run).1.reopenedOnce)
    (hfails : ¬ (inp.drainAbandoned i).check.judged.passed = true) :
    c.id ∈ (drainAbandoned env inp run).1.abandonedUnmet.map (·.id) := by
  have hvisited : c.id ∈ (drainAbandoned env inp run).1.reopenedOnce ∨
      (inp.drainAbandoned i).check.judged.passed = true ∨
      c.id ∈ (drainAbandoned env inp run).1.abandonedUnmet.map (·.id) := by
    unfold drainAbandoned
    refine sweep_visits (I := fun r : HarnessRun × Bool => c.id ∈ r.1.reopenedOnce ∨
      (inp.drainAbandoned i).check.judged.passed = true ∨ c.id ∈ r.1.abandonedUnmet.map (·.id))
      (fun _ => rfl) (fun r => drainAbandonedOne_visits) (fun c' answer r hr => ?_) hc
    exact drainAbandonedOne_keeps hr
  exact (hvisited.resolve_left hstays).resolve_left hfails

/-! ## A run -/

/-- **Main result.** When a run that gives up no reopened item with a check ends with
`AllTasksDone`, the report names every item that the run left abandoned. -/
theorem abandoned_named (halong : Along env cfg (GivesUpFresh cfg) (HarnessRun.new cfg) inps)
    (hbefore : play env cfg inps = (before, none))
    (hend : play env cfg (inps ++ [last]) = (run, some .allTasksDone)) :
    ∀ id acceptance, status run.events id = .abandoned acceptance →
      Named (run.intoReport .allTasksDone) id (PassesAtEnd before last id) acceptance := by
  have hI : Recorded before := by
    have hplay := playFrom_invariant (fun _ _ hP hI => hI.iteration hP) halong Recorded.new
    rwa [show playFrom env cfg (HarnessRun.new cfg) inps = (before, none) from hbefore] at hplay
  have hlast : iteration env cfg last before = .ended (.stop .allTasksDone) run := by
    rw [play, playFrom_append hbefore, playFrom] at hend
    rcases hpass : iteration env cfg last before with _ | ⟨_ | _⟩ <;> rw [hpass] at hend
    · cases hend
    · cases hend
    · cases hend
      rfl
  have hadmitted : Recorded (admitInterjected last before) :=
    hI.quiet (admitInterjected_quiet : Quiet Passing before _)
  have hmembers : (admitInterjected last before).abandonedThisRun = before.abandonedThisRun :=
    (admitInterjected_quiet : Quiet Passing before _).abandonedThisRun
  rw [iteration_done hlast]
  intro id acceptance hstatus
  cases acceptance with
  | none => exact hadmitted.drained.unchecked id hstatus
  | some check =>
    intro hfails
    obtain ⟨hre, title, hmem⟩ := hadmitted.drained.checked id check hstatus
    rw [drainVerified_grows.2.2, drainAbandoned_abandonedThisRun] at hmem
    obtain ⟨i, hi⟩ := List.mem_iff_getElem?.mp hmem
    rw [abandonedUnmet_intoReport, drainVerified_grows.2.1]
    exact drainAbandoned_names hi (fun hre' => hre (drainVerified_grows.1 hre')) fun hpassed =>
      hfails ⟨i, title, hmembers ▸ hi, hpassed⟩

/-! ## Two runs -/

/-- The runner fails twice on the item, and its check fails in the final sweep. -/
def givenUp : List PassInput :=
  [{ PassInput.serving fileItem with runStep := .error "no provider".toList },
    { PassInput.serving fileItem with runStep := .error "no provider".toList }]

def failingEnd : PassInput :=
  { PassInput.drained with
    drainAbandoned := fun _ => .of (.fail "file does not exist: app.py".toList)
    drainVerified := fun _ => .of (.fail "file does not exist: app.py".toList) }

theorem abandoned_named_once :
    Named ((play .sample .default (givenUp ++ [failingEnd])).1.intoReport .allTasksDone) 1
      (PassesAtEnd (play .sample .default givenUp).1 failingEnd 1) fileItem.acceptance := by
  have halong :
      Along .sample .default (GivesUpFresh .default) (HarnessRun.new .default) givenUp := by
    unfold givenUp
    refine ⟨fun step _ _ _ => Finset.notMem_empty _, ?_⟩
    change Along _ _ _ _ [_]
    exact ⟨fun step _ _ _ => Finset.notMem_empty _, trivial⟩
  refine abandoned_named halong (Prod.ext rfl ?_) (Prod.ext rfl ?_) 1 fileItem.acceptance ?_
  · decide
  · decide
  · decide

/-- The item is verified and regresses before the runner fails on it. -/
def reopenedThenGivenUp : List PassInput := [.serving fileItem, failingEnd] ++ givenUp

/-- An item given up after a sweep reopened it is on no list, though its check fails. -/
theorem abandonment_unnamed :
    (play .sample .default reopenedThenGivenUp).2 = none ∧
      (play .sample .default (reopenedThenGivenUp ++ [failingEnd])).2 = some .allTasksDone ∧
      status (play .sample .default (reopenedThenGivenUp ++ [failingEnd])).1.events 1 =
        .abandoned fileItem.acceptance ∧
      ¬ Named ((play .sample .default (reopenedThenGivenUp ++ [failingEnd])).1.intoReport
          .allTasksDone) 1
        (PassesAtEnd (play .sample .default reopenedThenGivenUp).1 failingEnd 1)
        fileItem.acceptance := by
  refine ⟨by decide, by decide, by decide, fun hnamed => ?_⟩
  have hfails : ¬ PassesAtEnd (play .sample .default reopenedThenGivenUp).1 failingEnd 1
      (.fileExists "app.py".toList) := by
    rintro ⟨i, title, _, hpassed⟩
    exact Bool.false_ne_true hpassed
  have hmem := hnamed hfails
  have hunmet :
      (play .sample .default (reopenedThenGivenUp ++ [failingEnd])).1.abandonedUnmet = [] := by
    decide
  rw [abandonedUnmet_intoReport, hunmet] at hmem
  cases hmem

end Nanna.Harness
