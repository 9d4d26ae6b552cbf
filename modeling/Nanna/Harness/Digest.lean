import Nanna.Harness.Ledger

/-!
# The verified digest

`digest_true`: along a run in which no re-check of a verified item fails and the source serves no
item the run has closed, every item on `verified_outcomes` is completed, its last decided verdict
is a pass, and it stands there once, at every prompt and on the report. The list is only ever
appended to: a regressed item stays on it, and comes on it a second time (`digest_stale`).

The invariant is `Listed`. A pass over an item is quiet about the listed ones, because an item that
is served is not closed and so not listed; a sweep over abandoned items reopens unlisted ones only.
-/

namespace Nanna.Harness

open Nanna.Lib

/-- What the digest says of the items it lists. -/
def DigestTrue (events : List Event) (listed : List VerifiedOutcome) : Prop :=
  (listed.map (·.id)).Nodup ∧
    ∀ o ∈ listed, status events o.id = .completed ∧ lastVerdict events o.id = some true

/-- The digest was true whenever a prompt was built. -/
def PromptsTrue : List Event → Prop
  | [] => True
  | .prompted _ listed _ :: events => DigestTrue events listed ∧ PromptsTrue events
  | _ :: events => PromptsTrue events

variable {env : HarnessEnv} {cfg : LongHorizonConfig} {run run' m : HarnessRun} {step : TaskStep}
  {inp : PassInput} {events : List Event} {event : Event} {id : Int}
  {ok : Int → Bool → Prop} {listed : List VerifiedOutcome} {c : Closed}

instance : Decidable (DigestTrue events listed) :=
  inferInstanceAs (Decidable (_ ∧ _))

instance decidablePromptsTrue : (events : List Event) → Decidable (PromptsTrue events)
  | [] => isTrue trivial
  | e :: events =>
    have := decidablePromptsTrue events
    match e with
    | .prompted _ listed _ =>
      inferInstanceAs (Decidable (DigestTrue events listed ∧ PromptsTrue events))
    | .verdict _ _ | .flipped | .novelFailure _ | .novelSuccess _ | .subtasksAdded _
    | .completed _ | .abandoned _ _ | .reopened _ => inferInstanceAs (Decidable (PromptsTrue events))

/-- No verified item's check fails when it is run again, and the source serves no item that the run
has closed and not reopened. -/
def Undisturbed (run : HarnessRun) (inp : PassInput) : Prop :=
  (∀ step, inp.next = .ok (some step) → (status run.events step.id).isClosed = false) ∧
    (∀ i, (inp.recheckVerified i).failsAgain = false) ∧
    ∀ i, (inp.drainVerified i).failsAgain = false

/-! ## The invariant -/

structure Listed (run : HarnessRun) : Prop where
  digest : DigestTrue run.events run.verifiedOutcomes
  prompts : PromptsTrue run.events
  abandoned : ∀ c ∈ run.abandonedThisRun, c.id ∉ run.reopenedOnce →
    ∃ check, status run.events c.id = .abandoned check

/-- The id is on no line of the digest. -/
def Unlisted (listed : List VerifiedOutcome) (id : Int) : Prop := ∀ o ∈ listed, o.id ≠ id

theorem DigestTrue.unlisted (h : DigestTrue events listed)
    (hid : status events id ≠ .completed) : Unlisted listed id := by
  rintro o ho rfl
  exact hid (h.2 o ho).1

/-- Events about other items leave a digest true. -/
theorem DigestTrue.cons (h : DigestTrue events listed)
    (hstatus : ∀ o ∈ listed, event.status? o.id = none)
    (hverdict : ∀ o ∈ listed, event.verdict? o.id = none ∨ event.verdict? o.id = some true) :
    DigestTrue (event :: events) listed := by
  refine ⟨h.1, fun o ho => ⟨?_, ?_⟩⟩
  · rw [status_cons_of_none (hstatus o ho)]
    exact (h.2 o ho).1
  · rcases hverdict o ho with hv | hv
    · rw [lastVerdict_cons_of_none hv]
      exact (h.2 o ho).2
    · simp [lastVerdict, hv]

/-- A quiet step keeps the digest, if every verdict it hears of a listed item is a pass. -/
theorem Quiet.keeps_digest (h : Quiet ok run run')
    (hok : ∀ i passed, ok i passed → passed = true ∨ Unlisted run.verifiedOutcomes i)
    (hdigest : DigestTrue run.events run.verifiedOutcomes) (hprompts : PromptsTrue run.events) :
    DigestTrue run'.events run.verifiedOutcomes ∧ PromptsTrue run'.events := by
  obtain ⟨news, hnews, hquiet⟩ := h.events
  rw [hnews]
  clear hnews
  induction news with
  | nil => exact ⟨hdigest, hprompts⟩
  | cons e news ih =>
    obtain ⟨ihdigest, ihprompts⟩ := ih fun e' he' => hquiet e' (by simp [he'])
    have he := hquiet e (by simp)
    refine ⟨ihdigest.cons (fun _ _ => he.status?) fun o ho => ?_, ?_⟩
    · cases e with
      | verdict i passed =>
        simp only [Event.verdict?]
        split
        · rename_i hi
          rcases hok i passed he with rfl | hun
          · exact .inr rfl
          · exact absurd hi.symm (hun o ho)
        · exact .inl rfl
      | _ => exact .inl rfl
    · cases e with
      | prompted kind l digest =>
        obtain rfl : l = run.verifiedOutcomes := he
        exact ⟨ihdigest, ihprompts⟩
      | _ => exact ihprompts

theorem Listed.quiet (hI : Listed run) (h : Quiet ok run run')
    (hok : ∀ i passed, ok i passed → passed = true ∨ Unlisted run.verifiedOutcomes i) :
    Listed run' := by
  obtain ⟨hdigest, hprompts⟩ := h.keeps_digest hok hI.digest hI.prompts
  refine ⟨h.verifiedOutcomes ▸ hdigest, hprompts, fun c hc hre => ?_⟩
  rw [h.status]
  rw [h.abandonedThisRun] at hc
  rw [h.reopenedOnce] at hre
  exact hI.abandoned c hc hre

/-- A quiet step about an unlisted item. -/
theorem Listed.about (hI : Listed run) (h : Quiet (About id) run run')
    (hid : Unlisted run.verifiedOutcomes id) : Listed run' :=
  hI.quiet h fun _ _ hi => .inr (hi ▸ hid)

/-! ## Closing and reopening -/

/-- Closing or reopening an unlisted item leaves the digest true. -/
theorem DigestTrue.other (h : DigestTrue events listed) (hid : Unlisted listed id)
    (hevent : event = .completed id ∨ (∃ check, event = .abandoned id check) ∨
      event = .reopened id) :
    DigestTrue (event :: events) listed := by
  have hne : ∀ o ∈ listed, ¬ id = o.id := fun o ho => (hid o ho).symm
  rcases hevent with rfl | ⟨check, rfl⟩ | rfl
  · exact h.cons (fun o ho => if_neg (hne o ho)) fun _ _ => .inl rfl
  · exact h.cons (fun o ho => if_neg (hne o ho)) fun _ _ => .inl rfl
  · exact h.cons (fun o ho => if_neg (hne o ho)) fun _ _ => .inl rfl

/-- The abandoned items that were not reopened are not the one whose standing changes. -/
theorem Listed.still_abandoned (hI : Listed run) (hevent : ∀ i, i ≠ id → event.status? i = none)
    (hc : c ∈ run.abandonedThisRun) (hre : c.id ∉ run.reopenedOnce) (hne : c.id ≠ id) :
    ∃ check, status (event :: run.events) c.id = .abandoned check := by
  obtain ⟨check, hstatus⟩ := hI.abandoned c hc hre
  exact ⟨check, by rw [status_cons_of_none (hevent _ hne), hstatus]⟩

theorem Listed.open_ne (hI : Listed run) (hopen : (status run.events id).isClosed = false)
    (hc : c ∈ run.abandonedThisRun) (hre : c.id ∉ run.reopenedOnce) : c.id ≠ id := by
  rintro rfl
  obtain ⟨check, hstatus⟩ := hI.abandoned c hc hre
  rw [hstatus] at hopen
  cases hopen

theorem Listed.completeVerified {check : AcceptanceCheck} {outcome : VerifiedOutcome}
    (hI : Listed run) (hopen : (status run.events step.id).isClosed = false)
    (hid : Unlisted run.verifiedOutcomes step.id)
    (hverdict : lastVerdict run.events step.id = some true) (houtcome : outcome.id = step.id) :
    Listed (run.completeVerified step check outcome) := by
  have hdigest : DigestTrue (.completed step.id :: run.events) run.verifiedOutcomes :=
    hI.digest.other hid (.inl rfl)
  refine ⟨⟨?_, fun o ho => ?_⟩, hI.prompts, fun c hc hre => ?_⟩
  · show ((run.verifiedOutcomes ++ [outcome]).map (·.id)).Nodup
    rw [List.map_append, List.nodup_append]
    refine ⟨hI.digest.1, by simp, fun a ha b hb => ?_⟩
    obtain ⟨o, ho, rfl⟩ := List.mem_map.mp ha
    obtain rfl : b = outcome.id := by simpa using hb
    exact houtcome ▸ hid o ho
  · rcases List.mem_append.mp ho with ho | ho
    · exact hdigest.2 o ho
    · obtain rfl : o = outcome := by simpa using ho
      rw [houtcome]
      exact ⟨status_completed, hverdict⟩
  · exact hI.still_abandoned (fun i hi => if_neg hi.symm) hc hre (hI.open_ne hopen hc hre)

theorem Listed.completeUnverified (hI : Listed run)
    (hopen : (status run.events step.id).isClosed = false)
    (hid : Unlisted run.verifiedOutcomes step.id) : Listed (run.completeUnverified step) :=
  ⟨hI.digest.other hid (.inl rfl), hI.prompts, fun _ hc hre =>
    hI.still_abandoned (fun _ hi => if_neg hi.symm) hc hre (hI.open_ne hopen hc hre)⟩

theorem Listed.abandonItem {reason : Text} (hI : Listed run)
    (hopen : (status run.events step.id).isClosed = false)
    (hid : Unlisted run.verifiedOutcomes step.id) : Listed (run.abandonItem step reason) := by
  refine ⟨?_, ?_, fun c hc hre => ?_⟩
  · rw [events_abandonItem, verifiedOutcomes_abandonItem]
    exact hI.digest.other hid (.inr (.inl ⟨_, rfl⟩))
  · rw [events_abandonItem]
    exact hI.prompts
  · rw [reopenedOnce_abandonItem] at hre
    rw [events_abandonItem]
    rcases mem_abandonItem.mp hc with hc | ⟨check, hcheck, rfl⟩
    · exact hI.still_abandoned (fun _ hi => if_neg hi.symm) hc hre (hI.open_ne hopen hc hre)
    · exact ⟨_, status_abandoned⟩

/-- Reopening an unlisted item, as both sweeps do. -/
theorem Listed.reopen (hI : Listed run) (hid : Unlisted run.verifiedOutcomes id)
    (hevents : run'.events = .reopened id :: run.events)
    (houtcomes : run'.verifiedOutcomes = run.verifiedOutcomes)
    (habandoned : run'.abandonedThisRun = run.abandonedThisRun)
    (hreopened : run'.reopenedOnce = insert id run.reopenedOnce) : Listed run' := by
  refine ⟨?_, ?_, fun c hc hre => ?_⟩
  · rw [hevents, houtcomes]
    exact hI.digest.other hid (.inr (.inr rfl))
  · rw [hevents]
    exact hI.prompts
  · rw [habandoned] at hc
    rw [hreopened, Finset.mem_insert, not_or] at hre
    rw [hevents]
    exact hI.still_abandoned (fun i hi => if_neg hi.symm) hc hre.2 hre.1

theorem Listed.rechecked (hI : Listed run) (h : Rechecked (Quiet (About c.id)) c run run')
    (hid : Unlisted run.verifiedOutcomes c.id) : Listed run' := by
  cases h with
  | stays h => exact hI.about h hid
  | revived h => exact (hI.about h hid).reopen (h.verifiedOutcomes ▸ hid) rfl rfl rfl rfl
  | regressed h => exact (hI.about h hid).reopen (h.verifiedOutcomes ▸ hid) rfl rfl rfl rfl

/-! ## A pass -/

theorem Listed.served (hI : Listed run) (h : Served (Quiet (About step.id)) cfg step inp run run')
    (hopen : (status run.events step.id).isClosed = false) : Listed run' := by
  have hid : Unlisted run.verifiedOutcomes step.id := hI.digest.unlisted fun hstatus => by
    rw [hstatus] at hopen
    cases hopen
  cases h with
  | stays h => exact hI.about h hid
  | verified h hverdict houtcome =>
    exact (hI.about h hid).completeVerified (h.status ▸ hopen) (h.verifiedOutcomes ▸ hid) hverdict
      houtcome
  | unverified h =>
    exact (hI.about h hid).completeUnverified (h.status ▸ hopen) (h.verifiedOutcomes ▸ hid)
  | abandoned h _ =>
    exact (hI.about h hid).abandonItem (h.status ▸ hopen) (h.verifiedOutcomes ▸ hid)

/-- An abandoned item that was not reopened is not on the digest. -/
theorem Listed.abandoned_unlisted (hI : Listed run) (hc : c ∈ run.abandonedThisRun)
    (hre : c.id ∉ run.reopenedOnce) : Unlisted run.verifiedOutcomes c.id := by
  obtain ⟨check, hstatus⟩ := hI.abandoned c hc hre
  exact hI.digest.unlisted (by rw [hstatus]; exact nofun)

theorem Listed.midRunSweep {outcome : StepOutcome} (hI : Listed run)
    (hpass : ∀ i, (inp.recheckVerified i).failsAgain = false) :
    Listed (midRunSweep env step outcome inp run) := by
  unfold Nanna.Harness.midRunSweep
  dsimp only
  split
  · exact hI
  · have hrevived : ∀ targets : List Closed,
        (∀ c ∈ targets, Unlisted run.verifiedOutcomes c.id) →
        Listed (sweep SweepAnswer.cancelled (reviveAbandonedOne env) targets inp.reviveAbandoned run) :=
      fun targets htargets =>
        (sweep_invariant (I := fun r => Listed r ∧ r.verifiedOutcomes = run.verifiedOutcomes)
          (fun c hc _ r ⟨hr, houtcomes⟩ =>
            ⟨hr.rechecked (reviveAbandonedOne_rechecked Quiet.hearing) (houtcomes ▸ htargets c hc),
              (reviveAbandonedOne_rechecked Quiet.hearing).verifiedOutcomes.trans houtcomes⟩) ⟨hI, rfl⟩).1
    refine sweep_invariant (fun c _ i r hr => ?_) (hrevived _ fun c hc => ?_)
    · exact hr.quiet (recheckVerifiedOne_passing (hpass i)) fun _ _ h => .inl h
    · obtain ⟨hmem, _, hre⟩ := mem_targets hc
      exact hI.abandoned_unlisted hmem hre

theorem Listed.drainAbandoned (hI : Listed run) : Listed (drainAbandoned env inp run).1 := by
  unfold Nanna.Harness.drainAbandoned
  refine (sweep_invariant
    (I := fun r : HarnessRun × Bool => Listed r.1 ∧ r.1.abandonedThisRun = run.abandonedThisRun)
    (fun c hc i r hr => ?_) ⟨hI, rfl⟩).1
  obtain ⟨r, flag⟩ := r
  obtain ⟨hr, habandoned⟩ := hr
  by_cases hre : c.id ∈ r.reopenedOnce
  · simp only [drainAbandonedOne, if_pos hre]
    exact ⟨hr, habandoned⟩
  · exact ⟨hr.rechecked (drainAbandonedOne_rechecked Quiet.hearing hre)
      (hr.abandoned_unlisted (habandoned ▸ hc) hre),
      (drainAbandonedOne_rechecked Quiet.hearing hre).abandonedThisRun.trans habandoned⟩

theorem Listed.drainVerified (hI : Listed run)
    (hpass : ∀ i, (inp.drainVerified i).failsAgain = false) :
    Listed (drainVerified env inp run).1 := by
  unfold Nanna.Harness.drainVerified
  refine sweep_invariant (I := fun r : HarnessRun × Bool => Listed r.1) (fun c _ i r hr => ?_) hI
  obtain ⟨r, flag⟩ := r
  exact Listed.quiet hr (drainVerifiedOne_passing (hpass i)) fun _ _ h => .inl h

theorem Listed.drainSweep (hI : Listed run)
    (hpass : ∀ i, (inp.drainVerified i).failsAgain = false) :
    Listed (drainSweep env inp run).state := by
  have hcleared : Listed { run with abandonedUnmet := [] } := ⟨hI.digest, hI.prompts, hI.abandoned⟩
  have hdrained : Listed
      (Nanna.Harness.drainVerified env inp
        (Nanna.Harness.drainAbandoned env inp { run with abandonedUnmet := [] }).1).1 :=
    hcleared.drainAbandoned.drainVerified hpass
  unfold Nanna.Harness.drainSweep
  dsimp only
  split
  · exact hdrained
  · exact hdrained

theorem Listed.serve (hI : Listed run) (hopen : (status run.events step.id).isClosed = false)
    (hpass : ∀ i, (inp.recheckVerified i).failsAgain = false) :
    Listed (serve env cfg step inp run).state := by
  refine ((serve_served Quiet.bookkeeping).mono ?_ ?_ :
    Phase.Ensures _ (fun _ => Listed) fun _ => Listed).state
  · rintro _ _ ⟨outcome, m, hm, rfl⟩
    exact (hI.served hm hopen).midRunSweep hpass
  · exact fun _ _ hm => hI.served hm hopen

theorem Listed.iteration (hI : Listed run) (h : Undisturbed run inp) :
    Listed (iteration env cfg inp run).state := by
  obtain ⟨hserve, hrecheck, hdrain⟩ := h
  have hquiet : Quiet Passing run (admitInterjected inp run) := admitInterjected_quiet
  have hadmitted := hI.quiet hquiet fun _ _ h => .inl h
  exact iteration_invariant hI hadmitted (hadmitted.drainSweep hdrain) fun step hnext =>
    hadmitted.serve (hquiet.status ▸ hserve step hnext) hrecheck

/-! ## A run -/

theorem Listed.new : Listed (HarnessRun.new cfg) := by
  refine ⟨⟨by simp [HarnessRun.new], fun o ho => ?_⟩, trivial, fun c hc => ?_⟩
  · cases ho
  · cases hc

/-- **Main result.** Along a run in which no verified item's check fails again, the digest is true
at every prompt and on the report. -/
theorem digest_true {inps : List PassInput}
    (halong : Along env cfg Undisturbed (HarnessRun.new cfg) inps) :
    PromptsTrue (play env cfg inps).1.events ∧
      ∀ stop, DigestTrue (play env cfg inps).1.events
        ((play env cfg inps).1.intoReport stop).verifiedOutcomes := by
  have hI : Listed (play env cfg inps).1 :=
    playFrom_invariant (fun _ _ hP hI => hI.iteration hP) halong .new
  exact ⟨hI.prompts, fun _ => hI.digest⟩

/-! ## Two runs -/

def fileItem : TaskStep := ⟨1, "write app.py".toList, some (.fileExists "app.py".toList)⟩

/-- The item is verified and the plan ends. -/
theorem digest_true_once :
    PromptsTrue (play .sample .default [.serving fileItem, .drained]).1.events ∧
      ∀ stop, DigestTrue (play .sample .default [.serving fileItem, .drained]).1.events
        ((play .sample .default [.serving fileItem, .drained]).1.intoReport stop).verifiedOutcomes := by
  refine digest_true ⟨⟨?_, fun _ => rfl, fun _ => rfl⟩, ?_⟩
  · rintro step ⟨⟩
    rfl
  · change Along _ _ _ _ [_]
    exact ⟨⟨nofun, fun _ => rfl, fun _ => rfl⟩, trivial⟩

/-- The item is verified, its check fails at the drain sweep, and it is verified again. -/
def regressing : List PassInput :=
  [.serving fileItem,
    { PassInput.drained with
      drainVerified := fun _ => .of (.fail "file does not exist: app.py".toList) },
    .serving fileItem]

/-- A regressed item is still called verified when its step is prompted, then listed twice. -/
theorem digest_stale :
    ¬ PromptsTrue (play .sample .default regressing).1.events ∧
      ¬ ∃ stop, DigestTrue (play .sample .default regressing).1.events
        ((play .sample .default regressing).1.intoReport stop).verifiedOutcomes := by
  refine ⟨by decide +kernel, ?_⟩
  rintro ⟨stop, hnodup, _⟩
  have htwice : ((play .sample .default regressing).1.verifiedOutcomes.map (·.id)) = [1, 1] := by
    decide +kernel
  rw [verifiedOutcomes_intoReport, htwice] at hnodup
  exact absurd hnodup (by decide)

end Nanna.Harness
