import Nanna.Daemon.Mission

/-!
# How a mission ends

`mission_ends`: whatever the store, the planner, the provider and the harness answer, the loop ends within
sixty rounds; it charges every run that failed once, and a fresh start costs it two dry rounds. The ending that
is reported says what ended the mission: one that ends dry leaves no check failing, or the same checks fail as
at its last fresh start.
-/

namespace Nanna.Daemon

open Nanna.Lib Nanna.Lib.Text Nanna.Harness Nanna.Tasks

/-! ## What happened -/

def failed (report : LongHorizonReport) : Bool := (stopMessage report.stop).isSome

def MissionEvent.isCharged : MissionEvent → Bool
  | .charged => true
  | _ => false

def MissionEvent.isStarved : MissionEvent → Bool
  | .starved => true
  | _ => false

def MissionEvent.run? : MissionEvent → Option LongHorizonReport
  | .ran _ more => some more
  | _ => none

def MissionEvent.reseed? : MissionEvent → Option Nat
  | .reseeded fingerprint => some fingerprint
  | _ => none

def charges (events : List MissionEvent) : Nat := events.countP (·.isCharged)
def starvations (events : List MissionEvent) : Nat := events.countP (·.isStarved)
def runsOf (events : List MissionEvent) : List LongHorizonReport := events.filterMap (·.run?)
def reseeds (events : List MissionEvent) : List Nat := events.filterMap (·.reseed?)

/-- The books of a mission: what its counters have to do with what happened. -/
structure Accounted (first : LongHorizonReport) (m : Mission) : Prop where
  folded : m.report = (runsOf m.events).foldl foldRound first
  billed : m.budget.errorRounds = charges m.events + starvations m.events
  once : charges m.events + (failed m.report && !m.budget.stopCharged).toNat =
    (first :: runsOf m.events).countP failed
  rounds : (runsOf m.events).length + starvations m.events ≤ m.budget.continuations
  strikes : 2 * (reseeds m.events).length + m.budget.dryRounds ≤ m.budget.continuations
  capped : m.budget.continuations ≤ continuationRoundsMax
  dry : m.budget.dryRounds ≤ continuationDryRounds
  charged : m.budget.errorRounds ≤ continuationErrorRounds + 1
  reseeded : m.budget.reseedFingerprint = (reseeds m.events).getLast?
  changed : (reseeds m.events).IsChain (· ≠ ·)
  disputed : m.conflicted = true → ∀ precheck more, .ran precheck more ∈ m.events → precheck = []

/-- A stop that the user or a budget asked for. -/
def Deliberate (stop : StopReason) : Prop := stop ≠ .allTasksDone ∧ stopMessage stop = none

/-- The loop has not ended. -/
structure Going (first : LongHorizonReport) (m : Mission) : Prop extends Accounted first m where
  undecided : m.budget.missionEnd = none
  errors : m.budget.errorRounds ≤ continuationErrorRounds
  struck : continuationDryRounds ≤ m.budget.dryRounds → m.report.abandonedUnmet = [] ∨ ¬ Deliberate m.report.stop

/-- What ended the loop. -/
inductive EndCause (hash : List (Int × Text) × List (Int × Text) → Nat) (m : Mission) : Prop
  | noMission : m.budget.missionEnd = none → m.runEvidence = false → EndCause hash m
  | deliberate : m.budget.missionEnd = none → Deliberate m.report.stop →
      (continuationDryRounds ≤ m.budget.dryRounds → m.report.abandonedUnmet = []) → EndCause hash m
  | spent (probe : ProviderProbe) : m.budget.missionEnd = some (giveupEnd m.report probe .errorRoundsExhausted) →
      m.budget.lastProbe = some probe → m.budget.errorRounds = continuationErrorRounds + 1 →
        failed m.report = true → EndCause hash m
  | starved (probe : ProviderProbe) : m.budget.missionEnd = some (giveupEnd m.report probe .plannerStarvation) →
      m.budget.lastProbe = some probe → m.budget.errorRounds = continuationErrorRounds + 1 → EndCause hash m
  | dry : m.budget.missionEnd = none → continuationDryRounds ≤ m.budget.dryRounds →
      (m.report.abandonedUnmet = [] ∨
        m.budget.reseedFingerprint = some (verifiedStateFingerprint hash m.report)) → EndCause hash m
  | halted : m.budget.missionEnd = none → m.budget.dryRounds < continuationDryRounds →
      m.budget.continuations = continuationRoundsMax ∨ m.stopPressed = true → EndCause hash m

/-- What a step leaves: a mission that goes on with `P`, or one that has ended. -/
structure Leaves (hash : List (Int × Text) × List (Int × Text) → Nat) (first : LongHorizonReport)
    (P : Mission → Prop) (left : Bool × Mission) : Prop where
  goes : left.1 = true → P left.2
  ends : left.1 = false → Accounted first left.2 ∧ EndCause hash left.2

/-- A mission with so many rounds. -/
def After (first : LongHorizonReport) (rounds : Nat) (m : Mission) : Prop :=
  Going first m ∧ m.budget.continuations = rounds

variable {hash : List (Int × Text) × List (Int × Text) → Nat} {first : LongHorizonReport} {m : Mission}

theorem Leaves.on {P : Mission → Prop} (h : P m) : Leaves hash first P (true, m) :=
  ⟨fun _ => h, fun hend => absurd hend.symm Bool.false_ne_true⟩

theorem Leaves.off {P : Mission → Prop} (h : Accounted first m) (hend : EndCause hash m) :
    Leaves hash first P (false, m) :=
  ⟨fun hon => absurd hon Bool.false_ne_true, fun _ => ⟨h, hend⟩⟩

/-! ## One step of each kind -/

theorem Accounted.start (first : LongHorizonReport) (runEvidence conflicted stopPressed : Bool) :
    Going first (.start first runEvidence conflicted stopPressed) where
  folded := rfl
  billed := rfl
  once := by
    cases h : failed first <;> simp [Mission.start, RoundBudget.default, charges, runsOf, h]
  rounds := Nat.le_refl 0
  strikes := Nat.le_refl 0
  capped := Nat.zero_le _
  dry := Nat.zero_le _
  charged := Nat.zero_le _
  reseeded := rfl
  changed := .nil
  disputed _ _ _ h := absurd h List.not_mem_nil
  undecided := rfl
  errors := Nat.zero_le _
  struck h := absurd h (Nat.not_le_of_lt Nat.two_pos)

/-- The last run may be followed by a round, and is paid for. -/
structure Permitted (m : Mission) : Prop where
  stop : ¬ Deliberate m.report.stop
  paid : failed m.report = true → m.budget.stopCharged = true

@[simp] theorem charges_append (events : List MissionEvent) (e : MissionEvent) :
    charges (events ++ [e]) = charges events + e.isCharged.toNat := by
  cases e <;> simp [charges, MissionEvent.isCharged]

@[simp] theorem starvations_append (events : List MissionEvent) (e : MissionEvent) :
    starvations (events ++ [e]) = starvations events + e.isStarved.toNat := by
  cases e <;> simp [starvations, MissionEvent.isStarved]

@[simp] theorem runsOf_append (events : List MissionEvent) (e : MissionEvent) :
    runsOf (events ++ [e]) = runsOf events ++ e.run?.toList := by
  cases e <;> simp [runsOf, MissionEvent.run?]

@[simp] theorem reseeds_append (events : List MissionEvent) (e : MissionEvent) :
    reseeds (events ++ [e]) = reseeds events ++ e.reseed?.toList := by
  cases e <;> simp [reseeds, MissionEvent.reseed?]

theorem Accounted.charge (h : Accounted first m) (herrors : m.budget.errorRounds ≤ continuationErrorRounds)
    (hfailed : failed m.report = true) (hunpaid : m.budget.stopCharged = false) (message : Text)
    (probe : ProviderProbe) : Accounted first (m.charge message probe) where
  folded := by simpa [Mission.charge, MissionEvent.run?] using h.folded
  billed := by
    have := h.billed
    simp only [Mission.charge, charges_append, starvations_append, MissionEvent.isCharged, MissionEvent.isStarved,
      Bool.toNat_true, Bool.toNat_false]
    omega
  once := by
    have := h.once
    simpa [Mission.charge, MissionEvent.isCharged, MissionEvent.run?, hfailed, hunpaid] using this
  rounds := by simpa [Mission.charge, MissionEvent.isStarved, MissionEvent.run?] using h.rounds
  strikes := by simpa [Mission.charge, MissionEvent.reseed?] using h.strikes
  capped := h.capped
  dry := h.dry
  charged := Nat.succ_le_succ herrors
  reseeded := by simpa [Mission.charge, MissionEvent.reseed?] using h.reseeded
  changed := by simpa [Mission.charge, MissionEvent.reseed?] using h.changed
  disputed := by simpa [Mission.charge] using h.disputed

theorem Accounted.giveUp (h : Accounted first m) (probe : ProviderProbe) (terminal : MissionEnd) :
    Accounted first (m.giveUp probe terminal) := { h with }

variable (hash) in
theorem stopPermitsRound_spec (h : Going first m) (a : RoundAnswer) :
    Leaves hash first (fun m' => After first m.budget.continuations m' ∧ Permitted m') (m.stopPermitsRound a) := by
  unfold Mission.stopPermitsRound
  cases hstop : stopMessage m.report.stop with
  | none =>
    have hfailed : failed m.report = false := by simp [failed, hstop]
    dsimp only
    by_cases hdone : m.report.stop = .allTasksDone
    · cases hevidence : m.runEvidence with
      | false =>
        rw [Bool.and_false]
        exact .off h.toAccounted (.noMission h.undecided hevidence)
      | true =>
        rw [decide_eq_true hdone, Bool.and_true]
        exact .on ⟨⟨h, rfl⟩, fun hdel => hdel.1 hdone, fun hf => absurd (hfailed.symm.trans hf) Bool.false_ne_true⟩
    · rw [decide_eq_false hdone, Bool.false_and]
      refine .off h.toAccounted (.deliberate h.undecided ⟨hdone, hstop⟩ fun hdry => ?_)
      exact (h.struck hdry).resolve_right fun hnot => hnot ⟨hdone, hstop⟩
  | some message =>
    have hfailed : failed m.report = true := by simp [failed, hstop]
    have hfault : ¬ Deliberate m.report.stop := fun hdel => by simp [hdel.2] at hstop
    dsimp only
    split_ifs with hmission hcharged hbudget
    · simp only [Bool.and_eq_true, Bool.not_eq_true'] at hmission
      exact .off h.toAccounted (.noMission h.undecided hmission.1)
    · exact .on ⟨⟨h, rfl⟩, hfault, fun _ => hcharged⟩
    · have hunpaid := Bool.eq_false_of_not_eq_true hcharged
      exact .on ⟨⟨{ h.toAccounted.charge h.errors hfailed hunpaid message a.stopProbe with
        undecided := h.undecided, errors := hbudget, struck := h.struck }, rfl⟩, hfault, fun _ => rfl⟩
    · have hunpaid := Bool.eq_false_of_not_eq_true hcharged
      have hspent := h.errors
      refine .off ((h.toAccounted.charge h.errors hfailed hunpaid message a.stopProbe).giveUp _ _)
        (.spent a.stopProbe rfl rfl ?_ hfailed)
      change ¬ m.budget.errorRounds + 1 ≤ _ at hbudget
      show m.budget.errorRounds + 1 = _
      omega

theorem Accounted.reseed (h : Accounted first m) (hdry : continuationDryRounds ≤ m.budget.dryRounds)
    {fingerprint : Nat} (hfresh : m.budget.reseedFingerprint ≠ some fingerprint) :
    Accounted first (m.reseed fingerprint) where
  folded := by simpa [Mission.reseed, MissionEvent.run?] using h.folded
  billed := by simpa [Mission.reseed, MissionEvent.isCharged, MissionEvent.isStarved] using h.billed
  once := by simpa [Mission.reseed, MissionEvent.isCharged, MissionEvent.run?] using h.once
  rounds := by simpa [Mission.reseed, MissionEvent.isStarved, MissionEvent.run?] using h.rounds
  strikes := by
    have hstrikes := h.strikes
    have htwo : 2 ≤ m.budget.dryRounds := hdry
    simp only [Mission.reseed, reseeds_append, MissionEvent.reseed?, Option.toList_some, List.length_append,
      List.length_singleton]
    omega
  capped := h.capped
  dry := Nat.zero_le _
  charged := h.charged
  reseeded := by simp [Mission.reseed, MissionEvent.reseed?]
  changed := by
    simp only [Mission.reseed, reseeds_append, MissionEvent.reseed?, Option.toList_some]
    refine List.isChain_append.mpr ⟨h.changed, .singleton _, fun last hlast next hnext heq => hfresh ?_⟩
    obtain rfl : fingerprint = next := Option.some.inj hnext
    rw [h.reseeded, hlast, heq]
  disputed := by simpa [Mission.reseed] using h.disputed

variable (hash) in
theorem reseedBeforeDryEnd_spec (h : Going first m) (hp : Permitted m)
    (hdry : continuationDryRounds ≤ m.budget.dryRounds) :
    Leaves hash first (fun m' => (After first m.budget.continuations m' ∧ Permitted m') ∧
      m'.budget.dryRounds < continuationDryRounds) (m.reseedBeforeDryEnd hash) := by
  unfold Mission.reseedBeforeDryEnd
  dsimp only
  split_ifs with hend
  · exact .off h.toAccounted (.dry h.undecided hdry hend)
  · have hfresh := fun heq => hend (.inr heq)
    have hforgiven : ¬ continuationDryRounds ≤ 0 := Nat.not_le_of_lt Nat.two_pos
    exact .on ⟨⟨⟨{ h.toAccounted.reseed hdry hfresh with
      undecided := h.undecided, errors := h.errors, struck := fun hstruck => absurd hstruck hforgiven },
      rfl⟩, hp.stop, hp.paid⟩, Nat.two_pos⟩

/-! ## A round -/

theorem accountRound_le (dryRounds : Nat) (report more : LongHorizonReport) :
    accountRound dryRounds report more ≤ dryRounds + 1 := by
  unfold accountRound
  split_ifs <;> omega

/-- The second strike in a row is against no failing check. -/
theorem unmet_of_struck {dryRounds : Nat} {report more : LongHorizonReport} (hdry : dryRounds < continuationDryRounds)
    (hstruck : continuationDryRounds ≤ accountRound dryRounds report more) :
    (foldRound report more).abandonedUnmet = [] := by
  unfold accountRound at hstruck
  split_ifs at hstruck with _ _ _ hunmet
  · exact absurd hstruck (Nat.not_le_of_lt Nat.two_pos)
  · omega
  · omega
  · simp [foldRound, supersede, hunmet.1, hunmet.2]
  · omega

section Round

variable (h : Accounted first m) (hroom : m.budget.continuations < continuationRoundsMax)
include h hroom

theorem Accounted.tick : Accounted first m.tick :=
  { h with
    rounds := h.rounds.trans (Nat.le_succ _)
    strikes := h.strikes.trans (Nat.le_succ _)
    capped := hroom }

theorem Accounted.starve (herrors : m.budget.errorRounds ≤ continuationErrorRounds) (probe : ProviderProbe) :
    Accounted first (m.tick.starve probe) where
  folded := by simpa [Mission.tick, Mission.starve, MissionEvent.run?] using h.folded
  billed := by
    have := h.billed
    simp only [Mission.tick, Mission.starve, charges_append, starvations_append, MissionEvent.isCharged,
      MissionEvent.isStarved, Bool.toNat_true, Bool.toNat_false]
    omega
  once := by simpa [Mission.tick, Mission.starve, MissionEvent.isCharged, MissionEvent.run?] using h.once
  rounds := by
    have := h.rounds
    simp only [Mission.tick, Mission.starve, starvations_append, runsOf_append, MissionEvent.isStarved,
      MissionEvent.run?, Option.toList_none, List.append_nil, Bool.toNat_true]
    omega
  strikes := by simpa [Mission.tick, Mission.starve, MissionEvent.reseed?] using h.strikes.trans (Nat.le_succ _)
  capped := hroom
  dry := h.dry
  charged := Nat.succ_le_succ herrors
  reseeded := by simpa [Mission.tick, Mission.starve, MissionEvent.reseed?] using h.reseeded
  changed := by simpa [Mission.tick, Mission.starve, MissionEvent.reseed?] using h.changed
  disputed := by simpa [Mission.tick, Mission.starve] using h.disputed

/-- An event that is neither a charge nor a run nor a fresh start. -/
theorem Accounted.noted {event : MissionEvent} (hevent : (∃ id, event = .reopened id) ∨ event = .dry) :
    Accounted first (m.tick.note event) := by
  have hcharge : event.isCharged = false := by rcases hevent with ⟨id, rfl⟩ | rfl <;> rfl
  have hstarved : event.isStarved = false := by rcases hevent with ⟨id, rfl⟩ | rfl <;> rfl
  have hrun : event.run? = none := by rcases hevent with ⟨id, rfl⟩ | rfl <;> rfl
  have hreseed : event.reseed? = none := by rcases hevent with ⟨id, rfl⟩ | rfl <;> rfl
  constructor
  · simpa [Mission.tick, Mission.note, hrun] using h.folded
  · simpa [Mission.tick, Mission.note, hcharge, hstarved] using h.billed
  · simpa [Mission.tick, Mission.note, hcharge, hrun] using h.once
  · simpa [Mission.tick, Mission.note, hstarved, hrun] using h.rounds.trans (Nat.le_succ _)
  · simpa [Mission.tick, Mission.note, hreseed] using h.strikes.trans (Nat.le_succ _)
  · exact hroom
  · exact h.dry
  · exact h.charged
  · simpa [Mission.tick, Mission.note, hreseed] using h.reseeded
  · simpa [Mission.tick, Mission.note, hreseed] using h.changed
  · rcases hevent with ⟨id, rfl⟩ | rfl
    · simpa [Mission.tick, Mission.note] using h.disputed
    · simpa [Mission.tick, Mission.note] using h.disputed

theorem Accounted.strike (hdry : m.budget.dryRounds < continuationDryRounds) :
    Accounted first (m.tick.strike.note .dry) :=
  { h.noted hroom (.inr rfl) with
    strikes := by
      simpa [Mission.tick, Mission.strike, Mission.note, MissionEvent.reseed?, ← Nat.add_assoc] using h.strikes
    dry := hdry }

theorem Accounted.ran (hdry : m.budget.dryRounds < continuationDryRounds)
    (hpaid : failed m.report = true → m.budget.stopCharged = true) (a : RoundAnswer) (seeded : List Int) :
    Accounted first (m.tick.runRound a seeded) where
  folded := by simp [Mission.tick, Mission.runRound, MissionEvent.run?, ← h.folded]
  billed := by simpa [Mission.tick, Mission.runRound, MissionEvent.isCharged, MissionEvent.isStarved] using h.billed
  once := by
    have honce := h.once
    have hnone : (failed m.report && !m.budget.stopCharged) = false := by
      cases hfailed : failed m.report
      · rfl
      · simp [hpaid hfailed]
    rw [hnone, Bool.toNat_false, Nat.add_zero] at honce
    have hmore : failed (foldRound m.report a.more) = failed a.more := rfl
    simp only [Mission.tick, Mission.runRound, charges_append, runsOf_append, MissionEvent.isCharged,
      MissionEvent.run?, Option.toList_some, Bool.toNat_false, Nat.add_zero, hmore, Bool.not_false, Bool.and_true]
    rw [← List.cons_append, List.countP_append, ← honce]
    cases hfailed : failed a.more <;> simp [hfailed]
  rounds := by
    have := h.rounds
    simp only [Mission.tick, Mission.runRound, starvations_append, runsOf_append, MissionEvent.isStarved,
      MissionEvent.run?, Option.toList_some, List.length_append, List.length_singleton, Bool.toNat_false]
    omega
  strikes := by
    have hstrikes := h.strikes
    have hround := accountRound_le m.budget.dryRounds m.report a.more
    simp only [Mission.tick, Mission.runRound, reseeds_append, MissionEvent.reseed?, Option.toList_none, List.append_nil]
    omega
  capped := hroom
  dry := (accountRound_le _ _ _).trans hdry
  charged := h.charged
  reseeded := by simpa [Mission.tick, Mission.runRound, MissionEvent.reseed?] using h.reseeded
  changed := by simpa [Mission.tick, Mission.runRound, MissionEvent.reseed?] using h.changed
  disputed hconflicted precheck more hmem := by
    rcases List.mem_append.mp hmem with hmem | hmem
    · exact h.disputed hconflicted precheck more hmem
    · obtain ⟨rfl, -⟩ := MissionEvent.ran.inj (List.mem_singleton.mp hmem)
      exact if_pos hconflicted

end Round

variable (hash) in
theorem seedRound_spec (h : Going first m) (hp : Permitted m)
    (hroom : m.budget.continuations < continuationRoundsMax) (hdry : m.budget.dryRounds < continuationDryRounds)
    (a : RoundAnswer) :
    (∀ flow, m.tick.seedRound a = .error flow → Leaves hash first (After first (m.budget.continuations + 1)) flow) ∧
      ∀ seeded, Going first (m.tick.runRound a seeded) := by
  have hbooks := h.toAccounted
  refine ⟨fun flow hflow => ?_, fun seeded => { hbooks.ran hroom hdry hp.paid a seeded with
    undecided := h.undecided, errors := h.errors, struck := fun hstruck => .inl (unmet_of_struck hdry hstruck) }⟩
  unfold Mission.seedRound at hflow
  dsimp only at hflow
  split_ifs at hflow with hempty hfallback hspent
  · obtain rfl := Except.error.inj hflow
    have herrors := h.errors
    refine .off ((hbooks.starve hroom h.errors a.planProbe).giveUp _ _) (.starved a.planProbe rfl rfl ?_)
    change continuationErrorRounds < m.budget.errorRounds + 1 at hspent
    show m.budget.errorRounds + 1 = _
    omega
  · obtain rfl := Except.error.inj hflow
    exact .on ⟨{ hbooks.starve hroom h.errors a.planProbe with
      undecided := h.undecided, errors := not_lt.mp hspent, struck := h.struck }, rfl⟩
  · cases hreopen : reopenTopUnmet a.env a.store m.tick.report.abandonedUnmet with
    | some id =>
      rw [hreopen] at hflow
      obtain rfl := Except.error.inj hflow
      exact .on ⟨{ hbooks.noted hroom (.inl ⟨id, rfl⟩) with
        undecided := h.undecided, errors := h.errors, struck := h.struck }, rfl⟩
    | none =>
      rw [hreopen] at hflow
      obtain rfl := Except.error.inj hflow
      exact .on ⟨{ hbooks.strike hroom hdry with
        undecided := h.undecided, errors := h.errors, struck := fun _ => .inr hp.stop }, rfl⟩

theorem Going.press (h : Going first m) (pressed : Bool) : Going first { m with stopPressed := pressed } :=
  { h with }

theorem continuationRound_spec (h : Going first m) (hp : Permitted m)
    (hroom : m.budget.continuations < continuationRoundsMax) (hdry : m.budget.dryRounds < continuationDryRounds)
    (a : RoundAnswer) :
    Leaves hash first (After first (m.budget.continuations + 1)) (m.tick.continuationRound a) := by
  have hpress := h.press (m.stopPressed || a.pressedWhilePlanning)
  obtain ⟨hempty, hran⟩ := seedRound_spec hash hpress ⟨hp.stop, hp.paid⟩ hroom hdry a
  unfold Mission.continuationRound
  dsimp only
  split_ifs with hpressed
  · exact .off { h.toAccounted.tick hroom with } (.halted h.undecided hdry (.inr hpressed))
  · cases hseed : Mission.seedRound { m.tick with stopPressed := m.tick.stopPressed || a.pressedWhilePlanning } a with
    | error flow => exact hempty flow hseed
    | ok seeded => exact .on ⟨hran seeded, rfl⟩

/-! ## The loop -/

variable (hash) in
theorem pass_spec (h : Going first m) (a : RoundAnswer) :
    Leaves hash first (After first (m.budget.continuations + 1)) (m.pass hash a) := by
  have hstop := stopPermitsRound_spec hash h a
  unfold Mission.pass
  generalize m.stopPermitsRound a = stopped at hstop ⊢
  obtain ⟨permitted, m₁⟩ := stopped
  cases permitted with
  | false => exact .off (hstop.ends rfl).1 (hstop.ends rfl).2
  | true =>
    obtain ⟨⟨h₁, hrounds₁⟩, hp₁⟩ : After first m.budget.continuations m₁ ∧ Permitted m₁ := hstop.goes rfl
    -- a second dry round ends the mission here, or is forgiven
    have hforgiven : Leaves hash first (fun m' => (After first m₁.budget.continuations m' ∧ Permitted m') ∧
        m'.budget.dryRounds < continuationDryRounds)
        (if continuationDryRounds ≤ m₁.budget.dryRounds then m₁.reseedBeforeDryEnd hash else (true, m₁)) := by
      split_ifs with hdry
      · exact reseedBeforeDryEnd_spec hash h₁ hp₁ hdry
      · exact .on ⟨⟨⟨h₁, rfl⟩, hp₁⟩, not_le.mp hdry⟩
    dsimp only
    generalize (if continuationDryRounds ≤ m₁.budget.dryRounds then m₁.reseedBeforeDryEnd hash else (true, m₁)) =
      forgiven at hforgiven ⊢
    obtain ⟨goesOn, m₂⟩ := forgiven
    cases goesOn with
    | false => exact .off (hforgiven.ends rfl).1 (hforgiven.ends rfl).2
    | true =>
      obtain ⟨⟨⟨h₂, hrounds₂⟩, hp₂⟩, hdry₂⟩ : (After first m₁.budget.continuations m₂ ∧ Permitted m₂) ∧
        m₂.budget.dryRounds < continuationDryRounds := hforgiven.goes rfl
      have hcount : m₂.budget.continuations = m.budget.continuations := hrounds₂.trans hrounds₁
      simp only [Bool.not_true, Bool.false_eq_true, if_false]
      rw [← hcount]
      have hpress := h₂.press (m₂.stopPressed || a.pressedBefore)
      split_ifs with hhalt
      · refine .off hpress.toAccounted (.halted h₂.undecided hdry₂ ?_)
        simp only [Bool.or_eq_true, decide_eq_true_eq] at hhalt
        rcases hhalt with hrounds | hpressed
        · exact .inl (Nat.le_antisymm h₂.capped hrounds)
        · exact .inr (by simpa using hpressed)
      · simp only [Bool.or_eq_true, decide_eq_true_eq, not_or, not_le] at hhalt
        exact continuationRound_spec hpress ⟨hp₂.stop, hp₂.paid⟩ hhalt.1 hdry₂ a

variable (hash) in
/-- The loop ends within as many turns as there are rounds left, and one more. -/
theorem continueMission_spec : ∀ {fuel : Nat} {answers : Nat → RoundAnswer} {m : Mission}, Going first m →
    continuationRoundsMax < m.budget.continuations + fuel →
      ∃ m', continueMission hash fuel answers m = some m' ∧ Accounted first m' ∧ EndCause hash m' := by
  intro fuel
  induction fuel with
  | zero =>
    intro answers m h hfuel
    exact absurd h.capped (Nat.not_le_of_lt hfuel)
  | succ fuel ih =>
    intro answers m h hfuel
    have hpass := pass_spec hash h (answers 0)
    rw [continueMission]
    generalize m.pass hash (answers 0) = left at hpass ⊢
    obtain ⟨goesOn, m'⟩ := left
    cases goesOn with
    | false => exact ⟨m', rfl, hpass.ends rfl⟩
    | true =>
      obtain ⟨h', hrounds⟩ : After first (m.budget.continuations + 1) m' := hpass.goes rfl
      exact ih h' (by omega)

/-! ## What the endings say -/

def MissionEnd.Means (hash : List (Int × Text) × List (Int × Text) → Nat) (m : Mission) : MissionEnd → Prop
  | .singleRun => m.runEvidence = false
  | .deliberateStop kind => Deliberate m.report.stop ∧ kind = stopKind m.report.stop
  | .cancelled => m.stopPressed = true
  | .dryRoundsExhausted =>
    m.budget.dryRounds = continuationDryRounds ∧ (m.report.abandonedUnmet = [] ∨
      m.budget.reseedFingerprint = some (verifiedStateFingerprint hash m.report))
  | .roundsMaxExhausted => m.budget.continuations = continuationRoundsMax
  | .errorRoundsExhausted =>
    m.budget.errorRounds = continuationErrorRounds + 1 ∧ failed m.report = true ∧
      isTransientLlmError (recordedFault m.report) = false ∧ ∃ probe ∈ m.budget.lastProbe, probe.answered = true
  | .plannerStarvation =>
    m.budget.errorRounds = continuationErrorRounds + 1 ∧ isTransientLlmError (recordedFault m.report) = false ∧
      ∃ probe ∈ m.budget.lastProbe, probe.answered = true
  | .parkedTransient _ =>
    m.budget.errorRounds = continuationErrorRounds + 1 ∧ (isTransientLlmError (recordedFault m.report) = true ∨
      ∃ probe ∈ m.budget.lastProbe, probe.answered = false)

/-- Giving up is for faults that waiting does not mend. -/
theorem giveupEnd_cases (report : LongHorizonReport) (probe : ProviderProbe) (terminal : MissionEnd) :
    giveupEnd report probe terminal = terminal ∧ isTransientLlmError (recordedFault report) = false ∧
        probe.answered = true ∨
      (∃ reason, giveupEnd report probe terminal = .parkedTransient reason) ∧
        (isTransientLlmError (recordedFault report) = true ∨ probe.answered = false) := by
  unfold giveupEnd
  dsimp only
  by_cases hterminal : (!isTransientLlmError (recordedFault report) && probe.answered) = true
  · rw [if_pos hterminal]
    simp only [Bool.and_eq_true, Bool.not_eq_true'] at hterminal
    exact .inl ⟨rfl, hterminal⟩
  · rw [if_neg hterminal]
    refine .inr ⟨⟨_, rfl⟩, ?_⟩
    cases htransient : isTransientLlmError (recordedFault report)
    · rw [htransient] at hterminal
      exact .inr (by simpa using hterminal)
    · exact .inl rfl

/-- The endings that nothing in the loop has named. -/
theorem unnamed_ending_means (h : Accounted first m) (hopen : m.budget.missionEnd = none)
    (hdry : continuationDryRounds ≤ m.budget.dryRounds → m.report.abandonedUnmet = [] ∨
      m.budget.reseedFingerprint = some (verifiedStateFingerprint hash m.report))
    (hother : m.runEvidence ≠ false → m.stopPressed ≠ true → m.budget.dryRounds < continuationDryRounds →
      m.budget.continuations < continuationRoundsMax → Deliberate m.report.stop) :
    m.ending.Means hash m := by
  unfold Mission.ending
  rw [hopen, Option.getD_none]
  split_ifs with hevidence hpressed hstruck hrounds
  · exact hevidence
  · exact hpressed
  · exact ⟨Nat.le_antisymm h.dry hstruck, hdry hstruck⟩
  · exact Nat.le_antisymm h.capped hrounds
  · exact ⟨hother hevidence hpressed (not_le.mp hstruck) (not_le.mp hrounds), rfl⟩

theorem ending_means (h : Accounted first m) (hend : EndCause hash m) : m.ending.Means hash m := by
  cases hend with
  | noMission hopen hevidence =>
    rw [Mission.ending, hopen, Option.getD_none, if_pos hevidence]
    exact hevidence
  | deliberate hopen hstop hunmet =>
    exact unnamed_ending_means h hopen (fun hdry => .inl (hunmet hdry)) fun _ _ _ _ => hstop
  | spent probe hgive hprobe herrors hfailed =>
    rw [Mission.ending, hgive, Option.getD_some]
    rcases giveupEnd_cases m.report probe .errorRoundsExhausted with ⟨heq, hlasting, hanswered⟩ | ⟨⟨reason, heq⟩, hwhy⟩
    · rw [heq]
      exact ⟨herrors, hfailed, hlasting, probe, hprobe, hanswered⟩
    · rw [heq]
      exact ⟨herrors, hwhy.imp_right fun hsilent => ⟨probe, hprobe, hsilent⟩⟩
  | starved probe hgive hprobe herrors =>
    rw [Mission.ending, hgive, Option.getD_some]
    rcases giveupEnd_cases m.report probe .plannerStarvation with ⟨heq, hlasting, hanswered⟩ | ⟨⟨reason, heq⟩, hwhy⟩
    · rw [heq]
      exact ⟨herrors, hlasting, probe, hprobe, hanswered⟩
    · rw [heq]
      exact ⟨herrors, hwhy.imp_right fun hsilent => ⟨probe, hprobe, hsilent⟩⟩
  | dry hopen hdry hexcuse =>
    exact unnamed_ending_means h hopen (fun _ => hexcuse) fun _ _ hfew _ => absurd hdry (not_le.mpr hfew)
  | halted hopen hdry hwhy =>
    refine unnamed_ending_means h hopen (fun hstruck => absurd hstruck (not_le.mpr hdry)) fun _ hpressed _ hfew => ?_
    rcases hwhy with hrounds | hstop
    · exact absurd hrounds hfew.ne
    · exact absurd hstop hpressed

end Nanna.Daemon
