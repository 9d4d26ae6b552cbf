import Nanna.Daemon.MissionEnds

/-!
# The report of a turn

`mission_report`: the report of a turn is made of its first run, the runs that late messages got and the rounds
of the continuation loop. Its counters add up, and of every item it holds the entry of the last run that names
it. The checks that a run for late messages leaves failing are not in it.
-/

namespace Nanna.Daemon

open Nanna.Lib Nanna.Lib.Text Nanna.Harness

/-- The counters that add up over the runs of a turn. -/
def tallies : List (LongHorizonReport → Nat) :=
  [(·.stepsTaken), (·.toolCalls), (·.sideEffectToolCalls), (·.itemsCompleted), (·.itemsCompletedUnverified),
    (·.itemsRevived), (·.acceptanceUnknown), (·.itemsAlreadySatisfied), (·.itemsAbandoned), (·.replans),
    (·.falseSuccessClaims)]

/-- The report of a turn and the runs it is made of: its own, those for late messages with how many of them, and
the rounds. What a run for late messages leaves unmet is not in it. -/
structure TurnReport (own : LongHorizonReport) (drains : List (LongHorizonReport × Nat))
    (runs : List LongHorizonReport) (report : LongHorizonReport) : Prop where
  tallied : ∀ f ∈ tallies, f report = f own + ((drains.map fun d => f d.1).sum + (runs.map f).sum)
  interjected : report.interjectedItems = own.interjectedItems +
    ((drains.map fun d => d.2 + d.1.interjectedItems).sum + (runs.map (·.interjectedItems)).sum)
  unmet : ∀ u, u ∈ report.abandonedUnmet ↔
    Latest (·.id) (own.abandonedUnmet :: runs.map (·.abandonedUnmet)) u
  unverifiable : ∀ u, u ∈ report.abandonedUnverifiable ↔
    Latest (·.id) (own.abandonedUnverifiable :: (drains.map (·.1.abandonedUnverifiable) ++
      runs.map (·.abandonedUnverifiable))) u
  verified : ∀ v, v ∈ report.verifiedOutcomes ↔
    Latest (·.id) (own.verifiedOutcomes :: (drains.map (·.1.verifiedOutcomes) ++ runs.map (·.verifiedOutcomes))) v
  stop : some report.stop = (own.stop :: (drains.map (·.1.stop) ++ runs.map (·.stop))).getLast?

/-- A field that every fold adds to adds up. -/
theorem foldl_adds {α β : Type} (fold : α → β → α) (f : α → Nat) (g : β → Nat)
    (h : ∀ a b, f (fold a b) = f a + g b) (l : List β) : ∀ a, f (l.foldl fold a) = f a + (l.map g).sum := by
  induction l with
  | nil => exact fun _ => rfl
  | cons b l ih =>
    intro a
    rw [List.foldl_cons, ih, h, List.map_cons, List.sum_cons, Nat.add_assoc]

/-- A field that every fold supersedes holds the latest entries. -/
theorem foldl_supersedes {α β γ : Type} (fold : α → β → α) (f : α → List γ) (g : β → List γ) {key : γ → Int}
    (h : ∀ a b, f (fold a b) = supersede key (f a) (g b)) {batches : List (List γ)} {l : List β} {a : α}
    (ha : f a = batches.foldl (supersede key) []) :
    f (l.foldl fold a) = (batches ++ l.map g).foldl (supersede key) [] := by
  rw [List.foldl_append, ← ha, List.foldl_map]
  exact (List.foldl_hom f fun a b => (h a b).symm).symm

/-- A field that every fold replaces is that of the last one. -/
theorem foldl_replaces {α β γ : Type} (fold : α → β → α) (f : α → γ) (g : β → γ) (h : ∀ a b, f (fold a b) = g b)
    {before : List γ} {a : α} (ha : some (f a) = before.getLast?) (l : List β) :
    some (f (l.foldl fold a)) = (before ++ l.map g).getLast? := by
  induction l using List.reverseRecOn with
  | nil => rw [List.foldl_nil, List.map_nil, List.append_nil, ha]
  | append_singleton l b _ =>
    rw [List.foldl_concat, h, List.map_append, ← List.append_assoc, List.map_singleton, List.getLast?_concat]

theorem supersede_nil {γ : Type} (key : γ → Int) (l : List γ) : l = [l].foldl (supersede key) [] := rfl

/-- Fold a run for late messages, with their number. -/
def foldDrain (report : LongHorizonReport) (drain : LongHorizonReport × Nat) : LongHorizonReport :=
  foldDrainSegment report drain.1 drain.2

theorem turnReport (own : LongHorizonReport) (drains : List (LongHorizonReport × Nat))
    (runs : List LongHorizonReport) :
    TurnReport own drains runs (runs.foldl foldRound (drains.foldl foldDrain own)) where
  tallied f hf := by
    have hround : ∀ a b, f (foldRound a b) = f a + f b := by
      simp only [tallies, List.mem_cons, List.not_mem_nil, or_false] at hf
      rcases hf with rfl | rfl | rfl | rfl | rfl | rfl | rfl | rfl | rfl | rfl | rfl <;> exact fun _ _ => rfl
    have hdrain : ∀ a d, f (foldDrain a d) = f a + f d.1 := by
      simp only [tallies, List.mem_cons, List.not_mem_nil, or_false] at hf
      rcases hf with rfl | rfl | rfl | rfl | rfl | rfl | rfl | rfl | rfl | rfl | rfl <;> exact fun _ _ => rfl
    rw [foldl_adds foldRound f f hround, foldl_adds foldDrain f (fun d => f d.1) hdrain, Nat.add_assoc]
  interjected := by
    rw [foldl_adds foldRound (·.interjectedItems) (·.interjectedItems) fun _ _ => rfl,
      foldl_adds foldDrain (·.interjectedItems) (fun d => d.2 + d.1.interjectedItems) fun _ _ => rfl, Nat.add_assoc]
  unmet u := by
    have hdrains : (drains.foldl foldDrain own).abandonedUnmet = own.abandonedUnmet := by
      generalize own = report
      induction drains generalizing report with
      | nil => rfl
      | cons d drains ih => exact ih (foldDrain report d)
    rw [foldl_supersedes foldRound (·.abandonedUnmet) (·.abandonedUnmet) (fun _ _ => rfl)
      (hdrains.trans (supersede_nil _ _)), mem_foldl_supersede]
    rfl
  unverifiable u := by
    rw [foldl_supersedes foldRound (·.abandonedUnverifiable) (·.abandonedUnverifiable) (fun _ _ => rfl)
      (foldl_supersedes foldDrain (·.abandonedUnverifiable) (·.1.abandonedUnverifiable) (fun _ _ => rfl)
        (supersede_nil _ _)), mem_foldl_supersede, List.append_assoc]
    rfl
  verified v := by
    rw [foldl_supersedes foldRound (·.verifiedOutcomes) (·.verifiedOutcomes) (fun _ _ => rfl)
      (foldl_supersedes foldDrain (·.verifiedOutcomes) (·.1.verifiedOutcomes) (fun _ _ => rfl)
        (supersede_nil _ _)), mem_foldl_supersede, List.append_assoc]
    rfl
  stop := by
    have hown : some own.stop = [own.stop].getLast? := rfl
    have hdrains := foldl_replaces foldDrain (·.stop) (·.1.stop) (fun _ _ => rfl) hown drains
    rw [foldl_replaces foldRound (·.stop) (·.stop) (fun _ _ => rfl) hdrains runs, List.append_assoc]
    rfl

theorem drainFrom_eq : ∀ (sweeps : Nat) (answers : Nat → DrainAnswer) (report : LongHorizonReport),
    ∃ drains : List (LongHorizonReport × Nat), drains.length ≤ sweeps ∧
      drainFrom sweeps answers report = drains.foldl foldDrain report := by
  intro sweeps
  induction sweeps with
  | zero => exact fun _ _ => ⟨[], Nat.le_refl 0, rfl⟩
  | succ sweeps ih =>
    intro answers report
    rw [drainFrom]
    split_ifs with hpressed
    · exact ⟨[], Nat.zero_le _, rfl⟩
    · cases (answers 0).admitted with
      | error message => exact ⟨[], Nat.zero_le _, rfl⟩
      | ok n =>
        cases n with
        | zero => exact ⟨[], Nat.zero_le _, rfl⟩
        | succ n =>
          obtain ⟨drains, hlength, heq⟩ := ih (fun k => answers (k + 1))
            (foldDrainSegment report (answers 0).extra (n + 1))
          exact ⟨((answers 0).extra, n + 1) :: drains, Nat.succ_le_succ hlength, heq⟩

end Nanna.Daemon
