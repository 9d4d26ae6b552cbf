import Nanna.Scheduler.CronNext
import Nanna.Tasks.Announce

/-!
# The recurrence sweep

`run_recurrence_sweep` reopens the completed recurring cards whose next occurrence has arrived, and
announces the dates that have come: a card that comes back around this pass can fall due on the same
pass. Stored timestamps are read by the date library, which is a parameter here.
-/

namespace Nanna.Daemon

open Nanna.Lib Nanna.Tasks
open Nanna.Scheduler (Time CronExpr)

section Pass

variable (parseDbTime : String → Option Time) (now : Time)

/-! ## The pass -/

/-- The instant a completed card is counted from. -/
def completedAt (task : Task) : Time := (task.completedAt.bind parseDbTime).getD now

/-- `expr.next(&completed).is_some_and(|next| next <= now)`. -/
def occurs (task : Task) (expr : CronExpr) : Bool := (expr.next (completedAt parseDbTime now task)).any (· ≤ now)

/-- The body of the loop of `sweep_recurrences`. -/
def sweepRecurrence (env : Env) (acc : Store × Nat) (task : Task) : Store × Nat :=
  match task.recurrence with
  | none => acc
  | some text =>
    match CronExpr.parse text.toList with
    | .error _ => acc
    | .ok expr =>
      if occurs parseDbTime now task expr then
        match reopen env acc.1 task.id with
        | .ok (s, _) => (s, acc.2 + 1)
        | .error _ => acc
      else acc

def listRecurringClosed (s : Store) : List Task :=
  s.tasks.filter fun t => t.recurrence.isSome && t.status = .done

/-- `sweep_recurrences`: the store and the number of tasks reopened. -/
def sweepRecurrences (env : Env) (s : Store) : Store × Nat :=
  (listRecurringClosed s).foldl (sweepRecurrence parseDbTime now env) (s, 0)

/-- The counts `run_recurrence_sweep` reports. -/
structure PassCounts where
  reopened : Nat
  due : Nat
  overdue : Nat
deriving DecidableEq

/-- `run_recurrence_sweep`; `stamp` is its second reading of the clock. -/
def runRecurrenceSweep (env : Env) (stamp : String) (b : Board) : Board × PassCounts :=
  let swept := sweepRecurrences parseDbTime now env b.store
  let announced := announceDue stamp { b with store := swept.1 }
  (announced.1, ⟨swept.2, announced.2.1, announced.2.2⟩)

/-! ## What should come back -/

/-- The expression a card recurs by has an occurrence after its completion, not later than `now` and within
the four years the search covers. -/
def FallsDue (task : Task) : Prop :=
  task.status = .done ∧ ∃ text expr t, task.recurrence = some text ∧ CronExpr.parse text.toList = .ok expr ∧
    expr.Matches t ∧ completedAt parseDbTime now task < t ∧ t ≤ now ∧
    t ≤ completedAt parseDbTime now task + CronExpr.maxIterations * Scheduler.minuteLength

/-- The test of the loop, for one row. -/
def recurs (task : Task) : Bool :=
  task.status = .done && task.recurrence.any fun text =>
    match CronExpr.parse text.toList with
    | .ok expr => occurs parseDbTime now task expr
    | .error _ => false

/-- The row the reopening half of a pass leaves. -/
def reopenedRow (env : Env) (row : Task) : Task := if recurs parseDbTime now row then reopened env.now row else row

variable {parseDbTime now}

theorem occurs_iff {task : Task} {expr : CronExpr} : occurs parseDbTime now task expr = true ↔
    ∃ t, expr.Matches t ∧ completedAt parseDbTime now task < t ∧ t ≤ now ∧
      t ≤ completedAt parseDbTime now task + CronExpr.maxIterations * Scheduler.minuteLength := by
  unfold occurs
  cases hnext : expr.next (completedAt parseDbTime now task) with
  | none =>
    refine iff_of_false (by simp) ?_
    rintro ⟨t, hmatches, hlt, -, hle⟩
    exact CronExpr.next_eq_none.mp hnext t hlt hle hmatches
  | some time =>
    obtain ⟨⟨hlt, hmatches⟩, hleast⟩ := CronExpr.next_least hnext
    simp only [Option.any_some, decide_eq_true_eq]
    constructor
    · intro hle
      refine ⟨time, hmatches, hlt, hle, ?_⟩
      obtain ⟨k, hsearch, rfl⟩ := Option.map_eq_some_iff.mp hnext
      exact CronExpr.minute_le_iff.mpr (CronExpr.lt_of_search hsearch)
    · rintro ⟨t, hmatches', hlt', hle, -⟩
      exact (hleast ⟨hlt', hmatches'⟩).trans hle

theorem recurs_iff {task : Task} : recurs parseDbTime now task = true ↔ FallsDue parseDbTime now task := by
  simp only [recurs, FallsDue, Bool.and_eq_true, decide_eq_true_eq, Option.any_eq_true]
  refine and_congr_right fun _ => ?_
  constructor
  · rintro ⟨text, hrecurrence, h⟩
    split at h
    · rename_i expr hparse
      obtain ⟨t, ht⟩ := occurs_iff.mp h
      exact ⟨text, expr, t, hrecurrence, hparse, ht⟩
    · cases h
  · rintro ⟨text, expr, t, hrecurrence, hparse, ht⟩
    exact ⟨text, hrecurrence, by rw [hparse]; exact occurs_iff.mpr ⟨t, ht⟩⟩

/-! ## The reopening half -/

theorem reopen_closed {env : Env} {s : Store} {task : Task} (hs : s.Distinct) (htask : task ∈ s.tasks)
    (hclosed : task.status.isClosed = true) :
    reopen env s task.id = .ok (s.markReopened env.now task.id, reopened env.now task) := by
  have hs' : (s.markReopened env.now task.id).Distinct := modify_distinct (fun _ => rfl) hs
  have hmem : reopened env.now task ∈ (s.markReopened env.now task.id).tasks :=
    List.mem_map.mpr ⟨task, htask, if_pos rfl⟩
  have hread : (s.markReopened env.now task.id).getRaw task.id = .ok (reopened env.now task) := getRaw_of_mem hs' hmem
  unfold reopen
  rw [getRaw_of_mem hs htask]
  simp [hclosed, hread, bind, Except.bind]

/-- One row of the loop, while it is as it was listed. -/
theorem sweepRecurrence_eq {env : Env} {acc : Store × Nat} {task : Task} (hs : acc.1.Distinct)
    (htask : task ∈ acc.1.tasks) (hdone : task.status = .done) : sweepRecurrence parseDbTime now env acc task =
      (acc.1.modify task.id fun row => if recurs parseDbTime now task then reopened env.now row else row,
        acc.2 + (recurs parseDbTime now task).toNat) := by
  unfold sweepRecurrence recurs
  rw [hdone]
  cases task.recurrence with
  | none => simp [modify_self]
  | some text =>
    simp only [decide_true, Bool.true_and, Option.any_some]
    cases CronExpr.parse text.toList with
    | error e => simp [modify_self]
    | ok expr =>
      simp only
      by_cases hoccurs : occurs parseDbTime now task expr = true
      · rw [if_pos hoccurs, reopen_closed hs htask (by rw [hdone]; rfl)]
        simp [hoccurs, Store.markReopened]
      · simp [hoccurs, modify_self]

theorem foldl_sweepRecurrence {env : Env} : ∀ {rows : List Task} {acc : Store × Nat}, acc.1.Distinct →
    (rows.map (·.id)).Nodup → (∀ t ∈ rows, t ∈ acc.1.tasks ∧ t.status = .done) →
      rows.foldl (sweepRecurrence parseDbTime now env) acc =
        (rows.foldl (fun s t => s.modify t.id fun row =>
          if recurs parseDbTime now t then reopened env.now row else row) acc.1,
          acc.2 + rows.countP (recurs parseDbTime now)) := by
  intro rows
  induction rows with
  | nil => exact fun _ _ _ => rfl
  | cons t rows ih =>
    intro acc hs hnd hrows
    rw [List.map_cons, List.nodup_cons] at hnd
    obtain ⟨htask, hdone⟩ := hrows t List.mem_cons_self
    rw [List.foldl_cons, sweepRecurrence_eq hs htask hdone, ih ?_ hnd.2 fun u hu => ?_]
    · rw [List.foldl_cons, List.countP_cons]
      cases recurs parseDbTime now t <;> simp [Nat.add_assoc, Nat.add_comm 1]
    · refine modify_distinct (fun row => ?_) hs
      split_ifs <;> rfl
    · obtain ⟨hu', hudone⟩ := hrows u (List.mem_cons_of_mem _ hu)
      have hne : u.id ≠ t.id := fun heq => hnd.1 (heq ▸ List.mem_map_of_mem hu)
      exact ⟨List.mem_map.mpr ⟨u, hu', if_neg hne⟩, hudone⟩

/-- The reopening half rewrites the rows that recur, and counts them. -/
theorem sweepRecurrences_spec {env : Env} {s : Store} (hs : s.Distinct) :
    (sweepRecurrences parseDbTime now env s).1.tasks = s.tasks.map (reopenedRow parseDbTime now env) ∧
      (sweepRecurrences parseDbTime now env s).2 = s.tasks.countP (recurs parseDbTime now) := by
  have hlist : ∀ t ∈ listRecurringClosed s, t ∈ s.tasks ∧ t.status = .done := fun t ht => by
    obtain ⟨hmem, h⟩ := List.mem_filter.mp ht
    simp only [Bool.and_eq_true, decide_eq_true_eq] at h
    exact ⟨hmem, h.2⟩
  have hnd : ((listRecurringClosed s).map (·.id)).Nodup := hs.nodup.sublist ((List.filter_sublist ..).map _)
  have hlisted : ∀ t : Task, recurs parseDbTime now t = true → (t.recurrence.isSome && t.status = .done) = true := by
    intro t ht
    obtain ⟨hdone, text, -, -, hrecurrence, -⟩ := recurs_iff.mp ht
    simp [hdone, hrecurrence]
  have hfold : sweepRecurrences parseDbTime now env s = _ := foldl_sweepRecurrence hs hnd hlist
  rw [hfold]
  constructor
  · rw [listRecurringClosed, foldl_modify_filter hs _ (fun t row =>
      if recurs parseDbTime now t then reopened env.now row else row) fun t row => by split_ifs <;> rfl]
    refine List.map_congr_left fun row _ => ?_
    unfold reopenedRow
    cases hrecurs : recurs parseDbTime now row with
    | false => simp
    | true => rw [if_pos (hlisted row hrecurs)]
  · rw [Nat.zero_add, listRecurringClosed, List.countP_filter]
    refine List.countP_congr fun t _ => ?_
    constructor
    · intro h
      simp only [Bool.and_eq_true] at h
      exact h.1
    · intro h
      have := hlisted t h
      simp only [h, Bool.true_and]
      exact this

/-! ## The whole pass -/

theorem sweepRecurrences_distinct {env : Env} {s : Store} (hs : s.Distinct) :
    (sweepRecurrences parseDbTime now env s).1.Distinct := by
  have hkeep : ∀ {rows : List Task} {acc : Store × Nat}, acc.1.Distinct →
      (rows.foldl (sweepRecurrence parseDbTime now env) acc).1.Distinct := by
    intro rows
    induction rows with
    | nil => exact fun h => h
    | cons t rows ih =>
      intro acc h
      refine ih ?_
      unfold sweepRecurrence
      split
      · exact h
      · split
        · exact h
        · split_ifs
          · split
            · rename_i s' u hreopen
              exact (reopen_loadScope h hreopen).1
            · exact h
          · exact h
  exact hkeep hs

/-- A swept row has nothing left to announce. -/
theorem sweptRow_settled (stamp : String) (row : Task) (hopen : isOpen (row.sweptRow stamp) = true) (kind : TimeKind) :
    (row.sweptRow stamp).crossed (dayOf stamp) kind = false := by
  unfold Task.sweptRow at hopen ⊢
  split_ifs with h
  · unfold Task.announcedRow
    cases hdue : row.crossed (dayOf stamp) .due <;> cases hover : row.crossed (dayOf stamp) .overdue <;>
      cases kind <;> simp_all [Task.crossed, Task.marked, Task.marker, Task.reached]
  · rw [if_neg h] at hopen
    exact absurd hopen h

theorem sweptRow_recurs (stamp : String) (row : Task) :
    recurs parseDbTime now (row.sweptRow stamp) = recurs parseDbTime now row := by
  unfold Task.sweptRow Task.announcedRow
  split_ifs <;> rfl

theorem recurs_reopenedRow (env : Env) (row : Task) :
    recurs parseDbTime now (reopenedRow parseDbTime now env row) = false := by
  unfold reopenedRow
  cases h : recurs parseDbTime now row with
  | false => exact h
  | true => rfl

theorem sweepRecurrences_none {env : Env} {s : Store} (hs : s.Distinct)
    (h : ∀ t ∈ s.tasks, recurs parseDbTime now t = false) : sweepRecurrences parseDbTime now env s = (s, 0) := by
  have hstay : ∀ {rows : List Task}, (∀ t ∈ rows, t ∈ s.tasks ∧ t.status = .done) →
      rows.foldl (sweepRecurrence parseDbTime now env) (s, 0) = (s, 0) := by
    intro rows
    induction rows with
    | nil => exact fun _ => rfl
    | cons t rows ih =>
      intro hrows
      obtain ⟨htask, hdone⟩ := hrows t List.mem_cons_self
      have hstep : sweepRecurrence parseDbTime now env (s, 0) t = (s, 0) := by
        refine (sweepRecurrence_eq hs htask hdone).trans ?_
        simp [h t htask, modify_self]
      rw [List.foldl_cons, hstep]
      exact ih fun u hu => hrows u (List.mem_cons_of_mem _ hu)
  refine hstay fun t ht => ?_
  obtain ⟨hmem, ht⟩ := List.mem_filter.mp ht
  simp only [Bool.and_eq_true, decide_eq_true_eq] at ht
  exact ⟨hmem, ht.2⟩

theorem announceDue_none {b : Board} {stamp : String}
    (h : ∀ t ∈ b.store.tasks, isOpen t = true → ∀ kind, t.crossed (dayOf stamp) kind = false) :
    announceDue stamp b = (b, 0, 0) := by
  have hnil : listTimeAnnouncable b.store (dayOf stamp) = [] := by
    refine List.filter_eq_nil_iff.mpr fun t ht hlisted => ?_
    simp only [Bool.and_eq_true, Bool.or_eq_true] at hlisted
    obtain ⟨hopen, hdue | hover⟩ := hlisted
    · rw [h t ht hopen .due] at hdue
      cases hdue
    · rw [h t ht hopen .overdue] at hover
      cases hover
  rw [announceDue, hnil]
  rfl

theorem announceDue_counts (b : Board) (stamp : String) : (announceDue stamp b).2 =
    (b.store.tasks.countP fun t => isOpen t && t.crossed (dayOf stamp) .due,
      b.store.tasks.countP fun t => isOpen t && t.crossed (dayOf stamp) .overdue) := by
  rw [announceDue, listTimeAnnouncable]
  simp only [List.countP_filter]
  refine Prod.ext (List.countP_congr fun t _ => ?_) (List.countP_congr fun t _ => ?_)
  · cases isOpen t <;> cases t.crossed (dayOf stamp) .due <;> simp
  · cases isOpen t <;> cases t.crossed (dayOf stamp) .overdue <;> simp

end Pass

/-- **Main result.** In every state that calls and sweeps reach, a pass reopens exactly the done cards with an
occurrence between their completion and now, then announces the open cards whose day has come, the reopened ones
included; it leaves neither kind behind, so the next pass at that instant does nothing. -/
theorem recurrence_pass_exact (parseDbTime : String → Option Time) (now : Time) (env : Env) (stamp : String)
    (acts : List SweepAct) (s : Sweep) (h : Sweep.run acts = some s) :
    ∃ (b : Board) (counts : PassCounts), runRecurrenceSweep parseDbTime now env stamp s.board = (b, counts) ∧
      (∀ row, recurs parseDbTime now row = true ↔ FallsDue parseDbTime now row) ∧
      (let rows := s.board.store.tasks.map (reopenedRow parseDbTime now env)
       b.store.tasks = rows.map (Task.sweptRow stamp) ∧
        b.posted = s.board.posted ++ (rows.filter isOpen).flatMap (·.timeEvents stamp) ∧
        counts = ⟨s.board.store.tasks.countP (recurs parseDbTime now),
          rows.countP fun t => isOpen t && t.crossed (dayOf stamp) .due,
          rows.countP fun t => isOpen t && t.crossed (dayOf stamp) .overdue⟩) ∧
      (∀ t ∈ b.store.tasks, ¬ FallsDue parseDbTime now t ∧
        (isOpen t = true → ∀ kind, t.reached (dayOf stamp) kind = true → (t.marker kind).isSome)) ∧
      ∀ env', runRecurrenceSweep parseDbTime now env' stamp b = (b, ⟨0, 0, 0⟩) := by
  have hs := (Sweep.Sound.run h .due 0).counted.distinct
  obtain ⟨hrows, hcount⟩ : (sweepRecurrences parseDbTime now env s.board.store).1.tasks =
      s.board.store.tasks.map (reopenedRow parseDbTime now env) ∧ _ := sweepRecurrences_spec hs
  have hs' : (sweepRecurrences parseDbTime now env s.board.store).1.Distinct := sweepRecurrences_distinct hs
  let swept : Board := { s.board with store := (sweepRecurrences parseDbTime now env s.board.store).1 }
  have htasks : (announceDue stamp swept).1.store.tasks =
      (s.board.store.tasks.map (reopenedRow parseDbTime now env)).map (Task.sweptRow stamp) := by
    rw [← hrows]
    exact announceDue_store hs' stamp
  -- what the pass leaves is settled in both ways
  have hdone : ∀ t ∈ (announceDue stamp swept).1.store.tasks, recurs parseDbTime now t = false ∧
      (isOpen t = true → ∀ kind, t.crossed (dayOf stamp) kind = false) := by
    intro t ht
    rw [htasks, List.map_map] at ht
    obtain ⟨row, -, rfl⟩ := List.mem_map.mp ht
    exact ⟨(sweptRow_recurs ..).trans (recurs_reopenedRow env row), sweptRow_settled stamp _⟩
  refine ⟨(announceDue stamp swept).1, _, rfl, fun row => recurs_iff, ⟨htasks, ?_, ?_⟩, fun t ht => ?_, fun env' => ?_⟩
  · rw [← hrows]
    exact announceDue_posted swept stamp
  · rw [← hrows, hcount, announceDue_counts]
  · obtain ⟨hrecurs, hcrossed⟩ := hdone t ht
    refine ⟨fun hback => ?_, fun hopen kind hreached => ?_⟩
    · rw [recurs_iff.mpr hback] at hrecurs
      cases hrecurs
    · have hno := hcrossed hopen kind
      rw [Task.crossed, hreached, Bool.and_true] at hno
      cases hmarker : t.marker kind with
      | none => simp [hmarker] at hno
      | some _ => rfl
  · have hagain : sweepRecurrences parseDbTime now env' (announceDue stamp swept).1.store = _ :=
      sweepRecurrences_none (announceDue_distinct hs' stamp) fun t ht => (hdone t ht).1
    rw [runRecurrenceSweep, hagain, announceDue_none fun t ht => (hdone t ht).2]

/-- What the date library reads from the stamp of the sample calls. -/
def sampleDbTime (text : String) : Option Time :=
  if text = "2026-08-08 12:00:00" then some (29769840 * Scheduler.minuteLength) else none

/-- A card due since the first of the month, done every morning at nine, completed at noon. -/
def dailyCard : List SweepAct :=
  [.call sampleEnv (.create { sampleTask "A" none [] with dueAt := some "2026-08-01", recurrence := some "0 9 * * *" }),
    .call sampleEnv (.complete 1)]

def dailyBoard : Board :=
  ⟨⟨[{ sampleRow 1 "A" none [] with
    status := .done, completedAt := some "2026-08-08 12:00:00", dueAt := some "2026-08-01",
    recurrence := some "0 9 * * *" }], 1⟩, []⟩

/-- The next morning at five past nine the card comes back and is announced, once. -/
theorem recurrence_pass_exact_daily : ∃ b, runRecurrenceSweep sampleDbTime (29771105 * Scheduler.minuteLength) sampleEnv
    "2026-08-09T09:05:00Z" dailyBoard = (b, ⟨1, 1, 0⟩) ∧ ∀ env', runRecurrenceSweep sampleDbTime
      (29771105 * Scheduler.minuteLength) env' "2026-08-09T09:05:00Z" b = (b, ⟨0, 0, 0⟩) := by
  obtain ⟨b, counts, hrun, -, -, -, hagain⟩ := recurrence_pass_exact sampleDbTime (29771105 * Scheduler.minuteLength)
    sampleEnv "2026-08-09T09:05:00Z" dailyCard ⟨dailyBoard, "", []⟩ rfl
  have hcounts : (runRecurrenceSweep sampleDbTime (29771105 * Scheduler.minuteLength) sampleEnv
      "2026-08-09T09:05:00Z" dailyBoard).2 = ⟨1, 1, 0⟩ := by decide +kernel
  rw [hrun] at hcounts
  obtain rfl : counts = ⟨1, 1, 0⟩ := hcounts
  exact ⟨b, hrun, hagain⟩

end Nanna.Daemon
