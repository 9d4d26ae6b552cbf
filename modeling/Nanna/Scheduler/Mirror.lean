import Nanna.Lib.Moves
import Nanna.Scheduler.Operations

/-!
# Memory and storage agree

`mirrored`: where every added task has a label that reads back and the last run that memory already
had, no task is given a schedule it does not have, and no call by hand finishes at a new moment,
loading the rows gives the tasks that memory holds. An update of the schedule reaches storage only as
the next run, and it blanks the last run, so a restart brings the old schedule back
(`schedule_forgotten`).

The invariant is `Agree`: under every key the loaded task and the held one have one `view`, which
leaves out the start of a delay, the run count and the next run of a cron task.
-/

namespace Nanna.Scheduler

open Nanna.Lib

variable {env : SchedulerEnv} {s s' : Schedules} {task : ScheduledTask} {job : CronJob}
  {result : TaskResult} {clock : Clock} {id k : String} {now : Time} {oneShot : Bool}
  {schedule : Text} {next : Option Text}

/-- What a restart must not change. -/
structure TaskView where
  id : String
  name : String
  schedule : Schedule
  payload : String
  enabled : Bool
  lastRun : Option Time
  timezone : String
  targetChannel : Option String
  targetSession : Option String
  deriving DecidableEq

def ScheduledTask.view (task : ScheduledTask) : TaskView where
  id := task.id
  name := task.name
  schedule := task.taskType.schedule
  payload := task.payload
  enabled := task.enabled
  lastRun := task.lastRun
  timezone := task.timezone
  targetChannel := task.targetChannel
  targetSession := task.targetSession

/-- Loading the rows at any time gives the tasks that memory holds. -/
def Agree (env : SchedulerEnv) (s : Schedules) : Prop :=
  ∀ clock id, ((loadJobs env clock s.jobs).get id).map (·.view) = (s.tasks.get id).map (·.view)

/-! ## The operations -/

inductive Op where
  | addTask (task : ScheduledTask)
  | removeTask (id : String)
  | setTaskEnabled (id : String) (enabled : Bool)
  | updateSchedule (id : String) (schedule : Text) (now : Time)
  | finishDue (id : String) (oneShot : Bool) (result : TaskResult) (now : Time)
  | finishCall (id : String) (result : TaskResult) (now : Time)

namespace Schedules
def apply (env : SchedulerEnv) (s : Schedules) : Op → Schedules
  | .addTask task => s.addTask env task
  | .removeTask id => s.removeTask id
  | .setTaskEnabled id enabled => s.setTaskEnabled id enabled
  | .updateSchedule id schedule now => s.updateSchedule env id schedule now
  | .finishDue id oneShot result now => s.finishDue env id oneShot result now
  | .finishCall id result now => s.finishCall id result now

def step (env : SchedulerEnv) (s : Schedules) (op : Op) : Option Schedules := some (s.apply env op)

/-- A scheduler that has loaded what is stored. -/
def loaded (env : SchedulerEnv) (clock : Clock) (jobs : Jobs) : Schedules :=
  ⟨loadJobs env clock jobs, jobs⟩
end Schedules

/-- The operation reaches both copies alike. -/
def Mirrored (env : SchedulerEnv) (s : Schedules) : Op → Prop
  | .addTask task => task.taskType.ReadsBack env.chrono ∧
      task.lastRun = (s.tasks.get task.id).bind (·.lastRun)
  | .updateSchedule id schedule _ =>
    (CronExpr.parse schedule).toOption.isSome = true → (s.tasks.get id).all fun task =>
      task.taskType.schedule = .cron schedule && task.lastRun = none
  | .finishCall id result _ =>
    (s.tasks.get id).all fun task => task.lastRun = some result.finishedAt
  | .removeTask _ | .setTaskEnabled _ _ | .finishDue _ _ _ _ => True

instance (env : SchedulerEnv) (s : Schedules) : (op : Op) → Decidable (Mirrored env s op)
  | .addTask _ => inferInstanceAs (Decidable (_ ∧ _))
  | .updateSchedule _ _ _ => inferInstanceAs (Decidable (_ → _ = true))
  | .finishCall _ _ _ => inferInstanceAs (Decidable (_ = true))
  | .removeTask _ | .setTaskEnabled _ _ | .finishDue _ _ _ _ => inferInstanceAs (Decidable True)

/-! ## One row and one task -/

/-- The row under a key, loaded, and the task under it look the same. -/
theorem agree_at_iff : Agree env s ↔ ∀ clock id,
    (s.jobs.get id).map (fun job => (jobToTask env clock job).view) =
      (s.tasks.get id).map (·.view) := by
  simp only [Agree, get_loadJobs, Option.map_map, Function.comp_def]

theorem view_jobToTask (clock' : Clock) :
    (jobToTask env clock job).view = (jobToTask env clock' job).view := by
  simp only [ScheduledTask.view, jobToTask, schedule_parseSchedule_clock clock clock']

@[simp] theorem asStr_optionToJson (o : Option String) : (optionToJson o).asStr = o := by
  cases o <;> rfl

/-- What `persist_task` writes loads as the task, apart from the last run. -/
theorem view_rowOf (hchrono : env.chrono.Laws) (h : task.taskType.ReadsBack env.chrono)
    {lastRun : Option Text} (hlast : lastRun.bind env.chrono.fromStr = task.lastRun) :
    (jobToTask env clock { rowOf env task with lastRun := lastRun }).view = task.view := by
  have hschedule : (parseSchedule env.chrono clock (task.taskType.scheduleLabel env.chrono)).schedule =
      task.taskType.schedule := schedule_parseSchedule hchrono h
  simp [ScheduledTask.view, jobToTask, rowOf, Json.get, List.lookup_cons, hschedule, hlast]

/-- A view after a run the tick started. -/
def TaskView.settled (oneShot : Bool) (result : TaskResult) (view : TaskView) : TaskView :=
  { view with
    lastRun := some result.finishedAt
    enabled := if oneShot then false else view.enabled }

theorem view_settled :
    (task.settled oneShot result now).view = task.view.settled oneShot result := by
  cases oneShot <;> simp [ScheduledTask.settled, ScheduledTask.ran, ScheduledTask.view,
    TaskView.settled]

theorem view_jobToTask_settled (hchrono : env.chrono.Laws) :
    (jobToTask env clock (job.settled env oneShot result next)).view =
      (jobToTask env clock job).view.settled oneShot result := by
  simp [ScheduledTask.view, jobToTask, CronJob.settled, TaskView.settled,
    hchrono.fromStr_toRfc3339]

/-- No other operation than an update of the schedule or a run stores a last run. -/
theorem view_jobToTask_blank (hchrono : env.chrono.Laws)
    (h : (jobToTask env clock job).view.lastRun = none) :
    (jobToTask env clock { job with lastRun := some [], nextRun := next }).view =
      (jobToTask env clock job).view := by
  have hlast : job.lastRun.bind env.chrono.fromStr = none := h
  simp [ScheduledTask.view, jobToTask, hlast, hchrono.fromStr_nil]

/-! ## The steps -/

namespace Agree

theorem loaded {jobs : Jobs} : Agree env (.loaded env clock jobs) := by
  refine agree_at_iff.mpr fun clock' id => ?_
  rw [Schedules.loaded, get_loadJobs, Option.map_map]
  exact congrArg (Option.map · (jobs.get id)) (funext fun _ => view_jobToTask clock)

theorem addTask (hchrono : env.chrono.Laws) (hI : Agree env s)
    (hreads : task.taskType.ReadsBack env.chrono)
    (hlast : task.lastRun = (s.tasks.get task.id).bind (·.lastRun)) :
    Agree env (s.addTask env task) := by
  refine agree_at_iff.mpr fun clock k => ?_
  have hold := agree_at_iff.mp hI clock k
  have hjob : (s.addTask env task).jobs.get k =
      if task.id = k then
        some { rowOf env task with lastRun := (s.jobs.get k).bind (·.lastRun) }
      else s.jobs.get k := get_create
  have htask : (s.addTask env task).tasks.get k =
      if task.id = k then some task else s.tasks.get k := Table.get_insert
  rw [hjob, htask]
  by_cases hk : task.id = k
  · subst hk
    rw [if_pos rfl, if_pos rfl, Option.map_some, Option.map_some]
    refine congrArg some (view_rowOf hchrono hreads ?_)
    have hrun := congrArg (Option.bind · TaskView.lastRun) hold
    simp only [Option.bind_map, Function.comp_def] at hrun
    rw [hlast, Option.bind_assoc]
    exact hrun
  · rw [if_neg hk, if_neg hk]
    exact hold

theorem removeTask (hI : Agree env s) : Agree env (s.removeTask id) := by
  refine agree_at_iff.mpr fun clock k => ?_
  rw [Schedules.removeTask, Jobs.delete, Table.get_remove, Table.get_remove]
  split
  · rfl
  · exact agree_at_iff.mp hI clock k

/-- An operation that rewrites one row and one task, with the same effect on their views. -/
theorem rewrite (hI : Agree env s) (id : String) (f : CronJob → CronJob)
    (g : ScheduledTask → ScheduledTask) (v : TaskView → TaskView)
    (hjobs : ∀ k, s'.jobs.get k = if id = k then (s.jobs.get k).map f else s.jobs.get k)
    (htasks : ∀ k, s'.tasks.get k = if id = k then (s.tasks.get k).map g else s.tasks.get k)
    (hf : ∀ clock job, s.jobs.get id = some job →
      (jobToTask env clock (f job)).view = v (jobToTask env clock job).view)
    (hg : ∀ task, s.tasks.get id = some task → (g task).view = v task.view) : Agree env s' := by
  refine agree_at_iff.mpr fun clock k => ?_
  have hold := agree_at_iff.mp hI clock k
  rw [hjobs, htasks]
  by_cases hk : id = k
  · subst hk
    rw [if_pos rfl, if_pos rfl, Option.map_map, Option.map_map]
    calc
      (s.jobs.get id).map ((fun job => (jobToTask env clock job).view) ∘ f)
        = ((s.jobs.get id).map fun job => (jobToTask env clock job).view).map v := by
          rw [Option.map_map]
          exact Option.map_congr fun job hjob => hf clock job hjob
      _ = ((s.tasks.get id).map (·.view)).map v := by rw [hold]
      _ = (s.tasks.get id).map ((·.view) ∘ g) := by
          rw [Option.map_map]
          exact Option.map_congr fun task htask => (hg task htask).symm
  · rw [if_neg hk, if_neg hk]
    exact hold

theorem setTaskEnabled {enabled : Bool} (hI : Agree env s) :
    Agree env (s.setTaskEnabled id enabled) :=
  hI.rewrite id _ _ (fun view => { view with enabled := enabled }) (fun _ => get_setEnabled)
    (fun _ => Table.get_modify fun _ _ => rfl) (fun _ _ _ => rfl) fun _ _ => rfl

theorem finishDue (hchrono : env.chrono.Laws) (hI : Agree env s) :
    Agree env (s.finishDue env id oneShot result now) := by
  by_cases hremoved : (oneShot && result.success) = true
  · have hremove : s.finishDue env id oneShot result now = s.removeTask id := by
      simp only [Schedules.finishDue, settleMemory, settleInStorage, if_pos hremoved,
        Schedules.removeTask]
    exact hremove ▸ hI.removeTask
  · let next := settledNextRun env id (settleMemory id oneShot result now s.tasks)
    refine hI.rewrite id (·.settled env oneShot result next) (·.settled oneShot result now)
      (·.settled oneShot result) (fun k => get_settleInStorage.trans ?_)
      (fun k => get_settleMemory.trans ?_) (fun _ _ _ => view_jobToTask_settled hchrono)
      fun _ _ => view_settled
    · rw [if_neg hremoved]
    · rw [if_neg hremoved]

theorem finishCall (hI : Agree env s)
    (hlast : ∀ task, s.tasks.get id = some task → task.lastRun = some result.finishedAt) :
    Agree env (s.finishCall id result now) := by
  refine hI.rewrite id (fun job => job) (·.ran result now) (fun view => view)
    (fun k => ?_) (fun _ => get_settleCall) (fun _ _ _ => rfl) fun task htask => ?_
  · split
    · rw [Option.map_id']
      rfl
    · rfl
  · simp only [ScheduledTask.view, ScheduledTask.ran, TaskType.schedule_advance, hlast task htask]

theorem updateSchedule (hchrono : env.chrono.Laws) (hI : Agree env s)
    (hsame : (CronExpr.parse schedule).toOption.isSome = true → ∀ task,
      s.tasks.get id = some task →
        task.taskType.schedule = .cron schedule ∧ task.lastRun = none) :
    Agree env (s.updateSchedule env id schedule now) := by
  unfold Schedules.updateSchedule
  split
  · rename_i expr task hparse htask
    obtain ⟨hschedule, hlast⟩ := hsame (by rw [hparse]; rfl) task htask
    obtain rfl : task.id = id := Table.key_of_get htask
    refine hI.rewrite task.id _ (fun task => { task with taskType := .cron (.ofSchedule schedule now) })
      (fun view => view) (fun _ => get_updateLastRun) (fun k => ?_) (fun clock job hjob => ?_)
      fun held hheld => ?_
    · refine Table.get_insert.trans ?_
      show (if task.id = k then _ else _) = _
      split
      · rename_i hk
        rw [← hk, htask, Option.map_some]
      · rfl
    · have hold := agree_at_iff.mp hI clock task.id
      rw [hjob, htask] at hold
      have hview : (jobToTask env clock job).view = task.view := Option.some.inj hold
      exact view_jobToTask_blank hchrono (by rw [hview]; exact hlast)
    · obtain rfl : task = held := Option.some.inj (htask.symm.trans hheld)
      simp only [ScheduledTask.view, TaskType.schedule_ofSchedule, hschedule]
  · exact hI

theorem step {op : Op} (hchrono : env.chrono.Laws) (hI : Agree env s) (h : Mirrored env s op) :
    Agree env (s.apply env op) := by
  cases op with
  | addTask task => exact hI.addTask hchrono h.1 h.2
  | removeTask id => exact hI.removeTask
  | setTaskEnabled id enabled => exact hI.setTaskEnabled
  | updateSchedule id schedule now =>
    refine hI.updateSchedule hchrono fun hparse task htask => ?_
    have hsame := h hparse
    rw [htask, Option.all_some, Bool.and_eq_true] at hsame
    exact ⟨of_decide_eq_true hsame.1, of_decide_eq_true hsame.2⟩
  | finishDue id oneShot result now => exact hI.finishDue hchrono
  | finishCall id result now =>
    refine hI.finishCall fun task htask => ?_
    have hlast : (s.tasks.get id).all (fun task => task.lastRun = some result.finishedAt) := h
    rw [htask, Option.all_some] at hlast
    exact of_decide_eq_true hlast

end Agree

/-- **Main result.** Where every operation reaches both copies alike, a restart at any time brings
back the tasks that memory holds. -/
theorem mirrored {jobs : Jobs} (hchrono : env.chrono.Laws)
    (h : Moves (Schedules.step env) (Mirrored env) (.loaded env clock jobs) s) : Agree env s :=
  h.invariant (fun hok hstep hI => Option.some.inj hstep ▸ Agree.step hchrono hI hok) .loaded

/-! ## A schedule kept and a schedule forgotten -/

def morning : ScheduledTask where
  id := "backup-1"
  name := "backup"
  taskType := .cron (.ofSchedule "0 8 * * *".toList 0)
  payload := "Back up the vault"
  enabled := true
  lastRun := none
  runCount := 0
  timezone := "UTC"
  targetChannel := none
  targetSession := none

theorem mirrored_morning : ∃ s, runActs (Schedules.step epochEnv) (Mirrored epochEnv)
    (.loaded epochEnv ⟨0, 0⟩ .empty)
    [.addTask morning, .finishDue "backup-1" false ⟨true, 28800000000000⟩ 28800000000000,
      .setTaskEnabled "backup-1" false] = some s ∧ Agree epochEnv s := by
  have hruns : (runActs (Schedules.step epochEnv) (Mirrored epochEnv)
      (.loaded epochEnv ⟨0, 0⟩ .empty)
      [.addTask morning, .finishDue "backup-1" false ⟨true, 28800000000000⟩ 28800000000000,
        .setTaskEnabled "backup-1" false]).isSome = true := by decide
  obtain ⟨s, hrun⟩ := Option.isSome_iff_exists.mp hruns
  exact ⟨s, hrun, mirrored epochChrono_laws (.of_acts hrun)⟩

/-- The task is moved from eight to nine o'clock, and the row still says eight. -/
theorem schedule_forgotten :
    ¬ ∀ (env : SchedulerEnv) (clock : Clock) (jobs : Jobs) (s : Schedules), env.chrono.Laws →
      Moves (Schedules.step env) (fun _ _ => True) (.loaded env clock jobs) s → Agree env s := by
  intro h
  have hagree := h epochEnv ⟨0, 0⟩ .empty
    (((Schedules.loaded epochEnv ⟨0, 0⟩ .empty).addTask epochEnv morning).updateSchedule epochEnv
      "backup-1" "0 9 * * *".toList 0) epochChrono_laws
    (.tail (.single ⟨.addTask morning, trivial, rfl⟩)
      ⟨.updateSchedule "backup-1" "0 9 * * *".toList 0, trivial, rfl⟩) ⟨0, 0⟩ "backup-1"
  have hschedule := congrArg (Option.map TaskView.schedule) hagree
  revert hschedule
  decide

end Nanna.Scheduler
