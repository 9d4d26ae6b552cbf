import Nanna.Scheduler.Types

/-!
# What the scheduler does to memory and to storage

Each operation that changes a task changes the two copies with code of its own. Here are the halves,
each as a function of its copy, with what is read under a key afterwards.
-/

namespace Nanna.Scheduler

open Nanna.Lib

variable {env : SchedulerEnv} {tasks : Tasks} {jobs : Jobs} {task : ScheduledTask} {id k : String}
  {now t : Time} {oneShot : Bool} {next : Option Text}

/-- What an executor answers. -/
structure TaskResult where
  success : Bool
  finishedAt : Time
  deriving DecidableEq

variable {result : TaskResult}

/-! ## Memory -/

/-- A task after a run of it. -/
def ScheduledTask.ran (result : TaskResult) (now : Time) (task : ScheduledTask) : ScheduledTask :=
  { task with
    lastRun := some result.finishedAt
    runCount := task.runCount + 1
    taskType := task.taskType.advance now }

/-- A task that stays after a run the tick started; a failed one-shot is disabled. -/
def ScheduledTask.settled (oneShot : Bool) (result : TaskResult) (now : Time)
    (task : ScheduledTask) : ScheduledTask :=
  if oneShot then { task.ran result now with enabled := false } else task.ran result now

/-- The memory half of `run_due_task`. -/
def settleMemory (id : String) (oneShot : Bool) (result : TaskResult) (now : Time)
    (tasks : Tasks) : Tasks :=
  if oneShot && result.success then tasks.remove id
  else tasks.modify id (·.settled oneShot result now)

/-- The next run that `run_due_task` reads from the settled task. -/
def settledNextRun (env : SchedulerEnv) (id : String) (tasks : Tasks) : Option Text :=
  (tasks.get id).bind fun task => task.taskType.nextRun.map env.chrono.toRfc3339

/-- The memory half of `run_now`. -/
def settleCall (id : String) (result : TaskResult) (now : Time) (tasks : Tasks) : Tasks :=
  tasks.modify id (·.ran result now)

/-! ## Storage -/

def settleInStorage (env : SchedulerEnv) (id : String) (oneShot : Bool) (result : TaskResult)
    (nextRun : Option Text) (jobs : Jobs) : Jobs :=
  if oneShot && result.success then jobs.delete id
  else
    let jobs := jobs.updateLastRun id (env.chrono.toRfc3339 result.finishedAt) nextRun
    if oneShot then jobs.setEnabled id false else jobs

/-- A row after a run the tick started. -/
def CronJob.settled (env : SchedulerEnv) (oneShot : Bool) (result : TaskResult)
    (nextRun : Option Text) (job : CronJob) : CronJob :=
  { job with
    lastRun := some (env.chrono.toRfc3339 result.finishedAt)
    nextRun := nextRun
    enabled := if oneShot then false else job.enabled }

/-! ## Both -/

/-- The two copies of the schedule. -/
structure Schedules where
  tasks : Tasks
  jobs : Jobs

namespace Schedules

variable (env : SchedulerEnv)

def addTask (task : ScheduledTask) (s : Schedules) : Schedules where
  tasks := s.tasks.insert task
  jobs := s.jobs.create (rowOf env task)

def removeTask (id : String) (s : Schedules) : Schedules where
  tasks := s.tasks.remove id
  jobs := s.jobs.delete id

def setTaskEnabled (id : String) (enabled : Bool) (s : Schedules) : Schedules where
  tasks := s.tasks.modify id fun task => { task with enabled := enabled }
  jobs := s.jobs.setEnabled id enabled

/-- An expression that does not parse changes nothing; storage learns of the next run only. -/
def updateSchedule (id : String) (schedule : Text) (now : Time) (s : Schedules) : Schedules :=
  match CronExpr.parse schedule, s.tasks.get id with
  | .ok _, some task =>
    let c := CronTask.ofSchedule schedule now
    { tasks := s.tasks.insert { task with taskType := .cron c }
      jobs := s.jobs.updateLastRun id [] (c.nextRun.map env.chrono.toRfc3339) }
  | _, _ => s

/-- A run that the tick started, from its answer to its row. -/
def finishDue (id : String) (oneShot : Bool) (result : TaskResult) (now : Time) (s : Schedules) :
    Schedules :=
  let tasks := settleMemory id oneShot result now s.tasks
  { tasks := tasks
    jobs := settleInStorage env id oneShot result (settledNextRun env id tasks) s.jobs }

/-- A run that `run_now` started. -/
def finishCall (id : String) (result : TaskResult) (now : Time) (s : Schedules) : Schedules where
  tasks := settleCall id result now s.tasks
  jobs := s.jobs

end Schedules

/-! ## What is read afterwards -/

@[simp] theorem id_ran : (task.ran result now).id = task.id := rfl

@[simp] theorem id_settled : (task.settled oneShot result now).id = task.id := by
  unfold ScheduledTask.settled
  split <;> rfl

@[simp] theorem taskType_settled :
    (task.settled oneShot result now).taskType = task.taskType.advance now := by
  unfold ScheduledTask.settled
  split <;> rfl

theorem get_settleCall :
    (settleCall id result now tasks).get k =
      if id = k then (tasks.get k).map (·.ran result now) else tasks.get k :=
  Table.get_modify fun _ _ => id_ran

theorem get_settleMemory :
    (settleMemory id oneShot result now tasks).get k =
      if id = k then
        if oneShot && result.success then none
        else (tasks.get k).map (·.settled oneShot result now)
      else tasks.get k := by
  unfold settleMemory
  split
  · rename_i h
    rw [Table.get_remove]
  · rename_i h
    exact Table.get_modify fun _ _ => id_settled

theorem get_updateLastRun {lastRun : Text} :
    (jobs.updateLastRun id lastRun next).get k =
      if id = k then
        (jobs.get k).map fun job => { job with lastRun := some lastRun, nextRun := next }
      else jobs.get k :=
  Table.get_modify fun _ _ => rfl

theorem get_create {job : CronJob} :
    (jobs.create job).get k =
      if job.jobId = k then some { job with lastRun := (jobs.get k).bind (·.lastRun) }
      else jobs.get k := by
  unfold Jobs.create
  rw [Table.get_insert]
  split
  · rename_i h
    rw [← h]
  · rfl

theorem get_setEnabled {enabled : Bool} :
    (jobs.setEnabled id enabled).get k =
      if id = k then (jobs.get k).map fun job => { job with enabled := enabled } else jobs.get k :=
  Table.get_modify fun _ _ => rfl

theorem get_settleInStorage :
    (settleInStorage env id oneShot result next jobs).get k =
      if id = k then
        if oneShot && result.success then none
        else (jobs.get k).map (·.settled env oneShot result next)
      else jobs.get k := by
  unfold settleInStorage
  split
  · exact Table.get_remove
  · dsimp only
    cases oneShot with
    | true =>
      rw [if_pos rfl, get_setEnabled, get_updateLastRun]
      split
      · rw [Option.map_map]
        rfl
      · rfl
    | false =>
      rw [if_neg Bool.false_ne_true, get_updateLastRun]
      rfl

end Nanna.Scheduler
