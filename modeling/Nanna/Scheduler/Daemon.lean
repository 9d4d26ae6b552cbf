import Nanna.Scheduler.Operations

/-!
# The scheduler loop

The steps that interleave while the daemon runs: a tick reads the clock and clones the tasks, then
looks at the clones one by one and starts those that are due and unclaimed; a run that the tick
started answers, settles memory, settles storage and drops its claim; `run_now` starts a run with no
claim and settles memory only; a restart forgets everything but the rows.

A claim lives exactly as long as the run that holds it, so the claimed ids are the keys of the table
of due runs. The log is no part of the program: it records which runs began and which succeeded,
newest first.
-/

namespace Nanna.Scheduler

open Nanna.Lib

/-- How far a run that the tick started has come. -/
inductive DuePhase where
  | running
  | finished (result : TaskResult)
  | settled (result : TaskResult) (nextRun : Option Text)
  | stored
  deriving DecidableEq

/-- A run that the tick started, with the clone it runs. -/
structure DueRun where
  task : ScheduledTask
  phase : DuePhase
  deriving DecidableEq

def DueRun.id (run : DueRun) : String := run.task.id

/-- A `run_now` in progress, with the clone it runs. -/
structure Call where
  number : Nat
  task : ScheduledTask
  result : Option TaskResult
  deriving DecidableEq

inductive Origin where
  | tick
  | call
  deriving DecidableEq

inductive Event where
  | started (task : ScheduledTask) (origin : Origin)
  | succeeded (task : ScheduledTask)
  deriving DecidableEq

structure Daemon where
  tasks : Tasks
  jobs : Jobs
  clock : Clock
  /-- The instant the last tick read. -/
  tickNow : Time
  /-- The clones that the tick has not looked at yet. -/
  pending : Tasks
  claims : Table DueRun.id
  calls : Table Call.number
  log : List Event

inductive Act where
  | clock (c : Clock)
  | tick
  | visit (id : String)
  | finish (id : String) (result : TaskResult)
  | settle (id : String)
  | store (id : String)
  | release (id : String)
  | call (number : Nat) (id : String)
  | finishCall (number : Nat) (result : TaskResult)
  | settleCall (number : Nat)
  | restart
  deriving DecidableEq

namespace Daemon

variable (env : SchedulerEnv)

/-- A daemon in which no run has begun. -/
def boot (tasks : Tasks) (jobs : Jobs) (clock : Clock) : Daemon :=
  ⟨tasks, jobs, clock, clock.wall, .empty, .empty, .empty, []⟩

/-- The success of a run, recorded. -/
def logAnswer (task : ScheduledTask) (result : TaskResult) (log : List Event) : List Event :=
  if result.success then .succeeded task :: log else log

/-- The tick starts a run of a clone when it is due and its id is unclaimed. -/
def starts (s : Daemon) (task : ScheduledTask) : Bool :=
  isTaskDue task s.tickNow s.clock.mono && (s.claims.get task.id).isNone

def start (s : Daemon) (task : ScheduledTask) : Daemon :=
  { s with claims := s.claims.insert ⟨task, .running⟩, log := .started task .tick :: s.log }

def visit (s : Daemon) (task : ScheduledTask) : Daemon :=
  let s := { s with pending := s.pending.remove task.id }
  if s.starts task then s.start task else s

def finish (s : Daemon) (task : ScheduledTask) (result : TaskResult) : Daemon :=
  { s with
    claims := s.claims.insert ⟨task, .finished result⟩
    log := logAnswer task result s.log }

def settle (s : Daemon) (task : ScheduledTask) (result : TaskResult) : Daemon :=
  let tasks := settleMemory task.id task.taskType.isOneShot result s.clock.wall s.tasks
  { s with
    tasks := tasks
    claims := s.claims.insert ⟨task, .settled result (settledNextRun env task.id tasks)⟩ }

def store (s : Daemon) (task : ScheduledTask) (result : TaskResult) (nextRun : Option Text) :
    Daemon :=
  { s with
    jobs := settleInStorage env task.id task.taskType.isOneShot result nextRun s.jobs
    claims := s.claims.insert ⟨task, .stored⟩ }

def release (s : Daemon) (id : String) : Daemon := { s with claims := s.claims.remove id }

def call (s : Daemon) (number : Nat) (task : ScheduledTask) : Daemon :=
  { s with
    calls := s.calls.insert ⟨number, task, none⟩
    log := .started task .call :: s.log }

def finishCall (s : Daemon) (c : Call) (result : TaskResult) : Daemon :=
  { s with
    calls := s.calls.insert { c with result := some result }
    log := logAnswer c.task result s.log }

def settleCall (s : Daemon) (c : Call) (result : TaskResult) : Daemon :=
  { s with
    tasks := Scheduler.settleCall c.task.id result s.clock.wall s.tasks
    calls := s.calls.remove c.number }

def restart (s : Daemon) : Daemon :=
  { boot (loadJobs env s.clock s.jobs) s.jobs s.clock with log := s.log }

def step (s : Daemon) : Act → Option Daemon
  | .clock c => if s.clock.mono ≤ c.mono then some { s with clock := c } else none
  | .tick =>
    if s.pending.rows = [] then some { s with pending := s.tasks, tickNow := s.clock.wall }
    else none
  | .visit id => (s.pending.get id).map s.visit
  | .finish id result =>
    match s.claims.get id with
    | some ⟨task, .running⟩ => some (s.finish task result)
    | _ => none
  | .settle id =>
    match s.claims.get id with
    | some ⟨task, .finished result⟩ => some (s.settle env task result)
    | _ => none
  | .store id =>
    match s.claims.get id with
    | some ⟨task, .settled result nextRun⟩ => some (s.store env task result nextRun)
    | _ => none
  | .release id =>
    match s.claims.get id with
    | some ⟨_, .stored⟩ => some (s.release id)
    | _ => none
  | .call number id =>
    if (s.calls.get number).isNone then (s.tasks.get id).map (s.call number) else none
  | .finishCall number result =>
    match s.calls.get number with
    | some ⟨number, task, none⟩ => some (s.finishCall ⟨number, task, none⟩ result)
    | _ => none
  | .settleCall number =>
    match s.calls.get number with
    | some ⟨number, task, some result⟩ => some (s.settleCall ⟨number, task, some result⟩ result)
    | _ => none
  | .restart => some (s.restart env)

end Daemon

end Nanna.Scheduler
