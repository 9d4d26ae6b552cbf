import Nanna.Lib.Json
import Nanna.Lib.Table
import Nanna.Scheduler.Cron

/-!
# Scheduled tasks and the rows they are kept in

A task is held twice: as a `ScheduledTask` in memory and as a `CronJob` row, where its schedule is
flattened to one string. `jobToTask` reads a row back and `rowOf` is what `persist_task` writes. A
cron task carries the parse of its own schedule string, so a next run without a parsed expression
cannot be built.

Formatting and parsing of instants is the calendar library's and enters as `Chrono`.
-/

namespace Nanna.Scheduler

open Nanna.Lib

/-- The RFC 3339 functions of the calendar library. -/
structure Chrono where
  toRfc3339 : Time → Text
  parseFromRfc3339 : Text → Option Time
  /-- `str::parse` at `DateTime<Utc>`. -/
  fromStr : Text → Option Time

/-- `std::time::Duration`. -/
structure Duration where
  secs : Fin (2 ^ 64)
  nanos : Fin 1000000000
  deriving DecidableEq

namespace Duration
def fromSecs (secs : Fin (2 ^ 64)) : Duration := ⟨secs, 0⟩

def totalNanos (d : Duration) : Nat := d.secs * nanosPerSecond + d.nanos

/-- The largest `chrono::Duration`, in nanoseconds: `i64::MAX` milliseconds. -/
def chronoMax : Nat := 9223372036854775807 * 1000000

/-- `chrono::Duration::from_std(d).unwrap_or_default()`. -/
def toChrono (d : Duration) : Int := if d.totalNanos ≤ chronoMax then d.totalNanos else 0
end Duration

/-- A monotonic clock reading, in nanoseconds. -/
abbrev Instant := Nat

/-- A cron schedule with its parse and its next run. -/
structure CronTask where
  schedule : Text
  parsed : Option CronExpr
  nextRun : Option Time
  parsed_eq : parsed = (CronExpr.parse schedule).toOption
  nextRun_none : parsed = none → nextRun = none
  deriving DecidableEq

namespace CronTask
/-- The schedule, with the first run after `now`. -/
def ofSchedule (schedule : Text) (now : Time) : CronTask where
  schedule := schedule
  parsed := (CronExpr.parse schedule).toOption
  nextRun := (CronExpr.parse schedule).toOption.bind (·.next now)
  parsed_eq := rfl
  nextRun_none h := by rw [h]; rfl

/-- `*next_run = p.next_from_now()`, where there is a parsed expression. -/
def advance (c : CronTask) (now : Time) : CronTask where
  schedule := c.schedule
  parsed := c.parsed
  nextRun := c.parsed.bind (·.next now)
  parsed_eq := c.parsed_eq
  nextRun_none h := by rw [h]; rfl

theorem lt_of_nextRun_ofSchedule {schedule : Text} {now t : Time}
    (h : (ofSchedule schedule now).nextRun = some t) : now < t := by
  obtain ⟨expr, -, hnext⟩ := Option.bind_eq_some_iff.mp h
  exact CronExpr.lt_next hnext

theorem lt_of_nextRun_advance {c : CronTask} {now t : Time}
    (h : (c.advance now).nextRun = some t) : now < t := by
  obtain ⟨expr, -, hnext⟩ := Option.bind_eq_some_iff.mp h
  exact CronExpr.lt_next hnext
end CronTask

inductive TaskType where
  | heartbeat
  | cron (c : CronTask)
  | delayed (delay : Duration) (created : Instant)
  | at_ (fireAt : Time)
  | recurring (interval : Duration)
  deriving DecidableEq

def durationLabel (head : String) (d : Duration) : Text :=
  head.toList ++ Nat.toDigits 10 d.secs ++ ['s']

namespace TaskType
def scheduleLabel (chrono : Chrono) : TaskType → Text
  | heartbeat => "heartbeat".toList
  | cron c => c.schedule
  | recurring interval => durationLabel "every_" interval
  | delayed delay _ => durationLabel "delay_" delay
  | at_ fireAt => "at_".toList ++ chrono.toRfc3339 fireAt

def nextRun : TaskType → Option Time
  | cron c => c.nextRun
  | at_ fireAt => some fireAt
  | heartbeat | recurring _ | delayed _ _ => none

def isOneShot : TaskType → Bool
  | delayed _ _ | at_ _ => true
  | heartbeat | cron _ | recurring _ => false

/-- The update a finished run makes to a task's type. -/
def advance (now : Time) : TaskType → TaskType
  | cron c => cron (c.advance now)
  | type => type

@[simp] theorem isOneShot_advance (now : Time) (type : TaskType) :
    (type.advance now).isOneShot = type.isOneShot := by
  cases type <;> rfl
end TaskType

structure ScheduledTask where
  id : String
  name : String
  taskType : TaskType
  payload : String
  enabled : Bool
  lastRun : Option Time
  runCount : Nat
  timezone : String
  targetChannel : Option String
  targetSession : Option String
  deriving DecidableEq

/-- Whether a task is due at `now`; a delay is measured on the monotonic clock. -/
def isTaskDue (task : ScheduledTask) (now : Time) (mono : Instant) : Bool :=
  task.enabled &&
    match task.taskType with
    | .cron c => c.nextRun.any (· ≤ now)
    | .recurring interval => task.lastRun.all fun last => now - last ≥ interval.toChrono
    | .delayed delay created => task.runCount == 0 && mono - created ≥ delay.totalNanos
    | .at_ fireAt => task.runCount == 0 && fireAt ≤ now
    | .heartbeat => false

/-! ## Rows -/

/-- A row of `cron_jobs`. -/
structure CronJob where
  jobId : String
  schedule : Text
  task : Json
  enabled : Bool
  lastRun : Option Text
  nextRun : Option Text
  deriving DecidableEq

abbrev Tasks := Table ScheduledTask.id

abbrev Jobs := Table CronJob.jobId

namespace Jobs
/-- `CronJobRepository::create`: a conflicting row keeps its last run. -/
def create (jobs : Jobs) (job : CronJob) : Jobs :=
  jobs.insert { job with lastRun := (jobs.get job.jobId).bind (·.lastRun) }

def updateLastRun (jobs : Jobs) (jobId : String) (lastRun : Text) (nextRun : Option Text) : Jobs :=
  jobs.modify jobId fun job => { job with lastRun := some lastRun, nextRun := nextRun }

def setEnabled (jobs : Jobs) (jobId : String) (enabled : Bool) : Jobs :=
  jobs.modify jobId fun job => { job with enabled := enabled }

def delete (jobs : Jobs) (jobId : String) : Jobs := jobs.remove jobId
end Jobs

def parseAt (chrono : Chrono) (schedule : Text) : Option Time :=
  if schedule.take 3 = "at_".toList then chrono.parseFromRfc3339 (schedule.drop 3) else none

/-- The seconds of a label with a six-letter head, such as `every_300s` or `delay_60s`. -/
def parseSeconds (head : String) (schedule : Text) : Option (Fin (2 ^ 64)) :=
  if schedule.take 6 = head.toList ∧ schedule.getLast? = some 's' then
    (parseUnsigned (2 ^ 64) (schedule.drop 6).dropLast).map (Fin.ofNat (2 ^ 64))
  else none

def parseInterval (schedule : Text) : Option (Fin (2 ^ 64)) := parseSeconds "every_" schedule

def parseDelay (schedule : Text) : Option (Fin (2 ^ 64)) := parseSeconds "delay_" schedule

/-- The clocks, as a step of the scheduler reads them. -/
structure Clock where
  wall : Time
  mono : Instant
  deriving DecidableEq

/-- The type a schedule string is loaded as. -/
def parseSchedule (chrono : Chrono) (clock : Clock) (schedule : Text) : TaskType :=
  if schedule = "heartbeat".toList then .heartbeat
  else match parseInterval schedule with
    | some secs => .recurring (.fromSecs secs)
    | none => match parseAt chrono schedule with
      | some fireAt => .at_ fireAt
      | none => match parseDelay schedule with
        | some secs => .delayed (.fromSecs secs) clock.mono
        | none => .cron (.ofSchedule schedule clock.wall)

theorem cron_of_parseSchedule {chrono : Chrono} {clock : Clock} {schedule : Text} {c : CronTask}
    (h : parseSchedule chrono clock schedule = .cron c) : c = .ofSchedule schedule clock.wall := by
  unfold parseSchedule at h
  split at h
  · cases h
  · split at h
    · cases h
    · split at h
      · cases h
      · split at h
        · cases h
        · exact (TaskType.cron.inj h).symm

/-- What the scheduler is built with. -/
structure SchedulerEnv where
  chrono : Chrono
  defaultTimezone : String

variable (env : SchedulerEnv)

def jobToTask (clock : Clock) (job : CronJob) : ScheduledTask where
  id := job.jobId
  name := ((job.task.get "name").bind Json.asStr).getD job.jobId
  taskType := parseSchedule env.chrono clock job.schedule
  payload := (((job.task.get "payload").bind Json.asStr).or
    ((job.task.get "text").bind Json.asStr)).getD ""
  enabled := job.enabled
  lastRun := job.lastRun.bind env.chrono.fromStr
  runCount := 0
  timezone := ((job.task.get "timezone").bind Json.asStr).getD env.defaultTimezone
  targetChannel := (job.task.get "channel").bind Json.asStr
  targetSession := (job.task.get "session").bind Json.asStr

/-- The scheduler's load of every row into an empty map. -/
def loadJobs (clock : Clock) (jobs : Jobs) : Tasks :=
  .ofList (jobs.rows.map (jobToTask env clock))

def optionToJson : Option String → Json
  | some s => .str s
  | none => .null

/-- The row `persist_task` writes. -/
def rowOf (task : ScheduledTask) : CronJob where
  jobId := task.id
  schedule := task.taskType.scheduleLabel env.chrono
  task := .obj
    [("name", .str task.name), ("payload", .str task.payload), ("timezone", .str task.timezone),
      ("channel", optionToJson task.targetChannel), ("session", optionToJson task.targetSession)]
  enabled := task.enabled
  lastRun := none
  nextRun := task.taskType.nextRun.map env.chrono.toRfc3339

variable {env}

@[simp] theorem get_loadJobs {clock : Clock} {jobs : Jobs} {id : String} :
    (loadJobs env clock jobs).get id = (jobs.get id).map (jobToTask env clock) :=
  Table.get_ofList_map fun _ => rfl

/-! ## Labels read back -/

/-- The years 0 to 9999, the ones that RFC 3339 writes with four digits. -/
def FourDigitYear (t : Time) : Prop :=
  -62167219200 * nanosPerSecond ≤ t ∧ t < 253402300800 * nanosPerSecond

instance (t : Time) : Decidable (FourDigitYear t) := inferInstanceAs (Decidable (_ ∧ _))

/-- What the calendar library promises: it reads what it writes, strictly only the years of four
digits, and no instant from an empty text. -/
structure Chrono.Laws (chrono : Chrono) : Prop where
  fromStr_toRfc3339 : ∀ t, chrono.fromStr (chrono.toRfc3339 t) = some t
  parse_toRfc3339 : ∀ t, FourDigitYear t → chrono.parseFromRfc3339 (chrono.toRfc3339 t) = some t
  fromStr_nil : chrono.fromStr [] = none

/-- A task's schedule, without what is computed from it and the clock. -/
inductive Schedule where
  | heartbeat
  | cron (schedule : Text)
  | delayed (delay : Duration)
  | at_ (fireAt : Time)
  | recurring (interval : Duration)
  deriving DecidableEq

def TaskType.schedule : TaskType → Schedule
  | heartbeat => .heartbeat
  | cron c => .cron c.schedule
  | delayed delay _ => .delayed delay
  | at_ fireAt => .at_ fireAt
  | recurring interval => .recurring interval

theorem TaskType.schedule_ofSchedule {schedule : Text} {now : Time} :
    (TaskType.cron (.ofSchedule schedule now)).schedule = .cron schedule := rfl

@[simp] theorem TaskType.schedule_advance (now : Time) (type : TaskType) :
    (type.advance now).schedule = type.schedule := by
  cases type <;> rfl

/-- The label says what it is the label of: whole seconds, a year of four digits, and a cron
expression that is no other label. -/
def TaskType.ReadsBack (chrono : Chrono) : TaskType → Prop
  | heartbeat => True
  | recurring d | delayed d _ => d.nanos = 0
  | at_ fireAt => FourDigitYear fireAt
  | cron c => c.schedule ≠ "heartbeat".toList ∧ parseInterval c.schedule = none ∧
      parseAt chrono c.schedule = none ∧ parseDelay c.schedule = none

instance (chrono : Chrono) : (type : TaskType) → Decidable (type.ReadsBack chrono)
  | .heartbeat => inferInstanceAs (Decidable True)
  | .recurring d => inferInstanceAs (Decidable (d.nanos = 0))
  | .delayed d _ => inferInstanceAs (Decidable (d.nanos = 0))
  | .at_ fireAt => inferInstanceAs (Decidable (FourDigitYear fireAt))
  | .cron _ => inferInstanceAs (Decidable (_ ∧ _))

variable {chrono : Chrono} {clock : Clock} {type : TaskType} {d : Duration}

theorem scheduleLabel_heartbeat :
    TaskType.heartbeat.scheduleLabel chrono = "heartbeat".toList := rfl

theorem scheduleLabel_cron {c : CronTask} :
    (TaskType.cron c).scheduleLabel chrono = c.schedule := rfl

theorem scheduleLabel_delayed {created : Instant} :
    (TaskType.delayed d created).scheduleLabel chrono = durationLabel "delay_" d := rfl

theorem scheduleLabel_at {fireAt : Time} :
    (TaskType.at_ fireAt).scheduleLabel chrono = "at_".toList ++ chrono.toRfc3339 fireAt := rfl

theorem scheduleLabel_recurring :
    (TaskType.recurring d).scheduleLabel chrono = durationLabel "every_" d := rfl

theorem take_durationLabel {head : String} (h : head.toList.length = 6) :
    (durationLabel head d).take 6 = head.toList := by
  rw [durationLabel, List.append_assoc, List.take_left' h]

theorem parseSeconds_durationLabel {head : String} (h : head.toList.length = 6) :
    parseSeconds head (durationLabel head d) = some d.secs := by
  have hdrop : ((durationLabel head d).drop 6).dropLast = Nat.toDigits 10 d.secs := by
    rw [durationLabel, List.append_assoc, List.drop_left' h, List.dropLast_concat]
  have hlast : (durationLabel head d).getLast? = some 's' := List.getLast?_concat
  rw [parseSeconds, if_pos ⟨take_durationLabel h, hlast⟩, hdrop,
    parseUnsigned_toDigits d.secs.isLt, Option.map_some, Fin.ofNat_val_eq_self]

/-- A label starts with its own head and no other. -/
theorem parseSeconds_of_take {head : String} {schedule h : Text} (htake : schedule.take 6 = h)
    (hne : h ≠ head.toList) : parseSeconds head schedule = none :=
  if_neg fun hlabel => hne (htake.symm.trans hlabel.1)

theorem fromSecs_of_nanos (h : d.nanos = 0) : Duration.fromSecs d.secs = d := by
  cases d
  cases h
  rfl

section
variable {schedule : Text} {fireAt : Time} {secs : Fin (2 ^ 64)}

theorem parseSchedule_heartbeat : parseSchedule chrono clock "heartbeat".toList = .heartbeat := by
  rw [parseSchedule, if_pos rfl]

theorem parseSchedule_recurring (hbeat : schedule ≠ "heartbeat".toList)
    (hinterval : parseInterval schedule = some secs) :
    parseSchedule chrono clock schedule = .recurring (.fromSecs secs) := by
  rw [parseSchedule, if_neg hbeat, hinterval]

theorem parseSchedule_at (hbeat : schedule ≠ "heartbeat".toList)
    (hinterval : parseInterval schedule = none) (hat : parseAt chrono schedule = some fireAt) :
    parseSchedule chrono clock schedule = .at_ fireAt := by
  rw [parseSchedule, if_neg hbeat, hinterval, hat]

theorem parseSchedule_delayed (hbeat : schedule ≠ "heartbeat".toList)
    (hinterval : parseInterval schedule = none) (hat : parseAt chrono schedule = none)
    (hdelay : parseDelay schedule = some secs) :
    parseSchedule chrono clock schedule = .delayed (.fromSecs secs) clock.mono := by
  rw [parseSchedule, if_neg hbeat, hinterval, hat, hdelay]

theorem parseSchedule_cron (hbeat : schedule ≠ "heartbeat".toList)
    (hinterval : parseInterval schedule = none) (hat : parseAt chrono schedule = none)
    (hdelay : parseDelay schedule = none) :
    parseSchedule chrono clock schedule = .cron (.ofSchedule schedule clock.wall) := by
  rw [parseSchedule, if_neg hbeat, hinterval, hat, hdelay]
end

theorem parseAt_label {fireAt : Time} (hchrono : chrono.Laws) (h : FourDigitYear fireAt) :
    parseAt chrono ("at_".toList ++ chrono.toRfc3339 fireAt) = some fireAt := by
  have htake : ("at_".toList ++ chrono.toRfc3339 fireAt).take 3 = "at_".toList := List.take_left' rfl
  have hdrop : ("at_".toList ++ chrono.toRfc3339 fireAt).drop 3 = chrono.toRfc3339 fireAt :=
    List.drop_left' rfl
  rw [parseAt, if_pos htake, hdrop, hchrono.parse_toRfc3339 fireAt h]

/-- The schedule that a label is loaded as. -/
theorem schedule_parseSchedule (hchrono : chrono.Laws) (h : type.ReadsBack chrono) :
    (parseSchedule chrono clock (type.scheduleLabel chrono)).schedule = type.schedule := by
  cases type with
  | heartbeat =>
    rw [scheduleLabel_heartbeat, parseSchedule_heartbeat]
  | cron c =>
    obtain ⟨hbeat, hinterval, hat, hdelay⟩ := h
    rw [scheduleLabel_cron, parseSchedule_cron hbeat hinterval hat hdelay, TaskType.schedule_ofSchedule]
    rfl
  | delayed d created =>
    have htake : (durationLabel "delay_" d).take 6 = "delay_".toList := take_durationLabel rfl
    have hbeat : durationLabel "delay_" d ≠ "heartbeat".toList := fun heq =>
      absurd (htake.symm.trans (congrArg (List.take 6) heq)) (by decide)
    have hinterval : parseInterval (durationLabel "delay_" d) = none :=
      parseSeconds_of_take htake (by decide)
    have hat : parseAt chrono (durationLabel "delay_" d) = none := by
      refine if_neg fun hlabel => ?_
      have hthree : (durationLabel "delay_" d).take 3 = "delay_".toList.take 3 := by
        rw [← htake, List.take_take]
        rfl
      exact absurd (hthree.symm.trans hlabel) (by decide)
    have hdelay : parseDelay (durationLabel "delay_" d) = some d.secs :=
      parseSeconds_durationLabel rfl
    rw [scheduleLabel_delayed, parseSchedule_delayed hbeat hinterval hat hdelay,
      fromSecs_of_nanos h]
    rfl
  | at_ fireAt =>
    have hhead : ("at_".toList ++ chrono.toRfc3339 fireAt).head? = some 'a' := rfl
    have hbeat : "at_".toList ++ chrono.toRfc3339 fireAt ≠ "heartbeat".toList := fun heq =>
      absurd (hhead.symm.trans (congrArg List.head? heq)) (by decide)
    have hinterval : parseInterval ("at_".toList ++ chrono.toRfc3339 fireAt) = none := by
      have hsix : (("at_".toList ++ chrono.toRfc3339 fireAt).take 6).head? = some 'a' := rfl
      refine parseSeconds_of_take rfl fun heq => ?_
      exact absurd (hsix.symm.trans (congrArg List.head? heq)) (by decide)
    rw [scheduleLabel_at, parseSchedule_at hbeat hinterval (parseAt_label hchrono h)]
  | recurring d =>
    have htake : (durationLabel "every_" d).take 6 = "every_".toList := take_durationLabel rfl
    have hbeat : durationLabel "every_" d ≠ "heartbeat".toList := fun heq =>
      absurd (htake.symm.trans (congrArg (List.take 6) heq)) (by decide)
    have hinterval : parseInterval (durationLabel "every_" d) = some d.secs :=
      parseSeconds_durationLabel rfl
    rw [scheduleLabel_recurring, parseSchedule_recurring hbeat hinterval, fromSecs_of_nanos h]

/-- The clock does not change which schedule a string is. -/
theorem schedule_parseSchedule_clock (clock clock' : Clock) (schedule : Text) :
    (parseSchedule chrono clock schedule).schedule =
      (parseSchedule chrono clock' schedule).schedule := by
  by_cases hbeat : schedule = "heartbeat".toList
  · rw [hbeat, parseSchedule_heartbeat, parseSchedule_heartbeat]
  cases hinterval : parseInterval schedule with
  | some secs =>
    rw [parseSchedule_recurring hbeat hinterval, parseSchedule_recurring hbeat hinterval]
  | none =>
    cases hat : parseAt chrono schedule with
    | some fireAt =>
      rw [parseSchedule_at hbeat hinterval hat, parseSchedule_at hbeat hinterval hat]
    | none =>
      cases hdelay : parseDelay schedule with
      | some secs =>
        rw [parseSchedule_delayed hbeat hinterval hat hdelay,
          parseSchedule_delayed hbeat hinterval hat hdelay]
        rfl
      | none =>
        rw [parseSchedule_cron hbeat hinterval hat hdelay,
          parseSchedule_cron hbeat hinterval hat hdelay, TaskType.schedule_ofSchedule,
          TaskType.schedule_ofSchedule]

/-! ## A calendar for runs on fixed inputs -/

/-- Some instants of the first two days, as RFC 3339 writes them. -/
def firstDays : List (Time × Text) :=
  [(0, "1970-01-01T00:00:00+00:00".toList),
    (28800000000000, "1970-01-01T08:00:00+00:00".toList),
    (32400000000000, "1970-01-01T09:00:00+00:00".toList),
    (115200000000000, "1970-01-02T08:00:00+00:00".toList)]

def readInstant : Text → Option Time
  | '+' :: digits => some (Nat.ofDigitChars 10 digits 0)
  | '-' :: digits => some (-(Nat.ofDigitChars 10 digits 0 : Nat))
  | t => (firstDays.find? (·.2 = t)).map (·.1)

def writeInstant (t : Time) : Text :=
  match firstDays.find? (·.1 = t) with
  | some (_, text) => text
  | none => (if 0 < t then '+' else '-') :: Nat.toDigits 10 t.natAbs

/-- Exact at those instants; every other one is written as a signed number. -/
def epochChrono : Chrono := ⟨writeInstant, readInstant, readInstant⟩

def epochEnv : SchedulerEnv := ⟨epochChrono, "UTC"⟩

theorem readInstant_writeInstant (t : Time) : readInstant (writeInstant t) = some t := by
  unfold writeInstant
  split
  · rename_i u text hfind
    have hread : ∀ p ∈ firstDays, readInstant p.2 = some p.1 := by decide
    have hu : u = t := by simpa using List.find?_some hfind
    exact hu ▸ hread _ (List.mem_of_find?_eq_some hfind)
  · by_cases hpos : 0 < t
    · rw [if_pos hpos, readInstant, Nat.ofDigitChars_ten_toDigits, Int.natAbs_of_nonneg hpos.le]
    · rw [if_neg hpos, readInstant, Nat.ofDigitChars_ten_toDigits,
        Int.ofNat_natAbs_of_nonpos (Int.not_lt.mp hpos), Int.neg_neg]

theorem epochChrono_laws : epochChrono.Laws where
  fromStr_toRfc3339 := readInstant_writeInstant
  parse_toRfc3339 t _ := readInstant_writeInstant t
  fromStr_nil := by decide

end Nanna.Scheduler
