import Nanna.Lib.Moves
import Nanna.Scheduler.Daemon

/-!
# At most one delivery

`delivered_once`: in a run in which no tick starts a task that a run settled since the snapshot was
taken, no `run_now` begins beside a one-shot's success that memory still has to learn of or is itself
the success of a one-shot, no restart comes between a one-shot's success and the deletion of its row,
and the wall clock is not set back, a one-shot that has succeeded is not run again and no occurrence
of a cron task is started twice by the tick. A tick that started from a stale snapshot delivers a
one-shot twice (`delivered_twice`).

The invariant is `Settled`. A one-shot that has succeeded is gone from a copy of the state, or a
claimed run is still to remove it there (`Gone`); an occurrence that was started is not after the
wall clock, and the next run that memory holds is later, or a claimed run is still to move it
(`Past`). A claim stops the tick in the second case of either.
-/

namespace Nanna.Scheduler

open Nanna.Lib

variable {env : SchedulerEnv} {s s' : Daemon} {task : ScheduledTask} {result : TaskResult}
  {run : DueRun} {c : Call} {clock : Clock} {id : String} {t : Time} {event : Event} {a : Act}
  {n : Nat} {next : Option Text}

/-! ## What the log must show -/

/-- The tick started this occurrence of a cron task. -/
def Event.Occurs (id : String) (t : Time) : Event → Prop
  | .started task .tick => task.id = id ∧ ∃ c, task.taskType = .cron c ∧ c.nextRun = some t
  | _ => False

/-- A one-shot succeeded. -/
def Event.Sent (id : String) : Event → Prop
  | .succeeded task => task.id = id ∧ task.taskType.isOneShot = true
  | _ => False

/-- A one-shot was started. -/
def Event.Sends (id : String) : Event → Prop
  | .started task _ => task.id = id ∧ task.taskType.isOneShot = true
  | _ => False

/-- An event may follow an earlier one. -/
def Event.Allowed (later earlier : Event) : Prop :=
  (∀ id, earlier.Sent id → ¬ later.Sends id) ∧ ∀ id t, earlier.Occurs id t → ¬ later.Occurs id t

/-- No one-shot runs after its success, and no occurrence is started twice. -/
def AtMostOnce (log : List Event) : Prop := log.Pairwise Event.Allowed

/-! ## When the code keeps to it -/

namespace DueRun
/-- A one-shot has succeeded and memory still holds it. -/
def leavesMemory (run : DueRun) : Bool :=
  run.task.taskType.isOneShot &&
    match run.phase with
    | .finished result => result.success
    | _ => false

/-- A one-shot has succeeded and its row is still to be deleted. -/
def leavesStorage (run : DueRun) : Bool :=
  run.task.taskType.isOneShot &&
    match run.phase with
    | .finished result => result.success
    | .settled result _ => result.success
    | _ => false

/-- The run has not settled memory. -/
def unsettled (run : DueRun) : Bool :=
  match run.phase with
  | .running => true
  | .finished _ => true
  | _ => false
end DueRun

def TaskType.isCron : TaskType → Bool
  | .cron _ => true
  | _ => false

/-- The action avoids the branches that go wrong. -/
def Sound (s : Daemon) : Act → Bool
  | .clock c => s.clock.wall ≤ c.wall
  | .visit id => (s.pending.get id).all fun task =>
    s.starts task && (task.taskType.isOneShot || task.taskType.isCron) →
      (s.tasks.get id).map (·.taskType) = some task.taskType
  | .call _ id => (s.claims.get id).all fun run => !run.leavesMemory
  | .finishCall number result => (s.calls.get number).all fun c =>
    c.task.taskType.isOneShot → result.success = false
  | .restart => s.claims.rows.all fun run => !run.leavesStorage
  | _ => true

/-! ## The invariant -/

/-- The one-shot is gone, or a claimed run is about to remove it. -/
structure Gone (s : Daemon) (id : String) : Prop where
  memory : s.tasks.get id = none ∨ ∃ run, s.claims.get id = some run ∧ run.leavesMemory = true
  storage : s.jobs.get id = none ∨ ∃ run, s.claims.get id = some run ∧ run.leavesStorage = true

/-- Memory holds no next run of the task up to `t`. -/
def Later (tasks : Tasks) (id : String) (t : Time) : Prop :=
  ∀ held c u, tasks.get id = some held → held.taskType = .cron c → c.nextRun = some u → t < u

/-- The occurrence lies behind, or a claimed run is about to move the next run. -/
structure Past (s : Daemon) (id : String) (t : Time) : Prop where
  reached : t ≤ s.clock.wall
  moved : (∃ run, s.claims.get id = some run ∧ run.unsettled = true) ∨ Later s.tasks id t

structure Settled (s : Daemon) : Prop where
  tick : s.tickNow ≤ s.clock.wall
  gone : ∀ event ∈ s.log, ∀ id, event.Sent id → Gone s id
  past : ∀ event ∈ s.log, ∀ id t, event.Occurs id t → Past s id t
  once : AtMostOnce s.log

namespace Settled

theorem boot {tasks : Tasks} {jobs : Jobs} : Settled (Daemon.boot tasks jobs clock) where
  tick := le_rfl
  gone _ h := (List.not_mem_nil h).elim
  past _ h := (List.not_mem_nil h).elim
  once := .nil

/-- A step that logs nothing. -/
theorem quiet (hI : Settled s) (hlog : s'.log = s.log) (htick : s'.tickNow ≤ s'.clock.wall)
    (hgone : ∀ id, Gone s id → Gone s' id) (hpast : ∀ id t, Past s id t → Past s' id t) :
    Settled s' := by
  refine ⟨htick, fun event hmem id h => ?_, fun event hmem id t h => ?_, ?_⟩
  · exact hgone id (hI.gone event (hlog ▸ hmem) id h)
  · exact hpast id t (hI.past event (hlog ▸ hmem) id t h)
  · rw [hlog]
    exact hI.once

/-- A step that logs one event. -/
theorem logs (hI : Settled s) (hlog : s'.log = event :: s.log) (htick : s'.tickNow ≤ s'.clock.wall)
    (hgone : ∀ id, Gone s id → Gone s' id) (hpast : ∀ id t, Past s id t → Past s' id t)
    (hsent : ∀ id, event.Sent id → Gone s' id) (hoccurs : ∀ id t, event.Occurs id t → Past s' id t)
    (hsends : ∀ id, event.Sends id → ¬ Gone s id)
    (hfresh : ∀ id t, event.Occurs id t → ¬ Past s id t) : Settled s' := by
  refine ⟨htick, fun e hmem id h => ?_, fun e hmem id t h => ?_, ?_⟩
  · rw [hlog] at hmem
    rcases List.mem_cons.mp hmem with rfl | hmem
    · exact hsent id h
    · exact hgone id (hI.gone e hmem id h)
  · rw [hlog] at hmem
    rcases List.mem_cons.mp hmem with rfl | hmem
    · exact hoccurs id t h
    · exact hpast id t (hI.past e hmem id t h)
  · rw [hlog]
    refine List.pairwise_cons.mpr ⟨fun e hmem => ⟨fun id hearlier hlater => ?_, ?_⟩, hI.once⟩
    · exact hsends id hlater (hI.gone e hmem id hearlier)
    · exact fun id t hearlier hlater => hfresh id t hlater (hI.past e hmem id t hearlier)

end Settled

/-! ## What a step keeps -/

theorem Gone.mono (h : Gone s id) (htasks : s.tasks.get id = none → s'.tasks.get id = none)
    (hjobs : s.jobs.get id = none → s'.jobs.get id = none)
    (hmemory : ∀ run, s.claims.get id = some run → run.leavesMemory = true →
      s'.tasks.get id = none ∨ ∃ run, s'.claims.get id = some run ∧ run.leavesMemory = true)
    (hstorage : ∀ run, s.claims.get id = some run → run.leavesStorage = true →
      s'.jobs.get id = none ∨ ∃ run, s'.claims.get id = some run ∧ run.leavesStorage = true) :
    Gone s' id := by
  refine ⟨?_, ?_⟩
  · rcases h.memory with h | ⟨run, hrun, hleaves⟩
    · exact .inl (htasks h)
    · exact hmemory run hrun hleaves
  · rcases h.storage with h | ⟨run, hrun, hleaves⟩
    · exact .inl (hjobs h)
    · exact hstorage run hrun hleaves

/-- A claimed run moves on, or a new one is claimed. -/
theorem Gone.rerun (h : Gone s id) (hclaims : s'.claims = s.claims.insert run)
    (htasks : s.tasks.get id = none → s'.tasks.get id = none)
    (hjobs : s.jobs.get id = none → s'.jobs.get id = none)
    (hmemory : ∀ old, s.claims.get run.id = some old → old.leavesMemory = true →
      s'.tasks.get run.id = none ∨ run.leavesMemory = true)
    (hstorage : ∀ old, s.claims.get run.id = some old → old.leavesStorage = true →
      s'.jobs.get run.id = none ∨ run.leavesStorage = true) : Gone s' id := by
  refine h.mono htasks hjobs (fun old hold hleaves => ?_) fun old hold hleaves => ?_
  all_goals rw [hclaims, Table.get_insert]
  all_goals split
  · rename_i hid
    subst hid
    exact (hmemory old hold hleaves).imp_right fun h => ⟨run, rfl, h⟩
  · exact .inr ⟨old, hold, hleaves⟩
  · rename_i hid
    subst hid
    exact (hstorage old hold hleaves).imp_right fun h => ⟨run, rfl, h⟩
  · exact .inr ⟨old, hold, hleaves⟩

theorem Past.mono (h : Past s id t) (hwall : s.clock.wall ≤ s'.clock.wall)
    (hclaims : ∀ run, s.claims.get id = some run → run.unsettled = true →
      (∃ run, s'.claims.get id = some run ∧ run.unsettled = true) ∨ Later s'.tasks id t)
    (htasks : Later s.tasks id t → Later s'.tasks id t) : Past s' id t := by
  refine ⟨h.reached.trans hwall, ?_⟩
  rcases h.moved with ⟨run, hrun, hunsettled⟩ | hlater
  · exact hclaims run hrun hunsettled
  · exact .inr (htasks hlater)

theorem Past.rerun (h : Past s id t) (hwall : s'.clock = s.clock)
    (hclaims : s'.claims = s.claims.insert run)
    (hunsettled : ∀ old, s.claims.get run.id = some old → old.unsettled = true →
      run.unsettled = true ∨ Later s'.tasks run.id t)
    (htasks : Later s.tasks id t → Later s'.tasks id t) : Past s' id t := by
  refine h.mono (hwall ▸ le_rfl) (fun old hold hun => ?_) htasks
  rw [hclaims, Table.get_insert]
  split
  · rename_i hid
    subst hid
    exact (hunsettled old hold hun).imp_left fun h => ⟨run, rfl, h⟩
  · exact .inl ⟨old, hold, hun⟩

/-- After a run the next occurrence is later than the clock. -/
theorem Later.advance {tasks : Tasks} {now : Time} {f : ScheduledTask → ScheduledTask}
    {old : Option ScheduledTask} (ht : t ≤ now)
    (htype : ∀ task, (f task).taskType = task.taskType.advance now)
    (hget : tasks.get id = old.map f) : Later tasks id t := by
  intro held c u hheld hcron hnext
  rw [hget] at hheld
  obtain ⟨task, -, rfl⟩ := Option.map_eq_some_iff.mp hheld
  rw [htype] at hcron
  cases htask : task.taskType with
  | cron c' =>
    rw [htask] at hcron
    obtain rfl : c'.advance now = c := TaskType.cron.inj hcron
    exact ht.trans_lt (CronTask.lt_of_nextRun_advance hnext)
  | _ =>
    rw [htask] at hcron
    cases hcron

theorem Later.settleMemory {tasks : Tasks} {now : Time} {k : String} {oneShot : Bool} (ht : t ≤ now)
    (h : k = id ∨ Later tasks id t) : Later (settleMemory k oneShot result now tasks) id t := by
  have hget : (Scheduler.settleMemory k oneShot result now tasks).get id = _ := get_settleMemory
  split at hget
  · split at hget
    · intro held _ _ hheld
      rw [hget] at hheld
      cases hheld
    · exact Later.advance ht (fun _ => taskType_settled) hget
  · rename_i hk
    intro held
    rw [hget]
    exact h.resolve_left hk held

theorem Later.settleCall {tasks : Tasks} {now : Time} {k : String} (ht : t ≤ now)
    (h : Later tasks id t) : Later (settleCall k result now tasks) id t := by
  have hget : (Scheduler.settleCall k result now tasks).get id = _ := get_settleCall
  split at hget
  · exact Later.advance ht (fun _ => rfl) hget
  · intro held
    rw [hget]
    exact h held

theorem Later.loadJobs {jobs : Jobs} (ht : t ≤ clock.wall) :
    Later (loadJobs env clock jobs) id t := by
  intro held c u hheld hcron hnext
  rw [get_loadJobs] at hheld
  obtain ⟨job, -, rfl⟩ := Option.map_eq_some_iff.mp hheld
  have htype : parseSchedule env.chrono clock job.schedule = .cron c := hcron
  rw [cron_of_parseSchedule htype] at hnext
  exact ht.trans_lt (CronTask.lt_of_nextRun_ofSchedule hnext)

theorem get_settleMemory_none {tasks : Tasks} {now : Time} {k : String} {oneShot : Bool}
    (h : tasks.get id = none) : (settleMemory k oneShot result now tasks).get id = none := by
  rw [get_settleMemory]
  split
  · split
    · rfl
    · rw [h, Option.map_none]
  · exact h

theorem get_settleInStorage_none {jobs : Jobs} {k : String} {oneShot : Bool}
    (h : jobs.get id = none) : (settleInStorage env k oneShot result next jobs).get id = none := by
  rw [get_settleInStorage]
  split
  · split
    · rfl
    · rw [h, Option.map_none]
  · exact h

/-- A cron task is due from its next run on. -/
theorem le_of_isTaskDue {now : Time} {mono : Instant} {c : CronTask}
    (hdue : isTaskDue task now mono = true) (hcron : task.taskType = .cron c)
    (hnext : c.nextRun = some t) : t ≤ now := by
  rw [isTaskDue, hcron] at hdue
  have hreached : c.nextRun.any (· ≤ now) = true := (Bool.and_eq_true_iff.mp hdue).2
  rw [hnext] at hreached
  exact of_decide_eq_true hreached

/-! ## The steps -/

namespace Settled

theorem start (hI : Settled s) (hclaim : s.claims.get task.id = none)
    (hdue : isTaskDue task s.tickNow s.clock.mono = true)
    (hsound : task.taskType.isOneShot = true ∨ task.taskType.isCron = true →
      (s.tasks.get task.id).map (·.taskType) = some task.taskType) : Settled (s.start task) := by
  have hfree : ∀ run, s.claims.get (⟨task, .running⟩ : DueRun).id = some run → False :=
    fun run hrun => nomatch hclaim.symm.trans hrun
  refine hI.logs rfl hI.tick (fun _ h => ?_) (fun _ _ h => ?_) (fun _ => nofun) ?_ ?_ ?_
  · exact h.rerun rfl id id (fun old hold => (hfree old hold).elim) fun old hold =>
      (hfree old hold).elim
  · exact h.rerun rfl rfl (fun old hold => (hfree old hold).elim) id
  · rintro _ t ⟨rfl, c, hcron, hnext⟩
    refine ⟨(le_of_isTaskDue hdue hcron hnext).trans hI.tick, .inl ⟨⟨task, .running⟩, ?_, rfl⟩⟩
    exact Table.get_insert.trans (if_pos rfl)
  · rintro _ ⟨rfl, hshot⟩ hgone
    rcases hgone.memory with h | ⟨run, hrun, -⟩
    · have hheld := hsound (.inl hshot)
      rw [h] at hheld
      cases hheld
    · exact hfree run hrun
  · rintro _ t ⟨rfl, c, hcron, hnext⟩ hpast
    rcases hpast.moved with ⟨run, hrun, -⟩ | hlater
    · exact hfree run hrun
    · have hheld := hsound (.inr (by rw [hcron]; rfl))
      obtain ⟨held, hget, htype⟩ := Option.map_eq_some_iff.mp hheld
      exact lt_irrefl t (hlater held c t hget (htype.trans hcron) hnext)

theorem visit (hI : Settled s) (hsound : s.starts task = true →
    task.taskType.isOneShot = true ∨ task.taskType.isCron = true →
      (s.tasks.get task.id).map (·.taskType) = some task.taskType) : Settled (s.visit task) := by
  have hpending : Settled { s with pending := s.pending.remove task.id } :=
    hI.quiet rfl hI.tick (fun _ h => ⟨h.memory, h.storage⟩) fun _ _ h => ⟨h.reached, h.moved⟩
  unfold Daemon.visit
  dsimp only
  split
  · rename_i hstarts
    obtain ⟨hdue, hclaim⟩ := Bool.and_eq_true_iff.mp hstarts
    exact hpending.start (Option.isNone_iff_eq_none.mp hclaim) hdue (hsound hstarts)
  · exact hpending

theorem finish (hI : Settled s) (hrun : s.claims.get task.id = some ⟨task, .running⟩) :
    Settled (s.finish task result) := by
  have hgone : ∀ id, Gone s id → Gone (s.finish task result) id := by
    refine fun _ h => h.rerun rfl id id (fun old hold hleaves => ?_) fun old hold hleaves => ?_
    all_goals
      obtain rfl : ⟨task, .running⟩ = old := Option.some.inj (hrun.symm.trans hold)
      simp [DueRun.leavesMemory, DueRun.leavesStorage] at hleaves
  have hpast : ∀ id t, Past s id t → Past (s.finish task result) id t := fun _ _ h =>
    h.rerun rfl rfl (fun _ _ _ => .inl rfl) id
  cases hok : result.success with
  | false =>
    have hlog : (s.finish task result).log = s.log := by
      rw [Daemon.finish, Daemon.logAnswer, hok]
      rfl
    exact hI.quiet hlog hI.tick hgone hpast
  | true =>
    have hlog : (s.finish task result).log = .succeeded task :: s.log := by
      rw [Daemon.finish, Daemon.logAnswer, hok]
      rfl
    have hnew : (s.finish task result).claims.get task.id = some ⟨task, .finished result⟩ :=
      Table.get_insert.trans (if_pos rfl)
    refine hI.logs hlog hI.tick hgone hpast ?_ (fun _ _ => nofun) (fun _ => nofun) fun _ _ => nofun
    rintro _ ⟨rfl, hshot⟩
    refine ⟨.inr ⟨_, hnew, ?_⟩, .inr ⟨_, hnew, ?_⟩⟩
    · simp [DueRun.leavesMemory, hshot, hok]
    · simp [DueRun.leavesStorage, hshot, hok]

theorem settle (hI : Settled s) (hrun : s.claims.get task.id = some ⟨task, .finished result⟩) :
    Settled (s.settle env task result) := by
  refine hI.quiet rfl hI.tick (fun _ h => ?_) fun _ _ h => ?_
  · refine h.rerun rfl get_settleMemory_none id (fun old hold hleaves => .inl ?_)
      fun old hold hleaves => .inr ?_
    all_goals obtain rfl : ⟨task, .finished result⟩ = old := Option.some.inj (hrun.symm.trans hold)
    · have hremoved : (task.taskType.isOneShot && result.success) = true := hleaves
      exact get_settleMemory.trans ((if_pos rfl).trans (if_pos hremoved))
    · exact hleaves
  · exact h.rerun rfl rfl (fun old hold hun => .inr (.settleMemory h.reached (.inl rfl)))
      fun hlater => .settleMemory h.reached (.inr hlater)

theorem store (hI : Settled s) (hrun : s.claims.get task.id = some ⟨task, .settled result next⟩) :
    Settled (s.store env task result next) := by
  have hold : ∀ old, s.claims.get task.id = some old → ⟨task, .settled result next⟩ = old :=
    fun old hold => Option.some.inj (hrun.symm.trans hold)
  refine hI.quiet rfl hI.tick (fun _ h => ?_) fun _ _ h => ?_
  · refine h.rerun rfl id get_settleInStorage_none (fun old hget hleaves => ?_)
      fun old hget hleaves => .inl ?_
    all_goals obtain rfl := hold old hget
    · simp [DueRun.leavesMemory] at hleaves
    · have hdeleted : (task.taskType.isOneShot && result.success) = true := hleaves
      exact get_settleInStorage.trans ((if_pos rfl).trans (if_pos hdeleted))
  · refine h.rerun rfl rfl (fun old hget hun => ?_) id
    obtain rfl := hold old hget
    cases hun

theorem release (hI : Settled s) (hrun : s.claims.get id = some ⟨task, .stored⟩) :
    Settled (s.release id) := by
  have hkeep : ∀ k old, s.claims.get k = some old → old = ⟨task, .stored⟩ ∨
      (s.release id).claims.get k = some old := by
    intro k old hold
    rw [Daemon.release, Table.get_remove]
    split
    · rename_i hk
      subst hk
      exact .inl (Option.some.inj (hold.symm.trans hrun))
    · exact .inr hold
  refine hI.quiet rfl hI.tick (fun k h => ?_) fun k t h => ?_
  · refine h.mono (fun h => h) (fun h => h) (fun old hold hleaves => ?_) fun old hold hleaves => ?_
    · rcases hkeep k old hold with rfl | hkept
      · simp [DueRun.leavesMemory] at hleaves
      · exact .inr ⟨old, hkept, hleaves⟩
    · rcases hkeep k old hold with rfl | hkept
      · simp [DueRun.leavesStorage] at hleaves
      · exact .inr ⟨old, hkept, hleaves⟩
  · refine h.mono le_rfl (fun old hold hun => ?_) fun h => h
    rcases hkeep k old hold with rfl | hkept
    · cases hun
    · exact .inl ⟨old, hkept, hun⟩

theorem call (hI : Settled s) (hget : s.tasks.get id = some task)
    (hsound : ∀ run, s.claims.get id = some run → run.leavesMemory = false) :
    Settled (s.call n task) := by
  refine hI.logs rfl hI.tick (fun _ h => ⟨h.memory, h.storage⟩) (fun _ _ h => ⟨h.reached, h.moved⟩)
    (fun _ => nofun) (fun _ _ => nofun) ?_ fun _ _ => nofun
  rintro _ ⟨rfl, -⟩ hgone
  have hid : task.id = id := Table.key_of_get hget
  rcases hgone.memory with h | ⟨run, hrun, hleaves⟩
  · rw [hid, hget] at h
    cases h
  · rw [hid] at hrun
    rw [hsound run hrun] at hleaves
    cases hleaves

theorem finishCall (hI : Settled s)
    (hsound : c.task.taskType.isOneShot = true → result.success = false) :
    Settled (s.finishCall c result) := by
  cases hok : result.success with
  | false =>
    have hlog : (s.finishCall c result).log = s.log := by
      rw [Daemon.finishCall, Daemon.logAnswer, hok]
      rfl
    exact hI.quiet hlog hI.tick (fun _ h => ⟨h.memory, h.storage⟩) fun _ _ h =>
      ⟨h.reached, h.moved⟩
  | true =>
    have hlog : (s.finishCall c result).log = .succeeded c.task :: s.log := by
      rw [Daemon.finishCall, Daemon.logAnswer, hok]
      rfl
    refine hI.logs hlog hI.tick (fun _ h => ⟨h.memory, h.storage⟩)
      (fun _ _ h => ⟨h.reached, h.moved⟩) ?_ (fun _ _ => nofun) (fun _ => nofun) fun _ _ => nofun
    rintro _ ⟨rfl, hshot⟩
    rw [hsound hshot] at hok
    cases hok

theorem settleCall (hI : Settled s) : Settled (s.settleCall c result) := by
  refine hI.quiet rfl hI.tick (fun k h => ⟨h.memory.imp_left fun hnone => ?_, h.storage⟩)
    fun _ _ h => ⟨h.reached, h.moved.imp_right (.settleCall h.reached)⟩
  refine get_settleCall.trans ?_
  split
  · rw [hnone, Option.map_none]
  · exact hnone

theorem restart (hI : Settled s)
    (hsound : ∀ run ∈ s.claims.rows, run.leavesStorage = false) : Settled (s.restart env) := by
  refine hI.quiet rfl le_rfl (fun k h => ?_) fun _ _ h => ⟨h.reached, .inr (.loadJobs h.reached)⟩
  have hjob : s.jobs.get k = none := by
    rcases h.storage with h | ⟨run, hrun, hleaves⟩
    · exact h
    · have hmem : run ∈ s.claims.rows := List.mem_of_find?_eq_some hrun
      rw [hsound run hmem] at hleaves
      cases hleaves
  refine ⟨.inl ?_, .inl hjob⟩
  exact get_loadJobs.trans (by rw [hjob, Option.map_none])

theorem id_of_claim (h : s.claims.get id = some run) : run.task.id = id :=
  (Table.key_of_get h : run.id = id)

theorem step (hI : Settled s) (hsound : Sound s a = true) (h : s.step env a = some s') :
    Settled s' := by
  cases a with
  | clock clock =>
    have hwall : s.clock.wall ≤ clock.wall := of_decide_eq_true hsound
    simp only [Daemon.step, Option.ite_none_right_eq_some, Option.some.injEq] at h
    obtain ⟨-, rfl⟩ := h
    exact hI.quiet rfl (hI.tick.trans hwall) (fun _ h => ⟨h.memory, h.storage⟩)
      fun _ _ h => ⟨h.reached.trans hwall, h.moved⟩
  | tick =>
    simp only [Daemon.step, Option.ite_none_right_eq_some, Option.some.injEq] at h
    obtain ⟨-, rfl⟩ := h
    exact hI.quiet rfl le_rfl (fun _ h => ⟨h.memory, h.storage⟩)
      fun _ _ h => ⟨h.reached, h.moved⟩
  | visit id =>
    obtain ⟨task, hget, rfl⟩ := Option.map_eq_some_iff.mp h
    obtain rfl : task.id = id := Table.key_of_get hget
    refine hI.visit fun hstarts hkind => ?_
    simp only [Sound, hget, Option.all_some, decide_eq_true_eq, Bool.and_eq_true,
      Bool.or_eq_true] at hsound
    exact hsound ⟨hstarts, hkind⟩
  | finish id result =>
    simp only [Daemon.step] at h
    split at h
    · rename_i task hrun
      obtain rfl : task.id = id := id_of_claim hrun
      exact Option.some.inj h ▸ hI.finish hrun
    · cases h
  | settle id =>
    simp only [Daemon.step] at h
    split at h
    · rename_i task result hrun
      obtain rfl : task.id = id := id_of_claim hrun
      exact Option.some.inj h ▸ hI.settle hrun
    · cases h
  | store id =>
    simp only [Daemon.step] at h
    split at h
    · rename_i task result next hrun
      obtain rfl : task.id = id := id_of_claim hrun
      exact Option.some.inj h ▸ hI.store hrun
    · cases h
  | release id =>
    simp only [Daemon.step] at h
    split at h
    · rename_i task hrun
      exact Option.some.inj h ▸ hI.release hrun
    · cases h
  | call number id =>
    simp only [Daemon.step, Option.ite_none_right_eq_some] at h
    obtain ⟨task, hget, rfl⟩ := Option.map_eq_some_iff.mp h.2
    refine hI.call hget fun run hrun => ?_
    simpa only [Sound, hrun, Option.all_some, Bool.not_eq_true'] using hsound
  | finishCall number result =>
    simp only [Daemon.step] at h
    split at h
    · rename_i number' task hcall
      refine Option.some.inj h ▸ hI.finishCall ?_
      simpa only [Sound, hcall, Option.all_some, decide_eq_true_eq] using hsound
    · cases h
  | settleCall number =>
    simp only [Daemon.step] at h
    split at h
    · exact Option.some.inj h ▸ hI.settleCall
    · cases h
  | restart =>
    obtain rfl := Option.some.inj h
    refine hI.restart fun run hrun => ?_
    simpa using List.all_eq_true.mp hsound run hrun

end Settled

/-- **Main result.** Where no step takes a branch that goes wrong, a one-shot that has succeeded is
not run again and the tick starts no occurrence of a cron task twice. -/
theorem delivered_once {tasks : Tasks} {jobs : Jobs}
    (h : Moves (Daemon.step env) (fun s a => Sound s a = true) (.boot tasks jobs clock) s) :
    AtMostOnce s.log :=
  (h.invariant (fun hok hstep hI => Settled.step hI hok hstep) .boot).once

/-! ## A reminder, once and twice -/

def reminder : ScheduledTask where
  id := "reminder-1"
  name := "reminder"
  taskType := .at_ 0
  payload := "stretch"
  enabled := true
  lastRun := none
  runCount := 0
  timezone := "UTC"
  targetChannel := none
  targetSession := some "chat-1"

def reminderRow : CronJob where
  jobId := "reminder-1"
  schedule := "at_1970-01-01T00:00:00+00:00".toList
  task := .obj
    [("name", .str "reminder"), ("payload", .str "stretch"), ("timezone", .str "UTC"),
      ("channel", .null), ("session", .str "chat-1")]
  enabled := true
  lastRun := none
  nextRun := some "1970-01-01T00:00:00+00:00".toList

def withReminder : Daemon :=
  .boot (.ofList [reminder]) (.ofList [reminderRow]) ⟨0, 0⟩

def delivered : TaskResult := ⟨true, 0⟩

theorem delivered_once_reminder :
    ∃ s, runActs (Daemon.step epochEnv) (fun s a => Sound s a = true) withReminder
      [.tick, .visit "reminder-1", .finish "reminder-1" delivered, .settle "reminder-1",
        .store "reminder-1", .release "reminder-1", .restart, .tick] = some s ∧
      s.log = [.succeeded reminder, .started reminder .tick] ∧ AtMostOnce s.log := by
  have hlog : (runActs (Daemon.step epochEnv) (fun s a => Sound s a = true) withReminder
      [.tick, .visit "reminder-1", .finish "reminder-1" delivered, .settle "reminder-1",
        .store "reminder-1", .release "reminder-1", .restart, .tick]).map (·.log) =
      some [.succeeded reminder, .started reminder .tick] := by decide
  obtain ⟨s, hrun, hlog⟩ := Option.map_eq_some_iff.mp hlog
  exact ⟨s, hrun, hlog, delivered_once (.of_acts hrun)⟩

/-- The second tick clones the reminder while its run is still going, and looks at the clone when
the run has been settled and has dropped its claim. -/
theorem delivered_twice :
    ¬ ∀ (env : SchedulerEnv) (tasks : Tasks) (jobs : Jobs) (clock : Clock) (s : Daemon),
      Moves (Daemon.step env) (fun _ _ => True) (.boot tasks jobs clock) s → AtMostOnce s.log := by
  intro h
  have hlog : (runActs (Daemon.step epochEnv) (fun _ _ => True) withReminder
      [.tick, .visit "reminder-1", .tick, .finish "reminder-1" delivered, .settle "reminder-1",
        .store "reminder-1", .release "reminder-1", .visit "reminder-1"]).map (·.log) =
      some [.started reminder .tick, .succeeded reminder, .started reminder .tick] := by
    decide
  obtain ⟨s, hrun, hlog⟩ := Option.map_eq_some_iff.mp hlog
  have honce := h epochEnv _ _ _ s (.of_acts hrun)
  rw [hlog] at honce
  have hallowed := (List.pairwise_cons.mp honce).1 (.succeeded reminder) List.mem_cons_self
  exact hallowed.1 "reminder-1" ⟨rfl, rfl⟩ ⟨rfl, rfl⟩

end Nanna.Scheduler
