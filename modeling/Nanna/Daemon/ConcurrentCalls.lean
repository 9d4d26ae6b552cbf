import Nanna.Daemon.ConcurrentAdds

/-!
# Concurrent calls of the task services

Any number of `tasks.add`, `tasks.update` and `tasks.done` calls on one store, each one section between two
await points at a time (`step`). The run of a check is between the read of the task and the call of `complete`;
an update writes the whole row that it read, a cancellation then rewrites the subtree row by row, and a
completion then marks the ancestors one by one. Left alone, each call does what its service does (`update_alone`,
`done_alone`).

What a call has run is recorded for the statements.
-/

namespace Nanna.Daemon.ConcurrentCalls

open Nanna.Lib Nanna.Tasks Nanna.Harness

/-! ## One call -/

inductive Reply
  | added (reply : AddReply)
  | updated (task : Task)
  | done (reply : DoneReply)

/-- Where a call is; `read` is the task as `tasks.done` found it. -/
inductive Phase
  | adding (phase : ConcurrentAdds.Phase)
  | updating
  /-- `update` has patched the row that it read, and waits for the connection. -/
  | committing (id : Int) (patch : TaskPatch) (p : Patched)
  | cascading (id : Int) (task : Task)
  | rewriting (id : Int) (rows : List Task)
  | rereading (id : Int)
  | finishing
  | running (read : Task) (acceptance : Json)
  | completing (read : Task) (verdict : Option Text)
  /-- `complete` has read the row, and waits for the connection. -/
  | marking (read : Task) (verdict : Option Text) (task : Task)
  /-- The ancestors that are to be marked, and those that are. -/
  | ascending (read : Task) (verdict : Option Text) (left marked : List Int)
  | refocusing (read : Task) (verdict : Option Text) (alreadyDone : Bool) (marked : List Int)
  | returned (reply : Except String Reply)

section Sections

variable (env : ServiceEnv) (params : Json) (s : Store)

/-- The request of an update and the patched row. -/
def prepareUpdate : Except String (Int × TaskPatch × Patched) := do
  let id ← reqI64 env.reading params "id"
  let patch ← updatePatch env params
  let p ← stored (s.getRaw id >>= fun task => preparePatch env.tasks task patch)
  .ok (id, patch, p)

/-- The task that is to be closed. -/
def readDone : Except String Task := do
  let id ← reqI64 env.reading params "id"
  stored (get s id)

/-- The directory in which a call runs its check. -/
def workdir (params : Json) : String := (optString params "workdir").getD "."

/-- The next section of a call. -/
def act : Phase → Except String (Store × Phase)
  | .adding (.returned reply) => .ok (s, .returned (reply.map .added))
  | .adding phase => do
    let (s', phase') ← ConcurrentAdds.act env params s phase
    .ok (s', .adding phase')
  | .updating => do
    let (id, patch, p) ← prepareUpdate env params s
    .ok (s, .committing id patch p)
  | .committing id patch p => do
    let s' ← stored (commitUpdate env.tasks s patch p)
    .ok (s', if cancels p then .cascading id p.1 else .rereading id)
  | .cascading id task => .ok (s, .rewriting id (cascadePlan (s.loadScope task.scopeOf) task))
  | .rewriting id (row :: rows) => .ok (s.writeTask env.tasks.now row, .rewriting id rows)
  | .rewriting id [] => .ok (s, .rereading id)
  | .rereading id => do
    let task ← stored (get s id)
    .ok (s, .returned (.ok (.updated task)))
  | .finishing => do
    let task ← readDone env params s
    match task.acceptance with
    | some acceptance => .ok (s, .running task acceptance)
    | none => .ok (s, .completing task none)
  | .running read acceptance => do
    let check ← AcceptanceCheck.fromJson env.reading.dialect acceptance
    let verdict := env.runCheck check (workdir params)
    if verdict.passed then .ok (s, .completing read (some verdict.detail))
    else .ok (s, .returned (.ok (.done (.failed read.id verdict.detail))))
  | .completing read verdict => do
    let task ← stored (s.getRaw read.id)
    if task.status = .done then .ok (s, .refocusing read verdict true [])
    else .ok (s, .marking read verdict task)
  | .marking read verdict task => do
    let s' ← stored (completeMark env.tasks.now s task)
    -- the rows read under the guard, before the mark
    .ok (s', .ascending read verdict (autoComplete (s.loadScope task.scopeOf) task) [])
  | .ascending read verdict (id :: left) marked =>
    .ok (s.markDone env.tasks.now id, .ascending read verdict left (marked ++ [id]))
  | .ascending read verdict [] marked => do
    let _ ← stored (s.getRaw read.id)
    .ok (s, .refocusing read verdict false marked)
  | .refocusing read verdict alreadyDone marked =>
    .ok (s, .returned (.ok (.done (.done verdict (refocus s read.parentId) alreadyDone marked))))
  | .returned reply => .ok (s, .returned reply)

end Sections

/-! ## Calls -/

/-- A check of a task that was run, and whether it passed. -/
structure Ran where
  id : Int
  acceptance : Json
  passed : Bool
deriving DecidableEq

/-- What the next section of a call runs. -/
def Phase.runs (env : ServiceEnv) (params : Json) : Phase → List Ran
  | .running read acceptance =>
    match AcceptanceCheck.fromJson env.reading.dialect acceptance with
    | .ok check => [⟨read.id, acceptance, (env.runCheck check (workdir params)).passed⟩]
    | .error _ => []
  | _ => []

structure Call where
  env : ServiceEnv
  params : Json
  phase : Phase
  ran : List Ran

structure Calls where
  store : Store
  calls : List Call

inductive Act
  | add (env : ServiceEnv) (params : Json)
  | update (env : ServiceEnv) (params : Json)
  | done (env : ServiceEnv) (params : Json)
  | advance (i : Nat)

def Calls.start (m : Calls) (env : ServiceEnv) (params : Json) (phase : Phase) : Calls :=
  { m with calls := m.calls ++ [⟨env, params, phase, []⟩] }

def step (m : Calls) : Act → Option Calls
  | .add env params => some (m.start env params (.adding .starting))
  | .update env params => some (m.start env params .updating)
  | .done env params => some (m.start env params .finishing)
  | .advance i => m.calls[i]?.map fun c =>
    let (store, phase) := resume (act c.env c.params) .returned m.store c.phase
    ⟨store, m.calls.set i { c with phase, ran := c.ran ++ c.phase.runs c.env c.params }⟩

/-! ## A call alone -/

variable {env : ServiceEnv} {params : Json} {s s' : Store} {phase phase' : Phase}

/-- What a service answers, among the replies. -/
def replied {α : Type} (reply : α → Reply) (r : Except String (Store × α)) : Except String (Store × Reply) :=
  r.map fun (s', a) => (s', reply a)

theorem replied_bind {α β : Type} {reply : β → Reply} {x : Except String α}
    {f : α → Except String (Store × β)} : replied reply (x >>= f) = x >>= fun a => replied reply (f a) := by
  cases x <;> rfl

theorem adds_returned (n : Nat) (reply : Except String AddReply) :
    resumes (ConcurrentAdds.act env params) .returned n (s, .returned reply) = (s, .returned reply) := by
  induction n with
  | zero => rfl
  | succ n ih => exact ih

/-- A call of `tasks.add` runs its own sections. -/
theorem adding_resumes (n : Nat) : ∀ {s s' : Store} {phase : ConcurrentAdds.Phase} {reply : Except String AddReply},
    resumes (ConcurrentAdds.act env params) .returned n (s, phase) = (s', .returned reply) →
    ∃ k, resumes (act env params) .returned k (s, .adding phase) = (s', .returned (reply.map .added)) := by
  induction n with
  | zero =>
    intro s s' phase reply h
    cases h
    exact ⟨1, rfl⟩
  | succ n ih =>
    intro s s' phase reply h
    by_cases hreturned : ∃ r, phase = .returned r
    · obtain ⟨r, rfl⟩ := hreturned
      rw [adds_returned] at h
      cases h
      exact ⟨1, rfl⟩
    have hadding : act env params s (.adding phase) = ConcurrentAdds.act env params s phase >>= fun next =>
        .ok (next.1, .adding next.2) := by
      rw [act]
      exact fun r hr => hreturned ⟨r, hr⟩
    cases hact : ConcurrentAdds.act env params s phase with
    | error e =>
      rw [resumes, resume_error hact, adds_returned] at h
      cases h
      rw [hact] at hadding
      exact ⟨1, resume_error hadding⟩
    | ok next =>
      rw [resumes, resume_ok hact] at h
      obtain ⟨k, hk⟩ := ih h
      rw [hact] at hadding
      refine ⟨k + 1, ?_⟩
      rw [resumes, resume_ok hadding]
      exact hk

theorem add_alone : Returns (act env params) .returned s (.adding .starting)
    (replied .added (taskAddService env s params)) := by
  have h := @ConcurrentAdds.alone env params s
  cases hadd : taskAddService env s params with
  | error e =>
    rw [hadd] at h
    obtain ⟨n, hn⟩ := h
    exact adding_resumes n hn
  | ok result =>
    rw [hadd] at h
    obtain ⟨n, hn⟩ := h
    exact adding_resumes n hn

/-! ### Update -/

/-- The service once the patch is read. -/
def updateFrom (env : ServiceEnv) (s : Store) (id : Int) (patch : TaskPatch) (p : Patched) :
    Except String (Store × Task) := do
  let s ← stored (commitUpdate env.tasks s patch p)
  let s := if cancels p then cascadeCancel env.tasks.now s p.1 else s
  let task ← stored (get s id)
  .ok (s, task)

theorem taskUpdateService_eq : taskUpdateService env s params =
    prepareUpdate env params s >>= fun (id, patch, p) => updateFrom env s id patch p := by
  unfold taskUpdateService prepareUpdate updateFrom update
  simp only [bind_assoc, stored_bind]
  rfl

theorem updateFrom_ok {id : Int} {patch : TaskPatch} {p : Patched} {s₁ t : Store} {task : Task}
    (hcommit : commitUpdate env.tasks s patch p = .ok s₁)
    (ht : (if cancels p then cascadeCancel env.tasks.now s₁ p.1 else s₁) = t)
    (hget : get t id = .ok task) : updateFrom env s id patch p = .ok (t, task) := by
  refine bind_eq_ok.mpr ⟨s₁, stored_eq_ok.mpr hcommit, ?_⟩
  rw [ht]
  exact bind_eq_ok.mpr ⟨task, stored_eq_ok.mpr hget, rfl⟩

theorem rereading_alone {id : Int} {task : Task} (hget : get s id = .ok task) :
    Returns (act env params) .returned s (.rereading id) (.ok (s, .updated task)) := by
  have hact : act env params s (.rereading id) = .ok (s, .returned (.ok (.updated task))) := by
    rw [act, hget]
    rfl
  exact .next hact (.done _)

theorem rewriting_alone {id : Int} {task : Task} (rows : List Task) : ∀ {s : Store},
    get (s.writeAll env.tasks.now rows) id = .ok task →
    Returns (act env params) .returned s (.rewriting id rows)
      (.ok (s.writeAll env.tasks.now rows, .updated task)) := by
  induction rows with
  | nil => exact fun hget => .next rfl (rereading_alone hget)
  | cons row rows ih => exact fun hget => .write rfl (ih hget)

/-- The updated row is in the table, and no write takes a row away. -/
theorem get_updated {id : Int} {patch : TaskPatch} {p : Patched}
    (hprepare : prepareUpdate env params s = .ok (id, patch, p))
    (hcommit : commitUpdate env.tasks s patch p = .ok s') (rows : List Task) :
    ∃ task, get (s'.writeAll env.tasks.now rows) id = .ok task := by
  obtain ⟨id', -, hprepare⟩ := bind_eq_ok.mp hprepare
  obtain ⟨patch', -, hprepare⟩ := bind_eq_ok.mp hprepare
  obtain ⟨p', hread, hprepare⟩ := bind_eq_ok.mp hprepare
  obtain ⟨row, hrow, -⟩ := bind_eq_ok.mp (stored_eq_ok.mp hread)
  cases hprepare
  obtain ⟨-, rfl⟩ := commitUpdate_ok hcommit
  rw [get_isOk, writeAll_ids, Store.writeTask, modify_ids]
  · exact getRaw_isOk.mp ⟨row, hrow⟩
  · exact fun _ => rfl

theorem update_alone : Returns (act env params) .returned s .updating
    (replied .updated (taskUpdateService env s params)) := by
  rw [taskUpdateService_eq, replied_bind]
  refine .bind rfl fun (id, patch, p) hprepare => ⟨_, rfl, ?_⟩
  dsimp only
  cases hcommit : commitUpdate env.tasks s patch p with
  | error e =>
    rw [updateFrom, hcommit]
    refine .fail ?_
    rw [act, hcommit]
    rfl
  | ok s₁ =>
    have hact : act env params s (.committing id patch p) =
        .ok (s₁, if cancels p then .cascading id p.1 else .rereading id) := by
      rw [act, hcommit]
      rfl
    by_cases hcancels : cancels p = true
    · obtain ⟨task, hget⟩ := get_updated hprepare hcommit (cascadePlan (s₁.loadScope p.1.scopeOf) p.1)
      rw [updateFrom_ok hcommit (if_pos hcancels) hget]
      rw [if_pos hcancels] at hact
      exact .write hact (.next rfl (rewriting_alone _ hget))
    · obtain ⟨task, hget⟩ := get_updated hprepare hcommit []
      rw [updateFrom_ok hcommit (if_neg hcancels) hget]
      rw [if_neg hcancels] at hact
      exact .write hact (rereading_alone hget)

/-! ### Done -/

/-- The service once the task is read. -/
def doneFrom (env : ServiceEnv) (params : Json) (s : Store) (task : Task) :
    Except String (Store × DoneReply) :=
  match task.acceptance with
  | some acceptance => do
    let check ← AcceptanceCheck.fromJson env.reading.dialect acceptance
    let verdict := env.runCheck check (workdir params)
    if verdict.passed then finishTask env s task (some verdict.detail)
    else .ok (s, .failed task.id verdict.detail)
  | none => finishTask env s task none

theorem get_id {id : Int} {task : Task} (h : get s id = .ok task) : task.id = id := by
  obtain ⟨row, blocked, hrow, rfl⟩ := getRaw_of_get h
  exact (getRaw_ok hrow).2

theorem taskDoneService_eq :
    taskDoneService env s params = readDone env params s >>= doneFrom env params s := by
  unfold taskDoneService readDone
  rw [bind_assoc]
  refine congrArg (reqI64 env.reading params "id" >>= ·) (funext fun id => ?_)
  cases hget : stored (get s id) with
  | error e => rfl
  | ok task =>
    obtain rfl := get_id (stored_eq_ok.mp hget)
    rfl

theorem refocusing_alone {read : Task} {verdict : Option Text} {alreadyDone : Bool} {marked : List Int} :
    Returns (act env params) .returned s (.refocusing read verdict alreadyDone marked)
      (.ok (s, .done (.done verdict (refocus s read.parentId) alreadyDone marked))) :=
  .next rfl (.done _)

theorem ascending_alone {read : Task} {verdict : Option Text} (left : List Int) : ∀ {s : Store} {marked : List Int},
    read.id ∈ s.tasks.map (·.id) →
    Returns (act env params) .returned s (.ascending read verdict left marked)
      (.ok (s.markAllDone env.tasks.now left, .done (.done verdict
        (refocus (s.markAllDone env.tasks.now left) read.parentId) false (marked ++ left)))) := by
  induction left with
  | nil =>
    intro s marked hmem
    obtain ⟨task, hget⟩ := getRaw_isOk.mpr hmem
    rw [List.append_nil]
    have hact : act env params s (.ascending read verdict [] marked) =
        .ok (s, .refocusing read verdict false marked) := by
      rw [act, hget]
      rfl
    exact .next hact refocusing_alone
  | cons id left ih =>
    intro s marked hmem
    rw [List.append_cons]
    refine .write rfl (ih ?_)
    rw [Store.markDone, modify_ids]
    · exact hmem
    · exact fun _ => rfl

theorem completing_alone {read : Task} {verdict : Option Text} :
    Returns (act env params) .returned s (.completing read verdict)
      (replied .done (finishTask env s read verdict)) := by
  unfold finishTask complete
  rw [stored_bind, bind_assoc, replied_bind]
  refine .bind rfl fun task htask => ?_
  dsimp only
  split_ifs with hdone
  · exact ⟨_, rfl, refocusing_alone⟩
  refine ⟨_, rfl, ?_⟩
  cases hmark : completeMark env.tasks.now s task with
  | error e =>
    refine .fail ?_
    rw [act, hmark]
    rfl
  | ok s₁ =>
    obtain ⟨hmem, hid⟩ := getRaw_ok (stored_eq_ok.mp htask)
    obtain ⟨-, rfl⟩ := completeMark_eq_ok.mp hmark
    have hmarked : read.id ∈ (s.markDone env.tasks.now task.id).tasks.map (·.id) := by
      rw [Store.markDone, modify_ids, ← hid]
      · exact List.mem_map_of_mem hmem
      · exact fun _ => rfl
    obtain ⟨closed, hclosed⟩ : ∃ closed, ((s.markDone env.tasks.now task.id).markAllDone env.tasks.now
        (autoComplete (s.loadScope task.scopeOf) task)).getRaw read.id = .ok closed := by
      rw [getRaw_isOk, markAllDone_ids]
      exact hmarked
    show Returns _ _ s _ (replied .done (stored (Store.getRaw _ read.id >>= _) >>= _))
    rw [hclosed]
    have hact : act env params s (.marking read verdict task) = .ok (s.markDone env.tasks.now task.id,
        .ascending read verdict (autoComplete (s.loadScope task.scopeOf) task) []) := by
      rw [act, hmark]
      rfl
    exact .write hact (ascending_alone _ hmarked)

theorem done_alone : Returns (act env params) .returned s .finishing
    (replied .done (taskDoneService env s params)) := by
  rw [taskDoneService_eq, replied_bind]
  refine .bind rfl fun task _ => ?_
  unfold doneFrom
  cases task.acceptance with
  | none => exact ⟨_, rfl, completing_alone⟩
  | some acceptance =>
    refine ⟨_, rfl, ?_⟩
    rw [replied_bind]
    refine .bind rfl fun check _ => ?_
    dsimp only
    split_ifs
    · exact ⟨_, rfl, completing_alone⟩
    · exact ⟨_, rfl, .done _⟩

end Nanna.Daemon.ConcurrentCalls
