import Nanna.Tasks.Effects

/-!
# Concurrent clients of one store

Every call takes the connection guard several times: it reads, then writes what it decided from
that read, then may have more rows to write (a cascade, the ancestors of a completion). `Clients`
is the store between two such sections, with what each client read and what it still has to write;
a run is any interleaving of sections.

A call succeeds with its first write, and the log of a run is the successful calls in that order.
`calls_serialize`: where every section finds what it read still true of the rows with all pending
writes done, and its own write commutes with those pending writes (`Undisturbed`), the log run
serially gives the final rows. `title_lost_to_priority` is the run that loses an update.
-/

namespace Nanna.Tasks

open Nanna.Lib

/-! ## Sections -/

/-- A write that a call still has to make under a guard of its own. -/
inductive RowWrite
  | task (now : String) (row : Task)
  | done (now : String) (id : Int)

def RowWrite.apply (s : Store) : RowWrite → Store
  | .task now row => s.writeTask now row
  | .done now id => s.markDone now id

/-- What is left of a call after its first write. -/
inductive Tail
  /-- `cascade_cancel` has not read the scope yet. -/
  | cascade (now : String) (task : Task)
  | writes (ws : List RowWrite)

/-- The rows once the rest of the call has run without interruption. -/
def Tail.finish (s : Store) : Tail → Store
  | .cascade now task => cascadeCancel now s task
  | .writes ws => ws.foldl RowWrite.apply s

/-- What a client carries from its reading section to its writing section. -/
inductive Phase
  | idle
  | inserting (env : Env) (call new : NewTask) (admitted : admitNewTask env call = .ok new)
  | committing (env : Env) (id : Int) (patch : TaskPatch) (p : Patched)
  | marking (env : Env) (task : Task)

abbrev Call := Env × Op

structure Clients (ι : Type) where
  store : Store
  phase : ι → Phase
  /-- The calls between their first and their last write, in the order of their first writes. -/
  pending : List (ι × Tail)

/-- The next guarded section to run. -/
inductive Act (ι : Type)
  | createRead (i : ι) (env : Env) (new : NewTask)
  | createInsert (i : ι)
  | updateRead (i : ι) (env : Env) (id : Int) (patch : TaskPatch)
  | updateCommit (i : ι)
  | completeRead (i : ι) (env : Env) (id : Int)
  | completeMark (i : ι)
  | cascadeRead (i : ι)
  | tailWrite (i : ι)

section Machine

variable {ι : Type} [DecidableEq ι]

def Clients.start (s : Store) : Clients ι := ⟨s, fun _ => .idle, []⟩

namespace Clients

/-- The client has no call under way. -/
def free (m : Clients ι) (i : ι) : Bool :=
  (match m.phase i with
    | .idle => true
    | _ => false) && m.pending.all (·.1 ≠ i)

def setPhase (m : Clients ι) (i : ι) (phase : Phase) : Clients ι :=
  { m with phase := Function.update m.phase i phase }

/-- A tail of writes; an empty one is done. -/
def tail (i : ι) (ws : List RowWrite) : List (ι × Tail) := if ws.isEmpty then [] else [(i, .writes ws)]

/-- The pending calls whose first write came before that of client `i`. -/
def ahead (m : Clients ι) (i : ι) : List (ι × Tail) := m.pending.takeWhile (·.1 ≠ i)

def rest (m : Clients ι) (i : ι) : List (ι × Tail) := m.pending.dropWhile (·.1 ≠ i)

/-- One section, and the calls it makes succeed; `none` when the client is elsewhere. -/
def step (m : Clients ι) : Act ι → Option (Clients ι × List (ι × Call))
  | .createRead i env new =>
    if m.free i then
      match hchecked : admitNewTask env new with
      | .error _ => some (m, [])
      | .ok new' =>
        match checkCreate (m.store.loadScope (new'.scope, new'.scopeId)) new' with
        | .error _ => some (m, [])
        | .ok _ => some (m.setPhase i (.inserting env new new' hchecked), [])
    else none
  | .createInsert i =>
    match m.phase i with
    | .inserting env call new _ =>
      match createInsert env m.store new with
      | .error _ => some (m.setPhase i .idle, [])
      | .ok s => some ({ m.setPhase i .idle with store := s }, [(i, env, .create call)])
    | _ => none
  | .updateRead i env id patch =>
    if m.free i then
      match m.store.getRaw id with
      | .error _ => some (m, [])
      | .ok task =>
        match preparePatch env task patch with
        | .error _ => some (m, [])
        | .ok p => some (m.setPhase i (.committing env id patch p), [])
    else none
  | .updateCommit i =>
    match m.phase i with
    | .committing env id patch p =>
      match commitUpdate env m.store patch p with
      | .error _ => some (m.setPhase i .idle, [])
      | .ok s =>
        let left := if cancels p then [(i, Tail.cascade env.now p.1)] else []
        some ({ m.setPhase i .idle with store := s, pending := m.pending ++ left },
          [(i, env, .update id patch)])
    | _ => none
  | .completeRead i env id =>
    if m.free i then
      match m.store.getRaw id with
      | .error _ => some (m, [])
      | .ok task =>
        if task.status = .done then some (m, [(i, env, .complete id)])
        else some (m.setPhase i (.marking env task), [])
    else none
  | .completeMark i =>
    match m.phase i with
    | .marking env task =>
      match completeMark env.now m.store task with
      | .error _ => some (m.setPhase i .idle, [])
      | .ok s =>
        let ws := (autoComplete (m.store.loadScope task.scopeOf) task).map (RowWrite.done env.now)
        some ({ m.setPhase i .idle with store := s, pending := m.pending ++ tail i ws },
          [(i, env, .complete task.id)])
    | _ => none
  | .cascadeRead i =>
    match m.rest i with
    | (_, .cascade now task) :: later =>
      let ws := (cascadePlan (m.store.loadScope task.scopeOf) task).map (RowWrite.task now)
      some ({ m with pending := m.ahead i ++ tail i ws ++ later }, [])
    | _ => none
  | .tailWrite i =>
    match m.rest i with
    | (_, .writes (w :: ws)) :: later =>
      some ({ m with store := w.apply m.store, pending := m.ahead i ++ tail i ws ++ later }, [])
    | _ => none

end Clients

/-- The runs from `s` whose sections all meet `ok`, with the log of the successful calls. -/
inductive Run (ok : Clients ι → Act ι → Prop) (s : Store) : List (ι × Call) → Clients ι → Prop
  | start : Run ok s [] (Clients.start s)
  | step {log calls : List (ι × Call)} {m m' : Clients ι} {act : Act ι} : Run ok s log m →
      ok m act → m.step act = some (m', calls) → Run ok s (log ++ calls) m'

theorem Run.next {ok : Clients ι → Act ι → Prop} {s : Store} {log calls : List (ι × Call)}
    {m m' : Clients ι} (h : Run ok s log m) (act : Act ι) (hstep : m.step act = some (m', calls))
    (hok : ok m act) : Run ok s (log ++ calls) m' := h.step hok hstep

end Machine

/-- The calls one after the other, each run atomically. -/
def runSerial : Store → List Call → Result Store
  | s, [] => .ok s
  | s, (env, op) :: calls => do
    let s ← op.run env s
    runSerial s calls

/-! ## The condition on a section -/

/-- The rows once the pending tails have run, in order. -/
def finishAll {ι : Type} (pending : List (ι × Tail)) (s : Store) : Store :=
  pending.foldl (fun s entry => entry.2.finish s) s

/-- Two patched rows that differ in `updated_at` only, which no write takes from them. -/
def SameButStamp (p p' : Patched) : Prop := p'.2 = p.2 ∧ ∃ now, p'.1 = { p.1 with updatedAt := now }

section Condition

variable {ι : Type} [DecidableEq ι]

namespace Clients

/-- The rows with all pending writes done. -/
def settled (m : Clients ι) : Store := finishAll m.pending m.store

/-- The write `f` gives the same rows before and after the tails. -/
def Commutes (m : Clients ι) (tails : List (ι × Tail)) (f : Store → Store) : Prop :=
  finishAll tails (f m.store) = f (finishAll tails m.store)

/-- What a client read is still so in the settled rows, and its write commutes with the writes
pending from earlier calls. -/
def Undisturbed (m : Clients ι) : Act ι → Prop
  | .createRead .. | .updateRead .. => True
  | .createInsert i =>
    match m.phase i with
    | .inserting env _ new _ =>
      checkCreate (m.settled.loadScope (new.scope, new.scopeId)) new = .ok () ∧
        m.Commutes m.pending fun s => s.insert env.now new
    | _ => True
  | .updateCommit i =>
    match m.phase i with
    | .committing env id patch p =>
      (∃ row p', m.settled.getRaw id = .ok row ∧ preparePatch env row patch = .ok p' ∧
        SameButStamp p p') ∧
      (needsGraphCheck patch = true → checkGraphUpdate
        (putTask (m.settled.loadScope p.1.scopeOf) p.1) p.1 patch.parentId.isSome = .ok ()) ∧
      m.Commutes m.pending fun s => s.writeTask env.now p.1
    | _ => True
  | .completeRead _ _ id =>
    ∀ task, m.store.getRaw id = .ok task → task.status = .done →
      ∃ row, m.settled.getRaw id = .ok row ∧ row.status = .done
  | .completeMark i =>
    match m.phase i with
    | .marking env task =>
      (∃ row, m.settled.getRaw task.id = .ok row ∧ row.status ≠ .done ∧
        openChildren (m.settled.loadScope row.scopeOf) task.id = [] ∧
        autoComplete (m.settled.loadScope row.scopeOf) row =
          autoComplete (m.store.loadScope task.scopeOf) task) ∧
      m.Commutes m.pending fun s => s.markDone env.now task.id
    | _ => True
  | .cascadeRead i =>
    match m.rest i with
    | (_, .cascade _ task) :: _ =>
      cascadePlan ((finishAll (m.ahead i) m.store).loadScope task.scopeOf) task =
        cascadePlan (m.store.loadScope task.scopeOf) task
    | _ => True
  | .tailWrite i =>
    match m.rest i with
    | (_, .writes (w :: _)) :: _ => m.Commutes (m.ahead i) fun s => w.apply s
    | _ => True

end Clients

end Condition

/-! ## Checks do not read the stamp of a row -/

section Stamp

variable {rows : List Task} {g : Task → Task}

/-- A map that changes nothing the graph checks read changes no answer. -/
theorem checkGraphUpdate_map (hid : ∀ t, (g t).id = t.id)
    (hparent : ∀ t, (g t).parentId = t.parentId) (hdeps : ∀ t, (g t).dependsOn = t.dependsOn)
    (hstatus : ∀ t, (g t).status = t.status) (task : Task) (parentChanged : Bool) :
    checkGraphUpdate (rows.map g) (g task) parentChanged =
      checkGraphUpdate rows task parentChanged := by
  have hup : parentOf (rows.map g) = parentOf rows := by
    funext x
    rw [parentOf_map hid]
    simp only [hparent]
    rfl
  have hdepsOf : depsOf (rows.map g) = depsOf rows := by
    funext x
    rw [depsOf_map hid]
    simp only [hdeps]
    rfl
  have hchildren : childrenOf (rows.map g) = childrenOf rows := by
    funext x
    rw [childrenOf, childrenOf, List.filter_map, List.map_map]
    simp only [Function.comp_def, hid, hparent]
  have hwalk : dependencyWalk (rows.map g) = dependencyWalk rows := by
    funext stop deps
    rw [dependencyWalk, dependencyWalk, hdepsOf, map_ids hid]
  have hancestor : checkAncestorDependency (rows.map g) = checkAncestorDependency rows := by
    funext ancestors deps
    rw [checkAncestorDependency, checkAncestorDependency, hwalk]
  have hchain : ancestorChain (rows.map g) = ancestorChain rows := by
    funext p
    rw [ancestorChain, ancestorChain, hup]
  have hsubtree : subtreeIdsFrom (rows.map g) = subtreeIdsFrom rows := by
    funext root
    rw [subtreeIdsFrom, subtreeIdsFrom, hchildren, map_ids hid]
  have hdependency : checkDependency (rows.map g) (g task) = checkDependency rows task := by
    funext dep
    rw [checkDependency, checkDependency, findTask_map hid, hid, Option.isSome_map]
  have hcycle : checkDependencyCycle (rows.map g) = checkDependencyCycle rows := by
    funext start
    rw [checkDependencyCycle, checkDependencyCycle, findTask_map hid, hwalk]
    cases findTask rows start with
    | none => rfl
    | some t => simp only [Option.map_some, hdeps]
  have hmoved : checkMovedDepth (rows.map g) (g task) = checkMovedDepth rows task := by
    funext p
    rw [checkMovedDepth, checkMovedDepth, parentDepth, parentDepth, subtreeHeight, subtreeHeight,
      hup, hchildren, hid]
  have hparentUpdate : checkParentUpdate (rows.map g) (g task) parentChanged =
      checkParentUpdate rows task parentChanged := by
    rw [checkParentUpdate, checkParentUpdate, hparent, hid, hmoved]
    cases task.parentId with
    | none => rfl
    | some p =>
      simp only [findTask_map hid, checkParentCycle, hup]
      cases findTask rows p with
      | none => rfl
      | some t => simp only [Option.map_some, hstatus]
  have hmember : ∀ ancestors, checkMember (rows.map g) ancestors (g task) =
      checkMember rows ancestors task := by
    intro ancestors
    funext member
    rw [checkMember, checkMember, findTask_map hid, hid, hancestor]
    cases findTask rows member with
    | none => rfl
    | some t => simp only [Option.map_some, hdeps]
  simp only [checkGraphUpdate, hdependency, hcycle, hid, hparentUpdate, hdeps, hparent, hchain,
    hancestor, hmember, hsubtree]

/-- Putting a row with another stamp only changes that stamp. -/
theorem putTask_stamp (task : Task) (now : String) :
    putTask rows { task with updatedAt := now } = (putTask rows task).map fun row =>
      if row.id = task.id then { row with updatedAt := now } else row := by
  unfold putTask
  split_ifs with hsome
  · rw [List.map_map]
    refine List.map_congr_left fun row _ => ?_
    by_cases hrow : row.id = task.id <;> simp [hrow]
  · have hnone : ∀ row ∈ rows, row.id ≠ task.id := fun row hrow hid =>
      hsome (findTask_isSome.mpr ⟨row, hrow, hid⟩)
    rw [List.map_append, map_eq_self fun row hrow => if_neg (hnone row hrow)]
    simp

theorem checkGraphUpdate_stamp (task : Task) (now : String) (parentChanged : Bool) :
    checkGraphUpdate (putTask rows { task with updatedAt := now }) { task with updatedAt := now }
      parentChanged = checkGraphUpdate (putTask rows task) task parentChanged := by
  rw [putTask_stamp]
  have hself : { task with updatedAt := now } =
      (fun row : Task => if row.id = task.id then { row with updatedAt := now } else row) task := by
    simp
  rw [hself]
  refine checkGraphUpdate_map (fun t => ?_) (fun t => ?_) (fun t => ?_) (fun t => ?_) task _ <;>
    split_ifs <;> rfl

theorem cascadePlan_stamp (task : Task) (now : String) :
    cascadePlan rows { task with updatedAt := now } = cascadePlan rows task := by
  have hfrom : ∀ (fuel : Nat) (c : Cascade),
      cascadeFrom rows { task with updatedAt := now } fuel c = cascadeFrom rows task fuel c := by
    intro fuel
    induction fuel with
    | zero => exact fun _ => rfl
    | succ fuel ih =>
      intro c
      unfold cascadeFrom
      split
      · rfl
      · exact ih _
  rw [cascadePlan, cascadePlan, hfrom]

end Stamp

/-! ## One section -/

section Serial

variable {s s' : Store} {env : Env}

theorem runSerial_append {calls : List Call} {call : Call} (h : runSerial s calls = .ok s') :
    runSerial s (calls ++ [call]) = call.2.run call.1 s' := by
  induction calls generalizing s with
  | nil =>
    cases h
    rw [List.nil_append, runSerial]
    cases Op.run call.1 s' call.2 <;> rfl
  | cons c calls ih =>
    obtain ⟨s₁, hop, h⟩ := bind_eq_ok.mp h
    rw [List.cons_append, runSerial, hop]
    exact ih h

theorem create_serial {call new : NewTask} {s₁ : Store} (hchecked : admitNewTask env call = .ok new)
    (hcheck : checkCreate (s.loadScope (new.scope, new.scopeId)) new = .ok ())
    (hinsert : createInsert env s₁ new = .ok s') :
    Op.run env s (.create call) = .ok (s.insert env.now new) := by
  obtain ⟨⟨⟩, hmember, -⟩ := bind_eq_ok.mp hinsert
  refine map_eq_ok.mpr ⟨_, bind_eq_ok.mpr ⟨new, hchecked, bind_eq_ok.mpr ⟨(), hcheck,
    bind_eq_ok.mpr ⟨s.insert env.now new, bind_eq_ok.mpr ⟨(), hmember, rfl⟩, rfl⟩⟩⟩, rfl⟩

theorem update_serial {id : Int} {patch : TaskPatch} {p p' : Patched} {row : Task} {s₁ : Store}
    (hrow : s.getRaw id = .ok row) (hprep : preparePatch env row patch = .ok p')
    (hsame : SameButStamp p p')
    (hcheck : needsGraphCheck patch = true → checkGraphUpdate (putTask (s.loadScope p.1.scopeOf) p.1)
      p.1 patch.parentId.isSome = .ok ())
    (hcommit : commitUpdate env s₁ patch p = .ok s') :
    Op.run env s (.update id patch) = .ok (if cancels p
      then cascadeCancel env.now (s.writeTask env.now p.1) p.1 else s.writeTask env.now p.1) := by
  obtain ⟨hchanged, now, hp⟩ := hsame
  obtain ⟨hmember, -⟩ := commitUpdate_ok hcommit
  have hwrite : s.writeTask env.now p'.1 = s.writeTask env.now p.1 := by rw [hp]; rfl
  have hcancels : cancels p' = cancels p := by rw [cancels, cancels, hchanged, hp]
  have hcascade : ∀ t : Store, cascadeCancel env.now t p'.1 = cascadeCancel env.now t p.1 := by
    intro t
    rw [hp, cascadeCancel, cascadeCancel, cascadePlan_stamp]
    rfl
  have hcommit' : commitUpdate env s patch p' = .ok (s.writeTask env.now p.1) := by
    rw [← hwrite]
    refine bind_eq_ok.mpr ⟨(), ?_, bind_eq_ok.mpr ⟨(), checkIf_eq_ok.mpr fun hneeds => ?_, rfl⟩⟩
    · rw [hchanged, hp]
      exact hmember
    · rw [hp]
      exact (checkGraphUpdate_stamp p.1 now _).trans (hcheck hneeds)
  have hids : ∀ t : Store, (if cancels p = true then cascadeCancel env.now t p.1 else t).tasks.map
      (·.id) = t.tasks.map (·.id) := by
    intro t
    split_ifs
    · exact writeAll_ids _ t
    · rfl
  obtain ⟨task', hget⟩ : ∃ task', get (if cancels p = true
      then cascadeCancel env.now (s.writeTask env.now p.1) p.1
      else s.writeTask env.now p.1) id = .ok task' := by
    rw [get_isOk, hids, Store.writeTask, modify_ids]
    · exact getRaw_isOk.mp ⟨row, hrow⟩
    · exact fun _ => rfl
  refine map_eq_ok.mpr ⟨(_, task'), bind_eq_ok.mpr ⟨row, hrow, bind_eq_ok.mpr ⟨p', hprep,
    bind_eq_ok.mpr ⟨_, hcommit', ?_⟩⟩⟩, rfl⟩
  rw [hcancels, hcascade]
  exact bind_eq_ok.mpr ⟨task', hget, rfl⟩

theorem complete_serial {row : Task} {id : Int} {ids : List Int} (hrow : s.getRaw id = .ok row)
    (hopen : row.status ≠ .done) (hchildren : openChildren (s.loadScope row.scopeOf) id = [])
    (hauto : autoComplete (s.loadScope row.scopeOf) row = ids) :
    Op.run env s (.complete id) = .ok ((s.markDone env.now id).markAllDone env.now ids) := by
  obtain ⟨hmem, rfl⟩ := getRaw_ok hrow
  have hmark : completeMark env.now s row = .ok (s.markDone env.now row.id) :=
    completeMark_eq_ok.mpr ⟨hchildren, rfl⟩
  obtain ⟨task, htask⟩ : ∃ task,
      ((s.markDone env.now row.id).markAllDone env.now ids).getRaw row.id = .ok task := by
    rw [getRaw_isOk, markAllDone_ids, Store.markDone, modify_ids]
    · exact getRaw_isOk.mp ⟨row, hrow⟩
    · exact fun _ => rfl
  refine map_eq_ok.mpr ⟨(_, ⟨task, ids, false⟩), bind_eq_ok.mpr ⟨row, hrow, ?_⟩, rfl⟩
  rw [if_neg hopen]
  refine bind_eq_ok.mpr ⟨_, hmark, ?_⟩
  rw [hauto]
  exact bind_eq_ok.mpr ⟨task, htask, rfl⟩

end Serial

/-! ## The simulation -/

section Simulation

variable {ι : Type}

@[simp] theorem finishAll_append (tails later : List (ι × Tail)) (s : Store) :
    finishAll (tails ++ later) s = finishAll later (finishAll tails s) := List.foldl_append ..

theorem finishAll_tail (i : ι) (ws : List RowWrite) (s : Store) :
    finishAll (Clients.tail i ws) s = ws.foldl RowWrite.apply s := by
  cases ws <;> rfl

theorem foldl_task (now : String) (rows : List Task) : ∀ s : Store,
    (rows.map (RowWrite.task now)).foldl RowWrite.apply s = s.writeAll now rows := by
  induction rows with
  | nil => exact fun _ => rfl
  | cons row rows ih => exact fun s => ih (s.writeTask now row)

theorem foldl_done (now : String) (ids : List Int) : ∀ s : Store,
    (ids.map (RowWrite.done now)).foldl RowWrite.apply s = s.markAllDone now ids := by
  induction ids with
  | nil => exact fun _ => rfl
  | cons id ids ih => exact fun s => ih (s.markDone now id)

variable [DecidableEq ι]

namespace Clients

theorem ahead_append_rest (m : Clients ι) (i : ι) : m.ahead i ++ m.rest i = m.pending :=
  List.takeWhile_append_dropWhile ..

/-- An undisturbed section adds to the settled rows exactly the calls it makes succeed. -/
theorem step_serial {m m' : Clients ι} {act : Act ι} {calls : List (ι × Call)} {s : Store}
    {log : List Call} (hok : m.Undisturbed act) (hstep : m.step act = some (m', calls))
    (hlog : runSerial s log = .ok m.settled) :
    runSerial s (log ++ calls.map (·.2)) = .ok m'.settled := by
  have hquiet : runSerial s (log ++ ([] : List (ι × Call)).map (·.2)) = .ok m.settled := by
    rw [List.map_nil, List.append_nil]
    exact hlog
  cases act with
  | createRead i env new =>
    rw [step] at hstep
    split_ifs at hstep
    split at hstep
    · cases hstep
      exact hquiet
    · split at hstep <;> cases hstep <;> exact hquiet
  | createInsert i =>
    simp only [step] at hstep
    split at hstep
    · rename_i env call new hchecked hphase
      simp only [Undisturbed, hphase] at hok
      obtain ⟨hcheck, hcommutes⟩ := hok
      split at hstep
      · cases hstep
        exact hquiet
      · rename_i s₁ hinsert
        cases hstep
        refine (runSerial_append hlog).trans ((create_serial hchecked hcheck hinsert).trans ?_)
        obtain ⟨⟨⟩, -, hinsert⟩ := bind_eq_ok.mp hinsert
        cases hinsert
        exact congrArg _ hcommutes.symm
    · cases hstep
  | updateRead i env id patch =>
    simp only [step] at hstep
    split_ifs at hstep
    split at hstep
    · cases hstep
      exact hquiet
    · split at hstep <;> cases hstep <;> exact hquiet
  | updateCommit i =>
    simp only [step] at hstep
    split at hstep
    · rename_i env id patch p hphase
      simp only [Undisturbed, hphase] at hok
      obtain ⟨⟨row, p', hrow, hprep, hsame⟩, hcheck, hcommutes⟩ := hok
      split at hstep
      · cases hstep
        exact hquiet
      · rename_i s₁ hcommit
        cases hstep
        refine (runSerial_append hlog).trans
          ((update_serial hrow hprep hsame hcheck hcommit).trans (congrArg _ ?_))
        obtain ⟨-, rfl⟩ := commitUpdate_ok hcommit
        have hwrite : finishAll m.pending (m.store.writeTask env.now p.1) =
            m.settled.writeTask env.now p.1 := hcommutes
        refine Eq.trans ?_ (finishAll_append m.pending _ _).symm
        rw [hwrite]
        split_ifs <;> rfl
    · cases hstep
  | completeRead i env id =>
    simp only [step] at hstep
    split_ifs at hstep
    split at hstep
    · cases hstep
      exact hquiet
    · rename_i task htask
      split_ifs at hstep with hdone
      · cases hstep
        obtain ⟨row, hrow, hrowdone⟩ := hok task htask hdone
        refine (runSerial_append hlog).trans (map_eq_ok.mpr ⟨(m.settled, ⟨row, [], true⟩),
          bind_eq_ok.mpr ⟨row, hrow, if_pos hrowdone⟩, rfl⟩)
      · cases hstep
        exact hquiet
  | completeMark i =>
    simp only [step] at hstep
    split at hstep
    · rename_i env task hphase
      simp only [Undisturbed, hphase] at hok
      obtain ⟨⟨row, hrow, hopen, hchildren, hauto⟩, hcommutes⟩ := hok
      split at hstep
      · cases hstep
        exact hquiet
      · rename_i s₁ hmark
        cases hstep
        refine (runSerial_append hlog).trans
          ((complete_serial hrow hopen hchildren hauto).trans (congrArg _ ?_))
        obtain ⟨-, rfl⟩ := completeMark_eq_ok.mp hmark
        have hwrite : finishAll m.pending (m.store.markDone env.now task.id) =
            m.settled.markDone env.now task.id := hcommutes
        refine Eq.trans ?_ (finishAll_append m.pending _ _).symm
        rw [hwrite, finishAll_tail, foldl_done]
    · cases hstep
  | cascadeRead i =>
    simp only [step] at hstep
    split at hstep
    · rename_i j now task later hrest
      simp only [Undisturbed, hrest] at hok
      cases hstep
      refine hquiet.trans (congrArg _ ?_)
      rw [settled, ← m.ahead_append_rest i, hrest, settled, List.append_assoc, finishAll_append,
        finishAll_append, finishAll_append, finishAll_tail, foldl_task, ← hok]
      rfl
    · cases hstep
  | tailWrite i =>
    simp only [step] at hstep
    split at hstep
    · rename_i j w ws later hrest
      simp only [Undisturbed, hrest] at hok
      cases hstep
      refine hquiet.trans (congrArg _ ?_)
      rw [settled, ← m.ahead_append_rest i, hrest, settled, List.append_assoc, finishAll_append,
        finishAll_append, finishAll_append, finishAll_tail, hok]
      rfl
    · cases hstep

end Clients

theorem Run.serial {s : Store} {log : List (ι × Call)} {m : Clients ι}
    (h : Run Clients.Undisturbed s log m) : runSerial s (log.map (·.2)) = .ok m.settled := by
  induction h with
  | start => rfl
  | step _ hok hstep ih =>
    rw [List.map_append]
    exact Clients.step_serial hok hstep ih

/-- **Main result.** A run of any number of clients whose sections are all undisturbed leaves, once
nothing is pending, the rows of its successful calls run one after the other. -/
theorem calls_serialize (s : Store) (log : List (ι × Call)) (m : Clients ι)
    (h : Run Clients.Undisturbed s log m) (hdone : m.pending = []) :
    runSerial s (log.map (·.2)) = .ok m.store := by
  have hsettled : m.settled = m.store := by rw [Clients.settled, hdone]; rfl
  rw [← hsettled]
  exact h.serial

end Simulation

/-! ## Two interleaved clients -/

section Interleavings

variable {ι : Type} [DecidableEq ι] {m : Clients ι} {env : Env}

namespace Clients

theorem step_updateRead (i : ι) (env : Env) (id : Int) (patch : TaskPatch) (task : Task) (p : Patched)
    (hfree : m.free i = true) (htask : m.store.getRaw id = .ok task)
    (hp : preparePatch env task patch = .ok p) :
    m.step (.updateRead i env id patch) = some (m.setPhase i (.committing env id patch p), []) := by
  simp only [step, hfree, htask, hp, if_true]

theorem step_updateCommit (i : ι) {id : Int} {patch : TaskPatch} {p : Patched} (s : Store)
    (hphase : m.phase i = .committing env id patch p)
    (hs : commitUpdate env m.store patch p = .ok s) (hcancels : cancels p = false) :
    m.step (.updateCommit i) =
      some ({ m.setPhase i .idle with store := s }, [(i, env, .update id patch)]) := by
  simp only [step, hphase, hs, hcancels]
  exact congrArg some (Prod.ext (congrArg (Clients.mk _ _) (List.append_nil _)) rfl)

theorem step_completeRead (i : ι) (env : Env) (id : Int) (task : Task) (hfree : m.free i = true)
    (htask : m.store.getRaw id = .ok task) (hopen : task.status ≠ .done) :
    m.step (.completeRead i env id) = some (m.setPhase i (.marking env task), []) := by
  simp only [step, hfree, htask, if_neg hopen, if_true]

theorem step_tailWrite (i : ι) (w : RowWrite) {ws : List RowWrite} {later : List (ι × Tail)}
    (hrest : m.rest i = (i, .writes (w :: ws)) :: later) :
    m.step (.tailWrite i) = some ({ m with
      store := w.apply m.store, pending := m.ahead i ++ tail i ws ++ later }, []) := by
  simp only [step, hrest]

/-- A commit that touches no edge, from a row that is as it was read. -/
theorem undisturbed_updateCommit {i : ι} {id : Int} {patch : TaskPatch} {p : Patched} (row : Task)
    (hphase : m.phase i = .committing env id patch p) (hrow : m.settled.getRaw id = .ok row)
    (hprep : preparePatch env row patch = .ok p) (hneeds : needsGraphCheck patch = false)
    (hcommutes : m.Commutes m.pending fun s => s.writeTask env.now p.1) :
    m.Undisturbed (.updateCommit i) := by
  simp only [Undisturbed, hphase]
  refine ⟨⟨row, p, hrow, hprep, rfl, p.1.updatedAt, rfl⟩, fun h => ?_, hcommutes⟩
  rw [hneeds] at h
  cases h

/-- A completion with nothing else pending. -/
theorem undisturbed_completeMark {i : ι} {task : Task} (hphase : m.phase i = .marking env task)
    (hpending : m.pending = []) (hrow : m.store.getRaw task.id = .ok task)
    (hopen : task.status ≠ .done)
    (hchildren : openChildren (m.store.loadScope task.scopeOf) task.id = []) :
    m.Undisturbed (.completeMark i) := by
  have hsettled : m.settled = m.store := by rw [settled, hpending]; rfl
  simp only [Undisturbed, hphase]
  refine ⟨⟨task, hsettled ▸ hrow, hopen, hsettled ▸ hchildren, hsettled ▸ rfl⟩, ?_⟩
  rw [hpending]
  rfl

/-- The first write of the earliest pending call. -/
theorem undisturbed_tailWrite {i : ι} (hahead : m.ahead i = []) :
    m.Undisturbed (.tailWrite i) := by
  simp only [Undisturbed, hahead]
  split
  · rfl
  · trivial

theorem step_completeMark (i : ι) {task : Task} (s : Store) (ids : List Int)
    (hphase : m.phase i = .marking env task) (hs : completeMark env.now m.store task = .ok s)
    (hids : autoComplete (m.store.loadScope task.scopeOf) task = ids) :
    m.step (.completeMark i) = some ({ m.setPhase i .idle with
      store := s, pending := m.pending ++ tail i (ids.map (RowWrite.done env.now)) },
      [(i, env, .complete task.id)]) := by
  simp only [step, hphase, hs, hids]

end Clients

theorem perm_pair {α : Type} {l : List α} {a b : α} (h : l.Perm [a, b]) : l = [a, b] ∨ l = [b, a] := by
  obtain ⟨x, y, rfl⟩ := List.length_eq_two.mp h.length_eq
  rcases List.mem_pair.mp (h.subset List.mem_cons_self) with rfl | rfl
  · exact .inl (congrArg _ (List.perm_singleton.mp ((List.perm_cons _).mp h)))
  · exact .inr (congrArg _ (List.perm_singleton.mp ((List.perm_cons _).mp (h.trans (.swap _ _ _)))))

def retitled : TaskPatch := { title := some "B" }
def raised : TaskPatch := { priority := some 1 }

/-- While one client retitles a task, another completes a subtask elsewhere and then its parent;
the new title is written between those two writes. -/
theorem calls_serialize_elsewhere :
    let b := sampleRow 3 "B" none []
    let a := markedDone sampleEnv.now (sampleRow 1 "A" none [])
    let a1 := markedDone sampleEnv.now (sampleRow 2 "A1" (some 1) [])
    runSerial ⟨[sampleRow 1 "A" none [], sampleRow 2 "A1" (some 1) [], sampleRow 3 "A2" none []], 3⟩
      [(sampleEnv, .complete 2), (sampleEnv, .update 3 retitled)] = .ok ⟨[a, a1, b], 3⟩ := by
  intro b a a1
  let s : Store := ⟨[sampleRow 1 "A" none [], sampleRow 2 "A1" (some 1) [], sampleRow 3 "A2" none []], 3⟩
  let b' : Patched := ({ sampleRow 3 "A2" none [] with title := "B" }, ["title"])
  have h0 : Run Clients.Undisturbed s [] (Clients.start s : Clients Bool) := .start
  have h1 := h0.next (.updateRead false sampleEnv 3 retitled) (Clients.step_updateRead false
    sampleEnv 3 retitled (sampleRow 3 "A2" none []) b' (by rfl) (by decide)
    (by decide)) trivial
  have h2 := h1.next (.completeRead true sampleEnv 2) (Clients.step_completeRead true sampleEnv 2
    (sampleRow 2 "A1" (some 1) []) (by rfl) (by decide) (by decide))
    fun task htask hdone => by
      obtain rfl : sampleRow 2 "A1" (some 1) [] = task := Except.ok.inj htask
      cases hdone
  have h3 := h2.next (.completeMark true) (Clients.step_completeMark true
    ⟨[sampleRow 1 "A" none [], a1, sampleRow 3 "A2" none []], 3⟩ [1] (by rfl) (by decide)
    (by decide)) (Clients.undisturbed_completeMark (by rfl) rfl (by decide)
      (by decide) (by decide))
  have h4 := h3.next (.updateCommit false) (Clients.step_updateCommit false
    ⟨[sampleRow 1 "A" none [], a1, b], 3⟩ (by rfl) (by decide) (by decide))
    (Clients.undisturbed_updateCommit (sampleRow 3 "A2" none []) (by rfl) (by decide)
      (by decide) (by decide) (by rfl))
  have h5 := h4.next (.tailWrite true) (Clients.step_tailWrite true (.done sampleEnv.now 1) (by rfl))
    (Clients.undisturbed_tailWrite (by rfl))
  exact calls_serialize s _ _ h5 rfl

/-- One client retitles the task, the other raises its priority, each from the row before either
wrote it: both calls succeed and the new title is gone. -/
theorem title_lost_to_priority : ∃ (s : Store) (sc : Scope) (log : List (Bool × Call))
    (m : Clients Bool), Reachable (fun _ _ _ => True) s ∧ Run (fun _ _ => True) s log m ∧
      (∀ i, m.phase i = .idle) ∧ m.pending = [] ∧
      ∀ order : List (Bool × Call), order.Perm log → ∀ s', runSerial s (order.map (·.2)) = .ok s' →
        s'.loadScope sc ≠ m.store.loadScope sc := by
  let s : Store := ⟨[sampleRow 1 "A" none []], 1⟩
  let a : Task := sampleRow 1 "A" none []
  let both : List (Bool × Call) :=
    [(false, sampleEnv, .update 1 retitled), (true, sampleEnv, .update 1 raised)]
  have hreach : Reachable (fun _ _ _ => True) s :=
    Reachable.call .refl sampleEnv (.create (sampleTask "A" none [])) trivial (by decide)
  have h0 : Run (fun _ _ => True) s [] (Clients.start s : Clients Bool) := .start
  have h1 := h0.step trivial (Clients.step_updateRead false sampleEnv 1 retitled a
    ({ a with title := "B" }, ["title"]) (by rfl) (by decide) (by decide))
  have h2 := h1.step trivial (Clients.step_updateRead true sampleEnv 1 raised a
    ({ a with priority := 1 }, ["priority"]) (by rfl) (by decide) (by decide))
  have h3 := h2.step trivial (Clients.step_updateCommit false ⟨[{ a with title := "B" }], 1⟩
    (by rfl) (by decide) (by decide))
  have h4 := h3.step trivial (Clients.step_updateCommit true ⟨[{ a with priority := 1 }], 1⟩
    (by rfl) (by decide) (by decide))
  refine ⟨s, sampleScope, both, _, hreach, h4, ?_, rfl, ?_⟩
  · intro i
    cases i <;> rfl
  · intro order hperm s' hserial
    rcases perm_pair hperm with rfl | rfl
    · obtain rfl : (⟨[{ a with title := "B", priority := 1 }], 1⟩ : Store) = s' := by
        refine Except.ok.inj (Eq.trans (Eq.symm ?_) hserial)
        decide
      decide
    · obtain rfl : (⟨[{ a with title := "B", priority := 1 }], 1⟩ : Store) = s' := by
        refine Except.ok.inj (Eq.trans (Eq.symm ?_) hserial)
        decide
      decide

end Interleavings

end Nanna.Tasks
