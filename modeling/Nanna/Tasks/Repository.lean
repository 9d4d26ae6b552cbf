import Mathlib.Data.List.Sort
import Nanna.Tasks.Graph
import Nanna.Tasks.Validate

/-!
# The repository's operations

Every public operation as a function on the store, each built from the sections the source runs
under one connection guard (`commitUpdate`, `completeMark`, …), so that the interleaved model can
reuse them. The activity log, notes and lifecycle events are left out: no operation reads them.
`list`, `next_admitted` and `clear` take the scope after `normalize_scope`.
-/

namespace Nanna.Tasks

open Nanna.Lib

/-! ## Reading -/

def isOpen (task : Task) : Bool := !task.status.isClosed

def isBlocked (task : Task) (rows : List Task) : Bool :=
  task.dependsOn.any fun dep =>
    match findTask rows dep with
    | some t => isOpen t
    | none => false

/-- `get`: the row with its derived `blocked` flag. -/
def get (s : Store) (id : Int) : Result Task := do
  let task ← s.getRaw id
  if task.dependsOn = [] then .ok task
  else .ok { task with blocked := isBlocked task (s.loadScope task.scopeOf) }

/-- The order of `list`: by `(sort_order, id)`. -/
def listLe (a b : Task) : Prop := a.sortOrder < b.sortOrder ∨ a.sortOrder = b.sortOrder ∧ a.id ≤ b.id

instance : DecidableRel listLe := fun _ _ => inferInstanceAs (Decidable (_ ∨ _))

def list (s : Store) (sc : Scope) (includeClosed : Bool) : List Task :=
  let rows := s.loadScope sc
  let tasks := rows.map fun task => { task with blocked := isBlocked task rows }
  let tasks := if includeClosed then tasks else tasks.filter isOpen
  tasks.insertionSort listLe

/-! ## The next task -/

/-- The open parents: `open_children` of the source. -/
def openParents (tasks : List Task) : List Int := tasks.filterMap (·.parentId)

/-- The ladder depth over the open tasks, bounded by their number. -/
def depthOfFrom (tasks : List Task) : Nat → Int → Nat
  | 0, _ => 0
  | fuel + 1, id =>
    match parentOf tasks id with
    | none => 0
    | some p => depthOfFrom tasks fuel p + 1

def depthOf (tasks : List Task) (id : Int) : Nat := depthOfFrom tasks tasks.length id

def compareDue : Option String → Option String → Ordering
  | some x, some y => compare x y
  | some _, none => .lt
  | none, some _ => .gt
  | none, none => .eq

/-- The order of the candidates: resume first, then shallow, urgent, due, explicit order, id. -/
def compareCandidates (tasks : List Task) (a b : Task) : Ordering :=
  (compare (if a.status = .inProgress then 0 else 1) (if b.status = .inProgress then 0 else 1)).then <|
  (compare (depthOf tasks a.id - 1) (depthOf tasks b.id - 1)).then <|
  (compare a.priority b.priority).then <|
  (compareDue a.dueAt b.dueAt).then <|
  (compare a.sortOrder b.sortOrder).then <|
  compare a.id b.id

def candidates (tasks : List Task) (accepts : Task → Bool) : List Task :=
  tasks.filter fun t => !t.blocked && t.id ∉ openParents tasks && accepts t

def nextAdmitted (s : Store) (sc : Scope) (accepts : Task → Bool) : Option Task :=
  let tasks := list s sc false
  ((candidates tasks accepts).insertionSort fun a b => compareCandidates tasks a b ≠ .gt).head?

/-! ## Create -/

/-- The checks on the request alone, and the canonical acceptance. -/
def admitNewTask (env : Env) (new : NewTask) : Result NewTask := do
  validateNewTaskFields new
  let acceptance ← admitOption env new.acceptance
  .ok { new with acceptance }

def checkNewParent (rows : List Task) (parentId : Option Int) : Result Unit :=
  match parentId with
  | none => .ok ()
  | some parentId =>
    match findTask rows parentId with
    | none => .error (.invalid s!"parent task #{parentId} not found in scope")
    | some parent =>
      if parent.status.isClosed then
        .error (.invalid s!"cannot add a child to {parent.status.asStr} task #{parentId}")
      else do
        let depth ← parentDepth rows parentId
        if depth + 1 ≥ taskDepthMax then
          .error (.invalid s!"hierarchy depth limit {taskDepthMax} reached")
        else .ok ()

def checkNewDependency (rows : List Task) (dep : Int) : Result Unit :=
  if (findTask rows dep).isSome then .ok ()
  else .error (.invalid s!"dependency task #{dep} not found in scope")

/-- The checks of `create` against the scope. -/
def checkCreate (rows : List Task) (new : NewTask) : Result Unit := do
  checkIf (rows.length ≥ tasksPerScopeMax)
    (.error (.invalid s!"scope already holds {tasksPerScopeMax} tasks"))
  checkNewParent rows new.parentId
  forAll (checkNewDependency rows) new.dependsOn
  checkIf (new.parentId.isSome && new.dependsOn ≠ [])
    (checkAncestorDependency rows (ancestorChain rows new.parentId) new.dependsOn)

/-- The guarded section of `create`. -/
def createInsert (env : Env) (s : Store) (new : NewTask) : Result Store := do
  ensureMemberExists env new.assignee "assignee"
  .ok (s.insert env.now new)

def create (env : Env) (s : Store) (new : NewTask) : Result (Store × Task) := do
  let new ← admitNewTask env new
  checkCreate (s.loadScope (new.scope, new.scopeId)) new
  let s' ← createInsert env s new
  .ok (s', new.toRow s'.seq env.now)

/-! ## Update -/

/-- The patched row and its changed fields, dates checked. -/
def preparePatch (env : Env) (task : Task) (patch : TaskPatch) : Result Patched := do
  let (task, changed) ← applyPatch env task patch
  validateDates task.dueAt task.deadlineAt
  .ok (task, changed)

def needsGraphCheck (patch : TaskPatch) : Bool := patch.dependsOn.isSome || patch.parentId.isSome

/-- The guarded section of `update`: validate and write. -/
def commitUpdate (env : Env) (s : Store) (patch : TaskPatch) (p : Patched) : Result Store := do
  checkIf ("assignee" ∈ p.2) (ensureMemberExists env p.1.assignee "assignee")
  checkIf (needsGraphCheck patch)
    (checkGraphUpdate (putTask (s.loadScope p.1.scopeOf) p.1) p.1 patch.parentId.isSome)
  .ok (s.writeTask env.now p.1)

/-- `acceptance_of.get(&current)` is absent or differs from the child's. -/
def differsFromParent (rows : List Task) (task : Task) (current : Int) (child : Task) : Bool :=
  if current = task.id then !Json.sameOption task.acceptance child.acceptance
  else
    match findTask rows current with
    | some parent => !Json.sameOption parent.acceptance child.acceptance
    | none => true

/-- An open child with an acceptance check of its own, not its parent's. -/
def ownContract (rows : List Task) (task : Task) (current : Int) (child : Task) : Bool :=
  isOpen child && child.acceptance.isSome && differsFromParent rows task current child

/-- The state of the walk of `cascade_cancel`. -/
structure Cascade where
  queue : List Int
  seen : List Int
  /-- The rows written so far, in order. -/
  writes : List Task

/-- The body of the inner loop. -/
def cascadeChild (rows : List Task) (task : Task) (current : Int) (c : Cascade) (t : Task) :
    Cascade :=
  if t.parentId = some current ∧ t.id ∉ c.seen then
    let seen := t.id :: c.seen
    if ownContract rows task current t then
      -- its subtree moves with it: no descent
      { c with seen, writes := c.writes ++ [{ t with parentId := task.parentId }] }
    else
      { queue := c.queue ++ [t.id], seen,
        writes := if isOpen t then c.writes ++ [{ t with status := .cancelled }] else c.writes }
  else c

def cascadeFrom (rows : List Task) (task : Task) : Nat → Cascade → Cascade
  | 0, c => c
  | fuel + 1, c =>
    match c.queue with
    | [] => c
    | current :: queue =>
      cascadeFrom rows task fuel (rows.foldl (cascadeChild rows task current) { c with queue })

/-- The rows `cascade_cancel` writes, in order. -/
def cascadePlan (rows : List Task) (task : Task) : List Task :=
  (cascadeFrom rows task (rows.length + 1) ⟨[task.id], [task.id], []⟩).writes

/-- One `write_task` per row. -/
def Store.writeAll (s : Store) (now : String) (writes : List Task) : Store :=
  writes.foldl (fun s task => s.writeTask now task) s

def cascadeCancel (now : String) (s : Store) (task : Task) : Store :=
  s.writeAll now (cascadePlan (s.loadScope task.scopeOf) task)

/-- The update of `update` is a cancellation to cascade. -/
def cancels (p : Patched) : Bool := "status" ∈ p.2 && p.1.status = .cancelled

def update (env : Env) (s : Store) (id : Int) (patch : TaskPatch) : Result (Store × Task) := do
  let task ← s.getRaw id
  let p ← preparePatch env task patch
  let s ← commitUpdate env s patch p
  let s := if cancels p then cascadeCancel env.now s p.1 else s
  let task ← get s id
  .ok (s, task)

/-! ## Complete and reopen -/

structure CompleteOutcome where
  task : Task
  autoCompleted : List Int
  alreadyDone : Bool

def openChildren (rows : List Task) (id : Int) : List Int :=
  (rows.filter fun t => t.parentId = some id && isOpen t).map (·.id)

/-- The guarded section of `complete`: check, then mark. -/
def completeMark (now : String) (s : Store) (task : Task) : Result Store :=
  let children := openChildren (s.loadScope task.scopeOf) task.id
  if children ≠ [] then
    .error (.invalid s!"task #{task.id} has open children {children}; complete them first")
  else .ok (s.markDone now task.id)

def autoCompleteFrom (rows : List Task) : Nat → List Int → Option Int → List Int
  | 0, _, _ => []
  | _ + 1, _, none => []
  | fuel + 1, closed, some parentId =>
    match findTask rows parentId with
    | none => []
    | some parent =>
      if parentId ∈ closed ∨ parent.acceptance.isSome then []
      else if (rows.filter (·.parentId = some parentId)).all (·.id ∈ closed) then
        parentId :: autoCompleteFrom rows fuel (parentId :: closed) parent.parentId
      else []

/-- The ancestors `complete` closes after marking `task`, nearest first. -/
def autoComplete (rows : List Task) (task : Task) : List Int :=
  autoCompleteFrom rows taskDepthMax
    (task.id :: (rows.filter (·.status.isClosed)).map (·.id)) task.parentId

/-- One `mark_done` per id. -/
def Store.markAllDone (s : Store) (now : String) (ids : List Int) : Store :=
  ids.foldl (fun s id => s.markDone now id) s

def complete (env : Env) (s : Store) (id : Int) : Result (Store × CompleteOutcome) := do
  let task ← s.getRaw id
  if task.status = .done then .ok (s, ⟨task, [], true⟩)
  else do
    let s' ← completeMark env.now s task
    -- the rows read under the guard, before the mark
    let auto := autoComplete (s.loadScope task.scopeOf) task
    let s' := s'.markAllDone env.now auto
    let task ← s'.getRaw id
    .ok (s', ⟨task, auto, false⟩)

def reopen (env : Env) (s : Store) (id : Int) : Result (Store × Task) := do
  let task ← s.getRaw id
  if task.status.isClosed then do
    let s' := s.markReopened env.now id
    let reopened ← s'.getRaw id
    .ok (s', reopened)
  else .ok (s, task)

/-! ## Delete and clear -/

/-- The rows that named a deleted task, without those names. -/
def strippedRows (rows : List Task) (doomed : List Int) : List Task :=
  (rows.filter fun t => t.id ∉ doomed && t.dependsOn.any (· ∈ doomed)).map fun t =>
    { t with dependsOn := t.dependsOn.filter (· ∉ doomed) }

def Store.deleteAll (s : Store) (doomed : List Int) : Store :=
  { s with tasks := s.tasks.filter (·.id ∉ doomed) }

def delete (env : Env) (s : Store) (id : Int) : Result (Store × Nat) := do
  let task ← s.getRaw id
  let rows := s.loadScope task.scopeOf
  let doomed := subtreeIdsFrom rows id
  .ok ((s.deleteAll doomed).writeAll env.now (strippedRows rows doomed), doomed.length)

def hasOpenDescendant (rows : List Task) (id : Int) : Bool :=
  (subtreeIdsFrom rows id).any fun member =>
    member ≠ id &&
      match findTask rows member with
      | some t => isOpen t
      | none => false

/-- One target of `clear`; the subtree may be gone already. -/
def clearTarget (env : Env) (rows : List Task) (closedOnly : Bool) (acc : Store × Nat)
    (target : Task) : Result (Store × Nat) :=
  if closedOnly && hasOpenDescendant rows target.id then .ok acc
  else
    match acc.1.getRaw target.id with
    | .error _ => .ok acc
    | .ok _ => do
      let (s, n) ← delete env acc.1 target.id
      .ok (s, acc.2 + n)

/-- The targets of `clear`, children before parents. -/
def clearTargets (rows : List Task) (closedOnly : Bool) : List Task :=
  (rows.filter fun t => !closedOnly || t.status.isClosed).insertionSort fun a b =>
    parentDepthLenient rows b.id ≤ parentDepthLenient rows a.id

def clear (env : Env) (s : Store) (sc : Scope) (closedOnly : Bool) : Result (Store × Nat) :=
  let rows := s.loadScope sc
  (clearTargets rows closedOnly).foldlM (clearTarget env rows closedOnly) (s, 0)

/-! ## Calls and runs -/

/-- A call of the repository that writes tasks. -/
inductive Op
  | create (new : NewTask)
  | update (id : Int) (patch : TaskPatch)
  | complete (id : Int)
  | reopen (id : Int)
  | delete (id : Int)
  | clear (sc : Scope) (closedOnly : Bool)

/-- The store after the call, run atomically, if it succeeds. -/
def Op.run (env : Env) (s : Store) : Op → Result Store
  | create new => (·.1) <$> Tasks.create env s new
  | update id patch => (·.1) <$> Tasks.update env s id patch
  | complete id => (·.1) <$> Tasks.complete env s id
  | reopen id => (·.1) <$> Tasks.reopen env s id
  | delete id => (·.1) <$> Tasks.delete env s id
  | clear sc closedOnly => (·.1) <$> Tasks.clear env s sc closedOnly

/-- A list of calls, each run on what the one before left. -/
def Op.runAll (env : Env) : Store → List Op → Result Store
  | s, [] => .ok s
  | s, op :: ops => do
    let s ← op.run env s
    Op.runAll env s ops

/-- One successful call that meets `ok`. -/
def Step (ok : Env → Store → Op → Prop) (s s' : Store) : Prop :=
  ∃ env op, ok env s op ∧ op.run env s = .ok s'

/-- What runs whose calls all meet `ok` reach from the empty store. -/
def Reachable (ok : Env → Store → Op → Prop) (s : Store) : Prop :=
  Relation.ReflTransGen (Step ok) Store.empty s

/-- What one call keeps, a run keeps. -/
theorem Reachable.invariant {ok : Env → Store → Op → Prop} {I : Store → Prop}
    (hempty : I Store.empty)
    (hstep : ∀ {env s op s'}, ok env s op → op.run env s = .ok s' → I s → I s') {s : Store}
    (h : Reachable ok s) : I s := by
  induction h with
  | refl => exact hempty
  | tail _ hs ih =>
    obtain ⟨env, op, hok, hrun⟩ := hs
    exact hstep hok hrun ih

theorem Reachable.call {ok : Env → Store → Op → Prop} {s s' : Store} (hs : Reachable ok s)
    (env : Env) (op : Op) (hok : ok env s op) (h : op.run env s = .ok s') : Reachable ok s' :=
  hs.tail ⟨env, op, hok, h⟩

/-- A list of calls that all succeed is a run. -/
theorem Reachable.runAll {env : Env} {s s' : Store} (hs : Reachable (fun _ _ _ => True) s) :
    ∀ {ops : List Op}, Op.runAll env s ops = .ok s' → Reachable (fun _ _ _ => True) s' := by
  intro ops
  induction ops generalizing s with
  | nil =>
    intro h
    cases h
    exact hs
  | cons op ops ih =>
    intro h
    obtain ⟨s₁, hop, h⟩ := bind_eq_ok.mp h
    exact ih (hs.call env op trivial hop) h

/-! ## Sample calls -/

def sampleEnv : Env := ⟨"2026-08-08 12:00:00", [], .ok⟩

/-- A task of the session `s`. -/
def sampleTask (title : String) (parentId : Option Int) (dependsOn : List Int) : NewTask :=
  { scope := "session", scopeId := some "s", title, priority := 3, parentId, dependsOn }

def sampleRow (id : Int) (title : String) (parentId : Option Int) (dependsOn : List Int) : Task :=
  (sampleTask title parentId dependsOn).toRow id sampleEnv.now

def sampleScope : Scope := ("session", some "s")

end Nanna.Tasks
