import Nanna.Lib.Except
import Nanna.Lib.Json
import Nanna.Lib.Text

/-!
# The task table

The rows of the `tasks` table, the inputs of the repository, its errors, and the four raw
statements every operation is made of: read one row, load a scope, rewrite a row, insert a row.
Statuses are an enumeration (the code writes only these four); a rewrite leaves the columns the
`UPDATE` does not set. Ids come from an `AUTOINCREMENT` column, so `seq` only grows.
-/

namespace Nanna.Tasks

open Nanna.Lib (Json)

/-! ## Bounds -/

def taskTitleMaxBytes : Nat := 500
def taskDepsMax : Nat := 100
def taskDepthMax : Nat := 32
def tasksPerScopeMax : Nat := 10000

/-! ## Rows and inputs -/

inductive TaskStatus
  | pending
  | inProgress
  | done
  | cancelled
deriving DecidableEq

/-- The token stored in the `status` column. -/
def TaskStatus.asStr : TaskStatus → String
  | pending => "pending"
  | inProgress => "in_progress"
  | done => "done"
  | cancelled => "cancelled"

/-- `is_closed_status`. -/
def TaskStatus.isClosed : TaskStatus → Bool
  | done | cancelled => true
  | pending | inProgress => false

structure Task where
  id : Int
  parentId : Option Int
  scope : String
  scopeId : Option String
  project : Option String
  title : String
  description : Option String
  status : TaskStatus
  priority : Int
  labels : List String
  toolScope : List String
  dueAt : Option String
  deadlineAt : Option String
  recurrence : Option String
  dependsOn : List Int
  acceptance : Option Json
  assignee : Option String
  sortOrder : Int
  createdAt : String
  updatedAt : String
  completedAt : Option String
  /-- Derived at read time; rows hold `false`. -/
  blocked : Bool
  dueAnnouncedAt : Option String
  overdueAnnouncedAt : Option String
deriving DecidableEq

structure NewTask where
  parentId : Option Int := none
  scope : String := ""
  scopeId : Option String := none
  project : Option String := none
  title : String := ""
  description : Option String := none
  priority : Int := 0
  labels : List String := []
  toolScope : List String := []
  dueAt : Option String := none
  deadlineAt : Option String := none
  recurrence : Option String := none
  dependsOn : List Int := []
  acceptance : Option Json := none
  assignee : Option String := none
  sortOrder : Int := 0
deriving DecidableEq

/-- A partial update; a field that is `none` is left alone. -/
structure TaskPatch where
  parentId : Option (Option Int) := none
  project : Option (Option String) := none
  title : Option String := none
  description : Option (Option String) := none
  status : Option String := none
  priority : Option Int := none
  labels : Option (List String) := none
  toolScope : Option (List String) := none
  dueAt : Option (Option String) := none
  deadlineAt : Option (Option String) := none
  recurrence : Option (Option String) := none
  dependsOn : Option (List Int) := none
  acceptance : Option (Option Json) := none
  assignee : Option (Option String) := none
  sortOrder : Option Int := none
deriving DecidableEq

inductive StorageError
  | invalid (msg : String)
  | notFound (msg : String)
deriving DecidableEq

abbrev Result (α : Type) := Except StorageError α

/-- What a call takes from outside the table: the clock of its writes, the ids of the `members`
table, and the admission of an acceptance payload (`admit_acceptance`), which no statement here
looks into. -/
structure Env where
  now : String
  members : List String
  admitAcceptance : Json → Result Json

structure Store where
  tasks : List Task
  /-- The last id handed out. -/
  seq : Int
deriving DecidableEq

def Store.empty : Store := ⟨[], 0⟩

/-- A scope: the kind and, but for `global`, the session or workspace. -/
abbrev Scope := String × Option String

/-! ## Looking rows up -/

/-- The `by_id` map of a list of rows. -/
def findTask (rows : List Task) (id : Int) : Option Task := rows.find? (·.id = id)

/-- `by_id.insert(task.id, task)`. -/
def putTask (rows : List Task) (task : Task) : List Task :=
  if (findTask rows task.id).isSome then rows.map fun row => if row.id = task.id then task else row
  else rows ++ [task]

def Task.inScope (task : Task) (sc : Scope) : Bool := task.scope = sc.1 && task.scopeId = sc.2

def Task.scopeOf (task : Task) : Scope := (task.scope, task.scopeId)

/-- `load_scope`. -/
def Store.loadScope (s : Store) (sc : Scope) : List Task := s.tasks.filter (·.inScope sc)

/-- `get_raw`. -/
def Store.getRaw (s : Store) (id : Int) : Result Task :=
  match findTask s.tasks id with
  | some task => .ok task
  | none => .error (.notFound s!"Task: #{id}")

/-! ## Rewriting rows -/

/-- The row an `UPDATE` from `task` leaves: the columns it does not set stay. -/
def overwrite (now : String) (row task : Task) : Task :=
  { task with
    id := row.id, scope := row.scope, scopeId := row.scopeId, createdAt := row.createdAt,
    blocked := row.blocked, updatedAt := now }

/-- Apply `f` to the row with this id. -/
def Store.modify (s : Store) (id : Int) (f : Task → Task) : Store :=
  { s with tasks := s.tasks.map fun row => if row.id = id then f row else row }

/-- `write_task`. -/
def Store.writeTask (s : Store) (now : String) (task : Task) : Store :=
  s.modify task.id fun row => overwrite now row task

/-- The row `mark_done` leaves. -/
def markedDone (now : String) (row : Task) : Task :=
  { row with status := .done, completedAt := some now, updatedAt := now }

/-- `mark_done`. -/
def Store.markDone (s : Store) (now : String) (id : Int) : Store := s.modify id (markedDone now)

/-- The row the `UPDATE` of `reopen` leaves. -/
def reopened (now : String) (row : Task) : Task :=
  { row with
    status := .pending, completedAt := none, dueAnnouncedAt := none, overdueAnnouncedAt := none,
    updatedAt := now }

def Store.markReopened (s : Store) (now : String) (id : Int) : Store := s.modify id (reopened now)

/-- The row `INSERT INTO tasks` makes of a new task. -/
def NewTask.toRow (new : NewTask) (id : Int) (now : String) : Task :=
  { id, parentId := new.parentId, scope := new.scope, scopeId := new.scopeId,
    project := new.project, title := new.title, description := new.description,
    status := .pending, priority := new.priority, labels := new.labels,
    toolScope := new.toolScope, dueAt := new.dueAt, deadlineAt := new.deadlineAt,
    recurrence := new.recurrence, dependsOn := new.dependsOn, acceptance := new.acceptance,
    assignee := new.assignee, sortOrder := new.sortOrder, createdAt := now, updatedAt := now,
    completedAt := none, blocked := false, dueAnnouncedAt := none, overdueAnnouncedAt := none }

def Store.insert (s : Store) (now : String) (new : NewTask) : Store :=
  { s with tasks := s.tasks ++ [new.toRow (s.seq + 1) now], seq := s.seq + 1 }

/-! ## The reference to `members` -/

def ensureMemberExists (env : Env) (memberId : Option String) (role : String) : Result Unit :=
  match memberId with
  | none => .ok ()
  | some memberId =>
    if memberId ∈ env.members then .ok ()
    else .error (.invalid s!"{role} '{memberId}' is not a board member; create the member first")

end Nanna.Tasks
