import Nanna.Daemon.Params
import Nanna.Tasks.Repository

/-!
# The task services

What the model can do to the task list: `tasks.add`, `tasks.update`, `tasks.done`, `tasks.note`,
`tasks.remove` and `tasks.clear`, each one call on the store, with its reply or its error. A call that
fails leaves the store as it is. Notes are not part of the store here.
-/

namespace Nanna.Daemon

open Nanna.Lib Nanna.Tasks Nanna.Harness

/-- What a call takes from outside the store and its parameters. -/
structure ServiceEnv where
  tasks : Env
  reading : Reading
  workspaceId : Option String
  /-- The tasks that were closed when the live turn of a scope began. -/
  baseline : Scope → Option (List Int)
  /-- A live turn admits tasks of a scope one by one. -/
  admits : Scope → Bool
  /-- The run of a check in a directory. -/
  runCheck : AcceptanceCheck → String → AcceptanceVerdict

/-- `StorageError::to_string` -/
def errStr : StorageError → String
  | .invalid msg => "Invalid: " ++ msg
  | .notFound msg => "Not found: " ++ msg

def stored {α : Type} : Result α → Except String α
  | .ok a => .ok a
  | .error e => .error (errStr e)

variable (env : ServiceEnv) (s : Store) (params : Json)

def resolveScope : Except String Scope :=
  let scope := String.ofList
    (env.reading.toLower (((params.get "scope").bind (·.asStr)).getD "session").toList)
  if scope = "session" then
    match optString params "session_id" with
    | some sessionId => .ok ("session", some sessionId)
    | none => .error
      ("session scope needs a session id and this caller has none — pass session_id explicitly, or " ++
        "use scope 'workspace' (the active workspace) or scope 'global'")
  else if scope = "workspace" then
    match env.workspaceId with
    | some ws => .ok ("workspace", some ws)
    | none => .error "workspace scope requires an active workspace"
  else if scope = "global" then .ok ("global", none)
  else .error s!"unknown scope '{scope}'"

/-! ## Titles -/

def foldPlural (word : Text) : Text :=
  if 3 ≤ Text.byteLen word ∧ word.getLast? = some 's' ∧ ¬ "ss".toList.isSuffixOf word then word.dropLast
  else word

/-- The words of a title, in order. -/
def titleTokens (reading : Reading) (title : String) : List Text :=
  ((title.toList.splitOnP fun c => ! reading.dialect.isAlphanumeric c).filter (· ≠ [])).map
    fun word => foldPlural (reading.toLower word)

def sameTitle (reading : Reading) (a b : String) : Bool :=
  let left := titleTokens reading a
  let right := titleTokens reading b
  if left.isEmpty || right.isEmpty then
    (Text.trim a.toList).map Char.toLower = (Text.trim b.toList).map Char.toLower
  else left = right

/-! ## Add -/

/-- The scope of a new task, and the order and the check of its parent. -/
def addPlace : Option Int → Except String (Scope × Option Int × Option Json)
  | some parentId => do
    let parent ← stored (get s parentId)
    .ok (parent.scopeOf, some parent.sortOrder, parent.acceptance)
  | none => do
    let scope ← resolveScope env params
    .ok (scope, none, none)

def tasksClosedSince (scope : Scope) (baseline : List Int) : List Task :=
  (list s scope true).filter fun t => t.status.isClosed && t.id ∉ baseline

/-- The task of this title that the live turn closed. -/
def closedThisTurn (scope : Scope) (title : String) : Option Task :=
  (env.baseline scope).bind fun baseline =>
    (tasksClosedSince s scope baseline).find? fun t => sameTitle env.reading t.title title

def addSortOrder (parentSort : Option Int) (scope : Scope) : Except String Int := do
  let explicit ← optI64 env.reading params "sort_order"
  .ok (explicit.getD (parentSort.getD
    (min ((((list s scope true).map (·.sortOrder)).max?.getD 0) + 1) i64Max)))

def ladderNudgeDepth : Nat := 2

def siblingNudgeAt : Nat := 4

/-- The hops up from a parent, six at most. -/
def ladderDepthFrom : Nat → List Int → Option Int → Nat
  | 0, _, _ => 0
  | _ + 1, _, none => 0
  | fuel + 1, seen, some id =>
    if id ∈ seen then 0
    else
      ladderDepthFrom fuel (id :: seen) (match s.getRaw id with
        | .ok parent => parent.parentId
        | .error _ => none) + 1

def ladderDepth (parentId : Option Int) : Nat := ladderDepthFrom s 6 [] parentId

def depthNote (depth : Nat) : List String :=
  if ladderNudgeDepth < depth then
    [s!"STOP SPLITTING: this item sits at planning depth {depth} (a subtask of a subtask " ++
      "             of a subtask). Every level of decomposition here has produced more planning, " ++
      "not              more working code. Execute this item's work in your very next step."]
  else if ladderNudgeDepth ≤ depth then
    [s!"Note: this is a subtask of a subtask (planning depth {depth}). Planning is not " ++
      "             progress — in your next step, DO the work for this item directly instead of " ++
      "             splitting it again."]
  else []

def siblingNote (openSiblings : Nat) (parentId : Option Int) : List String :=
  match parentId with
  | some parent =>
    if siblingNudgeAt ≤ openSiblings then
      [s!"Parent task #{parent} now has {openSiblings + 1} open subtasks. Finish and verify some " ++
        "of them              before adding more."]
    else []
  | none => []

def decompositionNote (depth openSiblings : Nat) (parentId : Option Int) : Option String :=
  match depthNote depth ++ siblingNote openSiblings parentId with
  | [] => none
  | parts => some (" ".intercalate parts)

inductive AddReply where
  | created (task : Task) (note : Option String)
  /-- The open task of the same title; whether the live turn was made to admit it. -/
  | reused (task : Task) (adopted : Bool)
  | closedThisTurn (task : Task)

def AddReply.note : AddReply → Option String
  | created _ note => note
  | reused task _ =>
    some (s!"Task #{task.id} \"{task.title}\" already exists and is still open — reusing it instead " ++
      "of creating a duplicate. Work on it rather than planning it again.")
  | closedThisTurn task =>
    let verdict := if task.status = .cancelled then "abandoned" else "completed"
    some (s!"NOT created: \"{task.title}\" was already {verdict} earlier in this same turn. " ++
      "Re-creating it would restart work this run has already settled, which is how a " ++
      "turn spins instead of finishing. Nothing was written and nothing was lost — the " ++
      "earlier task's outcome stands. Move on to the next piece of the goal, or add a " ++
      "task whose title describes genuinely different work. If the earlier attempt was " ++
      "wrong, say so in your answer rather than silently redoing it.")

/-- The task a call asks for, once it is clear that it is new. -/
def newTask (parentId : Option Int) (scope : Scope) (parentSort : Option Int)
    (parentAcceptance : Option Json) (title : String) : Except String NewTask := do
  let sortOrder ← addSortOrder env s params parentSort scope
  let priority ← optI64 env.reading params "priority"
  let labels ← optStringVec env.reading params "labels"
  let toolScope ← optStringVec env.reading params "tools"
  let dependsOn ← optI64Vec env.reading params "depends_on"
  let acceptance ← canonicalAcceptance env.reading params
  .ok {
    parentId, scope := scope.1, scopeId := scope.2, project := optString params "project", title
    description := optString params "description"
    -- priority 1 is the user's
    priority := max (priority.getD 3) 2
    labels := labels.getD [], toolScope := toolScope.getD []
    dueAt := optString params "due_at", deadlineAt := optString params "deadline_at"
    recurrence := optString params "recurrence", dependsOn := dependsOn.getD []
    acceptance := acceptance.or parentAcceptance, assignee := optString params "assignee"
    sortOrder }

def taskAddService : Except String (Store × AddReply) := do
  let parentId ← optI64 env.reading params "parent_id"
  let (scope, parentSort, parentAcceptance) ← addPlace env s params parentId
  let title ← orError "title is required" ((optString params "title").or (optString params "text"))
  let openItems := list s scope false
  match openItems.find? fun t => t.parentId = parentId && sameTitle env.reading t.title title with
  | some existing => .ok (s, .reused existing (env.admits scope))
  | none =>
    match closedThisTurn env s scope title with
    | some closed => .ok (s, .closedThisTurn closed)
    | none => do
      let new ← newTask env s params parentId scope parentSort parentAcceptance title
      let openSiblings := match parentId with
        | some pid => (openItems.filter (·.parentId = some pid)).length
        | none => 0
      let note := decompositionNote (ladderDepth s parentId) openSiblings parentId
      let (s', task) ← stored (create env.tasks s new)
      .ok (s', .created task note)

/-! ## Update -/

/-- Nothing clears a field: what is absent or null is skipped. -/
def updatePatch : Except String TaskPatch := do
  let priority ← optI64 env.reading params "priority"
  let labels ← optStringVec env.reading params "labels"
  let toolScope ← optStringVec env.reading params "tools"
  let dependsOn ← optI64Vec env.reading params "depends_on"
  let acceptance ← canonicalAcceptance env.reading params
  let parentId ← optI64 env.reading params "parent_id"
  let sortOrder ← optI64 env.reading params "sort_order"
  .ok {
    title := (optString params "title").or (optString params "text")
    description := optField params "description", status := optString params "status"
    priority := priority.map (max · 2), labels, toolScope, dueAt := optField params "due_at"
    deadlineAt := optField params "deadline_at", recurrence := optField params "recurrence"
    dependsOn, acceptance := acceptance.map some, assignee := optField params "assignee"
    parentId := parentId.map some, project := optField params "project", sortOrder }

def taskUpdateService : Except String (Store × Task) := do
  let id ← reqI64 env.reading params "id"
  let patch ← updatePatch env params
  stored (update env.tasks s id patch)

/-! ## Done -/

inductive DoneReply where
  | failed (id : Int) (verdict : Text)
  | done (verdict : Option Text) (refocus : Option String) (alreadyDone : Bool)
      (autoCompleted : List Int)

def DoneReply.message : DoneReply → Option String
  | failed id verdict =>
    some (s!"Acceptance check failed — task #{id} is NOT done: " ++ String.ofList verdict)
  | done .. => none

/-- The goal that a finished subtask serves. -/
def refocus (parentId : Option Int) : Option String :=
  parentId.bind fun pid =>
    match get s pid with
    | .ok parent =>
      if parent.status.isClosed then none
      else some (s!"This was a subtask of #{parent.id} '{parent.title}'. If that goal is now " ++
        "satisfied, mark it done — its acceptance check will verify. Do not split it further.")
    | .error _ => none

/-- Close a task on a verdict, if its check gave one. -/
def finishTask (task : Task) (verdict : Option Text) : Except String (Store × DoneReply) := do
  let (s', outcome) ← stored (complete env.tasks s task.id)
  .ok (s', .done verdict (refocus s' task.parentId) outcome.alreadyDone outcome.autoCompleted)

def taskDoneService : Except String (Store × DoneReply) := do
  let id ← reqI64 env.reading params "id"
  let task ← stored (get s id)
  match task.acceptance with
  | some acceptance => do
    let check ← AcceptanceCheck.fromJson env.reading.dialect acceptance
    let verdict := env.runCheck check ((optString params "workdir").getD ".")
    if verdict.passed then finishTask env s task (some verdict.detail)
    else .ok (s, .failed id verdict.detail)
  | none => finishTask env s task none

/-! ## Note -/

def noteKinds : List String := ["comment", "progress", "question", "verdict"]

def taskNoteMaxBytes : Nat := 16 * 1024

/-- The checks of `post`. -/
def checkPost (id : Int) (authorMemberId : Option String) (content : String) : Result Unit := do
  let trimmed := Text.trim content.toList
  checkIf trimmed.isEmpty (.error (.invalid "note content is empty"))
  checkIf (taskNoteMaxBytes < Text.byteLen trimmed)
    (.error (.invalid s!"note exceeds {taskNoteMaxBytes} bytes (got {Text.byteLen trimmed})"))
  let _ ← s.getRaw id
  ensureMemberExists env.tasks authorMemberId "note author"

def taskNoteService : Except String (Store × Unit) := do
  let id ← reqI64 env.reading params "id"
  let content ← orError "content is required"
    ((optString params "content").or (optString params "text"))
  let kind := (optString params "kind").getD "comment"
  if kind ∈ noteKinds then do
    stored (checkPost env s id (optString params "author_member_id") content)
    .ok (s, ())
  else .error s!"unknown note kind '{kind}' (comment|progress|question|verdict)"

/-! ## Remove -/

inductive RemoveReply where
  | refused (task : Task)
  | removed (count : Nat)

def RemoveReply.note : RemoveReply → Option String
  | refused task =>
    some (s!"Task #{task.id} \"{task.title}\" has a machine-checkable acceptance check, so it is " ++
      "a commitment rather than scratch work and was NOT deleted — it is fully intact. If the work " ++
      "is finished, complete it (the check runs automatically). If it should not be done at all, " ++
      "set its status to cancelled. Either way the record survives.")
  | removed _ => none

def taskRemoveService : Except String (Store × RemoveReply) := do
  let id ← reqI64 env.reading params "id"
  let existing ← stored (get s id)
  if existing.acceptance.isSome then .ok (s, .refused existing)
  else do
    let (s', removed) ← stored (delete env.tasks s id)
    .ok (s', .removed removed)

/-! ## Clear -/

/-- The tasks with a check and all that are above them. -/
def protectedIds (all : List Task) : List Int :=
  markAll (parentOf all) (all.length + 2) ((all.filter (·.acceptance.isSome)).map (·.id)) []

structure ClearReply where
  removed : Nat
  kept : Nat

def ClearReply.note (reply : ClearReply) : String :=
  if 0 < reply.kept then
    s!"Cleared {reply.removed} scratch task(s). {reply.kept} task(s) carrying an acceptance " ++
      "contract were KEPT — they define what \"done\" means and are still intact. Complete or " ++
      "cancel those instead."
  else s!"Cleared {reply.removed} task(s)."

/-- One task of the list; its subtree may be gone already. -/
def clearOne (kept : List Int) (closedOnly : Bool) (acc : Store × Nat) (task : Task) : Store × Nat :=
  if task.id ∈ kept then acc
  else if closedOnly && ! task.status.isClosed then acc
  else
    match delete env.tasks acc.1 task.id with
    | .ok (s', count) => (s', acc.2 + count)
    | .error _ => acc

def taskClearService : Except String (Store × ClearReply) := do
  let scope ← resolveScope env params
  let closedOnly ← optBool env.reading params "closed_only"
  let all := list s scope true
  let kept := protectedIds all
  let (s', removed) := all.foldl (clearOne env kept (closedOnly.getD true)) (s, 0)
  .ok (s', ⟨removed, kept.length⟩)

/-! ## Calls -/

inductive ServiceCall where
  | add (params : Json)
  | update (params : Json)
  | done (params : Json)
  | note (params : Json)
  | remove (params : Json)
  | clear (params : Json)

/-- The store that a service leaves. -/
def leaves {α : Type} (s : Store) : Except String (Store × α) → Store
  | .ok (s', _) => s'
  | .error _ => s

def ServiceCall.run (env : ServiceEnv) (s : Store) : ServiceCall → Store
  | add params => leaves s (taskAddService env s params)
  | update params => leaves s (taskUpdateService env s params)
  | done params => leaves s (taskDoneService env s params)
  | note params => leaves s (taskNoteService env s params)
  | remove params => leaves s (taskRemoveService env s params)
  | clear params => leaves s (taskClearService env s params)

/-- Calls one after another, each with what it finds outside. -/
def runCalls (s : Store) (calls : List (ServiceEnv × ServiceCall)) : Store :=
  calls.foldl (fun s call => call.2.run call.1 s) s

end Nanna.Daemon
