import Nanna.Tasks.Types

/-!
# Field checks and the patch

The checks on a request's own fields, and `apply_patch`: one block per field, run in the source's
order over the patched row and the names of the changed fields. `applyPatch_spec` is what the
rest of the development uses of it: the blocks between the status and the dependencies leave the
row's place in the graph alone, so an accepted patch moves the row exactly where it says.
-/

namespace Nanna.Tasks

open Nanna.Lib

/-! ## Field checks -/

def validateScope (scope : String) (scopeId : Option String) : Result Unit :=
  match scope with
  | "session" | "workspace" =>
    if scopeId = none ∨ scopeId = some "" then
      .error (.invalid s!"scope '{scope}' requires a scope_id")
    else .ok ()
  | "global" =>
    if scopeId.isSome then .error (.invalid "scope 'global' must not carry a scope_id") else .ok ()
  | other => .error (.invalid s!"unknown scope '{other}' (expected session|workspace|global)")

def validateTitle (title : String) : Result Unit :=
  let trimmed := Text.trim title.toList
  if trimmed = [] then .error (.invalid "title is empty")
  else if Text.byteLen trimmed > taskTitleMaxBytes then
    .error (.invalid s!"title exceeds {taskTitleMaxBytes} bytes (got {Text.byteLen trimmed})")
  else .ok ()

def validatePriority (priority : Int) : Result Unit :=
  if 1 ≤ priority ∧ priority ≤ 4 then .ok ()
  else .error (.invalid s!"priority {priority} out of range 1..=4 (1 is highest)")

/-- The day part of an ISO date, which orders as text. -/
def dayOf (date : String) : Text := date.toList.take 10

def validateDates (dueAt deadlineAt : Option String) : Result Unit :=
  match dueAt, deadlineAt with
  | some defer, some deadline =>
    if dayOf deadline < dayOf defer then
      .error (.invalid
        s!"deadline {deadline} is before the defer date {defer}: the card would never be workable")
    else .ok ()
  | _, _ => .ok ()

def validateDeps (dependsOn : List Int) : Result Unit :=
  if dependsOn.length > taskDepsMax then
    .error (.invalid s!"too many dependencies: {dependsOn.length} (max {taskDepsMax})")
  else .ok ()

def validateNewTaskFields (new : NewTask) : Result Unit := do
  validateScope new.scope new.scopeId
  validateTitle new.title
  validatePriority new.priority
  validateDates new.dueAt new.deadlineAt
  validateDeps new.dependsOn

/-- An accepted title has a character that is not blank. -/
theorem validateTitle_ok {title : String} (h : validateTitle title = .ok ()) :
    Text.trim title.toList ≠ [] ∧ Text.byteLen (Text.trim title.toList) ≤ taskTitleMaxBytes := by
  simp only [validateTitle] at h
  split_ifs at h with hempty hlong
  exact ⟨hempty, by omega⟩

/-! ## The patch -/

/-- The row as patched so far, and the names of the fields that changed. -/
abbrev Patched := Task × List String

/-- `changed.push(name)` under a condition. -/
def note (changed : List String) (name : String) (differs : Bool) : List String :=
  if differs then changed ++ [name] else changed

/-- The statuses a patch may write. -/
def writableStatus : String → Result TaskStatus
  | "pending" => .ok .pending
  | "in_progress" => .ok .inProgress
  | "cancelled" => .ok .cancelled
  | "done" =>
    .error (.invalid
      "status 'done' is a verdict: use the complete/done action so the acceptance check can run")
  | "blocked" =>
    .error (.invalid ("'blocked' is derived from depends_on and cannot be set directly; " ++
      "add a dependency instead"))
  | other => .error (.invalid s!"unknown status '{other}'")

def applyStatusPatch (patch : TaskPatch) (p : Patched) : Result Patched :=
  match patch.status with
  | none => .ok p
  | some status => do
    let new ← writableStatus status
    .ok ({ p.1 with
            status := new
            -- reopening a closed task clears its completion stamp
            completedAt := if new = .cancelled then p.1.completedAt else none },
         note p.2 "status" (p.1.status ≠ new))

/-- One `if let Some(value) = patch.field` block: accept the value, name the field if `reports`
says so, set it. -/
def patchField {α : Type} (name : String) (field : Option α) (accept : α → Result α)
    (reports : Task → α → Bool) (set : Task → α → Task) (p : Patched) : Result Patched :=
  match field with
  | none => .ok p
  | some value => do
    let value ← accept value
    .ok (set p.1 value, note p.2 name (reports p.1 value))

/-- A check that lets the value through as it is. -/
def checked {α : Type} (check : α → Result Unit) (value : α) : Result α := do
  check value
  .ok value

/-- Canonicalize before storing; clearing the check needs no admission. -/
def admitOption (env : Env) : Option Json → Result (Option Json)
  | none => .ok none
  | some check => some <$> env.admitAcceptance check

def always {α : Type} (_ : Task) (_ : α) : Bool := true

/-- The blocks between the status and the dependencies. -/
def applyFields (env : Env) (patch : TaskPatch) (p : Patched) : Result Patched := do
  let p ← patchField "title" patch.title (checked validateTitle)
    (fun task title => task.title ≠ title) (fun task title => { task with title }) p
  let p ← patchField "description" patch.description .ok always
    (fun task description => { task with description }) p
  let p ← patchField "priority" patch.priority (checked validatePriority)
    (fun task priority => task.priority ≠ priority) (fun task priority => { task with priority }) p
  let p ← patchField "labels" patch.labels .ok always (fun task labels => { task with labels }) p
  let p ← patchField "tool_scope" patch.toolScope .ok always
    (fun task toolScope => { task with toolScope }) p
  -- a moved date can be announced again
  let p ← patchField "due_at" patch.dueAt .ok always
    (fun task dueAt =>
      { task with
        dueAt
        dueAnnouncedAt := if task.dueAt = dueAt then task.dueAnnouncedAt else none }) p
  let p ← patchField "recurrence" patch.recurrence .ok always
    (fun task recurrence => { task with recurrence }) p
  let p ← patchField "acceptance" patch.acceptance (admitOption env) always
    (fun task acceptance => { task with acceptance }) p
  let p ← patchField "deadline_at" patch.deadlineAt .ok always
    (fun task deadlineAt =>
      { task with
        deadlineAt
        overdueAnnouncedAt :=
          if task.deadlineAt = deadlineAt then task.overdueAnnouncedAt else none }) p
  let p ← patchField "assignee" patch.assignee .ok (fun task assignee => task.assignee ≠ assignee)
    (fun task assignee => { task with assignee }) p
  let p ← patchField "project" patch.project .ok always
    (fun task project => { task with project }) p
  patchField "sort_order" patch.sortOrder .ok (fun task sortOrder => task.sortOrder ≠ sortOrder)
    (fun task sortOrder => { task with sortOrder }) p

def applyPatch (env : Env) (task : Task) (patch : TaskPatch) : Result Patched := do
  let p ← applyStatusPatch patch (task, [])
  let p ← applyFields env patch p
  let p ← patchField "depends_on" patch.dependsOn (checked validateDeps) always
    (fun task dependsOn => { task with dependsOn }) p
  patchField "parent_id" patch.parentId .ok always (fun task parentId => { task with parentId }) p

/-! ## What an accepted patch does to the row's place -/

/-- Same row, same place in the graph. -/
structure SameNode (task task' : Task) : Prop where
  id : task'.id = task.id
  scopeOf : task'.scopeOf = task.scopeOf
  parentId : task'.parentId = task.parentId
  dependsOn : task'.dependsOn = task.dependsOn
  status : task'.status = task.status

/-- Same place, and the same word on whether the status changed. -/
def SamePlace (p q : Patched) : Prop := SameNode p.1 q.1 ∧ ("status" ∈ q.2 ↔ "status" ∈ p.2)

theorem SameNode.trans {a b c : Task} (h : SameNode a b) (h' : SameNode b c) : SameNode a c :=
  ⟨h'.id.trans h.id, h'.scopeOf.trans h.scopeOf, h'.parentId.trans h.parentId,
    h'.dependsOn.trans h.dependsOn, h'.status.trans h.status⟩

theorem SamePlace.trans {p q r : Patched} (h : SamePlace p q) (h' : SamePlace q r) :
    SamePlace p r :=
  ⟨h.1.trans h'.1, h'.2.trans h.2⟩

theorem mem_note {changed : List String} {name x : String} {differs : Bool} :
    x ∈ note changed name differs ↔ x ∈ changed ∨ differs = true ∧ x = name := by
  cases differs <;> simp [note]

section PatchField

variable {α : Type} {name : String} {field : Option α} {accept : α → Result α}
  {reports : Task → α → Bool} {set : Task → α → Task} {p q : Patched}

/-- A block leaves the row alone or sets one admitted value. -/
theorem patchField_ok (h : patchField name field accept reports set p = .ok q) :
    (field = none ∧ q = p) ∨ ∃ value value', field = some value ∧ accept value = .ok value' ∧
      q = (set p.1 value', note p.2 name (reports p.1 value')) := by
  cases field with
  | none =>
    cases h
    exact .inl ⟨rfl, rfl⟩
  | some value =>
    obtain ⟨value', haccept, h⟩ := bind_eq_ok.mp h
    cases h
    exact .inr ⟨value, value', rfl, haccept, rfl⟩

/-- A block that lets its value through sets it, or what was there. -/
theorem patchField_value (get : Task → α) (h : patchField name field accept reports set p = .ok q)
    (haccept : ∀ value value', accept value = .ok value' → value' = value)
    (hset : ∀ task, set task (get task) = task) : q.1 = set p.1 (field.getD (get p.1)) := by
  rcases patchField_ok h with ⟨rfl, rfl⟩ | ⟨value, value', rfl, hvalue, rfl⟩
  · exact (hset _).symm
  · rw [haccept value value' hvalue, Option.getD_some]

theorem patchField_samePlace (h : patchField name field accept reports set p = .ok q)
    (hset : ∀ task value, SameNode task (set task value)) (hname : name ≠ "status") :
    SamePlace p q := by
  rcases patchField_ok h with ⟨-, rfl⟩ | ⟨_, value, -, -, rfl⟩
  · exact ⟨⟨rfl, rfl, rfl, rfl, rfl⟩, Iff.rfl⟩
  · exact ⟨hset p.1 value, by simp [mem_note, Ne.symm hname]⟩

end PatchField

theorem applyFields_samePlace {env : Env} {patch : TaskPatch} {p q : Patched}
    (h : applyFields env patch p = .ok q) : SamePlace p q := by
  unfold applyFields at h
  obtain ⟨p1, h1, h⟩ := bind_eq_ok.mp h
  obtain ⟨p2, h2, h⟩ := bind_eq_ok.mp h
  obtain ⟨p3, h3, h⟩ := bind_eq_ok.mp h
  obtain ⟨p4, h4, h⟩ := bind_eq_ok.mp h
  obtain ⟨p5, h5, h⟩ := bind_eq_ok.mp h
  obtain ⟨p6, h6, h⟩ := bind_eq_ok.mp h
  obtain ⟨p7, h7, h⟩ := bind_eq_ok.mp h
  obtain ⟨p8, h8, h⟩ := bind_eq_ok.mp h
  obtain ⟨p9, h9, h⟩ := bind_eq_ok.mp h
  obtain ⟨p10, h10, h⟩ := bind_eq_ok.mp h
  obtain ⟨p11, h11, h12⟩ := bind_eq_ok.mp h
  have s1 := patchField_samePlace h1 (fun _ _ => ⟨rfl, rfl, rfl, rfl, rfl⟩) (by decide)
  have s2 := patchField_samePlace h2 (fun _ _ => ⟨rfl, rfl, rfl, rfl, rfl⟩) (by decide)
  have s3 := patchField_samePlace h3 (fun _ _ => ⟨rfl, rfl, rfl, rfl, rfl⟩) (by decide)
  have s4 := patchField_samePlace h4 (fun _ _ => ⟨rfl, rfl, rfl, rfl, rfl⟩) (by decide)
  have s5 := patchField_samePlace h5 (fun _ _ => ⟨rfl, rfl, rfl, rfl, rfl⟩) (by decide)
  have s6 := patchField_samePlace h6 (fun _ _ => ⟨rfl, rfl, rfl, rfl, rfl⟩) (by decide)
  have s7 := patchField_samePlace h7 (fun _ _ => ⟨rfl, rfl, rfl, rfl, rfl⟩) (by decide)
  have s8 := patchField_samePlace h8 (fun _ _ => ⟨rfl, rfl, rfl, rfl, rfl⟩) (by decide)
  have s9 := patchField_samePlace h9 (fun _ _ => ⟨rfl, rfl, rfl, rfl, rfl⟩) (by decide)
  have s10 := patchField_samePlace h10 (fun _ _ => ⟨rfl, rfl, rfl, rfl, rfl⟩) (by decide)
  have s11 := patchField_samePlace h11 (fun _ _ => ⟨rfl, rfl, rfl, rfl, rfl⟩) (by decide)
  have s12 := patchField_samePlace h12 (fun _ _ => ⟨rfl, rfl, rfl, rfl, rfl⟩) (by decide)
  exact s1.trans <| s2.trans <| s3.trans <| s4.trans <| s5.trans <| s6.trans <| s7.trans <|
    s8.trans <| s9.trans <| s10.trans <| s11.trans s12

/-- What the rest of the code sees of an accepted patch. -/
structure PatchSpec (patch : TaskPatch) (task task' : Task) (changed : List String) : Prop where
  id : task'.id = task.id
  scopeOf : task'.scopeOf = task.scopeOf
  parentId : task'.parentId = patch.parentId.getD task.parentId
  dependsOn : task'.dependsOn = patch.dependsOn.getD task.dependsOn
  kept : patch.status = none → task'.status = task.status
  written : ∀ status, patch.status = some status → task'.status.asStr = status
  notDone : patch.status ≠ none → task'.status ≠ .done
  changed : "status" ∈ changed ↔ task'.status ≠ task.status

theorem writableStatus_ok {status : String} {new : TaskStatus}
    (h : writableStatus status = .ok new) : new.asStr = status ∧ new ≠ .done := by
  unfold writableStatus at h
  split at h <;> cases h <;> exact ⟨rfl, by decide⟩

/-- The status block, as a patch of the status alone. -/
theorem applyStatusPatch_spec {task : Task} {patch : TaskPatch} {p : Patched}
    (h : applyStatusPatch patch (task, []) = .ok p) :
    PatchSpec { status := patch.status } task p.1 p.2 := by
  unfold applyStatusPatch at h
  cases hs : patch.status with
  | none =>
    rw [hs] at h
    cases h
    exact ⟨rfl, rfl, rfl, rfl, fun _ => rfl, nofun, fun hn => absurd rfl hn, by simp⟩
  | some status =>
    rw [hs] at h
    obtain ⟨new, hnew, h⟩ := bind_eq_ok.mp h
    cases h
    obtain ⟨hstr, hdone⟩ := writableStatus_ok hnew
    refine ⟨rfl, rfl, rfl, rfl, nofun, fun status' hs' => ?_, fun _ => hdone, ?_⟩
    · cases hs'
      exact hstr
    · simp [mem_note, ne_comm]

/-- An accepted patch puts the row where it says, and reports a status change exactly. -/
theorem applyPatch_spec {env : Env} {task task' : Task} {patch : TaskPatch}
    {changed : List String} (h : applyPatch env task patch = .ok (task', changed)) :
    PatchSpec patch task task' changed := by
  unfold applyPatch at h
  obtain ⟨p1, h1, h⟩ := bind_eq_ok.mp h
  obtain ⟨p2, h2, h⟩ := bind_eq_ok.mp h
  obtain ⟨p3, h3, h4⟩ := bind_eq_ok.mp h
  obtain ⟨s2, c2⟩ := applyFields_samePlace h2
  have hstatus := applyStatusPatch_spec h1
  have hdeps : p3.1 = { p2.1 with dependsOn := patch.dependsOn.getD p2.1.dependsOn } ∧
      ("status" ∈ p3.2 ↔ "status" ∈ p2.2) := by
    rcases patchField_ok h3 with ⟨hd, rfl⟩ | ⟨deps, deps', hd, hcheck, rfl⟩
    · rw [hd]
      exact ⟨rfl, Iff.rfl⟩
    · obtain ⟨_, -, hcheck⟩ := bind_eq_ok.mp hcheck
      cases hcheck
      rw [hd]
      exact ⟨rfl, by simp [mem_note]⟩
  have hparent : task' = { p3.1 with parentId := patch.parentId.getD p3.1.parentId } ∧
      ("status" ∈ changed ↔ "status" ∈ p3.2) := by
    rcases patchField_ok h4 with ⟨hp, rfl⟩ | ⟨parent, parent', hp, hcheck, hq⟩
    · rw [hp]
      exact ⟨rfl, Iff.rfl⟩
    · cases hcheck
      obtain ⟨rfl, rfl⟩ := Prod.mk.inj hq
      rw [hp]
      exact ⟨rfl, by simp [mem_note]⟩
  obtain ⟨hdeps, c3⟩ := hdeps
  obtain ⟨rfl, c4⟩ := hparent
  rw [hdeps]
  refine ⟨?_, ?_, ?_, ?_, ?_, ?_, ?_, ?_⟩
  · exact s2.id.trans hstatus.id
  · exact s2.scopeOf.trans hstatus.scopeOf
  · change patch.parentId.getD p2.1.parentId = _
    rw [s2.parentId, hstatus.parentId]
    rfl
  · change patch.dependsOn.getD p2.1.dependsOn = _
    rw [s2.dependsOn, hstatus.dependsOn]
    rfl
  · exact fun hn => s2.status.trans (hstatus.kept hn)
  · exact fun status hs => (congrArg TaskStatus.asStr s2.status).trans (hstatus.written status hs)
  · exact fun hn hdone => hstatus.notDone hn (s2.status.symm.trans hdone)
  · change "status" ∈ changed ↔ p2.1.status ≠ task.status
    rw [c4, c3, c2, hstatus.changed, s2.status]

/-! ## What an accepted patch writes -/

theorem checked_ok {α : Type} {check : α → Result Unit} (value value' : α)
    (h : checked check value = .ok value') : value' = value := by
  obtain ⟨_, -, h⟩ := bind_eq_ok.mp h
  exact (Except.ok.inj h).symm

/-- The fields beside the row's place. -/
structure PatchedFields (env : Env) (patch : TaskPatch) (task task' : Task) : Prop where
  title : task'.title = patch.title.getD task.title
  description : task'.description = patch.description.getD task.description
  priority : task'.priority = patch.priority.getD task.priority
  labels : task'.labels = patch.labels.getD task.labels
  toolScope : task'.toolScope = patch.toolScope.getD task.toolScope
  dueAt : task'.dueAt = patch.dueAt.getD task.dueAt
  recurrence : task'.recurrence = patch.recurrence.getD task.recurrence
  acceptance : (patch.acceptance = none ∧ task'.acceptance = task.acceptance) ∨
    ∃ check, patch.acceptance = some check ∧ admitOption env check = .ok task'.acceptance
  deadlineAt : task'.deadlineAt = patch.deadlineAt.getD task.deadlineAt
  assignee : task'.assignee = patch.assignee.getD task.assignee
  project : task'.project = patch.project.getD task.project
  sortOrder : task'.sortOrder = patch.sortOrder.getD task.sortOrder

theorem applyStatusPatch_fields {patch : TaskPatch} {p q : Patched} (h : applyStatusPatch patch p = .ok q) :
    ∃ status completedAt, q.1 = { p.1 with status, completedAt } := by
  unfold applyStatusPatch at h
  split at h
  · cases h
    exact ⟨_, _, rfl⟩
  · obtain ⟨new, -, h⟩ := bind_eq_ok.mp h
    cases h
    exact ⟨_, _, rfl⟩

theorem applyPatch_fields {env : Env} {task : Task} {patch : TaskPatch} {p : Patched}
    (h : applyPatch env task patch = .ok p) : PatchedFields env patch task p.1 := by
  unfold applyPatch applyFields at h
  obtain ⟨p0, h0, h⟩ := bind_eq_ok.mp h
  obtain ⟨p12, hfields, h⟩ := bind_eq_ok.mp h
  obtain ⟨p13, h13, h14⟩ := bind_eq_ok.mp h
  obtain ⟨p1, h1, hfields⟩ := bind_eq_ok.mp hfields
  obtain ⟨p2, h2, hfields⟩ := bind_eq_ok.mp hfields
  obtain ⟨p3, h3, hfields⟩ := bind_eq_ok.mp hfields
  obtain ⟨p4, h4, hfields⟩ := bind_eq_ok.mp hfields
  obtain ⟨p5, h5, hfields⟩ := bind_eq_ok.mp hfields
  obtain ⟨p6, h6, hfields⟩ := bind_eq_ok.mp hfields
  obtain ⟨p7, h7, hfields⟩ := bind_eq_ok.mp hfields
  obtain ⟨p8, h8, hfields⟩ := bind_eq_ok.mp hfields
  obtain ⟨p9, h9, hfields⟩ := bind_eq_ok.mp hfields
  obtain ⟨p10, h10, hfields⟩ := bind_eq_ok.mp hfields
  obtain ⟨p11, h11, h12⟩ := bind_eq_ok.mp hfields
  have hok : ∀ {α : Type} (value value' : α), (Except.ok value : Result α) = .ok value' → value' = value :=
    fun _ _ h => (Except.ok.inj h).symm
  obtain ⟨status, completedAt, e0⟩ := applyStatusPatch_fields h0
  have e1 := patchField_value (·.title) h1 checked_ok fun _ => rfl
  have e2 := patchField_value (·.description) h2 hok fun _ => rfl
  have e3 := patchField_value (·.priority) h3 checked_ok fun _ => rfl
  have e4 := patchField_value (·.labels) h4 hok fun _ => rfl
  have e5 := patchField_value (·.toolScope) h5 hok fun _ => rfl
  have e6 := patchField_value (·.dueAt) h6 hok fun task => by rw [if_pos rfl]
  have e7 := patchField_value (·.recurrence) h7 hok fun _ => rfl
  obtain ⟨acceptance, e8, hacceptance⟩ : ∃ acceptance, p8.1 = { p7.1 with acceptance } ∧
      ((patch.acceptance = none ∧ acceptance = p7.1.acceptance) ∨
        ∃ check, patch.acceptance = some check ∧ admitOption env check = .ok acceptance) := by
    rcases patchField_ok h8 with ⟨hnone, rfl⟩ | ⟨check, acceptance, hsome, hadmit, rfl⟩
    · exact ⟨_, rfl, .inl ⟨hnone, rfl⟩⟩
    · exact ⟨_, rfl, .inr ⟨check, hsome, hadmit⟩⟩
  have e9 := patchField_value (·.deadlineAt) h9 hok fun task => by rw [if_pos rfl]
  have e10 := patchField_value (·.assignee) h10 hok fun _ => rfl
  have e11 := patchField_value (·.project) h11 hok fun _ => rfl
  have e12 := patchField_value (·.sortOrder) h12 hok fun _ => rfl
  have e13 := patchField_value (·.dependsOn) h13 checked_ok fun _ => rfl
  have e14 := patchField_value (·.parentId) h14 hok fun _ => rfl
  -- one row after the other, each written out before the next is read
  simp only [e0] at e1
  simp only [e1] at e2
  simp only [e2] at e3
  simp only [e3] at e4
  simp only [e4] at e5
  simp only [e5] at e6
  simp only [e6] at e7
  simp only [e7] at e8 hacceptance
  simp only [e8] at e9
  simp only [e9] at e10
  simp only [e10] at e11
  simp only [e11] at e12
  simp only [e12] at e13
  simp only [e13] at e14
  rw [e14]
  exact ⟨rfl, rfl, rfl, rfl, rfl, rfl, rfl, hacceptance, rfl, rfl, rfl, rfl⟩

end Nanna.Tasks
