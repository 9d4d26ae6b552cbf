import Mathlib.Data.Char
import Mathlib.Data.List.Lex
import Nanna.Lib.Moves
import Nanna.Tasks.Effects

/-!
# The announcements of the time sweep

`announce_due` lists the open cards whose defer date has come, or whose deadline has passed, and that
carry no marker for it; card by card it then stamps the marker and publishes the event. Moving the date
and reopening the card take the marker away again.

`Sweep` is the store while a sweep is under way: calls of the repository run between its steps. Two
sweeps do not overlap, as the scheduler starts no task that still runs.
-/

namespace Nanna.Tasks

open Nanna.Lib Relation

/-! ## The events -/

inductive TimeKind
  | due
  | overdue
deriving DecidableEq

structure TimeEvent where
  kind : TimeKind
  taskId : Int
  /-- The event's detail: `due_at` or `deadline_at`. -/
  date : Option String
deriving DecidableEq

/-- The column the event is about. -/
def Task.date (task : Task) : TimeKind → Option String
  | .due => task.dueAt
  | .overdue => task.deadlineAt

/-- The marker column of the event. -/
def Task.marker (task : Task) : TimeKind → Option String
  | .due => task.dueAnnouncedAt
  | .overdue => task.overdueAnnouncedAt

/-- The row the `UPDATE` of `mark_announced` leaves. -/
def Task.marked (task : Task) (now : String) : TimeKind → Task
  | .due => { task with dueAnnouncedAt := some now }
  | .overdue => { task with overdueAnnouncedAt := some now }

/-- `mark_announced`. -/
def Store.markAnnounced (s : Store) (id : Int) (kind : TimeKind) (now : String) : Store :=
  s.modify id (·.marked now kind)

/-! ## The sweep -/

/-- The day has come (`due`), or is past (`overdue`). -/
def Task.reached (task : Task) (today : Text) : TimeKind → Bool
  | .due => task.dueAt.any (dayOf · ≤ today)
  | .overdue => task.deadlineAt.any (dayOf · < today)

/-- `due_crossed` and `overdue_crossed`. -/
def Task.crossed (task : Task) (today : Text) (kind : TimeKind) : Bool :=
  (task.marker kind).isNone && task.reached today kind

def listTimeAnnouncable (s : Store) (today : Text) : List Task :=
  s.tasks.filter fun t => isOpen t && (t.crossed today .due || t.crossed today .overdue)

/-- The store with the events published so far, oldest first. -/
structure Board where
  store : Store
  posted : List TimeEvent

/-- One of the two blocks in the loop of `announce_due`. -/
def Board.announceKind (now : String) (task : Task) (b : Board) (kind : TimeKind) : Board :=
  if task.crossed (dayOf now) kind then
    ⟨b.store.markAnnounced task.id kind now, b.posted ++ [⟨kind, task.id, task.date kind⟩]⟩
  else b

/-- The body of the loop of `announce_due`. -/
def Board.announce (now : String) (b : Board) (task : Task) : Board :=
  (b.announceKind now task .due).announceKind now task .overdue

/-- `announce_due`: the board and the numbers of cards announced. -/
def announceDue (now : String) (b : Board) : Board × Nat × Nat :=
  let pending := listTimeAnnouncable b.store (dayOf now)
  (pending.foldl (Board.announce now) b, pending.countP (·.crossed (dayOf now) .due),
    pending.countP (·.crossed (dayOf now) .overdue))

/-! ## The sweep among other calls -/

structure Sweep where
  board : Board
  now : String
  /-- The rows listed and not yet announced, as they were listed. -/
  pending : List Task

def Sweep.empty : Sweep := ⟨⟨.empty, []⟩, "", []⟩

inductive SweepAct
  /-- A call of the repository. -/
  | call (env : Env) (op : Op)
  | list (now : String)
  | announce

def Sweep.step (s : Sweep) : SweepAct → Option Sweep
  | .call env op =>
    match op.run env s.board.store with
    | .ok store => some { s with board := { s.board with store } }
    | .error _ => some s
  | .list now =>
    if s.pending = [] then
      some { s with now, pending := listTimeAnnouncable s.board.store (dayOf now) }
    else none
  | .announce =>
    match s.pending with
    | [] => none
    | task :: pending => some { s with board := s.board.announce s.now task, pending }

abbrev Sweep.run (acts : List SweepAct) : Option Sweep :=
  runActs Sweep.step (fun _ _ => True) Sweep.empty acts

/-! ## What should be announced -/

/-- The patch moves the date of this event. -/
def TaskPatch.moves (patch : TaskPatch) (task : Task) : TimeKind → Bool
  | .due => patch.dueAt.any (· ≠ task.dueAt)
  | .overdue => patch.deadlineAt.any (· ≠ task.deadlineAt)

/-- The call, if it succeeds, arms the event of `task` again. -/
def Op.rearms (kind : TimeKind) (task : Task) : Op → Bool
  | .reopen id => id = task.id && task.status.isClosed
  | .update id patch => id = task.id && patch.moves task kind
  | _ => false

/-- A call that succeeds arms an event again that has been announced for the card `id`. -/
def SweepAct.rearms (kind : TimeKind) (id : Int) (s : Sweep) : SweepAct → Bool
  | .call env op =>
    (op.run env s.board.store).isOk &&
      s.board.store.tasks.any fun t => t.id = id && (t.marker kind).isSome && op.rearms kind t
  | _ => false

def announced (kind : TimeKind) (id : Int) (posted : List TimeEvent) : Nat :=
  posted.countP fun e => e.kind = kind && e.taskId = id

/-! ## The stamps of a patched row -/

/-- Same dates, same markers. -/
def SameStamps (t u : Task) : Prop := ∀ kind, u.date kind = t.date kind ∧ u.marker kind = t.marker kind

theorem SameStamps.refl (t : Task) : SameStamps t t := fun _ => ⟨rfl, rfl⟩

theorem SameStamps.trans {t u v : Task} (h : SameStamps t u) (h' : SameStamps u v) : SameStamps t v :=
  fun kind => ⟨(h' kind).1.trans (h kind).1, (h' kind).2.trans (h kind).2⟩

/-- The row with the columns a time event reads. -/
theorem sameStamps_of {t u : Task} (hdue : u.dueAt = t.dueAt) (hdeadline : u.deadlineAt = t.deadlineAt)
    (hdueMarker : u.dueAnnouncedAt = t.dueAnnouncedAt)
    (hoverdueMarker : u.overdueAnnouncedAt = t.overdueAnnouncedAt) : SameStamps t u
  | .due => ⟨hdue, hdueMarker⟩
  | .overdue => ⟨hdeadline, hoverdueMarker⟩

theorem patchField_stamps {α : Type} {name : String} {field : Option α} {accept : α → Result α}
    {reports : Task → α → Bool} {set : Task → α → Task} {p q : Patched}
    (h : patchField name field accept reports set p = .ok q)
    (hset : ∀ task value, SameStamps task (set task value)) : SameStamps p.1 q.1 := by
  rcases patchField_ok h with ⟨-, rfl⟩ | ⟨_, value, -, -, rfl⟩
  · exact .refl _
  · exact hset p.1 value

/-- The marker falls exactly where the patch moves the date. -/
theorem applyPatch_marker {env : Env} {task : Task} {patch : TaskPatch} {p : Patched}
    (h : applyPatch env task patch = .ok p) (kind : TimeKind) :
    p.1.marker kind = if patch.moves task kind then none else task.marker kind := by
  unfold applyPatch applyFields at h
  obtain ⟨p0, h0, h⟩ := bind_eq_ok.mp h
  obtain ⟨p12, hfields, h⟩ := bind_eq_ok.mp h
  obtain ⟨p13, h13, h14⟩ := bind_eq_ok.mp h
  obtain ⟨p1, h1, hfields⟩ := bind_eq_ok.mp hfields
  obtain ⟨p2, h2, hfields⟩ := bind_eq_ok.mp hfields
  obtain ⟨p3, h3, hfields⟩ := bind_eq_ok.mp hfields
  obtain ⟨p4, h4, hfields⟩ := bind_eq_ok.mp hfields
  obtain ⟨p5, h5, hfields⟩ := bind_eq_ok.mp hfields
  obtain ⟨p6, h6, hfields⟩ := bind_eq_ok.mp hfields
  obtain ⟨p7, h7, hfields⟩ := bind_eq_ok.mp hfields
  obtain ⟨p8, h8, hfields⟩ := bind_eq_ok.mp hfields
  obtain ⟨p9, h9, hfields⟩ := bind_eq_ok.mp hfields
  obtain ⟨p10, h10, hfields⟩ := bind_eq_ok.mp hfields
  obtain ⟨p11, h11, h12⟩ := bind_eq_ok.mp hfields
  have hsame : ∀ {α : Type} {set : Task → α → Task}, (∀ t v, (set t v).dueAt = t.dueAt) →
      (∀ t v, (set t v).deadlineAt = t.deadlineAt) → (∀ t v, (set t v).dueAnnouncedAt = t.dueAnnouncedAt) →
      (∀ t v, (set t v).overdueAnnouncedAt = t.overdueAnnouncedAt) → ∀ t v, SameStamps t (set t v) :=
    fun h₁ h₂ h₃ h₄ t v => sameStamps_of (h₁ t v) (h₂ t v) (h₃ t v) (h₄ t v)
  have hbefore : SameStamps task p5.1 := by
    obtain ⟨status, completedAt, e0⟩ := applyStatusPatch_fields h0
    have e : SameStamps task p0.1 := e0 ▸ sameStamps_of rfl rfl rfl rfl
    refine e.trans (((((patchField_stamps h1 ?_).trans (patchField_stamps h2 ?_)).trans
      (patchField_stamps h3 ?_)).trans (patchField_stamps h4 ?_)).trans (patchField_stamps h5 ?_))
    all_goals exact hsame (fun _ _ => rfl) (fun _ _ => rfl) (fun _ _ => rfl) fun _ _ => rfl
  have hbetween : SameStamps p6.1 p8.1 := by
    refine (patchField_stamps h7 ?_).trans (patchField_stamps h8 ?_)
    all_goals exact hsame (fun _ _ => rfl) (fun _ _ => rfl) (fun _ _ => rfl) fun _ _ => rfl
  have hafter : SameStamps p9.1 p.1 := by
    refine ((((patchField_stamps h10 ?_).trans (patchField_stamps h11 ?_)).trans
      (patchField_stamps h12 ?_)).trans (patchField_stamps h13 ?_)).trans (patchField_stamps h14 ?_)
    all_goals exact hsame (fun _ _ => rfl) (fun _ _ => rfl) (fun _ _ => rfl) fun _ _ => rfl
  rw [(hafter kind).2]
  cases kind with
  | due =>
    have hdeadline : p9.1.marker .due = p8.1.marker .due := by
      rcases patchField_ok h9 with ⟨-, rfl⟩ | ⟨_, _, -, -, rfl⟩ <;> rfl
    rw [hdeadline, (hbetween .due).2]
    rcases patchField_ok h6 with ⟨hnone, rfl⟩ | ⟨value, value', hvalue, haccept, rfl⟩
    · rw [(hbefore .due).2]
      simp [TaskPatch.moves, hnone]
    · cases haccept
      have hdate : p5.1.dueAt = task.dueAt := (hbefore .due).1
      have hmarker : p5.1.dueAnnouncedAt = task.dueAnnouncedAt := (hbefore .due).2
      simp only [TaskPatch.moves, hvalue, Task.marker, hdate, hmarker, Option.any_some, decide_eq_true_eq]
      by_cases heq : task.dueAt = value
      · rw [if_pos heq, if_neg (not_not.mpr heq.symm)]
      · rw [if_neg heq, if_pos (Ne.symm heq)]
  | overdue =>
    have hstep : p6.1.deadlineAt = p5.1.deadlineAt ∧ p6.1.overdueAnnouncedAt = p5.1.overdueAnnouncedAt := by
      rcases patchField_ok h6 with ⟨-, rfl⟩ | ⟨_, _, -, -, rfl⟩ <;> exact ⟨rfl, rfl⟩
    have hdate : p8.1.deadlineAt = task.deadlineAt :=
      (hbetween .overdue).1.trans (hstep.1.trans (hbefore .overdue).1)
    have hmarker : p8.1.overdueAnnouncedAt = task.overdueAnnouncedAt :=
      (hbetween .overdue).2.trans (hstep.2.trans (hbefore .overdue).2)
    rcases patchField_ok h9 with ⟨hnone, rfl⟩ | ⟨value, value', hvalue, haccept, rfl⟩
    · simp [TaskPatch.moves, hnone, Task.marker, hmarker]
    · cases haccept
      simp only [TaskPatch.moves, hvalue, Task.marker, hdate, hmarker, Option.any_some, decide_eq_true_eq]
      by_cases heq : task.deadlineAt = value
      · rw [if_pos heq, if_neg (not_not.mpr heq.symm)]
      · rw [if_neg heq, if_pos (Ne.symm heq)]

/-! ## The markers after a call -/

/-- Every row was there before, with the markers it has. -/
def MarkersFrom (rows rows' : List Task) : Prop :=
  ∀ t' ∈ rows', ∃ t ∈ rows, t.id = t'.id ∧ ∀ kind, t'.marker kind = t.marker kind

theorem MarkersFrom.refl (rows : List Task) : MarkersFrom rows rows := fun t ht => ⟨t, ht, rfl, fun _ => rfl⟩

theorem MarkersFrom.trans {a b c : List Task} (h : MarkersFrom a b) (h' : MarkersFrom b c) : MarkersFrom a c := by
  intro v hv
  obtain ⟨u, hu, huv, hmarker'⟩ := h' v hv
  obtain ⟨t, ht, htu, hmarker⟩ := h u hu
  exact ⟨t, ht, htu.trans huv, fun kind => (hmarker' kind).trans (hmarker kind)⟩

theorem MarkersFrom.map {rows : List Task} {f : Task → Task} (hid : ∀ t ∈ rows, (f t).id = t.id)
    (hmarker : ∀ t ∈ rows, ∀ kind, (f t).marker kind = t.marker kind) : MarkersFrom rows (rows.map f) := by
  intro t' ht'
  obtain ⟨t, ht, rfl⟩ := List.mem_map.mp ht'
  exact ⟨t, ht, (hid t ht).symm, hmarker t ht⟩

/-- A batch of writes, each of a row that is there, with its markers. -/
theorem MarkersFrom.rewrite (now : String) {rows writes : List Task} (hnd : (rows.map (·.id)).Nodup)
    (hwrites : ∀ w ∈ writes, ∃ t ∈ rows, t.id = w.id ∧ ∀ kind, w.marker kind = t.marker kind) :
    MarkersFrom rows (rows.map (rewriteRow now writes)) := by
  refine .map (fun t _ => rewriteRow_id now writes t) fun t ht kind => ?_
  unfold rewriteRow
  split
  · rename_i w hw
    obtain ⟨hmem, hid⟩ := findTask_some hw
    obtain ⟨u, hu, huid, hmarker⟩ := hwrites w hmem
    obtain rfl : u = t := List.inj_on_of_nodup_map hnd hu ht (huid.trans hid)
    rw [← hmarker kind]
    cases kind <;> rfl
  · rfl

theorem deletedRows_markers (now : String) {rows : List Task} (hnd : (rows.map (·.id)).Nodup) (id : Int) :
    MarkersFrom rows (deletedRows now rows id) := by
  have hkept : MarkersFrom rows (rows.filter (·.id ∉ subtreeIdsFrom rows id)) :=
    fun t ht => ⟨t, List.mem_of_mem_filter ht, rfl, fun _ => rfl⟩
  refine hkept.trans (.rewrite now (hnd.sublist ((List.filter_sublist ..).map _)) fun w hw => ?_)
  obtain ⟨t, ht, rfl⟩ := List.mem_map.mp hw
  obtain ⟨ht, hcond⟩ := List.mem_filter.mp ht
  simp only [Bool.and_eq_true] at hcond
  exact ⟨t, List.mem_filter.mpr ⟨ht, hcond.1⟩, rfl, fun kind => by cases kind <;> rfl⟩

theorem cascadedRows_markers (now : String) {rows : List Task} (hnd : (rows.map (·.id)).Nodup) (task : Task) :
    MarkersFrom rows (cascadedRows now rows task) := by
  refine .rewrite now hnd fun w hw => ?_
  cases ((cascadePlan_spec hnd task).2 w hw).2 with
  | reparented ht => exact ⟨_, ht, rfl, fun kind => by cases kind <;> rfl⟩
  | cancelled ht => exact ⟨_, ht, rfl, fun kind => by cases kind <;> rfl⟩

/-- A call other than a new task, a patch and a reopening writes no marker. -/
theorem RowsStep.markersFrom {env : Env} {sc : Scope} {rows rows' : List Task} {op : Op}
    (hstep : RowsStep env sc rows op rows') (hnd : (rows.map (·.id)).Nodup) (hcreate : ∀ new, op ≠ .create new)
    (hupdate : ∀ id patch, op ≠ .update id patch) (hreopen : ∀ id, op ≠ .reopen id) : MarkersFrom rows rows' := by
  cases hstep with
  | same => exact .refl _
  | create => exact absurd rfl (hcreate _)
  | update => exact absurd rfl (hupdate _ _)
  | complete =>
    refine .map (fun t _ => ?_) fun t _ kind => ?_
    · split_ifs <;> rfl
    · split_ifs
      · cases kind <;> rfl
      · rfl
  | reopen => exact absurd rfl (hreopen _)
  | delete => exact deletedRows_markers _ hnd _
  | clear hrun =>
    suffices h : (rows'.map (·.id)).Nodup ∧ MarkersFrom rows rows' from h.2
    induction hrun with
    | refl => exact ⟨hnd, .refl _⟩
    | tail _ hdelete ih =>
      obtain ⟨task, -, rfl⟩ := hdelete
      exact ⟨deletedRows_nodup _ ih.1 _, ih.2.trans (deletedRows_markers _ ih.1 _)⟩

section Calls

variable {env : Env} {s s' : Store}

theorem create_inserts {new : NewTask} {t : Task} (h : create env s new = .ok (s', t)) :
    ∃ new', s' = s.insert env.now new' := by
  obtain ⟨new', -, h⟩ := bind_eq_ok.mp h
  obtain ⟨⟨⟩, -, h⟩ := bind_eq_ok.mp h
  obtain ⟨s₁, hinsert, h⟩ := bind_eq_ok.mp h
  obtain ⟨⟨⟩, -, hinsert⟩ := bind_eq_ok.mp hinsert
  cases h
  cases hinsert
  exact ⟨new', rfl⟩

/-- A row that was there, and what the call arms again has lost its marker. -/
def Rearmed (op : Op) (rows : List Task) (t' : Task) : Prop :=
  ∃ t ∈ rows, t.id = t'.id ∧ ∀ kind, t'.marker kind = if op.rearms kind t then none else t.marker kind

theorem Rearmed.same {op : Op} {rows : List Task} {t : Task} (ht : t ∈ rows)
    (hno : ∀ kind, op.rearms kind t = false) : Rearmed op rows t :=
  ⟨t, ht, rfl, fun kind => by rw [hno kind]; rfl⟩

/-- The patched rows, before the cascade. -/
theorem patchedRows_rearmed (hs : s.Distinct) {patch : TaskPatch} {task : Task} {p : Patched}
    (htask : task ∈ s.tasks) (hpatch : applyPatch env task patch = .ok p) (sc : Scope) :
    ∀ u ∈ patchedRows env.now (s.loadScope sc) p.1, Rearmed (.update task.id patch) s.tasks u := by
  intro u hu
  obtain ⟨t, ht, rfl⟩ := List.mem_map.mp hu
  obtain ⟨ht, -⟩ := mem_loadScope.mp ht
  have hid := (applyPatch_spec hpatch).id
  split_ifs with heq
  · obtain rfl : t = task := hs.unique ht htask (heq.trans hid)
    refine ⟨t, ht, rfl, fun kind => ?_⟩
    have hmarker := applyPatch_marker hpatch kind
    simp only [Op.rearms, decide_true, Bool.true_and]
    rw [← hmarker]
    cases kind <;> rfl
  · have hne : task.id ≠ t.id := fun h => heq (h.symm.trans hid.symm)
    exact .same ht fun kind => by simp [Op.rearms, hne]

theorem update_rearmed (hs : s.Distinct) {id : Int} {patch : TaskPatch} {u : Task}
    (h : update env s id patch = .ok (s', u)) : ∀ t' ∈ s'.tasks, Rearmed (.update id patch) s.tasks t' := by
  intro t' ht'
  obtain ⟨-, -, task, htask, rfl, p, hpatch, -, hload⟩ := update_loadScope hs h
  have hmem : t' ∈ Store.loadScope _ t'.scopeOf := mem_loadScope.mpr ⟨ht', rfl⟩
  rw [hload] at hmem
  have hpatched := patchedRows_rearmed hs htask hpatch t'.scopeOf
  by_cases hsc : t'.scopeOf = task.scopeOf
  · rw [if_pos hsc] at hmem
    split_ifs at hmem
    · have hnd : ((patchedRows env.now (s.loadScope t'.scopeOf) p.1).map (·.id)).Nodup := by
        rw [patchedRows, map_ids (patchedRow_id env.now p.1)]
        exact hs.scope_nodup _
      obtain ⟨u, hu, huid, hmarker'⟩ := cascadedRows_markers env.now hnd p.1 t' hmem
      obtain ⟨t, ht, htid, hmarker⟩ := hpatched u hu
      exact ⟨t, ht, htid.trans huid, fun kind => (hmarker' kind).trans (hmarker kind)⟩
    · exact hpatched t' hmem
  · rw [if_neg hsc] at hmem
    obtain ⟨ht, -⟩ := mem_loadScope.mp hmem
    have hne : task.id ≠ t'.id := fun h => hsc (congrArg Task.scopeOf (hs.unique ht htask h.symm))
    exact .same ht fun kind => by simp [Op.rearms, hne]

theorem reopen_rearmed (hs : s.Distinct) {id : Int} {u : Task} (h : reopen env s id = .ok (s', u)) :
    ∀ t' ∈ s'.tasks, Rearmed (.reopen id) s.tasks t' := by
  intro t' ht'
  obtain ⟨-, task, htask, rfl, hopen, hclosed⟩ := reopen_loadScope hs h
  cases hstatus : task.status.isClosed with
  | false =>
    rw [hopen hstatus] at ht'
    refine .same ht' fun kind => ?_
    by_cases heq : task.id = t'.id
    · obtain rfl := hs.unique htask ht' heq
      simp [Op.rearms, hstatus]
    · simp [Op.rearms, heq]
  | true =>
    have hmem : t' ∈ Store.loadScope _ t'.scopeOf := mem_loadScope.mpr ⟨ht', rfl⟩
    rw [hclosed hstatus] at hmem
    by_cases hsc : t'.scopeOf = task.scopeOf
    · rw [if_pos hsc] at hmem
      obtain ⟨t, hmem, rfl⟩ := List.mem_map.mp hmem
      obtain ⟨ht, -⟩ := mem_loadScope.mp hmem
      split_ifs with heq
      · obtain rfl : t = task := hs.unique ht htask heq
        refine ⟨t, ht, rfl, fun kind => ?_⟩
        simp only [Op.rearms, hstatus, decide_true, Bool.true_and]
        cases kind <;> rfl
      · exact .same ht fun kind => by simp [Op.rearms, Ne.symm heq]
    · rw [if_neg hsc] at hmem
      obtain ⟨ht, -⟩ := mem_loadScope.mp hmem
      have hne : task.id ≠ t'.id := fun h => hsc (congrArg Task.scopeOf (hs.unique ht htask h.symm))
      exact .same ht fun kind => by simp [Op.rearms, hne]

/-- A row after a call was there, or is new and unannounced. -/
theorem Op.run_markers {op : Op} (hs : s.Distinct) (h : op.run env s = .ok s') : ∀ t' ∈ s'.tasks,
    Rearmed op s.tasks t' ∨ (t'.id = s.seq + 1 ∧ ∀ kind, t'.marker kind = none) := by
  have hrows := (op.run_rows hs h).2
  intro t' ht'
  have hkeep := (hrows t'.scopeOf).markersFrom (hs.scope_nodup _)
  have hmem : t' ∈ s'.loadScope t'.scopeOf := mem_loadScope.mpr ⟨ht', rfl⟩
  cases op with
  | create new =>
    obtain ⟨⟨_, u⟩, hcall, rfl⟩ := map_eq_ok.mp h
    obtain ⟨new', rfl⟩ := create_inserts hcall
    rcases List.mem_append.mp ht' with ht' | ht'
    · exact .inl (.same ht' fun _ => rfl)
    · rw [List.mem_singleton.mp ht']
      exact .inr ⟨rfl, fun kind => by cases kind <;> rfl⟩
  | update id patch =>
    obtain ⟨⟨_, u⟩, hcall, rfl⟩ := map_eq_ok.mp h
    exact .inl (update_rearmed hs hcall t' ht')
  | reopen id =>
    obtain ⟨⟨_, u⟩, hcall, rfl⟩ := map_eq_ok.mp h
    exact .inl (reopen_rearmed hs hcall t' ht')
  | complete id | delete id | clear sc closedOnly =>
    obtain ⟨t, ht, hid, hmarker⟩ :=
      hkeep (by rintro _ ⟨⟩) (by rintro _ _ ⟨⟩) (by rintro _ ⟨⟩) t' hmem
    exact .inl ⟨t, (mem_loadScope.mp ht).1, hid, hmarker⟩

end Calls

/-! ## Ids only grow -/

theorem writeAll_seq (now : String) (writes : List Task) : ∀ s : Store, (s.writeAll now writes).seq = s.seq := by
  induction writes with
  | nil => exact fun _ => rfl
  | cons w writes ih => exact fun s => ih (s.writeTask now w)

theorem markAllDone_seq (now : String) (ids : List Int) : ∀ s : Store, (s.markAllDone now ids).seq = s.seq := by
  induction ids with
  | nil => exact fun _ => rfl
  | cons id ids ih => exact fun s => ih (s.markDone now id)

theorem delete_seq {env : Env} {s s' : Store} {id : Int} {n : Nat} (h : delete env s id = .ok (s', n)) :
    s'.seq = s.seq := by
  obtain ⟨task, -, h⟩ := bind_eq_ok.mp h
  cases h
  exact writeAll_seq ..

theorem clearFrom_seq {env : Env} {rows : List Task} {closedOnly : Bool} : ∀ (targets : List Task)
    {acc out : Store × Nat}, targets.foldlM (clearTarget env rows closedOnly) acc = .ok out →
      out.1.seq = acc.1.seq := by
  intro targets
  induction targets with
  | nil =>
    intro acc out h
    cases h
    rfl
  | cons target targets ih =>
    intro acc out h
    obtain ⟨mid, hmid, h⟩ := bind_eq_ok.mp h
    rw [ih h]
    unfold clearTarget at hmid
    split_ifs at hmid
    · cases hmid
      rfl
    · split at hmid
      · cases hmid
        rfl
      · obtain ⟨⟨s, n⟩, hdelete, hmid⟩ := bind_eq_ok.mp hmid
        cases hmid
        exact delete_seq hdelete

theorem Op.seq_le {env : Env} {s s' : Store} {op : Op} (h : op.run env s = .ok s') : s.seq ≤ s'.seq := by
  cases op with
  | create new =>
    obtain ⟨⟨_, u⟩, hcall, rfl⟩ := map_eq_ok.mp h
    obtain ⟨new', rfl⟩ := create_inserts hcall
    exact Int.le_add_one le_rfl
  | update id patch =>
    obtain ⟨⟨_, u⟩, hcall, rfl⟩ := map_eq_ok.mp h
    obtain ⟨task, -, hcall⟩ := bind_eq_ok.mp hcall
    obtain ⟨p, -, hcall⟩ := bind_eq_ok.mp hcall
    obtain ⟨s₁, hcommit, hcall⟩ := bind_eq_ok.mp hcall
    obtain ⟨t, -, hcall⟩ := bind_eq_ok.mp hcall
    obtain ⟨⟨⟩, -, hcommit⟩ := bind_eq_ok.mp hcommit
    obtain ⟨⟨⟩, -, hcommit⟩ := bind_eq_ok.mp hcommit
    cases hcall
    cases hcommit
    apply le_of_eq
    split_ifs
    · show s.seq = (cascadeCancel env.now _ p.1).seq
      rw [cascadeCancel, writeAll_seq]
      rfl
    · rfl
  | complete id =>
    obtain ⟨⟨_, u⟩, hcall, rfl⟩ := map_eq_ok.mp h
    obtain ⟨task, -, hcall⟩ := bind_eq_ok.mp hcall
    split_ifs at hcall
    · cases hcall
      exact le_rfl
    · obtain ⟨s₁, hmark, hcall⟩ := bind_eq_ok.mp hcall
      obtain ⟨t, -, hcall⟩ := bind_eq_ok.mp hcall
      cases hcall
      rw [markAllDone_seq, (completeMark_eq_ok.mp hmark).2]
      exact le_rfl
  | reopen id =>
    obtain ⟨⟨_, u⟩, hcall, rfl⟩ := map_eq_ok.mp h
    obtain ⟨task, -, hcall⟩ := bind_eq_ok.mp hcall
    split_ifs at hcall
    · obtain ⟨t, -, hcall⟩ := bind_eq_ok.mp hcall
      cases hcall
      exact le_rfl
    · cases hcall
      exact le_rfl
  | delete id =>
    obtain ⟨⟨_, n⟩, hcall, rfl⟩ := map_eq_ok.mp h
    exact (delete_seq hcall).ge
  | clear sc closedOnly =>
    obtain ⟨⟨_, n⟩, hcall, rfl⟩ := map_eq_ok.mp h
    exact (clearFrom_seq _ hcall).ge

/-! ## One sweep on its own -/

theorem marked_marker (t : Task) (now : String) (kind kind' : TimeKind) :
    (t.marked now kind).marker kind' = if kind = kind' then some now else t.marker kind' := by
  cases kind <;> cases kind' <;> rfl

theorem marked_id (t : Task) (now : String) (kind : TimeKind) : (t.marked now kind).id = t.id := by
  cases kind <;> rfl

/-- The row the two blocks leave of a listed row. -/
def Task.announcedRow (now : String) (task row : Task) : Task :=
  let row := if task.crossed (dayOf now) .due then row.marked now .due else row
  if task.crossed (dayOf now) .overdue then row.marked now .overdue else row

/-- The events the two blocks publish. -/
def Task.timeEvents (now : String) (task : Task) : List TimeEvent :=
  (if task.crossed (dayOf now) .due then [⟨.due, task.id, task.dueAt⟩] else []) ++
    if task.crossed (dayOf now) .overdue then [⟨.overdue, task.id, task.deadlineAt⟩] else []

/-- Rewrites of listed rows, one after the other, are one map over the rows. -/
theorem foldl_modify {rows : List Task} (f : Task → Task → Task) (hid : ∀ t row, (f t row).id = row.id) :
    ∀ {s : Store}, (rows.map (·.id)).Nodup →
      (rows.foldl (fun s t => s.modify t.id (f t)) s).tasks =
        s.tasks.map fun row => match findTask rows row.id with
          | some t => f t row
          | none => row := by
  induction rows with
  | nil =>
    intro s _
    simp [findTask]
  | cons t rows ih =>
    intro s hnd
    rw [List.map_cons, List.nodup_cons] at hnd
    rw [List.foldl_cons, ih hnd.2, Store.modify, List.map_map]
    refine List.map_congr_left fun row _ => ?_
    rw [Function.comp_apply]
    by_cases hrow : row.id = t.id
    · have hnone : findTask rows row.id = none := by
        cases hfind : findTask rows row.id with
        | none => rfl
        | some u =>
          obtain ⟨hu, huid⟩ := findTask_some hfind
          exact absurd (List.mem_map.mpr ⟨u, hu, huid.trans hrow⟩) hnd.1
      rw [if_pos hrow, hid, hnone]
      simp [findTask, hrow]
    · rw [if_neg hrow]
      simp [findTask, Ne.symm hrow]

theorem findTask_filter {rows : List Task} (hnd : (rows.map (·.id)).Nodup) (p : Task → Bool) {row : Task}
    (hrow : row ∈ rows) : findTask (rows.filter p) row.id = if p row then some row else none := by
  split_ifs with hp
  · exact findTask_of_mem (hnd.sublist ((List.filter_sublist ..).map _)) (List.mem_filter.mpr ⟨hrow, hp⟩)
  · cases hfind : findTask (rows.filter p) row.id with
    | none => rfl
    | some u =>
      obtain ⟨hu, huid⟩ := findTask_some hfind
      obtain ⟨hu, hpu⟩ := List.mem_filter.mp hu
      obtain rfl : u = row := List.inj_on_of_nodup_map hnd hu hrow huid
      exact absurd hpu hp

/-- Rewrites of the rows that meet `p`, each of its own row. -/
theorem foldl_modify_filter {s : Store} (hs : s.Distinct) (p : Task → Bool) (f : Task → Task → Task)
    (hid : ∀ t row, (f t row).id = row.id) :
    ((s.tasks.filter p).foldl (fun s t => s.modify t.id (f t)) s).tasks =
      s.tasks.map fun row => if p row then f row row else row := by
  rw [foldl_modify f hid (hs.nodup.sublist ((List.filter_sublist ..).map _))]
  refine List.map_congr_left fun row hrow => ?_
  rw [findTask_filter hs.nodup p hrow]
  cases p row <;> rfl

theorem announcedRow_id (now : String) (task row : Task) : (task.announcedRow now row).id = row.id := by
  unfold Task.announcedRow
  split_ifs <;> simp only [marked_id]

theorem modify_self (s : Store) (id : Int) : (s.modify id fun row => row) = s := by
  simp [Store.modify]

/-- The two blocks as one rewrite. -/
theorem announce_eq (now : String) (b : Board) (task : Task) : b.announce now task =
    ⟨b.store.modify task.id (task.announcedRow now), b.posted ++ task.timeEvents now⟩ := by
  have hmap : ∀ row : Task, (if (row.marked now .due).id = task.id then (row.marked now .due).marked now .overdue
      else row.marked now .due) = if row.id = task.id then (row.marked now .due).marked now .overdue
        else row.marked now .due := fun row => by rw [marked_id]
  unfold Board.announce Board.announceKind Task.announcedRow Task.timeEvents
  split_ifs
  · simp only [Store.markAnnounced, Store.modify, List.map_map, List.append_assoc, Task.date]
    congr 2
    refine List.map_congr_left fun row _ => ?_
    rw [Function.comp_apply]
    by_cases hrow : row.id = task.id
    · rw [if_pos hrow, if_pos hrow, if_pos ((marked_id ..).trans hrow)]
    · rw [if_neg hrow, if_neg hrow, if_neg hrow]
  · simp [Store.markAnnounced, Task.date]
  · simp [Store.markAnnounced, Task.date]
  · simp [modify_self]

theorem foldl_announce (now : String) (rows : List Task) : ∀ b : Board, rows.foldl (Board.announce now) b =
    ⟨rows.foldl (fun s t => s.modify t.id (t.announcedRow now)) b.store, b.posted ++ rows.flatMap (·.timeEvents now)⟩ := by
  induction rows with
  | nil => simp
  | cons t rows ih =>
    intro b
    rw [List.foldl_cons, ih, announce_eq, List.foldl_cons, List.flatMap_cons, List.append_assoc]

/-- The row a sweep leaves: marked where its day has come, if it is open. -/
def Task.sweptRow (now : String) (row : Task) : Task := if isOpen row then row.announcedRow now row else row

theorem announceDue_store {b : Board} (hs : b.store.Distinct) (now : String) :
    (announceDue now b).1.store.tasks = b.store.tasks.map (Task.sweptRow now) := by
  rw [announceDue, foldl_announce]
  show Store.tasks (List.foldl _ _ _) = _
  rw [listTimeAnnouncable, foldl_modify_filter hs _ _ (announcedRow_id now)]
  refine List.map_congr_left fun row _ => ?_
  unfold Task.sweptRow
  cases isOpen row with
  | false => rfl
  | true =>
    cases hdue : row.crossed (dayOf now) .due <;> cases hover : row.crossed (dayOf now) .overdue <;>
      simp [Task.announcedRow, hdue, hover]

theorem announceDue_distinct {b : Board} (hs : b.store.Distinct) (now : String) :
    (announceDue now b).1.store.Distinct := by
  rw [announceDue, foldl_announce]
  show Store.Distinct (List.foldl _ _ _)
  induction listTimeAnnouncable b.store (dayOf now) generalizing b with
  | nil => exact hs
  | cons t rows ih => exact ih (b := ⟨_, []⟩) (modify_distinct (announcedRow_id now t) hs)

/-- What yields nothing need not be kept. -/
theorem flatMap_filter_and {α β : Type} (p q : α → Bool) {f : α → List β} (h : ∀ x, q x = false → f x = [])
    (xs : List α) : (xs.filter fun x => p x && q x).flatMap f = (xs.filter p).flatMap f := by
  induction xs with
  | nil => rfl
  | cons x xs ih =>
    rw [List.filter_cons, List.filter_cons]
    cases p x with
    | false => exact ih
    | true =>
      cases hq : q x with
      | false => simpa [h x hq] using ih
      | true => simpa using ih

theorem announceDue_posted (b : Board) (now : String) : (announceDue now b).1.posted =
    b.posted ++ (b.store.tasks.filter isOpen).flatMap (·.timeEvents now) := by
  rw [announceDue, foldl_announce, listTimeAnnouncable]
  show _ ++ _ = _
  rw [flatMap_filter_and isOpen _ fun t ht => ?_]
  obtain ⟨hdue, hover⟩ := Bool.or_eq_false_iff.mp ht
  simp [Task.timeEvents, hdue, hover]

/-! ## The count of a card's events -/

/-- The events of `id` are the `n` times its marker was taken away, plus one while it is set. -/
structure Counted (kind : TimeKind) (id : Int) (b : Board) (n : Nat) : Prop where
  distinct : b.store.Distinct
  fresh : b.store.seq < id → announced kind id b.posted = 0 ∧ n = 0
  settled : ∀ t ∈ b.store.tasks, t.id = id → announced kind id b.posted = n + (t.marker kind).isSome.toNat

section Count

variable {kind : TimeKind} {id : Int} {b : Board} {n : Nat}

theorem mem_markAnnounced {s : Store} {target : Int} {now : String} {t' : Task}
    (h : t' ∈ (s.markAnnounced target kind now).tasks) :
    ∃ t ∈ s.tasks, t.id = t'.id ∧ t' = if t.id = target then t.marked now kind else t := by
  obtain ⟨t, ht, rfl⟩ := List.mem_map.mp h
  refine ⟨t, ht, ?_, rfl⟩
  split_ifs
  · cases kind <;> rfl
  · rfl

theorem announced_append (posted : List TimeEvent) (e : TimeEvent) :
    announced kind id (posted ++ [e]) = announced kind id posted + (e.kind = kind && e.taskId = id).toNat := by
  rw [announced, List.countP_append, List.countP_singleton]
  congr 1
  cases (e.kind = kind && e.taskId = id) <;> rfl

/-- One block of the loop, run on a row whose marker is still as it was listed. -/
theorem Counted.announceKind (h : Counted kind id b n) (now : String) {task : Task} (kind' : TimeKind)
    (hseq : task.id ≤ b.store.seq) (hclear : kind' = kind → task.id = id →
      task.crossed (dayOf now) kind = true → ∀ t ∈ b.store.tasks, t.id = id → t.marker kind = none) :
    Counted kind id (b.announceKind now task kind') n := by
  unfold Board.announceKind
  split_ifs with hcrossed
  · refine ⟨modify_distinct (fun t => marked_id t now kind') h.distinct, fun hid => ?_, fun t' ht' hid => ?_⟩
    · have hne : task.id ≠ id := by
        intro heq
        exact absurd hid (by rw [← heq]; exact not_lt.mpr hseq)
      rw [announced_append]
      simpa [hne] using h.fresh hid
    · obtain ⟨t, ht, htid, rfl⟩ := mem_markAnnounced ht'
      have hsettled := h.settled t ht (htid.trans hid)
      rw [announced_append]
      by_cases heq : kind' = kind ∧ task.id = id
      · obtain ⟨rfl, rfl⟩ := heq
        rw [hclear rfl rfl hcrossed t ht (htid.trans hid)] at hsettled
        rw [if_pos (htid.trans hid), marked_marker, if_pos rfl]
        simp [hsettled]
      · have hsame : (if t.id = task.id then t.marked now kind' else t).marker kind = t.marker kind := by
          split_ifs with htask
          · rw [marked_marker, if_neg fun hk => heq ⟨hk, htask.symm.trans (htid.trans hid)⟩]
          · rfl
        have hno : (decide (kind' = kind) && decide (task.id = id)) = false := by
          simpa using heq
        rw [hsame, hsettled, hno]
        rfl
  · exact h

/-- The other block leaves the markers of this kind. -/
theorem announceKind_marker (now : String) (task : Task) {kind' : TimeKind} (hkind : kind' ≠ kind) {t' : Task}
    (h : t' ∈ (b.announceKind now task kind').store.tasks) :
    ∃ t ∈ b.store.tasks, t.id = t'.id ∧ t'.marker kind = t.marker kind := by
  unfold Board.announceKind at h
  split_ifs at h
  · obtain ⟨t, ht, htid, heq⟩ := mem_markAnnounced h
    refine ⟨t, ht, htid, ?_⟩
    rw [heq]
    split_ifs
    · rw [marked_marker, if_neg hkind]
    · rfl
  · exact ⟨t', h, rfl, rfl⟩

theorem announceKind_seq (now : String) (task : Task) (kind : TimeKind) :
    (b.announceKind now task kind).store.seq = b.store.seq := by
  unfold Board.announceKind
  split_ifs <;> rfl

theorem Counted.announce (h : Counted kind id b n) (now : String) {task : Task} (hseq : task.id ≤ b.store.seq)
    (hclear : task.id = id → task.crossed (dayOf now) kind = true →
      ∀ t ∈ b.store.tasks, t.id = id → t.marker kind = none) : Counted kind id (b.announce now task) n := by
  have hfirst := h.announceKind now .due hseq fun _ => hclear
  refine hfirst.announceKind now .overdue ((announceKind_seq ..).symm ▸ hseq) ?_
  intro hkind hid hcrossed t' ht' htid'
  have hother : TimeKind.due ≠ kind := hkind ▸ by decide
  obtain ⟨t, ht, htid, hmarker⟩ := announceKind_marker now task hother ht'
  rw [hmarker]
  exact hclear hid hcrossed t ht (htid.trans htid')

/-- A row outside the listed card keeps its markers. -/
theorem announce_other (now : String) (task : Task) {t' : Task} (h : t' ∈ (b.announce now task).store.tasks)
    (hne : t'.id ≠ task.id) : t' ∈ b.store.tasks := by
  have hblock : ∀ {b : Board} {kind : TimeKind}, t' ∈ (b.announceKind now task kind).store.tasks →
      t' ∈ b.store.tasks := by
    intro b kind h
    unfold Board.announceKind at h
    split_ifs at h
    · obtain ⟨t, ht, htid, heq⟩ := mem_markAnnounced h
      rw [if_neg fun htask => hne (htid.symm.trans htask)] at heq
      exact heq ▸ ht
    · exact h
  exact hblock (hblock h)

end Count

/-- What a step of a sweep keeps. -/
structure Sweep.Sound (kind : TimeKind) (id : Int) (s : Sweep) (n : Nat) : Prop where
  counted : Counted kind id s.board n
  nodup : (s.pending.map (·.id)).Nodup
  le_seq : ∀ p ∈ s.pending, p.id ≤ s.board.store.seq
  /-- Nothing but the sweep stamps a marker, so a listed crossing is still unmarked. -/
  unmarked : ∀ p ∈ s.pending, p.id = id → p.crossed (dayOf s.now) kind = true →
    ∀ t ∈ s.board.store.tasks, t.id = id → t.marker kind = none

theorem Sweep.Sound.empty (kind : TimeKind) (id : Int) : Sweep.empty.Sound kind id 0 where
  counted := ⟨.empty, fun _ => ⟨rfl, rfl⟩, fun _ ht => absurd ht List.not_mem_nil⟩
  nodup := List.nodup_nil
  le_seq _ hp := absurd hp List.not_mem_nil
  unmarked _ hp := absurd hp List.not_mem_nil

section Steps

variable {kind : TimeKind} {id : Int} {s t : Sweep} {n : Nat}

theorem rearms_of_row {env : Env} {op : Op} {store : Store} {task : Task} (hs : s.board.store.Distinct)
    (hrun : op.run env s.board.store = .ok store) (htask : task ∈ s.board.store.tasks) :
    (SweepAct.call env op).rearms kind task.id s = ((task.marker kind).isSome && op.rearms kind task) := by
  simp only [SweepAct.rearms, hrun, Except.isOk, Except.toBool, Bool.true_and]
  rw [Bool.eq_iff_iff, List.any_eq_true]
  constructor
  · rintro ⟨u, hu, h⟩
    simp only [Bool.and_eq_true, decide_eq_true_eq] at h
    obtain ⟨⟨hid, hmarker⟩, hop⟩ := h
    obtain rfl := hs.unique hu htask hid
    simp [hmarker, hop]
  · intro h
    exact ⟨task, htask, by simpa using h⟩

theorem rearms_of_fresh (env : Env) (op : Op) (hs : s.board.store.Distinct) (hid : s.board.store.seq < id) :
    (SweepAct.call env op).rearms kind id s = false := by
  have hrow : ∀ t ∈ s.board.store.tasks, t.id ≠ id := fun t ht heq => absurd (hs.le_seq t ht) (by omega)
  simp only [SweepAct.rearms, Bool.and_eq_false_iff, List.any_eq_false]
  exact .inr fun t ht => by simp [hrow t ht]

theorem Sweep.Sound.call (h : s.Sound kind id n) {env : Env} {op : Op} {store : Store}
    (hrun : op.run env s.board.store = .ok store) : Sound kind id { s with board := { s.board with store } }
      (n + ((SweepAct.call env op).rearms kind id s).toNat) := by
  have hs := h.counted.distinct
  have hmarkers := op.run_markers hs hrun
  refine ⟨⟨(op.run_rows hs hrun).1, fun hid => ?_, fun t' ht' hid => ?_⟩, h.nodup,
    fun p hp => (h.le_seq p hp).trans (Op.seq_le hrun), fun p hp hpid hcrossed t' ht' hid => ?_⟩
  · have hlt : s.board.store.seq < id := (Op.seq_le hrun).trans_lt hid
    obtain ⟨hposted, rfl⟩ := h.counted.fresh hlt
    rw [rearms_of_fresh env op hs hlt]
    exact ⟨hposted, rfl⟩
  · rcases hmarkers t' ht' with ⟨t, ht, htid, hmarker⟩ | ⟨hnew, hmarker⟩
    · obtain rfl : t.id = id := htid.trans hid
      rw [h.counted.settled t ht rfl, rearms_of_row hs hrun ht, hmarker kind]
      cases op.rearms kind t <;> simp
    · have hlt : s.board.store.seq < id := by omega
      obtain ⟨hposted, rfl⟩ := h.counted.fresh hlt
      rw [hposted, hmarker kind, rearms_of_fresh env op hs hlt]
      rfl
  · have hp := h.unmarked p hp hpid hcrossed
    rcases hmarkers t' ht' with ⟨t, ht, htid, hmarker⟩ | ⟨-, hmarker⟩
    · rw [hmarker kind, hp t ht (htid.trans hid), ite_self]
    · exact hmarker kind

theorem Sweep.Sound.list (h : s.Sound kind id n) (now : String) :
    Sound kind id { s with now, pending := listTimeAnnouncable s.board.store (dayOf now) } n where
  counted := h.counted
  nodup := h.counted.distinct.nodup.sublist ((List.filter_sublist ..).map _)
  le_seq _ hp := h.counted.distinct.le_seq _ (List.mem_of_mem_filter hp)
  unmarked p hp hpid hcrossed t ht hid := by
    obtain rfl := h.counted.distinct.unique ht (List.mem_of_mem_filter hp) (hid.trans hpid.symm)
    simp only [Task.crossed, Bool.and_eq_true, Option.isNone_iff_eq_none] at hcrossed
    exact hcrossed.1

theorem Sweep.Sound.announce (h : s.Sound kind id n) {task : Task} {pending : List Task}
    (hpending : s.pending = task :: pending) :
    Sound kind id { s with board := s.board.announce s.now task, pending } n := by
  have htask : task ∈ s.pending := hpending ▸ List.mem_cons_self
  have hrest : ∀ p ∈ pending, p ∈ s.pending := fun p hp => hpending ▸ List.mem_cons_of_mem _ hp
  have hnodup := h.nodup
  rw [hpending, List.map_cons, List.nodup_cons] at hnodup
  refine ⟨h.counted.announce s.now (h.le_seq task htask) (h.unmarked task htask), hnodup.2, fun p hp => ?_,
    fun p hp hpid hcrossed t ht hid => ?_⟩
  · show p.id ≤ ((s.board.announceKind s.now task .due).announceKind s.now task .overdue).store.seq
    rw [announceKind_seq, announceKind_seq]
    exact h.le_seq p (hrest p hp)
  · have hne : t.id ≠ task.id := fun heq =>
      hnodup.1 (heq ▸ hid.trans hpid.symm ▸ List.mem_map_of_mem hp)
    exact h.unmarked p (hrest p hp) hpid hcrossed t (announce_other s.now task ht hne) hid

theorem Sweep.Sound.step {act : SweepAct} (h : s.Sound kind id n) (hstep : s.step act = some t) :
    t.Sound kind id (n + (act.rearms kind id s).toNat) := by
  cases act with
  | call env op =>
    simp only [Sweep.step] at hstep
    split at hstep
    · rename_i store hrun
      cases hstep
      exact h.call hrun
    · rename_i e hrun
      cases hstep
      simpa [SweepAct.rearms, hrun, Except.isOk, Except.toBool] using h
  | list now =>
    simp only [Sweep.step] at hstep
    split at hstep
    · cases hstep
      exact h.list now
    · cases hstep
  | announce =>
    simp only [Sweep.step] at hstep
    split at hstep
    · cases hstep
    · rename_i task pending hpending
      cases hstep
      exact h.announce hpending

end Steps

theorem Sweep.Sound.run {acts : List SweepAct} {s : Sweep} (h : Sweep.run acts = some s) (kind : TimeKind)
    (id : Int) : s.Sound kind id (countActs Sweep.step (fun s act => act.rearms kind id s) Sweep.empty acts) := by
  have hsound := runActs_counts (p := fun s act => SweepAct.rearms kind id s act) (fun _ hstep hs => hs.step hstep)
    (Sweep.Sound.empty kind id) h
  rwa [Nat.zero_add] at hsound

/-- A card announced, moved and announced again; the last sweep finds nothing. -/
def sampleSweep : List SweepAct :=
  [.call sampleEnv (.create { sampleTask "A" none [] with dueAt := some "2026-08-01" }), .list "2026-08-08",
    .announce, .call sampleEnv (.update 1 { dueAt := some (some "2026-08-05T09:00:00Z") }), .list "2026-08-09",
    .announce, .list "2026-08-10"]

def sampleAnnounced : Task :=
  { sampleRow 1 "A" none [] with
    dueAt := some "2026-08-05T09:00:00Z", dueAnnouncedAt := some "2026-08-09" }

def sampleSwept : Sweep :=
  ⟨⟨⟨[sampleAnnounced], 1⟩, [⟨.due, 1, some "2026-08-01"⟩, ⟨.due, 1, some "2026-08-05T09:00:00Z"⟩]⟩, "2026-08-10", []⟩

end Nanna.Tasks
