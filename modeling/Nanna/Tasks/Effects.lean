import Nanna.Tasks.Repository

/-!
# What a call does to the rows of a scope

`RowsStep` lists everything one successful call can do to the rows of one scope, with the checks
it passed; `Op.run_rows` says it is everything. An invariant of the task graph is then proved by
one case analysis over `RowsStep`, without the store or the code of the operations.

The store-level facts used are that ids are distinct over all scopes (`Store.Distinct`), so that a
row belongs to one scope, and that a batch of `write_task`s is a map over the rows.
-/

namespace Nanna.Tasks

open Nanna.Lib Relation

/-! ## Distinct ids -/

structure Store.Distinct (s : Store) : Prop where
  nodup : (s.tasks.map (·.id)).Nodup
  le_seq : ∀ t ∈ s.tasks, t.id ≤ s.seq

theorem Store.Distinct.empty : Store.empty.Distinct := ⟨by simp [Store.empty], by simp [Store.empty]⟩

theorem inScope_iff {task : Task} {sc : Scope} : task.inScope sc = true ↔ task.scopeOf = sc := by
  simp [Task.inScope, Task.scopeOf, Prod.ext_iff]

theorem mem_loadScope {s : Store} {sc : Scope} {t : Task} :
    t ∈ s.loadScope sc ↔ t ∈ s.tasks ∧ t.scopeOf = sc := by
  rw [Store.loadScope, List.mem_filter, inScope_iff]

theorem Store.Distinct.scope_nodup {s : Store} (h : s.Distinct) (sc : Scope) :
    ((s.loadScope sc).map (·.id)).Nodup :=
  h.nodup.sublist ((List.filter_sublist ..).map _)

/-- Two rows with one id are one row. -/
theorem Store.Distinct.unique {s : Store} (h : s.Distinct) {t u : Task} (ht : t ∈ s.tasks)
    (hu : u ∈ s.tasks) (hid : t.id = u.id) : t = u :=
  List.inj_on_of_nodup_map h.nodup ht hu hid

theorem getRaw_ok {s : Store} {id : Int} {task : Task} (h : s.getRaw id = .ok task) :
    task ∈ s.tasks ∧ task.id = id := by
  unfold Store.getRaw at h
  split at h
  · rename_i found hfound
    cases h
    exact findTask_some hfound
  · cases h

theorem getRaw_isOk {s : Store} {id : Int} :
    (∃ task, s.getRaw id = .ok task) ↔ id ∈ s.tasks.map (·.id) := by
  constructor
  · rintro ⟨task, h⟩
    obtain ⟨hmem, rfl⟩ := getRaw_ok h
    exact List.mem_map_of_mem hmem
  · intro h
    obtain ⟨t, ht, hid⟩ := List.mem_map.mp h
    obtain ⟨found, hfound⟩ := Option.isSome_iff_exists.mp (findTask_isSome.mpr ⟨t, ht, hid⟩)
    exact ⟨found, by rw [Store.getRaw, hfound]⟩

theorem getRaw_of_mem {s : Store} (hs : s.Distinct) {task : Task} (h : task ∈ s.tasks) :
    s.getRaw task.id = .ok task := by
  rw [Store.getRaw, findTask_of_mem hs.nodup h]

theorem get_isOk {s : Store} {id : Int} : (∃ task, get s id = .ok task) ↔ id ∈ s.tasks.map (·.id) := by
  rw [← getRaw_isOk]
  constructor
  · rintro ⟨task, h⟩
    obtain ⟨raw, hraw, -⟩ := bind_eq_ok.mp h
    exact ⟨raw, hraw⟩
  · rintro ⟨raw, hraw⟩
    unfold get
    rw [hraw]
    by_cases hdeps : raw.dependsOn = []
    · exact ⟨raw, if_pos hdeps⟩
    · exact ⟨_, if_neg hdeps⟩

theorem mem_list {s : Store} {sc : Scope} {t : Task} : t ∈ list s sc true ↔
    ∃ row ∈ s.loadScope sc, t = { row with blocked := isBlocked row (s.loadScope sc) } := by
  rw [list, (List.perm_insertionSort _ _).mem_iff, if_pos rfl, List.mem_map]
  exact ⟨fun ⟨row, hrow, heq⟩ => ⟨row, hrow, heq.symm⟩, fun ⟨row, hrow, heq⟩ => ⟨row, hrow, heq.symm⟩⟩

theorem mem_openList {s : Store} {sc : Scope} {t : Task} : t ∈ list s sc false ↔
    ∃ row ∈ s.loadScope sc,
      isOpen row = true ∧ t = { row with blocked := isBlocked row (s.loadScope sc) } := by
  rw [list, if_neg Bool.false_ne_true, (List.perm_insertionSort _ _).mem_iff, List.mem_filter, List.mem_map]
  constructor
  · rintro ⟨⟨row, hrow, rfl⟩, hopen⟩
    exact ⟨row, hrow, hopen, rfl⟩
  · rintro ⟨row, hrow, hopen, rfl⟩
    exact ⟨⟨row, hrow, rfl⟩, hopen⟩

/-! ## A new row -/

theorem loadScope_insert (s : Store) (now : String) (new : NewTask) (sc : Scope) :
    (s.insert now new).loadScope sc =
      s.loadScope sc ++ [new.toRow (s.seq + 1) now].filter (·.inScope sc) :=
  List.filter_append ..

theorem Store.Distinct.insert {s : Store} (h : s.Distinct) (now : String) (new : NewTask) :
    (s.insert now new).Distinct := by
  refine ⟨?_, fun u hu => ?_⟩
  · rw [Store.insert, List.map_append, List.nodup_append]
    refine ⟨h.nodup, by simp, fun a ha b hb => ?_⟩
    obtain ⟨u, hu, rfl⟩ := List.mem_map.mp ha
    have hle := h.le_seq u hu
    simp only [List.map_cons, List.map_nil, List.mem_singleton, NewTask.toRow] at hb
    omega
  · rcases List.mem_append.mp hu with hu | hu
    · exact (h.le_seq u hu).trans (Int.le_add_one (le_refl _))
    · rw [List.mem_singleton.mp hu]
      exact le_refl _

/-! ## Maps over the rows -/

theorem modify_loadScope (s : Store) (id : Int) (f : Task → Task)
    (hf : ∀ t, (f t).scopeOf = t.scopeOf) (sc : Scope) :
    (s.modify id f).loadScope sc =
      (s.loadScope sc).map fun row => if row.id = id then f row else row := by
  unfold Store.loadScope Store.modify
  rw [List.filter_map]
  congr 1
  refine List.filter_congr fun t _ => ?_
  rw [Function.comp_apply, Bool.eq_iff_iff, inScope_iff, inScope_iff]
  split_ifs
  · rw [hf]
  · rfl

theorem modify_ids {s : Store} (id : Int) {f : Task → Task} (hf : ∀ t, (f t).id = t.id) :
    (s.modify id f).tasks.map (·.id) = s.tasks.map (·.id) := by
  rw [Store.modify, List.map_map]
  refine List.map_congr_left fun t _ => ?_
  rw [Function.comp_apply]
  split_ifs
  · exact hf t
  · rfl

theorem modify_distinct {s : Store} {id : Int} {f : Task → Task} (hf : ∀ t, (f t).id = t.id)
    (h : s.Distinct) : (s.modify id f).Distinct := by
  refine ⟨?_, fun t ht => ?_⟩
  · rw [modify_ids id hf]
    exact h.nodup
  · have hid := List.mem_map_of_mem (f := (·.id)) ht
    rw [modify_ids id hf] at hid
    obtain ⟨u, hu, heq⟩ := List.mem_map.mp hid
    rw [← heq]
    exact h.le_seq u hu

theorem writeAll_ids {now : String} (writes : List Task) : ∀ s : Store,
    (s.writeAll now writes).tasks.map (·.id) = s.tasks.map (·.id) := by
  induction writes with
  | nil => exact fun _ => rfl
  | cons w writes ih => exact fun s => (ih _).trans (modify_ids w.id fun _ => rfl)

theorem markAllDone_ids {now : String} (ids : List Int) : ∀ s : Store,
    (s.markAllDone now ids).tasks.map (·.id) = s.tasks.map (·.id) := by
  induction ids with
  | nil => exact fun _ => rfl
  | cons id ids ih => exact fun s => (ih _).trans (modify_ids id fun _ => rfl)

/-- The write of a commit, once its checks passed. -/
theorem commitUpdate_ok {env : Env} {s s' : Store} {patch : TaskPatch} {p : Patched}
    (h : commitUpdate env s patch p = .ok s') :
    checkIf ("assignee" ∈ p.2) (ensureMemberExists env p.1.assignee "assignee") = .ok () ∧
      s' = s.writeTask env.now p.1 := by
  obtain ⟨⟨⟩, hmember, h⟩ := bind_eq_ok.mp h
  obtain ⟨⟨⟩, -, h⟩ := bind_eq_ok.mp h
  cases h
  exact ⟨hmember, rfl⟩

theorem ne_done_of_isOpen {task : Task} (h : isOpen task = true) : task.status ≠ .done := by
  intro hdone
  rw [isOpen, hdone] at h
  cases h

theorem openChildren_eq_nil {rows : List Task} {id : Int} :
    openChildren rows id = [] ↔ ∀ t ∈ rows, t.parentId = some id → isOpen t = false := by
  rw [openChildren, List.map_eq_nil_iff, List.filter_eq_nil_iff]
  refine forall₂_congr fun t _ => ?_
  simp

/-- A completion marks a task without open children. -/
theorem completeMark_eq_ok {now : String} {s s' : Store} {task : Task} : completeMark now s task = .ok s' ↔
    openChildren (s.loadScope task.scopeOf) task.id = [] ∧ s' = s.markDone now task.id := by
  simp only [completeMark]
  split_ifs with hchildren
  · exact ⟨nofun, fun h => absurd h.1 hchildren⟩
  · exact ⟨fun h => ⟨not_not.mp hchildren, (Except.ok.inj h).symm⟩, fun h => congrArg Except.ok h.2.symm⟩

/-- What a batch of `write_task`s leaves of a row. -/
def rewriteRow (now : String) (writes : List Task) (row : Task) : Task :=
  match findTask writes row.id with
  | some task => overwrite now row task
  | none => row

theorem rewriteRow_id (now : String) (writes : List Task) (row : Task) :
    (rewriteRow now writes row).id = row.id := by
  unfold rewriteRow
  split <;> rfl

theorem rewriteRow_of_not_mem {now : String} {writes : List Task} {row : Task}
    (h : row.id ∉ writes.map (·.id)) : rewriteRow now writes row = row := by
  unfold rewriteRow
  split
  · rename_i task htask
    obtain ⟨hmem, hid⟩ := findTask_some htask
    exact absurd (List.mem_map.mpr ⟨task, hmem, hid⟩) h
  · rfl

theorem writeTask_loadScope (s : Store) (now : String) (task : Task) (sc : Scope) :
    (s.writeTask now task).loadScope sc =
      (s.loadScope sc).map fun row => if row.id = task.id then overwrite now row task else row :=
  modify_loadScope s task.id (fun row => overwrite now row task) (fun _ => rfl) sc

theorem writeAll_loadScope {now : String} {writes : List Task} (hnd : (writes.map (·.id)).Nodup)
    (sc : Scope) : ∀ s : Store,
      (s.writeAll now writes).loadScope sc = (s.loadScope sc).map (rewriteRow now writes) := by
  induction writes with
  | nil =>
    intro s
    have hid : rewriteRow now [] = id := rfl
    rw [hid, List.map_id]
    rfl
  | cons w writes ih =>
    intro s
    rw [List.map_cons, List.nodup_cons] at hnd
    obtain ⟨hw, hnd⟩ := hnd
    have hstep : (s.writeAll now (w :: writes)) = (s.writeTask now w).writeAll now writes := rfl
    rw [hstep, ih hnd, writeTask_loadScope, List.map_map]
    refine List.map_congr_left fun row _ => ?_
    rw [Function.comp_apply]
    by_cases hrow : row.id = w.id
    · rw [if_pos hrow, rewriteRow_of_not_mem (by simpa [overwrite, hrow] using hw)]
      simp [rewriteRow, findTask, hrow]
    · rw [if_neg hrow]
      simp [rewriteRow, findTask, Ne.symm hrow]

theorem writeAll_distinct {now : String} (writes : List Task) :
    ∀ {s : Store}, s.Distinct → (s.writeAll now writes).Distinct := by
  induction writes with
  | nil => exact fun h => h
  | cons w writes ih => exact fun h => ih (modify_distinct (fun _ => rfl) h)

theorem markAllDone_loadScope {now : String} (sc : Scope) : ∀ (ids : List Int) (s : Store),
    (s.markAllDone now ids).loadScope sc =
      (s.loadScope sc).map fun row => if row.id ∈ ids then markedDone now row else row := by
  intro ids
  induction ids with
  | nil => intro s; simp [Store.markAllDone]
  | cons id ids ih =>
    intro s
    have hstep : s.markAllDone now (id :: ids) = (s.markDone now id).markAllDone now ids := rfl
    rw [hstep, ih, Store.markDone, modify_loadScope s id (markedDone now) (fun _ => rfl),
      List.map_map]
    refine List.map_congr_left fun row _ => ?_
    rw [Function.comp_apply]
    by_cases hrow : row.id = id
    · subst hrow
      by_cases hids : row.id ∈ ids <;> simp [hids, markedDone]
    · simp [hrow]

theorem markAllDone_distinct {now : String} (ids : List Int) :
    ∀ {s : Store}, s.Distinct → (s.markAllDone now ids).Distinct := by
  induction ids with
  | nil => exact fun h => h
  | cons id ids ih => exact fun h => ih (modify_distinct (fun _ => rfl) h)

/-! ## The plan of a cascade -/

/-- A row `cascade_cancel` of `task` writes. -/
inductive CascadeWrite (rows : List Task) (task : Task) : Task → Prop
  | reparented {t : Task} {current : Int} {k : Nat} : t ∈ rows → t.parentId = some current →
      Up (parentOf rows) k current task.id → ownContract rows task current t = true →
      CascadeWrite rows task { t with parentId := task.parentId }
  | cancelled {t : Task} : t ∈ rows → isOpen t = true →
      CascadeWrite rows task { t with status := .cancelled }

structure CascadeInv (rows : List Task) (task : Task) (c : Cascade) : Prop where
  root_seen : task.id ∈ c.seen
  nodup : (c.writes.map (·.id)).Nodup
  writes_seen : ∀ w ∈ c.writes, w.id ∈ c.seen ∧ w.id ≠ task.id
  queue_up : ∀ q ∈ c.queue, ∃ k, Up (parentOf rows) k q task.id
  writes : ∀ w ∈ c.writes, CascadeWrite rows task w

/-- Recording one more write for a fresh id. -/
theorem CascadeInv.write {rows : List Task} {task : Task} {c : Cascade} (h : CascadeInv rows task c)
    (w : Task) (hfresh : w.id ∉ c.seen) (hw : CascadeWrite rows task w) :
    CascadeInv rows task { c with seen := w.id :: c.seen, writes := c.writes ++ [w] } := by
  refine ⟨List.mem_cons_of_mem _ h.root_seen, ?_, fun v hv => ?_, h.queue_up, fun v hv => ?_⟩
  · rw [List.map_append, List.nodup_append]
    refine ⟨h.nodup, by simp, fun a ha b hb => ?_⟩
    obtain ⟨v, hv, rfl⟩ := List.mem_map.mp ha
    rintro rfl
    simp only [List.map_cons, List.map_nil, List.mem_singleton] at hb
    exact hfresh (hb ▸ (h.writes_seen v hv).1)
  · rcases List.mem_append.mp hv with hv | hv
    · exact ⟨List.mem_cons_of_mem _ (h.writes_seen v hv).1, (h.writes_seen v hv).2⟩
    · rw [List.mem_singleton.mp hv]
      exact ⟨by simp, fun hroot => hfresh (hroot ▸ h.root_seen)⟩
  · rcases List.mem_append.mp hv with hv | hv
    · exact h.writes v hv
    · rw [List.mem_singleton.mp hv]
      exact hw

theorem CascadeInv.see {rows : List Task} {task : Task} {c : Cascade} (h : CascadeInv rows task c)
    (id : Int) : CascadeInv rows task { c with seen := id :: c.seen } :=
  ⟨List.mem_cons_of_mem _ h.root_seen, h.nodup,
    fun w hw => ⟨List.mem_cons_of_mem _ (h.writes_seen w hw).1, (h.writes_seen w hw).2⟩,
    h.queue_up, h.writes⟩

theorem CascadeInv.enqueue {rows : List Task} {task : Task} {c : Cascade}
    (h : CascadeInv rows task c) {id : Int} (hup : ∃ k, Up (parentOf rows) k id task.id) :
    CascadeInv rows task { c with queue := c.queue ++ [id] } := by
  refine ⟨h.root_seen, h.nodup, h.writes_seen, fun q hq => ?_, h.writes⟩
  rcases List.mem_append.mp hq with hq | hq
  · exact h.queue_up q hq
  · rw [List.mem_singleton.mp hq]
    exact hup

theorem cascadeChild_inv {rows : List Task} {task : Task} {current : Int} {c : Cascade} {t : Task}
    {k : Nat} (hnd : (rows.map (·.id)).Nodup) (ht : t ∈ rows)
    (hcur : Up (parentOf rows) k current task.id) (h : CascadeInv rows task c) :
    CascadeInv rows task (cascadeChild rows task current c t) := by
  unfold cascadeChild
  have hup (hp : t.parentId = some current) : ∃ k, Up (parentOf rows) k t.id task.id :=
    ⟨k + 1, .step ((parentOf_of_mem hnd ht).trans hp) hcur⟩
  split_ifs with hmeet hown hopen
  · have hwrite : CascadeWrite rows task { t with parentId := task.parentId } :=
      .reparented ht hmeet.1 hcur hown
    exact h.write { t with parentId := task.parentId } hmeet.2 hwrite
  · have hwrite : CascadeWrite rows task { t with status := .cancelled } := .cancelled ht hopen
    exact (h.write { t with status := .cancelled } hmeet.2 hwrite).enqueue (hup hmeet.1)
  · exact (h.see t.id).enqueue (hup hmeet.1)
  · exact h

theorem cascadeFrom_inv {rows : List Task} {task : Task} (hnd : (rows.map (·.id)).Nodup) :
    ∀ (fuel : Nat) {c : Cascade}, CascadeInv rows task c →
      CascadeInv rows task (cascadeFrom rows task fuel c) := by
  intro fuel
  induction fuel with
  | zero => exact fun h => h
  | succ fuel ih =>
    intro c h
    unfold cascadeFrom
    split
    · exact h
    · rename_i current queue hqueue
      obtain ⟨k, hcur⟩ := h.queue_up current (by simp [hqueue])
      have hpop : CascadeInv rows task { c with queue } :=
        ⟨h.root_seen, h.nodup, h.writes_seen, fun q hq => h.queue_up q (by simp [hqueue, hq]),
          h.writes⟩
      have hfold : ∀ (l : List Task), (∀ t ∈ l, t ∈ rows) → ∀ c, CascadeInv rows task c →
          CascadeInv rows task (l.foldl (cascadeChild rows task current) c) := by
        intro l
        induction l with
        | nil => exact fun _ _ h => h
        | cons t l ihl =>
          intro hl c hc
          exact ihl (fun u hu => hl u (by simp [hu])) _
            (cascadeChild_inv hnd (hl t (by simp)) hcur hc)
      exact ih (hfold rows (fun _ h => h) _ hpop)

/-- A cascade writes each row at most once and never the cancelled task; it cancels open rows and
moves open rows with a check of their own up to the cancelled task's parent. -/
theorem cascadePlan_spec {rows : List Task} (hnd : (rows.map (·.id)).Nodup) (task : Task) :
    ((cascadePlan rows task).map (·.id)).Nodup ∧
      ∀ w ∈ cascadePlan rows task, w.id ≠ task.id ∧ CascadeWrite rows task w := by
  have hstart : CascadeInv rows task ⟨[task.id], [task.id], []⟩ :=
    ⟨by simp, by simp, by simp, fun q hq => ⟨0, List.mem_singleton.mp hq ▸ .here _⟩, by simp⟩
  have h := cascadeFrom_inv hnd (rows.length + 1) hstart
  exact ⟨h.nodup, fun w hw => ⟨(h.writes_seen w hw).2, h.writes w hw⟩⟩

/-! ## The steps of a scope's rows -/

/-- The rows with one of them rewritten from `task`. -/
def patchedRows (now : String) (rows : List Task) (task : Task) : List Task :=
  rows.map fun row => if row.id = task.id then overwrite now row task else row

/-- The rows once the cancellation of `task` has run its cascade. -/
def cascadedRows (now : String) (rows : List Task) (task : Task) : List Task :=
  rows.map (rewriteRow now (cascadePlan rows task))

/-- The rows without the subtree of `id` and without the references to it. -/
def deletedRows (now : String) (rows : List Task) (id : Int) : List Task :=
  (rows.filter (·.id ∉ subtreeIdsFrom rows id)).map
    (rewriteRow now (strippedRows rows (subtreeIdsFrom rows id)))

/-- What one successful call does to the rows of the scope `sc`. -/
inductive RowsStep (env : Env) (sc : Scope) (rows : List Task) : Op → List Task → Prop
  | same (op : Op) : RowsStep env sc rows op rows
  | create {new new' : NewTask} {id : Int} : admitNewTask env new = .ok new' →
      (new'.scope, new'.scopeId) = sc → checkCreate rows new' = .ok () → (∀ t ∈ rows, t.id < id) →
      RowsStep env sc rows (.create new) (rows ++ [new'.toRow id env.now])
  | update {task : Task} {patch : TaskPatch} {p : Patched} : task ∈ rows →
      applyPatch env task patch = .ok p →
      (needsGraphCheck patch = true →
        checkGraphUpdate (putTask rows p.1) p.1 patch.parentId.isSome = .ok ()) →
      RowsStep env sc rows (.update task.id patch)
        (if cancels p then cascadedRows env.now (patchedRows env.now rows p.1) p.1
          else patchedRows env.now rows p.1)
  | complete {task : Task} : task ∈ rows → task.status ≠ .done → openChildren rows task.id = [] →
      RowsStep env sc rows (.complete task.id)
        (rows.map fun row =>
          if row.id ∈ task.id :: autoComplete rows task then markedDone env.now row else row)
  | reopen {task : Task} : task ∈ rows → task.status.isClosed = true →
      RowsStep env sc rows (.reopen task.id)
        (rows.map fun row => if row.id = task.id then reopened env.now row else row)
  | delete {task : Task} : task ∈ rows →
      RowsStep env sc rows (.delete task.id) (deletedRows env.now rows task.id)
  | clear {closedOnly : Bool} {rows' : List Task} :
      ReflTransGen (fun a b => ∃ task ∈ a, b = deletedRows env.now a task.id) rows rows' →
      RowsStep env sc rows (.clear sc closedOnly) rows'

section Calls

variable {env : Env} {s s' : Store}

/-- Rows of different scopes have different ids. -/
theorem Store.Distinct.scope_eq (h : s.Distinct) {sc sc' : Scope} {t u : Task}
    (ht : t ∈ s.loadScope sc) (hu : u ∈ s.loadScope sc') (hid : t.id = u.id) : sc = sc' := by
  rw [mem_loadScope] at ht hu
  rw [← ht.2, ← hu.2, h.unique ht.1 hu.1 hid]

theorem map_eq_self {rows : List Task} {f : Task → Task} (h : ∀ t ∈ rows, f t = t) :
    rows.map f = rows := by
  rw [List.map_congr_left h, List.map_id']

theorem map_ids {rows : List Task} {f : Task → Task} (hid : ∀ t, (f t).id = t.id) :
    (rows.map f).map (·.id) = rows.map (·.id) := by
  rw [List.map_map]
  exact List.map_congr_left fun t _ => hid t

theorem patchedRow_id (now : String) (task row : Task) :
    (if row.id = task.id then overwrite now row task else row).id = row.id := by
  split_ifs <;> rfl

theorem create_rows {new : NewTask} {t : Task} (hs : s.Distinct)
    (h : create env s new = .ok (s', t)) :
    s'.Distinct ∧ ∀ sc, RowsStep env sc (s.loadScope sc) (.create new) (s'.loadScope sc) := by
  obtain ⟨new', hchecked, h⟩ := bind_eq_ok.mp h
  obtain ⟨⟨⟩, hcheck, h⟩ := bind_eq_ok.mp h
  obtain ⟨s₁, hinsert, h⟩ := bind_eq_ok.mp h
  obtain ⟨⟨⟩, -, hinsert⟩ := bind_eq_ok.mp hinsert
  cases h
  cases hinsert
  refine ⟨hs.insert env.now new', fun sc => ?_⟩
  rw [loadScope_insert]
  by_cases hsc : (new'.scope, new'.scopeId) = sc
  · have hin : (new'.toRow (s.seq + 1) env.now).inScope sc = true := inScope_iff.mpr hsc
    simp only [List.filter_cons, hin, if_true, List.filter_nil]
    subst hsc
    exact .create hchecked rfl hcheck fun u hu =>
      Int.lt_add_one_of_le (hs.le_seq u (mem_loadScope.mp hu).1)
  · have hin : ¬ (new'.toRow (s.seq + 1) env.now).inScope sc = true := fun h =>
      hsc (inScope_iff.mp h)
    simp only [List.filter_cons, hin, if_false, List.filter_nil, List.append_nil,
      Bool.false_eq_true]
    exact .same _

/-- The new row is the task that was asked for, its check as the store takes it. -/
theorem create_row {new : NewTask} {t : Task} (h : create env s new = .ok (s', t)) :
    ∃ acceptance, admitOption env new.acceptance = .ok acceptance ∧ t ∈ s'.tasks ∧
      t = { new with acceptance }.toRow (s.seq + 1) env.now := by
  obtain ⟨new', hadmit, h⟩ := bind_eq_ok.mp h
  obtain ⟨⟨⟩, -, h⟩ := bind_eq_ok.mp h
  obtain ⟨s₁, hinsert, h⟩ := bind_eq_ok.mp h
  obtain ⟨⟨⟩, -, hinsert⟩ := bind_eq_ok.mp hinsert
  obtain ⟨⟨⟩, -, hadmit⟩ := bind_eq_ok.mp hadmit
  obtain ⟨acceptance, hacceptance, hadmit⟩ := bind_eq_ok.mp hadmit
  cases h
  cases hinsert
  cases hadmit
  exact ⟨acceptance, hacceptance, List.mem_append_right _ (List.mem_singleton.mpr rfl), rfl⟩

/-- What `update` leaves of every scope. -/
theorem update_loadScope {id : Int} {patch : TaskPatch} {t : Task} (hs : s.Distinct)
    (h : update env s id patch = .ok (s', t)) :
    s'.Distinct ∧ get s' id = .ok t ∧ ∃ task ∈ s.tasks, task.id = id ∧
      ∃ p, applyPatch env task patch = .ok p ∧
        (needsGraphCheck patch = true →
          checkGraphUpdate (putTask (s.loadScope task.scopeOf) p.1) p.1 patch.parentId.isSome = .ok ()) ∧
        ∀ sc, s'.loadScope sc =
          if sc = task.scopeOf then
            if cancels p then cascadedRows env.now (patchedRows env.now (s.loadScope sc) p.1) p.1
            else patchedRows env.now (s.loadScope sc) p.1
          else s.loadScope sc := by
  obtain ⟨task, hget, h⟩ := bind_eq_ok.mp h
  obtain ⟨p', hprep, h⟩ := bind_eq_ok.mp h
  obtain ⟨s₁, hcommit, h⟩ := bind_eq_ok.mp h
  obtain ⟨t', hread, h⟩ := bind_eq_ok.mp h
  cases h
  obtain ⟨p, hpatch, hprep⟩ := bind_eq_ok.mp hprep
  obtain ⟨⟨⟩, -, hprep⟩ := bind_eq_ok.mp hprep
  cases hprep
  obtain ⟨⟨⟩, -, hcommit⟩ := bind_eq_ok.mp hcommit
  obtain ⟨⟨⟩, hgraph, hcommit⟩ := bind_eq_ok.mp hcommit
  cases hcommit
  obtain ⟨htask, rfl⟩ := getRaw_ok hget
  have hspec := applyPatch_spec hpatch
  have hs₁ : (s.writeTask env.now p.1).Distinct := modify_distinct (fun _ => rfl) hs
  have hmem : task ∈ s.loadScope task.scopeOf := mem_loadScope.mpr ⟨htask, rfl⟩
  have hload : ∀ sc, (s.writeTask env.now p.1).loadScope sc =
      patchedRows env.now (s.loadScope sc) p.1 := writeTask_loadScope s env.now p.1
  have hplan := cascadePlan_spec (hs₁.scope_nodup p.1.scopeOf) p.1
  have hcascade : ∀ sc, (cascadeCancel env.now (s.writeTask env.now p.1) p.1).loadScope sc =
      (patchedRows env.now (s.loadScope sc) p.1).map
        (rewriteRow env.now (cascadePlan (patchedRows env.now (s.loadScope p.1.scopeOf) p.1) p.1)) := by
    intro sc
    rw [cascadeCancel, writeAll_loadScope hplan.1, hload, hload]
  refine ⟨?_, hread, task, htask, rfl, p, hpatch, fun hneeds => ?_, fun sc => ?_⟩
  · split_ifs
    · exact writeAll_distinct _ hs₁
    · exact hs₁
  · rw [← hspec.scopeOf]
    exact checkIf_eq_ok.mp hgraph hneeds
  · by_cases hsc : sc = task.scopeOf
    · subst hsc
      rw [if_pos rfl]
      split_ifs
      · rw [hcascade, hspec.scopeOf, cascadedRows]
      · exact hload _
    · -- the rows of another scope carry none of the ids written
      have hother : patchedRows env.now (s.loadScope sc) p.1 = s.loadScope sc :=
        map_eq_self fun u hu => if_neg fun hid =>
          hsc (hs.scope_eq hu hmem (hid.trans hspec.id))
      rw [if_neg hsc]
      split_ifs
      · rw [hcascade, hother]
        refine map_eq_self fun u hu => rewriteRow_of_not_mem fun hid => ?_
        obtain ⟨w, hw, hwid⟩ := List.mem_map.mp hid
        obtain ⟨v, hv, hvid⟩ : ∃ v ∈ (s.writeTask env.now p.1).loadScope p.1.scopeOf,
            v.id = w.id := by
          rw [hload] at hplan ⊢
          cases (hplan.2 w hw).2 with
          | reparented hv => exact ⟨_, hv, rfl⟩
          | cancelled hv => exact ⟨_, hv, rfl⟩
        have hu₁ : u ∈ (s.writeTask env.now p.1).loadScope sc := by rw [hload, hother]; exact hu
        have := hs₁.scope_eq hu₁ hv (hwid.symm.trans hvid.symm)
        exact hsc (this.trans hspec.scopeOf)
      · rw [hload, hother]

theorem update_rows {id : Int} {patch : TaskPatch} {t : Task} (hs : s.Distinct)
    (h : update env s id patch = .ok (s', t)) :
    s'.Distinct ∧ ∀ sc, RowsStep env sc (s.loadScope sc) (.update id patch) (s'.loadScope sc) := by
  obtain ⟨hs', -, task, htask, rfl, p, hpatch, hcheck, hload⟩ := update_loadScope hs h
  refine ⟨hs', fun sc => ?_⟩
  rw [hload sc]
  by_cases hsc : sc = task.scopeOf
  · subst hsc
    rw [if_pos rfl]
    exact .update (mem_loadScope.mpr ⟨htask, rfl⟩) hpatch hcheck
  · rw [if_neg hsc]
    exact .same _

/-- The patched row is what the update leaves in the row's place: no cascade writes its root. -/
theorem update_row {id : Int} {patch : TaskPatch} {t : Task} (hs : s.Distinct)
    (h : update env s id patch = .ok (s', t)) : ∃ task ∈ s.tasks, task.id = id ∧
      ∃ p, applyPatch env task patch = .ok p ∧ overwrite env.now task p.1 ∈ s'.tasks ∧ get s' id = .ok t := by
  obtain ⟨-, hread, task, htask, rfl, p, hpatch, -, hload⟩ := update_loadScope hs h
  have hid := (applyPatch_spec hpatch).id
  have hmem : task ∈ s.loadScope task.scopeOf := mem_loadScope.mpr ⟨htask, rfl⟩
  have hwritten : overwrite env.now task p.1 ∈ patchedRows env.now (s.loadScope task.scopeOf) p.1 :=
    List.mem_map.mpr ⟨task, hmem, if_pos hid.symm⟩
  have hnd : ((patchedRows env.now (s.loadScope task.scopeOf) p.1).map (·.id)).Nodup := by
    rw [patchedRows, map_ids (patchedRow_id env.now p.1)]
    exact hs.scope_nodup task.scopeOf
  have hroot : rewriteRow env.now
      (cascadePlan (patchedRows env.now (s.loadScope task.scopeOf) p.1) p.1)
      (overwrite env.now task p.1) = overwrite env.now task p.1 := by
    refine rewriteRow_of_not_mem fun hmem => ?_
    obtain ⟨w, hw, hwid⟩ := List.mem_map.mp hmem
    exact ((cascadePlan_spec hnd p.1).2 w hw).1 (hwid.trans hid.symm)
  refine ⟨task, htask, rfl, p, hpatch, (mem_loadScope.mp (?_ : _ ∈ s'.loadScope task.scopeOf)).1, hread⟩
  rw [hload, if_pos rfl]
  split_ifs
  · exact List.mem_map.mpr ⟨_, hwritten, hroot⟩
  · exact hwritten

theorem row_of_mem_autoCompleteFrom {rows : List Task} {x : Int} :
    ∀ {fuel : Nat} {closed : List Int} {current : Option Int},
      x ∈ autoCompleteFrom rows fuel closed current → ∃ task ∈ rows, task.id = x := by
  intro fuel
  induction fuel with
  | zero => intro _ _ h; simp [autoCompleteFrom] at h
  | succ fuel ih =>
    intro closed current h
    cases current with
    | none => simp [autoCompleteFrom] at h
    | some parentId =>
      unfold autoCompleteFrom at h
      split at h
      · simp at h
      · rename_i parent hparent
        split_ifs at h
        · simp at h
        · rcases List.mem_cons.mp h with rfl | h
          · exact ⟨parent, findTask_some hparent⟩
          · exact ih h
        · simp at h

theorem row_of_mem_autoComplete {rows : List Task} {task : Task} {x : Int}
    (h : x ∈ autoComplete rows task) : ∃ t ∈ rows, t.id = x :=
  row_of_mem_autoCompleteFrom h

/-- What `complete` leaves of every scope: nothing new where the task is done already. -/
theorem complete_loadScope {id : Int} {out : CompleteOutcome} (hs : s.Distinct)
    (h : complete env s id = .ok (s', out)) :
    s'.Distinct ∧ ∃ task ∈ s.tasks, task.id = id ∧ out.alreadyDone = decide (task.status = .done) ∧
      (task.status = .done → s' = s ∧ out.autoCompleted = []) ∧
      (task.status ≠ .done → openChildren (s.loadScope task.scopeOf) task.id = [] ∧
        out.autoCompleted = autoComplete (s.loadScope task.scopeOf) task ∧
        ∀ sc, s'.loadScope sc =
          if sc = task.scopeOf then (s.loadScope sc).map fun row =>
            if row.id ∈ task.id :: autoComplete (s.loadScope sc) task then markedDone env.now row else row
          else s.loadScope sc) := by
  obtain ⟨task, hget, h⟩ := bind_eq_ok.mp h
  obtain ⟨htask, rfl⟩ := getRaw_ok hget
  split_ifs at h with hdone
  · cases h
    exact ⟨hs, task, htask, rfl, (decide_eq_true hdone).symm, fun _ => ⟨rfl, rfl⟩, fun hnot => absurd hdone hnot⟩
  · obtain ⟨s₁, hmark, h⟩ := bind_eq_ok.mp h
    obtain ⟨t, -, h⟩ := bind_eq_ok.mp h
    cases h
    obtain ⟨hchildren, rfl⟩ := completeMark_eq_ok.mp hmark
    have hmem : task ∈ s.loadScope task.scopeOf := mem_loadScope.mpr ⟨htask, rfl⟩
    have hstep : (s.markDone env.now task.id).markAllDone env.now
          (autoComplete (s.loadScope task.scopeOf) task) =
        s.markAllDone env.now (task.id :: autoComplete (s.loadScope task.scopeOf) task) := rfl
    rw [hstep]
    refine ⟨markAllDone_distinct _ hs, task, htask, rfl, (decide_eq_false hdone).symm,
      fun hd => absurd hd hdone, fun _ => ⟨hchildren, rfl, fun sc => ?_⟩⟩
    rw [markAllDone_loadScope]
    by_cases hsc : sc = task.scopeOf
    · rw [if_pos hsc, hsc]
    · rw [if_neg hsc]
      refine map_eq_self fun u hu => if_neg fun hid => hsc ?_
      rcases List.mem_cons.mp hid with hid | hid
      · exact hs.scope_eq hu hmem hid
      · obtain ⟨v, hv, hvid⟩ := row_of_mem_autoComplete hid
        exact hs.scope_eq hu hv hvid.symm

theorem complete_rows {id : Int} {out : CompleteOutcome} (hs : s.Distinct)
    (h : complete env s id = .ok (s', out)) :
    s'.Distinct ∧ ∀ sc, RowsStep env sc (s.loadScope sc) (.complete id) (s'.loadScope sc) := by
  obtain ⟨hs', task, htask, rfl, -, hdone, hopen⟩ := complete_loadScope hs h
  refine ⟨hs', fun sc => ?_⟩
  by_cases hstatus : task.status = .done
  · rw [(hdone hstatus).1]
    exact .same _
  · obtain ⟨hchildren, -, hload⟩ := hopen hstatus
    rw [hload sc]
    split_ifs with hsc
    · subst hsc
      exact .complete (mem_loadScope.mpr ⟨htask, rfl⟩) hstatus hchildren
    · exact .same _

/-- What `reopen` leaves of every scope. -/
theorem reopen_loadScope {id : Int} {t : Task} (hs : s.Distinct) (h : reopen env s id = .ok (s', t)) :
    s'.Distinct ∧ ∃ task ∈ s.tasks, task.id = id ∧ (task.status.isClosed = false → s' = s) ∧
      (task.status.isClosed = true → ∀ sc, s'.loadScope sc =
        if sc = task.scopeOf then
          (s.loadScope sc).map fun row => if row.id = task.id then reopened env.now row else row
        else s.loadScope sc) := by
  obtain ⟨task, hget, h⟩ := bind_eq_ok.mp h
  obtain ⟨htask, rfl⟩ := getRaw_ok hget
  split_ifs at h with hclosed
  · obtain ⟨t, -, h⟩ := bind_eq_ok.mp h
    cases h
    have hmem : task ∈ s.loadScope task.scopeOf := mem_loadScope.mpr ⟨htask, rfl⟩
    refine ⟨modify_distinct (fun _ => rfl) hs, task, htask, rfl, fun hopen => ?_, fun _ sc => ?_⟩
    · rw [hclosed] at hopen
      cases hopen
    · rw [Store.markReopened, modify_loadScope s task.id (reopened env.now) (fun _ => rfl)]
      split_ifs with hsc
      · rfl
      · exact map_eq_self fun u hu => if_neg fun hid => hsc (hs.scope_eq hu hmem hid)
  · cases h
    exact ⟨hs, _, htask, rfl, fun _ => rfl, fun h => absurd h hclosed⟩

theorem reopen_rows {id : Int} {t : Task} (hs : s.Distinct)
    (h : reopen env s id = .ok (s', t)) :
    s'.Distinct ∧ ∀ sc, RowsStep env sc (s.loadScope sc) (.reopen id) (s'.loadScope sc) := by
  obtain ⟨hs', task, htask, rfl, hopen, hclosed⟩ := reopen_loadScope hs h
  refine ⟨hs', fun sc => ?_⟩
  cases hstatus : task.status.isClosed with
  | false =>
    rw [hopen hstatus]
    exact .same _
  | true =>
    rw [hclosed hstatus sc]
    split_ifs with hsc
    · subst hsc
      exact .reopen (mem_loadScope.mpr ⟨htask, rfl⟩) hstatus
    · exact .same _

/-- What `delete` leaves of every scope. -/
theorem delete_loadScope {id : Int} {n : Nat} (hs : s.Distinct)
    (h : delete env s id = .ok (s', n)) :
    s'.Distinct ∧ ∃ task ∈ s.tasks, task.id = id ∧ ∀ sc, s'.loadScope sc =
      if sc = task.scopeOf then deletedRows env.now (s.loadScope sc) id else s.loadScope sc := by
  obtain ⟨task, hget, h⟩ := bind_eq_ok.mp h
  obtain ⟨htask, rfl⟩ := getRaw_ok hget
  cases h
  have hmem : task ∈ s.loadScope task.scopeOf := mem_loadScope.mpr ⟨htask, rfl⟩
  have hnd := hs.scope_nodup task.scopeOf
  have hstrip : ((strippedRows (s.loadScope task.scopeOf)
      (subtreeIdsFrom (s.loadScope task.scopeOf) task.id)).map (·.id)).Nodup := by
    rw [strippedRows, List.map_map]
    exact hnd.sublist ((List.filter_sublist ..).map _)
  have hdel : (s.deleteAll (subtreeIdsFrom (s.loadScope task.scopeOf) task.id)).Distinct :=
    ⟨hs.nodup.sublist ((List.filter_sublist ..).map _),
      fun t ht => hs.le_seq t (List.mem_of_mem_filter ht)⟩
  refine ⟨writeAll_distinct _ hdel, task, htask, rfl, fun sc => ?_⟩
  have hload : (s.deleteAll (subtreeIdsFrom (s.loadScope task.scopeOf) task.id)).loadScope sc =
      (s.loadScope sc).filter (·.id ∉ subtreeIdsFrom (s.loadScope task.scopeOf) task.id) := by
    unfold Store.loadScope Store.deleteAll
    exact List.filter_comm ..
  rw [writeAll_loadScope hstrip, hload]
  split_ifs with hsc
  · subst hsc
    rfl
  · have hkeep : ∀ u ∈ s.loadScope sc,
        u.id ∉ subtreeIdsFrom (s.loadScope task.scopeOf) task.id := by
      intro u hu hid
      rcases row_of_mem_subtreeIdsFrom hnd hid with hid | ⟨v, hv, hvid⟩
      · exact hsc (hs.scope_eq hu hmem hid)
      · exact hsc (hs.scope_eq hu hv hvid.symm)
    rw [List.filter_eq_self.mpr fun u hu => by simpa using hkeep u hu]
    refine map_eq_self fun u hu => rewriteRow_of_not_mem fun hid => ?_
    obtain ⟨w, hw, hwid⟩ := List.mem_map.mp hid
    obtain ⟨v, hv, rfl⟩ := List.mem_map.mp hw
    exact hsc (hs.scope_eq hu (List.mem_of_mem_filter hv) hwid.symm)

/-- A deletion adds no row and moves none to another scope. -/
theorem delete_tasks {id : Int} {n : Nat} (hs : s.Distinct) (h : delete env s id = .ok (s', n)) :
    ∀ u ∈ s'.tasks, ∃ v ∈ s.tasks, v.id = u.id ∧ v.scopeOf = u.scopeOf := by
  obtain ⟨-, task, -, -, hload⟩ := delete_loadScope hs h
  intro u hu
  have hu' := mem_loadScope.mpr ⟨hu, rfl⟩
  rw [hload] at hu'
  split_ifs at hu'
  · obtain ⟨v, hv, hvu⟩ := List.mem_map.mp hu'
    have hv' := mem_loadScope.mp (List.mem_of_mem_filter hv)
    exact ⟨v, hv'.1, by rw [← hvu, rewriteRow_id], hv'.2⟩
  · exact ⟨u, (mem_loadScope.mp hu').1, rfl, rfl⟩

theorem delete_rows {id : Int} {n : Nat} (hs : s.Distinct) (h : delete env s id = .ok (s', n)) :
    s'.Distinct ∧ ∀ sc, RowsStep env sc (s.loadScope sc) (.delete id) (s'.loadScope sc) := by
  obtain ⟨hs', task, htask, rfl, hload⟩ := delete_loadScope hs h
  refine ⟨hs', fun sc => ?_⟩
  rw [hload sc]
  split_ifs with hsc
  · subst hsc
    exact .delete (mem_loadScope.mpr ⟨htask, rfl⟩)
  · exact .same _

/-- One deletion after another, as `clear` makes them. -/
def DeletedFrom (env : Env) (a b : List Task) : Prop :=
  ReflTransGen (fun a b => ∃ task ∈ a, b = deletedRows env.now a task.id) a b

/-- The targets of `clear` lie in its scope and stay there, so only its rows go. -/
theorem clearFrom_rows {sc : Scope} {rows : List Task} {closedOnly : Bool} :
    ∀ (targets : List Task) {acc acc' : Store × Nat},
      targets.foldlM (clearTarget env rows closedOnly) acc = .ok acc' → acc.1.Distinct →
      (∀ t ∈ targets, ∀ u ∈ acc.1.tasks, u.id = t.id → u.scopeOf = sc) →
      acc'.1.Distinct ∧ (∀ sc', sc' ≠ sc → acc'.1.loadScope sc' = acc.1.loadScope sc') ∧
        DeletedFrom env (acc.1.loadScope sc) (acc'.1.loadScope sc) := by
  intro targets
  induction targets with
  | nil =>
    intro acc acc' h hs _
    cases h
    exact ⟨hs, fun _ _ => rfl, .refl⟩
  | cons target targets ih =>
    intro acc acc' h hs hin
    rw [List.foldlM_cons] at h
    obtain ⟨acc₁, htarget, h⟩ := bind_eq_ok.mp h
    have hrest := fun t ht => hin t (List.mem_cons_of_mem _ ht)
    unfold clearTarget at htarget
    split_ifs at htarget
    · cases htarget
      exact ih h hs hrest
    · split at htarget
      · cases htarget
        exact ih h hs hrest
      · obtain ⟨⟨s₁, n⟩, hdelete, htarget⟩ := bind_eq_ok.mp htarget
        cases htarget
        obtain ⟨hs₁, task, htask, hid, hload⟩ := delete_loadScope hs hdelete
        have hscope : task.scopeOf = sc := hin target (by simp) task htask hid
        have hsub := delete_tasks hs hdelete
        obtain ⟨hs', hother, hrun⟩ := ih h hs₁ fun t ht u hu hut => by
          obtain ⟨v, hv, hvid, hvsc⟩ := hsub u hu
          rw [← hvsc]
          exact hrest t ht v hv (hvid.trans hut)
        refine ⟨hs', fun sc' hsc' => ?_, ?_⟩
        · have hne : sc' ≠ task.scopeOf := fun he => hsc' (he.trans hscope)
          rw [hother sc' hsc', hload sc', if_neg hne]
        · refine ReflTransGen.head ⟨task, mem_loadScope.mpr ⟨htask, hscope⟩, ?_⟩ hrun
          rw [hload sc, if_pos hscope.symm, hid]

theorem clear_rows {sc : Scope} {closedOnly : Bool} {n : Nat} (hs : s.Distinct)
    (h : clear env s sc closedOnly = .ok (s', n)) :
    s'.Distinct ∧ ∀ sc', RowsStep env sc' (s.loadScope sc') (.clear sc closedOnly)
      (s'.loadScope sc') := by
  have htargets : ∀ t ∈ clearTargets (s.loadScope sc) closedOnly, ∀ u ∈ s.tasks, u.id = t.id →
      u.scopeOf = sc := by
    intro t ht u hu hut
    have ht' := (List.perm_insertionSort _ _).mem_iff.mp ht
    have htsc := mem_loadScope.mp (List.mem_of_mem_filter ht')
    rw [hs.unique hu htsc.1 hut]
    exact htsc.2
  obtain ⟨hs', hother, hrun⟩ := clearFrom_rows _ h hs htargets
  refine ⟨hs', fun sc' => ?_⟩
  by_cases hsc : sc' = sc
  · subst hsc
    exact .clear hrun
  · have hsame : s'.loadScope sc' = s.loadScope sc' := hother sc' hsc
    rw [hsame]
    exact .same _

/-- **Everything a call does to a scope's rows is a `RowsStep`.** -/
theorem Op.run_rows {op : Op} (hs : s.Distinct) (h : op.run env s = .ok s') :
    s'.Distinct ∧ ∀ sc, RowsStep env sc (s.loadScope sc) op (s'.loadScope sc) := by
  cases op with
  | create new =>
    obtain ⟨⟨_, t⟩, hcall, rfl⟩ := map_eq_ok.mp h
    exact create_rows hs hcall
  | update id patch =>
    obtain ⟨⟨_, t⟩, hcall, rfl⟩ := map_eq_ok.mp h
    exact update_rows hs hcall
  | complete id =>
    obtain ⟨⟨_, t⟩, hcall, rfl⟩ := map_eq_ok.mp h
    exact complete_rows hs hcall
  | reopen id =>
    obtain ⟨⟨_, t⟩, hcall, rfl⟩ := map_eq_ok.mp h
    exact reopen_rows hs hcall
  | delete id =>
    obtain ⟨⟨_, t⟩, hcall, rfl⟩ := map_eq_ok.mp h
    exact delete_rows hs hcall
  | clear sc closedOnly =>
    obtain ⟨⟨_, t⟩, hcall, rfl⟩ := map_eq_ok.mp h
    exact clear_rows hs hcall

end Calls

/-! ## What a step leaves of a row -/

theorem rewriteRow_eq {now : String} {writes : List Task} {row w : Task}
    (hnd : (writes.map (·.id)).Nodup) (hw : w ∈ writes) (hid : w.id = row.id) :
    rewriteRow now writes row = overwrite now row w := by
  have hfind : findTask writes row.id = some w := hid ▸ findTask_of_mem hnd hw
  rw [rewriteRow, hfind]

/-- A row after the cascade of `task`: as it was, cancelled, or moved up to the parent of `task`. -/
inductive CascadedRow (rows : List Task) (task row row' : Task) : Prop
  | kept (h : row' = row)
  | cancelled (hopen : isOpen row = true) (hparent : row'.parentId = row.parentId)
      (hstatus : row'.status = .cancelled) (hdeps : row'.dependsOn = row.dependsOn)
  | reparented {current : Int} {k : Nat} (hcurrent : row.parentId = some current)
      (hup : Up (parentOf rows) k current task.id) (hown : ownContract rows task current row = true)
      (hparent : row'.parentId = task.parentId) (hstatus : row'.status = row.status)
      (hdeps : row'.dependsOn = row.dependsOn)

theorem cascadedRow (now : String) {rows : List Task} (hnd : (rows.map (·.id)).Nodup)
    (task : Task) {row : Task} (hrow : row ∈ rows) :
    CascadedRow rows task row (rewriteRow now (cascadePlan rows task) row) := by
  obtain ⟨hplan, hwrites⟩ := cascadePlan_spec hnd task
  by_cases hmem : row.id ∈ (cascadePlan rows task).map (·.id)
  · obtain ⟨w, hw, hid⟩ := List.mem_map.mp hmem
    rw [rewriteRow_eq hplan hw hid]
    cases (hwrites w hw).2 with
    | @reparented t current k ht hp hup hown =>
      obtain rfl : t = row := List.inj_on_of_nodup_map hnd ht hrow hid
      exact .reparented hp hup hown rfl rfl rfl
    | @cancelled t ht hopen =>
      obtain rfl : t = row := List.inj_on_of_nodup_map hnd ht hrow hid
      exact .cancelled hopen rfl rfl rfl
  · exact .kept (rewriteRow_of_not_mem hmem)

theorem CascadedRow.dependsOn {rows : List Task} {task row row' : Task}
    (h : CascadedRow rows task row row') : row'.dependsOn = row.dependsOn := by
  cases h with
  | kept h => rw [h]
  | cancelled _ _ _ h => exact h
  | reparented _ _ _ _ _ h => exact h

/-- A row that outlives a deletion keeps its place and loses its references to deleted rows. -/
theorem deletedRow (now : String) {rows : List Task} (hnd : (rows.map (·.id)).Nodup)
    (doomed : List Int) {row : Task} (hrow : row ∈ rows) (hkeep : row.id ∉ doomed) :
    let row' := rewriteRow now (strippedRows rows doomed) row
    row'.parentId = row.parentId ∧ row'.status = row.status ∧
      ∀ d, d ∈ row'.dependsOn ↔ d ∈ row.dependsOn ∧ d ∉ doomed := by
  have hstrip : ((strippedRows rows doomed).map (·.id)).Nodup := by
    rw [strippedRows, List.map_map]
    exact hnd.sublist ((List.filter_sublist ..).map _)
  by_cases hany : row.dependsOn.any (· ∈ doomed) = true
  · have hmem : { row with dependsOn := row.dependsOn.filter (· ∉ doomed) } ∈
        strippedRows rows doomed :=
      List.mem_map.mpr ⟨row, List.mem_filter.mpr ⟨hrow, by simp [hkeep, hany]⟩, rfl⟩
    intro row'
    have heq : row' = _ := rewriteRow_eq hstrip hmem rfl
    rw [heq]
    exact ⟨rfl, rfl, fun d => by simp [overwrite]⟩
  · have hself : rewriteRow now (strippedRows rows doomed) row = row := by
      refine rewriteRow_of_not_mem fun hid => ?_
      obtain ⟨w, hw, hwid⟩ := List.mem_map.mp hid
      obtain ⟨t, ht, rfl⟩ := List.mem_map.mp hw
      obtain ⟨ht, hcond⟩ := List.mem_filter.mp ht
      obtain rfl : t = row := List.inj_on_of_nodup_map hnd ht hrow hwid
      simp only [Bool.and_eq_true] at hcond
      exact hany hcond.2
    intro row'
    have heq : row' = row := hself
    rw [heq]
    refine ⟨rfl, rfl, fun d => ⟨fun hd => ⟨hd, fun hdoomed => hany ?_⟩, fun h => h.1⟩⟩
    exact List.any_eq_true.mpr ⟨d, hd, by simpa using hdoomed⟩

/-- The rows a deletion leaves. -/
theorem mem_deletedRows {now : String} {rows : List Task} {id : Int} {row' : Task} :
    row' ∈ deletedRows now rows id ↔ ∃ row ∈ rows, row.id ∉ subtreeIdsFrom rows id ∧
      row' = rewriteRow now (strippedRows rows (subtreeIdsFrom rows id)) row := by
  simp only [deletedRows, List.mem_map, List.mem_filter, decide_eq_true_eq]
  exact ⟨fun ⟨r, ⟨hr, hk⟩, he⟩ => ⟨r, hr, hk, he.symm⟩, fun ⟨r, hr, hk, he⟩ => ⟨r, ⟨hr, hk⟩, he.symm⟩⟩

theorem deletedRows_nodup (now : String) {rows : List Task} (hnd : (rows.map (·.id)).Nodup)
    (id : Int) : ((deletedRows now rows id).map (·.id)).Nodup := by
  rw [deletedRows, map_ids (rewriteRow_id now _)]
  exact hnd.sublist ((List.filter_sublist ..).map _)

theorem findTask_map {rows : List Task} {f : Task → Task} (hid : ∀ t, (f t).id = t.id) (x : Int) :
    findTask (rows.map f) x = (findTask rows x).map f := by
  unfold findTask
  rw [List.find?_map]
  simp only [Function.comp_def, hid]

/-- The parent chains seen through a map that keeps the ids. -/
theorem parentOf_map {rows : List Task} {f : Task → Task} (hid : ∀ t, (f t).id = t.id) (x : Int) :
    parentOf (rows.map f) x = (findTask rows x).bind fun t => (f t).parentId := by
  rw [parentOf, findTask_map hid]
  cases findTask rows x <;> rfl

theorem depsOf_map {rows : List Task} {f : Task → Task} (hid : ∀ t, (f t).id = t.id) (x : Int) :
    depsOf (rows.map f) x = match findTask rows x with
      | some t => (f t).dependsOn
      | none => [] := by
  rw [depsOf, findTask_map hid]
  cases findTask rows x <;> rfl

theorem patchedRows_eq {now : String} {rows : List Task} {task : Task} :
    patchedRows now rows task =
      rows.map fun row => if row.id = task.id then overwrite now row task else row := rfl

/-- The graph a patch is checked on is the graph of the rows it leaves. -/
theorem putTask_graph (now : String) {rows : List Task} {task : Task}
    (hmem : (findTask rows task.id).isSome) :
    ((putTask rows task).map (·.id) = rows.map (·.id)) ∧
      parentOf (putTask rows task) = parentOf (patchedRows now rows task) ∧
      depsOf (putTask rows task) = depsOf (patchedRows now rows task) := by
  have hput : putTask rows task = rows.map fun row => if row.id = task.id then task else row :=
    if_pos hmem
  have hid : ∀ row : Task, (if row.id = task.id then task else row).id = row.id := by
    intro row
    split_ifs with h
    · exact h.symm
    · rfl
  rw [hput]
  refine ⟨map_ids hid, ?_, ?_⟩
  · funext x
    rw [parentOf_map hid, patchedRows_eq, parentOf_map (patchedRow_id now task)]
    cases findTask rows x with
    | none => rfl
    | some t =>
      simp only [Option.bind_some]
      split_ifs <;> rfl
  · funext x
    rw [depsOf_map hid, patchedRows_eq, depsOf_map (patchedRow_id now task)]
    cases findTask rows x with
    | none => rfl
    | some t =>
      simp only
      split_ifs <;> rfl

/-- The parent function after a patch moves at most the patched row. -/
theorem parentOf_patched {now : String} {rows : List Task} {task : Task} (x : Int)
    (hmem : (findTask rows task.id).isSome) : parentOf (patchedRows now rows task) x =
      if x = task.id then task.parentId else parentOf rows x := by
  rw [patchedRows_eq, parentOf_map (patchedRow_id now task)]
  split_ifs with hx
  · subst hx
    obtain ⟨t, ht⟩ := Option.isSome_iff_exists.mp hmem
    rw [ht, Option.bind_some, if_pos (findTask_some ht).2]
    rfl
  · cases ht : findTask rows x with
    | none => simp [parentOf, ht]
    | some t =>
      have hne : t.id ≠ task.id := (findTask_some ht).2 ▸ hx
      simp [parentOf, ht, hne]

/-! ## Runs -/

/-- An invariant of the rows of every scope, proved step by step, holds along every run. -/
theorem Reachable.rows {ok : Env → Store → Op → Prop} {I : List Task → Prop} (hempty : I [])
    (hstep : ∀ {env s op sc rows'}, ok env s op → s.Distinct → (∀ sc, I (s.loadScope sc)) →
      RowsStep env sc (s.loadScope sc) op rows' → I rows') {s : Store} (h : Reachable ok s) :
    s.Distinct ∧ ∀ sc, I (s.loadScope sc) := by
  refine h.invariant (I := fun s => s.Distinct ∧ ∀ sc, I (s.loadScope sc)) ?_ ?_
  · exact ⟨.empty, fun _ => hempty⟩
  · intro env s op s' hok hrun hI
    obtain ⟨hs', hrows⟩ := op.run_rows hI.1 hrun
    exact ⟨hs', fun sc => hstep hok hI.1 hI.2 (hrows sc)⟩

end Nanna.Tasks
