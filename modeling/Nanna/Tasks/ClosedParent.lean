import Nanna.Tasks.WellFormed

/-!
# No open work under a done parent

`DoneClosed` says that no task with status `done` has an open child. `create` and a re-parenting
check the parent they are given, `complete` checks the children of what it marks, and the loop over
ancestors marks one only when all its children are closed (`autoComplete_children`). What does not
check is a call that opens a child again below a kept parent, and a cascade whose cancelled task
hangs below a done parent: the accepted subtasks it saves land under that parent.
`LeavesParentsDone` excludes exactly these two, and `doneParent_has_no_open_child` is the run
theorem; `reopened_under_done` is the run that breaks the invariant.
-/

namespace Nanna.Tasks

open Nanna.Lib Relation

def DoneClosed (rows : List Task) : Prop :=
  ∀ t ∈ rows, ∀ u ∈ rows, t.parentId = some u.id → u.status = .done → isOpen t = false

/-! ## The condition on a call -/

/-- No row is the done parent of `task`. -/
def ParentNotDone (rows : List Task) (task : Task) : Prop :=
  ∀ u ∈ rows, task.parentId = some u.id → u.status ≠ .done

/-- No open task below `task` carries a check of its own, for a cascade to move up. -/
def NothingMovesUp (rows : List Task) (task : Task) : Prop :=
  ∀ t ∈ rows, ∀ current k, t.parentId = some current → Up (parentOf rows) k current task.id →
    ownContract rows task current t = false

/-- A closed task is opened again only below a parent that is not done, and a task is cancelled
below a done parent only when its cascade moves nothing up. -/
def LeavesParentsDone (env : Env) (s : Store) : Op → Prop
  | .reopen id => ∀ task ∈ s.tasks, task.id = id → task.status.isClosed = true →
      ParentNotDone (s.loadScope task.scopeOf) task
  | .update id patch => ∀ task ∈ s.tasks, task.id = id → ∀ p, applyPatch env task patch = .ok p →
      (task.status.isClosed = true → isOpen p.1 = true → patch.parentId = none →
        ParentNotDone (s.loadScope task.scopeOf) task) ∧
      (cancels p = true → NothingMovesUp (patchedRows env.now (s.loadScope task.scopeOf) p.1) p.1 ∨
        ParentNotDone (patchedRows env.now (s.loadScope task.scopeOf) p.1) p.1)
  | _ => True

/-! ## Completion -/

theorem autoCompleteFrom_children {rows : List Task} : ∀ {fuel : Nat} {closed : List Int}
    {current : Option Int} {p : Int}, p ∈ autoCompleteFrom rows fuel closed current →
      ∀ t ∈ rows, t.parentId = some p →
        t.id ∈ closed ∨ t.id ∈ autoCompleteFrom rows fuel closed current := by
  intro fuel
  induction fuel with
  | zero => intro _ _ _ h; simp [autoCompleteFrom] at h
  | succ fuel ih =>
    intro closed current p h t ht hp
    cases current with
    | none => simp [autoCompleteFrom] at h
    | some parentId =>
      rw [autoCompleteFrom] at h ⊢
      split at h
      · simp at h
      · split_ifs at h ⊢ with hstop hall
        · simp at h
        · rcases List.mem_cons.mp h with rfl | h
          · have hmem := List.all_eq_true.mp hall t (List.mem_filter.mpr ⟨ht, by simpa using hp⟩)
            exact .inl (by simpa using hmem)
          · rcases ih h t ht hp with hclosed | hauto
            · rcases List.mem_cons.mp hclosed with hself | hclosed
              · exact .inr (by simp [hself])
              · exact .inl hclosed
            · exact .inr (List.mem_cons_of_mem _ hauto)
        · simp at h

/-- An ancestor is closed only when every child is closed or closed with it. -/
theorem autoComplete_children {rows : List Task} (hnd : (rows.map (·.id)).Nodup) {task t : Task}
    {p : Int} (hp : p ∈ autoComplete rows task) (ht : t ∈ rows) (htp : t.parentId = some p) :
    isOpen t = false ∨ t.id ∈ task.id :: autoComplete rows task := by
  rcases autoCompleteFrom_children hp t ht htp with hclosed | hauto
  · rcases List.mem_cons.mp hclosed with hself | hclosed
    · exact .inr (by simp [hself])
    · obtain ⟨u, hu, hid⟩ := List.mem_map.mp hclosed
      obtain ⟨hu, hstatus⟩ := List.mem_filter.mp hu
      obtain rfl : u = t := List.inj_on_of_nodup_map hnd hu ht hid
      exact .inl (by simp [isOpen, hstatus])
  · exact .inr (List.mem_cons_of_mem _ hauto)

/-! ## One step -/

section Step

variable {rows : List Task}

theorem doneClosed_insert {new : NewTask} {id : Int} {now : String} (hw : WellFormed rows)
    (h : DoneClosed rows) (hcheck : CreateChecked rows new) :
    DoneClosed (rows ++ [new.toRow id now]) := by
  intro t ht u hu hp hdone
  rcases List.mem_append.mp hu with hu | hu
  · rcases List.mem_append.mp ht with ht | ht
    · exact h t ht u hu hp hdone
    · rw [List.mem_singleton.mp ht] at hp
      obtain ⟨v, hv, hid, hopen, -⟩ := hcheck.parent u.id hp
      obtain rfl : v = u := List.inj_on_of_nodup_map hw.nodup hv hu hid
      exact absurd hdone (ne_done_of_isOpen hopen)
  · rw [List.mem_singleton.mp hu] at hdone
    cases hdone

theorem doneClosed_completed {now : String} {task : Task} (hw : WellFormed rows)
    (h : DoneClosed rows) (hchildren : openChildren rows task.id = []) :
    DoneClosed (rows.map fun row =>
      if row.id ∈ task.id :: autoComplete rows task then markedDone now row else row) := by
  intro t' ht' u' hu' hp hdone
  obtain ⟨t, ht, rfl⟩ := List.mem_map.mp ht'
  obtain ⟨u, hu, rfl⟩ := List.mem_map.mp hu'
  by_cases htmark : t.id ∈ task.id :: autoComplete rows task
  · rw [if_pos htmark]
    rfl
  · rw [if_neg htmark] at hp ⊢
    by_cases humark : u.id ∈ task.id :: autoComplete rows task
    · rw [if_pos humark] at hp
      rcases List.mem_cons.mp humark with hself | hauto
      · -- the completed task has no open child
        have htp : t.parentId = some task.id := hself ▸ hp
        exact openChildren_eq_nil.mp hchildren t ht htp
      · rcases autoComplete_children hw.nodup hauto ht hp with hclosed | hmark
        · exact hclosed
        · exact absurd hmark htmark
    · rw [if_neg humark] at hp hdone
      exact h t ht u hu hp hdone

theorem doneClosed_reopened {now : String} {task : Task} (hw : WellFormed rows)
    (h : DoneClosed rows) (hmem : task ∈ rows) (hparent : ParentNotDone rows task) :
    DoneClosed (rows.map fun row => if row.id = task.id then reopened now row else row) := by
  intro t' ht' u' hu' hp hdone
  obtain ⟨t, ht, rfl⟩ := List.mem_map.mp ht'
  obtain ⟨u, hu, rfl⟩ := List.mem_map.mp hu'
  by_cases humark : u.id = task.id
  · rw [if_pos humark] at hdone
    cases hdone
  · rw [if_neg humark] at hp hdone
    by_cases htmark : t.id = task.id
    · obtain rfl : t = task := List.inj_on_of_nodup_map hw.nodup ht hmem htmark
      rw [if_pos rfl] at hp
      exact absurd hdone (hparent u hu hp)
    · rw [if_neg htmark] at hp ⊢
      exact h t ht u hu hp hdone

theorem doneClosed_deleted {now : String} {id : Int} (hw : WellFormed rows) (h : DoneClosed rows) :
    DoneClosed (deletedRows now rows id) := by
  intro t' ht' u' hu' hp hdone
  obtain ⟨t, ht, htkeep, rfl⟩ := mem_deletedRows.mp ht'
  obtain ⟨u, hu, hukeep, rfl⟩ := mem_deletedRows.mp hu'
  obtain ⟨htparent, htstatus, -⟩ := deletedRow now hw.nodup _ ht htkeep
  obtain ⟨-, hustatus, -⟩ := deletedRow now hw.nodup _ hu hukeep
  rw [htparent, rewriteRow_id] at hp
  rw [hustatus] at hdone
  simp only [isOpen, htstatus]
  exact h t ht u hu hp hdone

theorem doneClosed_cascaded {now : String} {task : Task} (hw : WellFormed rows)
    (h : DoneClosed rows) (hok : NothingMovesUp rows task ∨ ParentNotDone rows task) :
    DoneClosed (cascadedRows now rows task) := by
  intro t' ht' u' hu' hp hdone
  obtain ⟨t, ht, rfl⟩ := List.mem_map.mp ht'
  obtain ⟨u, hu, rfl⟩ := List.mem_map.mp hu'
  rw [rewriteRow_id] at hp
  -- a cascade marks nothing done
  have hudone : u.status = .done := by
    cases cascadedRow now hw.nodup task hu with
    | kept hsame => exact (congrArg _ hsame).symm.trans hdone
    | cancelled _ _ hstatus => rw [hstatus] at hdone; cases hdone
    | reparented _ _ _ _ hstatus => exact hstatus.symm.trans hdone
  cases cascadedRow now hw.nodup task ht with
  | kept hsame =>
    rw [hsame] at hp ⊢
    exact h t ht u hu hp hudone
  | cancelled _ _ hstatus => simp [isOpen, hstatus, TaskStatus.isClosed]
  | reparented hcur hchain hown hmoved =>
    rcases hok with hnone | hparent
    · rw [hnone t ht _ _ hcur hchain] at hown
      cases hown
    · exact absurd hudone (hparent u hu (hmoved.symm.trans hp))

/-- A patch opens a child only below its old parent, or below a new one that was checked open. -/
theorem doneClosed_patched {env : Env} {task : Task} {patch : TaskPatch} {p : Patched}
    (hw : WellFormed rows) (h : DoneClosed rows) (hmem : task ∈ rows)
    (hpatch : applyPatch env task patch = .ok p)
    (hcheck : needsGraphCheck patch = true →
      checkGraphUpdate (putTask rows p.1) p.1 patch.parentId.isSome = .ok ())
    (hok : task.status.isClosed = true → isOpen p.1 = true → patch.parentId = none →
      ParentNotDone rows task) :
    DoneClosed (patchedRows env.now rows p.1) := by
  have hspec := applyPatch_spec hpatch
  have hfind : (findTask rows p.1.id).isSome := findTask_isSome.mpr ⟨task, hmem, hspec.id.symm⟩
  have hw' := hw.updated hmem hpatch hcheck
  intro t' ht' u' hu' hp hdone
  obtain ⟨t, ht, rfl⟩ := List.mem_map.mp ht'
  obtain ⟨u, hu, rfl⟩ := List.mem_map.mp hu'
  rw [patchedRow_id] at hp
  -- a patch marks nothing done
  have hudone : u.status = .done := by
    by_cases hself : u.id = p.1.id
    · rw [if_pos hself] at hdone
      obtain rfl : u = task := List.inj_on_of_nodup_map hw.nodup hu hmem (hself.trans hspec.id)
      by_cases hstatus : patch.status = none
      · exact (hspec.kept hstatus).symm.trans hdone
      · exact absurd hdone (hspec.notDone hstatus)
    · rw [if_neg hself] at hdone
      exact hdone
  by_cases htself : t.id = p.1.id
  · obtain rfl : t = task := List.inj_on_of_nodup_map hw.nodup ht hmem (htself.trans hspec.id)
    rw [if_pos htself] at hp ⊢
    rw [Bool.eq_false_iff]
    intro hopen
    cases hparent : patch.parentId with
    | none =>
      have hold : t.parentId = some u.id := by
        rw [← hp]
        exact ((hspec.parentId).trans (by rw [hparent, Option.getD_none])).symm
      by_cases hclosed : t.status.isClosed = true
      · exact hok hclosed hopen hparent u hu hold hudone
      · have := h t ht u hu hold hudone
        simp [isOpen, hclosed] at this
    | some parent =>
      obtain ⟨v, hv, hchanged⟩ := (checkGraphUpdate_ok
        (hcheck (by simp [needsGraphCheck, hparent]))).parent u.id hp
      obtain ⟨hvopen, -⟩ := hchanged (by simp [hparent])
      obtain ⟨hvmem, hvid⟩ := findTask_some hv
      rw [putTask, if_pos hfind] at hvmem
      obtain ⟨w, hw₁, rfl⟩ := List.mem_map.mp hvmem
      split_ifs at hvid hvopen with hself
      · -- its own parent: excluded by the depth of the patched rows
        have hmoved : parentOf (patchedRows env.now rows p.1) p.1.id = some p.1.id := by
          rw [parentOf_patched _ hfind, if_pos rfl]
          exact hp.trans (congrArg some hvid.symm)
        exact hw'.parent_acyclic p.1.id (.single ((parentOf_iff hw'.nodup).mpr hmoved))
      · obtain rfl : w = u := List.inj_on_of_nodup_map hw.nodup hw₁ hu hvid
        exact absurd hudone (ne_done_of_isOpen hvopen)
  · rw [if_neg htself] at hp ⊢
    exact h t ht u hu hp hudone

end Step

/-- A well-formed graph whose done tasks have no open child. -/
structure ParentsClosed (rows : List Task) : Prop where
  wellFormed : WellFormed rows
  doneClosed : DoneClosed rows

theorem ParentsClosed.nil : ParentsClosed [] := ⟨.nil, fun _ ht => absurd ht List.not_mem_nil⟩

theorem RowsStep.parentsClosed {env : Env} {s : Store} {sc : Scope} {rows' : List Task} {op : Op}
    (hstep : RowsStep env sc (s.loadScope sc) op rows') (hok : LeavesParentsDone env s op)
    (h : ParentsClosed (s.loadScope sc)) : ParentsClosed rows' := by
  obtain ⟨hw, hdone⟩ := h
  refine ⟨hstep.wellFormed hw, ?_⟩
  cases hstep with
  | same => exact hdone
  | create _ _ hcheck => exact doneClosed_insert hw hdone (checkCreate_ok hcheck)
  | @update task patch p hmem hpatch hcheck =>
    obtain ⟨htask, hscope⟩ := mem_loadScope.mp hmem
    obtain ⟨hopens, hcancels⟩ := hok task htask rfl p hpatch
    rw [hscope] at hopens hcancels
    have hpatched := doneClosed_patched hw hdone hmem hpatch hcheck hopens
    split_ifs with hcancel
    · exact doneClosed_cascaded (hw.updated hmem hpatch hcheck) hpatched (hcancels hcancel)
    · exact hpatched
  | complete _ _ hchildren => exact doneClosed_completed hw hdone hchildren
  | @reopen task hmem hclosed =>
    obtain ⟨htask, hscope⟩ := mem_loadScope.mp hmem
    exact doneClosed_reopened hw hdone hmem (hscope ▸ hok task htask rfl hclosed)
  | delete => exact doneClosed_deleted hw hdone
  | clear hrun =>
    have hboth : WellFormed rows' ∧ DoneClosed rows' := by
      induction hrun with
      | refl => exact ⟨hw, hdone⟩
      | tail _ hdelete ih =>
        obtain ⟨task, -, rfl⟩ := hdelete
        exact ⟨ih.1.deleted _, doneClosed_deleted ih.1 ih.2⟩
    exact hboth.2

/-! ## Runs -/

/-- **Main result.** In every run whose calls open nothing below a done parent, no done task has a
pending or in-progress child. -/
theorem doneParent_has_no_open_child (s : Store) (sc : Scope) (h : Reachable LeavesParentsDone s) :
    ∀ t ∈ s.loadScope sc, ∀ u ∈ s.loadScope sc, t.parentId = some u.id → u.status = .done →
      t.status ≠ .pending ∧ t.status ≠ .inProgress := by
  obtain ⟨-, hclosed⟩ := h.rows ParentsClosed.nil fun hok _ hc hstep =>
    hstep.parentsClosed hok (hc _)
  intro t ht u hu hp hdone
  have hopen := (hclosed sc).doneClosed t ht u hu hp hdone
  constructor <;> intro hstatus <;> simp [isOpen, hstatus, TaskStatus.isClosed] at hopen

/-- A subtask is finished, taken up again below its open parent, and finished for good. -/
theorem doneParent_has_no_open_child_plan :
    let rows := [markedDone sampleEnv.now (sampleRow 1 "A" none []),
      markedDone sampleEnv.now (sampleRow 2 "A1" (some 1) []),
      markedDone sampleEnv.now (sampleRow 3 "A2" (some 1) [])]
    ∀ t ∈ rows, ∀ u ∈ rows, t.parentId = some u.id → u.status = .done →
      t.status ≠ .pending ∧ t.status ≠ .inProgress := by
  intro rows
  refine doneParent_has_no_open_child ⟨rows, 3⟩ sampleScope ?_
  let a := sampleRow 1 "A" none []
  let a1 := sampleRow 2 "A1" (some 1) []
  let a2 := sampleRow 3 "A2" (some 1) []
  have h0 : Reachable LeavesParentsDone Store.empty := .refl
  have h1 : Reachable LeavesParentsDone ⟨[a], 1⟩ :=
    h0.call sampleEnv (.create (sampleTask "A" none [])) trivial (by decide)
  have h2 : Reachable LeavesParentsDone ⟨[a, a1], 2⟩ :=
    h1.call sampleEnv (.create (sampleTask "A1" (some 1) [])) trivial (by decide)
  have h3 : Reachable LeavesParentsDone ⟨[a, a1, a2], 3⟩ :=
    h2.call sampleEnv (.create (sampleTask "A2" (some 1) [])) trivial (by decide)
  have h4 : Reachable LeavesParentsDone ⟨[a, markedDone sampleEnv.now a1, a2], 3⟩ :=
    h3.call sampleEnv (.complete 2) trivial (by decide)
  have h5 : Reachable LeavesParentsDone ⟨[a, a1, a2], 3⟩ := by
    refine h4.call sampleEnv (.reopen 2) ?_ (by decide)
    simp only [LeavesParentsDone, ParentNotDone]
    decide
  have h6 : Reachable LeavesParentsDone ⟨[a, a1, markedDone sampleEnv.now a2], 3⟩ :=
    h5.call sampleEnv (.complete 3) trivial (by decide)
  exact h6.call sampleEnv (.complete 2) trivial (by decide)

/-- A subtask whose completion closed its parent is reopened: the parent stays done. -/
theorem reopened_under_done : ∃ s sc, Reachable (fun _ _ _ => True) s ∧
    ∃ t ∈ s.loadScope sc, ∃ u ∈ s.loadScope sc,
      t.parentId = some u.id ∧ u.status = .done ∧ t.status = .pending := by
  have hrun : Op.runAll sampleEnv Store.empty
      [.create (sampleTask "A" none []), .create (sampleTask "A1" (some 1) []), .complete 2,
        .reopen 2] =
      .ok ⟨[markedDone sampleEnv.now (sampleRow 1 "A" none []), sampleRow 2 "A1" (some 1) []], 2⟩ := by
    decide
  refine ⟨_, sampleScope, Reachable.runAll .refl hrun, sampleRow 2 "A1" (some 1) [], ?_,
    markedDone sampleEnv.now (sampleRow 1 "A" none []), ?_, rfl, rfl, rfl⟩
  · decide
  · decide

end Nanna.Tasks
