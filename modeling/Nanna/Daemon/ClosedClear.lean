import Nanna.Daemon.Contracts
import Nanna.Tasks.ClearExact

/-!
# Clearing closed tasks through the service

`tasks.clear` keeps every task with a check in its subtree, and deletes the subtree of each other closed task. It does
not look for open tasks below, as the repository's clear does: a closed task whose child was reopened takes it along
(`reopened_child_cleared`).

`clear_keeps_open_iff`: the repository's clear takes no open work, and the service's takes none exactly when no closed
task without a check in its subtree has an open task below it.
-/

namespace Nanna.Daemon

open Nanna.Lib Nanna.Tasks

section Protected

variable {s : Store} {sc : Scope}

/-- The parents of the listed tasks are those of the rows. -/
theorem parentOf_list (hs : s.Distinct) (sc : Scope) : parentOf (list s sc true) = parentOf (s.loadScope sc) := by
  funext x
  apply Option.ext
  intro p
  constructor
  · intro hp
    obtain ⟨t, ht, rfl, hparent⟩ := parentOf_some hp
    obtain ⟨row, hrow, rfl⟩ := mem_list.mp ht
    rw [parentOf_of_mem (hs.scope_nodup sc) hrow]
    exact hparent
  · intro hp
    obtain ⟨row, hrow, rfl, hparent⟩ := parentOf_some hp
    have hlisted : { row with blocked := isBlocked row (s.loadScope sc) } ∈ list s sc true :=
      mem_list.mpr ⟨row, hrow, rfl⟩
    have hsame := parentOf_of_mem (list_nodup hs sc) hlisted
    exact hsame.trans hparent

/-- What the service protects has a check in its subtree. -/
theorem mem_protectedIds (hs : s.Distinct) (x : Int) :
    x ∈ protectedIds (list s sc true) ↔ Contracted (s.loadScope sc) x := by
  constructor
  · intro hx
    rcases mem_markAll hx with hnone | ⟨a, ha, k, hk⟩
    · exact absurd hnone List.not_mem_nil
    · obtain ⟨t, ht, rfl⟩ := List.mem_map.mp ha
      obtain ⟨hlisted, hcheck⟩ := List.mem_filter.mp ht
      obtain ⟨row, hrow, rfl⟩ := mem_list.mp hlisted
      rw [parentOf_list hs] at hk
      exact ⟨row, hrow, hcheck, k, hk⟩
  · rintro ⟨row, hrow, hcheck, k, hk⟩
    obtain ⟨hmarked, hclosed⟩ := protectedIds_closed (list s sc true)
    have hlisted : { row with blocked := isBlocked row (s.loadScope sc) } ∈ list s sc true :=
      mem_list.mpr ⟨row, hrow, rfl⟩
    rw [← parentOf_list hs] at hk
    have hstart := hmarked _ hlisted hcheck
    exact hclosed.mem_of_up hk hstart

end Protected

/-! ## The targets -/

section Clear

variable (env : ServiceEnv) {s : Store} {sc : Scope}

/-- The tasks that the service deletes. -/
def scratchTargets (all : List Task) : List Int :=
  (all.filter fun t => decide (t.id ∉ protectedIds all) && t.status.isClosed).map (·.id)

theorem clearOne_eq (kept : List Int) (acc : Store × Nat) (t : Task) : clearOne env kept true acc t =
    if (decide (t.id ∉ kept) && t.status.isClosed) = true then takeSubtree env.tasks acc t.id else acc := by
  unfold clearOne takeSubtree
  by_cases hkept : t.id ∈ kept
  · simp [hkept]
  · cases hstatus : t.status.isClosed
    · simp [hkept]
    · refine (if_neg hkept).trans ((if_neg (by simp)).trans ?_)
      refine Eq.trans ?_ (if_pos (by simp [hkept])).symm
      cases delete env.tasks acc.1 t.id <;> rfl

theorem clearAll_eq (all : List Task) (acc : Store × Nat) : all.foldl (clearOne env (protectedIds all) true) acc =
    (scratchTargets all).foldl (takeSubtree env.tasks) acc := by
  have hstep : clearOne env (protectedIds all) true = fun acc t =>
      if (decide (t.id ∉ protectedIds all) && t.status.isClosed) = true then takeSubtree env.tasks acc t.id else acc := by
    funext acc t
    exact clearOne_eq env _ acc t
  rw [hstep, scratchTargets, List.foldl_map, List.foldl_filter]

theorem mem_scratchTargets (hs : s.Distinct) {a : Int} : a ∈ scratchTargets (list s sc true) ↔
    ∃ t ∈ s.loadScope sc, t.id = a ∧ isOpen t = false ∧ ¬Contracted (s.loadScope sc) a := by
  simp only [scratchTargets, List.mem_map, List.mem_filter, Bool.and_eq_true, decide_eq_true_eq,
    mem_protectedIds hs]
  constructor
  · rintro ⟨t, ⟨ht, hfree, hstatus⟩, rfl⟩
    obtain ⟨row, hrow, rfl⟩ := mem_list.mp ht
    exact ⟨row, hrow, rfl, by simpa [isOpen] using hstatus, hfree⟩
  · rintro ⟨row, hrow, rfl, hclosed, hfree⟩
    exact ⟨_, ⟨mem_list.mpr ⟨row, hrow, rfl⟩, hfree, by simpa [isOpen] using hclosed⟩, rfl⟩

/-- Every closed task without a check in its subtree is deleted with its subtree. -/
theorem scratch_clearsClosed_iff (hs : s.Distinct) (tasks : Env) :
    ClearsClosed s sc ((scratchTargets (list s sc true)).foldl (takeSubtree tasks) (s, 0)).1
        ((scratchTargets (list s sc true)).foldl (takeSubtree tasks) (s, 0)).2 ↔
      ∀ t ∈ s.loadScope sc, isOpen t = false → ¬Contracted (s.loadScope sc) t.id →
        ClosedBelow (s.loadScope sc) t.id := by
  rw [clearsClosed_iff hs]
  · constructor
    · intro hbelow t ht hclosed hfree
      exact hbelow t.id ((mem_scratchTargets hs).mpr ⟨t, ht, rfl, hclosed, hfree⟩)
    · intro hbelow a ha
      obtain ⟨t, ht, rfl, hclosed, hfree⟩ := (mem_scratchTargets hs).mp ha
      exact hbelow t ht hclosed hfree
  · intro a ha
    obtain ⟨t, ht, hid, hclosed, -⟩ := (mem_scratchTargets hs).mp ha
    exact ⟨t, ht, hid, hclosed⟩
  · intro t ht hclosed _ hfree
    exact (mem_scratchTargets hs).mpr ⟨t, ht, rfl, hclosed, hfree⟩

/-- **Main result.** -/
theorem clear_keeps_open_iff (env : ServiceEnv) (params : Json) (s : Store) (sc : Scope) (closedOnly : Option Bool)
    (hs : Reachable (fun _ _ _ => True) s) (hscope : resolveScope env params = .ok sc)
    (hread : optBool env.reading params "closed_only" = .ok closedOnly) (hclosed : closedOnly.getD true = true) :
    (∃ s' removed, clear env.tasks s sc true = .ok (s', removed) ∧ ClearsClosed s sc s' removed) ∧
      ((∃ s' reply, taskClearService env s params = .ok (s', reply) ∧ ClearsClosed s sc s' reply.removed) ↔
        ∀ t ∈ s.loadScope sc, isOpen t = false → ¬Contracted (s.loadScope sc) t.id →
          ClosedBelow (s.loadScope sc) t.id) := by
  have hdistinct : s.Distinct := (hs.rows (I := fun _ => True) trivial fun _ _ _ _ => trivial).1
  refine ⟨clear_spec hdistinct env.tasks sc, ?_⟩
  rw [← scratch_clearsClosed_iff hdistinct env.tasks, ← clearAll_eq]
  have hrun : taskClearService env s params = .ok
      (((list s sc true).foldl (clearOne env (protectedIds (list s sc true)) true) (s, 0)).1,
        ⟨((list s sc true).foldl (clearOne env (protectedIds (list s sc true)) true) (s, 0)).2,
          (protectedIds (list s sc true)).length⟩) := by
    refine bind_eq_ok.mpr ⟨sc, hscope, bind_eq_ok.mpr ⟨closedOnly, hread, ?_⟩⟩
    rw [hclosed]
  rw [hrun]
  constructor
  · rintro ⟨s', reply, ⟨⟩, hclears⟩
    exact hclears
  · intro hclears
    exact ⟨_, _, rfl, hclears⟩

end Clear

/-! ## Two plans of one session -/

def sampleClear : Json := .obj [("scope", .str "session"), ("session_id", .str "s")]

/-- A step is done, and its plan with it. -/
def doneRows : List Task :=
  [markedDone sampleEnv.now (sampleRow 1 "A" none []), markedDone sampleEnv.now (sampleRow 2 "B" (some 1) [])]

/-- The step is taken up again. -/
def reopenedRows : List Task :=
  [markedDone sampleEnv.now (sampleRow 1 "A" none []),
    reopened sampleEnv.now (markedDone sampleEnv.now (sampleRow 2 "B" (some 1) []))]

def planOps : List Op :=
  [.create (sampleTask "A" none []), .create (sampleTask "B" (some 1) []), .complete 2]

theorem clear_keeps_open_iff_done : ∃ s' reply,
    taskClearService sampleServices ⟨doneRows, 2⟩ sampleClear = .ok (s', reply) ∧
      ClearsClosed ⟨doneRows, 2⟩ sampleScope s' reply.removed := by
  have hrun : Op.runAll sampleEnv Store.empty planOps = .ok ⟨doneRows, 2⟩ := by decide
  refine (clear_keeps_open_iff sampleServices sampleClear ⟨doneRows, 2⟩ sampleScope none (.runAll .refl hrun)
    (by decide) (by decide) rfl).2.mpr fun t _ _ _ u hu _ => ?_
  have hclosed : ∀ u ∈ doneRows, isOpen u = false := by decide
  exact hclosed u (mem_loadScope.mp hu).1

/-- The open step goes with its plan. -/
theorem reopened_child_cleared :
    Reachable (fun _ _ _ => True) ⟨reopenedRows, 2⟩ ∧ reopenedRows.map isOpen = [false, true] ∧
      (∃ reply, taskClearService sampleServices ⟨reopenedRows, 2⟩ sampleClear = .ok (⟨[], 2⟩, reply)) ∧
      ∀ removed, ¬ClearsClosed ⟨reopenedRows, 2⟩ sampleScope ⟨[], 2⟩ removed := by
  have hrun : Op.runAll sampleEnv Store.empty (planOps ++ [.reopen 2]) = .ok ⟨reopenedRows, 2⟩ := by decide
  refine ⟨.runAll .refl hrun, by decide, ⟨⟨2, 0⟩, rfl⟩, fun removed hclears => ?_⟩
  obtain ⟨t', ht', -⟩ := hclears.open_kept _ (List.mem_cons_of_mem _ List.mem_cons_self) (by decide)
  exact List.not_mem_nil ht'

end Nanna.Daemon
