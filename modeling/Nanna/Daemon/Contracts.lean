import Nanna.Daemon.TaskServices
import Nanna.Tasks.Effects

/-!
# The services and the tasks that carry a check

`contracts_kept_iff`: in a run of the task services no task with an acceptance check is ever lost exactly
when no call of `tasks.remove` names a task without a check that stands above one (`Harmless`). The
service looks at the task it is given, the store deletes the whole subtree (`remove_parent`).

Every other call keeps every check. Rows are rewritten, never without their check, and `tasks.clear`
marks the tasks above a check first: what it marks is closed under parents (`protectedIds_closed`), and
deleting leaves the parents of what stays alone, so no subtree that it deletes holds a check.
-/

namespace Nanna.Daemon

open Nanna.Lib Nanna.Tasks Relation

/-- Every task with a check is still there. -/
def NoneLost (s s' : Store) : Prop :=
  ∀ t ∈ s.tasks, t.acceptance.isSome = true → ∃ t' ∈ s'.tasks, t'.id = t.id

/-- It is still there and still has a check. -/
def Keeps (s s' : Store) : Prop :=
  ∀ t ∈ s.tasks, t.acceptance.isSome = true → ∃ t' ∈ s'.tasks, t'.id = t.id ∧ t'.acceptance.isSome = true

def KeepsRows (rows rows' : List Task) : Prop :=
  ∀ t ∈ rows, t.acceptance.isSome = true → ∃ t' ∈ rows', t'.id = t.id ∧ t'.acceptance.isSome = true

/-- The call removes nothing that stands above a check. -/
def Harmless (env : ServiceEnv) (s : Store) : ServiceCall → Prop
  | .remove params => ∀ id task, reqI64 env.reading params "id" = .ok id → get s id = .ok task →
      task.acceptance = none → ∀ t ∈ s.loadScope task.scopeOf,
        t.id ∈ subtreeIdsFrom (s.loadScope task.scopeOf) id → t.acceptance = none
  | _ => True

/-! ## Rewritten rows -/

variable {env : ServiceEnv} {s s' : Store} {rows rows' : List Task} {now : String} {params : Json}

theorem KeepsRows.refl (rows : List Task) : KeepsRows rows rows := fun t ht hsome =>
  ⟨t, ht, rfl, hsome⟩

theorem Keeps.refl (s : Store) : Keeps s s := KeepsRows.refl s.tasks

theorem Keeps.noneLost (h : Keeps s s') : NoneLost s s' := fun t ht hsome =>
  let ⟨t', ht', hid, _⟩ := h t ht hsome
  ⟨t', ht', hid⟩

theorem KeepsRows.trans {rows'' : List Task} (h : KeepsRows rows rows') (h' : KeepsRows rows' rows'') :
    KeepsRows rows rows'' := by
  intro t ht hsome
  obtain ⟨t', ht', hid, hsome'⟩ := h t ht hsome
  obtain ⟨t'', ht'', hid', hsome''⟩ := h' t' ht' hsome'
  exact ⟨t'', ht'', hid'.trans hid, hsome''⟩

theorem keepsRows_map {f : Task → Task} (hid : ∀ t ∈ rows, (f t).id = t.id)
    (hkeep : ∀ t ∈ rows, t.acceptance.isSome = true → (f t).acceptance.isSome = true) :
    KeepsRows rows (rows.map f) := fun t ht hsome =>
  ⟨f t, List.mem_map_of_mem ht, hid t ht, hkeep t ht hsome⟩

/-- Scope by scope. -/
theorem keeps_of_scopes (h : ∀ sc, KeepsRows (s.loadScope sc) (s'.loadScope sc)) : Keeps s s' := by
  intro t ht hsome
  obtain ⟨t', ht', hid, hsome'⟩ := h t.scopeOf t (mem_loadScope.mpr ⟨ht, rfl⟩) hsome
  exact ⟨t', (mem_loadScope.mp ht').1, hid, hsome'⟩

/-- Writes that carry the checks of their rows. -/
theorem acceptance_rewriteRow {writes : List Task} (hnd : (rows.map (·.id)).Nodup)
    (hwrites : ∀ w ∈ writes, ∃ t ∈ rows, t.id = w.id ∧ w.acceptance = t.acceptance) {row : Task}
    (hrow : row ∈ rows) : (rewriteRow now writes row).acceptance = row.acceptance := by
  rw [rewriteRow]
  split
  · rename_i w hw
    obtain ⟨hmem, hid⟩ := findTask_some hw
    obtain ⟨t, ht, htid, hacceptance⟩ := hwrites w hmem
    obtain rfl : t = row := List.inj_on_of_nodup_map hnd ht hrow (htid.trans hid)
    exact hacceptance
  · rfl

theorem acceptance_cascade (hnd : (rows.map (·.id)).Nodup) (task : Task) {row : Task}
    (hrow : row ∈ rows) :
    (rewriteRow now (cascadePlan rows task) row).acceptance = row.acceptance := by
  refine acceptance_rewriteRow hnd (fun w hw => ?_) hrow
  cases ((cascadePlan_spec hnd task).2 w hw).2 with
  | @reparented t current k ht => exact ⟨t, ht, rfl, rfl⟩
  | @cancelled t ht => exact ⟨t, ht, rfl, rfl⟩

theorem acceptance_stripped (hnd : (rows.map (·.id)).Nodup) (doomed : List Int) {row : Task}
    (hrow : row ∈ rows) :
    (rewriteRow now (strippedRows rows doomed) row).acceptance = row.acceptance := by
  refine acceptance_rewriteRow hnd (fun w hw => ?_) hrow
  obtain ⟨t, ht, rfl⟩ := List.mem_map.mp hw
  exact ⟨t, List.mem_of_mem_filter ht, rfl, rfl⟩

/-! ## Patches -/

theorem applyPatch_keeps {tenv : Env} {task : Task} {patch : TaskPatch} {p : Patched}
    (h : applyPatch tenv task patch = .ok p) (hpatch : patch.acceptance ≠ some none)
    (hsome : task.acceptance.isSome = true) : p.1.acceptance.isSome = true := by
  rcases (applyPatch_fields h).acceptance with ⟨-, hkept⟩ | ⟨check, hcheck, hadmit⟩
  · rwa [hkept]
  · cases check with
    | none => exact absurd hcheck hpatch
    | some payload =>
      obtain ⟨canonical, -, hcanonical⟩ := map_eq_ok.mp hadmit
      rw [← hcanonical]
      rfl

/-! ## Steps of a scope -/

/-- The call deletes nothing and clears no check. -/
def Rewrites : Op → Prop
  | .update _ patch => patch.acceptance ≠ some none
  | .delete _ | .clear _ _ => False
  | _ => True

theorem keepsRows_of_step {tenv : Env} {sc : Scope} {op : Op} (hnd : (rows.map (·.id)).Nodup)
    (h : RowsStep tenv sc rows op rows') (hop : Rewrites op) : KeepsRows rows rows' := by
  cases h with
  | same => exact .refl rows
  | create => exact fun t ht hsome => ⟨t, List.mem_append_left _ ht, rfl, hsome⟩
  | @update task patch p hmem hpatch =>
    have hid : p.1.id = task.id := (applyPatch_spec hpatch).id
    have hpatched : KeepsRows rows (patchedRows tenv.now rows p.1) := by
      refine keepsRows_map (fun t _ => ?_) fun t ht hsome => ?_
      · split
        · rfl
        · rfl
      · split
        · rename_i heq
          obtain rfl : t = task := List.inj_on_of_nodup_map hnd ht hmem (heq.trans hid)
          exact applyPatch_keeps hpatch hop hsome
        · exact hsome
    split
    · refine hpatched.trans (keepsRows_map (fun t _ => rewriteRow_id _ _ t) fun t ht hsome => ?_)
      rwa [acceptance_cascade _ _ ht]
      rw [patchedRows, List.map_map]
      refine (List.map_congr_left fun t _ => ?_) ▸ hnd
      rw [Function.comp_apply]
      split
      · rfl
      · rfl
    · exact hpatched
  | complete =>
    refine keepsRows_map (fun t _ => ?_) fun t _ hsome => ?_
    · split
      · rfl
      · rfl
    · split
      · exact hsome
      · exact hsome
  | reopen =>
    refine keepsRows_map (fun t _ => ?_) fun t _ hsome => ?_
    · split
      · rfl
      · rfl
    · split
      · exact hsome
      · exact hsome
  | delete => exact hop.elim
  | clear => exact hop.elim

/-- A call of the repository that deletes nothing. -/
theorem keeps_of_op {tenv : Env} {op : Op} (hs : s.Distinct) (h : op.run tenv s = .ok s')
    (hop : Rewrites op) : s'.Distinct ∧ Keeps s s' := by
  obtain ⟨hs', hrows⟩ := Op.run_rows hs h
  exact ⟨hs', keeps_of_scopes fun sc => keepsRows_of_step (hs.scope_nodup sc) (hrows sc) hop⟩

/-! ## Deletion -/

/-- A deletion that loses no check has none in its subtree. -/
theorem subtree_of_delete {tenv : Env} {id : Int} {n : Nat} {task : Task} (hs : s.Distinct)
    (hget : s.getRaw id = .ok task) (h : delete tenv s id = .ok (s', n)) (hkeeps : NoneLost s s') :
    ∀ t ∈ s.loadScope task.scopeOf,
      t.id ∈ subtreeIdsFrom (s.loadScope task.scopeOf) id → t.acceptance = none := by
  intro t ht hdoomed
  obtain ⟨-, task', hmem', hid', hload⟩ := delete_loadScope hs h
  obtain ⟨hmem, hid⟩ := getRaw_ok hget
  obtain rfl : task' = task := hs.unique hmem' hmem (hid'.trans hid.symm)
  by_contra hsome
  obtain ⟨t', ht', htid⟩ := hkeeps t (mem_loadScope.mp ht).1 (Option.isSome_iff_ne_none.mpr hsome)
  have hin : t' ∈ s'.loadScope t'.scopeOf := mem_loadScope.mpr ⟨ht', rfl⟩
  rw [hload] at hin
  split at hin
  · rename_i hscope
    rw [hscope] at hin
    obtain ⟨row, -, hkept, heq⟩ := mem_deletedRows.mp hin
    have hrow : row.id = t.id := by rw [← htid, heq, rewriteRow_id]
    exact hkept (hrow ▸ hdoomed)
  · rename_i hscope
    exact hscope (hs.scope_eq hin ht htid)

/-- A deletion of a subtree without a check. -/
theorem keeps_delete {tenv : Env} {id : Int} {n : Nat} {task : Task} (hs : s.Distinct)
    (hget : s.getRaw id = .ok task) (h : delete tenv s id = .ok (s', n))
    (hnone : ∀ t ∈ s.loadScope task.scopeOf,
      t.id ∈ subtreeIdsFrom (s.loadScope task.scopeOf) id → t.acceptance = none) : Keeps s s' := by
  obtain ⟨-, task', hmem', hid', hload⟩ := delete_loadScope hs h
  obtain ⟨hmem, hid⟩ := getRaw_ok hget
  obtain rfl : task' = task := hs.unique hmem' hmem (hid'.trans hid.symm)
  have hnd := hs.scope_nodup task'.scopeOf
  refine keeps_of_scopes fun sc => ?_
  rw [hload]
  split
  · rename_i hsc
    subst hsc
    intro t ht hsome
    have hkept : t.id ∉ subtreeIdsFrom (s.loadScope task'.scopeOf) id := fun hdoomed => by
      rw [hnone t ht hdoomed] at hsome
      exact Bool.false_ne_true hsome
    refine ⟨_, mem_deletedRows.mpr ⟨t, ht, hkept, rfl⟩, rewriteRow_id _ _ t, ?_⟩
    rwa [acceptance_stripped hnd _ ht]
  · exact .refl _

/-! ## What clear protects -/

theorem list_nodup (hs : s.Distinct) (sc : Scope) : ((list s sc true).map (·.id)).Nodup := by
  have hperm : ((list s sc true).map (·.id)).Perm ((s.loadScope sc).map (·.id)) := by
    rw [list]
    refine ((List.perm_insertionSort _ _).map _).trans ?_
    rw [if_pos rfl, List.map_map]
    exact List.Perm.refl _
  exact hperm.nodup_iff.mpr (hs.scope_nodup sc)

/-- Every check is protected, and what is above a protected task is. -/
theorem protectedIds_closed (all : List Task) :
    (∀ t ∈ all, t.acceptance.isSome = true → t.id ∈ protectedIds all) ∧
      ClosedBut (parentOf all) (protectedIds all) none := by
  have hnodes (a b : Int) (h : parentOf all a = some b) : a ∈ all.map (·.id) := by
    obtain ⟨t, ht, rfl, -⟩ := parentOf_some h
    exact List.mem_map_of_mem ht
  have hempty : ClosedBut (parentOf all) [] none := fun a ha => absurd ha List.not_mem_nil
  have hfuel : (all.map (·.id)).length + 2 ≤ all.length + 2 := by rw [List.length_map]
  obtain ⟨-, hstarts, hclosed⟩ := markAll_spec hnodes hfuel hempty
  exact ⟨fun t ht hsome => hstarts (List.mem_map_of_mem (List.mem_filter.mpr ⟨ht, hsome⟩)), hclosed⟩

/-- What a clear has left of the list it began with. -/
structure ClearedFrom (sc : Scope) (all : List Task) (s : Store) : Prop where
  distinct : s.Distinct
  rows : ∀ t ∈ s.loadScope sc, ∃ u ∈ all,
    u.id = t.id ∧ u.parentId = t.parentId ∧ u.acceptance = t.acceptance
  scope : ∀ t ∈ s.tasks, ∀ u ∈ all, t.id = u.id → t.scopeOf = sc

namespace ClearedFrom

variable {sc : Scope} {all : List Task}

theorem start (hs : s.Distinct) (sc : Scope) : ClearedFrom sc (list s sc true) s where
  distinct := hs
  rows t ht := ⟨_, mem_list.mpr ⟨t, ht, rfl⟩, rfl, rfl, rfl⟩
  scope t ht u hu hid := by
    obtain ⟨row, hrow, rfl⟩ := mem_list.mp hu
    rw [hs.unique ht (mem_loadScope.mp hrow).1 hid]
    exact (mem_loadScope.mp hrow).2

theorem parentOf (h : ClearedFrom sc all s) (hnd : (all.map (·.id)).Nodup) (a b : Int)
    (hp : parentOf (s.loadScope sc) a = some b) : Tasks.parentOf all a = some b := by
  obtain ⟨t, ht, rfl, hparent⟩ := parentOf_some hp
  obtain ⟨u, hu, hid, huparent, -⟩ := h.rows t ht
  rw [← hid, parentOf_of_mem hnd hu, huparent, hparent]

/-- A deletion of a task that is not protected. -/
theorem delete (h : ClearedFrom sc all s) (hnd : (all.map (·.id)).Nodup) {tenv : Env} {u : Task}
    {n : Nat} (hu : u ∈ all) (hfree : u.id ∉ protectedIds all)
    (hdelete : Tasks.delete tenv s u.id = .ok (s', n)) : ClearedFrom sc all s' ∧ Keeps s s' := by
  obtain ⟨task, hget, -⟩ := bind_eq_ok.mp hdelete
  obtain ⟨hmem, hid⟩ := getRaw_ok hget
  have hscope : task.scopeOf = sc := h.scope task hmem u hu hid
  obtain ⟨hs', task', hmem', hid', hload⟩ := delete_loadScope h.distinct hdelete
  obtain rfl : task' = task := h.distinct.unique hmem' hmem (hid'.trans hid.symm)
  rw [hscope] at hload
  obtain ⟨hmarked, hclosed⟩ := protectedIds_closed all
  have hrows := h.distinct.scope_nodup sc
  constructor
  · refine ⟨hs', fun t ht => ?_, fun t ht v hv htv => ?_⟩
    · rw [hload, if_pos rfl] at ht
      obtain ⟨row, hrow, hkept, rfl⟩ := mem_deletedRows.mp ht
      obtain ⟨v, hv, hvid, hvparent, hvacceptance⟩ := h.rows row hrow
      refine ⟨v, hv, hvid.trans (rewriteRow_id _ _ row).symm, ?_, ?_⟩
      · rw [hvparent, (deletedRow tenv.now hrows _ hrow hkept).1]
      · rw [hvacceptance, acceptance_stripped hrows _ hrow]
    · by_contra hne
      have hin : t ∈ s'.loadScope t.scopeOf := mem_loadScope.mpr ⟨ht, rfl⟩
      rw [hload, if_neg hne] at hin
      exact hne (h.scope t (mem_loadScope.mp hin).1 v hv htv)
  · refine keeps_delete h.distinct hget hdelete fun t ht hdoomed => ?_
    rw [hscope] at ht hdoomed
    by_contra hsome
    obtain ⟨k, hup⟩ := (mem_subtreeIdsFrom hrows).mp hdoomed
    obtain ⟨v, hv, hvid, -, hvacceptance⟩ := h.rows t ht
    have hprotected : t.id ∈ protectedIds all :=
      hvid ▸ hmarked v hv (by rw [hvacceptance]; exact Option.isSome_iff_ne_none.mpr hsome)
    exact hfree (hclosed.mem_of_up (hup.mono (h.parentOf hnd)) hprotected)

theorem clearOne (h : ClearedFrom sc all s) (hnd : (all.map (·.id)).Nodup) {closedOnly : Bool}
    {n : Nat} {u : Task} (hu : u ∈ all) :
    ClearedFrom sc all (Daemon.clearOne env (protectedIds all) closedOnly (s, n) u).1 ∧
      Keeps s (Daemon.clearOne env (protectedIds all) closedOnly (s, n) u).1 := by
  rw [Daemon.clearOne]
  split
  · exact ⟨h, .refl s⟩
  · rename_i hfree
    split
    · exact ⟨h, .refl s⟩
    · cases hdelete : Tasks.delete env.tasks s u.id with
      | ok result => exact h.delete hnd hu hfree hdelete
      | error e => exact ⟨h, .refl s⟩

/-- A clear of some of the listed tasks. -/
theorem clearAll (h : ClearedFrom sc all s) (hnd : (all.map (·.id)).Nodup) {closedOnly : Bool}
    {n : Nat} {targets : List Task} (htargets : targets ⊆ all) :
    ClearedFrom sc all (targets.foldl (Daemon.clearOne env (protectedIds all) closedOnly) (s, n)).1 ∧
      Keeps s (targets.foldl (Daemon.clearOne env (protectedIds all) closedOnly) (s, n)).1 := by
  induction targets generalizing s n with
  | nil => exact ⟨h, .refl s⟩
  | cons u targets ih =>
    rw [List.foldl_cons]
    obtain ⟨hu, hrest⟩ := List.cons_subset.mp htargets
    obtain ⟨hnext, hkeeps⟩ := @clearOne env s sc all h hnd closedOnly n u hu
    obtain ⟨hlast, hkeeps'⟩ := ih hnext hrest
    exact ⟨hlast, KeepsRows.trans hkeeps hkeeps'⟩

end ClearedFrom

/-! ## The services -/

theorem stored_eq_ok {α : Type} {x : Result α} {a : α} : stored x = .ok a ↔ x = .ok a := by
  cases x with
  | ok b => exact ⟨fun h => by cases h; rfl, fun h => by cases h; rfl⟩
  | error e => exact ⟨nofun, nofun⟩

theorem orError_eq_ok {α : Type} {message : String} {x : Option α} {a : α} :
    orError message x = .ok a ↔ x = some a := by
  cases x <;> simp [orError]

theorem stored_bind {α β : Type} (x : Result α) (f : α → Result β) :
    stored (x >>= f) = stored x >>= fun a => stored (f a) := by
  cases x <;> rfl

/-- What the services find is a row of the store, `blocked` aside. -/
theorem getRaw_of_get {id : Int} {task : Task} (h : get s id = .ok task) :
    ∃ row blocked, s.getRaw id = .ok row ∧ task = { row with blocked } := by
  obtain ⟨row, hrow, h⟩ := bind_eq_ok.mp h
  split at h
  · cases h
    exact ⟨task, task.blocked, hrow, rfl⟩
  · cases h
    exact ⟨row, _, hrow, rfl⟩

/-- The new task is under the parent, in the list and of the title that it was made for. -/
theorem newTask_ok {parentId parentSort : Option Int} {scope : Scope} {parentAcceptance : Option Json}
    {title : String} {new : NewTask}
    (h : newTask env s params parentId scope parentSort parentAcceptance title = .ok new) :
    new.parentId = parentId ∧ (new.scope, new.scopeId) = scope ∧ new.title = title := by
  obtain ⟨sortOrder, -, h⟩ := bind_eq_ok.mp h
  obtain ⟨priority, -, h⟩ := bind_eq_ok.mp h
  obtain ⟨labels, -, h⟩ := bind_eq_ok.mp h
  obtain ⟨toolScope, -, h⟩ := bind_eq_ok.mp h
  obtain ⟨dependsOn, -, h⟩ := bind_eq_ok.mp h
  obtain ⟨acceptance, -, h⟩ := bind_eq_ok.mp h
  cases h
  exact ⟨rfl, rfl, rfl⟩

theorem add_writes {reply : AddReply} (h : taskAddService env s params = .ok (s', reply)) :
    s' = s ∨ ∃ new task, create env.tasks s new = .ok (s', task) := by
  obtain ⟨parentId, -, h⟩ := bind_eq_ok.mp h
  obtain ⟨⟨scope, parentSort, parentAcceptance⟩, -, h⟩ := bind_eq_ok.mp h
  obtain ⟨title, -, h⟩ := bind_eq_ok.mp h
  dsimp only at h
  split at h
  · cases h
    exact .inl rfl
  · split at h
    · cases h
      exact .inl rfl
    · obtain ⟨new, -, h⟩ := bind_eq_ok.mp h
      obtain ⟨⟨s'', task⟩, hcreate, h⟩ := bind_eq_ok.mp h
      cases h
      exact .inr ⟨new, task, stored_eq_ok.mp hcreate⟩

theorem updatePatch_acceptance {patch : TaskPatch} (h : updatePatch env params = .ok patch) :
    patch.acceptance ≠ some none := by
  obtain ⟨_, -, h⟩ := bind_eq_ok.mp h
  obtain ⟨_, -, h⟩ := bind_eq_ok.mp h
  obtain ⟨_, -, h⟩ := bind_eq_ok.mp h
  obtain ⟨_, -, h⟩ := bind_eq_ok.mp h
  obtain ⟨acceptance, -, h⟩ := bind_eq_ok.mp h
  obtain ⟨_, -, h⟩ := bind_eq_ok.mp h
  obtain ⟨_, -, h⟩ := bind_eq_ok.mp h
  cases h
  cases acceptance with
  | none => exact nofun
  | some check => exact nofun

theorem update_writes {task : Task} (h : taskUpdateService env s params = .ok (s', task)) :
    ∃ id patch, patch.acceptance ≠ some none ∧ update env.tasks s id patch = .ok (s', task) := by
  obtain ⟨id, -, h⟩ := bind_eq_ok.mp h
  obtain ⟨patch, hpatch, h⟩ := bind_eq_ok.mp h
  exact ⟨id, patch, updatePatch_acceptance hpatch, stored_eq_ok.mp h⟩

theorem finish_writes {task : Task} {verdict : Option Text} {reply : DoneReply}
    (h : finishTask env s task verdict = .ok (s', reply)) :
    ∃ id outcome, complete env.tasks s id = .ok (s', outcome) := by
  obtain ⟨⟨s'', outcome⟩, hcomplete, h⟩ := bind_eq_ok.mp h
  cases h
  exact ⟨task.id, outcome, stored_eq_ok.mp hcomplete⟩

theorem done_writes {reply : DoneReply} (h : taskDoneService env s params = .ok (s', reply)) :
    s' = s ∨ ∃ id outcome, complete env.tasks s id = .ok (s', outcome) := by
  obtain ⟨id, -, h⟩ := bind_eq_ok.mp h
  obtain ⟨task, -, h⟩ := bind_eq_ok.mp h
  split at h
  · obtain ⟨check, -, h⟩ := bind_eq_ok.mp h
    dsimp only at h
    split at h
    · exact .inr (finish_writes h)
    · cases h
      exact .inl rfl
  · exact .inr (finish_writes h)

theorem note_writes {reply : Unit} (h : taskNoteService env s params = .ok (s', reply)) : s' = s := by
  obtain ⟨id, -, h⟩ := bind_eq_ok.mp h
  obtain ⟨content, -, h⟩ := bind_eq_ok.mp h
  dsimp only at h
  split at h
  · obtain ⟨_, -, h⟩ := bind_eq_ok.mp h
    cases h
    rfl
  · cases h

/-- `tasks.remove` writes only where the task it names has no check. -/
theorem remove_writes {reply : RemoveReply} (h : taskRemoveService env s params = .ok (s', reply)) :
    s' = s ∧ (∀ id task, reqI64 env.reading params "id" = .ok id → get s id = .ok task →
      task.acceptance ≠ none) ∨
    ∃ id task n, reqI64 env.reading params "id" = .ok id ∧ get s id = .ok task ∧
      task.acceptance = none ∧ delete env.tasks s id = .ok (s', n) := by
  obtain ⟨id, hid, h⟩ := bind_eq_ok.mp h
  obtain ⟨task, hget, h⟩ := bind_eq_ok.mp h
  rw [stored_eq_ok] at hget
  split at h
  · rename_i hsome
    cases h
    refine .inl ⟨rfl, fun id' task' hid' hget' => ?_⟩
    obtain rfl : id' = id := Except.ok.inj (hid'.symm.trans hid)
    obtain rfl : task' = task := Except.ok.inj (hget'.symm.trans hget)
    exact Option.isSome_iff_ne_none.mp hsome
  · rename_i hnone
    obtain ⟨⟨s'', n⟩, hdelete, h⟩ := bind_eq_ok.mp h
    cases h
    exact .inr ⟨id, task, n, hid, hget, Option.not_isSome_iff_eq_none.mp hnone, stored_eq_ok.mp hdelete⟩

/-- It fails on no task that it finds. -/
theorem remove_error {e : String} (h : taskRemoveService env s params = .error e) (id : Int)
    (task : Task) (hid : reqI64 env.reading params "id" = .ok id) (hget : get s id = .ok task) :
    False := by
  obtain ⟨row, -, hrow, -⟩ := getRaw_of_get hget
  obtain ⟨removed, hdelete⟩ : ∃ removed, delete env.tasks s id = .ok removed := by
    rw [delete, hrow]
    exact ⟨_, rfl⟩
  obtain ⟨result, hrun⟩ : ∃ result, taskRemoveService env s params = .ok result := by
    by_cases hcheck : task.acceptance.isSome
    · exact ⟨_, bind_eq_ok.mpr ⟨id, hid, bind_eq_ok.mpr ⟨task, stored_eq_ok.mpr hget, if_pos hcheck⟩⟩⟩
    · exact ⟨_, bind_eq_ok.mpr ⟨id, hid, bind_eq_ok.mpr ⟨task, stored_eq_ok.mpr hget,
        (if_neg hcheck).trans (bind_eq_ok.mpr ⟨removed, stored_eq_ok.mpr hdelete, rfl⟩)⟩⟩⟩
  cases h.symm.trans hrun

theorem clear_writes {reply : ClearReply} (hs : s.Distinct)
    (h : taskClearService env s params = .ok (s', reply)) : s'.Distinct ∧ Keeps s s' := by
  obtain ⟨scope, -, h⟩ := bind_eq_ok.mp h
  obtain ⟨closedOnly, -, h⟩ := bind_eq_ok.mp h
  cases h
  obtain ⟨hcleared, hkeeps⟩ := @ClearedFrom.clearAll env s scope (list s scope true) (.start hs scope)
    (list_nodup hs scope) (closedOnly.getD true) 0 _ (List.Subset.refl _)
  exact ⟨hcleared.distinct, hkeeps⟩

/-- One call of `tasks.remove`. -/
theorem remove_step (hs : s.Distinct) :
    ((ServiceCall.remove params).run env s).Distinct ∧
      (Harmless env s (.remove params) → Keeps s ((ServiceCall.remove params).run env s)) ∧
      (NoneLost s ((ServiceCall.remove params).run env s) → Harmless env s (.remove params)) := by
  rw [ServiceCall.run]
  cases h : taskRemoveService env s params with
  | error e =>
    exact ⟨hs, fun _ => .refl s, fun _ id task hid hget => (remove_error h id task hid hget).elim⟩
  | ok result =>
    rcases remove_writes h with ⟨heq, hnone⟩ | ⟨id, task, n, hid, hget, hnone, hdelete⟩
    · rw [leaves, heq]
      exact ⟨hs, fun _ => .refl s, fun _ id task hid hget hacceptance =>
        absurd hacceptance (hnone id task hid hget)⟩
    · obtain ⟨row, blocked, hrow, htask⟩ := getRaw_of_get hget
      have hscope : row.scopeOf = task.scopeOf := by
        rw [htask]
        rfl
      refine ⟨(delete_loadScope hs hdelete).1, fun hharmless => ?_, fun hlost => ?_⟩
      · refine keeps_delete hs hrow hdelete ?_
        rw [hscope]
        exact hharmless id task hid hget hnone
      · intro id' task' hid' hget' _
        obtain rfl : id' = id := Except.ok.inj (hid'.symm.trans hid)
        obtain rfl : task' = task := Except.ok.inj (hget'.symm.trans hget)
        rw [← hscope]
        exact subtree_of_delete hs hrow hdelete hlost

/-- One call of a service. -/
theorem call_step (hs : s.Distinct) (call : ServiceCall) : (call.run env s).Distinct ∧
    (Harmless env s call → Keeps s (call.run env s)) ∧
    (NoneLost s (call.run env s) → Harmless env s call) := by
  have hstep {s' : Store} (h : s'.Distinct ∧ Keeps s s') : s'.Distinct ∧ (True → Keeps s s') ∧
      (NoneLost s s' → True) := ⟨h.1, fun _ => h.2, fun _ => trivial⟩
  have hop {op : Op} {α : Type} {s' : Store} {a : α} (h : Except.map Prod.fst
      (.ok (s', a) : Result (Store × α)) = op.run env.tasks s) (hrewrites : Rewrites op) :
      s'.Distinct ∧ Keeps s s' := keeps_of_op hs h.symm hrewrites
  cases call with
  | add params =>
    refine hstep ?_
    rw [ServiceCall.run]
    cases h : taskAddService env s params with
    | error e => exact ⟨hs, .refl s⟩
    | ok result =>
      rcases add_writes h with heq | ⟨new, task, hcreate⟩
      · rw [leaves, heq]
        exact ⟨hs, .refl s⟩
      · exact @hop (.create new) _ _ _ (congrArg _ hcreate.symm) trivial
  | update params =>
    refine hstep ?_
    rw [ServiceCall.run]
    cases h : taskUpdateService env s params with
    | error e => exact ⟨hs, .refl s⟩
    | ok result =>
      obtain ⟨id, patch, hpatch, hupdate⟩ := update_writes h
      exact @hop (.update id patch) _ _ _ (congrArg _ hupdate.symm) hpatch
  | done params =>
    refine hstep ?_
    rw [ServiceCall.run]
    cases h : taskDoneService env s params with
    | error e => exact ⟨hs, .refl s⟩
    | ok result =>
      rcases done_writes h with heq | ⟨id, outcome, hcomplete⟩
      · rw [leaves, heq]
        exact ⟨hs, .refl s⟩
      · exact @hop (.complete id) _ _ _ (congrArg _ hcomplete.symm) trivial
  | note params =>
    refine hstep ?_
    rw [ServiceCall.run]
    cases h : taskNoteService env s params with
    | error e => exact ⟨hs, .refl s⟩
    | ok result =>
      rw [leaves, note_writes h]
      exact ⟨hs, .refl s⟩
  | remove params => exact remove_step hs
  | clear params =>
    refine hstep ?_
    rw [ServiceCall.run]
    cases h : taskClearService env s params with
    | error e => exact ⟨hs, .refl s⟩
    | ok result => exact clear_writes hs h

/-! ## Runs -/

theorem runCalls_append (s : Store) (calls calls' : List (ServiceEnv × ServiceCall)) :
    runCalls s (calls ++ calls') = runCalls (runCalls s calls) calls' :=
  List.foldl_append

theorem runCalls_distinct (hs : s.Distinct) (calls : List (ServiceEnv × ServiceCall)) :
    (runCalls s calls).Distinct := by
  induction calls generalizing s with
  | nil => exact hs
  | cons call calls ih => exact ih (call_step hs call.2).1

theorem keeps_runCalls (hs : s.Distinct) {calls : List (ServiceEnv × ServiceCall)}
    (h : ∀ before call after, calls = before ++ call :: after →
      Harmless call.1 (runCalls s before) call.2) : Keeps s (runCalls s calls) := by
  induction calls generalizing s with
  | nil => exact .refl s
  | cons call calls ih =>
    obtain ⟨hs', hkeeps, -⟩ := @call_step call.1 s hs call.2
    have hrest := ih hs' fun before next after heq =>
      h (call :: before) next after (by rw [heq, List.cons_append])
    exact KeepsRows.trans (hkeeps (h [] call calls rfl)) hrest

/-- **Main result.** From a store whose ids are distinct (`id` is the table's primary key), no task with
a check is lost in any part of a run exactly when each of its calls is harmless. -/
theorem contracts_kept_iff (s : Store) (hs : s.Distinct) (calls : List (ServiceEnv × ServiceCall)) :
    (∀ before part after, calls = before ++ part ++ after →
      NoneLost (runCalls s before) (runCalls s (before ++ part))) ↔
    ∀ before call after, calls = before ++ call :: after →
      Harmless call.1 (runCalls s before) call.2 := by
  constructor
  · intro h before call after heq
    refine (call_step (runCalls_distinct hs before) call.2).2.2 ?_
    have hpart := h before [call] after (by rw [heq, List.append_assoc, List.singleton_append])
    rwa [runCalls_append] at hpart
  · intro h before part after heq
    rw [runCalls_append]
    refine (keeps_runCalls (runCalls_distinct hs before) fun before' call after' hpart => ?_).noneLost
    rw [← runCalls_append]
    refine h (before ++ before') call (after' ++ after) ?_
    rw [heq, hpart]
    simp only [List.append_assoc, List.cons_append]

/-- JSON objects only, ASCII titles. -/
def sampleServices : ServiceEnv where
  tasks := ⟨"2026-07-25 09:00:00", [], .ok⟩
  reading :=
    ⟨⟨fun _ => none, fun _ => "not a check", Char.isAlpha, Char.isDigit⟩, fun _ => none,
      fun _ => "a number", fun t => t.map Char.toLower⟩
  workspaceId := none
  baseline := fun _ => none
  admits := fun _ => false
  runCheck := fun _ _ => .pass []

def samplePlan : ServiceCall :=
  .add (.obj [("scope", .str "global"), ("title", .str "Release")])

def sampleStep : ServiceCall :=
  .add (.obj [("parent_id", .num (.int 1)), ("title", .str "Tests pass"),
    ("acceptance", .obj [("kind", .str "command"), ("command", .str "cargo test")])])

def sampleRemove (id : Int) : ServiceCall := .remove (.obj [("id", .num (.int id))])

def sampleRun (calls : List ServiceCall) : Store :=
  runCalls Store.empty (calls.map fun call => (sampleServices, call))

theorem contracts_kept_iff_sample :
    NoneLost (sampleRun [samplePlan, sampleStep]) (sampleRun [samplePlan, sampleStep, sampleRemove 2]) := by
  refine (contracts_kept_iff Store.empty .empty _).mpr (fun before call after heq => ?_)
    ([samplePlan, sampleStep].map fun call => (sampleServices, call)) [(sampleServices, sampleRemove 2)]
    [] rfl
  rcases before with - | ⟨b, - | ⟨b', - | ⟨b'', before⟩⟩⟩
  · cases heq
    trivial
  · cases heq
    trivial
  · cases heq
    intro id task hid hget hnone
    have hread : reqI64 sampleServices.reading (.obj [("id", .num (.int 2))]) "id" = .ok 2 := by
      decide
    obtain rfl : id = 2 := Except.ok.inj (hid.symm.trans hread)
    have hcheck : (get (sampleRun [samplePlan, sampleStep]) 2).map (·.acceptance.isSome) = .ok true := by
      decide
    rw [sampleRun, List.map_cons, List.map_cons, List.map_nil, hget] at hcheck
    have hsome : task.acceptance.isSome = true := Except.ok.inj hcheck
    rw [hnone] at hsome
    exact absurd hsome Bool.false_ne_true
  · simp at heq

/-- Removing a plan takes the step with the check along. -/
theorem remove_parent : ¬ ∀ s : Store, s.Distinct → ∀ calls before part after,
    calls = before ++ part ++ after → NoneLost (runCalls s before) (runCalls s (before ++ part)) := by
  intro h
  have hlost : NoneLost (sampleRun [samplePlan, sampleStep])
      (sampleRun [samplePlan, sampleStep, sampleRemove 1]) :=
    h Store.empty .empty _ ([samplePlan, sampleStep].map fun call => (sampleServices, call))
      [(sampleServices, sampleRemove 1)] [] rfl
  have hcheck : (sampleRun [samplePlan, sampleStep]).tasks.any (·.acceptance.isSome) = true := by
    decide
  have hgone : (sampleRun [samplePlan, sampleStep, sampleRemove 1]).tasks = [] := by decide
  obtain ⟨t, ht, hsome⟩ := List.any_eq_true.mp hcheck
  obtain ⟨t', ht', -⟩ := hlost t ht hsome
  rw [hgone] at ht'
  exact List.not_mem_nil ht'

end Nanna.Daemon
