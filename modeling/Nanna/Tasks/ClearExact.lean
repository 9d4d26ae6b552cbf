import Nanna.Tasks.CascadeExact

/-!
# What a clear takes

A clear deletes the subtrees of its targets one after another; a target that went with an earlier one is passed
over. What is left are the rows outside the subtrees that the targets had at the start, in their places, and what is
counted is what is gone (`Partway`). The repository passes over a closed task with an open task below it, so it
takes no open work (`clear_spec`).
-/

namespace Nanna.Tasks

open Nanna.Lib

/-- The row is where it was, and open or closed as it was. -/
structure Stays (t t' : Task) : Prop where
  id : t'.id = t.id
  parentId : t'.parentId = t.parentId
  status : t'.status = t.status
  scopeOf : t'.scopeOf = t.scopeOf

/-- In the subtree of one of the tasks. -/
def Taken (rows : List Task) (targets : List Int) (x : Int) : Prop := ∃ a ∈ targets, ∃ k, Up (parentOf rows) k x a

/-- What the deletions of the targets' subtrees have left of a store. -/
structure Partway (s₀ : Store) (sc : Scope) (targets : List Int) (s : Store) (removed : Nat) : Prop where
  distinct : s.Distinct
  left : ∀ t' ∈ s.tasks, ∃ t ∈ s₀.tasks, Stays t t' ∧ ¬Taken (s₀.loadScope sc) targets t.id
  kept : ∀ t ∈ s₀.tasks, ¬Taken (s₀.loadScope sc) targets t.id → ∃ t' ∈ s.tasks, Stays t t'
  counted : removed + s.tasks.length = s₀.tasks.length

/-- The subtree of a task, if it is still there. -/
def takeSubtree (env : Env) (acc : Store × Nat) (id : Int) : Store × Nat :=
  match delete env acc.1 id with
  | .ok (s, n) => (s, acc.2 + n)
  | .error _ => acc

/-! ## One deletion -/

theorem subtreeIdsFrom_nodup (rows : List Task) (root : Int) : (subtreeIdsFrom rows root).Nodup := by
  have hnodes : ∀ a, ∀ b ∈ childrenOf rows a, b ∈ rows.map (·.id) := by
    intro a b hb
    obtain ⟨task, hmem, rfl, -⟩ := mem_childrenOf.mp hb
    exact List.mem_map_of_mem hmem
  exact (collect_spec hnodes root).2.2.2

section Delete

variable {env : Env} {s s' : Store} {id : Int} {n : Nat}

/-- A deletion counts the rows that are gone. -/
theorem delete_counted (hs : s.Distinct) (h : delete env s id = .ok (s', n)) :
    n + s'.tasks.length = s.tasks.length := by
  obtain ⟨task, hget, h⟩ := bind_eq_ok.mp h
  obtain ⟨htask, rfl⟩ := getRaw_ok hget
  cases h
  generalize hdoomed : subtreeIdsFrom (s.loadScope task.scopeOf) task.id = doomed
  have hmem : ∀ x ∈ doomed, x ∈ s.tasks.map (·.id) := by
    intro x hx
    rw [← hdoomed] at hx
    rcases row_of_mem_subtreeIdsFrom (hs.scope_nodup _) hx with rfl | ⟨u, hu, rfl⟩
    · exact List.mem_map_of_mem htask
    · exact List.mem_map_of_mem (mem_loadScope.mp hu).1
  have hperm : ((s.tasks.map (·.id)).filter (· ∈ doomed)).Perm doomed := by
    refine (List.perm_ext_iff_of_nodup (hs.nodup.filter _) (hdoomed ▸ subtreeIdsFrom_nodup _ _)).mpr fun x => ?_
    rw [List.mem_filter, decide_eq_true_eq]
    exact ⟨And.right, fun hx => ⟨hmem x hx, hx⟩⟩
  have hleft : ((s.deleteAll doomed).writeAll env.now (strippedRows (s.loadScope task.scopeOf) doomed)).tasks.length =
      ((s.tasks.map (·.id)).filter (· ∉ doomed)).length := by
    rw [← List.length_map (·.id), writeAll_ids, List.filter_map, List.length_map, List.length_map]
    rfl
  have hsplit : (s.tasks.map (·.id)).length = _ := List.length_eq_length_filter_add (· ∈ doomed)
  rw [List.length_map] at hsplit
  rw [hleft, ← hperm.length_eq, hsplit]
  simp

/-- A deletion that finds its task succeeds. -/
theorem delete_isOk (env : Env) (h : id ∈ s.tasks.map (·.id)) : ∃ out, delete env s id = .ok out := by
  obtain ⟨task, hget⟩ := getRaw_isOk.mpr h
  rw [delete, hget]
  exact ⟨_, rfl⟩

/-- What a deletion leaves: the rows outside the subtree, in their places. -/
theorem delete_stays (hs : s.Distinct) (h : delete env s id = .ok (s', n)) :
    ∃ task ∈ s.tasks, task.id = id ∧
      (∀ t' ∈ s'.tasks, ∃ t ∈ s.tasks, Stays t t' ∧ t.id ∉ subtreeIdsFrom (s.loadScope task.scopeOf) id) ∧
      ∀ t ∈ s.tasks, t.id ∉ subtreeIdsFrom (s.loadScope task.scopeOf) id → ∃ t' ∈ s'.tasks, Stays t t' := by
  obtain ⟨-, task, htask, hid, hload⟩ := delete_loadScope hs h
  have hnd := hs.scope_nodup task.scopeOf
  have hrewritten {row : Task} (hrow : row ∈ s.loadScope task.scopeOf)
      (hkeep : row.id ∉ subtreeIdsFrom (s.loadScope task.scopeOf) id) {t' : Task}
      (ht' : t' ∈ s'.loadScope task.scopeOf)
      (heq : t' = rewriteRow env.now (strippedRows (s.loadScope task.scopeOf)
        (subtreeIdsFrom (s.loadScope task.scopeOf) id)) row) : Stays row t' := by
    obtain ⟨hparent, hstatus, -⟩ := deletedRow env.now hnd _ hrow hkeep
    refine ⟨?_, ?_, ?_, ((mem_loadScope.mp ht').2).trans (mem_loadScope.mp hrow).2.symm⟩
    · rw [heq, rewriteRow_id]
    · rw [heq, hparent]
    · rw [heq, hstatus]
  refine ⟨task, htask, hid, fun t' ht' => ?_, fun t ht hkeep => ?_⟩
  · have hin : t' ∈ s'.loadScope t'.scopeOf := mem_loadScope.mpr ⟨ht', rfl⟩
    by_cases hsc : t'.scopeOf = task.scopeOf
    · rw [hsc] at hin
      have hin' := hin
      rw [hload, if_pos rfl] at hin'
      obtain ⟨row, hrow, hkeep, heq⟩ := mem_deletedRows.mp hin'
      exact ⟨row, (mem_loadScope.mp hrow).1, hrewritten hrow hkeep hin heq, hkeep⟩
    · rw [hload, if_neg hsc] at hin
      refine ⟨t', (mem_loadScope.mp hin).1, ⟨rfl, rfl, rfl, rfl⟩, fun hdoomed => hsc ?_⟩
      -- a subtree lies in one scope
      rcases row_of_mem_subtreeIdsFrom hnd hdoomed with hroot | ⟨v, hv, hvid⟩
      · rw [hs.unique (mem_loadScope.mp hin).1 htask (hroot.trans hid.symm)]
      · rw [hs.unique (mem_loadScope.mp hin).1 (mem_loadScope.mp hv).1 hvid.symm]
        exact (mem_loadScope.mp hv).2
  · by_cases hsc : t.scopeOf = task.scopeOf
    · have hrow : t ∈ s.loadScope task.scopeOf := mem_loadScope.mpr ⟨ht, hsc⟩
      have hin : rewriteRow env.now (strippedRows (s.loadScope task.scopeOf)
          (subtreeIdsFrom (s.loadScope task.scopeOf) id)) t ∈ s'.loadScope task.scopeOf := by
        rw [hload, if_pos rfl]
        exact mem_deletedRows.mpr ⟨t, hrow, hkeep, rfl⟩
      exact ⟨_, (mem_loadScope.mp hin).1, hrewritten hrow hkeep hin rfl⟩
    · have hin : t ∈ s'.loadScope t.scopeOf := by
        rw [hload, if_neg hsc]
        exact mem_loadScope.mpr ⟨ht, rfl⟩
      exact ⟨t, (mem_loadScope.mp hin).1, ⟨rfl, rfl, rfl, rfl⟩⟩

end Delete

/-! ## One target after another -/

theorem Stays.trans {a b c : Task} (h : Stays a b) (h' : Stays b c) : Stays a c :=
  ⟨h'.id.trans h.id, h'.parentId.trans h.parentId, h'.status.trans h.status, h'.scopeOf.trans h.scopeOf⟩

/-- What is below a taken task is taken. -/
theorem Taken.below {rows : List Task} {targets : List Int} {x y : Int} {k : Nat} (h : Taken rows targets y)
    (hup : Up (parentOf rows) k x y) : Taken rows targets x := by
  obtain ⟨a, ha, j, hj⟩ := h
  exact ⟨a, ha, k + j, hup.trans hj⟩

theorem taken_concat {rows : List Task} {targets : List Int} {id x : Int} :
    Taken rows (targets ++ [id]) x ↔ Taken rows targets x ∨ ∃ k, Up (parentOf rows) k x id := by
  unfold Taken
  simp only [List.mem_append, List.mem_singleton]
  constructor
  · rintro ⟨a, ha | rfl, hk⟩
    · exact .inl ⟨a, ha, hk⟩
    · exact .inr hk
  · rintro (⟨a, ha, hk⟩ | hk)
    · exact ⟨a, .inl ha, hk⟩
    · exact ⟨id, .inr rfl, hk⟩

namespace Partway

variable {env : Env} {s₀ s s' : Store} {sc : Scope} {targets : List Int} {removed n : Nat}

theorem start (hs : s.Distinct) (sc : Scope) : Partway s sc [] s 0 where
  distinct := hs
  left t ht := ⟨t, ht, ⟨rfl, rfl, rfl, rfl⟩, fun ⟨_, ha, _⟩ => List.not_mem_nil ha⟩
  kept t ht _ := ⟨t, ht, rfl, rfl, rfl, rfl⟩
  counted := Nat.zero_add _

/-- The parents of what is left are what they were. -/
theorem parentOf_left (h : Partway s₀ sc targets s removed) (hs₀ : s₀.Distinct) {a b : Int}
    (hp : parentOf (s.loadScope sc) a = some b) : parentOf (s₀.loadScope sc) a = some b := by
  obtain ⟨t', ht', rfl, hparent⟩ := parentOf_some hp
  obtain ⟨hmem', hsc⟩ := mem_loadScope.mp ht'
  obtain ⟨t, ht, hstays, -⟩ := h.left t' hmem'
  have hrow : t ∈ s₀.loadScope sc := mem_loadScope.mpr ⟨ht, hstays.scopeOf ▸ hsc⟩
  rw [hstays.id, parentOf_of_mem (hs₀.scope_nodup sc) hrow, ← hstays.parentId, hparent]

/-- A chain from a task that is left is left. -/
theorem up_kept (h : Partway s₀ sc targets s removed) {k : Nat} {x y : Int}
    (hup : Up (parentOf (s₀.loadScope sc)) k x y) (hx : ¬Taken (s₀.loadScope sc) targets x) :
    Up (parentOf (s.loadScope sc)) k x y := by
  induction hup with
  | here => exact .here _
  | step hp hrest ih =>
    rename_i x p y
    obtain ⟨t, ht, rfl, hparent⟩ := parentOf_some hp
    obtain ⟨hmem, hsc⟩ := mem_loadScope.mp ht
    obtain ⟨t', ht', hstays⟩ := h.kept t hmem hx
    have hrow' : t' ∈ s.loadScope sc := mem_loadScope.mpr ⟨ht', hstays.scopeOf.trans hsc⟩
    refine .step ?_ (ih fun htaken => hx (htaken.below (.step hp (.here _))))
    rw [← hstays.id, parentOf_of_mem (h.distinct.scope_nodup sc) hrow', hstays.parentId, hparent]

/-- The next target's subtree goes. -/
theorem delete (h : Partway s₀ sc targets s removed) (hs₀ : s₀.Distinct) {target : Task}
    (htarget : target ∈ s₀.loadScope sc) (hdelete : Tasks.delete env s target.id = .ok (s', n)) :
    Partway s₀ sc (targets ++ [target.id]) s' (removed + n) := by
  obtain ⟨task, htask, hid, hleft, hkept⟩ := delete_stays h.distinct hdelete
  obtain ⟨hmem, hsc⟩ := mem_loadScope.mp htarget
  have hscope : task.scopeOf = sc := by
    obtain ⟨t, ht, hstays, -⟩ := h.left task htask
    rw [hstays.scopeOf, hs₀.unique ht hmem (hstays.id.symm.trans hid), hsc]
  rw [hscope] at hleft hkept
  have hnd := h.distinct.scope_nodup sc
  refine ⟨(delete_loadScope h.distinct hdelete).1, fun t' ht' => ?_, fun t ht hfree => ?_, ?_⟩
  · obtain ⟨row, hrow, hstays', hout⟩ := hleft t' ht'
    obtain ⟨t, ht, hstays, hfree⟩ := h.left row hrow
    refine ⟨t, ht, hstays.trans hstays', fun htaken => ?_⟩
    rcases taken_concat.mp htaken with htaken | ⟨k, hk⟩
    · exact hfree htaken
    · exact hout ((mem_subtreeIdsFrom hnd).mpr ⟨k, hstays.id ▸ h.up_kept hk hfree⟩)
  · rw [taken_concat, not_or] at hfree
    obtain ⟨row, hrow, hstays⟩ := h.kept t ht hfree.1
    obtain ⟨t', ht', hstays'⟩ := hkept row hrow fun hin => hfree.2 (by
      obtain ⟨k, hk⟩ := (mem_subtreeIdsFrom hnd).mp hin
      exact ⟨k, hstays.id ▸ hk.mono fun _ _ => h.parentOf_left hs₀⟩)
    exact ⟨t', ht', hstays.trans hstays'⟩
  · have hcounted := h.counted
    have hdeleted := delete_counted h.distinct hdelete
    omega

/-- A target that is gone went with an earlier one. -/
theorem skip (h : Partway s₀ sc targets s removed) {target : Task} (htarget : target ∈ s₀.loadScope sc)
    (hgone : target.id ∉ s.tasks.map (·.id)) : Partway s₀ sc (targets ++ [target.id]) s removed := by
  have htaken : Taken (s₀.loadScope sc) targets target.id := by
    by_contra hfree
    obtain ⟨t', ht', hstays⟩ := h.kept target (mem_loadScope.mp htarget).1 hfree
    exact hgone (List.mem_map.mpr ⟨t', ht', hstays.id⟩)
  have hsame (x : Int) : Taken (s₀.loadScope sc) (targets ++ [target.id]) x ↔ Taken (s₀.loadScope sc) targets x := by
    rw [taken_concat]
    exact or_iff_left_of_imp fun ⟨k, hk⟩ => htaken.below hk
  refine ⟨h.distinct, fun t' ht' => ?_, fun t ht hfree => h.kept t ht (mt (hsame t.id).mpr hfree), h.counted⟩
  obtain ⟨t, ht, hstays, hfree⟩ := h.left t' ht'
  exact ⟨t, ht, hstays, mt (hsame t.id).mp hfree⟩

theorem takeSubtree (env : Env) (h : Partway s₀ sc targets s removed) (hs₀ : s₀.Distinct) {target : Task}
    (htarget : target ∈ s₀.loadScope sc) :
    Partway s₀ sc (targets ++ [target.id]) (Tasks.takeSubtree env (s, removed) target.id).1
      (Tasks.takeSubtree env (s, removed) target.id).2 := by
  by_cases hmem : target.id ∈ s.tasks.map (·.id)
  · obtain ⟨⟨s', n⟩, hdelete⟩ := delete_isOk env hmem
    rw [Tasks.takeSubtree, hdelete]
    exact h.delete hs₀ htarget hdelete
  · cases hdelete : Tasks.delete env s target.id with
    | ok out =>
      obtain ⟨task, hget, -⟩ := bind_eq_ok.mp hdelete
      exact absurd (getRaw_isOk.mp ⟨task, hget⟩) hmem
    | error e =>
      rw [Tasks.takeSubtree, hdelete]
      exact h.skip htarget hmem

/-- All the targets, one after another. -/
theorem takeAll (hs₀ : s₀.Distinct) : ∀ (ids : List Int) {targets : List Int} {acc : Store × Nat},
    Partway s₀ sc targets acc.1 acc.2 → (∀ a ∈ ids, ∃ t ∈ s₀.loadScope sc, t.id = a) →
      Partway s₀ sc (targets ++ ids) (ids.foldl (Tasks.takeSubtree env) acc).1
        (ids.foldl (Tasks.takeSubtree env) acc).2 := by
  intro ids
  induction ids with
  | nil =>
    intro targets acc h _
    rwa [List.append_nil]
  | cons a ids ih =>
    intro targets acc h hids
    obtain ⟨target, htarget, rfl⟩ := hids a List.mem_cons_self
    have hnext := h.takeSubtree env hs₀ htarget
    have hrest := ih hnext fun a ha => hids a (List.mem_cons_of_mem _ ha)
    rwa [List.append_assoc] at hrest

/-- No open task is gone, exactly when none was taken. -/
theorem open_kept_iff (h : Partway s₀ sc targets s removed) (hs₀ : s₀.Distinct)
    (htargets : ∀ a ∈ targets, ∃ t ∈ s₀.loadScope sc, t.id = a) :
    (∀ t ∈ s₀.tasks, isOpen t = true → ∃ t' ∈ s.tasks, t'.id = t.id ∧ isOpen t' = true) ↔
      ∀ t ∈ s₀.loadScope sc, isOpen t = true → ¬Taken (s₀.loadScope sc) targets t.id := by
  constructor
  · intro hkept t ht hopen
    obtain ⟨hmem, -⟩ := mem_loadScope.mp ht
    obtain ⟨t', ht', hid, -⟩ := hkept t hmem hopen
    obtain ⟨t₀, ht₀, hstays, hfree⟩ := h.left t' ht'
    rwa [← hid, hstays.id]
  · intro hfree t ht hopen
    have hleft : ¬Taken (s₀.loadScope sc) targets t.id := by
      rintro ⟨a, ha, k, hk⟩
      -- a task in the subtree of a target is in the scope
      have hrow : t ∈ s₀.loadScope sc := by
        obtain ⟨u, hu, hid⟩ : ∃ u ∈ s₀.loadScope sc, u.id = t.id := by
          cases hk with
          | here => exact htargets _ ha
          | step hp _ =>
            obtain ⟨u, hu, hid, -⟩ := parentOf_some hp
            exact ⟨u, hu, hid⟩
        rwa [hs₀.unique ht (mem_loadScope.mp hu).1 hid.symm]
      exact hfree t hrow hopen ⟨a, ha, k, hk⟩
    obtain ⟨t', ht', hstays⟩ := h.kept t ht hleft
    exact ⟨t', ht', hstays.id, by rwa [isOpen, hstays.status]⟩

/-- A target is gone. -/
theorem target_gone (h : Partway s₀ sc targets s removed) {a : Int} (ha : a ∈ targets) : ∀ t ∈ s.tasks, t.id ≠ a := by
  intro t ht hid
  obtain ⟨t₀, -, hstays, hfree⟩ := h.left t ht
  exact hfree ⟨a, ha, 0, by rw [← hid, hstays.id]; exact .here _⟩

end Partway

/-! ## Clearing closed tasks -/

/-- A task in the subtree has a check. -/
def Contracted (rows : List Task) (x : Int) : Prop :=
  ∃ u ∈ rows, u.acceptance.isSome = true ∧ ∃ k, Up (parentOf rows) k u.id x

/-- No task below is open. -/
def ClosedBelow (rows : List Task) (x : Int) : Prop := ∀ u ∈ rows, Below rows u.id x → isOpen u = false

/-- A clear of closed tasks takes no open one, takes those with nothing open and no check in their subtree, and counts
what is gone. -/
structure ClearsClosed (s : Store) (sc : Scope) (s' : Store) (removed : Nat) : Prop where
  open_kept : ∀ t ∈ s.tasks, isOpen t = true → ∃ t' ∈ s'.tasks, t'.id = t.id ∧ isOpen t' = true
  closed_gone : ∀ t ∈ s.loadScope sc, isOpen t = false → ClosedBelow (s.loadScope sc) t.id →
    ¬Contracted (s.loadScope sc) t.id → ∀ t' ∈ s'.tasks, t'.id ≠ t.id
  counted : removed + s'.tasks.length = s.tasks.length

/-- The clear of some closed targets. -/
theorem clearsClosed_iff {env : Env} {s : Store} {sc : Scope} (hs : s.Distinct) {ids : List Int}
    (hids : ∀ a ∈ ids, ∃ t ∈ s.loadScope sc, t.id = a ∧ isOpen t = false)
    (hall : ∀ t ∈ s.loadScope sc, isOpen t = false → ClosedBelow (s.loadScope sc) t.id →
      ¬Contracted (s.loadScope sc) t.id → t.id ∈ ids) :
    ClearsClosed s sc (ids.foldl (takeSubtree env) (s, 0)).1 (ids.foldl (takeSubtree env) (s, 0)).2 ↔
      ∀ a ∈ ids, ClosedBelow (s.loadScope sc) a := by
  have hrows : ∀ a ∈ ids, ∃ t ∈ s.loadScope sc, t.id = a := by
    intro a ha
    obtain ⟨t, ht, hid, -⟩ := hids a ha
    exact ⟨t, ht, hid⟩
  have hpartway := @Partway.takeAll env s sc hs ids [] (s, 0) (.start hs sc) hrows
  rw [List.nil_append] at hpartway
  have hkept := hpartway.open_kept_iff hs hrows
  have hfree : (∀ t ∈ s.loadScope sc, isOpen t = true → ¬Taken (s.loadScope sc) ids t.id) ↔
      ∀ a ∈ ids, ClosedBelow (s.loadScope sc) a := by
    constructor
    · intro hfree a ha u hu ⟨k, hk⟩
      by_contra hopen
      exact hfree u hu (Bool.not_eq_false _ ▸ hopen) ⟨a, ha, k + 1, hk⟩
    · intro hbelow u hu hopen ⟨a, ha, k, hk⟩
      rcases k with _ | k
      · obtain ⟨t, ht, hid, hclosed⟩ := hids a ha
        generalize huid : u.id = x at hk
        cases hk
        rw [hs.unique (mem_loadScope.mp hu).1 (mem_loadScope.mp ht).1 (huid.trans hid.symm), hclosed] at hopen
        cases hopen
      · rw [hbelow a ha u hu ⟨k, hk⟩] at hopen
        cases hopen
  rw [← hfree, ← hkept]
  refine ⟨ClearsClosed.open_kept, fun hopen => ⟨hopen, fun t ht hclosed hbelow hcheck => ?_, hpartway.counted⟩⟩
  exact hpartway.target_gone (hall t ht hclosed hbelow hcheck)

/-! ## The repository's clear -/

section Repository

variable {env : Env} {s : Store} {sc : Scope}

theorem hasOpenDescendant_iff {rows : List Task} (hnd : (rows.map (·.id)).Nodup) {t : Task} (ht : t ∈ rows)
    (hclosed : isOpen t = false) : hasOpenDescendant rows t.id = false ↔ ClosedBelow rows t.id := by
  unfold hasOpenDescendant
  rw [List.any_eq_false]
  constructor
  · intro hnone u hu ⟨k, hk⟩
    have hmember := hnone u.id ((mem_subtreeIdsFrom hnd).mpr ⟨k + 1, hk⟩)
    by_cases hself : u.id = t.id
    · rwa [List.inj_on_of_nodup_map hnd hu ht hself]
    · simpa [hself, findTask_of_mem hnd hu] using hmember
  · intro hbelow member hmember
    obtain ⟨k, hk⟩ := (mem_subtreeIdsFrom hnd).mp hmember
    rcases k with _ | k
    · cases hk
      simp
    · cases hfind : findTask rows member with
      | none => simp
      | some u =>
        obtain ⟨hu, rfl⟩ := findTask_some hfind
        simp [hbelow u hu ⟨k, hk⟩]

/-- One target of the repository's clear. -/
theorem clearTarget_eq (rows : List Task) (acc : Store × Nat) (target : Task) :
    clearTarget env rows true acc target =
      .ok (if hasOpenDescendant rows target.id = false then takeSubtree env acc target.id else acc) := by
  unfold clearTarget
  by_cases hskip : hasOpenDescendant rows target.id = true
  · simp [hskip]
  · rw [if_neg (by simpa using hskip), if_pos (Bool.not_eq_true _ ▸ hskip), takeSubtree]
    cases hget : acc.1.getRaw target.id with
    | error e =>
      have hdelete : delete env acc.1 target.id = .error e := by
        rw [delete, hget]
        rfl
      rw [hdelete]
    | ok task =>
      obtain ⟨⟨s', n⟩, hdelete⟩ := delete_isOk env (getRaw_isOk.mp ⟨task, hget⟩)
      rw [hdelete]
      rfl

/-- The targets that have nothing open below them. -/
def freeTargets (rows : List Task) : List Int :=
  ((clearTargets rows true).filter fun t => hasOpenDescendant rows t.id = false).map (·.id)

theorem clear_eq (env : Env) (s : Store) (sc : Scope) :
    clear env s sc true = .ok ((freeTargets (s.loadScope sc)).foldl (takeSubtree env) (s, 0)) := by
  have hstep : clearTarget env (s.loadScope sc) true = fun acc target =>
      pure (if hasOpenDescendant (s.loadScope sc) target.id = false then takeSubtree env acc target.id else acc) := by
    funext acc target
    exact clearTarget_eq _ acc target
  rw [clear, hstep, List.foldlM_pure, freeTargets, List.foldl_map, List.foldl_filter]
  simp only [decide_eq_true_eq]
  rfl

theorem mem_freeTargets (hs : s.Distinct) {a : Int} : a ∈ freeTargets (s.loadScope sc) ↔
    ∃ t ∈ s.loadScope sc, t.id = a ∧ isOpen t = false ∧ ClosedBelow (s.loadScope sc) a := by
  have hnd := hs.scope_nodup sc
  simp only [freeTargets, clearTargets, List.mem_map, List.mem_filter, (List.perm_insertionSort _ _).mem_iff,
    decide_eq_true_eq]
  constructor
  · rintro ⟨t, ⟨⟨hrow, hstatus⟩, hnone⟩, rfl⟩
    have hclosed : isOpen t = false := by simpa [isOpen] using hstatus
    exact ⟨t, hrow, rfl, hclosed, (hasOpenDescendant_iff hnd hrow hclosed).mp hnone⟩
  · rintro ⟨t, hrow, rfl, hclosed, hbelow⟩
    exact ⟨t, ⟨⟨hrow, by simpa [isOpen] using hclosed⟩, (hasOpenDescendant_iff hnd hrow hclosed).mpr hbelow⟩, rfl⟩

theorem clear_spec (hs : s.Distinct) (env : Env) (sc : Scope) :
    ∃ s' removed, clear env s sc true = .ok (s', removed) ∧ ClearsClosed s sc s' removed := by
  refine ⟨_, _, clear_eq env s sc, (clearsClosed_iff hs ?_ ?_).mpr ?_⟩
  · intro a ha
    obtain ⟨t, hrow, hid, hclosed, -⟩ := (mem_freeTargets hs).mp ha
    exact ⟨t, hrow, hid, hclosed⟩
  · intro t hrow hclosed hbelow _
    exact (mem_freeTargets hs).mpr ⟨t, hrow, rfl, hclosed, hbelow⟩
  · intro a ha
    obtain ⟨-, -, -, -, hbelow⟩ := (mem_freeTargets hs).mp ha
    exact hbelow

end Repository

end Nanna.Tasks
