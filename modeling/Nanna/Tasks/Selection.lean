import Nanna.Tasks.NoWedge

/-!
# The choice of `next_admitted`

`next_admitted_least`: the scope has a next task exactly when it has an eligible one (open, unblocked,
accepted, with no open child), and the answer is the eligible task that comes first in the order of
the candidates: in progress, ladder depth, priority, due date, explicit order, id. The order tells any
two ids apart, so the rows may be loaded in any order.

Proof. The order is a lexicographic one over six keys (`compareCandidates_eq`), so it is transitive and
total, and only equal ids are equal in it. The head of the sorted candidates is then before every
other (`head_insertionSort`). Depth and blockedness look a row up by its id, which a permutation of
rows with distinct ids does not change.
-/

namespace Nanna.Tasks

open Nanna.Lib

/-! ## The order of the candidates -/

instance : Std.TransCmp compareDue where
  eq_swap {a b} := by
    cases a with
    | none => cases b <;> rfl
    | some x =>
      cases b with
      | none => rfl
      | some y => exact Std.OrientedOrd.eq_swap
  isLE_trans {a b c} hab hbc := by
    cases c with
    | none => cases a <;> rfl
    | some z =>
      cases b with
      | none => exact absurd hbc Bool.false_ne_true
      | some y =>
        cases a with
        | none => exact absurd hab Bool.false_ne_true
        | some x => exact Std.TransOrd.isLE_trans (α := String) hab hbc

theorem compareCandidates_eq (tasks : List Task) : compareCandidates tasks =
    compareLex (compareOn fun t : Task => if t.status = .inProgress then 0 else 1)
      (compareLex (compareOn fun t => depthOf tasks t.id - 1) (compareLex (compareOn (·.priority))
        (compareLex (fun a b => compareDue a.dueAt b.dueAt)
          (compareLex (compareOn (·.sortOrder)) (compareOn (·.id)))))) := rfl

instance : Std.TransCmp fun a b : Task => compareDue a.dueAt b.dueAt where
  eq_swap {a b} := @Std.OrientedCmp.eq_swap _ compareDue _ a.dueAt b.dueAt
  isLE_trans {a b c} := @Std.TransCmp.isLE_trans _ compareDue _ a.dueAt b.dueAt c.dueAt

instance (tasks : List Task) : Std.TransCmp (compareCandidates tasks) := by
  rw [compareCandidates_eq]
  infer_instance

/-- Only equal ids are equal in the order. -/
theorem id_eq_of_compareCandidates {tasks : List Task} {a b : Task}
    (h : compareCandidates tasks a b = .eq) : a.id = b.id := by
  unfold compareCandidates at h
  simp only [Ordering.then_eq_eq] at h
  exact Std.LawfulEqOrd.eq_of_compare h.2.2.2.2.2

/-! ## The first of the sorted -/

section Sorting

variable {α : Type} {cmp : α → α → Ordering} [Std.TransCmp cmp]

local instance totalOfCmp : Std.Total fun a b => cmp a b ≠ .gt where
  total a b := by
    by_cases h : cmp a b = .gt
    · exact .inr (by rw [Std.OrientedCmp.lt_of_gt h]; decide)
    · exact .inl h

local instance transOfCmp : IsTrans α fun a b => cmp a b ≠ .gt where
  trans _ _ _ hab hbc :=
    Ordering.isLE_iff_ne_gt.mp (Std.TransCmp.isLE_trans (Ordering.isLE_iff_ne_gt.mpr hab)
      (Ordering.isLE_iff_ne_gt.mpr hbc))

/-- The head of a sorted list is one of its elements, and none comes before it. -/
theorem head_insertionSort {l : List α} {a : α}
    (h : (l.insertionSort fun a b => cmp a b ≠ .gt).head? = some a) :
    a ∈ l ∧ ∀ b ∈ l, cmp a b ≠ .gt := by
  obtain ⟨rest, hsorted⟩ := List.head?_eq_some_iff.mp h
  have hperm : (l.insertionSort fun a b => cmp a b ≠ .gt).Perm l := List.perm_insertionSort _ _
  rw [hsorted] at hperm
  have hpairwise : (l.insertionSort fun a b => cmp a b ≠ .gt).Pairwise fun a b => cmp a b ≠ .gt :=
    List.pairwise_insertionSort _ _
  rw [hsorted] at hpairwise
  refine ⟨hperm.subset List.mem_cons_self, fun b hb => ?_⟩
  rcases List.mem_cons.mp (hperm.symm.subset hb) with rfl | hb
  · have hself : cmp b b = .eq := Std.ReflCmp.compare_self
    rw [hself]
    decide
  · exact (List.pairwise_cons.mp hpairwise).1 b hb

end Sorting

/-! ## Eligible tasks -/

/-- An open, unblocked, accepted task with no open child. -/
structure Eligible (rows : List Task) (accepts : Task → Bool) (row : Task) : Prop where
  mem : row ∈ rows
  isOpen : isOpen row = true
  unblocked : isBlocked row rows = false
  childless : ∀ u ∈ rows, Tasks.isOpen u = true → u.parentId ≠ some row.id
  accepted : accepts { row with blocked := false } = true

variable {s s' : Store} {sc : Scope} {accepts : Task → Bool} {rows rows' : List Task}

/-- The candidates are the eligible rows, as they are listed. -/
theorem mem_candidates_list {task : Task} : task ∈ candidates (list s sc false) accepts ↔
    ∃ row, Eligible (s.loadScope sc) accepts row ∧ task = { row with blocked := false } := by
  unfold candidates
  rw [List.mem_filter, mem_openList]
  constructor
  · rintro ⟨⟨row, hrow, hopen, rfl⟩, hkept⟩
    simp only [Bool.and_eq_true, Bool.not_eq_true', decide_eq_true_eq] at hkept
    obtain ⟨⟨hunblocked, hleaf⟩, haccepted⟩ := hkept
    rw [hunblocked] at haccepted ⊢
    refine ⟨row, ⟨hrow, hopen, hunblocked, fun u hu huopen hparent => hleaf ?_, haccepted⟩, rfl⟩
    exact List.mem_filterMap.mpr ⟨_, mem_openList.mpr ⟨u, hu, huopen, rfl⟩, hparent⟩
  · rintro ⟨row, h, rfl⟩
    refine ⟨⟨row, h.mem, h.isOpen, by rw [h.unblocked]⟩, ?_⟩
    have hleaf : row.id ∉ openParents (list s sc false) := fun hparent => by
      obtain ⟨u, hu, huopen, hp⟩ := mem_openParents_list hparent
      exact h.childless u hu huopen hp
    simp only [Bool.and_eq_true, Bool.not_eq_true', decide_eq_true_eq]
    exact ⟨⟨trivial, hleaf⟩, h.accepted⟩

/-- The answer is eligible, and before every other eligible task. -/
theorem nextAdmitted_first {task : Task} (h : nextAdmitted s sc accepts = some task) :
    ∃ row, Eligible (s.loadScope sc) accepts row ∧ task = { row with blocked := false } ∧
      ∀ other, Eligible (s.loadScope sc) accepts other → other.id ≠ row.id →
        compareCandidates (list s sc false) row other = .lt := by
  obtain ⟨hmem, hfirst⟩ := head_insertionSort h
  obtain ⟨row, hrow, rfl⟩ := mem_candidates_list.mp hmem
  refine ⟨row, hrow, rfl, fun other hother hne => ?_⟩
  have hle : compareCandidates (list s sc false) row { other with blocked := false } ≠ .gt :=
    hfirst _ (mem_candidates_list.mpr ⟨other, hother, rfl⟩)
  cases hcmp : compareCandidates (list s sc false) row other with
  | lt => rfl
  | eq => exact absurd (id_eq_of_compareCandidates hcmp).symm hne
  | gt => exact absurd hcmp hle

theorem nextAdmitted_isSome_iff : (nextAdmitted s sc accepts).isSome ↔
    ∃ row, Eligible (s.loadScope sc) accepts row := by
  constructor
  · intro h
    obtain ⟨task, htask⟩ := Option.isSome_iff_exists.mp h
    obtain ⟨row, hrow, -⟩ := nextAdmitted_first htask
    exact ⟨row, hrow⟩
  · rintro ⟨row, hrow⟩
    have hcand := mem_candidates_list.mpr ⟨row, hrow, rfl⟩
    have hsorted := (List.perm_insertionSort (fun a b =>
      compareCandidates (list s sc false) a b ≠ .gt) _).mem_iff.mpr hcand
    exact List.isSome_head?.mpr (List.ne_nil_of_mem hsorted)

/-! ## Rows in another order -/

theorem findTask_perm (hnd : (rows.map (·.id)).Nodup) (hperm : rows.Perm rows') (id : Int) :
    findTask rows id = findTask rows' id := by
  have hnd' : (rows'.map (·.id)).Nodup := (hperm.map _).nodup_iff.mp hnd
  cases h : findTask rows id with
  | some task =>
    obtain ⟨hmem, rfl⟩ := findTask_some h
    exact (findTask_of_mem hnd' (hperm.subset hmem)).symm
  | none =>
    cases h' : findTask rows' id with
    | none => rfl
    | some task =>
      obtain ⟨hmem, rfl⟩ := findTask_some h'
      rw [findTask_of_mem hnd (hperm.symm.subset hmem)] at h
      cases h

theorem isBlocked_perm (hnd : (rows.map (·.id)).Nodup) (hperm : rows.Perm rows') (task : Task) :
    isBlocked task rows = isBlocked task rows' := by
  unfold isBlocked
  simp only [findTask_perm hnd hperm]

theorem Eligible.perm {row : Task} (h : Eligible rows accepts row) (hnd : (rows.map (·.id)).Nodup)
    (hperm : rows.Perm rows') : Eligible rows' accepts row :=
  ⟨hperm.subset h.mem, h.isOpen, isBlocked_perm hnd hperm row ▸ h.unblocked,
    fun u hu => h.childless u (hperm.symm.subset hu), h.accepted⟩

theorem list_perm (hnd : ((s.loadScope sc).map (·.id)).Nodup)
    (hperm : (s.loadScope sc).Perm (s'.loadScope sc)) : (list s sc false).Perm (list s' sc false) := by
  have hflag : ∀ row, isBlocked row (s.loadScope sc) = isBlocked row (s'.loadScope sc) :=
    isBlocked_perm hnd hperm
  unfold list
  simp only [Bool.false_eq_true, if_false, hflag]
  exact (List.perm_insertionSort _ _).trans (((hperm.map _).filter _).trans
    (List.perm_insertionSort _ _).symm)

theorem list_ids_nodup (hnd : ((s.loadScope sc).map (·.id)).Nodup) :
    ((list s sc false).map (·.id)).Nodup := by
  have hperm : (list s sc false).Perm (((s.loadScope sc).map fun task =>
      { task with blocked := isBlocked task (s.loadScope sc) }).filter isOpen) :=
    List.perm_insertionSort _ _
  rw [(hperm.map _).nodup_iff]
  refine (List.filter_sublist.map _).nodup ?_
  rw [List.map_map]
  exact hnd

theorem depthOf_perm (hnd : (rows.map (·.id)).Nodup) (hperm : rows.Perm rows') (id : Int) :
    depthOf rows id = depthOf rows' id := by
  have hup : parentOf rows = parentOf rows' := funext fun id => by
    rw [parentOf, parentOf, findTask_perm hnd hperm]
  have hfrom : ∀ (fuel : Nat) (id : Int), depthOfFrom rows fuel id = depthOfFrom rows' fuel id := by
    intro fuel
    induction fuel with
    | zero => exact fun _ => rfl
    | succ fuel ih =>
      intro id
      rw [depthOfFrom, depthOfFrom, hup]
      cases parentOf rows' id with
      | none => rfl
      | some p => exact congrArg (· + 1) (ih p)
  rw [depthOf, depthOf, hperm.length_eq, hfrom]

/-- The rows of the scope may come in any order. -/
theorem nextAdmitted_perm (hnd : ((s.loadScope sc).map (·.id)).Nodup)
    (hperm : (s.loadScope sc).Perm (s'.loadScope sc)) (accepts : Task → Bool) :
    nextAdmitted s sc accepts = nextAdmitted s' sc accepts := by
  have hnd' : ((s'.loadScope sc).map (·.id)).Nodup := (hperm.map _).nodup_iff.mp hnd
  have horder : compareCandidates (list s sc false) = compareCandidates (list s' sc false) := by
    funext a b
    unfold compareCandidates
    rw [depthOf_perm (list_ids_nodup hnd) (list_perm hnd hperm),
      depthOf_perm (list_ids_nodup hnd) (list_perm hnd hperm)]
  cases h : nextAdmitted s sc accepts with
  | none =>
    cases h' : nextAdmitted s' sc accepts with
    | none => rfl
    | some task =>
      obtain ⟨row, hrow, -⟩ := nextAdmitted_first h'
      have hsome := nextAdmitted_isSome_iff.mpr ⟨row, hrow.perm hnd' hperm.symm⟩
      rw [h] at hsome
      cases hsome
  | some task =>
    obtain ⟨row, hrow, rfl, hfirst⟩ := nextAdmitted_first h
    obtain ⟨task', h'⟩ := Option.isSome_iff_exists.mp
      (nextAdmitted_isSome_iff.mpr ⟨row, hrow.perm hnd hperm⟩)
    obtain ⟨row', hrow', rfl, hfirst'⟩ := nextAdmitted_first h'
    have hid : row.id = row'.id := by
      by_contra hne
      have hlt := hfirst row' (hrow'.perm hnd' hperm.symm) (Ne.symm hne)
      have hgt := hfirst' row (hrow.perm hnd hperm) hne
      have hswap : compareCandidates (list s sc false) row' row =
          (compareCandidates (list s sc false) row row').swap := Std.OrientedCmp.eq_swap
      rw [← horder, hswap, hlt] at hgt
      cases hgt
    obtain rfl := List.inj_on_of_nodup_map hnd hrow.mem (hperm.symm.subset hrow'.mem) hid
    rw [h']

/-- **Main result.** -/
theorem next_admitted_least (s : Store) (sc : Scope) (accepts : Task → Bool) :
    ((nextAdmitted s sc accepts).isSome ↔ ∃ row, Eligible (s.loadScope sc) accepts row) ∧
    (∀ task, nextAdmitted s sc accepts = some task →
      ∃ row, Eligible (s.loadScope sc) accepts row ∧ task = { row with blocked := false } ∧
        ∀ other, Eligible (s.loadScope sc) accepts other → other.id ≠ row.id →
          compareCandidates (list s sc false) row other = .lt) ∧
    (Std.TransCmp (compareCandidates (list s sc false)) ∧
      ∀ a b : Task, compareCandidates (list s sc false) a b = .eq → a.id = b.id) ∧
    (((s.loadScope sc).map (·.id)).Nodup → ∀ s', (s.loadScope sc).Perm (s'.loadScope sc) →
      nextAdmitted s' sc accepts = nextAdmitted s sc accepts) :=
  ⟨nextAdmitted_isSome_iff, fun _ => nextAdmitted_first, ⟨inferInstance, fun _ _ =>
    id_eq_of_compareCandidates⟩, fun hnd _ hperm => (nextAdmitted_perm hnd hperm accepts).symm⟩

end Nanna.Tasks
