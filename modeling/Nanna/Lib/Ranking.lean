import Mathlib.Data.List.Sort

/-!
# Ranking, filtering and taking the first few

Sorting by a total preorder commutes with a filter (`filter_insertionSort`), and sorting indexed
values by value and then by index is the stable sort of the values (`map_insertionSort_zipIdx`).
Taking the first `k` accepted values of the first `m` gives the first `k` accepted ones of all,
exactly when no accepted value with fewer than `k` accepted ones ahead of it lies beyond the first
`m` (`take_filter_take_eq_iff`). In a strictly sorted list what lies ahead of a value is what is
less (`filter_lt_getElem`), so the condition can be counted without the sorted list. Where no two values
are tied, sorting what a selection puts first is sorting all and taking (`eq_take_insertionSort`).
-/

namespace Nanna.Lib

variable {α β : Type}

/-! ## Sorting and filtering -/

section Sorting

variable {r : α → α → Prop} [DecidableRel r]

theorem filter_orderedInsert [IsTrans α r] {l : List α} (hl : l.Pairwise r) (a : α) (p : α → Bool) :
    (l.orderedInsert r a).filter p =
      if p a then (l.filter p).orderedInsert r a else l.filter p := by
  induction l with
  | nil => by_cases ha : p a <;> simp [ha]
  | cons b l ih =>
    have hhead := (List.pairwise_cons.mp hl).1
    have hrest := ih hl.of_cons
    by_cases hab : r a b
    · rw [List.orderedInsert_cons_of_le _ _ hab]
      by_cases ha : p a
      · rw [if_pos ha, List.filter_cons_of_pos ha]
        -- `a` comes before `b`, so before everything the filter keeps.
        have hfirst : ∀ c ∈ (b :: l).filter p, r a c := by
          intro c hc
          rcases List.mem_cons.mp (List.mem_of_mem_filter hc) with rfl | hc
          · exact hab
          · exact Trans.trans hab (hhead c hc)
        cases hfilter : (b :: l).filter p with
        | nil => rfl
        | cons c cs =>
          rw [hfilter] at hfirst
          rw [List.orderedInsert_cons_of_le _ _ (hfirst c List.mem_cons_self)]
      · rw [if_neg ha, List.filter_cons_of_neg ha]
    · rw [List.orderedInsert_of_not_le _ _ hab]
      by_cases hb : p b
      · rw [List.filter_cons_of_pos hb, List.filter_cons_of_pos hb, hrest]
        split
        · rw [List.orderedInsert_of_not_le _ _ hab]
        · rfl
      · rw [List.filter_cons_of_neg hb, List.filter_cons_of_neg hb, hrest]

theorem filter_insertionSort [Std.Total r] [IsTrans α r] (p : α → Bool) (l : List α) :
    (l.insertionSort r).filter p = (l.filter p).insertionSort r := by
  induction l with
  | nil => rfl
  | cons a l ih =>
    rw [List.insertionSort_cons, filter_orderedInsert (List.pairwise_insertionSort r l), ih]
    by_cases ha : p a
    · rw [if_pos ha, List.filter_cons_of_pos ha, List.insertionSort_cons]
    · rw [if_neg ha, List.filter_cons_of_neg ha]

/-- Where ties go to the lower index, the sort of the indexed values is the stable sort. -/
theorem map_insertionSort_zipIdx {q : α × Nat → α × Nat → Prop} [DecidableRel q]
    (hq : ∀ a b i j, i < j → (q (a, i) (b, j) ↔ r a b)) (l : List α) (n : Nat) :
    ((l.zipIdx n).insertionSort q).map (·.1) = l.insertionSort r := by
  have insert_map : ∀ (sorted : List (α × Nat)) (a : α) (i : Nat), (∀ x ∈ sorted, i < x.2) →
      (sorted.orderedInsert q (a, i)).map (·.1) = (sorted.map (·.1)).orderedInsert r a := by
    intro sorted a i hlater
    induction sorted with
    | nil => rfl
    | cons x sorted ih =>
      have hx : q (a, i) x ↔ r a x.1 := hq a x.1 i x.2 (hlater x List.mem_cons_self)
      have hrest := ih fun y hy => hlater y (List.mem_cons_of_mem _ hy)
      by_cases hax : r a x.1
      · rw [List.orderedInsert_cons_of_le _ _ (hx.mpr hax), List.map_cons (f := Prod.fst) (l := sorted),
          List.orderedInsert_cons_of_le _ _ hax]
        rfl
      · rw [List.orderedInsert_of_not_le _ _ (mt hx.mp hax), List.map_cons, hrest, List.map_cons,
          List.orderedInsert_of_not_le _ _ hax]
  induction l generalizing n with
  | nil => rfl
  | cons a l ih =>
    rw [List.zipIdx_cons, List.insertionSort_cons, List.insertionSort_cons, insert_map, ih]
    intro x hx
    exact (List.mem_zipIdx ((List.mem_insertionSort q).mp hx)).1

/-- Splitting off what ranks no later than the rest, and sorting it, is sorting all and taking as many. -/
theorem eq_take_insertionSort [Std.Total r] [IsTrans α r] {sorted front back l : List α}
    (hsorted : sorted.Pairwise r) (hperm : sorted.Perm front) (hsplit : (front ++ back).Perm l)
    (hahead : ∀ a ∈ front, ∀ b ∈ back, r a b) (hanti : ∀ a ∈ l, ∀ b ∈ l, r a b → r b a → a = b) :
    sorted = (l.insertionSort r).take front.length := by
  have hall : (sorted ++ back.insertionSort r).Perm l :=
    (hperm.append (List.perm_insertionSort r back)).trans hsplit
  have hordered : (sorted ++ back.insertionSort r).Pairwise r := by
    refine List.pairwise_append.mpr ⟨hsorted, List.pairwise_insertionSort r back, fun a ha b hb => ?_⟩
    exact hahead a (hperm.subset ha) b ((List.mem_insertionSort r).mp hb)
  have heq : l.insertionSort r = sorted ++ back.insertionSort r := by
    refine List.Perm.eq_of_pairwise (fun a b ha hb hab hba => ?_) (List.pairwise_insertionSort r l) hordered
      ((List.perm_insertionSort r l).trans hall.symm)
    exact hanti a ((List.mem_insertionSort r).mp ha) b (hall.subset hb) hab hba
  rw [heq, List.take_left' hperm.length_eq]

/-- A selection: what it puts before the index ranks no later than what it puts behind. The order on either side
is open. -/
structure Selection (r : α → α → Prop) where
  select : List α → Nat → List α
  perm {l : List α} {index : Nat} : index < l.length → (select l index).Perm l
  ahead {l : List α} {index : Nat} : index < l.length →
    ∀ a ∈ (select l index).take index, ∀ b ∈ (select l index).drop index, r a b

/-- A sort is a selection at every index. -/
def Selection.ofSort [Std.Total r] [IsTrans α r] : Selection r where
  select l _ := l.insertionSort r
  perm := fun {l _} _ => List.perm_insertionSort r l
  ahead := by
    intro l index _ a ha b hb
    have hsorted := List.pairwise_insertionSort r l
    rw [← List.take_append_drop index (l.insertionSort r)] at hsorted
    exact (List.pairwise_append.mp hsorted).2.2 a ha b hb

end Sorting

/-! ## Taking from a filtered list -/

/-- The accepted values of the first `m` suffice, exactly when none that is needed lies beyond. -/
theorem take_filter_take_eq_iff (p : α → Bool) (l : List α) (m k : Nat) :
    ((l.take m).filter p).take k = (l.filter p).take k ↔
      ∀ i (h : i < l.length), p l[i] → ((l.take i).filter p).length < k → i < m := by
  induction l generalizing m k with
  | nil => simp
  | cons a l ih =>
    have hsucc : (∀ i (h : i < (a :: l).length), p (a :: l)[i] →
          (((a :: l).take i).filter p).length < k → i < m) ↔
        (p a → 0 < k → 0 < m) ∧ ∀ i (h : i < l.length), p l[i] →
          ((a :: l.take i).filter p).length < k → i + 1 < m := by
      refine ⟨fun h => ⟨fun ha hk => h 0 (Nat.succ_pos _) ha hk, fun i hi hp hlt =>
        h (i + 1) (Nat.succ_lt_succ hi) hp hlt⟩, fun ⟨hzero, hnext⟩ i hi hp hlt => ?_⟩
      cases i with
      | zero => exact hzero hp hlt
      | succ i => exact hnext i (Nat.lt_of_succ_lt_succ hi) hp hlt
    rw [hsucc]
    cases m with
    | zero =>
      by_cases ha : p a
      · cases k with
        | zero => simp
        | succ k => simp [ha]
      · have hrest := ih 0 k
        simp only [List.take_zero, List.filter_nil, List.take_nil, Nat.not_lt_zero] at hrest
        simp [ha, hrest]
    | succ m =>
      by_cases ha : p a
      · cases k with
        | zero => simp
        | succ k => simp [ha, ih m k]
      · simp [ha, ih m k]

/-- In a strictly sorted list, what is less than a value is what lies ahead of it. -/
theorem filter_lt_getElem {lt : α → α → Prop} [DecidableRel lt] (hasymm : ∀ a b, lt a b → ¬lt b a)
    {l : List α} (hl : l.Pairwise lt) (i : Nat) (hi : i < l.length) :
    l.filter (fun a => lt a l[i]) = l.take i := by
  induction l generalizing i with
  | nil => exact absurd hi (Nat.not_lt_zero i)
  | cons a l ih =>
    have hhead := (List.pairwise_cons.mp hl).1
    cases i with
    | zero =>
      rw [List.take_zero, List.filter_eq_nil_iff]
      intro b hb
      rw [decide_eq_true_eq]
      rcases List.mem_cons.mp hb with rfl | hb
      · exact fun hself => hasymm _ _ hself hself
      · exact hasymm _ _ (hhead b hb)
    | succ i =>
      have hi : i < l.length := Nat.lt_of_succ_lt_succ hi
      have ha : lt a l[i] := hhead _ (List.getElem_mem hi)
      rw [List.getElem_cons_succ, List.filter_cons_of_pos (by simpa using ha), ih hl.of_cons i hi,
        List.take_succ_cons]

end Nanna.Lib
