import Nanna.Memory.ScopedSearch

/-!
# The best of a ranking, by selection

`selectTopK_eq_sort`: whatever order a selection leaves on either side of the cut, `rank_top_k` keeps the first of the
sort by score, descending, and index, ascending. No two entries are tied, since their indices differ.
-/

namespace Nanna.Memory.Store

open Nanna.Lib

variable {F : Type} [OrderedScalar F]

/-- What the sorts and the selection of `rank_top_k` compare by. -/
def RankedBy (a b : Nat × F) : Prop := rankOrder a b ≠ .gt

instance : DecidableRel (RankedBy (F := F)) := fun _ _ => inferInstanceAs (Decidable (_ ≠ _))

/-- `rank_top_k`: `select_nth_unstable_by`, `truncate` and `sort_by`. -/
def selectTopK (selection : Selection (RankedBy (F := F))) (ranked : List (Nat × F)) (topK : Nat) :
    List (Nat × F) :=
  if topK = 0 then []
  else
    let kept := if topK < ranked.length then (selection.select ranked topK).take topK else ranked
    kept.insertionSort RankedBy

/-! ## The order in its own terms -/

/-- `x` is below `y`; what is not finite is minus infinity. -/
def Below (x y : F) : Prop := Scalar.isFinite y = true ∧ (Scalar.isFinite x = true → x < y)

/-- By score, descending, and then by index, ascending. -/
def Ranks (a b : Nat × F) : Prop := Below b.2 a.2 ∨ ¬Below a.2 b.2 ∧ a.1 ≤ b.1

theorem below_iff (x y : F) : Below x y ↔ compareScores x y = .gt := by
  unfold Below compareScores sanitize
  by_cases hx : Scalar.isFinite x = true
  · by_cases hy : Scalar.isFinite y = true
    · by_cases hlt : x < y
      · have hyx : ¬y < x := OrderedScalar.lt_asymm hx hy hlt
        simp [hx, hy, hlt, hyx]
      · by_cases hyx : y < x <;> simp [hx, hy, hlt, hyx]
    · simp [hx, hy]
  · by_cases hy : Scalar.isFinite y = true <;> simp [hx, hy]

theorem rankedBy_iff (a b : Nat × F) : RankedBy a b ↔ Ranks a b := by
  unfold RankedBy Ranks rankOrder
  rw [below_iff, below_iff, compareScores_swap b.2]
  by_cases hlt : compareScores a.2 b.2 = .lt
  · simp [hlt]
  · by_cases hgt : compareScores a.2 b.2 = .gt
    · simp [hgt]
    · have heq : compareScores a.2 b.2 = .eq := by
        generalize compareScores a.2 b.2 = o at hlt hgt
        cases o <;> simp_all
      simp [heq, Nat.compare_ne_gt]

instance : DecidableRel (Ranks (F := F)) := fun a b => decidable_of_iff _ (rankedBy_iff a b)

instance : Std.Total (RankedBy (F := F)) where
  total a b := by
    have hswap : rankOrder b a = (rankOrder a b).swap := Std.OrientedCmp.eq_swap
    unfold RankedBy
    rw [hswap]
    cases rankOrder a b <;> simp

instance : IsTrans (Nat × F) RankedBy where
  trans a b c hab hbc := by
    apply Ordering.isLE_iff_ne_gt.mp
    exact Std.TransCmp.isLE_trans (Ordering.isLE_iff_ne_gt.mpr hab) (Ordering.isLE_iff_ne_gt.mpr hbc)

theorem insertionSort_ranks (ranked : List (Nat × F)) : ranked.insertionSort Ranks = ranked.insertionSort RankedBy := by
  have hrel : Ranks (F := F) = RankedBy := by
    funext a b
    exact propext (rankedBy_iff a b).symm
  congr!

theorem below_asymm {x y : F} (h : Below x y) : ¬Below y x := by
  intro h'
  rw [below_iff] at h h'
  rw [compareScores_swap, h'] at h
  cases h

/-- A tie is between entries of one index. -/
theorem index_eq_of_ranks {a b : Nat × F} (hab : Ranks a b) (hba : Ranks b a) : a.1 = b.1 := by
  rcases hab with habove | ⟨hnot, hle⟩
  · rcases hba with habove' | ⟨hnot', -⟩
    · exact absurd habove' (below_asymm habove)
    · exact absurd habove hnot'
  · rcases hba with habove' | ⟨-, hle'⟩
    · exact absurd habove' hnot
    · omega

/-! ## The first of the sort -/

/-- What a search keeps is what the selection leaves. -/
theorem selectTopK_eq_rankTopK (selection : Selection (RankedBy (F := F))) {ranked : List (Nat × F)}
    (hnodup : (ranked.map Prod.fst).Nodup) (topK : Nat) :
    selectTopK selection ranked topK = rankTopK ranked topK := by
  have hanti : ∀ a ∈ ranked, ∀ b ∈ ranked, RankedBy a b → RankedBy b a → a = b := by
    intro a ha b hb hab hba
    rw [rankedBy_iff] at hab hba
    exact List.inj_on_of_nodup_map hnodup ha hb (index_eq_of_ranks hab hba)
  have hsorted (l : List (Nat × F)) := List.pairwise_insertionSort RankedBy l
  show _ = (ranked.insertionSort RankedBy).take topK
  unfold selectTopK
  by_cases hzero : topK = 0
  · rw [if_pos hzero, hzero, List.take_zero]
  · rw [if_neg hzero]
    by_cases hlt : topK < ranked.length
    · have hperm := selection.perm hlt
      have hlength : ((selection.select ranked topK).take topK).length = topK := by
        rw [List.length_take, hperm.length_eq]
        omega
      have hsplit : ((selection.select ranked topK).take topK ++ (selection.select ranked topK).drop topK).Perm
          ranked := by
        rwa [List.take_append_drop]
      have hkept := eq_take_insertionSort (hsorted _) (List.perm_insertionSort RankedBy _) hsplit
        (selection.ahead hlt) hanti
      rw [hlength] at hkept
      rwa [if_pos hlt]
    · -- nothing is cut off
      rw [if_neg hlt, List.take_of_length_le]
      rw [List.length_insertionSort]
      omega

/-- **Main result.** -/
theorem selectTopK_eq_sort (selection : Selection (RankedBy (F := F))) (scores : List F) (k : Nat) :
    selectTopK selection (scores.zipIdx.map Prod.swap) k =
      ((scores.zipIdx.map Prod.swap).insertionSort Ranks).take k := by
  rw [insertionSort_ranks]
  apply selectTopK_eq_rankTopK
  have hindices : (scores.zipIdx.map Prod.swap).map Prod.fst = scores.zipIdx.map Prod.snd := by
    rw [List.map_map]
    rfl
  rw [hindices, List.zipIdx_map_snd]
  exact List.nodup_range'

end Nanna.Memory.Store
