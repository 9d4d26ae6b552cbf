import Mathlib.Data.List.Basic

/-!
# Runs of equal elements

`runs l` is the list of the maximal runs of `l`, each with its length. It expands to `l`
(`expandRuns_runs`), and no run is empty (`pos_of_mem_runs`).
-/

namespace Nanna.Lib

variable {α : Type*}

def expandRuns (rs : List (α × Nat)) : List α := rs.flatMap fun r => List.replicate r.2 r.1

variable [DecidableEq α]

def runs : List α → List (α × Nat)
  | [] => []
  | a :: l =>
    match runs l with
    | [] => [(a, 1)]
    | (b, n) :: rest => if a = b then (a, n + 1) :: rest else (a, 1) :: (b, n) :: rest

variable {l : List α} {r : α × Nat}

/-- The first run grows, or a new one starts. -/
theorem runs_cons (a : α) (l : List α) : (∃ n rest, runs l = (a, n) :: rest ∧ runs (a :: l) = (a, n + 1) :: rest) ∨
    runs (a :: l) = (a, 1) :: runs l := by
  rw [runs]
  cases runs l with
  | nil => exact .inr rfl
  | cons r rest =>
    obtain ⟨b, n⟩ := r
    by_cases h : a = b
    · subst h
      exact .inl ⟨n, rest, rfl, if_pos rfl⟩
    · exact .inr (if_neg h)

theorem expandRuns_runs (l : List α) : expandRuns (runs l) = l := by
  induction l with
  | nil => rfl
  | cons a l ih =>
    rcases runs_cons a l with ⟨n, rest, hruns, hcons⟩ | hcons
    · rw [hruns] at ih
      rw [hcons, expandRuns, List.flatMap_cons, List.replicate_succ, List.cons_append]
      exact congrArg (a :: ·) ih
    · rw [hcons, expandRuns, List.flatMap_cons]
      exact congrArg (a :: ·) ih

theorem pos_of_mem_runs (h : r ∈ runs l) : 0 < r.2 := by
  induction l with
  | nil => cases h
  | cons a l ih =>
    rcases runs_cons a l with ⟨n, rest, hruns, hcons⟩ | hcons
    · rw [hcons] at h
      rcases List.mem_cons.mp h with rfl | h
      · exact Nat.succ_pos n
      · exact ih (hruns ▸ List.mem_cons_of_mem _ h)
    · rw [hcons] at h
      rcases List.mem_cons.mp h with rfl | h
      · exact Nat.one_pos
      · exact ih h

theorem mem_of_mem_runs (h : r ∈ runs l) : r.1 ∈ l := by
  rw [← expandRuns_runs l]
  refine List.mem_flatMap.mpr ⟨r, h, List.mem_replicate.mpr ⟨?_, rfl⟩⟩
  exact Nat.pos_iff_ne_zero.mp (pos_of_mem_runs h)

end Nanna.Lib
