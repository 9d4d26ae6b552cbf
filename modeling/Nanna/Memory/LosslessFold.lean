import Mathlib.Algebra.Order.Ring.Unbundled.Rat
import Nanna.Memory.Envelope

/-!
# Near-duplicate folding loses nothing

`folding_lossless`: the survivors of `fold_near_duplicates` share out the memories it was given, each
memory in the group of one survivor of its scope, whose text holds the memory's trimmed text and whose
generation and importance are not below the memory's. A survivor's access count is the sum over its
group as `u32` adds, so it is the sum itself only below `2 ^ 32` (`access_counts_wrap`).

Proof. A fold is kept to its first match and to the two texts it joins, so what a survivor holds of its
group (`Absorbed`) is extended by one memory at a time (`Absorbed.absorb`), however long the chain of
folds into it; `SharesOut` is the invariant of the loop.
-/

namespace Nanna.Memory

open Nanna.Lib

/-- `<` on `f32`, infinities included: a strict weak order on what is a number. -/
class NumberScalar (F : Type) extends Scalar F where
  lt_asymm {a b : F} : a < b → ¬b < a
  lt_or_lt {a b c : F} : isNan c = false → a < b → a < c ∨ c < b

instance : NumberScalar ℚ where
  lt_asymm h := @lt_asymm ℚ _ _ _ h
  lt_or_lt {a _ c} _ h := (lt_or_ge a c).imp_right fun hca => @lt_of_le_of_lt ℚ _ _ _ _ hca h

variable {F : Type} [NumberScalar F]

/-! ## Importance -/

/-- `a` is a number that is not below the number `b`. -/
def AtLeast (a b : F) : Prop := isNan b = false → isNan a = false ∧ ¬a < b

theorem AtLeast.refl (a : F) : AtLeast a a :=
  fun h => ⟨h, fun hlt => NumberScalar.lt_asymm hlt hlt⟩

theorem atLeast_fmax_right (a b : F) : AtLeast (fmax a b) b := by
  intro hb
  unfold fmax
  split_ifs with ha hnan hlt
  · exact AtLeast.refl b hb
  · rw [hb] at hnan
    cases hnan
  · exact AtLeast.refl b hb
  · exact ⟨Bool.eq_false_iff.mpr ha, hlt⟩

theorem AtLeast.fmax {a x : F} (h : AtLeast a x) (b : F) : AtLeast (fmax a b) x := by
  intro hx
  obtain ⟨ha, hax⟩ := h hx
  unfold Nanna.Memory.fmax
  rw [ha, if_neg Bool.false_ne_true]
  split_ifs with hb hlt
  · exact ⟨ha, hax⟩
  · refine ⟨Bool.eq_false_iff.mpr hb, fun hbx => ?_⟩
    -- a < b < x
    rcases NumberScalar.lt_or_lt hx hlt with h | h
    · exact hax h
    · exact NumberScalar.lt_asymm hbx h
  · exact ⟨ha, hax⟩

/-! ## Groups -/

/-- What a survivor holds of the memories it was made of. -/
structure Absorbed (survivor : MemoryEntry F) (group : List (MemoryEntry F)) : Prop where
  texts : ∀ memory ∈ group, memory.content.trim <:+: survivor.content
  scope : ∀ memory ∈ group, memory.workspaceId = survivor.workspaceId
  generation : ∀ memory ∈ group, memory.fsrs.generation ≤ survivor.fsrs.generation
  importance : ∀ memory ∈ group, AtLeast survivor.fsrs.importance memory.fsrs.importance
  accessCount : (∀ memory ∈ group, memory.fsrs.accessCount < 2 ^ 32) →
    survivor.fsrs.accessCount = (group.map (·.fsrs.accessCount)).sum % 2 ^ 32

variable {survivor candidate : MemoryEntry F} {group : List (MemoryEntry F)}

theorem Absorbed.single (memory : MemoryEntry F) : Absorbed memory [memory] := by
  refine ⟨fun other hother => ?_, fun other hother => ?_, fun other hother => ?_, fun other hother => ?_,
    fun hbound => ?_⟩
  · rw [List.mem_singleton.mp hother]
    exact Text.trim_infix _
  · rw [List.mem_singleton.mp hother]
  · rw [List.mem_singleton.mp hother]
  · rw [List.mem_singleton.mp hother]
    exact .refl _
  · rw [List.map_singleton, List.sum_singleton]
    exact (Nat.mod_eq_of_lt (hbound memory List.mem_cons_self)).symm

theorem scope_of_duplicateOf (h : duplicateOf candidate survivor = true) :
    candidate.workspaceId = survivor.workspaceId := by
  simp only [duplicateOf, Bool.and_eq_true, decide_eq_true_eq] at h
  exact h.1.1.2.symm

/-- The survivor takes in one more memory. -/
theorem Absorbed.absorb (h : Absorbed survivor group) (newEmbedding : Option (List F))
    (hdup : duplicateOf candidate survivor = true)
    (hkept : candidate.content.trim <:+: mergeMemoryContent survivor.content candidate.content.trim) :
    Absorbed (absorbFold candidate (mergeMemoryContent survivor.content candidate.content.trim)
      newEmbedding survivor) (group ++ [candidate]) := by
  refine ⟨fun memory hmemory => ?_, fun memory hmemory => ?_, fun memory hmemory => ?_,
    fun memory hmemory => ?_, fun hbound => ?_⟩
  · rcases List.mem_append.mp hmemory with hmemory | hmemory
    · exact infix_merge (h.texts memory hmemory)
    · rw [List.mem_singleton.mp hmemory]
      exact hkept
  · rcases List.mem_append.mp hmemory with hmemory | hmemory
    · exact h.scope memory hmemory
    · rw [List.mem_singleton.mp hmemory]
      exact (scope_of_duplicateOf hdup : candidate.workspaceId = survivor.workspaceId)
  · rcases List.mem_append.mp hmemory with hmemory | hmemory
    · exact (h.generation memory hmemory).trans (le_max_left _ _)
    · rw [List.mem_singleton.mp hmemory]
      exact le_max_right _ _
  · rcases List.mem_append.mp hmemory with hmemory | hmemory
    · exact (h.importance memory hmemory).fmax _
    · rw [List.mem_singleton.mp hmemory]
      exact atLeast_fmax_right _ _
  · have hsum := h.accessCount fun memory hmemory => hbound memory (List.mem_append_left _ hmemory)
    have hcount : (absorbFold candidate (mergeMemoryContent survivor.content candidate.content.trim)
        newEmbedding survivor).fsrs.accessCount =
        (survivor.fsrs.accessCount + candidate.fsrs.accessCount) % 2 ^ 32 := rfl
    rw [List.map_append, List.sum_append, List.map_singleton, List.sum_singleton, hcount, hsum]
    exact Nat.mod_add_mod _ _ _

/-! ## The loop -/

/-- The survivors, each with its group, account for the memories examined so far. -/
structure SharesOut (examined : List (MemoryEntry F)) (budget : Nat) (fold : Fold F) : Prop where
  account : ∃ account : List (MemoryEntry F × List (MemoryEntry F)),
    account.map (·.1) = fold.survivors ∧ (account.flatMap (·.2)).Perm examined ∧
      ∀ entry ∈ account, Absorbed entry.1 entry.2
  count : fold.survivors.length + fold.foldedSources.length = examined.length
  limit : fold.removalBudgetCount = budget
  folded : fold.foldedSources.length ≤ budget

variable {examined : List (MemoryEntry F)} {budget : Nat} {fold : Fold F}

theorem SharesOut.keep (h : SharesOut examined budget fold) (candidate : MemoryEntry F) :
    SharesOut (examined ++ [candidate]) budget (fold.keep candidate) := by
  obtain ⟨account, hsurvivors, hperm, habsorbed⟩ := h.account
  refine ⟨⟨account ++ [(candidate, [candidate])], ?_, ?_, fun entry hentry => ?_⟩, ?_, h.limit, h.folded⟩
  · rw [List.map_append, hsurvivors]
    rfl
  · rw [List.flatMap_append]
    exact hperm.append_right _
  · rcases List.mem_append.mp hentry with hentry | hentry
    · exact habsorbed entry hentry
    · rw [List.mem_singleton.mp hentry]
      exact .single candidate
  · have hcount := h.count
    simp only [Fold.keep, List.length_append, List.length_singleton]
    omega

theorem SharesOut.commit (h : SharesOut examined budget fold) (newEmbedding : Option (List F))
    (hroom : fold.foldedSources.length < fold.removalBudgetCount)
    (hfind : findDuplicateTarget fold.survivors candidate = some survivor)
    (hkept : candidate.content.trim <:+: mergeMemoryContent survivor.content candidate.content.trim) :
    SharesOut (examined ++ [candidate]) budget (fold.commit candidate survivor
      (mergeMemoryContent survivor.content candidate.content.trim) newEmbedding) := by
  obtain ⟨account, hsurvivors, hperm, habsorbed⟩ := h.account
  have hdup : duplicateOf candidate survivor = true := List.find?_some hfind
  obtain ⟨l₁, l₂, hsplit, heq⟩ := modifyFirst_eq (absorbFold candidate
    (mergeMemoryContent survivor.content candidate.content.trim) newEmbedding)
    (show fold.survivors.find? (duplicateOf candidate) = some survivor from hfind)
  rw [hsplit, List.map_eq_append_iff] at hsurvivors
  obtain ⟨before, rest, rfl, hbefore, hrest⟩ := hsurvivors
  obtain ⟨⟨survivor', group⟩, after, rfl, hsame, hafter⟩ := List.map_eq_cons_iff.mp hrest
  obtain rfl : survivor' = survivor := hsame
  have hgroup : Absorbed survivor' group :=
    habsorbed _ (List.mem_append_right _ List.mem_cons_self)
  refine ⟨⟨before ++ (absorbFold candidate (mergeMemoryContent survivor'.content candidate.content.trim)
    newEmbedding survivor', group ++ [candidate]) :: after, ?_, ?_, fun entry hentry => ?_⟩, ?_, h.limit,
    ?_⟩
  · rw [List.map_append, List.map_cons, hbefore, hafter]
    exact heq.symm
  · have hmove : (before.flatMap (·.2) ++ (group ++ [candidate] ++ after.flatMap (·.2))).Perm
        (before.flatMap (·.2) ++ (group ++ after.flatMap (·.2)) ++ [candidate]) := by
      simp only [List.append_assoc]
      exact (List.perm_append_comm.append_left group).append_left _
    rw [List.flatMap_append, List.flatMap_cons] at hperm ⊢
    exact hmove.trans (hperm.append_right _)
  · rcases List.mem_append.mp hentry with hentry | hentry
    · exact habsorbed entry (List.mem_append_left _ hentry)
    · rcases List.mem_cons.mp hentry with rfl | hentry
      · exact hgroup.absorb newEmbedding hdup hkept
      · exact habsorbed entry (List.mem_append_right _ (List.mem_cons_of_mem _ hentry))
  · have hcount := h.count
    have hlength : (fold.commit candidate survivor' (mergeMemoryContent survivor'.content
        candidate.content.trim) newEmbedding).survivors.length = fold.survivors.length := by
      rw [hsplit]
      exact (congrArg List.length heq).trans (by simp)
    rw [hlength, Fold.commit, List.length_append, List.length_append, List.length_singleton,
      List.length_singleton]
    omega
  · rw [Fold.commit, List.length_append, List.length_singleton, ← h.limit]
    exact hroom

/-- A candidate is kept, or folded into the first survivor it duplicates, whose text then holds it. -/
theorem foldCandidate_cases (embed : Nat → Text → EmbedReply F) (fold : Fold F) (c : Cycle F)
    (candidate : MemoryEntry F) :
    (foldCandidate embed (fold, c) candidate).1 = fold.keep candidate ∨
      ∃ survivor newEmbedding, fold.foldedSources.length < fold.removalBudgetCount ∧
        findDuplicateTarget fold.survivors candidate = some survivor ∧
        candidate.content.trim <:+: mergeMemoryContent survivor.content candidate.content.trim ∧
        (foldCandidate embed (fold, c) candidate).1 = fold.commit candidate survivor
          (mergeMemoryContent survivor.content candidate.content.trim) newEmbedding := by
  unfold foldCandidate
  dsimp only
  by_cases hroom : fold.foldedSources.length < fold.removalBudgetCount
  · rw [if_pos hroom]
    cases hfind : findDuplicateTarget fold.survivors candidate with
    | none => exact .inl rfl
    | some survivor =>
      dsimp only
      by_cases hkept : (mergeMemoryContent survivor.content candidate.content.trim).contains
          candidate.content.trim = true
      · rw [hkept, if_neg (by simp)]
        cases hcommit : commitDuplicateFold embed c survivor candidate
            (mergeMemoryContent survivor.content candidate.content.trim) with
        | mk outcome c' =>
          cases outcome with
          | error e => exact .inl rfl
          | ok outcome =>
            cases outcome with
            | stale => exact .inl rfl
            | committed newEmbedding =>
              exact .inr ⟨survivor, newEmbedding, hroom, rfl, Text.contains_iff.mp hkept, rfl⟩
      · rw [Bool.not_eq_true] at hkept
        rw [hkept, if_pos (by simp)]
        exact .inl rfl
  · rw [if_neg hroom]
    exact .inl rfl

theorem sharesOut_foldl (embed : Nat → Text → EmbedReply F) : ∀ (pending examined : List (MemoryEntry F))
    (fold : Fold F) (c : Cycle F), SharesOut examined budget fold →
    SharesOut (examined ++ pending) budget (pending.foldl (foldCandidate embed) (fold, c)).1
  | [], examined, _, _, h => by rwa [List.append_nil]
  | candidate :: pending, examined, fold, c, h => by
    have hstep : SharesOut (examined ++ [candidate]) budget
        (foldCandidate embed (fold, c) candidate).1 := by
      rcases foldCandidate_cases embed fold c candidate with
        heq | ⟨survivor, newEmbedding, hroom, hfind, hkept, heq⟩
      · rw [heq]
        exact h.keep candidate
      · rw [heq]
        exact h.commit newEmbedding hroom hfind hkept
    have hrest := sharesOut_foldl embed pending _ _ (foldCandidate embed (fold, c) candidate).2 hstep
    rwa [List.append_assoc] at hrest

/-- **Main result.** -/
theorem folding_lossless (env : Oracles F) (c : Cycle F) (memories : List (MemoryEntry F))
    (removalBudgetCount : Nat) :
    let (survivors, folded, _) := foldNearDuplicates env c memories removalBudgetCount
    survivors.length + folded = memories.length ∧ folded ≤ removalBudgetCount ∧
      ∃ account : List (MemoryEntry F × List (MemoryEntry F)), account.map (·.1) = survivors ∧
        (account.flatMap (·.2)).Perm memories ∧ ∀ entry ∈ account, Absorbed entry.1 entry.2 := by
  have hnone : ∃ account : List (MemoryEntry F × List (MemoryEntry F)), account.map (·.1) = memories ∧
      (account.flatMap (·.2)).Perm memories ∧ ∀ entry ∈ account, Absorbed entry.1 entry.2 := by
    refine ⟨memories.map fun memory => (memory, [memory]), ?_, ?_, fun entry hentry => ?_⟩
    · rw [List.map_map]
      exact List.map_id _
    · simp [List.flatMap_map]
    · obtain ⟨memory, -, rfl⟩ := List.mem_map.mp hentry
      exact .single memory
  unfold foldNearDuplicates
  split_ifs with hfew
  · exact ⟨rfl, Nat.zero_le _, hnone⟩
  · cases env.embed with
    | none => exact ⟨rfl, Nat.zero_le _, hnone⟩
    | some embed =>
      have hranked : (rankByWeight env memories).Perm memories := List.perm_insertionSort _ _
      have hstart : SharesOut [] removalBudgetCount
          (Fold.start (rankByWeight env memories) removalBudgetCount) :=
        ⟨⟨[], rfl, List.Perm.refl _, nofun⟩, rfl, rfl, Nat.zero_le _⟩
      have hloop := sharesOut_foldl embed (rankByWeight env memories) [] _ c hstart
      rw [List.nil_append] at hloop
      obtain ⟨account, hsurvivors, hperm, habsorbed⟩ := hloop.account
      have hcount := hloop.count
      have hfolded := hloop.folded
      rw [hranked.length_eq] at hcount
      dsimp only
      split_ifs with hempty
      · rw [List.isEmpty_iff.mp hempty] at hcount
        exact ⟨hcount, Nat.zero_le _, account, hsurvivors, hperm.trans hranked, habsorbed⟩
      · exact ⟨hcount, hfolded, account, hsurvivors, hperm.trans hranked, habsorbed⟩

/-- Two memories with one text; the second was accessed once, the first as often as a `u32` can say. -/
theorem access_counts_wrap :
    let memory (id : String) (accessCount : Nat) : MemoryEntry ℚ :=
      { sampleEntry id "dark mode".toList [1, 0] "m" none with
        fsrs := { FsrsState.new 0 with accessCount } }
    let memories := [memory "a" (2 ^ 32 - 1), memory "b" 1]
    let (survivors, folded, _) :=
      foldNearDuplicates flakyOracles (.start (sampleService memories) 1) memories 1
    folded = 1 ∧ survivors.map (·.fsrs.accessCount) = [0] ∧
      (memories.map (·.fsrs.accessCount)).sum = 2 ^ 32 := by
  decide +kernel

end Nanna.Memory
