import Mathlib.Algebra.Order.Field.Basic
import Mathlib.Data.List.Induction
import Mathlib.Tactic.Linarith
import Mathlib.Tactic.Ring
import Nanna.Lib.Dict

/-!
# Chunk hits collapsed to their memories

`chunk_hits_collapse`: a memory's entry holds the best score of its clearing hits, the first ordinal
that reached it and the number of the others; another order of the hits changes at most that ordinal,
and only where two clearing hits tie at the best score; the rank is monotone in both parts and stays
between the best score and a quarter of the way from it to one. `tied_hits_keep_order` is such a tie.

Proof. What `collapse_chunk_hits` holds under an id is a fold over the clearing hits of that id alone
(`find_collapse`), and one more hit extends what the entry says of the hits before it
(`Collapsed.snoc`). Two entries that say it of the same hits agree (`Collapsed.agree`).
-/

namespace Nanna.Memory

open Nanna.Lib

variable {F : Type}

/-! ## Collapsing -/

structure ChunkHit (F : Type) where
  best : F
  /-- Ordinal of the chunk that produced `best`. -/
  bestOrdinal : Int
  /-- How many other chunks of the memory also cleared the threshold. -/
  corroborating : Nat
deriving DecidableEq

section Collapse

variable [LT F] [DecidableLT F]

/-- The entry after one more clearing hit. -/
def ChunkHit.join (hit : ChunkHit F) (ordinal : Int) (similarity : F) : ChunkHit F :=
  { best := if hit.best < similarity then similarity else hit.best
    bestOrdinal := if hit.best < similarity then ordinal else hit.bestOrdinal
    corroborating := hit.corroborating + 1 }

/-- `entry(..).and_modify(..).or_insert(..)`. -/
def ChunkHit.enter (entry : Option (ChunkHit F)) (hit : Int × F) : ChunkHit F :=
  match entry with
  | some entry => entry.join hit.1 hit.2
  | none => ⟨hit.2, hit.1, 0⟩

/-- The body of the loop, for one `(memory_id, ordinal, similarity)`. -/
def collapseHit (minScore : F) (collapsed : Dict String (ChunkHit F)) (hit : String × Int × F) :
    Dict String (ChunkHit F) :=
  if hit.2.2 < minScore then collapsed
  else Dict.set collapsed hit.1 (ChunkHit.enter (Dict.find collapsed hit.1) hit.2)

/-- `collapse_chunk_hits`. -/
def collapseChunkHits (hits : List (String × Int × F)) (minScore : F) : Dict String (ChunkHit F) :=
  hits.foldl (collapseHit minScore) Table.empty

/-- The hits of a memory that clear the minimum, in order. -/
def clearing (minScore : F) (id : String) (hits : List (String × Int × F)) : List (Int × F) :=
  (hits.filter fun hit => hit.1 = id ∧ ¬hit.2.2 < minScore).map (·.2)

/-- An entry is made of the clearing hits of its memory alone. -/
theorem find_foldl_collapseHit (minScore : F) (id : String) : ∀ (hits : List (String × Int × F))
    (collapsed : Dict String (ChunkHit F)), Dict.find (hits.foldl (collapseHit minScore) collapsed) id =
      (clearing minScore id hits).foldl (fun entry hit => some (ChunkHit.enter entry hit))
        (Dict.find collapsed id) := by
  intro hits
  induction hits with
  | nil => exact fun _ => rfl
  | cons hit hits ih =>
    intro collapsed
    rw [List.foldl_cons, ih, collapseHit]
    by_cases hclear : hit.2.2 < minScore
    · have hskip : clearing minScore id (hit :: hits) = clearing minScore id hits := by
        rw [clearing, List.filter_cons_of_neg (by simp [hclear])]
        rfl
      rw [if_pos hclear, hskip]
    · rw [if_neg hclear, Dict.find_set]
      by_cases hid : hit.1 = id
      · have htake : clearing minScore id (hit :: hits) = hit.2 :: clearing minScore id hits := by
          rw [clearing, List.filter_cons_of_pos (by simp [hclear, hid])]
          rfl
        rw [if_pos hid, htake, List.foldl_cons, hid]
      · have hskip : clearing minScore id (hit :: hits) = clearing minScore id hits := by
          rw [clearing, List.filter_cons_of_neg (by simp [hid])]
          rfl
        rw [if_neg hid, hskip]

theorem find_collapse (hits : List (String × Int × F)) (minScore : F) (id : String) :
    Dict.find (collapseChunkHits hits minScore) id =
      (clearing minScore id hits).foldl (fun entry hit => some (ChunkHit.enter entry hit)) none :=
  find_foldl_collapseHit minScore id hits Table.empty

omit [LT F] [DecidableLT F] in
/-- The fold leaves an entry as soon as there is a hit. -/
theorem foldl_enter_eq_none {enter : Option (ChunkHit F) → Int × F → ChunkHit F}
    (hits : List (Int × F)) :
    hits.foldl (fun entry hit => some (enter entry hit)) none = none ↔ hits = [] := by
  constructor
  · intro h
    rcases List.eq_nil_or_concat hits with hnil | ⟨hits, hit, rfl⟩
    · exact hnil
    · rw [List.concat_eq_append, List.foldl_append] at h
      cases h
  · rintro rfl
    rfl

end Collapse

/-! ## What an entry says -/

section Order

variable [LinearOrder F]

/-- What an entry says of the clearing hits of its memory. -/
structure Collapsed (hits : List (Int × F)) (entry : ChunkHit F) : Prop where
  best_ge : ∀ hit ∈ hits, hit.2 ≤ entry.best
  /-- The hit that the entry names is the first to reach the best score. -/
  first : ∃ before after, hits = before ++ (entry.bestOrdinal, entry.best) :: after ∧
    ∀ hit ∈ before, hit.2 < entry.best
  count : hits.length = entry.corroborating + 1

variable {hits hits' : List (Int × F)} {entry entry' : ChunkHit F}

theorem Collapsed.attained (h : Collapsed hits entry) : (entry.bestOrdinal, entry.best) ∈ hits := by
  obtain ⟨before, after, rfl, -⟩ := h.first
  exact List.mem_append_right _ List.mem_cons_self

theorem Collapsed.single (hit : Int × F) : Collapsed [hit] (ChunkHit.enter none hit) := by
  refine ⟨fun other hother => ?_, ⟨[], [], rfl, nofun⟩, rfl⟩
  rw [List.mem_singleton.mp hother]
  exact le_refl _

theorem Collapsed.snoc (h : Collapsed hits entry) (hit : Int × F) :
    Collapsed (hits ++ [hit]) (ChunkHit.enter (some entry) hit) := by
  obtain ⟨before, after, hsplit, hbefore⟩ := h.first
  have hcount : (hits ++ [hit]).length = entry.corroborating + 1 + 1 := by
    rw [List.length_append, h.count, List.length_singleton]
  rw [ChunkHit.enter, ChunkHit.join]
  by_cases hlt : entry.best < hit.2
  · rw [if_pos hlt, if_pos hlt]
    refine ⟨fun other hother => ?_, ⟨hits, [], rfl, fun other hother => ?_⟩, hcount⟩
    · rcases List.mem_append.mp hother with hother | hother
      · exact (h.best_ge other hother).trans hlt.le
      · rw [List.mem_singleton.mp hother]
    · exact (h.best_ge other hother).trans_lt hlt
  · rw [if_neg hlt, if_neg hlt]
    refine ⟨fun other hother => ?_, ⟨before, after ++ [hit], ?_, hbefore⟩, hcount⟩
    · rcases List.mem_append.mp hother with hother | hother
      · exact h.best_ge other hother
      · rw [List.mem_singleton.mp hother]
        exact not_lt.mp hlt
    · rw [hsplit, List.append_assoc, List.cons_append]

/-- The fold makes an entry that is right about the hits it has seen. -/
theorem collapsed_foldl
    (h : hits.foldl (fun entry hit => some (ChunkHit.enter entry hit)) none = some entry) :
    Collapsed hits entry := by
  induction hits using List.reverseRecOn generalizing entry with
  | nil => cases h
  | append_singleton hits hit ih =>
    rw [List.foldl_append, List.foldl_cons, List.foldl_nil] at h
    obtain rfl := Option.some.inj h
    cases hfold : hits.foldl (fun entry hit => some (ChunkHit.enter entry hit)) none with
    | none =>
      rw [(foldl_enter_eq_none hits).mp hfold]
      exact .single hit
    | some entry => exact (ih hfold).snoc hit

/-- No two hits tie at the top under different ordinals. -/
def Unrivalled (hits : List (Int × F)) : Prop :=
  ∀ hit ∈ hits, ∀ other ∈ hits, (∀ any ∈ hits, any.2 ≤ hit.2) → hit.2 = other.2 → hit.1 = other.1

/-- Two entries that are right about the same hits agree, but for the ordinal of a tie. -/
theorem Collapsed.agree (h : Collapsed hits entry) (h' : Collapsed hits' entry')
    (hperm : hits.Perm hits') :
    entry.best = entry'.best ∧ entry.corroborating = entry'.corroborating ∧
      (Unrivalled hits → entry = entry') := by
  have hattained' : (entry'.bestOrdinal, entry'.best) ∈ hits := hperm.symm.subset h'.attained
  have hbest : entry.best = entry'.best :=
    le_antisymm (h'.best_ge _ (hperm.subset h.attained)) (h.best_ge _ hattained')
  have hcount : entry.corroborating = entry'.corroborating := by
    have hlength := hperm.length_eq
    rw [h.count, h'.count] at hlength
    exact Nat.succ.inj hlength
  refine ⟨hbest, hcount, fun hunrivalled => ?_⟩
  have hordinal : entry.bestOrdinal = entry'.bestOrdinal :=
    hunrivalled _ h.attained _ hattained' h.best_ge hbest
  cases entry
  cases entry'
  cases hbest
  cases hcount
  cases hordinal
  rfl

theorem clearing_perm {found found' : List (String × Int × F)} (hperm : found.Perm found') (minScore : F)
    (id : String) : (clearing minScore id found).Perm (clearing minScore id found') :=
  (hperm.filter _).map _

end Order

/-! ## The rank -/

section Rank

variable [Field F]

/-- `CORROBORATION_HEADROOM`. -/
def corroborationHeadroom : F := 1 / 4

def ChunkHit.rank (hit : ChunkHit F) : F :=
  let saturating := 1 - 1 / (1 + (hit.corroborating : F))
  (1 - hit.best) * corroborationHeadroom * saturating + hit.best

variable [LinearOrder F] [IsStrictOrderedRing F]

/-- The share of the headroom that `n` more chunks are worth. -/
theorem saturating_mono {m n : Nat} (h : m ≤ n) : 1 - 1 / (1 + (m : F)) ≤ 1 - 1 / (1 + (n : F)) := by
  have hpos : (0 : F) < 1 + m := by positivity
  have hle : (1 : F) + m ≤ 1 + n := by gcongr
  exact sub_le_sub_left (one_div_le_one_div_of_le hpos hle) 1

theorem saturating_nonneg (n : Nat) : (0 : F) ≤ 1 - 1 / (1 + (n : F)) := by
  have hzero : (1 : F) - 1 / (1 + ((0 : Nat) : F)) = 0 := by simp
  exact hzero ▸ saturating_mono (Nat.zero_le n)

theorem saturating_le_one (n : Nat) : 1 - 1 / (1 + (n : F)) ≤ 1 := by
  have hpos : (0 : F) < 1 / (1 + n) := by positivity
  linarith

theorem rank_eq (hit : ChunkHit F) :
    hit.rank = hit.best + (1 - hit.best) / 4 * (1 - 1 / (1 + (hit.corroborating : F))) := by
  unfold ChunkHit.rank corroborationHeadroom
  ring

theorem best_le_rank {hit : ChunkHit F} (h : hit.best ≤ 1) : hit.best ≤ hit.rank := by
  have hheadroom : 0 ≤ (1 - hit.best) / 4 := by linarith
  rw [rank_eq]
  exact le_add_of_nonneg_right (mul_nonneg hheadroom (saturating_nonneg _))

theorem rank_le {hit : ChunkHit F} (h : hit.best ≤ 1) : hit.rank ≤ hit.best + (1 - hit.best) / 4 := by
  have hheadroom : 0 ≤ (1 - hit.best) / 4 := by linarith
  rw [rank_eq]
  exact (add_le_add_iff_left _).mpr (mul_le_of_le_one_right hheadroom (saturating_le_one _))

theorem rank_mono {hit hit' : ChunkHit F} (hbest : hit.best ≤ hit'.best)
    (hcount : hit.corroborating ≤ hit'.corroborating) (h : hit'.best ≤ 1) : hit.rank ≤ hit'.rank := by
  have hshare := saturating_mono (F := F) hcount
  have hone := saturating_le_one (F := F) hit.corroborating
  have hheadroom : 0 ≤ (1 - hit'.best) / 4 := by linarith
  -- first the better score with the same corroboration, then the corroboration
  have hscore : hit.best + (1 - hit.best) / 4 * (1 - 1 / (1 + (hit.corroborating : F))) ≤
      hit'.best + (1 - hit'.best) / 4 * (1 - 1 / (1 + (hit.corroborating : F))) := by
    nlinarith
  rw [rank_eq, rank_eq]
  exact hscore.trans ((add_le_add_iff_left _).mpr (mul_le_mul_of_nonneg_left hshare hheadroom))

/-! ## The collapsed hits -/

/-- **Main result.** -/
theorem chunk_hits_collapse (hits : List (String × Int × F)) (minScore : F)
    (hscores : ∀ hit ∈ hits, 0 ≤ hit.2.2 ∧ hit.2.2 ≤ 1) :
    (∀ id, (Dict.find (collapseChunkHits hits minScore) id = none ↔ clearing minScore id hits = []) ∧
      ∀ entry, Dict.find (collapseChunkHits hits minScore) id = some entry →
        Collapsed (clearing minScore id hits) entry ∧
        entry.best ≤ entry.rank ∧ entry.rank ≤ 1 ∧ entry.rank ≤ entry.best + (1 - entry.best) / 4) ∧
    (∀ hits', hits.Perm hits' → ∀ id,
      (Dict.find (collapseChunkHits hits minScore) id).map (fun entry =>
          (entry.best, entry.corroborating)) =
        (Dict.find (collapseChunkHits hits' minScore) id).map (fun entry =>
          (entry.best, entry.corroborating)) ∧
      (Unrivalled (clearing minScore id hits) →
        Dict.find (collapseChunkHits hits minScore) id =
          Dict.find (collapseChunkHits hits' minScore) id)) ∧
    ∀ entry entry' : ChunkHit F, entry.best ≤ entry'.best →
      entry.corroborating ≤ entry'.corroborating → entry'.best ≤ 1 → entry.rank ≤ entry'.rank := by
  refine ⟨fun id => ⟨?_, fun entry hentry => ?_⟩, fun hits' hperm id => ?_, fun _ _ => rank_mono⟩
  · rw [find_collapse]
    exact foldl_enter_eq_none _
  · rw [find_collapse] at hentry
    have hcollapsed := collapsed_foldl hentry
    obtain ⟨hit, hhit, heq⟩ := List.mem_map.mp hcollapsed.attained
    have hone : entry.best ≤ 1 := by
      have hle := (hscores hit (List.mem_of_mem_filter hhit)).2
      rwa [heq] at hle
    have hrank := rank_le hone
    exact ⟨hcollapsed, best_le_rank hone, by linarith, hrank⟩
  · have hclearing := clearing_perm hperm minScore id
    rw [find_collapse, find_collapse]
    cases hentry : (clearing minScore id hits).foldl (fun entry hit =>
        some (ChunkHit.enter entry hit)) none with
    | none =>
      have hnil := (foldl_enter_eq_none _).mp hentry
      rw [hnil] at hclearing
      rw [← hclearing.nil_eq]
      exact ⟨rfl, fun _ => rfl⟩
    | some entry =>
      cases hentry' : (clearing minScore id hits').foldl (fun entry hit =>
          some (ChunkHit.enter entry hit)) none with
      | none =>
        have hnil := (foldl_enter_eq_none _).mp hentry'
        rw [hnil] at hclearing
        rw [hclearing.eq_nil] at hentry
        cases hentry
      | some entry' =>
        obtain ⟨hbest, hcount, hall⟩ :=
          (collapsed_foldl hentry).agree (collapsed_foldl hentry') hclearing
        refine ⟨?_, fun hunrivalled => congrArg some (hall hunrivalled)⟩
        rw [Option.map_some, Option.map_some, hbest, hcount]

end Rank

/-- Three hits of two memories, one of them below the minimum. -/
theorem chunk_hits_collapse_sample :
    let hits : List (String × Int × ℚ) := [("m", 0, 1), ("n", 4, 0), ("m", 3, 1)]
    Dict.find (collapseChunkHits hits 1) "n" = none ∧
      ∃ entry, Dict.find (collapseChunkHits hits 1) "m" = some entry ∧ entry.rank ≤ 1 := by
  intro hits
  have hscores : ∀ hit ∈ hits, 0 ≤ hit.2.2 ∧ hit.2.2 ≤ 1 := by decide
  obtain ⟨hfind, -, -⟩ := chunk_hits_collapse hits 1 hscores
  have hentry : Dict.find (collapseChunkHits hits 1) "m" = some ⟨1, 0, 1⟩ := by decide
  exact ⟨(hfind "n").1.mpr (by decide), _, hentry, ((hfind "m").2 _ hentry).2.2.1⟩

/-- Of two hits with one score, the entry names the one that came first. -/
theorem tied_hits_keep_order :
    let hits : List (String × Int × ℚ) := [("m", 1, 1), ("m", 2, 1)]
    hits.Perm hits.reverse ∧ (∀ hit ∈ hits, 0 ≤ hit.2.2 ∧ hit.2.2 ≤ 1) ∧
      Dict.find (collapseChunkHits hits 0) "m" ≠ Dict.find (collapseChunkHits hits.reverse 0) "m" := by
  intro hits
  exact ⟨(List.reverse_perm hits).symm, by decide, by decide⟩

end Nanna.Memory
