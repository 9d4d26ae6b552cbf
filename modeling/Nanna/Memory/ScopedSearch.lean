import Nanna.Lib.Ranking
import Nanna.Memory.Store
import Mathlib.Algebra.Order.Ring.Unbundled.Rat

/-!
# Scoped search against the ranking of the visible entries

`search_scoped_eq_iff`: a scoped search is the search of the visible entries alone, exactly when
every visible entry that has fewer than `k` visible ones ahead of it has fewer than `3 k` entries of
any workspace ahead of it (`WithinReach`). The search fetches `3 k` entries before it filters, so a
crowd of another workspace's rows hides the visible ones (`foreign_rows_hide_visible`).

Proof. A search takes the first of `ranked`, the entries with their scores and positions sorted by
`rank_order` (`search_eq`). Without the positions that is a stable sort by score, so the ranking of
the visible entries is the ranking of all with the others left out (`search_visibleOnly`). What is
left compares a filtered prefix with the whole, and what lies ahead of a row in the sorted list is
what `rank_order` puts before it.
-/

namespace Nanna.Memory

open Nanna.Lib

/-- The order of the finite scores: `f32` compares them as a strict weak order. -/
class OrderedScalar (F : Type) extends Scalar F where
  lt_asymm {a b : F} : isFinite a → isFinite b → a < b → ¬b < a
  lt_or_lt {a b c : F} : isFinite a → isFinite b → isFinite c → a < b → a < c ∨ c < b

instance : OrderedScalar ℚ where
  lt_asymm _ _ h := @lt_asymm ℚ _ _ _ h
  lt_or_lt {a _ c} _ _ _ h := (lt_or_ge a c).imp_right fun hca => @lt_of_le_of_lt ℚ _ _ _ _ hca h

variable {F : Type} [OrderedScalar F]

namespace Store

/-! ## The order of the scores -/

omit [OrderedScalar F] in
theorem sanitize_eq_some [Scalar F] {a x : F} (h : sanitize a = some x) : Scalar.isFinite x := by
  unfold sanitize at h
  split at h
  · obtain rfl := Option.some.inj h
    assumption
  · cases h

theorem compareScores_swap (a b : F) : compareScores a b = (compareScores b a).swap := by
  unfold compareScores
  cases ha : sanitize a with
  | none => cases hb : sanitize b <;> rfl
  | some x =>
    cases hb : sanitize b with
    | none => rfl
    | some y =>
      have hx := sanitize_eq_some ha
      have hy := sanitize_eq_some hb
      by_cases hxy : x < y
      · have hyx : ¬y < x := OrderedScalar.lt_asymm hx hy hxy
        simp [hxy, hyx]
      · by_cases hyx : y < x <;> simp [hxy, hyx]

/-- Of two finite scores the first ranks no later, where it is not the smaller. -/
theorem compareScores_isLE {a b x y : F} (ha : sanitize a = some x) (hb : sanitize b = some y) :
    (compareScores a b).isLE ↔ ¬x < y := by
  unfold compareScores
  rw [ha, hb]
  by_cases hyx : y < x
  · have hxy : ¬x < y := OrderedScalar.lt_asymm (sanitize_eq_some hb) (sanitize_eq_some ha) hyx
    simp [hyx, hxy]
  · by_cases hxy : x < y <;> simp [hyx, hxy]

theorem compareScores_trans {a b c : F} (hab : (compareScores a b).isLE)
    (hbc : (compareScores b c).isLE) : (compareScores a c).isLE := by
  cases ha : sanitize a with
  | none =>
    cases hb : sanitize b with
    | none =>
      unfold compareScores at hbc ⊢
      rwa [ha, ← hb]
    | some y =>
      unfold compareScores at hab
      rw [ha, hb] at hab
      cases hab
  | some x =>
    cases hc : sanitize c with
    | none =>
      unfold compareScores
      rw [ha, hc]
      rfl
    | some z =>
      cases hb : sanitize b with
      | none =>
        unfold compareScores at hbc
        rw [hb, hc] at hbc
        cases hbc
      | some y =>
        rw [compareScores_isLE ha hc]
        intro hxz
        rcases OrderedScalar.lt_or_lt (sanitize_eq_some ha) (sanitize_eq_some hc)
          (sanitize_eq_some hb) hxz with hxy | hyz
        · exact (compareScores_isLE ha hb).mp hab hxy
        · exact (compareScores_isLE hb hc).mp hbc hyz

instance : Std.TransCmp (compareScores (F := F)) where
  eq_swap := compareScores_swap _ _
  isLE_trans := compareScores_trans

/-! ## The order of the hits -/

/-- An entry with its score, at a position of the store. -/
abbrev Hit (F : Type) := (MemoryEntry F × F) × Nat

/-- `rank_order` puts the first before the second. -/
def Before (a b : Hit F) : Prop := rankOrder (a.2, a.1.2) (b.2, b.1.2) = .lt

/-- `rank_order` does not put the second before the first. -/
def NotAfter (a b : Hit F) : Prop := rankOrder (a.2, a.1.2) (b.2, b.1.2) ≠ .gt

/-- The same without positions. -/
def ScoresNotLess (a b : MemoryEntry F × F) : Prop := compareScores a.2 b.2 ≠ .gt

instance : DecidableRel (Before (F := F)) := fun _ _ => inferInstanceAs (Decidable (_ = _))
instance : DecidableRel (NotAfter (F := F)) := fun _ _ => inferInstanceAs (Decidable (_ ≠ _))
instance : DecidableRel (ScoresNotLess (F := F)) := fun _ _ => inferInstanceAs (Decidable (_ ≠ _))

instance : Std.TransCmp (rankOrder (F := F)) where
  eq_swap := by
    intro a b
    rw [rankOrder, rankOrder, Ordering.swap_then, ← compareScores_swap, ← Nat.compare_swap]
  isLE_trans := by
    intro a b c hab hbc
    rw [rankOrder, Ordering.isLE_then_iff_or] at hab hbc ⊢
    rcases hab with hab | ⟨hab, hi⟩ <;> rcases hbc with hbc | ⟨hbc, hj⟩
    · exact .inl (Std.TransCmp.lt_trans hab hbc)
    · exact .inl (Std.TransCmp.lt_of_lt_of_eq hab hbc)
    · exact .inl (Std.TransCmp.lt_of_eq_of_lt hab hbc)
    · exact .inr ⟨Std.TransCmp.eq_trans hab hbc, Std.TransCmp.isLE_trans hi hj⟩

theorem before_asymm (a b : Hit F) (hab : Before a b) : ¬Before b a := by
  intro hba
  have hswap : rankOrder (a.2, a.1.2) (b.2, b.1.2) = (rankOrder (b.2, b.1.2) (a.2, a.1.2)).swap :=
    Std.OrientedCmp.eq_swap
  unfold Before at hab hba
  rw [hba, hab] at hswap
  cases hswap

/-- Hits at different positions are never tied. -/
theorem before_of_notAfter {a b : Hit F} (h : NotAfter a b) (hne : a.2 ≠ b.2) : Before a b := by
  unfold NotAfter at h
  unfold Before
  cases hcmp : rankOrder (a.2, a.1.2) (b.2, b.1.2) with
  | lt => rfl
  | gt => exact absurd hcmp h
  | eq =>
    rw [rankOrder, Ordering.then_eq_eq] at hcmp
    exact absurd (Nat.compare_eq_eq.mp hcmp.2) hne

instance : Std.Total (NotAfter (F := F)) where
  total a b := by
    have hswap : rankOrder (b.2, b.1.2) (a.2, a.1.2) =
        (rankOrder (a.2, a.1.2) (b.2, b.1.2)).swap := Std.OrientedCmp.eq_swap
    unfold NotAfter
    rw [hswap]
    cases rankOrder (a.2, a.1.2) (b.2, b.1.2) <;> simp

instance : IsTrans (Hit F) NotAfter where
  trans _ _ _ hab hbc := Ordering.isLE_iff_ne_gt.mp
    (Std.TransCmp.isLE_trans (Ordering.isLE_iff_ne_gt.mpr hab) (Ordering.isLE_iff_ne_gt.mpr hbc))

instance : Std.Total (ScoresNotLess (F := F)) where
  total a b := by
    unfold ScoresNotLess
    rw [compareScores_swap b.2]
    cases compareScores a.2 b.2 <;> simp

instance : IsTrans (MemoryEntry F × F) ScoresNotLess where
  trans _ _ _ hab hbc := Ordering.isLE_iff_ne_gt.mp
    (Std.TransCmp.isLE_trans (Ordering.isLE_iff_ne_gt.mpr hab) (Ordering.isLE_iff_ne_gt.mpr hbc))

/-! ## The ranking -/

variable (s : Store F)

/-- The entries with their scores. -/
def scored (query : List F) : List (MemoryEntry F × F) :=
  s.entries.map fun entry => (entry, cosineOrStale (Scalar.normalize query) entry.embedding)

/-- The scored entries at their positions, as `search` sorts them. -/
def ranked (query : List F) : List (Hit F) := (s.scored query).zipIdx.insertionSort NotAfter

/-- The store with only the entries that the workspace sees. -/
def visibleOnly (workspaceId : Option String) : Store F :=
  { s with entries := s.entries.filter (visible workspaceId) }

/-- Every visible entry with fewer than `top_k` visible ones ahead of it has fewer than `3 * top_k`
of any workspace ahead of it. -/
def WithinReach (query : List F) (topK : Nat) (workspaceId : Option String) : Prop :=
  ∀ hit ∈ (s.scored query).zipIdx, visible workspaceId hit.1.1 →
    (s.scored query).zipIdx.countP (fun other =>
      Before other hit && visible workspaceId other.1.1) < topK →
    (s.scored query).zipIdx.countP (fun other => Before other hit) < overFetch topK

variable {s} {query : List F} {topK : Nat} {workspaceId : Option String}

/-- Without its positions, the ranking is a stable sort by score. -/
theorem ranked_map : (s.ranked query).map (·.1) = (s.scored query).insertionSort ScoresNotLess := by
  refine map_insertionSort_zipIdx (fun a b i j hij => ?_) _ 0
  unfold NotAfter ScoresNotLess rankOrder
  rw [Nat.compare_eq_lt.mpr hij]
  cases compareScores a.2 b.2 <;> simp

theorem ranked_getElem? {hit : Hit F} (h : hit ∈ s.ranked query) :
    s.entries[hit.2]? = some hit.1.1 := by
  have hmem : hit ∈ (s.scored query).zipIdx := (List.mem_insertionSort _).mp h
  have hget : (s.scored query)[hit.2]? = some hit.1 := List.mem_zipIdx_iff_getElem?.mp hmem
  rw [scored, List.getElem?_map] at hget
  obtain ⟨entry, hentry, heq⟩ := Option.map_eq_some_iff.mp hget
  rw [hentry, ← heq]

/-- The pairs that `search` sorts are the scored entries, seen without the entries. -/
theorem similarities_zipIdx :
    ((s.entries.map fun entry => cosineOrStale (Scalar.normalize query) entry.embedding).zipIdx.map
      Prod.swap) = (s.scored query).zipIdx.map fun hit => (hit.2, hit.1.2) := by
  rw [scored, List.zipIdx_map, List.zipIdx_map, List.map_map, List.map_map]
  rfl

theorem search_eq (hwidth : query.length = s.dimension) :
    s.search query topK = ((s.ranked query).take topK).map (·.1) := by
  have hsort : ((s.scored query).zipIdx.map fun hit => (hit.2, hit.1.2)).insertionSort
      (fun a b => rankOrder a b ≠ .gt) = (s.ranked query).map fun hit => (hit.2, hit.1.2) :=
    (List.map_insertionSort NotAfter (fun a b => rankOrder a b ≠ .gt)
      (fun hit : Hit F => (hit.2, hit.1.2)) _ fun _ _ _ _ => Iff.rfl).symm
  unfold search
  rw [if_neg (not_not.mpr hwidth)]
  dsimp only
  rw [similarities_zipIdx, rankTopK, hsort, ← List.map_take, List.filterMap_map,
    ← List.filterMap_eq_map]
  refine List.filterMap_congr fun hit hhit => ?_
  show s.entries[hit.2]?.map (·, hit.1.2) = some hit.1
  rw [ranked_getElem? (List.mem_of_mem_take hhit)]
  rfl

theorem search_of_width_ne (hwidth : query.length ≠ s.dimension) : s.search query topK = [] := by
  unfold search
  rw [if_pos hwidth]

/-- The ranking of the visible entries is the ranking of all, with the others left out. -/
theorem search_visibleOnly (hwidth : query.length = s.dimension) :
    (s.visibleOnly workspaceId).search query topK =
      (((s.ranked query).filter fun hit => visible workspaceId hit.1.1).take topK).map (·.1) := by
  have hscored : (s.visibleOnly workspaceId).scored query =
      (s.scored query).filter fun hit => visible workspaceId hit.1 := by
    rw [scored, scored, List.filter_map]
    rfl
  rw [search_eq (s := s.visibleOnly workspaceId) hwidth, List.map_take, ranked_map, hscored,
    ← filter_insertionSort, ← ranked_map, List.filter_map, ← List.map_take]
  rfl

theorem searchScoped_eq (hwidth : query.length = s.dimension) :
    s.searchScoped query topK workspaceId =
      ((((s.ranked query).take (overFetch topK)).filter fun hit =>
        visible workspaceId hit.1.1).take topK).map (·.1) := by
  rw [searchScoped, search_eq hwidth, List.filter_map, List.map_take]
  rfl

theorem ranked_pairwise : (s.ranked query).Pairwise Before := by
  have hsorted : (s.ranked query).Pairwise NotAfter := List.pairwise_insertionSort _ _
  have hnodup : ((s.ranked query).map (·.2)).Nodup := by
    have hperm : ((s.ranked query).map (·.2)).Perm ((s.scored query).zipIdx.map (·.2)) :=
      (List.perm_insertionSort _ _).map _
    rw [hperm.nodup_iff, List.zipIdx_map_snd]
    exact List.nodup_range'
  exact hsorted.imp₂ (fun _ _ => before_of_notAfter) (List.pairwise_map.mp hnodup)

/-- The condition, read at the positions of the ranking. -/
theorem withinReach_iff : s.WithinReach query topK workspaceId ↔
    ∀ i (h : i < (s.ranked query).length), visible workspaceId (s.ranked query)[i].1.1 →
      (((s.ranked query).take i).filter fun hit => visible workspaceId hit.1.1).length < topK →
      i < overFetch topK := by
  have hperm : (s.ranked query).Perm (s.scored query).zipIdx := List.perm_insertionSort _ _
  have hahead : ∀ i (h : i < (s.ranked query).length),
      (s.ranked query).filter (fun other => Before other (s.ranked query)[i]) =
        (s.ranked query).take i := filter_lt_getElem before_asymm ranked_pairwise
  have hcount : ∀ i (h : i < (s.ranked query).length),
      (s.scored query).zipIdx.countP (fun other => Before other (s.ranked query)[i]) = i := by
    intro i h
    rw [← hperm.countP_eq, List.countP_eq_length_filter, hahead i h, List.length_take]
    omega
  have hvisible : ∀ i (h : i < (s.ranked query).length),
      (s.scored query).zipIdx.countP (fun other =>
        Before other (s.ranked query)[i] && visible workspaceId other.1.1) =
      (((s.ranked query).take i).filter fun hit => visible workspaceId hit.1.1).length := by
    intro i h
    rw [← hperm.countP_eq, List.countP_eq_length_filter, ← hahead i h, List.filter_filter]
    simp only [Bool.and_comm]
  constructor
  · intro hreach i h hvis hlt
    have hmem : (s.ranked query)[i] ∈ (s.scored query).zipIdx := hperm.subset (List.getElem_mem h)
    rw [← hcount i h]
    exact hreach _ hmem hvis (by rwa [hvisible i h])
  · intro hpos hit hmem hvis hlt
    obtain ⟨i, h, rfl⟩ := List.mem_iff_getElem.mp (hperm.symm.subset hmem)
    rw [hvisible i h] at hlt
    rw [hcount i h]
    exact hpos i h hvis hlt

/-- **Main result.** A scoped search is the search of the visible entries alone, exactly when each of
the first `top_k` visible ones is within the fetched ranks. -/
theorem search_scoped_eq_iff (s : Store F) (query : List F) (topK : Nat) (workspace : String) :
    s.searchScoped query topK (some workspace) =
        (s.visibleOnly (some workspace)).search query topK ↔
      (query.length = s.dimension → s.WithinReach query topK (some workspace)) := by
  by_cases hwidth : query.length = s.dimension
  · have hprefix : (((s.ranked query).take (overFetch topK)).filter fun hit =>
          visible (some workspace) hit.1.1).take topK <+:
        ((s.ranked query).filter fun hit => visible (some workspace) hit.1.1).take topK :=
      List.IsPrefix.take ((List.take_prefix _ _).filter _) _
    have hiff := take_filter_take_eq_iff (fun hit : Hit F => visible (some workspace) hit.1.1)
      (s.ranked query) (overFetch topK) topK
    rw [searchScoped_eq hwidth, search_visibleOnly hwidth, withinReach_iff, ← hiff]
    refine ⟨fun h _ => ?_, fun h => by rw [h hwidth]⟩
    have hlength := congrArg List.length h
    rw [List.length_map, List.length_map] at hlength
    exact hprefix.eq_of_length hlength
  · refine iff_of_true ?_ fun h => absurd h hwidth
    rw [searchScoped, search_of_width_ne hwidth,
      search_of_width_ne (s := s.visibleOnly (some workspace)) hwidth, List.filter_nil,
      List.take_nil]

/-- Three rows of another workspace fill the fetched ranks, and the one visible row is not
returned. -/
theorem foreign_rows_hide_visible :
    let foreign (id : String) := sampleEntry id "theirs".toList [1, 0] "m" (some "b")
    let s : Store ℚ := ⟨[foreign "e1", foreign "e2", foreign "e3",
      sampleEntry "e4" "ours".toList [4 / 5, 3 / 5] "m" (some "a")], 2, some "m"⟩
    s.searchScoped [1, 0] 1 (some "a") ≠ (s.visibleOnly (some "a")).search [1, 0] 1 := by
  intro foreign s hsame
  have hnone : (s.searchScoped [1, 0] 1 (some "a")).map (·.1.id) = [] := by decide +kernel
  have hours : ((s.visibleOnly (some "a")).search [1, 0] 1).map (·.1.id) = ["e4"] := by
    decide
  rw [hsame, hours] at hnone
  cases hnone

end Store

end Nanna.Memory
