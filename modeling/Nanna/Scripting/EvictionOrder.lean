import Nanna.Scripting.Eviction

/-!
# Eviction in order

`evictions_in_order`: from any list of checkpoints with distinct numbers whose sizes add up to less
than `2 ^ 64`, the list after eviction is within the three bounds, each pool loses its oldest, a
baseline goes only when the baselines alone break a bound, no subtraction underflows, and no
checkpoint that goes could have stayed with all the newer ones of its pool: the recent ones beside
the newest baselines, as many as the bound on their number allows, and the baselines alone.

That is as few as eviction from the oldest on can drop. A small old checkpoint goes although it
alone would still fit (`evictions_drop_small`); two checkpoints of one number go together, and a
total beyond `u64` is not accounted for.
-/

namespace Nanna.Scripting

/-! ## The accounting in `u64` -/

/-- `dropOldestWhile` with the subtraction checked. -/
def dropOldestChecked (exceeds : Nat → Nat → Bool) : List Checkpoint → Nat → List Nat → Option Pool
  | [], bytes, dropped => some ⟨[], bytes, dropped⟩
  | oldest :: pool, bytes, dropped =>
    if exceeds (pool.length + 1) bytes then
      if bytes < oldest.bytes then none
      else dropOldestChecked exceeds pool (bytes - oldest.bytes) (dropped ++ [oldest.seq])
    else some ⟨oldest :: pool, bytes, dropped⟩

/-- `evictions`, where neither the sum of the sizes nor a subtraction may leave `u64`. -/
def evictionsChecked (checkpoints : List Checkpoint) : Option (List Nat) := do
  let bytes ← if totalBytes checkpoints < 2 ^ 64 then some (totalBytes checkpoints) else none
  let recent ← dropOldestChecked (fun count _ => recentCheckpointsMax < count) (recents checkpoints)
    bytes []
  let baseline ← dropOldestChecked (fun count _ => baselineCheckpointsMax < count)
    (baselines checkpoints) recent.bytes recent.dropped
  let overBytes := fun (_ bytes : Nat) => decide (sessionBytesMax < bytes)
  let recent ← dropOldestChecked overBytes recent.kept baseline.bytes baseline.dropped
  if recent.kept.isEmpty then
    let baseline ← dropOldestChecked overBytes baseline.kept recent.bytes recent.dropped
    some baseline.dropped
  else some recent.dropped

/-- A total that covers the pool is never exceeded by what is dropped. -/
theorem dropOldestChecked_eq {exceeds : Nat → Nat → Bool} {pool : List Checkpoint} {bytes : Nat}
    {dropped : List Nat} (hbytes : totalBytes pool ≤ bytes) :
    dropOldestChecked exceeds pool bytes dropped = some (dropOldestWhile exceeds pool bytes dropped) := by
  induction pool generalizing bytes dropped with
  | nil => rfl
  | cons oldest pool ih =>
    rw [totalBytes_cons] at hbytes
    rw [dropOldestChecked, dropOldestWhile]
    split
    · rw [if_neg (by omega)]
      apply ih
      omega
    · rfl

theorem dropOldestWhile_balance (exceeds : Nat → Nat → Bool) (pool : List Checkpoint) (bytes : Nat)
    (dropped : List Nat) (hbytes : totalBytes pool ≤ bytes) :
    (dropOldestWhile exceeds pool bytes dropped).bytes + totalBytes pool =
      bytes + totalBytes (dropOldestWhile exceeds pool bytes dropped).kept := by
  obtain ⟨gone, hdrops⟩ := dropOldestWhile_spec exceeds pool bytes dropped hbytes
  exact hdrops.balance

/-- The running total always covers what is left. -/
theorem evictionsChecked_eq {checkpoints : List Checkpoint} (htotal : totalBytes checkpoints < 2 ^ 64) :
    evictionsChecked checkpoints = some (evictions checkpoints) := by
  have hpools := totalBytes_pools checkpoints
  unfold evictionsChecked evictions
  rw [if_pos htotal]
  simp only [Option.bind_eq_bind, Option.bind_some]
  have h₁ := dropOldestWhile_balance (fun count _ => decide (recentCheckpointsMax < count))
    (recents checkpoints) (totalBytes checkpoints) [] (by omega)
  rw [dropOldestChecked_eq (by omega), Option.bind_some]
  generalize dropOldestWhile (fun count _ => decide (recentCheckpointsMax < count))
    (recents checkpoints) (totalBytes checkpoints) [] = r₁ at h₁ ⊢
  have h₂ := dropOldestWhile_balance (fun count _ => decide (baselineCheckpointsMax < count))
    (baselines checkpoints) r₁.bytes r₁.dropped (by omega)
  rw [dropOldestChecked_eq (by omega), Option.bind_some]
  generalize dropOldestWhile (fun count _ => decide (baselineCheckpointsMax < count))
    (baselines checkpoints) r₁.bytes r₁.dropped = b₁ at h₂ ⊢
  have h₃ := dropOldestWhile_balance (fun _ bytes => decide (sessionBytesMax < bytes)) r₁.kept b₁.bytes
    b₁.dropped (by omega)
  rw [dropOldestChecked_eq (by omega), Option.bind_some]
  generalize dropOldestWhile (fun _ bytes => decide (sessionBytesMax < bytes)) r₁.kept b₁.bytes
    b₁.dropped = r₂ at h₃ ⊢
  split
  · rename_i hempty
    rw [List.isEmpty_iff.mp hempty, totalBytes_nil] at h₃
    rw [dropOldestChecked_eq (by omega), Option.bind_some]
  · rfl

/-! ## Pools by number -/

instance totalSeq : Std.Total fun a b : Checkpoint => a.seq ≤ b.seq := ⟨fun _ _ => Nat.le_total _ _⟩

instance transSeq : IsTrans Checkpoint fun a b => a.seq ≤ b.seq := ⟨fun _ _ _ => Nat.le_trans⟩

section Pools

variable {checkpoints : List Checkpoint} {c d : Checkpoint}

theorem mem_recents : c ∈ recents checkpoints ↔ c ∈ checkpoints ∧ c.baseline = false := by
  rw [recents, (List.perm_insertionSort _ _).mem_iff, List.mem_filter]
  simp

theorem mem_baselines : c ∈ baselines checkpoints ↔ c ∈ checkpoints ∧ c.baseline = true := by
  rw [baselines, (List.perm_insertionSort _ _).mem_iff, List.mem_filter]

theorem pools_perm : (baselines checkpoints ++ recents checkpoints).Perm checkpoints := by
  have hsorted := (List.perm_insertionSort (fun a b : Checkpoint => a.seq ≤ b.seq)
    (checkpoints.filter fun c => c.baseline)).append
    (List.perm_insertionSort (fun a b : Checkpoint => a.seq ≤ b.seq)
      (checkpoints.filter fun c => !c.baseline))
  exact hsorted.trans (List.filter_append_perm _ _)

theorem recents_sorted : (recents checkpoints).Pairwise fun a b => a.seq ≤ b.seq :=
  List.pairwise_insertionSort _ _

theorem baselines_sorted : (baselines checkpoints).Pairwise fun a b => a.seq ≤ b.seq :=
  List.pairwise_insertionSort _ _

theorem eq_of_seq (hids : (checkpoints.map (·.seq)).Nodup) (hc : c ∈ checkpoints)
    (hd : d ∈ checkpoints) (hseq : c.seq = d.seq) : c = d := List.inj_on_of_nodup_map hids hc hd hseq

end Pools

/-- The newest baselines, as many as there may be. -/
def newestBaselines (checkpoints : List Checkpoint) : List Checkpoint :=
  (baselines checkpoints).drop ((baselines checkpoints).length - baselineCheckpointsMax)

/-! ## What eviction does -/

/-- What is said of eviction from a list of checkpoints. -/
structure EvictsInOrder (checkpoints : List Checkpoint) : Prop where
  recentCount : (recents (surviving checkpoints)).length ≤ recentCheckpointsMax
  baselineCount : (baselines (surviving checkpoints)).length ≤ baselineCheckpointsMax
  bytes : totalBytes (surviving checkpoints) ≤ sessionBytesMax
  /-- Each pool loses its oldest. -/
  oldest : ∀ c ∈ checkpoints, ∀ d ∈ checkpoints, c.baseline = d.baseline →
    c.seq ∈ evictions checkpoints → d.seq ∉ evictions checkpoints → c.seq < d.seq
  baselinesAlone : ∀ c ∈ checkpoints, c.baseline = true → c.seq ∈ evictions checkpoints →
    baselineCheckpointsMax < (baselines checkpoints).length ∨
      sessionBytesMax < totalBytes (baselines checkpoints)
  /-- A recent checkpoint and all newer ones would break a bound beside the baselines. -/
  recentNeeded : ∀ older c newer, recents checkpoints = older ++ c :: newer →
    c.seq ∈ evictions checkpoints → recentCheckpointsMax < (c :: newer).length ∨
      sessionBytesMax < totalBytes (c :: newer) + totalBytes (newestBaselines checkpoints)
  baselineNeeded : ∀ older c newer, baselines checkpoints = older ++ c :: newer →
    c.seq ∈ evictions checkpoints → baselineCheckpointsMax < (c :: newer).length ∨
      sessionBytesMax < totalBytes (c :: newer)
  /-- No sum and no subtraction leaves `u64`. -/
  accounted : evictionsChecked checkpoints = some (evictions checkpoints)

section Order

variable {checkpoints counted heavy kept pool older newer : List Checkpoint} {c : Checkpoint}
  {countedRecents heavyRecents keptRecents countedBaselines heavyBaselines keptBaselines :
    List Checkpoint}

theorem totalBytes_le_of_suffix {cs ds : List Checkpoint} (h : cs <:+ ds) :
    totalBytes cs ≤ totalBytes ds := by
  obtain ⟨front, rfl⟩ := h
  rw [totalBytes_append]
  omega

/-- From a member of the first part on, the last of that part and all that follows it. -/
theorem suffix_of_mem {gone rest : List Checkpoint} (hnodup : (gone ++ rest).Nodup)
    (hsplit : gone ++ rest = older ++ c :: newer) (hc : c ∈ gone) :
    ∃ front last, gone = front ++ [last] ∧ last :: rest <:+ c :: newer := by
  have hrest : c ∉ rest := fun hmem => List.disjoint_of_nodup_append hnodup hc hmem
  rcases List.append_eq_append_iff.mp hsplit with ⟨a, -, hnewer⟩ | ⟨b, hgone, hnewer⟩
  · exact absurd (hnewer ▸ List.mem_append_right _ List.mem_cons_self) hrest
  · have hne : b ≠ [] := by
      rintro rfl
      rw [List.nil_append] at hnewer
      exact hrest (hnewer ▸ List.mem_cons_self)
    obtain ⟨front, last, hb⟩ := List.eq_nil_or_concat b |>.resolve_left hne
    rw [List.concat_eq_append] at hb
    refine ⟨older ++ front, last, by rw [hgone, hb, List.append_assoc], front, ?_⟩
    rw [hnewer, hb, List.append_assoc]
    rfl

/-- From a dropped member of a pool on, there are too many, or as many bytes as when the last one was
dropped for them. -/
theorem needed_of_mem {limit : Nat} (hnodup : (counted ++ heavy ++ kept).Nodup)
    (hsplit : counted ++ heavy ++ kept = older ++ c :: newer) (hc : c ∈ counted ++ heavy)
    (hfull : counted ≠ [] → (heavy ++ kept).length = limit) :
    limit < (c :: newer).length ∨ ∃ front last, heavy = front ++ [last] ∧
      last.bytes + totalBytes kept ≤ totalBytes (c :: newer) := by
  by_cases hcounted : c ∈ counted
  · left
    rw [List.append_assoc] at hnodup hsplit
    obtain ⟨front, last, -, hsuffix⟩ := suffix_of_mem hnodup hsplit hcounted
    have hlength := hsuffix.length_le
    rw [List.length_cons, hfull (List.ne_nil_of_mem hcounted)] at hlength
    omega
  · right
    obtain ⟨front, last, hlast, hsuffix⟩ := suffix_of_mem hnodup hsplit hc
    have hheavy : heavy ≠ [] :=
      List.ne_nil_of_mem ((List.mem_append.mp hc).resolve_left hcounted)
    obtain ⟨front', hsplit'⟩ := exists_concat_of_append hlast hheavy
    refine ⟨front', last, hsplit', ?_⟩
    have hle := totalBytes_le_of_suffix hsuffix
    rwa [totalBytes_cons] at hle

variable (h : Phases checkpoints (evictions checkpoints) countedRecents heavyRecents keptRecents
    countedBaselines heavyBaselines keptBaselines) (hids : (checkpoints.map (·.seq)).Nodup)

include h hids

theorem nodup_phases : (countedBaselines ++ (heavyBaselines ++ keptBaselines) ++
    (countedRecents ++ (heavyRecents ++ keptRecents))).Nodup := by
  rw [← h.recents, ← h.baselines]
  exact pools_perm.nodup_iff.mpr (List.Nodup.of_map _ hids)

/-- A number is dropped exactly if its checkpoint is. -/
theorem seq_mem_evictions (hc : c ∈ checkpoints) : c.seq ∈ evictions checkpoints ↔
    c ∈ countedRecents ++ heavyRecents ∨ c ∈ countedBaselines ++ heavyBaselines := by
  rw [h.dropped]
  simp only [List.mem_map, List.mem_append]
  constructor
  · rintro ⟨d, hd, hseq⟩
    have hpools : d ∈ baselines checkpoints ++ recents checkpoints := by
      rw [h.recents, h.baselines]
      simp only [List.mem_append]
      tauto
    obtain rfl := eq_of_seq hids (pools_perm.mem_iff.mp hpools) hc hseq
    tauto
  · intro hmem
    exact ⟨c, by tauto, rfl⟩

theorem recent_mem_evictions (hc : c ∈ recents checkpoints) :
    c.seq ∈ evictions checkpoints ↔ c ∈ countedRecents ++ heavyRecents := by
  obtain ⟨hmem, hrecent⟩ := mem_recents.mp hc
  rw [seq_mem_evictions h hids hmem, or_iff_left]
  intro hbaseline
  have hpool : c ∈ baselines checkpoints := by
    rw [h.baselines, ← List.append_assoc]
    exact List.mem_append_left _ hbaseline
  rw [(mem_baselines.mp hpool).2] at hrecent
  cases hrecent

theorem baseline_mem_evictions (hc : c ∈ baselines checkpoints) :
    c.seq ∈ evictions checkpoints ↔ c ∈ countedBaselines ++ heavyBaselines := by
  obtain ⟨hmem, hbaseline⟩ := mem_baselines.mp hc
  rw [seq_mem_evictions h hids hmem, or_iff_right]
  intro hrecent
  have hpool : c ∈ recents checkpoints := by
    rw [h.recents, ← List.append_assoc]
    exact List.mem_append_left _ hrecent
  rw [(mem_recents.mp hpool).2] at hbaseline
  cases hbaseline

omit h hids in
/-- What survives of a pool is what its loops kept. -/
theorem surviving_pool_perm {p : Checkpoint → Bool} {gone : List Checkpoint}
    (hpool : (checkpoints.filter p).insertionSort (fun a b => a.seq ≤ b.seq) = gone ++ kept)
    (hnodup : (gone ++ kept).Nodup)
    (hmem : ∀ c ∈ gone ++ kept, c.seq ∈ evictions checkpoints ↔ c ∈ gone) :
    ((surviving checkpoints).filter p).Perm kept := by
  have hsame := filter_gone hnodup hmem
  have hfilter : (surviving checkpoints).filter p =
      (checkpoints.filter p).filter fun c => c.seq ∉ evictions checkpoints := by
    rw [surviving, List.filter_filter, List.filter_filter]
    simp only [Bool.and_comm]
  rw [hfilter, ← hsame, ← hpool]
  exact ((List.perm_insertionSort _ _).filter _).symm

theorem surviving_recents_perm :
    ((surviving checkpoints).filter fun c => !c.baseline).Perm keptRecents := by
  have hpool := h.recents
  have hnodup := (List.nodup_append.mp (nodup_phases h hids)).2.1
  rw [← List.append_assoc] at hpool hnodup
  exact surviving_pool_perm hpool hnodup fun c hc => recent_mem_evictions h hids (hpool ▸ hc)

theorem surviving_baselines_perm :
    ((surviving checkpoints).filter fun c => c.baseline).Perm keptBaselines := by
  have hpool := h.baselines
  have hnodup := (List.nodup_append.mp (nodup_phases h hids)).1
  rw [← List.append_assoc] at hpool hnodup
  exact surviving_pool_perm hpool hnodup fun c hc => baseline_mem_evictions h hids (hpool ▸ hc)

omit h hids in
/-- In a sorted pool of distinct numbers, what goes first is older. -/
theorem seq_lt_of_sorted {gone : List Checkpoint} {d : Checkpoint}
    (hids : (checkpoints.map (·.seq)).Nodup) (hsub : ∀ e ∈ gone ++ kept, e ∈ checkpoints)
    (hnodup : (gone ++ kept).Nodup) (hsorted : (gone ++ kept).Pairwise fun a b => a.seq ≤ b.seq)
    (hc : c ∈ gone) (hd : d ∈ kept) : c.seq < d.seq := by
  have hle : c.seq ≤ d.seq := (List.pairwise_append.mp hsorted).2.2 c hc d hd
  refine Nat.lt_of_le_of_ne hle fun hseq => ?_
  obtain rfl := eq_of_seq hids (hsub c (List.mem_append_left _ hc))
    (hsub d (List.mem_append_right _ hd)) hseq
  exact List.disjoint_of_nodup_append hnodup hc hd

omit hids in
/-- The baselines that the bound on their number leaves. -/
theorem newestBaselines_bytes :
    totalBytes (heavyBaselines ++ keptBaselines) ≤ totalBytes (newestBaselines checkpoints) := by
  have hcount := h.baselineCount
  have hfull := h.baselinesCounted
  apply totalBytes_le_of_suffix
  rw [newestBaselines, h.baselines, List.length_append]
  by_cases hnone : countedBaselines = []
  · subst hnone
    have hzero : ([] : List Checkpoint).length + (heavyBaselines ++ keptBaselines).length -
        baselineCheckpointsMax = 0 := by
      rw [List.length_nil]
      omega
    exact ⟨[], by rw [hzero, List.drop_zero, List.nil_append]⟩
  · have hdrop : countedBaselines.length + (heavyBaselines ++ keptBaselines).length -
        baselineCheckpointsMax = countedBaselines.length := by
      rw [hfull hnone]
      omega
    exact ⟨[], by rw [hdrop, List.drop_left, List.nil_append]⟩

end Order

/-- **Main result.** -/
theorem evictions_in_order {checkpoints : List Checkpoint}
    (hids : (checkpoints.map (·.seq)).Nodup) (htotal : totalBytes checkpoints < 2 ^ 64) :
    EvictsInOrder checkpoints := by
  obtain ⟨cr, hr, kr, cb, hb, kb, h⟩ := evictions_phases checkpoints
  have hrecents := surviving_recents_perm h hids
  have hbaselines := surviving_baselines_perm h hids
  have hnodup := List.nodup_append.mp (nodup_phases h hids)
  have hcountR := h.recentCount
  have hcountB := h.baselineCount
  have hpoolR := h.recents
  have hpoolB := h.baselines
  have hnodupR := hnodup.2.1
  have hnodupB := hnodup.1
  rw [← List.append_assoc] at hpoolR hpoolB hnodupR hnodupB
  have hsortedR : (cr ++ hr ++ kr).Pairwise fun a b => a.seq ≤ b.seq := hpoolR ▸ recents_sorted
  have hsortedB : (cb ++ hb ++ kb).Pairwise fun a b => a.seq ≤ b.seq := hpoolB ▸ baselines_sorted
  constructor
  · rw [recents, List.length_insertionSort, hrecents.length_eq]
    rw [List.length_append] at hcountR
    omega
  · rw [baselines, List.length_insertionSort, hbaselines.length_eq]
    rw [List.length_append] at hcountB
    omega
  · rw [totalBytes_partition, totalBytes_perm hrecents, totalBytes_perm hbaselines]
    exact h.bytes
  · intro c hc d hd hsame hgone hkept
    cases hbaseline : c.baseline with
    | false =>
      have hcpool := mem_recents.mpr ⟨hc, hbaseline⟩
      have hdpool := mem_recents.mpr ⟨hd, hsame ▸ hbaseline⟩
      have hcgone := (recent_mem_evictions h hids hcpool).mp hgone
      have hdkept : d ∈ kr :=
        (List.mem_append.mp (hpoolR ▸ hdpool)).resolve_left fun hmem =>
          hkept ((recent_mem_evictions h hids hdpool).mpr hmem)
      refine seq_lt_of_sorted hids (fun e he => ?_) hnodupR hsortedR hcgone hdkept
      exact (mem_recents.mp (hpoolR ▸ he)).1
    | true =>
      have hcpool := mem_baselines.mpr ⟨hc, hbaseline⟩
      have hdpool := mem_baselines.mpr ⟨hd, hsame ▸ hbaseline⟩
      have hcgone := (baseline_mem_evictions h hids hcpool).mp hgone
      have hdkept : d ∈ kb :=
        (List.mem_append.mp (hpoolB ▸ hdpool)).resolve_left fun hmem =>
          hkept ((baseline_mem_evictions h hids hdpool).mpr hmem)
      refine seq_lt_of_sorted hids (fun e he => ?_) hnodupB hsortedB hcgone hdkept
      exact (mem_baselines.mp (hpoolB ▸ he)).1
  · intro c hc hbaseline hgone
    have hcgone := (baseline_mem_evictions h hids (mem_baselines.mpr ⟨hc, hbaseline⟩)).mp hgone
    by_contra hfits
    push Not at hfits
    rw [hpoolB, List.length_append, totalBytes_append] at hfits
    rw [h.baselinesStay hfits.1 hfits.2] at hcgone
    cases hcgone
  · intro older c newer hsplit hgone
    have hmem : c ∈ recents checkpoints := by
      rw [hsplit]
      exact List.mem_append_right _ List.mem_cons_self
    have hcgone := (recent_mem_evictions h hids hmem).mp hgone
    refine (needed_of_mem hnodupR (hpoolR.symm.trans hsplit) hcgone h.recentsCounted).imp_right ?_
    rintro ⟨front, last, hlast, hle⟩
    have hover := h.recentBytes front last hlast
    have hbeside := newestBaselines_bytes h
    omega
  · intro older c newer hsplit hgone
    have hmem : c ∈ baselines checkpoints := by
      rw [hsplit]
      exact List.mem_append_right _ List.mem_cons_self
    have hcgone := (baseline_mem_evictions h hids hmem).mp hgone
    refine (needed_of_mem hnodupB (hpoolB.symm.trans hsplit) hcgone h.baselinesCounted).imp_right ?_
    rintro ⟨front, last, hlast, hle⟩
    have hover := h.baselineBytes front last hlast
    omega
  · exact evictionsChecked_eq htotal

/-! ## Samples -/

def sampleCheckpoint (seq bytes : Nat) (baseline : Bool) : Checkpoint :=
  ⟨seq, ["a"], true, bytes, 0, baseline⟩

/-- One byte, then 33 files that are a little too large together. -/
def smallThenLarge : List Checkpoint :=
  sampleCheckpoint 0 1 false ::
    (List.range 33).map fun i => sampleCheckpoint (i + 1) (snapshotBytesMax - 1) false

theorem evictions_in_order_small :
    evictions smallThenLarge = [0, 1] ∧ EvictsInOrder smallThenLarge :=
  ⟨by decide +kernel, evictions_in_order (by decide +kernel) (by decide +kernel)⟩

/-- The list is within the three bounds. -/
def Within (checkpoints : List Checkpoint) : Prop :=
  (recents checkpoints).length ≤ recentCheckpointsMax ∧
    (baselines checkpoints).length ≤ baselineCheckpointsMax ∧
      totalBytes checkpoints ≤ sessionBytesMax

instance decidableWithin (checkpoints : List Checkpoint) : Decidable (Within checkpoints) :=
  inferInstanceAs (Decidable (_ ∧ _ ∧ _))

/-- A baseline with the number of the oldest of too many recent checkpoints. -/
def sharedNumber : List Checkpoint :=
  sampleCheckpoint 0 1 true :: (List.range 101).map fun i => sampleCheckpoint i 1 false

/-- The small checkpoint could have stayed. The baseline goes with the recent checkpoint of its
number. Two sizes of `2 ^ 63` have no sum in `u64`. -/
theorem evictions_drop_small :
    (sampleCheckpoint 0 1 false ∈ smallThenLarge ∧ 0 ∈ evictions smallThenLarge ∧
      Within (surviving smallThenLarge ++ [sampleCheckpoint 0 1 false])) ∧
    (baselines sharedNumber = [sampleCheckpoint 0 1 true] ∧ baselines (surviving sharedNumber) = []) ∧
    evictionsChecked [sampleCheckpoint 0 (2 ^ 63) false, sampleCheckpoint 1 (2 ^ 63) false] = none := by
  refine ⟨⟨List.mem_cons_self, ?_, ?_⟩, ⟨?_, ?_⟩, ?_⟩
  all_goals decide +kernel

end Nanna.Scripting
