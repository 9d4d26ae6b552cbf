import Nanna.Scripting.FileHistory
import Mathlib.Algebra.BigOperators.Group.List.Basic

/-!
# What eviction drops

`evictions_spec`: from checkpoints in the order of their numbers, eviction drops a first part of the
recent ones and a first part of the baselines, and what stays is within the three bounds. It turns to
the baselines only when they alone break a bound; a baseline that is the newest stays, and a recent
checkpoint that is the newest stays exactly when the baselines leave room for its bytes.
-/

namespace Nanna.Scripting

/-! ## One loop -/

@[simp] theorem totalBytes_nil : totalBytes [] = 0 := rfl

@[simp] theorem totalBytes_cons (c : Checkpoint) (cs : List Checkpoint) :
    totalBytes (c :: cs) = c.bytes + totalBytes cs := List.sum_cons

@[simp] theorem totalBytes_append (cs ds : List Checkpoint) :
    totalBytes (cs ++ ds) = totalBytes cs + totalBytes ds := by
  rw [totalBytes, List.map_append, List.sum_append]
  rfl

/-- A loop drops a first part of its pool, and stops where its condition fails. -/
structure Drops (exceeds : Nat → Nat → Bool) (pool : List Checkpoint) (bytes : Nat) (dropped : List Nat)
    (gone : List Checkpoint) (out : Pool) : Prop where
  pool : pool = gone ++ out.kept
  bytes : bytes = out.bytes + totalBytes gone
  dropped : out.dropped = dropped ++ gone.map (·.seq)
  done : out.kept = [] ∨ exceeds out.kept.length out.bytes = false
  /-- The last one dropped had to go. -/
  last : ∀ pre c, gone = pre ++ [c] → exceeds (out.kept.length + 1) (out.bytes + c.bytes) = true

theorem dropOldestWhile_spec (exceeds : Nat → Nat → Bool) (pool : List Checkpoint) (bytes : Nat)
    (dropped : List Nat) (hbytes : totalBytes pool ≤ bytes) :
    ∃ gone, Drops exceeds pool bytes dropped gone (dropOldestWhile exceeds pool bytes dropped) := by
  induction pool generalizing bytes dropped with
  | nil => exact ⟨[], rfl, rfl, by simp [dropOldestWhile], .inl rfl, by simp⟩
  | cons oldest pool ih =>
    rw [totalBytes_cons] at hbytes
    rw [dropOldestWhile]
    split
    · rename_i hover
      obtain ⟨gone, hdrops⟩ := ih (bytes - oldest.bytes) (dropped ++ [oldest.seq]) (by omega)
      generalize dropOldestWhile exceeds pool (bytes - oldest.bytes) (dropped ++ [oldest.seq]) = out
        at hdrops
      have hsum := hdrops.bytes
      refine ⟨oldest :: gone, by rw [List.cons_append, ← hdrops.pool], ?_, ?_, hdrops.done, ?_⟩
      · rw [totalBytes_cons]
        omega
      · rw [hdrops.dropped, List.map_cons, List.append_assoc]
        rfl
      · intro pre c hgone
        cases pre with
        | nil =>
          obtain ⟨rfl, rfl⟩ := List.cons.inj hgone
          have hpool : pool = out.kept := hdrops.pool
          have htotal : bytes = out.bytes + oldest.bytes := by
            rw [totalBytes_nil] at hsum
            omega
          rw [← hpool, ← htotal]
          exact hover
        | cons first pre => exact hdrops.last pre c (List.cons.inj hgone).2
    · rename_i hover
      exact ⟨[], rfl, rfl, by simp, .inr (by simpa using hover), by simp⟩

/-! ## The three bounds -/

/-- Checkpoints in the order of their numbers. -/
def Ordered (checkpoints : List Checkpoint) : Prop := checkpoints.Pairwise fun a b => a.seq < b.seq

theorem recents_eq {checkpoints : List Checkpoint} (h : Ordered checkpoints) :
    recents checkpoints = checkpoints.filter fun c => !c.baseline :=
  List.Pairwise.insertionSort_eq ((h.filter _).imp Nat.le_of_lt)

theorem baselines_eq {checkpoints : List Checkpoint} (h : Ordered checkpoints) :
    baselines checkpoints = checkpoints.filter fun c => c.baseline :=
  List.Pairwise.insertionSort_eq ((h.filter _).imp Nat.le_of_lt)

theorem totalBytes_partition (checkpoints : List Checkpoint) :
    totalBytes checkpoints = totalBytes (checkpoints.filter fun c => !c.baseline) +
      totalBytes (checkpoints.filter fun c => c.baseline) := by
  induction checkpoints with
  | nil => rfl
  | cons c checkpoints ih => cases hc : c.baseline <;> simp [hc, ih] <;> omega

/-- What eviction drops of each pool, and what it keeps. -/
structure Evicted (checkpoints : List Checkpoint) (dropped : List Nat)
    (goneRecents keptRecents goneBaselines keptBaselines : List Checkpoint) : Prop where
  recents : (checkpoints.filter fun c => !c.baseline) = goneRecents ++ keptRecents
  baselines : (checkpoints.filter fun c => c.baseline) = goneBaselines ++ keptBaselines
  dropped : ∀ seq, seq ∈ dropped ↔ seq ∈ (goneRecents ++ goneBaselines).map (·.seq)
  recentCount : keptRecents.length ≤ recentCheckpointsMax
  baselineCount : keptBaselines.length ≤ baselineCheckpointsMax
  bytes : totalBytes keptRecents + totalBytes keptBaselines ≤ sessionBytesMax
  /-- Baselines that break no bound alone stay. -/
  baselinesStay : goneBaselines.length + keptBaselines.length ≤ baselineCheckpointsMax →
    totalBytes goneBaselines + totalBytes keptBaselines ≤ sessionBytesMax → goneBaselines = []
  /-- Then the newest recent checkpoint goes only for want of room beside them. -/
  newestRecent : ∀ pre c, goneRecents ++ keptRecents = pre ++ [c] → goneBaselines = [] →
    (keptRecents = [] ↔ sessionBytesMax < totalBytes keptBaselines + c.bytes)
  newestBaseline : ∀ pre c, goneBaselines ++ keptBaselines = pre ++ [c] →
    c.bytes ≤ sessionBytesMax → keptBaselines ≠ []

theorem Drops.length_le {limit : Nat} {pool gone : List Checkpoint} {bytes : Nat}
    {dropped : List Nat} {out : Pool}
    (h : Drops (fun count _ => decide (limit < count)) pool bytes dropped gone out) :
    out.kept.length ≤ limit := by
  rcases h.done with hnil | hunder
  · rw [hnil]
    exact Nat.zero_le _
  · exact Nat.le_of_not_lt (of_decide_eq_false hunder)

theorem exists_concat_of_append {gone kept pre : List Checkpoint} {c : Checkpoint}
    (h : gone ++ kept = pre ++ [c]) (hkept : kept ≠ []) : ∃ pre', kept = pre' ++ [c] := by
  obtain ⟨pre', c', hsplit⟩ := List.eq_nil_or_concat kept |>.resolve_left hkept
  rw [List.concat_eq_append] at hsplit
  rw [hsplit, ← List.append_assoc] at h
  obtain ⟨-, hlast⟩ := List.append_inj' h rfl
  exact ⟨pre', by rw [hsplit, hlast]⟩

theorem totalBytes_perm {cs ds : List Checkpoint} (h : cs.Perm ds) : totalBytes cs = totalBytes ds :=
  (h.map _).sum_eq

/-- The bytes of both pools. -/
theorem totalBytes_pools (checkpoints : List Checkpoint) :
    totalBytes checkpoints = totalBytes (recents checkpoints) + totalBytes (baselines checkpoints) := by
  rw [totalBytes_partition, recents, baselines, totalBytes_perm (List.perm_insertionSort _ _),
    totalBytes_perm (List.perm_insertionSort _ _)]

/-- What the loops drop of each pool, by count and then by bytes, and what they keep. -/
structure Phases (checkpoints : List Checkpoint) (dropped : List Nat)
    (countedRecents heavyRecents keptRecents countedBaselines heavyBaselines keptBaselines :
      List Checkpoint) : Prop where
  recents : recents checkpoints = countedRecents ++ (heavyRecents ++ keptRecents)
  baselines : baselines checkpoints = countedBaselines ++ (heavyBaselines ++ keptBaselines)
  dropped : dropped =
    (countedRecents ++ countedBaselines ++ heavyRecents ++ heavyBaselines).map (·.seq)
  recentCount : (heavyRecents ++ keptRecents).length ≤ recentCheckpointsMax
  baselineCount : (heavyBaselines ++ keptBaselines).length ≤ baselineCheckpointsMax
  bytes : totalBytes keptRecents + totalBytes keptBaselines ≤ sessionBytesMax
  /-- A count loop stops at its bound. -/
  recentsCounted : countedRecents ≠ [] → (heavyRecents ++ keptRecents).length = recentCheckpointsMax
  baselinesCounted :
    countedBaselines ≠ [] → (heavyBaselines ++ keptBaselines).length = baselineCheckpointsMax
  /-- The last one dropped for its bytes had to go. -/
  recentBytes : ∀ pre c, heavyRecents = pre ++ [c] →
    sessionBytesMax < c.bytes + totalBytes keptRecents + totalBytes (heavyBaselines ++ keptBaselines)
  baselineBytes : ∀ pre c, heavyBaselines = pre ++ [c] →
    sessionBytesMax < c.bytes + totalBytes keptBaselines
  recentsGone : heavyBaselines ≠ [] → keptRecents = []

/-- A count loop that drops something stops at its bound. -/
theorem Drops.length_eq {limit : Nat} {pool gone : List Checkpoint} {bytes : Nat}
    {dropped : List Nat} {out : Pool}
    (h : Drops (fun count _ => decide (limit < count)) pool bytes dropped gone out) (hgone : gone ≠ []) :
    out.kept.length = limit := by
  obtain ⟨pre, c, hsplit⟩ := List.eq_nil_or_concat gone |>.resolve_left hgone
  rw [List.concat_eq_append] at hsplit
  have hover := of_decide_eq_true (h.last pre c hsplit)
  have hle := h.length_le
  omega

/-- A loop leaves the running total ahead of its pool by as much as before. -/
theorem Drops.balance {exceeds : Nat → Nat → Bool} {pool gone : List Checkpoint} {bytes : Nat}
    {dropped : List Nat} {out : Pool} (h : Drops exceeds pool bytes dropped gone out) :
    out.bytes + totalBytes pool = bytes + totalBytes out.kept := by
  have hbytes := h.bytes
  have hpool := congrArg totalBytes h.pool
  rw [totalBytes_append] at hpool
  omega

theorem evictions_phases (checkpoints : List Checkpoint) :
    ∃ countedRecents heavyRecents keptRecents countedBaselines heavyBaselines keptBaselines,
      Phases checkpoints (evictions checkpoints) countedRecents heavyRecents keptRecents
        countedBaselines heavyBaselines keptBaselines := by
  have htotal := totalBytes_pools checkpoints
  unfold evictions
  generalize hrs : recents checkpoints = rs at htotal ⊢
  generalize hbs : baselines checkpoints = bs at htotal ⊢
  simp only
  -- the count loops
  obtain ⟨g₁, h₁⟩ := dropOldestWhile_spec (fun count _ => decide (recentCheckpointsMax < count)) rs
    (totalBytes checkpoints) [] (by omega)
  generalize dropOldestWhile (fun count _ => decide (recentCheckpointsMax < count)) rs
    (totalBytes checkpoints) [] = r₁ at h₁ ⊢
  have hb₁ := h₁.balance
  obtain ⟨g₂, h₂⟩ := dropOldestWhile_spec (fun count _ => decide (baselineCheckpointsMax < count)) bs
    r₁.bytes r₁.dropped (by omega)
  generalize dropOldestWhile (fun count _ => decide (baselineCheckpointsMax < count)) bs
    r₁.bytes r₁.dropped = b₁ at h₂ ⊢
  have hb₂ := h₂.balance
  -- the loop on the bytes
  obtain ⟨g₃, h₃⟩ := dropOldestWhile_spec (fun _ bytes => decide (sessionBytesMax < bytes)) r₁.kept
    b₁.bytes b₁.dropped (by omega)
  generalize dropOldestWhile (fun _ bytes => decide (sessionBytesMax < bytes)) r₁.kept
    b₁.bytes b₁.dropped = r₂ at h₃ ⊢
  have hb₃ := h₃.balance
  have hrecents := h₁.pool
  rw [h₃.pool] at hrecents
  have hcount := h₁.length_le
  have hcounted := h₁.length_eq
  rw [h₃.pool] at hcount hcounted
  have hdropped : r₂.dropped = (g₁ ++ g₂ ++ g₃).map (·.seq) := by
    rw [h₃.dropped, h₂.dropped, h₁.dropped]
    simp
  by_cases hleft : r₂.kept = []
  · rw [if_pos (List.isEmpty_iff.mpr hleft)]
    obtain ⟨g₄, h₄⟩ := dropOldestWhile_spec (fun _ bytes => decide (sessionBytesMax < bytes)) b₁.kept
      r₂.bytes r₂.dropped (by rw [hleft, totalBytes_nil] at hb₃; omega)
    generalize dropOldestWhile (fun _ bytes => decide (sessionBytesMax < bytes)) b₁.kept
      r₂.bytes r₂.dropped = b₂ at h₄ ⊢
    have hb₄ := h₄.balance
    have hcount₂ := h₂.length_le
    have hcounted₂ := h₂.length_eq
    rw [h₄.pool] at hcount₂ hcounted₂
    have hkept : totalBytes r₂.kept = 0 := by rw [hleft, totalBytes_nil]
    refine ⟨g₁, g₃, r₂.kept, g₂, g₄, b₂.kept, ?_⟩
    refine ⟨hrs.trans hrecents, hbs.trans (by rw [← h₄.pool, ← h₂.pool]), ?_, hcount, hcount₂, ?_,
      hcounted, hcounted₂, fun pre c hsplit => ?_, fun pre c hsplit => ?_, fun _ => hleft⟩
    · rw [h₄.dropped, hdropped]
      simp
    · rcases h₄.done with hnil | hunder
      · rw [hnil, hkept]
        exact Nat.zero_le _
      · have hunder := of_decide_eq_false hunder
        omega
    · have hover := of_decide_eq_true (h₃.last pre c hsplit)
      rw [← h₄.pool]
      omega
    · have hover := of_decide_eq_true (h₄.last pre c hsplit)
      omega
  · rw [if_neg (by simpa using hleft)]
    refine ⟨g₁, g₃, r₂.kept, g₂, [], b₁.kept, ?_⟩
    refine ⟨hrs.trans hrecents, hbs.trans h₂.pool, ?_, hcount, h₂.length_le, ?_, hcounted,
      h₂.length_eq, fun pre c hsplit => ?_, fun pre c hsplit => ?_, fun hne => absurd rfl hne⟩
    · rw [hdropped, List.append_nil]
    · have hunder := of_decide_eq_false (h₃.done.resolve_left hleft)
      omega
    · have hover := of_decide_eq_true (h₃.last pre c hsplit)
      rw [List.nil_append]
      omega
    · exact absurd hsplit.symm (List.append_ne_nil_of_right_ne_nil _ (List.cons_ne_nil _ _))

section Phases

variable {checkpoints countedRecents heavyRecents keptRecents countedBaselines heavyBaselines
  keptBaselines pre : List Checkpoint} {dropped : List Nat} {c : Checkpoint}

/-- The newest recent checkpoint, where all are dropped, went for its bytes. -/
theorem Phases.newestRecent_bytes
    (h : Phases checkpoints dropped countedRecents heavyRecents keptRecents countedBaselines
      heavyBaselines keptBaselines)
    (hnewest : countedRecents ++ heavyRecents ++ keptRecents = pre ++ [c]) (hkept : keptRecents = []) :
    sessionBytesMax < c.bytes + totalBytes (heavyBaselines ++ keptBaselines) := by
  subst hkept
  rw [List.append_nil] at hnewest
  have hne : heavyRecents ≠ [] := by
    intro hnil
    subst hnil
    rw [List.append_nil] at hnewest
    have hfull := h.recentsCounted (by rw [hnewest]; simp)
    cases hfull
  obtain ⟨pre', hsplit⟩ := exists_concat_of_append hnewest hne
  have hover := h.recentBytes pre' c hsplit
  rw [totalBytes_nil] at hover
  omega

theorem Phases.newestBaseline_bytes
    (h : Phases checkpoints dropped countedRecents heavyRecents keptRecents countedBaselines
      heavyBaselines keptBaselines)
    (hnewest : countedBaselines ++ heavyBaselines ++ keptBaselines = pre ++ [c])
    (hkept : keptBaselines = []) : sessionBytesMax < c.bytes := by
  subst hkept
  rw [List.append_nil] at hnewest
  have hne : heavyBaselines ≠ [] := by
    intro hnil
    subst hnil
    rw [List.append_nil] at hnewest
    have hfull := h.baselinesCounted (by rw [hnewest]; simp)
    cases hfull
  obtain ⟨pre', hsplit⟩ := exists_concat_of_append hnewest hne
  have hover := h.baselineBytes pre' c hsplit
  rwa [totalBytes_nil] at hover

/-- Baselines that break no bound alone stay. -/
theorem Phases.baselinesStay
    (h : Phases checkpoints dropped countedRecents heavyRecents keptRecents countedBaselines
      heavyBaselines keptBaselines)
    (hcount : (countedBaselines ++ heavyBaselines).length + keptBaselines.length ≤ baselineCheckpointsMax)
    (hbytes : totalBytes (countedBaselines ++ heavyBaselines) + totalBytes keptBaselines ≤ sessionBytesMax) :
    countedBaselines ++ heavyBaselines = [] := by
  have hcounted : countedBaselines = [] := by
    by_contra hne
    have hfull := h.baselinesCounted hne
    have hpos := List.length_pos_iff.mpr hne
    simp only [List.length_append] at hfull hcount
    omega
  rcases List.eq_nil_or_concat heavyBaselines with hnil | ⟨pre, c, hsplit⟩
  · rw [hcounted, hnil]
    rfl
  · rw [List.concat_eq_append] at hsplit
    have hover := h.baselineBytes pre c hsplit
    rw [hcounted, hsplit] at hbytes
    simp only [List.nil_append, totalBytes_append, totalBytes_cons, totalBytes_nil] at hbytes
    omega

end Phases

theorem evictions_spec {checkpoints : List Checkpoint} (h : Ordered checkpoints) :
    ∃ goneRecents keptRecents goneBaselines keptBaselines, Evicted checkpoints
      (evictions checkpoints) goneRecents keptRecents goneBaselines keptBaselines := by
  obtain ⟨cr, hr, kr, cb, hb, kb, hphases⟩ := evictions_phases checkpoints
  have hrecents := hphases.recents
  have hbaselines := hphases.baselines
  have hcountR := hphases.recentCount
  have hcountB := hphases.baselineCount
  rw [recents_eq h, ← List.append_assoc] at hrecents
  rw [baselines_eq h, ← List.append_assoc] at hbaselines
  rw [List.length_append] at hcountR hcountB
  refine ⟨cr ++ hr, kr, cb ++ hb, kb, ?_⟩
  refine ⟨hrecents, hbaselines, fun seq => ?_, by omega, by omega, hphases.bytes,
    hphases.baselinesStay, fun pre c hnewest hgone => ?_, fun pre c hnewest hsmall hkept => ?_⟩
  · rw [hphases.dropped]
    simp only [List.map_append, List.mem_append]
    tauto
  · obtain ⟨-, rfl⟩ := List.append_eq_nil_iff.mp hgone
    refine ⟨fun hkept => ?_, fun hover => ?_⟩
    · have hbytes := hphases.newestRecent_bytes hnewest hkept
      rw [List.nil_append] at hbytes
      omega
    · by_contra hne
      obtain ⟨pre', hsplit⟩ := exists_concat_of_append hnewest hne
      have hbytes := hphases.bytes
      rw [hsplit, totalBytes_append, totalBytes_cons, totalBytes_nil] at hbytes
      omega
  · have hover := hphases.newestBaseline_bytes hnewest hkept
    omega

/-! ## What stays -/

section Evicted

variable {checkpoints goneRecents keptRecents goneBaselines keptBaselines : List Checkpoint}

/-- The checkpoints that eviction leaves. -/
def surviving (checkpoints : List Checkpoint) : List Checkpoint :=
  checkpoints.filter fun c => c.seq ∉ evictions checkpoints

theorem seq_inj (h : Ordered checkpoints) {c d : Checkpoint} (hc : c ∈ checkpoints)
    (hd : d ∈ checkpoints) (hseq : c.seq = d.seq) : c = d := by
  have hnodup : (checkpoints.map (·.seq)).Nodup :=
    List.pairwise_map.mpr (h.imp fun hlt => Nat.ne_of_lt hlt)
  exact List.inj_on_of_nodup_map hnodup hc hd hseq

theorem filter_dropped {gone kept : List Checkpoint} {dropped : List Nat}
    (hgone : ∀ c ∈ gone, c.seq ∈ dropped) (hkept : ∀ c ∈ kept, c.seq ∉ dropped) :
    ((gone ++ kept).filter fun c => c.seq ∉ dropped) = kept := by
  have hnone : (gone.filter fun c => c.seq ∉ dropped) = [] := by
    refine List.filter_eq_nil_iff.mpr fun c hc => ?_
    simpa using hgone c hc
  have hall : (kept.filter fun c => c.seq ∉ dropped) = kept :=
    List.filter_eq_self.mpr fun c hc => decide_eq_true (hkept c hc)
  rw [List.filter_append, hnone, hall, List.nil_append]

theorem filter_gone {gone kept : List Checkpoint} {dropped : List Nat} (hnodup : (gone ++ kept).Nodup)
    (hmem : ∀ c ∈ gone ++ kept, c.seq ∈ dropped ↔ c ∈ gone) :
    ((gone ++ kept).filter fun c => c.seq ∉ dropped) = kept := by
  refine filter_dropped (fun c hc => (hmem c (List.mem_append_left _ hc)).mpr hc) fun c hc hseq => ?_
  exact List.disjoint_of_nodup_append hnodup ((hmem c (List.mem_append_right _ hc)).mp hseq) hc

/-- Filtering by number leaves of a pool what its loops kept. -/
theorem filter_pool (h : Ordered checkpoints) {p : Checkpoint → Bool} {dropped : List Nat}
    {gone kept : List Checkpoint} (hpool : checkpoints.filter p = gone ++ kept)
    (hdropped : ∀ c ∈ checkpoints, p c = true → (c.seq ∈ dropped ↔ c ∈ gone)) :
    (checkpoints.filter fun c => c.seq ∉ dropped).filter p = kept := by
  have hnodup : (gone ++ kept).Nodup := by
    rw [← hpool]
    exact ((h.imp fun hlt => (ne_of_apply_ne Checkpoint.seq (Nat.ne_of_lt hlt)))).filter _
  rw [List.filter_filter]
  simp only [Bool.and_comm (p _)]
  rw [← List.filter_filter, hpool]
  refine filter_gone hnodup fun c hc => ?_
  rw [← hpool] at hc
  obtain ⟨hc, hp⟩ := List.mem_filter.mp hc
  exact hdropped c hc hp

theorem Evicted.mem_dropped_iff (h : Ordered checkpoints)
    (he : Evicted checkpoints (evictions checkpoints) goneRecents keptRecents goneBaselines
      keptBaselines) {c : Checkpoint} (hc : c ∈ checkpoints) :
    c.seq ∈ evictions checkpoints ↔ c ∈ goneRecents ++ goneBaselines := by
  rw [he.dropped]
  refine ⟨fun hseq => ?_, fun hmem => List.mem_map_of_mem hmem⟩
  obtain ⟨d, hd, hsame⟩ := List.mem_map.mp hseq
  have hdmem : d ∈ checkpoints := by
    rcases List.mem_append.mp hd with hd | hd
    · exact (List.mem_filter.mp (he.recents ▸ List.mem_append_left _ hd)).1
    · exact (List.mem_filter.mp (he.baselines ▸ List.mem_append_left _ hd)).1
  rw [← seq_inj h hdmem hc hsame]
  exact hd

theorem Evicted.surviving_recents (h : Ordered checkpoints)
    (he : Evicted checkpoints (evictions checkpoints) goneRecents keptRecents goneBaselines
      keptBaselines) : ((surviving checkpoints).filter fun c => !c.baseline) = keptRecents := by
  refine filter_pool h he.recents fun c hc hp => ?_
  rw [he.mem_dropped_iff h hc, List.mem_append]
  refine ⟨fun hmem => hmem.resolve_right fun hgone => ?_, .inl⟩
  have hbaseline := (List.mem_filter.mp (he.baselines ▸ List.mem_append_left _ hgone)).2
  simp [hbaseline] at hp

theorem Evicted.surviving_baselines (h : Ordered checkpoints)
    (he : Evicted checkpoints (evictions checkpoints) goneRecents keptRecents goneBaselines
      keptBaselines) : ((surviving checkpoints).filter fun c => c.baseline) = keptBaselines := by
  refine filter_pool h he.baselines fun c hc hp => ?_
  rw [he.mem_dropped_iff h hc, List.mem_append]
  refine ⟨fun hmem => hmem.resolve_left fun hgone => ?_, .inr⟩
  have hrecent := (List.mem_filter.mp (he.recents ▸ List.mem_append_left _ hgone)).2
  simp [hp] at hrecent

end Evicted

end Nanna.Scripting
