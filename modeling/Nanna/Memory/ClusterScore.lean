import Mathlib.Algebra.Order.Field.Basic
import Mathlib.Algebra.Order.Field.Rat
import Mathlib.Tactic.Linarith
import Nanna.Memory.Envelope

/-!
# The score that clusters, and its ceiling

`clusters_partition_and_prune_exact`: the clusters are the memories, grouped, and what joined a seed
has its scope and a score that is not below the threshold, within the two caps; in exact arithmetic
the ceiling that `score_or_prune` tests first changes no cluster. A cap of zero still leaves the seed
its cluster, and the seed is not scored against itself (`lone_seed_over_cap`).

Proof. One memory gathered keeps what the group says of its seed (`grouped_gather`). The ceiling is
the score of a perfect cosine, so a pair below it is below the threshold anyway (`score_le_ceiling`),
and the two runs decide every pair alike (`clusterUnassigned_congr`).
-/

namespace Nanna.Memory

open Nanna.Lib

/-! ## The score -/

/-- `f32`, with what the composite score computes on it. -/
class ScoreScalar (F : Type) extends Scalar F, Add F, Sub F, Mul F where
  abs : F → F
  sqrt : F → F
  /-- `a.mul_add(b, c)`, rounded once. -/
  mulAdd : F → F → F → F
  /-- `lossy_f32`. -/
  lossy : Nat → F
  /-- `dot_product_f32`. -/
  dot : List F → List F → F

section Score

variable {F : Type} [ScoreScalar F]

open ScoreScalar

def ClusteringWeights.total (weights : ClusteringWeights F) : F :=
  weights.similarity + weights.recallAffinity + weights.importanceProximity + weights.ageProximity

/-- Equal access counts are peers. -/
def recallAffinity (a b : MemoryEntry F) : F :=
  let recallA : F := lossy a.fsrs.accessCount
  let recallB : F := lossy b.fsrs.accessCount
  1.0 - abs (recallA - recallB) / fmax (fmax recallA recallB) 1.0

def importanceProx (a b : MemoryEntry F) : F :=
  fmax (1.0 - abs (a.fsrs.importance - b.fsrs.importance) / 5.0) 0.0

/-- The gap as a fraction of the store's lifetime; `i64` wraps in the release build. -/
def ageProx (a b : MemoryEntry F) (weights : ClusteringWeights F) : F :=
  let ageDiffMinutes := lossy (Int.bmod (a.timestamp - b.timestamp) (2 ^ 64)).natAbs / 60.0
  clamp (1.0 - ageDiffMinutes / fmax weights.timeSpanMinutes 1.0) 0.0 1.0

/-- `cheap_terms`, its `weighted_sum`. -/
def cheapTerms (a b : MemoryEntry F) (weights : ClusteringWeights F) : F :=
  mulAdd weights.ageProximity (ageProx a b weights)
    (mulAdd weights.importanceProximity (importanceProx a b) (weights.recallAffinity * recallAffinity a b))

def l2Norm (v : List F) : F := if v.isEmpty then 0.0 else sqrt (dot v v)

/-- Zero on a width mismatch, on an empty vector and on anything non-finite. -/
def cosineWithNorms (a : List F) (normA : F) (b : List F) (normB : F) : F :=
  if a.length ≠ b.length ∨ a.isEmpty then 0.0
  else
    let sim := dot a b / (normA * normB)
    if Scalar.isFinite sim then sim else 0.0

/-- The best score of the pair, whatever its embeddings say. -/
def scoreCeiling (a b : MemoryEntry F) (weights : ClusteringWeights F) : F :=
  (weights.similarity + cheapTerms a b weights) / weights.total

/-- What `score_or_prune` computes of a pair it does not prune. -/
def fullScore (a : MemoryEntry F) (normA : F) (b : MemoryEntry F) (normB : F)
    (weights : ClusteringWeights F) : F :=
  let sim := fmax (cosineWithNorms a.embedding normA b.embedding normB) 0.0
  if !isNan weights.total && !decide (0.0 < weights.total) then sim
  else mulAdd weights.similarity sim (cheapTerms a b weights) / weights.total

def scoreOrPrune (a : MemoryEntry F) (normA : F) (b : MemoryEntry F) (normB : F)
    (weights : ClusteringWeights F) (threshold : F) : Option F :=
  if 0.0 < weights.total ∧ scoreCeiling a b weights < threshold then none
  else some (fullScore a normA b normB weights)

/-- `composite_cluster_score`. -/
def compositeClusterScore (a b : MemoryEntry F) (weights : ClusteringWeights F) : F :=
  fullScore a (l2Norm a.embedding) b (l2Norm b.embedding) weights

/-- A run that scores as the code does. -/
def Oracles.scoring (env : Oracles F) : Oracles F :=
  { env with scoreOrPrune := fun a b =>
      Nanna.Memory.scoreOrPrune a (l2Norm a.embedding) b (l2Norm b.embedding) }

/-- A run that scores every pair in full. -/
def Oracles.unpruned (env : Oracles F) : Oracles F :=
  { env with scoreOrPrune := fun a b weights _ => some (compositeClusterScore a b weights) }

end Score

/-! ## Groups -/

section Groups

variable {F : Type} [Scalar F]

/-- What joined a seed. -/
structure Grouped (env : Oracles F) (config : ConsolidationConfig F) (seed : MemoryEntry F)
    (joined : List (MemoryEntry F)) : Prop where
  scope : ∀ memory ∈ joined, memory.workspaceId = seed.workspaceId
  count : joined.length + 1 ≤ max config.maxClusterMemories 1
  bytes : joined ≠ [] → ((seed :: joined).map fun memory => Text.byteLen memory.content).sum ≤
    config.maxClusterContentBytes
  scored : ∀ memory ∈ joined, ∃ score,
    env.scoreOrPrune seed memory config.clusteringWeights config.clusterThreshold = some score ∧
      ¬score < config.clusterThreshold

variable {env : Oracles F} {config : ConsolidationConfig F} {seed memory : MemoryEntry F}
  {g : Gathering F}

/-- The group of the inner loop, and its bytes. -/
def Gathering.Holds (env : Oracles F) (config : ConsolidationConfig F) (seed : MemoryEntry F)
    (g : Gathering F) : Prop :=
  g.clusterBytes = (g.cluster.map fun memory => Text.byteLen memory.content).sum ∧
    ∃ joined, g.cluster = seed :: joined ∧ Grouped env config seed joined

theorem holds_start : Gathering.Holds env config seed ⟨[seed], Text.byteLen seed.content, []⟩ :=
  ⟨by simp, [], rfl, ⟨nofun, by simp, nofun, nofun⟩⟩

/-- One memory of the inner loop. -/
theorem grouped_gather (h : g.Holds env config seed) :
    (gather env config seed g memory).Holds env config seed := by
  unfold gather
  split_ifs with hjoins
  · obtain ⟨hbytes, joined, hcluster, hgroup⟩ := h
    simp only [joins, sameScope, Bool.and_eq_true, decide_eq_true_eq] at hjoins
    obtain ⟨⟨⟨hcount, hscope⟩, hscore⟩, hcap⟩ := hjoins
    have hsum : ((seed :: (joined ++ [memory])).map fun memory => Text.byteLen memory.content).sum =
        g.clusterBytes + Text.byteLen memory.content := by
      rw [hbytes, hcluster, ← List.cons_append, List.map_append, List.sum_append]
      simp
    refine ⟨?_, joined ++ [memory], ?_, ?_⟩
    · rw [← hsum, hcluster, List.cons_append]
    · rw [hcluster, List.cons_append]
    · refine ⟨fun other hother => ?_, ?_, fun _ => hsum ▸ hcap, fun other hother => ?_⟩
      · rcases List.mem_append.mp hother with hother | hother
        · exact hgroup.scope other hother
        · rw [List.mem_singleton.mp hother, hscope]
      · rw [hcluster, List.length_cons] at hcount
        rw [List.length_append, List.length_singleton]
        exact hcount
      · rcases List.mem_append.mp hother with hother | hother
        · exact hgroup.scored other hother
        · rw [List.mem_singleton.mp hother]
          cases hfound : env.scoreOrPrune seed memory config.clusteringWeights
              config.clusterThreshold with
          | none =>
            rw [hfound] at hscore
            cases hscore
          | some score =>
            rw [hfound] at hscore
            refine ⟨score, rfl, fun hlow => ?_⟩
            simp [hlow] at hscore
  · exact h

theorem grouped_foldl_gather : ∀ (memories : List (MemoryEntry F)) (g : Gathering F),
    g.Holds env config seed → (memories.foldl (gather env config seed) g).Holds env config seed
  | [], _, h => h
  | _ :: memories, _, h => grouped_foldl_gather memories _ (grouped_gather h)

/-- Each cluster is a seed and what joined it. -/
theorem grouped_clusterUnassigned : ∀ (fuel : Nat) (memories : List (MemoryEntry F)),
    ∀ cluster ∈ clusterUnassigned env config fuel memories, ∃ seed joined,
      cluster = seed :: joined ∧ Grouped env config seed joined
  | 0, _, _, hcluster => nomatch hcluster
  | _ + 1, [], _, hcluster => nomatch hcluster
  | fuel + 1, seed :: rest, cluster, hcluster => by
    rcases List.mem_cons.mp hcluster with rfl | hcluster
    · have hstart : Gathering.Holds env config seed ⟨[seed], Text.byteLen seed.content, []⟩ := holds_start
      obtain ⟨-, joined, hshape, hgroup⟩ := grouped_foldl_gather rest _ hstart
      exact ⟨seed, joined, hshape, hgroup⟩
    · exact grouped_clusterUnassigned fuel _ cluster hcluster

/-! ## Two runs that decide alike -/

variable {env' : Oracles F}

theorem foldl_gather_congr : ∀ (memories : List (MemoryEntry F)) (g : Gathering F),
    (∀ memory ∈ memories, ∀ g, joins env config seed g memory = joins env' config seed g memory) →
    memories.foldl (gather env config seed) g = memories.foldl (gather env' config seed) g
  | [], _, _ => rfl
  | memory :: memories, g, h => by
    have hstep : gather env config seed g memory = gather env' config seed g memory := by
      rw [gather, gather, h memory List.mem_cons_self]
    rw [List.foldl_cons, List.foldl_cons, hstep]
    exact foldl_gather_congr memories _ fun other hother => h other (List.mem_cons_of_mem _ hother)

variable (env config) in
theorem unassigned_subset (seed : MemoryEntry F) (rest : List (MemoryEntry F)) :
    (rest.foldl (gather env config seed) ⟨[seed], Text.byteLen seed.content, []⟩).unassigned ⊆
      seed :: rest := by
  obtain ⟨hperm, -, -⟩ := foldl_gather_spec env config seed rest
    ⟨[seed], Text.byteLen seed.content, []⟩ (by simp)
  intro memory hmemory
  have hmem := hperm.subset (List.mem_append_right _ hmemory)
  simpa using hmem

theorem clusterUnassigned_congr : ∀ (fuel : Nat) (memories : List (MemoryEntry F)),
    (∀ seed ∈ memories, ∀ memory ∈ memories, ∀ g,
      joins env config seed g memory = joins env' config seed g memory) →
    clusterUnassigned env config fuel memories = clusterUnassigned env' config fuel memories
  | 0, _, _ => rfl
  | _ + 1, [], _ => rfl
  | fuel + 1, seed :: rest, h => by
    have hgather := foldl_gather_congr rest ⟨[seed], Text.byteLen seed.content, []⟩
      fun memory hmemory => h seed List.mem_cons_self memory (List.mem_cons_of_mem _ hmemory)
    have hsubset := unassigned_subset env' config seed rest
    have hrest := clusterUnassigned_congr fuel _ fun seed' hseed memory hmemory =>
      h seed' (hsubset hseed) memory (hsubset hmemory)
    rw [clusterUnassigned, clusterUnassigned, hgather, hrest]

end Groups

/-! ## Exact arithmetic -/

/-- An ordered field: every number is finite, and nothing is rounded. -/
class ExactScalar (F : Type) extends ScoreScalar F, Field F, LinearOrder F, IsStrictOrderedRing F where
  isFinite_eq (x : F) : isFinite x = true
  mulAdd_eq (a b c : F) : mulAdd a b c = a * b + c
  zero_eq : (0.0 : F) = 0
  one_eq : (1.0 : F) = 1

section Exact

variable {F : Type} [ExactScalar F]

theorem isNan_eq_false (x : F) : isNan x = false := by
  simp [isNan, ExactScalar.isFinite_eq]

theorem fmax_eq (a b : F) : fmax a b = max a b := by
  rw [fmax, isNan_eq_false, isNan_eq_false, max_def]
  by_cases h : a < b
  · simp [h, h.le]
  · rcases eq_or_lt_of_le (not_lt.mp h) with heq | hlt
    · simp [heq]
    · simp [h, not_le.mpr hlt]

variable {a b : MemoryEntry F} {normA normB : F} {weights : ClusteringWeights F}

/-- The ceiling is the score of a perfect cosine. -/
theorem score_le_ceiling (hweight : 0 ≤ weights.similarity) (htotal : 0 < weights.total)
    (hcosine : cosineWithNorms a.embedding normA b.embedding normB ≤ 1) :
    fullScore a normA b normB weights ≤ scoreCeiling a b weights := by
  have hsim : max (cosineWithNorms a.embedding normA b.embedding normB) 0 ≤ 1 :=
    max_le hcosine zero_le_one
  rw [fullScore, isNan_eq_false, ExactScalar.zero_eq, if_neg (by simp [htotal]), ExactScalar.mulAdd_eq,
    fmax_eq, scoreCeiling]
  have hterm := mul_le_of_le_one_right hweight hsim
  gcongr

/-- The ceiling decides no pair that the score would not decide. -/
theorem joins_scoring_eq (env : Oracles F) (config : ConsolidationConfig F) {seed memory : MemoryEntry F}
    (hweight : 0 ≤ config.clusteringWeights.similarity)
    (hcosine : cosineWithNorms seed.embedding (l2Norm seed.embedding) memory.embedding
      (l2Norm memory.embedding) ≤ 1) (g : Gathering F) :
    joins env.scoring config seed g memory = joins env.unpruned config seed g memory := by
  unfold joins Oracles.scoring Oracles.unpruned scoreOrPrune compositeClusterScore
  dsimp only
  split_ifs with hprune
  · obtain ⟨htotal, hceiling⟩ := hprune
    rw [ExactScalar.zero_eq] at htotal
    have hlow := (score_le_ceiling hweight htotal hcosine).trans_lt hceiling
    simp [hlow]
  · rfl

end Exact

/-- **Main result.** -/
theorem clusters_partition_and_prune_exact :
    (∀ {F : Type} [ScoreScalar F] (env : Oracles F) (config : ConsolidationConfig F)
      (memories : List (MemoryEntry F)),
      (clusterMemories env.scoring config memories).flatten.Perm memories ∧
        ∀ cluster ∈ clusterMemories env.scoring config memories, ∃ seed joined,
          cluster = seed :: joined ∧ Grouped env.scoring config seed joined ∧
          ∀ memory ∈ joined, ¬compositeClusterScore seed memory config.clusteringWeights <
            config.clusterThreshold) ∧
    ∀ {F : Type} [ExactScalar F] (env : Oracles F) (config : ConsolidationConfig F)
      (memories : List (MemoryEntry F)),
      0 ≤ config.clusteringWeights.similarity → 0 ≤ config.clusteringWeights.recallAffinity →
      0 ≤ config.clusteringWeights.importanceProximity → 0 ≤ config.clusteringWeights.ageProximity →
      (∀ a ∈ memories, ∀ b ∈ memories,
        cosineWithNorms a.embedding (l2Norm a.embedding) b.embedding (l2Norm b.embedding) ∈
          Set.Icc (-1) 1) →
      clusterMemories env.scoring config memories = clusterMemories env.unpruned config memories := by
  refine ⟨fun env config memories => ⟨?_, fun cluster hcluster => ?_⟩,
    fun env config memories hweight _ _ _ hcosine => ?_⟩
  · exact (clusterUnassigned_spec env.scoring config _ memories le_rfl).1
  · obtain ⟨seed, joined, hshape, hgroup⟩ := grouped_clusterUnassigned _ _ cluster hcluster
    refine ⟨seed, joined, hshape, hgroup, fun memory hmemory => ?_⟩
    obtain ⟨score, hscore, hhigh⟩ := hgroup.scored memory hmemory
    have hscore : scoreOrPrune seed (l2Norm seed.embedding) memory (l2Norm memory.embedding)
        config.clusteringWeights config.clusterThreshold = some score := hscore
    obtain ⟨-, hscore⟩ := Option.ite_none_left_eq_some.mp hscore
    rwa [← Option.some.inj hscore] at hhigh
  · exact clusterUnassigned_congr _ memories fun seed hseed memory hmemory =>
      joins_scoring_eq env config hweight (hcosine seed hseed memory hmemory).2

/-! ## A lone seed -/

/-- Unit vectors again: the roots are of one. -/
local instance exactRat : ExactScalar ℚ where
  __ := (inferInstance : Scalar ℚ)
  __ := (inferInstance : Field ℚ)
  __ := (inferInstance : LinearOrder ℚ)
  toIsStrictOrderedRing := inferInstance
  abs x := |x|
  sqrt x := x
  mulAdd a b c := a * b + c
  lossy n := n
  dot a b := (List.zipWith (· * ·) a b).sum
  isFinite_eq _ := rfl
  mulAdd_eq _ _ _ := rfl
  zero_eq := by norm_num
  one_eq := by norm_num

/-- With a cap of zero and a threshold of two, the seed is a cluster nevertheless. -/
theorem lone_seed_over_cap :
    let seed : MemoryEntry ℚ := sampleEntry "a" "red".toList [1, 0] "m" none
    let config : ConsolidationConfig ℚ :=
      { sampleConfig with clusterThreshold := 2, maxClusterMemories := 0 }
    let clusters := clusterMemories flakyOracles.scoring config [seed]
    ¬(∀ cluster ∈ clusters, cluster.length ≤ config.maxClusterMemories) ∧
      ¬∀ cluster ∈ clusters, ∀ memory ∈ cluster, config.clusterThreshold ≤
        compositeClusterScore seed memory config.clusteringWeights := by
  intro seed config clusters
  have hclusters : clusters = [[seed]] := rfl
  have hscore : compositeClusterScore seed seed config.clusteringWeights = 1 := by
    decide +kernel
  rw [hclusters]
  exact ⟨by decide, fun h => absurd (hscore ▸ h _ List.mem_cons_self _ List.mem_cons_self) (by decide)⟩

end Nanna.Memory
