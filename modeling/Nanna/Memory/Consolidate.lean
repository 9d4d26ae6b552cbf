import Nanna.Memory.Dream

/-!
# A consolidation run

`consolidate` from its budget to its last cluster, with nothing else running: the bands by weight,
the two folds of a band, the clusters of what is left, and for each cluster the summary that
replaces it. The summarizer, the embedder, fresh ids and the arithmetic on `f32` are parameters
(`Oracles`); calls of the outside are numbered, so each may answer differently every time. A cluster
that is offered to the summarizer is noted with the store it found and the outcome (`Attempt`).
-/

namespace Nanna.Memory

open Nanna.Lib

variable {F : Type} [Scalar F]

/-! ## Configuration and parameters -/

structure ClusteringWeights (F : Type) where
  similarity : F
  recallAffinity : F
  importanceProximity : F
  ageProximity : F
  timeSpanMinutes : F

structure ConsolidationConfig (F : Type) where
  clusterThreshold : F
  minClusterSize : Nat
  maxClusterMemories : Nat
  maxClusterContentBytes : Nat
  maxCompressionRatio : F
  minRemainingMemories : Nat
  clusteringWeights : ClusteringWeights F

/-- What a run asks of the outside, and the arithmetic it does on scores. -/
structure Oracles (F : Type) where
  embed : Option (Nat → Text → EmbedReply F)
  summarize : Nat → Text → Except String Text
  uuid : Nat → String
  now : Int
  /-- `FsrsState::weight`. -/
  weight : FsrsState F → F
  nonSimilarityFloor : ClusteringWeights F → F
  /-- The composite score, `none` when the pair provably cannot reach the threshold. -/
  scoreOrPrune : MemoryEntry F → MemoryEntry F → ClusteringWeights F → F → Option F
  /-- The minutes between the oldest and the newest of the timestamps, at least one. -/
  spanMinutes : List Int → F
  /-- `f32_to_usize(total.lossy_f32() * ratio)`. -/
  scaled : Nat → F → Nat
  /-- The number to three decimals. -/
  fixed3 : F → String

/-- Cosine similarity cannot veto a merge under this configuration. -/
def ConsolidationConfig.validate (env : Oracles F) (config : ConsolidationConfig F) :
    Except String Unit :=
  let floor := env.nonSimilarityFloor config.clusteringWeights
  if !isNan floor && !isNan config.clusterThreshold && !decide (floor < config.clusterThreshold) then
    let shown := env.fixed3 floor
    let threshold := env.fixed3 config.clusterThreshold
    .error (s!"clustering config lets non-semantic terms alone form a cluster: the " ++
      s!"recall/importance/age floor is {shown} but cluster_threshold is " ++
      s!"{threshold}, so a pair with ZERO cosine similarity still clusters and " ++
      s!"semantic dissimilarity cannot veto a merge. Raise cluster_threshold " ++
      s!"above {shown}, or lower recall_affinity/importance_proximity/" ++
      s!"age_proximity relative to similarity.")
  else .ok ()

/-- The text of an error, as `{}` prints it. -/
def MemoryError.display : MemoryError → String
  | .dimensionMismatch expected got =>
    s!"Embedding dimension mismatch: expected {expected}, got {got}"
  | .notFound id => s!"Memory not found: {id}"
  | .noEmbeddingProvider =>
    "no embedding provider configured — set one in Settings, or run a local Ollama " ++
    "with an embedding model pulled, then memory search will work"
  | .io reason => s!"IO error: {reason}"

/-! ## The state of a run -/

structure ConsolidationResult where
  memoriesProcessed : Nat
  clustersFormed : Nat
  memoriesMerged : Nat
  memoriesDeduped : Nat
  memoriesExpanded : Nat
  errors : List String
deriving DecidableEq

/-- A cluster that was sent to the summarizer, with the store before and after. -/
structure Attempt (F : Type) where
  cluster : MemoryCluster F
  before : Store F
  outcome : Result Unit
  after : Store F

structure Cycle (F : Type) where
  svc : Service F
  /-- Calls of the outside so far. -/
  calls : Nat
  removalBudget : Nat
  result : ConsolidationResult
  attempts : List (Attempt F)

namespace Cycle

variable (c : Cycle F)

def start (svc : Service F) (removalBudget : Nat) : Cycle F :=
  ⟨svc, 0, removalBudget, ⟨0, 0, 0, 0, 0, []⟩, []⟩

def called : Cycle F := { c with calls := c.calls + 1 }

/-- After a call of the embedder. -/
def hear (reply : EmbedReply F) : Cycle F := { c with svc := c.svc.hear reply, calls := c.calls + 1 }

def setStore (store : Store F) : Cycle F := { c with svc := { c.svc with store } }

def processed (n : Nat) : Cycle F :=
  { c with result := { c.result with memoriesProcessed := c.result.memoriesProcessed + n } }

def error (text : String) : Cycle F :=
  { c with result := { c.result with errors := c.result.errors ++ [text] } }

def attempt (attempt : Attempt F) : Cycle F := { c with attempts := c.attempts ++ [attempt] }

end Cycle

variable (env : Oracles F)

/-! ## Folding -/

inductive DedupCommit (F : Type)
  | committed (newEmbedding : Option (List F))
  | stale

/-- The FSRS state passes to the survivor's row. -/
def inheritFold (c : Cycle F) (survivor source : MemoryEntry F) (newEmbedding : Option (List F)) :
    Result (DedupCommit F) × Cycle F :=
  match c.svc.store.updateFsrs survivor.id (inheritFsrs survivor source) with
  | .ok store => (.ok (.committed newEmbedding), c.setStore store)
  | .error e => (.error e, c)

def commitDuplicateFold (embed : Nat → Text → EmbedReply F) (c : Cycle F)
    (survivor source : MemoryEntry F) (merged : Text) : Result (DedupCommit F) × Cycle F :=
  if merged = survivor.content then
    if (c.svc.store.get survivor.id).any fun live => live.content.contains source.content.trim then
      inheritFold c survivor source none
    else (.ok .stale, c)
  else
    let reply := embed c.calls merged
    let c := c.hear reply
    match reply.result with
    | .error reason => (.error (.io reason), c)
    | .ok vector =>
      match rewriteWithBinding c.svc survivor.id merged vector survivor.content with
      | .error e => (.error e, c)
      | .ok (none, svc) => (.ok .stale, { c with svc })
      | .ok (some stored, svc) => inheritFold { c with svc } survivor source (some stored)

/-- One candidate of the fold. -/
def foldCandidate (embed : Nat → Text → EmbedReply F) (st : Fold F × Cycle F)
    (candidate : MemoryEntry F) : Fold F × Cycle F :=
  let (fold, c) := st
  let target :=
    if fold.foldedSources.length < fold.removalBudgetCount then
      findDuplicateTarget fold.survivors candidate
    else none
  match target with
  | none => (fold.keep candidate, c)
  | some survivor =>
    let incoming := candidate.content.trim
    let merged := mergeMemoryContent survivor.content incoming
    if !merged.contains incoming then (fold.keep candidate, c)
    else
      match commitDuplicateFold embed c survivor candidate merged with
      | (.ok (.committed newEmbedding), c) =>
        (fold.commit candidate survivor merged newEmbedding,
          { c with result := { c.result with memoriesDeduped := c.result.memoriesDeduped + 1 } })
      | (.ok .stale, c) => (fold.keep candidate, c)
      | (.error e, c) =>
        (fold.keep candidate, c.error s!"Dedup fold failed for {candidate.id}: {e.display}")

/-- Descending weight; the sort is stable. -/
def rankByWeight (memories : List (MemoryEntry F)) : List (MemoryEntry F) :=
  memories.insertionSort fun a b => ¬env.weight a.fsrs < env.weight b.fsrs

/-- `fold_near_duplicates`: the survivors, and the number of folds. -/
def foldNearDuplicates (c : Cycle F) (memories : List (MemoryEntry F)) (removalBudgetCount : Nat) :
    List (MemoryEntry F) × Nat × Cycle F :=
  if removalBudgetCount = 0 ∨ memories.length < 2 then (memories, 0, c)
  else
    match env.embed with
    | none => (memories, 0, c)
    | some embed =>
      let ranked := rankByWeight env memories
      let (fold, c) := ranked.foldl (foldCandidate embed) (Fold.start ranked removalBudgetCount, c)
      let pairs := fold.foldedSources.map fun source => (source.id, source.content)
      if fold.foldedSources.isEmpty then (fold.survivors, 0, c)
      else (fold.survivors, fold.foldedSources.length,
        c.setStore (c.svc.store.removeManyMatching pairs).1)

/-- `fold_and_charge`. -/
def foldAndCharge (c : Cycle F) (memories : List (MemoryEntry F)) :
    List (MemoryEntry F) × Cycle F :=
  let (survivors, foldedCount, c) := foldNearDuplicates env c memories c.removalBudget
  let c := c.processed foldedCount
  (survivors, { c with removalBudget := c.removalBudget - foldedCount })

/-! ## Clustering -/

/-- The variables of the inner loop; what has not joined stays unassigned, in order. -/
structure Gathering (F : Type) where
  cluster : List (MemoryEntry F)
  clusterBytes : Nat
  unassigned : List (MemoryEntry F)

def sameScope (a b : MemoryEntry F) : Bool := a.workspaceId = b.workspaceId

variable (config : ConsolidationConfig F)

/-- The memory joins the cluster of the seed. -/
def joins (seed : MemoryEntry F) (g : Gathering F) (memory : MemoryEntry F) : Bool :=
  g.cluster.length < max config.maxClusterMemories 1 && sameScope seed memory &&
    (match env.scoreOrPrune seed memory config.clusteringWeights config.clusterThreshold with
      | none => false
      | some score => !decide (score < config.clusterThreshold)) &&
    g.clusterBytes + Text.byteLen memory.content ≤ config.maxClusterContentBytes

def gather (seed : MemoryEntry F) (g : Gathering F) (memory : MemoryEntry F) : Gathering F :=
  if joins env config seed g memory then
    { g with
      cluster := g.cluster ++ [memory]
      clusterBytes := g.clusterBytes + Text.byteLen memory.content }
  else { g with unassigned := g.unassigned ++ [memory] }

/-- The outer loop, over the memories not assigned yet. -/
def clusterUnassigned : Nat → List (MemoryEntry F) → List (List (MemoryEntry F))
  | 0, _ => []
  | _ + 1, [] => []
  | fuel + 1, seed :: rest =>
    let g := rest.foldl (gather env config seed) ⟨[seed], Text.byteLen seed.content, []⟩
    g.cluster :: clusterUnassigned fuel g.unassigned

/-- `cluster_memories`. -/
def clusterMemories (memories : List (MemoryEntry F)) : List (List (MemoryEntry F)) :=
  clusterUnassigned env config memories.length memories

/-! ## One cluster -/

/-- The consolidated entry is stored, and then the cluster is removed. -/
def supersede (c : Cycle F) (cluster : MemoryCluster F) (consolidated : MemoryEntry F) :
    Result Unit × Cycle F :=
  match c.svc.store.add consolidated with
  | .error e => (.error e, c)
  | .ok store =>
    let pairs := cluster.memories.map fun memory => (memory.id, memory.content)
    (.ok (), c.setStore (store.removeManyMatching pairs).1)

/-- `consolidate_cluster`. -/
def consolidateCluster (c : Cycle F) (cluster : MemoryCluster F) : Result Unit × Cycle F :=
  let summary := env.summarize c.calls cluster.buildConsolidationPrompt
  let c := c.called
  match summary with
  | .error reason => (.error (.io reason), c)
  | .ok summary =>
    match env.embed with
    | none => (.error .noEmbeddingProvider, c)
    | some embed =>
      let reply := embed c.calls summary
      let c := c.hear reply
      match reply.result with
      | .error reason => (.error (.io reason), c)
      | .ok embedding =>
        supersede c.called cluster
          (createConsolidatedEntry cluster summary embedding (env.uuid c.calls) env.now)

def singleMemoryEnrichmentPrompt : String :=
  "This memory matters. Reproduce it EXACTLY as given, word for word, and then " ++
  "below it add what it connects to: what caused it, what it resembles, what it " ++
  "predicts, what is still unresolved. Do not reword, shorten, correct or " ++
  "re-order the original text — it must appear in your answer unchanged, or your " ++
  "answer will be discarded. Mark anything speculative as speculation. Never " ++
  "invent facts."

def enrichmentPrompt (memory : MemoryEntry F) : Text :=
  singleMemoryEnrichmentPrompt.toList ++ "\n\nOriginal memory:\n".toList ++ memory.content ++
    "\n\nEnriched memory:".toList

/-- `expand_memory`. -/
def expandMemory (c : Cycle F) (memory : MemoryEntry F) : Result Unit × Cycle F :=
  let expanded := env.summarize c.calls (enrichmentPrompt memory)
  let c := c.called
  match expanded with
  | .error reason => (.error (.io reason), c)
  | .ok expanded =>
    if ¬(Text.byteLen memory.content < Text.byteLen expanded ∧
        expanded.contains memory.content.trim) then (.ok (), c)
    else
      match env.embed with
      | none => (.error .noEmbeddingProvider, c)
      | some embed =>
        let reply := embed c.calls expanded
        let c := c.hear reply
        match reply.result with
        | .error reason => (.error (.io reason), c)
        | .ok embedding =>
          match rewriteWithBinding c.svc memory.id expanded embedding memory.content with
          | .error e => (.error e, c)
          | .ok (none, svc) => (.ok (), { c with svc })
          | .ok (some _, svc) =>
            let c := { c with svc }
            match c.svc.store.updateFsrs memory.id fun fsrs =>
              { fsrs with generation := min (fsrs.generation + 1) (2 ^ 32 - 1) } with
            | .error e => (.error e, c)
            | .ok store => (.ok (), c.setStore store)

/-! ## The clusters of a band -/

def expandEach (c : Cycle F) (memory : MemoryEntry F) : Cycle F :=
  match expandMemory env c memory with
  | (.error e, c) => c.error s!"Expand failed for {memory.id}: {e.display}"
  | (.ok (), c) =>
    { c with result := { c.result with memoriesExpanded := c.result.memoriesExpanded + 1 } }

/-- The body of `consolidate_clusters`, for a cluster the loop reaches. -/
def consolidateOne (level : CompressionLevel) (c : Cycle F) (memories : List (MemoryEntry F)) :
    Cycle F :=
  if memories.length < config.minClusterSize then
    let c := if level = .expand then memories.foldl (expandEach env) c else c
    c.processed memories.length
  else
    let wouldRemove := memories.length - 1
    if c.removalBudget < wouldRemove then c.processed memories.length
    else
      let cluster : MemoryCluster F := ⟨memories, level⟩
      let before := c.svc.store
      let (outcome, c) := consolidateCluster env c cluster
      let c := c.attempt ⟨cluster, before, outcome, c.svc.store⟩
      match outcome with
      | .ok () =>
        { c with
          result := { c.result with
            clustersFormed := c.result.clustersFormed + 1
            memoriesMerged := c.result.memoriesMerged + wouldRemove
            memoriesProcessed := c.result.memoriesProcessed + memories.length }
          removalBudget := c.removalBudget - wouldRemove }
      | .error e => (c.error s!"Cluster consolidation failed: {e.display}").processed memories.length

/-- `consolidate_clusters`. -/
def consolidateClusters (level : CompressionLevel) :
    List (List (MemoryEntry F)) → Cycle F → Cycle F
  | [], c => c
  | memories :: clusters, c =>
    if c.removalBudget = 0 then c
    else consolidateClusters level clusters (consolidateOne env config level c memories)

/-! ## The run -/

def isEpisodicMemory (entry : MemoryEntry F) : Bool :=
  (entry.metadata "source_id").isSome || (entry.metadata "kind").isSome

/-- The weight of an entry picks its band. -/
def bandOf (entry : MemoryEntry F) : CompressionLevel :=
  let weight := env.weight entry.fsrs
  if weight < 0.2 then .essence
  else if weight < 0.5 then .compressed
  else if weight < 0.8 then .standard
  else if !isNan weight && !decide (1.0 < weight) then .detailed
  else .expand

/-- `get_consolidation_bands`, in the order the run takes them. -/
def consolidationBands (s : Store F) : List (CompressionLevel × List (MemoryEntry F)) :=
  [.essence, .compressed, .standard, .detailed, .expand].map fun level =>
    (level, s.entries.filter fun entry => bandOf env entry = level)

/-- What a band offers to the clusterer: raw episodes, and at `Detailed` only those captured. -/
def clusterable (level : CompressionLevel) (fresh : List (MemoryEntry F)) : List (MemoryEntry F) :=
  if level = .detailed then fresh.filter isEpisodicMemory else fresh

/-- The body of the loop over the bands. -/
def consolidateBand (c : Cycle F) (band : CompressionLevel × List (MemoryEntry F)) : Cycle F :=
  let (level, memories) := band
  if memories.isEmpty ∨ c.removalBudget = 0 then c
  else
    let pinned := memories.filter fun entry => isVerbatimPinned entry.metadata
    let unpinned := memories.filter fun entry => !isVerbatimPinned entry.metadata
    let (unpinned, c) := foldAndCharge env c unpinned
    let (pinned, c) := foldAndCharge env c pinned
    let c := c.processed pinned.length
    if c.removalBudget = 0 then c
    else
      let gists := unpinned.filter fun entry => 0 < entry.fsrs.generation
      let fresh := unpinned.filter fun entry => entry.fsrs.generation = 0
      let c := c.processed gists.length
      if fresh.isEmpty then c
      else
        let memories := clusterable level fresh
        let c := c.processed (fresh.length - memories.length)
        if memories.isEmpty then c
        else consolidateClusters env config level (clusterMemories env config memories) c

/-- The configuration with the store's own timescale. -/
def withStoreTimescale (s : Store F) : ConsolidationConfig F :=
  { config with clusteringWeights := { config.clusteringWeights with
      timeSpanMinutes := env.spanMinutes (s.entries.map (·.timestamp)) } }

/-- How many memories a run over this store may remove. -/
def removalBudget (s : Store F) : Nat :=
  min (env.scaled s.entries.length config.maxCompressionRatio)
    (s.entries.length - config.minRemainingMemories)

/-- `consolidate`; the error is that of `InvalidClusteringConfig`. -/
def consolidate (svc : Service F) : Except String (Cycle F) := do
  config.validate env
  let c := Cycle.start svc (removalBudget env config svc.store)
  if c.removalBudget = 0 then .ok c
  else
    let config := withStoreTimescale env config svc.store
    .ok ((consolidationBands env svc.store).foldl (consolidateBand env config) c)

end Nanna.Memory
