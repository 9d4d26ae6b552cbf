import Nanna.Memory.Store

/-!
# Clusters and the memory that replaces one

`MemoryCluster::build_consolidation_prompt` lays the texts of a cluster out for the summarizer, and
`create_consolidated_entry` makes the entry that its reply becomes. Every text of the cluster is in
the prompt (`content_infix_prompt`); what the entry says beside the reply is true of the whole
cluster (`consolidatedMetadata_eq_some`).
-/

namespace Nanna.Memory

open Nanna.Lib

variable {F : Type} [Scalar F]

/-! ## Compression levels -/

inductive CompressionLevel
  | essence
  | compressed
  | standard
  | detailed
  | expand
deriving DecidableEq

namespace CompressionLevel

/-- The name that `{:?}` prints. -/
def debugName : CompressionLevel → String
  | essence => "Essence"
  | compressed => "Compressed"
  | standard => "Standard"
  | detailed => "Detailed"
  | expand => "Expand"

def summarizationPrompt : CompressionLevel → String
  | essence =>
    "Distil these related memories to the single idea underneath them. Not a label — the insight. " ++
    "One short line that someone who lived through all of them would nod at."
  | compressed =>
    "These memories are related. Write the short version of what was going on and what it added up " ++
    "to, in 2-3 sentences. Generalise across them rather than listing them: name the pattern, not " ++
    "every instance. Keep only the details that would change a future decision."
  | standard =>
    "These memories belong together. Replace them with one shorter account that says what was " ++
    "going on and what it amounts to. Generalise: where several fragments are instances of the same " ++
    "pattern, state the pattern ONCE instead of repeating the instances — that is where the " ++
    "compression comes from. Keep the specifics that would change a future decision (names, paths, " ++
    "numbers, outcomes) and drop the ones that would not. Flag anything here that contradicts " ++
    "something else; a contradiction noticed is worth more than a smooth story. Interpret freely, " ++
    "never invent, and say when you are inferring. Your output MUST be substantially shorter than " ++
    "the material you were given."
  | detailed => "Keep this memory as-is. No compression needed."
  | expand =>
    "This material matters, so spend words where they earn their keep: make the connections " ++
    "explicit — what caused what, what it resembles, what it predicts, what is still unresolved. " ++
    "Even here the result should be no longer than the material it replaces: buy the space by " ++
    "generalising the repetitive parts. Mark speculation as speculation. Never invent facts."

end CompressionLevel

/-! ## The prompt -/

structure MemoryCluster (F : Type) where
  memories : List (MemoryEntry F)
  compressionLevel : CompressionLevel

namespace MemoryCluster

variable (cluster : MemoryCluster F)

def concatenatedContent : Text :=
  "\n\n---\n\n".toList.intercalate (cluster.memories.map (·.content))

def buildConsolidationPrompt : Text :=
  s!"You are consolidating {cluster.memories.length} memories into one.\n\n".toList ++
    "Instruction: ".toList ++ cluster.compressionLevel.summarizationPrompt.toList ++
    "\n\nMemories to consolidate:\n\n".toList ++ cluster.concatenatedContent ++
    "\n\nConsolidated memory:".toList

end MemoryCluster

omit [Scalar F] in
/-- The summarizer is shown every text of the cluster. -/
theorem content_infix_prompt {cluster : MemoryCluster F} {memory : MemoryEntry F}
    (h : memory ∈ cluster.memories) : memory.content <:+: cluster.buildConsolidationPrompt := by
  have hcontent : memory.content <:+: cluster.concatenatedContent :=
    Text.infix_intercalate (List.mem_map_of_mem h)
  exact hcontent.trans (List.infix_append _ _ _)

/-! ## The consolidated entry -/

def factTypeMetadataKey : String := "fact_type"
def statedFactType : String := "stated"
def sourceLocatorMetadataKeys : List String := ["source_id", "chunk"]

/-- `is_verbatim_pinned`: the user stated this. -/
def isVerbatimPinned (metadata : Metadata) : Bool :=
  (metadata factTypeMetadataKey).any fun factType =>
    (Text.trim factType.toList).map Char.toLower = statedFactType.toList

/-- A key is inherited when every source that carries it agrees, and never a source locator. -/
def consolidatedMetadata (memories : List (MemoryEntry F)) : Metadata := fun key =>
  if key ∈ sourceLocatorMetadataKeys then none
  else
    match memories.filterMap (·.metadata key) with
    | [] => none
    | value :: values => if values.all (· = value) then some value else none

/-- Neither an infinity nor a number. -/
def isNan (x : F) : Bool := !Scalar.isFinite x && !decide (0.0 < x) && !decide (x < 0.0)

/-- `f32::max`. -/
def fmax (a b : F) : F :=
  if isNan a then b else if isNan b then a else if a < b then b else a

/-- The maximum of the finite values. -/
def maxFiniteOr (values : List F) (default : F) : F :=
  match values.filter Scalar.isFinite with
  | [] => default
  | value :: values => values.foldl fmax value

/-- `create_consolidated_entry`, with the fresh id and the clock. -/
def createConsolidatedEntry (cluster : MemoryCluster F) (consolidatedContent : Text)
    (newEmbedding : List F) (id : String) (now : Int) : MemoryEntry F :=
  let memories := cluster.memories
  let metadata := consolidatedMetadata memories
  let metadata :=
    if memories.any fun memory => isVerbatimPinned memory.metadata then
      Function.update metadata factTypeMetadataKey (some statedFactType)
    else metadata
  let metadata := Function.update metadata "consolidated_from"
    (some (",".intercalate (memories.map (·.id))))
  let metadata := Function.update metadata "consolidation_level"
    (some cluster.compressionLevel.debugName)
  { id
    content := consolidatedContent
    embedding := newEmbedding
    embeddingModel := none
    embeddings := fun _ => none
    metadata
    timestamp := now
    fsrs :=
      { FsrsState.new now with
        importance := maxFiniteOr (memories.map (·.fsrs.importance)) 1.0
        storageStrength := maxFiniteOr (memories.map (·.fsrs.storageStrength)) 0.1
        accessCount := (memories.map (·.fsrs.accessCount)).sum
        generation := (memories.map (·.fsrs.generation)).foldl max 0 + 1 }
    workspaceId := memories.head?.bind (·.workspaceId) }

omit [Scalar F] in
/-- What is inherited is what every source that says anything says. -/
theorem consolidatedMetadata_eq_some {memories : List (MemoryEntry F)} {key value : String}
    (h : consolidatedMetadata memories key = some value) :
    key ∉ sourceLocatorMetadataKeys ∧
      ∀ memory ∈ memories, ∀ v, memory.metadata key = some v → v = value := by
  unfold consolidatedMetadata at h
  split at h
  · cases h
  · rename_i hkey
    refine ⟨hkey, fun memory hmemory v hv => ?_⟩
    have hmem : v ∈ memories.filterMap (·.metadata key) := List.mem_filterMap.mpr ⟨memory, hmemory, hv⟩
    split at h
    · cases h
    · rename_i first values hvalues
      rw [hvalues] at hmem
      split at h
      · rename_i hall
        obtain rfl := Option.some.inj h
        rcases List.mem_cons.mp hmem with rfl | hmem
        · rfl
        · exact of_decide_eq_true (List.all_eq_true.mp hall v hmem)
      · cases h

end Nanna.Memory
