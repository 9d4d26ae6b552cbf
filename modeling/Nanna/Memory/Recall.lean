import Nanna.Memory.ChunkRank
import Nanna.Memory.Cluster

/-!
# Recall and workspace scope

`recall_one_scope_rule_iff`: the memories that only their chunks matched are candidates of a recall
under the rule of the row hits, exactly when the recall is not for a workspace or none of them is
global. `rank_and_assemble` loads them by id and keeps those of the workspace itself, while the row
search and the chunk query both show a workspace the global memories too
(`global_chunk_match_dropped`). After that only the weight floor and `max_results` leave a candidate
out, whatever found it (`mem_assemble`).
-/

namespace Nanna.Memory

open Nanna.Lib

variable {F : Type} [Scalar F]

/-! ## The chunk index -/

/-- A row of `memory_chunks`, as the neighbour query reads it. -/
structure IndexedChunk (F : Type) where
  memoryId : String
  ordinal : Int
  embedding : Option (List F)
  embeddingModel : Option String
  workspaceId : Option String

inductive MemoryState
  | active
  | dormant
  | silent
  | unavailable
deriving DecidableEq

/-- The arithmetic on `f32`, and the distance of the database. -/
structure RecallOracles (F : Type) where
  /-- `vector_distance_cos` -/
  distance : List F → List F → F
  /-- `1.0 - distance` -/
  similarity : F → F
  /-- `ChunkHit::rank` -/
  rank : ChunkHit F → F
  weight : FsrsState F → F
  state : FsrsState F → MemoryState

structure RecallConfig (F : Type) where
  maxResults : Nat
  minWeight : F
  /-- The runtime override, where there is one. -/
  minScore : F

variable (env : RecallOracles F)

/-- The filters of `CHUNK_KNN_SCOPED` and `CHUNK_KNN_GLOBAL`. -/
def neighbour (query : List F) (model : String) (workspaceId : Option String) (chunk : IndexedChunk F) :
    Option (String × Int × F) :=
  match chunk.embedding with
  | none => none
  | some embedding =>
    if chunk.embeddingModel = some model ∧ embedding.length = query.length ∧
        workspaceId.all fun ws => chunk.workspaceId = some ws || chunk.workspaceId = none
    then some (chunk.memoryId, chunk.ordinal, env.distance embedding query)
    else none

/-- `search_chunks_by_embedding_sql`: nearest first. -/
def searchChunksByEmbedding (index : List (IndexedChunk F)) (query : List F) (model : String)
    (limit : Nat) (workspaceId : Option String) : List (String × Int × F) :=
  ((index.filterMap (neighbour env query model workspaceId)).insertionSort fun a b =>
    ¬b.2.2 < a.2.2).take limit

def chunkOverfetch : Nat := 4

/-- `search_chunks`; `index` is `none` where there is no database or its query fails. -/
def searchChunks (index : Option (List (IndexedChunk F))) (query : List F) (model : String)
    (limit : Nat) (workspaceId : Option String) (minScore : F) : Dict String (ChunkHit F) :=
  match index with
  | none => Table.empty
  | some index =>
    if query.isEmpty ∨ model = "" ∨ limit = 0 then Table.empty
    else
      let limit := min (limit * chunkOverfetch) (2 ^ 64 - 1)
      let found := searchChunksByEmbedding env index query model limit workspaceId
      collapseChunkHits (found.map fun (id, ordinal, distance) => (id, ordinal, env.similarity distance))
        minScore

/-! ## Assembly -/

/-- An admitted memory, with the score it is shown with, the rank it is sorted by, and the chunk that
won. -/
structure Candidate (F : Type) where
  entry : MemoryEntry F
  score : F
  rank : F
  bestChunk : Option Int

structure RecallResult (F : Type) where
  id : String
  content : Text
  bestChunk : Option Int
  score : F
  weight : F
  state : MemoryState
  metadata : Metadata
  workspaceId : Option String

/-- `a >= b`. -/
def notLess (a b : F) : Bool := !isNan a && !isNan b && !decide (a < b)

/-- A row hit, admitted on the better of its two similarities. -/
def rowCandidate (chunkHits : Dict String (ChunkHit F)) (minScore : F) (result : MemoryEntry F × F) :
    Option (Candidate F) :=
  let (entry, score) := result
  let hit := Dict.find chunkHits entry.id
  let best := hit.elim score fun hit => fmax hit.best score
  if best < minScore then none
  else some
    { entry, score := best
      rank := hit.elim score fun hit => fmax (env.rank hit) score
      bestChunk := (hit.filter fun hit => notLess hit.best score).map (·.bestOrdinal) }

/-- A memory whose chunks matched and whose row did not. -/
def chunkCandidate (s : Store F) (seen : List String) (workspaceId : Option String)
    (hit : String × ChunkHit F) : Option (Candidate F) :=
  if hit.1 ∈ seen then none
  else
    match s.get hit.1 with
    | none => none
    | some entry =>
      if workspaceId.isSome && entry.workspaceId ≠ workspaceId then none
      else some ⟨entry, hit.2.best, env.rank hit.2, some hit.2.bestOrdinal⟩

def rowCandidates (results : List (MemoryEntry F × F)) (chunkHits : Dict String (ChunkHit F))
    (minScore : F) : List (Candidate F) := results.filterMap (rowCandidate env chunkHits minScore)

/-- The ids that the row pass admitted. -/
def seenIds (results : List (MemoryEntry F × F)) (chunkHits : Dict String (ChunkHit F)) (minScore : F) :
    List String := (rowCandidates env results chunkHits minScore).map (·.entry.id)

/-- What the two passes of `rank_and_assemble` collect. -/
def recallCandidates (s : Store F) (results : List (MemoryEntry F × F))
    (chunkHits : Dict String (ChunkHit F)) (workspaceId : Option String) (minScore : F) :
    List (Candidate F) :=
  rowCandidates env results chunkHits minScore ++
    chunkHits.rows.filterMap (chunkCandidate env s (seenIds env results chunkHits minScore) workspaceId)

def Candidate.result (c : Candidate F) : RecallResult F :=
  { id := c.entry.id, content := c.entry.content, bestChunk := c.bestChunk, score := c.score
    weight := env.weight c.entry.fsrs, state := env.state c.entry.fsrs, metadata := c.entry.metadata
    workspaceId := c.entry.workspaceId }

/-- The rest of `rank_and_assemble`: by rank, above the weight floor, up to `max_results`; the bound is
looked at after a result is taken. -/
def assemble (config : RecallConfig F) (candidates : List (Candidate F)) : List (RecallResult F) :=
  let ranked := candidates.insertionSort fun a b => ¬a.rank < b.rank
  ((ranked.filter fun c => ¬env.weight c.entry.fsrs < config.minWeight).take
    (max config.maxResults 1)).map (·.result env)

/-- `self.config.max_results * 2`, as `usize` multiplies in the release build. -/
def RecallConfig.wanted (config : RecallConfig F) : Nat := config.maxResults * 2 % 2 ^ 64

/-- One recall, once the query is embedded. -/
structure Recall (F : Type) where
  config : RecallConfig F
  store : Store F
  index : Option (List (IndexedChunk F))
  query : List F
  workspaceId : Option String

namespace Recall

variable (r : Recall F)

def results : List (MemoryEntry F × F) := r.store.searchScoped r.query r.config.wanted r.workspaceId

def chunkHits : Dict String (ChunkHit F) :=
  searchChunks env r.index r.query (r.store.activeModel.getD "") r.config.wanted r.workspaceId
    r.config.minScore

def candidates : List (Candidate F) :=
  recallCandidates env r.store r.results (r.chunkHits env) r.workspaceId r.config.minScore

/-- `recall_scoped`: the answer, and the reviews it queues. -/
def run : List (RecallResult F) × List (String × Rating) :=
  let answer := assemble env r.config (r.candidates env)
  (answer, answer.map fun result => (result.id, .good))

end Recall

/-! ## The scope rule -/

variable {env} {s : Store F} {results : List (MemoryEntry F × F)} {chunkHits : Dict String (ChunkHit F)}
  {workspaceId : Option String} {minScore : F}

/-- The memory's only matches are chunk hits. -/
def ChunkOnly (s : Store F) (results : List (MemoryEntry F × F)) (chunkHits : Dict String (ChunkHit F))
    (entry : MemoryEntry F) : Prop :=
  s.get entry.id = some entry ∧ entry.id ∉ results.map (·.1.id) ∧
    (Dict.find chunkHits entry.id).isSome

/-- The memories that only their chunks matched are candidates under the rule of the row hits. -/
def OneScopeRule (env : RecallOracles F) (s : Store F) (results : List (MemoryEntry F × F))
    (chunkHits : Dict String (ChunkHit F)) (workspaceId : Option String) (minScore : F) : Prop :=
  ∀ entry, ChunkOnly s results chunkHits entry →
    ((∃ c ∈ recallCandidates env s results chunkHits workspaceId minScore, c.entry = entry) ↔
      Store.visible workspaceId entry = true)

/-- The row pass admits row hits alone. -/
theorem seenIds_subset {id : String} (h : id ∈ seenIds env results chunkHits minScore) :
    id ∈ results.map (·.1.id) := by
  obtain ⟨c, hc, rfl⟩ := List.mem_map.mp h
  obtain ⟨result, hresult, hmade⟩ := List.mem_filterMap.mp hc
  obtain ⟨-, hmade⟩ := Option.ite_none_left_eq_some.mp hmade
  obtain rfl := Option.some.inj hmade
  exact List.mem_map_of_mem hresult

/-- A candidate that is no row hit comes from a chunk hit. -/
theorem mem_recallCandidates_iff {entry : MemoryEntry F}
    (h : ChunkOnly s results chunkHits entry) :
    (∃ c ∈ recallCandidates env s results chunkHits workspaceId minScore, c.entry = entry) ↔
      (workspaceId.isSome → entry.workspaceId = workspaceId) := by
  obtain ⟨hget, hnoRow, hhit⟩ := h
  obtain ⟨hit, hhit⟩ := Option.isSome_iff_exists.mp hhit
  have hunseen : entry.id ∉ seenIds env results chunkHits minScore := fun h => hnoRow (seenIds_subset h)
  constructor
  · rintro ⟨c, hc, rfl⟩ hscoped
    rcases List.mem_append.mp hc with hc | hc
    · exact absurd (List.mem_map_of_mem hc) hunseen
    · obtain ⟨⟨id, hit'⟩, -, hmade⟩ := List.mem_filterMap.mp hc
      obtain ⟨-, hmade⟩ := Option.ite_none_left_eq_some.mp hmade
      cases hstored : s.get id with
      | none =>
        rw [hstored] at hmade
        cases hmade
      | some entry =>
        rw [hstored] at hmade
        obtain ⟨hkept, hmade⟩ := Option.ite_none_left_eq_some.mp hmade
        obtain rfl := Option.some.inj hmade
        by_contra hother
        exact hkept (by simp [hscoped, hother])
  · intro hscope
    refine ⟨⟨entry, hit.best, env.rank hit, some hit.bestOrdinal⟩, List.mem_append_right _ ?_, rfl⟩
    refine List.mem_filterMap.mpr ⟨(entry.id, hit), Dict.mem_rows.mpr hhit, ?_⟩
    unfold chunkCandidate
    rw [if_neg hunseen, hget]
    dsimp only
    rw [if_neg]
    intro hdropped
    rw [Bool.and_eq_true, decide_eq_true_eq] at hdropped
    exact hdropped.2 (hscope hdropped.1)

omit [Scalar F] in
/-- The two rules differ on the global memories of a recall for a workspace. -/
theorem visible_iff_of_scoped (workspaceId : Option String) (entry : MemoryEntry F) :
    ((workspaceId.isSome → entry.workspaceId = workspaceId) ↔ Store.visible workspaceId entry = true) ↔
      (workspaceId.isSome → entry.workspaceId ≠ none) := by
  cases workspaceId with
  | none => simp [Store.visible]
  | some ws => cases hws : entry.workspaceId <;> simp [Store.visible, hws]

theorem oneScopeRule_iff : OneScopeRule env s results chunkHits workspaceId minScore ↔
    (workspaceId.isSome → ∀ entry, ChunkOnly s results chunkHits entry →
      entry.workspaceId ≠ none) := by
  constructor
  · intro hrule hscoped entry honly
    have hiff := hrule entry honly
    rw [mem_recallCandidates_iff honly] at hiff
    exact (visible_iff_of_scoped workspaceId entry).mp hiff hscoped
  · intro hnoGlobal entry honly
    rw [mem_recallCandidates_iff honly]
    exact (visible_iff_of_scoped workspaceId entry).mpr fun hscoped => hnoGlobal hscoped entry honly

/-- With room for all candidates, the weight floor alone decides which of them are returned. -/
theorem mem_assemble {config : RecallConfig F} {candidates : List (Candidate F)}
    (hroom : candidates.length ≤ config.maxResults) {result : RecallResult F} :
    result ∈ assemble env config candidates ↔
      ∃ c ∈ candidates, ¬env.weight c.entry.fsrs < config.minWeight ∧ c.result env = result := by
  have hlength : ((candidates.insertionSort fun a b => ¬a.rank < b.rank).filter fun c =>
      ¬env.weight c.entry.fsrs < config.minWeight).length ≤ max config.maxResults 1 := by
    refine (List.length_filter_le _ _).trans ?_
    rw [List.length_insertionSort]
    exact hroom.trans (le_max_left _ _)
  rw [assemble, List.take_of_length_le hlength, List.mem_map]
  simp only [List.mem_filter, List.mem_insertionSort, decide_eq_true_eq, and_assoc]

/-- **Main result.** A recall has one scope rule, exactly when it is not for a workspace or no global
memory is found only through its chunks; and no other rule but the weight floor stands between a
candidate and the answer, where there is room. -/
theorem recall_one_scope_rule_iff (env : RecallOracles F) (r : Recall F) :
    (OneScopeRule env r.store r.results (r.chunkHits env) r.workspaceId r.config.minScore ↔
      (r.workspaceId.isSome → ∀ entry, ChunkOnly r.store r.results (r.chunkHits env) entry →
        entry.workspaceId ≠ none)) ∧
    ((r.candidates env).length ≤ r.config.maxResults → ∀ result, result ∈ (r.run env).1 ↔
      ∃ c ∈ r.candidates env, ¬env.weight c.entry.fsrs < r.config.minWeight ∧ c.result env = result) :=
  ⟨oneScopeRule_iff, fun hroom _ => mem_assemble hroom⟩

/-! ## A global memory behind its chunks -/

def sampleRecallOracles : RecallOracles ℚ where
  distance a b := 1 - Scalar.cosine a b
  similarity d := 1 - d
  rank := ChunkHit.rank
  weight fsrs := fsrs.importance
  state _ := .active

def sampleRecall (workspaceId : Option String) : Recall ℚ where
  config := ⟨1, 0, 0⟩
  store := ⟨[sampleEntry "e1" "ours".toList [1, 0] "m" (some "a"),
    sampleEntry "e2" "ours too".toList [1, 0] "m" (some "a"),
    sampleEntry "e3" "for all".toList [0, 1] "m" none], 2, some "m"⟩
  index := some [⟨"e3", 7, some [1, 0], some "m", none⟩]
  query := [1, 0]
  workspaceId

/-- Two memories of the workspace fill the row hits. A chunk of a global one matches, and the memory is
not a candidate. -/
theorem global_chunk_match_dropped :
    let r := sampleRecall (some "a")
    ¬OneScopeRule sampleRecallOracles r.store r.results (r.chunkHits sampleRecallOracles) r.workspaceId
      r.config.minScore := by
  intro r hrule
  have hfound : "e3" ∉ r.results.map (·.1.id) ∧
      (Dict.find (r.chunkHits sampleRecallOracles) "e3").isSome := by
    decide +kernel
  have hentry : ChunkOnly r.store r.results (r.chunkHits sampleRecallOracles)
      (sampleEntry "e3" "for all".toList [0, 1] "m" none) := ⟨rfl, hfound⟩
  exact oneScopeRule_iff.mp hrule rfl _ hentry rfl

end Nanna.Memory
