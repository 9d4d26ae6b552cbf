import Mathlib.Data.List.Sort
import Nanna.Lib.Text

/-!
# Chunks, their vectors and the embedding queue

The tables `memory_chunks`, `memory_chunk_vectors` and `embedding_queue`, and the repository's
operations on them, each one guarded section. Chunk ids come from an `AUTOINCREMENT` column, so no
id comes back after its row is gone; the queue names its work by memory, ordinal and model.

`Covered` says that every chunk without a vector is queued or owed, and `Numbered` that a memory and
an ordinal name one chunk. Each operation keeps `Numbered`, and all but `dequeueEmbedding` keep
`Covered`; `Covered.dequeueEmbedding` says which chunk that one has to find.
-/

namespace Nanna.Memory

open Nanna.Lib (Text)

variable {F : Type}

/-! ## Rows -/

structure ChunkRow (F : Type) where
  id : Nat
  memoryId : String
  ordinal : Int
  content : Text
  embedding : Option (List F)
  embeddingModel : Option String

/-- A chunk on its way to the table. -/
structure ChunkWrite (F : Type) where
  ordinal : Int
  content : Text
  embedding : Option (List F)
  embeddingModel : Option String

structure QueueRow where
  memoryId : String
  ordinal : Int
  model : String
  attempts : Nat
  lastError : Option String

/-- A chunk to embed, with the queue key to report against. -/
structure PendingChunk where
  chunkId : Nat
  memoryId : String
  ordinal : Int
  content : Text

/-- What names a chunk beside its id. -/
abbrev ChunkKey := String × Int

def ChunkRow.key (c : ChunkRow F) : ChunkKey := (c.memoryId, c.ordinal)
def QueueRow.key (q : QueueRow) : ChunkKey := (q.memoryId, q.ordinal)
def PendingChunk.key (p : PendingChunk) : ChunkKey := (p.memoryId, p.ordinal)

/-- The chunk has a vector, and it is the model's. -/
def ChunkRow.HasVector (model : String) (c : ChunkRow F) : Prop :=
  (c.embedding.any fun vector => !vector.isEmpty) ∧ c.embeddingModel = some model

instance (model : String) (c : ChunkRow F) : Decidable (c.HasVector model) :=
  inferInstanceAs (Decidable (_ ∧ _))

/-- The write comes with a vector and the name of its model. -/
def ChunkWrite.Complete (write : ChunkWrite F) : Prop :=
  (write.embedding.any fun vector => !vector.isEmpty) ∧ write.embeddingModel.any (· ≠ "")

instance (write : ChunkWrite F) : Decidable write.Complete := inferInstanceAs (Decidable (_ ∧ _))

structure ChunkStore (F : Type) where
  chunks : List (ChunkRow F)
  /-- `memory_chunk_vectors`, by memory, ordinal and model. -/
  buckets : String → Int → String → Option (List F)
  queue : List QueueRow
  /-- The last chunk id handed out. -/
  seq : Nat

/-! ## Splitting -/

/-- The writes of `write_chunks`: a text that fits in one chunk lends it the entry's vector. -/
def chunkWrites (pieces : List Text) (parent : Option (String × List F)) : List (ChunkWrite F) :=
  pieces.zipIdx.map fun (content, i) =>
    match parent with
    | some (model, vector) =>
      if pieces.length = 1 then ⟨i, content, some vector, some model⟩ else ⟨i, content, none, none⟩
    | none => ⟨i, content, none, none⟩

namespace ChunkStore

variable (s : ChunkStore F)

/-! ## The repository -/

/-- The rows of the inserts, numbered on from `seq`. -/
def insertedRows (memoryId : String) (writes : List (ChunkWrite F)) : List (ChunkRow F) :=
  writes.zipIdx.map fun (w, i) =>
    { id := s.seq + 1 + i, memoryId, ordinal := w.ordinal, content := w.content,
      embedding := w.embedding, embeddingModel := w.embeddingModel }

/-- `MemoryRepository::replace_chunks`, all under one guard. -/
def replaceChunks (memoryId : String) (writes : List (ChunkWrite F)) : ChunkStore F :=
  { chunks := s.chunks.filter (·.memoryId ≠ memoryId) ++ s.insertedRows memoryId writes
    buckets := fun id => if id = memoryId then fun _ _ => none else s.buckets id
    queue := s.queue.filter fun q => ¬(q.memoryId = memoryId ∧ 0 ≤ q.ordinal)
    seq := s.seq + writes.length }

def putBucket (memoryId : String) (ordinal : Int) (model : String) (vector : List F) :
    String → Int → String → Option (List F) := fun id o m =>
  if id = memoryId ∧ o = ordinal ∧ m = model then some vector else s.buckets id o m

def putChunkVector (memoryId : String) (ordinal : Int) (model : String) (vector : List F) :
    ChunkStore F :=
  { s with buckets := s.putBucket memoryId ordinal model vector }

/-- The queue has a row for this key and model. -/
def Queued (model : String) (key : ChunkKey) : Prop := ∃ q ∈ s.queue, q.key = key ∧ q.model = model

instance (model : String) (key : ChunkKey) : Decidable (s.Queued model key) :=
  inferInstanceAs (Decidable (∃ q ∈ s.queue, _))

/-- `INSERT … ON CONFLICT DO NOTHING`. -/
def enqueueEmbedding (model : String) (key : ChunkKey) : ChunkStore F :=
  if s.Queued model key then s
  else { s with queue := s.queue ++ [⟨key.1, key.2, model, 0, none⟩] }

/-- What the adapter does for each write of a replaced set, in a guard of its own. -/
def settleWrite (model memoryId : String) (write : ChunkWrite F) : ChunkStore F :=
  match write.embedding, write.embeddingModel with
  | some vector, some label =>
    if vector ≠ [] ∧ label ≠ "" then s.putChunkVector memoryId write.ordinal label vector
    else s.enqueueEmbedding model (memoryId, write.ordinal)
  | _, _ => s.enqueueEmbedding model (memoryId, write.ordinal)

/-- Bucket, dequeue and active copy, all under one guard; nothing for an id that is gone. -/
def setChunkEmbedding (chunkId : Nat) (vector : List F) (model : String) : ChunkStore F :=
  match s.chunks.find? (·.id = chunkId) with
  | none => s
  | some chunk =>
    { s with
      chunks := s.chunks.map fun c =>
        if c.id = chunkId then { c with embedding := some vector, embeddingModel := some model }
        else c
      buckets := s.putBucket chunk.memoryId chunk.ordinal model vector
      queue := s.queue.filter fun q => ¬(q.model = model ∧ q.key = chunk.key) }

def dequeueEmbedding (model : String) (key : ChunkKey) : ChunkStore F :=
  { s with queue := s.queue.filter fun q => ¬(q.key = key ∧ q.model = model) }

/-- An upsert: work that failed still needs doing. -/
def recordEmbeddingFailure (model : String) (key : ChunkKey) (error : String) : ChunkStore F :=
  if s.Queued model key then
    { s with
      queue := s.queue.map fun q =>
        if q.key = key ∧ q.model = model then
          { q with attempts := q.attempts + 1, lastError := some error }
        else q }
  else { s with queue := s.queue ++ [⟨key.1, key.2, model, 1, some error⟩] }

/-- `ADOPT_CHUNK_VECTORS`: buckets of the vectors found on the chunks. -/
def adoptedBuckets : String → Int → String → Option (List F) := fun id o m =>
  (s.buckets id o m).or <| (s.chunks.find? fun c =>
    c.memoryId = id ∧ c.ordinal = o ∧ c.embedding.isSome ∧ c.embeddingModel = some m).bind
      (·.embedding)

def seedCap : Nat := 100000

/-- `SEED_CHUNK_QUEUE`, after the adoption. -/
def seed (model : String) : ChunkStore F :=
  let s := { s with buckets := s.adoptedBuckets }
  ((s.chunks.filter fun c => (s.buckets c.memoryId c.ordinal model).isNone).take seedCap).foldl
    (fun s c => s.enqueueEmbedding model c.key) s

/-- `QUEUED_CHUNKS`: fewest attempts first, then in the order queued. -/
def queuedChunks (model : String) (limit : Nat) : List PendingChunk :=
  let rows := (s.queue.filter fun q => q.model = model ∧ 0 ≤ q.ordinal).insertionSort
    (·.attempts ≤ ·.attempts)
  (rows.flatMap fun q => (s.chunks.filter fun c => c.key = q.key).map fun c =>
    ⟨c.id, c.memoryId, c.ordinal, c.content⟩).take limit

/-! ## What each operation leaves queued -/

variable {s : ChunkStore F} {model : String} {key : ChunkKey}

theorem queued_enqueueEmbedding {key' : ChunkKey} (h : key' = key ∨ s.Queued model key) :
    (s.enqueueEmbedding model key').Queued model key := by
  unfold enqueueEmbedding
  split
  · rename_i hqueued
    rcases h with rfl | h
    · exact hqueued
    · exact h
  · rcases h with rfl | ⟨q, hq, h⟩
    · exact ⟨_, List.mem_append_right _ (List.mem_singleton_self _), rfl, rfl⟩
    · exact ⟨q, List.mem_append_left _ hq, h⟩

theorem enqueueEmbedding_chunks {key : ChunkKey} :
    (s.enqueueEmbedding model key).chunks = s.chunks ∧
      (s.enqueueEmbedding model key).seq = s.seq := by
  unfold enqueueEmbedding
  split
  · exact ⟨rfl, rfl⟩
  · exact ⟨rfl, rfl⟩

theorem queued_recordEmbeddingFailure {key' : ChunkKey} {error : String}
    (h : s.Queued model key) : (s.recordEmbeddingFailure model key' error).Queued model key := by
  obtain ⟨q, hq, hkey, hmodel⟩ := h
  unfold recordEmbeddingFailure
  split
  · refine ⟨_, List.mem_map_of_mem hq, ?_⟩
    split
    · exact ⟨hkey, hmodel⟩
    · exact ⟨hkey, hmodel⟩
  · exact ⟨q, List.mem_append_left _ hq, hkey, hmodel⟩

theorem recordEmbeddingFailure_chunks {key : ChunkKey} {error : String} :
    (s.recordEmbeddingFailure model key error).chunks = s.chunks ∧
      (s.recordEmbeddingFailure model key error).seq = s.seq := by
  unfold recordEmbeddingFailure
  split
  · exact ⟨rfl, rfl⟩
  · exact ⟨rfl, rfl⟩

/-- An operation that leaves the chunks alone and takes nothing off the model's queue. -/
structure KeepsQueue (model : String) (s t : ChunkStore F) : Prop where
  chunks : t.chunks = s.chunks
  seq : t.seq = s.seq
  queued : ∀ key, s.Queued model key → t.Queued model key

theorem KeepsQueue.refl (s : ChunkStore F) : KeepsQueue model s s := ⟨rfl, rfl, fun _ h => h⟩

theorem KeepsQueue.trans {t u : ChunkStore F} (hst : KeepsQueue model s t)
    (htu : KeepsQueue model t u) : KeepsQueue model s u :=
  ⟨htu.chunks.trans hst.chunks, htu.seq.trans hst.seq, fun key h => htu.queued key (hst.queued key h)⟩

theorem keepsQueue_enqueueEmbedding : KeepsQueue model s (s.enqueueEmbedding model key) :=
  ⟨enqueueEmbedding_chunks.1, enqueueEmbedding_chunks.2, fun _ h => queued_enqueueEmbedding (.inr h)⟩

theorem keepsQueue_recordEmbeddingFailure {error : String} :
    KeepsQueue model s (s.recordEmbeddingFailure model key error) :=
  ⟨recordEmbeddingFailure_chunks.1, recordEmbeddingFailure_chunks.2,
    fun _ h => queued_recordEmbeddingFailure h⟩

theorem keepsQueue_seed : KeepsQueue model s (s.seed model) := by
  have hfold : ∀ (chunks : List (ChunkRow F)) (t : ChunkStore F),
      KeepsQueue model t (chunks.foldl (fun t c => t.enqueueEmbedding model c.key) t) := by
    intro chunks
    induction chunks with
    | nil => exact KeepsQueue.refl
    | cons c chunks ih => exact fun t => keepsQueue_enqueueEmbedding.trans (ih _)
  have hadopt : KeepsQueue model s { s with buckets := s.adoptedBuckets } := ⟨rfl, rfl, fun _ h => h⟩
  exact hadopt.trans (hfold _ _)

/-- A settled write leaves the queue alone or puts its chunk on it. -/
theorem keepsQueue_settleWrite {memoryId : String} {write : ChunkWrite F} :
    KeepsQueue model s (s.settleWrite model memoryId write) := by
  unfold settleWrite
  split
  · split
    · exact ⟨rfl, rfl, fun _ h => h⟩
    · exact keepsQueue_enqueueEmbedding
  · exact keepsQueue_enqueueEmbedding

theorem queued_settleWrite {memoryId : String} {write : ChunkWrite F} (h : ¬write.Complete) :
    (s.settleWrite model memoryId write).Queued model (memoryId, write.ordinal) := by
  unfold settleWrite
  split
  · rename_i vector label hvector hlabel
    have hincomplete : ¬(vector ≠ [] ∧ label ≠ "") := by
      intro hcomplete
      refine h ⟨?_, ?_⟩
      · rw [hvector, Option.any_some, Bool.not_eq_true', List.isEmpty_eq_false_iff]
        exact hcomplete.1
      · rw [hlabel, Option.any_some, decide_eq_true_eq]
        exact hcomplete.2
    rw [if_neg hincomplete]
    exact queued_enqueueEmbedding (.inl rfl)
  · exact queued_enqueueEmbedding (.inl rfl)

/-- What is taken off the queue is of one memory's chunks. -/
theorem queued_replaceChunks {memoryId : String} {writes : List (ChunkWrite F)}
    (hother : key.1 ≠ memoryId) (h : s.Queued model key) :
    (s.replaceChunks memoryId writes).Queued model key := by
  obtain ⟨q, hq, hkey, hmodel⟩ := h
  refine ⟨q, List.mem_filter.mpr ⟨hq, ?_⟩, hkey, hmodel⟩
  rw [decide_eq_true_eq]
  rintro ⟨hmemory, -⟩
  exact hother (hkey ▸ hmemory)

theorem queued_dequeueEmbedding {key' : ChunkKey} (hother : key ≠ key') (h : s.Queued model key) :
    (s.dequeueEmbedding model key').Queued model key := by
  obtain ⟨q, hq, hkey, hmodel⟩ := h
  refine ⟨q, List.mem_filter.mpr ⟨hq, ?_⟩, hkey, hmodel⟩
  rw [decide_eq_true_eq]
  rintro ⟨hsame, -⟩
  exact hother (hkey.symm.trans hsame)

/-! ## One chunk for a memory and an ordinal -/

structure Numbered (s : ChunkStore F) : Prop where
  id_le : ∀ c ∈ s.chunks, c.id ≤ s.seq
  key : ∀ c ∈ s.chunks, ∀ c' ∈ s.chunks, c.key = c'.key → c.id = c'.id

theorem mem_insertedRows {memoryId : String} {writes : List (ChunkWrite F)} {c : ChunkRow F}
    (h : c ∈ s.insertedRows memoryId writes) : ∃ (i : Nat) (w : ChunkWrite F), writes[i]? = some w ∧
      c = ⟨s.seq + 1 + i, memoryId, w.ordinal, w.content, w.embedding, w.embeddingModel⟩ := by
  obtain ⟨⟨w, i⟩, hw, rfl⟩ := List.mem_map.mp h
  exact ⟨i, w, List.mem_zipIdx_iff_getElem?.mp hw, rfl⟩

theorem chunkWrites_getElem? {pieces : List Text} {parent : Option (String × List F)} {i : Nat}
    {w : ChunkWrite F} (h : (chunkWrites pieces parent)[i]? = some w) :
    w.ordinal = i ∧ (w.embedding = none ∨ ∃ model vector, parent = some (model, vector) ∧
      w.embedding = some vector ∧ w.embeddingModel = some model) := by
  unfold chunkWrites at h
  rw [List.getElem?_map, Option.map_eq_some_iff] at h
  obtain ⟨⟨content, j⟩, hj, rfl⟩ := h
  have hij : j = i := by
    rw [List.getElem?_zipIdx, Option.map_eq_some_iff] at hj
    obtain ⟨_, -, hj⟩ := hj
    have := (Prod.mk.inj hj).2
    omega
  subst hij
  cases parent with
  | none => exact ⟨rfl, .inl rfl⟩
  | some parent =>
    simp only
    split
    · exact ⟨rfl, .inr ⟨_, _, rfl, rfl, rfl⟩⟩
    · exact ⟨rfl, .inl rfl⟩

theorem Numbered.replaceChunks {memoryId : String} {pieces : List Text}
    {parent : Option (String × List F)} (h : s.Numbered) :
    (s.replaceChunks memoryId (chunkWrites pieces parent)).Numbered := by
  have hkept : ∀ c ∈ s.chunks.filter (·.memoryId ≠ memoryId),
      c ∈ s.chunks ∧ c.memoryId ≠ memoryId := by
    intro c hc
    obtain ⟨hc, hother⟩ := List.mem_filter.mp hc
    exact ⟨hc, of_decide_eq_true hother⟩
  constructor
  · intro c hc
    rcases List.mem_append.mp hc with hc | hc
    · exact (h.id_le c (hkept c hc).1).trans (Nat.le_add_right _ _)
    · obtain ⟨i, w, hw, rfl⟩ := mem_insertedRows hc
      have hi := (List.getElem?_eq_some_iff.mp hw).1
      change s.seq + 1 + i ≤ s.seq + (chunkWrites pieces parent).length
      omega
  · intro c hc c' hc' hkey
    have hmemory : c.memoryId = c'.memoryId := congrArg Prod.fst hkey
    have hordinal : c.ordinal = c'.ordinal := congrArg Prod.snd hkey
    rcases List.mem_append.mp hc with hc | hc <;> rcases List.mem_append.mp hc' with hc' | hc'
    · exact h.key c (hkept c hc).1 c' (hkept c' hc').1 hkey
    · obtain ⟨j, w', -, rfl⟩ := mem_insertedRows hc'
      exact absurd hmemory (hkept c hc).2
    · obtain ⟨i, w, -, rfl⟩ := mem_insertedRows hc
      exact absurd hmemory.symm (hkept c' hc').2
    · obtain ⟨i, w, hw, rfl⟩ := mem_insertedRows hc
      obtain ⟨j, w', hw', rfl⟩ := mem_insertedRows hc'
      simp only [(chunkWrites_getElem? hw).1, (chunkWrites_getElem? hw').1] at hordinal
      have hij : i = j := by omega
      rw [hij]

theorem Numbered.of_keepsQueue {t : ChunkStore F} (hkeeps : KeepsQueue model s t)
    (h : s.Numbered) : t.Numbered := by
  constructor
  · rw [hkeeps.chunks, hkeeps.seq]
    exact h.id_le
  · rw [hkeeps.chunks]
    exact h.key

/-- A chunk after the write of one chunk's vector. -/
theorem mem_setChunkEmbedding {chunkId : Nat} {vector : List F} {c : ChunkRow F}
    (hvector : vector ≠ []) (h : c ∈ (s.setChunkEmbedding chunkId vector model).chunks) :
    c.id = chunkId ∧ c.HasVector model ∧ (∃ c₀ ∈ s.chunks, c₀.id = c.id ∧ c₀.key = c.key) ∨
      c.id ≠ chunkId ∧ c ∈ s.chunks := by
  unfold setChunkEmbedding at h
  split at h
  · rename_i hnone
    refine .inr ⟨fun hid => ?_, h⟩
    exact List.find?_eq_none.mp hnone c h (decide_eq_true hid)
  · obtain ⟨c₀, hc₀, rfl⟩ := List.mem_map.mp h
    split
    · rename_i hid
      refine .inl ⟨hid, ⟨?_, rfl⟩, c₀, hc₀, rfl, rfl⟩
      rw [Option.any_some, Bool.not_eq_true', List.isEmpty_eq_false_iff]
      exact hvector
    · rename_i hid
      exact .inr ⟨hid, hc₀⟩

theorem queued_setChunkEmbedding {chunkId : Nat} {vector : List F}
    (hother : ∀ c ∈ s.chunks, c.id = chunkId → c.key ≠ key) (h : s.Queued model key) :
    (s.setChunkEmbedding chunkId vector model).Queued model key := by
  unfold setChunkEmbedding
  split
  · exact h
  · rename_i chunk hfind
    obtain ⟨q, hq, hkey, hmodel⟩ := h
    refine ⟨q, List.mem_filter.mpr ⟨hq, ?_⟩, hkey, hmodel⟩
    rw [decide_eq_true_eq]
    rintro ⟨-, hsame⟩
    have hid := List.find?_some hfind
    rw [decide_eq_true_eq] at hid
    exact hother chunk (List.mem_of_find?_eq_some hfind) hid (hsame.symm.trans hkey)

theorem setChunkEmbedding_seq {chunkId : Nat} {vector : List F} :
    (s.setChunkEmbedding chunkId vector model).seq = s.seq := by
  unfold setChunkEmbedding
  split
  · rfl
  · rfl

theorem Numbered.setChunkEmbedding {chunkId : Nat} {vector : List F} (hvector : vector ≠ [])
    (h : s.Numbered) : (s.setChunkEmbedding chunkId vector model).Numbered := by
  have hold : ∀ c ∈ (s.setChunkEmbedding chunkId vector model).chunks,
      ∃ c₀ ∈ s.chunks, c₀.id = c.id ∧ c₀.key = c.key := by
    intro c hc
    rcases mem_setChunkEmbedding hvector hc with ⟨-, -, hold⟩ | ⟨-, hc⟩
    · exact hold
    · exact ⟨c, hc, rfl, rfl⟩
  constructor
  · intro c hc
    obtain ⟨c₀, hc₀, hid, -⟩ := hold c hc
    rw [← hid, setChunkEmbedding_seq]
    exact h.id_le c₀ hc₀
  · intro c hc c' hc' hkey
    obtain ⟨c₀, hc₀, hid, hk⟩ := hold c hc
    obtain ⟨c₁, hc₁, hid', hk'⟩ := hold c' hc'
    rw [← hid, ← hid']
    exact h.key c₀ hc₀ c₁ hc₁ (by rw [hk, hk', hkey])

/-! ## No chunk forgotten -/

/-- Every chunk without the model's vector is on its queue, or somebody owes it the row. -/
def Covered (model : String) (owed : ChunkKey → Prop) (s : ChunkStore F) : Prop :=
  ∀ c ∈ s.chunks, ¬c.HasVector model → s.Queued model c.key ∨ owed c.key

variable {owed owed' : ChunkKey → Prop}

theorem Covered.of_keepsQueue {t : ChunkStore F} (hkeeps : KeepsQueue model s t)
    (howed : ∀ key, owed key → t.Queued model key ∨ owed' key) (h : s.Covered model owed) :
    t.Covered model owed' := by
  intro c hc hvector
  rw [hkeeps.chunks] at hc
  rcases h c hc hvector with hqueued | hc
  · exact .inl (hkeeps.queued _ hqueued)
  · exact howed _ hc

/-- The rows of the old splitting go, and the new chunks are owed theirs. -/
theorem Covered.replaceChunks {memoryId : String} {pieces : List Text} {parent : Option (List F)}
    (howed : ∀ key, owed key → owed' key)
    (hnew : ∀ w ∈ chunkWrites pieces (parent.map (model, ·)),
      ¬w.Complete → owed' (memoryId, w.ordinal))
    (h : s.Covered model owed) :
    (s.replaceChunks memoryId (chunkWrites pieces (parent.map (model, ·)))).Covered model owed' := by
  intro c hc hvector
  rcases List.mem_append.mp hc with hc | hc
  · obtain ⟨hc, hother⟩ := List.mem_filter.mp hc
    rcases h c hc hvector with hqueued | hc
    · exact .inl (queued_replaceChunks (of_decide_eq_true hother) hqueued)
    · exact .inr (howed _ hc)
  · obtain ⟨i, w, hw, rfl⟩ := mem_insertedRows hc
    refine .inr (hnew w (List.mem_of_getElem? hw) fun hcomplete => hvector ⟨hcomplete.1, ?_⟩)
    rcases (chunkWrites_getElem? hw).2 with hnone | ⟨label, vector, hparent, -, hlabel⟩
    · rw [ChunkWrite.Complete, hnone] at hcomplete
      exact absurd hcomplete.1 Bool.false_ne_true
    · obtain ⟨_, -, hparent⟩ := Option.map_eq_some_iff.mp hparent
      exact hlabel.trans (congrArg some (Prod.mk.inj hparent).1.symm)

theorem Covered.setChunkEmbedding {chunkId : Nat} {vector : List F} (hvector : vector ≠ [])
    (hnumbered : s.Numbered) (h : s.Covered model owed) :
    (s.setChunkEmbedding chunkId vector model).Covered model owed := by
  intro c hc hmissing
  rcases mem_setChunkEmbedding hvector hc with ⟨-, hhas, -⟩ | ⟨hid, hc⟩
  · exact absurd hhas hmissing
  · refine (h c hc hmissing).imp_left (queued_setChunkEmbedding fun c' hc' hid' hkey => ?_)
    exact hid ((hnumbered.key c hc c' hc' hkey.symm).trans hid')

/-- The row taken off is nobody's, or of a chunk that has its vector. -/
theorem Covered.dequeueEmbedding (hdone : s.Queued model key →
      ∀ c ∈ s.chunks, c.key = key → c.HasVector model)
    (h : s.Covered model owed) : (s.dequeueEmbedding model key).Covered model owed := by
  intro c hc hmissing
  refine (h c hc hmissing).imp_left fun hqueued => queued_dequeueEmbedding ?_ hqueued
  rintro rfl
  exact hmissing (hdone hqueued c hc rfl)

/-- Work read off the queue is of stored chunks. -/
theorem mem_queuedChunks {limit : Nat} {p : PendingChunk} (h : p ∈ s.queuedChunks model limit) :
    ∃ c ∈ s.chunks, c.id = p.chunkId ∧ c.key = p.key := by
  obtain ⟨q, -, hp⟩ := List.mem_flatMap.mp (List.mem_of_mem_take h)
  obtain ⟨c, hc, rfl⟩ := List.mem_map.mp hp
  exact ⟨c, (List.mem_filter.mp hc).1, rfl, rfl⟩

end ChunkStore

end Nanna.Memory
