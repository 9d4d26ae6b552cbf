import Nanna.Lib.Moves
import Nanna.Memory.ChunkStore

/-!
# The drain of the chunk queue against rewrites

`replace_chunks` puts a memory's new chunks in place under one guard and settles each of them, with
a bucket or a queue row, under a guard of its own. `backfill_chunks` reads a batch of queued chunks
and for each one awaits the embedder, stores the vector by chunk id, and takes the row off the queue
by memory, ordinal and model. `ChunkQueue` is the tables between two guards, with what each replace
and each drain under way still has to do; the bound model does not change during a run.

`queue_loses_no_work`: in a run whose dequeues all find the embedded chunk still stored under its
memory and ordinal, every chunk without a vector that no replace has still to settle is queued. No
other step needs a condition. `replacement_forgotten` is the run in which the chunk is replaced
between the embedding and the dequeue, so that the row taken off is its replacement's.
-/

namespace Nanna.Memory

open Nanna.Lib

variable {F ι : Type}

/-! ## The machine -/

/-- A drain under way. -/
inductive Drain (F : Type)
  | idle
  | reading (pending : List PendingChunk)
  | embedded (chunk : PendingChunk) (vector : List F) (pending : List PendingChunk)
  /-- `set_chunk_embedding` has returned; the dequeue has not run. -/
  | stored (chunk : PendingChunk) (pending : List PendingChunk)
  /-- Nothing to store, and the reason is not recorded yet. -/
  | failing (chunk : PendingChunk) (reason : String) (pending : List PendingChunk)

structure ChunkQueue (ι F : Type) where
  db : ChunkStore F
  /-- What each `replace_chunks` under way has still to settle. -/
  unsettled : ι → List (String × ChunkWrite F)
  drains : ι → Drain F

/-- One guard of a replace or of a drain, or the return of the embedder. -/
inductive ChunkAct (ι F : Type)
  | replace (i : ι) (memoryId : String) (pieces : List Text) (parent : Option (List F))
  | settle (i : ι)
  | read (i : ι) (batch : Nat) (seed : Bool)
  | embed (i : ι) (result : Except String (List F))
  | setEmbedding (i : ι)
  | dequeue (i : ι)
  | recordFailure (i : ι)

variable [DecidableEq ι]

namespace ChunkQueue

variable (m : ChunkQueue ι F)

def setDrain (i : ι) (drain : Drain F) : ChunkQueue ι F :=
  { m with drains := Function.update m.drains i drain }

def setUnsettled (i : ι) (writes : List (String × ChunkWrite F)) : ChunkQueue ι F :=
  { m with unsettled := Function.update m.unsettled i writes }

def setDb (db : ChunkStore F) : ChunkQueue ι F := { m with db }

def step (model : String) : ChunkAct ι F → Option (ChunkQueue ι F)
  | .replace i memoryId pieces parent =>
    match m.unsettled i with
    | [] =>
      let writes := chunkWrites pieces (parent.map (model, ·))
      some ((m.setDb (m.db.replaceChunks memoryId writes)).setUnsettled i
        (writes.map (memoryId, ·)))
    | _ :: _ => none
  | .settle i =>
    match m.unsettled i with
    | [] => none
    | (memoryId, write) :: rest =>
      some ((m.setDb (m.db.settleWrite model memoryId write)).setUnsettled i rest)
  | .read i batch seed =>
    match m.drains i with
    | .idle =>
      let db := if seed then m.db.seed model else m.db
      some ((m.setDb db).setDrain i (.reading (db.queuedChunks model batch)))
    | _ => none
  | .embed i result =>
    match m.drains i with
    | .reading [] => some (m.setDrain i .idle)
    | .reading (chunk :: pending) =>
      match result with
      | .ok [] => some (m.setDrain i (.failing chunk "provider returned an empty vector" pending))
      | .ok vector => some (m.setDrain i (.embedded chunk vector pending))
      -- the provider is unavailable: record why and leave the rest
      | .error e => some (m.setDrain i (.failing chunk e []))
    | _ => none
  | .setEmbedding i =>
    match m.drains i with
    | .embedded chunk vector pending =>
      some ((m.setDb (m.db.setChunkEmbedding chunk.chunkId vector model)).setDrain i
        (.stored chunk pending))
    | _ => none
  | .dequeue i =>
    match m.drains i with
    | .stored chunk pending =>
      some ((m.setDb (m.db.dequeueEmbedding model chunk.key)).setDrain i (.reading pending))
    | _ => none
  | .recordFailure i =>
    match m.drains i with
    | .failing chunk reason pending =>
      some ((m.setDb (m.db.recordEmbeddingFailure model chunk.key reason)).setDrain i
        (.reading pending))
    | _ => none

/-- A dequeue takes off no row, or that of the chunk it embedded. -/
def OwnRow (model : String) : ChunkAct ι F → Prop
  | .dequeue i =>
    match m.drains i with
    | .stored chunk _ => m.db.Queued model chunk.key →
        ∀ c ∈ m.db.chunks, c.key = chunk.key → c.id = chunk.chunkId
    | _ => True
  | _ => True

instance (model : String) (act : ChunkAct ι F) : Decidable (m.OwnRow model act) := by
  unfold OwnRow
  split
  · split <;> infer_instance
  · infer_instance

/-- A replace under way has still to queue the chunk. -/
def Owed (key : ChunkKey) : Prop :=
  ∃ i, ∃ w ∈ m.unsettled i, ¬w.2.Complete ∧ (w.1, w.2.ordinal) = key

end ChunkQueue

/-! ## What a step keeps -/

/-- The chunks a drain holds have been handed out, and the one it has stored has its vector. -/
def Drain.Sound (model : String) (db : ChunkStore F) : Drain F → Prop
  | .idle => True
  | .reading pending => ∀ p ∈ pending, p.chunkId ≤ db.seq
  | .embedded chunk vector pending => vector ≠ [] ∧ ∀ p ∈ chunk :: pending, p.chunkId ≤ db.seq
  | .stored chunk pending => (∀ p ∈ chunk :: pending, p.chunkId ≤ db.seq) ∧
      ∀ c ∈ db.chunks, c.id = chunk.chunkId → c.HasVector model
  | .failing chunk _ pending => ∀ p ∈ chunk :: pending, p.chunkId ≤ db.seq

/-- What a drain relies on when others write: ids are not used again, and vectors stay. -/
structure DrainKeeps (model : String) (s t : ChunkStore F) : Prop where
  seq : s.seq ≤ t.seq
  vectors : ∀ c ∈ t.chunks, c.id ≤ s.seq →
    ∃ c₀ ∈ s.chunks, c₀.id = c.id ∧ (c₀.HasVector model → c.HasVector model)

theorem Drain.Sound.mono {model : String} {s t : ChunkStore F} {drain : Drain F}
    (hkeeps : DrainKeeps model s t) (h : drain.Sound model s) : drain.Sound model t := by
  have hle : ∀ pending : List PendingChunk, (∀ p ∈ pending, p.chunkId ≤ s.seq) →
      ∀ p ∈ pending, p.chunkId ≤ t.seq := fun _ h p hp => (h p hp).trans hkeeps.seq
  cases drain with
  | idle => trivial
  | reading pending => exact hle _ h
  | embedded chunk vector pending => exact ⟨h.1, hle _ h.2⟩
  | stored chunk pending =>
    refine ⟨hle _ h.1, fun c hc hid => ?_⟩
    have hold : c.id ≤ s.seq := hid ▸ h.1 chunk List.mem_cons_self
    obtain ⟨c₀, hc₀, hid₀, hvector⟩ := hkeeps.vectors c hc hold
    exact hvector (h.2 c₀ hc₀ (hid₀.trans hid))
  | failing chunk reason pending => exact hle _ h

section Keeps

variable {model : String} {s : ChunkStore F}

theorem DrainKeeps.of_keepsQueue {t : ChunkStore F} (h : ChunkStore.KeepsQueue model s t) :
    DrainKeeps model s t := by
  refine ⟨h.seq.ge, fun c hc _ => ?_⟩
  rw [h.chunks] at hc
  exact ⟨c, hc, rfl, id⟩

theorem DrainKeeps.replaceChunks {memoryId : String} {writes : List (ChunkWrite F)} :
    DrainKeeps model s (s.replaceChunks memoryId writes) := by
  refine ⟨Nat.le_add_right _ _, fun c hc hid => ?_⟩
  rcases List.mem_append.mp hc with hc | hc
  · exact ⟨c, (List.mem_filter.mp hc).1, rfl, id⟩
  · obtain ⟨i, w, -, rfl⟩ := ChunkStore.mem_insertedRows hc
    simp only at hid
    omega

theorem DrainKeeps.setChunkEmbedding {chunkId : Nat} {vector : List F} (hvector : vector ≠ []) :
    DrainKeeps model s (s.setChunkEmbedding chunkId vector model) := by
  refine ⟨ChunkStore.setChunkEmbedding_seq.ge, fun c hc _ => ?_⟩
  rcases ChunkStore.mem_setChunkEmbedding hvector hc with ⟨-, hhas, c₀, hc₀, hid, -⟩ | ⟨-, hc⟩
  · exact ⟨c₀, hc₀, hid, fun _ => hhas⟩
  · exact ⟨c, hc, rfl, id⟩

theorem DrainKeeps.dequeueEmbedding {key : ChunkKey} :
    DrainKeeps model s (s.dequeueEmbedding model key) := ⟨le_rfl, fun c hc _ => ⟨c, hc, rfl, id⟩⟩

end Keeps

namespace ChunkQueue

variable {model : String} {m m' : ChunkQueue ι F} {i : ι}

structure Sound (model : String) (m : ChunkQueue ι F) : Prop where
  numbered : m.db.Numbered
  drains : ∀ i, (m.drains i).Sound model m.db
  covered : m.db.Covered model m.Owed

theorem Sound.setDrain {drain : Drain F} (hdrain : drain.Sound model m.db) (h : m.Sound model) :
    (m.setDrain i drain).Sound model :=
  ⟨h.numbered, (Function.forall_update_iff m.drains fun _ drain => drain.Sound model m.db).mpr
    ⟨hdrain, fun j _ => h.drains j⟩, h.covered⟩

omit [DecidableEq ι] in
theorem Sound.setDb {db : ChunkStore F} (hnumbered : db.Numbered)
    (hkeeps : DrainKeeps model m.db db) (hcovered : db.Covered model m.Owed) (h : m.Sound model) :
    (m.setDb db).Sound model :=
  ⟨hnumbered, fun i => (h.drains i).mono hkeeps, hcovered⟩

omit [DecidableEq ι] in
theorem Sound.setDb_of_keepsQueue {db : ChunkStore F} (hkeeps : ChunkStore.KeepsQueue model m.db db)
    (h : m.Sound model) : (m.setDb db).Sound model :=
  h.setDb (h.numbered.of_keepsQueue hkeeps) (.of_keepsQueue hkeeps)
    (h.covered.of_keepsQueue hkeeps fun _ howed => .inr howed)

/-- A new replace owes the chunks it has just put in place. -/
theorem sound_replace {memoryId : String} {pieces : List Text} {parent : Option (List F)}
    (hidle : m.unsettled i = []) (h : m.Sound model) :
    ((m.setDb (m.db.replaceChunks memoryId (chunkWrites pieces (parent.map (model, ·))))).setUnsettled
      i ((chunkWrites pieces (parent.map (model, ·))).map (memoryId, ·))).Sound model := by
  refine ⟨h.numbered.replaceChunks, fun j => (h.drains j).mono .replaceChunks,
    h.covered.replaceChunks ?_ ?_⟩
  · rintro key ⟨j, w, hw, howed⟩
    refine ⟨j, w, ?_, howed⟩
    have hother : j ≠ i := by
      rintro rfl
      rw [hidle] at hw
      cases hw
    change w ∈ Function.update m.unsettled i _ j
    rw [Function.update_of_ne hother]
    exact hw
  · intro w hw hincomplete
    refine ⟨i, (memoryId, w), ?_, hincomplete, rfl⟩
    change (memoryId, w) ∈ Function.update m.unsettled i _ i
    rw [Function.update_self]
    exact List.mem_map_of_mem hw

/-- A settled chunk is no longer owed its row, since it has it. -/
theorem sound_settle {memoryId : String} {write : ChunkWrite F} {rest : List (String × ChunkWrite F)}
    (hfirst : m.unsettled i = (memoryId, write) :: rest) (h : m.Sound model) :
    ((m.setDb (m.db.settleWrite model memoryId write)).setUnsettled i rest).Sound model := by
  refine ⟨h.numbered.of_keepsQueue ChunkStore.keepsQueue_settleWrite,
    fun j => (h.drains j).mono (.of_keepsQueue ChunkStore.keepsQueue_settleWrite),
    h.covered.of_keepsQueue ChunkStore.keepsQueue_settleWrite ?_⟩
  rintro key ⟨j, w, hw, hincomplete, hkey⟩
  by_cases hj : j = i
  · subst hj
    rw [hfirst] at hw
    rcases List.mem_cons.mp hw with rfl | hw
    · rw [← hkey]
      exact .inl (ChunkStore.queued_settleWrite hincomplete)
    · refine .inr ⟨j, w, ?_, hincomplete, hkey⟩
      change w ∈ Function.update m.unsettled j _ j
      rw [Function.update_self]
      exact hw
  · refine .inr ⟨j, w, ?_, hincomplete, hkey⟩
    change w ∈ Function.update m.unsettled i _ j
    rw [Function.update_of_ne hj]
    exact hw

theorem step_sound {act : ChunkAct ι F} (hok : m.OwnRow model act)
    (hstep : m.step model act = some m') (h : m.Sound model) : m'.Sound model := by
  cases act with
  | replace i memoryId pieces parent =>
    simp only [step] at hstep
    split at hstep
    · rename_i hidle
      cases hstep
      exact sound_replace hidle h
    · cases hstep
  | settle i =>
    simp only [step] at hstep
    split at hstep
    · cases hstep
    · rename_i memoryId write rest hfirst
      cases hstep
      exact sound_settle hfirst h
  | read i batch seed =>
    simp only [step] at hstep
    split at hstep
    · cases hstep
      have hkeeps : ChunkStore.KeepsQueue model m.db (if seed then m.db.seed model else m.db) := by
        split
        · exact ChunkStore.keepsQueue_seed
        · exact .refl _
      have hdb := h.setDb_of_keepsQueue hkeeps
      refine hdb.setDrain fun p hp => ?_
      obtain ⟨c, hc, hid, -⟩ := ChunkStore.mem_queuedChunks hp
      exact hid ▸ hdb.numbered.id_le c hc
    · cases hstep
  | embed i result =>
    have hdrain := h.drains i
    simp only [step] at hstep
    split at hstep
    · cases hstep
      exact h.setDrain trivial
    · rename_i chunk pending hreading
      rw [hreading] at hdrain
      split at hstep
      · cases hstep
        exact h.setDrain hdrain
      · rename_i vector hnonempty
        cases hstep
        exact h.setDrain ⟨hnonempty, hdrain⟩
      · cases hstep
        refine h.setDrain fun p hp => hdrain p ?_
        rw [List.mem_singleton.mp hp]
        exact List.mem_cons_self
    · cases hstep
  | setEmbedding i =>
    have hdrain := h.drains i
    simp only [step] at hstep
    split at hstep
    · rename_i chunk vector pending hembedded
      rw [hembedded] at hdrain
      obtain ⟨hvector, hpending⟩ := hdrain
      cases hstep
      have hdb : (m.setDb (m.db.setChunkEmbedding chunk.chunkId vector model)).Sound model :=
        h.setDb (h.numbered.setChunkEmbedding hvector) (.setChunkEmbedding hvector)
          (h.covered.setChunkEmbedding hvector h.numbered)
      refine hdb.setDrain ⟨fun p hp => ?_, fun c hc hid => ?_⟩
      · exact (hpending p hp).trans ChunkStore.setChunkEmbedding_seq.ge
      · rcases ChunkStore.mem_setChunkEmbedding hvector hc with ⟨-, hhas, -⟩ | ⟨hother, -⟩
        · exact hhas
        · exact absurd hid hother
    · cases hstep
  | dequeue i =>
    have hdrain := h.drains i
    simp only [step] at hstep
    split at hstep
    · rename_i chunk pending hstored
      rw [hstored] at hdrain
      obtain ⟨hpending, hhas⟩ := hdrain
      simp only [OwnRow, hstored] at hok
      cases hstep
      have hcovered := h.covered.dequeueEmbedding fun hqueued c hc hkey =>
        hhas c hc (hok hqueued c hc hkey)
      have hdb : (m.setDb (m.db.dequeueEmbedding model chunk.key)).Sound model :=
        h.setDb ⟨h.numbered.id_le, h.numbered.key⟩ .dequeueEmbedding hcovered
      exact hdb.setDrain fun p hp => hpending p (List.mem_cons_of_mem _ hp)
    · cases hstep
  | recordFailure i =>
    have hdrain := h.drains i
    simp only [step] at hstep
    split at hstep
    · rename_i chunk reason pending hfailing
      rw [hfailing] at hdrain
      cases hstep
      have hkeeps : ChunkStore.KeepsQueue model m.db
          (m.db.recordEmbeddingFailure model chunk.key reason) :=
        ChunkStore.keepsQueue_recordEmbeddingFailure
      refine (h.setDb_of_keepsQueue hkeeps).setDrain fun p hp => ?_
      exact (hdrain p (List.mem_cons_of_mem _ hp)).trans hkeeps.seq.ge
    · cases hstep

/-! ## Runs -/

/-- The tables before any replace or drain has started. -/
def start (db : ChunkStore F) : ChunkQueue ι F := ⟨db, fun _ => [], fun _ => .idle⟩

def Run (model : String) (ok : ChunkQueue ι F → ChunkAct ι F → Prop) :
    ChunkQueue ι F → ChunkQueue ι F → Prop :=
  Moves (fun m act => m.step model act) ok

end ChunkQueue

/-- **Main result.** In every run whose dequeues find the chunk they embedded, every chunk without a
vector, but those a replace under way has still to settle, is queued, if this was so at the start. -/
theorem queue_loses_no_work (model : String) (db : ChunkStore F) (m : ChunkQueue ι F)
    (hnumbered : db.Numbered)
    (hqueued : ∀ c ∈ db.chunks, ¬c.HasVector model → db.Queued model c.key)
    (hrun : ChunkQueue.Run model (fun m act => m.OwnRow model act) (.start db) m) :
    ∀ c ∈ m.db.chunks, ¬c.HasVector model → ¬m.Owed c.key → m.db.Queued model c.key := by
  have hsound : (ChunkQueue.start db : ChunkQueue ι F).Sound model :=
    ⟨hnumbered, fun _ => trivial, fun c hc hmissing => .inl (hqueued c hc hmissing)⟩
  intro c hc hmissing howed
  have hrun := hrun.invariant (fun hok hstep h => ChunkQueue.step_sound hok hstep h) hsound
  exact (hrun.covered c hc hmissing).resolve_right howed

/-! ## Two runs -/

def ChunkStore.empty : ChunkStore Rat := ⟨[], fun _ _ _ => none, [], 0⟩

/-- The chunks without a vector of the model, and whether each is queued. -/
def ChunkStore.missing (model : String) (s : ChunkStore Rat) : List (Text × Bool) :=
  (s.chunks.filter fun c => ¬c.HasVector model).map fun c => (c.content, s.Queued model c.key)

/-- What a run leaves missing, and how much its replaces have still to settle. -/
def ChunkQueue.outcome (m : ChunkQueue Unit Rat) : List (Text × Bool) × Nat :=
  (m.db.missing "m", (m.unsettled ()).length)

/-- A chunk is embedded and its row taken off; then the memory is rewritten. -/
theorem queue_loses_no_work_rewritten_later : ∃ m : ChunkQueue Unit Rat,
    m.outcome = ([("z".toList, true)], 0) ∧
      ∀ c ∈ m.db.chunks, ¬c.HasVector "m" → ¬m.Owed c.key → m.db.Queued "m" c.key := by
  let acts : List (ChunkAct Unit Rat) := [.replace () "a" ["x".toList] none, .settle (),
    .read () 64 true, .embed () (.ok [1, 0]), .setEmbedding (), .dequeue (),
    .replace () "a" ["z".toList] none, .settle ()]
  have houtcome : (runActs (fun m act => m.step "m" act) (fun m act => m.OwnRow "m" act)
      (.start .empty) acts).map ChunkQueue.outcome = some ([("z".toList, true)], 0) := by
    decide
  obtain ⟨m, hrun, hm⟩ := Option.map_eq_some_iff.mp houtcome
  exact ⟨m, hm, queue_loses_no_work "m" .empty m ⟨nofun, nofun⟩ nofun (.of_acts hrun)⟩

/-- The memory is rewritten while the drain holds the vector of its old chunk. -/
theorem replacement_forgotten : ∃ m : ChunkQueue Unit Rat,
    ChunkQueue.Run "m" (fun _ _ => True) (.start .empty) m ∧
      ∃ c ∈ m.db.chunks, ¬c.HasVector "m" ∧ ¬m.Owed c.key ∧ ¬m.db.Queued "m" c.key := by
  let acts : List (ChunkAct Unit Rat) := [.replace () "a" ["x".toList] none, .settle (),
    .read () 64 true, .embed () (.ok [1, 0]), .replace () "a" ["z".toList] none, .settle (),
    .setEmbedding (), .dequeue ()]
  have houtcome : (runActs (fun m act => m.step "m" act) (fun _ _ => True)
      (.start .empty) acts).map ChunkQueue.outcome = some ([("z".toList, false)], 0) := by
    decide
  obtain ⟨m, hrun, hm⟩ := Option.map_eq_some_iff.mp houtcome
  obtain ⟨hmissing, hsettled⟩ := Prod.mk.inj hm
  have hmem : ("z".toList, false) ∈ m.db.missing "m" := by
    rw [hmissing]
    exact List.mem_singleton_self _
  obtain ⟨c, hc, heq⟩ := List.mem_map.mp hmem
  obtain ⟨hc, hvector⟩ := List.mem_filter.mp hc
  refine ⟨m, .of_acts hrun, c, hc, of_decide_eq_true hvector, ?_, ?_⟩
  · rintro ⟨⟨⟩, w, hw, -⟩
    rw [List.length_eq_zero_iff.mp hsettled] at hw
    cases hw
  · exact of_decide_eq_false (Prod.mk.inj heq).2

end Nanna.Memory
