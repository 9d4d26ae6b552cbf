import Nanna.Memory.Store

/-!
# Ingesting a memory

The three entry points that take a new text: `smart_ingest`, `remember_with_importance` and
`remember_scoped`. Each embeds the text, asks the store for the nearest row, and by the band of the
similarity reinforces that row, folds the text into it, or creates a row. The embedder is the
daemon's: a call may rebind the store to another provider before it returns.
-/

namespace Nanna.Memory

open Nanna.Lib

variable {F : Type} [Scalar F]

/-! ## The service -/

structure Service (F : Type) where
  store : Store F
  pendingUpdates : List (String × Rating)
  /-- Consecutive writes whose width disagreed with the binding, and that width. -/
  widthMismatchStreak : Nat × Nat
  /-- Rows parked without a vector since the last drain. -/
  queued : Nat

/-- What one call of the embedder gives: a vector or the reason there is none, and the model and
width the daemon rebound the store to on the way. -/
structure EmbedReply (F : Type) where
  result : Except String (List F)
  switchedTo : Option (String × Nat)

/-- The embedder, by the number of the call within one ingest. -/
abbrev EmbedFn (F : Type) := Nat → Text → EmbedReply F

/-- A fresh uuid and the clock. -/
structure IngestEnv where
  uuid : String
  now : Int

namespace Service

variable (svc : Service F)

/-- The service after a call of the embedder. -/
def hear (reply : EmbedReply F) : Service F :=
  match reply.switchedTo with
  | some (model, dimension) => { svc with store := svc.store.rebind model dimension }
  | none => svc

def rate (id : String) : Service F :=
  { svc with pendingUpdates := svc.pendingUpdates ++ [(id, .good)] }

def noteWidthAgreement : Service F :=
  { svc with widthMismatchStreak :=
      if svc.widthMismatchStreak.1 ≠ 0 then (0, 0) else svc.widthMismatchStreak }

def widthMismatchEscalation : Nat := 8

/-- `probe_and_align_dimension`, as `note_width_mismatch` calls it. -/
def probe (embed : EmbedFn F) : Service F :=
  let reply := embed 2 "dimension probe".toList
  let svc := svc.hear reply
  match reply.result with
  | .ok vector =>
    { svc with
      store := { svc.store with dimension := vector.length }, widthMismatchStreak := (0, 0) }
  | .error _ => svc

def noteWidthMismatch (embed : EmbedFn F) (observed : Nat) : Service F :=
  let streak :=
    if svc.widthMismatchStreak.2 = observed then (svc.widthMismatchStreak.1 + 1, observed)
    else (1, observed)
  let svc := { svc with widthMismatchStreak := streak }
  if streak.1 = widthMismatchEscalation then svc.probe embed else svc

end Service

/-! ## Creating a row -/

/-- `resolve_entry_vectors`: model stamp, active vector and buckets of a fresh row. -/
def resolveEntryVectors (model : Option String) (boundDim : Nat) (embedding : List F) :
    Option String × List F × (String → Option (List F)) :=
  if embedding.length ≠ boundDim then (none, [], fun _ => none)
  else (model, embedding, fun m => if model = some m then some embedding else none)

/-- A row with its handle as the id's prefix, when the caller issued one. -/
def handleId (env : IngestEnv) (metadata : Metadata) : String :=
  match metadata "source_id" with
  | some sourceId => s!"{sourceId}-{env.uuid}"
  | none => env.uuid

def ratedFsrs (env : IngestEnv) (importance : F) : FsrsState F :=
  { FsrsState.new env.now with importance := normalizeImportance importance }

abbrev Ingested (F : Type) := Service F × String × IngestAction

def storeUnembedded (env : IngestEnv) (svc : Service F) (content : Text) (metadata : Metadata)
    (fsrs : FsrsState F) (workspaceId : Option String) : Result (Ingested F) := do
  let id := handleId env metadata
  let store ← svc.store.add
    { id, content, embedding := [], embeddingModel := none, embeddings := fun _ => none, metadata,
      timestamp := env.now, fsrs, workspaceId }
  .ok ({ svc with store, queued := svc.queued + 1 }, id, .create)

/-- The create step the three entry points share. -/
def createMemory (embed : EmbedFn F) (env : IngestEnv) (svc : Service F) (id : String)
    (content : Text) (metadata : Metadata) (fsrs : FsrsState F) (workspaceId : Option String)
    (embedding : List F) : Result (Ingested F) := do
  let vectors := resolveEntryVectors svc.store.activeModel svc.store.dimension embedding
  let svc :=
    if embedding.length = svc.store.dimension then svc.noteWidthAgreement
    else svc.noteWidthMismatch embed embedding.length
  let store ← svc.store.add
    { id, content, embedding := vectors.2.1, embeddingModel := vectors.1, embeddings := vectors.2.2,
      metadata, timestamp := env.now, fsrs, workspaceId }
  .ok ({ svc with store }, id, .create)

/-- `create_global_memory`. -/
def createGlobalMemory (embed : EmbedFn F) (env : IngestEnv) (svc : Service F) (content : Text)
    (metadata : Metadata) (importance : F) (embedding : List F) : Result (Ingested F) :=
  createMemory embed env svc env.uuid content metadata (ratedFsrs env importance) none embedding

/-! ## Folding into a row -/

def separator : Text := "; ".toList

def mergeMemoryContent (existing incoming : Text) : Text :=
  let existing := existing.trim
  let incoming := incoming.trim
  if existing.contains incoming then existing
  else if incoming.contains existing then incoming
  else existing ++ separator ++ incoming

inductive FoldResult
  | merged
  | subset
  | contended
deriving DecidableEq

/-- The vector a rewrite stores: one of another width than the binding's is dropped. -/
def boundVector (svc : Service F) (embedding : List F) : List F × Option String :=
  if embedding.length = svc.store.dimension then (embedding, svc.store.activeModel) else ([], none)

/-- `rewrite_with_binding` for a caller that expects `expected`; the text lands with or without a
vector. -/
def rewriteWithBinding (svc : Service F) (id : String) (content : Text) (embedding : List F)
    (expected : Text) : Result (Option (List F) × Service F) := do
  let (vector, model) := boundVector svc embedding
  let (applied, store) ←
    svc.store.updateContentAndEmbeddingIf id (some expected) content vector model
  .ok (if applied then some vector else none, { svc with store })

/-- It rewrites the row while the row holds the expected text. -/
theorem rewriteWithBinding_ok {svc svc' : Service F} {id : String} {content expected : Text}
    {embedding : List F} {written : Option (List F)}
    (h : rewriteWithBinding svc id content embedding expected = .ok (written, svc')) :
    ∃ entry, svc.store.get id = some entry ∧
      (written = some (boundVector svc embedding).1 ∧ entry.content = expected ∧
          svc' =
            { svc with
              store := svc.store.modify id fun entry =>
                entry.rewrite content (Scalar.normalize (boundVector svc embedding).1)
                  (boundVector svc embedding).2 } ∨
        written = none ∧ entry.content ≠ expected ∧ svc' = svc) := by
  obtain ⟨⟨applied, store⟩, hupdate, h⟩ := bind_eq_ok.mp h
  cases h
  obtain ⟨entry, hget, heffect⟩ := Store.updateContentAndEmbeddingIf_ok hupdate
  refine ⟨entry, hget, ?_⟩
  rcases heffect with ⟨rfl, hcontent, rfl⟩ | ⟨rfl, hcontent, rfl⟩
  · exact .inl ⟨rfl, hcontent, rfl⟩
  · exact .inr ⟨rfl, hcontent, rfl⟩

/-- `fold_into_memory`; the embedder is called for the second time. -/
def foldIntoMemory (embed : EmbedFn F) (svc : Service F) (existing : MemoryEntry F)
    (incoming : Text) : Result (FoldResult × Service F) :=
  let merged := mergeMemoryContent existing.content incoming
  if merged = existing.content then .ok (.subset, svc)
  else
    let reply := embed 1 merged
    let svc := svc.hear reply
    match reply.result with
    | .error reason => .error (.io reason)
    | .ok vector => do
      let (written, svc) ← rewriteWithBinding svc existing.id merged vector existing.content
      .ok (if written.isSome then .merged else .contended, svc)

/-! ## The entry points -/

/-- The head of every entry point: embed the text, or store it without a vector. -/
def withEmbedding (embed : Option (EmbedFn F)) (svc : Service F) (content : Text)
    (unembedded : Service F → Result (Ingested F))
    (ingest : EmbedFn F → Service F → List F → Result (Ingested F)) : Result (Ingested F) :=
  match embed with
  | none => unembedded svc
  | some embed =>
    let reply := embed 0 content
    let svc := svc.hear reply
    match reply.result with
    | .error _ => unembedded svc
    | .ok embedding => ingest embed svc embedding

def smartIngest (embed : Option (EmbedFn F)) (env : IngestEnv) (svc : Service F) (content : Text)
    (metadata : Metadata) : Result (Ingested F) :=
  let fsrs := FsrsState.new env.now
  withEmbedding embed svc content
    (fun svc => storeUnembedded env svc content metadata fsrs none)
    fun embed svc embedding =>
      let create svc := createMemory embed env svc env.uuid content metadata fsrs none embedding
      match (svc.store.search embedding 1).head? with
      | none => create svc
      | some (existing, similarity) =>
        match IngestAction.fromSimilarity similarity with
        | .reinforce => .ok (svc.rate existing.id, existing.id, .reinforce)
        | .update => do
          let (folded, svc) ← foldIntoMemory embed svc existing content
          let svc := svc.rate existing.id
          match folded with
          | .merged | .subset => .ok (svc, existing.id, .update)
          | .contended => create svc
        | .create => create svc

/-- An error memory is not reinforced: let it die. -/
def errorMemory (content : Text) : Bool :=
  content.contains "Error:".toList || content.contains "Command failed".toList

/-- The importance raised to the new rating; a row that is gone is only logged. -/
def Service.raiseImportance (svc : Service F) (id : String) (importance : F) : Service F :=
  match svc.store.updateFsrs id fun fsrs =>
    if fsrs.importance < normalizeImportance importance then
      { fsrs with importance := normalizeImportance importance }
    else fsrs with
  | .ok store => { svc with store }
  | .error _ => svc

def rememberWithImportance (embed : Option (EmbedFn F)) (env : IngestEnv) (svc : Service F)
    (content : Text) (metadata : Metadata) (importance : F) : Result (Ingested F) :=
  withEmbedding embed svc content
    (fun svc => storeUnembedded env svc content metadata (ratedFsrs env importance) none)
    fun embed svc embedding =>
      let create svc := createGlobalMemory embed env svc content metadata importance embedding
      match (svc.store.search embedding 1).head? with
      | none => create svc
      | some (existing, similarity) =>
        if errorMemory existing.content then create svc
        else
          match IngestAction.fromSimilarity similarity with
          | .reinforce =>
            .ok ((svc.rate existing.id).raiseImportance existing.id importance, existing.id,
              .reinforce)
          | .update => do
            let (folded, svc) ← foldIntoMemory embed svc existing content
            let svc := svc.rate existing.id
            match folded with
            | .merged => .ok (svc, existing.id, .update)
            | .subset =>
              if existing.content.trim.contains content.trim then .ok (svc, existing.id, .update)
              else create svc
            | .contended => create svc
          | .create => create svc

/-- The write carries a handle the agent was given. -/
def addressable (metadata : Metadata) : Bool := (metadata "source_id").isSome

def rememberScoped (embed : Option (EmbedFn F)) (env : IngestEnv) (svc : Service F)
    (content : Text) (metadata : Metadata) (importance : F) (workspaceId : Option String) :
    Result (Ingested F) :=
  let fsrs := ratedFsrs env importance
  withEmbedding embed svc content
    (fun svc => storeUnembedded env svc content metadata fsrs workspaceId)
    fun embed svc embedding =>
      let create svc := createMemory embed env svc (handleId env metadata) content metadata fsrs
        workspaceId embedding
      match (svc.store.searchScoped embedding 1 workspaceId).head? with
      | none => create svc
      | some (existing, similarity) =>
        let action := IngestAction.fromSimilarity similarity
        if action = .create then create svc
        else if addressable metadata then create (svc.rate existing.id)
        else
          let svc := svc.rate existing.id
          if existing.content.trim.contains content.trim then .ok (svc, existing.id, action)
          else do
            let (folded, svc) ← foldIntoMemory embed svc existing content
            match folded with
            | .merged => .ok (svc, existing.id, action)
            | .subset | .contended => create svc

/-- A call of one of the entry points. -/
inductive IngestCall (F : Type)
  | smartIngest (content : Text) (metadata : Metadata)
  | rememberWithImportance (content : Text) (metadata : Metadata) (importance : F)
  | rememberScoped (content : Text) (metadata : Metadata) (importance : F)
      (workspaceId : Option String)

namespace IngestCall

def content : IngestCall F → Text
  | smartIngest content _ | rememberWithImportance content _ _ | rememberScoped content _ _ _ =>
    content

def metadata : IngestCall F → Metadata
  | smartIngest _ metadata | rememberWithImportance _ metadata _ | rememberScoped _ metadata _ _ =>
    metadata

/-- The scope the call is made for; `none` is global. -/
def scope : IngestCall F → Option String
  | smartIngest .. | rememberWithImportance .. => none
  | rememberScoped _ _ _ workspaceId => workspaceId

def run (embed : Option (EmbedFn F)) (env : IngestEnv) (svc : Service F) :
    IngestCall F → Result (Ingested F)
  | smartIngest content metadata => Memory.smartIngest embed env svc content metadata
  | rememberWithImportance content metadata importance =>
    Memory.rememberWithImportance embed env svc content metadata importance
  | rememberScoped content metadata importance workspaceId =>
    Memory.rememberScoped embed env svc content metadata importance workspaceId

end IngestCall

/-! ## Sample calls -/

def sampleIngestEnv : IngestEnv := ⟨"4a7b", 0⟩

/-- A store bound to a model of width two. -/
def sampleService (entries : List (MemoryEntry ℚ)) : Service ℚ :=
  ⟨⟨entries, 2, some "m"⟩, [], (0, 0), 0⟩

/-- An embedder that stays with its model. -/
def sampleEmbed (vector : Text → List ℚ) : EmbedFn ℚ := fun _ text => ⟨.ok (vector text), none⟩

end Nanna.Memory
