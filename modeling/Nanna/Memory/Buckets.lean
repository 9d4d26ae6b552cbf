import Nanna.Lib.Moves
import Nanna.Memory.IngestEffect

/-!
# The vectors of a model's bucket

An ingest awaits the embedder, searches, may await the embedder again for a merged text, reads the
binding, and only then writes. Between any two of these the daemon may rebind the store to another
provider, and other ingests run. `Buckets` is the store between two critical sections, with what
each ingest under way holds and a log of what every provider has returned (`made`). Ratings,
importance and the width streak, which no vector depends on, are left out; the width correction that
ends a streak is an action of its own.

`buckets_hold_their_models_vectors`: in a run whose ingests all find the provider of the vector in
hand still bound when they read the binding, or another width, or no binding, every vector stored
under a model's name was made by that model. The label is the binding's and the only other guard
compares widths, so a rebind to a model of the same width in between puts a vector of one model into
the bucket of another (`vector_stored_under_other_model`).
-/

namespace Nanna.Memory

open Nanna.Lib

variable {F : Type} [Scalar F]

/-! ## Labels -/

/-- A vector with the provider that made it. -/
structure Vectored (F : Type) where
  provider : String
  vector : List F

/-- The provider returned the vector, which is stored as it came or normalized. -/
def Produced (made : List (Vectored F)) (model : String) (vector : List F) : Prop :=
  ∃ raw, ⟨model, raw⟩ ∈ made ∧ (vector = raw ∨ vector = Scalar.normalize raw)

/-- The key of a vector without a model stamp; it matches no provider. -/
def legacyKey (vector : List F) : String := s!"legacy-{vector.length}d"

/-- The label is true, or says that the model is not known. -/
def Owns (made : List (Vectored F)) (model : String) (vector : List F) : Prop :=
  Produced made model vector ∨ model = legacyKey vector

/-- Every label of the entry's vectors is true: the stamp of the active one and the bucket keys. -/
structure Labelled (made : List (Vectored F)) (entry : MemoryEntry F) : Prop where
  active : entry.embedding = [] ∨
    ∀ model, entry.embeddingModel = some model → Owns made model entry.embedding
  bucket : ∀ model vector, entry.embeddings model = some vector → Owns made model vector

/-! ## The decisions of an ingest -/

inductive Verdict
  | done
  | fold
  | create
deriving DecidableEq

namespace IngestCall

variable (call : IngestCall F)

/-- The neighbour holds the text already, and the call looks. -/
def holds (existing : MemoryEntry F) (action : IngestAction) : Bool :=
  match call with
  | rememberScoped content metadata _ _ =>
    action ≠ .create && !addressable metadata && existing.content.trim.contains content.trim
  | _ => false

/-- What the call does about its nearest row. -/
def verdict (existing : MemoryEntry F) (action : IngestAction) : Verdict :=
  if call.reinforces existing action || call.holds existing action then .done
  else if call.folds existing action then .fold
  else .create

/-- What the call does after a fold. -/
def afterFold (existing : MemoryEntry F) : FoldResult → Verdict
  | .merged => .done
  | .subset =>
    match call with
    | smartIngest .. => .done
    | rememberWithImportance content _ _ =>
      if existing.content.trim.contains content.trim then .done else .create
    | rememberScoped .. => .create
  | .contended => .create

/-- The row the call creates, before its vectors. -/
def row (env : IngestEnv) : MemoryEntry F :=
  let draft (id : String) (metadata : Metadata) (fsrs : FsrsState F) (workspaceId : Option String) :
      MemoryEntry F :=
    { id, content := call.content, embedding := [], embeddingModel := none,
      embeddings := fun _ => none, metadata, timestamp := env.now, fsrs, workspaceId }
  match call with
  | smartIngest _ metadata => draft env.uuid metadata (FsrsState.new env.now) none
  | rememberWithImportance _ metadata importance =>
    draft env.uuid metadata (ratedFsrs env importance) none
  | rememberScoped _ metadata importance workspaceId =>
    draft (handleId env metadata) metadata (ratedFsrs env importance) workspaceId

/-- The row stored without a vector; its id carries the handle for every entry point. -/
def unembeddedRow (env : IngestEnv) : MemoryEntry F :=
  { call.row env with id := handleId env call.metadata }

end IngestCall

/-! ## The machine -/

/-- An ingest between two of its sections. -/
inductive Ingesting (F : Type)
  | idle
  /-- The text's vector has come. -/
  | embedded (call : IngestCall F) (made : Vectored F)
  /-- The embedder is at work on the merged text. -/
  | merging (call : IngestCall F) (made : Vectored F) (existing : MemoryEntry F) (merged : Text)
  | merged (call : IngestCall F) (made : Vectored F) (existing : MemoryEntry F) (merged : Text)
      (remade : Vectored F)
  /-- The binding has been read; the merged text is not written yet. -/
  | rewriting (call : IngestCall F) (made : Vectored F) (existing : MemoryEntry F) (merged : Text)
      (remade : Vectored F) (model : Option String) (boundDim : Nat)
  | creating (call : IngestCall F) (made : Vectored F)
  /-- The binding has been read; the row is not added yet. -/
  | adding (call : IngestCall F) (made : Vectored F) (model : Option String) (boundDim : Nat)

structure Buckets (ι F : Type) where
  svc : Service F
  jobs : ι → Ingesting F
  /-- What the providers have returned. -/
  made : List (Vectored F)

inductive BucketAct (ι F : Type)
  /-- `rebind_embeddings`, from whichever embedder call saw the switch. -/
  | rebind (model : String) (dimension : Nat)
  /-- `probe_and_align_dimension`. -/
  | align (dimension : Nat)
  /-- The embedder returns a vector for the call's text. -/
  | embed (i : ι) (call : IngestCall F) (made : Vectored F)
  /-- The embedder fails, and the row is stored without a vector. -/
  | park (i : ι) (call : IngestCall F) (env : IngestEnv)
  | decide (i : ι)
  /-- The embedder returns a vector for the merged text. -/
  | embedMerged (i : ι) (made : Vectored F)
  /-- The embedder fails on the merged text, and the call returns the error. -/
  | giveUp (i : ι)
  /-- `active_binding`. -/
  | bind (i : ι)
  | write (i : ι) (env : IngestEnv)

namespace Buckets

variable {ι : Type} [DecidableEq ι] (m : Buckets ι F)

def setJob (i : ι) (job : Ingesting F) : Buckets ι F :=
  { m with jobs := Function.update m.jobs i job }

def setStore (store : Store F) : Buckets ι F := { m with svc := { m.svc with store } }

/-- `store.add`; a row it refuses is an error of the call. -/
def add (entry : MemoryEntry F) : Buckets ι F :=
  match m.svc.store.add entry with
  | .ok store => m.setStore store
  | .error _ => m

def decide (i : ι) (call : IngestCall F) (made : Vectored F) : Buckets ι F :=
  match (call.hits m.svc made.vector).head? with
  | none => m.setJob i (.creating call made)
  | some (existing, similarity) =>
    match call.verdict existing (IngestAction.fromSimilarity similarity) with
    | .done => m.setJob i .idle
    | .create => m.setJob i (.creating call made)
    | .fold =>
      let merged := mergeMemoryContent existing.content call.content
      if merged = existing.content then
        match call.afterFold existing .subset with
        | .create => m.setJob i (.creating call made)
        | _ => m.setJob i .idle
      else m.setJob i (.merging call made existing merged)

def step : BucketAct ι F → Option (Buckets ι F)
  | .rebind model dimension => some (m.setStore (m.svc.store.rebind model dimension))
  | .align dimension => some (m.setStore { m.svc.store with dimension })
  | .embed i call made =>
    match m.jobs i with
    | .idle => some { m.setJob i (.embedded call made) with made := m.made ++ [made] }
    | _ => none
  | .park i call env =>
    match m.jobs i with
    | .idle => some (m.add (call.unembeddedRow env))
    | _ => none
  | .decide i =>
    match m.jobs i with
    | .embedded call made => some (m.decide i call made)
    | _ => none
  | .embedMerged i remade =>
    match m.jobs i with
    | .merging call made existing merged =>
      some { m.setJob i (.merged call made existing merged remade) with made := m.made ++ [remade] }
    | _ => none
  | .giveUp i =>
    match m.jobs i with
    | .merging .. => some (m.setJob i .idle)
    | _ => none
  | .bind i =>
    match m.jobs i with
    | .merged call made existing merged remade =>
      some (m.setJob i (.rewriting call made existing merged remade m.svc.store.activeModel
        m.svc.store.dimension))
    | .creating call made =>
      some (m.setJob i (.adding call made m.svc.store.activeModel m.svc.store.dimension))
    | _ => none
  | .write i env =>
    match m.jobs i with
    | .rewriting call made existing merged remade model boundDim =>
      let bound := if remade.vector.length = boundDim then (remade.vector, model) else ([], none)
      match m.svc.store.updateContentAndEmbeddingIf existing.id (some existing.content) merged
        bound.1 bound.2 with
      | .ok (true, store) => some ((m.setStore store).setJob i .idle)
      | .ok (false, store) => some ((m.setStore store).setJob i (.creating call made))
      | .error _ => some (m.setJob i .idle)
    | .adding call made model boundDim =>
      let vectors := resolveEntryVectors model boundDim made.vector
      some ((m.add { call.row env with
        embedding := vectors.2.1, embeddingModel := vectors.1,
        embeddings := vectors.2.2 }).setJob i .idle)
    | _ => none

/-- The binding is of the vector's provider, or gives it no label, or is too wide or narrow for it to
be kept. -/
def Fits (model : Option String) (boundDim : Nat) (made : Vectored F) : Prop :=
  model = none ∨ model = some made.provider ∨ made.vector.length ≠ boundDim

instance (model : Option String) (boundDim : Nat) (made : Vectored F) :
    Decidable (Fits model boundDim made) := inferInstanceAs (Decidable (_ ∨ _ ∨ _))

/-- An ingest that reads the binding finds the provider of its vector there. -/
def ProviderStillBound : BucketAct ι F → Prop
  | .bind i =>
    match m.jobs i with
    | .merged _ _ _ _ remade => Fits m.svc.store.activeModel m.svc.store.dimension remade
    | .creating _ made => Fits m.svc.store.activeModel m.svc.store.dimension made
    | _ => True
  | _ => True

instance (act : BucketAct ι F) : Decidable (m.ProviderStillBound act) := by
  unfold ProviderStillBound
  split
  · split <;> infer_instance
  · infer_instance

end Buckets

/-! ## Labels stay true -/

section Labels

variable {log log' : List (Vectored F)} {entry : MemoryEntry F} {model : String} {vector : List F}

theorem Owns.mono (hsub : log ⊆ log') (h : Owns log model vector) : Owns log' model vector := by
  rcases h with ⟨raw, hraw, hvector⟩ | hlegacy
  · exact .inl ⟨raw, hsub hraw, hvector⟩
  · exact .inr hlegacy

theorem Labelled.mono (hsub : log ⊆ log') (h : Labelled log entry) : Labelled log' entry :=
  ⟨h.active.imp_right fun hactive model hmodel => (hactive model hmodel).mono hsub,
    fun model vector hvector => (h.bucket model vector hvector).mono hsub⟩

/-- The buckets with the active vector retained. -/
theorem Labelled.retained (h : Labelled log entry) (hvector : entry.retained model = some vector) :
    Owns log model vector := by
  unfold MemoryEntry.retained at hvector
  split at hvector
  · exact h.bucket model vector hvector
  · rename_i hkeep
    have hne : entry.embedding ≠ [] := fun hnil => hkeep (.inl (by rw [hnil]; rfl))
    by_cases hkey : model = entry.embeddingModel.getD s!"legacy-{entry.embedding.length}d"
    · subst hkey
      rw [Function.update_self] at hvector
      obtain rfl := Option.some.inj hvector
      cases hstamp : entry.embeddingModel with
      | none => exact .inr rfl
      | some model => exact h.active.resolve_left hne model hstamp
    · rw [Function.update_of_ne hkey] at hvector
      exact h.bucket model vector hvector

theorem Labelled.rebind (h : Labelled log entry) (model : String) :
    Labelled log (entry.rebind model) := by
  unfold MemoryEntry.rebind
  cases hbucket : entry.retained model with
  | none => exact ⟨.inl rfl, fun m v hv => h.retained hv⟩
  | some vector =>
    refine ⟨.inr fun m hm => ?_, fun m v hv => h.retained hv⟩
    obtain rfl := Option.some.inj hm
    exact h.retained hbucket

omit [Scalar F] in
/-- A kept vector's label is its provider. -/
theorem Buckets.Fits.label {made : Vectored F} {model : String} {boundDim : Nat}
    (h : Buckets.Fits (some model) boundDim made) (hwidth : made.vector.length = boundDim) :
    model = made.provider := by
  rcases h with hnone | hsome | hne
  · cases hnone
  · exact Option.some.inj hsome
  · exact absurd hwidth hne

theorem labelled_unembedded (h : entry.embedding = []) (hbuckets : entry.embeddings = fun _ => none) :
    Labelled log entry :=
  ⟨.inl h, fun model vector hv => by rw [hbuckets] at hv; cases hv⟩

/-- A fresh row's vectors, resolved against a binding that fits. -/
theorem labelled_created {made : Vectored F} {bound : Option String} {boundDim : Nat}
    (hmade : made ∈ log) (hfits : Buckets.Fits bound boundDim made) (row : MemoryEntry F) :
    Labelled log { row with
      embedding := Scalar.normalize (resolveEntryVectors bound boundDim made.vector).2.1
      embeddingModel := (resolveEntryVectors bound boundDim made.vector).1
      embeddings := (resolveEntryVectors bound boundDim made.vector).2.2 } := by
  unfold resolveEntryVectors
  split
  · refine labelled_unembedded ?_ rfl
    exact List.length_eq_zero_iff.mp (Scalar.length_normalize _)
  · rename_i hwidth
    have hlabel : ∀ model, bound = some model → model = made.provider := by
      rintro model rfl
      exact hfits.label (not_not.mp hwidth)
    refine ⟨.inr fun model hmodel => ?_, fun model vector hvector => ?_⟩
    · obtain rfl := hlabel model hmodel
      exact .inl ⟨made.vector, hmade, .inr rfl⟩
    · dsimp only at hvector
      split at hvector
      · obtain rfl := Option.some.inj hvector
        obtain rfl := hlabel model ‹_›
        exact .inl ⟨made.vector, hmade, .inl rfl⟩
      · cases hvector

/-- A merged text's vector, resolved against a binding that fits. -/
theorem labelled_rewrite {made : Vectored F} {bound : Option String} {boundDim : Nat}
    (hmade : made ∈ log) (hfits : Buckets.Fits bound boundDim made) (content : Text) :
    Labelled log (entry.rewrite content
      (Scalar.normalize (if made.vector.length = boundDim then (made.vector, bound) else ([], none)).1)
      (if made.vector.length = boundDim then (made.vector, bound) else ([], none)).2) := by
  have hnil : Scalar.normalize ([] : List F) = [] :=
    List.length_eq_zero_iff.mp (Scalar.length_normalize _)
  split
  · rename_i hwidth
    have hlabel : ∀ model, bound = some model → model = made.provider := by
      rintro model rfl
      exact hfits.label hwidth
    refine ⟨.inr fun model hmodel => ?_, fun model vector hvector => ?_⟩
    · dsimp only [MemoryEntry.rewrite] at hmodel
      split at hmodel
      · cases hmodel
      · obtain rfl := hlabel model hmodel
        exact .inl ⟨made.vector, hmade, .inr rfl⟩
    · dsimp only [MemoryEntry.rewrite] at hvector
      split at hvector
      · rename_i hkept
        obtain rfl := Option.some.inj hvector
        obtain rfl := hlabel model hkept.2
        exact .inl ⟨made.vector, hmade, .inr rfl⟩
      · cases hvector
  · dsimp only
    rw [hnil]
    exact labelled_unembedded rfl (funext fun model => rfl)

end Labels

/-! ## Runs -/

section Runs

variable {ι : Type} [DecidableEq ι]

/-- What an ingest holds has come from a provider, and the binding it has read fits. -/
def Ingesting.Sound (log : List (Vectored F)) : Ingesting F → Prop
  | .idle => True
  | .embedded _ made | .merging _ made _ _ | .creating _ made => made ∈ log
  | .merged _ made _ _ remade => made ∈ log ∧ remade ∈ log
  | .rewriting _ made _ _ remade model boundDim =>
    made ∈ log ∧ remade ∈ log ∧ Buckets.Fits model boundDim remade
  | .adding _ made model boundDim => made ∈ log ∧ Buckets.Fits model boundDim made

omit [Scalar F] in
theorem Ingesting.Sound.mono {log log' : List (Vectored F)} (hsub : log ⊆ log')
    {job : Ingesting F} (h : job.Sound log) : job.Sound log' := by
  cases job with
  | idle => trivial
  | embedded | merging | creating => exact hsub h
  | merged => exact ⟨hsub h.1, hsub h.2⟩
  | rewriting => exact ⟨hsub h.1, hsub h.2.1, h.2.2⟩
  | adding => exact ⟨hsub h.1, h.2⟩

structure Buckets.Sound (m : Buckets ι F) : Prop where
  labelled : ∀ entry ∈ m.svc.store.entries, Labelled m.made entry
  jobs : ∀ i, (m.jobs i).Sound m.made

namespace Buckets

variable {m m' : Buckets ι F}

theorem Sound.setJob {i : ι} {job : Ingesting F} (h : m.Sound) (hjob : job.Sound m.made) :
    (m.setJob i job).Sound :=
  ⟨h.labelled, (Function.forall_update_iff m.jobs fun _ job => job.Sound m.made).mpr
    ⟨hjob, fun j _ => h.jobs j⟩⟩

omit [DecidableEq ι] in
theorem Sound.setStore {store : Store F} (h : m.Sound)
    (hstore : ∀ entry ∈ store.entries, Labelled m.made entry) : (m.setStore store).Sound :=
  ⟨hstore, h.jobs⟩

omit [DecidableEq ι] in
/-- A provider's vector goes into the log. -/
theorem Sound.log (h : m.Sound) (made : Vectored F) : Sound { m with made := m.made ++ [made] } :=
  ⟨fun entry hentry => (h.labelled entry hentry).mono (List.subset_append_left _ _),
    fun i => (h.jobs i).mono (List.subset_append_left _ _)⟩

omit [DecidableEq ι] in
theorem Sound.add {entry : MemoryEntry F} (h : m.Sound)
    (hentry : Labelled m.made { entry with embedding := Scalar.normalize entry.embedding }) :
    (m.add entry).Sound := by
  unfold Buckets.add
  cases hadd : m.svc.store.add entry with
  | error => exact h
  | ok store =>
    refine h.setStore fun e he => ?_
    obtain ⟨⟨⟩, -, hadd⟩ := bind_eq_ok.mp hadd
    cases hadd
    rcases List.mem_append.mp he with he | he
    · exact h.labelled e he
    · rw [List.mem_singleton.mp he]
      exact hentry

theorem Sound.decide {i : ι} {call : IngestCall F} {made : Vectored F} (h : m.Sound)
    (hmade : made ∈ m.made) : (m.decide i call made).Sound := by
  unfold Buckets.decide
  split
  · exact h.setJob hmade
  · split
    · exact h.setJob trivial
    · exact h.setJob hmade
    · dsimp only
      split
      · split
        · exact h.setJob hmade
        · exact h.setJob trivial
      · exact h.setJob hmade

theorem step_sound {act : BucketAct ι F} (hok : m.ProviderStillBound act)
    (hstep : m.step act = some m') (h : m.Sound) : m'.Sound := by
  cases act with
  | rebind model dimension =>
    cases hstep
    refine h.setStore fun entry hentry => ?_
    obtain ⟨old, hold, rfl⟩ := List.mem_map.mp hentry
    exact (h.labelled old hold).rebind model
  | align dimension =>
    cases hstep
    exact h.setStore h.labelled
  | embed i call made =>
    simp only [step] at hstep
    split at hstep
    · cases hstep
      exact (h.log made).setJob (List.mem_append_right _ (List.mem_singleton_self _))
    · cases hstep
  | park i call env =>
    simp only [step] at hstep
    split at hstep
    · cases hstep
      refine h.add (labelled_unembedded ?_ ?_)
      · cases call <;> exact List.length_eq_zero_iff.mp (Scalar.length_normalize _)
      · cases call <;> rfl
    · cases hstep
  | decide i =>
    have hjob := h.jobs i
    simp only [step] at hstep
    split at hstep
    · rename_i call made hembedded
      rw [hembedded] at hjob
      cases hstep
      exact h.decide hjob
    · cases hstep
  | embedMerged i remade =>
    have hjob := h.jobs i
    simp only [step] at hstep
    split at hstep
    · rename_i call made existing merged hmerging
      rw [hmerging] at hjob
      cases hstep
      exact (h.log remade).setJob ⟨List.mem_append_left _ hjob,
        List.mem_append_right _ (List.mem_singleton_self _)⟩
    · cases hstep
  | giveUp i =>
    simp only [step] at hstep
    split at hstep
    · cases hstep
      exact h.setJob trivial
    · cases hstep
  | bind i =>
    have hjob := h.jobs i
    simp only [step] at hstep
    split at hstep
    · rename_i call made existing merged remade hmerged
      rw [hmerged] at hjob
      simp only [ProviderStillBound, hmerged] at hok
      cases hstep
      exact h.setJob ⟨hjob.1, hjob.2, hok⟩
    · rename_i call made hcreating
      rw [hcreating] at hjob
      simp only [ProviderStillBound, hcreating] at hok
      cases hstep
      exact h.setJob ⟨hjob, hok⟩
    · cases hstep
  | write i env =>
    have hjob := h.jobs i
    simp only [step] at hstep
    split at hstep
    · rename_i call made existing merged remade model boundDim hrewriting
      rw [hrewriting] at hjob
      obtain ⟨hmade, hremade, hfits⟩ := hjob
      split at hstep
      · rename_i store hupdate
        cases hstep
        obtain ⟨entry, -, ⟨-, -, rfl⟩ | ⟨happlied, -, -⟩⟩ :=
          Store.updateContentAndEmbeddingIf_ok hupdate
        · refine (h.setStore ?_).setJob trivial
          exact forall_modifyFirst h.labelled fun _ _ => labelled_rewrite hremade hfits merged
        · cases happlied
      · rename_i store hupdate
        cases hstep
        obtain ⟨entry, -, ⟨happlied, -, -⟩ | ⟨-, -, rfl⟩⟩ :=
          Store.updateContentAndEmbeddingIf_ok hupdate
        · cases happlied
        · exact (h.setStore h.labelled).setJob hmade
      · cases hstep
        exact h.setJob trivial
    · rename_i call made model boundDim hadding
      rw [hadding] at hjob
      cases hstep
      have hadd : (m.add { call.row env with
          embedding := (resolveEntryVectors model boundDim made.vector).2.1
          embeddingModel := (resolveEntryVectors model boundDim made.vector).1
          embeddings := (resolveEntryVectors model boundDim made.vector).2.2 }).Sound :=
        h.add (labelled_created hjob.1 hjob.2 (call.row env))
      exact hadd.setJob trivial
    · cases hstep

/-- A service before any ingest has started, with the vectors the providers have made so far. -/
def start (svc : Service F) (made : List (Vectored F)) : Buckets ι F := ⟨svc, fun _ => .idle, made⟩

end Buckets

/-- **Main result.** In every run whose ingests find the provider of the vector in hand still bound
when they read the binding (or no binding, or one of another width), every vector stored under a
model's name was made by that model, if this was so at the start. -/
theorem buckets_hold_their_models_vectors (svc : Service F) (made : List (Vectored F))
    (m : Buckets ι F) (hstart : ∀ entry ∈ svc.store.entries, Labelled made entry)
    (hrun : Moves Buckets.step Buckets.ProviderStillBound (Buckets.start svc made) m) :
    ∀ entry ∈ m.svc.store.entries, Labelled m.made entry :=
  (hrun.invariant (fun hok hstep h => Buckets.step_sound hok hstep h)
    ⟨hstart, fun _ => trivial⟩).labelled

end Runs

/-! ## Two runs -/

/-- The label of each vector of a model's bucket. -/
def Buckets.bucket (m : Buckets Bool ℚ) (model : String) : List (Option (List ℚ)) :=
  m.svc.store.entries.map fun entry => entry.embeddings model

def sampleRemember (text : String) : IngestCall ℚ :=
  .rememberScoped text.toList (fun _ => none) 3.0 none

/-- Two ingests, with a rebind after the first has read the binding. -/
theorem buckets_hold_their_models_vectors_rebound : ∃ m : Buckets Bool ℚ,
    m.bucket "m" = [some [1, 0], none] ∧ m.bucket "n" = [none, some [0, 1]] ∧
      ∀ entry ∈ m.svc.store.entries, Labelled m.made entry := by
  let acts : List (BucketAct Bool ℚ) := [.embed false (sampleRemember "tea") ⟨"m", [1, 0]⟩,
    .decide false, .bind false, .rebind "n" 2, .embed true (sampleRemember "jam") ⟨"n", [0, 1]⟩,
    .write false sampleIngestEnv, .decide true, .bind true, .write true sampleIngestEnv]
  have hbuckets : (runActs Buckets.step Buckets.ProviderStillBound
      (.start (sampleService []) []) acts).map (fun m => (m.bucket "m", m.bucket "n")) =
      some ([some [1, 0], none], [none, some [0, 1]]) := by
    decide +kernel
  obtain ⟨m, hrun, hm⟩ := Option.map_eq_some_iff.mp hbuckets
  obtain ⟨hfirst, hsecond⟩ := Prod.mk.inj hm
  exact ⟨m, hfirst, hsecond, buckets_hold_their_models_vectors (sampleService []) [] m
    (fun _ h => absurd h List.not_mem_nil) (.of_acts hrun)⟩

/-- While one ingest searches, another finds the provider switched to one of the same width: the
first vector goes into the bucket of a model that did not make it. -/
theorem vector_stored_under_other_model : ∃ m : Buckets Bool ℚ,
    Moves Buckets.step (fun _ _ => True) (Buckets.start (sampleService []) []) m ∧
      ∃ entry ∈ m.svc.store.entries, ¬Labelled m.made entry := by
  let acts : List (BucketAct Bool ℚ) := [.embed false (sampleRemember "tea") ⟨"m", [1, 0]⟩,
    .rebind "n" 2, .embed true (sampleRemember "jam") ⟨"n", [0, 1]⟩, .decide false, .bind false,
    .write false sampleIngestEnv]
  have hbuckets : (runActs Buckets.step (fun _ _ => True)
      (.start (sampleService []) []) acts).map (fun m =>
        (m.bucket "n", m.made.map fun v => (v.provider, v.vector))) =
      some ([some [1, 0]], [("m", [1, 0]), ("n", [0, 1])]) := by
    decide
  obtain ⟨m, hrun, hm⟩ := Option.map_eq_some_iff.mp hbuckets
  obtain ⟨hbucket, hmade⟩ := Prod.mk.inj hm
  refine ⟨m, .of_acts hrun, ?_⟩
  have hmem : some [1, 0] ∈ m.bucket "n" := by
    rw [hbucket]
    exact List.mem_singleton_self _
  obtain ⟨entry, hentry, hvector⟩ := List.mem_map.mp hmem
  refine ⟨entry, hentry, fun h => ?_⟩
  rcases h.bucket "n" [1, 0] hvector with ⟨raw, hraw, hsame⟩ | hlegacy
  · have hlog : ("n", raw) ∈ m.made.map fun v => (v.provider, v.vector) :=
      List.mem_map_of_mem (f := fun v : Vectored ℚ => (v.provider, v.vector)) hraw
    rw [hmade] at hlog
    have hraw : raw = [0, 1] := by simpa using hlog
    subst hraw
    rcases hsame with hsame | hsame
    · exact absurd hsame (by decide)
    · exact absurd hsame (by decide)
  · exact absurd hlegacy (by decide)

end Nanna.Memory
