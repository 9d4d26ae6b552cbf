import Nanna.Lib.Moves
import Nanna.Memory.Ingest

/-!
# Backfilled vectors and the text they describe

`backfill_embeddings` lists the entries without a vector for the bound model, and for each listed
text awaits the embedder and stores what it gave, by id. Other callers create, rewrite and remove
entries at any of these points. `Backfills` is the service between two critical sections, with what
each backfill under way holds; the binding does not change during a run.

`vectors_describe_text`: in a run whose storing steps all find the listed text still in the entry,
every vector of every entry is the model's vector of the entry's text. Rewrites need no condition,
since they drop or replace every vector with the text. `stale_vector_stored` is the run in which the
text changes between the embedding and the storing.
-/

namespace Nanna.Memory

open Nanna.Lib

variable {F : Type} [Scalar F]

/-! ## Described entries -/

/-- The vector each model gives a text; `none` is a provider the daemon has not named. -/
abbrev Models (F : Type) := Option String → Text → List F

/-- The model's vector of the text, as it came or normalized. -/
def Made (E : Models F) (model : Option String) (vector : List F) (text : Text) : Prop :=
  vector = E model text ∨ vector = Scalar.normalize (E model text)

/-- Every vector the entry holds is of its text: the active one by the bound model, each bucket by
its own. -/
structure Describes (E : Models F) (bound : Option String) (entry : MemoryEntry F) : Prop where
  active : entry.embedding = [] ∨ Made E bound entry.embedding entry.content
  bucket : ∀ model vector, entry.embeddings model = some vector →
    Made E (some model) vector entry.content

/-! ## The machine -/

/-- A backfill under way. -/
inductive Job (F : Type)
  | idle
  | listed (model : String) (pending : List (String × Text))
  /-- The embedder has returned; the vector is not stored yet. -/
  | embedded (model id : String) (content : Text) (vector : List F) (pending : List (String × Text))

structure Backfills (ι F : Type) where
  svc : Service F
  jobs : ι → Job F

/-- The vectors a caller adds a row with: none, those of an ingest, or the unlabelled one of a
consolidation. -/
inductive FreshVectors
  | none
  | bound
  | unlabelled

def freshEntry (E : Models F) (s : Store F) (entry : MemoryEntry F) : FreshVectors → MemoryEntry F
  | .none => { entry with embedding := [], embeddingModel := .none, embeddings := fun _ => .none }
  | .bound =>
    let vectors := resolveEntryVectors s.activeModel s.dimension (E s.activeModel entry.content)
    { entry with
      embedding := vectors.2.1, embeddingModel := vectors.1, embeddings := vectors.2.2 }
  | .unlabelled =>
    { entry with
      embedding := E s.activeModel entry.content, embeddingModel := .none,
      embeddings := fun _ => .none }

/-- A critical section of a backfill or of another caller. -/
inductive BackfillAct (ι F : Type)
  | create (entry : MemoryEntry F) (vectors : FreshVectors)
  | updateContent (id : String) (content : Text)
  /-- A merge, a fold or an expansion of the text `expected`. -/
  | rewrite (id : String) (expected content : Text)
  | remove (keep : MemoryEntry F → Bool)
  | list (i : ι) (model : String) (batch : Nat)
  | embed (i : ι)
  /-- The embedder fails; the rest is left for the next pass. -/
  | giveUp (i : ι)
  | store (i : ι)

section Machine

variable {ι : Type} [DecidableEq ι]

namespace Backfills

variable (m : Backfills ι F)

def setJob (i : ι) (job : Job F) : Backfills ι F := { m with jobs := Function.update m.jobs i job }

/-- The service after a section that may fail without effect. -/
def setStore (result : Result (Store F)) : Backfills ι F :=
  match result with
  | .ok store => { m with svc := { m.svc with store } }
  | .error _ => m

def step (E : Models F) : BackfillAct ι F → Option (Backfills ι F)
  | .create entry vectors =>
    some (m.setStore (m.svc.store.add (freshEntry E m.svc.store entry vectors)))
  | .updateContent id content => some (m.setStore (m.svc.store.updateContent id content))
  | .rewrite id expected content =>
    match rewriteWithBinding m.svc id content (E m.svc.store.activeModel content) expected with
    | .ok (_, svc) => some { m with svc }
    | .error _ => some m
  | .remove keep =>
    some (m.setStore (.ok { m.svc.store with entries := m.svc.store.entries.filter keep }))
  | .list i model batch =>
    match m.jobs i with
    | .idle =>
      if m.svc.store.activeModel = some model then
        some (m.setJob i (.listed model (m.svc.store.entriesMissingModel model batch)))
      else some m
    | _ => none
  | .embed i =>
    match m.jobs i with
    | .listed _ [] => some (m.setJob i .idle)
    | .listed model ((id, content) :: pending) =>
      some (m.setJob i (.embedded model id content (E m.svc.store.activeModel content) pending))
    | _ => none
  | .giveUp i =>
    match m.jobs i with
    | .listed .. => some (m.setJob i .idle)
    | _ => none
  | .store i =>
    match m.jobs i with
    | .embedded model id _ vector pending =>
      if m.svc.store.activeModel = some model then
        some ((m.setStore (m.svc.store.setEmbeddingForModel id model vector true)).setJob i
          (.listed model pending))
      else some (m.setJob i .idle)
    | _ => none

/-- A storing step finds the text it lists still in the entry. -/
def TextListed : BackfillAct ι F → Prop
  | .store i =>
    match m.jobs i with
    | .embedded _ id content _ _ =>
      ((m.svc.store.get id).all fun entry => entry.content = content) = true
    | _ => True
  | _ => True

instance (act : BackfillAct ι F) : Decidable (m.TextListed act) := by
  unfold TextListed
  split
  · split <;> infer_instance
  · infer_instance

end Backfills

end Machine

/-! ## Each write keeps the vectors described -/

section Writes

variable {E : Models F} {bound : Option String} {entry : MemoryEntry F}

theorem normalize_nil : Scalar.normalize ([] : List F) = [] :=
  List.length_eq_zero_iff.mp (Scalar.length_normalize [])

theorem describes_retext (content : Text) : Describes E bound (entry.retext content) :=
  ⟨.inl rfl, fun _ _ h => nomatch h⟩

/-- The vectors of a created row, after `add` has normalized the active one. -/
theorem describes_fresh {s : Store F} (hbound : s.activeModel = bound) (vectors : FreshVectors) :
    Describes E bound { freshEntry E s entry vectors with
      embedding := Scalar.normalize (freshEntry E s entry vectors).embedding } := by
  subst hbound
  cases vectors with
  | none => exact ⟨.inl normalize_nil, fun _ _ h => nomatch h⟩
  | bound =>
    simp only [freshEntry, resolveEntryVectors]
    split_ifs with hwidth
    · exact ⟨.inl normalize_nil, fun _ _ h => nomatch h⟩
    · refine ⟨.inr (.inr rfl), fun model vector h => ?_⟩
      simp only at h
      split_ifs at h with hmodel
      cases h
      rw [← hmodel]
      exact .inl rfl
  | unlabelled => exact ⟨.inr (.inr rfl), fun _ _ h => nomatch h⟩

theorem describes_rewrite {content : Text} {vector : List F} {model : Option String}
    (h : vector = [] ∨ vector = E bound content ∧ model = bound) :
    Describes E bound (entry.rewrite content (Scalar.normalize vector) model) := by
  rcases h with rfl | ⟨rfl, rfl⟩
  · rw [normalize_nil]
    exact ⟨.inl rfl, fun _ _ h => nomatch h⟩
  · refine ⟨.inr (.inr rfl), fun m v h => ?_⟩
    simp only [MemoryEntry.rewrite] at h
    split_ifs at h with hmodel
    cases h
    rw [← hmodel.2]
    exact .inr rfl

/-- Storing the bound model's vector of the entry's own text. -/
theorem describes_setEmbedding {model : String} (hbound : bound = some model)
    (h : Describes E bound entry) :
    Describes E bound (entry.setEmbedding model (E bound entry.content) true) := by
  refine ⟨.inr (.inl rfl), fun m v hm => ?_⟩
  change Function.update entry.embeddings model _ m = some v at hm
  by_cases hsame : m = model
  · subst hsame
    rw [Function.update_self] at hm
    cases hm
    rw [← hbound]
    exact .inl rfl
  · rw [Function.update_of_ne hsame] at hm
    exact h.bucket m v hm

end Writes

/-! ## Runs -/

section Runs

variable {ι : Type} [DecidableEq ι] {E : Models F} {bound : Option String}

/-- What a backfill holds is of the bound model. -/
def Job.Sound (E : Models F) (bound : Option String) : Job F → Prop
  | .idle => True
  | .listed model _ => bound = some model
  | .embedded model _ content vector _ => bound = some model ∧ vector = E bound content

structure Backfills.Sound (E : Models F) (bound : Option String) (m : Backfills ι F) : Prop where
  binding : m.svc.store.activeModel = bound
  described : ∀ entry ∈ m.svc.store.entries, Describes E bound entry
  jobs : ∀ i, (m.jobs i).Sound E bound

namespace Backfills

variable {m m' : Backfills ι F}

theorem Sound.setJob {i : ι} {job : Job F} (h : m.Sound E bound) (hjob : job.Sound E bound) :
    (m.setJob i job).Sound E bound :=
  ⟨h.binding, h.described, (Function.forall_update_iff m.jobs fun _ job => job.Sound E bound).mpr
    ⟨hjob, fun j _ => h.jobs j⟩⟩

omit [DecidableEq ι] in
/-- A write of the store that keeps the binding and describes what it writes. -/
theorem Sound.setStore {result : Result (Store F)} (h : m.Sound E bound)
    (hstore : ∀ store, result = .ok store → store.activeModel = m.svc.store.activeModel ∧
      ∀ entry ∈ store.entries, Describes E bound entry) :
    (m.setStore result).Sound E bound := by
  cases result with
  | error _ => exact h
  | ok store =>
    obtain ⟨hbinding, hdescribed⟩ := hstore store rfl
    exact ⟨hbinding.trans h.binding, hdescribed, h.jobs⟩

omit [DecidableEq ι] in
/-- The write of one row by id. -/
theorem Sound.modify {id : String} {f : MemoryEntry F → MemoryEntry F} (h : m.Sound E bound)
    (hf : ∀ entry, m.svc.store.get id = some entry → Describes E bound (f entry)) :
    ∀ entry ∈ (m.svc.store.modify id f).entries, Describes E bound entry :=
  forall_modifyFirst h.described hf

theorem step_sound {act : BackfillAct ι F} (hok : m.TextListed act)
    (hstep : m.step E act = some m') (h : m.Sound E bound) : m'.Sound E bound := by
  cases act with
  | create entry vectors =>
    cases hstep
    refine h.setStore fun store hadd => ?_
    obtain ⟨⟨⟩, -, hadd⟩ := bind_eq_ok.mp hadd
    cases hadd
    refine ⟨rfl, fun e he => ?_⟩
    rcases List.mem_append.mp he with he | he
    · exact h.described e he
    · rw [List.mem_singleton.mp he]
      exact describes_fresh h.binding vectors
  | updateContent id content =>
    cases hstep
    refine h.setStore fun store hupdate => ?_
    unfold Store.updateContent at hupdate
    split at hupdate
    · cases hupdate
    · cases hupdate
      exact ⟨rfl, h.modify fun entry _ => describes_retext content⟩
  | rewrite id expected content =>
    simp only [step] at hstep
    split at hstep
    · rename_i written svc hwrite
      cases hstep
      obtain ⟨entry, -, ⟨-, -, rfl⟩ | ⟨-, -, rfl⟩⟩ := rewriteWithBinding_ok hwrite
      · refine ⟨h.binding, h.modify fun entry _ => describes_rewrite ?_, h.jobs⟩
        unfold boundVector
        split_ifs
        · exact .inr ⟨congrArg (E · content) h.binding, h.binding⟩
        · exact .inl rfl
      · exact h
    · cases hstep
      exact h
  | remove keep =>
    cases hstep
    refine h.setStore fun store hkeep => ?_
    cases hkeep
    exact ⟨rfl, fun e he => h.described e (List.mem_of_mem_filter he)⟩
  | list i model batch =>
    simp only [step] at hstep
    split at hstep
    · split_ifs at hstep with hactive
      · cases hstep
        exact h.setJob (h.binding.symm.trans hactive)
      · cases hstep
        exact h
    · cases hstep
  | embed i =>
    have hjob := h.jobs i
    simp only [step] at hstep
    split at hstep
    · cases hstep
      exact h.setJob trivial
    · rename_i model id content pending hlisted
      rw [hlisted] at hjob
      cases hstep
      exact h.setJob ⟨hjob, congrArg (E · content) h.binding⟩
    · cases hstep
  | giveUp i =>
    simp only [step] at hstep
    split at hstep
    · cases hstep
      exact h.setJob trivial
    · cases hstep
  | store i =>
    have hjob := h.jobs i
    simp only [step] at hstep
    split at hstep
    · rename_i model id content vector pending hembedded
      rw [hembedded] at hjob
      obtain ⟨hbound, rfl⟩ := hjob
      simp only [TextListed, hembedded] at hok
      split_ifs at hstep
      · cases hstep
        refine (h.setStore fun store hset => ?_).setJob hbound
        obtain ⟨⟨⟩, -, hset⟩ := bind_eq_ok.mp hset
        split at hset
        · cases hset
        · cases hset
          refine ⟨rfl, h.modify fun entry hentry => ?_⟩
          rw [hentry, Option.all_some, decide_eq_true_eq] at hok
          subst hok
          exact describes_setEmbedding hbound (h.described entry (List.mem_of_find?_eq_some hentry))
      · cases hstep
        exact h.setJob trivial
    · cases hstep

/-- The service before any backfill has started. -/
def start (svc : Service F) : Backfills ι F := ⟨svc, fun _ => .idle⟩

/-- The states that critical sections which all meet `ok` lead to. -/
def Run (E : Models F) (ok : Backfills ι F → BackfillAct ι F → Prop) :
    Backfills ι F → Backfills ι F → Prop :=
  Moves (fun m act => m.step E act) ok

end Backfills

/-- **Main result.** In every run whose storing steps find the listed text still in the entry, every
vector of every entry describes the entry's text, if this was so at the start. -/
theorem vectors_describe_text (E : Models F) (svc : Service F) (m : Backfills ι F)
    (hstart : ∀ entry ∈ svc.store.entries, Describes E svc.store.activeModel entry)
    (hrun : Backfills.Run E Backfills.TextListed (.start svc) m) :
    ∀ entry ∈ m.svc.store.entries, Describes E svc.store.activeModel entry := by
  have hsound : (Backfills.start svc : Backfills ι F).Sound E svc.store.activeModel :=
    ⟨rfl, hstart, fun _ => trivial⟩
  exact (hrun.invariant (fun hok hstep h => Backfills.step_sound hok hstep h) hsound).described

end Runs

/-! ## Two runs -/

/-- A model of two directions. -/
def sampleModels : Models ℚ := fun _ text => if text = "old".toList then [1, 0] else [0, 1]

/-- A store with one entry that waits for its vector. -/
def waitingService : Service ℚ :=
  sampleService [(sampleEntry "a" [] [] "m" none).retext "old".toList]

def Backfills.vectors (m : Backfills Unit ℚ) : List (Text × List ℚ) :=
  m.svc.store.entries.map fun entry => (entry.content, entry.embedding)

/-- The text changes before the entry is listed, and another row is created before its vector is
stored. -/
theorem vectors_describe_text_listed_late : ∃ m : Backfills Unit ℚ,
    m.vectors = [("new".toList, [0, 1]), ("old".toList, [1, 0])] ∧
      ∀ entry ∈ m.svc.store.entries, Describes sampleModels (some "m") entry := by
  let acts : List (BackfillAct Unit ℚ) := [.updateContent "a" "new".toList, .list () "m" 8,
    .embed (), .create (sampleEntry "b" "old".toList [] "m" none) .bound, .store ()]
  have hvectors : (runActs (fun m act => m.step sampleModels act) Backfills.TextListed
      (.start waitingService) acts).map Backfills.vectors =
      some [("new".toList, [0, 1]), ("old".toList, [1, 0])] := by
    decide
  obtain ⟨m, hrun, hm⟩ := Option.map_eq_some_iff.mp hvectors
  refine ⟨m, hm, vectors_describe_text sampleModels waitingService m ?_ (.of_acts hrun)⟩
  intro entry hentry
  obtain rfl := List.mem_singleton.mp hentry
  exact describes_retext _

/-- The text changes while the backfill holds the vector of the old one. -/
theorem stale_vector_stored : ∃ m : Backfills Unit ℚ,
    (∀ entry ∈ waitingService.store.entries, Describes sampleModels (some "m") entry) ∧
      Backfills.Run sampleModels (fun _ _ => True) (.start waitingService) m ∧
      ∃ entry ∈ m.svc.store.entries, ¬Describes sampleModels (some "m") entry := by
  let acts : List (BackfillAct Unit ℚ) :=
    [.list () "m" 8, .embed (), .updateContent "a" "new".toList, .store ()]
  have hvectors : (runActs (fun m act => m.step sampleModels act) (fun _ _ => True)
      (.start waitingService) acts).map Backfills.vectors = some [("new".toList, [1, 0])] := by
    decide
  obtain ⟨m, hrun, hm⟩ := Option.map_eq_some_iff.mp hvectors
  refine ⟨m, ?_, .of_acts hrun, ?_⟩
  · intro entry hentry
    obtain rfl := List.mem_singleton.mp hentry
    exact describes_retext _
  · have hmem : ("new".toList, [1, 0]) ∈ m.vectors := by
      rw [hm]
      exact List.mem_singleton_self _
    obtain ⟨entry, hentry, heq⟩ := List.mem_map.mp hmem
    obtain ⟨hcontent, hvector⟩ := Prod.mk.inj heq
    refine ⟨entry, hentry, fun h => ?_⟩
    have hactive := h.active
    rw [hcontent, hvector] at hactive
    rcases hactive with hempty | hmade | hmade
    · cases hempty
    · exact absurd hmade (by decide)
    · exact absurd hmade (by decide)

end Nanna.Memory
