import Nanna.Memory.Ingest

/-!
# Switching embedding models

`rebinds_lossless_iff`: from a store, every run of `rebind_to_model` keeps every stored vector, gives
back on a return to a model the active vectors it left, and counts every entry, exactly if every
active vector whose key has a bucket is what the bucket holds (`Settled`).

A rebind stashes the active vector only where its key has no bucket yet. A row that an ingest creates
has one, with the vector as the provider sent it, while `add` normalizes the active copy
(`settled_created_iff`): the first switch away drops the normalized copy, and the return makes the
other one active (`return_activates_other_copy`). Rows that are loaded, backfilled or rewritten hold
one copy (`settled_loaded`, `settled_setEmbedding`, `settled_rewrite`), and so does every row after
its first rebind.
-/

namespace Nanna.Memory

open Nanna.Lib

variable {F : Type}

/-! ## One rebind of a store -/

namespace Store

/-- The loop of `rebind_to_model`, with the numbers of entries rebound and missing. -/
def rebindEntries (model : String) : List (MemoryEntry F) → List (MemoryEntry F) × Nat × Nat
  | [] => ([], 0, 0)
  | entry :: entries =>
    let rest := rebindEntries model entries
    match entry.retained model with
    | some _ => (entry.rebind model :: rest.1, rest.2.1 + 1, rest.2.2)
    | none => (entry.rebind model :: rest.1, rest.2.1, rest.2.2 + 1)

def rebindToModel (s : Store F) (model : String) : Store F × Nat × Nat :=
  let rebound := rebindEntries model s.entries
  ({ s with entries := rebound.1 }, rebound.2)

/-- A sequence of calls. -/
def rebinds (s : Store F) (models : List String) : Store F :=
  models.foldl (fun s model => (s.rebindToModel model).1) s

end Store

/-! ## What an entry holds -/

namespace MemoryEntry

variable (entry : MemoryEntry F)

/-- The name under which the active vector is kept. -/
def activeKey : String := entry.embeddingModel.getD s!"legacy-{entry.embedding.length}d"

/-- The entry holds the vector for the model, in its bucket or as the active one. -/
def Stores (model : String) (vector : List F) : Prop :=
  entry.embeddings model = some vector ∨
    entry.embedding ≠ [] ∧ entry.embedding = vector ∧ entry.activeKey = model

/-- The active vector is the model's. -/
def Active (model : String) : Prop := entry.embedding ≠ [] ∧ entry.embeddingModel = some model

/-- A bucket under the key of the active vector holds this vector. -/
def Settled : Prop :=
  entry.embedding ≠ [] → ∀ vector, entry.embeddings entry.activeKey = some vector →
    vector = entry.embedding

end MemoryEntry

section Entries

variable {entry : MemoryEntry F} {model model' : String} {vector : List F}

theorem retained_of_empty (h : entry.embedding = []) : entry.retained = entry.embeddings := by
  unfold MemoryEntry.retained
  rw [h]
  exact if_pos (.inl rfl)

theorem retained_of_bucket (h : (entry.embeddings entry.activeKey).isSome) :
    entry.retained = entry.embeddings := if_pos (.inr h)

theorem retained_of_new (h : entry.embedding ≠ []) (hnone : entry.embeddings entry.activeKey = none) :
    entry.retained = Function.update entry.embeddings entry.activeKey (some entry.embedding) := by
  refine if_neg ?_
  rintro (hempty | hsome)
  · exact h (List.isEmpty_iff.mp hempty)
  · have hsome : (entry.embeddings entry.activeKey).isSome := hsome
    rw [hnone] at hsome
    cases hsome

theorem rebind_embeddings : (entry.rebind model).embeddings = entry.retained := by
  unfold MemoryEntry.rebind
  split <;> rfl

/-- A settled entry retains exactly what it holds. -/
theorem retained_eq_some (h : entry.Settled) :
    entry.retained model = some vector ↔ entry.Stores model vector := by
  by_cases hempty : entry.embedding = []
  · rw [retained_of_empty hempty]
    refine ⟨.inl, fun hstores => hstores.resolve_right fun hactive => hactive.1 hempty⟩
  · cases hbucket : entry.embeddings entry.activeKey with
    | some held =>
      obtain rfl := h hempty held hbucket
      rw [retained_of_bucket (by rw [hbucket]; rfl)]
      refine ⟨.inl, ?_⟩
      rintro (hstored | ⟨-, rfl, rfl⟩)
      · exact hstored
      · exact hbucket
    | none =>
      rw [retained_of_new hempty hbucket]
      by_cases hkey : model = entry.activeKey
      · subst hkey
        rw [Function.update_self]
        constructor
        · intro hsame
          exact .inr ⟨hempty, Option.some.inj hsame, rfl⟩
        · rintro (hstored | ⟨-, rfl, -⟩)
          · rw [hbucket] at hstored
            cases hstored
          · rfl
      · rw [Function.update_of_ne hkey]
        refine ⟨.inl, fun hstores => hstores.resolve_right fun hactive => hkey hactive.2.2.symm⟩

/-- After a rebind the active vector is what its bucket holds. -/
theorem settled_rebind (entry : MemoryEntry F) (model : String) : (entry.rebind model).Settled := by
  unfold MemoryEntry.rebind
  cases hbucket : entry.retained model with
  | some vector =>
    intro _ held hheld
    have hheld : entry.retained model = some held := hheld
    rw [hbucket] at hheld
    exact (Option.some.inj hheld).symm
  | none =>
    intro hactive
    exact absurd rfl hactive

theorem stores_rebind (h : entry.Settled) (hstores : entry.Stores model vector) (model' : String) :
    (entry.rebind model').Stores model vector := by
  left
  rw [rebind_embeddings]
  exact (retained_eq_some h).mpr hstores

/-- A rebind to a model whose vector is held makes it the active one. -/
theorem rebind_of_stores (h : entry.Settled) (hstores : entry.Stores model vector) :
    (entry.rebind model).embedding = vector ∧ (entry.rebind model).embeddingModel = some model := by
  have hretained := (retained_eq_some h).mpr hstores
  unfold MemoryEntry.rebind
  rw [hretained]
  exact ⟨rfl, rfl⟩

theorem MemoryEntry.Active.stores (h : entry.Active model) : entry.Stores model entry.embedding := by
  obtain ⟨hactive, hmodel⟩ := h
  refine .inr ⟨hactive, rfl, ?_⟩
  rw [MemoryEntry.activeKey, hmodel]
  rfl

/-! ## Runs of rebinds -/

/-- What one rebind preserves holds after a run. -/
theorem stores_foldl_rebind (models : List String) (h : entry.Settled)
    (hstores : entry.Stores model vector) :
    (models.foldl MemoryEntry.rebind entry).Settled ∧
      (models.foldl MemoryEntry.rebind entry).Stores model vector := by
  induction models generalizing entry with
  | nil => exact ⟨h, hstores⟩
  | cons first models ih => exact ih (settled_rebind entry first) (stores_rebind h hstores first)

theorem settled_foldl_rebind (models : List String) (h : entry.Settled) :
    (models.foldl MemoryEntry.rebind entry).Settled := by
  induction models generalizing entry with
  | nil => exact h
  | cons first models ih => exact ih (settled_rebind entry first)

end Entries

namespace Store

variable {s : Store F} {model : String}

theorem rebindEntries_fst (entries : List (MemoryEntry F)) :
    (rebindEntries model entries).1 = entries.map (·.rebind model) := by
  induction entries with
  | nil => rfl
  | cons entry entries ih =>
    rw [rebindEntries, List.map_cons, ← ih]
    cases entry.retained model with
    | some vector => rfl
    | none => rfl

/-- Every entry is counted once. -/
theorem rebindEntries_counts (entries : List (MemoryEntry F)) :
    (rebindEntries model entries).2.1 + (rebindEntries model entries).2.2 = entries.length := by
  induction entries with
  | nil => rfl
  | cons entry entries ih =>
    rw [rebindEntries, List.length_cons]
    cases entry.retained model with
    | some vector =>
      show (rebindEntries model entries).2.1 + 1 + (rebindEntries model entries).2.2 = _
      omega
    | none =>
      show (rebindEntries model entries).2.1 + ((rebindEntries model entries).2.2 + 1) = _
      omega

theorem rebindToModel_entries : (s.rebindToModel model).1.entries = s.entries.map (·.rebind model) :=
  rebindEntries_fst s.entries

/-- The rebind of the service changes the entries as `rebind_to_model` does. -/
theorem rebind_entries (dimension : Nat) :
    (s.rebind model dimension).entries = (s.rebindToModel model).1.entries :=
  rebindToModel_entries.symm

theorem rebinds_entries (models : List String) :
    (s.rebinds models).entries = s.entries.map (models.foldl MemoryEntry.rebind) := by
  induction models generalizing s with
  | nil => exact (List.map_id _).symm
  | cons model models ih =>
    rw [rebinds, List.foldl_cons, ← rebinds, ih, rebindToModel_entries, List.map_map]
    rfl

theorem rebinds_append (models later : List String) :
    s.rebinds (models ++ later) = (s.rebinds models).rebinds later := List.foldl_append

/-- No run of rebinds loses anything. -/
structure Lossless (s : Store F) : Prop where
  kept : ∀ (models : List String) (i : Nat) (entry : MemoryEntry F), s.entries[i]? = some entry →
    ∀ model vector, entry.Stores model vector →
    ∃ entry' : MemoryEntry F, (s.rebinds models).entries[i]? = some entry' ∧ entry'.Stores model vector
  /-- On the return to a model, after whatever calls, the active vector is the one before. -/
  restored : ∀ (models away : List String) (model : String) (i : Nat) (entry : MemoryEntry F),
    (s.rebinds models).entries[i]? = some entry → entry.Active model → ∃ entry' : MemoryEntry F,
      (s.rebinds (models ++ away ++ [model])).entries[i]? = some entry' ∧
        entry'.embedding = entry.embedding ∧ entry'.embeddingModel = some model
  counted : ∀ models model, ((s.rebinds models).rebindToModel model).2.1 +
    ((s.rebinds models).rebindToModel model).2.2 = (s.rebinds models).entries.length

/-- **Main result.** A store loses nothing by rebinds exactly if its active vectors agree with their
buckets. -/
theorem rebinds_lossless_iff (s : Store F) : s.Lossless ↔ ∀ entry ∈ s.entries, entry.Settled := by
  constructor
  · intro h entry hentry hactive held hheld
    obtain ⟨i, hi⟩ := List.mem_iff_getElem?.mp hentry
    -- the rebind to the key of the active vector finds the bucket instead
    obtain ⟨entry', hi', hstores⟩ := h.kept [entry.activeKey] i entry hi entry.activeKey
      entry.embedding (.inr ⟨hactive, rfl, rfl⟩)
    have hretained : entry.retained entry.activeKey = some held := by
      rw [retained_of_bucket (by rw [hheld]; rfl), hheld]
    rw [rebinds_entries, List.getElem?_map, hi] at hi'
    obtain rfl : entry.rebind entry.activeKey = entry' := Option.some.inj hi'
    rcases hstores with hbucket | ⟨-, hembedding, -⟩
    · rw [rebind_embeddings, hretained] at hbucket
      exact Option.some.inj hbucket
    · unfold MemoryEntry.rebind at hembedding
      rw [hretained] at hembedding
      exact hembedding
  · intro h
    refine ⟨fun models i entry hi model vector hstores => ?_,
      fun models away model i entry hi hactive => ?_, fun models model => rebindEntries_counts _⟩
    · refine ⟨models.foldl MemoryEntry.rebind entry, ?_, ?_⟩
      · rw [rebinds_entries, List.getElem?_map, hi]
        rfl
      · exact (stores_foldl_rebind models (h entry (List.mem_of_getElem? hi)) hstores).2
    · have hsettled : entry.Settled := by
        rw [rebinds_entries, List.getElem?_map] at hi
        obtain ⟨first, hfirst, rfl⟩ := Option.map_eq_some_iff.mp hi
        exact settled_foldl_rebind models (h first (List.mem_of_getElem? hfirst))
      obtain ⟨haway, hstores⟩ := stores_foldl_rebind away hsettled hactive.stores
      refine ⟨(away.foldl MemoryEntry.rebind entry).rebind model, ?_, rebind_of_stores haway hstores⟩
      rw [List.append_assoc, rebinds_append, rebinds_entries, List.getElem?_map, hi]
      show some ((away ++ [model]).foldl MemoryEntry.rebind entry) = _
      rw [List.foldl_append]
      rfl

end Store

/-! ## Where rows come from -/

variable {entry : MemoryEntry F} {model : String} {vector : List F}

theorem settled_setEmbedding (model : String) (vector : List F) :
    (entry.setEmbedding model vector true).Settled := by
  intro _ held hheld
  have hheld : Function.update entry.embeddings model (some vector) model = some held := hheld
  rw [Function.update_self] at hheld
  exact (Option.some.inj hheld).symm

theorem settled_rewrite (content : Text) (vector : List F) (model : Option String) :
    (entry.rewrite content vector model).Settled := by
  intro hactive held hheld
  have hheld : (if !vector.isEmpty ∧ model = some (entry.rewrite content vector model).activeKey then
      some vector else none) = some held := hheld
  split at hheld
  · exact (Option.some.inj hheld).symm
  · cases hheld

/-- `attach_buckets`: the persisted buckets of a row, where the row's own vector wins. -/
def MemoryEntry.attachBuckets (entry : MemoryEntry F) (buckets : List (String × List F)) :
    MemoryEntry F :=
  let embeddings := buckets.foldl (fun embeddings (model, vector) =>
    if vector.isEmpty ∨ (embeddings model).isSome then embeddings
    else Function.update embeddings model (some vector)) entry.embeddings
  match entry.embedding, entry.embeddingModel.bind embeddings with
  | [], some vector => { entry with embeddings, embedding := vector }
  | _, _ => { entry with embeddings }

/-- A bucket that is there stays as it is. -/
theorem foldl_attach {embeddings : String → Option (List F)} (buckets : List (String × List F))
    (h : embeddings model = some vector) :
    (buckets.foldl (fun embeddings (model, vector) =>
      if vector.isEmpty ∨ (embeddings model).isSome then embeddings
      else Function.update embeddings model (some vector)) embeddings) model = some vector := by
  induction buckets generalizing embeddings with
  | nil => exact h
  | cons bucket buckets ih =>
    obtain ⟨model', vector'⟩ := bucket
    apply ih
    simp only
    split
    · exact h
    · rename_i hnew
      by_cases hkey : model = model'
      · subst hkey
        exact absurd (.inr (by rw [h]; rfl)) hnew
      · rw [Function.update_of_ne hkey, h]

/-- A row loaded from the database, with a model's name. -/
theorem settled_loaded (embedding : List F) (model : String) (buckets : List (String × List F)) :
    (MemoryEntry.attachBuckets { entry with
      embedding := embedding, embeddingModel := some model,
      embeddings := fun m => if !embedding.isEmpty ∧ m = model then some embedding else none }
      buckets).Settled := by
  unfold MemoryEntry.attachBuckets
  cases embedding with
  | nil =>
    simp only [Option.bind_some]
    split
    · rename_i vector hvector
      intro _ held hheld
      exact Option.some.inj (hheld.symm.trans hvector)
    · intro hactive
      exact absurd rfl hactive
  | cons x xs =>
    intro _ held hheld
    have hown : (if !(x :: xs).isEmpty ∧ model = model then some (x :: xs) else none) =
        some (x :: xs) := if_pos ⟨rfl, rfl⟩
    exact Option.some.inj (hheld.symm.trans (foldl_attach buckets hown))

section Ingest

variable [Scalar F]

/-- The row an ingest adds under a model is settled exactly if normalizing leaves its vector alone. -/
theorem settled_created_iff (model : String) (vector : List F) :
    ({ entry with
        embedding := Scalar.normalize (resolveEntryVectors (some model) vector.length vector).2.1
        embeddingModel := (resolveEntryVectors (some model) vector.length vector).1
        embeddings := (resolveEntryVectors (some model) vector.length vector).2.2 } :
      MemoryEntry F).Settled ↔ Scalar.normalize vector = vector := by
  have hvectors : resolveEntryVectors (some model) vector.length vector =
      (some model, vector, fun m => if some model = some m then some vector else none) :=
    if_neg fun hne => hne rfl
  rw [hvectors]
  constructor
  · intro h
    by_cases hempty : Scalar.normalize vector = []
    · have hlength := Scalar.length_normalize vector
      rw [hempty] at hlength ⊢
      exact (List.eq_nil_of_length_eq_zero hlength.symm).symm
    · exact (h hempty vector (if_pos rfl)).symm
  · intro hsame _ held hheld
    have hheld : (if some model = some model then some vector else none) = some held := hheld
    rw [if_pos rfl] at hheld
    exact (Option.some.inj hheld).symm.trans hsame.symm

end Ingest

/-! ## A vector that is not normal -/

/-- The root of a square. -/
def wholeRoot (n : Nat) : Nat := ((List.range (n + 1)).find? fun k => n ≤ k * k).getD n

/-- Vectors whose length is rational, and its inverse. -/
local instance measuredRat : Scalar ℚ where
  __ := (inferInstance : Scalar ℚ)
  normalize v :=
    let square : ℚ := (List.zipWith (· * ·) v v).sum
    let length : ℚ := wholeRoot square.num.natAbs / wholeRoot square.den
    v.map (· / length)
  length_normalize _ := List.length_map _

/-- The provider's vector is stored normalized, and comes back as the provider sent it. -/
theorem return_activates_other_copy : ∃ svc id action,
    (IngestCall.smartIngest "tea".toList fun _ => none).run (some (sampleEmbed fun _ => [3, 4]))
      sampleIngestEnv (sampleService []) = .ok (svc, id, action) ∧
    svc.store.entries.map (·.embedding) = [[3 / 5, 4 / 5]] ∧
    (svc.store.rebinds ["n", "m"]).entries.map (·.embedding) = [[3, 4]] ∧ ¬ svc.store.Lossless := by
  refine ⟨_, _, _, rfl, by decide +kernel, by decide +kernel, fun h => ?_⟩
  obtain ⟨entry', hentry', hsame, -⟩ := h.restored [] ["n"] "m" 0 _ rfl ⟨by decide +kernel, rfl⟩
  have hreturned := congrArg (Option.map (·.embedding)) hentry'
  rw [Option.map_some, hsame] at hreturned
  exact absurd hreturned (by decide +kernel)

end Nanna.Memory
