import Nanna.Lib.Except
import Nanna.Lib.FirstMatch
import Nanna.Memory.Types
import Mathlib.Data.List.Sort

/-!
# The vector store

The in-memory store and its operations, each one critical section of the entries lock. Rows are
looked up by id, first match first. The write-through to the database is not modelled here: it
only copies what the store holds. `records` is what a reader of texts sees of the rows; every
operation says what it does to it.
-/

namespace Nanna.Memory

open Nanna.Lib

variable {F : Type} [Scalar F]

structure Store (F : Type) where
  entries : List (MemoryEntry F)
  /-- The width every active vector must have. -/
  dimension : Nat
  /-- The embedding model in use, once the daemon has said. -/
  activeModel : Option String

namespace Store

variable (s : Store F)

/-! ## Searching -/

/-- The stored vector may have another provider's width. -/
def cosineOrStale (query embedding : List F) : F :=
  if query.length = embedding.length then Scalar.cosine query embedding else -1.0

/-- A score as the ranking compares it: `none` is `NEG_INFINITY`. -/
def sanitize (x : F) : Option F := if Scalar.isFinite x then some x else none

def compareScores (a b : F) : Ordering :=
  match sanitize a, sanitize b with
  | some x, some y => if y < x then .lt else if x < y then .gt else .eq
  | some _, none => .lt
  | none, some _ => .gt
  | none, none => .eq

/-- Higher similarity first, then lower index. -/
def rankOrder (a b : Nat × F) : Ordering := (compareScores a.2 b.2).then (compare a.1 b.1)

def rankTopK (ranked : List (Nat × F)) (topK : Nat) : List (Nat × F) :=
  (ranked.insertionSort fun a b => rankOrder a b ≠ .gt).take topK

def search (query : List F) (topK : Nat) : List (MemoryEntry F × F) :=
  if query.length ≠ s.dimension then []
  else
    let query := Scalar.normalize query
    let similarities := s.entries.map fun entry => cosineOrStale query entry.embedding
    (rankTopK (similarities.zipIdx.map Prod.swap) topK).filterMap fun (idx, sim) =>
      s.entries[idx]?.map (·, sim)

/-- The entry is visible to a search of this workspace. -/
def visible (workspaceId : Option String) (entry : MemoryEntry F) : Bool :=
  match workspaceId with
  | some wsId => entry.workspaceId = none || entry.workspaceId = some wsId
  | none => true

/-- `top_k * 3`, as `usize` multiplies in the release build. -/
def overFetch (topK : Nat) : Nat := topK * 3 % 2 ^ 64

def searchScoped (query : List F) (topK : Nat) (workspaceId : Option String) :
    List (MemoryEntry F × F) :=
  ((s.search query (overFetch topK)).filter fun hit => visible workspaceId hit.1).take topK

/-! ## Reading and writing rows -/

/-- The first entry with this id. -/
def get (id : String) : Option (MemoryEntry F) := s.entries.find? (·.id = id)

/-- Apply `f` to the first entry with this id. -/
def modify (id : String) (f : MemoryEntry F → MemoryEntry F) : Store F :=
  { s with entries := modifyFirst (·.id = id) f s.entries }

def checkWidth (embedding : List F) : Result Unit :=
  checkIf (!embedding.isEmpty && embedding.length ≠ s.dimension)
    (.error (.dimensionMismatch s.dimension embedding.length))

def add (entry : MemoryEntry F) : Result (Store F) := do
  s.checkWidth entry.embedding
  .ok { s with
    entries := s.entries ++ [{ entry with embedding := Scalar.normalize entry.embedding }] }

def updateFsrs (id : String) (f : FsrsState F → FsrsState F) : Result (Store F) :=
  match s.get id with
  | none => .error (.notFound id)
  | some _ => .ok (s.modify id fun entry => { entry with fsrs := f entry.fsrs })

def updateContent (id : String) (content : Text) : Result (Store F) :=
  match s.get id with
  | none => .error (.notFound id)
  | some _ => .ok (s.modify id fun entry => entry.retext content)

/-- `update_content_and_embedding_if`: the rewrite applies only while the row still holds
`expected`. -/
def updateContentAndEmbeddingIf (id : String) (expected : Option Text) (content : Text)
    (embedding : List F) (model : Option String) : Result (Bool × Store F) := do
  s.checkWidth embedding
  match s.get id with
  | none => .error (.notFound id)
  | some entry =>
    if expected.any (· ≠ entry.content) then .ok (false, s)
    else .ok (true, s.modify id fun entry =>
      entry.rewrite content (Scalar.normalize embedding) model)

/-- The text the last pair with this id expects. -/
def expectedContent (pairs : List (String × Text)) (id : String) : Option Text :=
  (pairs.reverse.find? (·.1 = id)).map (·.2)

/-- `remove_many_matching`: rows that no longer hold the expected text stay. -/
def removeManyMatching (pairs : List (String × Text)) : Store F × Nat :=
  let kept := s.entries.filter fun entry => expectedContent pairs entry.id ≠ some entry.content
  ({ s with entries := kept }, s.entries.length - kept.length)

/-! ## Vectors by model -/

def entriesMissingModel (model : String) (limit : Nat) : List (String × Text) :=
  ((s.entries.filter fun entry => (entry.embeddings model).isNone).take limit).map fun entry =>
    (entry.id, entry.content)

def setEmbeddingForModel (id model : String) (embedding : List F) (activate : Bool) :
    Result (Store F) := do
  checkIf (activate && embedding.length ≠ s.dimension)
    (.error (.dimensionMismatch s.dimension embedding.length))
  match s.get id with
  | none => .error (.notFound id)
  | some _ => .ok (s.modify id fun entry => entry.setEmbedding model embedding activate)

/-- `rebind_embeddings`: the model, the width and the active vectors change together. -/
def rebind (model : String) (dimension : Nat) : Store F :=
  { entries := s.entries.map (·.rebind model), dimension, activeModel := some model }

end Store

/-! ## Records -/

/-- What a reader of texts sees of a row. -/
structure Record where
  id : String
  content : Text
  metadata : Metadata
  workspaceId : Option String

def MemoryEntry.record (entry : MemoryEntry F) : Record :=
  ⟨entry.id, entry.content, entry.metadata, entry.workspaceId⟩

namespace Store

variable {s s' : Store F}

def records (s : Store F) : List Record := s.entries.map (·.record)

/-- The records with the first one of this id holding another text. -/
def retextRecords (records : List Record) (id : String) (content : Text) : List Record :=
  modifyFirst (·.id = id) (fun r => { r with content }) records

theorem mem_of_search {query : List F} {topK : Nat} {hit : MemoryEntry F × F}
    (h : hit ∈ s.search query topK) : hit.1 ∈ s.entries := by
  unfold search at h
  split_ifs at h
  · cases h
  · obtain ⟨⟨idx, sim⟩, -, hidx⟩ := List.mem_filterMap.mp h
    obtain ⟨entry, hentry, rfl⟩ := Option.map_eq_some_iff.mp hidx
    exact List.mem_of_getElem? hentry

theorem mem_of_searchScoped {query : List F} {topK : Nat} {ws : Option String}
    {hit : MemoryEntry F × F} (h : hit ∈ s.searchScoped query topK ws) : hit.1 ∈ s.entries :=
  mem_of_search (List.mem_of_mem_filter (List.mem_of_mem_take h))

omit [Scalar F] in
theorem record_get (id : String) :
    (s.get id).map (·.record) = s.records.find? (·.id = id) := by
  rw [records, List.find?_map, get]
  rfl

omit [Scalar F] in
theorem rebind_record (entry : MemoryEntry F) (model : String) :
    (entry.rebind model).record = entry.record := by
  unfold MemoryEntry.rebind
  split <;> rfl

omit [Scalar F] in
theorem rebind_records (model : String) (dimension : Nat) :
    (s.rebind model dimension).records = s.records := by
  rw [records, rebind, List.map_map]
  exact List.map_congr_left fun entry _ => rebind_record entry model

theorem add_records {entry : MemoryEntry F} (h : s.add entry = .ok s') :
    s'.records = s.records ++ [entry.record] := by
  obtain ⟨⟨⟩, -, h⟩ := bind_eq_ok.mp h
  cases h
  rw [records, List.map_append]
  rfl

omit [Scalar F] in
theorem updateFsrs_records {id : String} {f : FsrsState F → FsrsState F}
    (h : s.updateFsrs id f = .ok s') : s'.records = s.records := by
  unfold updateFsrs at h
  split at h
  · cases h
  · cases h
    exact map_modifyFirst fun _ _ => rfl

omit [Scalar F] in
theorem rewrite_records (id : String) (content : Text) (embedding : List F)
    (model : Option String) :
    (s.modify id fun entry => entry.rewrite content embedding model).records =
      retextRecords s.records id content :=
  map_modifyFirst_comm (fun _ => rfl) fun _ => rfl

/-- What the guarded rewrite does: it applies where the row holds the expected text. -/
theorem updateContentAndEmbeddingIf_ok {id : String} {expected content : Text} {embedding : List F}
    {model : Option String} {applied : Bool}
    (h : s.updateContentAndEmbeddingIf id (some expected) content embedding model =
      .ok (applied, s')) :
    ∃ entry, s.get id = some entry ∧
      (applied = true ∧ entry.content = expected ∧ s' = s.modify id (fun entry =>
          entry.rewrite content (Scalar.normalize embedding) model) ∨
        applied = false ∧ entry.content ≠ expected ∧ s' = s) := by
  obtain ⟨⟨⟩, -, h⟩ := bind_eq_ok.mp h
  cases hget : s.get id with
  | none =>
    rw [hget] at h
    cases h
  | some entry =>
    rw [hget] at h
    refine ⟨entry, rfl, ?_⟩
    simp only [Option.any_some] at h
    split_ifs at h with hmoved
    · cases h
      exact .inr ⟨rfl, fun hsame => of_decide_eq_true hmoved hsame.symm, rfl⟩
    · cases h
      have hsame : expected = entry.content := by simpa using hmoved
      exact .inl ⟨rfl, hsame.symm, rfl⟩

omit [Scalar F] in
theorem retext_records (id : String) (content : Text) :
    (s.modify id fun entry => entry.retext content).records = retextRecords s.records id content :=
  map_modifyFirst_comm (fun _ => rfl) fun _ => rfl

/-! ## Matched removals -/

theorem mem_of_expectedContent {pairs : List (String × Text)} {id : String} {content : Text}
    (h : expectedContent pairs id = some content) : (id, content) ∈ pairs := by
  obtain ⟨⟨id', content'⟩, hfind, rfl⟩ := Option.map_eq_some_iff.mp h
  have hid := List.find?_some hfind
  rw [decide_eq_true_eq] at hid
  have hid : id' = id := hid
  rw [← hid]
  exact List.mem_reverse.mp (List.mem_of_find?_eq_some hfind)

omit [Scalar F] in
/-- A removed row is one of the pairs. -/
theorem mem_pairs_of_removed {pairs : List (String × Text)} {entry : MemoryEntry F}
    (hentry : entry ∈ s.entries) (hgone : entry ∉ (s.removeManyMatching pairs).1.entries) :
    (entry.id, entry.content) ∈ pairs := by
  by_contra hnot
  refine hgone (List.mem_filter.mpr ⟨hentry, decide_eq_true fun h => ?_⟩)
  exact hnot (mem_of_expectedContent h)

omit [Scalar F] in
theorem mem_removeManyMatching {pairs : List (String × Text)} {entry : MemoryEntry F}
    (hentry : entry ∈ s.entries) (hid : entry.id ∉ pairs.map (·.1)) :
    entry ∈ (s.removeManyMatching pairs).1.entries := by
  refine List.mem_filter.mpr ⟨hentry, decide_eq_true fun h => ?_⟩
  exact hid (List.mem_map_of_mem (f := Prod.fst) (mem_of_expectedContent h))

end Store

end Nanna.Memory
