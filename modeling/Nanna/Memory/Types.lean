import Nanna.Lib.Text
import Mathlib.Logic.Function.Basic
import Mathlib.Algebra.Ring.Rat

/-!
# Memory entries and scores

The rows of the memory store, its errors, and the arithmetic the store does on scores. `f32` is a
type `F` with the operations the code uses; the two vector kernels of `nanna_simd` are parameters,
since no result here depends on how they round. A hash map is the function that looks a key up.
-/

namespace Nanna.Memory

open Nanna.Lib (Text)

/-! ## Scores -/

/-- `f32`, with the kernels `normalize_f32` and `cosine_similarity_f32`. -/
class Scalar (F : Type) extends Neg F, Div F, OfScientific F, LT F where
  decLt : DecidableLT F
  isFinite : F → Bool
  normalize : List F → List F
  cosine : List F → List F → F
  /-- It normalizes in place. -/
  length_normalize (v : List F) : (normalize v).length = v.length

attribute [reducible, instance] Scalar.decLt

variable {F : Type} [Scalar F]

/-- `f32::clamp`. -/
def clamp (x lo hi : F) : F :=
  let x := if x < lo then lo else x
  if hi < x then hi else x

/-- The importance multiplier of a rating from 1 to 5. -/
def normalizeImportance (importance : F) : F := clamp (importance / 5.0) 0.5 1.5

inductive IngestAction
  | reinforce
  | update
  | create
deriving DecidableEq

def IngestAction.fromSimilarity (similarity : F) : IngestAction :=
  if 0.92 < similarity then .reinforce
  else if 0.75 < similarity then .update
  else .create

/-! ## Entries -/

structure FsrsState (F : Type) where
  stability : F
  difficulty : F
  lastAccess : Int
  accessCount : Nat
  importance : F
  storageStrength : F
  generation : Nat

def FsrsState.new (now : Int) : FsrsState F :=
  { stability := 1.0, difficulty := 5.0, lastAccess := now, accessCount := 0, importance := 1.0,
    storageStrength := 0.1, generation := 0 }

abbrev Metadata := String → Option String

structure MemoryEntry (F : Type) where
  id : String
  content : Text
  /-- The active vector; empty while the entry waits for one. -/
  embedding : List F
  embeddingModel : Option String
  /-- Every vector computed for the entry, by model. -/
  embeddings : String → Option (List F)
  metadata : Metadata
  timestamp : Int
  fsrs : FsrsState F
  workspaceId : Option String

namespace MemoryEntry

/-- The row after a change of text alone: every vector it held described the old text. -/
def retext (entry : MemoryEntry F) (content : Text) : MemoryEntry F :=
  { entry with
    content := content, embedding := [], embeddingModel := none, embeddings := fun _ => none }

/-- The row after a change of text with the (normalized) vector of the new text, if there is one. -/
def rewrite (entry : MemoryEntry F) (content : Text) (embedding : List F) (model : Option String) :
    MemoryEntry F :=
  { entry with
    content := content
    embedding := embedding
    embeddingModel := if embedding.isEmpty then none else model
    embeddings := fun m => if !embedding.isEmpty ∧ model = some m then some embedding else none }

/-- `model`'s vector for the row, also as the active one when `activate` is set. -/
def setEmbedding (entry : MemoryEntry F) (model : String) (embedding : List F) (activate : Bool) :
    MemoryEntry F :=
  let entry := { entry with embeddings := Function.update entry.embeddings model (some embedding) }
  if activate then { entry with embedding := embedding, embeddingModel := some model } else entry

/-- The buckets with the active vector retained. -/
def retained (entry : MemoryEntry F) : String → Option (List F) :=
  let key := entry.embeddingModel.getD s!"legacy-{entry.embedding.length}d"
  if entry.embedding.isEmpty ∨ (entry.embeddings key).isSome then entry.embeddings
  else Function.update entry.embeddings key (some entry.embedding)

/-- The row with `model`'s vector active, if there is one. -/
def rebind (entry : MemoryEntry F) (model : String) : MemoryEntry F :=
  match entry.retained model with
  | some vector =>
    { entry with embeddings := entry.retained, embedding := vector, embeddingModel := some model }
  | none => { entry with embeddings := entry.retained, embedding := [], embeddingModel := none }

end MemoryEntry

inductive MemoryError
  | dimensionMismatch (expected got : Nat)
  | notFound (id : String)
  | noEmbeddingProvider
  | io (reason : String)
deriving DecidableEq

abbrev Result (α : Type) := Except MemoryError α

inductive Rating
  | again
  | hard
  | good
  | easy
deriving DecidableEq

/-! ## Unit vectors over the rationals -/

/-- The kernels on vectors of length one, where no root is taken. -/
instance : Scalar ℚ where
  toNeg := inferInstance
  toDiv := inferInstance
  toOfScientific := inferInstance
  toLT := inferInstance
  decLt := inferInstance
  isFinite _ := true
  normalize v := v
  cosine a b := (List.zipWith (· * ·) a b).sum
  length_normalize _ := rfl

/-- An entry that `model` embedded. -/
def sampleEntry (id : String) (content : Text) (vector : List ℚ) (model : String)
    (workspaceId : Option String) : MemoryEntry ℚ :=
  { id, content, embedding := vector, embeddingModel := some model,
    embeddings := fun m => if m = model then some vector else none, metadata := fun _ => none,
    timestamp := 0, fsrs := FsrsState.new 0, workspaceId }

end Nanna.Memory
