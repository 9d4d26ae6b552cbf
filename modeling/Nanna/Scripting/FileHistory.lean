import Nanna.Lib.Except
import Mathlib.Data.List.Sort
import Mathlib.Logic.Function.Basic
import Mathlib.Algebra.Ring.Nat

/-!
# The file history of a session

The store that copies a file before a script write replaces it: `record_before_write` with its three
bounds, `restore`, and the write that asks for the copy. A world is the file tree, the index of the
session's checkpoints and the snapshot files beside it; a path is its components. The store of
another session is not modelled, nor is the time a checkpoint was taken.
-/

namespace Nanna.Scripting

open Nanna.Lib

/-! ## Files -/

abbrev Bytes := List UInt8

abbrev Path := List String

instance instLawfulBEqPath : LawfulBEq Path := inferInstance

inductive Node
  | dir
  | file (content : Bytes)
deriving DecidableEq

abbrev Files := Path → Option Node

def Node.isFile : Node → Bool
  | .file _ => true
  | .dir => false

/-- The directories a path lies in. -/
def ancestors (path : Path) : List Path := (List.range path.length).map path.take

/-- A directory on the way is a file. -/
def blocked (files : Files) (path : Path) : Bool :=
  (ancestors path).any fun dir => (files dir).any Node.isFile

/-- `create_dir_all(parent)`, where nothing blocks it. -/
def createParents (files : Files) (path : Path) : Files := fun dir =>
  if dir ∈ ancestors path ∧ files dir = none then some .dir else files dir

/-- The path can be written, and removed. -/
def writable (files : Files) (path : Path) : Bool := !blocked files path && files path ≠ some .dir

/-- Create the parents and write; `none` is an I/O error. -/
def writeFile (files : Files) (path : Path) (content : Bytes) : Option Files :=
  if writable files path then
    some (Function.update (createParents files path) path (some (.file content)))
  else none

/-- `remove_file`, with a missing file allowed. -/
def removeFile (files : Files) (path : Path) : Option Files :=
  if writable files path then some (Function.update files path none) else none

def skillStateDir : String := ".nanna"
def recoveryParkSuffixes : List String := [".__prev__", ".__best__"]

def isToolHousekeeping (path : Path) : Bool :=
  let name := path.getLast?.getD ""
  recoveryParkSuffixes.any (fun suffix => suffix.toList <:+ name.toList) ||
    path.any (· = skillStateDir)

/-- FNV-1a 64. -/
def fnv1a64 (bytes : Bytes) : UInt64 :=
  bytes.foldl (fun hash byte => (hash ^^^ byte.toUInt64) * 0x00000100000001b3) 0xcbf29ce484222325

/-! ## Checkpoints -/

def recentCheckpointsMax : Nat := 100
def baselineCheckpointsMax : Nat := 400
def snapshotBytesMax : Nat := 8 * 1024 * 1024
def sessionBytesMax : Nat := 256 * 1024 * 1024

structure Checkpoint where
  seq : Nat
  path : Path
  /-- `false` when the write created the file. -/
  existed : Bool
  bytes : Nat
  contentHash : UInt64
  /-- The file's first checkpoint in this session. -/
  baseline : Bool
deriving DecidableEq

/-- The checkpoint is of a file in this state, as far as the hash can tell. -/
def Checkpoint.describes (c : Checkpoint) (content : Option Bytes) : Bool :=
  c.existed = content.isSome && c.contentHash = fnv1a64 (content.getD [])

def totalBytes (checkpoints : List Checkpoint) : Nat := (checkpoints.map (·.bytes)).sum

/-- A pool under eviction, oldest first, with the bytes of both pools. -/
structure Pool where
  kept : List Checkpoint
  bytes : Nat
  dropped : List Nat

/-- `while … { drop_oldest(pool) }`; the condition sees the length of the pool and the bytes. -/
def dropOldestWhile (exceeds : Nat → Nat → Bool) : List Checkpoint → Nat → List Nat → Pool
  | [], bytes, dropped => ⟨[], bytes, dropped⟩
  | oldest :: pool, bytes, dropped =>
    if exceeds (pool.length + 1) bytes then
      dropOldestWhile exceeds pool (bytes - oldest.bytes) (dropped ++ [oldest.seq])
    else ⟨oldest :: pool, bytes, dropped⟩

def recents (checkpoints : List Checkpoint) : List Checkpoint :=
  (checkpoints.filter fun c => !c.baseline).insertionSort fun a b => a.seq ≤ b.seq

def baselines (checkpoints : List Checkpoint) : List Checkpoint :=
  (checkpoints.filter fun c => c.baseline).insertionSort fun a b => a.seq ≤ b.seq

/-- The checkpoints to drop so that the index fits every bound. -/
def evictions (checkpoints : List Checkpoint) : List Nat :=
  let recent := dropOldestWhile (fun count _ => recentCheckpointsMax < count) (recents checkpoints)
    (totalBytes checkpoints) []
  let baseline := dropOldestWhile (fun count _ => baselineCheckpointsMax < count)
    (baselines checkpoints) recent.bytes recent.dropped
  let overBytes := fun (_ bytes : Nat) => decide (sessionBytesMax < bytes)
  let recent := dropOldestWhile overBytes recent.kept baseline.bytes baseline.dropped
  -- the last loop turns to the baselines once no recent checkpoint is left
  if recent.kept.isEmpty then
    (dropOldestWhile overBytes baseline.kept recent.bytes recent.dropped).dropped
  else recent.dropped

/-! ## The store -/

structure Index where
  nextSeq : Nat
  checkpoints : List Checkpoint

structure World where
  files : Files
  index : Index
  snaps : Nat → Option Bytes

inductive HistoryError
  | notFound (message : String)
  | io
deriving DecidableEq

inductive Restored
  | rewrote (path : Path) (bytes : Nat)
  | removed (path : Path)
deriving DecidableEq

namespace World

variable (w : World)

/-- The last checkpoint of the path. -/
def previous (path : Path) : Option Checkpoint :=
  w.index.checkpoints.reverse.find? (·.path = path)

/-- The checkpoint of the path in this state, `none` for no file. -/
def checkpoint (path : Path) (content : Option Bytes) : Checkpoint where
  seq := w.index.nextSeq
  path
  existed := content.isSome
  bytes := (content.getD []).length
  contentHash := fnv1a64 (content.getD [])
  baseline := (w.previous path).isNone

/-- The critical section of `record_before_write`. -/
def record (path : Path) (content : Option Bytes) : Option Checkpoint × World :=
  if (w.previous path).any (·.describes content) then (none, w)
  else
    let checkpoint := w.checkpoint path content
    let snaps :=
      if content.isSome then Function.update w.snaps checkpoint.seq content else w.snaps
    let checkpoints := w.index.checkpoints ++ [checkpoint]
    let dropped := evictions checkpoints
    (some checkpoint,
      { w with
        index := ⟨w.index.nextSeq + 1, checkpoints.filter fun c => c.seq ∉ dropped⟩
        snaps := fun seq => if seq ∈ dropped then none else snaps seq })

def recordBeforeWrite (path : Path) : Except HistoryError (Option Checkpoint × World) :=
  if blocked w.files path then .error .io
  else
    match w.files path with
    | some .dir => .ok (none, w)
    | some (.file content) =>
      if snapshotBytesMax < content.length then .ok (none, w) else .ok (w.record path (some content))
    | none => .ok (w.record path none)

/-- The snapshot file of a checkpoint, if it needs one. -/
def readSnapshot (checkpoint : Checkpoint) : Except HistoryError (Option Bytes) :=
  if checkpoint.existed then
    match w.snaps checkpoint.seq with
    | some content => .ok (some content)
    | none => .error .io
  else .ok none

/-- The end of a restore: the file is written, or removed. -/
def put (path : Path) (snapshot : Option Bytes) : Except HistoryError (Restored × World) :=
  match snapshot with
  | none =>
    match removeFile w.files path with
    | some files => .ok (.removed path, { w with files })
    | none => .error .io
  | some content =>
    match writeFile w.files path content with
    | some files => .ok (.rewrote path content.length, { w with files })
    | none => .error .io

def restore (seq : Nat) : Except HistoryError (Restored × World) :=
  match w.index.checkpoints.find? (·.seq = seq) with
  | none => .error (.notFound s!"no checkpoint {seq} in this session")
  | some checkpoint => do
    let snapshot ← w.readSnapshot checkpoint
    let (_, w) ← w.recordBeforeWrite checkpoint.path
    w.put checkpoint.path snapshot

/-- The world in which a script's write goes ahead: a snapshot that fails is only logged. -/
def beforeWrite (path : Path) : World :=
  if isToolHousekeeping path then w
  else
    match w.recordBeforeWrite path with
    | .ok (_, w) => w
    | .error _ => w

end World

/-! ## The machine -/

/-- A call of the store, or a script's write. -/
inductive FileAct
  | record (path : Path)
  | write (path : Path) (content : Bytes)
  | restore (seq : Nat)

namespace World

variable (w : World)

/-- One call without an I/O failure. -/
def step : FileAct → Option World
  | .record path => (w.recordBeforeWrite path).toOption.map (·.2)
  | .write path content =>
    let w := w.beforeWrite path
    (writeFile w.files path content).map fun files => { w with files }
  | .restore seq => (w.restore seq).toOption.map (·.2)

/-- The file whose state a step displaces. -/
def displaces : FileAct → Option Path
  | .record _ => none
  | .write path _ => if isToolHousekeeping path then none else some path
  | .restore seq => (w.index.checkpoints.find? (·.seq = seq)).map (·.path)

/-- A session with nothing recorded yet. -/
def start (files : Files) : World := ⟨files, ⟨0, []⟩, fun _ => none⟩

end World

end Nanna.Scripting
