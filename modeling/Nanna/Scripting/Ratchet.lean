import Nanna.Lib.Table
import Nanna.Scripting.PathKey

/-!
# The size ledger of `write_file` and `edit_file`

Both tools keep one ledger of the sizes a file has held, under the key of the path. An entry under an
older spelling of the key is folded into the entry under the key itself, with the larger of the two
marks (`hi_entryFor`), and goes away when the ledger is saved. A saved entry's mark is the largest of
the mark before, the size before and the size after (`hi_next`), and as long as there are fewer than
`HIWATER_MAX_ENTRIES` other files nothing is evicted (`hiwaterSave_of_others`).

A mark of 0 stands for one that the ledger lacks or cannot use. Sizes are those of script strings.
-/

namespace Nanna.Scripting

open Nanna.Lib

/-- `String.length`. -/
def jsLength (t : Text) : Nat := (units t).length

/-- An entry of the ledger; `hi` is the high-water mark and `good` the size of the newest version
that passed a structural check. -/
structure Entry where
  hi : Nat
  last : Nat
  time : Nat
  good : Nat := 0
  goodAt : Nat := 0
  goodSyms : Option (List Text) := none
  chk : Option Bool := none
  bestSyms : Option Nat := none
  bestAt : Nat := 0
  heldGut : Option Text := none
  deriving DecidableEq

structure Row where
  key : Text
  entry : Entry
  deriving DecidableEq

abbrev Ledger := Table Row.key

def HIWATER_MAX_ENTRIES : Nat := 200

variable {lc : Lowercase} {workdir : Option Workdir} {map : Ledger} {path key : Text}

/-! ## Entries -/

def Ledger.find (map : Ledger) (key : Text) : Option Entry := (map.get key).map Row.entry

def hiwaterHi (entry : Option Entry) : Nat := entry.elim 0 Entry.hi

def hiwaterGood (entry : Option Entry) : Nat := entry.elim 0 Entry.good

/-- Files that are rewritten wholesale, and the ledger itself. -/
def hiwaterExempt (key : Text) : Bool :=
  ".__buffer__".toList.isSuffixOf key || ".__prev__".toList.isSuffixOf key ||
    ".__best__".toList.isSuffixOf key || key = ".nanna/write_hiwater.json".toList ||
    "/.nanna/write_hiwater.json".toList.isSuffixOf key &&
      key ≠ "/.nanna/write_hiwater.json".toList

/-- Two entries for one file: the larger mark, and the rest from the fresher one. -/
def foldEntries (a b : Entry) : Entry :=
  let merged := if a.time < b.time then b else a
  let other := if a.time < b.time then a else b
  let merged := { merged with hi := max merged.hi other.hi }
  if merged.good = 0 ∧ 0 < other.good then
    { merged with good := other.good, goodAt := other.goodAt, chk := merged.chk.or other.chk }
  else merged

variable (lc workdir) in
/-- The entry of a path, and the ledger in which an older spelling is folded into it. -/
def hiwaterEntryFor (map : Ledger) (path : Text) : Ledger × Option Entry :=
  let canon := hiwaterKey lc workdir path
  let former := hiwaterNormKey lc path
  let a := map.find canon
  match if former = canon then none else map.find former with
  | none => (map, a)
  | some b =>
    let merged := a.elim b (foldEntries · b)
    ((map.remove former).put ⟨canon, merged⟩, some merged)

/-- The least recently updated entries go when there are too many. -/
def hiwaterSave (map : Ledger) : Ledger :=
  let sorted := map.rows.mergeSort fun a b => a.entry.time ≤ b.entry.time
  (sorted.take (map.rows.length - HIWATER_MAX_ENTRIES)).foldl (fun m row => m.remove row.key) map

/-- What both tools carry into the entry they write. -/
def nextEntry (entry : Option Entry) (newSize prevSize now : Nat) : Entry :=
  let hi := max (max newSize prevSize) (hiwaterHi entry)
  match entry with
  | none => { hi, last := newSize, time := now }
  | some e =>
    { hi, last := newSize, time := now, chk := e.chk, bestSyms := e.bestSyms
      good := e.good
      goodAt := if 0 < e.good then e.goodAt else 0
      goodSyms := if 0 < e.good then e.goodSyms else none
      bestAt := if e.bestSyms.isSome then e.bestAt else 0 }

/-- A structural verdict: a pass makes the new size the good one. -/
def Entry.judged (next : Entry) (verdict : Option Bool) (newSize now : Nat) (syms : List Text) :
    Entry :=
  match verdict with
  | none => next
  | some false => { next with chk := some false }
  | some true =>
    { next with chk := some true, good := newSize, goodAt := now, goodSyms := some syms }

/-! ## What the operations keep -/

variable {a b : Entry} {e : Option Entry} {row : Row} {newSize prevSize now : Nat}

/-- How many other files the ledger knows. -/
def Ledger.others (map : Ledger) (key : Text) : Nat := (map.remove key).rows.length

@[simp] theorem Ledger.find_put : Ledger.find (map.put row) row.key = some row.entry := by
  rw [Ledger.find, Table.get_put, if_pos rfl, Option.map_some]

@[simp] theorem Ledger.others_put : Ledger.others (map.put row) row.key = map.others row.key := by
  rw [Ledger.others, Ledger.others, Table.remove_put]

theorem Ledger.others_remove_le {former : Text} :
    Ledger.others (map.remove former) key ≤ map.others key := by
  have hsub : (map.remove former).rows.Sublist map.rows := List.filter_sublist
  exact (hsub.filter _).length_le

theorem hi_foldEntries : (foldEntries a b).hi = max a.hi b.hi := by
  unfold foldEntries
  dsimp only
  split <;> split <;> simp [max_comm]

/-- Folding an older spelling in loses no mark. -/
theorem hi_entryFor : hiwaterHi (map.find (hiwaterKey lc workdir path)) ≤
    hiwaterHi (hiwaterEntryFor lc workdir map path).2 := by
  unfold hiwaterEntryFor
  dsimp only
  split
  · exact le_rfl
  · cases map.find (hiwaterKey lc workdir path) with
    | none => exact Nat.zero_le _
    | some a =>
      show a.hi ≤ (foldEntries a _).hi
      rw [hi_foldEntries]
      exact le_max_left _ _

theorem others_entryFor :
    Ledger.others (hiwaterEntryFor lc workdir map path).1 (hiwaterKey lc workdir path) ≤
      map.others (hiwaterKey lc workdir path) := by
  unfold hiwaterEntryFor
  dsimp only
  split
  · exact le_rfl
  · rw [Ledger.others_put]
    exact Ledger.others_remove_le

/-- A ledger with room for one more file is saved as it is. -/
theorem hiwaterSave_of_others (h : map.others key < HIWATER_MAX_ENTRIES) :
    hiwaterSave map = map := by
  have hlen : map.rows.length ≤ map.others key + 1 := Table.length_le_remove
  rw [hiwaterSave, Nat.sub_eq_zero_of_le (by omega)]
  rfl

theorem hi_next :
    (nextEntry e newSize prevSize now).hi = max (max newSize prevSize) (hiwaterHi e) := by
  cases e <;> rfl

@[simp] theorem Entry.judged_none {syms : List Text} : a.judged none newSize now syms = a := rfl

end Nanna.Scripting
