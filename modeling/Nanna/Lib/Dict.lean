import Nanna.Lib.Table

/-!
# Maps from keys to values

A `Dict` is a table of pairs under their first components. It is known by what `find` reads
(`find_set`, `find_erase`, `find_eraseAll`), and holds a pair exactly when `find` finds it (`mem_rows`).
-/

namespace Nanna.Lib

variable {κ ν : Type*}

abbrev Dict (κ ν : Type*) := Table (Prod.fst : κ × ν → κ)

namespace Dict

variable [DecidableEq κ] {d : Dict κ ν} {j k : κ} {v : ν} {ks : List κ}

def find (d : Dict κ ν) (k : κ) : Option ν := (d.get k).map (·.2)

def set (d : Dict κ ν) (k : κ) (v : ν) : Dict κ ν := d.insert (k, v)

def erase (d : Dict κ ν) (k : κ) : Dict κ ν := d.remove k

def eraseAll (d : Dict κ ν) (ks : List κ) : Dict κ ν := ks.foldl erase d

@[simp] theorem find_empty : find (Table.empty : Dict κ ν) k = none := rfl

@[simp] theorem find_set : find (set d j v) k = if j = k then some v else find d k := by
  rw [find, set, Table.get_insert]
  split <;> rfl

@[simp] theorem find_erase : find (erase d j) k = if j = k then none else find d k := by
  rw [find, erase, Table.get_remove]
  split <;> rfl

theorem find_eraseAll : find (eraseAll d ks) k = if k ∈ ks then none else find d k := by
  induction ks generalizing d with
  | nil => rfl
  | cons j ks ih =>
    rw [eraseAll, List.foldl_cons, ← eraseAll, ih, find_erase]
    by_cases hmem : k ∈ ks
    · rw [if_pos hmem, if_pos (List.mem_cons_of_mem _ hmem)]
    · by_cases hkey : j = k
      · rw [if_neg hmem, if_pos hkey, if_pos (hkey ▸ List.mem_cons_self)]
      · rw [if_neg hmem, if_neg hkey, if_neg]
        exact fun h => (List.mem_cons.mp h).elim (fun h => hkey h.symm) hmem

theorem mem_rows : (k, v) ∈ d.rows ↔ find d k = some v := by
  rw [Table.mem_rows, find]
  cases hget : d.get k with
  | none => exact ⟨nofun, nofun⟩
  | some pair =>
    obtain ⟨k', v'⟩ := pair
    obtain rfl : k' = k := Table.key_of_get hget
    simp

end Dict

end Nanna.Lib
