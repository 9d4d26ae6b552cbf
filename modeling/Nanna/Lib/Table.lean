import Mathlib.Data.List.Nodup

/-!
# Tables: records under distinct keys

`Table key` is a list of records whose keys are distinct: a hash map whose values carry their own
key, or a relation with a unique column. Every operation is known by what `get` reads after it
(`get_insert`, `get_remove`, `get_modify`, `get_ofList`), and a record is in the table exactly when
`get` finds it under its key (`mem_rows`).
-/

namespace Nanna.Lib

variable {α β κ : Type*}

/-- Records under distinct keys. -/
@[ext]
structure Table (key : α → κ) where
  rows : List α
  nodup : (rows.map key).Nodup

namespace Table

variable {key : α → κ} {key' : β → κ} {t : Table key} {a : α} {j k : κ} {f : α → α}

instance [DecidableEq α] : DecidableEq (Table key) := fun s t =>
  decidable_of_iff (s.rows = t.rows) ⟨fun h => by cases s; cases t; cases h; rfl, fun h => h ▸ rfl⟩

def empty : Table key := ⟨[], List.nodup_nil⟩

variable [DecidableEq κ]

def get (t : Table key) (k : κ) : Option α := t.rows.find? (key · = k)

def remove (t : Table key) (k : κ) : Table key :=
  ⟨t.rows.filter (key · ≠ k), (List.filter_sublist.map key).nodup t.nodup⟩

theorem not_mem_keys_remove : k ∉ (t.remove k).rows.map key := by
  intro h
  obtain ⟨a, ha, hk⟩ := List.mem_map.mp h
  simpa [hk] using (List.mem_filter.mp ha).2

def insert (t : Table key) (a : α) : Table key :=
  ⟨a :: (t.remove (key a)).rows, List.nodup_cons.mpr ⟨not_mem_keys_remove, (t.remove _).nodup⟩⟩

theorem mem_keys_insert :
    k ∈ (t.insert a).rows.map key ↔ k = key a ∨ k ∈ t.rows.map key := by
  simp only [insert, remove, List.map_cons, List.mem_cons, List.mem_map, List.mem_filter,
    decide_eq_true_eq]
  constructor
  · rintro (h | ⟨b, ⟨hb, -⟩, rfl⟩)
    · exact .inl h
    · exact .inr ⟨b, hb, rfl⟩
  · rintro (h | ⟨b, hb, rfl⟩)
    · exact .inl h
    · by_cases hkey : key b = key a
      · exact .inl hkey
      · exact .inr ⟨b, ⟨hb, hkey⟩, rfl⟩

/-- Rewrite the record under a key, where there is one. -/
def modify (t : Table key) (k : κ) (f : α → α) : Table key :=
  match t.get k with
  | some a => t.insert (f a)
  | none => t

def ofList (rows : List α) : Table key := rows.foldl insert empty

def replace (key : α → κ) (a : α) (rows : List α) : List α :=
  rows.map fun b => if key b = key a then a else b

theorem map_key_replace {rows : List α} : (replace key a rows).map key = rows.map key := by
  rw [replace, List.map_map]
  refine List.map_congr_left fun b _ => ?_
  rw [Function.comp_apply]
  split
  · rename_i h
    exact h.symm
  · rfl

/-- Write a record in the place of the one under its key, or at the end. -/
def put (t : Table key) (a : α) : Table key :=
  if h : key a ∈ t.rows.map key then
    ⟨replace key a t.rows, by
      rw [map_key_replace]
      exact t.nodup⟩
  else
    ⟨t.rows ++ [a], by
      rw [List.map_append]
      exact t.nodup.append (List.nodup_singleton _) (List.disjoint_singleton.mpr h)⟩

/-! ## What is read afterwards -/

@[simp] theorem get_empty : (empty : Table key).get k = none := rfl

theorem key_of_get (h : t.get k = some a) : key a = k := by
  simpa using List.find?_some h

@[simp] theorem get_remove : (t.remove j).get k = if j = k then none else t.get k := by
  unfold get remove
  split
  · rename_i h
    simp [List.find?_eq_none, h]
  · rename_i h
    rw [List.find?_filter]
    congr 1
    funext a
    by_cases ha : key a = k
    · simp [ha, Ne.symm h]
    · simp [ha]

@[simp] theorem get_insert : (t.insert a).get k = if key a = k then some a else t.get k := by
  have hremove : (t.remove (key a)).get k = if key a = k then none else t.get k := get_remove
  unfold get at hremove ⊢
  unfold insert
  split at hremove
  · rename_i h
    simp [h]
  · rename_i h
    rw [if_neg h, List.find?_cons_of_neg (by simpa using h), hremove]

theorem get_modify (hf : ∀ a, t.get j = some a → key (f a) = key a) :
    (t.modify j f).get k = if j = k then (t.get k).map f else t.get k := by
  unfold modify
  cases hj : t.get j with
  | none =>
    dsimp only
    split
    · rename_i h
      rw [← h, hj, Option.map_none]
    · rfl
  | some a =>
    dsimp only
    have hkey : key (f a) = j := (hf a hj).trans (key_of_get hj)
    rw [get_insert, hkey]
    split
    · rename_i h
      rw [← h, hj, Option.map_some]
    · rfl

/-- A record is in the table exactly when it is found under its key. -/
theorem mem_rows : a ∈ t.rows ↔ t.get (key a) = some a := by
  refine ⟨fun h => ?_, fun h => List.mem_of_find?_eq_some h⟩
  cases hget : t.get (key a) with
  | none => simpa using List.find?_eq_none.mp hget a h
  | some b =>
    exact congrArg some (List.inj_on_of_nodup_map t.nodup (List.mem_of_find?_eq_some hget) h
      (key_of_get hget))

theorem filter_replace {rows : List α} :
    (replace key a rows).filter (key · ≠ key a) = rows.filter (key · ≠ key a) := by
  induction rows with
  | nil => rfl
  | cons b rows ih =>
    rw [replace, List.map_cons, ← replace]
    by_cases hb : key b = key a
    · simpa [hb] using ih
    · simpa [hb] using ih

theorem remove_put : (t.put a).remove (key a) = t.remove (key a) := by
  refine Table.ext ?_
  unfold put
  split
  · exact filter_replace
  · show List.filter _ (t.rows ++ [a]) = t.rows.filter _
    rw [List.filter_append, List.filter_cons_of_neg (by simp), List.filter_nil, List.append_nil]

theorem length_le_filter {rows : List α} (h : (rows.map key).Nodup) :
    rows.length ≤ (rows.filter (key · ≠ k)).length + 1 := by
  induction rows with
  | nil => exact Nat.zero_le _
  | cons a rows ih =>
    obtain ⟨ha, hrows⟩ := List.nodup_cons.mp h
    by_cases hk : key a = k
    · have hrest : rows.filter (key · ≠ k) = rows := List.filter_eq_self.mpr fun b hb =>
        decide_eq_true fun hbk => ha (List.mem_map.mpr ⟨b, hb, hbk.trans hk.symm⟩)
      rw [List.filter_cons_of_neg (by simpa using hk), hrest]
      exact Nat.le_refl _
    · rw [List.filter_cons_of_pos (by simpa using hk), List.length_cons, List.length_cons]
      exact Nat.succ_le_succ (ih hrows)

/-- All the records but one are under other keys. -/
theorem length_le_remove : t.rows.length ≤ (t.remove k).rows.length + 1 :=
  length_le_filter t.nodup

theorem mem_put : a ∈ (t.put a).rows := by
  unfold put
  split
  · rename_i h
    obtain ⟨b, hb, hkey⟩ := List.mem_map.mp h
    exact List.mem_map.mpr ⟨b, hb, if_pos hkey⟩
  · exact List.mem_append_right _ List.mem_cons_self

@[simp] theorem get_put : (t.put a).get k = if key a = k then some a else t.get k := by
  split
  · rename_i h
    rw [← h]
    exact mem_rows.mp mem_put
  · rename_i h
    have hother : ∀ s : Table key, (s.remove (key a)).get k = s.get k := fun s => by
      rw [get_remove, if_neg h]
    rw [← hother (t.put a), remove_put, hother]

theorem get_foldl_insert {rows : List α} (h : (rows.map key).Nodup) :
    (rows.foldl insert t).get k = (rows.find? (key · = k)).or (t.get k) := by
  induction rows generalizing t with
  | nil => rfl
  | cons a rows ih =>
    obtain ⟨ha, hrows⟩ := List.nodup_cons.mp h
    rw [List.foldl_cons, ih hrows, get_insert, List.find?_cons]
    split
    · rename_i hk
      have hrest : rows.find? (key · = k) = none := List.find?_eq_none.mpr fun b hb hbk =>
        ha (List.mem_map.mpr ⟨b, hb, (of_decide_eq_true hbk).trans hk.symm⟩)
      simp [hk, hrest]
    · rename_i hk
      simp [hk]

/-- What a table built from another's converted records reads. -/
theorem get_ofList_map {s : Table key'} {g : β → α} (hg : ∀ b, key (g b) = key' b) :
    (ofList (s.rows.map g) : Table key).get k = (s.get k).map g := by
  have hnodup : ((s.rows.map g).map key).Nodup := by
    rw [List.map_map, show key ∘ g = key' from funext hg]
    exact s.nodup
  rw [ofList, get_foldl_insert hnodup, get_empty, Option.or_none, get, List.find?_map]
  simp only [Function.comp_def, hg]

end Table

end Nanna.Lib
