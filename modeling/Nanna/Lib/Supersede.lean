import Mathlib.Data.List.Basic
import Mathlib.Data.List.Induction

/-!
# Entries that replace older ones of their key

`supersede key old new` drops from `old` what `new` names again and appends `new`. After any number of batches
an entry is there exactly when it is in the last batch that names its key (`mem_foldl_supersede`).
-/

namespace Nanna.Lib

variable {α κ : Type*} {key : α → κ} {old new : List α} {batches : List (List α)} {a : α}

/-- The last batch that names the key of the entry holds the entry. -/
def Latest (key : α → κ) (batches : List (List α)) (a : α) : Prop :=
  ∃ pre batch post, batches = pre ++ batch :: post ∧ a ∈ batch ∧ ∀ later ∈ post, ∀ b ∈ later, key b ≠ key a

theorem latest_append_singleton : Latest key (batches ++ [new]) a ↔
    a ∈ new ∨ Latest key batches a ∧ ∀ b ∈ new, key b ≠ key a := by
  constructor
  · rintro ⟨pre, batch, post, heq, hmem, hlater⟩
    rcases List.eq_nil_or_concat' post with rfl | ⟨post, last, rfl⟩
    · obtain ⟨rfl, hlast⟩ := List.append_inj' heq rfl
      exact .inl (List.head_eq_of_cons_eq hlast ▸ hmem)
    · rw [← List.cons_append, ← List.append_assoc] at heq
      obtain ⟨rfl, hlast⟩ := List.append_inj' heq rfl
      obtain rfl := List.head_eq_of_cons_eq hlast
      exact .inr ⟨⟨pre, batch, post, rfl, hmem, fun l hl => hlater l (List.mem_append_left _ hl)⟩,
        hlater _ (List.mem_append_right _ List.mem_cons_self)⟩
  · rintro (hmem | ⟨⟨pre, batch, post, rfl, hmem, hlater⟩, hnew⟩)
    · exact ⟨batches, new, [], rfl, hmem, fun _ h => absurd h List.not_mem_nil⟩
    · refine ⟨pre, batch, post ++ [new], by simp, hmem, fun l hl => ?_⟩
      rcases List.mem_append.mp hl with hl | hl
      · exact hlater l hl
      · exact List.mem_singleton.mp hl ▸ hnew

variable [DecidableEq κ]

def supersede (key : α → κ) (old new : List α) : List α :=
  old.filter (fun a => new.all fun b => key b ≠ key a) ++ new

theorem mem_supersede : a ∈ supersede key old new ↔ a ∈ new ∨ a ∈ old ∧ ∀ b ∈ new, key b ≠ key a := by
  simp [supersede, or_comm]

theorem mem_foldl_supersede : a ∈ batches.foldl (supersede key) [] ↔ Latest key batches a := by
  induction batches using List.reverseRecOn with
  | nil => simp [Latest]
  | append_singleton batches new ih => rw [List.foldl_concat, mem_supersede, ih, latest_append_singleton]

end Nanna.Lib
