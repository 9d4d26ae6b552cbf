import Mathlib.Data.List.Basic

/-!
# Where an element of a concatenation comes from

An element of `xs ++ ys` at a position is an element of one of the two at a position there
(`eq_append_split`), and an element of `xs.flatMap f` is one of the list that some element of `xs` is
mapped to (`flatMap_split`).
-/

namespace Nanna.Lib

variable {α β : Type*} {f : α → List β} {xs : List α} {ys zs pre post : List β} {b : β}

theorem eq_append_split (h : ys ++ zs = pre ++ b :: post) :
    (∃ mid, ys = pre ++ b :: mid ∧ post = mid ++ zs) ∨
      ∃ mid, pre = ys ++ mid ∧ zs = mid ++ b :: post := by
  induction ys generalizing pre with
  | nil => exact .inr ⟨pre, rfl, h⟩
  | cons y ys ih =>
    cases pre with
    | nil =>
      cases h
      exact .inl ⟨ys, rfl, rfl⟩
    | cons p pre =>
      obtain ⟨rfl, htail⟩ := List.cons.inj h
      rcases ih htail with ⟨mid, rfl, hpost⟩ | ⟨mid, rfl, hzs⟩
      · exact .inl ⟨mid, rfl, hpost⟩
      · exact .inr ⟨mid, rfl, hzs⟩

theorem flatMap_split (h : xs.flatMap f = pre ++ b :: post) : ∃ before a after mid rest,
    xs = before ++ a :: after ∧ f a = mid ++ b :: rest ∧ post = rest ++ after.flatMap f := by
  induction xs generalizing pre with
  | nil => exact absurd h (by simp)
  | cons x xs ih =>
    rw [List.flatMap_cons] at h
    rcases eq_append_split h with ⟨mid, hx, hpost⟩ | ⟨mid, -, hxs⟩
    · exact ⟨[], x, xs, pre, mid, rfl, hx, hpost⟩
    · obtain ⟨before, a, after, mid', rest, rfl, ha, hpost⟩ := ih hxs
      exact ⟨x :: before, a, after, mid', rest, rfl, ha, hpost⟩

end Nanna.Lib
