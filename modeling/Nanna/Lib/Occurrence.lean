import Nanna.Lib.Text

/-!
# Cutting a text at an occurrence

`cutFirst` and `cutLast` cut a text at the first and at the last occurrence of a needle. A cut names
an occurrence (`eq_of_cutFirst`, `eq_of_cutLast`), and there is none exactly where the text does not
contain the needle (`cutFirst_eq_none`).
-/

namespace Nanna.Lib.Text

/-- `t.trim_start()`. -/
def trimStart (t : Text) : Text := t.dropWhile isWhitespace

/-- `t.trim_end()`. -/
def trimEnd (t : Text) : Text := t.rdropWhile isWhitespace

/-- What is before and after the first occurrence. -/
def cutFirst (needle : Text) : Text → Option (Text × Text)
  | [] => if needle = [] then some ([], []) else none
  | c :: t =>
    match (c :: t).dropPrefix? needle with
    | some post => some ([], post)
    | none => (cutFirst needle t).map fun (pre, post) => (c :: pre, post)

/-- What is before and after the last occurrence. -/
def cutLast (needle : Text) : Text → Option (Text × Text)
  | [] => if needle = [] then some ([], []) else none
  | c :: t =>
    match cutLast needle t with
    | some (pre, post) => some (c :: pre, post)
    | none => ((c :: t).dropPrefix? needle).map fun post => ([], post)

variable {needle t pre post : Text}

theorem dropPrefix_append (needle post : Text) : (needle ++ post).dropPrefix? needle = some post :=
  List.dropPrefix?_append_of_beq post (beq_self_eq_true needle)

theorem eq_of_dropPrefix (h : t.dropPrefix? needle = some post) : t = needle ++ post := by
  obtain ⟨needle', rfl, hneedle⟩ := List.dropPrefix?_eq_some_iff.mp h
  rw [beq_iff_eq.mp hneedle]

theorem eq_of_cutFirst (h : cutFirst needle t = some (pre, post)) : t = pre ++ needle ++ post := by
  induction t generalizing pre with
  | nil =>
    rw [cutFirst] at h
    split at h
    · rename_i hneedle
      cases h
      rw [hneedle]
      rfl
    · cases h
  | cons c t ih =>
    rw [cutFirst] at h
    split at h
    · rename_i hdrop
      cases h
      exact eq_of_dropPrefix hdrop
    · obtain ⟨⟨pre', post'⟩, hcut, heq⟩ := Option.map_eq_some_iff.mp h
      cases heq
      exact congrArg (c :: ·) (ih hcut)

theorem eq_of_cutLast (h : cutLast needle t = some (pre, post)) : t = pre ++ needle ++ post := by
  induction t generalizing pre with
  | nil =>
    rw [cutLast] at h
    split at h
    · rename_i hneedle
      cases h
      rw [hneedle]
      rfl
    · cases h
  | cons c t ih =>
    rw [cutLast] at h
    split at h
    · rename_i pre' post' hcut
      cases h
      exact congrArg (c :: ·) (ih hcut)
    · obtain ⟨post', hdrop, heq⟩ := Option.map_eq_some_iff.mp h
      cases heq
      exact eq_of_dropPrefix hdrop

theorem cutFirst_eq_none : cutFirst needle t = none ↔ ¬ needle <:+: t := by
  induction t with
  | nil =>
    rw [cutFirst, List.infix_nil]
    split
    · rename_i hneedle
      simp [hneedle]
    · rename_i hneedle
      simp [hneedle]
  | cons c t ih =>
    rw [cutFirst, List.infix_cons_iff, not_or, ← ih]
    split
    · rename_i post hdrop
      simp [eq_of_dropPrefix hdrop]
    · rename_i hdrop
      rw [Option.map_eq_none_iff, and_iff_right]
      rintro ⟨post, hpost⟩
      rw [← hpost, dropPrefix_append] at hdrop
      cases hdrop

theorem length_lt_of_cutFirst (h : cutFirst needle t = some (pre, post)) (hne : needle ≠ []) :
    post.length < t.length := by
  have hpos := List.length_pos_iff.mpr hne
  rw [eq_of_cutFirst h, List.length_append, List.length_append]
  omega

end Nanna.Lib.Text
