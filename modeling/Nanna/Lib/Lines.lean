import Nanna.Lib.Matches

/-!
# Lines by their positions

A script that edits lines in place finds them by position: where each line starts (`lineStarts`), and that
it ends before the next one does. The text between the two positions is the line (`line_eq`), and what
stands before the first of them is the lines before it (`lineStart_eq`).
-/

namespace Nanna.Lib.Text

def startsFrom (p : Nat) : Text → List Nat
  | [] => []
  | c :: t => if c = '\n' then (p + 1) :: startsFrom (p + 1) t else startsFrom (p + 1) t

/-- Where the lines start: at 0, and behind every line break. -/
def lineStarts (t : Text) : List Nat := 0 :: startsFrom 0 t

def lineStart (t : Text) (i : Nat) : Nat := (lineStarts t).getD i 0

/-- Before the line break that the next line stands behind, or at the end. -/
def lineEnd (t : Text) (i : Nat) : Nat :=
  if i + 1 < (lineStarts t).length then lineStart t (i + 1) - 1 else t.length

variable {t line : Text} {pres posts ls : List Text} {p : Nat}

/-! ## Lines and starts -/

/-- Where lines start that stand one behind the other from `p` on. -/
def offsets (p : Nat) : List Text → List Nat
  | [] => []
  | line :: ls => p :: offsets (p + line.length + 1) ls

theorem length_offsets : (offsets p ls).length = ls.length := by
  induction ls generalizing p with
  | nil => rfl
  | cons line ls ih => exact congrArg Nat.succ ih

theorem offsets_append :
    offsets p (pres ++ posts) = offsets p pres ++ offsets (p + (upTo ['\n'] pres).length) posts := by
  induction pres generalizing p with
  | nil => rfl
  | cons line pres ih =>
    have hlen : p + (upTo ['\n'] (line :: pres)).length =
        p + line.length + 1 + (upTo ['\n'] pres).length := by
      simp [upTo]
      omega
    rw [List.cons_append, offsets, ih, hlen]
    rfl

theorem startsFrom_eq : p :: startsFrom p t = offsets p (t.splitOn '\n') := by
  induction t generalizing p with
  | nil => rfl
  | cons c t ih =>
    obtain ⟨line, ls, hlines⟩ := List.exists_cons_of_ne_nil (List.splitOn_ne_nil '\n' t)
    have hrest := ih (p := p + 1)
    rw [hlines, offsets] at hrest
    rw [List.splitOn_cons_eq_if_modifyHead, hlines, startsFrom]
    by_cases hc : c = '\n'
    · rw [if_pos hc, if_pos (beq_iff_eq.mpr hc), hrest]
      rfl
    · rw [if_neg hc, if_neg (fun h => hc (beq_iff_eq.mp h)), List.modifyHead_cons, offsets,
        (List.cons.inj hrest).2, List.length_cons]
      congr 2
      omega

theorem lineStarts_eq : lineStarts t = offsets 0 (t.splitOn '\n') := startsFrom_eq

theorem length_lineStarts : (lineStarts t).length = (t.splitOn '\n').length := by
  rw [lineStarts_eq, length_offsets]

theorem intercalate_lines (t : Text) : ['\n'].intercalate (t.splitOn '\n') = t := List.intercalate_splitOn '\n'

/-! ## One line -/

theorem lineStart_eq (h : t.splitOn '\n' = pres ++ line :: posts) :
    lineStart t pres.length = (upTo ['\n'] pres).length := by
  have hat : (offsets 0 pres).length = pres.length := length_offsets
  rw [lineStart, lineStarts_eq, h, offsets_append, List.getD_eq_getElem?_getD,
    List.getElem?_append_right hat.le, hat, Nat.sub_self, Nat.zero_add]
  rfl

theorem lineEnd_eq (h : t.splitOn '\n' = pres ++ line :: posts) :
    lineEnd t pres.length = (upTo ['\n'] pres ++ line).length := by
  have hlines : (lineStarts t).length = pres.length + (posts.length + 1) := by
    rw [length_lineStarts, h, List.length_append, List.length_cons]
  unfold lineEnd
  cases posts with
  | nil =>
    rw [if_neg (by rw [hlines, List.length_nil]; omega), ← intercalate_snoc, ← h, intercalate_lines]
  | cons next posts =>
    have hnext : t.splitOn '\n' = (pres ++ [line]) ++ next :: posts := by rw [h, List.append_assoc]; rfl
    have hstart := lineStart_eq hnext
    rw [List.length_append, List.length_singleton, upTo_snoc, List.length_append] at hstart
    rw [if_pos (by rw [hlines, List.length_cons]; omega), hstart]
    rfl

/-- The lines behind some other lines. -/
def downFrom (posts : List Text) : Text := posts.flatMap ('\n' :: ·)

theorem intercalate_downFrom (hls : ls ≠ []) :
    ['\n'].intercalate (ls ++ posts) = ['\n'].intercalate ls ++ downFrom posts := by
  induction posts generalizing ls with
  | nil => simp [downFrom]
  | cons line posts ih =>
    have hsnoc := @ih (ls ++ [line]) (List.append_ne_nil_of_left_ne_nil hls [line])
    rw [List.append_cons, hsnoc, intercalate_snoc, upTo_eq hls]
    simp [downFrom]

/-- A text cut around some of its lines. -/
theorem eq_around_lines (hls : ls ≠ []) (h : t.splitOn '\n' = pres ++ (ls ++ posts)) :
    t = upTo ['\n'] pres ++ (['\n'].intercalate ls ++ downFrom posts) := by
  rw [← intercalate_downFrom hls, ← intercalate_append (List.append_ne_nil_of_left_ne_nil hls posts), ← h,
    intercalate_lines]

theorem line_eq (h : t.splitOn '\n' = pres ++ line :: posts) :
    substring t (lineStart t pres.length) (lineEnd t pres.length) = line := by
  have htext := eq_around_lines (List.cons_ne_nil line []) h
  rw [List.intercalate_singleton] at htext
  rw [lineStart_eq h, lineEnd_eq h, htext, substring_around]

end Nanna.Lib.Text
