import Mathlib.Data.List.DropRight
import Mathlib.Data.List.Infix
import Mathlib.Algebra.BigOperators.Group.List.Basic
import Mathlib.Algebra.Ring.Nat

/-!
# Texts: trimming, containment, byte lengths

A text is its list of characters. `trim` drops the characters with the Unicode `White_Space`
property at both ends; `byteLen` is the length of the UTF-8 encoding; containment is `<:+:`.
The facts used are that a trimmed text is contained in its source (`trim_infix`) and that
containment of a trimmed text survives trimming the other side (`trim_infix_trim`).
-/

namespace Nanna.Lib

abbrev Text := List Char

instance instLawfulBEqText : LawfulBEq Text := inferInstance

namespace Text

/-- The Unicode property `White_Space`. -/
def isWhitespace (c : Char) : Bool :=
  let n := c.toNat
  (9 ≤ n && n ≤ 13) || n == 32 || n == 133 || n == 160 || n == 5760 || (8192 ≤ n && n ≤ 8202) ||
    n == 8232 || n == 8233 || n == 8239 || n == 8287 || n == 12288

/-- A letter, by its code. -/
theorem isAlpha_iff {c : Char} :
    c.isAlpha = true ↔ (65 ≤ c.toNat ∧ c.toNat ≤ 90) ∨ (97 ≤ c.toNat ∧ c.toNat ≤ 122) := by
  have hcodes : c.isAlpha = (decide (65 ≤ c.toNat ∧ c.toNat ≤ 90) ||
      (decide (97 ≤ c.toNat) && decide (c.toNat ≤ 122))) := rfl
  rw [hcodes]
  simp

theorem isDigit_iff {c : Char} : c.isDigit = true ↔ 48 ≤ c.toNat ∧ c.toNat ≤ 57 := by
  have hcodes : c.isDigit = (decide (48 ≤ c.toNat) && decide (c.toNat ≤ 57)) := rfl
  rw [hcodes]
  simp

theorem isAlphanum_iff {c : Char} : c.isAlphanum = true ↔ c.isAlpha = true ∨ c.isDigit = true :=
  Bool.or_eq_true_iff

def trim (t : Text) : Text := (t.dropWhile isWhitespace).rdropWhile isWhitespace

/-- The length of the UTF-8 encoding. -/
def byteLen (t : Text) : Nat := (t.map Char.utf8Size).sum

def contains (t needle : Text) : Bool := decide (needle <:+: t)

@[simp] theorem contains_iff {t needle : Text} : contains t needle = true ↔ needle <:+: t := by
  simp [contains]

@[simp] theorem byteLen_nil : byteLen [] = 0 := rfl

@[simp] theorem byteLen_append (s t : Text) : byteLen (s ++ t) = byteLen s + byteLen t := by
  simp [byteLen]

theorem trim_infix (t : Text) : trim t <:+: t :=
  (List.rdropWhile_prefix _ _).isInfix.trans (List.dropWhile_suffix _).isInfix

theorem trim_head {t : Text} {c : Char} {cs : Text} (h : trim t = c :: cs) :
    isWhitespace c = false := by
  have hpre : trim t <+: t.dropWhile isWhitespace := List.rdropWhile_prefix _ _
  rw [h] at hpre
  obtain ⟨rest, hrest⟩ := hpre
  have hd : (t.dropWhile isWhitespace).head? = some c := by rw [← hrest]; rfl
  have := List.head?_dropWhile_not isWhitespace t
  rw [hd] at this
  simpa using this

theorem trim_last {t : Text} {c : Char} {cs : Text} (h : trim t = cs ++ [c]) :
    isWhitespace c = false := by
  have key : ∀ (l : Text) (hl : l ≠ []), l = cs ++ [c] → l.getLast hl = c := by
    rintro l hl rfl
    simp
  have hne : trim t ≠ [] := by rw [h]; simp
  have hnot : ¬ isWhitespace ((trim t).getLast hne) = true :=
    List.rdropWhile_last_not isWhitespace (t.dropWhile isWhitespace) hne
  rw [key _ hne h] at hnot
  simpa using hnot

theorem dropWhile_of_head {c : Char} {cs : Text} (h : isWhitespace c = false) :
    List.dropWhile isWhitespace (c :: cs) = c :: cs := by
  simp [h]

theorem infix_dropWhile {c : Char} {x t : Text} (h : isWhitespace c = false)
    (hx : c :: x <:+: t) : c :: x <:+: t.dropWhile isWhitespace := by
  obtain ⟨a, b, rfl⟩ := hx
  induction a with
  | nil => rw [List.nil_append, List.cons_append, dropWhile_of_head h]; exact ⟨[], b, rfl⟩
  | cons d a ih =>
    by_cases hd : isWhitespace d
    · simpa [hd] using ih
    · exact ⟨d :: a, b, by simp [hd]⟩

theorem infix_rdropWhile {c : Char} {x t : Text} (h : isWhitespace c = false)
    (hx : x ++ [c] <:+: t) : x ++ [c] <:+: t.rdropWhile isWhitespace := by
  have hrev : c :: x.reverse <:+: t.reverse := by
    have := List.reverse_infix.mpr hx
    simpa using this
  have := List.reverse_infix.mpr (infix_dropWhile h hrev)
  simpa [List.rdropWhile] using this

/-- A trimmed text inside another is inside the other trimmed. -/
theorem trim_infix_trim {x t : Text} (h : trim x <:+: t) : trim x <:+: trim t := by
  rcases hx : trim x with _ | ⟨c, cs⟩
  · exact ⟨[], trim t, rfl⟩
  · have h1 : trim x <:+: t.dropWhile isWhitespace := by
      rw [hx] at h ⊢
      exact infix_dropWhile (trim_head hx) h
    rcases List.eq_nil_or_concat (trim x) with hnil | ⟨ds, d, hd⟩
    · rw [hx] at hnil; cases hnil
    · rw [List.concat_eq_append] at hd
      rw [hd] at h1
      rw [← hx, hd]
      exact infix_rdropWhile (trim_last hd) h1

/-- No blank at either end. -/
def Tight (t : Text) : Prop :=
  (∀ c ∈ t.head?, isWhitespace c = false) ∧ ∀ c ∈ t.getLast?, isWhitespace c = false

theorem tight_trim (t : Text) : Tight (trim t) := by
  refine ⟨fun c hc => ?_, fun c hc => ?_⟩
  · obtain ⟨cs, hcs⟩ := List.head?_eq_some_iff.mp hc
    exact trim_head hcs
  · obtain ⟨cs, hcs⟩ := List.getLast?_eq_some_iff.mp hc
    exact trim_last hcs

/-- What stands between blanks is what trimming leaves. -/
theorem trim_blanks {pre t post : Text} (hpre : ∀ c ∈ pre, isWhitespace c = true)
    (hpost : ∀ c ∈ post, isWhitespace c = true) (ht : Tight t) : trim (pre ++ t ++ post) = t := by
  have hdrop : (t ++ post).rdropWhile isWhitespace = t := by
    rw [List.rdropWhile, List.reverse_append,
      List.dropWhile_append_of_pos fun c hc => hpost c (List.mem_reverse.mp hc)]
    exact List.rdropWhile_eq_self_iff.mpr fun hne =>
      Bool.not_eq_true _ ▸ ht.2 _ (List.getLast?_eq_some_getLast hne)
  rw [trim, List.append_assoc, List.dropWhile_append_of_pos hpre]
  cases t with
  | nil =>
    rw [List.nil_append, List.dropWhile_eq_nil_iff.mpr hpost]
    rfl
  | cons c cs =>
    rw [List.cons_append, dropWhile_of_head (ht.1 c rfl)]
    exact hdrop

/-- A joined text is inside the join. -/
theorem infix_intercalate {sep t : Text} {ts : List Text} (h : t ∈ ts) :
    t <:+: sep.intercalate ts := by
  induction ts with
  | nil => cases h
  | cons t' ts ih =>
    cases ts with
    | nil =>
      rw [List.mem_singleton.mp h, List.intercalate_singleton]
    | cons t'' ts =>
      rw [List.intercalate_cons_cons]
      rcases List.mem_cons.mp h with rfl | h
      · exact ((List.prefix_append _ _).trans (List.prefix_append _ _)).isInfix
      · exact (ih h).trans (List.suffix_append _ _).isInfix

end Text

end Nanna.Lib
