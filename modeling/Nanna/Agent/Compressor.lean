import Nanna.Lib.Decimal
import Nanna.Lib.Occurrence
import Nanna.Lib.Utf8

/-!
# Mechanical reduction

`elision_honest_iff`: what `fallback_compress` and `elide_by_lines` return is a prefix of the content, a
marker and a suffix, with whole lines on both sides of a marker that counts lines. It is shorter than
the content and counts the characters left out exactly where these are ASCII and, for the first of
the two, the ratio is at least 2: both count bytes as characters, and only the second looks at the length
of its result.

Head and tail are the longest ones within the same budget (`Longest`), of characters or of lines, so what
is left out is what neither has room for (`mem_gap_iff`).
-/

namespace Nanna.Agent

open Nanna.Lib Nanna.Lib.Text

/-! ## The reductions -/

/-- What stands for the elided part. -/
inductive Marker
  | middle (elided : Nat)
  | gap (elidedLines : Nat) (range : Text) (elidedChars : Nat)

def Marker.text : Marker → Text
  | .middle elided =>
    "\n[...compressed: ".toList ++ Nat.toDigits 10 elided ++ " chars elided from the middle...]\n".toList
  | .gap elidedLines range elidedChars =>
    "\n[... ".toList ++ Nat.toDigits 10 elidedLines ++ " lines elided (".toList ++ range ++ ", ".toList ++
      Nat.toDigits 10 elidedChars ++ (" chars) to fit the " ++
      "context window. The lines above and below are VERBATIM and complete — nothing " ++
      "was reflowed or reordered. Read the file for the elided range.]\n").toList

structure Elision where
  head : Text
  marker : Marker
  tail : Text

def Elision.text (e : Elision) : Text := e.head ++ e.marker.text ++ e.tail

/-- `content.split_inclusive('\n')`. -/
def splitInclusive : Text → List Text
  | [] => []
  | c :: cs =>
    if c = '\n' then [c] :: splitInclusive cs
    else
      match splitInclusive cs with
      | [] => [[c]]
      | line :: lines => (c :: line) :: lines

/-- The line number a listing line carries. -/
def leadingLineNumber (line : Text) : Option Nat :=
  let rest := trimStart line
  let digits := rest.takeWhile Char.isDigit
  if digits.isEmpty then none
  else
    match (rest.drop digits.length).head? with
    | some c => if c ∈ ['\t', ':', '|', ' '] then readDigits (2 ^ 64) digits else none
    | none => none

/-- Half of the target length. -/
def half (content : Text) (ratio : Nat) : Nat := content.byteLen / max ratio 1 / 2

def fallbackElision (content : Text) (ratio : Nat) : Option Elision :=
  let half := half content ratio
  if half < 100 then none
  else
    let start := content.takeBytes half
    -- from the first boundary at or after the offset
    let tail := content.dropBytes (content.byteLen - half)
    some ⟨start, .middle (content.byteLen - start.byteLen - tail.byteLen), tail⟩

def fallbackCompress (content : Text) (ratio : Nat) : Option Text :=
  (fallbackElision content ratio).map Elision.text

/-- How many of the lines fit, one after the other, where `used` is taken. -/
def fitting (half : Nat) : Nat → List Text → Nat
  | _, [] => 0
  | used, line :: lines =>
    if used + line.byteLen ≤ half then fitting half (used + line.byteLen) lines + 1 else 0

/-- The gap between two lines, by the listing's own numbers when it has them. -/
def gapRange (lines : List Text) (firstGap lastGap : Nat) : Text :=
  match leadingLineNumber (lines.getD firstGap []), leadingLineNumber (lines.getD lastGap []) with
  | some first, some last => "lines ".toList ++ Nat.toDigits 10 first ++ "-".toList ++ Nat.toDigits 10 last
  | _, _ => "lines ".toList ++ Nat.toDigits 10 (firstGap + 1) ++ "-".toList ++ Nat.toDigits 10 (lastGap + 1) ++
      " of ".toList ++ Nat.toDigits 10 lines.length

/-- The lines of the head, one in any case. -/
def headLines (half : Nat) (lines : List Text) : Nat :=
  let count := fitting half 0 lines
  if count = 0 then 1 else count

/-- The lines of the tail, counted from the end until those of the head. -/
def tailLines (half : Nat) (lines : List Text) : Nat :=
  let count := fitting half 0 (lines.drop (fitting half 0 lines)).reverse
  if count = 0 ∧ headLines half lines < lines.length then 1 else count

/-- The first and the last lines, with the marker between them. -/
def linesAround (content : Text) (lines : List Text) (headLines tailLines : Nat) : Elision :=
  let elidedLines := lines.length - headLines - tailLines
  let head : Text := (lines.take headLines).flatten
  let tail : Text := (lines.drop (lines.length - tailLines)).flatten
  let elidedChars := content.byteLen - head.byteLen - tail.byteLen
  ⟨head, .gap elidedLines (gapRange lines headLines (headLines + elidedLines - 1)) elidedChars, tail⟩

def lineElision (content : Text) (ratio : Nat) : Option Elision :=
  let lines := splitInclusive content
  if lines.length < 4 then fallbackElision content ratio
  else
    let half := half content ratio
    if half < 100 then none
    else if lines.length ≤ headLines half lines + tailLines half lines then none
    else
      let e := linesAround content lines (headLines half lines) (tailLines half lines)
      if content.byteLen ≤ e.text.byteLen then none else some e

def elideByLines (content : Text) (ratio : Nat) : Option Text := (lineElision content ratio).map Elision.text

/-! ## Honesty -/

/-- The marker counts what is left out between head and tail. -/
def Marker.Counts (content head gap tail : Text) : Marker → Prop
  | .middle elided => elided = gap.length
  | .gap elidedLines range elidedChars => elidedChars = gap.length ∧ ∃ before between after,
      splitInclusive content = before ++ between ++ after ∧
      before.flatten = head ∧ between.flatten = gap ∧ after.flatten = tail ∧ elidedLines = between.length ∧
      range = gapRange (splitInclusive content) before.length (before.length + between.length - 1)

/-- The result is shorter than the content, which it holds but for the part that the marker counts. -/
structure Honest (content : Text) (e : Elision) : Prop where
  shorter : e.text.byteLen < content.byteLen
  counted : ∃ gap, content = e.head ++ gap ++ e.tail ∧ e.marker.Counts content e.head gap e.tail

def Ascii (t : Text) : Prop := ∀ c ∈ t, c.utf8Size = 1

/-- Every character that is not within `half` bytes of either end is ASCII. -/
def MiddleAscii (content : Text) (half : Nat) : Prop :=
  ∀ before c after, content = before ++ c :: after →
    half < byteLen (before ++ [c]) → half < byteLen (c :: after) → c.utf8Size = 1

/-- Every line is ASCII but for the first, the last and those within `half` bytes of either end. -/
def MiddleLinesAscii (content : Text) (half : Nat) : Prop :=
  ∀ before line after, splitInclusive content = before ++ line :: after → before ≠ [] → after ≠ [] →
    half < byteLen (before ++ [line]).flatten → half < byteLen (line :: after).flatten → Ascii line

/-! ## The longest head and tail -/

section Longest

variable {α : Type} {fits fits' : List α → Prop} {l head gap tail : List α}

/-- `head` begins the list, and what fits of its beginnings is what begins `head`. -/
def LongestHead (fits : List α → Prop) (l head : List α) : Prop :=
  head <+: l ∧ ∀ p, p <+: l → (fits p ↔ p <+: head)

def LongestTail (fits : List α → Prop) (l tail : List α) : Prop :=
  tail <:+ l ∧ ∀ p, p <:+ l → (fits p ↔ p <:+ tail)

/-- What is left out is what fits neither with all before it nor with all after it. -/
theorem forall_gap_iff {P : α → Prop} (hl : l = head ++ gap ++ tail) (hhead : LongestHead fits l head)
    (htail : LongestTail fits' l tail) : (∀ a ∈ gap, P a) ↔
      ∀ before a after, l = before ++ a :: after → ¬ fits (before ++ [a]) → ¬ fits' (a :: after) → P a := by
  constructor
  · intro hgap before a after hsplit hbefore hafter
    refine hgap a ?_
    have hinitial : before ++ [a] <+: l := ⟨after, by rw [hsplit, List.append_assoc]; rfl⟩
    have hfinal : a :: after <:+ l := ⟨before, hsplit.symm⟩
    rw [hhead.2 _ hinitial] at hbefore
    rw [htail.2 _ hfinal] at hafter
    have hlow : head.length ≤ before.length := by
      by_contra hlt
      refine hbefore (List.prefix_of_prefix_length_le hinitial hhead.1 ?_)
      rw [List.length_append, List.length_singleton]
      omega
    have hhigh : tail.length ≤ after.length := by
      by_contra hlt
      refine hafter (List.suffix_of_suffix_length_le hfinal htail.1 ?_)
      rw [List.length_cons]
      omega
    obtain ⟨x, rfl⟩ : head <+: before :=
      List.prefix_of_prefix_length_le hhead.1 ⟨a :: after, hsplit.symm⟩ hlow
    obtain ⟨y, rfl⟩ : tail <:+ after :=
      List.suffix_of_suffix_length_le htail.1 ⟨head ++ x ++ [a], by rw [hsplit]; simp⟩ hhigh
    have hmiddle : gap = x ++ a :: y := by
      have hboth : head ++ (gap ++ tail) = head ++ ((x ++ a :: y) ++ tail) := by
        rw [← List.append_assoc, ← hl, hsplit]
        simp
      exact List.append_cancel_right (List.append_cancel_left hboth)
    rw [hmiddle]
    simp
  · intro hall a ha
    obtain ⟨x, y, rfl⟩ := List.append_of_mem ha
    refine hall (head ++ x) a (y ++ tail) (by rw [hl]; simp) (fun hfits => ?_) fun hfits => ?_
    · have hinitial : head ++ x ++ [a] <+: l := ⟨y ++ tail, by rw [hl]; simp⟩
      have hlength := ((hhead.2 _ hinitial).mp hfits).length_le
      simp only [List.length_append, List.length_singleton] at hlength
      omega
    · have hfinal : a :: (y ++ tail) <:+ l := ⟨head ++ x, by rw [hl]; simp⟩
      have hlength := ((htail.2 _ hfinal).mp hfits).length_le
      simp only [List.length_cons, List.length_append] at hlength
      omega

theorem LongestTail.of_reverse (h : LongestHead (fun p => fits p.reverse) l.reverse tail.reverse) :
    LongestTail fits l tail := by
  refine ⟨List.reverse_prefix.mp h.1, fun p hp => ?_⟩
  have hreversed : fits p.reverse.reverse ↔ _ := h.2 p.reverse (List.reverse_prefix.mpr hp)
  rwa [List.reverse_reverse, List.reverse_prefix] at hreversed

end Longest

/-! ## Characters -/

section Characters

variable {content t : Text} {n budget : Nat}

theorem takeBytes_initial : takeBytes n t <+: t := by
  induction t generalizing n with
  | nil => exact List.nil_prefix
  | cons c t ih =>
    rw [takeBytes]
    split
    · exact List.cons_prefix_cons.mpr ⟨rfl, ih⟩
    · exact List.nil_prefix

theorem dropBytes_final : dropBytes n t <:+ t := by
  induction t generalizing n with
  | nil =>
    rw [dropBytes_nil]
  | cons c t ih =>
    cases n with
    | zero => exact List.suffix_rfl
    | succ n => exact ih.trans (List.suffix_cons c t)

theorem longestHead_takeBytes : LongestHead (byteLen · ≤ budget) content (takeBytes budget content) := by
  refine ⟨takeBytes_initial, fun p hp => ⟨fun hfits => ?_, fun hhead => ?_⟩⟩
  · obtain ⟨rest, rfl⟩ := hp
    rw [takeBytes_append hfits]
    exact List.prefix_append _ _
  · have hle := byteLen_le_of_infix hhead.isInfix
    exact hle.trans byteLen_takeBytes_le

theorem longestTail_dropBytes (h : budget ≤ content.byteLen) :
    LongestTail (byteLen · ≤ budget) content (dropBytes (content.byteLen - budget) content) := by
  refine ⟨dropBytes_final, fun p hp => ⟨fun hfits => ?_, fun htail => ?_⟩⟩
  · obtain ⟨rest, rfl⟩ := hp
    rw [byteLen_append] at h ⊢
    rw [dropBytes_append (by omega)]
    exact List.suffix_append _ _
  · have hle := byteLen_le_of_infix htail.isInfix
    have hdrop := @byteLen_dropBytes_le content (content.byteLen - budget)
    omega

/-- A beginning and an end that do not meet. -/
theorem exists_gap {head tail : Text} (hhead : head <+: content) (htail : tail <:+ content)
    (h : head.byteLen + tail.byteLen ≤ content.byteLen) : ∃ gap, content = head ++ gap ++ tail := by
  obtain ⟨rest, rfl⟩ := hhead
  obtain ⟨pre, hpre⟩ := htail
  rcases List.append_eq_append_iff.mp hpre with ⟨overlap, rfl, rfl⟩ | ⟨gap, rfl, rfl⟩
  · simp only [byteLen_append] at h
    obtain rfl : overlap = [] := eq_nil_of_byteLen (by omega)
    exact ⟨[], by simp⟩
  · exact ⟨gap, (List.append_assoc _ _ _).symm⟩

theorem byteLen_eq_length : t.byteLen = t.length ↔ Ascii t := by
  induction t with
  | nil => exact iff_of_true rfl (List.forall_mem_nil _)
  | cons c t ih =>
    have hpos := c.utf8Size_pos
    have hle := length_le_byteLen t
    rw [Ascii, List.forall_mem_cons, byteLen_cons, List.length_cons]
    rw [Ascii] at ih
    rw [← ih]
    omega

end Characters

/-! ## Leaving out the middle -/

section Middle

variable {content : Text} {ratio n : Nat} {e : Elision}

theorem byteLen_toDigits : byteLen (Nat.toDigits 10 n) = (Nat.toDigits 10 n).length := by
  refine byteLen_eq_length.mpr fun c hc => ?_
  have hdigit := Text.isDigit_iff.mp (isDigit_toDigits hc)
  exact Char.utf8Size_eq_one_iff.mpr (UInt32.le_iff_toNat_le.mpr (by
    show c.toNat ≤ 127
    omega))

theorem length_toDigits_le : (Nat.toDigits 10 n).length ≤ n / 10 + 1 := by
  have hten : ∀ k, k * 10 + 10 ≤ 10 ^ (k + 1) := by
    intro k
    induction k with
    | zero => decide
    | succ k ih =>
      rw [Nat.pow_succ]
      omega
  have hbound := hten (n / 10)
  rw [Nat.length_toDigits_le_iff (by decide) (Nat.succ_pos _)]
  omega

/-- The marker of a middle of `n` bytes. -/
theorem byteLen_middle : (Marker.middle n).text.byteLen = 17 + (Nat.toDigits 10 n).length + 34 := by
  have hsum {a b : Nat} (hbefore : byteLen "\n[...compressed: ".toList = a)
      (hafter : byteLen " chars elided from the middle...]\n".toList = b) :
      (Marker.middle n).text.byteLen = a + (Nat.toDigits 10 n).length + b := by
    unfold Marker.text
    simp only [byteLen_append, byteLen_toDigits, hbefore, hafter]
  exact hsum (by decide) (by decide)

theorem two_mul_half_le : 2 * half content ratio ≤ content.byteLen := by
  have hdiv := Nat.div_le_self content.byteLen (max ratio 1)
  unfold half
  omega

/-- What `fallback_compress` makes of a content, with the gap it leaves. -/
theorem fallbackElision_spec (h : fallbackElision content ratio = some e) : 100 ≤ half content ratio ∧
    LongestHead (byteLen · ≤ half content ratio) content e.head ∧
    LongestTail (byteLen · ≤ half content ratio) content e.tail ∧
    ∃ gap, content = e.head ++ gap ++ e.tail ∧ e.marker = .middle gap.byteLen := by
  have htwo := @two_mul_half_le content ratio
  unfold fallbackElision at h
  simp only at h
  split at h
  · cases h
  · rename_i hhalf
    cases h
    have hhead : LongestHead (byteLen · ≤ half content ratio) content
        (takeBytes (half content ratio) content) := longestHead_takeBytes
    have htail : LongestTail (byteLen · ≤ half content ratio) content
        (dropBytes (content.byteLen - half content ratio) content) := longestTail_dropBytes (by omega)
    have hfits := (hhead.2 _ hhead.1).mpr List.prefix_rfl
    have hfits' := (htail.2 _ htail.1).mpr List.suffix_rfl
    obtain ⟨gap, hgap⟩ := exists_gap hhead.1 htail.1 (by omega)
    refine ⟨Nat.le_of_not_lt hhalf, hhead, htail, gap, hgap, ?_⟩
    have hlength := congrArg byteLen hgap
    rw [byteLen_append, byteLen_append] at hlength
    exact congrArg Marker.middle (by omega)

/-- Without a shrink check, the marker pays off exactly from ratio 2 on. -/
theorem fallback_shorter_iff (h : fallbackElision content ratio = some e) :
    e.text.byteLen < content.byteLen ↔ 2 ≤ ratio := by
  obtain ⟨hhalf, hhead, htail, gap, hgap, hmarker⟩ := fallbackElision_spec h
  have htwo := @two_mul_half_le content ratio
  have hfits := (hhead.2 _ hhead.1).mpr List.prefix_rfl
  have hfits' := (htail.2 _ htail.1).mpr List.suffix_rfl
  have hlength := congrArg byteLen hgap
  have htext : e.text.byteLen = e.head.byteLen + (17 + (Nat.toDigits 10 gap.byteLen).length + 34) +
      e.tail.byteLen := by
    unfold Elision.text
    rw [byteLen_append, byteLen_append, hmarker, byteLen_middle]
  rw [byteLen_append, byteLen_append] at hlength
  have hdigits := @length_toDigits_le gap.byteLen
  rw [htext]
  constructor
  · intro hshorter
    by_contra hratio
    have hone : half content ratio = content.byteLen / 2 := by
      have hmax : max ratio 1 = 1 := by omega
      rw [half, hmax, Nat.div_one]
    -- the two halves take all but the characters that the middle cuts
    have hne : gap ≠ [] := by
      rintro rfl
      rw [byteLen_nil] at hlength
      omega
    have hfirst : half content ratio < e.head.byteLen + 4 := by
      obtain ⟨c, rest, rfl⟩ := List.exists_cons_of_ne_nil hne
      have hinitial : e.head ++ [c] <+: content := ⟨rest ++ e.tail, by rw [hgap]; simp⟩
      by_contra hroom
      have hsize := c.utf8Size_le_four
      have hmore := (hhead.2 _ hinitial).mp (by simp only [byteLen_append, byteLen_cons, byteLen_nil]; omega)
      have hlonger := hmore.length_le
      rw [List.length_append, List.length_singleton] at hlonger
      omega
    have hlast : half content ratio < e.tail.byteLen + 4 := by
      obtain ⟨rest, c, rfl⟩ := List.eq_nil_or_concat gap |>.resolve_left hne
      have hfinal : c :: e.tail <:+ content := ⟨e.head ++ rest, by rw [hgap]; simp⟩
      by_contra hroom
      have hsize := c.utf8Size_le_four
      have hmore := (htail.2 _ hfinal).mp (by simp only [byteLen_cons]; omega)
      have hlonger := hmore.length_le
      rw [List.length_cons] at hlonger
      omega
    omega
  · intro hratio
    have hquarter : half content ratio ≤ content.byteLen / 2 / 2 := by
      have hdiv : content.byteLen / max ratio 1 ≤ content.byteLen / 2 :=
        Nat.div_le_div_left (by omega) (by decide)
      exact Nat.div_le_div_right hdiv
    omega

theorem fallback_honest_iff (h : fallbackElision content ratio = some e) :
    Honest content e ↔ 2 ≤ ratio ∧ MiddleAscii content (half content ratio) := by
  obtain ⟨-, hhead, htail, gap, hgap, hmarker⟩ := fallbackElision_spec h
  have hascii : (∃ gap, content = e.head ++ gap ++ e.tail ∧ e.marker.Counts content e.head gap e.tail) ↔
      MiddleAscii content (half content ratio) := by
    have hmiddle : Ascii gap ↔ MiddleAscii content (half content ratio) := by
      rw [Ascii, forall_gap_iff hgap hhead htail]
      simp only [Nat.not_le]
      exact Iff.rfl
    rw [← hmiddle, ← byteLen_eq_length, hmarker]
    constructor
    · rintro ⟨gap', hgap', hcount⟩
      have hsame : gap' = gap :=
        List.append_cancel_left (List.append_cancel_right (hgap'.symm.trans hgap))
      rw [hsame] at hcount
      exact hcount
    · exact fun hcount => ⟨gap, hgap, hcount⟩
  rw [← fallback_shorter_iff h, ← hascii]
  exact ⟨fun hhonest => ⟨hhonest.shorter, hhonest.counted⟩, fun hboth => ⟨hboth.1, hboth.2⟩⟩

end Middle

/-! ## Leaving out lines -/

section Lines

variable {content t : Text} {ratio budget used : Nat} {lines : List Text} {e : Elision}

theorem flatten_splitInclusive (t : Text) : (splitInclusive t).flatten = t := by
  induction t with
  | nil => rfl
  | cons c t ih =>
    rw [splitInclusive]
    split
    · rw [List.flatten_cons, ih]
      rfl
    · split
      · rename_i hnil
        rw [hnil] at ih
        rw [← ih]
        rfl
      · rename_i line lines hlines
        rw [hlines, List.flatten_cons] at ih
        rw [List.flatten_cons, List.cons_append, ih]

/-- The lines that fit, as long as one more does not. -/
theorem fitting_spec (hused : used ≤ budget) {p : List Text} (hp : p <+: lines) :
    used + byteLen p.flatten ≤ budget ↔ p <+: lines.take (fitting budget used lines) := by
  induction lines generalizing used p with
  | nil =>
    obtain rfl := List.prefix_nil.mp hp
    exact iff_of_true hused (List.prefix_rfl)
  | cons line lines ih =>
    cases p with
    | nil => exact iff_of_true hused List.nil_prefix
    | cons first p =>
      obtain ⟨rfl, hrest⟩ := List.cons_prefix_cons.mp hp
      rw [List.flatten_cons, byteLen_append, fitting]
      split
      · rename_i hfits
        rw [List.take_succ_cons, List.cons_prefix_cons, ← ih hfits hrest, Nat.add_assoc]
        simp
      · rename_i hfull
        refine iff_of_false (by omega) ?_
        simp

theorem longestHead_fitting : LongestHead (fun p : List Text => byteLen p.flatten ≤ budget) lines
    (lines.take (fitting budget 0 lines)) := by
  refine ⟨List.take_prefix _ _, fun p hp => ?_⟩
  rw [← fitting_spec (Nat.zero_le _) hp, Nat.zero_add]

/-- One line is taken in any case. -/
def FitsLines (budget : Nat) (lines : List Text) : Prop :=
  lines.length ≤ 1 ∨ byteLen lines.flatten ≤ budget

theorem headLines_eq : headLines budget lines =
    if fitting budget 0 lines = 0 then 1 else fitting budget 0 lines := rfl

theorem longestHead_lines : LongestHead (FitsLines budget) lines
    (lines.take (headLines budget lines)) := by
  have hlongest : LongestHead (fun p : List Text => byteLen p.flatten ≤ budget) lines _ := longestHead_fitting
  refine ⟨List.take_prefix _ _, fun p hp => ?_⟩
  have hfits : byteLen p.flatten ≤ budget ↔ _ := hlongest.2 p hp
  have htake : ∀ k, p <+: lines.take k ↔ p.length ≤ min k lines.length := by
    intro k
    rw [← List.length_take]
    exact ⟨fun h => h.length_le, List.prefix_of_prefix_length_le hp (List.take_prefix _ _)⟩
  have hlength := hp.length_le
  rw [htake] at hfits ⊢
  rw [FitsLines, hfits, headLines_eq]
  split
  · omega
  · omega

theorem byteLen_flatten_reverse : byteLen lines.reverse.flatten = byteLen lines.flatten := by
  induction lines with
  | nil => rfl
  | cons line lines ih =>
    rw [List.reverse_cons, List.flatten_append, List.flatten_singleton, byteLen_append, ih,
      List.flatten_cons, byteLen_append, Nat.add_comm]

theorem longestTail_lines (h : headLines budget lines.reverse ≤ lines.length) :
    LongestTail (FitsLines budget) lines (lines.drop (lines.length - headLines budget lines.reverse)) := by
  have hreversed : (fun p : List Text => FitsLines budget p.reverse) = FitsLines budget := by
    funext p
    rw [FitsLines, FitsLines, List.length_reverse, byteLen_flatten_reverse]
  refine LongestTail.of_reverse ?_
  rw [hreversed, List.reverse_drop, Nat.sub_sub_self h]
  exact longestHead_lines

theorem fitting_take (n : Nat) : fitting budget used (lines.take n) = min n (fitting budget used lines) := by
  induction lines generalizing used n with
  | nil => simp [fitting]
  | cons line lines ih =>
    cases n with
    | zero => simp [fitting]
    | succ n =>
      rw [List.take_succ_cons, fitting, fitting, ih]
      split
      · omega
      · omega

/-- Where something is left out, the tail is counted like a head from the other end. -/
theorem tailLines_eq (h : headLines budget lines + tailLines budget lines < lines.length) :
    tailLines budget lines = headLines budget lines.reverse := by
  unfold tailLines at h ⊢
  simp only [List.reverse_drop, fitting_take] at h ⊢
  have hhead : fitting budget 0 lines ≤ headLines budget lines := by
    rw [headLines_eq]
    split
    · omega
    · exact Nat.le_refl _
  rw [@headLines_eq budget lines.reverse]
  split at h
  · rename_i hzero
    rw [if_pos hzero]
    split
    · rfl
    · omega
  · rename_i hsome
    rw [if_neg hsome]
    split
    · omega
    · omega

/-- What `elide_by_lines` makes of at least four lines. -/
theorem lineElision_spec (hlines : ¬ (splitInclusive content).length < 4)
    (h : lineElision content ratio = some e) : e.text.byteLen < content.byteLen ∧
      ∃ before between after, splitInclusive content = before ++ between ++ after ∧
        LongestHead (FitsLines (half content ratio)) (splitInclusive content) before ∧
        LongestTail (FitsLines (half content ratio)) (splitInclusive content) after ∧
        e.head = before.flatten ∧ e.tail = after.flatten ∧
        e.marker = .gap between.length (gapRange (splitInclusive content) before.length
          (before.length + between.length - 1)) (byteLen between.flatten) := by
  unfold lineElision at h
  simp only [hlines, if_false] at h
  split at h
  · cases h
  · split at h
    · cases h
    · rename_i hroom
      split at h
      · cases h
      · rename_i hshorter
        cases h
        refine ⟨Nat.lt_of_not_le hshorter, ?_⟩
        obtain ⟨lines, hcontent⟩ : ∃ lines, lines = splitInclusive content := ⟨_, rfl⟩
        rw [← hcontent] at hroom ⊢
        obtain ⟨head, hhead⟩ : ∃ head, head = headLines (half content ratio) lines := ⟨_, rfl⟩
        obtain ⟨tail, htail⟩ : ∃ tail, tail = tailLines (half content ratio) lines := ⟨_, rfl⟩
        have hreversed := @tailLines_eq (half content ratio) lines (by omega)
        rw [← hhead, ← htail] at hroom ⊢
        have hparts : lines = lines.take head ++ (lines.drop head).take (lines.length - head - tail) ++
            lines.drop (lines.length - tail) := by
          have hrest : lines.drop (lines.length - tail) =
              (lines.drop head).drop (lines.length - head - tail) := by
            rw [List.drop_drop]
            congr 1
            omega
          rw [hrest, List.append_assoc, List.take_append_drop, List.take_append_drop]
        have hbefore : (lines.take head).length = head := by
          rw [List.length_take]
          omega
        have hbetween : ((lines.drop head).take (lines.length - head - tail)).length =
            lines.length - head - tail := by
          rw [List.length_take, List.length_drop]
          omega
        refine ⟨_, _, _, hparts, ?_, ?_, rfl, rfl, ?_⟩
        · rw [hhead]
          exact longestHead_lines
        · rw [htail, hreversed]
          exact longestTail_lines (by omega)
        · have hlength := congrArg (fun lines : List Text => byteLen lines.flatten) hparts
          simp only [List.flatten_append, byteLen_append] at hlength
          rw [hcontent, flatten_splitInclusive, ← hcontent] at hlength
          rw [hbefore, hbetween]
          refine congrArg (Marker.gap _ _) ?_
          omega

theorem ascii_flatten : Ascii lines.flatten ↔ ∀ line ∈ lines, Ascii line := by
  constructor
  · exact fun h line hline c hc => h c (List.mem_flatten.mpr ⟨line, hline, hc⟩)
  · intro h c hc
    obtain ⟨line, hline, hc⟩ := List.mem_flatten.mp hc
    exact h line hline c hc

theorem line_honest_iff (hlines : ¬ (splitInclusive content).length < 4)
    (h : lineElision content ratio = some e) :
    Honest content e ↔ MiddleLinesAscii content (half content ratio) := by
  obtain ⟨hshorter, before, between, after, hparts, hbefore, hafter, hhead, htail, hmarker⟩ :=
    lineElision_spec hlines h
  have hgap : content = e.head ++ between.flatten ++ e.tail := by
    rw [hhead, htail, ← List.flatten_append, ← List.flatten_append, ← hparts, flatten_splitInclusive]
  have hfits (l : List Text) (line : Text) : ¬ FitsLines (half content ratio) (l ++ [line]) ↔
      l ≠ [] ∧ half content ratio < byteLen (l ++ [line]).flatten := by
    rw [FitsLines, not_or, Nat.not_le, Nat.not_le, List.length_append, List.length_singleton,
      ← List.length_pos_iff]
    omega
  have hfits' (line : Text) (l : List Text) : ¬ FitsLines (half content ratio) (line :: l) ↔
      l ≠ [] ∧ half content ratio < byteLen (line :: l).flatten := by
    rw [FitsLines, not_or, Nat.not_le, Nat.not_le, List.length_cons, ← List.length_pos_iff]
    omega
  have hascii : Ascii between.flatten ↔ MiddleLinesAscii content (half content ratio) := by
    rw [ascii_flatten, forall_gap_iff hparts hbefore hafter]
    simp only [hfits, hfits', and_imp]
    refine forall_congr' fun l => forall_congr' fun line => forall_congr' fun l' => ?_
    exact forall_congr' fun _ => ⟨fun hall hl hl' hb ha => hall hl hb hl' ha,
      fun hall hl hb hl' ha => hall hl hl' hb ha⟩
  rw [← hascii, ← byteLen_eq_length]
  constructor
  · intro hhonest
    obtain ⟨gap, hgap', hcounts⟩ := hhonest.counted
    have hsame : gap = between.flatten :=
      List.append_cancel_left (List.append_cancel_right (hgap'.symm.trans hgap))
    rw [hmarker, hsame] at hcounts
    exact hcounts.1
  · intro hcount
    refine ⟨hshorter, _, hgap, ?_⟩
    rw [hmarker]
    exact ⟨hcount, before, between, after, hparts, hhead.symm, rfl, htail.symm, rfl, rfl⟩

end Lines

/-! ## Both -/

/-- **Main result.** Where a reduction returns something, it is honest exactly if what it leaves out is
ASCII and, where the length of the result is not looked at, the ratio is at least 2. -/
theorem elision_honest_iff (content out : Text) (ratio : Nat) :
    (fallbackCompress content ratio = some out → ∃ e, fallbackElision content ratio = some e ∧ out = e.text ∧
      (Honest content e ↔ 2 ≤ ratio ∧ MiddleAscii content (half content ratio))) ∧
    (elideByLines content ratio = some out → ∃ e, lineElision content ratio = some e ∧ out = e.text ∧
      (Honest content e ↔ if (splitInclusive content).length < 4 then
        2 ≤ ratio ∧ MiddleAscii content (half content ratio)
      else MiddleLinesAscii content (half content ratio))) := by
  constructor
  · intro h
    obtain ⟨e, he, rfl⟩ := Option.map_eq_some_iff.mp h
    exact ⟨e, he, rfl, fallback_honest_iff he⟩
  · intro h
    obtain ⟨e, he, rfl⟩ := Option.map_eq_some_iff.mp h
    refine ⟨e, he, rfl, ?_⟩
    split
    · rename_i hfew
      unfold lineElision at he
      simp only [hfew, if_true] at he
      exact fallback_honest_iff he
    · rename_i hlines
      exact line_honest_iff hlines he

theorem exists_fallbackElision {content : Text} {ratio : Nat} (h : 100 ≤ half content ratio) :
    ∃ e, fallbackElision content ratio = some e :=
  ⟨_, if_neg (Nat.not_lt.mpr h)⟩

theorem byteLen_replicate (n : Nat) (c : Char) : byteLen (List.replicate n c) = n * c.utf8Size := by
  induction n with
  | zero => exact (Nat.zero_mul _).symm
  | succ n ih => rw [List.replicate_succ, byteLen_cons, ih, Nat.succ_mul, Nat.add_comm]

/-- Eight lines of a hundred characters. -/
def longListing : Text := (List.replicate 8 (List.replicate 99 'a' ++ ['\n'])).flatten

theorem elision_honest_listing :
    (∃ e, fallbackCompress (List.replicate 400 'a') 2 = some e.text ∧ Honest (List.replicate 400 'a') e) ∧
      ∃ e, elideByLines longListing 2 = some e.text ∧ Honest longListing e := by
  constructor
  · have hhalf : half (List.replicate 400 'a') 2 = 100 := by
      rw [half, byteLen_replicate]
      decide
    obtain ⟨e, he⟩ := exists_fallbackElision (Nat.le_of_eq hhalf.symm)
    have hout : fallbackCompress (List.replicate 400 'a') 2 = some e.text := by
      rw [fallbackCompress, he]
      rfl
    obtain ⟨e', -, htext, hhonest⟩ := (elision_honest_iff _ _ 2).1 hout
    refine ⟨e', htext ▸ hout, hhonest.mpr ⟨Nat.le_refl 2, ?_⟩⟩
    intro before c after hsplit _ _
    have hc : c ∈ List.replicate 400 'a' := by
      rw [hsplit]
      simp
    rw [List.eq_of_mem_replicate hc]
    decide
  · have hsome : (elideByLines longListing 2).isSome = true := by decide +kernel
    obtain ⟨out, hout⟩ := Option.isSome_iff_exists.mp hsome
    have hmany : ¬ (splitInclusive longListing).length < 4 := by decide +kernel
    obtain ⟨e, -, htext, hhonest⟩ := (elision_honest_iff _ _ 2).2 hout
    rw [if_neg hmany] at hhonest
    refine ⟨e, htext ▸ hout, hhonest.mpr ?_⟩
    have hascii : Ascii longListing := by
      rw [longListing, ascii_flatten]
      intro line hline c hc
      rw [List.eq_of_mem_replicate hline] at hc
      rcases List.mem_append.mp hc with hc | hc
      · rw [List.eq_of_mem_replicate hc]
        decide
      · rw [List.mem_singleton.mp hc]
        decide
    intro before line after hsplit _ _ _ _ c hc
    refine hascii c ?_
    rw [← flatten_splitInclusive longListing, hsplit]
    simp [hc]

/-- With ratio 1 nothing is left out and the marker is added; and a middle of 300 characters in 600 bytes
is announced as 600 characters. -/
theorem reductions_not_honest :
    (∃ e, fallbackElision (List.replicate 200 'a') 1 = some e ∧ ¬ Honest (List.replicate 200 'a') e) ∧
      ∃ e, fallbackElision (List.replicate 400 'é') 4 = some e ∧ ¬ Honest (List.replicate 400 'é') e := by
  constructor
  · have hhalf : half (List.replicate 200 'a') 1 = 100 := by
      rw [half, byteLen_replicate]
      decide
    obtain ⟨e, he⟩ := exists_fallbackElision (Nat.le_of_eq hhalf.symm)
    refine ⟨e, he, fun hhonest => ?_⟩
    exact absurd ((fallback_honest_iff he).mp hhonest).1 (by decide)
  · have hhalf : half (List.replicate 400 'é') 4 = 100 := by
      rw [half, byteLen_replicate]
      decide
    obtain ⟨e, he⟩ := exists_fallbackElision (Nat.le_of_eq hhalf.symm)
    refine ⟨e, he, fun hhonest => ?_⟩
    have hmiddle := ((fallback_honest_iff he).mp hhonest).2
    rw [hhalf] at hmiddle
    have hsplit : List.replicate 400 'é' = List.replicate 199 'é' ++ 'é' :: List.replicate 200 'é' := by
      rw [← List.replicate_succ, List.replicate_append_replicate]
    have hbefore : 100 < byteLen (List.replicate 199 'é' ++ ['é']) := by
      rw [byteLen_append, byteLen_replicate]
      decide
    have hafter : 100 < byteLen ('é' :: List.replicate 200 'é') := by
      rw [byteLen_cons, byteLen_replicate]
      decide
    exact absurd (hmiddle _ _ _ hsplit hbefore hafter) (by decide)

end Nanna.Agent
