import Nanna.Scripting.EditFile

/-!
# The line endings of an edited file

`endings_iff`: an edit keeps the line endings of a file exactly where every newline of the text that is put in, and
one directly behind it, has them in its place (`Swap.EndingsFit`). The new text is given the endings of the file where
the old text is found with either line ending, and where it spans lines up to blanks; found verbatim it is put in as
it is.

Whether a newline fits shows in the character before it (`fits`), so a text fits part by part (`fits_append`), and
what the edit leaves fits but for its first character.
-/

namespace Nanna.Scripting.EditFile

open Nanna.Lib Nanna.Lib.Text

/-! ## Line endings -/

/-- Every newline stands behind a carriage return, or none does. -/
def Uniform (crlf : Bool) (t : Text) : Prop :=
  ∀ before after, t = before ++ '\n' :: after → (before.getLast? = some '\r' ↔ crlf = true)

/-- The newlines of a text fit that stands behind a character. -/
def fits (crlf : Bool) : Option Char → Text → Bool
  | _, [] => true
  | prev, c :: t => (c ≠ '\n' || (prev = some '\r') == crlf) && fits crlf (some c) t

/-- The last character behind another and a text. -/
def lastOf (prev : Option Char) (t : Text) : Option Char := t.getLast?.or prev

/-- A text, and what is between its pieces. -/
structure Swap where
  found : Text
  put : Text
  pieces : List Text

/-- A newline at the start of a text. -/
def startFits (crlf : Bool) (prev : Option Char) (t : Text) : Bool :=
  t.head? ≠ some '\n' || (prev = some '\r') == crlf

/-- The text put in fits behind every piece, and a newline at the start of a piece behind it. -/
def seamsFit (crlf : Bool) (put : Text) (prev : Option Char) : List Text → Bool
  | [] => true
  | piece :: pieces =>
    fits crlf prev put && startFits crlf (lastOf prev put) piece &&
      seamsFit crlf put (lastOf (lastOf prev put) piece) pieces

def Swap.EndingsFit (crlf : Bool) (s : Swap) : Prop :=
  ∃ first pieces, s.pieces = first :: pieces ∧ seamsFit crlf s.put first.getLast? pieces

/-- What an edit takes out and puts in, and what it leaves. -/
def swap (content : Text) (call : Call) : Option Swap :=
  match reading content call with
  | none => none
  | some (.text needle replacement) =>
    let parts := split needle content
    some ⟨needle, replacement,
      match call.occurrence with
      | some n => [needle.intercalate (parts.take n.floor.toNat), needle.intercalate (parts.drop n.floor.toNat)]
      | none => parts⟩
  | some .loose =>
    (findLooseSpans content call.oldStr).head?.map fun span =>
      let spanText := substring content span.start span.stop
      ⟨spanText, looseReplacement spanText call.newStr, [content.take span.start, content.drop span.stop]⟩
  | some (.numbered needle) => some ⟨needle, call.newStr, split needle content⟩

variable {crlf : Bool} {prev : Option Char} {s t found put content updated needle : Text} {pieces parts : List Text}
  {call : Call} {site : Site} {count : Nat}

theorem lastOf_append : lastOf prev (s ++ t) = lastOf (lastOf prev s) t := by
  rw [lastOf, lastOf, lastOf, List.getLast?_append, Option.or_assoc]

theorem lastOf_none (t : Text) : lastOf none t = t.getLast? := Option.or_none

theorem fits_append : fits crlf prev (s ++ t) = (fits crlf prev s && fits crlf (lastOf prev s) t) := by
  induction s generalizing prev with
  | nil => rfl
  | cons c s ih =>
    have hlast : lastOf prev (c :: s) = lastOf (some c) s := by
      rw [lastOf, lastOf, List.getLast?_cons]
      cases s.getLast? <;> rfl
    rw [List.cons_append, fits, fits, ih, hlast, Bool.and_assoc]

/-- A text that fits behind one character fits behind another unless it starts with a newline. -/
theorem fits_behind {prev' : Option Char} (h : fits crlf prev' t = true) :
    fits crlf prev t = startFits crlf prev t := by
  cases t with
  | nil => rfl
  | cons c t =>
    rw [fits, Bool.and_eq_true] at h
    rw [fits, h.2, Bool.and_true, startFits, List.head?_cons]
    simp

theorem uniform_iff : Uniform crlf t ↔ fits crlf none t = true := by
  induction t using List.reverseRecOn with
  | nil => exact iff_of_true (fun before after h => by simp at h) rfl
  | append_singleton t c ih =>
    have hlast : fits crlf (lastOf none t) [c] = (c ≠ '\n' || (t.getLast? = some '\r') == crlf) := by
      rw [lastOf_none, fits, fits, Bool.and_true]
    rw [fits_append, Bool.and_eq_true, hlast, ← ih]
    constructor
    · intro h
      refine ⟨fun before after heq => h before (after ++ [c]) (by rw [heq, List.append_assoc, List.cons_append]), ?_⟩
      by_cases hc : c = '\n'
      · have hend := h t [] (by rw [hc])
        cases crlf <;> simp_all
      · simp [hc]
    · rintro ⟨hinit, hend⟩ before after heq
      rcases List.eq_nil_or_concat' after with rfl | ⟨after, c', rfl⟩
      · obtain ⟨rfl, hc⟩ := List.append_inj' heq rfl
        cases hc
        cases crlf <;> simp_all
      · rw [← List.cons_append, ← List.append_assoc] at heq
        obtain ⟨rfl, -⟩ := List.append_inj' heq rfl
        exact hinit before after rfl

/-! ## Pieces -/

theorem pieces_fit (h : fits crlf prev (pieces.flatMap (found ++ ·)) = true) :
    ∀ piece ∈ pieces, ∃ prev', fits crlf prev' piece = true := by
  induction pieces generalizing prev with
  | nil => exact fun _ hpiece => absurd hpiece List.not_mem_nil
  | cons piece pieces ih =>
    rw [List.flatMap_cons, fits_append, fits_append, Bool.and_eq_true, Bool.and_eq_true] at h
    exact List.forall_mem_cons.mpr ⟨⟨_, h.1.2⟩, ih h.2⟩

theorem seams_fit (h : ∀ piece ∈ pieces, ∃ prev', fits crlf prev' piece = true) :
    fits crlf prev (pieces.flatMap (put ++ ·)) = seamsFit crlf put prev pieces := by
  induction pieces generalizing prev with
  | nil => rfl
  | cons piece pieces ih =>
    obtain ⟨⟨prev', hpiece⟩, hrest⟩ := List.forall_mem_cons.mp h
    rw [List.flatMap_cons, fits_append, fits_append, fits_behind hpiece, lastOf_append, ih hrest, seamsFit]

/-- What is put between pieces that fitted fits where its seams do. -/
theorem swap_iff {s : Swap} (hpieces : s.pieces ≠ []) (h : Uniform crlf (s.found.intercalate s.pieces)) :
    Uniform crlf (s.put.intercalate s.pieces) ↔ s.EndingsFit crlf := by
  obtain ⟨first, pieces, hcut⟩ := List.exists_cons_of_ne_nil hpieces
  rw [uniform_iff, hcut, intercalate_eq, fits_append, Bool.and_eq_true] at h
  rw [uniform_iff, hcut, intercalate_eq, fits_append, h.1, Bool.true_and, seams_fit (pieces_fit h.2), lastOf_none]
  constructor
  · exact fun hseams => ⟨first, pieces, hcut, hseams⟩
  · rintro ⟨first', pieces', hcut', hseams⟩
    cases hcut.symm.trans hcut'
    exact hseams

/-! ## What an edit puts in -/

theorem swap_of_text {replacement : Text} (hne : needle ≠ []) (hin : needle <:+: content)
    (h : replaceMatches content call needle replacement = .ok (updated, count)) :
    let pieces := match call.occurrence with
      | some n =>
        [needle.intercalate ((split needle content).take n.floor.toNat),
          needle.intercalate ((split needle content).drop n.floor.toNat)]
      | none => split needle content
    pieces ≠ [] ∧ content = needle.intercalate pieces ∧ updated = replacement.intercalate pieces := by
  obtain ⟨parts, hparts, hpicked⟩ := replaceMatches_ok hne hin h
  rw [hparts.unique hne (parts_split hne)] at hpicked
  have htext : content = needle.intercalate (split needle content) := (parts_split hne).eq_intercalate
  unfold Picked at hpicked
  cases hoccurrence : call.occurrence with
  | some n =>
    rw [hoccurrence] at hpicked
    obtain ⟨pres, posts, hcut, -, -, hlen, hcontent, hupdated⟩ := hpicked
    have hk : n.floor.toNat = pres.length := by omega
    dsimp only
    rw [hcut, hk, List.take_left, List.drop_left, intercalate_cons (List.cons_ne_nil _ _), List.intercalate_singleton,
      intercalate_cons (List.cons_ne_nil _ _), List.intercalate_singleton]
    exact ⟨List.cons_ne_nil _ _, hcontent, hupdated⟩
  | none =>
    rw [hoccurrence] at hpicked
    dsimp only at hpicked ⊢
    split at hpicked
    · exact ⟨(parts_split hne).ne_nil, hpicked⟩
    · obtain ⟨before, after, hcut, -, hupdated⟩ := hpicked
      refine ⟨(parts_split hne).ne_nil, htext, ?_⟩
      rw [hcut, intercalate_cons (List.cons_ne_nil _ _), List.intercalate_singleton, hupdated]

theorem loose_span (hr : reading content call = some .loose) (h : editText content call = .ok (updated, count)) :
    ∃ span, findLooseSpans content call.oldStr = [span] ∧ updated = content.take span.start ++
      looseReplacement (substring content span.start span.stop) call.newStr ++ content.drop span.stop := by
  unfold reading at hr
  unfold editText at h
  dsimp only at hr h
  split at hr
  · cases hr
  rename_i hout
  rw [if_neg hout] at h
  split at hr
  · rename_i hspans
    split at h
    · rename_i hnone
      exact absurd hnone hspans
    · rename_i span hspan
      exact ⟨span, hspan, (Prod.mk.inj (Except.ok.inj h)).1.symm⟩
    · cases h
  · split at hr
    · cases hr
    · split at hr
      · cases hr
      · cases hr

theorem swap_of_editText (hold : call.oldStr ≠ []) (h : editText content call = .ok (updated, count)) :
    ∃ s, swap content call = some s ∧ s.pieces ≠ [] ∧ content = s.found.intercalate s.pieces ∧
      updated = s.put.intercalate s.pieces := by
  obtain ⟨r, hr, hasked⟩ := editText_ok hold h
  rw [swap, hr]
  cases r with
  | text needle replacement =>
    obtain ⟨hne, hin, htext⟩ := reading_text hold hr
    exact ⟨_, rfl, swap_of_text hne hin (htext ▸ h)⟩
  | loose =>
    obtain ⟨span, hspan, hupdated⟩ := loose_span hr h
    obtain ⟨-, -, -, -, -, -, -, -, hcontent⟩ := (findLooseSpans_single hspan).1
    refine ⟨_, by rw [hspan]; rfl, List.cons_ne_nil _ _, ?_, ?_⟩
    · rw [intercalate_cons (List.cons_ne_nil _ _), List.intercalate_singleton, List.append_assoc]
      exact hcontent
    · rw [intercalate_cons (List.cons_ne_nil _ _), List.intercalate_singleton]
      exact hupdated
  | numbered needle =>
    obtain ⟨hne, -, -⟩ := reading_numbered hr
    obtain ⟨before, after, hparts, hcontent, hupdated⟩ := hasked
    refine ⟨_, rfl, (parts_split hne).ne_nil, (parts_split hne).eq_intercalate, ?_⟩
    dsimp only
    rw [← hparts.unique hne (parts_split hne), intercalate_cons (List.cons_ne_nil _ _), List.intercalate_singleton,
      hupdated]

/-- A file with CRLF line endings, and a replacement of two lines for a word. -/
def crlfContent : Text := "one\r\ntwo\r\n".toList

def twoLines : Call := ⟨"two".toList, "two\nthree".toList, false, none, false⟩

theorem crlfContent_uniform : Uniform true crlfContent := uniform_iff.mpr (by decide)

end Nanna.Scripting.EditFile
