import Nanna.Scripting.Floor
import Nanna.Scripting.LooseSpans

/-!
# What an edit replaces

`edit_exact_iff`: whatever the other guards answer, an edit writes the content with the match asked for
replaced and nothing else, and a call that fails writes nothing. Asked for neither a match by its number nor
for all, it edits one of several places only where the text looked for stands at several places that all
overlap (`OverlapOnly`): matches are counted without overlaps, so `aa` counts once in `aaa` and is taken for
unique (`overlap_taken_for_unique`). Lines that differ in blanks only are counted at every line.

The old text is looked for in several readings, and the first that is found decides (`reading`): verbatim,
with either line ending, as lines up to blanks, and without line numbers. `editText_ok` goes through them
once; what is left is which of the outcomes a site allows (`editFile_cases`).

What the tool keeps for itself (its counter of refusals, its ledger of sizes, the copies it has a checker read)
stands in other files and is left out.
-/

namespace Nanna.Scripting.EditFile

open Nanna.Lib Nanna.Lib.Text

/-! ## The tool -/

structure Call where
  oldStr : Text
  newStr : Text
  replaceAll : Bool
  occurrence : Option Rat
  force : Bool

inductive Failure where
  | emptyOld
  | prohibited
  | unreadable
  | identicalAbsent
  | outOfRange (occurrence : Int) (count : Nat)
  | ambiguous (count : Nat)
  | looseAmbiguous (places : Nat)
  | missing
  | invalidPython
  | forked
  | underFloor
  | unwritable
deriving DecidableEq

/-- What a call meets besides the content of the file. -/
structure Site where
  prohibited : Bool
  readable : Bool
  /-- The syntax gate, where the file is Python and the checker answers. -/
  parses : Text → Option Bool
  /-- The path is that of an existing file with an extension added. -/
  forked : Bool
  floorBase : Nat
  writable : Bool

inductive Reply where
  | unchanged
  | edited (replaced : Nat)
  | failed (failure : Failure)
deriving DecidableEq

/-- The answer, and the content of the file after the call. -/
structure Outcome where
  reply : Reply
  content : Text

variable (site : Site) (content : Text) (call : Call)

/-- The text looked for and the one that replaces it: where the old text is not in the file, with the line
endings under which it is. -/
def spelling : Text × Text :=
  if contains content call.oldStr then (call.oldStr, call.newStr)
  else
    let oldLf := toLf call.oldStr
    let oldCrlf := toCrlf oldLf
    if contains content oldCrlf then (oldCrlf, toCrlf (toLf call.newStr))
    else if contains content oldLf then (oldLf, toLf call.newStr)
    else (call.oldStr, call.newStr)

def replaceAt (needle replacement : Text) (position : Int) : Text :=
  content.take position.toNat ++ replacement ++ content.drop (position + needle.length).toNat

/-- The new content and how many matches were replaced, where the needle is in the file. -/
def replaceMatches (needle replacement : Text) : Except Failure (Text × Nat) :=
  let count := countMatches needle content
  match call.occurrence with
  | some n =>
    let occurrence := n.floor
    if 1 ≤ occurrence ∧ occurrence ≤ count then
      .ok (replaceAt content needle replacement (nthMatch needle content (occurrence - 1).toNat), 1)
    else .error (.outOfRange occurrence count)
  | none =>
    if 1 < count ∧ !call.replaceAll then .error (.ambiguous count)
    else if call.replaceAll then .ok (replacement.intercalate (split needle content), count)
    else .ok (replaceAt content needle replacement (indexOf needle content 0), 1)

/-- The replacement with the line endings of the lines it replaces. -/
def looseReplacement (spanText newStr : Text) : Text :=
  if contains spanText ['\r', '\n'] then toCrlf (toLf newStr) else newStr

/-- The old text was a paste of what `read_file` shows. -/
def recover : Except Failure (Text × Nat) :=
  match stripLineNumberBlock call.oldStr with
  | none => .error .missing
  | some unnumbered =>
    if unnumbered ≠ call.oldStr ∧ contains content unnumbered ∧
        (split unnumbered content).length - 1 = 1 then
      .ok (call.newStr.intercalate (split unnumbered content), 1)
    else .error .missing

def editText : Except Failure (Text × Nat) :=
  let (needle, replacement) := spelling content call
  if contains content needle then replaceMatches content call needle replacement
  else
    match findLooseSpans content call.oldStr with
    | [] => recover content call
    | [span] =>
      let spanText := substring content span.start span.stop
      .ok (content.take span.start ++ looseReplacement spanText call.newStr ++ content.drop span.stop, 1)
    | spans => .error (.looseAmbiguous spans.length)

/-- The file holds the text that an edit without effect is for. -/
def present : Bool :=
  let lfSame := toLf call.oldStr
  contains content call.oldStr || contains content lfSame || contains content (toCrlf lfSame) ||
    findLooseSpans content call.oldStr ≠ []

/-- The guards on the result, and the write. -/
def land (updated : Text) (replaced : Nat) : Outcome :=
  let fail failure : Outcome := ⟨.failed failure, content⟩
  if !call.force ∧ site.parses updated = some false then fail .invalidPython
  else if site.forked then fail .forked
  else if Floor.UnderFloor site.floorBase (jsLength updated) (jsLength content) then fail .underFloor
  else if !site.writable then fail .unwritable
  else ⟨.edited replaced, updated⟩

def editFile : Outcome :=
  let fail failure : Outcome := ⟨.failed failure, content⟩
  if call.oldStr = [] then fail .emptyOld
  else if site.prohibited then fail .prohibited
  else if !site.readable then fail .unreadable
  else if call.oldStr = call.newStr then
    if present content call then ⟨.unchanged, content⟩ else fail .identicalAbsent
  else
    match editText content call with
    | .error failure => fail failure
    | .ok (updated, replaced) => land site content call updated replaced

/-! ## What is asked for -/

/-- How the old text is read: as a text, as lines up to blanks, or as a numbered text. -/
inductive Reading where
  | text (needle replacement : Text)
  | loose
  | numbered (needle : Text)
deriving DecidableEq

/-- The reading under which the old text is found in the file. -/
def reading : Option Reading :=
  let (needle, replacement) := spelling content call
  if contains content needle then some (.text needle replacement)
  else if findLooseSpans content call.oldStr ≠ [] then some .loose
  else
    match stripLineNumberBlock call.oldStr with
    | none => none
    | some unnumbered =>
      if unnumbered ≠ call.oldStr ∧ contains content unnumbered then some (.numbered unnumbered) else none

/-- A place where the old text stands: what is before it, the text found, and what is behind. -/
structure Place where
  before : Text
  found : Text
  after : Text

def StandsAt (needle : Text) (place : Place) : Prop :=
  place.found = needle ∧ content = place.before ++ (needle ++ place.after)

def Reading.At : Reading → Place → Prop
  | .text needle _, place => StandsAt content needle place
  | .loose, place => LoosePlace content call.oldStr place.before place.found place.after
  | .numbered needle, place => StandsAt content needle place

/-- The content with the match picked by its number replaced, or all, or the only one. -/
def Picked (needle replacement updated : Text) (parts : List Text) : Prop :=
  match call.occurrence with
  | some n => ∃ pres posts, parts = pres ++ posts ∧ pres ≠ [] ∧ posts ≠ [] ∧ (pres.length : Int) = n.floor ∧
      content = needle.intercalate pres ++ needle ++ needle.intercalate posts ∧
      updated = needle.intercalate pres ++ replacement ++ needle.intercalate posts
  | none =>
    if call.replaceAll then
      content = needle.intercalate parts ∧ updated = replacement.intercalate parts
    else ∃ before after, parts = [before, after] ∧ content = before ++ needle ++ after ∧
      updated = before ++ replacement ++ after

/-- What is to be written. -/
def Reading.Asked (updated : Text) : Reading → Prop
  | .text needle replacement => ∃ parts, Parts needle content parts ∧
      Picked content call needle replacement updated parts
  | .loose => ∃ place, Reading.loose.At content call place ∧
      (∀ place', Reading.loose.At content call place' → place' = place) ∧
      updated = place.before ++ looseReplacement place.found call.newStr ++ place.after
  | .numbered needle => ∃ before after, Parts needle content [before, after] ∧
      content = before ++ needle ++ after ∧ updated = before ++ call.newStr ++ after

/-- What a call owes: an edit writes what is asked for, of a text that stands at one place where none is
picked; the file is left alone where nothing is to be changed, and by every failure. -/
structure Exact : Prop where
  replaced : ∀ n, (editFile site content call).reply = .edited n →
    ∃ r, reading content call = some r ∧ r.Asked content call (editFile site content call).content
  onePlace : ∀ n, (editFile site content call).reply = .edited n → call.replaceAll = false →
    call.occurrence = none → ∃ r, reading content call = some r ∧ ∃! place, r.At content call place
  unchanged : (editFile site content call).reply = .unchanged →
    call.oldStr = call.newStr ∧ (editFile site content call).content = content
  failed : ∀ failure, (editFile site content call).reply = .failed failure →
    (editFile site content call).content = content

/-- The text looked for, where it is one text. -/
def sought : Option Text :=
  match reading content call with
  | some (.text needle _) => some needle
  | some (.numbered needle) => some needle
  | _ => none

/-- A text stands at several places, and they all overlap. -/
def OverlapOnly (needle t : Text) : Prop :=
  (∃ place place', StandsAt t needle place ∧ StandsAt t needle place' ∧ place ≠ place') ∧ ¬ Apart needle t

/-- A call that changes something and picks no match does not look for such a text. -/
def Clear : Prop :=
  call.oldStr ≠ [] → call.oldStr ≠ call.newStr → call.replaceAll = false → call.occurrence = none →
    ∀ needle, sought content call = some needle → ¬ OverlapOnly needle content

variable {site content call} {needle replacement updated before after : Text} {parts : List Text} {count : Nat}

/-! ## The matches replaced -/

theorem spelling_ne_nil (h : call.oldStr ≠ []) : (spelling content call).1 ≠ [] := by
  unfold spelling
  dsimp only
  split
  · exact h
  split
  · exact toCrlf_ne_nil (toLf_ne_nil h)
  split
  · exact toLf_ne_nil h
  · exact h

theorem replaceAt_eq (h : content = before ++ needle ++ after) :
    replaceAt content needle replacement before.length = before ++ replacement ++ after := by
  have hend : ((before.length : Int) + needle.length).toNat = (before ++ needle).length := by
    rw [List.length_append]
    rfl
  rw [replaceAt, hend, h, List.drop_left, List.append_assoc before needle, Int.toNat_natCast, List.take_left]

/-- The text is cut at the match that a number in range picks. -/
theorem picked_by_number (hne : needle ≠ []) (hparts : Parts needle content parts) {k : Nat}
    (hk : k + 2 ≤ parts.length) : ∃ pres posts,
      parts = pres ++ posts ∧ pres ≠ [] ∧ posts ≠ [] ∧ pres.length = k + 1 ∧
      content = needle.intercalate pres ++ needle ++ needle.intercalate posts ∧
      nthMatch needle content k = (needle.intercalate pres).length := by
  have hlast : k < parts.length := by omega
  have hcut : parts = parts.take k ++ parts[k] :: parts.drop (k + 1) := by
    rw [← List.drop_eq_getElem_cons hlast, List.take_append_drop]
  have hinit : (parts.take k).length = k := List.length_take_of_le hlast.le
  have hposts : parts.drop (k + 1) ≠ [] := List.length_pos_iff.mp (by rw [List.length_drop]; omega)
  rw [hcut] at hparts
  have hat := nthMatch_of_parts hne hparts hposts
  have htext := hparts.eq_around hposts
  rw [← intercalate_snoc] at hat htext
  rw [hinit] at hat
  refine ⟨parts.take k ++ [parts[k]], parts.drop (k + 1), ?_,
    List.append_ne_nil_of_right_ne_nil _ (List.cons_ne_nil _ _), hposts, ?_, htext, hat⟩
  · rw [List.append_assoc]
    exact hcut
  · rw [List.length_append, hinit]
    rfl

theorem two_parts (hparts : Parts needle content parts) (hin : needle <:+: content) (hlen : parts.length ≤ 2) :
    ∃ before after, parts = [before, after] ∧ content = before ++ needle ++ after := by
  have hlong := hparts.infix_iff.mp hin
  rcases parts with _ | ⟨before, _ | ⟨after, _ | ⟨next, parts⟩⟩⟩
  · exact absurd hlong (by simp)
  · exact absurd hlong (by simp)
  · have htext := hparts.eq_intercalate
    rw [intercalate_cons (List.cons_ne_nil _ _), List.intercalate_singleton] at htext
    exact ⟨before, after, rfl, htext⟩
  · rw [List.length_cons, List.length_cons, List.length_cons] at hlen
    omega

theorem replaceMatches_ok (hne : needle ≠ []) (hin : needle <:+: content)
    (h : replaceMatches content call needle replacement = .ok (updated, count)) :
    ∃ parts, Parts needle content parts ∧ Picked content call needle replacement updated parts := by
  have hparts : Parts needle content (split needle content) := parts_split hne
  refine ⟨_, hparts, ?_⟩
  have hcount := countMatches_of_parts hne hparts
  unfold replaceMatches at h
  unfold Picked
  rw [hcount] at h
  cases hoccurrence : call.occurrence with
  | some n =>
    rw [hoccurrence] at h
    dsimp only at h ⊢
    split at h
    · rename_i hrange
      obtain ⟨rfl, -⟩ := Prod.mk.inj (Except.ok.inj h)
      obtain ⟨pres, posts, hcut, hpres, hposts, hlen, htext, hat⟩ :=
        picked_by_number (k := (n.floor - 1).toNat) hne hparts (by omega)
      refine ⟨pres, posts, hcut, hpres, hposts, by omega, htext, ?_⟩
      rw [hat, replaceAt_eq htext]
    · cases h
  | none =>
    rw [hoccurrence] at h
    dsimp only at h ⊢
    split at h
    · cases h
    rename_i hunique
    split at h
    · rename_i hall
      obtain ⟨rfl, -⟩ := Prod.mk.inj (Except.ok.inj h)
      rw [if_pos hall]
      exact ⟨hparts.eq_intercalate, rfl⟩
    · rename_i hone
      obtain ⟨rfl, -⟩ := Prod.mk.inj (Except.ok.inj h)
      rw [if_neg hone]
      have hlen : (split needle content).length ≤ 2 := by
        by_contra hmany
        exact hunique ⟨by omega, by simpa using hone⟩
      obtain ⟨before, after, hcut, htext⟩ := two_parts hparts hin hlen
      refine ⟨before, after, hcut, htext, ?_⟩
      rw [hcut] at hparts
      have hfirst := @indexOf_match needle before [] content [after] hne hparts (List.cons_ne_nil _ _)
      exact (congrArg _ hfirst).trans (replaceAt_eq htext)

/-- An edit writes what is asked for. -/
theorem editText_ok (hold : call.oldStr ≠ []) (h : editText content call = .ok (updated, count)) :
    ∃ r, reading content call = some r ∧ r.Asked content call updated := by
  unfold editText at h
  unfold reading
  dsimp only at h ⊢
  split at h
  · rename_i hin
    rw [if_pos hin]
    exact ⟨_, rfl, replaceMatches_ok (spelling_ne_nil hold) (contains_iff.mp hin) h⟩
  rename_i hout
  rw [if_neg hout]
  split at h
  · rename_i hspans
    rw [if_neg (not_not_intro hspans)]
    unfold recover at h
    split at h
    · cases h
    rename_i unnumbered hstrip
    split at h
    · rename_i hfound
      obtain ⟨hother, hin, hcount⟩ := hfound
      obtain ⟨rfl, -⟩ := Prod.mk.inj (Except.ok.inj h)
      rw [if_pos ⟨hother, hin⟩]
      have hparts : Parts unnumbered content (split unnumbered content) := parts_split (stripped_ne_nil hstrip)
      obtain ⟨before, after, hcut, htext⟩ := two_parts hparts (contains_iff.mp hin) (by omega)
      refine ⟨_, rfl, before, after, hcut ▸ hparts, htext, ?_⟩
      rw [hcut, intercalate_cons (List.cons_ne_nil _ _), List.intercalate_singleton]
    · cases h
  · rename_i span hspans
    obtain ⟨rfl, -⟩ := Prod.mk.inj (Except.ok.inj h)
    rw [if_pos (by rw [hspans]; exact List.cons_ne_nil _ _)]
    obtain ⟨hplace, honly⟩ := findLooseSpans_single hspans
    refine ⟨_, rfl, ⟨_, _, _⟩, hplace, ?_, rfl⟩
    rintro ⟨before, found, after⟩ hother
    obtain ⟨rfl, rfl, rfl⟩ := honly before found after hother
    rfl
  · cases h

/-! ## One place -/

/-- Where a text stands once and does not stand at several places that overlap, it stands at one place. -/
theorem unique_place (hin : needle <:+: content) (hapart : ¬ Apart needle content)
    (hclear : ¬ OverlapOnly needle content) : ∃! place, StandsAt content needle place := by
  obtain ⟨before, after, htext⟩ := hin
  refine ⟨⟨before, needle, after⟩, ⟨rfl, by rw [← htext, List.append_assoc]⟩, fun place hplace => ?_⟩
  by_contra hother
  exact hclear ⟨⟨_, _, hplace, ⟨rfl, by rw [← htext, List.append_assoc]⟩, hother⟩, hapart⟩

theorem reading_text (hold : call.oldStr ≠ []) (h : reading content call = some (.text needle replacement)) :
    needle ≠ [] ∧ needle <:+: content ∧
      editText content call = replaceMatches content call needle replacement := by
  have hspelled := @spelling_ne_nil content call hold
  unfold reading at h
  unfold editText
  dsimp only at h ⊢
  split at h
  · rename_i hin
    obtain ⟨rfl, rfl⟩ := Reading.text.inj (Option.some.inj h)
    exact ⟨hspelled, contains_iff.mp hin, if_pos hin⟩
  split at h
  · cases h
  split at h
  · cases h
  split at h
  · cases h
  · cases h

theorem reading_numbered (h : reading content call = some (.numbered needle)) :
    needle ≠ [] ∧ needle <:+: content ∧ ((split needle content).length = 2 →
      editText content call = .ok (call.newStr.intercalate (split needle content), 1)) := by
  unfold reading at h
  unfold editText
  dsimp only at h ⊢
  split at h
  · cases h
  rename_i hout
  split at h
  · cases h
  rename_i hspans
  split at h
  · cases h
  rename_i unnumbered hstrip
  split at h
  · rename_i hfound
    obtain rfl := Reading.numbered.inj (Option.some.inj h)
    refine ⟨stripped_ne_nil hstrip, contains_iff.mp hfound.2, fun htwo => ?_⟩
    rw [if_neg hout, not_not.mp hspans]
    unfold recover
    rw [hstrip]
    exact if_pos ⟨hfound.1, hfound.2, by rw [htwo]⟩
  · cases h

/-- An edit that picks no match is one of a text that stands at one place, or only at places that overlap. -/
theorem onePlace_of_asked {r : Reading} (hold : call.oldStr ≠ []) (hr : reading content call = some r)
    (hasked : r.Asked content call updated) (hall : call.replaceAll = false)
    (hoccurrence : call.occurrence = none)
    (hclear : ∀ needle, sought content call = some needle → ¬ OverlapOnly needle content) :
    ∃! place, r.At content call place := by
  unfold sought at hclear
  rw [hr] at hclear
  cases r with
  | text needle replacement =>
    obtain ⟨hne, hin, -⟩ := reading_text hold hr
    obtain ⟨parts, hparts, hpicked⟩ := hasked
    unfold Picked at hpicked
    rw [hoccurrence, hall] at hpicked
    obtain ⟨before, after, rfl, -, -⟩ := hpicked
    exact unique_place hin (hparts.not_apart hne) (hclear needle rfl)
  | loose =>
    obtain ⟨place, hplace, honly, -⟩ := hasked
    exact ⟨place, hplace, honly⟩
  | numbered needle =>
    obtain ⟨hne, hin, -⟩ := reading_numbered hr
    obtain ⟨before, after, hparts, -, -⟩ := hasked
    exact unique_place hin (hparts.not_apart hne) (hclear needle rfl)

/-- Matches that overlap count as one. -/
theorem two_of_overlap (hne : needle ≠ []) (hin : needle <:+: content) (hapart : ¬ Apart needle content) :
    (split needle content).length = 2 := by
  have hparts : Parts needle content (split needle content) := parts_split hne
  have hlong := hparts.infix_iff.mp hin
  have hshort : ¬ 2 < (split needle content).length := fun hmany => hapart (hparts.apart hmany)
  omega

theorem editText_of_overlap (hold : call.oldStr ≠ []) (hall : call.replaceAll = false)
    (hoccurrence : call.occurrence = none) (hsought : sought content call = some needle)
    (hapart : ¬ Apart needle content) : ∃ updated, editText content call = .ok (updated, 1) := by
  unfold sought at hsought
  split at hsought
  · rename_i needle' replacement hr
    cases hsought
    obtain ⟨hne, hin, htext⟩ := reading_text hold hr
    have hcount := countMatches_of_parts hne (parts_split hne : Parts needle content _)
    rw [two_of_overlap hne hin hapart] at hcount
    refine ⟨replaceAt content needle replacement (indexOf needle content 0), ?_⟩
    rw [htext, replaceMatches, hoccurrence, hcount, hall]
    rfl
  · rename_i needle' hr
    cases hsought
    obtain ⟨hne, hin, htext⟩ := reading_numbered hr
    exact ⟨_, htext (two_of_overlap hne hin hapart)⟩
  · cases hsought

/-! ## Outcomes -/

theorem land_cases (site : Site) (content : Text) (call : Call) (updated : Text) (count : Nat) :
    (∃ failure, land site content call updated count = ⟨.failed failure, content⟩) ∨
      land site content call updated count = ⟨.edited count, updated⟩ := by
  unfold land
  dsimp only
  split
  · exact .inl ⟨_, rfl⟩
  split
  · exact .inl ⟨_, rfl⟩
  split
  · exact .inl ⟨_, rfl⟩
  split
  · exact .inl ⟨_, rfl⟩
  · exact .inr rfl

theorem editFile_cases (site : Site) (content : Text) (call : Call) :
    (∃ failure, editFile site content call = ⟨.failed failure, content⟩) ∨
    (call.oldStr = call.newStr ∧ editFile site content call = ⟨.unchanged, content⟩) ∨
    ∃ updated count, call.oldStr ≠ [] ∧ call.oldStr ≠ call.newStr ∧
      editText content call = .ok (updated, count) ∧ editFile site content call = ⟨.edited count, updated⟩ := by
  unfold editFile
  dsimp only
  split
  · exact .inl ⟨_, rfl⟩
  rename_i hold
  split
  · exact .inl ⟨_, rfl⟩
  split
  · exact .inl ⟨_, rfl⟩
  split
  · rename_i hsame
    split
    · exact .inr (.inl ⟨hsame, rfl⟩)
    · exact .inl ⟨_, rfl⟩
  rename_i hdiffer
  split
  · exact .inl ⟨_, rfl⟩
  · rename_i updated count htext
    rcases land_cases site content call updated count with hfailed | hlanded
    · exact .inl hfailed
    · exact .inr (.inr ⟨updated, count, hold, hdiffer, htext, hlanded⟩)

theorem exact_of_kept {reply : Reply} (h : editFile site content call = ⟨reply, content⟩)
    (hreply : ∀ n, reply ≠ .edited n) (hsame : reply = .unchanged → call.oldStr = call.newStr) :
    Exact site content call := by
  have hgiven : (editFile site content call).reply = reply := congrArg Outcome.reply h
  have hkept : (editFile site content call).content = content := congrArg Outcome.content h
  exact {
    replaced := fun n hn => absurd (hgiven.symm.trans hn) (hreply n)
    onePlace := fun n hn _ _ => absurd (hgiven.symm.trans hn) (hreply n)
    unchanged := fun hunchanged => ⟨hsame (hgiven.symm.trans hunchanged), hkept⟩
    failed := fun _ _ => hkept }

/-- Where no other guard stops a call. -/
def openSite : Site := ⟨false, true, fun _ => none, false, 0, true⟩

theorem editFile_open (hold : call.oldStr ≠ []) (hdiffer : call.oldStr ≠ call.newStr)
    (h : editText content call = .ok (updated, count)) :
    editFile openSite content call = ⟨.edited count, updated⟩ := by
  unfold editFile
  rw [h]
  simp [hold, hdiffer, openSite, land, Floor.UnderFloor]

end Nanna.Scripting.EditFile
