import Nanna.Lib.Occurrence

/-!
# The matches of a needle

A script finds a needle with `indexOf` and looks for the next match behind the last one. `Parts` is what these
matches leave of a text; splitting (`parts_split`), counting (`countMatches_of_parts`) and stepping to a match
(`nthMatch_of_parts`) agree on it.

A needle can occur at places that are no match, where it overlaps one. A text of three parts or more has two
occurrences that do not overlap (`Parts.apart`), and a text of two parts has none (`Parts.not_apart`).
-/

namespace Nanna.Lib.Text

/-- `t.indexOf(needle, pos)`. -/
def indexOf (needle t : Text) (pos : Int) : Int :=
  match cutFirst needle (t.drop pos.toNat) with
  | some (pre, _) => pos.toNat + pre.length
  | none => -1

/-- `t.substring(start, stop)`, of a start before the stop. -/
def substring (t : Text) (start stop : Nat) : Text := (t.drop start).take (stop - start)

def splitUpTo (needle : Text) : Nat → Text → List Text
  | 0, t => [t]
  | fuel + 1, t =>
    match cutFirst needle t with
    | some (pre, post) => pre :: splitUpTo needle fuel post
    | none => [t]

/-- `t.split(needle)`, of a needle that is not empty. -/
def split (needle t : Text) : List Text := splitUpTo needle t.length t

def countFrom (needle t : Text) : Nat → Int → Nat
  | 0, _ => 0
  | fuel + 1, pos =>
    if 0 ≤ pos then countFrom needle t fuel (indexOf needle t (pos + needle.length)) + 1 else 0

/-- How many matches there are; every match takes a character. -/
def countMatches (needle t : Text) : Nat := countFrom needle t t.length (indexOf needle t 0)

/-- Where the match is that `k` matches stand before. -/
def nthMatch (needle t : Text) : Nat → Int
  | 0 => indexOf needle t 0
  | k + 1 => indexOf needle t (nthMatch needle t k + needle.length)

/-- What the matches leave of a text. -/
inductive Parts (needle : Text) : Text → List Text → Prop
  | last {t : Text} (h : ¬ needle <:+: t) : Parts needle t [t]
  | cons {pre post : Text} {parts : List Text} (h : ¬ needle <:+: pre ++ needle.dropLast)
      (hrest : Parts needle post parts) : Parts needle (pre ++ needle ++ post) (pre :: parts)

/-- Two occurrences that do not overlap. -/
def Apart (needle t : Text) : Prop := ∃ before mid after, t = before ++ needle ++ mid ++ needle ++ after

variable {needle t pre post p q done rest before after : Text} {parts pres posts : List Text}

theorem substring_around : substring (pre ++ (t ++ post)) pre.length (pre ++ t).length = t := by
  rw [substring, List.drop_left, List.length_append, Nat.add_sub_cancel_left, List.take_left]

/-! ## The first occurrence -/

theorem length_dropLast_lt (hne : needle ≠ []) : needle.dropLast.length < needle.length := by
  rw [List.length_dropLast]
  have hpos := List.length_pos_iff.mpr hne
  omega

/-- Nothing is found before the first occurrence. -/
theorem first_le (hne : needle ≠ []) (hfirst : ¬ needle <:+: pre ++ needle.dropLast)
    (h : pre ++ needle ++ post = before ++ needle ++ after) : pre.length ≤ before.length := by
  by_contra hlt
  refine hfirst ?_
  have hend : pre ++ needle.dropLast <+: pre ++ needle ++ post :=
    ((List.prefix_append_right_inj pre).mpr (List.dropLast_prefix needle)).trans
      (List.prefix_append _ _)
  have hfound : before ++ needle <+: pre ++ needle ++ post := h ▸ List.prefix_append _ _
  have hlen : (before ++ needle).length ≤ (pre ++ needle.dropLast).length := by
    have hpos := List.length_pos_iff.mpr hne
    rw [List.length_append, List.length_append, List.length_dropLast]
    omega
  have hinside := List.prefix_of_prefix_length_le hfound hend hlen
  exact (List.suffix_append before needle).isInfix.trans hinside.isInfix

theorem not_infix_dropLast (hne : needle ≠ []) : ¬ needle <:+: needle.dropLast := fun h =>
  absurd h.length_le (Nat.not_le.mpr (length_dropLast_lt hne))

theorem first_of_cutFirst (hne : needle ≠ []) (h : cutFirst needle t = some (pre, post)) :
    ¬ needle <:+: pre ++ needle.dropLast := by
  induction t generalizing pre with
  | nil =>
    rw [cutFirst, if_neg hne] at h
    cases h
  | cons c t ih =>
    rw [cutFirst] at h
    split at h
    · cases h
      exact not_infix_dropLast hne
    · rename_i hdrop
      obtain ⟨⟨pre', post'⟩, hcut, heq⟩ := Option.map_eq_some_iff.mp h
      cases heq
      rw [List.cons_append, List.infix_cons_iff, not_or]
      refine ⟨fun hhere => ?_, ih hcut⟩
      have hrest : pre' ++ needle.dropLast <+: t := by
        rw [eq_of_cutFirst hcut, List.append_assoc, List.prefix_append_right_inj]
        exact (List.dropLast_prefix needle).trans (List.prefix_append _ _)
      obtain ⟨tail, htail⟩ := hhere.trans ((List.prefix_cons_inj c).mpr hrest)
      rw [← htail, dropPrefix_append] at hdrop
      cases hdrop

theorem cutFirst_of_first (hne : needle ≠ []) (hfirst : ¬ needle <:+: pre ++ needle.dropLast) :
    cutFirst needle (pre ++ needle ++ post) = some (pre, post) := by
  rcases hcut : cutFirst needle (pre ++ needle ++ post) with _ | ⟨pre', post'⟩
  · exact absurd ⟨pre, post, rfl⟩ (cutFirst_eq_none.mp hcut)
  · have heq := eq_of_cutFirst hcut
    have hle := first_le hne hfirst heq
    have hge := first_le hne (first_of_cutFirst hne hcut) heq.symm
    rw [List.append_assoc, List.append_assoc] at heq
    obtain ⟨rfl, htail⟩ := List.append_inj heq (Nat.le_antisymm hle hge)
    rw [List.append_cancel_left htail]

/-! ## Parts -/

theorem Parts.ne_nil (h : Parts needle t parts) : parts ≠ [] := by
  cases h with
  | last => exact List.cons_ne_nil _ _
  | cons => exact List.cons_ne_nil _ _

theorem intercalate_cons (h : parts ≠ []) :
    needle.intercalate (p :: parts) = p ++ needle ++ needle.intercalate parts := by
  rw [List.intercalate_cons_of_ne_nil h, List.append_assoc]

theorem intercalate_eq (put first : Text) (pieces : List Text) :
    put.intercalate (first :: pieces) = first ++ pieces.flatMap (put ++ ·) := by
  induction pieces generalizing first with
  | nil => rw [List.intercalate_singleton, List.flatMap_nil, List.append_nil]
  | cons piece pieces ih =>
    rw [intercalate_cons (List.cons_ne_nil _ _), ih, List.flatMap_cons]
    simp only [List.append_assoc]

theorem Parts.eq_intercalate (h : Parts needle t parts) : t = needle.intercalate parts := by
  induction h with
  | last => exact List.intercalate_singleton.symm
  | cons _ hrest ih => rw [intercalate_cons hrest.ne_nil, ← ih]

theorem Parts.infix_iff (h : Parts needle t parts) : needle <:+: t ↔ 1 < parts.length := by
  cases h with
  | last hnot => simp [hnot]
  | cons _ hrest =>
    refine iff_of_true ⟨_, _, rfl⟩ ?_
    exact Nat.succ_lt_succ (List.length_pos_iff.mpr hrest.ne_nil)

theorem Parts.length_le (hne : needle ≠ []) (h : Parts needle t parts) :
    parts.length ≤ t.length + 1 := by
  induction h with
  | last => exact Nat.succ_le_succ (Nat.zero_le _)
  | cons _ _ ih =>
    have hpos := List.length_pos_iff.mpr hne
    rw [List.length_cons, List.length_append, List.length_append]
    omega

theorem parts_splitUpTo (hne : needle ≠ []) {fuel : Nat} (hfuel : t.length ≤ fuel) :
    Parts needle t (splitUpTo needle fuel t) := by
  induction fuel generalizing t with
  | zero =>
    rw [List.length_eq_zero_iff.mp (Nat.le_zero.mp hfuel)]
    exact .last fun h => hne (List.infix_nil.mp h)
  | succ fuel ih =>
    rw [splitUpTo]
    split
    · rename_i pre post hcut
      have hshort := length_lt_of_cutFirst hcut hne
      have hparts := Parts.cons (first_of_cutFirst hne hcut) (ih (by omega : post.length ≤ fuel))
      rwa [← eq_of_cutFirst hcut] at hparts
    · rename_i hcut
      exact .last (cutFirst_eq_none.mp hcut)

theorem parts_split (hne : needle ≠ []) : Parts needle t (split needle t) :=
  parts_splitUpTo hne le_rfl

/-- The matches of a needle are determined by the text. -/
theorem Parts.unique {parts' : List Text} (hne : needle ≠ []) (h : Parts needle t parts)
    (h' : Parts needle t parts') : parts = parts' := by
  induction h generalizing parts' with
  | last hnot =>
    cases h' with
    | last => rfl
    | cons => exact absurd ⟨_, _, rfl⟩ hnot
  | @cons pre post parts hfirst hrest ih =>
    generalize htext : pre ++ needle ++ post = text at h'
    cases h' with
    | last hnot => exact absurd ⟨pre, post, htext⟩ hnot
    | @cons pre' post' parts' hfirst' hrest' =>
      have hcut := @cutFirst_of_first _ pre post hne hfirst
      rw [htext, cutFirst_of_first hne hfirst'] at hcut
      cases hcut
      exact congrArg (pre :: ·) (ih hrest')

/-! ## Positions -/

/-- The parts before a match, each with the match behind it. -/
def upTo (needle : Text) (pres : List Text) : Text := pres.flatMap (· ++ needle)

theorem upTo_snoc : upTo needle (pres ++ [p]) = upTo needle pres ++ p ++ needle := by
  simp [upTo]

theorem intercalate_append (h : posts ≠ []) :
    needle.intercalate (pres ++ posts) = upTo needle pres ++ needle.intercalate posts := by
  induction pres with
  | nil => rfl
  | cons x pres ih =>
    rw [List.cons_append, intercalate_cons (List.append_ne_nil_of_right_ne_nil pres h), ih]
    simp [upTo]

theorem intercalate_snoc : needle.intercalate (pres ++ [p]) = upTo needle pres ++ p := by
  rw [intercalate_append (List.cons_ne_nil _ _), List.intercalate_singleton]

theorem upTo_eq (h : pres ≠ []) : upTo needle pres = needle.intercalate pres ++ needle := by
  obtain ⟨init, last, rfl⟩ := (List.eq_nil_or_concat' pres).resolve_left h
  rw [upTo_snoc, intercalate_snoc]

theorem Parts.tail (h : Parts needle t (p :: parts)) (hparts : parts ≠ []) :
    ∃ rest, t = p ++ needle ++ rest ∧ Parts needle rest parts := by
  cases h with
  | last => exact absurd rfl hparts
  | cons _ hrest => exact ⟨_, rfl, hrest⟩

theorem Parts.drop (h : Parts needle t (pres ++ posts)) (hposts : posts ≠ []) :
    ∃ rest, t = upTo needle pres ++ rest ∧ Parts needle rest posts := by
  induction pres generalizing t with
  | nil => exact ⟨t, rfl, h⟩
  | cons x pres ih =>
    obtain ⟨mid, rfl, hmid⟩ := h.tail (List.append_ne_nil_of_right_ne_nil pres hposts)
    obtain ⟨rest, rfl, hparts⟩ := ih hmid
    exact ⟨rest, by simp [upTo], hparts⟩

/-- A text cut at one of its matches. -/
theorem Parts.eq_around (h : Parts needle t (pres ++ p :: posts)) (hposts : posts ≠ []) :
    t = upTo needle pres ++ p ++ needle ++ needle.intercalate posts := by
  obtain ⟨rest, rfl, hparts⟩ := h.drop (List.cons_ne_nil _ _)
  rw [hparts.eq_intercalate, intercalate_cons hposts]
  simp only [List.append_assoc]

theorem drop_done : (done ++ rest).drop (Int.toNat done.length) = rest := List.drop_left

theorem indexOf_end (h : Parts needle rest [p]) : indexOf needle (done ++ rest) done.length = -1 := by
  cases h with
  | last hnot =>
    rw [indexOf, drop_done, cutFirst_eq_none.mpr hnot]
  | cons _ hrest => exact absurd rfl hrest.ne_nil

theorem indexOf_match (hne : needle ≠ []) (h : Parts needle rest (p :: parts)) (hparts : parts ≠ []) :
    indexOf needle (done ++ rest) done.length = (done ++ p).length := by
  cases h with
  | last => exact absurd rfl hparts
  | cons hfirst _ =>
    rw [indexOf, drop_done, cutFirst_of_first hne hfirst, List.length_append]
    rfl

theorem countFrom_of_parts (hne : needle ≠ []) {fuel : Nat} (h : Parts needle rest parts)
    (hfuel : parts.length ≤ fuel + 1) :
    countFrom needle (done ++ rest) fuel (indexOf needle (done ++ rest) done.length) =
      parts.length - 1 := by
  induction h generalizing done fuel with
  | last hnot =>
    rw [indexOf_end (.last hnot)]
    cases fuel with
    | zero => rfl
    | succ fuel => rfl
  | @cons pre post parts hfirst hrest ih =>
    have hpos := List.length_pos_iff.mpr hrest.ne_nil
    rw [List.length_cons] at hfuel
    obtain ⟨fuel, rfl⟩ : ∃ n, fuel = n + 1 := ⟨fuel - 1, by omega⟩
    rw [indexOf_match hne (.cons hfirst hrest) hrest.ne_nil, countFrom, if_pos (Int.natCast_nonneg _)]
    have hnext : ((done ++ pre).length : Int) + needle.length = (done ++ pre ++ needle).length := by
      rw [@List.length_append _ (done ++ pre) needle]
      rfl
    have hshift : done ++ (pre ++ needle ++ post) = done ++ pre ++ needle ++ post := by
      simp only [List.append_assoc]
    rw [hnext, hshift, ih (by omega), List.length_cons]
    omega

theorem countMatches_of_parts (hne : needle ≠ []) (h : Parts needle t parts) :
    countMatches needle t = parts.length - 1 := by
  have hcount := @countFrom_of_parts needle [] t parts hne t.length h (h.length_le hne)
  exact hcount

theorem nthMatch_of_parts (hne : needle ≠ []) (h : Parts needle t (pres ++ p :: posts))
    (hposts : posts ≠ []) : nthMatch needle t pres.length = (upTo needle pres ++ p).length := by
  induction pres using List.reverseRecOn generalizing p posts with
  | nil =>
    have hfound := @indexOf_match needle p [] t posts hne h hposts
    exact hfound
  | append_singleton pres x ih =>
    obtain ⟨rest, hrest, hparts⟩ := h.drop (List.cons_ne_nil _ _)
    rw [List.append_assoc] at h
    have hnext : ((upTo needle pres ++ x).length : Int) + needle.length =
        (upTo needle (pres ++ [x])).length := by
      rw [upTo_snoc, @List.length_append _ (upTo needle pres ++ x) needle]
      rfl
    rw [List.length_append, List.length_singleton, nthMatch, ih h (List.cons_ne_nil _ _), hnext, hrest]
    exact indexOf_match hne hparts hposts

/-! ## Overlaps -/

theorem Parts.apart (h : Parts needle t parts) (hparts : 2 < parts.length) : Apart needle t := by
  rcases parts with _ | ⟨x, _ | ⟨y, parts⟩⟩
  · exact absurd hparts (by simp)
  · exact absurd hparts (by simp)
  have hmore : parts ≠ [] := List.length_pos_iff.mp (by simpa using hparts)
  obtain ⟨mid, rfl, hmid⟩ := h.tail (List.cons_ne_nil _ _)
  obtain ⟨rest, rfl, -⟩ := hmid.tail hmore
  exact ⟨x, y, rest, by simp only [List.append_assoc]⟩

theorem Parts.not_apart (hne : needle ≠ []) (h : Parts needle t [p, q]) : ¬ Apart needle t := by
  rintro ⟨before, mid, after, htext⟩
  cases h with
  | @cons _ rest _ hfirst hrest =>
    have hsecond : p ++ needle ++ rest = before ++ needle ++ (mid ++ needle ++ after) := by
      rw [htext]
      simp only [List.append_assoc]
    have hle := first_le hne hfirst hsecond
    -- the second occurrence begins behind the first match
    have hlen : (mid ++ needle ++ after).length ≤ rest.length := by
      have htotal := congrArg List.length hsecond
      simp only [List.length_append] at htotal ⊢
      omega
    have hend : mid ++ needle ++ after <:+ p ++ needle ++ rest := hsecond ▸ List.suffix_append _ _
    have hinside := List.suffix_of_suffix_length_le hend (List.suffix_append _ _) hlen
    have hfree := hrest.infix_iff.mp (List.IsInfix.trans ⟨mid, after, rfl⟩ hinside.isInfix)
    exact absurd hfree (lt_irrefl 1)

end Nanna.Lib.Text
