import Nanna.Tasks.FilterGrammar

/-!
# Filter atoms as they are written

The lexer reads a printable atom back (`lex_atom`), whatever follows it: a word ends at the blank, the
operator or the parenthesis behind it, and free text at the operator or the closing parenthesis, with
its blanks trimmed. A date is written in ASCII (`date_char`), so lower-casing finds the side before it.
-/

namespace Nanna.Tasks.Filter

open Nanna.Lib Nanna.Lib.Text

/-! ## Atoms -/

def FilterAtom.print : FilterAtom → Text
  | .priority p => 'p' :: (toString p).toList
  | .label t => '@' :: t
  | .project t => '#' :: t
  | .overdue => "overdue".toList
  | .today => "today".toList
  | .noDate => "no".toList ++ ' ' :: "date".toList
  | .noDeadline => "no".toList ++ ' ' :: "deadline".toList
  | .noLabel => "no".toList ++ ' ' :: "label".toList
  | .subtask => "subtask".toList
  | .dueBefore t => "due".toList ++ ' ' :: ("before:".toList ++ ' ' :: t)
  | .dueAfter t => "due".toList ++ ' ' :: ("after:".toList ++ ' ' :: t)
  | .deadlineBefore t => "deadline".toList ++ ' ' :: ("before:".toList ++ ' ' :: t)
  | .deadlineAfter t => "deadline".toList ++ ' ' :: ("after:".toList ++ ' ' :: t)
  | .search t => "search:".toList ++ ' ' :: t
  | .status t => t
  | .blocked => "blocked".toList

/-- It can be written: its words are words, its free text is trimmed and holds no operator. -/
def FilterAtom.Printable : FilterAtom → Prop
  | .priority p => 1 ≤ p ∧ p ≤ 4
  | .label t | .project t => t ≠ [] ∧ ∀ c ∈ t, isWordChar c = true
  | .dueBefore t | .dueAfter t | .deadlineBefore t | .deadlineAfter t => isIsoDate t = true
  | .search t => t ≠ [] ∧ Tight t ∧ ∀ c ∈ t, isTextChar c = true
  | .status t => t ∈ ["pending".toList, "in_progress".toList, "done".toList, "cancelled".toList]
  | .overdue | .today | .noDate | .noDeadline | .noLabel | .subtask | .blocked => True

/-- What may stand behind an atom. -/
def Follow (rest : Text) : Prop :=
  rest = [] ∨ (∃ later, rest = ')' :: later) ∨
    ∃ c later, (c = '&' ∨ c = '|') ∧ rest = ' ' :: c :: later

variable {rt : Runtime} {c : Char} {cs chars word pre t d rest next lower : Text} {a : FilterAtom}
  {before after build : Text → FilterAtom}

theorem Follow.head (h : Follow rest) : ∀ c ∈ rest.head?, isWordChar c = false := by
  rcases h with rfl | ⟨later, rfl⟩ | ⟨c, later, -, rfl⟩
  · exact nofun
  · rintro _ ⟨⟩
    rfl
  · rintro _ ⟨⟩
    rfl

theorem lex_blank : lex rt (' ' :: rest) = lex rt rest := by
  rw [lex_cons]
  show (lex rt rest >>= fun later => .ok ([] ++ later)) = _
  cases lex rt rest <;> rfl

/-- Free text takes no more than a blank with it. -/
theorem Follow.blank (h : Follow rest) : ∀ c ∈ rest.takeWhile isTextChar, isWhitespace c = true := by
  rcases h with rfl | ⟨later, rfl⟩ | ⟨c, later, rfl | rfl, rfl⟩
  · exact nofun
  · exact nofun
  · intro c hc
    obtain rfl := List.mem_singleton.mp hc
    rfl
  · intro c hc
    obtain rfl := List.mem_singleton.mp hc
    rfl

theorem Follow.lex (h : Follow rest) : lex rt (rest.dropWhile isTextChar) = lex rt rest := by
  rcases h with rfl | ⟨later, rfl⟩ | ⟨c, later, rfl | rfl, rfl⟩
  · rfl
  · rfl
  · exact lex_blank.symm
  · exact lex_blank.symm

theorem not_isWhitespace_of_isWordChar (h : isWordChar c = true) : isWhitespace c = false := by
  simp only [isWordChar, Bool.not_eq_true', Bool.or_eq_false_iff] at h
  exact h.1

theorem takeWord_append (hword : ∀ c ∈ word, isWordChar c = true)
    (hhead : ∀ c ∈ rest.head?, isWordChar c = false) : takeWord (word ++ rest) = (word, rest) := by
  rw [takeWord, List.takeWhile_append_of_pos hword, List.dropWhile_append_of_pos hword]
  cases rest with
  | nil => rw [List.takeWhile_nil, List.append_nil, List.dropWhile_nil]
  | cons c cs =>
    have hc : ¬ isWordChar c = true := Bool.not_eq_true _ ▸ hhead c rfl
    rw [List.takeWhile_cons_of_neg hc, List.append_nil, List.dropWhile_cons_of_neg hc]

theorem dropWhile_of_word (hword : ∀ c ∈ word, isWordChar c = true) (hne : word ≠ []) :
    (word ++ rest).dropWhile isWhitespace = word ++ rest := by
  cases word with
  | nil => exact absurd rfl hne
  | cons c cs =>
    exact dropWhile_of_head (not_isWhitespace_of_isWordChar (hword c List.mem_cons_self))

theorem takeUntilOperator_append (hpre : ∀ c ∈ pre, c = ' ') (ht : ∀ c ∈ t, isTextChar c = true)
    (htight : Tight t) (hrest : Follow rest) :
    takeUntilOperator (pre ++ t ++ rest) = (t, rest.dropWhile isTextChar) := by
  have hall : ∀ c ∈ pre ++ t, isTextChar c = true := fun c hc =>
    (List.mem_append.mp hc).elim (fun hc => hpre c hc ▸ rfl) (ht c)
  rw [takeUntilOperator, List.takeWhile_append_of_pos hall, List.dropWhile_append_of_pos hall,
    trim_blanks (fun c hc => hpre c hc ▸ rfl) hrest.blank htight]

/-! ## Words -/

theorem lexWord_append (hword : ∀ c ∈ word, isWordChar c = true) (hne : word ≠ [])
    (hsearch : ¬ "search:".toList <+: rt.lower word)
    (hhead : ∀ c ∈ rest.head?, isWordChar c = false) :
    lexWord rt (word ++ rest) = lexKeyword rt (rt.lower word) rest := by
  rw [lexWord, takeWord_append hword hhead]
  dsimp only
  rw [if_neg hne, if_neg hsearch]

/-- A word in lower case. -/
def Plain (word : Text) : Prop :=
  word ≠ [] ∧ ∀ c ∈ word, isWordChar c = true ∧ c.toNat < 128 ∧ c.toLower = c ∧ c ≠ '@' ∧ c ≠ '#'

/-- By the members of the word: the characters are finitely many too. -/
instance : Decidable (Plain word) :=
  haveI := List.decidableBAll (fun c => isWordChar c = true ∧ c.toNat < 128 ∧ c.toLower = c ∧ c ≠ '@' ∧ c ≠ '#') word
  inferInstanceAs (Decidable (_ ∧ _))

theorem Plain.lower_eq (h : Plain word) : rt.lower word = word := by
  rw [rt.lower_ascii fun c hc => (h.2 c hc).2.1]
  exact (List.map_congr_left fun c hc => (h.2 c hc).2.2.1).trans (List.map_id _)

theorem Plain.wordChars (h : Plain word) : ∀ c ∈ word, isWordChar c = true := fun c hc => (h.2 c hc).1

theorem Plain.lexWord (h : Plain word) (hsearch : ¬ "search:".toList <+: word)
    (hhead : ∀ c ∈ rest.head?, isWordChar c = false) :
    lexWord rt (word ++ rest) = lexKeyword rt word rest := by
  have hlower : rt.lower word = word := h.lower_eq
  rw [← hlower] at hsearch
  rw [lexWord_append h.wordChars h.1 hsearch hhead, hlower]

theorem keywords_plain : ∀ entry ∈ KEYWORDS, Plain entry.1 ∧ ¬ "search:".toList <+: entry.1 ∧
    KEYWORDS.lookup entry.1 = some entry.2 := by
  decide

theorem absences_plain : ∀ entry ∈ ABSENCES, Plain entry.1 ∧
    ABSENCES.lookup entry.1 = some entry.2 := by
  decide

theorem lexWord_keyword (hmem : (word, a) ∈ KEYWORDS) (hrest : Follow rest) :
    lexWord rt (word ++ rest) = .ok (a, rest) := by
  obtain ⟨hplain, hsearch, hlookup⟩ := keywords_plain _ hmem
  dsimp only at hplain hsearch hlookup
  rw [hplain.lexWord hsearch hrest.head, lexKeyword, hlookup]

theorem lexWord_absence (hmem : (word, a) ∈ ABSENCES) (hrest : Follow rest) :
    lexWord rt ("no".toList ++ ' ' :: (word ++ rest)) = .ok (a, rest) := by
  obtain ⟨hplain, hlookup⟩ := absences_plain _ hmem
  dsimp only at hplain hlookup
  have hno : Plain "no".toList := by decide
  have hskip : skipWs (' ' :: (word ++ rest)) = word ++ rest := by
    rw [skipWs, List.dropWhile_cons_of_pos rfl]
    exact dropWhile_of_word hplain.wordChars hplain.1
  rw [hno.lexWord (by decide) (by rintro _ ⟨⟩; rfl)]
  show lexAbsence rt _ = _
  rw [lexAbsence, hskip, takeWord_append hplain.wordChars hrest.head]
  dsimp only
  rw [hplain.lower_eq, hlookup]

/-! ## Dates and free text -/

/-- A date is digits and hyphens. -/
theorem date_char (h : isIsoDate d = true) (hc : c ∈ d) : 45 ≤ c.toNat ∧ c.toNat ≤ 57 := by
  simp only [isIsoDate, Bool.and_eq_true, beq_iff_eq, List.all_eq_true] at h
  obtain ⟨⟨⟨-, hfour⟩, hseven⟩, hall⟩ := h
  have hbyte : ∀ b ∈ asBytes d, 45 ≤ b.toNat ∧ b.toNat ≤ 57 := by
    intro b hb
    obtain ⟨i, hi⟩ := List.mem_iff_getElem?.mp hb
    have hbi := hall (b, i) (List.mem_zipIdx_iff_getElem?.mpr hi)
    simp only [Bool.or_eq_true, Bool.and_eq_true, beq_iff_eq, decide_eq_true_eq,
      UInt8.le_iff_toNat_le] at hbi
    rcases hbi with (rfl | rfl) | hdigit
    · rw [hfour] at hi
      obtain rfl := Option.some.inj hi
      decide
    · rw [hseven] at hi
      obtain rfl := Option.some.inj hi
      decide
    · exact ⟨Nat.le_trans (by decide) hdigit.1, hdigit.2⟩
  obtain ⟨b, hb⟩ := List.exists_mem_of_ne_nil (String.utf8EncodeChar c) (by
    rw [← List.length_pos_iff, String.length_utf8EncodeChar]
    exact c.utf8Size_pos)
  have hrange := hbyte b (List.mem_flatMap.mpr ⟨c, hc, hb⟩)
  have hsize : c.utf8Size = 1 := by
    refine utf8Size_of_ascii_byte hb (UInt8.lt_iff_toNat_lt.mpr ?_)
    exact Nat.lt_of_le_of_lt hrange.2 (by decide)
  have hsmall : c.val.toNat ≤ 127 := UInt32.le_iff_toNat_le.mp (Char.utf8Size_eq_one_iff.mp hsize)
  rw [String.utf8EncodeChar_eq_singleton hsize] at hb
  obtain rfl := List.mem_singleton.mp hb
  rw [UInt32.toNat_toUInt8, Nat.mod_eq_of_lt (by omega)] at hrange
  exact hrange

theorem isTextChar_of_date (h : 45 ≤ c.toNat ∧ c.toNat ≤ 57) : isTextChar c = true := by
  simp only [isTextChar, Bool.not_eq_true', decide_eq_false_iff_not, List.mem_cons,
    List.not_mem_nil, or_false, not_or]
  refine ⟨?_, ?_, ?_⟩ <;> rintro rfl <;> revert h <;> decide

theorem not_isWhitespace_of_date (h : 45 ≤ c.toNat ∧ c.toNat ≤ 57) : isWhitespace c = false := by
  simp only [isWhitespace]
  grind

theorem tight_date (h : isIsoDate d = true) : Tight d :=
  ⟨fun _ hc => not_isWhitespace_of_date (date_char h (List.mem_of_head? hc)),
    fun _ hc => not_isWhitespace_of_date (date_char h (List.mem_of_getLast? hc))⟩

theorem date_ne_nil (h : isIsoDate d = true) : d ≠ [] := by
  rintro rfl
  revert h
  decide

/-- A word, a blank and a trimmed text. -/
theorem tight_append (hword : ∀ c ∈ word, isWordChar c = true) (hne : word ≠ []) (ht : Tight t)
    (htne : t ≠ []) : Tight (word ++ ' ' :: t) := by
  cases word with
  | nil => exact absurd rfl hne
  | cons c cs =>
    refine ⟨?_, fun last hlast => ht.2 last ?_⟩
    · rintro _ ⟨⟩
      exact not_isWhitespace_of_isWordChar (hword c List.mem_cons_self)
    · rw [List.getLast?_append_of_ne_nil _ (List.cons_ne_nil _ _),
        List.getLast?_cons_of_ne_nil htne] at hlast
      exact hlast

/-- Behind a word and a blank, up to the operator, there is the text. -/
theorem takeUntilOperator_word (hpre : ∀ c ∈ pre, c = ' ') (hword : ∀ c ∈ word, isWordChar c = true)
    (hne : word ≠ []) (ht : Tight t) (htne : t ≠ []) (hchars : ∀ c ∈ t, isTextChar c = true)
    (hrest : Follow rest) : takeUntilOperator (pre ++ (word ++ ' ' :: t) ++ rest) =
      (word ++ ' ' :: t, rest.dropWhile isTextChar) := by
  refine takeUntilOperator_append hpre (fun c hc => ?_) (tight_append hword hne ht htne) hrest
  rcases List.mem_append.mp hc with hc | hc
  · exact isTextChar_of_isWordChar (hword c hc)
  · rcases List.mem_cons.mp hc with rfl | hc
    · rfl
    · exact hchars c hc

theorem trim_blank (ht : Tight t) : trim (' ' :: t) = t := by
  have htrim : trim ([' '] ++ t ++ []) = t :=
    trim_blanks (fun c hc => List.mem_singleton.mp hc ▸ rfl) nofun ht
  rwa [List.append_nil] at htrim

theorem getFrom_append {n : Nat} (h : byteLen pre = n) : getFrom n (pre ++ t) = t := by
  rw [getFrom, ← h, splitBytes_append]
  rfl

theorem lexBound_date (hside : lexSide rt lower before after (word ++ ' ' :: d) = .ok (build, ' ' :: d))
    (hword : ∀ c ∈ word, isWordChar c = true) (hne : word ≠ []) (hd : isIsoDate d = true)
    (hrest : Follow rest) :
    lexBound rt lower before after (' ' :: (word ++ ' ' :: d ++ rest)) =
      .ok (build d, rest.dropWhile isTextChar) := by
  have htake : takeUntilOperator ([' '] ++ (word ++ ' ' :: d) ++ rest) =
      (word ++ ' ' :: d, rest.dropWhile isTextChar) :=
    takeUntilOperator_word (fun c hc => List.mem_singleton.mp hc) hword hne (tight_date hd)
      (date_ne_nil hd) (fun c hc => isTextChar_of_date (date_char hd hc)) hrest
  rw [List.append_assoc, List.singleton_append] at htake
  rw [lexBound, htake]
  dsimp only
  rw [hside]
  show (if isIsoDate (trim (' ' :: d)) then _ else _) = _
  rw [trim_blank (tight_date hd), if_pos hd]

theorem ascii_append_date (hword : Plain word) (hd : isIsoDate d = true) :
    ∀ c ∈ word ++ ' ' :: d, c.toNat < 128 := by
  intro c hc
  rcases List.mem_append.mp hc with hc | hc
  · exact (hword.2 c hc).2.1
  · rcases List.mem_cons.mp hc with rfl | hc
    · decide
    · exact Nat.lt_of_le_of_lt (date_char hd hc).2 (by decide)

theorem lexSide_before (hd : isIsoDate d = true) :
    lexSide rt lower before after ("before:".toList ++ ' ' :: d) = .ok (before, ' ' :: d) := by
  have hlower : "before:".toList.map Char.toLower = "before:".toList := by decide
  rw [lexSide, rt.lower_ascii (ascii_append_date (by decide) hd), List.map_append, hlower,
    if_pos (List.prefix_append _ _), getFrom_append (by decide)]

theorem lexSide_after (hd : isIsoDate d = true) :
    lexSide rt lower before after ("after:".toList ++ ' ' :: d) = .ok (after, ' ' :: d) := by
  have hlower : "after:".toList.map Char.toLower = "after:".toList := by decide
  rw [lexSide, rt.lower_ascii (ascii_append_date (by decide) hd), List.map_append, hlower, if_neg,
    if_pos (List.prefix_append _ _), getFrom_append (by decide)]
  intro h
  exact absurd (List.cons_prefix_cons.mp h).1 (by decide)

theorem lexWord_search (hne : t ≠ []) (ht : Tight t) (hchars : ∀ c ∈ t, isTextChar c = true)
    (hrest : Follow rest) :
    lexWord rt ("search:".toList ++ ' ' :: t ++ rest) = .ok (.search t, rest.dropWhile isTextChar) := by
  have hplain : Plain "search:".toList := by decide
  have htake : takeUntilOperator ([] ++ ("search:".toList ++ ' ' :: t) ++ rest) =
      ("search:".toList ++ ' ' :: t, rest.dropWhile isTextChar) :=
    takeUntilOperator_word nofun hplain.wordChars hplain.1 ht hne hchars hrest
  have hword : takeWord ("search:".toList ++ ' ' :: t ++ rest) = ("search:".toList, ' ' :: t ++ rest) := by
    rw [List.append_assoc]
    exact takeWord_append hplain.wordChars (by rintro _ ⟨⟩; rfl)
  rw [List.nil_append] at htake
  rw [lexWord, hword, htake]
  dsimp only
  rw [if_neg hplain.1, hplain.lower_eq, if_pos (List.prefix_refl _),
    getFrom_append (by decide), trim_blank ht, if_neg hne]

/-! ## The tokens -/

theorem isWordChar_of_lexWord (h : lexWord rt (c :: cs) = .ok (a, next)) : isWordChar c = true := by
  by_contra hc
  rw [lexWord, takeWord, List.takeWhile_cons_of_neg hc] at h
  cases h

theorem lex_of_lexWord (h : lexWord rt (c :: cs) = .ok (a, next)) (hsign : c ≠ '@' ∧ c ≠ '#') :
    lex rt (c :: cs) = (lex rt next >>= fun later => .ok (.atom a :: later)) := by
  have hc : isWordChar c = true := isWordChar_of_lexWord h
  have hblank : c ∉ [' ', '\t', '\n', '\r'] := by
    intro hmem
    simp only [List.mem_cons, List.not_mem_nil, or_false] at hmem
    rcases hmem with rfl | rfl | rfl | rfl <;> exact absurd hc (by decide)
  have hoperator : c ≠ '&' ∧ c ≠ '|' ∧ c ≠ '!' ∧ c ≠ '(' ∧ c ≠ ')' := by
    refine ⟨?_, ?_, ?_, ?_, ?_⟩ <;> rintro rfl <;> exact absurd hc (by decide)
  rw [lex_cons, lexStep, if_neg hblank, if_neg hoperator.1, if_neg hoperator.2.1,
    if_neg hoperator.2.2.1, if_neg hoperator.2.2.2.1, if_neg hoperator.2.2.2.2, if_neg hsign.1,
    if_neg hsign.2, h]
  rfl

/-- The word at the front of a text, and a rest that lexes like what is left. -/
theorem lex_front (hne : word ≠ []) (hword : ∀ c ∈ word.head?, c ≠ '@' ∧ c ≠ '#')
    (h : lexWord rt (word ++ chars) = .ok (a, next)) (hnext : lex rt next = lex rt rest) :
    lex rt (word ++ chars) = (lex rt rest >>= fun later => .ok (.atom a :: later)) := by
  cases word with
  | nil => exact absurd rfl hne
  | cons c cs =>
    rw [List.cons_append] at h ⊢
    rw [lex_of_lexWord h (hword c rfl), hnext]

theorem lex_keyword (hmem : (word, a) ∈ KEYWORDS) (hrest : Follow rest) :
    lex rt (word ++ rest) = (lex rt rest >>= fun later => .ok (.atom a :: later)) := by
  have hplain : Plain word := (keywords_plain _ hmem).1
  exact lex_front hplain.1 (fun c hc => (hplain.2 c (List.mem_of_head? hc)).2.2.2)
    (lexWord_keyword hmem hrest) rfl

theorem lex_absence (hmem : (word, a) ∈ ABSENCES) (hrest : Follow rest) :
    lex rt ("no".toList ++ ' ' :: word ++ rest) = (lex rt rest >>= fun later => .ok (.atom a :: later)) := by
  rw [List.append_assoc]
  exact lex_front (by decide) (by rintro _ ⟨⟩; decide) (lexWord_absence hmem hrest) rfl

/-- `due` and `deadline`, with either side. -/
theorem lex_bound {name side : Text} (hname : Plain name) (hsearch : ¬ "search:".toList <+: name)
    (hbound : ∀ next, lexKeyword rt name next = lexBound rt name before after next)
    (hside : lexSide rt name before after (side ++ ' ' :: d) = .ok (build, ' ' :: d))
    (hplain : Plain side) (hd : isIsoDate d = true) (hrest : Follow rest) :
    lex rt (name ++ ' ' :: (side ++ ' ' :: d) ++ rest) =
      (lex rt rest >>= fun later => .ok (.atom (build d) :: later)) := by
  rw [List.append_assoc]
  refine lex_front hname.1 (fun c hc => (hname.2 c (List.mem_of_head? hc)).2.2.2) ?_ hrest.lex
  rw [hname.lexWord hsearch (by rintro _ ⟨⟩; rfl), hbound]
  exact lexBound_date hside hplain.wordChars hplain.1 hd hrest

theorem lex_due {side : Text}
    (hside : lexSide rt "due".toList .dueBefore .dueAfter (side ++ ' ' :: d) = .ok (build, ' ' :: d))
    (hplain : Plain side) (hd : isIsoDate d = true) (hrest : Follow rest) :
    lex rt ("due".toList ++ ' ' :: (side ++ ' ' :: d) ++ rest) =
      (lex rt rest >>= fun later => .ok (.atom (build d) :: later)) :=
  lex_bound (by decide) (by decide) (fun _ => rfl) hside hplain hd hrest

theorem lex_deadline {side : Text}
    (hside : lexSide rt "deadline".toList .deadlineBefore .deadlineAfter (side ++ ' ' :: d) =
      .ok (build, ' ' :: d))
    (hplain : Plain side) (hd : isIsoDate d = true) (hrest : Follow rest) :
    lex rt ("deadline".toList ++ ' ' :: (side ++ ' ' :: d) ++ rest) =
      (lex rt rest >>= fun later => .ok (.atom (build d) :: later)) :=
  lex_bound (by decide) (by decide) (fun _ => rfl) hside hplain hd hrest

theorem lexTagged_append (sign : Char) (build : Text → FilterAtom) (hne : t ≠ [])
    (hchars : ∀ c ∈ t, isWordChar c = true) (hrest : Follow rest) :
    lexTagged sign build (t ++ rest) = .ok ([.atom (build t)], rest) := by
  rw [lexTagged, takeWord_append hchars hrest.head]
  exact if_neg hne

/-- An atom is read back, with what follows it. -/
theorem lex_atom (hprint : a.Printable) (hrest : Follow rest) :
    lex rt (a.print ++ rest) = (lex rt rest >>= fun later => .ok (.atom a :: later)) := by
  cases a with
  | priority p =>
    obtain rfl | rfl | rfl | rfl : p = 1 ∨ p = 2 ∨ p = 3 ∨ p = 4 := by
      obtain ⟨hlow, hhigh⟩ := hprint
      omega
    all_goals exact lex_keyword (by decide) hrest
  | label t =>
    show lex rt ('@' :: (t ++ rest)) = _
    rw [lex_cons]
    show (lexTagged '@' .label (t ++ rest) >>= _) = _
    rw [lexTagged_append '@' .label hprint.1 hprint.2 hrest]
    rfl
  | project t =>
    show lex rt ('#' :: (t ++ rest)) = _
    rw [lex_cons]
    show (lexTagged '#' .project (t ++ rest) >>= _) = _
    rw [lexTagged_append '#' .project hprint.1 hprint.2 hrest]
    rfl
  | overdue | today | subtask | blocked => exact lex_keyword (by decide) hrest
  | noDate | noDeadline | noLabel => exact lex_absence (by decide) hrest
  | dueBefore t => exact lex_due (lexSide_before hprint) (by decide) hprint hrest
  | dueAfter t => exact lex_due (lexSide_after hprint) (by decide) hprint hrest
  | deadlineBefore t =>
    exact lex_deadline (lexSide_before hprint) (by decide) hprint hrest
  | deadlineAfter t =>
    exact lex_deadline (lexSide_after hprint) (by decide) hprint hrest
  | search t =>
    show lex rt ("search:".toList ++ ' ' :: t ++ rest) = _
    have hword : lexWord rt ("search:".toList ++ ' ' :: t ++ rest) =
      .ok (.search t, rest.dropWhile isTextChar) := lexWord_search hprint.1 hprint.2.1 hprint.2.2 hrest
    rw [List.append_assoc] at hword ⊢
    exact lex_front (by decide) (by rintro _ ⟨⟩; decide) hword hrest.lex
  | status t =>
    refine lex_keyword ?_ hrest
    simp only [FilterAtom.Printable, List.mem_cons, List.not_mem_nil, or_false] at hprint
    rcases hprint with rfl | rfl | rfl | rfl <;> decide

end Nanna.Tasks.Filter
