import Nanna.Lib.JsonPrint
import Nanna.Tasks.Acceptance

/-!
# The scanner of loose object literals

`repair_js_object_literal` goes on turn by turn: `repair_cons` is the loop without its fuel, and `turn` says what
one turn writes and leaves. A text that comes out the same way whatever follows it `Passes`: copied characters
(`passes_copied`), and string literals, which change with their quotes only (`passes_single`, `passes_double`). A
word is read to its end (`repair_word`); what becomes of it depends on whether a colon follows.
-/

namespace Nanna.Tasks

open Nanna.Lib

/-- The classes of the ASCII characters. -/
structure Dialect.Ascii (d : Dialect) : Prop where
  alphabetic : ∀ c : Char, c.toNat < 128 → d.isAlphabetic c = c.isAlpha
  numeric : ∀ c : Char, c.toNat < 128 → d.isNumeric c = c.isDigit

variable (d : Dialect)

def Dialect.startsWord (c : Char) : Bool := d.isAlphabetic c || c == '_'

def Dialect.isWord (c : Char) : Bool := d.isAlphanumeric c || c == '_'

/-! ## The loop without its fuel -/

theorem copyString_length {t : Text} {p : Text × Text} (h : copyString t = some p) : p.2.length ≤ t.length := by
  induction t using copyString.induct generalizing p with
  | case1 | case3 => cases h
  | case2 cs =>
    cases h
    exact Nat.le_succ _
  | case4 c cs ih =>
    obtain ⟨⟨out, rest⟩, hq, rfl⟩ := Option.map_eq_some_iff.mp h
    have hrest : rest.length ≤ cs.length := ih hq
    exact Nat.le_succ_of_le (Nat.le_succ_of_le hrest)
  | case5 c cs _ _ _ ih =>
    rw [copyString] at h
    · obtain ⟨⟨out, rest⟩, hq, rfl⟩ := Option.map_eq_some_iff.mp h
      have hrest : rest.length ≤ cs.length := ih hq
      exact Nat.le_succ_of_le hrest
    all_goals assumption

theorem requote_length {t : Text} {p : Text × Text} (h : requote t = some p) : p.2.length ≤ t.length := by
  induction t using requote.induct generalizing p with
  | case1 | case3 => cases h
  | case2 cs =>
    cases h
    exact Nat.le_succ _
  | case4 c cs ih =>
    obtain ⟨⟨out, rest⟩, hq, rfl⟩ := Option.map_eq_some_iff.mp h
    have hrest : rest.length ≤ cs.length := ih hq
    exact Nat.le_succ_of_le (Nat.le_succ_of_le hrest)
  | case5 cs ih =>
    obtain ⟨⟨out, rest⟩, hq, rfl⟩ := Option.map_eq_some_iff.mp h
    have hrest : rest.length ≤ cs.length := ih hq
    exact Nat.le_succ_of_le hrest
  | case6 c cs _ _ _ _ ih =>
    rw [requote] at h
    · obtain ⟨⟨out, rest⟩, hq, rfl⟩ := Option.map_eq_some_iff.mp h
      have hrest : rest.length ≤ cs.length := ih hq
      exact Nat.le_succ_of_le hrest
    all_goals assumption

/-- One turn of the loop: what it writes, and what it leaves. -/
def turn (c : Char) (cs : Text) : Option (Text × Text) :=
  if c = '"' then (copyString cs).map fun p => ('"' :: p.1, p.2)
  else if c = '\'' then (requote cs).map fun p => ('"' :: p.1, p.2)
  else if d.startsWord c then
    (repairWord (c :: cs.takeWhile d.isWord) (cs.dropWhile d.isWord)).map fun out => (out, cs.dropWhile d.isWord)
  else some ([c], cs)

variable {d} {c : Char} {cs rest t : Text}

theorem turn_length {p : Text × Text} (h : turn d c cs = some p) : p.2.length ≤ cs.length := by
  unfold turn at h
  split at h
  · obtain ⟨⟨out, rest⟩, hq, rfl⟩ := Option.map_eq_some_iff.mp h
    have hrest : rest.length ≤ cs.length := copyString_length hq
    exact hrest
  · split at h
    · obtain ⟨⟨out, rest⟩, hq, rfl⟩ := Option.map_eq_some_iff.mp h
      have hrest : rest.length ≤ cs.length := requote_length hq
      exact hrest
    · split at h
      · obtain ⟨out, -, rfl⟩ := Option.map_eq_some_iff.mp h
        exact (List.dropWhile_sublist _).length_le
      · cases h
        exact Nat.le_refl _

theorem repairFrom_succ (fuel : Nat) (c : Char) (cs : Text) :
    repairFrom d (fuel + 1) (c :: cs) =
      (turn d c cs).bind fun p => (repairFrom d fuel p.2).map (p.1 ++ ·) := by
  unfold turn
  by_cases hdouble : c = '"'
  · subst hdouble
    rw [repairFrom, if_pos rfl]
    rcases copyString cs with _ | ⟨out, rest⟩
    · rfl
    · cases hrest : repairFrom d fuel rest <;> simp [hrest]
  · rw [if_neg hdouble]
    by_cases hsingle : c = '\''
    · subst hsingle
      rw [repairFrom, if_pos rfl]
      rcases requote cs with _ | ⟨out, rest⟩
      · rfl
      · cases hrest : repairFrom d fuel rest <;> simp [hrest]
    · rw [if_neg hsingle, repairFrom.eq_5 d fuel c cs hdouble hsingle]
      by_cases hword : d.startsWord c = true
      · rw [if_pos hword, Option.bind_map]
        refine (if_pos hword).trans ?_
        change (repairWord (c :: cs.takeWhile d.isWord) (cs.dropWhile d.isWord)).bind _ = _
        cases repairWord (c :: cs.takeWhile d.isWord) (cs.dropWhile d.isWord) with
        | none => rfl
        | some out =>
          change (repairFrom d fuel (cs.dropWhile d.isWord)).bind _ = _
          cases hrest : repairFrom d fuel (cs.dropWhile d.isWord) <;> simp [hrest]
      · rw [if_neg hword]
        refine (if_neg hword).trans ?_
        cases hrest : repairFrom d fuel cs <;> simp [hrest]

theorem repairFrom_fuel (fuel fuel' : Nat) (t : Text) (h : t.length ≤ fuel) (h' : t.length ≤ fuel') :
    repairFrom d fuel t = repairFrom d fuel' t := by
  induction fuel generalizing fuel' t with
  | zero =>
    obtain rfl : t = [] := List.length_eq_zero_iff.mp (Nat.le_zero.mp h)
    cases fuel' <;> rfl
  | succ fuel ih =>
    cases t with
    | nil => cases fuel' <;> rfl
    | cons c cs =>
      obtain ⟨fuel', rfl⟩ : ∃ n, fuel' = n + 1 := ⟨fuel' - 1, by rw [List.length_cons] at h'; omega⟩
      rw [repairFrom_succ, repairFrom_succ]
      cases hturn : turn d c cs with
      | none => rfl
      | some p =>
        have hlength := turn_length hturn
        rw [List.length_cons] at h h'
        rw [Option.bind_some, Option.bind_some, ih fuel' p.2 (by omega) (by omega)]

/-- The loop, turn by turn. -/
theorem repair_cons (c : Char) (cs : Text) : repairJsObjectLiteral d (c :: cs) =
    (turn d c cs).bind fun p => (repairJsObjectLiteral d p.2).map (p.1 ++ ·) := by
  rw [repairJsObjectLiteral, List.length_cons, repairFrom_succ]
  cases hturn : turn d c cs with
  | none => rfl
  | some p =>
    rw [Option.bind_some, Option.bind_some, repairFrom_fuel _ p.2.length p.2 (turn_length hturn) (Nat.le_refl _)]
    rfl

/-! ## What is passed over -/

variable (d) in
/-- The text is rewritten as `out`, whatever follows. -/
def Passes (t out : Text) : Prop :=
  ∀ rest, repairJsObjectLiteral d (t ++ rest) = (repairJsObjectLiteral d rest).map (out ++ ·)

theorem Passes.nil : Passes d [] [] := fun rest => by simp

theorem Passes.append {t' out out' : Text} (h : Passes d t out) (h' : Passes d t' out') :
    Passes d (t ++ t') (out ++ out') := by
  intro rest
  rw [List.append_assoc, h, h', Option.map_map]
  congr 1
  funext later
  exact (List.append_assoc _ _ _).symm

/-- Neither a quote nor the start of a word. -/
def Dialect.isCopied (d : Dialect) (c : Char) : Bool := c ≠ '"' && c ≠ '\'' && ! d.startsWord c

theorem passes_copied (h : ∀ c ∈ t, d.isCopied c = true) : Passes d t t := by
  induction t with
  | nil => exact .nil
  | cons c t ih =>
    obtain ⟨hc, hword⟩ := Bool.and_eq_true_iff.mp (h c List.mem_cons_self)
    obtain ⟨hdouble, hsingle⟩ := Bool.and_eq_true_iff.mp hc
    have hturn : ∀ cs, turn d c cs = some ([c], cs) := by
      intro cs
      unfold turn
      rw [if_neg (of_decide_eq_true hdouble), if_neg (of_decide_eq_true hsingle), if_neg (by simpa using hword)]
    have hhead : Passes d [c] [c] := fun rest => by
      rw [List.singleton_append, repair_cons, hturn]
      rfl
    exact hhead.append (ih fun c hc => h c (List.mem_cons_of_mem _ hc))

/-! ## Strings -/

/-- A piece of a string literal: a character, or one after a backslash. -/
inductive Piece
  | plain (c : Char)
  | escape (c : Char)

def Piece.text : Piece → Text
  | plain c => [c]
  | escape c => ['\\', c]

/-- The piece of a single-quoted literal that a double-quoted one has in its place. -/
def Piece.requoted : Piece → Text
  | plain c => if c = '"' then ['\\', '"'] else [c]
  | escape c => if c = '\'' then ['\''] else ['\\', c]

/-- The piece does not end a literal, nor begin another piece. -/
def Piece.Fits (quote : Char) : Piece → Prop
  | plain c => c ≠ quote ∧ c ≠ '\\'
  | escape _ => True

theorem copyString_pieces {ps : List Piece} (h : ∀ p ∈ ps, p.Fits '"') :
    copyString (ps.flatMap Piece.text ++ '"' :: rest) = some (ps.flatMap Piece.text ++ ['"'], rest) := by
  induction ps with
  | nil => rfl
  | cons p ps ih =>
    have hrest := ih fun p hp => h p (List.mem_cons_of_mem _ hp)
    cases p with
    | plain c =>
      obtain ⟨hquote, hslash⟩ := h _ List.mem_cons_self
      simp only [List.flatMap_cons, Piece.text, List.cons_append, List.nil_append]
      rw [copyString.eq_5 c _ hquote (fun h => absurd h hslash) (fun _ _ h _ => absurd h hslash), hrest]
      rfl
    | escape c =>
      simp only [List.flatMap_cons, Piece.text, List.cons_append, List.nil_append]
      rw [copyString, hrest]
      rfl

theorem requote_pieces {ps : List Piece} (h : ∀ p ∈ ps, p.Fits '\'') :
    requote (ps.flatMap Piece.text ++ '\'' :: rest) = some (ps.flatMap Piece.requoted ++ ['"'], rest) := by
  induction ps with
  | nil => rfl
  | cons p ps ih =>
    have hrest := ih fun p hp => h p (List.mem_cons_of_mem _ hp)
    cases p with
    | plain c =>
      obtain ⟨hquote, hslash⟩ := h _ List.mem_cons_self
      simp only [List.flatMap_cons, Piece.text, Piece.requoted, List.cons_append, List.nil_append]
      by_cases hdouble : c = '"'
      · subst hdouble
        rw [requote, hrest]
        rfl
      · rw [requote.eq_6 c _ hquote (fun h => absurd h hslash) (fun _ _ h _ => absurd h hslash) hdouble, hrest,
          if_neg hdouble]
        rfl
    | escape c =>
      simp only [List.flatMap_cons, Piece.text, List.cons_append, List.nil_append]
      rw [requote, hrest, Piece.requoted]
      simp

/-- A string literal in double quotes stays as it is. -/
theorem passes_double {ps : List Piece} (h : ∀ p ∈ ps, p.Fits '"') :
    Passes d ('"' :: ps.flatMap Piece.text ++ ['"']) ('"' :: ps.flatMap Piece.text ++ ['"']) := by
  intro rest
  rw [List.cons_append, List.cons_append, List.append_assoc, repair_cons, turn, if_pos rfl]
  rw [List.singleton_append, copyString_pieces h]
  rfl

/-- One in single quotes changes with its quotes. -/
theorem passes_single {ps : List Piece} (h : ∀ p ∈ ps, p.Fits '\'') :
    Passes d ('\'' :: ps.flatMap Piece.text ++ ['\'']) ('"' :: ps.flatMap Piece.requoted ++ ['"']) := by
  intro rest
  rw [List.cons_append, List.cons_append, List.append_assoc, repair_cons, turn, if_neg (by decide), if_pos rfl]
  rw [List.singleton_append, requote_pieces h]
  rfl

/-- A character of a string, in pieces. -/
def escapePieces (quote c : Char) : List Piece :=
  if c = quote ∨ c = '\\' then [.escape c]
  else if c.toNat < 0x20 then
    [.escape 'u', .plain '0', .plain '0', .plain (Nat.digitChar (c.toNat / 16)),
      .plain (Nat.digitChar (c.toNat % 16))]
  else [.plain c]

theorem text_escapePieces (quote c : Char) : (escapePieces quote c).flatMap Piece.text = escapeChar quote c := by
  unfold escapePieces escapeChar
  split
  · rfl
  · split <;> rfl

theorem digitChar_plain {n : Nat} (h : n < 16) : Nat.digitChar n ∉ ['"', '\'', '\\'] := by
  revert n
  decide

theorem requoted_escapePieces (c : Char) : (escapePieces '\'' c).flatMap Piece.requoted = escapeChar '"' c := by
  by_cases hsingle : c = '\''
  · subst hsingle
    rfl
  · by_cases hslash : c = '\\'
    · subst hslash
      rfl
    · by_cases hdouble : c = '"'
      · subst hdouble
        rfl
      · have hloose : ¬ (c = '\'' ∨ c = '\\') := not_or.mpr ⟨hsingle, hslash⟩
        have hstrict : ¬ (c = '"' ∨ c = '\\') := not_or.mpr ⟨hdouble, hslash⟩
        unfold escapePieces escapeChar
        rw [if_neg hloose, if_neg hstrict]
        split
        · rename_i hcontrol
          have hhigh := @digitChar_plain (c.toNat / 16) (by omega)
          have hlow := @digitChar_plain (c.toNat % 16) (by omega)
          simp only [List.mem_cons, not_or] at hhigh hlow
          simp [Piece.requoted, hhigh.1, hlow.1]
        · simp [Piece.requoted, hdouble]

theorem fits_escapePieces (c : Char) : ∀ p ∈ escapePieces '\'' c, p.Fits '\'' := by
  unfold escapePieces
  split
  · intro p hp
    rw [List.mem_singleton.mp hp]
    trivial
  · rename_i hc
    split
    · rename_i hcontrol
      have hhigh := @digitChar_plain (c.toNat / 16) (by omega)
      have hlow := @digitChar_plain (c.toNat % 16) (by omega)
      simp only [List.mem_cons, List.not_mem_nil, or_false, not_or] at hhigh hlow
      simp [Piece.Fits, hhigh.2, hlow.2]
    · intro p hp
      rw [List.mem_singleton.mp hp]
      exact not_or.mp hc

theorem passes_quoted (t : Text) : Passes d (quoted '\'' t) (quoted '"' t) := by
  have hfits : ∀ p ∈ t.flatMap (escapePieces '\''), p.Fits '\'' := fun p hp => by
    obtain ⟨c, -, hc⟩ := List.mem_flatMap.mp hp
    exact fits_escapePieces c p hc
  have hpass := @passes_single d _ hfits
  rw [List.flatMap_assoc, List.flatMap_assoc] at hpass
  simp only [text_escapePieces, requoted_escapePieces] at hpass
  exact hpass

/-! ## Words -/

/-- What follows a value: blanks, then a comma, a closer or nothing. -/
def Ends (rest : Text) : Prop :=
  ∃ blanks tail, rest = blanks ++ tail ∧ (∀ c ∈ blanks, c ∈ [' ', '\t', '\n', '\r']) ∧
    ∀ c ∈ tail.head?, c ∈ [',', ']', '\x7d']

/-- No colon follows. -/
def ValuePosition (rest : Text) : Prop := (rest.find? fun c => ! Text.isWhitespace c) ≠ some ':'

theorem find?_blanks {blanks : Text} (hblanks : ∀ c ∈ blanks, c ∈ [' ', '\t', '\n', '\r']) :
    blanks.find? (fun c => ! Text.isWhitespace c) = none := by
  rw [List.find?_eq_none]
  intro c hc
  have hmem := hblanks c hc
  simp only [List.mem_cons, List.not_mem_nil, or_false] at hmem
  rcases hmem with rfl | rfl | rfl | rfl <;> decide

theorem Ends.value_position (h : Ends rest) : ValuePosition rest := by
  obtain ⟨blanks, tail, rfl, hblanks, htail⟩ := h
  unfold ValuePosition
  rw [List.find?_append, find?_blanks hblanks, Option.none_or]
  cases tail with
  | nil => simp
  | cons c tail =>
    have hc := htail c rfl
    simp only [List.mem_cons, List.not_mem_nil, or_false] at hc
    rcases hc with rfl | rfl | rfl <;> exact fun h => by cases h

section

variable (hascii : d.Ascii)
include hascii

theorem isCopied_ascii (hc : c.toNat < 128) :
    d.isCopied c = (c ≠ '"' && c ≠ '\'' && ! c.isAlpha && c ≠ '_') := by
  unfold Dialect.isCopied Dialect.startsWord
  rw [hascii.alphabetic c hc]
  cases c.isAlpha <;> by_cases h : c = '_' <;> simp [h]

theorem isWord_ascii (hc : c.toNat < 128) : d.isWord c = (c.isAlphanum || c == '_') := by
  unfold Dialect.isWord Dialect.isAlphanumeric
  rw [hascii.alphabetic c hc, hascii.numeric c hc]
  rfl

theorem Ends.head (h : Ends rest) : ∀ c ∈ rest.head?, d.isWord c = false := by
  obtain ⟨blanks, tail, rfl, hblanks, htail⟩ := h
  intro c hc
  have hmem : c ∈ [' ', '\t', '\n', '\r'] ∨ c ∈ [',', ']', '\x7d'] := by
    cases blanks with
    | nil => exact .inr (htail c hc)
    | cons b blanks =>
      obtain rfl := Option.some.inj hc
      exact .inl (hblanks b List.mem_cons_self)
  simp only [List.mem_cons, List.not_mem_nil, or_false] at hmem
  rcases hmem with (rfl | rfl | rfl | rfl) | (rfl | rfl | rfl)
  all_goals
    rw [isWord_ascii hascii (by decide)]
    decide

omit hascii in
theorem isWord_of_startsWord (h : d.startsWord c = true) : d.isWord c = true := by
  rcases Bool.or_eq_true_iff.mp h with h | h
  · simp [Dialect.isWord, Dialect.isAlphanumeric, h]
  · simp [Dialect.isWord, h]

theorem startsWord_not_quote (h : d.startsWord c = true) : c ≠ '"' ∧ c ≠ '\'' := by
  constructor
  all_goals
    rintro rfl
    unfold Dialect.startsWord at h
    rw [hascii.alphabetic _ (by decide)] at h
    revert h
    decide

/-- A whole word. -/
theorem repair_word (hc : d.startsWord c = true) (hcs : ∀ c ∈ cs, d.isWord c = true)
    (hrest : ∀ c ∈ rest.head?, d.isWord c = false) :
    repairJsObjectLiteral d (c :: cs ++ rest) =
      (repairWord (c :: cs) rest).bind fun out => (repairJsObjectLiteral d rest).map (out ++ ·) := by
  obtain ⟨hdouble, hsingle⟩ := startsWord_not_quote hascii hc
  have htake : rest.takeWhile d.isWord = [] ∧ rest.dropWhile d.isWord = rest := by
    cases rest with
    | nil => exact ⟨rfl, rfl⟩
    | cons r rest =>
      have hr : ¬ d.isWord r = true := by simp [hrest r rfl]
      exact ⟨List.takeWhile_cons_of_neg hr, List.dropWhile_cons_of_neg hr⟩
  rw [List.cons_append, repair_cons, turn, if_neg hdouble, if_neg hsingle, if_pos hc,
    List.takeWhile_append_of_pos hcs, List.dropWhile_append_of_pos hcs, htake.1, htake.2, List.append_nil,
    Option.bind_map]
  rfl

end

theorem repairWord_key {word : Text} (h : ¬ ValuePosition rest) :
    repairWord word rest = some ('"' :: word ++ ['"']) :=
  if_pos (Classical.not_not.mp h)

theorem repairWord_literal {word : Text} (h : ValuePosition rest)
    (hword : word = "true".toList ∨ word = "false".toList ∨ word = "null".toList) :
    repairWord word rest = some word := (if_neg h).trans (if_pos hword)

theorem repairWord_guess {word : Text} (h : ValuePosition rest)
    (hword : ¬ (word = "true".toList ∨ word = "false".toList ∨ word = "null".toList)) :
    repairWord word rest = none := (if_neg h).trans (if_neg hword)

end Nanna.Tasks
