import Nanna.Lib.Text

/-!
# Words of a shell command

`tokenize` splits a command by the quoting rules of the POSIX shell: words, with each character marked
as quoted or not, and operators, one character each. It is `none` where a quotation is not closed. The
inside of a substitution is not followed: its opening character stays in its word, unquoted.

A text without a single quote that is put between single quotes is one literal word
(`tokensFrom_quote`). The converse is a matter of counting (`cost_le_of_tokenize`): a character of a
command that is not a single quote is a character of a token, or the blank between two words, or has
quoted something; and only the last two kinds can let a single quote into a word.
-/

namespace Nanna.Lib.Shell

/-- A character of a word, and whether it is quoted. -/
structure Piece where
  char : Char
  quoted : Bool
deriving DecidableEq

abbrev Word := List Piece

inductive Token
  | word (w : Word)
  /-- A character of an operator, or the end of a line. -/
  | op (c : Char)
deriving DecidableEq

/-- What the characters read so far make of the next one. -/
inductive Mode
  | plain
  /-- Behind a backslash. -/
  | escaped
  | single
  | double
  /-- Behind a backslash between double quotes. -/
  | doubleEscaped
  | comment
deriving DecidableEq

def isOperator (c : Char) : Bool := c ∈ ['\n', ';', '&', '|', '<', '>', '(', ')']

def isBlank (c : Char) : Bool := c = ' ' || c = '\t'

/-- What keeps its meaning between double quotes. -/
def isActive (c : Char) : Bool := c = '$' || c = '\x60'

/-- The word being read, if there is one. -/
def flush : Option Word → List Token
  | none => []
  | some w => [.word w]

/-- The word being read with a further character. -/
def push (word : Option Word) (c : Char) (quoted : Bool) : Option Word :=
  some (word.getD [] ++ [⟨c, quoted⟩])

/-- A quotation is part of a word, also of an empty one. -/
def opened (word : Option Word) : Option Word := some (word.getD [])

/-- One character: the mode behind it, the word being read, and the tokens that are complete. -/
def step (mode : Mode) (word : Option Word) (c : Char) : Mode × Option Word × List Token :=
  match mode with
  | .plain =>
    if c = '\'' then (.single, opened word, [])
    else if c = '"' then (.double, opened word, [])
    else if c = '\\' then (.escaped, word, [])
    else if isBlank c then (.plain, none, flush word)
    else if isOperator c then (.plain, none, flush word ++ [.op c])
    else if c = '#' ∧ word = none then (.comment, none, [])
    else (.plain, push word c false, [])
  | .escaped => if c = '\n' then (.plain, word, []) else (.plain, push word c true, [])
  | .single => if c = '\'' then (.plain, word, []) else (.single, push word c true, [])
  | .double =>
    if c = '"' then (.plain, word, [])
    else if c = '\\' then (.doubleEscaped, word, [])
    else (.double, push word c (! isActive c), [])
  | .doubleEscaped =>
    if c = '\n' then (.double, word, [])
    else if isActive c || c = '"' || c = '\\' then (.double, push word c true, [])
    else (.double, push (push word '\\' true) c true, [])
  | .comment => if c = '\n' then (.plain, none, [.op c]) else (.comment, none, [])

/-- The tokens of the rest of a command. -/
def tokensFrom : Mode → Option Word → Text → Option (List Token)
  | .plain, word, [] => some (flush word)
  | .comment, _, [] => some []
  | _, _, [] => none
  | mode, word, c :: rest =>
    let (mode, word, complete) := step mode word c
    (tokensFrom mode word rest).map (complete ++ ·)

def tokenize (command : Text) : Option (List Token) := tokensFrom .plain none command

/-- A text between single quotes. -/
def quote (t : Text) : Text := '\'' :: t ++ ['\'']

/-- A word that stands for itself. -/
def literal (t : Text) : Word := t.map (⟨·, true⟩)

/-- A word as it is written, without quoting. -/
def bare (s : String) : Token := .word (s.toList.map (⟨·, false⟩))

variable {mode : Mode} {word : Option Word} {t rest : Text} {ts : List Token} {c : Char}

theorem tokensFrom_cons : tokensFrom mode word (c :: rest) =
    (tokensFrom (step mode word c).1 (step mode word c).2.1 rest).map
      ((step mode word c).2.2 ++ ·) := by
  cases mode <;> rfl

/-! ## A prefix of a command -/

/-- What a part of a command leads to. -/
def run (mode : Mode) (word : Option Word) : Text → Mode × Option Word × List Token
  | [] => (mode, word, [])
  | c :: t =>
    let (mode, word, complete) := step mode word c
    let (mode, word, later) := run mode word t
    (mode, word, complete ++ later)

theorem run_cons : run mode word (c :: t) =
    ((run (step mode word c).1 (step mode word c).2.1 t).1,
      (run (step mode word c).1 (step mode word c).2.1 t).2.1,
      (step mode word c).2.2 ++ (run (step mode word c).1 (step mode word c).2.1 t).2.2) := rfl

theorem tokensFrom_run : tokensFrom mode word (t ++ rest) =
    (tokensFrom (run mode word t).1 (run mode word t).2.1 rest).map ((run mode word t).2.2 ++ ·) := by
  induction t generalizing mode word with
  | nil =>
    cases tokensFrom mode word rest <;> simp [run]
  | cons c t ih =>
    rw [List.cons_append, tokensFrom_cons, ih, run_cons, Option.map_map]
    refine congrArg (Option.map · _) (funext fun later => ?_)
    exact (List.append_assoc _ _ _).symm

theorem tokensFrom_append {mode' : Mode} {word' : Option Word}
    (h : run mode word t = (mode', word', ts)) :
    tokensFrom mode word (t ++ rest) = (tokensFrom mode' word' rest).map (ts ++ ·) := by
  rw [tokensFrom_run, h]

/-! ## Between single quotes -/

theorem tokensFrom_single (h : '\'' ∉ t) : tokensFrom .single word (t ++ '\'' :: rest) =
    tokensFrom .plain (if t = [] then word else some (word.getD [] ++ literal t)) rest := by
  induction t generalizing word with
  | nil =>
    rw [List.nil_append, tokensFrom_cons, if_pos rfl]
    simp [step]
  | cons c t ih =>
    obtain ⟨hc, ht⟩ : '\'' ≠ c ∧ '\'' ∉ t := by simpa using h
    have hstep : step .single word c = (.single, push word c true, []) := if_neg hc.symm
    rw [List.cons_append, tokensFrom_cons, hstep, ih ht]
    by_cases hnil : t = []
    · simp [hnil, push, literal]
    · simp [hnil, push, literal]

/-- A text without a single quote, between two of them, is literally a part of its word. -/
theorem tokensFrom_quote (h : '\'' ∉ t) : tokensFrom .plain word (quote t ++ rest) =
    tokensFrom .plain (some (word.getD [] ++ literal t)) rest := by
  have hopen : step .plain word '\'' = (.single, opened word, []) := by simp [step]
  have hshape : quote t ++ rest = '\'' :: (t ++ '\'' :: rest) := by simp [quote]
  rw [hshape, tokensFrom_cons, hopen, tokensFrom_single h]
  by_cases hnil : t = []
  · simp [hnil, opened, literal]
  · simp [hnil, opened]

/-- The end of a word. -/
def ends (t : Text) : Bool := t.head?.all fun c => isBlank c || isOperator c

theorem tokensFrom_ends (w : Word) (h : ends rest = true) :
    tokensFrom .plain (some w) rest = (tokensFrom .plain none rest).map (.word w :: ·) := by
  cases rest with
  | nil => rfl
  | cons c rest =>
    have hc : isBlank c = true ∨ isOperator c = true := by simpa [ends] using h
    have hcode : c ≠ '\'' ∧ c ≠ '"' ∧ c ≠ '\\' := by
      refine ⟨?_, ?_, ?_⟩ <;> rintro rfl <;> revert hc <;> decide
    obtain ⟨hsingle, hdouble, hback⟩ := hcode
    have hstep : ∀ word, step .plain word c =
        if isBlank c then (.plain, none, flush word) else (.plain, none, flush word ++ [.op c]) := by
      intro word
      rw [step, if_neg hsingle, if_neg hdouble, if_neg hback]
      split
      · rfl
      · rename_i hblank
        rw [if_pos (hc.resolve_left hblank)]
    rw [tokensFrom_cons, tokensFrom_cons, hstep, hstep]
    split <;> rw [Option.map_map] <;> rfl

/-- An argument between single quotes. -/
theorem tokensFrom_arg (h : '\'' ∉ t) (hends : ends rest = true) :
    tokensFrom .plain none (quote t ++ rest) =
      (tokensFrom .plain none rest).map (.word (literal t) :: ·) := by
  rw [tokensFrom_quote h, tokensFrom_ends _ hends]
  rfl

/-! ## Counting -/

/-- The characters other than a single quote. -/
def plainChars (t : Text) : Nat := t.countP (· ≠ '\'')

/-- A word with a single quote in it. -/
def holdsQuote (w : Word) : Bool := w.any (·.char = '\'')

def wordCost (w : Word) : Nat := plainChars (w.map (·.char)) + if holdsQuote w then 1 else 0

def isWord : Token → Bool
  | .word _ => true
  | .op _ => false

/-- The characters other than single quotes that a command needs for these tokens: those of the tokens,
one that quotes for each word that holds a single quote, and a blank between two words. -/
def cost : List Token → Nat
  | [] => 0
  | .word w :: ts => wordCost w + (if (ts.head?.any isWord) then 1 else 0) + cost ts
  | .op _ :: ts => 1 + cost ts

/-- A single quote can be read as a character of the word. -/
def quoting (mode : Mode) : Bool := mode = .escaped || mode = .double || mode = .doubleEscaped

/-- What has been spent on the word in progress. -/
def spent (mode : Mode) (word : Option Word) : Nat :=
  plainChars ((word.getD []).map (·.char)) + (if mode = .doubleEscaped then 1 else 0) +
    if holdsQuote (word.getD []) || quoting mode then 1 else 0

@[simp] theorem plainChars_append (t t' : Text) :
    plainChars (t ++ t') = plainChars t + plainChars t' := List.countP_append

@[simp] theorem plainChars_cons :
    plainChars (c :: t) = plainChars t + if c = '\'' then 0 else 1 := by
  rw [plainChars, List.countP_cons]
  by_cases h : c = '\'' <;> simp [h, plainChars]

@[simp] theorem plainChars_nil : plainChars [] = 0 := rfl

@[simp] theorem cost_op (c : Char) : cost (.op c :: ts) = 1 + cost ts := rfl

theorem cost_word_le (w : Word) : cost (.word w :: ts) ≤ wordCost w + 1 + cost ts := by
  rw [cost]
  split <;> omega

theorem cost_word_op (w : Word) : cost (.word w :: .op c :: ts) = wordCost w + 1 + cost ts := by
  rw [cost, cost_op]
  simp only [List.head?_cons, Option.any_some, isWord]
  simp only [Bool.false_eq_true, if_false]
  omega

theorem spent_plain : spent .plain word = wordCost (word.getD []) := by
  simp [spent, quoting, wordCost]

/-- A word costs at most what was spent on it, and a blank. -/
theorem cost_flush_le : cost (flush word ++ ts) ≤ spent .plain word + 1 + cost ts := by
  rw [spent_plain]
  cases word with
  | none =>
    show cost ts ≤ _
    omega
  | some w => exact cost_word_le w

theorem cost_flush_op_le : cost (flush word ++ .op c :: ts) ≤ spent .plain word + 1 + cost ts := by
  rw [spent_plain]
  cases word with
  | none =>
    show 1 + cost ts ≤ _
    omega
  | some w => exact (cost_word_op w).le

theorem holdsQuote_push (quoted : Bool) : holdsQuote ((push word c quoted).getD []) =
    (holdsQuote (word.getD []) || c = '\'') := by
  simp [push, holdsQuote]

theorem plainChars_push (quoted : Bool) :
    plainChars (((push word c quoted).getD []).map (·.char)) =
      plainChars ((word.getD []).map (·.char)) + plainChars [c] := by
  simp [push]

theorem flag_le {p q : Bool} (h : p = true → q = true) :
    (if p then 1 else 0) ≤ if q then 1 else 0 := by
  cases p with
  | false => exact Nat.zero_le _
  | true => rw [h rfl]

/-- A further character is paid for by itself, or by what quotes it. -/
theorem spent_push_le {mode' : Mode} (quoted : Bool) (hmode : mode' ≠ .doubleEscaped)
    (hheld : c = '\'' → quoting mode = true) (hquoting : quoting mode' = true → quoting mode = true) :
    spent mode' (push word c quoted) ≤ spent mode word + plainChars [c] := by
  have hflag : (if holdsQuote (word.getD []) || c = '\'' || quoting mode' then 1 else 0) ≤
      if holdsQuote (word.getD []) || quoting mode then 1 else 0 := by
    refine flag_le fun h => ?_
    simp only [Bool.or_eq_true, decide_eq_true_eq] at h ⊢
    exact h.elim (·.imp_right hheld) fun h => .inr (hquoting h)
  rw [spent, spent, holdsQuote_push, plainChars_push, if_neg hmode]
  omega

@[simp] theorem spent_opened : spent mode (opened word) = spent mode word := rfl

theorem spent_doubleEscaped : spent .doubleEscaped word = spent .double word + 1 := by
  simp only [spent, quoting]
  simp

/-- The character that quotes others pays for them. -/
theorem spent_le_add_one {mode' : Mode} (hmode : mode' ≠ .doubleEscaped) :
    spent mode' word ≤ spent mode word + 1 := by
  have hflag : (if holdsQuote (word.getD []) || quoting mode' then 1 else 0) ≤ 1 :=
    flag_le fun _ => rfl
  rw [spent, spent, if_neg hmode]
  omega

theorem spent_none : spent .plain none = 0 := rfl

theorem plainChars_of_ne (h : c ≠ '\'') : plainChars [c] = 1 := by
  rw [plainChars_cons, if_neg h, plainChars_nil]

/-- What one character completes is paid for by it and by what was spent before. -/
theorem cost_step : cost ((step mode word c).2.2 ++ ts) +
    spent (step mode word c).1 (step mode word c).2.1 ≤
      spent mode word + plainChars [c] + cost ts := by
  have hnothing : ∀ {mode' : Mode} {word' : Option Word},
      spent mode' word' ≤ spent mode word + plainChars [c] →
      cost ([] ++ ts) + spent mode' word' ≤ spent mode word + plainChars [c] + cost ts := by
    intro mode' word' h
    rw [List.nil_append]
    omega
  cases mode with
  | plain =>
    simp only [step]
    split_ifs with hsingle hdouble hback hblank hop hcomment <;> dsimp only
    · exact hnothing (Nat.le_add_right _ _)
    · refine hnothing ?_
      rw [plainChars_of_ne hsingle]
      exact spent_le_add_one (by decide)
    · refine hnothing ?_
      rw [plainChars_of_ne hsingle]
      exact spent_le_add_one (by decide)
    · have hflush := @cost_flush_le word ts
      rw [spent_none, plainChars_of_ne hsingle]
      omega
    · have hflush := @cost_flush_op_le word ts c
      rw [spent_none, plainChars_of_ne hsingle, List.append_assoc]
      exact hflush
    · exact hnothing (Nat.zero_le _)
    · exact hnothing (spent_push_le _ (by decide) (fun h => absurd h hsingle) id)
  | escaped =>
    simp only [step]
    split_ifs with hend <;> dsimp only
    · refine hnothing ?_
      rw [plainChars_of_ne (by rw [hend]; decide)]
      exact spent_le_add_one (by decide)
    · exact hnothing (spent_push_le _ (by decide) (fun _ => rfl) fun _ => rfl)
  | single =>
    simp only [step]
    split_ifs with hclose <;> dsimp only
    · exact hnothing (Nat.le_add_right _ _)
    · exact hnothing (spent_push_le _ (by decide) (fun h => absurd h hclose) id)
  | double =>
    simp only [step]
    split_ifs with hclose hback <;> dsimp only
    · refine hnothing ?_
      rw [plainChars_of_ne (by rw [hclose]; decide)]
      exact spent_le_add_one (by decide)
    · refine hnothing ?_
      rw [plainChars_of_ne (by rw [hback]; decide), spent_doubleEscaped]
    · exact hnothing (spent_push_le _ (by decide) (fun _ => rfl) fun _ => rfl)
  | doubleEscaped =>
    simp only [step]
    split_ifs with hend hactive <;> dsimp only
    · refine hnothing ?_
      rw [spent_doubleEscaped]
      omega
    · exact hnothing (spent_push_le _ (by decide) (fun _ => rfl) fun _ => rfl)
    · -- the backslash is a character of the word here
      refine hnothing ?_
      have hback : spent .double (push word '\\' true) ≤ spent .double word + plainChars ['\\'] :=
        spent_push_le _ (by decide) (fun _ => rfl) fun _ => rfl
      have hchar : spent .double (push (push word '\\' true) c true) ≤
          spent .double (push word '\\' true) + plainChars [c] :=
        spent_push_le _ (by decide) (fun _ => rfl) fun _ => rfl
      have hone : plainChars ['\\'] = 1 := rfl
      rw [spent_doubleEscaped]
      omega
  | comment =>
    simp only [step]
    split_ifs with hend <;> dsimp only
    · rw [plainChars_of_ne (by rw [hend]; decide), spent_none]
      show 1 + cost ts + 0 ≤ _
      omega
    · exact hnothing ((Nat.zero_le _))

theorem cost_le_of_tokensFrom (h : tokensFrom mode word t = some ts) :
    cost ts ≤ spent mode word + plainChars t := by
  induction t generalizing mode word ts with
  | nil =>
    cases mode with
    | plain =>
      obtain rfl := Option.some.inj h
      rw [plainChars_nil, Nat.add_zero, spent_plain]
      cases word with
      | none => exact Nat.zero_le _
      | some w => exact le_rfl
    | comment =>
      obtain rfl := Option.some.inj h
      exact Nat.zero_le _
    | escaped | single | double | doubleEscaped => cases h
  | cons c t ih =>
    rw [tokensFrom_cons] at h
    obtain ⟨later, hlater, rfl⟩ := Option.map_eq_some_iff.mp h
    have hstep := @cost_step mode word later c
    have hrest := ih hlater
    rw [← List.singleton_append, plainChars_append]
    omega

/-! ### Costs of quoted texts -/

theorem plainChars_quote : plainChars (quote t) = plainChars t := by
  simp [quote]

/-- A single quote has to be quoted by something else. -/
theorem wordCost_literal (h : '\'' ∈ t) : wordCost (literal t) = plainChars t + 1 := by
  have hchars : (literal t).map (·.char) = t := by simp [literal, Function.comp_def]
  have hholds : holdsQuote (literal t) = true := by simpa [holdsQuote, literal] using h
  rw [wordCost, hchars, if_pos hholds]

theorem cost_word_word (w w' : Word) :
    cost (.word w :: .word w' :: ts) = wordCost w + 1 + cost (.word w' :: ts) := rfl

theorem cost_word_nil (w : Word) : cost [.word w] = wordCost w := rfl

/-- What the tokens of a command need is in it. -/
theorem cost_le_of_tokenize (h : tokenize t = some ts) : cost ts ≤ plainChars t := by
  have hfrom := cost_le_of_tokensFrom h
  rwa [spent_none, Nat.zero_add] at hfrom

end Nanna.Lib.Shell
