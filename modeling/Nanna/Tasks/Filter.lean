import Nanna.Lib.LeftChain
import Nanna.Lib.Utf8

/-!
# The task filter: its lexer and its parser

The lexer and the parser of the query language, with their errors. Lower-casing and the `Debug` form of
a text are the runtime's (`Runtime`), the first with its law on ASCII.

The lexer works one token at a time (`lexStep`), and each step takes at least one character
(`lexStep_suffix`), so as many steps as there are characters lex the input (`lex_cons`). The parser
counts the levels of nesting that are left, where the code counts those that are used.
-/

namespace Nanna.Tasks.Filter

open Nanna.Lib Nanna.Lib.Text

def FILTER_INPUT_MAX_BYTES : Nat := 4096

def FILTER_DEPTH_MAX : Nat := 32

inductive FilterAtom
  | priority (p : Int)
  | label (label : Text)
  | project (project : Text)
  | overdue
  | today
  | noDate
  | noDeadline
  | noLabel
  | subtask
  | dueBefore (date : Text)
  | dueAfter (date : Text)
  | deadlineBefore (date : Text)
  | deadlineAfter (date : Text)
  | search (text : Text)
  | status (status : Text)
  | blocked
deriving DecidableEq

inductive FilterExpr
  | and (a b : FilterExpr)
  | or (a b : FilterExpr)
  | not (inner : FilterExpr)
  | atom (a : FilterAtom)
deriving DecidableEq

inductive Token
  | amp
  | pipe
  | bang
  | lparen
  | rparen
  | atom (a : FilterAtom)
deriving DecidableEq

inductive FilterError
  | empty
  | tooLong (got : Nat)
  | tooDeep
  | unexpectedToken (token : Text)
  | unexpectedEnd (expected : Text)
  | invalidDate (date : Text)
  | unknownKeyword (keyword : Text)
deriving DecidableEq

def FilterError.message : FilterError → Text
  | .empty => "filter is empty".toList
  | .tooLong got => "filter exceeds ".toList ++ FILTER_INPUT_MAX_BYTES.repr.toList ++ " bytes (got ".toList ++
      got.repr.toList ++ ")".toList
  | .tooDeep => "filter nesting exceeds ".toList ++ FILTER_DEPTH_MAX.repr.toList ++ " levels".toList
  | .unexpectedToken token => "unexpected token '".toList ++ token ++ "'".toList
  | .unexpectedEnd expected => "unexpected end of filter (expected ".toList ++ expected ++ ")".toList
  | .invalidDate date => "invalid date '".toList ++ date ++ "' (expected YYYY-MM-DD)".toList
  | .unknownKeyword keyword => "unknown keyword '".toList ++ keyword ++ "'".toList

/-- `str::to_lowercase`, and `{:?}` of a text. -/
structure Runtime where
  lower : Text → Text
  debug : Text → Text
  lower_ascii : ∀ {t : Text}, (∀ c ∈ t, c.toNat < 128) → lower t = t.map Char.toLower

variable (rt : Runtime)

/-- `{:?}`. -/
def FilterAtom.debug : FilterAtom → Text
  | .priority p => "Priority(".toList ++ (toString p).toList ++ ")".toList
  | .label t => "Label(".toList ++ rt.debug t ++ ")".toList
  | .project t => "Project(".toList ++ rt.debug t ++ ")".toList
  | .overdue => "Overdue".toList
  | .today => "Today".toList
  | .noDate => "NoDate".toList
  | .noDeadline => "NoDeadline".toList
  | .noLabel => "NoLabel".toList
  | .subtask => "Subtask".toList
  | .dueBefore t => "DueBefore(".toList ++ rt.debug t ++ ")".toList
  | .dueAfter t => "DueAfter(".toList ++ rt.debug t ++ ")".toList
  | .deadlineBefore t => "DeadlineBefore(".toList ++ rt.debug t ++ ")".toList
  | .deadlineAfter t => "DeadlineAfter(".toList ++ rt.debug t ++ ")".toList
  | .search t => "Search(".toList ++ rt.debug t ++ ")".toList
  | .status t => "Status(".toList ++ rt.debug t ++ ")".toList
  | .blocked => "Blocked".toList

/-- `{:?}`. -/
def Token.debug : Token → Text
  | .amp => "Amp".toList
  | .pipe => "Pipe".toList
  | .bang => "Bang".toList
  | .lparen => "LParen".toList
  | .rparen => "RParen".toList
  | .atom a => "Atom(".toList ++ a.debug rt ++ ")".toList

/-! ## The lexer -/

def skipWs (chars : Text) : Text := chars.dropWhile isWhitespace

/-- A character of a word. -/
def isWordChar (c : Char) : Bool := !(isWhitespace c || c ∈ ['&', '|', '!', '(', ')'])

/-- A character of free text. -/
def isTextChar (c : Char) : Bool := !(c ∈ ['&', '|', ')'])

/-- The word, and what follows it. -/
def takeWord (chars : Text) : Text × Text := (chars.takeWhile isWordChar, chars.dropWhile isWordChar)

/-- The free text, trimmed, and what follows it. -/
def takeUntilOperator (chars : Text) : Text × Text :=
  (trim (chars.takeWhile isTextChar), chars.dropWhile isTextChar)

def isIsoDate (s : Text) : Bool :=
  let bytes := asBytes s
  bytes.length == 10 && bytes[4]? == some 45 && bytes[7]? == some 45 &&
    bytes.zipIdx.all fun (b, idx) => idx == 4 || idx == 7 || (48 ≤ b && b ≤ 57)

/-- `text.get(n..).unwrap_or("")`. -/
def getFrom (n : Nat) (text : Text) : Text := ((splitBytes n text).map (·.2)).getD []

/-- The words that are an atom of their own. -/
def KEYWORDS : List (Text × FilterAtom) :=
  [("p1".toList, .priority 1), ("p2".toList, .priority 2), ("p3".toList, .priority 3),
    ("p4".toList, .priority 4), ("overdue".toList, .overdue), ("today".toList, .today),
    ("subtask".toList, .subtask), ("blocked".toList, .blocked),
    ("pending".toList, .status "pending".toList), ("in_progress".toList, .status "in_progress".toList),
    ("done".toList, .status "done".toList), ("cancelled".toList, .status "cancelled".toList)]

/-- What may follow `no`. -/
def ABSENCES : List (Text × FilterAtom) :=
  [("date".toList, .noDate), ("deadline".toList, .noDeadline), ("label".toList, .noLabel)]

/-- The side of a date bound, and the date as it is written. -/
def lexSide (lower : Text) (before after : Text → FilterAtom) (text : Text) :
    Except FilterError ((Text → FilterAtom) × Text) :=
  if "before:".toList <+: rt.lower text then .ok (before, getFrom 7 text)
  else if "after:".toList <+: rt.lower text then .ok (after, getFrom 6 text)
  else .error (.unknownKeyword (lower ++ ' ' :: text))

/-- What follows `due` or `deadline`. -/
def lexBound (lower : Text) (before after : Text → FilterAtom) (chars : Text) :
    Except FilterError (FilterAtom × Text) := do
  let (text, rest) := takeUntilOperator chars
  let (build, rawDate) ← lexSide rt lower before after text
  let date := trim rawDate
  if isIsoDate date then .ok (build date, rest) else .error (.invalidDate date)

/-- What follows `no`. -/
def lexAbsence (next : Text) : Except FilterError (FilterAtom × Text) :=
  let (follow, after) := takeWord (skipWs next)
  match ABSENCES.lookup (rt.lower follow) with
  | some a => .ok (a, after)
  | none => .error (.unknownKeyword ("no ".toList ++ rt.lower follow))

/-- A word other than `search:`, in lower case, and what belongs to it. -/
def lexKeyword (lower next : Text) : Except FilterError (FilterAtom × Text) :=
  match KEYWORDS.lookup lower with
  | some a => .ok (a, next)
  | none =>
    if lower = "no".toList then lexAbsence rt next
    else if lower = "due".toList then lexBound rt lower .dueBefore .dueAfter next
    else if lower = "deadline".toList then lexBound rt lower .deadlineBefore .deadlineAfter next
    else .error (.unknownKeyword lower)

/-- One bare word, with the text or the word that belongs to it. -/
def lexWord (chars : Text) : Except FilterError (FilterAtom × Text) :=
  let (word, next) := takeWord chars
  if word = [] then .error (.unexpectedToken (chars.take 1))
  else
    let lower := rt.lower word
    if "search:".toList <+: lower then
      let (text, after) := takeUntilOperator chars
      let body := trim (getFrom 7 text)
      if body = [] then .error (.unexpectedEnd "search text".toList) else .ok (.search body, after)
    else lexKeyword rt lower next

/-- A word behind its sign. -/
def lexTagged (sign : Char) (build : Text → FilterAtom) (chars : Text) :
    Except FilterError (List Token × Text) :=
  let (word, next) := takeWord chars
  if word = [] then .error (.unknownKeyword [sign]) else .ok ([.atom (build word)], next)

/-- One round of the loop: the tokens it adds, and what is left. -/
def lexStep (c : Char) (rest : Text) : Except FilterError (List Token × Text) :=
  if c ∈ [' ', '\t', '\n', '\r'] then .ok ([], rest)
  else if c = '&' then .ok ([.amp], rest)
  else if c = '|' then .ok ([.pipe], rest)
  else if c = '!' then .ok ([.bang], rest)
  else if c = '(' then .ok ([.lparen], rest)
  else if c = ')' then .ok ([.rparen], rest)
  else if c = '@' then lexTagged c .label rest
  else if c = '#' then lexTagged c .project rest
  else do
    let (a, next) ← lexWord rt (c :: rest)
    .ok ([.atom a], next)

/-- The loop, for at most so many rounds. -/
def lexFrom : Nat → Text → Except FilterError (List Token)
  | 0, _ => .ok []
  | _ + 1, [] => .ok []
  | n + 1, c :: rest => do
    let (tokens, next) ← lexStep rt c rest
    let later ← lexFrom n next
    .ok (tokens ++ later)

def lex (input : Text) : Except FilterError (List Token) := lexFrom rt input.length input

/-! ## The lexer advances -/

section
variable {rt} {c : Char} {chars rest next : Text} {tokens : List Token} {a : FilterAtom} {n m : Nat}

theorem lexBound_suffix {lower : Text} {before after : Text → FilterAtom}
    (h : lexBound rt lower before after chars = .ok (a, next)) : next <:+ chars := by
  unfold lexBound takeUntilOperator at h
  dsimp only at h
  obtain ⟨⟨build, rawDate⟩, -, hdate⟩ := bind_eq_ok.mp h
  dsimp only at hdate
  split at hdate
  · cases hdate
    exact List.dropWhile_suffix _
  · cases hdate

theorem isTextChar_of_isWordChar (h : isWordChar c = true) : isTextChar c = true := by
  simp only [isWordChar, isTextChar, Bool.not_eq_true', Bool.or_eq_false_iff, decide_eq_false_iff_not,
    List.mem_cons, not_or] at h ⊢
  exact ⟨h.2.1, h.2.2.1, h.2.2.2.2.2.1, h.2.2.2.2.2.2⟩

theorem lexAbsence_suffix (h : lexAbsence rt rest = .ok (a, next)) : next <:+ rest := by
  unfold lexAbsence takeWord at h
  dsimp only at h
  split at h
  · cases h
    exact (List.dropWhile_suffix _).trans (List.dropWhile_suffix _)
  · cases h

theorem lexKeyword_suffix {lower : Text} (h : lexKeyword rt lower rest = .ok (a, next)) :
    next <:+ rest := by
  unfold lexKeyword at h
  split at h
  · cases h
    exact List.suffix_refl _
  split at h
  · exact lexAbsence_suffix h
  split at h
  · exact lexBound_suffix h
  split at h
  · exact lexBound_suffix h
  · cases h

theorem lexWord_suffix (h : lexWord rt (c :: rest) = .ok (a, next)) : next <:+ rest := by
  unfold lexWord takeWord takeUntilOperator at h
  dsimp only at h
  by_cases hc : isWordChar c = true
  · have hword : (c :: rest).dropWhile isWordChar = rest.dropWhile isWordChar :=
      List.dropWhile_cons_of_pos hc
    have htext : (c :: rest).dropWhile isTextChar = rest.dropWhile isTextChar :=
      List.dropWhile_cons_of_pos (isTextChar_of_isWordChar hc)
    rw [hword, htext] at h
    split at h
    · cases h
    split at h
    · split at h
      · cases h
      · cases h
        exact List.dropWhile_suffix _
    · exact (lexKeyword_suffix h).trans (List.dropWhile_suffix _)
  · rw [if_pos (List.takeWhile_cons_of_neg hc)] at h
    cases h

theorem lexTagged_suffix {build : Text → FilterAtom}
    (h : lexTagged c build rest = .ok (tokens, next)) : next <:+ rest := by
  unfold lexTagged at h
  dsimp only at h
  split at h
  · cases h
  · cases h
    exact List.dropWhile_suffix _

/-- A round takes at least its first character. -/
theorem lexStep_suffix (h : lexStep rt c rest = .ok (tokens, next)) : next <:+ rest := by
  unfold lexStep at h
  iterate 6
    split at h
    · cases h
      exact List.suffix_refl _
  split at h
  · exact lexTagged_suffix h
  split at h
  · exact lexTagged_suffix h
  · obtain ⟨⟨a, next'⟩, hword, h⟩ := bind_eq_ok.mp h
    cases h
    exact lexWord_suffix hword

theorem lexFrom_fuel (hn : chars.length ≤ n) (hm : chars.length ≤ m) :
    lexFrom rt n chars = lexFrom rt m chars := by
  induction n generalizing m chars with
  | zero =>
    obtain rfl := List.eq_nil_of_length_eq_zero (Nat.le_zero.mp hn)
    cases m <;> rfl
  | succ n ih =>
    cases chars with
    | nil => cases m <;> rfl
    | cons c rest =>
      cases m with
      | zero => exact absurd hm (Nat.not_succ_le_zero _)
      | succ m =>
        rw [lexFrom, lexFrom]
        cases hstep : lexStep rt c rest with
        | error e => rfl
        | ok read =>
          obtain ⟨tokens, next⟩ := read
          have hle : next.length ≤ rest.length := (lexStep_suffix hstep).length_le
          rw [List.length_cons] at hn hm
          have hrounds : lexFrom rt n next = lexFrom rt m next := ih (by omega) (by omega)
          exact congrArg (· >>= fun later => .ok (tokens ++ later)) hrounds

theorem lex_cons : lex rt (c :: rest) = (lexStep rt c rest >>= fun read =>
    lex rt read.2 >>= fun later => .ok (read.1 ++ later)) := by
  show (lexStep rt c rest >>= fun read => lexFrom rt rest.length read.2 >>= fun later =>
    .ok (read.1 ++ later)) = _
  cases hstep : lexStep rt c rest with
  | error e => rfl
  | ok read =>
    obtain ⟨tokens, next⟩ := read
    have hle : next.length ≤ rest.length := (lexStep_suffix hstep).length_le
    exact congrArg (· >>= fun later => .ok (tokens ++ later)) (lexFrom_fuel hle (Nat.le_refl _))

end

/-! ## The parser -/

mutual

/-- `levels` is what is left of `FILTER_DEPTH_MAX`. -/
def parseOr : Nat → Reader Token FilterError FilterExpr
  | 0, _ => .error .tooDeep
  | levels + 1, tokens => leftChain (parseAnd levels) .pipe .or tokens

def parseAnd : Nat → Reader Token FilterError FilterExpr
  | 0, _ => .error .tooDeep
  | levels + 1, tokens => leftChain (parseUnary levels) .amp .and tokens

def parseUnary : Nat → Reader Token FilterError FilterExpr
  | 0, _ => .error .tooDeep
  | levels + 1, .bang :: rest => do
    let (inner, rest) ← parseUnary levels rest
    .ok (.not inner, rest)
  | levels + 1, .lparen :: rest => do
    let (inner, rest) ← parseOr levels rest
    match rest with
    | .rparen :: rest => .ok (inner, rest)
    | _ => .error (.unexpectedEnd "')'".toList)
  | _ + 1, .atom a :: rest => .ok (.atom a, rest)
  | _ + 1, other :: _ => .error (.unexpectedToken (other.debug rt))
  | _ + 1, [] => .error (.unexpectedEnd "expression".toList)

end

def parse (input : Text) : Except FilterError FilterExpr :=
  if byteLen input > FILTER_INPUT_MAX_BYTES then .error (.tooLong (byteLen input))
  else do
    let tokens ← lex rt input
    if tokens = [] then .error .empty
    else
      let (expr, rest) ← parseOr rt FILTER_DEPTH_MAX tokens
      match rest with
      | [] => .ok expr
      | token :: _ => .error (.unexpectedToken (token.debug rt))

end Nanna.Tasks.Filter
