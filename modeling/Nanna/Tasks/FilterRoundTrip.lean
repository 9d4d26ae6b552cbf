import Nanna.Tasks.FilterPrint

/-!
# The filter parser is exact

`parser_exact`: the parser accepts the inputs within its byte limit whose tokens the grammar derives
within the depth limit, with the expression that they derive; and an expression is parsed back from its
printed form when the form is within both limits.
-/

namespace Nanna.Tasks.Filter

open Nanna.Lib Nanna.Lib.Text

/-! ## Printed expressions -/

def Token.print : Token → Text
  | .amp => [' ', '&', ' ']
  | .pipe => [' ', '|', ' ']
  | .bang => ['!']
  | .lparen => ['(']
  | .rparen => [')']
  | .atom a => a.print

def printTokens (tokens : List Token) : Text := tokens.flatMap Token.print

/-- Tokens between parentheses, where these are needed. -/
def grouped (needed : Bool) (tokens : List Token) : List Token :=
  if needed then .lparen :: (tokens ++ [.rparen]) else tokens

/-- The tokens of an expression where a nonterminal is expected. -/
def FilterExpr.tokensAt : FilterExpr → Nonterminal → List Token
  | .atom a, _ => [.atom a]
  | .not inner, _ => .bang :: inner.tokensAt .unary
  | .and a b, k => grouped (k = .unary) (a.tokensAt .and ++ .amp :: b.tokensAt .unary)
  | .or a b, k => grouped (k ≠ .or) (a.tokensAt .or ++ .pipe :: b.tokensAt .and)

def FilterExpr.print (e : FilterExpr) : Text := printTokens (e.tokensAt .or)

/-- The levels of nesting that these tokens take. -/
def FilterExpr.levelsAt : FilterExpr → Nonterminal → Nat
  | .atom _, .unary => 1
  | .atom _, .and => 2
  | .atom _, .or => 3
  | .not inner, .unary => inner.levelsAt .unary + 1
  | .not inner, .and => inner.levelsAt .unary + 2
  | .not inner, .or => inner.levelsAt .unary + 3
  | .and a b, .and => max (a.levelsAt .and) (b.levelsAt .unary + 1)
  | .and a b, .or => max (a.levelsAt .and) (b.levelsAt .unary + 1) + 1
  | .and a b, .unary => max (a.levelsAt .and) (b.levelsAt .unary + 1) + 2
  | .or a b, .or => max (a.levelsAt .or) (b.levelsAt .and + 1)
  | .or a b, .unary => max (a.levelsAt .or) (b.levelsAt .and + 1) + 1
  | .or a b, .and => max (a.levelsAt .or) (b.levelsAt .and + 1) + 2

/-- Its atoms are printable. -/
def FilterExpr.Printable : FilterExpr → Prop
  | .atom a => a.Printable
  | .not inner => inner.Printable
  | .and a b | .or a b => a.Printable ∧ b.Printable

variable {rt : Runtime} {n : Nat} {k : Nonterminal} {ts tokens : List Token} {e a b : FilterExpr}
  {rest : Text}

/-! ## The levels are enough -/

theorem derives_amp {l r : List Token} {m : Nat} (ha : Derives .and n l a) (hb : Derives .unary m r b) :
    Derives .and (max n (m + 1)) (l ++ .amp :: r) (.and a b) := by
  obtain ⟨p, hp⟩ : ∃ p, max n (m + 1) = p + 1 := ⟨max n (m + 1) - 1, by omega⟩
  rw [hp]
  exact .amp (ha.mono (by omega)) (hb.mono (by omega))

theorem derives_pipe {l r : List Token} {m : Nat} (ha : Derives .or n l a) (hb : Derives .and m r b) :
    Derives .or (max n (m + 1)) (l ++ .pipe :: r) (.or a b) := by
  obtain ⟨p, hp⟩ : ∃ p, max n (m + 1) = p + 1 := ⟨max n (m + 1) - 1, by omega⟩
  rw [hp]
  exact .pipe (ha.mono (by omega)) (hb.mono (by omega))

/-- An expression is derived from its tokens. -/
theorem derives_tokensAt : Derives k (e.levelsAt k) (e.tokensAt k) e := by
  induction e generalizing k with
  | atom a =>
    cases k with
    | unary => exact .atom
    | and => exact .unary .atom
    | or => exact .and (.unary .atom)
  | not inner ih =>
    cases k with
    | unary => exact .not ih
    | and => exact .unary (.not ih)
    | or => exact .and (.unary (.not ih))
  | and a b iha ihb =>
    cases k with
    | and => exact derives_amp iha ihb
    | or => exact .and (derives_amp iha ihb)
    | unary => exact .group (.and (derives_amp iha ihb))
  | or a b iha ihb =>
    cases k with
    | or => exact derives_pipe iha ihb
    | unary => exact .group (derives_pipe iha ihb)
    | and => exact .unary (.group (derives_pipe iha ihb))

/-! ## The levels are needed -/

/-- With fewer levels the parser gives up. -/
def Deep (rt : Runtime) (k : Nonterminal) (levels : Nat) (tokens : List Token) : Prop :=
  ∀ n < levels, parseAt rt k n tokens = .error .tooDeep

variable {levels levelsA levelsB : Nat} {l r : List Token}

theorem deep_one : Deep rt k 1 tokens := by
  intro n hn
  obtain rfl := Nat.lt_one_iff.mp hn
  cases k <;> rfl

theorem Deep.and (h : Deep rt .unary levels tokens) : Deep rt .and (levels + 1) tokens := by
  intro n hn
  cases n with
  | zero => rfl
  | succ n => exact leftChain_error (h n (Nat.lt_of_succ_lt_succ hn))

theorem Deep.or (h : Deep rt .and levels tokens) : Deep rt .or (levels + 1) tokens := by
  intro n hn
  cases n with
  | zero => rfl
  | succ n => exact leftChain_error (h n (Nat.lt_of_succ_lt_succ hn))

theorem Deep.group (h : Deep rt .or levels tokens) : Deep rt .unary (levels + 1) (.lparen :: tokens) := by
  intro n hn
  cases n with
  | zero => rfl
  | succ n =>
    show (parseAt rt .or n tokens >>= _) = _
    rw [h n (Nat.lt_of_succ_lt_succ hn)]
    rfl

theorem Deep.not (h : Deep rt .unary levels tokens) : Deep rt .unary (levels + 1) (.bang :: tokens) := by
  intro n hn
  cases n with
  | zero => rfl
  | succ n =>
    show (parseAt rt .unary n tokens >>= _) = _
    rw [h n (Nat.lt_of_succ_lt_succ hn)]
    rfl

theorem deep_amp (ha : Derives .and levelsA l a) (hl : Deep rt .and levelsA (l ++ .amp :: r))
    (hr : Deep rt .unary levelsB r) : Deep rt .and (max levelsA (levelsB + 1)) (l ++ .amp :: r) := by
  intro n hn
  by_cases hlt : n < levelsA
  · exact hl n hlt
  cases n with
  | zero => rfl
  | succ n =>
    have hchain : LeftChain (Derives .unary n) .amp .and l a :=
      derives_and_iff.mp (ha.mono (Nat.le_of_not_lt hlt))
    exact leftChain_error_behind (parse_sound (k := .unary)) (parse_complete (k := .unary))
      (fun _ => trivial) hchain (hr n (by omega))

theorem deep_pipe (ha : Derives .or levelsA l a) (hl : Deep rt .or levelsA (l ++ .pipe :: r))
    (hr : Deep rt .and levelsB r) : Deep rt .or (max levelsA (levelsB + 1)) (l ++ .pipe :: r) := by
  intro n hn
  by_cases hlt : n < levelsA
  · exact hl n hlt
  cases n with
  | zero => rfl
  | succ n =>
    have hchain : LeftChain (Derives .and n) .pipe .or l a :=
      derives_or_iff.mp (ha.mono (Nat.le_of_not_lt hlt))
    exact leftChain_error_behind (parse_sound (k := .and)) (parse_complete (k := .and))
      (fun _ => ends_pipe) hchain (hr n (by omega))

theorem deep_tokensAt : Deep rt k (e.levelsAt k) (e.tokensAt k ++ tokens) := by
  induction e generalizing k tokens with
  | atom a =>
    cases k with
    | unary => exact deep_one
    | and => exact .and deep_one
    | or => exact .or (.and deep_one)
  | not inner ih =>
    cases k with
    | unary => exact .not ih
    | and => exact .and (.not ih)
    | or => exact .or (.and (.not ih))
  | and a b iha ihb =>
    have hand : ∀ tokens, Deep rt .and (max (a.levelsAt .and) (b.levelsAt .unary + 1))
        (a.tokensAt .and ++ .amp :: b.tokensAt .unary ++ tokens) := fun tokens => by
      rw [List.append_assoc]
      exact deep_amp derives_tokensAt iha ihb
    cases k with
    | and => exact hand tokens
    | or => exact .or (hand tokens)
    | unary =>
      have hgroup := (hand (.rparen :: tokens)).or.group
      rw [List.append_cons] at hgroup
      exact hgroup
  | or a b iha ihb =>
    have hor : ∀ tokens, Deep rt .or (max (a.levelsAt .or) (b.levelsAt .and + 1))
        (a.tokensAt .or ++ .pipe :: b.tokensAt .and ++ tokens) := fun tokens => by
      rw [List.append_assoc]
      exact deep_pipe derives_tokensAt iha ihb
    cases k with
    | or => exact hor tokens
    | unary =>
      have hgroup := (hor (.rparen :: tokens)).group
      rw [List.append_cons] at hgroup
      exact hgroup
    | and =>
      have hgroup := (hor (.rparen :: tokens)).group.and
      rw [List.append_cons] at hgroup
      exact hgroup

/-! ## The tokens are read back -/

theorem printTokens_append : printTokens (l ++ r) = printTokens l ++ printTokens r :=
  List.flatMap_append

theorem lex_sign {c : Char} {token : Token} (h : lexStep rt c rest = .ok ([token], rest)) :
    lex rt (c :: rest) = (lex rt rest >>= fun later => .ok (token :: later)) := by
  rw [lex_cons, h]
  rfl

/-- An operator between blanks. -/
theorem lex_operator {c : Char} {token : Token} (h : ∀ rest, lexStep rt c rest = .ok ([token], rest)) :
    lex rt (' ' :: c :: ' ' :: rest) = (lex rt rest >>= fun later => .ok (token :: later)) := by
  rw [lex_blank, lex_sign (h _), lex_blank]

/-- Tokens that derive are read back; what follows an atom ends it. -/
theorem lex_derives (h : Derives k n ts e) (hprint : e.Printable) (hrest : Follow rest) :
    lex rt (printTokens ts ++ rest) = (lex rt rest >>= fun later => .ok (ts ++ later)) := by
  induction h generalizing rest with
  | @atom n a =>
    show lex rt (a.print ++ [] ++ rest) = _
    rw [List.append_nil]
    exact lex_atom hprint hrest
  | not h ih =>
    show lex rt ('!' :: (printTokens _ ++ rest)) = _
    rw [lex_sign (by rfl), ih hprint hrest]
    cases lex rt rest <;> rfl
  | group h ih =>
    show lex rt ('(' :: (printTokens _ ++ rest)) = _
    rw [lex_sign (by rfl), printTokens_append, List.append_assoc]
    show (lex rt (printTokens _ ++ ')' :: rest) >>= _) = _
    rw [ih hprint (.inr (.inl ⟨rest, rfl⟩)), lex_sign (by rfl)]
    cases lex rt rest with
    | error e => rfl
    | ok later =>
      exact congrArg (fun ts => Except.ok (Token.lparen :: ts))
        (List.append_assoc _ [Token.rparen] later).symm
  | unary h ih => exact ih hprint hrest
  | and h ih => exact ih hprint hrest
  | @amp n l r a b hl hr ihl ihr =>
    rw [printTokens_append, List.append_assoc]
    show lex rt (printTokens l ++ ' ' :: '&' :: ' ' :: (printTokens r ++ rest)) = _
    rw [ihl hprint.1 (.inr (.inr ⟨'&', _, .inl rfl, rfl⟩)), lex_operator (fun _ => rfl),
      ihr hprint.2 hrest]
    cases lex rt rest with
    | error e => rfl
    | ok later => exact congrArg Except.ok (List.append_assoc l (.amp :: r) later).symm
  | @pipe n l r a b hl hr ihl ihr =>
    rw [printTokens_append, List.append_assoc]
    show lex rt (printTokens l ++ ' ' :: '|' :: ' ' :: (printTokens r ++ rest)) = _
    rw [ihl hprint.1 (.inr (.inr ⟨'|', _, .inr rfl, rfl⟩)), lex_operator (fun _ => rfl),
      ihr hprint.2 hrest]
    cases lex rt rest with
    | error e => rfl
    | ok later => exact congrArg Except.ok (List.append_assoc l (.pipe :: r) later).symm

theorem lex_print (hprint : e.Printable) : lex rt e.print = .ok (e.tokensAt .or) := by
  have hlex : lex rt (e.print ++ []) = _ := lex_derives derives_tokensAt hprint (.inl rfl)
  rw [List.append_nil] at hlex
  exact hlex.trans (congrArg Except.ok (List.append_nil _))

/-- A printed expression is parsed back, or is over one of the limits. -/
theorem parse_print (hprint : e.Printable) : parse rt e.print =
    if byteLen e.print > FILTER_INPUT_MAX_BYTES then .error (.tooLong (byteLen e.print))
    else if e.levelsAt .or ≤ FILTER_DEPTH_MAX then .ok e else .error .tooDeep := by
  by_cases hlong : byteLen e.print > FILTER_INPUT_MAX_BYTES
  · rw [if_pos hlong, parse, if_pos hlong]
  rw [if_neg hlong]
  by_cases hlevels : e.levelsAt .or ≤ FILTER_DEPTH_MAX
  · rw [if_pos hlevels]
    exact parse_eq_ok.mpr ⟨Nat.le_of_not_lt hlong, _, lex_print hprint, derives_tokensAt.mono hlevels⟩
  · have hdeep : parseOr rt FILTER_DEPTH_MAX (e.tokensAt .or ++ []) = .error .tooDeep :=
      deep_tokensAt (k := .or) _ (Nat.lt_of_not_le hlevels)
    have hne : e.tokensAt .or ≠ [] := fun hnil => not_derives_nil (hnil ▸ derives_tokensAt)
    rw [List.append_nil] at hdeep
    rw [if_neg hlevels, parse, if_neg hlong, lex_print hprint]
    show (if e.tokensAt .or = [] then _ else _) = _
    rw [if_neg hne, hdeep]
    rfl

/-- **Main result.** Within the byte limit the parser accepts what the grammar derives within the depth
limit, with the one expression that has these tokens; the lexer advances; and a printed expression is
parsed back exactly when it is within the limits. -/
theorem parser_exact :
    (∀ input e, parse rt input = .ok e ↔ byteLen input ≤ FILTER_INPUT_MAX_BYTES ∧
      ∃ tokens, lex rt input = .ok tokens ∧ Derives .or FILTER_DEPTH_MAX tokens e) ∧
    (∀ n m tokens e e', Derives .or n tokens e → Derives .or m tokens e' → e = e') ∧
    (∀ c rest tokens next, lexStep rt c rest = .ok (tokens, next) → next <:+ rest) ∧
    ∀ e : FilterExpr, e.Printable → (parse rt e.print = .ok e ↔
      byteLen e.print ≤ FILTER_INPUT_MAX_BYTES ∧ e.levelsAt .or ≤ FILTER_DEPTH_MAX) := by
  refine ⟨fun _ _ => parse_eq_ok, fun _ _ _ _ _ => Derives.unique, fun _ _ _ _ => lexStep_suffix, ?_⟩
  intro e hprint
  rw [parse_print hprint]
  by_cases hlong : byteLen e.print > FILTER_INPUT_MAX_BYTES
  · rw [if_pos hlong]
    exact ⟨nofun, fun h => absurd h.1 (Nat.not_le.mpr hlong)⟩
  rw [if_neg hlong]
  by_cases hlevels : e.levelsAt .or ≤ FILTER_DEPTH_MAX
  · rw [if_pos hlevels]
    exact ⟨fun _ => ⟨Nat.le_of_not_lt hlong, hlevels⟩, fun _ => rfl⟩
  · rw [if_neg hlevels]
    exact ⟨nofun, fun h => absurd h.2 hlevels⟩

/-! ## The limits -/

/-- Lower-casing on ASCII. -/
def asciiRuntime : Runtime := ⟨fun t => t.map (·.toLower), id, fun _ => rfl⟩

theorem lex_blanks : lex rt (List.replicate n ' ' ++ rest) = lex rt rest := by
  induction n with
  | zero => rfl
  | succ n ih => rw [List.replicate_succ, List.cons_append, lex_blank, ih]

/-- An atom behind more blanks than the limit has bytes. -/
def padded : Text := List.replicate FILTER_INPUT_MAX_BYTES ' ' ++ FilterAtom.print (.priority 1)

/-- `!!...!p1`. -/
def negated : Nat → FilterExpr
  | 0 => .atom (.priority 1)
  | n + 1 => .not (negated n)

theorem printable_negated : (negated n).Printable := by
  induction n with
  | zero => exact ⟨by decide, by decide⟩
  | succ n ih => exact ih

/-- Tokens that derive, but too many bytes; and an expression that takes too many levels. -/
theorem limits_refuse :
    (lex asciiRuntime padded = .ok [.atom (.priority 1)] ∧
      Derives .or FILTER_DEPTH_MAX [.atom (.priority 1)] (.atom (.priority 1)) ∧
      parse asciiRuntime padded = .error (.tooLong 4098)) ∧
    (negated 30).Printable ∧ parse asciiRuntime (negated 30).print = .error .tooDeep := by
  refine ⟨⟨?_, .and (.unary .atom), ?_⟩, printable_negated, ?_⟩
  · rw [padded, lex_blanks]
    decide
  · have hlen : byteLen padded = 4098 := by
      rw [padded, byteLen_append, byteLen, List.map_replicate, List.sum_replicate]
      decide
    rw [parse, if_pos (hlen ▸ by decide), hlen]
  · rw [parse_print printable_negated]
    decide

end Nanna.Tasks.Filter
