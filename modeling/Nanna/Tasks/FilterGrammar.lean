import Nanna.Tasks.Filter

/-!
# The filter's grammar

The grammar is `or ::= and | or '|' and`, `and ::= unary | and '&' unary` and
`unary ::= '!' unary | '(' or ')' | atom`, left recursive, with the levels of nesting that a derivation
takes (`Derives`). The parser accepts exactly what it derives in `FILTER_DEPTH_MAX` levels
(`parse_eq_ok`), and the expression is the only one with these tokens (`Derives.unique`).
-/

namespace Nanna.Tasks.Filter

open Nanna.Lib Nanna.Lib.Text

inductive Nonterminal
  | or
  | and
  | unary
deriving DecidableEq

/-- The tokens that an expression is written with, in so many levels. -/
inductive Derives : Nonterminal → Nat → List Token → FilterExpr → Prop
  | atom {n a} : Derives .unary (n + 1) [.atom a] (.atom a)
  | not {n ts e} : Derives .unary n ts e → Derives .unary (n + 1) (.bang :: ts) (.not e)
  | group {n ts e} : Derives .or n ts e → Derives .unary (n + 1) (.lparen :: (ts ++ [.rparen])) e
  | unary {n ts e} : Derives .unary n ts e → Derives .and (n + 1) ts e
  | amp {n l r a b} : Derives .and (n + 1) l a → Derives .unary n r b →
      Derives .and (n + 1) (l ++ .amp :: r) (.and a b)
  | and {n ts e} : Derives .and n ts e → Derives .or (n + 1) ts e
  | pipe {n l r a b} : Derives .or (n + 1) l a → Derives .and n r b →
      Derives .or (n + 1) (l ++ .pipe :: r) (.or a b)

variable {rt : Runtime} {n m : Nat} {k : Nonterminal} {ts rest : List Token} {e e' : FilterExpr}
  {input : Text}

theorem Derives.succ (h : Derives k n ts e) : Derives k (n + 1) ts e := by
  induction h with
  | atom => exact .atom
  | not h ih => exact .not ih
  | group h ih => exact .group ih
  | unary h ih => exact .unary ih
  | amp hl hr ihl ihr => exact .amp ihl ihr
  | and h ih => exact .and ih
  | pipe hl hr ihl ihr => exact .pipe ihl ihr

theorem Derives.mono (h : Derives k n ts e) (hle : n ≤ m) : Derives k m ts e := by
  induction hle with
  | refl => exact h
  | step _ ih => exact ih.succ

theorem derives_and_iff : Derives .and (n + 1) ts e ↔ LeftChain (Derives .unary n) .amp .and ts e := by
  constructor
  · intro h
    generalize hk : Nonterminal.and = k at h
    generalize hm : n + 1 = m at h
    induction h with
    | unary h =>
      obtain rfl := Nat.succ.inj hm
      exact .one h
    | amp hl hr ihl ihr =>
      obtain rfl := Nat.succ.inj hm
      exact .more (ihl hk hm) hr
    | atom | not | group | and | pipe => cases hk
  · intro h
    induction h with
    | one h => exact .unary h
    | more hl hr ih => exact .amp ih hr

theorem derives_or_iff : Derives .or (n + 1) ts e ↔ LeftChain (Derives .and n) .pipe .or ts e := by
  constructor
  · intro h
    generalize hk : Nonterminal.or = k at h
    generalize hm : n + 1 = m at h
    induction h with
    | and h =>
      obtain rfl := Nat.succ.inj hm
      exact .one h
    | pipe hl hr ihl ihr =>
      obtain rfl := Nat.succ.inj hm
      exact .more (ihl hk hm) hr
    | atom | not | group | unary | amp => cases hk
  · intro h
    induction h with
    | one h => exact .and h
    | more hl hr ih => exact .pipe ih hr

/-! ## The parser reads derivations -/

/-- The parser of a nonterminal. -/
def parseAt (rt : Runtime) : Nonterminal → Nat → Reader Token FilterError FilterExpr
  | .or => parseOr rt
  | .and => parseAnd rt
  | .unary => parseUnary rt

theorem parse_sound : (parseAt rt k n).Sound (Derives k n) := by
  induction n generalizing k with
  | zero =>
    intro ts e rest h
    cases k with
    | or => rw [parseAt, parseOr] at h; cases h
    | and => rw [parseAt, parseAnd] at h; cases h
    | unary => rw [parseAt, parseUnary] at h; cases h
  | succ n ih =>
    intro ts e rest h
    cases k with
    | or =>
      obtain ⟨pre, hpre, hchain⟩ := leftChain_sound (ih (k := .and)) h
      exact ⟨pre, hpre, derives_or_iff.mpr hchain⟩
    | and =>
      obtain ⟨pre, hpre, hchain⟩ := leftChain_sound (ih (k := .unary)) h
      exact ⟨pre, hpre, derives_and_iff.mpr hchain⟩
    | unary =>
      change parseUnary rt (n + 1) ts = .ok (e, rest) at h
      match ts with
      | .bang :: ts =>
        obtain ⟨⟨inner, rest'⟩, hinner, hok⟩ := bind_eq_ok.mp h
        cases hok
        obtain ⟨pre, rfl, hpre⟩ := ih (k := .unary) hinner
        exact ⟨.bang :: pre, rfl, .not hpre⟩
      | .lparen :: ts =>
        obtain ⟨⟨inner, rest'⟩, hinner, hok⟩ := bind_eq_ok.mp h
        obtain ⟨pre, rfl, hpre⟩ := ih (k := .or) hinner
        match rest' with
        | .rparen :: rest' =>
          cases hok
          refine ⟨.lparen :: (pre ++ [.rparen]), ?_, .group hpre⟩
          rw [List.cons_append, List.append_assoc]
          rfl
        | [] | .amp :: _ | .pipe :: _ | .bang :: _ | .lparen :: _ | .atom _ :: _ => cases hok
      | .atom a :: ts =>
        cases h
        exact ⟨[.atom a], rfl, .atom⟩
      | [] | .amp :: _ | .pipe :: _ | .rparen :: _ => cases h

/-- What the parser of a nonterminal must not find behind it. -/
def Ends : Nonterminal → List Token → Prop
  | .or => fun rest => (True ∧ ∀ rest', rest ≠ .amp :: rest') ∧ ∀ rest', rest ≠ .pipe :: rest'
  | .and => fun rest => True ∧ ∀ rest', rest ≠ .amp :: rest'
  | .unary => fun _ => True

theorem ends_pipe : Ends .and (.pipe :: rest) := ⟨trivial, nofun⟩

theorem ends_rparen : Ends k (.rparen :: rest) := by
  cases k with
  | or => exact ⟨⟨trivial, nofun⟩, nofun⟩
  | and => exact ⟨trivial, nofun⟩
  | unary => trivial

theorem ends_nil : Ends k [] := by
  cases k with
  | or => exact ⟨⟨trivial, nofun⟩, nofun⟩
  | and => exact ⟨trivial, nofun⟩
  | unary => trivial

theorem parse_complete : (parseAt rt k n).Complete (Derives k n) (Ends k) := by
  induction n generalizing k with
  | zero => intro ts e rest h; cases h
  | succ n ih =>
    intro ts e rest h hends
    cases k with
    | or =>
      exact leftChain_complete (parse_sound (k := .and)) ih (fun _ => ends_pipe)
        (derives_or_iff.mp h) hends
    | and =>
      exact leftChain_complete (parse_sound (k := .unary)) ih (fun _ => trivial)
        (derives_and_iff.mp h) hends
    | unary =>
      cases h with
      | atom => rfl
      | @not _ ts e h =>
        have hinner : parseUnary rt n (ts ++ rest) = .ok (e, rest) := ih (k := .unary) h trivial
        show (parseUnary rt n (ts ++ rest) >>= _) = _
        rw [hinner]
        rfl
      | @group _ ts e h =>
        have hinner : parseOr rt n (ts ++ .rparen :: rest) = .ok (e, .rparen :: rest) :=
          ih (k := .or) h ends_rparen
        rw [List.cons_append, List.append_assoc]
        show (parseOr rt n (ts ++ .rparen :: rest) >>= _) = _
        rw [hinner]
        rfl

/-- The grammar is unambiguous. -/
theorem Derives.unique (h : Derives k n ts e) (h' : Derives k m ts e') : e = e' := by
  let rt : Runtime := ⟨fun t => t.map Char.toLower, id, fun _ => rfl⟩
  have hread : parseAt rt k (max n m) (ts ++ []) = .ok (e, []) :=
    parse_complete (h.mono (Nat.le_max_left n m)) ends_nil
  have hread' : parseAt rt k (max n m) (ts ++ []) = .ok (e', []) :=
    parse_complete (h'.mono (Nat.le_max_right n m)) ends_nil
  rw [hread] at hread'
  cases hread'
  rfl

theorem not_derives_nil : ¬ Derives k n [] e := by
  intro h
  generalize hts : ([] : List Token) = ts at h
  induction h with
  | atom | not | group => cases hts
  | unary h ih | and h ih => exact ih hts
  | amp | pipe => exact absurd hts.symm (List.append_ne_nil_of_right_ne_nil _ (List.cons_ne_nil _ _))

/-- The parser accepts the inputs of at most so many bytes whose tokens derive, and nothing else. -/
theorem parse_eq_ok : parse rt input = .ok e ↔ byteLen input ≤ FILTER_INPUT_MAX_BYTES ∧
    ∃ tokens, lex rt input = .ok tokens ∧ Derives .or FILTER_DEPTH_MAX tokens e := by
  unfold parse
  by_cases hlen : byteLen input > FILTER_INPUT_MAX_BYTES
  · rw [if_pos hlen]
    exact ⟨nofun, fun h => absurd h.1 (Nat.not_le.mpr hlen)⟩
  rw [if_neg hlen, bind_eq_ok]
  constructor
  · rintro ⟨tokens, hlex, h⟩
    refine ⟨Nat.le_of_not_lt hlen, tokens, hlex, ?_⟩
    split at h
    · cases h
    obtain ⟨⟨expr, rest⟩, hparse, hrest⟩ := bind_eq_ok.mp h
    have hor : parseAt rt .or FILTER_DEPTH_MAX tokens = .ok (expr, rest) := hparse
    obtain ⟨pre, rfl, hpre⟩ := parse_sound hor
    cases rest with
    | nil =>
      cases hrest
      rwa [List.append_nil]
    | cons token rest => cases hrest
  · rintro ⟨-, tokens, hlex, h⟩
    refine ⟨tokens, hlex, ?_⟩
    have hread : parseOr rt FILTER_DEPTH_MAX (tokens ++ []) = .ok (e, []) :=
      parse_complete (k := .or) h ends_nil
    rw [List.append_nil] at hread
    rw [if_neg fun hnil => not_derives_nil (hnil ▸ h), hread]
    rfl

end Nanna.Tasks.Filter
