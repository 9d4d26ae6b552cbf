import Nanna.Lib.JsonScan

/-!
# String literals in a text

A text taken apart at its string literals, JSON or not: `outsideFrom` is what stands outside of them, with
their quotes, and `literalsFrom` is what stands inside of each. Nothing is lost (`assembleFrom_parts`).

`decode` reads the inside of a literal, escape by escape; `decode true` lets control characters stand for
themselves, which `decode false` refuses, as JSON does. Both are a `run` over the characters, with an
append lemma.
-/

namespace Nanna.Lib.Literal

open Nanna.Lib

/-! ## Where the literals are -/

/-- Where a scan for string literals stands. -/
inductive Place
  | outside
  | literal (escaped : Bool)
  deriving DecidableEq

/-- A backslash escapes the next character; a quote that is not escaped ends the literal. -/
def Place.next : Place → Char → Place
  | .outside, c => if c = '"' then .literal false else .outside
  | .literal true, _ => .literal false
  | .literal false, c => if c = '\\' then .literal true else if c = '"' then .outside else .literal false

/-- The text outside of the literals, with their quotes. -/
def outsideFrom : Place → Text → Text
  | _, [] => []
  | .outside, c :: cs => c :: outsideFrom (Place.next .outside c) cs
  | .literal escaped, c :: cs =>
    if Place.next (.literal escaped) c = .outside then c :: outsideFrom .outside cs
    else outsideFrom (Place.next (.literal escaped) c) cs

/-- The inside of each literal; the last may go on to the end of the text. -/
def literalsFrom : Place → Text → List Text
  | .outside, [] => []
  | .literal _, [] => [[]]
  | .outside, c :: cs => literalsFrom (Place.next .outside c) cs
  | .literal escaped, c :: cs =>
    if Place.next (.literal escaped) c = .outside then [] :: literalsFrom .outside cs
    else (literalsFrom (Place.next (.literal escaped) c) cs).modifyHead (c :: ·)

/-- The text again: a literal goes behind each quote that opens one. -/
def assembleFrom (opened : Bool) : Text → List Text → Text
  | [], _ => []
  | c :: cs, bodies =>
    if c = '"' then
      if opened then c :: assembleFrom false cs bodies
      else c :: bodies.headD [] ++ assembleFrom true cs bodies.tail
    else c :: assembleFrom opened cs bodies

variable {place : Place} {escaped escaped' : Bool} {s t : Text} {c : Char}

@[simp] theorem next_eq_outside : Place.next (.literal escaped) c = .outside ↔ escaped = false ∧ c = '"' := by
  cases escaped with
  | true => simp [Place.next]
  | false =>
    by_cases hslash : c = '\\'
    · subst hslash
      simp [Place.next]
    · simp [Place.next, hslash]

/-- A literal ends, or goes on. -/
theorem next_cases (escaped : Bool) (c : Char) : (escaped = false ∧ c = '"') ∨
    ∃ escaped', Place.next (.literal escaped) c = .literal escaped' := by
  cases hnext : Place.next (.literal escaped) c with
  | outside => exact .inl (next_eq_outside.mp hnext)
  | literal escaped' => exact .inr ⟨escaped', rfl⟩

theorem outsideFrom_inside (h : Place.next (.literal escaped) c = .literal escaped') :
    outsideFrom (.literal escaped) (c :: t) = outsideFrom (.literal escaped') t := by
  rw [outsideFrom, h, if_neg Place.noConfusion]

theorem literalsFrom_inside (h : Place.next (.literal escaped) c = .literal escaped') :
    literalsFrom (.literal escaped) (c :: t) =
      (literalsFrom (.literal escaped') t).modifyHead (c :: ·) := by
  rw [literalsFrom, h, if_neg Place.noConfusion]

theorem exists_literalsFrom_literal (escaped : Bool) (t : Text) :
    ∃ body bodies, literalsFrom (.literal escaped) t = body :: bodies := by
  induction t generalizing escaped with
  | nil => exact ⟨[], [], rfl⟩
  | cons c t ih =>
    rcases next_cases escaped c with ⟨rfl, rfl⟩ | ⟨escaped', hnext⟩
    · exact ⟨[], _, rfl⟩
    · obtain ⟨body, bodies, hrest⟩ := ih escaped'
      exact ⟨c :: body, bodies, by rw [literalsFrom_inside hnext, hrest, List.modifyHead_cons]⟩

/-- A text is its literals between the text outside of them. -/
theorem assembleFrom_parts (t : Text) :
    assembleFrom false (outsideFrom .outside t) (literalsFrom .outside t) = t ∧ ∀ escaped body bodies,
      literalsFrom (.literal escaped) t = body :: bodies →
        body ++ assembleFrom true (outsideFrom (.literal escaped) t) bodies = t := by
  induction t with
  | nil =>
    refine ⟨rfl, fun escaped body bodies h => ?_⟩
    cases h
    rfl
  | cons c t ih =>
    obtain ⟨houtside, hliteral⟩ := ih
    refine ⟨?_, fun escaped body bodies h => ?_⟩
    · by_cases hquote : c = '"'
      · subst hquote
        obtain ⟨body, bodies, hrest⟩ := exists_literalsFrom_literal false t
        show '"' :: (literalsFrom (.literal false) t).headD [] ++
          assembleFrom true (outsideFrom (.literal false) t) (literalsFrom (.literal false) t).tail = _
        rw [hrest]
        exact congrArg _ (hliteral false body bodies hrest)
      · rw [outsideFrom, literalsFrom, Place.next, if_neg hquote, assembleFrom, if_neg hquote, houtside]
    · rcases next_cases escaped c with ⟨rfl, rfl⟩ | ⟨escaped', hnext⟩
      · cases h
        exact congrArg ('"' :: ·) houtside
      · obtain ⟨body', bodies', hrest⟩ := exists_literalsFrom_literal escaped' t
        rw [literalsFrom_inside hnext, hrest, List.modifyHead_cons] at h
        cases h
        rw [outsideFrom_inside hnext]
        exact congrArg _ (hliteral escaped' body' _ hrest)

/-! ## Inside of a literal -/

/-- A text that begins and ends inside of one literal. -/
def Within (escaped : Bool) (s : Text) (escaped' : Bool) : Prop :=
  s.foldl Place.next (.literal escaped) = .literal escaped' ∧ outsideFrom (.literal escaped) s = []

instance instDecidableWithin : Decidable (Within escaped s escaped') := inferInstanceAs (Decidable (_ ∧ _))

theorem Within.cons (h : Within escaped (c :: s) escaped') : ∃ escaped'',
    Place.next (.literal escaped) c = .literal escaped'' ∧ Within escaped'' s escaped' := by
  rcases next_cases escaped c with ⟨rfl, rfl⟩ | ⟨escaped'', hnext⟩
  · cases h.2
  · refine ⟨escaped'', hnext, ?_, ?_⟩
    · rw [← hnext]
      exact h.1
    · rw [← outsideFrom_inside hnext]
      exact h.2

theorem Within.outsideFrom_append (h : Within escaped s escaped') :
    outsideFrom (.literal escaped) (s ++ t) = outsideFrom (.literal escaped') t := by
  induction s generalizing escaped with
  | nil => rw [List.nil_append, Place.literal.inj h.1]
  | cons c s ih =>
    obtain ⟨escaped'', hnext, hrest⟩ := h.cons
    rw [List.cons_append, outsideFrom_inside hnext, ih hrest]

theorem Within.literalsFrom_append (h : Within escaped s escaped') :
    literalsFrom (.literal escaped) (s ++ t) =
      (literalsFrom (.literal escaped') t).modifyHead (s ++ ·) := by
  induction s generalizing escaped with
  | nil =>
    obtain ⟨body, bodies, hrest⟩ := exists_literalsFrom_literal escaped' t
    rw [List.nil_append, Place.literal.inj h.1, hrest]
    rfl
  | cons c s ih =>
    obtain ⟨escaped'', hnext, hrest⟩ := h.cons
    obtain ⟨body, bodies, hparts⟩ := exists_literalsFrom_literal escaped' t
    rw [List.cons_append, literalsFrom_inside hnext, ih hrest, hparts]
    rfl

/-! ## Decoding -/

/-- Where an escape stands; `high` is the first half of a pair. -/
inductive Unescape
  | plain
  | slash
  | hex (digits code : Nat) (high : Option Nat)
  | pairSlash (high : Nat)
  | pairU (high : Nat)
  deriving DecidableEq

/-- After the backslash of an escape. -/
def Unescape.slashed : Unescape → Bool
  | .slash | .pairU _ => true
  | _ => false

/-- The characters with an escape of their own. -/
def simpleEscape (c : Char) : Option Char :=
  if c ∈ ['"', '\\', '/'] then some c
  else if c = 'b' then some (Char.ofNat 8)
  else if c = 'f' then some (Char.ofNat 12)
  else if c = 'n' then some '\n'
  else if c = 'r' then some '\r'
  else if c = 't' then some '\t'
  else none

/-- The fourth digit of an escape: a character, or one half of a pair. -/
def hexEnd (code : Nat) : Option Nat → Option (Unescape × Text)
  | some high =>
    if 0xDC00 ≤ code ∧ code ≤ 0xDFFF then
      some (.plain, [Char.ofNat (0x10000 + (high - 0xD800) * 0x400 + (code - 0xDC00))])
    else none
  | none =>
    if 0xD800 ≤ code ∧ code < 0xDC00 then some (.pairSlash code, [])
    else if 0xDC00 ≤ code ∧ code ≤ 0xDFFF then none
    else some (.plain, [Char.ofNat code])

/-- One character of a literal, and what it stands for; `raw` admits control characters. -/
def Unescape.step (raw : Bool) : Unescape → Char → Option (Unescape × Text)
  | .plain, c =>
    if c = '\\' then some (.slash, [])
    else if ! raw ∧ c.toNat < 0x20 then none
    else some (.plain, [c])
  | .slash, c => if c = 'u' then some (.hex 0 0 none, []) else (simpleEscape c).map fun c => (.plain, [c])
  | .hex digits code high, c =>
    match Scan.hexValue c with
    | none => none
    | some d =>
      if digits < 3 then some (.hex (digits + 1) (code * 16 + d) high, []) else hexEnd (code * 16 + d) high
  | .pairSlash high, c => if c = '\\' then some (.pairU high, []) else none
  | .pairU high, c => if c = 'u' then some (.hex 0 0 (some high), []) else none

def runFrom (raw : Bool) : Unescape → Text → Option (Unescape × Text)
  | st, [] => some (st, [])
  | st, c :: cs =>
    (st.step raw c).bind fun (st, out) => (runFrom raw st cs).map fun (st, rest) => (st, out ++ rest)

/-- The characters that the inside of a literal stands for. -/
def decode (raw : Bool) (body : Text) : Option Text :=
  match runFrom raw .plain body with
  | some (.plain, out) => some out
  | _ => none

variable {raw : Bool} {st st' : Unescape} {out : Text}

theorem runFrom_append : runFrom raw st (s ++ t) = (runFrom raw st s).bind fun (st, out) =>
    (runFrom raw st t).map fun (st, rest) => (st, out ++ rest) := by
  induction s generalizing st with
  | nil =>
    rw [List.nil_append, runFrom, Option.bind_some]
    dsimp only
    cases runFrom raw st t with
    | none => rfl
    | some next => rfl
  | cons c s ih =>
    rw [List.cons_append, runFrom, runFrom]
    cases st.step raw c with
    | none => rfl
    | some next =>
      obtain ⟨st', out⟩ := next
      simp only [Option.bind_some, ih]
      cases runFrom raw st' s with
      | none => rfl
      | some next =>
        obtain ⟨st'', out'⟩ := next
        simp only [Option.map_some, Option.bind_some]
        cases runFrom raw st'' t with
        | none => rfl
        | some next => simp

/-- Only bare control characters are read in two ways. -/
theorem step_raw (h : st = .plain → 0x20 ≤ c.toNat) : st.step false c = st.step true c := by
  cases st with
  | plain => simp [Unescape.step, Nat.not_lt.mpr (h rfl)]
  | _ => rfl

/-- A backslash that is not escaped begins an escape. -/
theorem slashed_step (h : st.step raw c = some (st', out)) :
    st'.slashed = (! st.slashed && c = '\\') := by
  cases st with
  | plain =>
    rw [Unescape.step] at h
    split at h
    · rename_i hslash
      cases h
      simp [Unescape.slashed, hslash]
    · rename_i hslash
      split at h
      · cases h
      · cases h
        simp [Unescape.slashed, hslash]
  | slash =>
    rw [Unescape.step] at h
    split at h
    · cases h
      rfl
    · obtain ⟨c', -, hc'⟩ := Option.map_eq_some_iff.mp h
      cases hc'
      rfl
  | hex digits code high =>
    rw [Unescape.step] at h
    split at h
    · cases h
    · rename_i d hd
      have hslash : c ≠ '\\' := (Scan.hexValue_bounds hd).2.2
      have hst : st'.slashed = false := by
        split at h
        · cases h
          rfl
        · unfold hexEnd at h
          split at h
          · split at h <;> cases h
            rfl
          · split at h
            · cases h
              rfl
            · split at h <;> cases h
              rfl
      simp [hst, hslash]
  | pairSlash high =>
    rw [Unescape.step] at h
    split at h
    · rename_i hslash
      cases h
      simp [Unescape.slashed, hslash]
    · cases h
  | pairU high =>
    rw [Unescape.step] at h
    split at h <;> cases h
    rfl

end Nanna.Lib.Literal
