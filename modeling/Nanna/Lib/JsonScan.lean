import Nanna.Lib.Text

/-!
# Reading JSON with a stack

The JSON texts, as what one pass with a stack of open brackets accepts: `Scan.step` reads a character,
`Scan.run` a text, and `Scan.accepts` asks that the value is complete and nothing is open. A text has at
most one run, so what a text and a continuation give is read off the state between them
(`run_append`), and the brackets that close a state are those of its stack, innermost first
(`run_closers`).

Numbers and literals are words, taken to their end; `scalar` says which of them are values. `limit`
bounds the depth.
-/

namespace Nanna.Lib

namespace Scan

inductive Frame
  | arr
  | obj
deriving DecidableEq

/-- Where a string literal stands: between two characters, or inside an escape. -/
inductive Body
  | plain
  | escape
  /-- Digits read of a `\u` escape, and their value; `low` after the first half of a pair. -/
  | hex (digits code : Nat) (low : Bool)
  | pairSlash
  | pairU
deriving DecidableEq

inductive Mode
  | value
  | firstElement
  | firstKey
  | key
  | colon
  | after
  | str (isKey : Bool) (body : Body)
  | word (text : Text)
deriving DecidableEq

structure State where
  stack : List Frame
  mode : Mode
deriving DecidableEq

/-- Whitespace of JSON. -/
def isBlank (c : Char) : Bool := c = ' ' || c = '\t' || c = '\n' || c = '\r'

/-- The characters of numbers and literals. -/
def isWordChar (c : Char) : Bool := c.isAlphanum || c = '+' || c = '-' || c = '.'

def hexValue (c : Char) : Option Nat :=
  if '0' ≤ c ∧ c ≤ '9' then some (c.toNat - '0'.toNat)
  else if 'a' ≤ c ∧ c ≤ 'f' then some (c.toNat - 'a'.toNat + 10)
  else if 'A' ≤ c ∧ c ≤ 'F' then some (c.toNat - 'A'.toNat + 10)
  else none

/-- The fourth digit of an escape: a character, or one half of a pair in its place. -/
def hexEnd (code : Nat) (low : Bool) : Option Body :=
  if low then if 0xDC00 ≤ code ∧ code ≤ 0xDFFF then some .plain else none
  else if 0xD800 ≤ code ∧ code < 0xDC00 then some .pairSlash
  else if 0xDC00 ≤ code ∧ code ≤ 0xDFFF then none
  else some .plain

/-- A character of a string literal; `some none` at its end. -/
def bodyStep : Body → Char → Option (Option Body)
  | .plain, c =>
    if c = '"' then some none
    else if c = '\\' then some (some .escape)
    else if c.toNat < 0x20 then none
    else some (some .plain)
  | .escape, c =>
    if c = 'u' then some (some (.hex 0 0 false))
    else if c ∈ ['"', '\\', '/', 'b', 'f', 'n', 'r', 't'] then some (some .plain)
    else none
  | .hex digits code low, c =>
    match hexValue c with
    | none => none
    | some d =>
      if digits < 3 then some (some (.hex (digits + 1) (code * 16 + d) low))
      else (hexEnd (code * 16 + d) low).map some
  | .pairSlash, c => if c = '\\' then some (some .pairU) else none
  | .pairU, c => if c = 'u' then some (some (.hex 0 0 true)) else none

section

variable (limit : Nat) (scalar : Text → Bool)

/-- The first character of a value. -/
def startValue (stack : List Frame) (c : Char) : Option State :=
  if c = '"' then some ⟨stack, .str false .plain⟩
  else if c = '[' then if stack.length < limit then some ⟨.arr :: stack, .firstElement⟩ else none
  else if c = '\x7b' then if stack.length < limit then some ⟨.obj :: stack, .firstKey⟩ else none
  else if isWordChar c then some ⟨stack, .word [c]⟩
  else none

/-- The closer of the innermost bracket. -/
def close : List Frame → Char → Option State
  | .arr :: stack, c => if c = ']' then some ⟨stack, .after⟩ else none
  | .obj :: stack, c => if c = '\x7d' then some ⟨stack, .after⟩ else none
  | [], _ => none

/-- What follows a value. -/
def afterValue (stack : List Frame) (c : Char) : Option State :=
  if isBlank c then some ⟨stack, .after⟩
  else if c = ',' then
    match stack with
    | .arr :: _ => some ⟨stack, .value⟩
    | .obj :: _ => some ⟨stack, .key⟩
    | [] => none
  else close stack c

def step (σ : State) (c : Char) : Option State :=
  match σ.mode with
  | .value => if isBlank c then some σ else startValue limit σ.stack c
  | .firstElement =>
    if isBlank c then some σ
    else if c = ']' then close σ.stack c
    else startValue limit σ.stack c
  | .firstKey =>
    if isBlank c then some σ
    else if c = '"' then some ⟨σ.stack, .str true .plain⟩
    else if c = '\x7d' then close σ.stack c
    else none
  | .key =>
    if isBlank c then some σ
    else if c = '"' then some ⟨σ.stack, .str true .plain⟩
    else none
  | .colon =>
    if isBlank c then some σ
    else if c = ':' then some ⟨σ.stack, .value⟩
    else none
  | .after => afterValue σ.stack c
  | .str isKey body =>
    match bodyStep body c with
    | none => none
    | some none => some ⟨σ.stack, if isKey then .colon else .after⟩
    | some (some body) => some ⟨σ.stack, .str isKey body⟩
  | .word text =>
    if isWordChar c then some ⟨σ.stack, .word (text ++ [c])⟩
    else if scalar text then afterValue σ.stack c
    else none

def run : State → Text → Option State
  | σ, [] => some σ
  | σ, c :: cs => (step limit scalar σ c).bind fun σ => run σ cs

/-- A value has just ended. -/
def State.ended (σ : State) : Bool :=
  match σ.mode with
  | .after => true
  | .word text => scalar text
  | _ => false

/-- The text is one JSON value. -/
def accepts (t : Text) : Bool :=
  match run limit scalar ⟨[], .value⟩ t with
  | some σ => σ.stack.isEmpty && σ.ended scalar
  | none => false

end

def Frame.opener : Frame → Char
  | .arr => '['
  | .obj => '\x7b'

/-- The closer of a bracket. -/
def Frame.closer : Frame → Char
  | .arr => ']'
  | .obj => '\x7d'

section

variable {limit : Nat} {scalar : Text → Bool} {σ σ' : State} {s t : Text} {c : Char} {stack : List Frame}

theorem run_append : run limit scalar σ (s ++ t) = (run limit scalar σ s).bind fun σ => run limit scalar σ t := by
  induction s generalizing σ with
  | nil => rfl
  | cons c s ih =>
    rw [List.cons_append, run, run]
    cases step limit scalar σ c with
    | none => rfl
    | some τ => exact ih

theorem run_cons_eq_some : run limit scalar σ (c :: t) = some σ' ↔
    ∃ τ, step limit scalar σ c = some τ ∧ run limit scalar τ t = some σ' := Option.bind_eq_some_iff

theorem accepts_iff : accepts limit scalar t = true ↔
    ∃ σ, run limit scalar ⟨[], .value⟩ t = some σ ∧ σ.stack = [] ∧ σ.ended scalar = true := by
  unfold accepts
  cases run limit scalar ⟨[], .value⟩ t with
  | none => simp
  | some σ => simp

/-- A prefix of an accepted text has a run. -/
theorem exists_run (h : accepts limit scalar (s ++ t) = true) : ∃ σ, run limit scalar ⟨[], .value⟩ s = some σ := by
  obtain ⟨τ, hrun, -⟩ := accepts_iff.mp h
  rw [run_append] at hrun
  obtain ⟨σ, hσ, -⟩ := Option.bind_eq_some_iff.mp hrun
  exact ⟨σ, hσ⟩

theorem not_isBlank_closer (f : Frame) : isBlank f.closer = false ∧ isWordChar f.closer = false := by
  cases f <;> decide

theorem close_eq_some (f : Frame) : close stack f.closer = some σ' ↔
    ∃ rest, stack = f :: rest ∧ σ' = ⟨rest, .after⟩ := by
  cases f <;> rcases stack with _ | ⟨_ | _, rest⟩ <;>
    simp [close, Frame.closer, eq_comm]

/-- After a value, a closer closes the innermost bracket. -/
theorem step_closer (hended : σ.ended scalar = true) (f : Frame) :
    step limit scalar σ f.closer = close σ.stack f.closer := by
  obtain ⟨hblank, hword⟩ := not_isBlank_closer f
  have hcomma : f.closer ≠ ',' := by cases f <;> decide
  have hafter : afterValue σ.stack f.closer = close σ.stack f.closer := by
    unfold afterValue
    rw [if_neg (by simp [hblank]), if_neg hcomma]
  unfold State.ended at hended
  unfold step
  split at hended
  · rename_i hmode
    rw [hmode]
    exact hafter
  · rename_i text hmode
    rw [hmode]
    simp only [hword, hended, Bool.false_eq_true, if_false, if_true]
    exact hafter
  · cases hended

/-- **The closers.** After a value, what closes everything is the closers of the stack, innermost
first. -/
theorem run_closers (frames : List Frame) : ∀ {σ : State}, σ.ended scalar = true →
    ((∃ τ, run limit scalar σ (frames.map Frame.closer) = some τ ∧ τ.stack = [] ∧ τ.ended scalar = true) ↔
      σ.stack = frames) := by
  induction frames with
  | nil =>
    intro σ hended
    constructor
    · rintro ⟨τ, hrun, hempty, -⟩
      cases hrun
      exact hempty
    · exact fun hempty => ⟨σ, rfl, hempty, hended⟩
  | cons f frames ih =>
    intro σ hended
    have hafter : ∀ rest, State.ended scalar ⟨rest, .after⟩ = true := fun _ => rfl
    constructor
    · rintro ⟨τ, hrun, hempty, hτ⟩
      obtain ⟨ρ, hstep, hrest⟩ := run_cons_eq_some.mp hrun
      rw [step_closer hended, close_eq_some] at hstep
      obtain ⟨rest, hstack, rfl⟩ := hstep
      have hrest : rest = frames := (ih (hafter rest)).mp ⟨τ, hrest, hempty, hτ⟩
      rw [hstack, hrest]
    · intro hstack
      obtain ⟨τ, hrest, hempty, hτ⟩ := (ih (hafter frames)).mpr rfl
      refine ⟨τ, run_cons_eq_some.mpr ⟨⟨frames, .after⟩, ?_, hrest⟩, hempty, hτ⟩
      rw [step_closer hended, close_eq_some]
      exact ⟨frames, hstack, rfl⟩

end

/-! ## What a scan for brackets sees -/

/-- Inside a string literal. -/
def State.inString (σ : State) : Bool :=
  match σ.mode with
  | .str _ _ => true
  | _ => false

def Body.slashed : Body → Bool
  | .escape | .pairU => true
  | _ => false

/-- After the backslash of an escape. -/
def State.escaped (σ : State) : Bool :=
  match σ.mode with
  | .str _ body => body.slashed
  | _ => false

/-- What a character outside of strings does to the open brackets. -/
def bracket (stack : List Frame) (c : Char) : Option (List Frame) :=
  if c = '[' then some (.arr :: stack)
  else if c = '\x7b' then some (.obj :: stack)
  else if c = ']' then
    match stack with
    | .arr :: stack => some stack
    | _ => none
  else if c = '\x7d' then
    match stack with
    | .obj :: stack => some stack
    | _ => none
  else some stack

section

variable {limit : Nat} {scalar : Text → Bool} {σ τ : State} {c : Char} {stack : List Frame} {body : Body}

theorem hexValue_bounds {d : Nat} (h : hexValue c = some d) : 48 ≤ c.toNat ∧ c.toNat ≤ 102 ∧ c ≠ '\\' := by
  have hrange : (48 ≤ c.toNat ∧ c.toNat ≤ 57) ∨ (97 ≤ c.toNat ∧ c.toNat ≤ 102) ∨
      (65 ≤ c.toNat ∧ c.toNat ≤ 70) := by
    unfold hexValue at h
    split at h
    · rename_i hc
      exact .inl hc
    · split at h
      · rename_i hc
        exact .inr (.inl hc)
      · split at h
        · rename_i hc
          exact .inr (.inr hc)
        · cases h
  refine ⟨by omega, by omega, ?_⟩
  rintro rfl
  revert hrange
  decide

theorem bodyStep_end (h : bodyStep body c = some none) : body = .plain ∧ c = '"' := by
  cases body with
  | plain =>
    rw [bodyStep] at h
    split at h
    · exact ⟨rfl, ‹_›⟩
    · split at h
      · cases h
      · split at h <;> cases h
  | escape =>
    rw [bodyStep] at h
    split at h
    · cases h
    · split at h <;> cases h
  | hex digits code low =>
    rw [bodyStep] at h
    split at h
    · cases h
    · split at h
      · cases h
      · simp at h
  | pairSlash | pairU =>
    rw [bodyStep] at h
    split at h <;> cases h

theorem bodyStep_next {next : Body} (h : bodyStep body c = some (some next)) :
    (body.slashed || c ≠ '"') = true ∧ next.slashed = (! body.slashed && c = '\\') ∧ 0x20 ≤ c.toNat := by
  cases body with
  | plain =>
    rw [bodyStep] at h
    split at h
    · cases h
    · split at h
      · rename_i hc
        subst hc
        cases h
        decide
      · split at h
        · cases h
        · rename_i hquote hslash hcontrol
          cases h
          exact ⟨by simpa using Or.inr hquote, by simp [Body.slashed, hslash], Nat.le_of_not_lt hcontrol⟩
  | escape =>
    rw [bodyStep] at h
    split at h
    · rename_i hc
      subst hc
      cases h
      decide
    · split at h
      · rename_i hc
        cases h
        refine ⟨rfl, rfl, ?_⟩
        simp only [List.mem_cons, List.not_mem_nil, or_false] at hc
        rcases hc with rfl | rfl | rfl | rfl | rfl | rfl | rfl | rfl <;> decide
      · cases h
  | hex digits code low =>
    rw [bodyStep] at h
    split at h
    · cases h
    · rename_i d hd
      obtain ⟨hlow, hhigh, hslash⟩ := hexValue_bounds hd
      have hquote : c ≠ '"' := by
        rintro rfl
        revert hlow
        decide
      have hnext : next.slashed = false := by
        split at h
        · cases h
          rfl
        · obtain ⟨body, hend, hbody⟩ := Option.map_eq_some_iff.mp h
          cases hbody
          unfold hexEnd at hend
          split at hend
          · split at hend <;> cases hend
            rfl
          · split at hend
            · cases hend
              rfl
            · split at hend <;> cases hend
              rfl
      refine ⟨?_, ?_, by omega⟩
      · simpa using Or.inr hquote
      · simp [hnext, hslash]
  | pairSlash | pairU =>
    rw [bodyStep] at h
    split at h
    · rename_i hc
      subst hc
      cases h
      decide
    · cases h

/-- A step inside a string, as one that counts brackets sees it. -/
theorem step_inString (h : step limit scalar σ c = some τ) (hin : σ.inString = true) :
    τ.stack = σ.stack ∧ τ.inString = (σ.escaped || c ≠ '"') ∧ τ.escaped = (! σ.escaped && c = '\\') ∧
      0x20 ≤ c.toNat := by
  obtain ⟨stack, mode⟩ := σ
  cases mode with
  | str isKey body =>
    unfold step at h
    dsimp only at h
    split at h
    · cases h
    · rename_i hbody
      obtain ⟨rfl, rfl⟩ := bodyStep_end hbody
      cases h
      cases isKey <;> exact ⟨rfl, rfl, rfl, by decide⟩
    · rename_i next hbody
      obtain ⟨hopen, hslash, hcontrol⟩ := bodyStep_next hbody
      cases h
      exact ⟨rfl, hopen.symm, hslash, hcontrol⟩
  | _ => cases hin

/-- A character outside of strings, as a scan that counts brackets sees it. -/
def Outside (stack : List Frame) (c : Char) (τ : State) : Prop :=
  bracket stack c = some τ.stack ∧ τ.inString = decide (c = '"') ∧ τ.escaped = false

theorem outside_of_not_bracket {mode : Mode} (hc : c ∉ ['"', '[', '\x7b', ']', '\x7d'])
    (hmode : State.inString ⟨stack, mode⟩ = false) : Outside stack c ⟨stack, mode⟩ := by
  simp only [List.mem_cons, List.not_mem_nil, or_false, not_or] at hc
  obtain ⟨hquote, harr, hobj, harr', hobj'⟩ := hc
  refine ⟨by simp [bracket, harr, hobj, harr', hobj'], by simp [hmode, hquote], ?_⟩
  cases mode with
  | str isKey body => cases hmode
  | _ => rfl

theorem not_bracket_of_isBlank (h : isBlank c = true) : c ∉ ['"', '[', '\x7b', ']', '\x7d'] := by
  intro hc
  simp only [List.mem_cons, List.not_mem_nil, or_false] at hc
  rcases hc with rfl | rfl | rfl | rfl | rfl <;> cases h

theorem not_bracket_of_isWordChar (h : isWordChar c = true) : c ∉ ['"', '[', '\x7b', ']', '\x7d'] := by
  intro hc
  simp only [List.mem_cons, List.not_mem_nil, or_false] at hc
  rcases hc with rfl | rfl | rfl | rfl | rfl <;> revert h <;> decide

/-- A blank leaves the state as it is. -/
theorem outside_of_blank {mode : Mode} {rest : Option State} (hmode : State.inString ⟨stack, mode⟩ = false)
    (h : (if isBlank c then some ⟨stack, mode⟩ else rest) = some τ) (hrest : rest = some τ → Outside stack c τ) :
    Outside stack c τ := by
  split at h
  · rename_i hblank
    cases h
    exact outside_of_not_bracket (not_bracket_of_isBlank hblank) hmode
  · exact hrest h

/-- A character that the mode expects leads on. -/
theorem outside_of_char {d : Char} {next : State} {rest : Option State} (hnext : Outside stack d next)
    (h : (if c = d then some next else rest) = some τ) (hrest : rest = some τ → Outside stack c τ) :
    Outside stack c τ := by
  split at h
  · rename_i hc
    subst hc
    cases h
    exact hnext
  · exact hrest h

theorem outside_startValue (h : startValue limit stack c = some τ) : Outside stack c τ := by
  unfold startValue at h
  refine outside_of_char ⟨rfl, rfl, rfl⟩ h ?_
  clear h
  intro h
  split at h
  · rename_i hc
    subst hc
    split at h <;> cases h
    exact ⟨rfl, rfl, rfl⟩
  · split at h
    · rename_i hc
      subst hc
      split at h <;> cases h
      exact ⟨rfl, rfl, rfl⟩
    · split at h
      · rename_i hword
        cases h
        exact outside_of_not_bracket (not_bracket_of_isWordChar hword) rfl
      · cases h

theorem close_spec (h : close stack c = some τ) : Outside stack c τ ∧ τ.mode = .after := by
  rcases stack with _ | ⟨_ | _, rest⟩
  · cases h
  all_goals
    rw [close] at h
    split at h
    · rename_i hc
      subst hc
      cases h
      exact ⟨⟨rfl, rfl, rfl⟩, rfl⟩
    · cases h

theorem outside_afterValue (h : afterValue stack c = some τ) : Outside stack c τ := by
  refine outside_of_blank rfl h ?_
  clear h
  intro h
  split at h
  · rename_i hc
    subst hc
    split at h <;> cases h <;> exact ⟨rfl, rfl, rfl⟩
  · exact (close_spec h).1

/-- A step outside of strings, as one that counts brackets sees it. -/
theorem step_outside (h : step limit scalar σ c = some τ) (hout : σ.inString = false) :
    Outside σ.stack c τ := by
  obtain ⟨stack, mode⟩ := σ
  unfold step at h
  cases mode with
  | str isKey body => cases hout
  | value => exact outside_of_blank rfl h outside_startValue
  | firstElement =>
    refine outside_of_blank rfl h fun h => ?_
    split at h
    · exact (close_spec h).1
    · exact outside_startValue h
  | firstKey =>
    refine outside_of_blank rfl h fun h => outside_of_char ⟨rfl, rfl, rfl⟩ h fun h => ?_
    split at h
    · exact (close_spec h).1
    · cases h
  | key => exact outside_of_blank rfl h fun h => outside_of_char ⟨rfl, rfl, rfl⟩ h nofun
  | colon => exact outside_of_blank rfl h fun h => outside_of_char ⟨rfl, rfl, rfl⟩ h nofun
  | after => exact outside_afterValue h
  | word text =>
    dsimp only at h
    split at h
    · rename_i hword
      cases h
      exact outside_of_not_bracket (not_bracket_of_isWordChar hword) rfl
    · split at h
      · exact outside_afterValue h
      · cases h

/-- A character outside of strings opens a bracket, closes the innermost one or leaves them. -/
theorem bracket_inv {stack' : List Frame} (h : bracket stack c = some stack') :
    (∃ f : Frame, c = f.opener ∧ stack' = f :: stack) ∨ (∃ f : Frame, c = f.closer ∧ stack = f :: stack') ∨
      ((∀ f : Frame, c ≠ f.opener ∧ c ≠ f.closer) ∧ stack' = stack) := by
  unfold bracket at h
  split at h
  · rename_i hc
    exact .inl ⟨.arr, hc, (Option.some.inj h).symm⟩
  split at h
  · rename_i hc
    exact .inl ⟨.obj, hc, (Option.some.inj h).symm⟩
  split at h
  · rename_i hc
    split at h <;> cases h
    exact .inr (.inl ⟨.arr, hc, rfl⟩)
  split at h
  · rename_i hc
    split at h <;> cases h
    exact .inr (.inl ⟨.obj, hc, rfl⟩)
  · rename_i harr hobj harr' hobj'
    refine .inr (.inr ⟨fun f => ?_, (Option.some.inj h).symm⟩)
    cases f with
    | arr => exact ⟨harr, harr'⟩
    | obj => exact ⟨hobj, hobj'⟩

theorem opener_ne_closer (f g : Frame) : f.opener ≠ g.closer := by
  cases f <;> cases g <;> decide

theorem opener_ne_opener {f g : Frame} (h : f ≠ g) : f.opener ≠ g.opener := by
  cases f <;> cases g <;> first | exact absurd rfl h | decide

theorem closer_ne_closer {f g : Frame} (h : f ≠ g) : f.closer ≠ g.closer := by
  cases f <;> cases g <;> first | exact absurd rfl h | decide

/-- The open brackets of one kind, before and after a character. -/
theorem bracket_cases {stack' : List Frame} (f : Frame) (h : bracket stack c = some stack') :
    (c = f.opener ∧ stack' = f :: stack) ∨ (c = f.closer ∧ stack = f :: stack') ∨
      (c ≠ f.opener ∧ c ≠ f.closer ∧
        (stack' = stack ∨ ∃ g, g ≠ f ∧ (stack' = g :: stack ∨ stack = g :: stack'))) := by
  rcases bracket_inv h with ⟨g, rfl, rfl⟩ | ⟨g, rfl, rfl⟩ | ⟨hother, rfl⟩
  · by_cases hg : g = f
    · subst hg
      exact .inl ⟨rfl, rfl⟩
    · exact .inr (.inr ⟨opener_ne_opener hg, opener_ne_closer g f, .inr ⟨g, hg, .inl rfl⟩⟩)
  · by_cases hg : g = f
    · subst hg
      exact .inr (.inl ⟨rfl, rfl⟩)
    · exact .inr (.inr ⟨(opener_ne_closer f g).symm, closer_ne_closer hg, .inr ⟨g, hg, .inr rfl⟩⟩)
  · exact .inr (.inr ⟨(hother f).1, (hother f).2, .inl rfl⟩)

/-- What a nesting scan makes of the rest of a text. -/
def nestedFrom (stack : List Frame) (inString escaped : Bool) : Text → Bool
  | [] => stack.isEmpty
  | c :: cs =>
    if inString then nestedFrom stack (escaped || c ≠ '"') (! escaped && c = '\\') cs
    else
      match bracket stack c with
      | none => false
      | some stack => nestedFrom stack (c = '"') false cs

/-- Outside of strings, every closer matches the bracket opened last, and none stays open. -/
def nested (t : Text) : Bool := nestedFrom [] false false t

theorem nestedFrom_run {s t : Text} (h : run limit scalar σ s = some τ) :
    nestedFrom σ.stack σ.inString σ.escaped (s ++ t) = nestedFrom τ.stack τ.inString τ.escaped t := by
  induction s generalizing σ with
  | nil =>
    cases h
    rfl
  | cons c s ih =>
    obtain ⟨ρ, hstep, hrun⟩ := run_cons_eq_some.mp h
    rw [← ih hrun, List.cons_append, nestedFrom]
    cases hin : σ.inString with
    | true =>
      obtain ⟨hstack, hstring, hescaped, -⟩ := step_inString hstep hin
      rw [if_pos rfl, hstack, hstring, hescaped]
    | false =>
      obtain ⟨hstack, hstring, hescaped⟩ := step_outside hstep hin
      rw [if_neg Bool.false_ne_true, hstack, hstring, hescaped]

theorem nested_of_accepts {t : Text} (h : accepts limit scalar t = true) : nested t = true := by
  obtain ⟨σ, hrun, hstack, hended⟩ := accepts_iff.mp h
  have hnested := nestedFrom_run (t := []) hrun
  rw [List.append_nil] at hnested
  refine hnested.trans ?_
  rw [hstack]
  rfl

theorem nestedFrom_closers {escaped : Bool} (frames : List Frame) :
    nestedFrom stack false escaped (frames.map Frame.closer) = true ↔ stack = frames := by
  induction frames generalizing stack escaped with
  | nil => exact List.isEmpty_iff
  | cons f frames ih =>
    rw [List.map_cons, nestedFrom, if_neg Bool.false_ne_true]
    have hquote : decide (f.closer = '"') = false := by cases f <;> rfl
    rcases stack with _ | ⟨g, rest⟩
    · cases f <;> simp [bracket, Frame.closer]
    · by_cases hfg : g = f
      · subst hfg
        have hbracket : bracket (g :: rest) g.closer = some rest := by cases g <;> rfl
        rw [hbracket]
        dsimp only
        rw [hquote, ih, List.cons_inj_right]
      · have hbracket : bracket (g :: rest) f.closer = none := by
          cases g <;> cases f <;> first | rfl | exact absurd rfl hfg
        rw [hbracket]
        simp [hfg]

/-! ## What can follow -/

theorem not_isWhitespace_of_isWordChar (h : isWordChar c = true) : Text.isWhitespace c = false := by
  have hrange : 33 ≤ c.toNat ∧ c.toNat < 128 := by
    simp only [isWordChar, Bool.or_eq_true, decide_eq_true_eq, Text.isAlphanum_iff, Text.isAlpha_iff,
      Text.isDigit_iff] at h
    rcases h with ((h | rfl) | rfl) | rfl
    · omega
    all_goals decide
  simp only [Text.isWhitespace, Bool.or_eq_false_iff, Bool.and_eq_false_iff, decide_eq_false_iff_not,
    beq_eq_false_iff_ne]
  omega

theorem startValue_of_isWhitespace (hspace : Text.isWhitespace c = true) : startValue limit stack c = none := by
  have hword : isWordChar c = false := by
    cases hword : isWordChar c with
    | false => rfl
    | true =>
      rw [not_isWhitespace_of_isWordChar hword] at hspace
      cases hspace
  unfold startValue
  rw [if_neg, if_neg, if_neg, if_neg (by simp [hword])]
  all_goals
    rintro rfl
    cases hspace

theorem close_of_isWhitespace (hspace : Text.isWhitespace c = true) : close stack c = none := by
  rcases stack with _ | ⟨_ | _, rest⟩
  · rfl
  all_goals
    rw [close, if_neg]
    rintro rfl
    cases hspace

theorem afterValue_of_isWhitespace (hspace : Text.isWhitespace c = true) (h : afterValue stack c = some τ) :
    τ = ⟨stack, .after⟩ := by
  unfold afterValue at h
  split at h
  · cases h
    rfl
  · split at h
    · rename_i hc
      subst hc
      cases hspace
    · rw [close_of_isWhitespace hspace] at h
      cases h

theorem bodyStep_of_isWhitespace {next : Option Body} (hspace : Text.isWhitespace c = true)
    (h : bodyStep body c = some next) : next = some body := by
  cases body with
  | plain =>
    rw [bodyStep, if_neg (by rintro rfl; cases hspace), if_neg (by rintro rfl; cases hspace)] at h
    split at h <;> cases h
    rfl
  | escape =>
    rw [bodyStep, if_neg (by rintro rfl; cases hspace), if_neg] at h
    · cases h
    · intro hc
      simp only [List.mem_cons, List.not_mem_nil, or_false] at hc
      rcases hc with rfl | rfl | rfl | rfl | rfl | rfl | rfl | rfl <;> cases hspace
  | hex digits code low =>
    have hdigit : hexValue c = none := by
      by_contra hsome
      obtain ⟨d, hd⟩ := Option.ne_none_iff_exists'.mp hsome
      obtain ⟨hlow, hhigh, -⟩ := hexValue_bounds hd
      simp only [Text.isWhitespace, Bool.or_eq_true, Bool.and_eq_true, decide_eq_true_eq, beq_iff_eq] at hspace
      omega
    rw [bodyStep, hdigit] at h
    cases h
  | pairSlash | pairU =>
    rw [bodyStep, if_neg (by rintro rfl; cases hspace)] at h
    cases h

/-- Whitespace changes nothing, or ends a word. -/
theorem step_whitespace (hspace : Text.isWhitespace c = true) (h : step limit scalar σ c = some τ) :
    τ = σ ∨ σ.ended scalar = true ∧ τ = ⟨σ.stack, .after⟩ := by
  obtain ⟨stack, mode⟩ := σ
  have hclose : ∀ c', Text.isWhitespace c' = false → c ≠ c' := by
    rintro c' hc' rfl
    rw [hc'] at hspace
    cases hspace
  unfold step at h
  cases mode with
  | value =>
    dsimp only at h
    split at h
    · exact .inl (Option.some.inj h).symm
    · rw [startValue_of_isWhitespace hspace] at h
      cases h
  | firstElement =>
    dsimp only at h
    split at h
    · exact .inl (Option.some.inj h).symm
    · rw [if_neg (hclose _ rfl), startValue_of_isWhitespace hspace] at h
      cases h
  | firstKey =>
    dsimp only at h
    split at h
    · exact .inl (Option.some.inj h).symm
    · rw [if_neg (hclose _ rfl), if_neg (hclose _ rfl)] at h
      cases h
  | key | colon =>
    dsimp only at h
    split at h
    · exact .inl (Option.some.inj h).symm
    · rw [if_neg (hclose _ rfl)] at h
      cases h
  | after => exact .inl (afterValue_of_isWhitespace hspace h)
  | str isKey body =>
    dsimp only at h
    split at h
    · cases h
    · rename_i hbody
      cases bodyStep_of_isWhitespace hspace hbody
    · rename_i next hbody
      obtain rfl := Option.some.inj (bodyStep_of_isWhitespace hspace hbody)
      exact .inl (Option.some.inj h).symm
  | word text =>
    dsimp only at h
    split at h
    · rename_i hword
      rw [not_isWhitespace_of_isWordChar hword] at hspace
      cases hspace
    · split at h
      · rename_i hscalar
        exact .inr ⟨hscalar, afterValue_of_isWhitespace hspace h⟩
      · cases h

theorem run_whitespace {s : Text} (hs : ∀ c ∈ s, Text.isWhitespace c = true)
    (h : run limit scalar σ s = some τ) : τ = σ ∨ σ.ended scalar = true ∧ τ = ⟨σ.stack, .after⟩ := by
  induction s generalizing σ with
  | nil => exact .inl (Option.some.inj h).symm
  | cons c s ih =>
    obtain ⟨ρ, hstep, hrun⟩ := run_cons_eq_some.mp h
    have hrest := ih (fun c hc => hs c (List.mem_cons_of_mem _ hc)) hrun
    rcases step_whitespace (hs c List.mem_cons_self) hstep with rfl | ⟨hended, rfl⟩
    · exact hrest
    · rcases hrest with rfl | ⟨-, rfl⟩
      · exact .inr ⟨hended, rfl⟩
      · exact .inr ⟨hended, rfl⟩

/-- A colon follows keys only. -/
theorem step_colon (h : step limit scalar σ ':' = some τ) (hout : σ.inString = false) : σ.mode = .colon := by
  obtain ⟨stack, mode⟩ := σ
  cases mode with
  | colon => rfl
  | str isKey body => cases hout
  | word text =>
    unfold step at h
    dsimp only at h
    rw [if_neg (by decide)] at h
    split at h
    · rcases stack with _ | ⟨_ | _, rest⟩ <;> cases h
    · cases h
  | after => rcases stack with _ | ⟨_ | _, rest⟩ <;> cases h
  | _ => cases h

/-- What a comma is followed by. -/
theorem step_comma (h : step limit scalar σ ',' = some τ) (hout : σ.inString = false) :
    τ.mode = .value ∨ τ.mode = .key := by
  have hafter : ∀ stack, afterValue stack ',' = some τ → τ.mode = .value ∨ τ.mode = .key := by
    rintro (_ | ⟨_ | _, rest⟩) h
    · cases h
    · cases h
      exact .inl rfl
    · cases h
      exact .inr rfl
  obtain ⟨stack, mode⟩ := σ
  cases mode with
  | after => exact hafter stack h
  | str isKey body => cases hout
  | word text =>
    unfold step at h
    dsimp only at h
    rw [if_neg (by decide)] at h
    split at h
    · exact hafter stack h
    · cases h
  | _ => cases h

theorem not_step_closer (hmode : σ.mode = .value ∨ σ.mode = .key) (f : Frame) :
    step limit scalar σ f.closer = none := by
  obtain ⟨stack, mode⟩ := σ
  rcases hmode with rfl | rfl <;> cases f <;> rfl

theorem ne_of_isWordChar {c' : Char} (h : isWordChar c = true) (h' : isWordChar c' = false) : c ≠ c' := by
  rintro rfl
  rw [h] at h'
  cases h'

/-- A word begins, or goes on. -/
theorem step_wordChar (hword : isWordChar c = true) (h : step limit scalar σ c = some τ)
    (hout : σ.inString = false) : ∃ text, τ = ⟨σ.stack, .word text⟩ := by
  have hblank : isBlank c = false := by
    cases hblank : isBlank c with
    | false => rfl
    | true =>
      simp only [isBlank, Bool.or_eq_true, decide_eq_true_eq] at hblank
      rcases hblank with ((rfl | rfl) | rfl) | rfl <;> cases hword
  have hne {c' : Char} (h' : isWordChar c' = false) : ¬ c = c' := ne_of_isWordChar hword h'
  have hstart {stack : List Frame} : startValue limit stack c = some ⟨stack, .word [c]⟩ := by
    unfold startValue
    rw [if_neg (hne rfl), if_neg (hne rfl), if_neg (hne rfl), if_pos hword]
  have hclose {stack : List Frame} : close stack c = none := by
    rcases stack with _ | ⟨_ | _, rest⟩
    · rfl
    · exact if_neg (hne rfl)
    · exact if_neg (hne rfl)
  obtain ⟨stack, mode⟩ := σ
  unfold step at h
  cases mode with
  | str isKey body => cases hout
  | word text =>
    dsimp only at h
    rw [if_pos hword] at h
    exact ⟨_, (Option.some.inj h).symm⟩
  | value =>
    dsimp only at h
    rw [hblank, if_neg Bool.false_ne_true, hstart] at h
    exact ⟨_, (Option.some.inj h).symm⟩
  | firstElement =>
    dsimp only at h
    rw [hblank, if_neg Bool.false_ne_true, if_neg (hne rfl), hstart] at h
    exact ⟨_, (Option.some.inj h).symm⟩
  | firstKey =>
    dsimp only at h
    rw [hblank, if_neg Bool.false_ne_true, if_neg (hne rfl), if_neg (hne rfl)] at h
    cases h
  | key | colon =>
    dsimp only at h
    rw [hblank, if_neg Bool.false_ne_true, if_neg (hne rfl)] at h
    cases h
  | after =>
    dsimp only [afterValue] at h
    rw [hblank, if_neg Bool.false_ne_true, if_neg (hne rfl), hclose] at h
    cases h

/-- The characters of JSON outside of strings. -/
theorem step_foreign (hblank : isBlank c = false) (hword : isWordChar c = false)
    (hc : c ∉ ['"', '[', '\x7b', ']', '\x7d', ',', ':']) (hout : σ.inString = false) :
    step limit scalar σ c = none := by
  simp only [List.mem_cons, List.not_mem_nil, or_false, not_or] at hc
  obtain ⟨hquote, harr, hobj, harr', hobj', hcomma, hcolon⟩ := hc
  have hclose {stack : List Frame} : close stack c = none := by
    rcases stack with _ | ⟨_ | _, rest⟩
    · rfl
    · exact if_neg harr'
    · exact if_neg hobj'
  have hafter {stack : List Frame} : afterValue stack c = none := by
    unfold afterValue
    rw [hblank, if_neg Bool.false_ne_true, if_neg hcomma, hclose]
  have hstart {stack : List Frame} : startValue limit stack c = none := by
    unfold startValue
    rw [if_neg hquote, if_neg harr, if_neg hobj, if_neg (by simp [hword])]
  obtain ⟨stack, mode⟩ := σ
  cases mode with
  | str isKey body => cases hout
  | after => exact hafter
  | value => simp [step, hblank, hstart]
  | word text => simp [step, hword, hafter]
  | _ => simp [step, hblank, hquote, harr', hobj', hcolon, hstart]

theorem step_closer_mode {f : Frame} (h : step limit scalar σ f.closer = some τ) (hout : σ.inString = false) :
    τ.mode = .after := by
  have hafter : ∀ {stack : List Frame}, afterValue stack f.closer = some τ → τ.mode = .after := by
    intro stack h
    unfold afterValue at h
    rw [if_neg (by cases f <;> decide), if_neg (by cases f <;> decide)] at h
    exact (close_spec h).2
  obtain ⟨stack, mode⟩ := σ
  cases mode with
  | str isKey body => cases hout
  | after => exact hafter h
  | word text =>
    unfold step at h
    dsimp only at h
    rw [if_neg (by cases f <;> decide)] at h
    split at h
    · exact hafter h
    · cases h
  | firstElement | firstKey =>
    cases f with
    | arr => first | exact (close_spec h).2 | cases h
    | obj => first | exact (close_spec h).2 | cases h
  | _ => cases f <;> cases h

/-- A complete document is followed by blanks only. -/
theorem run_after_nil {t : Text} (h : run limit scalar ⟨[], .after⟩ t = some τ) : τ = ⟨[], .after⟩ := by
  induction t with
  | nil => exact (Option.some.inj h).symm
  | cons c t ih =>
    obtain ⟨ρ, hstep, hrun⟩ := run_cons_eq_some.mp h
    have hkept : ρ = ⟨[], .after⟩ := by
      dsimp only [step, afterValue] at hstep
      split at hstep
      · exact (Option.some.inj hstep).symm
      · split at hstep <;> cases hstep
    rw [hkept] at hrun
    exact ih hrun

theorem isWhitespace_of_isBlank (h : isBlank c = true) : Text.isWhitespace c = true := by
  simp only [isBlank, Bool.or_eq_true, decide_eq_true_eq] at h
  rcases h with ((rfl | rfl) | rfl) | rfl <;> rfl

/-- Outside of strings, whitespace is whitespace of JSON. -/
theorem isBlank_of_step (hspace : Text.isWhitespace c = true) (h : step limit scalar σ c = some τ)
    (hout : σ.inString = false) : isBlank c = true := by
  by_contra hblank
  have hword : isWordChar c = false := by
    by_contra hword
    rw [not_isWhitespace_of_isWordChar (eq_true_of_ne_false hword)] at hspace
    cases hspace
  have hforeign : c ∉ ['"', '[', '\x7b', ']', '\x7d', ',', ':'] := by
    intro hc
    simp only [List.mem_cons, List.not_mem_nil, or_false] at hc
    rcases hc with rfl | rfl | rfl | rfl | rfl | rfl | rfl <;> cases hspace
  rw [step_foreign (eq_false_of_ne_true hblank) hword hforeign hout] at h
  cases h

theorem isBlank_of_run {s : Text} (hs : ∀ c ∈ s, Text.isWhitespace c = true)
    (h : run limit scalar σ s = some τ) (hout : σ.inString = false) : ∀ c ∈ s, isBlank c = true := by
  induction s generalizing σ with
  | nil => exact List.forall_mem_nil _
  | cons c s ih =>
    obtain ⟨ρ, hstep, hrun⟩ := run_cons_eq_some.mp h
    have hspace := hs c List.mem_cons_self
    have hρ : ρ.inString = false := by
      rcases step_whitespace hspace hstep with rfl | ⟨-, rfl⟩
      · exact hout
      · rfl
    exact List.forall_mem_cons.mpr ⟨isBlank_of_step hspace hstep hout,
      ih (fun c hc => hs c (List.mem_cons_of_mem _ hc)) hrun hρ⟩

/-- Blanks before a value. -/
theorem run_value_blanks {s : Text} (hs : ∀ c ∈ s, isBlank c = true) :
    run limit scalar ⟨stack, .value⟩ s = some ⟨stack, .value⟩ := by
  induction s with
  | nil => rfl
  | cons c s ih =>
    have hstep : step limit scalar ⟨stack, .value⟩ c = some ⟨stack, .value⟩ :=
      if_pos (hs c List.mem_cons_self)
    rw [run, hstep]
    exact ih fun c hc => hs c (List.mem_cons_of_mem _ hc)

/-- Blanks after a value. -/
theorem run_ended_blanks {s : Text} (hs : ∀ c ∈ s, isBlank c = true) (hended : σ.ended scalar = true) :
    ∃ τ, run limit scalar σ s = some τ ∧ τ.stack = σ.stack ∧ τ.ended scalar = true := by
  induction s generalizing σ with
  | nil => exact ⟨σ, rfl, rfl, hended⟩
  | cons c s ih =>
    have hblank := hs c List.mem_cons_self
    have hafter : afterValue σ.stack c = some ⟨σ.stack, .after⟩ := if_pos hblank
    have hstep : step limit scalar σ c = some ⟨σ.stack, .after⟩ := by
      obtain ⟨stack, mode⟩ := σ
      cases mode with
      | after => exact hafter
      | word text =>
        have hword : isWordChar c = false := by
          by_contra hword
          have hspace := isWhitespace_of_isBlank hblank
          rw [not_isWhitespace_of_isWordChar (eq_true_of_ne_false hword)] at hspace
          cases hspace
        have hscalar : scalar text = true := hended
        unfold step
        simp only [hword, hscalar, Bool.false_eq_true, if_false, if_true]
        exact hafter
      | _ => cases hended
    obtain ⟨τ, hrun, hstack, hτ⟩ := ih (σ := ⟨σ.stack, .after⟩)
      (fun c hc => hs c (List.mem_cons_of_mem _ hc)) rfl
    exact ⟨τ, run_cons_eq_some.mpr ⟨_, hstep, hrun⟩, hstack, hτ⟩

/-- Blanks around a document are not part of it. -/
theorem accepts_blanks {pre t post : Text} (hpre : ∀ c ∈ pre, isBlank c = true)
    (hpost : ∀ c ∈ post, isBlank c = true) :
    accepts limit scalar (pre ++ t ++ post) = accepts limit scalar t := by
  have hstart : run limit scalar ⟨[], .value⟩ (pre ++ t ++ post) =
      (run limit scalar ⟨[], .value⟩ t).bind fun σ => run limit scalar σ post := by
    rw [List.append_assoc, run_append, run_value_blanks hpre, Option.bind_some, run_append]
  rw [Bool.eq_iff_iff, accepts_iff, accepts_iff, hstart]
  constructor
  · rintro ⟨τ, hrun, hstack, hended⟩
    obtain ⟨σ, hdoc, hend⟩ := Option.bind_eq_some_iff.mp hrun
    rcases run_whitespace (fun c hc => isWhitespace_of_isBlank (hpost c hc)) hend with rfl | ⟨hσ, rfl⟩
    · exact ⟨_, hdoc, hstack, hended⟩
    · exact ⟨σ, hdoc, hstack, hσ⟩
  · rintro ⟨σ, hdoc, hstack, hended⟩
    obtain ⟨τ, hend, hsame, hτ⟩ := @run_ended_blanks limit _ _ _ hpost hended
    exact ⟨τ, Option.bind_eq_some_iff.mpr ⟨σ, hdoc, hend⟩, hsame.trans hstack, hτ⟩

end

end Scan

end Nanna.Lib
