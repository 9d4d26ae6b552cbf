import Nanna.Lib.Bytes
import Nanna.Lib.JsonLiteral
import Nanna.Llm.Heal

/-!
# Bare control characters

`escape_lossless`: for any text, `escape_bare_controls_in_strings` changes nothing outside of the string
literals, replaces control characters inside of them by escapes, and what JSON reads from each literal
of the result is what the text had in it, control characters standing for themselves. The result is
at most six times as long and has nothing left to escape.

The function follows `Place.next` (`escapeFrom_cons`), and an escape begins and ends inside of its literal
(`within_escapeControl`), so text and result have their literals at the same places. Inside of one, the
two are decoded in step (`runFrom_escapeBody`): where a control character stands for itself its escape gives
the same character, and where it breaks an escape the backslash breaks it too.
-/

namespace Nanna.Llm

open Nanna.Lib Nanna.Lib.Text Nanna.Lib.Literal

/-! ## What losslessness is -/

/-- Some control characters of a text are replaced by their escapes. -/
inductive ControlsEscaped : Text → Text → Prop
  | nil : ControlsEscaped [] []
  | keep (c : Char) {s t : Text} : ControlsEscaped s t → ControlsEscaped (c :: s) (c :: t)
  | escape {c : Char} {s t : Text} : c.toNat < 0x20 → ControlsEscaped s t →
      ControlsEscaped (c :: s) (escapeControl c ++ t)

/-- The result of escaping against the text. -/
structure Lossless (s out : Text) : Prop where
  outside : outsideFrom .outside out = outsideFrom .outside s
  assembled : out = assembleFrom false (outsideFrom .outside s) (literalsFrom .outside out)
  replaced : List.Forall₂ ControlsEscaped (literalsFrom .outside s) (literalsFrom .outside out)
  decoded : (literalsFrom .outside out).map (decode false) = (literalsFrom .outside s).map (decode true)
  bounded : out.byteLen ≤ 6 * s.byteLen
  settled : escapeBareControlsInStrings out = none

/-! ## One character -/

section

variable {place : Place} {escaped : Bool} {s t : Text} {c : Char}

/-- The flags of the source. -/
def inString : Place → Bool
  | .outside => false
  | .literal _ => true

def isEscaped : Place → Bool
  | .outside => false
  | .literal escaped => escaped

def escapeAt (place : Place) (s : Text) : Text × Bool := escapeFrom (inString place) (isEscaped place) s

/-- A control character that is replaced. -/
def Bare (place : Place) (c : Char) : Prop := place = .literal false ∧ c.toNat < 0x20

instance instDecidableBare : Decidable (Bare place c) := inferInstanceAs (Decidable (_ ∧ _))

theorem next_of_bare (h : Bare place c) : Place.next place c = .literal false := by
  obtain ⟨rfl, hcontrol⟩ := h
  have hslash : c ≠ '\\' := by
    rintro rfl
    exact absurd hcontrol (by decide)
  have hquote : c ≠ '"' := by
    rintro rfl
    exact absurd hcontrol (by decide)
  rw [Place.next, if_neg hslash, if_neg hquote]

theorem escapeFrom_cons : escapeAt place (c :: s) =
    if Bare place c then (escapeControl c ++ (escapeAt (Place.next place c) s).1, true)
    else (c :: (escapeAt (Place.next place c) s).1, (escapeAt (Place.next place c) s).2) := by
  by_cases hbare : Bare place c
  · rw [if_pos hbare, next_of_bare hbare]
    obtain ⟨rfl, hcontrol⟩ := hbare
    have hslash : c ≠ '\\' := by
      rintro rfl
      exact absurd hcontrol (by decide)
    have hquote : c ≠ '"' := by
      rintro rfl
      exact absurd hcontrol (by decide)
    unfold escapeAt
    rw [escapeFrom]
    simp [inString, isEscaped, hslash, hquote, hcontrol]
  · rw [if_neg hbare]
    unfold escapeAt
    rw [escapeFrom]
    cases place with
    | outside =>
      by_cases hquote : c = '"'
      · simp [inString, isEscaped, Place.next, hquote]
      · simp [inString, isEscaped, Place.next, hquote]
    | literal escaped =>
      cases escaped with
      | true => rfl
      | false =>
        have hcontrol : ¬ c.toNat < 0x20 := fun hcontrol => hbare ⟨rfl, hcontrol⟩
        by_cases hslash : c = '\\'
        · simp [inString, isEscaped, Place.next, hslash]
        · by_cases hquote : c = '"'
          · simp [inString, isEscaped, Place.next, hquote]
          · simp [inString, isEscaped, Place.next, hslash, hquote, hcontrol]

/-! ## One escape -/

/-- What is so of the 32 control characters. -/
theorem forall_control {p : Char → Prop} (h : ∀ n < 32, p (Char.ofNat n)) (hc : c.toNat < 0x20) : p c := by
  rw [← Char.ofNat_toNat c]
  exact h c.toNat hc

theorem within_escapeControl (hc : c.toNat < 0x20) : Within false (escapeControl c) false :=
  forall_control (p := fun c => Within false (escapeControl c) false) (by decide) hc

theorem byteLen_escapeControl_le (hc : c.toNat < 0x20) : (escapeControl c).byteLen ≤ 6 :=
  forall_control (p := fun c => (escapeControl c).byteLen ≤ 6) (by decide) hc

theorem runFrom_escapeControl (hc : c.toNat < 0x20) :
    runFrom false .plain (escapeControl c) = some (.plain, [c]) :=
  forall_control (p := fun c => runFrom false .plain (escapeControl c) = some (.plain, [c])) (by decide) hc

/-- An escape begins with a backslash and is not the second half of a pair. -/
theorem escapeControl_cons (hc : c.toNat < 0x20) : ∃ t, escapeControl c = '\\' :: t ∧
    ∀ high, runFrom false (.pairU high) t = none := by
  unfold escapeControl
  split
  · exact ⟨_, rfl, fun _ => rfl⟩
  · split
    · exact ⟨_, rfl, fun _ => rfl⟩
    · split
      · exact ⟨_, rfl, fun _ => rfl⟩
      · refine ⟨['u', '0', '0', hexDigit (c.toNat / 16), hexDigit (c.toNat % 16)], rfl, fun high => ?_⟩
        have hlow : ¬ (0xDC00 ≤ c.toNat ∧ c.toNat ≤ 0xDFFF) := by omega
        have hdigits : Scan.hexValue (hexDigit (c.toNat / 16)) = some (c.toNat / 16) ∧
            Scan.hexValue (hexDigit (c.toNat % 16)) = some (c.toNat % 16) :=
          forall_control (p := fun c => Scan.hexValue (hexDigit (c.toNat / 16)) = some (c.toNat / 16) ∧
            Scan.hexValue (hexDigit (c.toNat % 16)) = some (c.toNat % 16)) (by decide) hc
        have hvalue : c.toNat / 16 * 16 + c.toNat % 16 = c.toNat := Nat.div_add_mod' _ _
        have hzero : Scan.hexValue '0' = some 0 := by decide
        simp [runFrom, Unescape.step, hdigits, hvalue, hzero, Literal.hexEnd, hlow]

/-! ## One literal -/

/-- The inside of a literal with its bare control characters escaped. -/
def escapeBody : Bool → Text → Text
  | _, [] => []
  | escaped, c :: cs =>
    if Bare (.literal escaped) c then escapeControl c ++ escapeBody false cs
    else c :: escapeBody (! escaped && c = '\\') cs

theorem controlsEscaped_escapeBody : ControlsEscaped s (escapeBody escaped s) := by
  induction s generalizing escaped with
  | nil => exact .nil
  | cons c s ih =>
    rw [escapeBody]
    split
    · rename_i hbare
      exact .escape hbare.2 ih
    · exact .keep c ih

/-- A literal and the escaped one are read in step. -/
theorem runFrom_escapeBody {st : Unescape} (hst : st.slashed = escaped) :
    runFrom false st (escapeBody escaped s) = runFrom true st s := by
  induction s generalizing st escaped with
  | nil => rfl
  | cons c s ih =>
    rw [escapeBody]
    split
    · rename_i hbare
      obtain ⟨hplace, hcontrol⟩ := hbare
      obtain rfl : escaped = false := Place.literal.inj hplace
      have hslash : c ≠ '\\' := by
        rintro rfl
        exact absurd hcontrol (by decide)
      rw [runFrom_append]
      cases st with
      | plain =>
        have hrest : runFrom false .plain (escapeBody false s) = runFrom true .plain s := ih rfl
        rw [runFrom_escapeControl hcontrol]
        simp [runFrom, Unescape.step, hslash, hrest]
      | slash | pairU => cases hst
      | hex digits code high =>
        have hdigit : Scan.hexValue c = none := by
          by_contra hsome
          obtain ⟨d, hd⟩ := Option.ne_none_iff_exists'.mp hsome
          have hlow := (Scan.hexValue_bounds hd).1
          omega
        obtain ⟨t, ht, -⟩ := escapeControl_cons hcontrol
        have hbackslash : Scan.hexValue '\\' = none := by decide
        simp [ht, runFrom, Unescape.step, hdigit, hbackslash]
      | pairSlash high =>
        obtain ⟨t, ht, hpair⟩ := escapeControl_cons hcontrol
        simp [ht, runFrom, Unescape.step, hslash, hpair]
    · rename_i hbare
      have hsame : st.step false c = st.step true c := by
        refine step_raw fun hplain => Nat.le_of_not_lt fun hcontrol => hbare ⟨?_, hcontrol⟩
        rw [hplain] at hst
        rw [← hst]
        rfl
      rw [runFrom, runFrom, hsame]
      cases hstep : st.step true c with
      | none => rfl
      | some next =>
        obtain ⟨st', out⟩ := next
        have hst' : st'.slashed = (! escaped && c = '\\') := by
          rw [slashed_step hstep, hst]
        rw [Option.bind_some, Option.bind_some]
        dsimp only
        rw [ih hst']

theorem decode_escapeBody : decode false (escapeBody false s) = decode true s := by
  have hsame : runFrom false .plain (escapeBody false s) = runFrom true .plain s := runFrom_escapeBody rfl
  rw [decode, decode, hsame]

/-! ## A whole text -/

theorem outsideFrom_escapeAt : outsideFrom place (escapeAt place s).1 = outsideFrom place s := by
  induction s generalizing place with
  | nil => rfl
  | cons c s ih =>
    rw [escapeFrom_cons]
    by_cases hbare : Bare place c
    · have hnext := next_of_bare hbare
      rw [if_pos hbare, hnext]
      obtain ⟨rfl, hcontrol⟩ := hbare
      rw [(within_escapeControl hcontrol).outsideFrom_append, outsideFrom_inside hnext, ih]
    · rw [if_neg hbare]
      cases place with
      | outside => exact congrArg (c :: ·) ih
      | literal escaped =>
        rcases next_cases escaped c with ⟨rfl, rfl⟩ | ⟨escaped', hnext⟩
        · exact congrArg ('"' :: ·) ih
        · rw [hnext, outsideFrom_inside hnext, outsideFrom_inside hnext, ih]

theorem escaped_of_next {escaped' : Bool} (h : Place.next (.literal escaped) c = .literal escaped') :
    escaped' = (! escaped && c = '\\') := by
  cases escaped with
  | true => exact (Place.literal.inj h).symm
  | false =>
    by_cases hslash : c = '\\'
    · subst hslash
      exact (Place.literal.inj h).symm
    · by_cases hquote : c = '"'
      · subst hquote
        cases h
      · rw [Place.next, if_neg hslash, if_neg hquote] at h
        rw [← Place.literal.inj h]
        simp [hslash]

/-- The result has the literals of the text, escaped. -/
theorem literalsFrom_escapeAt (s : Text) :
    literalsFrom .outside (escapeAt .outside s).1 = (literalsFrom .outside s).map (escapeBody false) ∧
      ∀ escaped body bodies, literalsFrom (.literal escaped) s = body :: bodies →
        literalsFrom (.literal escaped) (escapeAt (.literal escaped) s).1 =
          escapeBody escaped body :: bodies.map (escapeBody false) := by
  induction s with
  | nil =>
    refine ⟨rfl, fun escaped body bodies h => ?_⟩
    cases h
    rfl
  | cons c s ih =>
    obtain ⟨houtside, hliteral⟩ := ih
    refine ⟨?_, fun escaped body bodies h => ?_⟩
    · have hbare : ¬ Bare .outside c := fun hbare => Place.noConfusion hbare.1
      rw [escapeFrom_cons, if_neg hbare, literalsFrom, literalsFrom, Place.next]
      by_cases hquote : c = '"'
      · obtain ⟨body, bodies, hrest⟩ := exists_literalsFrom_literal false s
        rw [if_pos hquote, hliteral false body bodies hrest, hrest, List.map_cons]
      · rw [if_neg hquote, houtside]
    · rcases next_cases escaped c with ⟨rfl, rfl⟩ | ⟨escaped', hnext⟩
      · cases h
        exact congrArg ([] :: ·) houtside
      · obtain ⟨body', bodies', hrest⟩ := exists_literalsFrom_literal escaped' s
        rw [literalsFrom_inside hnext, hrest, List.modifyHead_cons] at h
        cases h
        rw [escapeFrom_cons, escapeBody]
        by_cases hbare : Bare (.literal escaped) c
        · have hnext' := next_of_bare hbare
          rw [if_pos hbare, if_pos hbare, hnext']
          obtain rfl : false = escaped' := Place.literal.inj (hnext'.symm.trans hnext)
          obtain ⟨hplace, hcontrol⟩ := hbare
          obtain rfl : escaped = false := Place.literal.inj hplace
          rw [(within_escapeControl hcontrol).literalsFrom_append, hliteral false body' _ hrest,
            List.modifyHead_cons]
        · rw [if_neg hbare, if_neg hbare, hnext, ← escaped_of_next hnext, literalsFrom_inside hnext,
            hliteral escaped' body' _ hrest, List.modifyHead_cons]

theorem byteLen_escapeAt_le : (escapeAt place s).1.byteLen ≤ 6 * s.byteLen := by
  induction s generalizing place with
  | nil => exact Nat.le_refl 0
  | cons c s ih =>
    have hrest := @ih (Place.next place c)
    have hpos := c.utf8Size_pos
    rw [escapeFrom_cons]
    split
    · rename_i hbare
      have hescape := byteLen_escapeControl_le hbare.2
      simp only [byteLen_append, byteLen_cons]
      omega
    · simp only [byteLen_cons]
      omega

/-- A text without bare control characters is kept. -/
theorem escapeAt_of_settled (h : (escapeAt place s).2 = false) : (escapeAt place s).1 = s := by
  induction s generalizing place with
  | nil => rfl
  | cons c s ih =>
    rw [escapeFrom_cons] at h ⊢
    split at h
    · cases h
    · rename_i hbare
      rw [if_neg hbare, ih h]

theorem escapeAt_append_of_settled (h : (escapeAt place s).2 = false) :
    (escapeAt place (s ++ t)).2 = (escapeAt (s.foldl Place.next place) t).2 := by
  induction s generalizing place with
  | nil => rfl
  | cons c s ih =>
    rw [List.cons_append, List.foldl_cons]
    rw [escapeFrom_cons] at h ⊢
    split at h
    · cases h
    · rename_i hbare
      rw [if_neg hbare]
      exact ih h

theorem settled_escapeControl (hc : c.toNat < 0x20) :
    (escapeAt (.literal false) (escapeControl c)).2 = false :=
  forall_control (p := fun c => (escapeAt (.literal false) (escapeControl c)).2 = false) (by decide) hc

theorem settled_escapeAt : (escapeAt place (escapeAt place s).1).2 = false := by
  induction s generalizing place with
  | nil => rfl
  | cons c s ih =>
    rw [@escapeFrom_cons place s c]
    by_cases hbare : Bare place c
    · have hnext := next_of_bare hbare
      rw [if_pos hbare, hnext]
      obtain ⟨rfl, hcontrol⟩ := hbare
      rw [escapeAt_append_of_settled (settled_escapeControl hcontrol), (within_escapeControl hcontrol).1]
      exact ih
    · rw [if_neg hbare, escapeFrom_cons, if_neg hbare]
      exact ih

theorem escapeBareControls_eq : escapeBareControlsInStrings s =
    if (escapeAt .outside s).2 then some (escapeAt .outside s).1 else none := rfl

/-- What the callers go on with. -/
theorem getD_escapeBareControls : (escapeBareControlsInStrings s).getD s = (escapeAt .outside s).1 := by
  rw [escapeBareControls_eq]
  cases hsettled : (escapeAt .outside s).2 with
  | true => rfl
  | false => exact (escapeAt_of_settled hsettled).symm

end

/-- **Main result.** Escaping bare control characters is lossless. -/
theorem escape_lossless (s : Text) : Lossless s ((escapeBareControlsInStrings s).getD s) := by
  have hliterals := (literalsFrom_escapeAt s).1
  rw [getD_escapeBareControls]
  refine
    { outside := outsideFrom_escapeAt
      assembled := ?_
      replaced := ?_
      decoded := ?_
      bounded := byteLen_escapeAt_le
      settled := ?_ }
  · rw [← @outsideFrom_escapeAt .outside s, (assembleFrom_parts _).1]
  · rw [hliterals, List.forall₂_map_right_iff]
    exact List.forall₂_same.mpr fun body _ => controlsEscaped_escapeBody
  · rw [hliterals, List.map_map]
    exact List.map_congr_left fun body _ => decode_escapeBody
  · rw [escapeBareControls_eq, settled_escapeAt, if_neg Bool.false_ne_true]

end Nanna.Llm
