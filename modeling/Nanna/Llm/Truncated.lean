import Nanna.Lib.JsonScan
import Nanna.Llm.Heal

/-!
# Truncated JSON

`repair_common` closes what is open at the end of a text: a string, then the arrays, then the objects.
For a prefix of a JSON document that ends after a value or inside a string value,
`repairs_truncated`: the brackets of the result nest and `heal_json` returns a value exactly when no array is
open around an open object and the prefix does not end inside an escape.

The document is read by `Scan.run`, and the state at the cut says what is open. On a text with a run the
repairs change nothing (`repairFrom_run`), nor does the escaping of control characters (`escapeFrom_run`), and
what `close_unbalanced` counts is the stack of that state (`read_run`). So the repaired text is the prefix
with its string closed and as many closers as the stack has brackets, arrays first; `Scan.run_closers` says
when these are the right ones.
-/

namespace Nanna.Llm

open Nanna.Lib Nanna.Lib.Text Nanna.Lib.Scan

variable {limit : Nat} {scalar : Text → Bool} {σ τ : State} {s t : Text} {c : Char} {stack : List Frame}

/-! ## The repairs leave a prefix of JSON alone -/

theorem run_trimStart (h : run limit scalar σ t = some τ) :
    ∃ ρ, run limit scalar ρ (trimStart t) = some τ ∧
      (ρ = σ ∨ σ.ended scalar = true ∧ ρ = ⟨σ.stack, .after⟩) := by
  rw [← List.takeWhile_append_dropWhile (p := isWhitespace) (l := t), run_append] at h
  obtain ⟨ρ, hspaces, hrest⟩ := Option.bind_eq_some_iff.mp h
  exact ⟨ρ, hrest, run_whitespace (fun c hc => List.mem_takeWhile_imp hc) hspaces⟩

/-- No word is a key. -/
theorem not_colon_of_word {text tail : Text} (h : run limit scalar ⟨stack, .word text⟩ t = some τ) :
    trimStart t ≠ ':' :: tail := by
  intro hcolon
  obtain ⟨ρ, hrun, hρ⟩ := run_trimStart h
  rw [hcolon] at hrun
  obtain ⟨ρ', hstep, -⟩ := run_cons_eq_some.mp hrun
  rcases hρ with rfl | ⟨-, rfl⟩
  · cases step_colon hstep rfl
  · cases step_colon hstep rfl

/-- No comma is a trailing one. -/
theorem not_closer_of_comma {tail : Text} (hmode : σ.mode = .value ∨ σ.mode = .key)
    (h : run limit scalar σ t = some τ) (f : Frame) : trimStart t ≠ f.closer :: tail := by
  intro hcloser
  obtain ⟨ρ, hrun, hρ⟩ := run_trimStart h
  have hkept : ρ = σ := by
    refine hρ.resolve_right fun hended => ?_
    obtain ⟨stack, mode⟩ := σ
    rcases hmode with rfl | rfl <;> cases hended.1
  subst hkept
  rw [hcloser] at hrun
  obtain ⟨ρ', hstep, -⟩ := run_cons_eq_some.mp hrun
  rw [not_step_closer hmode f] at hstep
  cases hstep

theorem step_word (hc : isWordChar c = true) (h : step limit scalar σ c = some τ) (hout : σ.inString = false) :
    ∃ text, τ = ⟨σ.stack, .word text⟩ := by
  have hcases : Scan.isWordChar c = true ∨ c = '_' := by
    simp only [isWordChar, Bool.or_eq_true, decide_eq_true_eq] at hc
    rcases hc with (hc | hc) | hc
    · exact .inl (by simp [Scan.isWordChar, hc])
    · exact .inr hc
    · exact .inl (by simp [Scan.isWordChar, hc])
  rcases hcases with hword | rfl
  · exact step_wordChar hword h hout
  · rw [step_foreign rfl (by decide) (by decide) hout] at h
    cases h

theorem run_word {text : Text} (hs : ∀ c ∈ s, isWordChar c = true)
    (h : run limit scalar ⟨stack, .word text⟩ (s ++ t) = some τ) :
    ∃ text', run limit scalar ⟨stack, .word text'⟩ t = some τ := by
  induction s generalizing text with
  | nil => exact ⟨text, h⟩
  | cons c s ih =>
    obtain ⟨ρ, hstep, hrun⟩ := run_cons_eq_some.mp h
    obtain ⟨text', rfl⟩ := step_word (hs c List.mem_cons_self) hstep rfl
    exact ih (fun c hc => hs c (List.mem_cons_of_mem _ hc)) hrun

/-- A run goes on after a word. -/
theorem run_afterWord {cs : Text} (hc : (c.isAlpha || c = '_') = true) (h : run limit scalar σ (c :: cs) = some τ)
    (hout : σ.inString = false) :
    ∃ text, run limit scalar ⟨σ.stack, .word text⟩ (cs.dropWhile isWordChar) = some τ := by
  obtain ⟨ρ, hstep, hrun⟩ := run_cons_eq_some.mp h
  have hword : isWordChar c = true := by
    rcases Bool.or_eq_true_iff.mp hc with hc | hc
    · simp [isWordChar, Char.isAlphanum, hc]
    · simp [isWordChar, of_decide_eq_true hc]
  obtain ⟨text, rfl⟩ := step_word hword hstep hout
  rw [← List.takeWhile_append_dropWhile (p := isWordChar) (l := cs)] at hrun
  exact run_word (fun c hc => List.mem_takeWhile_imp hc) hrun

/-- The repairs change no prefix of a JSON text. -/
theorem repairFrom_run (h : run limit scalar σ t = some τ) : repairFrom σ.inString σ.escaped t = t := by
  have key : ∀ inString escape t, ∀ σ : State, σ.inString = inString → σ.escaped = escape →
      run limit scalar σ t = some τ → repairFrom inString escape t = t := by
    intro inString escape t
    induction inString, escape, t using repairFrom.induct with
    | case1 =>
      intros
      rw [repairFrom]
    | case2 escape c cs ih =>
      intro σ hin hescaped h
      obtain ⟨ρ, hstep, hrun⟩ := run_cons_eq_some.mp h
      obtain ⟨-, hstring, hslash, -⟩ := step_inString hstep hin
      rw [hescaped] at hstring hslash
      rw [repairFrom, if_pos rfl, ih ρ hstring hslash hrun]
    | case3 inString escape cs hout ih =>
      intro σ hin hescaped h
      obtain ⟨ρ, hstep, hrun⟩ := run_cons_eq_some.mp h
      obtain ⟨-, hstring, hslash⟩ := step_outside hstep (hin.trans (eq_false_of_ne_true hout))
      rw [repairFrom, if_neg hout, if_pos rfl, ih ρ hstring hslash hrun]
    | case4 inString escape cs hout _ _ =>
      intro σ hin hescaped h
      obtain ⟨ρ, hstep, -⟩ := run_cons_eq_some.mp h
      have hnone : step limit scalar σ '\'' = none :=
        step_foreign rfl (by decide) (by decide) (hin.trans (eq_false_of_ne_true hout))
      cases hnone.symm.trans hstep
    | case5 inString escape cs hout tail hclose _ _ _ =>
      intro σ hin hescaped h
      obtain ⟨ρ, hstep, hrun⟩ := run_cons_eq_some.mp h
      have hmode := step_comma hstep (hin.trans (eq_false_of_ne_true hout))
      exact absurd hclose (not_closer_of_comma hmode hrun .obj)
    | case6 inString escape cs hout tail hclose _ _ _ =>
      intro σ hin hescaped h
      obtain ⟨ρ, hstep, hrun⟩ := run_cons_eq_some.mp h
      have hmode := step_comma hstep (hin.trans (eq_false_of_ne_true hout))
      exact absurd hclose (not_closer_of_comma hmode hrun .arr)
    | case7 inString escape cs hout hobj harr _ _ ih =>
      intro σ hin hescaped h
      obtain ⟨ρ, hstep, hrun⟩ := run_cons_eq_some.mp h
      obtain ⟨-, hstring, hslash⟩ := step_outside hstep (hin.trans (eq_false_of_ne_true hout))
      rw [repairFrom, if_neg hout, if_neg (by decide), if_neg (by decide), if_pos rfl]
      split
      · exact absurd ‹_› (hobj _)
      · exact absurd ‹_› (harr _)
      · rw [ih ρ hstring hslash hrun]
    | case8 inString escape c cs hout hquote hsingle hcomma hword rest tail hcolon _ =>
      intro σ hin hescaped h
      obtain ⟨text, hrest⟩ := run_afterWord hword h (hin.trans (eq_false_of_ne_true hout))
      exact absurd hcolon (not_colon_of_word hrest)
    | case9 inString escape c cs hout hquote hsingle hcomma hword rest hcolon ih =>
      intro σ hin hescaped h
      obtain ⟨text, hrest⟩ := run_afterWord hword h (hin.trans (eq_false_of_ne_true hout))
      rw [repairFrom, if_neg hout, if_neg hquote, if_neg hsingle, if_neg hcomma, if_pos hword]
      dsimp only
      split
      · exact absurd ‹_› (hcolon _)
      · rw [ih _ rfl rfl hrest, List.cons_append, List.takeWhile_append_dropWhile]
    | case10 inString escape c cs hout hquote hsingle hcomma hword ih =>
      intro σ hin hescaped h
      obtain ⟨ρ, hstep, hrun⟩ := run_cons_eq_some.mp h
      obtain ⟨-, hstring, hslash⟩ := step_outside hstep (hin.trans (eq_false_of_ne_true hout))
      rw [repairFrom, if_neg hout, if_neg hquote, if_neg hsingle, if_neg hcomma, if_neg hword,
        ih ρ (hstring.trans (decide_eq_false hquote)) hslash hrun]
  exact key _ _ t σ rfl rfl h

/-- No control character is bare in a prefix of a JSON text. -/
theorem escapeFrom_run (h : run limit scalar σ s = some τ) :
    (escapeFrom σ.inString σ.escaped (s ++ t)).2 = (escapeFrom τ.inString τ.escaped t).2 := by
  induction s generalizing σ with
  | nil =>
    cases h
    rfl
  | cons c s ih =>
    obtain ⟨ρ, hstep, hrun⟩ := run_cons_eq_some.mp h
    rw [← ih hrun, List.cons_append, escapeFrom]
    cases hin : σ.inString with
    | false =>
      obtain ⟨-, hstring, hslash⟩ := step_outside hstep hin
      rw [hstring, hslash]
      rfl
    | true =>
      obtain ⟨-, hstring, hslash, hcontrol⟩ := step_inString hstep hin
      rw [hstring, hslash]
      cases hescaped : σ.escaped with
      | true => rfl
      | false =>
        by_cases hc : c = '\\'
        · subst hc
          rfl
        · by_cases hquote : c = '"'
          · subst hquote
            rfl
          · simp [hc, hquote, Nat.not_lt.mpr hcontrol]

theorem escapeFrom_of_no_control {inString escaped : Bool} (h : ∀ c ∈ t, 0x20 ≤ c.toNat) :
    (escapeFrom inString escaped t).2 = false := by
  induction t generalizing inString escaped with
  | nil => rfl
  | cons c t ih =>
    have hrest {inString escaped : Bool} : (escapeFrom inString escaped t).2 = false :=
      ih fun c hc => h c (List.mem_cons_of_mem _ hc)
    have hc : ¬ c.toNat < 0x20 := Nat.not_lt.mpr (h c List.mem_cons_self)
    rw [escapeFrom, if_neg hc]
    split
    · exact hrest
    · split
      · exact hrest
      · split
        · exact hrest
        · split <;> exact hrest

/-! ## What is closed -/

/-- What `close_unbalanced` has counted at a state. -/
def unclosedAt (σ : State) : Unclosed where
  arrays := σ.stack.count .arr
  objects := σ.stack.count .obj
  inString := σ.inString
  escape := σ.escaped

theorem escaped_of_outside (hout : σ.inString = false) : σ.escaped = false := by
  obtain ⟨stack, mode⟩ := σ
  cases mode with
  | str isKey body => cases hout
  | _ => rfl

theorem read_step (h : step limit scalar σ c = some τ) : (unclosedAt σ).read c = unclosedAt τ := by
  cases hin : σ.inString with
  | true =>
    obtain ⟨hstack, hstring, hslash, -⟩ := step_inString h hin
    simp [Unclosed.read, unclosedAt, hin, hstack, hstring, hslash]
  | false =>
    obtain ⟨hstack, hstring, hslash⟩ := step_outside h hin
    have hescaped := escaped_of_outside hin
    have hread : (unclosedAt σ).read c = ⟨τ.stack.count .arr, τ.stack.count .obj, c = '"', false⟩ := by
      simp only [Unclosed.read, unclosedAt, hin, hescaped, Bool.false_eq_true, if_false]
      rcases bracket_inv hstack with ⟨f, rfl, hpush⟩ | ⟨f, rfl, hpop⟩ | ⟨hother, hkept⟩
      · cases f <;> simp [hpush, Frame.opener]
      · cases f <;> simp [hpop, Frame.closer]
      · obtain ⟨harr, harr'⟩ := hother .arr
        obtain ⟨hobj, hobj'⟩ := hother .obj
        simp only [Frame.opener, Frame.closer] at harr harr' hobj hobj'
        by_cases hquote : c = '"'
        · simp [hquote, hkept]
        · simp [hquote, harr, hobj, harr', hobj', hkept]
    rw [hread, unclosedAt, hstring, hslash]

theorem read_run (h : run limit scalar σ t = some τ) : t.foldl Unclosed.read (unclosedAt σ) = unclosedAt τ := by
  induction t generalizing σ with
  | nil =>
    cases h
    rfl
  | cons c t ih =>
    obtain ⟨ρ, hstep, hrun⟩ := run_cons_eq_some.mp h
    rw [List.foldl_cons, read_step hstep, ih hrun]

/-- The order in which the brackets of a stack are closed. -/
def closingOrder (stack : List Frame) : List Frame :=
  List.replicate (stack.count .arr) .arr ++ List.replicate (stack.count .obj) .obj

/-- What the repairs make of a prefix of a JSON text. -/
theorem repairCommon_run (h : run limit scalar ⟨[], .value⟩ t = some σ) :
    repairCommon t = t ++ ((if σ.inString then ['"'] else []) ++ (closingOrder σ.stack).map Frame.closer) := by
  have hread : t.foldl Unclosed.read {} = unclosedAt σ := read_run h
  have hkept : repairFrom false false t = t := repairFrom_run h
  have hclosers : (closingOrder σ.stack).map Frame.closer =
      List.replicate (σ.stack.count .arr) ']' ++ List.replicate (σ.stack.count .obj) '\x7d' := by
    simp [closingOrder, Frame.closer]
  rw [repairCommon, hkept, closeUnbalanced, hread, hclosers, List.append_assoc, List.append_assoc]
  rfl

/-- No array is open around an open object; innermost first. -/
def ArraysInnermost (stack : List Frame) : Prop := stack.Pairwise fun inner outer => inner = .obj → outer = .obj

instance : Decidable (ArraysInnermost stack) := inferInstanceAs (Decidable (stack.Pairwise _))

theorem eq_closingOrder : stack = closingOrder stack ↔ ArraysInnermost stack := by
  constructor
  · intro heq
    rw [heq]
    refine List.pairwise_append.mpr ⟨?_, List.pairwise_replicate.mpr (.inr id), ?_⟩
    · exact List.pairwise_replicate.mpr (.inr fun h => by cases h)
    · intro inner _ outer houter _
      exact List.eq_of_mem_replicate houter
  · intro hstack
    induction stack with
    | nil => rfl
    | cons f stack ih =>
      obtain ⟨hf, hrest⟩ := List.pairwise_cons.mp hstack
      cases f with
      | arr =>
        have hcons : closingOrder (.arr :: stack) = .arr :: closingOrder stack := by
          simp [closingOrder, List.replicate_succ]
        rw [hcons, ← ih hrest]
      | obj =>
        have hobj : stack = List.replicate stack.length .obj :=
          List.eq_replicate_of_mem fun g hg => hf g hg rfl
        rw [hobj]
        simp [closingOrder, List.count_replicate, List.replicate_succ]

/-! ## The cut -/

/-- Right after a value, or inside a string value. -/
def IsCut (scalar : Text → Bool) (σ : State) : Prop :=
  σ.ended scalar = true ∨ ∃ body, σ.mode = .str false body

/-- Inside an escape of a string. -/
def midEscape (σ : State) : Bool :=
  match σ.mode with
  | .str _ body => body ≠ .plain
  | _ => false

/-- What is open at the cut is closed in the order the repairs use. -/
def ClosesInOrder (σ : State) : Prop := ArraysInnermost σ.stack ∧ midEscape σ = false

theorem not_closesInOrder (h : midEscape σ = true) : ¬ ClosesInOrder σ :=
  fun hcloses => Bool.false_ne_true (hcloses.2.symm.trans h)

theorem quiet_of_ended (h : σ.ended scalar = true) : σ.inString = false ∧ midEscape σ = false := by
  obtain ⟨stack, mode⟩ := σ
  cases mode with
  | str isKey body => cases h
  | _ => exact ⟨rfl, rfl⟩

/-- Closers inside a string are text. -/
theorem run_plain {isKey : Bool} (frames : List Frame) :
    run limit scalar ⟨stack, .str isKey .plain⟩ (frames.map Frame.closer) = some ⟨stack, .str isKey .plain⟩ := by
  induction frames with
  | nil => rfl
  | cons f frames ih =>
    have hstep : step limit scalar ⟨stack, .str isKey .plain⟩ f.closer = some ⟨stack, .str isKey .plain⟩ := by
      cases f <;> rfl
    rw [List.map_cons, run, hstep]
    exact ih

theorem accepts_repairCommon (h : run limit scalar ⟨[], .value⟩ t = some σ) (hcut : IsCut scalar σ) :
    accepts limit scalar (repairCommon t) = true ↔ ClosesInOrder σ := by
  have hsplit {rest : Text} : run limit scalar ⟨[], .value⟩ (t ++ rest) = run limit scalar σ rest := by
    rw [run_append, h]
    rfl
  rw [accepts_iff, repairCommon_run h]
  simp only [hsplit]
  rcases hcut with hended | ⟨body, hmode⟩
  · obtain ⟨hout, hmid⟩ := quiet_of_ended hended
    rw [hout, if_neg Bool.false_ne_true, List.nil_append, run_closers _ hended, eq_closingOrder]
    exact ⟨fun hstack => ⟨hstack, hmid⟩, And.left⟩
  · obtain ⟨stack, mode⟩ := σ
    obtain rfl : mode = .str false body := hmode
    rw [show State.inString ⟨stack, .str false body⟩ = true from rfl, if_pos rfl]
    cases body with
    | plain =>
      have hclosed : ∀ cs, run limit scalar ⟨stack, .str false .plain⟩ (['"'] ++ cs) =
          run limit scalar ⟨stack, .after⟩ cs := fun _ => rfl
      simp only [hclosed]
      rw [run_closers (σ := ⟨stack, .after⟩) _ rfl, eq_closingOrder]
      exact ⟨fun hstack => ⟨hstack, rfl⟩, And.left⟩
    | escape =>
      -- The quote is escaped, and what follows it is text.
      refine ⟨?_, fun hcloses => absurd hcloses (not_closesInOrder rfl)⟩
      rintro ⟨τ, hrun, -, hended⟩
      have hopen : run limit scalar ⟨stack, .str false .plain⟩ ((closingOrder stack).map Frame.closer) = some τ :=
        hrun
      rw [run_plain] at hopen
      cases hopen
      cases hended
    | hex digits code low =>
      refine ⟨?_, fun hcloses => absurd hcloses (not_closesInOrder rfl)⟩
      rintro ⟨τ, hrun, -⟩
      cases hrun
    | pairSlash | pairU =>
      refine ⟨?_, fun hcloses => absurd hcloses (not_closesInOrder rfl)⟩
      rintro ⟨τ, hrun, -⟩
      cases hrun

theorem arraysInnermost_of_nested (h : run limit scalar ⟨[], .value⟩ t = some σ) (hmid : midEscape σ = false)
    (hnested : nested (repairCommon t) = true) : ArraysInnermost σ.stack := by
  rw [nested, repairCommon_run h] at hnested
  have hclosers := (nestedFrom_run h).symm.trans hnested
  obtain ⟨stack, mode⟩ := σ
  rw [← eq_closingOrder]
  cases mode with
  | str isKey body =>
    obtain rfl : body = .plain := by simpa [midEscape] using hmid
    exact (nestedFrom_closers _).mp hclosers
  | _ => exact (nestedFrom_closers _).mp hclosers

/-! ## Healing -/

theorem run_trim (h : run limit scalar ⟨[], .value⟩ t = some σ) (hcut : IsCut scalar σ) :
    ∃ ρ, run limit scalar ⟨[], .value⟩ (trim t) = some ρ ∧ IsCut scalar ρ ∧ ρ.stack = σ.stack ∧
      midEscape ρ = midEscape σ := by
  obtain ⟨ρ, hrun, hρ⟩ := run_trimStart h
  have hstart : ρ = ⟨[], .value⟩ := hρ.resolve_right fun hended => by cases hended.1
  rw [hstart, trimStart, ← List.rdropWhile_append_rtakeWhile (p := isWhitespace) (l := t.dropWhile isWhitespace),
    run_append] at hrun
  obtain ⟨ρ, htrim, hspaces⟩ := Option.bind_eq_some_iff.mp hrun
  have hblank : ∀ c ∈ (t.dropWhile isWhitespace).rtakeWhile isWhitespace, isWhitespace c = true := fun c hc =>
    List.mem_rtakeWhile_imp hc
  rcases run_whitespace hblank hspaces with rfl | ⟨hended, rfl⟩
  · exact ⟨_, htrim, hcut, rfl, rfl⟩
  · exact ⟨ρ, htrim, .inl hended, rfl, (quiet_of_ended hended).2⟩

/-- A cut prefix is not blank. -/
theorem trim_ne_nil (h : run limit scalar ⟨[], .value⟩ t = some σ) (hcut : IsCut scalar σ) : t ≠ [] := by
  rintro rfl
  cases h
  rcases hcut with hended | ⟨body, hmode⟩
  · cases hended
  · cases hmode

theorem stripCodeFence_run (h : run limit scalar ⟨[], .value⟩ (trim t) = some σ) :
    stripCodeFence (trim t) = trim t := by
  have hidem : trim (trim t) = trim t := by
    have hblanks := @trim_blanks [] (trim t) [] (List.forall_mem_nil _) (List.forall_mem_nil _) (tight_trim t)
    rwa [List.append_nil, List.nil_append] at hblanks
  have hfence : ("\x60\x60\x60".toList).isPrefixOf (trim t) = false := by
    cases htrim : trim t with
    | nil => rfl
    | cons c cs =>
      rw [htrim] at h
      obtain ⟨ρ, hstep, -⟩ := run_cons_eq_some.mp h
      by_cases hc : c = '\x60'
      · subst hc
        cases hstep
      · exact Bool.and_eq_false_imp.mpr fun heq => absurd (eq_of_beq heq).symm hc
  rw [stripCodeFence, hidem, hfence]
  rfl

variable {parse : Text → Option Json}

theorem healJson_of_closes (hparse : ∀ t, (parse t).isSome = accepts limit scalar t)
    (h : run limit scalar ⟨[], .value⟩ t = some σ) (hcut : IsCut scalar σ) (hcloses : ClosesInOrder σ) :
    (healJson parse t).isSome = true := by
  obtain ⟨ρ, htrim, hcutρ, hstack, hmid⟩ := run_trim h hcut
  have hclosesρ : ClosesInOrder ρ := ⟨hstack ▸ hcloses.1, hmid.trans hcloses.2⟩
  have hrepaired : (parse (repairCommon (trim t))).isSome = true :=
    (hparse _).trans ((accepts_repairCommon htrim hcutρ).mpr hclosesρ)
  have hlenient : (parseLenient parse (repairCommon (trim t))).isSome = true := by
    rw [parseLenient, Option.isSome_or, hrepaired]
    rfl
  have hne : trim t ≠ [] := trim_ne_nil htrim hcutρ
  rw [healJson, if_neg (by simpa using hne)]
  simp [stripCodeFence_run htrim, Option.isSome_or, hlenient]

/-- The last closer of a document. -/
theorem step_to_nil (h : step limit scalar σ c = some τ) (hopen : σ.stack ≠ []) (hnil : τ.stack = []) :
    ∃ f : Frame, c = f.closer ∧ σ.stack = [f] ∧ σ.inString = false ∧ τ = ⟨[], .after⟩ := by
  have hout : σ.inString = false := by
    by_contra hin
    have hkept := (step_inString h (eq_true_of_ne_false hin)).1
    exact hopen (hkept.symm.trans hnil)
  obtain ⟨hbracket, -, -⟩ := step_outside h hout
  have hcloser : ∃ f : Frame, c = f.closer ∧ σ.stack = [f] := by
    rcases bracket_inv hbracket with ⟨f, -, hpush⟩ | ⟨f, hc, hpop⟩ | ⟨-, hkept⟩
    · rw [hnil] at hpush
      cases hpush
    · exact ⟨f, hc, hnil ▸ hpop⟩
    · exact absurd (hkept.symm.trans hnil) hopen
  obtain ⟨f, rfl, hstack⟩ := hcloser
  have hmode := step_closer_mode h hout
  obtain ⟨stack, mode⟩ := τ
  obtain rfl : stack = [] := hnil
  obtain rfl : mode = .after := hmode
  exact ⟨f, rfl, hstack, hout, rfl⟩

/-- The bottom of the stack stays until the stack is empty. -/
theorem step_bottom {f : Frame} {inner : List Frame} (h : step limit scalar σ c = some τ)
    (hstack : σ.stack = inner ++ [f]) (hopen : τ.stack ≠ []) : ∃ inner', τ.stack = inner' ++ [f] := by
  cases hσ : σ.inString with
  | true => exact ⟨inner, (step_inString h hσ).1.trans hstack⟩
  | false =>
    obtain ⟨hbracket, -, -⟩ := step_outside h hσ
    rw [hstack] at hbracket
    have hpopped {g : Frame} (hpop : inner ++ [f] = g :: τ.stack) : ∃ inner', τ.stack = inner' ++ [f] := by
      cases inner with
      | nil => exact absurd (List.cons.inj hpop).2.symm hopen
      | cons g' inner => exact ⟨inner, (List.cons.inj hpop).2.symm⟩
    rcases bracket_cases f hbracket with ⟨-, hpush⟩ | ⟨-, hpop⟩ | ⟨-, -, hkept | ⟨g, -, hpush | hpop⟩⟩
    · exact ⟨f :: inner, hpush⟩
    · exact hpopped hpop
    · exact ⟨inner, hkept⟩
    · exact ⟨g :: inner, hpush⟩
    · exact hpopped hpop

/-- One character of a span, where the first bracket stays open. -/
theorem spanFrom_step (f : Frame) {inner inner' : List Frame} {cs : Text} (h : step limit scalar σ c = some τ)
    (hstack : σ.stack = inner ++ [f]) (hτ : τ.stack = inner' ++ [f]) :
    spanFrom f.opener f.closer (inner.count f + 1) σ.inString σ.escaped (c :: cs) =
      (spanFrom f.opener f.closer (inner'.count f + 1) τ.inString τ.escaped cs).map (c :: ·) := by
  rw [spanFrom]
  cases hσ : σ.inString with
  | true =>
    obtain ⟨hkept, hstring, hslash, -⟩ := step_inString h hσ
    have hinner : inner' = inner := List.append_cancel_right (hτ.symm.trans (hkept.trans hstack))
    rw [if_pos rfl, hstring, hslash, hinner]
  | false =>
    obtain ⟨hbracket, hstring, hslash⟩ := step_outside h hσ
    rw [hstack, hτ] at hbracket
    rw [if_neg Bool.false_ne_true, hstring, hslash]
    rcases bracket_cases f hbracket with ⟨rfl, hopen⟩ | ⟨rfl, hclose⟩ | ⟨hopener, hcloser, hother⟩
    · have hquote : f.opener ≠ '"' := by cases f <;> decide
      have hinner : inner' = f :: inner := List.append_cancel_right (hopen.trans (List.cons_append ..).symm)
      rw [if_neg hquote, if_pos rfl, decide_eq_false hquote, hinner, List.count_cons_self]
    · have hquote : f.closer ≠ '"' := by cases f <;> decide
      have hopener : f.closer ≠ f.opener := by cases f <;> decide
      have hinner : inner = f :: inner' := List.append_cancel_right (hclose.trans (List.cons_append ..).symm)
      rw [if_neg hquote, if_neg hopener, if_pos rfl, decide_eq_false hquote, hinner, List.count_cons_self,
        if_neg (by omega), Nat.add_sub_cancel]
    · have hcount : inner'.count f = inner.count f := by
        rcases hother with hkept | ⟨g, hg, hpush | hpop⟩
        · rw [List.append_cancel_right hkept]
        · have hinner : inner' = g :: inner := List.append_cancel_right (hpush.trans (List.cons_append ..).symm)
          rw [hinner, List.count_cons_of_ne hg]
        · have hinner : inner = g :: inner' := List.append_cancel_right (hpop.trans (List.cons_append ..).symm)
          rw [hinner, List.count_cons_of_ne hg]
      rw [hcount]
      by_cases hquote : c = '"'
      · rw [if_pos hquote, decide_eq_true hquote]
      · rw [if_neg hquote, if_neg hopener, if_neg hcloser, decide_eq_false hquote]

/-- A document goes on until its first bracket is closed, and so does the span. -/
theorem spanFrom_run (f : Frame) {inner : List Frame} (h : run limit scalar σ t = some τ)
    (hstack : σ.stack = inner ++ [f]) : τ = ⟨[], .after⟩ ∨ ∃ inner', τ.stack = inner' ++ [f] ∧ ∀ rest,
      spanFrom f.opener f.closer (inner.count f + 1) σ.inString σ.escaped (t ++ rest) =
        (spanFrom f.opener f.closer (inner'.count f + 1) τ.inString τ.escaped rest).map (t ++ ·) := by
  induction t generalizing σ inner with
  | nil =>
    cases h
    exact .inr ⟨inner, hstack, fun rest => by simp⟩
  | cons c t ih =>
    obtain ⟨ρ, hstep, hrun⟩ := run_cons_eq_some.mp h
    by_cases hnil : ρ.stack = []
    · obtain ⟨-, -, -, -, rfl⟩ := step_to_nil hstep (by rw [hstack]; simp) hnil
      exact .inl (run_after_nil hrun)
    · obtain ⟨inner', hinner⟩ : ∃ inner', ρ.stack = inner' ++ [f] := step_bottom hstep hstack hnil
      rcases ih hrun hinner with hclosed | ⟨inner'', hτ, hspan⟩
      · exact .inl hclosed
      · refine .inr ⟨inner'', hτ, fun rest => ?_⟩
        rw [List.cons_append, spanFrom_step f hstep hstack hinner, hspan, Option.map_map]
        rfl

/-- The document is an array or an object. -/
def OpensBracket (t : Text) : Prop := ∃ f : Frame, ∃ cs, trimStart t = f.opener :: cs

theorem trim_opens (h : OpensBracket t) (hne : trim t ≠ []) : ∃ f : Frame, ∃ cs, trim t = f.opener :: cs := by
  obtain ⟨f, cs, hcs⟩ := h
  have hprefix : trim t <+: trimStart t := List.rdropWhile_prefix _ _
  rw [hcs] at hprefix
  cases htrim : trim t with
  | nil => exact absurd htrim hne
  | cons c cs' =>
    rw [htrim] at hprefix
    exact ⟨f, cs', by rw [(List.cons_prefix_cons.mp hprefix).1]⟩

/-- The first span of a prefix that ends inside a string of a document is all of it. -/
theorem extractJsonSpan_run (f : Frame) {cs : Text} (h : run limit scalar ⟨[], .value⟩ (f.opener :: cs) = some τ)
    (hin : τ.inString = true) : extractJsonSpan (f.opener :: cs) = some (trimEnd (f.opener :: cs)) := by
  obtain ⟨ρ, hstep, hrun⟩ := run_cons_eq_some.mp h
  obtain ⟨hbracket, hstring, hslash⟩ := step_outside hstep rfl
  have hopen : bracket [] f.opener = some [f] := by cases f <;> rfl
  have hstack : ρ.stack = [] ++ [f] := Option.some.inj (hbracket.symm.trans hopen)
  have hquote : f.opener ≠ '"' := by cases f <;> decide
  have hnone : spanFrom f.opener f.closer 1 false false cs = none := by
    rcases spanFrom_run f hrun hstack with rfl | ⟨inner, -, hspan⟩
    · cases hin
    · have hspan := hspan []
      rw [hstring, hslash, decide_eq_false hquote, List.append_nil] at hspan
      exact hspan
  have hspan : spanFrom f.opener f.closer 0 false false (f.opener :: cs) = none := by
    rw [spanFrom, if_neg Bool.false_ne_true, if_neg hquote, if_pos rfl]
    exact congrArg _ hnone
  have hdrop : (f.opener :: cs).dropWhile (fun c => c ≠ '\x7b' ∧ c ≠ '[') = f.opener :: cs := by
    cases f <;> rfl
  have hcloser : (if f.opener = '\x7b' then '\x7d' else ']') = f.closer := by cases f <;> rfl
  rw [extractJsonSpan, hdrop]
  dsimp only
  rw [hcloser, hspan]
  rfl

theorem parseLenient_eq_none (hparse : ∀ t, (parse t).isSome = accepts limit scalar t)
    (hreject : accepts limit scalar t ≠ true) (hcontrol : (escapeFrom false false t).2 = false) :
    parseLenient parse t = none := by
  have hstrict : parse t = none := by
    rw [← Option.not_isSome_iff_eq_none, hparse]
    exact hreject
  have hescape : escapeBareControlsInStrings t = none := by
    rw [escapeBareControlsInStrings]
    cases hpair : escapeFrom false false t with
    | mk out changed =>
      rw [hpair] at hcontrol
      exact if_neg (by simp [show changed = false from hcontrol])
  rw [parseLenient, hstrict, hescape]
  rfl

/-- Inside an escape, an array or an object is not salvaged. -/
theorem healJson_midEscape (hparse : ∀ t, (parse t).isSome = accepts limit scalar t)
    (h : run limit scalar ⟨[], .value⟩ t = some σ) (hcut : IsCut scalar σ) (hmid : midEscape σ = true)
    (hopens : OpensBracket t) : healJson parse t = none := by
  obtain ⟨ρ, htrim, hcutρ, -, hmidρ⟩ := run_trim h hcut
  rw [hmid] at hmidρ
  have hin : ρ.inString = true := by
    obtain ⟨stack, mode⟩ := ρ
    cases mode with
    | str isKey body => rfl
    | _ => cases hmidρ
  have hescape {rest : Text} : (escapeFrom false false (trim t ++ rest)).2 =
      (escapeFrom ρ.inString ρ.escaped rest).2 := escapeFrom_run htrim
  have hstrict : parseLenient parse (trim t) = none := by
    refine parseLenient_eq_none hparse (fun haccepts => ?_) ?_
    · obtain ⟨τ, hrun, -, hended⟩ := accepts_iff.mp haccepts
      obtain rfl := Option.some.inj (htrim.symm.trans hrun)
      rw [(quiet_of_ended hended).2] at hmidρ
      cases hmidρ
    · rw [← List.append_nil (trim t), hescape]
      rfl
  have hrepaired : parseLenient parse (repairCommon (trim t)) = none := by
    refine parseLenient_eq_none hparse (mt (accepts_repairCommon htrim hcutρ).mp (not_closesInOrder hmidρ)) ?_
    rw [repairCommon_run htrim, hescape]
    refine escapeFrom_of_no_control fun c hc => ?_
    rw [hin, if_pos rfl] at hc
    rcases List.mem_append.mp hc with hc | hc
    · rw [List.mem_singleton.mp hc]
      decide
    · obtain ⟨f, -, rfl⟩ := List.mem_map.mp hc
      cases f <;> decide
  have hne : trim t ≠ [] := trim_ne_nil htrim hcutρ
  have hspan : extractJsonSpan (trim t) = some (trim t) := by
    obtain ⟨f, cs, hcs⟩ := trim_opens hopens hne
    have hend : trimEnd (trim t) = trim t := List.rdropWhile_idempotent _ _
    rw [hcs] at htrim hend ⊢
    rw [extractJsonSpan_run f htrim hin, hend]
  rw [healJson, if_neg (by simpa using hne)]
  simp [stripCodeFence_run htrim, hspan, hstrict, hrepaired]

/-- The brackets of the repaired text nest, and healing returns a value. -/
def Repaired (parse : Text → Option Json) (t : Text) : Prop :=
  nested (repairCommon t) = true ∧ (healJson parse t).isSome = true

/-- **Main result.** A prefix of a document that is cut after a value or inside a string value is
repaired if what is open at the cut is closed in the order of `close_unbalanced`, and a prefix of an array or
of an object only then. -/
theorem repairs_truncated {pre post : Text} (hparse : ∀ t, (parse t).isSome = accepts limit scalar t)
    (hdoc : accepts limit scalar (pre ++ post) = true) :
    ∃ σ, run limit scalar ⟨[], .value⟩ pre = some σ ∧ (IsCut scalar σ →
      (ClosesInOrder σ → Repaired parse pre) ∧
        (OpensBracket pre → (Repaired parse pre ↔ ClosesInOrder σ))) := by
  obtain ⟨σ, hrun⟩ := exists_run hdoc
  refine ⟨σ, hrun, fun hcut => ?_⟩
  have hforward : ClosesInOrder σ → Repaired parse pre := fun hcloses =>
    ⟨nested_of_accepts ((accepts_repairCommon hrun hcut).mpr hcloses), healJson_of_closes hparse hrun hcut hcloses⟩
  refine ⟨hforward, fun hopens => ⟨fun hrepaired => ?_, hforward⟩⟩
  obtain ⟨hnested, hheals⟩ := hrepaired
  have hmid : midEscape σ = false := by
    cases hmid : midEscape σ with
    | false => rfl
    | true =>
      rw [healJson_midEscape hparse hrun hcut hmid hopens] at hheals
      cases hheals
  exact ⟨arraysInnermost_of_nested hrun hmid hnested, hmid⟩

/-- Whole numbers and the three literals. -/
def sampleScalar (t : Text) : Bool :=
  t.all Char.isDigit || decide (t ∈ ["true", "false", "null"].map String.toList)

/-- A parser that knows one value. -/
def parseAs (value : Json) (t : Text) : Option Json :=
  if accepts 127 sampleScalar t then some value else none

theorem parseAs_isSome (value : Json) (t : Text) :
    (parseAs value t).isSome = accepts 127 sampleScalar t := by
  unfold parseAs
  cases accepts 127 sampleScalar t <;> rfl

theorem repairs_truncated_object :
    Repaired (parseAs (.obj [("a", .str "hello"), ("b", .num (.int 3))]))
      "\x7b\"a\": \"hello\", \"b\": 3".toList := by
  obtain ⟨σ, hrun, hrepaired⟩ := @repairs_truncated 127 sampleScalar
    (parseAs (.obj [("a", .str "hello"), ("b", .num (.int 3))]))
    "\x7b\"a\": \"hello\", \"b\": 3".toList "\x7d".toList (parseAs_isSome _) (by decide)
  have hcut : run 127 sampleScalar ⟨[], .value⟩ "\x7b\"a\": \"hello\", \"b\": 3".toList =
      some ⟨[.obj], .word ['3']⟩ := by decide
  obtain rfl := Option.some.inj (hcut.symm.trans hrun)
  exact (hrepaired (.inl rfl)).1 ⟨by decide, rfl⟩

/-- `[{"a":1` is closed as `[{"a":1]}`. -/
theorem array_closed_before_its_object :
    ¬ ∀ (limit : Nat) (scalar : Text → Bool) (parse : Text → Option Json) (pre post : Text) (σ : State),
      (∀ t, (parse t).isSome = accepts limit scalar t) → accepts limit scalar (pre ++ post) = true →
      run limit scalar ⟨[], .value⟩ pre = some σ → IsCut scalar σ → Repaired parse pre := by
  intro h
  have hcut : run 127 sampleScalar ⟨[], .value⟩ "[\x7b\"a\":1".toList = some ⟨[.obj, .arr], .word ['1']⟩ := by
    decide
  have hrepaired := h 127 sampleScalar (parseAs .null) "[\x7b\"a\":1".toList "\x7d]".toList _
    (parseAs_isSome _) (by decide) hcut (.inl rfl)
  have hinnermost := arraysInnermost_of_nested hcut rfl hrepaired.1
  revert hinnermost
  decide

end Nanna.Llm
