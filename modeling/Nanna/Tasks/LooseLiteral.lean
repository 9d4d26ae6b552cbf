import Nanna.Tasks.LooseScan

/-!
# Loose object literals

`repairs_loose_literal`: a value with bare keys and single quotes comes back from `repair_js_object_literal` and
the JSON parser exactly when none of its numbers has an exponent, of which the scanner takes the letter for a
bare word. String literals stay what they are, and a bare word in the place of a value is refused
(`repair_guess`).

The text of a value needs to be followed by what can follow a value (`Reads`), and what it comes out as is put
together over the value (`reads_print`). A text before a bare word is taken apart into literals and single
characters, and the failure at the word is carried back over them (`repair_none_of_lexemes`).
-/

namespace Nanna.Tasks

open Nanna.Lib

variable {d : Dialect} {c : Char} {cs rest t : Text}

/-! ## Values -/

variable (d) in
/-- The text of a value is rewritten as `out`. -/
def Reads (t : Text) (out : Option Text) : Prop :=
  ∀ rest, Ends rest → repairJsObjectLiteral d (t ++ rest) =
    out.bind fun out => (repairJsObjectLiteral d rest).map (out ++ ·)

theorem Passes.reads {out : Text} (h : Passes d t out) : Reads d t (some out) := fun rest _ => h rest

theorem Passes.append_reads {s s' : Text} {out : Option Text} (h : Passes d s s') (h' : Reads d t out) :
    Reads d (s ++ t) (out.map (s' ++ ·)) := by
  intro rest hrest
  rw [List.append_assoc, h, h' rest hrest]
  cases out with
  | none => rfl
  | some out =>
    rw [Option.map_some, Option.bind_some, Option.bind_some, Option.map_map]
    congr 1
    funext later
    exact (List.append_assoc _ _ _).symm

theorem Reads.append {u : Text} {out out' : Option Text} (h : Reads d t out)
    (hu : ∀ rest, Ends rest → Ends (u ++ rest)) (h' : Reads d u out') :
    Reads d (t ++ u) (out.bind fun out => out'.map (out ++ ·)) := by
  intro rest hrest
  rw [List.append_assoc, h _ (hu rest hrest), h' rest hrest]
  cases out with
  | none => rfl
  | some out =>
    cases out' with
    | none => rfl
    | some out' =>
      simp only [Option.bind_some, Option.map_some, Option.map_map]
      congr 1
      funext later
      exact (List.append_assoc _ _ _).symm

section

variable (hascii : d.Ascii)
include hascii

theorem reads_literal {word : Text}
    (hword : word = "true".toList ∨ word = "false".toList ∨ word = "null".toList) :
    Reads d word (some word) := by
  intro rest hrest
  obtain ⟨c, cs, rfl, hc, hall⟩ : ∃ c cs, word = c :: cs ∧ c.isAlpha = true ∧
      (c :: cs).all (fun x => x.toNat < 128 && x.isAlphanum) = true := by
    rcases hword with rfl | rfl | rfl
    · exact ⟨'t', "rue".toList, rfl, rfl, rfl⟩
    · exact ⟨'f', "alse".toList, rfl, rfl, rfl⟩
    · exact ⟨'n', "ull".toList, rfl, rfl, rfl⟩
  have hcs : ∀ x ∈ c :: cs, x.toNat < 128 ∧ x.isAlphanum = true := fun x hx => by
    simpa using List.all_eq_true.mp hall x hx
  have hstart : d.startsWord c = true := by
    unfold Dialect.startsWord
    rw [hascii.alphabetic c (hcs c List.mem_cons_self).1, hc]
    rfl
  have hrun : ∀ c ∈ cs, d.isWord c = true := fun c hmem => by
    obtain ⟨hlt, halnum⟩ := hcs c (List.mem_cons_of_mem _ hmem)
    rw [isWord_ascii hascii hlt, halnum]
    rfl
  rw [repair_word hascii hstart hrun (hrest.head hascii), repairWord_literal hrest.value_position hword]

theorem isCopied_numeral (hc : c.isDigit = true ∨ c ∈ ['-', '+', '.', 'e', 'E']) (he : c ≠ 'e')
    (hE : c ≠ 'E') : d.isCopied c = true := by
  rcases hc with hc | hc
  · have hrange := Text.isDigit_iff.mp hc
    have halpha : c.isAlpha = false := by
      rw [← Bool.not_eq_true, Text.isAlpha_iff]
      omega
    have hne : ∀ x : Char, x.isDigit = false → c ≠ x := by
      rintro x hx rfl
      rw [hx] at hc
      cases hc
    rw [isCopied_ascii hascii (by omega), halpha]
    simp [hne '"' rfl, hne '\'' rfl, hne '_' rfl]
  · simp only [List.mem_cons, List.not_mem_nil, or_false] at hc
    rcases hc with rfl | rfl | rfl | rfl | rfl
    · rw [isCopied_ascii hascii (by decide)]
      decide
    · rw [isCopied_ascii hascii (by decide)]
      decide
    · rw [isCopied_ascii hascii (by decide)]
      decide
    · exact absurd rfl he
    · exact absurd rfl hE

omit hascii in
theorem find?_append_ne {p : Char → Bool} {u : Text} (hu : ∀ x ∈ u, x ≠ ':')
    (hrest : rest.find? p ≠ some ':') :
    (u ++ rest).find? p ≠ some ':' := by
  rw [List.find?_append]
  cases hfound : u.find? p with
  | none => rwa [Option.none_or]
  | some x =>
    intro h
    exact hu x (List.mem_of_find?_eq_some hfound) (Option.some.inj h)

theorem value_position_dropWhile (h : Ends rest) (ht : ∀ x ∈ t, x ≠ ':') :
    ValuePosition ((t ++ rest).dropWhile d.isWord) := by
  have hkept : rest.dropWhile d.isWord = rest := by
    cases rest with
    | nil => rfl
    | cons r rest => exact List.dropWhile_cons_of_neg (by simp [h.head hascii r rfl])
  rw [List.dropWhile_append, hkept]
  split
  · exact h.value_position
  · exact find?_append_ne (fun x hx => ht x ((List.dropWhile_sublist _).subset hx)) h.value_position

/-- A number is copied, unless an exponent makes a word of its end. -/
theorem reads_number (hchars : ∀ c ∈ t, c.isDigit = true ∨ c ∈ ['-', '+', '.', 'e', 'E']) :
    Reads d t (if t.all (fun c => c ≠ 'e' && c ≠ 'E') then some t else none) := by
  induction t with
  | nil => exact Passes.nil.reads
  | cons c t ih =>
    have hrest := ih fun c hc => hchars c (List.mem_cons_of_mem _ hc)
    by_cases hexp : c = 'e' ∨ c = 'E'
    · -- The exponent begins a word that no colon follows.
      intro rest hends
      have hstart : d.startsWord c = true := by
        unfold Dialect.startsWord
        rcases hexp with rfl | rfl <;> rw [hascii.alphabetic _ (by decide)] <;> rfl
      have hplain : (c :: t).all (fun c => c ≠ 'e' && c ≠ 'E') = false := by
        rcases hexp with rfl | rfl <;> simp
      have hposition : ValuePosition ((t ++ rest).dropWhile d.isWord) :=
        value_position_dropWhile hascii hends fun x hx => by
          rintro rfl
          rcases hchars ':' (List.mem_cons_of_mem _ hx) with h | h <;> revert h <;> decide
      have hguess : ¬ ((c :: (t ++ rest).takeWhile d.isWord) = "true".toList ∨
          (c :: (t ++ rest).takeWhile d.isWord) = "false".toList ∨
          (c :: (t ++ rest).takeWhile d.isWord) = "null".toList) := by
        rintro (h | h | h) <;> rcases hexp with rfl | rfl <;> cases (List.cons.inj h).1
      obtain ⟨hdouble, hsingle⟩ := startsWord_not_quote hascii hstart
      rw [hplain, List.cons_append, repair_cons, turn, if_neg hdouble, if_neg hsingle, if_pos hstart,
        repairWord_guess hposition hguess]
      rfl
    · obtain ⟨he, hE⟩ := not_or.mp hexp
      have hpass : Passes d [c] [c] := passes_copied fun x hx => by
        rw [List.mem_singleton.mp hx]
        exact isCopied_numeral hascii (hchars c List.mem_cons_self) he hE
      have hall : (c :: t).all (fun c => c ≠ 'e' && c ≠ 'E') = t.all (fun c => c ≠ 'e' && c ≠ 'E') := by
        simp [he, hE]
      have hread := hpass.append_reads hrest
      rw [hall]
      cases hplain : t.all (fun c => c ≠ 'e' && c ≠ 'E') with
      | true =>
        rw [hplain] at hread
        exact hread
      | false =>
        rw [hplain] at hread
        exact hread

end

variable (d) in
/-- A letter or an underscore, then letters, digits and underscores. -/
def isIdentifier : Text → Bool
  | [] => false
  | c :: cs => d.startsWord c && cs.all d.isWord

section

variable (hascii : d.Ascii)
include hascii

theorem escapeChar_word (hc : d.isWord c = true) : escapeChar '"' c = [c] := by
  have hne : ∀ x : Char, x.toNat < 128 → (x.isAlphanum || x == '_') = false → c ≠ x := by
    rintro x hlt hx rfl
    rw [isWord_ascii hascii hlt, hx] at hc
    cases hc
  have hquote : c ≠ '"' := hne _ (by decide) rfl
  have hslash : c ≠ '\\' := hne _ (by decide) rfl
  have hcontrol : ¬ c.toNat < 0x20 := by
    intro hlt
    rw [isWord_ascii hascii (by omega)] at hc
    have halnum : c.isAlphanum = false := by
      rw [← Bool.not_eq_true, Text.isAlphanum_iff, Text.isAlpha_iff, Text.isDigit_iff]
      omega
    rw [halnum, Bool.false_or, beq_iff_eq] at hc
    subst hc
    revert hlt
    decide
  unfold escapeChar
  rw [if_neg (not_or.mpr ⟨hquote, hslash⟩), if_neg hcontrol]

theorem quoted_identifier {key : Text} (hkey : isIdentifier d key = true) :
    quoted '"' key = '"' :: key ++ ['"'] := by
  have hword : ∀ c ∈ key, escapeChar '"' c = [c] := by
    cases key with
    | nil => cases hkey
    | cons c cs =>
      obtain ⟨hc, hcs⟩ := Bool.and_eq_true_iff.mp hkey
      intro x hx
      refine escapeChar_word hascii ?_
      rcases List.mem_cons.mp hx with rfl | hx
      · exact isWord_of_startsWord hc
      · exact List.all_eq_true.mp hcs x hx
  have hflat : key.flatMap (escapeChar '"') = key := by
    rw [List.flatMap_congr hword]
    exact List.flatMap_singleton' key
  rw [quoted, hflat]

theorem isCopied_punctuation
    (hc : c ∈ [' ', '\t', '\n', '\r'] ∨ c ∈ [':', ',', '[', ']', '\x7b', '\x7d']) :
    d.isCopied c = true ∧ d.isWord c = false := by
  have hlt : c.toNat < 128 ∧ (c ≠ '"' && c ≠ '\'' && ! c.isAlpha && c ≠ '_') = true ∧
      (c.isAlphanum || c == '_') = false := by
    simp only [List.mem_cons, List.not_mem_nil, or_false] at hc
    rcases hc with (rfl | rfl | rfl | rfl) | (rfl | rfl | rfl | rfl | rfl | rfl) <;> decide
  obtain ⟨hlt, hcopied, hword⟩ := hlt
  exact ⟨(isCopied_ascii hascii hlt).trans hcopied, (isWord_ascii hascii hlt).trans hword⟩

theorem passes_gap (layout : Layout) (g : Gap) (depth : Nat) :
    Passes d (layout.gap g depth) (layout.gap g depth) :=
  passes_copied fun c hc => (isCopied_punctuation hascii (.inl (layout.blank g depth c hc))).1

theorem passes_sign (hc : c ∈ [':', ',', '[', ']', '\x7b', '\x7d']) : Passes d [c] [c] :=
  passes_copied fun x hx => by
    rw [List.mem_singleton.mp hx]
    exact (isCopied_punctuation hascii (.inr hc)).1

/-- A bare key with its colon. -/
theorem passes_key (layout : Layout) (depth : Nat) {key : Text} (hkey : isIdentifier d key = true) :
    Passes d (key ++ Json.colon layout depth) (quoted '"' key ++ Json.colon layout depth) := by
  intro rest
  have hblanks := layout.blank .beforeColon depth
  have hcolon : Passes d (Json.colon layout depth) (Json.colon layout depth) :=
    (passes_gap hascii layout .beforeColon depth).append
      ((passes_sign hascii (by decide)).append (passes_gap hascii layout .afterColon depth))
  have hposition : ¬ ValuePosition (Json.colon layout depth ++ rest) := by
    unfold ValuePosition Json.colon
    rw [List.append_assoc, List.find?_append, find?_blanks hblanks]
    exact not_not.mpr rfl
  have hhead : ∀ c ∈ (Json.colon layout depth ++ rest).head?, d.isWord c = false := by
    intro c hc
    refine (isCopied_punctuation hascii ?_).2
    unfold Json.colon at hc
    cases hgap : layout.gap .beforeColon depth with
    | nil =>
      rw [hgap] at hc
      cases hc
      exact .inr (by decide)
    | cons b blanks =>
      rw [hgap] at hc hblanks
      obtain rfl := Option.some.inj hc
      exact .inl (hblanks b List.mem_cons_self)
  cases key with
  | nil => cases hkey
  | cons c cs =>
    obtain ⟨hc, hcs⟩ := Bool.and_eq_true_iff.mp hkey
    rw [List.append_assoc, repair_word hascii hc (List.all_eq_true.mp hcs) hhead, repairWord_key hposition,
      hcolon, quoted_identifier hascii hkey, Option.bind_some, Option.map_map]
    congr 1
    funext later
    exact (List.append_assoc _ _ _).symm

omit hascii in
theorem Ends.cons (hc : c ∈ [',', ']', '\x7d']) : Ends (c :: rest) :=
  ⟨[], c :: rest, rfl, List.forall_mem_nil _, fun x hx => by rwa [← Option.some.inj hx]⟩

omit hascii in
theorem Ends.gap (layout : Layout) (g : Gap) (depth : Nat) (h : Ends rest) :
    Ends (layout.gap g depth ++ rest) := by
  obtain ⟨blanks, tail, rfl, hblanks, htail⟩ := h
  refine ⟨layout.gap g depth ++ blanks, tail, (List.append_assoc _ _ _).symm, fun c hc => ?_, htail⟩
  rcases List.mem_append.mp hc with hc | hc
  · exact layout.blank g depth c hc
  · exact hblanks c hc

variable (numerals : Numerals) (layout : Layout)

/-- An array or an object around its text. -/
theorem reads_bracketed {opener closer : Char} {t t' : Text} {p : Bool} (depth : Nat)
    (hopener : opener ∈ [':', ',', '[', ']', '\x7b', '\x7d']) (hcloser : closer ∈ [',', ']', '\x7d'])
    (h : Reads d t (if p then some t' else none)) :
    Reads d (opener :: layout.gap .afterOpen depth ++ t ++ layout.gap .beforeClose depth ++ [closer])
      (if p then some (opener :: layout.gap .afterOpen depth ++ t' ++ layout.gap .beforeClose depth ++ [closer])
        else none) := by
  have hsign : closer ∈ [':', ',', '[', ']', '\x7b', '\x7d'] := by
    simp only [List.mem_cons, List.not_mem_nil, or_false] at hcloser ⊢
    tauto
  have hleft : Passes d ([opener] ++ layout.gap .afterOpen depth) ([opener] ++ layout.gap .afterOpen depth) :=
    (passes_sign hascii hopener).append (passes_gap hascii layout .afterOpen depth)
  have hright : Passes d (layout.gap .beforeClose depth ++ [closer])
      (layout.gap .beforeClose depth ++ [closer]) :=
    (passes_gap hascii layout .beforeClose depth).append (passes_sign hascii hsign)
  have hends : ∀ rest, Ends rest → Ends (layout.gap .beforeClose depth ++ [closer] ++ rest) := fun rest _ => by
    rw [List.append_assoc]
    exact .gap layout .beforeClose depth (.cons hcloser)
  have hread := (hleft.append_reads h).append hends hright.reads
  cases p with
  | true => simpa using hread
  | false => simpa using hread

/-- An element and those after it. -/
theorem reads_separated {t t' u u' : Text} {p q last : Bool} (depth : Nat)
    (h : Reads d t (if p then some t' else none)) (h' : Reads d u (if q then some u' else none))
    (hlast : last = true → u = [] ∧ u' = [] ∧ q = true) :
    Reads d (t ++ (if last then [] else Json.comma layout depth) ++ u)
      (if p && q then some (t' ++ (if last then [] else Json.comma layout depth) ++ u') else none) := by
  cases last with
  | true =>
    obtain ⟨rfl, rfl, rfl⟩ := hlast rfl
    simpa using h
  | false =>
    have hcomma : Passes d (Json.comma layout depth) (Json.comma layout depth) :=
      (passes_gap hascii layout .beforeComma depth).append
        ((passes_sign hascii (by decide)).append (passes_gap hascii layout .afterComma depth))
    have hends : ∀ rest, Ends rest → Ends (Json.comma layout depth ++ u ++ rest) := fun rest _ => by
      unfold Json.comma
      rw [List.append_assoc, List.append_assoc]
      exact .gap layout .beforeComma depth (.cons (by decide))
    have hread := h.append hends (hcomma.append_reads h')
    cases p <;> cases q <;> simpa using hread

mutual
theorem reads_print (v : Json) (depth : Nat) (hkeys : v.allKeys (isIdentifier d) = true) :
    Reads d (v.print numerals layout .loose depth)
      (if v.allNumbers numerals.isPlain then some (v.print numerals layout .strict depth) else none) := by
  cases v with
  | null => exact reads_literal hascii (.inr (.inr rfl))
  | bool b =>
    cases b with
    | true => exact reads_literal hascii (.inl rfl)
    | false => exact reads_literal hascii (.inr (.inl rfl))
  | num n => exact reads_number hascii (numerals.chars n)
  | str s => exact (passes_quoted s.toList).reads
  | arr xs =>
    exact reads_bracketed hascii layout depth (by decide) (by decide) (reads_items xs (depth + 1) hkeys)
  | obj kvs =>
    exact reads_bracketed hascii layout depth (by decide) (by decide) (reads_members kvs (depth + 1) hkeys)

theorem reads_items (xs : List Json) (depth : Nat) (hkeys : Json.allKeysItems (isIdentifier d) xs = true) :
    Reads d (Json.printItems numerals layout .loose depth xs)
      (if Json.allNumbersItems numerals.isPlain xs then some (Json.printItems numerals layout .strict depth xs)
        else none) := by
  cases xs with
  | nil => exact Passes.nil.reads
  | cons x xs =>
    obtain ⟨hx, hxs⟩ := Bool.and_eq_true_iff.mp hkeys
    refine reads_separated hascii layout depth (reads_print x depth hx) (reads_items xs depth hxs)
      fun hlast => ?_
    obtain rfl : xs = [] := List.isEmpty_iff.mp hlast
    exact ⟨rfl, rfl, rfl⟩

theorem reads_members (kvs : List (String × Json)) (depth : Nat)
    (hkeys : Json.allKeysMembers (isIdentifier d) kvs = true) :
    Reads d (Json.printMembers numerals layout .loose depth kvs)
      (if Json.allNumbersMembers numerals.isPlain kvs then
        some (Json.printMembers numerals layout .strict depth kvs) else none) := by
  cases kvs with
  | nil => exact Passes.nil.reads
  | cons kv kvs =>
    obtain ⟨k, x⟩ := kv
    obtain ⟨hhead, hkvs⟩ := Bool.and_eq_true_iff.mp hkeys
    obtain ⟨hk, hx⟩ := Bool.and_eq_true_iff.mp hhead
    have hmember := (passes_key hascii layout depth hk).append_reads (reads_print x depth hx)
    rw [apply_ite (Option.map _), Option.map_some, Option.map_none] at hmember
    refine reads_separated hascii layout depth hmember (reads_members kvs depth hkvs) fun hlast => ?_
    obtain rfl : kvs = [] := List.isEmpty_iff.mp hlast
    exact ⟨rfl, rfl, rfl⟩
end

/-- A whole literal. -/
theorem repair_print (v : Json) (hkeys : v.allKeys (isIdentifier d) = true) :
    repairJsObjectLiteral d (v.print numerals layout .loose 0) =
      if v.allNumbers numerals.isPlain then some (v.print numerals layout .strict 0) else none := by
  have hends : Ends [] := ⟨[], [], rfl, List.forall_mem_nil _, fun c hc => by cases hc⟩
  have hread := reads_print hascii numerals layout v 0 hkeys [] hends
  rw [List.append_nil] at hread
  rw [hread]
  split
  · exact congrArg some (List.append_nil _)
  · rfl

end

/-! ## A bare value -/

/-- A string literal, or a character outside of them. -/
inductive Lexeme
  | char (c : Char)
  | single (ps : List Piece)
  | double (ps : List Piece)

def Lexeme.text : Lexeme → Text
  | char c => [c]
  | single ps => '\'' :: ps.flatMap Piece.text ++ ['\'']
  | double ps => '"' :: ps.flatMap Piece.text ++ ['"']

def Lexeme.Fits : Lexeme → Prop
  | char c => c ≠ '"' ∧ c ≠ '\''
  | single ps => ∀ p ∈ ps, p.Fits '\''
  | double ps => ∀ p ∈ ps, p.Fits '"'

section

variable (hascii : d.Ascii)
include hascii

/-- Only characters outside of string literals are dropped as the rest of a word. -/
theorem dropWhile_lexemes (ts : List Lexeme) :
    ∃ ts', ts' <:+ ts ∧ (ts.flatMap Lexeme.text).dropWhile d.isWord = ts'.flatMap Lexeme.text := by
  induction ts with
  | nil => exact ⟨[], List.suffix_refl _, rfl⟩
  | cons tok ts ih =>
    obtain ⟨ts', hsuffix, hdrop⟩ := ih
    have hkept : ∀ {c : Char} {cs : Text}, tok.text = c :: cs → d.isWord c = false →
        ∃ ts', ts' <:+ tok :: ts ∧
          ((tok :: ts).flatMap Lexeme.text).dropWhile d.isWord = ts'.flatMap Lexeme.text := by
      intro c cs htext hc
      refine ⟨tok :: ts, List.suffix_refl _, ?_⟩
      rw [List.flatMap_cons, htext, List.cons_append, List.dropWhile_cons_of_neg (by simp [hc])]
    have hquotes : d.isWord '"' = false ∧ d.isWord '\'' = false :=
      ⟨isWord_ascii hascii (by decide), isWord_ascii hascii (by decide)⟩
    cases tok with
    | single ps => exact hkept rfl hquotes.2
    | double ps => exact hkept rfl hquotes.1
    | char c =>
      cases hc : d.isWord c with
      | false => exact hkept rfl hc
      | true =>
        refine ⟨ts', hsuffix.trans (List.suffix_cons _ _), ?_⟩
        rw [List.flatMap_cons, Lexeme.text, List.singleton_append, List.dropWhile_cons_of_pos hc, hdrop]

theorem repair_none_of_lexemes (hnone : repairJsObjectLiteral d t = none) (ts : List Lexeme)
    (hts : ∀ x ∈ ts, x.Fits) (hlast : ∀ c ∈ (ts.flatMap Lexeme.text).getLast?, d.isWord c = false) :
    repairJsObjectLiteral d (ts.flatMap Lexeme.text ++ t) = none := by
  induction hn : ts.length using Nat.strong_induction_on generalizing ts with
  | _ n ih =>
    have hrest : ∀ (pre : Text) (ts' : List Lexeme), ts'.length < ts.length → ts' <:+ ts →
        ts.flatMap Lexeme.text = pre ++ ts'.flatMap Lexeme.text →
        repairJsObjectLiteral d (ts'.flatMap Lexeme.text ++ t) = none := by
      intro pre ts' hlength hsuffix htext
      refine ih _ (hn ▸ hlength) ts' (fun x hx => hts x (hsuffix.subset hx)) (fun c hc => ?_) rfl
      refine hlast c ?_
      rw [htext, List.getLast?_append, Option.mem_def.mp hc]
      rfl
    cases ts with
    | nil => exact hnone
    | cons tok ts =>
      have hnext : repairJsObjectLiteral d (ts.flatMap Lexeme.text ++ t) = none :=
        hrest tok.text ts (Nat.lt_succ_self _) (List.suffix_cons _ _) rfl
      have hfits := hts tok List.mem_cons_self
      rw [List.flatMap_cons, List.append_assoc]
      cases tok with
      | single ps => rw [Lexeme.text, passes_single hfits, hnext, Option.map_none]
      | double ps => rw [Lexeme.text, passes_double hfits, hnext, Option.map_none]
      | char c =>
        cases hc : d.startsWord c with
        | false =>
          have hcopied : d.isCopied c = true := by simp [Dialect.isCopied, hfits.1, hfits.2, hc]
          have hpass : Passes d [c] [c] := passes_copied fun x hx => by rwa [List.mem_singleton.mp hx]
          rw [Lexeme.text, hpass, hnext, Option.map_none]
        | true =>
          -- The word ends before the lexemes do.
          obtain ⟨ts', hsuffix, hdrop⟩ := dropWhile_lexemes hascii ts
          have hc' : d.isWord c = true := isWord_of_startsWord hc
          have hne : ((ts.flatMap Lexeme.text).dropWhile d.isWord).isEmpty = false := by
            by_contra hempty
            have hall := List.dropWhile_eq_nil_iff.mp (List.isEmpty_iff.mp (Bool.not_eq_false _ ▸ hempty))
            obtain ⟨x, hx⟩ : ∃ x, ((Lexeme.char c :: ts).flatMap Lexeme.text).getLast? = some x :=
              Option.ne_none_iff_exists'.mp (by simp [Lexeme.text])
            have hword : d.isWord x = true := by
              rcases List.mem_cons.mp (List.mem_of_getLast? hx) with rfl | hx
              · exact hc'
              · exact hall x hx
            rw [hlast x hx] at hword
            cases hword
          have hdropped : (ts.flatMap Lexeme.text ++ t).dropWhile d.isWord = ts'.flatMap Lexeme.text ++ t := by
            rw [List.dropWhile_append, hne, hdrop]
            rfl
          have hlater : repairJsObjectLiteral d (ts'.flatMap Lexeme.text ++ t) = none := by
            refine hrest (c :: (ts.flatMap Lexeme.text).takeWhile d.isWord) ts'
              (Nat.lt_succ_of_le hsuffix.length_le) (hsuffix.trans (List.suffix_cons _ _)) ?_
            rw [← hdrop, List.cons_append, List.takeWhile_append_dropWhile]
            rfl
          rw [Lexeme.text, List.singleton_append, repair_cons, turn, if_neg hfits.1, if_neg hfits.2, if_pos hc,
            Option.bind_map, hdropped]
          cases repairWord (c :: (ts.flatMap Lexeme.text ++ t).takeWhile d.isWord)
            (ts'.flatMap Lexeme.text ++ t) with
          | none => rfl
          | some out =>
            rw [Option.bind_some, Function.comp_apply, hlater]
            rfl

/-- A bare word that no colon follows is not guessed at. -/
theorem repair_guess {ts : List Lexeme} {word post : Text} (hts : ∀ x ∈ ts, x.Fits)
    (hbefore : ∀ c ∈ (ts.flatMap Lexeme.text).getLast?, d.isWord c = false)
    (hword : isIdentifier d word = true)
    (hliteral : ¬ (word = "true".toList ∨ word = "false".toList ∨ word = "null".toList))
    (hafter : ∀ c ∈ post.head?, d.isWord c = false) (hposition : ValuePosition post) :
    repairJsObjectLiteral d (ts.flatMap Lexeme.text ++ (word ++ post)) = none := by
  refine repair_none_of_lexemes hascii ?_ ts hts hbefore
  cases word with
  | nil => cases hword
  | cons c cs =>
    obtain ⟨hc, hcs⟩ := Bool.and_eq_true_iff.mp hword
    rw [repair_word hascii hc (List.all_eq_true.mp hcs) hafter, repairWord_guess hposition hliteral,
      Option.bind_none]

/-- **Main result.** A value with bare keys and single quotes comes back from the repair exactly when no number
in it has an exponent; string literals stay what they are, and a bare word in the place of a value is refused. -/
theorem repairs_loose_literal :
    (∀ (numerals : Numerals) (layout : Layout) (v : Json), v.allKeys (isIdentifier d) = true →
      d.parse (v.print numerals layout .strict 0) = some v →
        ((repairJsObjectLiteral d (v.print numerals layout .loose 0)).bind d.parse = some v ↔
          v.allNumbers numerals.isPlain = true)) ∧
      (∀ ps : List Piece, (∀ p ∈ ps, p.Fits '\'') →
        Passes d ('\'' :: ps.flatMap Piece.text ++ ['\'']) ('"' :: ps.flatMap Piece.requoted ++ ['"'])) ∧
      (∀ ps : List Piece, (∀ p ∈ ps, p.Fits '"') →
        Passes d ('"' :: ps.flatMap Piece.text ++ ['"']) ('"' :: ps.flatMap Piece.text ++ ['"'])) ∧
      ∀ (ts : List Lexeme) (word post : Text), (∀ x ∈ ts, x.Fits) →
        (∀ c ∈ (ts.flatMap Lexeme.text).getLast?, d.isWord c = false) → isIdentifier d word = true →
        ¬ (word = "true".toList ∨ word = "false".toList ∨ word = "null".toList) →
        (∀ c ∈ post.head?, d.isWord c = false) → ValuePosition post →
          repairJsObjectLiteral d (ts.flatMap Lexeme.text ++ (word ++ post)) = none := by
  refine ⟨fun numerals layout v hkeys hparse => ?_, fun ps hps => passes_single hps,
    fun ps hps => passes_double hps, fun ts word post hts hbefore hword hliteral hafter hposition =>
      repair_guess hascii hts hbefore hword hliteral hafter hposition⟩
  rw [repair_print hascii numerals layout v hkeys]
  cases hplain : v.allNumbers numerals.isPlain with
  | true => simp [hparse]
  | false => simp

end

/-- The texts of two numbers. -/
def sampleNumerals : Numerals where
  text n := if n = .int 600 then "600".toList else "1e16".toList
  chars n c hc := by
    have hall : ("600".toList ++ "1e16".toList).all
        (fun c => c.isDigit || decide (c ∈ ['-', '+', '.', 'e', 'E'])) = true := rfl
    have hmem : c ∈ "600".toList ++ "1e16".toList := by
      split at hc
      · exact List.mem_append_left _ hc
      · exact List.mem_append_right _ hc
    simpa using List.all_eq_true.mp hall c hmem

/-- A parser that reads one value. -/
def readsBack (v : Json) : Dialect where
  parse t := if t = v.print sampleNumerals .line .strict 0 then some v else none
  complaint _ := "not a check"
  isAlphabetic := Char.isAlpha
  isNumeric := Char.isDigit

theorem readsBack_ascii (v : Json) : (readsBack v).Ascii := ⟨fun _ _ => rfl, fun _ _ => rfl⟩

theorem readsBack_parse (v : Json) :
    (readsBack v).parse (v.print sampleNumerals .line .strict 0) = some v := by
  simp [readsBack]

/-- A check with both kinds of quotes in its command. -/
def quotedCheck : Json :=
  .obj [("kind", .str "command"), ("command", .str "echo '\"a\": 1'"), ("timeout_secs", .num (.int 600))]

theorem repairs_loose_literal_check :
    quotedCheck.print sampleNumerals .line .loose 0 =
        "\x7bkind: 'command', command: 'echo \\'\"a\": 1\\'', timeout_secs: 600\x7d".toList ∧
      (repairJsObjectLiteral (readsBack quotedCheck) (quotedCheck.print sampleNumerals .line .loose 0)).bind
        (readsBack quotedCheck).parse = some quotedCheck :=
  ⟨by decide, ((repairs_loose_literal (readsBack_ascii quotedCheck)).1 sampleNumerals .line quotedCheck
    (by decide) (readsBack_parse _)).mpr (by decide)⟩

/-- `{timeout_secs: 1e16}`. -/
def longCheck : Json := .obj [("timeout_secs", .num (.float 0x4341C37937E08000#64))]

theorem exponent_refused :
    ¬ ∀ (d : Dialect) (numerals : Numerals) (layout : Layout) (v : Json), d.Ascii →
      v.allKeys (isIdentifier d) = true → d.parse (v.print numerals layout .strict 0) = some v →
        (repairJsObjectLiteral d (v.print numerals layout .loose 0)).bind d.parse = some v := by
  intro h
  have hread := h (readsBack longCheck) sampleNumerals .line longCheck (readsBack_ascii _) (by decide)
    (readsBack_parse _)
  rw [repair_print (readsBack_ascii _) sampleNumerals .line longCheck (by decide)] at hread
  revert hread
  decide

end Nanna.Tasks
