import Nanna.Lib.Json
import Nanna.Lib.Text

/-!
# Writing JSON values

`Json.print` writes a value in a style (how keys and strings look) and a layout (the blanks at every depth).
`Style.strict` is JSON; `Style.loose` has bare keys and single quotes, as object literals in JavaScript do.
Numbers are written by `Numerals`, which the texts of numbers in JSON are all cases of.
-/

namespace Nanna.Lib

/-! ## Blanks and numbers -/

inductive Gap
  | afterOpen
  | beforeClose
  | beforeColon
  | afterColon
  | beforeComma
  | afterComma

/-- The blanks in every gap, by depth. -/
structure Layout where
  gap : Gap → Nat → Text
  blank : ∀ g depth, ∀ c ∈ gap g depth, c ∈ [' ', '\t', '\n', '\r']

/-- Everything on one line. -/
def Layout.line : Layout where
  gap
    | .afterColon, _ | .afterComma, _ => [' ']
    | _, _ => []
  blank g depth c hc := by
    cases g <;> simp_all

structure Numerals where
  text : JsonNumber → Text
  chars : ∀ n, ∀ c ∈ text n, c.isDigit = true ∨ c ∈ ['-', '+', '.', 'e', 'E']

/-- No exponent. -/
def Numerals.isPlain (numerals : Numerals) (n : JsonNumber) : Bool :=
  (numerals.text n).all fun c => c ≠ 'e' && c ≠ 'E'

/-! ## Strings -/

/-- A character of a string literal between two `quote`s. -/
def escapeChar (quote c : Char) : Text :=
  if c = quote ∨ c = '\\' then ['\\', c]
  else if c.toNat < 0x20 then
    ['\\', 'u', '0', '0', Nat.digitChar (c.toNat / 16), Nat.digitChar (c.toNat % 16)]
  else [c]

def quoted (quote : Char) (t : Text) : Text := quote :: t.flatMap (escapeChar quote) ++ [quote]

variable {c d : Char} {s t u v r r' : Text}

theorem escapeChar_cases (c : Char) :
    ((c = '"' ∨ c = '\\') ∧ escapeChar '"' c = ['\\', c]) ∨
      (c.toNat < 0x20 ∧ escapeChar '"' c =
        ['\\', 'u', '0', '0', Nat.digitChar (c.toNat / 16), Nat.digitChar (c.toNat % 16)]) ∨
      (c ≠ '"' ∧ c ≠ '\\' ∧ escapeChar '"' c = [c]) := by
  by_cases hmark : c = '"' ∨ c = '\\'
  · exact .inl ⟨hmark, if_pos hmark⟩
  · by_cases hcontrol : c.toNat < 0x20
    · exact .inr (.inl ⟨hcontrol, by rw [escapeChar, if_neg hmark, if_pos hcontrol]⟩)
    · rw [not_or] at hmark
      exact .inr (.inr ⟨hmark.1, hmark.2, by rw [escapeChar, if_neg (not_or.mpr hmark), if_neg hcontrol]⟩)

theorem digits_inj (hc : c.toNat < 0x20) (hd : d.toNat < 0x20)
    (hhigh : Nat.digitChar (c.toNat / 16) = Nat.digitChar (d.toNat / 16))
    (hlow : Nat.digitChar (c.toNat % 16) = Nat.digitChar (d.toNat % 16)) : c = d := by
  have hinj : ∀ a < 16, ∀ b < 16, Nat.digitChar a = Nat.digitChar b → a = b := by decide
  have hhigh := hinj _ (by omega) _ (by omega) hhigh
  have hlow := hinj _ (by omega) _ (by omega) hlow
  exact Char.toNat_inj.mp (by omega)

theorem escapeChar_cancel (h : escapeChar '"' c ++ u = escapeChar '"' d ++ v) : c = d ∧ u = v := by
  rcases escapeChar_cases c with ⟨hc, hesc⟩ | ⟨hc, hesc⟩ | ⟨-, hc, hesc⟩ <;>
    rcases escapeChar_cases d with ⟨hd, hesc'⟩ | ⟨hd, hesc'⟩ | ⟨-, hd, hesc'⟩ <;>
    simp only [hesc, hesc', List.cons_append, List.nil_append, List.cons.injEq] at h
  · exact ⟨h.2.1, h.2.2⟩
  · exact absurd h.2.1 (by rcases hc with rfl | rfl <;> decide)
  · exact absurd h.1.symm hd
  · exact absurd h.2.1.symm (by rcases hd with rfl | rfl <;> decide)
  · exact ⟨digits_inj hc hd h.2.2.2.2.1 h.2.2.2.2.2.1, h.2.2.2.2.2.2⟩
  · exact absurd h.1.symm hd
  · exact absurd h.1 hc
  · exact absurd h.1 hc
  · exact h

theorem escapeChar_head (c : Char) : ∃ a rest, escapeChar '"' c = a :: rest ∧ a ≠ '"' := by
  rcases escapeChar_cases c with ⟨-, hesc⟩ | ⟨-, hesc⟩ | ⟨hc, -, hesc⟩
  · exact ⟨_, _, hesc, by decide⟩
  · exact ⟨_, _, hesc, by decide⟩
  · exact ⟨_, _, hesc, hc⟩

/-- A string literal ends by itself. -/
theorem quoted_cancel (h : quoted '"' s ++ r = quoted '"' t ++ r') : s = t ∧ r = r' := by
  simp only [quoted, List.cons_append, List.append_assoc, List.nil_append, List.cons.injEq, true_and] at h
  induction s generalizing t with
  | nil =>
    cases t with
    | nil => exact ⟨rfl, (List.cons.inj h).2⟩
    | cons d t =>
      rw [List.flatMap_cons, List.append_assoc] at h
      obtain ⟨a, rest, hesc, ha⟩ := escapeChar_head d
      rw [hesc] at h
      exact absurd (List.cons.inj h).1.symm ha
  | cons c s ih =>
    cases t with
    | nil =>
      rw [List.flatMap_cons, List.append_assoc] at h
      obtain ⟨a, rest, hesc, ha⟩ := escapeChar_head c
      rw [hesc] at h
      exact absurd (List.cons.inj h).1 ha
    | cons d t =>
      rw [List.flatMap_cons, List.flatMap_cons, List.append_assoc, List.append_assoc] at h
      obtain ⟨rfl, hrest⟩ := escapeChar_cancel h
      obtain ⟨rfl, hr⟩ := ih hrest
      exact ⟨rfl, hr⟩

/-- How keys and strings are written. -/
structure Style where
  key : Text → Text
  str : Text → Text

def Style.strict : Style := ⟨quoted '"', quoted '"'⟩

def Style.loose : Style := ⟨id, quoted '\''⟩

/-! ## Values -/

namespace Json

section

variable (numerals : Numerals) (layout : Layout) (style : Style)

def comma (depth : Nat) : Text := layout.gap .beforeComma depth ++ ',' :: layout.gap .afterComma depth

def colon (depth : Nat) : Text := layout.gap .beforeColon depth ++ ':' :: layout.gap .afterColon depth

mutual
def print (depth : Nat) : Json → Text
  | null => "null".toList
  | bool b => if b then "true".toList else "false".toList
  | num n => numerals.text n
  | str s => style.str s.toList
  | arr xs =>
    '[' :: layout.gap .afterOpen depth ++ printItems (depth + 1) xs ++ layout.gap .beforeClose depth ++ [']']
  | obj kvs =>
    '\x7b' :: layout.gap .afterOpen depth ++ printMembers (depth + 1) kvs ++ layout.gap .beforeClose depth ++
      ['\x7d']

def printItems (depth : Nat) : List Json → Text
  | [] => []
  | x :: xs => print depth x ++ (if xs.isEmpty then [] else comma layout depth) ++ printItems depth xs

def printMembers (depth : Nat) : List (String × Json) → Text
  | [] => []
  | (k, x) :: kvs =>
    style.key k.toList ++ colon layout depth ++ print depth x ++
      (if kvs.isEmpty then [] else comma layout depth) ++ printMembers depth kvs
end

end

mutual
/-- Every number, at any depth. -/
def allNumbers (p : JsonNumber → Bool) : Json → Bool
  | num n => p n
  | arr xs => allNumbersItems p xs
  | obj kvs => allNumbersMembers p kvs
  | null | bool _ | str _ => true

def allNumbersItems (p : JsonNumber → Bool) : List Json → Bool
  | [] => true
  | x :: xs => allNumbers p x && allNumbersItems p xs

def allNumbersMembers (p : JsonNumber → Bool) : List (String × Json) → Bool
  | [] => true
  | (_, x) :: kvs => allNumbers p x && allNumbersMembers p kvs
end

mutual
/-- Every key, at any depth. -/
def allKeys (p : Text → Bool) : Json → Bool
  | arr xs => allKeysItems p xs
  | obj kvs => allKeysMembers p kvs
  | null | bool _ | num _ | str _ => true

def allKeysItems (p : Text → Bool) : List Json → Bool
  | [] => true
  | x :: xs => allKeys p x && allKeysItems p xs

def allKeysMembers (p : Text → Bool) : List (String × Json) → Bool
  | [] => true
  | (k, x) :: kvs => p k.toList && allKeys p x && allKeysMembers p kvs
end

end Json

end Nanna.Lib
